/-
  What the calls of the gateway's device manager leave: a call frees the devices that it
  removes, and the other devices keep their address.
-/
import AliOS.Gateway.DevIdx

namespace Gateway

open Devmgr

/-- The devices that a call takes off their list: the one of the name, or all. -/
def DevCall.Removes (m : Devmgr) (d : ℕ) : DevCall → Prop
  | .delete devid _ => m.findDevinfo devid = some d
  | .leave ieeeAddr _ => m.findDevinfo (ieeeaddrString ieeeAddr) = some d
  | .resetAll => True
  | .join .. | .authorise .. | .addAuthorise .. | .freeUnknown => False

/-! ## What a call leaves -/

variable {m m' m₁ : Devmgr} {d e : ℕ} {x : DevInfo} {f : DevInfo → DevInfo}

/-- The device is left, with its address. -/
def Stays (d : ℕ) (m m' : Devmgr) : Prop :=
  ∀ x, m.heap d = some x → ∃ y, m'.heap d = some y ∧ y.base.u = x.base.u

theorem Stays.refl : Stays d m m := fun x h => ⟨x, h, rfl⟩

theorem Stays.step (h1 : Stays d m m₁) (h2 : Stays d m₁ m') : Stays d m m' := by
  intro x hx
  obtain ⟨y, hy, huy⟩ := h1 x hx
  obtain ⟨z, hz, huz⟩ := h2 y hy
  exact ⟨z, hz, huz.trans huy⟩

theorem Stays.same (h : m'.heap d = m.heap d) : Stays d m m' := fun x hx => ⟨x, h.trans hx, rfl⟩

theorem Stays.edit (hu : ∀ x, (f x).base.u = x.base.u) : Stays d m (m.edit e f) := by
  by_cases hd : d = e
  · subst hd
    exact fun x hx => ⟨f x, edit_heap_self hx, hu x⟩
  · exact .same (edit_heap_ne hd)

theorem Stays.hold : Stays d m (m.holdFound (some e)) := .edit fun _ => rfl

theorem Stays.put (h : Has m e) (he : e ∈ m.listed) : Stays d m (m.putDevinfoRef e) := by
  rw [put_listed h.refs adds_one he]
  exact .edit fun _ => rfl

namespace Devmgr

theorem newDevidx_heap_ne (h : e ≠ d) : (m.newDevidx d).1.heap e = m.heap e := by
  rw [newDevidx]
  split
  · rfl
  · exact edit_heap_ne h

theorem releaseDevidx_heap (i : ℕ) : (m.releaseDevidx i).heap = m.heap := by
  obtain ⟨b, hb⟩ := releaseDevidx_eq (m := m) i
  rw [hb]

theorem removeDevinfo_heap_ne (h : e ≠ d) : (m.removeDevinfo d).heap e = m.heap e := by
  rw [removeDevinfo]
  split
  · rfl
  · exact (dropRef_heap_ne h).trans (edit_heap_ne h)

theorem deleteDevinfo_heap_ne (h : e ≠ d) : (m.deleteDevinfo d).heap e = m.heap e := by
  rw [deleteDevinfo]
  split
  · rfl
  · split_ifs
    · rw [removeDevinfo_heap_ne h, releaseDevidx_heap]
    · exact removeDevinfo_heap_ne h

theorem networkUp_heap_ne {c : Cloud} (h : e ≠ d) : (m.networkUp d c).1.heap e = m.heap e := by
  rw [networkUp]
  split
  · rfl
  · split
    · split
      · rfl
      · dsimp only
        split_ifs
        · exact edit_heap_ne h
        · exact (edit_heap_ne h).trans (edit_heap_ne h)
    all_goals try rfl
    all_goals split_ifs
    all_goals first
      | rfl
      | exact edit_heap_ne h
      | exact (deleteDevinfo_heap_ne h).trans ((edit_heap_ne h).trans (edit_heap_ne h))

theorem addTail_heap_eq {known : Bool} : (m.addTail d known).heap = m.heap := by
  rw [addTail]
  split
  · rfl
  · split_ifs <;> rfl

theorem newDevinfo_heap {malloc : Option ℕ} (h : m.newDevinfo malloc = (m', some e)) (hx : m.heap d = some x) :
    d ≠ e ∧ m'.heap d = m.heap d := by
  unfold newDevinfo at h
  split at h
  · exact absurd (Prod.mk.inj h).2 nofun
  · rename_i e'
    split_ifs at h with hsome
    · exact absurd (Prod.mk.inj h).2 nofun
    obtain ⟨rfl, he⟩ := Prod.mk.inj h
    obtain rfl := Option.some.inj he
    have hne : d ≠ e' := by
      rintro rfl
      exact hsome (by rw [hx]; rfl)
    exact ⟨hne, Function.update_of_ne hne ..⟩

end Devmgr

theorem Idle.stays_join (h : Idle m) (hx : m.heap d = some x) (j : Join) (malloc : Option ℕ) (c : Cloud) :
    Stays d m (m.joinZigbeeDevice j malloc c).1 := by
  rw [Devmgr.joinZigbeeDevice]
  by_cases href : j.refused = true
  · rw [if_pos href]
    exact .refl
  rw [if_neg href]
  rcases h.found (m.findDevinfoByIeeeaddr j.ieeeAddr) findDevinfoByIeeeaddr_listed with
    ⟨hfound, hm⟩ | ⟨e, hfound, he, hhas⟩
  · rw [getDevinfoByIeeeaddr, hfound]
    rw [hfound] at hm
    dsimp only
    rw [hm]
    split
    · rename_i m₁ hnew
      obtain rfl := newDevinfo_none hnew
      exact .refl
    · rename_i m₁ e hnew
      obtain ⟨hne, heq⟩ := newDevinfo_heap hnew hx
      have hedit : ∀ f, (m₁.edit e f).heap d = m.heap d := fun f => (edit_heap_ne hne).trans heq
      have hidx := (newDevidx_heap_ne (m := m₁.edit e (DevInfo.join j)) hne).trans (hedit _)
      have hup := (networkUp_heap_ne (c := c) hne).trans ((edit_heap_ne (f := DevInfo.authorise) hne).trans hidx)
      split_ifs
      · exact .same ((dropRef_heap_ne hne).trans hidx)
      · refine .same ((dropRef_heap_ne hne).trans ?_)
        rw [releaseDevidx_heap]
        exact hup
      · refine .same ?_
        rw [addTail_heap_eq]
        exact hup
      · refine .same ?_
        rw [addTail_heap_eq]
        exact hedit _
  · rw [getDevinfoByIeeeaddr, hfound]
    rw [hfound] at he hhas
    obtain ⟨f, hf, heq, hup⟩ := (hhas.touch touches_rejoin).networkUp (d := e) c
    have hnet : Stays d (m.holdFound (some e)) (((m.holdFound (some e)).edit e (DevInfo.rejoin j)).networkUp e c).1 := by
      rw [heq]
      exact Stays.step (.edit touches_rejoin.u) (.edit hf.u)
    have hin : e ∈ (((m.holdFound (some e)).edit e (DevInfo.rejoin j)).networkUp e c).1.listed := by
      rw [heq]
      exact he
    exact (Stays.hold.step hnet).step (.put hup hin)

theorem Idle.stays_authorise (h : Idle m) (devid : Str) (c : Cloud) : Stays d m (m.authoriseDevice devid c).1 := by
  rw [Devmgr.authoriseDevice]
  rcases h.found (m.findDevinfo devid) findDevinfo_listed with ⟨hfound, hm⟩ | ⟨e, hfound, he, hhas⟩
  · rw [getDevinfo, hfound]
    rw [hfound] at hm
    dsimp only
    rw [hm, getUnknownDevinfo, h.findUnknownDevinfo]
    exact .refl
  · rw [getDevinfo, hfound]
    rw [hfound] at he hhas
    exact Stays.hold.step (.put hhas he)

theorem Idle.stays_addAuthorise (h : Idle m) (hx : m.heap d = some x) (devid : Str) (modelId : UInt32)
    (devType : DevType) (malloc : Option ℕ) : Stays d m (m.addAuthoriseDevice devid modelId devType malloc).1 := by
  rw [Devmgr.addAuthoriseDevice]
  rcases h.found (m.findDevinfo devid) findDevinfo_listed with ⟨hfound, hm⟩ | ⟨e, hfound, he, hhas⟩
  · rw [getDevinfo, hfound]
    rw [hfound] at hm
    dsimp only
    rw [hm]
    split
    · rename_i m₁ hnew
      obtain rfl := newDevinfo_none hnew
      exact .refl
    · rename_i m₁ e hnew
      obtain ⟨hne, heq⟩ := newDevinfo_heap hnew hx
      have hidx := fun f => (newDevidx_heap_ne (m := m₁.edit e f) hne).trans ((edit_heap_ne hne).trans heq)
      split_ifs
      · exact .same ((Function.update_of_ne hne ..).trans (hidx _))
      · refine .same ?_
        rw [addTail_heap_eq]
        exact hidx _
  · rw [getDevinfo, hfound]
    rw [hfound] at he hhas
    exact Stays.hold.step (.put hhas he)

theorem deleteDevinfo_unlisted (h : m.lists.Nodup) (hx : m.heap d = some x) : d ∉ (m.deleteDevinfo d).listed := by
  obtain ⟨b, heq⟩ := deleteDevinfo_eq hx
  rw [heq, Devmgr.removeDevinfo, hx]
  intro hin
  have hoff := Kept.dropRef.listed hin
  have hdel : d ∈ (m.dlistDel d).listed := hoff
  rw [dlistDel_listed h] at hdel
  simpa using (List.mem_filter.1 hdel).2

theorem Idle.freed (h : Idle m) (hd : d ∉ m.listed) : m.heap d = none := (h.refs.freed d).2 ⟨rfl, hd⟩

theorem Idle.deleteDevice_known (h : Idle m) (devid : Str) (c : Cloud) :
    m.deleteDevice devid c = match (m.getDevinfo devid).2 with
      | none => (m.getDevinfo devid).1
      | some d => (((m.getDevinfo devid).1.networkLeave d c).deleteDevinfo d).putDevinfoRef d := by
  rw [Devmgr.deleteDevice, getUnknownDevinfo, h.findUnknownDevinfo]
  rfl

theorem Idle.delete_heap (h : Idle m) (hx : m.heap d = some x) (devid : Str) (c : Cloud) :
    (m.findDevinfo devid ≠ some d → Stays d m (m.deleteDevice devid c)) ∧
      (m.findDevinfo devid = some d → (m.deleteDevice devid c).heap d = none) := by
  have hidle := h.deleteDevice devid c
  rw [h.deleteDevice_known] at hidle ⊢
  rcases h.found (m.findDevinfo devid) findDevinfo_listed with ⟨hfound, -⟩ | ⟨e, hfound, he, hhas⟩
  · rw [getDevinfo, hfound]
    exact ⟨fun _ => .refl, by rintro ⟨⟩⟩
  · rw [getDevinfo, hfound] at hidle ⊢
    rw [hfound] at he hhas
    obtain ⟨f, hf, heq⟩ := networkLeave_touches (m := m.holdFound (some e)) (d := e) c
    dsimp only at hidle ⊢
    rw [heq] at hidle ⊢
    constructor
    · intro hne
      have hde : d ≠ e := fun hde => hne (hde ▸ rfl)
      refine .same ((dropRef_heap_ne hde).trans ((deleteDevinfo_heap_ne hde).trans ?_))
      exact (edit_heap_ne hde).trans (edit_heap_ne hde)
    · rintro hsome
      obtain rfl := Option.some.inj hsome
      have htouch := hhas.touch hf (d := e)
      obtain ⟨y, hy⟩ := htouch.refs.some_of_mem (mem_lists.2 (.inl he))
      exact hidle.freed fun hin => deleteDevinfo_unlisted htouch.refs.nodup hy (Kept.dropRef.listed hin)

theorem deleteAll_listed {l : List ℕ} : (l.foldl Devmgr.deleteDevinfo m).listed ⊆ m.listed := by
  induction l generalizing m with
  | nil => exact List.Subset.refl _
  | cons e l ih => exact fun _ hd => Kept.deleteDevinfo.listed (ih hd)

theorem Gw.deleteAll_unlisted {n : ℕ → ℕ} {p : ℕ → Prop} {l : List ℕ} (h : Gw m n p) (hl : l.Nodup)
    (hin : ∀ e ∈ l, e ∈ m.listed) (hd : d ∈ l) : d ∉ (l.foldl Devmgr.deleteDevinfo m).listed := by
  induction l generalizing m with
  | nil => exact nomatch hd
  | cons e l ih =>
    obtain ⟨he, hl⟩ := List.nodup_cons.1 hl
    have hlisted := hin e List.mem_cons_self
    rcases List.mem_cons.1 hd with rfl | hd
    · obtain ⟨x, hx⟩ := h.refs.some_of_mem (mem_lists.2 (.inl hlisted))
      exact fun hin => deleteDevinfo_unlisted h.refs.nodup hx (deleteAll_listed hin)
    · refine ih (h.deleteDevinfo hlisted).1 hl (fun j hj => ?_) hd
      refine deleteDevinfo_listed (hin j (List.mem_cons_of_mem e hj)) ?_
      rintro rfl
      exact he hj

theorem Idle.reset_heap (h : Idle m) : m.resetAllDevice.heap d = none := by
  have hfree : m.freeUnknownDevlist = m := by
    rw [Devmgr.freeUnknownDevlist, h.unknown]
    rfl
  have hlisted : m.listed = m.devHead := by
    rw [listed, h.unknown, List.append_nil]
  have hidle := h.resetAllDevice
  have hnodup : m.devHead.Nodup := (List.nodup_append.1 (List.nodup_append.1 h.refs.nodup).1).1
  refine hidle.freed fun hin => ?_
  rw [Devmgr.resetAllDevice, hfree, Devmgr.deleteAuthoriseDevlist] at hin
  have hd : d ∈ m.devHead := hlisted ▸ deleteAll_listed hin
  exact h.deleteAll_unlisted hnodup (fun e he => hlisted ▸ he) hd hin

theorem Idle.call_heap (h : Idle m) (hx : m.heap d = some x) (a : DevCall) :
    (¬ a.Removes m d → Stays d m (m.call a)) ∧ (a.Removes m d → (m.call a).heap d = none) := by
  cases a with
  | join j malloc c => exact ⟨fun _ => h.stays_join hx j malloc c, False.elim⟩
  | authorise devid c => exact ⟨fun _ => h.stays_authorise devid c, False.elim⟩
  | addAuthorise devid modelId devType malloc =>
    exact ⟨fun _ => h.stays_addAuthorise hx devid modelId devType malloc, False.elim⟩
  | delete devid c => exact h.delete_heap hx devid c
  | leave ieeeAddr c => exact h.delete_heap hx _ c
  | resetAll => exact ⟨fun hno => absurd trivial hno, fun _ => h.reset_heap⟩
  | freeUnknown =>
    refine ⟨fun _ => ?_, False.elim⟩
    change Stays d m m.freeUnknownDevlist
    rw [Devmgr.freeUnknownDevlist, h.unknown]
    exact .refl

end Gateway
