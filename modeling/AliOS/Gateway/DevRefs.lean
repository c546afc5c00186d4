/-
  The reference counts of the gateway's devices, one section under the lock at a time.

  A device on `dev_head` or `unknown_dev_head` has one reference for the list.  Putting a
  device on a list turns the reference of its maker into that of the list, and taking it off
  turns it back, to be dropped; so every section adds one handle, or drops one.
-/
import AliOS.Gateway.Devmgr
import Mathlib.Data.List.Nodup

namespace Gateway

/-- With `n` handles on each device, and the devices of `p` not yet on a list: the count of a
    device is its handles and the list, it is freed exactly if there are none, and it is on
    exactly one of the three lists. -/
structure Refs (m : Devmgr) (n : ℕ → ℕ) (p : ℕ → Prop) : Prop where
  count : ∀ {d x}, m.heap d = some x → x.refCnt.toNat = n d + if d ∈ m.listed then 1 else 0
  freed : ∀ d, m.heap d = none ↔ n d = 0 ∧ d ∉ m.listed
  nodup : m.lists.Nodup
  mem : ∀ d, d ∈ m.lists ↔ m.heap d ≠ none ∧ ¬ p d

/-- One more handle on `d`. -/
def Adds (n : ℕ → ℕ) (d : ℕ) (n' : ℕ → ℕ) : Prop := ∀ j, n' j = n j + if j = d then 1 else 0

variable {m m' : Devmgr} {n n' : ℕ → ℕ} {p p' : ℕ → Prop} {d j : ℕ} {x : DevInfo} {f : DevInfo → DevInfo}

theorem Adds.self (h : Adds n d n') : n' d = n d + 1 := by rw [h d, if_pos rfl]

theorem Adds.ne (h : Adds n d n') (hj : j ≠ d) : n' j = n j := by rw [h j, if_neg hj, Nat.add_zero]

namespace Devmgr

theorem edit_heap_map : (m.edit d f).heap d = (m.heap d).map f := Function.update_self ..

theorem edit_heap_self (h : m.heap d = some x) : (m.edit d f).heap d = some (f x) := by
  rw [edit_heap_map, h]
  rfl

theorem edit_heap_ne (h : j ≠ d) : (m.edit d f).heap j = m.heap j := Function.update_of_ne h ..

theorem edit_heap_eq_none : (m.edit d f).heap j = none ↔ m.heap j = none := by
  by_cases h : j = d
  · subst h
    simp [edit]
  · rw [edit_heap_ne h]

@[simp] theorem edit_listed : (m.edit d f).listed = m.listed := rfl
@[simp] theorem edit_lists : (m.edit d f).lists = m.lists := rfl

theorem mem_listed : d ∈ m.listed ↔ d ∈ m.devHead ∨ d ∈ m.unknownDevHead := List.mem_append

theorem mem_lists : d ∈ m.lists ↔ d ∈ m.listed ∨ d ∈ m.deleleDevHead := List.mem_append

theorem dlistDel_lists (h : m.lists.Nodup) : (m.dlistDel d).lists = m.lists.filter (· ≠ d) := by
  have h1 : (m.devHead ++ m.unknownDevHead).Nodup := (List.nodup_append.1 h).1
  simp only [lists, listed, dlistDel, List.filter_append, ne_eq]
  rw [(List.nodup_append.1 h1).1.erase_eq_filter, (List.nodup_append.1 h1).2.1.erase_eq_filter,
    (List.nodup_append.1 h).2.1.erase_eq_filter]
  simp [bne, beq_eq_decide]

theorem dlistDel_listed (h : m.lists.Nodup) : (m.dlistDel d).listed = m.listed.filter (· ≠ d) := by
  have h1 : (m.devHead ++ m.unknownDevHead).Nodup := (List.nodup_append.1 h).1
  simp only [listed, dlistDel, List.filter_append]
  rw [(List.nodup_append.1 h1).1.erase_eq_filter, (List.nodup_append.1 h1).2.1.erase_eq_filter]
  simp [bne, beq_eq_decide]

end Devmgr

open Devmgr

theorem Refs.init : Refs .init (fun _ => 0) p :=
  ⟨nofun, fun _ => ⟨fun _ => ⟨rfl, List.not_mem_nil⟩, fun _ => rfl⟩, List.nodup_nil, fun _ => by simp [Devmgr.init, lists, listed]⟩

/-- What the counts speak of: the heap up to fields without a count, and the lists. -/
theorem Refs.congr (h : Refs m n p) (hn : ∀ d, n' d = n d) (hp : ∀ d, p' d ↔ p d)
    (hheap : ∀ d, (m'.heap d).map (·.refCnt) = (m.heap d).map (·.refCnt)) (hl : m'.listed = m.listed)
    (hls : m'.lists = m.lists) : Refs m' n' p' := by
  have hnone : ∀ d, m'.heap d = none ↔ m.heap d = none := by
    intro d
    rw [← Option.map_eq_none_iff (f := fun x : DevInfo => x.refCnt), hheap d, Option.map_eq_none_iff]
  refine ⟨?_, fun d => ?_, hls ▸ h.nodup, fun d => ?_⟩
  · intro d x hx
    have hx' := hheap d
    rw [hx] at hx'
    obtain ⟨y, hy, hxy⟩ := Option.map_eq_some_iff.1 hx'.symm
    rw [hl, hn, ← h.count hy, hxy]
  · rw [hnone, hn, hl]
    exact h.freed d
  · rw [hls, Ne, hnone, hp]
    exact h.mem d

theorem Refs.edit (h : Refs m n p) (hf : ∀ x, (f x).refCnt = x.refCnt) : Refs (m.edit d f) n p := by
  refine h.congr (fun _ => rfl) (fun _ => .rfl) (fun j => ?_) rfl rfl
  by_cases hj : j = d
  · subst hj
    rw [edit_heap_map, Option.map_map]
    exact congrArg (fun g => (m.heap j).map g) (funext hf)
  · rw [edit_heap_ne hj]

theorem Refs.some_of_mem (h : Refs m n p) (hd : d ∈ m.lists) : ∃ x, m.heap d = some x :=
  Option.ne_none_iff_exists'.1 ((h.mem d).1 hd).1

theorem Refs.some_of_handle (h : Refs m n p) (hd : n d ≠ 0) : ∃ x, m.heap d = some x :=
  Option.ne_none_iff_exists'.1 fun hn => hd ((h.freed d).1 hn).1

theorem findDevinfo_listed {name : Str} (h : m.findDevinfo name = some d) : d ∈ m.listed :=
  mem_listed.2 (.inl (List.mem_of_find?_eq_some h))

theorem findUnknownDevinfo_listed {name : Str} (h : m.findUnknownDevinfo name = some d) : d ∈ m.listed :=
  mem_listed.2 (.inr (List.mem_of_find?_eq_some h))

theorem findDevinfoByIeeeaddr_listed {ieeeAddr : List UInt8} (h : m.findDevinfoByIeeeaddr ieeeAddr = some d) :
    d ∈ m.listed :=
  mem_listed.2 (.inl (List.mem_of_find?_eq_some h))

theorem Refs.hold (h : Refs m n p) (hn : Adds n d n') (hx : m.heap d = some x) (hroom : x.refCnt ≠ 255) :
    Refs (m.holdDevinfoRef d) n' p := by
  refine ⟨?_, fun j => ?_, h.nodup, fun j => ?_⟩
  · intro j y hy
    by_cases hj : j = d
    · subst hj
      rw [holdDevinfoRef, edit_heap_self hx] at hy
      cases hy
      have hlt : x.refCnt.toNat + 1 < 256 := by
        have hne : x.refCnt.toNat ≠ 255 := fun he => hroom (UInt8.toNat_inj.1 he)
        have := x.refCnt.toNat_lt
        omega
      have hc := h.count hx
      change (x.refCnt + 1).toNat = _
      rw [UInt8.toNat_add, hn.self]
      change (x.refCnt.toNat + 1) % 256 = n j + 1 + if j ∈ m.listed then 1 else 0
      omega
    · rw [holdDevinfoRef, edit_heap_ne hj] at hy
      rw [hn.ne hj]
      exact h.count hy
  · rw [holdDevinfoRef, edit_heap_eq_none, h.freed j]
    by_cases hj : j = d
    · subst hj
      have hsome : ¬ (n j = 0 ∧ j ∉ m.listed) := fun hno => nomatch hx ▸ (h.freed j).2 hno
      rw [hn.self]
      exact ⟨fun hno => absurd hno hsome, fun hno => absurd hno.1 (Nat.succ_ne_zero _)⟩
    · rw [hn.ne hj]
      rfl
  · rw [holdDevinfoRef, Ne, edit_heap_eq_none]
    exact h.mem j

theorem Refs.drop (h : Refs m n' p) (hn : Adds n d n') (hnew : p d → n d = 0) (hp : ∀ j, p' j ↔ p j ∧ j ≠ d) :
    Refs (m.dropRef d) n p' := by
  obtain ⟨x, hx⟩ := h.some_of_handle (by rw [hn.self]; exact Nat.succ_ne_zero _)
  have hc := h.count hx
  rw [hn.self] at hc
  have hsub : (x.refCnt - 1).toNat = n d + if d ∈ m.listed then 1 else 0 := by
    rw [UInt8.toNat_sub_of_le _ _ (by rw [UInt8.le_iff_toNat_le]; change 1 ≤ _; omega)]
    change x.refCnt.toNat - 1 = _
    omega
  have hheap : (m.edit d fun x => { x with refCnt := x.refCnt - 1 }).heap d =
      some { x with refCnt := x.refCnt - 1 } := edit_heap_self hx
  by_cases hzero : x.refCnt - 1 = 0
  · have hnd : n d = 0 ∧ d ∉ m.listed := by
      rw [hzero] at hsub
      change 0 = _ at hsub
      split_ifs at hsub with hl
      exact ⟨by omega, hl⟩
    have heq : m.dropRef d = (m.edit d fun x => { x with refCnt := x.refCnt - 1 }).freeDevinfo d := by
      rw [dropRef]
      exact if_pos (by rw [hheap]; simp [hzero])
    have hls : (m.dropRef d).lists = m.lists.filter (· ≠ d) := by
      rw [heq]
      exact dlistDel_lists (m := m.edit d _) h.nodup
    have hl : (m.dropRef d).listed = m.listed.filter (· ≠ d) := by
      rw [heq]
      exact dlistDel_listed (m := m.edit d _) h.nodup
    have hheap' : ∀ j, (m.dropRef d).heap j = if j = d then none else m.heap j := by
      intro j
      rw [heq, freeDevinfo]
      by_cases hj : j = d
      · rw [hj, if_pos rfl]
        exact Function.update_self ..
      · rw [if_neg hj]
        exact (Function.update_of_ne hj ..).trans (edit_heap_ne hj)
    refine ⟨?_, fun j => ?_, hls ▸ h.nodup.filter _, fun j => ?_⟩
    · intro j y hy
      rw [hheap'] at hy
      split_ifs at hy with hj
      rw [h.count hy, hn.ne hj, hl]
      simp [hj]
    · rw [hheap', hl]
      by_cases hj : j = d
      · subst hj
        simp [hnd.1]
      · rw [if_neg hj, h.freed j, hn.ne hj]
        simp [hj]
    · rw [hls, hheap', hp]
      by_cases hj : j = d
      · simp [hj]
      · rw [if_neg hj, List.mem_filter, h.mem j]
        simp [hj]
  · have heq : m.dropRef d = m.edit d fun x => { x with refCnt := x.refCnt - 1 } := by
      rw [dropRef]
      exact if_neg (by rw [hheap]; simp [hzero])
    have hpos : n d ≠ 0 ∨ d ∈ m.listed := by
      by_contra hno
      rw [not_or, not_not] at hno
      rw [hno.1, if_neg hno.2] at hsub
      exact hzero (UInt8.toNat_inj.1 hsub)
    rw [heq]
    refine ⟨?_, fun j => ?_, h.nodup, fun j => ?_⟩
    · intro j y hy
      by_cases hj : j = d
      · subst hj
        rw [hheap] at hy
        cases hy
        exact hsub
      · rw [edit_heap_ne hj] at hy
        rw [h.count hy, hn.ne hj]
        rfl
    · rw [edit_heap_eq_none]
      by_cases hj : j = d
      · subst hj
        constructor
        · intro hno
          rw [hx] at hno
          exact absurd hno nofun
        · rintro ⟨h₀, hl⟩
          exact absurd hpos (by rw [not_or, not_not]; exact ⟨h₀, hl⟩)
      · rw [h.freed j, hn.ne hj]
        rfl
    · rw [Ne, edit_heap_eq_none, edit_lists, h.mem j, hp]
      refine and_congr_right fun _ => not_congr ⟨fun hpj => ⟨hpj, ?_⟩, And.left⟩
      rintro rfl
      -- a new device has no other handle, and is on no list
      have hl : j ∈ m.listed := hpos.resolve_left fun hno => hno (hnew hpj)
      exact ((h.mem j).1 (mem_lists.2 (.inl hl))).2 hpj

theorem Refs.unlist (h : Refs m n p) (hn : Adds n d n') (hd : d ∈ m.listed) :
    Refs { m.dlistDel d with deleleDevHead := d :: (m.dlistDel d).deleleDevHead } n' p := by
  have hlists := dlistDel_lists (d := d) h.nodup
  have hlisted := dlistDel_listed (d := d) h.nodup
  have hin := (h.mem d).1 (mem_lists.2 (.inl hd))
  have hperm : ({ m.dlistDel d with deleleDevHead := d :: (m.dlistDel d).deleleDevHead } : Devmgr).lists.Perm
      (d :: m.lists.filter (· ≠ d)) := by
    rw [← hlists]
    exact List.perm_middle
  have hmem : ∀ j, j ∈ ({ m.dlistDel d with deleleDevHead := d :: (m.dlistDel d).deleleDevHead } : Devmgr).listed ↔
      j ∈ m.listed ∧ j ≠ d := by
    intro j
    change j ∈ (m.dlistDel d).listed ↔ _
    rw [hlisted, List.mem_filter, decide_eq_true_eq]
  refine ⟨?_, fun j => ?_, ?_, fun j => ?_⟩
  · intro j y hy
    rw [h.count hy]
    by_cases hj : j = d
    · subst hj
      rw [hn.self, if_pos hd, if_neg fun hm => ((hmem j).1 hm).2 rfl]
    · rw [hn.ne hj]
      simp only [hmem, ne_eq, hj, not_false_eq_true, and_true]
  · change m.heap j = none ↔ _
    rw [h.freed j, hmem]
    by_cases hj : j = d
    · subst hj
      simp [hd, hn.self]
    · simp [hj, hn.ne hj]
  · rw [hperm.nodup_iff]
    exact List.nodup_cons.2 ⟨fun hm => by simpa using (List.mem_filter.1 hm).2, h.nodup.filter _⟩
  · rw [hperm.mem_iff, List.mem_cons, List.mem_filter, h.mem j, decide_eq_true_eq]
    change _ ↔ m.heap j ≠ none ∧ ¬ p j
    by_cases hj : j = d
    · subst hj
      simp [hin.1, hin.2]
    · simp [hj]

theorem Refs.removeDevinfo (h : Refs m n p) (hd : d ∈ m.listed) : Refs (m.removeDevinfo d) n p := by
  obtain ⟨x, hx⟩ := h.some_of_mem (mem_lists.2 (.inl hd))
  have hedit : Refs (m.edit d fun x => { x with deviceIdx := NO_DEVIDX }) n p := h.edit fun _ => rfl
  have hp := ((h.mem d).1 (mem_lists.2 (.inl hd))).2
  have hoff := hedit.unlist (d := d) (fun _ => rfl) hd
  have hdrop : Refs _ n p := hoff.drop (fun _ => rfl) (fun hpd => absurd hpd hp)
    fun j => ⟨fun hj => ⟨hj, fun he => hp (he ▸ hj)⟩, And.left⟩
  rw [Devmgr.removeDevinfo, hx]
  exact hdrop

theorem Devmgr.releaseDevidx_eq (i : ℕ) : ∃ b, m.releaseDevidx i = { m with devidxBitMap := b } := by
  rw [releaseDevidx]
  split_ifs
  · exact ⟨_, rfl⟩
  · exact ⟨m.devidxBitMap, rfl⟩

theorem deleteDevinfo_eq (hx : m.heap d = some x) :
    ∃ b, m.deleteDevinfo d = { m with devidxBitMap := b }.removeDevinfo d := by
  rw [Devmgr.deleteDevinfo, hx]
  dsimp only
  split_ifs
  · obtain ⟨b, hb⟩ := Devmgr.releaseDevidx_eq (m := m) x.deviceIdx.toNat
    exact ⟨b, by rw [hb]⟩
  · exact ⟨m.devidxBitMap, rfl⟩

theorem Refs.bitMap (h : Refs m n p) (b : ℕ → BitVec 8) : Refs { m with devidxBitMap := b } n p :=
  ⟨h.count, h.freed, h.nodup, h.mem⟩

theorem Refs.deleteDevinfo (h : Refs m n p) (hd : d ∈ m.listed) : Refs (m.deleteDevinfo d) n p := by
  obtain ⟨x, hx⟩ := h.some_of_mem (mem_lists.2 (.inl hd))
  rw [Devmgr.deleteDevinfo, hx]
  dsimp only
  split_ifs
  · obtain ⟨b, hb⟩ := Devmgr.releaseDevidx_eq (m := m) x.deviceIdx.toNat
    rw [hb]
    exact (h.bitMap b).removeDevinfo hd
  · exact h.removeDevinfo hd

theorem Refs.newDevidx (h : Refs m n p) : Refs (m.newDevidx d).1 n p := by
  rw [Devmgr.newDevidx]
  split
  · exact h
  · exact Refs.edit (h.bitMap _) fun _ => rfl

theorem Refs.newDevinfo {malloc : Option ℕ} (h : Refs m n p) (hm : m.newDevinfo malloc = (m', some d))
    (hn : Adds n d n') (hp : ∀ j, p' j ↔ p j ∨ j = d) : m.heap d = none ∧ Refs m' n' p' := by
  unfold Devmgr.newDevinfo at hm
  split at hm
  · exact absurd (Prod.mk.inj hm).2 nofun
  · rename_i e
    split_ifs at hm with hsome
    · exact absurd (Prod.mk.inj hm).2 nofun
    obtain ⟨rfl, he⟩ := Prod.mk.inj hm
    obtain rfl := Option.some.inj he
    have hnone : m.heap e = none := by simpa using hsome
    have hfree := (h.freed e).1 hnone
    have hheap : ∀ {j} v, j ≠ e → Function.update m.heap e v j = m.heap j := fun v hj => Function.update_of_ne hj ..
    refine ⟨hnone, ?_, fun j => ?_, h.nodup, fun j => ?_⟩
    · intro j y hy
      by_cases hj : j = e
      · subst hj
        obtain rfl := Option.some.inj ((Function.update_self j _ m.heap).symm.trans hy)
        rw [hn.self, hfree.1]
        change 1 = 0 + 1 + if j ∈ m.listed then 1 else 0
        rw [if_neg hfree.2]
      · rw [hn.ne hj]
        exact h.count ((hheap _ hj).symm.trans hy)
    · change Function.update m.heap e _ j = none ↔ n' j = 0 ∧ j ∉ m.listed
      by_cases hj : j = e
      · subst hj
        simp [hn.self]
      · rw [hheap _ hj, h.freed j, hn.ne hj]
    · change j ∈ m.lists ↔ Function.update m.heap e _ j ≠ none ∧ _
      by_cases hj : j = e
      · subst hj
        have hnot : j ∉ m.lists := fun hin => ((h.mem j).1 hin).1 hnone
        simp [hp, hnot]
      · rw [hheap _ hj, h.mem j, hp]
        simp [hj]

theorem newDevinfo_none {malloc : Option ℕ} (h : m.newDevinfo malloc = (m', none)) : m' = m := by
  unfold Devmgr.newDevinfo at h
  split at h
  · exact (Prod.mk.inj h).1.symm
  · split_ifs at h
    · exact (Prod.mk.inj h).1.symm
    · exact absurd (Prod.mk.inj h).2 nofun

theorem newDevinfo_eq {malloc : Option ℕ} (h : m.newDevinfo malloc = (m', some d)) :
    ∃ x : DevInfo, x.deviceIdx = NO_DEVIDX ∧ m' = { m with heap := Function.update m.heap d (some x) } := by
  unfold Devmgr.newDevinfo at h
  split at h
  · exact absurd (Prod.mk.inj h).2 nofun
  · split_ifs at h
    · exact absurd (Prod.mk.inj h).2 nofun
    obtain ⟨rfl, he⟩ := Prod.mk.inj h
    cases he
    exact ⟨_, rfl, rfl⟩

theorem addTail_heap {known : Bool} (hx : m.heap d = some x) : (m.addTail d known).heap = m.heap := by
  rw [Devmgr.addTail, hx]
  split_ifs <;> rfl

theorem addTail_listed {known : Bool} (hx : m.heap d = some x) : (m.addTail d known).listed.Perm (d :: m.listed) := by
  rw [Devmgr.addTail, hx]
  split_ifs
  · rw [listed, List.append_assoc]
    exact List.perm_middle
  · rw [listed, ← List.append_assoc]
    exact List.perm_append_singleton _ _

theorem Refs.addTail {known : Bool} (h : Refs m n' p) (hn : Adds n d n') (hp : p d)
    (hp' : ∀ j, p' j ↔ p j ∧ j ≠ d) : Refs (m.addTail d known) n p' := by
  obtain ⟨x, hx⟩ := h.some_of_handle (by rw [hn.self]; exact Nat.succ_ne_zero _)
  have hnot : d ∉ m.lists := fun hin => ((h.mem d).1 hin).2 hp
  have hnotl : d ∉ m.listed := fun hin => hnot (mem_lists.2 (.inl hin))
  have hheap : (m.addTail d known).heap = m.heap := addTail_heap hx
  have hlisted : (m.addTail d known).listed.Perm (d :: m.listed) := addTail_listed hx
  have hlists : (m.addTail d known).lists.Perm (d :: m.lists) := by
    have hdel : (m.addTail d known).deleleDevHead = m.deleleDevHead := by
      rw [Devmgr.addTail, hx]
      split_ifs <;> rfl
    rw [lists, hdel]
    exact hlisted.append_right _
  refine ⟨?_, fun j => ?_, ?_, fun j => ?_⟩
  · intro j y hy
    rw [hheap] at hy
    rw [h.count hy]
    by_cases hj : j = d
    · subst hj
      rw [hn.self, if_neg hnotl, if_pos (hlisted.mem_iff.2 List.mem_cons_self)]
    · rw [hn.ne hj]
      simp only [hlisted.mem_iff, List.mem_cons, hj, false_or]
  · rw [hheap, h.freed j, hlisted.mem_iff]
    by_cases hj : j = d
    · subst hj
      simp [hn.self]
    · simp [hj, hn.ne hj]
  · exact hlists.nodup_iff.2 (List.nodup_cons.2 ⟨hnot, h.nodup⟩)
  · rw [hlists.mem_iff, List.mem_cons, h.mem j, hheap, hp']
    by_cases hj : j = d
    · subst hj
      simp [hx]
    · simp [hj]

theorem Refs.moveToDevHead (h : Refs m n p) (hd : d ∈ m.listed) :
    Refs (m.moveToDevHead d) n p ∧ (m.moveToDevHead d).listed.Perm m.listed ∧ (m.moveToDevHead d).heap = m.heap := by
  obtain ⟨x, hx⟩ := h.some_of_mem (mem_lists.2 (.inl hd))
  have heq : m.moveToDevHead d = { m.dlistDel d with devHead := (m.dlistDel d).devHead ++ [d] } := by
    rw [Devmgr.moveToDevHead, hx]
  have hback : ∀ {l : List ℕ}, l.Nodup → d ∈ l → (d :: l.filter (· ≠ d)).Perm l := by
    intro l hl hin
    have herase : l.erase d = l.filter (· ≠ d) := by
      rw [hl.erase_eq_filter]
      simp [bne, beq_eq_decide]
    rw [← herase]
    exact (List.perm_cons_erase hin).symm
  have hlisted : (m.moveToDevHead d).listed.Perm m.listed := by
    refine .trans ?_ (hback (List.nodup_append.1 h.nodup).1 hd)
    rw [← dlistDel_listed h.nodup, heq, listed, List.append_assoc]
    exact List.perm_middle
  have hlists : (m.moveToDevHead d).lists.Perm m.lists := by
    refine .trans ?_ (hback h.nodup (mem_lists.2 (.inl hd)))
    rw [← dlistDel_lists h.nodup, heq, lists, listed, List.append_assoc, List.append_assoc]
    refine List.perm_middle.trans ?_
    rw [lists, listed, List.append_assoc]
    exact .refl _
  have hheap : (m.moveToDevHead d).heap = m.heap := by rw [heq]; rfl
  refine ⟨⟨?_, fun j => ?_, hlists.nodup_iff.2 h.nodup, fun j => ?_⟩, hlisted, hheap⟩
  · intro j y hy
    rw [hheap] at hy
    simp only [h.count hy, hlisted.mem_iff]
  · rw [hheap, hlisted.mem_iff]
    exact h.freed j
  · rw [hlists.mem_iff, hheap]
    exact h.mem j

/-! ## What stays -/

/-- The states that the calls here lead to. -/
def Settled (x : DevInfo) : Prop := x.cloudState ≠ .registered ∧ x.cloudState ≠ .logouted

/-- The fields that a thread writes without the lock. -/
structure Touches (f : DevInfo → DevInfo) : Prop where
  refCnt : ∀ x, (f x).refCnt = x.refCnt
  deviceIdx : ∀ x, (f x).deviceIdx = x.deviceIdx
  u : ∀ x, (f x).base.u = x.base.u
  settled : ∀ {x}, Settled x → Settled (f x)

/-- The devices that are left, and those on `dev_head` or `unknown_dev_head`, were there. -/
structure Kept (m m' : Devmgr) : Prop where
  heap : ∀ {d y}, m'.heap d = some y → ∃ x, m.heap d = some x ∧ y.base.u = x.base.u ∧ (Settled x → Settled y)
  listed : m'.listed ⊆ m.listed

theorem Kept.refl : Kept m m := ⟨fun {_ y} h => ⟨y, h, rfl, id⟩, List.Subset.refl _⟩

theorem Kept.step {m1 : Devmgr} (h1 : Kept m m1) (h2 : Kept m1 m') : Kept m m' := by
  refine ⟨fun {d z} hz => ?_, fun _ hd => h1.listed (h2.listed hd)⟩
  obtain ⟨y, hy, huy, hsy⟩ := h2.heap hz
  obtain ⟨x, hx, hux, hsx⟩ := h1.heap hy
  exact ⟨x, hx, huy.trans hux, fun h => hsy (hsx h)⟩

theorem Kept.edit (hu : ∀ x, (f x).base.u = x.base.u) (hs : ∀ {x}, Settled x → Settled (f x)) :
    Kept m (m.edit d f) := by
  refine ⟨fun {j y} hy => ?_, List.Subset.refl _⟩
  by_cases hj : j = d
  · subst hj
    rw [edit_heap_map] at hy
    obtain ⟨x, hx, rfl⟩ := Option.map_eq_some_iff.1 hy
    exact ⟨x, hx, hu x, hs⟩
  · exact ⟨y, edit_heap_ne hj ▸ hy, rfl, id⟩

theorem Kept.bitMap (b : ℕ → BitVec 8) : Kept m { m with devidxBitMap := b } :=
  ⟨fun {_ y} h => ⟨y, h, rfl, id⟩, List.Subset.refl _⟩

theorem Kept.dlistDel : Kept m (m.dlistDel d) := by
  refine ⟨fun {_ y} h => ⟨y, h, rfl, id⟩, fun j hj => ?_⟩
  rcases mem_listed.1 hj with h | h
  · exact mem_listed.2 (.inl (List.mem_of_mem_erase h))
  · exact mem_listed.2 (.inr (List.mem_of_mem_erase h))

theorem Kept.dropRef : Kept m (m.dropRef d) := by
  have hedit : Kept m (m.edit d fun x => { x with refCnt := x.refCnt - 1 }) := .edit (fun _ => rfl) id
  rw [Devmgr.dropRef]
  split_ifs
  · refine hedit.step ⟨fun {j y} hy => ?_, Kept.dlistDel.listed⟩
    by_cases hj : j = d
    · subst hj
      have hnone : ((m.edit j fun x => { x with refCnt := x.refCnt - 1 }).freeDevinfo j).heap j = none :=
        Function.update_self ..
      exact nomatch hnone.symm.trans hy
    · exact ⟨y, (Function.update_of_ne hj ..).symm.trans hy, rfl, id⟩
  · exact hedit

theorem Kept.removeDevinfo : Kept m (m.removeDevinfo d) := by
  rw [Devmgr.removeDevinfo]
  split
  · exact .refl
  · have hedit : Kept m (m.edit d fun x => { x with deviceIdx := NO_DEVIDX }) := .edit (fun _ => rfl) id
    have hpush (m : Devmgr) : Kept m { m with deleleDevHead := d :: m.deleleDevHead } :=
      ⟨fun {_ y} h => ⟨y, h, rfl, id⟩, List.Subset.refl _⟩
    exact ((hedit.step .dlistDel).step (hpush _)).step .dropRef

theorem Kept.deleteDevinfo : Kept m (m.deleteDevinfo d) := by
  rw [Devmgr.deleteDevinfo]
  split
  · exact .refl
  · split_ifs
    · obtain ⟨b, hb⟩ := Devmgr.releaseDevidx_eq (m := m) _
      rw [hb]
      exact (Kept.bitMap b).step .removeDevinfo
    · exact .removeDevinfo

theorem Kept.newDevidx : Kept m (m.newDevidx d).1 := by
  rw [Devmgr.newDevidx]
  split
  · exact .refl
  · rename_i index _
    have hedit {m : Devmgr} : Kept m (m.edit d fun x => { x with deviceIdx := .ofNat index }) :=
      .edit (fun _ => rfl) id
    exact (Kept.bitMap _).step hedit

theorem Touches.refs (hf : Touches f) (h : Refs m n p) : Refs (m.edit d f) n p := h.edit hf.refCnt

theorem Touches.kept (hf : Touches f) : Kept m (m.edit d f) := .edit hf.u hf.settled

theorem touches_id : Touches id := ⟨fun _ => rfl, fun _ => rfl, fun _ => rfl, id⟩

theorem touches_state {c : DeviceState} (h1 : c ≠ .registered) (h2 : c ≠ .logouted) :
    Touches fun x => { x with cloudState := c } :=
  ⟨fun _ => rfl, fun _ => rfl, fun _ => rfl, fun _ => ⟨h1, h2⟩⟩

theorem Touches.comp {g : DevInfo → DevInfo} (hg : Touches g) (hf : Touches f) : Touches (g ∘ f) :=
  ⟨fun x => (hg.refCnt _).trans (hf.refCnt x), fun x => (hg.deviceIdx _).trans (hf.deviceIdx x),
    fun x => (hg.u _).trans (hf.u x), fun hx => hg.settled (hf.settled hx)⟩

theorem Devmgr.edit_edit {g : DevInfo → DevInfo} : (m.edit d f).edit d g = m.edit d (g ∘ f) := by
  simp only [edit, Function.update_self, Option.map_map, Function.update_idem]

theorem Devmgr.edit_id : m.edit d id = m := by
  rw [edit, Option.map_id]
  exact congrArg (fun h => { m with heap := h }) (Function.update_eq_self ..)

theorem networkLeave_touches (c : Cloud) : ∃ f, Touches f ∧ m.networkLeave d c = m.edit d f := by
  refine ⟨_, ⟨fun x => ?_, fun x => ?_, fun x => ?_, fun {x} hx => ?_⟩, rfl⟩
  all_goals split
  all_goals try split_ifs
  all_goals first | rfl | exact hx | exact ⟨nofun, nofun⟩

theorem networkUp_touches (hs : ∀ {x}, m.heap d = some x → Settled x) (c : Cloud) :
    ∃ f, Touches f ∧ (m.networkUp d c).1 = m.edit d f := by
  have hnone : ∃ f, Touches f ∧ m = m.edit d f := ⟨id, touches_id, edit_id.symm⟩
  rw [networkUp]
  split
  · exact hnone
  · rename_i x hx
    have hset := hs hx
    split
    · split
      · exact hnone
      · rename_i uuid _
        have huuid : Touches fun x => { x with base := { x.base with uuid := uuid } } :=
          ⟨fun _ => rfl, fun _ => rfl, fun _ => rfl, id⟩
        dsimp only
        split_ifs
        · exact ⟨_, huuid, rfl⟩
        · rw [edit_edit]
          exact ⟨_, (touches_state (by nofun) (by nofun)).comp huuid, rfl⟩
    · rename_i hreg
      exact absurd hreg hset.1
    · rename_i hout
      exact absurd hout hset.2
    · exact hnone

/-! ## What goes wrong -/

theorem Refs.not_hold (hx : m.heap d = some x) (hfull : x.refCnt = 255) (hn : n' d ≠ 0) :
    ¬ Refs (m.holdDevinfoRef d) n' p := by
  intro h
  have hc := h.count (edit_heap_self hx)
  rw [hfull] at hc
  change 0 = _ at hc
  omega

theorem Refs.not_dropRef (hx : m.heap d = some x) (hc : x.refCnt.toNat = n d) (hd : d ∉ m.listed) (hn : n d ≠ 0) :
    ¬ Refs (m.dropRef d) n p := by
  intro h
  have hheap : (m.edit d fun x => { x with refCnt := x.refCnt - 1 }).heap d =
      some { x with refCnt := x.refCnt - 1 } := edit_heap_self hx
  rw [dropRef] at h
  split_ifs at h with hzero
  · have hnone : ((m.edit d fun x => { x with refCnt := x.refCnt - 1 }).freeDevinfo d).heap d = none :=
      Function.update_self ..
    exact hn ((h.freed d).1 hnone).1
  · have hsub : (x.refCnt - 1).toNat = x.refCnt.toNat - 1 :=
      UInt8.toNat_sub_of_le _ _ (by rw [UInt8.le_iff_toNat_le]; change 1 ≤ _; omega)
    have hcount := h.count hheap
    rw [edit_listed, if_neg hd] at hcount
    change (x.refCnt - 1).toNat = _ at hcount
    omega

/-- Deleting a device that is on neither list takes a reference that it does not have. -/
theorem Refs.not_deleteDevinfo (h : Refs m n p) (hx : m.heap d = some x) (hd : d ∉ m.listed) (hn : n d ≠ 0) :
    ¬ Refs (m.deleteDevinfo d) n p := by
  obtain ⟨b, heq⟩ := deleteDevinfo_eq hx
  have hcount := h.count hx
  rw [if_neg hd, Nat.add_zero] at hcount
  rw [heq, Devmgr.removeDevinfo, hx]
  refine Refs.not_dropRef (x := { x with deviceIdx := NO_DEVIDX }) (edit_heap_self hx) hcount ?_ hn
  intro hin
  rw [listed] at hin
  refine hd (mem_listed.2 ?_)
  rcases List.mem_append.1 hin with hm | hm
  · exact .inl (List.mem_of_mem_erase hm)
  · exact .inr (List.mem_of_mem_erase hm)

/-- Moving a device that is on neither list makes a reference that nobody took. -/
theorem Refs.not_moveToDevHead (h : Refs m n p) (hx : m.heap d = some x) (hd : d ∉ m.listed) :
    ¬ Refs (m.moveToDevHead d) n p := by
  intro h'
  rw [Devmgr.moveToDevHead, hx] at h'
  have hin : d ∈ ({ m.dlistDel d with devHead := (m.dlistDel d).devHead ++ [d] } : Devmgr).listed :=
    mem_listed.2 (.inl (by simp))
  have hc := h'.count (d := d) hx
  rw [if_pos hin, h.count hx, if_neg hd] at hc
  omega

end Gateway
