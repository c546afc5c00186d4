/-
  Every order of the steps of `Wsf/Queue.lean`.

  `View` says for one call what its node and the queue look like at each place the
  call can be in; a step changes the view of one call, or of the call and of the
  node that `wsf_del_first_msg` takes.
-/
import AliOS.Wsf.Queue

namespace Wsf

open Lib

/-- The node is not in the queue yet. -/
def Pc.early : Pc → Bool
  | .check | .drop | .add => true
  | _ => false

/-- The node was put in the queue, and not seen to be out of it. -/
def Pc.inQueue : Pc → Bool
  | .send | .wait | .got | .popCheck _ | .popLen _ | .popLock _ | .returned .sent => true
  | _ => false

/-- What the call is going to end with. -/
def Pc.result : Pc → Option Result
  | .popCheck r | .popLen r | .popLock r | .destroy r | .returned r => some r
  | _ => none

/-- The call has returned. -/
def Pc.ended : Pc → Bool
  | .returned _ => true
  | _ => false

/-! ## The property -/

/-- What a call with this id and callback may end with. -/
def Ends (c : Call) : Result → Prop
  | .response r => ∃ rsp, r = some rsp ∧ rsp.msgId = c.id
  | .sent => c.cb ≠ none
  | _ => True

/-- Requests and responses are matched: the node of a synchronous call is there until
    the call returns, and the node that the receive thread holds is there; what returned
    has a response with its id, has timed out, or was not sent; and the length is the
    number of linked nodes. -/
structure Matched (w : World) : Prop where
  fault : w.fault = false
  waited : ∀ t c, w.call t = some c → c.cb = none → c.pc.ended = false → w.heap t ≠ none
  held : ∀ t rsp, w.rx = some (t, rsp) → w.heap t ≠ none
  returned : ∀ t c r, w.call t = some c → c.pc = .returned r → Ends c r
  length : w.length = w.list.length

/-- A full queue drops no node of a synchronous call; a request that was not sent finds
    its node when it takes it out of the queue; and a call destroys its node, which is
    there, while the receive thread does not hold it. -/
def PcMeets (w : World) (t : ℕ) : Pc → Prop
  | .drop => ∀ t' n, w.list.getLast? = some t' → w.heap t' = some n → n.cb ≠ none
  | .popCheck _ | .popLock _ => w.heap t ≠ none
  | .destroy _ => w.heap t ≠ none ∧ ∀ rsp, w.rx ≠ some (t, rsp)
  | _ => True

def Meets (w : World) : Act → Prop
  | .run t _ => ∀ c, w.call t = some c → PcMeets w t c.pc
  | _ => True

/-! ## One call -/

/-- What holds of the call wherever its node is. -/
structure CallOk (c : Call) : Prop where
  sync : c.pc = .wait ∨ c.pc = .got → c.cb = none
  ends : ∀ r, c.pc.result = some r → Ends c r

/-- The call and its node; `linked` says whether the node is in the queue, `held`
    whether the receive thread holds it with a response. -/
structure Live (c : Call) (n : Node) (linked : Prop) (held : Msg → Prop) : Prop where
  ok : CallOk c
  id : n.id = c.id
  cb : n.cb = c.cb
  response : ∀ rsp, n.response = some rsp → rsp.msgId = n.id
  alone : n.alone = n.response.isSome
  posts : n.posts ≠ 0 → n.response ≠ none
  linked : linked ↔ n.response = none ∧ c.pc.inQueue = true
  held : ∀ rsp, held rsp → n.response = some rsp
  early : c.pc.early = true → n.response = none
  got : c.pc = .got → n.response ≠ none
  ended : c.pc.ended = true → c.cb ≠ none

/-- The call whose node was freed. -/
structure Freed (c : Call) : Prop where
  ok : CallOk c
  early : c.pc.early = false
  sync : c.cb = none → c.pc.ended = true

/-- What the queue and the heap look like from a call. -/
def View (c : Option Call) (n : Option Node) (linked : Prop) (held : Msg → Prop) : Prop :=
  match c, n with
  | some c, some n => Live c n linked held
  | some c, none => Freed c ∧ ¬ linked ∧ ∀ rsp, ¬ held rsp
  | none, some _ => False
  | none, none => ¬ linked ∧ ∀ rsp, ¬ held rsp

/-- The invariant of the runs in which requests and responses are matched. -/
structure Inv (w : World) : Prop where
  fault : w.fault = false
  length : w.length = w.list.length
  nodup : w.list.Nodup
  view : ∀ t, View (w.call t) (w.heap t) (t ∈ w.list) (fun rsp => w.rx = some (t, rsp))

variable {w w' : World} {t : ℕ} {c : Call} {n : Node} {maxLen : ℕ}

theorem Inv.live (hi : Inv w) (hc : w.call t = some c) (hn : w.heap t = some n) :
    Live c n (t ∈ w.list) (fun rsp => w.rx = some (t, rsp)) := by
  have h := hi.view t
  rw [hc, hn] at h
  exact h

theorem Inv.freed (hi : Inv w) (hc : w.call t = some c) (hn : w.heap t = none) :
    Freed c ∧ t ∉ w.list ∧ ∀ rsp, w.rx ≠ some (t, rsp) := by
  have h := hi.view t
  rw [hc, hn] at h
  exact h

theorem Inv.linked_node (hi : Inv w) (ht : t ∈ w.list) :
    ∃ c n, w.call t = some c ∧ w.heap t = some n ∧ n.response = none ∧ c.pc.inQueue = true := by
  have h := hi.view t
  cases hc : w.call t with
  | none =>
    cases hn : w.heap t with
    | none =>
      rw [hc, hn] at h
      exact absurd ht h.1
    | some n =>
      rw [hc, hn] at h
      exact h.elim
  | some c =>
    cases hn : w.heap t with
    | none => exact absurd ht (hi.freed hc hn).2.1
    | some n => exact ⟨c, n, rfl, rfl, (hi.live hc hn).linked.1 ht⟩

theorem Inv.held_node {rsp : Msg} (hi : Inv w) (hr : w.rx = some (t, rsp)) :
    ∃ c n, w.call t = some c ∧ w.heap t = some n ∧ n.response = some rsp := by
  have h := hi.view t
  cases hc : w.call t with
  | none =>
    cases hn : w.heap t with
    | none =>
      rw [hc, hn] at h
      exact absurd hr (h.2 _)
    | some n =>
      rw [hc, hn] at h
      exact h.elim
  | some c =>
    cases hn : w.heap t with
    | none => exact absurd hr ((hi.freed hc hn).2.2 _)
    | some n => exact ⟨c, n, rfl, rfl, (hi.live hc hn).held _ hr⟩

theorem View.mono {c : Option Call} {n : Option Node} {l l' : Prop} {held held' : Msg → Prop}
    (h : View c n l held) (hl : l' ↔ l) (hh : ∀ rsp, held' rsp → held rsp) : View c n l' held' := by
  have hl : l' = l := propext hl
  subst hl
  cases c with
  | none =>
    cases n with
    | none => exact ⟨h.1, fun rsp hr => h.2 rsp (hh rsp hr)⟩
    | some n => exact h.elim
  | some c =>
    cases n with
    | none => exact ⟨h.1, h.2.1, fun rsp hr => h.2.2 rsp (hh rsp hr)⟩
    | some n => exact { h with held := fun rsp hr => h.held rsp (hh rsp hr) }

theorem Inv.frame (hi : Inv w) (t : ℕ) (hf : w'.fault = false) (hlen : w'.length = w'.list.length)
    (hnd : w'.list.Nodup) (hc : ∀ t' ≠ t, w'.call t' = w.call t') (hh : ∀ t' ≠ t, w'.heap t' = w.heap t')
    (hl : ∀ t' ≠ t, t' ∈ w'.list ↔ t' ∈ w.list)
    (hr : ∀ t' ≠ t, ∀ rsp, w'.rx = some (t', rsp) → w.rx = some (t', rsp))
    (hv : View (w'.call t) (w'.heap t) (t ∈ w'.list) (fun rsp => w'.rx = some (t, rsp))) : Inv w' := by
  refine ⟨hf, hlen, hnd, fun t' => ?_⟩
  by_cases ht : t' = t
  · rw [ht]
    exact hv
  · rw [hc t' ht, hh t' ht]
    exact (hi.view t').mono (hl t' ht) (hr t' ht)

theorem Inv.callOk (hi : Inv w) (hc : w.call t = some c) : CallOk c := by
  cases hn : w.heap t with
  | none => exact (hi.freed hc hn).1.ok
  | some n => exact (hi.live hc hn).ok

theorem Inv.heap_of_early (hi : Inv w) (hc : w.call t = some c) (he : c.pc.early = true) :
    ∃ n, w.heap t = some n := by
  refine Option.ne_none_iff_exists'.1 fun hn => ?_
  rw [(hi.freed hc hn).1.early] at he
  cases he

theorem Inv.heap_of_sync (hi : Inv w) (hc : w.call t = some c) (hcb : c.cb = none) (ho : c.pc.ended = false) :
    ∃ n, w.heap t = some n := by
  refine Option.ne_none_iff_exists'.1 fun hn => ?_
  rw [(hi.freed hc hn).1.sync hcb] at ho
  cases ho

theorem Inv.heap_of_wait (hi : Inv w) (hc : w.call t = some c) (hp : c.pc = .wait ∨ c.pc = .got) :
    ∃ n, w.heap t = some n := by
  cases hn : w.heap t with
  | some n => exact ⟨n, rfl⟩
  | none =>
    have hcb := (hi.freed hc hn).1.ok.sync hp
    have ho : c.pc.ended = false := by rcases hp with hp | hp <;> rw [hp] <;> rfl
    obtain ⟨n, hn'⟩ := hi.heap_of_sync hc hcb ho
    rw [hn] at hn'
    cases hn'

theorem Inv.matched (hi : Inv w) : Matched w := by
  refine ⟨hi.fault, fun t c hc hcb ho hn => ?_, fun t rsp hr hn => ?_, fun t c r hc hp => ?_, hi.length⟩
  · have h := (hi.freed hc hn).1.sync hcb
    rw [ho] at h
    cases h
  · obtain ⟨c, n, -, hn', -⟩ := hi.held_node hr
    rw [hn] at hn'
    cases hn'
  · exact (hi.callOk hc).ends r (by rw [hp]; rfl)

/-! ## Steps -/

theorem touch_eq {k : Node → Option World} (hn : w.heap t = some n) : w.touch t k = k n := by
  unfold World.touch
  rw [hn]

theorem setPc_call (hc : w.call t = some c) (pc : Pc) : (w.setPc t pc).call t = some { c with pc := pc } := by
  simp [World.setPc, hc]

theorem Inv.setPc {pc : Pc} (hi : Inv w) (hc : w.call t = some c)
    (hv : View (some { c with pc := pc }) (w.heap t) (t ∈ w.list) (fun rsp => w.rx = some (t, rsp))) :
    Inv (w.setPc t pc) := by
  refine hi.frame t hi.fault hi.length hi.nodup (fun t' ht => Function.update_of_ne ht _ _) (fun _ _ => rfl)
    (fun _ _ => Iff.rfl) (fun _ _ _ => id) ?_
  rw [setPc_call hc]
  exact hv

theorem Inv.setPc_live {pc : Pc} (hi : Inv w) (hc : w.call t = some c) (hn : w.heap t = some n)
    (hok : CallOk { c with pc := pc }) (hq : n.response = none → pc.inQueue = c.pc.inQueue)
    (he : pc.early = true → c.pc.early = true) (hg : pc = .got → n.response ≠ none)
    (ho : pc.ended = true → c.cb ≠ none) : Inv (w.setPc t pc) := by
  have h := hi.live hc hn
  refine hi.setPc hc ?_
  rw [hn]
  refine ⟨hok, h.id, h.cb, h.response, h.alone, h.posts, ?_, h.held, fun hpc => h.early (he hpc), hg, ho⟩
  rw [h.linked]
  exact and_congr_right fun hr => by rw [hq hr]

theorem Inv.setPc_freed {pc : Pc} (hi : Inv w) (hc : w.call t = some c) (hn : w.heap t = none)
    (hok : CallOk { c with pc := pc }) (he : pc.early = false) (ho : c.pc.ended = false) : Inv (w.setPc t pc) := by
  obtain ⟨hf, hl, hh⟩ := hi.freed hc hn
  refine hi.setPc hc ?_
  rw [hn]
  refine ⟨⟨hok, he, fun hcb => ?_⟩, hl, hh⟩
  have hcontra := hf.sync hcb
  rw [ho] at hcontra
  cases hcontra

theorem Inv.invoke {i : ℕ} {cb : Option ℕ} {ok : Bool} (hi : Inv w)
    (hs : w.step maxLen (.invoke t i cb ok) = some w') : Inv w' := by
  unfold World.step at hs
  dsimp only at hs
  split_ifs at hs with hc hok
  all_goals
    have hv := hi.view t
    rw [hc] at hv
    have hn : w.heap t = none := by
      cases hn : w.heap t with
      | none => rfl
      | some n =>
        rw [hn] at hv
        exact hv.elim
    rw [hn] at hv
    obtain ⟨hl, hr⟩ := hv
    cases hs
  · refine hi.frame t hi.fault hi.length hi.nodup (fun t' ht => Function.update_of_ne ht _ _)
      (fun t' ht => Function.update_of_ne ht _ _) (fun _ _ => Iff.rfl) (fun _ _ _ => id) ?_
    simp only [World.setNode, Function.update_self]
    exact ⟨⟨by simp, by simp [Pc.result]⟩, rfl, rfl, by simp [newNode], rfl, by simp [newNode],
      by simp [hl, Pc.inQueue], fun rsp h => absurd h (hr rsp), fun _ => rfl, by simp, by simp [Pc.ended]⟩
  · refine hi.frame t hi.fault hi.length hi.nodup (fun t' ht => Function.update_of_ne ht _ _) (fun _ _ => rfl)
      (fun _ _ => Iff.rfl) (fun _ _ _ => id) ?_
    simp only [Function.update_self, hn]
    exact ⟨⟨⟨by simp, by simp [Pc.result, Ends]⟩, rfl, fun _ => rfl⟩, hl, hr⟩

theorem Inv.delFirst (hi : Inv w)
    (hcb : ∀ t n, w.list.getLast? = some t → w.heap t = some n → n.cb ≠ none)
    (hd : wsfDelFirstMsg w = some w') : Inv w' ∧ ∀ t, w'.call t = w.call t := by
  unfold wsfDelFirstMsg at hd
  cases hl : w.list.getLast? with
  | none =>
    rw [hl] at hd
    cases hd
    exact ⟨hi, fun _ => rfl⟩
  | some t =>
    rw [hl] at hd
    obtain ⟨l, hw⟩ := List.getLast?_eq_some_iff.1 hl
    have ht : t ∈ w.list := by rw [hw]; exact List.mem_append_right _ List.mem_cons_self
    obtain ⟨c, n, hc, hn, hresp, hq⟩ := hi.linked_node ht
    have hlive := hi.live hc hn
    obtain rfl := Option.some.inj ((touch_eq hn).symm.trans hd)
    have hnd := hi.nodup
    have hlen := hi.length
    rw [hw] at hnd hlen
    have hnot : t ∉ l := fun hm => (List.nodup_append.1 hnd).2.2 t hm t List.mem_cons_self rfl
    refine ⟨hi.frame t hi.fault ?_ ?_ (fun _ _ => rfl) (fun t' ht => Function.update_of_ne ht _ _) (fun t' ht' => ?_)
      (fun _ _ _ => id) ?_, fun _ => rfl⟩
    · simp only [World.setNode, hw, List.dropLast_concat, hlen, List.length_append]
      rfl
    · simp only [World.setNode, hw, List.dropLast_concat]
      exact (List.nodup_append.1 hnd).1
    · simp only [World.setNode, hw, List.dropLast_concat, List.mem_append, List.mem_singleton, ht', or_false]
    · simp only [World.setNode, hw, List.dropLast_concat, Function.update_self, hc]
      have hsync : c.cb ≠ none := fun hnone => hcb t n hl hn (hlive.cb.trans hnone)
      refine ⟨⟨hlive.ok, ?_, fun hnone => absurd hnone hsync⟩, hnot, fun rsp hr => ?_⟩
      · revert hq
        cases c.pc <;> simp [Pc.inQueue, Pc.early]
      · rw [hlive.held rsp hr] at hresp
        cases hresp

theorem Inv.add (hi : Inv w) (hc : w.call t = some c) (hp : c.pc = .add) (hn : w.heap t = some n) :
    Inv ((World.setNode { w with list := t :: w.list, length := w.length + 1 } t
      (some { n with alone := false })).setPc t .send) := by
  have h := hi.live hc hn
  have hr : n.response = none := h.early (by rw [hp]; rfl)
  have hnot : t ∉ w.list := fun ht => by
    have hq := (h.linked.1 ht).2
    rw [hp] at hq
    cases hq
  refine hi.frame t hi.fault (congrArg (· + 1) hi.length) (List.nodup_cons.2 ⟨hnot, hi.nodup⟩)
    (fun t' ht => Function.update_of_ne ht _ _) (fun t' ht => Function.update_of_ne ht _ _) (fun t' ht => ?_)
    (fun _ _ _ => id) ?_
  · simp only [World.setPc, World.setNode, List.mem_cons, ht, false_or]
  · rw [setPc_call (by exact hc)]
    simp only [World.setPc, World.setNode, Function.update_self]
    exact ⟨⟨by simp, by simp [Pc.result]⟩, h.id, h.cb, h.response, by simp [hr], h.posts,
      by simp [hr, Pc.inQueue], h.held, by simp [Pc.early], by simp, by simp [Pc.ended]⟩

theorem Inv.wake (hi : Inv w) (hc : w.call t = some c) (hp : c.pc = .wait) (hn : w.heap t = some n)
    (hposts : n.posts ≠ 0) : Inv ((w.setNode t (some { n with posts := n.posts - 1 })).setPc t .got) := by
  have h := hi.live hc hn
  refine hi.frame t hi.fault hi.length hi.nodup (fun t' ht => Function.update_of_ne ht _ _)
    (fun t' ht => Function.update_of_ne ht _ _) (fun _ _ => Iff.rfl) (fun _ _ _ => id) ?_
  rw [setPc_call (by exact hc)]
  simp only [World.setPc, World.setNode, Function.update_self]
  have hq : c.pc.inQueue = true := by rw [hp]; rfl
  refine ⟨⟨fun _ => h.ok.sync (.inl hp), by simp [Pc.result]⟩, h.id, h.cb, h.response, h.alone,
    fun _ => h.posts hposts, ?_, h.held, by simp [Pc.early], fun _ => h.posts hposts, by simp [Pc.ended]⟩
  rw [h.linked, hq]
  rfl

theorem Inv.unlink {r : Result} (hi : Inv w) (hc : w.call t = some c) (hp : c.pc = .popLock r)
    (hn : w.heap t = some n) (ha : n.alone = false) :
    Inv (World.setPc { w with list := w.list.erase t, length := w.length - 1 } t (.destroy r)) := by
  have h := hi.live hc hn
  have hr : n.response = none := by
    have hal := h.alone
    rw [ha] at hal
    cases hr : n.response with
    | none => rfl
    | some rsp =>
      rw [hr] at hal
      cases hal
  have ht : t ∈ w.list := h.linked.2 ⟨hr, by rw [hp]; rfl⟩
  refine hi.frame t hi.fault ?_ (hi.nodup.erase t) (fun t' ht => Function.update_of_ne ht _ _)
    (fun _ _ => rfl) (fun t' ht' => List.mem_erase_of_ne ht') (fun _ _ _ => id) ?_
  · change w.length - 1 = (w.list.erase t).length
    rw [List.length_erase_of_mem ht, hi.length]
  · rw [setPc_call (by exact hc)]
    simp only [World.setPc, hn]
    have hnot : t ∉ w.list.erase t := hi.nodup.not_mem_erase
    refine ⟨⟨by simp, fun r' hr' => h.ok.ends r' (by rw [hp]; exact hr')⟩, h.id, h.cb, h.response, h.alone,
      h.posts, by simp [hnot, Pc.inQueue], h.held, by simp [Pc.early], by simp, by simp [Pc.ended]⟩

theorem Inv.destroy {r : Result} (hi : Inv w) (hc : w.call t = some c) (hp : c.pc = .destroy r)
    (hn : w.heap t = some n) (hr : ∀ rsp, w.rx ≠ some (t, rsp)) :
    Inv ((w.setNode t none).setPc t (.returned r)) := by
  have h := hi.live hc hn
  have hnot : t ∉ w.list := fun ht => by
    have hq := (h.linked.1 ht).2
    rw [hp] at hq
    cases hq
  refine hi.frame t hi.fault hi.length hi.nodup (fun t' ht => Function.update_of_ne ht _ _)
    (fun t' ht => Function.update_of_ne ht _ _) (fun _ _ => Iff.rfl) (fun _ _ _ => id) ?_
  rw [setPc_call (by exact hc)]
  simp only [World.setPc, World.setNode, Function.update_self]
  exact ⟨⟨⟨by simp, fun r' hr' => h.ok.ends r' (by rw [hp]; exact hr')⟩, rfl, fun _ => rfl⟩, hnot, hr⟩

theorem Inv.respond {rsp : Msg} (hi : Inv w) : Inv (wsfRequestQueueTrigger w rsp) := by
  unfold wsfRequestQueueTrigger
  cases hf : w.list.find? fun t => (w.heap t).any fun n => n.id = rsp.msgId with
  | none => exact hi
  | some t =>
    have ht : t ∈ w.list := List.mem_of_find?_eq_some hf
    obtain ⟨c, n, hc, hn, -, hq⟩ := hi.linked_node ht
    have h := hi.live hc hn
    have hid : n.id = rsp.msgId := by
      have hany := List.find?_some hf
      rw [hn] at hany
      simpa using hany
    have hnot : t ∉ w.list.erase t := hi.nodup.not_mem_erase
    refine hi.frame t hi.fault ?_ (hi.nodup.erase t) (fun _ _ => rfl) (fun t' ht => Function.update_of_ne ht _ _)
      (fun t' ht' => List.mem_erase_of_ne ht') (fun t' ht' r hr' => ?_) ?_
    · change w.length - 1 = (w.list.erase t).length
      rw [List.length_erase_of_mem ht, hi.length]
    · exact absurd (Prod.mk.inj (Option.some.inj hr')).1.symm ht'
    · simp only [World.setNode, Function.update_self, hc, hn, Option.map_some]
      refine ⟨h.ok, h.id, h.cb, by simp [hid], rfl, by simp, by simp [hnot], by simp, fun he => ?_, by simp,
        h.ended⟩
      revert hq he
      cases c.pc <;> simp [Pc.inQueue, Pc.early]

theorem Inv.finish {rsp : Msg} (hi : Inv w) (hrx : w.rx = some (t, rsp)) (hs : finishResponse w t rsp = some w') :
    Inv w' ∧ w'.call = w.call := by
  obtain ⟨c, n, hc, hn, hr⟩ := hi.held_node hrx
  have h := hi.live hc hn
  have hnot : t ∉ w.list := fun ht => by
    have hnone := (h.linked.1 ht).1
    rw [hr] at hnone
    cases hnone
  have hs := (touch_eq hn).symm.trans hs
  split_ifs at hs with hcb
  · cases hs
    refine ⟨hi.frame t hi.fault hi.length hi.nodup (fun _ _ => rfl) (fun t' ht => Function.update_of_ne ht _ _)
      (fun _ _ => Iff.rfl) nofun ?_, rfl⟩
    simp only [World.setNode, Function.update_self, hc]
    refine ⟨⟨h.ok, ?_, fun hnone => absurd (h.cb.trans hnone) hcb⟩, hnot, nofun⟩
    refine Bool.eq_false_iff.2 fun he => ?_
    rw [h.early he] at hr
    cases hr
  · cases hs
    refine ⟨hi.frame t hi.fault hi.length hi.nodup (fun _ _ => rfl) (fun t' ht => Function.update_of_ne ht _ _)
      (fun _ _ => Iff.rfl) nofun ?_, rfl⟩
    simp only [World.setNode, Function.update_self, hc]
    exact ⟨h.ok, h.id, h.cb, h.response, h.alone, by simp [hr], h.linked, nofun, h.early, h.got, h.ended⟩

/-! ## The steps of a call, place by place -/

/-- From `check` the call goes to any place where its node is not in the queue. -/
theorem Inv.check {pc : Pc} (hi : Inv w) (hc : w.call t = some c) (hp : c.pc = .check)
    (hpc : pc = .drop ∨ pc = .add ∨ pc = .destroy .failed) : Inv (w.setPc t pc) := by
  obtain ⟨n, hn⟩ := hi.heap_of_early hc (by rw [hp]; rfl)
  rcases hpc with rfl | rfl | rfl <;>
    exact hi.setPc_live hc hn ⟨by simp, by simp [Pc.result, Ends]⟩ (fun _ => by rw [hp]; rfl)
      (fun _ => by rw [hp]; rfl) (by simp) (by simp [Pc.ended])

theorem Inv.drop (hi : Inv w) (hc : w.call t = some c) (hp : c.pc = .drop) (hm : PcMeets w t .drop)
    (hs : ((wsfDelFirstMsg w).map fun w => w.setPc t .add) = some w') : Inv w' := by
  obtain ⟨w₁, hd, rfl⟩ := Option.map_eq_some_iff.1 hs
  obtain ⟨hi1, hcall⟩ := hi.delFirst hm hd
  have hc1 : w₁.call t = some c := (hcall t).trans hc
  obtain ⟨n, hn⟩ := hi1.heap_of_early hc1 (by rw [hp]; rfl)
  exact hi1.setPc_live hc1 hn ⟨by simp, by simp [Pc.result]⟩ (fun _ => by rw [hp]; rfl)
    (fun _ => by rw [hp]; rfl) (by simp) (by simp [Pc.ended])

theorem Inv.sent (hi : Inv w) (hc : w.call t = some c) (hp : c.pc = .send) :
    Inv (w.setPc t (if c.cb ≠ none then .returned .sent else .wait)) := by
  split_ifs with hcb
  · have hok : CallOk { c with pc := .returned .sent } := ⟨by simp, by simp [Pc.result, Ends, hcb]⟩
    cases hn : w.heap t with
    | none => exact hi.setPc_freed hc hn hok rfl (by rw [hp]; rfl)
    | some n =>
      exact hi.setPc_live hc hn hok (fun _ => by rw [hp]; rfl) (by simp [Pc.early]) (by simp) fun _ => hcb
  · have hcb := not_not.1 hcb
    obtain ⟨n, hn⟩ := hi.heap_of_sync hc hcb (by rw [hp]; rfl)
    exact hi.setPc_live hc hn ⟨fun _ => hcb, by simp [Pc.result]⟩ (fun _ => by rw [hp]; rfl)
      (by simp [Pc.early]) (by simp) (by simp [Pc.ended])

theorem Inv.notSent (hi : Inv w) (hc : w.call t = some c) (hp : c.pc = .send) :
    Inv (w.setPc t (.popCheck .failed)) := by
  have hok : CallOk { c with pc := .popCheck .failed } := ⟨by simp, by simp [Pc.result, Ends]⟩
  cases hn : w.heap t with
  | none => exact hi.setPc_freed hc hn hok rfl (by rw [hp]; rfl)
  | some n =>
    exact hi.setPc_live hc hn hok (fun _ => by rw [hp]; rfl) (by simp [Pc.early]) (by simp) (by simp [Pc.ended])

theorem Inv.timeout (hi : Inv w) (hc : w.call t = some c) (hp : c.pc = .wait) (hn : w.heap t = some n) :
    Inv (w.setPc t (.popCheck .timeout)) :=
  hi.setPc_live hc hn ⟨by simp, by simp [Pc.result, Ends]⟩ (fun _ => by rw [hp]; rfl) (by simp [Pc.early]) (by simp)
    (by simp [Pc.ended])

theorem Inv.got (hi : Inv w) (hc : w.call t = some c) (hp : c.pc = .got) (hn : w.heap t = some n) :
    Inv (w.setPc t (.popCheck (.response n.response))) := by
  have h := hi.live hc hn
  obtain ⟨rsp, hr⟩ := Option.ne_none_iff_exists'.1 (h.got hp)
  refine hi.setPc_live hc hn ⟨by simp, ?_⟩ (fun _ => by rw [hp]; rfl) (by simp [Pc.early]) (by simp)
    (by simp [Pc.ended])
  rintro r hres
  cases hres
  exact ⟨rsp, hr, (h.response rsp hr).trans h.id⟩

/-- A call in `wsf_request_queue_pop` goes on, or is behind it if its node is not in the
    queue. -/
theorem Inv.pop {pc : Pc} {r : Result} (hi : Inv w) (hc : w.call t = some c) (hn : w.heap t = some n)
    (hr : c.pc.result = some r) (hq : c.pc.inQueue = true)
    (hpc : pc = .popLen r ∨ pc = .popLock r ∨ pc = .destroy r ∧ n.response ≠ none) : Inv (w.setPc t pc) := by
  have hends : ∀ r', some r = some r' → Ends c r' := fun r' hr' => (hi.callOk hc).ends r' (hr.trans hr')
  rcases hpc with rfl | rfl | ⟨rfl, hresp⟩
  · exact hi.setPc_live hc hn ⟨by simp, hends⟩ (fun _ => hq.symm) (by simp [Pc.early]) (by simp) (by simp [Pc.ended])
  · exact hi.setPc_live hc hn ⟨by simp, hends⟩ (fun _ => hq.symm) (by simp [Pc.early]) (by simp) (by simp [Pc.ended])
  · exact hi.setPc_live hc hn ⟨by simp, hends⟩ (fun hnone => absurd hnone hresp) (by simp [Pc.early]) (by simp)
      (by simp [Pc.ended])

theorem Live.response_of_alone {l : Prop} {held : Msg → Prop} (h : Live c n l held) (ha : n.alone = true) :
    n.response ≠ none := by
  rw [h.alone] at ha
  exact Option.isSome_iff_ne_none.1 ha

theorem Inv.popCheck {r : Result} (hi : Inv w) (hc : w.call t = some c) (hp : c.pc = .popCheck r)
    (hn : w.heap t = some n) : Inv (w.setPc t (if n.alone then .destroy r else .popLen r)) := by
  refine hi.pop (r := r) hc hn (by rw [hp]; rfl) (by rw [hp]; rfl) ?_
  split_ifs with ha
  · exact .inr (.inr ⟨rfl, (hi.live hc hn).response_of_alone ha⟩)
  · exact .inl rfl

theorem Inv.popLen {r : Result} (hi : Inv w) (hc : w.call t = some c) (hp : c.pc = .popLen r) :
    Inv (w.setPc t (if w.length = 0 then .destroy r else .popLock r)) := by
  cases hn : w.heap t with
  | none =>
    have hends : ∀ r', some r = some r' → Ends c r' := fun r' hr' => (hi.callOk hc).ends r' (by rw [hp]; exact hr')
    split_ifs <;> exact hi.setPc_freed hc hn ⟨by simp, hends⟩ rfl (by rw [hp]; rfl)
  | some n =>
    refine hi.pop (r := r) hc hn (by rw [hp]; rfl) (by rw [hp]; rfl) ?_
    split_ifs with hlen
    · -- an empty queue does not have the node, so its response has come
      refine .inr (.inr ⟨rfl, fun hr => ?_⟩)
      have ht := (hi.live hc hn).linked.2 ⟨hr, by rw [hp]; rfl⟩
      rw [List.length_eq_zero_iff.1 (hi.length.symm.trans hlen)] at ht
      cases ht
    · exact .inr (.inl rfl)

theorem Inv.run {ok : Bool} (hi : Inv w) (hm : Meets w (.run t ok)) (hs : advance maxLen w t ok = some w') :
    Inv w' := by
  unfold advance at hs
  cases hc : w.call t with
  | none =>
    rw [hc] at hs
    cases hs
  | some c =>
    have hm := hm c hc
    rw [hc] at hs
    dsimp only at hs
    cases hp : c.pc with
    | check =>
      rw [hp] at hs
      dsimp only at hs
      split_ifs at hs <;> cases hs
      · exact hi.check hc hp (.inl rfl)
      · exact hi.check hc hp (.inr (.inr rfl))
      · exact hi.check hc hp (.inr (.inl rfl))
    | drop =>
      rw [hp] at hs hm
      exact hi.drop hc hp hm hs
    | add =>
      obtain ⟨n, hn⟩ := hi.heap_of_early hc (by rw [hp]; rfl)
      rw [hp] at hs
      obtain rfl := Option.some.inj ((touch_eq hn).symm.trans hs)
      exact hi.add hc hp hn
    | send =>
      rw [hp] at hs
      cases ok with
      | true =>
        cases hs
        exact hi.sent hc hp
      | false =>
        cases hs
        exact hi.notSent hc hp
    | wait =>
      obtain ⟨n, hn⟩ := hi.heap_of_wait hc (.inl hp)
      rw [hp] at hs
      have hs := (touch_eq hn).symm.trans hs
      split_ifs at hs with hok hposts <;> cases hs
      · exact hi.wake hc hp hn hposts
      · exact hi.timeout hc hp hn
    | got =>
      obtain ⟨n, hn⟩ := hi.heap_of_wait hc (.inr hp)
      rw [hp] at hs
      obtain rfl := Option.some.inj ((touch_eq hn).symm.trans hs)
      exact hi.got hc hp hn
    | popCheck r =>
      rw [hp] at hs hm
      obtain ⟨n, hn⟩ := Option.ne_none_iff_exists'.1 hm
      obtain rfl := Option.some.inj ((touch_eq hn).symm.trans hs)
      exact hi.popCheck hc hp hn
    | popLen r =>
      rw [hp] at hs
      cases hs
      exact hi.popLen hc hp
    | popLock r =>
      rw [hp] at hs hm
      obtain ⟨n, hn⟩ := Option.ne_none_iff_exists'.1 hm
      have hs := (touch_eq hn).symm.trans hs
      split_ifs at hs with ha <;> cases hs
      · exact hi.pop hc hn (by rw [hp]; rfl) (by rw [hp]; rfl)
          (.inr (.inr ⟨rfl, (hi.live hc hn).response_of_alone ha⟩))
      · exact hi.unlink hc hp hn (Bool.eq_false_iff.2 ha)
    | destroy r =>
      rw [hp] at hs hm
      obtain ⟨n, hn⟩ := Option.ne_none_iff_exists'.1 hm.1
      obtain rfl := Option.some.inj ((touch_eq hn).symm.trans hs)
      exact hi.destroy hc hp hn hm.2
    | returned r =>
      rw [hp] at hs
      cases hs

theorem Inv.step {a : Act} (hi : Inv w) (hs : restrict Meets (World.Step maxLen) w a w') : Inv w' := by
  obtain ⟨hm, -, hs⟩ := hs
  cases a with
  | invoke t i cb ok => exact hi.invoke hs
  | run t ok => exact hi.run hm hs
  | respond rsp =>
    unfold World.step at hs
    dsimp only at hs
    split_ifs at hs
    cases hs
    exact hi.respond
  | finish =>
    unfold World.step at hs
    dsimp only at hs
    cases hrx : w.rx with
    | none =>
      rw [hrx] at hs
      cases hs
    | some p =>
      rw [hrx] at hs
      exact (hi.finish hrx hs).1

theorem Inv.start : Inv World.start :=
  ⟨rfl, rfl, List.nodup_nil, fun _ => ⟨List.not_mem_nil, nofun⟩⟩

/-! ## What the condition is for -/

theorem touch_none {k : Node → Option World} (hn : w.heap t = none) (ht : w.touch t k = some w') :
    w'.fault = true := by
  unfold World.touch at ht
  rw [hn] at ht
  cases ht
  rfl

/-- A step that does not meet the condition leaves the node of a call that has not
    returned freed, or the node that the receive thread holds, or touches a freed one. -/
theorem Inv.meets_of_matched {a : Act} (hi : Inv w) (hs : w.step maxLen a = some w') (hm : Matched w') : Meets w a := by
  cases a with
  | run t ok =>
    intro c hc
    change advance maxLen w t ok = some w' at hs
    unfold advance at hs
    rw [hc] at hs
    dsimp only at hs
    have hfault : ∀ {k : Node → Option World}, w.touch t k = some w' → w.heap t ≠ none := fun hk hn => by
      have hf := touch_none hn hk
      rw [hm.fault] at hf
      cases hf
    cases hp : c.pc with
    | drop =>
      rw [hp] at hs
      obtain ⟨w₁, hd, rfl⟩ := Option.map_eq_some_iff.1 hs
      intro t' n hl hn hcb
      unfold wsfDelFirstMsg at hd
      rw [hl] at hd
      obtain rfl := Option.some.inj ((touch_eq hn).symm.trans hd)
      obtain ⟨l, hw⟩ := List.getLast?_eq_some_iff.1 hl
      have ht : t' ∈ w.list := by rw [hw]; exact List.mem_append_right _ List.mem_cons_self
      obtain ⟨c', n', hc', hn', -, hq⟩ := hi.linked_node ht
      obtain rfl := Option.some.inj (hn.symm.trans hn')
      have h' := hi.live hc' hn
      have hne : t' ≠ t := fun heq => by
        subst heq
        obtain rfl := Option.some.inj (hc.symm.trans hc')
        rw [hp] at hq
        cases hq
      have hover : c'.pc.ended = false := by
        cases ho : c'.pc.ended with
        | false => rfl
        | true => exact absurd (h'.cb.symm.trans hcb) (h'.ended ho)
      refine hm.waited t' c' ?_ (h'.cb.symm.trans hcb) hover ?_
      · exact (Function.update_of_ne hne _ _).trans hc'
      · exact Function.update_self ..
    | popCheck r =>
      rw [hp] at hs
      exact hfault hs
    | popLock r =>
      rw [hp] at hs
      exact hfault hs
    | destroy r =>
      rw [hp] at hs
      refine ⟨hfault hs, fun rsp hrx => ?_⟩
      obtain ⟨n, hn⟩ := Option.ne_none_iff_exists'.1 (hfault hs)
      obtain rfl := Option.some.inj ((touch_eq hn).symm.trans hs)
      exact hm.held t rsp hrx (Function.update_self ..)
    | _ => trivial
  | _ => trivial

/-! ## A call returns, and returns once -/

/-- How many of its own steps a call may still take. -/
def Pc.rank : Pc → ℕ
  | .check => 10
  | .drop => 9
  | .add => 8
  | .send => 7
  | .wait => 6
  | .got => 5
  | .popCheck _ => 4
  | .popLen _ => 3
  | .popLock _ => 2
  | .destroy _ => 1
  | .returned _ => 0

theorem touch_cases {k : Node → Option World} (hf : w'.fault = false) (ht : w.touch t k = some w') :
    ∃ n, w.heap t = some n ∧ k n = some w' := by
  cases hn : w.heap t with
  | none =>
    rw [touch_none hn ht] at hf
    cases hf
  | some n =>
    unfold World.touch at ht
    rw [hn] at ht
    exact ⟨n, rfl, ht⟩

theorem delFirst_call (hf : w'.fault = false) (hd : wsfDelFirstMsg w = some w') : w'.call = w.call := by
  unfold wsfDelFirstMsg at hd
  cases hl : w.list.getLast? with
  | none =>
    rw [hl] at hd
    cases hd
    rfl
  | some t =>
    rw [hl] at hd
    obtain ⟨n, -, hk⟩ := touch_cases hf hd
    cases hk
    rfl

theorem advance_call {ok : Bool} (hs : advance maxLen w t ok = some w') (hf : w'.fault = false)
    (hc : w.call t = some c) :
    (∃ pc, w'.call t = some { c with pc := pc } ∧ pc.rank < c.pc.rank) ∧
      ∀ t' ≠ t, w'.call t' = w.call t' := by
  have hset : ∀ {w₁ : World} {pc : Pc}, w₁.call = w.call → pc.rank < c.pc.rank →
      (∃ pc', (w₁.setPc t pc).call t = some { c with pc := pc' } ∧ pc'.rank < c.pc.rank) ∧
        ∀ t' ≠ t, (w₁.setPc t pc).call t' = w.call t' := by
    intro w₁ pc hw hlt
    refine ⟨⟨pc, setPc_call (by rw [hw]; exact hc) pc, hlt⟩, fun t' ht => ?_⟩
    exact (Function.update_of_ne ht _ _).trans (congrFun hw t')
  unfold advance at hs
  rw [hc] at hs
  dsimp only at hs
  cases hp : c.pc with
  | check =>
    rw [hp] at hs
    dsimp only at hs
    split_ifs at hs <;> cases hs <;> exact hp ▸ hset rfl (by simp [hp, Pc.rank])
  | drop =>
    rw [hp] at hs
    obtain ⟨w₁, hd, rfl⟩ := Option.map_eq_some_iff.1 hs
    exact hp ▸ hset (delFirst_call hf hd) (by simp [hp, Pc.rank])
  | add =>
    rw [hp] at hs
    obtain ⟨n, -, hk⟩ := touch_cases hf hs
    cases hk
    exact hp ▸ hset (by rfl) (by simp [hp, Pc.rank])
  | send =>
    rw [hp] at hs
    dsimp only at hs
    split_ifs at hs <;> cases hs <;> exact hp ▸ hset rfl (by simp [hp, Pc.rank])
  | wait =>
    rw [hp] at hs
    obtain ⟨n, -, hk⟩ := touch_cases hf hs
    split_ifs at hk <;> cases hk <;> exact hp ▸ hset (by rfl) (by simp [hp, Pc.rank])
  | got =>
    rw [hp] at hs
    obtain ⟨n, -, hk⟩ := touch_cases hf hs
    cases hk
    exact hp ▸ hset rfl (by simp [hp, Pc.rank])
  | popCheck r =>
    rw [hp] at hs
    obtain ⟨n, -, hk⟩ := touch_cases hf hs
    cases hk
    exact hp ▸ hset rfl (by split <;> simp [hp, Pc.rank])
  | popLen r =>
    rw [hp] at hs
    cases hs
    exact hp ▸ hset rfl (by split <;> simp [hp, Pc.rank])
  | popLock r =>
    rw [hp] at hs
    obtain ⟨n, -, hk⟩ := touch_cases hf hs
    split_ifs at hk <;> cases hk <;> exact hp ▸ hset (by rfl) (by simp [hp, Pc.rank])
  | destroy r =>
    rw [hp] at hs
    obtain ⟨n, -, hk⟩ := touch_cases hf hs
    cases hk
    exact hp ▸ hset (by rfl) (by simp [hp, Pc.rank])
  | returned r =>
    rw [hp] at hs
    cases hs

/-- What a step does to a call: its own step brings it nearer to its return, any other
    leaves it. -/
def Goes (t : ℕ) (a : Act) (c c' : Call) : Prop :=
  (∃ ok, a = .run t ok) ∧ c'.id = c.id ∧ c'.cb = c.cb ∧ c'.pc.rank < c.pc.rank ∨
    (∀ ok, a ≠ .run t ok) ∧ c' = c

theorem step_goes {a : Act} (hs : w.step maxLen a = some w') (hf : w'.fault = false) (hc : w.call t = some c) :
    ∃ c', w'.call t = some c' ∧ Goes t a c c' := by
  cases a with
  | invoke t' i cb ok =>
    refine ⟨c, ?_, .inr ⟨nofun, rfl⟩⟩
    unfold World.step at hs
    dsimp only at hs
    split_ifs at hs with hn hok
    all_goals
      have hne : t ≠ t' := fun heq => by
        rw [← heq, hc] at hn
        cases hn
      cases hs
      exact (Function.update_of_ne hne _ _).trans hc
  | run t' ok =>
    by_cases ht : t' = t
    · subst ht
      obtain ⟨⟨pc, hpc, hlt⟩, -⟩ := advance_call hs hf hc
      exact ⟨_, hpc, .inl ⟨⟨ok, rfl⟩, rfl, rfl, hlt⟩⟩
    · have hs : advance maxLen w t' ok = some w' := hs
      cases hc' : w.call t' with
      | none =>
        unfold advance at hs
        rw [hc'] at hs
        cases hs
      | some c' =>
        refine ⟨c, ((advance_call hs hf hc').2 t (Ne.symm ht)).trans hc, .inr ⟨?_, rfl⟩⟩
        rintro _ ⟨⟩
        exact ht rfl
  | respond rsp =>
    refine ⟨c, ?_, .inr ⟨nofun, rfl⟩⟩
    unfold World.step at hs
    dsimp only at hs
    split_ifs at hs
    cases hs
    unfold wsfRequestQueueTrigger
    split
    · exact hc
    · exact hc
  | finish =>
    refine ⟨c, ?_, .inr ⟨nofun, rfl⟩⟩
    unfold World.step at hs
    dsimp only at hs
    cases hrx : w.rx with
    | none =>
      rw [hrx] at hs
      cases hs
    | some p =>
      rw [hrx] at hs
      obtain ⟨n, -, hk⟩ := touch_cases hf hs
      split_ifs at hk <;> cases hk <;> exact hc

theorem touch_some {k : Node → World} : ∃ w', w.touch t (fun n => some (k n)) = some w' := by
  unfold World.touch
  cases w.heap t with
  | none => exact ⟨_, rfl⟩
  | some n => exact ⟨_, rfl⟩

theorem advance_enabled (hc : w.call t = some c) (ho : c.pc.ended = false) :
    ∃ w', advance maxLen w t false = some w' := by
  unfold advance
  rw [hc]
  dsimp only
  cases hp : c.pc with
  | check =>
    dsimp only
    split_ifs <;> exact ⟨_, rfl⟩
  | drop =>
    have hd : ∃ w₁, wsfDelFirstMsg w = some w₁ := by
      unfold wsfDelFirstMsg
      cases w.list.getLast? with
      | none => exact ⟨_, rfl⟩
      | some t' => exact touch_some
    obtain ⟨w₁, hd⟩ := hd
    dsimp only
    rw [hd]
    exact ⟨_, rfl⟩
  | add => exact touch_some
  | send => exact ⟨_, rfl⟩
  | wait => exact touch_some
  | got => exact touch_some
  | popCheck r => exact touch_some
  | popLen r => exact ⟨_, rfl⟩
  | popLock r =>
    dsimp only
    unfold World.touch
    cases w.heap t with
    | none => exact ⟨_, rfl⟩
    | some n =>
      dsimp only
      split_ifs <;> exact ⟨_, rfl⟩
  | destroy r => exact touch_some
  | returned r =>
    rw [hp] at ho
    cases ho

/-- **When requests and responses are matched.**  In a run whose steps all meet the
    condition they are in every state, and any other step from there ends it.  A call
    that has not returned can go on, each of its steps brings it nearer to its return,
    and what has returned stays so. -/
theorem wsf_requests_matched {acts : List Act} (hr : Run (restrict Meets (World.Step maxLen)) World.start acts w) :
    Matched w ∧
    (∀ a w', World.Step maxLen w a w' → (Matched w' ↔ Meets w a)) ∧
    ∀ t c, w.call t = some c →
      (c.pc.ended = false → ∃ w', World.Step maxLen w (.run t false) w') ∧
      ∀ a w', World.Step maxLen w a w' → w'.fault = false → ∃ c', w'.call t = some c' ∧ Goes t a c c' := by
  have hi : Inv w := Run.keeps (fun h hs => Inv.step h hs) hr Inv.start
  refine ⟨hi.matched, fun a w' hs => ⟨fun hm => hi.meets_of_matched hs.2 hm, fun hm => ?_⟩,
    fun t c hc => ⟨fun ho => ?_, fun a w' hs hf => step_goes hs.2 hf hc⟩⟩
  · exact (hi.step ⟨hm, hs⟩).matched
  · have hen : ∃ w', advance maxLen w t false = some w' := advance_enabled hc ho
    obtain ⟨w', hw⟩ := hen
    exact ⟨w', hi.fault, hw⟩

theorem meets_run {ok : Bool} (hc : w.call t = some c) (hm : PcMeets w t c.pc) : Meets w (.run t ok) := by
  intro c' hc'
  obtain rfl := Option.some.inj (hc.symm.trans hc')
  exact hm

/-- A synchronous call up to its wait. -/
def waitActs (t i : ℕ) : List Act := [.invoke t i none true, .run t false, .run t false, .run t true]

/-- A synchronous call that gets its response. -/
theorem wsf_requests_matched_one :
    ∃ acts w, Run (restrict Meets (World.Step 1)) World.start acts w ∧
      w.call 0 = some ⟨7, none, .returned (.response (some ⟨7, []⟩))⟩ ∧ Matched w := by
  have hr : ∃ w, Run (restrict Meets (World.Step 1)) World.start
      (waitActs 0 7 ++ [.respond ⟨7, []⟩, .finish, .run 0 true, .run 0 true, .run 0 true, .run 0 true]) w ∧
      w.call 0 = some ⟨7, none, .returned (.response (some ⟨7, []⟩))⟩ :=
    ⟨_, .cons ⟨trivial, rfl, rfl⟩ <| .cons ⟨meets_run rfl trivial, rfl, rfl⟩ <|
      .cons ⟨meets_run rfl trivial, rfl, rfl⟩ <| .cons ⟨meets_run rfl trivial, rfl, rfl⟩ <|
      .cons ⟨trivial, rfl, rfl⟩ <| .cons ⟨trivial, rfl, rfl⟩ <|
      .cons ⟨meets_run rfl trivial, rfl, rfl⟩ <| .cons ⟨meets_run rfl trivial, rfl, rfl⟩ <|
      .cons ⟨meets_run rfl (Option.some_ne_none _), rfl, rfl⟩ <|
      .single ⟨meets_run rfl ⟨Option.some_ne_none _, nofun⟩, rfl, rfl⟩, rfl⟩
  obtain ⟨w, hr, hc⟩ := hr
  exact ⟨_, w, hr, hc, (wsf_requests_matched hr).1⟩

/-- A synchronous call waits, and an asynchronous one frees its node. -/
theorem wsf_requests_not_matched :
    ∃ acts w, Run (World.Step 1) World.start acts w ∧ w.call 0 = some ⟨7, none, .wait⟩ ∧ w.heap 0 = none ∧
      ¬ Matched w := by
  have hr : ∃ w, Run (World.Step 1) World.start
      (waitActs 0 7 ++ [.invoke 1 8 (some 1) true, .run 1 false, .run 1 false]) w ∧
      w.call 0 = some ⟨7, none, .wait⟩ ∧ w.heap 0 = none :=
    ⟨_, .cons ⟨rfl, rfl⟩ <| .cons ⟨rfl, rfl⟩ <| .cons ⟨rfl, rfl⟩ <| .cons ⟨rfl, rfl⟩ <|
      .cons ⟨rfl, rfl⟩ <| .cons ⟨rfl, rfl⟩ <| .single ⟨rfl, rfl⟩, rfl, rfl⟩
  obtain ⟨w, hr, hc, hn⟩ := hr
  exact ⟨_, w, hr, hc, hn, fun hm => hm.waited 0 _ hc rfl rfl hn⟩

end Wsf
