/-
  Delayed actions.

  The timeouts are an agenda (`Lib/Agenda.lean`): entries are posted, a cancel takes the
  earliest entry that matches, and a round takes the earliest entry that is due, which it
  then calls.
-/
import AliOS.Lib.Agenda
import AliOS.Yloop.Loop

namespace Yloop

open Lib

/-- Earlier due, or posted earlier. -/
def Before (a b : Timeout) : Prop := a.timeoutMs < b.timeoutMs ∨ a.timeoutMs = b.timeoutMs ∧ a.seq < b.seq

theorem Before.irrefl (a : Timeout) : ¬ Before a a := by
  rintro (h | ⟨-, h⟩) <;> exact absurd h (lt_irrefl _)

/-- The agenda's operation that an event is. -/
def Event.ops : Event → List (AgendaOp Timeout)
  | .posted t => [.post t]
  | .cancelled ms cb privateData t => [.take (fun x => Timeout.isFor ms cb privateData x = true) t]
  | .polling _ _ => []
  | .fired now t => [.take (fun x => decide (x.timeoutMs ≤ now) = true) t]

/-- What the loop is for: the actions are an agenda, and the poll does not wait longer than the
    earliest of them. -/
def AgendaSpec (S : Set Timeout) : Event → Set Timeout → Prop
  | .polling d now, S' => S' = S ∧ (d = -1 ∧ S = ∅ ∨ 0 ≤ d ∧ ∀ t ∈ S, d ≤ max 0 (t.timeoutMs - now))
  | e, S' => Run (AgendaStep Before) S e.ops S'

/-- The timeouts are in order, and were posted with an `int` of milliseconds. -/
structure InOrder (s : Sys) : Prop where
  sorted : s.ctx.timeouts.Pairwise Before
  posted : ∀ t ∈ s.ctx.timeouts, t.seq < s.posts
  near : ∀ t ∈ s.ctx.timeouts, t.timeoutMs ≤ s.clock + 2147483647

variable {s s' : Sys} {a : Act} {as : List Act} {t x : Timeout} {xs : List Timeout} {now : ℤ}

/-! ## Posting -/

@[simp] theorem mem_insertTimeout : x ∈ insertTimeout t xs ↔ x = t ∨ x ∈ xs := by
  induction xs with
  | nil => simp [insertTimeout]
  | cons y ys ih =>
    rw [insertTimeout]
    split_ifs
    · simp
    · rw [List.mem_cons, ih, List.mem_cons]
      tauto

theorem insertTimeout_sorted (h : xs.Pairwise Before) (hseq : ∀ y ∈ xs, y.seq < t.seq) :
    (insertTimeout t xs).Pairwise Before := by
  induction xs with
  | nil => exact List.pairwise_singleton _ _
  | cons y ys ih =>
    obtain ⟨hy, hys⟩ := List.pairwise_cons.1 h
    rw [insertTimeout]
    split_ifs with hlt
    · refine List.pairwise_cons.2 ⟨?_, h⟩
      intro z hz
      rcases List.mem_cons.1 hz with rfl | hz
      · exact .inl hlt
      · rcases hy z hz with hyz | ⟨hyz, -⟩
        · exact .inl (lt_trans hlt hyz)
        · exact .inl (hyz ▸ hlt)
    · refine List.pairwise_cons.2 ⟨?_, ih hys fun z hz => hseq z (List.mem_cons_of_mem y hz)⟩
      intro z hz
      rcases mem_insertTimeout.1 hz with rfl | hz
      · rcases lt_or_eq_of_le (not_lt.1 hlt) with hyt | hyt
        · exact .inl hyt
        · exact .inr ⟨hyt, hseq y List.mem_cons_self⟩
      · exact hy z hz

theorem entries_insertTimeout : entries (insertTimeout t xs) = insert t (entries xs) := by
  ext x
  exact mem_insertTimeout

/-! ## Firing -/

theorem find?_due (h : xs.Pairwise Before) :
    xs.find? (fun x => decide (x.timeoutMs ≤ now)) = xs.head?.filter fun x => decide (x.timeoutMs ≤ now) := by
  cases xs with
  | nil => rfl
  | cons y ys =>
    rw [List.find?_cons, List.head?_cons, Option.filter_some]
    by_cases hy : y.timeoutMs ≤ now
    · simp [hy]
    · simp only [hy, decide_false, Bool.false_eq_true, if_false]
      refine List.find?_eq_none.2 fun z hz => ?_
      have hyz := (List.pairwise_cons.1 h).1 z hz
      have hle : y.timeoutMs ≤ z.timeoutMs := hyz.elim le_of_lt fun h => le_of_eq h.1
      simp only [decide_eq_true_eq]
      omega

theorem eraseP_due (h : xs.Pairwise Before) :
    xs.eraseP (fun x => decide (x.timeoutMs ≤ now)) =
      if (xs.head?.filter fun x => decide (x.timeoutMs ≤ now)).isSome then xs.tail else xs := by
  rw [← find?_due h]
  split_ifs with hf
  · cases xs with
    | nil => rfl
    | cons y ys =>
      rw [find?_due h, List.head?_cons, Option.filter_some] at hf
      have hy : decide (y.timeoutMs ≤ now) = true := by
        by_contra hn
        rw [if_neg hn] at hf
        cases hf
      exact List.eraseP_cons_of_pos hy
  · refine List.eraseP_of_forall_not fun z hz hp => hf ?_
    exact List.find?_isSome.2 ⟨z, hz, hp⟩

theorem delayedMs_eq (hnear : t.timeoutMs ≤ now + 2147483647) :
    delayedMs now (t :: xs) = max 0 (t.timeoutMs - now) := by
  rw [delayedMs]
  split_ifs with hlt
  · rw [toInt, Int.bmod_eq_of_le (by omega) (by omega)]
    omega
  · omega

/-! ## One step -/

theorem InOrder.same (h : InOrder s) (ht : s'.ctx.timeouts = s.ctx.timeouts) (hp : s'.posts = s.posts)
    (hc : s.clock ≤ s'.clock) : InOrder s' := by
  refine ⟨ht ▸ h.sorted, ?_, ?_⟩
  · rw [ht, hp]
    exact h.posted
  · rw [ht]
    intro t hm
    have := h.near t hm
    omega

theorem InOrder.sublist (h : InOrder s) (ht : s'.ctx.timeouts.Sublist s.ctx.timeouts) (hp : s'.posts = s.posts)
    (hc : s.clock ≤ s'.clock) : InOrder s' := by
  refine ⟨h.sorted.sublist ht, ?_, ?_⟩
  · rw [hp]
    exact fun t hm => h.posted t (ht.subset hm)
  · intro t hm
    have := h.near t (ht.subset hm)
    omega

theorem newTimeout_some {seq param : ℕ} {ms : CInt} {action : Option ℕ} {malloc : Bool}
    (h : newTimeout seq ms action param malloc now = some t) : t.seq = seq ∧ t.timeoutMs = now + ms := by
  unfold newTimeout at h
  split at h
  · cases h
  · split_ifs at h
    cases h
    exact ⟨rfl, rfl⟩

theorem InOrder.post (h : InOrder s) {ms : CInt} {action : Option ℕ} {param : ℕ} {malloc : Bool}
    (ht : newTimeout s.posts ms action param malloc now = some t) (hc : s.clock ≤ now)
    (hx : s'.ctx.timeouts = insertTimeout t s.ctx.timeouts) (hp : s'.posts = s.posts + 1) (hc' : s'.clock = now) :
    InOrder s' := by
  have hnew := newTimeout_some ht
  refine ⟨?_, ?_, ?_⟩
  · rw [hx]
    exact insertTimeout_sorted h.sorted (hnew.1 ▸ h.posted)
  · rw [hx, hp]
    intro y hy
    rcases mem_insertTimeout.1 hy with rfl | hy
    · rw [hnew.1]
      exact Nat.lt_succ_self _
    · exact Nat.lt_succ_of_lt (h.posted y hy)
  · rw [hx, hc']
    intro y hy
    rcases mem_insertTimeout.1 hy with rfl | hy
    · have := ms.2.2
      rw [hnew.2]
      omega
    · have := h.near y hy
      omega

theorem InOrder.polling (h : InOrder s) (hc : s.clock ≤ now) :
    AgendaSpec (entries s.ctx.timeouts) (.polling (delayedMs now s.ctx.timeouts) now) (entries s.ctx.timeouts) := by
  refine ⟨rfl, ?_⟩
  cases ht : s.ctx.timeouts with
  | nil => exact .inl ⟨rfl, Set.eq_empty_of_forall_notMem fun _ => List.not_mem_nil⟩
  | cons t ts =>
    have hm : t ∈ s.ctx.timeouts := ht ▸ List.mem_cons_self
    have hnear := h.near t hm
    rw [delayedMs_eq (by omega)]
    refine .inr ⟨le_max_left _ _, ?_⟩
    intro x hx
    rcases List.mem_cons.1 hx with rfl | hx
    · exact le_refl _
    · have hsort := h.sorted
      rw [ht] at hsort
      have hle : t.timeoutMs ≤ x.timeoutMs :=
        ((List.pairwise_cons.1 hsort).1 x hx).elim le_of_lt fun h => le_of_eq h.1
      omega

/-- The events record at most one post, with the next number. -/
def Fresh (s s' : Sys) (es : List Event) : Prop :=
  s.posts ≤ s'.posts ∧ ∀ t, .posted t ∈ es → es = [.posted t] ∧ t.seq = s.posts ∧ s'.posts = s.posts + 1

/-- What a step does to the timeouts, and what is recorded of it. -/
def Recorded (s s' : Sys) : Prop :=
  InOrder s' ∧ ∃ es, s'.log = s.log ++ es ∧ Fresh s s' es ∧
    Run AgendaSpec (entries s.ctx.timeouts) es (entries s'.ctx.timeouts)

theorem InOrder.recordedSame (h : InOrder s) (ht : s'.ctx.timeouts = s.ctx.timeouts) (hp : s'.posts = s.posts)
    (hc : s.clock ≤ s'.clock) (hl : s'.log = s.log) : Recorded s s' := by
  refine ⟨h.same ht hp hc, [], by rw [hl, List.append_nil], ⟨le_of_eq hp.symm, nofun⟩, ?_⟩
  rw [ht]
  exact .nil

/-- **One step**: the timeouts stay in order, and what is recorded of them is what an agenda
    does. -/
theorem InOrder.step (h : InOrder s) (hs : Step s a s') : Recorded s s' := by
  obtain ⟨ha, rfl⟩ := hs
  cases a with
  | pollReadFd sock cb pd malloc junk =>
    refine h.recordedSame ?_ rfl (le_refl _) rfl
    simp only [Sys.next, Sys.setCtx, Ctx.pollReadFd]
    split_ifs <;> rfl
  | cancelPollReadFd sock =>
    refine h.recordedSame ?_ rfl (le_refl _) rfl
    simp only [Sys.next, Sys.setCtx, Ctx.cancelPollReadFd]
    split <;> rfl
  | postDelayedAction ms action param malloc now =>
    cases ht : newTimeout s.posts ms action param malloc now with
    | none =>
      simp only [Sys.next, ht]
      exact h.recordedSame rfl rfl ha.2 rfl
    | some t =>
      have hseq := (newTimeout_some ht).1
      simp only [Sys.next, ht]
      refine ⟨h.post ht ha.2 rfl rfl rfl, [.posted t], rfl, ⟨Nat.le_succ _, ?_⟩,
        .single (.single ⟨?_, entries_insertTimeout⟩)⟩
      · intro x hx
        obtain rfl := Event.posted.inj (List.mem_singleton.1 hx)
        exact ⟨rfl, hseq, rfl⟩
      · intro hm
        exact absurd (h.posted t hm) (by omega)
  | cancelDelayedAction ms cb pd =>
    refine ⟨h.sublist List.eraseP_sublist rfl (le_refl _), [_], rfl, ⟨le_refl _, ?_⟩, .single (.single ?_)⟩
    · intro x hx
      cases List.mem_singleton.1 hx
    · exact agenda_take Before.irrefl h.sorted
  | exit => exact h.recordedSame rfl rfl (le_refl _) rfl
  | run => exact h.recordedSame rfl rfl (le_refl _) rfl
  | head now =>
    simp only [Sys.next, Sys.head]
    split_ifs
    · refine ⟨h.same rfl rfl ha.2, [_], rfl, ⟨le_refl _, ?_⟩, .single (h.polling ha.2)⟩
      intro x hx
      cases List.mem_singleton.1 hx
    · exact h.recordedSame rfl rfl ha.2 rfl
  | poll res eintr ready now =>
    obtain ⟨⟨n, d, hph⟩, hc⟩ := ha
    simp only [Sys.next, hph, Sys.poll]
    by_cases hres : res < 0 ∧ eintr = false
    · rw [if_pos hres]
      exact h.recordedSame rfl rfl hc rfl
    · rw [if_neg hres]
      have herase : s.ctx.timeouts.eraseP (fun x => decide (x.timeoutMs ≤ now)) =
          if (s.ctx.timeouts.head?.filter fun x => decide (x.timeoutMs ≤ now)).isSome then s.ctx.timeouts.tail
          else s.ctx.timeouts :=
        eraseP_due h.sorted
      have htake := agenda_take (p := fun x : Timeout => decide (x.timeoutMs ≤ now)) Before.irrefl h.sorted
      rw [find?_due h.sorted, herase] at htake
      refine ⟨h.sublist ?_ rfl hc, [_], rfl, ⟨le_refl _, ?_⟩, .single (.single htake)⟩
      · dsimp only
        rw [← herase]
        exact List.eraseP_sublist
      · intro x hx
        cases List.mem_singleton.1 hx
  | actionDone =>
    obtain ⟨n, res, hph⟩ := ha
    simp only [Sys.next, hph]
    exact h.recordedSame rfl rfl (le_refl _) rfl
  | look =>
    obtain ⟨n, i, hph⟩ := ha
    simp only [Sys.next, hph, Sys.look]
    split_ifs
    · split
      · exact h.recordedSame rfl rfl (le_refl _) rfl
      · split_ifs
        · split <;> exact h.recordedSame rfl rfl (le_refl _) rfl
        · exact h.recordedSame rfl rfl (le_refl _) rfl
    · exact h.recordedSame rfl rfl (le_refl _) rfl
  | callDone =>
    obtain ⟨n, i, hph⟩ := ha
    simp only [Sys.next, hph]
    exact h.recordedSame rfl rfl (le_refl _) rfl

/-! ## Runs -/

/-- The event posts the entry. -/
def Event.posts (t : Timeout) : Event → Bool
  | .posted x => x = t
  | _ => false

/-- The event takes the entry out of the timeouts: it is fired, or cancelled. -/
def Event.takes (t : Timeout) : Event → Bool
  | .cancelled _ _ _ x | .fired _ x => x = some t
  | _ => false

/-- What is kept by every run. -/
structure Kept (s : Sys) : Prop where
  order : InOrder s
  spec : Run AgendaSpec ∅ s.log (entries s.ctx.timeouts)
  posted : ∀ t, .posted t ∈ s.log → t.seq < s.posts
  once : ∀ t, s.log.countP (Event.posts t) ≤ 1

theorem InOrder.init : InOrder Sys.init := ⟨.nil, nofun, nofun⟩

theorem Kept.init : Kept Sys.init := by
  refine ⟨.init, ?_, nofun, fun _ => Nat.zero_le _⟩
  have hempty : entries Sys.init.ctx.timeouts = ∅ := Set.eq_empty_of_forall_notMem fun _ => List.not_mem_nil
  rw [hempty]
  exact .nil

theorem Kept.step (h : Kept s) (hs : Step s a s') : Kept s' := by
  obtain ⟨ho, es, hes, ⟨hle, hfresh⟩, hrun⟩ := h.order.step hs
  refine ⟨ho, hes ▸ h.spec.append hrun, ?_, ?_⟩
  · intro t hm
    rw [hes] at hm
    rcases List.mem_append.1 hm with hm | hm
    · exact Nat.lt_of_lt_of_le (h.posted t hm) hle
    · obtain ⟨-, hseq, hp⟩ := hfresh t hm
      omega
  · intro t
    rw [hes, List.countP_append]
    by_cases hm : .posted t ∈ es
    · -- an entry with the next number was not posted before
      obtain ⟨rfl, hseq, -⟩ := hfresh t hm
      have hno : s.log.countP (Event.posts t) = 0 := by
        refine List.countP_eq_zero.2 fun e he hp => ?_
        cases e with
        | posted x =>
          obtain rfl := of_decide_eq_true hp
          exact absurd (h.posted x he) (by omega)
        | cancelled | polling | fired => cases hp
      rw [hno]
      simp [Event.posts]
    · have hno : es.countP (Event.posts t) = 0 := by
        refine List.countP_eq_zero.2 fun e he hp => ?_
        cases e with
        | posted x =>
          obtain rfl := of_decide_eq_true hp
          exact hm he
        | cancelled | polling | fired => cases hp
      rw [hno]
      exact h.once t

theorem agendaSpec_ops {S T : Set Timeout} {es : List Event} (h : Run AgendaSpec S es T) :
    Run (AgendaStep Before) S (es.flatMap Event.ops) T := by
  induction h with
  | nil => exact .nil
  | @cons S e S' es T hstep _ ih =>
    rw [List.flatMap_cons]
    cases e with
    | polling d now =>
      obtain ⟨rfl, -⟩ := hstep
      exact ih
    | posted t => exact hstep.append ih
    | cancelled ms cb pd t => exact hstep.append ih
    | fired now t => exact hstep.append ih

theorem countP_ops {es : List Event} {t : Timeout} :
    (es.flatMap Event.ops).countP (AgendaOp.takes t) = es.countP (Event.takes t) ∧
      (es.flatMap Event.ops).countP (AgendaOp.posts t) = es.countP (Event.posts t) := by
  induction es with
  | nil => exact ⟨rfl, rfl⟩
  | cons e es ih =>
    rw [List.flatMap_cons, List.countP_append, List.countP_append, List.countP_cons, List.countP_cons, ih.1, ih.2]
    cases e <;> simp [Event.ops, Event.takes, Event.posts, AgendaOp.takes, AgendaOp.posts, List.countP_cons,
      Nat.add_comm]

/-- **Delayed actions fire in order, once, and never early**, in every run: the timeouts are
    sorted by their due time, those of one time as they were posted; what was posted, cancelled and
    fired, and how long the loop polls, is what an agenda does; and what was posted was taken out
    once, or is still in. -/
theorem delayed_actions (hr : Run Step Sys.init as s) :
    s.ctx.timeouts.Pairwise Before ∧ Run AgendaSpec ∅ s.log (entries s.ctx.timeouts) ∧
      ∀ t, .posted t ∈ s.log →
        s.log.countP (Event.takes t) + (if t ∈ s.ctx.timeouts then 1 else 0) = 1 := by
  have hk : Kept s := hr.keeps (fun h hs => h.step hs) Kept.init
  refine ⟨hk.order.sorted, hk.spec, ?_⟩
  intro t ht
  have hcount := (agendaSpec_ops hk.spec).agenda_count t
  rw [countP_ops.1, countP_ops.2] at hcount
  have hone : s.log.countP (Event.posts t) = 1 := by
    have hpos : 0 < s.log.countP (Event.posts t) :=
      List.countP_pos_iff.2 ⟨_, ht, decide_eq_true rfl⟩
    have := hk.once t
    omega
  have hempty : t ∉ (∅ : Set Timeout) := Set.notMem_empty t
  rw [hone, if_neg hempty] at hcount
  by_cases hin : t ∈ s.ctx.timeouts
  · have hin' : t ∈ entries s.ctx.timeouts := hin
    rw [if_pos hin'] at hcount
    rwa [if_pos hin]
  · have hin' : t ∉ entries s.ctx.timeouts := hin
    rw [if_neg hin'] at hcount
    rwa [if_neg hin]

/-- An action is posted for 5 ms, the loop polls for these, and the action fires. -/
theorem delayed_actions_one :
    ∃ as s, Run Step Sys.init as s ∧ s.log.length = 3 ∧ s.ctx.timeouts = [] ∧
      Run AgendaSpec ∅ s.log (entries s.ctx.timeouts) := by
  have hr : ∃ s, Run Step Sys.init
      [.postDelayedAction ⟨5, by decide⟩ (some 1) 0 true 10, .run, .head 12, .poll 0 false (fun _ => false) 17] s ∧
      s.log.length = 3 ∧ s.ctx.timeouts = [] :=
    ⟨_, .cons ⟨⟨rfl, by decide⟩, rfl⟩ <| .cons ⟨rfl, rfl⟩ <| .cons ⟨⟨rfl, by decide⟩, rfl⟩ <|
      .single ⟨⟨⟨_, _, rfl⟩, by decide⟩, rfl⟩, by decide, by decide⟩
  obtain ⟨s, hr, hl, ht⟩ := hr
  exact ⟨_, s, hr, hl, ht, (delayed_actions hr).2.1⟩

end Yloop
