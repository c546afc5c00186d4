/-
  The ready queue: the list of a priority holds the ready tasks of that
  priority, once each; the bit map tells which lists are not empty, and
  `highest_pri` is the least of their priorities.

  `ready_list_rm` finds the next priority among those below
  `RHINO_CONFIG_PRI_MAX`, so some list must be left.  The idle task sees to
  that: it is ready in every state, and no operation moves it (`SchedInv`).
-/
import AliOS.Rhino.MovesBut

namespace Rhino

variable {w : ℕ} {k k' k₁ : Kernel w} {t u i : TaskId} {p : ℕ}

/-! ## The lists -/

/-- The bit map and `highest_pri` are those of the lists. -/
structure Runqueue.Wf (rq : Runqueue) : Prop where
  bit : ∀ p, rq.taskBitMap p = true ↔ rq.curListItem p ≠ []
  ready : rq.curListItem rq.highestPri ≠ []
  least : ∀ p < rq.highestPri, rq.curListItem p = []

/-- The task has entered the list of `p`. -/
structure Runqueue.Enters (t : TaskId) (p : ℕ) (rq rq' : Runqueue) : Prop where
  list : ∀ q, (rq'.curListItem q).Perm
    (if q = p then t :: rq.curListItem q else rq.curListItem q)
  wf : rq.Wf → rq'.Wf

/-- The task has left the list of `p`. -/
structure Runqueue.Leaves (priMax : ℕ) (t : TaskId) (p : ℕ) (rq rq' : Runqueue) : Prop where
  list : ∀ q, rq'.curListItem q =
    if q = p then (rq.curListItem q).erase t else rq.curListItem q
  wf : rq.Wf → (∃ q < priMax, rq'.curListItem q ≠ []) → rq'.Wf

namespace Runqueue

variable {rq : Runqueue}

theorem Wf.update (h : rq.Wf) {l : List TaskId} (hp : rq.curListItem p ≠ []) (hl : l ≠ []) :
    Wf { rq with curListItem := Function.update rq.curListItem p l } := by
  refine ⟨fun q => ?_, ?_, fun q hq => ?_⟩
  · refine (h.bit q).trans ?_
    dsimp only
    rw [Function.update_apply]
    split
    · rename_i hqp
      rw [hqp]
      exact ⟨fun _ => hl, fun _ => hp⟩
    · rfl
  · dsimp only
    rw [Function.update_apply]
    split
    · exact hl
    · exact h.ready
  · dsimp only at hq ⊢
    have hqp : q ≠ p := fun he => hp (he ▸ h.least q hq)
    rw [Function.update_of_ne hqp]
    exact h.least q hq

theorem enters_update {l : List TaskId} (hp : rq.curListItem p ≠ [])
    (hl : l.Perm (t :: rq.curListItem p)) :
    Enters t p rq { rq with curListItem := Function.update rq.curListItem p l } := by
  refine ⟨fun q => ?_, fun h => h.update hp fun he => ?_⟩
  · dsimp only
    rw [Function.update_apply]
    split
    · rename_i hqp
      rw [hqp]
      exact hl
    · exact .refl _
  · rw [he] at hl
    exact absurd hl.symm.eq_nil (List.cons_ne_nil _ _)

end Runqueue

namespace Kernel

theorem enters_readyListInit (he : k.readyQueue.curListItem (k.tasks t).prio = []) :
    Runqueue.Enters t (k.tasks t).prio k.readyQueue (k.readyListInit t).readyQueue := by
  set p := (k.tasks t).prio with hp
  have hlist : ∀ q, (k.readyListInit t).readyQueue.curListItem q =
      if q = p then [t] else k.readyQueue.curListItem q := fun q => by
    unfold readyListInit
    dsimp only
    rw [Function.update_apply, ← hp]
  have hhigh : (k.readyListInit t).readyQueue.highestPri =
      if p < k.readyQueue.highestPri then p else k.readyQueue.highestPri := rfl
  refine ⟨fun q => ?_, fun h => ⟨fun q => ?_, ?_, fun q hq => ?_⟩⟩
  · rw [hlist]
    split
    · rename_i hq
      rw [hq, he]
    · exact .refl _
  · have hbit : (k.readyListInit t).readyQueue.taskBitMap q =
        if q = p then true else k.readyQueue.taskBitMap q := by
      unfold readyListInit
      dsimp only
      rw [Function.update_apply, ← hp]
    rw [hbit, hlist]
    split
    · simp
    · exact h.bit q
  · rw [hhigh]
    split
    · rw [hlist, if_pos rfl]
      exact List.cons_ne_nil _ _
    · rw [hlist]
      split
      · exact List.cons_ne_nil _ _
      · exact h.ready
  · rw [hhigh] at hq
    have hqp : q ≠ p ∧ q < k.readyQueue.highestPri := by
      split at hq
      · rename_i hlt
        exact ⟨hq.ne, hq.trans hlt⟩
      · rename_i hlt
        exact ⟨fun he => hlt (he ▸ hq), hq⟩
    rw [hlist, if_neg hqp.1]
    exact h.least q hqp.2

theorem enters_readyListAddTail :
    Runqueue.Enters t (k.tasks t).prio k.readyQueue (k.readyListAddTail t).readyQueue := by
  unfold readyListAddTail isReadyListEmpty
  dsimp only
  split
  · rename_i he
    exact enters_readyListInit (List.isEmpty_iff.1 he)
  · rename_i he
    rw [List.isEmpty_iff] at he
    exact Runqueue.enters_update he (List.perm_append_singleton t _)

theorem enters_readyListAddHead :
    Runqueue.Enters t (k.tasks t).prio k.readyQueue (k.readyListAddHead t).readyQueue := by
  unfold readyListAddHead isReadyListEmpty
  dsimp only
  split
  · rename_i he
    exact enters_readyListInit (List.isEmpty_iff.1 he)
  · rename_i he
    rw [List.isEmpty_iff] at he
    exact Runqueue.enters_update he (.refl _)

theorem enters_readyListAdd :
    Runqueue.Enters t (k.tasks t).prio k.readyQueue (k.readyListAdd t).readyQueue := by
  unfold readyListAdd
  split
  · exact enters_readyListAddTail
  · exact enters_readyListAddHead

theorem findFirstBit_eq_some {f : ℕ → Bool} {q : ℕ} (h : k.findFirstBit f = some q) :
    f q = true ∧ ∀ r < q, f r = false := by
  obtain ⟨hq, -, hlt⟩ := List.find?_range_eq_some.1 h
  exact ⟨hq, fun r hr => by simpa using hlt r hr⟩

theorem findFirstBit_eq_none {f : ℕ → Bool} (h : k.findFirstBit f = none) {q : ℕ}
    (hq : q < k.priMax) : f q = false := by
  unfold findFirstBit at h
  rw [List.find?_range_eq_none] at h
  simpa using h q hq

theorem leaves_readyListRm (ht : t ∈ k.readyQueue.curListItem (k.tasks t).prio) :
    Runqueue.Leaves k.priMax t (k.tasks t).prio k.readyQueue (k.readyListRm t).readyQueue := by
  set p := (k.tasks t).prio with hp
  unfold readyListRm
  simp only [← hp]
  by_cases hlen : (k.readyQueue.curListItem p).length > 1
  · -- others are left in the list
    rw [if_pos hlen]
    refine ⟨fun q => ?_, fun h _ => ?_⟩
    · dsimp only
      rw [Function.update_apply]
      split
      · rename_i hq
        rw [hq]
      · rfl
    · refine h.update (fun he => ?_) fun he => ?_
      · rw [he] at ht
        cases ht
      · have := List.length_erase_of_mem ht
        rw [he] at this
        simp at this
        omega
  · -- the list is empty now
    rw [if_neg hlen]
    have hone : k.readyQueue.curListItem p = [t] := by
      match hl : k.readyQueue.curListItem p with
      | [] =>
        rw [hl] at ht
        cases ht
      | [x] =>
        rw [hl] at ht
        rw [List.mem_singleton.1 ht]
      | x :: y :: ys =>
        rw [hl] at hlen
        simp at hlen
    set rq : Runqueue := { k.readyQueue with
      curListItem := Function.update k.readyQueue.curListItem p []
      taskBitMap := Function.update k.readyQueue.taskBitMap p false } with hrq
    have hlist : ∀ q, rq.curListItem q =
        if q = p then (k.readyQueue.curListItem q).erase t else k.readyQueue.curListItem q := by
      intro q
      rw [hrq]
      dsimp only
      rw [Function.update_apply]
      split
      · rename_i hq
        rw [hq, hone]
        simp
      · rfl
    have hbit : k.readyQueue.Wf → ∀ q, rq.taskBitMap q = true ↔ rq.curListItem q ≠ [] := by
      intro h q
      rw [hrq]
      dsimp only
      rw [Function.update_apply, Function.update_apply]
      split
      · simp
      · exact h.bit q
    split
    · -- a lower priority than the highest
      rename_i hne
      refine ⟨hlist, fun h _ => ⟨hbit h, ?_, fun q hq => ?_⟩⟩
      · rw [hlist, if_neg (Ne.symm hne)]
        exact h.ready
      · rw [hlist, h.least q hq]
        split <;> rfl
    · split
      · rename_i q hq
        obtain ⟨hq, hlt⟩ := findFirstBit_eq_some hq
        refine ⟨hlist, fun h _ => ⟨hbit h, (hbit h q).1 hq, fun r hr => ?_⟩⟩
        by_contra hc
        exact absurd ((hbit h r).2 hc) (Bool.eq_false_iff.1 (hlt r hr))
      · rename_i hnone
        refine ⟨hlist, fun h ⟨q, hq, hne⟩ => ?_⟩
        exact absurd ((hbit h q).2 hne) (Bool.eq_false_iff.1 (findFirstBit_eq_none hnone hq))

end Kernel

/-! ## The invariant -/

structure ReadyWf (k : Kernel w) : Prop where
  mem : ∀ p t, t ∈ k.readyQueue.curListItem p ↔
    (k.tasks t).taskState = .rdy ∧ (k.tasks t).prio = p
  nodup : ∀ p, (k.readyQueue.curListItem p).Nodup
  queue : k.readyQueue.Wf

/-- What holds of the ready queue in every reachable state. -/
structure SchedInv (i : TaskId) (k : Kernel w) : Prop where
  ready : ReadyWf k
  idle : IdleReady i k

theorem ReadyWf.congr (h : ReadyWf k) (hq : k'.readyQueue = k.readyQueue)
    (hr : ∀ u, (k'.tasks u).taskState = .rdy ↔ (k.tasks u).taskState = .rdy)
    (hp : ∀ u, (k.tasks u).taskState = .rdy → (k'.tasks u).prio = (k.tasks u).prio) :
    ReadyWf k' := by
  refine ⟨fun p u => ?_, fun p => hq ▸ h.nodup p, hq ▸ h.queue⟩
  rw [hq, h.mem, hr]
  constructor
  · rintro ⟨hu, rfl⟩
    exact ⟨hu, hp u hu⟩
  · rintro ⟨hu, rfl⟩
    exact ⟨hu, (hp u hu).symm⟩

theorem ReadyWf.enter (h : ReadyWf k) (hne : ∀ u ≠ t, k'.tasks u = k.tasks u)
    (was : (k.tasks t).taskState ≠ .rdy) (now : (k'.tasks t).taskState = .rdy)
    (hq : Runqueue.Enters t (k'.tasks t).prio k.readyQueue k'.readyQueue) : ReadyWf k' := by
  have hnot : ∀ q, t ∉ k.readyQueue.curListItem q := fun q hm => was ((h.mem q t).1 hm).1
  refine ⟨fun q u => ?_, fun q => ?_, hq.wf h.queue⟩
  · rw [(hq.list q).mem_iff]
    by_cases hu : u = t
    · subst hu
      split
      · rename_i hqp
        simp [now, hqp]
      · rename_i hqp
        exact ⟨fun hm => absurd hm (hnot q), fun hm => absurd hm.2.symm hqp⟩
    · rw [hne u hu, ← h.mem]
      split
      · simp [hu]
      · rfl
  · rw [(hq.list q).nodup_iff]
    split
    · exact List.nodup_cons.2 ⟨hnot q, h.nodup q⟩
    · exact h.nodup q

theorem ReadyWf.leave (h : ReadyWf k) (hne : ∀ u ≠ t, k'.tasks u = k.tasks u)
    (now : (k'.tasks t).taskState ≠ .rdy)
    (hq : Runqueue.Leaves k.priMax t (k.tasks t).prio k.readyQueue k'.readyQueue)
    (hi : i ≠ t) (hr : (k.tasks i).taskState = .rdy) (hp : (k.tasks i).prio < k.priMax) :
    ReadyWf k' := by
  have hmem : ∀ q u, u ∈ k'.readyQueue.curListItem q ↔
      u ≠ t ∧ u ∈ k.readyQueue.curListItem q := by
    intro q u
    rw [hq.list]
    split
    · rw [(h.nodup q).mem_erase_iff]
    · rename_i hqp
      refine ⟨fun hm => ⟨?_, hm⟩, fun hm => hm.2⟩
      rintro rfl
      exact hqp ((h.mem q u).1 hm).2.symm
  refine ⟨fun q u => ?_, fun q => ?_, hq.wf h.queue ⟨_, hp, fun he => ?_⟩⟩
  · rw [hmem, h.mem]
    by_cases hu : u = t
    · subst hu
      simp [now]
    · simp [hu, hne u hu]
  · rw [hq.list]
    split
    · exact (h.nodup q).erase t
    · exact h.nodup q
  · have hmi := (hmem (k.tasks i).prio i).2 ⟨hi, (h.mem _ i).2 ⟨hr, rfl⟩⟩
    rw [he] at hmi
    cases hmi

namespace SchedInv

theorem leaves (h : SchedInv i k) (ht : (k.tasks t).taskState = .rdy) :
    Runqueue.Leaves k.priMax t (k.tasks t).prio k.readyQueue (k.readyListRm t).readyQueue :=
  Kernel.leaves_readyListRm ((h.ready.mem _ t).2 ⟨ht, rfl⟩)

theorem prio_lt (h : SchedInv i k) : (k.tasks i).prio < k.priMax := by
  have := h.idle.pos
  rw [h.idle.prio, Kernel.idlePri]
  omega

end SchedInv

theorem SchedInv.move (h : SchedInv i k) (hm : Move t k k') (ht : t ≠ i) : SchedInv i k' := by
  refine ⟨?_, h.idle.move hm ht⟩
  have hne := hm.frame.others
  -- a task that is neither moved into the queue nor out of it
  have hcongr : k'.readyQueue = k.readyQueue →
      ((k'.tasks t).taskState = .rdy ↔ (k.tasks t).taskState = .rdy) →
      ((k.tasks t).taskState = .rdy → (k'.tasks t).prio = (k.tasks t).prio) → ReadyWf k' := by
    intro hq hr hp
    refine h.ready.congr hq (fun u => ?_) fun u => ?_
    all_goals by_cases hu : u = t
    · rw [hu, hr]
    · rw [hne u hu]
    · rw [hu]
      exact hp
    · rw [hne u hu]
      exact fun _ => rfl
  cases hm with
  | ready frame was now prio tick queue =>
    refine h.ready.enter hne was.ne.1 now ?_
    rw [prio]
    rcases queue with hq | hq
    · exact hq ▸ Kernel.enters_readyListAdd
    · exact hq ▸ Kernel.enters_readyListAddTail
  | rest frame was now prio tick queue =>
    refine hcongr queue ?_ fun hr => absurd hr was.ne.1
    rcases now with hn | hn <;> simp [hn, was.ne.1]
  | stop frame was now prio tick queue =>
    refine h.ready.leave hne ?_ (queue ▸ h.leaves was) ht.symm h.idle.rdy h.prio_lt
    rcases now with hn | hn <;> simp [hn]
  | park frame was now prio tick queue =>
    refine h.ready.leave hne ?_ (queue ▸ h.leaves was) ht.symm h.idle.rdy h.prio_lt
    rcases now with hn | hn <;> simp [hn]
  | stay frame rdy timed deleted prio tick queue => exact hcongr queue rdy fun _ => prio
  | readyPrio frame was now tick queue =>
    -- out of the list of the old priority, and into that of the new one
    set k₁ := (k.readyListRm t).updTask t fun x => { x with taskState := .suspended } with hk1
    have hne1 : ∀ u ≠ t, k₁.tasks u = k.tasks u := fun u hu => by
      rw [hk1, Kernel.updTask_tasks_ne _ _ _ _ hu, Kernel.readyListRm_tasks]
    have hst1 : (k₁.tasks t).taskState ≠ .rdy := by
      rw [hk1, Kernel.updTask_tasks_self]
      exact nofun
    have hwf1 : ReadyWf k₁ :=
      h.ready.leave hne1 hst1 (h.leaves was) ht.symm h.idle.rdy h.prio_lt
    refine hwf1.enter (fun u hu => (hne u hu).trans (hne1 u hu).symm) hst1 now ?_
    set k2 := (k.readyListRm t).updTask t fun _ => k'.tasks t with hk2
    have hp2 : (k2.tasks t).prio = (k'.tasks t).prio := by rw [hk2, Kernel.updTask_tasks_self]
    rw [← hp2]
    rcases queue with hq | hq
    · exact hq ▸ Kernel.enters_readyListAddHead (k := k2)
    · exact hq ▸ Kernel.enters_readyListAddTail (k := k2)
  | prio frame was now tick queue =>
    exact hcongr queue (by rw [now]) fun hr => absurd hr was

theorem SchedInv.movesBut (h : SchedInv i k) (hm : MovesBut i k k') : SchedInv i k' :=
  hm.keeps (I := SchedInv i) (fun h hm ht _ => h.move hm ht) h

theorem SchedInv.locks (h : SchedInv i k) (hl : SameButLocks k k')
    (ho : ∀ m, (k'.mutexes m).mutexTask = some i → (k.mutexes m).mutexTask = some i) :
    SchedInv i k' := by
  refine ⟨h.ready.congr hl.readyQueue (fun u => ?_) fun u _ => ?_, h.idle.locks hl ho⟩
  all_goals rw [hl.tasks u]

theorem SchedInv.congr (h : SchedInv i k) (ht : k'.tasks = k.tasks)
    (hm : k'.mutexes = k.mutexes) (hq : k'.readyQueue = k.readyQueue)
    (hp : k'.priMax = k.priMax) : SchedInv i k' := by
  refine ⟨h.ready.congr hq (fun u => by rw [ht]) fun u _ => by rw [ht], ⟨?_, ?_, ?_, ?_⟩⟩
  · rw [ht]
    exact h.idle.rdy
  · rw [ht, Kernel.idlePri, hp]
    exact h.idle.prio
  · rw [hp]
    exact h.idle.pos
  · rw [hm]
    exact h.idle.owner

end Rhino
