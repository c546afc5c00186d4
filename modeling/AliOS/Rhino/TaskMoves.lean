/-
  Blocking, waking, the tick and the operations on tasks as sequences of moves.
-/
import AliOS.Rhino.Moves

namespace Rhino

variable {w : ℕ} {k k' k₁ : Kernel w} {t u : TaskId} {fuel : ℕ}

namespace Kernel

/-! ## Ends of waits -/

theorem tickListRm_tickHead (k : Kernel w) (t : TaskId) : (k.tickListRm t).tickHead =
    if (k.tasks t).tickHead then k.tickHead.erase t else k.tickHead := by
  unfold tickListRm
  split_ifs <;> rfl

theorem tickListRm_congr (hl : k₁.tickHead = k.tickHead)
    (hf : (k₁.tasks t).tickHead = (k.tasks t).tickHead) :
    (k₁.tickListRm t).tickHead = (k.tickListRm t).tickHead := by
  rw [tickListRm_tickHead, tickListRm_tickHead, hl, hf]

theorem tickListRm_self (k : Kernel w) (t : TaskId) :
    (k.tickListRm t).tasks t = { k.tasks t with tickHead := false } := by
  rw [tickListRm_tasks, updTask_tasks_self]

theorem tickListRm_ne (k : Kernel w) (hu : u ≠ t) : (k.tickListRm t).tasks u = k.tasks u := by
  rw [tickListRm_tasks, updTask_tasks_ne _ _ _ _ hu]

/-- A kernel that has `k`'s fields, but for the task `t` and the lists. -/
structure SameFields (t : TaskId) (k k' : Kernel w) : Prop where
  others : ∀ u ≠ t, k'.tasks u = k.tasks u
  mutexes : k'.mutexes = k.mutexes
  kind : SameKind k k'
  tickCount : k'.tickCount = k.tickCount
  activeTask : k'.activeTask = k.activeTask
  priMax : k'.priMax = k.priMax

theorem SameFields.frame (h : SameFields t k k') (hm : (k'.tasks t).mutexList = (k.tasks t).mutexList)
    (hb : (k'.tasks t).bPrio = (k.tasks t).bPrio)
    (ha : (k'.tasks t).mmAllocFlag = (k.tasks t).mmAllocFlag) : Frame t k k' :=
  ⟨h.others, hm, hb, ha, h.mutexes, h.kind, h.tickCount, h.activeTask, h.priMax⟩

theorem SameFields.refl (t : TaskId) (k : Kernel w) : SameFields t k k :=
  ⟨fun _ _ => rfl, rfl, .refl k, rfl, rfl, rfl⟩

theorem SameFields.trans (h1 : SameFields t k k₁) (h2 : SameFields t k₁ k') : SameFields t k k' :=
  ⟨fun u hu => (h2.others u hu).trans (h1.others u hu), h2.mutexes.trans h1.mutexes,
    h1.kind.trans h2.kind, h2.tickCount.trans h1.tickCount, h2.activeTask.trans h1.activeTask,
    h2.priMax.trans h1.priMax⟩

section
variable (k : Kernel w) (t : TaskId)

theorem sameFields_updTask (f : Task w → Task w) : SameFields t k (k.updTask t f) :=
  ⟨fun _ hu => updTask_tasks_ne _ _ _ _ hu, rfl, .refl _, rfl, rfl, rfl⟩

theorem sameFields_tickListRm : SameFields t k (k.tickListRm t) := by
  obtain ⟨-, hc, ha, hm⟩ := tickListRm_same k t
  exact ⟨fun u hu => tickListRm_ne k hu, tickListRm_mutexes k t, .of_objs (tickListRm_objs k t),
    hc, ha, hm⟩

theorem sameFields_blkListRm : SameFields t k (k.blkListRm t) := by
  obtain ⟨-, hc, ha, hm, -⟩ := blkListRm_same k t
  exact ⟨fun u _ => by rw [blkListRm_tasks], blkListRm_mutexes k t, sameKind_blkListRm k t, hc, ha, hm⟩

theorem SameButReady.sameFields (h : SameButReady k k') : SameFields t k k' :=
  ⟨fun u _ => by rw [h.tasks], h.mutexes, .of_objs h.objs, h.tickCount, h.activeTask, h.priMax⟩

end

theorem move_leave (hw : (k.tasks t).waits) (bs : BlkState) :
    Move t k ((((k.tickListRm t).blkListRm t).readyListAdd t).updTask t fun x =>
        { x with blkState := bs, taskState := .rdy }) ∧
      Move t k (((k.tickListRm t).blkListRm t).updTask t fun x =>
        { x with blkState := bs, taskState := .suspended }) := by
  have hne : (k.tasks t).taskState.away := by
    rcases hw with hw | hw <;> rw [hw] <;> decide
  set k₁ := (k.tickListRm t).blkListRm t with hk1
  have hs : SameFields t k k₁ := (sameFields_tickListRm k t).trans (sameFields_blkListRm _ t)
  have hself : k₁.tasks t = { k.tasks t with tickHead := false } := by
    rw [hk1, blkListRm_tasks, tickListRm_self]
  have hlist : k₁.tickHead = (k.tickListRm t).tickHead := (blkListRm_same _ t).2.2.2.2
  have hq : k₁.readyQueue = k.readyQueue :=
    (blkListRm_same _ t).1.trans (tickListRm_same k t).1
  have hp : ∀ u, (k₁.tasks u).prio = (k.tasks u).prio := fun u => by
    by_cases hu : u = t
    · rw [hu, hself]
    · rw [hs.others u hu]
  constructor
  · have hs' := (hs.trans (SameButReady.sameFields k₁ t (same_readyListAdd k₁ t))).trans
      (sameFields_updTask _ t fun x => { x with blkState := bs, taskState := .rdy })
    refine .ready (hs'.frame ?_ ?_ ?_) hne ?_ ?_ (.inl ⟨?_, ?_⟩) (.inl ?_)
    any_goals rw [updTask_tasks_self, readyListAdd_tasks, hself]
    · rw [updTask_tickHead, readyListAdd_tickHead, hlist]
    · exact readyListAdd_congr hq hp hs.activeTask
  · have hs' := hs.trans
      (sameFields_updTask k₁ t fun x => { x with blkState := bs, taskState := .suspended })
    refine .rest (hs'.frame ?_ ?_ ?_) hne (.inl ?_) ?_ (.inl ⟨?_, hlist⟩) hq
    all_goals rw [updTask_tasks_self, hself]

theorem move_stay {f : Task w → Task w}
    (hm : (f (k.tasks t)).mutexList = (k.tasks t).mutexList)
    (hb : (f (k.tasks t)).bPrio = (k.tasks t).bPrio)
    (ha : (f (k.tasks t)).mmAllocFlag = (k.tasks t).mmAllocFlag)
    (hr : (f (k.tasks t)).taskState = .rdy ↔ (k.tasks t).taskState = .rdy)
    (ht : (k.tasks t).taskState.timed → (f (k.tasks t)).taskState.timed)
    (hd : (k.tasks t).taskState = .deleted → (f (k.tasks t)).taskState = .deleted)
    (hp : (f (k.tasks t)).prio = (k.tasks t).prio)
    (hf : (f (k.tasks t)).tickHead = (k.tasks t).tickHead)
    (hmt : (f (k.tasks t)).tickMatch = (k.tasks t).tickMatch) : Move t k (k.updTask t f) := by
  refine .stay ((sameFields_updTask k t f).frame ?_ ?_ ?_) ?_ ?_ ?_ ?_ ⟨?_, ?_, rfl⟩ rfl
  all_goals rw [updTask_tasks_self]
  all_goals assumption

theorem moves_endWait {bs : BlkState} {st : TaskStat} {ready : Bool} (hw : (k.tasks t).waits)
    (hst : ready = true ∧ st = .rdy ∨ ready = false ∧ st = .suspended)
    (h : k.endWait fuel t bs st ready = some k') : Moves k k' := by
  unfold endWait at h
  obtain ⟨k2, h2, rfl⟩ := Option.map_eq_some_iff.1 h
  have hlast : Move t k2 (k2.updTask t fun x => { x with blkObj := none }) :=
    move_stay rfl rfl rfl Iff.rfl id id rfl rfl rfl
  refine Moves.trans ?_ ((moves_mutexTaskPriReset h2).trans hlast.moves)
  rcases hst with ⟨rfl, rfl⟩ | ⟨rfl, rfl⟩
  · exact (move_leave hw bs).1.moves
  · exact (move_leave hw bs).2.moves

theorem move_pendLeave (hw : (k.tasks t).waits) (bs : BlkState) :
    Move t k (((k.pendLeave t).tickListRm t).updTask t fun x =>
      { x with blkState := bs, blkObj := none }) := by
  have hne : (k.tasks t).taskState.away := by
    rcases hw with hw | hw <;> rw [hw] <;> decide
  have hobj := blkListRm_same k t
  rcases hw with hw | hw
  · -- the task was not suspended
    have hl : k.pendLeave t = ((k.blkListRm t).readyListAdd t).updTask t fun x =>
        { x with taskState := .rdy } := by
      unfold pendLeave
      rw [hw]
    have hs := ((sameFields_blkListRm k t).trans (SameButReady.sameFields _ t
      (same_readyListAdd (k.blkListRm t) t))).trans (sameFields_updTask _ t fun x =>
        { x with taskState := .rdy })
    rw [← hl] at hs
    have hself : (k.pendLeave t).tasks t = { k.tasks t with taskState := .rdy } := by
      rw [hl, updTask_tasks_self, readyListAdd_tasks, blkListRm_tasks]
    have htick : (k.pendLeave t).tickHead = k.tickHead := by
      rw [hl, updTask_tickHead, readyListAdd_tickHead]
      exact hobj.2.2.2.2
    have hs' := (hs.trans (sameFields_tickListRm _ t)).trans (sameFields_updTask _ t fun x =>
      { x with blkState := bs, blkObj := none })
    refine .ready (hs'.frame ?_ ?_ ?_) hne ?_ ?_ (.inl ⟨?_, ?_⟩) (.inl ?_)
    any_goals rw [updTask_tasks_self, tickListRm_self, hself]
    · rw [updTask_tickHead]
      exact tickListRm_congr htick (by rw [hself])
    · rw [updTask_readyQueue, (tickListRm_same _ t).1, hl, updTask_readyQueue]
      exact readyListAdd_congr hobj.1 (fun u => by rw [blkListRm_tasks]) hobj.2.2.1
  · -- the task was suspended, and stays so
    have hl : k.pendLeave t = (k.blkListRm t).updTask t fun x =>
        { x with taskState := .suspended } := by
      unfold pendLeave
      rw [hw]
    have hs := (sameFields_blkListRm k t).trans (sameFields_updTask _ t fun x =>
        { x with taskState := .suspended })
    rw [← hl] at hs
    have hself : (k.pendLeave t).tasks t = { k.tasks t with taskState := .suspended } := by
      rw [hl, updTask_tasks_self, blkListRm_tasks]
    have htick : (k.pendLeave t).tickHead = k.tickHead := by
      rw [hl, updTask_tickHead]
      exact hobj.2.2.2.2
    have hs' := (hs.trans (sameFields_tickListRm _ t)).trans (sameFields_updTask _ t fun x =>
      { x with blkState := bs, blkObj := none })
    refine .rest (hs'.frame ?_ ?_ ?_) hne (.inl ?_) ?_ (.inl ⟨?_, ?_⟩) ?_
    any_goals rw [updTask_tasks_self, tickListRm_self, hself]
    · rw [updTask_tickHead]
      exact tickListRm_congr htick (by rw [hself])
    · rw [updTask_readyQueue, (tickListRm_same _ t).1, hl, updTask_readyQueue]
      exact hobj.1

theorem move_pendTaskWakeup (hw : (k.tasks t).waits) : Move t k (k.pendTaskWakeup t) :=
  move_pendLeave hw .finish

theorem move_pendTaskRm (hw : (k.tasks t).waits) : Move t k (k.pendTaskRm t) :=
  move_pendLeave hw .del

/-! ## The tick -/

theorem move_wakeSleeper (hs : (k.tasks t).taskState = .sleep ∨
      (k.tasks t).taskState = .sleepSuspended) (bs : BlkState) :
    Move t k (((k.updTask t fun x => { x with blkState := bs, taskState := .rdy }).tickListRm
        t).readyListAdd t) ∧
      Move t k (((k.tickListRm t).readyListAdd t).updTask t fun x =>
        { x with taskState := .rdy, blkState := bs }) := by
  have hne : (k.tasks t).taskState.away := by
    rcases hs with hs | hs <;> rw [hs] <;> decide
  constructor
  · set k₁ := k.updTask t fun x => { x with blkState := bs, taskState := .rdy } with hk1
    have hself : k₁.tasks t = { k.tasks t with blkState := bs, taskState := .rdy } :=
      updTask_tasks_self _ _ _
    have hfields := ((sameFields_updTask k t fun x =>
      { x with blkState := bs, taskState := .rdy }).trans (sameFields_tickListRm k₁ t)).trans
        (SameButReady.sameFields _ t (same_readyListAdd (k₁.tickListRm t) t))
    refine .ready (hfields.frame ?_ ?_ ?_) hne ?_ ?_ (.inl ⟨?_, ?_⟩) (.inl ?_)
    any_goals rw [readyListAdd_tasks, tickListRm_self, hself]
    · rw [readyListAdd_tickHead]
      exact tickListRm_congr rfl (by rw [hself])
    · refine readyListAdd_congr (tickListRm_same k₁ t).1 (fun u => ?_) (tickListRm_same k₁ t).2.2.1
      by_cases hu : u = t
      · rw [hu, tickListRm_self, hself]
      · rw [tickListRm_ne _ hu, hk1, updTask_tasks_ne _ _ _ _ hu]
  · have hfields := ((sameFields_tickListRm k t).trans (SameButReady.sameFields _ t
      (same_readyListAdd (k.tickListRm t) t))).trans
        (sameFields_updTask _ t fun x => { x with taskState := .rdy, blkState := bs })
    refine .ready (hfields.frame ?_ ?_ ?_) hne ?_ ?_ (.inl ⟨?_, ?_⟩) (.inl ?_)
    any_goals rw [updTask_tasks_self, readyListAdd_tasks, tickListRm_self]
    · rw [updTask_tickHead, readyListAdd_tickHead]
    · refine readyListAdd_congr (tickListRm_same k t).1 (fun u => ?_) (tickListRm_same k t).2.2.1
      by_cases hu : u = t
      · rw [hu, tickListRm_self]
      · rw [tickListRm_ne _ hu]

theorem move_restSleeper (hs : (k.tasks t).taskState = .sleepSuspended) (bs : BlkState) :
    Move t k ((k.updTask t fun x => { x with taskState := .suspended, blkState := bs }).tickListRm
      t) := by
  set k₁ := k.updTask t fun x => { x with taskState := .suspended, blkState := bs } with hk1
  have hself : k₁.tasks t = { k.tasks t with taskState := .suspended, blkState := bs } :=
    updTask_tasks_self _ _ _
  have hfields := (sameFields_updTask k t fun x =>
    { x with taskState := .suspended, blkState := bs }).trans (sameFields_tickListRm k₁ t)
  refine .rest (hfields.frame ?_ ?_ ?_) (by rw [hs]; decide) (.inl ?_) ?_ (.inl ⟨?_, ?_⟩) ?_
  any_goals rw [tickListRm_self, hself]
  · exact tickListRm_congr rfl (by rw [hself])
  · rw [(tickListRm_same k₁ t).1, hk1, updTask_readyQueue]

theorem moves_tickTask (h : k.tickTask fuel t = some k') : Moves k k' := by
  unfold tickTask at h
  split at h
  · rename_i hst
    cases h
    exact (move_wakeSleeper (.inl hst) .finish).1.moves
  · rename_i hst
    exact moves_endWait (.inl hst) (.inl ⟨rfl, rfl⟩) h
  · rename_i hst
    exact moves_endWait (.inr hst) (.inr ⟨rfl, rfl⟩) h
  · rename_i hst
    cases h
    exact (move_restSleeper hst .finish).moves
  · cases h
    exact .refl

theorem moves_tickLoop {ts : List TaskId} (h : k.tickLoop fuel ts = some k') : Moves k k' := by
  induction ts generalizing k with
  | nil =>
    cases h
    exact .refl
  | cons t ts ih =>
    unfold tickLoop at h
    split at h
    · obtain ⟨k₁, h1, h2⟩ := Option.bind_eq_some_iff.1 h
      exact (moves_tickTask h1).trans (ih h2)
    · cases h
      exact .refl

/-! ## The operations on a task -/

theorem move_stop (hs : (k.tasks t).taskState = .rdy) (n : ℕ) :
    Move t k ((k.updTask t fun x =>
        { x with suspendCount := n, taskState := .suspended }).readyListRm t) ∧
      Move t k ((k.readyListRm t).updTask t fun x => { x with taskState := .deleted }) := by
  constructor
  · set k₁ := k.updTask t fun x => { x with suspendCount := n, taskState := .suspended } with hk1
    have hself : k₁.tasks t = { k.tasks t with suspendCount := n, taskState := .suspended } :=
      updTask_tasks_self _ _ _
    have hfields := (sameFields_updTask k t fun x =>
      { x with suspendCount := n, taskState := .suspended }).trans
        (SameButReady.sameFields _ t (same_readyListRm k₁ t))
    refine .stop (hfields.frame ?_ ?_ ?_) hs (.inl ?_) ?_ ⟨?_, ?_, ?_⟩ ?_
    any_goals rw [readyListRm_tasks, hself]
    · rw [readyListRm_tickHead, hk1, updTask_tickHead]
    · exact readyListRm_congr rfl (by rw [hself]) rfl
  · have hfields := (SameButReady.sameFields _ t (same_readyListRm k t)).trans
      (sameFields_updTask _ t fun x => { x with taskState := .deleted })
    refine .stop (hfields.frame ?_ ?_ ?_) hs (.inr ?_) ?_ ⟨?_, ?_, ?_⟩ rfl
    any_goals rw [updTask_tasks_self, readyListRm_tasks]
    rw [updTask_tickHead, readyListRm_tickHead]

theorem moves_taskSuspend : Moves k (k.taskSuspend t).2 := by
  have hcount : Move t k (k.updTask t fun x => { x with suspendCount := x.suspendCount + 1 }) :=
    move_stay rfl rfl rfl Iff.rfl id id rfl rfl rfl
  unfold taskSuspend
  split
  · exact .refl
  · split
    · rename_i hst
      exact (move_stop hst 1).1.moves
    · rename_i hst
      have hr : (k.tasks t).taskState ≠ .rdy := by simp [hst]
      exact (move_stay (f := fun x => { x with suspendCount := 1, taskState := .sleepSuspended })
        rfl rfl rfl (by simp [hr]) (fun _ => .inr (.inl rfl)) (by simp [hst]) rfl rfl rfl).moves
    · rename_i hst
      have hr : (k.tasks t).taskState ≠ .rdy := by simp [hst]
      exact (move_stay (f := fun x => { x with suspendCount := 1, taskState := .pendSuspended })
        rfl rfl rfl (by simp [hr]) (fun _ => .inr (.inr (.inr rfl))) (by simp [hst]) rfl rfl
        rfl).moves
    all_goals try exact .refl
    all_goals
      split
      · exact .refl
      · exact hcount.moves

theorem moves_krhinoTaskSuspend : Moves k (k.krhinoTaskSuspend t).2 := by
  unfold krhinoTaskSuspend
  split
  · exact .refl
  · exact moves_taskSuspend

theorem move_unsuspend (hs : (k.tasks t).taskState = .suspended) :
    Move t k ((k.updTask t fun x => { x with taskState := .rdy }).readyListAdd t) := by
  set k₁ := k.updTask t fun x => { x with taskState := .rdy } with hk1
  have hself : k₁.tasks t = { k.tasks t with taskState := .rdy } := updTask_tasks_self _ _ _
  have hfields := (sameFields_updTask k t fun x => { x with taskState := .rdy }).trans
    (SameButReady.sameFields _ t (same_readyListAdd k₁ t))
  refine .ready (hfields.frame ?_ ?_ ?_) (by rw [hs]; decide) ?_ ?_ (.inr ⟨?_, ?_, ?_⟩) (.inl ?_)
  any_goals rw [readyListAdd_tasks, hself]
  · rw [hs]
    decide
  · rw [readyListAdd_tickHead, hk1, updTask_tickHead]
  · refine readyListAdd_congr rfl (fun u => ?_) rfl
    by_cases hu : u = t
    · rw [hu, hself]
    · rw [hk1, updTask_tasks_ne _ _ _ _ hu]

theorem move_lessSuspended :
    Move t k (k.updTask t fun x => { x with suspendCount := x.suspendCount - 1 }) :=
  move_stay rfl rfl rfl Iff.rfl id id rfl rfl rfl

theorem moves_resumeTo {st : TaskStat} (hs : (k.tasks t).taskState.away) (hst : st ≠ .rdy)
    (ht : st.timed) : Moves k (k.resumeTo t st) := by
  unfold resumeTo
  dsimp only
  have h := move_lessSuspended (k := k) (t := t)
  split
  · refine h.moves.trans (Move.moves (move_stay rfl rfl rfl ?_ (fun _ => ht) ?_ rfl rfl rfl))
    all_goals rw [updTask_tasks_self]
    · exact ⟨fun h => absurd h hst, fun h => absurd h hs.ne.1⟩
    · exact fun h => absurd h hs.ne.2
  · exact h.moves

theorem moves_krhinoTaskResume : Moves k (k.krhinoTaskResume t).2 := by
  unfold krhinoTaskResume
  split
  all_goals try exact .refl
  all_goals rename_i hst
  · -- a task that neither sleeps nor waits is ready again
    set k₁ := k.updTask t fun x => { x with suspendCount := x.suspendCount - 1 } with hk1
    have h1 : Move t k k₁ := move_lessSuspended
    have hst1 : (k₁.tasks t).taskState = .suspended := by
      rw [hk1, updTask_tasks_self]
      exact hst
    by_cases hc : (k₁.tasks t).suspendCount = 0
    · have hr : k.resumeTo t .rdy = k₁.updTask t fun x => { x with taskState := .rdy } := by
        unfold resumeTo
        exact if_pos hc
      have hc' : ((k.resumeTo t .rdy).tasks t).suspendCount = 0 := by
        rw [hr, updTask_tasks_self]
        exact hc
      dsimp only
      rw [if_pos hc', hr]
      exact h1.moves.trans (move_unsuspend hst1).moves
    · have hr : k.resumeTo t .rdy = k₁ := by
        unfold resumeTo
        exact if_neg hc
      dsimp only
      rw [hr, if_neg hc]
      exact h1.moves
  · exact moves_resumeTo (by rw [hst]; decide) (by decide) (.inl rfl)
  · exact moves_resumeTo (by rw [hst]; decide) (by decide) (.inr (.inr (.inl rfl)))

theorem moves_krhinoTaskWaitAbort {r : KStat × Kernel w}
    (h : k.krhinoTaskWaitAbort fuel t = some r) : Moves k r.2 := by
  unfold krhinoTaskWaitAbort at h
  split at h
  · cases h
    exact .refl
  · split at h
    · cases h
      exact .refl
    · rename_i hst
      cases h
      exact (move_unsuspend hst).moves
    all_goals try
      cases h
      exact .refl
    all_goals rename_i hst
    · cases h
      exact (move_wakeSleeper (.inl hst) .abort).2.moves
    · cases h
      exact (move_wakeSleeper (.inr hst) .abort).2.moves
    · obtain ⟨k₁, h1, rfl⟩ := Option.map_eq_some_iff.1 h
      exact moves_endWait (.inr hst) (.inl ⟨rfl, rfl⟩) h1
    · obtain ⟨k₁, h1, rfl⟩ := Option.map_eq_some_iff.1 h
      exact moves_endWait (.inl hst) (.inl ⟨rfl, rfl⟩) h1

end Kernel

end Rhino
