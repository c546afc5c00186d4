/-
  Rhino kernel: what an operation on tasks does, one task at a time.

  In a move one task enters or leaves the ready queue, the tick list and the
  list of an object, or gets another priority, and all else stays as it is.
  Every operation is a sequence of moves; an invariant that each kind of move
  keeps is kept by all of them.
-/
import AliOS.Rhino.Wakeup

namespace Rhino

variable {w : ℕ} {k k' k₁ : Kernel w} {t u : TaskId}

/-- A task with a timed wait or a sleep may be in one of these states. -/
def TaskStat.timed (s : TaskStat) : Prop :=
  s = .sleep ∨ s = .sleepSuspended ∨ s = .pend ∨ s = .pendSuspended

instance (s : TaskStat) : Decidable s.timed := inferInstanceAs (Decidable (_ ∨ _))

/-- The task sleeps, waits or is suspended. -/
def TaskStat.away (s : TaskStat) : Prop := s = .suspended ∨ s.timed

instance (s : TaskStat) : Decidable s.away := inferInstanceAs (Decidable (_ ∨ _))

theorem TaskStat.away.ne {s : TaskStat} (h : s.away) : s ≠ .rdy ∧ s ≠ .deleted := by
  rcases h with rfl | rfl | rfl | rfl | rfl <;> decide

/-- What a move of the task `t` leaves as it is. -/
structure Frame (t : TaskId) (k k' : Kernel w) : Prop where
  others : ∀ u ≠ t, k'.tasks u = k.tasks u
  mutexList : (k'.tasks t).mutexList = (k.tasks t).mutexList
  bPrio : (k'.tasks t).bPrio = (k.tasks t).bPrio
  mmAllocFlag : (k'.tasks t).mmAllocFlag = (k.tasks t).mmAllocFlag
  mutexes : k'.mutexes = k.mutexes
  kind : SameKind k k'
  tickCount : k'.tickCount = k.tickCount
  activeTask : k'.activeTask = k.activeTask
  priMax : k'.priMax = k.priMax

/-- The task is not on the tick list any more. -/
def OffTick (t : TaskId) (k k' : Kernel w) : Prop :=
  (k'.tasks t).tickHead = false ∧ k'.tickHead = (k.tickListRm t).tickHead ∨
    ¬ (k.tasks t).taskState.timed ∧ (k'.tasks t).tickHead = (k.tasks t).tickHead ∧
      k'.tickHead = k.tickHead

/-- The tick list, and the task's place in it, are as they were. -/
structure SameTick (t : TaskId) (k k' : Kernel w) : Prop where
  flag : (k'.tasks t).tickHead = (k.tasks t).tickHead
  tickMatch : (k'.tasks t).tickMatch = (k.tasks t).tickMatch
  list : k'.tickHead = k.tickHead

/-- The task has been entered in the tick list for `n` ticks, or has not. -/
def OnTick (t : TaskId) (n : BitVec w) (k k' : Kernel w) : Prop :=
  n > 0 ∧ (k'.tasks t).tickHead = true ∧ (k'.tasks t).tickMatch = k.tickCount + n ∧
    k'.tickHead = (k.tickListInsert t n).tickHead

/-- **A move** of the task `t`. -/
inductive Move (t : TaskId) (k k' : Kernel w) : Prop where
  /-- A task that was not ready is. -/
  | ready (frame : Frame t k k') (was : (k.tasks t).taskState.away)
      (now : (k'.tasks t).taskState = .rdy) (prio : (k'.tasks t).prio = (k.tasks t).prio)
      (tick : OffTick t k k')
      (queue : k'.readyQueue = (k.readyListAdd t).readyQueue ∨
        k'.readyQueue = (k.readyListAddTail t).readyQueue)
  /-- A task ends its wait and is suspended, or is deleted. -/
  | rest (frame : Frame t k k') (was : (k.tasks t).taskState.away)
      (now : (k'.tasks t).taskState = .suspended ∨ (k'.tasks t).taskState = .deleted)
      (prio : (k'.tasks t).prio = (k.tasks t).prio) (tick : OffTick t k k')
      (queue : k'.readyQueue = k.readyQueue)
  /-- A ready task is suspended or deleted. -/
  | stop (frame : Frame t k k') (was : (k.tasks t).taskState = .rdy)
      (now : (k'.tasks t).taskState = .suspended ∨ (k'.tasks t).taskState = .deleted)
      (prio : (k'.tasks t).prio = (k.tasks t).prio) (tick : SameTick t k k')
      (queue : k'.readyQueue = (k.readyListRm t).readyQueue)
  /-- A ready task sleeps or blocks. -/
  | park (frame : Frame t k k') (was : (k.tasks t).taskState = .rdy)
      (now : (k'.tasks t).taskState = .sleep ∨ (k'.tasks t).taskState = .pend)
      (prio : (k'.tasks t).prio = (k.tasks t).prio)
      (tick : (∃ n, OnTick t n k k') ∨ SameTick t k k')
      (queue : k'.readyQueue = (k.readyListRm t).readyQueue)
  /-- The task stays where it is. -/
  | stay (frame : Frame t k k')
      (rdy : (k'.tasks t).taskState = .rdy ↔ (k.tasks t).taskState = .rdy)
      (timed : (k.tasks t).taskState.timed → (k'.tasks t).taskState.timed)
      (deleted : (k.tasks t).taskState = .deleted → (k'.tasks t).taskState = .deleted)
      (prio : (k'.tasks t).prio = (k.tasks t).prio) (tick : SameTick t k k')
      (queue : k'.readyQueue = k.readyQueue)
  /-- A ready task gets another priority. -/
  | readyPrio (frame : Frame t k k') (was : (k.tasks t).taskState = .rdy)
      (now : (k'.tasks t).taskState = .rdy) (tick : SameTick t k k')
      (queue : k'.readyQueue =
          (((k.readyListRm t).updTask t fun _ => k'.tasks t).readyListAddHead t).readyQueue ∨
        k'.readyQueue =
          (((k.readyListRm t).updTask t fun _ => k'.tasks t).readyListAddTail t).readyQueue)
  /-- A task that is not ready gets another priority. -/
  | prio (frame : Frame t k k') (was : (k.tasks t).taskState ≠ .rdy)
      (now : (k'.tasks t).taskState = (k.tasks t).taskState) (tick : SameTick t k k')
      (queue : k'.readyQueue = k.readyQueue)

/-- A sequence of moves. -/
inductive Moves : Kernel w → Kernel w → Prop where
  | refl {k : Kernel w} : Moves k k
  | cons {k k₁ k' : Kernel w} {t : TaskId} : Move t k k₁ → Moves k₁ k' → Moves k k'

theorem Moves.trans (h1 : Moves k k₁) (h2 : Moves k₁ k') : Moves k k' := by
  induction h1 with
  | refl => exact h2
  | cons h _ ih => exact .cons h (ih h2)

theorem Move.moves (h : Move t k k') : Moves k k' := .cons h .refl

theorem Move.frame (h : Move t k k') : Frame t k k' := by
  cases h <;> assumption

theorem Move.deleted (h : Move t k k') (hd : (k.tasks u).taskState = .deleted) :
    (k'.tasks u).taskState = .deleted := by
  by_cases hu : u = t
  · subst hu
    cases h with
    | ready _ was => exact absurd hd was.ne.2
    | rest _ was => exact absurd hd was.ne.2
    | stop _ was => rw [hd] at was; cases was
    | park _ was => rw [hd] at was; cases was
    | stay _ _ _ deleted => exact deleted hd
    | readyPrio _ was => rw [hd] at was; cases was
    | prio _ _ now => rw [now, hd]
  · rw [h.frame.others u hu, hd]

theorem Moves.keeps {I : Kernel w → Prop} (hstep : ∀ {k k' t}, I k → Move t k k' → I k')
    (h : Moves k k') (hk : I k) : I k' := by
  induction h with
  | refl => exact hk
  | cons h _ ih => exact ih (hstep hk h)

theorem Moves.deleted (h : Moves k k') (hd : (k.tasks u).taskState = .deleted) :
    (k'.tasks u).taskState = .deleted :=
  h.keeps (I := fun k => (k.tasks u).taskState = .deleted) (fun hd hm => hm.deleted hd) hd

/-! ## The ready queue reads the priority and the queue -/

namespace Kernel

theorem readyListAddTail_congr (hq : k₁.readyQueue = k.readyQueue)
    (hp : (k₁.tasks t).prio = (k.tasks t).prio) :
    (k₁.readyListAddTail t).readyQueue = (k.readyListAddTail t).readyQueue := by
  unfold readyListAddTail isReadyListEmpty readyListInit
  dsimp only
  rw [hq, hp]
  split_ifs <;> rfl

theorem readyListAddHead_congr (hq : k₁.readyQueue = k.readyQueue)
    (hp : (k₁.tasks t).prio = (k.tasks t).prio) :
    (k₁.readyListAddHead t).readyQueue = (k.readyListAddHead t).readyQueue := by
  unfold readyListAddHead isReadyListEmpty readyListInit
  dsimp only
  rw [hq, hp]
  split_ifs <;> rfl

theorem readyListAdd_congr (hq : k₁.readyQueue = k.readyQueue)
    (hp : ∀ u, (k₁.tasks u).prio = (k.tasks u).prio) (ha : k₁.activeTask = k.activeTask) :
    (k₁.readyListAdd t).readyQueue = (k.readyListAdd t).readyQueue := by
  unfold readyListAdd
  rw [hp, ha, hp]
  split_ifs
  · exact readyListAddTail_congr hq (hp t)
  · exact readyListAddHead_congr hq (hp t)

theorem readyListRm_congr (hq : k₁.readyQueue = k.readyQueue)
    (hp : (k₁.tasks t).prio = (k.tasks t).prio) (hm : k₁.priMax = k.priMax) :
    (k₁.readyListRm t).readyQueue = (k.readyListRm t).readyQueue := by
  unfold readyListRm findFirstBit
  simp only [hq, hp, hm]
  split_ifs
  · rfl
  · rfl
  · split <;> rfl

end Kernel

end Rhino

/-! ## The operations as sequences of moves -/

namespace Rhino

variable {w : ℕ} {k k' k₁ : Kernel w} {t u : TaskId} {fuel : ℕ}

theorem SameKind.refl (k : Kernel w) : SameKind k k := fun _ => ⟨rfl, rfl⟩

theorem SameKind.trans {k'' : Kernel w} (h1 : SameKind k k') (h2 : SameKind k' k'') :
    SameKind k k'' := fun o => ⟨(h2 o).1.trans (h1 o).1, (h2 o).2.trans (h1 o).2⟩

theorem SameKind.of_objs (h : k'.objs = k.objs) : SameKind k k' := fun o => by
  rw [h]
  exact ⟨rfl, rfl⟩

namespace Kernel

theorem sameKind_blkListRm (k : Kernel w) (t : TaskId) : SameKind k (k.blkListRm t) :=
  blkListRm_objs_type k t

theorem sameKind_pendListReorder (k : Kernel w) (t : TaskId) : SameKind k (k.pendListReorder t) :=
  pendListReorder_objs_type k t

section
variable (k : Kernel w) (t : TaskId) (o : ObjId)

@[simp] theorem updTask_readyQueue (f : Task w → Task w) :
    (k.updTask t f).readyQueue = k.readyQueue := rfl

@[simp] theorem updTask_priMax (f : Task w → Task w) : (k.updTask t f).priMax = k.priMax := rfl

@[simp] theorem readyListRm_priMax : (k.readyListRm t).priMax = k.priMax :=
  (same_readyListRm k t).priMax

theorem tickListRm_same : (k.tickListRm t).readyQueue = k.readyQueue ∧
    (k.tickListRm t).tickCount = k.tickCount ∧ (k.tickListRm t).activeTask = k.activeTask ∧
    (k.tickListRm t).priMax = k.priMax := by
  unfold tickListRm
  split_ifs <;> exact ⟨rfl, rfl, rfl, rfl⟩

theorem blkListRm_same : (k.blkListRm t).readyQueue = k.readyQueue ∧
    (k.blkListRm t).tickCount = k.tickCount ∧ (k.blkListRm t).activeTask = k.activeTask ∧
    (k.blkListRm t).priMax = k.priMax ∧ (k.blkListRm t).tickHead = k.tickHead := by
  unfold blkListRm
  split <;> exact ⟨rfl, rfl, rfl, rfl, rfl⟩

theorem pendListReorder_same : (k.pendListReorder t).readyQueue = k.readyQueue ∧
    (k.pendListReorder t).tickCount = k.tickCount ∧
    (k.pendListReorder t).activeTask = k.activeTask ∧ (k.pendListReorder t).priMax = k.priMax ∧
    (k.pendListReorder t).tickHead = k.tickHead := by
  unfold pendListReorder
  split
  · split
    · exact blkListRm_same k t
    · exact ⟨rfl, rfl, rfl, rfl, rfl⟩
  · exact ⟨rfl, rfl, rfl, rfl, rfl⟩

end

/-! ## Priorities -/

theorem updTask_const (k : Kernel w) (t : TaskId) (f : Task w → Task w) :
    k.updTask t f = k.updTask t fun _ => (k.updTask t f).tasks t := by
  rw [updTask_tasks_self]
  rfl

theorem move_readyPrio (hs : (k.tasks t).taskState = .rdy) (p : ℕ) :
    let k₁ := (k.readyListRm t).updTask t fun x => { x with prio := p }
    Move t k (if t = k₁.activeTask then k₁.readyListAddHead t else k₁.readyListAddTail t) := by
  intro k₁
  have hk1 : k₁ = (k.readyListRm t).updTask t fun _ => k₁.tasks t := updTask_const _ _ _
  have htask : k₁.tasks t = { k.tasks t with prio := p } := by simp [k₁]
  have hframe : ∀ k', SameButReady k₁ k' → Frame t k k' := by
    intro k' h
    refine ⟨fun u hu => ?_, ?_, ?_, ?_, ?_, .of_objs ?_, ?_, ?_, ?_⟩
    · rw [h.tasks]
      simp [k₁, hu]
    · rw [h.tasks, htask]
    · rw [h.tasks, htask]
    · rw [h.tasks, htask]
    · rw [h.mutexes]
      simp [k₁]
    · rw [h.objs]
      simp [k₁]
    · rw [h.tickCount]
      simp [k₁]
    · rw [h.activeTask]
      simp [k₁]
    · rw [h.priMax]
      simp [k₁]
  have htick : ∀ k', SameButReady k₁ k' → SameTick t k k' := by
    intro k' h
    refine ⟨?_, ?_, ?_⟩
    · rw [h.tasks, htask]
    · rw [h.tasks, htask]
    · rw [h.tickHead]
      simp [k₁]
  split_ifs
  · have h := same_readyListAddHead k₁ t
    refine .readyPrio (hframe _ h) hs ?_ (htick _ h) (.inl ?_)
    · rw [h.tasks, htask]
      exact hs
    · rw [h.tasks, ← hk1]
  · have h := same_readyListAddTail k₁ t
    refine .readyPrio (hframe _ h) hs ?_ (htick _ h) (.inr ?_)
    · rw [h.tasks, htask]
      exact hs
    · rw [h.tasks, ← hk1]

theorem move_prio (hs : (k.tasks t).taskState ≠ .rdy) (p : ℕ) :
    Move t k (k.updTask t fun x => { x with prio := p }) := by
  refine .prio ⟨fun u hu => ?_, ?_, ?_, ?_, rfl, .refl _, rfl, rfl, rfl⟩ hs ?_ ⟨?_, ?_, rfl⟩ rfl
  · exact updTask_tasks_ne _ _ _ _ hu
  all_goals rw [updTask_tasks_self]

theorem move_reorder (hs : (k.tasks t).taskState ≠ .rdy) (p : ℕ) :
    Move t k ((k.updTask t fun x => { x with prio := p }).pendListReorder t) := by
  obtain ⟨hq, hc, ha, hm, hh⟩ :=
    pendListReorder_same (k.updTask t fun x => { x with prio := p }) t
  refine .prio ⟨fun u hu => ?_, ?_, ?_, ?_, ?_, ?_, hc, ha, hm⟩ hs ?_ ⟨?_, ?_, hh⟩ hq
  · rw [pendListReorder_tasks, updTask_tasks_ne _ _ _ _ hu]
  · rw [pendListReorder_tasks, updTask_tasks_self]
  · rw [pendListReorder_tasks, updTask_tasks_self]
  · rw [pendListReorder_tasks, updTask_tasks_self]
  · rw [pendListReorder_mutexes, updTask_mutexes]
  · exact sameKind_pendListReorder (k.updTask t fun x => { x with prio := p }) t
  all_goals rw [pendListReorder_tasks, updTask_tasks_self]

theorem priSteps_moves : PriSteps (Moves (w := w)) := by
  refine ⟨fun _ => .refl, fun h1 h2 => h1.trans h2, fun h p => (move_readyPrio h p).moves,
    fun h p => (move_prio ?_ p).moves, fun h _ p => (move_reorder ?_ p).moves⟩
  · rcases h with h | h | h <;> simp [h]
  · rcases h with h | h <;> simp [h]

theorem moves_taskPriChange {p : ℕ} {r : KStat × Kernel w}
    (h : k.taskPriChange fuel t p = some r) : Moves k r.2 := priSteps_moves.taskPriChange h

theorem moves_mutexTaskPriReset (h : k.mutexTaskPriReset fuel t = some k') : Moves k k' :=
  priSteps_moves.mutexTaskPriReset h

/-- The priorities, the ready queue and the lists of the objects are written,
    and nothing else. -/
structure SameButPrio (k k' : Kernel w) : Prop where
  tasks : ∀ u, k'.tasks u = { k.tasks u with prio := (k'.tasks u).prio }
  mutexes : k'.mutexes = k.mutexes
  kind : SameKind k k'
  tickHead : k'.tickHead = k.tickHead
  tickCount : k'.tickCount = k.tickCount
  activeTask : k'.activeTask = k.activeTask
  priMax : k'.priMax = k.priMax

theorem SameButPrio.refl (k : Kernel w) : SameButPrio k k :=
  ⟨fun _ => rfl, rfl, .refl k, rfl, rfl, rfl, rfl⟩

theorem SameButPrio.trans (h1 : SameButPrio k k₁) (h2 : SameButPrio k₁ k') : SameButPrio k k' := by
  refine ⟨fun u => ?_, h2.mutexes.trans h1.mutexes, h1.kind.trans h2.kind,
    h2.tickHead.trans h1.tickHead, h2.tickCount.trans h1.tickCount,
    h2.activeTask.trans h1.activeTask, h2.priMax.trans h1.priMax⟩
  rw [h2.tasks u, h1.tasks u]

theorem sameButPrio_updTask (k : Kernel w) (t : TaskId) (p : ℕ) :
    SameButPrio k (k.updTask t fun x => { x with prio := p }) := by
  refine ⟨fun u => ?_, rfl, .refl k, rfl, rfl, rfl, rfl⟩
  rw [updTask_tasks]
  split
  · rename_i hu
    rw [hu]
  · rfl

theorem SameButReady.sameButPrio (h : SameButReady k k') : SameButPrio k k' :=
  ⟨fun u => by rw [h.tasks], h.mutexes, .of_objs h.objs, h.tickHead, h.tickCount, h.activeTask,
    h.priMax⟩

theorem priSteps_prio : PriSteps (SameButPrio (w := w)) := by
  refine ⟨SameButPrio.refl, SameButPrio.trans, fun {k t} hs p => ?_,
    fun {k t} hs p => sameButPrio_updTask k t p, fun {k t o} hs ho p => ?_⟩
  · have h1 := (same_readyListRm k t).sameButPrio.trans (sameButPrio_updTask _ t p)
    dsimp only
    split
    · exact h1.trans (same_readyListAddHead _ t).sameButPrio
    · exact h1.trans (same_readyListAddTail _ t).sameButPrio
  · obtain ⟨-, hc, ha, hm, hl⟩ := pendListReorder_same (k.updTask t fun x => { x with prio := p }) t
    refine (sameButPrio_updTask k t p).trans ⟨fun u => ?_, pendListReorder_mutexes _ t,
      sameKind_pendListReorder _ t, hl, hc, ha, hm⟩
    rw [pendListReorder_tasks]

end Kernel

end Rhino
