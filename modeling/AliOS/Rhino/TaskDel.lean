/-
  The deletion of a task: it frees the mutexes the task holds, so it wakes
  tasks that wait for them and writes the ownership of the mutexes.

  `Ops` are sequences of moves and of such writes.  To the receivers of an
  object that is no mutex the deletion is quiet, but for the deleted task.
-/
import AliOS.Rhino.BlockMoves

namespace Rhino

variable {w : ℕ} {k k' k₁ : Kernel w} {t u : TaskId} {o m : ObjId} {fuel : ℕ}

/-! ## Writes of ownership -/

/-- The ownership of mutexes and the base priorities are written, and nothing
    else. -/
structure SameButLocks (k k' : Kernel w) : Prop where
  tasks : ∀ u, k'.tasks u =
    { k.tasks u with mutexList := (k'.tasks u).mutexList, bPrio := (k'.tasks u).bPrio }
  objs : k'.objs = k.objs
  readyQueue : k'.readyQueue = k.readyQueue
  tickHead : k'.tickHead = k.tickHead
  tickCount : k'.tickCount = k.tickCount
  activeTask : k'.activeTask = k.activeTask
  priMax : k'.priMax = k.priMax

theorem SameButLocks.sameWait (h : SameButLocks k k') : SameWait k k' := by
  refine ⟨h.objs, fun u => ?_, fun u => ?_, fun u => ?_, fun u => ?_, fun u => ?_, fun u => ?_⟩
  all_goals rw [h.tasks u]

theorem sameButLocks_updMutex (k : Kernel w) (m : ObjId) (f : Mutex → Mutex) :
    SameButLocks k (k.updMutex m f) :=
  ⟨fun _ => rfl, rfl, rfl, rfl, rfl, rfl, rfl⟩

theorem sameButLocks_updTask (k : Kernel w) (t : TaskId) (f : Task w → Task w)
    (hf : ∀ x, f x = { x with mutexList := (f x).mutexList, bPrio := (f x).bPrio }) :
    SameButLocks k (k.updTask t f) := by
  refine ⟨fun u => ?_, rfl, rfl, rfl, rfl, rfl, rfl⟩
  rw [Kernel.updTask_tasks]
  split
  · rename_i hu
    rw [hu]
    exact hf _
  · rfl

/-- Sequences of moves and of writes of ownership. -/
inductive Ops : Kernel w → Kernel w → Prop where
  | refl {k : Kernel w} : Ops k k
  | move {k k₁ k' : Kernel w} {t : TaskId} : Move t k k₁ → Ops k₁ k' → Ops k k'
  | locks {k k₁ k' : Kernel w} : SameButLocks k k₁ → Ops k₁ k' → Ops k k'

theorem Ops.trans (h1 : Ops k k₁) (h2 : Ops k₁ k') : Ops k k' := by
  induction h1 with
  | refl => exact h2
  | move h _ ih => exact .move h (ih h2)
  | locks h _ ih => exact .locks h (ih h2)

theorem Moves.ops (h : Moves k k') : Ops k k' := by
  induction h with
  | refl => exact .refl
  | cons h _ ih => exact .move h ih

theorem SameButLocks.ops (h : SameButLocks k k') : Ops k k' := .locks h .refl

theorem Ops.keeps {I : Kernel w → Prop} (hmove : ∀ {k k' t}, I k → Move t k k' → I k')
    (hlocks : ∀ {k k'}, I k → SameButLocks k k' → I k') (h : Ops k k') (hk : I k) : I k' := by
  induction h with
  | refl => exact hk
  | move h _ ih => exact ih (hmove hk h)
  | locks h _ ih => exact ih (hlocks hk h)

/-! ## Objects that are no mutex -/

/-- No mutex is at the address `o`: the chains of mutexes do not come there. -/
structure Apart (o : ObjId) (k : Kernel w) : Prop where
  task : ∀ u, (k.tasks u).mutexList ≠ some o
  mutex : ∀ m, (k.mutexes m).mutexList ≠ some o

theorem Apart.move (h : Apart o k) (hm : Move t k k') : Apart o k' := by
  have hf := hm.frame
  refine ⟨fun u => ?_, fun m => ?_⟩
  · by_cases hu : u = t
    · rw [hu, hf.mutexList]
      exact h.task t
    · rw [hf.others u hu]
      exact h.task u
  · rw [hf.mutexes]
    exact h.mutex m

theorem Apart.moves (h : Apart o k) (hm : Moves k k') : Apart o k' :=
  hm.keeps (fun h hm => Apart.move h hm) h

theorem Apart.congr (h : Apart o k) (ht : ∀ u, (k'.tasks u).mutexList = (k.tasks u).mutexList)
    (hm : k'.mutexes = k.mutexes) : Apart o k' :=
  ⟨fun u => ht u ▸ h.task u, fun m => hm ▸ h.mutex m⟩

/-! ## Freeing the mutexes -/

theorem Woken.quiet (h : Woken t k k') (hon : (k.tasks t).on m) (hm : m ≠ o) : Quiet o k k' := by
  refine .of_task (h.kind o).1 (h.kind o).2 h.others
    ⟨h.msg, h.bqMsgSize, fun hi => absurd hon.1 hi.not_waits, fun ho => ?_,
      fun ho => absurd ho (h.idle.not_on o)⟩
  exact absurd (Option.some.inj (hon.2.symm.trans ho.2)) hm

/-- What a step of the deletion shows, for the object `o`. -/
structure DelPart (o : ObjId) (k k' : Kernel w) : Prop where
  wf : PendWf k'
  apart : Apart o k'
  quiet : Quiet o k k'

theorem DelPart.trans (h1 : DelPart o k k₁) (h2 : DelPart o k₁ k') : DelPart o k k' :=
  ⟨h2.wf, h2.apart, h1.quiet.trans h2.quiet⟩

theorem DelPart.refl (hk : PendWf k) (ha : Apart o k) : DelPart o k k := ⟨hk, ha, .refl o k⟩

namespace Kernel

theorem delPart_taskMutexFree {next : Option ObjId} (hk : PendWf k)
    (h : taskMutexFree fuel k next = some k') :
    Ops k k' ∧ PendWf k' ∧ ∀ o, Apart o k → next ≠ some o → DelPart o k k' := by
  induction fuel generalizing k next with
  | zero => simp [taskMutexFree] at h
  | succ fuel ih =>
    cases next with
    | none =>
      cases h
      exact ⟨.refl, hk, fun o ha _ => .refl hk ha⟩
    | some m =>
      unfold taskMutexFree at h
      split at h
      · -- the first waiter is woken, and owns the mutex
        rename_i u us hl
        have hon : (k.tasks u).on m := (hk.mem m u).1 (by simp [hl])
        have hw := woken_pendTaskWakeup hk hon.1
        set k₁ := k.pendTaskWakeup u with hk1
        set k2 := k₁.updMutex m fun x =>
          { x with mutexTask := some u, mutexList := (k₁.tasks u).mutexList } with hk2
        set k3 := k2.updTask u fun x => { x with mutexList := some m } with hk3
        have h2 : SameButLocks k₁ k2 := sameButLocks_updMutex _ _ _
        have h3 : SameButLocks k2 k3 := sameButLocks_updTask _ _ _ fun x => rfl
        have hsame : SameWait k₁ k3 := h2.sameWait.trans h3.sameWait
        obtain ⟨hops, hwf, hdel⟩ := ih (hsame.wf hw.wf) h
        refine ⟨.move (move_pendTaskWakeup hon.1) (.locks h2 (.locks h3 hops)), hwf,
          fun o ha hne => ?_⟩
        have hmo : m ≠ o := fun he => hne (congrArg some he)
        have ha1 : Apart o k₁ := ha.move (move_pendTaskWakeup hon.1)
        have ha3 : Apart o k3 := by
          refine ⟨fun v => ?_, fun m' => ?_⟩
          · rw [hk3, updTask_tasks]
            split
            · exact fun he => hmo (Option.some.inj he)
            · exact ha1.task v
          · rw [hk3, updTask_mutexes, hk2, updMutex_mutexes]
            split
            · exact ha1.task u
            · exact ha1.mutex m'
        have h1 : DelPart o k k3 :=
          ⟨hsame.wf hw.wf, ha3, (hw.quiet hon hmo).trans (hsame.quiet o)⟩
        exact h1.trans (hdel o ha3 (ha.mutex m))
      · -- nobody waits
        have h2 := sameButLocks_updMutex k m fun x => { x with mutexTask := none }
        obtain ⟨hops, hwf, hdel⟩ := ih (h2.sameWait.wf hk) h
        refine ⟨.locks h2 hops, hwf, fun o ha hne => ?_⟩
        have ha2 : Apart o (k.updMutex m fun x => { x with mutexTask := none }) := by
          refine ⟨ha.task, fun m' => ?_⟩
          rw [updMutex_mutexes]
          split
          · exact ha.mutex m
          · exact ha.mutex m'
        have h1 : DelPart o k (k.updMutex m fun x => { x with mutexTask := none }) :=
          ⟨h2.sameWait.wf hk, ha2, h2.sameWait.quiet o⟩
        exact h1.trans (hdel o ha2 (ha.mutex m))

/-! ## The task itself -/

/-- The task is deleted; for the others on `o` the step is quiet. -/
structure Deleted (o : ObjId) (t : TaskId) (k k' : Kernel w) : Prop where
  wf : PendWf k'
  apart : Apart o k'
  objType : (k'.objs o).objType = (k.objs o).objType
  blkPolicy : (k'.objs o).blkPolicy = (k.objs o).blkPolicy
  others : ∀ u ≠ t, (k.tasks u).Quiet o (k'.tasks u)
  state : (k'.tasks t).taskState = .deleted

theorem Deleted.of_delPart (h1 : DelPart o k k₁) (h2 : Deleted o t k₁ k') : Deleted o t k k' :=
  ⟨h2.wf, h2.apart, h2.objType.trans h1.quiet.objType, h2.blkPolicy.trans h1.quiet.blkPolicy,
    fun u hu => (h1.quiet.task u).trans (h2.others u hu), h2.state⟩

theorem move_delSuspended (hs : (k.tasks t).taskState = .suspended) :
    Move t k (k.updTask t fun x => { x with taskState := .deleted }) := by
  refine .rest ((sameFields_updTask k t _).frame ?_ ?_ ?_) (by rw [hs]; decide) (.inr ?_) ?_
    (.inr ⟨?_, ?_, rfl⟩) rfl
  any_goals rw [updTask_tasks_self]
  rw [hs]
  decide

theorem move_delSleeper (hs : (k.tasks t).taskState.away) :
    Move t k ((k.tickListRm t).updTask t fun x => { x with taskState := .deleted }) := by
  refine .rest (((sameFields_tickListRm k t).trans (sameFields_updTask _ t _)).frame ?_ ?_ ?_)
    hs (.inr ?_) ?_ (.inl ⟨?_, rfl⟩) (tickListRm_same k t).1
  any_goals rw [updTask_tasks_self]
  all_goals rw [tickListRm_self]

theorem move_delWaiter (hs : (k.tasks t).taskState.away) :
    Move t k (((k.tickListRm t).blkListRm t).updTask t fun x =>
      { x with taskState := .deleted }) := by
  refine .rest ((((sameFields_tickListRm k t).trans (sameFields_blkListRm _ t)).trans
    (sameFields_updTask _ t _)).frame ?_ ?_ ?_) hs (.inr ?_) ?_
    (.inl ⟨?_, (blkListRm_same _ t).2.2.2.2⟩)
    ((blkListRm_same _ t).1.trans (tickListRm_same k t).1)
  any_goals rw [updTask_tasks_self]
  all_goals rw [blkListRm_tasks, tickListRm_self]

theorem deleted_taskDelState {r : KStat × Kernel w} (hk : PendWf k)
    (h : k.taskDelState fuel t = some r) :
    Moves k r.2 ∧ PendWf r.2 ∧ ((r.1 = .success ∧ ∀ o, Apart o k → Deleted o t k r.2) ∨
      r.1 = .invTaskState ∧ r.2 = k ∧
        ((k.tasks t).taskState = .deleted ∨ (k.tasks t).taskState = .seed)) := by
  -- one move of the task `t`, with its list left if it waits
  have hone : ∀ {k'}, Move t k k' → PendWf k' → (k'.tasks t).taskState = .deleted →
      ∀ o, Apart o k → Deleted o t k k' := by
    intro k' hm hwf hd o ha
    refine ⟨hwf, ha.move hm, (hm.frame.kind o).1, (hm.frame.kind o).2, fun u hu => ?_, hd⟩
    rw [hm.frame.others u hu]
    exact .refl o _
  have hnw : ∀ {x : Task w}, x.taskState = .deleted → ¬ x.waits := by
    intro x hx hw
    rcases hw with hw | hw <;> rw [hx] at hw <;> cases hw
  -- a task that does not wait
  have hfree : ∀ {k'}, Move t k k' → k'.objs = k.objs → ¬ (k.tasks t).waits →
      (k'.tasks t).taskState = .deleted → PendWf k' := by
    intro k' hm ho hw hd
    refine hk.congr ho fun u => ?_
    by_cases hu : u = t
    · subst hu
      exact ⟨fun o => ⟨fun h => absurd h.1 (hnw hd), fun h => absurd h.1 hw⟩,
        fun h => absurd h hw⟩
    · rw [hm.frame.others u hu]
      exact ⟨fun _ => Iff.rfl, fun _ => rfl⟩
  unfold taskDelState at h
  split at h
  · rename_i hst
    cases h
    have hm := (move_stop hst 0).2
    have hd : (((k.readyListRm t).updTask t fun x => { x with taskState := .deleted }).tasks
        t).taskState = .deleted := by rw [updTask_tasks_self]
    have hwf := hfree hm (readyListRm_objs k t) (by simp [Task.waits, hst]) hd
    exact ⟨hm.moves, hwf, .inl ⟨rfl, hone hm hwf hd⟩⟩
  · rename_i hst
    cases h
    have hd : ((k.updTask t fun x => { x with taskState := .deleted }).tasks t).taskState =
        .deleted := by rw [updTask_tasks_self]
    have hm := move_delSuspended hst
    have hwf := hfree hm rfl (by simp [Task.waits, hst]) hd
    exact ⟨hm.moves, hwf, .inl ⟨rfl, hone hm hwf hd⟩⟩
  iterate 2
    · rename_i hst
      cases h
      have hd : (((k.tickListRm t).updTask t fun x => { x with taskState := .deleted }).tasks
          t).taskState = .deleted := by rw [updTask_tasks_self]
      have hm := move_delSleeper (k := k) (t := t) (by rw [hst]; decide)
      have hwf := hfree hm (tickListRm_objs k t) (by simp [Task.waits, hst]) hd
      exact ⟨hm.moves, hwf, .inl ⟨rfl, hone hm hwf hd⟩⟩
  iterate 2
    · rename_i hst
      obtain ⟨k2, h2, rfl⟩ := Option.map_eq_some_iff.1 h
      set k₁ := ((k.tickListRm t).blkListRm t).updTask t fun x => { x with taskState := .deleted }
        with hk1
      have hself : k₁.tasks t = { k.tasks t with tickHead := false, taskState := .deleted } := by
        rw [hk1, updTask_tasks_self, blkListRm_tasks, tickListRm_self]
      have hd : (k₁.tasks t).taskState = .deleted := by rw [hself]
      have hm : Move t k k₁ := move_delWaiter (by rw [hst]; decide)
      have hwf : PendWf k₁ := by
        refine hk.leave ?_ hm.frame.others (hnw hd)
        rw [hk1, updTask_objs, blkListRm_objs_of_sameWait (sameWait_tickListRm k t)]
      have hreset := pendStep_mutexTaskPriReset hwf h2
      have hmoves := moves_mutexTaskPriReset h2
      refine ⟨hm.moves.trans hmoves, hreset.1, .inl ⟨rfl, fun o ha => ?_⟩⟩
      have h1 := hone hm hwf hd o ha
      refine ⟨hreset.1, h1.apart.moves hmoves, (hreset.2 o).objType.trans h1.objType,
        (hreset.2 o).blkPolicy.trans h1.blkPolicy,
        fun u hu => (h1.others u hu).trans ((hreset.2 o).task u), ?_⟩
      exact hmoves.deleted hd
  · rename_i h1 h2 h3 h4 h5 h6
    cases h
    refine ⟨.refl, hk, .inr ⟨rfl, rfl, ?_⟩⟩
    cases hs : (k.tasks t).taskState
    all_goals simp_all

/-- Either the task is deleted, or the operation has been quiet. -/
def DelStep (o : ObjId) (t : TaskId) (k k' : Kernel w) : Prop := Deleted o t k k' ∨ DelPart o k k'

theorem delStep_krhinoTaskDel {task : Option TaskId} {r : KStat × Kernel w} (hk : PendWf k)
    (h : k.krhinoTaskDel fuel task = some r) :
    Ops k r.2 ∧ ∀ o, Apart o k → DelStep o (task.getD k.activeTask) k r.2 := by
  unfold krhinoTaskDel at h
  dsimp only at h
  split_ifs at h
  all_goals try
    cases h
    exact ⟨.refl, fun o ha => .inr (.refl hk ha)⟩
  split at h
  · cases h
  · rename_i k₁ h1
    obtain ⟨hops, hwf, hpart⟩ := delPart_taskMutexFree hk h1
    obtain ⟨hmoves, -, hd⟩ := deleted_taskDelState hwf h
    refine ⟨hops.trans hmoves.ops, fun o ha => ?_⟩
    have hp := hpart o ha (ha.task _)
    rcases hd with ⟨-, hd⟩ | ⟨-, he, -⟩
    · exact .inl (.of_delPart hp (hd o hp.apart))
    · rw [he]
      exact .inr hp

theorem delPart_krhinoSemGive {sem : Sem} {g : GiveResult w} (hk : PendWf k)
    (h : krhinoSemGive fuel k sem = some g) :
    Moves k g.k ∧ PendWf g.k ∧ ∀ o, Apart o k → sem.blkObj ≠ o → DelPart o k g.k := by
  unfold krhinoSemGive semGive at h
  have hrefl : Moves k k ∧ PendWf k ∧ ∀ o, Apart o k → sem.blkObj ≠ o → DelPart o k k :=
    ⟨.refl, hk, fun o ha _ => .refl hk ha⟩
  split at h
  · cases h
    exact hrefl
  split at h
  · split at h
    · cases h
      exact hrefl
    · cases h
      exact hrefl
  · rename_i u us hl
    cases h
    have hon : (k.tasks u).on sem.blkObj := (hk.mem _ u).1 (by simp [hl])
    have hw := woken_pendTaskWakeup hk hon.1
    have hm := move_pendTaskWakeup (k := k) hon.1
    exact ⟨hm.moves, hw.wf, fun o ha ho => ⟨hw.wf, ha.move hm, hw.quiet hon ho⟩⟩

theorem delStep_krhinoTaskDynDel {resSem : Sem} {task : Option TaskId}
    {r : KStat × Kernel w × Sem} (hk : PendWf k)
    (h : k.krhinoTaskDynDel fuel resSem task = some r) :
    Ops k r.2.1 ∧ ∀ o, Apart o k → resSem.blkObj ≠ o →
      DelStep o (task.getD k.activeTask) k r.2.1 := by
  unfold krhinoTaskDynDel at h
  dsimp only at h
  split_ifs at h
  all_goals try
    cases h
    exact ⟨.refl, fun o ha _ => .inr (.refl hk ha)⟩
  obtain ⟨g, hg, h⟩ := Option.bind_eq_some_iff.1 h
  obtain ⟨hgm, hgwf, hgp⟩ := delPart_krhinoSemGive hk hg
  split at h
  · cases h
    exact ⟨hgm.ops, fun o ha ho => .inr (hgp o ha ho)⟩
  · obtain ⟨k₁, h1, h⟩ := Option.bind_eq_some_iff.1 h
    obtain ⟨r', hr', rfl⟩ := Option.map_eq_some_iff.1 h
    obtain ⟨hops, hwf, hpart⟩ := delPart_taskMutexFree hgwf h1
    obtain ⟨hmoves, -, hd⟩ := deleted_taskDelState hwf hr'
    refine ⟨hgm.ops.trans (hops.trans hmoves.ops), fun o ha ho => ?_⟩
    have hp1 := hgp o ha ho
    have hp := hp1.trans (hpart o hp1.apart (hp1.apart.task _))
    rcases hd with ⟨-, hd⟩ | ⟨-, he, -⟩
    · exact .inl (.of_delPart hp (hd o hp.apart))
    · rw [he]
      exact .inr hp

end Kernel

end Rhino
