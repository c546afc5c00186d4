/-
  The steps that are no call on an object `o`: the tick, the operations on
  tasks, the scheduler and the interrupts.

  `Aside o` is what such a step shows for the tasks blocked on `o`, or woken
  from it: nobody blocks on `o`, a blocked task stays or leaves by timeout,
  abort or deletion, and a woken one stays as it was woken or is deleted.
-/
import AliOS.Rhino.TaskDel

namespace Rhino

variable {w : ℕ} {k k' : Kernel w} {o : ObjId} {t u : TaskId}

inductive TaskAct where
  | tick
  | waitAbort (t : TaskId)
  | suspend (t : TaskId)
  | resume (t : TaskId)
  | priChange (t : TaskId) (pri : ℕ)
  | del (t : TaskId)
  | schedule (t : TaskId)
  | interrupts (level lock : ℕ)
  deriving DecidableEq, Repr

/-- The steps that are no call on `o`. -/
inductive TaskStep (o : ObjId) : Kernel w → TaskAct → Kernel w → Prop
  | tick {k k' : Kernel w} {fuel} (h : k.tickListUpdate fuel = some k') : TaskStep o k .tick k'
  | waitAbort {k : Kernel w} {t fuel r} (h : k.krhinoTaskWaitAbort fuel t = some r) :
    TaskStep o k (.waitAbort t) r.2
  | suspend {k : Kernel w} {t} : TaskStep o k (.suspend t) (k.krhinoTaskSuspend t).2
  | resume {k : Kernel w} {t} : TaskStep o k (.resume t) (k.krhinoTaskResume t).2
  | priChange {k : Kernel w} {t pri fuel r} (h : k.krhinoTaskPriChange fuel t pri = some r) :
    TaskStep o k (.priChange t pri) r.2
  | del {k : Kernel w} {task fuel r} (h : k.krhinoTaskDel fuel task = some r) :
    TaskStep o k (.del (task.getD k.activeTask)) r.2
  /-- `g_res_sem`, in whatever state it is. -/
  | dynDel {k : Kernel w} {task fuel resSem r} (hs : resSem.blkObj ≠ o)
      (h : k.krhinoTaskDynDel fuel resSem task = some r) :
    TaskStep o k (.del (task.getD k.activeTask)) r.2.1
  | schedule {k : Kernel w} {t} (ht : (k.tasks t).taskState = .rdy) :
    TaskStep o k (.schedule t) { k with activeTask := t }
  | interrupts {k : Kernel w} {level lock} :
    TaskStep o k (.interrupts level lock) { k with intrptNestedLevel := level, schedLock := lock }

/-- What such a step shows for `o`. -/
structure Aside (o : ObjId) (a : TaskAct) (k k' : Kernel w) : Prop where
  wf : PendWf k'
  apart : Apart o k'
  objType : (k'.objs o).objType = (k.objs o).objType
  blkPolicy : (k'.objs o).blkPolicy = (k.objs o).blkPolicy
  task : ∀ u, (k.tasks u).Quiet o (k'.tasks u) ∨ a = .del u ∧ (k'.tasks u).taskState = .deleted

theorem Aside.of_quiet {a : TaskAct} (h : PendStep k k') (ha : Apart o k') : Aside o a k k' :=
  ⟨h.1, ha, (h.2 o).objType, (h.2 o).blkPolicy, fun u => .inl ((h.2 o).task u)⟩

theorem Aside.of_delStep (h : Kernel.DelStep o t k k') : Aside o (.del t) k k' := by
  rcases h with h | h
  · refine ⟨h.wf, h.apart, h.objType, h.blkPolicy, fun u => ?_⟩
    by_cases hu : u = t
    · subst hu
      exact .inr ⟨rfl, h.state⟩
    · exact .inl (h.others u hu)
  · exact ⟨h.wf, h.apart, h.quiet.objType, h.quiet.blkPolicy, fun u => .inl (h.quiet.task u)⟩

theorem Apart.krhinoTaskPriChange {pri fuel : ℕ} {r : KStat × Kernel w} (ha : Apart o k)
    (h : k.krhinoTaskPriChange fuel t pri = some r) : Apart o r.2 := by
  unfold Kernel.krhinoTaskPriChange at h
  split_ifs at h
  all_goals try
    cases h
    exact ha
  split at h
  · cases h
  · have ha' : Apart o (k.updTask t fun x => { x with bPrio := pri }) := by
      refine ha.congr (fun u => ?_) rfl
      rw [Kernel.updTask_tasks]
      split
      · rename_i hu
        rw [hu]
      · rfl
    exact ha'.moves (Kernel.moves_taskPriChange h)

theorem TaskStep.aside {a : TaskAct} (hk : PendWf k) (ha : Apart o k) (h : TaskStep o k a k') :
    Aside o a k k' := by
  cases h with
  | tick h =>
    refine .of_quiet (Kernel.pendStep_tickListUpdate hk h) ?_
    have hc : Apart o { k with tickCount := k.tickCount + 1 } := ha.congr (fun _ => rfl) rfl
    exact hc.moves (Kernel.moves_tickLoop h)
  | waitAbort h =>
    exact .of_quiet (Kernel.pendStep_krhinoTaskWaitAbort hk h)
      (ha.moves (Kernel.moves_krhinoTaskWaitAbort h))
  | suspend =>
    exact .of_quiet (Kernel.pendStep_krhinoTaskSuspend hk) (ha.moves Kernel.moves_krhinoTaskSuspend)
  | resume =>
    exact .of_quiet (Kernel.pendStep_krhinoTaskResume hk) (ha.moves Kernel.moves_krhinoTaskResume)
  | priChange h =>
    exact .of_quiet (Kernel.pendStep_krhinoTaskPriChange hk h) (ha.krhinoTaskPriChange h)
  | del h => exact .of_delStep ((Kernel.delStep_krhinoTaskDel hk h).2 o ha)
  | dynDel hs h => exact .of_delStep ((Kernel.delStep_krhinoTaskDynDel hk h).2 o ha hs)
  | schedule => exact .of_quiet ((sameWait_activeTask k _).step hk) (ha.congr (fun _ => rfl) rfl)
  | interrupts => exact .of_quiet ((sameWait_levels k _ _).step hk) (ha.congr (fun _ => rfl) rfl)

/-- The task a step on tasks has deleted. -/
def TaskAct.gone (k : Kernel w) : TaskAct → Option TaskId
  | .del t => if (k.tasks t).taskState = .deleted then some t else none
  | _ => none

theorem TaskAct.gone_deleted {a : TaskAct} (h : a.gone k = some u) :
    (k.tasks u).taskState = .deleted := by
  cases a with
  | del t =>
    simp only [TaskAct.gone] at h
    split at h
    · rename_i hd
      cases h
      exact hd
    · cases h
  | tick | waitAbort | suspend | resume | priChange | schedule | interrupts => cases h

theorem Task.not_idle_of_deleted {x : Task w} (hd : x.taskState = .deleted) :
    ¬ x.idle ∧ ∀ o, ¬ x.on o := by
  refine ⟨fun hi => ?_, fun o ho => ?_⟩
  · rcases hi with hi | hi <;> rw [hd] at hi <;> cases hi
  · rcases ho.1 with hi | hi <;> rw [hd] at hi <;> cases hi

theorem Aside.quiet {a : TaskAct} (h : Aside o a k k') (hu : a.gone k' ≠ some u) :
    (k.tasks u).Quiet o (k'.tasks u) := by
  rcases h.task u with hq | ⟨rfl, hd⟩
  · exact hq
  · exact absurd (if_pos hd) hu

theorem apart_readyKernel (prio : TaskId → ℕ) (o : ObjId) : Apart o (readyKernel w prio) :=
  ⟨fun _ => by simp [readyKernel], fun _ => by simp [readyKernel]⟩

end Rhino
