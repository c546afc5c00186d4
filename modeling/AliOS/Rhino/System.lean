/-
  Rhino kernel: all that the tasks and the interrupts can do to it, one
  critical section at a time, and the pend lists in every run.

  Objects that are no mutex are modelled by what their functions do to the
  tasks: `pend_to_blk_obj` (`wait`), `pend_task_wakeup` (`wake`) and
  `pend_task_rm` (`remove`).  A task that runs is not the idle task, which only
  counts, and a task or a mutex is created in memory where none is alive.
-/
import AliOS.Lib.Trans
import AliOS.Rhino.MutexOps
import AliOS.Rhino.Sched

namespace Rhino

variable {w : ℕ}

/-- The active task calls the kernel. -/
def Kernel.runs (k : Kernel w) : Prop :=
  (k.tasks k.activeTask).taskState = .rdy ∧ (k.tasks k.activeTask).prio ≠ k.idlePri

instance (k : Kernel w) : Decidable k.runs := inferInstanceAs (Decidable (_ ∧ _))

/-- What is done, with the status where it matters to the caller. -/
inductive KAct (w : ℕ) where
  | tick
  | timeSlice (pri : ℕ)
  | sliceSet (t : TaskId)
  | create (t : TaskId) (prio : ℕ) (autorun : Bool)
  | sleep (t : TaskId) (n : BitVec w)
  | yield
  | suspend (t : TaskId)
  | resume (t : TaskId)
  | waitAbort (t : TaskId)
  | priChange (t : TaskId) (pri : ℕ)
  | del (t : TaskId)
  | wait (t : TaskId) (o : ObjId) (n : BitVec w)
  | wake (t : TaskId)
  | remove (t : TaskId)
  | object (o : ObjId)
  | mutexCreate (m : ObjId)
  | mutexDel (m : ObjId) (stat : KStat)
  | lock (t : TaskId) (m : ObjId) (stat : KStat)
  | lockWait (t : TaskId) (m : ObjId) (n : BitVec w)
  | unlock (t : TaskId) (m : ObjId) (stat : KStat)
  | schedule
  | interrupts (level lock : ℕ)
  deriving DecidableEq

/-- The steps of the kernel. -/
inductive KStep : Sched w → KAct w → Sched w → Prop
  | tick {s fuel k} (h : s.k.tickListUpdate fuel = some k) : KStep s .tick { s with k := k }
  | timeSlice {s pri} : KStep s (.timeSlice pri) (timeSliceUpdate s pri)
  | sliceSet {s t slice} : KStep s (.sliceSet t) (krhinoTaskTimeSliceSet s t slice).2
  | policySet {s t policy} : KStep s (.sliceSet t) (krhinoSchedPolicySet s t policy).2
  | create {s t prio ticks autorun flag}
    (hnew : (s.k.tasks t).taskState = .seed ∨ (s.k.tasks t).taskState = .deleted) :
    KStep s (.create t prio autorun) (taskCreate s t prio ticks autorun flag).2
  | sleep {s n k} (hr : s.k.runs) (h : s.k.krhinoTaskSleep n = .inr k) :
    KStep s (.sleep s.k.activeTask n) { s with k := k }
  | yield {s} (hr : (s.k.tasks s.k.activeTask).taskState = .rdy) :
    KStep s .yield { s with k := s.k.krhinoTaskYield }
  | suspend {s t} : KStep s (.suspend t) { s with k := (s.k.krhinoTaskSuspend t).2 }
  | resume {s t} : KStep s (.resume t) { s with k := (s.k.krhinoTaskResume t).2 }
  | waitAbort {s t fuel r} (h : s.k.krhinoTaskWaitAbort fuel t = some r) :
    KStep s (.waitAbort t) { s with k := r.2 }
  | priChange {s t pri fuel r} (h : s.k.krhinoTaskPriChange fuel t pri = some r) :
    KStep s (.priChange t pri) { s with k := r.2 }
  | del {s task fuel r} (h : s.k.krhinoTaskDel fuel task = some r) :
    KStep s (.del (task.getD s.k.activeTask)) { s with k := r.2 }
  /-- `g_res_sem`, in whatever state it is. -/
  | dynDel {s task fuel resSem r} (h : s.k.krhinoTaskDynDel fuel resSem task = some r) :
    KStep s (.del (task.getD s.k.activeTask)) { s with k := r.2.1 }
  | wait {s o n} (hr : s.k.runs) (ho : (s.k.objs o).objType ≠ .mutex) (hn : n ≠ 0) :
    KStep s (.wait s.k.activeTask o n) { s with k := s.k.pendToBlkObj o s.k.activeTask n }
  | wake {s t o} (ht : (s.k.tasks t).on o) (ho : (s.k.objs o).objType ≠ .mutex) :
    KStep s (.wake t) { s with k := s.k.pendTaskWakeup t }
  | remove {s t o} (ht : (s.k.tasks t).on o) (ho : (s.k.objs o).objType ≠ .mutex) :
    KStep s (.remove t) { s with k := s.k.pendTaskRm t }
  /-- The creation or the deletion of an object, but for the tasks that wait. -/
  | object {s o} {b : BlkObj} (ho : (s.k.objs o).objType ≠ .mutex) (hb : b.objType ≠ .mutex)
    (hl : b.blkList = (s.k.objs o).blkList)
    (hp : b.blkPolicy = (s.k.objs o).blkPolicy ∨ (s.k.objs o).blkList = []) :
    KStep s (.object o) { s with k := s.k.updObj o fun _ => b }
  | mutexCreate {s m flag} (ho : (s.k.objs m).objType ≠ .mutex)
    (hl : (s.k.objs m).blkList = []) :
    KStep s (.mutexCreate m) { s with k := (s.k.mutexCreate m flag).2 }
  | mutexDel {s m flag fuel r} (h : s.k.mutexDel flag fuel m = some r) :
    KStep s (.mutexDel m r.1) { s with k := r.2 }
  | lock {s m fuel n stat k} (hr : s.k.runs)
    (h : s.k.krhinoMutexLock fuel .running m n = some (.ret stat k)) :
    KStep s (.lock s.k.activeTask m stat) { s with k := k }
  | lockWait {s m fuel n k} (hr : s.k.runs)
    (h : s.k.krhinoMutexLock fuel .running m n = some (.blocked k)) :
    KStep s (.lockWait s.k.activeTask m n) { s with k := k }
  | unlock {s m fuel r} (hr : s.k.runs) (h : s.k.krhinoMutexUnlock fuel .running m = some r) :
    KStep s (.unlock s.k.activeTask m r.1) { s with k := r.2 }
  | schedule {s} : KStep s .schedule { s with k := s.k.coreSched }
  | interrupts {s level lock} : KStep s (.interrupts level lock)
    { s with k := { s.k with intrptNestedLevel := level, schedLock := lock } }

/-- The kernel after `krhino_init`, at the tick `c`: the idle task is there, and
    nothing else. -/
def initKernel (w priMax : ℕ) (idle : TaskId) (c : BitVec w) : Kernel w :=
  let blank : Task w := { newTask w 0 false .staticAlloc with taskState := .seed, suspendCount := 0 }
  let k : Kernel w := {
    tasks := fun t => if t = idle then newTask w (priMax - 1) true .staticAlloc else blank
    objs := fun _ => ⟨[], .fifo, .none⟩
    mutexes := fun _ => ⟨none, none, 0, .staticAlloc⟩
    readyQueue := runqueueInit priMax
    tickHead := []
    tickCount := c
    activeTask := idle
    schedLock := 0
    intrptNestedLevel := 0
    priMax := priMax }
  k.readyListAddTail idle

/-- The system after `krhino_init`. -/
def initSched (w priMax : ℕ) (idle : TaskId) (c : BitVec w) : Sched w where
  k := initKernel w priMax idle c
  slices _ := ⟨timeSliceDefault, timeSliceDefault, .rr⟩
  idleTaskSpawned := true

end Rhino

/-! ## The pend lists -/

namespace Rhino

open Lib

variable {w : ℕ} {s s' : Sched w} {k k' : Kernel w} {a : KAct w} {t : TaskId} {o m : ObjId}

namespace Kernel

theorem same_readyListHeadToTail (k : Kernel w) (t : TaskId) :
    SameButReady k (k.readyListHeadToTail t) := ⟨rfl, rfl, rfl, rfl, rfl, rfl, rfl, rfl, rfl⟩

theorem coreSched_eq (k : Kernel w) : ∃ t, k.coreSched = { k with activeTask := t } := by
  unfold coreSched
  split
  · exact ⟨k.activeTask, rfl⟩
  split
  · exact ⟨k.activeTask, rfl⟩
  split
  · exact ⟨_, rfl⟩
  · exact ⟨k.activeTask, rfl⟩

/-- A rotation of the ready list is all that `time_slice_update` does to the
    kernel. -/
theorem timeSliceUpdate_k (s : Sched w) (pri : ℕ) :
    (timeSliceUpdate s pri).k = s.k ∨
      ∃ t ∈ s.k.readyQueue.curListItem pri,
        (timeSliceUpdate s pri).k = s.k.readyListHeadToTail t := by
  unfold timeSliceUpdate
  split
  · exact .inl rfl
  · rename_i t ts hl
    split
    · exact .inl rfl
    split
    · exact .inl rfl
    dsimp only
    split
    · exact .inl rfl
    · exact .inr ⟨t, by simp [hl], rfl⟩

end Kernel

theorem krhinoTaskTimeSliceSet_k (s : Sched w) (t : TaskId) (slice : ℕ) :
    (krhinoTaskTimeSliceSet s t slice).2.k = s.k := by
  unfold krhinoTaskTimeSliceSet
  split <;> rfl

theorem krhinoSchedPolicySet_k (s : Sched w) (t : TaskId) (policy : SchedPolicy) :
    (krhinoSchedPolicySet s t policy).2.k = s.k := by
  unfold krhinoSchedPolicySet
  split <;> rfl

/-- The kernel after `task_create`: as it was, or with the block written, and
    the task in its ready list. -/
theorem taskCreate_k (s : Sched w) (t : TaskId) (prio ticks : ℕ) (autorun : Bool)
    (flag : AllocFlag) :
    (taskCreate s t prio ticks autorun flag).2.k = s.k ∨ prio < s.k.priMax ∧
      (prio = s.k.idlePri → s.idleTaskSpawned = false) ∧
      (taskCreate s t prio ticks autorun flag).2.k =
        (if autorun then
          (s.k.updTask t fun _ => newTask w prio autorun flag).readyListAddTail t
        else s.k.updTask t fun _ => newTask w prio autorun flag) := by
  unfold taskCreate
  split
  · exact .inl rfl
  rename_i hp
  split
  · exact .inl rfl
  split
  · exact .inl rfl
  rename_i hidle
  exact .inr ⟨by omega, fun he => by simpa [he] using hidle, rfl⟩

theorem PendWf.of_ready (hk : PendWf k) (h : Kernel.SameButReady k k') : PendWf k' :=
  hk.congr h.objs fun u => by
    rw [h.tasks]
    exact ⟨fun _ => Iff.rfl, fun _ => rfl⟩

theorem PendWf.object (hk : PendWf k) {b : BlkObj} (hl : b.blkList = (k.objs o).blkList)
    (hp : b.blkPolicy = (k.objs o).blkPolicy ∨ (k.objs o).blkList = []) :
    PendWf (k.updObj o fun _ => b) := by
  have hlist : ∀ o', ((k.updObj o fun _ => b).objs o').blkList = (k.objs o').blkList := fun o' => by
    rw [Kernel.updObj_objs]
    split
    · rename_i he
      rw [he]
      exact hl
    · rfl
  refine ⟨fun o' => ?_, fun o' t => ?_, fun o' hpol => ?_⟩
  · rw [hlist]
    exact hk.nodup o'
  · rw [hlist]
    exact hk.mem o' t
  · rw [hlist]
    by_cases he : o' = o
    · subst he
      rw [Kernel.updObj_objs_self] at hpol
      rcases hp with hp | hp
      · exact hk.sorted o' (hp ▸ hpol)
      · rw [hp]
        exact List.Pairwise.nil
    · rw [Kernel.updObj_objs, if_neg he] at hpol
      exact hk.sorted o' hpol

theorem Kernel.runs.not_waits (h : k.runs) : ¬ (k.tasks k.activeTask).waits := by
  simp [Task.waits, h.1]

theorem KStep.pendWf (hk : PendWf s.k) (h : KStep s a s') : PendWf s'.k := by
  cases h with
  | tick h => exact (Kernel.pendStep_tickListUpdate hk h).1
  | @timeSlice pri =>
    rcases Kernel.timeSliceUpdate_k s pri with he | ⟨t, -, he⟩
    · rw [he]
      exact hk
    · rw [he]
      exact hk.of_ready (Kernel.same_readyListHeadToTail s.k t)
  | sliceSet =>
    rw [krhinoTaskTimeSliceSet_k]
    exact hk
  | policySet =>
    rw [krhinoSchedPolicySet_k]
    exact hk
  | @create t prio ticks autorun flag hnew =>
    rcases taskCreate_k s t prio ticks autorun flag with he | ⟨-, -, he⟩
    · rw [he]
      exact hk
    · have hw : ¬ (s.k.tasks t).waits := by
        rcases hnew with hn | hn <;> simp [Task.waits, hn]
      have hw' : ¬ (newTask w prio autorun flag).waits := by
        cases autorun <;> simp [Task.waits, newTask]
      have h1 : PendWf (s.k.updTask t fun _ => newTask w prio autorun flag) := by
        refine hk.congr rfl fun u => ?_
        rw [Kernel.updTask_tasks]
        split
        · rename_i hu
          rw [hu]
          exact ⟨fun o => ⟨fun h => absurd h.1 hw', fun h => absurd h.1 hw⟩, fun h => absurd h hw⟩
        · exact ⟨fun _ => Iff.rfl, fun _ => rfl⟩
      rw [he]
      split
      · exact h1.of_ready (Kernel.same_readyListAddTail _ t)
      · exact h1
  | sleep hr h =>
    obtain ⟨hm, -, hst⟩ := Kernel.move_sleep hr.1 h
    have ho : ∀ {n k'}, s.k.krhinoTaskSleep n = .inr k' → k'.objs = s.k.objs := by
      intro n k' h
      unfold Kernel.krhinoTaskSleep at h
      split_ifs at h
      obtain rfl := Sum.inr.inj h
      simp
    refine hk.congr (ho h) fun u => ?_
    by_cases hu : u = s.k.activeTask
    · subst hu
      exact ⟨fun o => ⟨fun hx => absurd hx.1 (by simp [Task.waits, hst]),
        fun hx => absurd hx.1 hr.not_waits⟩, fun hx => absurd hx hr.not_waits⟩
    · dsimp only
      rw [hm.frame.others u hu]
      exact ⟨fun _ => Iff.rfl, fun _ => rfl⟩
  | yield => exact hk.of_ready (Kernel.same_readyListHeadToTail s.k s.k.activeTask)
  | suspend => exact (Kernel.pendStep_krhinoTaskSuspend hk).1
  | resume => exact (Kernel.pendStep_krhinoTaskResume hk).1
  | waitAbort h => exact (Kernel.pendStep_krhinoTaskWaitAbort hk h).1
  | priChange h => exact (Kernel.pendStep_krhinoTaskPriChange hk h).1
  | @del task fuel r h =>
    unfold Kernel.krhinoTaskDel at h
    dsimp only at h
    split_ifs at h
    all_goals try
      cases h
      exact hk
    split at h
    · cases h
    · rename_i k₁ h1
      exact (Kernel.deleted_taskDelState (Kernel.delPart_taskMutexFree hk h1).2.1 h).2.1
  | @dynDel _ _ _ r h =>
    unfold Kernel.krhinoTaskDynDel at h
    dsimp only at h
    split_ifs at h
    all_goals try
      cases h
      exact hk
    obtain ⟨g, hg, h⟩ := Option.bind_eq_some_iff.1 h
    have hgwf := (Kernel.delPart_krhinoSemGive hk hg).2.1
    split at h
    · cases h
      exact hgwf
    · obtain ⟨k₁, h1, h⟩ := Option.bind_eq_some_iff.1 h
      obtain ⟨r', hr', rfl⟩ := Option.map_eq_some_iff.1 h
      exact (Kernel.deleted_taskDelState (Kernel.delPart_taskMutexFree hgwf h1).2.1 hr').2.1
  | @wait o n hr ho hn => exact (Kernel.blocked_pendToBlkObj hk hr.not_waits o n).wf
  | wake ht ho => exact (Kernel.woken_pendTaskWakeup hk ht.1).wf
  | remove ht ho => exact Kernel.pendWf_pendTaskRm hk ht.1
  | object ho hb hl hp => exact hk.object hl hp
  | @mutexCreate m flag ho hl =>
    have h1 := (sameButLocks_updMutex s.k m fun x =>
      { x with mutexTask := none, mutexList := none, mmAllocFlag := flag }).sameWait.wf hk
    exact h1.object (b := ⟨[], .pri, .mutex⟩) hl.symm (.inr hl)
  | mutexDel h => exact (Kernel.ops_mutexDel hk h).1
  | lock hr h => exact (Kernel.sameButLocks_krhinoMutexLock h).sameWait.wf hk
  | @lockWait m _ n k hr h =>
    obtain ⟨owner, k₁, -, -, -, -, hraise, rfl⟩ := Kernel.lock_blocked h
    have h1 : PendStep s.k k₁ ∧ k₁.activeTask = s.k.activeTask := by
      split at hraise
      · obtain ⟨st, hraise⟩ := hraise
        exact ⟨Kernel.pendStep_taskPriChange hk hraise,
          (Kernel.moves_taskPriChange hraise).keeps (I := fun k => k.activeTask = s.k.activeTask)
            (fun hi hm => hm.frame.activeTask.trans hi) rfl⟩
      · subst hraise
        exact ⟨(SameWait.refl _).step hk, rfl⟩
    refine (Kernel.blocked_pendToBlkObj h1.1.1 ?_ m n).wf
    rw [h1.2]
    exact ((h1.1.2 0).task s.k.activeTask).idle (.inl hr.1) |>.1.not_waits
  | unlock hr h => exact (Kernel.ops_krhinoMutexUnlock hk h).2
  | schedule =>
    obtain ⟨t, he⟩ := s.k.coreSched_eq
    rw [he]
    exact (sameWait_activeTask s.k t).wf hk
  | interrupts => exact (sameWait_levels s.k _ _).wf hk

theorem pendWf_initSched (w priMax : ℕ) (idle : TaskId) (c : BitVec w) :
    PendWf (initSched w priMax idle c).k := by
  have hw : ∀ t, ¬ ((initSched w priMax idle c).k.tasks t).waits := fun t => by
    unfold initSched initKernel
    rw [Kernel.readyListAddTail_tasks]
    dsimp only
    split <;> simp [Task.waits, newTask]
  have hl : ∀ o, ((initSched w priMax idle c).k.objs o).blkList = [] := fun o => by
    unfold initSched initKernel
    rw [Kernel.readyListAddTail_objs]
  refine ⟨fun o => ?_, fun o t => ?_, fun o _ => ?_⟩
  · rw [hl]
    exact List.nodup_nil
  · rw [hl]
    exact ⟨fun h => absurd h List.not_mem_nil, fun h => absurd h.1 (hw t)⟩
  · rw [hl]
    exact List.Pairwise.nil

end Rhino
