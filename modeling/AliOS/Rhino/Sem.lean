/-
  Rhino kernel: semaphores (`k_sem.c`).

  A give hands its unit to a blocked task, through the task's `blk_state`, or
  adds it to the count.  A take either returns within its critical section or
  leaves the task blocked; `krhinoSemTakeEnd` is the rest of it, run when the
  task is scheduled again.  Pointers given to the functions are not NULL.
-/
import AliOS.Rhino.Pend

namespace Rhino

variable {w : ℕ}

/-- `ksem_t`; `blkObj` is its address, where its `blk_obj` is. -/
structure Sem where
  blkObj : ObjId
  count : ℕ
  peakCount : ℕ
  mmAllocFlag : AllocFlag

/-- The largest `sem_count_t`, which has 32 bits on every platform. -/
def semCountMax : ℕ := 2 ^ 32 - 1

/-- `sem_create`, for a semaphore at `obj`. -/
def semCreate (k : Kernel w) (obj : ObjId) (count : ℕ) (mmAllocFlag : AllocFlag) :
    KStat × Kernel w × Sem :=
  (.success, k.updObj obj fun _ => ⟨[], .pri, .sem⟩, ⟨obj, count, count, mmAllocFlag⟩)

def krhinoSemCreate (k : Kernel w) (obj : ObjId) (count : ℕ) : KStat × Kernel w × Sem :=
  semCreate k obj count .staticAlloc

namespace Kernel

/-- `while (!is_klist_empty(blk_list_head)) pend_task_wakeup(..)`, on fuel, with
    the tasks woken. -/
def pendWakeupAll : ℕ → Kernel w → ObjId → Option (Kernel w × List TaskId)
  | 0, _, _ => none
  | fuel + 1, k, o =>
    match (k.objs o).blkList with
    | [] => some (k, [])
    | t :: _ => (pendWakeupAll fuel (k.pendTaskWakeup t) o).map fun r => (r.1, t :: r.2)

/-- `while (!is_klist_empty(blk_list_head)) pend_task_rm(..)`, on fuel. -/
def pendRmAll : ℕ → Kernel w → ObjId → Option (Kernel w)
  | 0, _, _ => none
  | fuel + 1, k, o =>
    match (k.objs o).blkList with
    | [] => some k
    | t :: _ => pendRmAll fuel (k.pendTaskRm t) o

end Kernel

def krhinoSemDel (fuel : ℕ) (k : Kernel w) (sem : Sem) : Option (KStat × Kernel w) :=
  if k.intrptNestedLevel > 0 then some (.notCalledByIntrpt, k)
  else if (k.objs sem.blkObj).objType ≠ .sem then some (.kobjTypeErr, k)
  else if sem.mmAllocFlag ≠ .staticAlloc then some (.kobjDelErr, k)
  else
    ((k.updObj sem.blkObj fun b => { b with objType := .none }).pendRmAll fuel sem.blkObj).map
      fun k => (.success, k)

/-! ## Give -/

/-- What a give returns: the status, the tasks given a unit, and the kernel and
    the semaphore. -/
structure GiveResult (w : ℕ) where
  stat : KStat
  served : List TaskId
  k : Kernel w
  sem : Sem

def semGive (fuel : ℕ) (k : Kernel w) (sem : Sem) (optWakeAll : Bool) : Option (GiveResult w) :=
  if (k.objs sem.blkObj).objType ≠ .sem then some ⟨.kobjTypeErr, [], k, sem⟩
  else
    match (k.objs sem.blkObj).blkList with
    | [] =>
      if sem.count = semCountMax then some ⟨.semOvf, [], k, sem⟩
      else
        let count := sem.count + 1
        some ⟨.success, [], k, { sem with
          count := count, peakCount := if count > sem.peakCount then count else sem.peakCount }⟩
    | t :: _ =>
      if optWakeAll then
        (k.pendWakeupAll fuel sem.blkObj).map fun r => ⟨.success, r.2, r.1, sem⟩
      else some ⟨.success, [t], k.pendTaskWakeup t, sem⟩

def krhinoSemGive (fuel : ℕ) (k : Kernel w) (sem : Sem) : Option (GiveResult w) :=
  semGive fuel k sem false

def krhinoSemGiveAll (fuel : ℕ) (k : Kernel w) (sem : Sem) : Option (GiveResult w) :=
  semGive fuel k sem true

/-! ## Take -/

/-- What the critical section of a take leads to: a return, or the block of the
    active task. -/
inductive TakeResult (w : ℕ) where
  | ret (stat : KStat) (sem : Sem)
  | blocked (k : Kernel w)

/-- `krhino_sem_take`, up to the switch to another task; `RHINO_NO_WAIT` is 0. -/
def krhinoSemTake (k : Kernel w) (sem : Sem) (ticks : BitVec w) : TakeResult w :=
  if k.intrptNestedLevel > 0 then .ret .notCalledByIntrpt sem
  else if (k.objs sem.blkObj).objType ≠ .sem then .ret .kobjTypeErr sem
  else if sem.count > 0 then .ret .success { sem with count := sem.count - 1 }
  else if ticks = 0 then .ret .noPendWait sem
  else if k.schedLock > 0 then .ret .schedDisable sem
  else .blocked (k.pendToBlkObj sem.blkObj k.activeTask ticks)

/-- The end of `krhino_sem_take` in a task that was blocked. -/
def krhinoSemTakeEnd (k : Kernel w) (t : TaskId) : KStat := pendStateEndProc (k.tasks t).blkState

def krhinoSemCountSet (k : Kernel w) (sem : Sem) (semCount : ℕ) : KStat × Sem :=
  if k.intrptNestedLevel > 0 then (.notCalledByIntrpt, sem)
  else if (k.objs sem.blkObj).objType ≠ .sem then (.kobjTypeErr, sem)
  else if sem.count > 0 ∨ (k.objs sem.blkObj).blkList = [] then
    (.success, { sem with
      count := semCount
      peakCount := if semCount > sem.peakCount then semCount else sem.peakCount })
  else (.semTaskWaiting, sem)

end Rhino
