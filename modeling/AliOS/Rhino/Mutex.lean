/-
  Rhino kernel: mutexes (`k_mutex.c`).

  A task that finds the mutex taken blocks on it, and the owner inherits its
  priority; an unlock, or the deletion of the owner, hands the mutex to the
  first task that waits.  Pointers given to the functions are not NULL;
  `sysStat` is `g_sys_stat`.
-/
import AliOS.Rhino.TaskOps

namespace Rhino

variable {w : ℕ}

/-- The largest `mutex_nested_t`, which has 32 bits on every platform. -/
def mutexNestedMax : ℕ := 2 ^ 32 - 1

/-- `owner_nested--`. -/
def nestedDec (n : ℕ) : ℕ := if n = 0 then mutexNestedMax else n - 1

/-- What the critical section of a lock leads to: a return, or the block of the
    active task. -/
inductive LockResult (w : ℕ) where
  | ret (stat : KStat) (k : Kernel w)
  | blocked (k : Kernel w)

namespace Kernel

/-! ## Creation and deletion -/

/-- `mutex_create`, for a mutex at `m`. -/
def mutexCreate (k : Kernel w) (m : ObjId) (mmAllocFlag : AllocFlag) : KStat × Kernel w :=
  let k := k.updMutex m fun x =>
    { x with mutexTask := none, mutexList := none, mmAllocFlag := mmAllocFlag }
  (.success, k.updObj m fun _ => ⟨[], .pri, .mutex⟩)

def krhinoMutexCreate (k : Kernel w) (m : ObjId) : KStat × Kernel w := k.mutexCreate m .staticAlloc

/-- The body of `krhino_mutex_del` and of `krhino_mutex_dyn_del`, which ask for
    different allocations. -/
def mutexDel (flag : AllocFlag) (fuel : ℕ) (k : Kernel w) (m : ObjId) :
    Option (KStat × Kernel w) :=
  if k.intrptNestedLevel > 0 then some (.notCalledByIntrpt, k)
  else if (k.objs m).objType ≠ .mutex then some (.kobjTypeErr, k)
  else if (k.mutexes m).mmAllocFlag ≠ flag then some (.kobjDelErr, k)
  else
    let k := k.updObj m fun b => { b with objType := .none }
    let released := match (k.mutexes m).mutexTask with
      | some t => mutexRelease fuel k t (some m)
      | none => some k
    released.bind fun k => (pendRmAll fuel k m).map fun k => (.success, k)

def krhinoMutexDel (fuel : ℕ) (k : Kernel w) (m : ObjId) : Option (KStat × Kernel w) :=
  mutexDel .staticAlloc fuel k m

/-- `krhino_mutex_dyn_del`, up to the release of the memory. -/
def krhinoMutexDynDel (fuel : ℕ) (k : Kernel w) (m : ObjId) : Option (KStat × Kernel w) :=
  mutexDel .dynAlloc fuel k m

/-! ## Lock -/

/-- The free mutex becomes the task's, at the front of its chain. -/
def mutexGet (k : Kernel w) (t : TaskId) (m : ObjId) : Kernel w :=
  let k := k.updMutex m fun x =>
    { x with mutexTask := some t, mutexList := (k.tasks t).mutexList, ownerNested := 1 }
  k.updTask t fun x => { x with mutexList := some m }

/-- `krhino_mutex_lock`, up to the switch to another task; `RHINO_NO_WAIT` is 0. -/
def krhinoMutexLock (fuel : ℕ) (sysStat : KStat) (k : Kernel w) (m : ObjId) (ticks : BitVec w) :
    Option (LockResult w) :=
  if sysStat = .stopped then some (.ret .success k)
  else if k.intrptNestedLevel > 0 then some (.ret .notCalledByIntrpt k)
  else if (k.objs m).objType ≠ .mutex then some (.ret .kobjTypeErr k)
  else if some k.activeTask = (k.mutexes m).mutexTask then
    if (k.mutexes m).ownerNested = mutexNestedMax then some (.ret .mutexNestedOvf k)
    else some (.ret .mutexOwnerNested
      (k.updMutex m fun x => { x with ownerNested := x.ownerNested + 1 }))
  else match (k.mutexes m).mutexTask with
  | none => some (.ret .success (k.mutexGet k.activeTask m))
  | some mutexTask =>
    if ticks = 0 then some (.ret .noPendWait k)
    else if k.schedLock > 0 then some (.ret .schedDisable k)
    else
      let prio := (k.tasks k.activeTask).prio
      -- the owner inherits the priority of the task that blocks
      let raised := if prio < (k.tasks mutexTask).prio then
          (taskPriChange fuel k mutexTask prio).map (·.2)
        else some k
      raised.map fun k => .blocked (k.pendToBlkObj m k.activeTask ticks)

/-- The end of `krhino_mutex_lock` in a task that was blocked. -/
def krhinoMutexLockEnd (k : Kernel w) (t : TaskId) : KStat := pendStateEndProc (k.tasks t).blkState

/-! ## Unlock -/

/-- The mutex goes to the first task that waits, or is free. -/
def mutexPass (k : Kernel w) (m : ObjId) : Kernel w :=
  match (k.objs m).blkList with
  | [] => k.updMutex m fun x => { x with mutexTask := none }
  | t :: _ => (k.pendTaskWakeup t).mutexGet t m

def krhinoMutexUnlock (fuel : ℕ) (sysStat : KStat) (k : Kernel w) (m : ObjId) :
    Option (KStat × Kernel w) :=
  if sysStat = .stopped then some (.success, k)
  else if k.intrptNestedLevel > 0 then some (.notCalledByIntrpt, k)
  else if (k.objs m).objType ≠ .mutex then some (.kobjTypeErr, k)
  else if some k.activeTask ≠ (k.mutexes m).mutexTask then some (.mutexNotReleasedByOwner, k)
  else
    let k := k.updMutex m fun x => { x with ownerNested := nestedDec x.ownerNested }
    if (k.mutexes m).ownerNested > 0 then some (.mutexOwnerNested, k)
    else (mutexRelease fuel k k.activeTask (some m)).map fun k => (.success, k.mutexPass m)

end Kernel

end Rhino
