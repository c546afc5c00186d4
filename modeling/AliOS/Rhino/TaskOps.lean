/-
  Rhino kernel: the tick, and the operations on a task (`tick_list_update` of
  `k_tick.c`; suspend, resume, priority change, wait abort and deletion of
  `k_task.c`).

  Each operation is one critical section.  The ones that reset the priority of
  a mutex owner run on the fuel of `Prio`.
-/
import AliOS.Rhino.Prio
import AliOS.Rhino.Sem

namespace Rhino

variable {w : ℕ}

namespace Kernel

/-! ## The tick -/

/-- The wait of a blocked task ends with `bs`: off the tick list and off the
    object's list, then the owner of a mutex gets its priority reset. -/
def endWait (fuel : ℕ) (k : Kernel w) (t : TaskId) (bs : BlkState) (st : TaskStat) (ready : Bool) :
    Option (Kernel w) :=
  let k := (k.tickListRm t).blkListRm t
  let k := if ready then k.readyListAdd t else k
  let k := k.updTask t fun x => { x with blkState := bs, taskState := st }
  (mutexTaskPriReset fuel k t).map fun k => k.updTask t fun x => { x with blkObj := none }

/-- One due task of `tick_list_update`. -/
def tickTask (fuel : ℕ) (k : Kernel w) (t : TaskId) : Option (Kernel w) :=
  match (k.tasks t).taskState with
  | .sleep =>
    let k := k.updTask t fun x => { x with blkState := .finish, taskState := .rdy }
    some ((k.tickListRm t).readyListAdd t)
  | .pend => endWait fuel k t .timeout .rdy true
  | .pendSuspended => endWait fuel k t .timeout .suspended false
  | .sleepSuspended =>
    let k := k.updTask t fun x => { x with taskState := .suspended, blkState := .finish }
    some (k.tickListRm t)
  | _ => some k

/-- `delta <= 0`, with `delta` the signed difference of the match and the tick
    count. -/
def due (k : Kernel w) (t : TaskId) : Bool := ((k.tasks t).tickMatch - k.tickCount).toInt ≤ 0

/-- The loop of `tick_list_update`: the due tasks at the front of the list. -/
def tickLoop (fuel : ℕ) : Kernel w → List TaskId → Option (Kernel w)
  | k, [] => some k
  | k, t :: ts => if k.due t then (tickTask fuel k t).bind fun k => tickLoop fuel k ts else some k

def tickListUpdate (fuel : ℕ) (k : Kernel w) : Option (Kernel w) :=
  let k := { k with tickCount := k.tickCount + 1 }
  tickLoop fuel k k.tickHead

/-! ## Sleep -/

/-- `krhino_task_sleep`, up to the switch to another task: the status where it
    returns at once, or the kernel with the active task asleep. -/
def krhinoTaskSleep (k : Kernel w) (ticks : BitVec w) : KStat ⊕ Kernel w :=
  if ticks = 0 then .inl .invParam
  else if k.intrptNestedLevel > 0 then .inl .notCalledByIntrpt
  else if k.schedLock > 0 then .inl .schedDisable
  else
    let t := k.activeTask
    let k := k.updTask t fun x => { x with taskState := .sleep }
    .inr ((k.tickListInsert t ticks).readyListRm t)

/-! ## Suspend and resume -/

/-- The largest `suspend_nested_t`, which has 8 bits on every platform. -/
def suspendNestedMax : ℕ := 2 ^ 8 - 1

def taskSuspend (k : Kernel w) (t : TaskId) : KStat × Kernel w :=
  if t = k.activeTask ∧ k.schedLock > 0 then (.schedDisable, k)
  else match (k.tasks t).taskState with
  | .rdy =>
    (.success, (k.updTask t fun x =>
      { x with suspendCount := 1, taskState := .suspended }).readyListRm t)
  | .sleep =>
    (.success, k.updTask t fun x => { x with suspendCount := 1, taskState := .sleepSuspended })
  | .pend =>
    (.success, k.updTask t fun x => { x with suspendCount := 1, taskState := .pendSuspended })
  | .suspended | .sleepSuspended | .pendSuspended =>
    if (k.tasks t).suspendCount = suspendNestedMax then (.suspendedCountOvf, k)
    else (.success, k.updTask t fun x => { x with suspendCount := x.suspendCount + 1 })
  | _ => (.invTaskState, k)

def krhinoTaskSuspend (k : Kernel w) (t : TaskId) : KStat × Kernel w :=
  if (k.tasks t).prio = k.idlePri then (.taskSuspendNotAllowed, k) else k.taskSuspend t

/-- One level of suspension less; at none, the task goes to `st`. -/
def resumeTo (k : Kernel w) (t : TaskId) (st : TaskStat) : Kernel w :=
  let k := k.updTask t fun x => { x with suspendCount := x.suspendCount - 1 }
  if (k.tasks t).suspendCount = 0 then k.updTask t fun x => { x with taskState := st } else k

def krhinoTaskResume (k : Kernel w) (t : TaskId) : KStat × Kernel w :=
  match (k.tasks t).taskState with
  | .rdy | .sleep | .pend => (.taskNotSuspended, k)
  | .suspended =>
    let k := k.resumeTo t .rdy
    (.success, if (k.tasks t).suspendCount = 0 then k.readyListAdd t else k)
  | .sleepSuspended => (.success, k.resumeTo t .sleep)
  | .pendSuspended => (.success, k.resumeTo t .pend)
  | _ => (.invTaskState, k)

/-! ## Priority change, wait abort, deletion -/

/-- `krhino_task_pri_change`, without the old priority it reports. -/
def krhinoTaskPriChange (fuel : ℕ) (k : Kernel w) (t : TaskId) (pri : ℕ) :
    Option (KStat × Kernel w) :=
  if (k.tasks t).prio ≥ k.idlePri then some (.priChgNotAllowed, k)
  else if pri ≥ k.idlePri then some (.priChgNotAllowed, k)
  else if (k.tasks t).taskState = .deleted then some (.invTaskState, k)
  else if k.intrptNestedLevel > 0 then some (.notCalledByIntrpt, k)
  else match mutexPriLimit fuel k t pri with
  | none => none
  | some priLimit => taskPriChange fuel (k.updTask t fun x => { x with bPrio := pri }) t priLimit

def krhinoTaskWaitAbort (fuel : ℕ) (k : Kernel w) (t : TaskId) : Option (KStat × Kernel w) :=
  if k.intrptNestedLevel > 0 then some (.notCalledByIntrpt, k)
  else match (k.tasks t).taskState with
  | .rdy => some (.success, k)
  | .suspended =>
    some (.success, (k.updTask t fun x => { x with taskState := .rdy }).readyListAdd t)
  | .sleep | .sleepSuspended =>
    some (.success, ((k.tickListRm t).readyListAdd t).updTask t fun x =>
      { x with taskState := .rdy, blkState := .abort })
  | .pendSuspended | .pend => (endWait fuel k t .abort .rdy true).map fun k => (.success, k)
  | _ => some (.invTaskState, k)

/-- `task_mutex_free`, from the chain `next` on. -/
def taskMutexFree : ℕ → Kernel w → Option ObjId → Option (Kernel w)
  | 0, _, _ => none
  | _ + 1, k, none => some k
  | fuel + 1, k, some m =>
    let next := (k.mutexes m).mutexList
    match (k.objs m).blkList with
    | nextTask :: _ =>
      let k := k.pendTaskWakeup nextTask
      let k := k.updMutex m fun x =>
        { x with mutexTask := some nextTask, mutexList := (k.tasks nextTask).mutexList }
      taskMutexFree fuel (k.updTask nextTask fun x => { x with mutexList := some m }) next
    | [] => taskMutexFree fuel (k.updMutex m fun x => { x with mutexTask := none }) next

/-- The switch on the task state of `krhino_task_del`. -/
def taskDelState (fuel : ℕ) (k : Kernel w) (t : TaskId) : Option (KStat × Kernel w) :=
  match (k.tasks t).taskState with
  | .rdy => some (.success, (k.readyListRm t).updTask t fun x => { x with taskState := .deleted })
  | .suspended => some (.success, k.updTask t fun x => { x with taskState := .deleted })
  | .sleep | .sleepSuspended =>
    some (.success, (k.tickListRm t).updTask t fun x => { x with taskState := .deleted })
  | .pend | .pendSuspended =>
    let k := ((k.tickListRm t).blkListRm t).updTask t fun x => { x with taskState := .deleted }
    (mutexTaskPriReset fuel k t).map fun k => (.success, k)
  | _ => some (.invTaskState, k)

/-- `krhino_task_del`; `none` as the task is NULL, the active task. -/
def krhinoTaskDel (fuel : ℕ) (k : Kernel w) (task : Option TaskId) : Option (KStat × Kernel w) :=
  if k.intrptNestedLevel > 0 then some (.notCalledByIntrpt, k)
  else
    let t := task.getD k.activeTask
    if (k.tasks t).prio = k.idlePri then some (.taskDelNotAllowed, k)
    else if (k.tasks t).mmAllocFlag ≠ .staticAlloc then some (.kobjDelErr, k)
    else if t = k.activeTask ∧ k.schedLock > 0 then some (.schedDisable, k)
    else match taskMutexFree fuel k (k.tasks t).mutexList with
    | none => none
    | some k => taskDelState fuel k t

/-- `krhino_task_dyn_del`, with the semaphore `g_res_sem` of the task that frees
    the memory. -/
def krhinoTaskDynDel (fuel : ℕ) (k : Kernel w) (resSem : Sem) (task : Option TaskId) :
    Option (KStat × Kernel w × Sem) :=
  if k.intrptNestedLevel > 0 then some (.notCalledByIntrpt, k, resSem)
  else
    let t := task.getD k.activeTask
    if (k.tasks t).prio = k.idlePri then some (.taskDelNotAllowed, k, resSem)
    else if (k.tasks t).mmAllocFlag ≠ .dynAlloc then some (.kobjDelErr, k, resSem)
    else if t = k.activeTask ∧ k.schedLock > 0 then some (.schedDisable, k, resSem)
    else if (k.tasks t).taskState = .deleted then some (.invTaskState, k, resSem)
    else
      (krhinoSemGive fuel k resSem).bind fun g =>
        if g.stat ≠ .success then some (g.stat, g.k, g.sem)
        else
          (taskMutexFree fuel g.k (g.k.tasks t).mutexList).bind fun k =>
            -- the default of the switch is no error here
            (taskDelState fuel k t).map fun r => (.success, r.2, g.sem)

end Kernel

end Rhino
