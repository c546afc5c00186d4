/-
  Rhino kernel: the creation of a task, round robin, and the choice of the next
  task (`k_sched.c`, `task_create` and `krhino_task_yield` of `k_task.c`).
-/
import AliOS.Rhino.TaskOps

namespace Rhino

variable {w : ℕ}

/-- `KSCHED_FIFO` and `KSCHED_RR`. -/
inductive SchedPolicy where
  | fifo | rr
  deriving DecidableEq, Repr

/-- The fields of `ktask_t` for round robin. -/
structure TaskSlice where
  timeSlice : ℕ
  timeTotal : ℕ
  schedPolicy : SchedPolicy
  deriving DecidableEq, Repr

/-- The kernel, with the fields for round robin and `g_idle_task_spawned`. -/
structure Sched (w : ℕ) where
  k : Kernel w
  slices : TaskId → TaskSlice
  idleTaskSpawned : Bool

/-- `RHINO_CONFIG_TIME_SLICE_DEFAULT`. -/
def timeSliceDefault : ℕ := 50

/-- `runqueue_init`; the bit map is zero. -/
def runqueueInit (priMax : ℕ) : Runqueue := ⟨fun _ => [], fun _ => false, priMax⟩

/-- The block that `task_create` writes. -/
def newTask (w : ℕ) (prio : ℕ) (autorun : Bool) (mmAllocFlag : AllocFlag) : Task w where
  suspendCount := if autorun then 0 else 1
  mutexList := none
  tickMatch := 0
  tickRemain := 0
  tickHead := false
  msg := fun _ => 0
  bqMsgSize := 0
  taskState := if autorun then .rdy else .suspended
  blkState := .finish
  blkObj := none
  prio := prio
  bPrio := prio
  mmAllocFlag := mmAllocFlag

/-- `task_create`, with `ticks` for round robin; the name, the stack and the
    entry of the task are given. -/
def taskCreate (s : Sched w) (t : TaskId) (prio ticks : ℕ) (autorun : Bool)
    (mmAllocFlag : AllocFlag) : KStat × Sched w :=
  if prio ≥ s.k.priMax then (.beyondMaxPri, s)
  else if s.k.intrptNestedLevel > 0 then (.notCalledByIntrpt, s)
  else if prio = s.k.idlePri ∧ s.idleTaskSpawned then (.idleTaskExist, s)
  else
    let total := if ticks > 0 then ticks % 2 ^ 32 else timeSliceDefault
    let k := s.k.updTask t fun _ => newTask w prio autorun mmAllocFlag
    (.success, {
      k := if autorun then k.readyListAddTail t else k
      slices := Function.update s.slices t ⟨total, total, .rr⟩
      idleTaskSpawned := s.idleTaskSpawned || prio == s.k.idlePri })

def krhinoTaskCreate (s : Sched w) (t : TaskId) (prio ticks : ℕ) (autorun : Bool) :
    KStat × Sched w :=
  taskCreate s t prio ticks autorun .staticAlloc

/-- `krhino_task_dyn_create`, the memory being at `t`. -/
def krhinoTaskDynCreate (s : Sched w) (t : TaskId) (prio ticks : ℕ) (autorun : Bool) :
    KStat × Sched w :=
  taskCreate s t prio ticks autorun .dynAlloc

namespace Kernel

def krhinoTaskYield (k : Kernel w) : Kernel w := k.readyListHeadToTail k.activeTask

/-- `preferred_cpu_ready_task_get`; `none` where the list is empty. -/
def preferredCpuReadyTaskGet (k : Kernel w) : Option TaskId :=
  (k.readyQueue.curListItem k.readyQueue.highestPri).head?

/-- `core_sched`: the switch to the preferred task. -/
def coreSched (k : Kernel w) : Kernel w :=
  if k.intrptNestedLevel > 0 then k
  else if k.schedLock > 0 then k
  else match k.preferredCpuReadyTaskGet with
  | some t => { k with activeTask := t }
  | none => k

end Kernel

def timeSliceUpdate (s : Sched w) (taskPri : ℕ) : Sched w :=
  match s.k.readyQueue.curListItem taskPri with
  | [] => s
  | t :: ts =>
    if (s.slices t).schedPolicy = .fifo then s
    else if ts = [] then s
    else
      let slice := (s.slices t).timeSlice - 1
      if slice > 0 then
        { s with slices := Function.update s.slices t { s.slices t with timeSlice := slice } }
      else
        { s with
          k := s.k.readyListHeadToTail t
          slices := Function.update s.slices t
            { s.slices t with timeSlice := (s.slices t).timeTotal } }

def krhinoTaskTimeSliceSet (s : Sched w) (t : TaskId) (slice : ℕ) : KStat × Sched w :=
  if s.k.intrptNestedLevel > 0 then (.notCalledByIntrpt, s)
  else
    let total := if slice > 0 then slice % 2 ^ 32 else timeSliceDefault
    let x := { s.slices t with timeTotal := total, timeSlice := total }
    (.success, { s with slices := Function.update s.slices t x })

def krhinoSchedPolicySet (s : Sched w) (t : TaskId) (policy : SchedPolicy) : KStat × Sched w :=
  if s.k.intrptNestedLevel > 0 then (.notCalledByIntrpt, s)
  else
    let x := { s.slices t with schedPolicy := policy }
    (.success, { s with slices := Function.update s.slices t x })

end Rhino
