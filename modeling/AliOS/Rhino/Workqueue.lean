/-
  Rhino kernel: work queues (`k_workqueue.c`).

  A work goes on the list of its queue in one critical section, and the unit
  for it into the semaphore of the queue after it: `gives` are the calls in
  between.  The worker takes a unit, then a work, and calls the handler outside
  of the critical section (`calls`); a cancel reads `wq` before its own
  (`cancels`); a deletion tests the queue before it deletes the worker (`dels`).
  A work with a delay goes through its timer, whose callback `timer_task` runs
  before it takes the timer off its list.
-/
import AliOS.Rhino.Timer
import AliOS.Rhino.Sem

namespace Rhino

open Lib

variable {w : ℕ}

/-- The address of a `kworkqueue_t`. -/
abbrev WqId := ℕ

/-- The address of a `kwork_t`. -/
abbrev WorkId := ℕ

/-- `kwork_t`, but for its handler and the argument of it. -/
structure Work (w : ℕ) where
  wq : Option WqId
  workExit : Bool
  dly : BitVec w
  timer : TimerId

/-- Where a worker is: about to take a unit, blocked, with a unit, at a work, or
    deleted. -/
inductive WorkerPc where
  | take | blocked | got | busy | gone
  deriving DecidableEq, Repr

/-- `kworkqueue_t`, with the type and the count of its semaphore, on which only
    the worker blocks.  `onList` tells whether `workqueue_node` is linked. -/
structure WorkQueue where
  onList : Bool
  workList : List WorkId
  workCurrent : Option WorkId
  semType : KobjType
  count : ℕ
  worker : WorkerPc

/-- Where a deletion is: the queue exists, its test is passed, the worker is
    deleted, the semaphore is deleted. -/
inductive DelPc where
  | found | checked | noWorker | noSem
  deriving DecidableEq, Repr

/-- The callback of the timer of a work: not running, at its critical section,
    at its give, or done. -/
inductive CbPc where
  | idle
  | enter (v : WorkId) (q : WqId)
  | give (v : WorkId) (q : WqId)
  | done (v : WorkId)
  deriving DecidableEq, Repr

/-- The timers, with the `priv` of each, the works, the queues, and the calls
    in progress. -/
structure WorkSys (w : ℕ) where
  tm : TimerSys w
  priv : TimerId → WorkId
  works : WorkId → Work w
  queues : WqId → WorkQueue
  cb : CbPc
  gives : List (WqId × WorkId)
  calls : List (WqId × WorkId)
  cancels : List (WorkId × Option WqId)
  dels : List (WqId × DelPc)

/-! ## The semaphore of a queue -/

namespace WorkQueue

/-- A queue as `krhino_workqueue_create` leaves it. -/
def new : WorkQueue where
  onList := true
  workList := []
  workCurrent := none
  semType := .sem
  count := 0
  worker := .take

/-- `krhino_sem_give`. -/
def semGive (x : WorkQueue) : KStat × WorkQueue :=
  if x.semType ≠ .sem then (.kobjTypeErr, x)
  else if x.worker = .blocked then (.success, { x with worker := .got })
  else if x.count = semCountMax then (.semOvf, x)
  else (.success, { x with count := x.count + 1 })

/-- `krhino_sem_take` by the worker. -/
def semTake (x : WorkQueue) : WorkQueue :=
  if x.count > 0 then { x with count := x.count - 1, worker := .got }
  else { x with worker := .blocked }

end WorkQueue

namespace WorkSys

def updWork (s : WorkSys w) (v : WorkId) (f : Work w → Work w) : WorkSys w :=
  { s with works := Function.update s.works v (f (s.works v)) }

def updQueue (s : WorkSys w) (q : WqId) (f : WorkQueue → WorkQueue) : WorkSys w :=
  { s with queues := Function.update s.queues q (f (s.queues q)) }

/-- `klist_rm_init(&work->work_node)`, on whichever list it is. -/
def unlink (s : WorkSys w) (v : WorkId) : WorkSys w :=
  { s with queues := fun q => { s.queues q with workList := (s.queues q).workList.erase v } }

/-- The critical section that adds a work to a queue. -/
def insert (s : WorkSys w) (q : WqId) (v : WorkId) : WorkSys w :=
  ((s.unlink v).updQueue q fun x => { x with workList := x.workList ++ [v] }).updWork v
    fun x => { x with wq := some q, workExit := true }

/-- The critical section of `worker_task` that takes the work `v`. -/
def dequeue (s : WorkSys w) (q : WqId) (v : WorkId) : WorkSys w :=
  ((s.unlink v).updQueue q fun x => { x with workCurrent := some v, worker := .busy }).updWork v
    fun x => { x with workExit := false }

/-- The timer is that of a work, with `work_timer_cb` for its callback. -/
def WorkTimer (s : WorkSys w) (t : TimerId) : Prop :=
  ∃ v, (s.works v).dly ≠ 0 ∧ (s.works v).timer = t

end WorkSys

/-! ## The functions -/

/-- `krhino_work_init`, with the timer at `timer` if it needs one; `arg` is the
    address of the work. -/
def krhinoWorkInit (num : ℕ) (intrpt : Bool) (tm : Timers w) (queue : List (KTimerQueueCb w))
    (cb : KTimerQueueCb w) (timer : TimerId) (arg : ℕ) (dly : BitVec w) :
    KStat × Timers w × List (KTimerQueueCb w) × Work w :=
  if dly > 0 then
    let (stat, tm, queue) := timerCreate num intrpt tm queue cb timer dly 0 arg false .dynAlloc
    (stat, tm, queue, ⟨none, false, dly, timer⟩)
  else (.success, tm, queue, ⟨none, false, dly, 0⟩)

/-- `work_timer_cb`, up to its give. -/
def workTimerCb (s : WorkSys w) (q : WqId) (v : WorkId) : WorkSys w :=
  if (s.queues q).workCurrent = some v then { s with cb := .done v }
  else if (s.works v).workExit = true then { s with cb := .done v }
  else { s.insert q v with cb := .give v q }

/-- `krhino_work_run`, up to its give if it makes one. -/
def krhinoWorkRun (num : ℕ) (s : WorkSys w) (cb : KTimerQueueCb w) (q : WqId) (v : WorkId) :
    Option KStat × WorkSys w :=
  if (s.works v).dly = 0 then
    if (s.queues q).workCurrent = some v then (some .workqueueWorkRunning, s)
    else if (s.works v).workExit = true then (some .workqueueWorkExist, s)
    else (none, { s.insert q v with gives := (q, v) :: s.gives })
  else
    let timer := (s.works v).timer
    let (stat, queue) := krhinoTimerArgChangeAuto num s.tm.queue cb timer q
    (some stat,
      { s with priv := Function.update s.priv timer v, tm := { s.tm with queue := queue } })

def gWorkqueueDefault : WqId := 0

def krhinoWorkSched (num : ℕ) (s : WorkSys w) (cb : KTimerQueueCb w) (v : WorkId) :
    Option KStat × WorkSys w :=
  krhinoWorkRun num s cb gWorkqueueDefault v

/-- `krhino_work_cancel`, once it has read `wq`.  The status of the stop is not
    looked at. -/
def krhinoWorkCancel (num : ℕ) (s : WorkSys w) (cb : KTimerQueueCb w) (v : WorkId) :
    Option WqId → KStat × WorkSys w
  | none =>
    if (s.works v).dly > 0 then
      let queue := (krhinoTimerStop num s.tm.queue cb (s.works v).timer).2
      (.success, { s with tm := { s.tm with queue := queue } })
    else (.success, s)
  | some q =>
    if (s.queues q).workCurrent = some v then (.workqueueWorkRunning, s)
    else if (s.works v).workExit = true then (.workqueueWorkExist, s)
    else (.success, (s.unlink v).updWork v fun x => { x with wq := none })

/-! ## The steps -/

/-- The timer that a step of another task is about. -/
def TimerAct.client : TimerAct w → Option TimerId
  | .create t => some t
  | .send cb => some cb.timer
  | _ => none

/-- The step is a command for a timer that is on `g_timer_head`. -/
def TimerAct.onHead (s : TimerSys w) : TimerAct w → Bool
  | .cmd _ cb => cb.timer ∈ s.timerHead
  | _ => false

/-- The steps.  A call of `krhino_work_run` or `krhino_workqueue_del` has a
    status where it returns; `on` tells of a command whether its timer is on
    `g_timer_head`. -/
inductive WorkAct (w : ℕ) where
  | client (a : TimerAct w)
  | timer (a : TimerAct w) (on : Bool)
  | expire (v : WorkId)
  | enter (q : WqId) (v : WorkId)
  | cbGive (q : WqId) (stat : KStat)
  | run (q : WqId) (v : WorkId) (stat : Option KStat)
  | give (q : WqId) (v : WorkId) (stat : KStat)
  | read (v : WorkId)
  | cancel (v : WorkId) (wq : Option WqId) (stat : KStat)
  | take (q : WqId)
  | dequeue (q : WqId) (v : WorkId)
  | handle (q : WqId) (v : WorkId)
  | finish (q : WqId)
  | del (q : WqId) (stat : Option KStat)
  deriving DecidableEq

/-- The steps of the timers, of the calls and of the workers; the queue of
    `timer_task` has room for `num` commands.  A worker that has a unit finds a
    work: `worker_task` does not test the list. -/
inductive WorkStep (num : ℕ) (idle : BitVec w) : WorkSys w → WorkAct w → WorkSys w → Prop
  /-- Other tasks use other timers. -/
  | client {s a t tm} (ha : a.client = some t) (ht : ¬ s.WorkTimer t)
    (h : TimerStep num idle s.tm a tm) : WorkStep num idle s (.client a) { s with tm := tm }
  | timer {s a tm} (hcb : s.cb = .idle) (ha : a.client = none)
    (ht : ∀ t, a = .fire t → ¬ s.WorkTimer t) (h : TimerStep num idle s.tm a tm) :
    WorkStep num idle s (.timer a (a.onHead s.tm)) { s with tm := tm }
  | expire {s t} (hcb : s.cb = .idle) (ht : s.WorkTimer t) (hp : s.tm.pc = .walk (some t))
    (hd : s.tm.due t s.tm.timerCount = true) : WorkStep num idle s (.expire (s.priv t))
      { s with cb := .enter (s.priv t) (s.tm.timers t).timerCbArg }
  | enter {s q v} (hcb : s.cb = .enter v q) :
    WorkStep num idle s (.enter q v) (workTimerCb s q v)
  | cbGive {s q v} (hcb : s.cb = .give v q) :
    WorkStep num idle s (.cbGive q (s.queues q).semGive.1)
      { s.updQueue q fun x => x.semGive.2 with cb := .done v }
  | fired {s v t tm} (hcb : s.cb = .done v) (h : TimerStep num idle s.tm (.fire t) tm) :
    WorkStep num idle s (.timer (.fire t) false) { s with tm := tm, cb := .idle }
  | run {s cb q v r} (h : krhinoWorkRun num s cb q v = r) :
    WorkStep num idle s (.run q v r.1) r.2
  | give {s q v l₁ l₂} (hg : s.gives = l₁ ++ (q, v) :: l₂) :
    WorkStep num idle s (.give q v (s.queues q).semGive.1)
      { s.updQueue q fun x => x.semGive.2 with gives := l₁ ++ l₂ }
  | read {s v} : WorkStep num idle s (.read v)
      { s with cancels := (v, (s.works v).wq) :: s.cancels }
  | cancel {s cb v wq l₁ l₂ r} (hc : s.cancels = l₁ ++ (v, wq) :: l₂)
    (h : krhinoWorkCancel num s cb v wq = r) :
    WorkStep num idle s (.cancel v wq r.1) { r.2 with cancels := l₁ ++ l₂ }
  | take {s q} (hw : (s.queues q).worker = .take) (ht : (s.queues q).semType = .sem) :
    WorkStep num idle s (.take q) (s.updQueue q WorkQueue.semTake)
  | dequeue {s q v l} (hw : (s.queues q).worker = .got) (hl : (s.queues q).workList = v :: l) :
    WorkStep num idle s (.dequeue q v) { s.dequeue q v with calls := (q, v) :: s.calls }
  | handle {s q v l₁ l₂} (hc : s.calls = l₁ ++ (q, v) :: l₂) :
    WorkStep num idle s (.handle q v) { s with calls := l₁ ++ l₂ }
  | finish {s q} (hw : (s.queues q).worker = .busy) (hc : ∀ v, (q, v) ∉ s.calls) :
    WorkStep num idle s (.finish q)
      (s.updQueue q fun x => { x with workCurrent := none, worker := .take })
  | delNone {s q} (hq : (s.queues q).onList = false) :
    WorkStep num idle s (.del q (some .workqueueNotExist)) s
  | delFound {s q} (hq : (s.queues q).onList = true) :
    WorkStep num idle s (.del q none) { s with dels := (q, .found) :: s.dels }
  | delBusy {s q l₁ l₂} (hd : s.dels = l₁ ++ (q, .found) :: l₂)
    (hq : (s.queues q).workList ≠ [] ∨ (s.queues q).workCurrent ≠ none) :
    WorkStep num idle s (.del q (some .workqueueBusy)) { s with dels := l₁ ++ l₂ }
  | delCheck {s q l₁ l₂} (hd : s.dels = l₁ ++ (q, .found) :: l₂)
    (hl : (s.queues q).workList = []) (hc : (s.queues q).workCurrent = none) :
    WorkStep num idle s (.del q none) { s with dels := l₁ ++ (q, .checked) :: l₂ }
  /-- `krhino_task_del` deletes the worker, wherever it is. -/
  | delTask {s q l₁ l₂} (hd : s.dels = l₁ ++ (q, .checked) :: l₂)
    (hw : (s.queues q).worker ≠ .gone) :
    WorkStep num idle s (.del q none)
      { s.updQueue q fun x => { x with worker := .gone } with
        calls := s.calls.filter (·.1 ≠ q), dels := l₁ ++ (q, .noWorker) :: l₂ }
  | delTaskErr {s q stat l₁ l₂} (hd : s.dels = l₁ ++ (q, .checked) :: l₂) (hs : stat ≠ .success) :
    WorkStep num idle s (.del q (some stat)) { s with dels := l₁ ++ l₂ }
  | delSem {s q l₁ l₂} (hd : s.dels = l₁ ++ (q, .noWorker) :: l₂)
    (ht : (s.queues q).semType = .sem) :
    WorkStep num idle s (.del q none)
      { s.updQueue q fun x => { x with semType := .none } with dels := l₁ ++ (q, .noSem) :: l₂ }
  | delSemErr {s q l₁ l₂} (hd : s.dels = l₁ ++ (q, .noWorker) :: l₂)
    (ht : (s.queues q).semType ≠ .sem) :
    WorkStep num idle s (.del q (some .kobjTypeErr)) { s with dels := l₁ ++ l₂ }
  | delEnd {s q l₁ l₂} (hd : s.dels = l₁ ++ (q, .noSem) :: l₂) :
    WorkStep num idle s (.del q (some .success))
      { s.updQueue q fun x => { x with onList := false } with dels := l₁ ++ l₂ }

end Rhino
