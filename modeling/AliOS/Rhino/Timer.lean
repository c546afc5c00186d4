/-
  Rhino kernel: software timers (`k_timer.c`).

  Other tasks create timers and send commands to `g_timer_queue`; the timers
  that are alive belong to `timer_task`, which receives the commands and walks
  `g_timer_head`.  It reads the system tick at each turn: how many ticks it
  finds more than at its last reading is its scheduling delay.
-/
import AliOS.Rhino.Pend
import AliOS.Lib.Trans

namespace Rhino

variable {w : ℕ}

/-- The address of a `ktimer_t`. -/
abbrev TimerId := ℕ

/-- `k_timer_state_t`. -/
inductive TimerStat where
  | deactive | active
  deriving DecidableEq, Repr

/-- `ktimer_t`, but for its name and its callback.  `toHead` tells whether
    `to_head` is non-NULL. -/
structure KTimer (w : ℕ) where
  toHead : Bool
  timerCbArg : ℕ
  timerMatch : BitVec w
  remain : BitVec w
  initCount : BitVec w
  roundTicks : BitVec w
  objType : KobjType
  timerState : TimerStat
  mmAllocFlag : AllocFlag

/-- The commands. -/
inductive TimerCmd where
  | start | stop | chg | argChg | argChgAuto | del | dynDel
  deriving DecidableEq, Repr

/-- `k_timer_queue_cb`; `round` and `arg` are the two readings of the union. -/
structure KTimerQueueCb (w : ℕ) where
  timer : TimerId
  first : BitVec w
  round : BitVec w
  arg : ℕ
  cbNum : TimerCmd
  deriving DecidableEq

/-- The timers, `g_timer_head` and `g_timer_count`. -/
@[ext]
structure Timers (w : ℕ) where
  timers : TimerId → KTimer w
  timerHead : List TimerId
  timerCount : BitVec w

def maxTimerTicks (w : ℕ) : BitVec w := BitVec.allOnes w >>> 1

namespace Timers

def updTimer (s : Timers w) (t : TimerId) (f : KTimer w → KTimer w) : Timers w :=
  { s with timers := fun u => if u = t then f (s.timers u) else s.timers u }

@[simp] theorem updTimer_self (s : Timers w) (t : TimerId) (f : KTimer w → KTimer w) :
    (s.updTimer t f).timers t = f (s.timers t) := if_pos rfl

theorem updTimer_ne (s : Timers w) {t u : TimerId} (f : KTimer w → KTimer w) (h : u ≠ t) :
    (s.updTimer t f).timers u = s.timers u := if_neg h

@[simp] theorem updTimer_timerHead (s : Timers w) (t : TimerId) (f : KTimer w → KTimer w) :
    (s.updTimer t f).timerHead = s.timerHead := rfl

/-- `timer_list_pri_insert`, with the linkage of `to_head` left to its callers. -/
def timerListPriInsert (s : Timers w) (t : TimerId) : Timers w :=
  let after (q : TimerId) : Bool := (s.timers q).timerMatch - s.timerCount > (s.timers t).remain
  { s with timerHead := insertBefore after t s.timerHead }

def timerListRm (s : Timers w) (t : TimerId) : Timers w :=
  if (s.timers t).toHead = true then
    { s.updTimer t fun x => { x with toHead := false } with timerHead := s.timerHead.erase t }
  else s

end Timers

/-! ## What other tasks do -/

/-- `krhino_buf_queue_send` of a command to `g_timer_queue`, which has room for
    `num` of them. -/
def timerSend (num : ℕ) (queue : List (KTimerQueueCb w)) (cb : KTimerQueueCb w) :
    KStat × List (KTimerQueueCb w) :=
  if queue.length < num then (.success, queue ++ [cb]) else (.bufQueueFull, queue)

section
variable (num : ℕ) (queue : List (KTimerQueueCb w)) (cb : KTimerQueueCb w) (timer : TimerId)

/-! The local `cb` is what is on the stack, but for the fields set here. -/

def krhinoTimerDel := timerSend num queue { cb with timer := timer, cbNum := .del }

def krhinoTimerDynDel := timerSend num queue { cb with timer := timer, cbNum := .dynDel }

def krhinoTimerStart := timerSend num queue { cb with timer := timer, cbNum := .start }

def krhinoTimerStop := timerSend num queue { cb with timer := timer, cbNum := .stop }

def krhinoTimerChange (first round : BitVec w) : KStat × List (KTimerQueueCb w) :=
  if first ≥ BitVec.allOnes w then (.invParam, queue)
  else if round ≥ BitVec.allOnes w then (.invParam, queue)
  else timerSend num queue
    { cb with timer := timer, first := first, round := round, cbNum := .chg }

def krhinoTimerArgChange (arg : ℕ) :=
  timerSend num queue { cb with timer := timer, arg := arg, cbNum := .argChg }

def krhinoTimerArgChangeAuto (arg : ℕ) :=
  timerSend num queue { cb with timer := timer, arg := arg, cbNum := .argChgAuto }

end

/-- `timer_create`; `intrpt` tells whether an interrupt calls it.  The status of
    the start is not looked at. -/
def timerCreate (num : ℕ) (intrpt : Bool) (s : Timers w) (queue : List (KTimerQueueCb w))
    (cb : KTimerQueueCb w) (timer : TimerId) (first round : BitVec w) (arg : ℕ) (autoRun : Bool)
    (flag : AllocFlag) : KStat × Timers w × List (KTimerQueueCb w) :=
  if first = 0 then (.invParam, s, queue)
  else if first ≥ maxTimerTicks w then (.invParam, s, queue)
  else if round ≥ maxTimerTicks w then (.invParam, s, queue)
  else if intrpt then (.notCalledByIntrpt, s, queue)
  else
    let x : KTimer w := {
      toHead := false
      timerCbArg := arg
      timerMatch := 0
      remain := 0
      initCount := first
      roundTicks := round
      objType := .timer
      timerState := .deactive
      mmAllocFlag := flag }
    (.success, s.updTimer timer fun _ => x,
      if autoRun then (krhinoTimerStart num queue cb timer).2 else queue)

/-! ## What `timer_task` does -/

namespace Timers

/-- `cmd_proc`.  `timer_cmd_proc` passes no `TIMER_ARG_CHG_AUTO`. -/
def cmdProc (s : Timers w) (cb : KTimerQueueCb w) (cmd : TimerCmd) : Timers w :=
  let timer := cb.timer
  let x := s.timers timer
  match cmd with
  | .start =>
    if x.objType ≠ .timer then s
    else if x.timerState = .active then s
    else
      let s := s.updTimer timer fun x => { x with
        timerMatch := s.timerCount + x.initCount, remain := x.initCount, toHead := true }
      let s := s.timerListPriInsert timer
      s.updTimer timer fun x => { x with timerState := .active }
  | .stop =>
    if x.objType ≠ .timer then s
    else if x.timerState = .deactive then s
    else (s.timerListRm timer).updTimer timer fun x => { x with timerState := .deactive }
  | .chg =>
    if cb.first = 0 then s
    else if x.objType ≠ .timer then s
    else if x.timerState ≠ .deactive then s
    else s.updTimer timer fun x => { x with initCount := cb.first, roundTicks := cb.round }
  | .argChg =>
    if x.objType ≠ .timer then s
    else if x.timerState ≠ .deactive then s
    else s.updTimer timer fun x => { x with timerCbArg := cb.arg }
  | .del =>
    if x.objType ≠ .timer then s
    else if x.timerState ≠ .deactive then s
    else if x.mmAllocFlag ≠ .staticAlloc then s
    else s.updTimer timer fun x => { x with objType := .none }
  | .dynDel =>
    if x.objType ≠ .timer then s
    else if x.timerState ≠ .deactive then s
    else if x.mmAllocFlag ≠ .dynAlloc then s
    else s.updTimer timer fun x => { x with objType := .none }
  | .argChgAuto => s

def timerCmdProc (s : Timers w) (cb : KTimerQueueCb w) : Timers w :=
  if cb.cbNum = .argChgAuto then
    ((s.cmdProc cb .stop).cmdProc cb .argChg).cmdProc cb .start
  else s.cmdProc cb cb.cbNum

/-- The test of `timer_cb_proc` at the tick `c`. -/
def due (s : Timers w) (t : TimerId) (c : BitVec w) : Bool :=
  ((s.timers t).timerMatch - c).toInt ≤ 0

/-- `q->next`; a node that is unlinked keeps its `next`. -/
def next (l : List TimerId) (t : TimerId) : Option TimerId := (l.dropWhile (· ≠ t)).tail.head?

/-- The body of the walk of `timer_cb_proc` for a timer that is due, after its
    callback, and where the walk goes on. -/
def timerCbProc (s : Timers w) (t : TimerId) : Timers w × Option TimerId :=
  let q := next s.timerHead t
  let s := s.timerListRm t
  if (s.timers t).roundTicks > 0 then
    let s := s.updTimer t fun x => { x with
      remain := x.roundTicks, timerMatch := s.timerCount + x.roundTicks, toHead := true }
    let s := s.timerListPriInsert t
    (s, next s.timerHead t)
  else (s.updTimer t fun x => { x with timerState := .deactive }, q)

end Timers

/-- Where `timer_task` is: at a `krhino_buf_queue_recv` or blocked in it, in the
    outer or the inner loop, at the head of the inner loop, or in the walk. -/
inductive TimerPc (w : ℕ) where
  | recv (inner : Bool) (ticks : BitVec w)
  | blocked (inner : Bool) (ticks : BitVec w)
  | loop
  | walk (q : Option TimerId)
  deriving DecidableEq

/-- The timers, the system tick at the last reading of `timer_task`, the
    commands, and where `timer_task` is. -/
structure TimerSys (w : ℕ) extends Timers w where
  sysTick : BitVec w
  queue : List (KTimerQueueCb w)
  pc : TimerPc w

/-- The steps; `d` counts the ticks since the last reading. -/
inductive TimerAct (w : ℕ) where
  | create (t : TimerId)
  | send (cb : KTimerQueueCb w)
  | block (d : ℕ)
  | cmd (d : ℕ) (cb : KTimerQueueCb w)
  | timeout (d : ℕ)
  | peek (d : ℕ)
  | fire (t : TimerId)
  | walk
  deriving DecidableEq

namespace TimerSys

/-- The system tick is read after `d` ticks. -/
def read (s : TimerSys w) (d : ℕ) : TimerSys w := { s with sysTick := s.sysTick + BitVec.ofNat w d }

/-- It is read into `g_timer_count`. -/
def readCount (s : TimerSys w) (d : ℕ) : TimerSys w :=
  { s with sysTick := (s.read d).sysTick, timerCount := (s.read d).sysTick }

/-- What `timer_task` does when a receive has returned: the walk in the inner
    loop, the test of the inner loop in the outer one. -/
def received (s : TimerSys w) (inner : Bool) : TimerSys w :=
  { s with pc := if inner then .walk s.timerHead.head? else .loop }

/-- The commands that are accepted, as they stand in the queue. -/
def accepts (cb : KTimerQueueCb w) : Prop :=
  cb.cbNum = .chg → cb.first < BitVec.allOnes w ∧ cb.round < BitVec.allOnes w

end TimerSys

/-- The steps of the timers, with a queue of `num` commands and the time-out
    `idle` of the outer loop. -/
inductive TimerStep (num : ℕ) (idle : BitVec w) : TimerSys w → TimerAct w → TimerSys w → Prop
  /-- A timer is created in memory where none is alive. -/
  | create {s t intrpt cb first round arg autoRun flag r}
    (ht : (s.timers t).objType ≠ .timer)
    (h : timerCreate num intrpt s.toTimers s.queue cb t first round arg autoRun flag = r) :
    TimerStep num idle s (.create t) { s with toTimers := r.2.1, queue := r.2.2 }
  | send {s cb} (hc : TimerSys.accepts cb) :
    TimerStep num idle s (.send cb) { s with queue := (timerSend num s.queue cb).2 }
  | block {s inner ticks d} (hp : s.pc = .recv inner ticks) (hq : s.queue = []) :
    TimerStep num idle s (.block d) { s.read d with pc := .blocked inner ticks }
  | cmd {s inner ticks d cb q} (hp : s.pc = .recv inner ticks ∨ s.pc = .blocked inner ticks)
    (hq : s.queue = cb :: q) :
    TimerStep num idle s (.cmd d cb) (TimerSys.received
      { s.readCount d with toTimers := (s.readCount d).timerCmdProc cb, queue := q } inner)
  | timeoutOuter {s ticks d} (hp : s.pc = .blocked false ticks) (hd : ticks.toNat ≤ d) :
    TimerStep num idle s (.timeout d) { s.readCount d with pc := .recv false idle }
  | timeoutInner {s ticks d} (hp : s.pc = .blocked true ticks) (hd : ticks.toNat ≤ d) :
    TimerStep num idle s (.timeout d) ((s.readCount d).received true)
  | leave {s} (hp : s.pc = .loop) (hl : s.timerHead = []) :
    TimerStep num idle s (.peek 0) { s with pc := .recv false idle }
  | wait {s t l d} (hp : s.pc = .loop) (hl : s.timerHead = t :: l)
    (hd : s.due t (s.read d).sysTick = false) :
    TimerStep num idle s (.peek d)
      { s.read d with pc := .recv true ((s.timers t).timerMatch - (s.read d).sysTick) }
  | late {s t l d} (hp : s.pc = .loop) (hl : s.timerHead = t :: l)
    (hd : s.due t (s.read d).sysTick = true) :
    TimerStep num idle s (.peek d) ((s.readCount d).received true)
  | fire {s t r} (hp : s.pc = .walk (some t)) (hd : s.due t s.timerCount = true)
    (h : s.timerCbProc t = r) :
    TimerStep num idle s (.fire t) { s with toTimers := r.1, pc := .walk r.2 }
  | walkBreak {s t} (hp : s.pc = .walk (some t)) (hd : s.due t s.timerCount = false) :
    TimerStep num idle s .walk { s with pc := .loop }
  | walkEnd {s} (hp : s.pc = .walk none) : TimerStep num idle s .walk { s with pc := .loop }

/-- The system after `ktimer_init`, at the tick `c`; the memory of the timers is
    what it is. -/
def initTimers (timers : TimerId → KTimer w) (idle c : BitVec w) : TimerSys w where
  timers := timers
  timerHead := []
  timerCount := 0
  sysTick := c
  queue := []
  pc := .recv false idle

end Rhino
