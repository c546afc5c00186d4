/-
  The event loop (`kernel/yloop/yloop.c`).

  A round of `aos_loop_run` is cut where the loop reads the clock, polls, or calls back;
  in a callback, and outside of the loop, the calls of the API may come in any order.
  What happened is recorded beside the context (`Sys`), in fields that no step looks at.
-/
import AliOS.Lib.Trans
import Mathlib.Data.Int.Notation

namespace Yloop

/-- A C `int`. -/
abbrev CInt := {n : ℤ // -2147483648 ≤ n ∧ n ≤ 2147483647}

/-- A `long long` assigned to an `int`. -/
def toInt (n : ℤ) : ℤ := n.bmod 4294967296

/-- `yloop_sock_t`; `reg` numbers the registrations. -/
structure Reader where
  reg : ℕ
  sock : ℤ
  privateData : ℕ
  cb : ℕ
  deriving DecidableEq

/-- `struct pollfd`; `revents` says whether it has `POLLIN`. -/
structure PollFd where
  fd : ℤ
  revents : Bool
  deriving DecidableEq

/-- `yloop_timeout_t`; `seq` numbers the posts. -/
structure Timeout where
  seq : ℕ
  timeoutMs : ℤ
  privateData : ℕ
  cb : ℕ
  ms : ℤ
  deriving DecidableEq

/-- `yloop_ctx_t`: the arrays as they are allocated, the counter a `uint8_t`. -/
structure Ctx where
  timeouts : List Timeout
  pollfds : List PollFd
  readers : List Reader
  readerCount : ℕ
  terminate : Bool

/-- The readers that are registered. -/
def Ctx.active (c : Ctx) : List Reader := c.readers.take c.readerCount

/-! ## The calls of the API -/

/-- `aos_poll_read_fd`, for registration `reg`; `junk` is what `malloc` leaves in the new
    `pollfd`. -/
def Ctx.pollReadFd (c : Ctx) (reg : ℕ) (sock : ℤ) (cb privateData : ℕ) (malloc : Bool) (junk : PollFd) : Ctx :=
  if sock < 0 then c
  else if !malloc then c
  else
    { c with
      readers := c.readers.take c.readerCount ++ [⟨reg, sock, privateData, cb⟩]
      pollfds := c.pollfds.take c.readerCount ++ [junk]
      readerCount := (c.readerCount + 1) % 256 }

/-- The reader that `aos_cancel_poll_read_fd` finds. -/
def Ctx.readerOf (c : Ctx) (sock : ℤ) : Option ℕ := c.active.findIdx? fun r => decide (r.sock = sock)

/-- `aos_cancel_poll_read_fd`: the readers behind the one found move down; the last slot
    keeps what it has. -/
def Ctx.cancelPollReadFd (c : Ctx) (sock : ℤ) : Ctx :=
  match c.readerOf sock with
  | none => c
  | some i =>
    { c with
      readers := c.readers.take i ++ (c.readers.take c.readerCount).drop (i + 1) ++ c.readers.drop (c.readerCount - 1)
      readerCount := c.readerCount - 1 }

/-- The insertion of `aos_post_delayed_action`: before the first that is due later. -/
def insertTimeout (t : Timeout) : List Timeout → List Timeout
  | [] => [t]
  | x :: xs => if t.timeoutMs < x.timeoutMs then t :: x :: xs else x :: insertTimeout t xs

/-- `aos_post_delayed_action`: the entry it makes, if it does. -/
def newTimeout (seq : ℕ) (ms : CInt) (action : Option ℕ) (param : ℕ) (malloc : Bool) (now : ℤ) : Option Timeout :=
  match action with
  | none => none
  | some cb => if malloc then some ⟨seq, now + ms, param, cb, ms⟩ else none

/-- What `aos_cancel_delayed_action` asks of an entry. -/
def Timeout.isFor (ms : CInt) (cb privateData : ℕ) (t : Timeout) : Bool :=
  (ms.1 = -1 || t.ms = ms) && t.cb = cb && t.privateData = privateData

/-! ## The loop -/

/-- Where the thread is: outside of the loop, at the condition of the loop, before the poll with
    `readers` and `delayed_ms`, in the callback of a delayed action, in the loop over the readers,
    or in the callback of a reader. -/
inductive Phase
  | outside
  | head
  | poll (readers : ℕ) (delayedMs : ℤ)
  | action (readers : ℕ) (res : ℤ)
  | dispatch (readers i : ℕ)
  | call (readers i : ℕ)
  deriving DecidableEq

/-- The application runs. -/
def Phase.app : Phase → Bool
  | .outside | .action _ _ | .call _ _ => true
  | _ => false

/-- What happened to the delayed actions. -/
inductive Event
  | posted (t : Timeout)
  | cancelled (ms : CInt) (cb privateData : ℕ) (t : Option Timeout)
  | polling (delayedMs now : ℤ)
  | fired (now : ℤ) (t : Option Timeout)

/-- A callback of a reader: its registration, and the registrations in place and those whose
    descriptor was reported when it was called. -/
structure CallRecord where
  reg : ℕ
  inPlace : List ℕ
  readable : List ℕ
  deriving DecidableEq

/-- A round that came to its end: the registrations that were reported, those called, and those in
    place at the end. -/
structure RoundRecord where
  readable : List ℕ
  called : List ℕ
  inPlace : List ℕ
  deriving DecidableEq

/-- The context and the thread; the fields from `clock` on are records. -/
structure Sys where
  ctx : Ctx
  phase : Phase
  fault : Bool
  clock : ℤ
  regs : ℕ
  posts : ℕ
  log : List Event
  polled : List ℕ
  readable : List ℕ
  called : List ℕ
  calls : List CallRecord
  rounds : List RoundRecord

/-- `aos_loop_init` -/
def Sys.init : Sys :=
  { ctx := ⟨[], [], [], 0, false⟩, phase := .outside, fault := false, clock := 0, regs := 0, posts := 0, log := []
    polled := [], readable := [], called := [], calls := [], rounds := [] }

/-- A step: a call of the API, or of the loop, with what the clock, the memory and `aos_poll` answer. -/
inductive Act
  | pollReadFd (sock : ℤ) (cb privateData : ℕ) (malloc : Bool) (junk : PollFd)
  | cancelPollReadFd (sock : ℤ)
  | postDelayedAction (ms : CInt) (action : Option ℕ) (param : ℕ) (malloc : Bool) (now : ℤ)
  | cancelDelayedAction (ms : CInt) (cb privateData : ℕ)
  | exit
  | run
  | head (now : ℤ)
  | poll (res : ℤ) (eintr : Bool) (ready : ℕ → Bool) (now : ℤ)
  | actionDone
  | look
  | callDone

def delayedMs (now : ℤ) : List Timeout → ℤ
  | [] => -1
  | t :: _ => if now < t.timeoutMs then toInt (t.timeoutMs - now) else 0

/-- The loop that fills `pollfds`. -/
def fillPollfds (c : Ctx) : List PollFd :=
  c.pollfds.mapIdx fun i p =>
    match c.active[i]? with
    | some r => { p with fd := r.sock }
    | none => p

/-- What `aos_poll` writes. -/
def pollRevents (n : ℕ) (ready : ℕ → Bool) (pollfds : List PollFd) : List PollFd :=
  pollfds.mapIdx fun i p => if i < n then { p with revents := ready i } else p

/-- Behind the delayed actions: the readers, if some are readable. -/
def afterAction (readers : ℕ) (res : ℤ) : Phase := if res ≤ 0 then .head else .dispatch readers 0

/-- The condition of the loop. -/
def Ctx.goesOn (c : Ctx) : Bool := !c.terminate && (!c.timeouts.isEmpty || 0 < c.readerCount)

/-- The registrations in place. -/
def Sys.inPlace (s : Sys) : List ℕ := s.ctx.active.map (·.reg)

def Sys.setCtx (s : Sys) (c : Ctx) : Sys := { s with ctx := c }

/-- The head of the loop, down to the poll. -/
def Sys.head (s : Sys) (now : ℤ) : Sys :=
  if s.ctx.goesOn then
    { s with
      ctx := { s.ctx with pollfds := fillPollfds s.ctx }
      phase := .poll s.ctx.readerCount (delayedMs now s.ctx.timeouts)
      clock := now
      log := s.log ++ [.polling (delayedMs now s.ctx.timeouts) now] }
  else { s with ctx := { s.ctx with terminate := false }, phase := .outside, clock := now }

/-- The poll, and the delayed action that is due. -/
def Sys.poll (s : Sys) (n : ℕ) (res : ℤ) (eintr : Bool) (ready : ℕ → Bool) (now : ℤ) : Sys :=
  if res < 0 ∧ eintr = false then { s with phase := .outside, clock := now }
  else
    let due := s.ctx.timeouts.head?.filter fun t => decide (t.timeoutMs ≤ now)
    { s with
      ctx :=
        { s.ctx with
          pollfds := pollRevents n ready s.ctx.pollfds
          timeouts := if due.isSome then s.ctx.timeouts.tail else s.ctx.timeouts }
      phase := if due.isSome then .action n res else afterAction n res
      clock := now
      log := s.log ++ [.fired now due]
      polled := s.inPlace
      readable := if res ≤ 0 then [] else ((s.inPlace.take n).zipIdx.filter fun p => ready p.2).map Prod.fst
      called := [] }

/-- The loop over the readers, at `i`. -/
def Sys.look (s : Sys) (n i : ℕ) : Sys :=
  if i < n then
    match s.ctx.pollfds[i]? with
    | none => { s with fault := true, phase := .head }
    | some p =>
      if p.revents then
        match s.ctx.readers[i]? with
        | none => { s with fault := true, phase := .head }
        | some r =>
          { s with
            phase := .call n i
            called := s.called ++ [r.reg]
            calls := s.calls ++ [⟨r.reg, s.inPlace, s.readable⟩] }
      else { s with phase := .dispatch n (i + 1) }
  else { s with phase := .head, rounds := s.rounds ++ [⟨s.readable, s.called, s.inPlace⟩] }

/-- The state behind a step. -/
def Sys.next (s : Sys) : Act → Sys
  | .pollReadFd sock cb privateData malloc junk =>
    { s.setCtx (s.ctx.pollReadFd s.regs sock cb privateData malloc junk) with regs := s.regs + 1 }
  | .cancelPollReadFd sock => s.setCtx (s.ctx.cancelPollReadFd sock)
  | .postDelayedAction ms action param malloc now =>
    match newTimeout s.posts ms action param malloc now with
    | none => { s with clock := now }
    | some t =>
      { s with
        ctx := { s.ctx with timeouts := insertTimeout t s.ctx.timeouts }
        clock := now
        posts := s.posts + 1
        log := s.log ++ [.posted t] }
  | .cancelDelayedAction ms cb privateData =>
    { s with
      ctx := { s.ctx with timeouts := s.ctx.timeouts.eraseP (Timeout.isFor ms cb privateData) }
      log := s.log ++ [.cancelled ms cb privateData (s.ctx.timeouts.find? (Timeout.isFor ms cb privateData))] }
  | .exit => s.setCtx { s.ctx with terminate := true }
  | .run => { s with phase := .head }
  | .head now => s.head now
  | .poll res eintr ready now =>
    match s.phase with
    | .poll n _ => s.poll n res eintr ready now
    | _ => s
  | .actionDone =>
    match s.phase with
    | .action n res => { s with phase := afterAction n res }
    | _ => s
  | .look =>
    match s.phase with
    | .dispatch n i => s.look n i
    | _ => s
  | .callDone =>
    match s.phase with
    | .call n i => { s with phase := .dispatch n (i + 1) }
    | _ => s

/-- The thread can take the step: the application runs, or the loop is there. -/
def Allowed (s : Sys) : Act → Prop
  | .pollReadFd .. | .cancelPollReadFd _ | .cancelDelayedAction .. | .exit => s.phase.app = true
  | .postDelayedAction _ _ _ _ now => s.phase.app = true ∧ s.clock ≤ now
  | .run => s.phase = .outside
  | .head now => s.phase = .head ∧ s.clock ≤ now
  | .poll _ _ _ now => (∃ n d, s.phase = .poll n d) ∧ s.clock ≤ now
  | .actionDone => ∃ n res, s.phase = .action n res
  | .look => ∃ n i, s.phase = .dispatch n i
  | .callDone => ∃ n i, s.phase = .call n i

def Step (s : Sys) (a : Act) (s' : Sys) : Prop := Allowed s a ∧ s.next a = s'

end Yloop
