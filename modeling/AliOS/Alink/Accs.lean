/-
  When Alink is ready (`protocol/alink/accs/accs.c`): `accs_handshake_async` on the loop, and the
  callbacks in the receiving thread.

  A thread goes from one call of `get_protocol_buff` to the next in one step.  It waits there while
  a request is on its way, as the buffer is given back by the callback.
-/
import AliOS.Alink.Handshake
import AliOS.Lib.Trans

namespace Alink

/-- `SERVICE_STATE_INIT`, `_PREPARE`, `_READY`, `_BUSY` and `_STOP` -/
inductive ServiceState
  | init
  | prepare
  | ready
  | busy
  | stop
  deriving DecidableEq

/-- What `send_async` does: it sends, or it calls the callback with `NULL` and returns 1, or it
    returns -1. -/
inductive Sent
  | sent
  | failed
  | refused
  deriving DecidableEq

/-- `accs_handshake_async`: not running, before the send that it judges by, before one in the
    callback of a failed send, and behind `alink_handshake_async`. -/
inductive LoopPc
  | idle
  | sends (q : Req)
  | resends (q : Req)
  | returned (ret : ℤ)
  deriving DecidableEq

/-- `link_buff_sem` is free; the receiving thread has a request to send; the request on its way;
    the last login request, with the code it was answered with; and that, each time the state
    became `SERVICE_STATE_READY`. -/
structure Sys where
  state : ServiceState
  conf : Conf
  handshakeCnt : ℕ
  buff : Bool
  loop : LoopPc
  receiver : Option Req
  pending : Option Req
  login : Option (Option ℤ)
  readies : List (Option (Option ℤ))

def Sys.start (conf : Conf) : Sys :=
  { state := .init, conf := conf, handshakeCnt := 9 + 4, buff := true, loop := .idle, receiver := none, pending := none
    login := none, readies := [] }

inductive Act
  | connect
  | close
  | work
  | send (r : Sent)
  | setState
  | respond (o : Outcome)
  | receiverSend (r : Sent)

/-- `get_protocol_buff` and the request, up to `send_async`. -/
def Sys.issue (s : Sys) (q : Req) : Sys := if q = .login then { s with login := some none } else s

/-- The callback of a request, up to the next request. -/
def Sys.callback (s : Sys) (q : Req) (o : Outcome) : Sys × Option Req :=
  let (conf, cnt, e) := cycle s.handshakeCnt (s.conf.respond q o) (callbackRet q o)
  ({ s with conf := conf, handshakeCnt := cnt }, match e with | .sends q => some q | _ => none)

/-- `alink_handshake_async`, up to its first request. -/
def Sys.handshakeAsync (s : Sys) : Sys :=
  let (conf, cnt, e) := cycle (9 + 4) (s.conf.goto .init) 0
  { s with
    conf := conf
    handshakeCnt := cnt
    loop := match e with
      | .sends q => .sends q
      | .ready => .returned SERVICE_RESULT_OK
      | .error => .returned SERVICE_RESULT_ERR
      | .limit => .returned 0 }

/-- `accs_handshake_async`, from a work of `start_accs_work`. -/
def Sys.work (s : Sys) : Sys :=
  let s := { s with conf := { s.conf with works := s.conf.works - 1 } }
  if s.state = .prepare then s.handshakeAsync else s

/-- `send_async` on the loop: its result is that of the first request. -/
def Sys.loopSend (s : Sys) (q : Req) (ret : ℤ) : Sent → Sys
  | .sent => { s.issue q with buff := false, pending := some q, loop := .returned ret }
  | .refused => { s.issue q with buff := false, loop := .returned (if ret = 0 then -1 else ret) }
  | .failed =>
    let (s, next) := (s.issue q).callback q .failed
    { s with loop := match next with | some q => .resends q | none => .returned 1 }

/-- `send_async` in the receiving thread. -/
def Sys.receiverSend (s : Sys) (q : Req) : Sent → Sys
  | .sent => { s.issue q with buff := false, pending := some q, receiver := none }
  | .refused => { s.issue q with buff := false, receiver := none }
  | .failed =>
    let (s, next) := (s.issue q).callback q .failed
    { s with receiver := next }

/-- The callback of the request on its way, with its answer or with `NULL`. -/
def Sys.respond (s : Sys) (q : Req) (o : Outcome) : Sys :=
  let login := match q, o with
    | .login, .answer code _ => some (some code)
    | _, _ => s.login
  let (s, next) := { s with buff := true, pending := none, login := login }.callback q o
  { s with receiver := next }

def Sys.setState (s : Sys) (ret : ℤ) : Sys :=
  if ret = SERVICE_RESULT_OK then { s with state := .ready, loop := .idle, readies := s.readies ++ [s.login] }
  else { s with state := .prepare, loop := .idle }

def Sys.step (s : Sys) : Act → Option Sys
  | .connect => some { s with state := .prepare, conf := s.conf.startAccsWork }
  | .close => some { s with state := .init }
  | .work => if s.loop = .idle ∧ 0 < s.conf.works then some s.work else none
  | .send r =>
    if s.buff then
      match s.loop with
      | .sends q => some (s.loopSend q 0 r)
      | .resends q => some (s.loopSend q 1 r)
      | _ => none
    else none
  | .setState =>
    match s.loop with
    | .returned ret => some (s.setState ret)
    | _ => none
  | .respond o =>
    match s.pending, s.receiver with
    | some q, none => if o = .refused then none else some (s.respond q o)
    | _, _ => none
  | .receiverSend r =>
    match s.receiver with
    | some q => if s.buff then some (s.receiverSend q r) else none
    | none => none

def Step (s : Sys) (a : Act) (s' : Sys) : Prop := s.step a = some s'

/-- **Ready**: each time the state became `SERVICE_STATE_READY` the last login request had been
    answered with `ALINK_CODE_SUCCESS`. -/
def ReadyAfterLogin (s : Sys) : Prop := ∀ login ∈ s.readies, login = some (some ALINK_CODE_SUCCESS)

/-- What the return of `alink_handshake_async` needs: where its first request was sent, a login has
    been answered with success before it comes back, and none was requested since. -/
def Meets (s : Sys) (a : Act) : Prop :=
  a = .setState → s.loop = .returned SERVICE_RESULT_OK → s.login = some (some ALINK_CODE_SUCCESS)

/-! ## Runs -/

variable {s s' : Sys} {a : Act} {q : Req} {o : Outcome}

theorem issue_readies : (s.issue q).readies = s.readies := by
  rw [Sys.issue]
  split_ifs <;> rfl

theorem loopSend_readies {ret : ℤ} {r : Sent} : (s.loopSend q ret r).readies = s.readies := by
  cases r <;> exact issue_readies

theorem receiverSend_readies {r : Sent} : (s.receiverSend q r).readies = s.readies := by
  cases r <;> exact issue_readies

theorem work_readies : s.work.readies = s.readies := by
  rw [Sys.work]
  split_ifs <;> rfl

theorem Step.readies (h : Step s a s') :
    s'.readies = s.readies ∨
      (a = .setState ∧ s.loop = .returned SERVICE_RESULT_OK ∧ s'.readies = s.readies ++ [s.login]) := by
  rw [Step] at h
  cases a with
  | connect =>
    cases h
    exact .inl rfl
  | close =>
    cases h
    exact .inl rfl
  | work =>
    rw [Sys.step] at h
    split_ifs at h
    cases h
    exact .inl work_readies
  | send r =>
    rw [Sys.step] at h
    split_ifs at h
    split at h
    · cases h
      exact .inl loopSend_readies
    · cases h
      exact .inl loopSend_readies
    · exact nomatch h
  | setState =>
    rw [Sys.step] at h
    split at h
    · rename_i ret hret
      cases h
      rw [Sys.setState]
      split_ifs with hz
      · exact .inr ⟨rfl, hz ▸ hret, rfl⟩
      · exact .inl rfl
    · exact nomatch h
  | respond o =>
    rw [Sys.step] at h
    split at h
    · split_ifs at h
      cases h
      exact .inl rfl
    · exact nomatch h
  | receiverSend r =>
    rw [Sys.step] at h
    split at h
    · split_ifs at h
      cases h
      exact .inl receiverSend_readies
    · exact nomatch h

theorem ReadyAfterLogin.step (hs : ReadyAfterLogin s) (hm : Meets s a) (h : Step s a s') : ReadyAfterLogin s' := by
  rcases h.readies with hr | ⟨ha, hl, hr⟩
  · rw [ReadyAfterLogin, hr]
    exact hs
  · intro login hmem
    rw [hr] at hmem
    rcases List.mem_append.1 hmem with hmem | hmem
    · exact hs login hmem
    · rw [List.mem_singleton.1 hmem]
      exact hm ha hl

theorem ReadyAfterLogin.back (h : Step s a s') (hs' : ReadyAfterLogin s') : ReadyAfterLogin s := by
  rcases h.readies with hr | ⟨-, -, hr⟩
  · rw [ReadyAfterLogin, hr] at hs'
    exact hs'
  · intro login hmem
    exact hs' login (by rw [hr]; exact List.mem_append_left _ hmem)

theorem Meets.of_ready (h : Step s a s') (hs' : ReadyAfterLogin s') : Meets s a := by
  rintro rfl hl
  have hr : s'.readies = s.readies ++ [s.login] := by
    rw [Step, Sys.step, hl] at h
    cases h
    rfl
  exact hs' s.login (by rw [hr]; exact List.mem_append_right _ (List.mem_singleton_self _))

def registered : Conf := ⟨.init, [0x41], false, 0⟩

end Alink
