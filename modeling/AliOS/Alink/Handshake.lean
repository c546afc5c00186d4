/-
  The handshake of Alink (`protocol/alink/accs/alink_protocol.c`): the loop `alink_handshake`, and
  the cycle `_alink_handshake_cycle` that the callbacks of the asynchronous requests drive.

  A request and its response are one step of the loop.  The cycle sends a request and is called
  again by the callback, so that both can be compared on one sequence of outcomes.
-/
import Mathlib.Data.Nat.Notation
import Mathlib.Data.Int.Notation
import Mathlib.Tactic.SplitIfs

namespace Alink

abbrev Str := List UInt8

inductive Phase
  | init
  | register
  | login
  | loginSuccess
  | unregister
  | wait
  | ready
  | abort
  deriving DecidableEq

inductive Req
  | register
  | login
  | unregister
  deriving DecidableEq

/-- What becomes of a request.  It is answered, with a code and with what is under `"uuid"`, or is
    not; or it is not sent, where the callback is called with `NULL` (`failed`), or is not called
    (`refused`). -/
inductive Outcome
  | answer (code : ℤ) (uuid : Option Str)
  | timeout
  | failed
  | refused
  deriving DecidableEq

def ALINK_CODE_SUCCESS : ℤ := 1000
def ALINK_CODE_ERROR_TIMEOUT : ℤ := -2
def SERVICE_RESULT_OK : ℤ := 0
def SERVICE_RESULT_ERR : ℤ := -1
def UUID_LEN : ℕ := 32

/-- `ALINK_CODE_ERROR_SYSTEM`, `_SERVICE_TIMEOUT`, `_SERVICE_UNAVAILABLE` and `_TOKEN_SERVICE` -/
def retryLater : List ℤ := [2001, 2018, 2019, 3046]

/-- `ALINK_CODE_ERROR_DEV_NOT_LOGIN` -/
def reLogin : List ℤ := [3001]

/-- `ALINK_CODE_ERROR_TOKEN`, `_TOKEN_STATE`, `_UUID`, `_UUID_NO_INFO`, `_INVALID_UUID` and
    `_UUID_TOKEN_MISMATCH` -/
def reHandshake : List ℤ := [3047, 3083, 3048, 3049, 3037, 3060]

/-- The codes under "FATAL, system hang", from `ALINK_CODE_ERROR_MISSING_PARAM` to
    `ALINK_CODE_ERROR_DEVICE_IN_BLACKLIST`. -/
def fatal : List ℤ :=
  [3009, 3010, 3011, 3012, 3015, 3019, 3020, 3021, 3024, 3025, 3026, 3027, 3040, 3041, 3042, 3043, 3044, 3045, 3061,
    3081, 3501]

/-- `alink_phase`, `uuid` of the configuration, the unregister flag, and how many times
    `start_accs_work` was called. -/
structure Conf where
  phase : Phase
  uuid : Str
  unregisterFlag : Bool
  works : ℕ
  deriving DecidableEq

def Conf.goto (h : Conf) (phase : Phase) : Conf := { h with phase := phase }

def Conf.startAccsWork (h : Conf) : Conf := { h with works := h.works + 1 }

def alinkErrorCodeHandler (h : Conf) (code : ℤ) : Conf :=
  if code ∈ retryLater then h.goto .wait
  else if code ∈ reLogin then (h.goto .register).startAccsWork
  else if code ∈ reHandshake then ({ h with uuid := [] }.goto .register).startAccsWork
  else if code ∈ fatal then h.goto .abort
  else h

/-- `alink_response_get_x`, or `ALINK_CODE_ERROR_TIMEOUT` where there is no response. -/
def Outcome.code : Outcome → ℤ
  | .answer code _ => code
  | .timeout | .failed | .refused => ALINK_CODE_ERROR_TIMEOUT

/-- `alink_response_get_x` with `"uuid"`, into the configuration. -/
def Conf.getUuid (h : Conf) : Outcome → Conf
  | .answer code (some uuid) => if code = ALINK_CODE_SUCCESS then { h with uuid := uuid.take UUID_LEN } else h
  | _ => h

/-- What `alink_register`, `alink_login`, `alink_unregister` and the callbacks of their asynchronous
    variants do with a response. -/
def Conf.respond (h : Conf) (q : Req) (o : Outcome) : Conf :=
  match q with
  | .register => alinkErrorCodeHandler (h.getUuid o) o.code
  | .login | .unregister => alinkErrorCodeHandler h o.code

/-! ## `alink_handshake` -/

/-- How a handshake is left. -/
inductive End
  | ready
  | error
  | limit
  | waiting
  deriving DecidableEq

/-- The requests of a handshake, what it leaves, and how. -/
structure Trace where
  requests : List Req
  phase : Phase
  ended : End
  deriving DecidableEq

def Trace.issue (t : Trace) (q : Req) : Trace := { t with requests := q :: t.requests }

/-- `PHASE_INIT` -/
def Conf.first (h : Conf) : Conf := h.goto (if h.uuid = [] then .register else .login)

/-- `PHASE_LOGIN_SUCCESS` -/
def Conf.loggedIn (h : Conf) : Conf := h.goto (if !h.unregisterFlag then .ready else .unregister)

/-- `PHASE_UNREGISTER`, where it is done. -/
def Conf.unregistered (h : Conf) : Conf := { h with uuid := [], unregisterFlag := false }.goto .register

/-- The phase behind a request of the loop: the next one, where the code is
    `ALINK_CODE_SUCCESS`. -/
def Conf.succeed (h : Conf) (q : Req) (code : ℤ) : Conf :=
  if code = ALINK_CODE_SUCCESS then
    match q with
    | .register => h.goto .login
    | .login => h.goto .loginSuccess
    | .unregister => h.unregistered
  else h

/-- The turns of `alink_handshake`, with the outcomes of its requests. -/
def loop : ℕ → Conf → List Outcome → Trace
  | 0, h, _ => ⟨[], h.phase, .limit⟩
  | n + 1, h, os =>
    let request (q : Req) : Trace :=
      match os with
      | [] => ⟨[q], h.phase, .waiting⟩
      | o :: os => (loop n ((h.respond q o).succeed q o.code) os).issue q
    match h.phase with
    | .init => loop n h.first os
    | .register => request .register
    | .login => request .login
    | .loginSuccess => loop n h.loggedIn os
    | .unregister => request .unregister
    | .ready => ⟨[], h.phase, .ready⟩
    | .wait => ⟨[], h.phase, .error⟩
    | .abort => ⟨[], h.phase, .error⟩

/-- `alink_handshake`: "9 steps to login at most, +4 for redundancy". -/
def alinkHandshake (h : Conf) (os : List Outcome) : Trace := loop (9 + 4) (h.goto .init) os

/-! ## `_alink_handshake_cycle` -/

/-- Where a call of the cycle comes to: a request, or a return. -/
inductive CycleEnd
  | sends (q : Req)
  | ready
  | error
  | limit
  deriving DecidableEq

/-- `_alink_handshake_cycle`, from the value of `_g_handshake_cnt`. -/
def cycle : ℕ → Conf → ℤ → Conf × ℕ × CycleEnd
  | 0, h, _ => (h, 0, .limit)
  | n + 1, h, ret =>
    if n = 0 then (h, 0, .limit)
    else
      match h.phase with
      | .init => cycle n h.first 0
      | .register => if ret ≠ 0 then cycle n (h.goto .login) 0 else (h, n, .sends .register)
      | .login => if ret ≠ 0 then cycle n (h.goto .loginSuccess) 0 else (h, n, .sends .login)
      | .loginSuccess => cycle n h.loggedIn 0
      | .unregister => if ret ≠ 0 then cycle n h.unregistered 0 else (h, n, .sends .unregister)
      | .ready => (h, n, .ready)
      | .wait => (h.startAccsWork, n, .error)
      | .abort => (h, n, .error)

/-- What the callbacks pass on: `_alink_reg_cb` whether the code is `ALINK_CODE_SUCCESS`, the two
    others the code. -/
def callbackRet (q : Req) (o : Outcome) : ℤ :=
  match q with
  | .register => if ALINK_CODE_SUCCESS = o.code then 1 else 0
  | .login | .unregister => o.code

/-- The cycle, with the outcomes of its requests. -/
def driven (n : ℕ) (h : Conf) (ret : ℤ) : List Outcome → Trace
  | [] =>
    match cycle n h ret with
    | (h, _, .sends q) => ⟨[q], h.phase, .waiting⟩
    | (h, _, .ready) => ⟨[], h.phase, .ready⟩
    | (h, _, .error) => ⟨[], h.phase, .error⟩
    | (h, _, .limit) => ⟨[], h.phase, .limit⟩
  | o :: os =>
    match cycle n h ret with
    | (h, n, .sends q) =>
      if o = .refused then ⟨[q], h.phase, .waiting⟩
      else (driven n (h.respond q o) (callbackRet q o) os).issue q
    | (h, _, .ready) => ⟨[], h.phase, .ready⟩
    | (h, _, .error) => ⟨[], h.phase, .error⟩
    | (h, _, .limit) => ⟨[], h.phase, .limit⟩

/-- `alink_handshake_async` with its callbacks. -/
def alinkHandshakeAsync (h : Conf) (os : List Outcome) : Trace := driven (9 + 4) (h.goto .init) 0 os

/-! ## Without the limits -/

variable {h : Conf} {q : Req} {o : Outcome} {os : List Outcome} {n m : ℕ} {ret : ℤ}

/-- Where the loop comes to without a request. -/
def Conf.next (h : Conf) : Conf :=
  match h.phase with
  | .init => h.first
  | .loginSuccess => h.loggedIn
  | _ => h

/-- Where the cycle comes to without a request. -/
def Conf.settle (h : Conf) (ret : ℤ) : Conf :=
  if ret = 0 then h.next
  else
    match h.phase with
    | .register => h.goto .login
    | .login => (h.goto .loginSuccess).loggedIn
    | .unregister => h.unregistered
    | _ => h.next

/-- The request of a phase. -/
def Phase.request : Phase → Option Req
  | .register => some .register
  | .login => some .login
  | .unregister => some .unregister
  | _ => none

def Phase.ended : Phase → End
  | .ready => .ready
  | .register | .login | .unregister => .waiting
  | _ => .error

/-- A handshake that has no more outcomes, or no request. -/
def Conf.stop (h : Conf) : Trace := ⟨h.phase.request.toList, h.phase, h.phase.ended⟩

/-- The response takes the cycle where it takes the loop: any to a register request, and to the
    others a success, the code 0, or an error that ends the handshake. -/
def Kept (q : Req) (o : Outcome) : Prop :=
  o ≠ .refused ∧ (q = .register ∨ o.code = ALINK_CODE_SUCCESS ∨ o.code = 0 ∨ o.code ∈ retryLater ∨ o.code ∈ fatal)

/-- All responses of the loop do. -/
def Agrees (h : Conf) : List Outcome → Prop
  | [] => True
  | o :: os => ∀ q, h.phase.request = some q → Kept q o ∧ Agrees ((h.respond q o).succeed q o.code).next os

end Alink
