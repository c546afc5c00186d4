/-
  Requests and responses of the WSF client (`wsf_msg_queue.c`, `wsf_worker.c`):
  synchronous and asynchronous invokes, the bounded queue of requests, and the
  thread that receives the responses.

  Each call allocates one node, which is named by the call.  What a thread does
  under the mutex of the queue is one step; what it reads outside of it is a step
  of its own.  A thread that touches a freed node faults, and nothing is said of
  what comes then.
-/
import AliOS.Wsf.Recv

namespace Wsf

/-- A response. -/
structure Msg where
  msgId : ℕ
  body : Bytes
  deriving DecidableEq

/-- `wsf_request_node_t`: the fields of its session in question, the posts of its
    semaphore that nobody took, and whether `list_head` points to itself. -/
structure Node where
  id : ℕ
  cb : Option ℕ
  response : Option Msg
  posts : ℕ
  alone : Bool
  deriving DecidableEq

/-- What a call ends with; `sent` is an asynchronous call that went out. -/
inductive Result
  | response (r : Option Msg)
  | timeout
  | failed
  | sent
  deriving DecidableEq

/-- Where a call is: in `wsf_request_queue_push` (`check`, `drop`, `add`), in
    `wsf_send_msg`, waiting for its semaphore, with it, in `wsf_request_queue_pop`
    (`popCheck`, `popLen`, `popLock`), before its node is destroyed, and behind. -/
inductive Pc
  | check
  | drop
  | add
  | send
  | wait
  | got
  | popCheck (r : Result)
  | popLen (r : Result)
  | popLock (r : Result)
  | destroy (r : Result)
  | returned (r : Result)
  deriving DecidableEq

/-- A call of `__wsf_invoke_sync`, or with a callback of `__wsf_invoke_async`. -/
structure Call where
  id : ℕ
  cb : Option ℕ
  pc : Pc
  deriving DecidableEq

/-- The queue, newest node first, the heap, the calls, what the receive thread is about
    to hand over, and the callbacks that were made. -/
structure World where
  list : List ℕ
  length : ℕ
  heap : ℕ → Option Node
  call : ℕ → Option Call
  rx : Option (ℕ × Msg)
  told : List (ℕ × Option Msg)
  fault : Bool

def World.setPc (w : World) (t : ℕ) (pc : Pc) : World :=
  { w with call := Function.update w.call t ((w.call t).map fun c => { c with pc := pc }) }

def World.setNode (w : World) (t : ℕ) (n : Option Node) : World :=
  { w with heap := Function.update w.heap t n }

/-- Reads the node of `t`. -/
def World.touch (w : World) (t : ℕ) (k : Node → Option World) : Option World :=
  match w.heap t with
  | none => some { w with fault := true }
  | some n => k n

/-- `wsf_del_first_msg`: the oldest node goes out of the queue, its callback is called
    without a response, and it is freed. -/
def wsfDelFirstMsg (w : World) : Option World :=
  match w.list.getLast? with
  | none => some w
  | some t =>
    w.touch t fun n =>
      let told := if n.cb ≠ none then w.told ++ [(t, none)] else w.told
      some ({ w with list := w.list.dropLast, length := w.length - 1, told }.setNode t none)

/-- `wsf_request_queue_trigger`, with the response that came. -/
def wsfRequestQueueTrigger (w : World) (rsp : Msg) : World :=
  match w.list.find? fun t => (w.heap t).any fun n => n.id = rsp.msgId with
  | none => w
  | some t =>
    let n := (w.heap t).map fun n => { n with alone := true, response := some rsp }
    World.setNode { w with list := w.list.erase t, length := w.length - 1, rx := some (t, rsp) } t n

/-- `process_msg_response` behind the trigger: the callback is called and the node
    freed, or the semaphore posted. -/
def finishResponse (w : World) (t : ℕ) (rsp : Msg) : Option World :=
  w.touch t fun n =>
    if n.cb ≠ none then some ({ w with told := w.told ++ [(t, some rsp)], rx := none }.setNode t none)
    else some ({ w with rx := none }.setNode t (some { n with posts := n.posts + 1 }))

/-- The next step of call `t`.  `ok` tells whether `wsf_send_msg` succeeds, and whether
    the semaphore is got, else the wait times out. -/
def advance (maxLen : ℕ) (w : World) (t : ℕ) (ok : Bool) : Option World :=
  match w.call t with
  | none => none
  | some c =>
    match c.pc with
    | .check =>
      if w.length ≥ maxLen then if c.cb ≠ none then some (w.setPc t .drop) else some (w.setPc t (.destroy .failed))
      else some (w.setPc t .add)
    | .drop => (wsfDelFirstMsg w).map fun w => w.setPc t .add
    | .add =>
      w.touch t fun n =>
        let w := { w with list := t :: w.list, length := w.length + 1 }
        some ((w.setNode t (some { n with alone := false })).setPc t .send)
    | .send =>
      if ok then some (w.setPc t (if c.cb ≠ none then .returned .sent else .wait))
      else some (w.setPc t (.popCheck .failed))
    | .wait =>
      w.touch t fun n =>
        if ok then
          if n.posts = 0 then none else some ((w.setNode t (some { n with posts := n.posts - 1 })).setPc t .got)
        else some (w.setPc t (.popCheck .timeout))
    | .got => w.touch t fun n => some (w.setPc t (.popCheck (.response n.response)))
    | .popCheck r => w.touch t fun n => some (w.setPc t (if n.alone then .destroy r else .popLen r))
    | .popLen r => some (w.setPc t (if w.length = 0 then .destroy r else .popLock r))
    | .popLock r =>
      w.touch t fun n =>
        if n.alone then some (w.setPc t (.destroy r))
        else some ({ w with list := w.list.erase t, length := w.length - 1 }.setPc t (.destroy r))
    | .destroy r => w.touch t fun _ => some ((w.setNode t none).setPc t (.returned r))
    | .returned _ => none

/-- What can happen: a call begins (`ok` if its node is allocated), a call goes on, a
    response comes in, and the receive thread hands it over. -/
inductive Act
  | invoke (t id : ℕ) (cb : Option ℕ) (ok : Bool)
  | run (t : ℕ) (ok : Bool)
  | respond (rsp : Msg)
  | finish

/-- The new node of `__send_msg`. -/
def newNode (id : ℕ) (cb : Option ℕ) : Node := ⟨id, cb, none, 0, false⟩

def World.step (maxLen : ℕ) (w : World) : Act → Option World
  | .invoke t id cb ok =>
    if w.call t = none then
      if ok then
        some ({ w with call := Function.update w.call t (some ⟨id, cb, .check⟩) }.setNode t (some (newNode id cb)))
      else some { w with call := Function.update w.call t (some ⟨id, cb, .returned .failed⟩) }
    else none
  | .run t ok => advance maxLen w t ok
  | .respond rsp => if w.rx = none then some (wsfRequestQueueTrigger w rsp) else none
  | .finish =>
    match w.rx with
    | none => none
    | some (t, rsp) => finishResponse w t rsp

/-- A step of a world without a fault. -/
def World.Step (maxLen : ℕ) (w : World) (a : Act) (w' : World) : Prop :=
  w.fault = false ∧ w.step maxLen a = some w'

def World.start : World := ⟨[], 0, fun _ => none, fun _ => none, none, [], false⟩

end Wsf
