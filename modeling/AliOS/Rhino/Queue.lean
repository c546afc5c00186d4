/-
  Rhino kernel: message queues (`k_queue.c`).

  A queue holds pointers in a ring of `sizeof(void *)`-byte blocks; a pointer is
  the function giving its bytes.  A send hands its message to a blocked
  receiver, through `task->msg`, or stores it in the ring.  A receive either
  returns within its critical section or leaves the task blocked;
  `krhinoQueueRecvEnd` is the rest of it, run when the task is scheduled again.
  Pointers given to the functions are not NULL.
-/
import AliOS.Rhino.Wakeup
import AliOS.Rhino.Ringbuf

namespace Rhino

open Lib

variable {w : ℕ}

def qmsgSendToFront : ℕ := 3

def qmsgSendToEnd : ℕ := 4

/-- `msg_q_t`. -/
structure MsgQ where
  queueStart : ℕ
  size : ℕ
  curNum : ℕ
  peakNum : ℕ

/-- `kqueue_t`; `blkObj` is its address, where its `blk_obj` is. -/
structure KQueue where
  blkObj : ObjId
  ringbuf : Ringbuf
  msgQ : MsgQ
  mmAllocFlag : AllocFlag

def noWait : BitVec w := 0

/-- The bytes of the variable at `msg` after `*msg = p`. -/
def storePtr (ptrSize : ℕ) (msg p : ℕ → UInt8) : ℕ → UInt8 := memcpy msg 0 p ptrSize

/-- The bytes of `NULL`. -/
def nullPtr : ℕ → UInt8 := fun _ => 0

/-- `queue_create`, for a queue at `obj` with its ring in `mem`. -/
def queueCreate (ptrSize : ℕ) (k : Kernel w) (obj : ObjId) (mem : ℕ → UInt8) (start msgNum : ℕ)
    (mmAllocFlag : AllocFlag) : KStat × Kernel w × Option KQueue :=
  if msgNum = 0 then (.invParam, k, none)
  else
    (.success, k.updObj obj fun _ => ⟨[], .pri, .queue⟩,
      some {
        blkObj := obj
        ringbuf := ringbufInit mem start (msgNum * ptrSize) .fix ptrSize
        msgQ := ⟨start, msgNum, 0, 0⟩
        mmAllocFlag := mmAllocFlag })

def krhinoQueueCreate (ptrSize : ℕ) (k : Kernel w) (obj : ObjId) (mem : ℕ → UInt8)
    (start msgNum : ℕ) : KStat × Kernel w × Option KQueue :=
  queueCreate ptrSize k obj mem start msgNum .staticAlloc

/-! ## Send -/

def taskMsgRecv (k : Kernel w) (t : TaskId) (msg : ℕ → UInt8) : Kernel w :=
  (k.updTask t fun x => { x with msg := msg }).pendTaskWakeup t

/-- `while (!is_klist_empty(blk_list_head)) task_msg_recv(..)`, on fuel, with
    the tasks served. -/
def taskMsgRecvAll : ℕ → Kernel w → ObjId → (ℕ → UInt8) → Option (Kernel w × List TaskId)
  | 0, _, _, _ => none
  | fuel + 1, k, o, msg =>
    match (k.objs o).blkList with
    | [] => some (k, [])
    | t :: _ => (taskMsgRecvAll fuel (taskMsgRecv k t msg) o msg).map fun r => (r.1, t :: r.2)

/-- What a send returns: the status, the tasks given the message, and the
    kernel and the queue. -/
structure SendResult (w : ℕ) where
  stat : KStat
  served : List TaskId
  k : Kernel w
  q : KQueue

def msgSend (fuel ptrSize : ℕ) (k : Kernel w) (q : KQueue) (pVoid : ℕ → UInt8)
    (optSendMethod : ℕ) (optWakeAll : Bool) : Option (SendResult w) :=
  if (k.objs q.blkObj).objType ≠ .queue then some ⟨.kobjTypeErr, [], k, q⟩
  else if q.msgQ.curNum ≥ q.msgQ.size then some ⟨.queueFull, [], k, q⟩
  else
    match (k.objs q.blkObj).blkList with
    | [] =>
      let curNum := q.msgQ.curNum + 1
      let msgQ := { q.msgQ with
        curNum := curNum, peakNum := if curNum > q.msgQ.peakNum then curNum else q.msgQ.peakNum }
      let ringbuf :=
        if optSendMethod = qmsgSendToEnd then (ringbufPush q.ringbuf pVoid ptrSize).2
        else (ringbufHeadPush q.ringbuf pVoid ptrSize).2
      some ⟨.success, [], k, { q with msgQ := msgQ, ringbuf := ringbuf }⟩
    | t :: _ =>
      if optWakeAll then
        (taskMsgRecvAll fuel k q.blkObj pVoid).map fun r => ⟨.success, r.2, r.1, q⟩
      else some ⟨.success, [t], taskMsgRecv k t pVoid, q⟩

def krhinoQueueFrontSend (fuel ptrSize : ℕ) (k : Kernel w) (q : KQueue) (msg : ℕ → UInt8) :
    Option (SendResult w) :=
  msgSend fuel ptrSize k q msg qmsgSendToFront false

def krhinoQueueBackSend (fuel ptrSize : ℕ) (k : Kernel w) (q : KQueue) (msg : ℕ → UInt8) :
    Option (SendResult w) :=
  msgSend fuel ptrSize k q msg qmsgSendToEnd false

def krhinoQueueAllSend (fuel ptrSize : ℕ) (k : Kernel w) (q : KQueue) (msg : ℕ → UInt8)
    (opt : ℕ) : Option (SendResult w) :=
  msgSend fuel ptrSize k q msg opt true

/-! ## Receive -/

/-- What the first critical section of a receive leads to: a return, with the
    bytes at `msg`, or the block of the active task. -/
inductive RecvResult (w : ℕ) where
  | ret (stat : KStat) (msg : ℕ → UInt8) (q : KQueue)
  | blocked (k : Kernel w)

/-- `krhino_queue_recv`, up to the switch to another task. -/
def krhinoQueueRecv (ptrSize : ℕ) (k : Kernel w) (q : KQueue) (ticks : BitVec w)
    (msg : ℕ → UInt8) : RecvResult w :=
  if k.intrptNestedLevel > 0 ∧ ticks ≠ noWait then .ret .notCalledByIntrpt msg q
  else if (k.objs q.blkObj).objType ≠ .queue then .ret .kobjTypeErr msg q
  else if q.msgQ.curNum > 0 then
    let p := ringbufPop q.ringbuf msg
    .ret .success p.pdata
      { q with ringbuf := p.ring, msgQ := { q.msgQ with curNum := q.msgQ.curNum - 1 } }
  else if ticks = noWait then .ret .noPendWait (storePtr ptrSize msg nullPtr) q
  else if k.schedLock > 0 then .ret .schedDisable (storePtr ptrSize msg nullPtr) q
  else .blocked (k.pendToBlkObj q.blkObj k.activeTask ticks)

/-- The end of `krhino_queue_recv` in a task that was blocked. -/
def krhinoQueueRecvEnd (ptrSize : ℕ) (k : Kernel w) (t : TaskId) (msg : ℕ → UInt8) :
    KStat × (ℕ → UInt8) :=
  let ret := pendStateEndProc (k.tasks t).blkState
  (ret, match ret with
    | .success => storePtr ptrSize msg (k.tasks t).msg
    | _ => storePtr ptrSize msg nullPtr)

def krhinoQueueFlush (k : Kernel w) (q : KQueue) : KStat × KQueue :=
  if k.intrptNestedLevel > 0 then (.notCalledByIntrpt, q)
  else if (k.objs q.blkObj).objType ≠ .queue then (.kobjTypeErr, q)
  else (.success, { q with
    msgQ := { q.msgQ with curNum := 0 }, ringbuf := ringbufReset q.ringbuf })

def krhinoQueueIsFull (k : Kernel w) (q : KQueue) : KStat :=
  if (k.objs q.blkObj).objType ≠ .queue then .kobjTypeErr
  else if q.msgQ.curNum ≥ q.msgQ.size then .queueFull
  else .queueNotFull

end Rhino
