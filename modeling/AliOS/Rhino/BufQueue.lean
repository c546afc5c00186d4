/-
  Rhino kernel: buffer queues (`k_buf_queue.c`).

  A buffer queue holds messages of at most `max_msg_size` bytes in a ring
  buffer, with their lengths (`krhino_buf_queue_create`) or in blocks of one
  size (`krhino_fix_buf_queue_create`).  A send copies its message to the buffer
  of a blocked receiver, `task->msg`, or pushes it on the ring.
-/
import AliOS.Rhino.Queue

namespace Rhino

open Lib

variable {w : ℕ}

/-- `kbuf_queue_t`; `blkObj` is its address, where its `blk_obj` is. -/
structure KBufQueue where
  blkObj : ObjId
  buf : ℕ
  ringbuf : Ringbuf
  maxMsgSize : ℕ
  curNum : ℕ
  peakNum : ℕ
  minFreeBufSize : ℕ
  mmAllocFlag : AllocFlag

/-- `buf_queue_create`, for a queue at `obj` with its buffer in `mem`. -/
def bufQueueCreate (k : Kernel w) (obj : ObjId) (mem : ℕ → UInt8) (buf size maxMsg : ℕ)
    (mmAllocFlag : AllocFlag) (type : RingbufType) : KStat × Kernel w × Option KBufQueue :=
  if maxMsg = 0 then (.invParam, k, none)
  else if size = 0 then (.bufQueueSizeZero, k, none)
  else
    let ringbuf := ringbufInit mem buf size type maxMsg
    (.success, k.updObj obj fun _ => ⟨[], .pri, .bufQueue⟩,
      some {
        blkObj := obj, buf := buf, ringbuf := ringbuf, maxMsgSize := maxMsg
        curNum := 0, peakNum := 0, minFreeBufSize := ringbuf.freesize
        mmAllocFlag := mmAllocFlag })

def krhinoBufQueueCreate (k : Kernel w) (obj : ObjId) (mem : ℕ → UInt8) (buf size maxMsg : ℕ) :
    KStat × Kernel w × Option KBufQueue :=
  bufQueueCreate k obj mem buf size maxMsg .staticAlloc .dyn

def krhinoFixBufQueueCreate (k : Kernel w) (obj : ObjId) (mem : ℕ → UInt8)
    (buf msgSize msgNum : ℕ) : KStat × Kernel w × Option KBufQueue :=
  bufQueueCreate k obj mem buf (msgSize * msgNum) msgSize .staticAlloc .fix

/-! ## Send -/

/-- What a send returns: the status, the task given the message, and the kernel
    and the queue. -/
structure BufSendResult (w : ℕ) where
  stat : KStat
  served : Option TaskId
  k : Kernel w
  q : KBufQueue

def bufQueueSend (k : Kernel w) (q : KBufQueue) (msg : ℕ → UInt8) (msgSize : ℕ) (front : Bool) :
    BufSendResult w :=
  if (k.objs q.blkObj).objType ≠ .bufQueue then ⟨.kobjTypeErr, none, k, q⟩
  else if msgSize > q.maxMsgSize then ⟨.bufQueueMsgSizeOverflow, none, k, q⟩
  else if msgSize = 0 then ⟨.invParam, none, k, q⟩
  else
    match (k.objs q.blkObj).blkList with
    | [] =>
      let p := if front then ringbufHeadPush q.ringbuf msg msgSize
        else ringbufPush q.ringbuf msg msgSize
      if p.1 ≠ .success then
        ⟨if p.1 = .ringbufFull then .bufQueueFull else p.1, none, k, { q with ringbuf := p.2 }⟩
      else
        let curNum := q.curNum + 1
        ⟨.success, none, k, { q with
          ringbuf := p.2
          curNum := curNum
          peakNum := if q.peakNum < curNum then curNum else q.peakNum
          minFreeBufSize :=
            if q.minFreeBufSize > p.2.freesize then p.2.freesize else q.minFreeBufSize }⟩
    | t :: _ =>
      let k := k.updTask t fun x => { x with msg := memcpy x.msg 0 msg msgSize, bqMsgSize := msgSize }
      ⟨.success, some t, k.pendTaskWakeup t, q⟩

def krhinoBufQueueSend (k : Kernel w) (q : KBufQueue) (msg : ℕ → UInt8) (size : ℕ) :
    BufSendResult w :=
  bufQueueSend k q msg size false

def krhinoBufQueueSendFront (k : Kernel w) (q : KBufQueue) (msg : ℕ → UInt8) (size : ℕ) :
    BufSendResult w :=
  bufQueueSend k q msg size true

/-! ## Receive -/

/-- What the first critical section of a receive leads to: a return, with the
    bytes at `msg` and the value stored in `*size`, or the block of the active
    task. -/
inductive BufRecvResult (w : ℕ) where
  | ret (stat : KStat) (msg : ℕ → UInt8) (size : Option ℕ) (q : KBufQueue)
  | blocked (k : Kernel w)

/-- `krhino_buf_queue_recv`, up to the switch to another task. -/
def krhinoBufQueueRecv (k : Kernel w) (q : KBufQueue) (ticks : BitVec w) (msg : ℕ → UInt8) :
    BufRecvResult w :=
  if k.intrptNestedLevel > 0 ∧ ticks ≠ noWait then .ret .notCalledByIntrpt msg none q
  else if (k.objs q.blkObj).objType ≠ .bufQueue then .ret .kobjTypeErr msg none q
  else if !ringbufIsEmpty q.ringbuf then
    let p := ringbufPop q.ringbuf msg
    .ret .success p.pdata p.plen { q with ringbuf := p.ring, curNum := q.curNum - 1 }
  else if ticks = noWait then .ret .noPendWait msg (some 0) q
  else if k.schedLock > 0 then .ret .schedDisable msg (some 0) q
  else
    let k := k.updTask k.activeTask fun x => { x with msg := msg }
    .blocked (k.pendToBlkObj q.blkObj k.activeTask ticks)

/-- The end of `krhino_buf_queue_recv` in a task that was blocked: the status,
    the bytes at `msg` and `*size`. -/
def krhinoBufQueueRecvEnd (k : Kernel w) (t : TaskId) : KStat × (ℕ → UInt8) × ℕ :=
  let ret := pendStateEndProc (k.tasks t).blkState
  (ret, (k.tasks t).msg, match ret with
    | .success => (k.tasks t).bqMsgSize
    | _ => 0)

def krhinoBufQueueFlush (k : Kernel w) (q : KBufQueue) : KStat × KBufQueue :=
  if k.intrptNestedLevel > 0 then (.notCalledByIntrpt, q)
  else if (k.objs q.blkObj).objType ≠ .bufQueue then (.kobjTypeErr, q)
  else
    let ringbuf := ringbufReset q.ringbuf
    (.success, { q with
      ringbuf := ringbuf, curNum := 0, peakNum := 0, minFreeBufSize := ringbuf.freesize })

end Rhino
