/-
  Fixed-size buffer queues, and the messages they deliver.

  A fixed ring is filled and read by whole blocks, whatever the length of a
  message, and its head is moved by the length of the message.  So a queue
  delivers what was sent in every run in which only messages of the whole size
  are put into the ring (`fix_buf_queue_delivers`), and not in others.  A
  message handed to a blocked receiver may have any length.
-/
import AliOS.Rhino.BufQueue
import AliOS.Rhino.Receivers
import AliOS.Rhino.RingbufFix

namespace Rhino

open Lib

variable {w : ℕ}

/-! ## The system -/

/-- A buffer queue, the kernel, and the tasks inside `krhino_buf_queue_recv`. -/
structure BufSys (w : ℕ) where
  k : Kernel w
  q : KBufQueue
  inRecv : TaskId → Bool

/-- A step, with what it returns to its caller: the status, the task given the
    message of a send, the bytes received (as many as reported). -/
inductive BufStep (w : ℕ) where
  | send (front : Bool) (msg : ℕ → UInt8) (size : ℕ) (stat : KStat) (served : Option TaskId)
  | recv (ticks : BitVec w) (stat : KStat) (msg : List UInt8)
  | block (t : TaskId) (ticks : BitVec w)
  | recvEnd (t : TaskId) (stat : KStat) (msg : List UInt8)
  | flush (stat : KStat)
  | tick
  | waitAbort (t : TaskId)
  | suspend (t : TaskId)
  | resume (t : TaskId)
  | priChange (t : TaskId) (pri : ℕ)
  | schedule (t : TaskId)
  | interrupts (level lock : ℕ)

/-- `krhino_buf_queue_send_front` or `krhino_buf_queue_send`. -/
def sendFrontOr (front : Bool) (k : Kernel w) (q : KBufQueue) (msg : ℕ → UInt8) (size : ℕ) :
    BufSendResult w :=
  if front then krhinoBufQueueSendFront k q msg size else krhinoBufQueueSend k q msg size

/-- The active task runs, outside `krhino_buf_queue_recv`, or an interrupt does. -/
def BufSys.calls (s : BufSys w) : Prop :=
  s.k.intrptNestedLevel > 0 ∨
    (s.k.tasks s.k.activeTask).taskState = .rdy ∧ s.inRecv s.k.activeTask = false

/-- The steps of the system. -/
inductive BufStep.Step : BufSys w → BufStep w → BufSys w → Prop
  | send {s front msg size} :
    Step s (.send front msg size (sendFrontOr front s.k s.q msg size).stat
        (sendFrontOr front s.k s.q msg size).served)
      { s with
        k := (sendFrontOr front s.k s.q msg size).k, q := (sendFrontOr front s.k s.q msg size).q }
  | recv {s ticks msg stat msg' size q} (hc : s.calls)
    (h : krhinoBufQueueRecv s.k s.q ticks msg = .ret stat msg' size q) :
    Step s (.recv ticks stat (slice msg' 0 (size.getD 0))) { s with q := q }
  | block {s ticks msg k} (hc : s.calls)
    (h : krhinoBufQueueRecv s.k s.q ticks msg = .blocked k) :
    Step s (.block s.k.activeTask ticks)
      { s with k := k, inRecv := Function.update s.inRecv s.k.activeTask true }
  | recvEnd {s t} (ht : s.inRecv t = true) (hr : (s.k.tasks t).taskState = .rdy) :
    Step s (.recvEnd t (krhinoBufQueueRecvEnd s.k t).1
        (slice (krhinoBufQueueRecvEnd s.k t).2.1 0 (krhinoBufQueueRecvEnd s.k t).2.2))
      { s with inRecv := Function.update s.inRecv t false }
  | flush {s} :
    Step s (.flush (krhinoBufQueueFlush s.k s.q).1) { s with q := (krhinoBufQueueFlush s.k s.q).2 }
  | tick {s fuel k} (h : s.k.tickListUpdate fuel = some k) : Step s .tick { s with k := k }
  | waitAbort {s t fuel r} (h : s.k.krhinoTaskWaitAbort fuel t = some r) :
    Step s (.waitAbort t) { s with k := r.2 }
  | suspend {s t} : Step s (.suspend t) { s with k := (s.k.krhinoTaskSuspend t).2 }
  | resume {s t} : Step s (.resume t) { s with k := (s.k.krhinoTaskResume t).2 }
  | priChange {s t pri fuel r} (h : s.k.krhinoTaskPriChange fuel t pri = some r) :
    Step s (.priChange t pri) { s with k := r.2 }
  | schedule {s t} (ht : (s.k.tasks t).taskState = .rdy) :
    Step s (.schedule t) { s with k := { s.k with activeTask := t } }
  | interrupts {s level lock} :
    Step s (.interrupts level lock)
      { s with k := { s.k with intrptNestedLevel := level, schedLock := lock } }

/-- What a step is for the mailbox. -/
def BufStep.events : BufStep w → List (MailEvent TaskId (List UInt8))
  | .send front msg size .success none => [.store front (slice msg 0 size)]
  | .send _ msg size .success (some t) => [.hand t (slice msg 0 size)]
  | .recv _ .success msg => [.take msg]
  | .recvEnd t .success msg => [.ret t msg]
  | .recvEnd t _ _ => [.fail t]
  | .flush .success => [.drop]
  | _ => []

/-- **Delivery**: the steps are a legal log of a mailbox, so that each message
    is received once, in the order of the deque, with its bytes and its length;
    and the ring is a whole number of messages everywhere. -/
def BufSys.Delivers (msgSize buf : ℕ) (as : List (BufStep w)) (s : BufSys w) : Prop :=
  (∃ m : Mailbox TaskId (List UInt8),
    ({} : Mailbox TaskId (List UInt8)).replay (as.flatMap BufStep.events) = some m ∧
      m.places.Perm m.sent.zipIdx) ∧
  msgSize ∣ s.q.ringbuf.head - buf ∧ msgSize ∣ s.q.ringbuf.tail - buf ∧
  msgSize ∣ s.q.ringbuf.freesize

/-- A send of fewer bytes than the message size finds a blocked receiver, or
    no room in the ring. -/
def WholeSends (s : BufSys w) : BufStep w → Prop
  | .send _ _ size _ _ => 0 < size → size < s.q.maxMsgSize →
      (s.k.objs s.q.blkObj).blkList = [] → ringbufIsFull s.q.ringbuf = true
  | _ => True

/-! ## The system and the mailbox -/

/-- The message a woken task returns. -/
def bufOf (x : Task w) : List UInt8 := slice x.msg 0 x.bqMsgSize

theorem readsMsg_bufOf : ReadsMsg (bufOf : Task w → List UInt8) :=
  fun x y hm hs => by unfold bufOf; rw [hm, hs]

/-- The system `s`, with a queue for `n` messages of `msgSize` bytes, is in the
    state `m` of the mailbox. -/
structure BufSim (buf msgSize n : ℕ) (s : BufSys w) (m : Mailbox TaskId (List UInt8)) : Prop where
  rcv : Receivers s.q.blkObj .bufQueue bufOf s.k s.inRecv m
  maxMsgSize : s.q.maxMsgSize = msgSize
  curNum : s.q.curNum = m.stored.length
  ring : s.q.ringbuf.Blocks buf msgSize n (m.stored.map (·.1))

variable {buf msgSize n : ℕ} {s s' : BufSys w} {m : Mailbox TaskId (List UInt8)} {k : Kernel w}

theorem BufSim.quiet (h : BufSim buf msgSize n s m) (hq : PendStep s.k k) :
    BufSim buf msgSize n { s with k := k } m :=
  ⟨h.rcv.quiet readsMsg_bufOf hq, h.maxMsgSize, h.curNum, h.ring⟩

theorem BufSim.objType (h : BufSim buf msgSize n s m) :
    ¬ (s.k.objs s.q.blkObj).objType ≠ .bufQueue := not_not.2 h.rcv.objType

/-! ## Send -/

theorem push_of_full {r : Ringbuf} (hf : ringbufIsFull r = true) (front : Bool)
    (msg : ℕ → UInt8) (size : ℕ) :
    (if front then ringbufHeadPush r msg size else ringbufPush r msg size) = (.ringbufFull, r) := by
  cases front <;> simp [ringbufPush, ringbufHeadPush, hf]

theorem BufSim.push (h : BufSim buf msgSize n s m) (hp : 0 < msgSize)
    (hf : ringbufIsFull s.q.ringbuf = false) (front : Bool) (msg : ℕ → UInt8) :
    let p := if front then ringbufHeadPush s.q.ringbuf msg msgSize
      else ringbufPush s.q.ringbuf msg msgSize
    p.1 = .success ∧ p.2.Blocks buf msgSize n (if front then slice msg 0 msgSize :: m.stored.map (·.1)
      else m.stored.map (·.1) ++ [slice msg 0 msgSize]) := by
  have hlt : (m.stored.map (·.1)).length < n := by
    refine lt_of_le_of_ne (h.ring.length_le hp) fun he => ?_
    rw [h.ring.is_full hp he] at hf; simp at hf
  cases front with
  | true => exact h.ring.headPush hp hlt msg
  | false => exact h.ring.push hp hlt msg msgSize

theorem BufSim.refused (h : BufSim buf msgSize n s m) {front : Bool} {msg : ℕ → UInt8} {size : ℕ}
    {st : KStat} (hst : st ≠ .success) :
    m.replay ((BufStep.send front msg size st none : BufStep w).events) = some m ∧
      BufSim buf msgSize n s m :=
  ⟨by cases st <;> simp [BufStep.events] at hst ⊢, h⟩

/-- **A send** of a whole message, or to a blocked receiver, is a legal event
    of the mailbox. -/
theorem BufSim.send (h : BufSim buf msgSize n s m) (hp : 0 < msgSize) (front : Bool)
    (msg : ℕ → UInt8) {size : ℕ} (hc : 0 < size → size < msgSize →
      (s.k.objs s.q.blkObj).blkList = [] → ringbufIsFull s.q.ringbuf = true) :
    ∃ m', m.replay ((BufStep.send front msg size (bufQueueSend s.k s.q msg size front).stat
        (bufQueueSend s.k s.q msg size front).served : BufStep w).events) = some m' ∧
      BufSim buf msgSize n { s with
        k := (bufQueueSend s.k s.q msg size front).k
        q := (bufQueueSend s.k s.q msg size front).q } m' := by
  have hmax := h.maxMsgSize
  generalize hres : bufQueueSend s.k s.q msg size front = r
  unfold bufQueueSend at hres
  rw [if_neg h.objType] at hres
  by_cases hbig : size > s.q.maxMsgSize
  · rw [if_pos hbig] at hres
    subst hres; exact ⟨m, h.refused (by simp)⟩
  rw [if_neg hbig] at hres
  by_cases hzero : size = 0
  · rw [if_pos hzero] at hres
    subst hres; exact ⟨m, h.refused (by simp)⟩
  rw [if_neg hzero] at hres
  split at hres
  · rename_i hl
    by_cases hf : ringbufIsFull s.q.ringbuf = true
    · -- refused, and nothing changes
      rw [push_of_full hf] at hres
      subst hres; exact ⟨m, h.refused (by simp)⟩
    · -- stored, as a whole message
      obtain rfl : size = msgSize := by
        by_contra hne
        exact hf (hc (by omega) (by omega) hl)
      obtain ⟨hok, hring⟩ := h.push hp (by simpa using hf) front msg
      simp only [hok, ne_eq, not_true_eq_false, if_false] at hres
      subst hres
      refine ⟨_, (Mailbox.replay_single _ _).trans rfl, h.rcv.mailbox rfl (fun t ht => ?_)
        (Mailbox.step_wf (e := .store front (slice msg 0 size)) h.rcv.mail rfl), hmax, ?_, ?_⟩
      · rw [← h.rcv.wf.mem, hl] at ht; simp at ht
      · simp only [h.curNum]; cases front <;> simp
      · refine Eq.subst (motive := fun l => Ringbuf.Blocks buf size n _ l) ?_ hring
        cases front <;> simp
  · rename_i t ts hl
    subst hres
    have hon : (s.k.tasks t).on s.q.blkObj := (h.rcv.wf.mem _ t).1 (by rw [hl]; simp)
    have hst := (h.rcv.blocked t hon).1
    have hs : Served s.q.blkObj bufOf [t] (slice msg 0 size) s.k
        ((s.k.updTask t fun x =>
          { x with msg := memcpy x.msg 0 msg size, bqMsgSize := size }).pendTaskWakeup t) :=
      served_wakeup h.rcv.wf readsMsg_bufOf hon (fun _ => rfl) (fun _ => rfl) (fun _ => rfl)
        slice_memcpy_same
    obtain ⟨m', hm', hst', hh⟩ : ∃ m', m.step (.hand t (slice msg 0 size)) = some m' ∧
        m'.stored = m.stored ∧
        m'.hands = [t].map (fun t => (t, some m.sent.length, slice msg 0 size)) ++ m.hands := by
      simp only [Mailbox.step]
      rw [if_pos ⟨by rw [hst]; rfl, h.rcv.not_holder hon⟩]
      exact ⟨_, rfl, rfl, rfl⟩
    exact ⟨m', (Mailbox.replay_single _ _).trans hm',
      h.rcv.served hs hst' hh (Mailbox.step_wf h.rcv.mail hm'), hmax, hst' ▸ h.curNum,
      hst' ▸ h.ring⟩

/-! ## Receive and flush -/

theorem BufSim.recvRet (h : BufSim buf msgSize n s m) (hp : 0 < msgSize) {ticks : BitVec w}
    {msg msg' : ℕ → UInt8} {stat : KStat} {size : Option ℕ} {q : KBufQueue}
    (hr : krhinoBufQueueRecv s.k s.q ticks msg = .ret stat msg' size q) :
    ∃ m', m.replay ((BufStep.recv ticks stat (slice msg' 0 (size.getD 0))).events) = some m' ∧
      BufSim buf msgSize n { s with q := q } m' := by
  unfold krhinoBufQueueRecv at hr
  rw [if_neg h.objType] at hr
  split_ifs at hr with h1 h2 h3 h4
  · injection hr with hs _ _ hq
    subst hs hq; exact ⟨m, rfl, h⟩
  · -- the ring has a message
    injection hr with hs hm hsz hq
    have hne : m.stored ≠ [] := fun he => by
      have := (h.ring.isEmpty_iff hp).2 (by rw [he]; rfl)
      simp [this] at h2
    obtain ⟨x, xs, hst⟩ := List.exists_cons_of_ne_nil hne
    have hring := h.ring
    rw [hst, List.map_cons] at hring
    obtain ⟨-, hlen, hdata, hring'⟩ := hring.pop hp msg
    have htake : m.step (.take x.1) = some { m with stored := xs, got := m.got ++ [x] } := by
      simp [Mailbox.step, hst]
    subst hs hm hsz hq
    refine ⟨{ m with stored := xs, got := m.got ++ [x] },
      by simp [BufStep.events, hlen, hdata, htake], h.rcv.mailbox rfl (fun t ht => ?_)
      (Mailbox.step_wf h.rcv.mail htake), h.maxMsgSize, ?_, hring'⟩
    · exact absurd (h.rcv.blocked t ht).1 (by simp [hst])
    · simp [h.curNum, hst]
  all_goals
    injection hr with hs _ _ hq
    subst hs hq; exact ⟨m, rfl, h⟩

theorem BufSim.block (h : BufSim buf msgSize n s m) (hp : 0 < msgSize) {ticks : BitVec w}
    {msg : ℕ → UInt8} (hc : s.calls) (hr : krhinoBufQueueRecv s.k s.q ticks msg = .blocked k) :
    BufSim buf msgSize n
      { s with k := k, inRecv := Function.update s.inRecv s.k.activeTask true } m := by
  unfold krhinoBufQueueRecv at hr
  split_ifs at hr with h1 h2 h3 h4 h5
  injection hr with hr
  subst hr
  have hst : m.stored = [] := by
    have := (h.ring.isEmpty_iff hp).1 (by simpa using h3)
    simpa using this
  obtain ⟨hrdy, hnr⟩ : (s.k.tasks s.k.activeTask).taskState = .rdy ∧
      s.inRecv s.k.activeTask = false := by
    rcases hc with hc | hc
    · exact absurd ⟨hc, h4⟩ h1
    · exact hc
  have h₀ := h.rcv.setMsg hnr (fun x => { x with msg := msg }) (fun _ => ⟨rfl, rfl⟩) (fun _ => rfl)
    (fun _ => rfl)
  have hb := Kernel.blocked_pendToBlkObj h₀.wf (t := s.k.activeTask)
    (by rw [Kernel.updTask_tasks_self]; simp [Task.waits, hrdy]) s.q.blkObj ticks
  exact ⟨h₀.block hb hst hnr, h.maxMsgSize, h.curNum, h.ring⟩

theorem BufSim.recvEnd {t : TaskId} (h : BufSim buf msgSize n s m) (ht : s.inRecv t = true)
    (hr : (s.k.tasks t).taskState = .rdy) :
    ∃ m', m.replay ((BufStep.recvEnd t (krhinoBufQueueRecvEnd s.k t).1
        (slice (krhinoBufQueueRecvEnd s.k t).2.1 0 (krhinoBufQueueRecvEnd s.k t).2.2) :
          BufStep w).events) = some m' ∧
      BufSim buf msgSize n { s with inRecv := Function.update s.inRecv t false } m' := by
  obtain ⟨m', hm', hst, hrcv⟩ := h.rcv.recvEnd ht (.inl hr)
  refine ⟨m', ?_, hrcv, h.maxMsgSize, hst ▸ h.curNum, hst ▸ h.ring⟩
  unfold krhinoBufQueueRecvEnd
  rcases h.rcv.recvEnd_stat ht (.inl hr) with ⟨hs, hf⟩ | ⟨hs | hs, hf⟩
  · rw [if_pos hf] at hm'
    simp only [hs, BufStep.events, Mailbox.replay_single]
    exact hm'
  all_goals
    rw [if_neg hf] at hm'
    simp only [hs, BufStep.events, Mailbox.replay_single]
    exact hm'

theorem BufSim.flush (h : BufSim buf msgSize n s m) :
    ∃ m', m.replay ((BufStep.flush (krhinoBufQueueFlush s.k s.q).1 : BufStep w).events) = some m' ∧
      BufSim buf msgSize n { s with q := (krhinoBufQueueFlush s.k s.q).2 } m' := by
  unfold krhinoBufQueueFlush
  rw [if_neg h.objType]
  split_ifs
  · exact ⟨m, rfl, h⟩
  · exact ⟨_, rfl, h.rcv.mailbox rfl (fun _ _ => rfl)
      (Mailbox.step_wf (e := .drop) h.rcv.mail rfl), h.maxMsgSize, rfl, h.ring.reset⟩

/-! ## Runs -/

theorem BufSim.step (h : BufSim buf msgSize n s m) (hp : 0 < msgSize) {a : BufStep w}
    (hs : restrict WholeSends BufStep.Step s a s') :
    ∃ m', m.replay a.events = some m' ∧ BufSim buf msgSize n s' m' := by
  obtain ⟨hc, hs⟩ := hs
  have hwf := h.rcv.wf
  cases hs with
  | @send front msg size =>
    have heq : sendFrontOr front s.k s.q msg size = bufQueueSend s.k s.q msg size front := by
      cases front <;> rfl
    rw [heq]
    exact h.send hp front msg (h.maxMsgSize ▸ hc)
  | recv _ hr => exact h.recvRet hp hr
  | block hcall hr => exact ⟨m, rfl, h.block hp hcall hr⟩
  | recvEnd ht hr => exact h.recvEnd ht hr
  | flush => exact h.flush
  | tick hr => exact ⟨m, rfl, h.quiet (Kernel.pendStep_tickListUpdate hwf hr)⟩
  | waitAbort hr => exact ⟨m, rfl, h.quiet (Kernel.pendStep_krhinoTaskWaitAbort hwf hr)⟩
  | suspend => exact ⟨m, rfl, h.quiet (Kernel.pendStep_krhinoTaskSuspend hwf)⟩
  | resume => exact ⟨m, rfl, h.quiet (Kernel.pendStep_krhinoTaskResume hwf)⟩
  | priChange hr => exact ⟨m, rfl, h.quiet (Kernel.pendStep_krhinoTaskPriChange hwf hr)⟩
  | schedule => exact ⟨m, rfl, h.quiet ((sameWait_activeTask s.k _).step hwf)⟩
  | interrupts => exact ⟨m, rfl, h.quiet ((sameWait_levels s.k _ _).step hwf)⟩

theorem bufSim_create {k0 : Kernel w} {obj : ObjId} {mem : ℕ → UInt8} {q : KBufQueue}
    (hk : PendWf k0) (hnew : ∀ t, ¬ (k0.tasks t).on obj)
    (hc : krhinoFixBufQueueCreate k0 obj mem buf msgSize n = (.success, k, some q)) :
    0 < msgSize ∧ BufSim buf msgSize n ⟨k, q, fun _ => false⟩ {} := by
  unfold krhinoFixBufQueueCreate bufQueueCreate at hc
  split_ifs at hc with h1 h2
  · simp at hc
  · simp at hc
  simp only [Prod.mk.injEq, true_and, Option.some.injEq] at hc
  obtain ⟨rfl, rfl⟩ := hc
  exact ⟨by omega, receivers_new hk hnew .bufQueue _, rfl, rfl,
    Ringbuf.blocks_init mem buf msgSize n⟩

/-- **Fixed-size buffer queues deliver what was sent**, in every run from the
    creation of a queue in which a send of less than a whole message finds a
    blocked receiver or no room. -/
theorem fix_buf_queue_delivers {k₀ : Kernel w} (hk : PendWf k₀) {obj : ObjId}
    (hnew : ∀ t, ¬ (k₀.tasks t).on obj) (mem : ℕ → UInt8) (buf msgSize msgNum : ℕ) {q : KBufQueue}
    (hc : krhinoFixBufQueueCreate k₀ obj mem buf msgSize msgNum = (.success, k, some q))
    {as : List (BufStep w)}
    (run : Run (restrict WholeSends BufStep.Step) ⟨k, q, fun _ => false⟩ as s) :
    s.Delivers msgSize buf as := by
  obtain ⟨hp, hsim⟩ := bufSim_create hk hnew hc
  obtain ⟨m, hm, h⟩ := run.log (R := BufSim buf msgSize msgNum)
    (fun hsim hs => hsim.step hp hs) hsim
  refine ⟨⟨m, hm, h.rcv.mail.once⟩, h.ring.head_dvd, h.ring.tail_dvd, ?_⟩
  have hfree := h.ring.free
  exact (Nat.dvd_add_left (Nat.dvd_mul_right _ _)).1 (hfree ▸ Nat.dvd_mul_right _ _)

/-- A kernel of ready tasks with a new queue for two messages of four bytes. -/
def fixQueueSys : BufSys 32 :=
  let k := readyKernel 32 fun _ => 10
  { k := k.updObj 0 fun _ => ⟨[], .pri, .bufQueue⟩
    q := ⟨0, 100, ringbufInit (fun _ => 0) 100 8 .fix 4, 4, 0, 0, 8, .staticAlloc⟩
    inRecv := fun _ => false }

theorem fixQueueSys_create :
    krhinoFixBufQueueCreate (readyKernel 32 fun _ => 10) 0 (fun _ => 0) 100 4 2 =
      (.success, fixQueueSys.k, some fixQueueSys.q) := rfl

/-- The system after `size` bytes `7` are sent to the queue. -/
def fixQueueSent (front : Bool) (size : ℕ) : BufSys 32 :=
  let r := sendFrontOr front fixQueueSys.k fixQueueSys.q (fun _ => 7) size
  { fixQueueSys with k := r.k, q := r.q }

theorem fixQueueSent_recv (size : ℕ) (h : size = 1 ∨ size = 4) :
    ∃ s, BufStep.Step (fixQueueSent false size) (.recv 0 .success [7, 7, 7, 7]) s := by
  have hpop : slice (ringbufPop (fixQueueSent false size).q.ringbuf fun _ => 0).pdata 0
      ((some 4).getD 0) = [7, 7, 7, 7] := by
    rcases h with rfl | rfl <;> decide
  rw [← hpop]
  rcases h with rfl | rfl <;>
    exact ⟨_, @BufStep.Step.recv _ _ _ (fun _ => 0) _ _ _ _ (.inr ⟨rfl, rfl⟩) rfl⟩

/-- A whole message sent and received. -/
theorem fix_buf_queue_delivers_whole :
    ∃ s, Run BufStep.Step fixQueueSys
        [.send false (fun _ => 7) 4 .success none, .recv 0 .success [7, 7, 7, 7]] s ∧
      s.Delivers 4 100
        [.send false (fun _ => 7) 4 .success none, .recv 0 .success [7, 7, 7, 7]] := by
  have hnew : ∀ t, ¬ ((readyKernel 32 fun _ => 10).tasks t).on 0 := fun t h =>
    readyKernel_not_waits _ t h.1
  obtain ⟨s, hrecv⟩ := fixQueueSent_recv 4 (.inr rfl)
  have hsend : BufStep.Step fixQueueSys (.send false (fun _ => 7) 4 .success none)
      (fixQueueSent false 4) := .send
  have run : Run (restrict WholeSends BufStep.Step) fixQueueSys
      [.send false (fun _ => 7) 4 .success none, .recv 0 .success [7, 7, 7, 7]] s :=
    .cons ⟨fun _ h => absurd h (by decide), hsend⟩ (.single ⟨trivial, hrecv⟩)
  exact ⟨s, run.mono fun h => h.2, fix_buf_queue_delivers (pendWf_readyKernel _) hnew _ 100 4 2
    fixQueueSys_create run⟩

/-- **Short messages.**  One byte sent to the back is received as four; one
    byte sent to the front leaves the head off the blocks. -/
theorem fix_buf_queue_short :
    (∃ s, Run BufStep.Step fixQueueSys
        [.send false (fun _ => 7) 1 .success none, .recv 0 .success [7, 7, 7, 7]] s ∧
      ¬ s.Delivers 4 100
        [.send false (fun _ => 7) 1 .success none, .recv 0 .success [7, 7, 7, 7]]) ∧
    ∃ s, Run BufStep.Step fixQueueSys [.send true (fun _ => 7) 1 .success none] s ∧
      ¬ s.Delivers 4 100 [.send true (fun _ => 7) 1 .success none] := by
  obtain ⟨s, hrecv⟩ := fixQueueSent_recv 1 (.inl rfl)
  have hsend : ∀ front, BufStep.Step fixQueueSys (.send front (fun _ => 7) 1 .success none)
      (fixQueueSent front 1) := fun front => by cases front <;> exact .send
  refine ⟨⟨s, .cons (hsend false) (.single hrecv), ?_⟩, _, .single (hsend true), ?_⟩
  · rintro ⟨⟨m, hm, -⟩, -⟩
    have hn : ({} : Mailbox TaskId (List UInt8)).replay
        [.store false [7], .take [7, 7, 7, 7]] = none := rfl
    exact absurd (hn.symm.trans hm) (by simp)
  · rintro ⟨-, hhead, -⟩
    exact absurd hhead (by decide)

end Rhino
