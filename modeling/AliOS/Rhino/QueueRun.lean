/-
  Message queues neither lose nor duplicate messages.

  The system is a queue, the kernel with its tasks, and for each task whether
  it is inside `krhino_queue_recv`, blocked or woken.  Any task that is ready,
  and any interrupt, may take the next step.  `QueueSim` relates the system to
  a mailbox; every step of the system is a legal step of the mailbox.
-/
import AliOS.Lib.Trans
import AliOS.Rhino.Queue
import AliOS.Rhino.Receivers
import AliOS.Rhino.RingbufFix

namespace Rhino

open Lib

variable {w : ℕ}

/-! ## The system -/

structure QueueSys (w : ℕ) where
  k : Kernel w
  q : KQueue
  inRecv : TaskId → Bool

/-- The three sends. -/
inductive SendKind where
  | front | back
  | all (opt : ℕ)

def SendKind.send (kind : SendKind) (fuel ptrSize : ℕ) (k : Kernel w) (q : KQueue)
    (msg : ℕ → UInt8) : Option (SendResult w) :=
  match kind with
  | .front => krhinoQueueFrontSend fuel ptrSize k q msg
  | .back => krhinoQueueBackSend fuel ptrSize k q msg
  | .all opt => krhinoQueueAllSend fuel ptrSize k q msg opt

/-- A step, with what it returns to its caller: the status, the tasks given
    the message of a send, the bytes received. -/
inductive QueueStep (w : ℕ) where
  | send (kind : SendKind) (msg : ℕ → UInt8) (stat : KStat) (served : List TaskId)
  | recv (ticks : BitVec w) (stat : KStat) (msg : List UInt8)
  | block (t : TaskId) (ticks : BitVec w)
  | recvEnd (t : TaskId) (stat : KStat) (msg : List UInt8)
  | flush (stat : KStat)
  | tick
  | waitAbort (t : TaskId)
  | suspend (t : TaskId)
  | resume (t : TaskId)
  | priChange (t : TaskId) (pri : ℕ)
  | schedule (t : TaskId)
  | interrupts (level lock : ℕ)

/-- The active task runs, outside `krhino_queue_recv`, or an interrupt does. -/
def QueueSys.calls (s : QueueSys w) : Prop :=
  s.k.intrptNestedLevel > 0 ∨
    (s.k.tasks s.k.activeTask).taskState = .rdy ∧ s.inRecv s.k.activeTask = false

/-- The steps of the system. -/
inductive QueueStep.Step (ptrSize : ℕ) : QueueSys w → QueueStep w → QueueSys w → Prop
  | send {s kind msg fuel r} (h : SendKind.send kind fuel ptrSize s.k s.q msg = some r) :
    Step ptrSize s (.send kind msg r.stat r.served) { s with k := r.k, q := r.q }
  | recv {s ticks msg stat msg' q} (hc : s.calls)
    (h : krhinoQueueRecv ptrSize s.k s.q ticks msg = .ret stat msg' q) :
    Step ptrSize s (.recv ticks stat (slice msg' 0 ptrSize)) { s with q := q }
  | block {s ticks msg k} (hc : s.calls)
    (h : krhinoQueueRecv ptrSize s.k s.q ticks msg = .blocked k) :
    Step ptrSize s (.block s.k.activeTask ticks)
      { s with k := k, inRecv := Function.update s.inRecv s.k.activeTask true }
  | recvEnd {s msg t} (ht : s.inRecv t = true) (hr : (s.k.tasks t).taskState = .rdy) :
    Step ptrSize s (.recvEnd t (krhinoQueueRecvEnd ptrSize s.k t msg).1
        (slice (krhinoQueueRecvEnd ptrSize s.k t msg).2 0 ptrSize))
      { s with inRecv := Function.update s.inRecv t false }
  | flush {s} :
    Step ptrSize s (.flush (krhinoQueueFlush s.k s.q).1) { s with q := (krhinoQueueFlush s.k s.q).2 }
  | tick {s fuel k} (h : s.k.tickListUpdate fuel = some k) : Step ptrSize s .tick { s with k := k }
  | waitAbort {s t fuel r} (h : s.k.krhinoTaskWaitAbort fuel t = some r) :
    Step ptrSize s (.waitAbort t) { s with k := r.2 }
  | suspend {s t} : Step ptrSize s (.suspend t) { s with k := (s.k.krhinoTaskSuspend t).2 }
  | resume {s t} : Step ptrSize s (.resume t) { s with k := (s.k.krhinoTaskResume t).2 }
  | priChange {s t pri fuel r} (h : s.k.krhinoTaskPriChange fuel t pri = some r) :
    Step ptrSize s (.priChange t pri) { s with k := r.2 }
  | schedule {s t} (ht : (s.k.tasks t).taskState = .rdy) :
    Step ptrSize s (.schedule t) { s with k := { s.k with activeTask := t } }
  | interrupts {s level lock} :
    Step ptrSize s (.interrupts level lock)
      { s with k := { s.k with intrptNestedLevel := level, schedLock := lock } }

/-- What a step is for the mailbox. -/
def QueueStep.events (ptrSize : ℕ) : QueueStep w → List (MailEvent TaskId (List UInt8))
  | .send kind msg .success served =>
    match kind, served with
    | .front, [] => [.store true (slice msg 0 ptrSize)]
    | .back, [] => [.store false (slice msg 0 ptrSize)]
    | .all opt, [] => [.store (opt ≠ qmsgSendToEnd) (slice msg 0 ptrSize)]
    | .all _, ts => [.copies ts (slice msg 0 ptrSize)]
    | _, ts => ts.map fun t => .hand t (slice msg 0 ptrSize)
  | .recv _ .success msg => [.take msg]
  | .recvEnd t .success msg => [.ret t msg]
  | .recvEnd t _ _ => [.fail t]
  | .flush .success => [.drop]
  | _ => []

/-! ## The system and the mailbox -/

/-- The message a woken task returns. -/
def ptrOf (ptrSize : ℕ) (x : Task w) : List UInt8 := slice x.msg 0 ptrSize

theorem readsMsg_ptrOf (ptrSize : ℕ) : ReadsMsg (ptrOf ptrSize : Task w → List UInt8) :=
  fun x y hm _ => by unfold ptrOf; rw [hm]

/-- The system `s`, with a queue for `n` messages, is in the state `m` of the
    mailbox. -/
structure QueueSim (buf ptrSize n : ℕ) (s : QueueSys w) (m : Mailbox TaskId (List UInt8)) :
    Prop where
  rcv : Receivers s.q.blkObj .queue (ptrOf ptrSize) s.k s.inRecv m
  size : s.q.msgQ.size = n
  curNum : s.q.msgQ.curNum = m.stored.length
  ring : s.q.ringbuf.Blocks buf ptrSize n (m.stored.map (·.1))

variable {buf ptrSize n : ℕ} {s s' : QueueSys w} {m : Mailbox TaskId (List UInt8)} {k : Kernel w}

theorem QueueSim.quiet (h : QueueSim buf ptrSize n s m) (hq : PendStep s.k k) :
    QueueSim buf ptrSize n { s with k := k } m :=
  ⟨h.rcv.quiet (readsMsg_ptrOf ptrSize) hq, h.size, h.curNum, h.ring⟩

theorem QueueSim.objType (h : QueueSim buf ptrSize n s m) :
    ¬ (s.k.objs s.q.blkObj).objType ≠ .queue := not_not.2 h.rcv.objType

/-! ## Send -/

theorem served_taskMsgRecv (ptrSize : ℕ) {o : ObjId} {t : TaskId} (hk : PendWf k) (hon : (k.tasks t).on o)
    (msg : ℕ → UInt8) :
    Served o (ptrOf ptrSize) [t] (slice msg 0 ptrSize) k (taskMsgRecv k t msg) :=
  served_wakeup hk (readsMsg_ptrOf ptrSize) hon (fun _ => rfl) (fun _ => rfl) (fun _ => rfl) rfl

theorem served_taskMsgRecvAll (ptrSize : ℕ) {o : ObjId} {msg : ℕ → UInt8} {fuel : ℕ} :
    ∀ {k : Kernel w} {r : Kernel w × List TaskId}, PendWf k →
      taskMsgRecvAll fuel k o msg = some r →
      Served o (ptrOf ptrSize) r.2 (slice msg 0 ptrSize) k r.1 ∧ (r.1.objs o).blkList = [] := by
  induction fuel with
  | zero => intro k r _ h; simp [taskMsgRecvAll] at h
  | succ fuel ih =>
    intro k r hk h
    unfold taskMsgRecvAll at h
    split at h
    · rename_i hl
      cases h
      exact ⟨⟨hk, fun _ => ⟨rfl, rfl⟩, fun _ _ => rfl, by simp, by simp, by simp, by simp, by simp⟩, hl⟩
    · rename_i t ts hl
      obtain ⟨r', hr', rfl⟩ := Option.map_eq_some_iff.1 h
      have h1 := served_taskMsgRecv ptrSize hk ((hk.mem o t).1 (by rw [hl]; simp)) msg
      obtain ⟨h2, he⟩ := ih h1.wf hr'
      exact ⟨h1.cons h2, he⟩

theorem taskMsgRecvAll_total {o : ObjId} (msg : ℕ → UInt8) {fuel : ℕ} :
    ∀ {k : Kernel w}, PendWf k → (k.objs o).blkList.length < fuel →
      ∃ r, taskMsgRecvAll fuel k o msg = some r := by
  induction fuel with
  | zero => intro k _ h; omega
  | succ fuel ih =>
    intro k hk hlt
    unfold taskMsgRecvAll
    split
    · exact ⟨_, rfl⟩
    · rename_i t ts hl
      have hon := (hk.mem o t).1 (by rw [hl]; simp)
      have h1 := served_taskMsgRecv 0 hk hon msg
      -- the list of the next round has the members of `ts`
      have hsub : ((taskMsgRecv k t msg).objs o).blkList ⊆ ts := by
        intro u hu
        have hu' := (h1.wf.mem o u).1 hu
        have hut : u ≠ t := by
          rintro rfl; exact (h1.idle u (by simp)).not_on o hu'
        rw [h1.others u (by simpa using hut), ← hk.mem, hl] at hu'
        exact (List.mem_cons.1 hu').resolve_left hut
      have hle := (List.subperm_of_subset (h1.wf.nodup o) hsub).length_le
      rw [hl, List.length_cons] at hlt
      obtain ⟨r, hr⟩ := ih h1.wf (by omega)
      exact ⟨_, by rw [hr]; rfl⟩

theorem taskMsgRecvAll_cons {o : ObjId} {msg : ℕ → UInt8} {fuel : ℕ} {t : TaskId}
    {ts : List TaskId} {r : Kernel w × List TaskId} (hl : (k.objs o).blkList = t :: ts)
    (hr : taskMsgRecvAll fuel k o msg = some r) : ∃ ts', r.2 = t :: ts' := by
  cases fuel with
  | zero => simp [taskMsgRecvAll] at hr
  | succ fuel =>
    unfold taskMsgRecvAll at hr
    rw [hl] at hr
    obtain ⟨r', -, rfl⟩ := Option.map_eq_some_iff.1 hr
    exact ⟨_, rfl⟩

theorem QueueSim.stored (h : QueueSim buf ptrSize n s m) (hp : 0 < ptrSize)
    (hlt : m.stored.length < n) (hempty : (s.k.objs s.q.blkObj).blkList = []) (msg : ℕ → UInt8)
    (front : Bool) {r : Ringbuf} (peak : ℕ)
    (hr : r = if front then (ringbufHeadPush s.q.ringbuf msg ptrSize).2
      else (ringbufPush s.q.ringbuf msg ptrSize).2) :
    ∃ m', m.step (.store front (slice msg 0 ptrSize)) = some m' ∧
      QueueSim buf ptrSize n { s with q := { s.q with
        msgQ := { s.q.msgQ with curNum := s.q.msgQ.curNum + 1, peakNum := peak }
        ringbuf := r } } m' := by
  refine ⟨_, rfl, h.rcv.mailbox rfl (fun t ht => ?_)
    (Mailbox.step_wf (e := .store front (slice msg 0 ptrSize)) h.rcv.mail rfl), h.size, ?_, ?_⟩
  · rw [← h.rcv.wf.mem, hempty] at ht; simp at ht
  · rw [h.curNum]; cases front <;> simp
  · have hlen : (m.stored.map (·.1)).length < n := by rwa [List.length_map]
    rw [hr]
    cases front with
    | true => simpa using (h.ring.headPush hp hlen msg).2
    | false => simpa using (h.ring.push hp hlen msg ptrSize).2

theorem SendKind.send_eq (kind : SendKind) : ∃ method all,
    (∀ (fuel ptrSize : ℕ) (k : Kernel w) (q : KQueue) (msg : ℕ → UInt8),
      kind.send fuel ptrSize k q msg = msgSend fuel ptrSize k q msg method all) ∧
    ∀ (ptrSize : ℕ) (msg : ℕ → UInt8),
      (QueueStep.send kind msg .success [] : QueueStep w).events ptrSize =
        [.store (method ≠ qmsgSendToEnd) (slice msg 0 ptrSize)] ∧
      ∀ t ts, (QueueStep.send kind msg .success (t :: ts) : QueueStep w).events ptrSize =
        if all then [.copies (t :: ts) (slice msg 0 ptrSize)]
        else (t :: ts).map fun t => .hand t (slice msg 0 ptrSize) := by
  cases kind with
  | front => exact ⟨_, _, fun _ _ _ _ _ => rfl, fun _ _ =>
      ⟨by simp [QueueStep.events, qmsgSendToFront, qmsgSendToEnd], fun _ _ => rfl⟩⟩
  | back => exact ⟨_, _, fun _ _ _ _ _ => rfl, fun _ _ =>
      ⟨by simp [QueueStep.events, qmsgSendToEnd], fun _ _ => rfl⟩⟩
  | all opt => exact ⟨_, _, fun _ _ _ _ _ => rfl, fun _ _ => ⟨rfl, fun _ _ => rfl⟩⟩

theorem QueueSim.send (h : QueueSim buf ptrSize n s m) (hp : 0 < ptrSize) {kind : SendKind}
    {msg : ℕ → UInt8} {fuel : ℕ} {r : SendResult w}
    (hr : kind.send fuel ptrSize s.k s.q msg = some r) :
    ∃ m', m.replay ((QueueStep.send kind msg r.stat r.served : QueueStep w).events ptrSize) =
        some m' ∧
      QueueSim buf ptrSize n { s with k := r.k, q := r.q } m' := by
  obtain ⟨method, all, hsend, hev⟩ := kind.send_eq (w := w)
  obtain ⟨hstore, hone⟩ := hev ptrSize msg
  rw [hsend] at hr
  unfold msgSend at hr
  rw [if_neg h.objType] at hr
  by_cases hfull : s.q.msgQ.curNum ≥ s.q.msgQ.size
  · rw [if_pos hfull] at hr
    cases hr
    exact ⟨m, by simp [QueueStep.events], h⟩
  · rw [if_neg hfull] at hr
    rw [h.curNum, h.size] at hfull
    split at hr
    · rename_i hl
      cases hr
      rw [hstore]
      obtain ⟨m', hm', hsim⟩ := h.stored hp (by omega) hl msg (method ≠ qmsgSendToEnd) _ rfl
      refine ⟨m', by rw [Mailbox.replay_single, hm'], ?_⟩
      simpa only [decide_not, Bool.not_eq_true', decide_eq_false_iff_not, ite_not] using hsim
    · rename_i t ts hl
      have hon : (s.k.tasks t).on s.q.blkObj := (h.rcv.wf.mem _ t).1 (by rw [hl]; simp)
      have hst := (h.rcv.blocked t hon).1
      -- the tasks served get the message in hand
      have hserve : ∀ {us k' m' i e},
          Served s.q.blkObj (ptrOf ptrSize) us (slice msg 0 ptrSize) s.k k' →
          m.step e = some m' → m'.stored = m.stored →
          m'.hands = us.map (fun t => (t, i, slice msg 0 ptrSize)) ++ m.hands →
          QueueSim buf ptrSize n { s with k := k' } m' := fun hs he hst hh =>
        ⟨h.rcv.served hs hst hh (Mailbox.step_wf h.rcv.mail he), h.size, hst ▸ h.curNum,
          hst ▸ h.ring⟩
      cases all with
      | true =>
        obtain ⟨r', hr', rfl⟩ := Option.map_eq_some_iff.1 hr
        obtain ⟨hs, -⟩ := served_taskMsgRecvAll ptrSize h.rcv.wf hr'
        obtain ⟨m', hm', hst', hh⟩ : ∃ m', m.step (.copies r'.2 (slice msg 0 ptrSize)) = some m' ∧
            m'.stored = m.stored ∧
            m'.hands = r'.2.map (fun t => (t, none, slice msg 0 ptrSize)) ++ m.hands := by
          simp only [Mailbox.step]
          rw [if_pos ⟨by rw [hst]; rfl, hs.nodup, fun u hu => h.rcv.not_holder (hs.on u hu)⟩]
          exact ⟨_, rfl, rfl, rfl⟩
        obtain ⟨ts', hts⟩ := taskMsgRecvAll_cons hl hr'
        rw [hts, hone, if_pos rfl, ← hts]
        exact ⟨m', by rw [Mailbox.replay_single, hm'], hserve hs hm' hst' hh⟩
      | false =>
        cases hr
        obtain ⟨m', hm', hst', hh⟩ : ∃ m', m.step (.hand t (slice msg 0 ptrSize)) = some m' ∧
            m'.stored = m.stored ∧
            m'.hands = [t].map (fun t => (t, some m.sent.length, slice msg 0 ptrSize)) ++ m.hands := by
          simp only [Mailbox.step]
          rw [if_pos ⟨by rw [hst]; rfl, h.rcv.not_holder hon⟩]
          exact ⟨_, rfl, rfl, rfl⟩
        rw [hone]
        exact ⟨m', by simp only [Bool.false_eq_true, if_false, List.map_cons, List.map_nil,
          Mailbox.replay_single, hm'], hserve (served_taskMsgRecv ptrSize h.rcv.wf hon msg) hm' hst' hh⟩

/-- A send is refused exactly when the queue is full, and serves the blocked
    task of the highest priority first. -/
theorem QueueSim.send_result (h : QueueSim buf ptrSize n s m) (hp : 0 < ptrSize)
    {kind : SendKind} {msg : ℕ → UInt8} {fuel : ℕ} {r : SendResult w}
    (hr : kind.send fuel ptrSize s.k s.q msg = some r) :
    (r.stat = .queueFull ↔ m.stored.length = n) ∧
      ∀ t ts, r.served = t :: ts → (s.k.tasks t).on s.q.blkObj ∧
        ∀ u, (s.k.tasks u).on s.q.blkObj → (s.k.tasks t).prio ≤ (s.k.tasks u).prio := by
  have hle : m.stored.length ≤ n := by simpa using h.ring.length_le hp
  obtain ⟨method, all, hsend, -⟩ := kind.send_eq (w := w)
  rw [hsend] at hr
  unfold msgSend at hr
  rw [if_neg h.objType] at hr
  by_cases hfull : s.q.msgQ.curNum ≥ s.q.msgQ.size
  · rw [if_pos hfull] at hr
    cases hr
    rw [h.curNum, h.size] at hfull
    exact ⟨⟨fun _ => by omega, fun _ => rfl⟩, fun t ts hts => by simp at hts⟩
  · rw [if_neg hfull] at hr
    rw [h.curNum, h.size] at hfull
    split at hr
    · cases hr
      exact ⟨⟨fun hc => by simp at hc, fun hc => by omega⟩, fun t ts hts => by simp at hts⟩
    · rename_i t ts hl
      split_ifs at hr
      · obtain ⟨r', hr', rfl⟩ := Option.map_eq_some_iff.1 hr
        refine ⟨⟨fun hc => by simp at hc, fun hc => by omega⟩, fun t' ts' hts => ?_⟩
        obtain ⟨ts'', hts''⟩ := taskMsgRecvAll_cons hl hr'
        obtain ⟨rfl, -⟩ := List.cons.inj (hts.symm.trans hts'')
        exact h.rcv.first hl
      · cases hr
        refine ⟨⟨fun hc => by simp at hc, fun hc => by omega⟩, fun t' ts' hts => ?_⟩
        obtain ⟨rfl, -⟩ := List.cons.inj hts
        exact h.rcv.first hl

theorem QueueSim.send_total (h : QueueSim buf ptrSize n s m) (kind : SendKind) (msg : ℕ → UInt8)
    {fuel : ℕ} (hf : (s.k.objs s.q.blkObj).blkList.length < fuel) :
    ∃ r, kind.send fuel ptrSize s.k s.q msg = some r := by
  obtain ⟨method, all, hsend, -⟩ := kind.send_eq (w := w)
  obtain ⟨r, hr⟩ := taskMsgRecvAll_total msg h.rcv.wf hf
  rw [hsend]
  unfold msgSend
  split
  · exact ⟨_, rfl⟩
  split
  · exact ⟨_, rfl⟩
  split
  · exact ⟨_, rfl⟩
  split
  · exact ⟨_, by rw [hr]; rfl⟩
  · exact ⟨_, rfl⟩

/-! ## Receive and flush -/

theorem QueueSim.recvRet (h : QueueSim buf ptrSize n s m) (hp : 0 < ptrSize) {ticks : BitVec w}
    {msg msg' : ℕ → UInt8} {stat : KStat} {q : KQueue}
    (hr : krhinoQueueRecv ptrSize s.k s.q ticks msg = .ret stat msg' q) :
    ∃ m', m.replay ((QueueStep.recv ticks stat (slice msg' 0 ptrSize)).events ptrSize) = some m' ∧
      QueueSim buf ptrSize n { s with q := q } m' := by
  unfold krhinoQueueRecv at hr
  rw [if_neg h.objType] at hr
  split_ifs at hr with h1 h2 h3 h4
  · injection hr with hs _ hq
    subst hs hq; exact ⟨m, rfl, h⟩
  · -- the ring has a message
    injection hr with hs hm hq
    rw [h.curNum] at h2
    obtain ⟨x, xs, hst⟩ := List.exists_cons_of_length_pos h2
    have hring := h.ring
    rw [hst, List.map_cons] at hring
    obtain ⟨-, -, hdata, hring'⟩ := hring.pop hp msg
    have htake : m.step (.take x.1) = some { m with stored := xs, got := m.got ++ [x] } := by
      simp [Mailbox.step, hst]
    subst hs hm hq
    refine ⟨{ m with stored := xs, got := m.got ++ [x] },
      by simp [QueueStep.events, hdata, htake], h.rcv.mailbox rfl (fun t ht => ?_)
      (Mailbox.step_wf h.rcv.mail htake), h.size, ?_, hring'⟩
    · exact absurd (h.rcv.blocked t ht).1 (by simp [hst])
    · simp [h.curNum, hst]
  all_goals
    injection hr with hs _ hq
    subst hs hq; exact ⟨m, rfl, h⟩

theorem QueueSim.block (h : QueueSim buf ptrSize n s m) {ticks : BitVec w} {msg : ℕ → UInt8}
    (hc : s.calls) (hr : krhinoQueueRecv ptrSize s.k s.q ticks msg = .blocked k) :
    QueueSim buf ptrSize n
      { s with k := k, inRecv := Function.update s.inRecv s.k.activeTask true } m := by
  unfold krhinoQueueRecv at hr
  split_ifs at hr with h1 h2 h3 h4 h5
  injection hr with hr
  subst hr
  have hst : m.stored = [] := List.length_eq_zero_iff.1 (by rw [← h.curNum]; omega)
  -- the caller is a task, not an interrupt
  obtain ⟨hrdy, hnr⟩ : (s.k.tasks s.k.activeTask).taskState = .rdy ∧
      s.inRecv s.k.activeTask = false := by
    rcases hc with hc | hc
    · exact absurd ⟨hc, h4⟩ h1
    · exact hc
  have hb := Kernel.blocked_pendToBlkObj h.rcv.wf (t := s.k.activeTask)
    (by simp [Task.waits, hrdy]) s.q.blkObj ticks
  exact ⟨h.rcv.block hb hst hnr, h.size, h.curNum, h.ring⟩

theorem slice_storePtr (msg p : ℕ → UInt8) :
    slice (storePtr ptrSize msg p) 0 ptrSize = slice p 0 ptrSize := slice_memcpy_same

theorem QueueSim.recvEnd {t : TaskId} (h : QueueSim buf ptrSize n s m) (ht : s.inRecv t = true)
    (hr : (s.k.tasks t).taskState = .rdy) (msg : ℕ → UInt8) :
    ∃ m', m.replay ((QueueStep.recvEnd t (krhinoQueueRecvEnd ptrSize s.k t msg).1
        (slice (krhinoQueueRecvEnd ptrSize s.k t msg).2 0 ptrSize) : QueueStep w).events
        ptrSize) = some m' ∧
      QueueSim buf ptrSize n { s with inRecv := Function.update s.inRecv t false } m' := by
  obtain ⟨m', hm', hst, hrcv⟩ := h.rcv.recvEnd ht (.inl hr)
  refine ⟨m', ?_, hrcv, h.size, hst ▸ h.curNum, hst ▸ h.ring⟩
  unfold krhinoQueueRecvEnd
  rcases h.rcv.recvEnd_stat ht (.inl hr) with ⟨hs, hf⟩ | ⟨hs | hs, hf⟩
  · rw [if_pos hf] at hm'
    simp only [hs, slice_storePtr, QueueStep.events, Mailbox.replay_single]
    exact hm'
  all_goals
    rw [if_neg hf] at hm'
    simp only [hs, QueueStep.events, Mailbox.replay_single]
    exact hm'

theorem QueueSim.flush (h : QueueSim buf ptrSize n s m) :
    ∃ m', m.replay ((QueueStep.flush (krhinoQueueFlush s.k s.q).1 : QueueStep w).events ptrSize) =
        some m' ∧
      QueueSim buf ptrSize n { s with q := (krhinoQueueFlush s.k s.q).2 } m' := by
  unfold krhinoQueueFlush
  rw [if_neg h.objType]
  split_ifs
  · exact ⟨m, rfl, h⟩
  · exact ⟨_, rfl, h.rcv.mailbox rfl (fun _ _ => rfl)
      (Mailbox.step_wf (e := .drop) h.rcv.mail rfl), h.size, rfl, h.ring.reset⟩

/-! ## Runs -/

theorem QueueSim.step (h : QueueSim buf ptrSize n s m) (hp : 0 < ptrSize) {a : QueueStep w}
    (hs : QueueStep.Step ptrSize s a s') :
    ∃ m', m.replay (a.events ptrSize) = some m' ∧ QueueSim buf ptrSize n s' m' := by
  have hwf := h.rcv.wf
  cases hs with
  | send hr => exact h.send hp hr
  | recv _ hr => exact h.recvRet hp hr
  | block hc hr => exact ⟨m, rfl, h.block hc hr⟩
  | recvEnd ht hr => exact h.recvEnd ht hr _
  | flush => exact h.flush
  | tick hr => exact ⟨m, rfl, h.quiet (Kernel.pendStep_tickListUpdate hwf hr)⟩
  | waitAbort hr => exact ⟨m, rfl, h.quiet (Kernel.pendStep_krhinoTaskWaitAbort hwf hr)⟩
  | suspend => exact ⟨m, rfl, h.quiet (Kernel.pendStep_krhinoTaskSuspend hwf)⟩
  | resume => exact ⟨m, rfl, h.quiet (Kernel.pendStep_krhinoTaskResume hwf)⟩
  | priChange hr => exact ⟨m, rfl, h.quiet (Kernel.pendStep_krhinoTaskPriChange hwf hr)⟩
  | schedule => exact ⟨m, rfl, h.quiet ((sameWait_activeTask s.k _).step hwf)⟩
  | interrupts => exact ⟨m, rfl, h.quiet ((sameWait_levels s.k _ _).step hwf)⟩

theorem QueueSim.run (hp : 0 < ptrSize) {as : List (QueueStep w)}
    (hr : Run (QueueStep.Step ptrSize) s as s') (h : QueueSim buf ptrSize n s m) :
    ∃ m', m.replay (as.flatMap fun a => a.events ptrSize) = some m' ∧
      QueueSim buf ptrSize n s' m' :=
  hr.log (fun hsim hs => hsim.step hp hs) h

theorem queueSim_create {k0 : Kernel w} {obj : ObjId} {mem : ℕ → UInt8} {q : KQueue}
    (hk : PendWf k0) (hnew : ∀ t, ¬ (k0.tasks t).on obj)
    (hc : krhinoQueueCreate ptrSize k0 obj mem buf n = (.success, k, some q)) :
    QueueSim buf ptrSize n ⟨k, q, fun _ => false⟩ {} := by
  unfold krhinoQueueCreate queueCreate at hc
  split_ifs at hc
  · simp at hc
  simp only [Prod.mk.injEq, true_and, Option.some.injEq] at hc
  obtain ⟨rfl, rfl⟩ := hc
  refine ⟨receivers_new hk hnew .queue _, rfl, rfl, ?_⟩
  simpa [Nat.mul_comm] using Ringbuf.blocks_init mem buf ptrSize n

/-- **Message queues neither lose nor duplicate messages.**  In every run from
    the creation of a queue, by any tasks and interrupts:
    every log of its steps is a legal log of a mailbox, so each message accepted
    for one receiver is stored, in one receiver's hand, received, or flushed,
    and in one of these only; `cur_num` is the number of messages in the ring;
    a task is blocked on the queue only if there are none; a send is refused
    exactly when `size` messages are stored, and serves a blocked task of the
    highest priority; a task with a message in hand is about to return it. -/
theorem queue_exactly_once (hp : 0 < ptrSize) {k₀ : Kernel w} (hk : PendWf k₀) {obj : ObjId}
    (hnew : ∀ t, ¬ (k₀.tasks t).on obj) (mem : ℕ → UInt8) (start msgNum : ℕ) {q : KQueue}
    (hc : krhinoQueueCreate ptrSize k₀ obj mem start msgNum = (.success, k, some q))
    {as : List (QueueStep w)} (run : Run (QueueStep.Step ptrSize) ⟨k, q, fun _ => false⟩ as s) :
    ∃ m : Mailbox TaskId (List UInt8),
      ({} : Mailbox TaskId (List UInt8)).replay (as.flatMap fun a => a.events ptrSize) = some m ∧
      m.places.Perm m.sent.zipIdx ∧
      s.q.msgQ.curNum = m.stored.length ∧
      s.q.ringbuf.Blocks start ptrSize msgNum (m.stored.map (·.1)) ∧
      (∀ t, (s.k.tasks t).on s.q.blkObj → s.q.msgQ.curNum = 0) ∧
      (∀ kind msg, (∃ fuel r, SendKind.send kind fuel ptrSize s.k s.q msg = some r) ∧
        ∀ fuel r, SendKind.send kind fuel ptrSize s.k s.q msg = some r →
          (r.stat = .queueFull ↔ m.stored.length = msgNum) ∧
          ∀ t ts, r.served = t :: ts → (s.k.tasks t).on s.q.blkObj ∧
            ∀ u, (s.k.tasks u).on s.q.blkObj → (s.k.tasks t).prio ≤ (s.k.tasks u).prio) ∧
      ∀ t i a, (t, i, a) ∈ m.hands → s.inRecv t = true ∧ (s.k.tasks t).idle ∧
        ∀ msg, (krhinoQueueRecvEnd ptrSize s.k t msg).1 = .success ∧
          slice (krhinoQueueRecvEnd ptrSize s.k t msg).2 0 ptrSize = a := by
  obtain ⟨m, hm, h⟩ := QueueSim.run hp run (queueSim_create hk hnew hc)
  refine ⟨m, hm, h.rcv.mail.once, h.curNum, h.ring, fun t ht => ?_,
    fun kind msg => ⟨?_, fun fuel r hr => h.send_result hp hr⟩, fun t i a hx => ?_⟩
  · rw [h.curNum, (h.rcv.blocked t ht).1]; rfl
  · exact ⟨_, h.send_total kind msg (Nat.lt_succ_self _)⟩
  · obtain ⟨hr, hi, hb⟩ := (h.rcv.holders t).1 (Mailbox.mem_holders.2 ⟨i, a, hx⟩)
    refine ⟨hr, hi, fun msg => ?_⟩
    simp only [krhinoQueueRecvEnd, hb, pendStateEndProc, slice_storePtr, true_and]
    exact h.rcv.hands t i a hx

/-- A message sent to the back and received. -/
theorem queue_exactly_once_send_recv :
    ∃ m : Mailbox TaskId (List UInt8),
      ({} : Mailbox TaskId (List UInt8)).replay [.store false [7, 0, 0, 0], .take [7, 0, 0, 0]] =
        some m ∧
      m.places.Perm m.sent.zipIdx := by
  have hnew : ∀ t, ¬ ((readyKernel 32 fun _ => 10).tasks t).on 0 := fun t h =>
    readyKernel_not_waits _ t h.1
  obtain ⟨m, h1, h2, -⟩ := queue_exactly_once (by decide : 0 < 4)
    (pendWf_readyKernel fun _ => 10) hnew (fun _ => 0) 100 2 rfl
    (.cons (@QueueStep.Step.send _ 4 _ .back (fun i => if i = 0 then 7 else 0) 1 _ rfl)
      (.cons (@QueueStep.Step.recv _ 4 _ 0 (fun _ => 0) _ _ _ (.inr ⟨rfl, rfl⟩) rfl) .nil))
  exact ⟨m, h1, h2⟩

end Rhino
