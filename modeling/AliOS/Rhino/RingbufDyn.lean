/-
  The dynamic ring buffer is a FIFO of messages.

  `fifoStep N` is the abstract queue: messages with a cost (length bytes and
  payload), at most `N` in total.  `r.Queues q` relates a ring to the messages
  it stores: its bytes are the encodings of the messages of `q`, in order.
  Push and pop keep the relation and answer as the queue does, so every run of
  the ring is a run of the queue (`ringbuf_dyn_fifo`).
-/
import AliOS.Rhino.RingbufBytes
import AliOS.Lib.Trans

namespace Rhino

open Lib

/-! ## The length bytes -/

/-- The length bytes of a message of `n` bytes. -/
def lenCells (n : ℕ) : List UInt8 := slice (ringbufHeadlenCompress n).2 0 (compressLen n)

@[simp] theorem lenCells_length (n : ℕ) : (lenCells n).length = compressLen n := slice_length ..

theorem compressLen_pos (n : ℕ) : 0 < compressLen n := by unfold compressLen; split_ifs <;> decide

theorem compressLen_le {n : ℕ} (h : n ≤ 0x3fffff) : compressLen n ≤ 3 := by
  unfold compressLen; split_ifs <;> simp

theorem lenBytesOf_one : ∀ k < 128, lenBytesOf (0x7f &&& UInt8.ofNat k) = some 1 := by decide

theorem lenBytesOf_two : ∀ k < 64, lenBytesOf (0x80 ||| UInt8.ofNat k) = some 2 := by decide

theorem lenBytesOf_three : ∀ k < 64, lenBytesOf (0xC0 ||| UInt8.ofNat k) = some 3 := by decide

theorem lenBytesOf_headlen {n : ℕ} (h : n ≤ 0x3fffff) :
    lenBytesOf ((ringbufHeadlenCompress n).2 0) = some (compressLen n) := by
  unfold ringbufHeadlenCompress compressLen beByte
  by_cases h1 : n ≤ 0x7f
  · simpa [h1] using lenBytesOf_one n (by omega)
  · by_cases h2 : n ≤ 0x3fff
    · simpa [h1, h2] using lenBytesOf_two (n >>> 8) (by rw [Nat.shiftRight_eq_div_pow]; omega)
    · simpa [h1, h2, h] using
        lenBytesOf_three (n >>> 16) (by rw [Nat.shiftRight_eq_div_pow]; omega)

theorem one_toNat : ∀ k < 128, (0x7f &&& UInt8.ofNat k).toNat = k := by decide

theorem two_toNat : ∀ k < 64, ((0x80 ||| UInt8.ofNat k) &&& 0x3f).toNat = k := by decide

theorem three_toNat : ∀ k < 64, ((0xC0 ||| UInt8.ofNat k) &&& 0x3f).toNat = k := by decide

theorem headlen_decompress {n : ℕ} (h : n ≤ 0x3fffff) {f : ℕ → UInt8}
    (hf : slice f 0 (compressLen n) = lenCells n) :
    ringbufHeadlenDecompress (compressLen n) f = n := by
  have hf' : ∀ i < compressLen n, f i = (ringbufHeadlenCompress n).2 i := by
    intro i hi
    have := congrArg (fun l => l[i]?) hf
    simpa [lenCells, slice, hi] using this
  unfold ringbufHeadlenDecompress
  unfold ringbufHeadlenCompress compressLen beByte at hf'
  unfold compressLen
  by_cases h₁ : n ≤ 0x7f
  · have h0 : f 0 = (0x7f : UInt8) &&& UInt8.ofNat n := by simpa [h₁] using hf' 0 (by simp [h₁])
    simp only [h₁, if_true, memcpy]
    simp [h0]
    exact one_toNat n (by omega)
  · by_cases h₂ : n ≤ 0x3fff
    · have h0 : f 0 = (0x80 : UInt8) ||| UInt8.ofNat (n >>> 8) := by
        simpa [h₁, h₂] using hf' 0 (by simp [h₁, h₂])
      have h1 : f 1 = UInt8.ofNat n := by simpa [h₁, h₂] using hf' 1 (by simp [h₁, h₂])
      have ht := two_toNat (n >>> 8) (by rw [Nat.shiftRight_eq_div_pow]; omega)
      simp only [h₁, h₂, if_true, if_false, memcpy]
      simp [h0, h1] at ht ⊢
      rw [ht, Nat.shiftRight_eq_div_pow, Nat.shiftLeft_eq]
      omega
    · have h0 : f 0 = (0xC0 : UInt8) ||| UInt8.ofNat (n >>> 16) := by
        simpa [h₁, h₂, h] using hf' 0 (by simp [h₁, h₂, h])
      have h1 : f 1 = UInt8.ofNat (n >>> 8) := by
        simpa [h₁, h₂, h] using hf' 1 (by simp [h₁, h₂, h])
      have h2 : f 2 = UInt8.ofNat n := by simpa [h₁, h₂, h] using hf' 2 (by simp [h₁, h₂, h])
      have ht := three_toNat (n >>> 16) (by rw [Nat.shiftRight_eq_div_pow]; omega)
      simp only [h₁, h₂, h, if_true, if_false, memcpy]
      simp [h0, h1, h2] at ht ⊢
      rw [ht]
      simp only [Nat.shiftRight_eq_div_pow, Nat.shiftLeft_eq]
      omega

/-! ## The abstract queue -/

/-- A message of a dynamic ring: its bytes are `slice data 0 len`. -/
structure DynMsg where
  data : ℕ → UInt8
  len : ℕ
  len_pos : 1 ≤ len
  len_le : len ≤ 0x3fffff

/-- What a caller does with a dynamic ring. -/
inductive DynOp where
  | push (msg : DynMsg)
  | pop (pdata : ℕ → UInt8)
  | reset

/-- The space a message takes: its length bytes and its payload. -/
def msgCost (m : List UInt8) : ℕ := compressLen m.length + m.length

/-- The space the messages of a queue take. -/
def queueCost (q : List (List UInt8)) : ℕ := (q.map msgCost).sum

theorem queueCost_eq_zero {q : List (List UInt8)} : queueCost q = 0 ↔ q = [] := by
  cases q with
  | nil => simp [queueCost]
  | cons m q =>
    have := compressLen_pos m.length
    simp only [queueCost, msgCost, List.map_cons, List.sum_cons, reduceCtorEq, iff_false]
    omega

/-- The abstract FIFO with space for `N` bytes: a push is accepted when the
    message fits, a pop returns the oldest message. -/
def fifoStep (N : ℕ) (q : List (List UInt8)) : DynOp → List (List UInt8) × KStat × Option (List UInt8)
  | .push msg =>
    if queueCost q + max 2 (compressLen msg.len + msg.len) ≤ N then
      (q ++ [slice msg.data 0 msg.len], .success, none)
    else (q, .ringbufFull, none)
  | .pop _ =>
    match q with
    | [] => ([], .ringbufEmpty, none)
    | m :: q => (q, .success, some m)
  | .reset => ([], .success, none)

/-- The same operations on the ring; a pop yields the bytes it stored at
    `pdata`, as many as it reported. -/
def ringStep (r : Ringbuf) : DynOp → Ringbuf × KStat × Option (List UInt8)
  | .push msg => let p := ringbufPush r msg.data msg.len; (p.2, p.1, none)
  | .pop pdata => let p := ringbufPop r pdata; (p.ring, p.stat, p.plen.map (slice p.pdata 0))
  | .reset => (ringbufReset r, .success, none)

/-! ## The ring stores a queue -/

/-- The bytes of a message on the ring. -/
def encodeMsg (m : List UInt8) : List UInt8 := lenCells m.length ++ m

theorem encodeMsg_length (m : List UInt8) : (encodeMsg m).length = msgCost m := by
  simp [encodeMsg, msgCost]

/-- The ring at `buf` with `N` bytes stores the messages `q`, which may be empty. -/
structure Stores (buf N : ℕ) (r : Ringbuf) (q : List (List UInt8)) : Prop where
  type : r.type = .dyn
  buf_eq : r.buf = buf
  end_eq : r.end_ = buf + N
  holds : r.Holds (q.flatMap encodeMsg)
  valid : ∀ m ∈ q, m.length ≤ 0x3fffff

/-- The ring at `buf` with `N` bytes stores the messages `q`. -/
structure Queues (buf N : ℕ) (r : Ringbuf) (q : List (List UInt8)) : Prop where
  type : r.type = .dyn
  buf_eq : r.buf = buf
  end_eq : r.end_ = buf + N
  holds : r.Holds (q.flatMap encodeMsg)
  valid : ∀ m ∈ q, 1 ≤ m.length ∧ m.length ≤ 0x3fffff

variable {buf N : ℕ} {r : Ringbuf} {q : List (List UInt8)}

theorem flatMap_encode_length (q : List (List UInt8)) :
    (q.flatMap encodeMsg).length = queueCost q := by
  simp [List.length_flatMap, encodeMsg_length, queueCost]

theorem Queues.stores (h : Queues buf N r q) : Stores buf N r q :=
  ⟨h.type, h.buf_eq, h.end_eq, h.holds, fun m hm => (h.valid m hm).2⟩

theorem Stores.queues (h : Stores buf N r q) (hq : ∀ m ∈ q, 1 ≤ m.length) : Queues buf N r q :=
  ⟨h.type, h.buf_eq, h.end_eq, h.holds, fun m hm => ⟨hq m hm, h.valid m hm⟩⟩

theorem Stores.free (h : Stores buf N r q) : r.freesize + queueCost q = N := by
  have := h.holds.free
  rw [flatMap_encode_length, Ringbuf.cap, h.buf_eq, h.end_eq] at this
  omega

theorem Queues.free (h : Queues buf N r q) : r.freesize + queueCost q = N := h.stores.free

theorem queues_reset (ht : r.type = .dyn) (hb : r.buf = buf) (he : r.end_ = buf + N) :
    Queues buf N (ringbufReset r) [] :=
  ⟨ht, hb, he, Ringbuf.holds_reset (by omega), by simp⟩

theorem queues_init (mem : ℕ → UInt8) (buf N blockSize : ℕ) :
    Queues buf N (ringbufInit mem buf N .dyn blockSize) [] :=
  queues_reset rfl rfl rfl

theorem wrapTail_type (r : Ringbuf) : (wrapTail r).type = r.type ∧ (wrapTail r).buf = r.buf ∧
    (wrapTail r).end_ = r.end_ ∧ (wrapTail r).freesize = r.freesize := by
  unfold wrapTail; split_ifs <;> simp

theorem wrapHead_type (r : Ringbuf) : (wrapHead r).type = r.type ∧ (wrapHead r).buf = r.buf ∧
    (wrapHead r).end_ = r.end_ ∧ (wrapHead r).freesize = r.freesize ∧
    (wrapHead r).mem = r.mem := by
  unfold wrapHead; split_ifs <;> simp

theorem ringbufPush_dyn (ht : r.type = .dyn) {data : ℕ → UInt8} {len : ℕ} (hl : len ≤ 0x3fffff)
    (hf : ¬ r.freesize < 2) :
    ringbufPush r data len =
      if r.freesize < compressLen len + len then (.ringbufFull, r)
      else (.success, ringbufPushData (wrapTail (ringbufPushLen (wrapTail r)
        (ringbufHeadlenCompress len).2 (compressLen len))) data len) := by
  have hp := compressLen_pos len
  have hle := compressLen_le hl
  have hc : (ringbufHeadlenCompress len).1 = compressLen len := rfl
  unfold ringbufPush
  generalize ringbufHeadlenCompress len = p at hc ⊢
  obtain ⟨n, c⟩ := p
  obtain rfl : n = compressLen len := hc
  have hnot : ¬ (compressLen len = 0 ∨ compressLen len > ringbufLenMaxSize) := by
    unfold ringbufLenMaxSize; omega
  simp only [ringbufIsFull, ht, hf, hnot, decide_true, decide_false, Bool.and_false, reduceCtorEq,
    Bool.false_and, Bool.or_self, Bool.false_eq_true, if_false]

theorem push_full (h : Queues buf N r q) (data : ℕ → UInt8) {len : ℕ} (hl : len ≤ 0x3fffff)
    (hfull : r.freesize < max 2 (compressLen len + len)) :
    ringbufPush r data len = (.ringbufFull, r) := by
  by_cases hf : r.freesize < 2
  · simp [ringbufPush, ringbufIsFull, h.type, hf]
  · have hp := compressLen_pos len
    rw [ringbufPush_dyn h.type hl hf, if_pos (by omega)]

theorem Stores.push (h : Stores buf N r q) (data : ℕ → UInt8) {len : ℕ} (hf : ¬ r.freesize < 2)
    (hl : len ≤ 0x3fffff) (hfit : compressLen len + len ≤ r.freesize) :
    (ringbufPush r data len).1 = .success ∧
      Stores buf N (ringbufPush r data len).2 (q ++ [slice data 0 len]) := by
  have hp := compressLen_pos len
  have hN : r.buf < r.end_ := by have := h.free; rw [h.buf_eq, h.end_eq]; omega
  rw [ringbufPush_dyn h.type hl hf, if_neg (by omega)]
  refine ⟨rfl, ?_⟩
  -- the length bytes
  obtain ⟨ht1, hb1, he1, hf1⟩ := wrapTail_type r
  have h1 := h.holds.wrapTail
  have hlt1 := Ringbuf.wrapTail_lt hN h.holds.tail_le
  rw [← he1] at hlt1
  rw [Ringbuf.pushLen_eq_wr h1 hlt1 (by omega) hp]
  have h2 :=
    @Ringbuf.Holds.wr _ _ h1 hlt1 (ringbufHeadlenCompress len).2 (compressLen len) (by omega)
  -- the payload
  obtain ⟨ht3, hb3, he3, hf3⟩ :=
    wrapTail_type ((wrapTail r).wr (ringbufHeadlenCompress len).2 (compressLen len))
  have h3 := h2.wrapTail
  have hlt3 := Ringbuf.wrapTail_lt (r := (wrapTail r).wr (ringbufHeadlenCompress len).2
    (compressLen len)) (by simp only [Ringbuf.wr]; omega) h2.tail_le
  rw [← he3] at hlt3
  have hn3 : len ≤ (wrapTail ((wrapTail r).wr (ringbufHeadlenCompress len).2
      (compressLen len))).freesize := by
    rw [hf3]; simp only [Ringbuf.wr]; omega
  rw [Ringbuf.pushData_eq_wr h3 hlt3 hn3]
  refine ⟨?_, ?_, ?_, ?_, ?_⟩
  · simp only [Ringbuf.wr] at ht3 ⊢; rw [ht3, ht1, h.type]
  · simp only [Ringbuf.wr] at hb3 ⊢; rw [hb3, hb1, h.buf_eq]
  · simp only [Ringbuf.wr] at he3 ⊢; rw [he3, he1, h.end_eq]
  · have := @Ringbuf.Holds.wr _ _ h3 hlt3 data len hn3
    simpa [encodeMsg, lenCells, List.append_assoc] using this
  · intro m hm
    rcases List.mem_append.1 hm with hm | hm
    · exact h.valid m hm
    · rw [List.mem_singleton.1 hm, slice_length]; exact hl

theorem push_fits (h : Queues buf N r q) (data : ℕ → UInt8) {len : ℕ} (hl1 : 1 ≤ len)
    (hl : len ≤ 0x3fffff) (hfit : compressLen len + len ≤ r.freesize) :
    (ringbufPush r data len).1 = .success ∧
      Queues buf N (ringbufPush r data len).2 (q ++ [slice data 0 len]) := by
  have hp := compressLen_pos len
  obtain ⟨hs, hq⟩ := h.stores.push data (by omega) hl hfit
  refine ⟨hs, hq.queues fun m hm => ?_⟩
  rcases List.mem_append.1 hm with hm | hm
  · exact (h.valid m hm).1
  · rw [List.mem_singleton.1 hm, slice_length]
    exact hl1

theorem Stores.pop {m : List UInt8} (h : Stores buf N r (m :: q)) (pdata : ℕ → UInt8) :
    (ringbufPop r pdata).stat = .success ∧ (ringbufPop r pdata).plen = some m.length ∧
      slice (ringbufPop r pdata).pdata 0 m.length = m ∧
      Stores buf N (ringbufPop r pdata).ring q := by
  have hm2 := h.valid m (by simp)
  have hp := compressLen_pos m.length
  have hne : (m :: q).flatMap encodeMsg ≠ [] := by
    rw [← List.length_pos_iff, flatMap_encode_length]
    simp [queueCost, msgCost]; omega
  have hfree := h.free
  have hN : r.buf < r.end_ := by
    have := h.holds.free
    have := List.length_pos_iff.2 hne
    unfold Ringbuf.cap at *; omega
  have hne' : ¬ ringbufIsEmpty r = true := fun he => hne (h.holds.isEmpty_iff.1 he)
  obtain ⟨ht1, hb1, he1, hf1, -⟩ := wrapHead_type r
  have h1 := h.holds.wrapHead
  have hlt1 := Ringbuf.wrapHead_lt hN h.holds.head_le
  rw [← he1] at hlt1
  have hsplit : (m :: q).flatMap encodeMsg =
      lenCells m.length ++ (m ++ q.flatMap encodeMsg) := by simp [encodeMsg]
  rw [hsplit] at h1
  -- the byte at the head tells the number of length bytes
  have hrd := h1.rd hlt1
  have hbyte : (wrapHead r).mem (wrapHead r).head = (ringbufHeadlenCompress m.length).2 0 := by
    have hc := congrArg (fun l => l[0]?) hrd.2
    have hbh := h1.buf_le_head
    have hmod : ((wrapHead r).head - (wrapHead r).buf) % (wrapHead r).cap =
        (wrapHead r).head - (wrapHead r).buf := Nat.mod_eq_of_lt (by unfold Ringbuf.cap; omega)
    simp only [circ, lenCells, slice] at hc
    simpa [hp, hmod, show (wrapHead r).buf + ((wrapHead r).head - (wrapHead r).buf) =
      (wrapHead r).head by omega] using hc
  have hlen : lenBytesOf ((wrapHead r).mem (wrapHead r).head) = some (compressLen m.length) := by
    rw [hbyte, lenBytesOf_headlen hm2]
  obtain ⟨hL1, hL2⟩ := Ringbuf.popLen_spec h1 hlt1
    (by rw [← List.length_pos_iff, lenCells_length]; exact hp)
  rw [lenCells_length] at hL1 hL2 hrd
  have hdec := headlen_decompress hm2 hL2
  -- the payload
  have h2 := hrd.1
  obtain ⟨ht3, hb3, he3, hf3, -⟩ := wrapHead_type ((wrapHead r).rd (compressLen m.length))
  have h3 := h2.wrapHead
  have hlt3 := Ringbuf.wrapHead_lt (r := (wrapHead r).rd (compressLen m.length))
    (by simp only [Ringbuf.rd]; omega) h2.head_le
  rw [← he3] at hlt3
  have hf0 : 0 < (wrapHead ((wrapHead r).rd (compressLen m.length))).freesize := by
    rw [hf3]; simp only [Ringbuf.rd]; omega
  obtain ⟨hD1, hD2⟩ := @Ringbuf.popData_spec _ _ _ h3 hlt3 hf0 pdata
  unfold ringbufPop
  simp only [hne', h.type, hlen, hL1, hdec]
  refine ⟨rfl, rfl, hD2, ?_⟩
  change Stores buf N (ringbufPopData _ pdata m.length).1 q
  rw [hD1]
  refine ⟨?_, ?_, ?_, (h3.rd hlt3).1, fun m' hm' => h.valid m' (List.mem_cons_of_mem _ hm')⟩
  · simp only [Ringbuf.rd] at ht3 ⊢; rw [ht3, ht1, h.type]
  · simp only [Ringbuf.rd] at hb3 ⊢; rw [hb3, hb1, h.buf_eq]
  · simp only [Ringbuf.rd] at he3 ⊢; rw [he3, he1, h.end_eq]

theorem pop_cons {m : List UInt8} (h : Queues buf N r (m :: q)) (pdata : ℕ → UInt8) :
    (ringbufPop r pdata).stat = .success ∧ (ringbufPop r pdata).plen = some m.length ∧
      slice (ringbufPop r pdata).pdata 0 m.length = m ∧
      Queues buf N (ringbufPop r pdata).ring q := by
  obtain ⟨hs, hl, hd, hq⟩ := h.stores.pop pdata
  exact ⟨hs, hl, hd, hq.queues fun m' hm' => (h.valid m' (List.mem_cons_of_mem _ hm')).1⟩

theorem Stores.pop_nil (h : Stores buf N r []) (pdata : ℕ → UInt8) :
    ringbufPop r pdata = ⟨.ringbufEmpty, r, pdata, none⟩ := by
  unfold ringbufPop
  rw [if_pos (h.holds.isEmpty_iff.2 rfl)]

theorem pop_nil (h : Queues buf N r []) (pdata : ℕ → UInt8) :
    ringbufPop r pdata = ⟨.ringbufEmpty, r, pdata, none⟩ := h.stores.pop_nil pdata

theorem ringStep_sim (h : Queues buf N r q) (op : DynOp) :
    Queues buf N (ringStep r op).1 (fifoStep N q op).1 ∧
      (ringStep r op).2 = (fifoStep N q op).2 := by
  cases op with
  | push msg =>
    have hfree := h.free
    simp only [ringStep, fifoStep]
    by_cases hfit : queueCost q + max 2 (compressLen msg.len + msg.len) ≤ N
    · obtain ⟨h1, h2⟩ := push_fits h msg.data msg.len_pos msg.len_le (by omega)
      rw [if_pos hfit]; exact ⟨h2, by rw [h1]⟩
    · rw [if_neg hfit, push_full h msg.data msg.len_le (by omega)]; exact ⟨h, rfl⟩
  | pop pdata =>
    simp only [ringStep, fifoStep]
    cases q with
    | nil => rw [pop_nil h]; exact ⟨h, rfl⟩
    | cons m q =>
      obtain ⟨h1, h2, h3, h4⟩ := pop_cons h pdata
      exact ⟨h4, by rw [h1, h2, Option.map_some, h3]⟩
  | reset => exact ⟨queues_reset h.type h.buf_eq h.end_eq, rfl⟩

/-- **The dynamic ring buffer is a FIFO of messages.**  After any operations,
    with any contents of the memory: the answers are those of the FIFO; the
    free space is the capacity minus the space of the stored messages; the
    pointers stay in the buffer; the ring is empty exactly when no message is
    stored; and the next push succeeds exactly when its message fits, and
    changes nothing when it is refused. -/
theorem ringbuf_dyn_fifo (mem : ℕ → UInt8) (buf N blockSize : ℕ) (ops : List DynOp) :
    let ring := runOut ringStep (ringbufInit mem buf N .dyn blockSize) ops
    let fifo := runOut (fifoStep N) [] ops
    ring.2 = fifo.2 ∧
    ring.1.freesize = N - queueCost fifo.1 ∧ queueCost fifo.1 ≤ N ∧
    (buf ≤ ring.1.head ∧ ring.1.head ≤ buf + N) ∧ (buf ≤ ring.1.tail ∧ ring.1.tail ≤ buf + N) ∧
    (ringbufIsEmpty ring.1 = true ↔ fifo.1 = []) ∧
    ∀ msg : DynMsg,
      ((ringbufPush ring.1 msg.data msg.len).1 = .success ↔
        max 2 (compressLen msg.len + msg.len) ≤ ring.1.freesize) ∧
      ((ringbufPush ring.1 msg.data msg.len).1 ≠ .success →
        ringbufPush ring.1 msg.data msg.len = (.ringbufFull, ring.1)) := by
  intro ring fifo
  obtain ⟨h, hout⟩ := runOut_sim (R := Queues buf N) (fun a h => ringStep_sim h a) ops
    (queues_init mem buf N blockSize)
  change Queues buf N ring.1 fifo.1 at h
  have hfree := h.free
  have hb := h.buf_eq
  have he := h.end_eq
  refine ⟨hout, by omega, by omega, ⟨?_, ?_⟩, ⟨?_, ?_⟩, ?_, fun msg => ?_⟩
  · exact hb ▸ h.holds.buf_le_head
  · exact he ▸ h.holds.head_le
  · exact hb ▸ h.holds.buf_le_tail
  · exact he ▸ h.holds.tail_le
  · rw [h.holds.isEmpty_iff, ← List.length_eq_zero_iff, flatMap_encode_length]
    exact queueCost_eq_zero
  · by_cases hfit : max 2 (compressLen msg.len + msg.len) ≤ ring.1.freesize
    · have := push_fits h msg.data msg.len_pos msg.len_le (by omega)
      exact ⟨⟨fun _ => hfit, fun _ => this.1⟩, fun hn => absurd this.1 hn⟩
    · have hfull := push_full h msg.data msg.len_le (by omega)
      exact ⟨⟨fun hs => by simp [ring, hfull] at hs, fun hs => absurd hs hfit⟩, fun _ => hfull⟩

end Rhino
