/-
  Pushing to the head of a dynamic ring buffer.

  `ringbuf_head_push` writes the payload and then the length bytes before the
  head.  Each is a circular copy that ends at the head; but where the payload
  is split at the buffer start, its first bytes go there and the others to the
  buffer end, so the ring stores it rotated.
-/
import AliOS.Rhino.RingbufDyn

namespace Rhino

open Lib

namespace Ringbuf

variable {r : Ringbuf} {bs : List UInt8} {src f g e : ℕ → UInt8} {n : ℕ}

/-! ## Writing before the head -/

/-- Where the head goes when `n` bytes are written before it. -/
def back (r : Ringbuf) (n : ℕ) : ℕ :=
  if n ≤ r.head - r.buf then r.head - n else r.end_ - (n - (r.head - r.buf))

/-- The ring after `n` bytes of `src` are written before the head. -/
def wl (r : Ringbuf) (src : ℕ → UInt8) (n : ℕ) : Ringbuf :=
  { r with
    mem := circcpy r.mem r.buf r.cap (r.back n - r.buf) src n
    head := r.back n
    freesize := r.freesize - n }

/-- A copy of `n` bytes before the head is split at the buffer start. -/
def Splits (r : Ringbuf) (n : ℕ) : Prop :=
  r.head ≤ r.tail ∧ r.head - r.buf < n ∧ r.head - r.buf > 0

instance (r : Ringbuf) (n : ℕ) : Decidable (r.Splits n) := inferInstanceAs (Decidable (_ ∧ _))

theorem Holds.wl (h : r.Holds bs) (hb : r.buf < r.head) (src : ℕ → UInt8) (hn0 : 0 < n)
    (hn : n ≤ r.freesize) : (r.wl src n).Holds (slice src 0 n ++ bs) := by
  obtain ⟨-, hh, hbt, ht, hf, hm, hc⟩ := h
  unfold cap at hf hm hc
  have hback : r.buf ≤ r.back n ∧ r.back n < r.end_ := by
    unfold back
    split_ifs <;> omega
  -- the bytes end at the head
  have hend : (r.back n - r.buf + n) % (r.end_ - r.buf) = (r.head - r.buf) % (r.end_ - r.buf) := by
    unfold back
    split_ifs
    · congr 1
      omega
    · rw [show r.end_ - (n - (r.head - r.buf)) - r.buf + n = r.head - r.buf + (r.end_ - r.buf) by
        omega, Nat.add_mod_right]
  refine ⟨hback.1, hback.2.le, hbt, ht, ?_, ?_, ?_⟩
  · simp only [Ringbuf.wl, cap, List.length_append, slice_length]
    omega
  · simp only [Ringbuf.wl, cap, List.length_append, slice_length]
    rw [← Nat.add_assoc, Nat.add_mod, hend, ← Nat.add_mod, hm]
  · simp only [Ringbuf.wl, cap, List.length_append, slice_length]
    rw [circ_append, circ_circcpy_same (by omega) (by omega),
      circ_circcpy_before (by omega) (by omega), circ_mod hend, hc]

theorem Holds.le_of_not_splits (h : r.Holds bs) (hb : r.buf < r.head) (hn : n ≤ r.freesize)
    (hs : ¬ r.Splits n) : n ≤ r.head - r.buf := by
  have hbt := h.buf_le_tail
  by_cases ht : r.tail < r.head
  · have := h.free_of_tail_lt ht
    omega
  · unfold Splits at hs
    omega

/-- The copy of `ringbuf_head_push` in one or two pieces is a circular copy of
    `src`, where the pieces are those of `src`. -/
theorem Holds.splitBack_eq_wl (h : r.Holds bs) (hb : r.buf < r.head) (hn : n ≤ r.freesize)
    (hg : r.Splits n → ∀ i < n - (r.head - r.buf), g i = src i)
    (hf : r.Splits n → ∀ i < r.head - r.buf, f i = src (n - (r.head - r.buf) + i))
    (he : ¬ r.Splits n → e = src) :
    (if r.Splits n then
      { r with
        mem := memcpy (memcpy r.mem r.buf f (r.head - r.buf)) (r.end_ - (n - (r.head - r.buf))) g
          (n - (r.head - r.buf))
        head := r.end_ - (n - (r.head - r.buf))
        freesize := r.freesize - (r.head - r.buf) - (n - (r.head - r.buf)) }
    else
      { r with
        mem := memcpy r.mem (r.head - n) e n, head := r.head - n, freesize := r.freesize - n }) =
      r.wl src n := by
  have hfr := h.free
  have hh := h.head_le
  unfold cap at hfr
  by_cases hs : r.Splits n
  · obtain ⟨-, hlt, hpos⟩ := id hs
    rw [if_pos hs]
    have hback : r.back n = r.end_ - (n - (r.head - r.buf)) := if_neg (by omega)
    have hoff : r.buf + (r.end_ - (n - (r.head - r.buf)) - r.buf) =
        r.end_ - (n - (r.head - r.buf)) := by omega
    have hlen : r.end_ - r.buf - (r.end_ - (n - (r.head - r.buf)) - r.buf) =
        n - (r.head - r.buf) := by omega
    unfold Ringbuf.wl circcpy cap
    have hf' : ∀ i < r.head - r.buf, f i = from_ src (n - (r.head - r.buf)) i := hf hs
    rw [hback, if_neg (by omega), hoff, hlen, show n - (n - (r.head - r.buf)) = r.head - r.buf by omega,
      memcpy_comm (by omega), memcpy_congr (hg hs), memcpy_congr hf']
    congr 1
    omega
  · have hle := h.le_of_not_splits hb hn hs
    rw [if_neg hs, he hs]
    have hback : r.back n = r.head - n := if_pos hle
    unfold Ringbuf.wl circcpy cap
    rw [hback, if_pos (by omega), show r.buf + (r.head - n - r.buf) = r.head - n by omega]

/-- What the ring stores for the payload `m`: the first piece goes behind the
    others. -/
def stored (r : Ringbuf) (m : List UInt8) : List UInt8 :=
  if r.Splits m.length then m.drop (r.head - r.buf) ++ m.take (r.head - r.buf) else m

theorem stored_length (r : Ringbuf) (m : List UInt8) : (r.stored m).length = m.length := by
  unfold stored
  split_ifs
  · rw [List.length_append, List.length_drop, List.length_take]
    omega
  · rfl

/-- The two pieces of the payload, the other way round. -/
def swapped (data : ℕ → UInt8) (n k : ℕ) : ℕ → UInt8 :=
  fun i => if i < n - k then data (k + i) else data (i - (n - k))

theorem slice_swapped {data : ℕ → UInt8} {k : ℕ} (hk : k ≤ n) :
    slice (swapped data n k) 0 n = (slice data 0 n).drop k ++ (slice data 0 n).take k := by
  have hl : slice data 0 n = slice data 0 k ++ slice data k (n - k) := by
    have := slice_append data 0 k (n - k)
    rwa [Nat.add_sub_cancel' hk, Nat.zero_add] at this
  have hr : slice (swapped data n k) 0 n =
      slice (swapped data n k) 0 (n - k) ++ slice (swapped data n k) (n - k) k := by
    have := slice_append (swapped data n k) 0 (n - k) k
    rwa [Nat.sub_add_cancel hk, Nat.zero_add] at this
  rw [hr, hl, List.drop_left' (slice_length ..), List.take_left' (slice_length ..)]
  congr 1
  · refine slice_congr fun i hi => ?_
    rw [Nat.zero_add]
    exact if_pos hi
  · refine slice_congr fun i _ => ?_
    rw [Nat.zero_add]
    refine (if_neg (by omega)).trans ?_
    congr 1
    omega

theorem Holds.headPushData (h : r.Holds bs) (hb : r.buf < r.head) (data : ℕ → UInt8)
    (hn : n ≤ r.freesize) :
    ∃ src, ringbufHeadPushData r data n = (if n = 0 then r else r.wl src n) ∧
      slice src 0 n = r.stored (slice data 0 n) := by
  refine ⟨if r.Splits n then swapped data n (r.head - r.buf) else data, ?_, ?_⟩
  · by_cases hn0 : n = 0
    · subst hn0
      unfold ringbufHeadPushData
      simp
    · rw [if_neg hn0, ← h.splitBack_eq_wl (f := data) (g := from_ data (r.head - r.buf)) (e := data)
        hb hn (fun hs i hi => ?_) (fun hs i hi => ?_) fun hs => (if_neg hs).symm]
      · unfold ringbufHeadPushData
        by_cases hs : r.Splits n
        · rw [if_pos hs, if_pos (show _ ∧ _ from hs)]
        · rw [if_neg hs, if_neg (show ¬ (_ ∧ _) from hs)]
      · rw [if_pos hs]
        exact (if_pos hi).symm
      · rw [if_pos hs]
        refine ((if_neg (by omega)).trans ?_).symm
        rw [Nat.add_sub_cancel_left]
  · unfold stored
    rw [slice_length]
    split_ifs with hs
    · exact slice_swapped hs.2.1.le
    · rfl

theorem headPushLen_eq_wl (h : r.Holds bs) (hb : r.buf < r.head) {cLen : ℕ → UInt8}
    (hn : n ≤ r.freesize) (hn0 : 0 < n) : ringbufHeadPushLen r cLen n = r.wl cLen n := by
  rw [← h.splitBack_eq_wl (f := from_ cLen (n - (r.head - r.buf))) (g := cLen) (e := cLen) hb hn
    (fun _ _ _ => rfl) (fun _ _ _ => rfl) fun _ => rfl]
  unfold ringbufHeadPushLen
  by_cases hs : r.Splits n
  · rw [if_pos hs, if_pos (show _ ∧ _ from hs)]
    exact if_pos (Nat.sub_pos_of_lt hs.2.1)
  · rw [if_neg hs, if_neg (show ¬ (_ ∧ _) from hs)]
    exact if_pos hn0

theorem unwrapHead_gt (h : r.buf < r.end_) (hh : r.buf ≤ r.head) :
    (Rhino.unwrapHead r).buf < (Rhino.unwrapHead r).head := by
  unfold Rhino.unwrapHead
  split_ifs with he
  · exact h
  · exact lt_of_le_of_ne hh (Ne.symm he)

end Ringbuf

theorem unwrapHead_type (r : Ringbuf) : (unwrapHead r).type = r.type ∧ (unwrapHead r).buf = r.buf ∧
    (unwrapHead r).end_ = r.end_ ∧ (unwrapHead r).freesize = r.freesize := by
  unfold unwrapHead; split_ifs <;> simp

variable {buf N : ℕ} {r : Ringbuf} {q : List (List UInt8)} {data : ℕ → UInt8} {len : ℕ}

/-! ## Pushes to either end -/

theorem ringbufHeadPush_dyn (ht : r.type = .dyn) (hl : len ≤ 0x3fffff) (hf : ¬ r.freesize < 2) :
    ringbufHeadPush r data len =
      if r.freesize < compressLen len + len then (.ringbufFull, r)
      else (.success, ringbufHeadPushLen (unwrapHead (ringbufHeadPushData (unwrapHead r) data len))
        (ringbufHeadlenCompress len).2 (compressLen len)) := by
  have hp := compressLen_pos len
  have hle := compressLen_le hl
  have hc : (ringbufHeadlenCompress len).1 = compressLen len := rfl
  unfold ringbufHeadPush
  generalize ringbufHeadlenCompress len = p at hc ⊢
  obtain ⟨n, c⟩ := p
  obtain rfl : n = compressLen len := hc
  have hnot : ¬ (compressLen len = 0 ∨ compressLen len > ringbufLenMaxSize) := by
    unfold ringbufLenMaxSize
    omega
  simp only [ringbufIsFull, ht, hf, hnot, decide_true, decide_false, Bool.and_false, reduceCtorEq,
    Bool.false_and, Bool.or_self, Bool.false_eq_true, if_false]

theorem Stores.headPush (h : Stores buf N r q) (data : ℕ → UInt8) (hf : ¬ r.freesize < 2)
    (hl : len ≤ 0x3fffff) (hfit : compressLen len + len ≤ r.freesize) :
    (ringbufHeadPush r data len).1 = .success ∧ Stores buf N (ringbufHeadPush r data len).2
      ((unwrapHead r).stored (slice data 0 len) :: q) := by
  have hp := compressLen_pos len
  have hN : r.buf < r.end_ := by
    have := h.free
    rw [h.buf_eq, h.end_eq]
    omega
  rw [ringbufHeadPush_dyn h.type hl hf, if_neg (by omega)]
  refine ⟨rfl, ?_⟩
  -- the payload
  obtain ⟨ht1, hb1, he1, hf1⟩ := unwrapHead_type r
  have h1 := h.holds.unwrapHead
  have hgt1 := Ringbuf.unwrapHead_gt hN h.holds.buf_le_head
  obtain ⟨src, hdata, hsrc⟩ := h1.headPushData hgt1 data (n := len) (by omega)
  set r2 := ringbufHeadPushData (unwrapHead r) data len with hr2
  have h2 : r2.Holds ((unwrapHead r).stored (slice data 0 len) ++ q.flatMap encodeMsg) ∧
      r2.type = r.type ∧ r2.buf = r.buf ∧ r2.end_ = r.end_ ∧ r2.freesize = r.freesize - len := by
    rw [hdata, ← hsrc]
    by_cases hn0 : len = 0
    · subst hn0
      rw [if_pos rfl]
      exact ⟨h1, ht1, hb1, he1, by omega⟩
    · rw [if_neg hn0]
      exact ⟨h1.wl hgt1 src (by omega) (by omega), ht1, hb1, he1, by rw [Ringbuf.wl, hf1]⟩
  obtain ⟨h2, ht2, hb2, he2, hf2⟩ := h2
  -- the length bytes
  obtain ⟨ht3, hb3, he3, hf3⟩ := unwrapHead_type r2
  have h3 := h2.unwrapHead
  have hgt3 := Ringbuf.unwrapHead_gt (r := r2) (by omega) h2.buf_le_head
  rw [Ringbuf.headPushLen_eq_wl h3 hgt3 (by omega) hp]
  refine ⟨ht3.trans (ht2.trans h.type), hb3.trans (hb2.trans h.buf_eq),
    he3.trans (he2.trans h.end_eq), ?_, ?_⟩
  · have hw := h3.wl hgt3 (ringbufHeadlenCompress len).2 hp (by omega)
    rw [List.flatMap_cons, encodeMsg, Ringbuf.stored_length, slice_length, List.append_assoc]
    exact hw
  · intro m hm
    rcases List.mem_cons.1 hm with rfl | hm
    · rw [Ringbuf.stored_length, slice_length]
      exact hl
    · exact h.valid m hm

theorem push_refused (ht : r.type = .dyn)
    (hno : r.freesize < 2 ∨ 0x3fffff < len ∨ r.freesize < compressLen len + len) :
    ((ringbufPush r data len).1 ≠ .success ∧ (ringbufPush r data len).2 = r) ∧
      (ringbufHeadPush r data len).1 ≠ .success ∧ (ringbufHeadPush r data len).2 = r := by
  by_cases hf : r.freesize < 2
  · simp [ringbufPush, ringbufHeadPush, ringbufIsFull, ht, hf]
  by_cases hl : len ≤ 0x3fffff
  · have hfull : r.freesize < compressLen len + len := by omega
    rw [ringbufPush_dyn ht hl hf, ringbufHeadPush_dyn ht hl hf, if_pos hfull, if_pos hfull]
    simp
  · have h1 : compressLen len = 5 := by
      unfold compressLen
      split_ifs <;> omega
    simp [ringbufPush, ringbufHeadPush, ringbufIsFull, ringbufHeadlenCompress, ht, hf, h1,
      ringbufLenMaxSize]

/-- What is done with the ring. -/
inductive HeadOp where
  | push (data : ℕ → UInt8) (len : ℕ)
  | headPush (data : ℕ → UInt8) (len : ℕ)
  | pop (pdata : ℕ → UInt8)

def headStep (r : Ringbuf) : HeadOp → Ringbuf
  | .push data len => (ringbufPush r data len).2
  | .headPush data len => (ringbufHeadPush r data len).2
  | .pop pdata => (ringbufPop r pdata).ring

theorem Stores.step (h : Stores buf N r q) (op : HeadOp) : ∃ q', Stores buf N (headStep r op) q' := by
  cases op with
  | push data len =>
    by_cases hno : r.freesize < 2 ∨ 0x3fffff < len ∨ r.freesize < compressLen len + len
    · exact ⟨q, by rw [headStep, (push_refused h.type hno).1.2]; exact h⟩
    · exact ⟨_, (h.push data (by omega) (by omega) (by omega)).2⟩
  | headPush data len =>
    by_cases hno : r.freesize < 2 ∨ 0x3fffff < len ∨ r.freesize < compressLen len + len
    · exact ⟨q, by rw [headStep, (push_refused h.type hno).2.2]; exact h⟩
    · exact ⟨_, (h.headPush data (by omega) (by omega) (by omega)).2⟩
  | pop pdata =>
    cases q with
    | nil => exact ⟨[], by rw [headStep, h.pop_nil]; exact h⟩
    | cons m q => exact ⟨q, (h.pop pdata).2.2.2⟩

theorem Stores.run (h : Stores buf N r q) (ops : List HeadOp) :
    ∃ q', Stores buf N (ops.foldl headStep r) q' := by
  induction ops generalizing r q with
  | nil => exact ⟨q, h⟩
  | cons op ops ih =>
    obtain ⟨q', h'⟩ := h.step op
    exact ih h'

/-! ## Push-front, then pop -/

/-- The messages that pops give back, `fuel` at most. -/
def popAll : ℕ → Ringbuf → List (List UInt8)
  | 0, _ => []
  | fuel + 1, r =>
    let p := ringbufPop r fun _ => 0
    match p.plen with
    | none => []
    | some len => slice p.pdata 0 len :: popAll fuel p.ring

/-- The messages in the ring; each takes a byte at least. -/
def messages (r : Ringbuf) : List (List UInt8) := popAll (r.end_ - r.buf) r

theorem Stores.popAll (h : Stores buf N r q) {fuel : ℕ} (hf : q.length ≤ fuel) :
    Rhino.popAll fuel r = q := by
  induction fuel generalizing r q with
  | zero => rw [List.length_eq_zero_iff.1 (Nat.le_zero.1 hf), Rhino.popAll]
  | succ fuel ih =>
    cases q with
    | nil => rw [Rhino.popAll, h.pop_nil]
    | cons m q =>
      obtain ⟨-, hl, hd, hq⟩ := h.pop fun _ => 0
      rw [Rhino.popAll]
      simp only [hl, hd]
      rw [ih hq (Nat.le_of_succ_le_succ hf)]

theorem length_le_queueCost (q : List (List UInt8)) : q.length ≤ queueCost q := by
  induction q with
  | nil => exact Nat.zero_le _
  | cons m q ih =>
    have := compressLen_pos m.length
    simp only [queueCost, msgCost, List.map_cons, List.sum_cons, List.length_cons] at ih ⊢
    omega

theorem Stores.messages (h : Stores buf N r q) : Rhino.messages r = q := by
  refine h.popAll ?_
  have := h.free
  have := length_le_queueCost q
  rw [h.buf_eq, h.end_eq]
  omega

/-- The pop after a head push of `msg` gives `msg` back, and leaves the messages
    that were in the ring. -/
def HeadPushPops (r : Ringbuf) (msg : DynMsg) : Prop :=
  ∀ pdata, let p := ringbufPop (ringbufHeadPush r msg.data msg.len).2 pdata
    p.stat = .success ∧ p.plen = some msg.len ∧
      slice p.pdata 0 msg.len = slice msg.data 0 msg.len ∧ messages p.ring = messages r

/-- The payload is not split at the buffer start, or is the same with its two
    pieces swapped. -/
def Unswapped (r : Ringbuf) (msg : DynMsg) : Prop :=
  let m := slice msg.data 0 msg.len
  let k := (unwrapHead r).head - r.buf
  ¬ (unwrapHead r).Splits msg.len ∨ m.drop k ++ m.take k = m

/-- **Push-front, then pop**: in every ring that pushes to either end and pops
    lead to, an accepted head push is undone by the next pop exactly when the
    payload is not split, or the same with its pieces swapped. -/
theorem headPushPops_iff (mem : ℕ → UInt8) (buf N blockSize : ℕ) (ops : List HeadOp) (msg : DynMsg)
    (hs : (ringbufHeadPush (ops.foldl headStep (ringbufInit mem buf N .dyn blockSize))
      msg.data msg.len).1 = .success) :
    HeadPushPops (ops.foldl headStep (ringbufInit mem buf N .dyn blockSize)) msg ↔
      Unswapped (ops.foldl headStep (ringbufInit mem buf N .dyn blockSize)) msg := by
  obtain ⟨q, h⟩ := (queues_init mem buf N blockSize).stores.run ops
  generalize ops.foldl headStep (ringbufInit mem buf N .dyn blockSize) = r at hs h ⊢
  have hno : ¬ (r.freesize < 2 ∨ 0x3fffff < msg.len ∨ r.freesize < compressLen msg.len + msg.len) :=
    fun hno => (push_refused h.type hno).2.1 hs
  obtain ⟨-, hq⟩ := h.headPush msg.data (by omega) msg.len_le (by omega)
  have hlen : ((unwrapHead r).stored (slice msg.data 0 msg.len)).length = msg.len := by
    rw [Ringbuf.stored_length, slice_length]
  have hiff : Unswapped r msg ↔
      (unwrapHead r).stored (slice msg.data 0 msg.len) = slice msg.data 0 msg.len := by
    unfold Unswapped Ringbuf.stored
    rw [slice_length, (unwrapHead_type r).2.1]
    split_ifs with hsp
    · simp [hsp]
    · simp [hsp]
  rw [hiff]
  constructor
  · intro hp
    have hd := (hp fun _ => 0).2.2.1
    have hpop := (hq.pop fun _ => 0).2.2.1
    rw [hlen] at hpop
    exact hpop.symm.trans hd
  · intro he pdata
    obtain ⟨hst, hpl, hd, hrest⟩ := hq.pop pdata
    rw [hlen] at hpl hd
    exact ⟨hst, hpl, hd.trans he, by rw [hrest.messages, h.messages]⟩

/-- The message `1, 2, 3, 4`. -/
def msgFour : DynMsg := ⟨fun i => UInt8.ofNat (i + 1), 4, by decide, by decide⟩

theorem headPushPops_iff_fresh :
    HeadPushPops (ringbufInit (fun _ => 0) 0 8 .dyn 0) msgFour :=
  (headPushPops_iff (fun _ => 0) 0 8 0 [] msgFour (by decide)).2 (.inl (by decide))

/-- **A payload out of order**: with the head two bytes behind the buffer start,
    the message `1, 2, 3, 4` comes back as `3, 4, 1, 2`. -/
theorem headPush_swapped :
    let r := [HeadOp.push (fun _ => 0) 1, .pop fun _ => 0].foldl headStep
      (ringbufInit (fun _ => 0) 0 8 .dyn 0)
    (ringbufHeadPush r msgFour.data 4).1 = .success ∧
      slice (ringbufPop (ringbufHeadPush r msgFour.data 4).2 fun _ => 0).pdata 0 4 = [3, 4, 1, 2] ∧
      ¬ HeadPushPops r msgFour := by
  intro r
  have hpop : slice (ringbufPop (ringbufHeadPush r msgFour.data 4).2 fun _ => 0).pdata 0 4 =
      [3, 4, 1, 2] := by decide +kernel
  refine ⟨by decide +kernel, hpop, fun hp => ?_⟩
  have hd := (hp fun _ => 0).2.2.1
  exact absurd (hpop.symm.trans hd) (by decide)

end Rhino
