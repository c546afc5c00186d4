/-
  The ring buffer as a circular queue of bytes.

  `r.Holds bs`: the ring stores the bytes `bs`, from its head to its tail.
  The pointers compare `head = buf` and `head = end` as different although
  they name one place, so a full and an empty ring agree up to `freesize`; the
  lemmas below show that each copy of `ringbuf_push` and `ringbuf_pop` is a
  circular copy of the whole piece, wherever the wrap falls.
-/
import AliOS.Rhino.Ringbuf

namespace Rhino

open Lib

namespace Ringbuf

/-- The number of bytes of the buffer. -/
def cap (r : Ringbuf) : ℕ := r.end_ - r.buf

/-- The ring stores the bytes `bs`. -/
structure Holds (r : Ringbuf) (bs : List UInt8) : Prop where
  buf_le_head : r.buf ≤ r.head
  head_le : r.head ≤ r.end_
  buf_le_tail : r.buf ≤ r.tail
  tail_le : r.tail ≤ r.end_
  free : r.freesize + bs.length = r.cap
  tail_mod : (r.head - r.buf + bs.length) % r.cap = (r.tail - r.buf) % r.cap
  cells : circ r.mem r.buf r.cap (r.head - r.buf) bs.length = bs

variable {r : Ringbuf} {bs : List UInt8}

theorem Holds.isEmpty_iff (h : r.Holds bs) : ringbufIsEmpty r = true ↔ bs = [] := by
  have := h.free
  unfold cap at this
  simp only [ringbufIsEmpty, decide_eq_true_eq]
  constructor
  · intro he; exact List.length_eq_zero_iff.1 (by omega)
  · rintro rfl; simpa using this

theorem holds_reset (h : r.buf ≤ r.end_) : (ringbufReset r).Holds [] :=
  ⟨le_rfl, h, le_rfl, h, by simp [ringbufReset, cap], by simp [ringbufReset], by simp⟩

theorem Holds.wrapTail (h : r.Holds bs) : (wrapTail r).Holds bs := by
  unfold Rhino.wrapTail
  split_ifs with he
  · have hle := h.buf_le_head.trans h.head_le
    refine ⟨h.buf_le_head, h.head_le, le_rfl, hle, h.free, ?_, h.cells⟩
    have := h.tail_mod
    simp only [he, cap] at this ⊢
    rw [this]; simp
  · exact h

theorem Holds.wrapHead (h : r.Holds bs) : (wrapHead r).Holds bs := by
  unfold Rhino.wrapHead
  split_ifs with he
  · have hle := h.buf_le_head.trans h.head_le
    refine ⟨le_rfl, hle, h.buf_le_tail, h.tail_le, h.free, ?_, ?_⟩
    · have := h.tail_mod
      simp only [he, cap] at this ⊢
      rw [← this]; simp
    · have := h.cells
      simp only [he, cap] at this ⊢
      rw [circ_mod (q := r.end_ - r.buf) (by simp)]; exact this
  · exact h

theorem Holds.unwrapHead (h : r.Holds bs) : (unwrapHead r).Holds bs := by
  unfold Rhino.unwrapHead
  split_ifs with he
  · have hle := h.buf_le_head.trans h.head_le
    refine ⟨hle, le_rfl, h.buf_le_tail, h.tail_le, h.free, ?_, ?_⟩
    · have := h.tail_mod
      simp only [he, cap, Nat.sub_self, Nat.zero_add] at this ⊢
      rw [Nat.add_mod_left, this]
    · have := h.cells
      simp only [he, cap] at this ⊢
      rw [circ_mod (q := r.buf - r.buf) (by simp)]; exact this
  · exact h

theorem wrapTail_lt (h : r.buf < r.end_) (ht : r.tail ≤ r.end_) :
    (Rhino.wrapTail r).tail < r.end_ := by
  unfold Rhino.wrapTail
  split_ifs with he
  · exact h
  · exact lt_of_le_of_ne ht he

theorem wrapHead_lt (h : r.buf < r.end_) (hh : r.head ≤ r.end_) :
    (Rhino.wrapHead r).head < r.end_ := by
  unfold Rhino.wrapHead
  split_ifs with he
  · exact h
  · exact lt_of_le_of_ne hh he

/-! ## Writing at the tail -/

/-- The ring after `n` bytes of `src` are written at the tail. -/
def wr (r : Ringbuf) (src : ℕ → UInt8) (n : ℕ) : Ringbuf :=
  { r with
    mem := circcpy r.mem r.buf r.cap (r.tail - r.buf) src n
    tail := if r.tail + n ≤ r.end_ then r.tail + n else r.buf + (n - (r.end_ - r.tail))
    freesize := r.freesize - n }

theorem Holds.wr (h : r.Holds bs) (ht : r.tail < r.end_) {src : ℕ → UInt8} {n : ℕ}
    (hn : n ≤ r.freesize) : (r.wr src n).Holds (bs ++ slice src 0 n) := by
  obtain ⟨hb, hh, hbt, -, hf, hm, hc⟩ := h
  unfold cap at hf hm hc
  have ht2 : (r.tail - r.buf) % (r.end_ - r.buf) = r.tail - r.buf :=
    Nat.mod_eq_of_lt (by omega)
  refine ⟨hb, hh, ?_, ?_, ?_, ?_, ?_⟩
  · simp only [Ringbuf.wr]; split_ifs <;> omega
  · simp only [Ringbuf.wr]; split_ifs <;> omega
  · simp only [Ringbuf.wr, cap, List.length_append, slice_length]; omega
  · simp only [Ringbuf.wr, cap, List.length_append, slice_length]
    rw [← Nat.add_assoc, Nat.add_mod, hm, ← Nat.add_mod]
    split_ifs with hw
    · congr 1; omega
    · rw [show r.tail - r.buf + n = r.buf + (n - (r.end_ - r.tail)) - r.buf + (r.end_ - r.buf) by
        omega, Nat.add_mod_right]
  · simp only [Ringbuf.wr, cap, List.length_append, slice_length]
    rw [circ_append, circ_circcpy_behind (by omega) (hm.trans ht2) (by omega), hc,
      circ_mod (hm.trans rfl), circ_circcpy_same (by omega) (by omega)]

theorem Holds.free_of_tail_lt (h : r.Holds bs) (ht : r.tail < r.head) :
    r.freesize ≤ r.head - r.tail := by
  obtain ⟨hb, -, hbt, -, hfr, hm, -⟩ := h
  unfold cap at hfr hm
  by_contra hc
  have h1 : r.head - r.buf + bs.length < (r.tail - r.buf) + (r.end_ - r.buf) := by omega
  have h2 : r.tail - r.buf < r.head - r.buf + bs.length := by omega
  exact circ_off_ne (h := 0) (N := r.end_ - r.buf) h2 (by omega) (by simpa using hm.symm)

theorem Holds.split_eq_wr (h : r.Holds bs) (ht : r.tail < r.end_) {src : ℕ → UInt8} {n : ℕ}
    (hn : n ≤ r.freesize) :
    (if r.tail ≥ r.head ∧ r.end_ - r.tail < n ∧ r.end_ - r.tail > 0 then
      { r with
        mem := memcpy (memcpy r.mem r.tail src (r.end_ - r.tail)) r.buf
          (from_ src (r.end_ - r.tail)) (n - (r.end_ - r.tail))
        tail := r.buf + (n - (r.end_ - r.tail))
        freesize := r.freesize - (r.end_ - r.tail) - (n - (r.end_ - r.tail)) }
    else
      { r with
        mem := memcpy r.mem r.tail src n, tail := r.tail + n, freesize := r.freesize - n }) =
      r.wr src n := by
  have hbt := h.buf_le_tail
  have hN : r.buf + (r.tail - r.buf) = r.tail := by omega
  have hN' : r.cap - (r.tail - r.buf) = r.end_ - r.tail := by unfold cap; omega
  have hcap : r.tail - r.buf + n ≤ r.cap ↔ r.tail + n ≤ r.end_ := by unfold cap; omega
  unfold Ringbuf.wr circcpy
  simp only [hN, hN', hcap]
  by_cases hfit : r.tail + n ≤ r.end_
  · rw [if_neg (by omega), if_pos hfit, if_pos hfit]
  · -- past the end: the free bytes are in two pieces, so the tail is not before the head
    have hth : r.tail ≥ r.head := by
      by_contra hlt
      have := h.free_of_tail_lt (by omega)
      have := h.head_le
      omega
    rw [if_pos ⟨hth, by omega, by omega⟩, if_neg hfit, if_neg hfit]
    congr 1; omega

theorem pushLen_eq_wr (h : r.Holds bs) (ht : r.tail < r.end_) {cLen : ℕ → UInt8} {n : ℕ}
    (hn : n ≤ r.freesize) (hn0 : 0 < n) : ringbufPushLen r cLen n = r.wr cLen n := by
  rw [← h.split_eq_wr ht hn]
  unfold ringbufPushLen
  split_ifs with h1
  · simp only [gt_iff_lt, show 0 < n - (r.end_ - r.tail) by omega, if_true]
  · have : from_ cLen 0 = cLen := funext fun i => by simp [from_]
    simp only [gt_iff_lt, hn0, if_true, this]

theorem pushData_eq_wr (h : r.Holds bs) (ht : r.tail < r.end_) {data : ℕ → UInt8} {n : ℕ}
    (hn : n ≤ r.freesize) : ringbufPushData r data n = r.wr data n := by
  rw [← h.split_eq_wr ht hn]
  unfold ringbufPushData
  split_ifs with h1 <;> rfl

/-! ## Reading at the head -/

/-- The ring after `n` bytes are read at the head. -/
def rd (r : Ringbuf) (n : ℕ) : Ringbuf :=
  { r with
    head := if r.head + n ≤ r.end_ then r.head + n else r.buf + (n - (r.end_ - r.head))
    freesize := r.freesize + n }

theorem Holds.rd {xs : List UInt8} (h : r.Holds (xs ++ bs)) (hh' : r.head < r.end_) :
    (r.rd xs.length).Holds bs ∧
      circ r.mem r.buf r.cap (r.head - r.buf) xs.length = xs := by
  obtain ⟨hb, -, hbt, ht', hf, hm, hc⟩ := h
  rw [List.length_append] at hf hm hc
  rw [circ_append] at hc
  obtain ⟨hc1, hc2⟩ := List.append_inj hc (by simp)
  unfold cap at hf hm
  have hoff : (r.head - r.buf + xs.length) % (r.end_ - r.buf) =
      ((r.rd xs.length).head - r.buf) % (r.end_ - r.buf) := by
    simp only [Ringbuf.rd]
    split_ifs with hw
    · congr 1; omega
    · rw [show r.head - r.buf + xs.length =
        r.buf + (xs.length - (r.end_ - r.head)) - r.buf + (r.end_ - r.buf) by omega,
        Nat.add_mod_right]
  refine ⟨⟨?_, ?_, hbt, ht', ?_, ?_, ?_⟩, hc1⟩
  · simp only [Ringbuf.rd]; split_ifs <;> omega
  · simp only [Ringbuf.rd]; split_ifs <;> omega
  · simp only [Ringbuf.rd, cap]; omega
  · change ((r.rd xs.length).head - r.buf + bs.length) % (r.end_ - r.buf) =
      (r.tail - r.buf) % (r.end_ - r.buf)
    rw [Nat.add_mod, ← hoff, ← Nat.add_mod, ← hm, Nat.add_assoc]
  · change circ r.mem r.buf (r.end_ - r.buf) ((r.rd xs.length).head - r.buf) bs.length = bs
    rw [circ_mod hoff.symm]; exact hc2

theorem slice_two {m dst : ℕ → UInt8} {a k b n : ℕ} (hk : k ≤ n) :
    slice (memcpy (memcpy dst 0 (from_ m a) k) k (from_ m b) (n - k)) 0 n =
      slice m a k ++ slice m b (n - k) := by
  obtain ⟨j, rfl⟩ : ∃ j, n = k + j := ⟨n - k, by omega⟩
  rw [Nat.add_sub_cancel_left, slice_append, slice_memcpy_disjoint (by omega), slice_memcpy_same,
    Nat.zero_add, slice_memcpy_same]
  congr 1 <;> exact slice_congr fun i _ => by simp [from_]

theorem slice_one {m dst : ℕ → UInt8} {a n : ℕ} :
    slice (memcpy dst 0 (from_ m a) n) 0 n = slice m a n := by
  rw [slice_memcpy_same]; exact slice_congr fun i _ => by simp [from_]

/-- Reading the length bytes: the ring moves on by `n`, and the bytes read are
    the first `n` stored. -/
theorem popLen_spec {xs : List UInt8} (h : r.Holds (xs ++ bs)) (hh : r.head < r.end_)
    (hx : xs ≠ []) :
    (ringbufPopLen r xs.length).1 = r.rd xs.length ∧
      slice (ringbufPopLen r xs.length).2 0 xs.length = xs := by
  have hx0 : 0 < xs.length := List.length_pos_iff.2 hx
  have hc := (h.rd hh).2
  have hb := h.buf_le_head
  have hf := h.free
  rw [List.length_append] at hf
  unfold cap at hf hc
  unfold ringbufPopLen Ringbuf.rd
  by_cases hs : r.end_ - r.head < xs.length ∧ r.end_ - r.head > 0
  · simp only [hs, and_self, if_true, gt_iff_lt,
      show 0 < xs.length - (r.end_ - r.head) by omega]
    refine ⟨?_, ?_⟩
    · rw [if_neg (by omega)]; congr 1; omega
    · rw [slice_two (by omega)]
      rw [circ_eq_slice_append (by omega) (by omega) (by omega)] at hc
      rw [show r.buf + (r.head - r.buf) = r.head by omega,
        show r.end_ - r.buf - (r.head - r.buf) = r.end_ - r.head by omega] at hc
      exact hc
  · simp only [hs, if_false, Nat.sub_zero, gt_iff_lt, hx0, if_true]
    refine ⟨?_, ?_⟩
    · rw [if_pos (by omega)]
    · rw [slice_one]
      rw [circ_eq_slice (by omega), show r.buf + (r.head - r.buf) = r.head by omega] at hc
      exact hc

/-- Where the head is not behind the tail and the ring is not full, the bytes
    stored are in one piece. -/
theorem Holds.stored_of_head_le (h : r.Holds bs) (ht : r.head ≤ r.tail)
    (hf0 : 0 < r.freesize) : bs.length ≤ r.tail - r.head := by
  obtain ⟨hb, -, hbt, -, hfr, hm, -⟩ := h
  unfold cap at hfr hm
  by_contra hc
  have h1 : r.tail - r.buf < r.head - r.buf + bs.length := by omega
  exact circ_off_ne (h := 0) (N := r.end_ - r.buf) h1 (by omega) (by simpa using hm.symm)

theorem popData_spec {xs : List UInt8} (h : r.Holds (xs ++ bs)) (hh : r.head < r.end_)
    (hf0 : 0 < r.freesize) {pdata : ℕ → UInt8} :
    (ringbufPopData r pdata xs.length).1 = r.rd xs.length ∧
      slice (ringbufPopData r pdata xs.length).2 0 xs.length = xs := by
  have hc := (h.rd hh).2
  have hb := h.buf_le_head
  have hf := h.free
  rw [List.length_append] at hf
  unfold cap at hf hc
  unfold ringbufPopData Ringbuf.rd
  by_cases hs : r.head > r.tail ∧ r.end_ - r.head < xs.length
  · simp only [hs, and_self, if_true]
    refine ⟨?_, ?_⟩
    · rw [if_neg (by omega)]; congr 1; omega
    · rw [slice_two (by omega)]
      rw [circ_eq_slice_append (by omega) (by omega) (by omega)] at hc
      rw [show r.buf + (r.head - r.buf) = r.head by omega,
        show r.end_ - r.buf - (r.head - r.buf) = r.end_ - r.head by omega] at hc
      exact hc
  · -- not split: either the payload ends before the end, or head ≤ tail
    have hle : r.head + xs.length ≤ r.end_ := by
      by_cases hht : r.head ≤ r.tail
      · have := h.stored_of_head_le hht hf0
        rw [List.length_append] at this
        have := h.tail_le
        omega
      · omega
    simp only [hs, if_false]
    refine ⟨?_, ?_⟩
    · rw [if_pos hle]
    · rw [slice_one]
      rw [circ_eq_slice (by omega), show r.buf + (r.head - r.buf) = r.head by omega] at hc
      exact hc

end Ringbuf

end Rhino
