/-
  The fixed-size ring buffer is a deque of blocks.

  `r.Blocks buf W n q`: the ring at `buf`, made for `n` blocks of `W` bytes,
  stores the blocks `q`, the oldest first.  Head and tail are whole blocks away
  from `buf`, so no copy of `RINGBUF_TYPE_FIX` passes the end.
-/
import AliOS.Rhino.RingbufBytes

namespace Rhino

open Lib

namespace Ringbuf

variable {r : Ringbuf} {bs : List UInt8}

/-! ## Writing at the head -/

theorem Holds.wrFront (h : r.Holds bs) {src : ℕ → UInt8} {n : ℕ} (hb : r.buf + n ≤ r.head)
    (hn : n ≤ r.freesize) :
    ({ r with
        head := r.head - n
        mem := memcpy r.mem (r.head - n) src n
        freesize := r.freesize - n } : Ringbuf).Holds (slice src 0 n ++ bs) := by
  obtain ⟨-, hh, hbt, ht, hf, hm, hc⟩ := h
  unfold cap at hf hm hc
  refine ⟨by simp only; omega, by simp only; omega, hbt, ht, ?_, ?_, ?_⟩
  · simp only [cap, List.length_append, slice_length]; omega
  · simp only [cap, List.length_append, slice_length]
    rw [← hm]; congr 1; omega
  · simp only [cap, List.length_append, slice_length]
    rw [circ_append, show r.head - n - r.buf + n = r.head - r.buf by omega]
    congr 1
    · rw [circ_eq_slice (by omega), show r.buf + (r.head - n - r.buf) = r.head - n by omega,
        slice_memcpy_same]
    · -- the cells stored are `n` or more, and less than the capacity, after the copy's first
      refine Eq.trans (circ_congr fun i hi => memcpy_out ?_) hc
      by_contra hin
      refine circ_off_ne (h := r.head - n - r.buf) (N := r.end_ - r.buf) (k := n + i)
        (i := r.buf + (r.head - r.buf + i) % (r.end_ - r.buf) - (r.head - n)) (by omega)
        (by omega) ?_
      rw [show r.head - n - r.buf + (n + i) = r.head - r.buf + i by omega]
      generalize (r.head - r.buf + i) % (r.end_ - r.buf) = x at hin ⊢
      rw [show r.head - n - r.buf + (r.buf + x - (r.head - n)) = x by omega,
        Nat.mod_eq_of_lt (by omega)]

/-! ## Blocks -/

/-- The ring at `buf`, made for `n` blocks of `W` bytes, stores the blocks `q`. -/
structure Blocks (buf W n : ℕ) (r : Ringbuf) (q : List (List UInt8)) : Prop where
  type : r.type = .fix
  blk : r.blkSize = W
  buf_eq : r.buf = buf
  end_eq : r.end_ = buf + W * n
  holds : r.Holds q.flatten
  head_dvd : W ∣ r.head - buf
  tail_dvd : W ∣ r.tail - buf
  valid : ∀ m ∈ q, m.length = W

variable {buf W n : ℕ} {q : List (List UInt8)}

theorem flatten_length (h : ∀ m ∈ q, m.length = W) : q.flatten.length = W * q.length := by
  induction q with
  | nil => simp
  | cons m q ih =>
    rw [List.flatten_cons, List.length_append, h m (by simp),
      ih fun m' hm' => h m' (List.mem_cons_of_mem _ hm'), List.length_cons, Nat.mul_succ]
    omega

theorem Blocks.free (h : Blocks buf W n r q) : r.freesize + W * q.length = W * n := by
  have := h.holds.free
  rw [flatten_length h.valid, cap, h.buf_eq, h.end_eq] at this
  omega

theorem blocks_init (mem : ℕ → UInt8) (buf W n : ℕ) :
    Blocks buf W n (ringbufInit mem buf (W * n) .fix W) [] :=
  ⟨rfl, rfl, rfl, rfl, holds_reset (by simp), by simp [ringbufInit, ringbufReset],
    by simp [ringbufInit, ringbufReset], by simp⟩

theorem Blocks.reset (h : Blocks buf W n r q) : Blocks buf W n (ringbufReset r) [] :=
  ⟨h.type, h.blk, h.buf_eq, h.end_eq,
    holds_reset (h.holds.buf_le_head.trans h.holds.head_le), by simp [ringbufReset, h.buf_eq],
    by simp [ringbufReset, h.buf_eq], by simp⟩

theorem Blocks.length_le (h : Blocks buf W n r q) (hW : 0 < W) : q.length ≤ n := by
  have := h.free
  exact Nat.le_of_mul_le_mul_left (by omega) hW

theorem Blocks.not_full (h : Blocks buf W n r q) (hlt : q.length < n) :
    ringbufIsFull r = false ∧ W ≤ r.freesize := by
  have hf := h.free
  have := Nat.mul_le_mul_left W (show q.length + 1 ≤ n from hlt)
  rw [Nat.mul_succ] at this
  refine ⟨?_, by omega⟩
  simp [ringbufIsFull, h.type, h.blk]; omega

theorem Blocks.is_full (h : Blocks buf W n r q) (hW : 0 < W) (hq : q.length = n) :
    ringbufIsFull r = true := by
  have hf := h.free
  rw [hq] at hf
  simp [ringbufIsFull, h.type, h.blk]; omega

theorem Blocks.isEmpty_iff (h : Blocks buf W n r q) (hW : 0 < W) :
    ringbufIsEmpty r = true ↔ q = [] := by
  rw [h.holds.isEmpty_iff, ← List.length_eq_zero_iff, flatten_length h.valid,
    ← List.length_eq_zero_iff]
  simp [hW.ne']

theorem dvd_room {N x : ℕ} (hx : W ∣ x) (hN : W ∣ N) (hlt : x < N) : x + W ≤ N := by
  obtain ⟨a, rfl⟩ := hx
  obtain ⟨b, rfl⟩ := hN
  have : a + 1 ≤ b := Nat.lt_of_mul_lt_mul_left hlt
  calc W * a + W = W * (a + 1) := (Nat.mul_succ W a).symm
    _ ≤ W * b := Nat.mul_le_mul_left W this

theorem Blocks.wrapTail (h : Blocks buf W n r q) : Blocks buf W n (Rhino.wrapTail r) q := by
  obtain ⟨h1, h2, h3, h4, h5, h6, h7, h8⟩ := h
  have h5' := h5.wrapTail
  unfold Rhino.wrapTail at h5' ⊢
  split_ifs at h5' ⊢
  · exact ⟨h1, h2, h3, h4, h5', h6, by simp [h3], h8⟩
  · exact ⟨h1, h2, h3, h4, h5, h6, h7, h8⟩

theorem Blocks.wrapHead (h : Blocks buf W n r q) : Blocks buf W n (Rhino.wrapHead r) q := by
  obtain ⟨h1, h2, h3, h4, h5, h6, h7, h8⟩ := h
  have h5' := h5.wrapHead
  unfold Rhino.wrapHead at h5' ⊢
  split_ifs at h5' ⊢
  · exact ⟨h1, h2, h3, h4, h5', by simp [h3], h7, h8⟩
  · exact ⟨h1, h2, h3, h4, h5, h6, h7, h8⟩

theorem Blocks.unwrapHead (h : Blocks buf W n r q) : Blocks buf W n (Rhino.unwrapHead r) q := by
  obtain ⟨h1, h2, h3, h4, h5, h6, h7, h8⟩ := h
  have h5' := h5.unwrapHead
  unfold Rhino.unwrapHead at h5' ⊢
  split_ifs at h5' ⊢
  · refine ⟨h1, h2, h3, h4, h5', ?_, h7, h8⟩
    simp only [h4, Nat.add_sub_cancel_left]; exact Nat.dvd_mul_right W n
  · exact ⟨h1, h2, h3, h4, h5, h6, h7, h8⟩

/-- **Push**: the block goes behind the stored ones, whatever the length given. -/
theorem Blocks.push (h : Blocks buf W n r q) (hW : 0 < W) (hlt : q.length < n)
    (data : ℕ → UInt8) (len : ℕ) :
    (ringbufPush r data len).1 = .success ∧
      Blocks buf W n (ringbufPush r data len).2 (q ++ [slice data 0 W]) := by
  obtain ⟨hnf, -⟩ := h.not_full hlt
  have h1 := h.wrapTail
  obtain ⟨-, hfree⟩ := h1.not_full hlt
  have hN : W ≤ W * n := Nat.le_mul_of_pos_right W (by omega)
  have ht : (Rhino.wrapTail r).tail < (Rhino.wrapTail r).end_ := by
    have := wrapTail_lt (r := r) (by rw [h.buf_eq, h.end_eq]; omega) h.holds.tail_le
    rwa [h1.end_eq, ← h.end_eq]
  have hbt := h1.holds.buf_le_tail
  have hb := h1.buf_eq
  have he := h1.end_eq
  have hroom := dvd_room h1.tail_dvd (Nat.dvd_mul_right W n) (by omega)
  unfold ringbufPush
  simp only [hnf, Bool.false_eq_true, if_false, h.type, h1.blk]
  refine ⟨trivial, h1.type, rfl, hb, he, ?_, h1.head_dvd, ?_, ?_⟩
  · have hw := @Holds.wr _ _ h1.holds ht data W hfree
    have hfit : (Rhino.wrapTail r).tail + W ≤ (Rhino.wrapTail r).end_ := by omega
    have hfit' : (Rhino.wrapTail r).tail - (Rhino.wrapTail r).buf + W ≤
        (Rhino.wrapTail r).cap := by unfold cap; omega
    rw [List.flatten_append, List.flatten_singleton]
    simp only [Ringbuf.wr, circcpy, if_pos hfit, if_pos hfit', h1.blk,
      show (Rhino.wrapTail r).buf + ((Rhino.wrapTail r).tail - (Rhino.wrapTail r).buf) =
        (Rhino.wrapTail r).tail by omega] at hw
    exact hw
  · simp only
    rw [show (Rhino.wrapTail r).tail + W - buf = (Rhino.wrapTail r).tail - buf + W by omega]
    exact Nat.dvd_add h1.tail_dvd (Nat.dvd_refl W)
  · intro m hm
    rcases List.mem_append.1 hm with hm | hm
    · exact h.valid m hm
    · rw [List.mem_singleton.1 hm, slice_length]

/-- **Push to the head**: a block of the whole size goes before the stored ones. -/
theorem Blocks.headPush (h : Blocks buf W n r q) (hW : 0 < W) (hlt : q.length < n)
    (data : ℕ → UInt8) :
    (ringbufHeadPush r data W).1 = .success ∧
      Blocks buf W n (ringbufHeadPush r data W).2 (slice data 0 W :: q) := by
  obtain ⟨hnf, -⟩ := h.not_full hlt
  have h1 := h.unwrapHead
  obtain ⟨-, hfree⟩ := h1.not_full hlt
  have hN : W ≤ W * n := Nat.le_mul_of_pos_right W (by omega)
  have hbh := h1.holds.buf_le_head
  have hb := h1.buf_eq
  have hhb : buf + W ≤ (Rhino.unwrapHead r).head := by
    have hne : 0 < (Rhino.unwrapHead r).head - buf := by
      have := h.buf_eq
      have := h.end_eq
      have := h.holds.buf_le_head
      unfold Rhino.unwrapHead
      split_ifs with hc
      · simp only; omega
      · omega
    have := Nat.le_of_dvd hne h1.head_dvd
    omega
  unfold ringbufHeadPush
  simp only [hnf, Bool.false_eq_true, if_false, h.type]
  refine ⟨trivial, h1.type, h1.blk, hb, h1.end_eq, ?_, ?_, h1.tail_dvd, ?_⟩
  · rw [List.flatten_cons]
    exact h1.holds.wrFront (by omega) hfree
  · simp only
    rw [show (Rhino.unwrapHead r).head - W - buf = (Rhino.unwrapHead r).head - buf - W by omega]
    exact Nat.dvd_sub h1.head_dvd (Nat.dvd_refl W)
  · intro m hm
    rcases List.mem_cons.1 hm with rfl | hm
    · exact slice_length ..
    · exact h.valid m hm

theorem Blocks.pop {m : List UInt8} (h : Blocks buf W n r (m :: q)) (hW : 0 < W)
    (pdata : ℕ → UInt8) :
    (ringbufPop r pdata).stat = .success ∧ (ringbufPop r pdata).plen = some W ∧
      slice (ringbufPop r pdata).pdata 0 W = m ∧ Blocks buf W n (ringbufPop r pdata).ring q := by
  have hne : ¬ ringbufIsEmpty r = true := by rw [h.isEmpty_iff hW]; simp
  have hm : m.length = W := h.valid m (by simp)
  have hn : 0 < n := by
    have := h.length_le hW
    rw [List.length_cons] at this; omega
  have hN : W ≤ W * n := Nat.le_mul_of_pos_right W hn
  have h1 := h.wrapHead
  have hh : (Rhino.wrapHead r).head < (Rhino.wrapHead r).end_ := by
    have := wrapHead_lt (r := r) (by rw [h.buf_eq, h.end_eq]; omega) h.holds.head_le
    rwa [h1.end_eq, ← h.end_eq]
  have hb := h1.buf_eq
  have he := h1.end_eq
  have hbh := h1.holds.buf_le_head
  have hroom := dvd_room h1.head_dvd (Nat.dvd_mul_right W n) (by omega)
  have hholds := h1.holds
  rw [List.flatten_cons] at hholds
  obtain ⟨hr, hc⟩ := hholds.rd hh
  rw [hm] at hr hc
  rw [circ_eq_slice (by unfold cap; omega), show (Rhino.wrapHead r).buf +
    ((Rhino.wrapHead r).head - (Rhino.wrapHead r).buf) = (Rhino.wrapHead r).head by omega] at hc
  unfold ringbufPop
  simp only [hne, h.type, h1.blk, Bool.false_eq_true, if_false]
  refine ⟨trivial, trivial, ?_, h1.type, rfl, hb, he, ?_, ?_, h1.tail_dvd,
    fun m' hm' => h.valid m' (List.mem_cons_of_mem _ hm')⟩
  · rw [slice_one]; exact hc
  · simp only [Ringbuf.rd, show (Rhino.wrapHead r).head + W ≤ (Rhino.wrapHead r).end_ by omega,
      if_true, h1.blk] at hr
    exact hr
  · simp only
    rw [show (Rhino.wrapHead r).head + W - buf = (Rhino.wrapHead r).head - buf + W by omega]
    exact Nat.dvd_add h1.head_dvd (Nat.dvd_refl W)

end Ringbuf

end Rhino
