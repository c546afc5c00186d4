/-
  The byte fifo of the kernel.

  `KFifo` embeds `struct k_fifo` with the memory its buffer lies in, and
  `fifoInit` .. `fifoOutAll` the functions of `k_fifo.c`.  The counters `in` and
  `out` run freely over their 32 bits and are masked at each copy.  `ByteQueue`
  is the queue of bytes that the fifo is for, and `fifo_refines_queue` shows
  that the fifo answers every run of calls as the queue does.
-/
import AliOS.Lib.Cells
import AliOS.Lib.Trans
import Mathlib.Data.BitVec

namespace Rhino

open Lib

/-- `struct k_fifo`, and the memory that `data` points into. -/
structure KFifo where
  in_ : BitVec 32
  out : BitVec 32
  mask : BitVec 32
  data : ℕ
  freeBytes : BitVec 32
  size : BitVec 32
  mem : ℕ → UInt8

/-! ## The source functions -/

/-- The unused bytes, from the counters. -/
def fifoUnused (f : KFifo) : BitVec 32 := (f.mask + 1) - (f.in_ - f.out)

def isPowerOf2 (n : BitVec 32) : Bool := n ≠ 0 ∧ n &&& (n - 1) = 0

def fifoMin (x y : BitVec 32) : BitVec 32 := if x > y then y else x

/-- `fifo_init`: the status, and the fifo. -/
def fifoInit (f : KFifo) (buffer : ℕ) (size : BitVec 32) : ℤ × KFifo :=
  if ¬ isPowerOf2 size then (1, f)
  else
    let f := { f with in_ := 0, out := 0, data := buffer }
    if size < 2 then (1, { f with mask := 0 })
    else (0, { f with mask := size - 1, freeBytes := size, size := size })

/-- Copy `len` bytes in at the counter `off`, split at the buffer end. -/
def fifoCopyIn (f : KFifo) (src : ℕ → UInt8) (len off : BitVec 32) : KFifo :=
  let size := f.mask + 1
  let off := off &&& f.mask
  let l := fifoMin len (size - off)
  let mem := memcpy f.mem (f.data + off.toNat) src l.toNat
  { f with mem := memcpy mem f.data (from_ src l.toNat) (len - l).toNat }

/-- `fifo_in`: the length stored, and the fifo. -/
def fifoIn (f : KFifo) (buf : ℕ → UInt8) (len : BitVec 32) : BitVec 32 × KFifo :=
  let l := fifoUnused f
  let len := if len > l then l else len
  let f := fifoCopyIn f buf len f.in_
  (len, { f with in_ := f.in_ + len, freeBytes := f.freeBytes - len })

/-- Copy `len` bytes out from the counter `off` on, split at the buffer end. -/
def kfifoCopyOut (f : KFifo) (dst : ℕ → UInt8) (len off : BitVec 32) : ℕ → UInt8 :=
  let size := f.mask + 1
  let off := off &&& f.mask
  let l := fifoMin len (size - off)
  let dst := memcpy dst 0 (from_ f.mem (f.data + off.toNat)) l.toNat
  memcpy dst l.toNat (from_ f.mem f.data) (len - l).toNat

def internalFifoOutPeek (f : KFifo) (buf : ℕ → UInt8) (len : BitVec 32) :
    BitVec 32 × (ℕ → UInt8) :=
  let l := f.in_ - f.out
  let len := if len > l then l else len
  (len, kfifoCopyOut f buf len f.out)

/-- `fifo_out_peek`: the length read, and the caller's buffer. -/
def fifoOutPeek (f : KFifo) (buf : ℕ → UInt8) (len : BitVec 32) : BitVec 32 × (ℕ → UInt8) :=
  internalFifoOutPeek f buf len

/-- `fifo_out`: the length read, the caller's buffer, and the fifo. -/
def fifoOut (f : KFifo) (buf : ℕ → UInt8) (len : BitVec 32) :
    BitVec 32 × (ℕ → UInt8) × KFifo :=
  let (len, buf) := internalFifoOutPeek f buf len
  (len, buf, { f with out := f.out + len, freeBytes := f.freeBytes + len })

def fifoOutAll (f : KFifo) (buf : ℕ → UInt8) : BitVec 32 × (ℕ → UInt8) × KFifo :=
  let len := f.size - f.freeBytes
  if len = 0 then (0, buf, f)
  else
    let (len, buf) := internalFifoOutPeek f buf len
    (len, buf, { f with out := f.out + len, freeBytes := f.freeBytes + len })

/-! ## Runs -/

/-- The calls, each with the caller's buffer. -/
inductive FifoCall
  | in_ (buf : ℕ → UInt8) (len : BitVec 32)
  | out (buf : ℕ → UInt8) (len : BitVec 32)
  | outPeek (buf : ℕ → UInt8) (len : BitVec 32)
  | outAll (buf : ℕ → UInt8)

/-- One call: the fifo, the length returned, and the caller's buffer after it. -/
def KFifo.step (f : KFifo) : FifoCall → KFifo × ℕ × (ℕ → UInt8)
  | .in_ buf len => ((fifoIn f buf len).2, (fifoIn f buf len).1.toNat, buf)
  | .out buf len => let (len, buf, f) := fifoOut f buf len; (f, len.toNat, buf)
  | .outPeek buf len => let (len, buf) := fifoOutPeek f buf len; (f, len.toNat, buf)
  | .outAll buf => let (len, buf, f) := fifoOutAll f buf; (f, len.toNat, buf)

/-- The fifo as `fifo_init` leaves it, with the counters at `c`. -/
def KFifo.ready (mem : ℕ → UInt8) (data : ℕ) (size c : BitVec 32) : KFifo :=
  { in_ := c, out := c, mask := size - 1, data, freeBytes := size, size, mem }

/-! ## The queue of bytes -/

namespace ByteQueue

/-- The oldest `n` bytes of `q`, written to the caller's buffer. -/
def give (buf : ℕ → UInt8) (q : List UInt8) (n : ℕ) : ℕ → UInt8 :=
  memcpy buf 0 (fun i => q.getD i 0) n

/-- One call on a queue of at most `cap` bytes. -/
def step (cap : ℕ) (q : List UInt8) : FifoCall → List UInt8 × ℕ × (ℕ → UInt8)
  | .in_ buf len =>
    let n := min len.toNat (cap - q.length)
    (q ++ slice buf 0 n, n, buf)
  | .out buf len =>
    let n := min len.toNat q.length
    (q.drop n, n, give buf q n)
  | .outPeek buf len =>
    let n := min len.toNat q.length
    (q, n, give buf q n)
  | .outAll buf => ([], q.length, give buf q q.length)

end ByteQueue

/-! ## The fifo holds a queue -/

namespace KFifo

/-- The fifo of `2 ^ n` bytes stores the bytes `q`. -/
structure Holds (n : ℕ) (f : KFifo) (q : List UInt8) : Prop where
  lt : n < 32
  mask : f.mask.toNat = 2 ^ n - 1
  size : f.size.toNat = 2 ^ n
  stored : (f.in_ - f.out).toNat = q.length
  le : q.length ≤ 2 ^ n
  free : f.freeBytes = f.size - (f.in_ - f.out)
  cells : circ f.mem f.data (2 ^ n) f.out.toNat q.length = q

variable {n : ℕ} {f : KFifo} {q : List UInt8}

theorem two_pow_lt (h : n < 32) : 2 ^ n < 2 ^ 32 := Nat.pow_lt_pow_right (by decide) h

theorem two_pow_dvd (h : n < 32) : 2 ^ n ∣ 2 ^ 32 := Nat.pow_dvd_pow 2 h.le

theorem Holds.mask_add_one (h : f.Holds n q) : (f.mask + 1).toNat = 2 ^ n := by
  have hlt := two_pow_lt h.lt
  have hpos := Nat.two_pow_pos n
  have hone : (1 : BitVec 32).toNat = 1 := rfl
  rw [BitVec.toNat_add, h.mask, hone, Nat.sub_add_cancel hpos, Nat.mod_eq_of_lt hlt]

theorem Holds.and_mask (h : f.Holds n q) (c : BitVec 32) : (c &&& f.mask).toNat = c.toNat % 2 ^ n := by
  rw [BitVec.toNat_and, h.mask, Nat.and_two_pow_sub_one_eq_mod]

theorem Holds.add_mod (h : f.Holds n q) (c k : BitVec 32) :
    (c + k).toNat % 2 ^ n = (c.toNat + k.toNat) % 2 ^ n := by
  rw [BitVec.toNat_add, Nat.mod_mod_of_dvd _ (two_pow_dvd h.lt)]

theorem Holds.in_mod (h : f.Holds n q) :
    (f.out.toNat + q.length) % 2 ^ n = f.in_.toNat % 2 ^ n := by
  rw [← h.stored, ← h.add_mod, BitVec.add_comm, BitVec.sub_add_cancel]

theorem Holds.unused (h : f.Holds n q) : (fifoUnused f).toNat = 2 ^ n - q.length := by
  have hle : f.in_ - f.out ≤ f.mask + 1 := by
    rw [BitVec.le_def, h.stored, h.mask_add_one]
    exact h.le
  unfold fifoUnused
  rw [BitVec.toNat_sub_of_le hle, h.mask_add_one, h.stored]

theorem fifoMin_toNat (x y : BitVec 32) : (fifoMin x y).toNat = min x.toNat y.toNat := by
  unfold fifoMin
  split_ifs with hxy
  · rw [gt_iff_lt, BitVec.lt_def] at hxy
    omega
  · rw [gt_iff_lt, BitVec.lt_def] at hxy
    omega

theorem Holds.piece (h : f.Holds n q) (len c : BitVec 32) :
    (fifoMin len (f.mask + 1 - (c &&& f.mask))).toNat =
      min len.toNat (2 ^ n - c.toNat % 2 ^ n) := by
  have hlt := Nat.mod_lt c.toNat (Nat.two_pow_pos n)
  have hle : c &&& f.mask ≤ f.mask + 1 := by
    rw [BitVec.le_def, h.and_mask, h.mask_add_one]
    exact hlt.le
  rw [fifoMin_toNat, BitVec.toNat_sub_of_le hle, h.and_mask, h.mask_add_one]

theorem toNat_sub_fifoMin (len x : BitVec 32) :
    (len - fifoMin len x).toNat = len.toNat - (fifoMin len x).toNat := by
  refine BitVec.toNat_sub_of_le ?_
  rw [BitVec.le_def, fifoMin_toNat]
  exact Nat.min_le_left ..

theorem Holds.copyIn (h : f.Holds n q) (src : ℕ → UInt8) (len c : BitVec 32) :
    fifoCopyIn f src len c =
      { f with mem := circcpy f.mem f.data (2 ^ n) (c.toNat % 2 ^ n) src len.toNat } := by
  have hlt := Nat.mod_lt c.toNat (Nat.two_pow_pos n)
  unfold fifoCopyIn circcpy
  simp only [toNat_sub_fifoMin, h.piece, h.and_mask]
  split_ifs with hend
  · have hmin : min len.toNat (2 ^ n - c.toNat % 2 ^ n) = len.toNat := by omega
    rw [hmin, Nat.sub_self, memcpy_zero]
  · have hmin : min len.toNat (2 ^ n - c.toNat % 2 ^ n) = 2 ^ n - c.toNat % 2 ^ n := by omega
    rw [hmin]

theorem Holds.copyOut (h : f.Holds n q) (dst : ℕ → UInt8) {len : BitVec 32}
    (hlen : len.toNat ≤ q.length) :
    kfifoCopyOut f dst len f.out = ByteQueue.give dst q len.toNat := by
  have hlt := Nat.mod_lt f.out.toNat (Nat.two_pow_pos n)
  have hcell : ∀ i < q.length,
      q.getD i 0 = f.mem (f.data + (f.out.toNat % 2 ^ n + i) % 2 ^ n) := by
    intro i hi
    have hq := congrArg (fun l => l.getD i 0) h.cells
    rw [← hq]
    simp [circ, hi]
  have hle := h.le
  funext j
  unfold kfifoCopyOut ByteQueue.give
  simp only [toNat_sub_fifoMin, h.piece, h.and_mask]
  by_cases hj : j < len.toNat
  · rw [memcpy_in (Nat.zero_le j) (by omega), Nat.sub_zero, hcell j (by omega)]
    by_cases hend : f.out.toNat % 2 ^ n + j < 2 ^ n
    · -- the first piece
      rw [memcpy_out (by omega), memcpy_in (by omega) (by omega), Nat.mod_eq_of_lt hend, from_,
        Nat.sub_zero, Nat.add_assoc]
    · -- the second, from the start of the buffer on
      have hmod : (f.out.toNat % 2 ^ n + j) % 2 ^ n = f.out.toNat % 2 ^ n + j - 2 ^ n := by
        rw [Nat.mod_eq_sub_mod (by omega), Nat.mod_eq_of_lt (by omega)]
      rw [memcpy_in (by omega) (by omega), hmod, from_]
      congr 1
      omega
  · rw [memcpy_out (by omega), memcpy_out (by omega), memcpy_out (by omega)]

/-! ## Each call -/

theorem Holds.fifoIn (h : f.Holds n q) (buf : ℕ → UInt8) (len : BitVec 32) :
    (Rhino.fifoIn f buf len).1.toNat = min len.toNat (2 ^ n - q.length) ∧
      (Rhino.fifoIn f buf len).2.Holds n
        (q ++ slice buf 0 (min len.toNat (2 ^ n - q.length))) := by
  obtain ⟨k, hk, hkl⟩ : ∃ k, k = (if len > fifoUnused f then fifoUnused f else len) ∧
      k.toNat = min len.toNat (2 ^ n - q.length) := by
    refine ⟨_, rfl, ?_⟩
    rw [← h.unused]
    exact fifoMin_toNat ..
  have hle := h.le
  have hlt := two_pow_lt h.lt
  have hp := Nat.mod_lt f.in_.toNat (Nat.two_pow_pos n)
  unfold Rhino.fifoIn
  simp only [← hk, h.copyIn, ← hkl]
  have hdiff : f.in_ + k - f.out = f.in_ - f.out + k := by
    rw [BitVec.sub_eq_add_neg, BitVec.sub_eq_add_neg, BitVec.add_assoc, BitVec.add_assoc,
      BitVec.add_comm k]
  have hsum : (f.in_ - f.out + k).toNat = q.length + k.toNat := by
    rw [BitVec.toNat_add, h.stored, Nat.mod_eq_of_lt (by omega)]
  refine ⟨trivial, h.lt, h.mask, h.size, ?_, ?_, ?_, ?_⟩
  · simp only [hdiff, hsum, List.length_append, slice_length]
  · rw [List.length_append, slice_length]
    omega
  · simp only [hdiff, h.free]
    rw [BitVec.sub_sub]
  · rw [List.length_append, slice_length, circ_append,
      circ_circcpy_behind hp h.in_mod (by omega), h.cells]
    congr 1
    rw [circ_mod (q := f.in_.toNat % 2 ^ n) (by rw [Nat.mod_mod]; exact h.in_mod),
      circ_circcpy_same hp (by omega)]

theorem Holds.outPeek (h : f.Holds n q) (buf : ℕ → UInt8) (len : BitVec 32) :
    (internalFifoOutPeek f buf len).1.toNat = min len.toNat q.length ∧
      (internalFifoOutPeek f buf len).2 =
        ByteQueue.give buf q (min len.toNat q.length) := by
  have hk : (if len > f.in_ - f.out then f.in_ - f.out else len).toNat =
      min len.toNat q.length := by
    rw [← h.stored]
    exact fifoMin_toNat ..
  refine ⟨hk, ?_⟩
  unfold internalFifoOutPeek
  dsimp only
  rw [h.copyOut buf (by omega), hk]

theorem Holds.advance (h : f.Holds n q) {k : BitVec 32} (hk : k.toNat ≤ q.length) :
    { f with out := f.out + k, freeBytes := f.freeBytes + k }.Holds n (q.drop k.toNat) := by
  have hdiff : f.in_ - (f.out + k) = f.in_ - f.out - k := (BitVec.sub_sub ..).symm
  have hsub : (f.in_ - f.out - k).toNat = q.length - k.toNat := by
    rw [BitVec.toNat_sub_of_le (by rw [BitVec.le_def, h.stored]; exact hk), h.stored]
  have hle := h.le
  refine ⟨h.lt, h.mask, h.size, ?_, ?_, ?_, ?_⟩
  · simp only [hdiff, hsub, List.length_drop]
  · rw [List.length_drop]
    omega
  · simp only [hdiff, h.free]
    bv_omega
  · have hsplit : q.length = k.toNat + (q.length - k.toNat) := by omega
    have hcells := h.cells
    rw [hsplit, circ_append] at hcells
    rw [List.length_drop, circ_mod (h.add_mod ..)]
    conv_rhs => rw [← hcells]
    rw [List.drop_left' (circ_length ..)]

theorem Holds.fifoOut (h : f.Holds n q) (buf : ℕ → UInt8) (len : BitVec 32) :
    (Rhino.fifoOut f buf len).1.toNat = min len.toNat q.length ∧
      (Rhino.fifoOut f buf len).2.1 = ByteQueue.give buf q (min len.toNat q.length) ∧
      (Rhino.fifoOut f buf len).2.2.Holds n (q.drop (min len.toNat q.length)) := by
  obtain ⟨hlen, hbuf⟩ := h.outPeek buf len
  refine ⟨hlen, hbuf, ?_⟩
  rw [← hlen]
  exact h.advance (hlen ▸ Nat.min_le_right ..)

theorem Holds.all_len (h : f.Holds n q) : f.size - f.freeBytes = f.in_ - f.out := by
  rw [h.free]
  generalize f.in_ - f.out = k
  bv_omega

theorem Holds.fifoOutAll (h : f.Holds n q) (buf : ℕ → UInt8) :
    (Rhino.fifoOutAll f buf).1.toNat = q.length ∧
      (Rhino.fifoOutAll f buf).2.1 = ByteQueue.give buf q q.length ∧
      (Rhino.fifoOutAll f buf).2.2.Holds n [] := by
  unfold Rhino.fifoOutAll
  simp only [h.all_len]
  split_ifs with hz
  · have hq : q = [] := by
      rw [← List.length_eq_zero_iff, ← h.stored, hz]
      rfl
    subst hq
    exact ⟨rfl, by simp [ByteQueue.give], h⟩
  · obtain ⟨hlen, hbuf⟩ := h.outPeek buf (f.in_ - f.out)
    rw [h.stored, Nat.min_self] at hlen hbuf
    refine ⟨hlen, hbuf, ?_⟩
    have := h.advance hlen.le
    rwa [hlen, List.drop_length] at this

theorem Holds.step (h : f.Holds n q) (c : FifoCall) :
    (f.step c).1.Holds n (ByteQueue.step (2 ^ n) q c).1 ∧
      (f.step c).2 = (ByteQueue.step (2 ^ n) q c).2 := by
  cases c with
  | in_ buf len =>
    obtain ⟨hlen, hs⟩ := h.fifoIn buf len
    exact ⟨hs, Prod.ext hlen rfl⟩
  | out buf len =>
    obtain ⟨hlen, hbuf, hs⟩ := h.fifoOut buf len
    exact ⟨hs, Prod.ext hlen hbuf⟩
  | outPeek buf len =>
    obtain ⟨hlen, hbuf⟩ := h.outPeek buf len
    exact ⟨h, Prod.ext hlen hbuf⟩
  | outAll buf =>
    obtain ⟨hlen, hbuf, hs⟩ := h.fifoOutAll buf
    exact ⟨hs, Prod.ext hlen hbuf⟩

theorem isPowerOf2_iff (size : BitVec 32) :
    isPowerOf2 size = true ↔ ∃ n < 32, size.toNat = 2 ^ n := by
  have hone : (1 : BitVec 32).toNat = 1 := rfl
  have hpow : isPowerOf2 size = true ↔ size.toNat.isPowerOfTwo := by
    rw [← Nat.ne_zero_and_sub_one_eq_zero_iff_isPowerOfTwo]
    unfold isPowerOf2
    rw [decide_eq_true_iff, Ne, ← BitVec.toNat_inj]
    refine and_congr_right fun hz => ?_
    have hle : (1 : BitVec 32) ≤ size := by
      rw [BitVec.le_def, hone]
      exact Nat.one_le_iff_ne_zero.2 hz
    rw [← BitVec.toNat_inj, BitVec.toNat_and, BitVec.toNat_sub_of_le hle, hone]
    rfl
  rw [hpow]
  constructor
  · rintro ⟨n, hn⟩
    refine ⟨n, ?_, hn⟩
    rw [← Nat.pow_lt_pow_iff_right (a := 2) (by decide), ← hn]
    exact size.isLt
  · rintro ⟨n, -, hn⟩
    exact ⟨n, hn⟩

theorem holds_ready {size : BitVec 32} (hn : n < 32) (hsize : size.toNat = 2 ^ n)
    (mem : ℕ → UInt8) (data : ℕ) (c : BitVec 32) : (ready mem data size c).Holds n [] where
  lt := hn
  mask := by
    have hpos := Nat.two_pow_pos n
    have hone : (1 : BitVec 32).toNat = 1 := rfl
    rw [← hsize]
    refine (BitVec.toNat_sub_of_le ?_).trans (by rw [hone])
    rw [BitVec.le_def, hone]
    omega
  size := hsize
  stored := by simp [ready]
  le := Nat.zero_le _
  free := by simp [ready]
  cells := rfl

end KFifo

theorem fifoInit_ready {size : BitVec 32} (hp : isPowerOf2 size = true) (h2 : 2 ≤ size)
    (f : KFifo) (buffer : ℕ) : fifoInit f buffer size = (0, .ready f.mem buffer size 0) := by
  have hlt : ¬ size < 2 := BitVec.not_lt.2 h2
  unfold fifoInit
  rw [if_neg (not_not_intro hp), if_neg hlt]
  rfl

/-- **The fifo is a queue of bytes.**  From any equal counters, a run of calls
    returns what the queue of the same size returns, leaves the queue's bytes
    stored, and keeps `free_bytes = size - (in - out)`. -/
theorem fifo_refines_queue (mem : ℕ → UInt8) (data : ℕ) (size c : BitVec 32)
    (hsize : isPowerOf2 size = true) (calls : List FifoCall) :
    let r := runOut KFifo.step (.ready mem data size c) calls
    let q := runOut (ByteQueue.step size.toNat) [] calls
    r.2 = q.2 ∧
      (r.1.in_ - r.1.out).toNat = q.1.length ∧
      circ r.1.mem r.1.data size.toNat r.1.out.toNat q.1.length = q.1 ∧
      r.1.freeBytes = size - (r.1.in_ - r.1.out) ∧
      (2 ≤ size → ∀ f : KFifo, f.mem = mem → fifoInit f data size = (0, .ready mem data size 0)) := by
  obtain ⟨n, hn, hs⟩ := (KFifo.isPowerOf2_iff size).1 hsize
  obtain ⟨hend, hout⟩ := runOut_sim (R := KFifo.Holds n) (fun c h => h.step c) calls
    (KFifo.holds_ready hn hs mem data c)
  rw [hs]
  refine ⟨hout, hend.stored, hend.cells, ?_, ?_⟩
  · rw [hend.free, BitVec.eq_of_toNat_eq (hend.size.trans hs.symm)]
  · rintro h2 f rfl
    exact fifoInit_ready hsize h2 f data

/-- Eight bytes, with the counters four short of their wrap. -/
theorem fifo_refines_queue_wrap :
    let calls := [.in_ UInt8.ofNat 6, .out (fun _ => 0) 3, .in_ UInt8.ofNat 9, .outAll (fun _ => 0)]
    let r := runOut KFifo.step (.ready (fun _ => 0) 16 8 0xFFFFFFFC) calls
    r.2 = (runOut (ByteQueue.step 8) [] calls).2 ∧ r.1.freeBytes = 8 - (r.1.in_ - r.1.out) := by
  obtain ⟨hout, -, -, hfree, -⟩ := fifo_refines_queue (fun _ => 0) 16 8 0xFFFFFFFC (by decide)
    [.in_ UInt8.ofNat 6, .out (fun _ => 0) 3, .in_ UInt8.ofNat 9, .outAll (fun _ => 0)]
  exact ⟨hout, hfree⟩

/-- The bytes come out in order across the wrap. -/
example : (fifoOut (fifoIn (.ready (fun _ => 0) 16 4 0xFFFFFFFE) (fun i => UInt8.ofNat (i + 1)) 9).2
    (fun _ => 0) 3).2.1 2 = 3 := by decide

end Rhino
