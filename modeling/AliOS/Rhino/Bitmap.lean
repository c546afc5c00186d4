/-
  Rhino kernel: bitmaps of one word (`k_bitmap.h`), and `find_last_bit` of
  `k_mm.c`.

  A bitmap numbers its bits from the left.  The lemmas here are about bit
  numbers from the right, as in `BitVec.getLsbD`.
-/
import Mathlib.Data.Nat.Log
import Mathlib.Tactic.Linarith
import Mathlib.Tactic.Ring

namespace Rhino

/-! ## The source -/

def bitmapMask (nr : ℕ) : BitVec 32 := 1#32 <<< (31 - nr % 32)

def krhinoBitmapSet (bitmap : BitVec 32) (nr : ℕ) : BitVec 32 := bitmap ||| bitmapMask nr

def krhinoBitmapClear (bitmap : BitVec 32) (nr : ℕ) : BitVec 32 := bitmap &&& ~~~ bitmapMask nr

/-- One test of `krhino_find_first_bit`: where the `k` leading bits under `mask`
    are 0, they are shifted out. -/
def leadStep (mask : BitVec 32) (k : ℕ) (p : BitVec 32 × ℕ) : BitVec 32 × ℕ :=
  if p.1 &&& mask = 0 then (p.1 <<< k, p.2 + k) else p

/-- `krhino_find_first_bit` on a word that is not 0. -/
def krhinoFindFirstBit (bitmap : BitVec 32) : ℕ :=
  let p := leadStep 0xFFFF0000#32 16 (bitmap, 0)
  let p := leadStep 0xFF000000#32 8 p
  let p := leadStep 0xF0000000#32 4 p
  let p := leadStep 0xC0000000#32 2 p
  if p.1 &&& 0x80000000#32 = 0 then p.2 + 1 else p.2

def findLastBit (bitmap : BitVec 32) : ℕ :=
  if bitmap = 0 then 0
  else
    let x := bitmap &&& -bitmap
    31 - krhinoFindFirstBit x

variable {v : BitVec 32} {i j k nr : ℕ}

/-! ## Setting and clearing -/

theorem bitmapMask_getLsbD (hi : i < 32) (hj : j < 32) :
    (bitmapMask (31 - i)).getLsbD j = decide (j = i) := by
  have hs : 31 - (31 - i) % 32 = i := by omega
  rw [bitmapMask, hs, BitVec.getLsbD_shiftLeft, BitVec.getLsbD_one]
  by_cases h : j = i
  · subst h
    simp [hj]
  · by_cases hlt : j < i
    · simp [hlt, h]
    · have : j - i ≠ 0 := by omega
      simp [hj, this, h]

theorem krhinoBitmapSet_getLsbD (hi : i < 32) (hj : j < 32) :
    (krhinoBitmapSet v (31 - i)).getLsbD j = (v.getLsbD j || decide (j = i)) := by
  rw [krhinoBitmapSet, BitVec.getLsbD_or, bitmapMask_getLsbD hi hj]

theorem krhinoBitmapClear_getLsbD (hi : i < 32) (hj : j < 32) :
    (krhinoBitmapClear v (31 - i)).getLsbD j = (v.getLsbD j && !decide (j = i)) := by
  rw [krhinoBitmapClear, BitVec.getLsbD_and, BitVec.getLsbD_not, bitmapMask_getLsbD hi hj]
  simp [hj]

theorem bitmap_eq_zero : v = 0 ↔ ∀ j < 32, v.getLsbD j = false := by
  constructor
  · rintro rfl j -
    exact BitVec.getLsbD_zero
  · intro h
    ext j hj
    rw [BitVec.getElem_eq_testBit_toNat, BitVec.testBit_toNat, h j hj]
    simp

theorem maskFrom_getLsbD (hj : j < 32) :
    (v &&& (BitVec.allOnes 32 <<< k)).getLsbD j = (v.getLsbD j && decide (k ≤ j)) := by
  rw [BitVec.getLsbD_and, BitVec.getLsbD_shiftLeft, BitVec.getLsbD_allOnes]
  by_cases h : j < k
  · simp [h]
  · have : j - k < 32 := by omega
    simp [h, hj, this, not_lt.1 h]

/-! ## The first bit -/

theorem and_mask_eq_zero :
    v &&& (BitVec.allOnes 32 <<< k) = 0 ↔ v.toNat < 2 ^ k := by
  rw [bitmap_eq_zero]
  constructor
  · intro h
    refine Nat.lt_pow_two_of_testBit _ fun i hi => ?_
    by_cases hlt : i < 32
    · have := h i hlt
      rw [maskFrom_getLsbD hlt] at this
      rw [BitVec.testBit_toNat]
      simpa [hi] using this
    · rw [BitVec.testBit_toNat]
      exact BitVec.getLsbD_of_ge _ _ (not_lt.1 hlt)
  · intro h j hj
    rw [maskFrom_getLsbD hj]
    by_cases hkj : k ≤ j
    · have : v.toNat.testBit j = false :=
        Nat.testBit_lt_two_pow (h.trans_le (Nat.pow_le_pow_right (by decide) hkj))
      rw [BitVec.testBit_toNat] at this
      simp [this]
    · simp [hkj]

/-- `nr` leading zeros of `v` are shifted out of it, and `k` bits are left that
    may hold its leading one. -/
structure Shifted (v : BitVec 32) (k : ℕ) (p : BitVec 32 × ℕ) : Prop where
  eq : p.1.toNat = v.toNat * 2 ^ p.2
  lead : 2 ^ (32 - k) ≤ p.1.toNat

theorem Shifted.step {p : BitVec 32 × ℕ} (h : Shifted v (2 * k) p) (hk : 2 * k ≤ 32) :
    Shifted v k (leadStep (BitVec.allOnes 32 <<< (32 - k)) k p) := by
  unfold leadStep
  by_cases hz : p.1 &&& (BitVec.allOnes 32 <<< (32 - k)) = 0
  · rw [if_pos hz]
    have hlt := and_mask_eq_zero.1 hz
    have hpow : 2 ^ (32 - k) * 2 ^ k = 2 ^ 32 := by rw [← Nat.pow_add]; congr 1; omega
    have hpow' : 2 ^ (32 - 2 * k) * 2 ^ k = 2 ^ (32 - k) := by rw [← Nat.pow_add]; congr 1; omega
    have hfit : p.1.toNat * 2 ^ k < 2 ^ 32 := by
      rw [← hpow]
      exact Nat.mul_lt_mul_of_pos_right hlt (Nat.two_pow_pos k)
    have hval : (p.1 <<< k).toNat = p.1.toNat * 2 ^ k := by
      rw [BitVec.toNat_shiftLeft, Nat.shiftLeft_eq, Nat.mod_eq_of_lt hfit]
    refine ⟨?_, ?_⟩
    · rw [hval, h.eq, Nat.mul_assoc, ← Nat.pow_add]
    · rw [hval, ← hpow']
      exact Nat.mul_le_mul_right _ h.lead
  · rw [if_neg hz]
    refine ⟨h.eq, ?_⟩
    rw [and_mask_eq_zero] at hz
    omega

theorem krhinoFindFirstBit_eq (hv : v ≠ 0) : krhinoFindFirstBit v = 31 - v.toNat.log2 := by
  have hpos : 0 < v.toNat := Nat.pos_of_ne_zero fun h => hv (BitVec.eq_of_toNat_eq h)
  have h₀ : Shifted v (2 * 16) (v, 0) := ⟨by simp, hpos⟩
  have h1 := h₀.step (by decide)
  have h2 := Shifted.step (k := 8) h1 (by decide)
  have h3 := Shifted.step (k := 4) h2 (by decide)
  have h4 := Shifted.step (k := 2) h3 (by decide)
  obtain ⟨p, h4, heq⟩ : ∃ p, Shifted v 2 p ∧
      krhinoFindFirstBit v = if p.1 &&& 0x80000000#32 = 0 then p.2 + 1 else p.2 := ⟨_, h4, rfl⟩
  rw [heq]
  have hz : p.1 &&& 0x80000000#32 = 0 ↔ p.1.toNat < 2 ^ 31 := by
    rw [show 0x80000000#32 = BitVec.allOnes 32 <<< 31 by decide]
    exact and_mask_eq_zero
  have hlt := p.1.isLt
  -- the number of leading zeros fixes the logarithm
  have hlog : ∀ n ≤ 31, 2 ^ 31 ≤ v.toNat * 2 ^ n → v.toNat * 2 ^ n < 2 ^ 32 →
      v.toNat.log2 = 31 - n := by
    intro n hn hge hlt
    refine (Nat.log2_eq_iff hpos.ne').2 ⟨?_, ?_⟩
    · refine Nat.le_of_mul_le_mul_right (c := 2 ^ n) ?_ (Nat.two_pow_pos n)
      rw [← Nat.pow_add, Nat.sub_add_cancel hn]
      exact hge
    · refine Nat.lt_of_mul_lt_mul_right (a := 2 ^ n) ?_
      rw [← Nat.pow_add, show 31 - n + 1 + n = 32 by omega]
      exact hlt
  have hnr : ∀ n, v.toNat * 2 ^ n < 2 ^ 32 → n ≤ 31 := by
    intro n hn
    by_contra hc
    have hle : 2 ^ 32 ≤ 2 ^ n := Nat.pow_le_pow_right (by decide) (by omega)
    have := Nat.le_mul_of_pos_left (2 ^ n) hpos
    omega
  have hval := h4.eq
  have hlead := h4.lead
  by_cases h31 : p.1.toNat < 2 ^ 31
  · rw [if_pos (hz.2 h31)]
    have hpow : v.toNat * 2 ^ (p.2 + 1) = 2 * p.1.toNat := by rw [hval, Nat.pow_succ]; ring
    have hle := hnr (p.2 + 1) (by omega)
    have := hlog (p.2 + 1) hle (by omega) (by omega)
    omega
  · rw [if_neg fun h => h31 (hz.1 h)]
    have hle := hnr p.2 (by omega)
    have := hlog p.2 hle (by omega) (by omega)
    omega

/-! ## The last bit -/

theorem and_neg_eq (hk : v.getLsbD k = true) (hlt : ∀ j < k, v.getLsbD j = false) (hk' : k < 32) :
    v &&& -v = BitVec.twoPow 32 k := by
  refine BitVec.eq_of_getLsbD_eq fun j hj => ?_
  rw [BitVec.getLsbD_and, BitVec.getLsbD_neg, BitVec.getLsbD_twoPow]
  rcases lt_trichotomy j k with h | rfl | h
  · simp [hlt j h, h.ne']
  · have hno : ¬ ∃ i < j, v.getLsbD i = true := by
      rintro ⟨i, hi, ht⟩
      rw [hlt i hi] at ht
      cases ht
    simp [hk, hno, hj]
  · have hex : ∃ i < j, v.getLsbD i = true := ⟨k, h, hk⟩
    cases hb : v.getLsbD j <;> simp [hex, hj, h.ne]

theorem findLastBit_spec (hv : v ≠ 0) : findLastBit v < 32 ∧ v.getLsbD (findLastBit v) = true ∧
    ∀ j < findLastBit v, v.getLsbD j = false := by
  have hex : ∃ k, v.getLsbD k = true := by
    by_contra hc
    push Not at hc
    exact hv (bitmap_eq_zero.2 fun j _ => by simpa using hc j)
  obtain ⟨hk, hlt⟩ : v.getLsbD (Nat.find hex) = true ∧ ∀ j < Nat.find hex, v.getLsbD j = false :=
    ⟨Nat.find_spec hex, fun j hj => by simpa using Nat.find_min hex hj⟩
  generalize Nat.find hex = k at hk hlt
  have hk' : k < 32 := by
    by_contra hc
    rw [BitVec.getLsbD_of_ge _ _ (not_lt.1 hc)] at hk
    cases hk
  have htwo : (BitVec.twoPow 32 k).toNat = 2 ^ k := by
    rw [BitVec.toNat_twoPow]
    exact Nat.mod_eq_of_lt (Nat.pow_lt_pow_right (by decide) hk')
  have hne : BitVec.twoPow 32 k ≠ 0 := by
    intro h
    have := congrArg BitVec.toNat h
    rw [htwo] at this
    exact absurd this (Nat.two_pow_pos k).ne'
  have hfind : findLastBit v = k := by
    unfold findLastBit
    rw [if_neg hv]
    simp only [and_neg_eq hk hlt hk']
    rw [krhinoFindFirstBit_eq hne, htwo, Nat.log2_two_pow]
    omega
  rw [hfind]
  exact ⟨hk', hk, hlt⟩

end Rhino
