/-
  Rhino kernel: the size classes of the two-level heap.

  `mmClass n` is the class of a block of `n` bytes, and `mmRound n` the size
  that `bitmap_search` looks for with `ACTION_GET`.  A block of a class at or
  above that of `mmRound n` has `n` bytes.
-/
import AliOS.Rhino.MmHeap

namespace Rhino

/-- The class of a size. -/
def mmClass (n : ℕ) : ℕ × ℕ :=
  if n < minFltSize then (0, n / 4)
  else (n.log2 - 6, (n - 2 ^ n.log2) / 2 ^ (n.log2 - 5))

/-- The size with its padding. -/
def mmRound (n : ℕ) : ℕ := if n < minFltSize then n else n + (2 ^ (n.log2 - 5) - 1)

/-- The least size of a class. -/
def mmLeast (p : ℕ × ℕ) : ℕ := if p.1 = 0 then 4 * p.2 else 2 ^ (p.1 + 6) + p.2 * 2 ^ (p.1 + 1)

/-- Classes in the order of their sizes. -/
def ClassLe (p q : ℕ × ℕ) : Prop := p.1 < q.1 ∨ p.1 = q.1 ∧ p.2 ≤ q.2

variable {c : MmConfig} {n m k t : ℕ} {p q : ℕ × ℕ}

/-! ## Machine words -/

theorem words_ge (c : MmConfig) : 2 ^ 32 ≤ c.words := by
  unfold MmConfig.words
  rcases c.ptrSize_eq with h | h <;> rw [h] <;> decide

theorem sub_eq {a b : ℕ} (hb : b ≤ a) (ha : a < c.words) : c.sub a b = a - b := by
  rw [MmConfig.sub, show a + c.words - b = a - b + c.words by omega, Nat.add_mod_right,
    Nat.mod_eq_of_lt (by omega)]

theorem log2_bounds (hn : n ≠ 0) : 2 ^ n.log2 ≤ n ∧ n < 2 ^ (n.log2 + 1) :=
  ⟨Nat.log2_self_le hn, Nat.lt_log2_self⟩

theorem le_log2 (hk : 2 ^ k ≤ n) : k ≤ n.log2 := by
  have hn : n ≠ 0 := fun h => by
    rw [h] at hk
    exact absurd hk (not_le.2 (Nat.two_pow_pos k))
  exact (Nat.le_log2 hn).2 hk

theorem log2_lt (hn : n ≠ 0) (hk : n < 2 ^ k) : n.log2 < k := (Nat.log2_lt hn).2 hk

theorem sizeLastBit_eq (hn : n ≠ 0) (hlt : n < 2 ^ 32) : sizeLastBit c n = some n.log2 := by
  have hval : (BitVec.ofNat 32 n).toNat = n := by
    rw [BitVec.toNat_ofNat]
    exact Nat.mod_eq_of_lt hlt
  have hne : BitVec.ofNat 32 n ≠ 0 := fun h => hn (by rw [← hval, h]; rfl)
  have := log2_lt hn hlt
  unfold sizeLastBit
  rw [if_pos hne, krhinoFindFirstBit_eq hne, hval]
  congr 1
  omega

theorem searchClass_eq (hk7 : 7 ≤ k) (hk : k < 31) (ht : 2 ^ k ≤ t) (ht' : t < 2 ^ (k + 1)) :
    searchClass c t k = some (k - 6, (t - 2 ^ k) / 2 ^ (k - 5)) := by
  have hw := words_ge c
  have hpow : 2 ^ (k + 1) ≤ 2 ^ 31 := Nat.pow_le_pow_right (by decide) hk
  have hbits : 32 ≤ 8 * c.ptrSize := by rcases c.ptrSize_eq with h | h <;> rw [h] <;> decide
  have hshift : c.sub k maxLog2Slt = k - 5 := sub_eq (by unfold maxLog2Slt; omega) (by omega)
  have hflt : c.sub (k + 1) 7 = k - 6 := sub_eq (by omega) (by omega)
  have hsub : c.sub t (2 ^ k) = t - 2 ^ k := sub_eq ht (by omega)
  unfold searchClass intShl
  rw [if_pos hk, Option.bind_some]
  simp only [hshift, hflt, hsub, Nat.shiftRight_eq_div_pow]
  rw [if_pos (show k - 5 < 8 * c.ptrSize by omega)]

/-! ## The search for a class -/

theorem searchIdx_insert (hn : n < 2 ^ 31) : searchIdx c n .insert = some (mmClass n) := by
  unfold searchIdx mmClass
  by_cases h : n < minFltSize
  · rw [if_pos h, if_pos h, Nat.shiftRight_eq_div_pow]
  · have hge : 2 ^ 7 ≤ n := not_lt.1 h
    have hn0 : n ≠ 0 := by omega
    obtain ⟨hlo, hhi⟩ := log2_bounds hn0
    rw [if_neg h, if_neg h, sizeLastBit_eq hn0 (by omega), Option.bind_some]
    exact searchClass_eq (le_log2 hge) (log2_lt hn0 hn) hlo hhi

theorem searchIdx_get (hn : mmRound n < 2 ^ 31) : searchIdx c n .get = some (mmClass (mmRound n)) := by
  unfold searchIdx
  by_cases h : n < minFltSize
  · have hr : mmRound n = n := if_pos h
    rw [if_pos h, hr, mmClass, if_pos h, Nat.shiftRight_eq_div_pow]
  · have hge : 2 ^ 7 ≤ n := not_lt.1 h
    have hn0 : n ≠ 0 := by omega
    have hr : mmRound n = n + (2 ^ (n.log2 - 5) - 1) := if_neg h
    have hw := words_ge c
    have hk := log2_lt hn0 (show n < 2 ^ 31 by omega)
    have hk7 := le_log2 hge
    obtain ⟨hlo, hhi⟩ := log2_bounds (n := mmRound n) (by omega)
    have hr7 : ¬ mmRound n < minFltSize := by
      unfold minFltSize
      omega
    have hpad : intShl c (c.sub n.log2 maxLog2Slt) = some (2 ^ (n.log2 - 5)) := by
      have hshift : c.sub n.log2 maxLog2Slt = n.log2 - 5 :=
        sub_eq (by unfold maxLog2Slt; omega) (by omega)
      rw [hshift, intShl, if_pos (by omega)]
    have hfit : c.add n (2 ^ (n.log2 - 5) - 1) = mmRound n := by
      rw [hr, MmConfig.add, Nat.mod_eq_of_lt (by omega)]
    rw [if_neg h, sizeLastBit_eq hn0 (by omega), Option.bind_some]
    simp only [hpad, Option.bind_some]
    rw [hfit, sizeLastBit_eq (by omega) (by omega), Option.bind_some, mmClass, if_neg hr7]
    exact searchClass_eq (le_log2 (by omega)) (log2_lt (by omega) hn) hlo hhi

/-! ## Classes and sizes -/

theorem mmClass_snd_lt (n : ℕ) : (mmClass n).2 < sltSize := by
  unfold mmClass sltSize
  split_ifs with h
  · unfold minFltSize at h
    exact Nat.div_lt_of_lt_mul (by omega)
  · have hge : 2 ^ 7 ≤ n := not_lt.1 h
    obtain ⟨hlo, hhi⟩ := log2_bounds (n := n) (by omega)
    have hk := le_log2 hge
    refine Nat.div_lt_of_lt_mul ?_
    have : 2 ^ (n.log2 - 5) * 32 = 2 ^ n.log2 := by
      rw [show (32 : ℕ) = 2 ^ 5 from rfl, ← Nat.pow_add, Nat.sub_add_cancel (by omega)]
    rw [this]
    rw [Nat.pow_succ] at hhi
    omega

theorem mmLeast_le (n : ℕ) : mmLeast (mmClass n) ≤ n := by
  unfold mmClass mmLeast
  by_cases h : n < minFltSize
  · rw [if_pos h, if_pos rfl]
    exact Nat.mul_div_le n 4
  · have hge : 2 ^ 7 ≤ n := not_lt.1 h
    obtain ⟨hlo, -⟩ := log2_bounds (n := n) (by omega)
    have hk := le_log2 hge
    rw [if_neg h, if_neg (by omega)]
    simp only
    rw [show n.log2 - 6 + 6 = n.log2 by omega, show n.log2 - 6 + 1 = n.log2 - 5 by omega]
    have := Nat.div_mul_le_self (n - 2 ^ n.log2) (2 ^ (n.log2 - 5))
    omega

theorem le_mmLeast_round (h4 : 4 ∣ n) : n ≤ mmLeast (mmClass (mmRound n)) := by
  by_cases h : n < minFltSize
  · have hr : mmRound n = n := if_pos h
    rw [hr, mmClass, if_pos h, mmLeast, if_pos rfl, Nat.mul_div_cancel' h4]
  · have hge : 2 ^ 7 ≤ n := not_lt.1 h
    have hr : mmRound n = n + (2 ^ (n.log2 - 5) - 1) := if_neg h
    obtain ⟨hlo, hhi⟩ := log2_bounds (n := n) (by omega)
    have hk := le_log2 hge
    obtain ⟨q, hq⟩ : ∃ q, q = 2 ^ (n.log2 - 5) := ⟨_, rfl⟩
    have hq0 : 0 < q := hq ▸ Nat.two_pow_pos _
    have hpow : 2 ^ n.log2 = 32 * q := by
      rw [hq, show (32 : ℕ) = 2 ^ 5 from rfl, ← Nat.pow_add]
      congr 1
      omega
    rw [← hq] at hr
    rw [Nat.pow_succ] at hhi
    have hr7 : ¬ mmRound n < minFltSize := by
      unfold minFltSize
      omega
    obtain ⟨-, -⟩ := log2_bounds (n := mmRound n) (by omega)
    have hlog : n.log2 ≤ (mmRound n).log2 := le_log2 (by omega)
    rw [mmClass, if_neg hr7, mmLeast, if_neg (by simp only; omega)]
    simp only
    rw [show (mmRound n).log2 - 6 + 6 = (mmRound n).log2 by omega,
      show (mmRound n).log2 - 6 + 1 = (mmRound n).log2 - 5 by omega]
    by_cases heq : (mmRound n).log2 = n.log2
    · rw [heq, ← hq, hpow, hr]
      have hle : n - 32 * q ≤ (n + (q - 1) - 32 * q) / q * q := by
        have hdiv := Nat.div_add_mod' (n + (q - 1) - 32 * q) q
        have hmod := Nat.mod_lt (n + (q - 1) - 32 * q) hq0
        omega
      omega
    · have : 2 ^ (n.log2 + 1) ≤ 2 ^ (mmRound n).log2 :=
        Nat.pow_le_pow_right (by decide) (by omega)
      rw [Nat.pow_succ] at this
      omega

theorem ClassLe.least (h : ClassLe p q) (hp : p.2 < sltSize) : mmLeast p ≤ mmLeast q := by
  obtain ⟨f, s⟩ := p
  obtain ⟨f', s'⟩ := q
  unfold sltSize at hp
  rcases h with h | ⟨rfl, h⟩
  · simp only at h hp
    have hf' : mmLeast (f', s') = 2 ^ (f' + 6) + s' * 2 ^ (f' + 1) := if_neg (by simp only; omega)
    have hle : 2 ^ (f + 7) ≤ 2 ^ (f' + 6) := Nat.pow_le_pow_right (by decide) (by omega)
    have hlow : mmLeast (f, s) ≤ 2 ^ (f + 7) := by
      by_cases h0 : f = 0
      · rw [mmLeast, if_pos h0, h0]
        have : 2 ^ 7 = 128 := rfl
        omega
      · rw [mmLeast, if_neg h0]
        simp only
        have hmul : s * 2 ^ (f + 1) ≤ 32 * 2 ^ (f + 1) := Nat.mul_le_mul_right _ (by omega)
        have hsum : 2 ^ (f + 7) = 2 ^ (f + 6) + 32 * 2 ^ (f + 1) := by ring
        omega
    omega
  · simp only at h
    by_cases h0 : f = 0
    · rw [mmLeast, mmLeast, if_pos h0, if_pos h0]
      omega
    · rw [mmLeast, mmLeast, if_neg h0, if_neg h0]
      exact Nat.add_le_add_left (Nat.mul_le_mul_right _ h) _

/-- **Good fit**: a block of a class at or above the one searched has the bytes
    wanted. -/
theorem le_of_classLe (h4 : 4 ∣ n) (h : ClassLe (mmClass (mmRound n)) (mmClass m)) : n ≤ m :=
  (le_mmLeast_round h4).trans ((h.least (mmClass_snd_lt _)).trans (mmLeast_le m))

end Rhino
