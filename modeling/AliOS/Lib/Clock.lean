/-
  Deadlines on a counter that wraps.

  The counter and the deadlines are words of `w` bits.  `left m c` is how many
  steps the counter `c` is short of the deadline `m`; it counts down as the
  counter goes up, across the wrap.  A test of the signed difference takes a
  deadline for one in the past from `2 ^ (w - 1)` steps on (`due_iff`).
-/
import Mathlib.Data.BitVec

namespace Lib

variable {w : ℕ}

/-- The steps from the counter `c` to the deadline `m`. -/
def left (m c : BitVec w) : ℕ := (m - c).toNat

theorem left_add (c n : BitVec w) : left (c + n) c = n.toNat := by
  unfold left
  rw [BitVec.add_comm, BitVec.add_sub_cancel]

theorem left_lt (m c : BitVec w) : left m c < 2 ^ w := (m - c).isLt

theorem left_succ {m c : BitVec w} (h : left m c ≠ 0) : left m (c + 1) = left m c - 1 := by
  have hlt := left_lt m c
  have hsub : m - (c + 1) = m - c - 1 := by
    rw [BitVec.sub_eq_add_neg, BitVec.neg_add, BitVec.sub_eq_add_neg, BitVec.sub_eq_add_neg,
      BitVec.sub_eq_add_neg, BitVec.add_assoc]
  have hone : (1 : BitVec w).toNat = 1 :=
    Nat.mod_eq_of_lt (show 1 < 2 ^ w by omega)
  unfold left at h hlt ⊢
  rw [hsub, BitVec.toNat_sub_of_le, hone]
  rw [BitVec.le_def, hone]
  omega

/-- The signed test: the difference is not positive. -/
def due (m c : BitVec w) : Bool := (m - c).toInt ≤ 0

theorem due_iff (m c : BitVec w) : due m c = true ↔ left m c = 0 ∨ 2 ^ w ≤ 2 * left m c := by
  have hlt := left_lt m c
  unfold due left at *
  rw [decide_eq_true_iff, BitVec.toInt_eq_toNat_cond]
  split <;> omega

/-! ## Signed distances -/

/-- The signed distance from the counter `c` to the deadline `m`. -/
def off (m c : BitVec w) : ℤ := (m - c).toInt

theorem off_lt (m c : BitVec w) : 2 * off m c < 2 ^ w := BitVec.two_mul_toInt_lt

theorem left_of_off {m c : BitVec w} (h : 0 ≤ off m c) : (left m c : ℤ) = off m c := by
  have hlt := left_lt m c
  unfold off at h ⊢
  unfold left at hlt ⊢
  rw [BitVec.toInt_eq_toNat_cond] at h ⊢
  split at h
  · rename_i hc
    rw [if_pos hc]
  · omega

theorem off_add {n : BitVec w} (c : BitVec w) (h : 2 * n.toNat < 2 ^ w) :
    off (c + n) c = n.toNat := by
  unfold off
  rw [BitVec.add_comm, BitVec.add_sub_cancel, BitVec.toInt_eq_toNat_of_lt h]

/-- The counter goes up by `d`, and the deadline is not left half of the range
    behind. -/
theorem off_sub {m c : BitVec w} {d : ℕ} (h : 2 * (d : ℤ) ≤ 2 ^ w + 2 * off m c) :
    off m (c + BitVec.ofNat w d) = off m c - d := by
  have hlt := off_lt m c
  have hsub : m - (c + BitVec.ofNat w d) = m - c - BitVec.ofNat w d := by
    rw [BitVec.sub_eq_add_neg, BitVec.neg_add, BitVec.sub_eq_add_neg, BitVec.sub_eq_add_neg,
      BitVec.sub_eq_add_neg, BitVec.add_assoc]
  have hpow : ((2 ^ w : ℕ) : ℤ) = 2 ^ w := by push_cast; rfl
  unfold off at h hlt ⊢
  rw [hsub, BitVec.toInt_sub, BitVec.toInt_ofNat', Int.sub_bmod_bmod]
  refine Int.bmod_eq_of_le_mul_two ?_ ?_
  all_goals
    rw [hpow]
    omega

/-- The comparison of what is left takes a deadline in the past for a far one. -/
theorem left_gt_iff {m c n : BitVec w} (h : 2 * n.toNat < 2 ^ w) :
    m - c > n ↔ off m c < 0 ∨ (n.toNat : ℤ) < off m c := by
  have hlt := (m - c).isLt
  unfold off
  rw [BitVec.toInt_eq_toNat_cond, gt_iff_lt, BitVec.lt_def]
  split <;> omega

/-- The comparison of what has passed takes a deadline in the far past for one to come. -/
theorem passed_lt_iff {m c n : BitVec w} (h : 2 * n.toNat < 2 ^ w) :
    c - m < n ↔ off m c ≤ 0 ∧ -off m c < n.toNat := by
  have hlt := (m - c).isLt
  have hneg : (c - m).toNat = (2 ^ w - (m - c).toNat) % 2 ^ w := by
    rw [← BitVec.toNat_neg, BitVec.neg_sub, BitVec.add_comm, ← BitVec.sub_eq_add_neg]
  unfold off
  rw [BitVec.toInt_eq_toNat_cond, BitVec.lt_def, hneg]
  rcases Nat.eq_zero_or_pos (m - c).toNat with hz | hpos
  · rw [hz, Nat.sub_zero, Nat.mod_self]
    split <;> omega
  · rw [Nat.mod_eq_of_lt (by omega)]
    split <;> omega

/-! ## Lists of deadlines -/

variable {α : Type*} {f : α → ℕ} {l : List α}

/-- In a list sorted by `f`, the elements of the least value `1` are a prefix. -/
theorem mem_takeWhile_one (hs : l.Pairwise fun a b => f a ≤ f b) (h₀ : ∀ a ∈ l, f a ≠ 0) {a : α} :
    a ∈ l.takeWhile (fun a => f a = 1) ↔ a ∈ l ∧ f a = 1 := by
  induction l with
  | nil => simp
  | cons b l ih =>
    obtain ⟨hb, hs⟩ := List.pairwise_cons.1 hs
    have ih := ih hs fun a ha => h₀ a (List.mem_cons_of_mem b ha)
    by_cases h1 : f b = 1
    · rw [List.takeWhile_cons_of_pos (by simpa using h1), List.mem_cons, List.mem_cons, ih]
      constructor
      · rintro (rfl | ⟨ha, h⟩)
        · exact ⟨.inl rfl, h1⟩
        · exact ⟨.inr ha, h⟩
      · rintro ⟨rfl | ha, h⟩
        · exact .inl rfl
        · exact .inr ⟨ha, h⟩
    · rw [List.takeWhile_cons_of_neg (by simpa using h1)]
      refine ⟨fun h => absurd h List.not_mem_nil, ?_⟩
      rintro ⟨ha, h⟩
      have hb0 := h₀ b (by simp)
      rcases List.mem_cons.1 ha with rfl | ha
      · exact absurd h h1
      · have := hb a ha
        omega

variable {p q : α → Bool} {a : α}

theorem of_mem_head_dropWhile (h : a ∈ (l.dropWhile p).head?) : a ∈ l ∧ p a = false := by
  refine ⟨(List.dropWhile_sublist _).subset (List.mem_of_mem_head? h), ?_⟩
  have hnot := List.head?_dropWhile_not p l
  rw [Option.mem_def.1 h] at hnot
  simpa using hnot

theorem mem_takeWhile_of_imp (hp : ∀ a ∈ l, p a = true → q a = true) (h : a ∈ l.takeWhile p) :
    a ∈ l.takeWhile q := by
  induction l with
  | nil => exact h
  | cons b l ih =>
    by_cases hb : p b = true
    · rw [List.takeWhile_cons_of_pos hb] at h
      rw [List.takeWhile_cons_of_pos (hp b (by simp) hb)]
      rcases List.mem_cons.1 h with rfl | h
      · simp
      · exact List.mem_cons_of_mem b (ih (fun a ha => hp a (List.mem_cons_of_mem b ha)) h)
    · rw [List.takeWhile_cons_of_neg hb] at h
      cases h

/-- Where `p` gives `q`, and the first element that is not `p` is not `q`, they
    take the same prefix. -/
theorem takeWhile_eq_of_head (hp : ∀ a ∈ l, p a = true → q a = true)
    (hq : ∀ a ∈ (l.dropWhile p).head?, q a = false) : l.takeWhile q = l.takeWhile p := by
  induction l with
  | nil => rfl
  | cons b l ih =>
    by_cases hb : p b = true
    · rw [List.dropWhile_cons_of_pos hb] at hq
      rw [List.takeWhile_cons_of_pos hb, List.takeWhile_cons_of_pos (hp b (by simp) hb),
        ih (fun a ha => hp a (List.mem_cons_of_mem b ha)) hq]
    · rw [List.dropWhile_cons_of_neg hb] at hq
      have hq := hq b (by simp)
      rw [List.takeWhile_cons_of_neg hb, List.takeWhile_cons_of_neg (by simp [hq])]

/-- Where `p` gives `q`, and the first element that is not `p` is `q`, it is in
    the prefix that `q` takes. -/
theorem head_mem_takeWhile (hp : ∀ a ∈ l, p a = true → q a = true)
    (h : a ∈ (l.dropWhile p).head?) (hq : q a = true) : a ∈ l.takeWhile q := by
  induction l with
  | nil => simp at h
  | cons b l ih =>
    by_cases hb : p b = true
    · rw [List.dropWhile_cons_of_pos hb] at h
      rw [List.takeWhile_cons_of_pos (hp b (by simp) hb)]
      exact List.mem_cons_of_mem b (ih (fun a ha => hp a (List.mem_cons_of_mem b ha)) h)
    · rw [List.dropWhile_cons_of_neg hb] at h
      obtain rfl : b = a := by simpa using h
      rw [List.takeWhile_cons_of_pos hq]
      simp

end Lib
