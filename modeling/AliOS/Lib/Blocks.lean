/-
  What reads its input by blocks of one length: the pieces that it comes in make
  no difference, as long as the bytes behind the last whole block are kept
  (`Absorbs.append`).
-/
import Mathlib.Data.Nat.Notation
import Mathlib.Tactic.TypeStar

namespace Lib

variable {σ α : Type*} {f : σ → List α → σ} {k : ℕ} {s₀ s t : σ} {xs ys rest : List α}

/-- `n` blocks of `k` are taken from the front. -/
def takeBlocks (f : σ → List α → σ) (k : ℕ) (s : σ) (xs : List α) : ℕ → σ × List α
  | 0 => (s, xs)
  | n + 1 => takeBlocks f k (f s (xs.take k)) (xs.drop k) n

/-- The whole blocks of `xs` lead from `s₀` to `s`, and `rest` is behind them. -/
def Absorbs (f : σ → List α → σ) (k : ℕ) (s₀ : σ) (xs : List α) (s : σ) (rest : List α) : Prop :=
  ∃ blocks : List (List α), (∀ b ∈ blocks, b.length = k) ∧ blocks.flatten ++ rest = xs ∧ rest.length < k ∧
    blocks.foldl f s₀ = s

namespace Absorbs

theorem nil (hk : 0 < k) : Absorbs f k s [] s [] := ⟨[], nofun, rfl, hk, rfl⟩

theorem length (h : Absorbs f k s₀ xs s rest) : rest.length = xs.length % k := by
  obtain ⟨blocks, hlen, rfl, hlt, -⟩ := h
  have hflat : blocks.flatten.length = k * blocks.length := by
    rw [List.length_flatten, List.eq_replicate_of_mem (l := blocks.map List.length) (a := k) (by simpa using hlen)]
    simp [Nat.mul_comm]
  rw [List.length_append, hflat, Nat.mul_add_mod, Nat.mod_eq_of_lt hlt]

theorem keep (h : Absorbs f k s₀ xs s rest) (hlt : rest.length + ys.length < k) :
    Absorbs f k s₀ (xs ++ ys) s (rest ++ ys) := by
  obtain ⟨blocks, hlen, rfl, -, hs⟩ := h
  exact ⟨blocks, hlen, (List.append_assoc ..).symm, by rwa [List.length_append], hs⟩

theorem fill (h : Absorbs f k s₀ xs s rest) (hk : 0 < k) (ys : List α) (heq : rest.length + ys.length = k) :
    Absorbs f k s₀ (xs ++ ys) (f s (rest ++ ys)) [] := by
  obtain ⟨blocks, hlen, rfl, -, rfl⟩ := h
  refine ⟨blocks ++ [rest ++ ys], fun b hb => ?_, by simp, hk, by rw [List.foldl_append]; rfl⟩
  rcases List.mem_append.1 hb with hb | hb
  · exact hlen b hb
  · rw [List.mem_singleton.1 hb, List.length_append, heq]

theorem takeBlocks (h : Absorbs f k s₀ xs s []) (hk : 0 < k) (ys : List α) {n : ℕ} (hn : n = ys.length / k) :
    Absorbs f k s₀ (xs ++ ys) (Lib.takeBlocks f k s ys n).1 (Lib.takeBlocks f k s ys n).2 := by
  induction n generalizing xs ys s with
  | zero =>
    have hlt : ys.length < k := (Nat.div_eq_zero_iff.1 hn.symm).resolve_left (by omega)
    exact h.keep (by rwa [List.length_nil, Nat.zero_add])
  | succ n ih =>
    have hle : k ≤ ys.length := (Nat.div_pos_iff.1 (hn ▸ Nat.succ_pos n)).2
    have htaken := h.fill hk (ys.take k) (by rw [List.length_nil, List.length_take]; omega)
    have hrest : n = (ys.drop k).length / k := by
      have hone := Nat.div_eq_sub_div hk hle
      rw [List.length_drop]
      omega
    have := ih htaken (ys.drop k) hrest
    rwa [List.append_assoc, List.take_append_drop] at this

/-- **Another piece**: the block that was begun is filled, and then whole blocks are taken. -/
theorem append (h : Absorbs f k s₀ xs s rest) (hk : 0 < k) {n : ℕ} (hn : n = k - rest.length)
    (hle : n ≤ ys.length) :
    Absorbs f k s₀ (xs ++ ys) (Lib.takeBlocks f k (f s (rest ++ ys.take n)) (ys.drop n) ((ys.drop n).length / k)).1
      (Lib.takeBlocks f k (f s (rest ++ ys.take n)) (ys.drop n) ((ys.drop n).length / k)).2 := by
  have hlt : rest.length < k := h.choose_spec.2.2.1
  have hfill := h.fill hk (ys.take n) (by rw [List.length_take]; omega)
  have := hfill.takeBlocks hk (ys.drop n) rfl
  rwa [List.append_assoc, List.take_append_drop] at this

end Absorbs

end Lib
