/-
  Singly linked lists in a memory: `next a` is the link of the node `a`, and `z`
  is the null pointer.
-/
import Mathlib.Data.List.Range

namespace Lib

variable {α : Type*} {next next' : α → α} {z p a : α} {l : List α}

/-- The list that `p` points to. -/
def Chain (next : α → α) (z : α) : α → List α → Prop
  | p, [] => p = z
  | p, a :: l => p = a ∧ a ≠ z ∧ Chain next z (next a) l

theorem Chain.congr (h : Chain next z p l) (hn : ∀ a ∈ l, next' a = next a) : Chain next' z p l := by
  induction l generalizing p with
  | nil => exact h
  | cons b l ih =>
    obtain ⟨rfl, hz, hl⟩ := h
    refine ⟨rfl, hz, ?_⟩
    rw [hn p List.mem_cons_self]
    exact ih hl fun a ha => hn a (List.mem_cons_of_mem p ha)

theorem Chain.push [DecidableEq α] (h : Chain next z p l) (ha : a ≠ z) (hal : a ∉ l) :
    Chain (Function.update next a p) z a (a :: l) := by
  refine ⟨rfl, ha, ?_⟩
  rw [Function.update_self]
  refine h.congr fun b hb => Function.update_of_ne ?_ ..
  rintro rfl
  exact hal hb

theorem Chain.pop (h : Chain next z p (a :: l)) : p = a ∧ Chain next z (next p) l := by
  obtain ⟨rfl, -, hl⟩ := h
  exact ⟨rfl, hl⟩

theorem chain_row {f : ℕ → α} {n : ℕ} (hz : ∀ k ≤ n, f k ≠ z) (hlink : ∀ k < n, next (f k) = f (k + 1))
    (hlast : next (f n) = z) : Chain next z (f 0) ((List.range (n + 1)).map f) := by
  induction n generalizing f with
  | zero => exact ⟨rfl, hz 0 (Nat.le_refl 0), hlast⟩
  | succ n ih =>
    rw [List.range_succ_eq_map, List.map_cons, List.map_map]
    refine ⟨rfl, hz 0 (Nat.zero_le _), ?_⟩
    rw [hlink 0 (Nat.succ_pos n)]
    exact ih (f := f ∘ Nat.succ) (fun k hk => hz (k + 1) (Nat.succ_le_succ hk))
      (fun k hk => hlink (k + 1) (Nat.succ_lt_succ hk)) hlast

end Lib
