/-
  Lists cut at a separator.

  `split_induction` is induction over the parts of a list: a list without the
  separator, and such a part with the separator and another list behind it.
-/
import Mathlib.Data.List.Basic

namespace Lib

variable {α : Type*} [BEq α] [LawfulBEq α] {c x : α}

@[elab_as_elim]
theorem split_induction {P : List α → Prop} (c : α) (last : ∀ a, c ∉ a → P a)
    (part : ∀ a q, c ∉ a → P q → P (a ++ c :: q)) (p : List α) : P p := by
  by_cases hc : c ∈ p
  · obtain ⟨a, q, hp, ha⟩ := List.eq_append_cons_of_mem hc
    rw [hp]
    exact part a q ha (split_induction c last part q)
  · exact last p hc
termination_by p.length
decreasing_by
  rw [hp, List.length_append, List.length_cons]
  omega

theorem mem_splitOn (hx : x ≠ c) (p : List α) : x ∈ p ↔ ∃ l ∈ p.splitOn c, x ∈ l := by
  induction p using split_induction c with
  | last a ha => simp [List.splitOn_eq_singleton ha]
  | part a q ha ih => simp [List.splitOn_append_cons_self_of_not_mem ha, hx, ih]

theorem not_mem_of_mem_splitOn {p l : List α} (h : l ∈ p.splitOn c) : c ∉ l := by
  induction p using split_induction c with
  | last a ha =>
    rw [List.splitOn_eq_singleton ha, List.mem_singleton] at h
    rwa [h]
  | part a q ha ih =>
    rw [List.splitOn_append_cons_self_of_not_mem ha] at h
    rcases List.mem_cons.1 h with rfl | h
    · exact ha
    · exact ih h

end Lib
