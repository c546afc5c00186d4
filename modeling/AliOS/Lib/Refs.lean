/-
  Reference counts: a finite table of slots, each of which may refer to an object.
  `refs t i` is the number of slots that refer to `i`; taking a free slot adds one to the
  count of one object, and giving it back takes one away.
-/
import Mathlib.Data.Fintype.Card

namespace Lib

variable {F I : Type*} [Fintype F] [DecidableEq I] {t : F → Option I} {f : F} {i j : I}

/-- The number of slots that refer to the object. -/
def refs (t : F → Option I) (i : I) : ℕ := (Finset.univ.filter fun f => t f = some i).card

theorem refs_hold [DecidableEq F] (h : t f = none) :
    refs (Function.update t f (some i)) j = refs t j + if j = i then 1 else 0 := by
  by_cases hji : j = i
  · subst hji
    have hset : (Finset.univ.filter fun g => Function.update t f (some j) g = some j) =
        insert f (Finset.univ.filter fun g => t g = some j) := by
      ext g
      by_cases hg : g = f
      · subst hg
        simp
      · simp [hg]
    have hnot : f ∉ Finset.univ.filter fun g => t g = some j := by simp [h]
    rw [refs, hset, Finset.card_insert_of_notMem hnot, refs, if_pos rfl]
  · have hset : (Finset.univ.filter fun g => Function.update t f (some i) g = some j) =
        Finset.univ.filter fun g => t g = some j := by
      ext g
      by_cases hg : g = f
      · subst hg
        simp [h, Ne.symm hji]
      · simp [Function.update_of_ne hg]
    rw [refs, hset, refs, if_neg hji]
    rfl

theorem refs_release [DecidableEq F] (h : t f = some i) :
    refs t j = refs (Function.update t f none) j + if j = i then 1 else 0 := by
  have hback : Function.update (Function.update t f none) f (some i) = t := by
    rw [Function.update_idem, ← h, Function.update_eq_self]
  rw [← refs_hold (Function.update_self f none t), hback]

theorem refs_le_card : refs t i ≤ Fintype.card F := Finset.card_le_univ _

theorem refs_eq_zero : refs t i = 0 ↔ ∀ f, t f ≠ some i := by
  rw [refs, Finset.card_eq_zero]
  constructor
  · intro h f hf
    have hmem : f ∈ Finset.univ.filter fun g => t g = some i := by simp [hf]
    rw [h] at hmem
    exact Finset.notMem_empty f hmem
  · intro h
    ext f
    simp [h f]

@[simp] theorem refs_none : refs (fun _ : F => none) i = 0 := refs_eq_zero.2 fun _ => nofun

end Lib
