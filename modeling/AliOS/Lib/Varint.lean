/-
  Numbers in bytes of seven bits, the low ones first: all bytes but the last have
  the top bit set.

  `value` is the number, and `IsVarint` says that bytes are one encoding of it.
  A number has many, of which `Minimal` is the shortest.
-/
import Mathlib.Algebra.Group.Nat.Defs
import Mathlib.Data.List.Basic

namespace Lib.Varint

/-- The number that bytes stand for. -/
def value : List UInt8 → ℕ
  | [] => 0
  | b :: bs => b.toNat % 128 + 128 * value bs

/-- All bytes but the last have the top bit. -/
def IsVarint : List UInt8 → Prop
  | [] => False
  | b :: bs => if bs = [] then b.toNat < 128 else 128 ≤ b.toNat ∧ IsVarint bs

instance decidableIsVarint : (bs : List UInt8) → Decidable (IsVarint bs)
  | [] => inferInstanceAs (Decidable False)
  | b :: bs =>
    have := decidableIsVarint bs
    inferInstanceAs (Decidable (if bs = [] then b.toNat < 128 else 128 ≤ b.toNat ∧ IsVarint bs))

/-- No encoding of the same number is shorter. -/
def Minimal (bs : List UInt8) : Prop :=
  IsVarint bs ∧ ∀ cs, IsVarint cs → value cs = value bs → bs.length ≤ cs.length

variable {b : UInt8} {bs : List UInt8}

theorem isVarint_one : IsVarint [b] ↔ b.toNat < 128 := by
  unfold IsVarint
  rw [if_pos rfl]

theorem isVarint_cons (h : bs ≠ []) : IsVarint (b :: bs) ↔ 128 ≤ b.toNat ∧ IsVarint bs := by
  conv_lhs => unfold IsVarint
  rw [if_neg h]

theorem IsVarint.ne_nil (h : IsVarint bs) : bs ≠ [] := by
  rintro rfl
  exact h

theorem IsVarint.tail_iff (h : IsVarint (b :: bs)) : bs = [] ↔ b.toNat < 128 := by
  by_cases hbs : bs = []
  · subst hbs
    exact ⟨fun _ => isVarint_one.1 h, fun _ => rfl⟩
  · have hb := ((isVarint_cons hbs).1 h).1
    exact ⟨fun h => absurd h hbs, fun h => by omega⟩

theorem value_lt (bs : List UInt8) : value bs < 128 ^ bs.length := by
  induction bs with
  | nil => exact Nat.one_pos
  | cons b bs ih =>
    rw [value, List.length_cons, pow_succ]
    omega

theorem minimal_of_le (h : IsVarint bs) (htop : bs.length = 1 ∨ 128 ^ (bs.length - 1) ≤ value bs) :
    Minimal bs := by
  refine ⟨h, fun cs hcs hval => ?_⟩
  rcases htop with hone | hle
  · rw [hone]
    exact List.length_pos_iff.2 hcs.ne_nil
  · by_contra hlt
    have hpow : 128 ^ cs.length ≤ 128 ^ (bs.length - 1) := Nat.pow_le_pow_right (by decide) (by omega)
    have := value_lt cs
    omega

end Lib.Varint
