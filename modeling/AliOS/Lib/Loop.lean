/-
  Loops given by their turns.

  `step s` is the state after one more turn of the loop, or `none` where the
  loop ends.  `Turns step s t` says that the turns from `s` come to `t`, and
  `loopFor step n s` is the state in which the loop ends within `n` turns.
-/
import Mathlib.Data.List.Basic

namespace Lib

variable {σ : Type*} {step : σ → Option σ} {s t u : σ} {I : σ → Prop} {n : ℕ}

/-- The turns of a loop from `s` come to `t`. -/
inductive Turns (step : σ → Option σ) (s : σ) : σ → Prop
  | refl : Turns step s s
  | next {t u : σ} : Turns step s t → step t = some u → Turns step s u

/-- The state in which a loop ends within `n` turns. -/
def loopFor (step : σ → Option σ) : ℕ → σ → Option σ
  | 0, s => if (step s).isNone then some s else none
  | n + 1, s =>
    match step s with
    | none => some s
    | some t => loopFor step n t

theorem loopFor_end (hs : step s = none) : loopFor step n s = some s := by
  cases n with
  | zero =>
    rw [loopFor, hs]
    rfl
  | succ n => rw [loopFor, hs]

theorem loopFor_turn (hs : step s = some u) : loopFor step (n + 1) s = loopFor step n u := by
  rw [loopFor, hs]

theorem loopFor_out (hs : step s = some u) : loopFor step 0 s = none := by
  rw [loopFor, hs]
  rfl

theorem Turns.keeps (hstep : ∀ {t u}, I t → step t = some u → I u) (h : Turns step s t) (hs : I s) :
    I t := by
  induction h with
  | refl => exact hs
  | next _ hu ih => exact hstep ih hu

theorem Turns.first (hu : step s = some u) (h : Turns step u t) : Turns step s t := by
  induction h with
  | refl => exact .next .refl hu
  | next _ hv ih => exact .next ih hv

theorem Turns.cases_first (h : Turns step s t) : s = t ∨ ∃ u, step s = some u ∧ Turns step u t := by
  induction h with
  | refl => exact .inl rfl
  | @next t u _ hu ih =>
    rcases ih with rfl | ⟨v, hv, hrest⟩
    · exact .inr ⟨u, hu, .refl⟩
    · exact .inr ⟨v, hv, hrest.next hu⟩

theorem Turns.eq_of_end (hend : step s = none) (h : Turns step s t) : t = s := by
  induction h with
  | refl => rfl
  | next _ hu ih =>
    rw [ih, hend] at hu
    cases hu

theorem Turns.iff_end (hend : step s = none) : Turns step s t ↔ t = s :=
  ⟨fun h => h.eq_of_end hend, fun h => h ▸ .refl⟩

theorem Turns.iff_first (hu : step s = some u) (hne : s ≠ t) : Turns step s t ↔ Turns step u t := by
  refine ⟨fun h => ?_, fun h => h.first hu⟩
  rcases h.cases_first with rfl | ⟨v, hv, hrest⟩
  · exact absurd rfl hne
  · rw [hu] at hv
    cases hv
    exact hrest

theorem Turns.end_unique (h1 : Turns step s t) (ht : step t = none) (h2 : Turns step s u) (hu : step u = none) :
    t = u := by
  have hreach : ∀ {v}, Turns step s v → Turns step v t := by
    intro v hv
    induction hv with
    | refl => exact h1
    | @next v w _ hw ih =>
      -- the turns from `v` to `t` begin with that to `w`
      rcases ih.cases_first with rfl | ⟨x, hx, hrest⟩
      · rw [ht] at hw
        cases hw
      · rw [hw] at hx
        cases hx
        exact hrest
  exact (hreach h2).eq_of_end hu

theorem turns_of_loopFor (h : loopFor step n s = some t) : Turns step s t ∧ step t = none := by
  induction n generalizing s with
  | zero =>
    cases hs : step s with
    | none =>
      obtain rfl := Option.some.inj ((loopFor_end hs).symm.trans h)
      exact ⟨.refl, hs⟩
    | some u =>
      rw [loopFor_out hs] at h
      cases h
  | succ n ih =>
    cases hs : step s with
    | none =>
      obtain rfl := Option.some.inj ((loopFor_end hs).symm.trans h)
      exact ⟨.refl, hs⟩
    | some u =>
      rw [loopFor_turn hs] at h
      obtain ⟨hturns, hend⟩ := ih h
      exact ⟨hturns.first hs, hend⟩

theorem loopFor_row {f : ℕ → σ} {k : ℕ} (hturn : ∀ i < k, step (f i) = some (f (i + 1))) (hend : step (f k) = none)
    (hk : k ≤ n) : loopFor step n (f 0) = some (f k) := by
  induction k generalizing f n with
  | zero => exact loopFor_end hend
  | succ k ih =>
    obtain ⟨n, rfl⟩ : ∃ j, n = j + 1 := ⟨n - 1, by omega⟩
    rw [loopFor_turn (hturn 0 (Nat.succ_pos k))]
    exact ih (f := fun i => f (i + 1)) (fun i hi => hturn (i + 1) (Nat.succ_lt_succ hi)) hend (by omega)

theorem loopFor_isSome {μ : σ → ℕ} (hstep : ∀ {t u}, I t → step t = some u → I u ∧ μ u < μ t)
    (hs : I s) (hn : μ s ≤ n) : (loopFor step n s).isSome := by
  induction n generalizing s with
  | zero =>
    cases h : step s with
    | none =>
      rw [loopFor_end h]
      rfl
    | some t =>
      have hless := (hstep hs h).2
      omega
  | succ n ih =>
    cases h : step s with
    | none =>
      rw [loopFor_end h]
      rfl
    | some t =>
      obtain ⟨ht, hless⟩ := hstep hs h
      rw [loopFor_turn h]
      exact ih ht (by omega)

theorem loopFor_none (hstep : ∀ {t}, I t → ∃ u, step t = some u ∧ I u) (hs : I s) :
    loopFor step n s = none := by
  induction n generalizing s with
  | zero =>
    obtain ⟨u, hu, -⟩ := hstep hs
    exact loopFor_out hu
  | succ n ih =>
    obtain ⟨u, hu, hIu⟩ := hstep hs
    rw [loopFor_turn hu]
    exact ih hIu

end Lib
