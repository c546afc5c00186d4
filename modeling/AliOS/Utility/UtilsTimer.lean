/-
  The countdown timers (`utils_timer.c`).

  A timer is the reading of the 32-bit clock at which it expires.  Each function
  is given the readings that its calls of `HAL_UptimeMs` return, in turn.
-/
import AliOS.Lib.Clock

namespace UtilsTimer

open Lib

/-- `iotx_time_t` -/
structure Timer where
  time : BitVec 32

/-- `UINT32_MAX / 2` -/
def half : BitVec 32 := 0xFFFFFFFF / 2

/-- `utils_time_countdown_ms` -/
def countdownMs (timer : Option Timer) (millisecond now : BitVec 32) : Option Timer :=
  timer.map fun _ => ⟨now + millisecond⟩

/-- `utils_time_is_expired` -/
def isExpired (timer : Option Timer) (curTime : BitVec 32) : BitVec 32 :=
  match timer with
  | none => 1
  | some timer => if curTime - timer.time < half then 1 else 0

/-- `iotx_time_left`: the clock is read by `utils_time_is_expired`, and once more. -/
def timeLeft (end_ : Option Timer) (curTime now : BitVec 32) : BitVec 32 :=
  match end_ with
  | none => 0
  | some timer => if isExpired (some timer) curTime ≠ 0 then 0 else timer.time - now

/-- The reading `e` milliseconds after `c`. -/
def after (c : BitVec 32) (e : ℕ) : BitVec 32 := c + BitVec.ofNat 32 e

/-- A timer that counts down from the reading `c` expires after `ms`, and what is
    left of it is asked for after `e₀`, the clock being read after `e₁` and `e₂`. -/
structure CountsDown (timer : Timer) (c ms : BitVec 32) (e₀ e₁ e₂ : ℕ) : Prop where
  expired : ∀ e ≤ ms.toNat + (2 ^ 31 - 2),
    isExpired (countdownMs (some timer) ms c) (after c e) = 1 ↔ ms.toNat ≤ e
  left : (timeLeft (countdownMs (some timer) ms c) (after c e₁) (after c e₂)).toNat ≤ ms.toNat - e₀
  zero : ms.toNat ≤ e₀ → timeLeft (countdownMs (some timer) ms c) (after c e₁) (after c e₂) = 0

variable {timer : Timer} {c ms : BitVec 32} {e e₀ e₁ e₂ : ℕ}

theorem half_toNat : half.toNat = 2 ^ 31 - 1 := by decide

theorem off_after (hms : ms < half) (he : e ≤ ms.toNat + (2 ^ 31 - 2)) : off (c + ms) (after c e) = ms.toNat - e := by
  rw [BitVec.lt_def, half_toNat] at hms
  have hoff : off (c + ms) c = ms.toNat := off_add c (by omega)
  rw [after, off_sub (by rw [hoff]; omega), hoff]

theorem isExpired_iff (timer : Timer) (c : BitVec 32) (hms : ms < half) (he : e ≤ ms.toNat + (2 ^ 31 - 2)) :
    isExpired (countdownMs (some timer) ms c) (after c e) = 1 ↔ ms.toNat ≤ e := by
  have hiff : after c e - (c + ms) < half ↔ ms.toNat ≤ e := by
    rw [passed_lt_iff (by rw [half_toNat]; decide), off_after hms he, half_toNat]
    omega
  change (if after c e - (c + ms) < half then (1 : BitVec 32) else 0) = 1 ↔ ms.toNat ≤ e
  rw [← hiff]
  split_ifs with h
  · exact iff_of_true rfl h
  · exact iff_of_false (by decide) h

theorem timeLeft_eq (timer : Timer) (c : BitVec 32) (e₂ : ℕ) (hms : ms < half) (he : e₁ ≤ ms.toNat + (2 ^ 31 - 2)) :
    timeLeft (countdownMs (some timer) ms c) (after c e₁) (after c e₂) =
      if ms.toNat ≤ e₁ then 0 else c + ms - after c e₂ := by
  have hiff := isExpired_iff timer c hms he
  change (if isExpired (countdownMs (some timer) ms c) (after c e₁) ≠ 0 then _ else _) = _
  by_cases h : ms.toNat ≤ e₁
  · rw [if_pos h, hiff.2 h, if_pos (by decide)]
  · have hzero : isExpired (countdownMs (some timer) ms c) (after c e₁) = 0 := by
      have hne := mt hiff.1 h
      change (if after c e₁ - (c + ms) < half then (1 : BitVec 32) else 0) = 0
      rw [if_neg]
      intro hlt
      exact hne (if_pos hlt)
    rw [if_neg h, hzero, if_neg (fun hne => hne rfl)]

/-- **Countdowns** are exact, unless the deadline passes between the two readings of
    `iotx_time_left`. -/
theorem countsDown_iff (timer : Timer) (c ms : BitVec 32) (hms : ms < half) (h01 : e₀ ≤ e₁) (h12 : e₁ ≤ e₂)
    (h2 : e₂ ≤ ms.toNat + (2 ^ 31 - 2)) :
    CountsDown timer c ms e₀ e₁ e₂ ↔ ¬ (e₁ < ms.toNat ∧ ms.toNat < e₂) := by
  have hoff := off_after (c := c) hms h2
  have heq := timeLeft_eq timer c e₂ hms (h12.trans h2)
  constructor
  · rintro ⟨-, hleft, -⟩ ⟨h1, hpast⟩
    rw [heq, if_neg (by omega)] at hleft
    have hlt := (c + ms - after c e₂).isLt
    rw [off, BitVec.toInt_eq_toNat_cond] at hoff
    rw [BitVec.lt_def, half_toNat] at hms
    split at hoff <;> omega
  · intro hpast
    have hle : (timeLeft (countdownMs (some timer) ms c) (after c e₁) (after c e₂)).toNat ≤ ms.toNat - e₀ := by
      rw [heq]
      split_ifs with h1
      · exact Nat.zero_le _
      · have hleft := left_of_off (m := c + ms) (c := after c e₂) (by rw [hoff]; omega)
        rw [hoff, left] at hleft
        omega
    refine ⟨fun e he => isExpired_iff timer c hms he, hle, fun hz => ?_⟩
    rw [heq, if_pos (hz.trans h01)]

theorem countsDown_five : CountsDown ⟨0⟩ 0xFFFFFFFE 5 0 1 2 ↔ ¬ (1 < (5 : BitVec 32).toNat ∧ (5 : BitVec 32).toNat < 2) :=
  countsDown_iff ⟨0⟩ 0xFFFFFFFE 5 (by decide) (by decide) (by decide) (by decide)

/-- One millisecond is left at the first reading, and the second comes after two. -/
theorem timeLeft_wraps :
    timeLeft (countdownMs (some ⟨0⟩) 1 0) (after 0 0) (after 0 2) = 0xFFFFFFFF ∧ ¬ CountsDown ⟨0⟩ 0 1 0 0 2 := by
  have hwrap : timeLeft (countdownMs (some ⟨0⟩) 1 0) (after 0 0) (after 0 2) = 0xFFFFFFFF := by decide
  refine ⟨hwrap, fun h => ?_⟩
  have hle := h.left
  rw [hwrap] at hle
  exact absurd hle (by decide)

end UtilsTimer
