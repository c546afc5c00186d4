/-
  Programs that take and release locks.

  A program of `LockM ι σ` runs on a state `σ` and the set of locks of `ι` that its
  thread holds.  The locks are not recursive: taking a held lock never returns, and
  so does not return either what releases a lock that is not held.
  `wp` is the weakest precondition of a program, with a parameter for what is said
  of the runs that are stuck at a lock.
-/
import Mathlib.Logic.Function.Basic

namespace Lib

/-- How a program ends: with a result, stuck at a lock, or at a fault of its own. -/
inductive LockRes (ι σ α : Type*)
  | ok (a : α) (s : σ) (held : ι → Bool)
  | stuck
  | fault

def LockM (ι σ α : Type) := σ → (ι → Bool) → LockRes ι σ α

namespace LockM

variable {ι σ α β : Type} {s s' : σ} {h h' : ι → Bool} {l : ι} {a : α} {m : LockM ι σ α}
  {f : α → LockM ι σ β} {P : Prop}

instance : Monad (LockM ι σ) where
  pure a := fun s h => .ok a s h
  bind m f := fun s h =>
    match m s h with
    | .ok a s h => f a s h
    | .stuck => .stuck
    | .fault => .fault

def get : LockM ι σ σ := fun s h => .ok s s h

def modify (f : σ → σ) : LockM ι σ Unit := fun s h => .ok () (f s) h

def fault : LockM ι σ α := fun _ _ => .fault

def lock [DecidableEq ι] (l : ι) : LockM ι σ Unit := fun s h =>
  if h l then .stuck else .ok () s (Function.update h l true)

def unlock [DecidableEq ι] (l : ι) : LockM ι σ Unit := fun s h =>
  if h l then .ok () s (Function.update h l false) else .stuck

/-! ## Weakest preconditions -/

/-- `Q` holds wherever `m` returns; `P` is demanded of the runs that are stuck. -/
def wp (P : Prop) (m : LockM ι σ α) (Q : α → σ → (ι → Bool) → Prop) (s : σ) (h : ι → Bool) : Prop :=
  match m s h with
  | .ok a s h => Q a s h
  | .stuck => P
  | .fault => True

@[simp] theorem wp_pure {Q : α → σ → (ι → Bool) → Prop} : wp P (pure a) Q s h ↔ Q a s h := Iff.rfl

@[simp] theorem wp_get {Q : σ → σ → (ι → Bool) → Prop} : wp P get Q s h ↔ Q s s h := Iff.rfl

@[simp] theorem wp_modify {g : σ → σ} {Q : Unit → σ → (ι → Bool) → Prop} :
    wp P (modify g) Q s h ↔ Q () (g s) h := Iff.rfl

@[simp] theorem wp_fault {Q : α → σ → (ι → Bool) → Prop} : wp P fault Q s h := trivial

@[simp] theorem wp_bind {Q : β → σ → (ι → Bool) → Prop} :
    wp P (m >>= f) Q s h ↔ wp P m (fun a => wp P (f a) Q) s h := by
  unfold wp
  change (match (match m s h with | .ok a s h => f a s h | .stuck => .stuck | .fault => .fault) with
    | .ok a s h => Q a s h
    | .stuck => P
    | .fault => True) ↔ _
  cases m s h <;> rfl

@[simp] theorem wp_ite {b : Prop} [Decidable b] {m' : LockM ι σ α} {Q : α → σ → (ι → Bool) → Prop} :
    wp P (if b then m else m') Q s h ↔ if b then wp P m Q s h else wp P m' Q s h := by
  split <;> rfl

theorem wp_mono {Q R : α → σ → (ι → Bool) → Prop} (hQR : ∀ a s h, Q a s h → R a s h) (hm : wp P m Q s h) :
    wp P m R s h := by
  unfold wp at hm ⊢
  cases hr : m s h with
  | ok a s h =>
    rw [hr] at hm
    exact hQR a s h hm
  | stuck =>
    rw [hr] at hm
    exact hm
  | fault => trivial

theorem of_ok {Q : α → σ → (ι → Bool) → Prop} (hm : wp True m Q s h) (hr : m s h = .ok a s' h') :
    Q a s' h' := by
  unfold wp at hm
  rw [hr] at hm
  exact hm

section Locks

variable [DecidableEq ι] {Q : Unit → σ → (ι → Bool) → Prop}

theorem wp_lock : wp P (lock l) Q s h ↔ if h l then P else Q () s (Function.update h l true) := by
  unfold wp lock
  cases h l <;> rfl

theorem wp_unlock : wp P (unlock l) Q s h ↔ if h l then Q () s (Function.update h l false) else P := by
  unfold wp unlock
  cases h l <;> rfl

theorem update_taken_ne (hl : h l = false) : Function.update h l true ≠ h := by
  intro he
  have h1 := congrFun he l
  rw [Function.update_self, hl] at h1
  cases h1

theorem wp_lock_free (hl : h l = false) : wp P (lock l) Q s h ↔ Q () s (Function.update h l true) := by
  rw [wp_lock, hl]
  rfl

@[simp] theorem wp_lock_taken : wp P (lock l) Q s (Function.update h l true) ↔ P := by
  rw [wp_lock, Function.update_self]
  rfl

theorem wp_unlock_taken (hl : h l = false) :
    wp P (unlock l) Q s (Function.update h l true) ↔ Q () s h := by
  rw [wp_unlock, Function.update_self, Function.update_idem, ← hl, Function.update_eq_self]
  rfl

theorem wp_lock_of (hQ : h l = false → Q () s (Function.update h l true)) : wp True (lock l) Q s h := by
  rw [wp_lock]
  split
  · trivial
  · exact hQ (Bool.eq_false_iff.2 ‹_›)

theorem wp_unlock_of (hQ : h l = true → Q () s (Function.update h l false)) : wp True (unlock l) Q s h := by
  rw [wp_unlock]
  split
  · exact hQ ‹_›
  · trivial

theorem wp_lock_bind {k : Unit → LockM ι σ β} {R : β → σ → (ι → Bool) → Prop}
    (hk : h l = false → wp True (k ()) R s (Function.update h l true)) : wp True (lock l >>= k) R s h :=
  wp_bind.2 (wp_lock_of hk)

theorem wp_unlock_bind {k : Unit → LockM ι σ β} {R : β → σ → (ι → Bool) → Prop}
    (hk : h l = true → wp True (k ()) R s (Function.update h l false)) : wp True (unlock l >>= k) R s h :=
  wp_bind.2 (wp_unlock_of hk)

end Locks

/-! ## Balance -/

/-- The program takes no lock that it holds, releases none that it does not hold, and
    ends with the locks it began with. -/
def LockBalanced (m : LockM ι σ α) (s : σ) (h : ι → Bool) : Prop := wp False m (fun _ _ h' => h' = h) s h

end LockM

end Lib
