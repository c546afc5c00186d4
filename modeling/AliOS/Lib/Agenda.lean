/-
  Agendas: a set of entries from which the earliest one is taken.

  Entries are posted, and a take asks for the earliest of the entries that satisfy a
  predicate.  A list that is sorted keeps an agenda (`agenda_take`), and in every run an
  entry is taken as often as it was posted, but for the entries that are still in
  (`Run.agenda_count`).
-/
import AliOS.Lib.Trans
import Mathlib.Data.Set.Insert

namespace Lib

/-- `take p a`: the earliest of the entries with `p` is asked for, and it is `a`. -/
inductive AgendaOp (α : Type*) where
  | post (a : α)
  | take (p : α → Prop) (a : Option α)

variable {α : Type*}

/-- `a` is the earliest of the entries of `S` with `p`. -/
def Earliest (lt : α → α → Prop) (S : Set α) (p : α → Prop) (a : α) : Prop :=
  a ∈ S ∧ p a ∧ ∀ b ∈ S, p b → b ≠ a → lt a b

def AgendaStep (lt : α → α → Prop) (S : Set α) : AgendaOp α → Set α → Prop
  | .post a, S' => a ∉ S ∧ S' = insert a S
  | .take p (some a), S' => Earliest lt S p a ∧ S' = S \ {a}
  | .take p none, S' => (∀ b ∈ S, ¬ p b) ∧ S' = S

/-- The entries of a list. -/
def entries (l : List α) : Set α := {a | a ∈ l}

section Sorted

variable {lt : α → α → Prop} {l : List α} {a : α}

theorem nodup_of_pairwise (hirr : ∀ a, ¬ lt a a) (h : l.Pairwise lt) : l.Nodup := by
  refine h.imp ?_
  rintro a b hab rfl
  exact hirr a hab

theorem earliest_of_find? {p : α → Bool} (h : l.Pairwise lt) (hf : l.find? p = some a) :
    Earliest lt (entries l) (fun b => p b = true) a := by
  refine ⟨List.mem_of_find?_eq_some hf, List.find?_some hf, ?_⟩
  obtain ⟨-, as, bs, rfl, has⟩ := List.find?_eq_some_iff_append.1 hf
  intro b hb hp hne
  rcases List.mem_append.1 hb with hb | hb
  · have hno := has b hb
    rw [hp] at hno
    cases hno
  · rcases List.mem_cons.1 hb with rfl | hb
    · exact absurd rfl hne
    · exact (List.pairwise_cons.1 (List.pairwise_append.1 h).2.1).1 b hb

theorem entries_eraseP {p : α → Bool} (hn : l.Nodup) (hf : l.find? p = some a) :
    entries (l.eraseP p) = entries l \ {a} := by
  obtain ⟨hp, as, bs, rfl, has⟩ := List.find?_eq_some_iff_append.1 hf
  have has' : ∀ b ∈ as, ¬ p b = true := by
    intro b hb hpb
    have hno := has b hb
    rw [hpb] at hno
    cases hno
  rw [List.eraseP_append_right _ has', List.eraseP_cons_of_pos hp]
  ext b
  obtain ⟨-, hbs, hdis⟩ := List.nodup_append.1 hn
  have ha : a ∉ as := fun h => hdis a h a List.mem_cons_self rfl
  have hb : a ∉ bs := (List.nodup_cons.1 hbs).1
  simp only [entries, Set.mem_ofPred_eq, List.mem_append, List.mem_cons, Set.mem_sdiff, Set.mem_singleton_iff]
  constructor
  · rintro (h | h)
    · exact ⟨.inl h, fun heq => ha (heq ▸ h)⟩
    · exact ⟨.inr (.inr h), fun heq => hb (heq ▸ h)⟩
  · rintro ⟨h | h | h, hne⟩
    · exact .inl h
    · exact absurd h hne
    · exact .inr h

/-- **A sorted list is an agenda**: its first entry with `p` is the one to take. -/
theorem agenda_take {p : α → Bool} (hirr : ∀ a, ¬ lt a a) (h : l.Pairwise lt) :
    AgendaStep lt (entries l) (.take (fun b => p b = true) (l.find? p)) (entries (l.eraseP p)) := by
  cases hf : l.find? p with
  | none =>
    have hno : ∀ b ∈ l, ¬ p b = true := fun b hb => List.find?_eq_none.1 hf b hb
    refine ⟨hno, ?_⟩
    rw [List.eraseP_of_forall_not hno]
  | some a => exact ⟨earliest_of_find? h hf, entries_eraseP (nodup_of_pairwise hirr h) hf⟩

end Sorted

section Count

variable [DecidableEq α] {lt : α → α → Prop} {S T : Set α} {ops : List (AgendaOp α)}

/-- The operation posts the entry. -/
def AgendaOp.posts (a : α) : AgendaOp α → Bool
  | .post b => b = a
  | _ => false

/-- The operation takes the entry. -/
def AgendaOp.takes (a : α) : AgendaOp α → Bool
  | .take _ b => b = some a
  | _ => false

open Classical in
/-- **Once each**: an entry was taken as often as it was posted, or once less if it is still in. -/
theorem Run.agenda_count (h : Run (AgendaStep lt) S ops T) (a : α) :
    ops.countP (AgendaOp.takes a) + (if a ∈ T then 1 else 0) =
      ops.countP (AgendaOp.posts a) + (if a ∈ S then 1 else 0) := by
  induction h with
  | nil => rfl
  | @cons S op S' ops T hstep _ ih =>
    rw [List.countP_cons, List.countP_cons]
    have hone : (if op.takes a then 1 else 0) + (if a ∈ S' then 1 else 0) =
        (if op.posts a then 1 else 0) + (if a ∈ S then 1 else 0) := by
      cases op with
      | post b =>
        obtain ⟨hb, rfl⟩ := hstep
        by_cases hab : b = a
        · subst hab
          simp [AgendaOp.takes, AgendaOp.posts, hb]
        · simp [AgendaOp.takes, AgendaOp.posts, hab, Ne.symm hab]
      | take p b =>
        cases b with
        | none =>
          obtain ⟨-, rfl⟩ := hstep
          simp [AgendaOp.takes, AgendaOp.posts]
        | some b =>
          obtain ⟨⟨hb, -, -⟩, rfl⟩ := hstep
          by_cases hab : b = a
          · subst hab
            simp [AgendaOp.takes, AgendaOp.posts, hb]
          · simp [AgendaOp.takes, AgendaOp.posts, hab, Ne.symm hab]
    omega

end Count

end Lib
