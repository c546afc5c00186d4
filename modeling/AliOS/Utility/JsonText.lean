/-
  JSON texts by their grammar.

  A value is a tree with the texts of its strings and numbers and the white space between
  its parts; `text` is the text of a tree, and `Ok` says that its parts are as the grammar
  has them.
-/
import AliOS.Utility.JsonParser

namespace Lite

/-! ## Parts -/

def IsWs (w : List Char) : Prop := ∀ c ∈ w, c ∈ [' ', '\t', '\n', '\r']

theorem IsWs.nil : IsWs [] := List.forall_mem_nil _

def isHex (c : Char) : Bool := isDigit c || ('a' ≤ c && c ≤ 'f') || ('A' ≤ c && c ≤ 'F')

/-- The characters of a string. -/
inductive IsChars : List Char → Prop
  | nil : IsChars []
  | char {c : Char} {s : List Char} : c ≠ '"' → c ≠ '\\' → ' ' ≤ c → IsChars s → IsChars (c :: s)
  | esc {c : Char} {s : List Char} : c ∈ ['"', '\\', '/', 'b', 'f', 'n', 'r', 't'] → IsChars s →
      IsChars ('\\' :: c :: s)
  | unicode {h₁ h₂ h₃ h₄ : Char} {s : List Char} : isHex h₁ = true → isHex h₂ = true → isHex h₃ = true →
      isHex h₄ = true → IsChars s → IsChars ('\\' :: 'u' :: h₁ :: h₂ :: h₃ :: h₄ :: s)

def IsDigits (s : List Char) : Prop := s ≠ [] ∧ ∀ c ∈ s, isDigit c = true

def IsInt (s : List Char) : Prop := IsDigits s ∧ (s.head? = some '0' → s = ['0'])

def IsFrac (s : List Char) : Prop := s = [] ∨ ∃ ds, IsDigits ds ∧ s = '.' :: ds

def IsExp (s : List Char) : Prop :=
  s = [] ∨ ∃ e sign ds, e ∈ ['e', 'E'] ∧ sign ∈ [[], ['+'], ['-']] ∧ IsDigits ds ∧ s = e :: (sign ++ ds)

/-! ## Values -/

mutual

inductive Value
  | string (s : List Char)
  | number (neg : Bool) (int frac exp : List Char)
  | bool (b : Bool)
  | null
  | array (ws : List Char) (items : Items)
  | object (ws : List Char) (members : Members)

/-- The items of an array, each between white space. -/
inductive Items
  | nil
  | cons (w : List Char) (val : Value) (w' : List Char) (items : Items)

/-- The members of an object: the name between white space, the value between white space. -/
inductive Members
  | nil
  | cons (w name w₁ w₂ : List Char) (val : Value) (w₃ : List Char) (members : Members)

end

/-- The comma before what follows. -/
def Items.comma : Items → List Char
  | .nil => []
  | .cons .. => [',']

def Members.comma : Members → List Char
  | .nil => []
  | .cons .. => [',']

/-- The text of a word. -/
def word (b : Bool) : List Char := if b then ['t', 'r', 'u', 'e'] else ['f', 'a', 'l', 's', 'e']

mutual

def Value.text : Value → List Char
  | .string s => '"' :: (s ++ ['"'])
  | .number neg int frac exp => (if neg then ['-'] else []) ++ (int ++ (frac ++ exp))
  | .bool b => word b
  | .null => ['n', 'u', 'l', 'l']
  | .array ws items => '[' :: (ws ++ items.text ++ [']'])
  | .object ws members => '{' :: (ws ++ members.text ++ ['}'])

def Items.text : Items → List Char
  | .nil => []
  | .cons w val w' items => w ++ (val.text ++ (w' ++ (items.comma ++ items.text)))

def Members.text : Members → List Char
  | .nil => []
  | .cons w name w₁ w₂ val w₃ members =>
    w ++ '"' :: (name ++ '"' :: (w₁ ++ ':' :: (w₂ ++ (val.text ++ (w₃ ++ (members.comma ++ members.text))))))

end

mutual

def Value.Ok : Value → Prop
  | .string s => IsChars s
  | .number _ int frac exp => IsInt int ∧ IsFrac frac ∧ IsExp exp
  | .bool _ | .null => True
  | .array ws items => IsWs ws ∧ items.Ok
  | .object ws members => IsWs ws ∧ members.Ok

def Items.Ok : Items → Prop
  | .nil => True
  | .cons w val w' items => IsWs w ∧ val.Ok ∧ IsWs w' ∧ items.Ok

def Members.Ok : Members → Prop
  | .nil => True
  | .cons w name w₁ w₂ val w₃ members =>
    IsWs w ∧ IsChars name ∧ IsWs w₁ ∧ IsWs w₂ ∧ val.Ok ∧ IsWs w₃ ∧ members.Ok

end

/-- An object with white space around it. -/
structure ObjectText where
  lead : List Char
  ws : List Char
  members : Members
  trail : List Char
  lead_ok : IsWs lead
  ws_ok : IsWs ws
  members_ok : members.Ok
  trail_ok : IsWs trail

/-- The end of the object. -/
def ObjectText.after (t : ObjectText) : List Char := '}' :: t.trail

def ObjectText.text (t : ObjectText) : List Char := t.lead ++ '{' :: (t.ws ++ (t.members.text ++ t.after))

/-! ## Characters of the parts -/

variable {c : Char} {s w : List Char}

theorem IsWs.skip (h : IsWs w) : ∀ c ∈ w, startsValue c = false := by
  intro c hc
  have hws := h c hc
  simp only [List.mem_cons, List.not_mem_nil, or_false] at hws
  rcases hws with rfl | rfl | rfl | rfl <;> decide

theorem IsWs.not_mem (h : IsWs w) (hc : c ∉ [' ', '\t', '\n', '\r']) : c ∉ w := fun hw => hc (h c hw)

theorem isDigit_le (h : isDigit c = true) : '0' ≤ c := by
  rw [isDigit, Bool.and_eq_true, decide_eq_true_iff] at h
  exact h.1

theorem IsChars.le (h : IsChars s) : ∀ c ∈ s, ' ' ≤ c := by
  induction h with
  | nil => nofun
  | char _ _ hc _ ih =>
    intro x hx
    rcases List.mem_cons.1 hx with rfl | hx
    · exact hc
    · exact ih x hx
  | @esc e s he _ ih =>
    intro x hx
    rcases List.mem_cons.1 hx with rfl | hx
    · decide
    rcases List.mem_cons.1 hx with rfl | hx
    · simp only [List.mem_cons, List.not_mem_nil, or_false] at he
      rcases he with rfl | rfl | rfl | rfl | rfl | rfl | rfl | rfl <;> decide
    · exact ih x hx
  | unicode h1 h2 h3 h4 _ ih =>
    have hhex : ∀ {x}, isHex x = true → ' ' ≤ x := by
      intro x hx
      simp only [isHex, isDigit, Bool.or_eq_true, Bool.and_eq_true, decide_eq_true_eq] at hx
      rcases hx with (⟨hx, -⟩ | ⟨hx, -⟩) | ⟨hx, -⟩ <;> exact Char.le_trans (by decide) hx
    intro x hx
    simp only [List.mem_cons] at hx
    rcases hx with rfl | rfl | rfl | rfl | rfl | rfl | hx
    · decide
    · decide
    · exact hhex h1
    · exact hhex h2
    · exact hhex h3
    · exact hhex h4
    · exact ih x hx

theorem IsChars.nul_not_mem (h : IsChars s) : nul ∉ s := fun hs => absurd (h.le _ hs) (by decide)

/-- Behind its digits a number has no quotes and no NULs, and begins with no digit. -/
theorem tail_chars {frac exp : List Char} (hf : IsFrac frac) (he : IsExp exp) :
    ∀ c ∈ frac ++ exp, isDigit c = true ∨ c ∈ ['.', 'e', 'E', '+', '-'] := by
  intro c hc
  rcases List.mem_append.1 hc with hc | hc
  · rcases hf with rfl | ⟨ds, hds, rfl⟩
    · cases hc
    · rcases List.mem_cons.1 hc with rfl | hc
      · exact .inr (by decide)
      · exact .inl (hds.2 c hc)
  · rcases he with rfl | ⟨e, sign, ds, he, hsign, hds, rfl⟩
    · cases hc
    · rcases List.mem_cons.1 hc with rfl | hc
      · right
        simp only [List.mem_cons, List.not_mem_nil, or_false] at he ⊢
        tauto
      · rcases List.mem_append.1 hc with hc | hc
        · right
          simp only [List.mem_cons, List.not_mem_nil, or_false] at hsign ⊢
          rcases hsign with rfl | rfl | rfl
          · cases hc
          · rw [List.mem_singleton] at hc
            tauto
          · rw [List.mem_singleton] at hc
            tauto
        · exact .inl (hds.2 c hc)

theorem not_mem_tail {frac exp : List Char} (hf : IsFrac frac) (he : IsExp exp) (hd : isDigit c = false)
    (hc : c ∉ ['.', 'e', 'E', '+', '-']) : c ∉ frac ++ exp := by
  intro h
  rcases tail_chars hf he c h with h | h
  · rw [hd] at h
    cases h
  · exact hc h

theorem tail_head {frac exp : List Char} (hf : IsFrac frac) (he : IsExp exp) :
    frac ++ exp = [] ∨ ∃ b t, frac ++ exp = b :: t ∧ isDigit b = false := by
  rcases hf with rfl | ⟨ds, -, rfl⟩
  · rcases he with rfl | ⟨e, sign, ds, he, -, -, rfl⟩
    · exact .inl rfl
    · refine .inr ⟨e, _, rfl, ?_⟩
      simp only [List.mem_cons, List.not_mem_nil, or_false] at he
      rcases he with rfl | rfl <;> decide
  · exact .inr ⟨'.', _, rfl, by decide⟩

theorem IsDigits.nul_not_mem (h : IsDigits s) : nul ∉ s := fun hs => absurd (isDigit_le (h.2 _ hs)) (by decide)

/-! ## Texts have no NUL -/

mutual

theorem Value.nul_not_mem : ∀ val : Value, val.Ok → nul ∉ val.text
  | .string s, h => by
    have hs : nul ∉ s := IsChars.nul_not_mem h
    simp [Value.text, hs, nul]
  | .number neg int frac exp, h => by
    have hint := h.1.1.nul_not_mem
    have htail := not_mem_tail (c := nul) h.2.1 h.2.2 (by decide) (by decide)
    rw [Value.text, List.mem_append, List.mem_append, not_or, not_or]
    refine ⟨?_, hint, htail⟩
    cases neg <;> decide
  | .bool b, _ => by cases b <;> decide
  | .null, _ => by decide
  | .array ws items, h => by
    have hws := h.1.not_mem (c := nul) (by decide)
    have hitems := items.nul_not_mem h.2
    simp [Value.text, hws, hitems, nul]
  | .object ws members, h => by
    have hws := h.1.not_mem (c := nul) (by decide)
    have hmembers := members.nul_not_mem h.2
    simp [Value.text, hws, hmembers, nul]

theorem Items.nul_not_mem : ∀ items : Items, items.Ok → nul ∉ items.text
  | .nil, _ => by simp [Items.text]
  | .cons w val w' items, h => by
    have hw := h.1.not_mem (c := nul) (by decide)
    have hval := val.nul_not_mem h.2.1
    have hw' := h.2.2.1.not_mem (c := nul) (by decide)
    have hitems := items.nul_not_mem h.2.2.2
    have hcomma : nul ∉ items.comma := by cases items <;> simp [Items.comma, nul]
    simp [Items.text, hw, hval, hw', hitems, hcomma]

theorem Members.nul_not_mem : ∀ members : Members, members.Ok → nul ∉ members.text
  | .nil, _ => by simp [Members.text]
  | .cons w name w₁ w₂ val w₃ members, h => by
    obtain ⟨hw, hname, hw1, hw2, hval, hw3, hmembers⟩ := h
    have hw := hw.not_mem (c := nul) (by decide)
    have hname := hname.nul_not_mem
    have hw1 := hw1.not_mem (c := nul) (by decide)
    have hw2 := hw2.not_mem (c := nul) (by decide)
    have hval := val.nul_not_mem hval
    have hw3 := hw3.not_mem (c := nul) (by decide)
    have hmembers := members.nul_not_mem hmembers
    have hcomma : nul ∉ members.comma := by cases members <;> simp [Members.comma, nul]
    simp [Members.text, hw, hname, hw1, hw2, hval, hw3, hmembers, hcomma, nul]

end

theorem ObjectText.nul_not_mem (t : ObjectText) : nul ∉ t.text := by
  have hlead := t.lead_ok.not_mem (c := nul) (by decide)
  have hws := t.ws_ok.not_mem (c := nul) (by decide)
  have hmembers := t.members.nul_not_mem t.members_ok
  have htrail := t.trail_ok.not_mem (c := nul) (by decide)
  simp [ObjectText.text, ObjectText.after, hlead, hws, hmembers, htrail, nul]

end Lite
