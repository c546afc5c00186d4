/-
  Looking for a name in an object (`json_get_value_by_name`).

  `lookup` is what a name selects by the grammar: the value of the first member with this name.
  The scanner comes to it in a text that is `Aligned`, and gives it where the text is `Exact`.
-/
import AliOS.Utility.JsonScan
import AliOS.Utility.JsonText

namespace Lite

open Lib

/-! ## The member with a name -/

/-- A value in a text: its pointer, its length and its type. -/
abbrev Found := Ptr × ℕ × JsonType

/-- The value before `r`; a string is what stands between its quotes. -/
def Value.found (r : List Char) : Value → Found
  | .string s => (s ++ '"' :: r, s.length, .string)
  | .number neg int frac exp =>
    ((Value.number neg int frac exp).text ++ r, (Value.number neg int frac exp).text.length, .number)
  | .bool b => (word b ++ r, (word b).length, .boolean)
  | .null => (Value.null.text ++ r, Value.null.text.length, .none)
  | .array ws items => ((Value.array ws items).text ++ r, (Value.array ws items).text.length, .array)
  | .object ws members => ((Value.object ws members).text ++ r, (Value.object ws members).text.length, .object)

/-- The value of the first member with the name `key`, before `r`. -/
def Members.lookup (key r : List Char) : Members → Option Found
  | .nil => none
  | .cons _ name _ _ val w₃ members =>
    if name = key then some (val.found (w₃ ++ (members.comma ++ (members.text ++ r)))) else members.lookup key r

def ObjectText.lookup (t : ObjectText) (key z : List Char) : Option Found :=
  t.members.lookup key (t.after ++ nul :: z)

/-- What is returned and stored for a value, or for none. -/
def Answers : Option Found → Option Ptr → Option (ℕ × JsonType) → Prop
  | none, val, _ => val = none
  | some (p, len, type), val, out => val = some p ∧ out = some (len, type)

/-- `json_get_value_by_name` returns the value of the first member with the name, and NULL if there is none. -/
def LooksUp (t : ObjectText) (key : CStr) : Prop :=
  ∀ z, ∃ r, getValueByName (t.text ++ nul :: z) t.text.length key = some r ∧
    Answers (t.lookup key.text z) r.val r.out

/-! ## Where the scanner finds it -/

/-- No colon stands behind a quote of the name. -/
def NameAligned (name : List Char) : Prop := ':' ∉ name.dropWhile (· ≠ '"')

/-- The brackets of the text close at its end, wherever they stand. -/
def Value.Aligned : Value → Prop
  | .string s => '"' ∉ s
  | .number .. | .bool _ => True
  | .null => False
  | .array ws items => Balanced '[' ']' 0 (ws ++ items.text)
  | .object ws members => Balanced '{' '}' 0 (ws ++ members.text)

/-- The value is read to its end: it is not empty, and a number has digits only. -/
def Value.Exact (val : Value) : Prop :=
  val.Aligned ∧
    match val with
    | .string s => s ≠ []
    | .number neg _ frac exp => neg = false ∧ frac = [] ∧ exp = []
    | _ => True

/-- Up to the first member with the name, the scanner goes from member to member; `null`, of which it
    knows nothing, may be the last value. -/
def Members.Aligned (key : List Char) : Members → Prop
  | .nil => True
  | .cons _ name _ _ val _ members =>
    NameAligned name ∧ (name = key ∨ val.Aligned ∧ members.Aligned key ∨ val = .null ∧ members = .nil)

/-- `json_parse_name_value` passes over members with an empty name or value. -/
def Reported (name : List Char) (val : Value) : Prop := name ≠ [] ∧ val ≠ .string [] ∧ val ≠ .null

/-- The first member whose text from its name on begins with `key` is the one with this name, and
    its value is read to its end. -/
def Members.Exact (key r : List Char) : Members → Prop
  | .nil => True
  | .cons _ name w₁ w₂ val w₃ members =>
    if name = key then name ≠ [] ∧ val.Exact
    else
      ¬ (Reported name val ∧
        key <+: name ++ '"' :: (w₁ ++ ':' :: (w₂ ++ (val.text ++ (w₃ ++ (members.comma ++ (members.text ++ r))))))) ∧
        members.Exact key r

/-- Only blanks stand before the object. -/
def ObjectText.Opened (t : ObjectText) : Prop := ∀ c ∈ t.lead, c = ' '

def ObjectText.Aligned (t : ObjectText) (key : List Char) : Prop := t.Opened → t.members.Aligned key

/-- Behind other white space the object is not seen: then no member may have the name. -/
def ObjectText.Exact (t : ObjectText) (key : List Char) : Prop :=
  (t.Opened → t.members.Exact key t.after) ∧ (¬ t.Opened → t.members.lookup key t.after = none)

/-! ## Values -/

variable {c : Char} {s g u z v q : List Char} {len : ℕ} {type : JsonType} {p next : Ptr} {pair : Pair} {val : Value}

theorem mark_ne_nul (ht : type.bracket) : type.mark.1 ≠ nul ∧ type.mark.2 ≠ nul := by
  rcases ht with rfl | rfl <;> decide

/-- A value between brackets is given with its length only if these close where it ends. -/
theorem balanced_of_getValue {x : List Char} (ht : type.bracket) (htext : x = type.mark.1 :: (s ++ [type.mark.2]))
    (hz : nul ∉ x ∧ nul ∉ u) (h : getValue (x ++ (u ++ nul :: z)) = some (some (v, x.length, type, next))) :
    Balanced type.mark.1 type.mark.2 0 s := by
  obtain ⟨hx, hu⟩ := hz
  have hs : nul ∉ s := fun h => hx (htext ▸ List.mem_cons_of_mem _ (List.mem_append_left _ h))
  have hlen : x.length = s.length + 2 := by simp [htext, Nat.add_assoc]
  have happ : x ++ (u ++ nul :: z) = type.mark.1 :: (s ++ type.mark.2 :: (u ++ nul :: z)) := by simp [htext]
  rw [hlen, happ] at h
  have hz : nul ∉ s ++ type.mark.2 :: u := by
    rw [List.mem_append, List.mem_cons, not_or, not_or]
    exact ⟨hs, (mark_ne_nul ht).2.symm, hu⟩
  by_cases hopen : Unclosed type.mark.1 type.mark.2 0 (s ++ type.mark.2 :: u)
  · have heq := getValue_unclosed (z := z) ht hz hopen
    rw [List.append_assoc, List.cons_append, h] at heq
    simp only [Option.some.injEq, Prod.mk.injEq] at heq
    omega
  · obtain ⟨x, y, hxy, hx⟩ :
        ∃ x y, s ++ type.mark.2 :: u = x ++ type.mark.2 :: y ∧ Balanced type.mark.1 type.mark.2 0 x := by
      by_contra hno
      exact hopen fun x y hxy hx => hno ⟨x, y, hxy, hx⟩
    have hxz : nul ∉ x := fun hmem => hz (hxy ▸ List.mem_append_left _ hmem)
    have heq := getValue_bracket (r := y ++ nul :: z) ht hxz hx
    have htext : s ++ type.mark.2 :: (u ++ nul :: z) = x ++ type.mark.2 :: (y ++ nul :: z) := by
      have happ := congrArg (· ++ nul :: z) hxy
      simpa using happ
    rw [← htext, h] at heq
    simp only [Option.some.injEq, Prod.mk.injEq] at heq
    have hlen : s.length = x.length := by omega
    rw [(List.append_inj hxy hlen).1]
    exact hx

theorem getValue_bool (b : Bool) (hu : nul ∉ u) :
    getValue (word b ++ (u ++ nul :: z)) =
      some (some (word b ++ (u ++ nul :: z), (word b).length, .boolean, u ++ nul :: z)) := by
  have hw : word b ∈ words := by cases b <;> decide
  have hz : nul ∉ word b := by cases b <;> decide
  refine getValue_words hw ?_
  rw [List.mem_append, not_or]
  exact ⟨hz, hu⟩

theorem getValue_balanced (ht : type.bracket) (htext : v = type.mark.1 :: (s ++ [type.mark.2])) (hz : nul ∉ v)
    (hs : Balanced type.mark.1 type.mark.2 0 s) : getValue (v ++ u) = some (some (v ++ u, v.length, type, u)) := by
  subst htext
  have hin : nul ∉ s := fun h => hz (List.mem_cons_of_mem _ (List.mem_append_left _ h))
  simpa using getValue_bracket (r := u) ht hin hs

theorem getValue_digits {int tail : List Char} (neg : Bool) (hint : IsDigits int)
    (htail : ∃ b t, tail = b :: t ∧ isDigit b = false ∧ b ≠ nul) :
    getValue ((if neg then ['-'] else []) ++ (int ++ tail)) = some (some (int ++ tail, int.length, .number, tail)) := by
  obtain ⟨b, t, rfl, hb, hbz⟩ := htail
  have hsign : ∀ c ∈ if neg then ['-'] else [], startsValue c = false := by
    cases neg with
    | false => exact nofun
    | true => exact List.forall_mem_singleton.2 rfl
  rw [getValue_skip hsign (by cases neg <;> decide)]
  obtain ⟨hne, hdigits⟩ := hint
  cases int with
  | nil => exact absurd rfl hne
  | cons c s =>
    rw [List.forall_mem_cons] at hdigits
    exact getValue_number hdigits.1 hdigits.2 hb hbz

theorem digits_end {frac exp : List Char} (hf : IsFrac frac) (he : IsExp exp) (hz : nul ∉ frac ++ exp ++ u)
    (hu : ∃ b t, u = b :: t ∧ isDigit b = false) :
    ∃ b t, frac ++ exp ++ (u ++ v) = b :: t ∧ isDigit b = false ∧ b ≠ nul := by
  have hne : ∀ {b t}, frac ++ exp ++ u = b :: t → b ≠ nul := by
    rintro b t heq rfl
    exact hz (heq ▸ List.mem_cons_self)
  rcases tail_head hf he with hnil | ⟨b, t, heq, hb⟩
  · obtain ⟨b, t, rfl, hb⟩ := hu
    rw [hnil] at hne ⊢
    exact ⟨b, t ++ v, rfl, hb, hne rfl⟩
  · rw [heq] at hne ⊢
    exact ⟨b, t ++ (u ++ v), rfl, hb, hne rfl⟩

/-- **A value** is read up to where its text ends, but for what stands behind the digits of a number. -/
theorem getValue_aligned (hval : val.Aligned) (hok : val.Ok) (hz : nul ∉ val.text ++ u)
    (hu : ∃ b t, u = b :: t ∧ isDigit b = false) :
    ∃ v len type w, getValue (val.text ++ (u ++ nul :: z)) = some (some (v, len, type, w ++ (u ++ nul :: z))) ∧
      '"' ∉ w ∧ w <:+ val.text ∧ (len = 0 ↔ val = .string []) ∧
        ((v, len, type) = val.found (u ++ nul :: z) ∧ len ≠ 0 ↔ val.Exact) := by
  rw [List.mem_append, not_or] at hz
  cases val with
  | string s =>
    have hs : nul ∉ s := IsChars.nul_not_mem hok
    refine ⟨s ++ '"' :: (u ++ nul :: z), s.length, .string, [], ?_, nofun, List.nil_suffix, ?_, ?_⟩
    · simpa [Value.text] using getValue_string (r := u ++ nul :: z) hval hs
    · simp
    · simp [Value.Exact, Value.found, hval]
  | number neg int frac exp =>
    obtain ⟨⟨hint, -⟩, hfrac, hexp⟩ := hok
    have hend := digits_end (v := nul :: z) hfrac hexp (by simp [Value.text] at hz ⊢; tauto) hu
    have hquote := not_mem_tail hfrac hexp (c := '"') (by decide) (by decide)
    have hlen : int.length ≠ 0 := fun h => hint.1 (List.length_eq_zero_iff.1 h)
    refine ⟨int ++ (frac ++ exp ++ (u ++ nul :: z)), int.length, .number, frac ++ exp, ?_, hquote, ?_, ?_, ?_⟩
    · have heq := getValue_digits neg hint hend
      simpa [Value.text] using heq
    · rw [Value.text, ← List.append_assoc]
      exact List.suffix_append ..
    · simp [hlen]
    · cases neg <;> simp [Value.Exact, Value.Aligned, Value.found, Value.text, hlen]
  | bool b =>
    refine ⟨_, _, _, [], getValue_bool b hz.2, nofun, List.nil_suffix, ?_, ?_⟩
    · cases b <;> simp [word]
    · cases b <;> simp [Value.Exact, Value.found, Value.Aligned, word]
  | null => exact hval.elim
  | array ws items =>
    refine ⟨_, _, _, [], getValue_balanced (.inr rfl) rfl hz.1 hval, nofun, List.nil_suffix, ?_, ?_⟩
    · simp [Value.text]
    · simp [Value.Exact, Value.found, Value.text, hval]
  | object ws members =>
    refine ⟨_, _, _, [], getValue_balanced (.inl rfl) rfl hz.1 hval, nofun, List.nil_suffix, ?_, ?_⟩
    · simp [Value.text]
    · simp [Value.Exact, Value.found, Value.text, hval]

theorem null_skip : ∀ c ∈ Value.null.text, startsValue c = false := by
  intro c hc
  simp only [Value.text, List.mem_cons, List.not_mem_nil, or_false] at hc
  rcases hc with rfl | rfl | rfl | rfl <;> rfl

theorem found_aligned {r : List Char} (hok : val.Ok) (hz : nul ∉ val.text ++ u) (hr : r = u ++ nul :: z)
    (h : getValue (val.text ++ r) = some (some (v, len, type, next))) (hv : (v, len, type) = val.found r) :
    val.Aligned := by
  subst hr
  rw [List.mem_append, not_or] at hz
  cases val with
  | string s =>
    intro hq
    obtain ⟨x, y, rfl, hx⟩ := List.eq_append_cons_of_mem hq
    have hs : nul ∉ x := fun h => (IsChars.nul_not_mem hok) (List.mem_append_left _ h)
    have heq := getValue_string (r := y ++ '"' :: (u ++ nul :: z)) hx hs
    have hlen : len = x.length := by
      simp only [Value.text, List.cons_append, List.append_assoc, List.nil_append] at h
      rw [heq] at h
      simp only [Option.some.injEq, Prod.mk.injEq] at h
      exact h.2.1.symm
    simp only [Value.found, Prod.mk.injEq, List.length_append, List.length_cons] at hv
    omega
  | number | bool => trivial
  | null =>
    have hskip := getValue_skip (r := u ++ nul :: z) null_skip (by decide)
    rw [hskip] at h
    have hle := (getValue_suffix h).1.length_le
    simp only [Value.found, Prod.mk.injEq] at hv
    rw [hv.1, List.length_append] at hle
    have hpos : Value.null.text.length = 4 := rfl
    omega
  | array ws items =>
    simp only [Value.found, Prod.mk.injEq] at hv
    obtain ⟨-, rfl, rfl⟩ := hv
    exact balanced_of_getValue (.inr rfl) rfl hz h
  | object ws members =>
    simp only [Value.found, Prod.mk.injEq] at hv
    obtain ⟨-, rfl, rfl⟩ := hv
    exact balanced_of_getValue (.inl rfl) rfl hz h

theorem getValue_quote {r : Ptr} (h : getValue ('"' :: r) = some (some (v, len, type, next))) : v = r := by
  obtain ⟨⟨type', v', pos⟩, hfind, h⟩ := notNull_eq_some h
  cases hfind
  obtain ⟨len', -, h⟩ := Option.map_eq_some_iff.1 h
  simp only [Option.some.injEq, Prod.mk.injEq] at h
  exact h.1.symm

theorem found_le (val : Value) (r : List Char) (h : getValue (val.text ++ r) = some (some (v, len, type, next))) :
    next.length ≤ (val.found r).1.length := by
  have hnext := (getValue_suffix h).2.length_le
  cases val with
  | string s =>
    simp only [Value.text, List.cons_append, List.append_assoc, List.nil_append] at h
    rw [getValue_quote h] at hnext
    exact hnext
  | number | bool | null | array | object => exact hnext.trans (getValue_suffix h).1.length_le

/-! ## The loop -/

/-- The loop of `json_get_value_by_name` ends with `out`: whether there was a member, and what was found. -/
def ScansTo (key : CStr) (p : Ptr) (ret : Bool) (out : Bool × Nv) : Prop :=
  Turns (forTurn (report (getValueByNameCb key))) ⟨.at_ p, ret, ⟨0, .string, none⟩⟩ ⟨.null, out⟩

variable {key : CStr} {ret ret' : Bool} {out out' : Bool × Nv} {nv : Nv}

theorem scansTo_null (h : nextPair p = some none) : ScansTo key p ret out ↔ out = (ret, ⟨0, .string, none⟩) := by
  have hne : (⟨.at_ p, ret, ⟨0, .string, none⟩⟩ : Scan (Bool × Nv)) ≠ ⟨.null, out⟩ := by simp
  unfold ScansTo
  rw [Turns.iff_first (forTurn_null h) hne, Turns.iff_end rfl, Scan.mk.injEq, and_iff_right rfl]

theorem scansTo_break (h : nextPair p = some (some (pair, next)))
    (hrun : report (getValueByNameCb key) (ret, ⟨0, .string, none⟩) pair = some (out', true)) :
    ScansTo key p ret out ↔ out = out' := by
  have hne : (⟨.at_ p, ret, ⟨0, .string, none⟩⟩ : Scan (Bool × Nv)) ≠ ⟨.null, out⟩ := by simp
  have hturn : forTurn (report (getValueByNameCb key)) ⟨.at_ p, ret, ⟨0, .string, none⟩⟩ = some ⟨.null, out'⟩ := by
    rw [forTurn_some h, hrun]
    rfl
  unfold ScansTo
  rw [Turns.iff_first hturn hne, Turns.iff_end rfl, Scan.mk.injEq, and_iff_right rfl]

theorem scansTo_next (h : nextPair p = some (some (pair, next)))
    (hrun : report (getValueByNameCb key) (ret, ⟨0, .string, none⟩) pair = some ((ret', ⟨0, .string, none⟩), false)) :
    ScansTo key p ret out ↔ ScansTo key next ret' out := by
  have hne : (⟨.at_ p, ret, ⟨0, .string, none⟩⟩ : Scan (Bool × Nv)) ≠ ⟨.null, out⟩ := by simp
  have hturn : forTurn (report (getValueByNameCb key)) ⟨.at_ p, ret, ⟨0, .string, none⟩⟩ =
      some ⟨.at_ next, ret', ⟨0, .string, none⟩⟩ := by
    rw [forTurn_some h, hrun]
    rfl
  unfold ScansTo
  rw [Turns.iff_first hturn hne]

theorem report_val {data data' : Bool × Nv} {brk : Bool}
    (h : report (getValueByNameCb key) data pair = some (data', brk)) (hq : data'.2.pV = some q) : q = pair.val ∨ data.2.pV = some q := by
  unfold report at h
  split_ifs at h
  · obtain ⟨⟨nv, finish⟩, hcb, h⟩ := Option.map_eq_some_iff.1 h
    obtain ⟨eq, -, hcb⟩ := Option.map_eq_some_iff.1 hcb
    obtain ⟨rfl, rfl⟩ := Prod.mk.inj h
    split_ifs at hcb
    · obtain ⟨rfl, rfl⟩ := Prod.mk.inj hcb
      exact .inl (Option.some.inj hq).symm
    · obtain ⟨rfl, rfl⟩ := Prod.mk.inj hcb
      exact .inr hq
  · obtain ⟨rfl, rfl⟩ := Prod.mk.inj (Option.some.inj h)
    exact .inr hq

/-- The loop stands before `n`, and what it has found stands behind. -/
def Scan.before (n : ℕ) (st : Scan (Bool × Nv)) : Prop :=
  (∀ q, st.data.2.pV = some q → q.length < n) ∧ ∀ p, st.pos = .at_ p → p.length ≤ n

theorem Scan.before_turn {n : ℕ} {st st' : Scan (Bool × Nv)} (h : st.before n)
    (hturn : forTurn (report (getValueByNameCb key)) st = some st') : st'.before n := by
  obtain ⟨hval, hpos⟩ := h
  obtain ⟨p, hp, rfl | rfl | ⟨pair, next, data, brk, hnext, hrun, rfl⟩⟩ := forTurn_eq_some hturn
  · exact ⟨hval, nofun⟩
  · exact ⟨hval, nofun⟩
  · obtain ⟨-, hlt, hle⟩ := nextPair_eq_some hnext
    have hbound := hpos p hp
    refine ⟨fun q hq => ?_, fun p' hp' => ?_⟩
    · rcases report_val hrun hq with rfl | hq
      · omega
      · exact hval q hq
    · cases brk <;> cases hp'
      omega

theorem scansTo_lt (h : ScansTo key p ret out) (hq : out.2.pV = some q) : q.length < p.length := by
  have hinit : Scan.before p.length (⟨.at_ p, ret, ⟨0, .string, none⟩⟩ : Scan (Bool × Nv)) :=
    ⟨nofun, fun p' hp => by cases hp; exact Nat.le_refl _⟩
  exact (Turns.keeps Scan.before_turn h hinit).1 q hq

theorem scansTo_outside (h : nextPair p = none) : ¬ ScansTo key p ret out := by
  have hne : (⟨.at_ p, ret, ⟨0, .string, none⟩⟩ : Scan (Bool × Nv)) ≠ ⟨.null, out⟩ := by simp
  unfold ScansTo
  rw [Turns.iff_first (forTurn_outside h) hne, Turns.iff_end rfl, Scan.mk.injEq]
  exact fun h => nomatch h.1

/-! ## Members -/

variable {name w₁ w₂ r : List Char} {members : Members} {found : Found}

/-- What was found answers for the value. -/
def Answered (found : Option Found) (out : Bool × Nv) : Prop :=
  Answers found out.2.pV (if out.1 then some (out.2.vLen, out.2.vType) else none)

/-- The length of a name for the scanner. -/
def nameLen (name : List Char) : ℕ := (name.takeWhile (· ≠ '"')).length

theorem nameLen_eq_zero (h : IsChars name) : nameLen name = 0 ↔ name = [] := by
  unfold nameLen
  cases h with
  | nil => simp
  | char hq => simp [hq]
  | esc | unicode => simp

/-- A text behind a name and its colon. -/
def row (g name w₁ w₂ v : List Char) : List Char := g ++ '"' :: (name ++ '"' :: (w₁ ++ ':' :: (w₂ ++ v)))

/-- A member that the scanner stands before, with what follows its value. -/
structure Row (g name w₁ w₂ : List Char) (val : Value) (u : List Char) : Prop where
  gap : '"' ∉ g
  name_ok : IsChars name
  aligned : NameAligned name
  ws₁ : IsWs w₁
  ws₂ : IsWs w₂
  val_ok : val.Ok
  text_ok : nul ∉ row g name w₁ w₂ (val.text ++ u)
  ends : ∃ b t, u = b :: t ∧ isDigit b = false

theorem Row.val_nul (h : Row g name w₁ w₂ val u) : nul ∉ val.text ++ u := by
  have hz := h.text_ok
  simp only [row, List.mem_append, List.mem_cons, not_or] at hz ⊢
  tauto

theorem Row.nextPair (h : Row g name w₁ w₂ val u) :
    nextPair (row g name w₁ w₂ (val.text ++ (u ++ nul :: z))) =
      notNull (getValue (val.text ++ (u ++ nul :: z))) fun (v, len, type, next) =>
        some (some (⟨name ++ '"' :: (w₁ ++ ':' :: (w₂ ++ (val.text ++ (u ++ nul :: z)))), nameLen name, v, len, type⟩,
          next)) := by
  have hsplit := List.takeWhile_append_dropWhile (p := fun c => decide (c ≠ '"')) (l := name)
  have hquote : '"' ∉ name.takeWhile (· ≠ '"') := fun h => by simpa using List.mem_takeWhile_imp h
  have hcolon := h.ws₁.not_mem (c := ':') (by decide)
  have hname : ':' ∉ name.dropWhile (· ≠ '"') := h.aligned
  have hz := h.text_ok
  unfold nameLen
  unfold row at hz ⊢
  generalize name.takeWhile (· ≠ '"') = n at hsplit hquote
  rw [← List.append_assoc val.text]
  cases hd : name.dropWhile (· ≠ '"') with
  | nil =>
    rw [hd, List.append_nil] at hsplit
    subst hsplit
    exact nextPair_front ⟨h.gap, hquote, hcolon, h.ws₂.skip⟩ hz
  | cons b a =>
    have hb : b = '"' := by
      have hhead := List.head?_dropWhile_not (fun c => decide (c ≠ '"')) name
      rw [hd] at hhead
      simpa using hhead
    rw [hd, List.mem_cons, not_or] at hname
    rw [hd, hb] at hsplit
    subst hsplit
    have hfront : Front g n (a ++ '"' :: w₁) w₂ := by
      refine ⟨h.gap, hquote, ?_, h.ws₂.skip⟩
      simp [hname.2, hcolon]
    have heq := nextPair_front (s := val.text ++ u) (z := nul :: z) hfront (by simpa [front] using hz)
    simpa [front] using heq

theorem Row.exact_getValue (h : Row g name w₁ w₂ val u) (hval : val.Exact) :
    ∃ next, getValue (val.text ++ (u ++ nul :: z)) = some (some ((val.found (u ++ nul :: z)).1,
      (val.found (u ++ nul :: z)).2.1, (val.found (u ++ nul :: z)).2.2, next)) ∧
        (val.found (u ++ nul :: z)).2.1 ≠ 0 := by
  obtain ⟨v, len, type, w, hval', -, -, -, hiff⟩ := getValue_aligned (z := z) hval.1 h.val_ok h.val_nul h.ends
  obtain ⟨hfound, hlen⟩ := hiff.2 hval
  rw [← hfound]
  exact ⟨_, hval', hlen⟩

theorem Row.exact_iff (h : Row g name w₁ w₂ val u)
    (hval : getValue (val.text ++ (u ++ nul :: z)) = some (some (v, len, type, next))) :
    val.Exact ↔ (v, len, type) = val.found (u ++ nul :: z) ∧ len ≠ 0 := by
  constructor
  · intro hexact
    obtain ⟨next', hval', hlen⟩ := h.exact_getValue (z := z) hexact
    rw [hval] at hval'
    simp only [Option.some.injEq, Prod.mk.injEq] at hval'
    obtain ⟨rfl, rfl, rfl, -⟩ := hval'
    exact ⟨rfl, hlen⟩
  · rintro ⟨hfound, hlen⟩
    have hal := found_aligned h.val_ok h.val_nul rfl hval hfound
    obtain ⟨v', len', type', w, hval', -, -, -, hiff⟩ := getValue_aligned (z := z) hal h.val_ok h.val_nul h.ends
    rw [hval] at hval'
    simp only [Option.some.injEq, Prod.mk.injEq] at hval'
    obtain ⟨rfl, rfl, rfl, -⟩ := hval'
    exact hiff.1 ⟨hfound, hlen⟩

theorem Row.scansTo_hit (h : Row g name w₁ w₂ val u) (ret : Bool) (out : Bool × Nv)
    (hval : getValue (val.text ++ (u ++ nul :: z)) = some (some (v, len, type, next))) (hne : name ≠ [])
    (hlen : len ≠ 0) (hpre : key.text <+: name ++ '"' :: (w₁ ++ ':' :: (w₂ ++ (val.text ++ u)))) :
    ScansTo key (row g name w₁ w₂ (val.text ++ (u ++ nul :: z))) ret out ↔ out = (true, ⟨len, type, some v⟩) := by
  have hstep := h.nextPair (z := z)
  rw [hval, notNull_some] at hstep
  refine scansTo_break hstep ?_
  have hcmp := strncmpEq_eq (t := name ++ '"' :: (w₁ ++ ':' :: (w₂ ++ (val.text ++ u)))) (z := z) key.ok
  rw [decide_eq_true (hpre.trans (List.prefix_append ..))] at hcmp
  simp only [List.append_assoc, List.cons_append] at hcmp
  rw [report, if_pos ⟨mt (nameLen_eq_zero h.name_ok).1 hne, hlen⟩, getValueByNameCb, hcmp]
  rfl

theorem Row.scansTo_miss (h : Row g name w₁ w₂ val u) (ret : Bool)
    (hval : getValue (val.text ++ (u ++ nul :: z)) = some (some (v, len, type, next)))
    (hno : ¬ (name ≠ [] ∧ len ≠ 0 ∧ key.text <+: name ++ '"' :: (w₁ ++ ':' :: (w₂ ++ (val.text ++ u))))) :
    ∃ ret', ∀ out,
      ScansTo key (row g name w₁ w₂ (val.text ++ (u ++ nul :: z))) ret out ↔ ScansTo key next ret' out := by
  have hstep := h.nextPair (z := z)
  rw [hval, notNull_some] at hstep
  by_cases hrep : nameLen name ≠ 0 ∧ len ≠ 0
  · have hpre : ¬ key.text <+: name ++ '"' :: (w₁ ++ ':' :: (w₂ ++ (val.text ++ u))) := by
      intro hpre
      exact hno ⟨mt (nameLen_eq_zero h.name_ok).2 hrep.1, hrep.2, hpre⟩
    have hcmp := strncmpEq_eq (t := name ++ '"' :: (w₁ ++ ':' :: (w₂ ++ (val.text ++ u)))) (z := z) key.ok
    rw [decide_eq_false (mt (prefix_append_nul key.ok).1 hpre)] at hcmp
    simp only [List.append_assoc, List.cons_append] at hcmp
    refine ⟨true, fun out => scansTo_next hstep ?_⟩
    rw [report, if_pos hrep, getValueByNameCb, hcmp]
    rfl
  · refine ⟨ret, fun out => scansTo_next hstep ?_⟩
    rw [report, if_neg hrep]

theorem Row.scansTo_null (h : Row g name w₁ w₂ val u) (hval : getValue (val.text ++ (u ++ nul :: z)) = some none) :
    ScansTo key (row g name w₁ w₂ (val.text ++ (u ++ nul :: z))) ret out ↔ out = (ret, ⟨0, .string, none⟩) := by
  have hstep := h.nextPair (z := z)
  rw [hval] at hstep
  exact Lite.scansTo_null hstep

theorem answered_some : Answered (some found) (true, ⟨len, type, some v⟩) ↔ (v, len, type) = found := by
  obtain ⟨v', len', type'⟩ := found
  simp [Answered, Answers]

/-- **The member with the name**: its value is found where it is read to its end. -/
theorem Row.scansTo_key (h : Row g key.text w₁ w₂ val u) :
    (∃ out, ScansTo key (row g key.text w₁ w₂ (val.text ++ (u ++ nul :: z))) ret out ∧
      Answered (some (val.found (u ++ nul :: z))) out) ↔ key.text ≠ [] ∧ val.Exact := by
  have hpre : key.text <+: key.text ++ '"' :: (w₁ ++ ':' :: (w₂ ++ (val.text ++ u))) := List.prefix_append ..
  rcases hval : getValue (val.text ++ (u ++ nul :: z)) with - | - | ⟨v, len, type, next⟩
  · refine iff_of_false ?_ fun hexact => ?_
    · rintro ⟨out, hout, -⟩
      refine scansTo_outside ?_ hout
      rw [h.nextPair, hval]
      rfl
    · obtain ⟨next, hval', -⟩ := h.exact_getValue (z := z) hexact.2
      rw [hval] at hval'
      cases hval'
  · refine iff_of_false ?_ fun hexact => ?_
    · rintro ⟨out, hout, hans⟩
      rw [(h.scansTo_null hval).1 hout] at hans
      cases hans.1
    · obtain ⟨next, hval', -⟩ := h.exact_getValue (z := z) hexact.2
      rw [hval] at hval'
      cases hval'
  · rw [h.exact_iff hval]
    by_cases hrep : key.text ≠ [] ∧ len ≠ 0
    · have hhit := fun out => h.scansTo_hit ret out hval hrep.1 hrep.2 hpre
      constructor
      · rintro ⟨out, hout, hans⟩
        rw [(hhit out).1 hout, answered_some] at hans
        exact ⟨hrep.1, hans, hrep.2⟩
      · rintro ⟨-, hfound, -⟩
        exact ⟨_, (hhit _).2 rfl, answered_some.2 hfound⟩
    · obtain ⟨ret', hmiss⟩ := h.scansTo_miss ret hval fun hall => hrep ⟨hall.1, hall.2.1⟩
      refine iff_of_false ?_ fun hexact => hrep ⟨hexact.1, hexact.2.2⟩
      rintro ⟨out, hout, hans⟩
      have hlt := scansTo_lt ((hmiss out).1 hout) hans.1
      exact absurd hlt (Nat.not_lt.2 (found_le val _ hval))

theorem found_length (val : Value) (r : List Char) : (val.found r).1.length ≤ (val.text ++ r).length := by
  cases val with
  | string s => simp [Value.found, Value.text]
  | number | bool | null | array | object => exact Nat.le_refl _

theorem lookup_lt : ∀ {members : Members} {key r : List Char}, members.lookup key r = some found →
    found.1.length < (members.text ++ r).length
  | .nil, _, _, h => by cases h
  | .cons w name w₁ w₂ val w₃ members, key, r, h => by
    rw [Members.lookup] at h
    split_ifs at h
    · cases h
      have hle := found_length val (w₃ ++ (members.comma ++ (members.text ++ r)))
      simp only [Members.text, List.length_append, List.length_cons] at hle ⊢
      omega
    · have hlt := lookup_lt h
      simp only [Members.text, List.length_append, List.length_cons] at hlt ⊢
      omega

theorem Row.scansTo_other (h : Row g name w₁ w₂ val u) (hval : val.Aligned) (key : CStr) (ret : Bool) {f : Option Found}
    (hf : ∀ found : Found, f = some found → found.1.length < (u ++ nul :: z).length) :
    let hit := Reported name val ∧ key.text <+: name ++ '"' :: (w₁ ++ ':' :: (w₂ ++ (val.text ++ u)))
    (hit → ¬ ∃ out, ScansTo key (row g name w₁ w₂ (val.text ++ (u ++ nul :: z))) ret out ∧ Answered f out) ∧
      (¬ hit → ∃ w ret', '"' ∉ w ∧ w <:+ val.text ∧ ∀ out,
        ScansTo key (row g name w₁ w₂ (val.text ++ (u ++ nul :: z))) ret out ↔
          ScansTo key (w ++ (u ++ nul :: z)) ret' out) := by
  obtain ⟨v, len, type, w, hget, hw, hsuf, hlen, -⟩ := getValue_aligned (z := z) hval h.val_ok h.val_nul h.ends
  have hnull : val ≠ .null := by
    rintro rfl
    exact hval
  refine ⟨fun hhit => ?_, fun hno => ?_⟩
  · obtain ⟨⟨hname, hstring, -⟩, hpre⟩ := hhit
    rintro ⟨out, hout, hans⟩
    rw [(h.scansTo_hit ret out hget hname (mt hlen.1 hstring) hpre).1 hout] at hans
    have hle := (getValue_suffix hget).2.length_le
    cases f with
    | none => cases hans
    | some found =>
      have hlt := hf found rfl
      rw [← answered_some.1 hans] at hlt
      rw [List.length_append] at hle
      exact absurd hlt (Nat.not_lt.2 (Nat.le_trans (Nat.le_add_left ..) hle))
  · obtain ⟨ret', hmiss⟩ := h.scansTo_miss ret hget fun hall =>
      hno ⟨⟨hall.1, mt hlen.2 hall.2.1, hnull⟩, hall.2.2⟩
    exact ⟨w, ret', hw, hsuf, hmiss⟩

/-! ## Objects -/

variable {w w₃ trail : List Char}

theorem isDigit_ws (h : IsWs w) : ∀ c ∈ w, isDigit c = false := by
  intro c hc
  have hskip := h.skip c hc
  rw [startsValue, Bool.or_eq_false_iff] at hskip
  exact hskip.2

theorem ends_members (hw : IsWs w) (members : Members) :
    ∃ b t, w ++ (members.comma ++ (members.text ++ '}' :: trail)) = b :: t ∧ isDigit b = false := by
  cases w with
  | cons b w => exact ⟨b, _, rfl, isDigit_ws hw b List.mem_cons_self⟩
  | nil =>
    cases members with
    | nil => exact ⟨'}', trail, rfl, by decide⟩
    | cons => exact ⟨',', _, rfl, by decide⟩

theorem comma_members (members : Members) : ∀ c ∈ members.comma, c = ',' := by
  cases members <;> simp [Members.comma]

theorem row_members (hok : (Members.cons w name w₁ w₂ val w₃ members).Ok) (hname : NameAligned name)
    (htrail : IsWs trail) (hg : '"' ∉ g) (hgz : nul ∉ g) :
    Row (g ++ w) name w₁ w₂ val (w₃ ++ (members.comma ++ (members.text ++ '}' :: trail))) := by
  have hz := Members.nul_not_mem _ hok
  obtain ⟨hw, hname_ok, hw1, hw2, hval, hw3, -⟩ := hok
  have htz := htrail.not_mem (c := nul) (by decide)
  refine ⟨?_, hname_ok, hname, hw1, hw2, hval, ?_, ends_members hw3 members⟩
  · rw [List.mem_append, not_or]
    exact ⟨hg, hw.not_mem (by decide)⟩
  · simp only [Members.text, row, List.mem_append, List.mem_cons, not_or] at hz ⊢
    have hbrace : nul ≠ '}' := by decide
    tauto

theorem nextPair_end (hg : '"' ∉ g) (hgz : nul ∉ g) : nextPair (g ++ nul :: z) = some none := by
  cases g with
  | nil => rfl
  | cons b g =>
    rw [nextPair_of_mem (List.cons_ne_nil b g) hgz, getNextObject]
    refine notNull_getKey_null ?_
    rw [getKey, strchr_miss hg hgz (by decide), notNull_null]

theorem scansTo_end (htrail : IsWs trail) (hg : '"' ∉ g) (hgz : nul ∉ g) :
    ScansTo key (g ++ ('}' :: trail ++ nul :: z)) ret out ↔ out = (ret, ⟨0, .string, none⟩) := by
  have hquote : '"' ∉ g ++ '}' :: trail := by
    have htq := htrail.not_mem (c := '"') (by decide)
    simp [hg, htq]
  have hz : nul ∉ g ++ '}' :: trail := by
    have htz := htrail.not_mem (c := nul) (by decide)
    have hbrace : nul ≠ '}' := by decide
    simp [hgz, htz, hbrace]
  rw [← List.append_assoc]
  exact scansTo_null (nextPair_end hquote hz)

theorem Row.scansTo_lastNull (h : Row g name w₁ w₂ .null (w ++ '}' :: trail)) (hw : IsWs w) (htrail : IsWs trail) :
    ScansTo key (row g name w₁ w₂ (Value.null.text ++ (w ++ '}' :: trail ++ nul :: z))) ret out ↔
      out = (ret, ⟨0, .string, none⟩) := by
  have hskip : ∀ c ∈ Value.null.text ++ (w ++ '}' :: trail), startsValue c = false := by
    intro c hc
    rw [List.mem_append, List.mem_append, List.mem_cons] at hc
    rcases hc with hc | hc | rfl | hc
    · exact null_skip c hc
    · exact hw.skip c hc
    · rfl
    · exact htrail.skip c hc
  refine h.scansTo_null ?_
  rw [← List.append_assoc]
  exact getValue_skip hskip h.val_nul

/-- **The members** of an object: the loop ends with the value of the first one with the name exactly
    where the text is read so. -/
theorem scansTo_members (key : CStr) (htrail : IsWs trail) : ∀ {members : Members} {g : List Char} {ret : Bool},
    members.Ok → members.Aligned key.text → '"' ∉ g → nul ∉ g →
      ((∃ out, ScansTo key (g ++ (members.text ++ ('}' :: trail ++ nul :: z))) ret out ∧
        Answered (members.lookup key.text ('}' :: trail ++ nul :: z)) out) ↔ members.Exact key.text ('}' :: trail))
  | .nil, g, ret, _, _, hg, hgz => by
    exact iff_of_true ⟨_, (scansTo_end htrail hg hgz).2 rfl, rfl⟩ trivial
  | .cons w name w₁ w₂ val w₃ members, g, ret, hok, hal, hg, hgz => by
    have hrow := row_members hok hal.1 htrail hg hgz
    have hpos : g ++ ((Members.cons w name w₁ w₂ val w₃ members).text ++ ('}' :: trail ++ nul :: z)) =
        row (g ++ w) name w₁ w₂ (val.text ++ (w₃ ++ (members.comma ++ (members.text ++ '}' :: trail)) ++ nul :: z)) := by
      simp [Members.text, row]
    have hrest : w₃ ++ (members.comma ++ (members.text ++ ('}' :: trail ++ nul :: z))) =
        w₃ ++ (members.comma ++ (members.text ++ '}' :: trail)) ++ nul :: z := by simp
    rw [hpos, Members.lookup, Members.Exact, hrest]
    by_cases hkey : name = key.text
    · subst hkey
      rw [if_pos rfl, if_pos rfl]
      exact hrow.scansTo_key
    · rw [if_neg hkey, if_neg hkey]
      rcases hal.2 with heq | ⟨hval, hmembers⟩ | ⟨rfl, rfl⟩
      · exact absurd heq hkey
      · have hlt : ∀ f : Found, members.lookup key.text ('}' :: trail ++ nul :: z) = some f →
            f.1.length < (w₃ ++ (members.comma ++ (members.text ++ '}' :: trail)) ++ nul :: z).length := by
          intro f hf
          have hlt := lookup_lt hf
          simp only [List.length_append, List.length_cons] at hlt ⊢
          omega
        obtain ⟨hhit, hmiss⟩ := hrow.scansTo_other hval key ret hlt
        by_cases h : Reported name val ∧ key.text <+: name ++ '"' :: (w₁ ++ ':' :: (w₂ ++ (val.text ++
            (w₃ ++ (members.comma ++ (members.text ++ '}' :: trail))))))
        · exact iff_of_false (hhit h) fun hexact => hexact.1 h
        · obtain ⟨w', ret', hquote, hsuf, hiff⟩ := hmiss h
          have hgap : w' ++ (w₃ ++ (members.comma ++ (members.text ++ '}' :: trail)) ++ nul :: z) =
              w' ++ w₃ ++ members.comma ++ (members.text ++ ('}' :: trail ++ nul :: z)) := by simp
          rw [and_iff_right h]
          simp only [hiff, hgap]
          obtain ⟨-, -, -, -, hval_ok, hw3, hok'⟩ := hok
          have hcomma : '"' ∉ members.comma ∧ nul ∉ members.comma := by
            constructor
            · exact fun hc => absurd (comma_members members _ hc) (by decide)
            · exact fun hc => absurd (comma_members members _ hc) (by decide)
          refine scansTo_members key htrail hok' hmembers ?_ ?_
          · rw [List.mem_append, List.mem_append, not_or, not_or]
            exact ⟨⟨hquote, hw3.not_mem (by decide)⟩, hcomma.1⟩
          · rw [List.mem_append, List.mem_append, not_or, not_or]
            exact ⟨⟨fun hc => val.nul_not_mem hval_ok (hsuf.subset hc), hw3.not_mem (by decide)⟩, hcomma.2⟩
      · obtain ⟨-, -, -, -, -, hw3, -⟩ := hok
        exact iff_of_true ⟨_, (hrow.scansTo_lastNull hw3 htrail).2 rfl, rfl⟩ ⟨fun h => h.1.2.2 rfl, trivial⟩

/-! ## The call -/

variable {σ : Type} {body : σ → Pair → Option (σ × Bool)} {t : ObjectText}

theorem ObjectText.objectText_opened (h : t.Opened) :
    objectText t.text = some ('{' :: (t.ws ++ (t.members.text ++ t.after))) := by
  have hall : ∀ c ∈ t.lead, decide (c = ' ') = true := fun c hc => decide_eq_true (h c hc)
  rw [objectText, ObjectText.text, List.dropWhile_append_of_pos hall, List.dropWhile_cons_of_neg (by decide)]
  rfl

theorem ObjectText.objectText_closed (h : ¬ t.Opened) : objectText t.text = none := by
  cases hd : t.lead.dropWhile (· = ' ') with
  | nil =>
    rw [List.dropWhile_eq_nil_iff] at hd
    exact absurd (fun c hc => of_decide_eq_true (hd c hc)) h
  | cons b w =>
    have hmem : b ∈ t.lead := (List.dropWhile_suffix _).subset (hd ▸ List.mem_cons_self)
    have hb : b ≠ '{' := by
      rintro rfl
      exact t.lead_ok.not_mem (by decide) hmem
    rw [objectText, ObjectText.text, List.dropWhile_append, hd]
    dsimp only [List.isEmpty_cons]
    split
    · next heq => exact absurd (List.cons.inj heq).1 hb
    · rfl

theorem getValueByName_eq (t : ObjectText) (key : CStr) (z : List Char) :
    getValueByName (t.text ++ nul :: z) t.text.length key =
      (forEachKv (report (getValueByNameCb key)) (t.text ++ nul :: z) (false, ⟨0, .string, none⟩)).map fun out =>
        ⟨t.text ++ nul :: z, out.2.pV, if out.1 then some (out.2.vLen, out.2.vType) else none⟩ := by
  have hlen : t.text.length ≠ 0 := by simp [ObjectText.text]
  unfold getValueByName
  rw [parseNameValue, if_neg hlen]
  simp only [strlen_eq t.nul_not_mem, Option.bind_eq_bind, Option.bind_some, ne_eq, not_true_eq_false, if_false]
  cases forEachKv (report (getValueByNameCb key)) (t.text ++ nul :: z) (false, ⟨0, .string, none⟩) <;> rfl

theorem looksUp_iff_answered : LooksUp t key ↔ ∀ z, ∃ out,
    forEachKv (report (getValueByNameCb key)) (t.text ++ nul :: z) (false, ⟨0, .string, none⟩) = some out ∧
      Answered (t.lookup key.text z) out := by
  refine forall_congr' fun z => ?_
  rw [getValueByName_eq]
  constructor
  · rintro ⟨got, hgot, hans⟩
    obtain ⟨out, hout, rfl⟩ := Option.map_eq_some_iff.1 hgot
    exact ⟨out, hout, hans⟩
  · rintro ⟨out, hout, hans⟩
    exact ⟨_, Option.map_eq_some_iff.2 ⟨out, hout, rfl⟩, hans⟩

theorem forEachKv_opened (h : t.Opened) (out : Bool × Nv) :
    forEachKv (report (getValueByNameCb key)) (t.text ++ nul :: z) (false, ⟨0, .string, none⟩) = some out ↔
      ScansTo key ('{' :: t.ws ++ (t.members.text ++ (t.after ++ nul :: z))) false out := by
  have htext : '{' :: t.ws ++ (t.members.text ++ (t.after ++ nul :: z)) =
      '{' :: (t.ws ++ (t.members.text ++ t.after)) ++ nul :: z := by simp
  rw [forEachKv, getObject_eq t.nul_not_mem, t.objectText_opened h, htext]
  exact loopFor_iff

theorem forEachKv_closed (h : ¬ t.Opened) {body : σ → Pair → Option (σ × Bool)} (data : σ) :
    forEachKv body (t.text ++ nul :: z) data = some data := by
  rw [forEachKv, getObject_eq t.nul_not_mem, t.objectText_closed h]
  rfl

theorem lookup_eq_none (r r' : List Char) : ∀ {members : Members},
    members.lookup v r = none → members.lookup v r' = none
  | .nil, _ => rfl
  | .cons .., h => by
    rw [Members.lookup] at h ⊢
    split_ifs at h ⊢
    exact lookup_eq_none r r' h

/-- **A name is looked up** in a text that the scanner goes through from member to member up to the one
    with the name: its value is returned exactly where it is the first whose text begins so, and is
    read to its end. -/
theorem looksUp_iff (t : ObjectText) (key : CStr) :
    (t.Aligned key.text ∧ t.Exact key.text → LooksUp t key) ∧
      (t.Aligned key.text → LooksUp t key → t.Exact key.text) := by
  suffices hiff : t.Aligned key.text → (LooksUp t key ↔ t.Exact key.text) from
    ⟨fun h => (hiff h.1).2 h.2, fun hal => (hiff hal).1⟩
  intro hal
  rw [looksUp_iff_answered]
  by_cases hopen : t.Opened
  · have hquote : '"' ∉ '{' :: t.ws := by
      have hws := t.ws_ok.not_mem (c := '"') (by decide)
      simp [hws]
    have hz : nul ∉ '{' :: t.ws := by
      have hws := t.ws_ok.not_mem (c := nul) (by decide)
      simp [hws, nul]
    have hmembers : ∀ z, (∃ out, ScansTo key ('{' :: t.ws ++ (t.members.text ++ (t.after ++ nul :: z))) false out ∧
        Answered (t.lookup key.text z) out) ↔ t.members.Exact key.text t.after :=
      fun z => scansTo_members key t.trail_ok t.members_ok (hal hopen) hquote hz
    simp only [forEachKv_opened hopen, hmembers, forall_const]
    exact ⟨fun h => ⟨fun _ => h, fun hclosed => absurd hopen hclosed⟩, fun h => h.1 hopen⟩
  · simp only [forEachKv_closed hopen, Option.some.injEq, exists_eq_left']
    constructor
    · intro hans
      refine ⟨fun h => absurd h hopen, fun _ => ?_⟩
      have hnone : t.lookup key.text [] = none := by
        cases hlook : t.lookup key.text [] with
        | none => rfl
        | some found =>
          have hans := hans []
          rw [hlook] at hans
          cases hans.1
      exact lookup_eq_none _ _ hnone
    · intro hexact z
      rw [ObjectText.lookup, lookup_eq_none _ (t.after ++ nul :: z) (hexact.2 hopen)]
      rfl

/-- The object with one member, `{"ab":1}`. -/
def oneMember : ObjectText where
  lead := []
  ws := []
  members := .cons [] ['a', 'b'] [] [] (.number false ['1'] [] []) [] .nil
  trail := []
  lead_ok := .nil
  ws_ok := .nil
  members_ok := by
    have hb : IsChars ['b'] := .char (by decide) (by decide) (by decide) .nil
    have hname : IsChars ['a', 'b'] := .char (by decide) (by decide) (by decide) hb
    have hint : IsInt ['1'] := ⟨⟨List.cons_ne_nil _ _, List.forall_mem_singleton.2 rfl⟩, nofun⟩
    exact ⟨nofun, hname, nofun, nofun, ⟨hint, .inl rfl, .inl rfl⟩, nofun, trivial⟩
  trail_ok := .nil

/-- In `{"ab":1}` a value is found for the name `a`. -/
theorem looksUp_shorter_name : ¬ LooksUp oneMember ⟨['a'], by decide⟩ := by
  intro h
  obtain ⟨got, hgot, hans⟩ := h []
  have hval : (getValueByName (oneMember.text ++ [nul]) oneMember.text.length ⟨['a'], by decide⟩).bind Got.val =
      some ['1', '}', nul] := by decide
  rw [hgot] at hval
  have hnone : got.val = none := hans
  rw [Option.bind_some, hnone] at hval
  cases hval

end Lite
