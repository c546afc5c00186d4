/-
  The tokens of a text that `symbol_to_json` writes.

  A string is written as it is, so the lexer reads it as one token only if it has no bare quote and no
  backslash at its end (`Closed`), and then takes a backslash for the character behind it (`unescape`).
  Of such a value the tokens are known (`lexes_json`).
-/
import AliOS.Jse.Json
import Mathlib.Data.List.Basic
import Mathlib.Tactic.Ring

namespace Json

variable {w : ℕ} {fr : List ℕ → Frame} {s t cs rest : Str} {toks : List Token} {c : UInt8}

/-! ## Decimals -/

theorem digit_numeric : ∀ n < 10, isNumeric (digit n) = true := by decide

theorem digit_value : ∀ n < 10, (digit n).toNat - 48 = n := by decide

theorem decimal_lt {n : ℕ} (hn : n < 10) : decimal n = [digit n] := by
  rw [decimal, if_pos hn]

theorem decimal_ge {n : ℕ} (hn : ¬ n < 10) : decimal n = decimal (n / 10) ++ [digit (n % 10)] := by
  rw [decimal, if_neg hn]

theorem decimal_numeric (n : ℕ) : ∀ ch ∈ decimal n, isNumeric ch = true := by
  induction n using decimal.induct with
  | case1 n hn =>
    intro ch hch
    rw [decimal_lt hn, List.mem_singleton] at hch
    subst hch
    exact digit_numeric n hn
  | case2 n hn ih =>
    intro ch hch
    rw [decimal_ge hn, List.mem_append, List.mem_singleton] at hch
    rcases hch with hch | rfl
    · exact ih ch hch
    · exact digit_numeric _ (Nat.mod_lt _ (by omega))

theorem decimal_ne_nil (n : ℕ) : decimal n ≠ [] := by
  by_cases hn : n < 10
  · simp [decimal_lt hn]
  · simp [decimal_ge hn]

theorem stringToInt_decimal (n : ℕ) : stringToInt (decimal n) = n := by
  induction n using decimal.induct with
  | case1 n hn =>
    rw [decimal_lt hn]
    simp [stringToInt, digit_value n hn]
  | case2 n hn ih =>
    have hd := digit_value (n % 10) (Nat.mod_lt _ (by omega))
    rw [decimal_ge hn]
    simp only [stringToInt, List.foldl_append, List.foldl_cons, List.foldl_nil] at ih ⊢
    rw [ih, hd]
    omega

theorem decimal_length {n k : ℕ} (h : n < 10 ^ (k + 1)) : (decimal n).length ≤ k + 1 := by
  induction k generalizing n with
  | zero =>
    rw [decimal_lt (by omega)]
    simp
  | succ k ih =>
    by_cases hn : n < 10
    · simp [decimal_lt hn]
    · rw [decimal_ge hn]
      have : n / 10 < 10 ^ (k + 1) := Nat.div_lt_of_lt_mul (by rw [pow_succ] at h; omega)
      have := ih this
      simp
      omega

theorem decimal_zero {n : ℕ} (h : decimal n = 48 :: cs) : decimal n = [48] := by
  induction n using decimal.induct generalizing cs with
  | case1 n hn =>
    rw [decimal_lt hn] at h ⊢
    rw [(List.cons.inj h).1]
  | case2 n hn ih =>
    rw [decimal_ge hn] at h
    cases hd : decimal (n / 10) with
    | nil => exact absurd hd (decimal_ne_nil _)
    | cons c ds =>
      rw [hd] at h
      obtain ⟨rfl, -⟩ := List.cons.inj h
      have := stringToInt_decimal (n / 10)
      rw [ih hd] at this
      simp [stringToInt] at this
      omega

/-! ## Strings -/

/-- The string is one token between its quotes. -/
def Closed : Str → Prop
  | [] => True
  | [c] => c ≠ 34 ∧ c ≠ 92
  | c :: d :: cs => if c = 92 then Closed cs else c ≠ 34 ∧ Closed (d :: cs)

/-- The string that token stands for. -/
def unescape : Str → Str
  | [] => []
  | [c] => [c]
  | c :: d :: cs => if c = 92 then escaped d :: unescape cs else c :: unescape (d :: cs)

theorem closed_cons {d : UInt8} :
    Closed (c :: d :: cs) = if c = 92 then Closed cs else c ≠ 34 ∧ Closed (d :: cs) := rfl

theorem unescape_cons {d : UInt8} :
    unescape (c :: d :: cs) = if c = 92 then escaped d :: unescape cs else c :: unescape (d :: cs) := rfl

/-- Neither quotes nor backslashes. -/
def Plain (s : Str) : Prop := 34 ∉ s ∧ 92 ∉ s

theorem lexString_closed (h : Closed s) : lexString (s ++ 34 :: rest) = (unescape s, rest) := by
  induction s using unescape.induct with
  | case1 =>
    cases rest with
    | nil => simp [lexString, unescape]
    | cons d ds => simp [lexString, unescape]
  | case2 c =>
    obtain ⟨hq, hb⟩ := h
    cases rest with
    | nil => simp [lexString, unescape, hq, hb]
    | cons d ds => simp [lexString, unescape, hq, hb]
  | case3 d cs ih =>
    rw [closed_cons, if_pos rfl] at h
    rw [List.cons_append, List.cons_append, lexString, if_neg (by decide), if_pos rfl, ih h, unescape_cons,
      if_pos rfl]
  | case4 c d cs hc ih =>
    rw [closed_cons, if_neg hc] at h
    rw [List.cons_append, List.cons_append, lexString, if_neg h.1, if_neg hc, ← List.cons_append, ih h.2,
      unescape_cons, if_neg hc]

theorem unescape_length : (unescape s).length ≤ s.length := by
  induction s using unescape.induct with
  | case1 => exact le_rfl
  | case2 c => exact le_rfl
  | case3 d cs ih =>
    rw [unescape_cons, if_pos rfl]
    simp only [List.length_cons]
    omega
  | case4 c d cs hc ih =>
    rw [unescape_cons, if_neg hc]
    simp only [List.length_cons] at ih ⊢
    omega

theorem unescape_eq_iff (h : Closed s) : unescape s = s ↔ Plain s := by
  induction s using unescape.induct with
  | case1 => simp [unescape, Plain]
  | case2 c =>
    obtain ⟨hq, hb⟩ := h
    simp [unescape, Plain, Ne.symm hq, Ne.symm hb]
  | case3 d cs ih =>
    constructor
    · intro he
      have hlen := congrArg List.length he
      have := @unescape_length cs
      rw [unescape_cons, if_pos rfl] at hlen
      simp only [List.length_cons] at hlen
      omega
    · rintro ⟨-, hb⟩
      simp at hb
  | case4 c d cs hc ih =>
    rw [closed_cons, if_neg hc] at h
    rw [unescape_cons, if_neg hc, List.cons.injEq, eq_self, true_and, ih h.2, Plain, Plain]
    simp only [List.mem_cons (a := 34) (b := c), List.mem_cons (a := 92) (b := c), not_or]
    constructor
    · rintro ⟨hq, hb⟩
      exact ⟨⟨Ne.symm h.1, hq⟩, Ne.symm hc, hb⟩
    · rintro ⟨⟨-, hq⟩, -, hb⟩
      exact ⟨hq, hb⟩

theorem Plain.closed (h : Plain s) : Closed s := by
  induction s using unescape.induct with
  | case1 => trivial
  | case2 c =>
    obtain ⟨hq, hb⟩ := h
    simp only [List.mem_singleton] at hq hb
    exact ⟨Ne.symm hq, Ne.symm hb⟩
  | case3 d cs ih =>
    obtain ⟨-, hb⟩ := h
    simp at hb
  | case4 c d cs hc ih =>
    obtain ⟨hq, hb⟩ := h
    rw [List.mem_cons, not_or] at hq hb
    rw [closed_cons, if_neg hc]
    exact ⟨Ne.symm hq.1, ih ⟨hq.2, hb.2⟩⟩

/-! ## Predicates on values, and their tokens -/

section

variable (S : Frame → Str → Prop) (K : Str → Prop) (I : BitVec w → Prop)

mutual

/-- `S` holds of the strings, each with the frame of the call that writes it, `K` of the names and `I` of
    the integers. -/
def Val.All (fr : List ℕ → Frame) : Val w → Prop
  | .null => True
  | .int v => I v
  | .str s => S (fr []) s
  | .arr xs => xs.All fr 0
  | .obj ms => ms.All fr 0

def Items.All (fr : List ℕ → Frame) (i : ℕ) : Items w → Prop
  | .nil => True
  | .cons x xs => x.All (sub fr i) ∧ xs.All fr (i + 1)

def Members.All (fr : List ℕ → Frame) (i : ℕ) : Members w → Prop
  | .nil => True
  | .cons key x ms => K key ∧ x.All (sub fr i) ∧ ms.All fr (i + 1)

end

end

/-- The token of a string. -/
def strToken (s : Str) : Token := .str (appendChars (unescape s))

mutual

def Val.toks (fr : List ℕ → Frame) : Val w → List Token
  | .null => [.null]
  | .int v =>
    if toInt32 v < 0 then [.minus, .int (decimal (toInt32 v).natAbs)]
    else [.int (decimal (toInt32 v).natAbs)]
  | .str s => [strToken (symbolToStr (fr []) s)]
  | .arr xs => .lbrack :: (xs.toks fr 0 ++ [.rbrack])
  | .obj ms => .lbrace :: (ms.toks fr 0 ++ [.rbrace])

def Items.toks (fr : List ℕ → Frame) (i : ℕ) : Items w → List Token
  | .nil => []
  | .cons x .nil => x.toks (sub fr i)
  | .cons x (.cons y ys) => x.toks (sub fr i) ++ .comma :: (Items.cons y ys).toks fr (i + 1)

def Members.toks (fr : List ℕ → Frame) (i : ℕ) : Members w → List Token
  | .nil => []
  | .cons key x .nil => strToken key :: .colon :: x.toks (sub fr i)
  | .cons key x (.cons key' y ms) =>
    strToken key :: .colon :: (x.toks (sub fr i) ++ .comma :: (Members.cons key' y ms).toks fr (i + 1))

end

/-! ## Lexing -/

/-- The text has the tokens, and each takes a character. -/
inductive Lexes : Str → List Token → Prop
  | nil : Lexes [] []
  | cons {c : UInt8} {cs rest : Str} {t : Token} {toks : List Token} : isWhitespace c = false →
      nextToken c cs = some (t, rest) → rest.length ≤ cs.length → Lexes rest toks → Lexes (c :: cs) (t :: toks)

theorem Lexes.lex_eq {n : ℕ} (h : Lexes s toks) (hn : s.length < n) : lex n s = some toks := by
  induction h generalizing n with
  | nil =>
    obtain ⟨m, rfl⟩ : ∃ m, n = m + 1 := ⟨n - 1, by omega⟩
    rfl
  | cons hc ht hlen _ ih =>
    obtain ⟨m, rfl⟩ : ∃ m, n = m + 1 := ⟨n - 1, by omega⟩
    rw [List.length_cons] at hn
    rw [lex, List.dropWhile_cons_of_neg (by simp [hc])]
    simp only [ht]
    rw [ih (by omega)]
    rfl

/-- The text goes on with a character that ends a value. -/
def Delim (s : Str) : Prop := ∃ c cs, s = c :: cs ∧ (c = 44 ∨ c = 93 ∨ c = 125 ∨ c = 41)

theorem Lexes.punct {t : Token} (h : Lexes rest toks) (hp : punct c = some t) :
    Lexes (c :: rest) (t :: toks) := by
  unfold Json.punct at hp
  split at hp
  case h_9 => cases hp
  all_goals
    cases hp
    exact .cons (by decide) rfl le_rfl h

theorem Lexes.string (h : Lexes rest toks) (hs : Closed s) :
    Lexes (34 :: (s ++ 34 :: rest)) (strToken s :: toks) := by
  refine .cons (by decide) ?_ ?_ h
  · show some (Token.str (appendChars (lexString (s ++ 34 :: rest)).1), (lexString (s ++ 34 :: rest)).2) = _
    rw [lexString_closed hs]
    rfl
  · rw [List.length_append, List.length_cons]
    omega

theorem Lexes.null (h : Lexes rest toks) (hd : Delim rest) :
    Lexes (110 :: 117 :: 108 :: 108 :: rest) (.null :: toks) := by
  obtain ⟨c, cs, rfl, hc⟩ := hd
  have hstop : (isAlpha c || isNumeric c) = false := by
    rcases hc with rfl | rfl | rfl | rfl <;> decide
  have hword : ∀ ch ∈ ([110, 117, 108, 108] : Str), (isAlpha ch || isNumeric ch) = true := by
    intro ch hch
    simp only [List.mem_cons, List.not_mem_nil, or_false] at hch
    rcases hch with rfl | rfl | rfl | rfl <;> rfl
  have htake := @List.takeWhile_append_of_pos _ (fun ch => isAlpha ch || isNumeric ch) _ (c :: cs) hword
  have hdrop := @List.dropWhile_append_of_pos _ (fun ch => isAlpha ch || isNumeric ch) _ (c :: cs) hword
  rw [List.takeWhile_cons_of_neg (by simp [hstop]), List.append_nil] at htake
  rw [List.dropWhile_cons_of_neg (by simp [hstop])] at hdrop
  refine @Lexes.cons 110 _ (c :: cs) .null toks (by decide) ?_ (by simp) h
  rw [nextToken, if_pos (by decide)]
  rw [List.cons_append, List.cons_append, List.cons_append, List.cons_append, List.nil_append] at htake
  rw [if_pos htake]
  exact congrArg (fun r => some (Token.null, r)) hdrop

theorem not_alpha_of_numeric (h : isNumeric c = true) : isAlpha c = false ∧ isWhitespace c = false := by
  simp only [isNumeric, Bool.and_eq_true, decide_eq_true_eq, UInt8.le_iff_toNat_le] at h
  have h1 : (48 : UInt8).toNat = 48 := rfl
  have h2 : (57 : UInt8).toNat = 57 := rfl
  rw [h1, h2] at h
  have hne : ∀ d : UInt8, d.toNat < 48 ∨ 57 < d.toNat → c ≠ d := by
    rintro d hd rfl
    omega
  have hlt : ∀ d : UInt8, 57 < d.toNat → ¬ d ≤ c := by
    intro d hd hc
    rw [UInt8.le_iff_toNat_le] at hc
    omega
  constructor
  · simp [isAlpha, hlt 97 (by decide), hlt 65 (by decide), hne 95 (by decide)]
  · simp [isWhitespace, hne 32 (by decide), hne 9 (by decide), hne 10 (by decide), hne 13 (by decide)]

theorem Lexes.number {n : ℕ} (h : Lexes rest toks) (hd : Delim rest) (hn : n < 10 ^ 63) :
    Lexes (decimal n ++ rest) (.int (decimal n) :: toks) := by
  obtain ⟨c, cs, rfl, hc⟩ := hd
  have hstop : isNumeric c = false := by
    rcases hc with rfl | rfl | rfl | rfl <;> decide
  have hother : otherNumber (decimal n) (c :: cs) = false := by
    rcases hc with rfl | rfl | rfl | rfl <;> simp [otherNumber]
  have htake := @List.takeWhile_append_of_pos _ isNumeric _ (c :: cs) (decimal_numeric n)
  have hdrop := @List.dropWhile_append_of_pos _ isNumeric _ (c :: cs) (decimal_numeric n)
  rw [List.takeWhile_cons_of_neg (by simp [hstop]), List.append_nil] at htake
  rw [List.dropWhile_cons_of_neg (by simp [hstop])] at hdrop
  have hlen := @decimal_length n 62 hn
  have hzero : ∀ ds, decimal n ≠ 48 :: ds ∨ decimal n = [48] := by
    intro ds
    by_cases he : decimal n = 48 :: ds
    · exact .inr (decimal_zero he)
    · exact .inl he
  cases hdec : decimal n with
  | nil => exact absurd hdec (decimal_ne_nil n)
  | cons d ds =>
    have hnum : isNumeric d = true := decimal_numeric n d (by rw [hdec]; exact List.mem_cons_self)
    obtain ⟨halpha, hblank⟩ := not_alpha_of_numeric hnum
    rw [hdec] at htake hdrop hother hlen hzero
    refine @Lexes.cons d (ds ++ c :: cs) (c :: cs) _ toks hblank ?_ (by simp) h
    rw [List.cons_append] at htake hdrop
    rw [nextToken, if_neg (by simp [halpha]), if_pos hnum]
    simp only [htake, hdrop, hother]
    rw [if_neg]
    · rw [appendChars, List.take_of_length_le hlen]
    · rintro (he | ⟨rfl, he⟩)
      · cases he
      · exact he ((hzero ds).resolve_left fun hne => hne rfl)

theorem Lexes.minus (h : Lexes s toks) (hs : ∃ d ds, s = d :: ds ∧ isNumeric d = true) :
    Lexes (45 :: s) (.minus :: toks) := by
  obtain ⟨d, ds, rfl, hd⟩ := hs
  refine .cons (by decide) ?_ le_rfl h
  rw [nextToken, if_neg (by decide), if_neg (by decide), if_neg (by decide), if_pos rfl, if_neg]
  rintro (he | he)
  · rw [List.head?_cons, Option.some.injEq] at he
    rw [he] at hd
    exact absurd hd (by decide)
  · rw [List.head?_cons, Option.some.injEq] at he
    rw [he] at hd
    exact absurd hd (by decide)

/-- The strings are one token each. -/
def Val.SelfContained (fr : List ℕ → Frame) (x : Val w) : Prop :=
  x.All (fun f s => Closed (symbolToStr f s)) Closed (fun _ => True) fr

theorem toInt32_lt (v : BitVec w) : (toInt32 v).natAbs < 10 ^ 63 := by
  have h := @BitVec.toInt_lt 32 (BitVec.ofInt 32 v.toInt)
  have h' := @BitVec.le_toInt 32 (BitVec.ofInt 32 v.toInt)
  have : (toInt32 v).natAbs ≤ 2 ^ 31 := by
    unfold toInt32
    omega
  exact Nat.lt_of_le_of_lt this (by decide)

theorem Lexes.itoa (h : Lexes rest toks) (hd : Delim rest) (v : BitVec w) :
    Lexes (itoa v ++ rest) ((Val.int v).toks fr ++ toks) := by
  have hnum := h.number hd (toInt32_lt v)
  rw [Json.itoa, Val.toks]
  split
  · refine hnum.minus ?_
    cases hdec : decimal (toInt32 v).natAbs with
    | nil => exact absurd hdec (decimal_ne_nil _)
    | cons d ds => exact ⟨d, ds ++ rest, rfl, decimal_numeric _ d (by rw [hdec]; exact List.mem_cons_self)⟩
  · exact hnum

theorem delim_cons (hc : c = 44 ∨ c = 93 ∨ c = 125 ∨ c = 41) : Delim (c :: cs) := ⟨c, cs, rfl, hc⟩

mutual

theorem lexes_json : ∀ (x : Val w) (fr : List ℕ → Frame) {rest : Str} {toks : List Token},
    x.SelfContained fr → Delim rest → Lexes rest toks →
      Lexes (symbolToJson fr x ++ rest) (x.toks fr ++ toks)
  | .null, _, _, _, _, hd, h => h.null hd
  | .int v, _, _, _, _, hd, h => h.itoa hd v
  | .str s, fr, rest, toks, hs, _, h => by
    rw [symbolToJson, List.cons_append, List.append_assoc]
    exact h.string hs
  | .arr xs, fr, rest, toks, hs, _, h => by
    rw [symbolToJson, Val.toks, List.cons_append, List.cons_append, List.append_assoc, List.append_assoc]
    exact (lexes_items xs fr 0 hs (delim_cons (by simp)) (h.punct (t := .rbrack) rfl)).punct rfl
  | .obj ms, fr, rest, toks, hs, _, h => by
    rw [symbolToJson, Val.toks, List.cons_append, List.cons_append, List.append_assoc, List.append_assoc]
    exact (lexes_members ms fr 0 hs (delim_cons (by simp)) (h.punct (t := .rbrace) rfl)).punct rfl

theorem lexes_items : ∀ (xs : Items w) (fr : List ℕ → Frame) (i : ℕ) {rest : Str} {toks : List Token},
    xs.All (fun f s => Closed (symbolToStr f s)) Closed (fun _ => True) fr i → Delim rest →
      Lexes rest toks → Lexes (itemsToJson fr i xs ++ rest) (xs.toks fr i ++ toks)
  | .nil, _, _, _, _, _, _, h => h
  | .cons x .nil, fr, i, _, _, hs, hd, h => lexes_json x (sub fr i) hs.1 hd h
  | .cons x (.cons y ys), fr, i, rest, toks, hs, hd, h => by
    rw [itemsToJson, Items.toks, List.append_assoc, List.append_assoc]
    exact lexes_json x (sub fr i) hs.1 (delim_cons (by simp))
      ((lexes_items (.cons y ys) fr (i + 1) hs.2 hd h).punct rfl)

theorem lexes_members : ∀ (ms : Members w) (fr : List ℕ → Frame) (i : ℕ) {rest : Str} {toks : List Token},
    ms.All (fun f s => Closed (symbolToStr f s)) Closed (fun _ => True) fr i → Delim rest →
      Lexes rest toks → Lexes (membersToJson fr i ms ++ rest) (ms.toks fr i ++ toks)
  | .nil, _, _, _, _, _, _, h => h
  | .cons key x .nil, fr, i, rest, toks, hs, hd, h => by
    rw [membersToJson, Members.toks, List.cons_append, List.append_assoc]
    exact ((lexes_json x (sub fr i) hs.2.1 hd h).punct (t := .colon) rfl).string hs.1
  | .cons key x (.cons key' y ms), fr, i, rest, toks, hs, hd, h => by
    rw [membersToJson, Members.toks]
    simp only [List.cons_append, List.append_assoc]
    exact ((lexes_json x (sub fr i) hs.2.1 (delim_cons (by simp))
      ((lexes_members (.cons key' y ms) fr (i + 1) hs.2.2 hd h).punct rfl)).punct (t := .colon) rfl).string hs.1

end

end Json
