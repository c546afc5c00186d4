/-
  `JSON.parse` of what `JSON.stringify` writes.

  Of a value whose strings are one token each, what comes back is known (`comesBack`): every string
  without its backslashes, and every integer cut to an `int`.  So it is the value itself exactly if there
  is nothing to lose (`json_round_trips`).
-/
import AliOS.Jse.JsonLex
import Mathlib.Algebra.Order.Ring.Int

namespace Json

variable {w : ℕ} {fr : List ℕ → Frame} {f : Frame} {s : Str} {rest toks : List Token} {c : UInt8} {n m : ℕ}

mutual

/-- What is read back. -/
def Val.comesBack (fr : List ℕ → Frame) : Val w → Val w
  | .null => .null
  | .int v => .int (BitVec.ofInt w (toInt32 v))
  | .str s => .str (appendChars (unescape (symbolToStr (fr []) s)))
  | .arr xs => .arr (xs.comesBack fr 0)
  | .obj ms => .obj (ms.comesBack fr 0)

def Items.comesBack (fr : List ℕ → Frame) (i : ℕ) : Items w → Items w
  | .nil => .nil
  | .cons x xs => .cons (x.comesBack (sub fr i)) (xs.comesBack fr (i + 1))

def Members.comesBack (fr : List ℕ → Frame) (i : ℕ) : Members w → Members w
  | .nil => .nil
  | .cons key x ms => .cons (appendChars (unescape key)) (x.comesBack (sub fr i)) (ms.comesBack fr (i + 1))

end

/-! ## Reading -/

/-- The tokens go on without a sign. -/
def Unsigned (toks : List Token) : Prop := ∀ r, toks ≠ .minus :: r

theorem base_of {x : Val w} (h : handlePrecedentExpr (handleBaseExpr n) n toks = some (x, rest))
    (hr : Unsigned rest) : handleBaseExpr (n + 1) toks = some (x, rest) := by
  rw [handleBaseExpr, h]
  cases rest with
  | nil => rfl
  | cons t rest =>
    cases t with
    | minus => exact absurd rfl (hr rest)
    | _ => rfl

theorem precedent_of {nested : Eval w} (h : Unsigned toks) :
    handlePrecedentExpr nested n toks = handleFactorSyntax nested n toks := by
  cases toks with
  | nil => rfl
  | cons t toks =>
    cases t with
    | minus => exact absurd rfl (h toks)
    | _ => rfl

theorem array_of {nested : Eval w} {t : Token} (ht : t ≠ .rbrack) :
    arrayLoop nested (n + 1) (t :: toks) =
      match nested (t :: toks) with
      | some (x, .rbrack :: rest) => some (.cons x .nil, rest)
      | some (x, .comma :: rest) => (arrayLoop nested n rest).map fun r => (.cons x r.1, r.2)
      | _ => none := by
  cases t with
  | rbrack => exact absurd rfl ht
  | _ => rfl

theorem toks_head (x : Val w) (fr : List ℕ → Frame) : ∃ t ts, x.toks fr = t :: ts ∧ t ≠ .rbrack := by
  cases x with
  | int v =>
    rw [Val.toks]
    split
    · exact ⟨_, _, rfl, by simp⟩
    · exact ⟨_, _, rfl, by simp⟩
  | _ => exact ⟨_, _, rfl, by simp [strToken]⟩

theorem unsigned_cons {t : Token} (h : t ≠ .minus) : Unsigned (t :: toks) := by
  intro r hr
  exact h (List.cons.inj hr).1

theorem int_eq (v : BitVec w) (hr : Unsigned rest) :
    handleBaseExpr (n + 1) ((Val.int v).toks fr ++ rest) = some ((Val.int v).comesBack fr, rest) := by
  refine base_of ?_ hr
  rw [Val.toks, Val.comesBack]
  by_cases hneg : toInt32 v < 0
  · have hk : BitVec.ofInt w (toInt32 v) = -BitVec.ofNat w (toInt32 v).natAbs := by
      rw [← BitVec.ofInt_natCast, ← BitVec.ofInt_neg]
      congr 1
      omega
    rw [if_pos hneg, List.cons_append, List.cons_append, List.nil_append, handlePrecedentExpr,
      handleFactorSyntax, stringToInt_decimal, hk]
    simp
  · have hk : BitVec.ofInt w (toInt32 v) = BitVec.ofNat w (toInt32 v).natAbs := by
      rw [← BitVec.ofInt_natCast]
      congr 1
      omega
    rw [if_neg hneg, List.cons_append, List.nil_append, precedent_of (unsigned_cons (by simp)),
      handleFactorSyntax, stringToInt_decimal, hk]

mutual

theorem base_eq : ∀ (x : Val w) (fr : List ℕ → Frame) {n : ℕ} {rest : List Token},
    (x.toks fr).length < n → Unsigned rest →
      handleBaseExpr n (x.toks fr ++ rest) = some (x.comesBack fr, rest)
  | .null, _, n, rest, hn, hr => by
    obtain ⟨n, rfl⟩ : ∃ k, n = k + 1 := ⟨n - 1, by omega⟩
    exact base_of rfl hr
  | .int v, _, n, rest, hn, hr => by
    obtain ⟨n, rfl⟩ : ∃ k, n = k + 1 := ⟨n - 1, by omega⟩
    exact int_eq v hr
  | .str s, _, n, rest, hn, hr => by
    obtain ⟨n, rfl⟩ : ∃ k, n = k + 1 := ⟨n - 1, by omega⟩
    exact base_of rfl hr
  | .arr xs, fr, n, rest, hn, hr => by
    obtain ⟨n, rfl⟩ : ∃ k, n = k + 1 := ⟨n - 1, by omega⟩
    rw [Val.toks, List.length_cons, List.length_append] at hn
    simp only [List.length_cons, List.length_nil] at hn
    refine base_of ?_ hr
    rw [Val.toks, List.cons_append, List.append_assoc, precedent_of (unsigned_cons (by simp)),
      handleFactorSyntax, List.cons_append, List.nil_append, array_eq xs fr 0 (by omega) (by omega)]
    rfl
  | .obj ms, fr, n, rest, hn, hr => by
    obtain ⟨n, rfl⟩ : ∃ k, n = k + 1 := ⟨n - 1, by omega⟩
    rw [Val.toks, List.length_cons, List.length_append] at hn
    simp only [List.length_cons, List.length_nil] at hn
    refine base_of ?_ hr
    rw [Val.toks, List.cons_append, List.append_assoc, precedent_of (unsigned_cons (by simp)),
      handleFactorSyntax, List.cons_append, List.nil_append, object_eq ms fr 0 (by omega) (by omega)]
    rfl

theorem array_eq : ∀ (xs : Items w) (fr : List ℕ → Frame) (i : ℕ) {n m : ℕ} {rest : List Token},
    (xs.toks fr i).length < n → (xs.toks fr i).length < m →
      arrayLoop (handleBaseExpr n) m (xs.toks fr i ++ .rbrack :: rest) = some (xs.comesBack fr i, rest)
  | .nil, _, _, n, m, rest, hn, hm => by
    obtain ⟨m, rfl⟩ : ∃ k, m = k + 1 := ⟨m - 1, by omega⟩
    rfl
  | .cons x .nil, fr, i, n, m, rest, hn, hm => by
    obtain ⟨m, rfl⟩ : ∃ k, m = k + 1 := ⟨m - 1, by omega⟩
    have hx := @base_eq x (sub fr i) n (.rbrack :: rest) hn (unsigned_cons (by simp))
    obtain ⟨t, ts, ht, hne⟩ := toks_head x (sub fr i)
    rw [Items.toks]
    rw [ht, List.cons_append] at hx ⊢
    rw [array_of hne, hx]
    rfl
  | .cons x (.cons y ys), fr, i, n, m, rest, hn, hm => by
    obtain ⟨m, rfl⟩ : ∃ k, m = k + 1 := ⟨m - 1, by omega⟩
    rw [Items.toks, List.length_append, List.length_cons] at hn hm
    have hx := @base_eq x (sub fr i) n (.comma :: ((Items.cons y ys).toks fr (i + 1) ++ .rbrack :: rest))
      (by omega) (unsigned_cons (by simp))
    have hys := @array_eq (.cons y ys) fr (i + 1) n m rest (by omega) (by omega)
    obtain ⟨t, ts, ht, hne⟩ := toks_head x (sub fr i)
    rw [Items.toks, List.append_assoc, List.cons_append]
    rw [ht, List.cons_append] at hx ⊢
    rw [array_of hne, hx]
    simp only [hys]
    rfl

theorem object_eq : ∀ (ms : Members w) (fr : List ℕ → Frame) (i : ℕ) {n m : ℕ} {rest : List Token},
    (ms.toks fr i).length < n → (ms.toks fr i).length < m →
      objectLoop (handleBaseExpr n) m (ms.toks fr i ++ .rbrace :: rest) = some (ms.comesBack fr i, rest)
  | .nil, _, _, n, m, rest, hn, hm => by
    obtain ⟨m, rfl⟩ : ∃ k, m = k + 1 := ⟨m - 1, by omega⟩
    rfl
  | .cons key x .nil, fr, i, n, m, rest, hn, hm => by
    obtain ⟨m, rfl⟩ : ∃ k, m = k + 1 := ⟨m - 1, by omega⟩
    rw [Members.toks, List.length_cons, List.length_cons] at hn hm
    have hx := @base_eq x (sub fr i) n (.rbrace :: rest) (by omega) (unsigned_cons (by simp))
    rw [Members.toks, List.cons_append, List.cons_append, strToken, objectLoop, hx]
    rfl
  | .cons key x (.cons key' y ms), fr, i, n, m, rest, hn, hm => by
    obtain ⟨m, rfl⟩ : ∃ k, m = k + 1 := ⟨m - 1, by omega⟩
    rw [Members.toks, List.length_cons, List.length_cons, List.length_append, List.length_cons] at hn hm
    have hx := @base_eq x (sub fr i) n (.comma :: ((Members.cons key' y ms).toks fr (i + 1) ++ .rbrace :: rest))
      (by omega) (unsigned_cons (by simp))
    have hms := @object_eq (.cons key' y ms) fr (i + 1) n m rest (by omega) (by omega)
    rw [Members.toks, List.cons_append, List.cons_append, strToken, objectLoop, List.append_assoc,
      List.cons_append, hx]
    simp only [hms]
    rfl

end

/-! ## What is lost -/

/-- At most 63 characters, none of them NUL. -/
def Short (s : Str) : Prop := s.length ≤ 63 ∧ 0 ∉ s

/-- The strings and names are short. -/
def Val.Short (fr : List ℕ → Frame) (x : Val w) : Prop :=
  x.All (fun _ s => Json.Short s) Json.Short (fun _ => True) fr

/-- The buffer holds the string `s` alone: the byte before it is not 0, or its first byte is. -/
def Ended (f : Frame) (s : Str) : Prop := s ≠ [] ∨ f.before ≠ 0 ∨ f.buf.headD 0 = 0

/-- The integer is an `int`. -/
def IsInt (v : BitVec w) : Prop := -2 ^ 31 ≤ v.toInt ∧ v.toInt < 2 ^ 31

/-- Nothing is lost: no string or name has a quote or a backslash, every string is ended in its buffer and
    every integer is an `int`. -/
def Val.Returns (fr : List ℕ → Frame) (x : Val w) : Prop :=
  x.All (fun f s => Ended f s ∧ Plain s) Plain IsInt fr

theorem symbolToStr_eq_iff : symbolToStr f s = s ↔ Ended f s := by
  rw [symbolToStr, Ended]
  by_cases hs : s = [] ∧ f.before = 0
  · obtain ⟨rfl, hb⟩ := hs
    rw [if_pos ⟨rfl, hb⟩]
    cases f.buf with
    | nil => simp
    | cons c cs =>
      by_cases hc : c = 0
      · simp [hc]
      · simp [hc, hb]
  · rw [if_neg hs]
    constructor
    · intro _
      by_cases he : s = []
      · exact .inr (.inl fun hb => hs ⟨he, hb⟩)
      · exact .inl he
    · intro _
      rfl

theorem unescape_ne_nil (h : s ≠ []) : unescape s ≠ [] := by
  induction s using unescape.induct with
  | case1 => exact absurd rfl h
  | case2 c => simp [unescape]
  | case3 d cs => simp [unescape]
  | case4 c d cs hc => simp [unescape, hc]

/-- A string comes back if it is ended and has nothing to escape, and only then. -/
theorem string_back (hc : Closed (symbolToStr f s)) (hs : Short s) :
    appendChars (unescape (symbolToStr f s)) = s ↔ Ended f s ∧ Plain s := by
  by_cases he : Ended f s
  · have hlen : (unescape s).length ≤ 63 := le_trans unescape_length hs.1
    rw [symbolToStr_eq_iff.2 he] at hc ⊢
    rw [appendChars, List.take_of_length_le hlen, unescape_eq_iff hc]
    simp [he]
  · have hne : symbolToStr f s ≠ [] := by
      intro h
      have hs : s ≠ [] := fun h' => he (symbolToStr_eq_iff.1 (h.trans h'.symm))
      exact he (.inl hs)
    have hnil : s = [] := by
      by_contra h
      exact he (.inl h)
    constructor
    · intro h
      have h' := h.trans hnil
      rw [appendChars, List.take_eq_nil_iff] at h'
      rcases h' with h' | h'
      · cases h'
      · exact absurd h' (unescape_ne_nil hne)
    · rintro ⟨h, -⟩
      exact absurd h he

theorem name_back (hc : Closed s) (hs : Short s) : appendChars (unescape s) = s ↔ Plain s := by
  have hlen : (unescape s).length ≤ 63 := le_trans unescape_length hs.1
  rw [appendChars, List.take_of_length_le hlen, unescape_eq_iff hc]

theorem toInt32_eq_iff (v : BitVec w) : toInt32 v = v.toInt ↔ IsInt v := by
  rw [toInt32, IsInt, BitVec.toInt_ofInt]
  constructor
  · intro h
    have h1 := @Int.bmod_lt v.toInt (2 ^ 32) (by decide)
    have h2 := @Int.le_bmod v.toInt (2 ^ 32) (by decide)
    rw [h] at h1 h2
    omega
  · rintro ⟨h1, h2⟩
    exact Int.bmod_eq_of_le (by omega) (by omega)

theorem int_back (v : BitVec w) : BitVec.ofInt w (toInt32 v) = v ↔ IsInt v := by
  rw [← toInt32_eq_iff]
  constructor
  · intro h
    by_cases hw : w ≤ 32
    · rw [toInt32_eq_iff, IsInt]
      have h1 := @BitVec.toInt_lt w v
      have h2 := @BitVec.le_toInt w v
      have h3 : (2 : ℤ) ^ (w - 1) ≤ 2 ^ 31 := pow_le_pow_right₀ (by decide) (by omega)
      omega
    · have h1 : -2 ^ 31 ≤ toInt32 v := @BitVec.le_toInt 32 _
      have h2 : toInt32 v < 2 ^ 31 := @BitVec.toInt_lt 32 _
      have h3 : (2 : ℤ) ^ 31 ≤ 2 ^ (w - 1) := pow_le_pow_right₀ (by decide) (by omega)
      have h4 := congrArg BitVec.toInt h
      rw [BitVec.toInt_ofInt_eq_self (by omega) (by omega) (by omega)] at h4
      exact h4
  · intro h
    rw [h, BitVec.ofInt_toInt]

section

variable {S S' : Frame → Str → Prop} {K K' : Str → Prop} {I I' : BitVec w → Prop}

mutual

theorem Val.All.mono (hS : ∀ f s, S f s → S' f s) (hK : ∀ s, K s → K' s) (hI : ∀ v, I v → I' v) :
    ∀ {x : Val w} {fr : List ℕ → Frame}, x.All S K I fr → x.All S' K' I' fr
  | .null, _, _ => trivial
  | .int v, _, h => hI v h
  | .str s, fr, h => hS (fr []) s h
  | .arr _, _, h => Items.All.mono hS hK hI h
  | .obj _, _, h => Members.All.mono hS hK hI h

theorem Items.All.mono (hS : ∀ f s, S f s → S' f s) (hK : ∀ s, K s → K' s) (hI : ∀ v, I v → I' v) :
    ∀ {xs : Items w} {fr : List ℕ → Frame} {i : ℕ}, xs.All S K I fr i → xs.All S' K' I' fr i
  | .nil, _, _, _ => trivial
  | .cons _ _, _, _, ⟨hx, hxs⟩ => ⟨Val.All.mono hS hK hI hx, Items.All.mono hS hK hI hxs⟩

theorem Members.All.mono (hS : ∀ f s, S f s → S' f s) (hK : ∀ s, K s → K' s) (hI : ∀ v, I v → I' v) :
    ∀ {ms : Members w} {fr : List ℕ → Frame} {i : ℕ}, ms.All S K I fr i → ms.All S' K' I' fr i
  | .nil, _, _, _ => trivial
  | .cons key _ _, _, _, ⟨hk, hx, hms⟩ =>
    ⟨hK key hk, Val.All.mono hS hK hI hx, Members.All.mono hS hK hI hms⟩

end

end

theorem Val.Returns.selfContained {x : Val w} (h : x.Returns fr) : x.SelfContained fr := by
  refine Val.All.mono ?_ (fun _ h => h.closed) (fun _ _ => trivial) h
  rintro f s ⟨he, hs⟩
  rw [symbolToStr_eq_iff.2 he]
  exact hs.closed

mutual

theorem comesBack_iff : ∀ (x : Val w) (fr : List ℕ → Frame), x.SelfContained fr → x.Short fr →
    (x.comesBack fr = x ↔ x.Returns fr)
  | .null, _, _, _ => by simp [Val.comesBack, Val.Returns, Val.All]
  | .int v, _, _, _ => by
    rw [Val.comesBack, Val.int.injEq]
    exact int_back v
  | .str s, fr, hc, hs => by
    rw [Val.comesBack, Val.str.injEq]
    exact string_back hc hs
  | .arr xs, fr, hc, hs => by
    rw [Val.comesBack, Val.arr.injEq]
    exact items_iff xs fr 0 hc hs
  | .obj ms, fr, hc, hs => by
    rw [Val.comesBack, Val.obj.injEq]
    exact members_iff ms fr 0 hc hs

theorem items_iff : ∀ (xs : Items w) (fr : List ℕ → Frame) (i : ℕ),
    xs.All (fun f s => Closed (symbolToStr f s)) Closed (fun _ => True) fr i →
      xs.All (fun _ s => Short s) Short (fun _ => True) fr i →
      (xs.comesBack fr i = xs ↔ xs.All (fun f s => Ended f s ∧ Plain s) Plain IsInt fr i)
  | .nil, _, _, _, _ => by simp [Items.comesBack, Items.All]
  | .cons x xs, fr, i, ⟨hcx, hcs⟩, ⟨hsx, hss⟩ => by
    rw [Items.comesBack, Items.cons.injEq, comesBack_iff x (sub fr i) hcx hsx, items_iff xs fr (i + 1) hcs hss]
    rfl

theorem members_iff : ∀ (ms : Members w) (fr : List ℕ → Frame) (i : ℕ),
    ms.All (fun f s => Closed (symbolToStr f s)) Closed (fun _ => True) fr i →
      ms.All (fun _ s => Short s) Short (fun _ => True) fr i →
      (ms.comesBack fr i = ms ↔ ms.All (fun f s => Ended f s ∧ Plain s) Plain IsInt fr i)
  | .nil, _, _, _, _ => by simp [Members.comesBack, Members.All]
  | .cons key x ms, fr, i, ⟨hck, hcx, hcs⟩, ⟨hsk, hsx, hss⟩ => by
    rw [Members.comesBack, Members.cons.injEq, name_back hck hsk, comesBack_iff x (sub fr i) hcx hsx,
      members_iff ms fr (i + 1) hcs hss]
    rfl

end

/-! ## The text as a whole -/

theorem symbolToStr_nul (hs : Short s) : 0 ∉ symbolToStr f s := by
  rw [symbolToStr]
  split
  · intro h
    simpa using List.all_eq_true.1 List.all_takeWhile 0 h
  · exact hs.2

theorem itoa_nul (v : BitVec w) : 0 ∉ itoa v := by
  have hdec : 0 ∉ decimal (toInt32 v).natAbs := by
    intro h
    exact absurd (decimal_numeric _ 0 h) (by decide)
  rw [itoa]
  split
  · simp [hdec]
  · exact hdec

mutual

theorem json_nul : ∀ (x : Val w) (fr : List ℕ → Frame), x.Short fr → 0 ∉ symbolToJson fr x
  | .null, _, _ => by simp [symbolToJson]
  | .int v, _, _ => itoa_nul v
  | .str s, fr, h => by
    have := @symbolToStr_nul (fr []) s h
    simp [symbolToJson, this]
  | .arr xs, fr, h => by
    have := items_nul xs fr 0 h
    simp [symbolToJson, this]
  | .obj ms, fr, h => by
    have := members_nul ms fr 0 h
    simp [symbolToJson, this]

theorem items_nul : ∀ (xs : Items w) (fr : List ℕ → Frame) (i : ℕ),
    xs.All (fun _ s => Short s) Short (fun _ => True) fr i → 0 ∉ itemsToJson fr i xs
  | .nil, _, _, _ => by simp [itemsToJson]
  | .cons x .nil, fr, i, h => json_nul x (sub fr i) h.1
  | .cons x (.cons y ys), fr, i, h => by
    have hx := json_nul x (sub fr i) h.1
    have hys := items_nul (.cons y ys) fr (i + 1) h.2
    simp [itemsToJson, hx, hys]

theorem members_nul : ∀ (ms : Members w) (fr : List ℕ → Frame) (i : ℕ),
    ms.All (fun _ s => Short s) Short (fun _ => True) fr i → 0 ∉ membersToJson fr i ms
  | .nil, _, _, _ => by simp [membersToJson]
  | .cons key x .nil, fr, i, h => by
    have hx := json_nul x (sub fr i) h.2.1
    simp [membersToJson, hx, h.1.2]
  | .cons key x (.cons key' y ms), fr, i, h => by
    have hx := json_nul x (sub fr i) h.2.1
    have hms := members_nul (.cons key' y ms) fr (i + 1) h.2.2
    simp [membersToJson, hx, hms, h.1.2]

end

theorem json_ne_nil (x : Val w) : symbolToJson fr x ≠ [] := by
  cases x with
  | int v =>
    rw [symbolToJson, itoa]
    split
    · simp
    · exact decimal_ne_nil _
  | _ => simp [symbolToJson]

theorem parse_stringify {x : Val w} (hc : x.SelfContained fr) (hs : x.Short fr) :
    jsonParse (jsonStringify fr x) = some (x.comesBack fr) := by
  have hnul := json_nul x fr hs
  have hl := (lexes_json x fr hc (@delim_cons [] 41 (by simp))
    (Lexes.punct (t := .rpar) .nil rfl)).punct (c := 40) (t := .lpar) rfl
  have hsrc : (40 :: (symbolToJson fr x ++ [41])).takeWhile (· ≠ 0) = 40 :: (symbolToJson fr x ++ [41]) := by
    have htake := @List.takeWhile_append_of_pos _ (· ≠ 0) (40 :: (symbolToJson fr x ++ [41])) [] (by
      intro c hmem
      simp only [List.mem_cons, List.mem_append, List.not_mem_nil, or_false] at hmem
      rcases hmem with rfl | hmem | rfl
      · decide
      · simp only [ne_eq, decide_not, Bool.not_eq_true', decide_eq_false_iff_not]
        rintro rfl
        exact hnul hmem
      · decide)
    simpa using htake
  have hbase : handleBaseExpr (w := w) ((Token.lpar :: (x.toks fr ++ [.rpar])).length + 1)
      (.lpar :: (x.toks fr ++ [.rpar])) = some (x.comesBack fr, []) := by
    refine base_of ?_ (fun r h => by cases h)
    rw [precedent_of (unsigned_cons (by simp)), handleFactorSyntax,
      base_eq x fr (by simp only [List.length_cons, List.length_append]; omega) (unsigned_cons (by simp))]
  rw [jsonStringify, jsonParse, if_neg (json_ne_nil x), evalString, hsrc, hl.lex_eq (Nat.lt_succ_self _)]
  simp only [hbase]

/-- A value comes back as it was if nothing of it is lost; and of the values whose strings are one token
    each, no other does. -/
theorem json_round_trips (fr : List ℕ → Frame) (x : Val w) (hs : x.Short fr) :
    (x.Returns fr → jsonParse (jsonStringify fr x) = some x) ∧
      (x.SelfContained fr → jsonParse (jsonStringify fr x) = some x → x.Returns fr) := by
  constructor
  · intro h
    rw [parse_stringify h.selfContained hs, (comesBack_iff x fr h.selfContained hs).2 h]
  · intro hc h
    rw [parse_stringify hc hs, Option.some.injEq] at h
    exact (comesBack_iff x fr hc hs).1 h

theorem json_round_trips_nested :
    jsonParse (jsonStringify (fun _ => ⟨1, []⟩)
      (.obj (.cons [97] (.arr (.cons (.int (-5#32)) (.cons (.str []) (.cons .null .nil))))
        (.cons [] (.obj .nil) .nil)))) =
    some (.obj (.cons [97] (.arr (.cons (.int (-5#32)) (.cons (.str []) (.cons .null .nil))))
      (.cons [] (.obj .nil) .nil))) := by
  refine (json_round_trips _ _ ?_).1 ?_
  · simp [Val.Short, Val.All, Items.All, Members.All, Short]
  · simp [Val.Returns, Val.All, Items.All, Members.All, Ended, Plain, IsInt, sub]

/-- The text of `a\b` is the string in quotes, and is read as `ab`. -/
theorem json_loses_backslash :
    Val.Short (fun _ => ⟨1, []⟩) (Val.str (w := 32) [97, 92, 98]) ∧
      jsonStringify (fun _ => ⟨1, []⟩) (Val.str (w := 32) [97, 92, 98]) = [34, 97, 92, 98, 34] ∧
      jsonParse (jsonStringify (fun _ => ⟨1, []⟩) (Val.str (w := 32) [97, 92, 98])) =
        some (Val.str (w := 32) [97, 98]) ∧
      jsonParse (jsonStringify (fun _ => ⟨1, []⟩) (Val.str (w := 32) [97, 92, 98])) ≠
        some (Val.str (w := 32) [97, 92, 98]) := by
  have hs : Val.Short (fun _ => ⟨1, []⟩) (Val.str (w := 32) [97, 92, 98]) := by
    simp [Val.Short, Val.All, Short]
  have hp : jsonParse (jsonStringify (fun _ => ⟨1, []⟩) (Val.str (w := 32) [97, 92, 98])) =
      some (Val.str (w := 32) [97, 98]) := by
    refine parse_stringify ?_ hs
    simp [Val.SelfContained, Val.All, Closed, symbolToStr]
  refine ⟨hs, rfl, hp, ?_⟩
  rw [hp]
  simp

end Json
