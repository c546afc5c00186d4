/-
  The strings of the script engine (`jse/be_jse_symbol.c`), which symbols hold in blocks.

  A string symbol holds 8 characters, and each symbol on its chain of `last_child` 14.  A block that
  is full has no terminator; one that is new holds zeros, a pointer having 8 bytes.  The loops on the
  characters of a block are `fill`, `copyChars` and `equalChars`; those on the blocks recurse along
  the chain.
-/
import Mathlib.Data.List.Basic
import Mathlib.Data.Int.Notation
import Mathlib.Tactic.SplitIfs

namespace StrSymbol

abbrev Str := List UInt8

/-- A string in C: no character is NUL. -/
def CStr : Type := { s : Str // 0 ∉ s }

def BE_JSE_SYMBOL_DATA_STRING_LEN : ℕ := 8

def BE_JSE_SYMBOL_DATA_STRING_MAX_LEN : ℕ := 14

/-- The data of a string symbol, and of the symbols on its chain. -/
abbrev Blocks := List Str

/-- The `for` that stores a string into `n` characters: at its end it goes on with the NUL. -/
def fill (n : ℕ) (s : Str) : Str := s.take n ++ List.replicate (n - s.length) 0

/-- The blocks that are put behind a full one, as long as the string goes on. -/
def extBlocks : Str → Blocks
  | [] => []
  | c :: s =>
    fill BE_JSE_SYMBOL_DATA_STRING_MAX_LEN (c :: s) ::
      extBlocks ((c :: s).drop BE_JSE_SYMBOL_DATA_STRING_MAX_LEN)
termination_by s => s.length
decreasing_by
  rw [List.length_drop, List.length_cons]
  exact Nat.sub_lt (Nat.succ_pos _) (by decide)

def newStrSymbol (s : Str) : Blocks :=
  fill BE_JSE_SYMBOL_DATA_STRING_LEN s :: extBlocks (s.drop BE_JSE_SYMBOL_DATA_STRING_LEN)

/-- The copy of a symbol, and of those on its chain. -/
def symbolCp : Blocks → Blocks
  | [] => []
  | b :: bs => b :: symbolCp bs

/-- The characters of a block up to its terminator. -/
def used (b : Str) : Str := b.takeWhile (· ≠ 0)

/-- The last block of the chain takes what fits. -/
def symbolStrAppend : Blocks → Str → Blocks
  | [], _ => []
  | [b], s =>
    if s = [] then [b]
    else (used b ++ fill (b.length - (used b).length) s) :: extBlocks (s.drop (b.length - (used b).length))
  | b :: b' :: bs, s => b :: symbolStrAppend (b' :: bs) s

/-- The characters from `stridx` on, or `none` where a null pointer is asked for its length. -/
def seek : Blocks → ℕ → Option Str
  | [], _ => none
  | b :: bs, stridx => if stridx ≥ b.length then seek bs (stridx - b.length) else some ((b :: bs).flatten.drop stridx)

/-- The `for` that copies into `n` characters, with what is left of `str` and of `maxLength`; where
    nothing is left, `str` is 0. -/
def copyChars : ℕ → Str → ℤ → Str × Str × ℤ
  | 0, str, maxLength => ([], str, maxLength)
  | n + 1, [], maxLength => (0 :: (copyChars n [] maxLength).1, (copyChars n [] maxLength).2)
  | n + 1, ch :: str, maxLength =>
    let r := if ch ≠ 0 ∧ maxLength - 1 > 0 then copyChars n str (maxLength - 1) else copyChars n [] (maxLength - 1)
    (ch :: r.1, r.2)

theorem copyChars_length (n : ℕ) (str : Str) (maxLength : ℤ) :
    (copyChars n str maxLength).2.1.length ≤ str.length - n := by
  induction n generalizing str maxLength with
  | zero => exact Nat.le_refl _
  | succ n ih =>
    cases str with
    | nil => exact Nat.le_trans (ih [] maxLength) (by simp)
    | cons ch str =>
      rw [copyChars]
      split_ifs
      · exact Nat.le_trans (ih str _) (by simp)
      · exact Nat.le_trans (ih [] _) (by simp)

/-- The blocks that are put behind a full one, as long as `str` is not 0. -/
def copyBlocks : Str → ℤ → Blocks
  | [], _ => []
  | ch :: str, maxLength =>
    let r := copyChars BE_JSE_SYMBOL_DATA_STRING_MAX_LEN (ch :: str) maxLength
    r.1 :: copyBlocks r.2.1 r.2.2
termination_by str => str.length
decreasing_by
  refine Nat.lt_of_le_of_lt (copyChars_length _ _ _) ?_
  exact Nat.sub_lt (Nat.succ_pos _) (by decide)

/-- The copying into the last block of the chain and behind it. -/
def appendChars : Blocks → Str → ℤ → Blocks
  | [], _, _ => []
  | [b], str, maxLength =>
    let r := copyChars (b.length - (used b).length) str maxLength
    (used b ++ r.1) :: copyBlocks r.2.1 r.2.2
  | b :: b' :: bs, str, maxLength => b :: appendChars (b' :: bs) str maxLength

def symbolStrValueAppend (s str : Blocks) (stridx : ℕ) (maxLength : ℤ) : Option Blocks :=
  (seek str stridx).map fun cs => appendChars s cs maxLength

def symbolStrLen : Blocks → ℕ
  | [] => 0
  | [b] => (used b).length
  | b :: b' :: bs => b.length + symbolStrLen (b' :: bs)

/-- The `for` that compares a block: its result, or what is left of the string. -/
def equalChars : Str → Str → Bool ⊕ Str
  | [], str => .inr str
  | c :: b, str =>
    if c ≠ str.headD 0 then .inl false
    else if str = [] then .inl true
    else equalChars b str.tail

def symbolStrEqual : Blocks → Str → Bool
  | [], _ => false
  | b :: bs, str =>
    match equalChars b str with
    | .inl r => r
    | .inr str => if str = [] then bs.isEmpty else symbolStrEqual bs str

/-- The loop on the characters of two chains; a null pointer has the character 0. -/
def cmpChars (equalAtEndOfString : Bool) : Str → Str → ℤ
  | [], b => if b.headD 0 ≠ 0 ∧ equalAtEndOfString = false then 0 - (b.headD 0).toNat else 0
  | ca :: a, b =>
    if ca ≠ b.headD 0 then
      if (ca = 0 ∨ b.headD 0 = 0) ∧ equalAtEndOfString then 0 else ca.toNat - (b.headD 0).toNat
    else if ca = 0 then 0
    else cmpChars equalAtEndOfString a b.tail

def symbolStrCmp (va vb : Blocks) (starta startb : ℕ) (equalAtEndOfString : Bool) : ℤ :=
  cmpChars equalAtEndOfString (va.flatten.drop starta) (vb.flatten.drop startb)

/-- The `for` of `symbol_type_equal`, with its result if it returns. -/
def typeEqualChars : Str → Str → Option Bool
  | [], _ => none
  | c :: va, vb => if c ≠ vb.headD 0 then some false else if c = 0 then some true else typeEqualChars va vb.tail

/-- The `while` of `symbol_type_equal`: each round goes on with the blocks behind `a` and `b`, not behind
    `va` and `vb`. -/
def typeEqualLoop (a b : Blocks) : ℕ → Str → Str → Option Bool
  | 0, _, _ => none
  | n + 1, va, vb =>
    match typeEqualChars va vb with
    | some r => some r
    | none =>
      match a.tail, b.tail with
      | [], [] => some true
      | va :: _, vb :: _ => typeEqualLoop a b n va vb
      | _, _ => some false

/-- For two symbols that are strings, and not the same. -/
def symbolTypeEqual (n : ℕ) (a b : Blocks) : Option Bool := typeEqualLoop a b n (a.headD []) (b.headD [])

/-- The characters written, `prev` being before them: the terminator is not written where that is 0. -/
def toStrLoop (prev : UInt8) : Str → ℕ → Str
  | [], _ => if prev ≠ 0 then [0] else []
  | _ :: _, 0 => [0]
  | c :: cs, len + 1 => c :: toStrLoop c cs len

/-- What is written from `str` on. -/
def symbolToStr (prev : UInt8) (s : Blocks) (len : ℕ) : Str := toStrLoop prev (s.flatMap used) len

/-! ## Symbols that scripts build -/

/-- How a symbol is built. -/
inductive Build
  | new (s : CStr)
  | cp (x : Build)
  | append (x : Build) (s : CStr)
  | valueAppend (x y : Build) (start max : ℕ)

namespace Build

/-- The text that the symbol should hold. -/
def text : Build → Str
  | new s => s.1
  | cp x => x.text
  | append x s => x.text ++ s.1
  | valueAppend x y start max => x.text ++ (y.text.drop start).take max

def symbol : Build → Option Blocks
  | new s => some (newStrSymbol s.1)
  | cp x => x.symbol.map symbolCp
  | append x s => x.symbol.map fun b => symbolStrAppend b s.1
  | valueAppend x y start max => x.symbol.bind fun b => y.symbol.bind fun b' => symbolStrValueAppend b b' start max

end Build

/-- The symbol is there, and holds the text. -/
def Holds (t : Str) (s : Option Blocks) : Prop :=
  ∃ b, s = some b ∧ b.flatMap used = t ∧ symbolStrLen b = t.length ∧ ∀ s : CStr, symbolStrEqual b s.1 = decide (t = s.1)

/-- Each symbol on the way holds its text. -/
def Build.Exact : Build → Prop
  | new s => Holds s.1 (new s).symbol
  | cp x => x.Exact ∧ Holds x.text (cp x).symbol
  | append x s => x.Exact ∧ Holds (append x s).text (append x s).symbol
  | valueAppend x y start max =>
    x.Exact ∧ y.Exact ∧ Holds (valueAppend x y start max).text (valueAppend x y start max).symbol

/-- The characters that a chain for a text of this length has room for. -/
def capacity (n : ℕ) : ℕ :=
  if n ≤ BE_JSE_SYMBOL_DATA_STRING_LEN then BE_JSE_SYMBOL_DATA_STRING_LEN
  else BE_JSE_SYMBOL_DATA_STRING_LEN + (n - BE_JSE_SYMBOL_DATA_STRING_LEN + 13) / BE_JSE_SYMBOL_DATA_STRING_MAX_LEN *
    BE_JSE_SYMBOL_DATA_STRING_MAX_LEN

/-- The copy comes to the NUL in the last block of a text of length `n`. -/
def ReadsNul (n start max : ℕ) : Prop := n < capacity n ∧ (n ≤ start ∨ n - start < max)

/-- What the calls of `symbol_str_value_append` need: the position is in the chain, one character is asked
    for where there is one, and the NUL is not read where the blocks are full. -/
def Build.Meets : Build → Prop
  | new _ => True
  | cp x => x.Meets
  | append x _ => x.Meets
  | valueAppend x y start max =>
    x.Meets ∧ y.Meets ∧ start < capacity y.text.length ∧ (max = 0 → y.text.length ≤ start) ∧
      ¬ (ReadsNul y.text.length start max ∧
        capacity (valueAppend x y start max).text.length = (valueAppend x y start max).text.length)

/-- The strings are those of the texts, for two symbols `x` and `y` and a buffer of `size` bytes. -/
structure Refines (x y : Build) (len size : ℕ) : Prop where
  left : x.Exact
  right : y.Exact
  cmp : ∀ a b, x.symbol = some a → y.symbol = some b → (symbolStrCmp a b 0 0 false = 0 ↔ x.text = y.text)
  equal : ∀ a b, x.symbol = some a → y.symbol = some b → ∃ n, symbolTypeEqual n a b = some (decide (x.text = y.text))
  toStr : ∀ a prev, x.symbol = some a →
    symbolToStr prev a len = x.text.take len ++ [0] ∧ (symbolToStr prev a len).length ≤ size


/-! ## Chains -/

/-- The blocks of a string, the first of which has `n` characters. -/
def chain (n : ℕ) (s : Str) : Blocks := fill n s :: extBlocks (s.drop n)

/-- The characters they have room for, for a string of length `m`. -/
def room (n m : ℕ) : ℕ := if m ≤ n then n else n + (m - n + 13) / 14 * 14

variable {n m k : ℕ} {s t u d : Str} {b : Blocks}

theorem room_on (h : n < m) : room n m = n + room 14 (m - n) := by
  unfold room
  split_ifs <;> omega

theorem le_room : m ≤ room n m := by
  unfold room
  split_ifs <;> omega

theorem chain_last (h : s.length ≤ n) : chain n s = [fill n s] := by
  rw [chain, List.drop_eq_nil_of_le h, extBlocks]

theorem chain_on (h : n < s.length) : chain n s = fill n s :: chain 14 (s.drop n) := by
  rw [chain]
  cases hs : s.drop n with
  | nil => exact absurd (List.drop_eq_nil_iff.1 hs) (Nat.not_le_of_lt h)
  | cons c u =>
    rw [extBlocks]
    rfl

theorem chain_induct {P : ℕ → Str → Prop} (last : ∀ {n s}, s.length ≤ n → P n s)
    (on : ∀ {n s}, n < s.length → P 14 (s.drop n) → P n s) (n : ℕ) (s : Str) : P n s := by
  have hpos : ∀ k n s, 0 < n → s.length ≤ k → P n s := by
    intro k
    induction k with
    | zero => exact fun n s _ hs => last (Nat.le_trans hs (Nat.zero_le n))
    | succ k ih =>
      intro n s hn hs
      by_cases h : s.length ≤ n
      · exact last h
      · refine on (Nat.lt_of_not_le h) (ih 14 _ (by decide) ?_)
        rw [List.length_drop]
        omega
  by_cases h : s.length ≤ n
  · exact last h
  · exact on (Nat.lt_of_not_le h) (hpos _ _ _ (by decide) (Nat.le_refl _))

theorem fill_of_le (h : n ≤ s.length) : fill n s = s.take n := by
  rw [fill, Nat.sub_eq_zero_of_le h, List.replicate_zero, List.append_nil]

theorem fill_of_ge (h : s.length ≤ n) : fill n s = s ++ List.replicate (n - s.length) 0 := by
  rw [fill, List.take_of_length_le h]

theorem fill_length : (fill n s).length = n := by
  rw [fill, List.length_append, List.length_take, List.length_replicate]
  omega

theorem used_append (h : 0 ∉ s) : used (s ++ List.replicate k 0) = s := by
  rw [used, List.takeWhile_append_of_pos (by rintro c hc; simpa using ne_of_mem_of_not_mem hc h)]
  cases k with
  | zero => simp
  | succ k => simp [List.replicate_succ]

theorem used_fill (h : 0 ∉ s) : used (fill n s) = s.take n := used_append fun h' => h (List.mem_of_mem_take h')

theorem flatten_chain (n : ℕ) (s : Str) :
    (chain n s).flatten = s ++ List.replicate (room n s.length - s.length) 0 := by
  induction n, s using chain_induct with
  | last h => rw [chain_last h, fill_of_ge h, room, if_pos h]; simp
  | @on n s h ih =>
    rw [chain_on h, List.flatten_cons, ih, fill_of_le (Nat.le_of_lt h), ← List.append_assoc, List.take_append_drop,
      room_on h, List.length_drop]
    congr 2
    omega

theorem used_chain (h : 0 ∉ s) : (chain n s).flatMap used = s := by
  induction n, s using chain_induct with
  | last hle => rw [chain_last hle, List.flatMap_cons, used_fill h, List.take_of_length_le hle]; simp
  | on hlt ih =>
    rw [chain_on hlt, List.flatMap_cons, used_fill h, ih fun h' => h (List.mem_of_mem_drop h'), List.take_append_drop]

theorem length_chain (h : 0 ∉ s) : symbolStrLen (chain n s) = s.length := by
  induction n, s using chain_induct with
  | last hle => rw [chain_last hle, symbolStrLen, used_fill h, List.take_of_length_le hle]
  | @on n s hlt ih =>
    have ih := ih fun h' => h (List.mem_of_mem_drop h')
    rw [chain_on hlt]
    rw [chain] at ih ⊢
    rw [symbolStrLen, ih, fill_length, List.length_drop]
    omega

/-! ## What a block compares -/

theorem zero_not_mem_tail (h : 0 ∉ s) : 0 ∉ s.tail := fun h' => h (List.mem_of_mem_tail h')

theorem fill_succ : fill (n + 1) s = s.headD 0 :: fill n s.tail := by
  cases s with
  | nil => simp [fill, List.replicate_succ]
  | cons c s => simp [fill]

theorem decide_drop (h : s.take n = t.take n) : decide (s = t) = decide (s.drop n = t.drop n) := by
  refine decide_eq_decide.2 ⟨fun hst => by rw [hst], fun hd => ?_⟩
  rw [← List.take_append_drop n s, h, hd, List.take_append_drop]

/-- The `for` at a block of a text: it returns the result, or goes on where the block is full and the same. -/
theorem equalChars_fill (hs : 0 ∉ s) (ht : 0 ∉ t) : equalChars (fill n s) t =
    if n ≤ s.length ∧ s.take n = t.take n then .inr (t.drop n) else .inl (decide (s = t)) := by
  induction n generalizing s t with
  | zero => simp [fill, equalChars]
  | succ n ih =>
    have ih := @ih s.tail t.tail (zero_not_mem_tail hs) (zero_not_mem_tail ht)
    rw [fill_succ, equalChars, ih]
    cases s with
    | nil => cases t with
      | nil => simp
      | cons c t =>
        have hc : ¬ 0 = c := fun hc => ht (by simp [hc])
        simp [hc]
    | cons a s =>
      have ha : a ≠ 0 := fun ha => hs (by simp [ha])
      cases t with
      | nil => simp [ha]
      | cons c t =>
        by_cases hac : a = c
        · subst hac
          simp
          rfl
        · simp [hac]

theorem symbolStrEqual_chain (hs : 0 ∉ s) (ht : 0 ∉ t) : symbolStrEqual (chain n s) t = decide (s = t) := by
  induction n, s using chain_induct generalizing t with
  | @last n s hle =>
    rw [chain_last hle, symbolStrEqual, equalChars_fill hs ht]
    by_cases hfull : n ≤ s.length ∧ s.take n = t.take n
    · rw [if_pos hfull, decide_drop hfull.2]
      simp only [List.drop_eq_nil_of_le hle]
      cases t.drop n with
      | nil => rfl
      | cons c u => rfl
    · rw [if_neg hfull]
  | @on n s hlt ih =>
    rw [chain_on hlt, symbolStrEqual, equalChars_fill hs ht]
    by_cases hfull : n ≤ s.length ∧ s.take n = t.take n
    · have hne : s.drop n ≠ [] := fun h => Nat.not_le_of_lt hlt (List.drop_eq_nil_iff.1 h)
      rw [if_pos hfull, decide_drop hfull.2, ← ih (fun h => hs (List.mem_of_mem_drop h)) fun h => ht (List.mem_of_mem_drop h)]
      dsimp only
      split_ifs with hd
      · rw [hd, ih (fun h => hs (List.mem_of_mem_drop h)) (by simp), decide_eq_false hne]
        rfl
      · rfl
    · rw [if_neg hfull]

theorem chain_append (h : n < s.length) : chain n (s ++ t) = fill n s :: chain 14 (s.drop n ++ t) := by
  have hle := Nat.le_of_lt h
  rw [chain_on (by rw [List.length_append]; omega), fill_of_le (by rw [List.length_append]; omega), fill_of_le hle,
    List.take_append_of_le_length hle, List.drop_append_of_le_length hle]

theorem chain_append_last (h : s.length ≤ n) :
    chain n (s ++ t) = (s ++ fill (n - s.length) t) :: extBlocks (t.drop (n - s.length)) := by
  rw [chain, fill, fill, List.take_append, List.take_of_length_le h, List.append_assoc, List.length_append,
    Nat.sub_add_eq, List.drop_append, List.drop_eq_nil_of_le h, List.nil_append]

theorem symbolStrEqual_nul (hs : 0 ∉ s) (hfull : room n s.length = s.length) :
    symbolStrEqual (chain n (s ++ [0])) s = false := by
  induction n, s using chain_induct with
  | @last n s hle =>
    rw [room, if_pos hle] at hfull
    subst hfull
    have hfill : s ++ fill (s.length - s.length) [0] = fill s.length s := by
      rw [Nat.sub_self, fill_of_le (Nat.le_refl _), List.take_length]
      simp [fill]
    rw [chain_append_last hle, hfill, symbolStrEqual, equalChars_fill hs hs, if_pos ⟨Nat.le_refl _, rfl⟩]
    simp [extBlocks]
  | @on n s hlt ih =>
    have hne : s.drop n ≠ [] := fun h => Nat.not_le_of_lt hlt (List.drop_eq_nil_iff.1 h)
    rw [chain_append hlt, symbolStrEqual, equalChars_fill hs hs, if_pos ⟨Nat.le_of_lt hlt, rfl⟩]
    simp only [hne, if_false]
    refine ih (fun h => hs (List.mem_of_mem_drop h)) ?_
    rw [room_on hlt] at hfull
    rw [List.length_drop]
    omega

theorem chain_nul (hroom : room n s.length ≠ s.length) : chain n (s ++ [0]) = chain n s := by
  induction n, s using chain_induct with
  | @last n s hle =>
    rw [room, if_pos hle] at hroom
    obtain ⟨k, hk⟩ : ∃ k, n - s.length = k + 1 := ⟨n - s.length - 1, by omega⟩
    rw [chain_append_last hle, chain_last hle, fill_of_ge hle, hk]
    simp [fill, extBlocks, List.replicate_succ]
  | @on n s hlt ih =>
    rw [chain_append hlt, chain_on hlt, ih]
    rw [room_on hlt] at hroom
    rw [List.length_drop]
    omega

/-! ## Appending -/

/-- What is copied until `str` is 0, with the NUL that is read. -/
def written : Str → ℤ → Str
  | [], _ => []
  | ch :: str, maxLength => if ch ≠ 0 ∧ maxLength - 1 > 0 then ch :: written str (maxLength - 1) else [ch]

variable {cs : Str} {maxLength : ℤ}

theorem fill_cons (c : UInt8) : fill (n + 1) (c :: s) = c :: fill n s := fill_succ

theorem fill_nil : fill (n + 1) [] = 0 :: fill n [] := fill_succ

theorem copyChars_fill : (copyChars n cs maxLength).1 = fill n (written cs maxLength) := by
  induction n generalizing cs maxLength with
  | zero => simp [copyChars, fill]
  | succ n ih =>
    cases cs with
    | nil => rw [copyChars, ih, written, fill_nil]
    | cons ch cs =>
      rw [copyChars, written]
      split_ifs
      · rw [ih, fill_cons]
      · rw [ih, fill_cons, written]

theorem copyChars_rest : written (copyChars n cs maxLength).2.1 (copyChars n cs maxLength).2.2 =
    (written cs maxLength).drop n := by
  induction n generalizing cs maxLength with
  | zero => rfl
  | succ n ih =>
    cases cs with
    | nil => rw [copyChars, ih, written, List.drop_nil, List.drop_nil]
    | cons ch cs =>
      rw [copyChars, written]
      split_ifs
      · rw [ih, List.drop_succ_cons]
      · rw [ih, List.drop_succ_cons, written]

theorem copyBlocks_eq (cs : Str) (maxLength : ℤ) : copyBlocks cs maxLength = extBlocks (written cs maxLength) := by
  induction hk : cs.length using Nat.strongRecOn generalizing cs maxLength with
  | _ k ih =>
    cases cs with
    | nil => rw [copyBlocks, written, extBlocks]
    | cons ch cs =>
      obtain ⟨c, u, hu⟩ : ∃ c u, written (ch :: cs) maxLength = c :: u := by
        rw [written]
        split_ifs
        · exact ⟨_, _, rfl⟩
        · exact ⟨_, _, rfl⟩
      have hlt := copyChars_length BE_JSE_SYMBOL_DATA_STRING_MAX_LEN (ch :: cs) maxLength
      rw [copyBlocks, hu, extBlocks, ← hu]
      rw [copyChars_fill, ih _ ?_ _ _ rfl, copyChars_rest]
      rw [List.length_cons] at hk hlt
      exact hk ▸ Nat.lt_of_le_of_lt hlt (Nat.sub_lt (Nat.succ_pos _) (by decide))

theorem symbolStrAppend_chain (hd : 0 ∉ d) (s : Str) : symbolStrAppend (chain n d) s = chain n (d ++ s) := by
  induction n, d using chain_induct with
  | last hle =>
    rw [chain_last hle, symbolStrAppend, used_fill hd, List.take_of_length_le hle, fill_length]
    split_ifs with hs
    · rw [hs, List.append_nil, chain_last hle]
    · rw [chain_append_last hle]
  | on hlt ih =>
    rw [chain_on hlt, chain_append hlt, ← ih fun h => hd (List.mem_of_mem_drop h)]
    rfl

/-- **A value appended**: the characters that are copied stand behind the text. -/
theorem appendChars_chain (hd : 0 ∉ d) : appendChars (chain n d) cs maxLength = chain n (d ++ written cs maxLength) := by
  induction n, d using chain_induct with
  | last hle =>
    rw [chain_last hle, appendChars, used_fill hd, List.take_of_length_le hle, fill_length]
    rw [copyBlocks_eq, copyChars_fill, copyChars_rest, chain_append_last hle]
  | on hlt ih =>
    rw [chain_on hlt, chain_append hlt, ← ih fun h => hd (List.mem_of_mem_drop h)]
    rfl

theorem seek_eq (b : Blocks) (i : ℕ) : seek b i = if i < b.flatten.length then some (b.flatten.drop i) else none := by
  induction b generalizing i with
  | nil => rfl
  | cons b bs ih =>
    rw [seek, ih, List.flatten_cons, List.length_append]
    by_cases h : i ≥ b.length
    · rw [if_pos h, List.drop_append, List.drop_eq_nil_of_le h, List.nil_append]
      exact if_congr (by omega) rfl rfl
    · rw [if_neg h, if_pos (by omega)]

theorem written_pos {max : ℕ} (hu : 0 ∉ u) (hmax : 0 < max) : written (u ++ List.replicate k 0) max =
    u.take max ++ if u.length < max ∧ 0 < k then [0] else [] := by
  induction u generalizing max with
  | nil =>
    cases k with
    | zero => simp [written]
    | succ k => simp [written, List.replicate_succ, hmax]
  | cons c u ih =>
    have hc : c ≠ 0 := fun hc => hu (by simp [hc])
    obtain ⟨max, rfl⟩ : ∃ j, max = j + 1 := ⟨max - 1, by omega⟩
    have hcast : ((max + 1 : ℕ) : ℤ) - 1 = (max : ℤ) := by omega
    rw [List.cons_append, written, hcast]
    by_cases hz : max = 0
    · subst hz
      simp
    · rw [if_pos ⟨hc, by omega⟩, ih (fun h => hu (List.mem_cons_of_mem _ h)) (Nat.pos_of_ne_zero hz)]
      simp

/-! ## The other comparisons, and the copy into a buffer -/

theorem symbolCp_eq (b : Blocks) : symbolCp b = b := by
  induction b with
  | nil => rfl
  | cons b bs ih => rw [symbolCp, ih]

theorem capacity_eq (n : ℕ) : capacity n = room 8 n := rfl

theorem holds_new (hs : 0 ∉ s) : Holds s (some (newStrSymbol s)) :=
  ⟨_, rfl, used_chain hs, length_chain hs, fun t => symbolStrEqual_chain hs t.2⟩

namespace Build

variable {x y : Build} {start max : ℕ}

theorem nul_not_mem : ∀ x : Build, 0 ∉ x.text
  | new s => s.2
  | cp x => x.nul_not_mem
  | append x s => by
    rw [text, List.mem_append, not_or]
    exact ⟨x.nul_not_mem, s.2⟩
  | valueAppend x y start max => by
    rw [text, List.mem_append, not_or]
    exact ⟨x.nul_not_mem, fun h => y.nul_not_mem (List.mem_of_mem_drop (List.mem_of_mem_take h))⟩

theorem symbol_valueAppend (hx : x.symbol = some (newStrSymbol x.text)) (hy : y.symbol = some (newStrSymbol y.text)) :
    (valueAppend x y start max).symbol = if start < capacity y.text.length then
      some (newStrSymbol (x.text ++ written (y.text.drop start ++
        List.replicate (capacity y.text.length - y.text.length - (start - y.text.length)) 0) max)) else none := by
  have hle := @le_room 8 y.text.length
  have hflat : (newStrSymbol y.text).flatten = y.text ++ List.replicate (capacity y.text.length - y.text.length) 0 :=
    flatten_chain 8 y.text
  have hroom : (newStrSymbol y.text).flatten.length = capacity y.text.length := by
    rw [hflat, List.length_append, List.length_replicate, capacity_eq]
    omega
  rw [symbol, hx, hy, Option.bind_some, Option.bind_some, symbolStrValueAppend, seek_eq, hroom]
  split_ifs with h
  · rw [Option.map_some, hflat, List.drop_append, List.drop_replicate]
    exact congrArg some (appendChars_chain x.nul_not_mem)
  · rfl

theorem symbol_of_seek (hx : x.symbol = some (newStrSymbol x.text)) (hy : y.symbol = some (newStrSymbol y.text))
    (hstart : start < capacity y.text.length) (hmax : max = 0 → y.text.length ≤ start) :
    (valueAppend x y start max).symbol = some (newStrSymbol ((valueAppend x y start max).text ++
      if y.text.length < capacity y.text.length ∧ (y.text.length ≤ start ∨ y.text.length - start < max) then [0]
      else [])) := by
  have hle := @le_room 8 y.text.length
  rw [← capacity_eq] at hle
  have hdrop : 0 ∉ y.text.drop start := fun h => y.nul_not_mem (List.mem_of_mem_drop h)
  rw [symbol_valueAppend hx hy, if_pos hstart, text, List.append_assoc]
  congr 3
  rcases Nat.eq_zero_or_pos max with rfl | hpos
  · have hlen := hmax rfl
    rw [List.drop_eq_nil_of_le hlen, List.take_nil, if_pos ⟨by omega, .inl hlen⟩]
    obtain ⟨k, hk⟩ : ∃ k, capacity y.text.length - y.text.length - (start - y.text.length) = k + 1 := ⟨_, (Nat.succ_pred_eq_of_pos (by omega)).symm⟩
    rw [hk, List.nil_append, List.replicate_succ, written, if_neg (by simp)]
    rfl
  · rw [written_pos hdrop hpos, List.length_drop]
    congr 1
    exact if_congr (by omega) rfl rfl

theorem symbol_of_meets : ∀ x : Build, x.Meets → x.symbol = some (newStrSymbol x.text)
  | new s, _ => rfl
  | cp x, h => by
    rw [symbol, x.symbol_of_meets h, Option.map_some, symbolCp_eq]
    rfl
  | append x s, h => by
    rw [symbol, x.symbol_of_meets h]
    exact congrArg some (symbolStrAppend_chain x.nul_not_mem s.1)
  | valueAppend x y start max, ⟨hx, hy, hstart, hmax, hnul⟩ => by
    rw [symbol_of_seek (x.symbol_of_meets hx) (y.symbol_of_meets hy) hstart hmax]
    split_ifs with h
    · exact congrArg some (chain_nul fun hfull => hnul ⟨h, hfull⟩)
    · rw [List.append_nil]

theorem not_holds (hx : x.symbol = some (newStrSymbol x.text)) (hy : y.symbol = some (newStrSymbol y.text))
    (h : Holds (valueAppend x y start max).text (valueAppend x y start max).symbol) :
    start < capacity y.text.length ∧ (max = 0 → y.text.length ≤ start) ∧
      ¬ (ReadsNul y.text.length start max ∧
        capacity (valueAppend x y start max).text.length = (valueAppend x y start max).text.length) := by
  obtain ⟨b, hb, htext, -, hequal⟩ := h
  have hstart : start < capacity y.text.length := by
    by_contra hge
    rw [symbol_valueAppend hx hy, if_neg hge] at hb
    cases hb
  have hmax : max = 0 → y.text.length ≤ start := by
    rintro rfl
    by_contra hlt
    obtain ⟨c, u, hu⟩ := List.exists_cons_of_ne_nil (l := y.text.drop start)
      fun h => hlt (List.drop_eq_nil_iff.1 h)
    have hc : 0 ∉ x.text ++ [c] := by
      rw [List.mem_append, not_or, List.mem_singleton]
      exact ⟨x.nul_not_mem, fun hc => y.nul_not_mem (List.mem_of_mem_drop (by rw [hu, hc]; exact List.mem_cons_self))⟩
    rw [symbol_valueAppend hx hy, if_pos hstart, hu, List.cons_append, written, if_neg (by simp), Option.some.injEq] at hb
    rw [← hb, text, newStrSymbol] at htext
    have hlen := congrArg List.length ((used_chain (n := 8) hc).symm.trans htext)
    simp at hlen
  refine ⟨hstart, hmax, ?_⟩
  rintro ⟨⟨hroom, hread⟩, hfull⟩
  rw [symbol_of_seek hx hy hstart hmax, if_pos ⟨hroom, hread⟩, Option.some.injEq] at hb
  have hself := hequal ⟨_, nul_not_mem (valueAppend x y start max)⟩
  rw [← hb, decide_eq_true rfl] at hself
  exact Bool.false_ne_true ((symbolStrEqual_nul (nul_not_mem _) hfull).symm.trans hself)

/-- **The symbols hold their texts** exactly where each call has what it needs. -/
theorem exact_iff (x : Build) : x.Exact ↔ x.Meets := by
  induction x with
  | new s => exact iff_of_true (holds_new s.2) trivial
  | cp x ih =>
    refine ⟨fun h => ih.1 h.1, fun h => ⟨ih.2 h, ?_⟩⟩
    rw [symbol_of_meets (cp x) h]
    exact holds_new x.nul_not_mem
  | append x s ih =>
    refine ⟨fun h => ih.1 h.1, fun h => ⟨ih.2 h, ?_⟩⟩
    rw [symbol_of_meets (append x s) h]
    exact holds_new (nul_not_mem (append x s))
  | valueAppend x y start max ihx ihy =>
    constructor
    · rintro ⟨hx, hy, h⟩
      have hx := ihx.1 hx
      have hy := ihy.1 hy
      exact ⟨hx, hy, not_holds (x.symbol_of_meets hx) (y.symbol_of_meets hy) h⟩
    · intro h
      refine ⟨ihx.2 h.1, ihy.2 h.2.1, ?_⟩
      rw [symbol_of_meets _ h]
      exact holds_new (nul_not_mem _)

end Build

end StrSymbol
