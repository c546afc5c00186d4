/-
  The JSON scanner (`LITE-utils/json_parser.c`, `json_parser.h`).

  A pointer is the list of the characters from there to the end of the memory; a
  read or a write outside of it is undefined, and the functions are then `none`.
  NULL is the inner `none`.  The loops over members pass `JOBJECT`, and so the
  functions are those for this type.
-/
import AliOS.Lib.Loop
import AliOS.Utility.StringUtils

namespace Lite

open Lib

abbrev nul : Char := '\x00'

/-- The characters from a place to the end of the memory. -/
abbrev Ptr := List Char

/-- `enum JSONTYPE` -/
inductive JsonType
  | none | string | object | array | number | boolean
  deriving DecidableEq

/-- What `json_get_next_object` stores: `key`, `key_len`, `val`, `val_len`, `val_type`. -/
structure Pair where
  key : Ptr
  keyLen : ℕ
  val : Ptr
  valLen : ℕ
  valType : JsonType
  deriving DecidableEq

/-! ## C strings -/

def strchr (c : Char) : Ptr → Option (Option Ptr)
  | [] => none
  | b :: p => if b = c then some (some (b :: p)) else if b = nul then some none else strchr c p

def strlen : Ptr → Option ℕ
  | [] => none
  | b :: p => if b = nul then some 0 else (strlen p).map (· + 1)

/-- `strncmp(p, q, n) == 0` -/
def strncmpEq : Ptr → Ptr → ℕ → Option Bool
  | _, _, 0 => some true
  | b :: p, c :: q, n + 1 => if b ≠ c then some false else if b = nul then some true else strncmpEq p q n
  | _, _, _ + 1 => none

/-- What is done with a pointer that is not NULL. -/
def notNull {α β : Type} (x : Option (Option α)) (f : α → Option (Option β)) : Option (Option β) :=
  x.bind fun
    | none => some none
    | some a => f a

/-! ## Members -/

/-- `json_get_object` -/
def getObject : Ptr → Option (Option Ptr)
  | [] => none
  | b :: p =>
    if b = nul then some none
    else if b = ' ' then getObject p
    else some (if b = '{' then some (b :: p) else none)

/-- The key: its pointer and its length, and the colon behind it; without a colon no value is found. -/
def getKey (str : Ptr) : Option (Option (Ptr × ℕ × Ptr)) :=
  notNull (strchr '"' str) fun quote =>
    notNull (strchr '"' quote.tail) fun close =>
      notNull (strchr ':' close) fun colon =>
        some (some (quote.tail, quote.tail.length - close.length, colon))

def isDigit (c : Char) : Bool := '0' ≤ c && c ≤ '9'

/-- The first loop: `iValueType`, `p_cValue` and `p_cPos`. -/
def findValue : Ptr → Option (Option (JsonType × Ptr × Ptr))
  | [] => none
  | b :: p =>
    if b = nul then some none
    else if b = '"' then some (some (.string, p, p))
    else if b = '{' then some (some (.object, b :: p, p))
    else if b = '[' then some (some (.array, b :: p, p))
    else if isDigit b then some (some (.number, b :: p, p))
    else if b ∈ ['t', 'T', 'f', 'F'] then some (some (.boolean, b :: p, b :: p))
    else findValue p

/-- `JsonMark` -/
def JsonType.mark : JsonType → Char × Char
  | .string => ('"', '"')
  | .object => ('{', '}')
  | .array => ('[', ']')
  | _ => ('0', ' ')

/-- The length of the word that a text begins with. -/
def wordLen (value : Ptr) (len : ℕ) : ℕ :=
  if 4 ≤ len ∧ (['t', 'r', 'u', 'e'] <+: value ∨ ['T', 'R', 'U', 'E'] <+: value) then 4
  else if 5 ≤ len ∧ (['f', 'a', 'l', 's', 'e'] <+: value ∨ ['F', 'A', 'L', 'S', 'E'] <+: value) then 5
  else 0

/-- The second loop, at the depth `iMarkDepth`: `iValueLen`. -/
def valueLoop (type : JsonType) (value : Ptr) : ℕ → Ptr → Option ℕ
  | _, [] => none
  | depth, b :: p =>
    if b = nul then some 0
    else
      match type with
      | .none => some 0
      | .boolean => do
        let len ← strlen value
        if wordLen value len ≠ 0 then some (wordLen value len) else valueLoop type value depth p
      | .number =>
        if b < '0' ∨ '9' < b then some (value.length - (b :: p).length) else valueLoop type value depth p
      | _ =>
        if b = type.mark.2 then
          match depth with
          | 0 => some (value.length - (b :: p).length + if type = .string then 0 else 1)
          | depth + 1 => valueLoop type value depth p
        else if b = type.mark.1 then valueLoop type value (depth + 1) p
        else valueLoop type value depth p

/-- The value behind the colon, and the pointer returned. -/
def getValue (colon : Ptr) : Option (Option (Ptr × ℕ × JsonType × Ptr)) :=
  notNull (findValue colon) fun (type, value, pos) =>
    (valueLoop type value 0 pos).map fun len =>
      some (value, len, type, value.drop (if type = .string then len + 1 else len))

/-- `json_get_next_object` -/
def getNextObject (str : Ptr) : Option (Option (Pair × Ptr)) :=
  notNull (getKey str) fun (key, keyLen, colon) =>
    notNull (getValue colon) fun (val, valLen, valType, next) =>
      some (some (⟨key, keyLen, val, valLen, valType⟩, next))

/-- `pos`: a pointer, NULL or the end of the loop, or one from which the memory has been left. -/
inductive Cursor
  | at_ (pos : Ptr)
  | null
  | outside

structure Scan (σ : Type) where
  pos : Cursor
  data : σ

/-- The condition of `json_object_for_each_kv`. -/
def nextPair : Ptr → Option (Option (Pair × Ptr))
  | [] => none
  | b :: p => if b = nul then some none else getNextObject (b :: p)

variable {σ : Type}

/-- A turn of `json_object_for_each_kv`; the body says whether it breaks. -/
def forTurn (body : σ → Pair → Option (σ × Bool)) (s : Scan σ) : Option (Scan σ) :=
  match s.pos with
  | .at_ pos =>
    match nextPair pos with
    | none => some ⟨.outside, s.data⟩
    | some none => some ⟨.null, s.data⟩
    | some (some (pair, next)) =>
      match body s.data pair with
      | none => some ⟨.outside, s.data⟩
      | some (data, brk) => some ⟨if brk then .null else .at_ next, data⟩
  | _ => none

/-- What a loop leaves that ends inside of the memory. -/
def Scan.result (s : Scan σ) : Option σ :=
  match s.pos with
  | .null => some s.data
  | _ => none

/-- `json_object_for_each_kv`; the turns are as many as there can be. -/
def forEachKv (body : σ → Pair → Option (σ × Bool)) (str : Ptr) (data : σ) : Option σ := do
  match ← getObject str with
  | none => some data
  | some pos => (← loopFor (forTurn body) (pos.length + 1) ⟨.at_ pos, data⟩).result

/-! ## Looking for a name -/

/-- `json_parse_name_value` leaves the buffer and what the callback has made of its data;
    `ret` is `JSON_RESULT_OK`. -/
structure Parsed (σ : Type) where
  buf : Ptr
  ret : Bool
  data : σ

/-- The body of the loop in `json_parse_name_value`. -/
def report (pfnCB : σ → Pair → Option (σ × Bool)) (s : Bool × σ) (pair : Pair) : Option ((Bool × σ) × Bool) :=
  if pair.keyLen ≠ 0 ∧ pair.valLen ≠ 0 then
    (pfnCB s.2 pair).map fun (data, finish) => ((true, data), finish)
  else some (s, false)

/-- `json_parse_name_value`; the callback gives its data and says whether it returns
    `JSON_PARSE_FINISH`. -/
def parseNameValue (buf : Ptr) (iStrLen : ℕ) (pfnCB : σ → Pair → Option (σ × Bool)) (data : σ) :
    Option (Parsed σ) :=
  if iStrLen = 0 then some ⟨buf, false, data⟩
  else do
    let lastChar ← if iStrLen ≠ (← strlen buf) then buf[iStrLen]? else some nul
    let buf ← if iStrLen ≠ (← strlen buf) then put buf iStrLen nul else some buf
    let (ret, data) ← forEachKv (report pfnCB) buf (false, data)
    let buf ← if iStrLen ≠ (← strlen buf) then put buf iStrLen lastChar else some buf
    some ⟨buf, ret, data⟩

/-- `JSON_NV`, without the name. -/
structure Nv where
  vLen : ℕ
  vType : JsonType
  pV : Option Ptr

/-- `json_get_value_by_name_cb` -/
def getValueByNameCb (name : CStr) (nv : Nv) (pair : Pair) : Option (Nv × Bool) :=
  (strncmpEq pair.key (name.text ++ [nul]) name.text.length).map fun eq =>
    if eq then (⟨pair.valLen, pair.valType, some pair.val⟩, true) else (nv, false)

/-- What `json_get_value_by_name` leaves: the buffer, the pointer returned, and what is stored to
    `p_iValueLen` and `p_iValueType`. -/
structure Got where
  buf : Ptr
  val : Option Ptr
  out : Option (ℕ × JsonType)

/-- `json_get_value_by_name` -/
def getValueByName (buf : Ptr) (iStrLen : ℕ) (name : CStr) : Option Got :=
  (parseNameValue buf iStrLen (getValueByNameCb name) ⟨0, .string, none⟩).map fun r =>
    ⟨r.buf, r.data.pV, if r.ret then some (r.data.vLen, r.data.vType) else none⟩

/-! ## What the scanner reads -/

section

variable {c b : Char} {t s a g n r z : List Char} {type : JsonType} {value : Ptr} {d : ℕ}

theorem strchr_miss (hc : c ∉ t) (hz : nul ∉ t) (hne : c ≠ nul) : strchr c (t ++ nul :: z) = some none := by
  induction t with
  | nil => rw [List.nil_append, strchr, if_neg hne.symm, if_pos rfl]
  | cons b t ih =>
    rw [List.mem_cons, not_or] at hc hz
    rw [List.cons_append, strchr, if_neg (Ne.symm hc.1), if_neg (Ne.symm hz.1), ih hc.2 hz.2]

theorem strchr_hit (hc : c ∉ a) (hz : nul ∉ a) : strchr c (a ++ c :: r) = some (some (c :: r)) := by
  induction a with
  | nil => rw [List.nil_append, strchr, if_pos rfl]
  | cons b a ih =>
    rw [List.mem_cons, not_or] at hc hz
    rw [List.cons_append, strchr, if_neg (Ne.symm hc.1), if_neg (Ne.symm hz.1), ih hc.2 hz.2]

theorem strlen_eq (hz : nul ∉ t) : strlen (t ++ nul :: z) = some t.length := by
  induction t with
  | nil => rfl
  | cons b t ih =>
    rw [List.mem_cons, not_or] at hz
    rw [List.cons_append, strlen, if_neg (Ne.symm hz.1), ih hz.2]
    rfl

theorem strncmpEq_eq {q : List Char} (hq : nul ∉ q) :
    strncmpEq (t ++ nul :: z) (q ++ [nul]) q.length = some (decide (q <+: t ++ nul :: z)) := by
  induction q generalizing t with
  | nil => simp [strncmpEq]
  | cons b q ih =>
    rw [List.mem_cons, not_or] at hq
    cases t with
    | nil =>
      rw [List.nil_append, List.cons_append, List.length_cons, strncmpEq, if_pos hq.1,
        decide_eq_false fun h => hq.1 (List.cons_prefix_cons.1 h).1.symm]
    | cons e t =>
      rw [List.cons_append, List.cons_append, List.length_cons, strncmpEq]
      by_cases he : e ≠ b
      · rw [if_pos he, decide_eq_false fun h => he (List.cons_prefix_cons.1 h).1.symm]
      · rw [not_ne_iff] at he
        subst he
        rw [if_neg (not_not_intro rfl), if_neg (Ne.symm hq.1), ih hq.2]
        simp only [List.cons_prefix_cons, true_and]

@[simp] theorem notNull_some {α β : Type} (x : α) (f : α → Option (Option β)) : notNull (some (some x)) f = f x := rfl

@[simp] theorem notNull_null {α β : Type} (f : α → Option (Option β)) : notNull (some none) f = some none := rfl

theorem getKey_eq (hg : '"' ∉ g) (hgz : nul ∉ g) (hn : '"' ∉ n) (hnz : nul ∉ n) (ha : ':' ∉ a) (haz : nul ∉ a) :
    getKey (g ++ '"' :: (n ++ '"' :: (a ++ ':' :: r))) =
      some (some (n ++ '"' :: (a ++ ':' :: r), n.length, ':' :: r)) := by
  have hcolon : strchr ':' ('"' :: (a ++ ':' :: r)) = some (some (':' :: r)) := by
    rw [← List.cons_append]
    refine strchr_hit ?_ ?_
    · rw [List.mem_cons, not_or]
      exact ⟨by decide, ha⟩
    · rw [List.mem_cons, not_or]
      exact ⟨by decide, haz⟩
  rw [getKey, strchr_hit hg hgz, notNull_some, List.tail_cons, strchr_hit hn hnz, notNull_some, hcolon,
    notNull_some, List.length_append, Nat.add_sub_cancel]

/-- The characters that a value begins with. -/
def startsValue (c : Char) : Bool := c ∈ ['"', '{', '[', 't', 'T', 'f', 'F'] || isDigit c

theorem findValue_skip (ha : ∀ c ∈ a, startsValue c = false) (haz : nul ∉ a) : findValue (a ++ r) = findValue r := by
  induction a with
  | nil => rfl
  | cons c a ih =>
    have hc := ha c List.mem_cons_self
    rw [List.mem_cons, not_or] at haz
    simp only [startsValue, List.mem_cons, List.not_mem_nil, or_false, Bool.or_eq_false_iff, decide_eq_false_iff_not,
      not_or] at hc
    obtain ⟨⟨h1, h2, h3, hword⟩, hdigit⟩ := hc
    rw [List.cons_append, findValue, if_neg (Ne.symm haz.1), if_neg h1, if_neg h2, if_neg h3, hdigit,
      if_neg Bool.false_ne_true, if_neg (by simpa using hword),
      ih (fun c hc => ha c (List.mem_cons_of_mem _ hc)) haz.2]

theorem getValue_skip (ha : ∀ c ∈ a, startsValue c = false) (haz : nul ∉ a) : getValue (a ++ r) = getValue r := by
  rw [getValue, getValue, findValue_skip ha haz]

theorem getValue_of {pos : Ptr} {len : ℕ} (hf : findValue r = some (some (type, value, pos)))
    (hl : valueLoop type value 0 pos = some len) :
    getValue r = some (some (value, len, type, value.drop (if type = .string then len + 1 else len))) := by
  rw [getValue, hf, notNull_some]
  dsimp only
  rw [hl, Option.map_some]

/-- The types of values between brackets. -/
def JsonType.bracket (type : JsonType) : Prop := type = .object ∨ type = .array

theorem valueLoop_cons (ht : type = .string ∨ type.bracket) (hb : b ≠ nul) :
    valueLoop type value d (b :: r) =
      if b = type.mark.2 then
        match d with
        | 0 => some (value.length - (r.length + 1) + if type = .string then 0 else 1)
        | d + 1 => valueLoop type value d r
      else if b = type.mark.1 then valueLoop type value (d + 1) r
      else valueLoop type value d r := by
  rw [valueLoop.eq_def]
  simp only [if_neg hb]
  rcases ht with rfl | rfl | rfl <;> rfl

theorem valueLoop_nul : valueLoop type value d (nul :: z) = some 0 := by
  rw [valueLoop.eq_def]
  exact if_pos rfl

/-! ### Strings -/

theorem valueLoop_string (hs : '"' ∉ s) (hz : nul ∉ s) :
    valueLoop .string value 0 (s ++ '"' :: r) = some (value.length - (r.length + 1)) := by
  induction s with
  | nil =>
    rw [List.nil_append, valueLoop_cons (.inl rfl) (by decide)]
    rfl
  | cons b s ih =>
    rw [List.mem_cons, not_or] at hs hz
    have hclose : b ≠ JsonType.string.mark.2 := Ne.symm hs.1
    have hopen : b ≠ JsonType.string.mark.1 := Ne.symm hs.1
    rw [List.cons_append, valueLoop_cons (.inl rfl) (Ne.symm hz.1), if_neg hclose, if_neg hopen, ih hs.2 hz.2]

theorem valueLoop_cutString (hs : '"' ∉ s) (hz : nul ∉ s) : valueLoop .string value 0 (s ++ nul :: z) = some 0 := by
  induction s with
  | nil => exact valueLoop_nul
  | cons b s ih =>
    rw [List.mem_cons, not_or] at hs hz
    have hclose : b ≠ JsonType.string.mark.2 := Ne.symm hs.1
    have hopen : b ≠ JsonType.string.mark.1 := Ne.symm hs.1
    rw [List.cons_append, valueLoop_cons (.inl rfl) (Ne.symm hz.1), if_neg hclose, if_neg hopen, ih hs.2 hz.2]

theorem getValue_string (hs : '"' ∉ s) (hz : nul ∉ s) :
    getValue ('"' :: (s ++ '"' :: r)) = some (some (s ++ '"' :: r, s.length, .string, r)) := by
  have hlen : (s ++ '"' :: r).length - (r.length + 1) = s.length := by simp
  have hdrop : (s ++ '"' :: r).drop (s.length + 1) = r := by simp
  have hfind : findValue ('"' :: (s ++ '"' :: r)) = some (some (.string, s ++ '"' :: r, s ++ '"' :: r)) := rfl
  rw [getValue_of hfind (valueLoop_string hs hz), hlen, if_pos rfl, hdrop]

theorem getValue_cutString (hs : '"' ∉ s) (hz : nul ∉ s) :
    getValue ('"' :: (s ++ nul :: z)) = some (some (s ++ nul :: z, 0, .string, (s ++ nul :: z).tail)) := by
  have hfind : findValue ('"' :: (s ++ nul :: z)) = some (some (.string, s ++ nul :: z, s ++ nul :: z)) := rfl
  rw [getValue_of hfind (valueLoop_cutString hs hz), if_pos rfl, Nat.zero_add, List.drop_one]

/-! ### Brackets -/

/-- From the depth `d`, the brackets of the text close, and not before its end. -/
def Balanced (o c : Char) : ℕ → List Char → Prop
  | d, [] => d = 0
  | d, x :: s =>
    if x = c then 0 < d ∧ Balanced o c (d - 1) s
    else if x = o then Balanced o c (d + 1) s
    else Balanced o c d s

theorem valueLoop_balanced (ht : type.bracket) (hz : nul ∉ s) (hs : Balanced type.mark.1 type.mark.2 d s) :
    valueLoop type value d (s ++ type.mark.2 :: r) = some (value.length - (r.length + 1) + 1) := by
  induction s generalizing d with
  | nil =>
    obtain rfl : d = 0 := hs
    have hne : type ≠ .string := by rcases ht with rfl | rfl <;> decide
    rw [List.nil_append, valueLoop_cons (.inr ht) (by rcases ht with rfl | rfl <;> decide), if_pos rfl]
    change some (value.length - (r.length + 1) + if type = .string then 0 else 1) = _
    rw [if_neg hne]
  | cons b s ih =>
    rw [List.mem_cons, not_or] at hz
    rw [Balanced] at hs
    rw [List.cons_append, valueLoop_cons (.inr ht) (Ne.symm hz.1)]
    by_cases hc : b = type.mark.2
    · rw [if_pos hc] at hs ⊢
      obtain ⟨d, rfl⟩ : ∃ k, d = k + 1 := ⟨d - 1, by omega⟩
      exact ih hz.2 hs.2
    · rw [if_neg hc] at hs ⊢
      by_cases ho : b = type.mark.1
      · rw [if_pos ho] at hs ⊢
        exact ih hz.2 hs
      · rw [if_neg ho] at hs ⊢
        exact ih hz.2 hs

/-- No bracket closes what is open. -/
def Unclosed (o c : Char) (d : ℕ) (s : List Char) : Prop := ∀ x y, s = x ++ c :: y → ¬ Balanced o c d x

theorem valueLoop_unclosed (ht : type.bracket) (hz : nul ∉ s) (hs : Unclosed type.mark.1 type.mark.2 d s) :
    valueLoop type value d (s ++ nul :: z) = some 0 := by
  induction s generalizing d with
  | nil => exact valueLoop_nul
  | cons b s ih =>
    rw [List.mem_cons, not_or] at hz
    rw [List.cons_append, valueLoop_cons (.inr ht) (Ne.symm hz.1)]
    have hrest : ∀ {e}, (∀ x, Balanced type.mark.1 type.mark.2 e x → Balanced type.mark.1 type.mark.2 d (b :: x)) →
        Unclosed type.mark.1 type.mark.2 e s := by
      rintro e he x y rfl hx
      exact hs (b :: x) y rfl (he x hx)
    by_cases hc : b = type.mark.2
    · rw [if_pos hc]
      cases d with
      | zero => exact absurd rfl (hs [] s (by rw [hc]; rfl))
      | succ d =>
        refine ih hz.2 (hrest fun x hx => ?_)
        rw [Balanced, if_pos hc]
        exact ⟨Nat.succ_pos d, hx⟩
    · rw [if_neg hc]
      by_cases ho : b = type.mark.1
      · rw [if_pos ho]
        refine ih hz.2 (hrest fun x hx => ?_)
        rwa [Balanced, if_neg hc, if_pos ho]
      · rw [if_neg ho]
        refine ih hz.2 (hrest fun x hx => ?_)
        rwa [Balanced, if_neg hc, if_neg ho]

theorem findValue_bracket (ht : type.bracket) :
    findValue (type.mark.1 :: r) = some (some (type, type.mark.1 :: r, r)) := by
  rcases ht with rfl | rfl <;> rfl

theorem getValue_bracket (ht : type.bracket) (hz : nul ∉ s) (hs : Balanced type.mark.1 type.mark.2 0 s) :
    getValue (type.mark.1 :: (s ++ type.mark.2 :: r)) =
      some (some (type.mark.1 :: (s ++ type.mark.2 :: r), s.length + 2, type, r)) := by
  have hne : type ≠ .string := by rcases ht with rfl | rfl <;> decide
  have hlen : (type.mark.1 :: (s ++ type.mark.2 :: r)).length - (r.length + 1) + 1 = s.length + 2 := by
    simp
    omega
  have hdrop : (type.mark.1 :: (s ++ type.mark.2 :: r)).drop (s.length + 2) = r := by
    rw [List.drop_succ_cons, ← List.drop_drop, List.drop_left]
    rfl
  rw [getValue_of (findValue_bracket ht) (valueLoop_balanced ht hz hs), hlen, if_neg hne, hdrop]

theorem getValue_unclosed (ht : type.bracket) (hz : nul ∉ s) (hs : Unclosed type.mark.1 type.mark.2 0 s) :
    getValue (type.mark.1 :: (s ++ nul :: z)) =
      some (some (type.mark.1 :: (s ++ nul :: z), 0, type, type.mark.1 :: (s ++ nul :: z))) := by
  have hne : type ≠ .string := by rcases ht with rfl | rfl <;> decide
  rw [getValue_of (findValue_bracket ht) (valueLoop_unclosed ht hz hs), if_neg hne]
  rfl

/-! ### Numbers -/

theorem isDigit_iff : isDigit c = true ↔ ¬ (c < '0' ∨ '9' < c) := by
  rw [isDigit, Bool.and_eq_true, decide_eq_true_iff, decide_eq_true_iff, not_or, Char.not_lt, Char.not_lt]

theorem ne_nul_of_isDigit (h : isDigit c = true) : c ≠ nul := by
  rintro rfl
  exact absurd h (by decide)

theorem findValue_digit (h : isDigit c = true) : findValue (c :: r) = some (some (.number, c :: r, r)) := by
  have hne : ∀ x, isDigit x = false → c ≠ x := by
    rintro x hx rfl
    rw [h] at hx
    cases hx
  rw [findValue, if_neg (ne_nul_of_isDigit h), if_neg (hne _ (by decide)), if_neg (hne _ (by decide)), if_neg (hne _ (by decide)),
    if_pos h]

theorem valueLoop_number (hs : ∀ c ∈ s, isDigit c = true) (hb : isDigit b = false) (hbz : b ≠ nul) :
    valueLoop .number value d (s ++ b :: r) = some (value.length - (b :: r).length) := by
  induction s with
  | nil =>
    rw [List.nil_append, valueLoop, if_neg hbz]
    rw [if_pos]
    by_contra hn
    rw [isDigit_iff.2 hn] at hb
    cases hb
  | cons c s ih =>
    have hc := hs c List.mem_cons_self
    rw [List.cons_append, valueLoop, if_neg (ne_nul_of_isDigit hc)]
    rw [if_neg (isDigit_iff.1 hc), ih fun c hc => hs c (List.mem_cons_of_mem _ hc)]

theorem valueLoop_cutNumber (hs : ∀ c ∈ s, isDigit c = true) :
    valueLoop .number value d (s ++ nul :: z) = some 0 := by
  induction s with
  | nil => exact valueLoop_nul
  | cons c s ih =>
    have hc := hs c List.mem_cons_self
    rw [List.cons_append, valueLoop, if_neg (ne_nul_of_isDigit hc)]
    rw [if_neg (isDigit_iff.1 hc), ih fun c hc => hs c (List.mem_cons_of_mem _ hc)]

theorem getValue_number (hc : isDigit c = true) (hs : ∀ c ∈ s, isDigit c = true) (hb : isDigit b = false)
    (hbz : b ≠ nul) :
    getValue (c :: (s ++ b :: r)) = some (some (c :: (s ++ b :: r), s.length + 1, .number, b :: r)) := by
  have hlen : (c :: (s ++ b :: r)).length - (b :: r).length = s.length + 1 := by
    simp
    omega
  rw [getValue_of (findValue_digit hc) (valueLoop_number hs hb hbz), hlen, if_neg (by decide), List.drop_succ_cons,
    List.drop_left]

theorem getValue_cutNumber (hc : isDigit c = true) (hs : ∀ c ∈ s, isDigit c = true) :
    getValue (c :: (s ++ nul :: z)) = some (some (c :: (s ++ nul :: z), 0, .number, c :: (s ++ nul :: z))) := by
  rw [getValue_of (findValue_digit hc) (valueLoop_cutNumber hs), if_neg (by decide)]
  rfl

/-! ### Words -/

theorem findValue_word (hc : c ∈ ['t', 'T', 'f', 'F']) :
    findValue (c :: r) = some (some (.boolean, c :: r, c :: r)) := by
  simp only [List.mem_cons, List.not_mem_nil, or_false] at hc
  rcases hc with rfl | rfl | rfl | rfl <;> rfl

theorem valueLoop_word (hz : nul ∉ value) (hw : wordLen (value ++ nul :: z) value.length ≠ 0) (hb : b ≠ nul) :
    valueLoop .boolean (value ++ nul :: z) d (b :: r) = some (wordLen (value ++ nul :: z) value.length) := by
  rw [valueLoop, if_neg hb]
  simp only [strlen_eq hz, Option.bind_eq_bind, Option.bind_some]
  rw [if_pos hw]

theorem valueLoop_noWord (hz : nul ∉ value) (hs : nul ∉ s) (hw : wordLen (value ++ nul :: z) value.length = 0) :
    valueLoop .boolean (value ++ nul :: z) d (s ++ nul :: z) = some 0 := by
  induction s with
  | nil => exact valueLoop_nul
  | cons b s ih =>
    rw [List.mem_cons, not_or] at hs
    rw [List.cons_append, valueLoop, if_neg (Ne.symm hs.1)]
    simp only [strlen_eq hz, Option.bind_eq_bind, Option.bind_some]
    rw [if_neg (not_not_intro hw), ih hs.2]

/-- A value that begins with the letter of a word has the length of the word, or 0. -/
theorem getValue_word (hc : c ∈ ['t', 'T', 'f', 'F']) (hz : nul ∉ c :: s) :
    getValue (c :: (s ++ nul :: z)) = some (some (c :: (s ++ nul :: z), wordLen (c :: (s ++ nul :: z)) (s.length + 1),
      .boolean, (c :: (s ++ nul :: z)).drop (wordLen (c :: (s ++ nul :: z)) (s.length + 1)))) := by
  have hloop : valueLoop .boolean (c :: (s ++ nul :: z)) 0 (c :: (s ++ nul :: z)) =
      some (wordLen (c :: (s ++ nul :: z)) (s.length + 1)) := by
    rw [← List.cons_append]
    by_cases hw : wordLen (c :: s ++ nul :: z) (s.length + 1) = 0
    · rw [valueLoop_noWord hz hz hw, hw]
    · exact valueLoop_word hz hw fun h => hz (h ▸ List.mem_cons_self)
  rw [getValue_of (findValue_word hc) hloop, if_neg (by decide)]

/-! ### Members -/

/-- A member up to its value: a text without quotes, the name, and what is skipped around the colon. -/
structure Front (g n a b : List Char) : Prop where
  gap : '"' ∉ g
  name : '"' ∉ n
  colon : ':' ∉ a
  skip : ∀ c ∈ b, startsValue c = false

/-- The text of a member with what follows it. -/
def front (g n a b v : List Char) : List Char := g ++ '"' :: (n ++ '"' :: (a ++ ':' :: (b ++ v)))

theorem front_append (g n a b v z : List Char) : front g n a b v ++ z = front g n a b (v ++ z) := by
  simp [front]

theorem length_lt_front (g n a b v : List Char) : v.length < (front g n a b v).length := by
  simp [front]
  omega

theorem nextPair_of_mem (h : t ≠ []) (hz : nul ∉ t) : nextPair (t ++ z) = getNextObject (t ++ z) := by
  cases t with
  | nil => exact absurd rfl h
  | cons b t =>
    rw [List.mem_cons, not_or] at hz
    rw [List.cons_append, nextPair, if_neg (Ne.symm hz.1)]

theorem nextPair_front {a' b' : List Char} (hf : Front g n a' b') (hz : nul ∉ front g n a' b' s) :
    nextPair (front g n a' b' (s ++ z)) = notNull (getValue (s ++ z)) fun (val, valLen, valType, next) =>
      some (some (⟨n ++ '"' :: (a' ++ ':' :: (b' ++ (s ++ z))), n.length, val, valLen, valType⟩, next)) := by
  have hne : front g n a' b' s ≠ [] := by simp [front]
  have hmem := hz
  simp only [front, List.mem_append, List.mem_cons, not_or] at hmem
  obtain ⟨hgz, -, hnz, -, haz, -, hbz, -⟩ := hmem
  have hskip : getValue (':' :: (b' ++ (s ++ z))) = getValue (s ++ z) := by
    refine getValue_skip (a := ':' :: b') ?_ ?_
    · intro c hc
      rcases List.mem_cons.1 hc with rfl | hc
      · decide
      · exact hf.skip c hc
    · rw [List.mem_cons, not_or]
      exact ⟨by decide, hbz⟩
  rw [← front_append, nextPair_of_mem hne hz, front_append, getNextObject, front,
    getKey_eq hf.gap hgz hf.name hnz hf.colon haz, notNull_some]
  dsimp only
  rw [hskip]

theorem notNull_getKey_null {f : Ptr × ℕ × Ptr → Option (Option (Pair × Ptr))} (h : getKey s = some none) :
    notNull (getKey s) f = some none := by
  rw [h, notNull_null]

theorem split_value (t : List Char) :
    (∀ c ∈ t, startsValue c = false) ∨
      ∃ a c r, t = a ++ c :: r ∧ (∀ x ∈ a, startsValue x = false) ∧ startsValue c = true := by
  induction t with
  | nil => exact .inl nofun
  | cons b t ih =>
    cases hb : startsValue b with
    | true => exact .inr ⟨[], b, t, rfl, nofun, hb⟩
    | false =>
      rcases ih with hno | ⟨a, c, r, rfl, ha, hc⟩
      · refine .inl fun c hc => ?_
        rcases List.mem_cons.1 hc with rfl | hc
        · exact hb
        · exact hno c hc
      · refine .inr ⟨b :: a, c, r, rfl, fun x hx => ?_, hc⟩
        rcases List.mem_cons.1 hx with rfl | hx
        · exact hb
        · exact ha x hx

theorem nextPair_cases (hz : nul ∉ t) :
    nextPair (t ++ nul :: z) = some none ∨
      ∃ g n a b c s, t = front g n a b (c :: s) ∧ Front g n a b ∧ startsValue c = true := by
  by_cases hnil : t = []
  · subst hnil
    exact .inl rfl
  rw [nextPair_of_mem hnil hz, getNextObject]
  by_cases hq : '"' ∈ t
  · obtain ⟨g, t1, rfl, hg⟩ := List.eq_append_cons_of_mem hq
    simp only [List.mem_append, List.mem_cons, not_or] at hz
    obtain ⟨hgz, -, hz1⟩ := hz
    by_cases hq1 : '"' ∈ t1
    · obtain ⟨n, t2, rfl, hn⟩ := List.eq_append_cons_of_mem hq1
      simp only [List.mem_append, List.mem_cons, not_or] at hz1
      obtain ⟨hnz, -, hz2⟩ := hz1
      by_cases hq2 : ':' ∈ t2
      · obtain ⟨a, t3, rfl, ha⟩ := List.eq_append_cons_of_mem hq2
        simp only [List.mem_append, List.mem_cons, not_or] at hz2
        obtain ⟨haz, -, hz3⟩ := hz2
        rcases split_value t3 with hno | ⟨b, c, s, rfl, hb, hc⟩
        · left
          have heq : g ++ '"' :: (n ++ '"' :: (a ++ ':' :: t3)) ++ nul :: z =
              g ++ '"' :: (n ++ '"' :: (a ++ ':' :: (t3 ++ nul :: z))) := by simp
          have hskip : getValue (':' :: (t3 ++ nul :: z)) = some none := by
            rw [← List.cons_append, getValue_skip]
            · rfl
            · intro c hc
              rcases List.mem_cons.1 hc with rfl | hc
              · decide
              · exact hno c hc
            · rw [List.mem_cons, not_or]
              exact ⟨by decide, hz3⟩
          rw [heq, getKey_eq hg hgz hn hnz ha haz, notNull_some]
          dsimp only
          rw [hskip, notNull_null]
        · exact .inr ⟨g, n, a, b, c, s, rfl, ⟨hg, hn, ha, hb⟩, hc⟩
      · left
        refine notNull_getKey_null ?_
        have hmiss : strchr ':' ('"' :: (t2 ++ nul :: z)) = some none := by
          rw [← List.cons_append]
          refine strchr_miss ?_ ?_ (by decide)
          · rw [List.mem_cons, not_or]
            exact ⟨by decide, hq2⟩
          · rw [List.mem_cons, not_or]
            exact ⟨by decide, hz2⟩
        have heq : g ++ '"' :: (n ++ '"' :: t2) ++ nul :: z = g ++ '"' :: (n ++ '"' :: (t2 ++ nul :: z)) := by simp
        rw [heq, getKey, strchr_hit hg hgz, notNull_some, List.tail_cons, strchr_hit hn hnz, notNull_some, hmiss,
          notNull_null]
    · left
      refine notNull_getKey_null ?_
      have heq : g ++ '"' :: t1 ++ nul :: z = g ++ '"' :: (t1 ++ nul :: z) := by simp
      rw [heq, getKey, strchr_hit hg hgz, notNull_some, List.tail_cons, strchr_miss hq1 hz1 (by decide), notNull_null]
  · left
    refine notNull_getKey_null ?_
    rw [getKey, strchr_miss hq hz (by decide), notNull_null]

end

end Lite
