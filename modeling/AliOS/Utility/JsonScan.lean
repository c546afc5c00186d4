/-
  The JSON scanner on any text: where it reads, and what it writes.

  `json_object_for_each_kv` goes from member to member of the text as
  `ReadsValue` says, and steps over the NUL at a value that is opened by the last
  character (`Overruns`).  `json_parse_name_value` writes its own NUL at the
  length given, and takes it back where the length of the text, then, is another.
-/
import AliOS.Utility.JsonParser
import Mathlib.Data.List.TakeWhile

namespace Lite

open Lib

variable {c : Char} {t s v z : List Char} {type : JsonType} {σ : Type}

/-! ## Values -/

/-- The words of `JBOOLEAN`. -/
def words : List (List Char) :=
  [['t', 'r', 'u', 'e'], ['T', 'R', 'U', 'E'], ['f', 'a', 'l', 's', 'e'], ['F', 'A', 'L', 'S', 'E']]

/-- A text begins with a value, and the scanner goes on at the second text. -/
inductive ReadsValue : List Char → List Char → Prop
  | string {s t : List Char} : '"' ∉ s → ReadsValue ('"' :: (s ++ '"' :: t)) t
  | cutString {c : Char} {s : List Char} : '"' ∉ c :: s → ReadsValue ('"' :: c :: s) s
  | bracket {type : JsonType} {s t : List Char} : type.bracket → Balanced type.mark.1 type.mark.2 0 s →
      ReadsValue (type.mark.1 :: (s ++ type.mark.2 :: t)) t
  | unclosed {type : JsonType} {s : List Char} : type.bracket → Unclosed type.mark.1 type.mark.2 0 s →
      ReadsValue (type.mark.1 :: s) (type.mark.1 :: s)
  | number {c b : Char} {s t : List Char} : isDigit c = true → (∀ x ∈ s, isDigit x = true) → isDigit b = false →
      ReadsValue (c :: (s ++ b :: t)) (b :: t)
  | cutNumber {c : Char} {s : List Char} : isDigit c = true → (∀ x ∈ s, isDigit x = true) →
      ReadsValue (c :: s) (c :: s)
  | word {w t : List Char} : w ∈ words → ReadsValue (w ++ t) t
  | noWord {c : Char} {s : List Char} : c ∈ ['t', 'T', 'f', 'F'] → (∀ w ∈ words, ¬ w <+: c :: s) →
      ReadsValue (c :: s) (c :: s)

theorem prefix_append_nul {w : List Char} (hw : nul ∉ w) : w <+: v ++ nul :: z ↔ w <+: v := by
  refine ⟨fun h => ?_, fun h => h.trans (List.prefix_append ..)⟩
  induction w generalizing v with
  | nil => exact List.nil_prefix
  | cons x w ih =>
    rw [List.mem_cons, not_or] at hw
    cases v with
    | nil => exact absurd (List.cons_prefix_cons.1 h).1.symm hw.1
    | cons y v =>
      obtain ⟨rfl, hrest⟩ := List.cons_prefix_cons.1 h
      exact List.cons_prefix_cons.2 ⟨rfl, ih hw.2 hrest⟩

theorem wordLen_word {w : List Char} (hw : w ∈ words) (t : List Char) :
    wordLen (w ++ t) (w.length + s.length) = w.length := by
  simp only [words, List.mem_cons, List.not_mem_nil, or_false] at hw
  rcases hw with rfl | rfl | rfl | rfl <;> simp [wordLen]

theorem wordLen_noWord (h : ∀ w ∈ words, ¬ w <+: v) : wordLen (v ++ nul :: z) v.length = 0 := by
  have hno : ∀ w ∈ words, ¬ w <+: v ++ nul :: z := by
    intro w hw
    have hnul : nul ∉ w := by
      simp only [words, List.mem_cons, List.not_mem_nil, or_false] at hw
      rcases hw with rfl | rfl | rfl | rfl <;> decide
    rw [prefix_append_nul hnul]
    exact h w hw
  rw [wordLen, if_neg, if_neg]
  · rintro ⟨-, h | h⟩ <;> exact hno _ (by decide) h
  · rintro ⟨-, h | h⟩ <;> exact hno _ (by decide) h

theorem words_head {w : List Char} (hw : w ∈ words) : ∃ c s, w = c :: s ∧ c ∈ ['t', 'T', 'f', 'F'] := by
  simp only [words, List.mem_cons, List.not_mem_nil, or_false] at hw
  rcases hw with rfl | rfl | rfl | rfl <;> exact ⟨_, _, rfl, by decide⟩

theorem getValue_words {w : List Char} (hw : w ∈ words) (hz : nul ∉ w ++ t) :
    getValue (w ++ (t ++ nul :: z)) = some (some (w ++ (t ++ nul :: z), w.length, .boolean, t ++ nul :: z)) := by
  have hlen := wordLen_word (s := t) hw (t ++ nul :: z)
  obtain ⟨c, s, rfl, hc⟩ := words_head hw
  have heq := getValue_word (s := s ++ t) (z := z) hc hz
  simp only [List.cons_append, List.append_assoc, List.length_append, List.length_cons] at heq hlen ⊢
  rw [show s.length + t.length + 1 = s.length + 1 + t.length by omega, hlen] at heq
  rw [heq, List.drop_succ_cons, List.drop_left]

theorem getValue_reads (h : ReadsValue v t) (hz : nul ∉ v) :
    ∃ u len type, getValue (v ++ nul :: z) = some (some (u ++ nul :: z, len, type, t ++ nul :: z)) ∧ u <:+ v ∧
      len ≤ u.length := by
  cases h with
  | @string s _ hs =>
    simp only [List.mem_cons, List.mem_append, not_or] at hz
    refine ⟨s ++ '"' :: t, s.length, .string, ?_, List.suffix_cons .., by simp⟩
    have heq := getValue_string (r := t ++ nul :: z) hs hz.2.1
    simpa using heq
  | @cutString c _ hs =>
    rw [List.mem_cons, not_or] at hz
    refine ⟨c :: t, 0, .string, ?_, List.suffix_cons .., Nat.zero_le _⟩
    exact getValue_cutString hs hz.2
  | @bracket type s _ ht hb =>
    simp only [List.mem_cons, List.mem_append, not_or] at hz
    refine ⟨_, s.length + 2, type, ?_, List.suffix_refl _, by simp⟩
    have heq := getValue_bracket (r := t ++ nul :: z) ht hz.2.1 hb
    simpa using heq
  | @unclosed type s ht hu =>
    rw [List.mem_cons, not_or] at hz
    exact ⟨type.mark.1 :: s, 0, type, getValue_unclosed ht hz.2 hu, List.suffix_refl _, Nat.zero_le _⟩
  | @number c b s t hc hs hb =>
    simp only [List.mem_cons, List.mem_append, not_or] at hz
    refine ⟨_, s.length + 1, .number, ?_, List.suffix_refl _, by simp⟩
    have heq := getValue_number (r := t ++ nul :: z) hc hs hb (Ne.symm hz.2.2.1)
    simpa using heq
  | @cutNumber c s hc hs => exact ⟨c :: s, 0, .number, getValue_cutNumber hc hs, List.suffix_refl _, Nat.zero_le _⟩
  | @word w _ hw =>
    refine ⟨w ++ t, w.length, .boolean, ?_, List.suffix_refl _, by simp⟩
    rw [List.append_assoc]
    exact getValue_words hw hz
  | @noWord c s hc hw =>
    refine ⟨_, 0, .boolean, ?_, List.suffix_refl _, Nat.zero_le _⟩
    have heq := getValue_word (z := z) hc hz
    have hlen : wordLen (c :: (s ++ nul :: z)) (s.length + 1) = 0 := wordLen_noWord (z := z) hw
    rw [hlen] at heq
    exact heq

/-- The only value from which the scanner does not go on in the text is a last quote. -/
theorem reads_total (hc : startsValue c = true) (hne : c :: s ≠ ['"']) :
    ∃ t, ReadsValue (c :: s) t ∧ t.length ≤ (c :: s).length := by
  have hbracket : ∀ type : JsonType, type.bracket → c = type.mark.1 →
      ∃ t, ReadsValue (c :: s) t ∧ t.length ≤ (c :: s).length := by
    rintro type ht rfl
    by_cases hu : Unclosed type.mark.1 type.mark.2 0 s
    · exact ⟨_, .unclosed ht hu, Nat.le_refl _⟩
    · obtain ⟨x, y, rfl, hb⟩ : ∃ x y, s = x ++ type.mark.2 :: y ∧ Balanced type.mark.1 type.mark.2 0 x := by
        by_contra hno
        exact hu fun x y hxy hb => hno ⟨x, y, hxy, hb⟩
      exact ⟨y, .bracket ht hb, by simp; omega⟩
  by_cases hdigit : isDigit c = true
  · have hall : ∀ x ∈ s.takeWhile isDigit, isDigit x = true := fun x hx => List.mem_takeWhile_imp hx
    cases hd : s.dropWhile isDigit with
    | nil =>
      rw [List.dropWhile_eq_nil_iff] at hd
      exact ⟨_, .cutNumber hdigit hd, Nat.le_refl _⟩
    | cons b t =>
      have hb : isDigit b = false := by
        have hhead := List.head?_dropWhile_not isDigit s
        rw [hd] at hhead
        simpa using hhead
      refine ⟨b :: t, ?_, ?_⟩
      · rw [← List.takeWhile_append_dropWhile (p := isDigit) (l := s), hd]
        exact .number hdigit hall hb
      · rw [← hd]
        have hle := (List.dropWhile_suffix isDigit (l := s)).length_le
        rw [List.length_cons]
        omega
  · rw [startsValue, Bool.or_eq_true, or_iff_left hdigit, decide_eq_true_iff] at hc
    have hword : c ∈ ['t', 'T', 'f', 'F'] → ∃ t, ReadsValue (c :: s) t ∧ t.length ≤ (c :: s).length := by
      intro hc
      by_cases hw : ∃ w ∈ words, w <+: c :: s
      · obtain ⟨w, hmem, t, heq⟩ := hw
        refine ⟨t, heq ▸ .word hmem, ?_⟩
        rw [← heq, List.length_append]
        exact Nat.le_add_left ..
      · refine ⟨_, .noWord hc fun w hmem hpre => hw ⟨w, hmem, hpre⟩, Nat.le_refl _⟩
    simp only [List.mem_cons, List.not_mem_nil, or_false] at hc hword
    rcases hc with rfl | rfl | rfl | hc
    · by_cases hq : '"' ∈ s
      · obtain ⟨x, y, rfl, hx⟩ := List.eq_append_cons_of_mem hq
        exact ⟨y, .string hx, by simp; omega⟩
      · cases s with
        | nil => exact absurd rfl hne
        | cons d s => exact ⟨s, .cutString hq, by simp; omega⟩
    · exact hbracket .object (.inl rfl) rfl
    · exact hbracket .array (.inr rfl) rfl
    · exact hword hc

/-! ## Members -/

/-- The value of the first member is opened by the last character of the text. -/
def Opens (t : List Char) : Prop := ∃ g n a b, Front g n a b ∧ t = front g n a b ['"']

/-- The scanner goes on from the first member of a text at the second text. -/
def GoesOn (t t' : List Char) : Prop := ∃ g n a b v, Front g n a b ∧ t = front g n a b v ∧ ReadsValue v t'

/-- A pointer and a length are inside of the text, in a memory where `z` follows its NUL. -/
def Inside (s z : List Char) (p : Ptr) (len : ℕ) : Prop := ∃ u, u <:+ s ∧ p = u ++ nul :: z ∧ len ≤ u.length

/-- The key and the value of a member are inside of the text. -/
def Pair.inside (s z : List Char) (pair : Pair) : Prop :=
  Inside s z pair.key pair.keyLen ∧ Inside s z pair.val pair.valLen

theorem Inside.mono {p : Ptr} {len : ℕ} (h : Inside t z p len) (hs : t <:+ s) : Inside s z p len := by
  obtain ⟨u, hu, heq, hlen⟩ := h
  exact ⟨u, hu.trans hs, heq, hlen⟩

theorem front_suffix (g n a b v : List Char) : v <:+ front g n a b v :=
  ⟨g ++ '"' :: (n ++ '"' :: (a ++ ':' :: b)), by simp [front]⟩

theorem key_suffix (g n a b v : List Char) : n ++ '"' :: (a ++ ':' :: (b ++ v)) <:+ front g n a b v :=
  ⟨g ++ ['"'], by simp [front]⟩

theorem nextPair_value {g n a b u : List Char} {len : ℕ} {next : Ptr} (hf : Front g n a b)
    (hz : nul ∉ front g n a b v) (hval : getValue (v ++ nul :: z) = some (some (u ++ nul :: z, len, type, next)))
    (hu : u <:+ v) (hlen : len ≤ u.length) :
    ∃ pair, nextPair (front g n a b v ++ nul :: z) = some (some (pair, next)) ∧ pair.inside (front g n a b v) z := by
  refine ⟨⟨n ++ '"' :: (a ++ ':' :: (b ++ (v ++ nul :: z))), n.length, u ++ nul :: z, len, type⟩, ?_, ?_⟩
  · rw [front_append, nextPair_front hf hz, hval, notNull_some]
  · refine ⟨⟨_, key_suffix g n a b v, by simp, by simp⟩, u, hu.trans (front_suffix ..), rfl, hlen⟩

theorem nextPair_goesOn (h : GoesOn t s) (hz : nul ∉ t) :
    ∃ pair, nextPair (t ++ nul :: z) = some (some (pair, s ++ nul :: z)) ∧ pair.inside t z := by
  obtain ⟨g, n, a, b, v, hf, rfl, hread⟩ := h
  have hvz : nul ∉ v := fun h => hz ((front_suffix g n a b v).subset h)
  obtain ⟨u, len, type, hval, hu, hlen⟩ := getValue_reads hread hvz
  exact nextPair_value hf hz hval hu hlen

theorem nextPair_opens (h : Opens t) (hz : nul ∉ t) :
    ∃ pair, nextPair (t ++ nul :: z) = some (some (pair, z)) ∧ pair.inside t z := by
  obtain ⟨g, n, a, b, hf, rfl⟩ := h
  have hval : getValue (['"'] ++ nul :: z) = some (some ([] ++ nul :: z, 0, .string, z)) :=
    getValue_cutString (s := []) nofun nofun
  exact nextPair_value hf hz hval List.nil_suffix (Nat.le_refl _)

theorem nextPair_step (hz : nul ∉ t) :
    nextPair (t ++ nul :: z) = some none ∨ Opens t ∨ ∃ s, GoesOn t s ∧ s.length < t.length := by
  rcases nextPair_cases hz with hnone | ⟨g, n, a, b, c, s, rfl, hf, hc⟩
  · exact .inl hnone
  · right
    by_cases hq : c :: s = ['"']
    · exact .inl ⟨g, n, a, b, hf, by rw [hq]⟩
    · obtain ⟨t, hread, hlen⟩ := reads_total hc hq
      exact .inr ⟨t, ⟨g, n, a, b, _, hf, rfl, hread⟩, Nat.lt_of_le_of_lt hlen (length_lt_front ..)⟩

theorem GoesOn.suffix (h : GoesOn t s) : s <:+ t := by
  obtain ⟨g, n, a, b, v, -, rfl, hread⟩ := h
  refine List.IsSuffix.trans ?_ (front_suffix ..)
  cases hread with
  | @string x _ _ => exact ⟨'"' :: (x ++ ['"']), by simp⟩
  | @cutString c _ _ => exact ⟨['"', c], rfl⟩
  | @bracket type x _ _ _ => exact ⟨type.mark.1 :: (x ++ [type.mark.2]), by simp⟩
  | unclosed | cutNumber | noWord => exact List.suffix_refl _
  | @number c b x _ _ _ _ => exact ⟨c :: x, by simp⟩
  | word => exact List.suffix_append ..

/-! ## Pointers -/

variable {q next : Ptr} {pair : Pair} {len : ℕ}

theorem strchr_eq_some {r : Ptr} (h : strchr c r = some (some q)) :
    ∃ x y, r = x ++ q ∧ q = c :: y ∧ c ∉ x ∧ nul ∉ x := by
  induction r with
  | nil => cases h
  | cons b r ih =>
    rw [strchr] at h
    split_ifs at h with hb hz
    · obtain rfl := Option.some.inj (Option.some.inj h)
      exact ⟨[], r, rfl, by rw [hb], (by rintro ⟨⟩), by rintro ⟨⟩⟩
    · cases h
    · obtain ⟨x, y, rfl, hq, hc, hx⟩ := ih h
      exact ⟨b :: x, y, rfl, hq, List.not_mem_cons_of_ne_of_not_mem (Ne.symm hb) hc,
        List.not_mem_cons_of_ne_of_not_mem (Ne.symm hz) hx⟩

theorem findValue_suffix {r : Ptr} (h : findValue r = some (some (type, v, q))) : v <:+ r := by
  induction r with
  | nil => cases h
  | cons b r ih =>
    rw [findValue] at h
    split_ifs at h
    · cases h
    · cases h
      exact List.suffix_cons ..
    · cases h
      exact List.suffix_refl _
    · cases h
      exact List.suffix_refl _
    · cases h
      exact List.suffix_refl _
    · cases h
      exact List.suffix_refl _
    · exact (ih h).trans (List.suffix_cons ..)

theorem notNull_eq_some {α β : Type} {x : Option (Option α)} {f : α → Option (Option β)} {b : β}
    (h : notNull x f = some (some b)) : ∃ a, x = some (some a) ∧ f a = some (some b) := by
  rcases x with - | - | a
  · cases h
  · cases h
  · exact ⟨a, rfl, h⟩

theorem getValue_suffix {r : Ptr} (h : getValue r = some (some (v, len, type, next))) : v <:+ r ∧ next <:+ v := by
  obtain ⟨⟨type', v', pos⟩, hfind, h⟩ := notNull_eq_some h
  obtain ⟨len', -, h⟩ := Option.map_eq_some_iff.1 h
  simp only [Option.some.injEq, Prod.mk.injEq] at h
  obtain ⟨rfl, rfl, rfl, rfl⟩ := h
  exact ⟨findValue_suffix hfind, List.drop_suffix ..⟩

theorem getKey_name {r key colon : Ptr} {keyLen : ℕ} (h : getKey r = some (some (key, keyLen, colon))) :
    (∃ x y, key = x ++ y ∧ x.length = keyLen ∧ nul ∉ x) ∧ colon.length + 1 < r.length := by
  obtain ⟨quote, hquote, h⟩ := notNull_eq_some h
  obtain ⟨close, hclose, h⟩ := notNull_eq_some h
  obtain ⟨colon', hcolon, h⟩ := notNull_eq_some h
  simp only [Option.some.injEq, Prod.mk.injEq] at h
  obtain ⟨rfl, rfl, rfl⟩ := h
  obtain ⟨x1, y1, rfl, rfl, -, -⟩ := strchr_eq_some hquote
  obtain ⟨x2, y2, htail, hclose', -, hz⟩ := strchr_eq_some hclose
  obtain ⟨x3, y3, hx3, hcolon', -, -⟩ := strchr_eq_some hcolon
  rw [List.tail_cons] at htail ⊢
  refine ⟨⟨x2, close, htail, ?_, hz⟩, ?_⟩
  · rw [htail, List.length_append, Nat.add_sub_cancel]
  · -- the quote is not the colon
    have hpos : 0 < x3.length := by
      rw [List.length_pos_iff]
      rintro rfl
      rw [List.nil_append, hclose', hcolon'] at hx3
      exact absurd (List.cons.inj hx3).1 (by decide)
    have hlen := congrArg List.length htail
    have hlen3 := congrArg List.length hx3
    simp only [List.length_append, List.length_cons] at hlen hlen3 ⊢
    omega

theorem nextPair_eq_some {p : Ptr} (h : nextPair p = some (some (pair, next))) :
    (∃ x y, pair.key = x ++ y ∧ x.length = pair.keyLen ∧ nul ∉ x) ∧ pair.val.length + 1 < p.length ∧
      next.length ≤ pair.val.length := by
  cases p with
  | nil => cases h
  | cons b p =>
    rw [nextPair] at h
    split_ifs at h
    · cases h
    obtain ⟨⟨key, keyLen, colon⟩, hkey, h⟩ := notNull_eq_some h
    obtain ⟨⟨val, valLen, valType, next'⟩, hval, h⟩ := notNull_eq_some h
    simp only [Option.some.injEq, Prod.mk.injEq] at h
    obtain ⟨rfl, rfl⟩ := h
    obtain ⟨hname, hcolon⟩ := getKey_name hkey
    obtain ⟨hsuf, hnext⟩ := getValue_suffix hval
    exact ⟨hname, Nat.lt_of_le_of_lt (Nat.succ_le_succ hsuf.length_le) hcolon, hnext.length_le⟩

theorem nextPair_lt {p : Ptr} (h : nextPair p = some (some (pair, next))) : next.length < p.length := by
  obtain ⟨-, hlt, hle⟩ := nextPair_eq_some h
  omega

/-! ## Turns -/

variable {body : σ → Pair → Option (σ × Bool)} {st st' : Scan σ} {data out : σ} {p : Ptr} {I : Scan σ → Prop}

theorem forTurn_null {pos : Ptr} (h : nextPair pos = some none) :
    forTurn body ⟨.at_ pos, data⟩ = some ⟨.null, data⟩ := by
  simp only [forTurn, h]

theorem forTurn_outside {pos : Ptr} (h : nextPair pos = none) :
    forTurn body ⟨.at_ pos, data⟩ = some ⟨.outside, data⟩ := by
  simp only [forTurn, h]

theorem forTurn_some {pos next : Ptr} {pair : Pair} (h : nextPair pos = some (some (pair, next))) :
    forTurn body ⟨.at_ pos, data⟩ = match body data pair with
      | none => some ⟨.outside, data⟩
      | some (data, brk) => some ⟨if brk then .null else .at_ next, data⟩ := by
  cases hrun : body data pair <;> simp only [forTurn, h, hrun]

/-- How many turns are left, at most. -/
def Scan.turns (s : Scan σ) : ℕ :=
  match s.pos with
  | .at_ pos => pos.length + 1
  | _ => 0

/-- **A turn** leaves the memory, ends the loop, or runs its body on the next member. -/
theorem forTurn_eq_some (h : forTurn body st = some st') : ∃ p, st.pos = .at_ p ∧
    (st' = ⟨.outside, st.data⟩ ∨ st' = ⟨.null, st.data⟩ ∨ ∃ pair next data brk,
      nextPair p = some (some (pair, next)) ∧ body st.data pair = some (data, brk) ∧
        st' = ⟨if brk then .null else .at_ next, data⟩) := by
  obtain ⟨p | - | -, data⟩ := st
  · refine ⟨p, rfl, ?_⟩
    rcases hnext : nextPair p with - | - | ⟨pair, next⟩
    · rw [forTurn_outside hnext] at h
      exact .inl (Option.some.inj h).symm
    · rw [forTurn_null hnext] at h
      exact .inr (.inl (Option.some.inj h).symm)
    · rw [forTurn_some hnext] at h
      rcases hrun : body data pair with - | ⟨data', brk⟩
      · rw [hrun] at h
        exact .inl (Option.some.inj h).symm
      · rw [hrun] at h
        exact .inr (.inr ⟨pair, next, data', brk, rfl, hrun, (Option.some.inj h).symm⟩)
  · cases h
  · cases h

theorem forTurn_lt (h : forTurn body st = some st') : st'.turns < st.turns := by
  obtain ⟨p, hp, rfl | rfl | ⟨pair, next, data, brk, hnext, -, rfl⟩⟩ := forTurn_eq_some h
  · rw [Scan.turns, Scan.turns, hp]
    exact Nat.succ_pos _
  · rw [Scan.turns, Scan.turns, hp]
    exact Nat.succ_pos _
  · rw [Scan.turns, Scan.turns, hp]
    cases brk
    · exact Nat.succ_lt_succ (nextPair_lt hnext)
    · exact Nat.succ_pos _

theorem loop_ends (body : σ → Pair → Option (σ × Bool)) (p : Ptr) (data : σ) :
    ∃ st, loopFor (forTurn body) (p.length + 1) ⟨.at_ p, data⟩ = some st := by
  refine Option.isSome_iff_exists.1 (loopFor_isSome (I := fun _ => True) (μ := Scan.turns) ?_ trivial (Nat.le_refl _))
  exact fun _ hturn => ⟨trivial, forTurn_lt hturn⟩

/-- **The loop** over members leaves what its turns come to inside of the memory. -/
theorem loopFor_iff : (loopFor (forTurn body) (p.length + 1) ⟨.at_ p, data⟩).bind Scan.result = some out ↔
    Turns (forTurn body) ⟨.at_ p, data⟩ ⟨.null, out⟩ := by
  obtain ⟨st, hst⟩ := loop_ends body p data
  obtain ⟨hturns, hend⟩ := turns_of_loopFor hst
  rw [hst, Option.bind_some]
  constructor
  · rcases st with ⟨p | - | -, data'⟩
    · nofun
    · rintro ⟨⟩
      exact hturns
    · nofun
  · intro hnull
    obtain rfl := hturns.end_unique hend hnull rfl
    rfl

theorem loop_inside (hturn : ∀ {st st'}, I st → forTurn body st = some st' → I st')
    (hin : ∀ {data}, ¬ I ⟨.outside, data⟩) (h : I ⟨.at_ p, data⟩) :
    ∃ out, (loopFor (forTurn body) (p.length + 1) ⟨.at_ p, data⟩).bind Scan.result = some out ∧ I ⟨.null, out⟩ := by
  obtain ⟨⟨pos, out⟩, hst⟩ := loop_ends body p data
  obtain ⟨hturns, hend⟩ := turns_of_loopFor hst
  have hI := hturns.keeps hturn h
  rw [hst, Option.bind_some]
  rcases pos with q | - | -
  · -- there is a turn at every place
    rcases hnext : nextPair q with - | - | ⟨pair, next⟩
    · rw [forTurn_outside hnext] at hend
      cases hend
    · rw [forTurn_null hnext] at hend
      cases hend
    · rw [forTurn_some hnext] at hend
      cases hrun : body out pair with
      | none =>
        rw [hrun] at hend
        cases hend
      | some r =>
        rw [hrun] at hend
        cases hend
  · exact ⟨out, rfl, hI⟩
  · exact absurd hI hin

/-! ## The text is left -/

/-- The scanner comes to a member whose value is opened by the last character. -/
inductive Overruns : List Char → Prop
  | here {t : List Char} : Opens t → Overruns t
  | later {t s : List Char} : GoesOn t s → Overruns s → Overruns t

/-- A body that collects the members. -/
def collect (pairs : List Pair) (pair : Pair) : Option (List Pair × Bool) := some (pairs ++ [pair], false)

/-- `json_object_for_each_kv` ends, without a read behind the NUL, and the keys and values it gives
    are inside of the text. -/
def SafeText (s : List Char) : Prop :=
  ∃ pairs, forEachKv collect (s ++ [nul]) [] = some pairs ∧ ∀ pair ∈ pairs, pair.inside s []

variable {pairs : List Pair}

/-- Where the scanner is in a safe text. -/
structure AtText (s : List Char) (st : Scan (List Pair)) : Prop where
  pos : match st.pos with
    | .at_ p => ∃ t, p = t ++ [nul] ∧ t <:+ s ∧ ¬ Overruns t
    | .null => True
    | .outside => False
  pairs : ∀ pair ∈ st.data, pair.inside s []

theorem AtText.turn {st st' : Scan (List Pair)} (hz : nul ∉ s) (h : AtText s st)
    (hturn : forTurn collect st = some st') :
    AtText s st' := by
  obtain ⟨hpos, hpairs⟩ := h
  rcases st with ⟨p | - | -, pairs⟩
  · obtain ⟨t, rfl, hsuf, hsafe⟩ := hpos
    have htz : nul ∉ t := fun h => hz (hsuf.subset h)
    rcases nextPair_step (z := []) htz with hnone | hopens | ⟨u, hgo, -⟩
    · rw [forTurn_null hnone] at hturn
      cases hturn
      exact ⟨trivial, hpairs⟩
    · exact absurd (.here hopens) hsafe
    · obtain ⟨pair, heq, hin⟩ := nextPair_goesOn (z := []) hgo htz
      rw [forTurn_some heq] at hturn
      cases hturn
      refine ⟨⟨u, rfl, hgo.suffix.trans hsuf, fun hover => hsafe (.later hgo hover)⟩, ?_⟩
      intro q hq
      rcases List.mem_append.1 hq with hq | hq
      · exact hpairs q hq
      · obtain rfl := List.mem_singleton.1 hq
        exact ⟨hin.1.mono hsuf, hin.2.mono hsuf⟩
  · cases hturn
  · exact hpos.elim

theorem Overruns.turns (h : Overruns s) (hz : nul ∉ s) (pairs : List Pair) :
    ∃ pairs', Turns (forTurn collect) ⟨.at_ (s ++ [nul]), pairs⟩ ⟨.outside, pairs'⟩ := by
  induction h generalizing pairs with
  | @here t hopens =>
    obtain ⟨pair, heq, -⟩ := nextPair_opens (z := []) hopens hz
    refine ⟨pairs ++ [pair], .first (forTurn_some heq) (.first ?_ .refl)⟩
    exact forTurn_outside rfl
  | @later t s hgo _ ih =>
    have hsz : nul ∉ s := fun h => hz (hgo.suffix.subset h)
    obtain ⟨pair, heq, -⟩ := nextPair_goesOn (z := []) hgo hz
    obtain ⟨pairs', hturns⟩ := ih hsz (pairs ++ [pair])
    exact ⟨pairs', hturns.first (forTurn_some heq)⟩

/-- The object that a text begins with, behind blanks. -/
def objectText (s : List Char) : Option (List Char) :=
  match s.dropWhile (· = ' ') with
  | '{' :: t => some ('{' :: t)
  | _ => none

theorem getObject_eq (hz : nul ∉ s) : getObject (s ++ nul :: z) = some ((objectText s).map (· ++ nul :: z)) := by
  induction s with
  | nil => rfl
  | cons b s ih =>
    rw [List.mem_cons, not_or] at hz
    rw [List.cons_append, getObject, if_neg (Ne.symm hz.1)]
    unfold objectText at ih ⊢
    by_cases hb : b = ' '
    · rw [if_pos hb, List.dropWhile_cons_of_pos (by simpa using hb), ih hz.2]
    · rw [if_neg hb, List.dropWhile_cons_of_neg (by simpa using hb)]
      by_cases ho : b = '{'
      · subst ho
        rfl
      · rw [if_neg ho]
        split
        · next heq => exact absurd (List.cons.inj heq).1 ho
        · rfl

/-- **Scanning is safe** unless the scanner comes to a member whose value is opened by the last
    character of the text. -/
theorem safeText_iff (s : CStr) : SafeText s.text ↔ ∀ t, objectText s.text = some t → ¬ Overruns t := by
  have hz := s.ok
  unfold SafeText
  unfold forEachKv
  rw [getObject_eq hz]
  cases ho : objectText s.text with
  | none => exact iff_of_true ⟨[], rfl, nofun⟩ nofun
  | some t =>
    have hsuf : t <:+ s.text := by
      unfold objectText at ho
      split at ho
      · next heq =>
        cases ho
        rw [← heq]
        exact List.dropWhile_suffix _
      · cases ho
    have htz : nul ∉ t := fun h => hz (hsuf.subset h)
    simp only [Option.map_some, Option.bind_eq_bind, Option.bind_some, Option.some.injEq, forall_eq']
    constructor
    · rintro ⟨pairs, hpairs, -⟩ hover
      have hnull := loopFor_iff.1 hpairs
      obtain ⟨pairs', hout⟩ := hover.turns htz []
      cases hnull.end_unique rfl hout rfl
    · intro hsafe
      have hinit : AtText t ⟨.at_ (t ++ [nul]), []⟩ := ⟨⟨t, rfl, List.suffix_refl _, hsafe⟩, nofun⟩
      obtain ⟨pairs, hpairs, -, hin⟩ := loop_inside (AtText.turn htz) (fun h => h.pos) hinit
      exact ⟨pairs, hpairs, fun pair hp => ⟨(hin pair hp).1.mono hsuf, (hin pair hp).2.mono hsuf⟩⟩

/-- In `{"a":"`, the value begins at the NUL, and the scanner goes on behind it. -/
theorem scan_past_nul : ¬ SafeText ['{', '"', 'a', '"', ':', '"'] := by
  rintro ⟨pairs, hpairs, -⟩
  have hnone : forEachKv collect (['{', '"', 'a', '"', ':', '"'] ++ [nul]) [] = none := by decide
  rw [hnone] at hpairs
  cases hpairs

/-! ## The buffer -/

/-- How many characters stand before the first NUL. -/
def textLen (buf : List Char) : ℕ := (buf.takeWhile (· ≠ nul)).length

/-- After `json_parse_name_value` the buffer is what it was, whatever stands behind it in the memory. -/
def ParseKeeps (buf : List Char) (iStrLen : ℕ) : Prop :=
  ∀ (z : List Char) (σ : Type) (pfnCB : σ → Pair → Option (σ × Bool)) (data : σ) (r : Parsed σ),
    parseNameValue (buf ++ z) iStrLen pfnCB data = some r → r.buf = buf ++ z

/-- And after `json_get_value_by_name`. -/
def GetKeeps (buf : List Char) (iStrLen : ℕ) : Prop :=
  ∀ (z : List Char) (name : CStr) (r : Got), getValueByName (buf ++ z) iStrLen name = some r → r.buf = buf ++ z

variable {buf : List Char} {iStrLen n : ℕ}

theorem textLen_append (hz : nul ∉ t) : textLen (t ++ nul :: z) = t.length := by
  have hall : ∀ x ∈ t, decide (x ≠ nul) = true := by
    intro x hx
    rw [decide_eq_true_iff]
    rintro rfl
    exact hz hx
  rw [textLen, List.takeWhile_append_of_pos hall, List.takeWhile_cons_of_neg (by decide), List.append_nil]

theorem strlen_of_mem (h : nul ∈ buf) (z : List Char) : strlen (buf ++ z) = some (textLen buf) := by
  obtain ⟨t, u, rfl, hz⟩ := List.eq_append_cons_of_mem h
  rw [List.append_assoc, List.cons_append, strlen_eq hz, textLen_append hz]

theorem strlen_set_lt (hn : n < textLen buf) (z : List Char) : strlen ((buf ++ z).set n nul) = some n := by
  induction buf generalizing n with
  | nil => exact absurd hn (Nat.not_lt_zero n)
  | cons b buf ih =>
    unfold textLen at hn ih
    by_cases hb : b = nul
    · rw [List.takeWhile_cons_of_neg (by simpa using hb)] at hn
      exact absurd hn (Nat.not_lt_zero n)
    · rw [List.takeWhile_cons_of_pos (by simpa using hb), List.length_cons] at hn
      cases n with
      | zero => rfl
      | succ n =>
        rw [List.cons_append, List.set_cons_succ, strlen, if_neg hb, ih (Nat.lt_of_succ_lt_succ hn)]
        rfl

theorem strlen_set_gt (h : nul ∈ buf) (hn : textLen buf < n) (z : List Char) (c : Char) :
    strlen ((buf ++ z).set n c) = some (textLen buf) := by
  obtain ⟨t, u, rfl, hz⟩ := List.eq_append_cons_of_mem h
  rw [textLen_append hz] at hn ⊢
  obtain ⟨k, rfl⟩ := Nat.exists_eq_add_of_lt hn
  rw [List.append_assoc, List.cons_append, List.set_append_right (h := by omega),
    show t.length + k + 1 - t.length = k + 1 by omega, List.set_cons_succ, strlen_eq hz]

theorem getElem?_ne_nul (hn : n < textLen buf) : ∃ c, buf[n]? = some c ∧ c ≠ nul := by
  refine ⟨_, List.prefix_iff_getElem?.1 (List.takeWhile_prefix _) n hn, ?_⟩
  have hmem := List.mem_takeWhile_imp (List.getElem_mem hn)
  simpa using hmem

/-- A memory that no turn leaves: it ends in two NULs, or is the last of them. -/
def Ends (p : Ptr) : Prop := p = [nul] ∨ ∃ x, p = x ++ [nul, nul]

theorem Ends.split {p : Ptr} (h : Ends p) : p = [nul] ∨ ∃ t z, p = t ++ nul :: z ∧ nul ∉ t ∧ Ends z := by
  rcases h with rfl | ⟨x, rfl⟩
  · exact .inl rfl
  · right
    by_cases hx : nul ∈ x
    · obtain ⟨t, z, rfl, hz⟩ := List.eq_append_cons_of_mem hx
      exact ⟨t, z ++ [nul, nul], by simp, hz, .inr ⟨z, rfl⟩⟩
    · exact ⟨x, [nul], rfl, hx, .inl rfl⟩

theorem Ends.append (h : Ends z) (t : List Char) : Ends (t ++ nul :: z) := by
  rcases h with rfl | ⟨x, rfl⟩
  · exact .inr ⟨t, rfl⟩
  · exact .inr ⟨t ++ nul :: x, by simp⟩

/-- The cursor stands in such a memory. -/
def Scan.ends (s : Scan σ) : Prop :=
  match s.pos with
  | .at_ p => Ends p
  | .null => True
  | .outside => False

theorem Scan.ends_turn {s s' : Scan σ} (hbody : ∀ data pair, (body data pair).isSome) (h : s.ends)
    (hturn : forTurn body s = some s') : s'.ends := by
  rcases s with ⟨p | - | -, data⟩
  · -- the body is run, and breaks or goes on
    have hgo : ∀ {pair next}, nextPair p = some (some (pair, next)) → Ends next → s'.ends := by
      intro pair next heq hends
      rw [forTurn_some heq] at hturn
      obtain ⟨⟨data', brk⟩, hrun⟩ := Option.isSome_iff_exists.1 (hbody data pair)
      rw [hrun] at hturn
      cases hturn
      cases brk
      · exact hends
      · trivial
    have hnull : nextPair p = some none → s'.ends := by
      intro heq
      rw [forTurn_null heq] at hturn
      cases hturn
      trivial
    rcases Ends.split h with rfl | ⟨t, z, rfl, hz, hends⟩
    · exact hnull rfl
    · rcases nextPair_step (z := z) hz with hnone | hopens | ⟨u, hgoes, -⟩
      · exact hnull hnone
      · obtain ⟨pair, heq, -⟩ := nextPair_opens (z := z) hopens hz
        exact hgo heq hends
      · obtain ⟨pair, heq, -⟩ := nextPair_goesOn (z := z) hgoes hz
        exact hgo heq (hends.append u)
  · cases hturn
  · exact h.elim

theorem getObject_ends {p : Ptr} (h : Ends p) : ∃ o, getObject p = some o ∧ ∀ q, o = some q → Ends q := by
  rcases h.split with rfl | ⟨t, z, rfl, hz, hends⟩
  · exact ⟨none, rfl, nofun⟩
  · refine ⟨_, getObject_eq hz, fun q hq => ?_⟩
    obtain ⟨u, -, rfl⟩ := Option.map_eq_some_iff.1 hq
    exact hends.append u

theorem forEachKv_isSome {p : Ptr} (hbody : ∀ data pair, (body data pair).isSome) (h : Ends p) (data : σ) :
    (forEachKv body p data).isSome := by
  obtain ⟨o, ho, hends⟩ := getObject_ends h
  unfold forEachKv
  rw [ho]
  cases o with
  | none => rfl
  | some q =>
    have hinit : Scan.ends (⟨.at_ q, data⟩ : Scan σ) := hends q rfl
    obtain ⟨out, hout, -⟩ := loop_inside (Scan.ends_turn hbody) (fun h => h) hinit
    exact Option.isSome_iff_exists.2 ⟨out, hout⟩

theorem report_isSome {pfnCB : σ → Pair → Option (σ × Bool)} (hcb : ∀ data pair, (pfnCB data pair).isSome)
    (s : Bool × σ) (pair : Pair) : (report pfnCB s pair).isSome := by
  unfold report
  split_ifs
  · rw [Option.isSome_map]
    exact hcb _ _
  · rfl

theorem parseNameValue_buf {pfnCB : σ → Pair → Option (σ × Bool)} {data : σ} {r : Parsed σ} (h : nul ∈ buf)
    (hlen : iStrLen < buf.length) (hr : parseNameValue (buf ++ z) iStrLen pfnCB data = some r) :
    r.buf = if iStrLen = 0 ∨ textLen buf ≤ iStrLen then buf ++ z else (buf ++ z).set iStrLen nul := by
  unfold parseNameValue at hr
  by_cases hz : iStrLen = 0
  · rw [if_pos hz] at hr
    rw [if_pos (.inl hz)]
    cases hr
    rfl
  have hput : ∀ x, put (buf ++ z) iStrLen x = some ((buf ++ z).set iStrLen x) :=
    fun x => if_pos (by rw [List.length_append]; omega)
  have hget : (buf ++ z)[iStrLen]? = some buf[iStrLen] := by
    rw [List.getElem?_append_left hlen, List.getElem?_eq_getElem hlen]
  simp only [if_neg hz, strlen_of_mem h, Option.bind_eq_bind, Option.bind_some] at hr
  rcases Nat.lt_trichotomy iStrLen (textLen buf) with hlt | heq | hgt
  · simp only [if_pos (Nat.ne_of_lt hlt), hget, hput, Option.bind_some, strlen_set_lt hlt, ne_eq, not_true_eq_false,
      if_false] at hr
    obtain ⟨⟨ret, data'⟩, -, hr⟩ := Option.bind_eq_some_iff.1 hr
    cases hr
    rw [if_neg (by omega)]
  · simp only [if_neg (not_not_intro heq)] at hr
    obtain ⟨⟨ret, data'⟩, -, hr⟩ := Option.bind_eq_some_iff.1 hr
    cases hr
    rw [if_pos (.inr (Nat.le_of_eq heq.symm))]
  · have hne : iStrLen ≠ textLen buf := Nat.ne_of_gt hgt
    have hback : put ((buf ++ z).set iStrLen nul) iStrLen buf[iStrLen] = some (buf ++ z) := by
      have hin : iStrLen < ((buf ++ z).set iStrLen nul).length := by
        rw [List.length_set, List.length_append]
        omega
      rw [put, if_pos hin, List.set_set]
      rw [List.length_set] at hin
      have hself : buf[iStrLen] = (buf ++ z)[iStrLen] := (List.getElem_append_left hlen).symm
      rw [hself, List.set_getElem_self]
    simp only [hget, hput, Option.bind_some, strlen_set_gt h hgt, if_pos hne, hback] at hr
    obtain ⟨⟨ret, data'⟩, -, hr⟩ := Option.bind_eq_some_iff.1 hr
    cases hr
    rw [if_pos (.inr (Nat.le_of_lt hgt))]

theorem parseNameValue_isSome {pfnCB : σ → Pair → Option (σ × Bool)} (hcb : ∀ data pair, (pfnCB data pair).isSome)
    (h : nul ∈ buf) (hlen : iStrLen < textLen buf) (data : σ) :
    (parseNameValue (buf ++ [nul, nul]) iStrLen pfnCB data).isSome := by
  unfold parseNameValue
  by_cases hz : iStrLen = 0
  · rw [if_pos hz]
    rfl
  have hbuf : iStrLen < buf.length :=
    Nat.lt_of_lt_of_le hlen ((List.takeWhile_prefix (l := buf) fun x => decide (x ≠ nul)).length_le)
  have hput : put (buf ++ [nul, nul]) iStrLen nul = some ((buf ++ [nul, nul]).set iStrLen nul) :=
    if_pos (by rw [List.length_append]; omega)
  have hget : (buf ++ [nul, nul])[iStrLen]? = some buf[iStrLen] := by
    rw [List.getElem?_append_left hbuf, List.getElem?_eq_getElem hbuf]
  have hends : Ends ((buf ++ [nul, nul]).set iStrLen nul) := by
    rw [List.set_append_left _ _ hbuf]
    exact .inr ⟨_, rfl⟩
  obtain ⟨⟨ret, data'⟩, hloop⟩ := Option.isSome_iff_exists.1 (forEachKv_isSome (report_isSome hcb) hends (false, data))
  simp only [if_neg hz, strlen_of_mem h, Option.bind_eq_bind, Option.bind_some, if_pos (Nat.ne_of_lt hlen), hget, hput,
    hloop, strlen_set_lt hlen, ne_eq, not_true_eq_false, if_false, Option.isSome_some]

theorem getValueByNameCb_nil (nv : Nv) (pair : Pair) : (getValueByNameCb ⟨[], nofun⟩ nv pair).isSome := by
  simp [getValueByNameCb, strncmpEq]

theorem set_nul_ne (hn : n < textLen buf) : (buf ++ z).set n nul ≠ buf ++ z := by
  intro heq
  obtain ⟨c, hget, hc⟩ := getElem?_ne_nul hn
  have hlt : n < buf.length := (List.getElem?_eq_some_iff.1 hget).1
  have hn' := congrArg (fun l => l[n]?) heq
  rw [List.getElem?_set_self (by rw [List.length_append]; omega), List.getElem?_append_left hlt, hget] at hn'
  exact hc (Option.some.inj hn').symm

/-- **The text is unchanged** after a scan exactly if nothing is scanned or its length is not more
    than the one given. -/
theorem scan_keeps_iff (buf : List Char) (iStrLen : ℕ) (h : nul ∈ buf) (hlen : iStrLen < buf.length) :
    (ParseKeeps buf iStrLen ↔ iStrLen = 0 ∨ textLen buf ≤ iStrLen) ∧
      (GetKeeps buf iStrLen ↔ iStrLen = 0 ∨ textLen buf ≤ iStrLen) := by
  refine ⟨⟨fun hkeeps => ?_, fun hc => ?_⟩, fun hkeeps => ?_, fun hc => ?_⟩
  · by_contra hc
    have hlt : iStrLen < textLen buf := by omega
    obtain ⟨r, hr⟩ := Option.isSome_iff_exists.1
      (parseNameValue_isSome (fun (_ : Unit) _ => (rfl : (some ((), false)).isSome = true)) h hlt ())
    have hsame := hkeeps _ _ _ _ _ hr
    rw [parseNameValue_buf h hlen hr, if_neg hc] at hsame
    exact set_nul_ne hlt hsame
  · intro z σ pfnCB data r hr
    rw [parseNameValue_buf h hlen hr, if_pos hc]
  · by_contra hc
    have hlt : iStrLen < textLen buf := by omega
    obtain ⟨r, hr⟩ := Option.isSome_iff_exists.1
      (parseNameValue_isSome getValueByNameCb_nil h hlt ⟨0, .string, none⟩)
    have hgot := congrArg (Option.map fun r : Parsed Nv =>
      (⟨r.buf, r.data.pV, if r.ret then some (r.data.vLen, r.data.vType) else none⟩ : Got)) hr
    have hsame : r.buf = _ := hkeeps _ _ _ hgot
    rw [parseNameValue_buf h hlen hr, if_neg hc] at hsame
    exact set_nul_ne hlt hsame
  · intro z name r hr
    unfold getValueByName at hr
    obtain ⟨p, hp, rfl⟩ := Option.map_eq_some_iff.1 hr
    rw [parseNameValue_buf h hlen hp, if_pos hc]

/-- The buffer of `{}`, with its NUL. -/
def emptyObject : List Char := ['{', '}', nul]

theorem scan_keeps_whole : (ParseKeeps emptyObject 2 ↔ 2 = 0 ∨ textLen emptyObject ≤ 2) ∧
    (GetKeeps emptyObject 2 ↔ 2 = 0 ∨ textLen emptyObject ≤ 2) :=
  scan_keeps_iff emptyObject 2 (by decide) (by decide)

/-- Of the first character of `{}`, only this is scanned, and the second one is lost. -/
theorem scan_cuts_text :
    (getValueByName emptyObject 1 ⟨['a'], by decide⟩).map Got.buf = some ['{', nul, nul] ∧ ¬ GetKeeps emptyObject 1 := by
  have hcut : (getValueByName emptyObject 1 ⟨['a'], by decide⟩).map Got.buf = some ['{', nul, nul] := by decide
  refine ⟨hcut, fun hkeeps => ?_⟩
  obtain ⟨r, hr, hbuf⟩ := Option.map_eq_some_iff.1 hcut
  have hsame := hkeeps [] ⟨['a'], by decide⟩ r (by rw [List.append_nil]; exact hr)
  rw [hbuf] at hsame
  exact absurd hsame (by decide)

end Lite
