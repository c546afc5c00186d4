/-
  The string utilities (`LITE-utils/string_utils.c`): hex digits and substrings.

  An array is a list of cells; a read or a write outside of it is undefined, and
  the functions are then `none`.  A C string is the list of its characters,
  without the NUL.
-/
import AliOS.Lib.Cells
import Mathlib.Data.Nat.Bitwise

namespace Lite

open Lib

/-- `buf[i] = x` -/
def put {α : Type} (buf : List α) (i : ℕ) (x : α) : Option (List α) :=
  if i < buf.length then some (buf.set i x) else none

/-! ## Hex digits -/

def zEncode (uppercase : Bool) : List Char :=
  if uppercase then ['0', '1', '2', '3', '4', '5', '6', '7', '8', '9', 'A', 'B', 'C', 'D', 'E', 'F']
  else ['0', '1', '2', '3', '4', '5', '6', '7', '8', '9', 'a', 'b', 'c', 'd', 'e', 'f']

/-- The loop of `LITE_hexbuf_convert`, with `n` turns to go. -/
def hexbufLoop (digest : List UInt8) (uppercase : Bool) : ℕ → ℕ → ℕ → List Char → Option (List Char)
  | 0, _, _, out => some out
  | n + 1, i, j, out => do
    let a ← digest[i]?
    let out ← put out j ((zEncode uppercase).getD (a.toNat >>> 4 &&& 0xf) '0')
    let out ← put out (j + 1) ((zEncode uppercase).getD (a.toNat &&& 0xf) '0')
    hexbufLoop digest uppercase n (i + 1) (j + 2) out

def hexbufConvert (digest : List UInt8) (out : List Char) (inLen : ℕ) (uppercase : Bool) : Option (List Char) :=
  hexbufLoop digest uppercase inLen 0 0 out

def hexvalOfChar (hex : Char) : ℕ :=
  if hex ≤ '9' ∧ '0' ≤ hex then hex.toNat - '0'.toNat
  else if 'a' ≤ hex ∧ hex ≤ 'f' then hex.toNat - 'a'.toNat + 10
  else if 'A' ≤ hex ∧ hex ≤ 'F' then hex.toNat - 'A'.toNat + 10
  else 0

/-- The loop of `LITE_hexstr_convert`, with `n` turns to go. -/
def hexstrLoop (hexstr : List Char) : ℕ → ℕ → List UInt8 → Option (List UInt8)
  | 0, _, out => some out
  | n + 1, i, out => do
    let ch0 ← hexstr[2 * i]?
    let ch1 ← hexstr[2 * i + 1]?
    let out ← put out i (UInt8.ofNat (hexvalOfChar ch0 <<< 4 ||| hexvalOfChar ch1))
    hexstrLoop hexstr n (i + 1) out

def hexstrConvert (hexstr : List Char) (out : List UInt8) (inLen : ℕ) : Option (List UInt8) :=
  if inLen % 2 ≠ 0 then some out else hexstrLoop hexstr inLen 0 out

/-- The two digits of a byte. -/
def hexPair (uppercase : Bool) (a : UInt8) : List Char :=
  [(zEncode uppercase).getD (a.toNat >>> 4 &&& 0xf) '0', (zEncode uppercase).getD (a.toNat &&& 0xf) '0']

/-- The digits of a buffer. -/
def hexDigits (uppercase : Bool) (b : List UInt8) : List Char := b.flatMap (hexPair uppercase)

/-- The buffer is written as its `2n` digits, and read back from them when the
    length given is that of the digits; neither function leaves its buffers. -/
def RoundTrips (b : List UInt8) (uppercase : Bool) : Prop :=
  ∀ (h₀ : List Char) (out : List UInt8), h₀.length = 2 * b.length → out.length = b.length →
    ∃ h, hexbufConvert b h₀ b.length uppercase = some h ∧ h.length = 2 * b.length ∧
      (∀ c ∈ h, c ∈ zEncode uppercase) ∧ hexstrConvert h out (2 * b.length) = some b

section

variable {uppercase : Bool} {a : UInt8} {b b' : List UInt8} {h h' : List Char} {i j n : ℕ}

theorem put_length {α : Type} {buf buf' : List α} {x : α} (hp : put buf i x = some buf') :
    i < buf.length ∧ buf' = buf.set i x := by
  unfold put at hp
  split_ifs at hp with hi
  exact ⟨hi, (Option.some.inj hp).symm⟩

theorem put_append {α : Type} {l r : List α} {x y : α} (hi : i = l.length) :
    put (l ++ y :: r) i x = some (l ++ x :: r) := by
  subst hi
  unfold put
  rw [if_pos (by simp), List.set_append_right (h := Nat.le_refl _), Nat.sub_self]
  rfl

theorem hexDigits_length (b : List UInt8) : (hexDigits uppercase b).length = 2 * b.length := by
  induction b with
  | nil => rfl
  | cons a b ih =>
    rw [hexDigits, List.flatMap_cons, List.length_append]
    change 2 + (hexDigits uppercase b).length = 2 * (b.length + 1)
    omega

theorem nibble_lt (n : ℕ) : n &&& 0xf < 16 := Nat.lt_succ_of_le Nat.and_le_right

theorem zEncode_mem (hn : n < 16) : (zEncode uppercase).getD n '0' ∈ zEncode uppercase := by
  have hlen : (zEncode uppercase).length = 16 := by cases uppercase <;> rfl
  rw [List.getD_eq_getElem _ _ (hlen ▸ hn)]
  exact List.getElem_mem _

theorem mem_hexDigits {c : Char} (hc : c ∈ hexDigits uppercase b) : c ∈ zEncode uppercase := by
  obtain ⟨a, -, ha⟩ := List.mem_flatMap.1 hc
  unfold hexPair at ha
  rcases List.mem_cons.1 ha with rfl | ha
  · exact zEncode_mem (nibble_lt _)
  · obtain rfl := List.mem_singleton.1 ha
    exact zEncode_mem (nibble_lt _)

/-- **Writing**: the loop puts the digits of the bytes that are left behind those of the others. -/
theorem hexbufLoop_eq {l r : List Char} (hb : b.drop i = b') (hi : j = l.length) (hr : r.length = 2 * b'.length) :
    hexbufLoop b uppercase b'.length i j (l ++ r) = some (l ++ hexDigits uppercase b') := by
  induction b' generalizing i j l r with
  | nil =>
    obtain rfl := List.length_eq_zero_iff.1 hr
    rfl
  | cons a b' ih =>
    have hget : b[i]? = some a := by
      rw [← List.head?_drop, hb]
      rfl
    match r, hr with
    | x :: y :: r, hr =>
      have hrest : b.drop (i + 1) = b' := by
        rw [← List.drop_drop, hb]
        rfl
      rw [List.length_cons, hexbufLoop, hget, Option.bind_eq_bind, Option.bind_some, put_append hi]
      simp only [Option.bind_eq_bind, Option.bind_some]
      rw [List.append_cons l, put_append (by simp [hi]), Option.bind_some, List.append_cons (l ++ [_]),
        ih hrest (by simp [hi]) (by simpa [Nat.mul_add] using hr)]
      simp [hexDigits, hexPair]

theorem hexbufConvert_eq (h₀ : List Char) (hlen : h₀.length = 2 * b.length) :
    hexbufConvert b h₀ b.length uppercase = some (hexDigits uppercase b) :=
  hexbufLoop_eq (l := []) rfl rfl hlen

theorem hexstrLoop_none {out : List UInt8} (hi : i ≤ out.length) (hn : out.length < i + n) :
    hexstrLoop h n i out = none := by
  induction n generalizing i out with
  | zero => omega
  | succ n ih =>
    simp only [hexstrLoop, Option.bind_eq_bind, Option.bind_eq_none_iff]
    intro ch0 _ ch1 _ out' hput
    obtain ⟨hlt, rfl⟩ := put_length hput
    refine ih ?_ ?_
    · rw [List.length_set]
      omega
    · rw [List.length_set]
      omega

/-- **Hex digits** are read back, by the length that the evenness check is about, from the empty
    buffer only. -/
theorem roundTrips_iff (b : List UInt8) (uppercase : Bool) : RoundTrips b uppercase ↔ b = [] := by
  constructor
  · intro hrt
    obtain ⟨h, -, -, -, hread⟩ := hrt (hexDigits uppercase b) b (hexDigits_length b) rfl
    by_contra hne
    have hpos : 0 < b.length := List.length_pos_iff.2 hne
    rw [hexstrConvert, if_neg (by omega), hexstrLoop_none (Nat.zero_le _) (by omega)] at hread
    cases hread
  · rintro rfl h₀ out hh hout
    obtain rfl := List.length_eq_zero_iff.1 hout
    exact ⟨_, hexbufConvert_eq h₀ hh, hexDigits_length [], fun _ => mem_hexDigits, rfl⟩

/-- The byte 0x12 is written as "12", which is read past its end. -/
theorem hexstr_past_end :
    hexbufConvert [0x12] ['0', '0'] 1 false = some ['1', '2'] ∧ hexstrConvert ['1', '2'] [0] 2 = none ∧
      ¬ RoundTrips [0x12] false := by
  have hwrite : hexbufConvert [0x12] ['0', '0'] 1 false = some ['1', '2'] := by decide
  have hpast : hexstrConvert ['1', '2'] [0] 2 = none := by decide
  refine ⟨hwrite, hpast, fun h => ?_⟩
  obtain ⟨t, ht, -, -, hread⟩ := h ['0', '0'] [0] rfl rfl
  obtain rfl := Option.some.inj (hwrite.symm.trans ht)
  cases hpast.symm.trans hread

end

/-! ## Replacing a substring -/

/-- A C string: no character is NUL. -/
structure CStr where
  text : List Char
  ok : '\x00' ∉ text

/-- The size of `tmp`. -/
def tmpSize : ℕ := 512

/-- `strcpy(&tmp[i], src)` -/
def strcpyTmp (tmp : ℕ → Char) (i : ℕ) (src : List Char) : Option (ℕ → Char) :=
  if i + src.length + 1 ≤ tmpSize then some (memcpy tmp i (fun k => src.getD k '\x00') (src.length + 1)) else none

/-- The string at the start of `tmp`. -/
def tmpStr (tmp : ℕ → Char) : List Char := (slice tmp 0 tmpSize).takeWhile fun c => decide (c ≠ '\x00')

/-- The loop on `j`, with `n` turns to go: `flag`. -/
def keyAt (originalString key : List Char) (i : ℕ) : ℕ → ℕ → Bool
  | 0, _ => true
  | n + 1, j => if originalString[i + j]? ≠ key[j]? then false else keyAt originalString key i n (j + 1)

/-- What is done where the key stands at `i`: `originalString` after it. -/
def replaceAt (tmp : ℕ → Char) (originalString swap : List Char) (lengthOfKey i : ℕ) :
    Option ((ℕ → Char) × List Char) := do
  let tmp ← strcpyTmp tmp 0 originalString
  let tmp ← strcpyTmp tmp i swap
  let tmp ← strcpyTmp tmp (i + swap.length) (originalString.drop (i + lengthOfKey))
  some (tmp, tmpStr tmp)

/-- The loop on `i`, which is an `int`: it ends within `n` turns. -/
def replaceLoop (key swap : List Char) : ℕ → (ℕ → Char) → List Char → ℕ → Option (List Char)
  | 0, _, _, _ => none
  | n + 1, tmp, originalString, i =>
    if i + key.length ≤ originalString.length then
      if keyAt originalString key i key.length 0 then do
        let (tmp, originalString) ← replaceAt tmp originalString swap key.length i
        replaceLoop key swap n tmp originalString (i + swap.length)
      else replaceLoop key swap n tmp originalString (i + 1)
    else some originalString

/-- `LITE_replace_substr`, which ends within `n` turns; `tmp` is not initialised. -/
def replaceSubstr (n : ℕ) (tmp : ℕ → Char) (originalString key swap : List Char) : Option (List Char) :=
  replaceLoop key swap n tmp originalString 0

/-- The text with the occurrences of the key replaced, from left to right, after
    `k` more characters of the last one. -/
def replaceFrom (key swap : List Char) : ℕ → List Char → List Char
  | _, [] => []
  | k + 1, _ :: s => replaceFrom key swap k s
  | 0, c :: s =>
    if key <+: c :: s then swap ++ replaceFrom key swap (key.length - 1) s else c :: replaceFrom key swap 0 s

def replaceAll (key swap s : List Char) : List Char := replaceFrom key swap 0 s

section

variable {key swap s r done : List Char} {tmp tmp' : ℕ → Char} {i j k n : ℕ}

theorem replaceFrom_drop : replaceFrom key swap k s = replaceAll key swap (s.drop k) := by
  induction k generalizing s with
  | zero => rfl
  | succ k ih =>
    cases s with
    | nil => rfl
    | cons c s => exact ih

theorem replaceAll_hit (hkey : key ≠ []) (r : List Char) :
    replaceAll key swap (key ++ r) = swap ++ replaceAll key swap r := by
  cases key with
  | nil => exact absurd rfl hkey
  | cons c key =>
    have hpre : c :: key <+: c :: (key ++ r) := List.prefix_append (c :: key) r
    rw [replaceAll, List.cons_append, replaceFrom, if_pos hpre, replaceFrom_drop, List.length_cons,
      Nat.add_sub_cancel, List.drop_left]

theorem replaceAll_miss {c : Char} (h : ¬ key <+: c :: s) :
    replaceAll key swap (c :: s) = c :: replaceAll key swap s := by
  rw [replaceAll, replaceFrom, if_neg h]
  rfl

theorem replaceAll_short (h : s.length < key.length) : replaceAll key swap s = s := by
  induction s with
  | nil => rfl
  | cons c s ih =>
    rw [replaceAll_miss fun hpre => absurd hpre.length_le (by omega), ih (by simp at h; omega)]

theorem length_le_replaceAll (hkey : key ≠ []) (hle : key.length ≤ swap.length) (s : List Char) :
    s.length ≤ (replaceAll key swap s).length := by
  induction hn : s.length using Nat.strong_induction_on generalizing s with
  | _ n ih =>
    have hpos := List.length_pos_iff.2 hkey
    by_cases hpre : key <+: s
    · obtain ⟨r, rfl⟩ := hpre
      rw [List.length_append] at hn
      have hr := ih r.length (by omega) r rfl
      rw [replaceAll_hit hkey, List.length_append]
      omega
    · cases s with
      | nil => exact hn ▸ Nat.le_refl _
      | cons c s =>
        rw [List.length_cons] at hn
        have hs := ih s.length (by omega) s rfl
        rw [replaceAll_miss hpre, List.length_cons]
        omega

theorem keyAt_iff (hn : n + j = key.length) :
    keyAt s key i n j = true ↔ ∀ k, j ≤ k → k < key.length → s[i + k]? = key[k]? := by
  induction n generalizing j with
  | zero =>
    refine iff_of_true rfl fun k hj hk => ?_
    omega
  | succ n ih =>
    unfold keyAt
    by_cases hne : s[i + j]? ≠ key[j]?
    · rw [if_pos hne]
      exact iff_of_false nofun fun h => hne (h j (Nat.le_refl _) (by omega))
    · rw [if_neg hne, ih (by omega)]
      rw [not_ne_iff] at hne
      constructor
      · intro h k hj hk
        rcases Nat.eq_or_lt_of_le hj with rfl | hlt
        · exact hne
        · exact h k hlt hk
      · exact fun h k hj hk => h k (by omega) hk

theorem keyAt_begins (hi : done.length = i) : keyAt (done ++ s) key i key.length 0 = true ↔ key <+: s := by
  rw [keyAt_iff rfl, List.prefix_iff_getElem?]
  have hget : ∀ k, (done ++ s)[i + k]? = s[k]? := by
    intro k
    rw [List.getElem?_append_right (by omega), ← hi, Nat.add_sub_cancel_left]
  constructor
  · intro h k hk
    rw [← hget, h k (Nat.zero_le _) hk, List.getElem?_eq_getElem hk]
  · intro h k _ hk
    rw [hget, h k hk, List.getElem?_eq_getElem hk]

theorem strcpyTmp_eq (tmp : ℕ → Char) (i : ℕ) (s : List Char) (h : i + s.length + 1 ≤ tmpSize) :
    ∃ tmp', strcpyTmp tmp i s = some tmp' ∧ Holds tmp' i (s ++ ['\x00']) ∧ ∀ k < i, tmp' k = tmp k := by
  refine ⟨_, if_pos h, ?_, fun k hk => memcpy_out (.inl hk)⟩
  have hcopy := holds_memcpy_same (m := tmp) (a := i) (l := s ++ ['\x00']) '\x00'
  rw [List.length_append, List.length_singleton] at hcopy
  have hsrc : ∀ k < s.length + 1, s.getD k '\x00' = (s ++ ['\x00']).getD k '\x00' := by
    intro k hk
    rcases Nat.lt_or_ge k s.length with hlt | hge
    · rw [List.getD_append _ _ _ _ hlt]
    · obtain rfl : k = s.length := by omega
      simp
  rwa [memcpy_congr hsrc]

theorem tmpStr_eq (hs : '\x00' ∉ s) (hlen : s.length < tmpSize) (h : Holds tmp 0 (s ++ ['\x00'])) : tmpStr tmp = s := by
  have hsplit : slice tmp 0 tmpSize = s ++ '\x00' :: slice tmp (s.length + 1) (tmpSize - (s.length + 1)) := by
    have hsize : tmpSize = (s ++ ['\x00']).length + (tmpSize - (s.length + 1)) := by
      simp
      omega
    rw [hsize, slice_append, h]
    simp
  rw [tmpStr, hsplit, List.takeWhile_append_of_pos]
  · simp
  · intro c hc
    rw [decide_eq_true_iff]
    rintro rfl
    exact hs hc

theorem replaceAt_eq (tmp : ℕ → Char) (hnul : '\x00' ∉ done ++ swap ++ r) (horig : (done ++ key ++ r).length < tmpSize)
    (hnew : (done ++ swap ++ r).length < tmpSize) :
    ∃ tmp', replaceAt tmp (done ++ key ++ r) swap key.length done.length = some (tmp', done ++ swap ++ r) := by
  simp only [List.length_append] at horig hnew
  obtain ⟨t1, h1, hold1, -⟩ := strcpyTmp_eq tmp 0 (done ++ key ++ r) (by simp; omega)
  obtain ⟨t2, h2, hold2, hout2⟩ := strcpyTmp_eq t1 done.length swap (by omega)
  obtain ⟨t3, h3, hold3, hout3⟩ := strcpyTmp_eq t2 (done.length + swap.length) r (by omega)
  have hdrop : (done ++ key ++ r).drop (done.length + key.length) = r := by
    rw [← List.length_append, List.drop_left]
  have hdone : Holds t3 0 done := by
    rw [List.append_assoc, List.append_assoc] at hold1
    refine (holds_append.1 hold1).1.congr fun k _ hk => ?_
    rw [hout3 k (by omega), hout2 k (by omega)]
  have hswap : Holds t3 done.length swap :=
    (holds_append.1 hold2).1.congr fun k _ hk => hout3 k (by omega)
  have hall : Holds t3 0 (done ++ swap ++ r ++ ['\x00']) := by
    rw [List.append_assoc, List.append_assoc, holds_append, holds_append, Nat.zero_add]
    exact ⟨hdone, hswap, hold3⟩
  refine ⟨t3, ?_⟩
  simp only [replaceAt, h1, h2, hdrop, h3, Option.bind_eq_bind, Option.bind_some]
  rw [tmpStr_eq hnul (by simp; omega) hall]

/-- **The loop** replaces what is left of the text, and leaves what it has done. -/
theorem replaceLoop_eq (hkey : key ≠ []) (hswap : '\x00' ∉ swap) (hdone : '\x00' ∉ done) (hs : '\x00' ∉ s)
    (hold : (done ++ s).length < tmpSize) (hnew : (done ++ replaceAll key swap s).length < tmpSize)
    (hn : s.length < n) :
    replaceLoop key swap n tmp (done ++ s) done.length = some (done ++ replaceAll key swap s) := by
  induction n generalizing tmp done s with
  | zero => omega
  | succ n ih =>
    have hpos := List.length_pos_iff.2 hkey
    unfold replaceLoop
    by_cases hle : key.length ≤ s.length
    · rw [if_pos (by rw [List.length_append]; omega)]
      by_cases hpre : key <+: s
      · -- an occurrence: the loop goes on behind the inserted text
        rw [if_pos ((keyAt_begins rfl).2 hpre)]
        obtain ⟨r, rfl⟩ := hpre
        rw [replaceAll_hit hkey, ← List.append_assoc] at hnew ⊢
        have hr : '\x00' ∉ r := fun h => hs (List.mem_append_right key h)
        have hmid : (done ++ swap ++ r).length < tmpSize := by
          simp only [List.length_append] at hold hnew ⊢
          rcases Nat.lt_or_ge swap.length key.length with hlt | hge
          · omega
          · have hgrow := length_le_replaceAll hkey hge r
            omega
        rw [← List.append_assoc] at hold ⊢
        have hnul : '\x00' ∉ done ++ swap ++ r := by
          simp only [List.mem_append, not_or]
          exact ⟨⟨hdone, hswap⟩, hr⟩
        obtain ⟨tmp', hat⟩ := replaceAt_eq tmp hnul hold hmid
        rw [hat, Option.bind_eq_bind, Option.bind_some, ← List.length_append]
        refine ih ?_ hr hmid hnew ?_
        · simp only [List.mem_append, not_or]
          exact ⟨hdone, hswap⟩
        · rw [List.length_append] at hn
          omega
      · rw [if_neg (by rw [keyAt_begins rfl]; exact hpre)]
        cases s with
        | nil =>
          rw [List.length_nil] at hle
          omega
        | cons c s =>
          rw [replaceAll_miss hpre, List.append_cons done c (replaceAll key swap s)] at hnew ⊢
          rw [List.append_cons done c s] at hold ⊢
          have hlen : done.length + 1 = (done ++ [c]).length := by simp
          rw [hlen]
          refine ih ?_ (fun h => hs (List.mem_cons_of_mem c h)) hold hnew (by simpa using hn)
          rw [List.mem_append, List.mem_singleton, not_or]
          exact ⟨hdone, fun h => hs (h ▸ List.mem_cons_self)⟩
    · rw [if_neg (by rw [List.length_append]; omega), replaceAll_short (by omega)]

/-- **Replacing** ends, stays inside of `tmp`, and leaves the text with the occurrences of the key
    replaced. -/
theorem replaceSubstr_eq (originalString key swap : CStr) (tmp : ℕ → Char) (hkey : key.text ≠ [])
    (hold : originalString.text.length ≤ 511)
    (hnew : (replaceAll key.text swap.text originalString.text).length ≤ 511) :
    replaceSubstr (originalString.text.length + 1) tmp originalString.text key.text swap.text =
      some (replaceAll key.text swap.text originalString.text) := by
  have hdone : '\x00' ∉ ([] : List Char) := nofun
  exact replaceLoop_eq hkey swap.ok hdone originalString.ok (Nat.lt_succ_of_le hold) (Nat.lt_succ_of_le hnew)
    (Nat.lt_succ_self _)

/-- "aa" in "aaa" becomes "aab", which holds the key again. -/
theorem replaceSubstr_overlap :
    replaceSubstr 4 (fun _ => ' ') ['a', 'a', 'a'] ['a', 'a'] ['a', 'a', 'b'] = some ['a', 'a', 'b', 'a'] :=
  replaceSubstr_eq ⟨['a', 'a', 'a'], by decide⟩ ⟨['a', 'a'], by decide⟩ ⟨['a', 'a', 'b'], by decide⟩ _ nofun
    (by decide) (by decide)

end

end Lite
