/-
  Base64 (`base64.c`).

  An array is a list of bytes; a read outside of it is undefined, as is an `int`
  that overflows, and the functions are then `none`.  The pointers given are not
  `NULL`.  Beside the functions of the source stands the encoding itself, three
  bytes at a time (`encoding`), and the strings it yields (`Canonical`).
-/
import Mathlib.Data.List.Basic
import Mathlib.Data.Nat.Bitwise

namespace Base64

abbrev Bytes := List UInt8

def intMax : ℕ := 2147483647

/-- The character `=`. -/
def pad : UInt8 := 61

def encodingTable : List UInt8 := [
  65, 66, 67, 68, 69, 70, 71, 72, 73, 74, 75, 76, 77, 78, 79, 80,
  81, 82, 83, 84, 85, 86, 87, 88, 89, 90, 97, 98, 99, 100, 101, 102,
  103, 104, 105, 106, 107, 108, 109, 110, 111, 112, 113, 114, 115, 116, 117, 118,
  119, 120, 121, 122, 48, 49, 50, 51, 52, 53, 54, 55, 56, 57, 43, 47]

/-- `decoding_table`; the upper half is zero. -/
def decodingTable : List ℕ := [
  0, 0, 0, 0, 0, 0, 0, 0, 0, 0, 0, 0, 0, 0, 0, 0,
  0, 0, 0, 0, 0, 0, 0, 0, 0, 0, 0, 0, 0, 0, 0, 0,
  0, 0, 0, 0, 0, 0, 0, 0, 0, 0, 0, 62, 0, 0, 0, 63,
  52, 53, 54, 55, 56, 57, 58, 59, 60, 61, 0, 0, 0, 0, 0, 0,
  0, 0, 1, 2, 3, 4, 5, 6, 7, 8, 9, 10, 11, 12, 13, 14,
  15, 16, 17, 18, 19, 20, 21, 22, 23, 24, 25, 0, 0, 0, 0, 0,
  0, 26, 27, 28, 29, 30, 31, 32, 33, 34, 35, 36, 37, 38, 39, 40,
  41, 42, 43, 44, 45, 46, 47, 48, 49, 50, 51, 0, 0, 0, 0, 0] ++ List.replicate 128 0

def modTable : List ℕ := [0, 2, 1]

/-- What a call leaves: the bytes written to `output`, and `*output_len`. -/
structure Out where
  output : Bytes
  outputLen : ℤ

/-! ## The source functions -/

/-- `i < input_len ? input[i++] : 0`, and `i` behind it. -/
def octet (input : Bytes) (i : ℕ) : ℕ × ℕ :=
  if h : i < input.length then ((input[i]).toNat, i + 1) else (0, i)

/-- `encoding_table[n & 0x3F]`. -/
def encodeChar (n : ℕ) : UInt8 := encodingTable.getD (n &&& 0x3F) 0

/-- The four characters of a triple. -/
def encodeTriple (triple : ℕ) : Bytes :=
  [encodeChar (triple >>> 18), encodeChar (triple >>> 12), encodeChar (triple >>> 6),
    encodeChar (triple >>> 0)]

theorem octet_le (input : Bytes) (i : ℕ) : i ≤ (octet input i).2 := by
  unfold octet
  split_ifs
  · exact Nat.le_succ i
  · exact le_rfl

/-- The loop of `base64_encode` over the input. -/
def encodeLoop (input : Bytes) (i : ℕ) (output : Bytes) : Bytes :=
  if _h : i < input.length then
    let a := octet input i
    let b := octet input a.2
    let c := octet input b.2
    let triple := a.1 <<< 0x10 + b.1 <<< 0x08 + c.1
    encodeLoop input c.2 (output ++ encodeTriple triple)
  else output
termination_by input.length - i
decreasing_by
  have ha : (octet input i).2 = i + 1 := by rw [octet, dif_pos _h]
  have hb := octet_le input (octet input i).2
  have hc := octet_le input (octet input (octet input i).2).2
  omega

/-- The loop of `base64_encode` over the padding: `n` turns. -/
def padLoop (oLen : ℕ) : ℕ → Bytes → Bytes
  | 0, output => output
  | n + 1, output => (padLoop oLen n output).set (oLen - 1 - n) pad

def base64Encode (input : Bytes) : Option Out :=
  let oLen := 4 * ((input.length + 2) / 3)
  if input.length + 2 > intMax ∨ oLen > intMax then none
  else
    let output := encodeLoop input 0 []
    some ⟨padLoop oLen (modTable.getD (input.length % 3) 0) output, oLen⟩

/-- `input[i]`. -/
def byteAt (input : Bytes) (i : ℤ) : Option UInt8 := if 0 ≤ i then input[i.toNat]? else none

/-- `decoding_table[input[i]]`. -/
def sextet (input : Bytes) (i : ℕ) : Option ℕ :=
  (byteAt input i).map fun c => decodingTable.getD c.toNat 0

/-- `if (j < o_len) output[j++] = b`. -/
def put (oLen : ℤ) (output : Bytes) (b : ℕ) : Bytes :=
  if (output.length : ℤ) < oLen then output ++ [UInt8.ofNat b] else output

/-- The loop of `base64_decode`. -/
def decodeLoop (input : Bytes) (oLen : ℤ) (i : ℕ) (output : Bytes) : Option Bytes :=
  if i < input.length then
    (sextet input i).bind fun a => (sextet input (i + 1)).bind fun b =>
    (sextet input (i + 2)).bind fun c => (sextet input (i + 3)).bind fun d =>
      let triple := a <<< 18 + b <<< 12 + c <<< 6 + d <<< 0
      let output := put oLen output (triple >>> 16 &&& 0xFF)
      let output := put oLen output (triple >>> 8 &&& 0xFF)
      let output := put oLen output (triple >>> 0 &&& 0xFF)
      decodeLoop input oLen (i + 4) output
  else some output
termination_by input.length - i

def base64Decode (input : Bytes) : Option Out :=
  let oLen : ℤ := input.length / 4 * 3
  (byteAt input (input.length - 1)).bind fun c₁ =>
    let oLen := if c₁ = pad then oLen - 1 else oLen
    (byteAt input (input.length - 2)).bind fun c₂ =>
      let oLen := if c₂ = pad then oLen - 1 else oLen
      (decodeLoop input oLen 0 []).map fun output => ⟨output, oLen⟩

/-! ## The encoding -/

/-- The character of six bits. -/
def char (v : ℕ) : UInt8 := encodingTable.getD v 0

/-- The four characters of three bytes. -/
def quad (a b c : UInt8) : Bytes :=
  let t := a.toNat * 2 ^ 16 + b.toNat * 2 ^ 8 + c.toNat
  [char (t / 2 ^ 18), char (t / 2 ^ 12 % 2 ^ 6), char (t / 2 ^ 6 % 2 ^ 6), char (t % 2 ^ 6)]

/-- The encoding of a string of bytes. -/
def encoding : Bytes → Bytes
  | [] => []
  | [a] => (quad a 0 0).take 2 ++ [pad, pad]
  | [a, b] => (quad a b 0).take 3 ++ [pad]
  | a :: b :: c :: rest => quad a b c ++ encoding rest

/-- The canonical strings: groups of four characters, where the last group may
    end in padding behind bits that are zero. -/
inductive Canonical : Bytes → Prop
  | nil : Canonical []
  | one {v w : ℕ} : v < 64 → w < 64 → w % 2 ^ 4 = 0 → Canonical [char v, char w, pad, pad]
  | two {v w x : ℕ} : v < 64 → w < 64 → x < 64 → x % 2 ^ 2 = 0 →
      Canonical [char v, char w, char x, pad]
  | group {v w x y : ℕ} {rest : Bytes} : v < 64 → w < 64 → x < 64 → y < 64 → Canonical rest →
      Canonical (char v :: char w :: char x :: char y :: rest)

variable {x input output full rest : Bytes} {a b c : UInt8} {i n v : ℕ}

/-! ## Characters and triples -/

theorem char_ne_pad : ∀ v < 64, char v ≠ pad := by decide

theorem decoding_char : ∀ v < 64, decodingTable.getD (char v).toNat 0 = v := by decide

theorem and_low (n k : ℕ) : n &&& (2 ^ k - 1) = n % 2 ^ k := Nat.and_two_pow_sub_one_eq_mod n k

theorem encodeChar_eq (n : ℕ) : encodeChar n = char (n % 2 ^ 6) := by
  unfold encodeChar char
  rw [show (0x3F : ℕ) = 2 ^ 6 - 1 from rfl, and_low]

theorem encodeTriple_eq (a b c : UInt8) :
    encodeTriple (a.toNat <<< 0x10 + b.toNat <<< 0x08 + c.toNat) = quad a b c := by
  have ha := a.toNat_lt
  have hb := b.toNat_lt
  have hc := c.toNat_lt
  unfold encodeTriple quad
  simp only [encodeChar_eq, Nat.shiftLeft_eq, Nat.shiftRight_eq_div_pow, pow_zero, Nat.div_one]
  rw [Nat.mod_eq_of_lt (show (a.toNat * 2 ^ 16 + b.toNat * 2 ^ 8 + c.toNat) / 2 ^ 18 < 2 ^ 6 by omega)]

/-- The three bytes of four values. -/
def triple (v w x y : ℕ) : Bytes :=
  let t := v * 2 ^ 18 + w * 2 ^ 12 + x * 2 ^ 6 + y
  [UInt8.ofNat (t / 2 ^ 16), UInt8.ofNat (t / 2 ^ 8), UInt8.ofNat t]

/-- The bytes of a string of characters, with those of the padding. -/
def decoding : Bytes → Bytes
  | v :: w :: x :: y :: rest =>
    let val := fun c : UInt8 => decodingTable.getD c.toNat 0
    triple (val v) (val w) (val x) (val y) ++ decoding rest
  | _ => []

theorem ofNat_mod (n : ℕ) : UInt8.ofNat (n % 2 ^ 8) = UInt8.ofNat n := by
  apply UInt8.toNat_inj.1
  simp

theorem quad_length (a b c : UInt8) : (quad a b c).length = 4 := rfl

theorem decoding_quad (a b c : UInt8) (rest : Bytes) :
    decoding (quad a b c ++ rest) = a :: b :: c :: decoding rest := by
  have ha := a.toNat_lt
  have hb := b.toNat_lt
  have hc := c.toNat_lt
  unfold quad
  dsimp only [List.cons_append, List.nil_append]
  rw [decoding]
  dsimp only
  rw [decoding_char _ (by omega), decoding_char _ (by omega), decoding_char _ (by omega),
    decoding_char _ (by omega)]
  unfold triple
  simp only [List.cons_append, List.nil_append, List.cons.injEq, and_true]
  refine ⟨?_, ?_, ?_⟩
  all_goals
    apply UInt8.toNat_inj.1
    rw [UInt8.toNat_ofNat']
    omega

/-! ## The encoder -/

/-- The characters before the padding is written. -/
def unpadded : Bytes → Bytes
  | [] => []
  | [a] => quad a 0 0
  | [a, b] => quad a b 0
  | a :: b :: c :: rest => quad a b c ++ unpadded rest

theorem octet_cons (h : input.drop i = a :: rest) :
    octet input i = (a.toNat, i + 1) ∧ input.drop (i + 1) = rest := by
  have hi : i < input.length := by
    by_contra hge
    rw [List.drop_eq_nil_of_le (by omega)] at h
    cases h
  rw [List.drop_eq_getElem_cons hi] at h
  obtain ⟨rfl, hrest⟩ := List.cons.inj h
  refine ⟨?_, hrest⟩
  rw [octet, dif_pos hi]

theorem octet_nil (h : input.drop i = []) : octet input i = (0, i) := by
  rw [octet, dif_neg (by have := List.drop_eq_nil_iff.1 h; omega)]

theorem encodeLoop_eq (input : Bytes) (i : ℕ) (output : Bytes) :
    encodeLoop input i output = output ++ unpadded (input.drop i) := by
  rw [encodeLoop]
  by_cases hi : i < input.length
  · rw [dif_pos hi]
    dsimp only
    match h : input.drop i with
    | [] => exact absurd (List.drop_eq_nil_iff.1 h) (by omega)
    | [a] =>
      obtain ⟨h1, hd1⟩ := octet_cons h
      rw [h1, octet_nil hd1, octet_nil hd1, encodeLoop_eq, hd1]
      simpa [unpadded] using encodeTriple_eq a 0 0
    | [a, b] =>
      obtain ⟨h1, hd1⟩ := octet_cons h
      obtain ⟨h2, hd2⟩ := octet_cons hd1
      rw [h1, h2, octet_nil hd2, encodeLoop_eq, hd2]
      simpa [unpadded] using encodeTriple_eq a b 0
    | a :: b :: c :: rest =>
      obtain ⟨h1, hd1⟩ := octet_cons h
      obtain ⟨h2, hd2⟩ := octet_cons hd1
      obtain ⟨h3, hd3⟩ := octet_cons hd2
      rw [h1, h2, h3, encodeLoop_eq, hd3, encodeTriple_eq, unpadded, List.append_assoc]
  · rw [dif_neg hi, List.drop_eq_nil_of_le (by omega)]
    simp [unpadded]
termination_by input.length - i

theorem padLoop_append {l : Bytes} {k oLen : ℕ} (hn : n ≤ oLen) (hl : l.length = k) :
    padLoop (k + oLen) n (l ++ rest) = l ++ padLoop oLen n rest := by
  induction n with
  | zero => rfl
  | succ n ih =>
    rw [padLoop, padLoop, ih (by omega), List.set_append_right _ _ (by omega)]
    congr 2
    omega

theorem encoding_length (x : Bytes) : (encoding x).length = 4 * ((x.length + 2) / 3) := by
  induction x using encoding.induct with
  | case1 => rfl
  | case2 a => simp [encoding, quad_length]
  | case3 a b => simp [encoding, quad_length]
  | case4 a b c rest ih =>
    rw [encoding, List.length_append, quad_length, ih]
    simp only [List.length_cons]
    omega

theorem padLoop_unpadded (x : Bytes) :
    padLoop (4 * ((x.length + 2) / 3)) (modTable.getD (x.length % 3) 0) (unpadded x) = encoding x := by
  induction x using encoding.induct with
  | case1 => rfl
  | case2 a => simp [encoding, unpadded, padLoop, modTable, quad]
  | case3 a b => simp [encoding, unpadded, padLoop, modTable, quad]
  | case4 a b c rest ih =>
    have hlen : (a :: b :: c :: rest).length = rest.length + 3 := by simp
    have hpads : modTable.getD (rest.length % 3) 0 ≤ 4 * ((rest.length + 2) / 3) := by
      have hcases : rest.length % 3 = 0 ∨ rest.length % 3 = 1 ∨ rest.length % 3 = 2 := by omega
      rcases hcases with h | h | h
      · simp [h, modTable]
      · simp [h, modTable]
        omega
      · simp [h, modTable]
        omega
    rw [hlen, show (rest.length + 3) % 3 = rest.length % 3 by omega,
      show 4 * ((rest.length + 3 + 2) / 3) = 4 + 4 * ((rest.length + 2) / 3) by omega,
      unpadded, padLoop_append hpads (quad_length a b c), ih, encoding]

theorem base64Encode_eq (x : Bytes) :
    base64Encode x =
      if x.length ≤ 1610612733 then some ⟨encoding x, (encoding x).length⟩ else none := by
  unfold base64Encode
  dsimp only
  rw [encodeLoop_eq, List.drop_zero, List.nil_append, padLoop_unpadded, encoding_length]
  by_cases hlen : x.length ≤ 1610612733
  · rw [if_neg (by unfold intMax; omega), if_pos hlen]
  · rw [if_pos (by unfold intMax; omega), if_neg hlen]

/-! ## The decoder -/

theorem byteAt_nat (input : Bytes) (i : ℕ) : byteAt input i = input[i]? := by
  rw [byteAt, if_pos (by omega), Int.toNat_natCast]

theorem sextet_cons (h : input.drop i = a :: rest) :
    sextet input i = some (decodingTable.getD a.toNat 0) ∧ input.drop (i + 1) = rest := by
  have hi : i < input.length := by
    by_contra hge
    rw [List.drop_eq_nil_of_le (by omega)] at h
    cases h
  rw [List.drop_eq_getElem_cons hi] at h
  obtain ⟨rfl, hrest⟩ := List.cons.inj h
  refine ⟨?_, hrest⟩
  rw [sextet, byteAt_nat, List.getElem?_eq_getElem hi, Option.map_some]

theorem put_take (n : ℕ) (l : Bytes) (b : ℕ) :
    put n (l.take n) (b &&& 0xFF) = (l ++ [UInt8.ofNat b]).take n := by
  have hb : UInt8.ofNat (b &&& 0xFF) = UInt8.ofNat b := by
    rw [show (0xFF : ℕ) = 2 ^ 8 - 1 from rfl, and_low, ofNat_mod]
  unfold put
  rw [List.length_take, hb]
  by_cases hl : l.length < n
  · rw [if_pos (by omega), List.take_of_length_le (by omega), List.take_of_length_le (by simp; omega)]
  · rw [if_neg (by omega), List.take_append_of_le_length (by omega)]

theorem drop_group (h : (input.length - i) % 4 = 0) (hi : i < input.length) :
    ∃ v w x y rest, input.drop i = v :: w :: x :: y :: rest := by
  have hlen : (input.drop i).length = input.length - i := List.length_drop
  match hd : input.drop i with
  | v :: w :: x :: y :: rest => exact ⟨v, w, x, y, rest, rfl⟩
  | [] | [_] | [_, _] | [_, _, _] =>
    rw [hd] at hlen
    simp only [List.length_cons, List.length_nil] at hlen
    omega

/-- **The loop of the decoder** reads four characters at a time, and writes up to
    `n` bytes. -/
theorem decodeLoop_eq (input : Bytes) (n i : ℕ) (full : Bytes) (h : (input.length - i) % 4 = 0) :
    decodeLoop input n i (full.take n) = some ((full ++ decoding (input.drop i)).take n) := by
  rw [decodeLoop]
  by_cases hi : i < input.length
  · obtain ⟨v, w, x, y, rest, hd⟩ := drop_group h hi
    obtain ⟨h1, hd1⟩ := sextet_cons hd
    obtain ⟨h2, hd2⟩ := sextet_cons hd1
    obtain ⟨h3, hd3⟩ := sextet_cons hd2
    obtain ⟨h4, hd4⟩ := sextet_cons hd3
    rw [if_pos hi, h1, h2, h3, h4]
    simp only [Option.bind_some]
    rw [put_take, put_take, put_take, decodeLoop_eq input n (i + 4) _ (by omega), hd4, hd, decoding]
    simp only [triple, Nat.shiftLeft_eq, Nat.shiftRight_eq_div_pow, List.append_assoc,
      List.cons_append, List.nil_append, pow_zero, Nat.mul_one, Nat.div_one]
  · rw [if_neg hi, List.drop_eq_nil_of_le (by omega)]
    simp [decoding]
termination_by input.length - i

theorem decoding_encoding (x : Bytes) : ∃ zeros, decoding (encoding x) = x ++ zeros := by
  have hpad : decodingTable.getD pad.toNat 0 = 0 := rfl
  induction x using encoding.induct with
  | case1 => exact ⟨[], rfl⟩
  | case2 a =>
    have ha := a.toNat_lt
    have hz : (0 : UInt8).toNat = 0 := rfl
    refine ⟨[0, 0], ?_⟩
    simp only [encoding, quad, List.take_succ_cons, List.take_zero, List.cons_append, List.nil_append,
      decoding, hpad, triple, hz]
    rw [decoding_char _ (by omega), decoding_char _ (by omega)]
    simp only [List.cons.injEq, and_true, ← UInt8.toNat_inj, UInt8.toNat_ofNat', hz]
    refine ⟨?_, ?_, ?_⟩ <;> omega
  | case3 a b =>
    have ha := a.toNat_lt
    have hb := b.toNat_lt
    have hz : (0 : UInt8).toNat = 0 := rfl
    refine ⟨[0], ?_⟩
    simp only [encoding, quad, List.take_succ_cons, List.take_zero, List.cons_append, List.nil_append,
      decoding, hpad, triple, hz]
    rw [decoding_char _ (by omega), decoding_char _ (by omega), decoding_char _ (by omega)]
    simp only [List.cons.injEq, and_true, ← UInt8.toNat_inj, UInt8.toNat_ofNat', hz]
    refine ⟨?_, ?_, ?_⟩ <;> omega
  | case4 a b c rest ih =>
    obtain ⟨zeros, ih⟩ := ih
    exact ⟨zeros, by rw [encoding, decoding_quad, ih]; rfl⟩

theorem quad_chars (a b c : UInt8) :
    ∃ c4 c3 c2 c1, quad a b c = [c4, c3, c2, c1] ∧ c2 ≠ pad ∧ c1 ≠ pad :=
  ⟨_, _, _, _, rfl, char_ne_pad _ (by omega), char_ne_pad _ (by omega)⟩

theorem encoding_end (x : Bytes) (hx : x ≠ []) :
    ∃ pre c2 c1, encoding x = pre ++ [c2, c1] ∧ (c1 = pad ↔ x.length % 3 ≠ 0) ∧
      (c2 = pad ↔ x.length % 3 = 1) := by
  induction x using encoding.induct with
  | case1 => exact absurd rfl hx
  | case2 a => exact ⟨(quad a 0 0).take 2, pad, pad, rfl, by simp, by simp⟩
  | case3 a b =>
    obtain ⟨c4, c3, c2, c1, hq, h2, -⟩ := quad_chars a b 0
    rw [encoding, hq]
    exact ⟨[c4, c3], c2, pad, rfl, by simp, iff_of_false h2 (by simp)⟩
  | case4 a b c rest ih =>
    have hmod : (a :: b :: c :: rest).length % 3 = rest.length % 3 := by
      simp only [List.length_cons]
      omega
    rw [encoding, hmod]
    by_cases hr : rest = []
    · obtain ⟨c4, c3, c2, c1, hq, h2, h1⟩ := quad_chars a b c
      rw [hr, hq]
      exact ⟨[c4, c3], c2, c1, rfl, iff_of_false h1 (by simp), iff_of_false h2 (by simp)⟩
    · obtain ⟨pre, c2, c1, he, h1, h2⟩ := ih hr
      exact ⟨quad a b c ++ pre, c2, c1, by rw [he, List.append_assoc], h1, h2⟩

theorem base64Decode_encoding (x : Bytes) :
    base64Decode (encoding x) = if x = [] then none else some ⟨x, x.length⟩ := by
  by_cases hx : x = []
  · rw [if_pos hx, hx]
    rfl
  · obtain ⟨pre, c2, c1, he, h1, h2⟩ := encoding_end x hx
    obtain ⟨zeros, hz⟩ := decoding_encoding x
    have hlen := encoding_length x
    have hpre : (encoding x).length = pre.length + 2 := by rw [he]; simp
    have hc1 : byteAt (encoding x) ((encoding x).length - 1) = some c1 := by
      rw [show ((encoding x).length - 1 : ℤ) = (pre.length + 1 : ℕ) by omega, byteAt_nat, he]
      simp
    have hc2 : byteAt (encoding x) ((encoding x).length - 2) = some c2 := by
      rw [show ((encoding x).length - 2 : ℤ) = (pre.length : ℕ) by omega, byteAt_nat, he]
      simp
    unfold base64Decode
    dsimp only
    rw [if_neg hx, hc1, Option.bind_some, hc2, Option.bind_some]
    have holen : (if c2 = pad then (if c1 = pad then ((encoding x).length / 4 * 3 : ℤ) - 1
        else (encoding x).length / 4 * 3) - 1
        else if c1 = pad then ((encoding x).length / 4 * 3 : ℤ) - 1
        else (encoding x).length / 4 * 3) = x.length := by
      split_ifs with hp2 hp1 hp1
      all_goals
        rw [h1] at hp1
        rw [h2] at hp2
        omega
    rw [holen]
    have hloop := decodeLoop_eq (encoding x) x.length 0 [] (by omega)
    rw [List.take_nil, List.drop_zero, List.nil_append, hz, List.take_left'] at hloop
    · rw [hloop]
      rfl
    · rfl

/-! ## Canonical strings -/

theorem quad_triple {v w x y : ℕ} (hv : v < 64) (hw : w < 64) (hx : x < 64) (hy : y < 64) :
    ∃ a b c, quad a b c = [char v, char w, char x, char y] ∧
      (y = 0 → x % 2 ^ 2 = 0 → c = 0) ∧ (y = 0 → x = 0 → w % 2 ^ 4 = 0 → b = 0) := by
  refine ⟨UInt8.ofNat (v * 4 + w / 16), UInt8.ofNat (w % 16 * 16 + x / 4),
    UInt8.ofNat (x % 4 * 64 + y), ?_, ?_, ?_⟩
  · unfold quad
    dsimp only
    rw [UInt8.toNat_ofNat', UInt8.toNat_ofNat', UInt8.toNat_ofNat',
      Nat.mod_eq_of_lt (show v * 4 + w / 16 < 2 ^ 8 by omega),
      Nat.mod_eq_of_lt (show w % 16 * 16 + x / 4 < 2 ^ 8 by omega),
      Nat.mod_eq_of_lt (show x % 4 * 64 + y < 2 ^ 8 by omega)]
    congr 1
    · congr 1
      omega
    congr 1
    · congr 1
      omega
    congr 1
    · congr 1
      omega
    congr 2
    omega
  · rintro rfl hx0
    rw [show x % 4 = 0 from hx0]
    rfl
  · rintro rfl rfl hw0
    rw [show w % 16 = 0 from hw0]
    rfl

theorem canonical_iff (s : Bytes) : Canonical s ↔ ∃ x, encoding x = s := by
  constructor
  · intro h
    induction h with
    | nil => exact ⟨[], rfl⟩
    | one hv hw hw0 =>
      obtain ⟨a, b, c, hq, hc, hb⟩ := quad_triple hv hw (show 0 < 64 by decide) (show 0 < 64 by decide)
      rw [hc rfl rfl, hb rfl rfl hw0] at hq
      exact ⟨[a], by rw [encoding, hq]; rfl⟩
    | two hv hw hx hx0 =>
      obtain ⟨a, b, c, hq, hc, -⟩ := quad_triple hv hw hx (show 0 < 64 by decide)
      rw [hc rfl hx0] at hq
      exact ⟨[a, b], by rw [encoding, hq]; rfl⟩
    | group hv hw hx hy _ ih =>
      obtain ⟨a, b, c, hq, -⟩ := quad_triple hv hw hx hy
      obtain ⟨rest, ih⟩ := ih
      exact ⟨a :: b :: c :: rest, by rw [encoding, hq, ih]; rfl⟩
  · rintro ⟨x, rfl⟩
    induction x using encoding.induct with
    | case1 => exact .nil
    | case2 a =>
      have ha := a.toNat_lt
      have hz : (0 : UInt8).toNat = 0 := rfl
      unfold encoding quad
      refine .one ?_ ?_ ?_
      all_goals
        rw [hz]
        omega
    | case3 a b =>
      have ha := a.toNat_lt
      have hb := b.toNat_lt
      have hz : (0 : UInt8).toNat = 0 := rfl
      unfold encoding quad
      refine .two ?_ ?_ ?_ ?_
      all_goals
        rw [hz]
        omega
    | case4 a b c rest ih =>
      have ha := a.toNat_lt
      have hb := b.toNat_lt
      have hc := c.toNat_lt
      unfold encoding quad
      exact .group (by omega) (by omega) (by omega) (by omega) ih

/-! ## The round trips -/

/-- Encoding and then decoding gives back `x` and its length, and each call
    reports the number of bytes that it wrote. -/
def EncodeDecodes (x : Bytes) : Prop :=
  ∃ e d, base64Encode x = some e ∧ e.outputLen = e.output.length ∧
    base64Decode e.output = some d ∧ d.outputLen = d.output.length ∧ d.output = x

/-- Decoding and then encoding gives back `s`. -/
def DecodeEncodes (s : Bytes) : Prop :=
  ∃ d e, base64Decode s = some d ∧ d.outputLen = d.output.length ∧
    base64Encode d.output = some e ∧ e.outputLen = e.output.length ∧ e.output = s

/-- **The round trips** hold exactly for the strings whose encoding has a length
    that is an `int`, and for the canonical strings that are not empty. -/
theorem base64_round_trips_iff (x s : Bytes) :
    (x ≠ [] → x.length ≤ intMax → (EncodeDecodes x ↔ x.length ≤ 1610612733)) ∧
      (Canonical s → s.length ≤ intMax → (DecodeEncodes s ↔ s ≠ [])) := by
  constructor
  · intro hx _
    unfold EncodeDecodes
    rw [base64Encode_eq]
    constructor
    · rintro ⟨e, d, he, -⟩
      by_contra hlen
      rw [if_neg hlen] at he
      cases he
    · intro hlen
      rw [if_pos hlen]
      refine ⟨_, ⟨x, x.length⟩, rfl, rfl, ?_, rfl, rfl⟩
      rw [base64Decode_encoding, if_neg hx]
  · intro hs hlen
    obtain ⟨x, rfl⟩ := (canonical_iff s).1 hs
    have hmax := encoding_length x
    unfold intMax at hlen
    unfold DecodeEncodes
    rw [base64Decode_encoding]
    constructor
    · rintro ⟨d, e, hd, -⟩ hnil
      have hx : x = [] := by
        have := congrArg List.length hnil
        rw [hmax, List.length_nil] at this
        exact List.length_eq_zero_iff.1 (by omega)
      rw [if_pos hx] at hd
      cases hd
    · intro hne
      have hx : x ≠ [] := fun h => hne (by rw [h]; rfl)
      rw [if_neg hx]
      refine ⟨_, ⟨encoding x, (encoding x).length⟩, rfl, rfl, ?_, rfl, rfl⟩
      rw [base64Encode_eq, if_pos]
      dsimp only
      omega

/-- Four bytes, and their encoding. -/
theorem base64_round_trips_four :
    EncodeDecodes [1, 2, 3, 4] ∧ DecodeEncodes [65, 81, 73, 68, 66, 65, 61, 61] := by
  have hboth := base64_round_trips_iff [1, 2, 3, 4] [65, 81, 73, 68, 66, 65, 61, 61]
  have hcanonical : Canonical [65, 81, 73, 68, 66, 65, 61, 61] :=
    (canonical_iff _).2 ⟨[1, 2, 3, 4], by simp [encoding, quad, char, encodingTable, pad]⟩
  exact ⟨(hboth.1 (by simp) (by simp [intMax])).2 (by simp), (hboth.2 hcanonical (by simp [intMax])).2 (by simp)⟩

/-- The empty string is canonical, and the decoder reads the two bytes before it. -/
theorem base64_round_trip_fails :
    ¬ ((∀ x, x ≠ [] → x.length ≤ intMax → EncodeDecodes x) ∧
      ∀ s, Canonical s → s.length ≤ intMax → DecodeEncodes s) := by
  rintro ⟨-, hall⟩
  obtain ⟨d, e, hd, -⟩ := hall [] .nil (Nat.zero_le _)
  cases hd

end Base64
