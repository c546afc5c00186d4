/-
  The round trip of CoAP messages.

  The decoder reads back each option as it is stored (`decode_option`), and adds
  the differences up (`decode_options`).  What it reads is what was added as
  long as `optdelta` loses nothing and no integer is taken for a shorter one;
  the last byte of the datagram and the one behind it matter for a message
  without payload.
-/
import AliOS.Coap.Codec

namespace Coap

open Lib

variable {buf : ℕ → UInt8} {n p ptr base pre : ℕ} {m : CoAPMessage} {o : CoAPMsgOption}

/-! ## Bits and bytes -/

theorem byte_toNat (n : ℕ) : (byte n).toNat = n % 2 ^ 8 := UInt8.toNat_ofNat'

theorem and_low (x k : ℕ) : x &&& (2 ^ k - 1) = x % 2 ^ k := Nat.and_two_pow_sub_one_eq_mod x k

theorem high_nibble {a b : ℕ} (ha : a < 16) (hb : b < 16) : ((a * 16 + b) &&& 0xF0) >>> 4 = a := by
  rw [Nat.shiftRight_and_distrib, show (0xF0 : ℕ) >>> 4 = 2 ^ 4 - 1 from rfl, and_low,
    Nat.shiftRight_eq_div_pow]
  omega

theorem low_nibble {a b : ℕ} (hb : b < 16) : (a * 16 + b) &&& 0x0F = b := by
  rw [show (0x0F : ℕ) = 2 ^ 4 - 1 from rfl, and_low]
  omega

theorem shift_or {a b k : ℕ} (hb : b < 2 ^ k) : a <<< k ||| b = a * 2 ^ k + b := by
  rw [← Nat.shiftLeft_add_eq_or_of_lt hb, Nat.shiftLeft_eq]

theorem high_byte (n : ℕ) : (n &&& 0xFF00) >>> 8 = n / 2 ^ 8 % 2 ^ 8 := by
  rw [Nat.shiftRight_and_distrib, show (0xFF00 : ℕ) >>> 8 = 2 ^ 8 - 1 from rfl, and_low,
    Nat.shiftRight_eq_div_pow]

theorem low_byte (n : ℕ) : n &&& 0x00FF = n % 2 ^ 8 := by
  rw [show (0x00FF : ℕ) = 2 ^ 8 - 1 from rfl, and_low]

/-! ## One option -/

theorem nibble_lt (n : ℕ) : nibble n < 15 := by
  unfold nibble
  split_ifs <;> omega

theorem decode_number (hn : n < 2 ^ 16) (h : Holds buf ptr (extension n)) :
    decodeNumber buf (nibble n) base ptr = ((base + n) % 2 ^ 16, ptr + (extension n).length) := by
  by_cases h1 : 269 ≤ n
  · -- two bytes
    have hnib : nibble n = 14 := if_pos h1
    have hext : extension n = [byte (((n - 269) &&& 0xFF00) >>> 8), byte ((n - 269) &&& 0x00FF)] :=
      if_pos h1
    rw [hext] at h
    obtain ⟨hb1, hb2⟩ := holds_cons.1 h
    obtain ⟨hb2, -⟩ := holds_cons.1 hb2
    unfold decodeNumber
    rw [hnib, hext, if_neg (by decide), if_pos rfl, hb1, hb2, byte_toNat, byte_toNat, high_byte,
      low_byte, Nat.shiftLeft_eq, Nat.mod_mod, Nat.mod_mod, Prod.mk.injEq]
    exact ⟨by omega, rfl⟩
  · by_cases h2 : 13 ≤ n
    · -- one byte
      have hnib : nibble n = 13 := by rw [nibble, if_neg h1, if_pos h2]
      have hext : extension n = [byte (n - 13)] := by rw [extension, if_neg h1, if_pos h2]
      rw [hext] at h
      obtain ⟨hb, -⟩ := holds_cons.1 h
      unfold decodeNumber
      rw [hnib, hext, if_pos rfl, hb, byte_toNat]
      exact Prod.ext (by dsimp only; omega) rfl
    · -- none
      have hnib : nibble n = n := by rw [nibble, if_neg h1, if_neg h2]
      have hext : extension n = [] := by rw [extension, if_neg h1, if_neg h2]
      unfold decodeNumber
      rw [hnib, hext, if_neg (by omega), if_neg (by omega)]
      rfl

theorem range_getD (l : Bytes) : (List.range l.length).map (fun i => l.getD i 0) = l := by
  apply List.ext_getElem
  · simp
  · intro i h1 h2
    simp [h2]

theorem option_byte (o : CoAPMsgOption) :
    (byte (nibble o.num <<< 4 ||| nibble o.len &&& 0x0F)).toNat = nibble o.num * 16 + nibble o.len := by
  have h1 := nibble_lt o.num
  have h2 := nibble_lt o.len
  have hlow : nibble o.len &&& 0x0F = nibble o.len := by
    rw [show (0x0F : ℕ) = 2 ^ 4 - 1 from rfl, and_low, Nat.mod_eq_of_lt (by omega)]
  rw [byte_toNat, hlow, shift_or (by omega)]
  omega

theorem option_ne_marker (o : CoAPMsgOption) :
    byte (nibble o.num <<< 4 ||| nibble o.len &&& 0x0F) ≠ 0xFF := by
  intro h
  have hb := option_byte o
  have h1 := nibble_lt o.num
  have h2 := nibble_lt o.len
  rw [h] at hb
  change 255 = _ at hb
  omega

theorem decode_option (hnum : o.num < 2 ^ 16) (hlen : o.len < 2 ^ 16) (hval : o.val.length = o.len)
    (h : Holds buf ptr (coapSerializeOption o)) :
    coapDeserializeOption buf ptr pre =
      (⟨(pre + o.num) % 2 ^ 16, o.len, o.val⟩, (coapSerializeOption o).length) := by
  have hrange : (List.range o.len).map (fun i => o.val.getD i 0) = o.val := by
    rw [← hval, range_getD]
  unfold coapSerializeOption at h ⊢
  rw [hrange] at h ⊢
  rw [holds_append, List.cons_append, holds_cons, holds_append] at h
  obtain ⟨⟨hb, hn, hl⟩, hv⟩ := h
  have h1 := nibble_lt o.num
  have h2 := nibble_lt o.len
  unfold coapDeserializeOption
  rw [hb, option_byte, high_nibble (by omega) (by omega), low_nibble (by omega)]
  dsimp only
  rw [decode_number hnum hn]
  rw [decode_number hlen hl, Nat.zero_add, Nat.mod_eq_of_lt hlen]
  have hslice : slice buf (ptr + 1 + (extension o.num).length + (extension o.len).length) o.len = o.val := by
    have hv' := hv
    simp only [List.length_cons, List.length_append] at hv'
    unfold Holds at hv'
    rw [hval] at hv'
    rw [← hv']
    congr 1
    omega
  rw [hslice]
  refine Prod.ext rfl ?_
  simp only [List.cons_append, List.length_cons, List.length_append, hval]
  omega

/-! ## All options -/

/-- The options with their differences added up from `pre` on. -/
def summed (pre : ℕ) : List CoAPMsgOption → List CoAPMsgOption
  | [] => []
  | o :: os => ⟨(pre + o.num) % 2 ^ 16, o.len, o.val⟩ :: summed ((pre + o.num) % 2 ^ 16) os

/-- An option that the encoder can write. -/
def Writable (o : CoAPMsgOption) : Prop :=
  o.num < 2 ^ 16 ∧ o.len < 2 ^ 16 ∧ o.val.length = o.len

theorem option_length_pos (o : CoAPMsgOption) : 0 < (coapSerializeOption o).length := by
  unfold coapSerializeOption
  simp

theorem decode_options {os : List CoAPMsgOption} (hw : ∀ o ∈ os, Writable o) {buflen : ℤ} {count : ℕ}
    (h : Holds buf ptr (os.flatMap coapSerializeOption))
    (hshort : (os.flatMap coapSerializeOption).length < 2 ^ 16)
    (hle : (count + (os.flatMap coapSerializeOption).length : ℤ) ≤ buflen)
    (hend : (count + (os.flatMap coapSerializeOption).length : ℤ) = buflen ∨
      buf (ptr + (os.flatMap coapSerializeOption).length) = 0xFF) (fuel : ℕ) :
    coapDeserializeOptions buf buflen (os.length + 1 + fuel) ptr count pre =
      some (summed pre os, ptr + (os.flatMap coapSerializeOption).length) := by
  induction os generalizing ptr count pre with
  | nil =>
    have hfuel : ([] : List CoAPMsgOption).length + 1 + fuel = fuel + 1 := by simp [Nat.add_comm]
    rw [hfuel, coapDeserializeOptions, if_neg ?_]
    · rfl
    · rintro ⟨hlt, hne⟩
      simp only [List.flatMap_nil, List.length_nil, add_zero] at hend
      rcases hend with he | he
      · omega
      · exact hne he
  | cons o os ih =>
    obtain ⟨⟨hnum, hlen, hval⟩, hw⟩ := List.forall_mem_cons.1 hw
    rw [List.flatMap_cons] at h hle hend hshort ⊢
    rw [List.length_append] at hle hend hshort ⊢
    obtain ⟨ho, hos⟩ := holds_append.1 h
    have hpos := option_length_pos o
    have hfirst : buf ptr ≠ 0xFF := by
      have hb : buf ptr = byte (nibble o.num <<< 4 ||| nibble o.len &&& 0x0F) := by
        unfold coapSerializeOption at ho
        rw [List.cons_append, List.cons_append, holds_cons] at ho
        exact ho.1
      rw [hb]
      exact option_ne_marker o
    have hfuel : (o :: os).length + 1 + fuel = (os.length + 1 + fuel) + 1 := by
      rw [List.length_cons]
      omega
    rw [hfuel, coapDeserializeOptions, if_pos ⟨by push_cast at hle; omega, hfirst⟩,
      decode_option hnum hlen hval ho]
    dsimp only
    rw [Nat.mod_eq_of_lt (show (coapSerializeOption o).length < 2 ^ 16 by omega),
      ih hw hos (by omega) (by push_cast at hle ⊢; omega) ?_]
    · rw [Option.map_some, summed, Nat.add_assoc]
    · rw [Nat.add_assoc]
      refine hend.imp_left fun he => ?_
      push_cast at he ⊢
      omega

/-! ## The encoding of a message -/

theorem serializeOptionsLoop_eq {os : List CoAPMsgOption} {count : ℕ} {bytes : Bytes}
    (h : count + (os.flatMap coapSerializeOption).length < 2 ^ 16) :
    serializeOptionsLoop os count bytes =
      (count + (os.flatMap coapSerializeOption).length, bytes ++ os.flatMap coapSerializeOption) := by
  induction os generalizing count bytes with
  | nil => simp [serializeOptionsLoop]
  | cons o os ih =>
    have hpos := option_length_pos o
    rw [List.flatMap_cons, List.length_append] at h ⊢
    unfold serializeOptionsLoop
    dsimp only
    rw [Nat.mod_eq_of_lt (show (coapSerializeOption o).length < 2 ^ 16 by omega), if_pos hpos,
      Nat.mod_eq_of_lt (show count + (coapSerializeOption o).length < 2 ^ 16 by omega),
      ih (by omega), Nat.add_assoc, List.append_assoc]

/-- The bytes of a header. -/
def headerBytes (h : CoAPMsgHeader) : Bytes :=
  [byte ((h.version &&& 0x3) <<< 6 ||| (h.type &&& 0x3) <<< 4 ||| (h.tokenlen &&& 0x0F)),
    byte h.code, byte ((h.msgid &&& 0xFF00) >>> 8), byte (h.msgid &&& 0x00FF)]

/-- The encoding: all bytes that belong to the message. -/
def encoding (m : CoAPMessage) : Bytes :=
  headerBytes m.header ++ m.token ++ m.options.flatMap coapSerializeOption ++
    if m.payload = [] then [] else 0xFF :: m.payload

variable {fills : List Fill}

theorem subShort_le {a k : ℕ} (h : k ≤ a) (ha : a < 2 ^ 16) : subShort a k = a - k := by
  unfold subShort
  omega

theorem encoding_length (m : CoAPMessage) :
    (encoding m).length = 4 + m.token.length + (m.options.flatMap coapSerializeOption).length +
      if m.payload = [] then 0 else m.payload.length + 1 := by
  unfold encoding headerBytes
  rw [List.length_append, List.length_append, List.length_append]
  split_ifs <;> simp

/-- The length the encoder returns: the payload takes a remaining length of 0 for
    an error, also where there is none to write. -/
def returned (m : CoAPMessage) : ℕ :=
  if m.payload = [] ∧ (encoding m).length = maxPduLen then maxPduLen - 1 else (encoding m).length

theorem serialize_message (hb : Built fills m) (hfit : (encoding m).length ≤ maxPduLen) :
    coapSerializeMessage m maxPduLen = ((returned m : ℤ), encoding m) := by
  have hlen := encoding_length m
  have hl := hb.tokenlen
  have htok : coapSerializeToken m 1276 = (m.token.length, m.token) := by
    have h12 := hb.token
    unfold maxTokenLen at h12
    unfold coapSerializeToken
    rw [if_neg (by omega), hl, range_getD]
  have hrem : subShort 1280 ((4 : ℕ) : ℤ) = 1276 := subShort_le (by decide) (by decide)
  have hhead : coapSerializeHeader m 1280 = (4, headerBytes m.header) := rfl
  unfold returned
  unfold maxPduLen at hfit ⊢
  unfold coapSerializeMessage
  dsimp only
  rw [hhead]
  rw [hrem, htok]
  dsimp only
  have hrem2 : subShort 1276 (m.token.length : ℤ) = 1276 - m.token.length :=
    subShort_le (by omega) (by decide)
  have hopts : coapSerializeOptions m =
      ((m.options.flatMap coapSerializeOption).length, m.options.flatMap coapSerializeOption) := by
    have hloop := @serializeOptionsLoop_eq m.options 0 [] (by omega)
    rwa [Nat.zero_add, List.nil_append] at hloop
  rw [hopts]
  dsimp only
  rw [hrem2, subShort_le (by omega) (by omega)]
  by_cases hp : m.payload = []
  · rw [if_pos hp, Nat.add_zero] at hlen
    have hpl : m.payload.length = 0 := by rw [hp]; rfl
    have henc : headerBytes m.header ++ m.token ++ m.options.flatMap coapSerializeOption ++ [] =
        encoding m := by
      unfold encoding
      rw [if_pos hp]
    unfold coapSerializePayload
    by_cases hfull : (encoding m).length = 1280
    · -- nothing remains, and the error goes into the length
      rw [if_pos (by omega), if_pos ⟨hp, hfull⟩]
      dsimp only
      rw [henc]
      refine Prod.ext ?_ rfl
      dsimp only [subShort]
      omega
    · rw [if_neg (by omega), if_neg (by omega), if_neg (fun h => hfull h.2)]
      dsimp only
      rw [henc]
      refine Prod.ext ?_ rfl
      dsimp only [subShort]
      omega
  · have hpl := List.length_pos_of_ne_nil hp
    rw [if_neg hp] at hlen
    unfold coapSerializePayload
    rw [if_neg (by omega), if_pos hpl, if_neg (fun h => hp h.1)]
    refine Prod.ext ?_ ?_
    · dsimp only [subShort]
      omega
    · unfold encoding
      rw [if_neg hp]

theorem datagram_eq (hb : Built fills m) (hfit : (encoding m).length ≤ maxPduLen) :
    datagram m = (encoding m).take (returned m) := by
  unfold datagram
  rw [serialize_message hb hfit]
  rfl

/-! ## The header -/

theorem decode_header (hb : Built fills m) (h : Holds buf 0 (encoding m)) :
    coapDeserializeHeader buf = m.header := by
  unfold encoding headerBytes at h
  simp only [List.cons_append, holds_cons] at h
  obtain ⟨h₀, h1, h2, h3, -⟩ := h
  have hv := hb.version
  have ht := hb.type
  have hk := hb.tokenlen
  have hk' := hb.token
  have hc := hb.code
  have hi := hb.msgid
  unfold maxTokenLen at hk'
  rcases hm : m.header with ⟨version, type, tokenlen, code, msgid⟩
  rw [hm] at hv ht hk hc hi h₀ h1 h2 h3
  dsimp only at hv ht hk hc hi h₀ h1 h2 h3
  subst hv
  have hb0 : (buf 0).toNat = 64 + type * 16 + tokenlen := by
    rw [h₀, byte_toNat, show (0x3 : ℕ) = 2 ^ 2 - 1 from rfl, show (0x0F : ℕ) = 2 ^ 4 - 1 from rfl,
      and_low, and_low, and_low, Nat.mod_eq_of_lt (show tokenlen < 2 ^ 4 by omega),
      Nat.mod_eq_of_lt (show type < 2 ^ 2 from ht), Nat.or_assoc, shift_or (show tokenlen < 2 ^ 4 by omega),
      shift_or (by omega)]
    omega
  unfold coapDeserializeHeader
  rw [show 0 + 1 = 1 from rfl] at h1 h2 h3
  rw [hb0, h1, h2, h3, byte_toNat, byte_toNat, byte_toNat, high_byte, low_byte,
    show (0x3 : ℕ) = 2 ^ 2 - 1 from rfl, show (0x0F : ℕ) = 2 ^ 4 - 1 from rfl, and_low, and_low,
    and_low, Nat.shiftLeft_eq, Nat.shiftRight_eq_div_pow, Nat.shiftRight_eq_div_pow]
  congr 1
  all_goals omega

/-! ## The whole message -/

theorem flatMap_length_le (os : List CoAPMsgOption) :
    os.length ≤ (os.flatMap coapSerializeOption).length := by
  induction os with
  | nil => exact le_rfl
  | cons o os ih =>
    have := option_length_pos o
    rw [List.flatMap_cons, List.length_append, List.length_cons]
    omega

/-- The payload that the decoder finds: without a marker in the encoding it reads
    the byte behind the datagram. -/
def decodedPayload (buf : ℕ → UInt8) (m : CoAPMessage) : Bytes :=
  if m.payload = [] ∧ buf (encoding m).length = 0xFF then slice buf ((encoding m).length + 1) (2 ^ 16 - 1)
  else m.payload

/-- The message that the decoder finds. -/
def decoded (buf : ℕ → UInt8) (m : CoAPMessage) : CoAPMessage where
  header := m.header
  token := m.token
  options := summed 0 m.options
  optdelta := 0
  payload := decodedPayload buf m
  handler := false

theorem deserialize_encoding (hb : Built fills m) (hw : ∀ o ∈ m.options, Writable o)
    (hfit : (encoding m).length ≤ maxPduLen) (h : Holds buf 0 (encoding m)) :
    coapDeserializeMessage buf (encoding m).length = some (.success, decoded buf m) := by
  have hlen := encoding_length m
  have hheader := decode_header hb h
  have hl := hb.tokenlen
  have hcount := flatMap_length_le m.options
  unfold maxPduLen at hfit
  have hsplit := h
  unfold encoding at hsplit
  rw [holds_append, holds_append, holds_append] at hsplit
  obtain ⟨⟨⟨-, htoken⟩, hopts⟩, hpay⟩ := hsplit
  have h4 : (headerBytes m.header).length = 4 := rfl
  simp only [List.length_append, h4, Nat.zero_add] at htoken hopts hpay
  have hoptions : ∀ k, coapDeserializeOptions buf ((encoding m).length - (4 + m.token.length : ℕ))
      (m.options.length + 1 + k) (4 + m.token.length) 0 0 =
      some (summed 0 m.options,
        4 + m.token.length + (m.options.flatMap coapSerializeOption).length) := by
    refine decode_options hw hopts (by omega) ?_ ?_
    · split_ifs at hlen <;> push_cast <;> omega
    · by_cases hp : m.payload = []
      · rw [if_pos hp] at hlen
        exact .inl (by push_cast; omega)
      · rw [if_neg hp] at hpay
        exact .inr (holds_cons.1 hpay).1
  obtain ⟨k, hk⟩ : ∃ k, (encoding m).length + 1 = m.options.length + 1 + k :=
    ⟨(encoding m).length - m.options.length, by omega⟩
  unfold coapDeserializeMessage
  rw [if_neg (by omega), hheader]
  dsimp only
  rw [hl, hk, hoptions k, Option.map_some]
  have htok : slice buf 4 m.token.length = m.token := htoken
  have hpayload : coapDeserializePayload buf (4 + m.token.length + (m.options.flatMap coapSerializeOption).length)
      ((encoding m).length - (4 + m.token.length : ℕ) -
        ((4 + m.token.length + (m.options.flatMap coapSerializeOption).length : ℕ) -
          (4 + m.token.length : ℕ))) = decodedPayload buf m := by
    unfold coapDeserializePayload decodedPayload
    by_cases hp : m.payload = []
    · rw [if_pos hp, Nat.add_zero] at hlen
      rw [hlen]
      by_cases hff : buf (4 + m.token.length + (m.options.flatMap coapSerializeOption).length) = 0xFF
      · rw [if_pos hff, if_pos ⟨hp, hff⟩]
        congr 1
        push_cast
        omega
      · rw [if_neg hff, if_neg (fun h => hff h.2), hp]
    · rw [if_neg hp] at hlen hpay
      obtain ⟨hff, hbytes⟩ := holds_cons.1 hpay
      rw [if_pos hff, if_neg (fun h => hp h.1)]
      have hn : (((encoding m).length - (4 + m.token.length : ℕ) -
        ((4 + m.token.length + (m.options.flatMap coapSerializeOption).length : ℕ) -
          (4 + m.token.length : ℕ)) - 1 : ℤ) % 2 ^ 16).toNat = m.payload.length := by
        push_cast
        omega
      rw [hn]
      exact hbytes
  rw [htok, hpayload]
  rfl

/-! ## What is decoded, and what was added -/

/-- The number that bytes in big-endian order stand for. -/
def beValue (l : Bytes) : ℕ := l.foldl (fun v b => v * 2 ^ 8 + b.toNat) 0

/-- A decoded option is the option added: its number, and its data or the
    big-endian bytes of its value. -/
def Matches (a : ℕ × OptData) (o : CoAPMsgOption) : Prop :=
  o.num = a.1 ∧ o.len = o.val.length ∧
    match a.2 with
    | .str data => o.val = data
    | .uint data => beValue o.val = data.toNat

theorem beValue_uintBytes (n : ℕ) (hn : n < 2 ^ 32) : beValue (uintBytes n) = n ↔ n ≠ 256 := by
  unfold uintBytes beValue
  split_ifs with h₀ h1 h2
  all_goals
    simp only [List.foldl_nil, List.foldl_cons, byte_toNat]
    omega

theorem optionDelta_lt (a q : ℕ) : optionDelta a q < 2 ^ 16 := Nat.mod_lt _ (by decide)

theorem sum_delta {q a : ℕ} (hq : q < 2 ^ 16) (ha : a < 2 ^ 16) :
    (q + optionDelta a (q % 2 ^ 8)) % 2 ^ 16 = a ↔ q < 256 := by
  unfold optionDelta
  omega

theorem matches_iff {q : ℕ} {a : ℕ × OptData} (hq : q < 2 ^ 16) (ha : a.1 < 2 ^ 16) :
    Matches a ⟨(q + optionDelta a.1 (q % 2 ^ 8)) % 2 ^ 16, a.2.bytes.length, a.2.bytes⟩ ↔
      q < 256 ∧ a.2 ≠ .uint 256 := by
  unfold Matches
  rw [sum_delta hq ha]
  refine and_congr_right fun _ => ?_
  rcases a with ⟨n, data | data⟩
  · simp [OptData.bytes]
  · have hval := beValue_uintBytes data.toNat data.toNat_lt
    have h256 : data.toNat ≠ 256 ↔ data ≠ 256 := not_congr (UInt32.toNat_inj (b := 256))
    simp only [OptData.bytes, hval, h256, true_and, Ne, OptData.uint.injEq]

theorem mem_dropLast_cons {α : Type*} {a x : α} {l : List α} :
    x ∈ (a :: l).dropLast ↔ x = a ∧ l ≠ [] ∨ x ∈ l.dropLast := by
  cases l <;> simp

/-- **The options**: they are decoded as added exactly if all but the last have
    numbers that 8 bits keep, and no integer is 256. -/
theorem options_match_iff {os : List (ℕ × OptData)} {q : ℕ} (hq : q < 2 ^ 16)
    (hnum : ∀ a ∈ os, a.1 < 2 ^ 16) (hs : (q :: os.map Prod.fst).Pairwise (· ≤ ·)) :
    List.Forall₂ Matches os (summed q (stored (q % 2 ^ 8) os)) ↔
      (os ≠ [] → q < 256) ∧ (∀ a ∈ os.dropLast, a.1 < 256) ∧ ∀ a ∈ os, a.2 ≠ .uint 256 := by
  induction os generalizing q with
  | nil => simp [stored, summed]
  | cons a os ih =>
    obtain ⟨ha, hnum⟩ := List.forall_mem_cons.1 hnum
    obtain ⟨-, hs⟩ := List.pairwise_cons.1 hs
    unfold stored summed
    rw [List.forall₂_cons, matches_iff hq ha]
    have hdrop : (∀ x ∈ (a :: os).dropLast, x.1 < 256) ↔
        (os ≠ [] → a.1 < 256) ∧ ∀ x ∈ os.dropLast, x.1 < 256 := by
      simp only [mem_dropLast_cons]
      constructor
      · exact fun h => ⟨fun hne => h a (.inl ⟨rfl, hne⟩), fun x hx => h x (.inr hx)⟩
      · rintro ⟨h1, h2⟩ x (⟨rfl, hne⟩ | hx)
        · exact h1 hne
        · exact h2 x hx
    rw [hdrop, List.forall_mem_cons]
    constructor
    · rintro ⟨⟨hlt, hgood⟩, hrest⟩
      rw [(sum_delta hq ha).2 hlt, ih ha hnum hs] at hrest
      exact ⟨fun _ => hlt, ⟨hrest.1, hrest.2.1⟩, hgood, hrest.2.2⟩
    · rintro ⟨hlt, ⟨h1, h2⟩, hgood, h3⟩
      have hlt := hlt (List.cons_ne_nil a os)
      refine ⟨⟨hlt, hgood⟩, ?_⟩
      rw [(sum_delta hq ha).2 hlt, ih ha hnum hs]
      exact ⟨h1, h2, h3⟩

theorem added_lt {a : ℕ × OptData} (ha : a ∈ added fills) : a.1 < 2 ^ 16 := by
  obtain ⟨f, -, hf⟩ := List.mem_filterMap.1 ha
  cases f with
  | option num data =>
    cases hf
    exact num.toNat_lt
  | _ => cases hf

theorem len_le_serializeOption (o : CoAPMsgOption) : o.len ≤ (coapSerializeOption o).length := by
  unfold coapSerializeOption
  rw [List.length_append, List.length_map, List.length_range]
  exact Nat.le_add_left _ _

theorem stored_writable {os : List (ℕ × OptData)} {prev : ℕ}
    (hlen : ((stored prev os).flatMap coapSerializeOption).length < 2 ^ 16) :
    ∀ o ∈ stored prev os, Writable o := by
  induction os generalizing prev with
  | nil => simp [stored]
  | cons a os ih =>
    unfold stored at hlen ⊢
    rw [List.flatMap_cons, List.length_append] at hlen
    have hopt : a.2.bytes.length ≤ _ := len_le_serializeOption ⟨optionDelta a.1 prev, a.2.bytes.length, a.2.bytes⟩
    exact List.forall_mem_cons.2 ⟨⟨optionDelta_lt .., by dsimp only; omega, rfl⟩, ih (by omega)⟩

/-! ## The round trip -/

/-- The receive buffer with the datagram in it. -/
def received (recvbuf : ℕ → UInt8) (dg : Bytes) : ℕ → UInt8 :=
  memcpy recvbuf 0 (fun i => dg.getD i 0) dg.length

/-- The decoder yields the message from its datagram. -/
def Decodes (fills : List Fill) (recvbuf : ℕ → UInt8) : Prop :=
  let m := build fills
  let dg := datagram m
  ∃ d, coapDeserializeMessage (received recvbuf dg) dg.length = some (.success, d) ∧
    d.header = m.header ∧ d.token = m.token ∧ List.Forall₂ Matches (added fills) d.options ∧
    d.payload = m.payload

/-- The datagram has all bytes of the encoding, and the decoder yields the message. -/
def RoundTrips (fills : List Fill) (recvbuf : ℕ → UInt8) : Prop :=
  (datagram (build fills)).length = (encoding (build fills)).length ∧ Decodes fills recvbuf

/-- The messages in question: at most 12 options in order, and an encoding that
    fits. -/
structure Encodable (fills : List Fill) : Prop where
  count : (added fills).length ≤ maxOptionNum
  sorted : ((added fills).map Prod.fst).Pairwise (· ≤ ·)
  fits : (encoding (build fills)).length ≤ maxPduLen

/-- **The condition**: all options but the last have numbers below 256, no integer
    is 256, and without a payload the encoding does not fill the buffer, and no
    0xFF lies behind it in the receive buffer. -/
structure Sound (fills : List Fill) (recvbuf : ℕ → UInt8) : Prop where
  numbers : ∀ a ∈ (added fills).dropLast, a.1 < 256
  values : ∀ a ∈ added fills, a.2 ≠ .uint 256
  behind : (build fills).payload = [] →
    (encoding (build fills)).length < maxPduLen ∧ recvbuf (encoding (build fills)).length ≠ 0xFF

variable {recvbuf : ℕ → UInt8}

theorem datagram_length (h : Encodable fills) :
    (datagram (build fills)).length = returned (build fills) := by
  rw [datagram_eq (built fills h.count) h.fits, List.length_take, Nat.min_eq_left]
  unfold returned
  split_ifs with hp
  · omega
  · exact le_rfl

theorem decodes_iff (h : Encodable fills)
    (hdg : (datagram (build fills)).length = (encoding (build fills)).length) :
    Decodes fills recvbuf ↔
      List.Forall₂ Matches (added fills) (summed 0 (stored 0 (added fills))) ∧
        decodedPayload (received recvbuf (encoding (build fills))) (build fills) = (build fills).payload := by
  have hb := built fills h.count
  have hret := datagram_length h
  have heq : datagram (build fills) = encoding (build fills) := by
    rw [datagram_eq hb h.fits, ← hret, hdg, List.take_length]
  have hshort : ((build fills).options.flatMap coapSerializeOption).length < 2 ^ 16 := by
    have hlen := encoding_length (build fills)
    have hfit := h.fits
    unfold maxPduLen at hfit
    omega
  have hw : ∀ o ∈ (build fills).options, Writable o := by
    rw [hb.options] at hshort ⊢
    exact stored_writable hshort
  have hin : Holds (received recvbuf (encoding (build fills))) 0 (encoding (build fills)) :=
    holds_memcpy_same 0
  have hd := deserialize_encoding hb hw h.fits hin
  unfold Decodes
  dsimp only
  rw [heq, hd]
  constructor
  · rintro ⟨d, he, -, -, hopts, hpay⟩
    cases he
    rw [← hb.options]
    exact ⟨hopts, hpay⟩
  · rintro ⟨hopts, hpay⟩
    refine ⟨_, rfl, rfl, rfl, ?_, hpay⟩
    unfold decoded
    rw [hb.options]
    exact hopts

theorem decodedPayload_iff :
    decodedPayload (received recvbuf (encoding m)) m = m.payload ↔
      (m.payload = [] → recvbuf (encoding m).length ≠ 0xFF) := by
  have hbehind : received recvbuf (encoding m) (encoding m).length = recvbuf (encoding m).length :=
    memcpy_out (.inr (Nat.zero_add _).le)
  unfold decodedPayload
  rw [hbehind]
  split_ifs with hp
  · rw [hp.1]
    refine iff_of_false (fun h => ?_) fun h => h rfl hp.2
    have := congrArg List.length h
    rw [slice_length] at this
    exact absurd this (by decide)
  · exact iff_of_true rfl fun hnil hff => hp ⟨hnil, hff⟩

/-- **The CoAP round trip** holds exactly under the condition. -/
theorem coap_round_trips_iff (h : Encodable fills) (recvbuf : ℕ → UInt8) :
    RoundTrips fills recvbuf ↔ Sound fills recvbuf := by
  have hret := datagram_length h
  have hopts := options_match_iff (q := 0) (by decide) (fun a ha => added_lt ha)
    (List.pairwise_cons.2 ⟨fun _ _ => Nat.zero_le _, h.sorted⟩)
  have hfull : (datagram (build fills)).length = (encoding (build fills)).length ↔
      ((build fills).payload = [] → (encoding (build fills)).length < maxPduLen) := by
    have hfit := h.fits
    unfold maxPduLen at hfit
    rw [hret]
    unfold returned maxPduLen
    split_ifs with hp
    · exact iff_of_false (by omega) fun hlt => by
        have := hlt hp.1
        omega
    · exact iff_of_true rfl fun hnil => lt_of_le_of_ne hfit fun he => hp ⟨hnil, he⟩
  unfold RoundTrips
  constructor
  · rintro ⟨hdg, hd⟩
    obtain ⟨ho, hp⟩ := (decodes_iff h hdg).1 hd
    obtain ⟨-, h1, h2⟩ := hopts.1 ho
    exact ⟨h1, h2, fun hnil => ⟨hfull.1 hdg hnil, decodedPayload_iff.1 hp hnil⟩⟩
  · rintro ⟨h1, h2, h3⟩
    have hdg := hfull.2 fun hnil => (h3 hnil).1
    refine ⟨hdg, (decodes_iff h hdg).2 ⟨hopts.2 ⟨fun _ => by decide, h1, h2⟩, ?_⟩⟩
    exact decodedPayload_iff.2 fun hnil => (h3 hnil).2

/-- A request with a path and an integer option. -/
theorem coap_round_trips_iff_request :
    RoundTrips [.type 0, .code 1, .msgid 7, .option 11 (.str [0x61]), .option 12 (.uint 50)]
      (fun _ => 0) :=
  (coap_round_trips_iff ⟨by decide, by decide, by decide⟩ _).2
    ⟨by decide, by simp [added], fun _ => ⟨by decide, by decide⟩⟩

/-- An integer option of value 256 is sent as 0. -/
theorem coap_round_trip_fails : ¬ ∀ fills recvbuf, Encodable fills → Decodes fills recvbuf := by
  intro hall
  have h : Encodable [.option 12 (.uint 256), .payload [1]] := ⟨by decide, by decide, by decide⟩
  have hd := ((decodes_iff h (by decide)).1 (hall _ (fun _ => 0) h)).1
  change List.Forall₂ Matches (_ :: []) (_ :: []) at hd
  exact absurd (List.forall₂_cons.1 hd).1.2.2 (by decide)

end Coap
