/-
  The CoAP wire format: `CoAPSerialize.c` and `CoAPDeserialize.c`.

  The encoder writes behind a pointer that only goes on, so it is given by the
  bytes each function writes and by the count it returns.  The decoder reads a
  buffer that the datagram is the beginning of.
-/
import AliOS.Coap.Message
import AliOS.Lib.Cells

namespace Coap

open Lib

/-- The byte of a number, as stored through an `unsigned char *`. -/
abbrev byte (n : ℕ) : UInt8 := UInt8.ofNat n

/-! ## The encoder -/

/-- `CoAPSerialize_Header`: the count and the bytes. -/
def coapSerializeHeader (m : CoAPMessage) (buflen : ℕ) : ℕ × Bytes :=
  if 4 > buflen then (0, [])
  else
    let h := m.header
    (4, [byte ((h.version &&& 0x3) <<< 6 ||| (h.type &&& 0x3) <<< 4 ||| (h.tokenlen &&& 0x0F)),
      byte h.code, byte ((h.msgid &&& 0xFF00) >>> 8), byte (h.msgid &&& 0x00FF)])

def coapSerializeToken (m : CoAPMessage) (buflen : ℕ) : ℕ × Bytes :=
  if buflen < m.header.tokenlen then (0, [])
  else (m.header.tokenlen, (List.range m.header.tokenlen).map fun i => m.token.getD i 0)

/-- The four bits for a number, and the bytes that go with them. -/
def nibble (n : ℕ) : ℕ := if 269 ≤ n then 14 else if 13 ≤ n then 13 else n

def extension (n : ℕ) : Bytes :=
  if 269 ≤ n then [byte (((n - 269) &&& 0xFF00) >>> 8), byte ((n - 269) &&& 0x00FF)]
  else if 13 ≤ n then [byte (n - 13)]
  else []

def coapSerializeOption (o : CoAPMsgOption) : Bytes :=
  byte (nibble o.num <<< 4 ||| nibble o.len &&& 0x0F) :: extension o.num ++ extension o.len ++
    (List.range o.len).map fun i => o.val.getD i 0

/-- The loop of `CoAPSerialize_Options`; the lengths are `unsigned short`s, and it
    ends with 0 at an option whose length is 0 in 16 bits. -/
def serializeOptionsLoop : List CoAPMsgOption → ℕ → Bytes → ℕ × Bytes
  | [], count, bytes => (count, bytes)
  | o :: os, count, bytes =>
    let option := coapSerializeOption o
    let len := option.length % 2 ^ 16
    if 0 < len then serializeOptionsLoop os ((count + len) % 2 ^ 16) (bytes ++ option)
    else (0, bytes ++ option)

def coapSerializeOptions (m : CoAPMessage) : ℕ × Bytes := serializeOptionsLoop m.options 0 []

/-- `CoAPSerialize_Payload`; the count is an `int`. -/
def coapSerializePayload (m : CoAPMessage) (buflen : ℕ) : ℤ × Bytes :=
  if m.payload.length + 1 > buflen then (-1, [])
  else if m.payload.length > 0 then (m.payload.length + 1, 0xFF :: m.payload)
  else (0, [])

/-- `remlen - count` of two `unsigned short`s; `count` is the result of the
    function before, cut to 16 bits. -/
def subShort (remlen : ℕ) (count : ℤ) : ℕ := ((remlen - count) % 2 ^ 16).toNat

/-- `CoAPSerialize_Message`: the length returned, and the bytes written. -/
def coapSerializeMessage (m : CoAPMessage) (buflen : ℕ) : ℤ × Bytes :=
  let remlen := buflen
  let (count, bytes₁) := coapSerializeHeader m remlen
  let remlen := subShort remlen count
  let (count, bytes₂) := coapSerializeToken m remlen
  let remlen := subShort remlen count
  let (count, bytes₃) := coapSerializeOptions m
  let remlen := subShort remlen count
  let (count, bytes₄) := coapSerializePayload m remlen
  let remlen := subShort remlen count
  ((buflen : ℤ) - remlen, bytes₁ ++ bytes₂ ++ bytes₃ ++ bytes₄)

/-- The datagram: the bytes written, up to the length returned. -/
def datagram (m : CoAPMessage) : Bytes :=
  (coapSerializeMessage m maxPduLen).2.take (coapSerializeMessage m maxPduLen).1.toNat

def coapSerializeOptionLen (o : CoAPMsgOption) : ℕ :=
  let len := 1
  let len := if 269 ≤ o.num then len + 2 else if 13 ≤ o.num then len + 1 else len
  let len := if 269 ≤ o.len then len + 2 else if 13 ≤ o.len then len + 1 else len
  (len + o.len) % 2 ^ 16

/-- The loop of `CoAPSerialize_OptionsLen`, as that of `CoAPSerialize_Options`. -/
def optionsLenLoop : List CoAPMsgOption → ℕ → ℕ
  | [], count => count
  | o :: os, count =>
    let len := coapSerializeOptionLen o
    if 0 < len then optionsLenLoop os ((count + len) % 2 ^ 16) else 0

def coapSerializeOptionsLen (m : CoAPMessage) : ℕ := optionsLenLoop m.options 0

def coapSerializeMessageLength (m : CoAPMessage) : ℕ :=
  let msglen := 4 + m.header.tokenlen + coapSerializeOptionsLen m
  (if 0 < m.payload.length then msglen + m.payload.length + 1 else msglen) % 2 ^ 16

/-! ## The decoder -/

def coapDeserializeHeader (buf : ℕ → UInt8) : CoAPMsgHeader where
  version := ((buf 0).toNat >>> 6) &&& 0x03
  type := ((buf 0).toNat >>> 4) &&& 0x03
  tokenlen := (buf 0).toNat &&& 0x0F
  code := (buf 1).toNat
  msgid := ((buf 2).toNat <<< 8 + (buf 3).toNat) % 2 ^ 16

/-- The number that four bits and the bytes at `ptr` stand for, over `base`, and
    the pointer behind these bytes. -/
def decodeNumber (buf : ℕ → UInt8) (nib base ptr : ℕ) : ℕ × ℕ :=
  if nib = 13 then ((base + 13 + (buf ptr).toNat) % 2 ^ 16, ptr + 1)
  else if nib = 14 then
    ((base + 269 + (buf ptr).toNat <<< 8 + (buf (ptr + 1)).toNat) % 2 ^ 16, ptr + 2)
  else ((base + nib) % 2 ^ 16, ptr)

/-- `CoAPDeserialize_Option` at `ptr`: the option, and the count. -/
def coapDeserializeOption (buf : ℕ → UInt8) (ptr predelta : ℕ) : CoAPMsgOption × ℕ :=
  let optdelta := ((buf ptr).toNat &&& 0xF0) >>> 4
  let optlen := (buf ptr).toNat &&& 0x0F
  let (num, p) := decodeNumber buf optdelta predelta (ptr + 1)
  let (len, p) := decodeNumber buf optlen 0 p
  (⟨num, len, slice buf p len⟩, p - ptr + len)

/-- The loop of `CoAPDeserialize_Options`: the options, and the pointer behind
    them; `none` where `fuel` rounds are not enough. -/
def coapDeserializeOptions (buf : ℕ → UInt8) (buflen : ℤ) :
    ℕ → ℕ → ℕ → ℕ → Option (List CoAPMsgOption × ℕ)
  | 0, _, _, _ => none
  | fuel + 1, ptr, count, optdeltas =>
    if count < buflen ∧ buf ptr ≠ 0xFF then
      let (o, len) := coapDeserializeOption buf ptr optdeltas
      let len := len % 2 ^ 16
      (coapDeserializeOptions buf buflen fuel (ptr + len) (count + len) o.num).map fun r =>
        (o :: r.1, r.2)
    else some ([], ptr)

/-- `CoAPDeserialize_Payload` into a message without one. -/
def coapDeserializePayload (buf : ℕ → UInt8) (ptr : ℕ) (buflen : ℤ) : Bytes :=
  if buf ptr = 0xFF then slice buf (ptr + 1) ((buflen - 1) % 2 ^ 16).toNat else []

/-- `CoAPDeserialize_Message` into a message of zeros.  Each round of the loop
    counts a byte, or is the same again for ever (`none`). -/
def coapDeserializeMessage (buf : ℕ → UInt8) (buflen : ℕ) : Option (CoAPStat × CoAPMessage) :=
  let zero : CoAPMessage := ⟨⟨0, 0, 0, 0, 0⟩, [], [], 0, [], false⟩
  if buflen < 4 then some (.invalidLength, zero)
  else
    let header := coapDeserializeHeader buf
    let token := slice buf 4 header.tokenlen
    let ptr := 4 + header.tokenlen
    let remlen : ℤ := buflen - ptr
    (coapDeserializeOptions buf remlen (buflen + 1) ptr 0 0).map fun (options, p) =>
      let payload := coapDeserializePayload buf p (remlen - (p - ptr))
      (.success, { zero with header, token, options, payload })

end Coap
