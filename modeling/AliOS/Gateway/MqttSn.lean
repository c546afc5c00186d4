/-
  The framing of MQTT-SN (`framework/gateway/mqtt_sn.h`), as the gateway writes and reads it.

  `msn_alloc` counts a byte more than the message has, and `msn_parse_header` takes the length
  behind the first byte for that of the whole datagram, or of all but three bytes of it.
-/
import Mathlib.Algebra.Group.Nat.Defs
import Mathlib.Tactic.SplitIfs

namespace Gateway

def ADVERTISE : UInt8 := 0x0
def CONNECT : UInt8 := 0x4
def CONNACK : UInt8 := 0x5
def PUBLISH : UInt8 := 0xc

def BUF_LEN : ℕ := 256

/-- The length in the two bytes behind the first, and where the message begins. -/
def announcedLong : List UInt8 → Option (ℤ × ℕ)
  | hi :: lo :: _ => some ((hi.toNat : ℤ) * 256 + lo.toNat, 3)
  | _ => none

/-- The length that the first bytes announce, and where the message begins; there is no result
    where it reads behind the end. -/
def announced : List UInt8 → Option (ℤ × ℕ)
  | [] => none
  | len :: rest => if len = 1 then announcedLong rest else some (len.toNat - 1, 1)

/-- `msn_parse_header`: what it returns, and where `*pbuf` is. -/
def msnParseHeader (buf : List UInt8) (l : ℕ) : Option (ℤ × ℕ) :=
  (announced buf).map fun p => (if (l : ℤ) ≠ p.1 ∧ (l : ℤ) ≠ p.1 + 3 then -1 else p.1, p.2)

/-- `msn_header_len`: the sizes of `pub_body_t`, `conn_body_t`, `conn_ack_t` and `adv_body_t`. -/
def msnHeaderLen (msgType : UInt8) : ℕ :=
  if msgType = PUBLISH then 5
  else if msgType = CONNECT then 4
  else if msgType = CONNACK then 1
  else if msgType = ADVERTISE then 3
  else 0

/-- `msn_alloc`: the bytes that it writes, and `*plen`. -/
def msnAlloc (msgType : UInt8) (payloadLen : ℕ) : List UInt8 × ℕ :=
  let headerLen := 2 + msnHeaderLen msgType
  ([UInt8.ofNat (headerLen + payloadLen + 1), msgType], headerLen + payloadLen)

/-- What a caller of `msn_alloc` sends: the fields of the header and the payload are its own. -/
structure Message where
  msgType : UInt8
  header : List UInt8
  payload : List UInt8
  header_len : header.length = msnHeaderLen msgType

def Message.datagram (m : Message) : List UInt8 := (msnAlloc m.msgType m.payload.length).1 ++ (m.header ++ m.payload)

/-- What `gateway_sock_read_cb` reads and does not drop for its length. -/
structure Datagram where
  bytes : List UInt8
  long : 2 < bytes.length
  fits : bytes.length ≤ BUF_LEN

/-- It is accepted with all from its type byte on. -/
def RoundTrips (d : List UInt8) : Prop := msnParseHeader d d.length = some ((d.length : ℤ) - 1, 1)

/-- The length that is returned does not reach behind the datagram. -/
def Within (d : List UInt8) : Prop :=
  ∀ r ∈ msnParseHeader d d.length, (r.2 : ℤ) + r.1 ≤ d.length

namespace Message

variable {m : Message}

theorem datagram_length : m.datagram.length = (msnAlloc m.msgType m.payload.length).2 := by
  change (_ :: _ :: (m.header ++ m.payload)).length = 2 + msnHeaderLen m.msgType + m.payload.length
  rw [List.length_cons, List.length_cons, List.length_append, m.header_len]
  omega

theorem datagram_eq : m.datagram = UInt8.ofNat (m.datagram.length + 1) :: m.msgType :: (m.header ++ m.payload) := by
  rw [datagram_length]
  rfl

theorem not_roundTrips : ¬ RoundTrips m.datagram := by
  have hpos : 2 ≤ m.datagram.length := by
    rw [datagram_length]
    exact Nat.le_trans (Nat.le_add_right _ _) (Nat.le_add_right _ _)
  rw [RoundTrips]
  generalize hl : m.datagram.length = l at hpos
  rw [datagram_eq, hl, msnParseHeader, announced]
  split_ifs with h1
  · -- the long form, from 256 bytes on: the pointer is at the third byte
    cases m.header ++ m.payload with
    | nil =>
      intro h
      cases h
    | cons lo rest =>
      intro h
      cases congrArg (Option.map Prod.snd) h
  · intro h
    have hret := congrArg Prod.fst (Option.some.inj h)
    dsimp only at hret
    rw [UInt8.toNat_ofNat'] at hret
    split_ifs at hret <;> omega

end Message

/-- **The length stays within** a datagram exactly where this does not announce all of it. -/
theorem Datagram.within_iff (d : Datagram) :
    Within d.bytes ↔ (announced d.bytes).map Prod.fst ≠ some (d.bytes.length : ℤ) := by
  have hlong := d.long
  rw [Within, msnParseHeader]
  have hpos : ∀ p ∈ announced d.bytes, p.2 = 1 ∨ p.2 = 3 := by
    intro p hp
    unfold announced at hp
    split at hp
    · cases hp
    split_ifs at hp
    · unfold announcedLong at hp
      split at hp
      · cases hp
        exact .inr rfl
      · cases hp
    · cases hp
      exact .inl rfl
  rcases h : announced d.bytes with _ | ⟨len, pbuf⟩
  · constructor
    · rintro - ⟨⟩
    · rintro - r ⟨⟩
  have hp : pbuf = 1 ∨ pbuf = 3 := hpos _ h
  rw [Option.map_some, Option.map_some, ne_eq (some _), Option.some_inj]
  constructor
  · intro hw hlen
    have := hw _ rfl
    rw [if_neg fun hne => hne.1 hlen.symm] at this
    omega
  · rintro hlen r ⟨⟩
    split_ifs <;> omega

/-- **The framing of MQTT-SN**: no message that is sent is read back as it is, and the length that
    is returned for a datagram stays within it exactly where this does not announce all of it. -/
theorem framing_iff (m : Message) (d : Datagram) : ¬ RoundTrips m.datagram ∧
    (Within d.bytes ↔ (announced d.bytes).map Prod.fst ≠ some (d.bytes.length : ℤ)) :=
  ⟨m.not_roundTrips, d.within_iff⟩

/-- The answer of `handle_connect` without a client. -/
def refusal : Message := ⟨CONNACK, [0xff], List.replicate 33 0, rfl⟩

/-- It is announced with one byte more than it has. -/
theorem refusal_grows : ¬ ((∀ m : Message, RoundTrips m.datagram) ∧ ∀ d : Datagram, Within d.bytes) := by
  rintro ⟨h, -⟩
  have hr : RoundTrips refusal.datagram := h refusal
  rw [RoundTrips] at hr
  revert hr
  decide

end Gateway
