/-
  `iotx_mc_read_packet` of `mqtt_client.c`, with `iotx_mc_decode_packet` and
  `MQTTPacket_encode`: how the packets are cut out of the stream of the network.

  A packet that is too long for `buf_read` is read to its end and dropped.  The
  length is put back into `buf_read` in its shortest form, whatever the form in
  which it came.  `readPackets_in_sync`: as long as no read and no malloc fails,
  each call takes one packet.
-/
import AliOS.Lib.Cells
import AliOS.Lib.Varint
import AliOS.Mqtt.Subs
import Mathlib.Tactic.Ring

namespace Mqtt

open Lib

/-! ## The network -/

/-- What the network does when it is asked for bytes. -/
inductive NetAnswer
  | full
  | timeout
  | error
  deriving DecidableEq

/-- What one call of `iotx_mc_read_packet` meets: how the network answers each
    read, and whether the malloc succeeds. -/
structure ReadEnv where
  net : ℕ → NetAnswer
  malloc : Bool

/-- The state of the client in question: the bytes that are still to come on the
    network, and `buf_read`.  `reads` counts the reads of a call, `written` are
    the ranges of `buf_read` given away to be written, and `hit` says whether a
    read or a malloc has failed. -/
structure ReadState where
  rest : Bytes
  bufRead : ℕ → UInt8
  reads : ℕ
  written : List (ℕ × ℕ)
  hit : Bool

/-- `ipstack->read` for `n` bytes: what it returns, and the bytes. -/
def ipstackRead (env : ReadEnv) (n : ℕ) (s : ReadState) : ℤ × Bytes × ReadState :=
  let t := { s with reads := s.reads + 1 }
  match env.net s.reads with
  | .full =>
    if n ≤ s.rest.length then (n, s.rest.take n, { t with rest := s.rest.drop n })
    else (-1, [], { t with hit := true })
  | .timeout => (0, [], { t with hit := s.hit || n != 0 })
  | .error => (-1, [], { t with hit := true })

/-- Bytes are put into `buf_read`, at `off`, in a place of `n` bytes. -/
def ReadState.put (s : ReadState) (off n : ℕ) (bytes : Bytes) : ReadState where
  rest := s.rest
  bufRead := memcpy s.bufRead off (fun i => bytes.getD i 0) bytes.length
  reads := s.reads
  written := s.written ++ [(off, n)]
  hit := s.hit

/-- A read of `n` bytes into `buf_read + off`. -/
def readInto (env : ReadEnv) (off n : ℕ) (s : ReadState) : ℤ × ReadState :=
  let (rc, bytes, s) := ipstackRead env n s
  (rc, s.put off n bytes)

/-! ## The length -/

/-- What `iotx_mc_read_packet` returns, with the type if it sets one. -/
inductive PacketRc
  | success (packetType : ℕ)
  | fail
  | readError
  | networkError
  deriving DecidableEq

/-- `iotx_mc_decode_packet`, with `left` more bytes allowed. -/
def iotxMcDecodePacket (env : ReadEnv) : (left value multiplier : ℕ) → ReadState → Except PacketRc ℕ × ReadState
  | 0, _, _, s => (.error .readError, s)
  | left + 1, value, multiplier, s =>
    let (rc, bytes, s) := ipstackRead env 1 s
    if rc = 1 then
      let i := (bytes.headD 0).toNat
      let value := value + i % 128 * multiplier
      if i / 128 % 2 = 1 then iotxMcDecodePacket env left value (multiplier * 128) s
      else (.ok value, s)
    else (.error .networkError, s)

def maxNoOfRemainingLengthBytes : ℕ := 4

/-- `MQTTPacket_encode`: the bytes that it writes. -/
def mqttPacketEncode (length : ℕ) : Bytes :=
  if 0 < length / 128 then UInt8.ofNat (length % 128 + 128) :: mqttPacketEncode (length / 128)
  else [UInt8.ofNat (length % 128)]
termination_by length
decreasing_by omega

/-! ## The packet -/

/-- The part of `iotx_mc_read_packet` for a packet that is too long: `buf_read`
    is filled up, and what is left is read into a buffer of its own. -/
def dropLong (env : ReadEnv) (bufSizeRead len remLen : ℕ) (s : ReadState) : PacketRc × ReadState :=
  let needReadLen := bufSizeRead - len
  let (rc, s) := readInto env len needReadLen s
  if rc = needReadLen then
    if env.malloc then (.fail, (ipstackRead env (remLen - needReadLen) s).2.2)
    else (.fail, { s with hit := true })
  else (.fail, s)

/-- The part for a packet that fits. -/
def readRest (env : ReadEnv) (len remLen : ℕ) (s : ReadState) : PacketRc × ReadState :=
  let (rc, s) := if 0 < remLen then readInto env len remLen s else (remLen, s)
  if rc = remLen then (.success ((s.bufRead 0).toNat / 16), s) else (.fail, s)

/-- The part of `iotx_mc_read_packet` behind the length. -/
def readBody (env : ReadEnv) (bufSizeRead remLen : ℕ) (s : ReadState) : PacketRc × ReadState :=
  let bytes := mqttPacketEncode remLen
  let len := 1 + bytes.length
  let s := s.put 1 bytes.length bytes
  if 0 < remLen ∧ bufSizeRead < remLen + len then dropLong env bufSizeRead len remLen s
  else readRest env len remLen s

def iotxMcReadPacket (env : ReadEnv) (bufSizeRead : ℕ) (s : ReadState) : PacketRc × ReadState :=
  let (rc, s) := readInto env 0 1 { s with reads := 0 }
  if rc = 0 then (.success 0, s)
  else if rc = 1 then
    match iotxMcDecodePacket env maxNoOfRemainingLengthBytes 0 1 s with
    | (.error rc, s) => (rc, s)
    | (.ok remLen, s) => readBody env bufSizeRead remLen s
  else (.fail, s)

/-- Calls one after the other, with what each returns and leaves. -/
def readPackets (bufSizeRead : ℕ) : List ReadEnv → ReadState → List (PacketRc × ReadState)
  | [], _ => []
  | env :: envs, s =>
    let r := iotxMcReadPacket env bufSizeRead s
    r :: readPackets bufSizeRead envs r.2

/-! ## What it is for -/

/-- A packet as it comes: the fixed header, the length in any form of at most 4
    bytes, and the body. -/
structure MqttPacket where
  header : UInt8
  length : Bytes
  body : Bytes
  isVarint : Varint.IsVarint length
  length_le : length.length ≤ maxNoOfRemainingLengthBytes
  value : Varint.value length = body.length

/-- The bytes of a packet on the network. -/
def MqttPacket.bytes (p : MqttPacket) : Bytes := p.header :: (p.length ++ p.body)

/-- The packet with the length that `MQTTPacket_encode` gives it. -/
def MqttPacket.encoded (p : MqttPacket) : Bytes := p.header :: (mqttPacketEncode p.body.length ++ p.body)

/-- What a call that took the packet returns and leaves: if the packet fits, the
    header, the shortest length and the body. -/
def Took (bufSizeRead : ℕ) (p : MqttPacket) (r : PacketRc × ReadState) : Prop :=
  if p.encoded.length ≤ bufSizeRead then
    r.1 = .success (p.header.toNat / 16) ∧
      ∃ length, Varint.Minimal length ∧ Varint.value length = p.body.length ∧
        Holds r.2.bufRead 0 (p.header :: (length ++ p.body))
  else r.1 = .fail

/-- All that is given away to be written lies in `buf_read`. -/
def ReadState.Inside (bufSizeRead : ℕ) (s : ReadState) : Prop := ∀ w ∈ s.written, w.1 + w.2 ≤ bufSizeRead

variable {env : ReadEnv} {s t : ReadState} {p : MqttPacket} {ps : List MqttPacket} {bytes ds rest : Bytes}
  {n off len remLen left value multiplier bufSizeRead : ℕ} {rc : PacketRc}

/-! ## The encoded length -/

theorem encode_small (h : n < 128) : mqttPacketEncode n = [UInt8.ofNat n] := by
  rw [mqttPacketEncode, if_neg (by omega), Nat.mod_eq_of_lt h]

theorem encode_big (h : 128 ≤ n) :
    mqttPacketEncode n = UInt8.ofNat (n % 128 + 128) :: mqttPacketEncode (n / 128) := by
  rw [mqttPacketEncode, if_pos (by omega)]

theorem toNat_ofNat_lt (h : n < 256) : (UInt8.ofNat n).toNat = n := by
  rw [UInt8.toNat_ofNat', Nat.mod_eq_of_lt h]

theorem encode_ne_nil : mqttPacketEncode n ≠ [] := by
  rcases Nat.lt_or_ge n 128 with h | h
  · rw [encode_small h]
    exact List.cons_ne_nil _ _
  · rw [encode_big h]
    exact List.cons_ne_nil _ _

theorem value_encode (n : ℕ) : Varint.value (mqttPacketEncode n) = n := by
  induction n using Nat.strong_induction_on with
  | _ n ih =>
    rcases Nat.lt_or_ge n 128 with h | h
    · rw [encode_small h, Varint.value, Varint.value, toNat_ofNat_lt (by omega)]
      omega
    · rw [encode_big h, Varint.value, ih (n / 128) (by omega), toNat_ofNat_lt (by omega)]
      omega

theorem isVarint_encode (n : ℕ) : Varint.IsVarint (mqttPacketEncode n) := by
  induction n using Nat.strong_induction_on with
  | _ n ih =>
    rcases Nat.lt_or_ge n 128 with h | h
    · rw [encode_small h, Varint.isVarint_one, toNat_ofNat_lt (by omega)]
      exact h
    · rw [encode_big h, Varint.isVarint_cons encode_ne_nil, toNat_ofNat_lt (by omega)]
      exact ⟨by omega, ih (n / 128) (by omega)⟩

theorem encode_top (n : ℕ) :
    (mqttPacketEncode n).length = 1 ∨ 128 ^ ((mqttPacketEncode n).length - 1) ≤ n := by
  induction n using Nat.strong_induction_on with
  | _ n ih =>
    rcases Nat.lt_or_ge n 128 with h | h
    · rw [encode_small h]
      exact .inl rfl
    · rw [encode_big h, List.length_cons, Nat.add_sub_cancel]
      right
      rcases ih (n / 128) (by omega) with hone | hle
      · rw [hone, pow_one]
        exact h
      · obtain ⟨k, hk⟩ : ∃ k, (mqttPacketEncode (n / 128)).length = k + 1 :=
          Nat.exists_eq_add_one.2 (List.length_pos_iff.2 encode_ne_nil)
        rw [hk, Nat.add_sub_cancel] at hle
        rw [hk, pow_succ]
        calc 128 ^ k * 128 ≤ n / 128 * 128 := Nat.mul_le_mul_right _ hle
          _ ≤ n := Nat.div_mul_le_self n 128

theorem minimal_encode (n : ℕ) : Varint.Minimal (mqttPacketEncode n) :=
  Varint.minimal_of_le (isVarint_encode n) (by rw [value_encode]; exact encode_top n)

theorem encode_length_le (h : n < 128 ^ maxNoOfRemainingLengthBytes) :
    (mqttPacketEncode n).length ≤ maxNoOfRemainingLengthBytes := by
  rcases encode_top n with hone | hle
  · rw [hone]
    decide
  · by_contra hlt
    have hpow : 128 ^ maxNoOfRemainingLengthBytes ≤ 128 ^ ((mqttPacketEncode n).length - 1) :=
      Nat.pow_le_pow_right (by decide) (by omega)
    omega

/-! ## Reads -/

/-- `n` bytes have been read. -/
def ReadState.take (s : ReadState) (n : ℕ) : ReadState :=
  { s with rest := s.rest.drop n, reads := s.reads + 1 }

theorem put_bufRead : (s.put off n bytes).bufRead =
    memcpy s.bufRead off (fun i => bytes.getD i 0) bytes.length := rfl

theorem ipstackRead_cases (env : ReadEnv) (n : ℕ) (s : ReadState) :
    n ≤ s.rest.length ∧ ipstackRead env n s = ((n : ℤ), s.rest.take n, s.take n) ∨
      (ipstackRead env n s).1 ≠ n ∧ (ipstackRead env n s).2.2.hit = true := by
  unfold ipstackRead
  cases env.net s.reads with
  | full =>
    dsimp only
    split_ifs with hn
    · exact .inl ⟨hn, rfl⟩
    · exact .inr ⟨by omega, rfl⟩
  | timeout =>
    rcases Nat.eq_zero_or_pos n with rfl | hpos
    · left
      refine ⟨Nat.zero_le _, ?_⟩
      simp [ReadState.take]
    · right
      refine ⟨by dsimp only; omega, ?_⟩
      simp [Nat.pos_iff_ne_zero.1 hpos]
  | error => exact .inr ⟨by dsimp only; omega, rfl⟩

theorem readInto_cases (env : ReadEnv) (off n : ℕ) (s : ReadState) :
    n ≤ s.rest.length ∧ readInto env off n s = ((n : ℤ), (s.take n).put off n (s.rest.take n)) ∨
      (readInto env off n s).1 ≠ n ∧ (readInto env off n s).2.hit = true := by
  unfold readInto
  rcases ipstackRead_cases env n s with ⟨hn, h⟩ | h
  · rw [h]
    exact .inl ⟨hn, rfl⟩
  · exact .inr h

/-- What a step keeps: a failure stays noted, and writes stay in `buf_read`. -/
structure Keeps (bufSizeRead : ℕ) (s t : ReadState) : Prop where
  hit : s.hit = true → t.hit = true
  inside : s.Inside bufSizeRead → t.Inside bufSizeRead

theorem Keeps.refl : Keeps bufSizeRead s s := ⟨id, id⟩

theorem Keeps.trans {u : ReadState} (h : Keeps bufSizeRead s t) (h' : Keeps bufSizeRead t u) :
    Keeps bufSizeRead s u := ⟨h'.hit ∘ h.hit, h'.inside ∘ h.inside⟩

theorem Keeps.hit_false (h : Keeps bufSizeRead s t) (ht : t.hit = false) : s.hit = false := by
  cases hs : s.hit with
  | false => rfl
  | true =>
    rw [h.hit hs] at ht
    cases ht

theorem put_keeps (hoff : off + n ≤ bufSizeRead) : Keeps bufSizeRead s (s.put off n bytes) where
  hit := id
  inside h w hw := by
    rcases List.mem_append.1 hw with hw | hw
    · exact h w hw
    · obtain rfl := List.mem_singleton.1 hw
      exact hoff

theorem ipstackRead_keeps : Keeps bufSizeRead s (ipstackRead env n s).2.2 := by
  unfold ipstackRead
  cases env.net s.reads with
  | full =>
    split_ifs
    · exact ⟨id, id⟩
    · exact ⟨fun _ => rfl, id⟩
  | timeout => exact ⟨fun h => by simp [h], id⟩
  | error => exact ⟨fun _ => rfl, id⟩

theorem readInto_keeps (hoff : off + n ≤ bufSizeRead) : Keeps bufSizeRead s (readInto env off n s).2 :=
  ipstackRead_keeps.trans (put_keeps hoff)

/-! ## The length that comes -/

theorem decodePacket_spec (hds : Varint.IsVarint ds) (hlen : ds.length ≤ left) (hrest : s.rest = ds ++ rest)
    (hhit : (iotxMcDecodePacket env left value multiplier s).2.hit = false) :
    iotxMcDecodePacket env left value multiplier s =
      (.ok (value + multiplier * Varint.value ds), { s with rest := rest, reads := s.reads + ds.length }) := by
  induction ds generalizing s left value multiplier with
  | nil => exact hds.elim
  | cons b ds ih =>
    obtain ⟨left, rfl⟩ : ∃ l, left = l + 1 := ⟨left - 1, by simp only [List.length_cons] at hlen; omega⟩
    rw [iotxMcDecodePacket] at hhit ⊢
    rcases ipstackRead_cases env 1 s with ⟨-, h⟩ | ⟨hrc, hfail⟩
    · rw [h] at hhit ⊢
      simp only [hrest, Nat.cast_one, if_true, List.cons_append, List.take_succ_cons, List.headD_cons] at hhit ⊢
      have hb : b.toNat < 256 := b.toNat_lt
      by_cases hmore : b.toNat < 128
      · obtain rfl : ds = [] := hds.tail_iff.2 hmore
        rw [if_neg (by omega), Varint.value, Varint.value, ReadState.take, hrest, Nat.mul_zero, Nat.add_zero,
          Nat.mul_comm]
        rfl
      · have hne : ds ≠ [] := fun h => hmore (hds.tail_iff.1 h)
        rw [if_pos (by omega)] at hhit ⊢
        rw [ih ((Varint.isVarint_cons hne).1 hds).2 (by simp only [List.length_cons] at hlen; omega)
          (by rw [ReadState.take, hrest]; rfl) hhit, Varint.value, ReadState.take, List.length_cons]
        have hsum : value + b.toNat % 128 * multiplier + multiplier * 128 * Varint.value ds =
            value + multiplier * (b.toNat % 128 + 128 * Varint.value ds) := by ring
        rw [hsum, Nat.add_assoc, Nat.add_comm 1]
    · exfalso
      rcases hread : ipstackRead env 1 s with ⟨rc, bytes, t⟩
      rw [hread] at hrc hfail hhit
      dsimp only at hrc hfail hhit
      rw [Nat.cast_one] at hrc
      rw [if_neg hrc, hfail] at hhit
      cases hhit

theorem decodePacket_keeps : Keeps bufSizeRead s (iotxMcDecodePacket env left value multiplier s).2 := by
  induction left generalizing s value multiplier with
  | zero => exact .refl
  | succ left ih =>
    have hkeeps : Keeps bufSizeRead s (ipstackRead env 1 s).2.2 := ipstackRead_keeps
    rw [iotxMcDecodePacket]
    rcases hread : ipstackRead env 1 s with ⟨rc, bytes, t⟩
    rw [hread] at hkeeps
    dsimp only
    split_ifs
    · exact hkeeps.trans ih
    · exact hkeeps
    · exact hkeeps

theorem decodePacket_lt {v : ℕ} (h : (iotxMcDecodePacket env left value multiplier s).1 = .ok v) :
    v + multiplier ≤ value + multiplier * 128 ^ left := by
  induction left generalizing s value multiplier with
  | zero => cases h
  | succ left ih =>
    rw [iotxMcDecodePacket] at h
    rcases hread : ipstackRead env 1 s with ⟨rc, bytes, t⟩
    rw [hread] at h
    dsimp only at h
    have hpow : multiplier * 128 ^ (left + 1) = multiplier * 128 * 128 ^ left := by ring
    have hdigit : (bytes.headD 0).toNat % 128 * multiplier ≤ 127 * multiplier :=
      Nat.mul_le_mul_right _ (by omega)
    split_ifs at h
    · have := ih h
      omega
    · obtain rfl := Except.ok.inj h
      have hone : 1 ≤ 128 ^ left := Nat.one_le_pow _ _ (by decide)
      have hle : multiplier * 128 * 1 ≤ multiplier * 128 * 128 ^ left := Nat.mul_le_mul_left _ hone
      omega

/-! ## The packet that comes -/

theorem dropLong_spec (hle : bufSizeRead - len ≤ remLen)
    (hhit : (dropLong env bufSizeRead len remLen s).2.hit = false) :
    (dropLong env bufSizeRead len remLen s).1 = .fail ∧
      (dropLong env bufSizeRead len remLen s).2.rest = s.rest.drop remLen := by
  unfold dropLong at hhit ⊢
  dsimp only at hhit ⊢
  rcases hread : readInto env len (bufSizeRead - len) s with ⟨rc, t⟩
  have hcases := readInto_cases env len (bufSizeRead - len) s
  rw [hread] at hhit hcases
  rcases hcases with ⟨-, h⟩ | ⟨hrc, hfail⟩
  · obtain ⟨rfl, rfl⟩ := Prod.mk.inj h
    rw [if_pos rfl] at hhit ⊢
    split_ifs at hhit ⊢
    · refine ⟨rfl, ?_⟩
      rcases ipstackRead_cases env (remLen - (bufSizeRead - len))
        ((s.take (bufSizeRead - len)).put len (bufSizeRead - len) (s.rest.take (bufSizeRead - len))) with
        ⟨-, h⟩ | ⟨-, hfail⟩
      · rw [h]
        change (s.rest.drop _).drop _ = _
        rw [List.drop_drop]
        congr 1
        omega
      · dsimp only at hhit
        rw [hfail] at hhit
        cases hhit
  · dsimp only at hrc hfail
    rw [if_neg hrc] at hhit
    dsimp only at hhit
    rw [hfail] at hhit
    cases hhit

theorem readRest_spec (hpos : 0 < len) (hhit : (readRest env len remLen s).2.hit = false) :
    (readRest env len remLen s).1 = .success ((s.bufRead 0).toNat / 16) ∧
      (readRest env len remLen s).2.rest = s.rest.drop remLen ∧
      (readRest env len remLen s).2.bufRead = memcpy s.bufRead len (fun i => s.rest.getD i 0) remLen := by
  unfold readRest at hhit ⊢
  rcases Nat.eq_zero_or_pos remLen with rfl | hrem
  · simp
  · rw [if_pos hrem] at hhit ⊢
    rcases hread : readInto env len remLen s with ⟨rc, t⟩
    have hcases := readInto_cases env len remLen s
    rw [hread] at hhit hcases
    dsimp only at hhit ⊢
    rcases hcases with ⟨hle, h⟩ | ⟨hrc, hfail⟩
    · obtain ⟨rfl, rfl⟩ := Prod.mk.inj h
      rw [if_pos rfl]
      have hbuf : ((s.take remLen).put len remLen (s.rest.take remLen)).bufRead =
          memcpy s.bufRead len (fun i => s.rest.getD i 0) remLen := by
        rw [put_bufRead, List.length_take, Nat.min_eq_left hle]
        refine memcpy_congr fun i hi => ?_
        rw [List.getD_eq_getElem?_getD, List.getElem?_take_of_lt hi, List.getD_eq_getElem?_getD]
      refine ⟨?_, rfl, hbuf⟩
      rw [hbuf, memcpy_out (.inl hpos)]
    · dsimp only at hrc hfail
      rw [if_neg hrc] at hhit
      dsimp only at hhit
      rw [hfail] at hhit
      cases hhit

theorem dropLong_keeps (hlen : len ≤ bufSizeRead) :
    Keeps bufSizeRead s (dropLong env bufSizeRead len remLen s).2 := by
  have hkeeps : Keeps bufSizeRead s (readInto env len (bufSizeRead - len) s).2 := readInto_keeps (by omega)
  unfold dropLong
  dsimp only
  rcases hread : readInto env len (bufSizeRead - len) s with ⟨rc, t⟩
  rw [hread] at hkeeps
  dsimp only
  split_ifs
  · exact hkeeps.trans ipstackRead_keeps
  · exact ⟨fun _ => rfl, hkeeps.inside⟩
  · exact hkeeps

theorem readRest_keeps (hlen : 0 < remLen → remLen + len ≤ bufSizeRead) :
    Keeps bufSizeRead s (readRest env len remLen s).2 := by
  unfold readRest
  rcases Nat.eq_zero_or_pos remLen with rfl | hrem
  · simpa using Keeps.refl
  · have hkeeps : Keeps bufSizeRead s (readInto env len remLen s).2 :=
      readInto_keeps (by have := hlen hrem; omega)
    rw [if_pos hrem]
    rcases hread : readInto env len remLen s with ⟨rc, t⟩
    rw [hread] at hkeeps
    dsimp only
    split_ifs
    · exact hkeeps
    · exact hkeeps

theorem readBody_keeps (hsize : 5 ≤ bufSizeRead) (hrem : remLen < 128 ^ maxNoOfRemainingLengthBytes) :
    Keeps bufSizeRead s (readBody env bufSizeRead remLen s).2 := by
  have hle : (mqttPacketEncode remLen).length ≤ 4 := encode_length_le hrem
  have hput : Keeps bufSizeRead s (s.put 1 (mqttPacketEncode remLen).length (mqttPacketEncode remLen)) :=
    put_keeps (by omega)
  unfold readBody
  dsimp only
  split_ifs with hlong
  · exact hput.trans (dropLong_keeps (by omega))
  · refine hput.trans (readRest_keeps fun hpos => ?_)
    by_contra hlt
    exact hlong ⟨hpos, by omega⟩

theorem readPacket_keeps (hsize : 5 ≤ bufSizeRead) : Keeps bufSizeRead s (iotxMcReadPacket env bufSizeRead s).2 := by
  have hread : Keeps bufSizeRead s (readInto env 0 1 { s with reads := 0 }).2 :=
    Keeps.trans (t := { s with reads := 0 }) ⟨id, id⟩ (readInto_keeps (by omega))
  unfold iotxMcReadPacket
  rcases h : readInto env 0 1 { s with reads := 0 } with ⟨rc, t⟩
  rw [h] at hread
  dsimp only
  split_ifs
  · exact hread
  · have hdecode : Keeps bufSizeRead t (iotxMcDecodePacket env maxNoOfRemainingLengthBytes 0 1 t).2 :=
      decodePacket_keeps
    rcases hd : iotxMcDecodePacket env maxNoOfRemainingLengthBytes 0 1 t with ⟨_ | remLen, u⟩
    · rw [hd] at hdecode
      exact hread.trans hdecode
    · have hlt := decodePacket_lt (congrArg Prod.fst hd)
      rw [hd] at hdecode
      exact (hread.trans hdecode).trans (readBody_keeps hsize (by omega))
  · exact hread

theorem readBody_spec {body : Bytes} (hsize : 5 ≤ bufSizeRead) (hrest : s.rest = body ++ rest)
    (hhit : (readBody env bufSizeRead body.length s).2.hit = false) :
    (readBody env bufSizeRead body.length s).2.rest = rest ∧
      if 1 + ((mqttPacketEncode body.length).length + body.length) ≤ bufSizeRead then
        (readBody env bufSizeRead body.length s).1 = .success ((s.bufRead 0).toNat / 16) ∧
          Holds (readBody env bufSizeRead body.length s).2.bufRead 0
            (s.bufRead 0 :: (mqttPacketEncode body.length ++ body))
      else (readBody env bufSizeRead body.length s).1 = .fail := by
  have hone : 0 < (mqttPacketEncode body.length).length := List.length_pos_iff.2 encode_ne_nil
  unfold readBody at hhit ⊢
  dsimp only at hhit ⊢
  split_ifs at hhit ⊢ with hlong hfit hfit
  · omega
  · obtain ⟨hrc, hr⟩ := dropLong_spec (by omega) hhit
    refine ⟨?_, hrc⟩
    rw [hr]
    change s.rest.drop _ = _
    rw [hrest, List.drop_left]
  · obtain ⟨hrc, hr, hbuf⟩ := readRest_spec (by omega) hhit
    refine ⟨?_, ?_, ?_⟩
    · rw [hr]
      change s.rest.drop _ = _
      rw [hrest, List.drop_left]
    · rw [hrc, put_bufRead, memcpy_out (.inl Nat.one_pos)]
    · have hbody : ∀ i < body.length, (s.put 1 (mqttPacketEncode body.length).length
          (mqttPacketEncode body.length)).rest.getD i 0 = body.getD i 0 := by
        intro i hi
        change s.rest.getD i 0 = _
        rw [hrest, List.getD_eq_getElem?_getD, List.getElem?_append_left hi, List.getD_eq_getElem?_getD]
      rw [hbuf, memcpy_congr hbody, put_bufRead, holds_cons, holds_append, Nat.zero_add]
      refine ⟨?_, ?_, holds_memcpy_same 0⟩
      · rw [memcpy_out (.inl (by omega)), memcpy_out (.inl Nat.one_pos)]
      · exact (holds_memcpy_same 0).memcpy_disjoint (.inl (Nat.le_refl _))
  · -- a packet without a body has two bytes
    have hzero : body.length = 0 := by
      by_contra hne
      exact hlong ⟨by omega, by omega⟩
    rw [hzero, encode_small (by decide)] at hfit
    exact absurd (by simpa using hsize.trans' (by decide)) hfit

theorem readPacket_header (hhit : (iotxMcReadPacket env bufSizeRead s).2.hit = false) :
    ∃ b, s.rest.head? = some b ∧ iotxMcReadPacket env bufSizeRead s =
      match iotxMcDecodePacket env maxNoOfRemainingLengthBytes 0 1
        (({ s with reads := 0 } : ReadState).take 1 |>.put 0 1 [b]) with
      | (.error rc, s) => (rc, s)
      | (.ok remLen, s) => readBody env bufSizeRead remLen s := by
  unfold iotxMcReadPacket at hhit ⊢
  rcases hread : readInto env 0 1 { s with reads := 0 } with ⟨rc, t⟩
  have hcases := readInto_cases env 0 1 { s with reads := 0 }
  rw [hread] at hhit hcases
  dsimp only at hhit hcases ⊢
  rcases hcases with ⟨hle, h⟩ | ⟨hrc, hfail⟩
  · obtain ⟨rfl, rfl⟩ := Prod.mk.inj h
    obtain ⟨b, rest, hs⟩ := List.exists_cons_of_length_pos hle
    refine ⟨b, by rw [hs]; rfl, ?_⟩
    rw [if_neg (by decide), if_pos (by decide), hs]
    rfl
  · rw [Nat.cast_one] at hrc
    split_ifs at hhit
    · rw [hfail] at hhit
      cases hhit
    · rw [hfail] at hhit
      cases hhit

theorem readPacket_spec (hsize : 5 ≤ bufSizeRead) (hrest : s.rest = p.bytes ++ rest)
    (hhit : (iotxMcReadPacket env bufSizeRead s).2.hit = false) :
    Took bufSizeRead p (iotxMcReadPacket env bufSizeRead s) ∧
      (iotxMcReadPacket env bufSizeRead s).2.rest = rest := by
  obtain ⟨b, hb, heq⟩ := readPacket_header hhit
  rw [hrest] at hb
  obtain rfl : p.header = b := Option.some.inj hb
  rw [heq] at hhit ⊢
  generalize ht : (({ s with reads := 0 } : ReadState).take 1).put 0 1 [p.header] = t at hhit ⊢
  have htrest : t.rest = p.length ++ (p.body ++ rest) := by
    rw [← ht]
    change s.rest.drop 1 = _
    rw [hrest, MqttPacket.bytes, List.cons_append, List.drop_succ_cons, List.drop_zero, List.append_assoc]
  have hthead : t.bufRead 0 = p.header := by
    rw [← ht, put_bufRead, memcpy_in (Nat.le_refl 0) Nat.one_pos]
    rfl
  have hdhit : (iotxMcDecodePacket env maxNoOfRemainingLengthBytes 0 1 t).2.hit = false := by
    rcases hd : iotxMcDecodePacket env maxNoOfRemainingLengthBytes 0 1 t with ⟨_ | remLen, u⟩
    · rw [hd] at hhit
      exact hhit
    · have hlt := decodePacket_lt (congrArg Prod.fst hd)
      rw [hd] at hhit
      exact (readBody_keeps hsize (by omega)).hit_false hhit
  have hdecode := decodePacket_spec p.isVarint p.length_le htrest hdhit
  rw [Nat.zero_add, Nat.one_mul, p.value] at hdecode
  rw [hdecode] at hhit ⊢
  obtain ⟨hr, htook⟩ := readBody_spec hsize rfl hhit
  refine ⟨?_, hr⟩
  rw [Took, MqttPacket.encoded, List.length_cons, List.length_append, Nat.add_comm _ 1]
  rw [hthead] at htook
  split_ifs at htook ⊢
  · exact ⟨htook.1, _, minimal_encode _, value_encode _, htook.2⟩
  · exact htook

/-! ## Calls -/

theorem readPackets_hit (hsize : 5 ≤ bufSizeRead) {envs : List ReadEnv} {k : ℕ} {r : PacketRc × ReadState}
    (h : (readPackets bufSizeRead envs s)[k]? = some r) : Keeps bufSizeRead s r.2 := by
  induction envs generalizing s k with
  | nil => cases h
  | cons env envs ih =>
    cases k with
    | zero =>
      cases h
      exact readPacket_keeps hsize
    | succ k => exact (readPacket_keeps hsize).trans (ih h)

/-- **The stream stays in sync**: as long as no read and no malloc fails, call
    `k` takes packet `k`, and writes inside of `buf_read`. -/
theorem readPackets_in_sync (bufSizeRead : ℕ) (hsize : 5 ≤ bufSizeRead) (ps : List MqttPacket)
    (envs : List ReadEnv) (s : ReadState) (hrest : s.rest = ps.flatMap MqttPacket.bytes)
    (hin : s.Inside bufSizeRead) (k : ℕ) (r : PacketRc × ReadState)
    (h : (readPackets bufSizeRead envs s)[k]? = some r) (hhit : r.2.hit = false) :
    ∃ p, ps[k]? = some p ∧ Took bufSizeRead p r ∧ r.2.rest = (ps.drop (k + 1)).flatMap MqttPacket.bytes ∧
      r.2.Inside bufSizeRead := by
  induction envs generalizing s ps k with
  | nil => cases h
  | cons env envs ih =>
    have hfirst : (iotxMcReadPacket env bufSizeRead s).2.hit = false := by
      cases k with
      | zero =>
        cases h
        exact hhit
      | succ k => exact (readPackets_hit hsize (k := k) h).hit_false hhit
    cases ps with
    | nil =>
      -- the header has not come
      obtain ⟨b, hb, -⟩ := readPacket_header hfirst
      rw [hrest] at hb
      cases hb
    | cons p ps =>
      obtain ⟨htook, hr⟩ := readPacket_spec hsize hrest hfirst
      cases k with
      | zero =>
        cases h
        exact ⟨p, rfl, htook, hr, (readPacket_keeps hsize).inside hin⟩
      | succ k => exact ih ps _ hr ((readPacket_keeps hsize).inside hin) k h

/-- A PUBLISH of 4 bytes whose length comes in two bytes, and a PINGRESP. -/
def publishPacket : MqttPacket := ⟨0x30, [0x84, 0x00], [1, 2, 3, 4], by decide, by decide, rfl⟩
def pingrespPacket : MqttPacket := ⟨0xd0, [0x00], [], by decide, by decide, rfl⟩

def twoPackets : ReadState where
  rest := [publishPacket, pingrespPacket].flatMap MqttPacket.bytes
  bufRead := fun _ => 0
  reads := 0
  written := []
  hit := false

def fullEnv : ReadEnv := ⟨fun _ => .full, true⟩

/-- Both are read, the first of which does not fit 5 bytes. -/
def secondRead : PacketRc × ReadState := iotxMcReadPacket fullEnv 5 (iotxMcReadPacket fullEnv 5 twoPackets).2

theorem secondRead_hit : secondRead.2.hit = false := by
  have hfour : mqttPacketEncode 4 = [4] := encode_small (by decide)
  have hzero : mqttPacketEncode 0 = [0] := encode_small (by decide)
  simp [secondRead, iotxMcReadPacket, readInto, ipstackRead, iotxMcDecodePacket, readBody, hfour, hzero,
    readRest, dropLong, ReadState.put, twoPackets, fullEnv, publishPacket, pingrespPacket,
    MqttPacket.bytes, maxNoOfRemainingLengthBytes]

theorem readPackets_in_sync_second : ∃ p, [publishPacket, pingrespPacket][1]? = some p ∧ Took 5 p secondRead ∧
    secondRead.2.rest = [] ∧ secondRead.2.Inside 5 :=
  readPackets_in_sync 5 (by decide) [publishPacket, pingrespPacket] [fullEnv, fullEnv] twoPackets rfl
    (fun _ h => absurd h List.not_mem_nil) 1 secondRead rfl secondRead_hit

end Mqtt
