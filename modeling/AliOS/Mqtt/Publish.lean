/-
  The PUBLISH packet: `MQTTSerialize_publish`, and `MQTTDeserialize_publish` on what
  `iotx_mc_read_packet` left in `buf_read`.

  `published_read`: the messages that one client serialized are read by another one
  as they were, whatever `MQTTPacket_len` allows for the length.
-/
import AliOS.Mqtt.ReadPacket
import Mathlib.Data.List.Forall2

namespace Mqtt

open Lib

/-! ## Writing -/

/-- What `MQTTSerialize_publish` is given; the topic is the text of `cstring`. -/
structure PublishMsg where
  dup : ℕ
  qos : ℕ
  retained : ℕ
  packetid : ℕ
  topicName : Bytes
  payload : Bytes

/-- `PUBLISH` of `enum msgTypes` -/
def cptPublish : ℕ := 3

def mqttPacketLen (remLen : ℕ) : ℕ :=
  let remLen := remLen + 1
  if remLen < 128 then remLen + 1
  else if remLen < 16384 then remLen + 2
  else if remLen < 2097151 then remLen + 3
  else remLen + 4

def writeInt (anInt : ℕ) : Bytes := [UInt8.ofNat (anInt / 256), UInt8.ofNat (anInt % 256)]

namespace PublishMsg

variable (p : PublishMsg)

/-- `MQTTSerialize_publishLength` -/
def serializeLength : ℕ := 2 + p.topicName.length + p.payload.length + if 0 < p.qos then 2 else 0

/-- `MQTTHeader` -/
def header : UInt8 := UInt8.ofNat (p.retained % 2 + p.qos % 4 * 2 + p.dup % 2 * 8 + cptPublish * 16)

/-- What is behind the remaining length. -/
def body : Bytes :=
  writeInt p.topicName.length ++ (p.topicName ++ ((if 0 < p.qos then writeInt p.packetid else []) ++ p.payload))

/-- `MQTTSerialize_publish`: the bytes, whose number is returned, or `MQTTPACKET_BUFFER_TOO_SHORT`. -/
def serialize (buflen : ℕ) : Option Bytes :=
  if mqttPacketLen p.serializeLength > buflen then none
  else some (p.header :: (mqttPacketEncode p.serializeLength ++ p.body))

end PublishMsg

/-! ## Reading -/

/-- `MQTTPacket_decodeBuf`, with `left` more bytes allowed: the bytes that it counts, and the value. -/
def decodeBuf (m : ℕ → UInt8) : (left pos : ℕ) → ℕ × ℕ
  | 0, _ => (1, 0)
  | left + 1, pos =>
    let c := (m pos).toNat
    if c / 128 % 2 = 1 then
      let (len, value) := decodeBuf m left (pos + 1)
      (len + 1, c % 128 + 128 * value)
    else (1, c % 128)

def readInt (m : ℕ → UInt8) (pos : ℕ) : ℕ := 256 * (m pos).toNat + (m (pos + 1)).toNat

/-- What `MQTTDeserialize_publish` returns and sets; a pointer is its place in `buf_read`, and what is not
    set is 0, as `iotx_mc_handle_recv_PUBLISH` passes it. -/
structure PublishRead where
  rc : ℕ
  dup : ℕ
  qos : ℕ
  retained : ℕ
  packetid : ℕ
  topicLen : ℕ
  topic : Option ℕ
  payload : Option ℕ
  payloadlen : ℤ

def mqttDeserializePublish (m : ℕ → UInt8) : PublishRead :=
  let b := (m 0).toNat
  if b / 16 ≠ cptPublish then ⟨0, 0, 0, 0, 0, 0, none, none, 0⟩
  else
    -- `rc` is the number of the length's bytes until the end
    let (n, mylen) := decodeBuf m 4 1
    let out : PublishRead := ⟨n, b / 8 % 2, b / 2 % 4, b % 2, 0, 0, none, none, 0⟩
    let enddata := 1 + n + mylen
    if mylen > 1 then
      let len := readInt m (1 + n)
      let cur := 1 + n + 2
      if cur + len ≤ enddata then
        let cur := cur + len
        let (id, cur) := if out.qos > 0 then (readInt m cur, cur + 2) else (0, cur)
        { out with
          rc := 1, packetid := id, topicLen := len, topic := some (1 + n + 2), payload := some cur
          payloadlen := enddata - cur }
      else { out with topicLen := len }
    else out

/-! ## A message as it was -/

variable {m : ℕ → UInt8} {ds : Bytes} {p : PublishMsg} {n left pos bufSizeRead : ℕ}

/-- The message has what a packet can say; without QoS there is no packet id. -/
structure PublishMsg.Valid (p : PublishMsg) : Prop where
  dup : p.dup < 2
  qos : p.qos < 4
  retained : p.retained < 2
  packetid : p.packetid < 65536
  noId : p.qos = 0 → p.packetid = 0
  topic : p.topicName.length < 65536
  length : p.serializeLength < 128 ^ maxNoOfRemainingLengthBytes

/-- The message is read from `buf_read`. -/
def PublishMsg.ReadFrom (p : PublishMsg) (m : ℕ → UInt8) : Prop :=
  ∃ topic payload, mqttDeserializePublish m = ⟨1, p.dup, p.qos, p.retained, p.packetid, p.topicName.length, some topic,
    some payload, p.payload.length⟩ ∧ Holds m topic p.topicName ∧ Holds m payload p.payload

theorem decodeBuf_eq (hds : Varint.IsVarint ds) (hlen : ds.length ≤ left) (h : Holds m pos ds) :
    decodeBuf m left pos = (ds.length, Varint.value ds) := by
  induction ds generalizing left pos with
  | nil => exact hds.elim
  | cons b ds ih =>
    obtain ⟨left, rfl⟩ := Nat.exists_eq_add_one.2 (Nat.lt_of_lt_of_le (Nat.succ_pos ds.length) hlen)
    obtain ⟨hb, hrest⟩ := holds_cons.1 h
    have hlt : b.toNat < 256 := b.toNat_lt
    rw [decodeBuf, hb]
    by_cases hmore : b.toNat < 128
    · obtain rfl := hds.tail_iff.2 hmore
      rw [if_neg (by omega)]
      rfl
    · have hne : ds ≠ [] := fun hnil => hmore (hds.tail_iff.1 hnil)
      rw [if_pos (by omega), ih ((Varint.isVarint_cons hne).1 hds).2 (Nat.le_of_succ_le_succ hlen) hrest]
      rfl

theorem readInt_eq (hn : n < 65536) (h : Holds m pos (writeInt n)) : readInt m pos = n := by
  obtain ⟨hhigh, hrest⟩ := holds_cons.1 h
  rw [readInt, hhigh, (holds_cons.1 hrest).1, toNat_ofNat_lt (by omega), toNat_ofNat_lt (by omega)]
  omega

theorem length_body (p : PublishMsg) : p.body.length = p.serializeLength := by
  unfold PublishMsg.body PublishMsg.serializeLength
  simp only [List.length_append]
  split_ifs
  · change 2 + (_ + (2 + _)) = _
    omega
  · change 2 + (_ + (0 + _)) = _
    omega

theorem length_serialize {buflen : ℕ} {bytes : Bytes} (hp : p.serializeLength < 128 ^ maxNoOfRemainingLengthBytes)
    (h : p.serialize buflen = some bytes) : bytes.length ≤ buflen := by
  have htop := encode_top p.serializeLength
  have hle := encode_length_le hp
  unfold PublishMsg.serialize at h
  split_ifs at h with hshort
  cases h
  rw [List.length_cons, List.length_append, length_body]
  unfold mqttPacketLen maxNoOfRemainingLengthBytes at *
  generalize (mqttPacketEncode p.serializeLength).length = k at htop hle ⊢
  dsimp only at hshort
  obtain rfl | rfl | rfl | rfl | rfl : k = 0 ∨ k = 1 ∨ k = 2 ∨ k = 3 ∨ k = 4 := by omega
  all_goals
    simp only [Nat.reduceSub, Nat.reducePow] at htop
    split_ifs at hshort <;> omega

theorem read_of_holds (hp : p.Valid) (hds : Varint.IsVarint ds) (hlen : ds.length ≤ 4)
    (hval : Varint.value ds = p.body.length) (h : Holds m 0 (p.header :: (ds ++ p.body))) : p.ReadFrom m := by
  obtain ⟨hdup, hqos, hretained, hid, hnoId, htopic, -⟩ := hp
  obtain ⟨hhead, hrest⟩ := holds_cons.1 h
  obtain ⟨hdigits, hbody⟩ := holds_append.1 hrest
  rw [PublishMsg.body, holds_append, holds_append] at hbody
  obtain ⟨hint, hname, hend⟩ := hbody
  rw [Nat.zero_add] at hdigits hint hname hend
  have hb : (m 0).toNat = p.retained + p.qos * 2 + p.dup * 8 + 48 := by
    rw [hhead, PublishMsg.header, cptPublish, toNat_ofNat_lt (by omega)]
    omega
  have hdecode := decodeBuf_eq hds hlen hdigits
  have hlength := readInt_eq htopic hint
  rw [hval, length_body, PublishMsg.serializeLength] at hdecode
  have htwo : (writeInt p.topicName.length).length = 2 := rfl
  rw [htwo] at hname hend
  unfold PublishMsg.ReadFrom mqttDeserializePublish
  simp only [hdecode, hlength, hb, cptPublish]
  rw [if_neg (by omega), if_pos (by omega), if_pos (by omega), show (p.retained + p.qos * 2 + p.dup * 8 + 48) / 2 % 4 = p.qos by omega]
  by_cases hq : 0 < p.qos
  · rw [if_pos hq] at hend ⊢
    obtain ⟨hidInt, hpayload⟩ := holds_append.1 hend
    refine ⟨_, 1 + ds.length + 2 + p.topicName.length + 2, ?_, hname, hpayload⟩
    simp only [PublishRead.mk.injEq, readInt_eq hid hidInt, if_pos hq, true_and]
    omega
  · rw [if_neg hq] at hend ⊢
    refine ⟨_, 1 + ds.length + 2 + p.topicName.length, ?_, hname, hend⟩
    simp only [PublishRead.mk.injEq, hnoId (by omega), if_neg hq, true_and]
    omega

/-- The packet of a message. -/
def PublishMsg.packet (p : PublishMsg) (hp : p.Valid) : MqttPacket :=
  ⟨p.header, mqttPacketEncode p.body.length, p.body, isVarint_encode _, encode_length_le (length_body p ▸ hp.length),
    value_encode _⟩

/-- **Messages on the wire** come as they were sent: as long as no read and no malloc fails, call `k` reads message
    `k` if that fits `buf_read`. -/
theorem published_read {bufSizeSend : ℕ} (hsize : 5 ≤ bufSizeRead) {ps : List PublishMsg} {sent : List Bytes}
    (hps : ∀ p ∈ ps, p.Valid) (hsent : List.Forall₂ (fun p bytes => PublishMsg.serialize p bufSizeSend = some bytes) ps sent)
    {envs : List ReadEnv} {s : ReadState} (hrest : s.rest = sent.flatten) {k : ℕ} {r : PacketRc × ReadState}
    (h : (readPackets bufSizeRead envs s)[k]? = some r) (hhit : r.2.hit = false) :
    ∃ p bytes, ps[k]? = some p ∧ sent[k]? = some bytes ∧ bytes.length ≤ bufSizeSend ∧
      if bytes.length ≤ bufSizeRead then r.1 = .success cptPublish ∧ p.ReadFrom r.2.bufRead else r.1 = .fail := by
  induction envs generalizing s ps sent k with
  | nil => cases h
  | cons env envs ih =>
    have hfirst : (iotxMcReadPacket env bufSizeRead s).2.hit = false := by
      cases k with
      | zero =>
        cases h
        exact hhit
      | succ k => exact (readPackets_hit hsize (k := k) h).hit_false hhit
    cases hsent with
    | nil =>
      obtain ⟨b, hb, -⟩ := readPacket_header hfirst
      rw [hrest] at hb
      cases hb
    | @cons p bytes ps sent hp hsent =>
      have hvalid := hps p List.mem_cons_self
      have hbytes : bytes = (p.packet hvalid).encoded := by
        unfold PublishMsg.serialize at hp
        split_ifs at hp
        rw [← Option.some.inj hp, ← length_body]
        rfl
      obtain ⟨htook, hr⟩ := readPacket_spec (p := p.packet hvalid) hsize (hrest.trans (by rw [List.flatten_cons, hbytes]; rfl)) hfirst
      cases k with
      | succ k => exact ih (fun q hq => hps q (List.mem_cons_of_mem p hq)) hsent hr h
      | zero =>
        cases h
        refine ⟨p, bytes, rfl, rfl, length_serialize hvalid.length hp, ?_⟩
        rw [hbytes]
        unfold Took at htook
        split_ifs at htook ⊢
        · obtain ⟨hrc, length, hmin, hval, hholds⟩ := htook
          refine ⟨hrc.trans ?_, read_of_holds hvalid hmin.1 ?_ hval hholds⟩
          · change PacketRc.success (p.header.toNat / 16) = _
            obtain ⟨hdup, hqos, hretained, -⟩ := hvalid
            rw [PublishMsg.header, cptPublish, toNat_ofNat_lt (by omega)]
            congr 1
            omega
          · exact (hmin.2 _ (isVarint_encode _) ((value_encode _).trans hval.symm)).trans (p.packet hvalid).length_le
        · exact htook

/-- "hi" on the topic "a", with QoS 1. -/
def hiMsg : PublishMsg := ⟨0, 1, 0, 7, [0x61], [0x68, 0x69]⟩

def hiWire : ReadState := ⟨[0x32, 7, 0, 1, 0x61, 0, 7, 0x68, 0x69], fun _ => 0, 0, [], false⟩

theorem published_read_hi : ∃ p bytes, [hiMsg][0]? = some p ∧ [hiWire.rest][0]? = some bytes ∧ bytes.length ≤ 16 ∧
    if bytes.length ≤ 16 then (iotxMcReadPacket fullEnv 16 hiWire).1 = .success cptPublish ∧
      p.ReadFrom (iotxMcReadPacket fullEnv 16 hiWire).2.bufRead
    else (iotxMcReadPacket fullEnv 16 hiWire).1 = .fail := by
  have hseven : mqttPacketEncode 7 = [7] := encode_small (by decide)
  have hvalid : hiMsg.Valid := ⟨by decide, by decide, by decide, by decide, nofun, by decide, by decide⟩
  have hsent : hiMsg.serialize 16 = some hiWire.rest := by
    unfold PublishMsg.serialize
    rw [if_neg (by decide), show hiMsg.serializeLength = 7 from rfl, hseven]
    rfl
  have hhit : (iotxMcReadPacket fullEnv 16 hiWire).2.hit = false := by
    simp [iotxMcReadPacket, readInto, ipstackRead, iotxMcDecodePacket, readBody, hseven, readRest, ReadState.put,
      hiWire, fullEnv, maxNoOfRemainingLengthBytes]
  have hread : (readPackets 16 [fullEnv] hiWire)[0]? = some (iotxMcReadPacket fullEnv 16 hiWire) := rfl
  exact published_read (by decide) (by simpa using hvalid) (.cons hsent .nil) (List.append_nil _).symm hread hhit

end Mqtt
