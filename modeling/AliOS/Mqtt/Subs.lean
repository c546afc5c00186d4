/-
  Subscriptions of `mqtt_client.c`, with the locks of the client: the lists of
  requests that wait for an ack, and the table of topic handles.

  Strings are given by their bytes, functions and contexts by numbers.  Callbacks
  are recorded and do not call back into the client.  What the heap, the network
  and the clock answer are arguments.
-/
import AliOS.Lib.Locks
import Mathlib.Data.Int.Notation
import Mathlib.Data.Nat.Notation

namespace Mqtt

open Lib LockM

abbrev Bytes := List UInt8

inductive Lock
  | generic
  | listPub
  | listSub
  | writeBuf
  deriving DecidableEq

/-- `iotx_mc_topic_handle_t` with a filter; `hFp` is `none` for the null pointer. -/
structure TopicHandle where
  topicFilter : Bytes
  hFp : Option ℕ
  pcontext : ℕ
  deriving DecidableEq

instance : LawfulBEq (Option TopicHandle) := inferInstance

/-- The type of a request that waits for an ack. -/
inductive SubType
  | subscribe
  | unsubscribe
  deriving DecidableEq

/-- `iotx_mc_node_t`. -/
inductive NodeState
  | normal
  | invalid
  deriving DecidableEq

/-- `iotx_mc_subsribe_info_t`. -/
structure SubInfo where
  type : SubType
  msgId : ℕ
  nodeState : NodeState
  handler : TopicHandle
  buf : Bytes
  deriving DecidableEq

/-- `iotx_mc_pub_info_t`. -/
structure PubInfo where
  nodeState : NodeState
  msgId : ℕ
  buf : Bytes
  deriving DecidableEq

/-- What the application's handlers are told. -/
inductive Event
  | subscribeNack (msgId : ℕ)
  | subscribeSuccess (msgId : ℕ)
  | subscribeTimeout (msgId : ℕ)
  | unsubscribeSuccess (msgId : ℕ)
  | unsubscribeTimeout (msgId : ℕ)
  | publish (handle : TopicHandle) (topic : Bytes)
  | publishDefault (topic : Bytes)
  deriving DecidableEq

/-- The fields of `iotx_mc_client_t` in question.  An entry of `subHandle` is `none`
    where its filter is null, a node of a list where its value is null. -/
structure SubClient where
  packetId : ℕ
  bufSend : Bytes
  bufSizeSend : ℕ
  subHandle : List (Option TopicHandle)
  connected : Bool
  listPub : List (Option PubInfo)
  listSub : List (Option SubInfo)
  handleEvent : Bool
  events : List Event
  deriving DecidableEq

/-! ## Constants -/

def subNumMax : ℕ := 10
def repubNumMax : ℕ := 20
def subRequestNumMax : ℕ := 10
def packetIdMax : ℕ := 65535

/-- The return codes in question. -/
inductive Rc
  | success
  | fail
  | networkError
  | pushToListError
  | subscribePacketError
  | unsubscribePacketError
  | subscribeAckPacketError
  | subscribeAckFailure
  | subInfoNotFound
  | unsubscribeAckPacketError
  deriving DecidableEq

abbrev Client := LockM Lock SubClient

/-! ## The lists -/

/-- How the heap answers a push: for the information, and for the node. -/
structure PushEnv where
  info : Bool
  node : Bool

def iotxMcPushPubInfoTo (len : ℤ) (msgId : ℕ) (env : PushEnv) : Client Rc := do
  let c ← get
  if len < 0 ∨ c.bufSizeSend < len then pure .fail
  else
    lock .listPub
    let c ← get
    if c.listPub.length ≥ repubNumMax then
      unlock .listPub
      pure .fail
    else if !env.info then
      unlock .listPub
      pure .fail
    else if !env.node then
      unlock .listPub
      pure .fail
    else
      modify fun c => { c with listPub := c.listPub ++ [some ⟨.normal, msgId, c.bufSend.take len.toNat⟩] }
      unlock .listPub
      pure .success

def iotxMcPushSubInfoTo (len : ℕ) (msgId : ℕ) (type : SubType) (handler : TopicHandle) (env : PushEnv) :
    Client Rc := do
  lock .listSub
  let c ← get
  if c.listSub.length ≥ subRequestNumMax then
    unlock .listSub
    pure .fail
  else if !env.info then
    unlock .listSub
    pure .fail
  else if !env.node then
    unlock .listSub
    pure .fail
  else
    modify fun c =>
      { c with listSub := c.listSub ++ [some ⟨type, msgId, .normal, handler, c.bufSend.take len⟩] }
    unlock .listSub
    pure .success

/-- The walk of `iotx_mc_mask_subInfo_from` over nodes: the nodes behind it, and the
    handler it leaves. -/
def maskNodes (msgId : ℕ) : List (Option SubInfo) → Option TopicHandle →
    List (Option SubInfo) × Option TopicHandle
  | [], h => ([], h)
  | none :: ns, h =>
    let (ns, h) := maskNodes msgId ns h
    (none :: ns, h)
  | some info :: ns, h =>
    if info.msgId = msgId then
      let (ns, h) := maskNodes msgId ns (some info.handler)
      (some { info with nodeState := .invalid } :: ns, h)
    else
      let (ns, h) := maskNodes msgId ns h
      (some info :: ns, h)

/-- `iotx_mc_mask_subInfo_from`: the handler it writes, if any; `iter` says whether
    there is memory for the iterator, which goes from the tail of the list. -/
def iotxMcMaskSubInfoFrom (msgId : ℕ) (iter : Bool) : Client (Option TopicHandle) := do
  lock .listSub
  let c ← get
  if c.listSub.length ≠ 0 then
    if !iter then
      lock .listSub
      pure none
    else
      let (ns, h) := maskNodes msgId c.listSub.reverse none
      modify fun c => { c with listSub := ns.reverse }
      unlock .listSub
      pure h
  else
    unlock .listSub
    pure none

def iotxMcGetNextPacketid : Client ℕ := do
  lock .generic
  modify fun c => { c with packetId := if c.packetId = packetIdMax then 1 else c.packetId + 1 }
  let c ← get
  unlock .generic
  pure c.packetId

/-- `iotx_mc_get_client_state`: whether the client is connected. -/
def iotxMcGetClientState : Client Bool := do
  lock .generic
  let c ← get
  unlock .generic
  pure c.connected

def iotxMcSetClientState (connected : Bool) : Client Unit := do
  lock .generic
  modify fun c => { c with connected := connected }
  unlock .generic

def notify (e : Event) : Client Unit := modify fun c => { c with events := c.events ++ [e] }

theorem notify_wp {e : Event} {Q : Unit → SubClient → (Lock → Bool) → Prop} {c : SubClient} {h : Lock → Bool} :
    wp True (notify e) Q c h ↔ Q () { c with events := c.events ++ [e] } h := Iff.rfl

/-- The walk of `MQTTSubInfoProc` over nodes: those that it keeps; `expired` is the
    clock's answer. -/
def subInfoWalk (expired : SubInfo → Bool) : List (Option SubInfo) → Client (List (Option SubInfo))
  | [] => pure []
  | none :: ns => subInfoWalk expired ns
  | some info :: ns => do
    if info.nodeState = .invalid then subInfoWalk expired ns
    else
      let connected ← iotxMcGetClientState
      if !connected ∨ !expired info then
        let rest ← subInfoWalk expired ns
        pure (some info :: rest)
      else
        unlock .listSub
        let c ← get
        if c.handleEvent then
          match info.type with
          | .subscribe => notify (.subscribeTimeout info.msgId)
          | .unsubscribe => notify (.unsubscribeTimeout info.msgId)
        else pure ()
        lock .listSub
        subInfoWalk expired ns

def mqttSubInfoProc (iter : Bool) (expired : SubInfo → Bool) : Client Rc := do
  lock .listSub
  let c ← get
  if c.listSub.length = 0 then
    unlock .listSub
    pure .success
  else if !iter then
    lock .listSub
    pure .success
  else
    let ns ← subInfoWalk expired c.listSub.reverse
    modify fun c => { c with listSub := ns.reverse }
    unlock .listSub
    pure .success

/-! ## Requests -/

/-- How the serializer, the heap and the network answer a request. -/
structure RequestEnv where
  len : ℤ
  push : PushEnv
  sent : Bool

/-- The body that `MQTTSubscribe` and `MQTTUnsubscribe` share: the packet is
    serialized, the request is pushed, and it is taken out again where the packet
    cannot be sent. -/
def sendRequest (packetError : Rc) (type : SubType) (handler : TopicHandle) (msgId : ℕ) (env : RequestEnv) :
    Client Rc := do
  lock .writeBuf
  if env.len ≤ 0 then
    unlock .writeBuf
    pure packetError
  else
    let rc ← iotxMcPushSubInfoTo env.len.toNat msgId type handler env.push
    if rc ≠ .success then
      unlock .writeBuf
      pure .pushToListError
    else if !env.sent then
      lock .listSub
      modify fun c => { c with listSub := c.listSub.dropLast }
      unlock .listSub
      unlock .writeBuf
      pure .networkError
    else
      unlock .writeBuf
      pure .success

/-- `MQTTSubscribe`, for a handler that is not null. -/
def mqttSubscribe (topicFilter : Bytes) (msgId hFp pcontext : ℕ) (env : RequestEnv) : Client Rc :=
  sendRequest .subscribePacketError .subscribe ⟨topicFilter, some hFp, pcontext⟩ msgId env

def mqttUnsubscribe (topicFilter : Bytes) (msgId : ℕ) (env : RequestEnv) : Client Rc :=
  sendRequest .unsubscribePacketError .unsubscribe ⟨topicFilter, none, 0⟩ msgId env

/-! ## Acks -/

/-- `iotx_mc_check_handle_is_identical`, for two handles with filters. -/
def handleIsIdentical (h₁ h₂ : TopicHandle) : Bool :=
  h₁.topicFilter = h₂.topicFilter && h₁.hFp = h₂.hFp && h₁.pcontext = h₂.pcontext

/-- `MQTTDeserialize_suback` of a SUBACK's body, with room for one code: the packet
    id and the code.  A body of less than two bytes is let pass, with the id left
    as it was (`junk`). -/
def mqttDeserializeSuback (body : Bytes) (junk : ℕ) : Option (ℕ × Option UInt8) :=
  match body with
  | hi :: lo :: codes =>
    if codes.length ≤ 2 then some (hi.toNat * 256 + lo.toNat, codes.head?) else none
  | _ => some (junk, none)

/-- `MQTTDeserialize_unsuback` of an UNSUBACK's body; the id starts from 0. -/
def mqttDeserializeUnsuback (body : Bytes) : ℕ :=
  match body with
  | hi :: lo :: _ => hi.toNat * 256 + lo.toNat
  | _ => 0

def iotxMcHandleRecvSuback (body : Bytes) (junk : ℕ) (iter : Bool) : Client Rc := do
  match mqttDeserializeSuback body junk with
  | none => pure .subscribeAckPacketError
  | some (msgId, code) =>
    if code = some 0x80 then
      let c ← get
      if c.handleEvent then
        notify (.subscribeNack msgId)
        pure .subscribeAckFailure
      else fault
    else
      let handler ← iotxMcMaskSubInfoFrom msgId iter
      match handler with
      | none => pure .subInfoNotFound
      | some handler =>
        if handler.hFp = none then pure .subInfoNotFound
        else
          lock .generic
          let c ← get
          let dup := c.subHandle.any fun e => e.any fun e => handleIsIdentical e handler
          if !dup ∧ none ∉ c.subHandle then pure .fail
          else
            if !dup then
              modify fun c =>
                { c with subHandle := c.subHandle.set (c.subHandle.idxOf none) (some handler) }
            else pure ()
            unlock .generic
            if c.handleEvent then notify (.subscribeSuccess msgId) else pure ()
            pure .success

theorem any_any_iff {t : List (Option TopicHandle)} {p : TopicHandle → Bool} :
    (t.any fun e => e.any p) = true ↔ ∃ e, some e ∈ t ∧ p e := by
  rw [List.any_eq_true]
  constructor
  · rintro ⟨_ | e, he, hp⟩
    · cases hp
    · exact ⟨e, he, hp⟩
  · rintro ⟨e, he, hp⟩
    exact ⟨some e, he, hp⟩

/-- The entry of the table behind an UNSUBACK that left `handler`. -/
def clearEntry (handler : TopicHandle) (e : Option TopicHandle) : Option TopicHandle :=
  if e.any fun e => handleIsIdentical e handler then none else e

/-- `iotx_mc_handle_recv_UNSUBACK`; `junk` is what the handler on the stack holds
    where no request has the id. -/
def iotxMcHandleRecvUnsuback (body : Bytes) (junk : TopicHandle) (iter : Bool) : Client Rc := do
  let msgId := mqttDeserializeUnsuback body
  let handler ← iotxMcMaskSubInfoFrom msgId iter
  lock .generic
  modify fun c => { c with subHandle := c.subHandle.map (clearEntry (handler.getD junk)) }
  let c ← get
  if c.handleEvent then notify (.unsubscribeSuccess msgId) else pure ()
  unlock .generic
  pure .success

/-! ## Publishes -/

/-- `iotx_mc_is_topic_matched`; `+` skips to the next separator, `#` to the end. -/
def iotxMcIsTopicMatched : Bytes → Bytes → Bool
  | [], ns => ns.isEmpty
  | _ :: _, [] => false
  | f :: fs, n :: ns =>
    if n = 0x2F ∧ f ≠ 0x2F then false
    else if f ≠ 0x2B ∧ f ≠ 0x23 ∧ f ≠ n then false
    else if f = 0x2B then iotxMcIsTopicMatched fs (ns.dropWhile (· ≠ 0x2F))
    else if f = 0x23 then iotxMcIsTopicMatched fs []
    else iotxMcIsTopicMatched fs ns

/-- The topic goes to the handle. -/
def topicMatches (h : TopicHandle) (topic : Bytes) : Bool :=
  topic = h.topicFilter || iotxMcIsTopicMatched h.topicFilter topic

/-- The walk of `iotx_mc_deliver_message` over the table: whether a handler was
    called. -/
def deliverWalk (topic : Bytes) : List (Option TopicHandle) → Bool → Client Bool
  | [], matched => pure matched
  | none :: es, matched => deliverWalk topic es matched
  | some h :: es, matched => do
    if topicMatches h topic then
      unlock .generic
      if h.hFp ≠ none then
        notify (.publish h topic)
        lock .generic
        deliverWalk topic es true
      else
        lock .generic
        deliverWalk topic es matched
    else deliverWalk topic es matched

def iotxMcDeliverMessage (topic : Bytes) : Client Unit := do
  lock .generic
  let c ← get
  let matched ← deliverWalk topic c.subHandle false
  unlock .generic
  if !matched ∧ c.handleEvent then notify (.publishDefault topic) else pure ()

end Mqtt
