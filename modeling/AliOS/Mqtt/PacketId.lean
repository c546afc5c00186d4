/-
  Packet ids of `mqtt_client.c`.

  The ids count from 1 to 65535 and start again, whatever still waits for an ack.  A
  publish waits until its ack comes, for it is sent again without limit; so the ids of
  what waits are distinct exactly as long as no exchange starts with the id of one that
  waits since the last round.
-/
import AliOS.Mqtt.Subs
import AliOS.Lib.Trans

namespace Mqtt

open Lib LockM

/-! ## Publishes -/

/-- `iotx_mqtt_qos_t` -/
inductive Qos
  | qos0 | qos1 | qos2
  deriving DecidableEq

/-- `MQTTPublish`, whose packet is pushed if it waits for an ack, and is taken out again
    where it cannot be sent. -/
def mqttPublish (qos : Qos) (packetId : ℕ) (env : RequestEnv) : Client Rc := do
  lock .writeBuf
  if env.len ≤ 0 then
    unlock .writeBuf
    pure .fail
  else if qos = .qos0 then
    unlock .writeBuf
    pure (if env.sent then .success else .networkError)
  else
    let rc ← iotxMcPushPubInfoTo env.len packetId env.push
    if rc ≠ .success then
      unlock .writeBuf
      pure .pushToListError
    else if !env.sent then
      lock .listPub
      modify fun c => { c with listPub := c.listPub.dropLast }
      unlock .listPub
      unlock .writeBuf
      pure .networkError
    else
      unlock .writeBuf
      pure .success

/-- What `iotx_mc_subscribe`, `iotx_mc_unsubscribe` and `iotx_mc_publish` share: the checks of the
    topic and of the state, the id, the request, and the state after it.  `topic` is the
    answer of `iotx_mc_check_topic`. -/
def request (topic takesId : Bool) (send : ℕ → Client Rc) : Client Rc := do
  if !topic then pure .fail
  else
    let connected ← iotxMcGetClientState
    if !connected then pure .fail
    else
      let msgId ← if takesId then iotxMcGetNextPacketid else pure 0
      let rc ← send msgId
      if rc = .networkError then
        iotxMcSetClientState false
        pure rc
      else pure rc

def iotxMcPublish (topic : Bool) (qos : Qos) (env : RequestEnv) : Client Rc :=
  request topic (qos ≠ .qos0) fun msgId => mqttPublish qos msgId env

def iotxMcSubscribe (topic : Bool) (topicFilter : Bytes) (hFp pcontext : ℕ) (env : RequestEnv) : Client Rc :=
  request topic true fun msgId => mqttSubscribe topicFilter msgId hFp pcontext env

def iotxMcUnsubscribe (topic : Bool) (topicFilter : Bytes) (env : RequestEnv) : Client Rc :=
  request topic true fun msgId => mqttUnsubscribe topicFilter msgId env

/-- The walk of `iotx_mc_mask_pubInfo_from` over nodes. -/
def maskPubNode (msgId : ℕ) : Option PubInfo → Option PubInfo
  | none => none
  | some info => some (if info.msgId = msgId then { info with nodeState := .invalid } else info)

def iotxMcMaskPubInfoFrom (msgId : ℕ) (iter : Bool) : Client Rc := do
  lock .listPub
  let c ← get
  if c.listPub.length ≠ 0 then
    if !iter then
      unlock .listPub
      pure .success
    else
      modify fun c => { c with listPub := c.listPub.map (maskPubNode msgId) }
      unlock .listPub
      pure .success
  else
    unlock .listPub
    pure .success

/-- `MQTTDeserialize_ack` of a PUBACK's body; a body of less than two bytes is let pass with the
    id left as it was. -/
def mqttDeserializeAck (body : Bytes) (junk : ℕ) : ℕ :=
  match body with
  | hi :: lo :: _ => hi.toNat * 256 + lo.toNat
  | _ => junk

/-- `iotx_mc_handle_recv_PUBACK`, without the report to the application. -/
def iotxMcHandleRecvPuback (body : Bytes) (junk : ℕ) (iter : Bool) : Client Rc :=
  iotxMcMaskPubInfoFrom (mqttDeserializeAck body junk) iter

/-- `MQTTRePublish`; `sent` is the answer of the network. -/
def mqttRePublish (sent : Bool) : Client Rc := do
  lock .writeBuf
  unlock .writeBuf
  pure (if sent then .success else .networkError)

/-- The walk of `MQTTPubInfoProc` over nodes: those that stay in the list. -/
def pubInfoWalk (expired sent : PubInfo → Bool) : List (Option PubInfo) → Client (List (Option PubInfo))
  | [] => pure []
  | none :: ns => pubInfoWalk expired sent ns
  | some info :: ns => do
    if info.nodeState = .invalid then pubInfoWalk expired sent ns
    else
      let connected ← iotxMcGetClientState
      if !connected ∨ !expired info then
        let rest ← pubInfoWalk expired sent ns
        pure (some info :: rest)
      else
        unlock .listPub
        let rc ← mqttRePublish (sent info)
        lock .listPub
        if rc = .networkError then
          iotxMcSetClientState false
          pure (some info :: ns)
        else
          let rest ← pubInfoWalk expired sent ns
          pure (some info :: rest)

def mqttPubInfoProcLocked (iter : Bool) (expired sent : PubInfo → Bool) : Client Rc := do
  lock .listPub
  let c ← get
  if c.listPub.length = 0 ∨ !iter then
    unlock .listPub
    pure .success
  else
    let ns ← pubInfoWalk expired sent c.listPub.reverse
    modify fun c => { c with listPub := ns.reverse }
    unlock .listPub
    pure .success

/-- What happens to a client: calls of the application, acks, and the walks of the yield. -/
inductive PacketOp
  | publish (topic : Bool) (qos : Qos) (env : RequestEnv)
  | subscribe (topic : Bool) (topicFilter : Bytes) (hFp pcontext : ℕ) (env : RequestEnv)
  | unsubscribe (topic : Bool) (topicFilter : Bytes) (env : RequestEnv)
  | puback (body : Bytes) (junk : ℕ) (iter : Bool)
  | suback (body : Bytes) (junk : ℕ) (iter : Bool)
  | unsuback (body : Bytes) (junk : TopicHandle) (iter : Bool)
  | pubInfoProc (iter : Bool) (expired sent : PubInfo → Bool)
  | subInfoProc (iter : Bool) (expired : SubInfo → Bool)
  | setState (connected : Bool)

def PacketOp.exec : PacketOp → Client Rc
  | .publish topic qos env => iotxMcPublish topic qos env
  | .subscribe topic f hFp pcontext env => iotxMcSubscribe topic f hFp pcontext env
  | .unsubscribe topic f env => iotxMcUnsubscribe topic f env
  | .puback body junk iter => iotxMcHandleRecvPuback body junk iter
  | .suback body junk iter => iotxMcHandleRecvSuback body junk iter
  | .unsuback body junk iter => iotxMcHandleRecvUnsuback body junk iter
  | .pubInfoProc iter expired sent => mqttPubInfoProcLocked iter expired sent
  | .subInfoProc iter expired => mqttSubInfoProc iter expired
  | .setState connected => do
    iotxMcSetClientState connected
    pure .success

/-! ## The property -/

/-- The id of a node that waits for an ack. -/
def pubWaits : Option PubInfo → Option ℕ
  | some info => if info.nodeState = .normal then some info.msgId else none
  | none => none

def subWaits : Option SubInfo → Option ℕ
  | some info => if info.nodeState = .normal then some info.msgId else none
  | none => none

/-- The ids of what waits in `list_pub_wait_ack` and `list_sub_wait_ack`. -/
def waitingPub (c : SubClient) : List ℕ := c.listPub.filterMap pubWaits
def waitingSub (c : SubClient) : List ℕ := c.listSub.filterMap subWaits

/-- No two entries that wait carry the same id. -/
def Distinct (c : SubClient) : Prop := (waitingPub c ++ waitingSub c).Nodup

/-- The id that is given out next. -/
def nextId (c : SubClient) : ℕ := if c.packetId = packetIdMax then 1 else c.packetId + 1

/-- `list_pub_wait_ack` takes the packet. -/
def PubRoom (c : SubClient) (len : ℤ) (env : PushEnv) : Prop :=
  len ≤ c.bufSizeSend ∧ c.listPub.length < repubNumMax ∧ env.info = true ∧ env.node = true

/-- `list_sub_wait_ack` takes the request. -/
def SubRoom (c : SubClient) (env : PushEnv) : Prop :=
  c.listSub.length < subRequestNumMax ∧ env.info = true ∧ env.node = true

/-- The request passes its checks, and is pushed and sent. -/
def PacketOp.Starts (c : SubClient) : PacketOp → Prop
  | .publish topic qos env =>
    topic = true ∧ c.connected = true ∧ qos ≠ .qos0 ∧ 0 < env.len ∧ PubRoom c env.len env.push ∧ env.sent = true
  | .subscribe topic _ _ _ env | .unsubscribe topic _ env =>
    topic = true ∧ c.connected = true ∧ 0 < env.len ∧ SubRoom c env.push ∧ env.sent = true
  | _ => False

/-- An exchange does not start with the id of one that waits. -/
def PacketMeets (s : SubClient × (Lock → Bool)) (op : PacketOp) : Prop :=
  op.Starts s.1 → nextId s.1 ∉ waitingPub s.1 ++ waitingSub s.1

/-- The operation returns. -/
def PacketStep (s : SubClient × (Lock → Bool)) (op : PacketOp) (s' : SubClient × (Lock → Bool)) : Prop :=
  ∃ rc, op.exec s.1 s.2 = .ok rc s'.1 s'.2

/-- A client as `iotx_mc_init` leaves it: nothing waits. -/
def PacketInit (s : SubClient × (Lock → Bool)) : Prop :=
  s.1.packetId = 0 ∧ s.1.listPub = [] ∧ s.1.listSub = []

/-- The id that the ack carries, where it gets to the list of publishes. -/
def PacketOp.pubAck : PacketOp → Option ℕ
  | .puback body junk true => some (mqttDeserializeAck body junk)
  | _ => none

/-- The id that the ack carries, where it gets to the list of requests. -/
def PacketOp.subAck : PacketOp → Option ℕ
  | .suback body junk _ =>
    match mqttDeserializeSuback body junk with
    | some (msgId, code) => if code = some 0x80 then none else some msgId
    | none => none
  | .unsuback body _ _ => some (mqttDeserializeUnsuback body)
  | _ => none

/-- What an operation does to what waits. -/
structure Effect (op : PacketOp) (c c' : SubClient) : Prop where
  starts : op.Starts c →
    (waitingPub c' ++ waitingSub c').Perm (nextId c :: (waitingPub c ++ waitingSub c))
  others : ¬ op.Starts c → (waitingPub c').Sublist (waitingPub c) ∧ (waitingSub c').Sublist (waitingSub c)
  pubAck : ∀ i, op.pubAck = some i → waitingPub c' = (waitingPub c).filter (· ≠ i) ∧ waitingSub c' = waitingSub c
  subAck : ∀ i, op.subAck = some i → waitingSub c' = (waitingSub c).filter (· ≠ i) ∧ waitingPub c' = waitingPub c

variable {c c' : SubClient} {h h' : Lock → Bool} {msgId : ℕ} {env : RequestEnv}

/-- What waits is as before. -/
def SameWaits (c c' : SubClient) : Prop := waitingPub c' = waitingPub c ∧ waitingSub c' = waitingSub c

theorem SameWaits.refl : SameWaits c c := ⟨rfl, rfl⟩

theorem Effect.of_same {op : PacketOp} (hs : SameWaits c c') (h₀ : ¬ op.Starts c)
    (hp : op.pubAck = none) (hq : op.subAck = none) : Effect op c c' := by
  refine ⟨fun h => absurd h h₀, fun _ => ⟨hs.1 ▸ List.Sublist.refl _, hs.2 ▸ List.Sublist.refl _⟩, ?_, ?_⟩
  · intro i hi
    rw [hp] at hi
    cases hi
  · intro i hi
    rw [hq] at hi
    cases hi

/-! ## Requests -/

theorem setState_wp {b : Bool} {Q : Unit → SubClient → (Lock → Bool) → Prop}
    (hQ : ∀ h', Q () { c with connected := b } h') : wp True (iotxMcSetClientState b) Q c h := by
  unfold iotxMcSetClientState
  refine wp_lock_bind fun _ => ?_
  rw [wp_bind, wp_modify]
  exact wp_unlock_of fun _ => hQ _

theorem getState_wp {Q : Bool → SubClient → (Lock → Bool) → Prop} (hQ : ∀ h', Q c.connected c h') :
    wp True iotxMcGetClientState Q c h := by
  unfold iotxMcGetClientState
  refine wp_lock_bind fun _ => ?_
  rw [wp_bind, wp_get]
  exact wp_unlock_bind fun _ => hQ _

theorem nextPacketid_wp {Q : ℕ → SubClient → (Lock → Bool) → Prop}
    (hQ : ∀ h', Q (nextId c) { c with packetId := nextId c } h') : wp True iotxMcGetNextPacketid Q c h := by
  unfold iotxMcGetNextPacketid
  refine wp_lock_bind fun _ => ?_
  rw [wp_bind, wp_modify, wp_bind, wp_get]
  exact wp_unlock_bind fun _ => hQ _

/-- A request of the application: what it sends finds the client with the next id. -/
theorem request_wp {topic takesId : Bool} {send : ℕ → Client Rc} {R : SubClient → Prop}
    (hR : ∀ c' b, R c' → R { c' with connected := b })
    (hf : topic = false ∨ c.connected = false → R c)
    (hs : ∀ h', topic = true → c.connected = true → takesId = false → wp True (send 0) (fun _ c' _ => R c') c h')
    (ht : ∀ h', topic = true → c.connected = true → takesId = true →
      wp True (send (nextId c)) (fun _ c' _ => R c') { c with packetId := nextId c } h') :
    wp True (request topic takesId send) (fun _ c' _ => R c') c h := by
  have hend : ∀ {rc : Rc} {c' : SubClient} {h' : Lock → Bool}, R c' →
      wp True (if rc = .networkError then do
        iotxMcSetClientState false
        pure rc
      else pure rc) (fun _ c' _ => R c') c' h' := by
    intro rc c' h' hc'
    rw [wp_ite]
    split_ifs
    · rw [wp_bind]
      exact setState_wp fun _ => hR c' false hc'
    · exact hc'
  unfold request
  cases topic with
  | false => exact hf (.inl rfl)
  | true =>
    rw [if_neg (by decide), wp_bind]
    refine getState_wp fun h1 => ?_
    cases hc : c.connected with
    | false => exact hf (.inr hc)
    | true =>
      rw [if_neg (by decide)]
      cases takesId with
      | false =>
        rw [if_neg (by decide), wp_bind, wp_pure, wp_bind]
        refine wp_mono (fun _ _ _ hc' => ?_) (hs h1 rfl hc rfl)
        exact hend hc'
      | true =>
        rw [if_pos rfl, wp_bind]
        refine nextPacketid_wp fun h2 => ?_
        rw [wp_bind]
        refine wp_mono (fun _ _ _ hc' => ?_) (ht h2 rfl hc rfl)
        exact hend hc'

theorem pushPub_wp {len : ℤ} {penv : PushEnv} {Q : Rc → SubClient → (Lock → Bool) → Prop} (h0 : 0 ≤ len)
    (hf : ∀ h', ¬ PubRoom c len penv → Q .fail c h')
    (hs : ∀ buf h', PubRoom c len penv →
      Q .success { c with listPub := c.listPub ++ [some ⟨.normal, msgId, buf⟩] } h') :
    wp True (iotxMcPushPubInfoTo len msgId penv) Q c h := by
  unfold iotxMcPushPubInfoTo
  rw [wp_bind, wp_get]
  by_cases hl : len < 0 ∨ c.bufSizeSend < len
  · rw [if_pos hl]
    refine hf _ fun hroom => ?_
    have := hroom.1
    omega
  · rw [if_neg hl]
    refine wp_lock_bind fun _ => ?_
    simp only [wp_bind, wp_get, wp_ite, wp_modify]
    split_ifs with hr hi hn <;> refine wp_unlock_of fun _ => ?_
    · exact hf _ fun hroom => Nat.not_lt.2 hr hroom.2.1
    · exact hf _ fun hroom => by simp [hroom.2.2.1] at hi
    · exact hf _ fun hroom => by simp [hroom.2.2.2] at hn
    · exact hs _ _ ⟨by omega, Nat.not_le.1 hr, by simpa using hi, by simpa using hn⟩

theorem pushSub_wp {len : ℕ} {type : SubType} {handler : TopicHandle} {penv : PushEnv}
    {Q : Rc → SubClient → (Lock → Bool) → Prop} (hf : ∀ h', ¬ SubRoom c penv → Q .fail c h')
    (hs : ∀ buf h', SubRoom c penv →
      Q .success { c with listSub := c.listSub ++ [some ⟨type, msgId, .normal, handler, buf⟩] } h') :
    wp True (iotxMcPushSubInfoTo len msgId type handler penv) Q c h := by
  unfold iotxMcPushSubInfoTo
  refine wp_lock_bind fun _ => ?_
  simp only [wp_bind, wp_get, wp_ite, wp_modify]
  split_ifs with hr hi hn <;> refine wp_unlock_of fun _ => ?_
  · exact hf _ fun hroom => Nat.not_lt.2 hr hroom.1
  · exact hf _ fun hroom => by simp [hroom.2.1] at hi
  · exact hf _ fun hroom => by simp [hroom.2.2] at hn
  · exact hs _ _ ⟨Nat.not_le.1 hr, by simpa using hi, by simpa using hn⟩

theorem waitingPub_push {buf : Bytes} :
    waitingPub { c with listPub := c.listPub ++ [some ⟨.normal, msgId, buf⟩] } = waitingPub c ++ [msgId] := by
  simp [waitingPub, pubWaits]

theorem waitingSub_push {type : SubType} {handler : TopicHandle} {buf : Bytes} :
    waitingSub { c with listSub := c.listSub ++ [some ⟨type, msgId, .normal, handler, buf⟩] } =
      waitingSub c ++ [msgId] := by
  simp [waitingSub, subWaits]

/-- What waits has the new id too, if the packet is pushed and sent, and is as before otherwise. -/
structure Pushes (ok : Prop) (c c' : SubClient) (msgId : ℕ) : Prop where
  pushed : ok → (waitingPub c' ++ waitingSub c').Perm (msgId :: (waitingPub c ++ waitingSub c))
  same : ¬ ok → SameWaits c c'

theorem Pushes.none {ok : Prop} (h : ¬ ok) : Pushes ok c c msgId := ⟨fun ho => absurd ho h, fun _ => .refl⟩

theorem publish_wp {qos : Qos} :
    wp True (mqttPublish qos msgId env) (fun _ c' _ => Pushes
      (qos ≠ .qos0 ∧ 0 < env.len ∧ PubRoom c env.len env.push ∧ env.sent = true) c c' msgId) c h := by
  unfold mqttPublish
  refine wp_lock_bind fun _ => ?_
  by_cases hl : env.len ≤ 0
  · rw [if_pos hl]
    exact wp_unlock_bind fun _ => Pushes.none fun ho => Int.not_lt.2 hl ho.2.1
  rw [if_neg hl]
  by_cases hq : qos = .qos0
  · rw [if_pos hq]
    exact wp_unlock_bind fun _ => Pushes.none fun ho => ho.1 hq
  rw [if_neg hq, wp_bind]
  refine pushPub_wp (Int.le_of_lt (Int.not_le.1 hl)) (fun h1 hf => ?_) fun buf h1 hroom => ?_
  · rw [if_pos (by decide)]
    exact wp_unlock_bind fun _ => Pushes.none fun ho => hf ho.2.2.1
  rw [if_neg (by decide)]
  cases hs : env.sent with
  | false =>
    -- the packet was not sent, and is taken out of the list again
    refine wp_lock_bind fun _ => ?_
    rw [wp_bind, wp_modify]
    refine wp_unlock_bind fun _ => wp_unlock_bind fun _ => ⟨fun ho => absurd ho.2.2.2 (by decide), fun _ => ?_⟩
    simp only [SameWaits, waitingPub, waitingSub, List.dropLast_concat]
    exact ⟨trivial, trivial⟩
  | true =>
    refine wp_unlock_bind fun _ => ⟨fun _ => ?_, fun hn => absurd ⟨hq, Int.not_le.1 hl, hroom, rfl⟩ hn⟩
    rw [waitingPub_push]
    exact (List.perm_append_singleton _ _).append_right _

theorem sendRequest_pushes {packetError : Rc} {type : SubType} {handler : TopicHandle} :
    wp True (sendRequest packetError type handler msgId env) (fun _ c' _ => Pushes
      (0 < env.len ∧ SubRoom c env.push ∧ env.sent = true) c c' msgId) c h := by
  unfold sendRequest
  refine wp_lock_bind fun _ => ?_
  by_cases hl : env.len ≤ 0
  · rw [if_pos hl]
    exact wp_unlock_bind fun _ => Pushes.none fun ho => Int.not_lt.2 hl ho.1
  rw [if_neg hl, wp_bind]
  refine pushSub_wp (fun h1 hf => ?_) fun buf h1 hroom => ?_
  · rw [if_pos (by decide)]
    exact wp_unlock_bind fun _ => Pushes.none fun ho => hf ho.2.1
  rw [if_neg (by decide)]
  cases hs : env.sent with
  | false =>
    refine wp_lock_bind fun _ => ?_
    rw [wp_bind, wp_modify]
    refine wp_unlock_bind fun _ => wp_unlock_bind fun _ => ⟨fun ho => absurd ho.2.2 (by decide), fun _ => ?_⟩
    simp only [SameWaits, waitingPub, waitingSub, List.dropLast_concat]
    exact ⟨trivial, trivial⟩
  | true =>
    refine wp_unlock_bind fun _ => ⟨fun _ => ?_, fun hn => absurd ⟨Int.not_le.1 hl, hroom, rfl⟩ hn⟩
    rw [waitingSub_push, ← List.append_assoc]
    exact List.perm_append_singleton _ _

theorem Effect.setState {op : PacketOp} {b : Bool} (h : Effect op c c') : Effect op c { c' with connected := b } :=
  ⟨h.starts, h.others, h.pubAck, h.subAck⟩

theorem request_effect {op : PacketOp} {topic takesId : Bool} {send : ℕ → Client Rc} {ok : Prop}
    (hop : op.Starts c ↔ topic = true ∧ c.connected = true ∧ ok) (hp : op.pubAck = none) (hq : op.subAck = none)
    (hid : ok → takesId = true)
    (hs : ∀ n h1 i, wp True (send i) (fun _ c' _ => Pushes ok c c' i) { c with packetId := n } h1) :
    wp True (request topic takesId send) (fun _ c' _ => Effect op c c') c h := by
  refine request_wp (fun _ _ he => he.setState) ?_ ?_ ?_
  · rintro (ht | hc)
    · exact .of_same .refl (fun ho => by simp [ht] at hop; exact hop ho) hp hq
    · exact .of_same .refl (fun ho => by simp [hc] at hop; exact hop ho) hp hq
  · intro h' _ _ hno
    refine wp_mono (fun _ c' _ hpush => ?_) (hs c.packetId h' 0)
    have hnot : ¬ ok := fun ho => Bool.false_ne_true (hno.symm.trans (hid ho))
    exact .of_same (hpush.same hnot) (fun ho => hnot (hop.1 ho).2.2) hp hq
  · intro h' ht hc _
    refine wp_mono (fun _ c' _ hpush => ?_) (hs (nextId c) h' (nextId c))
    by_cases ho : ok
    · refine ⟨fun _ => hpush.pushed ho, fun hn => absurd (hop.2 ⟨ht, hc, ho⟩) hn, ?_, ?_⟩
      · intro i hi
        rw [hp] at hi
        cases hi
      · intro i hi
        rw [hq] at hi
        cases hi
    · exact .of_same (hpush.same ho) (fun hst => ho (hop.1 hst).2.2) hp hq

/-! ## Acks -/

theorem filterMap_maskPub {ns : List (Option PubInfo)} :
    (ns.map (maskPubNode msgId)).filterMap pubWaits = (ns.filterMap pubWaits).filter (· ≠ msgId) := by
  induction ns with
  | nil => rfl
  | cons n ns ih =>
    rw [List.map_cons, List.filterMap_cons, List.filterMap_cons, ih]
    cases n with
    | none => rfl
    | some info =>
      by_cases hi : info.msgId = msgId <;> by_cases hn : info.nodeState = .normal <;>
        simp [maskPubNode, pubWaits, hi, hn]

theorem puback_wp {body : Bytes} {junk : ℕ} {iter : Bool} :
    wp True (iotxMcHandleRecvPuback body junk iter) (fun _ c' _ => Effect (.puback body junk iter) c c') c h := by
  have hmask : ∀ {c' : SubClient}, waitingSub c' = waitingSub c →
      waitingPub c' = (waitingPub c).filter (· ≠ mqttDeserializeAck body junk) →
      Effect (.puback body junk true) c c' := by
    intro c' hs hp
    refine ⟨False.elim, fun _ => ⟨hp ▸ List.filter_sublist, hs ▸ List.Sublist.refl _⟩, ?_, nofun⟩
    intro i hi
    cases hi
    exact ⟨hp, hs⟩
  unfold iotxMcHandleRecvPuback iotxMcMaskPubInfoFrom
  refine wp_lock_bind fun _ => ?_
  rw [wp_bind, wp_get]
  by_cases hl : c.listPub.length ≠ 0
  · rw [if_pos hl]
    cases iter with
    | false => exact wp_unlock_bind fun _ => .of_same .refl id rfl rfl
    | true =>
      rw [if_neg (by decide), wp_bind, wp_modify]
      exact wp_unlock_bind fun _ => hmask rfl filterMap_maskPub
  · rw [if_neg hl]
    refine wp_unlock_bind fun _ => ?_
    cases iter with
    | false => exact .of_same .refl id rfl rfl
    | true =>
      refine hmask rfl ?_
      rw [waitingPub, List.length_eq_zero_iff.1 (not_not.1 hl)]
      rfl

theorem filterMap_maskNodes {ns : List (Option SubInfo)} {hd : Option TopicHandle} :
    (maskNodes msgId ns hd).1.filterMap subWaits = (ns.filterMap subWaits).filter (· ≠ msgId) := by
  induction ns generalizing hd with
  | nil => rfl
  | cons n ns ih =>
    cases n with
    | none => exact ih
    | some info =>
      by_cases hi : info.msgId = msgId
      · by_cases hn : info.nodeState = .normal <;> simp [maskNodes, subWaits, hi, hn, ih]
      · by_cases hn : info.nodeState = .normal <;> simp [maskNodes, subWaits, hi, hn, ih]

theorem maskSub_wp {iter : Bool} {Q : Option TopicHandle → SubClient → (Lock → Bool) → Prop}
    (hQ : ∀ hd ns h', ns.filterMap subWaits = (waitingSub c).filter (· ≠ msgId) → Q hd { c with listSub := ns } h') :
    wp True (iotxMcMaskSubInfoFrom msgId iter) Q c h := by
  unfold iotxMcMaskSubInfoFrom
  refine wp_lock_bind fun _ => ?_
  rw [wp_bind, wp_get]
  by_cases hl : c.listSub.length ≠ 0
  · rw [if_pos hl]
    cases iter with
    | false =>
      rw [if_pos (by decide), wp_bind]
      exact wp_lock_taken.2 trivial
    | true =>
      rw [if_neg (by decide), wp_bind, wp_modify]
      refine wp_unlock_bind fun _ => hQ _ _ _ ?_
      rw [List.filterMap_reverse, filterMap_maskNodes, List.filterMap_reverse, List.filter_reverse, List.reverse_reverse]
      rfl
  · rw [if_neg hl]
    refine wp_unlock_bind fun _ => hQ _ c.listSub _ ?_
    rw [waitingSub, List.length_eq_zero_iff.1 (not_not.1 hl)]
    rfl

theorem Effect.subAcked {op : PacketOp} (h₀ : ¬ op.Starts c) (hp : op.pubAck = none) (hq : op.subAck = some msgId)
    (hsub : waitingSub c' = (waitingSub c).filter (· ≠ msgId)) (hpub : waitingPub c' = waitingPub c) :
    Effect op c c' := by
  refine ⟨fun h => absurd h h₀, fun _ => ⟨hpub ▸ List.Sublist.refl _, hsub ▸ List.filter_sublist⟩, ?_, ?_⟩
  · intro i hi
    rw [hp] at hi
    cases hi
  · intro i hi
    rw [hq] at hi
    cases hi
    exact ⟨hsub, hpub⟩

theorem notify_effect {op : PacketOp} {b : Bool} {e : Event} {rc : Rc} (he : Effect op c c') :
    wp True (if b then do
      notify e
      pure rc
    else pure rc) (fun _ c' _ => Effect op c c') c' h := by
  split
  · exact ⟨he.starts, he.others, he.pubAck, he.subAck⟩
  · exact he

theorem suback_effect {body : Bytes} {junk : ℕ} {iter : Bool} :
    wp True (iotxMcHandleRecvSuback body junk iter) (fun _ c' _ => Effect (.suback body junk iter) c c') c h := by
  unfold iotxMcHandleRecvSuback
  cases hb : mqttDeserializeSuback body junk with
  | none => exact .of_same .refl id rfl (by simp [PacketOp.subAck, hb])
  | some p =>
    obtain ⟨msgId, code⟩ := p
    dsimp only
    by_cases hc : code = some 0x80
    · rw [if_pos hc, wp_bind, wp_get]
      have hnone : (PacketOp.suback body junk iter).subAck = none := by simp [PacketOp.subAck, hb, hc]
      split
      · exact .of_same .refl id rfl hnone
      · exact wp_fault
    rw [if_neg hc, wp_bind]
    have hack : (PacketOp.suback body junk iter).subAck = some msgId := by simp [PacketOp.subAck, hb, hc]
    refine maskSub_wp fun hd ns h1 hns => ?_
    have heff : Effect (.suback body junk iter) c { c with listSub := ns } := .subAcked id rfl hack hns rfl
    cases hd with
    | none => exact heff
    | some handler =>
      dsimp only
      by_cases hf : handler.hFp = none
      · rw [if_pos hf]
        exact heff
      rw [if_neg hf]
      refine wp_lock_bind fun _ => ?_
      rw [wp_bind, wp_get]
      cases c.subHandle.any fun e => e.any fun e => handleIsIdentical e handler <;>
        by_cases hn : none ∈ c.subHandle <;>
        simp only [hn, Bool.not_true, Bool.not_false, Bool.false_eq_true, if_true, if_false, not_true,
          not_false_eq_true, and_true, and_false, wp_bind, wp_modify]
      · exact wp_unlock_of fun _ => notify_effect ⟨heff.starts, heff.others, heff.pubAck, heff.subAck⟩
      · exact heff
      · exact wp_unlock_of fun _ => notify_effect heff
      · exact wp_unlock_of fun _ => notify_effect heff

theorem unsuback_effect {body : Bytes} {junk : TopicHandle} {iter : Bool} :
    wp True (iotxMcHandleRecvUnsuback body junk iter) (fun _ c' _ => Effect (.unsuback body junk iter) c c') c h := by
  unfold iotxMcHandleRecvUnsuback
  rw [wp_bind]
  refine maskSub_wp fun hd ns h1 hns => ?_
  have heff : ∀ {t es}, Effect (.unsuback body junk iter) c { c with listSub := ns, subHandle := t, events := es } :=
    .subAcked id rfl rfl hns rfl
  refine wp_lock_bind fun _ => ?_
  rw [wp_bind, wp_modify, wp_bind, wp_get]
  split
  · rw [wp_bind, notify_wp]
    exact wp_unlock_bind fun _ => heff
  · exact wp_unlock_bind fun _ => heff

/-! ## Walks -/

theorem pubInfoWalk_wp {expired sent : PubInfo → Bool} {ns : List (Option PubInfo)}
    {Q : List (Option PubInfo) → SubClient → (Lock → Bool) → Prop} (hc : SameWaits c0 c)
    (hQ : ∀ ns' c' h', ns'.filterMap pubWaits = ns.filterMap pubWaits → SameWaits c0 c' → Q ns' c' h') :
    wp True (pubInfoWalk expired sent ns) Q c h := by
  induction ns generalizing c h Q with
  | nil => exact hQ _ _ _ rfl hc
  | cons n ns ih =>
    cases n with
    | none => exact ih hc fun ns' c' h' hs => hQ ns' c' h' hs
    | some info =>
      unfold pubInfoWalk
      split_ifs with hv
      · refine ih hc fun ns' c' h' hs => hQ ns' c' h' ?_
        rw [hs, List.filterMap_cons]
        simp [pubWaits, hv]
      -- a node that waits stays, whether it is sent again or not
      have hkeep : ∀ {ns' : List (Option PubInfo)}, ns'.filterMap pubWaits = ns.filterMap pubWaits →
          (some info :: ns').filterMap pubWaits = (some info :: ns).filterMap pubWaits := by
        intro ns' hs
        rw [List.filterMap_cons, List.filterMap_cons, hs]
      rw [wp_bind]
      refine getState_wp fun h1 => ?_
      rw [wp_ite]
      split_ifs with hx
      · rw [wp_bind]
        exact ih hc fun ns' c' h' hs hc' => hQ _ c' h' (hkeep hs) hc'
      · refine wp_unlock_bind fun _ => ?_
        rw [wp_bind]
        unfold mqttRePublish
        refine wp_lock_bind fun _ => wp_unlock_bind fun _ => ?_
        refine wp_lock_bind fun _ => ?_
        cases sent info with
        | false =>
          rw [if_pos (by decide), wp_bind]
          exact setState_wp fun h' => hQ _ _ h' rfl hc
        | true =>
          rw [if_neg (by decide), wp_bind]
          exact ih hc fun ns' c' h' hs hc' => hQ _ c' h' (hkeep hs) hc'

theorem pubInfoProc_wp {iter : Bool} {expired sent : PubInfo → Bool} :
    wp True (mqttPubInfoProcLocked iter expired sent) (fun _ c' _ => SameWaits c c') c h := by
  unfold mqttPubInfoProcLocked
  refine wp_lock_bind fun _ => ?_
  rw [wp_bind, wp_get]
  split_ifs
  · exact wp_unlock_bind fun _ => .refl
  · rw [wp_bind]
    refine pubInfoWalk_wp .refl fun ns c' h' hs hc => ?_
    rw [wp_bind, wp_modify]
    refine wp_unlock_bind fun _ => ⟨?_, hc.2⟩
    rw [waitingPub, List.filterMap_reverse, hs, List.filterMap_reverse, List.reverse_reverse]
    rfl

theorem subInfoWalk_waits {expired : SubInfo → Bool} {ns : List (Option SubInfo)}
    {Q : List (Option SubInfo) → SubClient → (Lock → Bool) → Prop} (hc : SameWaits c0 c)
    (hQ : ∀ ns' c' h', (ns'.filterMap subWaits).Sublist (ns.filterMap subWaits) → SameWaits c0 c' → Q ns' c' h') :
    wp True (subInfoWalk expired ns) Q c h := by
  induction ns generalizing c h Q with
  | nil => exact hQ _ _ _ (List.Sublist.refl _) hc
  | cons n ns ih =>
    have hskip : ∀ ns' c' h', (ns'.filterMap subWaits).Sublist (ns.filterMap subWaits) → SameWaits c0 c' →
        Q ns' c' h' := by
      intro ns' c' h' hs
      refine hQ ns' c' h' (hs.trans ?_)
      exact List.Sublist.filterMap subWaits (List.sublist_cons_self n ns)
    cases n with
    | none => exact ih hc hskip
    | some info =>
      unfold subInfoWalk
      split_ifs with hv
      · exact ih hc hskip
      rw [wp_bind]
      refine getState_wp fun h1 => ?_
      rw [wp_ite]
      split_ifs with hx
      · rw [wp_bind]
        refine ih hc fun ns' c' h' hs hc' => hQ _ c' h' ?_ hc'
        rw [List.filterMap_cons, List.filterMap_cons]
        cases subWaits (some info) with
        | none => exact hs
        | some i => exact hs.cons_cons i
      · refine wp_unlock_bind fun _ => ?_
        have hlock : ∀ {c' : SubClient} {h'}, SameWaits c0 c' →
            wp True (lock .listSub) (fun _ => wp True (subInfoWalk expired ns) Q) c' h' :=
          fun hc' => wp_lock_of fun _ => ih hc' hskip
        cases info.type <;> simp only [wp_bind, wp_get, wp_ite, notify_wp] <;> split_ifs
        · exact hlock hc
        · exact hlock hc
        · exact hlock hc
        · exact hlock hc

theorem subInfoProc_effect {iter : Bool} {expired : SubInfo → Bool} :
    wp True (mqttSubInfoProc iter expired) (fun _ c' _ => Effect (.subInfoProc iter expired) c c') c h := by
  unfold mqttSubInfoProc
  refine wp_lock_bind fun _ => ?_
  rw [wp_bind, wp_get]
  split_ifs
  · exact wp_unlock_bind fun _ => .of_same .refl id rfl rfl
  · rw [wp_bind]
    exact wp_lock_taken.2 trivial
  · rw [wp_bind]
    refine subInfoWalk_waits .refl fun ns c' h' hs hc => ?_
    rw [wp_bind, wp_modify]
    refine wp_unlock_bind fun _ => ⟨False.elim, fun _ => ⟨hc.1 ▸ List.Sublist.refl _, ?_⟩, nofun, nofun⟩
    have hrev := hs.reverse
    rw [List.filterMap_reverse, List.reverse_reverse] at hrev
    simpa only [waitingSub, List.filterMap_reverse] using hrev

/-! ## Runs -/

theorem exec_effect {op : PacketOp} {rc : Rc} (he : op.exec c h = .ok rc c' h') : Effect op c c' := by
  have hw : wp True op.exec (fun _ c' _ => Effect op c c') c h := by
    cases op with
    | publish topic qos env =>
      refine request_effect Iff.rfl rfl rfl (fun ho => decide_eq_true ho.1) fun n h1 i => ?_
      exact wp_mono (fun _ _ _ hpush => ⟨hpush.pushed, hpush.same⟩) publish_wp
    | subscribe topic f hFp pcontext env =>
      refine request_effect Iff.rfl rfl rfl (fun _ => rfl) fun n h1 i => ?_
      exact wp_mono (fun _ _ _ hpush => ⟨hpush.pushed, hpush.same⟩) sendRequest_pushes
    | unsubscribe topic f env =>
      refine request_effect Iff.rfl rfl rfl (fun _ => rfl) fun n h1 i => ?_
      exact wp_mono (fun _ _ _ hpush => ⟨hpush.pushed, hpush.same⟩) sendRequest_pushes
    | puback body junk iter => exact puback_wp
    | suback body junk iter => exact suback_effect
    | unsuback body junk iter => exact unsuback_effect
    | pubInfoProc iter expired sent => exact wp_mono (fun _ _ _ hs => .of_same hs id rfl rfl) pubInfoProc_wp
    | subInfoProc iter expired => exact subInfoProc_effect
    | setState connected =>
      refine wp_bind.2 ?_
      exact setState_wp fun _ => .of_same .refl id rfl rfl
  exact of_ok hw he

theorem Distinct.step_iff {s s' : SubClient × (Lock → Bool)} {op : PacketOp} (hd : Distinct s.1)
    (hs : PacketStep s op s') : Distinct s'.1 ↔ PacketMeets s op := by
  obtain ⟨rc, he⟩ := hs
  have heff : Effect op s.1 s'.1 := exec_effect he
  by_cases ho : op.Starts s.1
  · have hcons : Distinct s'.1 ↔ nextId s.1 ∉ waitingPub s.1 ++ waitingSub s.1 := by
      rw [Distinct, (heff.starts ho).nodup_iff, List.nodup_cons]
      exact and_iff_left hd
    rw [hcons]
    exact ⟨fun hn _ => hn, fun hm => hm ho⟩
  · obtain ⟨hp, hq⟩ := heff.others ho
    exact ⟨fun _ h => absurd h ho, fun _ => hd.sublist (hp.append hq)⟩

theorem filter_ne_eq_erase {l : List ℕ} (hn : l.Nodup) : l.filter (· ≠ msgId) = l.erase msgId := by
  rw [hn.erase_eq_filter]
  refine List.filter_congr fun i _ => ?_
  simp [bne, beq_eq_decide]

/-- **Packet ids are distinct** in every run in which no exchange starts with the id of one
    that waits; the next operation keeps them so exactly under this condition; and an ack takes
    out the one entry with its id. -/
theorem packet_ids_distinct {s₀ s : SubClient × (Lock → Bool)} {ops : List PacketOp} (hi : PacketInit s₀)
    (hr : Run (restrict PacketMeets PacketStep) s₀ ops s) :
    Distinct s.1 ∧ ∀ op s', PacketStep s op s' →
      (Distinct s'.1 ↔ PacketMeets s op) ∧
      (∀ i, op.pubAck = some i → waitingPub s'.1 = (waitingPub s.1).erase i ∧ waitingSub s'.1 = waitingSub s.1) ∧
      ∀ i, op.subAck = some i → waitingSub s'.1 = (waitingSub s.1).erase i ∧ waitingPub s'.1 = waitingPub s.1 := by
  have h₀ : Distinct s₀.1 := by
    obtain ⟨-, hp, hs⟩ := hi
    rw [Distinct, waitingPub, waitingSub, hp, hs]
    exact List.nodup_nil
  have hd : Distinct s.1 := by
    refine hr.keeps (I := fun s => Distinct s.1) ?_ h₀
    intro s op s' hd hs
    exact (hd.step_iff hs.2).2 hs.1
  refine ⟨hd, fun op s' hs => ⟨hd.step_iff hs, ?_, ?_⟩⟩
  · intro i hack
    obtain ⟨rc, he⟩ := hs
    obtain ⟨hp, hq⟩ := (exec_effect he).pubAck i hack
    have hn : (waitingPub s.1).Nodup := (List.nodup_append.1 hd).1
    exact ⟨hp.trans (filter_ne_eq_erase hn), hq⟩
  · intro i hack
    obtain ⟨rc, he⟩ := hs
    obtain ⟨hp, hq⟩ := (exec_effect he).subAck i hack
    have hn : (waitingSub s.1).Nodup := (List.nodup_append.1 hd).2.1
    exact ⟨hp.trans (filter_ne_eq_erase hn), hq⟩

/-! ## A round of the counter -/

/-- A connected client with no lock held. -/
def publisherWith (n : ℕ) (pubs : List (Option PubInfo)) : SubClient × (Lock → Bool) :=
  (⟨n, [], 10, [], true, pubs, [], false, []⟩, fun _ => false)

/-- A publish that is sent. -/
def sentPublish : PacketOp := .publish true .qos1 ⟨2, ⟨true, true⟩, true⟩

/-- A subscription whose packet does not fit. -/
def failedSubscribe : PacketOp := .subscribe true [] 0 0 ⟨0, ⟨true, true⟩, true⟩

theorem PacketStep.of_free {s s' : SubClient × (Lock → Bool)} {op : PacketOp}
    (h : ∃ rc h', op.exec s.1 s.2 = .ok rc s'.1 h' ∧ ∀ l, h' l = s'.2 l) : PacketStep s op s' := by
  obtain ⟨rc, h', he, hl⟩ := h
  exact ⟨rc, (funext hl : h' = s'.2) ▸ he⟩

theorem failedSubscribe_step {n : ℕ} {pubs : List (Option PubInfo)} (hn : n ≠ packetIdMax) :
    PacketStep (publisherWith n pubs) failedSubscribe (publisherWith (n + 1) pubs) := by
  have hnext : publisherWith (n + 1) pubs = publisherWith (nextId (publisherWith n pubs).1) pubs := by
    rw [nextId]
    exact congrArg (publisherWith · pubs) (if_neg hn).symm
  rw [hnext]
  exact .of_free ⟨_, _, rfl, fun l => by cases l <;> rfl⟩

theorem failedSubscribes_run {k n : ℕ} {pubs : List (Option PubInfo)} (hk : n + k ≤ packetIdMax) :
    Run PacketStep (publisherWith n pubs) (List.replicate k failedSubscribe) (publisherWith (n + k) pubs) := by
  induction k generalizing n with
  | zero => exact .nil
  | succ k ih =>
    have hrest := ih (n := n + 1) (by omega)
    rw [Nat.add_assoc, Nat.add_comm 1 k] at hrest
    exact .cons (failedSubscribe_step (by omega)) hrest

/-- The first publish, which gets the id 1. -/
theorem packet_ids_distinct_one :
    ∃ ops s, Run (restrict PacketMeets PacketStep) (publisherWith 0 []) ops s ∧ waitingPub s.1 = [1] ∧ Distinct s.1 := by
  have hs : PacketStep (publisherWith 0 []) sentPublish (publisherWith 1 [some ⟨.normal, 1, []⟩]) :=
    .of_free ⟨_, _, rfl, fun l => by cases l <;> rfl⟩
  have hr : Run (restrict PacketMeets PacketStep) (publisherWith 0 []) [sentPublish]
      (publisherWith 1 [some ⟨.normal, 1, []⟩]) := .single ⟨fun _ => List.not_mem_nil, hs⟩
  exact ⟨_, _, hr, rfl, (packet_ids_distinct ⟨rfl, rfl, rfl⟩ hr).1⟩

/-- A publish waits while 65534 further ids are taken; the next publish gets its id. -/
theorem packet_ids_not_distinct :
    ∃ ops s, Run PacketStep (publisherWith 0 []) ops s ∧ waitingPub s.1 = [1, 1] ∧ ¬ Distinct s.1 := by
  let first : PubInfo := ⟨.normal, 1, []⟩
  have h1 : PacketStep (publisherWith 0 []) sentPublish (publisherWith 1 [some first]) :=
    .of_free ⟨_, _, rfl, fun l => by cases l <;> rfl⟩
  have h2 : Run PacketStep (publisherWith 1 [some first]) (List.replicate 65534 failedSubscribe)
      (publisherWith 65535 [some first]) := failedSubscribes_run (Nat.le_refl _)
  have h3 : PacketStep (publisherWith 65535 [some first]) sentPublish (publisherWith 1 [some first, some first]) :=
    .of_free ⟨_, _, rfl, fun l => by cases l <;> rfl⟩
  refine ⟨_, _, .cons h1 (h2.snoc h3), rfl, ?_⟩
  intro hd
  exact absurd (show [1, 1].Nodup from hd) (by decide)

end Mqtt
