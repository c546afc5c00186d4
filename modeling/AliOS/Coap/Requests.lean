/-
  Requests with their ids and tokens: `CoAPMessageId_gen`, and the functions of
  `iotx_coap_api.c` that send.

  Ids come from a counter, the tokens of `IOT_CoAP_SendMessage` and
  `IOT_CoAP_DeviceNameAuth` from another, and `IOT_CoAP_SendMessage_block` uses the
  constant token.  On the list, ids and tokens stay different while the condition
  `CallOk` is met.
-/
import AliOS.Coap.SendRun

namespace Coap

open Lib

/-! ## The generators -/

def coapMessageIdGen (c : CoAPContext) : UInt16 × CoAPContext :=
  if c.messageId = 65535 then (1, c) else (c.messageId, { c with messageId := c.messageId + 1 })

/-- The four bytes of a token. -/
def encodeToken (value : UInt32) : Bytes :=
  [byte ((value.toNat &&& 0x00FF) >>> 0), byte ((value.toNat &&& 0xFF00) >>> 8),
    byte ((value.toNat &&& 0xFF0000) >>> 16), byte ((value.toNat &&& 0xFF000000) >>> 24)]

def iotxGetCoapToken (c : CoAPContext) : Bytes × CoAPContext :=
  (encodeToken c.coapToken, { c with coapToken := c.coapToken + 1 })

/-- `iotx_get_coap_token_const`, into a field of eight zeros. -/
def iotxGetCoapTokenConst (c : CoAPContext) : Bytes := encodeToken c.tokenConst ++ List.replicate 4 0

/-! ## The functions that send -/

/-- The arguments of `IOT_CoAP_SendMessage`, as it reads them: `valid` if the
    pointers, types and the payload's length pass the checks, `path` the segments
    of the URI, `none` if it is too long. -/
structure Request where
  valid : Bool
  path : Option (List Bytes)
  cbor : Bool
  authToken : Bytes
  payload : Bytes
  handler : Bool

def optUriPath : UInt16 := 11
def optContentFormat : UInt16 := 12
def optAccept : UInt16 := 17
def optAuthToken : UInt16 := 61
def ctAppOctetStream : UInt32 := 42
def ctAppJson : UInt32 := 50
def ctAppCbor : UInt32 := 60

/-- The confirmable POST with an id, a token, options and a payload. -/
def postMessage (msgid : UInt16) (token : Bytes) (handler : Bool) (opts : List (UInt16 × OptData))
    (payload : Bytes) : CoAPMessage :=
  build ([.type 0, .code 2, .msgid msgid, .token token, .handler handler] ++
    (opts.map fun o => Fill.option o.1 o.2) ++ [.payload payload])

/-- The options of a request, with a block option or without. -/
def requestOpts (r : Request) (segs : List Bytes) (blockOpt : List (UInt16 × OptData)) :
    List (UInt16 × OptData) :=
  segs.map (fun seg => (optUriPath, OptData.str seg)) ++
    [(optContentFormat, .uint (if r.cbor then ctAppCbor else ctAppJson)),
      (optAccept, .uint ctAppOctetStream)] ++ blockOpt ++ [(optAuthToken, .str r.authToken)]

def iotCoAPSendMessage (c : CoAPContext) (r : Request) (env : SendEnv) : CoAPContext :=
  if !r.valid then c
  else if c.isAuthed then
    let (msgid, c) := coapMessageIdGen c
    let (token, c) := iotxGetCoapToken c
    match r.path with
    | none => c
    | some segs =>
      coapMessageSend c (postMessage msgid token r.handler (requestOpts r segs []) r.payload) env
  else c

/-- `IOT_CoAP_SendMessage_block`, with the value of the block option given. -/
def iotCoAPSendMessageBlock (c : CoAPContext) (r : Request) (blockType : UInt16) (blockVal : Bytes)
    (env : SendEnv) : CoAPContext :=
  if !r.valid then c
  else if c.isAuthed then
    let (msgid, c) := coapMessageIdGen c
    let token := iotxGetCoapTokenConst c
    match r.path with
    | none => c
    | some segs =>
      coapMessageSend c
        (postMessage msgid token r.handler (requestOpts r segs [(blockType, .str blockVal)]) r.payload) env
  else c

/-- `IOTX_AUTH_STR`. -/
def authStr : Bytes := [0x61, 0x75, 0x74, 0x68]

/-- `IOT_CoAP_DeviceNameAuth`; `payload` is `none` where no memory is left for it. -/
def iotCoAPDeviceNameAuth (c : CoAPContext) (payload : Option Bytes) (env : SendEnv) : CoAPContext :=
  let (msgid, c) := coapMessageIdGen c
  let (token, c) := iotxGetCoapToken c
  match payload with
  | none => c
  | some payload =>
    coapMessageSend c
      (postMessage msgid token true
        [(optUriPath, .str authStr), (optContentFormat, .uint ctAppJson), (optAccept, .uint ctAppJson)]
        payload) env

/-! ## The system -/

/-- A call of the application or of a handler; `authed` is the handler's finding of
    a token in the response to an authentication. -/
inductive Call
  | message (r : Request) (env : SendEnv)
  | block (r : Request) (blockType : UInt16) (blockVal : Bytes) (env : SendEnv)
  | deviceNameAuth (payload : Option Bytes) (env : SendEnv)
  | authed

def Call.run (c : CoAPContext) : Call → CoAPContext
  | .message r env => iotCoAPSendMessage c r env
  | .block r blockType blockVal env => iotCoAPSendMessageBlock c r blockType blockVal env
  | .deviceNameAuth payload env => iotCoAPDeviceNameAuth c payload env
  | .authed => { c with isAuthed := true }

def runAll (ks : List Call) (c : CoAPContext) : CoAPContext := ks.foldl Call.run c

/-- A step: a call, an arrival with what the handler does, or a cycle. -/
inductive CoapAct
  | call (k : Call)
  | arrive (m : CoAPMessage) (env : SendEnv) (ks : List Call)
  | cycle

def coapStep (c : CoAPContext) : CoapAct → CoAPContext
  | .call k => k.run c
  | .arrive m env ks => coapMessageHandle c m env (runAll ks)
  | .cycle => coapMessageCycle c

abbrev CoapStep := Fn coapStep

/-! ## The condition -/

/-- Once the counter has stopped at 65535, ids are 1. -/
def IdFree (c : CoAPContext) : Prop := c.messageId = 65535 → ∀ n ∈ c.sendlist, n.msgid ≠ 1

/-- The counter of tokens has not come back to the token of a listed request. -/
def TokenFree (c : CoAPContext) : Prop := ∀ n ∈ c.sendlist, n.token ≠ encodeToken c.coapToken

/-- No block request is on the list. -/
def BlockFree (c : CoAPContext) : Prop := ∀ n ∈ c.sendlist, n.token ≠ iotxGetCoapTokenConst c

def CallOk (c : CoAPContext) : Call → Prop
  | .message .. | .deviceNameAuth .. => IdFree c ∧ TokenFree c
  | .block .. => IdFree c ∧ BlockFree c
  | .authed => True

def CallsOk (c : CoAPContext) : List Call → Prop
  | [] => True
  | k :: ks => CallOk c k ∧ CallsOk (k.run c) ks

/-- **The condition** for a step. -/
def RequestsOk (c : CoAPContext) : CoapAct → Prop
  | .call k => CallOk c k
  | .arrive _ _ ks => ∀ u, CallsOk { c with log := c.log ++ [.handled u] } ks
  | .cycle => True

/-! ## What the messages bear -/

variable {T : Prop} {b b' : Option ℕ} {c c' : CoAPContext} {n : CoAPSendNode} {m : CoAPMessage}
  {env : SendEnv} {k : Call} {ks : List Call} {a : CoapAct} {as : List CoapAct}

theorem foldl_options (m : CoAPMessage) (opts : List (UInt16 × OptData)) :
    ((opts.map fun o => Fill.option o.1 o.2).foldl Fill.run m).header = m.header ∧
      ((opts.map fun o => Fill.option o.1 o.2).foldl Fill.run m).token = m.token := by
  induction opts generalizing m with
  | nil => exact ⟨rfl, rfl⟩
  | cons o opts ih =>
    have hone : (Fill.run m (.option o.1 o.2)).header = m.header ∧
        (Fill.run m (.option o.1 o.2)).token = m.token := by
      cases o.2 with
      | str data =>
        unfold Fill.run coapStrOptionAdd
        split_ifs <;> exact ⟨rfl, rfl⟩
      | uint data =>
        unfold Fill.run coapUintOptionAdd
        split_ifs <;> exact ⟨rfl, rfl⟩
    rw [List.map_cons, List.foldl_cons]
    exact ⟨(ih _).1.trans hone.1, (ih _).2.trans hone.2⟩

theorem postMessage_fields (msgid : UInt16) {token : Bytes} (ht : token.length ≤ maxTokenLen)
    (handler : Bool) (opts : List (UInt16 × OptData)) (payload : Bytes) :
    (postMessage msgid token handler opts payload).header.msgid = msgid.toNat ∧
      (postMessage msgid token handler opts payload).token = token := by
  unfold postMessage build
  rw [List.foldl_append, List.foldl_append, List.foldl_cons, List.foldl_nil]
  obtain ⟨hh, htok⟩ := foldl_options ([Fill.type 0, .code 2, .msgid msgid, .token token,
    .handler handler].foldl Fill.run coapMessageInit) opts
  have hset : ∀ m : CoAPMessage, (Fill.run m (.token token)).token = token ∧
      (Fill.run m (.token token)).header.msgid = m.header.msgid := by
    intro m
    unfold Fill.run coapMessageTokenSet
    dsimp only
    rw [if_neg (by omega)]
    exact ⟨rfl, rfl⟩
  constructor
  · change (List.foldl Fill.run _ (opts.map _)).header.msgid = _
    rw [hh]
    refine (hset _).2.trans ?_
    exact Nat.mod_eq_of_lt msgid.toNat_lt
  · change (List.foldl Fill.run _ (opts.map _)).token = _
    rw [htok]
    exact (hset _).1

/-! ## Ids and tokens on the list -/

/-- The ids on the list are different and below the counter, and the tokens are
    different, each of four bytes or the constant one. -/
structure MatchInv (c : CoAPContext) : Prop where
  ids : (c.sendlist.map CoAPSendNode.msgid).Nodup
  lt : ∀ n ∈ c.sendlist, n.msgid < c.messageId.toNat
  tokens : (c.sendlist.map CoAPSendNode.token).Nodup
  shape : ∀ n ∈ c.sendlist, n.token.length = 4 ∨ n.token = iotxGetCoapTokenConst c

/-- The message has an id and a token that no node on the list has. -/
structure FreshIn (c : CoAPContext) (m : CoAPMessage) : Prop where
  id : ∀ n ∈ c.sendlist, n.msgid ≠ m.header.msgid
  lt : m.header.msgid < c.messageId.toNat
  token : ∀ n ∈ c.sendlist, n.token ≠ m.token
  shape : m.token.length = 4 ∨ m.token = iotxGetCoapTokenConst c

theorem nodup_snoc {α : Type*} {l : List α} {a : α} (h : l.Nodup) (ha : a ∉ l) : (l ++ [a]).Nodup :=
  List.nodup_append'.2 ⟨h, List.nodup_singleton _, List.disjoint_singleton.2 ha⟩

theorem MatchInv.add (h : MatchInv c) (hadd : Add FreshIn c c') : MatchInv c' := by
  cases hadd with
  | counters id tok authed hle =>
    exact ⟨h.ids, fun n hn => (h.lt n hn).trans_le hle, h.tokens, h.shape⟩
  | node m dg copy hf =>
    unfold addNode
    refine ⟨?_, fun n hn => ?_, ?_, fun n hn => ?_⟩
    · rw [List.map_append, List.map_singleton]
      refine nodup_snoc h.ids fun hm => ?_
      obtain ⟨x, hx, he⟩ := List.mem_map.1 hm
      exact hf.id x hx he
    · rcases List.mem_append.1 hn with hn | hn
      · exact h.lt n hn
      · rw [List.mem_singleton.1 hn]
        exact hf.lt
    · rw [List.map_append, List.map_singleton]
      refine nodup_snoc h.tokens fun hm => ?_
      obtain ⟨x, hx, he⟩ := List.mem_map.1 hm
      exact hf.token x hx he
    · rcases List.mem_append.1 hn with hn | hn
      · exact h.shape n hn
      · rw [List.mem_singleton.1 hn]
        exact hf.shape

theorem MatchInv.of_sublist {ns : List CoAPSendNode} (h : MatchInv c)
    (hs : (ns.map fun n => (n.msgid, n.token)).Sublist (c.sendlist.map fun n => (n.msgid, n.token)))
    (hid : c'.messageId = c.messageId) (htc : c'.tokenConst = c.tokenConst) (hl : c'.sendlist = ns) :
    MatchInv c' := by
  have hids : (ns.map CoAPSendNode.msgid).Sublist (c.sendlist.map CoAPSendNode.msgid) := by
    simpa [Function.comp_def] using hs.map Prod.fst
  have htokens : (ns.map CoAPSendNode.token).Sublist (c.sendlist.map CoAPSendNode.token) := by
    simpa [Function.comp_def] using hs.map Prod.snd
  subst hl
  refine ⟨h.ids.sublist hids, fun n hn => ?_, h.tokens.sublist htokens, fun n hn => ?_⟩
  · obtain ⟨x, hx, he⟩ := List.mem_map.1 (hids.subset (List.mem_map_of_mem hn))
    rw [hid, ← he]
    exact h.lt x hx
  · obtain ⟨x, hx, he⟩ := List.mem_map.1 (htokens.subset (List.mem_map_of_mem hn))
    unfold iotxGetCoapTokenConst
    rw [htc, ← he]
    exact h.shape x hx

theorem MatchInv.move (h : MatchInv c) (hm : Move T FreshIn (b, c) (b', c')) : MatchInv c' := by
  cases hm with
  | add hadd => exact h.add hadd
  | mark hl =>
    refine h.of_sublist ?_ rfl rfl rfl
    rw [hl, List.map_append, List.map_append]
    exact List.Sublist.refl _
  | resend _ hl =>
    refine h.of_sublist ?_ rfl rfl rfl
    rw [hl, List.map_append, List.map_append, List.map_cons, List.map_cons, retransmit_msgid,
      retransmit_token]
  | tick _ hl =>
    refine h.of_sublist ?_ rfl rfl rfl
    rw [hl, List.map_append, List.map_append]
    exact List.Sublist.refl _
  | call => exact ⟨h.ids, h.lt, h.tokens, h.shape⟩
  | remove hl =>
    refine h.of_sublist ?_ rfl rfl rfl
    rw [hl]
    exact ((List.sublist_cons_self _ _).append_left _).map _

theorem MatchInv.moves (h : MatchInv c) (hm : Moves T FreshIn (b, c) (b', c')) : MatchInv c' := by
  have hall : ∀ p : Option ℕ × CoAPContext, Moves T FreshIn (b, c) p → MatchInv p.2 := by
    intro p hp
    induction hp with
    | refl => exact h
    | tail _ hmove ih => exact ih.move hmove
  exact hall _ hm

theorem MatchInv.adds (h : MatchInv c) (hadds : Adds FreshIn c c') : MatchInv c' :=
  h.moves (T := True) (b := none) (moves_adds hadds)

/-! ## Calls -/

theorem encodeToken_length (v : UInt32) : (encodeToken v).length = 4 := rfl

theorem const_length (c : CoAPContext) : (iotxGetCoapTokenConst c).length = 8 := rfl

theorem messageIdGen_spec (h : MatchInv c) (hf : IdFree c) :
    (∀ n ∈ c.sendlist, n.msgid ≠ (coapMessageIdGen c).1.toNat) ∧
      (coapMessageIdGen c).1.toNat < (coapMessageIdGen c).2.messageId.toNat ∧
      c.messageId.toNat ≤ (coapMessageIdGen c).2.messageId.toNat := by
  unfold coapMessageIdGen
  by_cases hend : c.messageId = 65535
  · rw [if_pos hend]
    refine ⟨hf hend, ?_, le_rfl⟩
    dsimp only
    rw [hend]
    decide
  · rw [if_neg hend]
    have hlt : c.messageId.toNat < 65535 := by
      have := c.messageId.toNat_lt
      have hne : c.messageId.toNat ≠ 65535 := fun he => hend (UInt16.toNat_inj.1 he)
      omega
    have hsucc : (c.messageId + 1).toNat = c.messageId.toNat + 1 := by
      rw [UInt16.toNat_add]
      change (c.messageId.toNat + 1) % 2 ^ 16 = _
      omega
    refine ⟨fun n hn he => ?_, ?_, ?_⟩
    · have := h.lt n hn
      exact absurd he (by dsimp only; omega)
    all_goals
      dsimp only
      omega

/-- The counters behind a request. -/
def afterGen (c : CoAPContext) (coapToken : UInt32) : CoAPContext :=
  { c with messageId := (coapMessageIdGen c).2.messageId, coapToken }

theorem freshIn_post (h : MatchInv c) (hid : IdFree c) {token : Bytes} (hlen : token.length ≤ maxTokenLen)
    (htok : ∀ n ∈ c.sendlist, n.token ≠ token)
    (hshape : token.length = 4 ∨ token = iotxGetCoapTokenConst c) (coapToken : UInt32) (handler : Bool)
    (opts : List (UInt16 × OptData)) (payload : Bytes) :
    FreshIn (afterGen c coapToken) (postMessage (coapMessageIdGen c).1 token handler opts payload) := by
  obtain ⟨hne, hlt, -⟩ := messageIdGen_spec h hid
  obtain ⟨hm, ht⟩ := postMessage_fields (coapMessageIdGen c).1 hlen handler opts payload
  refine ⟨?_, ?_, ?_, ?_⟩
  · rw [hm]
    exact hne
  · rw [hm]
    exact hlt
  · rw [ht]
    exact htok
  · rw [ht]
    exact hshape

theorem messageIdGen_eq (c : CoAPContext) :
    ∃ msgid, (coapMessageIdGen c).1 = msgid ∧ coapMessageIdGen c = (msgid, afterGen c c.coapToken) := by
  refine ⟨_, rfl, ?_⟩
  unfold afterGen coapMessageIdGen
  split_ifs <;> rfl

theorem adds_gen (h : MatchInv c) (hid : IdFree c) (coapToken : UInt32) :
    Adds FreshIn c (afterGen c coapToken) :=
  .single (.counters _ _ c.isAuthed (messageIdGen_spec h hid).2.2)

theorem adds_counted (h : MatchInv c) (hok : IdFree c ∧ TokenFree c) (handler : Bool)
    (opts : List (UInt16 × OptData)) (payload : Bytes) :
    Adds FreshIn c (coapMessageSend (afterGen c (c.coapToken + 1))
      (postMessage (coapMessageIdGen c).1 (encodeToken c.coapToken) handler opts payload) env) := by
  have hlen : (encodeToken c.coapToken).length ≤ maxTokenLen := by
    rw [encodeToken_length]
    decide
  refine (adds_gen h hok.1 _).trans (adds_send fun _ => ?_)
  exact freshIn_post h hok.1 hlen hok.2 (.inl rfl) _ handler opts payload

theorem adds_block (h : MatchInv c) (hok : IdFree c ∧ BlockFree c) (handler : Bool)
    (opts : List (UInt16 × OptData)) (payload : Bytes) :
    Adds FreshIn c (coapMessageSend (afterGen c c.coapToken)
      (postMessage (coapMessageIdGen c).1 (iotxGetCoapTokenConst c) handler opts payload) env) := by
  have hlen : (iotxGetCoapTokenConst c).length ≤ maxTokenLen := by
    rw [const_length]
    decide
  refine (adds_gen h hok.1 _).trans (adds_send fun _ => ?_)
  exact freshIn_post h hok.1 hlen hok.2 (.inr rfl) _ handler opts payload

/-- **A call** under the condition lists a request with a new id and a new token. -/
theorem adds_call (h : MatchInv c) (hok : CallOk c k) : Adds FreshIn c (k.run c) := by
  cases k with
  | authed => exact .single (.counters c.messageId c.coapToken true le_rfl)
  | message r env =>
    change Adds FreshIn c (iotCoAPSendMessage c r env)
    unfold iotCoAPSendMessage
    obtain ⟨msgid, hid, hgen⟩ := messageIdGen_eq c
    rw [hgen, ← hid]
    split_ifs
    · exact .refl
    · cases r.path with
      | none => exact adds_gen h hok.1 _
      | some segs => exact adds_counted h hok _ _ _
    · exact .refl
  | block r blockType blockVal env =>
    change Adds FreshIn c (iotCoAPSendMessageBlock c r blockType blockVal env)
    unfold iotCoAPSendMessageBlock
    obtain ⟨msgid, hid, hgen⟩ := messageIdGen_eq c
    rw [hgen, ← hid]
    split_ifs
    · exact .refl
    · cases r.path with
      | none => exact adds_gen h hok.1 _
      | some segs => exact adds_block h hok _ _ _
    · exact .refl
  | deviceNameAuth payload env =>
    change Adds FreshIn c (iotCoAPDeviceNameAuth c payload env)
    unfold iotCoAPDeviceNameAuth
    obtain ⟨msgid, hid, hgen⟩ := messageIdGen_eq c
    rw [hgen, ← hid]
    cases payload with
    | none => exact adds_gen h hok.1 _
    | some payload => exact adds_counted h hok _ _ _

theorem adds_runAll (h : MatchInv c) (hok : CallsOk c ks) : Adds FreshIn c (runAll ks c) := by
  induction ks generalizing c with
  | nil => exact .refl
  | cons k ks ih =>
    have hadds := adds_call h hok.1
    exact hadds.trans (ih (h.adds hadds) hok.2)

/-! ## Runs -/

theorem matchInv_step (h : SendInv none c ∧ MatchInv c) (hs : restrict RequestsOk CoapStep c a c') :
    SendInv none c' ∧ MatchInv c' := by
  obtain ⟨hinv, hm⟩ := h
  obtain ⟨hok, rfl⟩ := hs
  have hmoves : Moves True FreshIn (none, c) (none, coapStep c a) := by
    cases a with
    | call k => exact moves_adds (adds_call hm hok)
    | arrive m env ks =>
      refine moves_handle hinv fun u => adds_runAll ?_ (hok u)
      exact ⟨hm.ids, hm.lt, hm.tokens, hm.shape⟩
    | cycle => exact moves_cycle trivial c
  exact ⟨hinv.moves hmoves, hm.moves hmoves⟩

theorem ack_marks (h : SendInv none c) (hm : MatchInv c) (hn : n ∈ c.sendlist) (hid : m.header.msgid = n.msgid) :
    (coapAckMessageHandle c m).sendlist =
      c.sendlist.map fun x => if x.uid = n.uid then { x with acked := true } else x := by
  unfold coapAckMessageHandle
  rcases markAcked_cases m.header.msgid c.sendlist with ⟨-, hno⟩ | ⟨l₁, x, l₂, hl, hx, -, he⟩
  · exact absurd hid.symm (hno n hn)
  · have hmem : x ∈ c.sendlist := by rw [hl]; simp
    obtain rfl : x = n := List.inj_on_of_nodup_map hm.ids hmem hn (hx.trans hid)
    obtain ⟨hothers, -, -⟩ := h.apart hl
    have hsame : ∀ l : List CoAPSendNode, (∀ y ∈ l, y.uid ≠ x.uid) →
        l.map (fun y => if y.uid = x.uid then { y with acked := true } else y) = l := by
      intro l hy
      exact (List.map_congr_left fun y hmem => if_neg (hy y hmem)).trans (List.map_id' l)
    rw [he, hl, List.map_append, List.map_cons, if_pos rfl,
      hsame l₁ fun y hy => (hothers y (List.mem_append_left _ hy)).2,
      hsame l₂ fun y hy => (hothers y (List.mem_append_right _ hy)).2]

theorem response_completes (hm : MatchInv c) (hn : n ∈ c.sendlist) (htok : m.token = n.token)
    (hlen : m.header.tokenlen = n.token.length) (run : CoAPContext → CoAPContext) :
    coapRespMessageHandle c m env run = removeNode (callHandler c n run) n := by
  have hpos : 0 ≠ n.token.length := by
    rcases hm.shape n hn with h | h
    · rw [h]
      decide
    · rw [h, const_length]
      decide
  have hhas : n.hasToken m = true := by
    unfold CoAPSendNode.hasToken
    rw [htok, hlen, List.take_length]
    simpa using hpos
  rcases coapRespMessageHandle_cases c m env run with ⟨hf, -⟩ | ⟨x, hf, he⟩
  · exact absurd hhas (by simpa using List.find?_eq_none.1 hf n hn)
  · have hx := List.mem_of_find?_eq_some hf
    have hxm : x.hasToken m = true :=
      List.find?_some (p := fun n : CoAPSendNode => n.hasToken m) hf
    have htok' : x.token = n.token := by
      unfold CoAPSendNode.hasToken at hxm
      rw [htok, hlen, List.take_length] at hxm
      simpa using (Bool.and_eq_true_iff.1 hxm).2
    obtain rfl := List.inj_on_of_nodup_map hm.tokens hx hn htok'
    exact he

/-- **Acks and responses reach their requests**, in every run under the condition:
    ids and tokens on the list are different, so an ack marks and a response
    completes exactly the request with its id or token. -/
theorem coap_requests_matched {maxcount : UInt8} {tokenConst : UInt32}
    (hr : Run (restrict RequestsOk CoapStep) (coapContextCreate maxcount tokenConst) as c) :
    (c.sendlist.map CoAPSendNode.msgid).Nodup ∧ (c.sendlist.map CoAPSendNode.token).Nodup ∧
    ∀ n ∈ c.sendlist, ∀ m env run,
      (isAckMsg m.header = true → m.header.msgid = n.msgid →
        (coapMessageHandle c m env run).sendlist =
          c.sendlist.map fun x => if x.uid = n.uid then { x with acked := true } else x) ∧
      (isRespMsg m.header = true → m.token = n.token → m.header.tokenlen = n.token.length →
        coapMessageHandle c m env run = removeNode (callHandler c n run) n) := by
  have hstart : SendInv none (coapContextCreate maxcount tokenConst) ∧
      MatchInv (coapContextCreate maxcount tokenConst) :=
    ⟨sendInv_create maxcount tokenConst, List.nodup_nil, by simp [coapContextCreate], List.nodup_nil,
      by simp [coapContextCreate]⟩
  obtain ⟨hinv, hm⟩ : SendInv none c ∧ MatchInv c :=
    hr.keeps (I := fun c => SendInv none c ∧ MatchInv c) (fun h hs => matchInv_step h hs) hstart
  refine ⟨hm.ids, hm.tokens, fun n hn m env run => ⟨fun hack hid => ?_, fun hresp htok hlen => ?_⟩⟩
  · unfold coapMessageHandle
    rw [if_pos hack]
    exact ack_marks hinv hm hn hid
  · have hnot : ¬ isAckMsg m.header = true := by
      unfold isRespMsg at hresp
      unfold isAckMsg codeEmpty
      simp only [Bool.and_eq_true, decide_eq_true_eq] at hresp ⊢
      omega
    unfold coapMessageHandle
    rw [if_neg hnot, if_pos hresp]
    exact response_completes hm hn htok hlen run

/-- A request and its environment. -/
def exampleRequest : Request := ⟨true, some [[0x61]], false, [], [], true⟩

/-- The response to the first authentication. -/
def exampleResponse : CoAPMessage :=
  build [.type 2, .code 69, .msgid 1, .token (encodeToken 0x01020304), .payload [1]]

/-- The client is authenticated, and sends a block. -/
def authed : List CoapAct :=
  [.call (.deviceNameAuth (some []) allWell), .arrive exampleResponse allWell [.authed],
    .call (.block exampleRequest 27 [0] allWell)]

/-- An authentication, a block, and a message beside it. -/
theorem coap_requests_matched_three :
    ∃ c, Run CoapStep (coapContextCreate 10 5) (authed ++ [.call (.message exampleRequest allWell)]) c ∧
      c.sendlist.length = 2 ∧ (c.sendlist.map CoAPSendNode.token).Nodup := by
  refine ⟨_, .cons rfl (.cons rfl (.cons rfl (.cons rfl .nil))), by decide, ?_⟩
  have hr : Run (restrict RequestsOk CoapStep) (coapContextCreate 10 5)
      (authed ++ [.call (.message exampleRequest allWell)]) _ :=
    .cons ⟨⟨by nofun, by nofun⟩, rfl⟩ (.cons ⟨fun _ => ⟨trivial, trivial⟩, rfl⟩
      (.cons ⟨⟨by nofun, by nofun⟩, rfl⟩ (.cons ⟨⟨by nofun, fun n hn => by
        obtain rfl := List.mem_singleton.1 hn
        decide⟩, rfl⟩ .nil)))
  exact (coap_requests_matched hr).2.1

/-- Two blocks on the list have one token. -/
theorem coap_requests_share_token :
    ¬ ∀ maxcount tokenConst as c, Run CoapStep (coapContextCreate maxcount tokenConst) as c →
      (c.sendlist.map CoAPSendNode.token).Nodup := by
  intro hall
  have h := hall 10 5 (authed ++ [.call (.block exampleRequest 27 [0] allWell)]) _
    (.cons rfl (.cons rfl (.cons rfl (.cons rfl .nil))))
  exact absurd h (by decide)

end Coap
