/-
  The list of requests sent: `CoAPMessage_send`, the handling of acks and
  responses, and `CoAPMessage_cycle` of `CoAPMessage.c`.

  The list, the counter of message ids and the tokens are in one state; `uid`
  stands for the address of a node, `blocks` counts what is allocated, and `log`
  records what happens to each node.  Incoming datagrams are given by the message
  that they are decoded to.  A node's handler may send further messages.
-/
import AliOS.Coap.Codec

namespace Coap

/-! ## Constants -/

def maxRetryCount : ℕ := 4
def ackTimeout : ℕ := 2
def ackRandomFactor : ℕ := 1
def maxTransmissionSpan : ℕ := 10
/-- The size of the field `token` of a node. -/
def nodeTokenLen : ℕ := 8

/-! ## State -/

/-- `CoAPSendNode`; `token` has length `tokenlen`, `message` is `none` where no
    memory was left for the copy. -/
structure CoAPSendNode where
  uid : ℕ
  msgid : ℕ
  acked : Bool
  token : Bytes
  retransCount : ℕ
  timeout : ℕ
  timeoutVal : ℕ
  message : Option Bytes
  handler : Bool

/-- What happens to a node. -/
inductive Ev
  | tx (uid : ℕ)
  | acked (uid : ℕ)
  | handled (uid : ℕ)
  | removed (uid : ℕ)
  deriving DecidableEq

def Ev.uid : Ev → ℕ
  | .tx u | .acked u | .handled u | .removed u => u

/-- `CoAPContext`, with `coap_token` and `is_authed` of the `iotx_coap_t` that owns
    it, and the constant token of the process. -/
structure CoAPContext where
  messageId : UInt16
  count : UInt8
  maxcount : UInt8
  sendlist : List CoAPSendNode
  coapToken : UInt32
  tokenConst : UInt32
  isAuthed : Bool
  blocks : ℕ
  fresh : ℕ
  log : List Ev

/-- `CoAPContext_create` for a list of `maxcount` nodes, under `IOT_CoAP_Init`. -/
def coapContextCreate (maxcount : UInt8) (tokenConst : UInt32) : CoAPContext where
  messageId := 1
  count := 0
  maxcount := maxcount
  sendlist := []
  coapToken := 0x01020304
  tokenConst := tokenConst
  isAuthed := false
  blocks := 0
  fresh := 0
  log := []

/-- How the network and the heap answer one send. -/
structure SendEnv where
  /-- `CoAPNetwork_write` succeeds -/
  written : Bool
  /-- there is memory for the node -/
  node : Bool
  /-- there is memory for the copy of the datagram -/
  copy : Bool

/-! ## Sending -/

/-- The offsets of the fields of `CoAPSendList`. -/
def offCount : ℕ := 0
def offMaxcount : ℕ := 1

def isReqMsg (h : CoAPMsgHeader) : Bool := 1 ≤ h.code && h.code < 32
def isConRespMsg (h : CoAPMsgHeader) : Bool := h.code = code205Content && h.type = typeCon
def isAckMsg (h : CoAPMsgHeader) : Bool := h.code = codeEmpty && h.type = typeAck
def isRespMsg (h : CoAPMsgHeader) : Bool := 0x40 ≤ h.code && h.code < 0xC0

/-- The node that `CoAPMessageList_add` fills in. -/
def newNode (uid : ℕ) (m : CoAPMessage) (dg : Bytes) (copy : Bool) : CoAPSendNode where
  uid := uid
  msgid := m.header.msgid
  acked := false
  token := m.token
  retransCount := if m.header.type = typeCon then 0 else maxRetryCount
  timeout := if m.header.type = typeCon then ackTimeout * ackRandomFactor else maxTransmissionSpan
  timeoutVal := ackTimeout * ackRandomFactor
  message := if copy then some dg else none
  handler := m.handler

/-- The blocks that belong to a node. -/
def CoAPSendNode.blocks (n : CoAPSendNode) : ℕ := if n.message.isSome then 2 else 1

/-- `CoAPMessageList_add`.  The test of the count compares the addresses of the
    two fields. -/
def coapMessageListAdd (c : CoAPContext) (m : CoAPMessage) (dg : Bytes) (env : SendEnv) : CoAPContext :=
  if env.node then
    let n := newNode c.fresh m dg env.copy
    let c := { c with blocks := c.blocks + n.blocks, fresh := c.fresh + 1, log := c.log ++ [.tx n.uid] }
    if offCount ≥ offMaxcount then c
    else { c with sendlist := c.sendlist ++ [n], count := c.count + 1 }
  else c

def coapMessageSend (c : CoAPContext) (m : CoAPMessage) (env : SendEnv) : CoAPContext :=
  if maxPduLen < coapSerializeMessageLength m then c
  else if env.written then
    if isReqMsg m.header || isConRespMsg m.header then coapMessageListAdd c m (datagram m) env else c
  else c

/-! ## Acks and responses -/

/-- Mark the first node with the message id. -/
def markAcked (msgid : ℕ) : List CoAPSendNode → List CoAPSendNode × List Ev
  | [] => ([], [])
  | n :: ns =>
    if n.msgid = msgid then ({ n with acked := true } :: ns, [.acked n.uid])
    else
      let (ns, evs) := markAcked msgid ns
      (n :: ns, evs)

def coapAckMessageHandle (c : CoAPContext) (m : CoAPMessage) : CoAPContext :=
  let (ns, evs) := markAcked m.header.msgid c.sendlist
  { c with sendlist := ns, log := c.log ++ evs }

def coapAckMessageSend (c : CoAPContext) (msgid : ℕ) (env : SendEnv) : CoAPContext :=
  coapMessageSend c (coapMessageIdSet coapMessageInit msgid) env

/-- The test of a node against the token of a response. -/
def CoAPSendNode.hasToken (n : CoAPSendNode) (m : CoAPMessage) : Bool :=
  0 ≠ n.token.length && n.token.length = m.header.tokenlen && n.token = m.token.take m.header.tokenlen

/-- Take a node out of the list and free it. -/
def removeNode (c : CoAPContext) (n : CoAPSendNode) : CoAPContext :=
  { c with
    sendlist := c.sendlist.filter fun x => x.uid ≠ n.uid
    count := c.count - 1
    blocks := c.blocks - n.blocks
    log := c.log ++ [.removed n.uid] }

/-- The call of a node's handler: `run` is what it does. -/
def callHandler (c : CoAPContext) (n : CoAPSendNode) (run : CoAPContext → CoAPContext) : CoAPContext :=
  if n.handler then run { c with log := c.log ++ [.handled n.uid] } else c

def coapRespMessageHandle (c : CoAPContext) (m : CoAPMessage) (env : SendEnv)
    (run : CoAPContext → CoAPContext) : CoAPContext :=
  let c := if m.header.type = typeCon then coapAckMessageSend c m.header.msgid env else c
  match c.sendlist.find? fun n => n.hasToken m with
  | some n => removeNode (callHandler c n run) n
  | none => c

/-- `CoAPMessage_handle`, for the message decoded. -/
def coapMessageHandle (c : CoAPContext) (m : CoAPMessage) (env : SendEnv)
    (run : CoAPContext → CoAPContext) : CoAPContext :=
  if isAckMsg m.header then coapAckMessageHandle c m
  else if isRespMsg m.header then coapRespMessageHandle c m env run
  else c

/-! ## Cycles -/

/-- The retransmission of a node whose timeout is over. -/
def retransmit (n : CoAPSendNode) : CoAPSendNode × List Ev :=
  if n.retransCount < maxRetryCount ∧ !n.acked then
    ({ n with
      timeout := n.timeoutVal * 2 % 2 ^ 16
      timeoutVal := n.timeoutVal * 2 % 2 ^ 16
      retransCount := (n.retransCount + 1) % 2 ^ 8 }, [.tx n.uid])
  else (n, [])

/-- A node in a cycle: what stays of it on the list, and what happens to it. -/
def cycleNode (n : CoAPSendNode) : Option CoAPSendNode × List Ev :=
  if n.timeout = 0 then
    let (n, evs) := retransmit n
    if n.timeout > maxTransmissionSpan ∨ n.retransCount ≥ maxRetryCount then
      (none, evs ++ [.removed n.uid])
    else (some n, evs)
  else (some { n with timeout := n.timeout - 1 }, [])

/-- The walk over the list, node by node. -/
def cycleNodes : List CoAPSendNode → CoAPContext → CoAPContext
  | [], c => c
  | n :: ns, c =>
    match cycleNode n with
    | (some n, evs) => cycleNodes ns { c with sendlist := c.sendlist ++ [n], log := c.log ++ evs }
    | (none, evs) =>
      cycleNodes ns { c with count := c.count - 1, blocks := c.blocks - n.blocks, log := c.log ++ evs }

/-- The walk of `CoAPMessage_cycle`, behind the datagrams that it reads. -/
def coapMessageCycle (c : CoAPContext) : CoAPContext := cycleNodes c.sendlist { c with sendlist := [] }

end Coap
