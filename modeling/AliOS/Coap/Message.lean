/-
  CoAP messages: the types of `CoAPExport.h`, and how `CoAPMessage.c` fills a
  message in.

  An option holds the difference of its number to the number before it, and
  `optdelta` is the last number, in 8 bits.  Allocations succeed.
-/
import Mathlib.Algebra.Group.Nat.Defs
import Mathlib.Data.List.Basic
import Mathlib.Data.List.Induction

namespace Coap

abbrev Bytes := List UInt8

/-- `CoAPMsgOption`; in a message to send, `num` is the difference. -/
structure CoAPMsgOption where
  num : ℕ
  len : ℕ
  val : Bytes
  deriving DecidableEq

structure CoAPMsgHeader where
  version : ℕ
  type : ℕ
  tokenlen : ℕ
  code : ℕ
  msgid : ℕ
  deriving DecidableEq

/-- `CoAPMessage`; `optnum` is the length of `options`, `payloadlen` that of
    `payload`, and `handler` is false for the null pointer. -/
structure CoAPMessage where
  header : CoAPMsgHeader
  token : Bytes
  options : List CoAPMsgOption
  optdelta : ℕ
  payload : Bytes
  handler : Bool
  deriving DecidableEq

/-! ## Constants -/

def maxTokenLen : ℕ := 12
def maxOptionNum : ℕ := 12
def maxPduLen : ℕ := 1280

/-- `COAP_MESSAGE_TYPE_CON`. -/
def typeCon : ℕ := 0
/-- `COAP_MESSAGE_TYPE_ACK`. -/
def typeAck : ℕ := 2
/-- `COAP_MSG_CODE_EMPTY_MESSAGE`. -/
def codeEmpty : ℕ := 0
/-- `COAP_MSG_CODE_205_CONTENT`. -/
def code205Content : ℕ := 69

/-- The status codes that these functions return. -/
inductive CoAPStat
  | success
  | invalidParam
  | invalidLength
  | dataSize
  | notFound
  deriving DecidableEq

/-! ## The functions that fill a message in -/

def coapMessageInit : CoAPMessage where
  header := { version := 1, type := typeAck, tokenlen := 0, code := codeEmpty, msgid := 0 }
  token := []
  options := []
  optdelta := 0
  payload := []
  handler := false

def coapMessageIdSet (m : CoAPMessage) (msgid : ℕ) : CoAPMessage :=
  { m with header := { m.header with msgid := msgid % 2 ^ 16 } }

def coapMessageTypeSet (m : CoAPMessage) (type : ℕ) : CoAPStat × CoAPMessage :=
  if type ≠ 0 ∧ type ≠ 1 ∧ type ≠ 2 ∧ type ≠ 3 then (.invalidParam, m)
  else (.success, { m with header := { m.header with type := type } })

def coapMessageCodeSet (m : CoAPMessage) (code : ℕ) : CoAPMessage :=
  { m with header := { m.header with code := code % 2 ^ 8 } }

def coapMessageTokenSet (m : CoAPMessage) (token : Bytes) : CoAPStat × CoAPMessage :=
  if maxTokenLen < token.length then (.invalidLength, m)
  else (.success, { m with header := { m.header with tokenlen := token.length }, token })

def coapMessagePayloadSet (m : CoAPMessage) (payload : Bytes) : CoAPMessage :=
  { m with payload }

def coapMessageHandlerSet (m : CoAPMessage) (handler : Bool) : CoAPMessage :=
  { m with handler }

/-- The difference of an option number to `optdelta`, as an `unsigned short`. -/
def optionDelta (optnum optdelta : ℕ) : ℕ := (optnum + 2 ^ 16 - optdelta) % 2 ^ 16

/-- Append an option, and keep its number in `optdelta`, an `unsigned char`. -/
def addOption (m : CoAPMessage) (optnum : ℕ) (val : Bytes) : CoAPMessage :=
  { m with
    options := m.options ++ [⟨optionDelta optnum m.optdelta, val.length, val⟩]
    optdelta := optnum % 2 ^ 8 }

def coapStrOptionAdd (m : CoAPMessage) (optnum : ℕ) (data : Bytes) : CoAPStat × CoAPMessage :=
  if maxOptionNum ≤ m.options.length then (.invalidParam, m)
  else (.success, addOption m optnum data)

/-- The bytes of an integer option.  (256 falls into the class of one byte.) -/
def uintBytes (data : ℕ) : Bytes :=
  if data = 0 then []
  else if 256 ≥ data then [UInt8.ofNat data]
  else if 65535 ≥ data then [UInt8.ofNat (data / 2 ^ 8), UInt8.ofNat data]
  else
    [UInt8.ofNat (data / 2 ^ 24), UInt8.ofNat (data / 2 ^ 16), UInt8.ofNat (data / 2 ^ 8),
      UInt8.ofNat data]

def coapUintOptionAdd (m : CoAPMessage) (optnum data : ℕ) : CoAPStat × CoAPMessage :=
  if maxOptionNum ≤ m.options.length then (.invalidParam, m)
  else (.success, addOption m optnum (uintBytes data))

/-! ## Building a message -/

/-- An option to add: its number, and its data. -/
inductive OptData
  | str (data : Bytes)
  | uint (data : UInt32)

/-- The calls that fill a message in. -/
inductive Fill
  | msgid (id : UInt16)
  | type (t : UInt8)
  | code (c : UInt8)
  | token (t : Bytes)
  | payload (p : Bytes)
  | handler (h : Bool)
  | option (num : UInt16) (data : OptData)

def Fill.run (m : CoAPMessage) : Fill → CoAPMessage
  | .msgid id => coapMessageIdSet m id.toNat
  | .type t => (coapMessageTypeSet m t.toNat).2
  | .code c => coapMessageCodeSet m c.toNat
  | .token t => (coapMessageTokenSet m t).2
  | .payload p => coapMessagePayloadSet m p
  | .handler h => coapMessageHandlerSet m h
  | .option num (.str data) => (coapStrOptionAdd m num.toNat data).2
  | .option num (.uint data) => (coapUintOptionAdd m num.toNat data.toNat).2

/-- The message that the calls build, from `CoAPMessage_init` on. -/
def build (fills : List Fill) : CoAPMessage := fills.foldl Fill.run coapMessageInit

/-- The options that the calls add. -/
def added (fills : List Fill) : List (ℕ × OptData) :=
  fills.filterMap fun
    | .option num data => some (num.toNat, data)
    | _ => none

/-- The bytes stored for an option. -/
def OptData.bytes : OptData → Bytes
  | .str data => data
  | .uint data => uintBytes data.toNat

/-! ## Messages that were built -/

/-- The options as a message stores them, behind the option number kept in
    `prev`. -/
def stored (prev : ℕ) : List (ℕ × OptData) → List CoAPMsgOption
  | [] => []
  | (num, data) :: os =>
    ⟨optionDelta num prev, data.bytes.length, data.bytes⟩ :: stored (num % 2 ^ 8) os

/-- The number that `optdelta` keeps behind the options. -/
def lastDelta (prev : ℕ) (os : List (ℕ × OptData)) : ℕ :=
  match os.getLast? with
  | some o => o.1 % 2 ^ 8
  | none => prev

theorem stored_snoc (prev : ℕ) (os : List (ℕ × OptData)) (o : ℕ × OptData) :
    stored prev (os ++ [o]) =
      stored prev os ++ [⟨optionDelta o.1 (lastDelta prev os), o.2.bytes.length, o.2.bytes⟩] := by
  induction os generalizing prev with
  | nil => rfl
  | cons a os ih =>
    rw [List.cons_append]
    unfold stored
    rw [ih, List.cons_append]
    cases os <;> rfl

@[simp] theorem stored_length (prev : ℕ) (os : List (ℕ × OptData)) :
    (stored prev os).length = os.length := by
  induction os generalizing prev with
  | nil => rfl
  | cons a os ih => simp [stored, ih]

/-- What holds of every message that the calls build. -/
structure Built (fills : List Fill) (m : CoAPMessage) : Prop where
  version : m.header.version = 1
  type : m.header.type < 4
  tokenlen : m.header.tokenlen = m.token.length
  token : m.token.length ≤ maxTokenLen
  code : m.header.code < 2 ^ 8
  msgid : m.header.msgid < 2 ^ 16
  options : m.options = stored 0 (added fills)
  optdelta : m.optdelta = lastDelta 0 (added fills)

theorem added_snoc (fills : List Fill) (f : Fill) : added (fills ++ [f]) = added fills ++ added [f] := by
  unfold added
  rw [List.filterMap_append]

theorem Built.addOption {fills : List Fill} {m : CoAPMessage} (h : Built fills m) {num : UInt16}
    {data : OptData} : Built (fills ++ [.option num data]) (addOption m num.toNat data.bytes) where
  version := h.version
  type := h.type
  tokenlen := h.tokenlen
  token := h.token
  code := h.code
  msgid := h.msgid
  options := by
    rw [added_snoc]
    change m.options ++ [⟨optionDelta num.toNat m.optdelta, _, _⟩] = stored 0 (_ ++ [(num.toNat, data)])
    rw [stored_snoc, ← h.options, ← h.optdelta]
  optdelta := by
    rw [added_snoc]
    change num.toNat % 2 ^ 8 = lastDelta 0 (_ ++ [(num.toNat, data)])
    simp [lastDelta]

theorem Built.same {fills : List Fill} {m m' : CoAPMessage} {f : Fill} (h : Built fills m)
    (hf : added [f] = []) (ho : m'.options = m.options) (hd : m'.optdelta = m.optdelta)
    (hv : m'.header.version = 1) (ht : m'.header.type < 4) (hl : m'.header.tokenlen = m'.token.length)
    (hk : m'.token.length ≤ maxTokenLen) (hc : m'.header.code < 2 ^ 8) (hi : m'.header.msgid < 2 ^ 16) :
    Built (fills ++ [f]) m' := by
  have hadd : added (fills ++ [f]) = added fills := by rw [added_snoc, hf, List.append_nil]
  exact ⟨hv, ht, hl, hk, hc, hi, by rw [hadd, ho, h.options], by rw [hadd, hd, h.optdelta]⟩

theorem built (fills : List Fill) (h12 : (added fills).length ≤ maxOptionNum) :
    Built fills (build fills) := by
  unfold build
  induction fills using List.reverseRecOn with
  | nil => exact ⟨rfl, by decide, rfl, by decide, by decide, by decide, rfl, rfl⟩
  | append_singleton fills f ih =>
    rw [added_snoc, List.length_append] at h12
    have hb := ih (by omega)
    rw [List.foldl_append, List.foldl_cons, List.foldl_nil]
    generalize fills.foldl Fill.run coapMessageInit = m at hb
    have hroom : (added [f]).length = 1 → ¬ maxOptionNum ≤ m.options.length := by
      intro h1
      rw [hb.options, stored_length]
      omega
    cases f with
    | msgid id =>
      exact hb.same rfl rfl rfl hb.version hb.type hb.tokenlen hb.token hb.code (Nat.mod_lt _ (by decide))
    | type t =>
      unfold Fill.run coapMessageTypeSet
      dsimp only
      split_ifs with ht
      · exact hb.same rfl rfl rfl hb.version hb.type hb.tokenlen hb.token hb.code hb.msgid
      · exact hb.same rfl rfl rfl hb.version (by dsimp only; omega) hb.tokenlen hb.token hb.code hb.msgid
    | code c =>
      exact hb.same rfl rfl rfl hb.version hb.type hb.tokenlen hb.token (Nat.mod_lt _ (by decide)) hb.msgid
    | token t =>
      unfold Fill.run coapMessageTokenSet
      dsimp only
      split_ifs with ht
      · exact hb.same rfl rfl rfl hb.version hb.type hb.tokenlen hb.token hb.code hb.msgid
      · exact hb.same rfl rfl rfl hb.version hb.type rfl (Nat.le_of_not_lt ht) hb.code hb.msgid
    | payload p =>
      exact hb.same rfl rfl rfl hb.version hb.type hb.tokenlen hb.token hb.code hb.msgid
    | handler p =>
      exact hb.same rfl rfl rfl hb.version hb.type hb.tokenlen hb.token hb.code hb.msgid
    | option num data =>
      cases data with
      | str data =>
        unfold Fill.run coapStrOptionAdd
        dsimp only
        rw [if_neg (hroom rfl)]
        exact hb.addOption
      | uint data =>
        unfold Fill.run coapUintOptionAdd
        dsimp only
        rw [if_neg (hroom rfl)]
        exact hb.addOption

end Coap
