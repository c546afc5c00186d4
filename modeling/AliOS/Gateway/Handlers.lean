/-
  The handlers of a message (`framework/gateway/gateway_service.c`), by what they read of it.

  No handler asks for the length that it is given: each casts the message to its structure, or
  looks for the end of a string in it.
-/
import AliOS.Gateway.Clients
import AliOS.Gateway.MqttSn

namespace Gateway

open Devmgr

/-- Why a handler ends early: it reads behind the end of the datagram, or of a device that was freed. -/
inductive Fault
  | outside
  | freed
  deriving DecidableEq

/-- `n` bytes at `i`. -/
def readBytes (p : List UInt8) (i n : ℕ) : Except Fault (List UInt8) :=
  if i + n ≤ p.length then .ok ((p.drop i).take n) else .error .outside

/-- The string at `i`. -/
def readStr (p : List UInt8) (i : ℕ) : Except Fault Str :=
  if 0 ∈ p.drop i then .ok ((p.drop i).takeWhile (· ≠ 0)) else .error .outside

/-- `strncpy` of the string at `i`, up to `n` characters. -/
def readStrn (p : List UInt8) (i n : ℕ) : Except Fault Str :=
  if 0 ∈ (p.drop i).take n ∨ i + n ≤ p.length then .ok (((p.drop i).take n).takeWhile (· ≠ 0)) else .error .outside

/-- A read that is made where the condition holds. -/
def readIf {α : Type} (b : Bool) (r : Except Fault α) : Except Fault Unit :=
  if b then r.map fun _ => () else .ok ()

/-- How it is built: whether `LOGD` prints, the addresses, and with `CONFIG_YWSS` whether
    `awss_calc_sign`, which is in a library, stays within the bytes from the secret on. -/
structure Build where
  debug : Bool
  ipv6 : Bool
  awssCalcSign : Option (List UInt8 → Bool)

/-- The size of the address of a gateway. -/
def Build.addrLen (k : Build) : ℕ := if k.ipv6 then 16 else 4

/-- `gateway_state` with the connection to a gateway. -/
structure Node where
  gateway : GatewayState
  mqttConnected : Bool
  mqttReconnect : Bool
  gwAddr : List UInt8
  uuid : List UInt8

/-- What a handler calls. -/
inductive Effect
  | report (text : Str)
  | getDeviceStatus (attrName : Str)
  | setDeviceStatus (attrName : Str)
  | connAck (uuid : Option Str) (addr : SockAddr)
  | cloudConnected
  | connectToGateway (addr : List UInt8)
  | postClearConnected
  | cancelClearConnected
  | postSetReconnect
  | cancelSetReconnect
  deriving DecidableEq

/-! ## The handlers -/

/-- What is printed to `buf` for `postDeviceData`, which has room for the value and its first character. -/
def reportText (uuid attrValue rest : Str) : Str :=
  ([0x7b, 0x22, 0x75, 0x75, 0x69, 0x64, 0x22, 0x3a, 0x22] ++ uuid ++ [0x22, 0x2c] ++ rest).take
    (16 + uuid.length + attrValue.length + 15)

def handlePublish (k : Build) (n : Node) (src : SockAddr) (p : List UInt8) : Except Fault (List Effect) := do
  let attrName ← readStr p 9
  let attrValue := 9 + attrName.length + 1
  let opCode ← readStr p 5
  if opCode = [0x72, 0x70, 0x74] then
    if !n.gateway.gatewayMode then return []
    else
      match n.gateway.clients.find? fun c => c.addr = src with
      | none => return []
      | some c =>
        let value ← readStr p attrValue
        let rest ← readStr p (attrValue + 1)
        match n.gateway.devinfo c with
        | none => .error .freed
        | some x => return [.report (reportText x.base.uuid value rest)]
  else if opCode = [0x67, 0x65, 0x74] then return [.getDeviceStatus attrName]
  else if opCode = [0x73, 0x65, 0x74] then
    readIf k.debug (readStr p attrValue)
    return [.setDeviceStatus attrName]
  else return []

/-- `reg_info_t`, of a message that has all of it. -/
def regInfo (p : List UInt8) : RegInfo where
  ieeeAddr := (p.drop 5).take 8
  modelId := ((p.take 4).foldr (fun b n => n * 256 + b.toUInt32) 0)
  rand := (p.drop 14).take 16
  sign := ((p.drop 31).take 17).takeWhile (· ≠ 0)

/-- What is read at `add_enrollee`, with memory for the enrollee. -/
def enrollReads (k : Build) (p : List UInt8) : Except Fault Unit := do
  let _ ← readBytes p 170 1
  match k.awssCalcSign with
  | none => return ()
  | some signs =>
    let _ ← readStr p 48
    if signs (p.drop 129) then return () else .error .outside

/-- What `devmgr_join_zigbee_device` reads: nothing of a model that may not join, and no more than the
    address without memory for the device. -/
def joinReads (m : Devmgr) (j : Join) (malloc : Option ℕ) (p : List UInt8) : Except Fault Unit := do
  if j.refused then return ()
  else
    let _ ← readBytes p 5 8
    let (m, d) := m.getDevinfoByIeeeaddr j.ieeeAddr
    if d = none ∧ (m.newDevinfo malloc).2 = none then return ()
    else
      let _ ← readBytes p 14 16
      let _ ← readStrn p 31 17
      return ()

def Os.join (os : Os) (r : RegInfo) : Join := ⟨r.ieeeAddr, r.modelId, r.rand, r.sign, os.permit⟩

/-- What `new_client` reads. -/
def newClientReads (k : Build) (s : GatewayState) (p : List UInt8) (os : Os) : Except Fault Unit := do
  readIf (s.clients ≠ []) (readBytes p 5 8)
  match s.walk (regInfo p).ieeeAddr s.clients with
  | none => .error .freed
  | some (_, _ :: _) => enrollReads k p
  | some (_, []) =>
    if os.client then
      let _ ← readBytes p 0 4
      joinReads s.devmgr (os.join (regInfo p)) os.device p
      match s.newClient (regInfo p) os with
      | some (_, some _) => enrollReads k p
      | _ => readIf k.debug (readStr p 5)
    else return ()

def handleConnect (k : Build) (n : Node) (src : SockAddr) (os : Os) (p : List UInt8) :
    Except Fault (Node × List Effect) := do
  if !n.gateway.gatewayMode then return (n, [])
  else if !n.gateway.yunioConnected then return (n, [.connAck none src])
  else
    newClientReads k n.gateway p os
    let n' := { n with gateway := n.gateway.handleConnect src (regInfo p) os }
    match n.gateway.newClient (regInfo p) os with
    | none => .error .freed
    | some (_, none) => return (n', [.connAck none src])
    | some (s, some (_, c, _)) =>
      match s.devinfo c with
      | none => .error .freed
      | some x => return (n', [.connAck (some x.base.uuid) src])

def handleConnack (n : Node) (p : List UInt8) : Except Fault (Node × List Effect) := do
  if n.gateway.gatewayMode then return (n, [])
  else
    let returnCode ← readBytes p 0 1
    if returnCode ≠ [0] then return (n, [])
    else
      let payload ← readBytes p 1 33
      return ({ n with uuid := payload.take 32 ++ [0], mqttConnected := true, mqttReconnect := false },
        [.postClearConnected] ++ (if n.mqttReconnect then [] else [.cloudConnected]) ++
          [.cancelSetReconnect, .postSetReconnect])

def handleAdv (k : Build) (n : Node) (p : List UInt8) : Except Fault (Node × List Effect) := do
  if n.gateway.gatewayMode then return (n, [])
  else
    let payload ← readBytes p 3 k.addrLen
    if n.mqttConnected ∧ n.gwAddr = payload ∧ n.mqttReconnect = false then
      return (n, [.cancelClearConnected, .postClearConnected])
    else
      return ({ n with gwAddr := payload, mqttConnected := n.mqttConnected && n.gwAddr = payload },
        [.cancelClearConnected, .connectToGateway payload])

def handleMsg (k : Build) (n : Node) (src : SockAddr) (os : Os) (p : List UInt8) : Except Fault (Node × List Effect) := do
  let msgType ← readBytes p 0 1
  if msgType = [PUBLISH] then return (n, ← handlePublish k n src (p.drop 1))
  else if msgType = [CONNECT] then handleConnect k n src os (p.drop 1)
  else if msgType = [CONNACK] then handleConnack n (p.drop 1)
  else if msgType = [ADVERTISE] then handleAdv k n (p.drop 1)
  else return (n, [])

/-- `gateway_sock_read_cb` on a datagram from `src`. -/
def gatewaySockReadCb (k : Build) (n : Node) (src : SockAddr) (os : Os) (d : Datagram) : Except Fault (Node × List Effect) :=
  match msnParseHeader d.bytes d.bytes.length with
  | none => .error .outside
  | some (len, pbuf) => if len < 0 then .ok (n, []) else handleMsg k n src os (d.bytes.drop pbuf)

/-! ## What must be inside -/

/-- The handler reads nothing outside of the datagram. -/
def Inside {α : Type} (r : Except Fault α) : Prop := r ≠ .error .outside

/-- The string at `i` ends. -/
def Ends (p : List UInt8) (i : ℕ) : Prop := 0 ∈ p.drop i

/-- `reg_info_t` is complete, and with `CONFIG_YWSS` its strings end. -/
def RecordInside (k : Build) (p : List UInt8) : Prop :=
  171 ≤ p.length ∧ ∀ signs ∈ k.awssCalcSign, Ends p 48 ∧ signs (p.drop 129) = true

/-- So much of the record as the device manager takes. -/
def JoinInside (m : Devmgr) (j : Join) (malloc : Option ℕ) (p : List UInt8) : Prop :=
  j.refused = false → 13 ≤ p.length ∧
    ((m.getDevinfoByIeeeaddr j.ieeeAddr).2 ≠ none ∨ ((m.getDevinfoByIeeeaddr j.ieeeAddr).1.newDevinfo malloc).2 ≠ none →
      30 ≤ p.length ∧ (0 ∈ (p.drop 31).take 17 ∨ 48 ≤ p.length))

/-- The record is complete for a client that is known or that is let in, and otherwise has what is read
    until it is known that none is. -/
def ConnectInside (k : Build) (s : GatewayState) (os : Os) (p : List UInt8) : Prop :=
  (s.clients ≠ [] → 13 ≤ p.length) ∧ ∀ before behind, s.walk (regInfo p).ieeeAddr s.clients = some (before, behind) →
    (behind ≠ [] → RecordInside k p) ∧
      (behind = [] → os.client = true → 4 ≤ p.length ∧ JoinInside s.devmgr (os.join (regInfo p)) os.device p ∧
        if ∃ r, s.newClient (regInfo p) os = some r ∧ r.2 ≠ none then RecordInside k p else k.debug = true → Ends p 5)

/-- The attribute name ends; so does the value of a report that is passed on, and what follows its first
    character; and that of a `set` that is printed. -/
def PublishInside (k : Build) (s : GatewayState) (src : SockAddr) (p : List UInt8) : Prop :=
  Ends p 9 ∧
    let opCode := (p.drop 5).takeWhile (· ≠ 0)
    let attrValue := 9 + ((p.drop 9).takeWhile (· ≠ 0)).length + 1
    (opCode = [0x72, 0x70, 0x74] → s.gatewayMode = true → (s.getUuidByIpaddr src).isSome → Ends p attrValue ∧ Ends p (attrValue + 1)) ∧
      (opCode = [0x73, 0x65, 0x74] → k.debug = true → Ends p attrValue)

/-- What the handler of the type reads is there. -/
def MsgInside (k : Build) (s : GatewayState) (src : SockAddr) (os : Os) : List UInt8 → Prop
  | [] => False
  | msgType :: p =>
    (msgType = PUBLISH → PublishInside k s src p) ∧
      (msgType = CONNECT → s.gatewayMode = true → s.yunioConnected = true → ConnectInside k s os p) ∧
      (msgType = CONNACK → s.gatewayMode = false → 1 ≤ p.length ∧ (p.head? = some 0 → 34 ≤ p.length)) ∧
      (msgType = ADVERTISE → s.gatewayMode = false → 3 + k.addrLen ≤ p.length)

/-- The message of a datagram that is accepted. -/
def Datagram.Complete (k : Build) (s : GatewayState) (src : SockAddr) (os : Os) (d : Datagram) : Prop :=
  ∀ r ∈ msnParseHeader d.bytes d.bytes.length, 0 ≤ r.1 → MsgInside k s src os (d.bytes.drop r.2)

variable {α β : Type} {r : Except Fault α} {f : α → Except Fault β} {p : List UInt8} {i n : ℕ} {k : Build}
  {s : GatewayState} {m : Devmgr} {os : Os} {src : SockAddr}

theorem inside_ok {a : α} : Inside (.ok a) := by
  rintro ⟨⟩

theorem inside_pure {a : α} : Inside (pure a : Except Fault α) := inside_ok

theorem inside_freed : Inside (.error .freed : Except Fault α) := by
  rintro ⟨⟩

theorem inside_bind : Inside (r >>= f) ↔ Inside r ∧ ∀ a, r = .ok a → Inside (f a) := by
  cases r with
  | error e =>
    constructor
    · intro h
      refine ⟨fun he => h (by cases he; rfl), ?_⟩
      rintro a ⟨⟩
    · rintro ⟨h, -⟩ he
      exact h (by cases he; rfl)
  | ok a =>
    constructor
    · intro h
      refine ⟨inside_ok, ?_⟩
      rintro b ⟨⟩
      exact h
    · exact fun h => h.2 a rfl

theorem inside_readBytes : Inside (readBytes p i n) ↔ i + n ≤ p.length := by
  unfold readBytes
  split_ifs with h
  · exact ⟨fun _ => h, fun _ => inside_ok⟩
  · exact ⟨fun hs => absurd rfl hs, fun hl => absurd hl h⟩

theorem inside_readStr : Inside (readStr p i) ↔ Ends p i := by
  unfold readStr Ends
  split_ifs with h
  · exact ⟨fun _ => h, fun _ => inside_ok⟩
  · exact ⟨fun hs => absurd rfl hs, fun hl => absurd hl h⟩

theorem inside_readStrn : Inside (readStrn p i n) ↔ 0 ∈ (p.drop i).take n ∨ i + n ≤ p.length := by
  unfold readStrn
  split_ifs with h
  · exact ⟨fun _ => h, fun _ => inside_ok⟩
  · exact ⟨fun hs => absurd rfl hs, fun hl => absurd hl h⟩

theorem inside_readIf {b : Bool} : Inside (readIf b r) ↔ (b = true → Inside r) := by
  unfold readIf
  cases b with
  | false => exact ⟨fun _ h => (Bool.false_ne_true h).elim, fun _ => inside_ok⟩
  | true =>
    refine ⟨fun h _ he => h ?_, fun h he => h rfl ?_⟩
    · rw [he]
      rfl
    · cases r with
      | error e => exact congrArg _ (Except.error.inj he)
      | ok a => cases he

theorem readStr_of (h : Ends p i) : readStr p i = .ok ((p.drop i).takeWhile (· ≠ 0)) := if_pos h

theorem readBytes_of (h : i + n ≤ p.length) : readBytes p i n = .ok ((p.drop i).take n) := if_pos h

theorem inside_readStr_bind {f : Str → Except Fault β} :
    Inside (readStr p i >>= f) ↔ Ends p i ∧ Inside (f ((p.drop i).takeWhile (· ≠ 0))) := by
  rw [inside_bind, inside_readStr]
  refine and_congr_right fun h => ?_
  rw [readStr_of h]
  exact ⟨fun hf => hf _ rfl, fun hf a ha => Except.ok.inj ha ▸ hf⟩

theorem inside_readBytes_bind {f : List UInt8 → Except Fault β} :
    Inside (readBytes p i n >>= f) ↔ i + n ≤ p.length ∧ Inside (f ((p.drop i).take n)) := by
  rw [inside_bind, inside_readBytes]
  refine and_congr_right fun h => ?_
  rw [readBytes_of h]
  exact ⟨fun hf => hf _ rfl, fun hf a ha => Except.ok.inj ha ▸ hf⟩

theorem inside_seq {r x : Except Fault Unit} (h : r ≠ .error .freed) :
    Inside (do r; x) ↔ Inside r ∧ Inside x := by
  rcases r with (_ | _) | _
  · exact ⟨fun hi => absurd rfl hi, fun hi => absurd rfl hi.1⟩
  · exact absurd rfl h
  · exact ⟨fun hi => ⟨inside_ok, hi⟩, fun hi => hi.2⟩

theorem inside_handlePublish {g : Node} :
    Inside (handlePublish k g src p) ↔ PublishInside k g.gateway src p := by
  rw [handlePublish, PublishInside, inside_readStr_bind]
  refine and_congr_right fun h9 => ?_
  have h5 : Ends p 5 := by
    have : 0 ∈ (p.drop 5).drop 4 := by rwa [List.drop_drop]
    exact List.mem_of_mem_drop this
  rw [inside_readStr_bind, and_iff_right h5]
  split_ifs with hr hg hget hset
  · refine ⟨fun _ => ⟨fun _ h => ?_, fun h => ?_⟩, fun _ => inside_pure⟩
    · rw [h] at hg
      cases hg
    · cases hr.symm.trans h
  · rw [GatewayState.getUuidByIpaddr]
    cases g.gateway.clients.find? fun c => c.addr = src with
    | none =>
      refine ⟨fun _ => ⟨fun _ _ h => ?_, fun h => ?_⟩, fun _ => inside_pure⟩
      · cases h
      · cases hr.symm.trans h
    | some c =>
      rw [inside_readStr_bind, inside_readStr_bind]
      constructor
      · rintro ⟨hv, hrest, -⟩
        exact ⟨fun _ _ _ => ⟨hv, hrest⟩, fun h => by cases hr.symm.trans h⟩
      · rintro ⟨h, -⟩
        obtain ⟨hv, hrest⟩ := h hr (by simpa using hg) rfl
        refine ⟨hv, hrest, ?_⟩
        cases g.gateway.devinfo c with
        | none => exact inside_freed
        | some x => exact inside_pure
  · exact ⟨fun _ => ⟨fun h => absurd h hr, fun h => by cases hget.symm.trans h⟩, fun _ => inside_pure⟩
  · rw [inside_bind, inside_readIf, inside_readStr]
    exact ⟨fun h => ⟨fun h' => absurd h' hr, fun _ => h.1⟩, fun h => ⟨h.2 hset, fun _ _ => inside_pure⟩⟩
  · exact ⟨fun _ => ⟨fun h => absurd h hr, fun h => absurd h hset⟩, fun _ => inside_pure⟩

theorem inside_enrollReads : Inside (enrollReads k p) ↔ RecordInside k p := by
  rw [enrollReads, RecordInside, inside_readBytes_bind]
  refine and_congr Iff.rfl ?_
  cases k.awssCalcSign with
  | none =>
    constructor
    · rintro - _ ⟨⟩
    · exact fun _ => inside_pure
  | some signs =>
    rw [inside_readStr_bind]
    constructor
    · rintro ⟨h48, hs⟩ _ ⟨⟩
      refine ⟨h48, ?_⟩
      split_ifs at hs with h
      · exact h
      · exact absurd rfl hs
    · intro h
      obtain ⟨h48, hs⟩ := h signs rfl
      exact ⟨h48, by rw [if_pos hs]; exact inside_pure⟩

theorem inside_joinReads {j : Join} {malloc : Option ℕ} : Inside (joinReads m j malloc p) ↔ JoinInside m j malloc p := by
  rw [joinReads, JoinInside]
  split_ifs with hj
  · exact ⟨fun _ h => absurd (hj.symm.trans h) (by decide), fun _ => inside_pure⟩
  have hj : j.refused = false := by simpa using hj
  rw [inside_readBytes_bind, forall_prop_of_true hj]
  refine and_congr_right fun _ => ?_
  dsimp only
  split_ifs with hn
  · refine ⟨fun _ h => ?_, fun _ => inside_pure⟩
    rcases h with h | h
    · exact absurd hn.1 h
    · exact absurd hn.2 h
  · rw [not_and_or] at hn
    rw [inside_readBytes_bind, inside_bind, inside_readStrn]
    exact ⟨fun h _ => ⟨h.1, h.2.1⟩, fun h => ⟨(h hn).1, (h hn).2, fun _ _ => inside_pure⟩⟩

theorem bind_ne_freed (h : r ≠ .error .freed) (hf : ∀ a, f a ≠ .error .freed) : r >>= f ≠ .error .freed := by
  rcases r with (_ | _) | a
  · rintro ⟨⟩
  · exact absurd rfl h
  · exact hf a

theorem readBytes_ne_freed : readBytes p i n ≠ .error .freed := by
  unfold readBytes
  split_ifs <;> rintro ⟨⟩

theorem readStrn_ne_freed : readStrn p i n ≠ .error .freed := by
  unfold readStrn
  split_ifs <;> rintro ⟨⟩

theorem joinReads_ne_freed {j : Join} {malloc : Option ℕ} : joinReads m j malloc p ≠ .error .freed := by
  unfold joinReads
  split_ifs
  · rintro ⟨⟩
  refine bind_ne_freed readBytes_ne_freed fun _ => ?_
  dsimp only
  split_ifs
  · rintro ⟨⟩
  · refine bind_ne_freed readBytes_ne_freed fun _ => bind_ne_freed readStrn_ne_freed fun _ => ?_
    rintro ⟨⟩

theorem readIf_ne_freed {b : Bool} (h : r ≠ .error .freed) : readIf b r ≠ .error .freed := by
  unfold readIf
  split_ifs
  · rcases r with (_ | _) | _
    · rintro ⟨⟩
    · exact absurd rfl h
    · rintro ⟨⟩
  · rintro ⟨⟩

theorem inside_newClientReads : Inside (newClientReads k s p os) ↔ ConnectInside k s os p := by
  rw [newClientReads, ConnectInside, inside_seq (readIf_ne_freed readBytes_ne_freed), inside_readIf, inside_readBytes,
    decide_eq_true_iff]
  refine and_congr_right fun _ => ?_
  rcases s.walk (regInfo p).ieeeAddr s.clients with _ | ⟨before, _ | ⟨c, behind⟩⟩
  · constructor
    · rintro - _ _ ⟨⟩
    · exact fun _ => inside_freed
  · dsimp only
    have hiff : ∀ {P : Prop}, (∀ b c : List Client, some (before, []) = some (b, c) →
        (c ≠ [] → RecordInside k p) ∧ (c = [] → P)) ↔ P := by
      intro P
      constructor
      · exact fun h => (h _ _ rfl).2 rfl
      · rintro h _ _ ⟨⟩
        exact ⟨fun hne => absurd rfl hne, fun _ => h⟩
    rw [hiff]
    by_cases hroom : os.client = true
    · rw [if_pos hroom, forall_prop_of_true hroom, inside_readBytes_bind, inside_seq joinReads_ne_freed, inside_joinReads]
      refine and_congr Iff.rfl (and_congr_right fun _ => ?_)
      split
      · rename_i _ q hq
        rw [if_pos ⟨_, hq, Option.some_ne_none _⟩, inside_enrollReads]
      · rename_i hq
        rw [inside_readIf, inside_readStr, if_neg]
        rintro ⟨⟨t, c⟩, hr, hne⟩
        obtain ⟨q, rfl⟩ := Option.ne_none_iff_exists'.1 hne
        exact hq _ _ hr
    · rw [if_neg hroom]
      exact ⟨fun _ h => absurd h hroom, fun _ => inside_pure⟩
  · dsimp only
    rw [inside_enrollReads]
    constructor
    · rintro h _ _ ⟨⟩
      exact ⟨fun _ => h, fun he => absurd he (List.cons_ne_nil _ _)⟩
    · exact fun h => (h _ _ rfl).1 (List.cons_ne_nil _ _)

theorem inside_handleConnect {g : Node} : Inside (handleConnect k g src os p) ↔
    (g.gateway.gatewayMode = true → g.gateway.yunioConnected = true → ConnectInside k g.gateway os p) := by
  unfold handleConnect
  split_ifs with hg hy
  · exact ⟨fun _ h => absurd hg (by simp [h]), fun _ => inside_pure⟩
  · exact ⟨fun _ _ h => absurd hy (by simp [h]), fun _ => inside_pure⟩
  rw [forall_prop_of_true (by simpa using hg), forall_prop_of_true (by simpa using hy), inside_bind, inside_newClientReads]
  refine and_iff_left_of_imp fun _ _ _ => ?_
  rcases g.gateway.newClient (regInfo p) os with _ | ⟨t, _ | ⟨_, c, _⟩⟩
  · exact inside_freed
  · exact inside_pure
  · dsimp only
    cases t.devinfo c with
    | none => exact inside_freed
    | some x => exact inside_pure

theorem inside_handleConnack {g : Node} : Inside (handleConnack g p) ↔
    (g.gateway.gatewayMode = false → 1 ≤ p.length ∧ (p.head? = some 0 → 34 ≤ p.length)) := by
  rw [handleConnack]
  by_cases hg : g.gateway.gatewayMode = true
  · rw [if_pos hg]
    exact ⟨fun _ h => absurd hg (by simp [h]), fun _ => inside_pure⟩
  rw [if_neg hg, forall_prop_of_true (by simpa using hg), inside_readBytes_bind]
  refine and_congr_right fun hlen => ?_
  cases p with
  | nil => cases hlen
  | cons code p =>
    have hcode : ((code :: p).drop 0).take 1 = [code] := rfl
    rw [hcode]
    by_cases h : [code] ≠ [0]
    · rw [if_pos h]
      exact ⟨fun _ h0 => absurd (congrArg (fun c => [c]) (Option.some.inj h0)) h, fun _ => inside_pure⟩
    · rw [if_neg h, inside_readBytes_bind]
      obtain rfl : code = 0 := by simpa using h
      exact ⟨fun hl _ => hl.1, fun hl => ⟨hl rfl, inside_pure⟩⟩

theorem inside_handleAdv {g : Node} :
    Inside (handleAdv k g p) ↔ (g.gateway.gatewayMode = false → 3 + k.addrLen ≤ p.length) := by
  unfold handleAdv
  split_ifs with hg
  · exact ⟨fun _ h => absurd hg (by simp [h]), fun _ => inside_pure⟩
  rw [forall_prop_of_true (by simpa using hg), inside_readBytes_bind]
  refine and_iff_left ?_
  split_ifs
  · exact inside_pure
  · exact inside_pure

theorem inside_handleMsg {g : Node} : Inside (handleMsg k g src os p) ↔ MsgInside k g.gateway src os p := by
  rw [handleMsg, inside_readBytes_bind]
  cases p with
  | nil => exact ⟨fun h => absurd h.1 (by decide), fun h => h.elim⟩
  | cons t p =>
    have ht : ((t :: p).drop 0).take 1 = [t] := rfl
    rw [ht, and_iff_right (by rw [List.length_cons]; omega), MsgInside, List.drop_one, List.tail_cons]
    simp only [List.cons.injEq, and_true]
    split_ifs with hp hc ha hd
    · subst hp
      rw [inside_bind, inside_handlePublish]
      refine ⟨fun h => ⟨fun _ => h.1, ?_⟩, fun h => ⟨h.1 rfl, fun _ _ => inside_pure⟩⟩
      exact ⟨fun h => absurd h (by decide), fun h => absurd h (by decide), fun h => absurd h (by decide)⟩
    · subst hc
      rw [inside_handleConnect]
      exact ⟨fun h => ⟨fun h' => absurd h' hp, fun _ => h, fun h' => absurd h' (by decide), fun h' => absurd h' (by decide)⟩,
        fun h => h.2.1 rfl⟩
    · subst ha
      rw [inside_handleConnack]
      exact ⟨fun h => ⟨fun h' => absurd h' hp, fun h' => absurd h' hc, fun _ => h, fun h' => absurd h' (by decide)⟩,
        fun h => h.2.2.1 rfl⟩
    · subst hd
      rw [inside_handleAdv]
      exact ⟨fun h => ⟨fun h' => absurd h' hp, fun h' => absurd h' hc, fun h' => absurd h' ha, fun _ => h⟩,
        fun h => h.2.2.2 rfl⟩
    · exact ⟨fun _ => ⟨fun h => absurd h hp, fun h => absurd h hc, fun h => absurd h ha, fun h => absurd h hd⟩,
        fun _ => inside_pure⟩

theorem Datagram.parse_ne_none (d : Datagram) : msnParseHeader d.bytes d.bytes.length ≠ none := by
  obtain ⟨bytes, hlong, -⟩ := d
  rcases bytes with _ | ⟨a, _ | ⟨b, _ | ⟨c, rest⟩⟩⟩
  · cases hlong
  · cases Nat.lt_of_succ_lt_succ hlong
  · cases Nat.lt_of_succ_lt_succ (Nat.lt_of_succ_lt_succ hlong)
  · rw [msnParseHeader, announced]
    split_ifs
    · exact Option.some_ne_none _
    · exact Option.some_ne_none _

/-- **The handlers stay inside the datagram** exactly where it has what its handler reads. -/
theorem datagram_handlers_inside_iff (k : Build) (g : Node) (src : SockAddr) (os : Os) (d : Datagram) :
    Inside (gatewaySockReadCb k g src os d) ↔ d.Complete k g.gateway src os := by
  rw [gatewaySockReadCb, Datagram.Complete]
  rcases h : msnParseHeader d.bytes d.bytes.length with _ | ⟨len, pbuf⟩
  · exact absurd h d.parse_ne_none
  dsimp only
  have hiff : ∀ {P : ℤ × ℕ → Prop}, (∀ r ∈ (some (len, pbuf) : Option (ℤ × ℕ)), P r) ↔ P (len, pbuf) :=
    ⟨fun hp => hp _ rfl, fun hp r hr => Option.some.inj hr ▸ hp⟩
  rw [hiff]
  split_ifs with hneg
  · exact ⟨fun _ h0 => absurd h0 (by omega), fun _ => inside_ok⟩
  · rw [inside_handleMsg, forall_prop_of_true (by dsimp only; omega)]

/-- A publish that ends behind its type. -/
def shortPublish : Datagram := ⟨[4, PUBLISH, 0], by decide, by decide⟩

/-- It is accepted, and its attribute name is looked for behind its end. -/
theorem shortPublish_outside :
    ¬ ∀ k g src os (d : Datagram), (∃ r ∈ msnParseHeader d.bytes d.bytes.length, 0 ≤ r.1) →
      Inside (gatewaySockReadCb k g src os d) := by
  intro h
  refine h ⟨false, false, none⟩ ⟨.init, false, false, [], []⟩ [] ⟨true, 0, none, ⟨none, 0, true⟩⟩ shortPublish
    ⟨(3, 1), rfl, by decide⟩ ?_
  rfl

end Gateway
