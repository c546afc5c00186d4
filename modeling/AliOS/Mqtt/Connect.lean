/-
  Connecting of `mqtt_client.c`: `iotx_mc_connect`, `iotx_mc_handle_reconnect`, the
  receive callback and the cycle, and the state that they set.

  The network connection carries what happened on it (`Net`).  What the network,
  the clock and the authentication answer are arguments.  `waits` stands for the
  build with `STM32_USE_SPI_WIFI`, which waits for the CONNACK while it connects;
  the other polls the connection.
-/
import AliOS.Lib.Trans

namespace Mqtt

open Lib

/-- `iotx_mc_state_t`. -/
inductive McState
  | invalid
  | initialized
  | connected
  | disconnected
  | reconnecting
  deriving DecidableEq

/-- The network connection: whether it is open, a CONNECT was sent on it, and a
    CONNACK with return code 0 was received behind that. -/
structure Net where
  isOpen : Bool
  connectSent : Bool
  accepted : Bool
  deriving DecidableEq

def Net.closed : Net := ⟨false, false, false⟩

/-- The fields of `iotx_mc_client_t` in question, with the flag `is_connected`;
    `polled` says whether `cb_recv` waits for data. -/
structure McClient where
  clientState : McState
  net : Net
  isConnected : Bool
  polled : Bool
  pingMark : Bool
  reconnectIntervalMs : ℕ
  deriving DecidableEq

def reconnectIntervalMinMs : ℕ := 1000
def reconnectIntervalMaxMs : ℕ := 60000

/-- `iotx_mc_init`, when it succeeds. -/
def iotxMcInit : McClient where
  clientState := .initialized
  net := Net.closed
  isConnected := false
  polled := false
  pingMark := false
  reconnectIntervalMs := reconnectIntervalMinMs

/-! ## Packets -/

/-- The packet types. -/
def typeConnack : ℕ := 2
def typePublish : ℕ := 3
def typePuback : ℕ := 4
def typeSuback : ℕ := 9
def typeUnsuback : ℕ := 11
def typePingresp : ℕ := 13

/-- What `iotx_mc_read_packet` finds on the network: an error, nothing, or a packet
    with the bytes behind its length. -/
inductive ReadRes
  | fail
  | timeout
  | packet (type : ℕ) (body : List UInt8)

/-- The return code that `MQTTDeserialize_connack` leaves behind; a body of less than
    two bytes leaves the 255 it started from. -/
def connackRc (body : List UInt8) : ℕ :=
  match body with
  | _ :: rc :: _ => rc.toNat
  | _ => 255

/-- `iotx_mc_read_packet`; reading a connection that is not open fails. -/
def readPacket (c : McClient) (r : ReadRes) : ReadRes × McClient :=
  if c.net.isOpen then
    match r with
    | .packet type body =>
      let accepts := c.net.connectSent && type = typeConnack && connackRc body = 0
      (r, { c with net := { c.net with accepted := c.net.accepted || accepts } })
    | r => (r, c)
  else (.fail, c)

/-- `iotx_mc_wait_CONNACK` with `iotx_mc_handle_recv_CONNACK`: true if the CONNACK
    accepts; `none` while it goes on waiting. -/
def waitConnack (c : McClient) : List ReadRes → Option (Bool × McClient)
  | [] => none
  | r :: rs =>
    match readPacket c r with
    | (.fail, c) => some (false, c)
    | (.timeout, c) => waitConnack c rs
    | (.packet type body, c) =>
      if type = typeConnack then some (connackRc body = 0, c) else waitConnack c rs

/-! ## Connecting -/

/-- How the network answers `iotx_mc_connect`. -/
structure ConnectEnv where
  /-- `ipstack->connect` succeeds -/
  connects : Bool
  /-- `MQTTConnect` sends the CONNECT -/
  sends : Bool
  /-- what is read behind it -/
  reads : List ReadRes

def setState (c : McClient) (s : McState) : McClient := { c with clientState := s }

/-- `ipstack->disconnect`. -/
def disconnectNet (c : McClient) : McClient := { c with net := Net.closed }

/-- `iotx_mc_connect`: true if it returns success. -/
def iotxMcConnect (waits : Bool) (c : McClient) (e : ConnectEnv) : Option (Bool × McClient) :=
  if !e.connects then some (false, disconnectNet c)
  else
    let c := { c with net := ⟨true, false, false⟩ }
    if !e.sends then some (false, disconnectNet c)
    else
      let c := { c with net := ⟨true, true, false⟩ }
      if waits then
        (waitConnack c e.reads).map fun (ok, c) =>
          if !ok then (false, disconnectNet c) else (true, setState c .connected)
      else some (true, { c with polled := true })

/-- How clock, authentication and network answer `iotx_mc_handle_reconnect`. -/
structure ReconnectEnv where
  /-- the time of the next attempt has come -/
  expired : Bool
  /-- `iotx_guider_authenticate` succeeds -/
  auth : Bool
  connect : ConnectEnv

/-- `iotx_mc_handle_reconnect` with `iotx_mc_attempt_reconnect`. -/
def iotxMcHandleReconnect (waits : Bool) (c : McClient) (e : ReconnectEnv) : Option (Bool × McClient) :=
  if !e.expired then some (false, c)
  else if !e.auth then some (false, c)
  else
    (iotxMcConnect waits c e.connect).map fun (ok, c) =>
      if ok then (true, setState c .connected)
      else if reconnectIntervalMaxMs > c.reconnectIntervalMs then
        (false, { c with reconnectIntervalMs := c.reconnectIntervalMs * 2 })
      else (false, { c with reconnectIntervalMs := reconnectIntervalMaxMs })

/-! ## Cycles -/

/-- `cb_recv` is cancelled, where it was connected. -/
def cancelPoll (waits : Bool) (c : McClient) : McClient :=
  if !waits && c.isConnected then { c with polled := false, isConnected := false } else c

/-- How clock and network answer `iotx_mc_keepalive`. -/
structure KeepaliveEnv where
  /-- the time of the next ping has come -/
  pingDue : Bool
  /-- the ping is serialized, and sent -/
  pingSerialized : Bool
  pingSent : Bool
  reconnect : ReconnectEnv

def iotxMcKeepaliveSub (c : McClient) (e : KeepaliveEnv) : McClient :=
  if c.clientState ≠ .connected then c
  else if !e.pingDue then c
  else if !e.pingSerialized then c
  else if !e.pingSent then setState c .disconnected
  else { c with pingMark := true }

def iotxMcKeepalive (waits : Bool) (c : McClient) (e : KeepaliveEnv) : Option McClient :=
  let c := iotxMcKeepaliveSub c e
  match c.clientState with
  | .reconnecting =>
    (iotxMcHandleReconnect waits { c with pingMark := false } e.reconnect).map fun (ok, c) =>
      if ok then { c with reconnectIntervalMs := reconnectIntervalMinMs } else c
  | .disconnected =>
    let c := cancelPoll waits { c with reconnectIntervalMs := reconnectIntervalMinMs }
    some (setState (disconnectNet c) .reconnecting)
  | _ => some c

/-- The types that `iotx_mc_cycle` knows. -/
def knownTypes : List ℕ :=
  [typeConnack, typePuback, typeSuback, typePublish, typeUnsuback, typePingresp]

/-- `iotx_mc_cycle`: true if it returns success; `handled` is what the handler of the
    packet returns. -/
def iotxMcCycle (c : McClient) (r : ReadRes) (handled : Bool) : Bool × McClient :=
  if c.clientState ≠ .connected then (false, c)
  else
    match readPacket c r with
    | (.fail, c) => (false, setState c .disconnected)
    | (.timeout, c) => (true, c)
    | (.packet type _, c) =>
      let c := { c with pingMark := false }
      if type = typeConnack || type = typePingresp then (true, c)
      else (type ∈ knownTypes && handled, c)

/-- How network and clock answer `IOT_MQTT_Yield`. -/
structure YieldEnv where
  read : ReadRes
  handled : Bool
  /-- `MQTTPubInfoProc` publishes again, and cannot send -/
  republishFails : Bool
  keepalive : KeepaliveEnv

/-- `MQTTPubInfoProc`, by what it does to the state. -/
def mqttPubInfoProc (c : McClient) (republishFails : Bool) : McClient :=
  if c.clientState = .connected && republishFails then setState c .disconnected else c

/-- A round of `IOT_MQTT_Yield`. -/
def iotMqttYield (waits : Bool) (c : McClient) (e : YieldEnv) : Option McClient :=
  let (ok, c) := iotxMcCycle c e.read e.handled
  let c := if ok then mqttPubInfoProc c e.republishFails else c
  if !ok && waits then some c else iotxMcKeepalive waits c e.keepalive

def cbRecv (c : McClient) (reads : List ReadRes) (e : YieldEnv) : Option McClient :=
  if !c.isConnected then
    (waitConnack c reads).map fun (ok, c) =>
      if !ok then disconnectNet c else { setState c .connected with isConnected := true }
  else iotMqttYield false c e

def iotxMcDisconnect (waits : Bool) (c : McClient) : McClient :=
  setState (disconnectNet (cancelPoll waits c)) .initialized

/-! ## The system -/

/-- A step: the client connects, yields, is called back for data, makes a request
    (which fails to be sent or not), or disconnects. -/
inductive McAct
  | connect (e : ConnectEnv)
  | yield (e : YieldEnv)
  | recv (reads : List ReadRes) (e : YieldEnv)
  | request (sent : Bool)
  | disconnect

/-- `IOT_MQTT_Construct` connects a client that is initialized, and `cb_recv` runs
    where it was registered. -/
def mcStep (waits : Bool) (c : McClient) : McAct → Option McClient
  | .connect e => if c.clientState = .initialized then (iotxMcConnect waits c e).map Prod.snd else none
  | .yield e => iotMqttYield waits c e
  | .recv reads e => if c.polled && !waits then cbRecv c reads e else none
  | .request sent => some (if c.clientState = .connected && !sent then setState c .disconnected else c)
  | .disconnect => some (iotxMcDisconnect waits c)

def McStep (waits : Bool) (c : McClient) (a : McAct) (c' : McClient) : Prop := mcStep waits c a = some c'

/-- **CONNECTED means an accepted CONNACK** on the open connection. -/
def ConnectedOk (c : McClient) : Prop :=
  c.clientState = .connected → c.net.isOpen ∧ c.net.connectSent ∧ c.net.accepted

/-- A reconnect of the answers `e` succeeds where the CONNACK is not waited for. -/
def Reconnects (waits : Bool) (c : McClient) (e : ReconnectEnv) : Prop :=
  waits = false ∧ c.clientState = .reconnecting ∧ e.expired ∧ e.auth ∧ e.connect.connects ∧ e.connect.sends

/-- **The condition**: no such reconnect. -/
def ReconnectOk (waits : Bool) (c : McClient) : McAct → Prop
  | .yield e => ¬ Reconnects waits c e.keepalive.reconnect
  | _ => True

/-! ## What the functions do -/

variable {waits ok : Bool} {c c' : McClient} {r : ReadRes} {a : McAct} {as : List McAct}

/-- Packets were read: an acceptance may be among them. -/
def Heard (c c' : McClient) : Prop :=
  ∃ x, c' = { c with net := { c.net with accepted := x } } ∧ (c.net.accepted = true → x = true)

theorem Heard.refl (c : McClient) : Heard c c := ⟨_, rfl, id⟩

theorem Heard.trans {d : McClient} (h1 : Heard c c') (h2 : Heard c' d) : Heard c d := by
  obtain ⟨x, rfl, hx⟩ := h1
  obtain ⟨y, rfl, hy⟩ := h2
  exact ⟨y, rfl, fun h => hy (hx h)⟩

theorem readPacket_heard : Heard c (readPacket c r).2 := by
  unfold readPacket
  split_ifs
  · cases r with
    | packet type body => exact ⟨_, rfl, fun h => by rw [h]; rfl⟩
    | _ => exact .refl c
  · exact .refl c

theorem readPacket_packet {type : ℕ} {body : List UInt8} (h : readPacket c r = (.packet type body, c')) :
    c.net.isOpen = true ∧
      (c.net.connectSent = true → type = typeConnack → connackRc body = 0 → c'.net.accepted = true) := by
  unfold readPacket at h
  split_ifs at h with hopen
  · refine ⟨hopen, fun hs ht hrc => ?_⟩
    cases r with
    | packet type' body' =>
      obtain ⟨he, rfl⟩ := Prod.mk.inj h
      cases he
      rw [hs, hrc, decide_eq_true ht]
      simp
    | _ => cases h
  · cases h

/-- **Waiting for the CONNACK** ends with success only on an open connection, with
    an acceptance heard if the CONNECT was sent. -/
theorem waitConnack_spec {rs : List ReadRes} (h : waitConnack c rs = some (ok, c')) :
    Heard c c' ∧
      (ok = true → c.net.isOpen = true ∧ (c.net.connectSent = true → c'.net.accepted = true)) := by
  induction rs generalizing c with
  | nil => cases h
  | cons r rs ih =>
    unfold waitConnack at h
    have hheard := readPacket_heard (c := c) (r := r)
    rcases hread : readPacket c r with ⟨_ | _ | ⟨type, body⟩, d⟩
    · rw [hread] at h hheard
      cases h
      exact ⟨hheard, by nofun⟩
    · rw [hread] at h hheard
      obtain ⟨hh, hok⟩ := ih h
      refine ⟨hheard.trans hh, ?_⟩
      obtain ⟨x, rfl, -⟩ := hheard
      exact hok
    · obtain ⟨hopen, hacc⟩ := readPacket_packet hread
      rw [hread] at h hheard
      dsimp only at h hheard
      split_ifs at h with htype
      · cases h
        exact ⟨hheard, fun hok => ⟨hopen, fun hs => hacc hs htype (by simpa using hok)⟩⟩
      · obtain ⟨hh, hok⟩ := ih h
        refine ⟨hheard.trans hh, ?_⟩
        obtain ⟨x, rfl, -⟩ := hheard
        exact hok

theorem iotxMcConnect_cases {e : ConnectEnv} (h : iotxMcConnect waits c e = some (ok, c')) :
    (ok = false ∧ c' = disconnectNet c) ∨
    (ok = true ∧ waits = true ∧ c' = setState { c with net := ⟨true, true, true⟩ } .connected) ∨
    (ok = true ∧ waits = false ∧ e.connects = true ∧ e.sends = true ∧
      c' = { c with net := ⟨true, true, false⟩, polled := true }) := by
  unfold iotxMcConnect at h
  cases hconn : e.connects with
  | false =>
    rw [hconn] at h
    cases h
    exact .inl ⟨rfl, rfl⟩
  | true =>
    cases hsend : e.sends with
    | false =>
      rw [hconn, hsend] at h
      cases h
      exact .inl ⟨rfl, rfl⟩
    | true =>
      rw [hconn, hsend] at h
      cases waits with
      | false =>
        cases h
        exact .inr (.inr ⟨rfl, rfl, rfl, rfl, rfl⟩)
      | true =>
        obtain ⟨⟨ok', d⟩, hw, he⟩ := Option.map_eq_some_iff.1 h
        obtain ⟨⟨x, rfl, -⟩, hok⟩ := waitConnack_spec hw
        cases ok' with
        | false =>
          cases he
          exact .inl ⟨rfl, rfl⟩
        | true =>
          cases he
          have hx : x = true := (hok rfl).2 rfl
          rw [hx]
          exact .inr (.inl ⟨rfl, rfl, rfl⟩)

/-! ## The invariant -/

/-- What holds without a reconnect that does not wait. -/
structure McInv (waits : Bool) (c : McClient) : Prop where
  ok : ConnectedOk c
  sent : c.net.isOpen = true → c.net.connectSent = true
  flag : waits = false → c.clientState = .connected ∨ c.clientState = .disconnected →
    c.isConnected = true
  closed : waits = false → c.clientState = .reconnecting → c.isConnected = false ∧ c.net.isOpen = false

theorem mcInv_init : McInv waits iotxMcInit :=
  ⟨by nofun, by nofun, fun _ h => absurd h (by decide), by nofun⟩

theorem McInv.heard (h : McInv waits c) (hh : Heard c c') : McInv waits c' := by
  obtain ⟨x, rfl, hx⟩ := hh
  refine ⟨fun hc => ?_, h.sent, h.flag, fun hw hs => ?_⟩
  · obtain ⟨h1, h2, h3⟩ := h.ok hc
    exact ⟨h1, h2, hx h3⟩
  · obtain ⟨h1, h2⟩ := h.closed hw hs
    exact ⟨h1, h2⟩

theorem McInv.drop (h : McInv waits c) (hc : c.clientState = .connected) :
    McInv waits (setState c .disconnected) :=
  ⟨by nofun, h.sent, fun hw _ => h.flag hw (.inl hc), by nofun⟩

theorem McInv.disconnectNet (h : McInv waits c) (hs : c.clientState ≠ .connected) :
    McInv waits (disconnectNet c) :=
  ⟨fun hc => absurd hc hs, by nofun, h.flag, fun hw hr => ⟨(h.closed hw hr).1, rfl⟩⟩

theorem McInv.closing (s : McState) (h1 : s ≠ .connected) (h2 : s ≠ .disconnected)
    (hf : waits = false → c.isConnected = false) : McInv waits (setState (Mqtt.disconnectNet c) s) :=
  ⟨fun hc => absurd hc h1, by nofun, fun _ h => absurd h (by simp [setState, h1, h2]),
    fun hw _ => ⟨hf hw, rfl⟩⟩

theorem cancelPoll_isConnected (h : waits = false) : (cancelPoll waits c).isConnected = false := by
  unfold cancelPoll
  subst h
  cases hc : c.isConnected with
  | false => simp [hc]
  | true => simp

theorem McInv.cycle {handled : Bool} (h : McInv waits c) : McInv waits (iotxMcCycle c r handled).2 := by
  unfold iotxMcCycle
  split_ifs with hs
  · exact h
  have hheard := readPacket_heard (c := c) (r := r)
  have hstate : (readPacket c r).2.clientState = .connected := by
    obtain ⟨x, he, -⟩ := hheard
    rw [he]
    exact not_not.1 hs
  have hinv := h.heard hheard
  rcases hread : readPacket c r with ⟨_ | _ | ⟨type, body⟩, d⟩
  · rw [hread] at hinv hstate
    exact hinv.drop hstate
  · rw [hread] at hinv
    exact hinv
  · rw [hread] at hinv
    dsimp only
    split_ifs <;> exact ⟨hinv.ok, hinv.sent, hinv.flag, hinv.closed⟩

theorem McInv.keepaliveSub {e : KeepaliveEnv} (h : McInv waits c) : McInv waits (iotxMcKeepaliveSub c e) := by
  unfold iotxMcKeepaliveSub
  split_ifs with hs
  · exact h
  · exact h
  · exact h
  · exact h.drop (not_not.1 hs)
  · exact ⟨h.ok, h.sent, h.flag, h.closed⟩

theorem McInv.reconnect {e : ReconnectEnv} (h : McInv waits c) (hs : c.clientState = .reconnecting)
    (hno : ¬ Reconnects waits c e) (hr : iotxMcHandleReconnect waits c e = some (ok, c')) :
    McInv waits c' := by
  have hne : c.clientState ≠ .connected := by rw [hs]; decide
  unfold iotxMcHandleReconnect at hr
  split_ifs at hr with hexp hauth
  · cases hr
    exact h
  · cases hr
    exact h
  · obtain ⟨⟨ok', d⟩, hconn, he⟩ := Option.map_eq_some_iff.1 hr
    rcases iotxMcConnect_cases hconn with ⟨rfl, rfl⟩ | ⟨rfl, rfl, rfl⟩ | ⟨rfl, rfl, hc, hsend, rfl⟩
    · have hinv := h.disconnectNet hne
      dsimp only at he
      rw [if_neg Bool.false_ne_true] at he
      split_ifs at he <;> cases he <;> exact ⟨hinv.ok, hinv.sent, hinv.flag, hinv.closed⟩
    · cases he
      exact ⟨fun _ => ⟨rfl, rfl, rfl⟩, fun _ => rfl, by nofun, by nofun⟩
    · refine absurd ⟨rfl, hs, ?_, ?_, hc, hsend⟩ hno
      · simpa using hexp
      · simpa using hauth

theorem keepaliveSub_state {e : KeepaliveEnv} (h : (iotxMcKeepaliveSub c e).clientState = .reconnecting) :
    iotxMcKeepaliveSub c e = c := by
  unfold iotxMcKeepaliveSub at h ⊢
  split_ifs at h ⊢ with hs
  · rfl
  · rfl
  · rfl
  · cases h
  · exact absurd (h.symm.trans (not_not.1 hs)) (by decide)

theorem McInv.keepalive {e : KeepaliveEnv} (h : McInv waits c) (hno : ¬ Reconnects waits c e.reconnect)
    (hk : iotxMcKeepalive waits c e = some c') : McInv waits c' := by
  have hsub := h.keepaliveSub (e := e)
  unfold iotxMcKeepalive at hk
  cases hs : (iotxMcKeepaliveSub c e).clientState with
  | reconnecting =>
    have hsame := keepaliveSub_state hs
    rw [hsame] at hk hs hsub
    simp only [hs] at hk
    obtain ⟨⟨ok, d⟩, hr, he⟩ := Option.map_eq_some_iff.1 hk
    have hinv : McInv waits d := by
      rw [← hs] at hr
      exact McInv.reconnect (c := { c with pingMark := false }) ⟨h.ok, h.sent, h.flag, h.closed⟩ hs hno hr
    dsimp only at he
    split_ifs at he <;> cases he
    · exact ⟨hinv.ok, hinv.sent, hinv.flag, hinv.closed⟩
    · exact hinv
  | disconnected =>
    simp only [hs] at hk
    cases hk
    exact McInv.closing .reconnecting (by decide) (by decide) cancelPoll_isConnected
  | _ =>
    simp only [hs] at hk
    cases hk
    exact hsub

theorem cycle_reconnecting {handled : Bool}
    (h : (iotxMcCycle c r handled).2.clientState = .reconnecting) : iotxMcCycle c r handled = (false, c) := by
  unfold iotxMcCycle at h ⊢
  split_ifs at h ⊢ with hs
  · rfl
  have hstate : (readPacket c r).2.clientState = .connected := by
    obtain ⟨x, he, -⟩ := readPacket_heard (c := c) (r := r)
    rw [he]
    exact not_not.1 hs
  rcases hread : readPacket c r with ⟨_ | _ | ⟨type, body⟩, d⟩
  · rw [hread] at h
    cases h
  · rw [hread] at h hstate
    exact absurd (h.symm.trans hstate) (by decide)
  · rw [hread] at h hstate
    dsimp only at h hstate
    split_ifs at h <;> exact absurd (h.symm.trans hstate) (by decide)

theorem McInv.pubInfoProc {b : Bool} (h : McInv waits c) : McInv waits (mqttPubInfoProc c b) := by
  unfold mqttPubInfoProc
  split_ifs with hd
  · refine h.drop ?_
    simp only [Bool.and_eq_true, decide_eq_true_eq] at hd
    exact hd.1
  · exact h

theorem pubInfoProc_reconnecting {b : Bool} (h : (mqttPubInfoProc c b).clientState = .reconnecting) :
    c.clientState = .reconnecting := by
  unfold mqttPubInfoProc at h
  split_ifs at h
  · cases h
  · exact h

theorem McInv.yield {e : YieldEnv} (h : McInv waits c) (hno : ¬ Reconnects waits c e.keepalive.reconnect)
    (hy : iotMqttYield waits c e = some c') : McInv waits c' := by
  unfold iotMqttYield at hy
  have hcyc : McInv waits (iotxMcCycle c e.read e.handled).2 := h.cycle
  have hrec : (iotxMcCycle c e.read e.handled).2.clientState = .reconnecting →
      iotxMcCycle c e.read e.handled = (false, c) := cycle_reconnecting
  generalize iotxMcCycle c e.read e.handled = p at hy hcyc hrec
  obtain ⟨ok, d⟩ := p
  cases ok with
  | false =>
    simp only [Bool.false_eq_true, if_false, Bool.not_false, Bool.true_and] at hy
    split_ifs at hy
    · cases hy
      exact hcyc
    · refine McInv.keepalive hcyc (fun hr => hno ?_) hy
      cases hrec hr.2.1
      exact hr
  | true =>
    simp only [if_true, Bool.not_true, Bool.false_and, Bool.false_eq_true, if_false] at hy
    refine McInv.keepalive hcyc.pubInfoProc (fun hr => ?_) hy
    cases hrec (pubInfoProc_reconnecting hr.2.1)

theorem McInv.step (h : McInv waits c) (hs : restrict (ReconnectOk waits) (McStep waits) c a c') :
    McInv waits c' := by
  obtain ⟨hok, hs⟩ := hs
  unfold McStep mcStep at hs
  cases a with
  | connect e =>
    dsimp only at hs
    split_ifs at hs with hi
    obtain ⟨⟨ok, d⟩, hc, rfl⟩ := Option.map_eq_some_iff.1 hs
    rcases iotxMcConnect_cases hc with ⟨-, rfl⟩ | ⟨-, rfl, rfl⟩ | ⟨-, rfl, -, -, rfl⟩
    · exact h.disconnectNet (by rw [hi]; decide)
    · exact ⟨fun _ => ⟨rfl, rfl, rfl⟩, fun _ => rfl, by nofun, by nofun⟩
    · refine ⟨fun hc => ?_, fun _ => rfl, h.flag, fun _ hr => ?_⟩
      · exact absurd (hi.symm.trans hc) (by decide)
      · exact absurd (hi.symm.trans hr) (by decide)
  | yield e => exact h.yield hok hs
  | recv reads e =>
    dsimp only at hs
    split_ifs at hs with hp
    have hw : waits = false := by
      simp only [Bool.and_eq_true, Bool.not_eq_true'] at hp
      exact hp.2
    subst hw
    unfold cbRecv at hs
    split_ifs at hs with hconn
    · -- the first data: the CONNACK is waited for
      have hflag : c.isConnected = false := by simpa using hconn
      obtain ⟨⟨ok, d⟩, hwait, he⟩ := Option.map_eq_some_iff.1 hs
      obtain ⟨hheard, hacc⟩ := waitConnack_spec hwait
      have hd := h.heard hheard
      obtain ⟨x, rfl, -⟩ := hheard
      cases ok with
      | false =>
        cases he
        refine hd.disconnectNet fun hc => ?_
        exact absurd (h.flag rfl (.inl hc)) (by rw [hflag]; decide)
      | true =>
        cases he
        obtain ⟨hopen, hx⟩ := hacc rfl
        have hsent := h.sent hopen
        exact ⟨fun _ => ⟨hopen, hsent, hx hsent⟩, fun _ => hsent, fun _ _ => rfl, by nofun⟩
    · refine h.yield (fun hr => ?_) hs
      exact hconn (by rw [(h.closed rfl hr.2.1).1]; rfl)
  | request sent =>
    cases hs
    split_ifs with hd
    · refine h.drop ?_
      simp only [Bool.and_eq_true, decide_eq_true_eq] at hd
      exact hd.1
    · exact h
  | disconnect =>
    cases hs
    exact McInv.closing .initialized (by decide) (by decide) cancelPoll_isConnected

theorem iotxMcConnect_sent {e : ConnectEnv} (hc : e.connects = true) (hs : e.sends = true) :
    iotxMcConnect false c e = some (true, { c with net := ⟨true, true, false⟩, polled := true }) := by
  unfold iotxMcConnect
  rw [hc, hs]
  rfl

/-- The reconnect that is left out ends in CONNECTED, and no CONNACK was received. -/
theorem reconnect_breaks {e : YieldEnv} (hr : Reconnects waits c e.keepalive.reconnect)
    (hy : iotMqttYield waits c e = some c') : ¬ ConnectedOk c' := by
  obtain ⟨rfl, hs, hexp, hauth, hconn, hsend⟩ := hr
  have hcyc : iotxMcCycle c e.read e.handled = (false, c) := if_pos (by rw [hs]; decide)
  have hsub : iotxMcKeepaliveSub c e.keepalive = c := if_pos (by rw [hs]; decide)
  have hrec : ∀ d, iotxMcHandleReconnect false d e.keepalive.reconnect =
      some (true, setState { d with net := ⟨true, true, false⟩, polled := true } .connected) := by
    intro d
    unfold iotxMcHandleReconnect
    rw [hexp, hauth, iotxMcConnect_sent hconn hsend]
    rfl
  have hkeep : iotxMcKeepalive false c e.keepalive = some c' := by
    unfold iotMqttYield at hy
    rw [hcyc] at hy
    exact hy
  unfold iotxMcKeepalive at hkeep
  rw [hsub] at hkeep
  simp only [hs, hrec] at hkeep
  cases hkeep
  exact fun hok => Bool.false_ne_true (hok rfl).2.2

/-- **CONNECTED means an accepted CONNACK**, in every run in which no reconnect
    succeeds without waiting for the CONNACK; and such a reconnect breaks it. -/
theorem connected_means_connack
    (hr : Run (restrict (ReconnectOk waits) (McStep waits)) iotxMcInit as c) :
    ConnectedOk c ∧ ∀ a c', ¬ ReconnectOk waits c a → McStep waits c a c' → ¬ ConnectedOk c' := by
  have hinv : McInv waits c := hr.keeps (fun h hs => McInv.step h hs) mcInv_init
  refine ⟨hinv.ok, fun a c' hno hs => ?_⟩
  cases a with
  | yield e => exact reconnect_breaks (not_not.1 hno) hs
  | _ => exact absurd trivial hno

/-- An environment in which nothing happens. -/
def quietYield (reconnect : ReconnectEnv) : YieldEnv :=
  ⟨.timeout, true, false, ⟨false, true, true, reconnect⟩⟩

def reconnects : ReconnectEnv := ⟨true, true, ⟨true, true, []⟩⟩

/-- A client connects, and the CONNACK accepts. -/
def connects : List McAct :=
  [.connect ⟨true, true, []⟩, .recv [.packet typeConnack [0, 0]] (quietYield reconnects)]

/-- The client is connected behind the CONNACK. -/
theorem connected_means_connack_once :
    ∃ c, Run (McStep false) iotxMcInit connects c ∧ c.clientState = .connected ∧ ConnectedOk c := by
  have hr : Run (restrict (ReconnectOk false) (McStep false)) iotxMcInit connects _ :=
    .cons ⟨trivial, rfl⟩ (.cons ⟨trivial, rfl⟩ .nil)
  exact ⟨_, hr.mono fun h => h.2, rfl, (connected_means_connack hr).1⟩

/-- A request is not sent, a yield closes the connection, and the next reconnects. -/
theorem connected_without_connack :
    ¬ ∀ waits as c, Run (McStep waits) iotxMcInit as c → ConnectedOk c := by
  intro hall
  have h := hall false (connects ++ [.request false, .yield (quietYield reconnects),
    .yield (quietYield reconnects)]) _
    (.cons rfl (.cons rfl (.cons rfl (.cons rfl (.cons rfl .nil)))))
  exact absurd (h rfl).2.2 (by decide)

end Mqtt
