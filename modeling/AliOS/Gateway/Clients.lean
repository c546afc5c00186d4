/-
  The clients of the gateway (`framework/gateway/gateway_service.c`).

  A client keeps the device that `devmgr_get_devinfo_by_ieeeaddr` gave to `new_client`, and not
  the reference that came with it: what deletes the device does not know of the client.  The
  uuid of an address is that of the first client on the list that has the address.
-/
import AliOS.Gateway.DevStays
import Mathlib.Data.List.TakeWhile

namespace Gateway

open Devmgr

/-- The bytes of `struct sockaddr_in6`, or of `struct sockaddr_in`. -/
abbrev SockAddr := List UInt8

def MAX_GATEWAY_RECONNECT_TIMEOUT : UInt8 := 48

/-- `client_t`; `dangling` tells that the block of `devinfo` was freed since. -/
structure Client where
  devinfo : ℕ
  addr : SockAddr
  timeout : UInt8
  dangling : Bool
  deriving DecidableEq

/-- What `new_client` reads of `reg_info_t` for more than a message to the cloud. -/
structure RegInfo where
  ieeeAddr : List UInt8
  modelId : UInt32
  rand : List UInt8
  sign : Str

/-- What a CONNECT meets: whether there is room for a `client_t`, what
    `devmgr_get_permitjoin_short_model` returns, the block for a device, and the cloud. -/
structure Os where
  client : Bool
  permit : UInt32
  device : Option ℕ
  cloud : Cloud

/-- `gateway_state`, and the devices.  `stopping` holds inside of the loop of `gateway_service_stop`,
    and `connected` has the CONNECTs that were accepted since the last stop, the last one first. -/
structure GatewayState where
  devmgr : Devmgr
  clients : List Client
  gatewayMode : Bool
  yunioConnected : Bool
  stopping : Bool
  connected : List (SockAddr × ℕ)

namespace GatewayState

/-- `gateway_service_init`, before any device. -/
def init : GatewayState := ⟨.init, [], false, false, false, []⟩

/-- The devices are now those of `m`. -/
def setDevmgr (s : GatewayState) (m : Devmgr) : GatewayState :=
  { s with
    devmgr := m
    clients := s.clients.map fun c => { c with dangling := c.dangling || (m.heap c.devinfo).isNone } }

/-- Reading `*client->devinfo`. -/
def devinfo (s : GatewayState) (c : Client) : Option DevInfo := if c.dangling then none else s.devmgr.heap c.devinfo

/-- `get_uuid_by_ipaddr`: the device whose `dev_base.uuid` is returned. -/
def getUuidByIpaddr (s : GatewayState) (addr : SockAddr) : Option ℕ :=
  (s.clients.find? fun c => c.addr = addr).map (·.devinfo)

/-- `get_ipaddr_by_uuid`, unless it reads a device that was freed. -/
def getIpaddrByUuid (s : GatewayState) (uuid : Str) : List Client → Option (Option SockAddr)
  | [] => some none
  | c :: cs =>
    match s.devinfo c with
    | none => none
    | some x => if x.base.uuid = uuid then some (some c.addr) else s.getIpaddrByUuid uuid cs

/-- The walk of `new_client`: the clients before the one with the address, and the others; `none`
    if it reads a device that was freed. -/
def walk (s : GatewayState) (ieeeAddr : List UInt8) : List Client → Option (List Client × List Client)
  | [] => some ([], [])
  | c :: cs =>
    match s.devinfo c with
    | none => none
    | some x =>
      if x.base.u = ieeeAddr then some ([], c :: cs)
      else (s.walk ieeeAddr cs).map fun p => (c :: p.1, p.2)

/-- `new_client`: the client, with those before and behind it on the list. -/
def newClient (s : GatewayState) (r : RegInfo) (os : Os) :
    Option (GatewayState × Option (List Client × Client × List Client)) :=
  match s.walk r.ieeeAddr s.clients with
  | none => none
  | some (before, c :: behind) => some (s, some (before, { c with timeout := 0 }, behind))
  | some (_, []) =>
    if !os.client then some (s, none)
    else
      let (m, ret) := s.devmgr.joinZigbeeDevice ⟨r.ieeeAddr, r.modelId, r.rand, r.sign, os.permit⟩ os.device os.cloud
      if ret = -1 then some (s.setDevmgr m, none)
      else
        match m.getDevinfoByIeeeaddr r.ieeeAddr with
        | (m, none) => some (s.setDevmgr m, none)
        | (m, some d) =>
          let s := s.setDevmgr (m.putDevinfoRef d)
          some (s, some (s.clients, ⟨d, [], 0, (s.devmgr.heap d).isNone⟩, []))

/-- `handle_connect` on a message from `src`. -/
def handleConnect (s : GatewayState) (src : SockAddr) (r : RegInfo) (os : Os) : GatewayState :=
  if s.gatewayMode && s.yunioConnected then
    match s.newClient r os with
    | none => s
    | some (s, none) => s
    | some (s, some (before, c, behind)) =>
      { s with
        clients := before ++ { c with addr := src } :: behind
        connected := (src, c.devinfo) :: s.connected }
  else s

/-- The turn of a client in `gateway_advertise`; one that went offline logs out, which reads the device. -/
def timeoutClient (s : GatewayState) (c : Client) : Option Client :=
  if c.timeout < MAX_GATEWAY_RECONNECT_TIMEOUT then
    let c := { c with timeout := c.timeout + 1 }
    if c.timeout ≥ MAX_GATEWAY_RECONNECT_TIMEOUT then (s.devinfo c).map fun _ => c else some c
  else some c

/-- `gateway_advertise`, with an address to advertise. -/
def gatewayAdvertise (s : GatewayState) : GatewayState :=
  match s.clients.mapM s.timeoutClient with
  | none => s
  | some clients => { s with clients := clients }

/-- A turn of the loop of `gateway_service_stop`, or its end. -/
def stopNext (s : GatewayState) (cloud : Cloud) : GatewayState :=
  match s.clients with
  | [] => { s with stopping := false, connected := [] }
  | c :: cs =>
    match s.devinfo c with
    | none => s
    | some x => { s with clients := cs }.setDevmgr (s.devmgr.leaveZigbeeDevice x.base.u cloud)

end GatewayState

/-- What happens: `gateway_service_event` sets the flags, a device call is another module's. -/
inductive GatewayAct
  | event (gatewayMode yunioConnected : Bool)
  | connect (src : SockAddr) (r : RegInfo) (os : Os)
  | advertise
  | publish (src : SockAddr)
  | cloudAttr (uuid : Str)
  | stop
  | stopNext (cloud : Cloud)
  | device (call : DevCall)

/-- The messages wait while the service stops.  A publish and `aos_cloud_set_attr` look the client
    up, and change nothing; what reads a device that was freed leaves the state. -/
def GatewayState.step (s : GatewayState) : GatewayAct → GatewayState
  | .event gatewayMode yunioConnected => { s with gatewayMode := gatewayMode, yunioConnected := yunioConnected }
  | .connect src r os => if s.stopping then s else s.handleConnect src r os
  | .advertise => if s.stopping then s else s.gatewayAdvertise
  | .publish _ | .cloudAttr _ => s
  | .stop => { s with stopping := true }
  | .stopNext cloud => if s.stopping then s.stopNext cloud else s
  | .device call => s.setDevmgr (s.devmgr.call call)

/-! ## The claim, and when it holds -/

namespace GatewayState

/-- The device that last connected from the address. -/
def lastConnected (s : GatewayState) (addr : SockAddr) : Option ℕ :=
  (s.connected.find? fun p => p.1 = addr).map (·.2)

/-- The IEEE address of the client's device. -/
def ieeeAddr (s : GatewayState) (c : Client) : Option (List UInt8) := (s.devinfo c).map (·.base.u)

/-- No client has a device that was freed, no two clients have the same IEEE address, and an
    address has the uuid of the device that last connected from it. -/
structure Sound (s : GatewayState) : Prop where
  live : ∀ c ∈ s.clients, c.dangling = false
  unique : s.clients.Pairwise fun c d => s.ieeeAddr c ≠ s.ieeeAddr d
  uuid : s.stopping = false → ∀ addr, s.getUuidByIpaddr addr = s.lastConnected addr

/-- The clients before the one with the address. -/
def before (s : GatewayState) (ieeeAddr : List UInt8) : List Client :=
  s.clients.takeWhile fun c => s.ieeeAddr c ≠ some ieeeAddr

/-- `new_client` returns a client. -/
def Accepts (s : GatewayState) (r : RegInfo) (os : Os) : Prop :=
  s.gatewayMode = true ∧ s.yunioConnected = true ∧ ∃ s' p, s.newClient r os = some (s', some p)

/-- A CONNECT that is accepted comes from an address that no client before the device's own has; and
    the address that this had, if it is another, is one that a client before it has, too. -/
def ConnectMeets (s : GatewayState) (src : SockAddr) (r : RegInfo) : Prop :=
  (∀ b ∈ s.before r.ieeeAddr, b.addr ≠ src) ∧
    ∀ c ∈ s.clients, s.ieeeAddr c = some r.ieeeAddr → c.addr ≠ src → ∃ b ∈ s.before r.ieeeAddr, b.addr = c.addr

/-- No device of a client is removed, but by the stop of the service that of the client whose
    turn it is. -/
def Meets (s : GatewayState) : GatewayAct → Prop
  | .connect src r os => s.stopping = false → s.Accepts r os → s.ConnectMeets src r
  | .stopNext cloud =>
    s.stopping = true → ∀ c cs x, s.clients = c :: cs → s.devinfo c = some x →
      ∀ b ∈ cs, ¬ (DevCall.leave x.base.u cloud).Removes s.devmgr b.devinfo
  | .device call => ∀ c ∈ s.clients, ¬ call.Removes s.devmgr c.devinfo
  | .event .. | .advertise | .publish _ | .cloudAttr _ | .stop => True

end GatewayState

variable {s t : GatewayState} {m : Devmgr} {c : Client} {addr src : SockAddr} {ieee : List UInt8}
  {r : RegInfo} {os : Os} {cloud : Cloud}

/-- A round for a client. -/
def Client.tick (c : Client) : Client :=
  if c.timeout < MAX_GATEWAY_RECONNECT_TIMEOUT then { c with timeout := c.timeout + 1 } else c

namespace Client

theorem tick_devinfo : c.tick.devinfo = c.devinfo := by
  rw [tick]
  split_ifs <;> rfl

theorem tick_addr : c.tick.addr = c.addr := by
  rw [tick]
  split_ifs <;> rfl

theorem tick_dangling : c.tick.dangling = c.dangling := by
  rw [tick]
  split_ifs <;> rfl

end Client

/-- What `devmgr_get_devinfo_by_ieeeaddr` finds has the address, and stays when it is put back. -/
theorem Idle.getPut (h : Idle m) (ieee : List UInt8) :
    (m.findDevinfoByIeeeaddr ieee = none ∧ m.getDevinfoByIeeeaddr ieee = (m, none)) ∨
      ∃ m' d x, m.getDevinfoByIeeeaddr ieee = (m', some d) ∧ Idle (m'.putDevinfoRef d) ∧
        (∀ e, Stays e m (m'.putDevinfoRef d)) ∧ (m'.putDevinfoRef d).heap d = some x ∧ x.base.u = ieee := by
  rcases h.found (m.findDevinfoByIeeeaddr ieee) findDevinfoByIeeeaddr_listed with ⟨hfound, hm⟩ | ⟨d, hfound, hd, hhas⟩
  · exact .inl ⟨hfound, by rw [getDevinfoByIeeeaddr, hm, hfound]⟩
  · have hmatch := List.find?_some hfound
    rw [Option.any_eq_true] at hmatch
    obtain ⟨x, hx, hu⟩ := hmatch
    have hstays : ∀ e, Stays e m ((m.holdFound (m.findDevinfoByIeeeaddr ieee)).putDevinfoRef d) := by
      intro e
      refine Stays.step ?_ (.put hhas hd)
      rw [hfound]
      exact .hold
    obtain ⟨y, hy, huy⟩ := hstays d x hx
    refine .inr ⟨_, d, y, by rw [getDevinfoByIeeeaddr, hfound], ?_, ?_, ?_, ?_⟩
    · exact hfound ▸ hhas.put (.inr hd)
    · exact hfound ▸ hstays
    · exact hfound ▸ hy
    · simp only [Bool.and_eq_true, decide_eq_true_eq] at hu
      exact huy.trans hu.2

/-! ## Between two steps -/

namespace GatewayState

/-- Sound, and what that rests on. -/
structure Good (s : GatewayState) : Prop extends Sound s where
  idle : Idle s.devmgr
  heap : ∀ c ∈ s.clients, ∃ x, s.devmgr.heap c.devinfo = some x

theorem good_init : Good init where
  live := nofun
  unique := .nil
  uuid := fun _ _ => rfl
  idle := idle_init
  heap := nofun

theorem devinfo_live (h : c.dangling = false) : s.devinfo c = s.devmgr.heap c.devinfo := by
  rw [devinfo, h]
  rfl

theorem Good.devinfo (h : Good s) (hc : c ∈ s.clients) : s.devinfo c = s.devmgr.heap c.devinfo :=
  devinfo_live (h.live c hc)

theorem Good.ieeeAddr (h : Good s) (hc : c ∈ s.clients) : ∃ x, s.devinfo c = some x ∧ s.ieeeAddr c = some x.base.u := by
  obtain ⟨x, hx⟩ := h.heap c hc
  have hd : s.devinfo c = some x := (h.devinfo hc).trans hx
  exact ⟨x, hd, by rw [GatewayState.ieeeAddr, hd]; rfl⟩

/-- The client's device has the uuid. -/
def hasUuid (s : GatewayState) (uuid : Str) (c : Client) : Bool :=
  (s.devmgr.heap c.devinfo).any fun x => x.base.uuid = uuid

theorem Good.getIpaddrByUuid (h : Good s) (uuid : Str) {l : List Client} (hl : l ⊆ s.clients) :
    s.getIpaddrByUuid uuid l = some ((l.find? (s.hasUuid uuid)).map (·.addr)) := by
  induction l with
  | nil => rfl
  | cons c l ih =>
    obtain ⟨x, hx⟩ := h.heap c (hl List.mem_cons_self)
    have hhas : s.hasUuid uuid c = decide (x.base.uuid = uuid) := by rw [hasUuid, hx, Option.any_some]
    rw [GatewayState.getIpaddrByUuid, h.devinfo (hl List.mem_cons_self), hx, List.find?_cons, hhas]
    dsimp only
    split_ifs with hu
    · rw [decide_eq_true hu]
      rfl
    · rw [decide_eq_false hu]
      exact ih fun b hb => hl (List.mem_cons_of_mem c hb)

/-! ## Device calls -/

/-- The devices of the clients are left. -/
def Leaves (s : GatewayState) (m : Devmgr) : Prop := ∀ c ∈ s.clients, Stays c.devinfo s.devmgr m

theorem Good.setDevmgr_eq (h : Good s) (hs : s.Leaves m) : s.setDevmgr m = { s with devmgr := m } := by
  have hclients : s.clients.map (fun c => { c with dangling := c.dangling || (m.heap c.devinfo).isNone }) = s.clients := by
    refine (List.map_congr_left fun c hc => ?_).trans (List.map_id _)
    obtain ⟨x, hx⟩ := h.heap c hc
    obtain ⟨y, hy, -⟩ := hs c hc x hx
    rw [hy, Option.isNone_some, Bool.or_false]
    rfl
  rw [setDevmgr, hclients]

theorem Good.ieeeAddr_devmgr (h : Good s) (hs : s.Leaves m) (hc : c ∈ s.clients) :
    ({ s with devmgr := m } : GatewayState).ieeeAddr c = s.ieeeAddr c := by
  obtain ⟨x, hx⟩ := h.heap c hc
  obtain ⟨y, hy, hu⟩ := hs c hc x hx
  rw [GatewayState.ieeeAddr, devinfo_live (h.live c hc), GatewayState.ieeeAddr, h.devinfo hc, hx]
  change (m.heap c.devinfo).map _ = _
  rw [hy, Option.map_some, hu]
  rfl

theorem Good.setDevmgr (h : Good s) (hm : Idle m) (hs : s.Leaves m) : Good { s with devmgr := m } where
  live := h.live
  unique := by
    refine h.unique.imp_of_mem fun {c d} hc hd hne => ?_
    rw [h.ieeeAddr_devmgr hs hc, h.ieeeAddr_devmgr hs hd]
    exact hne
  uuid := h.uuid
  idle := hm
  heap := fun c hc => by
    obtain ⟨x, hx⟩ := h.heap c hc
    obtain ⟨y, hy, -⟩ := hs c hc x hx
    exact ⟨y, hy⟩

theorem not_sound_setDevmgr (hc : c ∈ s.clients) (hm : m.heap c.devinfo = none) : ¬ Sound (s.setDevmgr m) := by
  intro h
  have hlive := h.live _ (List.mem_map_of_mem hc)
  simp [hm] at hlive

theorem Good.device (h : Good s) (call : DevCall) :
    (s.Meets (.device call) → Good (s.step (.device call))) ∧
      (¬ s.Meets (.device call) → ¬ Sound (s.step (.device call))) := by
  constructor
  · intro hmeets
    have hs : s.Leaves (s.devmgr.call call) := by
      intro c hc
      obtain ⟨x, hx⟩ := h.heap c hc
      exact (h.idle.call_heap hx call).1 (hmeets c hc)
    rw [step, h.setDevmgr_eq hs]
    exact h.setDevmgr (h.idle.call call) hs
  · intro hno
    rw [Meets] at hno
    push Not at hno
    obtain ⟨c, hc, hrem⟩ := hno
    obtain ⟨x, hx⟩ := h.heap c hc
    exact not_sound_setDevmgr hc ((h.idle.call_heap hx call).2 hrem)

/-! ## The stop of the service -/

theorem Good.stopNext (h : Good s) (hstop : s.stopping = true) (cloud : Cloud) :
    (s.Meets (.stopNext cloud) → Good (s.stopNext cloud)) ∧
      (¬ s.Meets (.stopNext cloud) → ¬ Sound (s.stopNext cloud)) := by
  rw [GatewayState.stopNext]
  cases hcs : s.clients with
  | nil =>
    refine ⟨fun _ => ⟨⟨nofun, .nil, fun _ _ => rfl⟩, h.idle, nofun⟩, fun hno => absurd ?_ hno⟩
    intro _ c cs x hcons
    exact nomatch hcs.symm.trans hcons
  | cons c cs =>
    have hin : ∀ b ∈ cs, b ∈ s.clients := fun b hb => hcs ▸ List.mem_cons_of_mem c hb
    obtain ⟨x, hx, -⟩ := h.ieeeAddr (c := c) (hcs ▸ List.mem_cons_self)
    have hrest : Good { s with clients := cs } :=
      ⟨⟨fun b hb => h.live b (hin b hb), (List.pairwise_cons.1 (hcs ▸ h.unique)).2,
        fun hno => nomatch hno.symm.trans hstop⟩, h.idle, fun b hb => h.heap b (hin b hb)⟩
    have hcall := h.idle.call (.leave x.base.u cloud)
    dsimp only
    rw [hx]
    constructor
    · intro hmeets
      have hs : Leaves { s with clients := cs } (s.devmgr.leaveZigbeeDevice x.base.u cloud) := by
        intro b hb
        obtain ⟨y, hy⟩ := hrest.heap b hb
        exact (h.idle.call_heap hy (.leave x.base.u cloud)).1 (hmeets hstop c cs x hcs hx b hb)
      dsimp only
      rw [hrest.setDevmgr_eq hs]
      exact hrest.setDevmgr hcall hs
    · intro hno
      rw [Meets] at hno
      push Not at hno
      obtain ⟨-, c', cs', x', hcs', hx', b, hb, hrem⟩ := hno
      obtain ⟨rfl, rfl⟩ := List.cons.inj (hcs.symm.trans hcs')
      obtain rfl := Option.some.inj (hx.symm.trans hx')
      obtain ⟨y, hy⟩ := hrest.heap b hb
      exact not_sound_setDevmgr (s := { s with clients := cs }) hb
        ((h.idle.call_heap hy (.leave x.base.u cloud)).2 hrem)

/-! ## Advertise rounds -/

theorem timeoutClient_some {c' : Client} (h : s.timeoutClient c = some c') : c' = c.tick := by
  rw [timeoutClient] at h
  rw [Client.tick]
  split_ifs at h ⊢
  · dsimp only at h
    split_ifs at h
    · obtain ⟨-, -, rfl⟩ := Option.map_eq_some_iff.1 h
      rfl
    · exact (Option.some.inj h).symm
  · exact (Option.some.inj h).symm

theorem mapM_timeoutClient {l l' : List Client} (h : l.mapM s.timeoutClient = some l') : l' = l.map Client.tick := by
  induction l generalizing l' with
  | nil => exact (Option.some.inj h).symm
  | cons c l ih =>
    rw [List.mapM_cons] at h
    obtain ⟨c', hc, h⟩ := Option.bind_eq_some_iff.1 h
    obtain ⟨cs, hcs, h⟩ := Option.bind_eq_some_iff.1 h
    cases h
    rw [timeoutClient_some hc, ih hcs, List.map_cons]

theorem find_tick (l : List Client) :
    ((l.map Client.tick).find? fun c => c.addr = addr).map (·.devinfo) =
      (l.find? fun c => c.addr = addr).map (·.devinfo) := by
  induction l with
  | nil => rfl
  | cons c l ih =>
    rw [List.map_cons, List.find?_cons, List.find?_cons, Client.tick_addr]
    split
    · exact congrArg some Client.tick_devinfo
    · exact ih

theorem Good.gatewayAdvertise (h : Good s) : Good s.gatewayAdvertise := by
  rw [GatewayState.gatewayAdvertise]
  split
  · exact h
  · rename_i clients hclients
    obtain rfl := mapM_timeoutClient hclients
    refine ⟨⟨fun c hc => ?_, ?_, fun hs addr => ?_⟩, h.idle, fun c hc => ?_⟩
    · obtain ⟨b, hb, rfl⟩ := List.mem_map.1 hc
      exact Client.tick_dangling.trans (h.live b hb)
    · have heq : ∀ b : Client, ({ s with clients := s.clients.map Client.tick } : GatewayState).ieeeAddr b.tick =
          s.ieeeAddr b := by
        intro b
        simp only [GatewayState.ieeeAddr, GatewayState.devinfo, Client.tick_devinfo, Client.tick_dangling]
      refine List.pairwise_map.2 (h.unique.imp fun {b c} hne => ?_)
      rw [heq, heq]
      exact hne
    · exact (find_tick s.clients).trans (h.uuid hs addr)
    · obtain ⟨b, hb, rfl⟩ := List.mem_map.1 hc
      rw [Client.tick_devinfo]
      exact h.heap b hb

/-! ## CONNECT messages -/

theorem walk_eq {l : List Client} (h : ∀ c ∈ l, ∃ x, s.devinfo c = some x) :
    s.walk ieee l = some (l.takeWhile (fun c => s.ieeeAddr c ≠ some ieee), l.dropWhile fun c => s.ieeeAddr c ≠ some ieee) := by
  induction l with
  | nil => rfl
  | cons c l ih =>
    obtain ⟨x, hx⟩ := h c List.mem_cons_self
    have hu : s.ieeeAddr c = some x.base.u := by
      rw [GatewayState.ieeeAddr, hx]
      rfl
    rw [walk, hx, ih fun b hb => h b (List.mem_cons_of_mem c hb)]
    dsimp only
    by_cases hieee : x.base.u = ieee
    · simp [hu, hieee]
    · simp [hu, hieee]

/-- A CONNECT for a device of the address: those before and behind its client, which had the device
    before if there was one. -/
structure Joined (s : GatewayState) (ieee : List UInt8) (t : GatewayState) (before : List Client) (c : Client)
    (behind : List Client) : Prop where
  good : Good t
  connected : t.connected = s.connected
  stopping : t.stopping = s.stopping
  addrs : ∀ b ∈ s.clients, t.ieeeAddr b = s.ieeeAddr b
  rest : (before ++ behind).Sublist t.clients
  live : c.dangling = false
  heap : ∃ x, t.devmgr.heap c.devinfo = some x ∧ x.base.u = ieee
  apart : ∀ b ∈ before ++ behind, t.ieeeAddr b ≠ some ieee
  old : s.clients = before ++ behind ∨
    ∃ b, s.clients = before ++ b :: behind ∧ b.devinfo = c.devinfo ∧ s.ieeeAddr b = some ieee

/-- **`new_client`** in a good state: the devices stay, and a client that it returns is one of the
    address. -/
theorem Good.newClient (h : Good s) (r : RegInfo) (os : Os) :
    (∃ m, s.Leaves m ∧ Idle m ∧ s.newClient r os = some ({ s with devmgr := m }, none)) ∨
      ∃ t c behind, s.newClient r os = some (t, some (s.before r.ieeeAddr, c, behind)) ∧
        Joined s r.ieeeAddr t (s.before r.ieeeAddr) c behind := by
  have hwalk : s.walk r.ieeeAddr s.clients = some (s.before r.ieeeAddr, s.clients.dropWhile fun c => s.ieeeAddr c ≠ some r.ieeeAddr) := by
    refine walk_eq fun c hc => ?_
    obtain ⟨x, hx, -⟩ := h.ieeeAddr hc
    exact ⟨x, hx⟩
  have hsplit : s.before r.ieeeAddr ++ s.clients.dropWhile (fun c => s.ieeeAddr c ≠ some r.ieeeAddr) = s.clients :=
    List.takeWhile_append_dropWhile
  rw [GatewayState.newClient, hwalk]
  cases hrest : s.clients.dropWhile (fun c => s.ieeeAddr c ≠ some r.ieeeAddr) with
  | cons c behind =>
    rw [hrest] at hsplit
    have haddr : s.ieeeAddr c = some r.ieeeAddr := by
      have hhead := List.head?_dropWhile_not (fun c => decide (s.ieeeAddr c ≠ some r.ieeeAddr)) s.clients
      rw [hrest] at hhead
      simpa using hhead
    have hc : c ∈ s.clients := hsplit ▸ by simp
    obtain ⟨x, hx, hu⟩ := h.ieeeAddr hc
    have hpairs : (c :: (s.before r.ieeeAddr ++ behind)).Pairwise fun b d => s.ieeeAddr b ≠ s.ieeeAddr d := by
      refine (List.pairwise_middle fun {_ _} hne => hne.symm).1 ?_
      rw [hsplit]
      exact h.unique
    refine .inr ⟨s, _, behind, rfl, h, rfl, rfl, fun _ _ => rfl, ?_, h.live c hc, ⟨x, ?_, ?_⟩, fun b hb => ?_, ?_⟩
    · rw [← hsplit]
      exact (List.Sublist.refl _).append (List.sublist_cons_self ..)
    · exact (h.devinfo hc).symm.trans hx
    · exact Option.some.inj (hu.symm.trans haddr)
    · exact haddr ▸ ((List.pairwise_cons.1 hpairs).1 b hb).symm
    · exact .inr ⟨c, hsplit.symm, rfl, haddr⟩
  | nil =>
    rw [hrest, List.append_nil] at hsplit
    have hself : s.Leaves s.devmgr := fun c _ => .refl
    have hjoin : ∀ j malloc cloud, Idle (s.devmgr.joinZigbeeDevice j malloc cloud).1 ∧
        s.Leaves (s.devmgr.joinZigbeeDevice j malloc cloud).1 := by
      intro j malloc cloud
      refine ⟨h.idle.joinZigbeeDevice j malloc cloud, fun c hc => ?_⟩
      obtain ⟨x, hx⟩ := h.heap c hc
      exact h.idle.stays_join hx j malloc cloud
    obtain ⟨hm, hleft⟩ := hjoin ⟨r.ieeeAddr, r.modelId, r.rand, r.sign, os.permit⟩ os.device os.cloud
    dsimp only
    split_ifs
    · exact .inl ⟨s.devmgr, hself, h.idle, rfl⟩
    · exact .inl ⟨_, hleft, hm, by rw [h.setDevmgr_eq hleft]⟩
    rcases hm.getPut r.ieeeAddr with ⟨-, heq⟩ | ⟨m', d, x, heq, hput, hstays, hx, hu⟩
    · rw [heq]
      exact .inl ⟨_, hleft, hm, by dsimp only; rw [h.setDevmgr_eq hleft]⟩
    · have hleft' : s.Leaves (m'.putDevinfoRef d) := fun c hc => (hleft c hc).step (hstays c.devinfo)
      have hgood := h.setDevmgr hput hleft'
      rw [heq]
      dsimp only
      rw [h.setDevmgr_eq hleft', hsplit]
      refine .inr ⟨_, _, [], rfl, hgood, rfl, rfl, fun b hb => h.ieeeAddr_devmgr hleft' hb, ?_, ?_, ⟨x, hx, hu⟩,
        fun b hb => ?_, .inl (List.append_nil _).symm⟩
      · rw [List.append_nil]
      · change ((m'.putDevinfoRef d).heap d).isNone = false
        rw [hx]
        rfl
      · rw [List.append_nil] at hb
        rw [h.ieeeAddr_devmgr hleft' hb]
        have hb : b ∈ s.before r.ieeeAddr := hsplit.symm ▸ hb
        simpa using List.mem_takeWhile_imp hb

/-- The device of the first client that has the address. -/
def firstAt (addr : SockAddr) (l : List Client) : Option ℕ := (l.find? fun c => c.addr = addr).map (·.devinfo)

theorem firstAt_append {l l' : List Client} : firstAt addr (l ++ l') = (firstAt addr l).or (firstAt addr l') := by
  rw [firstAt, List.find?_append, Option.map_or]
  rfl

theorem firstAt_cons {l : List Client} :
    firstAt addr (c :: l) = if c.addr = addr then some c.devinfo else firstAt addr l := by
  rw [firstAt, List.find?_cons]
  by_cases h : c.addr = addr
  · simp [h]
  · simp [h, firstAt]

theorem firstAt_none {l : List Client} (h : ∀ b ∈ l, b.addr ≠ addr) : firstAt addr l = none := by
  rw [firstAt, Option.map_eq_none_iff, List.find?_eq_none]
  exact fun b hb => by simpa using h b hb

theorem firstAt_some {l : List Client} (hc : c ∈ l) (h : c.addr = addr) : ∃ b ∈ l, firstAt addr l = some b.devinfo := by
  cases hfind : l.find? fun b => b.addr = addr with
  | none => exact absurd h (by simpa using List.find?_eq_none.1 hfind c hc)
  | some b => exact ⟨b, List.mem_of_find?_eq_some hfind, by rw [firstAt, hfind]; rfl⟩

theorem firstAt_mem {l : List Client} {d : ℕ} (h : firstAt addr l = some d) : ∃ b ∈ l, b.devinfo = d := by
  obtain ⟨b, hb, rfl⟩ := Option.map_eq_some_iff.1 h
  exact ⟨b, List.mem_of_find?_eq_some hb, rfl⟩

/-- `handle_connect` on the client. -/
def connect (t : GatewayState) (src : SockAddr) (before : List Client) (c : Client) (behind : List Client) :
    GatewayState :=
  { t with
    clients := before ++ { c with addr := src } :: behind
    connected := (src, c.devinfo) :: t.connected }

section Connect

variable {before behind : List Client}

theorem Joined.devinfo_ne (h : Joined s ieee t before c behind) {b : Client} (hb : b ∈ before ++ behind) :
    b.devinfo ≠ c.devinfo := by
  intro heq
  obtain ⟨x, hx, hu⟩ := h.heap
  have hlive := h.good.devinfo (h.rest.subset hb)
  refine h.apart b hb ?_
  rw [GatewayState.ieeeAddr, hlive, heq, hx, ← hu]
  rfl

theorem Joined.firstAt_ne (h : Joined s ieee t before c behind) {l : List Client} (hl : l ⊆ before ++ behind) :
    firstAt addr l ≠ some c.devinfo := by
  intro hsome
  obtain ⟨b, hb, heq⟩ := firstAt_mem hsome
  exact h.devinfo_ne (hl hb) heq

theorem getUuid_connect : (t.connect src before c behind).getUuidByIpaddr addr =
    (firstAt addr before).or (if src = addr then some c.devinfo else firstAt addr behind) := by
  change firstAt addr (before ++ { c with addr := src } :: behind) = _
  rw [firstAt_append, firstAt_cons]

theorem last_connect : (t.connect src before c behind).lastConnected addr =
    if src = addr then some c.devinfo else t.lastConnected addr := by
  rw [lastConnected, connect, List.find?_cons]
  by_cases h : src = addr
  · simp [h]
  · simp [h, lastConnected]

theorem Joined.mem_old (h : Joined s ieee t before c behind) {b : Client} (hb : b ∈ s.clients)
    (haddr : s.ieeeAddr b = some ieee) : s.clients = before ++ b :: behind ∧ b.devinfo = c.devinfo := by
  have hno : b ∉ before ++ behind := fun hin => h.apart b hin ((h.addrs b hb).trans haddr)
  rcases h.old with hsame | ⟨a, hold, hdev, -⟩
  · exact absurd (hsame ▸ hb) hno
  · rw [hold, List.mem_append, List.mem_cons] at hb
    rcases hb with hb | rfl | hb
    · exact absurd (List.mem_append_left _ hb) hno
    · exact ⟨hold, hdev⟩
    · exact absurd (List.mem_append_right _ hb) hno

/-- **A CONNECT that is accepted** keeps the state good exactly if it meets the condition. -/
theorem Joined.connect (hs : Good s) (hstop : s.stopping = false)
    (h : Joined s r.ieeeAddr t (s.before r.ieeeAddr) c behind) :
    (s.ConnectMeets src r → Good (t.connect src (s.before r.ieeeAddr) c behind)) ∧
      (¬ s.ConnectMeets src r → ¬ Sound (t.connect src (s.before r.ieeeAddr) c behind)) := by
  have hlast : ∀ addr, t.lastConnected addr = firstAt addr s.clients := by
    intro addr
    rw [lastConnected, h.connected]
    exact (hs.uuid hstop addr).symm
  have hsub : s.before r.ieeeAddr ⊆ s.before r.ieeeAddr ++ behind := List.subset_append_left ..
  obtain ⟨x, hx, hu⟩ := h.heap
  constructor
  · rintro ⟨hfree, hmoved⟩
    have haddr : ∀ b : Client, (t.connect src (s.before r.ieeeAddr) c behind).ieeeAddr b = t.ieeeAddr b := fun _ => rfl
    refine ⟨⟨fun b hb => ?_, ?_, fun _ addr => ?_⟩, h.good.idle, fun b hb => ?_⟩
    · rcases List.mem_append.1 hb with hb | hb
      · exact h.good.live b (h.rest.subset (List.mem_append_left _ hb))
      · rcases List.mem_cons.1 hb with rfl | hb
        · exact h.live
        · exact h.good.live b (h.rest.subset (List.mem_append_right _ hb))
    · refine (List.pairwise_middle fun {_ _} hne => hne.symm).2 (List.pairwise_cons.2 ⟨fun b hb => ?_, ?_⟩)
      · have hc : t.ieeeAddr { c with addr := src } = some r.ieeeAddr := by
          have hlive : t.devinfo { c with addr := src } = some x := (devinfo_live h.live).trans hx
          rw [GatewayState.ieeeAddr, hlive, ← hu]
          rfl
        rw [haddr, haddr, hc]
        exact (h.apart b hb).symm
      · exact h.good.unique.sublist h.rest
    · rw [getUuid_connect, last_connect, hlast]
      by_cases hsrc : src = addr
      · subst hsrc
        rw [if_pos rfl, if_pos rfl, firstAt_none hfree, Option.none_or]
      · rw [if_neg hsrc, if_neg hsrc]
        rcases h.old with hsame | ⟨b, hold, -, hb⟩
        · rw [hsame, firstAt_append]
        · rw [hold, firstAt_append, firstAt_cons]
          split_ifs with hb'
          · obtain ⟨a, ha, haddr⟩ := hmoved b (hold ▸ by simp) hb fun heq => hsrc (heq.symm.trans hb')
            obtain ⟨e, -, he⟩ := firstAt_some ha (haddr.trans hb')
            rw [he]
            rfl
          · rfl
    · rcases List.mem_append.1 hb with hb | hb
      · exact h.good.heap b (h.rest.subset (List.mem_append_left _ hb))
      · rcases List.mem_cons.1 hb with rfl | hb
        · exact ⟨x, hx⟩
        · exact h.good.heap b (h.rest.subset (List.mem_append_right _ hb))
  · intro hno hsound
    have huuid := hsound.uuid (h.stopping.trans hstop)
    refine hno ⟨fun b hb hsrc => ?_, fun b hb haddr hne => ?_⟩
    · -- a client before the device's own has the address
      obtain ⟨e, he, hfirst⟩ := firstAt_some hb hsrc
      have heq := huuid src
      rw [getUuid_connect, last_connect, hfirst, if_pos rfl, if_pos rfl, Option.some_or] at heq
      exact h.devinfo_ne (hsub he) (Option.some.inj heq)
    · -- the device leaves the address that it was found at
      obtain ⟨hold, hdev⟩ := h.mem_old hb haddr
      by_contra hbefore
      push Not at hbefore
      have heq := huuid b.addr
      rw [getUuid_connect, last_connect, if_neg hne.symm, if_neg hne.symm, hlast, hold, firstAt_append, firstAt_none hbefore,
        Option.none_or, Option.none_or, firstAt_cons, if_pos rfl, hdev] at heq
      exact h.firstAt_ne (List.subset_append_right ..) heq

end Connect

theorem Good.connect (h : Good s) (src : SockAddr) (r : RegInfo) (os : Os) :
    (s.Meets (.connect src r os) → Good (s.step (.connect src r os))) ∧
      (¬ s.Meets (.connect src r os) → ¬ Sound (s.step (.connect src r os))) := by
  rw [Meets, step]
  cases hstop : s.stopping with
  | true => exact ⟨fun _ => h, fun hno => absurd nofun hno⟩
  | false =>
    rw [if_neg nofun, handleConnect]
    by_cases hmode : (s.gatewayMode && s.yunioConnected) = true
    · obtain ⟨hgw, hyunio⟩ := Bool.and_eq_true_iff.1 hmode
      rw [if_pos hmode]
      rcases h.newClient r os with ⟨m, hleft, hm, heq⟩ | ⟨t, c, behind, heq, hjoined⟩
      · rw [heq]
        refine ⟨fun _ => h.setDevmgr hm hleft, fun hno => absurd ?_ hno⟩
        rintro - ⟨-, -, s', p, hp⟩
        exact nomatch heq.symm.trans hp
      · rw [heq]
        have hboth : (_ → Good (t.connect src _ c behind)) ∧ (_ → ¬ Sound _) := hjoined.connect h hstop
        refine ⟨fun hmeets => hboth.1 (hmeets rfl ⟨hgw, hyunio, t, _, heq⟩), fun hno => hboth.2 fun hmeets => ?_⟩
        exact hno fun _ _ => hmeets
    · rw [if_neg hmode]
      refine ⟨fun _ => h, fun hno => absurd ?_ hno⟩
      rintro - ⟨hgw, hyunio, -⟩
      exact absurd (Bool.and_eq_true_iff.2 ⟨hgw, hyunio⟩) hmode

/-! ## Runs -/

theorem Good.step (h : Good s) (a : GatewayAct) :
    (s.Meets a → Good (s.step a)) ∧ (¬ s.Meets a → ¬ Sound (s.step a)) := by
  cases a with
  | connect src r os => exact h.connect src r os
  | device call => exact h.device call
  | stopNext cloud =>
    rw [GatewayState.step]
    split_ifs with hstop
    · exact h.stopNext hstop cloud
    · exact ⟨fun _ => h, fun hno => absurd (fun hyes => absurd hyes hstop) hno⟩
  | advertise =>
    refine ⟨fun _ => ?_, fun hno => absurd trivial hno⟩
    rw [GatewayState.step]
    split_ifs
    · exact h
    · exact h.gatewayAdvertise
  | publish src => exact ⟨fun _ => h, fun hno => absurd trivial hno⟩
  | cloudAttr uuid => exact ⟨fun _ => h, fun hno => absurd trivial hno⟩
  | event gatewayMode yunioConnected =>
    exact ⟨fun _ => ⟨⟨h.live, h.unique, h.uuid⟩, h.idle, h.heap⟩, fun hno => absurd trivial hno⟩
  | stop => exact ⟨fun _ => ⟨⟨h.live, h.unique, nofun⟩, h.idle, h.heap⟩, fun hno => absurd trivial hno⟩

end GatewayState

/-- **Clients**: all along a run no client has a device that was freed, no two have the same IEEE
    address, and each address has the uuid of the device that last connected from it, exactly if no
    device of a client is removed, and every CONNECT meets the condition. -/
theorem clients_sound (as : List GatewayAct) :
    (∀ bs cs, as = bs ++ cs → (bs.foldl GatewayState.step .init).Sound) ↔
      ∀ bs a cs, as = bs ++ a :: cs → (bs.foldl GatewayState.step .init).Meets a :=
  Lib.foldl_always_iff (fun _ => True) (fun _ h => h.toSound) (fun _ a _ h => (h.step a).1) (fun _ a _ h => (h.step a).2)
    (fun _ _ => trivial) GatewayState.good_init

/-! ## Runs that do not meet the condition -/

/-- A device that the cloud registers under the uuid, in the block. -/
def joins (ieee : List UInt8) (src : SockAddr) (block : ℕ) (uuid : Str) : GatewayAct :=
  .connect src ⟨ieee, 1, [], []⟩ ⟨true, DEVMGR_PERMITJOIN_ANY_MODEL, some block, ⟨some uuid, 0, true⟩⟩

/-- A device connects, and is deleted. -/
def deleted : List GatewayAct :=
  [.event true true, joins [1, 1, 1, 1, 1, 1, 1, 1] [10] 0 [65],
    .device (.leave [1, 1, 1, 1, 1, 1, 1, 1] ⟨none, 0, true⟩)]

/-- A second device connects from the address that the first one had. -/
def sameAddr : List GatewayAct :=
  [.event true true, joins [1, 1, 1, 1, 1, 1, 1, 1] [10] 0 [65], joins [2, 2, 2, 2, 2, 2, 2, 2] [10] 1 [66]]

theorem clients_unsound :
    (¬ ∀ as : List GatewayAct, ∀ c ∈ (as.foldl GatewayState.step .init).clients, c.dangling = false) ∧
      ¬ ∀ as : List GatewayAct, (as.foldl GatewayState.step .init).stopping = false →
        ∀ addr, (as.foldl GatewayState.step .init).getUuidByIpaddr addr =
          (as.foldl GatewayState.step .init).lastConnected addr := by
  constructor
  · intro h
    have hclients : (deleted.foldl GatewayState.step .init).clients = [⟨0, [10], 0, true⟩] := by decide +kernel
    have hlive := h deleted ⟨0, [10], 0, true⟩ (hclients ▸ List.mem_singleton_self _)
    exact nomatch hlive
  · intro h
    have hget : (sameAddr.foldl GatewayState.step .init).getUuidByIpaddr [10] = some 0 := by decide +kernel
    have hlast : (sameAddr.foldl GatewayState.step .init).lastConnected [10] = some 1 := by decide +kernel
    have heq := h sameAddr (by decide +kernel) [10]
    rw [hget, hlast] at heq
    exact absurd heq (by decide)

/-! ## The address of a uuid -/

namespace GatewayState

/-- The address from which the device last connected. -/
def lastAddr (s : GatewayState) (d : ℕ) : Option SockAddr := (s.connected.find? fun p => p.2 = d).map (·.1)

def Addressed (s : GatewayState) : Prop := ∀ c ∈ s.clients, s.lastAddr c.devinfo = some c.addr

theorem Addressed.setDevmgr (h : Addressed s) (m : Devmgr) : Addressed (s.setDevmgr m) := by
  rintro _ hb
  obtain ⟨c, hc, rfl⟩ := List.mem_map.1 hb
  exact h c hc

theorem Joined.addressed {before behind : List Client} (hj : Joined s ieee t before c behind) (h : Addressed s) :
    Addressed (t.connect src before c behind) := by
  have hrest : ∀ b ∈ before ++ behind, (t.connect src before c behind).lastAddr b.devinfo = some b.addr := by
    intro b hb
    have hin : b ∈ s.clients := by
      rcases hj.old with hold | ⟨a, hold, -⟩
      · exact hold ▸ hb
      · rw [hold, List.mem_append, List.mem_cons]
        exact (List.mem_append.1 hb).imp_right .inr
    rw [lastAddr, GatewayState.connect, List.find?_cons_of_neg (by simpa using (hj.devinfo_ne hb).symm), hj.connected]
    exact h b hin
  intro b hb
  rcases List.mem_append.1 hb with hb | hb
  · exact hrest b (List.mem_append_left _ hb)
  · rcases List.mem_cons.1 hb with rfl | hb
    · simp [lastAddr, GatewayState.connect]
    · exact hrest b (List.mem_append_right _ hb)

theorem Addressed.step (h : Addressed s) (hs : Good s) (a : GatewayAct) : Addressed (s.step a) := by
  cases a with
  | connect src r os =>
    rw [GatewayState.step, handleConnect]
    split_ifs
    · exact h
    · rcases hs.newClient r os with ⟨m, -, -, heq⟩ | ⟨t, c, behind, heq, hj⟩
      · rw [heq]
        exact h
      · rw [heq]
        exact hj.addressed h
    · exact h
  | device call => exact h.setDevmgr _
  | stopNext cloud =>
    rw [GatewayState.step, GatewayState.stopNext]
    split_ifs
    · cases hcs : s.clients with
      | nil => exact nofun
      | cons c cs =>
        dsimp only
        split
        · exact h
        · have hrest : Addressed { s with clients := cs } := fun b hb => h b (hcs ▸ List.mem_cons_of_mem c hb)
          exact hrest.setDevmgr _
    · exact h
  | advertise =>
    rw [GatewayState.step, GatewayState.gatewayAdvertise]
    split_ifs
    · exact h
    · split
      · exact h
      · obtain rfl := mapM_timeoutClient ‹_›
        rintro _ hb
        obtain ⟨c, hc, rfl⟩ := List.mem_map.1 hb
        rw [Client.tick_devinfo, Client.tick_addr]
        exact h c hc
  | publish _ | cloudAttr _ | event _ _ | stop => exact h

end GatewayState

/-- **`get_ipaddr_by_uuid`** along such a run: the address from which the first device with the uuid
    last connected. -/
theorem ipaddr_of_uuid {as : List GatewayAct}
    (h : ∀ bs a cs, as = bs ++ a :: cs → (bs.foldl GatewayState.step .init).Meets a) (uuid : Str) :
    let s := as.foldl GatewayState.step .init
    s.getIpaddrByUuid uuid s.clients =
      some ((s.clients.find? (s.hasUuid uuid)).bind fun c => s.lastAddr c.devinfo) := by
  have hkeeps := Lib.foldl_keeps (J := fun s : GatewayState => s.Good ∧ s.Addressed)
    (fun s a hs hm => ⟨(hs.1.step a).1 hm, hs.2.step hs.1 a⟩) ⟨GatewayState.good_init, nofun⟩ h
  obtain ⟨hs, haddr⟩ := hkeeps as [] (List.append_nil _).symm
  dsimp only
  rw [hs.getIpaddrByUuid uuid (List.Subset.refl _)]
  cases hfind : List.find? _ _ with
  | none => rfl
  | some c => rw [Option.bind_some, haddr c (List.mem_of_find?_eq_some hfind), Option.map_some]

theorem ipaddr_of_uuid_joined :
    let s := [.event true true, joins [1, 1, 1, 1, 1, 1, 1, 1] [10] 0 [65]].foldl GatewayState.step .init
    s.getIpaddrByUuid [65] s.clients = some (some [10]) := by
  refine (ipaddr_of_uuid (fun bs a cs h => ?_) [65]).trans (by decide +kernel)
  rcases bs with _ | ⟨_, _ | ⟨_, bs⟩⟩
  · cases h
    trivial
  · cases h
    exact fun _ _ => ⟨nofun, nofun⟩
  · simp at h

end Gateway
