/-
  `sal_select` (`device/sal/sal_sockets.c`) and what wakes its callers: `sal_deal_event` for the
  sockets, and `sal_write` for the eventfds.

  Any number of tasks are in these calls.  A step of a task is one section between
  `SAL_ARCH_PROTECT` and `SAL_ARCH_UNPROTECT`, or one access to a shared field outside of them.
  Descriptors are counted from `SAL_SOCKET_OFFSET`: first the sockets, then the eventfds.
-/
import AliOS.Sal.Sockets

namespace Sal.Select

open Sockets (Recv readLast)

def NUM_EVENTS : ℕ := 5

/-- The values of a `SELWAIT_T`. -/
def SELWAIT_SIZE : ℕ := 2 ^ 8

/-- `struct sal_sock`, with what `Sock` does not have; `conn` is whether there is a netconn. -/
structure SelSock extends Sock where
  conn : Bool
  sendevent : Bool
  errevent : Bool
  selectWaiting : ℕ

/-- `struct sal_event`; the semaphore is that of a task. -/
structure SelEvent where
  used : Bool
  counts : ℕ
  reads : ℤ
  writes : ℤ
  psem : Option ℕ

/-- What `sal_select` is called with; no set is an empty one. -/
structure Args where
  maxfdp1 : ℕ
  readset : ℕ → Bool
  writeset : ℕ → Bool
  exceptset : ℕ → Bool
  timeout : Option ℕ

/-- The descriptor is in one of the sets. -/
def Args.has (x : Args) (fd : ℕ) : Bool := x.readset fd || x.writeset fd || x.exceptset fd

/-- `struct sal_select_cb` of a task, and the count of its semaphore. -/
structure SelectCb where
  args : Args
  semSignalled : Bool
  sem : ℕ

inductive Evt
  | rcvplus | rcvminus | sendplus | sendminus | error

/-- The three calls of `sal_selscan` in `sal_select`. -/
inductive Scan
  | first | second | last

/-- What a task does behind a `sal_deal_event`. -/
inductive Next
  | done
  | take (fd : ℕ) (r : Recv) (n : Netbuf)
  | deal (fd : ℕ) (evt : Evt) (next : Next)
  | free (fd : ℕ)

/-- Where a task is; `deal`, `upd` and `walk` are `sal_deal_event`. -/
inductive Pc
  | idle
  | scan (w : Scan) (i nready : ℕ)
  | enlist
  | reg (i : ℕ)
  | wait
  | leave (i maxfdp2 : ℕ) (again : Bool)
  | delist (again : Bool)
  | deal (fd : ℕ) (evt : Evt) (next : Next)
  | upd (fd : ℕ) (evt : Evt) (next : Next)
  | walk (fd scb ctr : ℕ) (next : Next)
  | post (fd len : ℕ)
  | recv (fd : ℕ) (r : Recv)
  | fetch (fd : ℕ) (r : Recv)
  | take (fd : ℕ) (r : Recv) (n : Netbuf)
  | read (fd : ℕ) (r : Recv) (n : Netbuf)
  | write (fd v : ℕ)
  | free (fd : ℕ)

def Next.pc : Next → Pc
  | .done => .idle
  | .take fd r n => .take fd r n
  | .deal fd evt next => .deal fd evt next
  | .free fd => .free fd

/-- What an idle task calls; `ok` is whether the wifi module does what it is told. -/
inductive Call
  | select (x : Args)
  | packetInput (fd len : ℕ)
  | recvfrom (fd : ℕ) (r : Recv)
  | sendto (fd : ℕ) (ok : Bool)
  | write (fd size v : ℕ) (ok : Bool)
  | close (fd : ℕ) (ok : Bool)

/-- A step of a task: it starts a call, it goes on, a wait of it times out, or what it asked for fails. -/
inductive Move
  | start (c : Call)
  | go | timeout | fail

/-- `sockets`, `events`, `select_cb_list`, `select_cb_ctr` and the tasks. -/
structure State where
  socks : ℕ → SelSock
  events : ℕ → SelEvent
  list : List ℕ
  ctr : ℕ
  cb : ℕ → SelectCb
  pc : ℕ → Pc
  nextBuf : ℕ

namespace State

def setPc (s : State) (w : ℕ) (p : Pc) : State := { s with pc := Function.update s.pc w p }
def setSock (s : State) (fd : ℕ) (k : SelSock) : State := { s with socks := Function.update s.socks fd k }
def setEvent (s : State) (fd : ℕ) (e : SelEvent) : State := { s with events := Function.update s.events fd e }
def setCb (s : State) (c : ℕ) (b : SelectCb) : State := { s with cb := Function.update s.cb c b }

/-- `tryget_socket` finds it. -/
def hasSocket (s : State) (fd : ℕ) : Bool := fd < NUM_SOCKETS && (s.socks fd).conn

/-- `tryget_event` finds it. -/
def hasEvent (s : State) (fd : ℕ) : Bool :=
  decide (NUM_SOCKETS ≤ fd) && decide (fd < NUM_SOCKETS + NUM_EVENTS) && (s.events fd).used

/-! ## `sal_selscan` -/

/-- `rcvevent` as it is scanned: an `int16_t`, also for an eventfd. -/
def scanReads (e : SelEvent) : ℤ := e.reads.bmod (2 ^ 16)

/-- How many of the three a descriptor is ready for. -/
def ready (s : State) (x : Args) (fd : ℕ) : ℕ :=
  if s.hasSocket fd then
    let k := s.socks fd
    (x.readset fd && (k.lastdata.isSome || decide (0 < k.rcvevent))).toNat + (x.writeset fd && k.sendevent).toNat +
      (x.exceptset fd && k.errevent).toNat
  else if s.hasEvent fd then
    let e := s.events fd
    (x.readset fd && decide (0 < scanReads e)).toNat + (x.writeset fd && decide (e.writes.emod (2 ^ 16) ≠ 0)).toNat
  else 0

/-! ## `sal_deal_event` -/

def dealt (k : SelSock) : Evt → SelSock
  | .rcvplus => { k with rcvevent := (k.rcvevent + 1).bmod (2 ^ 16) }
  | .rcvminus => { k with rcvevent := (k.rcvevent - 1).bmod (2 ^ 16) }
  | .sendplus => { k with sendevent := true }
  | .sendminus => { k with sendevent := false }
  | .error => { k with errevent := true }

/-- The test of the walk: an event of the socket is one that the sets ask for. -/
def asked (x : Args) (k : SelSock) (fd : ℕ) : Bool :=
  decide (0 < k.rcvevent) && x.readset fd || k.sendevent && x.writeset fd || k.errevent && x.exceptset fd

/-- The walk at `scb`: it signals a caller that was not signalled yet. -/
def visit (s : State) (fd scb : ℕ) : State :=
  let b := s.cb scb
  if !b.semSignalled && asked b.args (s.socks fd) fd then s.setCb scb { b with semSignalled := true, sem := b.sem + 1 }
  else s

/-- The walk of task `w` comes to the first of `rest`. -/
def walkTo (s : State) (w fd : ℕ) (next : Next) : List ℕ → State
  | [] => s.setPc w next.pc
  | scb :: _ => (s.visit fd scb).setPc w (.walk fd scb s.ctr next)

/-- The callers that a walk at `scb` has before it: those behind `scb`, or all where the list was changed. -/
def before (s : State) (scb ctr : ℕ) : List ℕ :=
  if ctr = s.ctr then (s.list.dropWhile fun c => c ≠ scb).tail else s.list

/-! ## The calls -/

def sendto (s : State) (w fd : ℕ) (ok : Bool) : State :=
  if s.hasSocket fd && (decide ((s.socks fd).proto = .udp) || (s.socks fd).connected) && ok then
    s.setPc w (.deal fd .sendplus .done)
  else s

def start (s : State) (w : ℕ) : Call → State
  | .select x => (s.setCb w { s.cb w with args := x }).setPc w (.scan .first 0 0)
  | .packetInput fd len => if len = 0 ∨ ¬ s.hasSocket fd then s else s.setPc w (.post fd len)
  | .recvfrom fd r => if r.len = 0 ∨ ¬ s.hasSocket fd then s else s.setPc w (.recv fd r)
  | .sendto fd ok => s.sendto w fd ok
  | .write fd size v ok =>
    if s.hasEvent fd then if size = 8 then s.setPc w (.write fd v) else s else s.sendto w fd ok
  | .close fd ok =>
    if s.hasEvent fd then s.setEvent fd { s.events fd with used := false }
    else if s.hasSocket fd && ok then
      s.setPc w (.deal fd .sendplus (.deal fd .rcvplus (.deal fd .error (.free fd))))
    else s

/-- The end of a scan that found `nready`. -/
def scanned (s : State) (w : ℕ) (nready : ℕ) : Scan → State
  | .first =>
    if nready ≠ 0 ∨ (s.cb w).args.timeout = some 0 then s.setPc w .idle else s.setPc w .enlist
  | .second => if nready = 0 then s.setPc w .wait else s.setPc w (.leave 0 (s.cb w).args.maxfdp1 true)
  | .last => s.setPc w .idle

/-- `select_waiting` is increased, or the semaphore stands in the eventfd. -/
def regAt (s : State) (w fd : ℕ) : State :=
  if s.hasSocket fd then
    let k := s.socks fd
    (s.setSock fd { k with selectWaiting := (k.selectWaiting + 1) % SELWAIT_SIZE }).setPc w (.reg (fd + 1))
  else if s.hasEvent fd then (s.setEvent fd { s.events fd with psem := some w }).setPc w (.reg (fd + 1))
  else s.setPc w (.leave 0 fd false)

/-- `select_waiting` is decreased, or no semaphore stands in the eventfd. -/
def leaveAt (s : State) (w fd maxfdp2 : ℕ) (again : Bool) : State :=
  if s.hasSocket fd then
    let k := s.socks fd
    (s.setSock fd { k with selectWaiting := k.selectWaiting - 1 }).setPc w (.leave (fd + 1) maxfdp2 again)
  else if s.hasEvent fd then
    (s.setEvent fd { s.events fd with psem := none }).setPc w (.leave (fd + 1) maxfdp2 again)
  else s.setPc w (.leave (fd + 1) maxfdp2 false)

/-- The section of `sal_write`. -/
def writeAt (s : State) (fd v : ℕ) : State :=
  let e := s.events fd
  let counts := (e.counts + v) % 2 ^ 64
  if counts = 0 then s.setEvent fd { e with counts := 0 }
  else
    let t := s.setEvent fd { e with counts := counts, reads := (counts : ℤ).bmod (2 ^ 32) }
    match e.psem with
    | none => t
    | some c => t.setCb c { s.cb c with sem := (s.cb c).sem + 1 }

/-- `sal_packet_input` puts the packet in the mailbox. -/
def postAt (s : State) (w fd len : ℕ) : State :=
  let k := s.socks fd
  if s.hasSocket fd && decide (k.recvmbox.length < SAL_DEFAULT_RECVMBOX_SIZE) then
    let k := { k with recvmbox := k.recvmbox ++ [⟨s.nextBuf, len % 2 ^ 16⟩] }
    { (s.setSock fd k).setPc w (.deal fd .rcvplus .done) with nextBuf := s.nextBuf + 1 }
  else s.setPc w .idle

/-- The task goes on; nothing where it is blocked. -/
def go (s : State) (w : ℕ) : Option State :=
  let b := s.cb w
  let x := b.args
  match s.pc w with
  | .idle => none
  | .scan k i nready =>
    if i < x.maxfdp1 then some (s.setPc w (.scan k (i + 1) (nready + if x.has i then s.ready x i else 0)))
    else some (s.scanned w nready k)
  | .enlist =>
    some (({ s with list := w :: s.list, ctr := s.ctr + 1 }.setCb w ⟨x, false, 0⟩).setPc w (.reg 0))
  | .reg i =>
    if i < x.maxfdp1 then if x.has i then some (s.regAt w i) else some (s.setPc w (.reg (i + 1)))
    else some (s.setPc w (.scan .second 0 0))
  | .wait =>
    if b.sem = 0 then none
    else some ((s.setCb w { b with sem := b.sem - 1 }).setPc w (.leave 0 x.maxfdp1 true))
  | .leave i maxfdp2 again =>
    if i < maxfdp2 then
      if x.has i then some (s.leaveAt w i maxfdp2 again) else some (s.setPc w (.leave (i + 1) maxfdp2 again))
    else some (s.setPc w (.delist again))
  | .delist again =>
    some ({ s with list := s.list.erase w, ctr := s.ctr + 1 }.setPc w (if again then .scan .last 0 0 else .idle))
  | .deal fd evt next => some (s.setPc w (if s.hasSocket fd then .upd fd evt next else next.pc))
  | .upd fd evt next =>
    let t := s.setSock fd (dealt (s.socks fd) evt)
    if (t.socks fd).selectWaiting = 0 then some (t.setPc w next.pc) else some (t.walkTo w fd next t.list)
  | .walk fd scb ctr next => some (s.walkTo w fd next (s.before scb ctr))
  | .post fd len => some (s.postAt w fd len)
  | .recv fd r =>
    match (s.socks fd).lastdata with
    | some n => some (s.setPc w (.read fd r n))
    | none => some (s.setPc w (if r.dontwait && (s.socks fd).rcvevent ≤ 0 then .idle else .fetch fd r))
  | .fetch fd r =>
    let k := s.socks fd
    match k.recvmbox with
    | [] => none
    | n :: rest => some ((s.setSock fd { k with recvmbox := rest }).setPc w (.deal fd .rcvminus (.take fd r n)))
  | .take fd r n => some ((s.setSock fd { s.socks fd with lastdata := some n }).setPc w (.read fd r n))
  | .read fd r n =>
    let k := s.socks fd
    match readLast k.toSock n r with
    | (k', _, _, done) =>
      some ((s.setSock fd { k with toSock := k' }).setPc w (if done then .idle else .recv fd r))
  | .write fd v => some ((s.writeAt fd v).setPc w .idle)
  | .free fd =>
    let k : SelSock := { s.socks fd with recvmbox := [], lastdata := none, lastoffset := 0, conn := false }
    some ((s.setSock fd k).setPc w .idle)

/-- A wait with a timeout ends, and the last scan is left out. -/
def timeout (s : State) (w : ℕ) : Option State :=
  match s.pc w with
  | .wait => if (s.cb w).args.timeout.isSome then some (s.setPc w (.leave 0 (s.cb w).args.maxfdp1 false)) else none
  | .fetch _ _ => some (s.setPc w .idle)
  | _ => none

/-- There is no memory for the semaphore or the packet, or the netconn is not deleted. -/
def fail (s : State) (w : ℕ) : Option State :=
  match s.pc w with
  | .enlist | .post _ _ | .free _ => some (s.setPc w .idle)
  | _ => none

def step (s : State) : ℕ × Move → Option State
  | (w, .start c) =>
    match s.pc w with
    | .idle => some (s.start w c)
    | _ => none
  | (w, .go) => s.go w
  | (w, .timeout) => s.timeout w
  | (w, .fail) => s.fail w

/-- All tasks are idle; the sockets `socks` and the eventfds `efds` are open and were not used. -/
def init (socks : ℕ → Option Proto) (connected : ℕ → Bool) (efds : ℕ → Bool) : State where
  socks := fun fd =>
    { pcb := fd
      proto := (socks fd).getD .tcp
      connected := connected fd
      recvmbox := []
      lastdata := none
      lastoffset := 0
      rcvevent := 0
      accepted := []
      conn := (socks fd).isSome
      sendevent := decide (socks fd = some .udp)
      errevent := false
      selectWaiting := 0 }
  events := fun fd => ⟨efds fd, 0, 0, 0, none⟩
  list := []
  ctr := 0
  cb := fun _ => ⟨⟨0, fun _ => false, fun _ => false, fun _ => false, none⟩, false, 0⟩
  pc := fun _ => .idle
  nextBuf := 0

/-- The runs of any number of tasks. -/
def Step (s : State) (a : ℕ × Move) (t : State) : Prop := s.step a = some t

/-! ## Lost wake-ups -/

/-- The descriptor is one that the caller asks for, and it is ready. -/
def Ready (s : State) (x : Args) (fd : ℕ) : Prop :=
  fd < x.maxfdp1 ∧
    (s.hasSocket fd ∧
        (x.readset fd ∧ ((s.socks fd).lastdata ≠ none ∨ 0 < (s.socks fd).rcvevent) ∨
          x.writeset fd ∧ (s.socks fd).sendevent ∨ x.exceptset fd ∧ (s.socks fd).errevent) ∨
      s.hasEvent fd ∧ (x.readset fd ∧ (s.events fd).counts ≠ 0 ∨ x.writeset fd ∧ (s.events fd).writes ≠ 0))

/-- The `sal_deal_event` or `sal_write` that the task is in signals the caller, if nothing else comes between. -/
def Signals (s : State) (c : ℕ) : Pc → Prop
  | .deal fd evt _ =>
    s.hasSocket fd ∧ (s.socks fd).selectWaiting ≠ 0 ∧ c ∈ s.list ∧ (s.cb c).semSignalled = false ∧
      asked (s.cb c).args (dealt (s.socks fd) evt) fd
  | .upd fd evt _ =>
    (s.socks fd).selectWaiting ≠ 0 ∧ c ∈ s.list ∧ (s.cb c).semSignalled = false ∧
      asked (s.cb c).args (dealt (s.socks fd) evt) fd
  | .walk fd scb ctr _ =>
    c ∈ s.before scb ctr ∧ (s.cb c).semSignalled = false ∧ asked (s.cb c).args (s.socks fd) fd
  | .write fd v => (s.events fd).psem = some c ∧ ((s.events fd).counts + v) % 2 ^ 64 ≠ 0
  | _ => False

/-- The caller is blocked on its semaphore, which was not signalled, while a descriptor it asks for is ready. -/
def Lost (s : State) (c fd : ℕ) : Prop :=
  s.pc c = .wait ∧ (s.cb c).sem = 0 ∧ s.Ready (s.cb c).args fd ∧ ∀ w, ¬ s.Signals c (s.pc w)

end State

end Sal.Select
