/-
  SAL sockets (`device/sal/sal_sockets.c`), from `sal_socket` to `sal_close`, over the links of
  the wifi module (`device/sal/wifi/mk3060/mk3060.c`).

  A packet that was accepted is in the mailbox of the netconn, or is what the last read left over
  (`lastdata` of the socket).  That a socket is connected stands in its netconn, and the link
  in the table of the driver.
-/
import Mathlib.Algebra.Group.Int.Defs
import Mathlib.Algebra.Group.Nat.Defs
import Mathlib.Data.List.Nodup
import AliOS.Sal.Links

namespace Sal

def NUM_SOCKETS : ℕ := 5
def SAL_DEFAULT_RECVMBOX_SIZE : ℕ := 8
def LOCAL_PORT_RANGE_START : ℕ := 0xc000
def LOCAL_PORT_RANGE_END : ℕ := 0xffff

/-- `NETCONN_TCP` and `NETCONN_UDP`, each with a list of pcbs. -/
inductive Proto
  | tcp | udp
  deriving DecidableEq

/-- `sal_netbuf_t`; it is allocated, and freed, together with its payload. -/
structure Netbuf where
  id : ℕ
  len : ℕ
  deriving DecidableEq

/-- `struct sal_sock` with its `sal_netconn_t`; `accepted` has the packets that were accepted for it. -/
structure Sock where
  pcb : ℕ
  proto : Proto
  connected : Bool
  recvmbox : List Netbuf
  lastdata : Option Netbuf
  lastoffset : ℕ
  rcvevent : ℤ
  accepted : List ℕ

/-- `sockets`, the descriptors in `g_link`, `sal_tcp_pcbs` and `sal_udp_pcbs` with the local ports,
    and the packets that were freed. -/
structure Sockets where
  sockets : ℕ → Option Sock
  gLink : ℕ → Option ℕ
  pcbs : Proto → List ℕ
  localPort : ℕ → ℕ
  lastPort : Proto → ℕ
  nextPcb : ℕ
  nextBuf : ℕ
  freed : List ℕ

namespace Sockets

/-- Before the first socket; `rand` is what the ports are drawn from. -/
def init (rand : Proto → ℕ) : Sockets where
  sockets := fun _ => none
  gLink := fun _ => none
  pcbs := fun _ => []
  localPort := fun _ => 0
  lastPort := fun proto => LOCAL_PORT_RANGE_START + rand proto % 0x4000
  nextPcb := 0
  nextBuf := 0
  freed := []

def setSock (s : Sockets) (fd : ℕ) (k : Option Sock) : Sockets := { s with sockets := Function.update s.sockets fd k }

/-- `sal_socket`, with `alloc_socket`. -/
def salSocket (s : Sockets) (proto : Proto) : Sockets × ℤ :=
  match (List.range NUM_SOCKETS).find? fun fd => (s.sockets fd).isNone with
  | none => (s, -1)
  | some fd =>
    ({ s.setSock fd (some ⟨s.nextPcb, proto, false, [], none, 0, 0, []⟩) with
        localPort := Function.update s.localPort s.nextPcb 0
        nextPcb := s.nextPcb + 1 }, fd)

/-! ## Ports -/

def portAfter (p : ℕ) : ℕ := if p = LOCAL_PORT_RANGE_END then LOCAL_PORT_RANGE_START else p + 1

/-- `sal_tcp_new_port` and `sal_udp_new_port`: what the static variable then is, and the port. -/
def newPort (used : ℕ → Bool) : ℕ → ℕ → ℕ × Option ℕ
  | 0, p => (p, none)
  | n + 1, p => if used (portAfter p) then newPort used n (portAfter p) else (portAfter p, some (portAfter p))

/-- A pcb on the list has the port. -/
def portUsed (s : Sockets) (proto : Proto) (port : ℕ) : Bool := (s.pcbs proto).any fun q => s.localPort q = port

def salNewPort (s : Sockets) (proto : Proto) : Sockets × Option ℕ :=
  let (last, port) := newPort (s.portUsed proto) (LOCAL_PORT_RANGE_END - LOCAL_PORT_RANGE_START + 1) (s.lastPort proto)
  ({ s with lastPort := Function.update s.lastPort proto last }, port)

/-- How `sal_tcp_bind` and `sal_udp_bind` end: the pcb is on the list from then on. -/
def bindPort (s : Sockets) (proto : Proto) (pcb port : ℕ) : Sockets :=
  { s with
    localPort := Function.update s.localPort pcb port
    pcbs := Function.update s.pcbs proto (if pcb ∈ s.pcbs proto then s.pcbs proto else pcb :: s.pcbs proto) }

/-- `sal_tcp_bind` and `sal_udp_bind`, and whether they return `ERR_OK`. -/
def pcbBind (s : Sockets) (proto : Proto) (pcb port : ℕ) : Sockets × Bool :=
  if port = 0 then
    match s.salNewPort proto with
    | (s, none) => (s, false)
    | (s, some port) => (s.bindPort proto pcb port, true)
  else if (s.pcbs proto).any fun q => q ≠ pcb ∧ s.localPort q = port then (s, false)
  else (s.bindPort proto pcb port, true)

def salBind (s : Sockets) (fd port : ℕ) : Sockets × ℤ :=
  match s.sockets fd with
  | none => (s, -16)
  | some k =>
    let (s, ok) := s.pcbBind k.proto k.pcb port
    (s, if ok then 0 else -1)

/-! ## Connections -/

/-- `sal_wifi_start`: the first link that is free. -/
def wifiStart (s : Sockets) (fd : ℕ) : Option Sockets :=
  match (List.range LINK_ID_MAX).find? fun l => s.gLink l = none with
  | none => none
  | some l => some { s with gLink := Function.update s.gLink l (some fd) }

/-- `sal_connect`, with `salnetconn_connect`. -/
def salConnect (s : Sockets) (fd : ℕ) : Sockets × ℤ :=
  match s.sockets fd with
  | none => (s, -1)
  | some k =>
    if k.connected then (s, -1)
    else
      let connect := fun s : Sockets => s.setSock fd (some { k with connected := true })
      match k.proto with
      | .tcp =>
        match s.wifiStart fd with
        | none => (s, -1)
        | some s => (connect s, 0)
      | .udp =>
        if s.localPort k.pcb = 0 then
          let (s, port) := s.salNewPort .udp
          match s.wifiStart fd with
          | none => (s, -1)
          | some s =>
            match s.pcbBind .udp k.pcb (port.getD 0) with
            | (s, false) => (s, -1)
            | (s, true) => (connect s, 0)
        else
          match s.wifiStart fd with
          | none => (s, -1)
          | some s => (connect s, 0)

/-! ## Packets -/

/-- `sal_packet_input`, with memory for the packet or without. -/
def salPacketInput (s : Sockets) (fd len : ℕ) (malloc : Bool) : Sockets × ℤ :=
  if len = 0 then (s, -1)
  else
    match s.sockets fd with
    | none => (s, -1)
    | some k =>
      if malloc && k.recvmbox.length < SAL_DEFAULT_RECVMBOX_SIZE then
        ({ s.setSock fd (some
              { k with
                recvmbox := k.recvmbox ++ [⟨s.nextBuf, len % 2 ^ 16⟩]
                rcvevent := k.rcvevent + 1
                accepted := s.nextBuf :: k.accepted }) with
            nextBuf := s.nextBuf + 1 }, 0)
      else (s, -1)

/-- What `sal_recvfrom` is called with: the length, and of the flags and the socket whether it only
    peeks, and whether it does not wait. -/
structure Recv where
  len : ℕ
  peek : Bool
  dontwait : Bool

/-- A read of what is in `lastdata`: the bytes read, the packets freed, and whether the read is done. -/
def readLast (k : Sock) (n : Netbuf) (r : Recv) : Sock × ℕ × List ℕ × Bool :=
  let buflen := n.len - k.lastoffset
  let copylen := min r.len buflen
  let done := k.proto = .udp || r.len = copylen || k.rcvevent ≤ 0 || r.peek
  if r.peek then (k, copylen, [], done)
  else if k.proto = .tcp && buflen > copylen then
    ({ k with lastdata := some n, lastoffset := k.lastoffset + copylen }, copylen, [], done)
  else ({ k with lastdata := none, lastoffset := 0 }, copylen, [n.id], done)

/-- The loop of `sal_recvfrom` on the mailbox, `off` bytes and the packets `fs` after its start.  Where
    it would wait for a packet it gives up; a read that is not done has freed its packet. -/
def recvLoop (r : Recv) (k : Sock) (off : ℕ) (fs : List ℕ) : List Netbuf → Sock × List ℕ × ℤ
  | [] => (k, fs, if off > 0 then (off : ℤ) else -1)
  | n :: rest =>
    if r.dontwait && k.rcvevent ≤ 0 then (k, fs, if off > 0 then (off : ℤ) else -1)
    else
      match readLast { k with recvmbox := rest, rcvevent := k.rcvevent - 1, lastdata := some n } n r with
      | (k, copied, gs, done) =>
        if done then (k, fs ++ gs, ((off + copied : ℕ) : ℤ)) else recvLoop r k (off + copied) (fs ++ gs) rest

def salRecvfrom (s : Sockets) (fd : ℕ) (r : Recv) : Sockets × ℤ :=
  if r.len = 0 then (s, -1)
  else
    match s.sockets fd with
    | none => (s, -1)
    | some k =>
      let (k, fs, ret) :=
        match k.lastdata with
        | none => recvLoop r k 0 [] k.recvmbox
        | some n =>
          match readLast k n r with
          | (k, copied, gs, done) => if done then (k, gs, (copied : ℤ)) else recvLoop r k copied gs k.recvmbox
      ({ s.setSock fd (some k) with freed := fs ++ s.freed }, ret)

/-! ## Closing -/

/-- The CLOSED event of a link. -/
def closedEvent (s : Sockets) (l : ℕ) : Sockets := { s with gLink := Function.update s.gLink l none }

/-- `sal_wifi_close`, which comes back behind the CLOSED event of its command. -/
def wifiClose (s : Sockets) (fd : ℕ) : Option Sockets :=
  match (List.range LINK_ID_MAX).find? fun l => s.gLink l = some fd with
  | none => none
  | some l => some (s.closedEvent l)

/-- `salnetconn_delete` and `free_socket`. -/
def netconnDelete (s : Sockets) (fd : ℕ) (k : Sock) : Sockets :=
  { s.setSock fd none with
    pcbs := Function.update s.pcbs k.proto ((s.pcbs k.proto).erase k.pcb)
    freed := k.recvmbox.map (·.id) ++ s.freed }

def salClose (s : Sockets) (fd : ℕ) : Sockets × ℤ :=
  match s.sockets fd with
  | none => (s, -1)
  | some k =>
    if k.connected then
      match s.wifiClose fd with
      | none => (s, -1)
      | some s => (s.netconnDelete fd k, 0)
    else (s.netconnDelete fd k, 0)

end Sockets

inductive SockAct
  | socket (proto : Proto)
  | bind (fd port : ℕ)
  | connect (fd : ℕ)
  | packetInput (fd len : ℕ) (malloc : Bool)
  | recvfrom (fd : ℕ) (r : Sockets.Recv)
  | closedEvent (l : ℕ)
  | close (fd : ℕ)

namespace Sockets

def step (s : Sockets) : SockAct → Sockets
  | .socket proto => (s.salSocket proto).1
  | .bind fd port => (s.salBind fd port).1
  | .connect fd => (s.salConnect fd).1
  | .packetInput fd len malloc => (s.salPacketInput fd len malloc).1
  | .recvfrom fd r => (s.salRecvfrom fd r).1
  | .closedEvent l => s.closedEvent l
  | .close fd => (s.salClose fd).1

/-- Closing the socket returns 0 and releases everything. -/
structure Released (s : Sockets) (fd : ℕ) (k : Sock) : Prop where
  ret : (s.salClose fd).2 = 0
  slot : (s.salClose fd).1.sockets fd = none
  link : ∀ l, (s.salClose fd).1.gLink l ≠ some fd
  pcb : ∀ proto, k.pcb ∉ (s.salClose fd).1.pcbs proto
  freed : ∀ n ∈ k.accepted, (s.salClose fd).1.freed.count n = 1

end Sockets

end Sal
