/-
  The receive buffer of WSF and its parsing.

  `WsfConn` embeds the fields of `wsf_connection_t` that the parsing reads and
  writes; `processReceivedBuf` is the loop of `process_received_buf`, with fuel
  for its passes.  A message may close the connection (`handle`), which empties
  the buffer.
-/
import AliOS.Lib.Cells
import AliOS.Lib.Trans

namespace Wsf

open Lib

abbrev Bytes := List UInt8

/-- The receive buffer of the connection; `ssl` is false for the null pointer. -/
structure WsfConn where
  ssl : Bool
  recvBuf : ℕ → UInt8
  recvBufPos : ℕ

/-! ## The source functions -/

/-- `sizeof(wsf_msg_header_t)`. -/
def headerSize : ℕ := 13

/-- `os_get_unaligned_be32`. -/
def be32 (buf : ℕ → UInt8) (i : ℕ) : ℕ :=
  (buf i).toNat * 2 ^ 24 + (buf (i + 1)).toNat * 2 ^ 16 + (buf (i + 2)).toNat * 2 ^ 8 +
    (buf (i + 3)).toNat

/-- The 32 bits that the host reads at `i`. -/
def host32 (buf : ℕ → UInt8) (i : ℕ) : ℕ :=
  (buf (i + 3)).toNat * 2 ^ 24 + (buf (i + 2)).toNat * 2 ^ 16 + (buf (i + 1)).toNat * 2 ^ 8 +
    (buf i).toNat

/-- `htonl` of the four bytes at `i`. -/
def htonlAt (buf : ℕ → UInt8) (i : ℕ) : ℕ → UInt8 :=
  fun j => if i ≤ j ∧ j < i + 4 then buf (2 * i + 3 - j) else buf j

/-- `strncmp(buf, MAGIC_CODE, 4) == 0`. -/
def isMagic (buf : ℕ → UInt8) : Bool :=
  buf 0 = 0x57 ∧ buf 1 = 0x53 ∧ buf 2 = 0x46 ∧ buf 3 = 0x31

def wsfMsgAccept (buf : ℕ → UInt8) (length : ℕ) : Bool :=
  if length < headerSize then true else isMagic buf

def wsfMsgComplete (buf : ℕ → UInt8) (length : ℕ) : Bool :=
  if length < headerSize then false else be32 buf 4 ≤ length

/-- `wsf_msg_header_decode`: the length and the id in the order of the host. -/
def wsfMsgHeaderDecode (buf : ℕ → UInt8) : ℕ → UInt8 := htonlAt (htonlAt buf 4) 9

def getMsgType (buf : ℕ → UInt8) : UInt8 := buf 8 &&& 0x0F

/-- The types that `msg_handlers` has a handler for. -/
def hasHandler (mtype : UInt8) : Bool :=
  mtype = 0 ∨ mtype = 1 ∨ mtype = 3 ∨ mtype = 5 ∨ mtype = 6

/-- What `wsf_reset_connection` does to these fields. -/
def wsfResetConnection (conn : WsfConn) : WsfConn := { conn with ssl := false, recvBufPos := 0 }

/-- The message in the buffer makes its handler close the connection: a register
    response (5) with a result other than `INVOKE_RIGHT`, or a deregistration
    (6). -/
def closes (ssl : Bool) (buf : ℕ → UInt8) : Bool :=
  getMsgType buf = 5 ∧ buf 13 ≠ 0 ∨ getMsgType buf = 6 ∧ ssl

/-- The handler of the message in the buffer, as far as the buffer goes. -/
def handle (conn : WsfConn) : WsfConn :=
  if closes conn.ssl conn.recvBuf then wsfResetConnection conn else conn

/-- `wsf_recvbuff_clear_first_msg`: whether there is more, and the connection. -/
def wsfRecvbuffClearFirstMsg (conn : WsfConn) : Bool × WsfConn :=
  let bufLen := conn.recvBufPos
  let pkgLen := host32 conn.recvBuf 4
  if bufLen = pkgLen then (false, { conn with recvBufPos := 0 })
  else if bufLen > pkgLen then
    (true, { conn with
      recvBuf := memcpy conn.recvBuf 0 (from_ conn.recvBuf pkgLen) (bufLen - pkgLen)
      recvBufPos := bufLen - pkgLen })
  else (false, { conn with recvBufPos := 0 })

/-- One pass from the label `reprocess`: whether it goes back there, the
    connection, and the message handed to its handler. -/
def reprocess (conn : WsfConn) : Bool × WsfConn × List Bytes :=
  if ¬ wsfMsgAccept conn.recvBuf conn.recvBufPos then (false, { conn with recvBufPos := 0 }, [])
  else if wsfMsgComplete conn.recvBuf conn.recvBufPos then
    let conn := { conn with recvBuf := wsfMsgHeaderDecode conn.recvBuf }
    if hasHandler (getMsgType conn.recvBuf) then
      let msg := slice conn.recvBuf 0 (host32 conn.recvBuf 4)
      let (more, conn) := wsfRecvbuffClearFirstMsg (handle conn)
      (more, conn, [msg])
    else
      let (more, conn) := wsfRecvbuffClearFirstMsg conn
      (more, conn, [])
  else (false, conn, [])

/-- `process_received_buf`: the connection and the messages handed over; `none`
    where `fuel` passes are not enough. -/
def processReceivedBuf : ℕ → WsfConn → Option (WsfConn × List Bytes)
  | 0, _ => none
  | fuel + 1, conn =>
    match reprocess conn with
    | (true, conn, log) => (processReceivedBuf fuel conn).map fun r => (r.1, log ++ r.2)
    | (false, conn, log) => some (conn, log)

/-! ## Chunks -/

/-- `os_ssl_recv` puts a chunk behind the bytes in the buffer. -/
def WsfConn.recv (conn : WsfConn) (chunk : Bytes) : WsfConn :=
  { conn with
    recvBuf := memcpy conn.recvBuf conn.recvBufPos (fun i => chunk.getD i 0) chunk.length
    recvBufPos := conn.recvBufPos + chunk.length }

/-- A chunk arrives and `process_received_buf` returns; the label has the chunk
    and the messages handed over. -/
def Deliver (conn : WsfConn) (a : Bytes × List Bytes) (conn' : WsfConn) : Prop :=
  ∃ fuel, processReceivedBuf fuel (conn.recv a.1) = some (conn', a.2)

/-- The bytes that arrived in a run. -/
def stream (as : List (Bytes × List Bytes)) : Bytes := (as.map Prod.fst).flatten

/-- The messages that were handed over in a run. -/
def handed (as : List (Bytes × List Bytes)) : List Bytes := (as.map Prod.snd).flatten

/-! ## Messages -/

/-- The byte `i` of a message. -/
def at_ (m : Bytes) : ℕ → UInt8 := fun i => m.getD i 0

/-- A well-formed message: the magic code, its own length, and a result code in
    a register response. -/
structure WellFormed (m : Bytes) : Prop where
  header : headerSize ≤ m.length
  magic : isMagic (at_ m) = true
  length : be32 (at_ m) 4 = m.length
  result : getMsgType (at_ m) = 5 → headerSize < m.length

/-- The messages as their handlers get them. -/
def dispatched (msgs : List Bytes) : List Bytes :=
  (msgs.filter fun m => hasHandler (getMsgType (at_ m))).map fun m =>
    slice (wsfMsgHeaderDecode (at_ m)) 0 m.length

end Wsf
