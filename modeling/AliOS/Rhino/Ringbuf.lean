/-
  Rhino kernel: the ring buffer of `k_ringbuf.c`.

  A ring holds messages of one fixed size (`RINGBUF_TYPE_FIX`), or messages of
  any size, each behind its length in one to three bytes (`RINGBUF_TYPE_DYN`).
  The ring carries the memory its pointers point into; a data pointer is the
  function giving the bytes at and after it.  The two copies of a dynamic push
  and of a dynamic pop (length, then payload) are definitions of their own.
-/
import AliOS.Rhino.KErr
import AliOS.Lib.Cells

namespace Rhino

open Lib

inductive RingbufType where
  | fix | dyn
  deriving DecidableEq, Repr

/-- `k_ringbuf_t`, with the memory around it. -/
structure Ringbuf where
  buf : ℕ
  end_ : ℕ
  head : ℕ
  tail : ℕ
  freesize : ℕ
  type : RingbufType
  blkSize : ℕ
  mem : ℕ → UInt8

def ringbufLenMaxSize : ℕ := 3

/-- `COMPRESS_LEN`; `5` is the value of `RHINO_INV_PARAM`. -/
def compressLen (x : ℕ) : ℕ :=
  if x ≤ 0x7f then 1 else if x ≤ 0x3fff then 2 else if x ≤ 0x3fffff then 3 else 5

/-- Byte `k` of the big-endian 32-bit word of `n`. -/
def beByte (n k : ℕ) : UInt8 := UInt8.ofNat (n >>> (8 * (3 - k)))

/-- `ringbuf_headlen_compress`: the number of length bytes, and the bytes. -/
def ringbufHeadlenCompress (headLen : ℕ) : ℕ × (ℕ → UInt8) :=
  let lenBytes := compressLen headLen
  (lenBytes,
    if lenBytes = 1 then fun i => [0x7f &&& beByte headLen 3].getD i 0
    else if lenBytes = 2 then fun i => [0x80 ||| beByte headLen 2, beByte headLen 3].getD i 0
    else if lenBytes = 3 then
      fun i => [0xC0 ||| beByte headLen 1, beByte headLen 2, beByte headLen 3].getD i 0
    else fun _ => 0)

def ringbufHeadlenDecompress (bufLen : ℕ) (cmpBuf : ℕ → UInt8) : ℕ :=
  let lenBuf := memcpy (fun _ => 0) (4 - bufLen) cmpBuf bufLen
  let lenBuf := fun i => if bufLen > 1 ∧ i = 4 - bufLen then lenBuf i &&& 0x3f else lenBuf i
  (lenBuf 0).toNat <<< 24 + (lenBuf 1).toNat <<< 16 + (lenBuf 2).toNat <<< 8 + (lenBuf 3).toNat

def ringbufReset (r : Ringbuf) : Ringbuf :=
  { r with head := r.buf, tail := r.buf, freesize := r.end_ - r.buf }

def ringbufInit (mem : ℕ → UInt8) (buf len : ℕ) (type : RingbufType) (blockSize : ℕ) : Ringbuf :=
  ringbufReset ⟨buf, buf + len, 0, 0, 0, type, blockSize, mem⟩

def ringbufIsFull (r : Ringbuf) : Bool :=
  (r.type = .dyn && r.freesize < 2) || (r.type = .fix && r.freesize < r.blkSize)

def ringbufIsEmpty (r : Ringbuf) : Bool := r.freesize = r.end_ - r.buf

/-! ## Push -/

/-- `if (tail == end) tail = buf`. -/
def wrapTail (r : Ringbuf) : Ringbuf := if r.tail = r.end_ then { r with tail := r.buf } else r

/-- `if (head == end) head = buf`. -/
def wrapHead (r : Ringbuf) : Ringbuf := if r.head = r.end_ then { r with head := r.buf } else r

/-- Copy the length bytes to the buffer. -/
def ringbufPushLen (r : Ringbuf) (cLen : ℕ → UInt8) (lenBytes : ℕ) : Ringbuf :=
  let (r, splitLen, lenBytes) :=
    if r.tail ≥ r.head ∧ r.end_ - r.tail < lenBytes ∧ r.end_ - r.tail > 0 then
      ({ r with
          mem := memcpy r.mem r.tail cLen (r.end_ - r.tail)
          tail := r.buf
          freesize := r.freesize - (r.end_ - r.tail) },
        r.end_ - r.tail, lenBytes - (r.end_ - r.tail))
    else (r, 0, lenBytes)
  if lenBytes > 0 then
    { r with
      mem := memcpy r.mem r.tail (from_ cLen splitLen) lenBytes
      freesize := r.freesize - lenBytes
      tail := r.tail + lenBytes }
  else r

/-- Copy the data to the ring, split at the buffer end. -/
def ringbufPushData (r : Ringbuf) (data : ℕ → UInt8) (len : ℕ) : Ringbuf :=
  let (r, data, len) :=
    if r.tail ≥ r.head ∧ r.end_ - r.tail < len ∧ r.end_ - r.tail > 0 then
      ({ r with
          mem := memcpy r.mem r.tail data (r.end_ - r.tail)
          tail := r.buf
          freesize := r.freesize - (r.end_ - r.tail) },
        from_ data (r.end_ - r.tail), len - (r.end_ - r.tail))
    else (r, data, len)
  { r with
    mem := memcpy r.mem r.tail data len
    tail := r.tail + len
    freesize := r.freesize - len }

def ringbufPush (r : Ringbuf) (data : ℕ → UInt8) (len : ℕ) : KStat × Ringbuf :=
  if ringbufIsFull r then (.ringbufFull, r)
  else match r.type with
  | .fix =>
    let r := wrapTail r
    (.success, { r with
      mem := memcpy r.mem r.tail data r.blkSize
      tail := r.tail + r.blkSize
      freesize := r.freesize - r.blkSize })
  | .dyn =>
    let (lenBytes, cLen) := ringbufHeadlenCompress len
    if lenBytes = 0 ∨ lenBytes > ringbufLenMaxSize then (.invParam, r)
    else if r.freesize < lenBytes + len then (.ringbufFull, r)
    else
      let r := ringbufPushLen (wrapTail r) cLen lenBytes
      (.success, ringbufPushData (wrapTail r) data len)

/-! ## Push to the head -/

/-- The data of a head push: split at the buffer start, the first piece going
    there. -/
def ringbufHeadPushData (r : Ringbuf) (data : ℕ → UInt8) (len : ℕ) : Ringbuf :=
  let (r, data, len) :=
    if r.head ≤ r.tail ∧ r.head - r.buf < len ∧ r.head - r.buf > 0 then
      ({ r with
          mem := memcpy r.mem r.buf data (r.head - r.buf)
          head := r.end_
          freesize := r.freesize - (r.head - r.buf) },
        from_ data (r.head - r.buf), len - (r.head - r.buf))
    else (r, data, len)
  { r with
    head := r.head - len
    mem := memcpy r.mem (r.head - len) data len
    freesize := r.freesize - len }

/-- The length bytes of a head push. -/
def ringbufHeadPushLen (r : Ringbuf) (cLen : ℕ → UInt8) (lenBytes : ℕ) : Ringbuf :=
  let (r, lenBytes) :=
    if r.head ≤ r.tail ∧ r.head - r.buf < lenBytes ∧ r.head - r.buf > 0 then
      ({ r with
          mem := memcpy r.mem r.buf (from_ cLen (lenBytes - (r.head - r.buf))) (r.head - r.buf)
          head := r.end_
          freesize := r.freesize - (r.head - r.buf) },
        lenBytes - (r.head - r.buf))
    else (r, lenBytes)
  if lenBytes > 0 then
    { r with
      head := r.head - lenBytes
      mem := memcpy r.mem (r.head - lenBytes) cLen lenBytes
      freesize := r.freesize - lenBytes }
  else r

/-- `if (head == buf) head = end`. -/
def unwrapHead (r : Ringbuf) : Ringbuf := if r.head = r.buf then { r with head := r.end_ } else r

def ringbufHeadPush (r : Ringbuf) (data : ℕ → UInt8) (len : ℕ) : KStat × Ringbuf :=
  if ringbufIsFull r then (.ringbufFull, r)
  else match r.type with
  | .fix =>
    let r := unwrapHead r
    (.success, { r with
      head := r.head - len
      mem := memcpy r.mem (r.head - len) data len
      freesize := r.freesize - len })
  | .dyn =>
    let (lenBytes, cLen) := ringbufHeadlenCompress len
    if lenBytes = 0 ∨ lenBytes > ringbufLenMaxSize then (.invParam, r)
    else if r.freesize < lenBytes + len then (.ringbufFull, r)
    else
      let r := ringbufHeadPushData (unwrapHead r) data len
      (.success, ringbufHeadPushLen (unwrapHead r) cLen lenBytes)

/-! ## Pop -/

/-- The number of length bytes, read off the byte at the head; `none` where
    the source returns `RHINO_INV_PARAM`. -/
def lenBytesOf (b : UInt8) : Option ℕ :=
  if b &&& 0x80 = 0 then some 1
  else if b &&& 0xC0 = 0x80 then some 2
  else if b &&& 0xC0 = 0xC0 then some 3
  else none

/-- Read the length bytes from the head. -/
def ringbufPopLen (r : Ringbuf) (lenBytes : ℕ) : Ringbuf × (ℕ → UInt8) :=
  let (r, cLen, splitLen) :=
    if r.end_ - r.head < lenBytes ∧ r.end_ - r.head > 0 then
      ({ r with head := r.buf, freesize := r.freesize + (r.end_ - r.head) },
        memcpy (fun _ => 0) 0 (from_ r.mem r.head) (r.end_ - r.head), r.end_ - r.head)
    else (r, fun _ => 0, 0)
  if lenBytes - splitLen > 0 then
    ({ r with
        head := r.head + (lenBytes - splitLen)
        freesize := r.freesize + (lenBytes - splitLen) },
      memcpy cLen splitLen (from_ r.mem r.head) (lenBytes - splitLen))
  else (r, cLen)

/-- Copy the payload from the head to `pdata`. -/
def ringbufPopData (r : Ringbuf) (pdata : ℕ → UInt8) (len : ℕ) : Ringbuf × (ℕ → UInt8) :=
  let (r, pdata, data, len) :=
    if r.head > r.tail ∧ r.end_ - r.head < len then
      ({ r with head := r.buf, freesize := r.freesize + (r.end_ - r.head) },
        memcpy pdata 0 (from_ r.mem r.head) (r.end_ - r.head), r.end_ - r.head,
        len - (r.end_ - r.head))
    else (r, pdata, 0, len)
  ({ r with head := r.head + len, freesize := r.freesize + len },
    memcpy pdata data (from_ r.mem r.head) len)

/-- What a pop returns: the status, the ring, the bytes at `pdata`, and the
    value stored in `*plen` if one is. -/
structure PopResult where
  stat : KStat
  ring : Ringbuf
  pdata : ℕ → UInt8
  plen : Option ℕ

def ringbufPop (r : Ringbuf) (pdata : ℕ → UInt8) : PopResult :=
  if ringbufIsEmpty r then ⟨.ringbufEmpty, r, pdata, none⟩
  else match r.type with
  | .fix =>
    let r := wrapHead r
    ⟨.success,
      { r with head := r.head + r.blkSize, freesize := r.freesize + r.blkSize },
      memcpy pdata 0 (from_ r.mem r.head) r.blkSize, some r.blkSize⟩
  | .dyn =>
    let r := wrapHead r
    match lenBytesOf (r.mem r.head) with
    | none => ⟨.invParam, r, pdata, none⟩
    | some lenBytes =>
      let (r, cLen) := ringbufPopLen r lenBytes
      let len := ringbufHeadlenDecompress lenBytes cLen
      let (r, pdata) := ringbufPopData (wrapHead r) pdata len
      ⟨.success, r, pdata, some len⟩

end Rhino
