/-
  The response of the HTTP client (`utility/iotx-utils/misc/utils_httpc.c`):
  `httpclient_recv_response`, `httpclient_response_parse` and `httpclient_retrieve_content`, and
  a caller that takes `response_buf` and calls again until `is_more` is false.

  The three functions are one machine, with a `Phase` for the head of each of their loops.
  `data` is `data[0..len)`; `response_buf` is what was copied to it since the call began.  The
  counters of bytes in `data` and `response_buf` are small; `retrieve_len` is an `int`, and
  `response_content_len` and `readLen` are `uint32_t`.
-/
import Mathlib.Computability.StateTransition

namespace Httpc

abbrev Bytes := List UInt8

def HTTPCLIENT_CHUNK_SIZE : ℕ := 256

def cr : UInt8 := 13
def lf : UInt8 := 10

/-- What a function returns: `SUCCESS_RETURN`, `HTTP_RETRIEVE_MORE_DATA`, or an error. -/
inductive Ret
  | success
  | moreData
  | errorHttp
  | errorConn
  | errorUnresolvedDns
  deriving DecidableEq

/-- `httpclient_common` closes the connection on a negative return. -/
def Ret.ok : Ret → Bool
  | .success | .moreData => true
  | .errorHttp | .errorConn | .errorUnresolvedDns => false

/-! ## The C library -/

/-- A value as an `int`, and as a `uint32_t`. -/
def i32 (n : ℤ) : ℤ := Int.bmod n (2 ^ 32)
def u32 (n : ℤ) : ℕ := (n % 2 ^ 32).toNat

/-- The C string at the start of a buffer. -/
def cstr (bs : Bytes) : Bytes := bs.takeWhile (· ≠ 0)

/-- Where `"\r\n"` is. -/
def findCrlf : Bytes → Option ℕ
  | a :: b :: bs => if a = cr ∧ b = lf then some 0 else (findCrlf (b :: bs)).map (· + 1)
  | _ => none

def isSpace (c : UInt8) : Bool := c = 32 || (9 ≤ c && c ≤ 13)
def isDigit (c : UInt8) : Bool := 48 ≤ c && c ≤ 57
def isHex (c : UInt8) : Bool := isDigit c || (65 ≤ c && c ≤ 70) || (97 ≤ c && c ≤ 102)

def hexDigit (c : UInt8) : ℕ :=
  if c ≤ 57 then c.toNat - 48 else if c ≤ 70 then c.toNat - 55 else c.toNat - 87

def decimal (ds : Bytes) : ℕ := ds.foldl (fun n c => 10 * n + (c.toNat - 48)) 0
def hexadecimal (ds : Bytes) : ℕ := ds.foldl (fun n c => 16 * n + hexDigit c) 0

/-- A sign of `%d` or `%x`. -/
def sign : Bytes → Bool × Bytes
  | 45 :: cs => (true, cs)
  | 43 :: cs => (false, cs)
  | cs => (false, cs)

/-- `%d` of `sscanf`, and what is behind it. -/
def scanInt (s : Bytes) : Option (ℤ × Bytes) :=
  let (neg, s) := sign (s.dropWhile isSpace)
  let n : ℤ := decimal (s.takeWhile isDigit)
  if s.takeWhile isDigit = [] then none else some (if neg then -n else n, s.dropWhile isDigit)

/-- `0x` in front of the digits of `%x`. -/
def hexPrefix : Bytes → Bytes
  | 48 :: x :: d :: cs => if (x = 120 ∨ x = 88) ∧ isHex d then d :: cs else 48 :: x :: d :: cs
  | cs => cs

/-- `%x` of `sscanf`. -/
def scanHex (s : Bytes) : Option ℕ :=
  let (neg, s) := sign (s.dropWhile isSpace)
  let digits := (hexPrefix s).takeWhile isHex
  if digits = [] then none
  else some (u32 (if neg then -(hexadecimal digits : ℤ) else hexadecimal digits))

/-- A text that a format has. -/
def literal (t s : Bytes) : Option Bytes := if t.isPrefixOf s then some (s.drop t.length) else none

/-- `"HTTP/"`, `"Content-Length"`, `"Transfer-Encoding"`, `"Chunked"` and `"chunked"` -/
def http : Bytes := [72, 84, 84, 80, 47]
def contentLength : Bytes := [67, 111, 110, 116, 101, 110, 116, 45, 76, 101, 110, 103, 116, 104]
def transferEncoding : Bytes :=
  [84, 114, 97, 110, 115, 102, 101, 114, 45, 69, 110, 99, 111, 100, 105, 110, 103]
def chunkedUpper : Bytes := [67, 104, 117, 110, 107, 101, 100]
def chunkedLower : Bytes := [99, 104, 117, 110, 107, 101, 100]

/-- `sscanf(data, "HTTP/%*d.%*d %d %*[^\r\n]", &response_code)`, where it returns 1. -/
def scanStatus (s : Bytes) : Option ℤ := do
  let s ← literal http s
  let (_, s) ← scanInt s
  let s ← literal [46] s
  let (_, s) ← scanInt s
  let (code, _) ← scanInt s
  return code

/-- `sscanf(data, "%31[^:]: %31[^\r\n]", key, value)`, where it returns 2. -/
def scanHeader (s : Bytes) : Option (Bytes × Bytes) := do
  let key := (s.takeWhile (· ≠ 58)).take 31
  if key = [] then none
  let s ← literal [58] (s.drop key.length)
  let value := ((s.dropWhile isSpace).takeWhile fun c => c ≠ cr && c ≠ lf).take 31
  if value = [] then none
  return (key, value)

/-! ## The machine -/

/-- Where the program is. -/
inductive Phase
  /-- `httpclient_recv_response` is called -/
  | recvResponse
  /-- the loop of `httpclient_response_parse` -/
  | responseParse
  /-- the loop of `httpclient_retrieve_content` for a body without a length -/
  | untilClosed
  /-- its outer loop, the loop for a chunk header, the loop over `readLen`, and what is behind it -/
  | retrieveContent
  | chunkHeader
  | payload (readLen : ℕ)
  | chunkEnd
  | returned (ret : Ret)
  /-- a comparison with bytes of `data` that were not read -/
  | unread
  /-- a read of more than was asked for -/
  | unasked
  deriving DecidableEq

/-- `httpclient_data_t`, the variables of the functions, what the caller took of the calls before,
    and the reads to come. -/
structure State where
  isMore : Bool
  isChunked : Bool
  retrieveLen : ℤ
  responseContentLen : ℕ
  responseBuf : Bytes
  responseCode : ℤ
  data : Bytes
  delivered : Bytes
  reads : List Bytes
  phase : Phase

/-- Before the first call; `response_buf` is empty. -/
def State.start (reads : List Bytes) : State :=
  { isMore := false, isChunked := false, retrieveLen := 0, responseContentLen := 0, responseBuf := []
    responseCode := 0, data := [], delivered := [], reads := reads, phase := .recvResponse }

/-- `httpclient_recv` of at most `max` bytes, and what is done with them.  Behind the reads, the
    connection is `closed`, or every read times out. -/
def State.recv (s : State) (closed : Bool) (max : ℕ) (k : State → Bytes → State) : State :=
  match s.reads with
  | [] => if closed then { s with phase := .returned .errorConn } else k s []
  | r :: rs =>
    if max = 0 then k s []
    else if r.length ≤ max then k { s with reads := rs } r
    else { s with phase := .unasked }

/-- A read behind the bytes in `data`. -/
def State.readMore (s : State) (closed : Bool) (k : State → State) : State :=
  s.recv closed (HTTPCLIENT_CHUNK_SIZE - s.data.length - 1) fun s bs => k { s with data := s.data ++ bs }

/-- The start of `httpclient_retrieve_content`. -/
def State.retrieve (s : State) : State :=
  { s with
    isMore := true
    phase := if s.responseContentLen = 2 ^ 32 - 1 ∧ s.isChunked = false then .untilClosed else .retrieveContent }

/-- The start of `httpclient_response_parse`, with the first bytes of the response. -/
def State.statusLine (s : State) (data : Bytes) : State :=
  let s := { s with responseContentLen := 2 ^ 32 - 1 }
  match findCrlf (cstr data) with
  | none => { s with phase := .returned .errorUnresolvedDns }
  | some p =>
    match scanStatus (data.take p) with
    | none => { s with phase := .returned .errorUnresolvedDns }
    | some code =>
      { s with data := data.drop (p + 2), isChunked := false, responseCode := code, phase := .responseParse }

/-- `httpclient_recv_response`. -/
def State.recvResponse (s : State) (closed : Bool) : State :=
  if s.isMore then { s with responseBuf := [], data := [] }.retrieve
  else
    { s with isMore := true }.recv closed (HTTPCLIENT_CHUNK_SIZE - 1) fun s buf =>
      if buf = [] then { s with phase := .returned .success } else s.statusLine buf

/-- What a header is used for. -/
def State.header (s : State) (key value : Bytes) : State :=
  if key = contentLength then
    let len := ((scanInt value).map fun n => u32 n.1).getD s.responseContentLen
    { s with responseContentLen := len, retrieveLen := i32 len }
  else if key = transferEncoding ∧ (value = chunkedUpper ∨ value = chunkedLower) then
    { s with isChunked := true, responseContentLen := 0, retrieveLen := 0 }
  else s

/-- The loop over the headers. -/
def State.responseParse (s : State) (closed : Bool) : State :=
  match findCrlf (cstr s.data) with
  | none =>
    if s.data.length < HTTPCLIENT_CHUNK_SIZE - 1 then s.readMore closed id
    else { s with phase := .returned .errorHttp }
  | some 0 => { s with data := s.data.drop 2 }.retrieve
  | some (p + 1) =>
    match scanHeader (s.data.take (p + 1)) with
    | none => { s with phase := .returned .errorHttp }
    | some (key, value) => { s.header key value with data := s.data.drop (p + 3) }

/-- A body without a length. -/
def State.untilClosed (s : State) (R : ℕ) (closed : Bool) : State :=
  if s.responseBuf.length + s.data.length < R - 1 then
    let s := { s with responseBuf := s.responseBuf ++ s.data }
    s.recv closed (min (HTTPCLIENT_CHUNK_SIZE - 1) (R - 1 - s.responseBuf.length)) fun s bs =>
      if bs = [] then { s with isMore := false, phase := .returned .success } else { s with data := bs }
  else
    { s with
      responseBuf := s.responseBuf ++ s.data.take (R - 1 - s.responseBuf.length)
      phase := .returned .moreData }

/-- The loop for a chunk header; it is found when there is a byte behind it. -/
def State.chunkHeader (s : State) (closed : Bool) : State :=
  match findCrlf s.data.dropLast with
  | none =>
    if s.data.length < HTTPCLIENT_CHUNK_SIZE then s.readMore closed id
    else { s with phase := .returned .errorHttp }
  | some p =>
    match scanHex (cstr (s.data.take p)) with
    | none => { s with retrieveLen := 0, phase := .returned .errorUnresolvedDns }
    | some readLen =>
      let s := { s with
        retrieveLen := i32 readLen
        responseContentLen := u32 (s.responseContentLen + i32 readLen)
        data := s.data.drop (p + 2) }
      if readLen = 0 then { s with isMore := false, phase := .returned .success }
      else { s with phase := .payload readLen }

/-- One turn of the loop over `readLen`, to `response_buf` of `R` bytes. -/
def State.payload (s : State) (R : ℕ) (closed : Bool) (readLen : ℕ) : State :=
  let templen := min s.data.length readLen
  if s.responseBuf.length + templen < R - 1 then
    let s := { s with
      responseBuf := s.responseBuf ++ s.data.take templen
      retrieveLen := i32 (s.retrieveLen - templen) }
    if readLen < s.data.length then
      let s := { s with data := s.data.drop readLen, retrieveLen := 0 }
      if s.isChunked then { s with phase := .chunkEnd } else { s with isMore := false, phase := .returned .success }
    else
      let readLen := readLen - s.data.length
      if readLen ≠ 0 then
        s.recv closed (min (min (HTTPCLIENT_CHUNK_SIZE - 1) (R - 1 - s.responseBuf.length)) readLen) fun s bs =>
          { s with data := bs, phase := .payload readLen }
      -- `len` is not cleared, so here the bytes of the chunk are still in `data`
      else if s.isChunked then { s with phase := .chunkEnd }
      else { s with isMore := false, phase := .returned .success }
  else
    { s with
      responseBuf := s.responseBuf ++ s.data.take (R - 1 - s.responseBuf.length)
      retrieveLen := i32 (s.retrieveLen - (R - 1 - s.responseBuf.length : ℕ))
      phase := .returned .moreData }

/-- The comparison behind a chunk. -/
def State.crlf (s : State) : State :=
  match s.data with
  | a :: b :: data =>
    if a = cr ∧ b = lf then { s with data := data, phase := .retrieveContent }
    else { s with phase := .returned .errorUnresolvedDns }
  | _ => { s with phase := .unread }

/-- The end of a chunk. -/
def State.chunkEnd (s : State) (closed : Bool) : State :=
  if s.data.length < 2 then s.readMore closed State.crlf else s.crlf

/-- The caller: it takes `response_buf` and calls again while `is_more`, unless there was an error. -/
def State.again (s : State) (ret : Ret) : Option State :=
  if s.isMore && ret.ok then some { s with delivered := s.delivered ++ s.responseBuf, phase := .recvResponse }
  else none

def step (R : ℕ) (closed : Bool) (s : State) : Option State :=
  match s.phase with
  | .recvResponse => some (s.recvResponse closed)
  | .responseParse => some (s.responseParse closed)
  | .untilClosed => some (s.untilClosed R closed)
  | .retrieveContent =>
    some { s with phase := if s.isChunked ∧ s.retrieveLen ≤ 0 then .chunkHeader else .payload (u32 s.retrieveLen) }
  | .chunkHeader => some (s.chunkHeader closed)
  | .payload readLen => some (s.payload R closed readLen)
  | .chunkEnd => some (s.chunkEnd closed)
  | .returned ret => s.again ret
  | .unread | .unasked => none

/-- The run from the first call. -/
def Runs (R : ℕ) (closed : Bool) (reads : List Bytes) (t : State) : Prop :=
  StateTransition.Reaches (step R closed) (.start reads) t

/-- The calls end with `is_more` false, and the contents of `response_buf` are the body. -/
def Delivers (R : ℕ) (closed : Bool) (reads : List Bytes) (body : Bytes) : Prop :=
  ∃ t, Runs R closed reads t ∧ (∃ ret, t.phase = .returned ret) ∧ t.isMore = false ∧
    t.delivered ++ t.responseBuf = body

end Httpc
