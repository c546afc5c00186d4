/-
  Firmware over the air (`framework/fota`): `ota_download_start` with the HTTP downloader and
  `CONFIG_AOS_FOTA_BREAKPOINT`.

  The flash and three keys of the KV store survive a reset.  An attempt starts after one, and
  writes to them one after the other; a power cut leaves what was written before it.  Offsets
  are far below 2^32, as the flash is.
-/
import AliOS.Fota.Md5
import Mathlib.Data.Int.Notation

namespace Fota

/-- A C string, without the terminating NUL. -/
abbrev Str := List UInt8

def OTA_BUFFER_MAX_SIZE : ℕ := 1536

/-- `OTA_DOWNLOAD_T`, and `OTA_DOWNLOAD_FAILED` of `OTA_STATUS_T`. -/
def OTA_DOWNLOAD_SEND_FAIL : ℤ := -5
def OTA_DOWNLOAD_SOCKET_FAIL : ℤ := -4
def OTA_DOWNLOAD_URL_FAIL : ℤ := -2
def OTA_DOWNLOAD_FAILED : ℤ := -2
def OTA_DOWNLOAD_CANCEL : ℤ := 1
def OTA_DOWNLOAD_FINISH : ℤ := 2

/-- `KEY_OTA_BREAKPOINT`, `KEY_OTA_MD5` and `KEY_OTA_MD5_CTX`, and the flash of the image. -/
structure Nv where
  breakpoint : Option ℕ
  md5 : Option Str
  md5Ctx : Option MD5_CTX
  flash : ℕ → UInt8

/-- A device that never had an update. -/
def Nv.fresh (flash : ℕ → UInt8) : Nv := ⟨none, none, none, flash⟩

/-- A write to what survives; `save_state` writes two keys. -/
inductive Write
  | curMd5 (md5 : Str)
  | flash (address : ℕ) (byte : UInt8)
  | saveState (breakpoint : ℕ) (ctx : MD5_CTX)
  | updateBreakpoint (offset : ℕ)

def Nv.write (nv : Nv) : Write → Nv
  | .curMd5 md5 => { nv with md5 := some md5 }
  | .flash address byte => { nv with flash := fun k => if k = address then byte else nv.flash k }
  | .saveState breakpoint ctx => { nv with breakpoint := some breakpoint, md5Ctx := some ctx }
  | .updateBreakpoint offset => { nv with breakpoint := some offset }

/-- `save_state` up to its first key. -/
def Nv.writeHalf (nv : Nv) : Write → Nv
  | .saveState breakpoint _ => { nv with breakpoint := some breakpoint }
  | w => nv.write w

/-- When the power goes: behind the first `n` writes, or between the two of `save_state`. -/
inductive Cut
  | never
  | after (n : ℕ)
  | inSaveState
  deriving DecidableEq

/-- What a power cut leaves. -/
def Nv.left (nv : Nv) (ws : List Write) : Cut → Nv
  | .never => ws.foldl Nv.write nv
  | .after n => (ws.take n).foldl Nv.write nv
  | .inSaveState => ws.foldl Nv.writeHalf nv

/-- What `ota_socket_recv` gives: bytes, with `ota_get_status() == OTA_CANCEL` behind them, or
    an error, with `errno == EINTR` and the result of `ota_socket_check_conn`. -/
inductive Recv
  | data (bytes : List UInt8) (cancelled : Bool)
  | fail (eintr conn : Bool)

/-- An attempt: the md5 that was offered, whether the URL has a host and a file, whether the
    host is reached and takes the request, what is received until the connection is closed, and
    the power cut. -/
structure Attempt where
  offered : Str
  url : Bool
  connects : Bool
  sends : Bool
  recvs : List Recv
  cut : Cut

/-- `md5`, with its NUL at the end. -/
def Attempt.md5 (a : Attempt) : Str := a.offered.take 32

/-- The memory of an attempt: `g_ctx`, what `ota_hal_init` was given, the bytes that went
    through the write callback since, and all writes. -/
structure Task where
  gCtx : MD5_CTX
  offset : ℕ
  written : List UInt8
  writes : List Write

def Task.write (t : Task) (w : Write) : Task := { t with writes := t.writes ++ [w] }

/-- `MD5_Update` and the write callback, on the same bytes. -/
def Task.func (t : Task) (bytes : List UInt8) : Task :=
  { t with
    gCtx := md5Update t.gCtx bytes
    written := t.written ++ bytes
    writes := t.writes ++ bytes.mapIdx fun i b => .flash (t.offset + t.written.length + i) b }

def strstr (s pat : Str) : Option ℕ := (List.range (s.length + 1)).find? fun i => pat.isPrefixOf (s.drop i)

/-- `%d` of `sscanf` -/
def scanInt (s : Str) : Option ℤ :=
  let s := s.dropWhile fun c => c = 0x20 || (9 ≤ c && c ≤ 13)
  let (neg, s) := match s with
    | 0x2d :: cs => (true, cs)
    | 0x2b :: cs => (false, cs)
    | cs => (false, cs)
  let digits := s.takeWhile fun c => 0x30 ≤ c && c ≤ 0x39
  if digits = [] then none
  else
    let n : ℤ := digits.foldl (fun n c => 10 * n + (c - 0x30).toNat) 0
    some (if neg then -n else n)

/-- `"Content-Length:"` and `"\\r\\n\\r\\n"` -/
def contentLengthKey : Str :=
  [0x43, 0x6f, 0x6e, 0x74, 0x65, 0x6e, 0x74, 0x2d, 0x4c, 0x65, 0x6e, 0x67, 0x74, 0x68, 0x3a]
def headerEnd : Str := [13, 10, 13, 10]

/-- The search for the file size in `http_buffer`: `"%*[^ ]%d"` behind the key. -/
def scanFileSize (buffer : Str) (fileSize : ℤ) : ℤ :=
  if fileSize = 0 then
    match strstr buffer contentLengthKey with
    | none => fileSize
    | some i => (scanInt ((buffer.drop i).dropWhile (· ≠ 0x20))).getD fileSize
  else fileSize

/-- The variables of the receive loop. -/
structure Loop where
  httpBuffer : List UInt8
  headerFound : Bool
  fileSize : ℤ
  size : ℤ

def Loop.start : Loop := ⟨List.replicate OTA_BUFFER_MAX_SIZE 0, false, 0, 0⟩

/-- How the loop ends: by the sign of `nbytes`, or by a fault where a piece has a negative
    length. -/
inductive LoopEnd
  | closed
  | failed
  | cancelled
  | fault
  deriving DecidableEq

/-- The receive loop of `ota_download`. -/
def recvLoop (t : Task) (l : Loop) : List Recv → Task × Loop × LoopEnd
  | [] => (t, l, .closed)
  | .fail eintr conn :: rs => if !eintr || !conn then (t, l, .failed) else recvLoop t l rs
  | .data bytes cancelled :: rs =>
    let bytes := bytes.take (OTA_BUFFER_MAX_SIZE - 1)
    if bytes.length = 0 then (t, l, .closed)
    else
      let buffer := bytes ++ l.httpBuffer.drop bytes.length
      if !l.headerFound then
        let s := buffer.takeWhile (· ≠ 0)
        let fileSize := scanFileSize s l.fileSize
        match strstr s headerEnd with
        | none => recvLoop t { l with httpBuffer := buffer, fileSize := fileSize } rs
        | some i =>
          let len := i + 4
          let size : ℤ := bytes.length - len
          -- the buffer is not cleared here, so the end of the header can be older than these bytes
          if size < 0 then (t, l, .fault)
          else recvLoop (t.func ((buffer.drop len).take size.toNat)) ⟨buffer, true, fileSize, size⟩ rs
      else
        let size := l.size + bytes.length
        let t := t.func bytes
        let l := { l with httpBuffer := List.replicate OTA_BUFFER_MAX_SIZE 0, size := size }
        if size = l.fileSize then (t, l, .closed)
        else if cancelled then (t, l, .cancelled)
        else recvLoop t l rs

/-- The breakpoint that `ota_download` goes on from, with the context of it, or 0 and a new one. -/
def resume (nv : Nv) (a : Attempt) (t : Task) : ℕ × Task :=
  let breakpoint := nv.breakpoint.getD 0
  if breakpoint ≠ 0 ∧ nv.md5.getD [] = a.md5 then (breakpoint, { t with gCtx := nv.md5Ctx.getD t.gCtx })
  else (0, { t with gCtx := md5Init t.gCtx })

/-- `ota_download` behind the checks of the URL and the connection. -/
def download (a : Attempt) (breakpoint : ℕ) (t : Task) : Task × Option ℤ :=
  let t := t.write (.curMd5 a.md5)
  if !a.sends then (t, some OTA_DOWNLOAD_SEND_FAIL)
  else
    match recvLoop t .start a.recvs with
    | (t, l, .failed) => (t.write (.saveState (l.size + breakpoint).toNat t.gCtx), some OTA_DOWNLOAD_FAILED)
    | (t, _, .closed) => (t.write (.updateBreakpoint 0), some OTA_DOWNLOAD_FINISH)
    | (t, l, .cancelled) => (t.write (.saveState (l.size + breakpoint).toNat t.gCtx), some OTA_DOWNLOAD_CANCEL)
    | (t, _, .fault) => (t, none)

/-- `ota_download`; nothing is returned from a fault. -/
def otaDownload (nv : Nv) (a : Attempt) (t : Task) : Task × Option ℤ :=
  if !a.url then (t, some OTA_DOWNLOAD_URL_FAIL)
  else if !a.connects then (t, some OTA_DOWNLOAD_SOCKET_FAIL)
  else
    let (breakpoint, t) := resume nv a t
    download a breakpoint t

/-- A digit of `%02X`. -/
def hexDigit (n : UInt8) : UInt8 := if n < 10 then 48 + n else 55 + n

/-- `check_md5`: the 32 digits of the digest are those of the md5. -/
def checkMd5 (ctx : MD5_CTX) (md5 : Str) : Bool :=
  ((md5Final ctx).flatMap fun b => [hexDigit (b / 16), hexDigit (b % 16)]) = md5

/-- `OTA_ENUM_RESULT_TYPE` -/
inductive FinishResult
  | finish
  | breakpoint
  deriving DecidableEq

/-- `ota_download_start`: the task at its end, and what the finish callback is called with. -/
def otaDownloadStart (nv : Nv) (a : Attempt) : Task × Option FinishResult :=
  match otaDownload nv a ⟨.zero, nv.breakpoint.getD 0, [], []⟩ with
  | (t, none) => (t, none)
  | (t, some ret) =>
    if ret ≤ 0 then (t, some .breakpoint)
    else if ret = OTA_DOWNLOAD_CANCEL then (t, some .breakpoint)
    else if checkMd5 t.gCtx a.md5 then (t, some .finish)
    else (t, none)

/-- What an attempt leaves; `ota_reboot` ends it. -/
def Nv.attempt (nv : Nv) (a : Attempt) : Nv := nv.left (otaDownloadStart nv a).1.writes a.cut

/-- The bytes kept below the offset, and those written from it. -/
def image (nv : Nv) (t : Task) : List UInt8 := (List.range t.offset).map nv.flash ++ t.written

/-- **The image that is booted was verified**: where the finish callback gets `OTA_FINISH`, the
    context that was compared has hashed the image. -/
def Verified (nv : Nv) (a : Attempt) : Prop :=
  a.cut = .never → (otaDownloadStart nv a).2 = some .finish →
    Hashes (otaDownloadStart nv a).1.gCtx (image nv (otaDownloadStart nv a).1)

/-- What an attempt needs: while a breakpoint is stored, the md5 of it, unless nothing is
    received; and no power cut between the two keys of `save_state`. -/
def Meets (nv : Nv) (a : Attempt) : Prop :=
  a.cut ≠ .inSaveState ∧
    (nv.breakpoint.getD 0 = 0 ∨ nv.md5.getD [] = a.md5 ∨ a.url = false ∨ a.connects = false ∨ a.sends = false)

end Fota
