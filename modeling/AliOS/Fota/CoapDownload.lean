/-
  `ota_download` over CoAP (`fota/download/coap/ota_download.c`): the loop of requests, and the
  handler of the responses in the receiving thread.

  The progress is in static variables, so it is there from the power on: `ota_download` sets
  `block_cur_num`, and leaves `block_more`, `block_size` and `total_size` as they are.  The
  handler and each turn of the loop are one step; `aos_sem_wait` ends by itself, so any turn can
  follow any other step.
-/
import AliOS.Fota.Ota
import AliOS.Lib.Trans
import Mathlib.Algebra.Group.Nat.Defs

namespace FotaCoap

open Fota

def OTA_COAP_BLOCK_SIZE : ℕ := 1024
def COAP_OPTION_BLOCK2 : ℕ := 23
def MAX_RETRY : ℕ := 10

/-- A response: its code, its options by number, and its payload. -/
structure Response where
  code : ℕ
  options : List (ℕ × List UInt8)
  payload : List UInt8

/-- `cur_num`, `more` and `size` of a block option. -/
structure Block where
  num : ℕ
  more : Bool
  size : ℕ

/-- `coap_parse_block_val`.  A block above 512 bytes gives an error that is not looked at. -/
def coapParseBlockVal (val : List UInt8) : Block :=
  let byte (i : ℕ) : ℕ := (val.getD i 0).toNat
  match val.length with
  | 1 => ⟨(byte 0 &&& 0xf0) >>> 4, byte 0 &&& 8 ≠ 0, 1 <<< ((byte 0 &&& 7) + 4)⟩
  | 2 => ⟨byte 0 <<< 4 ||| (byte 1 &&& 0xf0) >>> 4, byte 1 &&& 8 ≠ 0, 1 <<< ((byte 1 &&& 7) + 4)⟩
  | _ => ⟨byte 0 <<< 12 ||| byte 1 <<< 4 ||| (byte 2 &&& 0xf0) >>> 4, byte 2 &&& 8 ≠ 0, 1 <<< ((byte 2 &&& 7) + 4)⟩

/-- `IOT_CoAP_ParseOption_block` with `COAP_OPTION_BLOCK2`: the last such option counts. -/
def parseOptionBlock (r : Response) : Option Block :=
  r.options.foldl (fun b o => if o.1 = COAP_OPTION_BLOCK2 then some (coapParseBlockVal o.2) else b) none

/-- What `ota_download` is called with, and the file that the server has for it; `valid` is that
    no argument is `NULL` and the URL is not empty. -/
structure Offer where
  file : List UInt8
  md5 : Str
  valid : Bool

/-- A call of `ota_download`: the file, the breakpoint it goes on from, and `total_size` at the call. -/
structure Call where
  file : List UInt8
  breakpoint : ℕ
  totalSize : ℕ

/-- `IOT_CoAP_SendMessage_block`, for the file of the call. -/
structure Request where
  file : List UInt8
  num : ℕ
  more : Bool
  size : ℕ

/-- A call that has returned: what it passed to the write callback, its result, and the
    breakpoint it saved. -/
structure Return where
  call : Call
  written : List (List UInt8)
  ret : ℤ
  saved : Option ℕ

/-- The static variables, what is stored, the present call or the last one with the payloads
    passed to the write callback since, the requests sent, and the calls that returned. -/
structure Dl where
  blockCurNum : ℕ
  blockMore : Bool
  blockSize : ℕ
  totalSize : ℕ
  coapClientRunning : Bool
  retryCnt : ℕ
  gCtx : MD5_CTX
  nv : Nv
  call : Call
  active : Bool
  written : List (List UInt8)
  requests : List Request
  returns : List Return

def Dl.powerOn (nv : Nv) : Dl :=
  { blockCurNum := 0, blockMore := true, blockSize := OTA_COAP_BLOCK_SIZE, totalSize := 0
    coapClientRunning := false, retryCnt := 0, gCtx := .zero, nv := nv
    call := ⟨[], 0, 0⟩, active := false, written := [], requests := [], returns := [] }

/-- The breakpoint of `ota_download`: the stored one, where it is of the same md5. -/
def resumeAt (nv : Nv) (md5 : Str) : ℕ :=
  let breakpoint := nv.breakpoint.getD 0
  if breakpoint ≠ 0 ∧ (nv.md5.getD []).take 32 = md5.take 32 then breakpoint else 0

/-- `ota_download` up to its loop. -/
def Dl.start (s : Dl) (o : Offer) : Dl :=
  if !o.valid then
    { s with returns := s.returns ++ [⟨⟨o.file, 0, s.totalSize⟩, [], OTA_DOWNLOAD_URL_FAIL, none⟩] }
  else
    let breakpoint := resumeAt s.nv o.md5
    { s with
      retryCnt := 0
      blockCurNum := breakpoint / OTA_COAP_BLOCK_SIZE
      gCtx := if breakpoint ≠ 0 then s.nv.md5Ctx.getD s.gCtx else md5Init s.gCtx
      nv := s.nv.write (.curMd5 o.md5)
      coapClientRunning := true
      call := ⟨o.file, breakpoint, s.totalSize⟩
      active := true
      written := [] }

/-- `ota_download` returns; a breakpoint is saved with the result of a failure only. -/
def Dl.leave (s : Dl) (w : Write) (ret : ℤ) (saved : Option ℕ) : Dl :=
  { s with nv := s.nv.write w, active := false, returns := s.returns ++ [⟨s.call, s.written, ret, saved⟩] }

/-- A turn of the loop: `iotx_req_block_from_server`, or the end of `ota_download`. -/
def Dl.turn (s : Dl) : Dl :=
  if s.coapClientRunning && s.blockMore then
    { s with requests := s.requests ++ [⟨s.call.file, s.blockCurNum, s.blockMore, s.blockSize⟩] }
  else if s.blockMore = false ∧ s.blockCurNum ≠ 0 then s.leave (.updateBreakpoint 0) OTA_DOWNLOAD_FINISH none
  else s.leave (.saveState s.totalSize s.gCtx) OTA_DOWNLOAD_FAILED (some s.totalSize)

def Dl.retry (s : Dl) : Dl :=
  { s with
    coapClientRunning := if MAX_RETRY < s.retryCnt then false else s.coapClientRunning
    retryCnt := s.retryCnt + 1 }

/-- The block that is waited for: `MD5_Update`, and the write callback. -/
def Dl.accept (s : Dl) (b : Block) (payload : List UInt8) : Dl :=
  { s with
    blockMore := if b.more then s.blockMore else false
    blockCurNum := if b.more then (s.blockCurNum + 1) % 2 ^ 32 else s.blockCurNum
    totalSize := (s.totalSize + payload.length) % 2 ^ 32
    gCtx := md5Update s.gCtx payload
    written := s.written ++ [payload] }

/-- `iotx_response_block_handler` -/
def Dl.handler (s : Dl) (r : Response) : Dl :=
  if r.code = 0x45 then
    match parseOptionBlock r with
    | some b =>
      let s := { s with blockSize := b.size }
      if b.num = s.blockCurNum then s.accept b r.payload else s
    | none => s.retry
  else s.retry

/-! ## Blocks of a file -/

/-- The block of a number, in blocks of the size. -/
def block (file : List UInt8) (size i : ℕ) : List UInt8 := (file.drop (i * size)).take size

/-- The empty file is one empty block. -/
def HasBlock (file : List UInt8) (size i : ℕ) : Prop := i = 0 ∨ i * size < file.length

/-- The response, where it has a block, has one of the file. -/
def Answers (file : List UInt8) (r : Response) : Prop :=
  ∀ b, r.code = 0x45 → parseOptionBlock r = some b →
    r.payload = block file b.size b.num ∧ HasBlock file b.size b.num ∧
      (b.more = true ↔ (b.num + 1) * b.size < file.length)

inductive Act
  | start (o : Offer)
  | turn
  | respond (r : Response)

/-- The steps: there is one call at a time, and a response is an answer to some request before
    it, in blocks of any size; it can be lost, come late, twice, or in another order. -/
def Step (s : Dl) (a : Act) (s' : Dl) : Prop :=
  match a with
  | .start o => s.active = false ∧ s.start o = s'
  | .turn => s.active = true ∧ s.turn = s'
  | .respond r => (∃ q ∈ s.requests, Answers q.file r) ∧ s.handler r = s'

/-- The payloads are blocks of the file, from the block `k` on. -/
def InOrderBy (file : List UInt8) (size k : ℕ) (written : List (List UInt8)) : Prop :=
  ∀ i p, written[i]? = some p → p = block file size (k + i) ∧ HasBlock file size (k + i)

/-- **In order**: the payloads are the blocks of the file, in blocks of some size, from the one
    at the breakpoint on, each once. -/
def InOrder (file : List UInt8) (breakpoint : ℕ) (written : List (List UInt8)) : Prop :=
  ∃ size k, 0 < size ∧ k * size = breakpoint ∧ InOrderBy file size k written

/-- The last block was written. -/
def LastWritten (file : List UInt8) (breakpoint : ℕ) (written : List (List UInt8)) : Prop :=
  written ≠ [] ∧ file.length ≤ breakpoint + written.flatten.length

/-- **A call that returned**: its blocks are in order, it has finished exactly if the last block
    was written, and a saved breakpoint counts the bytes of the file that were written. -/
structure Return.Right (r : Return) : Prop where
  order : InOrder r.call.file r.call.breakpoint r.written
  finish : r.ret = OTA_DOWNLOAD_FINISH ↔ LastWritten r.call.file r.call.breakpoint r.written
  saved : ∀ n, r.saved = some n → n = r.call.breakpoint + r.written.flatten.length

/-- The downloads of a power cycle. -/
structure Dl.Right (s : Dl) : Prop where
  order : InOrder s.call.file s.call.breakpoint s.written
  returns : ∀ r ∈ s.returns, r.Right

/-- What the statics need: no call before received its last block; a call that fails was made with
    its breakpoint in `total_size`; and a block with the number that is waited for comes during
    the call, is of its file, begins where the bytes written end, and is neither behind the last
    block nor the only one of the file. -/
def Meets (s : Dl) : Act → Prop
  | .start o => o.valid = true → s.blockMore = true
  | .turn =>
    (s.coapClientRunning && s.blockMore) = false → ¬ (s.blockMore = false ∧ s.blockCurNum ≠ 0) →
      s.call.totalSize = s.call.breakpoint
  | .respond r =>
    ∀ b, r.code = 0x45 → parseOptionBlock r = some b → b.num = s.blockCurNum →
      s.active = true ∧ s.blockMore = true ∧ Answers s.call.file r ∧
        b.num * b.size = s.call.breakpoint + s.written.flatten.length ∧ (b.more = false → b.num ≠ 0)

/-! ## Blocks -/

variable {s s' : Dl} {a : Act} {as : List Act} {b : Block} {r : Response} {o : Offer} {file : List UInt8}
  {size k n : ℕ} {written : List (List UInt8)} {nv : Nv}

theorem InOrder.nil (file : List UInt8) (n : ℕ) : InOrder file n [] :=
  ⟨1, n, Nat.one_pos, Nat.mul_one n, fun _ _ h => nomatch h⟩

theorem InOrderBy.snoc (h : InOrderBy file size k written) (hn : k + written.length = n) (hb : HasBlock file size n) :
    InOrderBy file size k (written ++ [block file size n]) := by
  intro i p hi
  rcases Nat.lt_trichotomy i written.length with hlt | rfl | hgt
  · rw [List.getElem?_append_left hlt] at hi
    exact h i p hi
  · rw [List.getElem?_concat_length] at hi
    cases hi
    rw [hn]
    exact ⟨rfl, hb⟩
  · rw [List.getElem?_eq_none (by simp; omega)] at hi
    cases hi

theorem block_length : (block file size n).length = min size (file.length - n * size) := by
  rw [block, List.length_take, List.length_drop]

theorem block_more (h : (n + 1) * size < file.length) : (block file size n).length = size := by
  rw [block_length, Nat.min_eq_left]
  rw [Nat.add_mul, Nat.one_mul] at h
  omega

theorem block_last (hb : HasBlock file size n) (h : ¬ (n + 1) * size < file.length) :
    n * size + (block file size n).length = file.length := by
  rw [Nat.add_mul, Nat.one_mul] at h
  have hle : n * size ≤ file.length := by
    rcases hb with rfl | hb
    · simp
    · exact Nat.le_of_lt hb
  rw [block_length, Nat.min_eq_right (by omega)]
  omega

theorem parse_num (val : List UInt8) : (coapParseBlockVal val).num < 2 ^ 20 := by
  have hbyte : ∀ i, (val.getD i 0).toNat < 2 ^ 8 := fun i => UInt8.toNat_lt _
  have hhigh : ∀ i, ((val.getD i 0).toNat &&& 0xf0) >>> 4 < 2 ^ 20 := by
    intro i
    have := Nat.and_le_left (n := (val.getD i 0).toNat) (m := 0xf0)
    rw [Nat.shiftRight_eq_div_pow]
    have := hbyte i
    omega
  have hleft : ∀ i j, j ≤ 12 → (val.getD i 0).toNat <<< j < 2 ^ 20 := by
    intro i j hj
    rw [Nat.shiftLeft_eq]
    calc (val.getD i 0).toNat * 2 ^ j < 2 ^ 8 * 2 ^ j := Nat.mul_lt_mul_of_pos_right (hbyte i) (Nat.two_pow_pos j)
      _ ≤ 2 ^ 8 * 2 ^ 12 := Nat.mul_le_mul_left _ (Nat.pow_le_pow_right (by omega) hj)
      _ = 2 ^ 20 := rfl
  rw [coapParseBlockVal]
  split
  · exact hhigh 0
  · exact Nat.or_lt_two_pow (hleft 0 4 (by omega)) (hhigh 1)
  · exact Nat.or_lt_two_pow (Nat.or_lt_two_pow (hleft 0 12 (by omega)) (hleft 1 4 (by omega))) (hhigh 2)

theorem parse_size (val : List UInt8) : 0 < (coapParseBlockVal val).size ∧ (coapParseBlockVal val).size ≤ 2 ^ 11 := by
  have hsize : ∀ x : ℕ, 0 < 1 <<< ((x &&& 7) + 4) ∧ 1 <<< ((x &&& 7) + 4) ≤ 2 ^ 11 := by
    intro x
    rw [Nat.shiftLeft_eq, Nat.one_mul]
    have hand : x &&& 7 ≤ 7 := Nat.and_le_right
    exact ⟨Nat.two_pow_pos _, Nat.pow_le_pow_right (by omega) (by omega)⟩
  rw [coapParseBlockVal]
  split <;> exact hsize _

theorem parseOptionBlock_spec (h : parseOptionBlock r = some b) : b.num < 2 ^ 20 ∧ 0 < b.size ∧ b.size ≤ 2 ^ 11 := by
  have hfold : ∀ (os : List (ℕ × List UInt8)) (b0 : Option Block),
      (∀ b, b0 = some b → b.num < 2 ^ 20 ∧ 0 < b.size ∧ b.size ≤ 2 ^ 11) →
      ∀ b, os.foldl (fun b o => if o.1 = COAP_OPTION_BLOCK2 then some (coapParseBlockVal o.2) else b) b0 = some b →
        b.num < 2 ^ 20 ∧ 0 < b.size ∧ b.size ≤ 2 ^ 11 := by
    intro os
    induction os with
    | nil => exact fun b0 h => h
    | cons o os ih =>
      intro b0 hb0 b hb
      refine ih _ ?_ b hb
      intro b' hb'
      simp only at hb'
      split_ifs at hb'
      · cases hb'
        exact ⟨parse_num _, parse_size _⟩
      · exact hb0 b' hb'
  exact hfold r.options none nofun b h

/-! ## The invariant -/

def Dl.bytes (s : Dl) : ℕ := s.written.flatten.length

/-- How far a call is: nothing written; so many blocks of a size, and more to come; or all. -/
inductive Progress (s : Dl) : Prop
  | none (written : s.written = []) (more : s.blockMore = true)
  | some (size k : ℕ) (pos : 0 < size) (start : k * size = s.call.breakpoint)
      (order : InOrderBy s.call.file size k s.written) (written : s.written ≠ []) (more : s.blockMore = true)
      (num : s.blockCurNum = k + s.written.length) (ends : s.call.breakpoint + s.bytes = s.blockCurNum * size)
      (less : s.call.breakpoint + s.bytes < s.call.file.length)
  | all (written : s.written ≠ []) (more : s.blockMore = false) (num : s.blockCurNum ≠ 0)
      (ends : s.call.breakpoint + s.bytes = s.call.file.length)

structure Inv (s : Dl) : Prop where
  right : s.Right
  total : s.totalSize = (s.call.totalSize + s.bytes) % 2 ^ 32
  small : s.call.totalSize < 2 ^ 32
  bytes : s.written = [] ∨ s.call.breakpoint + s.bytes < 2 ^ 32
  progress : s.active = true → Progress s

theorem Inv.powerOn : Inv (.powerOn nv) where
  right := ⟨.nil _ _, nofun⟩
  total := rfl
  small := Nat.two_pow_pos 32
  bytes := .inl rfl
  progress := nofun

theorem Inv.start (h : Inv s) (hm : Meets s (.start o)) (hidle : s.active = false) : Inv (s.start o) := by
  rw [Dl.start]
  have htotal : s.totalSize < 2 ^ 32 := by
    rw [h.total]
    exact Nat.mod_lt _ (by decide)
  split_ifs with hv
  · refine { h with right := ⟨h.right.order, ?_⟩, progress := fun ha => absurd (hidle.symm.trans ha) nofun }
    intro r hr
    rcases List.mem_append.1 hr with hr | hr
    · exact h.right.returns r hr
    · obtain rfl := List.mem_singleton.1 hr
      exact ⟨.nil _ _, ⟨fun hr => absurd hr (show OTA_DOWNLOAD_URL_FAIL ≠ _ by decide), fun hl => absurd rfl hl.1⟩, nofun⟩
  · refine ⟨⟨.nil _ _, h.right.returns⟩, ?_, htotal, .inl rfl, fun _ => .none rfl (hm (by simpa using hv))⟩
    exact (Nat.mod_eq_of_lt htotal).symm

/-- A call that finishes has written the last block, and one that fails has not. -/
theorem Progress.last (h : Progress s) :
    (s.blockMore = false ∧ s.blockCurNum ≠ 0) ↔ LastWritten s.call.file s.call.breakpoint s.written := by
  cases h with
  | none written more => exact ⟨fun h => absurd (more.symm.trans h.1) nofun, fun h => absurd written h.1⟩
  | some size k pos start order written more num ends less =>
    exact ⟨fun h => absurd (more.symm.trans h.1) nofun, fun h => absurd less (Nat.not_lt.2 h.2)⟩
  | all written more num ends => exact ⟨fun _ => ⟨written, Nat.le_of_eq ends.symm⟩, fun _ => ⟨more, num⟩⟩

theorem Inv.leave {w : Write} {ret : ℤ} {saved : Option ℕ} (h : Inv s)
    (hret : ret = OTA_DOWNLOAD_FINISH ↔ LastWritten s.call.file s.call.breakpoint s.written)
    (hsaved : ∀ n, saved = some n → n = s.call.breakpoint + s.bytes) : Inv (s.leave w ret saved) := by
  refine { h with right := ⟨h.right.order, ?_⟩, progress := nofun }
  intro r hr
  rcases List.mem_append.1 hr with hr | hr
  · exact h.right.returns r hr
  · obtain rfl := List.mem_singleton.1 hr
    exact ⟨h.right.order, hret, hsaved⟩

theorem Inv.turn (h : Inv s) (hm : Meets s .turn) (hactive : s.active = true) : Inv s.turn := by
  have hlast := (h.progress hactive).last
  rw [Dl.turn]
  split_ifs with hloop hfin
  · refine ⟨⟨h.right.order, h.right.returns⟩, h.total, h.small, h.bytes, fun _ => ?_⟩
    cases h.progress hactive with
    | none written more => exact .none written more
    | some size k pos start order written more num ends less =>
      exact .some size k pos start order written more num ends less
    | all written more num ends => exact .all written more num ends
  · exact h.leave ⟨fun _ => hlast.1 hfin, fun _ => rfl⟩ nofun
  · refine h.leave ⟨fun h => ?_, fun hl => absurd (hlast.2 hl) hfin⟩ ?_
    · exact absurd h (show OTA_DOWNLOAD_FAILED ≠ _ by decide)
    · intro n hn
      have heq := hm (by simpa using hloop) hfin
      rw [← Option.some.inj hn, h.total, heq]
      rcases h.bytes with hb | hb
      · rw [Dl.bytes, hb, List.flatten_nil, List.length_nil, Nat.add_zero]
        exact Nat.mod_eq_of_lt (heq ▸ h.small)
      · exact Nat.mod_eq_of_lt hb

theorem Inv.same (h : Inv s) (hcall : s'.call = s.call) (hw : s'.written = s.written) (hr : s'.returns = s.returns)
    (ht : s'.totalSize = s.totalSize) (hmore : s'.blockMore = s.blockMore) (hnum : s'.blockCurNum = s.blockCurNum)
    (ha : s'.active = s.active) : Inv s' := by
  have hb : s'.bytes = s.bytes := by rw [Dl.bytes, hw, Dl.bytes]
  refine ⟨⟨by rw [hcall, hw]; exact h.right.order, by rw [hr]; exact h.right.returns⟩, ?_, ?_, ?_, ?_⟩
  · rw [ht, hcall, hb]
    exact h.total
  · rw [hcall]
    exact h.small
  · rw [hw, hcall, hb]
    exact h.bytes
  · intro hactive
    cases h.progress (ha ▸ hactive) with
    | none written more => exact .none (hw ▸ written) (hmore ▸ more)
    | some size k pos start order written more num ends less =>
      rw [← hw] at order written num
      rw [← hcall] at start order ends less
      rw [← hb] at ends less
      rw [← hnum] at num ends
      exact .some size k pos start order written (hmore ▸ more) num ends less
    | all written more num ends =>
      rw [← hcall, ← hb] at ends
      exact .all (hw ▸ written) (hmore ▸ more) (hnum ▸ num) ends

/-- The size of the blocks so far is that of a block which begins where they end. -/
theorem Progress.order (h : Progress s) (hpos : 0 < size) (hmore : s.blockMore = true)
    (hends : s.blockCurNum * size = s.call.breakpoint + s.bytes) :
    ∃ k, k * size = s.call.breakpoint ∧ InOrderBy s.call.file size k s.written ∧
      k + s.written.length = s.blockCurNum := by
  cases h with
  | none written =>
    refine ⟨s.blockCurNum, ?_, ?_, ?_⟩
    · rw [hends, Dl.bytes, written]
      rfl
    · rw [written]
      exact fun _ _ h => nomatch h
    · rw [written]
      rfl
  | some size' k pos start order written more num ends =>
    have hnum : 0 < s.blockCurNum := by
      rw [num]
      exact Nat.lt_of_lt_of_le (List.length_pos_of_ne_nil written) (Nat.le_add_left _ _)
    obtain rfl : size' = size := Nat.eq_of_mul_eq_mul_left hnum (ends.symm.trans hends.symm)
    exact ⟨k, start, order, num.symm⟩
  | all written more => exact nomatch hmore.symm.trans more

theorem Inv.accept {payload : List UInt8} (h : Inv s) (hactive : s.active = true) (hmore : s.blockMore = true)
    (hnum : b.num < 2 ^ 20) (hpos : 0 < b.size) (hle : b.size ≤ 2 ^ 11) (heq : b.num = s.blockCurNum)
    (hpay : payload = block s.call.file b.size b.num) (hhas : HasBlock s.call.file b.size b.num)
    (hbehind : b.more = true ↔ (b.num + 1) * b.size < s.call.file.length)
    (hends : b.num * b.size = s.call.breakpoint + s.bytes) (honly : b.more = false → b.num ≠ 0) :
    Inv (s.accept b payload) := by
  obtain ⟨k, start, order, hk⟩ := (h.progress hactive).order hpos hmore (heq ▸ hends)
  have hbytes : (s.accept b payload).bytes = s.bytes + payload.length := by simp [Dl.bytes, Dl.accept]
  have horder : InOrderBy s.call.file b.size k (s.written ++ [payload]) := by
    rw [hpay]
    exact order.snoc (hk.trans heq.symm) hhas
  have hlen : payload.length ≤ b.size := by
    rw [hpay, block_length]
    exact Nat.min_le_left _ _
  have hsum : s.call.breakpoint + (s.accept b payload).bytes = b.num * b.size + payload.length := by
    rw [hbytes, ← Nat.add_assoc, ← hends]
  refine ⟨⟨⟨b.size, k, hpos, start, horder⟩, h.right.returns⟩, ?_, h.small, .inr ?_, fun _ => ?_⟩
  · have htotal : (s.accept b payload).totalSize = (s.totalSize + payload.length) % 2 ^ 32 := rfl
    rw [htotal, h.total, hbytes, Nat.mod_add_mod, Nat.add_assoc]
    rfl
  · have hbound : b.num * b.size ≤ 2 ^ 20 * 2 ^ 11 := Nat.mul_le_mul (Nat.le_of_lt hnum) hle
    have hcall : (s.accept b payload).call = s.call := rfl
    rw [hcall, hsum]
    omega
  · cases hb : b.more with
    | true =>
      have hless := hbehind.1 hb
      have hwhole : payload.length = b.size := by rw [hpay, block_more hless]
      have hcur : (s.accept b payload).blockCurNum = b.num + 1 := by
        rw [Dl.accept, heq]
        simp only [hb, if_true]
        exact Nat.mod_eq_of_lt (by omega)
      have hend : s.call.breakpoint + (s.accept b payload).bytes = (b.num + 1) * b.size := by
        rw [hsum, hwhole, Nat.add_mul, Nat.one_mul]
      refine .some b.size k hpos start horder (List.concat_ne_nil _ _) ?_ ?_ ?_ ?_
      · rw [Dl.accept]
        simp only [hb, if_true]
        exact hmore
      · rw [hcur, heq, ← hk]
        simp [Dl.accept, Nat.add_assoc]
      · rw [hcur]
        exact hend
      · rw [← hend] at hless
        exact hless
    | false =>
      have hlast := block_last hhas fun hl => nomatch hb.symm.trans (hbehind.2 hl)
      refine .all (List.concat_ne_nil _ _) ?_ ?_ ?_
      · rw [Dl.accept]
        simp only [hb, Bool.false_eq_true, if_false]
      · rw [Dl.accept]
        simp only [hb, Bool.false_eq_true, if_false]
        exact heq ▸ honly hb
      · rw [← hpay, ← hsum] at hlast
        exact hlast

theorem Inv.retry (h : Inv s) : Inv s.retry := h.same rfl rfl rfl rfl rfl rfl rfl

theorem Inv.handler (h : Inv s) (hm : Meets s (.respond r)) : Inv (s.handler r) := by
  rw [Dl.handler]
  split_ifs with hcode
  · cases hp : parseOptionBlock r with
    | none => exact h.retry
    | some b =>
      have hs : Inv { s with blockSize := b.size } := h.same rfl rfl rfl rfl rfl rfl rfl
      simp only
      split_ifs with heq
      · obtain ⟨hactive, hmore, hans, hends, honly⟩ := hm b hcode hp heq
        obtain ⟨hpay, hhas, hbehind⟩ := hans b hcode hp
        obtain ⟨hnum, hpos, hle⟩ := parseOptionBlock_spec hp
        exact hs.accept hactive hmore hnum hpos hle heq hpay hhas hbehind hends honly
      · exact hs
  · exact h.retry

theorem Inv.step (h : Inv s) (hs : Lib.restrict Meets Step s a s') : Inv s' := by
  obtain ⟨hm, hs⟩ := hs
  cases a with
  | start o =>
    obtain ⟨hidle, rfl⟩ := hs
    exact h.start hm hidle
  | turn =>
    obtain ⟨hactive, rfl⟩ := hs
    exact h.turn hm hactive
  | respond r =>
    obtain ⟨-, rfl⟩ := hs
    exact h.handler hm

/-- **Block download**: in every run of downloads and responses whose steps meet what the statics
    need, the blocks written are in order, and every call returns what it has to. -/
theorem blocks_written_once (nv : Nv) (as : List Act) (s : Dl)
    (h : Lib.Run (Lib.restrict Meets Step) (.powerOn nv) as s) : s.Right := by
  have hinv : Inv s := h.keeps (fun hi hs => hi.step hs) Inv.powerOn
  exact hinv.right

/-- A file of 20 bytes in blocks of 16. -/
def twoBlocks : List UInt8 := List.replicate 20 0x61

def firstBlock : Response := ⟨0x45, [(23, [0x08])], List.replicate 16 0x61⟩
def secondBlock : Response := ⟨0x45, [(23, [0x10])], List.replicate 4 0x61⟩

theorem answers_firstBlock : Answers twoBlocks firstBlock := by
  intro b _ hb
  cases hb
  exact ⟨by decide, .inl rfl, by decide⟩

theorem answers_secondBlock : Answers twoBlocks secondBlock := by
  intro b _ hb
  cases hb
  exact ⟨by decide, .inr (by decide), by decide⟩

/-- The two blocks come, and the second request is lost once. -/
def inOrder : List Act :=
  [.start ⟨twoBlocks, [], true⟩, .turn, .respond firstBlock, .turn, .turn, .respond secondBlock, .turn]

theorem blocks_written_once_two :
    ∃ s, Lib.Run (Lib.restrict Meets Step) (.powerOn (.fresh fun _ => 0xff)) inOrder s ∧
      s.written = [List.replicate 16 0x61, List.replicate 4 0x61] ∧
      s.returns.map (·.ret) = [OTA_DOWNLOAD_FINISH] ∧ s.Right := by
  have hfirst : ∀ b, parseOptionBlock firstBlock = some b → b = ⟨0, true, 16⟩ := fun b hb => (Option.some.inj hb).symm
  have hsecond : ∀ b, parseOptionBlock secondBlock = some b → b = ⟨1, false, 16⟩ := fun b hb => (Option.some.inj hb).symm
  have hrun : Lib.Run (Lib.restrict Meets Step) (.powerOn (.fresh fun _ => 0xff)) inOrder
      (inOrder.foldl (fun s a => match a with | .start o => s.start o | .turn => s.turn | .respond r => s.handler r)
        (.powerOn (.fresh fun _ => 0xff))) := by
    refine .cons ⟨fun _ => rfl, rfl, rfl⟩ (.cons ⟨nofun, rfl, rfl⟩ (.cons ⟨?_, ⟨_, List.mem_cons_self, answers_firstBlock⟩, rfl⟩
      (.cons ⟨nofun, rfl, rfl⟩ (.cons ⟨nofun, rfl, rfl⟩ (.cons ⟨?_, ⟨_, List.mem_cons_self, answers_secondBlock⟩, rfl⟩
        (.cons ⟨?_, rfl, rfl⟩ .nil))))))
    · intro b _ hb _
      obtain rfl := hfirst b hb
      exact ⟨rfl, rfl, answers_firstBlock, rfl, nofun⟩
    · intro b _ hb _
      obtain rfl := hsecond b hb
      exact ⟨rfl, rfl, answers_secondBlock, rfl, nofun⟩
    · exact fun _ hn => absurd ⟨rfl, nofun⟩ hn
  exact ⟨_, hrun, rfl, rfl, blocks_written_once _ _ _ hrun⟩

/-! ## A file of one block -/

def onlyBlock : Response := ⟨0x45, [(23, [0x00])], [0x61]⟩

theorem answers_onlyBlock : Answers [0x61] onlyBlock := by
  intro b _ hb
  cases hb
  exact ⟨by decide, .inl rfl, by decide⟩

theorem only_block_fails : ¬ ∀ nv as s, Lib.Run Step (.powerOn nv) as s → s.Right := by
  intro h
  have hright := h (.fresh fun _ => 0xff) [.start ⟨[0x61], [], true⟩, .turn, .respond onlyBlock, .turn] _
    (.cons ⟨rfl, rfl⟩ (.cons ⟨rfl, rfl⟩ (.cons ⟨⟨_, List.mem_cons_self, answers_onlyBlock⟩, rfl⟩
      (.cons ⟨rfl, rfl⟩ .nil))))
  have hret := (hright.returns _ List.mem_cons_self).finish.2 ⟨List.cons_ne_nil _ _, by decide⟩
  exact absurd hret (by decide)

end FotaCoap
