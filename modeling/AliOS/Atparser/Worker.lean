/-
  `at_worker` of `atparser.c`: the buffer that it fills byte by byte, the prefixes
  and the responses that it looks for there, and the tasks that wait for them.

  An index outside of `buf`, or a write outside of the response buffer of a task, is
  `none` here.  `worker_inside_iff` says in which runs there is none: the worker
  looks for the end of a response, and for the delimiter, also where less has come
  than they are long.
-/
import AliOS.Lib.Cells
import AliOS.Lib.Trans

namespace Atparser

open Lib

abbrev Bytes := List UInt8

/-! ## The data -/

def recvBufferSize : ℕ := 512

def recvStatusOk : Bytes := [79, 75, 13, 10]

def recvStatusError : Bytes := [69, 82, 82, 79, 82, 13, 10]

def oobMax : ℕ := 5

def prefixMax : ℕ := 32

/-- An entry of `_oobs`: its prefix with the NUL fits. -/
structure Oob where
  text : Bytes
  length_lt : text.length < prefixMax

/-- A task: the buffer for its response, the bytes in it, and its size. -/
structure AtTask where
  rsp : ℕ → UInt8
  rspOffset : ℕ
  rspLen : ℕ

/-- The locals of the worker, and what it reads of `at`. -/
structure AtWorker where
  buf : ℕ → UInt8
  offset : ℕ
  oobs : List Oob
  recvDelimiter : Bytes
  taskL : List AtTask

def atOob (oobs : List Oob) (text : Bytes) : List Oob :=
  if oobMax ≤ oobs.length then oobs
  else if h : text.length < prefixMax then oobs ++ [⟨text, h⟩] else oobs

/-! ## Accesses -/

/-- An index into `buf`. -/
def index (i : ℤ) : Option ℕ := if 0 ≤ i ∧ i < recvBufferSize then some i.toNat else none

/-- `buf[i] = c`. -/
def store (buf : ℕ → UInt8) (i : ℕ) (c : UInt8) : Option (ℕ → UInt8) :=
  (index i).map fun i => memcpy buf i (fun _ => c) 1

/-- `memset(buf, 0, n)`. -/
def memset (buf : ℕ → UInt8) (n : ℕ) : Option (ℕ → UInt8) :=
  if n ≤ recvBufferSize then some (memcpy buf 0 (fun _ => 0) n) else none

/-- `memcmp(s, buf, n) == 0` for the `n` bytes `s`. -/
def memcmp (buf : ℕ → UInt8) (s : Bytes) : Option Bool :=
  if s.length ≤ recvBufferSize then some (slice buf 0 s.length = s) else none

/-- `strcmp(buf + i, s) == 0`: up to the first difference, or the NUL behind `s`. -/
def strcmp (buf : ℕ → UInt8) : ℤ → Bytes → Option Bool
  | i, [] => (index i).map fun i => buf i = 0
  | i, c :: s => do
    let j ← index i
    if buf j = c then strcmp buf (i + 1) s else some false

/-- `memcpy(tsk->rsp + tsk->rsp_offset, buf, n)` and `tsk->rsp_offset += n`. -/
def AtTask.copy (tsk : AtTask) (buf : ℕ → UInt8) (n : ℕ) : Option AtTask :=
  if n ≤ recvBufferSize ∧ tsk.rspOffset + n ≤ tsk.rspLen then
    some { tsk with
      rsp := memcpy tsk.rsp tsk.rspOffset buf n
      rspOffset := (tsk.rspOffset + n) % 2 ^ 32 }
  else none

/-- `memset(tsk->rsp, 0, tsk->rsp_len)` and `strcpy(tsk->rsp, RECV_STATUS_ERROR)`. -/
def AtTask.error (tsk : AtTask) : Option AtTask :=
  if recvStatusError.length + 1 ≤ tsk.rspLen then
    some { tsk with
      rsp := memcpy (memcpy tsk.rsp 0 (fun _ => 0) tsk.rspLen) 0 (fun i => recvStatusError.getD i 0)
        (recvStatusError.length + 1) }
  else none

/-! ## A turn of the worker -/

/-- The loop over `_oobs`. -/
def checkOobs (buf : ℕ → UInt8) (offset : ℕ) : List Oob → Option ((ℕ → UInt8) × ℕ)
  | [] => some (buf, offset)
  | oob :: oobs =>
    if offset = oob.text.length then do
      let same ← memcmp buf oob.text
      if same then
        let buf ← memset buf offset
        checkOobs buf 0 oobs
      else checkOobs buf offset oobs
    else checkOobs buf offset oobs

/-- The response ends in `OK` or in `ERROR`. -/
def statusEnds (buf : ℕ → UInt8) (offset : ℕ) : Option Bool := do
  let ok ← strcmp buf (offset - recvStatusOk.length) recvStatusOk
  if ok then some true else strcmp buf (offset - recvStatusError.length) recvStatusError

/-- The buffer is full, or ends in the delimiter. -/
def lineEnds (delim : Bytes) (buf : ℕ → UInt8) (offset : ℕ) : Option Bool :=
  if recvBufferSize - 2 ≤ offset then some true else strcmp buf (offset - delim.length) delim

/-- What is done for the first task. -/
def handleTask (delim : Bytes) (buf : ℕ → UInt8) (offset : ℕ) (tsk : AtTask) : Option AtTask := do
  let done ← statusEnds buf offset
  if done then tsk.copy buf offset
  else
    let ends ← lineEnds delim buf offset
    if ends then
      if (tsk.rspOffset + offset) % 2 ^ 32 < tsk.rspLen then tsk.copy buf offset else tsk.error
    else some tsk

/-- From `check_buffer` on. -/
def checkBuffer (delim : Bytes) (buf : ℕ → UInt8) (offset : ℕ) : Option ((ℕ → UInt8) × ℕ) := do
  let ends ← lineEnds delim buf offset
  if ends then (memset buf offset).map fun buf => (buf, 0) else some (buf, offset)

/-- The tasks, after the first one, if there is one, was looked at. -/
def handleTasks (delim : Bytes) (buf : ℕ → UInt8) (offset : ℕ) : List AtTask → Option (List AtTask)
  | [] => some []
  | tsk :: tasks => (handleTask delim buf offset tsk).map fun tsk => tsk :: tasks

/-- One turn of the loop of `at_worker`, for the byte that was read.  An assertion
    fails where the buffer has no room for it. -/
def turn (s : AtWorker) (c : UInt8) : Option AtWorker :=
  if recvBufferSize ≤ s.offset + 1 then none
  else do
    let buf ← store s.buf s.offset c
    let buf ← store buf (s.offset + 1) 0
    let (buf, offset) ← checkOobs buf (s.offset + 1) s.oobs
    let taskL ← handleTasks s.recvDelimiter buf offset s.taskL
    let (buf, offset) ← checkBuffer s.recvDelimiter buf offset
    some { s with buf := buf, offset := offset, taskL := taskL }

/-! ## Runs -/

/-- What happens between two turns, in any order, and the bytes that the worker gets
    (a callback reads its own from the UART).  A command that is sent, or a prefix that
    is registered, in the middle of a turn was there before, or is one of the next. -/
inductive AtEvent
  | byte (c : UInt8)
  | oob (text : Bytes)
  | delimiter (delim : Bytes)
  | send (rsp : ℕ → UInt8) (rspLen : ℕ)
  | done (i : ℕ)

def step (s : AtWorker) : AtEvent → Option AtWorker
  | .byte c => turn s c
  | .oob text => some { s with oobs := atOob s.oobs text }
  | .delimiter delim => some { s with recvDelimiter := delim }
  | .send rsp rspLen => some { s with taskL := s.taskL ++ [⟨rsp, 0, rspLen⟩] }
  | .done i => some { s with taskL := s.taskL.eraseIdx i }

/-- The worker when it starts. -/
def start (delim : Bytes) : AtWorker := ⟨fun _ => 0, 0, [], delim, []⟩

/-! ## Turns that stay inside -/

/-- What stands in the buffer with the new byte. -/
def AtWorker.line (s : AtWorker) (c : UInt8) : Bytes := slice s.buf 0 s.offset ++ [c]

/-- Nothing of it is kept when it is a registered prefix. -/
def kept (oobs : List Oob) (l : Bytes) : Bytes := if oobs.any fun oob => oob.text = l then [] else l

/-- There is room for what is written for the task: all of it at the end of a
    response; at the end of a line, unless it does not fit, and then there is room
    for `ERROR`. -/
def RoomFor (delim l : Bytes) (tsk : AtTask) : Prop :=
  if recvStatusOk <:+ l ∨ recvStatusError <:+ l then tsk.rspOffset + l.length ≤ tsk.rspLen
  else recvBufferSize - 2 ≤ l.length ∨ delim <:+ l →
    if (tsk.rspOffset + l.length) % 2 ^ 32 < tsk.rspLen then tsk.rspOffset + l.length ≤ tsk.rspLen
    else recvStatusError.length + 1 ≤ tsk.rspLen

/-- The bytes that are kept are as many as the delimiter has, or the buffer is full;
    and while a task waits they are as many as `ERROR` has, unless they end in `OK`,
    and there is room for what is written for the task. -/
structure TurnInside (s : AtWorker) (l : Bytes) : Prop where
  delimiter : l.length < recvBufferSize - 2 → s.recvDelimiter.length ≤ l.length
  status : ∀ tsk ∈ s.taskL.head?, recvStatusOk <:+ l ∨ recvStatusError.length ≤ l.length
  room : ∀ tsk ∈ s.taskL.head?, RoomFor s.recvDelimiter l tsk

/-- The condition on a step of a run. -/
def StepInside (s : AtWorker) : AtEvent → Prop
  | .byte c => TurnInside s (kept s.oobs (s.line c))
  | _ => True

/-- The buffer has the line `l`, with a NUL behind it. -/
structure Line (buf : ℕ → UInt8) (l : Bytes) : Prop where
  holds : Holds buf 0 l
  ends : buf l.length = 0
  fits : l.length < recvBufferSize

variable {buf buf' : ℕ → UInt8} {l delim text : Bytes} {i n offset : ℕ} {c : UInt8} {s s' : AtWorker} {tsk tsk' : AtTask}
  {oobs : List Oob}

/-! ## Accesses to the line -/

theorem index_nat (h : i < recvBufferSize) : index i = some i := by
  rw [index, if_pos ⟨by omega, by omega⟩, Int.toNat_natCast]

theorem store_eq (h : i < recvBufferSize) : store buf i c = some (memcpy buf i (fun _ => c) 1) := by
  rw [store, index_nat h, Option.map_some]

theorem strcmp_nat (buf : ℕ → UInt8) (h : i + text.length < recvBufferSize) :
    ∃ b, strcmp buf i text = some b ∧ (b = true ↔ Holds buf i text ∧ buf (i + text.length) = 0) := by
  induction text generalizing i with
  | nil =>
    refine ⟨decide (buf i = 0), ?_, ?_⟩
    · rw [strcmp, index_nat (by simpa using h), Option.map_some]
    · simp [Holds]
  | cons c text ih =>
    rw [List.length_cons] at h
    obtain ⟨b, hb, hiff⟩ := ih (i := i + 1) (by omega)
    simp only [strcmp, Option.bind_eq_bind, index_nat (show i < recvBufferSize by omega), Option.bind_some]
    by_cases hc : buf i = c
    · refine ⟨b, ?_, ?_⟩
      · exact (if_pos hc).trans hb
      · rw [hiff, holds_cons, List.length_cons, Nat.add_assoc, Nat.add_comm 1]
        exact ⟨fun h => ⟨⟨hc, h.1⟩, h.2⟩, fun h => ⟨h.1.2, h.2⟩⟩
    · refine ⟨false, if_neg hc, ?_⟩
      rw [holds_cons]
      exact iff_of_false (by decide) fun h => hc h.1.1

theorem strcmp_neg {k : ℤ} (h : k < 0) : strcmp buf k text = none := by
  have hk : index k = none := if_neg fun h' => absurd h'.1 (not_le.2 h)
  cases text with
  | nil => rw [strcmp, hk, Option.map_none]
  | cons c text => rw [strcmp, hk]; rfl

theorem Line.holds_end (h : Line buf l) (hle : text.length ≤ l.length) :
    Holds buf (l.length - text.length) text ↔ text <:+ l := by
  have hsplit := h.holds
  rw [← List.take_append_drop (l.length - text.length) l, holds_append, List.length_take, Nat.zero_add,
    Nat.min_eq_left (Nat.sub_le ..)] at hsplit
  have hdrop := hsplit.2
  rw [Holds, List.length_drop, Nat.sub_sub_self hle] at hdrop
  rw [Holds, hdrop, List.suffix_iff_eq_drop]
  exact eq_comm

/-- The end of the line is compared with as many bytes; where there are less, the
    access is before the buffer. -/
theorem Line.strcmp_end (h : Line buf l) (text : Bytes) :
    strcmp buf (l.length - text.length) text = if text.length ≤ l.length then some (decide (text <:+ l)) else none := by
  split_ifs with hle
  · have hi : ((l.length : ℤ) - text.length) = ((l.length - text.length : ℕ) : ℤ) := by omega
    have hadd : l.length - text.length + text.length = l.length := by omega
    obtain ⟨b, hb, hiff⟩ := strcmp_nat buf (hadd ▸ h.fits)
    rw [hadd, h.holds_end hle, and_iff_left h.ends] at hiff
    rw [hi, hb, Option.some.injEq, Bool.eq_iff_iff, hiff, decide_eq_true_iff]
  · exact strcmp_neg (by omega)

theorem Line.nil (h : buf 0 = 0) : Line buf [] := ⟨rfl, h, by decide⟩

theorem line_store (h : s.offset + 1 < recvBufferSize) :
    ∃ buf0 buf, store s.buf s.offset c = some buf0 ∧ store buf0 (s.offset + 1) 0 = some buf ∧
      Line buf (s.line c) ∧ (s.line c).length = s.offset + 1 := by
  have hlen : (s.line c).length = s.offset + 1 := by
    simp [AtWorker.line]
  refine ⟨_, _, store_eq (by omega), store_eq h, ⟨?_, ?_, ?_⟩, hlen⟩
  · rw [Holds, hlen, slice_memcpy_disjoint (by omega), slice_append, slice_memcpy_disjoint (by omega), Nat.zero_add,
      slice_memcpy_same]
    rfl
  · rw [hlen]
    exact memcpy_in (by omega) (by omega)
  · rw [hlen]
    exact h

/-! ## The prefixes -/

theorem kept_nil (oobs : List Oob) : kept oobs [] = [] := ite_self _

theorem Line.memset_eq (h : Line buf l) : ∃ buf', memset buf l.length = some buf' ∧ Line buf' [] := by
  refine ⟨_, if_pos h.fits.le, Line.nil ?_⟩
  by_cases h0 : 0 < l.length
  · exact memcpy_in (by omega) (by omega)
  · have hl : l.length = 0 := by omega
    rw [hl, memcpy_zero]
    rw [← hl]
    exact h.ends

theorem Line.memcmp_eq (h : Line buf l) (hlen : l.length = text.length) : memcmp buf text = some (decide (text = l)) := by
  have hfits := h.fits
  have hslice : slice buf 0 text.length = l := hlen ▸ h.holds
  rw [memcmp, if_pos (by omega), hslice]
  congr 2
  exact propext eq_comm

theorem checkOobs_eq (h : Line buf l) (oobs : List Oob) :
    ∃ buf', checkOobs buf l.length oobs = some (buf', (kept oobs l).length) ∧ Line buf' (kept oobs l) := by
  induction oobs generalizing buf l with
  | nil => exact ⟨buf, rfl, h⟩
  | cons oob oobs ih =>
    by_cases heq : oob.text = l
    · have hkept : kept (oob :: oobs) l = kept oobs [] := by
        rw [kept_nil, kept, List.any_cons, decide_eq_true heq]
        rfl
      obtain ⟨buf1, hset, hline⟩ := h.memset_eq
      rw [hkept, checkOobs, if_pos (by rw [heq]), h.memcmp_eq (by rw [heq]), decide_eq_true heq]
      simp only [Option.bind_eq_bind, Option.bind_some, if_true, hset]
      exact ih hline
    · have hkept : kept (oob :: oobs) l = kept oobs l := by
        rw [kept, List.any_cons, decide_eq_false heq, Bool.false_or]
        rfl
      rw [hkept, checkOobs]
      split_ifs with hlen
      · rw [h.memcmp_eq hlen, decide_eq_false heq]
        exact ih h
      · exact ih h

/-! ## The responses -/

theorem Line.statusEnds_eq (h : Line buf l) :
    statusEnds buf l.length =
      if recvStatusOk <:+ l then some true
      else if recvStatusError.length ≤ l.length then some (decide (recvStatusError <:+ l)) else none := by
  rw [statusEnds, h.strcmp_end, h.strcmp_end]
  by_cases hok : recvStatusOk <:+ l
  · rw [if_pos hok.length_le, if_pos hok, decide_eq_true hok]
    rfl
  · rw [if_neg hok, decide_eq_false hok]
    by_cases h4 : recvStatusOk.length ≤ l.length
    · rw [if_pos h4]
      rfl
    · have h7 : ¬ recvStatusError.length ≤ l.length := fun h7 => h4 (le_trans (by decide) h7)
      rw [if_neg h4, if_neg h7]
      rfl

theorem Line.lineEnds_eq (h : Line buf l) (delim : Bytes) :
    lineEnds delim buf l.length =
      if recvBufferSize - 2 ≤ l.length then some true
      else if delim.length ≤ l.length then some (decide (delim <:+ l)) else none := by
  rw [lineEnds, h.strcmp_end]

theorem AtTask.copy_isSome_iff (hn : n ≤ recvBufferSize) :
    (tsk.copy buf n).isSome ↔ tsk.rspOffset + n ≤ tsk.rspLen := by
  unfold AtTask.copy
  split_ifs with h
  · exact iff_of_true rfl h.2
  · exact iff_of_false (by simp) fun hle => h ⟨hn, hle⟩

theorem AtTask.error_isSome_iff : tsk.error.isSome ↔ recvStatusError.length + 1 ≤ tsk.rspLen := by
  unfold AtTask.error
  split_ifs with h
  · exact iff_of_true rfl h
  · exact iff_of_false (by simp) h

theorem Line.handleTask_isSome_iff (h : Line buf l) (hdelim : l.length < recvBufferSize - 2 → delim.length ≤ l.length) :
    (handleTask delim buf l.length tsk).isSome ↔
      (recvStatusOk <:+ l ∨ recvStatusError.length ≤ l.length) ∧ RoomFor delim l tsk := by
  have hends : lineEnds delim buf l.length = some (decide (recvBufferSize - 2 ≤ l.length ∨ delim <:+ l)) := by
    rw [h.lineEnds_eq]
    by_cases hfull : recvBufferSize - 2 ≤ l.length
    · rw [if_pos hfull, decide_eq_true (.inl hfull)]
    · rw [if_neg hfull, if_pos (hdelim (by omega))]
      simp [hfull]
  rw [handleTask, h.statusEnds_eq, hends, RoomFor]
  by_cases hok : recvStatusOk <:+ l
  · have hor : recvStatusOk <:+ l ∨ recvStatusError <:+ l := .inl hok
    rw [if_pos hok, if_pos hor]
    simp only [Option.bind_eq_bind, Option.bind_some, if_true, AtTask.copy_isSome_iff h.fits.le, hok, true_or, true_and]
  by_cases h7 : recvStatusError.length ≤ l.length
  swap
  · rw [if_neg hok, if_neg h7]
    exact iff_of_false (by simp) fun hor => hor.1.elim hok h7
  rw [if_neg hok, if_pos h7]
  simp only [Option.bind_eq_bind, Option.bind_some, hok, false_or, h7, true_and]
  by_cases herr : recvStatusError <:+ l
  · simp only [herr, decide_true, if_true, AtTask.copy_isSome_iff h.fits.le]
  simp only [herr, decide_false, Bool.false_eq_true, if_false, decide_eq_true_eq]
  by_cases hend : recvBufferSize - 2 ≤ l.length ∨ delim <:+ l
  · rw [if_pos hend]
    split_ifs with hroom
    · rw [AtTask.copy_isSome_iff h.fits.le]
      exact ⟨fun h _ => h, fun h => h hend⟩
    · rw [AtTask.error_isSome_iff]
      exact ⟨fun h _ => h, fun h => h hend⟩
  · rw [if_neg hend]
    exact iff_of_true rfl fun h => absurd h hend

theorem Line.checkBuffer_isSome_iff (h : Line buf l) :
    (checkBuffer delim buf l.length).isSome ↔ (l.length < recvBufferSize - 2 → delim.length ≤ l.length) := by
  rw [checkBuffer, h.lineEnds_eq]
  obtain ⟨buf', hset, -⟩ := h.memset_eq
  split_ifs with hfull hle
  · simp [hset, hfull]
  · simp [hset, hle, apply_ite]
  · exact iff_of_false (by simp) fun h => hle (h (by omega))

theorem Line.checkBuffer_offset (h : Line buf l) (hbuf : checkBuffer delim buf l.length = some (buf', offset)) :
    offset < recvBufferSize - 2 := by
  rw [checkBuffer, h.lineEnds_eq] at hbuf
  obtain ⟨ends, hends, hbuf⟩ := Option.bind_eq_some_iff.1 hbuf
  cases ends with
  | true =>
    obtain ⟨buf, -, hbuf⟩ := Option.map_eq_some_iff.1 hbuf
    cases hbuf
    decide
  | false =>
    cases hbuf
    by_contra hle
    rw [if_pos (by omega)] at hends
    cases hends

/-! ## Turns -/

theorem turn_eq (h : s.offset < recvBufferSize - 2) :
    ∃ buf, Line buf (kept s.oobs (s.line c)) ∧ turn s c =
      (handleTasks s.recvDelimiter buf (kept s.oobs (s.line c)).length s.taskL).bind fun taskL =>
        (checkBuffer s.recvDelimiter buf (kept s.oobs (s.line c)).length).bind fun r =>
          some { s with buf := r.1, offset := r.2, taskL := taskL } := by
  have hfits : s.offset + 1 < recvBufferSize := by
    unfold recvBufferSize at h ⊢
    omega
  obtain ⟨buf0, buf1, hstore, hend, hline1, hlen⟩ := line_store (c := c) hfits
  obtain ⟨buf, hoobs, hline⟩ := checkOobs_eq hline1 s.oobs
  rw [hlen] at hoobs
  refine ⟨buf, hline, ?_⟩
  rw [turn, if_neg (by omega)]
  simp only [Option.bind_eq_bind, hstore, hend, hoobs, Option.bind_some]

theorem Line.handleTasks_isSome_iff {tasks : List AtTask} (h : Line buf l)
    (hdelim : l.length < recvBufferSize - 2 → delim.length ≤ l.length) :
    (handleTasks delim buf l.length tasks).isSome ↔ ∀ tsk ∈ tasks.head?,
      (recvStatusOk <:+ l ∨ recvStatusError.length ≤ l.length) ∧ RoomFor delim l tsk := by
  cases tasks with
  | nil => exact iff_of_true rfl nofun
  | cons tsk tasks =>
    rw [handleTasks, Option.isSome_map, h.handleTask_isSome_iff hdelim]
    simp

theorem turn_isSome_iff (h : s.offset < recvBufferSize - 2) :
    (turn s c).isSome ↔ TurnInside s (kept s.oobs (s.line c)) := by
  obtain ⟨buf, hline, hturn⟩ := turn_eq (c := c) h
  rw [hturn]
  constructor
  · intro hsome
    obtain ⟨r, hr⟩ := Option.isSome_iff_exists.1 hsome
    obtain ⟨taskL, htasks, hr⟩ := Option.bind_eq_some_iff.1 hr
    obtain ⟨b, hbuf, -⟩ := Option.bind_eq_some_iff.1 hr
    have hdelim := hline.checkBuffer_isSome_iff.1 (Option.isSome_of_eq_some hbuf)
    have htask := (hline.handleTasks_isSome_iff hdelim).1 (Option.isSome_of_eq_some htasks)
    exact ⟨hdelim, fun tsk h => (htask tsk h).1, fun tsk h => (htask tsk h).2⟩
  · rintro ⟨hdelim, hstatus, hroom⟩
    obtain ⟨b, hbuf⟩ := Option.isSome_iff_exists.1 (hline.checkBuffer_isSome_iff.2 hdelim)
    obtain ⟨taskL, htasks⟩ := Option.isSome_iff_exists.1
      ((hline.handleTasks_isSome_iff hdelim).2 fun tsk h => ⟨hstatus tsk h, hroom tsk h⟩)
    rw [htasks, Option.bind_some, hbuf]
    rfl

/-- There is always room for the next byte, so that the assertion never fails. -/
theorem turn_offset (h : s.offset < recvBufferSize - 2) (hturn : turn s c = some s') :
    s'.offset < recvBufferSize - 2 := by
  obtain ⟨buf, hline, heq⟩ := turn_eq (c := c) h
  rw [heq] at hturn
  obtain ⟨taskL, -, hturn⟩ := Option.bind_eq_some_iff.1 hturn
  obtain ⟨r, hbuf, hturn⟩ := Option.bind_eq_some_iff.1 hturn
  cases hturn
  exact hline.checkBuffer_offset hbuf

/-! ## Runs -/

variable {e : AtEvent}

theorem step_offset (h : s.offset < recvBufferSize - 2) (hstep : step s e = some s') :
    s'.offset < recvBufferSize - 2 := by
  cases e with
  | byte c => exact turn_offset h hstep
  | oob text => cases hstep; exact h
  | delimiter delim => cases hstep; exact h
  | send rsp rspLen => cases hstep; exact h
  | done i => cases hstep; exact h

theorem step_isSome_iff (h : s.offset < recvBufferSize - 2) : (step s e).isSome ↔ StepInside s e := by
  cases e with
  | byte c => exact turn_isSome_iff h
  | oob text => exact iff_of_true rfl trivial
  | delimiter delim => exact iff_of_true rfl trivial
  | send rsp rspLen => exact iff_of_true rfl trivial
  | done i => exact iff_of_true rfl trivial

/-- **The worker stays inside its buffers** in a run exactly if every turn of the run
    finds as much in the buffer as it looks at, and room for what it writes. -/
theorem worker_inside_iff (delim : Bytes) (es : List AtEvent) :
    (es.foldlM step (start delim)).isSome ↔
      ∀ before e after s, es = before ++ e :: after → before.foldlM step (start delim) = some s → StepInside s e :=
  foldlM_isSome_iff (J := fun s => s.offset < recvBufferSize - 2) step_offset step_isSome_iff
    (show 0 < recvBufferSize - 2 by decide)

/-- The first byte of a response, behind which the worker looks for its end; and a
    response of nine bytes for a buffer of four. -/
theorem worker_leaves :
    ([.send (fun _ => 0) 64, .byte 79].foldlM step (start [13, 10])).isNone = true ∧
    (([43, 65, 66, 67, 68, 79, 75, 13].map AtEvent.byte).foldlM step (start [10])).isSome = true ∧
    (([43, 65, 66, 67, 68, 79, 75, 13].map AtEvent.byte ++ [AtEvent.send (fun _ => 0) 4, AtEvent.byte 10]).foldlM step
      (start [10])).isNone = true := by
  refine ⟨by decide, by decide, by decide⟩

end Atparser
