/-
  Responses of an HTTP server with a body of a given length or in chunks, what the scans of the
  client find in their lines, and what is asked of the reads that they come in.
-/
import AliOS.Httpc.Recv
import Mathlib.Data.List.TakeWhile

namespace Httpc

/-- Bytes of a line. -/
def Text (bs : Bytes) : Prop := ∀ c ∈ bs, c ≠ cr ∧ c ≠ lf ∧ c ≠ 0

def Digits (bs : Bytes) : Prop := bs ≠ [] ∧ ∀ c ∈ bs, isDigit c = true

def lower (bs : Bytes) : Bytes := bs.map fun c => if 65 ≤ c ∧ c ≤ 90 then c + 32 else c

/-- A line with its end. -/
def line (bs : Bytes) : Bytes := bs ++ [cr, lf]

structure Header where
  name : Bytes
  ows : Bytes
  value : Bytes

def Header.text (h : Header) : Bytes := h.name ++ 58 :: (h.ows ++ h.value)

structure Header.Wf (h : Header) : Prop where
  name : h.name ≠ []
  text : Text h.text
  colon : 58 ∉ h.name
  ows : ∀ c ∈ h.ows, c = 32 ∨ c = 9
  value : ∀ c ∈ h.value.head?, isSpace c = false
  short : (line h.text).length < HTTPCLIENT_CHUNK_SIZE

/-- A chunk: its size, what may stand behind it, and the bytes. -/
structure Chunk where
  size : Bytes
  ext : Bytes
  payload : Bytes

def Chunk.text (c : Chunk) : Bytes := c.size ++ c.ext

structure Chunk.Wf (c : Chunk) : Prop where
  hex : c.size ≠ [] ∧ ∀ d ∈ c.size, isHex d = true
  size : hexadecimal c.size = c.payload.length
  ext : ∀ d ∈ c.ext.head?, d = 59 ∨ d = 32 ∨ d = 9
  text : Text c.ext
  -- with a byte in front of the line and one behind it
  short : (line c.text).length + 2 < HTTPCLIENT_CHUNK_SIZE

/-- The body, by its length or in chunks with a last one and a trailer. -/
inductive Body
  | length (content : Bytes)
  | chunked (chunks : List Chunk) (last : Chunk) (trailer : List Bytes)

def Body.content : Body → Bytes
  | .length content => content
  | .chunked chunks _ _ => chunks.flatMap (·.payload)

def Chunk.bytes (c : Chunk) : Bytes := line c.text ++ line c.payload

def lastBytes (last : Chunk) (trailer : List Bytes) : Bytes :=
  line last.text ++ trailer.flatMap line ++ line []

def Body.bytes : Body → Bytes
  | .length content => content
  | .chunked chunks last trailer => chunks.flatMap (·.bytes) ++ lastBytes last trailer

/-- A response; one header has the framing of the body. -/
structure Response where
  major : Bytes
  minor : Bytes
  code : Bytes
  reason : Bytes
  pre : List Header
  framing : Header
  post : List Header
  body : Body

def Response.status (r : Response) : Bytes :=
  http ++ (r.major ++ 46 :: (r.minor ++ 32 :: (r.code ++ 32 :: r.reason)))

def Response.headers (r : Response) : List Header := r.pre ++ r.framing :: r.post

/-- What is in front of the body. -/
def Response.head (r : Response) : Bytes :=
  line r.status ++ r.headers.flatMap (fun h => line h.text) ++ line []

def Response.bytes (r : Response) : Bytes := r.head ++ r.body.bytes

/-- A header that says nothing about the framing. -/
def Header.Other (h : Header) : Prop :=
  lower h.name ≠ lower contentLength ∧ lower h.name ≠ lower transferEncoding

/-- The framing that a header gives. -/
def Header.Frames (h : Header) : Body → Prop
  | .length content => lower h.name = lower contentLength ∧ Digits h.value ∧ decimal h.value = content.length
  | .chunked _ _ _ => lower h.name = lower transferEncoding ∧ lower h.value = chunkedLower

structure Response.Wf (r : Response) : Prop where
  major : Digits r.major
  minor : Digits r.minor
  code : Digits r.code
  reason : Text r.reason
  short : (line r.status).length < HTTPCLIENT_CHUNK_SIZE
  headers : ∀ h ∈ r.headers, h.Wf
  pre : ∀ h ∈ r.pre, h.Other
  post : ∀ h ∈ r.post, h.Other
  framing : r.framing.Frames r.body
  chunks : ∀ {chunks last trailer}, r.body = .chunked chunks last trailer →
    (∀ c ∈ chunks, c.Wf ∧ c.payload ≠ []) ∧ last.Wf ∧ last.payload = []

/-! ## Conditions -/

/-- A read ends at an offset of the response. -/
def Cut (reads : List Bytes) (k : ℕ) : Prop := ∃ done, done <+: reads ∧ done.flatten.length = k

/-- Of chunks from offset `pos`, with `count` bytes in `response_buf`: no read ends in a payload or
    right behind it, and no payload runs over the end of `response_buf`; one that fills it is read
    with nothing behind it but the end of its chunk, or a part of that. -/
def ChunksFit (reads : List Bytes) (R : ℕ) : ℕ → ℕ → List Chunk → Prop
  | _, _, [] => True
  | pos, count, c :: cs =>
    let start := pos + (line c.text).length
    let stop := start + c.payload.length
    (∀ k, Cut reads k → start < k → stop < k) ∧
      (count + c.payload.length < R - 1 ∧ ChunksFit reads R (stop + 2) (count + c.payload.length) cs ∨
        count + c.payload.length = R - 1 ∧ (∃ k, Cut reads k ∧ stop < k ∧ k ≤ stop + 2) ∧
          ChunksFit reads R (stop + 2) 0 cs)

/-- The read that brings the end of the headers brings no more of the body than `response_buf` takes. -/
def Fits (r : Response) (reads : List Bytes) (R : ℕ) : Prop :=
  match r.body with
  | .length _ => ∃ k, Cut reads k ∧ r.head.length ≤ k ∧ k ≤ r.head.length + (R - 1)
  | .chunked chunks _ _ => ChunksFit reads R r.head.length 0 chunks

/-! ## Lines -/

variable {l t d rest : Bytes}

theorem cstr_text (h : ∀ c ∈ l, c ≠ 0) : cstr (l ++ t) = l ++ cstr t :=
  List.takeWhile_append_of_pos (by simpa using h)

/-- What is left of the end of a chunk where the next header is read. -/
def Left (bs : Bytes) : Prop := bs = [] ∨ bs = [lf]

theorem Left.text {bs : Bytes} (h : Left bs) : ∀ x ∈ bs, x ≠ cr ∧ x ≠ 0 := by
  rcases h with rfl | rfl <;> simp [cr, lf]

theorem Left.length {bs : Bytes} (h : Left bs) : bs.length ≤ 1 := by
  rcases h with rfl | rfl <;> decide

theorem Left.scanHex {bs : Bytes} (h : Left bs) : scanHex (cstr (bs ++ t)) = scanHex (cstr t) := by
  rcases h with rfl | rfl
  · rfl
  · rw [cstr_text (by simp [lf]), Httpc.scanHex, Httpc.scanHex, List.singleton_append,
      List.dropWhile_cons_of_pos (by decide)]

end Httpc
