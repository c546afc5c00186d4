/-
  What `ota_download` makes of a response (`framework/fota/download/http/ota_download.c`), however
  the socket splits it.

  Each read goes to the start of the same buffer, over what older ones left in it.  The end of the
  header is looked for in there, up to a NUL, until it is found.
-/
import AliOS.Fota.Ota
import Mathlib.Data.List.Infix

namespace Fota

/-- A response: the header up to its first empty line, and the body of `Content-Length` bytes. -/
structure Response where
  head : List UInt8
  body : List UInt8
  ends : strstr head headerEnd = some (head.length - 4)
  text : 0 ∉ head

/-- The reads of the socket until it is closed, behind all of the response or in the middle of it. -/
structure Response.Reads (r : Response) where
  reads : List (List UInt8)
  sizes : ∀ p ∈ reads, p ≠ [] ∧ p.length ≤ OTA_BUFFER_MAX_SIZE - 1
  received : reads.flatten <+: r.head ++ r.body

def piece (p : List UInt8) : Recv := .data p false

/-- The attempt in which the request is sent and this is received. -/
def answered (offered : Str) (reads : List (List UInt8)) : Attempt :=
  ⟨offered, true, true, true, reads.map piece, .never⟩

/-- The write callback got the bytes, and `MD5_Update`, too. -/
def Feeds (t t' : Task) (bytes : List UInt8) : Prop :=
  (∃ ps : List (List UInt8), ps.flatten = bytes ∧ t'.gCtx = ps.foldl md5Update t.gCtx) ∧ t'.written = t.written ++ bytes

/-- **The body is extracted**: where `OTA_DOWNLOAD_FINISH` is returned, it is all there and went to the
    flash and to the digest; and there is no fault. -/
def Extracts (nv : Nv) (offered : Str) (t : Task) (r : Response) (reads : List (List UInt8)) : Prop :=
  ∃ t' ret, otaDownload nv (answered offered reads) t = (t', some ret) ∧
    (ret = OTA_DOWNLOAD_FINISH →
      Feeds (resume nv (answered offered reads) t).2 t' r.body ∧ reads.flatten = r.head ++ r.body)

/-! ## When it is -/

/-- A read in the header: `http_buffer` and `file_size`. -/
def scanRead (b : List UInt8 × ℤ) (p : List UInt8) : List UInt8 × ℤ :=
  let buffer := p ++ b.1.drop p.length
  (buffer, scanFileSize (buffer.takeWhile (· ≠ 0)) b.2)

def scan (reads : List (List UInt8)) : List UInt8 × ℤ := reads.foldl scanRead (List.replicate OTA_BUFFER_MAX_SIZE 0, 0)

/-- Where the end of the header begins in the text in the buffer. -/
def headerAt (b : List UInt8 × ℤ) : Option ℕ := strstr (b.1.takeWhile (· ≠ 0)) headerEnd

/-- The reads that begin within the first `n` bytes. -/
def headReads : ℕ → List (List UInt8) → List (List UInt8)
  | _, [] => []
  | n, p :: ps => if n = 0 then [] else p :: headReads (n - p.length) ps

/-- In the reads that begin in the header its end is found nowhere else, and its last four bytes come in
    one read; the response is complete; and no read in the body ends where it has the size that was scanned. -/
structure Whole (r : Response) (reads : List (List UInt8)) : Prop where
  found : ∀ xs p i, xs ++ [p] <+: headReads r.head.length reads → headerAt (scan (xs ++ [p])) = some i →
    xs.flatten.length + (i + 4) = r.head.length ∧ i + 4 ≤ p.length
  together : r.body = [] ∨ ∃ xs p, headReads r.head.length reads = xs ++ [p] ∧ xs.flatten.length + 4 ≤ r.head.length
  complete : reads.flatten = r.head ++ r.body
  size : ∀ xs ys, reads = headReads r.head.length reads ++ (xs ++ ys) → xs ≠ [] → ys ≠ [] →
    ((headReads r.head.length reads ++ xs).flatten.length : ℤ) - r.head.length ≠ (scan (headReads r.head.length reads)).2

variable {r : Response} {s p o : List UInt8} {t t' t'' : Task} {bytes bytes' : List UInt8} {b : List UInt8 × ℤ}
  {ps xs ys : List (List UInt8)} {i j n : ℕ} {rs : List Recv}

/-! ## Searching -/

theorem strstr_some {pat : List UInt8} (h : strstr s pat = some i) : pat <+: s.drop i ∧ ∀ j < i, ¬ pat <+: s.drop j := by
  obtain ⟨hi, -, hmin⟩ := List.find?_range_eq_some.1 h
  refine ⟨List.isPrefixOf_iff_prefix.1 hi, fun j hj hpre => ?_⟩
  have := hmin j hj
  rw [List.isPrefixOf_iff_prefix.2 hpre] at this
  cases this

theorem strstr_ne_none {pat : List UInt8} (h : pat <+: s.drop i) (hi : i ≤ s.length) : strstr s pat ≠ none := by
  intro hn
  have := List.find?_eq_none.1 hn i (List.mem_range.2 (Nat.lt_succ_of_le hi))
  exact this (List.isPrefixOf_iff_prefix.2 h)

theorem headerEnd_le (h : headerEnd <+: s.drop i) : i + 4 ≤ s.length := by
  have := h.length_le
  rw [List.length_drop] at this
  change 4 ≤ _ at this
  omega

theorem mem_piece (h : strstr ((p ++ o).takeWhile (· ≠ 0)) headerEnd = some i) (hi : i + 4 ≤ p.length) :
    headerEnd <+: p.drop i := by
  have hpre : headerEnd <+: (p ++ o).drop i :=
    (strstr_some h).1.trans ((List.takeWhile_prefix _).drop i)
  rw [List.drop_append_of_le_length (by omega)] at hpre
  refine List.prefix_of_prefix_length_le hpre (List.prefix_append _ _) ?_
  rw [List.length_drop]
  change 4 ≤ _
  omega

/-- A header end in the last read with no NUL before it is found, or another one. -/
theorem found_piece (h : headerEnd <+: p.drop i) (h0 : 0 ∉ p.take (i + 4)) :
    strstr ((p ++ o).takeWhile (· ≠ 0)) headerEnd ≠ none := by
  have hle := headerEnd_le h
  have htext : p.take (i + 4) <+: (p ++ o).takeWhile (· ≠ 0) := by
    have heq : p ++ o = p.take (i + 4) ++ (p.drop (i + 4) ++ o) := by rw [← List.append_assoc, List.take_append_drop]
    have hpos : ∀ c ∈ p.take (i + 4), decide (c ≠ 0) = true := fun c hc => decide_eq_true fun h => h0 (h ▸ hc)
    rw [heq, List.takeWhile_append_of_pos hpos]
    exact List.prefix_append _ _
  have htake : headerEnd <+: (p.take (i + 4)).drop i := by
    rw [List.drop_take, Nat.add_sub_cancel_left]
    exact List.prefix_take_iff.2 ⟨h, Nat.le_refl _⟩
  refine strstr_ne_none (htake.trans (htext.drop i)) ?_
  have := htext.length_le
  rw [List.length_take] at this
  omega

/-! ## The reads in the header -/

theorem headReads_front (n : ℕ) (ps : List (List UInt8)) : headReads n ps <+: ps := by
  induction ps generalizing n with
  | nil => exact List.prefix_rfl
  | cons p ps ih =>
    rw [headReads]
    split_ifs
    · exact List.nil_prefix
    · exact List.cons_prefix_cons.2 ⟨rfl, ih _⟩

theorem headReads_append (h : xs.flatten.length < n) :
    headReads n (xs ++ p :: ys) = xs ++ p :: headReads (n - (xs ++ [p]).flatten.length) ys := by
  induction xs generalizing n with
  | nil =>
    have h0 : n ≠ 0 := Nat.ne_of_gt h
    rw [List.nil_append, headReads, if_neg h0, List.nil_append, List.nil_append, List.flatten_singleton]
  | cons x xs ih =>
    rw [List.flatten_cons, List.length_append] at h
    rw [List.cons_append, headReads, if_neg (by omega), ih (by omega)]
    simp only [List.cons_append, List.flatten_cons, List.length_append, Nat.sub_sub]

theorem headReads_covers (h : n ≤ ps.flatten.length) : n ≤ (headReads n ps).flatten.length := by
  induction ps generalizing n with
  | nil => exact h
  | cons p ps ih =>
    rw [List.flatten_cons, List.length_append] at h
    rw [headReads]
    split_ifs with h0
    · exact h0 ▸ Nat.zero_le _
    · have := ih (n := n - p.length) (by omega)
      rw [List.flatten_cons, List.length_append]
      omega

/-! ## The loop -/

theorem Feeds.refl : Feeds t t [] := ⟨⟨[], rfl, rfl⟩, (List.append_nil _).symm⟩

theorem feeds_func (t : Task) (p : List UInt8) : Feeds t (t.func p) p := ⟨⟨[p], List.append_nil _, rfl⟩, rfl⟩

theorem Feeds.trans (h : Feeds t t' bytes) (h' : Feeds t' t'' bytes') : Feeds t t'' (bytes ++ bytes') := by
  obtain ⟨⟨ps, rfl, hctx⟩, hw⟩ := h
  obtain ⟨⟨qs, rfl, hctx'⟩, hw'⟩ := h'
  refine ⟨⟨ps ++ qs, List.flatten_append, ?_⟩, ?_⟩
  · rw [List.foldl_append, ← hctx, hctx']
  · rw [hw', hw, List.append_assoc]

theorem recvLoop_head (hp : p ≠ [] ∧ p.length ≤ OTA_BUFFER_MAX_SIZE - 1) :
    recvLoop t ⟨b.1, false, b.2, 0⟩ (piece p :: rs) =
      match headerAt (scanRead b p) with
      | none => recvLoop t ⟨(scanRead b p).1, false, (scanRead b p).2, 0⟩ rs
      | some i =>
        if i + 4 ≤ p.length then
          recvLoop (t.func (p.drop (i + 4))) ⟨(scanRead b p).1, true, (scanRead b p).2, (p.length : ℤ) - (i + 4 : ℕ)⟩ rs
        else (t, ⟨b.1, false, b.2, 0⟩, .fault) := by
  have hne : p.length ≠ 0 := fun h => hp.1 (List.length_eq_zero_iff.1 h)
  have hbuf : (scanRead b p).1 = p ++ b.1.drop p.length := rfl
  rw [piece, recvLoop, List.take_of_length_le hp.2]
  simp only [hne, if_false, Bool.not_false, if_true]
  rw [← hbuf]
  change (match headerAt (scanRead b p) with | none => _ | some i => _) = _
  cases headerAt (scanRead b p) with
  | none => rfl
  | some i =>
    dsimp only
    by_cases hi : i + 4 ≤ p.length
    · rw [if_pos hi, if_neg (by omega), hbuf, List.drop_append_of_le_length hi]
      have hsize : ((p.length : ℤ) - (i + 4 : ℕ)).toNat = (p.drop (i + 4)).length := by
        rw [List.length_drop]
        omega
      rw [hsize, List.take_left']
      · rfl
      · rfl
    · rw [if_neg hi, if_pos (by omega)]

theorem recvLoop_quiet (hps : ∀ p ∈ ps, p ≠ [] ∧ p.length ≤ OTA_BUFFER_MAX_SIZE - 1)
    (hq : ∀ xs p, xs ++ [p] <+: ps → headerAt ((xs ++ [p]).foldl scanRead b) = none) :
    recvLoop t ⟨b.1, false, b.2, 0⟩ (ps.map piece ++ rs) =
      recvLoop t ⟨(ps.foldl scanRead b).1, false, (ps.foldl scanRead b).2, 0⟩ rs := by
  induction ps generalizing b with
  | nil => rfl
  | cons p ps ih =>
    have hp : headerAt (scanRead b p) = none := hq [] p (List.cons_prefix_cons.2 ⟨rfl, List.nil_prefix⟩)
    rw [List.map_cons, List.cons_append, recvLoop_head (hps p List.mem_cons_self), hp]
    exact ih (fun q hmem => hps q (List.mem_cons_of_mem _ hmem)) fun xs q hpre =>
      hq (p :: xs) q (List.cons_prefix_cons.2 ⟨rfl, hpre⟩)

theorem recvLoop_body {l : Loop} (hl : l.headerFound = true) (hps : ∀ p ∈ ps, p ≠ [] ∧ p.length ≤ OTA_BUFFER_MAX_SIZE - 1) :
    ∃ xs ys t' l', ps = xs ++ ys ∧ recvLoop t l (ps.map piece) = (t', l', .closed) ∧ Feeds t t' xs.flatten ∧
      (ys ≠ [] → xs ≠ [] ∧ l.size + xs.flatten.length = l.fileSize) ∧
        ∀ xs' ys', xs = xs' ++ ys' → xs' ≠ [] → ys' ≠ [] → l.size + xs'.flatten.length ≠ l.fileSize := by
  induction ps generalizing t l with
  | nil =>
    refine ⟨[], [], t, l, rfl, rfl, .refl, fun h => absurd rfl h, fun xs' ys' h hx => ?_⟩
    exact absurd (List.append_eq_nil_iff.1 h.symm).1 hx
  | cons p ps ih =>
    obtain ⟨hne, hlen⟩ := hps p List.mem_cons_self
    have h0 : p.length ≠ 0 := fun h => hne (List.length_eq_zero_iff.1 h)
    rw [List.map_cons, piece, recvLoop, List.take_of_length_le hlen]
    simp only [h0, if_false, hl, Bool.not_true, Bool.false_eq_true]
    split_ifs with hsize
    · refine ⟨[p], ps, _, _, rfl, rfl, ?_, fun _ => ⟨List.cons_ne_nil _ _, ?_⟩, fun xs' ys' h hx hy => ?_⟩
      · rw [List.flatten_singleton]
        exact feeds_func t p
      · rw [List.flatten_singleton]
        exact hsize
      · have hcard := congrArg List.length h
        rw [List.length_append, List.length_singleton] at hcard
        have := List.length_pos_of_ne_nil hx
        have := List.length_pos_of_ne_nil hy
        omega
    · obtain ⟨xs, ys, t', l', rfl, hrun, hf, hstop, hno⟩ :=
        @ih (t.func p) ⟨List.replicate OTA_BUFFER_MAX_SIZE 0, true, l.fileSize, l.size + p.length⟩ rfl
          fun q hmem => hps q (List.mem_cons_of_mem _ hmem)
      have hlen' : ∀ zs : List (List UInt8), l.size + ((p :: zs).flatten.length : ℕ) = l.size + p.length + zs.flatten.length := by
        intro zs
        rw [List.flatten_cons, List.length_append]
        omega
      refine ⟨p :: xs, ys, t', l', rfl, hrun, (feeds_func t p).trans hf, fun hy => ⟨List.cons_ne_nil _ _, ?_⟩, ?_⟩
      · rw [hlen']
        exact (hstop hy).2
      · rintro (_ | ⟨q, xs'⟩) ys' h hx hy
        · exact absurd rfl hx
        obtain ⟨rfl, hxs⟩ := List.cons.inj h
        rw [hlen']
        cases xs' with
        | nil =>
          intro heq
          exact hsize (by simpa using heq)
        | cons x xs' => exact hno (x :: xs') ys' hxs (List.cons_ne_nil _ _) hy

/-- Where the end of the header is found in the first of the reads, or not inside of it. -/
theorem recvLoop_found (hp : p ≠ [] ∧ p.length ≤ OTA_BUFFER_MAX_SIZE - 1) (hi : headerAt (scanRead b p) = some i) :
    recvLoop t ⟨b.1, false, b.2, 0⟩ (piece p :: rs) =
      if i + 4 ≤ p.length then
        recvLoop (t.func (p.drop (i + 4))) ⟨(scanRead b p).1, true, (scanRead b p).2, (p.length : ℤ) - (i + 4 : ℕ)⟩ rs
      else (t, ⟨b.1, false, b.2, 0⟩, .fault) := by
  rw [recvLoop_head hp, hi]

/-- Reads that are behind the header without its end found: four bytes at least are lost. -/
theorem recvLoop_lost (hps : ∀ p ∈ ps, p ≠ [] ∧ p.length ≤ OTA_BUFFER_MAX_SIZE - 1) :
    (recvLoop t ⟨b.1, false, b.2, 0⟩ (ps.map piece)).2.2 = .fault ∨
      ∃ t' l' bytes, recvLoop t ⟨b.1, false, b.2, 0⟩ (ps.map piece) = (t', l', .closed) ∧ Feeds t t' bytes ∧
        (bytes = [] ∨ bytes.length + 4 ≤ ps.flatten.length) := by
  induction ps generalizing b with
  | nil => exact .inr ⟨_, _, [], rfl, .refl, .inl rfl⟩
  | cons p ps ih =>
    have hp := hps p List.mem_cons_self
    have hrest : ∀ q ∈ ps, q ≠ [] ∧ q.length ≤ OTA_BUFFER_MAX_SIZE - 1 := fun q hq => hps q (List.mem_cons_of_mem _ hq)
    rw [List.map_cons]
    rcases hi : headerAt (scanRead b p) with _ | i
    · rw [recvLoop_head hp, hi]
      rcases ih (b := scanRead b p) hrest with hf | ⟨t', l', bytes, hrun, hfeeds, hb⟩
      · exact .inl hf
      · refine .inr ⟨t', l', bytes, hrun, hfeeds, hb.imp id fun hb => ?_⟩
        rw [List.flatten_cons, List.length_append]
        omega
    · rw [recvLoop_found hp hi]
      split_ifs with hle
      · obtain ⟨xs, ys, t', l', rfl, hrun, hf, -, -⟩ :=
          @recvLoop_body (t.func (p.drop (i + 4))) ps
            ⟨(scanRead b p).1, true, (scanRead b p).2, (p.length : ℤ) - (i + 4 : ℕ)⟩ rfl hrest
        refine .inr ⟨t', l', _, hrun, (feeds_func t _).trans hf, .inr ?_⟩
        rw [List.length_append, List.length_drop, List.flatten_cons, List.flatten_append, List.length_append,
          List.length_append]
        omega
      · exact .inl rfl

/-! ## The download -/

/-- The task when the request has been sent. -/
def started (nv : Nv) (offered : Str) (reads : List (List UInt8)) (t : Task) : Task :=
  (resume nv (answered offered reads) t).2.write (.curMd5 (answered offered reads).md5)

theorem recvLoop_answered (nv : Nv) (offered : Str) (reads : List (List UInt8)) (t : Task) :
    recvLoop ((resume nv (answered offered reads) t).2.write (.curMd5 (answered offered reads).md5)) .start
      (answered offered reads).recvs = recvLoop (started nv offered reads t) .start (reads.map piece) := rfl

theorem extracts_of_closed {nv : Nv} {offered : Str} {reads : List (List UInt8)} {l' : Loop}
    (h : recvLoop (started nv offered reads t) .start (reads.map piece) = (t', l', .closed)) :
    Extracts nv offered t r reads ↔ Feeds (started nv offered reads t) t' r.body ∧ reads.flatten = r.head ++ r.body := by
  have hrun : otaDownload nv (answered offered reads) t = (t'.write (.updateBreakpoint 0), some OTA_DOWNLOAD_FINISH) := by
    have hd : download (answered offered reads) (resume nv (answered offered reads) t).1
        (resume nv (answered offered reads) t).2 = (t'.write (.updateBreakpoint 0), some OTA_DOWNLOAD_FINISH) := by
      have hsend := (recvLoop_answered nv offered reads t).trans h
      simp only [download, hsend]
      rfl
    exact hd
  rw [Extracts, hrun]
  constructor
  · rintro ⟨_, _, ⟨⟩, hf⟩
    exact hf rfl
  · exact fun hf => ⟨_, _, rfl, fun _ => hf⟩

theorem not_extracts_of_fault {nv : Nv} {offered : Str} {reads : List (List UInt8)}
    (h : (recvLoop (started nv offered reads t) .start (reads.map piece)).2.2 = .fault) :
    ¬ Extracts nv offered t r reads := by
  rcases hr : recvLoop (started nv offered reads t) .start (reads.map piece) with ⟨t', l', e⟩
  rw [hr] at h
  obtain rfl : e = .fault := h
  have hrun : otaDownload nv (answered offered reads) t = (t', none) := by
    have hd : download (answered offered reads) (resume nv (answered offered reads) t).1
        (resume nv (answered offered reads) t).2 = (t', none) := by
      have hsend := (recvLoop_answered nv offered reads t).trans hr
      simp only [download, hsend]
      rfl
    exact hd
  rintro ⟨_, _, heq, -⟩
  cases hrun.symm.trans heq

/-! ## The end of the header -/

theorem headReads_zero (ps : List (List UInt8)) : headReads 0 ps = [] := by
  cases ps with
  | nil => rfl
  | cons p ps => exact if_pos rfl

theorem headReads_stops (h : ps = headReads n ps ++ ys) (hy : ys ≠ []) : n ≤ (headReads n ps).flatten.length := by
  induction ps generalizing n with
  | nil => exact absurd (List.append_eq_nil_iff.1 h.symm).2 hy
  | cons p ps ih =>
    rw [headReads] at h ⊢
    split_ifs at h ⊢ with h0
    · exact h0 ▸ Nat.zero_le _
    · have := ih (List.cons.inj h).2
      rw [List.flatten_cons, List.length_append]
      omega

theorem first_found (b : List UInt8 × ℤ) (ps : List (List UInt8)) :
    (∀ xs p, xs ++ [p] <+: ps → headerAt ((xs ++ [p]).foldl scanRead b) = none) ∨
      ∃ xs p ys i, ps = xs ++ p :: ys ∧ headerAt ((xs ++ [p]).foldl scanRead b) = some i ∧
        ∀ zs q, zs ++ [q] <+: xs → headerAt ((zs ++ [q]).foldl scanRead b) = none := by
  induction ps generalizing b with
  | nil => exact .inl fun xs p h => absurd (List.prefix_nil.1 h) (by simp)
  | cons p ps ih =>
    rcases hi : headerAt (scanRead b p) with _ | i
    · have hcons : ∀ {zs : List (List UInt8)}, (∀ xs q, xs ++ [q] <+: zs → headerAt ((xs ++ [q]).foldl scanRead (scanRead b p)) = none) →
          ∀ xs q, xs ++ [q] <+: p :: zs → headerAt ((xs ++ [q]).foldl scanRead b) = none := by
        intro zs hz xs q hpre
        cases xs with
        | nil =>
          obtain ⟨rfl, -⟩ := List.cons_prefix_cons.1 hpre
          exact hi
        | cons x xs =>
          obtain ⟨rfl, htail⟩ := List.cons_prefix_cons.1 hpre
          exact hz xs q htail
      rcases ih (scanRead b p) with hq | ⟨xs, q, ys, i, rfl, hq, hz⟩
      · exact .inl (hcons hq)
      · exact .inr ⟨p :: xs, q, ys, i, rfl, hq, hcons hz⟩
    · exact .inr ⟨[], p, ps, i, rfl, hi, fun zs q h => absurd (List.prefix_nil.1 h) (by simp)⟩

theorem scan_append : (scan (xs ++ [p])).1 = p ++ (scan xs).1.drop p.length := by
  rw [scan, List.foldl_append]
  rfl

theorem piece_front (h : (xs ++ p :: ys).flatten <+: s) : p <+: s.drop xs.flatten.length := by
  rw [List.flatten_append, List.flatten_cons] at h
  have := h.drop xs.flatten.length
  rw [List.drop_left] at this
  exact (List.prefix_append _ _).trans this

/-- **An end of the header** that is found inside a read is not before the header's own. -/
theorem Response.found_le (h : (xs ++ p :: ys).flatten <+: r.head ++ r.body)
    (hi : headerAt (scan (xs ++ [p])) = some i) (hle : i + 4 ≤ p.length) :
    r.head.length ≤ xs.flatten.length + (i + 4) := by
  rw [headerAt, scan_append] at hi
  have hm : headerEnd <+: (r.head ++ r.body).drop (xs.flatten.length + i) := by
    have := (mem_piece hi hle).trans ((piece_front h).drop i)
    rwa [List.drop_drop] at this
  by_contra hlt
  refine (strstr_some r.ends).2 (xs.flatten.length + i) (by omega) ?_
  rw [List.drop_append_of_le_length (by omega)] at hm
  refine List.prefix_of_prefix_length_le hm (List.prefix_append _ _) ?_
  rw [List.length_drop]
  change 4 ≤ _
  omega

theorem Response.found (h : (xs ++ [p]).flatten <+: r.head ++ r.body) (h4 : xs.flatten.length + 4 ≤ r.head.length)
    (hlen : r.head.length ≤ (xs ++ [p]).flatten.length) : headerAt (scan (xs ++ [p])) ≠ none := by
  rw [List.flatten_append, List.length_append, List.flatten_singleton] at hlen
  have hp : p <+: (r.head ++ r.body).drop xs.flatten.length := @piece_front _ _ _ [] h
  obtain ⟨k, hk⟩ := Nat.exists_eq_add_of_le h4
  have htake : p.take (k + 4) = r.head.drop xs.flatten.length := by
    have h1 : p.take (k + 4) <+: r.head.drop xs.flatten.length ++ r.body := by
      rw [← List.drop_append_of_le_length (by omega)]
      exact (List.take_prefix _ _).trans hp
    refine (List.prefix_of_prefix_length_le h1 (List.prefix_append _ _) ?_).eq_of_length ?_
    · rw [List.length_take, List.length_drop]
      omega
    · rw [List.length_take, List.length_drop]
      omega
  rw [headerAt, scan_append]
  refine found_piece (i := k) ?_ ?_
  · have hend := (strstr_some r.ends).1
    have hdrop : r.head.drop (r.head.length - 4) = (p.take (k + 4)).drop k := by
      rw [htake, List.drop_drop]
      congr 1
      omega
    rw [hdrop, List.drop_take] at hend
    exact hend.trans (List.take_prefix _ _)
  · rw [htake]
    exact fun h0 => r.text (List.mem_of_mem_drop h0)

/-! ## The theorem -/

variable {nv : Nv} {offered : Str}

theorem Feeds.unique (h : Feeds t t' bytes) (h' : Feeds t t' bytes') : bytes = bytes' :=
  List.append_cancel_left (h.2.symm.trans h'.2)

theorem Response.Reads.quiet_iff (rs : r.Reads) (t : Task)
    (hq : ∀ xs p, xs ++ [p] <+: headReads r.head.length rs.reads → headerAt (scan (xs ++ [p])) = none) :
    Extracts nv offered t r rs.reads ↔ Whole r rs.reads := by
  obtain ⟨bs, hbs⟩ := headReads_front r.head.length rs.reads
  have hsizes := rs.sizes
  have hstart : Loop.start = ⟨(List.replicate OTA_BUFFER_MAX_SIZE (0 : UInt8), (0 : ℤ)).1, false,
    (List.replicate OTA_BUFFER_MAX_SIZE (0 : UInt8), (0 : ℤ)).2, 0⟩ := rfl
  have hrun : recvLoop (started nv offered rs.reads t) .start (rs.reads.map piece) =
      recvLoop (started nv offered rs.reads t)
        ⟨(scan (headReads r.head.length rs.reads)).1, false, (scan (headReads r.head.length rs.reads)).2, 0⟩ (bs.map piece) := by
    conv_lhs => rw [← hbs]
    rw [List.map_append, hstart]
    refine recvLoop_quiet (fun p hp => hsizes p ((headReads_front _ _).subset hp)) hq
  -- the last four bytes of the header are not in one read
  have hnot : ∀ xs p, headReads r.head.length rs.reads = xs ++ [p] → xs.flatten.length + 4 ≤ r.head.length →
      rs.reads.flatten = r.head ++ r.body → False := by
    intro xs p hxs h4 hcomplete
    have hlen := @headReads_covers rs.reads r.head.length (by rw [hcomplete, List.length_append]; omega)
    have hpre : (xs ++ [p]).flatten <+: r.head ++ r.body := by
      rw [← hcomplete, ← hbs, hxs, @List.flatten_append _ _ bs]
      exact List.prefix_append _ _
    rw [hxs] at hlen
    exact Response.found hpre h4 hlen (hq xs p (hxs ▸ List.prefix_rfl))
  cases bs with
  | nil =>
    rw [List.append_nil] at hbs
    rw [extracts_of_closed hrun]
    constructor
    · rintro ⟨hf, hcomplete⟩
      have hbody : r.body = [] := hf.unique .refl
      refine ⟨fun xs p i hpre hi => ?_, .inl hbody, hcomplete, fun xs ys h hx => ?_⟩
      · cases (hq xs p hpre).symm.trans hi
      · rw [hbs, List.self_eq_append_right] at h
        exact absurd (List.append_eq_nil_iff.1 h).1 hx
    · rintro ⟨-, hbody | ⟨xs, p, hxs, h4⟩, hcomplete, -⟩
      · rw [hbody]
        exact ⟨.refl, hbody ▸ hcomplete⟩
      · exact (hnot xs p hxs h4 hcomplete).elim
  | cons q bs =>
    have hn : r.head.length ≤ (headReads r.head.length rs.reads).flatten.length :=
      headReads_stops hbs.symm (List.cons_ne_nil _ _)
    have hlen := congrArg (fun l => (List.flatten l).length) hbs
    rw [List.flatten_append, List.length_append] at hlen
    have hq0 : 0 < (q :: bs).flatten.length := by
      have := List.length_pos_of_ne_nil (hsizes q (hbs ▸ List.mem_append_right _ List.mem_cons_self)).1
      rw [List.flatten_cons, List.length_append]
      omega
    refine iff_of_false ?_ ?_
    · rcases recvLoop_lost (t := started nv offered rs.reads t) (b := scan (headReads r.head.length rs.reads))
        (fun p hp => hsizes p (hbs ▸ List.mem_append_right _ hp)) with hf | ⟨t', l', bytes, hr, hf, hb⟩
      · exact not_extracts_of_fault (by rw [hrun]; exact hf)
      · rw [extracts_of_closed (hrun.trans hr)]
        rintro ⟨hf', hcomplete⟩
        obtain rfl := hf'.unique hf
        rw [hcomplete, List.length_append] at hlen
        rcases hb with hb | hb
        · rw [hb, List.length_nil] at hlen
          omega
        · omega
    · rintro ⟨-, hbody | ⟨xs, p, hxs, h4⟩, hcomplete, -⟩
      · rw [hcomplete, hbody, List.append_nil] at hlen
        omega
      · exact hnot xs p hxs h4 hcomplete

theorem Response.Reads.found_iff (rs : r.Reads) (t : Task)
    (hx : headReads r.head.length rs.reads = xs ++ p :: ys) (hi : headerAt (scan (xs ++ [p])) = some i)
    (hq : ∀ zs q, zs ++ [q] <+: xs → headerAt (scan (zs ++ [q])) = none) :
    Extracts nv offered t r rs.reads ↔ Whole r rs.reads := by
  obtain ⟨bs, hbs⟩ := headReads_front r.head.length rs.reads
  rw [hx, List.append_assoc, List.cons_append] at hbs
  have hsizes := rs.sizes
  have hmem : ∀ q ∈ ys ++ bs, q ∈ rs.reads := fun q h => hbs ▸ List.mem_append_right _ (List.mem_cons_of_mem _ h)
  have hrun : recvLoop (started nv offered rs.reads t) .start (rs.reads.map piece) =
      recvLoop (started nv offered rs.reads t) ⟨(scan xs).1, false, (scan xs).2, 0⟩ (piece p :: (ys ++ bs).map piece) := by
    conv_lhs => rw [← hbs]
    rw [List.map_append]
    exact recvLoop_quiet (b := (List.replicate OTA_BUFFER_MAX_SIZE 0, 0))
      (fun q hq => hsizes q (hbs ▸ List.mem_append_left _ hq)) hq
  have hscan : scanRead (scan xs) p = scan (xs ++ [p]) := by
    rw [scan, scan, List.foldl_append]
    rfl
  rw [recvLoop_found (hsizes p (hbs ▸ List.mem_append_right _ List.mem_cons_self)) (by rw [hscan]; exact hi), hscan] at hrun
  have hpre : xs ++ [p] <+: headReads r.head.length rs.reads := by
    rw [hx]
    exact ⟨ys, by rw [List.append_assoc]; rfl⟩
  split_ifs at hrun with hle
  · obtain ⟨xs', ys', t', l', hsplit, hrun', hf, hstop, hno⟩ :=
      @recvLoop_body ((started nv offered rs.reads t).func (p.drop (i + 4))) (ys ++ bs)
        ⟨(scan (xs ++ [p])).1, true, (scan (xs ++ [p])).2, (p.length : ℤ) - (i + 4 : ℕ)⟩ rfl fun q hq => hsizes q (hmem q hq)
    have hfed := (feeds_func (started nv offered rs.reads t) (p.drop (i + 4))).trans hf
    rw [extracts_of_closed (hrun.trans hrun')]
    have hK : r.head.length ≤ xs.flatten.length + (i + 4) := r.found_le (hbs ▸ rs.received) hi hle
    have htot : rs.reads.flatten = xs.flatten ++ (p ++ (xs'.flatten ++ ys'.flatten)) := by
      rw [← hbs, hsplit, List.flatten_append, List.flatten_cons, List.flatten_append]
    have hlast : xs.flatten.length + (i + 4) = r.head.length → ys = [] := by
      intro heq
      have hh := @headReads_append p xs (ys ++ bs) r.head.length (by omega)
      rw [hbs, hx, List.flatten_append, List.length_append, List.flatten_singleton,
        Nat.sub_eq_zero_of_le (by omega), headReads_zero] at hh
      exact (List.cons.inj (List.append_cancel_left hh)).2
    -- the size at a read of the body, by where it ends in the response
    have hsize : ∀ zs : List (List UInt8), xs.flatten.length + (i + 4) = r.head.length →
        (((xs ++ [p]) ++ zs).flatten.length : ℤ) - r.head.length =
          (p.length : ℤ) - (i + 4 : ℕ) + (zs.flatten.length : ℕ) := by
      intro zs heq
      rw [List.flatten_append, List.flatten_append, List.length_append, List.length_append, List.flatten_singleton]
      omega
    constructor
    · rintro ⟨hf', hcomplete⟩
      have hbody : r.body = p.drop (i + 4) ++ xs'.flatten := hf'.unique hfed
      have hlen : xs.flatten.length + (p.length + (xs'.flatten.length + ys'.flatten.length)) =
          r.head.length + (p.length - (i + 4) + xs'.flatten.length) := by
        have := congrArg List.length (htot.symm.trans hcomplete)
        rwa [hbody, List.length_append, List.length_append, List.length_append, List.length_append, List.length_append,
          List.length_drop] at this
      have heq : xs.flatten.length + (i + 4) = r.head.length := by omega
      have hys' : ys' = [] := by
        cases ys' with
        | nil => rfl
        | cons q qs =>
          have := List.length_pos_of_ne_nil (hsizes q (hmem q (hsplit ▸ List.mem_append_right _ List.mem_cons_self))).1
          rw [List.flatten_cons, List.length_append] at hlen
          omega
      obtain rfl := hlast heq
      refine ⟨fun zs q j hz hj => ?_, .inr ⟨xs, p, hx, by omega⟩, hcomplete, fun zs ws hzw hz hw => ?_⟩
      · rw [hx] at hz
        rcases List.prefix_concat_iff.1 hz with hz | hz
        · obtain ⟨rfl, hpq⟩ := List.append_inj' hz rfl
          obtain rfl : q = p := (List.cons.inj hpq).1
          obtain rfl := Option.some.inj (hj.symm.trans hi)
          exact ⟨heq, hle⟩
        · cases (hq zs q hz).symm.trans hj
      · obtain rfl : bs = zs ++ ws := by
          rw [hx, ← hbs, List.append_assoc] at hzw
          exact (List.cons.inj (List.append_cancel_left hzw)).2
        rw [hys', List.append_nil] at hsplit
        rw [hx, hsize zs heq]
        exact hno zs ws hsplit.symm hz hw
    · intro h
      have heq : xs.flatten.length + (i + 4) = r.head.length := (h.found xs p i hpre hi).1
      obtain rfl := hlast heq
      have hys' : ys' = [] := by
        by_contra hne
        obtain ⟨hx', hs⟩ := hstop hne
        refine h.size xs' ys' ?_ hx' hne ?_
        · rw [hx, ← hsplit, ← hbs, List.append_assoc]
          rfl
        · rw [hx, hsize xs' heq]
          exact hs
      refine ⟨?_, h.complete⟩
      have hbody : r.body = p.drop (i + 4) ++ xs'.flatten := by
        have hd := congrArg (List.drop r.head.length) (htot.symm.trans h.complete)
        rw [List.drop_left, ← heq, hys', List.flatten_nil, List.append_nil, ← List.drop_drop, List.drop_left,
          List.drop_append_of_le_length hle] at hd
        exact hd.symm
      rw [hbody]
      exact hfed
  · refine iff_of_false (not_extracts_of_fault (by rw [hrun])) fun h => hle (h.found xs p i hpre hi).2

/-- **A response is extracted** exactly where its reads are whole. -/
theorem extracts_iff (nv : Nv) (offered : Str) (t : Task) (r : Response) (rs : r.Reads) :
    Extracts nv offered t r rs.reads ↔ Whole r rs.reads := by
  rcases first_found (List.replicate OTA_BUFFER_MAX_SIZE 0, 0) (headReads r.head.length rs.reads) with
    hq | ⟨xs, p, ys, i, hx, hi, hq⟩
  · exact rs.quiet_iff t hq
  · exact rs.found_iff t hx hi hq

/-- `HTTP/1.1 200 OK` with a body of two bytes. -/
def twoBytes : Response where
  head := [0x48, 0x54, 0x54, 0x50, 0x2f, 0x31, 0x2e, 0x31, 0x20, 0x32, 0x30, 0x30, 0x20, 0x4f, 0x4b, 0x0d, 0x0a,
    0x43, 0x6f, 0x6e, 0x74, 0x65, 0x6e, 0x74, 0x2d, 0x4c, 0x65, 0x6e, 0x67, 0x74, 0x68, 0x3a, 0x20, 0x32, 0x0d, 0x0a, 0x0d, 0x0a]
  body := [0x61, 0x62]
  ends := by decide +kernel
  text := by decide

/-- The connection is closed behind the header. -/
def closedEarly : twoBytes.Reads where
  reads := [twoBytes.head]
  sizes := by decide
  received := ⟨twoBytes.body, rfl⟩

/-- It is finished with nothing written. -/
theorem closedEarly_finished : ¬ ∀ nv offered t (r : Response) (rs : r.Reads), Extracts nv offered t r rs.reads := by
  intro h
  obtain ⟨t', ret, hrun, hf⟩ := h (.fresh fun _ => 0) [] ⟨.zero, 0, [], []⟩ twoBytes closedEarly
  have hret : (otaDownload (.fresh fun _ => 0) (answered [] closedEarly.reads) ⟨.zero, 0, [], []⟩).2 =
      some OTA_DOWNLOAD_FINISH := by decide +kernel
  rw [hrun] at hret
  have hlen := congrArg List.length (hf (Option.some.inj hret)).2
  revert hlen
  decide

end Fota
