/-
  Parsing of the receive stream.

  A pass over a complete message takes it off the buffer (`reprocess_more`), so
  the loop ends unless a message gives its length as 0 (`MeetsZero`): then each
  pass finds the same message again.  Over a stream of well-formed messages the
  buffer always holds the unfinished message alone, wherever the chunks are cut.
-/
import AliOS.Wsf.Recv

namespace Wsf

open Lib

variable {conn conn' : WsfConn} {buf : ℕ → UInt8} {m : Bytes}

/-! ## The decoded header -/

theorem htonlAt_out {i j : ℕ} (h : j < i ∨ i + 4 ≤ j) : htonlAt buf i j = buf j := if_neg (by omega)

theorem htonlAt_in {i j : ℕ} (h1 : i ≤ j) (h2 : j < i + 4) : htonlAt buf i j = buf (2 * i + 3 - j) :=
  if_pos ⟨h1, h2⟩

theorem decode_out {j : ℕ} (h : j < 4 ∨ j = 8 ∨ 13 ≤ j) : wsfMsgHeaderDecode buf j = buf j := by
  unfold wsfMsgHeaderDecode
  rw [htonlAt_out (by omega), htonlAt_out (by omega)]

theorem decode_length {j : ℕ} (h1 : 4 ≤ j) (h2 : j < 8) :
    wsfMsgHeaderDecode buf j = buf (11 - j) := by
  unfold wsfMsgHeaderDecode
  rw [htonlAt_out (by omega), htonlAt_in h1 h2]

theorem decode_congr {buf' : ℕ → UInt8} {n i : ℕ} (hn : headerSize ≤ n)
    (h : ∀ i < n, buf i = buf' i) (hi : i < n) :
    wsfMsgHeaderDecode buf i = wsfMsgHeaderDecode buf' i := by
  unfold headerSize at hn
  unfold wsfMsgHeaderDecode htonlAt
  split_ifs <;> exact h _ (by omega)

theorem host32_decode : host32 (wsfMsgHeaderDecode buf) 4 = be32 buf 4 := by
  unfold host32 be32
  rw [decode_length (by omega) (by omega), decode_length (by omega) (by omega),
    decode_length (by omega) (by omega), decode_length (by omega) (by omega)]

theorem isMagic_decode : isMagic (wsfMsgHeaderDecode buf) = isMagic buf := by
  unfold isMagic
  rw [decode_out (by omega), decode_out (by omega), decode_out (by omega), decode_out (by omega)]

theorem getMsgType_decode : getMsgType (wsfMsgHeaderDecode buf) = getMsgType buf := by
  unfold getMsgType
  rw [decode_out (by omega)]

theorem closes_decode {ssl : Bool} : closes ssl (wsfMsgHeaderDecode buf) = closes ssl buf := by
  unfold closes
  rw [getMsgType_decode, decode_out (by omega)]

theorem hasHandler_of_closes {ssl : Bool} (h : closes ssl buf = true) :
    hasHandler (getMsgType buf) = true := by
  unfold closes at h
  unfold hasHandler
  rw [decide_eq_true_iff] at h ⊢
  rcases h with ⟨h, -⟩ | ⟨h, -⟩
  · simp [h]
  · simp [h]

/-! ## One pass -/

/-- The buffer holds a complete message. -/
structure WsfConn.Ready (conn : WsfConn) : Prop where
  header : headerSize ≤ conn.recvBufPos
  magic : isMagic conn.recvBuf = true
  complete : be32 conn.recvBuf 4 ≤ conn.recvBufPos

/-- What is handed over of the first message. -/
def WsfConn.first (conn : WsfConn) : List Bytes :=
  if hasHandler (getMsgType conn.recvBuf) then
    [slice (wsfMsgHeaderDecode conn.recvBuf) 0 (be32 conn.recvBuf 4)]
  else []

/-- The connection without the first message of its buffer. -/
def WsfConn.rest (conn : WsfConn) : WsfConn :=
  let buf := wsfMsgHeaderDecode conn.recvBuf
  let n := be32 conn.recvBuf 4
  { conn with
    recvBuf := memcpy buf 0 (from_ buf n) (conn.recvBufPos - n)
    recvBufPos := conn.recvBufPos - n }

@[simp] theorem rest_ssl (conn : WsfConn) : conn.rest.ssl = conn.ssl := by
  unfold WsfConn.rest
  rfl

/-- The buffer is decoded and empty. -/
def WsfConn.emptied (conn : WsfConn) (ssl : Bool) : WsfConn :=
  ⟨ssl, wsfMsgHeaderDecode conn.recvBuf, 0⟩

theorem reprocess_ready (h : conn.Ready) :
    reprocess conn =
      let conn' := handle { conn with recvBuf := wsfMsgHeaderDecode conn.recvBuf }
      ((wsfRecvbuffClearFirstMsg conn').1, (wsfRecvbuffClearFirstMsg conn').2, conn.first) := by
  have hacc : wsfMsgAccept conn.recvBuf conn.recvBufPos = true := by
    unfold wsfMsgAccept
    rw [if_neg (by have := h.header; omega), h.magic]
  have hcomp : wsfMsgComplete conn.recvBuf conn.recvBufPos = true := by
    unfold wsfMsgComplete
    rw [if_neg (by have := h.header; omega)]
    exact decide_eq_true h.complete
  unfold reprocess WsfConn.first
  rw [if_neg (by rw [hacc]; decide), if_pos hcomp]
  dsimp only
  rw [getMsgType_decode, host32_decode]
  split_ifs with hh
  · rfl
  · have hc : closes conn.ssl (wsfMsgHeaderDecode conn.recvBuf) = false := by
      rw [closes_decode, Bool.eq_false_iff]
      exact fun hc => hh (hasHandler_of_closes hc)
    simp [handle, hc]

theorem reprocess_more (h : conn.Ready) (hc : closes conn.ssl conn.recvBuf = false)
    (hlt : be32 conn.recvBuf 4 < conn.recvBufPos) :
    reprocess conn = (true, conn.rest, conn.first) := by
  rw [reprocess_ready h]
  simp only [handle, closes_decode, hc, Bool.false_eq_true, if_false, wsfRecvbuffClearFirstMsg,
    host32_decode]
  rw [if_neg (by omega), if_pos hlt]
  rfl

theorem reprocess_last (h : conn.Ready) (hc : closes conn.ssl conn.recvBuf = false)
    (he : be32 conn.recvBuf 4 = conn.recvBufPos) :
    reprocess conn = (false, conn.emptied conn.ssl, conn.first) := by
  rw [reprocess_ready h]
  simp only [handle, closes_decode, hc, Bool.false_eq_true, if_false, wsfRecvbuffClearFirstMsg,
    host32_decode]
  rw [if_pos he.symm]
  rfl

theorem reprocess_close (h : conn.Ready) (hc : closes conn.ssl conn.recvBuf = true) :
    reprocess conn = (false, conn.emptied false, conn.first) := by
  rw [reprocess_ready h]
  simp only [handle, closes_decode, hc, if_true, wsfRecvbuffClearFirstMsg, wsfResetConnection,
    host32_decode]
  split_ifs with h1 h2
  · rfl
  · omega
  · rfl

theorem reprocess_stop (h : ¬ conn.Ready) : ∃ conn', reprocess conn = (false, conn', []) := by
  unfold reprocess
  by_cases hacc : wsfMsgAccept conn.recvBuf conn.recvBufPos = true
  · rw [if_neg (not_not_intro hacc)]
    by_cases hcomp : wsfMsgComplete conn.recvBuf conn.recvBufPos = true
    · unfold wsfMsgComplete at hcomp
      split_ifs at hcomp with hs
      unfold wsfMsgAccept at hacc
      rw [if_neg hs] at hacc
      exact absurd ⟨Nat.le_of_not_lt hs, hacc, of_decide_eq_true hcomp⟩ h
    · rw [if_neg hcomp]
      exact ⟨_, rfl⟩
  · rw [if_pos hacc]
    exact ⟨_, rfl⟩

theorem reprocess_wait (hacc : wsfMsgAccept conn.recvBuf conn.recvBufPos = true)
    (h : ¬ conn.Ready) : reprocess conn = (false, conn, []) := by
  have hcomp : wsfMsgComplete conn.recvBuf conn.recvBufPos = false := by
    rw [Bool.eq_false_iff]
    intro hcomp
    unfold wsfMsgComplete at hcomp
    split_ifs at hcomp with hs
    unfold wsfMsgAccept at hacc
    rw [if_neg hs] at hacc
    exact h ⟨Nat.le_of_not_lt hs, hacc, of_decide_eq_true hcomp⟩
  unfold reprocess
  rw [if_neg (not_not_intro hacc), if_neg (by rw [hcomp]; decide)]

theorem processReceivedBuf_stop {fuel : ℕ} {log : List Bytes} (h : reprocess conn = (false, conn', log)) :
    processReceivedBuf (fuel + 1) conn = some (conn', log) := by
  rw [processReceivedBuf, h]

theorem processReceivedBuf_more {fuel : ℕ} {log : List Bytes} (h : reprocess conn = (true, conn', log)) :
    processReceivedBuf (fuel + 1) conn =
      (processReceivedBuf fuel conn').map fun r => (r.1, log ++ r.2) := by
  rw [processReceivedBuf, h]

/-! ## Termination -/

/-- Some message on the way through the buffer gives its length as 0, and does
    not close the connection. -/
inductive MeetsZero : WsfConn → Prop
  | here {conn : WsfConn} : conn.Ready → closes conn.ssl conn.recvBuf = false →
      be32 conn.recvBuf 4 = 0 → MeetsZero conn
  | later {conn : WsfConn} : conn.Ready → closes conn.ssl conn.recvBuf = false →
      0 < be32 conn.recvBuf 4 → be32 conn.recvBuf 4 < conn.recvBufPos → MeetsZero conn.rest →
      MeetsZero conn

theorem be32_eq_zero {i : ℕ} (h : be32 buf i = 0) :
    buf i = 0 ∧ buf (i + 1) = 0 ∧ buf (i + 2) = 0 ∧ buf (i + 3) = 0 := by
  unfold be32 at h
  refine ⟨?_, ?_, ?_, ?_⟩
  all_goals
    rw [← UInt8.toNat_inj]
    change _ = 0
    omega

theorem rest_of_zero (h : be32 conn.recvBuf 4 = 0) :
    conn.rest = { conn with recvBuf := wsfMsgHeaderDecode conn.recvBuf } := by
  have hmem : memcpy (wsfMsgHeaderDecode conn.recvBuf) 0 (from_ (wsfMsgHeaderDecode conn.recvBuf) 0)
      conn.recvBufPos = wsfMsgHeaderDecode conn.recvBuf := by
    funext i
    unfold memcpy from_
    split_ifs <;> simp
  unfold WsfConn.rest
  simp only [h, Nat.sub_zero, hmem]

theorem MeetsZero.next (h : MeetsZero conn) :
    reprocess conn = (true, conn.rest, conn.first) ∧ MeetsZero conn.rest := by
  cases h with
  | here hr hc hz =>
    have hpos := hr.header
    unfold headerSize at hpos
    obtain ⟨h4, h5, h6, h7⟩ := be32_eq_zero hz
    refine ⟨reprocess_more hr hc (by omega), ?_⟩
    have hz' : be32 (wsfMsgHeaderDecode conn.recvBuf) 4 = 0 := by
      unfold be32
      rw [decode_length (by omega) (by omega), decode_length (by omega) (by omega),
        decode_length (by omega) (by omega), decode_length (by omega) (by omega)]
      simp_all
    rw [rest_of_zero hz]
    refine .here ⟨hr.header, ?_, ?_⟩ ?_ hz'
    · exact isMagic_decode.trans hr.magic
    · exact hz'.le.trans (Nat.zero_le _)
    · exact closes_decode.trans hc
  | later hr hc _ hlt hrest =>
    exact ⟨reprocess_more hr hc hlt, hrest⟩

theorem never_returns (h : MeetsZero conn) (fuel : ℕ) : processReceivedBuf fuel conn = none := by
  induction fuel generalizing conn with
  | zero => rfl
  | succ fuel ih =>
    obtain ⟨hmore, hrest⟩ := h.next
    rw [processReceivedBuf_more hmore, ih hrest]
    rfl

theorem returns_of_not_zero (h : ¬ MeetsZero conn) :
    ∃ fuel r, processReceivedBuf fuel conn = some r := by
  induction hn : conn.recvBufPos using Nat.strong_induction_on generalizing conn with
  | _ n ih =>
    by_cases hr : conn.Ready
    · cases hc : closes conn.ssl conn.recvBuf with
      | true => exact ⟨1, _, processReceivedBuf_stop (reprocess_close hr hc)⟩
      | false =>
        rcases hr.complete.eq_or_lt with he | hlt
        · exact ⟨1, _, processReceivedBuf_stop (reprocess_last hr hc he)⟩
        · have hpos : 0 < be32 conn.recvBuf 4 :=
            Nat.pos_of_ne_zero fun hz => h (.here hr hc hz)
          obtain ⟨fuel, r, hfuel⟩ := ih conn.rest.recvBufPos
            (by rw [← hn]; exact Nat.sub_lt (by omega) hpos)
            (fun hrest => h (.later hr hc hpos hlt hrest)) rfl
          refine ⟨fuel + 1, (r.1, conn.first ++ r.2), ?_⟩
          rw [processReceivedBuf_more (reprocess_more hr hc hlt), hfuel]
          rfl
    · obtain ⟨conn', hstop⟩ := reprocess_stop hr
      exact ⟨1, _, processReceivedBuf_stop hstop⟩

theorem returns_iff : (∃ fuel r, processReceivedBuf fuel conn = some r) ↔ ¬ MeetsZero conn := by
  refine ⟨?_, returns_of_not_zero⟩
  rintro ⟨fuel, r, hfuel⟩ hz
  rw [never_returns hz fuel] at hfuel
  cases hfuel

/-! ## The result does not depend on the fuel -/

theorem processReceivedBuf_mono {fuel : ℕ} {r : WsfConn × List Bytes}
    (h : processReceivedBuf fuel conn = some r) : processReceivedBuf (fuel + 1) conn = some r := by
  induction fuel generalizing conn r with
  | zero => cases h
  | succ fuel ih =>
    rcases hp : reprocess conn with ⟨_ | _, conn', log⟩
    · rw [processReceivedBuf_stop hp] at h ⊢
      exact h
    · rw [processReceivedBuf_more hp] at h ⊢
      obtain ⟨r', hr', rfl⟩ := Option.map_eq_some_iff.1 h
      exact Option.map_eq_some_iff.2 ⟨r', ih hr', rfl⟩

theorem processReceivedBuf_le {fuel fuel' : ℕ} {r : WsfConn × List Bytes} (hle : fuel ≤ fuel')
    (h : processReceivedBuf fuel conn = some r) : processReceivedBuf fuel' conn = some r := by
  induction hle with
  | refl => exact h
  | step _ ih => exact processReceivedBuf_mono ih

theorem processReceivedBuf_inj {fuel fuel' : ℕ} {r r' : WsfConn × List Bytes}
    (h : processReceivedBuf fuel conn = some r) (h' : processReceivedBuf fuel' conn = some r') :
    r = r' := by
  have h1 := processReceivedBuf_le (Nat.le_max_left fuel fuel') h
  have h2 := processReceivedBuf_le (Nat.le_max_right fuel fuel') h'
  exact Option.some.inj (h1.symm.trans h2)

/-! ## Streams of messages -/

/-- The buffer holds the bytes `l`. -/
structure WsfConn.Holds (conn : WsfConn) (l : Bytes) : Prop where
  pos : conn.recvBufPos = l.length
  bytes : Lib.Holds conn.recvBuf 0 l

variable {l r : Bytes} {msgs : List Bytes}

theorem WsfConn.Holds.byte (h : conn.Holds l) {i : ℕ} (hi : i < l.length) :
    conn.recvBuf i = at_ l i := by
  have := h.bytes.get hi
  rw [Nat.zero_add] at this
  simp [this, at_, hi]

theorem WsfConn.Holds.recv (h : conn.Holds l) (chunk : Bytes) : (conn.recv chunk).Holds (l ++ chunk) where
  pos := by rw [List.length_append, ← h.pos]; rfl
  bytes := by
    have hrecv : (conn.recv chunk).recvBuf =
      memcpy conn.recvBuf conn.recvBufPos (fun i => chunk.getD i 0) chunk.length := rfl
    rw [hrecv, h.pos, holds_append, Nat.zero_add]
    exact ⟨h.bytes.memcpy_disjoint (.inl (Nat.zero_add _).le), holds_memcpy_same 0⟩

theorem header_congr {buf' : ℕ → UInt8} (h : ∀ i < headerSize, buf i = buf' i) :
    isMagic buf = isMagic buf' ∧ be32 buf 4 = be32 buf' 4 ∧ getMsgType buf = getMsgType buf' := by
  unfold headerSize at h
  unfold isMagic be32 getMsgType
  rw [h 0 (by omega), h 1 (by omega), h 2 (by omega), h 3 (by omega), h 4 (by omega),
    h 5 (by omega), h 6 (by omega), h 7 (by omega), h 8 (by omega)]
  exact ⟨rfl, rfl, rfl⟩

theorem at_append_left {i : ℕ} (hi : i < m.length) : at_ (m ++ r) i = at_ m i := by
  simp [at_, List.getElem?_append_left hi]

theorem WellFormed.header_eq (hm : WellFormed m) (h : conn.Holds (m ++ r)) :
    isMagic conn.recvBuf = true ∧ be32 conn.recvBuf 4 = m.length ∧
      getMsgType conn.recvBuf = getMsgType (at_ m) := by
  have hlen := hm.header
  have hc : ∀ i < headerSize, conn.recvBuf i = at_ m i := fun i hi => by
    rw [h.byte (by rw [List.length_append]; omega), at_append_left (by omega)]
  obtain ⟨h1, h2, h3⟩ := header_congr hc
  exact ⟨h1.trans hm.magic, h2.trans hm.length, h3⟩

theorem WellFormed.ready (hm : WellFormed m) (h : conn.Holds (m ++ r)) : conn.Ready := by
  obtain ⟨h1, h2, -⟩ := hm.header_eq h
  have hlen := hm.header
  have hpos := h.pos
  rw [List.length_append] at hpos
  exact ⟨by omega, h1, by omega⟩

theorem WellFormed.closes_eq (hm : WellFormed m) (h : conn.Holds (m ++ r)) {ssl : Bool} :
    closes ssl conn.recvBuf = closes ssl (at_ m) := by
  obtain ⟨-, -, htype⟩ := hm.header_eq h
  unfold closes
  rw [htype]
  by_cases h5 : getMsgType (at_ m) = 5
  · have hlen := hm.result h5
    unfold headerSize at hlen
    rw [h.byte (by rw [List.length_append]; omega), at_append_left hlen]
  · simp [h5]

theorem WellFormed.decode_eq (hm : WellFormed m) (h : conn.Holds (m ++ r)) {i : ℕ}
    (hi : i < m.length) :
    wsfMsgHeaderDecode conn.recvBuf i = wsfMsgHeaderDecode (at_ m) i := by
  refine decode_congr hm.header (fun j hj => ?_) hi
  rw [h.byte (by rw [List.length_append]; omega), at_append_left hj]

theorem WellFormed.first_eq (hm : WellFormed m) (h : conn.Holds (m ++ r)) :
    conn.first = dispatched [m] := by
  obtain ⟨-, hlen, htype⟩ := hm.header_eq h
  have hmsg : slice (wsfMsgHeaderDecode conn.recvBuf) 0 m.length =
      slice (wsfMsgHeaderDecode (at_ m)) 0 m.length := by
    refine slice_congr fun i hi => ?_
    rw [Nat.zero_add]
    exact hm.decode_eq h hi
  unfold WsfConn.first dispatched
  rw [htype, hlen, hmsg]
  by_cases hh : hasHandler (getMsgType (at_ m)) = true
  · rw [if_pos hh]
    simp [hh]
  · rw [if_neg hh]
    simp [hh]

theorem WellFormed.rest_holds (hm : WellFormed m) (h : conn.Holds (m ++ r)) :
    conn.rest.Holds r := by
  obtain ⟨-, hlen, -⟩ := hm.header_eq h
  have hhead := hm.header
  unfold headerSize at hhead
  have hpos := h.pos
  rw [List.length_append] at hpos
  have hr : Lib.Holds conn.recvBuf m.length r := by
    have := (holds_append.1 h.bytes).2
    rwa [Nat.zero_add] at this
  refine ⟨?_, ?_⟩
  · unfold WsfConn.rest
    dsimp only
    rw [hlen, hpos, Nat.add_sub_cancel_left]
  · unfold WsfConn.rest
    dsimp only
    rw [hlen, hpos, Nat.add_sub_cancel_left]
    unfold Lib.Holds
    rw [slice_memcpy_same, ← hr]
    simp only [slice_length]
    refine slice_congr fun i hi => ?_
    rw [Nat.zero_add, from_, decode_out (by omega)]

theorem reprocess_partial (hm : WellFormed m) (hp : r <+: m) (hlt : r.length < m.length)
    (h : conn.Holds r) : reprocess conn = (false, conn, []) := by
  have hb : ∀ i < r.length, conn.recvBuf i = at_ m i := fun i hi => by
    obtain ⟨s, rfl⟩ := hp
    rw [h.byte hi, at_append_left hi]
  by_cases hs : conn.recvBufPos < headerSize
  · refine reprocess_wait (if_pos hs) fun hr => ?_
    have := hr.header
    omega
  · have hpos := h.pos
    obtain ⟨h1, h2, -⟩ := header_congr fun i hi => hb i (by omega)
    refine reprocess_wait ?_ fun hr => ?_
    · unfold wsfMsgAccept
      rw [if_neg hs, h1, hm.magic]
    · have := hr.complete
      rw [h2, hm.length] at this
      omega

theorem reprocess_empty (h : conn.Holds []) : reprocess conn = (false, conn, []) := by
  have hpos : conn.recvBufPos = 0 := h.pos
  refine reprocess_wait ?_ fun hr => ?_
  · unfold wsfMsgAccept headerSize
    rw [if_pos (by omega)]
  · have := hr.header
    unfold headerSize at this
    omega

/-- `r` is nothing, or a proper beginning of a well-formed message. -/
def Partial (r : Bytes) : Prop := r = [] ∨ ∃ m, WellFormed m ∧ r <+: m ∧ r.length < m.length

theorem dispatched_append (l₁ l₂ : List Bytes) :
    dispatched (l₁ ++ l₂) = dispatched l₁ ++ dispatched l₂ := by
  simp [dispatched]

theorem WellFormed.ne_nil (hm : WellFormed m) : m ≠ [] := by
  rintro rfl
  exact absurd hm.header (by decide)

theorem flatten_eq_nil (hwf : ∀ m ∈ msgs, WellFormed m) (h : msgs.flatten = []) : msgs = [] :=
  List.eq_nil_iff_forall_not_mem.2 fun m hm => (hwf m hm).ne_nil (List.flatten_eq_nil_iff.1 h m hm)

theorem process_msgs (hwf : ∀ m ∈ msgs, WellFormed m) (hr : Partial r) (h : conn.Holds (msgs.flatten ++ r))
    (hc : ∀ l₁ m l₂, msgs = l₁ ++ m :: l₂ → closes conn.ssl (at_ m) = true → l₂ = [] ∧ r = []) :
    ∃ fuel conn', processReceivedBuf fuel conn = some (conn', dispatched msgs) ∧ conn'.Holds r ∧
      ((∀ m ∈ msgs, closes conn.ssl (at_ m) = false) → conn'.ssl = conn.ssl) := by
  induction msgs generalizing conn with
  | nil =>
    refine ⟨0 + 1, conn, processReceivedBuf_stop ?_, h, fun _ => rfl⟩
    rcases hr with rfl | ⟨m, hm, hp, hlt⟩
    · exact reprocess_empty h
    · exact reprocess_partial hm hp hlt h
  | cons m msgs ih =>
    obtain ⟨hm, hwf⟩ := List.forall_mem_cons.1 hwf
    rw [List.flatten_cons, List.append_assoc] at h
    have hready := hm.ready h
    have hfirst := hm.first_eq h
    have hlen := (hm.header_eq h).2.1
    have hpos := h.pos
    rw [List.length_append] at hpos
    have hdisp : dispatched (m :: msgs) = dispatched [m] ++ dispatched msgs :=
      dispatched_append [m] msgs
    cases hcl : closes conn.ssl (at_ m) with
    | true =>
      -- it closes the connection, and nothing is behind it
      obtain ⟨rfl, rfl⟩ := hc [] m msgs rfl hcl
      refine ⟨0 + 1, conn.emptied false, ?_, ⟨rfl, rfl⟩, fun hno => ?_⟩
      · rw [processReceivedBuf_stop (reprocess_close hready (by rw [hm.closes_eq h, hcl])), hfirst]
      · rw [hno m (List.mem_singleton_self m)] at hcl
        cases hcl
    | false =>
      have hcf : closes conn.ssl conn.recvBuf = false := by rw [hm.closes_eq h, hcl]
      by_cases hrest : msgs.flatten ++ r = []
      · -- nothing is behind it
        obtain ⟨hnil, rfl⟩ := List.append_eq_nil_iff.1 hrest
        have hmsgs : msgs = [] := flatten_eq_nil hwf hnil
        subst hmsgs
        refine ⟨0 + 1, conn.emptied conn.ssl, ?_, ⟨rfl, rfl⟩, fun _ => rfl⟩
        rw [processReceivedBuf_stop (reprocess_last hready hcf ?_), hfirst]
        rw [hrest] at hpos
        rw [hlen, hpos, List.length_nil, Nat.add_zero]
      · have hmore := reprocess_more hready hcf (by
          have := List.length_pos_of_ne_nil hrest
          omega)
        have hc' : ∀ l₁ m' l₂, msgs = l₁ ++ m' :: l₂ → closes conn.rest.ssl (at_ m') = true →
            l₂ = [] ∧ r = [] := by
          intro l₁ m' l₂ he hcl'
          rw [rest_ssl] at hcl'
          exact hc (m :: l₁) m' l₂ (by rw [he, List.cons_append]) hcl'
        obtain ⟨fuel, conn', hp, hh, hs⟩ := ih hwf (hm.rest_holds h) hc'
        rw [rest_ssl] at hs
        refine ⟨fuel + 1, conn', ?_, hh, fun hno => hs fun m' hm' => hno m' (List.mem_cons_of_mem _ hm')⟩
        rw [processReceivedBuf_more hmore, hp, hfirst, hdisp, Option.map_some]

/-! ## Runs of chunks -/

theorem Deliver.inj {c : Bytes} {out out' : List Bytes} {conn'' : WsfConn}
    (h : Deliver conn (c, out) conn') (h' : Deliver conn (c, out') conn'') :
    conn' = conn'' ∧ out = out' := by
  obtain ⟨fuel, h⟩ := h
  obtain ⟨fuel', h'⟩ := h'
  exact Prod.mk.inj (processReceivedBuf_inj h h')

theorem flatten_cut {l : List Bytes} (hl : ∀ m ∈ l, m ≠ []) {p q : Bytes} (h : p ++ q = l.flatten) :
    ∃ l₁ l₂ r, l = l₁ ++ l₂ ∧ p = l₁.flatten ++ r ∧ r ++ q = l₂.flatten ∧
      (r = [] ∨ ∃ m ∈ l₂, r <+: m ∧ r.length < m.length) ∧ (l₂ = [] → r = []) := by
  induction l generalizing p with
  | nil =>
    obtain ⟨rfl, rfl⟩ := List.append_eq_nil_iff.1 h
    exact ⟨[], [], [], rfl, rfl, rfl, .inl rfl, fun _ => rfl⟩
  | cons m l ih =>
    obtain ⟨hm, hl⟩ := List.forall_mem_cons.1 hl
    rw [List.flatten_cons] at h
    by_cases hlt : p.length < m.length
    · -- the cut is in the first piece
      refine ⟨[], m :: l, p, rfl, rfl, h, .inr ⟨m, List.mem_cons_self .., ?_, hlt⟩, nofun⟩
      exact List.prefix_of_prefix_length_le (List.prefix_append p q) (h ▸ List.prefix_append m _) hlt.le
    · have hmp : m <+: p :=
        List.prefix_of_prefix_length_le (h ▸ List.prefix_append m _) (List.prefix_append p q)
          (Nat.le_of_not_lt hlt)
      obtain ⟨p', rfl⟩ := hmp
      rw [List.append_assoc] at h
      obtain ⟨l₁, l₂, r, rfl, rfl, hq, hr, hnil⟩ := ih hl (List.append_cancel_left h)
      exact ⟨m :: l₁, l₂, r, rfl, by rw [List.flatten_cons, List.append_assoc], hq, hr, hnil⟩

/-- The state in the middle of a stream: the messages `ms₁` are handed over, and
    the buffer holds the beginning `r` of what is to come. -/
structure Mid (ssl : Bool) (msgs : List Bytes) (as : List (Bytes × List Bytes)) (conn : WsfConn)
    (ms₁ ms₂ : List Bytes) (r : Bytes) : Prop where
  msgs_eq : msgs = ms₁ ++ ms₂
  stream_eq : stream as = ms₁.flatten ++ r
  handed_eq : handed as = dispatched ms₁
  holds : conn.Holds r
  cut : Partial r
  ended : ms₂ = [] → r = []
  ssl_eq : ms₂ ≠ [] → conn.ssl = ssl

/-- No message but the last one closes the connection. -/
def ClosesLast (ssl : Bool) (msgs : List Bytes) : Prop :=
  ∀ l₁ m l₂, msgs = l₁ ++ m :: l₂ → closes ssl (at_ m) = true → l₂ = []

theorem Mid.step {ssl : Bool} {as : List (Bytes × List Bytes)} {ms₁ ms₂ : List Bytes} {c q : Bytes}
    (hwf : ∀ m ∈ msgs, WellFormed m) (hcl : ClosesLast ssl msgs) (h : Mid ssl msgs as conn ms₁ ms₂ r)
    (hq : stream as ++ c ++ q = msgs.flatten) :
    ∃ conn' out ms1' ms2' r', Deliver conn (c, out) conn' ∧
      Mid ssl msgs (as ++ [(c, out)]) conn' ms1' ms2' r' := by
  have hne : ∀ m ∈ msgs, m ≠ [] := fun m hm => (hwf m hm).ne_nil
  have hcut : r ++ c ++ q = ms₂.flatten := by
    rw [h.stream_eq, h.msgs_eq, List.flatten_append, List.append_assoc, List.append_assoc] at hq
    rw [List.append_assoc]
    exact List.append_cancel_left hq
  have hms := h.msgs_eq
  obtain ⟨l₁, l₂, r', rfl, hrc, -, hr', hnil⟩ := flatten_cut
    (fun m hm => hne m (hms ▸ List.mem_append_right _ hm)) hcut
  have hwf1 : ∀ m ∈ l₁, WellFormed m := fun m hm => hwf m (by simp [hms, hm])
  have hpart : Partial r' := by
    rcases hr' with hr' | ⟨m, hm, hp, hlt⟩
    · exact .inl hr'
    · exact .inr ⟨m, hwf m (by simp [hms, hm]), hp, hlt⟩
  have hholds := h.holds.recv c
  rw [hrc] at hholds
  have hssl : ∀ m ∈ l₁, (conn.recv c).ssl = ssl := fun m hm =>
    h.ssl_eq (List.ne_nil_of_mem (List.mem_append_left l₂ hm))
  obtain ⟨fuel, conn', hp, hh, hs⟩ := process_msgs hwf1 hpart hholds fun a m b he hclose => by
    rw [hssl m (by simp [he])] at hclose
    have hnext := hcl (ms₁ ++ a) m (b ++ l₂) (by simp [hms, he]) hclose
    obtain ⟨hb, hl⟩ := List.append_eq_nil_iff.1 hnext
    exact ⟨hb, hnil hl⟩
  refine ⟨conn', dispatched l₁, ms₁ ++ l₁, l₂, r', ⟨fuel, hp⟩, ?_, ?_, ?_, hh, hpart, hnil, ?_⟩
  · rw [hms, List.append_assoc]
  · have hstream := h.stream_eq
    unfold stream at hstream ⊢
    simp only [List.map_append, List.flatten_append, hstream, List.map_cons, List.map_nil,
      List.flatten_cons, List.flatten_nil, List.append_nil, List.append_assoc, hrc]
  · have hhanded := h.handed_eq
    unfold handed at hhanded ⊢
    simp only [List.map_append, List.flatten_append, hhanded, List.map_cons, List.map_nil,
      List.flatten_cons, List.flatten_nil, List.append_nil, dispatched_append]
  · intro hl2
    rw [hs fun m hm => ?_]
    · exact h.ssl_eq fun hn => hl2 (List.append_eq_nil_iff.1 hn).2
    · obtain ⟨a, b, rfl⟩ := List.append_of_mem hm
      rw [Bool.eq_false_iff, hssl m hm]
      intro hclose
      have hnext := hcl (ms₁ ++ a) m (b ++ l₂) (by simp [hms]) hclose
      exact hl2 (List.append_eq_nil_iff.1 hnext).2

theorem mid_start (ssl : Bool) (buf : ℕ → UInt8) (msgs : List Bytes) :
    Mid ssl msgs [] ⟨ssl, buf, 0⟩ [] msgs [] where
  msgs_eq := rfl
  stream_eq := rfl
  handed_eq := rfl
  holds := ⟨rfl, rfl⟩
  cut := .inl rfl
  ended _ := rfl
  ssl_eq _ := rfl

theorem stream_snoc (as : List (Bytes × List Bytes)) (a : Bytes × List Bytes) :
    stream (as ++ [a]) = stream as ++ a.1 := by
  simp [stream]

theorem Mid.chunks {ssl : Bool} (hwf : ∀ m ∈ msgs, WellFormed m) (hcl : ClosesLast ssl msgs)
    (chunks : List Bytes) {as : List (Bytes × List Bytes)} {ms₁ ms₂ : List Bytes}
    (h : Mid ssl msgs as conn ms₁ ms₂ r) (hq : stream as ++ chunks.flatten = msgs.flatten) :
    ∃ bs conn', Run Deliver conn bs conn' ∧ bs.map Prod.fst = chunks := by
  induction chunks generalizing as conn ms₁ ms₂ r with
  | nil => exact ⟨[], conn, .nil, rfl⟩
  | cons c chunks ih =>
    rw [List.flatten_cons, ← List.append_assoc] at hq
    obtain ⟨conn', out, ms1', ms2', r', hd, hm⟩ := h.step hwf hcl hq
    obtain ⟨bs, conn'', hr, hbs⟩ := ih hm (by rw [stream_snoc]; exact hq)
    exact ⟨(c, out) :: bs, conn'', .cons hd hr, by rw [List.map_cons, hbs]⟩

theorem Mid.run {ssl : Bool} (hwf : ∀ m ∈ msgs, WellFormed m) (hcl : ClosesLast ssl msgs)
    {as bs : List (Bytes × List Bytes)} {ms₁ ms₂ : List Bytes} (hr : Run Deliver conn bs conn')
    (h : Mid ssl msgs as conn ms₁ ms₂ r) (hq : stream (as ++ bs) = msgs.flatten) :
    ∃ ms1' ms2' r', Mid ssl msgs (as ++ bs) conn' ms1' ms2' r' := by
  induction hr generalizing as ms₁ ms₂ r with
  | nil => exact ⟨ms₁, ms₂, r, by rwa [List.append_nil]⟩
  | @cons s a t bs u hd _ ih =>
    have hq' : stream as ++ a.1 ++ stream bs = msgs.flatten := by
      rw [← hq]
      simp [stream]
    obtain ⟨conn1, out, ms1', ms2', r', hd', hm⟩ := h.step hwf hcl hq'
    obtain ⟨rfl, hout⟩ := Deliver.inj hd hd'
    have ha : a = (a.1, out) := Prod.ext rfl hout
    rw [List.append_cons] at hq ⊢
    rw [← ha] at hm
    exact ih hm hq

theorem WellFormed.prefix_length {m' : Bytes} (hm : WellFormed m) (hm' : WellFormed m') (h : m <+: m') :
    m'.length = m.length := by
  obtain ⟨s, rfl⟩ := h
  have hlen := hm.header
  obtain ⟨-, h2, -⟩ := header_congr fun i (hi : i < headerSize) =>
    (at_append_left (r := s) (show i < m.length by omega))
  rw [← hm'.length, h2, hm.length]

theorem Mid.handed_all {ssl : Bool} {as : List (Bytes × List Bytes)} {ms₁ ms₂ : List Bytes}
    (hwf : ∀ m ∈ msgs, WellFormed m) (h : Mid ssl msgs as conn ms₁ ms₂ r)
    (hq : stream as = msgs.flatten) : handed as = dispatched msgs := by
  have hr : r = ms₂.flatten := by
    rw [h.stream_eq, h.msgs_eq, List.flatten_append] at hq
    exact List.append_cancel_left hq
  have hms2 : ms₂ = [] := by
    cases ms₂ with
    | nil => rfl
    | cons m l =>
      have hm : WellFormed m := hwf m (by simp [h.msgs_eq])
      have hmr : m <+: r := by
        rw [hr, List.flatten_cons]
        exact List.prefix_append ..
      rcases h.cut with hnil | ⟨m', hm', hp, hlt⟩
      · rw [hnil] at hmr
        exact absurd (List.prefix_nil.1 hmr) hm.ne_nil
      · have heq := hm.prefix_length hm' (hmr.trans hp)
        have hle := hmr.length_le
        omega
  rw [h.handed_eq, h.msgs_eq, hms2, List.append_nil]

/-- **Parsing of the receive stream**, from an empty buffer.  The function
    returns for a chunk exactly if no message that it comes to gives its length
    as 0.  A stream of well-formed messages is taken in any chunks, and its
    messages are handed over one by one, if none but the last closes the
    connection. -/
theorem wsf_recv_parses (ssl : Bool) (buf : ℕ → UInt8) :
    (∀ as conn, Run Deliver ⟨ssl, buf, 0⟩ as conn → ∀ c,
      (∃ conn' out, Deliver conn (c, out) conn') ↔ ¬ MeetsZero (conn.recv c)) ∧
    ∀ msgs, (∀ m ∈ msgs, WellFormed m) → ClosesLast ssl msgs →
      (∀ chunks : List Bytes, chunks.flatten = msgs.flatten →
        ∃ as conn, Run Deliver ⟨ssl, buf, 0⟩ as conn ∧ as.map Prod.fst = chunks) ∧
      ∀ as conn, Run Deliver ⟨ssl, buf, 0⟩ as conn → stream as = msgs.flatten →
        handed as = dispatched msgs := by
  refine ⟨fun as conn _ c => ?_, fun msgs hwf hcl => ⟨fun chunks hq => ?_, fun as conn hr hq => ?_⟩⟩
  · rw [← returns_iff]
    constructor
    · rintro ⟨conn', out, fuel, h⟩
      exact ⟨fuel, _, h⟩
    · rintro ⟨fuel, r, h⟩
      exact ⟨r.1, r.2, fuel, h⟩
  · exact (mid_start ssl buf msgs).chunks hwf hcl chunks hq
  · obtain ⟨ms₁, ms₂, r, hmid⟩ := (mid_start ssl buf msgs).run hwf hcl hr hq
    exact hmid.handed_all hwf hq

/-- A heartbeat response of 13 bytes. -/
def heartbeatRsp : Bytes := [0x57, 0x53, 0x46, 0x31, 0, 0, 0, 13, 3, 0, 0, 0, 1]

/-- Two heartbeat responses, cut inside the first. -/
theorem wsf_recv_parses_heartbeats :
    ∃ as conn, Run Deliver ⟨true, fun _ => 0, 0⟩ as conn ∧
      as.map Prod.fst = [heartbeatRsp.take 5, heartbeatRsp.drop 5 ++ heartbeatRsp] ∧
      handed as = dispatched [heartbeatRsp, heartbeatRsp] := by
  have hm : WellFormed heartbeatRsp := ⟨by decide, by decide, by decide, by decide⟩
  have hwf : ∀ m ∈ [heartbeatRsp, heartbeatRsp], WellFormed m := by simp [hm]
  have hcl : ClosesLast true [heartbeatRsp, heartbeatRsp] := by
    intro l₁ m l₂ he hc
    have hmem : m ∈ [heartbeatRsp, heartbeatRsp] := by simp [he]
    have hmeq : m = heartbeatRsp := by simpa using hmem
    rw [hmeq] at hc
    exact absurd hc (by decide)
  obtain ⟨hchunks, hall⟩ := (wsf_recv_parses true fun _ => 0).2 _ hwf hcl
  obtain ⟨as, conn, hr, has⟩ :=
    hchunks [heartbeatRsp.take 5, heartbeatRsp.drop 5 ++ heartbeatRsp] (by decide)
  exact ⟨as, conn, hr, has, hall as conn hr (by unfold stream; rw [has]; decide)⟩

/-- A header with length 0 is handled for ever. -/
theorem wsf_recv_not_returns :
    ¬ ∀ ssl buf as conn, Run Deliver ⟨ssl, buf, 0⟩ as conn → ∀ c, ∃ conn' out,
      Deliver conn (c, out) conn' := by
  intro hall
  obtain ⟨conn', out, hd⟩ := hall true (fun _ => 0) [] _ .nil
    [0x57, 0x53, 0x46, 0x31, 0, 0, 0, 0, 1, 0, 0, 0, 1]
  obtain ⟨fuel, hd⟩ := hd
  have hz : MeetsZero (WsfConn.recv ⟨true, fun _ => 0, 0⟩
      [0x57, 0x53, 0x46, 0x31, 0, 0, 0, 0, 1, 0, 0, 0, 1]) :=
    .here ⟨by decide, by decide, by decide⟩ (by decide) (by decide)
  rw [never_returns hz] at hd
  cases hd

end Wsf
