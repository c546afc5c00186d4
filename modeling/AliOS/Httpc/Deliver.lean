/-
  When the client delivers a body whole.

  A body of a given length needs room in `response_buf` for what comes with the end of the headers:
  what has no room there is in no later call.  In chunks, besides, each payload has to be in `data`
  with a byte behind it when its header is read, as `len` is not cleared behind the last read of a
  payload.
-/
import AliOS.Httpc.Head

namespace Httpc

open StateTransition Relation

variable {R b p pos n k : ℕ} {closed : Bool} {all rs : List Bytes} {s t u : State} {d bs : Bytes}

/-! ## A body of a given length -/

theorem step_payload (h : s.phase = .payload n) : step R closed s = some (s.payload R closed n) := by
  rw [step.eq_def, h]

theorem step_retrieveContent (h : s.phase = .retrieveContent) :
    step R closed s = some
      { s with phase := if s.isChunked ∧ s.retrieveLen ≤ 0 then .chunkHeader else .payload (u32 s.retrieveLen) } := by
  rw [step.eq_def, h]

theorem retrieve_known (h : ¬ (s.responseContentLen = 2 ^ 32 - 1 ∧ s.isChunked = false)) :
    s.retrieve = { s with isMore := true, phase := .retrieveContent } := by
  rw [State.retrieve, if_neg h]

/-- `data` is copied. -/
def State.copied (s : State) : State :=
  { s with responseBuf := s.responseBuf ++ s.data, retrieveLen := i32 (s.retrieveLen - s.data.length) }

theorem payload_part (hd : s.data.length ≤ n) (hroom : s.responseBuf.length + s.data.length < R - 1) :
    s.payload R closed n =
      if n - s.data.length ≠ 0 then
        s.copied.recv closed
          (min (min (HTTPCLIENT_CHUNK_SIZE - 1) (R - 1 - s.copied.responseBuf.length)) (n - s.data.length)) fun s' bs =>
            { s' with data := bs, phase := .payload (n - s.data.length) }
      else if s.isChunked then { s.copied with phase := .chunkEnd }
      else { s.copied with isMore := false, phase := .returned .success } := by
  rw [State.payload, Nat.min_eq_left hd]
  rw [if_pos hroom, if_neg (Nat.not_lt_of_le hd), List.take_length]
  rfl

theorem payload_full (hroom : ¬ s.responseBuf.length + min s.data.length n < R - 1) :
    s.payload R closed n =
      { s with
        responseBuf := s.responseBuf ++ s.data.take (R - 1 - s.responseBuf.length)
        retrieveLen := i32 (s.retrieveLen - (R - 1 - s.responseBuf.length : ℕ))
        phase := .returned .moreData } := by
  rw [State.payload]
  exact if_neg hroom

theorem next_call (hph : s.phase = .returned .moreData) (hm : s.isMore = true)
    (hlen : ¬ (s.responseContentLen = 2 ^ 32 - 1 ∧ s.isChunked = false)) :
    Reaches (step R closed) s
      { s with delivered := s.delivered ++ s.responseBuf, responseBuf := [], data := [], phase := .retrieveContent } := by
  have hagain :
      step R closed s = some { s with delivered := s.delivered ++ s.responseBuf, phase := .recvResponse } := by
    rw [step_returned hph, State.again, hm]
    rfl
  refine (reach_one hagain).trans (reach_one ?_)
  have hcall :
      ({ s with delivered := s.delivered ++ s.responseBuf, phase := .recvResponse } : State).recvResponse closed =
        { s with
          delivered := s.delivered ++ s.responseBuf, responseBuf := [], data := [], phase := .retrieveContent } := by
    rw [State.recvResponse, if_pos hm, State.retrieve, if_neg hlen, hm]
  exact congrArg some hcall

/-- In the loop over `readLen`, with `n` bytes of the body to come. -/
structure Rest (s : State) (n : ℕ) : Prop where
  phase : s.phase = .payload n
  more : s.isMore = true
  chunked : s.isChunked = false
  len : s.responseContentLen ≠ 2 ^ 32 - 1
  retrieve : s.retrieveLen = n
  small : n < 2 ^ 31

theorem Rest.sub (h : Rest s n) (hk : k ≤ n) : i32 (s.retrieveLen - k) = (n - k : ℕ) := by
  rw [h.retrieve, ← Int.ofNat_sub hk]
  exact i32_of_lt (Nat.lt_of_le_of_lt (Nat.sub_le n k) h.small)

theorem Rest.copy (h : Rest s n) (hn : s.data.length ≤ n) (hroom : s.responseBuf.length + s.data.length < R - 1) :
    step R closed s = some (
      if n - s.data.length ≠ 0 then
        s.copied.recv closed
          (min (min (HTTPCLIENT_CHUNK_SIZE - 1) (R - 1 - s.copied.responseBuf.length)) (n - s.data.length)) fun s' bs =>
            { s' with data := bs, phase := .payload (n - s.data.length) }
      else { s.copied with isMore := false, phase := .returned .success }) := by
  rw [step_payload h.phase, payload_part hn hroom, h.chunked]
  rfl

theorem Rest.last (h : Rest s n) (hn : n = s.data.length) (hroom : s.responseBuf.length + s.data.length < R - 1) :
    Ends R closed s (s.delivered ++ (s.responseBuf ++ s.data)) := by
  have hstep : step R closed s = _ := h.copy (Nat.le_of_eq hn.symm) hroom
  rw [if_neg (by omega)] at hstep
  exact ⟨_, reach_one hstep, ⟨_, rfl⟩, rfl, rfl⟩

theorem Rest.full (h : Rest s n) (hn : s.data.length ≤ n) (hroom : ¬ s.responseBuf.length + s.data.length < R - 1) :
    ∃ u, Reaches (step R closed) s u ∧ Rest u (n - (R - 1 - s.responseBuf.length)) ∧ u.data = [] ∧
      u.responseBuf = [] ∧ u.reads = s.reads ∧
      u.delivered = s.delivered ++ (s.responseBuf ++ s.data.take (R - 1 - s.responseBuf.length)) := by
  have hk : R - 1 - s.responseBuf.length ≤ n := by omega
  have hmin : ¬ s.responseBuf.length + min s.data.length n < R - 1 := by rwa [Nat.min_eq_left hn]
  have hsub := h.sub hk
  have hlen : ¬ (s.responseContentLen = 2 ^ 32 - 1 ∧ s.isChunked = false) := fun hl => h.len hl.1
  have hstep : step R closed s = _ := (step_payload h.phase).trans (congrArg some (payload_full hmin))
  refine ⟨_, ((reach_one hstep).trans (next_call rfl h.more hlen)).trans (reach_one (step_retrieveContent rfl)),
    ⟨?_, h.more, h.chunked, h.len, hsub, Nat.lt_of_le_of_lt (Nat.sub_le _ _) h.small⟩, rfl, rfl, rfl, rfl⟩
  rw [if_neg fun hc => by simp [h.chunked] at hc, hsub, u32_of_lt (Nat.lt_of_le_of_lt (Nat.sub_le _ _) h.small)]

theorem Rest.next {r : Bytes} (h : Rest s n) (hrs : s.reads = r :: rs) (hn : s.data.length < n)
    (hroom : s.responseBuf.length + s.data.length < R - 1) (hfine : Fine R closed s) :
    ∃ u, Reaches (step R closed) s u ∧ Rest u (n - s.data.length) ∧ u.data = r ∧ u.reads = rs ∧
      u.responseBuf = s.responseBuf ++ s.data ∧ u.delivered = s.delivered ∧
      u.responseBuf.length + r.length ≤ R - 1 ∧ r.length ≤ n - s.data.length := by
  have hstep : step R closed s = _ := h.copy (Nat.le_of_lt hn) hroom
  have hcount : s.copied.responseBuf.length = s.responseBuf.length + s.data.length := List.length_append
  rw [if_pos (by omega), recv_cons (s := s.copied) hrs (by rw [hcount]; simp only [HTTPCLIENT_CHUNK_SIZE]; omega)] at hstep
  by_cases hr : r.length ≤
      min (min (HTTPCLIENT_CHUNK_SIZE - 1) (R - 1 - s.copied.responseBuf.length)) (n - s.data.length)
  · rw [if_pos hr] at hstep
    refine ⟨_, reach_one hstep, ⟨rfl, h.more, h.chunked, h.len, h.sub (Nat.le_of_lt hn),
      Nat.lt_of_le_of_lt (Nat.sub_le _ _) h.small⟩, rfl, rfl, rfl, rfl, ?_, by omega⟩
    change s.copied.responseBuf.length + r.length ≤ R - 1
    omega
  · rw [if_neg hr] at hstep
    exact absurd rfl (hfine _ (reach_one hstep))

theorem Rest.turn (hR : 2 ≤ R)
    (hcopy : ∀ {u m}, Rest u m → u.reads = rs → m = u.data.length + rs.flatten.length →
      u.responseBuf.length + u.data.length < R - 1 → Fine R closed u →
      Ends R closed u (u.delivered ++ (u.responseBuf ++ (u.data ++ rs.flatten))))
    (h : Rest s n) (hrs : s.reads = rs) (hn : n = s.data.length + rs.flatten.length)
    (hroom : s.responseBuf.length + s.data.length ≤ R - 1) (hfine : Fine R closed s) :
    Ends R closed s (s.delivered ++ (s.responseBuf ++ (s.data ++ rs.flatten))) := by
  by_cases hlt : s.responseBuf.length + s.data.length < R - 1
  · exact hcopy h hrs hn hlt hfine
  · obtain ⟨u, hreach, hu, hdata, hbuf, hreads, hdel⟩ := h.full (R := R) (by omega) hlt
    have htake : s.data.take (R - 1 - s.responseBuf.length) = s.data := List.take_of_length_le (by omega)
    have hend := hcopy hu (hreads.trans hrs) (by rw [hdata, List.length_nil]; omega)
      (by rw [hdata, hbuf, List.length_nil]; omega) (hfine.reach hreach)
    rw [hdel, hbuf, hdata, htake] at hend
    refine .of_reach hreach ?_
    simpa using hend

theorem length_loop (hR : 2 ≤ R) (h : Rest s n) (hrs : s.reads = rs) (hn : n = s.data.length + rs.flatten.length)
    (hroom : s.responseBuf.length + s.data.length ≤ R - 1) (hfine : Fine R closed s) :
    Ends R closed s (s.delivered ++ (s.responseBuf ++ (s.data ++ rs.flatten))) := by
  induction rs generalizing s n with
  | nil =>
    refine Rest.turn hR (fun {u m} hu _ hm hroom _ => ?_) h hrs hn hroom hfine
    rw [List.flatten_nil, List.append_nil]
    exact hu.last hm hroom
  | cons r rs ih =>
    refine Rest.turn hR (fun {u m} hu hreads hm hroom hfine => ?_) h hrs hn hroom hfine
    rw [List.flatten_cons, List.length_append] at hm
    by_cases h0 : m = u.data.length
    · have hnil : (r :: rs).flatten = [] := by
        rw [List.flatten_cons]
        exact List.length_eq_zero_iff.1 (by rw [List.length_append]; omega)
      rw [hnil, List.append_nil]
      exact hu.last h0 hroom
    · obtain ⟨v, hreach, hv, hdata, hreads', hbuf, hdel, hroom', -⟩ := hu.next hreads (by omega) hroom hfine
      refine .of_reach hreach ?_
      have hend := ih hv hreads' (by rw [hdata]; omega) (hdata ▸ hroom') (hfine.reach hreach)
      rw [hdel, hbuf, hdata] at hend
      simpa using hend

/-- Bytes of the body are gone: fewer are to come than are waited for. -/
def Gap (s : State) : Phase → Prop
  | .payload n => s.data.length + s.reads.flatten.length < n ∧ s.retrieveLen = n ∧ n < 2 ^ 31
  | .retrieveContent => ∃ n : ℕ, s.data.length + s.reads.flatten.length < n ∧ s.retrieveLen = n ∧ n < 2 ^ 31
  | .recvResponse | .returned .moreData => ∃ n : ℕ, s.reads.flatten.length < n ∧ s.retrieveLen = n ∧ n < 2 ^ 31
  | .returned .errorConn | .unasked => True
  | _ => False

structure Lost (s : State) : Prop where
  more : s.isMore = true
  chunked : s.isChunked = false
  len : s.responseContentLen ≠ 2 ^ 32 - 1
  gap : Gap s s.phase

theorem Lost.payload (h : Lost s) (hph : s.phase = .payload n) (hstep : step R closed s = some t) : Lost t := by
  have hgap := h.gap
  rw [hph] at hgap
  obtain ⟨hlt, hret, hsmall⟩ := hgap
  have hrest : Rest s n := ⟨hph, h.more, h.chunked, h.len, hret, hsmall⟩
  have hn : s.data.length ≤ n := by omega
  by_cases hroom : s.responseBuf.length + s.data.length < R - 1
  · rw [hrest.copy hn hroom, if_pos (by omega)] at hstep
    cases hstep
    have hcount : s.copied.responseBuf.length = s.responseBuf.length + s.data.length := List.length_append
    have hnext : ∀ {d rs}, d.length + rs.flatten.length < n - s.data.length →
        Lost { s.copied with data := d, reads := rs, phase := .payload (n - s.data.length) } :=
      fun hgap => ⟨h.more, h.chunked, h.len, hgap, hrest.sub hn, Nat.lt_of_le_of_lt (Nat.sub_le _ _) hsmall⟩
    refine recv_keeps ?_ ⟨h.more, h.chunked, h.len, trivial⟩ (fun hrs => hnext ?_) (fun {r rs} hrs _ => hnext ?_)
      ⟨h.more, h.chunked, h.len, trivial⟩
    · simp only [HTTPCLIENT_CHUNK_SIZE]
      omega
    · rw [List.length_nil]
      change s.reads = [] at hrs
      change 0 + s.reads.flatten.length < _
      omega
    · change s.reads = r :: rs at hrs
      rw [hrs, List.flatten_cons, List.length_append] at hlt
      change r.length + rs.flatten.length < _
      omega
  · have hk : R - 1 - s.responseBuf.length ≤ n := by omega
    rw [step_payload hph, payload_full (by rwa [Nat.min_eq_left hn])] at hstep
    cases hstep
    exact ⟨h.more, h.chunked, h.len, _, by dsimp only; omega, hrest.sub hk, by omega⟩

theorem Lost.kept (h : Lost s) (hstep : step R closed s = some t) : Lost t := by
  have hgap := h.gap
  cases hph : s.phase with
  | payload n => exact h.payload hph hstep
  | recvResponse =>
    rw [hph] at hgap
    rw [step.eq_def, hph] at hstep
    cases hstep
    rw [State.recvResponse, if_pos h.more, State.retrieve]
    refine ⟨rfl, h.chunked, h.len, ?_⟩
    rw [if_neg fun hl => h.len hl.1]
    obtain ⟨n, hlt, hret⟩ := hgap
    exact ⟨n, by rwa [List.length_nil, Nat.zero_add], hret⟩
  | retrieveContent =>
    rw [hph] at hgap
    obtain ⟨n, hlt, hret, hsmall⟩ := hgap
    have hphase : (if s.isChunked ∧ s.retrieveLen ≤ 0 then Phase.chunkHeader else .payload (u32 s.retrieveLen)) =
        .payload n := by
      rw [if_neg fun hc => by simp [h.chunked] at hc, hret, u32_of_lt hsmall]
    rw [step_retrieveContent hph, hphase] at hstep
    cases hstep
    exact ⟨h.more, h.chunked, h.len, hlt, hret, hsmall⟩
  | returned ret =>
    rw [hph] at hgap
    rw [step_returned hph, State.again, h.more] at hstep
    cases ret with
    | moreData =>
      cases hstep
      exact ⟨rfl, h.chunked, h.len, hgap⟩
    | errorConn => cases hstep
    | success | errorHttp | errorUnresolvedDns => exact hgap.elim
  | unasked =>
    rw [step.eq_def, hph] at hstep
    cases hstep
  | responseParse | untilClosed | chunkHeader | chunkEnd | unread =>
    rw [hph] at hgap
    exact hgap.elim

theorem Lost.fails (h : Lost u) (hr : Reaches (step R closed) s u) : Fails R closed s := by
  refine ⟨u, hr, fun t ht => ?_⟩
  have hlost : Lost t := by
    induction ht with
    | refl => exact h
    | tail _ hstep ih => exact ih.kept hstep
  exact hlost.more

/-- **What is read with the end of the headers** is kept by one call, or some of it by none. -/
theorem length_body {content : Bytes} (hR : 2 ≤ R) (hch : s.isChunked = false) (hbuf : s.responseBuf = [])
    (hdel : s.delivered = []) (hlen : s.responseContentLen = content.length) (hret : s.retrieveLen = content.length)
    (hsmall : content.length < 2 ^ 31) (hstream : s.data ++ s.reads.flatten = content)
    (hfine : Fine R closed s.retrieve) :
    if s.data.length ≤ R - 1 then Ends R closed s.retrieve content else Fails R closed s.retrieve := by
  have hknown : s.responseContentLen ≠ 2 ^ 32 - 1 := by omega
  have hphase : (if s.isChunked ∧ s.retrieveLen ≤ 0 then Phase.chunkHeader else .payload (u32 s.retrieveLen)) =
      .payload content.length := by
    rw [if_neg fun hc => by simp [hch] at hc, hret, u32_of_lt hsmall]
  have hreach : Reaches (step R closed) s.retrieve { s with isMore := true, phase := .payload content.length } := by
    rw [retrieve_known fun hl => hknown hl.1, ← hphase]
    exact reach_one (step_retrieveContent rfl)
  have hrest : Rest { s with isMore := true, phase := .payload content.length } content.length :=
    ⟨rfl, rfl, hch, hknown, hret, hsmall⟩
  have hn : content.length = s.data.length + s.reads.flatten.length := by rw [← hstream, List.length_append]
  split_ifs with hroom
  · have hend := length_loop hR hrest rfl hn (by rw [hbuf]; simpa using hroom) (hfine.reach hreach)
    have hwhole : s.delivered ++ (s.responseBuf ++ (s.data ++ s.reads.flatten)) = content := by
      rw [hdel, hbuf, hstream]
      rfl
    rw [← hwhole]
    exact .of_reach hreach hend
  · have hfull : ¬ s.responseBuf.length + s.data.length < R - 1 := by
      rw [hbuf, List.length_nil]
      omega
    obtain ⟨u, hreach', hu, hdata, -, hreads, -⟩ := 
      hrest.full (R := R) (show s.data.length ≤ content.length by omega) hfull
    refine Lost.fails ⟨hu.more, hu.chunked, hu.len, ?_⟩ (hreach.trans hreach')
    rw [hu.phase]
    refine ⟨?_, hu.retrieve, hu.small⟩
    rw [hdata, hreads, hbuf]
    simp only [List.length_nil]
    omega

end Httpc
