/-
  Readers.

  A round takes the readers by the indices that they had when it polled; a cancel in the
  middle of the round moves the readers behind the one it removes, and not their `pollfds`.
  `ReadersMeet` says which calls leave the indices that the round still looks at.
-/
import AliOS.Yloop.Loop
import Mathlib.Data.List.Nodup
import Mathlib.Data.List.InsertIdx

namespace Yloop

open Lib

/-- The index that the round looks at next, and the number of readers that it polled. -/
def Phase.rest : Phase → Option (ℕ × ℕ)
  | .action n res => if res ≤ 0 then none else some (0, n)
  | .dispatch n i => some (i, n)
  | .call n i => some (i + 1, n)
  | _ => none

/-- The round still looks at the index. -/
def Sys.Ahead (s : Sys) (k : ℕ) : Prop := ∃ i n, s.phase.rest = some (i, n) ∧ i ≤ k ∧ k < n

/-- `pollfds` says that the descriptor is readable. -/
def Sys.ReadyAt (s : Sys) (k : ℕ) : Prop := ∃ p, s.ctx.pollfds[k]? = some p ∧ p.revents = true

/-- There are less than 255 readers when one is added, and the round is not going to look behind
    them; and a reader is not cancelled while the round is going to call it, or one behind it. -/
def ReadersMeet (s : Sys) : Act → Prop
  | .pollReadFd sock _ _ malloc _ => 0 ≤ sock → malloc = true →
      s.ctx.readerCount < 255 ∧ ∀ k, s.Ahead k → k < s.ctx.readerCount
  | .cancelPollReadFd sock => ∀ j, s.ctx.readerOf sock = some j → ∀ k, s.Ahead k → j ≤ k → ¬ s.ReadyAt k
  | _ => True

/-- Each callback was of a registration in place whose descriptor was reported in its round; in each
    round that came to its end every registration was called at most once, and those that were
    reported and are in place were called; and no index is past the arrays. -/
structure Delivered (s : Sys) : Prop where
  calls : ∀ c ∈ s.calls, c.reg ∈ c.inPlace ∧ c.reg ∈ c.readable
  rounds : ∀ r ∈ s.rounds, r.called.Nodup ∧ ∀ reg ∈ r.readable, reg ∈ r.inPlace → reg ∈ r.called
  fault : s.fault = false

/-- The registrations of the indices below `i` that were reported. -/
def Sys.readyBelow (s : Sys) (ready : ℕ → Bool) (i : ℕ) : List ℕ :=
  ((s.polled.take i).zipIdx.filter fun p => ready p.2).map Prod.fst

/-- Inside a round that is to look at the indices from `i` to `n`: `ready` is what the poll reported.
    What is behind holds the readers that were polled, as far as they are to be called. -/
structure InRound (s : Sys) (ready : ℕ → Bool) (i n : ℕ) : Prop where
  le : i ≤ n
  polled : s.polled.length = n
  nodup : s.polled.Nodup
  readable : s.readable = s.readyBelow ready n
  called : s.called = s.readyBelow ready i
  revents : ∀ k, i ≤ k → k < n → ∃ p, s.ctx.pollfds[k]? = some p ∧ p.revents = ready k
  inPlace : ∀ k, i ≤ k → k < n → ready k = true →
    k < s.ctx.readerCount ∧ (s.ctx.readers[k]?).map (·.reg) = s.polled[k]?

/-- What the steps under the condition keep. -/
structure ReadersInv (s : Sys) : Prop where
  delivered : Delivered s
  arrays : s.ctx.readerCount ≤ s.ctx.readers.length ∧ s.ctx.readerCount ≤ s.ctx.pollfds.length
  regs : s.inPlace.Nodup ∧ ∀ r ∈ s.inPlace, r < s.regs
  poll : ∀ n d, s.phase = .poll n d → n = s.ctx.readerCount
  round : ∀ i n, s.phase.rest = some (i, n) → ∃ ready, InRound s ready i n

variable {s s' : Sys} {a : Act} {as : List Act} {ready : ℕ → Bool} {i n k : ℕ}

/-! ## What was reported -/

theorem readyBelow_succ (h : i < s.polled.length) :
    s.readyBelow ready (i + 1) = s.readyBelow ready i ++ if ready i then [s.polled[i]] else [] := by
  rw [Sys.readyBelow, Sys.readyBelow, List.take_succ_eq_append_getElem h, List.zipIdx_append, List.filter_append,
    List.map_append, List.length_take, Nat.min_eq_left (Nat.le_of_lt h)]
  cases hi : ready i <;> simp [hi]

theorem readyBelow_sublist : (s.readyBelow ready i).Sublist s.polled := by
  have hfst : (s.polled.take i).zipIdx.map Prod.fst = s.polled.take i := List.zipIdx_map_fst _ _
  have hsub := (List.filter_sublist (p := fun p : ℕ × ℕ => ready p.2) (l := (s.polled.take i).zipIdx)).map Prod.fst
  rw [hfst] at hsub
  exact hsub.trans (List.take_sublist _ _)

theorem mem_readyBelow (h : k < s.polled.length) (hki : k < i) (hk : ready k = true) :
    s.polled[k] ∈ s.readyBelow ready i := by
  refine List.mem_map.2 ⟨(s.polled[k], k), List.mem_filter.2 ⟨?_, hk⟩, rfl⟩
  rw [List.mem_zipIdx_iff_getElem?, List.getElem?_take_of_lt hki]
  exact List.getElem?_eq_getElem h

/-! ## The arrays -/

/-- What a step has to leave. -/
structure SameRound (s s' : Sys) : Prop where
  polled : s'.polled = s.polled
  readable : s'.readable = s.readable
  called : s'.called = s.called
  calls : s'.calls = s.calls
  rounds : s'.rounds = s.rounds
  fault : s'.fault = s.fault

theorem SameRound.delivered (h : SameRound s s') (hd : Delivered s) : Delivered s' := by
  refine ⟨?_, ?_, ?_⟩
  · rw [h.calls]
    exact hd.calls
  · rw [h.rounds]
    exact hd.rounds
  · rw [h.fault]
    exact hd.fault

/-- The round goes on over arrays that are as before at the indices that are to be called. -/
theorem InRound.same (h : InRound s ready i n) (hs : SameRound s s')
    (hp : ∀ k, i ≤ k → k < n → s'.ctx.pollfds[k]? = s.ctx.pollfds[k]?)
    (hr : ∀ k, i ≤ k → k < n → ready k = true → k < s.ctx.readerCount →
      k < s'.ctx.readerCount ∧ s'.ctx.readers[k]? = s.ctx.readers[k]?) : InRound s' ready i n := by
  refine ⟨h.le, hs.polled ▸ h.polled, hs.polled ▸ h.nodup, ?_, ?_, ?_, ?_⟩
  · rw [hs.readable, h.readable, Sys.readyBelow, Sys.readyBelow, hs.polled]
  · rw [hs.called, h.called, Sys.readyBelow, Sys.readyBelow, hs.polled]
  · intro k hik hkn
    rw [hp k hik hkn]
    exact h.revents k hik hkn
  · intro k hik hkn hk
    obtain ⟨hlt, heq⟩ := h.inPlace k hik hkn hk
    obtain ⟨hlt', heq'⟩ := hr k hik hkn hk hlt
    rw [heq', hs.polled]
    exact ⟨hlt', heq⟩

theorem ReadersInv.same (h : ReadersInv s) (hs : SameRound s s') (hr : s'.ctx.readers = s.ctx.readers)
    (hc : s'.ctx.readerCount = s.ctx.readerCount) (hp : s'.ctx.pollfds = s.ctx.pollfds) (hg : s'.regs = s.regs)
    (hpoll : ∀ n d, s'.phase = .poll n d → s.phase = .poll n d)
    (hrest : ∀ i n, s'.phase.rest = some (i, n) → s.phase.rest = some (i, n)) : ReadersInv s' := by
  have hin : s'.inPlace = s.inPlace := by
    rw [Sys.inPlace, Sys.inPlace, Ctx.active, Ctx.active, hr, hc]
  refine ⟨hs.delivered h.delivered, ?_, ?_, ?_, ?_⟩
  · rw [hr, hc, hp]
    exact h.arrays
  · rw [hin, hg]
    exact h.regs
  · intro n d hph
    rw [hc]
    exact h.poll n d (hpoll n d hph)
  · intro i n hph
    obtain ⟨ready, hround⟩ := h.round i n (hrest i n hph)
    refine ⟨ready, hround.same hs (fun k _ _ => by rw [hp]) fun k _ _ _ hk => ?_⟩
    rw [hc, hr]
    exact ⟨hk, rfl⟩

theorem Phase.rest_of_app {p : Phase} {d : ℤ} (h : p.app = true) : p ≠ .poll n d := by
  rintro rfl
  cases h

theorem ReadersInv.pollReadFd {sock : ℤ} {cb pd : ℕ} {malloc : Bool} {junk : PollFd} (h : ReadersInv s)
    (ha : s.phase.app = true) (hm : ReadersMeet s (.pollReadFd sock cb pd malloc junk)) :
    ReadersInv (s.next (.pollReadFd sock cb pd malloc junk)) := by
  have hregs : ∀ r ∈ s.inPlace, r < s.regs + 1 := fun r hr => Nat.lt_succ_of_lt (h.regs.2 r hr)
  by_cases hno : sock < 0 ∨ malloc = false
  · have hctx : s.ctx.pollReadFd s.regs sock cb pd malloc junk = s.ctx := by
      rcases hno with hno | rfl
      · simp [Ctx.pollReadFd, hno]
      · simp [Ctx.pollReadFd]
    simp only [Sys.next, Sys.setCtx, hctx]
    exact ⟨⟨h.delivered.calls, h.delivered.rounds, h.delivered.fault⟩, h.arrays, ⟨h.regs.1, hregs⟩, h.poll, fun i n hr =>
      (h.round i n hr).imp fun _ hi => hi.same ⟨rfl, rfl, rfl, rfl, rfl, rfl⟩ (fun _ _ _ => rfl) fun _ _ _ _ hk => ⟨hk, rfl⟩⟩
  · obtain ⟨hsock, hmal⟩ := not_or.1 hno
    obtain ⟨hlt, hahead⟩ := hm (Int.not_lt.1 hsock) (by simpa using hmal)
    have hcount : (s.ctx.readerCount + 1) % 256 = s.ctx.readerCount + 1 := Nat.mod_eq_of_lt (by omega)
    have hctx : s.ctx.pollReadFd s.regs sock cb pd malloc junk =
        { s.ctx with
          readers := s.ctx.readers.take s.ctx.readerCount ++ [⟨s.regs, sock, pd, cb⟩]
          pollfds := s.ctx.pollfds.take s.ctx.readerCount ++ [junk]
          readerCount := s.ctx.readerCount + 1 } := by
      simp [Ctx.pollReadFd, hsock, eq_true_of_ne_false hmal, hcount]
    have htake : (s.ctx.readers.take s.ctx.readerCount).length = s.ctx.readerCount := by
      rw [List.length_take, Nat.min_eq_left h.arrays.1]
    have hin : (s.next (.pollReadFd sock cb pd malloc junk)).inPlace = s.inPlace ++ [s.regs] := by
      simp only [Sys.next, Sys.setCtx, hctx, Sys.inPlace, Ctx.active]
      have hlen : (s.ctx.readers.take s.ctx.readerCount ++ [(⟨s.regs, sock, pd, cb⟩ : Reader)]).length ≤
          s.ctx.readerCount + 1 := by
        rw [List.length_append, htake]
        exact Nat.le_refl _
      rw [List.take_of_length_le hlen, List.map_append]
      rfl
    refine ⟨⟨h.delivered.calls, h.delivered.rounds, h.delivered.fault⟩, ?_, ?_, ?_, ?_⟩
    · simp only [Sys.next, Sys.setCtx, hctx, List.length_append, List.length_take, List.length_singleton]
      have := h.arrays
      omega
    · rw [hin]
      refine ⟨List.nodup_append.2 ⟨h.regs.1, List.nodup_singleton _, ?_⟩, ?_⟩
      · intro x hx y hy
        rw [List.mem_singleton.1 hy]
        exact Nat.ne_of_lt (h.regs.2 x hx)
      · intro r hr
        rcases List.mem_append.1 hr with hr | hr
        · exact hregs r hr
        · rw [List.mem_singleton.1 hr]
          exact Nat.lt_succ_self _
    · intro n d hph
      exact absurd hph (Phase.rest_of_app ha)
    · intro i n hph
      obtain ⟨ready, hround⟩ := h.round i n hph
      have hbelow : ∀ k, i ≤ k → k < n → k < s.ctx.readerCount := fun k hik hkn => hahead k ⟨i, n, hph, hik, hkn⟩
      refine ⟨ready, hround.same ⟨rfl, rfl, rfl, rfl, rfl, rfl⟩ ?_ ?_⟩
      · intro k hik hkn
        have hk := hbelow k hik hkn
        simp only [Sys.next, Sys.setCtx, hctx]
        rw [List.getElem?_append_left (by rw [List.length_take]; have := h.arrays; omega),
          List.getElem?_take_of_lt hk]
      · intro k _ _ _ hk
        simp only [Sys.next, Sys.setCtx, hctx]
        rw [List.getElem?_append_left (htake.symm ▸ hk), List.getElem?_take_of_lt hk]
        exact ⟨Nat.lt_succ_of_lt hk, rfl⟩

theorem Ctx.readerOf_lt {c : Ctx} {sock : ℤ} {j : ℕ} (h : c.readerOf sock = some j) : j < c.readerCount := by
  rw [Ctx.readerOf, List.findIdx?_eq_some_iff_getElem] at h
  obtain ⟨hlt, -⟩ := h
  rw [Ctx.active, List.length_take] at hlt
  omega

theorem take_cancelled {l : List Reader} {j c : ℕ} (hj : j < c) (hc : c ≤ l.length) :
    (l.take j ++ (l.take c).drop (j + 1) ++ l.drop (c - 1)).take (c - 1) = (l.take c).eraseIdx j := by
  have hlen : (l.take j ++ (l.take c).drop (j + 1)).length = c - 1 := by
    simp only [List.length_append, List.length_take, List.length_drop]
    omega
  rw [List.take_append_of_le_length (Nat.le_of_eq hlen.symm), List.take_of_length_le (Nat.le_of_eq hlen),
    List.eraseIdx_eq_take_drop_succ, List.take_take, Nat.min_eq_left (Nat.le_of_lt hj)]

theorem ReadersInv.cancelPollReadFd {sock : ℤ} (h : ReadersInv s) (ha : s.phase.app = true)
    (hm : ReadersMeet s (.cancelPollReadFd sock)) : ReadersInv (s.next (.cancelPollReadFd sock)) := by
  cases hj : s.ctx.readerOf sock with
  | none =>
    have hctx : s.next (.cancelPollReadFd sock) = s := by
      simp only [Sys.next, Sys.setCtx, Ctx.cancelPollReadFd, hj]
    rwa [hctx]
  | some j =>
    have hlt := Ctx.readerOf_lt hj
    obtain ⟨hlr, hlp⟩ := h.arrays
    have hctx : s.ctx.cancelPollReadFd sock =
        { s.ctx with
          readers := s.ctx.readers.take j ++ (s.ctx.readers.take s.ctx.readerCount).drop (j + 1) ++
            s.ctx.readers.drop (s.ctx.readerCount - 1)
          readerCount := s.ctx.readerCount - 1 } := by
      simp only [Ctx.cancelPollReadFd, hj]
    have hin : (s.next (.cancelPollReadFd sock)).inPlace = s.inPlace.eraseIdx j := by
      simp only [Sys.next, Sys.setCtx, hctx, Sys.inPlace, Ctx.active]
      rw [take_cancelled hlt hlr, List.eraseIdx_map]
    refine ⟨⟨h.delivered.calls, h.delivered.rounds, h.delivered.fault⟩, ?_, ?_, ?_, ?_⟩
    · simp only [Sys.next, Sys.setCtx, hctx, List.length_append, List.length_take, List.length_drop]
      omega
    · rw [hin]
      refine ⟨h.regs.1.sublist (List.eraseIdx_sublist _ _), ?_⟩
      intro r hr
      exact h.regs.2 r ((List.eraseIdx_sublist _ _).subset hr)
    · intro n d hph
      exact absurd hph (Phase.rest_of_app ha)
    · intro i n hph
      obtain ⟨ready, hround⟩ := h.round i n hph
      refine ⟨ready, hround.same ⟨rfl, rfl, rfl, rfl, rfl, rfl⟩ (fun k _ _ => ?_) ?_⟩
      · simp only [Sys.next, Sys.setCtx, hctx]
      · -- what is still to be called is in front of the reader that goes
        intro k hik hkn hk _
        have hkj : k < j := by
          by_contra hle
          obtain ⟨p, hp, hrev⟩ := hround.revents k hik hkn
          exact hm j hj k ⟨i, n, hph, hik, hkn⟩ (Nat.not_lt.1 hle) ⟨p, hp, hrev.trans hk⟩
        simp only [Sys.next, Sys.setCtx, hctx]
        rw [List.append_assoc, List.getElem?_append_left (by rw [List.length_take]; omega),
          List.getElem?_take_of_lt hkj]
        exact ⟨by omega, rfl⟩

/-! ## The loop -/

theorem fillPollfds_length {c : Ctx} : (fillPollfds c).length = c.pollfds.length := List.length_mapIdx

theorem ReadersInv.head {now : ℤ} (h : ReadersInv s) : ReadersInv (s.head now) := by
  rw [Sys.head]
  split_ifs
  · refine ⟨⟨h.delivered.calls, h.delivered.rounds, h.delivered.fault⟩, ?_, h.regs, ?_, nofun⟩
    · refine ⟨h.arrays.1, ?_⟩
      rw [fillPollfds_length]
      exact h.arrays.2
    · intro n d hph
      exact (Phase.poll.inj hph).1.symm
  · exact h.same ⟨rfl, rfl, rfl, rfl, rfl, rfl⟩ rfl rfl rfl rfl nofun nofun

theorem afterAction_rest {res : ℤ} : (afterAction n res).rest = (Phase.action n res).rest := by
  rw [afterAction, Phase.rest]
  split_ifs <;> rfl

theorem afterAction_ne_poll {res d : ℤ} {m : ℕ} : afterAction n res ≠ .poll m d := by
  rw [afterAction]
  split_ifs <;> nofun

theorem ReadersInv.pollFds {res : ℤ} {eintr : Bool} {now d : ℤ} (h : ReadersInv s) (hph : s.phase = .poll n d) :
    ReadersInv (s.poll n res eintr ready now) := by
  have hn : n = s.ctx.readerCount := h.poll n d hph
  rw [Sys.poll]
  by_cases hres : res < 0 ∧ eintr = false
  · rw [if_pos hres]
    exact h.same ⟨rfl, rfl, rfl, rfl, rfl, rfl⟩ rfl rfl rfl rfl nofun nofun
  · rw [if_neg hres]
    dsimp only
    generalize hdue : (s.ctx.timeouts.head?.filter fun t => decide (t.timeoutMs ≤ now)) = due
    have hlen : (pollRevents n ready s.ctx.pollfds).length = s.ctx.pollfds.length := List.length_mapIdx
    have hrest : (if due.isSome then Phase.action n res else afterAction n res).rest = (Phase.action n res).rest := by
      split_ifs
      · rfl
      · exact afterAction_rest
    refine ⟨⟨h.delivered.calls, h.delivered.rounds, h.delivered.fault⟩, ⟨h.arrays.1, hlen ▸ h.arrays.2⟩, h.regs, ?_, ?_⟩
    · intro m d' hm
      dsimp only at hm
      split_ifs at hm
      exact absurd hm afterAction_ne_poll
    · intro i m hm
      rw [hrest, Phase.rest] at hm
      split_ifs at hm with hle
      obtain ⟨rfl, rfl⟩ := Prod.mk.inj (Option.some.inj hm)
      have hcount : s.inPlace.length = n := by
        rw [Sys.inPlace, List.length_map, Ctx.active, List.length_take, Nat.min_eq_left h.arrays.1, hn]
      refine ⟨ready, Nat.zero_le _, hcount, h.regs.1, ?_, rfl, ?_, ?_⟩
      · exact if_neg hle
      · intro k _ hk
        have hlt : k < s.ctx.pollfds.length := by
          have := h.arrays.2
          omega
        refine ⟨{ s.ctx.pollfds[k] with revents := ready k }, ?_, rfl⟩
        rw [pollRevents, List.getElem?_mapIdx, List.getElem?_eq_getElem hlt, Option.map_some, if_pos hk]
      · intro k _ hk _
        refine ⟨hn ▸ hk, ?_⟩
        rw [Sys.inPlace, Ctx.active, List.getElem?_map, List.getElem?_take_of_lt (hn ▸ hk)]

theorem ReadersInv.call {p : PollFd} (h : ReadersInv s) (hph : s.phase = .dispatch n i) (hlt : i < n)
    (hp : s.ctx.pollfds[i]? = some p) (hrev : p.revents = true) :
    ∃ r, s.ctx.readers[i]? = some r ∧ ReadersInv { s with
      phase := .call n i
      called := s.called ++ [r.reg]
      calls := s.calls ++ [⟨r.reg, s.inPlace, s.readable⟩] } := by
  obtain ⟨ready, hround⟩ := h.round i n (by rw [hph]; rfl)
  have hready : ready i = true := by
    obtain ⟨q, hq, hqr⟩ := hround.revents i (Nat.le_refl i) hlt
    rw [hp] at hq
    cases hq
    exact hqr.symm.trans hrev
  have hpol : i < s.polled.length := hround.polled.symm ▸ hlt
  obtain ⟨hcount, hreg⟩ := hround.inPlace i (Nat.le_refl i) hlt hready
  rw [List.getElem?_eq_getElem hpol] at hreg
  obtain ⟨r, hr, hreg⟩ := Option.map_eq_some_iff.1 hreg
  have hin : r.reg ∈ s.inPlace := by
    refine List.mem_map.2 ⟨r, List.mem_of_getElem? (i := i) ?_, rfl⟩
    rw [Ctx.active, List.getElem?_take_of_lt hcount, hr]
  have hread : r.reg ∈ s.readable := by
    rw [hround.readable, hreg]
    exact mem_readyBelow hpol hlt hready
  refine ⟨r, hr, ⟨?_, h.delivered.rounds, h.delivered.fault⟩, h.arrays, h.regs, nofun, ?_⟩
  · intro c hc
    rcases List.mem_append.1 hc with hc | hc
    · exact h.delivered.calls c hc
    · rw [List.mem_singleton.1 hc]
      exact ⟨hin, hread⟩
  · intro i' n' hrest
    obtain ⟨rfl, rfl⟩ := Prod.mk.inj (Option.some.inj hrest)
    refine ⟨ready, hlt, hround.polled, hround.nodup, hround.readable, ?_, ?_, ?_⟩
    · have hsucc : s.readyBelow ready (i + 1) = s.readyBelow ready i ++ if ready i then [s.polled[i]] else [] :=
        readyBelow_succ hpol
      rw [if_pos hready] at hsucc
      change s.called ++ [r.reg] = s.readyBelow ready (i + 1)
      rw [hsucc, hround.called, hreg]
    · intro k hik
      exact hround.revents k (Nat.le_of_succ_le hik)
    · intro k hik
      exact hround.inPlace k (Nat.le_of_succ_le hik)

theorem ReadersInv.skip {p : PollFd} (h : ReadersInv s) (hph : s.phase = .dispatch n i) (hlt : i < n)
    (hp : s.ctx.pollfds[i]? = some p) (hrev : p.revents = false) :
    ReadersInv { s with phase := .dispatch n (i + 1) } := by
  obtain ⟨ready, hround⟩ := h.round i n (by rw [hph]; rfl)
  have hready : ready i = false := by
    obtain ⟨q, hq, hqr⟩ := hround.revents i (Nat.le_refl i) hlt
    rw [hp] at hq
    cases hq
    exact hqr.symm.trans hrev
  refine ⟨⟨h.delivered.calls, h.delivered.rounds, h.delivered.fault⟩, h.arrays, h.regs, nofun, ?_⟩
  intro i' n' hrest
  obtain ⟨rfl, rfl⟩ := Prod.mk.inj (Option.some.inj hrest)
  refine ⟨ready, hlt, hround.polled, hround.nodup, hround.readable, ?_, ?_, ?_⟩
  · have hpol : i < s.polled.length := hround.polled.symm ▸ hlt
    have hsucc : s.readyBelow ready (i + 1) = s.readyBelow ready i ++ if ready i then [s.polled[i]] else [] :=
      readyBelow_succ hpol
    rw [hready] at hsucc
    change s.called = s.readyBelow ready (i + 1)
    rw [hsucc, hround.called]
    exact (List.append_nil _).symm
  · intro k hik
    exact hround.revents k (Nat.le_of_succ_le hik)
  · intro k hik
    exact hround.inPlace k (Nat.le_of_succ_le hik)

theorem ReadersInv.look (h : ReadersInv s) (hph : s.phase = .dispatch n i) : ReadersInv (s.look n i) := by
  obtain ⟨ready, hround⟩ := h.round i n (by rw [hph]; rfl)
  rw [Sys.look]
  by_cases hlt : i < n
  · rw [if_pos hlt]
    obtain ⟨p, hp, -⟩ := hround.revents i (Nat.le_refl i) hlt
    cases hrev : p.revents with
    | true =>
      obtain ⟨r, hr, hcall⟩ := h.call hph hlt hp hrev
      simpa only [hp, hrev, if_true, hr] using hcall
    | false => simpa only [hp, hrev, Bool.false_eq_true, if_false] using h.skip hph hlt hp hrev
  · rw [if_neg hlt]
    have hin : i = n := Nat.le_antisymm hround.le (Nat.not_lt.1 hlt)
    have hcalled : s.called = s.readable := by rw [hround.called, hround.readable, hin]
    refine ⟨⟨h.delivered.calls, ?_, h.delivered.fault⟩, h.arrays, h.regs, nofun, nofun⟩
    intro r hr
    rcases List.mem_append.1 hr with hr | hr
    · exact h.delivered.rounds r hr
    · rw [List.mem_singleton.1 hr]
      refine ⟨?_, fun reg hreg _ => ?_⟩
      · change s.called.Nodup
        rw [hround.called]
        exact hround.nodup.sublist readyBelow_sublist
      · change reg ∈ s.called
        rw [hcalled]
        exact hreg

theorem ReadersInv.step (h : ReadersInv s) (hs : restrict ReadersMeet Step s a s') : ReadersInv s' := by
  obtain ⟨hm, ha, rfl⟩ := hs
  cases a with
  | pollReadFd => exact h.pollReadFd ha hm
  | cancelPollReadFd => exact h.cancelPollReadFd ha hm
  | postDelayedAction ms action param malloc now =>
    simp only [Sys.next]
    split
    · exact h.same ⟨rfl, rfl, rfl, rfl, rfl, rfl⟩ rfl rfl rfl rfl (fun _ _ => id) fun _ _ => id
    · exact h.same ⟨rfl, rfl, rfl, rfl, rfl, rfl⟩ rfl rfl rfl rfl (fun _ _ => id) fun _ _ => id
  | cancelDelayedAction => exact h.same ⟨rfl, rfl, rfl, rfl, rfl, rfl⟩ rfl rfl rfl rfl (fun _ _ => id) fun _ _ => id
  | exit => exact h.same ⟨rfl, rfl, rfl, rfl, rfl, rfl⟩ rfl rfl rfl rfl (fun _ _ => id) fun _ _ => id
  | run => exact h.same ⟨rfl, rfl, rfl, rfl, rfl, rfl⟩ rfl rfl rfl rfl nofun nofun
  | head => exact h.head
  | poll res eintr ready now =>
    obtain ⟨⟨n, d, hph⟩, -⟩ := ha
    simp only [Sys.next, hph]
    exact h.pollFds hph
  | actionDone =>
    obtain ⟨n, res, hph⟩ := ha
    simp only [Sys.next, hph]
    refine h.same ⟨rfl, rfl, rfl, rfl, rfl, rfl⟩ rfl rfl rfl rfl ?_ ?_
    · exact fun _ _ hp => absurd hp afterAction_ne_poll
    · intro i m hrest
      rw [hph, ← afterAction_rest]
      exact hrest
  | look =>
    obtain ⟨n, i, hph⟩ := ha
    simp only [Sys.next, hph]
    exact h.look hph
  | callDone =>
    obtain ⟨n, i, hph⟩ := ha
    simp only [Sys.next, hph]
    refine h.same ⟨rfl, rfl, rfl, rfl, rfl, rfl⟩ rfl rfl rfl rfl nofun ?_
    intro i' m hrest
    rw [hph]
    exact hrest

theorem ReadersInv.init : ReadersInv Sys.init :=
  ⟨⟨nofun, nofun, rfl⟩, ⟨Nat.le_refl _, Nat.le_refl _⟩, ⟨List.nodup_nil, nofun⟩, nofun, nofun⟩

/-- **Callbacks go to their own descriptor** in every run whose calls meet the condition. -/
theorem readers_delivered (hr : Run (restrict ReadersMeet Step) Sys.init as s) : Delivered s :=
  (hr.keeps (fun h hs => h.step hs) ReadersInv.init).delivered

/-- Three readers are registered, and the loop polls. -/
def threeReaders : List Act :=
  [.pollReadFd 10 1 0 true ⟨0, false⟩, .pollReadFd 11 2 0 true ⟨0, false⟩, .pollReadFd 12 3 0 true ⟨0, false⟩,
    .run, .head 5]

/-- All are readable, and no callback calls the API. -/
theorem readers_delivered_three :
    ∃ s, Run (restrict ReadersMeet Step) Sys.init
      (threeReaders ++ [.poll 3 false (fun _ => true) 6, .look, .callDone, .look, .callDone, .look, .callDone, .look]) s ∧
      s.rounds = [⟨[0, 1, 2], [0, 1, 2], [0, 1, 2]⟩] ∧ Delivered s := by
  have hadd : ∀ {s : Sys} {sock cb pd malloc junk}, s.phase = .outside → s.ctx.readerCount < 255 →
      ReadersMeet s (.pollReadFd sock cb pd malloc junk) := by
    intro s sock cb pd malloc junk hph hlt _ _
    refine ⟨hlt, ?_⟩
    rintro k ⟨i, n, hrest, -⟩
    rw [hph] at hrest
    cases hrest
  have hr : ∃ s, Run (restrict ReadersMeet Step) Sys.init
      (threeReaders ++ [.poll 3 false (fun _ => true) 6, .look, .callDone, .look, .callDone, .look, .callDone, .look]) s ∧
      s.rounds = [⟨[0, 1, 2], [0, 1, 2], [0, 1, 2]⟩] :=
    ⟨_, .cons ⟨hadd rfl (by decide), rfl, rfl⟩ <| .cons ⟨hadd rfl (by decide), rfl, rfl⟩ <|
      .cons ⟨hadd rfl (by decide), rfl, rfl⟩ <| .cons ⟨trivial, rfl, rfl⟩ <|
      .cons ⟨trivial, ⟨rfl, by decide⟩, rfl⟩ <| .cons ⟨trivial, ⟨⟨_, _, rfl⟩, by decide⟩, rfl⟩ <|
      .cons ⟨trivial, ⟨_, _, rfl⟩, rfl⟩ <| .cons ⟨trivial, ⟨_, _, rfl⟩, rfl⟩ <|
      .cons ⟨trivial, ⟨_, _, rfl⟩, rfl⟩ <| .cons ⟨trivial, ⟨_, _, rfl⟩, rfl⟩ <|
      .cons ⟨trivial, ⟨_, _, rfl⟩, rfl⟩ <| .cons ⟨trivial, ⟨_, _, rfl⟩, rfl⟩ <|
      .single ⟨trivial, ⟨_, _, rfl⟩, rfl⟩, by decide⟩
  obtain ⟨s, hr, hrounds⟩ := hr
  exact ⟨s, hr, hrounds, readers_delivered hr⟩

/-- All are readable, and the first callback cancels its own reader: the second reader is not
    called, and the third is called twice. -/
theorem readers_not_delivered :
    ∃ as s, Run Step Sys.init as s ∧ s.rounds = [⟨[0, 1, 2], [0, 2, 2], [1, 2]⟩] ∧ ¬ Delivered s := by
  have hr : ∃ s, Run Step Sys.init
      (threeReaders ++ [.poll 3 false (fun _ => true) 6, .look, .cancelPollReadFd 10, .callDone, .look, .callDone,
        .look, .callDone, .look]) s ∧ s.rounds = [⟨[0, 1, 2], [0, 2, 2], [1, 2]⟩] :=
    ⟨_, .cons ⟨rfl, rfl⟩ <| .cons ⟨rfl, rfl⟩ <| .cons ⟨rfl, rfl⟩ <| .cons ⟨rfl, rfl⟩ <|
      .cons ⟨⟨rfl, by decide⟩, rfl⟩ <| .cons ⟨⟨⟨_, _, rfl⟩, by decide⟩, rfl⟩ <|
      .cons ⟨⟨_, _, rfl⟩, rfl⟩ <| .cons ⟨rfl, rfl⟩ <| .cons ⟨⟨_, _, rfl⟩, rfl⟩ <|
      .cons ⟨⟨_, _, rfl⟩, rfl⟩ <| .cons ⟨⟨_, _, rfl⟩, rfl⟩ <| .cons ⟨⟨_, _, rfl⟩, rfl⟩ <|
      .cons ⟨⟨_, _, rfl⟩, rfl⟩ <| .single ⟨⟨_, _, rfl⟩, rfl⟩, by decide⟩
  obtain ⟨s, hr, hrounds⟩ := hr
  refine ⟨_, s, hr, hrounds, ?_⟩
  intro hd
  have hround := hd.rounds ⟨[0, 1, 2], [0, 2, 2], [1, 2]⟩ (hrounds ▸ List.mem_singleton_self _)
  exact absurd hround.1 (by decide)

end Yloop
