/-
  `at_read` of `atparser.c`: the loop that asks the UART for the bytes that are
  still missing.

  The loop counts what has come in `total_read`, but the function returns
  `recv_size`, what the last call gave.  `atRead_collects_iff` says for which
  UARTs the two are the same.
-/
import AliOS.Lib.Cells
import Mathlib.Algebra.Order.BigOperators.Group.Finset

namespace Atparser

open Lib

variable {β : Type*}

/-! ## The loop -/

/-- The UART: the bytes that come in, and for each call of `hal_uart_recv` how
    many of them are there, or none if the call fails. -/
structure Uart (β : Type*) where
  stream : ℕ → β
  ready : ℕ → Option ℕ

/-- `hal_uart_recv`: the `recv_size` of the call of this number, at most what it
    is asked for. -/
def Uart.recv (u : Uart β) (call expectSize : ℕ) : Option ℕ :=
  (u.ready call).map fun n => min n expectSize

/-- The state of the loop.  `recvSize` is none as long as nobody has set it;
    `taken` and `calls` are those of the UART. -/
structure ReadState (β : Type*) where
  data : ℕ → β
  totalRead : ℕ
  recvSize : Option ℕ
  taken : ℕ
  calls : ℕ

/-- What is returned: -1, or the value of `recv_size`. -/
inductive ReadRet
  | failed
  | value (recvSize : Option ℕ)
  deriving DecidableEq

/-- Before the loop. -/
def readStart (data : ℕ → β) : ReadState β := ⟨data, 0, none, 0, 0⟩

/-- The state after a call that gave `n` bytes. -/
def ReadState.received (u : Uart β) (s : ReadState β) (n : ℕ) : ReadState β where
  data := memcpy s.data s.totalRead (from_ u.stream s.taken) n
  totalRead := s.totalRead
  recvSize := some n
  taken := s.taken + n
  calls := s.calls + 1

/-- `at_read`, with at most `fuel` turns of the loop; `size` is not negative. -/
def atRead (u : Uart β) (size : ℕ) : ℕ → ReadState β → Option (ReadRet × ReadState β)
  | 0, _ => none
  | fuel + 1, s =>
    if s.totalRead < size then
      match u.recv s.calls (size - s.totalRead) with
      | none => some (.failed, s)
      | some n =>
        let s := s.received u n
        if n = 0 then atRead u size fuel s
        else
          let s := { s with totalRead := s.totalRead + n }
          if size ≤ s.totalRead then some (.value s.recvSize, s) else atRead u size fuel s
    else some (.value s.recvSize, s)

/-! ## What it is for -/

/-- The first `total_read` cells of `data` are the next bytes of the stream, and
    the others are as before. -/
structure Stored (u : Uart β) (data : ℕ → β) (s : ReadState β) : Prop where
  bytes : slice s.data 0 s.totalRead = slice u.stream 0 s.totalRead
  rest : ∀ i, s.totalRead ≤ i → s.data i = data i

/-- `at_read` returns, and if no call failed it returns the number of bytes that
    it stored, which is `size`. -/
def Collects (u : Uart β) (size : ℕ) (data : ℕ → β) : Prop :=
  ∃ fuel r s, atRead u size fuel (readStart data) = some (r, s) ∧ Stored u data s ∧
    (r = .failed ∨ r = .value (some s.totalRead) ∧ s.totalRead = size)

/-! ## The calls -/

/-- The bytes that were there in the first `k` calls. -/
def Uart.got (u : Uart β) (k : ℕ) : ℕ := ∑ i ∈ Finset.range k, (u.ready i).getD 0

/-- The first `k` calls do not fail, and leave bytes to be asked for. -/
structure Asks (u : Uart β) (size k : ℕ) : Prop where
  quiet : ∀ i < k, (u.ready i).isSome
  short : u.got k < size

/-- Call `k` is made and fails. -/
def FailsAt (u : Uart β) (size k : ℕ) : Prop := Asks u size k ∧ u.ready k = none

/-- Call `k` is made and brings the rest. -/
def EndsAt (u : Uart β) (size k : ℕ) : Prop :=
  Asks u size k ∧ ∃ n, u.ready k = some n ∧ size ≤ u.got k + n

/-- All bytes come in one call. -/
def InOneChunk (u : Uart β) (size : ℕ) : Prop :=
  0 < size ∧ ∃ k, (∀ i < k, u.ready i = some 0) ∧ ∃ n, u.ready k = some n ∧ size ≤ n

variable {u : Uart β} {size k j n fuel : ℕ} {data : ℕ → β} {s s' : ReadState β} {r : ReadRet}

theorem got_succ (hn : u.ready k = some n) : u.got (k + 1) = u.got k + n := by
  rw [Uart.got, Finset.sum_range_succ, hn]
  rfl

theorem got_mono (h : j ≤ k) : u.got j ≤ u.got k :=
  Finset.sum_le_sum_of_subset (Finset.range_subset_range.2 h)

theorem Asks.next (h : Asks u size k) (hn : u.ready k = some n) (hshort : u.got k + n < size) :
    Asks u size (k + 1) where
  quiet i hi := by
    rcases Nat.lt_succ_iff_lt_or_eq.1 hi with hlt | rfl
    · exact h.quiet i hlt
    · rw [hn]
      rfl
  short := by rwa [got_succ hn]

theorem EndsAt.le (h : EndsAt u size k) (ha : Asks u size j) : j ≤ k := by
  obtain ⟨-, n, hn, hsize⟩ := h
  by_contra hlt
  have hle : u.got (k + 1) ≤ u.got j := got_mono (by omega)
  rw [got_succ hn] at hle
  have := ha.short
  omega

theorem FailsAt.le (h : FailsAt u size k) (ha : Asks u size j) : j ≤ k := by
  by_contra hlt
  have hsome := ha.quiet k (by omega)
  rw [h.2] at hsome
  cases hsome

theorem EndsAt.unique (h : EndsAt u size k) (h' : EndsAt u size j) : j = k :=
  Nat.le_antisymm (h.le h'.1) (h'.le h.1)

theorem EndsAt.not_failsAt (h : EndsAt u size k) : ¬ FailsAt u size j := by
  intro hf
  obtain rfl : j = k := Nat.le_antisymm (h.le hf.1) (hf.le h.1)
  obtain ⟨-, n, hn, -⟩ := h
  rw [hf.2] at hn
  cases hn

theorem inOneChunk_iff : InOneChunk u size ↔ ∃ k, EndsAt u size k ∧ u.got k = 0 := by
  constructor
  · rintro ⟨hpos, k, hzero, n, hn, hsize⟩
    have hgot : u.got k = 0 :=
      Finset.sum_eq_zero fun i hi => by rw [hzero i (Finset.mem_range.1 hi)]; rfl
    refine ⟨k, ⟨⟨fun i hi => ?_, ?_⟩, n, hn, ?_⟩, hgot⟩
    · rw [hzero i hi]
      rfl
    · rwa [hgot]
    · rwa [hgot, Nat.zero_add]
  · rintro ⟨k, ⟨ha, n, hn, hsize⟩, hgot⟩
    refine ⟨Nat.lt_of_le_of_lt (Nat.zero_le _) ha.short, k, fun i hi => ?_, n, hn, by omega⟩
    obtain ⟨m, hm⟩ := Option.isSome_iff_exists.1 (ha.quiet i hi)
    have hle : u.got (i + 1) ≤ u.got k := got_mono hi
    rw [got_succ hm] at hle
    rw [hm, show m = 0 by omega]

/-! ## What the loop keeps -/

/-- The state before each call. -/
structure Asking (u : Uart β) (size : ℕ) (data : ℕ → β) (s : ReadState β) : Prop where
  asks : Asks u size s.calls
  total : s.totalRead = u.got s.calls
  taken : s.taken = s.totalRead
  stored : Stored u data s

theorem asking_start (hpos : 0 < size) : Asking u size data (readStart data) where
  asks := ⟨fun i hi => absurd hi (Nat.not_lt_zero i), hpos⟩
  total := rfl
  taken := rfl
  stored := ⟨rfl, fun _ _ => rfl⟩

theorem Asking.stored_next (h : Asking u size data s) :
    Stored u data { s.received u n with totalRead := s.totalRead + n } where
  bytes := by
    change slice (memcpy _ _ _ _) 0 (s.totalRead + n) = slice u.stream 0 (s.totalRead + n)
    rw [slice_append, slice_append, slice_memcpy_disjoint (.inl (Nat.zero_add _).le), h.stored.bytes,
      Nat.zero_add, slice_memcpy_same, h.taken]
    exact congrArg _ (slice_congr fun i _ => congrArg u.stream (by omega))
  rest i hi := by
    change s.totalRead + n ≤ i at hi
    change memcpy _ _ _ _ i = data i
    rw [memcpy_out (.inr hi)]
    exact h.stored.rest i (by omega)

theorem Asking.next (h : Asking u size data s) (hn : u.ready s.calls = some n) (hshort : s.totalRead + n < size) :
    Asking u size data { s.received u n with totalRead := s.totalRead + n } where
  asks := h.asks.next hn (h.total ▸ hshort)
  total := by
    change s.totalRead + n = u.got (s.calls + 1)
    rw [got_succ hn, h.total]
  taken := congrArg (· + n) h.taken
  stored := h.stored_next

theorem Asking.atRead_eq (h : Asking u size data s) :
    atRead u size (fuel + 1) s =
      match u.ready s.calls with
      | none => some (.failed, s)
      | some n =>
        if s.totalRead + n < size then
          atRead u size fuel { s.received u n with totalRead := s.totalRead + n }
        else some (.value (some (size - s.totalRead)),
          { s.received u (size - s.totalRead) with totalRead := size }) := by
  have hshort : s.totalRead < size := h.total ▸ h.asks.short
  rw [atRead, if_pos hshort, Uart.recv]
  cases hn : u.ready s.calls with
  | none => rfl
  | some n =>
    simp only [Option.map_some]
    by_cases hrest : s.totalRead + n < size
    · rw [if_pos hrest, Nat.min_eq_left (by omega)]
      by_cases hzero : n = 0
      · subst hzero
        rfl
      · rw [if_neg hzero]
        exact if_neg (Nat.not_le.2 hrest)
    · rw [if_neg hrest, Nat.min_eq_right (by omega), if_neg (by omega),
        if_pos (by change size ≤ s.totalRead + (size - s.totalRead); omega)]
      have hsum : s.totalRead + (size - s.totalRead) = size := by omega
      simp only [ReadState.received, hsum]

/-- **What is returned**: -1 behind a call that failed, else what the last call
    gave. -/
theorem Asking.returns (h : Asking u size data s) (hr : atRead u size fuel s = some (r, s')) :
    Stored u data s' ∧ (r = .failed ∧ FailsAt u size s'.calls ∨
      s'.totalRead = size ∧ ∃ k, EndsAt u size k ∧ r = .value (some (size - u.got k))) := by
  induction fuel generalizing s with
  | zero => cases hr
  | succ fuel ih =>
    rw [h.atRead_eq] at hr
    cases hn : u.ready s.calls with
    | none =>
      rw [hn] at hr
      obtain ⟨rfl, rfl⟩ := Prod.mk.inj (Option.some.inj hr)
      exact ⟨h.stored, .inl ⟨rfl, h.asks, hn⟩⟩
    | some n =>
      simp only [hn] at hr
      split_ifs at hr with hrest
      · exact ih (h.next hn hrest) hr
      · obtain ⟨rfl, rfl⟩ := Prod.mk.inj (Option.some.inj hr)
        have hshort : s.totalRead < size := h.total ▸ h.asks.short
        have hsum : s.totalRead + (size - s.totalRead) = size := by omega
        have hstored := h.stored_next (n := size - s.totalRead)
        rw [hsum] at hstored
        refine ⟨hstored, .inr ⟨rfl, s.calls, ⟨h.asks, n, hn, ?_⟩, ?_⟩⟩
        · rw [← h.total]
          omega
        · rw [h.total]

theorem Asking.isSome (h : Asking u size data s) (hk : FailsAt u size k ∨ EndsAt u size k) :
    (atRead u size (k + 1 - s.calls) s).isSome := by
  have hle : s.calls ≤ k := hk.elim (fun hf => hf.le h.asks) fun he => he.le h.asks
  obtain ⟨fuel, hfuel⟩ : ∃ fuel, k = s.calls + fuel := ⟨k - s.calls, by omega⟩
  rw [show k + 1 - s.calls = fuel + 1 by omega]
  induction fuel generalizing s with
  | zero =>
    rw [h.atRead_eq]
    obtain rfl : k = s.calls := hfuel
    rcases hk with ⟨-, hn⟩ | ⟨-, n, hn, hsize⟩
    · rw [hn]
      rfl
    · rw [hn]
      simp only
      rw [if_neg (by rw [h.total]; omega)]
      rfl
  | succ fuel ih =>
    rw [h.atRead_eq]
    cases hn : u.ready s.calls with
    | none => rfl
    | some n =>
      simp only
      split_ifs with hrest
      · refine ih (h.next hn hrest) ?_ ?_
        · change s.calls + 1 ≤ k
          omega
        · change k = s.calls + 1 + fuel
          omega
      · rfl

/-- **`at_read` collects** the bytes asked for, and says so, for the UARTs of
    which a call fails first or that bring all of them in one chunk. -/
theorem atRead_collects_iff (u : Uart β) (size : ℕ) (data : ℕ → β) :
    Collects u size data ↔ (∃ k, FailsAt u size k) ∨ InOneChunk u size := by
  rw [inOneChunk_iff]
  constructor
  · rintro ⟨fuel, r, s, hr, -, hret⟩
    rcases Nat.eq_zero_or_pos size with rfl | hpos
    · -- nothing is asked for, and `recv_size` is not set
      cases fuel with
      | zero => cases hr
      | succ fuel =>
        obtain ⟨rfl, rfl⟩ := Prod.mk.inj (Option.some.inj hr)
        rcases hret with hret | ⟨hret, -⟩
        · cases hret
        · cases hret
    rcases (asking_start hpos).returns hr with ⟨-, ⟨-, hfail⟩ | ⟨hs, k, hk, rfl⟩⟩
    · exact .inl ⟨_, hfail⟩
    · rcases hret with hret | ⟨hret, -⟩
      · cases hret
      · have hval := Option.some.inj (ReadRet.value.inj hret)
        have := hk.1.short
        exact .inr ⟨k, hk, by omega⟩
  · intro h
    obtain ⟨k, hk⟩ : ∃ k, FailsAt u size k ∨ EndsAt u size k := by
      rcases h with ⟨k, hk⟩ | ⟨k, hk, -⟩
      · exact ⟨k, .inl hk⟩
      · exact ⟨k, .inr hk⟩
    have hpos : 0 < size := by
      rcases hk with hk | hk
      · exact Nat.lt_of_le_of_lt (Nat.zero_le _) hk.1.short
      · exact Nat.lt_of_le_of_lt (Nat.zero_le _) hk.1.short
    have hstart : Asking u size data (readStart data) := asking_start hpos
    obtain ⟨⟨r, s⟩, hr⟩ := Option.isSome_iff_exists.1 (hstart.isSome hk)
    obtain ⟨hstored, ⟨rfl, -⟩ | ⟨hs, j, hj, rfl⟩⟩ := hstart.returns hr
    · exact ⟨_, _, s, hr, hstored, .inl rfl⟩
    · refine ⟨_, _, s, hr, hstored, .inr ⟨?_, hs⟩⟩
      rcases h with ⟨i, hi⟩ | ⟨i, hi, hgot⟩
      · exact absurd hi hj.not_failsAt
      · obtain rfl := hi.unique hj
        rw [hs, hgot, Nat.sub_zero]

/-- Two bytes that come one by one: the value returned is 1. -/
theorem atRead_two_chunks : ¬ Collects ⟨id, fun _ => some 1⟩ 2 (fun _ => 0) := by
  rintro ⟨fuel, r, s, hr, -, hret⟩
  have hgot : ∀ k, Uart.got ⟨id, fun _ => some 1⟩ k = k := fun k => by simp [Uart.got]
  rcases (asking_start (by decide)).returns hr with ⟨-, ⟨-, -, hfail⟩ | ⟨hs, k, ⟨hasks, n, hn, hsize⟩, rfl⟩⟩
  · cases hfail
  · obtain rfl : 1 = n := Option.some.inj hn
    have hshort := hasks.short
    rcases hret with hret | ⟨hret, -⟩
    · cases hret
    · have hval := Option.some.inj (ReadRet.value.inj hret)
      rw [hgot] at hval hshort hsize
      omega

end Atparser
