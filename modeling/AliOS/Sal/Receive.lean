/-
  Reading of a TCP socket (`device/sal/sal_sockets.c`): `sal_recvfrom` and `sal_packet_input`, one
  access to what they share at a time.

  A read goes on to the next packet as long as an event of one is left, and `len` stays what it was
  at the start: what a further packet may have is all of it once more.
-/
import AliOS.Sal.Sockets

namespace Sal

open Lib

def INT_MAX : ℕ := 2 ^ 31 - 1

/-- A call of `sal_recvfrom`, of `sal_recv` or of `sal_read`, which does not peek: `written` has the
    bytes that it put to `mem`, of which `off` counts. -/
structure RecvCall where
  len : ℕ
  dontwait : Bool
  written : List UInt8

def RecvCall.off (c : RecvCall) : ℕ := c.written.length

/-- Where a call is: at the top of the loop, behind the fetch of a packet, or before the copy. -/
inductive RecvPc
  | top
  | fetched (buf : List UInt8)
  | copy

/-- A call that returned. -/
structure RecvDone where
  len : ℕ
  written : List UInt8
  ret : ℤ

/-- The socket; `posted` counts the packets in the mailbox without their event, `accepted` has the bytes
    of all packets, and `calls` the calls that returned. -/
structure Stream where
  recvmbox : List (List UInt8)
  posted : ℕ
  rcvevent : ℤ
  lastdata : Option (List UInt8)
  lastoffset : ℕ
  call : Option (RecvCall × RecvPc)
  calls : List RecvDone
  accepted : List UInt8

namespace Stream

def init : Stream := ⟨[], 0, 0, none, 0, none, [], []⟩

/-- `salnetconn_packet_input` -/
def packetInput (s : Stream) (data : List UInt8) : Stream :=
  if data.length ≠ 0 ∧ data.length < 2 ^ 16 ∧ s.recvmbox.length < SAL_DEFAULT_RECVMBOX_SIZE then
    { s with recvmbox := s.recvmbox ++ [data], posted := s.posted + 1, accepted := s.accepted ++ data }
  else s

/-- `sal_deal_event` with `NETCONN_EVT_RCVPLUS` -/
def rcvplus (s : Stream) : Stream :=
  if s.posted = 0 then s else { s with posted := s.posted - 1, rcvevent := s.rcvevent + 1 }

/-- The start of a call, where none is under way. -/
def recvfrom (s : Stream) (len : ℕ) (dontwait : Bool) : Stream :=
  if len ≠ 0 ∧ s.call.isNone then { s with call := some (⟨len, dontwait, []⟩, .top) } else s

def finish (s : Stream) (c : RecvCall) (ret : ℤ) : Stream :=
  { s with call := none, calls := s.calls ++ [⟨c.len, c.written, ret⟩] }

/-- A call ends without a packet. -/
def giveUp (s : Stream) (c : RecvCall) : Stream := s.finish c (if 0 < c.off then (c.off : ℤ) else -1)

/-- What is left of `lastdata` behind a copy. -/
def keepRest (s : Stream) (copylen : ℕ) (buf : List UInt8) : Stream :=
  if copylen < buf.length - s.lastoffset then { s with lastoffset := s.lastoffset + copylen }
  else { s with lastdata := none, lastoffset := 0 }

/-- How many bytes a turn copies. -/
def copylen (s : Stream) (c : RecvCall) (buf : List UInt8) : ℕ := min c.len (buf.length - s.lastoffset)

/-- The copy from `lastdata`, and the end of the loop or not. -/
def copy (s : Stream) (c : RecvCall) (buf : List UInt8) : Stream :=
  let copylen := s.copylen c buf
  let c' := { c with written := c.written ++ (buf.drop s.lastoffset).take copylen }
  let s' := s.keepRest copylen buf
  if c.len = copylen ∨ s.rcvevent ≤ 0 then s'.finish c' c'.off else { s' with call := some (c', .top) }

/-- The next access of the call: it waits where the mailbox is empty. -/
def next (s : Stream) : Stream :=
  match s.call with
  | none => s
  | some (c, .top) =>
    match s.lastdata with
    | some _ => { s with call := some (c, .copy) }
    | none =>
      if c.dontwait ∧ s.rcvevent ≤ 0 then s.giveUp c
      else
        match s.recvmbox with
        | [] => s
        | buf :: recvmbox => { s with recvmbox := recvmbox, call := some (c, .fetched buf) }
  | some (c, .fetched buf) =>
    { s with rcvevent := s.rcvevent - 1, lastdata := some buf, call := some (c, .copy) }
  | some (c, .copy) =>
    match s.lastdata with
    | none => s
    | some buf => s.copy c buf

/-- The wait for a packet ends without one. -/
def timeout (s : Stream) : Stream :=
  match s.call with
  | some (c, .top) => if s.lastdata.isNone ∧ s.recvmbox = [] then s.giveUp c else s
  | _ => s

end Stream

inductive StreamAct
  | packetInput (data : List UInt8)
  | rcvplus
  | recvfrom (len : ℕ) (dontwait : Bool)
  | next
  | timeout

namespace Stream

def step (s : Stream) : StreamAct → Stream
  | .packetInput data => s.packetInput data
  | .rcvplus => s.rcvplus
  | .recvfrom len dontwait => s.recvfrom len dontwait
  | .next => s.next
  | .timeout => s.timeout

/-! ## The property -/

/-- The bytes that the calls have put to their buffers, one call behind the other. -/
def delivered (s : Stream) : List UInt8 :=
  s.calls.flatMap (·.written) ++ (s.call.elim [] fun c => c.1.written)

/-- Every call stays in its buffer, with an `off` that is an `int`, and returns how many bytes it has put
    there; and what was put is what was accepted first. -/
structure Exact (s : Stream) : Prop where
  calls : ∀ d ∈ s.calls, d.written.length ≤ min d.len INT_MAX ∧ (0 ≤ d.ret → d.ret = d.written.length)
  call : ∀ c ∈ s.call, c.1.off ≤ min c.1.len INT_MAX
  accepted : s.delivered <+: s.accepted

/-- What a call copies behind its first packet fits: what is left of the packet, in what is left of `len`. -/
def Meets (s : Stream) : StreamAct → Prop
  | .next => ∀ c buf, s.call = some (c, .copy) → s.lastdata = some buf → c.off ≠ 0 →
      c.off + (buf.length - s.lastoffset) ≤ min c.len INT_MAX
  | _ => True

/-! ## The bytes on their way -/

/-- What a call fetched, and what is left of `lastdata`. -/
def held (s : Stream) : List UInt8 :=
  (match s.call with
    | some (_, .fetched buf) => buf
    | _ => []) ++ s.lastdata.elim [] (·.drop s.lastoffset)

/-- The bytes that were accepted are those put to buffers, those held and those in the mailbox. -/
structure Good (s : Stream) : Prop where
  calls : ∀ d ∈ s.calls, d.written.length ≤ min d.len INT_MAX ∧ (0 ≤ d.ret → d.ret = d.written.length)
  call : ∀ c ∈ s.call, c.1.off ≤ min c.1.len INT_MAX
  stream : s.delivered ++ (s.held ++ s.recvmbox.flatten) = s.accepted
  offset : s.lastdata = none → s.lastoffset = 0
  fetched : ∀ c buf, s.call = some (c, .fetched buf) → s.lastdata = none ∧ buf.length < 2 ^ 16
  mbox : ∀ buf ∈ s.recvmbox, buf.length < 2 ^ 16
  last : ∀ buf ∈ s.lastdata, buf.length < 2 ^ 16

variable {s : Stream} {c : RecvCall} {buf : List UInt8} {pc : RecvPc}

theorem Good.exact (h : Good s) : s.Exact := ⟨h.calls, h.call, _, h.stream⟩

theorem good_init : Good init where
  calls := fun _ h => by cases h
  call := fun _ h => by cases h
  stream := rfl
  offset := fun _ => rfl
  fetched := fun _ _ h => by cases h
  mbox := fun _ h => by cases h
  last := fun _ h => by cases h

theorem Good.packetInput (h : Good s) (data : List UInt8) : Good (s.packetInput data) := by
  unfold Stream.packetInput
  split_ifs with hd
  · refine { h with stream := ?_, mbox := ?_ }
    · rw [← h.stream]
      simp [delivered, held]
    · intro buf hb
      rcases List.mem_append.1 hb with hb | hb
      · exact h.mbox buf hb
      · exact List.mem_singleton.1 hb ▸ hd.2.1
  · exact h

theorem Good.rcvplus (h : Good s) : Good s.rcvplus := by
  unfold Stream.rcvplus
  split_ifs
  · exact h
  · exact { h with }

theorem Good.recvfrom (h : Good s) (len : ℕ) (dontwait : Bool) : Good (s.recvfrom len dontwait) := by
  unfold Stream.recvfrom
  split_ifs with hc
  · have hnone : s.call = none := Option.isNone_iff_eq_none.1 hc.2
    have hstream := h.stream
    rw [delivered, held, hnone] at hstream
    exact { h with
      call := by rintro _ ⟨⟩; exact Nat.zero_le _
      stream := hstream
      fetched := fun _ _ h => by cases h }
  · exact h

theorem Good.giveUp (h : Good s) (hc : s.call = some (c, .top)) : Good (s.giveUp c) := by
  have hd : (s.giveUp c).delivered = s.delivered := by
    simp [Stream.giveUp, finish, delivered, hc]
  have hheld : (s.giveUp c).held = s.held := by
    simp [Stream.giveUp, finish, held, hc]
  refine { h with calls := ?_, call := ?_, stream := ?_, fetched := ?_ }
  · intro d hdone
    rcases List.mem_append.1 hdone with hdone | hdone
    · exact h.calls d hdone
    · obtain rfl := List.mem_singleton.1 hdone
      refine ⟨h.call _ hc, ?_⟩
      dsimp only
      split_ifs with hoff
      · exact fun _ => rfl
      · exact fun hneg => absurd hneg (by decide)
  · rintro _ ⟨⟩
  · rw [hd, hheld]
    exact h.stream
  · rintro _ _ ⟨⟩

theorem keepRest_same (n : ℕ) : (s.keepRest n buf).recvmbox = s.recvmbox ∧ (s.keepRest n buf).calls = s.calls ∧
    (s.keepRest n buf).accepted = s.accepted := by
  unfold keepRest
  split_ifs
  · exact ⟨rfl, rfl, rfl⟩
  · exact ⟨rfl, rfl, rfl⟩

theorem keepRest_lastdata (hb : s.lastdata = some buf) (n : ℕ) :
    (s.keepRest n buf).lastdata.elim [] (·.drop (s.keepRest n buf).lastoffset) = (buf.drop s.lastoffset).drop n := by
  unfold keepRest
  rw [List.drop_drop]
  split_ifs with h
  · rw [hb]
    rfl
  · exact (List.drop_eq_nil_of_le (by omega)).symm

theorem keepRest_offset (n : ℕ) (hb : s.lastdata = some buf) :
    ((s.keepRest n buf).lastdata = none → (s.keepRest n buf).lastoffset = 0) ∧
      ∀ b ∈ (s.keepRest n buf).lastdata, b = buf := by
  unfold keepRest
  split_ifs
  · refine ⟨fun h => ?_, fun b h => (Option.some.inj (hb.symm.trans h)).symm⟩
    cases hb.symm.trans h
  · refine ⟨fun _ => rfl, ?_⟩
    rintro _ ⟨⟩

/-- A turn: the call is under way or has returned, with the bytes of the copy behind the others. -/
theorem copy_cases (s : Stream) (c : RecvCall) (buf : List UInt8) :
    let c' := { c with written := c.written ++ (buf.drop s.lastoffset).take (s.copylen c buf) }
    s.copy c buf = (s.keepRest (s.copylen c buf) buf).finish c' c'.off ∨
      s.copy c buf = { s.keepRest (s.copylen c buf) buf with call := some (c', .top) } := by
  unfold copy
  dsimp only
  split_ifs
  · exact .inl rfl
  · exact .inr rfl

theorem Good.copy (h : Good s) (hc : s.call = some (c, .copy)) (hb : s.lastdata = some buf)
    (hfit : c.off + s.copylen c buf ≤ min c.len INT_MAX) : Good (s.copy c buf) := by
  obtain ⟨hmbox, hcalls, hacc⟩ := @keepRest_same s buf (s.copylen c buf)
  obtain ⟨hoff, hlast⟩ := keepRest_offset (s.copylen c buf) hb
  have hrest := keepRest_lastdata hb (s.copylen c buf)
  have hlen : (c.written ++ (buf.drop s.lastoffset).take (s.copylen c buf)).length ≤ min c.len INT_MAX := by
    rw [List.length_append, List.length_take]
    exact Nat.le_trans (Nat.add_le_add_left (Nat.min_le_left _ _) _) hfit
  have hstream := h.stream
  rw [held, hc, hb, delivered, hc] at hstream
  have hbytes : s.calls.flatMap (·.written) ++ (c.written ++ (buf.drop s.lastoffset).take (s.copylen c buf)) ++
      ((buf.drop s.lastoffset).drop (s.copylen c buf) ++ s.recvmbox.flatten) = s.accepted := by
    rw [← hstream]
    simp only [Option.elim_some, List.nil_append, List.append_assoc]
    rw [← List.append_assoc (List.take _ _), List.take_append_drop]
  have hmb : ∀ b ∈ s.recvmbox, b.length < 2 ^ 16 := h.mbox
  rcases copy_cases s c buf with heq | heq
  · rw [heq]
    refine { calls := ?_, call := ?_, stream := ?_, offset := hoff, fetched := ?_, mbox := ?_, last := ?_ }
    · intro d hd
      rcases List.mem_append.1 hd with hd | hd
      · exact h.calls d (hcalls ▸ hd)
      · obtain rfl := List.mem_singleton.1 hd
        exact ⟨hlen, fun _ => rfl⟩
    · rintro _ ⟨⟩
    · refine Eq.trans ?_ (hbytes.trans hacc.symm)
      simp [delivered, finish, held, hcalls, hmbox, hrest]
    · rintro _ _ ⟨⟩
    · exact hmbox ▸ hmb
    · exact fun b hb' => hlast b hb' ▸ h.last buf hb
  · rw [heq]
    refine { calls := hcalls ▸ h.calls, call := ?_, stream := ?_, offset := hoff, fetched := ?_, mbox := ?_, last := ?_ }
    · rintro _ ⟨⟩
      exact hlen
    · refine Eq.trans ?_ (hbytes.trans hacc.symm)
      simp [delivered, held, hcalls, hmbox, hrest]
    · rintro _ _ ⟨⟩
    · exact hmbox ▸ hmb
    · exact fun b hb' => hlast b hb' ▸ h.last buf hb

theorem not_exact_copy (hoff : c.off ≠ 0)
    (hnot : ¬ c.off + (buf.length - s.lastoffset) ≤ min c.len INT_MAX) : ¬ (s.copy c buf).Exact := by
  have hlen : ¬ (c.written ++ (buf.drop s.lastoffset).take (s.copylen c buf)).length ≤ min c.len INT_MAX := by
    rw [List.length_append, List.length_take, List.length_drop, copylen]
    rw [RecvCall.off] at hoff hnot
    omega
  intro h
  rcases copy_cases s c buf with heq | heq
  · rw [heq] at h
    exact hlen (h.calls _ (List.mem_append_right _ (List.mem_singleton.2 rfl))).1
  · rw [heq] at h
    exact hlen (h.call _ rfl)

theorem Good.next (h : Good s) (hm : s.Meets .next) : Good s.next := by
  unfold Stream.next
  split
  · exact h
  · rename_i c hc
    have hstream := h.stream
    rw [delivered, held, hc] at hstream
    split
    · rename_i buf hb
      refine { h with call := ?_, stream := hstream, fetched := ?_ }
      · rintro _ ⟨⟩
        exact (h.call _ hc : c.off ≤ _)
      · rintro _ _ ⟨⟩
    · rename_i hb
      split_ifs with hw
      · exact h.giveUp hc
      split
      · exact h
      · rename_i buf rest hr
        refine { h with call := ?_, stream := ?_, fetched := ?_, mbox := fun b hb => h.mbox b (hr ▸ List.mem_cons_of_mem _ hb) }
        · rintro _ ⟨⟩
          exact (h.call _ hc : c.off ≤ _)
        · rw [← hstream, hr]
          simp [delivered, held, hb]
        · rintro _ _ ⟨⟩
          exact ⟨hb, h.mbox _ (hr ▸ List.mem_cons_self)⟩
  · rename_i c buf hc
    obtain ⟨hnone, hlen⟩ := h.fetched c buf hc
    have hstream := h.stream
    rw [delivered, held, hc, hnone] at hstream
    refine { h with call := ?_, stream := ?_, offset := ?_, fetched := ?_, last := ?_ }
    · rintro _ ⟨⟩
      exact (h.call _ hc : c.off ≤ _)
    · rw [← hstream]
      simp [delivered, held, h.offset hnone]
    · rintro ⟨⟩
    · rintro _ _ ⟨⟩
    · rintro _ ⟨⟩
      exact hlen
  · rename_i c hc
    split
    · exact h
    · rename_i buf hb
      refine h.copy hc hb ?_
      by_cases h0 : c.off = 0
      · have := h.last buf hb
        rw [h0, copylen, INT_MAX]
        omega
      · have := hm c buf hc hb h0
        rw [copylen]
        omega

theorem Good.timeout (h : Good s) : Good s.timeout := by
  unfold Stream.timeout
  split
  · rename_i c hc
    split_ifs
    · exact h.giveUp hc
    · exact h
  · exact h

theorem Good.step (h : Good s) (a : StreamAct) (hm : s.Meets a) : Good (s.step a) := by
  cases a with
  | packetInput data => exact h.packetInput data
  | rcvplus => exact h.rcvplus
  | recvfrom len dontwait => exact h.recvfrom len dontwait
  | next => exact h.next hm
  | timeout => exact h.timeout

theorem not_exact_step (a : StreamAct) (hm : ¬ s.Meets a) : ¬ (s.step a).Exact := by
  cases a with
  | next =>
    unfold Meets at hm
    push Not at hm
    obtain ⟨c, buf, hc, hb, hoff, hnot⟩ := hm
    have heq : s.step .next = s.copy c buf := by
      change s.next = _
      unfold Stream.next
      rw [hc]
      rw [hb]
    rw [heq]
    exact not_exact_copy hoff (by omega)
  | packetInput | rcvplus | recvfrom | timeout => exact absurd trivial hm

/-- **Reading of a socket is exact and in bounds** all along a run exactly where every further packet
    that a call copies fits in what is left. -/
theorem receive_exact_iff (as : List StreamAct) :
    (∀ bs cs, as = bs ++ cs → (bs.foldl step init).Exact) ↔
      ∀ bs a cs, as = bs ++ a :: cs → (bs.foldl step init).Meets a :=
  foldl_always_iff (fun _ => True) (fun _ => Good.exact) (fun _ a _ h hm => h.step a hm)
    (fun _ a _ _ hm => not_exact_step a hm) (fun _ _ => trivial) good_init

/-- Two packets, of one byte and of two, and a read of two bytes. -/
def overrun : List StreamAct :=
  [.packetInput [1], .packetInput [2, 3], .rcvplus, .rcvplus, .recvfrom 2 false, .next, .next, .next, .next, .next, .next]

/-- It copies three. -/
theorem overrun_not_exact : ¬ ∀ as : List StreamAct, (as.foldl step init).Exact := by
  intro h
  have hlen := ((h overrun).calls ⟨2, [1, 2, 3], 3⟩ (List.mem_singleton.2 rfl)).1
  exact absurd hlen (by decide)

end Stream

end Sal
