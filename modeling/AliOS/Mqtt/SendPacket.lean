/-
  `iotx_mc_send_packet` of `mqtt_client.c`: the loop that writes a packet to the
  network.

  Each turn of the loop asks the network to write `length` bytes from `&buf[sent]`
  on, not the `length - sent` that are left.  `sendPacket_exact_iff` says for which
  results of the network the packet goes out exactly.
-/
import AliOS.Lib.Cells
import AliOS.Mqtt.Subs

namespace Mqtt

open Lib

variable {β : Type*}

/-! ## The loop -/

/-- What happens in one turn: the time is over, the network write fails, or it
    writes `n` bytes. -/
inductive WriteTurn
  | expired
  | failed
  | wrote (n : ℕ)
  deriving DecidableEq

/-- The state of the loop, with the bytes that the network has been given and
    the places and lengths that it was called with. -/
structure SendState (β : Type*) where
  sent : ℕ
  wire : List β
  asked : List (ℕ × ℤ)

def sendStart : SendState β := ⟨0, [], []⟩

/-- `write(&buf[sent], length)` is called. -/
def SendState.ask (s : SendState β) (length : ℤ) : SendState β :=
  { s with asked := s.asked ++ [(s.sent, length)] }

/-- It has written `n` bytes. -/
def SendState.write (s : SendState β) (buf : ℕ → β) (n : ℕ) : SendState β :=
  { s with sent := s.sent + n, wire := s.wire ++ slice buf s.sent n }

/-- Behind the loop. -/
def SendState.rc (s : SendState β) (length : ℤ) : Rc :=
  if (s.sent : ℤ) = length then .success else .networkError

/-- `iotx_mc_send_packet` with the results of the turns, and what it returns if
    it does within these. -/
def iotxMcSendPacket (buf : ℕ → β) (length : ℤ) : List WriteTurn → SendState β → Option Rc × SendState β
  | [], s => (if (s.sent : ℤ) < length then none else some (s.rc length), s)
  | t :: ts, s =>
    if (s.sent : ℤ) < length then
      match t with
      | .expired => (some (s.rc length), s)
      | .failed => (some (s.rc length), s.ask length)
      | .wrote n => iotxMcSendPacket buf length ts ((s.ask length).write buf n)
    else (some (s.rc length), s)

/-! ## What it is for -/

/-- A call that succeeds has sent the packet, and the network is asked for
    bytes of the packet only. -/
structure SendsExactly (buf : ℕ → β) (length : ℤ) (ts : List WriteTurn) : Prop where
  exact : (iotxMcSendPacket buf length ts sendStart).1 = some .success →
    (iotxMcSendPacket buf length ts sendStart).2.wire = slice buf 0 length.toNat
  inside : ∀ a ∈ (iotxMcSendPacket buf length ts sendStart).2.asked, (a.1 : ℤ) + a.2 ≤ length

/-- With `sent` bytes written before: whenever some bytes of the packet are
    written and some are not, the time is over. -/
def StopsPartway (length : ℤ) (sent : ℕ) (ts : List WriteTurn) : Prop :=
  ∀ (ns : List ℕ) t ts', ts = ns.map WriteTurn.wrote ++ t :: ts' → 0 < sent + ns.sum →
    ((sent + ns.sum : ℕ) : ℤ) < length → t = .expired

variable {buf : ℕ → β} {length : ℤ} {ts : List WriteTurn} {s : SendState β} {n sent : ℕ}

theorem stopsPartway_nil : StopsPartway length sent [] := by
  intro ns t ts' h
  cases ns with
  | nil => cases h
  | cons n ns => cases h

theorem stopsPartway_wrote : StopsPartway length sent (.wrote n :: ts) ↔
    (0 < sent → length ≤ sent) ∧ StopsPartway length (sent + n) ts := by
  constructor
  · intro h
    constructor
    · intro hpos
      by_contra hlt
      cases h [] _ ts rfl hpos (by simpa using hlt)
    · rintro ns t ts' rfl hpos hlt
      refine h (n :: ns) t ts' rfl ?_ ?_
      · rw [List.sum_cons]
        omega
      · rw [List.sum_cons]
        omega
  · rintro ⟨hnow, h⟩ ns t ts' heq hpos hlt
    cases ns with
    | nil =>
      have := hnow hpos
      simp only [List.sum_nil, Nat.add_zero] at hlt
      omega
    | cons m ns =>
      obtain ⟨hm, rfl⟩ := List.cons.inj heq
      obtain rfl := WriteTurn.wrote.inj hm
      rw [List.sum_cons] at hpos hlt
      exact h ns t ts' rfl (by omega) (by omega)

theorem stopsPartway_cons {t : WriteTurn} (ht : ∀ n, t ≠ .wrote n) :
    StopsPartway length sent (t :: ts) ↔ (0 < sent → (sent : ℤ) < length → t = .expired) := by
  constructor
  · intro h hpos hlt
    exact h [] t ts rfl hpos hlt
  · intro h ns t' ts' heq hpos hlt
    cases ns with
    | nil =>
      cases heq
      exact h hpos hlt
    | cons n ns => exact absurd (List.cons.inj heq).1 (ht n)

theorem stopsPartway_of_le (h : length ≤ sent) : StopsPartway length sent ts := by
  intro ns t ts' _ _ hlt
  omega

/-! ## What the loop keeps -/

theorem sendPacket_wire (hs : s.wire = slice buf 0 s.sent) :
    (iotxMcSendPacket buf length ts s).2.wire = slice buf 0 (iotxMcSendPacket buf length ts s).2.sent := by
  induction ts generalizing s with
  | nil => exact hs
  | cons t ts ih =>
    unfold iotxMcSendPacket
    split_ifs
    · cases t with
      | expired => exact hs
      | failed => exact hs
      | wrote n =>
        refine ih ?_
        change s.wire ++ slice buf s.sent n = slice buf 0 (s.sent + n)
        rw [hs, slice_append, Nat.zero_add]
    · exact hs

theorem sendPacket_sent (h : (iotxMcSendPacket buf length ts s).1 = some .success) :
    ((iotxMcSendPacket buf length ts s).2.sent : ℤ) = length := by
  have hrc : ∀ {s : SendState β}, some (s.rc length) = some Rc.success → (s.sent : ℤ) = length := by
    intro s h
    by_contra hne
    rw [SendState.rc, if_neg hne] at h
    cases h
  induction ts generalizing s with
  | nil =>
    unfold iotxMcSendPacket at h ⊢
    split_ifs at h with hlt
    exact hrc h
  | cons t ts ih =>
    unfold iotxMcSendPacket at h ⊢
    split_ifs at h ⊢ with hlt
    · cases t with
      | expired => exact hrc h
      | failed => exact hrc (s := s) h
      | wrote n => exact ih h
    · exact hrc h

theorem asked_mono {a : ℕ × ℤ} (ha : a ∈ s.asked) : a ∈ (iotxMcSendPacket buf length ts s).2.asked := by
  induction ts generalizing s with
  | nil => exact ha
  | cons t ts ih =>
    have hask : a ∈ (s.ask length).asked := List.mem_append_left _ ha
    unfold iotxMcSendPacket
    split_ifs
    · cases t with
      | expired => exact ha
      | failed => exact hask
      | wrote n => exact ih hask
    · exact ha

theorem ask_inside_iff (hs : ∀ a ∈ s.asked, (a.1 : ℤ) + a.2 ≤ length) :
    (∀ a ∈ (s.ask length).asked, (a.1 : ℤ) + a.2 ≤ length) ↔ s.sent = 0 := by
  constructor
  · intro h
    have := h (s.sent, length) (List.mem_append_right _ (List.mem_singleton_self _))
    omega
  · intro h a ha
    rcases List.mem_append.1 ha with ha | ha
    · exact hs a ha
    · obtain rfl := List.mem_singleton.1 ha
      omega

/-- The network is asked for bytes of the packet if no turn writes on behind a
    part. -/
theorem sendPacket_inside_iff (hs : ∀ a ∈ s.asked, (a.1 : ℤ) + a.2 ≤ length) :
    (∀ a ∈ (iotxMcSendPacket buf length ts s).2.asked, (a.1 : ℤ) + a.2 ≤ length) ↔
      StopsPartway length s.sent ts := by
  induction ts generalizing s with
  | nil => exact ⟨fun _ => stopsPartway_nil, fun _ => hs⟩
  | cons t ts ih =>
    unfold iotxMcSendPacket
    by_cases hlt : (s.sent : ℤ) < length
    · rw [if_pos hlt]
      cases t with
      | expired => exact ⟨fun _ => (stopsPartway_cons (by simp)).2 fun _ _ => rfl, fun _ => hs⟩
      | failed =>
        rw [stopsPartway_cons (by simp)]
        refine (ask_inside_iff hs).trans ⟨fun h hpos => by omega, fun h => ?_⟩
        by_contra hne
        cases h (by omega) hlt
      | wrote n =>
        rw [stopsPartway_wrote]
        constructor
        · intro h
          have hzero : s.sent = 0 := (ask_inside_iff hs).1 fun a ha => h a (asked_mono ha)
          exact ⟨fun hpos => by omega, (ih (s := (s.ask length).write buf n) ((ask_inside_iff hs).2 hzero)).1 h⟩
        · rintro ⟨hnow, hrest⟩
          have hzero : s.sent = 0 := by
            by_contra hne
            have := hnow (by omega)
            omega
          exact (ih (s := (s.ask length).write buf n) ((ask_inside_iff hs).2 hzero)).2 hrest
    · rw [if_neg hlt]
      exact ⟨fun _ => stopsPartway_of_le (by omega), fun _ => hs⟩

/-- **A packet is sent exactly** if the time is over whenever a part of it has
    been written. -/
theorem sendPacket_exact_iff (buf : ℕ → β) (length : ℤ) (ts : List WriteTurn) :
    SendsExactly buf length ts ↔ StopsPartway length 0 ts := by
  have hinside : (∀ a ∈ (iotxMcSendPacket buf length ts sendStart).2.asked, (a.1 : ℤ) + a.2 ≤ length) ↔
      StopsPartway length 0 ts :=
    sendPacket_inside_iff (s := sendStart) fun a ha => absurd ha List.not_mem_nil
  constructor
  · intro h
    exact hinside.1 h.inside
  · intro h
    refine ⟨fun hrc => ?_, hinside.2 h⟩
    have hsent := sendPacket_sent hrc
    rw [sendPacket_wire (s := sendStart) rfl]
    congr 1
    omega

/-- Two of four bytes are written, then the network is asked for four more. -/
theorem sendPacket_reads_on : ¬ SendsExactly (fun i : ℕ => i) 4 [.wrote 2, .wrote 4] := by
  intro h
  have := h.inside (2, 4) (by decide)
  revert this
  decide

end Mqtt
