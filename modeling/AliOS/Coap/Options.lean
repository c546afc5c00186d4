/-
  The options of a datagram: `CoAPDeserialize_Option` and the loop around it.

  The length of an option is an `unsigned short`, and so is the size that the
  loop goes on by; an extended length can make both wrap.
  `options_progress_iff` says for which buffers every turn of the loop goes on
  by the true size of the option, so that it ends.
-/
import AliOS.Coap.Codec
import AliOS.Lib.Loop

namespace Coap

open Lib

variable {buf : ℕ → UInt8} {buflen : ℤ} {start ptr pre n : ℕ}

/-! ## One option -/

/-- The bytes of the extension that four bits announce. -/
def extBytes (nib : ℕ) : ℕ := if nib = 13 then 1 else if nib = 14 then 2 else 0

def deltaBits (buf : ℕ → UInt8) (ptr : ℕ) : ℕ := ((buf ptr).toNat &&& 0xF0) >>> 4
def lenBits (buf : ℕ → UInt8) (ptr : ℕ) : ℕ := (buf ptr).toNat &&& 0x0F

/-- The bytes of an option before its value. -/
def optionHead (buf : ℕ → UInt8) (ptr : ℕ) : ℕ :=
  1 + extBytes (deltaBits buf ptr) + extBytes (lenBits buf ptr)

/-- The length of the value, as the option at `ptr` has it. -/
def valueLen (buf : ℕ → UInt8) (ptr : ℕ) : ℕ :=
  let p := ptr + 1 + extBytes (deltaBits buf ptr)
  if lenBits buf ptr = 13 then 13 + (buf p).toNat
  else if lenBits buf ptr = 14 then 269 + (buf p).toNat <<< 8 + (buf (p + 1)).toNat
  else lenBits buf ptr

/-- The true size of the option at `ptr`. -/
def trueSize (buf : ℕ → UInt8) (ptr : ℕ) : ℕ := optionHead buf ptr + valueLen buf ptr

theorem trueSize_pos (buf : ℕ → UInt8) (ptr : ℕ) : 1 ≤ trueSize buf ptr := by
  unfold trueSize optionHead
  omega

theorem decodeNumber_ptr (buf : ℕ → UInt8) (nib base ptr : ℕ) :
    (decodeNumber buf nib base ptr).2 = ptr + extBytes nib := by
  unfold decodeNumber extBytes
  split_ifs <;> rfl

theorem coapDeserializeOption_eq (buf : ℕ → UInt8) (ptr pre : ℕ) :
    coapDeserializeOption buf ptr pre =
      (⟨(decodeNumber buf (deltaBits buf ptr) pre (ptr + 1)).1, valueLen buf ptr % 2 ^ 16,
        slice buf (ptr + optionHead buf ptr) (valueLen buf ptr % 2 ^ 16)⟩,
        optionHead buf ptr + valueLen buf ptr % 2 ^ 16) := by
  have hp := decodeNumber_ptr buf (deltaBits buf ptr) pre (ptr + 1)
  have hq := decodeNumber_ptr buf (lenBits buf ptr) 0 (ptr + 1 + extBytes (deltaBits buf ptr))
  have hlen : (decodeNumber buf (lenBits buf ptr) 0 (ptr + 1 + extBytes (deltaBits buf ptr))).1 =
      valueLen buf ptr % 2 ^ 16 := by
    unfold decodeNumber valueLen
    split_ifs <;> simp
  have hhead : ptr + 1 + extBytes (deltaBits buf ptr) + extBytes (lenBits buf ptr) =
      ptr + optionHead buf ptr := by
    unfold optionHead
    omega
  unfold coapDeserializeOption
  rw [← deltaBits, ← lenBits]
  dsimp only
  rw [hp, hlen, hq, hhead, Nat.add_sub_cancel_left]

/-! ## The loop -/

/-- The variables of the loop. -/
structure OptLoop where
  ptr : ℕ
  count : ℕ
  optdeltas : ℕ

/-- One turn of the loop of `CoAPDeserialize_Options`. -/
def optionsTurn (buf : ℕ → UInt8) (buflen : ℤ) (s : OptLoop) : Option OptLoop :=
  if s.count < buflen ∧ buf s.ptr ≠ 0xFF then
    let (o, len) := coapDeserializeOption buf s.ptr s.optdeltas
    let len := len % 2 ^ 16
    some ⟨s.ptr + len, s.count + len, o.num⟩
  else none

theorem coapDeserializeOptions_isSome (fuel : ℕ) (s : OptLoop) :
    (coapDeserializeOptions buf buflen (fuel + 1) s.ptr s.count s.optdeltas).isSome =
      (loopFor (optionsTurn buf buflen) fuel s).isSome := by
  induction fuel generalizing s with
  | zero =>
    unfold coapDeserializeOptions loopFor optionsTurn
    by_cases h : s.count < buflen ∧ buf s.ptr ≠ 0xFF
    · rw [if_pos h, if_pos h]
      rfl
    · rw [if_neg h, if_neg h]
      rfl
  | succ fuel ih =>
    unfold coapDeserializeOptions loopFor optionsTurn
    by_cases h : s.count < buflen ∧ buf s.ptr ≠ 0xFF
    · rw [if_pos h, if_pos h]
      rw [Option.isSome_map]
      exact ih ⟨_, _, _⟩
    · rw [if_neg h, if_neg h]
      rfl

/-- The largest `int`. -/
abbrev intMax : ℕ := 2 ^ 31 - 1

/-- A turn goes on by the true size of its option, and the count stays an `int`. -/
def GoesOn (buf : ℕ → UInt8) (s s' : OptLoop) : Prop :=
  s'.ptr = s.ptr + trueSize buf s.ptr ∧ s'.count = s.count + trueSize buf s.ptr ∧ s'.count ≤ intMax

/-- The decoder of the options at `start` goes on with every turn, and ends
    within `buflen` turns. -/
def Progresses (buf : ℕ → UInt8) (buflen : ℤ) (start : ℕ) : Prop :=
  (∀ s s', Turns (optionsTurn buf buflen) ⟨start, 0, 0⟩ s → optionsTurn buf buflen s = some s' →
    s.ptr < s'.ptr ∧ GoesOn buf s s') ∧
  (coapDeserializeOptions buf buflen (buflen.toNat + 1) start 0 0).isSome

/-- The options lie one behind the other: there is one, or the end, `n` bytes
    behind `start`. -/
inductive Walk (buf : ℕ → UInt8) (buflen : ℤ) (start : ℕ) : ℕ → Prop
  | first : Walk buf buflen start 0
  | next {n : ℕ} : Walk buf buflen start n → n < buflen → buf (start + n) ≠ 0xFF →
    Walk buf buflen start (n + trueSize buf (start + n))

/-- Every option has a size that an `unsigned short` holds, and ends where an
    `int` can count to. -/
def Sized (buf : ℕ → UInt8) (buflen : ℤ) (start : ℕ) : Prop :=
  ∀ n, Walk buf buflen start n → n < buflen → buf (start + n) ≠ 0xFF →
    trueSize buf (start + n) < 2 ^ 16 ∧ n + trueSize buf (start + n) ≤ intMax

theorem optionsTurn_eq {s : OptLoop} (h : s.count < buflen ∧ buf s.ptr ≠ 0xFF) :
    optionsTurn buf buflen s =
      let len := (optionHead buf s.ptr + valueLen buf s.ptr % 2 ^ 16) % 2 ^ 16
      some ⟨s.ptr + len, s.count + len, (decodeNumber buf (deltaBits buf s.ptr) s.optdeltas (s.ptr + 1)).1⟩ := by
  unfold optionsTurn
  rw [if_pos h, coapDeserializeOption_eq]

theorem optionsTurn_some {s s' : OptLoop} (h : optionsTurn buf buflen s = some s') :
    s.count < buflen ∧ buf s.ptr ≠ 0xFF := by
  by_contra hn
  unfold optionsTurn at h
  rw [if_neg hn] at h
  cases h

theorem optionsTurn_goesOn {s s' : OptLoop} (h : optionsTurn buf buflen s = some s')
    (hsize : trueSize buf s.ptr < 2 ^ 16) (hint : s.count + trueSize buf s.ptr ≤ intMax) : GoesOn buf s s' := by
  rw [optionsTurn_eq (optionsTurn_some h)] at h
  cases h
  have hlen : (optionHead buf s.ptr + valueLen buf s.ptr % 2 ^ 16) % 2 ^ 16 = trueSize buf s.ptr := by
    unfold trueSize at hsize ⊢
    omega
  unfold GoesOn
  rw [hlen]
  exact ⟨rfl, rfl, hint⟩

theorem turns_walk (hsized : Sized buf buflen start) {s : OptLoop}
    (h : Turns (optionsTurn buf buflen) ⟨start, 0, 0⟩ s) :
    s.ptr = start + s.count ∧ Walk buf buflen start s.count := by
  induction h with
  | refl => exact ⟨rfl, .first⟩
  | @next t u _ hu ih =>
    obtain ⟨hptr, hwalk⟩ := ih
    obtain ⟨hcount, hbyte⟩ := optionsTurn_some hu
    rw [hptr] at hbyte
    obtain ⟨hsize, hint⟩ := hsized _ hwalk hcount hbyte
    rw [← hptr] at hsize hint hbyte
    obtain ⟨hp, hc, -⟩ := optionsTurn_goesOn hu hsize hint
    rw [hp, hc, hptr]
    rw [hptr] at hbyte
    exact ⟨by omega, hwalk.next hcount hbyte⟩

theorem walk_turns (hprog : Progresses buf buflen start) (h : Walk buf buflen start n) :
    ∃ s, Turns (optionsTurn buf buflen) ⟨start, 0, 0⟩ s ∧ s.ptr = start + n ∧ s.count = n := by
  induction h with
  | first => exact ⟨_, .refl, rfl, rfl⟩
  | @next n hwalk hless hbyte ih =>
    obtain ⟨s, hturns, hptr, hcount⟩ := ih
    have hread : s.count < buflen ∧ buf s.ptr ≠ 0xFF := by
      rw [hptr, hcount]
      exact ⟨hless, hbyte⟩
    have hturn := optionsTurn_eq hread
    obtain ⟨-, hp, hc, -⟩ := hprog.1 s _ hturns hturn
    exact ⟨_, hturns.next hturn, by rw [hp, hptr, Nat.add_assoc], by rw [hc, hcount, hptr]⟩

/-- **The options are read in full, and the loop ends**, exactly where every option
    has a size that the 16 bits hold (and the `int` counts to its end). -/
theorem options_progress_iff (buf : ℕ → UInt8) (buflen : ℤ) (start : ℕ) :
    Progresses buf buflen start ↔ Sized buf buflen start := by
  constructor
  · intro hprog n hwalk hless hbyte
    obtain ⟨s, hturns, hptr, hcount⟩ := walk_turns hprog hwalk
    have hread : s.count < buflen ∧ buf s.ptr ≠ 0xFF := by
      rw [hptr, hcount]
      exact ⟨hless, hbyte⟩
    have hturn := optionsTurn_eq hread
    obtain ⟨-, hp, hc, hint⟩ := hprog.1 s _ hturns hturn
    have hlt := Nat.mod_lt (optionHead buf s.ptr + valueLen buf s.ptr % 2 ^ 16) (show 0 < 2 ^ 16 by decide)
    rw [← hptr]
    refine ⟨?_, ?_⟩
    · have heq := Nat.add_left_cancel hp
      omega
    · rw [hc, hcount] at hint
      exact hint
  · intro hsized
    have hgoes : ∀ s s', Turns (optionsTurn buf buflen) ⟨start, 0, 0⟩ s →
        optionsTurn buf buflen s = some s' → GoesOn buf s s' := by
      intro s s' hturns hturn
      obtain ⟨hptr, hwalk⟩ := turns_walk hsized hturns
      obtain ⟨hcount, hbyte⟩ := optionsTurn_some hturn
      rw [hptr] at hbyte
      obtain ⟨hsize, hint⟩ := hsized _ hwalk hcount hbyte
      rw [← hptr] at hsize hint
      exact optionsTurn_goesOn hturn hsize hint
    refine ⟨fun s s' hturns hturn => ?_, ?_⟩
    · have hpos := trueSize_pos buf s.ptr
      have hgo := hgoes s s' hturns hturn
      exact ⟨by rw [hgo.1]; omega, hgo⟩
    · rw [coapDeserializeOptions_isSome (buflen.toNat) ⟨start, 0, 0⟩]
      -- what is left of the buffer gets less with every turn
      refine loopFor_isSome (I := Turns (optionsTurn buf buflen) ⟨start, 0, 0⟩)
        (μ := fun s => (buflen - s.count).toNat) (fun {t u} ht hu => ⟨ht.next hu, ?_⟩) .refl (by simp)
      have hpos := trueSize_pos buf t.ptr
      obtain ⟨-, hc, -⟩ := hgoes t u ht hu
      have hless := (optionsTurn_some hu).1
      rw [hc]
      omega

/-- An option whose length wraps to -2. -/
theorem options_do_not_progress : ¬ ∀ buf buflen start, Progresses buf buflen start := by
  intro hall
  let buf : ℕ → UInt8 := fun i => [0x0E, 0xFE, 0xF0].getD i 0
  let s : OptLoop := ⟨0, 0, 0⟩
  have hread : (s.count : ℤ) < 3 ∧ buf s.ptr ≠ 0xFF := by decide
  have hturn := optionsTurn_eq hread
  obtain ⟨hless, -⟩ := (hall buf 3 0).1 _ _ .refl hturn
  exact absurd hless (by decide)

end Coap
