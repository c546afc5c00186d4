/-
  Where the decoder reads, and where the parts of its message lie.

  `layout` is `CoAPDeserialize_Message` with the places instead of the bytes: the
  options with their heads and values, the payload, and the place of the byte
  that the decoder takes for the payload marker.  It reads this byte at the end
  of every datagram.  `decodes_safely_iff` says which datagrams are read inside of
  their bounds.
-/
import AliOS.Coap.Options

namespace Coap

open Lib

variable {buf : ℕ → UInt8} {buflen : ℤ} {fuel k n ptr count pre : ℕ}

/-! ## The layout -/

/-- An option: the first byte, the first byte of the value, and its length. -/
structure OptionSpan where
  head : ℕ
  val : ℕ
  len : ℕ

/-- `option->len`. -/
def optionLen (buf : ℕ → UInt8) (ptr : ℕ) : ℕ := valueLen buf ptr % 2 ^ 16

/-- The option that `CoAPDeserialize_Option` reads at `ptr`. -/
def optionSpan (buf : ℕ → UInt8) (ptr : ℕ) : OptionSpan where
  head := ptr
  val := ptr + optionHead buf ptr
  len := optionLen buf ptr

/-- The loop of `CoAPDeserialize_Options`, with the places of the options. -/
def optionSpans (buf : ℕ → UInt8) (buflen : ℤ) : ℕ → ℕ → ℕ → Option (List OptionSpan × ℕ)
  | 0, _, _ => none
  | fuel + 1, ptr, count =>
    if count < buflen ∧ buf ptr ≠ 0xFF then
      let len := (optionHead buf ptr + optionLen buf ptr) % 2 ^ 16
      (optionSpans buf buflen fuel (ptr + len) (count + len)).map fun r =>
        (optionSpan buf ptr :: r.1, r.2)
    else some ([], ptr)

/-- Where the parts of a message lie; `marker` is where the payload marker is
    looked for, and `payload` the first byte of the payload, and its length. -/
structure Layout where
  tokenlen : ℕ
  options : List OptionSpan
  marker : ℕ
  payload : Option (ℕ × ℕ)

/-- `CoAPDeserialize_Message`, of a datagram that is not too short. -/
def layout (buf : ℕ → UInt8) (n : ℕ) : Option Layout :=
  let tokenlen := (coapDeserializeHeader buf).tokenlen
  let ptr := 4 + tokenlen
  let remlen : ℤ := n - ptr
  (optionSpans buf remlen (n + 1) ptr 0).map fun (options, p) =>
    let payload := if buf p = 0xFF then some (p + 1, ((remlen - (p - ptr) - 1) % 2 ^ 16).toNat) else none
    ⟨tokenlen, options, p, payload⟩

/-- The bytes that the decoder reads: the header, the token, the bytes before the
    value of each option, and the one behind the options. -/
def Layout.Reads (l : Layout) (i : ℕ) : Prop :=
  i < 4 ∨ (4 ≤ i ∧ i < 4 + l.tokenlen) ∨ (∃ s ∈ l.options, s.head ≤ i ∧ i < s.val) ∨ i = l.marker

/-- The parts of the message lie at these places. -/
structure Layout.Holds (l : Layout) (buf : ℕ → UInt8) (m : CoAPMessage) : Prop where
  token : m.token = slice buf 4 l.tokenlen
  options : m.options.map (fun o => o.val) = l.options.map fun s => slice buf s.val s.len
  payload : m.payload = (l.payload.map fun p => slice buf p.1 p.2).getD []

theorem optionSpans_eq (buf : ℕ → UInt8) (buflen : ℤ) (fuel ptr count pre : ℕ) :
    (coapDeserializeOptions buf buflen fuel ptr count pre).map (fun r => (r.1.map fun o => o.val, r.2)) =
      (optionSpans buf buflen fuel ptr count).map fun r => (r.1.map fun s => slice buf s.val s.len, r.2) := by
  induction fuel generalizing ptr count pre with
  | zero => rfl
  | succ fuel ih =>
    unfold coapDeserializeOptions optionSpans
    by_cases h : count < buflen ∧ buf ptr ≠ 0xFF
    · rw [if_pos h, if_pos h, coapDeserializeOption_eq, ← optionLen]
      rw [Option.map_map, Option.map_map]
      have hcons := congrArg (Option.map fun r : List Bytes × ℕ =>
        (slice buf (ptr + optionHead buf ptr) (optionLen buf ptr) :: r.1, r.2))
        (ih (ptr + (optionHead buf ptr + optionLen buf ptr) % 2 ^ 16)
          (count + (optionHead buf ptr + optionLen buf ptr) % 2 ^ 16)
          (decodeNumber buf (deltaBits buf ptr) pre (ptr + 1)).1)
      rw [Option.map_map, Option.map_map] at hcons
      exact hcons
    · rw [if_neg h, if_neg h]
      rfl

/-- **The layout** of a datagram that the decoder ends on is that of its message. -/
theorem layout_holds (hn : 4 ≤ n) {l : Layout} (h : layout buf n = some l) :
    ∃ m, coapDeserializeMessage buf n = some (.success, m) ∧ l.Holds buf m := by
  unfold layout at h
  obtain ⟨⟨spans, p⟩, hspans, rfl⟩ := Option.map_eq_some_iff.1 h
  have heq := optionSpans_eq buf ((n : ℤ) - ((4 + (coapDeserializeHeader buf).tokenlen : ℕ) : ℤ)) (n + 1)
    (4 + (coapDeserializeHeader buf).tokenlen) 0 0
  rw [hspans, Option.map_some] at heq
  obtain ⟨⟨options, p'⟩, hopts, hpair⟩ := Option.map_eq_some_iff.1 heq
  obtain ⟨hvals, rfl⟩ := Prod.mk.inj hpair
  unfold coapDeserializeMessage
  dsimp only
  rw [if_neg (by omega), hopts]
  refine ⟨_, rfl, rfl, hvals, ?_⟩
  unfold coapDeserializePayload
  split_ifs <;> rfl

/-! ## Safe datagrams -/

/-- The decoder returns an error, or a message of parts that lie inside of the
    datagram; it stores what it has room for, and reads no other byte. -/
def DecodesSafely (buf : ℕ → UInt8) (n : ℕ) : Prop :=
  ∃ stat m, coapDeserializeMessage buf n = some (stat, m) ∧
    (stat ≠ .success ∨ ∃ l, layout buf n = some l ∧ l.Holds buf m ∧
      l.tokenlen ≤ maxTokenLen ∧ l.options.length ≤ maxOptionNum ∧
      4 + l.tokenlen ≤ n ∧ (∀ s ∈ l.options, s.val + s.len ≤ n) ∧
      (∀ p ∈ l.payload, p.1 + p.2 ≤ n) ∧ ∀ i, l.Reads i → i < n)

/-- From `pos` on there are at most `k` options that end inside of the datagram,
    and the payload marker. -/
def Framed (buf : ℕ → UInt8) (n : ℕ) : ℕ → ℕ → Prop
  | 0, pos => pos < n ∧ buf pos = 0xFF
  | k + 1, pos => pos < n ∧ (buf pos = 0xFF ∨ Framed buf n k (pos + optionHead buf pos + optionLen buf pos))

instance Framed.decidable (buf : ℕ → UInt8) (n : ℕ) : ∀ k pos, Decidable (Framed buf n k pos)
  | 0, pos => inferInstanceAs (Decidable (pos < n ∧ buf pos = 0xFF))
  | k + 1, pos =>
    have := Framed.decidable buf n k (pos + optionHead buf pos + optionLen buf pos)
    inferInstanceAs (Decidable (pos < n ∧ (buf pos = 0xFF ∨ Framed buf n k _)))

theorem Framed.lt (h : Framed buf n k ptr) : ptr < n := by
  cases k with
  | zero => exact h.1
  | succ k => exact h.1

/-- What a safe run of the loop leaves. -/
def SafeSpans (n k : ℕ) (r : List OptionSpan × ℕ) : Prop :=
  r.1.length ≤ k ∧ (∀ s ∈ r.1, s.val + s.len ≤ n) ∧ r.2 < n

theorem optionSpans_safe_iff (hn : n < 2 ^ 16) (hcount : (count : ℤ) + n = ptr + buflen) (hfuel : n < ptr + fuel) :
    (∃ r, optionSpans buf buflen fuel ptr count = some r ∧ SafeSpans n k r) ↔ Framed buf n k ptr := by
  induction fuel generalizing ptr count k with
  | zero =>
    refine iff_of_false ?_ fun h => ?_
    · rintro ⟨r, hr, -⟩
      cases hr
    · have hlt := h.lt
      omega
  | succ fuel ih =>
    unfold optionSpans
    by_cases h : count < buflen ∧ buf ptr ≠ 0xFF
    · rw [if_pos h]
      dsimp only
      have hhead : 1 ≤ optionHead buf ptr := by
        unfold optionHead
        omega
      cases k with
      | zero =>
        -- there is no room for the option
        refine iff_of_false ?_ fun hf => h.2 hf.2
        rintro ⟨r, hr, hlen, -⟩
        obtain ⟨r', -, rfl⟩ := Option.map_eq_some_iff.1 hr
        simp at hlen
      | succ k =>
        by_cases hin : ptr + optionHead buf ptr + optionLen buf ptr ≤ n
        · have hlen : (optionHead buf ptr + optionLen buf ptr) % 2 ^ 16 = optionHead buf ptr + optionLen buf ptr := by
            omega
          rw [hlen]
          have ih := @ih k (ptr + (optionHead buf ptr + optionLen buf ptr))
            (count + (optionHead buf ptr + optionLen buf ptr)) (by push_cast; omega) (by omega)
          rw [← Nat.add_assoc] at ih
          constructor
          · rintro ⟨r, hr, hk, hspans, hend⟩
            obtain ⟨r', hr', rfl⟩ := Option.map_eq_some_iff.1 hr
            rw [← Nat.add_assoc] at hr'
            refine ⟨by omega, .inr (ih.1 ⟨r', hr', ?_, ?_, hend⟩)⟩
            · exact Nat.le_of_succ_le_succ hk
            · exact fun s hs => hspans s (List.mem_cons_of_mem _ hs)
          · rintro ⟨-, hmark | hf⟩
            · exact absurd hmark h.2
            · obtain ⟨r', hr', hk, hspans, hend⟩ := ih.2 hf
              rw [← Nat.add_assoc]
              refine ⟨_, Option.map_eq_some_iff.2 ⟨r', hr', rfl⟩, Nat.succ_le_succ hk, ?_, hend⟩
              intro s hs
              rcases List.mem_cons.1 hs with rfl | hs
              · exact hin
              · exact hspans s hs
        · -- its value ends outside
          refine iff_of_false ?_ ?_
          · rintro ⟨r, hr, -, hspans, -⟩
            obtain ⟨r', -, rfl⟩ := Option.map_eq_some_iff.1 hr
            exact hin (hspans _ List.mem_cons_self)
          · rintro ⟨-, hmark | hf⟩
            · exact h.2 hmark
            · exact hin hf.lt.le
    · rw [if_neg h]
      constructor
      · rintro ⟨r, hr, -, -, hend⟩
        cases hr
        have hmark : buf ptr = 0xFF := by
          by_contra hne
          exact h ⟨by dsimp only at hend; omega, hne⟩
        cases k with
        | zero => exact ⟨hend, hmark⟩
        | succ k => exact ⟨hend, .inl hmark⟩
      · intro hf
        exact ⟨_, rfl, Nat.zero_le _, fun s hs => absurd hs List.not_mem_nil, hf.lt⟩

theorem safe_iff_framed (hn : n < 2 ^ 16) (h4 : ¬ n < 4) :
    DecodesSafely buf n ↔ (coapDeserializeHeader buf).tokenlen ≤ maxTokenLen ∧
      Framed buf n maxOptionNum (4 + (coapDeserializeHeader buf).tokenlen) := by
  have hloop : (∃ r, optionSpans buf ((n : ℤ) - ((4 + (coapDeserializeHeader buf).tokenlen : ℕ) : ℤ)) (n + 1)
      (4 + (coapDeserializeHeader buf).tokenlen) 0 = some r ∧ SafeSpans n maxOptionNum r) ↔
        Framed buf n maxOptionNum (4 + (coapDeserializeHeader buf).tokenlen) :=
    optionSpans_safe_iff hn (by push_cast; omega) (by omega)
  rw [← hloop]
  constructor
  · rintro ⟨stat, m, hm, hstat | ⟨l, hl, -, htoken, hoptions, -, hspans, -, hreads⟩⟩
    · unfold coapDeserializeMessage at hm
      rw [if_neg h4] at hm
      obtain ⟨r, -, hr⟩ := Option.map_eq_some_iff.1 hm
      exact absurd (congrArg Prod.fst hr).symm hstat
    · unfold layout at hl
      obtain ⟨r, hr, rfl⟩ := Option.map_eq_some_iff.1 hl
      exact ⟨htoken, r, hr, hoptions, hspans, hreads _ (.inr (.inr (.inr rfl)))⟩
  · rintro ⟨htoken, ⟨spans, p⟩, hr, hoptions, hspans, hend⟩
    have hl : layout buf n = some _ := Option.map_eq_some_iff.2 ⟨_, hr, rfl⟩
    obtain ⟨m, hm, hholds⟩ := layout_holds (by omega) hl
    have hframed := (hloop.1 ⟨_, hr, hoptions, hspans, hend⟩).lt
    refine ⟨_, m, hm, .inr ⟨_, hl, hholds, htoken, hoptions, hframed.le, hspans, ?_, ?_⟩⟩
    · intro q hq
      dsimp only at hq hend
      split_ifs at hq
      · cases hq
        omega
      · cases hq
    · rintro i (hi | ⟨-, hi⟩ | ⟨s, hs, -, hi⟩ | rfl)
      · omega
      · exact hi.trans hframed
      · exact lt_of_lt_of_le hi ((Nat.le_add_right _ _).trans (hspans s hs))
      · exact hend

/-- **Safe decoding**: a datagram is read inside of its bounds exactly where it is too
    short for a header, or has a token that fits, and options that fit, with the
    payload marker behind them. -/
theorem decodes_safely_iff (hn : n ≤ maxPduLen) :
    DecodesSafely buf n ↔ n < 4 ∨ (coapDeserializeHeader buf).tokenlen ≤ maxTokenLen ∧
      Framed buf n maxOptionNum (4 + (coapDeserializeHeader buf).tokenlen) := by
  unfold maxPduLen at hn
  by_cases h4 : n < 4
  · have hinvalid : ∃ m, coapDeserializeMessage buf n = some (.invalidLength, m) := by
      unfold coapDeserializeMessage
      rw [if_pos h4]
      exact ⟨_, rfl⟩
    obtain ⟨m, hm⟩ := hinvalid
    exact iff_of_true ⟨_, m, hm, .inl (by decide)⟩ (.inl h4)
  · rw [or_iff_right h4]
    exact safe_iff_framed (by omega) h4

/-- A response with a token and a payload. -/
theorem decodes_safely_iff_response :
    DecodesSafely (fun i => [0x61, 0x45, 0x12, 0x34, 0xAA, 0xFF, 0x31].getD i 0) 7 :=
  (decodes_safely_iff (n := 7) (by decide)).2 (.inr ⟨by decide, by decide⟩)

/-- An empty acknowledgement: the decoder looks for a marker behind it. -/
theorem decode_reads_outside : ¬ ∀ buf n, n ≤ maxPduLen → DecodesSafely buf n := by
  intro hall
  have hsafe := hall (fun i => [0x60, 0x00, 0x12, 0x34].getD i 0) 4 (by decide)
  have hframed := ((safe_iff_framed (by decide) (by decide)).1 hsafe).2
  exact absurd hframed (by decide)

end Coap
