/-
  The length of a CoAP message: `CoAPSerialize_MessageLength` against
  `CoAPSerialize_Message`.

  `CoAPMessage_send` asks for the length first, and encodes into the
  COAP_MSG_MAX_PDU_LEN bytes of `sendbuf` if it is small enough.  The length is
  a sum in 16 bits, and the encoder takes a payload that does not fit for an
  error of -1 that goes into its own sum.  `length_predicted_iff` says for which
  messages the two agree.
-/
import AliOS.Coap.RoundTrip

namespace Coap

open Lib

variable {m : CoAPMessage} {o : CoAPMsgOption} {os : List CoAPMsgOption} {fills : List Fill} {f : Fill}

/-! ## The messages that the setters accept -/

/-- The arguments of a call have lengths that their types can hold. -/
def Fill.Fits : Fill → Prop
  | .payload p => p.length < 2 ^ 16
  | .option _ (.str data) => data.length < 2 ^ 16
  | _ => True

/-- What the fields of a message can hold. -/
structure Accepted (m : CoAPMessage) : Prop where
  tokenlen : m.header.tokenlen = m.token.length
  token : m.token.length ≤ maxTokenLen
  payload : m.payload.length < 2 ^ 16

theorem accepted_init : Accepted coapMessageInit := ⟨rfl, by decide, by decide⟩

theorem Accepted.run (h : Accepted m) (hf : f.Fits) : Accepted (f.run m) := by
  cases f with
  | msgid id => exact ⟨h.tokenlen, h.token, h.payload⟩
  | code c => exact ⟨h.tokenlen, h.token, h.payload⟩
  | handler p => exact ⟨h.tokenlen, h.token, h.payload⟩
  | payload p => exact ⟨h.tokenlen, h.token, hf⟩
  | type t =>
    simp only [Fill.run, coapMessageTypeSet]
    split_ifs
    · exact h
    · exact ⟨h.tokenlen, h.token, h.payload⟩
  | token t =>
    simp only [Fill.run, coapMessageTokenSet]
    split_ifs with ht
    · exact h
    · exact ⟨rfl, Nat.le_of_not_lt ht, h.payload⟩
  | option num data =>
    cases data with
    | str data =>
      simp only [Fill.run, coapStrOptionAdd]
      split_ifs
      · exact h
      · exact ⟨h.tokenlen, h.token, h.payload⟩
    | uint data =>
      simp only [Fill.run, coapUintOptionAdd]
      split_ifs
      · exact h
      · exact ⟨h.tokenlen, h.token, h.payload⟩

theorem accepted_build (hf : ∀ f ∈ fills, f.Fits) : Accepted (build fills) := by
  unfold build
  induction fills using List.reverseRecOn with
  | nil => exact accepted_init
  | append_singleton fills f ih =>
    rw [List.foldl_append, List.foldl_cons, List.foldl_nil]
    refine (ih fun f hm => hf f ?_).run (hf f ?_)
    · exact List.mem_append_left _ hm
    · exact List.mem_append_right _ (List.mem_singleton_self f)

/-! ## The options -/

/-- The bytes that an extension takes. -/
def extensionSize (n : ℕ) : ℕ := if 269 ≤ n then 2 else if 13 ≤ n then 1 else 0

/-- The bytes that an option takes. -/
def optionSize (o : CoAPMsgOption) : ℕ := 1 + extensionSize o.num + extensionSize o.len + o.len

theorem extension_length (n : ℕ) : (extension n).length = extensionSize n := by
  unfold extension extensionSize
  split_ifs <;> rfl

theorem option_length (o : CoAPMsgOption) : (coapSerializeOption o).length = optionSize o := by
  unfold coapSerializeOption optionSize
  rw [List.length_append, List.length_append, List.length_cons, List.length_map, List.length_range,
    extension_length, extension_length]
  omega

theorem options_length (os : List CoAPMsgOption) :
    (os.flatMap coapSerializeOption).length = (os.map optionSize).sum := by
  induction os with
  | nil => rfl
  | cons o os ih => rw [List.flatMap_cons, List.length_append, option_length, ih, List.map_cons, List.sum_cons]

theorem optionLen_eq (o : CoAPMsgOption) :
    coapSerializeOptionLen o = (coapSerializeOption o).length % 2 ^ 16 := by
  rw [option_length]
  unfold coapSerializeOptionLen optionSize extensionSize
  dsimp only
  congr 1
  split_ifs <;> rfl

theorem optionsLenLoop_eq (os : List CoAPMsgOption) (count : ℕ) (bytes : Bytes) :
    optionsLenLoop os count = (serializeOptionsLoop os count bytes).1 := by
  induction os generalizing count bytes with
  | nil => rfl
  | cons o os ih =>
    unfold optionsLenLoop serializeOptionsLoop
    dsimp only
    rw [optionLen_eq]
    split_ifs
    · exact ih ..
    · rfl

theorem serializeOptionsLoop_long {count n : ℕ} {bytes : Bytes} (hn : n < 2 ^ 16)
    (h : n < bytes.length + (os.flatMap coapSerializeOption).length) :
    n < (serializeOptionsLoop os count bytes).2.length := by
  induction os generalizing count bytes with
  | nil => simpa [serializeOptionsLoop] using h
  | cons o os ih =>
    rw [List.flatMap_cons, List.length_append] at h
    unfold serializeOptionsLoop
    dsimp only
    split_ifs with hlen
    · refine ih ?_
      rw [List.length_append]
      omega
    · -- the option has 65536 bytes, or a multiple
      have hpos := option_length_pos o
      rw [List.length_append]
      omega

/-! ## The message -/

/-- The bytes before the payload. -/
def headSize (m : CoAPMessage) : ℕ := 4 + m.token.length + (m.options.map optionSize).sum

theorem headSize_eq (m : CoAPMessage) :
    headSize m = 4 + m.token.length + (m.options.flatMap coapSerializeOption).length := by
  rw [options_length, headSize]

theorem messageLength_eq (h : Accepted m) (hfit : headSize m ≤ maxPduLen) :
    coapSerializeMessageLength m =
      (headSize m + if m.payload = [] then 0 else m.payload.length + 1) % 2 ^ 16 := by
  have hsize := headSize_eq m
  unfold maxPduLen at hfit
  have hloop := @serializeOptionsLoop_eq m.options 0 [] (by omega)
  have hopts : coapSerializeOptionsLen m = (m.options.flatMap coapSerializeOption).length := by
    unfold coapSerializeOptionsLen
    rw [optionsLenLoop_eq m.options 0 [], hloop, Nat.zero_add]
  unfold coapSerializeMessageLength
  dsimp only
  rw [hopts, h.tokenlen, hsize]
  by_cases hp : m.payload = []
  · rw [if_pos hp, if_neg (by rw [hp]; simp), Nat.add_zero]
  · rw [if_neg hp, if_pos (List.length_pos_of_ne_nil hp), Nat.add_assoc]

theorem serializeMessage_eq (h : Accepted m) :
    coapSerializeMessage m maxPduLen =
      let r := coapSerializeOptions m
      let remlen := subShort (subShort 1276 m.token.length) r.1
      let p := coapSerializePayload m remlen
      ((maxPduLen : ℤ) - subShort remlen p.1, headerBytes m.header ++ m.token ++ r.2 ++ p.2) := by
  have h12 := h.token
  have htoken : coapSerializeToken m 1276 = (m.token.length, m.token) := by
    unfold maxTokenLen at h12
    unfold coapSerializeToken
    rw [h.tokenlen, if_neg (by omega), range_getD]
  have hrem : subShort 1280 ((4 : ℕ) : ℤ) = 1276 := subShort_le (by decide) (by decide)
  have hhead : coapSerializeHeader m 1280 = (4, headerBytes m.header) := rfl
  unfold coapSerializeMessage maxPduLen
  dsimp only
  rw [hhead]
  rw [hrem, htoken]

/-- The encoder writes inside of the buffer, and returns the predicted length. -/
def Predicted (m : CoAPMessage) : Prop :=
  (coapSerializeMessage m maxPduLen).2.length ≤ maxPduLen ∧
    (coapSerializeMessage m maxPduLen).1 = coapSerializeMessageLength m

theorem not_predicted_of_long (h : Accepted m) (hlong : maxPduLen < headSize m) : ¬ Predicted m := by
  rintro ⟨hlen, -⟩
  rw [serializeMessage_eq h] at hlen
  have hsize := headSize_eq m
  unfold maxPduLen at hlong
  have h12 := h.token
  have hover : 1280 < 4 + m.token.length + (coapSerializeOptions m).2.length := by
    have := @serializeOptionsLoop_long m.options 0 (1276 - m.token.length) [] (by omega)
      (by simp only [List.length_nil]; unfold maxTokenLen at h12; omega)
    unfold coapSerializeOptions
    omega
  have h4 : (headerBytes m.header).length = 4 := rfl
  simp only [List.length_append, h4] at hlen
  unfold maxPduLen at hlen
  omega

theorem predicted_iff_of_fits (h : Accepted m) (hfit : headSize m ≤ maxPduLen) :
    Predicted m ↔ (m.payload = [] → headSize m < maxPduLen) ∧
      (m.payload ≠ [] → headSize m + m.payload.length + 1 ≤ maxPduLen ∨ m.payload.length = 65534) := by
  have hpay := h.payload
  have hpred := messageLength_eq h hfit
  have h4 : (headerBytes m.header).length = 4 := rfl
  have hsize := headSize_eq m
  have hopts : coapSerializeOptions m =
      ((m.options.flatMap coapSerializeOption).length, m.options.flatMap coapSerializeOption) := by
    unfold maxPduLen at hfit
    have hloop := @serializeOptionsLoop_eq m.options 0 [] (by omega)
    rwa [Nat.zero_add, List.nil_append] at hloop
  have hrem : subShort (subShort 1276 m.token.length) (m.options.flatMap coapSerializeOption).length =
      maxPduLen - headSize m := by
    have h12 := h.token
    unfold maxPduLen at *
    unfold maxTokenLen at h12
    have htok : subShort 1276 m.token.length = 1276 - m.token.length := subShort_le (by omega) (by decide)
    rw [htok, subShort_le (by omega) (by omega)]
    omega
  unfold Predicted
  rw [serializeMessage_eq h, hopts, hpred]
  dsimp only
  rw [hrem]
  unfold coapSerializePayload
  by_cases hp : m.payload = []
  · have hp0 : m.payload.length = 0 := by rw [hp]; rfl
    rw [if_pos hp]
    by_cases hfull : headSize m = maxPduLen
    · -- the error of a payload that needs no room
      rw [if_pos (by omega)]
      refine iff_of_false ?_ fun hc => absurd (hc.1 hp) (by omega)
      rintro ⟨-, hret⟩
      unfold subShort maxPduLen at *
      omega
    · rw [if_neg (by omega), if_neg (by omega)]
      refine iff_of_true ⟨?_, ?_⟩ ⟨fun _ => by omega, fun hne => absurd hp hne⟩
      · simp only [List.length_append, h4, List.length_nil]
        omega
      · unfold subShort maxPduLen at *
        omega
  · have hppos := List.length_pos_of_ne_nil hp
    rw [if_neg hp]
    by_cases hroom : headSize m + m.payload.length + 1 ≤ maxPduLen
    · rw [if_neg (by omega), if_pos hppos]
      refine iff_of_true ⟨?_, ?_⟩ ⟨fun hnil => absurd hnil hp, fun _ => .inl hroom⟩
      · simp only [List.length_append, h4, List.length_cons]
        omega
      · unfold subShort maxPduLen at *
        omega
    · -- the payload is left out, and -1 goes into the sum
      rw [if_pos (by omega)]
      constructor
      · rintro ⟨-, hret⟩
        refine ⟨fun hnil => absurd hnil hp, fun _ => .inr ?_⟩
        unfold subShort maxPduLen at *
        omega
      · rintro ⟨-, hc⟩
        have h65534 : m.payload.length = 65534 := (hc hp).resolve_left hroom
        refine ⟨?_, ?_⟩
        · simp only [List.length_append, h4, List.length_nil]
          omega
        · unfold subShort maxPduLen at *
          omega

/-- **The length of a message** that passes the test of `CoAPMessage_send` is that
    of its encoding, and that fits, exactly where the true size fits, and is not
    just that of the buffer without a payload; or where a payload of 65534 bytes
    makes up for the error. -/
theorem length_predicted_iff (hf : ∀ f ∈ fills, f.Fits) :
    Predicted (build fills) ↔ headSize (build fills) ≤ maxPduLen ∧
      ((build fills).payload = [] → headSize (build fills) < maxPduLen) ∧
      ((build fills).payload ≠ [] → headSize (build fills) + (build fills).payload.length + 1 ≤ maxPduLen ∨
        (build fills).payload.length = 65534) := by
  have h := accepted_build hf
  by_cases hfit : headSize (build fills) ≤ maxPduLen
  · rw [predicted_iff_of_fits h hfit]
    exact ⟨fun hc => ⟨hfit, hc⟩, fun hc => hc.2⟩
  · exact iff_of_false (not_predicted_of_long h (by omega)) fun hc => hfit hc.1

/-- A message with a token, an option and a payload. -/
theorem length_predicted_iff_token :
    Predicted (build [.token [1, 2], .option 11 (.str [0x61]), .payload [7]]) :=
  (length_predicted_iff (show ∀ f ∈ [.token [1, 2], .option 11 (.str [0x61]), .payload [7]], Fill.Fits f by
    simp [Fill.Fits])).2 ⟨by decide, by decide, fun _ => .inl (by decide)⟩

/-- A path that fills the buffer, and no payload. -/
theorem length_not_predicted :
    ¬ ∀ fills : List Fill, (∀ f ∈ fills, f.Fits) →
      coapSerializeMessageLength (build fills) ≤ maxPduLen → Predicted (build fills) := by
  intro hall
  let path := Fill.option 11 (.str (List.replicate 1273 0x61))
  have hfits : ∀ f ∈ [path], f.Fits := by
    intro f hf
    rw [List.mem_singleton.1 hf]
    exact (List.length_replicate).trans_lt (by decide)
  have haccepted := accepted_build hfits
  have hbuild (data : Bytes) : (build [.option 11 (.str data)]).options = [⟨11, data.length, data⟩] := rfl
  have hsize : headSize (build [path]) = maxPduLen := by
    unfold headSize
    rw [hbuild, List.map_singleton, List.sum_singleton, optionSize, List.length_replicate]
    rfl
  have hlen : coapSerializeMessageLength (build [path]) = maxPduLen := by
    rw [messageLength_eq haccepted hsize.le, hsize]
    rfl
  have hpredicted := hall [path] hfits hlen.le
  have hless := ((predicted_iff_of_fits haccepted hsize.le).1 hpredicted).1 rfl
  omega

end Coap
