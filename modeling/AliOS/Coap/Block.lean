/-
  The block options of `iotx_coap_api.c`: `IOT_CoAP_set_block_val`,
  `coap_parse_block_val` and `IOT_CoAP_ParseOption_block`.

  A block option has one to three bytes: the number, from the high bits down,
  and behind it in four bits `more` and the size.  `parse_setBlockVal` says what
  is read of what was written: the number loses the bits from the 20th on.
  `blockVal_exact_iff` says for which arguments nothing is lost.
-/
import AliOS.Coap.RoundTrip
import Mathlib.Data.Nat.Bitwise

namespace Coap

/-! ## The code -/

/-- `COAP_OPTION_BLOCK2` and `COAP_OPTION_BLOCK1`. -/
def optionBlock2 : ℕ := 23
def optionBlock1 : ℕ := 27

/-- What a block option says. -/
structure BlockVal where
  num : ℕ
  more : ℕ
  size : ℕ
  deriving DecidableEq

/-- The `switch` over the size. -/
def szxOf (size : ℕ) : Option ℕ :=
  if size = 1 <<< 4 then some 0
  else if size = 1 <<< 5 then some 1
  else if size = 1 <<< 6 then some 2
  else if size = 1 <<< 7 then some 3
  else if size = 1 <<< 8 then some 4
  else if size = 1 <<< 9 then some 5
  else if size = 1 <<< 10 then some 6
  else none

/-- `IOT_CoAP_set_block_val`: the length that it returns, and `val`; or none for
    `IOTX_ERR_INVALID_PARAM`. -/
def iotCoAPSetBlockVal (num more size : ℕ) : Option (ℕ × Bytes) :=
  (szxOf size).map fun szx =>
    let endByte := (if more = 1 then 1 <<< 3 else 0) ||| szx &&& 0x07
    if num < 16 then (1, [byte (num <<< 4 ||| endByte), 0, 0])
    else if num < 4095 then (2, [byte (num >>> 4), byte (num <<< 4 ||| endByte), 0])
    else (3, [byte (num >>> 12), byte (num >>> 4), byte (num <<< 4 ||| endByte)])

/-- The size and `more` in the last byte, with the bits of the number before. -/
def blockOf (high : ℕ) (last : UInt8) : BlockVal where
  num := high ||| (last.toNat &&& 0xf0) >>> 4
  more := if last.toNat &&& 0x08 = 0 then 0 else 1
  size := 1 <<< ((last.toNat &&& 0x07) + 4)

/-- `coap_parse_block_val`: whether it returns 0, and what it sets; or none if it
    reads behind the value. -/
def coapParseBlockVal (val : Bytes) (len : ℕ) : Option (Bool × BlockVal) := do
  let v ←
    if len = 1 then do
      let b₀ ← val[0]?
      some (blockOf 0 b₀)
    else if len = 2 then do
      let b₀ ← val[0]?
      let b₁ ← val[1]?
      some (blockOf (b₀.toNat <<< 4) b₁)
    else do
      let b₀ ← val[0]?
      let b₁ ← val[1]?
      let b₂ ← val[2]?
      some (blockOf (b₀.toNat <<< 12 ||| b₁.toNat <<< 4) b₂)
  some (decide (v.size ≤ 512), v)

/-- A turn of the loop of `IOT_CoAP_ParseOption_block`, which does not look at what
    `coap_parse_block_val` returns. -/
def parseBlockTurn (type : ℕ) (r : ℕ × Option BlockVal) (opt : CoAPMsgOption) : Option (ℕ × Option BlockVal) :=
  if opt.num = optionBlock2 ∧ type = optionBlock2 ∨ opt.num = optionBlock1 ∧ type = optionBlock1 then do
    let (_, v) ← coapParseBlockVal opt.val opt.len
    some (1, some v)
  else some r

/-- `IOT_CoAP_ParseOption_block`: what it returns, and what was set. -/
def iotCoAPParseOptionBlock (message : CoAPMessage) (type : ℕ) : Option (ℕ × Option BlockVal) :=
  message.options.foldlM (parseBlockTurn type) (0, none)

/-! ## What it is for -/

/-- The message has an option of the type with these bytes, and no other one of
    that type. -/
def Carries (m : CoAPMessage) (type : ℕ) (val : Bytes) : Prop :=
  ∃ before after, m.options = before ++ ⟨type, val.length, val⟩ :: after ∧ ∀ o ∈ before ++ after, o.num ≠ type

/-- The bytes are read as the block option that they were written for. -/
def BlockRoundTrips (num more size : ℕ) : Prop :=
  ∃ ret val, iotCoAPSetBlockVal num more size = some (ret, val) ∧
    coapParseBlockVal (val.take ret) ret = some (true, ⟨num, more, size⟩) ∧
    ∀ m type, type = optionBlock1 ∨ type = optionBlock2 → Carries m type (val.take ret) →
      iotCoAPParseOptionBlock m type = some (1, some ⟨num, more, size⟩)

/-- With a size that has an SZX, a number of 20 bits comes back, and others are
    rejected. -/
def SetsExactly (num more size : ℕ) : Prop :=
  (szxOf size).isSome → if num < 2 ^ 20 then BlockRoundTrips num more size else iotCoAPSetBlockVal num more size = none

/-- The value is read within its length. -/
def ParsesInside (val : Bytes) : Prop := (coapParseBlockVal val val.length).isSome

variable {num more size szx high n : ℕ} {val : Bytes} {m : CoAPMessage} {type : ℕ} {b : UInt8} {v : BlockVal}

/-! ## Bits -/

theorem szxOf_some (h : szxOf size = some szx) : szx < 7 ∧ size = 1 <<< (szx + 4) := by
  unfold szxOf at h
  split_ifs at h with h1 h2 h3 h4 h5 h6 h7
  all_goals
    cases h
    exact ⟨by decide, by assumption⟩

theorem endByte_eq (h : szx < 7) :
    ((if more = 1 then 1 <<< 3 else 0) ||| szx &&& 0x07) = (if more = 1 then 8 else 0) + szx := by
  have hlow : szx &&& 0x07 = szx := by
    rw [show (0x07 : ℕ) = 2 ^ 3 - 1 from rfl, and_low, Nat.mod_eq_of_lt (by omega)]
  rw [hlow]
  split_ifs
  · rw [shift_or (by omega)]
    rfl
  · rw [Nat.zero_or, Nat.zero_add]

theorem and_bit3 (n : ℕ) : n &&& 0x08 = 0 ↔ n / 8 % 2 = 0 := by
  rw [show (0x08 : ℕ) = 2 ^ 3 from rfl, Nat.and_two_pow, Nat.testBit_eq_decide_div_mod_eq]
  simp

theorem lastByte_eq {e : ℕ} (he : e < 16) : (byte (num <<< 4 ||| e)).toNat = num % 16 * 16 + e := by
  rw [byte_toNat, shift_or he]
  omega

theorem blockOf_last (hszx : szx < 7) :
    blockOf high (byte (num <<< 4 ||| ((if more = 1 then 1 <<< 3 else 0) ||| szx &&& 0x07))) =
      ⟨high ||| num % 16, if more = 1 then 1 else 0, 1 <<< (szx + 4)⟩ := by
  have he : (if more = 1 then 8 else 0) + szx < 16 := by split_ifs <;> omega
  rw [endByte_eq hszx, blockOf, lastByte_eq he, high_nibble (Nat.mod_lt _ (by decide)) he,
    show (0x07 : ℕ) = 2 ^ 3 - 1 from rfl, and_low, BlockVal.mk.injEq]
  refine ⟨rfl, ?_, ?_⟩
  · simp only [and_bit3]
    split_ifs <;> omega
  · congr 2
    split_ifs <;> omega

/-! ## Reading what was written -/

/-- **The round trip**: the number comes back in 20 bits, `more` as a bit, and a
    size above 512 is an error. -/
theorem parse_setBlockVal (num more : ℕ) (h : szxOf size = some szx) :
    ∃ ret val, iotCoAPSetBlockVal num more size = some (ret, val) ∧ (val.take ret).length = ret ∧
      coapParseBlockVal (val.take ret) ret =
        some (decide (size ≤ 512), ⟨num % 2 ^ 20, if more = 1 then 1 else 0, size⟩) := by
  obtain ⟨hszx, rfl⟩ := szxOf_some h
  have hlow : num % 16 < 2 ^ 4 := Nat.mod_lt _ (by decide)
  unfold iotCoAPSetBlockVal
  rw [h, Option.map_some]
  by_cases h1 : num < 16
  · rw [if_pos h1]
    refine ⟨_, _, rfl, rfl, ?_⟩
    change some (decide ((blockOf 0 _).size ≤ 512), blockOf 0 _) = _
    rw [blockOf_last hszx, Nat.zero_or, show num % 16 = num % 2 ^ 20 by omega]
  · rw [if_neg h1]
    by_cases h2 : num < 4095
    · rw [if_pos h2]
      refine ⟨_, _, rfl, rfl, ?_⟩
      change some (decide ((blockOf ((byte _).toNat <<< 4) _).size ≤ 512), blockOf ((byte _).toNat <<< 4) _) = _
      have hnum : (byte (num >>> 4)).toNat <<< 4 ||| num % 16 = num % 2 ^ 20 := by
        rw [byte_toNat, shift_or hlow, Nat.shiftRight_eq_div_pow]
        omega
      rw [blockOf_last hszx, hnum]
    · rw [if_neg h2]
      refine ⟨_, _, rfl, rfl, ?_⟩
      change some (decide ((blockOf ((byte _).toNat <<< 12 ||| (byte _).toNat <<< 4) _).size ≤ 512),
        blockOf ((byte _).toNat <<< 12 ||| (byte _).toNat <<< 4) _) = _
      have hnum : (byte (num >>> 12)).toNat <<< 12 ||| (byte (num >>> 4)).toNat <<< 4 ||| num % 16 = num % 2 ^ 20 := by
        rw [byte_toNat, byte_toNat, Nat.or_assoc, shift_or hlow, shift_or (by omega),
          Nat.shiftRight_eq_div_pow, Nat.shiftRight_eq_div_pow]
        omega
      rw [blockOf_last hszx, hnum]

theorem parseBlockTurn_skip {os : List CoAPMsgOption} {r : ℕ × Option BlockVal} (h : ∀ o ∈ os, o.num ≠ type) :
    os.foldlM (parseBlockTurn type) r = some r := by
  induction os generalizing r with
  | nil => rfl
  | cons o os ih =>
    have hne : o.num ≠ type := h o List.mem_cons_self
    have hskip : parseBlockTurn type r o = some r := by
      refine if_neg ?_
      rintro (⟨ho, ht⟩ | ⟨ho, ht⟩)
      · exact hne (ho.trans ht.symm)
      · exact hne (ho.trans ht.symm)
    rw [List.foldlM_cons, hskip]
    exact ih fun o ho => h o (List.mem_cons_of_mem _ ho)

theorem parseOption_carries {ok : Bool} (htype : type = optionBlock1 ∨ type = optionBlock2) (hm : Carries m type val)
    (h : coapParseBlockVal val val.length = some (ok, v)) : iotCoAPParseOptionBlock m type = some (1, some v) := by
  obtain ⟨before, after, hopts, hothers⟩ := hm
  have hturn : ∀ r, parseBlockTurn type r ⟨type, val.length, val⟩ = some (1, some v) := by
    intro r
    have hmine : type = optionBlock2 ∧ type = optionBlock2 ∨ type = optionBlock1 ∧ type = optionBlock1 := by
      rcases htype with ht | ht
      · exact .inr ⟨ht, ht⟩
      · exact .inl ⟨ht, ht⟩
    rw [parseBlockTurn, if_pos hmine, h]
    rfl
  rw [iotCoAPParseOptionBlock, hopts, List.foldlM_append,
    parseBlockTurn_skip fun o ho => hothers o (List.mem_append_left _ ho)]
  change (parseBlockTurn type (0, none) ⟨type, val.length, val⟩).bind _ = _
  rw [hturn, Option.bind_some]
  exact parseBlockTurn_skip fun o ho => hothers o (List.mem_append_right _ ho)

/-! ## When it holds -/

theorem setsExactly_iff : SetsExactly num more size ↔
    (szxOf size).isSome → num < 2 ^ 20 ∧ more ≤ 1 ∧ size ≤ 512 := by
  unfold SetsExactly
  cases hszx : szxOf size with
  | none => simp
  | some szx =>
    obtain ⟨ret, val, hset, hlen, hparse⟩ := parse_setBlockVal num more hszx
    simp only [Option.isSome_some, true_imp_iff]
    by_cases hnum : num < 2 ^ 20
    · rw [if_pos hnum]
      constructor
      · rintro ⟨ret', val', hset', hparse', -⟩
        obtain ⟨rfl, rfl⟩ := Prod.mk.inj (Option.some.inj (hset'.symm.trans hset))
        rw [hparse] at hparse'
        obtain ⟨hsize, hval⟩ := Prod.mk.inj (Option.some.inj hparse')
        have hmore := congrArg BlockVal.more hval
        dsimp only at hmore
        refine ⟨hnum, ?_, of_decide_eq_true hsize⟩
        split_ifs at hmore <;> omega
      · rintro ⟨-, hmore, hsize⟩
        have hbit : (if more = 1 then 1 else 0) = more := by split_ifs <;> omega
        rw [decide_eq_true hsize, Nat.mod_eq_of_lt hnum, hbit] at hparse
        exact ⟨ret, val, hset, hparse, fun m type htype hm =>
          parseOption_carries htype hm (by rw [hlen]; exact hparse)⟩
    · rw [if_neg hnum, hset]
      constructor
      · intro h
        cases h
      · rintro ⟨h, -⟩
        exact absurd h hnum

theorem parsesInside_iff : ParsesInside val ↔ val ≠ [] := by
  unfold ParsesInside
  match val with
  | [] => decide
  | [b0] => simp [coapParseBlockVal]
  | [b0, b1] => simp [coapParseBlockVal]
  | b0 :: b1 :: b2 :: val =>
    simp [coapParseBlockVal]

/-- **Block options come back** if the number has 20 bits, `more` is a bit and the
    size is one that the parser takes; and what is read is in the value if there
    is one. -/
theorem blockVal_exact_iff (num more size : ℕ) (val : Bytes) :
    SetsExactly num more size ∧ ParsesInside val ↔
      ((szxOf size).isSome → num < 2 ^ 20 ∧ more ≤ 1 ∧ size ≤ 512) ∧ val ≠ [] := by
  rw [setsExactly_iff, parsesInside_iff]

/-- The number 2 ^ 20 is accepted, and comes back as 0. -/
theorem blockVal_loses_num : ¬ (SetsExactly (2 ^ 20) 0 16 ∧ ParsesInside [0]) := by
  rintro ⟨h, -⟩
  have hnone := h rfl
  cases hnone

end Coap
