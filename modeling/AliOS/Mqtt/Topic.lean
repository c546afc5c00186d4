/-
  `iotx_mc_check_topic` of `mqtt_client.c`: which topics are accepted.

  The levels of a topic come from `strtok`, which passes over the empty ones, on
  a copy in 64 bytes.  The first level is checked before the loop, and there the
  flag for a '#' is not set.  `checkTopic_exact_iff` says for which strings the
  answer is the right one.
-/
import AliOS.Lib.Split
import AliOS.Mqtt.Subs
import Mathlib.Data.List.TakeWhile

namespace Mqtt

open Lib

/-- A string: the characters before its end. -/
def CStr : Type := { s : Bytes // 0 ∉ s }

def slash : UInt8 := 0x2F
def plus : UInt8 := 0x2B
def hash : UInt8 := 0x23

/-- `IOTX_MC_TOPIC_NAME_MAX_LEN`. -/
def topicNameMaxLen : ℕ := 64

/-- `iotx_mc_topic_type_t`. -/
inductive TopicType
  | filter
  | name
  deriving DecidableEq

/-! ## The code -/

/-- `strtok(p, "/")`: the next token, and the string behind it. -/
def strtok (p : Bytes) : Option (Bytes × Bytes) :=
  match p.dropWhile (· = slash) with
  | [] => none
  | c :: p => some (c :: p.takeWhile (· ≠ slash), (p.dropWhile (· ≠ slash)).drop 1)

/-- A turn of the loop of `iotx_mc_check_rule`, for the character `c` of a token
    of `len` characters. -/
def checkChar (type : TopicType) (len : ℕ) (c : UInt8) : Bool :=
  match type with
  | .filter => if (c = plus ∨ c = hash) ∧ len ≠ 1 then false else 32 ≤ c.toNat ∧ c.toNat < 127
  | .name => if c = plus ∨ c = hash then false else 32 ≤ c.toNat ∧ c.toNat < 127

def iotxMcCheckRule (iterm : Bytes) (type : TopicType) : Bool := iterm.all (checkChar type iterm.length)

/-- The loop, for at most `fuel` tokens. -/
def checkLoop (type : TopicType) : (fuel : ℕ) → (mask : Bool) → Bytes → Bool
  | 0, _, _ => false
  | fuel + 1, mask, p =>
    match strtok p with
    | none => true
    | some (iterm, p) =>
      if mask then false
      else if iotxMcCheckRule iterm type then checkLoop type fuel (iterm.head? = some hash) p else false

/-- `iotx_mc_check_topic` on the working copy. -/
def checkLevels (topicString : Bytes) (type : TopicType) : Bool :=
  match strtok topicString with
  | none => false
  | some (iterm, p) =>
    if iotxMcCheckRule iterm type then checkLoop type topicString.length false p else false

/-- `iotx_mc_check_topic`, or none if there is no end in the working copy that
    `strtok` is given. -/
def iotxMcCheckTopic (topicName : CStr) (type : TopicType) : Option Bool :=
  if topicNameMaxLen < topicName.1.length then some false
  else
    let copied := topicName.1.take topicNameMaxLen
    let topicString := copied ++ List.replicate (topicNameMaxLen - copied.length) 0
    if 0 ∈ topicString then some (checkLevels (topicString.takeWhile (· ≠ 0)) type) else none

/-! ## Legal topics -/

def levels (s : Bytes) : List Bytes := s.splitOn slash

/-- The conditions on the characters and on each level. -/
structure LevelsOk (type : TopicType) (s : Bytes) : Prop where
  printable : ∀ c ∈ s, 32 ≤ c.toNat ∧ c.toNat ≤ 126
  someLevel : ∃ l ∈ levels s, l ≠ []
  alone : ∀ l ∈ levels s, plus ∈ l ∨ hash ∈ l → l.length = 1
  noWild : type = .name → plus ∉ s ∧ hash ∉ s

/-- A '#' is the last level. -/
def HashLast (ls : List Bytes) : Prop := ∀ l₁ l₂, ls = l₁ ++ [hash] :: l₂ → l₂ = []

/-- A legal topic. -/
structure Legal (type : TopicType) (s : Bytes) : Prop where
  length_le : s.length ≤ topicNameMaxLen
  levelsOk : LevelsOk type s
  hashLast : HashLast (levels s)

/-- The call reads a string with an end, and accepts the legal topics. -/
def ChecksExactly (type : TopicType) (s : CStr) : Prop :=
  ∃ b, iotxMcCheckTopic s type = some b ∧ (b = true ↔ Legal type s.1)

/-- A '#' is the first level that is not empty, or the last. -/
def HashAtEnds (ls : List Bytes) : Prop :=
  ∀ l₁ l₂, ls = l₁ ++ [hash] :: l₂ → (∀ l ∈ l₁, l = []) ∨ ∀ l ∈ l₂, l = []

/-- A filter that is legal but for the place of a '#', which the check misses. -/
structure Overlooked (s : Bytes) : Prop where
  length_le : s.length ≤ topicNameMaxLen
  levelsOk : LevelsOk .filter s
  hashAtEnds : HashAtEnds (levels s)
  notLast : ¬ HashLast (levels s)

variable {type : TopicType} {a p q s : Bytes} {mask : Bool} {fuel : ℕ}

/-! ## Tokens -/

theorem strtok_last (ha : slash ∉ a) : strtok a = if a = [] then none else some (a, []) := by
  cases a with
  | nil => rfl
  | cons c a =>
    rw [List.mem_cons, not_or] at ha
    have hall : ∀ x ∈ a, decide (x ≠ slash) = true := fun x hx => by
      rw [decide_eq_true_eq]
      rintro rfl
      exact ha.2 hx
    rw [if_neg (List.cons_ne_nil _ _), strtok, List.dropWhile_cons_of_neg (by simpa using Ne.symm ha.1)]
    dsimp only
    rw [List.takeWhile_eq_self_iff.2 hall, List.dropWhile_eq_nil_iff.2 hall]
    rfl

theorem strtok_part (ha : slash ∉ a) :
    strtok (a ++ slash :: q) = if a = [] then strtok q else some (a, q) := by
  cases a with
  | nil =>
    rw [if_pos rfl, List.nil_append, strtok, List.dropWhile_cons_of_pos (by simp)]
    rfl
  | cons c a =>
    rw [List.mem_cons, not_or] at ha
    have hall : ∀ x ∈ a, decide (x ≠ slash) = true := fun x hx => by
      rw [decide_eq_true_eq]
      rintro rfl
      exact ha.2 hx
    rw [if_neg (List.cons_ne_nil _ _), strtok, List.cons_append,
      List.dropWhile_cons_of_neg (by simpa using Ne.symm ha.1)]
    dsimp only
    rw [List.takeWhile_append_of_pos hall, List.dropWhile_append_of_pos hall,
      List.takeWhile_cons_of_neg (by simp), List.dropWhile_cons_of_neg (by simp), List.append_nil]
    rfl

/-! ## The rule -/

/-- What a level has to obey. -/
structure RuleOk (type : TopicType) (l : Bytes) : Prop where
  printable : ∀ c ∈ l, 32 ≤ c.toNat ∧ c.toNat ≤ 126
  alone : plus ∈ l ∨ hash ∈ l → l.length = 1 ∧ type = .filter

theorem ruleOk_nil : RuleOk type [] := ⟨by simp, by simp⟩

theorem checkChar_iff {len : ℕ} {c : UInt8} : checkChar type len c = true ↔
    (32 ≤ c.toNat ∧ c.toNat ≤ 126) ∧ (c = plus ∨ c = hash → len = 1 ∧ type = .filter) := by
  have hrange : (decide (32 ≤ c.toNat ∧ c.toNat < 127) = true) ↔ 32 ≤ c.toNat ∧ c.toNat ≤ 126 := by
    rw [decide_eq_true_eq]
    omega
  cases type with
  | filter =>
    unfold checkChar
    dsimp only
    split_ifs with h
    · simp [h]
    · rw [hrange]
      exact ⟨fun hr => ⟨hr, fun hc => ⟨by_contra fun hne => h ⟨hc, hne⟩, rfl⟩⟩, fun hr => hr.1⟩
  | name =>
    unfold checkChar
    dsimp only
    split_ifs with h
    · simp [h]
    · rw [hrange]
      exact ⟨fun hr => ⟨hr, fun hc => absurd hc h⟩, fun hr => hr.1⟩

theorem checkRule_iff : iotxMcCheckRule a type = true ↔ RuleOk type a := by
  unfold iotxMcCheckRule
  rw [List.all_eq_true]
  constructor
  · intro h
    refine ⟨fun c hc => (checkChar_iff.1 (h c hc)).1, ?_⟩
    rintro (hc | hc)
    · exact (checkChar_iff.1 (h _ hc)).2 (.inl rfl)
    · exact (checkChar_iff.1 (h _ hc)).2 (.inr rfl)
  · rintro ⟨hprint, halone⟩ c hc
    refine checkChar_iff.2 ⟨hprint c hc, ?_⟩
    rintro (rfl | rfl)
    · exact halone (.inl hc)
    · exact halone (.inr hc)

theorem RuleOk.head_iff (h : RuleOk type a) : a.head? = some hash ↔ a = [hash] := by
  constructor
  · intro hhead
    obtain ⟨l, rfl⟩ := List.head?_eq_some_iff.1 hhead
    have hlen := (h.alone (.inr List.mem_cons_self)).1
    rw [List.length_cons, Nat.add_eq_right, List.length_eq_zero_iff] at hlen
    rw [hlen]
  · rintro rfl
    rfl

/-! ## The loop, level by level -/

theorem levels_last (ha : slash ∉ a) : levels a = [a] := List.splitOn_eq_singleton ha

theorem levels_part (ha : slash ∉ a) : levels (a ++ slash :: q) = a :: levels q :=
  List.splitOn_append_cons_self_of_not_mem ha q

/-- Behind a '#' there are empty levels only. -/
def HashEnds (ls : List Bytes) : Prop := ∀ l₁ l₂, ls = l₁ ++ [hash] :: l₂ → ∀ l ∈ l₂, l = []

theorem hashEnds_single : HashEnds [a] := by
  intro l₁ l₂ h
  cases l₁ with
  | nil =>
    obtain rfl := (List.cons.inj h).2
    exact fun l hl => absurd hl List.not_mem_nil
  | cons b l₁ => cases l₁ <;> cases h

theorem hashEnds_cons {ls : List Bytes} :
    HashEnds (a :: ls) ↔ (a = [hash] → ∀ l ∈ ls, l = []) ∧ HashEnds ls := by
  constructor
  · intro h
    constructor
    · rintro rfl
      exact h [] ls rfl
    · rintro l₁ l₂ rfl
      exact h (a :: l₁) l₂ rfl
  · rintro ⟨hnow, h⟩ l₁ l₂ heq
    cases l₁ with
    | nil =>
      cases heq
      exact hnow rfl
    | cons b l₁ => exact h l₁ l₂ (List.cons.inj heq).2

theorem checkLoop_nil (hfuel : 0 < fuel) : checkLoop type fuel mask [] = true := by
  obtain ⟨n, rfl⟩ : ∃ n, fuel = n + 1 := ⟨fuel - 1, by omega⟩
  rfl

/-- **The loop** accepts the levels that obey the rule, unless one that is not
    empty comes behind a '#'. -/
theorem checkLoop_iff (hfuel : p.length < fuel) : checkLoop type fuel mask p = true ↔
    (mask = true → ∀ l ∈ levels p, l = []) ∧ (∀ l ∈ levels p, RuleOk type l) ∧ HashEnds (levels p) := by
  induction p using split_induction slash generalizing fuel mask with
  | last a ha =>
    obtain ⟨fuel, rfl⟩ : ∃ n, fuel = n + 1 := ⟨fuel - 1, by omega⟩
    rw [checkLoop, strtok_last ha, levels_last ha]
    by_cases hnil : a = []
    · subst hnil
      simp [hashEnds_single, ruleOk_nil]
    · have hpos := List.length_pos_of_ne_nil hnil
      rw [if_neg hnil]
      dsimp only
      rw [checkLoop_nil (by omega)]
      cases mask with
      | true => simp [hnil]
      | false => simp [checkRule_iff, hashEnds_single]
  | part a q ha ih =>
    obtain ⟨fuel, rfl⟩ : ∃ n, fuel = n + 1 := ⟨fuel - 1, by omega⟩
    rw [List.length_append, List.length_cons] at hfuel
    rw [levels_part ha, hashEnds_cons, List.forall_mem_cons, List.forall_mem_cons]
    by_cases hnil : a = []
    · -- `strtok` passes over an empty level
      subst hnil
      have hskip : checkLoop type (fuel + 1) mask ([] ++ slash :: q) = checkLoop type (fuel + 1) mask q := by
        rw [checkLoop, checkLoop, strtok_part ha, if_pos rfl]
      rw [hskip, ih (by omega)]
      simp [ruleOk_nil]
    · have hpos := List.length_pos_of_ne_nil hnil
      rw [checkLoop, strtok_part ha, if_neg hnil]
      cases mask with
      | true => simp [hnil]
      | false =>
        simp only [Bool.false_eq_true, if_false, false_imp_iff, true_and]
        by_cases hrule : RuleOk type a
        · rw [if_pos (checkRule_iff.2 hrule), ih (by omega), decide_eq_true_eq, hrule.head_iff]
          tauto
        · rw [if_neg (mt checkRule_iff.1 hrule)]
          simp [hrule]

theorem hashAtEnds_cons {ls : List Bytes} (ha : a ≠ []) : HashAtEnds (a :: ls) ↔ HashEnds ls := by
  constructor
  · rintro h l₁ l₂ rfl
    rcases h (a :: l₁) l₂ rfl with h | h
    · exact absurd (h a List.mem_cons_self) ha
    · exact h
  · intro h l₁ l₂ heq
    cases l₁ with
    | nil => exact .inl fun l hl => absurd hl List.not_mem_nil
    | cons b l₁ => exact .inr (h l₁ l₂ (List.cons.inj heq).2)

theorem hashAtEnds_nil_cons {ls : List Bytes} : HashAtEnds ([] :: ls) ↔ HashAtEnds ls := by
  constructor
  · rintro h l₁ l₂ rfl
    rcases h ([] :: l₁) l₂ rfl with h | h
    · exact .inl fun l hl => h l (List.mem_cons_of_mem _ hl)
    · exact .inr h
  · intro h l₁ l₂ heq
    cases l₁ with
    | nil => cases (List.cons.inj heq).1
    | cons b l₁ =>
      obtain ⟨rfl, hls⟩ := List.cons.inj heq
      rcases h l₁ l₂ hls with h | h
      · exact .inl (List.forall_mem_cons.2 ⟨rfl, h⟩)
      · exact .inr h

theorem firstLevel_iff (hfuel : s.length ≤ fuel) :
    (match strtok s with
      | none => false
      | some (iterm, p) => if iotxMcCheckRule iterm type then checkLoop type fuel false p else false) = true ↔
    (∃ l ∈ levels s, l ≠ []) ∧ (∀ l ∈ levels s, RuleOk type l) ∧ HashAtEnds (levels s) := by
  induction s using split_induction slash generalizing fuel with
  | last a ha =>
    rw [strtok_last ha, levels_last ha]
    by_cases hnil : a = []
    · subst hnil
      simp
    · have hpos := List.length_pos_of_ne_nil hnil
      rw [if_neg hnil, hashAtEnds_cons hnil]
      dsimp only
      rw [checkLoop_nil (by omega)]
      simp [checkRule_iff, hnil, HashEnds]
  | part a q ha ih =>
    rw [List.length_append, List.length_cons] at hfuel
    rw [strtok_part ha, levels_part ha, List.forall_mem_cons]
    by_cases hnil : a = []
    · subst hnil
      rw [if_pos rfl, ih (by omega), hashAtEnds_nil_cons]
      simp [ruleOk_nil]
    · rw [if_neg hnil, hashAtEnds_cons hnil]
      dsimp only
      by_cases hrule : RuleOk type a
      · rw [if_pos (checkRule_iff.2 hrule), checkLoop_iff (by have := List.length_pos_of_ne_nil hnil; omega)]
        simp [hrule, hnil]
      · rw [if_neg (mt checkRule_iff.1 hrule)]
        simp [hrule]

/-- **The check** accepts the levels that obey the rule, one of them not empty,
    with a '#' at either end. -/
theorem checkLevels_iff : checkLevels s type = true ↔
    (∃ l ∈ levels s, l ≠ []) ∧ (∀ l ∈ levels s, RuleOk type l) ∧ HashAtEnds (levels s) :=
  firstLevel_iff (Nat.le_refl _)

/-! ## The whole string -/

theorem levelsOk_iff : LevelsOk type s ↔
    (∃ l ∈ levels s, l ≠ []) ∧ ∀ l ∈ levels s, RuleOk type l := by
  have hplus := mem_splitOn (c := slash) (x := plus) (by decide) s
  have hhash := mem_splitOn (c := slash) (x := hash) (by decide) s
  constructor
  · rintro ⟨hprint, hsome, halone, hname⟩
    refine ⟨hsome, fun l hl => ⟨fun c hc => ?_, fun hwild => ⟨halone l hl hwild, ?_⟩⟩⟩
    · have hne : c ≠ slash := by
        rintro rfl
        exact not_mem_of_mem_splitOn hl hc
      exact hprint c ((mem_splitOn hne s).2 ⟨l, hl, hc⟩)
    · cases type with
      | filter => rfl
      | name =>
        rcases hwild with hc | hc
        · exact absurd (hplus.2 ⟨l, hl, hc⟩) (hname rfl).1
        · exact absurd (hhash.2 ⟨l, hl, hc⟩) (hname rfl).2
  · rintro ⟨hsome, hrule⟩
    refine ⟨fun c hc => ?_, hsome, fun l hl hwild => ((hrule l hl).alone hwild).1, ?_⟩
    · by_cases hne : c = slash
      · rw [hne]
        decide
      · obtain ⟨l, hl, hcl⟩ := (mem_splitOn hne s).1 hc
        exact (hrule l hl).printable c hcl
    · rintro rfl
      constructor
      · intro hc
        obtain ⟨l, hl, hcl⟩ := hplus.1 hc
        cases ((hrule l hl).alone (.inl hcl)).2
      · intro hc
        obtain ⟨l, hl, hcl⟩ := hhash.1 hc
        cases ((hrule l hl).alone (.inr hcl)).2

theorem checkLevels_levelsOk : checkLevels s type = true ↔ LevelsOk type s ∧ HashAtEnds (levels s) := by
  rw [checkLevels_iff, levelsOk_iff, and_assoc]

theorem checkTopic_eq (s : CStr) (type : TopicType) : iotxMcCheckTopic s type =
    if topicNameMaxLen < s.1.length then some false
    else if s.1.length = topicNameMaxLen then none
    else some (checkLevels s.1 type) := by
  unfold iotxMcCheckTopic
  split_ifs with hlong hfull
  · rfl
  · have hcopied : s.1.take topicNameMaxLen = s.1 := List.take_of_length_le (Nat.le_of_not_lt hlong)
    simp only [hcopied, hfull, Nat.sub_self, List.replicate_zero, List.append_nil]
    exact if_neg s.2
  · have hcopied : s.1.take topicNameMaxLen = s.1 := List.take_of_length_le (Nat.le_of_not_lt hlong)
    obtain ⟨k, hk⟩ : ∃ k, topicNameMaxLen - s.1.length = k + 1 := ⟨topicNameMaxLen - s.1.length - 1, by omega⟩
    have hall : ∀ x ∈ s.1, decide (x ≠ 0) = true := fun x hx => by
      rw [decide_eq_true_eq]
      rintro rfl
      exact s.2 hx
    simp only [hcopied, hk, List.replicate_succ]
    rw [if_pos (by simp), List.takeWhile_append_of_pos hall, List.takeWhile_cons_of_neg (by simp), List.append_nil]

theorem LevelsOk.hashLast_of_name (h : LevelsOk .name s) : HashLast (levels s) := by
  intro l₁ l₂ heq
  have hmem : [hash] ∈ levels s := by
    rw [heq]
    exact List.mem_append_right _ List.mem_cons_self
  have hhash : hash ∈ s := (mem_splitOn (c := slash) (by decide) s).2 ⟨_, hmem, List.mem_singleton_self hash⟩
  exact absurd hhash (h.noWild rfl).2

theorem HashLast.atEnds {ls : List Bytes} (h : HashLast ls) : HashAtEnds ls := by
  intro l₁ l₂ heq
  obtain rfl := h l₁ l₂ heq
  exact .inr fun l hl => absurd hl List.not_mem_nil

/-- **`iotx_mc_check_topic`** is right for the strings that leave room for the
    end of the copy and are not such a filter. -/
theorem checkTopic_exact_iff (type : TopicType) (s : CStr) :
    ChecksExactly type s ↔ s.1.length ≠ topicNameMaxLen ∧ ¬ (type = .filter ∧ Overlooked s.1) := by
  unfold ChecksExactly
  rw [checkTopic_eq]
  by_cases hlong : topicNameMaxLen < s.1.length
  · rw [if_pos hlong]
    constructor
    · rintro -
      exact ⟨Nat.ne_of_gt hlong, fun h => absurd h.2.length_le (Nat.not_le.2 hlong)⟩
    · rintro -
      refine ⟨false, rfl, fun h => ?_, fun h => absurd h.length_le (Nat.not_le.2 hlong)⟩
      cases h
  rw [if_neg hlong]
  by_cases hfull : s.1.length = topicNameMaxLen
  · rw [if_pos hfull]
    constructor
    · rintro ⟨b, hb, -⟩
      cases hb
    · intro h
      exact absurd hfull h.1
  rw [if_neg hfull]
  constructor
  · rintro ⟨b, hb, hiff⟩
    cases hb
    refine ⟨hfull, ?_⟩
    rintro ⟨rfl, hover⟩
    exact hover.notLast (hiff.1 (checkLevels_levelsOk.2 ⟨hover.levelsOk, hover.hashAtEnds⟩)).hashLast
  · rintro ⟨-, hover⟩
    refine ⟨_, rfl, fun h => ?_, fun h => checkLevels_levelsOk.2 ⟨h.levelsOk, h.hashLast.atEnds⟩⟩
    obtain ⟨hok, hends⟩ := checkLevels_levelsOk.1 h
    refine ⟨Nat.le_of_not_lt hlong, hok, ?_⟩
    cases type with
    | name => exact hok.hashLast_of_name
    | filter =>
      by_contra hnot
      exact hover ⟨rfl, Nat.le_of_not_lt hlong, hok, hends, hnot⟩

/-- "#/a" is accepted. -/
theorem checkTopic_misplaced : ¬ ChecksExactly .filter ⟨[hash, slash, 0x61], by decide⟩ := by
  rintro ⟨b, hb, hiff⟩
  obtain rfl : true = b := Option.some.inj hb
  have hlast := (hiff.1 rfl).hashLast
  have := hlast [] [[0x61]] rfl
  cases this

end Mqtt
