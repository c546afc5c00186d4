/-
  `iotx_mc_is_topic_matched` of `mqtt_client.c`: the walk through a filter and a
  name.

  Here the walk has its two pointers, and a read past the end of a string is
  `none`.  It does not happen, and the walk is that through two lists
  (`matchLoop_eq`), which goes level by level (`matched_iff`).
  `topicMatched_exact_iff` compares it with the standard, which lets '+' take an
  empty level and '#' the parent.
-/
import AliOS.Mqtt.Topic

namespace Mqtt

open Lib

/-! ## The code -/

/-- `*curf`: the end of a string is a character, too. -/
def charAt (f : Bytes) (i : ℕ) : Option UInt8 := (f ++ [0])[i]?

/-- The inner loop: `curn` goes on to the last character of its level. -/
def skipLevel (n : Bytes) : (fuel curn : ℕ) → Option ℕ
  | 0, curn => some curn
  | fuel + 1, curn =>
    if curn + 1 < n.length then
      n[curn + 1]?.bind fun c => if c ≠ slash then skipLevel n fuel (curn + 1) else some curn
    else some curn

/-- Behind the loop. -/
def matchEnd (f n : Bytes) (curf curn : ℕ) : Option Bool :=
  if curn = n.length then (charAt f curf).map (· = 0) else some false

/-- The loop, for at most `fuel` turns. -/
def matchLoop (f n : Bytes) : (fuel curf curn : ℕ) → Option Bool
  | 0, _, _ => none
  | fuel + 1, curf, curn =>
    (charAt f curf).bind fun cf =>
      if cf ≠ 0 ∧ curn < n.length then
        n[curn]?.bind fun cn =>
          if cn = slash ∧ cf ≠ slash then matchEnd f n curf curn
          else if cf ≠ plus ∧ cf ≠ hash ∧ cf ≠ cn then matchEnd f n curf curn
          else
            (if cf = plus then skipLevel n n.length curn
              else if cf = hash then some (n.length - 1)
              else some curn).bind fun curn => matchLoop f n fuel (curf + 1) (curn + 1)
      else matchEnd f n curf curn

/-- `iotx_mc_is_topic_matched`, or none if a string is read past its end. -/
def topicMatchedPtr (topicFilter topicName : CStr) : Option Bool :=
  matchLoop topicFilter.1 topicName.1 (topicFilter.1.length + 1) 0 0

/-! ## The standard -/

/-- The levels of a filter match those of a name: '+' any level, and a '#' at
    the end whatever is left. -/
def Matches : (filter name : List Bytes) → Prop
  | [], ns => ns = []
  | l :: ls, ns =>
    (l = [hash] ∧ ls = []) ∨ ∃ m ns', ns = m :: ns' ∧ (l = [plus] ∨ l = m) ∧ Matches ls ns'

/-- The walk reads inside of the strings, and answers as the standard does. -/
def MatchesExactly (topicFilter topicName : CStr) : Prop :=
  ∃ b, topicMatchedPtr topicFilter topicName = some b ∧
    (b = true ↔ Matches (levels topicFilter.1) (levels topicName.1))

/-- Some '+' meets an empty level, or the '#' at the end meets one, or none. -/
def MeetsEmpty : (filter name : List Bytes) → Prop
  | [], _ => False
  | l :: ls, ns =>
    (l = [hash] ∧ ls = [] ∧ ns.headD [] = []) ∨
      ∃ m ns', ns = m :: ns' ∧ (l = [plus] ∧ m = [] ∨ MeetsEmpty ls ns')

/-- The topic is accepted; if it leaves no room in the copy: as far as its own
    levels go. -/
def Accepted (s : CStr) (type : TopicType) : Prop :=
  s.1.length ≤ topicNameMaxLen ∧ checkLevels s.1 type = true

instance (s : CStr) (type : TopicType) : Decidable (Accepted s type) :=
  inferInstanceAs (Decidable (_ ∧ _))

theorem accepted_iff {s : CStr} {type : TopicType} :
    iotxMcCheckTopic s type = some true ↔ Accepted s type ∧ s.1.length ≠ topicNameMaxLen := by
  rw [checkTopic_eq, Accepted]
  split_ifs with hlong hfull
  · simp only [Option.some.injEq, Bool.false_eq_true, false_iff]
    omega
  · simp [hfull]
  · rw [Option.some.injEq]
    constructor
    · intro h
      exact ⟨⟨Nat.le_of_not_lt hlong, h⟩, hfull⟩
    · rintro ⟨⟨-, h⟩, -⟩
      exact h

/-! ## The walk through two lists -/

variable {f n p r t a b : Bytes} {ls ns : List Bytes} {i j fuel : ℕ} {c d : UInt8} {type : TopicType}

theorem matched_cons : iotxMcIsTopicMatched (c :: f) (d :: n) =
    if d = slash ∧ c ≠ slash then false
    else if c ≠ plus ∧ c ≠ hash ∧ c ≠ d then false
    else if c = plus then iotxMcIsTopicMatched f (n.dropWhile (· ≠ slash))
    else if c = hash then iotxMcIsTopicMatched f []
    else iotxMcIsTopicMatched f n := rfl

theorem matched_nil : iotxMcIsTopicMatched [] n = true ↔ n = [] := List.isEmpty_iff

theorem matched_end : iotxMcIsTopicMatched (c :: f) [] = false := rfl

theorem charAt_drop (h : f.drop i = c :: r) : charAt f i = some c := by
  have hi : i < f.length := by
    by_contra hle
    rw [List.drop_eq_nil_of_le (by omega)] at h
    cases h
  have hc := List.drop_eq_getElem_cons hi
  rw [h] at hc
  rw [charAt, List.getElem?_append_left hi, List.getElem?_eq_getElem hi, (List.cons.inj hc).1]

theorem charAt_end : charAt f f.length = some 0 := by
  rw [charAt, List.getElem?_concat_length]

theorem skipLevel_eq (hj : j < n.length) (hfuel : n.length ≤ j + fuel) :
    ∃ k, skipLevel n fuel j = some k ∧ k < n.length ∧
      n.drop (k + 1) = (n.drop (j + 1)).dropWhile (· ≠ slash) := by
  induction fuel generalizing j with
  | zero => omega
  | succ fuel ih =>
    unfold skipLevel
    split_ifs with hnext
    · rw [List.getElem?_eq_getElem hnext, Option.bind_some, List.drop_eq_getElem_cons hnext]
      split_ifs with hc
      · rw [List.dropWhile_cons_of_pos (by simpa using hc)]
        exact ih hnext (by omega)
      · rw [List.dropWhile_cons_of_neg (by simpa using hc)]
        exact ⟨j, rfl, hj, List.drop_eq_getElem_cons hnext⟩
    · refine ⟨j, rfl, hj, ?_⟩
      rw [List.drop_eq_nil_of_le (by omega)]
      rfl

theorem matchLoop_eq (hf : 0 ∉ f) (hi : i ≤ f.length) (hj : j ≤ n.length) (hfuel : f.length < i + fuel) :
    matchLoop f n fuel i j = some (iotxMcIsTopicMatched (f.drop i) (n.drop j)) := by
  induction fuel generalizing i j with
  | zero => omega
  | succ fuel ih =>
    rw [matchLoop]
    rcases Nat.lt_or_eq_of_le hi with hlt | rfl
    · have hd := List.drop_eq_getElem_cons hlt
      have hne : f[i] ≠ 0 := fun h => hf (h ▸ List.getElem_mem hlt)
      rw [charAt_drop hd, Option.bind_some, hd]
      rcases Nat.lt_or_eq_of_le hj with hjlt | rfl
      · have hn := List.drop_eq_getElem_cons hjlt
        rw [if_pos ⟨hne, hjlt⟩, List.getElem?_eq_getElem hjlt, Option.bind_some, hn, matched_cons]
        have hend : matchEnd f n i j = some false := if_neg (Nat.ne_of_lt hjlt)
        rw [hend]
        split_ifs
        · rfl
        · rfl
        · obtain ⟨k, hk, hkn, hdrop⟩ := skipLevel_eq hjlt (Nat.le_add_left n.length j)
          rw [hk, Option.bind_some, ih hlt hkn (by omega), hdrop]
        · have hnil : n.drop (n.length - 1 + 1) = [] := List.drop_eq_nil_of_le (by omega)
          rw [Option.bind_some, ih hlt (by omega) (by omega), hnil]
        · exact ih hlt hjlt (by omega)
      · rw [if_neg (by omega), matchEnd, if_pos rfl, charAt_drop hd, List.drop_length]
        simp [hne, iotxMcIsTopicMatched]
    · rw [charAt_end, Option.bind_some, if_neg (by simp), List.drop_length, matchEnd, charAt_end]
      rcases Nat.lt_or_eq_of_le hj with hjlt | rfl
      · rw [if_neg (Nat.ne_of_lt hjlt), List.drop_eq_getElem_cons hjlt]
        rfl
      · rw [if_pos rfl, List.drop_length]
        rfl

/-! ## Level by level -/

/-- What is left of a string behind a level: nothing, or further levels. -/
inductive Behind : Bytes → List Bytes → Prop
  | last : Behind [] []
  | more (q : Bytes) : Behind (slash :: q) (levels q)

/-- How the walk takes levels. -/
def Walks : (filter name : List Bytes) → Prop
  | [], ns => ns = []
  | l :: ls, ns =>
    ∃ m ns', ns = m :: ns' ∧
      (l = [hash] ∧ ls = [] ∧ m ≠ [] ∨ (l = [plus] ∧ m ≠ [] ∨ l ≠ [plus] ∧ l = m) ∧ Walks ls ns')

theorem Behind.ls_nil (h : Behind r ls) : r = [] ↔ ls = [] := by
  cases h with
  | last => simp
  | more q => simp [levels]

theorem matched_same (hc : c ≠ plus) (hc' : c ≠ hash) :
    iotxMcIsTopicMatched (c :: f) (c :: n) = iotxMcIsTopicMatched f n := by
  rw [matched_cons, if_neg fun h => h.2 h.1, if_neg fun h => h.2.2 rfl, if_neg hc, if_neg hc']

theorem matched_ne (hc : c ≠ plus) (hc' : c ≠ hash) (hne : c ≠ d) :
    iotxMcIsTopicMatched (c :: f) (d :: n) = false := by
  rw [matched_cons]
  split_ifs with _ hsame
  · rfl
  · rfl
  · exact absurd ⟨hc, hc', hne⟩ hsame

theorem matched_literal (ha : slash ∉ a) (hp : plus ∉ a) (hh : hash ∉ a) (hb : slash ∉ b)
    (hr : Behind r ls) (ht : Behind t ns) :
    iotxMcIsTopicMatched (a ++ r) (b ++ t) = true ↔ a = b ∧ iotxMcIsTopicMatched r t = true := by
  induction a generalizing b with
  | nil =>
    cases b with
    | nil => simp
    | cons d b =>
      have hd : d ≠ slash := fun h => hb (h ▸ List.mem_cons_self)
      cases hr with
      | last => simp [matched_nil]
      | more q =>
        rw [List.nil_append, List.cons_append, matched_ne (by decide) (by decide) hd.symm]
        simp
  | cons c a ih =>
    rw [List.mem_cons, not_or] at ha hp hh
    cases b with
    | nil =>
      cases ht with
      | last => simp [matched_end]
      | more q =>
        rw [List.cons_append, List.nil_append, matched_ne (Ne.symm hp.1) (Ne.symm hh.1) (Ne.symm ha.1)]
        simp
    | cons d b =>
      rw [List.mem_cons, not_or] at hb
      by_cases hcd : c = d
      · subst hcd
        rw [List.cons_append, List.cons_append, matched_same (Ne.symm hp.1) (Ne.symm hh.1),
          ih ha.2 hp.2 hh.2 hb.2]
        simp
      · rw [List.cons_append, List.cons_append, matched_ne (Ne.symm hp.1) (Ne.symm hh.1) hcd]
        simp [hcd]

theorem matched_wild_nil (hc : c ≠ slash) (ht : Behind t ns) : iotxMcIsTopicMatched (c :: r) t = false := by
  cases ht with
  | last => rfl
  | more q => rw [matched_cons, if_pos ⟨rfl, hc⟩]

theorem matched_plus (hb : slash ∉ b) (ht : Behind t ns) :
    iotxMcIsTopicMatched (plus :: r) (b ++ t) = true ↔ b ≠ [] ∧ iotxMcIsTopicMatched r t = true := by
  cases b with
  | nil =>
    rw [List.nil_append, matched_wild_nil (by decide) ht]
    simp
  | cons d b =>
    rw [List.mem_cons, not_or] at hb
    have hall : ∀ x ∈ b, decide (x ≠ slash) = true := fun x hx => by
      rw [decide_eq_true_eq]
      rintro rfl
      exact hb.2 hx
    have hrest : (b ++ t).dropWhile (· ≠ slash) = t := by
      rw [List.dropWhile_append_of_pos hall]
      cases ht with
      | last => rfl
      | more q => exact List.dropWhile_cons_of_neg (by simp)
    rw [List.cons_append, matched_cons, if_neg (by simp [Ne.symm hb.1]), if_neg (by simp), if_pos rfl, hrest]
    simp

theorem matched_hash (hb : slash ∉ b) (ht : Behind t ns) :
    iotxMcIsTopicMatched (hash :: r) (b ++ t) = true ↔ b ≠ [] ∧ r = [] := by
  cases b with
  | nil =>
    rw [List.nil_append, matched_wild_nil (by decide) ht]
    simp
  | cons d b =>
    rw [List.mem_cons, not_or] at hb
    rw [List.cons_append, matched_cons, if_neg (by simp [Ne.symm hb.1]), if_neg (by simp), if_neg (by decide),
      if_pos rfl]
    cases r with
    | nil => simp [matched_nil]
    | cons c r => simp [matched_end]

theorem matched_level (ha : slash ∉ a) (hrule : RuleOk .filter a) (hb : slash ∉ b) (hp : plus ∉ b) (hh : hash ∉ b)
    (hr : Behind r ls) (ht : Behind t ns) (ih : iotxMcIsTopicMatched r t = true ↔ Walks ls ns) :
    iotxMcIsTopicMatched (a ++ r) (b ++ t) = true ↔ Walks (a :: ls) (b :: ns) := by
  have hwalks : Walks (a :: ls) (b :: ns) ↔
      a = [hash] ∧ ls = [] ∧ b ≠ [] ∨ (a = [plus] ∧ b ≠ [] ∨ a ≠ [plus] ∧ a = b) ∧ Walks ls ns := by
    constructor
    · rintro ⟨m, ns', heq, h⟩
      cases heq
      exact h
    · intro h
      exact ⟨b, ns, rfl, h⟩
  rw [hwalks]
  by_cases hwild : plus ∈ a ∨ hash ∈ a
  · obtain ⟨x, rfl⟩ := List.length_eq_one_iff.1 (hrule.alone hwild).1
    rw [List.mem_singleton, List.mem_singleton] at hwild
    rcases hwild with rfl | rfl
    · rw [List.singleton_append, matched_plus hb ht, ih]
      simp [plus, hash]
    · have hne : [hash] ≠ b := by
        rintro rfl
        exact hh (List.mem_singleton_self hash)
      rw [List.singleton_append, matched_hash hb ht, hr.ls_nil]
      constructor
      · rintro ⟨hb', hls⟩
        exact .inl ⟨rfl, hls, hb'⟩
      · rintro (⟨-, hls, hb'⟩ | ⟨⟨h, -⟩ | ⟨-, h⟩, -⟩)
        · exact ⟨hb', hls⟩
        · cases h
        · exact absurd h hne
  · rw [not_or] at hwild
    have hnp : a ≠ [plus] := by
      rintro rfl
      exact hwild.1 (List.mem_singleton_self plus)
    have hnh : a ≠ [hash] := by
      rintro rfl
      exact hwild.2 (List.mem_singleton_self hash)
    rw [matched_literal ha hwild.1 hwild.2 hb hr ht, ih]
    simp [hnp, hnh]

theorem behind_first (p : Bytes) : ∃ b t ns, p = b ++ t ∧ slash ∉ b ∧ levels p = b :: ns ∧ Behind t ns := by
  induction p using split_induction slash with
  | last a ha => exact ⟨a, [], [], (List.append_nil a).symm, ha, levels_last ha, .last⟩
  | part a q ha _ => exact ⟨a, slash :: q, levels q, rfl, ha, levels_part ha, .more q⟩

/-- The levels of a name have no wildcards. -/
def Plain (ns : List Bytes) : Prop := ∀ m ∈ ns, plus ∉ m ∧ hash ∉ m

theorem matched_iff (hf : ∀ l ∈ levels f, RuleOk .filter l) (hn : Plain (levels n)) :
    iotxMcIsTopicMatched f n = true ↔ Walks (levels f) (levels n) := by
  induction f using split_induction slash generalizing n with
  | last a ha =>
    obtain ⟨b, t, ns, rfl, hb, hlevels, ht⟩ := behind_first n
    rw [levels_last ha] at hf ⊢
    rw [hlevels] at hn ⊢
    have hend : iotxMcIsTopicMatched [] t = true ↔ Walks [] ns := matched_nil.trans ht.ls_nil
    have hplain := hn b List.mem_cons_self
    have h := matched_level ha (hf a List.mem_cons_self) hb hplain.1 hplain.2 .last ht hend
    rwa [List.append_nil] at h
  | part a q ha ih =>
    obtain ⟨b, t, ns, rfl, hb, hlevels, ht⟩ := behind_first n
    rw [levels_part ha] at hf ⊢
    rw [hlevels] at hn ⊢
    have hplain := hn b List.mem_cons_self
    refine matched_level ha (hf a List.mem_cons_self) hb hplain.1 hplain.2 (.more q) ht ?_
    cases ht with
    | last =>
      obtain ⟨l, ls, hl⟩ := List.exists_cons_of_ne_nil (List.splitOn_ne_nil slash q)
      rw [matched_end, show levels q = l :: ls from hl]
      simp [Walks]
    | more p =>
      rw [matched_same (by decide) (by decide)]
      exact ih (fun l hl => hf l (List.mem_cons_of_mem _ hl)) fun m hm => hn m (List.mem_cons_of_mem _ hm)

theorem walks_iff (hn : Plain ns) : Walks ls ns ↔ Matches ls ns ∧ ¬ MeetsEmpty ls ns := by
  induction ls generalizing ns with
  | nil => simp [Walks, Matches, MeetsEmpty]
  | cons l ls ih =>
    cases ns with
    | nil => simp [Walks, Matches, MeetsEmpty]
    | cons m ns =>
      have hrest := ih fun m' hm => hn m' (List.mem_cons_of_mem _ hm)
      have hplain := hn m List.mem_cons_self
      have hp : l = [plus] → l ≠ m := by
        rintro rfl rfl
        exact hplain.1 (List.mem_singleton_self plus)
      have hh : l = [hash] → l ≠ m ∧ l ≠ [plus] := by
        rintro rfl
        refine ⟨?_, by decide⟩
        rintro rfl
        exact hplain.2 (List.mem_singleton_self hash)
      have hend : ls = [] → ¬ MeetsEmpty ls ns := by
        rintro rfl
        exact id
      have hcons : ∀ {P : Bytes → List Bytes → Prop}, (∃ m' ns', m :: ns = m' :: ns' ∧ P m' ns') ↔ P m ns := by
        intro P
        constructor
        · rintro ⟨m', ns', heq, h⟩
          cases heq
          exact h
        · intro h
          exact ⟨m, ns, rfl, h⟩
      rw [Walks, Matches, MeetsEmpty, hcons, hcons, hcons, hrest]
      simp only [List.headD_cons]
      by_cases hhash : l = [hash]
      · obtain ⟨hm, hplus⟩ := hh hhash
        by_cases hls : ls = []
        · simp [eq_true hhash, eq_true hls, hend hls, hm, hplus]
        · simp [hls, hm, hplus]
      · by_cases hplus : l = [plus]
        · simp only [hhash, eq_true hplus, hp hplus, false_and, false_or, not_true, true_and, ne_eq, or_false, not_or]
          rw [and_comm, and_assoc, and_comm (a := ¬ MeetsEmpty ls ns)]
        · simp [hhash, hplus, and_assoc]

/-- **Topics are matched** as the standard says, unless a wildcard of a matching
    filter meets an empty level, or the '#' the parent; and no string is read
    past its end. -/
theorem topicMatched_exact_iff (topicFilter topicName : CStr) (hf : Accepted topicFilter .filter)
    (hn : Accepted topicName .name) :
    MatchesExactly topicFilter topicName ↔
      ¬ (Matches (levels topicFilter.1) (levels topicName.1) ∧
        MeetsEmpty (levels topicFilter.1) (levels topicName.1)) := by
  have hplain : Plain (levels topicName.1) := by
    intro m hm
    have hrule := (checkLevels_iff.1 hn.2).2.1 m hm
    constructor
    · intro hp
      cases (hrule.alone (.inl hp)).2
    · intro hh
      cases (hrule.alone (.inr hh)).2
  have hrun : topicMatchedPtr topicFilter topicName = some (iotxMcIsTopicMatched topicFilter.1 topicName.1) := by
    have h : matchLoop topicFilter.1 topicName.1 (topicFilter.1.length + 1) 0 0 = _ :=
      matchLoop_eq topicFilter.2 (Nat.zero_le _) (Nat.zero_le _) (by omega)
    rwa [List.drop_zero, List.drop_zero] at h
  have hwalk := (matched_iff (checkLevels_iff.1 hf.2).2.1 hplain).trans (walks_iff hplain)
  constructor
  · rintro ⟨b, hb, hiff⟩ ⟨hmatch, hempty⟩
    rw [hrun] at hb
    cases hb
    exact (hwalk.1 (hiff.2 hmatch)).2 hempty
  · intro h
    refine ⟨_, hrun, hwalk.trans ⟨And.left, fun hmatch => ⟨hmatch, fun hempty => h ⟨hmatch, hempty⟩⟩⟩⟩

def filterAHash : CStr := ⟨[0x61, slash, hash], by decide⟩
def filterAPlus : CStr := ⟨[0x61, slash, plus], by decide⟩
def nameA : CStr := ⟨[0x61], by decide⟩
def nameAB : CStr := ⟨[0x61, slash, 0x62], by decide⟩

theorem topicMatched_exact_iff_plus : MatchesExactly filterAPlus nameAB ↔
    ¬ (Matches (levels filterAPlus.1) (levels nameAB.1) ∧ MeetsEmpty (levels filterAPlus.1) (levels nameAB.1)) :=
  topicMatched_exact_iff filterAPlus nameAB (by decide) (by decide)

/-- "a/#" is accepted as a filter and "a" as a name, and they do not match. -/
theorem topicMatched_not_parent : Accepted filterAHash .filter ∧ Accepted nameA .name ∧
    ¬ MatchesExactly filterAHash nameA := by
  refine ⟨by decide, by decide, ?_⟩
  rintro ⟨b, hb, hiff⟩
  obtain rfl : false = b := Option.some.inj hb
  have hmatch : Matches (levels filterAHash.1) (levels nameA.1) :=
    .inr ⟨[0x61], [], rfl, .inr rfl, .inl ⟨rfl, rfl⟩⟩
  cases hiff.2 hmatch

end Mqtt
