/-
  Key-value store: the last two phases of `kv_init`, and what it gives.
-/
import AliOS.Kv.Init

namespace Kv

open Lib

variable {c : KvConfig} {f f₀ : Flash} {d d' d₀ : Log} {s s' : KvMgr} {keep : ℕ → Prop}
  {b k u : ℕ} {it : Item} {rem rem' : List ℕ}

/-! ## The clean blocks that held items -/

variable (c) in
/-- Every block has been scanned, and `rem` are the clean ones that hold items. -/
structure Settle (d₀ : Log) (keep : ℕ → Prop) (s : KvMgr) (rem : List ℕ) (d : Log) : Prop where
  rep : Rep c s.flash d
  state : ∀ b < c.blkNums, (d b).state = some (s.blockInfo b).state
  space : ∀ b < c.blkNums,
    (s.blockInfo b).space = blkSize - (blkHeaderSize + itemsSize c (d b).items)
  used : ∀ b < c.blkNums, (d b).state = some blkStateUsed → ∀ it ∈ (d b).items, it.live = true
  clean : ∀ b < c.blkNums, (d b).state = some blkStateClean → b ∉ rem → (d b).items = []
  unclean : ∀ b ∈ rem, b < c.blkNums ∧ (d b).state = some blkStateClean
  nodup : rem.Nodup
  count : s.cleanBlkNums = (counted c s rem).card
  back : ∀ it, Has c d it → ∃ it₀, Has c d₀ it₀ ∧ it₀.key = it.key ∧ it₀.val = it.val
  surv : ∀ b < c.blkNums, keep b → ∀ it₀ ∈ (d₀ b).items, it₀.live = true →
    ∃ b' < c.blkNums, keep b' ∧ ∃ it ∈ (d b').items, it.live = true ∧ it.key = it₀.key
  small : ∀ b, itemsSize c (d b).items ≤ itemsSize c (d₀ b).items

theorem Settle.sub (h : Settle c d₀ keep s rem d) : Sub c d₀ s.flash := ⟨d, h.rep, h.small⟩

theorem Scan.settle (h : Scan c f₀ d₀ keep c.blkNums s rem d) (h₀ : Rep c f₀ d₀) :
    Settle c d₀ keep s rem d where
  rep := h.rep
  state b hb := h.mirror b hb (h.done b hb)
  space b hb := by rw [h.space b hb, itemsSize_of_sizes (h.sizes b)]
  used b hb hu := h.used b hb (Option.some.inj ((h.mirror b hb (h.done b hb)).symm.trans hu))
  clean b hb hc := h.clean b hb (Option.some.inj ((h.mirror b hb (h.done b hb)).symm.trans hc))
  unclean b hb := by
    obtain ⟨h1, h2, -⟩ := h.unclean b hb
    exact ⟨h1, by rw [h.mirror b h1 (h.done b h1), h2]⟩
  nodup := h.nodup
  count := h.count
  back it hit := by
    obtain ⟨p, hp⟩ := has_iff.1 hit
    obtain ⟨it₀, hat, hd, hl⟩ := h.old p it hp.1
    have h1 : it₀.dead.key = it.dead.key := congrArg Item.key hd.symm
    have h2 : it₀.dead.val = it.dead.val := congrArg Item.val hd.symm
    exact ⟨it₀, has_iff.2 ⟨p, hat, hl hp.2⟩, h1, h2⟩
  surv b hb hk it₀ hit hl := by
    obtain ⟨p, hp⟩ := @exists_placed c (b * blkSize + blkHeaderSize) _ _ hit
    have hdiv := (placed_block h₀ hb hp).2.2
    obtain ⟨q, it, hq, hkq, hkey⟩ := h.surv p it₀ ⟨⟨b, hb, hp⟩, hl⟩ (hdiv ▸ hk)
    have hqb := hq.1.block h.rep
    exact ⟨q / blkSize, hqb.1, hkq, it, mem_of_placed hqb.2, hq.2, hkey⟩
  small b := (itemsSize_of_sizes (h.sizes b)).le

theorem Settle.dirty (h : Settle c d₀ keep s (u :: rem) d) :
    Settle c d₀ keep ((s.kvStateSet (u * blkSize) blkStateDirty).setBlkState u blkStateDirty) rem
      (d.setState u blkStateDirty) := by
  obtain ⟨hu, huc⟩ := h.unclean u List.mem_cons_self
  obtain ⟨hnm, hnd⟩ := List.nodup_cons.1 h.nodup
  have hinfo : ∀ b, ((s.kvStateSet (u * blkSize) blkStateDirty).setBlkState u
      blkStateDirty).blockInfo b =
      if b = u then ⟨(s.blockInfo u).space, blkStateDirty⟩ else s.blockInfo b := fun b => rfl
  have hitems := fun b => @sameItems_setState d u blkStateDirty b
  refine ⟨h.rep.setState (by decide) (by rw [huc]; simp), fun b hb => ?_, fun b hb => ?_,
    fun b hb hus => ?_, fun b hb hcl hnr => ?_, fun b hb => ?_, hnd, ?_, fun it hit => ?_,
    fun b hb hk it₀ hit hl => ?_, fun b => ?_⟩
  · rw [hinfo, setState_state]
    split
    · rfl
    · exact h.state b hb
  · rw [hinfo, hitems, ← h.space b hb]
    split
    · rename_i he; rw [he]
    · rfl
  · rw [setState_state] at hus
    rw [hitems]
    split at hus
    · cases hus
    · exact h.used b hb hus
  · rw [setState_state] at hcl
    rw [hitems]
    split at hcl
    · cases hcl
    · rename_i hne
      refine h.clean b hb hcl fun hm => ?_
      rcases List.mem_cons.1 hm with rfl | hm
      · exact hne rfl
      · exact hnr hm
  · obtain ⟨h1, h2⟩ := h.unclean b (List.mem_cons_of_mem _ hb)
    have hne : b ≠ u := fun he => hnm (he ▸ hb)
    rw [setState_state, if_neg hne]
    exact ⟨h1, h2⟩
  · show s.cleanBlkNums = _
    rw [h.count]
    congr 1
    ext b
    rw [mem_counted, mem_counted, hinfo, List.mem_cons]
    by_cases he : b = u
    · subst he
      simp only [true_or, not_true, and_false, if_true, false_iff]
      rintro ⟨-, hc, -⟩
      exact absurd (show blkStateDirty = blkStateClean from hc) (by decide)
    · simp [he]
  · rw [has_iff] at hit
    simp only [sameItems_setState.lives_iff] at hit
    exact h.back it (has_iff.2 hit)
  · obtain ⟨b', hb', hk', it, hm, hlive⟩ := h.surv b hb hk it₀ hit hl
    exact ⟨b', hb', hk', it, by rwa [hitems], hlive⟩
  · rw [hitems]
    exact h.small b

theorem Settle.format (h : Settle c d₀ keep s rem d) (hu : u < c.blkNums) (hk : ¬ keep u)
    (hnc : u ∉ counted c s rem) (hrem : ∀ b, b ∈ rem' ↔ b ∈ rem ∧ b ≠ u) (hnd : rem'.Nodup) :
    Settle c d₀ keep (s.kvBlockFormat u) rem' (d.format u) := by
  have hinfo := @kvBlockFormat_blockInfo s u
  refine ⟨kvBlockFormat_rep h.rep, fun b hb => ?_, fun b hb => ?_, fun b hb hus => ?_,
    fun b hb hcl hnr => ?_, fun b hb => ?_, hnd, ?_, fun it hit => ?_,
    fun b hb hkb it₀ hit hl => ?_, fun b => ?_⟩
  · rw [hinfo, format_state]
    split
    · rfl
    · exact h.state b hb
  · rw [hinfo, format_items]
    split
    · simp
    · exact h.space b hb
  · rw [format_state] at hus
    rw [format_items]
    split at hus
    · cases hus
    · rename_i hne
      rw [if_neg hne]
      exact h.used b hb hus
  · rw [format_state] at hcl
    rw [format_items]
    split at hcl
    · rename_i he
      rw [if_pos he]
    · rename_i hne
      rw [if_neg hne]
      exact h.clean b hb hcl fun hm => hnr ((hrem b).2 ⟨hm, hne⟩)
  · obtain ⟨hm, hne⟩ := (hrem b).1 hb
    rw [format_state, if_neg hne]
    exact h.unclean b hm
  · have hset : counted c (s.kvBlockFormat u) rem' = insert u (counted c s rem) := by
      ext b
      rw [Finset.mem_insert, mem_counted, mem_counted, hinfo, hrem]
      by_cases he : b = u
      · subst he
        simp [hu]
      · simp [he]
    rw [hset, Finset.card_insert_of_notMem hnc, ← h.count]
    rfl
  · obtain ⟨b, hb, hm, hl⟩ := hit
    rw [format_items] at hm
    split at hm
    · simp at hm
    · exact h.back it ⟨b, hb, hm, hl⟩
  · obtain ⟨b', hb', hk', it, hm, hlive⟩ := h.surv b hb hkb it₀ hit hl
    refine ⟨b', hb', hk', it, ?_, hlive⟩
    rw [format_items, if_neg]
    · exact hm
    · rintro rfl
      exact hk hk'
  · rw [format_items]
    split
    · exact Nat.zero_le _
    · exact h.small b

theorem Settle.format_grows (h : Settle c d₀ keep s rem d) :
    Grows s (s.kvBlockFormat u) (Sub c d₀) := by
  refine (kvBlockFormat_grows h.rep).mono ?_
  rintro f (rfl | hf)
  · exact h.sub
  · refine ⟨_, hf, fun b => ?_⟩
    by_cases hb : b = u
    · subst hb
      rw [Log.erase, Function.update_self]
      exact Nat.zero_le _
    · rw [Log.erase, Function.update_of_ne hb]
      exact h.small b

theorem Settle.foldl (h : Settle c d₀ keep s rem d) (hc : 1 ≤ s.cleanBlkNums) :
    ∃ d', Settle c d₀ keep (rem.foldl initUnclean s) [] d' ∧
      (rem.foldl initUnclean s).cleanBlkNums = s.cleanBlkNums ∧
      Grows s (rem.foldl initUnclean s) (Sub c d₀) := by
  induction rem generalizing s d with
  | nil => exact ⟨d, h, rfl, .refl rfl⟩
  | cons u rem ih =>
    have hun : initUnclean s u =
        (s.kvStateSet (u * blkSize) blkStateDirty).setBlkState u blkStateDirty := if_pos hc
    rw [List.foldl_cons, hun]
    obtain ⟨d', h', hcl, hg⟩ := ih h.dirty hc
    exact ⟨d', h', hcl, (Grows.one rfl h.sub).trans hg⟩

theorem Settle.finish (h : Settle c d₀ keep s rem d)
    (hhead : s.cleanBlkNums = 0 → ¬ keep (rem.head?.getD 0)) :
    ∃ d', Settle c d₀ keep
        (if (rem.foldl initUnclean s).cleanBlkNums = 0 then
          (rem.foldl initUnclean s).kvBlockFormat 0 else rem.foldl initUnclean s) [] d' ∧
      1 ≤ (if (rem.foldl initUnclean s).cleanBlkNums = 0 then
          (rem.foldl initUnclean s).kvBlockFormat 0 else rem.foldl initUnclean s).cleanBlkNums ∧
      Grows s (if (rem.foldl initUnclean s).cleanBlkNums = 0 then
          (rem.foldl initUnclean s).kvBlockFormat 0 else rem.foldl initUnclean s) (Sub c d₀) := by
  have htwo := c.two_le
  by_cases hc : s.cleanBlkNums = 0
  · have hk := hhead hc
    have hemp : ∀ b, b ∉ counted c s rem := by
      have := h.count
      rw [hc] at this
      rw [Finset.card_eq_zero.1 this.symm]
      simp
    cases rem with
    | nil =>
      -- no clean block at all: block `0`
      have hfold : [].foldl initUnclean s = s := rfl
      rw [hfold, if_pos hc]
      exact ⟨d.format 0, h.format (by omega) hk (hemp 0) (by simp) h.nodup, Nat.le_add_left 1 _,
        h.format_grows⟩
    | cons u rem =>
      have hun : initUnclean s u = s.kvBlockFormat u := if_neg (by rw [hc]; decide)
      obtain ⟨hnm, hnd⟩ := List.nodup_cons.1 h.nodup
      have hset : Settle c d₀ keep (s.kvBlockFormat u) rem (d.format u) := by
        refine h.format (h.unclean u List.mem_cons_self).1 hk (hemp u) (fun b => ?_) hnd
        rw [List.mem_cons]
        constructor
        · exact fun hb => ⟨.inr hb, fun he => hnm (he ▸ hb)⟩
        · rintro ⟨hb | hb, hne⟩
          · exact absurd hb hne
          · exact hb
      have hpos : 1 ≤ (s.kvBlockFormat u).cleanBlkNums := Nat.le_add_left 1 _
      obtain ⟨d', h', hcl, hg⟩ := hset.foldl hpos
      rw [List.foldl_cons, hun, if_neg (by omega)]
      exact ⟨d', h', by omega, h.format_grows.trans hg⟩
  · obtain ⟨d', h', hcl, hg⟩ := h.foldl (by omega)
    rw [if_neg (by omega)]
    exact ⟨d', h', by omega, hg⟩

/-! ## The write position -/

theorem Settle.counted_eq (h : Settle c d₀ keep s [] d) : counted c s [] = cleanBlks c d := by
  ext b
  rw [mem_counted, mem_cleanBlks]
  constructor
  · rintro ⟨hb, hc, -⟩
    exact ⟨hb, by rw [h.state b hb, hc]⟩
  · rintro ⟨hb, hc⟩
    rw [h.state b hb] at hc
    exact ⟨hb, Option.some.inj hc, by simp⟩

theorem Settle.backed (h : Settle c d₀ keep s [] d) : Backed c s d :=
  ⟨h.rep, h.state, h.space, fun b hb hc => h.clean b hb hc (by simp), h.used⟩

theorem exists_clean_next {n : ℕ} {clean : ℕ → Prop} {b j : ℕ} (hb : b < n) (hj : j < n)
    (hcb : clean b) (hcj : ¬ clean j) :
    ∃ i < n, ¬ clean i ∧ clean (if i + 1 = n then 0 else i + 1) := by
  by_contra hno
  push Not at hno
  -- else no block from `j` on, around the end, is clean
  have hall : ∀ m, ¬ clean ((j + m) % n) := by
    intro m
    induction m with
    | zero => rwa [Nat.add_zero, Nat.mod_eq_of_lt hj]
    | succ m ih =>
      have hlt : (j + m) % n < n := Nat.mod_lt _ (by omega)
      have hnext := hno _ hlt ih
      have heq : (j + (m + 1)) % n = if (j + m) % n + 1 = n then 0 else (j + m) % n + 1 := by
        rw [← Nat.add_assoc, Nat.add_mod]
        split
        · rename_i he
          rcases Nat.lt_or_ge 1 n with h1 | h1
          · rw [Nat.mod_eq_of_lt h1, he, Nat.mod_self]
          · have : n = 1 := by omega
            subst this
            exact Nat.mod_one _
        · rename_i he
          rcases Nat.lt_or_ge 1 n with h1 | h1
          · rw [Nat.mod_eq_of_lt h1, Nat.mod_eq_of_lt (by omega)]
          · omega
      rw [heq]
      exact hnext
  have := hall (b + n - j)
  rw [show j + (b + n - j) = b + n by omega, Nat.add_mod_right, Nat.mod_eq_of_lt hb] at this
  exact this hcb

theorem Settle.writePos (h : Settle c d₀ keep s [] d) (hc : 1 ≤ s.cleanBlkNums) :
    ∃ d', Inv c (initWritePos c s) d' ∧ SameItems d d' ∧ 1 ≤ (initWritePos c s).cleanBlkNums ∧
      Grows s (initWritePos c s) (Sub c d₀) := by
  have htwo := c.two_le
  have hcount : s.cleanBlkNums = (cleanBlks c d).card := by rw [h.count, h.counted_eq]
  have hbk := h.backed
  unfold initWritePos
  by_cases hall : s.cleanBlkNums = c.blkNums
  · -- every block is clean: the first one goes into use
    have h0 : (0 : ℕ) ∈ cleanBlks c d := by
      have hsub : cleanBlks c d ⊆ Finset.range c.blkNums := Finset.filter_subset ..
      have heq := Finset.eq_of_subset_of_card_le hsub (by
        rw [← hcount, hall, Finset.card_range])
      rw [heq, Finset.mem_range]
      omega
    obtain ⟨h0n, h0c⟩ := mem_cleanBlks.1 h0
    have h0i := hbk.clean 0 h0n h0c
    rw [if_pos hall]
    have hdiv : blkHeaderSize / blkSize = 0 := by decide
    simp only [hdiv]
    have hinfo : ∀ b, ((({ s with writePos := blkHeaderSize } : KvMgr).kvStateSet (0 * blkSize)
        blkStateUsed).setBlkState 0 blkStateUsed).blockInfo b =
        if b = 0 then ⟨(s.blockInfo 0).space, blkStateUsed⟩ else s.blockInfo b := fun b => rfl
    have hitems := fun b => @sameItems_setState d 0 blkStateUsed b
    refine ⟨d.setState 0 blkStateUsed, ⟨⟨?_, fun b hb => ?_, fun b hb => ?_, fun b hb hcl => ?_,
      fun b hb hus => ?_⟩, ?_, 0, h0n, ?_, ?_⟩, sameItems_setState, ?_, .one rfl h.sub⟩
    · exact h.rep.setState (by decide) (by rw [h0c]; simp)
    · rw [setState_state]
      simp only [hinfo]
      split
      · rfl
      · exact h.state b hb
    · rw [hitems, ← h.space b hb]
      simp only [hinfo]
      split
      · rename_i he; rw [he]
      · rfl
    · rw [setState_state] at hcl
      rw [hitems]
      split at hcl
      · cases hcl
      · exact hbk.clean b hb hcl
    · rw [setState_state] at hus
      rw [hitems]
      split at hus
      · rename_i he
        rw [he, h0i]
        simp
      · exact h.used b hb hus
    · rw [cleanBlks_setState (by decide), Finset.card_erase_of_mem h0, ← hcount]
      rfl
    · rw [setState_state, if_pos rfl]
      decide
    · rw [endPos, hitems, h0i, itemsSize_nil]
      simp only [Nat.zero_mul, Nat.zero_add, Nat.add_zero]
      rfl
    · show 1 ≤ s.cleanBlkNums - 1
      omega
  · rw [if_neg hall]
    -- a clean block, and one that is not
    obtain ⟨b, hb⟩ := Finset.card_pos.1 (by rw [← hcount]; omega : 0 < (cleanBlks c d).card)
    have hj : ∃ j < c.blkNums, j ∉ cleanBlks c d := by
      by_contra hno
      push Not at hno
      have hsub : Finset.range c.blkNums ⊆ cleanBlks c d := fun j hj =>
        hno j (Finset.mem_range.1 hj)
      have h1 := Finset.card_le_card hsub
      have h2 := Finset.card_le_card (Finset.filter_subset (fun b => (d b).state = some blkStateClean)
        (Finset.range c.blkNums))
      rw [Finset.card_range] at h1 h2
      have : (cleanBlks c d).card ≤ c.blkNums := h2
      omega
    obtain ⟨j, hj, hjn⟩ := hj
    obtain ⟨i, hi, hin, hnext⟩ := exists_clean_next (mem_cleanBlks.1 hb).1 hj hb hjn
    -- the states are those of the source
    have hvalid : ∀ i < c.blkNums, i ∉ cleanBlks c d →
        (s.blockInfo i).state = blkStateUsed ∨ (s.blockInfo i).state = blkStateDirty := by
      intro i hi hni
      have hv := ((h.rep i hi).header _ (h.state i hi)).2.2
      have hne : (s.blockInfo i).state ≠ blkStateClean := fun hc =>
        hni (mem_cleanBlks.2 ⟨hi, by rw [h.state i hi, hc]⟩)
      by_contra hno
      exact hv ⟨fun hc => hno (.inl hc), hne, fun hc => hno (.inr hc)⟩
    cases hfind : initWriteBlk c s with
    | none =>
      have := List.find?_eq_none.1 hfind i (List.mem_range.2 hi)
      refine absurd (decide_eq_true ⟨hvalid i hi hin, ?_⟩) this
      obtain ⟨hnn, hnc⟩ := mem_cleanBlks.1 hnext
      rw [h.state _ hnn] at hnc
      exact Option.some.inj hnc
    | some w =>
      have hw := List.find?_some hfind
      have hwn := List.mem_range.1 (List.mem_of_find?_eq_some hfind)
      simp only [decide_eq_true_eq] at hw
      have hwc : (d w).state ≠ some blkStateClean := by
        rw [h.state w hwn]
        rcases hw.1 with hs | hs <;> rw [hs] <;> decide
      have hsp := h.space w hwn
      have hfit := (h.rep w hwn).fits
      have hpos : w * blkSize + blkSize - (s.blockInfo w).space = endPos c d w := by
        rw [hsp, endPos]
        omega
      exact ⟨d, ⟨⟨h.rep, h.state, h.space, hbk.clean, h.used⟩, hcount, w, hwn, hwc, hpos⟩, .refl, hc,
        .refl rfl⟩

/-! ## `aos_kv_init` -/

theorem scan_boot (h : Rep c f d₀) : Scan c f d₀ keep 0 (.boot f) [] d₀ where
  rep := h
  lowered _ h1 h2 := ⟨h1, h2⟩
  sizes _ := rfl
  old _ it hp := ⟨it, hp, rfl, id⟩
  pos _ it hp := ⟨it, hp⟩
  surv p it hp hk := ⟨p, it, hp, hk, rfl⟩
  mirror _ _ hnz := absurd rfl hnz
  todo _ _ := ⟨rfl, rfl⟩
  done _ hb := absurd hb (by omega)
  space _ hb := absurd hb (by omega)
  used _ hb := absurd hb (by omega)
  clean _ hb := absurd hb (by omega)
  spare _ hb := absurd hb (by omega)
  unclean _ hb := absurd hb (by simp)
  nodup := List.nodup_nil
  count := by
    refine (Finset.card_eq_zero.2 ?_).symm
    ext b
    rw [mem_counted]
    simp [KvMgr.boot, blkStateClean]

theorem scan_all (h : Rep c f d₀) (hor : OriginsOk c f d₀) (hk : KeepOk c d₀ keep) :
    ∀ k ≤ c.blkNums, ∃ d, Scan c f d₀ keep k
        ((List.range k).foldl (initBlock c) (.boot f, [])).1
        ((List.range k).foldl (initBlock c) (.boot f, [])).2 d ∧
      Grows (.boot f) ((List.range k).foldl (initBlock c) (.boot f, [])).1 (Sub c d₀) := by
  intro k
  induction k with
  | zero => exact fun _ => ⟨d₀, scan_boot h, .refl rfl⟩
  | succ k ih =>
    intro hkn
    obtain ⟨d, hs, hg⟩ := ih (by omega)
    rw [List.range_succ, List.foldl_append, List.foldl_cons, List.foldl_nil]
    obtain ⟨d', hs', hg'⟩ := hs.initBlock hor hk (by omega)
    exact ⟨d', hs', hg.trans hg'⟩

variable (c) in
/-- What an image must be for recovery to keep it.  An item names as its origin
    an item, or nothing that reads as a valid one; there is a clean block or one
    without a header, unless block `0` has nothing to lose; and unless there is
    a spare block, no item in a clean block names as its origin a valid item of
    its key outside of it. -/
structure Recoverable (f : Flash) (d : Log) : Prop where
  origins : OriginsOk c f d
  reserve : (∃ b < c.blkNums, (d b).state = none ∨ (d b).state = some blkStateClean) ∨
    ∀ it ∈ (d 0).items, it.live = false
  copies : ∀ u < c.blkNums, (d u).state = some blkStateClean → (∃ b < c.blkNums, Spare d b) ∨
    ∀ p q x y, Lives c d p x → Lives c d q y → p / blkSize = u → q / blkSize ≠ u →
      x.key = y.key → x.origin ≠ q

/-- The block that `kv_init` formats if it has to. -/
def lastUnclean (un : List ℕ) : ℕ := un.head?.getD 0

/-- Without a spare block, the block to be formatted is the one a collection
    was copying to, or it has nothing to lose. -/
theorem Recoverable.last (hrec : Recoverable c f d₀) (hs : Scan c f d₀ keep c.blkNums s rem d)
    (hno : ¬ ∃ b < c.blkNums, Spare d₀ b) :
    (lastUnclean rem < c.blkNums ∧ (d₀ (lastUnclean rem)).state = some blkStateClean ∧
        (d₀ (lastUnclean rem)).items ≠ []) ∨
      ∀ it ∈ (d₀ (lastUnclean rem)).items, it.live = false := by
  cases rem with
  | cons u rem =>
    obtain ⟨h1, -, h2, h3⟩ := hs.unclean u List.mem_cons_self
    exact .inl ⟨h1, h2, h3⟩
  | nil =>
    refine .inr ?_
    rcases hrec.reserve with ⟨b, hb, hst⟩ | hdead
    · refine absurd ⟨b, hb, ?_, hst⟩ hno
      have := hs.clean b hb (hs.spare b hb hst) (by simp)
      exact items_nil_of_itemSizes (hs.sizes b).symm this
    · exact hdead

/-- **Recovery**: on a recoverable image `aos_kv_init` establishes the invariant,
    keeps a block clean, and every key reads as it does on the image. -/
theorem aosKvInit_inv (hrep : Rep c f d₀) (hshape : Shape c d₀) (hrec : Recoverable c f d₀) :
    ∃ d, Inv c (aosKvInit c f) d ∧ (∀ key o, Reads c d key o → Reads c d₀ key o) ∧
      1 ≤ (aosKvInit c f).cleanBlkNums ∧ Sub c d₀ (aosKvInit c f).flash ∧
      Grows (.boot f) (aosKvInit c f) (Sub c d₀) := by
  obtain ⟨d1, hs1, -⟩ := @scan_all c f d₀ (fun _ => True) hrep hrec.origins
    (fun _ _ _ _ _ _ _ _ _ => trivial) c.blkNums le_rfl
  generalize hw : lastUnclean ((List.range c.blkNums).foldl (initBlock c) (.boot f, [])).2 = w at *
  have hlast := fun hno => hw ▸ hrec.last hs1 hno
  have hk : KeepOk c d₀ fun b => (∃ b' < c.blkNums, Spare d₀ b') ∨ b ≠ w := by
    rintro p q x y hx hy ho hkey (hsp | hq)
    · exact .inl hsp
    · by_cases hsp : ∃ b' < c.blkNums, Spare d₀ b'
      · exact .inl hsp
      · refine .inr fun hp => ?_
        rcases hlast hsp with ⟨hwn, hwc, -⟩ | hdead
        · exact (hrec.copies w hwn hwc).resolve_left hsp p q x y hx hy hp hq hkey ho
        · have := hdead x (hp ▸ mem_of_placed (hx.1.block hrep).2)
          rw [hx.2] at this
          cases this
  obtain ⟨d₂, hs2, hg2⟩ := scan_all hrep hrec.origins hk c.blkNums le_rfl
  have hhead : ((List.range c.blkNums).foldl (initBlock c) (.boot f, [])).1.cleanBlkNums = 0 →
      ¬ ((∃ b' < c.blkNums, Spare d₀ b') ∨
        ((List.range c.blkNums).foldl (initBlock c) (.boot f, [])).2.head?.getD 0 ≠ w) := by
    rintro hc (⟨b, hb, hnil, hst⟩ | hne)
    · -- a spare block is counted
      rw [hs2.count, Finset.card_eq_zero] at hc
      have hmem : b ∈ counted c _ _ :=
        mem_counted.2 ⟨hb, hs2.spare b hb hst, fun hm => (hs2.unclean b hm).2.2.2 hnil⟩
      rw [hc] at hmem
      simp at hmem
    · exact hne hw
  obtain ⟨d3, hs3, hc3, hg3⟩ := (hs2.settle hrep).finish hhead
  obtain ⟨d, hinv, hsame, hc, hg⟩ := hs3.writePos hc3
  have hrun : ∃ m : KvMgr, kvInit c (.boot f) = m ∧ Inv c m d ∧ 1 ≤ m.cleanBlkNums ∧
      Grows (.boot f) m (Sub c d₀) := ⟨_, rfl, hinv, hc, hg2.trans (hg3.trans hg)⟩
  obtain ⟨m, hm, hinv, hc, hgrow⟩ := hrun
  have hsub : Sub c d₀ m.flash := ⟨d, hinv.rep, fun b => hsame b ▸ hs3.small b⟩
  refine ⟨d, ?_, fun key o hr => ?_, ?_, ?_, ?_⟩
  · unfold aosKvInit
    rw [hm]
    simp only
    split
    · exact ⟨⟨hinv.rep, hinv.state, hinv.space, hinv.clean, hinv.used⟩, hinv.count, hinv.write⟩
    · exact hinv
  · have hhas : ∀ it, Has c d it ↔ Has c d3 it := fun it => by
      simp only [has_iff, hsame.lives_iff]
    rw [reads_congr hhas] at hr
    cases o with
    | some v =>
      obtain ⟨it, hit, hkey, hval⟩ := hr
      obtain ⟨it₀, hit0, hk0, hv0⟩ := hs3.back it hit
      exact ⟨it₀, hit0, hk0.trans hkey, hv0.trans hval⟩
    | none =>
      rintro it₀ ⟨b, hb, hmem, hlive⟩ hkey
      have hkept : ∀ b < c.blkNums, ((∃ b' < c.blkNums, Spare d₀ b') ∨ b ≠ w) →
          ∀ x ∈ (d₀ b).items, x.live = true → x.key ≠ key := by
        intro b hb hkb x hx hlx hxk
        obtain ⟨b', hb', -, it, hit, hl, hke⟩ := hs3.surv b hb hkb x hx hlx
        exact hr it ⟨b', hb', hit, hl⟩ (hke.trans hxk)
      by_cases hkb : (∃ b' < c.blkNums, Spare d₀ b') ∨ b ≠ w
      · exact hkept b hb hkb it₀ hmem hlive hkey
      · rw [not_or, not_not] at hkb
        obtain ⟨hno, rfl⟩ := hkb
        rcases hlast hno with ⟨hwn, hwc, hwi⟩ | hdead
        · -- the copies have their originals elsewhere
          obtain ⟨b', hb', hne, x, hx, hlx, hxk⟩ :=
            (hshape b hwn hwc hwi).resolve_left hno it₀ hmem hlive
          exact hkept b' hb' (.inr hne) x hx hlx (hxk.trans hkey)
        · have := hdead it₀ hmem
          rw [hlive] at this
          cases this
  · unfold aosKvInit
    rw [hm]
    simp only
    split
    · exact hc
    · exact hc
  · unfold aosKvInit
    rw [hm]
    simp only
    split
    · exact hsub
    · exact hsub
  · unfold aosKvInit
    rw [hm]
    simp only
    split
    · exact hgrow.trans (.refl rfl)
    · exact hgrow

end Kv
