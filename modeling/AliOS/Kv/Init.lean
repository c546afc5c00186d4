/-
  Key-value store: `kv_init` re-establishes the invariant.

  Three phases: every block is formatted or traversed (`Scan`), the clean
  blocks that held items become dirty or are formatted (`Settle`), and the
  write position is chosen.  The valid items afterwards are among those of the
  image, and every key that had one still has one.
-/
import AliOS.Kv.Recover

namespace Kv

open Lib

variable {c : KvConfig} {f f₀ : Flash} {d d' d₀ : Log} {s s' : KvMgr} {keep : ℕ → Prop}
  {b k u : ℕ} {it : Item} {un : List ℕ}

/-! ## The first loop -/

variable (c) in
/-- The blocks counted as clean so far, where `un` are those that held items. -/
def counted (s : KvMgr) (un : List ℕ) : Finset ℕ :=
  (Finset.range c.blkNums).filter fun b => (s.blockInfo b).state = blkStateClean ∧ b ∉ un

theorem mem_counted : b ∈ counted c s un ↔
    b < c.blkNums ∧ (s.blockInfo b).state = blkStateClean ∧ b ∉ un := by
  rw [counted, Finset.mem_filter, Finset.mem_range]

variable (c) in
/-- The first loop of `kv_init` has come to the block `k`. -/
structure Scan (f₀ : Flash) (d₀ : Log) (keep : ℕ → Prop) (k : ℕ) (s : KvMgr) (un : List ℕ)
    (d : Log) : Prop extends Recov c f₀ d₀ keep s d where
  todo : ∀ b, k ≤ b → (s.blockInfo b).state = 0 ∧ (d b).state = (d₀ b).state
  done : ∀ b < k, (s.blockInfo b).state ≠ 0
  space : ∀ b < k, (s.blockInfo b).space = blkSize - (blkHeaderSize + itemsSize c (d₀ b).items)
  used : ∀ b < k, (s.blockInfo b).state = blkStateUsed → ∀ it ∈ (d b).items, it.live = true
  clean : ∀ b < k, (s.blockInfo b).state = blkStateClean → b ∉ un → (d b).items = []
  spare : ∀ b < k, (d₀ b).state = none ∨ (d₀ b).state = some blkStateClean →
    (s.blockInfo b).state = blkStateClean
  unclean : ∀ b ∈ un, b < k ∧ (s.blockInfo b).state = blkStateClean ∧
    (d₀ b).state = some blkStateClean ∧ (d₀ b).items ≠ []
  nodup : un.Nodup
  count : s.cleanBlkNums = (counted c s un).card

theorem items_nil_of_itemSizes (h : itemSizes c (d b).items = itemSizes c (d₀ b).items)
    (h₀ : (d₀ b).items = []) : (d b).items = [] := by
  rw [h₀] at h
  exact List.map_eq_nil_iff.1 h

theorem kvBlockFormat_grows (h : Rep c s.flash d) :
    Grows s (s.kvBlockFormat b) fun f => f = s.flash ∨ Rep c f (d.erase b) :=
  (Grows.one rfl (.inl rfl)).trans (Grows.one rfl (.inr h.erase))

theorem kvBlockFormat_blockInfo (b' : ℕ) :
    (s.kvBlockFormat b).blockInfo b' =
      if b' = b then ⟨blkSize - blkHeaderSize, blkStateClean⟩ else s.blockInfo b' := rfl

theorem kvBlockFormat_flash (s : KvMgr) (b o : ℕ) : (s.kvBlockFormat b).flash o =
    if b * blkSize ≤ o ∧ o < b * blkSize + 4 then
      [blkMagicNum, blkStateClean, 0, 0].getD (o - b * blkSize) 0
    else if b * blkSize ≤ o ∧ o < b * blkSize + blkSize then 0xFF else s.flash o := rfl

theorem format_items (b' : ℕ) : (d.format b b').items = if b' = b then [] else (d b').items := by
  by_cases hb : b' = b
  · subst hb
    rw [Log.format, Function.update_self, if_pos rfl]
  · rw [Log.format, Function.update_of_ne hb, if_neg hb]

theorem format_state (b' : ℕ) :
    (d.format b b').state = if b' = b then some blkStateClean else (d b').state := by
  by_cases hb : b' = b
  · subst hb
    rw [Log.format, Function.update_self, if_pos rfl]
  · rw [Log.format, Function.update_of_ne hb, if_neg hb]

theorem kvBlockFormat_lowered {o : ℕ} (h : (s.kvBlockFormat b).flash o = itemMagicNum)
    (h' : (s.kvBlockFormat b).flash (o + 1) = itemStateNormal) :
    s.flash o = itemMagicNum ∧ s.flash (o + 1) = itemStateNormal := by
  have hout : ∀ a, (s.kvBlockFormat b).flash a = itemMagicNum →
      (s.kvBlockFormat b).flash a = s.flash a ∧ ¬ (b * blkSize ≤ a ∧ a < b * blkSize + blkSize) := by
    intro a ha
    rw [kvBlockFormat_flash] at ha ⊢
    split at ha
    · rename_i hin
      have hhdr : ∀ i < 4, [blkMagicNum, blkStateClean, 0, 0].getD i 0 ≠ itemMagicNum := by decide
      exact absurd ha (hhdr _ (by omega))
    · rename_i hin
      split at ha
      · exact absurd ha (by decide)
      · rename_i hin'
        rw [if_neg hin, if_neg hin']
        exact ⟨rfl, hin'⟩
  obtain ⟨he, hno⟩ := hout o h
  refine ⟨he ▸ h, ?_⟩
  rw [kvBlockFormat_flash] at h'
  split at h'
  · -- only the state in the header of the block reads as that of an item
    rename_i hin
    have ho : o + 1 = b * blkSize := by
      have : (4 : ℕ) ≤ blkSize := by decide
      omega
    rw [ho, Nat.sub_self] at h'
    exact absurd h' (by decide)
  · split at h'
    · exact absurd h' (by decide)
    · exact h'

theorem Recov.format (h : Recov c f₀ d₀ keep s d) (hb : b < c.blkNums) (hn : (d b).state = none) :
    Recov c f₀ d₀ keep (s.kvBlockFormat b) (d.format b) ∧ SameItems d (d.format b) ∧
      Grows s (s.kvBlockFormat b) (Sub c d₀) := by
  have hnil := ((h.rep b hb).noHeader hn).2
  have hsame : SameItems d (d.format b) := by
    intro b'
    rw [format_items]
    split
    · rename_i he; rw [he, hnil]
    · rfl
  refine ⟨⟨kvBlockFormat_rep h.rep, fun o h1 h2 => ?_, fun b' => ?_, fun p it hp => ?_,
    fun p it₀ hp => ?_, fun p it₀ hp hk => ?_, fun b' hb' hnz => ?_⟩, hsame,
    (kvBlockFormat_grows h.rep).mono ?_⟩
  · obtain ⟨h3, h4⟩ := kvBlockFormat_lowered h1 h2
    exact h.lowered o h3 h4
  · rw [hsame b']
    exact h.sizes b'
  · exact h.old p it (hsame.at_iff.1 hp)
  · obtain ⟨it, hit⟩ := h.pos p it₀ hp
    exact ⟨it, hsame.at_iff.2 hit⟩
  · obtain ⟨q, it, hl, hk', hkey⟩ := h.surv p it₀ hp hk
    exact ⟨q, it, hsame.lives_iff.2 hl, hk', hkey⟩
  · rw [kvBlockFormat_blockInfo] at hnz ⊢
    rw [format_state]
    split
    · rfl
    · rename_i hne
      rw [if_neg hne] at hnz
      exact h.mirror b' hb' hnz
  · rintro f (rfl | hf)
    · exact h.sub
    · refine ⟨_, hf, fun b' => ?_⟩
      by_cases hbb : b' = b
      · subst hbb
        rw [Log.erase, Function.update_self]
        exact Nat.zero_le _
      · rw [Log.erase, Function.update_of_ne hbb, itemsSize_of_sizes (h.sizes b')]

theorem Scan.unclean_ne (h : Scan c f₀ d₀ keep k s un d) (hb : b ∈ un) : b ≠ k := by
  have := (h.unclean b hb).1
  omega

theorem Scan.next_not_unclean (h : Scan c f₀ d₀ keep k s un d) : k ∉ un := fun hm => h.unclean_ne hm rfl

theorem Scan.next_not_counted (h : Scan c f₀ d₀ keep k s un d) : k ∉ counted c s un := by
  rw [mem_counted, (h.todo k le_rfl).1]
  rintro ⟨-, hc, -⟩
  exact absurd hc (by decide)

theorem Scan.format (h : Scan c f₀ d₀ keep k s un d) (hkn : k < c.blkNums) (hst : (d k).state = none) :
    Scan c f₀ d₀ keep (k + 1) (s.kvBlockFormat k) un (d.format k) ∧
      Grows s (s.kvBlockFormat k) (Sub c d₀) := by
  have hknot := h.next_not_unclean
  obtain ⟨hr, hsame, hg⟩ := h.toRecov.format hkn hst
  have hnil : (d k).items = [] := ((h.rep k hkn).noHeader hst).2
  have hnil0 : (d₀ k).items = [] := items_nil_of_itemSizes (h.sizes k).symm hnil
  have hinfo := @kvBlockFormat_blockInfo s k
  refine ⟨⟨hr, fun b hb => ?_, fun b hb => ?_, fun b hb => ?_, fun b hb hu => ?_,
    fun b hb hcl hnu => ?_, fun b hb hsp => ?_, fun b hb => ?_, h.nodup, ?_⟩, hg⟩
  · have hne : b ≠ k := by omega
    rw [hinfo, if_neg hne, format_state, if_neg hne]
    exact h.todo b (by omega)
  · rw [hinfo]
    split
    · exact fun hc => absurd (show blkStateClean = 0 from hc) (by decide)
    · exact h.done b (by omega)
  · rw [hinfo]
    split
    · rename_i he
      rw [he, hnil0, itemsSize_nil]
      rfl
    · exact h.space b (by omega)
  · rw [hinfo] at hu
    split at hu
    · exact absurd (show blkStateClean = blkStateUsed from hu) (by decide)
    · rw [hsame b]
      exact h.used b (by omega) hu
  · rw [hsame b]
    by_cases he : b = k
    · rw [he, hnil]
    · rw [hinfo, if_neg he] at hcl
      exact h.clean b (by omega) hcl hnu
  · rw [hinfo]
    split
    · rfl
    · exact h.spare b (by omega) hsp
  · obtain ⟨h1, h2⟩ := h.unclean b hb
    rw [hinfo, if_neg (h.unclean_ne hb)]
    exact ⟨by omega, h2⟩
  · have hset : counted c (s.kvBlockFormat k) un = insert k (counted c s un) := by
      ext b
      rw [Finset.mem_insert, mem_counted, mem_counted, hinfo]
      by_cases he : b = k
      · subst he
        simp [hkn, hknot]
      · simp [he]
    rw [hset, Finset.card_insert_of_notMem h.next_not_counted, ← h.count]
    rfl

variable (c) in
/-- The store `s₂` and its contents `d₂` behind the items of the block `k`, whose header
    says `st`. -/
structure Turned (f₀ : Flash) (d₀ : Log) (keep : ℕ → Prop) (k : ℕ) (s : KvMgr) (d : Log) (st : UInt8)
    (s₂ : KvMgr) (d₂ : Log) : Prop where
  recov : Recov c f₀ d₀ keep s₂ d₂
  evolve : Evolve k (s.setBlkState k st) d s₂ d₂
  used : (s₂.blockInfo k).state = blkStateUsed → ∀ y ∈ (d₂ k).items, y.live = true
  space : (s₂.blockInfo k).space = blkSize - (blkHeaderSize + itemsSize c (d₀ k).items)
  grows : Grows s s₂ (Sub c d₀)

theorem setBlkState_info (s : KvMgr) (k : ℕ) (st : UInt8) (b : ℕ) : (s.setBlkState k st).blockInfo b =
    if b = k then ⟨(s.blockInfo k).space, st⟩ else s.blockInfo b := rfl

variable {st : UInt8} {s₂ : KvMgr} {d₂ : Log}

theorem Scan.turned (h : Scan c f₀ d₀ keep k s un d) (hor : OriginsOk c f₀ d₀) (hk : KeepOk c d₀ keep)
    (hkn : k < c.blkNums) (hst : (d k).state = some st) (hstnz : st ≠ 0) :
    ∃ d₂, Turned c f₀ d₀ keep k s d st (kvItemTraverse c itemRecoveryCb k (s.setBlkState k st)).1 d₂ := by
  have hinfo := setBlkState_info s k st
  have hr1 : Recov c f₀ d₀ keep (s.setBlkState k st) d := by
    refine h.toRecov.of_memory rfl fun b hb hnz => ?_
    rw [hinfo] at hnz ⊢
    split
    · rename_i he
      rw [he, hst]
    · rename_i hne
      rw [if_neg hne] at hnz
      exact h.mirror b hb hnz
  have hk1 : ((s.setBlkState k st).blockInfo k).state = st := by rw [hinfo, if_pos rfl]
  obtain ⟨s₂, d₂, hrun, hr2, he2, hu2, hsp2, hg2⟩ := Recov.traverse hor hk hkn
    (d k).items.length rfl hr1 (by rw [hk1]; exact hstnz) (List.nil_append _).symm rfl
    (fun _ y hy => absurd hy (by simp)) (by
      show k * blkSize + blkSize ≤ k * blkSize + blkHeaderSize + 0 +
        itemHeaderSize * (blkSize / itemHeaderSize)
      simp only [itemHeaderSize, blkSize]
      omega)
  have hrun' : (kvItemTraverse c itemRecoveryCb k (s.setBlkState k st)).1 = s₂ := by
    unfold kvItemTraverse
    rw [show k * blkSize + blkHeaderSize = k * blkSize + blkHeaderSize + itemsSize c [] from by simp,
      hrun]
  rw [hrun']
  exact ⟨d₂, hr2, he2, hu2, hsp2, (Grows.refl rfl : Grows s (s.setBlkState k st) (Sub c d₀)).trans hg2⟩

theorem Turned.mem (ht : Turned c f₀ d₀ keep k s d st s₂ d₂) (hb : b ≠ k) :
    (s₂.blockInfo b).state = (s.blockInfo b).state ∨
      (s.blockInfo b).state = blkStateUsed ∧ (s₂.blockInfo b).state = blkStateDirty := by
  have := ht.evolve.mem b
  rwa [setBlkState_info, if_neg hb] at this

theorem Turned.mem_self (ht : Turned c f₀ d₀ keep k s d st s₂ d₂) :
    (s₂.blockInfo k).state = st ∨ st = blkStateUsed ∧ (s₂.blockInfo k).state = blkStateDirty := by
  have := ht.evolve.mem k
  rwa [setBlkState_info, if_pos rfl] at this

theorem Turned.clean_iff (ht : Turned c f₀ d₀ keep k s d st s₂ d₂) (hb : b ≠ k) :
    (s₂.blockInfo b).state = blkStateClean ↔ (s.blockInfo b).state = blkStateClean := by
  rcases ht.mem hb with hm | ⟨hm, hm'⟩
  · rw [hm]
  · rw [hm, hm']
    decide

theorem Turned.clean_self_iff (ht : Turned c f₀ d₀ keep k s d st s₂ d₂) :
    (s₂.blockInfo k).state = blkStateClean ↔ st = blkStateClean := by
  rcases ht.mem_self with hm | ⟨hm, hm'⟩
  · rw [hm]
  · rw [hm, hm']
    decide

theorem Turned.space_other (ht : Turned c f₀ d₀ keep k s d st s₂ d₂) (hb : b ≠ k) :
    (s₂.blockInfo b).space = (s.blockInfo b).space := by
  rw [ht.evolve.space b hb, setBlkState_info, if_neg hb]

theorem Turned.counted_iff (ht : Turned c f₀ d₀ keep k s d st s₂ d₂) (hb : b ≠ k) :
    b ∈ counted c s₂ un ↔ b ∈ counted c s un := by
  rw [mem_counted, mem_counted, ht.clean_iff hb]

theorem Turned.count (ht : Turned c f₀ d₀ keep k s d st s₂ d₂) (h : Scan c f₀ d₀ keep k s un d) :
    s₂.cleanBlkNums = (counted c s un).card := by
  rw [ht.evolve.count, ← h.count]
  rfl

/-- The turn of a block with a header ends in `s'` and `un'`, which has `k` if the block
    is clean and has items. -/
theorem Scan.next (h : Scan c f₀ d₀ keep k s un d) (hst : (d k).state = some st) (hstnz : st ≠ 0)
    (ht : Turned c f₀ d₀ keep k s d st s₂ d₂) {s' : KvMgr} {un' : List ℕ} (hf : s'.flash = s₂.flash)
    (hi : s'.blockInfo = s₂.blockInfo) (hsub : ∀ b ∈ un, b ∈ un') (hnd : un'.Nodup)
    (hkun : st = blkStateClean → k ∉ un' → (d₀ k).items = [])
    (hun' : ∀ b ∈ un', b ∈ un ∨ b = k ∧ st = blkStateClean ∧ (d₀ k).items ≠ [])
    (hcount : s'.cleanBlkNums = (counted c s₂ un').card) : Scan c f₀ d₀ keep (k + 1) s' un' d₂ := by
  have hst0 : (d₀ k).state = some st := by rw [← (h.todo k le_rfl).2, hst]
  have he2 := ht.evolve
  refine ⟨ht.recov.of_memory hf fun b hb hnz => ?_, fun b hb => ?_, fun b hb => ?_, fun b hb => ?_,
    fun b hb hu => ?_, fun b hb hcl hnu => ?_, fun b hb hsp => ?_, fun b hb => ?_, hnd, ?_⟩
  · rw [hi] at hnz ⊢
    exact ht.recov.mirror b hb hnz
  · have hne : b ≠ k := by omega
    obtain ⟨ht1, ht2⟩ := h.todo b (by omega)
    have hnu : ((s.setBlkState k st).blockInfo b).state ≠ blkStateUsed := by
      rw [setBlkState_info, if_neg hne, ht1]
      decide
    rw [hi, he2.state b hnu]
    refine ⟨?_, ht2⟩
    rcases ht.mem hne with hm | ⟨hm, -⟩
    · rw [hm, ht1]
    · rw [ht1] at hm
      exact absurd hm (by decide)
  · rw [hi]
    by_cases he : b = k
    · rw [he]
      rcases ht.mem_self with hm | ⟨-, hm⟩
      · rw [hm]; exact hstnz
      · rw [hm]; decide
    · rcases ht.mem he with hm | ⟨-, hm⟩
      · rw [hm]; exact h.done b (by omega)
      · rw [hm]; decide
  · rw [hi]
    by_cases he : b = k
    · rw [he, ht.space]
    · rw [ht.space_other he]
      exact h.space b (by omega)
  · rw [hi] at hu
    by_cases he : b = k
    · rw [he] at hu ⊢
      exact ht.used hu
    · rw [he2.used b hu]
      rcases ht.mem he with hm | ⟨-, hm⟩
      · exact h.used b (by omega) (hm ▸ hu)
      · rw [hu] at hm
        exact absurd hm (by decide)
  · rw [hi] at hcl
    by_cases he : b = k
    · rw [he] at hcl hnu ⊢
      exact items_nil_of_itemSizes (ht.recov.sizes k) (hkun (ht.clean_self_iff.1 hcl) hnu)
    · have hcl' := (ht.clean_iff he).1 hcl
      have hnil := h.clean b (by omega) hcl' fun hm => hnu (hsub b hm)
      exact items_nil_of_itemSizes (by rw [ht.recov.sizes, h.sizes]) hnil
  · rw [hi]
    by_cases he : b = k
    · rw [he] at hsp ⊢
      rw [ht.clean_self_iff]
      rcases hsp with hn | hcl
      · rw [hst0] at hn
        cases hn
      · rw [hst0] at hcl
        exact Option.some.inj hcl
    · exact (ht.clean_iff he).2 (h.spare b (by omega) hsp)
  · rw [hi]
    rcases hun' b hb with hb | ⟨rfl, hcl, hne⟩
    · obtain ⟨h1, h2, h3⟩ := h.unclean b hb
      exact ⟨by omega, (ht.clean_iff (h.unclean_ne hb)).2 h2, h3⟩
    · exact ⟨by omega, ht.clean_self_iff.2 hcl, by rw [hst0, hcl], hne⟩
  · rw [hcount]
    congr 1
    ext b
    rw [mem_counted, mem_counted, hi]

theorem Scan.initBlock (h : Scan c f₀ d₀ keep k s un d) (hor : OriginsOk c f₀ d₀)
    (hk : KeepOk c d₀ keep) (hkn : k < c.blkNums) :
    ∃ d', Scan c f₀ d₀ keep (k + 1) (initBlock c (s, un) k).1 (initBlock c (s, un) k).2 d' ∧
      Grows s (initBlock c (s, un) k).1 (Sub c d₀) := by
  cases hst : (d k).state with
  | none =>
    have hmagic : s.flash (k * blkSize) ≠ blkMagicNum := by
      rw [((h.rep k hkn).noHeader hst).1]
      decide
    have hrun : Kv.initBlock c (s, un) k = (s.kvBlockFormat k, un) := by
      unfold Kv.initBlock
      simp only [if_neg hmagic]
    rw [hrun]
    exact ⟨d.format k, h.format hkn hst⟩
  | some st =>
    obtain ⟨hmagic, hstate, hvalid⟩ := (h.rep k hkn).header st hst
    have hstnz : st ≠ 0 := by
      rintro rfl
      exact hvalid (by decide)
    obtain ⟨d₂, ht⟩ := h.turned hor hk hkn hst hstnz
    set s₂ := (kvItemTraverse c itemRecoveryCb k (s.setBlkState k st)).1 with hs2
    have hrun : Kv.initBlock c (s, un) k =
        if st = blkStateClean then
          if (s₂.blockInfo k).space ≠ blkSize - blkHeaderSize then (s₂, k :: un)
          else ({ s₂ with cleanBlkNums := s₂.cleanBlkNums + 1 }, un)
        else (s₂, un) := by
      unfold Kv.initBlock
      simp only [hmagic, hstate, if_true, if_neg hvalid, ← hs2]
    rw [hrun]
    have hcount := ht.count h
    -- what the turn does with the block
    by_cases hcl : st = blkStateClean
    · rw [if_pos hcl]
      by_cases hemp : (d₀ k).items = []
      · -- clean and empty: counted
        have hsp : ¬ (s₂.blockInfo k).space ≠ blkSize - blkHeaderSize := by
          rw [ht.space, hemp, itemsSize_nil]
          simp
        rw [if_neg hsp]
        refine ⟨d₂, h.next hst hstnz ht rfl rfl (fun _ hb => hb) h.nodup (fun _ _ => hemp)
          (fun b hb => .inl hb) ?_, ht.grows⟩
        have hset : counted c s₂ un = insert k (counted c s un) := by
          ext b
          rw [Finset.mem_insert]
          by_cases he : b = k
          · subst he
            rw [mem_counted]
            simp [hkn, h.next_not_unclean, ht.clean_self_iff.2 hcl]
          · rw [ht.counted_iff he]
            simp [he]
        rw [hset, Finset.card_insert_of_notMem h.next_not_counted, ← hcount]
      · -- clean with items: on the stack
        have hsp : (s₂.blockInfo k).space ≠ blkSize - blkHeaderSize := by
          have hpos : itemsSize c (d₀ k).items ≠ 0 := fun h0 => hemp (itemsSize_eq_zero.1 h0)
          have hfit := (h.rep k hkn).fits
          rw [itemsSize_of_sizes (h.sizes k)] at hfit
          rw [ht.space]
          omega
        rw [if_pos hsp]
        refine ⟨d₂, h.next hst hstnz ht rfl rfl (fun _ hb => List.mem_cons_of_mem _ hb)
          (List.nodup_cons.2 ⟨h.next_not_unclean, h.nodup⟩) (fun _ hnm => absurd List.mem_cons_self hnm)
          (fun b hb => ?_) ?_, ht.grows⟩
        · rcases List.mem_cons.1 hb with rfl | hb
          · exact .inr ⟨rfl, hcl, hemp⟩
          · exact .inl hb
        · rw [hcount]
          congr 1
          ext b
          by_cases he : b = k
          · subst he
            simp only [mem_counted, List.mem_cons_self, not_true, and_false, iff_false]
            exact fun hm => h.next_not_counted (mem_counted.2 hm)
          · rw [← ht.counted_iff he, mem_counted, mem_counted, List.mem_cons]
            simp [he]
    · -- in use
      rw [if_neg hcl]
      refine ⟨d₂, h.next hst hstnz ht rfl rfl (fun _ hb => hb) h.nodup (fun hc => absurd hc hcl)
        (fun b hb => .inl hb) ?_, ht.grows⟩
      rw [hcount]
      congr 1
      ext b
      by_cases he : b = k
      · subst he
        exact iff_of_false h.next_not_counted fun hm => hcl (ht.clean_self_iff.1 (mem_counted.1 hm).2.1)
      · exact (ht.counted_iff he).symm

end Kv
