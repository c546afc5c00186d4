/-
  Key-value store: storing and deleting keep the invariant.

  `Inv c s d` says that the manager `s` mirrors the log `d`, counts its clean
  blocks, and writes next behind the items of a block that is in use.
  `Grows s s' P` says that every image between `s` and `s'` has the property
  `P`.
-/
import AliOS.Kv.Lookup
import Mathlib.Data.Finset.Card

namespace Kv

open Lib

variable (c : KvConfig)

/-! ## The invariant -/

/-- The clean blocks of a log. -/
def cleanBlks (d : Log) : Finset ℕ :=
  (Finset.range c.blkNums).filter fun b => (d b).state = some blkStateClean

/-- The invariant of the manager between operations. -/
structure Inv (s : KvMgr) (d : Log) : Prop extends Backed c s d where
  count : s.cleanBlkNums = (cleanBlks c d).card
  write : ∃ b < c.blkNums, (d b).state ≠ some blkStateClean ∧ s.writePos = endPos c d b

/-- At most one valid item for each key. -/
def Unique (d : Log) : Prop :=
  ∀ p q it it', Lives c d p it → Lives c d q it' → it.key = it'.key → p = q

/-- The two logs differ at most in the states of blocks. -/
def SameItems (d d' : Log) : Prop := ∀ b, (d' b).items = (d b).items

/-- No clean block holds items: no collection is under way. -/
def Tidy (d : Log) : Prop :=
  ∀ b < c.blkNums, (d b).state = some blkStateClean → (d b).items = []

/-- An image with the valid items of `d`. -/
def Img (d : Log) (f : Flash) : Prop :=
  ∃ d₀, Rep c f d₀ ∧ Tidy c d₀ ∧ ∀ p it, Lives c d₀ p it ↔ Lives c d p it

/-- The images between `s` and `s'`. -/
def Grows (s s' : KvMgr) (P : Flash → Prop) : Prop :=
  ∃ new, s'.past = new ++ s.past ∧ ∀ f ∈ new, P f

variable {c} {f : Flash} {d d' : Log} {s s' s'' : KvMgr} {b p q len : ℕ} {it it' : Item}
  {P Q : Flash → Prop}

theorem Backed.img (h : Backed c s d) : Img c d s.flash := ⟨d, h.rep, h.clean, fun _ _ => Iff.rfl⟩

theorem Img.congr (h : Img c d f) (hl : ∀ p it, Lives c d p it ↔ Lives c d' p it) : Img c d' f := by
  obtain ⟨d₀, hr, ht, h⟩ := h
  exact ⟨d₀, hr, ht, fun p it => (h p it).trans (hl p it)⟩

theorem Grows.refl (h : s'.past = s.past) : Grows s s' P := ⟨[], h, fun _ hf => absurd hf (by simp)⟩

theorem Grows.trans (h : Grows s s' P) (h' : Grows s' s'' P) : Grows s s'' P := by
  obtain ⟨new, he, hp⟩ := h
  obtain ⟨new', he', hp'⟩ := h'
  refine ⟨new' ++ new, by rw [he', he, List.append_assoc], fun f hf => ?_⟩
  rcases List.mem_append.1 hf with hf | hf
  · exact hp' f hf
  · exact hp f hf

theorem Grows.one (h : s'.past = s.flash :: s.past) (hp : P s.flash) : Grows s s' P :=
  ⟨[s.flash], h, fun f hf => by rw [List.mem_singleton.1 hf]; exact hp⟩

theorem Grows.mono (h : Grows s s' P) (hpq : ∀ f, P f → Q f) : Grows s s' Q := by
  obtain ⟨new, he, hp⟩ := h
  exact ⟨new, he, fun f hf => hpq f (hp f hf)⟩

/-! ## Logs with the same items -/

theorem SameItems.refl : SameItems d d := fun _ => rfl

theorem sameItems_setState {st : UInt8} : SameItems d (d.setState b st) := by
  intro b'
  by_cases he : b' = b
  · subst he
    rw [Log.setState, Function.update_self]
  · rw [Log.setState, Function.update_of_ne he]

theorem SameItems.at_iff (h : SameItems d d') : At c d' p it ↔ At c d p it := by
  simp only [At, h _]

theorem SameItems.lives_iff (h : SameItems d d') : Lives c d' p it ↔ Lives c d p it := by
  rw [Lives, Lives, h.at_iff]

theorem SameItems.endPos_eq (h : SameItems d d') : endPos c d' b = endPos c d b := by
  rw [endPos, endPos, h b]

/-! ## Clean blocks -/

theorem mem_cleanBlks : b ∈ cleanBlks c d ↔ b < c.blkNums ∧ (d b).state = some blkStateClean := by
  rw [cleanBlks, Finset.mem_filter, Finset.mem_range]

theorem setState_state {st : UInt8} {b' : ℕ} :
    (d.setState b st b').state = if b' = b then some st else (d b').state := by
  by_cases he : b' = b
  · subst he
    rw [Log.setState, Function.update_self, if_pos rfl]
  · rw [Log.setState, Function.update_of_ne he, if_neg he]

theorem cleanBlks_setState {st : UInt8} (hst : st ≠ blkStateClean) :
    cleanBlks c (d.setState b st) = (cleanBlks c d).erase b := by
  ext b'
  rw [Finset.mem_erase, mem_cleanBlks, mem_cleanBlks, setState_state]
  by_cases he : b' = b
  · subst he
    simp [hst]
  · simp [he]

theorem cleanBlks_congr (h : ∀ b, (d' b).state = (d b).state) : cleanBlks c d' = cleanBlks c d := by
  simp only [cleanBlks, h]

/-! ## Deleting an item -/

theorem kill_state (h : Rep c f d) (hp : At c d p it) (b' : ℕ) :
    (d.kill c p b').state = (d b').state := by
  obtain ⟨pre, post, -, -, hk⟩ := kill_block h hp
  rw [hk]
  by_cases he : b' = p / blkSize
  · subst he
    rw [Function.update_self]
  · rw [Function.update_of_ne he]

theorem kill_size (h : Rep c f d) (hp : At c d p it) (b' : ℕ) :
    itemsSize c (d.kill c p b').items = itemsSize c (d b').items := by
  obtain ⟨pre, post, he, -, hk⟩ := kill_block h hp
  rw [hk]
  by_cases hb : b' = p / blkSize
  · subst hb
    rw [Function.update_self, he]
    simp
  · rw [Function.update_of_ne hb]

theorem kill_ne (hb : b ≠ p / blkSize) : d.kill c p b = d b := Function.update_of_ne hb ..

theorem kvItemRemove_used (hu : (s.blockInfo (p / blkSize)).state = blkStateUsed) :
    kvItemRemove s p = ((s.kvStateSet p itemStateDelete).kvStateSet (p / blkSize * blkSize)
      blkStateDirty).setBlkState (p / blkSize) blkStateDirty := by
  rw [kvItemRemove, KvMgr.markDirty]
  exact if_pos hu

theorem kvItemRemove_other (hu : (s.blockInfo (p / blkSize)).state ≠ blkStateUsed) :
    kvItemRemove s p = s.kvStateSet p itemStateDelete := by
  rw [kvItemRemove, KvMgr.markDirty]
  exact if_neg hu

theorem kvItemRemove_cleanBlkNums : (kvItemRemove s p).cleanBlkNums = s.cleanBlkNums := by
  rw [kvItemRemove, KvMgr.markDirty]
  split <;> rfl

theorem kvItemRemove_writePos : (kvItemRemove s p).writePos = s.writePos := by
  rw [kvItemRemove, KvMgr.markDirty]
  split <;> rfl

theorem kvItemRemove_blockInfo (b : ℕ) :
    (kvItemRemove s p).blockInfo b =
      if b = p / blkSize ∧ (s.blockInfo b).state = blkStateUsed then
        ⟨(s.blockInfo b).space, blkStateDirty⟩
      else s.blockInfo b := by
  by_cases hu : (s.blockInfo (p / blkSize)).state = blkStateUsed
  · rw [kvItemRemove_used hu]
    simp only [KvMgr.setBlkState, KvMgr.setBlockInfo]
    by_cases hb : b = p / blkSize
    · subst hb
      rw [if_pos rfl, if_pos ⟨rfl, hu⟩]
      rfl
    · rw [if_neg hb, if_neg fun h => hb h.1]
      rfl
  · rw [kvItemRemove_other hu, if_neg]
    · rfl
    · rintro ⟨rfl, h⟩
      exact hu h

theorem kvItemRemove_rep (hrep : Rep c s.flash d) (hp : At c d p it)
    (hm : (s.blockInfo (p / blkSize)).state = blkStateUsed → (d (p / blkSize)).state ≠ none) :
    ∃ d', Rep c (kvItemRemove s p).flash d' ∧ SameItems (d.kill c p) d' ∧
      (∀ b, (d' b).state = if b = p / blkSize ∧ (s.blockInfo b).state = blkStateUsed then
        some blkStateDirty else (d b).state) ∧
      Grows s (kvItemRemove s p) fun f => f = s.flash ∨ Rep c f (d.kill c p) := by
  have hkill := hrep.kill hp
  have hst := kill_state hrep hp
  by_cases hu : (s.blockInfo (p / blkSize)).state = blkStateUsed
  · rw [kvItemRemove_used hu]
    refine ⟨(d.kill c p).setState (p / blkSize) blkStateDirty,
      hkill.setState (by decide) (by rw [hst]; exact hm hu), sameItems_setState, fun b => ?_,
      (Grows.one rfl (.inl rfl)).trans (Grows.one rfl (.inr hkill))⟩
    rw [setState_state, hst]
    by_cases hb : b = p / blkSize
    · subst hb
      rw [if_pos rfl, if_pos ⟨rfl, hu⟩]
    · rw [if_neg hb, if_neg fun h => hb h.1]
  · rw [kvItemRemove_other hu]
    refine ⟨d.kill c p, hkill, .refl, fun b => ?_, .one rfl (.inl rfl)⟩
    rw [hst, if_neg]
    rintro ⟨rfl, h⟩
    exact hu h

theorem Inv.remove (h : Inv c s d) (hp : Lives c d p it) :
    ∃ d', Inv c (kvItemRemove s p) d' ∧
      (∀ q x, Lives c d' q x ↔ Lives c d q x ∧ q ≠ p) ∧
      (kvItemRemove s p).cleanBlkNums = s.cleanBlkNums ∧
      Grows s (kvItemRemove s p) fun f => Img c d f ∨ Img c d' f := by
  have hb := (hp.1.block h.rep).1
  have hused : (s.blockInfo (p / blkSize)).state = blkStateUsed →
      (d (p / blkSize)).state = some blkStateUsed := fun hu => by rw [h.state _ hb, hu]
  obtain ⟨d', hrep, hsame, hst, hgr⟩ := kvItemRemove_rep h.rep hp.1 fun hu => by simp [hused hu]
  have hsize : ∀ b', itemsSize c (d' b').items = itemsSize c (d b').items := fun b' => by
    rw [hsame b', kill_size h.rep hp.1]
  have hstate : ∀ b', (d' b').state = some blkStateClean ↔ (d b').state = some blkStateClean := by
    intro b'
    rw [hst]
    split
    · rename_i he
      rw [he.1, hused (he.1 ▸ he.2)]
      decide
    · rfl
  have hlives : ∀ q x, Lives c d' q x ↔ Lives c d q x ∧ q ≠ p := fun q x => by
    rw [hsame.lives_iff, lives_kill h.rep hp.1]
  refine ⟨d', ⟨⟨hrep, fun b' hb' => ?_, fun b' hb' => ?_, fun b' hb' hcl => ?_,
    fun b' hb' hus => ?_⟩, ?_, ?_⟩, hlives, kvItemRemove_cleanBlkNums, hgr.mono ?_⟩
  · rw [kvItemRemove_blockInfo, hst]
    split
    · rfl
    · exact h.state b' hb'
  · rw [kvItemRemove_blockInfo, hsize, ← h.space b' hb']
    split <;> rfl
  · rw [← itemsSize_eq_zero (c := c), hsize, h.clean b' hb' ((hstate b').1 hcl), itemsSize_nil]
  · -- the block of `p` is not `USED` any more
    rw [hst] at hus
    split at hus
    · cases hus
    · rename_i hn
      have hne : b' ≠ p / blkSize := by
        rintro rfl
        refine hn ⟨rfl, Option.some.inj ?_⟩
        rw [← h.state _ hb, hus]
      rw [hsame b', kill_ne hne]
      exact h.used b' hb' hus
  · rw [kvItemRemove_cleanBlkNums, h.count]
    congr 1
    ext b'
    rw [mem_cleanBlks, mem_cleanBlks, hstate]
  · obtain ⟨b', hb', hs, hw⟩ := h.write
    refine ⟨b', hb', fun hc => hs ((hstate b').1 hc), ?_⟩
    rw [kvItemRemove_writePos, hw, endPos, endPos, hsize]
  · rintro f (rfl | hf)
    · exact .inl h.img
    · refine .inr ⟨_, hf, fun b' hb' hcl => ?_, fun _ _ => hsame.lives_iff.symm⟩
      rw [kill_state h.rep hp.1] at hcl
      rw [← itemsSize_eq_zero (c := c), kill_size h.rep hp.1, h.clean b' hb' hcl, itemsSize_nil]

/-! ## Storing an item -/

theorem endPos_div (h : Rep c f d) (hb : b < c.blkNums) : endPos c d b / blkSize = b := by
  have := (h b hb).fits
  unfold endPos
  simp only [blkSize, blkHeaderSize] at *
  omega

theorem not_at_endPos (h : Rep c f d) (hb : b < c.blkNums) : ¬ At c d (endPos c d b) it := by
  intro hat
  have h1 := (hat.block h).2
  rw [endPos_div h hb] at h1
  have := (placed_bounds h1).2
  have := it.lt_size c
  simp only [endPos] at *
  omega

/-- The store takes a clean block for `len` bytes: the block written to has no
    room, and the next with room is clean. -/
def TakesClean (c : KvConfig) (s : KvMgr) (len : ℕ) : Prop :=
  (s.blockInfo (s.writePos / blkSize)).space ≤ len ∧
    ∃ i, calcBlk c s len = some (some i) ∧ (s.blockInfo i).state = blkStateClean

theorem calcScan_spec {blkIndex fuel i : ℕ} (hi : i ≤ c.blkNums)
    {r : ℕ} (h : calcScan c s len blkIndex fuel i = some (some r)) :
    r < c.blkNums ∧ (s.blockInfo r).space > len := by
  induction fuel generalizing i with
  | zero => cases h
  | succ fuel ih =>
    have htwo := c.two_le
    rw [calcScan] at h
    by_cases hstop : i = blkIndex
    · rw [if_pos hstop] at h
      cases h
    · rw [if_neg hstop] at h
      have hj : (if i = c.blkNums then 0 else i) < c.blkNums := by split <;> omega
      generalize (if i = c.blkNums then 0 else i) = j at h hj
      by_cases hsp : (s.blockInfo j).space > len
      · simp only [if_pos hsp, Option.some.injEq] at h
        subst h
        exact ⟨hj, hsp⟩
      · simp only [if_neg hsp] at h
        exact ih hj h

theorem calcBlk_spec (hw : s.writePos / blkSize < c.blkNums) {i : ℕ}
    (h : calcBlk c s len = some (some i)) : i < c.blkNums ∧ (s.blockInfo i).space > len := by
  unfold calcBlk at h
  simp only at h
  split at h
  · exact calcScan_spec hw h
  · cases h

/-- **The write position** for `len` bytes: none, or the end of a block in use
    that has the room. -/
theorem Inv.calcPos (h : Inv c s d) {pos : ℕ} (he : kvItemCalcPos c s len = some (s', pos)) :
    ∃ d', Inv c s' d' ∧ SameItems d d' ∧
      (pos = 0 ∨ ∃ b < c.blkNums, (d' b).state ≠ some blkStateClean ∧ pos = endPos c d' b ∧
        blkHeaderSize + itemsSize c (d' b).items + len < blkSize) ∧
      s.cleanBlkNums ≤ s'.cleanBlkNums + 1 ∧
      (¬ TakesClean c s len → s'.cleanBlkNums = s.cleanBlkNums) ∧
      Grows s s' (Img c d) := by
  obtain ⟨b, hb, hst, hw⟩ := h.write
  have hdiv : s.writePos / blkSize = b := by rw [hw, endPos_div h.rep hb]
  have hsp := h.space b hb
  have hfit := (h.rep b hb).fits
  unfold kvItemCalcPos at he
  simp only at he
  split at he
  · -- the block written to has room
    rename_i hroom
    rw [hdiv] at hroom
    have hroom' : blkHeaderSize + itemsSize c (d b).items + len < blkSize := by omega
    split at he <;> cases he
    · exact ⟨d, ⟨⟨h.rep, h.state, h.space, h.clean, h.used⟩, h.count, h.write⟩, .refl,
        .inr ⟨b, hb, hst, hw, hroom'⟩, Nat.le_succ _, fun _ => rfl, .refl rfl⟩
    · exact ⟨d, h, .refl, .inr ⟨b, hb, hst, hw, hroom'⟩, Nat.le_succ _, fun _ => rfl, .refl rfl⟩
  · rename_i hnoroom
    split at he
    · cases he
    · cases he
      exact ⟨d, ⟨⟨h.rep, h.state, h.space, h.clean, h.used⟩, h.count, h.write⟩, .refl, .inl rfl,
        Nat.le_succ _, fun _ => rfl, .refl rfl⟩
    · rename_i i hcb
      cases he
      obtain ⟨hi, hisp⟩ := calcBlk_spec (by rw [hdiv]; exact hb) hcb
      have hspi := h.space i hi
      have hfiti := (h.rep i hi).fits
      have hroom : blkHeaderSize + itemsSize c (d i).items + len < blkSize := by omega
      have hpos : i * blkSize + blkSize - (s.blockInfo i).space = endPos c d i := by
        rw [hspi, endPos]
        omega
      by_cases hcl : (s.blockInfo i).state = blkStateClean
      · -- a clean block: it goes to `USED`
        have htk : s.takeBlk i =
            { (({ s with writePos := endPos c d i }.kvStateSet (i * blkSize) blkStateUsed).setBlkState
                i blkStateUsed) with cleanBlkNums := s.cleanBlkNums - 1 } := by
          unfold KvMgr.takeBlk
          rw [hpos]
          exact if_pos hcl
        have hmem : i ∈ cleanBlks c d := mem_cleanBlks.2 ⟨hi, by rw [h.state i hi, hcl]⟩
        have hcard := Finset.card_erase_of_mem hmem
        rw [htk]
        refine ⟨d.setState i blkStateUsed, ⟨⟨?_, fun b' hb' => ?_, fun b' hb' => ?_,
          fun b' hb' hcl' => ?_, fun b' hb' hus => ?_⟩, ?_, ⟨i, hi, ?_, ?_⟩⟩, sameItems_setState,
          .inr ⟨i, hi, ?_, ?_, ?_⟩, ?_, fun hn => absurd ⟨?_, i, hcb, hcl⟩ hn, .one rfl h.img⟩
        · refine h.rep.setState (by decide) ?_
          rw [h.state i hi]
          simp
        · rw [setState_state]
          simp only [KvMgr.setBlkState, KvMgr.setBlockInfo]
          split
          · rfl
          · exact h.state b' hb'
        · rw [sameItems_setState b', ← h.space b' hb']
          simp only [KvMgr.setBlkState, KvMgr.setBlockInfo]
          split
          · rename_i he; rw [he]; rfl
          · rfl
        · rw [setState_state] at hcl'
          rw [sameItems_setState b']
          split at hcl'
          · cases hcl'
          · exact h.clean b' hb' hcl'
        · rw [setState_state] at hus
          rw [sameItems_setState b']
          split at hus
          · rename_i he
            rw [he, h.clean i hi (by rw [h.state i hi, hcl])]
            simp
          · exact h.used b' hb' hus
        · rw [cleanBlks_setState (by decide), hcard, ← h.count]
        · rw [setState_state, if_pos rfl]
          decide
        · exact (sameItems_setState.endPos_eq (c := c)).symm
        · rw [setState_state, if_pos rfl]
          decide
        · exact (sameItems_setState.endPos_eq (c := c)).symm
        · rw [sameItems_setState i]
          exact hroom
        · show s.cleanBlkNums ≤ s.cleanBlkNums - 1 + 1
          omega
        · omega
      · -- a block in use
        have htk : s.takeBlk i = { s with writePos := endPos c d i } := by
          unfold KvMgr.takeBlk
          rw [hpos]
          exact if_neg hcl
        have hne : (d i).state ≠ some blkStateClean := by
          rw [h.state i hi]
          exact fun hc => hcl (Option.some.inj hc)
        rw [htk]
        exact ⟨d, ⟨⟨h.rep, h.state, h.space, h.clean, h.used⟩, h.count, i, hi, hne, rfl⟩, .refl,
          .inr ⟨i, hi, hne, rfl, hroom⟩, Nat.le_succ _, fun _ => rfl, .refl rfl⟩

/-- The item that `kv_item_store` writes. -/
def newItem (key val : List UInt8) (origin : ℕ) (hk : key.length ≤ itemMaxKeyLen)
    (hv : 0 < val.length ∧ val.length ≤ itemMaxValLen) (ho : origin < 65536) : Item :=
  ⟨true, key, val, origin, hk, hv.1, hv.2, ho⟩

theorem Inv.append (h : Inv c s d) (hb : b < c.blkNums) (hst : (d b).state ≠ some blkStateClean)
    (hl : it.live = true)
    (hfit : blkHeaderSize + itemsSize c (d b).items + it.size c < blkSize)
    (hrep : Rep c s'.flash (d.append b it)) (hcount : s'.cleanBlkNums = s.cleanBlkNums)
    (hw : s'.writePos = endPos c d b + it.size c)
    (hinfo : s'.blockInfo = (s.setSpace b ((s.blockInfo b).space - it.size c)).blockInfo) :
    Inv c s' (d.append b it) := by
  have hsp := h.space b hb
  have hitems : ∀ b', (d.append b it b').items =
      if b' = b then (d b).items ++ [it] else (d b').items := by
    intro b'
    by_cases he : b' = b
    · subst he
      rw [Log.append, Function.update_self, if_pos rfl]
    · rw [Log.append, Function.update_of_ne he, if_neg he]
  have hstate : ∀ b', (d.append b it b').state = (d b').state := by
    intro b'
    by_cases he : b' = b
    · subst he
      rw [Log.append, Function.update_self]
    · rw [Log.append, Function.update_of_ne he]
  refine ⟨⟨hrep, fun b' hb' => ?_, fun b' hb' => ?_, fun b' hb' hcl => ?_, fun b' hb' hus => ?_⟩,
    ?_, b, hb, ?_, ?_⟩
  · rw [hstate, h.state b' hb', hinfo]
    simp only [KvMgr.setSpace, KvMgr.setBlockInfo]
    split
    · rename_i he; rw [he]
    · rfl
  · rw [hinfo, hitems]
    simp only [KvMgr.setSpace, KvMgr.setBlockInfo]
    split
    · rw [itemsSize_append, itemsSize_cons, itemsSize_nil]
      show (s.blockInfo b).space - it.size c = _
      omega
    · exact h.space b' hb'
  · rw [hstate] at hcl
    have hne : b' ≠ b := fun he => hst (he ▸ hcl)
    rw [hitems, if_neg hne]
    exact h.clean b' hb' hcl
  · rw [hstate] at hus
    have := h.used b' hb' hus
    rw [hitems]
    split
    · rename_i he
      subst he
      intro x hx
      rcases List.mem_append.1 hx with hx | hx
      · exact this x hx
      · rw [List.mem_singleton.1 hx]
        exact hl
    · exact this
  · rw [hcount, h.count, cleanBlks_congr hstate]
  · rw [hstate]
    exact hst
  · rw [hw, endPos, endPos, hitems, if_pos rfl, itemsSize_append, itemsSize_cons, itemsSize_nil]
    omega

/-- **Storing an item**: it does not fit, or it is valid afterwards, at an
    offset where there was none. -/
theorem Inv.store (h : Inv c s d) {key val : List UInt8} {origin : ℕ} {r : KvRes}
    (hk : key.length ≤ itemMaxKeyLen) (hv : 0 < val.length ∧ val.length ≤ itemMaxValLen)
    (ho : origin < 65536) (he : kvItemStore c s key val origin = some (s', r)) :
    (∃ d', Inv c s' d' ∧ Grows s s' (Img c d) ∧
      (r = .noSpace ∧ SameItems d d' ∨
        r = .ok ∧ ∃ p, (∀ x, ¬ At c d p x) ∧ ∀ q x, Lives c d' q x ↔
          Lives c d q x ∨ q = p ∧ x = newItem key val origin hk hv ho)) ∧
    s.cleanBlkNums ≤ s'.cleanBlkNums + 1 ∧
    (¬ TakesClean c s (c.align (itemHeaderSize + key.length + val.length)) →
      s'.cleanBlkNums = s.cleanBlkNums) := by
  unfold kvItemStore at he
  simp only at he
  split at he
  · cases he
  · rename_i s₁ pos hcp
    obtain ⟨d1, hinv, hsame, hpos, hle, hnt, hg⟩ := h.calcPos hcp
    rcases hpos with rfl | ⟨b, hb, hst, rfl, hfit⟩
    · rw [if_neg (Nat.lt_irrefl 0)] at he
      cases he
      exact ⟨⟨d1, hinv, hg, .inl ⟨rfl, hsame⟩⟩, hle, hnt⟩
    · have hpos : endPos c d1 b > 0 := by unfold endPos blkHeaderSize; omega
      rw [if_pos hpos] at he
      cases he
      have hend : (endPos c d1 b + c.align (itemHeaderSize + key.length + val.length)) / blkSize =
          b := by
        unfold endPos
        simp only [blkSize, blkHeaderSize] at *
        omega
      have hrep := hinv.rep.append (newItem key val origin hk hv ho)
        (by rw [hinv.state b hb]; simp) hfit
      refine ⟨⟨d1.append b (newItem key val origin hk hv ho), ?_, ?_, .inr ⟨rfl, endPos c d1 b,
        fun x hx => ?_, fun q x => ?_⟩⟩, hle, hnt⟩
      · refine hinv.append hb hst rfl hfit hrep rfl rfl ?_
        simp only [hend]
        rfl
      · refine hg.trans (Grows.one rfl ?_)
        exact hinv.img.congr fun _ _ => hsame.lives_iff
      · exact not_at_endPos hinv.rep hb (hsame.at_iff.2 hx)
      · rw [Lives, at_append hb, Lives, hsame.at_iff]
        constructor
        · rintro ⟨hx | hx, hlx⟩
          · exact .inl ⟨hx, hlx⟩
          · exact .inr hx
        · rintro (⟨hx, hlx⟩ | ⟨rfl, rfl⟩)
          · exact ⟨.inl hx, hlx⟩
          · exact ⟨.inr ⟨rfl, rfl⟩, rfl⟩

end Kv
