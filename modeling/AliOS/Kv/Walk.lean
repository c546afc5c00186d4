/-
  Key-value store: what a traversal does to a chained block.

  `Imgs c s rows` says that the blocks of the partition are chained, now and in
  every image since the last `aos_kv_init`; `Dirtied s s'` that at most states of
  blocks went from `USED` to `DIRTY`.  Deletions, the callbacks and the traversal
  keep both, and stay in their widths (`traverse_chained`).
-/
import AliOS.Kv.Rows

namespace Kv

open Lib

variable {c : KvConfig} {rows rows' : ℕ → List ℕ} {s s' s'' : KvMgr} {b pos q n : ℕ} {ns : List ℕ}

/-! ## Images -/

variable (c) in
/-- The partition is chained, and was between any two flash operations. -/
structure Imgs (s : KvMgr) (rows : ℕ → List ℕ) : Prop where
  chained : AllChained c s.flash rows
  past : ∀ f ∈ s.past, ∃ rows', AllChained c f rows'

theorem Imgs.op (h : Imgs c s rows) (hpast : s'.past = s.flash :: s.past) (hchained : AllChained c s'.flash rows') :
    Imgs c s' rows' := by
  refine ⟨hchained, fun f hf => ?_⟩
  rw [hpast] at hf
  rcases List.mem_cons.1 hf with rfl | hf
  · exact ⟨rows, h.chained⟩
  · exact h.past f hf

theorem Imgs.same (h : Imgs c s rows) (hflash : s'.flash = s.flash) (hpast : s'.past = s.past) : Imgs c s' rows :=
  ⟨by rw [hflash]; exact h.chained, by rw [hpast]; exact h.past⟩

/-- At most states of blocks go from `USED` to `DIRTY`. -/
structure Dirtied (s s' : KvMgr) : Prop where
  writePos : s'.writePos = s.writePos
  cleanBlkNums : s'.cleanBlkNums = s.cleanBlkNums
  space : ∀ b, (s'.blockInfo b).space = (s.blockInfo b).space
  state : ∀ b, (s'.blockInfo b).state = (s.blockInfo b).state ∨
    (s.blockInfo b).state = blkStateUsed ∧ (s'.blockInfo b).state = blkStateDirty

theorem Dirtied.refl (s : KvMgr) : Dirtied s s := ⟨rfl, rfl, fun _ => rfl, fun _ => .inl rfl⟩

theorem Dirtied.trans (h : Dirtied s s') (h' : Dirtied s' s'') : Dirtied s s'' := by
  refine ⟨h'.writePos.trans h.writePos, h'.cleanBlkNums.trans h.cleanBlkNums,
    fun b => (h'.space b).trans (h.space b), fun b => ?_⟩
  rcases h.state b with he | ⟨hused, hdirty⟩
  · rw [← he]
    exact h'.state b
  · refine .inr ⟨hused, ?_⟩
    rcases h'.state b with he | ⟨hused', -⟩
    · rw [he, hdirty]
    · rw [hdirty] at hused'
      cases hused'

theorem Dirtied.clean_iff (h : Dirtied s s') (b : ℕ) :
    (s'.blockInfo b).state = blkStateClean ↔ (s.blockInfo b).state = blkStateClean := by
  rcases h.state b with he | ⟨hused, hdirty⟩
  · rw [he]
  · rw [hused, hdirty]
    decide

/-- The bytes of items: all but those of the block headers. -/
def ItemBytes (f f' : Flash) : Prop := ∀ o, blkHeaderSize ≤ o % blkSize → f' o = f o

/-! ## A block that becomes dirty -/

theorem kvStateSetFit_eq {state : UInt8} (h : pos < 2 ^ 16) : kvStateSetFit s pos state = .ok (s.kvStateSet pos state) := by
  unfold kvStateSetFit
  rw [fit16_bind h]
  rfl

theorem blkStart_lt (hb : b < 16) : b * blkSize < 2 ^ 16 := by
  unfold blkSize
  omega

theorem markDirtyFit_eq (hb : b < 16) : markDirtyFit s b = .ok (s.markDirty b) := by
  unfold markDirtyFit KvMgr.markDirty
  split_ifs
  · rw [kvStateSetFit_eq (blkStart_lt hb)]
    rfl
  · rfl

theorem Imgs.markDirty (h : Imgs c s rows) (b : ℕ) : Imgs c (s.markDirty b) rows := by
  unfold KvMgr.markDirty
  split_ifs
  · exact h.op rfl (h.chained.blkState b _)
  · exact h

theorem Dirtied.markDirty (s : KvMgr) (b : ℕ) : Dirtied s (s.markDirty b) := by
  unfold KvMgr.markDirty
  split_ifs with hused
  · refine ⟨rfl, rfl, fun b' => ?_, fun b' => ?_⟩
    · unfold KvMgr.setBlkState KvMgr.setBlockInfo
      dsimp only
      split_ifs with he
      · rw [he]
        rfl
      · rfl
    · unfold KvMgr.setBlkState KvMgr.setBlockInfo
      dsimp only
      split_ifs with he
      · rw [he]
        exact .inr ⟨hused, rfl⟩
      · exact .inl rfl
  · exact .refl s

/-! ## Deleting -/

theorem kvItemRemoveFit_eq (hq : q < 2 ^ 16) : kvItemRemoveFit s q = .ok (kvItemRemove s q) := by
  have hblk : q / blkSize < 16 := by
    unfold blkSize
    omega
  unfold kvItemRemoveFit
  rw [fit16_bind hq, kvStateSetFit_eq hq, ok_bind, fit8_bind (by omega), markDirtyFit_eq hblk]
  rfl

theorem Imgs.remove (h : Imgs c s rows) (hq : q % 4 = 0) (hmagic : s.flash q = itemMagicNum)
    (hstate : s.flash (q + 1) = itemStateNormal) : Imgs c (kvItemRemove s q) rows :=
  Imgs.markDirty (h.op rfl (h.chained.kill hq hmagic hstate)) _

theorem Dirtied.remove (s : KvMgr) (q : ℕ) : Dirtied s (kvItemRemove s q) := by
  have hset : Dirtied s (s.kvStateSet q itemStateDelete) := ⟨rfl, rfl, fun _ => rfl, fun _ => .inl rfl⟩
  exact hset.trans (.markDirty _ _)

theorem le16_lt (lo hi : UInt8) : le16 lo hi < 2 ^ 16 := by
  have hlo := lo.toNat_lt
  have hhi := hi.toNat_lt
  unfold le16
  omega

/-- The item at the position of a header. -/
def itemAt (f : Flash) (pos : ℕ) : KvItem :=
  ⟨readItemHdr f pos, [], (readItemHdr f pos).keyLen + (readItemHdr f pos).valLen, pos⟩

theorem recoveryCb_keeps (h : Imgs c s rows) (hhead : HeaderAt c s.flash pos n) (hmod : pos % 4 = 0) (hpos : pos < 2 ^ 16)
    (hstate : (readItemHdr s.flash pos).state = itemStateNormal) :
    ∃ s', itemRecoveryCbFit (itemAt s.flash pos) s = .ok (s', itemAt s.flash pos, .cont) ∧ Imgs c s' rows ∧ Dirtied s s' := by
  have horigin : (itemAt s.flash pos).hdr.originOff < 2 ^ 16 := le16_lt _ _
  unfold itemRecoveryCbFit
  split_ifs with hcrc hback
  · -- the item that this one replaces
    unfold kvItemDelOrigFit
    rw [fit16_bind horigin]
    by_cases hmatch : OrigMatches s.flash (itemAt s.flash pos)
    · rw [if_pos hmatch, kvItemRemoveFit_eq horigin]
      exact ⟨_, rfl, h.remove hhead.origin hmatch.1 hmatch.2.1, .remove s _⟩
    · rw [if_neg hmatch]
      exact ⟨s, rfl, h, .refl s⟩
  · exact ⟨s, rfl, h, .refl s⟩
  · -- an item that is not intact
    rw [kvItemRemoveFit_eq (show (itemAt s.flash pos).pos < 2 ^ 16 from hpos)]
    exact ⟨_, rfl, h.remove hmod hhead.magic hstate, .remove s _⟩

/-! ## Traversal -/

section
variable {J : List ℕ → KvMgr → Prop} {K : KvItem → KvMgr → Prop} {func : ItemFuncFit} {ns₀ : List ℕ}

/-- What a callback has to do for a traversal of the block `b` with the items `ns₀`: from one
    rest of them to the next, or to a result. -/
structure Walks (c : KvConfig) (func : ItemFuncFit) (b : ℕ) (ns₀ : List ℕ) (J : List ℕ → KvMgr → Prop)
    (K : KvItem → KvMgr → Prop) : Prop where
  chained : ∀ {ns s}, J ns s → Chained c s.flash b ns₀
  skip : ∀ {n ns s}, J (n :: ns) s → J ns (s.markDirty b)
  func : ∀ {pos n ns s}, J (n :: ns) s → HeaderAt c s.flash pos n → b * blkSize + blkHeaderSize ≤ pos → pos % 4 = 0 →
    pos + n ≤ rowEnd b ns₀ → (readItemHdr s.flash pos).state = itemStateNormal →
      (∃ s' item, func (itemAt s.flash pos) s = .ok (s', item, .cont) ∧ J ns s') ∨
        ∃ s' item, func (itemAt s.flash pos) s = .ok (s', item, .ok) ∧ K item s'

/-- What a traversal leaves. -/
def Walked (b : ℕ) (ns₀ : List ℕ) (J : List ℕ → KvMgr → Prop) (K : KvItem → KvMgr → Prop)
    (out : Fit (KvMgr × Option KvItem)) : Prop :=
  (∃ s, J [] s ∧ out = .ok (s.setSpace b (blkSize - (blkHeaderSize + ns₀.sum)), none)) ∨
    ∃ s item, K item s ∧ out = .ok (s, some item)

theorem row_mod (h : Row c s.flash pos ns) (hpos : pos % 4 = 0) : (pos + ns.sum) % 4 = 0 := by
  induction ns generalizing pos with
  | nil => rwa [List.sum_nil, Nat.add_zero]
  | cons n ns ih =>
    have hmod := h.1.mod
    have hrest := ih h.2 (by omega)
    rwa [List.sum_cons, ← Nat.add_assoc]

/-- Behind the items of a block the loop ends, and the rest of the block is free. -/
theorem traverseLoop_end (h : Chained c s.flash b ns) (fuel : ℕ) :
    traverseLoopFit c.size func b fuel (rowEnd b ns) s = .ok (s.setSpace b (blkSize - (blkHeaderSize + ns.sum)), none) := by
  have hlt := h.end_lt
  have hout : traverseEnd s b (rowEnd b ns) = s.setSpace b (blkSize - (blkHeaderSize + ns.sum)) := by
    unfold traverseEnd
    dsimp only
    rw [if_pos hlt]
    unfold rowEnd
    congr 1
    omega
  rw [← hout]
  cases fuel with
  | zero => rfl
  | succ fuel =>
    unfold traverseLoopFit
    by_cases hread : b * blkSize + blkSize > rowEnd b ns + itemHeaderSize
    · -- what is read there is erased
      have hmagic : (readItemHdr s.flash (rowEnd b ns)).magic = 0xFF := h.erased _ (Nat.le_refl _) hlt
      have hstate : (readItemHdr s.flash (rowEnd b ns)).state = 0xFF :=
        h.erased _ (Nat.le_succ _) (by unfold itemHeaderSize at hread; omega)
      rw [if_pos hread]
      rw [if_pos ⟨hmagic, hstate⟩]
      rfl
    · rw [if_neg hread]
      rfl

theorem HeaderAt.turn (h : HeaderAt c s.flash pos n) (hread : b * blkSize + blkSize > pos + itemHeaderSize) (fuel : ℕ) :
    traverseLoopFit c.size func b (fuel + 1) pos s =
      (if (readItemHdr s.flash pos).state = itemStateNormal then do
        match ← func (itemAt s.flash pos) s with
        | (s, item, .ok) => return (s, some item)
        | (s, _, .cont) =>
          fit16 (pos + n)
          traverseLoopFit c.size func b fuel (pos + n) s
        | (s, _, _) => return (s, none)
      else do
        let s ← markDirtyFit s b
        fit16 (pos + n)
        traverseLoopFit c.size func b fuel (pos + n) s) := by
  have hsize : c.size.align (itemHeaderSize + (readItemHdr s.flash pos).keyLen + (readItemHdr s.flash pos).valLen) = n := h.size
  have herased : ¬ ((readItemHdr s.flash pos).magic = 0xFF ∧ (readItemHdr s.flash pos).state = 0xFF) := by
    rintro ⟨he, -⟩
    exact absurd (h.magic.symm.trans he) (by decide)
  have hskip : ¬ ((readItemHdr s.flash pos).magic ≠ itemMagicNum ∨ (readItemHdr s.flash pos).valLen > itemMaxValLen ∨
      (readItemHdr s.flash pos).keyLen > itemMaxKeyLen) := by
    rintro (hne | hval | hkey)
    · exact hne h.magic
    · exact absurd h.valLen (Nat.not_le.2 hval)
    · exact absurd h.keyLen (Nat.not_le.2 hkey)
  rw [traverseLoopFit, if_pos hread]
  rw [if_neg herased, if_neg hskip, hsize]
  rfl

theorem traverseLoop_walks (hb : b < 15) (h : Walks c func b ns₀ J K) {pre : List ℕ} (hs : J ns s) (hpre : ns₀ = pre ++ ns)
    {fuel : ℕ} (hfuel : b * blkSize + blkSize ≤ b * blkSize + blkHeaderSize + pre.sum + itemHeaderSize * fuel) :
    Walked b ns₀ J K (traverseLoopFit c.size func b fuel (b * blkSize + blkHeaderSize + pre.sum) s) := by
  induction ns generalizing pre s fuel with
  | nil =>
    rw [List.append_nil] at hpre
    subst hpre
    exact .inl ⟨s, hs, traverseLoop_end (h.chained hs) fuel⟩
  | cons n ns ih =>
    have hchained := h.chained hs
    have hrow := hchained.row
    rw [hpre, row_append] at hrow
    obtain ⟨hbefore, hhead, -⟩ := hrow
    have hsum : ns₀.sum = pre.sum + n + ns.sum := by
      rw [hpre, List.sum_append, List.sum_cons, Nat.add_assoc]
    have hlt := hchained.end_lt
    have hge := hhead.size_ge
    have hend : rowEnd b ns₀ = b * blkSize + blkHeaderSize + ns₀.sum := rfl
    have h8 : itemHeaderSize = 8 := rfl
    have hmod := row_mod hbefore (blkStart_mod b)
    have hlast : b * blkSize + blkSize ≤ 61440 := by
      unfold blkSize
      omega
    have hpre' : ns₀ = (pre ++ [n]) ++ ns := by rw [hpre, List.append_assoc, List.singleton_append]
    have hnext : b * blkSize + blkHeaderSize + (pre ++ [n]).sum = b * blkSize + blkHeaderSize + pre.sum + n := by
      rw [List.sum_append, List.sum_singleton]
      omega
    have hle : b * blkSize + blkHeaderSize ≤ b * blkSize + blkHeaderSize + pre.sum := Nat.le_add_right _ _
    cases fuel with
    | zero => omega
    | succ fuel =>
      have hrest : ∀ {s}, J ns s → Walked b ns₀ J K
          (traverseLoopFit c.size func b fuel (b * blkSize + blkHeaderSize + pre.sum + n) s) := by
        intro s hs
        rw [Nat.mul_succ] at hfuel
        rw [← hnext]
        refine ih hs hpre' ?_
        omega
      generalize hp : b * blkSize + blkHeaderSize + pre.sum = p at *
      rw [hhead.turn (by omega)]
      by_cases hnormal : (readItemHdr s.flash p).state = itemStateNormal
      · rw [if_pos hnormal]
        rcases h.func hs hhead hle hmod (by omega) hnormal with ⟨s₁, item, hrun, hs1⟩ | ⟨s₁, item, hrun, hs1⟩
        · rw [hrun, ok_bind]
          dsimp only
          rw [fit16_bind (by omega)]
          exact hrest hs1
        · rw [hrun, ok_bind]
          exact .inr ⟨s₁, item, hs1, rfl⟩
      · rw [if_neg hnormal, markDirtyFit_eq (by omega), ok_bind, fit16_bind (by omega)]
        exact hrest (h.skip hs)

/-- **A traversal** of a chained block comes to the end of the block's items, or to a result. -/
theorem traverse_chained (hb : b < 15) (h : Walks c func b ns₀ J K) (hs : J ns₀ s) :
    Walked b ns₀ J K (kvItemTraverseFit c.size func b s) := by
  have hfuel : b * blkSize + blkSize ≤
      b * blkSize + blkHeaderSize + ([] : List ℕ).sum + itemHeaderSize * (blkSize / itemHeaderSize) := by
    have hturns : itemHeaderSize * (blkSize / itemHeaderSize) = blkSize := by decide
    omega
  have hloop := traverseLoop_walks hb h hs rfl hfuel
  rw [List.sum_nil, Nat.add_zero] at hloop
  have hlast : b * blkSize + blkSize ≤ 61440 := by
    unfold blkSize
    omega
  unfold kvItemTraverseFit
  rw [fit8_bind (by omega), fit16_bind (by unfold blkSize blkHeaderSize at *; omega), fit16_bind (by omega)]
  exact hloop

end

end Kv
