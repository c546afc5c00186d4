/-
  Key-value store: the calls of the interface keep the blocks chained.

  `Good c s rows` says that the manager `s` knows where the items of each block
  end, and writes next behind those of a block in use.  A call from such a manager
  stays in its widths and leaves such a manager, if it returns.
-/
import AliOS.Kv.Settle
import AliOS.Kv.Walk

namespace Kv

open Lib

variable {c : KvConfig} {rows : ℕ → List ℕ} {s s' : KvMgr} {b g i pos q n len : ℕ} {ns : List ℕ}
  {key val : List UInt8} {item : KvItem}

/-! ## Managers -/

variable (c) in
/-- The blocks are chained, and the manager knows their ends. -/
structure Good (s : KvMgr) (rows : ℕ → List ℕ) : Prop extends Imgs c s rows where
  space : ∀ b < c.blkNums, (s.blockInfo b).space = blkSize - (blkHeaderSize + (rows b).sum)
  clean : ∀ b < c.blkNums, (s.blockInfo b).state = blkStateClean → rows b = []
  write : ∃ b < c.blkNums, (s.blockInfo b).state ≠ blkStateClean ∧ s.writePos = rowEnd b (rows b)

theorem Good.dirtied (h : Good c s rows) (himgs : Imgs c s' rows) (hd : Dirtied s s') : Good c s' rows := by
  obtain ⟨b, hb, hstate, hpos⟩ := h.write
  refine ⟨himgs, fun b hb => (hd.space b).trans (h.space b hb), fun b hb hc => h.clean b hb ((hd.clean_iff b).1 hc),
    b, hb, fun hc => hstate ((hd.clean_iff b).1 hc), hd.writePos.trans hpos⟩

theorem Good.same (h : Good c s rows) (hflash : s'.flash = s.flash) (hpast : s'.past = s.past)
    (hinfo : s'.blockInfo = s.blockInfo) (hwrite : s'.writePos = s.writePos) : Good c s' rows :=
  ⟨h.toImgs.same hflash hpast, by rw [hinfo]; exact h.space, by rw [hinfo]; exact h.clean,
    by rw [hinfo, hwrite]; exact h.write⟩

theorem setBlkState_state (s : KvMgr) (i : ℕ) (state : UInt8) (b : ℕ) :
    ((s.setBlkState i state).blockInfo b).state = if b = i then state else (s.blockInfo b).state := by
  rw [setBlkState_info]
  split_ifs
  · rfl
  · rfl

theorem setBlkState_space (s : KvMgr) (i : ℕ) (state : UInt8) (b : ℕ) :
    ((s.setBlkState i state).blockInfo b).space = (s.blockInfo b).space := by
  rw [setBlkState_info]
  split_ifs with he
  · rw [he]
  · rfl

theorem setSpace_space (s : KvMgr) (i n b : ℕ) : ((s.setSpace i n).blockInfo b).space = if b = i then n else (s.blockInfo b).space := by
  unfold KvMgr.setSpace KvMgr.setBlockInfo
  dsimp only
  split_ifs
  · rfl
  · rfl

theorem rowEnd_div (h : Chained c s.flash b ns) : rowEnd b ns / blkSize = b := by
  have hroom := h.room
  unfold rowEnd blkSize blkHeaderSize at *
  omega

theorem rowEnd_add_div (hroom : blkHeaderSize + ns.sum + n < blkSize) : (rowEnd b ns + n) / blkSize = b := by
  unfold rowEnd blkSize blkHeaderSize at *
  omega

theorem rowEnd_append (b : ℕ) (ns : List ℕ) (n : ℕ) : rowEnd b (ns ++ [n]) = rowEnd b ns + n := by
  unfold rowEnd
  rw [List.sum_append, List.sum_singleton]
  omega

theorem Good.writeBlk (h : Good c s rows) : s.writePos / blkSize < c.blkNums := by
  obtain ⟨b, hb, -, hpos⟩ := h.write
  rw [hpos, rowEnd_div (h.chained b hb)]
  exact hb

theorem Good.remove (h : Good c s rows) (hq : q % 4 = 0) (hmagic : s.flash q = itemMagicNum)
    (hstate : s.flash (q + 1) = itemStateNormal) : Good c (kvItemRemove s q) rows :=
  h.dirtied (h.toImgs.remove hq hmagic hstate) (.remove s q)

/-! ## Lookup -/

variable (c) in
/-- The item is one of the key, in one of the blocks. -/
structure FoundAt (f : Flash) (rows : ℕ → List ℕ) (key : List UInt8) (item : KvItem) : Prop where
  inside : ∃ b < c.blkNums, b * blkSize + blkHeaderSize ≤ item.pos ∧
    item.pos + itemHeaderSize + key.length ≤ rowEnd b (rows b)
  mod : item.pos % 4 = 0
  magic : f item.pos = itemMagicNum
  state : f (item.pos + 1) = itemStateNormal
  keyLen : (readItemHdr f item.pos).keyLen = key.length
  key : rawRead f (item.pos + itemHeaderSize) key.length = key

theorem FoundAt.pos_lt {f : Flash} (h : FoundAt c f rows key item) (hchained : AllChained c f rows) : item.pos < 61440 := by
  obtain ⟨b, hb, -, hend⟩ := h.inside
  have hlt := (hchained b hb).end_lt
  have hlast := c.le_fifteen
  unfold itemHeaderSize blkSize at *
  omega

theorem FoundAt.pos_ne {f : Flash} (h : FoundAt c f rows key item) : item.pos ≠ 0 := by
  obtain ⟨b, -, hstart, -⟩ := h.inside
  unfold blkHeaderSize at hstart
  omega

theorem FoundAt.same {f f' : Flash} (h : FoundAt c f rows key item)
    (hsame : ∀ i < itemHeaderSize + key.length, f' (item.pos + i) = f (item.pos + i)) : FoundAt c f' rows key item := by
  have hkey : (readItemHdr f' item.pos).keyLen = (readItemHdr f item.pos).keyLen := by
    unfold readItemHdr
    rw [hsame 3 (by unfold itemHeaderSize; omega)]
  have hread : rawRead f' (item.pos + itemHeaderSize) key.length = rawRead f (item.pos + itemHeaderSize) key.length :=
    slice_congr fun i hi => by
      rw [Nat.add_assoc]
      exact hsame _ (by omega)
  exact ⟨h.inside, h.mod, (hsame 0 (by unfold itemHeaderSize; omega)).trans h.magic,
    (hsame 1 (by unfold itemHeaderSize; omega)).trans h.state, hkey.trans h.keyLen, hread.trans h.key⟩

theorem FoundAt.bytes {f f' : Flash} (h : FoundAt c f rows key item) (hchained : AllChained c f rows)
    (hsame : ItemBytes f f') : FoundAt c f' rows key item := by
  obtain ⟨b, hb, hstart, hend⟩ := h.inside
  have hlt := (hchained b hb).end_lt
  refine h.same fun i hi => hsame _ ?_
  unfold blkSize blkHeaderSize at *
  omega

theorem FoundAt.behind {f f' : Flash} (h : FoundAt c f rows key item) (hchained : AllChained c f rows) (hb : b < c.blkNums)
    (hend : rowEnd b (rows b) + n < b * blkSize + blkSize)
    (hout : ∀ o, o < rowEnd b (rows b) ∨ rowEnd b (rows b) + n ≤ o → f' o = f o) : FoundAt c f' rows key item := by
  obtain ⟨b', hb', hstart', hend'⟩ := h.inside
  have hlt' := (hchained b' hb').end_lt
  have hstart : b * blkSize + blkHeaderSize ≤ rowEnd b (rows b) := Nat.le_add_right _ _
  refine h.same fun i hi => hout _ ?_
  by_cases hne : b' = b
  · subst hne
    omega
  · unfold blkSize blkHeaderSize at *
    omega

theorem walks_find (s : KvMgr) (hb : b < c.blkNums) (key : List UInt8) :
    Walks c (itemFindCbFit key) b (rows b) (fun _ s' => Imgs c s' rows ∧ Dirtied s s')
      fun item s' => (Imgs c s' rows ∧ Dirtied s s') ∧ FoundAt c s'.flash rows key item where
  chained hJ := hJ.1.chained b hb
  skip hJ := ⟨hJ.1.markDirty b, hJ.2.trans (.markDirty _ b)⟩
  func := by
    intro pos n ns s₁ hJ hhead hstart hmod hend hnormal
    unfold itemFindCbFit itemFindCb
    by_cases hlen : (itemAt s₁.flash pos).hdr.keyLen ≠ key.length
    · rw [if_pos hlen]
      exact .inl ⟨_, _, rfl, hJ⟩
    rw [if_neg hlen]
    dsimp only
    rw [not_not] at hlen
    have hkeyLen : (readItemHdr s₁.flash pos).keyLen = key.length := hlen
    have hstore : (rawRead s₁.flash ((itemAt s₁.flash pos).pos + itemHeaderSize) (itemAt s₁.flash pos).len).take key.length =
        rawRead s₁.flash (pos + itemHeaderSize) key.length := by
      unfold itemAt rawRead
      dsimp only
      rw [hkeyLen, slice_append, List.take_left' (slice_length ..)]
    rw [hstore]
    by_cases hkey : rawRead s₁.flash (pos + itemHeaderSize) key.length = key
    · rw [if_pos hkey]
      refine .inr ⟨_, _, rfl, hJ, ⟨b, hb, hstart, ?_⟩, hmod, hhead.magic, hnormal, hkeyLen, hkey⟩
      have hsize := hhead.size
      have halign := c.le_align (itemHeaderSize + (readItemHdr s₁.flash pos).keyLen + (readItemHdr s₁.flash pos).valLen)
      show pos + itemHeaderSize + key.length ≤ _
      omega
    · rw [if_neg hkey]
      exact .inl ⟨_, _, rfl, hJ⟩

theorem Good.getFrom (h : Good c s rows) (key : List UInt8) {k : ℕ} (hk : i + k = c.blkNums) :
    ∃ s' r, itemGetFromFit c.size key k i s = .ok (s', r) ∧ Good c s' rows ∧
      ∀ item, r = some item → FoundAt c s'.flash rows key item := by
  have hlast := c.le_fifteen
  induction k generalizing i s with
  | zero => exact ⟨s, none, rfl, h, fun _ hr => absurd hr (by simp)⟩
  | succ k ih =>
    have hi : i < c.blkNums := by omega
    unfold itemGetFromFit
    by_cases hclean : (s.blockInfo i).state ≠ blkStateClean
    · rw [if_pos hclean]
      rcases traverse_chained (by omega) (walks_find s hi key) ⟨h.toImgs, .refl s⟩ with
        ⟨s₁, ⟨himgs, hd⟩, hrun⟩ | ⟨s₁, item, ⟨⟨himgs, hd⟩, hfound⟩, hrun⟩
      · -- the space of the block is what it was
        have hspace := (hd.space i).trans (h.space i hi)
        rw [hrun, setSpace_self hspace, ok_bind]
        dsimp only
        rw [fit8_bind (by omega)]
        exact ih (h.dirtied himgs hd) (by omega)
      · rw [hrun, ok_bind]
        refine ⟨s₁, some item, rfl, h.dirtied himgs hd, fun item' hr => ?_⟩
        cases hr
        exact hfound
    · rw [if_neg hclean, fit8_bind (by omega)]
      exact ih h (by omega)

theorem Good.get (h : Good c s rows) (key : List UInt8) :
    ∃ s' r, kvItemGetFit c.size key s = .ok (s', r) ∧ Good c s' rows ∧
      ∀ item, r = some item → FoundAt c s'.flash rows key item := h.getFrom key (Nat.zero_add _)

/-! ## Where an item is written -/

theorem calcScanFit_spec (c : KvConfig) (s : KvMgr) (len blkIndex fuel : ℕ) (hi : i ≤ c.blkNums) :
    calcScanFit c.size s len blkIndex fuel i = .error .hangs ∨ calcScanFit c.size s len blkIndex fuel i = .ok none ∨
      ∃ j < c.blkNums, calcScanFit c.size s len blkIndex fuel i = .ok (some j) ∧ len < (s.blockInfo j).space := by
  have htwo := c.two_le
  have hlast := c.le_fifteen
  induction fuel generalizing i with
  | zero => exact .inl rfl
  | succ fuel ih =>
    unfold calcScanFit
    by_cases hback : i = blkIndex
    · rw [if_pos hback]
      exact .inr (.inl rfl)
    rw [if_neg hback]
    have hj : (if i = c.size.blkNums then 0 else i) < c.blkNums := by
      show (if i = c.blkNums then 0 else i) < c.blkNums
      split_ifs
      · omega
      · omega
    generalize (if i = c.size.blkNums then 0 else i) = j at hj
    by_cases hroom : (s.blockInfo j).space > len
    · rw [if_pos hroom]
      exact .inr (.inr ⟨j, hj, rfl, hroom⟩)
    · rw [if_neg hroom, fit8_bind (by omega)]
      exact ih hj

theorem Good.takeBlk (h : Good c s rows) (hi : i < c.blkNums) :
    ∃ s', takeBlkFit s i = .ok s' ∧ Good c s' rows ∧ ItemBytes s.flash s'.flash ∧ s'.writePos = rowEnd i (rows i) ∧
      (s'.blockInfo i).state ≠ blkStateClean := by
  have hlast := c.le_fifteen
  have hroom := (h.chained i hi).room
  have hpos : i * blkSize + blkSize - (s.blockInfo i).space = rowEnd i (rows i) := by
    rw [h.space i hi]
    unfold rowEnd
    omega
  unfold takeBlkFit
  rw [hpos, fit16_bind (by unfold rowEnd blkSize at *; omega)]
  by_cases hclean : (s.blockInfo i).state = blkStateClean
  · rw [if_pos hclean, kvStateSetFit_eq (blkStart_lt (by omega)), ok_bind]
    refine ⟨_, rfl, ⟨?_, fun b hb => ?_, fun b hb hc => ?_, i, hi, ?_, rfl⟩, fun o ho => ?_, rfl, ?_⟩
    · exact h.toImgs.op rfl (h.chained.blkState i _)
    · exact (setBlkState_space ..).trans (h.space b hb)
    · rw [setBlkState_state] at hc
      split_ifs at hc with he
      · exact absurd hc (show blkStateUsed ≠ blkStateClean by decide)
      · exact h.clean b hb hc
    · rw [setBlkState_state, if_pos rfl]
      exact (by decide : blkStateUsed ≠ blkStateClean)
    · refine rawWrite_out (s := { s with writePos := rowEnd i (rows i) }) ?_
      rw [List.length_singleton]
      unfold blkHeaderSize blkSize at *
      omega
    · rw [setBlkState_state, if_pos rfl]
      exact (by decide : blkStateUsed ≠ blkStateClean)
  · rw [if_neg hclean]
    exact ⟨_, rfl, ⟨h.toImgs.same rfl rfl, h.space, h.clean, i, hi, hclean, rfl⟩, fun _ _ => rfl, rfl, hclean⟩

/-- **The position** for `len` bytes: none, or the end of the items of a block in use that
    has the room. -/
theorem Good.calcPos (h : Good c s rows) (len : ℕ) :
    kvItemCalcPosFit c.size s len = .error .hangs ∨
      ∃ s' pos, kvItemCalcPosFit c.size s len = .ok (s', pos) ∧ Good c s' rows ∧ ItemBytes s.flash s'.flash ∧
        (pos = 0 ∨ ∃ b < c.blkNums, pos = rowEnd b (rows b) ∧ (s'.blockInfo b).state ≠ blkStateClean ∧
          blkHeaderSize + (rows b).sum + len < blkSize) := by
  have hlast := c.le_fifteen
  have hblk := h.writeBlk
  have htrigger : Good c s.triggerGc rows := h.same rfl rfl rfl rfl
  unfold kvItemCalcPosFit
  rw [fit8_bind (by omega)]
  by_cases hhere : (s.blockInfo (s.writePos / blkSize)).space > len
  · -- the block written to has room
    rw [if_pos hhere]
    obtain ⟨b, hb, hstate, hpos⟩ := h.write
    have hdiv : s.writePos / blkSize = b := by rw [hpos, rowEnd_div (h.chained b hb)]
    rw [hdiv, h.space b hb] at hhere
    have hroom : blkHeaderSize + (rows b).sum + len < blkSize := by omega
    refine .inr ?_
    split_ifs
    · exact ⟨_, _, rfl, htrigger, fun _ _ => rfl, .inr ⟨b, hb, hpos, hstate, hroom⟩⟩
    · exact ⟨_, _, rfl, h, fun _ _ => rfl, .inr ⟨b, hb, hpos, hstate, hroom⟩⟩
  rw [if_neg hhere]
  by_cases hmany : c.size.blkNums > kvGcReserved + 1
  · rw [if_pos hmany, fit8_bind (by omega)]
    rcases calcScanFit_spec c s len (s.writePos / blkSize) (c.size.blkNums + 1)
      (show s.writePos / blkSize + 1 ≤ c.blkNums by omega) with hrun | hrun | ⟨j, hj, hrun, hroom⟩
    · rw [hrun]
      exact .inl rfl
    · rw [hrun]
      exact .inr ⟨_, _, rfl, htrigger, fun _ _ => rfl, .inl rfl⟩
    · rw [hrun, ok_bind]
      obtain ⟨s', htake, hgood, hbytes, hpos, hstate⟩ := h.takeBlk hj
      dsimp only
      rw [htake]
      rw [h.space j hj] at hroom
      exact .inr ⟨s', _, rfl, hgood, hbytes, .inr ⟨j, hj, hpos, hstate, by omega⟩⟩
  · rw [if_neg hmany]
    exact .inr ⟨_, _, rfl, htrigger, fun _ _ => rfl, .inl rfl⟩

/-! ## Storing -/

theorem headerAt_store {f : Flash} {origin : ℕ} {rest : List UInt8} (hkey : key.length ≤ itemMaxKeyLen)
    (hval : val.length ≤ itemMaxValLen) (horigin : origin < 2 ^ 16) (hmod : origin % 4 = 0)
    (hholds : Holds f pos ((storeHdr key val origin).bytes ++ rest)) :
    readItemHdr f pos = storeHdr key val origin ∧
      HeaderAt c f pos (c.align (itemHeaderSize + key.length + val.length)) := by
  have hread : readItemHdr f pos = storeHdr key val origin :=
    readItemHdr_bytes (holds_append.1 hholds).1 (show key.length < 256 by unfold itemMaxKeyLen at hkey; omega)
      (show val.length < 65536 by unfold itemMaxValLen at hval; omega) horigin
  have hmagic : (readItemHdr f pos).magic = itemMagicNum := by rw [hread]; rfl
  refine ⟨hread, hmagic, ?_, ?_, ?_, ?_⟩
  · rw [hread]
    exact hkey
  · rw [hread]
    exact hval
  · rw [hread]
    rfl
  · rw [hread]
    exact hmod

theorem FoundAt.origMatches {f : Flash} (h : FoundAt c f rows key item) (hkey : rawRead f (pos + itemHeaderSize) key.length = key) :
    OrigMatches f ⟨storeHdr key val item.pos, [], key.length + val.length, pos⟩ := by
  refine ⟨h.magic, h.state, h.keyLen, ?_⟩
  show rawRead f (item.pos + itemHeaderSize) (readItemHdr f item.pos).keyLen =
    rawRead f (pos + itemHeaderSize) (readItemHdr f item.pos).keyLen
  rw [h.keyLen, h.key, hkey]

/-- The manager after an item of `n` bytes is written behind the others of the block `b`. -/
theorem Good.append (h : Good c s rows) (hb : b < c.blkNums) (hstate : (s.blockInfo b).state ≠ blkStateClean)
    (hroom : blkHeaderSize + (rows b).sum + n < blkSize) {buf : List UInt8} (hlen : buf.length = n)
    (hhead : HeaderAt c (s.rawWrite (rowEnd b (rows b)) buf).flash (rowEnd b (rows b)) n) :
    Good c (({ s.rawWrite (rowEnd b (rows b)) buf with writePos := rowEnd b (rows b) + n } : KvMgr).setSpace b
      ((s.blockInfo b).space - n)) (Function.update rows b (rows b ++ [n])) := by
  have hout : ∀ o, o < rowEnd b (rows b) ∨ rowEnd b (rows b) + n ≤ o →
      (s.rawWrite (rowEnd b (rows b)) buf).flash o = s.flash o := fun o ho => rawWrite_out (by rwa [hlen])
  refine ⟨(h.toImgs.op rfl (h.chained.append hb hhead hroom hout)).same rfl rfl, fun b' hb' => ?_, fun b' hb' hc => ?_,
    b, hb, ?_, ?_⟩
  · rw [setSpace_space]
    by_cases hne : b' = b
    · rw [if_pos hne, hne, Function.update_self, List.sum_append, List.sum_singleton, h.space b hb]
      omega
    · rw [if_neg hne, Function.update_of_ne hne]
      exact h.space b' hb'
  · rw [setSpace_state] at hc
    by_cases hne : b' = b
    · subst hne
      exact absurd hc hstate
    · rw [Function.update_of_ne hne]
      exact h.clean b' hb' hc
  · rw [setSpace_state]
    exact hstate
  · rw [Function.update_self, rowEnd_append]
    rfl

/-- **Storing** stays in its widths, takes the space of the block it writes to, and leaves the
    item that is replaced where its origin says. -/
theorem Good.store (h : Good c s rows) {origin : ℕ} (hkey : key.length ≤ itemMaxKeyLen) (hval : val.length ≤ itemMaxValLen)
    (horigin : origin = 0 ∨ ∃ item : KvItem, item.pos = origin ∧ FoundAt c s.flash rows key item) :
    kvItemStoreFit c.size s key val origin = .error .hangs ∨
      ∃ s' r rows', kvItemStoreFit c.size s key val origin = .ok (s', r) ∧ Good c s' rows' ∧
        ∀ item, FoundAt c s.flash rows key item →
          s'.flash item.pos = itemMagicNum ∧ s'.flash (item.pos + 1) = itemStateNormal := by
  have hlast := c.le_fifteen
  have hlt : origin < 2 ^ 16 := by
    rcases horigin with rfl | ⟨item, rfl, hfound⟩
    · decide
    · have := hfound.pos_lt h.chained
      omega
  have hmod : origin % 4 = 0 := by
    rcases horigin with rfl | ⟨item, rfl, hfound⟩
    · rfl
    · exact hfound.mod
  unfold kvItemStoreFit
  rw [fit16_bind hlt]
  dsimp only
  rw [size_align]
  generalize hlen : c.align (itemHeaderSize + key.length + val.length) = len
  have hle : itemHeaderSize + key.length + val.length ≤ len := hlen ▸ c.le_align _
  rcases h.calcPos len with hrun | ⟨s₁, pos, hrun, hgood, hbytes, hpos⟩
  · rw [hrun]
    exact .inl rfl
  rw [hrun, ok_bind]
  refine .inr ?_
  rcases hpos with rfl | ⟨b, hb, rfl, hstate, hroom⟩
  · -- no position
    rw [if_neg (Nat.lt_irrefl 0)]
    refine ⟨s₁, .noSpace, rows, rfl, hgood, fun item hfound => ?_⟩
    have hfound' := hfound.bytes h.chained hbytes
    exact ⟨hfound'.magic, hfound'.state⟩
  have hend : rowEnd b (rows b) + len < b * blkSize + blkSize := by
    unfold rowEnd
    omega
  have hstart : b * blkSize + blkHeaderSize ≤ rowEnd b (rows b) := Nat.le_add_right _ _
  rw [if_pos (by unfold blkHeaderSize at hstart; omega)]
  generalize hbuf : (storeHdr key val origin).bytes ++ key ++ val ++
    List.replicate (len - (itemHeaderSize + key.length + val.length)) 0 = buf
  have hbuflen : buf.length = len := by
    have hhdr : (storeHdr key val origin).bytes.length = itemHeaderSize := rfl
    rw [← hbuf, List.length_append, List.length_append, List.length_append, List.length_replicate, hhdr]
    omega
  -- the item on the flash
  have hholds : Holds (s₁.rawWrite (rowEnd b (rows b)) buf).flash (rowEnd b (rows b)) ((storeHdr key val origin).bytes ++
      (key ++ (val ++ List.replicate (len - (itemHeaderSize + key.length + val.length)) 0))) := by
    rw [List.append_assoc, List.append_assoc] at hbuf
    rw [hbuf]
    exact holds_memcpy_same 0
  obtain ⟨-, hhead⟩ := headerAt_store (c := c) hkey hval hlt hmod hholds
  rw [hlen] at hhead
  have hkeyRead : rawRead (s₁.rawWrite (rowEnd b (rows b)) buf).flash (rowEnd b (rows b) + itemHeaderSize) key.length = key := by
    have hkeyHolds := (holds_append.1 (holds_append.1 hholds).2).1
    exact hkeyHolds
  -- and the one that is replaced
  have hfound' : ∀ item, FoundAt c s.flash rows key item →
      FoundAt c (s₁.rawWrite (rowEnd b (rows b)) buf).flash rows key item := fun item hfound =>
    (hfound.bytes h.chained hbytes).behind hgood.chained hb hend fun o ho => rawWrite_out (by rwa [hbuflen])
  have hnames : origin ≠ 0 → OrigMatches (s₁.rawWrite (rowEnd b (rows b)) buf).flash
      ⟨storeHdr key val origin, [], key.length + val.length, rowEnd b (rows b)⟩ := by
    intro hne
    rcases horigin with rfl | ⟨item, rfl, hfound⟩
    · exact absurd rfl hne
    · exact (hfound' item hfound).origMatches hkeyRead
  rw [names_bind hnames, fit16_bind (by unfold blkSize at *; omega), rowEnd_add_div hroom, fit8_bind (by omega),
    sameBlk_bind (rowEnd_div (hgood.chained b hb)).symm]
  exact ⟨_, .ok, _, rfl, hgood.append hb hstate hroom hbuflen hhead,
    fun item hfound => ⟨(hfound' item hfound).magic, (hfound' item hfound).state⟩⟩

/-! ## The interface -/

variable (c) in
/-- The result of a call from a good manager: a good manager, or no return. -/
def GoesOn {α : Type} (out : Fit (KvMgr × α)) : Prop :=
  out = .error .hangs ∨ ∃ s a rows, out = .ok (s, a) ∧ Good c s rows

theorem Good.set (h : Good c s rows) (key val : List UInt8) : GoesOn c (aosKvSetFit c.size s key val) := by
  unfold aosKvSetFit
  by_cases hargs : val.length = 0 ∨ key.length > itemMaxKeyLen ∨ val.length > itemMaxValLen
  · rw [if_pos hargs]
    exact .inr ⟨s, _, rows, rfl, h⟩
  rw [if_neg hargs]
  obtain ⟨-, hkey, hval⟩ : ¬ val.length = 0 ∧ key.length ≤ itemMaxKeyLen ∧ val.length ≤ itemMaxValLen := by
    simpa only [not_or, Nat.not_lt] using hargs
  obtain ⟨s₁, r, hget, hgood, hfind⟩ := h.get key
  rw [hget, ok_bind]
  cases r with
  | none =>
    dsimp only
    rcases hgood.store hkey hval (.inl rfl) with hrun | ⟨s₂, r, rows2, hrun, hgood2, -⟩
    · exact .inl hrun
    · exact .inr ⟨s₂, r, rows2, hrun, hgood2⟩
  | some item =>
    have hfound := hfind item rfl
    dsimp only
    unfold kvItemUpdateFit
    by_cases hsame : item.hdr.valLen = val.length ∧ (item.store.drop item.hdr.keyLen).take val.length = val
    · rw [if_pos hsame]
      exact .inr ⟨s₁, _, rows, rfl, hgood⟩
    rw [if_neg hsame, if_neg hfound.pos_ne]
    rcases hgood.store hkey hval (.inr ⟨item, rfl, hfound⟩) with hrun | ⟨s₂, r, rows2, hrun, hgood2, hthere⟩
    · rw [hrun]
      exact .inl rfl
    rw [hrun, ok_bind]
    cases r with
    | ok =>
      -- the item that is replaced is still where it was
      obtain ⟨hmagic, hstate⟩ := hthere item hfound
      have hlt := hfound.pos_lt hgood.chained
      dsimp only
      rw [kvItemRemoveFit_eq (by omega), ok_bind]
      exact .inr ⟨_, _, rows2, rfl, hgood2.remove hfound.mod hmagic hstate⟩
    | cont | noSpace | invalidParam | itemNotFound => exact .inr ⟨s₂, _, rows2, rfl, hgood2⟩

theorem Good.read (h : Good c s rows) (key : List UInt8) (bufferLen : ℕ) : GoesOn c (aosKvGetFit c.size s key bufferLen) := by
  unfold aosKvGetFit
  by_cases hbuf : bufferLen = 0
  · rw [if_pos hbuf]
    exact .inr ⟨s, _, rows, rfl, h⟩
  rw [if_neg hbuf]
  obtain ⟨s₁, r, hget, hgood, -⟩ := h.get key
  rw [hget, ok_bind]
  cases r with
  | none => exact .inr ⟨s₁, _, rows, rfl, hgood⟩
  | some item =>
    dsimp only
    split_ifs
    · exact .inr ⟨s₁, _, rows, rfl, hgood⟩
    · exact .inr ⟨s₁, _, rows, rfl, hgood⟩

theorem Good.del (h : Good c s rows) (key : List UInt8) : GoesOn c (aosKvDelFit c.size s key) := by
  unfold aosKvDelFit
  obtain ⟨s₁, r, hget, hgood, hfind⟩ := h.get key
  rw [hget, ok_bind]
  cases r with
  | none => exact .inr ⟨s₁, _, rows, rfl, hgood⟩
  | some item =>
    have hfound := hfind item rfl
    have hlt := hfound.pos_lt hgood.chained
    dsimp only
    rw [kvItemRemoveFit_eq (by omega)]
    exact .inr ⟨_, _, rows, rfl, hgood.remove hfound.mod hfound.magic hfound.state⟩

/-! ## Garbage collection -/

theorem forBlks_spec {p : ℕ → Fit Bool} {q : ℕ → Bool} {N k : ℕ} (hp : ∀ j < N, p j = .ok (q j)) (hN : N < 2 ^ 8)
    (hk : i + k = N) :
    (forBlks p k i = .ok none ∧ ∀ j, i ≤ j → j < N → q j = false) ∨ ∃ j < N, forBlks p k i = .ok (some j) ∧ q j = true := by
  induction k generalizing i with
  | zero => exact .inl ⟨rfl, fun j h1 h2 => by omega⟩
  | succ k ih =>
    unfold forBlks
    rw [hp i (by omega), ok_bind]
    cases hq : q i with
    | true => exact .inr ⟨i, by omega, rfl, hq⟩
    | false =>
      rw [if_neg (by decide), fit8_bind (by omega)]
      rcases ih (show i + 1 + k = N by omega) with ⟨hrun, hno⟩ | hsome
      · refine .inl ⟨hrun, fun j h1 h2 => ?_⟩
        rcases Nat.eq_or_lt_of_le h1 with rfl | hlt
        · exact hq
        · exact hno j hlt h2
      · exact .inr hsome

theorem gcVictimFit_spec (c : KvConfig) (s : KvMgr) (origin fuel : ℕ) (hi : i ≤ c.blkNums) :
    gcVictimFit c.size s origin fuel i = .ok none ∨
      ∃ v < c.blkNums, gcVictimFit c.size s origin fuel i = .ok (some v) ∧ (s.blockInfo v).state = blkStateDirty := by
  have htwo := c.two_le
  have hlast := c.le_fifteen
  induction fuel generalizing i with
  | zero => exact .inl rfl
  | succ fuel ih =>
    unfold gcVictimFit
    have hj : (if i = c.size.blkNums then 0 else i) < c.blkNums := by
      show (if i = c.blkNums then 0 else i) < c.blkNums
      split_ifs
      · omega
      · omega
    generalize (if i = c.size.blkNums then 0 else i) = j at hj
    by_cases hdirty : (s.blockInfo j).state = blkStateDirty
    · rw [if_pos hdirty]
      exact .inr ⟨j, hj, rfl, hdirty⟩
    rw [if_neg hdirty]
    by_cases hback : j = origin
    · rw [if_pos hback]
      exact .inl rfl
    · rw [if_neg hback, fit8_bind (by omega)]
      exact ih hj

variable (c) in
/-- Items of the sizes `gs` are copied to the block `g`, of the items of `v` with the rest `ns`. -/
structure Copied (s : KvMgr) (rows : ℕ → List ℕ) (g v : ℕ) (gs ns : List ℕ) (s' : KvMgr) : Prop
    extends Imgs c s' (Function.update rows g gs) where
  writePos : s'.writePos = rowEnd g gs
  fits : gs.sum + ns.sum ≤ (rows v).sum
  state : ∀ b, (s'.blockInfo b).state = (s.blockInfo b).state
  space : ∀ b, b ≠ g → (s'.blockInfo b).space = (s.blockInfo b).space
  space_self : (s'.blockInfo g).space = blkSize - (blkHeaderSize + gs.sum)

theorem Good.walks_gc (h : Good c s rows) {v : ℕ} (hg : g < c.blkNums) (hv : v < c.blkNums) (hne : v ≠ g)
    (hdirty : (s.blockInfo v).state = blkStateDirty) :
    Walks c (itemGcCbFit c.size) v (rows v) (fun ns s' => ∃ gs, Copied c s rows g v gs ns s') fun _ _ => False where
  chained := by
    rintro ns s' ⟨gs, hc⟩
    have hchained := hc.chained v hv
    rwa [Function.update_of_ne hne] at hchained
  skip := by
    rintro n ns s' ⟨gs, hc⟩
    have hused : (s'.blockInfo v).state ≠ blkStateUsed := by
      rw [hc.state, hdirty]
      decide
    have hmark : s'.markDirty v = s' := if_neg hused
    have hfits := hc.fits
    rw [List.sum_cons] at hfits
    rw [hmark]
    exact ⟨gs, hc.toImgs, hc.writePos, by omega, hc.state, hc.space, hc.space_self⟩
  func := by
    rintro pos n ns s' ⟨gs, hc⟩ hhead - - - -
    have hlast := c.le_fifteen
    have hfits := hc.fits
    rw [List.sum_cons] at hfits
    have hroom := (h.chained v hv).room
    have hchained := hc.chained g hg
    rw [Function.update_self] at hchained
    have hdiv := rowEnd_div hchained
    have hge := hhead.size_ge
    have hend : rowEnd g gs + n < g * blkSize + blkSize := by
      unfold rowEnd
      omega
    have hlen : c.size.align (itemHeaderSize + (itemAt s'.flash pos).len) = n := by
      rw [← hhead.size, Nat.add_assoc]
      rfl
    refine .inl ?_
    unfold itemGcCbFit
    dsimp only
    rw [hlen]
    -- the copy
    have hbuf : (rawRead s'.flash (itemAt s'.flash pos).pos n).length = n := slice_length ..
    generalize hread : rawRead s'.flash (itemAt s'.flash pos).pos n = buf at hbuf
    have hwrite : (s'.rawWrite s'.writePos buf).writePos = rowEnd g gs := hc.writePos
    rw [hwrite, hc.writePos, hdiv, fit16_bind (by unfold blkSize at *; omega), rowEnd_add_div (by omega),
      fit8_bind (by omega), sameBlk_bind rfl]
    have hcopy : ∀ i < n, (s'.rawWrite (rowEnd g gs) buf).flash (rowEnd g gs + i) = s'.flash (pos + i) := by
      intro i hi
      have hholds : Holds (s'.rawWrite (rowEnd g gs) buf).flash (rowEnd g gs) buf := holds_memcpy_same 0
      rw [hholds.get (by omega)]
      subst hread
      simp [rawRead, slice, itemAt]
    have hout : ∀ o, o < rowEnd g gs ∨ rowEnd g gs + n ≤ o → (s'.rawWrite (rowEnd g gs) buf).flash o = s'.flash o :=
      fun o ho => rawWrite_out (by rwa [hbuf])
    have hhead' : HeaderAt c (s'.rawWrite (rowEnd g gs) buf).flash (rowEnd g gs) n :=
      hhead.copy fun i hi _ _ => hcopy i (by unfold itemHeaderSize at hge; omega)
    have happ : AllChained c (s'.rawWrite (rowEnd g gs) buf).flash (Function.update rows g (gs ++ [n])) := by
      have hself : Function.update rows g gs g = gs := Function.update_self ..
      have happ := hc.chained.append hg (by rw [hself]; exact hhead') (by rw [hself]; omega) (by rw [hself]; exact hout)
      rwa [hself, Function.update_idem] at happ
    refine ⟨_, _, rfl, gs ++ [n], (hc.toImgs.op rfl happ).same rfl rfl, (rowEnd_append ..).symm, ?_, fun b => ?_,
      fun b hb => ?_, ?_⟩
    · rw [List.sum_append, List.sum_singleton]
      omega
    · rw [setSpace_state]
      exact hc.state b
    · rw [setSpace_space, if_neg hb]
      exact hc.space b hb
    · rw [setSpace_space, if_pos rfl, List.sum_append, List.sum_singleton]
      show (s'.blockInfo g).space - n = _
      rw [hc.space_self]
      omega

theorem kvBlockFormatFit_eq (hi : i < 16) : kvBlockFormatFit s i = .ok (s.kvBlockFormat i) := by
  unfold kvBlockFormatFit
  rw [fit8_bind (by omega), fit16_bind (blkStart_lt hi)]
  rfl

theorem Imgs.format (h : Imgs c s rows) (i : ℕ) : Imgs c (s.kvBlockFormat i) (Function.update rows i []) := by
  have herase : Imgs c (s.rawErase (i * blkSize) blkSize) (Function.update rows i []) :=
    h.op rfl (h.chained.rawErase i)
  exact herase.op rfl (h.chained.format i)

theorem Good.copied (h : Good c s rows) {v : ℕ} (hg : g < c.blkNums) (hclean : (s.blockInfo g).state = blkStateClean) :
    Copied c s rows g v [] (rows v) { s with writePos := g * blkSize + blkHeaderSize } := by
  have hnil := h.clean g hg hclean
  have hsame : Function.update rows g [] = rows := by
    rw [← hnil, Function.update_eq_self]
  refine ⟨?_, ?_, ?_, fun _ => rfl, fun _ _ => rfl, ?_⟩
  · rw [hsame]
    exact h.toImgs.same rfl rfl
  · unfold rowEnd
    rw [List.sum_nil, Nat.add_zero]
  · rw [List.sum_nil, Nat.zero_add]
  · rw [← hnil]
    exact h.space g hg

theorem Copied.good {v n : ℕ} {gs : List ℕ} {s₁ s₂ : KvMgr} (h : Good c s rows) (hc : Copied c s rows g v gs ns s₁)
    (hg : g < c.blkNums) (hne : v ≠ g) (hs2 : (s₁.setSpace v n).kvBlockFormat v = s₂) (count : ℕ) :
    Good c { (s₂.kvStateSet (g * blkSize) blkStateUsed).setBlkState g blkStateUsed with cleanBlkNums := count }
      (Function.update (Function.update rows g gs) v []) := by
  have himgs : Imgs c s₂ (Function.update (Function.update rows g gs) v []) := by
    rw [← hs2]
    exact (hc.toImgs.same rfl rfl : Imgs c (s₁.setSpace v n) _).format v
  have hstate : ∀ b, (s₂.blockInfo b).state = if b = v then blkStateClean else (s.blockInfo b).state := by
    intro b
    rw [← hs2, kvBlockFormat_blockInfo]
    split_ifs
    · rfl
    · rw [setSpace_state]
      exact hc.state b
  have hspace : ∀ b, (s₂.blockInfo b).space = if b = v then blkSize - blkHeaderSize else (s₁.blockInfo b).space := by
    intro b
    rw [← hs2, kvBlockFormat_blockInfo]
    split_ifs with hb
    · rfl
    · rw [setSpace_space, if_neg hb]
  refine ⟨(himgs.op rfl (himgs.chained.blkState g blkStateUsed)).same rfl rfl, fun b hb => ?_, fun b hb hclean => ?_,
    g, hg, ?_, ?_⟩
  · -- the spaces
    refine (setBlkState_space (s₂.kvStateSet (g * blkSize) blkStateUsed) g blkStateUsed b).trans ((hspace b).trans ?_)
    by_cases hbv : b = v
    · rw [if_pos hbv, hbv, Function.update_self, List.sum_nil]
      rfl
    rw [if_neg hbv, Function.update_of_ne hbv]
    by_cases hbg : b = g
    · rw [hbg, Function.update_self]
      exact hc.space_self
    · rw [Function.update_of_ne hbg, hc.space b hbg]
      exact h.space b hb
  · -- the clean blocks
    have hused : (if b = g then blkStateUsed else (s₂.blockInfo b).state) = blkStateClean :=
      (setBlkState_state (s₂.kvStateSet (g * blkSize) blkStateUsed) g blkStateUsed b).symm.trans hclean
    by_cases hbv : b = v
    · rw [hbv, Function.update_self]
    by_cases hbg : b = g
    · rw [if_pos hbg] at hused
      exact absurd hused (by decide)
    rw [if_neg hbg, hstate, if_neg hbv] at hused
    rw [Function.update_of_ne hbv, Function.update_of_ne hbg]
    exact h.clean b hb hused
  · have hused := setBlkState_state (s₂.kvStateSet (g * blkSize) blkStateUsed) g blkStateUsed g
    rw [if_pos rfl] at hused
    exact fun he => absurd (hused.symm.trans he) (by decide)
  · rw [Function.update_of_ne (Ne.symm hne), Function.update_self, ← hc.writePos, ← hs2]
    rfl

theorem Good.collect (h : Good c s rows) {v : ℕ} (hg : g < c.blkNums) (hv : v < c.blkNums)
    (hclean : (s.blockInfo g).state = blkStateClean) (hdirty : (s.blockInfo v).state = blkStateDirty) :
    ∃ s' rows', gcCollectFit c.size { s with writePos := g * blkSize + blkHeaderSize } g v = .ok s' ∧ Good c s' rows' := by
  have hlast := c.le_fifteen
  have hne : v ≠ g := by
    rintro rfl
    rw [hclean] at hdirty
    exact absurd hdirty (by decide)
  rcases traverse_chained (by omega) (h.walks_gc hg hv hne hdirty) ⟨[], h.copied hg hclean⟩ with
    ⟨s₁, ⟨gs, hc⟩, hrun⟩ | ⟨s₁, item, hno, -⟩
  · have hchained := hc.chained g hg
    rw [Function.update_self] at hchained
    unfold gcCollectFit
    rw [hrun, ok_bind]
    dsimp only
    rw [kvBlockFormatFit_eq (by omega), ok_bind]
    generalize hs2 : (s₁.setSpace v (blkSize - (blkHeaderSize + (rows v).sum))).kvBlockFormat v = s₂
    have hwrite : s₂.writePos = rowEnd g gs := by
      rw [← hs2]
      exact hc.writePos
    rw [hwrite, rowEnd_div hchained, kvStateSetFit_eq (blkStart_lt (by omega)), ok_bind]
    exact ⟨_, _, rfl, hc.good h hg hne hs2 _⟩
  · exact absurd hno id

theorem Good.gc (h : Good c s rows) : ∃ s' rows', aosKvGcFit c.size s = .ok s' ∧ Good c s' rows' := by
  have hlast := c.le_fifteen
  have hblk := h.writeBlk
  unfold aosKvGcFit
  by_cases hcount : s.cleanBlkNums = 0
  · rw [if_pos hcount]
    exact ⟨_, rows, rfl, h.same rfl rfl rfl rfl⟩
  rw [if_neg hcount]
  have hfor := forBlks_spec (p := fun i => return (s.blockInfo i).state = blkStateClean)
    (q := fun i => decide ((s.blockInfo i).state = blkStateClean)) (N := c.blkNums) (fun _ _ => rfl) (by omega) (Nat.zero_add _)
  rcases hfor with ⟨hrun, -⟩ | ⟨g, hg, hrun, hclean⟩
  · rw [size_blkNums, hrun, ok_bind]
    exact ⟨_, rows, rfl, h.same rfl rfl rfl rfl⟩
  rw [size_blkNums, hrun, ok_bind]
  have hclean := of_decide_eq_true hclean
  dsimp only
  rw [fit16_bind (by unfold blkSize blkHeaderSize; omega), fit8_bind (by omega)]
  rcases gcVictimFit_spec c { s with writePos := g * blkSize + blkHeaderSize } (s.writePos / blkSize) (c.blkNums + 1)
    (show s.writePos / blkSize + 1 ≤ c.blkNums from hblk) with hrun | ⟨v, hv, hrun, hdirty⟩
  · rw [hrun, ok_bind]
    exact ⟨_, rows, rfl, h.same rfl rfl rfl rfl⟩
  · rw [hrun, ok_bind]
    obtain ⟨s', rows', hcollect, hgood⟩ := h.collect hg hv hclean hdirty
    dsimp only
    rw [hcollect]
    exact ⟨_, rows', rfl, hgood.same rfl rfl rfl rfl⟩

end Kv
