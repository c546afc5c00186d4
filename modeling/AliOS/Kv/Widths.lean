/-
  Key-value store: positions and block indexes with their widths.

  A position is a `uint16_t`, and a block index a `uint8_t`.  The functions are
  those of `Store`, for any number of blocks: `fit16` and `fit8` stand where the
  source stores into such a variable, and stop at a value that it does not hold.
  Two more tests are on what is done with the positions: the space that an item
  takes is that of the block it is written to (`sameBlk`), and the `origin_off`
  of an item is where `kv_item_del` finds the item that it replaces (`names`).
-/
import AliOS.Kv.Store

namespace Kv

open Lib

/-! ## Widths -/

/-- Why a call stops. -/
inductive Stop
  | wraps
  | otherBlk
  | noOrigin
  | hangs
  deriving DecidableEq, Repr

/-- The result of a call, or why it stops. -/
abbrev Fit (α : Type) := Except Stop α

/-- `n` is stored in a `uint16_t`. -/
def fit16 (n : ℕ) : Fit Unit := if n < 2 ^ 16 then .ok () else .error .wraps

/-- `n` is stored in a `uint8_t`. -/
def fit8 (n : ℕ) : Fit Unit := if n < 2 ^ 8 then .ok () else .error .wraps

/-- The space is that of the block the item is written to. -/
def sameBlk (index written : ℕ) : Fit Unit := if index = written then .ok () else .error .otherBlk

/-- `origin_off` is 0, or the place of a valid item of the same key. -/
def names (f : Flash) (item : KvItem) : Fit Unit :=
  if item.hdr.originOff ≠ 0 ∧ ¬ OrigMatches f item then .error .noOrigin else .ok ()

/-- `BLK_NUMS` and `sizeof(void *)`, with the test of `aos_kv_init`. -/
structure KvSize where
  blkNums : ℕ
  ptrSize : ℕ
  two_le : 2 ≤ blkNums
  ptrSize_eq : ptrSize = 4 ∨ ptrSize = 8

/-- `(len + ~KV_ALIGN_MASK) & KV_ALIGN_MASK`. -/
def KvSize.align (z : KvSize) (len : ℕ) : ℕ := (len + (z.ptrSize - 1)) / z.ptrSize * z.ptrSize

/-- A partition of at most 15 blocks. -/
def KvConfig.size (c : KvConfig) : KvSize := ⟨c.blkNums, c.ptrSize, c.two_le, c.ptrSize_eq⟩

@[simp] theorem size_blkNums (c : KvConfig) : c.size.blkNums = c.blkNums := rfl

@[simp] theorem size_align (c : KvConfig) (len : ℕ) : c.size.align len = c.align len := rfl

section
variable {α β : Type} {n : ℕ} {k : Unit → Fit β}

@[simp] theorem ok_bind (a : α) (k : α → Fit β) : ((.ok a : Fit α) >>= k) = k a := rfl

theorem fit16_bind (h : n < 2 ^ 16) : (fit16 n >>= k) = k () := by
  unfold fit16
  rw [if_pos h, ok_bind]

theorem fit8_bind (h : n < 2 ^ 8) : (fit8 n >>= k) = k () := by
  unfold fit8
  rw [if_pos h, ok_bind]

theorem sameBlk_bind {m : ℕ} (h : n = m) : (sameBlk n m >>= k) = k () := by
  unfold sameBlk
  rw [if_pos h, ok_bind]

theorem names_bind {f : Flash} {item : KvItem} (h : item.hdr.originOff ≠ 0 → OrigMatches f item) :
    (names f item >>= k) = k () := by
  unfold names
  rw [if_neg fun hno => hno.2 (h hno.1), ok_bind]

end

/-- `for (i = 0; i < n; i++)` up to the first `i` with `p`: `k` more turns, from `i` on. -/
def forBlks (p : ℕ → Fit Bool) : ℕ → ℕ → Fit (Option ℕ)
  | 0, _ => return none
  | k + 1, i => do
    if ← p i then return some i
    fit8 (i + 1)
    forBlks p k (i + 1)

/-! ## Flash operations -/

def kvStateSetFit (s : KvMgr) (pos : ℕ) (state : UInt8) : Fit KvMgr := do
  fit16 pos
  return s.kvStateSet pos state

/-- The state of a block goes from `USED` to `DIRTY`. -/
def markDirtyFit (s : KvMgr) (index : ℕ) : Fit KvMgr :=
  if (s.blockInfo index).state = blkStateUsed then do
    let s ← kvStateSetFit s (index * blkSize) blkStateDirty
    return s.setBlkState index blkStateDirty
  else return s

def kvBlockFormatFit (s : KvMgr) (index : ℕ) : Fit KvMgr := do
  fit8 index
  fit16 (index * blkSize)
  return s.kvBlockFormat index

variable (z : KvSize)

/-! ## Where an item is written -/

/-- The loop of `kv_item_calc_pos`. -/
def calcScanFit (s : KvMgr) (len blkIndex : ℕ) : ℕ → ℕ → Fit (Option ℕ)
  | 0, _ => .error .hangs
  | fuel + 1, i =>
    if i = blkIndex then return none
    else
      let i := if i = z.blkNums then 0 else i
      if (s.blockInfo i).space > len then return some i
      else do
        fit8 (i + 1)
        calcScanFit s len blkIndex fuel (i + 1)

/-- Take the block `i`. -/
def takeBlkFit (s : KvMgr) (i : ℕ) : Fit KvMgr := do
  let writePos := i * blkSize + blkSize - (s.blockInfo i).space
  fit16 writePos
  let s := { s with writePos := writePos }
  if (s.blockInfo i).state = blkStateClean then
    let s ← kvStateSetFit s (i * blkSize) blkStateUsed
    let s := s.setBlkState i blkStateUsed
    return { s with cleanBlkNums := s.cleanBlkNums - 1 }
  else return s

def kvItemCalcPosFit (s : KvMgr) (len : ℕ) : Fit (KvMgr × ℕ) := do
  let blkIndex := s.writePos / blkSize
  fit8 blkIndex
  let info := s.blockInfo blkIndex
  if info.space > len then
    let s := if info.space - len < itemMaxLen ∧ s.cleanBlkNums ≤ kvGcReserved then s.triggerGc else s
    return (s, s.writePos)
  else if z.blkNums > kvGcReserved + 1 then
    fit8 (blkIndex + 1)
    match ← calcScanFit z s len blkIndex (z.blkNums + 1) (blkIndex + 1) with
    | none => return (s.triggerGc, 0)
    | some i =>
      let s ← takeBlkFit s i
      return (s, s.writePos)
  else return (s.triggerGc, 0)

/-! ## Deleting -/

/-- Mark the item at `offset` deleted, and its block dirty. -/
def kvItemRemoveFit (s : KvMgr) (offset : ℕ) : Fit KvMgr := do
  fit16 offset
  let s ← kvStateSetFit s offset itemStateDelete
  fit8 (offset / blkSize)
  markDirtyFit s (offset / blkSize)

/-- `kv_item_del` with `KV_ORIG_REMOVE`. -/
def kvItemDelOrigFit (s : KvMgr) (item : KvItem) : Fit KvMgr := do
  fit16 item.hdr.originOff
  if OrigMatches s.flash item then kvItemRemoveFit s item.hdr.originOff else return s

/-! ## Traversal -/

/-- What `kv_item_traverse` calls on each valid item. -/
abbrev ItemFuncFit := KvItem → KvMgr → Fit (KvMgr × KvItem × KvRes)

def itemRecoveryCbFit : ItemFuncFit := fun item s =>
  if item.hdr.crc = utilsCrc8 (rawRead s.flash (item.pos + itemHeaderSize) item.len) then
    if item.hdr.originOff ≠ 0 ∧ item.pos ≠ item.hdr.originOff then do
      let s ← kvItemDelOrigFit s item
      return (s, item, .cont)
    else return (s, item, .cont)
  else do
    let s ← kvItemRemoveFit s item.pos
    return (s, item, .cont)

def itemFindCbFit (key : List UInt8) : ItemFuncFit := fun item s => return itemFindCb key item s

def itemGcCbFit : ItemFuncFit := fun item s => do
  let len := z.align (itemHeaderSize + item.len)
  let written := s.writePos / blkSize
  let s := s.rawWrite s.writePos (rawRead s.flash item.pos len)
  fit16 (s.writePos + len)
  let s := { s with writePos := s.writePos + len }
  let index := s.writePos / blkSize
  fit8 index
  sameBlk index written
  return (s.setSpace index ((s.blockInfo index).space - len), item, .cont)

/-- The loop of `kv_item_traverse` at `pos`. -/
def traverseLoopFit (func : ItemFuncFit) (blkIndex : ℕ) : ℕ → ℕ → KvMgr → Fit (KvMgr × Option KvItem)
  | 0, pos, s => return (traverseEnd s blkIndex pos, none)
  | fuel + 1, pos, s =>
    if blkIndex * blkSize + blkSize > pos + itemHeaderSize then
      let hdr := readItemHdr s.flash pos
      if hdr.magic = 0xFF ∧ hdr.state = 0xFF then return (traverseEnd s blkIndex pos, none)
      else if hdr.magic ≠ itemMagicNum ∨ hdr.valLen > itemMaxValLen ∨ hdr.keyLen > itemMaxKeyLen then do
        fit16 (pos + itemHeaderSize)
        let s ← markDirtyFit s blkIndex
        traverseLoopFit func blkIndex fuel (pos + itemHeaderSize) s
      else do
        let next := pos + z.align (itemHeaderSize + hdr.keyLen + hdr.valLen)
        if hdr.state = itemStateNormal then
          match ← func ⟨hdr, [], hdr.keyLen + hdr.valLen, pos⟩ s with
          | (s, item, .ok) => return (s, some item)
          | (s, _, .cont) =>
            fit16 next
            traverseLoopFit func blkIndex fuel next s
          | (s, _, _) => return (s, none)
        else
          let s ← markDirtyFit s blkIndex
          fit16 next
          traverseLoopFit func blkIndex fuel next s
    else return (traverseEnd s blkIndex pos, none)

/-- `kv_item_traverse`: `pos` and `end` are positions. -/
def kvItemTraverseFit (func : ItemFuncFit) (blkIndex : ℕ) (s : KvMgr) : Fit (KvMgr × Option KvItem) := do
  fit8 blkIndex
  fit16 (blkIndex * blkSize + blkHeaderSize)
  fit16 (blkIndex * blkSize + blkSize)
  traverseLoopFit z func blkIndex (blkSize / itemHeaderSize) (blkIndex * blkSize + blkHeaderSize) s

/-- The loop of `kv_item_get` over the blocks: `k` more turns, from `i` on. -/
def itemGetFromFit (key : List UInt8) : ℕ → ℕ → KvMgr → Fit (KvMgr × Option KvItem)
  | 0, _, s => return (s, none)
  | k + 1, i, s => do
    if (s.blockInfo i).state ≠ blkStateClean then
      match ← kvItemTraverseFit z (itemFindCbFit key) i s with
      | (s, some item) => return (s, some item)
      | (s, none) =>
        fit8 (i + 1)
        itemGetFromFit key k (i + 1) s
    else
      fit8 (i + 1)
      itemGetFromFit key k (i + 1) s

def kvItemGetFit (key : List UInt8) (s : KvMgr) : Fit (KvMgr × Option KvItem) :=
  itemGetFromFit z key z.blkNums 0 s

/-! ## Storing -/

/-- The header that `kv_item_store` writes. -/
def storeHdr (key val : List UInt8) (originOff : ℕ) : ItemHdr where
  magic := itemMagicNum
  state := itemStateNormal
  crc := utilsCrc8 (key ++ val)
  keyLen := key.length
  valLen := val.length
  originOff := originOff

def kvItemStoreFit (s : KvMgr) (key val : List UInt8) (originOff : ℕ) : Fit (KvMgr × KvRes) := do
  fit16 originOff
  let hdr := storeHdr key val originOff
  let len := z.align (itemHeaderSize + key.length + val.length)
  let buf := hdr.bytes ++ key ++ val ++ List.replicate (len - (itemHeaderSize + key.length + val.length)) 0
  let (s, pos) ← kvItemCalcPosFit z s len
  if pos > 0 then
    let s := s.rawWrite pos buf
    names s.flash ⟨hdr, [], key.length + val.length, pos⟩
    fit16 (pos + len)
    let s := { s with writePos := pos + len }
    let index := s.writePos / blkSize
    fit8 index
    sameBlk index (pos / blkSize)
    return (s.setSpace index ((s.blockInfo index).space - len), .ok)
  else return (s, .noSpace)

/-- `kv_item_update`: the item that is replaced has a position. -/
def kvItemUpdateFit (s : KvMgr) (item : KvItem) (key val : List UInt8) : Fit (KvMgr × KvRes) :=
  if item.hdr.valLen = val.length ∧ (item.store.drop item.hdr.keyLen).take val.length = val then
    return (s, .ok)
  else if item.pos = 0 then .error .noOrigin
  else do
    match ← kvItemStoreFit z s key val item.pos with
    | (s, .ok) =>
      let s ← kvItemRemoveFit s item.pos
      return (s, .ok)
    | r => return r

/-! ## The interface -/

def aosKvSetFit (s : KvMgr) (key val : List UInt8) : Fit (KvMgr × KvRes) :=
  if val.length = 0 ∨ key.length > itemMaxKeyLen ∨ val.length > itemMaxValLen then
    return (s, .invalidParam)
  else do
    match ← kvItemGetFit z key s with
    | (s, some item) => kvItemUpdateFit z s item key val
    | (s, none) => kvItemStoreFit z s key val 0

def aosKvGetFit (s : KvMgr) (key : List UInt8) (bufferLen : ℕ) : Fit (KvMgr × KvRes × List UInt8 × ℕ) :=
  if bufferLen = 0 then return (s, .invalidParam, [], bufferLen)
  else do
    match ← kvItemGetFit z key s with
    | (s, none) => return (s, .itemNotFound, [], bufferLen)
    | (s, some item) =>
      if bufferLen < item.hdr.valLen then return (s, .noSpace, [], item.hdr.valLen)
      else return (s, .ok, (item.store.drop item.hdr.keyLen).take item.hdr.valLen, item.hdr.valLen)

def aosKvDelFit (s : KvMgr) (key : List UInt8) : Fit (KvMgr × KvRes) := do
  match ← kvItemGetFit z key s with
  | (s, none) => return (s, .itemNotFound)
  | (s, some item) =>
    let s ← kvItemRemoveFit s item.pos
    return (s, .ok)

/-- The `while` loop of `aos_kv_gc`. -/
def gcVictimFit (s : KvMgr) (origin : ℕ) : ℕ → ℕ → Fit (Option ℕ)
  | 0, _ => return none
  | fuel + 1, i =>
    let i := if i = z.blkNums then 0 else i
    if (s.blockInfo i).state = blkStateDirty then return some i
    else if i = origin then return none
    else do
      fit8 (i + 1)
      gcVictimFit s origin fuel (i + 1)

/-- Copy the items of the block `i` to the write position, format it, and mark
    the block `gcIndex` used. -/
def gcCollectFit (s : KvMgr) (gcIndex i : ℕ) : Fit KvMgr := do
  let (s, _) ← kvItemTraverseFit z (itemGcCbFit z) i s
  let s ← kvBlockFormatFit s i
  let s ← kvStateSetFit s (s.writePos / blkSize * blkSize) blkStateUsed
  let s := s.setBlkState gcIndex blkStateUsed
  return { s with cleanBlkNums := s.cleanBlkNums - 1 }

/-- `aos_kv_gc`. -/
def aosKvGcFit (s : KvMgr) : Fit KvMgr := do
  let originPos := s.writePos
  let origin := originPos / blkSize
  if s.cleanBlkNums = 0 then return { s with gcTriggered := false }
  else
    match ← forBlks (fun i => return (s.blockInfo i).state = blkStateClean) z.blkNums 0 with
    | none => return { s with gcTriggered := false }
    | some gcIndex =>
      fit16 (gcIndex * blkSize + blkHeaderSize)
      let s := { s with writePos := gcIndex * blkSize + blkHeaderSize }
      fit8 (origin + 1)
      match ← gcVictimFit z s origin (z.blkNums + 1) (origin + 1) with
      | some i =>
        let s ← gcCollectFit z s gcIndex i
        return { s with gcTriggered := false }
      | none => return { s with writePos := originPos, gcTriggered := false }

/-! ## Initialisation -/

/-- One turn of the first loop of `kv_init`. -/
def initBlockFit (p : KvMgr × List ℕ) (i : ℕ) : Fit (KvMgr × List ℕ) := do
  let s := p.1
  let unclean := p.2
  let state := s.flash (i * blkSize + 1)
  if s.flash (i * blkSize) = blkMagicNum then
    if InvalidBlkState state then
      let s ← kvBlockFormatFit s i
      return (s, unclean)
    else
      let (s, _) ← kvItemTraverseFit z itemRecoveryCbFit i (s.setBlkState i state)
      if state = blkStateClean then
        if (s.blockInfo i).space ≠ blkSize - blkHeaderSize then return (s, i :: unclean)
        else return ({ s with cleanBlkNums := s.cleanBlkNums + 1 }, unclean)
      else return (s, unclean)
  else
    let s ← kvBlockFormatFit s i
    return (s, unclean)

/-- The first loop of `kv_init`: `k` more turns, from `i` on. -/
def initBlocksFit : ℕ → ℕ → KvMgr × List ℕ → Fit (KvMgr × List ℕ)
  | 0, _, p => return p
  | k + 1, i, p => do
    let p ← initBlockFit z p i
    fit8 (i + 1)
    initBlocksFit k (i + 1) p

/-- One turn of the second loop of `kv_init`. -/
def initUncleanFit (s : KvMgr) (i : ℕ) : Fit KvMgr := do
  fit8 i
  if s.cleanBlkNums ≥ kvGcReserved then
    let s ← kvStateSetFit s (i * blkSize) blkStateDirty
    return s.setBlkState i blkStateDirty
  else kvBlockFormatFit s i

/-- The test of the last loop of `kv_init`. -/
def initNextFit (s : KvMgr) (i : ℕ) : Fit Bool :=
  if (s.blockInfo i).state = blkStateUsed ∨ (s.blockInfo i).state = blkStateDirty then do
    let next := if i + 1 = z.blkNums then 0 else i + 1
    fit8 next
    return (s.blockInfo next).state = blkStateClean
  else return false

/-- The last part of `kv_init`: the write position. -/
def initWritePosFit (s : KvMgr) : Fit KvMgr := do
  if s.cleanBlkNums = z.blkNums then
    let s := { s with writePos := blkHeaderSize }
    let s ← kvStateSetFit s (s.writePos / blkSize * blkSize) blkStateUsed
    let s := s.setBlkState 0 blkStateUsed
    return { s with cleanBlkNums := s.cleanBlkNums - 1 }
  else
    match ← forBlks (initNextFit z s) z.blkNums 0 with
    | some i =>
      fit16 (i * blkSize + blkSize - (s.blockInfo i).space)
      return { s with writePos := i * blkSize + blkSize - (s.blockInfo i).space }
    | none => return s

/-- `kv_init`. -/
def kvInitFit (s : KvMgr) : Fit KvMgr := do
  let (s, unclean) ← initBlocksFit z z.blkNums 0 (s, [])
  let s ← unclean.foldlM initUncleanFit s
  let s ← if s.cleanBlkNums = 0 then kvBlockFormatFit s 0 else pure s
  initWritePosFit z s

/-- `aos_kv_init` after a reset. -/
def aosKvInitFit (f : Flash) : Fit KvMgr := do
  let s ← kvInitFit z (.boot f)
  let blkIndex := s.writePos / blkSize
  fit8 blkIndex
  if (s.blockInfo blkIndex).space < itemMaxLen ∧ s.cleanBlkNums < kvGcReserved + 1 then
    return s.triggerGc
  else return s

/-! ## Runs -/

/-- A call and what it gives back. -/
def kvStepFit (s : KvMgr) : KvOp → Fit (KvMgr × KvOut)
  | .set key val => do
    let (s, r) ← aosKvSetFit z s key val
    return (s, .res r)
  | .get key bufferLen => do
    let (s, r, buf, len) ← aosKvGetFit z s key bufferLen
    return (s, .read r buf len)
  | .del key => do
    let (s, r) ← aosKvDelFit z s key
    return (s, .res r)
  | .gc => do
    let s ← aosKvGcFit z s
    return (s, .done)

/-- The managers that are reached from a partition that was never written: by calls,
    and by `aos_kv_init` on the partition as it is, or as it was between two flash
    operations since the last `aos_kv_init`. -/
inductive Reached : KvMgr → Prop
  | first {s : KvMgr} : aosKvInitFit z erased = .ok s → Reached s
  | again {s s' : KvMgr} {f : Flash} : Reached s → f = s.flash ∨ f ∈ s.past → aosKvInitFit z f = .ok s' → Reached s'
  | call {s s' : KvMgr} {op : KvOp} {out : KvOut} : Reached s → kvStepFit z s op = .ok (s', out) → Reached s'

/-- No call on a manager that is reached, and no `aos_kv_init` on its partition, stops at a
    value that does not fit, or is not what it stands for. -/
def NeverWraps : Prop :=
  (∀ e, aosKvInitFit z erased = .error e → e = .hangs) ∧
    ∀ s, Reached z s →
      (∀ op e, kvStepFit z s op = .error e → e = .hangs) ∧
        ∀ f, f = s.flash ∨ f ∈ s.past → ∀ e, aosKvInitFit z f = .error e → e = .hangs

end Kv
