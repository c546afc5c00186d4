/-
  Key-value store: items, lookup, update, garbage collection and recovery
  (`kvmgr.c`).

  Every function is the part of its original that runs with `kv_mutex` held;
  the handshake before it is that of `GcSync`.  Blocks and items are found on
  the flash image itself, byte by byte.
-/
import AliOS.Kv.Flash

namespace Kv

open Lib

variable (c : KvConfig)

/-! ## Where an item is written -/

/-- The loop of `kv_item_calc_pos` from the block `i` on: the block with room
    for `len` bytes, or `some none` when the scan is back at `blkIndex`.  With
    `blkIndex = 0` the test `i != blk_index` never fails, as `i` is reset inside
    the body: the loop then ends only at a block with room. -/
def calcScan (s : KvMgr) (len blkIndex : ℕ) : ℕ → ℕ → Option (Option ℕ)
  | 0, _ => none
  | fuel + 1, i =>
    if i = blkIndex then some none
    else
      let i := if i = c.blkNums then 0 else i
      if (s.blockInfo i).space > len then some (some i) else calcScan s len blkIndex fuel (i + 1)

/-- The block `kv_item_calc_pos` moves to: `calcScan` over every block. -/
def calcBlk (s : KvMgr) (len : ℕ) : Option (Option ℕ) :=
  let blkIndex := s.writePos / blkSize
  if c.blkNums > kvGcReserved + 1 then calcScan c s len blkIndex (c.blkNums + 1) (blkIndex + 1)
  else some none

/-- Take the block `i`: `USED` if it was `CLEAN`. -/
def KvMgr.takeBlk (s : KvMgr) (i : ℕ) : KvMgr :=
  let s := { s with writePos := i * blkSize + blkSize - (s.blockInfo i).space }
  if (s.blockInfo i).state = blkStateClean then
    let s := (s.kvStateSet (i * blkSize) blkStateUsed).setBlkState i blkStateUsed
    { s with cleanBlkNums := s.cleanBlkNums - 1 }
  else s

/-- `kv_item_calc_pos`; `0` is no position, and `none` no return. -/
def kvItemCalcPos (s : KvMgr) (len : ℕ) : Option (KvMgr × ℕ) :=
  let info := s.blockInfo (s.writePos / blkSize)
  if info.space > len then
    let s := if info.space - len < itemMaxLen ∧ s.cleanBlkNums ≤ kvGcReserved then s.triggerGc
      else s
    some (s, s.writePos)
  else
    match calcBlk c s len with
    | none => none
    | some none => some (s.triggerGc, 0)
    | some (some i) =>
      let s := s.takeBlk i
      some (s, s.writePos)

/-! ## Deleting -/

/-- Mark the item at `offset` deleted, and its block dirty. -/
def kvItemRemove (s : KvMgr) (offset : ℕ) : KvMgr :=
  let s := s.kvStateSet offset itemStateDelete
  s.markDirty (offset / blkSize)

/-- The test of `kv_item_del` with `KV_ORIG_REMOVE`: the bytes at `origin_off`
    read as a valid item of the same key. -/
def OrigMatches (f : Flash) (item : KvItem) : Prop :=
  let hdr := readItemHdr f item.hdr.originOff
  hdr.magic = itemMagicNum ∧ hdr.state = itemStateNormal ∧ hdr.keyLen = item.hdr.keyLen ∧
    rawRead f (item.hdr.originOff + itemHeaderSize) hdr.keyLen =
      rawRead f (item.pos + itemHeaderSize) hdr.keyLen

instance (f : Flash) (item : KvItem) : Decidable (OrigMatches f item) :=
  inferInstanceAs (Decidable (_ ∧ _))

/-- `kv_item_del` with `KV_SELF_REMOVE`. -/
def kvItemDel (s : KvMgr) (item : KvItem) : KvMgr := kvItemRemove s item.pos

/-- `kv_item_del` with `KV_ORIG_REMOVE`. -/
def kvItemDelOrig (s : KvMgr) (item : KvItem) : KvMgr :=
  if OrigMatches s.flash item then kvItemRemove s item.hdr.originOff else s

/-! ## Traversal -/

/-- What `kv_item_traverse` calls on each valid item. -/
abbrev ItemFunc := KvItem → KvMgr → KvMgr × KvItem × KvRes

def itemRecoveryCb : ItemFunc := fun item s =>
  if item.hdr.crc = utilsCrc8 (rawRead s.flash (item.pos + itemHeaderSize) item.len) then
    if item.hdr.originOff ≠ 0 ∧ item.pos ≠ item.hdr.originOff then (kvItemDelOrig s item, item, .cont)
    else (s, item, .cont)
  else (kvItemDel s item, item, .cont)

def itemFindCb (key : List UInt8) : ItemFunc := fun item s =>
  if item.hdr.keyLen ≠ key.length then (s, item, .cont)
  else
    let item := { item with store := rawRead s.flash (item.pos + itemHeaderSize) item.len }
    if item.store.take key.length = key then (s, item, .ok) else (s, item, .cont)

def itemGcCb : ItemFunc := fun item s =>
  let len := c.align (itemHeaderSize + item.len)
  let s := s.rawWrite s.writePos (rawRead s.flash item.pos len)
  let s := { s with writePos := s.writePos + len }
  let index := s.writePos / blkSize
  (s.setSpace index ((s.blockInfo index).space - len), item, .cont)

/-- The end of a traversal that finds nothing: the free space of the block. -/
def traverseEnd (s : KvMgr) (blkIndex pos : ℕ) : KvMgr :=
  let end_ := blkIndex * blkSize + blkSize
  s.setSpace blkIndex (if end_ > pos then end_ - pos else itemHeaderSize)

/-- The loop of `kv_item_traverse` at `pos`.  Its test comes first here, as it
    holds where the loop starts. -/
def traverseLoop (func : ItemFunc) (blkIndex : ℕ) : ℕ → ℕ → KvMgr → KvMgr × Option KvItem
  | 0, pos, s => (traverseEnd s blkIndex pos, none)
  | fuel + 1, pos, s =>
    if blkIndex * blkSize + blkSize > pos + itemHeaderSize then
      let hdr := readItemHdr s.flash pos
      if hdr.magic = 0xFF ∧ hdr.state = 0xFF then (traverseEnd s blkIndex pos, none)
      else if hdr.magic ≠ itemMagicNum ∨ hdr.valLen > itemMaxValLen ∨ hdr.keyLen > itemMaxKeyLen then
        traverseLoop func blkIndex fuel (pos + itemHeaderSize) (s.markDirty blkIndex)
      else
        let next := pos + c.align (itemHeaderSize + hdr.keyLen + hdr.valLen)
        if hdr.state = itemStateNormal then
          match func ⟨hdr, [], hdr.keyLen + hdr.valLen, pos⟩ s with
          | (s, item, .ok) => (s, some item)
          | (s, _, .cont) => traverseLoop func blkIndex fuel next s
          | (s, _, _) => (s, none)
        else traverseLoop func blkIndex fuel next (s.markDirty blkIndex)
    else (traverseEnd s blkIndex pos, none)

/-- `kv_item_traverse`; each turn moves at least `ITEM_HEADER_SIZE` bytes. -/
def kvItemTraverse (func : ItemFunc) (blkIndex : ℕ) (s : KvMgr) : KvMgr × Option KvItem :=
  traverseLoop c func blkIndex (blkSize / itemHeaderSize) (blkIndex * blkSize + blkHeaderSize) s

/-- The loop of `kv_item_get` over the blocks. -/
def itemGetFrom (key : List UInt8) : List ℕ → KvMgr → KvMgr × Option KvItem
  | [], s => (s, none)
  | i :: is, s =>
    if (s.blockInfo i).state ≠ blkStateClean then
      match kvItemTraverse c (itemFindCb key) i s with
      | (s, some item) => (s, some item)
      | (s, none) => itemGetFrom key is s
    else itemGetFrom key is s

def kvItemGet (key : List UInt8) (s : KvMgr) : KvMgr × Option KvItem :=
  itemGetFrom c key (List.range c.blkNums) s

/-! ## Storing -/

/-- The bytes `kv_item_store` writes: header, key, value and zeros up to the
    alignment. -/
def itemBytes (key val : List UInt8) (originOff : ℕ) : List UInt8 :=
  let hdr : ItemHdr :=
    { magic := itemMagicNum, state := itemStateNormal, crc := utilsCrc8 (key ++ val),
      keyLen := key.length, valLen := val.length, originOff := originOff }
  let len := itemHeaderSize + key.length + val.length
  hdr.bytes ++ key ++ val ++ List.replicate (c.align len - len) 0

def kvItemStore (s : KvMgr) (key val : List UInt8) (originOff : ℕ) : Option (KvMgr × KvRes) :=
  let len := c.align (itemHeaderSize + key.length + val.length)
  match kvItemCalcPos c s len with
  | none => none
  | some (s, pos) =>
    if pos > 0 then
      let s := s.rawWrite pos (itemBytes c key val originOff)
      let s := { s with writePos := pos + len }
      let index := s.writePos / blkSize
      some (s.setSpace index ((s.blockInfo index).space - len), .ok)
    else some (s, .noSpace)

def kvItemUpdate (s : KvMgr) (item : KvItem) (key val : List UInt8) : Option (KvMgr × KvRes) :=
  if item.hdr.valLen = val.length ∧ (item.store.drop item.hdr.keyLen).take val.length = val then
    some (s, .ok)
  else
    match kvItemStore c s key val item.pos with
    | some (s, .ok) => some (kvItemDel s item, .ok)
    | r => r

/-! ## The interface -/

/-- `aos_kv_set`; `none` when it does not return. -/
def aosKvSet (s : KvMgr) (key val : List UInt8) : Option (KvMgr × KvRes) :=
  if val.length = 0 ∨ key.length > itemMaxKeyLen ∨ val.length > itemMaxValLen then
    some (s, .invalidParam)
  else
    match kvItemGet c key s with
    | (s, some item) => kvItemUpdate c s item key val
    | (s, none) => kvItemStore c s key val 0

/-- `aos_kv_get` with a buffer of `bufferLen` bytes: the result, the bytes
    stored in the buffer and the new `*buffer_len`. -/
def aosKvGet (s : KvMgr) (key : List UInt8) (bufferLen : ℕ) :
    KvMgr × KvRes × List UInt8 × ℕ :=
  if bufferLen = 0 then (s, .invalidParam, [], bufferLen)
  else
    match kvItemGet c key s with
    | (s, none) => (s, .itemNotFound, [], bufferLen)
    | (s, some item) =>
      if bufferLen < item.hdr.valLen then (s, .noSpace, [], item.hdr.valLen)
      else (s, .ok, (item.store.drop item.hdr.keyLen).take item.hdr.valLen, item.hdr.valLen)

def aosKvDel (s : KvMgr) (key : List UInt8) : KvMgr × KvRes :=
  match kvItemGet c key s with
  | (s, none) => (s, .itemNotFound)
  | (s, some item) => (kvItemDel s item, .ok)

/-- The `while` loop of `aos_kv_gc`: the dirty block it collects. -/
def gcVictim (s : KvMgr) (origin : ℕ) : ℕ → ℕ → Option ℕ
  | 0, _ => none
  | fuel + 1, i =>
    let i := if i = c.blkNums then 0 else i
    if (s.blockInfo i).state = blkStateDirty then some i
    else if i = origin then none
    else gcVictim s origin fuel (i + 1)

/-- Copy the items of the block `i` to the write position, format it, and mark
    the block `gcIndex` used. -/
def gcCollect (s : KvMgr) (gcIndex i : ℕ) : KvMgr :=
  let s := (kvItemTraverse c (itemGcCb c) i s).1
  let s := s.kvBlockFormat i
  let s := s.kvStateSet (s.writePos / blkSize * blkSize) blkStateUsed
  let s := s.setBlkState gcIndex blkStateUsed
  { s with cleanBlkNums := s.cleanBlkNums - 1 }

def aosKvGc (s : KvMgr) : KvMgr :=
  let originPos := s.writePos
  let origin := originPos / blkSize
  if s.cleanBlkNums = 0 then { s with gcTriggered := false }
  else
    match (List.range c.blkNums).find? fun i => (s.blockInfo i).state = blkStateClean with
    | none => { s with gcTriggered := false }
    | some gcIndex =>
      let s := { s with writePos := gcIndex * blkSize + blkHeaderSize }
      match gcVictim c s origin (c.blkNums + 1) (origin + 1) with
      | some i => { gcCollect c s gcIndex i with gcTriggered := false }
      | none => { s with writePos := originPos, gcTriggered := false }

/-! ## Initialisation -/

/-- One turn of the first loop of `kv_init`; the list is the stack `unclean`. -/
def initBlock (p : KvMgr × List ℕ) (i : ℕ) : KvMgr × List ℕ :=
  let s := p.1
  let unclean := p.2
  let state := s.flash (i * blkSize + 1)
  if s.flash (i * blkSize) = blkMagicNum then
    if InvalidBlkState state then (s.kvBlockFormat i, unclean)
    else
      let s := (kvItemTraverse c itemRecoveryCb i (s.setBlkState i state)).1
      if state = blkStateClean then
        if (s.blockInfo i).space ≠ blkSize - blkHeaderSize then (s, i :: unclean)
        else ({ s with cleanBlkNums := s.cleanBlkNums + 1 }, unclean)
      else (s, unclean)
  else (s.kvBlockFormat i, unclean)

/-- One turn of the second loop of `kv_init`. -/
def initUnclean (s : KvMgr) (i : ℕ) : KvMgr :=
  if s.cleanBlkNums ≥ kvGcReserved then
    (s.kvStateSet (i * blkSize) blkStateDirty).setBlkState i blkStateDirty
  else s.kvBlockFormat i

/-- The block `kv_init` writes to next: in use, with a clean one behind it. -/
def initWriteBlk (s : KvMgr) : Option ℕ :=
  (List.range c.blkNums).find? fun i =>
    ((s.blockInfo i).state = blkStateUsed ∨ (s.blockInfo i).state = blkStateDirty) ∧
      (s.blockInfo (if i + 1 = c.blkNums then 0 else i + 1)).state = blkStateClean

/-- The last part of `kv_init`: the write position. -/
def initWritePos (s : KvMgr) : KvMgr :=
  if s.cleanBlkNums = c.blkNums then
    let s := { s with writePos := blkHeaderSize }
    let s := (s.kvStateSet (s.writePos / blkSize * blkSize) blkStateUsed).setBlkState 0 blkStateUsed
    { s with cleanBlkNums := s.cleanBlkNums - 1 }
  else
    match initWriteBlk c s with
    | some i => { s with writePos := i * blkSize + blkSize - (s.blockInfo i).space }
    | none => s

def kvInit (s : KvMgr) : KvMgr :=
  let p := (List.range c.blkNums).foldl (initBlock c) (s, [])
  let s := p.2.foldl initUnclean p.1
  let s := if s.cleanBlkNums = 0 then s.kvBlockFormat 0 else s
  initWritePos c s

/-- The manager after `memset`, on a partition. -/
def KvMgr.boot (f : Flash) : KvMgr where
  flash := f
  past := []
  gcTriggered := false
  cleanBlkNums := 0
  writePos := 0
  blockInfo _ := ⟨0, 0⟩

/-- `aos_kv_init` after a reset. -/
def aosKvInit (f : Flash) : KvMgr :=
  let s := kvInit c (.boot f)
  if (s.blockInfo (s.writePos / blkSize)).space < itemMaxLen ∧ s.cleanBlkNums < kvGcReserved + 1 then
    s.triggerGc
  else s

/-- An erased partition. -/
def erased : Flash := fun _ => 0xFF

/-! ## Runs -/

/-- A call of the interface, or a run of the collection task. -/
inductive KvOp where
  | set (key val : List UInt8)
  | get (key : List UInt8) (bufferLen : ℕ)
  | del (key : List UInt8)
  | gc
  deriving DecidableEq, Repr

/-- What a call gives back. -/
inductive KvOut where
  | res (r : KvRes)
  | read (r : KvRes) (buf : List UInt8) (bufferLen : ℕ)
  | done
  deriving DecidableEq, Repr

/-- A call and what it gives back; `none` when it does not return. -/
def kvStep (s : KvMgr) : KvOp → Option (KvMgr × KvOut)
  | .set key val => (aosKvSet c s key val).map fun p => (p.1, .res p.2)
  | .get key bufferLen =>
    let r := aosKvGet c s key bufferLen
    some (r.1, .read r.2.1 r.2.2.1 r.2.2.2)
  | .del key => let r := aosKvDel c s key; some (r.1, .res r.2)
  | .gc => some (aosKvGc c s, .done)

/-- The completed calls as a relation. -/
def KvStep (s : KvMgr) (e : KvOp × KvOut) (s' : KvMgr) : Prop := kvStep c s e.1 = some (s', e.2)

/-- The calls one after the other, and what they give back. -/
def kvRun (s : KvMgr) : List KvOp → Option (KvMgr × List KvOut)
  | [] => some (s, [])
  | op :: ops =>
    match kvStep c s op with
    | none => none
    | some (s, out) => (kvRun s ops).map fun p => (p.1, out :: p.2)

end Kv
