/-
  Key-value store: garbage collection where the heap and the driver may fail.

  A `FaultPattern` says which calls of `aos_malloc`, `raw_read`, `raw_write` and
  `raw_erase` fail during one run of `aos_kv_gc`, each counted from the start
  of the run.  A call that fails leaves the partition as it is.  The functions
  are those of `Store` with the results of these calls, and with a pattern in
  which nothing fails they are the same (`aosKvGcIo_none`).
-/
import AliOS.Kv.Store

namespace Kv

open Lib

/-- The calls that fail, by their number. -/
structure FaultPattern where
  malloc : ℕ → Bool
  read : ℕ → Bool
  write : ℕ → Bool
  erase : ℕ → Bool

/-- Nothing fails. -/
def FaultPattern.none : FaultPattern where
  malloc _ := false
  read _ := false
  write _ := false
  erase _ := false

/-- The manager, and the number of calls of each kind so far. -/
structure KvIo where
  mgr : KvMgr
  mallocs : ℕ
  reads : ℕ
  writes : ℕ
  erases : ℕ

/-- `result_e` with the failures of the driver and the heap. -/
inductive IoRes where
  | ok
  | cont
  | mallocFailed
  | flashReadErr
  | flashWriteErr
  | flashEraseErr
  deriving DecidableEq, Repr

variable (c : KvConfig) (p : FaultPattern)

namespace KvIo

/-- `aos_malloc`: whether there is a buffer. -/
def aosMalloc (io : KvIo) : KvIo × Bool := ({ io with mallocs := io.mallocs + 1 }, !p.malloc io.mallocs)

/-- `raw_read`; `none` when it fails. -/
def rawRead (io : KvIo) (offset nbytes : ℕ) : KvIo × Option (List UInt8) :=
  ({ io with reads := io.reads + 1 },
    if p.read io.reads then none else some (Kv.rawRead io.mgr.flash offset nbytes))

/-- `raw_read` of an item header. -/
def readHdr (io : KvIo) (pos : ℕ) : KvIo × Option ItemHdr :=
  ({ io with reads := io.reads + 1 },
    if p.read io.reads then none else some (readItemHdr io.mgr.flash pos))

/-- `raw_write`: whether it succeeds. -/
def rawWrite (io : KvIo) (offset : ℕ) (buf : List UInt8) : KvIo × Bool :=
  ({ io with
      mgr := if p.write io.writes then io.mgr else io.mgr.rawWrite offset buf
      writes := io.writes + 1 }, !p.write io.writes)

/-- `raw_erase`: whether it succeeds. -/
def rawErase (io : KvIo) (offset size : ℕ) : KvIo × Bool :=
  ({ io with
      mgr := if p.erase io.erases then io.mgr else io.mgr.rawErase offset size
      erases := io.erases + 1 }, !p.erase io.erases)

/-- `kv_state_set`; its callers here do not look at the result. -/
def kvStateSet (io : KvIo) (pos : ℕ) (state : UInt8) : KvIo := (io.rawWrite p (pos + 1) [state]).1

/-- The state of a block goes from `USED` to `DIRTY`, in memory also where the
    write fails. -/
def markDirty (io : KvIo) (index : ℕ) : KvIo :=
  if (io.mgr.blockInfo index).state = blkStateUsed then
    let io := io.kvStateSet p (index * blkSize) blkStateDirty
    { io with mgr := io.mgr.setBlkState index blkStateDirty }
  else io

def kvBlockFormat (io : KvIo) (index : ℕ) : KvIo × IoRes :=
  match io.rawErase p (index * blkSize) blkSize with
  | (io, false) => (io, .flashEraseErr)
  | (io, true) =>
    match io.rawWrite p (index * blkSize) [blkMagicNum, blkStateClean, 0, 0] with
    | (io, false) => (io, .flashWriteErr)
    | (io, true) =>
      let s := io.mgr.setBlockInfo index ⟨blkSize - blkHeaderSize, blkStateClean⟩
      ({ io with mgr := { s with cleanBlkNums := s.cleanBlkNums + 1 } }, .ok)

end KvIo

/-- What `kv_item_traverse` calls on each valid item. -/
abbrev ItemFuncIo := KvItem → KvIo → KvIo × KvItem × IoRes

def itemGcCbIo : ItemFuncIo := fun item io =>
  let len := c.align (itemHeaderSize + item.len)
  match io.aosMalloc p with
  | (io, false) => (io, item, .mallocFailed)
  | (io, true) =>
    match io.rawRead p item.pos len with
    | (io, none) => (io, item, .flashReadErr)
    | (io, some buf) =>
      match io.rawWrite p io.mgr.writePos buf with
      | (io, false) => (io, item, .flashWriteErr)
      | (io, true) =>
        let s := { io.mgr with writePos := io.mgr.writePos + len }
        let index := s.writePos / blkSize
        ({ io with mgr := s.setSpace index ((s.blockInfo index).space - len) }, item, .cont)

/-- The end of a traversal that finds nothing. -/
def traverseEndIo (io : KvIo) (blkIndex pos : ℕ) : KvIo :=
  { io with mgr := traverseEnd io.mgr blkIndex pos }

/-- The loop of `kv_item_traverse` at `pos`.  It gives back `none` when it is
    through the block, and also when a buffer, a read or `func` fails. -/
def traverseLoopIo (func : ItemFuncIo) (blkIndex : ℕ) : ℕ → ℕ → KvIo → KvIo × Option KvItem
  | 0, pos, io => (traverseEndIo io blkIndex pos, none)
  | fuel + 1, pos, io =>
    if blkIndex * blkSize + blkSize > pos + itemHeaderSize then
      match io.aosMalloc p with
      | (io, false) => (io, none)
      | (io, true) =>
        match io.readHdr p pos with
        | (io, none) => (io, none)
        | (io, some hdr) =>
          if hdr.magic = 0xFF ∧ hdr.state = 0xFF then (traverseEndIo io blkIndex pos, none)
          else if hdr.magic ≠ itemMagicNum ∨ hdr.valLen > itemMaxValLen ∨ hdr.keyLen > itemMaxKeyLen then
            traverseLoopIo func blkIndex fuel (pos + itemHeaderSize) (io.markDirty p blkIndex)
          else
            let next := pos + c.align (itemHeaderSize + hdr.keyLen + hdr.valLen)
            if hdr.state = itemStateNormal then
              match func ⟨hdr, [], hdr.keyLen + hdr.valLen, pos⟩ io with
              | (io, item, .ok) => (io, some item)
              | (io, _, .cont) => traverseLoopIo func blkIndex fuel next io
              | (io, _, _) => (io, none)
            else traverseLoopIo func blkIndex fuel next (io.markDirty p blkIndex)
    else (traverseEndIo io blkIndex pos, none)

def kvItemTraverseIo (func : ItemFuncIo) (blkIndex : ℕ) (io : KvIo) : KvIo × Option KvItem :=
  traverseLoopIo c p func blkIndex (blkSize / itemHeaderSize) (blkIndex * blkSize + blkHeaderSize) io

/-- Copy the items of the block `i` to the write position, format it, and mark
    the block `gcIndex` used.  What the traversal gives back is not looked at,
    and a block that cannot be formatted ends the run. -/
def gcCollectIo (io : KvIo) (gcIndex i : ℕ) : KvIo :=
  let io := (kvItemTraverseIo c p (itemGcCbIo c p) i io).1
  match io.kvBlockFormat p i with
  | (io, .ok) =>
    let io := io.kvStateSet p (io.mgr.writePos / blkSize * blkSize) blkStateUsed
    let s := io.mgr.setBlkState gcIndex blkStateUsed
    { io with mgr := { s with cleanBlkNums := s.cleanBlkNums - 1 } }
  | (io, _) => io

/-- `aos_kv_gc` under the pattern `p`. -/
def aosKvGcIo (s : KvMgr) : KvMgr :=
  let originPos := s.writePos
  let origin := originPos / blkSize
  if s.cleanBlkNums = 0 then { s with gcTriggered := false }
  else
    match (List.range c.blkNums).find? fun i => (s.blockInfo i).state = blkStateClean with
    | none => { s with gcTriggered := false }
    | some gcIndex =>
      let s := { s with writePos := gcIndex * blkSize + blkHeaderSize }
      match gcVictim c s origin (c.blkNums + 1) (origin + 1) with
      | some i => { (gcCollectIo c p ⟨s, 0, 0, 0, 0⟩ gcIndex i).mgr with gcTriggered := false }
      | none => { s with writePos := originPos, gcTriggered := false }

/-! ## Nothing fails -/

variable {c}

theorem markDirty_none (io : KvIo) (index : ℕ) :
    (io.markDirty .none index).mgr = io.mgr.markDirty index := by
  unfold KvIo.markDirty KvMgr.markDirty
  split
  · rfl
  · rfl

theorem traverseLoopIo_none (blkIndex fuel pos : ℕ) (io : KvIo) :
    (traverseLoopIo c .none (itemGcCbIo c .none) blkIndex fuel pos io).1.mgr =
      (traverseLoop c (itemGcCb c) blkIndex fuel pos io.mgr).1 := by
  induction fuel generalizing pos io with
  | zero => rfl
  | succ fuel ih =>
    rw [traverseLoopIo, traverseLoop]
    by_cases hend : blkIndex * blkSize + blkSize > pos + itemHeaderSize
    · rw [if_pos hend, if_pos hend]
      rw [show io.aosMalloc .none = (⟨io.mgr, io.mallocs + 1, io.reads, io.writes, io.erases⟩, true) from rfl]
      simp only
      rw [show ∀ io' : KvIo, io'.readHdr .none pos = (⟨io'.mgr, io'.mallocs, io'.reads + 1, io'.writes,
        io'.erases⟩, some (readItemHdr io'.mgr.flash pos)) from fun _ => rfl]
      simp only
      split
      · rfl
      · split
        · rw [ih, markDirty_none]
        · split
          · exact ih _ _
          · rw [ih, markDirty_none]
    · rw [if_neg hend, if_neg hend]
      rfl

theorem gcCollectIo_none (io : KvIo) (gcIndex i : ℕ) :
    (gcCollectIo c .none io gcIndex i).mgr = gcCollect c io.mgr gcIndex i := by
  have hrun := @traverseLoopIo_none c i (blkSize / itemHeaderSize) (i * blkSize + blkHeaderSize) io
  unfold gcCollectIo gcCollect kvItemTraverseIo kvItemTraverse
  rw [← hrun]
  rfl

theorem aosKvGcIo_none (s : KvMgr) : aosKvGcIo c .none s = aosKvGc c s := by
  unfold aosKvGcIo aosKvGc
  by_cases h0 : s.cleanBlkNums = 0
  · simp only [if_pos h0]
  · simp only [if_neg h0]
    cases (List.range c.blkNums).find? fun i => (s.blockInfo i).state = blkStateClean with
    | none => rfl
    | some g =>
      simp only
      cases gcVictim c { s with writePos := g * blkSize + blkHeaderSize } (s.writePos / blkSize)
        (c.blkNums + 1) (s.writePos / blkSize + 1) with
      | none => rfl
      | some v =>
        simp only
        rw [gcCollectIo_none]

end Kv
