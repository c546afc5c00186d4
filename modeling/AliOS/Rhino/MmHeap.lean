/-
  Rhino kernel: the two-level heap (`k_mm.c`), and the pool of fixed blocks it
  keeps for small requests (`k_mm_blk.c`).

  A block is the address of its `k_mm_list_t`.  `mem` gives the word at each
  aligned address: the headers, the free lists, which are threaded through the
  payloads, and what the users of the heap store.  The build is the one without
  `RHINO_CONFIG_MM_DEBUG` and `K_MM_STATISTIC`; the functions run with the lock
  of the heap held.
-/
import AliOS.Rhino.Bitmap
import AliOS.Rhino.KErr
import AliOS.Lib.Cells

namespace Rhino

open Lib

/-! ## Constants -/

/-- A build: `sizeof(void *)`, `MAX_MM_BIT`, `RHINO_CONFIG_MM_TLF_BLK_SIZE`,
    `sizeof(k_mm_head)` and `sizeof(mblk_pool_t)`.  The least heap that
    `krhino_init_mm_head` takes has room for the head, the headers and a block. -/
structure MmConfig where
  ptrSize : ℕ
  maxMmBit : ℕ
  tlfBlkSize : ℕ
  mmHeadSize : ℕ
  mblkPoolSize : ℕ
  ptrSize_eq : ptrSize = 4 ∨ ptrSize = 8
  le_maxMmBit : 7 ≤ maxMmBit
  maxMmBit_le : maxMmBit ≤ 30
  mmHeadSize_dvd : ptrSize ∣ mmHeadSize
  mblkPoolSize_dvd : ptrSize ∣ mblkPoolSize
  mblkPoolSize_pos : 0 < mblkPoolSize
  mblkPoolSize_le : mblkPoolSize ≤ 1024
  room : mmHeadSize + 10 * ptrSize ≤ 1024 + tlfBlkSize

namespace MmConfig

variable (c : MmConfig)

/-- The values of a `size_t`. -/
def words : ℕ := 2 ^ (8 * c.ptrSize)

def maxMmSize : ℕ := 2 ^ c.maxMmBit

/-- `FLT_SIZE`; `MIN_FLT_BIT` is 7. -/
def fltSize : ℕ := c.maxMmBit - 7 + 1

/-- `MMLIST_HEAD_SIZE`. -/
def headSize : ℕ := 2 * c.ptrSize

/-- `sizeof(k_mm_list_t)`. -/
def listSize : ℕ := 4 * c.ptrSize

/-- `AOS_MM_TLF_ALLOC_MIN_LENGTH`. -/
def minLength : ℕ := 2 * c.ptrSize

/-- The sum of two `size_t`. -/
def add (a b : ℕ) : ℕ := (a + b) % c.words

/-- The difference of two `size_t`. -/
def sub (a b : ℕ) : ℕ := (a + c.words - b) % c.words

/-- `MM_ALIGN_UP`. -/
def alignUp (a : ℕ) : ℕ := c.add a (c.ptrSize - 1) / c.ptrSize * c.ptrSize

/-- `MM_ALIGN_DOWN`. -/
def alignDown (a : ℕ) : ℕ := a / c.ptrSize * c.ptrSize

/-- `x & RHINO_MM_BLKSIZE_MASK`. -/
def blkSize (x : ℕ) : ℕ := x % 2 ^ 32 / c.ptrSize * c.ptrSize

end MmConfig

def minFltSize : ℕ := 128

def maxLog2Slt : ℕ := 5

def sltSize : ℕ := 32

def defFixBlkSize : ℕ := 32

def minFreeMemorySize : ℕ := 1024

/-! ## The flags of a size word -/

/-- `x & RHINO_MM_FREE`. -/
def isFree (x : ℕ) : Prop := x % 2 = 1

/-- `x & RHINO_MM_PREVFREE`. -/
def isPrevFree (x : ℕ) : Prop := x / 2 % 2 = 1

instance (x : ℕ) : Decidable (isFree x) := inferInstanceAs (Decidable (_ = _))
instance (x : ℕ) : Decidable (isPrevFree x) := inferInstanceAs (Decidable (_ = _))

/-- `x | RHINO_MM_FREE`. -/
def setFree (x : ℕ) : ℕ := if isFree x then x else x + 1

/-- `x & ~RHINO_MM_FREE`. -/
def clearFree (x : ℕ) : ℕ := if isFree x then x - 1 else x

/-- `x | RHINO_MM_PREVFREE`. -/
def setPrevFree (x : ℕ) : ℕ := if isPrevFree x then x else x + 2

/-- `x & ~RHINO_MM_PREVFREE`. -/
def clearPrevFree (x : ℕ) : ℕ := if isPrevFree x then x - 2 else x

/-- `x & RHINO_MM_PRESTAT_MASK`. -/
def prestat (x : ℕ) : ℕ := if isPrevFree x then 2 else 0

/-! ## The heap -/

/-- `mblk_pool_t`, the pool of fixed blocks; 0 is NULL. -/
structure MblkPool where
  blkAvail : ℕ
  availList : ℕ
  deriving DecidableEq, Repr

/-- `k_mm_head`, with the memory it manages and the pool in `fixedmblk`; 0 is
    NULL. -/
structure MmHeap where
  mem : ℕ → ℕ
  flBitmap : BitVec 32
  slBitmap : ℕ → BitVec 32
  mmTbl : ℕ → ℕ → ℕ
  fixedmblk : ℕ
  pool : MblkPool

namespace MmHeap

variable (c : MmConfig) (h : MmHeap)

/-- Write a word. -/
def write (a x : ℕ) : MmHeap := { h with mem := Function.update h.mem a x }

/-- `b->prev`. -/
def prev (b : ℕ) : ℕ := h.mem b

/-- `b->size`. -/
def size (b : ℕ) : ℕ := h.mem (b + c.ptrSize)

/-- `b->mbinfo.free_ptr.prev`. -/
def freePrev (b : ℕ) : ℕ := h.mem (b + 2 * c.ptrSize)

/-- `b->mbinfo.free_ptr.next`. -/
def freeNext (b : ℕ) : ℕ := h.mem (b + 3 * c.ptrSize)

def setPrev (b x : ℕ) : MmHeap := h.write b x

def setSize (b x : ℕ) : MmHeap := h.write (b + c.ptrSize) x

def setFreePrev (b x : ℕ) : MmHeap := h.write (b + 2 * c.ptrSize) x

def setFreeNext (b x : ℕ) : MmHeap := h.write (b + 3 * c.ptrSize) x

def setTbl (flt slt x : ℕ) : MmHeap :=
  { h with mmTbl := Function.update h.mmTbl flt (Function.update (h.mmTbl flt) slt x) }

/-- `b->mbinfo.buffer`. -/
def buffer (b : ℕ) : ℕ := b + c.headSize

/-- `NEXT_MM_BLK(b->mbinfo.buffer, b->size & RHINO_MM_BLKSIZE_MASK)`. -/
def nextMmBlk (b : ℕ) : ℕ := b + c.headSize + c.blkSize (h.size c b)

end MmHeap

/-! ## The class of a size -/

inductive SearchAction where
  | insert | get
  deriving DecidableEq, Repr

variable (c : MmConfig)

/-- `31 - krhino_find_first_bit((uint32_t *)&size)`, the words of a `size_t`
    being little-endian; `none` where it reads behind them. -/
def sizeLastBit (size : ℕ) : Option ℕ :=
  let lo := BitVec.ofNat 32 size
  let hi := BitVec.ofNat 32 (size / 2 ^ 32)
  if lo ≠ 0 then some (31 - krhinoFindFirstBit lo)
  else if c.ptrSize = 8 ∧ hi ≠ 0 then some (c.sub 31 (32 + krhinoFindFirstBit hi))
  else none

/-- `1 << n` as a `size_t`; `none` where C leaves it undefined, and for 31 what
    the compilers give, the least `int`. -/
def intShl (n : ℕ) : Option ℕ :=
  if n < 31 then some (2 ^ n) else if n = 31 then some (c.words - 2 ^ 31) else none

/-- The second branch of `bitmap_search`, behind the padding. -/
def searchClass (tmpSize firstbit : ℕ) : Option (ℕ × ℕ) :=
  (intShl c firstbit).bind fun top =>
    let tmpSize := c.sub tmpSize top
    let shift := c.sub firstbit maxLog2Slt
    if shift < 8 * c.ptrSize then some (c.sub (firstbit + 1) 7, tmpSize >>> shift) else none

/-- The class of `size`: `*flt` and `*slt` of `bitmap_search`; `none` where it is
    undefined. -/
def searchIdx (size : ℕ) (action : SearchAction) : Option (ℕ × ℕ) :=
  if size < minFltSize then some (0, size >>> 2)
  else
    (sizeLastBit c size).bind fun firstbit =>
      match action with
      | .insert => searchClass c size firstbit
      | .get =>
        (intShl c (c.sub firstbit maxLog2Slt)).bind fun paddingSize =>
          let tmpSize := c.add size (paddingSize - 1)
          (sizeLastBit c tmpSize).bind fun firstbit => searchClass c tmpSize firstbit

/-- `bitmap_search`: the status, `*flt` and `*slt`. -/
def bitmapSearch (size : ℕ) (action : SearchAction) : Option (KStat × ℕ × ℕ) :=
  (searchIdx c size action).map fun p =>
    (if p.1 ≥ c.fltSize ∨ p.2 ≥ sltSize then .mmFreeAddrErr else .success, p)

/-- The list of a free block of `size` bytes.  The status of `bitmap_search` is
    not looked at: where it is an error the index is outside of `mm_tbl`. -/
def insertIdx (size : ℕ) : Option (ℕ × ℕ) :=
  (bitmapSearch c size .insert).bind fun s => if s.1 = .success then some s.2 else none

/-- The size that `k_mm_alloc` looks for. -/
def allocSize (size : ℕ) : ℕ :=
  let size := c.alignUp size
  if size < c.minLength then c.minLength else size

/-- The size that `k_mm_realloc` gives a block. -/
def reallocSize (newSize : ℕ) : ℕ := if newSize < c.listSize then c.listSize else c.alignUp newSize

namespace MmHeap

/-! ## The free lists -/

def insertBlock (h : MmHeap) (blk flt slt : ℕ) : MmHeap :=
  let first := h.mmTbl flt slt
  let h := (h.setFreePrev c blk 0).setFreeNext c blk first
  let h := if first ≠ 0 then h.setFreePrev c first blk else h
  let h := h.setTbl flt slt blk
  { h with
    slBitmap := Function.update h.slBitmap flt (krhinoBitmapSet (h.slBitmap flt) (31 - slt))
    flBitmap := krhinoBitmapSet h.flBitmap (31 - flt) }

/-- The bits of a list that has got empty. -/
def clearBits (h : MmHeap) (flt slt : ℕ) : MmHeap :=
  if h.mmTbl flt slt = 0 then
    let sl := krhinoBitmapClear (h.slBitmap flt) (31 - slt)
    { h with
      slBitmap := Function.update h.slBitmap flt sl
      flBitmap := if sl = 0 then krhinoBitmapClear h.flBitmap (31 - flt) else h.flBitmap }
  else h

def getBlock (h : MmHeap) (blk flt slt : ℕ) : MmHeap :=
  let h := if h.freeNext c blk ≠ 0 then h.setFreePrev c (h.freeNext c blk) (h.freePrev c blk) else h
  let h := if h.freePrev c blk ≠ 0 then h.setFreeNext c (h.freePrev c blk) (h.freeNext c blk) else h
  let h := if h.mmTbl flt slt = blk then (h.setTbl flt slt (h.freeNext c blk)).clearBits flt slt else h
  (h.setFreePrev c blk 0).setFreeNext c blk 0

/-- `findblk_byidx`: the block, `*flt` and `*slt`. -/
def findblkByidx (h : MmHeap) (flt slt : ℕ) : ℕ × ℕ × ℕ :=
  let tmp := h.slBitmap flt &&& (BitVec.allOnes 32 <<< slt)
  if tmp ≠ 0 then
    let slt := findLastBit tmp
    (h.mmTbl flt slt, flt, slt)
  else
    let flt := findLastBit (h.flBitmap &&& (BitVec.allOnes 32 <<< (flt + 1)))
    if flt > 0 then
      let slt := findLastBit (h.slBitmap flt)
      (h.mmTbl flt slt, flt, slt)
    else (0, flt, slt)

/-! ## The fixed blocks -/

/-- `k_mm_smallblk_alloc`, with `krhino_mblk_alloc`; called where a block is
    available. -/
def kMmSmallblkAlloc (h : MmHeap) : MmHeap × ℕ :=
  let blk := h.pool.availList
  ({ h with pool := ⟨h.pool.blkAvail - 1, h.mem blk⟩ }, blk)

/-- `k_mm_smallblk_free`, with `krhino_mblk_free`. -/
def kMmSmallblkFree (h : MmHeap) (ptr : ℕ) : MmHeap :=
  { h.write ptr h.pool.availList with pool := ⟨h.pool.blkAvail + 1, ptr⟩ }

def IsFixedBlk (h : MmHeap) (ptr : ℕ) : Prop :=
  h.fixedmblk ≠ 0 ∧ buffer c h.fixedmblk < ptr ∧ ptr < buffer c h.fixedmblk + h.size c h.fixedmblk

instance (h : MmHeap) (ptr : ℕ) : Decidable (h.IsFixedBlk c ptr) :=
  inferInstanceAs (Decidable (_ ∧ _))

/-! ## Allocation -/

/-- The list of the class `(fl, sl)` loses its first block `b`. -/
def takeFirst (h : MmHeap) (b fl sl : ℕ) : MmHeap :=
  let h := h.setTbl fl sl (h.freeNext c b)
  let h := if h.mmTbl fl sl ≠ 0 then h.setFreePrev c (h.mmTbl fl sl) 0 else h.clearBits fl sl
  (h.setFreePrev c b 0).setFreeNext c b 0

/-- The end of `k_mm_alloc`: the block `b`, off its list, is split or used
    whole. -/
def splitBlk (h : MmHeap) (b size : ℕ) : Option MmHeap :=
  let nextB := h.nextMmBlk c b
  let tmpSize := c.sub (c.blkSize (h.size c b)) size
  if tmpSize ≥ c.listSize then
    let tmpSize := tmpSize - c.headSize
    let b2 := c.add (buffer c b) size
    -- `next_b->prev` is written between the header of `b2` and its list
    let h := (h.setSize c b2 (tmpSize + 1)).setPrev nextB b2
    (insertIdx c tmpSize).map fun s =>
      let h := h.insertBlock c b2 s.1 s.2
      h.setSize c b (size + prestat (h.size c b))
  else
    let h := h.setSize c nextB (clearPrevFree (h.size c nextB))
    some (h.setSize c b (clearFree (h.size c b)))

/-- The search of `k_mm_alloc`: the block that is found, or 0, and the class it
    is in. -/
def findBlk (h : MmHeap) (size : ℕ) : Option (ℕ × ℕ × ℕ) :=
  (bitmapSearch c size .get).map fun s =>
    if s.1 ≠ .success then (0, s.2) else h.findblkByidx s.2.1 s.2.2

/-- `k_mm_alloc` behind the fixed blocks. -/
def tlfAlloc (h : MmHeap) (size : ℕ) : Option (MmHeap × ℕ) :=
  let size := allocSize c size
  (h.findBlk c size).bind fun (b, fl, sl) =>
    if b = 0 then some (h, 0)
    else ((h.takeFirst c b fl sl).splitBlk c b size).map fun h => (h, buffer c b)

/-- `k_mm_alloc`; `none` where the C code is undefined. -/
def kMmAlloc (h : MmHeap) (size : ℕ) : Option (MmHeap × ℕ) :=
  if size = 0 then some (h, 0)
  else if h.fixedmblk ≠ 0 ∧ size ≤ defFixBlkSize ∧ h.pool.blkAvail > 0 then
    let r := h.kMmSmallblkAlloc
    if r.2 ≠ 0 then some r else tlfAlloc c r.1 size
  else tlfAlloc c h size

/-! ## Freeing -/

/-- A free neighbour leaves its list. -/
def takeOut (h : MmHeap) (t : ℕ) : Option MmHeap :=
  (insertIdx c (c.blkSize (h.size c t))).map fun s => h.getBlock c t s.1 s.2

/-- `b` takes in the block behind it, where that is free. -/
def mergeNext (h : MmHeap) (b : ℕ) : Option MmHeap :=
  let tmpB := h.nextMmBlk c b
  if isFree (h.size c tmpB) then
    (h.takeOut c tmpB).map fun h =>
      h.setSize c b (c.add (h.size c b) (c.blkSize (h.size c tmpB) + c.headSize))
  else some h

/-- The block before `b` takes it in, where that is free; the block then. -/
def mergePrev (h : MmHeap) (b : ℕ) : Option (MmHeap × ℕ) :=
  if isPrevFree (h.size c b) then
    let tmpB := h.prev b
    (h.takeOut c tmpB).map fun h =>
      (h.setSize c tmpB (c.add (h.size c tmpB) (c.blkSize (h.size c b) + c.headSize)), tmpB)
  else some (h, b)

/-- `b` enters its list, and the block behind it is told. -/
def linkFree (h : MmHeap) (b : ℕ) : Option MmHeap :=
  (insertIdx c (c.blkSize (h.size c b))).map fun s =>
    let h := h.insertBlock c b s.1 s.2
    let tmpB := h.nextMmBlk c b
    let h := h.setSize c tmpB (setPrevFree (h.size c tmpB))
    h.setPrev tmpB b

/-- `k_mm_free` behind the fixed blocks. -/
def tlfFree (h : MmHeap) (ptr : ℕ) : Option MmHeap :=
  let b := c.sub ptr c.headSize
  let h := h.setSize c b (setFree (h.size c b))
  (h.mergeNext c b).bind fun h => (h.mergePrev c b).bind fun (h, b) => h.linkFree c b

def kMmFree (h : MmHeap) (ptr : ℕ) : Option MmHeap :=
  if ptr = 0 then some h
  else if h.IsFixedBlk c ptr then some (h.kMmSmallblkFree ptr)
  else h.tlfFree c ptr

/-! ## Reallocation -/

/-- `memcpy`, of whole words. -/
def memcpy (h : MmHeap) (dst src n : ℕ) : MmHeap :=
  { h with mem := fun a => if dst ≤ a ∧ a < dst + n then h.mem (src + (a - dst)) else h.mem a }

/-- The `tmp_size` bytes behind the first `new_size` of `b`, which `next_b`
    follows, become a free block, where they are enough for one. -/
def cutTail (h : MmHeap) (b nextB newSize tmpSize : ℕ) : Option MmHeap :=
  if tmpSize ≥ c.listSize then
    let tmpSize := tmpSize - c.headSize
    let tmpB := c.add (buffer c b) newSize
    let h := (h.setSize c tmpB (tmpSize + 1)).setPrev nextB tmpB
    let h := h.setSize c nextB (setPrevFree (h.size c nextB))
    (insertIdx c tmpSize).map fun s =>
      let h := h.insertBlock c tmpB s.1 s.2
      h.setSize c b (newSize + prestat (h.size c b))
  else some h

/-- The block `b` of `tmp_size` bytes keeps `new_size` of them. -/
def shrink (h : MmHeap) (b nextB newSize tmpSize : ℕ) : Option MmHeap :=
  if isFree (h.size c nextB) then
    (h.takeOut c nextB).bind fun h =>
      let tmpSize := c.add tmpSize (c.blkSize (h.size c nextB) + c.headSize)
      h.cutTail c b (h.nextMmBlk c nextB) newSize (c.sub tmpSize newSize)
  else h.cutTail c b nextB newSize (c.sub tmpSize newSize)

/-- The block `b` takes in the free block behind it, and keeps `new_size` bytes. -/
def grow (h : MmHeap) (b nextB newSize : ℕ) : Option MmHeap :=
  (h.takeOut c nextB).bind fun h =>
    let h := h.setSize c b (c.add (h.size c b) (c.blkSize (h.size c nextB) + c.headSize))
    let nextB := h.nextMmBlk c b
    let h := h.setPrev nextB b
    let h := h.setSize c nextB (clearPrevFree (h.size c nextB))
    h.cutTail c b nextB newSize (c.sub (c.blkSize (h.size c b)) newSize)

/-- `k_mm_realloc` behind the fixed blocks. -/
def tlfRealloc (h : MmHeap) (oldmem newSize : ℕ) : Option (MmHeap × ℕ) :=
  let b := c.sub oldmem c.headSize
  let tmpSize := c.blkSize (h.size c b)
  let nextB := h.nextMmBlk c b
  let newSize := reallocSize c newSize
  if newSize ≤ tmpSize then (h.shrink c b nextB newSize tmpSize).map fun h => (h, buffer c b)
  else if isFree (h.size c nextB) ∧ newSize ≤ c.add tmpSize (c.blkSize (h.size c nextB)) then
    (h.grow c b nextB newSize).map fun h => (h, buffer c b)
  else
    (kMmAlloc c h newSize).bind fun (h, ptrAux) =>
      if ptrAux = 0 then some (h, 0)
      else
        let cpsize := if c.blkSize (h.size c b) > newSize then newSize else c.blkSize (h.size c b)
        (kMmFree c (h.memcpy ptrAux oldmem cpsize) oldmem).map fun h => (h, ptrAux)

/-- `k_mm_realloc` of a fixed block. -/
def fixedRealloc (h : MmHeap) (oldmem newSize : ℕ) : Option (MmHeap × ℕ) :=
  if newSize ≤ defFixBlkSize then some (h, oldmem)
  else
    (kMmAlloc c h newSize).map fun (h, ptrAux) =>
      if ptrAux = 0 then (h, 0)
      else ((h.memcpy ptrAux oldmem defFixBlkSize).kMmSmallblkFree oldmem, ptrAux)

def kMmRealloc (h : MmHeap) (oldmem newSize : ℕ) : Option (MmHeap × ℕ) :=
  if oldmem = 0 then if newSize ≠ 0 then kMmAlloc c h newSize else some (h, 0)
  else if newSize = 0 then (kMmFree c h oldmem).map fun h => (h, 0)
  else if h.IsFixedBlk c oldmem then h.fixedRealloc c oldmem newSize
  else h.tlfRealloc c oldmem newSize

/-! ## The beginning -/

/-- `init_mm_region`; the region info is a word for `end` and one for `next`. -/
def initMmRegion (h : MmHeap) (regionaddr len : ℕ) : MmHeap :=
  let firstblk := regionaddr
  let h := h.setSize c firstblk (c.alignUp (2 * c.ptrSize))
  let curblk := h.nextMmBlk c firstblk
  let h := h.setSize c curblk (c.alignDown (c.sub len (c.alignUp (2 * c.ptrSize) + 3 * c.headSize)))
  let h := (h.setFreePrev c curblk 0).setFreeNext c curblk 0
  let lastblk := h.nextMmBlk c curblk
  let h := (h.setPrev lastblk curblk).setSize c lastblk 2
  (h.write (buffer c firstblk + c.ptrSize) 0).write (buffer c firstblk) lastblk

/-- The loop of `krhino_mblk_pool_init`, of at most as many steps as the first
    argument says: the heap and `blks`. -/
def linkBlks (poolEnd : ℕ) : ℕ → MmHeap → ℕ → ℕ → MmHeap × ℕ
  | 0, h, _, blks => (h, blks)
  | n + 1, h, blkCur, blks =>
    let blkNext := blkCur + defFixBlkSize
    if blkNext < poolEnd then linkBlks poolEnd n (h.write blkCur blkNext) blkNext (blks + 1)
    else (h.write blkCur 0, if blkNext = poolEnd then blks + 1 else blks)

/-- `krhino_mblk_pool_init` of the fixed blocks; `none` where it fails. -/
def krhinoMblkPoolInit (h : MmHeap) (poolStart poolSize : ℕ) : Option MmHeap :=
  if poolSize < 2 * defFixBlkSize then none
  else if poolStart % c.ptrSize > 0 ∨ defFixBlkSize % c.ptrSize > 0 ∨ poolSize % c.ptrSize > 0 then none
  else
    let (h, blks) := linkBlks (poolStart + poolSize) poolSize h poolStart 0
    some { h with pool := ⟨blks, poolStart⟩ }

/-- The end of `krhino_init_mm_head`: the block of the fixed blocks. -/
def initFixed (h : MmHeap) : Option MmHeap :=
  if c.tlfBlkSize > 0 then
    (kMmAlloc c h (c.tlfBlkSize + c.alignUp c.mblkPoolSize)).bind fun (h, mmblkPool) =>
      if mmblkPool ≠ 0 then
        let curblk := c.sub mmblkPool c.headSize
        match krhinoMblkPoolInit c h (mmblkPool + c.alignUp c.mblkPoolSize) c.tlfBlkSize with
        | some h => some { h with fixedmblk := curblk }
        | none => kMmFree c h mmblkPool
      else some h
  else some h

/-- `krhino_init_mm_head` on the memory `mem`: the status and, where it succeeds,
    the heap; `none` where the C code is undefined. -/
def krhinoInitMmHead (mem : ℕ → ℕ) (addr len : ℕ) : Option (KStat × Option MmHeap) :=
  if addr = 0 then some (.nullPtr, none)
  else
    let origAddr := addr
    let addr := c.alignUp addr
    let len := c.alignDown (c.sub len (c.sub addr origAddr))
    if len = 0 ∨ len < minFreeMemorySize + c.tlfBlkSize ∨ len > c.maxMmSize then
      some (.mmPoolSizeErr, none)
    else
      let firstblk := addr + c.alignUp c.mmHeadSize
      let h : MmHeap := ⟨mem, 0, fun _ => 0, fun _ _ => 0, 0, ⟨0, 0⟩⟩
      let h := h.initMmRegion c firstblk (c.alignDown (c.sub len c.mmHeadSize))
      (kMmFree c h (buffer c (h.nextMmBlk c firstblk))).bind fun h =>
        (h.initFixed c).map fun h => (.success, some h)

end MmHeap

end Rhino
