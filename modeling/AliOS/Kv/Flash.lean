/-
  Key-value store: the flash partition and the data of `kvmgr.c`.

  The partition is a function from offsets to bytes.  `raw_read`, `raw_write`
  and `raw_erase` are calls of the flash driver, and `aos_malloc` of the heap;
  both succeed here.  Each `raw_write` and `raw_erase` also records the image
  it was called on: a power cut between two of them leaves one of these.
-/
import AliOS.Lib.Cells

namespace Kv

open Lib

/-! ## Constants -/

def blkSize : ℕ := 4096

def blkHeaderSize : ℕ := 4

def itemHeaderSize : ℕ := 8

def itemMaxKeyLen : ℕ := 128

def itemMaxValLen : ℕ := 512

def itemMaxLen : ℕ := itemHeaderSize + itemMaxKeyLen + itemMaxValLen

def kvGcReserved : ℕ := 1

/-- `BLK_MAGIC_NUM`, the letter `K`. -/
abbrev blkMagicNum : UInt8 := 0x4B

/-- `ITEM_MAGIC_NUM`, the letter `I`. -/
abbrev itemMagicNum : UInt8 := 0x49

abbrev blkStateUsed : UInt8 := 0xCC

abbrev blkStateClean : UInt8 := 0xEE

abbrev blkStateDirty : UInt8 := 0x44

abbrev itemStateNormal : UInt8 := 0xEE

abbrev itemStateDelete : UInt8 := 0

def InvalidBlkState (state : UInt8) : Prop :=
  state ≠ blkStateUsed ∧ state ≠ blkStateClean ∧ state ≠ blkStateDirty

instance (state : UInt8) : Decidable (InvalidBlkState state) := inferInstanceAs (Decidable (_ ∧ _))

/-- `BLK_NUMS` and `sizeof(void *)`. -/
structure KvConfig where
  blkNums : ℕ
  ptrSize : ℕ
  two_le : 2 ≤ blkNums
  le_fifteen : blkNums ≤ 15
  ptrSize_eq : ptrSize = 4 ∨ ptrSize = 8

/-- `(len + ~KV_ALIGN_MASK) & KV_ALIGN_MASK`: the next multiple of
    `sizeof(void *)`. -/
def KvConfig.align (c : KvConfig) (len : ℕ) : ℕ := (len + (c.ptrSize - 1)) / c.ptrSize * c.ptrSize

/-! ## Data -/

/-- The bytes of the partition. -/
abbrev Flash := ℕ → UInt8

/-- `item_hdr_t`; the two-byte fields are little-endian. -/
structure ItemHdr where
  magic : UInt8
  state : UInt8
  crc : UInt8
  keyLen : ℕ
  valLen : ℕ
  originOff : ℕ
  deriving DecidableEq, Repr

/-- `kv_item_t`. -/
structure KvItem where
  hdr : ItemHdr
  store : List UInt8
  len : ℕ
  pos : ℕ
  deriving DecidableEq, Repr

/-- `block_info_t`. -/
structure BlockInfo where
  space : ℕ
  state : UInt8
  deriving DecidableEq, Repr

/-- `kv_mgr_t` without its mutex, and the partition: `past` are the images the
    flash operations so far were called on, the latest first. -/
structure KvMgr where
  flash : Flash
  past : List Flash
  gcTriggered : Bool
  cleanBlkNums : ℕ
  writePos : ℕ
  blockInfo : ℕ → BlockInfo

/-- `result_e`, without the failures of the driver and the heap. -/
inductive KvRes where
  | ok
  | cont
  | noSpace
  | invalidParam
  | itemNotFound
  deriving DecidableEq, Repr

/-! ## Flash operations -/

def rawRead (f : Flash) (offset nbytes : ℕ) : List UInt8 := slice f offset nbytes

/-- A two-byte field. -/
def le16 (lo hi : UInt8) : ℕ := lo.toNat + 256 * hi.toNat

/-- The item header at an offset. -/
def readItemHdr (f : Flash) (pos : ℕ) : ItemHdr where
  magic := f pos
  state := f (pos + 1)
  crc := f (pos + 2)
  keyLen := (f (pos + 3)).toNat
  valLen := le16 (f (pos + 4)) (f (pos + 5))
  originOff := le16 (f (pos + 6)) (f (pos + 7))

/-- The bytes of an item header. -/
def ItemHdr.bytes (hdr : ItemHdr) : List UInt8 :=
  [hdr.magic, hdr.state, hdr.crc, UInt8.ofNat hdr.keyLen,
    UInt8.ofNat hdr.valLen, UInt8.ofNat (hdr.valLen / 256),
    UInt8.ofNat hdr.originOff, UInt8.ofNat (hdr.originOff / 256)]

/-- `utils_crc8`, one byte: eight shifts with the polynomial `0x31`. -/
def crcByte (crc : UInt8) : ℕ → UInt8
  | 0 => crc
  | i + 1 => crcByte (if crc &&& 0x80 ≠ 0 then (crc <<< 1) ^^^ 0x31 else crc <<< 1) i

def utilsCrc8 (buf : List UInt8) : UInt8 := buf.foldl (fun crc b => crcByte (crc ^^^ b) 8) 0

namespace KvMgr

def rawWrite (s : KvMgr) (offset : ℕ) (buf : List UInt8) : KvMgr :=
  { s with
    flash := memcpy s.flash offset (fun i => buf.getD i 0) buf.length
    past := s.flash :: s.past }

def rawErase (s : KvMgr) (offset size : ℕ) : KvMgr :=
  { s with
    flash := memcpy s.flash offset (fun _ => 0xFF) size
    past := s.flash :: s.past }

/-- `kv_state_set`, for a block or an item at `pos`. -/
def kvStateSet (s : KvMgr) (pos : ℕ) (state : UInt8) : KvMgr := s.rawWrite (pos + 1) [state]

def setBlockInfo (s : KvMgr) (index : ℕ) (info : BlockInfo) : KvMgr :=
  { s with blockInfo := fun i => if i = index then info else s.blockInfo i }

/-- `block_info[index].state = state`. -/
def setBlkState (s : KvMgr) (index : ℕ) (state : UInt8) : KvMgr :=
  s.setBlockInfo index { s.blockInfo index with state := state }

/-- `block_info[index].space = space`. -/
def setSpace (s : KvMgr) (index space : ℕ) : KvMgr :=
  s.setBlockInfo index { s.blockInfo index with space := space }

/-- `trigger_gc`: the flag; the new task is a step of its own. -/
def triggerGc (s : KvMgr) : KvMgr := { s with gcTriggered := true }

/-- The state of a block goes from `USED` to `DIRTY`, on flash and in memory. -/
def markDirty (s : KvMgr) (index : ℕ) : KvMgr :=
  if (s.blockInfo index).state = blkStateUsed then
    (s.kvStateSet (index * blkSize) blkStateDirty).setBlkState index blkStateDirty
  else s

def kvBlockFormat (s : KvMgr) (index : ℕ) : KvMgr :=
  let s := s.rawErase (index * blkSize) blkSize
  let s := s.rawWrite (index * blkSize) [blkMagicNum, blkStateClean, 0, 0]
  let s := s.setBlockInfo index ⟨blkSize - blkHeaderSize, blkStateClean⟩
  { s with cleanBlkNums := s.cleanBlkNums + 1 }

end KvMgr

end Kv
