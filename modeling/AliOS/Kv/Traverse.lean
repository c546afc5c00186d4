/-
  `kv_item_traverse` on any content of a block.

  The scan is a loop of turns (`scanTurn`): one turn reads a header, skips 8 bytes
  where it is none, or goes on over the item, after the callback for an item that
  is not deleted.  The lengths of a header are tested against their limits, but
  not against the end of the block.  `Callback.reads` are the reads of a callback,
  those of the `kv_item_del` in it included.  `traverse_safe_iff` says for which
  contents a traversal stays in its block.
-/
import AliOS.Kv.Layout
import AliOS.Lib.Loop

namespace Kv

open Lib

variable {c : KvConfig} {blk : ℕ} {s : KvMgr}

/-! ## The callbacks -/

/-- The callbacks of `kv_item_traverse`. -/
inductive Callback
  | recovery
  | find (key : List UInt8)
  | gc

def Callback.func (c : KvConfig) : Callback → ItemFunc
  | .recovery => itemRecoveryCb
  | .find key => itemFindCb key
  | .gc => itemGcCb c

/-- `__item_recovery_cb` looks for the item that this one replaces. -/
def LooksBack (f : Flash) (item : KvItem) : Prop :=
  item.hdr.crc = utilsCrc8 (rawRead f (item.pos + itemHeaderSize) item.len) ∧
    item.hdr.originOff ≠ 0 ∧ item.pos ≠ item.hdr.originOff

instance (f : Flash) (item : KvItem) : Decidable (LooksBack f item) := inferInstanceAs (Decidable (_ ∧ _))

/-- The test of `kv_item_del` on the header it finds there. -/
def OrigHeader (f : Flash) (item : KvItem) : Prop :=
  let hdr := readItemHdr f item.hdr.originOff
  hdr.magic = itemMagicNum ∧ hdr.state = itemStateNormal ∧ hdr.keyLen = item.hdr.keyLen

instance (f : Flash) (item : KvItem) : Decidable (OrigHeader f item) := inferInstanceAs (Decidable (_ ∧ _))

/-- What a callback reads of the flash: offsets and lengths. -/
def Callback.reads (c : KvConfig) (f : Flash) (item : KvItem) : Callback → List (ℕ × ℕ)
  | .recovery =>
    (item.pos + itemHeaderSize, item.len) ::
      if LooksBack f item then
        (item.hdr.originOff, itemHeaderSize) ::
          if OrigHeader f item then
            [(item.hdr.originOff + itemHeaderSize, item.hdr.keyLen), (item.pos + itemHeaderSize, item.hdr.keyLen)]
          else []
      else []
  | .find key => if item.hdr.keyLen ≠ key.length then [] else [(item.pos + itemHeaderSize, item.len)]
  | .gc => [(item.pos, c.align (itemHeaderSize + item.len))]

/-! ## The scan -/

/-- The scan: the manager, the position, and the end of the last header accepted, or
    that of the block header. -/
structure ItemScan where
  s : KvMgr
  pos : ℕ
  behind : ℕ

/-- The first byte of a block, and the first one behind it. -/
abbrev blkStart (blk : ℕ) : ℕ := blk * blkSize
abbrev blkEnd (blk : ℕ) : ℕ := blk * blkSize + blkSize

/-- The header at the position. -/
def ItemScan.hdr (x : ItemScan) : ItemHdr := readItemHdr x.s.flash x.pos

/-- The item at the position, as the callback gets it. -/
def ItemScan.item (x : ItemScan) : KvItem := ⟨x.hdr, [], x.hdr.keyLen + x.hdr.valLen, x.pos⟩

/-- The scan reads a header. -/
def ItemScan.Reads (blk : ℕ) (x : ItemScan) : Prop := blkEnd blk > x.pos + itemHeaderSize
/-- It is erased. -/
def ItemScan.Erased (x : ItemScan) : Prop := x.hdr.magic = 0xFF ∧ x.hdr.state = 0xFF
/-- It is not taken for a header. -/
def ItemScan.Skips (x : ItemScan) : Prop :=
  x.hdr.magic ≠ itemMagicNum ∨ x.hdr.valLen > itemMaxValLen ∨ x.hdr.keyLen > itemMaxKeyLen

instance (x : ItemScan) : Decidable (x.Reads blk) := inferInstanceAs (Decidable (_ > _))
instance (x : ItemScan) : Decidable x.Erased := inferInstanceAs (Decidable (_ ∧ _))
instance (x : ItemScan) : Decidable x.Skips := inferInstanceAs (Decidable (_ ∨ _))

/-- Where the next header is. -/
def ItemScan.next (c : KvConfig) (x : ItemScan) : ℕ := x.pos + c.align (itemHeaderSize + x.hdr.keyLen + x.hdr.valLen)

/-- A header is accepted. -/
structure ItemScan.Accepts (blk : ℕ) (x : ItemScan) : Prop where
  reads : x.Reads blk
  erased : ¬ x.Erased
  skips : ¬ x.Skips

/-- One turn of the loop, or its end. -/
def scanTurn (c : KvConfig) (cb : Callback) (blk : ℕ) (x : ItemScan) : Option ItemScan :=
  if x.Reads blk then
    if x.Erased then none
    else if x.Skips then some { x with s := x.s.markDirty blk, pos := x.pos + itemHeaderSize }
    else if x.hdr.state = itemStateNormal then
      match cb.func c x.item x.s with
      | (s, _, .cont) => some ⟨s, x.next c, x.pos + itemHeaderSize⟩
      | _ => none
    else some ⟨x.s.markDirty blk, x.next c, x.pos + itemHeaderSize⟩
  else none

variable {cb : Callback} {x y : ItemScan}

theorem scanTurn_cases (h : scanTurn c cb blk x = some y) :
    x.Reads blk ∧
      (x.Skips ∧ y.pos = x.pos + itemHeaderSize ∧ y.behind = x.behind ∨
        x.Accepts blk ∧ y.pos = x.next c ∧ y.behind = x.pos + itemHeaderSize) := by
  unfold scanTurn at h
  by_cases hreads : x.Reads blk
  · rw [if_pos hreads] at h
    refine ⟨hreads, ?_⟩
    by_cases herased : x.Erased
    · rw [if_pos herased] at h
      cases h
    rw [if_neg herased] at h
    by_cases hskips : x.Skips
    · rw [if_pos hskips] at h
      cases h
      exact .inl ⟨hskips, rfl, rfl⟩
    rw [if_neg hskips] at h
    refine .inr ⟨⟨hreads, herased, hskips⟩, ?_⟩
    by_cases hnormal : x.hdr.state = itemStateNormal
    · rw [if_pos hnormal] at h
      rcases hfunc : cb.func c x.item x.s with ⟨s, item, r⟩
      rw [hfunc] at h
      cases r with
      | cont =>
        cases h
        exact ⟨rfl, rfl⟩
      | ok | noSpace | invalidParam | itemNotFound => cases h
    · rw [if_neg hnormal] at h
      cases h
      exact ⟨rfl, rfl⟩
  · rw [if_neg hreads] at h
    cases h

theorem ItemScan.next_ge (c : KvConfig) (x : ItemScan) : x.pos + itemHeaderSize ≤ x.next c := by
  have halign := c.le_align (itemHeaderSize + x.hdr.keyLen + x.hdr.valLen)
  unfold ItemScan.next
  omega

theorem scanTurn_pos (h : scanTurn c cb blk x = some y) : x.pos + itemHeaderSize ≤ y.pos := by
  rcases (scanTurn_cases h).2 with ⟨-, hpos, -⟩ | ⟨-, hpos, -⟩
  · exact hpos.ge
  · exact hpos ▸ x.next_ge c

/-- Where the scan is: behind the block header and the last header accepted, and not
    farther from the block than one item. -/
structure Placed (blk : ℕ) (x : ItemScan) : Prop where
  start : blkStart blk + blkHeaderSize ≤ x.behind
  behind : x.behind ≤ x.pos
  inside : x.behind < blkEnd blk
  near : x.pos < blkEnd blk + itemMaxLen

theorem Placed.turn (h : Placed blk x) (hturn : scanTurn c cb blk x = some y) : Placed blk y := by
  have h8 : itemHeaderSize = 8 := rfl
  have hmax : itemMaxLen = 648 := rfl
  have hkey : itemMaxKeyLen = 128 := rfl
  have hval : itemMaxValLen = 512 := rfl
  obtain ⟨hstart, hbehind, hinside, -⟩ := h
  have hpos := scanTurn_pos hturn
  obtain ⟨hreads, ⟨-, hy, hb⟩ | ⟨haccepts, hy, hb⟩⟩ := scanTurn_cases hturn
  · unfold ItemScan.Reads at hreads
    exact ⟨by omega, by omega, by omega, by omega⟩
  · -- the lengths have passed their tests
    obtain ⟨-, hlens⟩ := not_or.1 haccepts.skips
    obtain ⟨-, -⟩ := not_or.1 hlens
    have halign := c.align_le (n := itemHeaderSize + x.hdr.keyLen + x.hdr.valLen)
    unfold ItemScan.Reads at hreads
    unfold ItemScan.next at hy
    exact ⟨by omega, by omega, by omega, by omega⟩

/-- The item ends inside of the block; for the collection with the bytes that align it,
    and for the recovery with the item that it looks back to. -/
def Callback.Fits (c : KvConfig) (blk : ℕ) (x : ItemScan) : Callback → Prop
  | .recovery =>
    x.pos + (itemHeaderSize + x.item.len) ≤ blkEnd blk ∧
      (LooksBack x.s.flash x.item → blkStart blk ≤ x.hdr.originOff ∧ x.hdr.originOff + itemHeaderSize ≤ blkEnd blk ∧
        (OrigHeader x.s.flash x.item → x.hdr.originOff + itemHeaderSize + x.hdr.keyLen ≤ blkEnd blk))
  | .find _ => x.pos + (itemHeaderSize + x.item.len) ≤ blkEnd blk
  | .gc => x.next c ≤ blkEnd blk

end Kv
