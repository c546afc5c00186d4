/-
  Key-value store: the log that a flash image holds.

  A block holds a header and then items, one behind the other; what follows is
  erased.  `Rep c f d` says that the image `f` is the log `d`.  Each flash
  operation of the store is an update of the log: a block changes its state,
  takes an item at its end, has an item deleted, is erased, or gets its header.
-/
import AliOS.Kv.Store

namespace Kv

open Lib

/-! ## Items -/

/-- An item as `kv_item_store` writes it; `live` until it is deleted. -/
structure Item where
  live : Bool
  key : List UInt8
  val : List UInt8
  origin : ℕ
  key_le : key.length ≤ itemMaxKeyLen
  val_pos : 0 < val.length
  val_le : val.length ≤ itemMaxValLen
  origin_lt : origin < 65536

variable (c : KvConfig)

namespace Item

/-- The header of an item. -/
def hdr (it : Item) : ItemHdr where
  magic := itemMagicNum
  state := if it.live then itemStateNormal else itemStateDelete
  crc := utilsCrc8 (it.key ++ it.val)
  keyLen := it.key.length
  valLen := it.val.length
  originOff := it.origin

/-- The space an item takes. -/
def size (it : Item) : ℕ := c.align (itemHeaderSize + it.key.length + it.val.length)

/-- The bytes of an item. -/
def bytes (it : Item) : List UInt8 :=
  it.hdr.bytes ++ it.key ++ it.val ++
    List.replicate (it.size c - (itemHeaderSize + it.key.length + it.val.length)) 0

/-- The item once it is deleted. -/
def dead (it : Item) : Item := { it with live := false }

/-- What `kv_item_traverse` hands to its callback. -/
def view (it : Item) (pos : ℕ) : KvItem := ⟨it.hdr, [], it.key.length + it.val.length, pos⟩

@[simp] theorem dead_size (it : Item) : it.dead.size c = it.size c := rfl

@[simp] theorem dead_live (it : Item) : it.dead.live = false := rfl

end Item

theorem KvConfig.le_align (n : ℕ) : n ≤ c.align n := by
  unfold KvConfig.align
  rcases c.ptrSize_eq with h | h <;> rw [h] <;> omega

theorem KvConfig.align_le {n : ℕ} : c.align n ≤ n + 7 := by
  unfold KvConfig.align
  rcases c.ptrSize_eq with h | h <;> rw [h] <;> omega

namespace Item

theorem le_size (it : Item) : itemHeaderSize + it.key.length + it.val.length ≤ it.size c :=
  c.le_align _

theorem lt_size (it : Item) : itemHeaderSize < it.size c := by
  have := it.le_size c
  have := it.val_pos
  omega

@[simp] theorem bytes_length (it : Item) : (it.bytes c).length = it.size c := by
  have := it.le_size c
  simp only [bytes, ItemHdr.bytes, List.length_append, List.length_cons, List.length_nil,
    List.length_replicate]
  simp only [itemHeaderSize] at *
  omega

end Item

theorem le16_ofNat {n : ℕ} (h : n < 65536) :
    le16 (UInt8.ofNat n) (UInt8.ofNat (n / 256)) = n := by
  simp only [le16, UInt8.toNat_ofNat']
  omega

theorem readItemHdr_bytes {f : Flash} {p : ℕ} {hdr : ItemHdr} (h : Holds f p hdr.bytes)
    (hk : hdr.keyLen < 256) (hv : hdr.valLen < 65536) (ho : hdr.originOff < 65536) :
    readItemHdr f p = hdr := by
  have hg : ∀ i (hi : i < hdr.bytes.length), f (p + i) = hdr.bytes[i] := fun i hi => h.get hi
  have h0 := hg 0 (show 0 < 8 by decide)
  have h1 := hg 1 (show 1 < 8 by decide)
  have h2 := hg 2 (show 2 < 8 by decide)
  have h3 := hg 3 (show 3 < 8 by decide)
  have h4 := hg 4 (show 4 < 8 by decide)
  have h5 := hg 5 (show 5 < 8 by decide)
  have h6 := hg 6 (show 6 < 8 by decide)
  have h7 := hg 7 (show 7 < 8 by decide)
  simp only [ItemHdr.bytes, List.getElem_cons_zero, List.getElem_cons_succ, Nat.add_zero]
    at h0 h1 h2 h3 h4 h5 h6 h7
  unfold readItemHdr
  rw [h0, h1, h2, h3, h4, h5, h6, h7, le16_ofNat hv, le16_ofNat ho, UInt8.toNat_ofNat',
    Nat.mod_eq_of_lt hk]

section
variable {c} {f : Flash} {p : ℕ} {it : Item}

theorem readItemHdr_of_holds (h : Holds f p (it.bytes c)) : readItemHdr f p = it.hdr := by
  have hk : it.key.length ≤ 128 := it.key_le
  have hv : it.val.length ≤ 512 := it.val_le
  rw [Item.bytes, List.append_assoc, List.append_assoc] at h
  refine readItemHdr_bytes (holds_append.1 h).1 ?_ ?_ it.origin_lt
  · simp only [Item.hdr]; omega
  · simp only [Item.hdr]; omega

theorem rawRead_of_holds (h : Holds f p (it.bytes c)) :
    rawRead f (p + itemHeaderSize) (it.key.length + it.val.length) = it.key ++ it.val := by
  rw [Item.bytes, List.append_assoc, List.append_assoc, holds_append, ← List.append_assoc,
    holds_append] at h
  have := h.2.1
  unfold Holds at this
  rwa [List.length_append] at this

theorem rawRead_key_of_holds (h : Holds f p (it.bytes c)) :
    rawRead f (p + itemHeaderSize) it.key.length = it.key := by
  have := rawRead_of_holds h
  unfold rawRead at this ⊢
  rw [slice_append] at this
  exact (List.append_inj this (slice_length ..)).1

theorem holds_dead (h : Holds f p (it.bytes c)) :
    Holds (memcpy f (p + 1) (fun i => [itemStateDelete].getD i 0) 1) p (it.dead.bytes c) := by
  have hs : ∀ it : Item, it.bytes c = itemMagicNum :: it.hdr.state :: (it.bytes c).drop 2 :=
    fun it => rfl
  have hd : (it.dead.bytes c).drop 2 = (it.bytes c).drop 2 := rfl
  rw [hs it, holds_cons, holds_cons] at h
  rw [hs it.dead, hd, holds_cons, holds_cons]
  refine ⟨?_, ?_, h.2.2.memcpy_disjoint (by omega)⟩
  · rw [memcpy_out (by omega)]
    exact h.1
  · rw [memcpy_in (by omega) (by omega), Nat.sub_self]
    rfl

end

/-! ## Items one behind the other -/

/-- The space of a list of items. -/
def itemsSize (its : List Item) : ℕ := (its.map (·.size c)).sum

/-- The bytes of a list of items. -/
def itemsBytes (its : List Item) : List UInt8 := its.flatMap (·.bytes c)

/-- The items with their positions, the first at `pos`. -/
def placed : ℕ → List Item → List (ℕ × Item)
  | _, [] => []
  | pos, it :: its => (pos, it) :: placed (pos + it.size c) its

section
variable {c} {pos p q : ℕ} {it it' : Item} {its its' : List Item}

@[simp] theorem itemsSize_nil : itemsSize c [] = 0 := rfl

@[simp] theorem itemsSize_cons : itemsSize c (it :: its) = it.size c + itemsSize c its := by
  simp [itemsSize]

@[simp] theorem itemsSize_append : itemsSize c (its ++ its') = itemsSize c its + itemsSize c its' := by
  simp [itemsSize]

@[simp] theorem itemsBytes_length : (itemsBytes c its).length = itemsSize c its := by
  induction its with
  | nil => rfl
  | cons it its ih => simp [itemsBytes, itemsSize]

theorem itemsSize_eq_zero : itemsSize c its = 0 ↔ its = [] := by
  cases its with
  | nil => simp
  | cons it its =>
    have := it.lt_size c
    simp only [itemsSize_cons, reduceCtorEq, iff_false]
    omega

theorem placed_nil : placed c pos [] = [] := rfl

theorem placed_cons : placed c pos (it :: its) = (pos, it) :: placed c (pos + it.size c) its := rfl

theorem placed_append :
    placed c pos (its ++ its') = placed c pos its ++ placed c (pos + itemsSize c its) its' := by
  induction its generalizing pos with
  | nil => rfl
  | cons it its ih => simp [placed_cons, ih, Nat.add_assoc]

theorem placed_bounds (h : (p, it) ∈ placed c pos its) :
    pos ≤ p ∧ p + it.size c ≤ pos + itemsSize c its := by
  induction its generalizing pos with
  | nil => simp [placed_nil] at h
  | cons it' its ih =>
    rw [placed_cons, List.mem_cons, Prod.mk.injEq] at h
    rw [itemsSize_cons]
    rcases h with ⟨rfl, rfl⟩ | h
    · omega
    · have := ih h
      omega

theorem placed_split (h : (p, it) ∈ placed c pos its) :
    ∃ pre post, its = pre ++ it :: post ∧ p = pos + itemsSize c pre := by
  induction its generalizing pos with
  | nil => simp [placed_nil] at h
  | cons it' its ih =>
    rw [placed_cons, List.mem_cons, Prod.mk.injEq] at h
    rcases h with ⟨rfl, rfl⟩ | h
    · exact ⟨[], its, rfl, rfl⟩
    · obtain ⟨pre, post, rfl, rfl⟩ := ih h
      exact ⟨it' :: pre, post, rfl, by simp [Nat.add_assoc]⟩

theorem mem_placed_mid : (pos + itemsSize c its, it) ∈ placed c pos (its ++ it :: its') := by
  rw [placed_append, placed_cons]
  simp

theorem placed_inj (h : (p, it) ∈ placed c pos its) (h' : (p, it') ∈ placed c pos its) :
    it = it' := by
  induction its generalizing pos with
  | nil => simp [placed_nil] at h
  | cons it₀ its ih =>
    have hpos := it₀.lt_size c
    rw [placed_cons, List.mem_cons, Prod.mk.injEq] at h h'
    rcases h with ⟨rfl, rfl⟩ | h <;> rcases h' with ⟨hp, rfl⟩ | h'
    · rfl
    · have := placed_bounds h'
      omega
    · have := placed_bounds h
      omega
    · exact ih h h'

/-- The items of the list after one in the middle is replaced by another of its size. -/
theorem mem_placed_replace {pre post : List Item} (hs : it'.size c = it.size c) {x : Item} :
    (q, x) ∈ placed c pos (pre ++ it' :: post) ↔
      (q = pos + itemsSize c pre ∧ x = it') ∨
        (q ≠ pos + itemsSize c pre ∧ (q, x) ∈ placed c pos (pre ++ it :: post)) := by
  have hpos := it.lt_size c
  rw [placed_append, placed_append, placed_cons, placed_cons, hs]
  simp only [List.mem_append, List.mem_cons, Prod.mk.injEq]
  constructor
  · rintro (h | ⟨rfl, rfl⟩ | h)
    · have := placed_bounds h
      have := x.lt_size c
      exact .inr ⟨by omega, .inl h⟩
    · exact .inl ⟨rfl, rfl⟩
    · have := placed_bounds h
      exact .inr ⟨by omega, .inr (.inr h)⟩
  · rintro (⟨rfl, rfl⟩ | ⟨hq, h | ⟨rfl, -⟩ | h⟩)
    · exact .inr (.inl ⟨rfl, rfl⟩)
    · exact .inl h
    · exact absurd rfl hq
    · exact .inr (.inr h)

theorem holds_of_placed {f : Flash} (h : Holds f pos (itemsBytes c its))
    (hp : (p, it) ∈ placed c pos its) : Holds f p (it.bytes c) := by
  obtain ⟨pre, post, rfl, rfl⟩ := placed_split hp
  rw [itemsBytes, List.flatMap_append, List.flatMap_cons, holds_append, holds_append] at h
  have := h.2.1
  rwa [show (pre.flatMap (·.bytes c)).length = itemsSize c pre from itemsBytes_length] at this

end

end Kv
