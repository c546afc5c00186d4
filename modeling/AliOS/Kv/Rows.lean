/-
  Key-value store: the headers of a block, one behind the other.

  `Chained c f b ns` says that the block `b` holds items of the sizes `ns`, from
  its header on, and is erased behind them.  Of an item only what positions are
  computed from counts: its magic number, its lengths, and an origin where an
  item may begin.  A deletion does not touch any of it, even where it is led by
  an origin to bytes that only look like a header: those begin at a multiple of
  4, and no length has such a second byte (`Row.kill`).
-/
import AliOS.Kv.Layout
import AliOS.Kv.Widths

namespace Kv

open Lib

variable {c : KvConfig} {f f' : Flash} {b pos q n : ℕ} {ns ms : List ℕ}

/-! ## Headers -/

variable (c) in
/-- At `pos` is the header of an item of `n` bytes. -/
structure HeaderAt (f : Flash) (pos n : ℕ) : Prop where
  magic : f pos = itemMagicNum
  keyLen : (readItemHdr f pos).keyLen ≤ itemMaxKeyLen
  valLen : (readItemHdr f pos).valLen ≤ itemMaxValLen
  size : c.align (itemHeaderSize + (readItemHdr f pos).keyLen + (readItemHdr f pos).valLen) = n
  origin : (readItemHdr f pos).originOff % 4 = 0

theorem align_mod (m : ℕ) : c.align m % 4 = 0 := by
  unfold KvConfig.align
  rcases c.ptrSize_eq with h | h
  · rw [h]
    omega
  · rw [h]
    omega

theorem HeaderAt.mod (h : HeaderAt c f pos n) : n % 4 = 0 := by
  rw [← h.size]
  exact align_mod _

theorem HeaderAt.size_ge (h : HeaderAt c f pos n) : itemHeaderSize ≤ n := by
  rw [← h.size]
  have := c.le_align (itemHeaderSize + (readItemHdr f pos).keyLen + (readItemHdr f pos).valLen)
  omega

/-- The header, wherever its bytes are copied to; its state and its CRC do not count. -/
theorem HeaderAt.copy (h : HeaderAt c f pos n) (hf : ∀ i < 8, i ≠ 1 → i ≠ 2 → f' (q + i) = f (pos + i)) :
    HeaderAt c f' q n := by
  have h0 : f' q = f pos := hf 0 (by decide) (by decide) (by decide)
  have hkey : (readItemHdr f' q).keyLen = (readItemHdr f pos).keyLen := by
    unfold readItemHdr
    rw [hf 3 (by decide) (by decide) (by decide)]
  have hval : (readItemHdr f' q).valLen = (readItemHdr f pos).valLen := by
    unfold readItemHdr
    rw [hf 4 (by decide) (by decide) (by decide), hf 5 (by decide) (by decide) (by decide)]
  have horigin : (readItemHdr f' q).originOff = (readItemHdr f pos).originOff := by
    unfold readItemHdr
    rw [hf 6 (by decide) (by decide) (by decide), hf 7 (by decide) (by decide) (by decide)]
  exact ⟨h0.trans h.magic, hkey ▸ h.keyLen, hval ▸ h.valLen, by rw [hkey, hval]; exact h.size, horigin ▸ h.origin⟩

/-! ## Rows -/

variable (c) in
/-- From `pos` on there are items of the sizes `ns`. -/
def Row (f : Flash) : ℕ → List ℕ → Prop
  | _, [] => True
  | pos, n :: ns => HeaderAt c f pos n ∧ Row f (pos + n) ns

theorem row_append : Row c f pos (ns ++ ms) ↔ Row c f pos ns ∧ Row c f (pos + ns.sum) ms := by
  induction ns generalizing pos with
  | nil => simp [Row]
  | cons n ns ih => simp [Row, ih, and_assoc, Nat.add_assoc]

theorem Row.congr (h : Row c f pos ns) (hf : ∀ o, pos ≤ o → o < pos + ns.sum → f' o = f o) : Row c f' pos ns := by
  induction ns generalizing pos with
  | nil => trivial
  | cons n ns ih =>
    obtain ⟨hhead, hrest⟩ := h
    have hsize := hhead.size_ge
    rw [List.sum_cons] at hf
    unfold itemHeaderSize at hsize
    refine ⟨hhead.copy fun i hi _ _ => hf _ (by omega) (by omega), ih hrest fun o h1 h2 => hf o (by omega) (by omega)⟩

/-- **A deletion** keeps a row, at whatever bytes that look like a valid item. -/
theorem Row.kill (h : Row c f pos ns) (hpos : pos % 4 = 0) (hq : q % 4 = 0) (hmagic : f q = itemMagicNum)
    (hstate : f (q + 1) = itemStateNormal) (hf : ∀ o, o ≠ q + 1 → f' o = f o) : Row c f' pos ns := by
  induction ns generalizing pos with
  | nil => trivial
  | cons n ns ih =>
    obtain ⟨hhead, hrest⟩ := h
    have hmod := hhead.mod
    refine ⟨hhead.copy fun i hi h1 h2 => hf _ ?_, ih hrest (by omega)⟩
    by_cases h5 : i = 5
    · -- the high byte of a length is no state
      subst h5
      intro he
      obtain rfl : q = pos + 4 := by omega
      have hval := hhead.valLen
      have hread : (readItemHdr f pos).valLen = le16 itemMagicNum itemStateNormal := by
        rw [← hmagic, ← hstate]
        rfl
      rw [hread] at hval
      exact absurd hval (by decide)
    · omega

/-! ## Blocks -/

/-- The end of the items of a block. -/
def rowEnd (b : ℕ) (ns : List ℕ) : ℕ := b * blkSize + blkHeaderSize + ns.sum

variable (c) in
/-- The block `b` holds items of the sizes `ns`, and has room behind them. -/
structure Chained (f : Flash) (b : ℕ) (ns : List ℕ) : Prop where
  row : Row c f (b * blkSize + blkHeaderSize) ns
  room : blkHeaderSize + ns.sum < blkSize
  erased : ∀ o, rowEnd b ns ≤ o → o < b * blkSize + blkSize → f o = 0xFF

theorem Chained.end_lt (h : Chained c f b ns) : rowEnd b ns < b * blkSize + blkSize := by
  have := h.room
  unfold rowEnd
  omega

theorem blkStart_mod (b : ℕ) : (b * blkSize + blkHeaderSize) % 4 = 0 := by
  unfold blkSize blkHeaderSize
  omega

theorem Chained.congr (h : Chained c f b ns)
    (hf : ∀ o, b * blkSize + blkHeaderSize ≤ o → o < b * blkSize + blkSize → f' o = f o) : Chained c f' b ns := by
  have hroom := h.room
  refine ⟨h.row.congr fun o h1 h2 => hf o h1 (by omega), hroom, fun o h1 h2 => ?_⟩
  have hle : b * blkSize + blkHeaderSize ≤ rowEnd b ns := Nat.le_add_right _ _
  rw [hf o (by omega) h2]
  exact h.erased o h1 h2

theorem Chained.kill (h : Chained c f b ns) (hq : q % 4 = 0) (hmagic : f q = itemMagicNum)
    (hstate : f (q + 1) = itemStateNormal) (hf : ∀ o, o ≠ q + 1 → f' o = f o) : Chained c f' b ns := by
  refine ⟨h.row.kill (blkStart_mod b) hq hmagic hstate hf, h.room, fun o h1 h2 => ?_⟩
  have ho := h.erased o h1 h2
  rw [hf o ?_]
  · exact ho
  · rintro rfl
    rw [hstate] at ho
    exact absurd ho (by decide)

theorem Chained.snoc (h : Chained c f b ns) (hhead : HeaderAt c f' (rowEnd b ns) n)
    (hroom : blkHeaderSize + ns.sum + n < blkSize)
    (hf : ∀ o, o < rowEnd b ns ∨ rowEnd b ns + n ≤ o → f' o = f o) : Chained c f' b (ns ++ [n]) := by
  have hsum : (ns ++ [n]).sum = ns.sum + n := by simp
  have hend : rowEnd b (ns ++ [n]) = rowEnd b ns + n := by
    unfold rowEnd
    rw [hsum]
    omega
  refine ⟨row_append.2 ⟨h.row.congr fun o h1 h2 => hf o (.inl h2), hhead, trivial⟩, by rw [hsum]; omega, fun o h1 h2 => ?_⟩
  rw [hend] at h1
  rw [hf o (.inr h1)]
  exact h.erased o (by omega) h2

theorem chained_nil (hf : ∀ o, b * blkSize + blkHeaderSize ≤ o → o < b * blkSize + blkSize → f o = 0xFF) :
    Chained c f b [] := by
  have hend : rowEnd b [] = b * blkSize + blkHeaderSize := by
    unfold rowEnd
    rw [List.sum_nil, Nat.add_zero]
  refine ⟨trivial, ?_, fun o h1 h2 => ?_⟩
  · rw [List.sum_nil]
    decide
  · rw [hend] at h1
    exact hf o h1 h2

/-! ## Partitions -/

variable (c) in
/-- Every block is chained. -/
def AllChained (f : Flash) (rows : ℕ → List ℕ) : Prop := ∀ b < c.blkNums, Chained c f b (rows b)

variable {rows : ℕ → List ℕ} {s : KvMgr} {i : ℕ} {state : UInt8} {f g : Flash}

theorem rawWrite_out {buf : List UInt8} {o : ℕ} (h : o < pos ∨ pos + buf.length ≤ o) :
    (s.rawWrite pos buf).flash o = s.flash o := by
  have hout : memcpy s.flash pos (fun i => buf.getD i 0) buf.length o = s.flash o := memcpy_out h
  exact hout

theorem rawErase_in {o : ℕ} (h1 : pos ≤ o) (h2 : o < pos + n) : (s.rawErase pos n).flash o = 0xFF := by
  have hin : memcpy s.flash pos (fun _ => 0xFF) n o = 0xFF := memcpy_in h1 h2
  exact hin

theorem rawErase_out {o : ℕ} (h : o < pos ∨ pos + n ≤ o) : (s.rawErase pos n).flash o = s.flash o := by
  have hout : memcpy s.flash pos (fun _ => 0xFF) n o = s.flash o := memcpy_out h
  exact hout

theorem AllChained.blkState (h : AllChained c s.flash rows) (i : ℕ) (state : UInt8) :
    AllChained c (s.kvStateSet (i * blkSize) state).flash rows := by
  intro b hb
  refine (h b hb).congr fun o h1 h2 => rawWrite_out ?_
  rw [List.length_singleton]
  unfold blkSize blkHeaderSize at *
  omega

theorem AllChained.kill (h : AllChained c s.flash rows) (hq : q % 4 = 0) (hmagic : s.flash q = itemMagicNum)
    (hstate : s.flash (q + 1) = itemStateNormal) :
    AllChained c (s.kvStateSet q itemStateDelete).flash rows := by
  intro b hb
  refine (h b hb).kill hq hmagic hstate fun o ho => rawWrite_out ?_
  rw [List.length_singleton]
  omega

theorem AllChained.rawErase (h : AllChained c s.flash rows) (i : ℕ) :
    AllChained c (s.rawErase (i * blkSize) blkSize).flash (Function.update rows i []) := by
  intro b hb
  by_cases hi : b = i
  · subst hi
    rw [Function.update_self]
    exact chained_nil fun o h1 h2 => rawErase_in (by omega) h2
  · rw [Function.update_of_ne hi]
    refine (h b hb).congr fun o h1 h2 => rawErase_out ?_
    unfold blkSize blkHeaderSize at *
    omega

theorem AllChained.format (h : AllChained c s.flash rows) (i : ℕ) :
    AllChained c (s.kvBlockFormat i).flash (Function.update rows i []) := by
  intro b hb
  refine (h.rawErase i b hb).congr fun o h1 h2 => ?_
  refine rawWrite_out (s := s.rawErase (i * blkSize) blkSize) ?_
  rw [show [blkMagicNum, blkStateClean, 0, 0].length = 4 from rfl]
  unfold blkSize blkHeaderSize at *
  omega

theorem AllChained.append (h : AllChained c f rows) (hb : b < c.blkNums) (hhead : HeaderAt c f' (rowEnd b (rows b)) n)
    (hroom : blkHeaderSize + (rows b).sum + n < blkSize)
    (hf : ∀ o, o < rowEnd b (rows b) ∨ rowEnd b (rows b) + n ≤ o → f' o = f o) :
    AllChained c f' (Function.update rows b (rows b ++ [n])) := by
  intro b' hb'
  by_cases hne : b' = b
  · subst hne
    rw [Function.update_self]
    exact (h b' hb').snoc hhead hroom hf
  · rw [Function.update_of_ne hne]
    refine (h b' hb').congr fun o h1 h2 => hf o ?_
    have hend := (h b hb).end_lt
    unfold rowEnd at *
    unfold blkSize blkHeaderSize at *
    omega

end Kv
