/-
  Rhino kernel: the heap as its users see it, with the fixed blocks.

  `MmView` says which pointers are live, `L`, with the bytes behind each: those of
  the blocks that are used, but for the first and the last of the region and the
  one that has the fixed blocks in it, and the fixed blocks that are not
  available.
-/
import AliOS.Rhino.MmRealloc

namespace Rhino

variable {c : MmConfig} {lo hi : ℕ} {h h' : MmHeap} {B : ℕ → Option MmBlk}
  {lists : ℕ × ℕ → List ℕ} {x y : MmBlk} {a b k m n p q t : ℕ} {U U' L L' : ℕ → Option ℕ}
  {cells : List ℕ}

/-! ## Facts about the used blocks -/

namespace MmHolds

variable (hh : MmHolds c lo hi h U)
include hh

theorem lo_pos : 0 < lo := by
  obtain ⟨B, lists, hI, rfl⟩ := hh
  exact hI.tiled.lo_pos

theorem used_lo : ∃ n, U lo = some n := by
  obtain ⟨B, lists, hI, rfl⟩ := hh
  obtain ⟨n, hfirst⟩ := hI.tiled.first
  exact ⟨n, usedBlk_eq_some.2 ⟨false, hfirst⟩⟩

theorem used_hi : U hi = some 0 := by
  obtain ⟨B, lists, hI, rfl⟩ := hh
  obtain ⟨f, hlast⟩ := hI.tiled.last
  exact usedBlk_eq_some.2 ⟨f, hlast⟩

theorem bounds (hb : U b = some n) : lo ≤ b ∧ b + c.headSize + n ≤ hi + c.headSize := by
  obtain ⟨B, lists, hI, rfl⟩ := hh
  obtain ⟨f, hx⟩ := usedBlk_eq_some.1 hb
  obtain ⟨g, hlast⟩ := hI.tiled.last
  have := hI.tiled.bounds hx
  refine ⟨this.1, ?_⟩
  rcases eq_or_lt_of_le this.2 with rfl | hlt
  · rw [hlast] at hx
    cases hx
    omega
  · have := hI.tiled.apart hx hlast hlt
    simp only at this
    omega

theorem bounds' (hb : U b = some n) (hhi : b ≠ hi) : b + c.headSize + n ≤ hi := by
  obtain ⟨B, lists, hI, rfl⟩ := hh
  obtain ⟨f, hx⟩ := usedBlk_eq_some.1 hb
  obtain ⟨g, hlast⟩ := hI.tiled.last
  exact hI.tiled.apart hx hlast (lt_of_le_of_ne (hI.tiled.bounds hx).2 hhi)

theorem apart (ha : U a = some m) (hb : U b = some n) (hab : a < b) : a + c.headSize + m ≤ b := by
  obtain ⟨B, lists, hI, rfl⟩ := hh
  obtain ⟨f, hx⟩ := usedBlk_eq_some.1 ha
  obtain ⟨g, hy⟩ := usedBlk_eq_some.1 hb
  exact hI.tiled.apart hx hy hab

theorem span_lt : hi < lo + c.maxMmSize ∧ hi + c.headSize < c.words := by
  obtain ⟨B, lists, hI, rfl⟩ := hh
  exact ⟨hI.tiled.span, hI.tiled.top⟩

theorem size (hb : U b = some n) : c.blkSize (h.size c b) = n ∧ n ≤ h.size c b ∧
    h.size c b ≤ n + 3 := by
  obtain ⟨B, lists, hI, rfl⟩ := hh
  obtain ⟨f, hx⟩ := usedBlk_eq_some.1 hb
  have hw := (hI.header hx).size
  refine ⟨?_, ?_, ?_⟩
  · rw [hw]
    exact blkSize_word (hI.tiled.dvd hx).2 (hI.tiled.size_lt hx)
  · rw [hw, MmBlk.word]
    simp only
    omega
  · rw [hw, MmBlk.word]
    simp only
    split_ifs <;> omega

theorem congr (hsame : h'.mmTbl = h.mmTbl ∧ h'.slBitmap = h.slBitmap ∧ h'.flBitmap = h.flBitmap)
    (hm : ∀ t, (∀ b n, U b = some n → ¬ (b + c.headSize ≤ t ∧ t < b + c.headSize + n)) →
      h'.mem t = h.mem t) : MmHolds c lo hi h' U := by
  obtain ⟨B, lists, hI, rfl⟩ := hh
  have hW := ptrSize_pos c
  have hH : c.headSize = 2 * c.ptrSize := rfl
  refine ⟨B, lists, ⟨hI.tiled, hI.idx.congr hsame.1 hsame.2.1 hsame.2.2 fun p a ha t ht => hm t ?_,
    fun {a x} ha => (hI.header ha).congr (hm _ ?_) (hm _ ?_), hI.filed⟩, rfl⟩
  · rintro b n hb ⟨hle, hlt⟩
    obtain ⟨f, hx⟩ := usedBlk_eq_some.1 hb
    obtain ⟨y, hy, hfree, -⟩ := hI.filed.1 ha
    have := hI.tiled.link_payload hx rfl hy hfree ht
    simp only at this
    omega
  all_goals
    rintro b n hb ⟨hle, hlt⟩
    obtain ⟨f, hx⟩ := usedBlk_eq_some.1 hb
    rcases lt_trichotomy a b with hab | rfl | hab
    · have := hI.tiled.header_sep ha hx hab
      omega
    · omega
    · have := hI.tiled.apart hx ha hab
      simp only at this
      omega

end MmHolds

theorem alignUp_of_dvd (hd : c.ptrSize ∣ n) (hn : n ≤ 2 ^ 30) : c.alignUp n = n := by
  have hW := ptrSize_pos c
  have hwords := words_ge c
  have hW' : c.ptrSize ≤ 8 := by rcases c.ptrSize_eq with h | h <;> omega
  obtain ⟨k, rfl⟩ := hd
  rw [MmConfig.alignUp, MmConfig.add, Nat.mod_eq_of_lt (by omega), Nat.mul_add_div (by omega),
    Nat.div_eq_of_lt (by omega), Nat.add_zero, Nat.mul_comm]

/-! ## The fixed blocks -/

/-- The cells `l` are linked in their order from `a` on; where the last leads to is
    left open. -/
def Cells (mem : ℕ → ℕ) (a : ℕ) : List ℕ → Prop
  | [] => True
  | b :: l => a = b ∧ Cells mem (mem b) l

theorem Cells.congr {mem mem' : ℕ → ℕ} {l : List ℕ} (hl : Cells mem a l)
    (hm : ∀ b ∈ l, mem' b = mem b) : Cells mem' a l := by
  induction l generalizing a with
  | nil => trivial
  | cons b l ih =>
    refine ⟨hl.1, ?_⟩
    rw [hm b (by simp)]
    exact ih hl.2 fun d hd => hm d (by simp [hd])

section

variable (c) (h)

/-- The first fixed block. -/
def cellStart : ℕ := MmHeap.buffer c h.fixedmblk + c.alignUp c.mblkPoolSize

/-- A fixed block is at `p`. -/
def IsCell (p : ℕ) : Prop := ∃ i < c.tlfBlkSize / defFixBlkSize, p = cellStart c h + defFixBlkSize * i

end

/-- The pool of the fixed blocks, `cells` of them available. -/
structure PoolOk (c : MmConfig) (lo hi : ℕ) (h : MmHeap) (U : ℕ → Option ℕ) (cells : List ℕ) : Prop where
  used : ∃ n, U h.fixedmblk = some n ∧ c.tlfBlkSize + c.alignUp c.mblkPoolSize ≤ n
  ne_lo : h.fixedmblk ≠ lo
  ne_hi : h.fixedmblk ≠ hi
  nodup : cells.Nodup
  cell : ∀ p ∈ cells, IsCell c h p
  linked : Cells h.mem h.pool.availList cells
  avail : h.pool.blkAvail = cells.length

/-- **The heap and its live pointers.** -/
structure MmView (c : MmConfig) (lo hi : ℕ) (h : MmHeap) (L U : ℕ → Option ℕ) (cells : List ℕ) :
    Prop where
  holds : MmHolds c lo hi h U
  pool : h.fixedmblk = 0 ∨ PoolOk c lo hi h U cells
  live : ∀ p n, L p = some n ↔
    (∃ b, p = MmHeap.buffer c b ∧ U b = some n ∧ b ≠ lo ∧ b ≠ hi ∧ b ≠ h.fixedmblk) ∨
      h.fixedmblk ≠ 0 ∧ IsCell c h p ∧ p ∉ cells ∧ n = defFixBlkSize

/-- The heap is well formed, with the live pointers `L`. -/
def MmWf (c : MmConfig) (lo hi : ℕ) (h : MmHeap) (L : ℕ → Option ℕ) : Prop :=
  ∃ U cells, MmView c lo hi h L U cells

/-- What is behind the pointers `L` is as it was. -/
def LiveKeeps (L : ℕ → Option ℕ) (h h' : MmHeap) : Prop :=
  ∀ p n t, L p = some n → p ≤ t → t < p + n → h'.mem t = h.mem t

/-- The first block and the block of the fixed blocks are as they were. -/
structure SameEnds (c : MmConfig) (lo : ℕ) (h h' : MmHeap) : Prop where
  fixed : h'.fixedmblk = h.fixedmblk
  first : c.blkSize (h'.size c lo) = c.blkSize (h.size c lo)
  pool : h.fixedmblk ≠ 0 → c.blkSize (h'.size c h.fixedmblk) = c.blkSize (h.size c h.fixedmblk)

theorem SameEnds.refl (c : MmConfig) (lo : ℕ) (h : MmHeap) : SameEnds c lo h h := ⟨rfl, rfl, fun _ => rfl⟩

theorem SameEnds.symm (hs : SameEnds c lo h h') : SameEnds c lo h' h := by
  refine ⟨hs.fixed.symm, hs.first.symm, fun hf => ?_⟩
  rw [hs.fixed] at hf ⊢
  exact (hs.pool hf).symm

theorem SameEnds.trans (h1 : SameEnds c lo h h') {h'' : MmHeap} (h2 : SameEnds c lo h' h'') :
    SameEnds c lo h h'' := by
  refine ⟨h2.fixed.trans h1.fixed, h2.first.trans h1.first, fun hf => ?_⟩
  have hpool := h2.pool
  rw [h1.fixed] at hpool
  exact (hpool hf).trans (h1.pool hf)

theorem IsCell.sep (hp : IsCell c h p) (hq : IsCell c h q) (hne : p ≠ q) :
    p + defFixBlkSize ≤ q ∨ q + defFixBlkSize ≤ p := by
  obtain ⟨i, -, rfl⟩ := hp
  obtain ⟨j, -, rfl⟩ := hq
  unfold defFixBlkSize at *
  omega

namespace PoolOk

variable (hp : PoolOk c lo hi h U cells)
include hp

theorem within (hc : IsCell c h p) : ∃ n, U h.fixedmblk = some n ∧
    MmHeap.buffer c h.fixedmblk < p ∧ p + defFixBlkSize ≤ MmHeap.buffer c h.fixedmblk + n := by
  obtain ⟨n, hn, hle⟩ := hp.used
  obtain ⟨i, hi, rfl⟩ := hc
  have hpos : 0 < c.alignUp c.mblkPoolSize := by
    rw [alignUp_of_dvd c.mblkPoolSize_dvd (c.mblkPoolSize_le.trans (by decide))]
    exact c.mblkPoolSize_pos
  unfold defFixBlkSize cellStart at *
  exact ⟨n, hn, by omega, by omega⟩

end PoolOk

namespace MmView

variable (hv : MmView c lo hi h L U cells)
include hv

theorem poolOk (hf : h.fixedmblk ≠ 0) : PoolOk c lo hi h U cells := hv.pool.resolve_left hf

theorem isFixed (hf : h.fixedmblk ≠ 0) (hc : IsCell c h p) : h.IsFixedBlk c p := by
  obtain ⟨n, hn, hlt, hle⟩ := (hv.poolOk hf).within hc
  have := (hv.holds.size hn).2.1
  unfold defFixBlkSize at hle
  exact ⟨hf, hlt, by omega⟩

theorem not_isFixed (hb : U b = some n) (hne : b ≠ h.fixedmblk) :
    ¬ h.IsFixedBlk c (MmHeap.buffer c b) := by
  rintro ⟨hf, hlt, hlt'⟩
  obtain ⟨m, hm, -⟩ := (hv.poolOk hf).used
  have hsize := (hv.holds.size hm).2.2
  have hW := ptrSize_pos c
  have hH : c.headSize = 2 * c.ptrSize := rfl
  unfold MmHeap.buffer at hlt hlt'
  rcases lt_or_gt_of_ne hne with h | h
  · omega
  · have := hv.holds.apart hm hb h
    omega

theorem within (hp : L p = some n) : ∃ b m, U b = some m ∧ b ≠ lo ∧ b ≠ hi ∧
    b + c.headSize ≤ p ∧ p + n ≤ b + c.headSize + m := by
  rcases (hv.live p n).1 hp with ⟨b, rfl, hb, hlo, hhi, -⟩ | ⟨hf, hc, -, rfl⟩
  · exact ⟨b, n, hb, hlo, hhi, le_rfl, le_rfl⟩
  · have hpool := hv.poolOk hf
    obtain ⟨m, hm, hlt, hle⟩ := hpool.within hc
    exact ⟨h.fixedmblk, m, hm, hpool.ne_lo, hpool.ne_hi, hlt.le, hle⟩

theorem pos (hp : L p = some n) : p ≠ 0 := by
  obtain ⟨b, m, hb, -, -, hle, -⟩ := hv.within hp
  have := hv.holds.lo_pos
  have := (hv.holds.bounds hb).1
  omega

theorem apart (hp : L p = some n) (hq : L q = some m) (hne : p ≠ q) : p + n ≤ q ∨ q + m ≤ p := by
  rcases (hv.live p n).1 hp with ⟨b, rfl, hb, -, -, hbf⟩ | ⟨hf, hc, -, rfl⟩ <;>
    rcases (hv.live q m).1 hq with ⟨d, rfl, hd, -, -, hdf⟩ | ⟨hf', hc', -, rfl⟩
  · unfold MmHeap.buffer
    rcases lt_trichotomy b d with h | rfl | h
    · have := hv.holds.apart hb hd h
      omega
    · exact absurd rfl hne
    · have := hv.holds.apart hd hb h
      omega
  · obtain ⟨k, hk, hlt, hle⟩ := (hv.poolOk hf').within hc'
    unfold MmHeap.buffer at *
    rcases lt_or_gt_of_ne hbf with h | h
    · have := hv.holds.apart hb hk h
      omega
    · have := hv.holds.apart hk hb h
      omega
  · obtain ⟨k, hk, hlt, hle⟩ := (hv.poolOk hf).within hc
    unfold MmHeap.buffer at *
    rcases lt_or_gt_of_ne hdf with h | h
    · have := hv.holds.apart hd hk h
      omega
    · have := hv.holds.apart hk hd h
      omega
  · exact hc.sep hc' hne

theorem sameEnds (hh : MmHolds c lo hi h' U') (hlo : U' lo = U lo)
    (hf : U' h.fixedmblk = U h.fixedmblk) (hfix : h'.fixedmblk = h.fixedmblk) : SameEnds c lo h h' := by
  have hsize : ∀ {b n}, U b = some n → U' b = U b →
      c.blkSize (h'.size c b) = c.blkSize (h.size c b) := by
    intro b n hb heq
    rw [(hv.holds.size hb).1, (hh.size (heq.trans hb)).1]
  obtain ⟨n, hn⟩ := hv.holds.used_lo
  refine ⟨hfix, hsize hn hlo, fun h0 => ?_⟩
  obtain ⟨m, hm, -⟩ := (hv.poolOk h0).used
  exact hsize hm hf

theorem liveKeeps (hk : Keeps c U h h') : LiveKeeps L h h' := by
  intro p n t hp hle hlt
  obtain ⟨b, m, hb, -, -, h1, h2⟩ := hv.within hp
  exact hk b m t hb (by omega) (by omega)

theorem liveKeeps_update (hk : Keeps c (Function.update U b none) h h') (hbf : b ≠ h.fixedmblk) :
    LiveKeeps (Function.update L (MmHeap.buffer c b) none) h h' := by
  intro p n t hp hle hlt
  rw [Function.update_apply] at hp
  split_ifs at hp with hpb
  rcases (hv.live p n).1 hp with ⟨d, rfl, hd, -, -, -⟩ | ⟨hf, hc, -, rfl⟩
  · refine hk d n t ?_ hle hlt
    rw [Function.update_apply, if_neg fun h => hpb (by rw [h]), hd]
  · obtain ⟨m, hm, hlt', hle'⟩ := (hv.poolOk hf).within hc
    unfold MmHeap.buffer at *
    refine hk h.fixedmblk m t ?_ (by omega) (by omega)
    rw [Function.update_apply, if_neg hbf.symm, hm]

theorem congr (hsame : SameIdx h h')
    (hm : ∀ t, (∀ p n, L p = some n → ¬ (p ≤ t ∧ t < p + n)) → h'.mem t = h.mem t) :
    MmView c lo hi h' L U cells := by
  have hcell : ∀ p, IsCell c h' p ↔ IsCell c h p := fun p => by
    unfold IsCell cellStart
    rw [hsame.fixed]
  refine ⟨hv.holds.congr ⟨hsame.tbl, hsame.sl, hsame.fl⟩ fun t ht => hm t ?_, ?_, fun p n => ?_⟩
  · rintro p n hp ⟨hle, hlt⟩
    obtain ⟨b, m, hb, -, -, h1, h2⟩ := hv.within hp
    exact ht b m hb (by omega)
  · rcases hv.pool with hf | hp
    · exact .inl (hsame.fixed.trans hf)
    · refine .inr ⟨by rw [hsame.fixed]; exact hp.used, by rw [hsame.fixed]; exact hp.ne_lo,
        by rw [hsame.fixed]; exact hp.ne_hi, hp.nodup, fun p h => (hcell p).2 (hp.cell p h), ?_,
        by rw [hsame.pool]; exact hp.avail⟩
      rw [hsame.pool]
      refine hp.linked.congr fun d hd => hm d ?_
      rintro p n hlive ⟨hle, hlt⟩
      rcases (hv.live p n).1 hlive with ⟨b, rfl, hb, -, -, hbf⟩ | ⟨-, hc, hnot, rfl⟩
      · obtain ⟨m, hm', hlt', hle'⟩ := hp.within (hp.cell d hd)
        unfold MmHeap.buffer defFixBlkSize at *
        rcases lt_or_gt_of_ne hbf with h | h
        · have := hv.holds.apart hb hm' h
          omega
        · have := hv.holds.apart hm' hb h
          omega
      · have hne : p ≠ d := fun h => hnot (h ▸ hd)
        have := hc.sep (hp.cell d hd) hne
        unfold defFixBlkSize at *
        omega
  · rw [hv.live, hsame.fixed, hcell]

end MmView

end Rhino
