/-
  Rhino kernel: the heap that `krhino_init_mm_head` builds.
-/
import AliOS.Rhino.MmUse

namespace Rhino

variable {c : MmConfig} {lo hi : ℕ} {h h' : MmHeap} {mem : ℕ → ℕ} {a b k m n p q t addr len : ℕ}
  {x y z : MmBlk} {L : ℕ → Option ℕ}

/-! ## The region -/

section

variable (c)

/-- The blocks of a new region of `len` bytes at `lo`: that of the region info, the
    one for the users, and the last. -/
def newBlks (lo len a : ℕ) : Option MmBlk :=
  if a = lo then some ⟨2 * c.ptrSize, false, false⟩
  else if a = lo + 4 * c.ptrSize then some ⟨len - 8 * c.ptrSize, false, false⟩
  else if a = lo + (len - 2 * c.ptrSize) then some ⟨0, false, false⟩
  else none

end

theorem newBlks_cases (ha : newBlks c lo len a = some x) :
    a = lo ∧ x = ⟨2 * c.ptrSize, false, false⟩ ∨
    a = lo + 4 * c.ptrSize ∧ x = ⟨len - 8 * c.ptrSize, false, false⟩ ∨
    a = lo + (len - 2 * c.ptrSize) ∧ x = ⟨0, false, false⟩ := by
  unfold newBlks at ha
  split_ifs at ha with h1 h2 h3 <;> cases ha <;> simp [*]

/-- What is asked of the memory of a region. -/
structure RegionOk (c : MmConfig) (lo len : ℕ) : Prop where
  pos : 0 < lo
  dvd : c.ptrSize ∣ lo
  len_dvd : c.ptrSize ∣ len
  room : 10 * c.ptrSize ≤ len
  len_le : len ≤ c.maxMmSize
  top : lo + len < c.words

namespace RegionOk

variable (hr : RegionOk c lo len)
include hr

theorem tiled : Tiled c lo (lo + (len - 2 * c.ptrSize)) (newBlks c lo len) := by
  have hW := ptrSize_pos c
  have hH : c.headSize = 2 * c.ptrSize := rfl
  have hM : c.minLength = 2 * c.ptrSize := rfl
  have hroom := hr.room
  have htop := hr.top
  have hmul : ∀ k, c.ptrSize ∣ k * c.ptrSize := fun k => ⟨k, Nat.mul_comm _ _⟩
  refine ⟨hr.pos, ⟨_, if_pos rfl⟩, ⟨false, ?_⟩, fun {a x} ha => ?_, fun {a x} ha => ?_,
    fun {a b x y} ha hb hab => ?_, fun {a x} ha hne => ?_, fun {a x} ha hne => ?_, ?_, ?_⟩
  · rw [newBlks, if_neg (by omega), if_neg (by omega), if_pos rfl]
  · rcases newBlks_cases ha with ⟨rfl, -⟩ | ⟨rfl, -⟩ | ⟨rfl, -⟩ <;> omega
  · rcases newBlks_cases ha with ⟨rfl, rfl⟩ | ⟨rfl, rfl⟩ | ⟨rfl, rfl⟩
    · exact ⟨hr.dvd, hmul 2⟩
    · exact ⟨Nat.dvd_add hr.dvd (hmul 4), Nat.dvd_sub hr.len_dvd (hmul 8)⟩
    · exact ⟨Nat.dvd_add hr.dvd (Nat.dvd_sub hr.len_dvd (hmul 2)), Nat.dvd_zero _⟩
  · rcases newBlks_cases ha with ⟨rfl, rfl⟩ | ⟨rfl, rfl⟩ | ⟨rfl, rfl⟩ <;>
      rcases newBlks_cases hb with ⟨rfl, rfl⟩ | ⟨rfl, rfl⟩ | ⟨rfl, rfl⟩ <;> simp only <;> omega
  · rcases newBlks_cases ha with ⟨rfl, rfl⟩ | ⟨rfl, rfl⟩ | ⟨rfl, rfl⟩
    · refine ⟨⟨len - 8 * c.ptrSize, false, false⟩, ?_, rfl, fun h => nomatch h⟩
      simp only
      rw [newBlks, if_neg (by omega), if_pos (by omega)]
    · refine ⟨⟨0, false, false⟩, ?_, rfl, fun h => nomatch h⟩
      simp only
      rw [newBlks, if_neg (by omega), if_neg (by omega), if_pos (by omega)]
    · exact absurd rfl hne
  · rcases newBlks_cases ha with ⟨rfl, rfl⟩ | ⟨rfl, rfl⟩ | ⟨rfl, rfl⟩ <;> simp only <;> omega
  · have := hr.len_le
    omega
  · omega

theorem span (htbl : h.mmTbl = fun _ _ => 0) (hsl : h.slBitmap = fun _ => 0) (hfl : h.flBitmap = 0) :
    (h.initMmRegion c lo len).nextMmBlk c lo = lo + 4 * c.ptrSize ∧
      (h.initMmRegion c lo len).size c (lo + 4 * c.ptrSize) =
        MmBlk.word ⟨len - 8 * c.ptrSize, false, false⟩ ∧
      (h.initMmRegion c lo len).fixedmblk = h.fixedmblk ∧
      Span c lo (lo + (len - 2 * c.ptrSize)) (h.initMmRegion c lo len) (newBlks c lo len)
        (fun _ => []) (lo + 4 * c.ptrSize) (lo + (len - 2 * c.ptrSize))
        ⟨len - 8 * c.ptrSize, false, false⟩ ⟨0, false, false⟩ := by
  have hW := ptrSize_pos c
  have hH : c.headSize = 2 * c.ptrSize := rfl
  have hroom := hr.room
  have htop := hr.top
  have hle := hr.len_le
  have hmax := maxMmSize_le c
  have hmul : ∀ k, c.ptrSize ∣ k * c.ptrSize := fun k => ⟨k, Nat.mul_comm _ _⟩
  have hinfo : c.alignUp (2 * c.ptrSize) = 2 * c.ptrSize := alignUp_of_dvd (hmul 2) (by omega)
  have hlen : c.alignDown (c.sub len (2 * c.ptrSize + 3 * c.headSize)) = len - 8 * c.ptrSize := by
    rw [sub_eq (by omega) (by omega), show 2 * c.ptrSize + 3 * c.headSize = 8 * c.ptrSize by omega]
    exact Nat.div_mul_cancel (Nat.dvd_sub hr.len_dvd (hmul 8))
  have hblk : ∀ n, c.ptrSize ∣ n → n < c.maxMmSize → c.blkSize n = n := fun n hd hn =>
    blkSize_word (f := false) (g := false) hd hn
  -- the writes, with their addresses
  obtain ⟨h₁, hh1⟩ : ∃ h₁, h₁ = h.setSize c lo (2 * c.ptrSize) := ⟨_, rfl⟩
  have hcur : h₁.nextMmBlk c lo = lo + 4 * c.ptrSize := by
    have hs : h₁.size c lo = 2 * c.ptrSize := by
      rw [hh1, MmHeap.size, MmHeap.setSize, MmHeap.write_mem, if_pos rfl]
    rw [MmHeap.nextMmBlk, hs, hblk _ (hmul 2) (by omega)]
    omega
  obtain ⟨cur, hcur'⟩ : ∃ cur, cur = lo + 4 * c.ptrSize := ⟨_, rfl⟩
  obtain ⟨n, hn⟩ : ∃ n, n = len - 8 * c.ptrSize := ⟨_, rfl⟩
  have hnd : c.ptrSize ∣ n := hn ▸ Nat.dvd_sub hr.len_dvd (hmul 8)
  obtain ⟨h₂, hh2⟩ : ∃ h₂, h₂ = ((h₁.setSize c cur n).setFreePrev c cur 0).setFreeNext c cur 0 :=
    ⟨_, rfl⟩
  have hlast : h₂.nextMmBlk c cur = lo + (len - 2 * c.ptrSize) := by
    have hs : h₂.size c cur = n := by
      rw [hh2, MmHeap.size, MmHeap.setFreeNext, MmHeap.write_mem, if_neg (by omega),
        MmHeap.setFreePrev, MmHeap.write_mem, if_neg (by omega), MmHeap.setSize, MmHeap.write_mem,
        if_pos rfl]
    rw [MmHeap.nextMmBlk, hs, hblk _ hnd (by omega)]
    omega
  obtain ⟨last, hlast'⟩ : ∃ last, last = lo + (len - 2 * c.ptrSize) := ⟨_, rfl⟩
  have hinit : h.initMmRegion c lo len = (((h₂.setPrev last cur).setSize c last 2).write
      (MmHeap.buffer c lo + c.ptrSize) 0).write (MmHeap.buffer c lo) last := by
    unfold MmHeap.initMmRegion
    simp only [hinfo, hlen]
    rw [← hh1, ← hn]
    simp only [hcur, ← hcur', ← hh2, hlast, ← hlast']
  have hmem : ∀ t, t ≠ lo + 2 * c.ptrSize → t ≠ lo + 3 * c.ptrSize →
      (h.initMmRegion c lo len).mem t =
        if t = last + c.ptrSize then 2 else if t = last then cur else h₂.mem t := by
    intro t h1 h2
    rw [hinit, MmHeap.write_mem, if_neg (by unfold MmHeap.buffer; omega), MmHeap.write_mem,
      if_neg (by unfold MmHeap.buffer; omega), MmHeap.setSize, MmHeap.write_mem, MmHeap.setPrev,
      MmHeap.write_mem]
  have hmem2 : ∀ t, t ≠ cur + 2 * c.ptrSize → t ≠ cur + 3 * c.ptrSize →
      h₂.mem t = if t = cur + c.ptrSize then n else if t = lo + c.ptrSize then 2 * c.ptrSize
        else h.mem t := by
    intro t h1 h2
    rw [hh2, MmHeap.setFreeNext, MmHeap.write_mem, if_neg h2, MmHeap.setFreePrev, MmHeap.write_mem,
      if_neg h1, MmHeap.setSize, MmHeap.write_mem, hh1, MmHeap.setSize, MmHeap.write_mem]
  have hsz_lo : (h.initMmRegion c lo len).size c lo = 2 * c.ptrSize := by
    rw [MmHeap.size, hmem _ (by omega) (by omega), if_neg (by omega), if_neg (by omega),
      hmem2 _ (by omega) (by omega), if_neg (by omega), if_pos rfl]
  have hsz_cur : (h.initMmRegion c lo len).size c cur = n := by
    rw [MmHeap.size, hmem _ (by omega) (by omega), if_neg (by omega), if_neg (by omega),
      hmem2 _ (by omega) (by omega), if_pos rfl]
  have hsz_last : (h.initMmRegion c lo len).size c last = 2 := by
    rw [MmHeap.size, hmem _ (by omega) (by omega), if_pos rfl]
  have htables : SameIdx h (h.initMmRegion c lo len) := by
    rw [hinit, hh2, hh1]
    exact ((((((((SameIdx.refl h).write).write).write).write).write).write).write).write
  have hword : MmBlk.word ⟨n, false, false⟩ = n := by simp [MmBlk.word]
  refine ⟨?_, ?_, htables.fixed, hr.tiled, ?_, ?_, ?_, by omega, fun {a y} ha ho => ?_, ⟨true, ?_⟩, ?_,
    by rintro ⟨⟩, fun {b r} => ?_⟩
  · rw [MmHeap.nextMmBlk, hsz_lo, hblk _ (hmul 2) (by omega)]
    omega
  · rw [← hcur', ← hn, hsz_cur, hword]
  · refine ⟨fun p => trivial, fun p => ?_, fun p => List.nodup_nil, fun p h => (by simp at h),
      fun h => (by simp at h), fun h => (by simp at h), fun h => absurd rfl h, ⟨fun p _ => ?_, fun i _ => ?_⟩⟩
    · rw [htables.tbl, htbl]
      rfl
    · rw [htables.sl, hsl]
      simp
    · rw [htables.fl, hfl, htables.sl, hsl]
      simp
  · rw [newBlks, if_neg (by omega), if_pos rfl]
  · rw [newBlks, if_neg (by omega), if_neg (by omega), if_pos rfl]
  · rcases newBlks_cases ha with ⟨rfl, rfl⟩ | ⟨rfl, rfl⟩ | ⟨rfl, rfl⟩
    · exact ⟨by rw [hsz_lo]; simp [MmBlk.word], by rintro ⟨⟩⟩
    · omega
    · omega
  · rw [← hlast', hsz_last]
    rfl
  · rw [← hcur', hsz_cur, ← hword]
    exact isPrevFree_word (four_dvd hnd)
  · refine ⟨fun h => (by simp at h), ?_⟩
    rintro ⟨y, hy, hfree, -⟩
    rcases newBlks_cases hy with ⟨-, rfl⟩ | ⟨-, rfl⟩ | ⟨-, rfl⟩ <;> cases hfree

end RegionOk

/-! ## The fixed blocks -/

/-- `k` fixed blocks from `a` on. -/
def cellsFrom (a : ℕ) : ℕ → List ℕ
  | 0 => []
  | k + 1 => a :: cellsFrom (a + defFixBlkSize) k

theorem mem_cellsFrom : p ∈ cellsFrom a k ↔ ∃ i < k, p = a + defFixBlkSize * i := by
  induction k generalizing a with
  | zero => simp [cellsFrom]
  | succ k ih =>
    rw [cellsFrom, List.mem_cons, ih]
    constructor
    · rintro (rfl | ⟨i, hi, rfl⟩)
      · exact ⟨0, by omega, rfl⟩
      · exact ⟨i + 1, by omega, by ring⟩
    · rintro ⟨i, hi, rfl⟩
      cases i with
      | zero => exact .inl rfl
      | succ i => exact .inr ⟨i, by omega, by ring⟩

theorem nodup_cellsFrom : (cellsFrom a k).Nodup := by
  induction k generalizing a with
  | zero => exact List.nodup_nil
  | succ k ih =>
    refine List.nodup_cons.2 ⟨fun h => ?_, ih⟩
    obtain ⟨i, -, hi⟩ := mem_cellsFrom.1 h
    unfold defFixBlkSize at hi
    omega

theorem length_cellsFrom : (cellsFrom a k).length = k := by
  induction k generalizing a with
  | zero => rfl
  | succ k ih => rw [cellsFrom, List.length_cons, ih]

/-- **The loop of `krhino_mblk_pool_init`** links the fixed blocks up to its end. -/
theorem linkBlks_spec (hlt : a < q) (hfuel : q ≤ a + n) :
    (MmHeap.linkBlks q n h a b).2 = b + (q - a) / defFixBlkSize ∧
      Cells (MmHeap.linkBlks q n h a b).1.mem a (cellsFrom a ((q - a) / defFixBlkSize)) ∧
      (∀ t, t < a ∨ q ≤ t → (MmHeap.linkBlks q n h a b).1.mem t = h.mem t) ∧
      SameIdx h (MmHeap.linkBlks q n h a b).1 := by
  induction n generalizing h a b with
  | zero => omega
  | succ n ih =>
    unfold MmHeap.linkBlks
    by_cases hnext : a + defFixBlkSize < q
    · simp only [if_pos hnext]
      obtain ⟨h1, h2, h3, h4⟩ := ih (h := h.write a (a + defFixBlkSize)) (b := b + 1) hnext
        (by unfold defFixBlkSize; omega)
      have hdiv : (q - a) / defFixBlkSize = (q - (a + defFixBlkSize)) / defFixBlkSize + 1 := by
        unfold defFixBlkSize at *
        omega
      refine ⟨by rw [h1, hdiv]; omega, ?_, fun t ht => ?_, ?_⟩
      · rw [hdiv]
        refine ⟨rfl, ?_⟩
        rw [h3 a (.inl (by unfold defFixBlkSize; omega)), MmHeap.write_mem, if_pos rfl]
        exact h2
      · rw [h3 t (by omega), MmHeap.write_mem, if_neg (by omega)]
      · exact ⟨h4.tbl, h4.sl, h4.fl, h4.pool, h4.fixed⟩
    · simp only [if_neg hnext]
      refine ⟨?_, ?_, fun t ht => by rw [MmHeap.write_mem, if_neg (by omega)], (SameIdx.refl h).write⟩
      · unfold defFixBlkSize at *
        split_ifs <;> omega
      · have hk : (q - a) / defFixBlkSize = 0 ∨ (q - a) / defFixBlkSize = 1 := by
          unfold defFixBlkSize at *
          omega
        rcases hk with hk | hk <;> rw [hk]
        · trivial
        · exact ⟨rfl, trivial⟩

/-- With no live pointers and no fixed blocks, a new block is behind the first. -/
theorem MmWf.alloc_first (hw : MmWf c lo hi h fun _ => none) (hfix : h.fixedmblk = 0) (hn : n ≤ c.maxMmSize)
    (heq : h.kMmAlloc c n = some (h', p)) (hp : p ≠ 0) :
    p = MmHeap.buffer c (lo + c.headSize + c.blkSize (h.size c lo)) := by
  obtain ⟨U, cells, hv⟩ := hw
  have hn0 : n ≠ 0 := by
    rintro rfl
    rw [MmHeap.kMmAlloc, if_pos rfl] at heq
    cases heq
    exact hp rfl
  rw [MmHeap.kMmAlloc, if_neg hn0, if_neg fun h => h.1 hfix] at heq
  obtain ⟨h1, q, heq', ⟨-, rfl⟩ | ⟨b, k, rfl, -, -, hh', -, -, a, m, ha, hab⟩⟩ := hv.holds.tlfAlloc hn
  · rw [heq'] at heq
    cases heq
    exact absurd rfl hp
  · rw [heq'] at heq
    cases heq
    have hlo : a = lo := by
      by_contra halo
      have hahi : a ≠ hi := by
        rintro rfl
        have hb := (hh'.bounds (Function.update_self b (some k) U)).2
        have hW := ptrSize_pos c
        unfold MmConfig.headSize at hab hb
        omega
      have hapos : a ≠ h.fixedmblk := by
        have := hv.holds.lo_pos
        have := (hv.holds.bounds ha).1
        omega
      have := (hv.live (MmHeap.buffer c a) m).2 (.inl ⟨a, rfl, ha, halo, hahi, hapos⟩)
      cases this
    rw [← hab, ← hlo, (hv.holds.size ha).1]

theorem MmWf.initFixed (hw : MmWf c lo hi h fun _ => none) (hfix : h.fixedmblk = 0)
    (hn : c.tlfBlkSize + 1024 ≤ c.maxMmSize) :
    ∃ h', h.initFixed c = some h' ∧ (MmWf c lo hi h' fun _ => none) ∧
      (h'.fixedmblk = 0 ∨ h'.fixedmblk = lo + c.headSize + c.blkSize (h'.size c lo)) := by
  unfold MmHeap.initFixed
  by_cases htlf : c.tlfBlkSize > 0
  swap
  · exact ⟨h, if_neg htlf, hw, .inl hfix⟩
  have hpool := alignUp_of_dvd c.mblkPoolSize_dvd (c.mblkPoolSize_le.trans (by decide))
  have hple := c.mblkPoolSize_le
  rw [if_pos htlf]
  obtain ⟨h₁, p, heq, ⟨rfl, rfl⟩ | ⟨k, hp0, hk, -, hw1, -, hends⟩⟩ :=
    hw.alloc (n := c.tlfBlkSize + c.alignUp c.mblkPoolSize) (by omega)
  · refine ⟨h₁, ?_, hw, .inl hfix⟩
    rw [heq, Option.bind_some]
    exact if_neg fun h => h rfl
  have hfirst := hw.alloc_first hfix (by omega) heq hp0
  obtain ⟨U, cells, hv⟩ := id hw1
  have hf1 : h₁.fixedmblk = 0 := hends.fixed.trans hfix
  have hself : Function.update (fun _ => (none : Option ℕ)) p (some k) p = some k :=
    Function.update_self ..
  have honly : ∀ q, q ≠ p → Function.update (fun _ => (none : Option ℕ)) p (some k) q = none :=
    fun q hq => Function.update_of_ne hq ..
  obtain ⟨b, rfl, hb, hlo, hhi, -⟩ | ⟨h0, -⟩ := (hv.live p k).1 hself
  swap
  · exact absurd hf1 h0
  have hbuf : c.sub (MmHeap.buffer c b) c.headSize = b := by
    have h1 := (hv.holds.bounds hb).2
    have h2 := hv.holds.span_lt.2
    rw [MmHeap.buffer, sub_eq (by omega) (by omega), Nat.add_sub_cancel]
  rw [heq, Option.bind_some]
  simp only [if_pos hp0, hbuf]
  cases hinit : MmHeap.krhinoMblkPoolInit c h₁ (MmHeap.buffer c b + c.alignUp c.mblkPoolSize)
      c.tlfBlkSize with
  | none =>
    obtain ⟨h₂, hfree, hw2, -, hends'⟩ := hw1.free hself
    refine ⟨h₂, hfree, ?_, .inl (hends'.fixed.trans hf1)⟩
    rw [Function.update_idem] at hw2
    rwa [show Function.update (fun _ => (none : Option ℕ)) (MmHeap.buffer c b) none = fun _ => none
      from Function.update_eq_self _ _] at hw2
  | some h₂ =>
    unfold MmHeap.krhinoMblkPoolInit at hinit
    split_ifs at hinit
    simp only [Option.some.injEq] at hinit
    obtain ⟨start, hstart⟩ : ∃ start, start = MmHeap.buffer c b + c.alignUp c.mblkPoolSize := ⟨_, rfl⟩
    rw [← hstart] at hinit
    obtain ⟨h1, h2, h3, h4⟩ := linkBlks_spec (h := h₁) (b := 0) (a := start) (q := start + c.tlfBlkSize)
      (n := c.tlfBlkSize) (by omega) le_rfl
    rw [Nat.add_sub_cancel_left] at h1 h2
    have hmem : h₂.mem = (MmHeap.linkBlks (start + c.tlfBlkSize) c.tlfBlkSize h₁ start 0).1.mem := by
      rw [← hinit]
    have hrest : h₂.mmTbl = h₁.mmTbl ∧ h₂.slBitmap = h₁.slBitmap ∧ h₂.flBitmap = h₁.flBitmap := by
      rw [← hinit]
      exact ⟨h4.tbl, h4.sl, h4.fl⟩
    have hblk : h₂.pool = ⟨c.tlfBlkSize / defFixBlkSize, start⟩ := by
      rw [← hinit, h1, Nat.zero_add]
    have hcell : ∀ q, IsCell c { h₂ with fixedmblk := b } q ↔
        q ∈ cellsFrom start (c.tlfBlkSize / defFixBlkSize) := fun q => by
      rw [mem_cellsFrom, hstart]
      rfl
    have hholds : MmHolds c lo hi { h₂ with fixedmblk := b } U := by
      refine hv.holds.congr hrest fun t ht => (congrFun hmem t).trans (h3 t ?_)
      have := ht b k hb
      unfold MmHeap.buffer at hstart
      omega
    refine ⟨_, rfl, ⟨U, cellsFrom start (c.tlfBlkSize / defFixBlkSize), hholds,
      .inr ⟨⟨k, hb, hk⟩, hlo, hhi, nodup_cellsFrom, fun q hq => (hcell q).2 hq, ?_, ?_⟩, fun q n => ?_⟩, .inr ?_⟩
    · simp only [hmem, hblk]
      exact h2
    · rw [length_cellsFrom]
      simp only [hblk]
    · refine iff_of_false (by rintro ⟨⟩) ?_
      rintro (⟨d, rfl, hd, hdlo, hdhi, hdb⟩ | ⟨-, hc, hno, -⟩)
      · have hlive := (hv.live (MmHeap.buffer c d) n).2 (.inl ⟨d, rfl, hd, hdlo, hdhi, ?_⟩)
        · rw [honly] at hlive
          · cases hlive
          · unfold MmHeap.buffer
            simp only at hdb
            omega
        · have := hv.holds.lo_pos
          have := (hv.holds.bounds hd).1
          omega
      · exact hno ((hcell q).1 hc)
    · obtain ⟨n, hn'⟩ := hv.holds.used_lo
      have hsame : c.blkSize (h.size c lo) = n := by rw [← hends.first, (hv.holds.size hn').1]
      rw [(hholds.size hn').1, ← hsame]
      unfold MmHeap.buffer at hfirst
      simp only
      omega

/-! ## The heap -/

theorem RegionOk.init (hr : RegionOk c lo len) (htbl : h.mmTbl = fun _ _ => 0)
    (hsl : h.slBitmap = fun _ => 0) (hfl : h.flBitmap = 0) (hfix : h.fixedmblk = 0) :
    ∃ h', (h.initMmRegion c lo len).kMmFree c
        (MmHeap.buffer c ((h.initMmRegion c lo len).nextMmBlk c lo)) = some h' ∧
      h'.fixedmblk = 0 ∧ MmWf c lo (lo + (len - 2 * c.ptrSize)) h' fun _ => none := by
  have hW := ptrSize_pos c
  have hroom := hr.room
  have hH : c.headSize = 2 * c.ptrSize := rfl
  obtain ⟨hnext, hsize, hfixed, hs⟩ := hr.span htbl hsl hfl
  have hn : OnlyUsed (newBlks c lo len) (lo + 4 * c.ptrSize) (lo + (len - 2 * c.ptrSize))
      (lo + 4 * c.ptrSize) := by
    intro a y ha hle hlt hne
    rcases newBlks_cases ha with ⟨rfl, -⟩ | ⟨rfl, -⟩ | ⟨rfl, -⟩ <;> omega
  obtain ⟨h', heq, hh, -, hpool⟩ := hs.tlfFree (by
    rw [hsize]
    congr 2
    omega) hn (by omega)
  have hf' : h'.fixedmblk = 0 := hpool.2.trans (hfixed.trans hfix)
  refine ⟨h', ?_, hf', _, [], hh, .inl hf', fun p n => iff_of_false (fun h => nomatch h) ?_⟩
  · rw [hnext, MmHeap.kMmFree, if_neg (by unfold MmHeap.buffer; omega),
      if_neg fun h => h.1 (hfixed.trans hfix), heq]
  · rintro (⟨b, -, hb, hlo, hhi, -⟩ | ⟨h0, -⟩)
    · rw [Function.update_apply] at hb
      split_ifs at hb with hcur
      obtain ⟨f, hx⟩ := usedBlk_eq_some.1 hb
      rcases newBlks_cases hx with ⟨rfl, -⟩ | ⟨rfl, -⟩ | ⟨rfl, -⟩
      · exact hlo rfl
      · exact hcur rfl
      · exact hhi rfl
    · exact h0 hf'

section

variable (c) (addr len)

/-- The address of the region that `krhino_init_mm_head` makes. -/
def regionAddr : ℕ := c.alignUp addr + c.mmHeadSize

/-- The bytes of that region. -/
def regionLen : ℕ := c.alignDown (c.sub len (c.sub (c.alignUp addr) addr)) - c.mmHeadSize

end

theorem regionOk (haddr : addr ≠ 0) (hmem : addr + len < c.words)
    (hmin : minFreeMemorySize + c.tlfBlkSize ≤ c.alignDown (c.sub len (c.sub (c.alignUp addr) addr)))
    (hmax : c.alignDown (c.sub len (c.sub (c.alignUp addr) addr)) ≤ c.maxMmSize) :
    RegionOk c (regionAddr c addr) (regionLen c addr len) := by
  have hW := ptrSize_pos c
  have hW' : c.ptrSize ≤ 8 := by rcases c.ptrSize_eq with h | h <;> omega
  have hwords := words_ge c
  have hmax' := maxMmSize_le c
  have hroom := c.room
  have hdn : ∀ a, c.alignDown a ≤ a ∧ a < c.alignDown a + c.ptrSize := fun a => by
    have h1 := Nat.div_add_mod' a c.ptrSize
    have h2 := Nat.mod_lt a (show c.ptrSize > 0 by omega)
    unfold MmConfig.alignDown
    omega
  have hup : c.alignUp addr = 0 ∧ c.words ≤ addr + (c.ptrSize - 1) ∨
      addr ≤ c.alignUp addr ∧ c.alignUp addr < addr + c.ptrSize := by
    by_cases h : addr + (c.ptrSize - 1) < c.words
    · refine .inr ?_
      have := hdn (addr + (c.ptrSize - 1))
      unfold MmConfig.alignDown at this
      rw [MmConfig.alignUp, MmConfig.add, Nat.mod_eq_of_lt h]
      omega
    · refine .inl ⟨?_, not_lt.1 h⟩
      rw [MmConfig.alignUp, MmConfig.add, Nat.mod_eq_sub_mod (not_lt.1 h),
        Nat.mod_eq_of_lt (by omega), Nat.div_eq_of_lt (by omega), Nat.zero_mul]
  -- the bytes before the aligned address are there
  have hsub : ∀ a b, a < c.words → b ≤ c.words → c.sub a b = if b ≤ a then a - b else a + c.words - b := by
    intro a b ha hb
    split_ifs with h
    · exact sub_eq h ha
    · exact Nat.mod_eq_of_lt (by omega)
  have hd := hdn (c.sub len (c.sub (c.alignUp addr) addr))
  unfold minFreeMemorySize at hmin
  have hfacts : addr ≤ c.alignUp addr ∧ c.alignUp addr +
      c.alignDown (c.sub len (c.sub (c.alignUp addr) addr)) ≤ addr + len := by
    rcases hup with ⟨h0, hwrap⟩ | ⟨hge, hlt⟩
    · exfalso
      have hpad := hsub 0 addr (by omega) (by omega)
      rw [if_neg (by omega)] at hpad
      rw [h0, hpad] at hd hmax
      have hl := hsub len (0 + c.words - addr) (by omega) (by omega)
      rw [if_neg (by omega)] at hl
      rw [hl] at hd hmax
      omega
    · have hpad : c.sub (c.alignUp addr) addr = c.alignUp addr - addr := by
        by_cases h : c.alignUp addr < c.words
        · exact sub_eq hge h
        · have := hdn (c.add addr (c.ptrSize - 1))
          have hadd : c.add addr (c.ptrSize - 1) < c.words := Nat.mod_lt _ (by omega)
          unfold MmConfig.alignUp at h
          unfold MmConfig.alignDown at this
          omega
      have hl := hsub len (c.alignUp addr - addr) (by omega) (by omega)
      rw [hpad] at hd hmax ⊢
      rw [hl] at hd hmax ⊢
      split_ifs at hd hmax ⊢ with h
      · omega
      · omega
  unfold regionAddr regionLen
  have hdvd : c.ptrSize ∣ c.alignDown (c.sub len (c.sub (c.alignUp addr) addr)) := Dvd.intro_left _ rfl
  refine ⟨by omega, Nat.dvd_add (dvd_alignUp c addr) c.mmHeadSize_dvd,
    Nat.dvd_sub hdvd c.mmHeadSize_dvd, by omega, by omega, by omega⟩

/-- **`krhino_init_mm_head`** of enough memory gives a heap that is well formed,
    with no live pointers and the block of the fixed blocks behind the first. -/
theorem krhinoInitMmHead_ok (mem : ℕ → ℕ) (haddr : addr ≠ 0) (hmem : addr + len < c.words)
    (hmin : minFreeMemorySize + c.tlfBlkSize ≤ c.alignDown (c.sub len (c.sub (c.alignUp addr) addr)))
    (hmax : c.alignDown (c.sub len (c.sub (c.alignUp addr) addr)) ≤ c.maxMmSize) :
    ∃ h, MmHeap.krhinoInitMmHead c mem addr len = some (.success, some h) ∧
      (MmWf c (regionAddr c addr) (regionAddr c addr + (regionLen c addr len - 2 * c.ptrSize)) h
        fun _ => none) ∧
      (h.fixedmblk = 0 ∨
        h.fixedmblk = regionAddr c addr + c.headSize + c.blkSize (h.size c (regionAddr c addr))) := by
  have hmaxle := maxMmSize_le c
  have hroom := c.room
  have hwords := words_ge c
  have hr := regionOk haddr hmem hmin hmax
  have hhead : c.alignUp c.mmHeadSize = c.mmHeadSize :=
    alignUp_of_dvd c.mmHeadSize_dvd (by unfold minFreeMemorySize at hmin; omega)
  have hreg : c.alignDown (c.sub (c.alignDown (c.sub len (c.sub (c.alignUp addr) addr))) c.mmHeadSize) =
      regionLen c addr len := by
    unfold minFreeMemorySize at hmin
    rw [sub_eq (by omega) (by omega)]
    exact Nat.div_mul_cancel hr.len_dvd
  obtain ⟨h', hfree, hfix, hw⟩ := hr.init (h := ⟨mem, 0, fun _ => 0, fun _ _ => 0, 0, ⟨0, 0⟩⟩) rfl rfl
    rfl rfl
  obtain ⟨h, hfixed, hw', hpos⟩ := hw.initFixed hfix (by unfold minFreeMemorySize at hmin; omega)
  refine ⟨h, ?_, hw', hpos⟩
  have hregion : c.alignUp addr + c.mmHeadSize = regionAddr c addr := rfl
  unfold MmHeap.krhinoInitMmHead
  rw [if_neg haddr]
  simp only
  rw [if_neg (by unfold minFreeMemorySize at hmin ⊢; omega), hhead, hreg, hregion, hfree,
    Option.bind_some, hfixed, Option.map_some]

theorem krhinoInitMmHead_wf (hmem : addr + len < c.words)
    (hinit : MmHeap.krhinoInitMmHead c mem addr len = some (.success, some h)) :
    (MmWf c (regionAddr c addr) (regionAddr c addr + (regionLen c addr len - 2 * c.ptrSize)) h
      fun _ => none) ∧
    (h.fixedmblk = 0 ∨
      h.fixedmblk = regionAddr c addr + c.headSize + c.blkSize (h.size c (regionAddr c addr))) := by
  have hcases : addr ≠ 0 ∧
      minFreeMemorySize + c.tlfBlkSize ≤ c.alignDown (c.sub len (c.sub (c.alignUp addr) addr)) ∧
      c.alignDown (c.sub len (c.sub (c.alignUp addr) addr)) ≤ c.maxMmSize := by
    unfold MmHeap.krhinoInitMmHead at hinit
    by_cases h0 : addr = 0
    · rw [if_pos h0] at hinit
      cases hinit
    rw [if_neg h0] at hinit
    simp only at hinit
    split_ifs at hinit with hlen
    · cases hinit
    · exact ⟨h0, by omega, by omega⟩
  obtain ⟨h', heq, hw⟩ := krhinoInitMmHead_ok mem hcases.1 hmem hcases.2.1 hcases.2.2
  rw [heq] at hinit
  cases hinit
  exact hw

end Rhino
