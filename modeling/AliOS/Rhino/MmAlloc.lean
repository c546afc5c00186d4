/-
  Rhino kernel: the search of the heap for a free block, and `k_mm_alloc` and
  `k_mm_free` behind the fixed blocks.
-/
import AliOS.Rhino.MmOps

namespace Rhino

variable {c : MmConfig} {lo hi : ℕ} {h : MmHeap} {B : ℕ → Option MmBlk} {lists : ℕ × ℕ → List ℕ}
  {x : MmBlk} {a b n : ℕ} {p : ℕ × ℕ}

theorem mmRound_lt (hn : n ≤ c.maxMmSize) : mmRound n < 2 ^ 31 := by
  have hmax := maxMmSize_le c
  unfold mmRound
  split_ifs with h
  · omega
  · unfold minFltSize at h
    have hlog : n.log2 < 31 := log2_lt (by omega) (by omega)
    have : 2 ^ (n.log2 - 5) ≤ 2 ^ 25 := Nat.pow_le_pow_right (by decide) (by omega)
    omega

theorem MmInv.first (hI : MmInv c lo hi h B lists) (hp : lists p ≠ []) :
    h.mmTbl p.1 p.2 ∈ lists p ∧ ∃ x, B (h.mmTbl p.1 p.2) = some x ∧ x.free = true ∧
      mmClass x.size = p := by
  have hmem : h.mmTbl p.1 p.2 ∈ lists p := by
    rw [hI.idx.head p]
    cases hl : lists p with
    | nil => exact absurd hl hp
    | cons a l => simp
  exact ⟨hmem, hI.filed.1 hmem⟩

/-- A free block of a class the search may use. -/
def Suits (B : ℕ → Option MmBlk) (n : ℕ) (b : ℕ) : Prop :=
  ∃ x, B b = some x ∧ x.free = true ∧ ClassLe (mmClass (mmRound n)) (mmClass x.size)

theorem MmInv.findBlk (hI : MmInv c lo hi h B lists) (hn : n ≤ c.maxMmSize) :
    ∃ b p, h.findBlk c n = some (b, p) ∧
      ((b = 0 ∧ ∀ a, ¬ Suits B n a) ∨ (Suits B n b ∧ b ≠ 0 ∧ b ∈ lists p ∧ h.mmTbl p.1 p.2 = b)) := by
  have hsl := mmClass_snd_lt (mmRound n)
  unfold MmHeap.findBlk bitmapSearch
  rw [searchIdx_get (mmRound_lt hn), Option.map_some, Option.map_some]
  by_cases hfl : (mmClass (mmRound n)).1 ≥ c.fltSize
  · refine ⟨0, mmClass (mmRound n), ?_, .inl ⟨rfl, ?_⟩⟩
    · simp [hfl]
    · rintro a ⟨x, hx, -, hle⟩
      obtain ⟨-, hlt, -⟩ := insertIdx_eq (hI.tiled.size_lt hx)
      have : (mmClass (mmRound n)).1 ≤ (mmClass x.size).1 := by
        rcases hle with h | h <;> omega
      omega
  · have hstat : ¬ ((mmClass (mmRound n)).1 ≥ c.fltSize ∨ (mmClass (mmRound n)).2 ≥ sltSize) := by omega
    simp only [if_neg hstat, ne_eq, not_true, if_false]
    have hbits := hI.idx.bits
    have hr : ∀ p, lists p ≠ [] → p.1 < 32 ∧ p.2 < 32 := fun p hp => by
      have h1 := hI.idx.range hp
      have h2 := fltSize_le c
      unfold sltSize at h1
      omega
    rcases hbits.find hr (mmClass (mmRound n)).1 (mmClass (mmRound n)).2 with
      ⟨p, hp, hle, heq⟩ | ⟨hno, hz⟩
    · obtain ⟨hmem, x, hx, hfree, hcl⟩ := hI.first hp
      rw [heq]
      exact ⟨_, p, rfl, .inr ⟨⟨x, hx, hfree, hcl ▸ hle⟩, (hI.idx.pos hmem).ne', hmem, rfl⟩⟩
    · refine ⟨_, _, rfl, .inl ⟨hz, ?_⟩⟩
      rintro a ⟨x, hx, hfree, hle⟩
      exact hno (mmClass x.size) (List.ne_nil_of_mem (hI.filed.2 ⟨x, hx, hfree, rfl⟩)) hle

theorem Suits.le (hs : Suits B n b) (hd : c.ptrSize ∣ n) : ∃ x, B b = some x ∧ x.free = true ∧ n ≤ x.size := by
  obtain ⟨x, hx, hfree, hle⟩ := hs
  exact ⟨x, hx, hfree, le_of_classLe (four_dvd hd) hle⟩

end Rhino

namespace Rhino

variable {c : MmConfig} {lo hi : ℕ} {h h' h₁ : MmHeap} {B : ℕ → Option MmBlk}
  {lists : ℕ × ℕ → List ℕ} {x y z : MmBlk} {a b m n p q s t size : ℕ} {r : ℕ × ℕ} {f g : Bool}
  {U U' : ℕ → Option ℕ}

/-- `h'` has the fixed blocks of `h`. -/
def SamePool (h h' : MmHeap) : Prop := h'.pool = h.pool ∧ h'.fixedmblk = h.fixedmblk

theorem SamePool.trans (h₁ : SamePool h h') {h'' : MmHeap} (h2 : SamePool h' h'') : SamePool h h'' :=
  ⟨h2.1.trans h₁.1, h2.2.trans h₁.2⟩

/-! ## Allocation -/

theorem Span.splitBlk (hs : Span c lo hi h B lists p q x z) (hz : z.free = false)
    (hp : h.size c p = MmBlk.word ⟨q - p - c.headSize, true, x.prevFree⟩)
    (hq : h.size c q = MmBlk.word ⟨z.size, z.free, true⟩) (hn : OnlyUsed B p q p)
    (hd : c.ptrSize ∣ s) (hmin : c.minLength ≤ s) (hle : s ≤ q - p - c.headSize) :
    ∃ h' k, h.splitBlk c p s = some h' ∧ s ≤ k ∧
      MmHolds c lo hi h' (Function.update (usedBlk B) p (some k)) ∧
      (∀ t, (∀ r, ∀ b ∈ lists r, ¬ LinkAt c b t) → t < p ∨ q + c.headSize ≤ t →
        h'.mem t = h.mem t) ∧ SamePool h h' := by
  have hW := ptrSize_pos c
  have hlt := hs.lt
  have hfit := hs.fits
  have hH : c.headSize = 2 * c.ptrSize := rfl
  have hL : c.listSize = 4 * c.ptrSize := rfl
  have hM := minLength_eq c
  have htop := hs.tiled.top
  have hqhi := (hs.tiled.bounds hs.right).2
  have hone := hs.tiled.one (f := false) hs.left hs.right hlt fun h => nomatch h
  have hmax : q - p - c.headSize < c.maxMmSize := hone.size_lt setOne_left
  have hpd : c.ptrSize ∣ q - p - c.headSize := (hone.dvd setOne_left).2
  have hblk : c.blkSize (h.size c p) = q - p - c.headSize := by rw [hp, blkSize_word hpd hmax]
  have hnext : h.nextMmBlk c p = q := by
    rw [MmHeap.nextMmBlk, hblk]
    omega
  have hwords := words_ge c
  have hmax' := maxMmSize_le c
  have hsub : c.sub (q - p - c.headSize) s = q - p - c.headSize - s := sub_eq hle (by omega)
  by_cases hcut : q - p - c.headSize - s ≥ c.listSize
  · -- the rest is a block of its own
    obtain ⟨m, hm⟩ : ∃ m, m = p + c.headSize + s := ⟨_, rfl⟩
    have hmd : c.ptrSize ∣ m := by
      rw [hm]
      exact Nat.dvd_add (Nat.dvd_add (hs.tiled.dvd hs.left).1 ⟨2, Nat.mul_comm _ _⟩) hd
    have hadd : c.add (MmHeap.buffer c p) s = m := by
      rw [MmConfig.add, MmHeap.buffer, ← hm, Nat.mod_eq_of_lt (by omega)]
    have hsize : q - p - c.headSize - s - c.headSize = q - m - c.headSize := by omega
    have hkept : m - p - c.headSize = s := by omega
    obtain ⟨h₁, hh1⟩ : ∃ h₁, h₁ = (h.setSize c m (q - m - c.headSize + 1)).setPrev q m := ⟨_, rfl⟩
    have hmem : ∀ t, h₁.mem t = if t = q then m else if t = m + c.ptrSize then q - m - c.headSize + 1
        else h.mem t := by
      intro t
      rw [hh1, MmHeap.setPrev, MmHeap.write_mem, MmHeap.setSize, MmHeap.write_mem]
    have hsame : SameIdx h h₁ := by
      rw [hh1]
      exact (SameIdx.refl h).write.write
    obtain ⟨hI, hframe, hpool, hfix⟩ := hs.closeTwo (m := m) hz (by omega) (by omega) hmd
      hsame (fun t h1 h2 h3 => by rw [hmem, if_neg h2, if_neg h1])
      (by rw [MmHeap.size, hmem, if_neg (by omega), if_pos rfl]; rfl)
      (by rw [MmHeap.prev, hmem, if_pos rfl])
      (by rw [MmHeap.size, hmem, if_neg (by omega), if_neg (by omega)]; exact hq) rfl rfl
    have hmax2 : q - m - c.headSize < c.maxMmSize := hI.tiled.size_lt setTwo_mid
    rw [hkept] at hI hframe hpool hfix
    refine ⟨_, s, ?_, le_rfl, ⟨_, _, hI, usedBlk_setTwo hlt hn hs.right (by omega) (by omega)⟩,
      fun t ht ho => hframe t ht (by unfold LinkAt; omega) (by omega) (by omega) (by omega) (by omega),
      hpool, hfix⟩
    rw [MmHeap.splitBlk]
    simp only [hnext, hblk, hsub]
    rw [if_pos (by omega)]
    simp only [hsize, hadd]
    rw [(insertIdx_eq hmax2).1, Option.map_some, hh1]
  · -- the block is used whole
    obtain ⟨h₁, hh1⟩ : ∃ h₁, h₁ = h.setSize c q (clearPrevFree (h.size c q)) := ⟨_, rfl⟩
    obtain ⟨h₂, hh2⟩ : ∃ h₂, h₂ = h₁.setSize c p (clearFree (h₁.size c p)) := ⟨_, rfl⟩
    have hmem1 : ∀ t, h₁.mem t =
        if t = q + c.ptrSize then MmBlk.word ⟨z.size, z.free, false⟩ else h.mem t := by
      intro t
      rw [hh1, hq, clearPrevFree_word (four_dvd (hs.tiled.dvd hs.right).2), MmHeap.setSize,
        MmHeap.write_mem]
    have hsp : h₁.size c p = MmBlk.word ⟨q - p - c.headSize, true, x.prevFree⟩ := by
      rw [MmHeap.size, hmem1, if_neg (by omega)]
      exact hp
    have hmem2 : ∀ t, h₂.mem t = if t = p + c.ptrSize
        then MmBlk.word ⟨q - p - c.headSize, false, x.prevFree⟩ else h₁.mem t := by
      intro t
      rw [hh2, hsp, clearFree_word (four_dvd hpd), MmHeap.setSize, MmHeap.write_mem]
    have hsame : SameIdx h h₂ := by
      rw [hh2, hh1]
      exact (SameIdx.refl h).write.write
    have hI := hs.closeUsed hsame
      (fun t h1 h2 h3 => by rw [hmem2, if_neg h1, hmem1, if_neg h3])
      (by rw [MmHeap.size, hmem2, if_pos rfl])
      (by rw [MmHeap.size, hmem2, if_neg (by omega), hmem1, if_pos rfl])
    refine ⟨h₂, q - p - c.headSize, ?_, hle, ⟨_, _, hI, usedBlk_setOne hlt hn hs.right⟩,
      fun t _ ho => by rw [hmem2, if_neg (by omega), hmem1, if_neg (by omega)],
      hsame.pool, hsame.fixed⟩
    rw [MmHeap.splitBlk]
    simp only [hnext, hblk, hsub]
    rw [if_neg (by omega), hh2, hh1]

theorem MmInv.takeBlk (hI : MmInv c lo hi h B lists) (hb : B b = some x) (hx : x.free = true)
    (hp : b ∈ lists r) (hfirst : h.mmTbl r.1 r.2 = b) (hd : c.ptrSize ∣ s) (hmin : c.minLength ≤ s)
    (hle : s ≤ x.size) :
    ∃ h' k, (h.takeFirst c b r.1 r.2).splitBlk c b s = some h' ∧ s ≤ k ∧
      MmHolds c lo hi h' (Function.update (usedBlk B) b (some k)) ∧ Keeps c (usedBlk B) h h' ∧
      SamePool h h' := by
  obtain ⟨z, hz, hzf, -, hbw, hzw, hs⟩ := hI.spanFree hb hx
  have hcl : r = mmClass x.size := by
    obtain ⟨y, hy, -, hcl⟩ := hI.filed.1 hp
    rw [hb] at hy
    cases hy
    exact hcl.symm
  rw [hI.idx.takeFirst_eq hp hfirst, hcl]
  have hlen : b + c.headSize + x.size - b - c.headSize = x.size := by omega
  obtain ⟨h', k, hsplit, hk, hh, hframe, hpool⟩ := hs.splitBlk (s := s) hzf
    (by rw [hlen, hbw, ← hx]) hzw (hI.tiled.onlyUsed hb) hd hmin (by omega)
  have hused : usedBlk B b = none := by rw [usedBlk, hb, Option.bind_some, if_pos hx]
  have hkeep : Keeps c (Function.update (usedBlk B) b none) h h' := by
    refine hs.keeps (hI.tiled.onlyUsed hb) fun t ht ho => ?_
    rw [hframe t ht ho]
    refine hI.idx.getBlock_frame (hcl ▸ hp) fun q d hd hlink => ?_
    rcases eq_or_ne d b with rfl | hdb
    · have hW := ptrSize_pos c
      have := hI.tiled.link_in hb hx hlink
      omega
    · exact ht q d ((hI.idx.mem_dropBlk (hcl ▸ hp)).2 ⟨hd, hdb⟩) hlink
  rw [← hused, Function.update_eq_self] at hkeep
  exact ⟨h', k, hsplit, hk, hh, hkeep, SamePool.trans (getBlock_rest (h := h) (b := b)) hpool⟩

theorem dvd_alignUp (c : MmConfig) (n : ℕ) : c.ptrSize ∣ c.alignUp n := Dvd.intro_left _ rfl

theorem maxMmSize_dvd (c : MmConfig) : c.ptrSize ∣ c.maxMmSize := by
  have h8 : 2 ^ 3 ∣ c.maxMmSize := Nat.pow_dvd_pow 2 (by have := c.le_maxMmBit; omega)
  refine Dvd.dvd.trans ?_ h8
  rcases c.ptrSize_eq with h | h <;> rw [h] <;> decide

theorem alignUp_spec (hn : n ≤ c.maxMmSize) : n ≤ c.alignUp n ∧ c.alignUp n ≤ c.maxMmSize := by
  have hW := ptrSize_pos c
  have hmax := maxMmSize_le c
  have hwords := words_ge c
  have hW' : c.ptrSize ≤ 8 := by rcases c.ptrSize_eq with h | h <;> omega
  have hdm := Nat.div_add_mod' (n + (c.ptrSize - 1)) c.ptrSize
  have hlt := Nat.mod_lt (n + (c.ptrSize - 1)) (show c.ptrSize > 0 by omega)
  have heq : c.alignUp n = (n + (c.ptrSize - 1)) / c.ptrSize * c.ptrSize := by
    rw [MmConfig.alignUp, MmConfig.add, Nat.mod_eq_of_lt (by omega)]
  rw [heq]
  refine ⟨by omega, ?_⟩
  obtain ⟨k, hk⟩ := maxMmSize_dvd c
  rw [hk, Nat.mul_comm c.ptrSize k]
  refine Nat.mul_le_mul_right _ (Nat.lt_succ_iff.1 ((Nat.div_lt_iff_lt_mul (by omega)).2 ?_))
  have := Nat.succ_mul k c.ptrSize
  have := Nat.mul_comm c.ptrSize k
  simp only [Nat.succ_eq_add_one] at *
  omega

theorem allocSize_spec (hn : n ≤ c.maxMmSize) : c.ptrSize ∣ allocSize c n ∧
    c.minLength ≤ allocSize c n ∧ n ≤ allocSize c n ∧ allocSize c n ≤ c.maxMmSize := by
  obtain ⟨h1, h2⟩ := alignUp_spec hn
  have h128 : 2 ^ 7 ≤ c.maxMmSize := Nat.pow_le_pow_right (by decide) c.le_maxMmBit
  have hmin : c.minLength ≤ 16 := by
    unfold MmConfig.minLength
    rcases c.ptrSize_eq with h | h <;> omega
  unfold allocSize
  simp only
  split_ifs with h
  · exact ⟨⟨2, Nat.mul_comm _ _⟩, le_rfl, by omega, by omega⟩
  · exact ⟨dvd_alignUp c n, by omega, h1, h2⟩

/-- **`k_mm_alloc` behind the fixed blocks**: nothing, or a new block with the
    bytes wanted, which a used block is in front of. -/
theorem MmHolds.tlfAlloc (hh : MmHolds c lo hi h U) (hn : n ≤ c.maxMmSize) :
    ∃ h' ptr, h.tlfAlloc c n = some (h', ptr) ∧ (h' = h ∧ ptr = 0 ∨
      ∃ b k, ptr = MmHeap.buffer c b ∧ U b = none ∧ allocSize c n ≤ k ∧
        MmHolds c lo hi h' (Function.update U b (some k)) ∧ Keeps c U h h' ∧ SamePool h h' ∧
        ∃ a m, U a = some m ∧ a + c.headSize + m = b) := by
  obtain ⟨B, lists, hI, rfl⟩ := hh
  obtain ⟨hd, hmin, -, hmax⟩ := allocSize_spec hn
  obtain ⟨b, p, heq, ⟨hb, -⟩ | ⟨hsuit, hb, hmem, hfirst⟩⟩ := hI.findBlk hmax
  · refine ⟨h, 0, ?_, .inl ⟨rfl, rfl⟩⟩
    unfold MmHeap.tlfAlloc
    simp only [heq, Option.bind_some]
    rw [if_pos hb]
  · obtain ⟨x, hx, hfree, hle⟩ := hsuit.le hd
    obtain ⟨h', k, hsplit, hk, hh', hkeep, hpool⟩ := hI.takeBlk hx hfree hmem hfirst hd hmin hle
    refine ⟨h', MmHeap.buffer c b, ?_, .inr ⟨b, k, rfl, ?_, hk, hh', hkeep, hpool, ?_⟩⟩
    · unfold MmHeap.tlfAlloc
      simp only [heq, Option.bind_some]
      rw [if_neg hb, hsplit]
      rfl
    · rw [usedBlk, hx, Option.bind_some, if_pos hfree]
    · obtain ⟨a, y, hy, hab⟩ := hI.tiled.before hx (hI.tiled.free_ne_lo hx hfree)
      obtain ⟨z, hz, -, hno⟩ := hI.tiled.next hy (hI.tiled.ne_hi hx (by
        have := minLength_pos c
        unfold MmConfig.minLength at this
        unfold MmConfig.headSize at hab
        omega))
      rw [hab, hx] at hz
      cases hz
      refine ⟨a, y.size, ?_, hab⟩
      rw [usedBlk, hy, Option.bind_some, if_neg]
      intro hyf
      rw [hno hyf] at hfree
      cases hfree

/-! ## Freeing -/

theorem add_word (hB : Tiled c lo hi B) (hp : B p = some x) (hq : B q = some z) (hpm : p + c.headSize ≤ m)
    (hmq : m + c.headSize ≤ q) : c.add (MmBlk.word ⟨m - p - c.headSize, f, g⟩)
      (q - m - c.headSize + c.headSize) = MmBlk.word ⟨q - p - c.headSize, f, g⟩ := by
  have hwords := words_ge c
  have hspan := hB.span
  have hmax := maxMmSize_le c
  have h1 := (hB.bounds hp).1
  have h2 := (hB.bounds hq).2
  unfold MmConfig.add MmBlk.word
  simp only
  rw [Nat.mod_eq_of_lt (by split_ifs <;> omega)]
  split_ifs <;> omega

namespace Span

variable (hs : Span c lo hi h B lists p q x z)
include hs

theorem setSize (hw : isPrevFree n ↔ x.prevFree = true) :
    Span c lo hi (h.setSize c p n) B lists p q x z ∧
      (∀ t, t < p ∨ q + c.headSize ≤ t → (h.setSize c p n).mem t = h.mem t) ∧
      (h.setSize c p n).size c p = n := by
  have hW := ptrSize_pos c
  have hfit := hs.fits
  have hH : c.headSize = 2 * c.ptrSize := rfl
  have hmem : ∀ t, t ≠ p + c.ptrSize → (h.setSize c p n).mem t = h.mem t := fun t ht => by
    rw [MmHeap.setSize, MmHeap.write_mem, if_neg ht]
  have hself : (h.setSize c p n).size c p = n := by
    rw [MmHeap.size, MmHeap.setSize, MmHeap.write_mem, if_pos rfl]
  refine ⟨hs.congr (SameIdx.refl h).write (fun t ho _ => hmem t (by omega)) (hmem p (by omega)) ?_ ?_,
    fun t ho => hmem t (by omega), hself⟩
  · rw [hself, hw, hs.prevFree]
  · obtain ⟨f, hf⟩ := hs.size_right
    exact ⟨f, (hmem _ (by omega)).trans hf⟩

theorem bytes : c.ptrSize ∣ q - p - c.headSize ∧ q - p - c.headSize < c.maxMmSize := by
  have hone := hs.tiled.one (f := false) hs.left hs.right hs.lt fun h => nomatch h
  exact ⟨(hone.dvd setOne_left).2, hone.size_lt setOne_left⟩

theorem mergeNext (hp : h.size c p = MmBlk.word ⟨q - p - c.headSize, f, x.prevFree⟩)
    (hn : OnlyUsed B p q b) :
    ∃ h' lists' q' z', h.mergeNext c p = some h' ∧ Span c lo hi h' B lists' p q' x z' ∧
      z'.free = false ∧ q ≤ q' ∧ h'.size c p = MmBlk.word ⟨q' - p - c.headSize, f, x.prevFree⟩ ∧
      OnlyUsed B p q' b ∧ Keeps c (Function.update (usedBlk B) b none) h h' ∧ SamePool h h' := by
  have hW := ptrSize_pos c
  have hfit := hs.fits
  have hH : c.headSize = 2 * c.ptrSize := rfl
  obtain ⟨hd, hmax⟩ := hs.bytes
  have hblk : c.blkSize (h.size c p) = q - p - c.headSize := by rw [hp, blkSize_word hd hmax]
  have hnext : h.nextMmBlk c p = q := by
    rw [MmHeap.nextMmBlk, hblk]
    omega
  obtain ⟨g, hg⟩ := hs.size_right
  have hzd := (hs.tiled.dvd hs.right).2
  have hfree : isFree (h.size c q) ↔ z.free = true := by
    rw [hg]
    exact isFree_word (four_dvd hzd)
  unfold MmHeap.mergeNext
  simp only [hnext]
  by_cases hz : z.free = true
  · obtain ⟨z', hz', hzf, htake, hframe, hs'⟩ := hs.takeNext hz
    have hzmax := hs.tiled.size_lt hs.right
    obtain ⟨h₁, hh1⟩ : ∃ h₁, h₁ = h.getBlock c q (mmClass z.size).1 (mmClass z.size).2 := ⟨_, rfl⟩
    rw [← hh1] at htake hframe hs'
    have hsp : h₁.size c p = MmBlk.word ⟨q - p - c.headSize, f, x.prevFree⟩ :=
      (hframe _ (hs.no_link_in (by omega) (by omega))).trans hp
    have hsq : h₁.size c q = MmBlk.word ⟨z.size, z.free, g⟩ :=
      (hframe _ (hs.no_link_in (by omega) (by omega))).trans hg
    have hlen : z.size = q + c.headSize + z.size - q - c.headSize := by omega
    have hword : c.add (h₁.size c p) (c.blkSize (h₁.size c q) + c.headSize) =
        MmBlk.word ⟨q + c.headSize + z.size - p - c.headSize, f, x.prevFree⟩ := by
      rw [hsp, hsq, blkSize_word hzd hzmax, hlen]
      have := add_word (f := f) (g := x.prevFree) (m := q) hs.tiled hs.left hz' (by omega) (by omega)
      rw [← hlen] at this ⊢
      exact this
    have h4 := four_dvd hs'.bytes.1
    obtain ⟨hs2, hmem, hself⟩ := hs'.setSize (n := c.add (h₁.size c p)
      (c.blkSize (h₁.size c q) + c.headSize)) (by rw [hword]; exact isPrevFree_word h4)
    have hn' := hn.extend hs.tiled hs.right hz
    refine ⟨_, _, _, z', by rw [if_pos (hfree.2 hz), htake]; rfl, hs2, hzf, by omega,
      hself.trans hword, hn', ?_, ?_⟩
    · exact (hs.keeps hn fun t ht _ => hframe t ht).trans (hs'.keeps hn' fun t _ ho => hmem t ho)
    · rw [hh1]
      exact getBlock_rest
  · rw [if_neg fun h => hz (hfree.1 h)]
    exact ⟨h, lists, q, z, rfl, hs, by simpa using hz, le_rfl, hp, hn, Keeps.refl _ _ h, rfl, rfl⟩

theorem mergePrev (hp : h.size c p = MmBlk.word ⟨q - p - c.headSize, true, x.prevFree⟩)
    (hn : OnlyUsed B p q b) (hpb : p ≤ b) (hplo : p ≠ lo) :
    ∃ h' lists' p' x', h.mergePrev c p = some (h', p') ∧ Span c lo hi h' B lists' p' q x' z ∧
      x'.prevFree = false ∧ p' ≤ b ∧ p' ≠ lo ∧
      h'.size c p' = MmBlk.word ⟨q - p' - c.headSize, true, false⟩ ∧ OnlyUsed B p' q b ∧
      Keeps c (Function.update (usedBlk B) b none) h h' ∧ SamePool h h' := by
  have hW := ptrSize_pos c
  have hfit := hs.fits
  have hH : c.headSize = 2 * c.ptrSize := rfl
  obtain ⟨hd, hmax⟩ := hs.bytes
  unfold MmHeap.mergePrev
  simp only [hs.prevFree]
  by_cases hx : x.prevFree = true
  · obtain ⟨y, hy, hyf, hypf, heq, hyw, htake, hframe, hs'⟩ := hs.takePrev hx
    obtain ⟨h₁, hh1⟩ : ∃ h₁, h₁ = h.getBlock c (h.prev p) (mmClass y.size).1 (mmClass y.size).2 :=
      ⟨_, rfl⟩
    have hmem : h.prev p ∈ lists (mmClass y.size) := hs.filed.2 ⟨y, hy, hyf, rfl, .inl (by omega)⟩
    have hkeep := (getBlock_header hs.tiled hs.idx hs.blocks hmem hy).2
    rw [← hh1] at htake hframe hs' hkeep
    have hsp : h₁.size c p = MmBlk.word ⟨q - p - c.headSize, true, x.prevFree⟩ :=
      (hframe _ (hs.no_link_in (by omega) (by omega))).trans hp
    have hlen : y.size = p - h.prev p - c.headSize := by omega
    have hst : h₁.size c (h.prev p) = MmBlk.word ⟨p - h.prev p - c.headSize, true, false⟩ := by
      rw [← hlen, ← hyf, ← hypf]
      exact hkeep.trans hyw
    have hword : c.add (h₁.size c (h.prev p)) (c.blkSize (h₁.size c p) + c.headSize) =
        MmBlk.word ⟨q - h.prev p - c.headSize, true, false⟩ := by
      rw [hst, hsp, blkSize_word hd hmax]
      exact add_word hs.tiled hy hs.right (by omega) (by omega)
    have h4 := four_dvd hs'.bytes.1
    obtain ⟨hs2, hmem2, hself⟩ := hs'.setSize (n := c.add (h₁.size c (h.prev p))
      (c.blkSize (h₁.size c p) + c.headSize)) (by rw [hword, hypf]; exact isPrevFree_word h4)
    have hn' : OnlyUsed B (h.prev p) q b := by
      intro a w ha hle hlt hne
      rcases lt_or_ge a p with hap | hap
      · rcases eq_or_lt_of_le hle with rfl | hlt'
        · rw [hy] at ha
          cases ha
          exact hyf
        · have := hs.tiled.apart hy ha hlt'
          omega
      · exact hn ha hap hlt hne
    refine ⟨_, _, h.prev p, y, by rw [if_pos hx, htake]; rfl, hs2, hypf, by omega,
      hs.tiled.free_ne_lo hy hyf, hself.trans hword, hn', ?_, ?_⟩
    · exact (hs.keeps hn fun t ht _ => hframe t ht).trans (hs'.keeps hn' fun t _ ho => hmem2 t ho)
    · rw [hh1]
      exact getBlock_rest
  · rw [if_neg hx]
    have hxf : x.prevFree = false := by simpa using hx
    exact ⟨h, lists, p, x, rfl, hs, hxf, hpb, hplo, hxf ▸ hp, hn, Keeps.refl _ _ h, rfl, rfl⟩

end Span

theorem Span.tlfFree (hs : Span c lo hi h B lists b q x z)
    (hw : h.size c b = MmBlk.word ⟨q - b - c.headSize, false, x.prevFree⟩) (hn : OnlyUsed B b q b)
    (hlo : b ≠ lo) :
    ∃ h', h.tlfFree c (MmHeap.buffer c b) = some h' ∧
      MmHolds c lo hi h' (Function.update (usedBlk B) b none) ∧
      Keeps c (Function.update (usedBlk B) b none) h h' ∧ SamePool h h' := by
  have h4 := four_dvd hs.bytes.1
  have htop := hs.tiled.top
  have hble := (hs.tiled.bounds hs.left).2
  have hbuf : c.sub (MmHeap.buffer c b) c.headSize = b := by
    rw [MmHeap.buffer, sub_eq (by omega) (by omega), Nat.add_sub_cancel]
  have hset : setFree (h.size c b) = MmBlk.word ⟨q - b - c.headSize, true, x.prevFree⟩ := by
    rw [hw, setFree_word h4]
  obtain ⟨hs0, hmem0, hself0⟩ := hs.setSize (n := setFree (h.size c b)) (by
    rw [hset]
    exact isPrevFree_word h4)
  obtain ⟨h₁, lists1, q1, z1, hmerge1, hs1, hzf, -, hw1, hn1, hk1, hpool1⟩ :=
    hs0.mergeNext (hself0.trans hset) hn
  obtain ⟨h2, lists2, p2, x2, hmerge2, hs2, hxf, hpb, hplo, hw2, hn2, hk2, hpool2⟩ :=
    hs1.mergePrev hw1 hn1 le_rfl hlo
  obtain ⟨h3, hlink, hI3, hframe, hpool3⟩ := hs2.linkFree hxf hzf hplo hw2
  refine ⟨h3, ?_, ⟨_, _, hI3, usedBlk_setFree hs2.lt hs2.right hpb hs1.lt hn2⟩, ?_, ?_⟩
  · unfold MmHeap.tlfFree
    simp only [hbuf, hmerge1, hmerge2, Option.bind_some, hlink]
  · have hk0 : Keeps c (Function.update (usedBlk B) b none) h
        (h.setSize c b (setFree (h.size c b))) := hs.keeps hn fun t _ ho => hmem0 t ho
    have hk3 : Keeps c (Function.update (usedBlk B) b none) h2 h3 := hs2.keeps hn2 fun t ht ho => by
      have hW := ptrSize_pos c
      have hfit := hs2.fits
      have hH : c.headSize = 2 * c.ptrSize := rfl
      have hM := minLength_eq c
      exact hframe t ht (by unfold LinkAt; omega) (by omega) (by omega)
    exact ((hk0.trans hk1).trans hk2).trans hk3
  · exact SamePool.trans (SamePool.trans (SamePool.trans ⟨rfl, rfl⟩ hpool1) hpool2) hpool3

theorem MmHolds.tlfFree (hh : MmHolds c lo hi h U) (hb : U b = some n) (hlo : b ≠ lo) (hhi : b ≠ hi) :
    ∃ h', h.tlfFree c (MmHeap.buffer c b) = some h' ∧
      MmHolds c lo hi h' (Function.update U b none) ∧ Keeps c (Function.update U b none) h h' ∧
      SamePool h h' := by
  obtain ⟨B, lists, hI, rfl⟩ := hh
  obtain ⟨f, hx⟩ := usedBlk_eq_some.1 hb
  obtain ⟨z, -, hs⟩ := hI.span hx rfl hhi
  refine hs.tlfFree ?_ (hI.tiled.onlyUsed hx) hlo
  rw [show b + c.headSize + n - b - c.headSize = n by omega]
  exact (hI.header hx).size

end Rhino
