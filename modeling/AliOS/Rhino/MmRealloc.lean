/-
  Rhino kernel: `k_mm_realloc` where the block stays where it is.
-/
import AliOS.Rhino.MmAlloc

namespace Rhino

variable {c : MmConfig} {lo hi : ℕ} {h h' h₁ : MmHeap} {B : ℕ → Option MmBlk}
  {lists : ℕ × ℕ → List ℕ} {x y z : MmBlk} {a b m n p q s t : ℕ} {U : ℕ → Option ℕ}

/-- `h'` is `h` after the block `b` has got `k` bytes: the first `s` of them are as
    they were, and so are the other blocks. -/
structure Resized (c : MmConfig) (lo hi : ℕ) (U : ℕ → Option ℕ) (b s k : ℕ) (h h' : MmHeap) :
    Prop where
  holds : MmHolds c lo hi h' (Function.update U b (some k))
  keeps : Keeps c (Function.update U b none) h h'
  same : ∀ t, b + c.headSize ≤ t → t < b + c.headSize + s → h'.mem t = h.mem t
  pool : SamePool h h'

namespace Span

variable (hs : Span c lo hi h B lists p q x z) (hn : OnlyUsed B p q p) (hz : z.free = false)
  (hd : c.ptrSize ∣ s) (hmin : c.minLength ≤ s)
include hs hn hz hd hmin

/-- The first `s` bytes of a span are kept, where there are enough behind them. -/
theorem cutTail_resized (hle : p + c.headSize + s + c.listSize ≤ q) :
    ∃ h', h.cutTail c p q s (q - p - c.headSize - s) = some h' ∧
      Resized c lo hi (usedBlk B) p s s h h' := by
  have hW := ptrSize_pos c
  have hL : c.listSize = 4 * c.ptrSize := rfl
  have hH : c.headSize = 2 * c.ptrSize := rfl
  obtain ⟨h', heq, hI, hframe, hpool⟩ := hs.cutTail hz hd hmin hle
  refine ⟨h', heq, ⟨_, _, hI, usedBlk_setTwo hs.lt hn hs.right (by omega) (by omega)⟩, ?_, ?_, hpool⟩
  · exact hs.keeps hn fun t ht ho => hframe t ht (by omega)
  · exact fun t hle hlt => hframe t (hs.no_link_in (by omega) (by omega)) (by omega)

end Span

theorem MmInv.shrink (hI : MmInv c lo hi h B lists) (hb : B b = some x) (hx : x.free = false)
    (hhi : b ≠ hi) (hd : c.ptrSize ∣ s) (hmin : c.minLength ≤ s) (hle : s ≤ x.size) :
    ∃ h' k, h.shrink c b (b + c.headSize + x.size) s x.size = some h' ∧ s ≤ k ∧
      Resized c lo hi (usedBlk B) b s k h h' := by
  have hW := ptrSize_pos c
  have hL : c.listSize = 4 * c.ptrSize := rfl
  have hM := minLength_eq c
  have hH : c.headSize = 2 * c.ptrSize := rfl
  have hwords := words_ge c
  have hmax := maxMmSize_le c
  obtain ⟨z, hz, hs⟩ := hI.span hb hx hhi
  have hn := hI.tiled.onlyUsed hb
  have hzd := (hI.tiled.dvd hz).2
  have hzw := (hI.header hz).size
  have hxlt := hI.tiled.size_lt hb
  have hzlt := hI.tiled.size_lt hz
  have hfree : isFree (h.size c (b + c.headSize + x.size)) ↔ z.free = true := by
    rw [hzw]
    exact isFree_word (four_dvd hzd)
  unfold MmHeap.shrink
  by_cases hzf : z.free = true
  · obtain ⟨z', -, hz'f, htake, hframe, hs'⟩ := hs.takeNext hzf
    obtain ⟨h₁, hh1⟩ : ∃ h₁, h₁ = h.getBlock c (b + c.headSize + x.size) (mmClass z.size).1
      (mmClass z.size).2 := ⟨_, rfl⟩
    rw [← hh1] at htake hframe hs'
    have hsq : c.blkSize (h₁.size c (b + c.headSize + x.size)) = z.size := by
      have : h₁.size c (b + c.headSize + x.size) = z.word :=
        (hframe _ (hs.no_link_in (by omega) (by omega))).trans hzw
      rw [this]
      exact blkSize_word hzd hzlt
    have hzmin := hI.tiled.least hz (hI.tiled.free_ne_hi hz hzf)
    have hspan := hs'.bytes.2
    have hadd : c.add x.size (z.size + c.headSize) =
        b + c.headSize + x.size + c.headSize + z.size - b - c.headSize := by
      rw [MmConfig.add, Nat.mod_eq_of_lt (by omega)]
      omega
    have hn' := hn.extend hI.tiled hz hzf
    obtain ⟨h', hcut, hr⟩ := hs'.cutTail_resized hn' hz'f hd hmin (by omega)
    refine ⟨h', s, ?_, le_rfl, hr.holds, ?_, fun t hle hlt => ?_, ?_⟩
    · rw [if_pos (hfree.2 hzf), htake, Option.bind_some]
      simp only [hsq, hadd, MmHeap.nextMmBlk]
      rw [sub_eq (by omega) (by omega)]
      exact hcut
    · exact (hs.keeps hn fun t ht _ => hframe t ht).trans hr.keeps
    · exact (hr.same t hle hlt).trans (hframe t (hs.no_link_in (by omega) (by omega)))
    · refine SamePool.trans ?_ hr.pool
      rw [hh1]
      exact getBlock_rest
  · rw [if_neg fun h => hzf (hfree.1 h), sub_eq hle (by omega)]
    by_cases hcut : x.size - s ≥ c.listSize
    · have hzf' : z.free = false := by simpa using hzf
      obtain ⟨h', hcut, hr⟩ := hs.cutTail_resized hn hzf' hd hmin (by omega)
      rw [show b + c.headSize + x.size - b - c.headSize = x.size by omega] at hcut
      exact ⟨h', s, hcut, le_rfl, hr⟩
    · refine ⟨h, x.size, if_neg hcut, hle, ⟨B, lists, hI, ?_⟩, Keeps.refl _ _ h, fun _ _ _ => rfl, rfl, rfl⟩
      have hused : usedBlk B b = some x.size := by
        rw [usedBlk, hb, Option.bind_some, hx]
        rfl
      rw [← hused, Function.update_eq_self]

theorem MmInv.grow (hI : MmInv c lo hi h B lists) (hb : B b = some x) (hx : x.free = false)
    (hhi : b ≠ hi) (hz : B (b + c.headSize + x.size) = some z) (hzf : z.free = true)
    (hd : c.ptrSize ∣ s) (hmin : c.minLength ≤ s) (hlt : x.size < s) (hle : s ≤ x.size + z.size) :
    ∃ h' k, h.grow c b (b + c.headSize + x.size) s = some h' ∧ s ≤ k ∧
      Resized c lo hi (usedBlk B) b x.size k h h' := by
  have hW := ptrSize_pos c
  have hL : c.listSize = 4 * c.ptrSize := rfl
  have hM := minLength_eq c
  have hH : c.headSize = 2 * c.ptrSize := rfl
  have hwords := words_ge c
  have hmax := maxMmSize_le c
  obtain ⟨z0, hz0, hs⟩ := hI.span hb hx hhi
  rw [hz] at hz0
  cases hz0
  have hn := hI.tiled.onlyUsed hb
  have hzd := (hI.tiled.dvd hz).2
  have hxlt := hI.tiled.size_lt hb
  have hzlt := hI.tiled.size_lt hz
  obtain ⟨z', hz', hz'f, htake, hframe, hs'⟩ := hs.takeNext hzf
  obtain ⟨h₁, hh1⟩ : ∃ h₁, h₁ = h.getBlock c (b + c.headSize + x.size) (mmClass z.size).1
    (mmClass z.size).2 := ⟨_, rfl⟩
  rw [← hh1] at htake hframe hs'
  have hsb : h₁.size c b = MmBlk.word ⟨b + c.headSize + x.size - b - c.headSize, false, x.prevFree⟩ := by
    refine ((hframe _ (hs.no_link_in (by omega) (by omega))).trans (hI.header hb).size).trans ?_
    rw [show b + c.headSize + x.size - b - c.headSize = x.size by omega, ← hx]
  have hsq : c.blkSize (h₁.size c (b + c.headSize + x.size)) = z.size := by
    have : h₁.size c (b + c.headSize + x.size) = z.word :=
      (hframe _ (hs.no_link_in (by omega) (by omega))).trans (hI.header hz).size
    rw [this]
    exact blkSize_word hzd hzlt
  obtain ⟨q, hq⟩ : ∃ q, q = b + c.headSize + x.size + c.headSize + z.size := ⟨_, rfl⟩
  rw [← hq] at hz' hs'
  obtain ⟨hqd, hqmax⟩ := hs'.bytes
  have hword : c.add (h₁.size c b) (c.blkSize (h₁.size c (b + c.headSize + x.size)) + c.headSize) =
      MmBlk.word ⟨q - b - c.headSize, false, x.prevFree⟩ := by
    rw [hsb, hsq, show z.size = q - (b + c.headSize + x.size) - c.headSize by omega]
    exact add_word hI.tiled hb hz' (by omega) (by omega)
  -- the header of the block, then that of the block behind it
  obtain ⟨h₂, hh2⟩ : ∃ h₂, h₂ = h₁.setSize c b
    (c.add (h₁.size c b) (c.blkSize (h₁.size c (b + c.headSize + x.size)) + c.headSize)) := ⟨_, rfl⟩
  obtain ⟨hs2, hmem2, hself2⟩ := hs'.setSize (n := c.add (h₁.size c b)
    (c.blkSize (h₁.size c (b + c.headSize + x.size)) + c.headSize))
    (by rw [hword]; exact isPrevFree_word (four_dvd hqd))
  rw [← hh2] at hs2 hmem2 hself2
  rw [hword] at hself2
  have hnext : h₂.nextMmBlk c b = q := by
    rw [MmHeap.nextMmBlk, hself2, blkSize_word hqd hqmax]
    omega
  obtain ⟨h3, hh3⟩ : ∃ h3, h3 = h₂.setPrev q b := ⟨_, rfl⟩
  obtain ⟨h4, hh4⟩ : ∃ h4, h4 = h3.setSize c q (clearPrevFree (h3.size c q)) := ⟨_, rfl⟩
  have hmem3 : ∀ t, h3.mem t = if t = q then b else h₂.mem t := fun t => by
    rw [hh3, MmHeap.setPrev, MmHeap.write_mem]
  have hwq : clearPrevFree (h3.size c q) = MmBlk.word ⟨z'.size, z'.free, false⟩ := by
    obtain ⟨f, hf⟩ := hs2.size_right
    rw [MmHeap.size, hmem3, if_neg (by omega)]
    refine (congrArg clearPrevFree hf).trans ?_
    exact clearPrevFree_word (four_dvd (hI.tiled.dvd hz').2)
  have hmem4 : ∀ t, h4.mem t =
      if t = q + c.ptrSize then MmBlk.word ⟨z'.size, z'.free, false⟩ else h3.mem t := fun t => by
    rw [hh4, hwq, MmHeap.setSize, MmHeap.write_mem]
  have hout : ∀ t, t ≠ q → t ≠ q + c.ptrSize → h4.mem t = h₂.mem t := fun t h1 h2 => by
    rw [hmem4, if_neg h2, hmem3, if_neg h1]
  have hsame : SameIdx h₂ h4 := by
    rw [hh4, hh3]
    exact (SameIdx.refl h₂).write.write
  have hsb4 : h4.size c b = MmBlk.word ⟨q - b - c.headSize, false, x.prevFree⟩ :=
    (hout _ (by omega) (by omega)).trans hself2
  have hsq4 : h4.size c q = MmBlk.word ⟨z'.size, z'.free, false⟩ := by
    rw [MmHeap.size, hmem4, if_pos rfl]
  have hs4 : Span c lo hi h4 B (dropBlk lists (mmClass z.size) (b + c.headSize + x.size)) b q x z' := by
    refine hs2.congr hsame (fun t ho hne => hout t (by omega) hne) (hout b (by omega) (by omega)) ?_
      ⟨false, hsq4⟩
    rw [hsb4, hself2]
  have hn' : OnlyUsed B b q b := by
    rw [hq]
    exact hn.extend hI.tiled hz hzf
  have hk4 : Keeps c (Function.update (usedBlk B) b none) h h4 :=
    (hs.keeps hn fun t ht _ => hframe t ht).trans ((hs'.keeps hn' fun t _ ho => hmem2 t ho).trans
      (hs2.keeps hn' fun t _ ho => hout t (by omega) (by omega)))
  have hpay : ∀ t, b + c.headSize ≤ t → t < b + c.headSize + x.size → h4.mem t = h.mem t := by
    intro t hle hlt
    rw [hout t (by omega) (by omega), ← hframe t (hs.no_link_in (by omega) (by omega)), hh2,
      MmHeap.setSize, MmHeap.write_mem, if_neg (by omega)]
  have hpool : SamePool h h4 := by
    have hget : SamePool h h₁ := by
      rw [hh1]
      exact getBlock_rest
    refine SamePool.trans hget ⟨?_, ?_⟩
    · rw [hsame.pool, hh2]
      rfl
    · rw [hsame.fixed, hh2]
      rfl
  have hgrow : h.grow c b (b + c.headSize + x.size) s =
      h4.cutTail c b q s (q - b - c.headSize - s) := by
    have hsub : c.sub (c.blkSize (h4.size c b)) s = q - b - c.headSize - s := by
      rw [hsb4, blkSize_word hqd hqmax, sub_eq (by omega) (by omega)]
    unfold MmHeap.grow
    rw [htake, Option.bind_some]
    simp only [← hh2, hnext, ← hh3, ← hh4, hsub]
  rw [hgrow]
  by_cases hcut : q - b - c.headSize - s ≥ c.listSize
  · obtain ⟨h', heq, hr⟩ := hs4.cutTail_resized hn' hz'f hd hmin (by omega)
    exact ⟨h', s, heq, le_rfl, hr.holds, hk4.trans hr.keeps, fun t hle hlt =>
      (hr.same t hle (by omega)).trans (hpay t hle hlt), SamePool.trans hpool hr.pool⟩
  · have hI4 := hs4.closeUsed (SameIdx.refl h4) (fun _ _ _ _ => rfl) hsb4 hsq4
    exact ⟨h4, q - b - c.headSize, if_neg hcut, by omega, ⟨_, _, hI4, usedBlk_setOne hs4.lt hn' hz'⟩,
      hk4, hpay, hpool⟩

end Rhino
