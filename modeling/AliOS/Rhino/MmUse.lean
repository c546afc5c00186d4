/-
  Rhino kernel: `k_mm_alloc`, `k_mm_free` and `k_mm_realloc` on a heap that is well
  formed, by its live pointers.
-/
import AliOS.Rhino.MmLive

namespace Rhino

variable {c : MmConfig} {lo hi : ℕ} {h h' : MmHeap} {a b k m n p q t : ℕ} {U U' L L' : ℕ → Option ℕ}
  {cells : List ℕ}

theorem MmHolds.not_buffer (hh : MmHolds c lo hi h U) (hb : U b = some n) (ha : U a = some m)
    (hne : b ≠ a) (hle : MmHeap.buffer c a < p) (hlt : p + defFixBlkSize ≤ MmHeap.buffer c a + m) :
    p ≠ MmHeap.buffer c b := by
  unfold MmHeap.buffer defFixBlkSize at *
  rcases lt_or_gt_of_ne hne with h | h
  · have := hh.apart hb ha h
    omega
  · have := hh.apart ha hb h
    omega

namespace MmView

variable (hv : MmView c lo hi h L U cells)
include hv

theorem not_buffer (hf : h.fixedmblk ≠ 0) (hc : IsCell c h p) (hb : U b = some n)
    (hbf : b ≠ h.fixedmblk) : p ≠ MmHeap.buffer c b := by
  obtain ⟨m, hm, hlt, hle⟩ := (hv.poolOk hf).within hc
  exact hv.holds.not_buffer hb hm hbf hlt hle

theorem used_fixed (hn : U b = none) : b ≠ h.fixedmblk ∨ h.fixedmblk = 0 := by
  by_cases hf : h.fixedmblk = 0
  · exact .inr hf
  · refine .inl fun heq => ?_
    obtain ⟨m, hm, -⟩ := (hv.poolOk hf).used
    rw [heq, hm] at hn
    cases hn

theorem not_buffer_new (hb : U b = none) (hh : MmHolds c lo hi h' (Function.update U b (some k)))
    (hf : h.fixedmblk ≠ 0) (hc : IsCell c h p) : p ≠ MmHeap.buffer c b := by
  obtain ⟨m, hm, hlt, hle⟩ := (hv.poolOk hf).within hc
  have hbf : b ≠ h.fixedmblk := fun heq => by rw [heq, hm] at hb; cases hb
  refine hh.not_buffer (Function.update_self ..) ?_ hbf hlt hle
  rw [Function.update_of_ne hbf.symm, hm]

theorem pool_congr (hk : Keeps c (Function.update U b none) h h') (hbf : b ≠ h.fixedmblk)
    (hsame : SamePool h h') (o : Option ℕ) :
    h'.fixedmblk = 0 ∨ PoolOk c lo hi h' (Function.update U b o) cells := by
  rcases hv.pool with hf | hp
  · exact .inl (hsame.2.trans hf)
  · refine .inr ⟨?_, by rw [hsame.2]; exact hp.ne_lo, by rw [hsame.2]; exact hp.ne_hi, hp.nodup, ?_, ?_,
      by rw [hsame.1]; exact hp.avail⟩
    · rw [hsame.2, Function.update_apply, if_neg hbf.symm]
      exact hp.used
    · intro p hpc
      have := hp.cell p hpc
      unfold IsCell cellStart at this ⊢
      rwa [hsame.2]
    · rw [hsame.1]
      refine hp.linked.congr fun d hd => ?_
      obtain ⟨m, hm, hlt, hle⟩ := hp.within (hp.cell d hd)
      unfold MmHeap.buffer defFixBlkSize at *
      refine hk h.fixedmblk m d ?_ (by omega) (by omega)
      rw [Function.update_apply, if_neg hbf.symm, hm]

/-- A block that is not fixed gets other bytes, or is used or free from now on. -/
theorem update {o : Option ℕ} (hh : MmHolds c lo hi h' (Function.update U b o))
    (hk : Keeps c (Function.update U b none) h h') (hlo : b ≠ lo) (hhi : b ≠ hi)
    (hbf : b ≠ h.fixedmblk) (hsame : SamePool h h')
    (hcell : h.fixedmblk ≠ 0 → ∀ p, IsCell c h p → p ≠ MmHeap.buffer c b) :
    MmView c lo hi h' (Function.update L (MmHeap.buffer c b) o) (Function.update U b o) cells := by
  refine ⟨hh, hv.pool_congr hk hbf hsame o, fun p n => ?_⟩
  have hcell' : IsCell c h' p ↔ IsCell c h p := by
    unfold IsCell cellStart
    rw [hsame.2]
  rw [Function.update_apply, hsame.2, hcell']
  by_cases hpb : p = MmHeap.buffer c b
  · rw [if_pos hpb]
    constructor
    · rintro rfl
      exact .inl ⟨b, hpb, by rw [Function.update_self], hlo, hhi, hbf⟩
    · rintro (⟨d, hpd, hd, -, -, -⟩ | ⟨hf, hc, -, -⟩)
      · have hdb : d = b := by
          unfold MmHeap.buffer at hpb hpd
          omega
        rwa [hdb, Function.update_self] at hd
      · exact absurd hpb (hcell hf p hc)
  · have hne : ∀ d, p = MmHeap.buffer c d → Function.update U b o d = U d := fun d hpd => by
      rw [Function.update_apply, if_neg fun hdb => hpb (by rw [hpd, hdb])]
    rw [if_neg hpb, hv.live]
    refine or_congr ⟨?_, ?_⟩ Iff.rfl
    · rintro ⟨d, hpd, hd, h1, h2, h3⟩
      exact ⟨d, hpd, by rw [hne d hpd, hd], h1, h2, h3⟩
    · rintro ⟨d, hpd, hd, h1, h2, h3⟩
      exact ⟨d, hpd, by rw [← hne d hpd, hd], h1, h2, h3⟩

theorem smallblkAlloc (hf : h.fixedmblk ≠ 0) (ha : h.pool.blkAvail > 0) :
    L h.kMmSmallblkAlloc.2 = none ∧ h.kMmSmallblkAlloc.2 ≠ 0 ∧
      MmWf c lo hi h.kMmSmallblkAlloc.1
        (Function.update L h.kMmSmallblkAlloc.2 (some defFixBlkSize)) ∧
      LiveKeeps L h h.kMmSmallblkAlloc.1 ∧ SameEnds c lo h h.kMmSmallblkAlloc.1 := by
  have hp := hv.poolOk hf
  cases hcells : cells with
  | nil =>
    have := hp.avail
    rw [hcells, List.length_nil] at this
    omega
  | cons x rest =>
    subst hcells
    obtain ⟨hfirst, hrest⟩ := hp.linked
    have hxc := hp.cell x (by simp)
    obtain ⟨hxr, hnd⟩ := List.nodup_cons.1 hp.nodup
    have hget : h.kMmSmallblkAlloc = ({ h with pool := ⟨h.pool.blkAvail - 1, h.mem x⟩ }, x) := by
      unfold MmHeap.kMmSmallblkAlloc
      simp only [hfirst]
    have hxb : ∀ b n, U b = some n → b ≠ h.fixedmblk → x ≠ MmHeap.buffer c b :=
      fun b n hb hbf => hv.not_buffer hf hxc hb hbf
    rw [hget]
    refine ⟨?_, ?_, ⟨U, rest, hv.holds.congr ⟨rfl, rfl, rfl⟩ fun _ _ => rfl, .inr ?_, fun p n => ?_⟩,
      fun _ _ _ _ _ _ => rfl, rfl, rfl, fun _ => rfl⟩
    · rw [Option.eq_none_iff_forall_ne_some]
      rintro n hn
      rcases (hv.live x n).1 hn with ⟨b, hxb', hb, -, -, hbf⟩ | ⟨-, -, hnot, -⟩
      · exact hxb b n hb hbf hxb'
      · simp at hnot
    · obtain ⟨m, -, hlt, -⟩ := hp.within hxc
      omega
    · refine ⟨hp.used, hp.ne_lo, hp.ne_hi, hnd, fun p hpr => hp.cell p (by simp [hpr]), hrest, ?_⟩
      have := hp.avail
      rw [List.length_cons] at this
      simp only
      omega
    · rw [Function.update_apply]
      have hcell : IsCell c { h with pool := ⟨h.pool.blkAvail - 1, h.mem x⟩ } p ↔ IsCell c h p := Iff.rfl
      rw [hcell]
      by_cases hpx : p = x
      · rw [if_pos hpx]
        constructor
        · intro hn
          exact .inr ⟨hf, hpx ▸ hxc, hpx ▸ hxr, by simpa using hn.symm⟩
        · rintro (⟨b, hpb, hb, -, -, hbf⟩ | ⟨-, -, -, rfl⟩)
          · exact absurd (hpx ▸ hpb) (hxb b n hb hbf)
          · rfl
      · rw [if_neg hpx, hv.live]
        simp [hpx]

end MmView

theorem MmWf.alloc (hw : MmWf c lo hi h L) (hn : n ≤ c.maxMmSize) :
    ∃ h' p, h.kMmAlloc c n = some (h', p) ∧ (h' = h ∧ p = 0 ∨
      ∃ k, p ≠ 0 ∧ n ≤ k ∧ L p = none ∧ MmWf c lo hi h' (Function.update L p (some k)) ∧
        LiveKeeps L h h' ∧ SameEnds c lo h h') := by
  obtain ⟨U, cells, hv⟩ := hw
  by_cases h0 : n = 0
  · exact ⟨h, 0, by rw [MmHeap.kMmAlloc, if_pos h0], .inl ⟨rfl, rfl⟩⟩
  by_cases hfix : h.fixedmblk ≠ 0 ∧ n ≤ defFixBlkSize ∧ h.pool.blkAvail > 0
  · obtain ⟨hL, hne, hwf, hkeep, hends⟩ := hv.smallblkAlloc hfix.1 hfix.2.2
    refine ⟨_, _, ?_, .inr ⟨defFixBlkSize, hne, hfix.2.1, hL, hwf, hkeep, hends⟩⟩
    rw [MmHeap.kMmAlloc, if_neg h0, if_pos hfix]
    rw [if_pos hne]
  · obtain ⟨h', p, heq, ⟨rfl, rfl⟩ | ⟨b, k, rfl, hb, hk, hh', hkeep, hpool, -⟩⟩ := hv.holds.tlfAlloc hn
    · exact ⟨_, 0, by rw [MmHeap.kMmAlloc, if_neg h0, if_neg hfix, heq], .inl ⟨rfl, rfl⟩⟩
    · have hused : Function.update U b (some k) b = some k := Function.update_self ..
      have hpos : 0 < b := lt_of_lt_of_le hv.holds.lo_pos (hh'.bounds hused).1
      obtain ⟨n1, hlo⟩ := hv.holds.used_lo
      have hhi := hv.holds.used_hi
      have hbf : b ≠ h.fixedmblk := by
        rcases hv.used_fixed hb with h | h
        · exact h
        · omega
      have hcell : h.fixedmblk ≠ 0 → ∀ p, IsCell c h p → p ≠ MmHeap.buffer c b :=
        fun hf _ hc => hv.not_buffer_new hb hh' hf hc
      have hkeep' : Keeps c (Function.update U b none) h h' := by
        rwa [← hb, Function.update_eq_self]
      have hv' := hv.update hh' hkeep' (fun h => by rw [h, hlo] at hb; cases hb)
        (fun h => by rw [h, hhi] at hb; cases hb) hbf hpool hcell
      have hLb : L (MmHeap.buffer c b) = none := by
        rw [Option.eq_none_iff_forall_ne_some]
        rintro m hm
        rcases (hv.live _ m).1 hm with ⟨d, hbd, hd, -, -, -⟩ | ⟨hf, hc, -, -⟩
        · have hdb : d = b := by
            unfold MmHeap.buffer at hbd
            omega
          rw [hdb, hb] at hd
          cases hd
        · exact hcell hf _ hc rfl
      refine ⟨h', MmHeap.buffer c b, by rw [MmHeap.kMmAlloc, if_neg h0, if_neg hfix, heq],
        .inr ⟨k, ?_, (allocSize_spec hn).2.2.1.trans hk, hLb, ⟨_, _, hv'⟩, hv.liveKeeps hkeep, ?_⟩⟩
      · unfold MmHeap.buffer
        omega
      · have hblo : b ≠ lo := fun h => by rw [h, hlo] at hb; cases hb
        exact hv.sameEnds hh' (Function.update_of_ne hblo.symm ..) (Function.update_of_ne hbf.symm ..)
          hpool.2

theorem MmWf.free (hw : MmWf c lo hi h L) (hp : L p = some n) :
    ∃ h', h.kMmFree c p = some h' ∧ MmWf c lo hi h' (Function.update L p none) ∧
      LiveKeeps (Function.update L p none) h h' ∧ SameEnds c lo h h' := by
  obtain ⟨U, cells, hv⟩ := hw
  have hp0 := hv.pos hp
  rcases (hv.live p n).1 hp with ⟨b, rfl, hb, hlo, hhi, hbf⟩ | ⟨hf, hc, hnot, rfl⟩
  · obtain ⟨h', heq, hh', hkeep, hpool⟩ := hv.holds.tlfFree hb hlo hhi
    refine ⟨h', ?_, ⟨_, _, hv.update hh' hkeep hlo hhi hbf hpool fun hf p hc =>
      hv.not_buffer hf hc hb hbf⟩, hv.liveKeeps_update hkeep hbf, hv.sameEnds hh'
      (Function.update_of_ne hlo.symm ..) (Function.update_of_ne hbf.symm ..) hpool.2⟩
    rw [MmHeap.kMmFree, if_neg hp0, if_neg (hv.not_isFixed hb hbf), heq]
  · have hpool := hv.poolOk hf
    obtain ⟨m, hm, hlt, hle⟩ := hpool.within hc
    have hmem : ∀ t, (h.kMmSmallblkFree p).mem t = if t = p then h.pool.availList else h.mem t :=
      fun t => MmHeap.write_mem
    have hholds : MmHolds c lo hi (h.kMmSmallblkFree p) U := by
      refine hv.holds.congr ⟨rfl, rfl, rfl⟩ fun t ht => ?_
      rw [hmem, if_neg]
      rintro rfl
      unfold MmHeap.buffer defFixBlkSize at *
      exact ht h.fixedmblk m hm (by omega)
    refine ⟨h.kMmSmallblkFree p, ?_, ⟨U, p :: cells, hholds, .inr ?_, ?_⟩, ?_,
      hv.sameEnds hholds rfl rfl rfl⟩
    · rw [MmHeap.kMmFree, if_neg hp0, if_pos (hv.isFixed hf hc)]
    · refine ⟨hpool.used, hpool.ne_lo, hpool.ne_hi, List.nodup_cons.2 ⟨hnot, hpool.nodup⟩, ?_, ?_, ?_⟩
      · intro q hq
        rcases List.mem_cons.1 hq with rfl | hq
        · exact hc
        · exact hpool.cell q hq
      · refine ⟨rfl, ?_⟩
        rw [hmem, if_pos rfl]
        refine hpool.linked.congr fun d hd => ?_
        rw [hmem, if_neg fun (hdp : d = p) => hnot (hdp ▸ hd)]
      · rw [List.length_cons, ← hpool.avail]
        rfl
    · intro q k
      have hcell : IsCell c (h.kMmSmallblkFree p) q ↔ IsCell c h q := Iff.rfl
      rw [Function.update_apply, hcell]
      by_cases hqp : q = p
      · rw [if_pos hqp]
        refine iff_of_false (fun h => nomatch h) ?_
        rintro (⟨b, hqb, hb, -, -, hbf⟩ | ⟨-, -, hno, -⟩)
        · exact hv.not_buffer hf hc hb hbf (hqp ▸ hqb)
        · exact hno (by simp [hqp])
      · rw [if_neg hqp, hv.live]
        simp only [List.mem_cons, hqp, false_or]
        exact Iff.rfl
    · intro q k t hq hqle hqlt
      rw [Function.update_apply] at hq
      split_ifs at hq with hqp
      rw [hmem, if_neg]
      rintro rfl
      have := hv.apart hq hp hqp
      unfold defFixBlkSize at this
      omega

/-! ## Reallocation -/

theorem MmWf.move (hw' : MmWf c lo hi h' (Function.update L q (some k))) (hp : L p = some n)
    (hq : L q = none) (hkeep : LiveKeeps L h h') (hmk : m ≤ k) (hmn : m ≤ n) :
    MmWf c lo hi (h'.memcpy q p m) (Function.update L q (some k)) ∧
      ∃ h'', (h'.memcpy q p m).kMmFree c p = some h'' ∧
        MmWf c lo hi h'' (Function.update (Function.update L p none) q (some k)) ∧
        LiveKeeps (Function.update L p none) h h'' ∧ SameEnds c lo h' h'' ∧
        ∀ i < m, h''.mem (q + i) = h.mem (p + i) := by
  have hpq : p ≠ q := fun h => by rw [h, hq] at hp; cases hp
  have hLq : Function.update L q (some k) q = some k := Function.update_self ..
  have hLp : ∀ r, r ≠ q → Function.update L q (some k) r = L r := fun r hr => Function.update_of_ne hr ..
  obtain ⟨U1, cells1, hv1⟩ := hw'
  have hmem : ∀ t, (h'.memcpy q p m).mem t =
      if q ≤ t ∧ t < q + m then h'.mem (p + (t - q)) else h'.mem t := fun _ => rfl
  have hv2 : MmView c lo hi (h'.memcpy q p m) (Function.update L q (some k)) U1 cells1 := by
    refine hv1.congr ⟨rfl, rfl, rfl, rfl, rfl⟩ fun t ht => ?_
    rw [hmem, if_neg]
    have := ht q k hLq
    omega
  have hw2 : MmWf c lo hi (h'.memcpy q p m) (Function.update L q (some k)) := ⟨U1, cells1, hv2⟩
  obtain ⟨h'', hfree, hw'', hkeep'', hends⟩ := hw2.free ((hLp p hpq).trans hp)
  rw [Function.update_comm hpq.symm] at hw'' hkeep''
  refine ⟨hw2, h'', hfree, hw'', fun r d t hr hle hlt => ?_,
    (hv1.sameEnds hv2.holds rfl rfl rfl).trans hends, fun i hi => ?_⟩
  · rw [Function.update_apply] at hr
    split_ifs at hr with hrp
    have hrq : r ≠ q := fun h => by rw [h, hq] at hr; cases hr
    have hr'' : Function.update (Function.update L p none) q (some k) r = some d := by
      rw [Function.update_of_ne hrq, Function.update_of_ne hrp, hr]
    have hsep := hv1.apart ((hLp r hrq).trans hr) hLq hrq
    rw [hkeep'' r d t hr'' hle hlt, hmem, if_neg (by omega)]
    exact hkeep r d t hr hle hlt
  · have hq'' : Function.update (Function.update L p none) q (some k) q = some k :=
      Function.update_self ..
    rw [hkeep'' q k (q + i) hq'' (by omega) (by omega), hmem, if_pos (by omega), Nat.add_sub_cancel_left]
    exact hkeep p n (p + i) hp (by omega) (by omega)

theorem reallocSize_spec (hn : n ≤ c.maxMmSize) : c.ptrSize ∣ reallocSize c n ∧
    c.minLength ≤ reallocSize c n ∧ n ≤ reallocSize c n ∧ reallocSize c n ≤ c.maxMmSize := by
  obtain ⟨h1, h2⟩ := alignUp_spec hn
  have h128 : 2 ^ 7 ≤ c.maxMmSize := Nat.pow_le_pow_right (by decide) c.le_maxMmBit
  have hW : c.ptrSize ≤ 8 := by rcases c.ptrSize_eq with h | h <;> omega
  have hM : c.minLength = 2 * c.ptrSize := rfl
  have hL : c.listSize = 4 * c.ptrSize := rfl
  unfold reallocSize
  split_ifs with h
  · exact ⟨⟨4, Nat.mul_comm _ _⟩, by omega, by omega, by omega⟩
  · exact ⟨dvd_alignUp c n, by omega, h1, h2⟩

/-- What `k_mm_realloc` of the live pointer `p` with `n` bytes may do for `m` bytes:
    it frees it, fails, or gives `q`. -/
def Realloced (c : MmConfig) (lo hi : ℕ) (L : ℕ → Option ℕ) (h : MmHeap) (p n m : ℕ) (h' : MmHeap)
    (q : ℕ) : Prop :=
  m = 0 ∧ q = 0 ∧ MmWf c lo hi h' (Function.update L p none) ∧
      LiveKeeps (Function.update L p none) h h' ∨
    m ≠ 0 ∧ q = 0 ∧ h' = h ∨
    m ≠ 0 ∧ q ≠ 0 ∧ ∃ k, m ≤ k ∧ (q = p ∨ L q = none) ∧
      MmWf c lo hi h' (Function.update (Function.update L p none) q (some k)) ∧
      LiveKeeps (Function.update L p none) h h' ∧
      ∀ i, i < n → i < m → h'.mem (q + i) = h.mem (p + i)

theorem MmView.fixedRealloc (hv : MmView c lo hi h L U cells) (hf : h.fixedmblk ≠ 0)
    (hc : IsCell c h p) (hp : L p = some defFixBlkSize) (hm : m ≤ c.maxMmSize) (hm0 : m ≠ 0) :
    ∃ h' q, h.fixedRealloc c p m = some (h', q) ∧
      Realloced c lo hi L h p defFixBlkSize m h' q ∧ SameEnds c lo h h' := by
  unfold MmHeap.fixedRealloc
  by_cases hle : m ≤ defFixBlkSize
  · refine ⟨h, p, if_pos hle, .inr (.inr ⟨hm0, hv.pos hp, defFixBlkSize, hle, .inl rfl, ?_,
      fun _ _ _ _ _ _ => rfl, fun _ _ _ => rfl⟩), SameEnds.refl c lo h⟩
    rw [Function.update_idem, ← hp, Function.update_eq_self]
    exact ⟨U, cells, hv⟩
  · have hw : MmWf c lo hi h L := ⟨U, cells, hv⟩
    rw [if_neg hle]
    obtain ⟨h', q, heq, ⟨rfl, rfl⟩ | ⟨k, hq0, hk, hLq, hw', hkeep, hends⟩⟩ := hw.alloc hm
    · exact ⟨_, 0, by rw [heq]; rfl, .inr (.inl ⟨hm0, rfl, rfl⟩), SameEnds.refl c lo _⟩
    · obtain ⟨hw2, h'', hfree, hw'', hkeep'', hends', hsame⟩ :=
        hw'.move hp hLq hkeep (m := defFixBlkSize) (by omega) le_rfl
      obtain ⟨U2, cells2, hv2⟩ := hw2
      have hfixed : (h'.memcpy q p defFixBlkSize).IsFixedBlk c p := by
        refine hv2.isFixed (fun h0 => hf (hends.fixed ▸ h0)) ?_
        unfold IsCell cellStart at hc ⊢
        rwa [show (h'.memcpy q p defFixBlkSize).fixedmblk = h.fixedmblk from hends.fixed]
      rw [MmHeap.kMmFree, if_neg (hv.pos hp), if_pos hfixed, Option.some.injEq] at hfree
      refine ⟨h'', q, ?_, .inr (.inr ⟨hm0, hq0, k, hk, .inr hLq, hw'', hkeep'', fun i hi _ => hsame i hi⟩),
        hends.trans hends'⟩
      rw [heq, Option.map_some]
      simp only [if_neg hq0, hfree]

theorem MmView.tlfRealloc (hv : MmView c lo hi h L U cells) (hb : U b = some n) (hlo : b ≠ lo)
    (hhi : b ≠ hi) (hbf : b ≠ h.fixedmblk) (hm : m ≤ c.maxMmSize) (hm0 : m ≠ 0) :
    ∃ h' q, h.tlfRealloc c (MmHeap.buffer c b) m = some (h', q) ∧
      Realloced c lo hi L h (MmHeap.buffer c b) n m h' q ∧ SameEnds c lo h h' := by
  have hp : L (MmHeap.buffer c b) = some n := (hv.live _ n).2 (.inl ⟨b, rfl, hb, hlo, hhi, hbf⟩)
  have hw : MmWf c lo hi h L := ⟨U, cells, hv⟩
  obtain ⟨hd, hmin, hms, hsmax⟩ := reallocSize_spec hm
  have hsub : c.sub (MmHeap.buffer c b) c.headSize = b := by
    have h1 := (hv.holds.bounds hb).2
    have h2 := hv.holds.span_lt.2
    rw [MmHeap.buffer, sub_eq (by omega) (by omega), Nat.add_sub_cancel]
  have hsize := (hv.holds.size hb).1
  have hnext : h.nextMmBlk c b = b + c.headSize + n := by rw [MmHeap.nextMmBlk, hsize]
  obtain ⟨B, lists, hI, rfl⟩ := id hv.holds
  obtain ⟨f, hx⟩ := usedBlk_eq_some.1 hb
  -- in place
  have hplace : ∀ {s k h'}, m ≤ k → (s = n ∨ m ≤ s) → Resized c lo hi (usedBlk B) b s k h h' →
      Realloced c lo hi L h (MmHeap.buffer c b) n m h' (MmHeap.buffer c b) ∧ SameEnds c lo h h' := by
    intro s k h' hmk hs hr
    refine ⟨.inr (.inr ⟨hm0, hv.pos hp, k, hmk, .inl rfl, ?_, hv.liveKeeps_update hr.keeps hbf,
      fun i hin him => hr.same _ (by unfold MmHeap.buffer; omega) (by unfold MmHeap.buffer; omega)⟩),
      hv.sameEnds hr.holds (Function.update_of_ne hlo.symm ..) (Function.update_of_ne hbf.symm ..) hr.pool.2⟩
    rw [Function.update_idem]
    exact ⟨_, _, hv.update hr.holds hr.keeps hlo hhi hbf hr.pool fun hf p hc =>
      hv.not_buffer hf hc hb hbf⟩
  unfold MmHeap.tlfRealloc
  simp only [hsub, hsize, hnext]
  by_cases hle : reallocSize c m ≤ n
  · obtain ⟨h', k, heq, hk, hr⟩ := hI.shrink hx rfl hhi hd hmin hle
    rw [if_pos hle]
    exact ⟨h', MmHeap.buffer c b, by rw [heq]; rfl, hplace (hms.trans hk) (.inr hms) hr⟩
  rw [if_neg hle]
  obtain ⟨z, hz, -, -⟩ := hI.tiled.next hx hhi
  have hzd := (hI.tiled.dvd hz).2
  have hzlt := hI.tiled.size_lt hz
  have hmax := maxMmSize_le c
  have hwords := words_ge c
  have hzw := (hI.header hz).size
  have hzfree : isFree (h.size c (b + c.headSize + n)) ↔ z.free = true := by
    rw [hzw]
    exact isFree_word (four_dvd hzd)
  have hadd : c.add n (c.blkSize (h.size c (b + c.headSize + n))) = n + z.size := by
    rw [hzw, show z.word = MmBlk.word ⟨z.size, z.free, z.prevFree⟩ from rfl, blkSize_word hzd hzlt,
      MmConfig.add, Nat.mod_eq_of_lt (by omega)]
  by_cases hgrow : isFree (h.size c (b + c.headSize + n)) ∧
      reallocSize c m ≤ c.add n (c.blkSize (h.size c (b + c.headSize + n)))
  · obtain ⟨h', k, heq, hk, hr⟩ := hI.grow hx rfl hhi hz (hzfree.1 hgrow.1) hd hmin (not_le.1 hle)
      (hadd ▸ hgrow.2)
    rw [if_pos hgrow]
    exact ⟨h', MmHeap.buffer c b, by rw [heq]; rfl, hplace (hms.trans hk) (.inl rfl) hr⟩
  -- a new block
  rw [if_neg hgrow]
  obtain ⟨h', q, heq, ⟨rfl, rfl⟩ | ⟨k, hq0, hk, hLq, hw', hkeep, hends⟩⟩ := hw.alloc hsmax
  · refine ⟨_, 0, ?_, .inr (.inl ⟨hm0, rfl, rfl⟩), SameEnds.refl c lo _⟩
    rw [heq, Option.bind_some]
    exact if_pos rfl
  · obtain ⟨-, h'', hfree, hw'', hkeep'', hends', hsame⟩ := hw'.move hp hLq hkeep (m := n) (by omega) le_rfl
    have hn' : c.blkSize (h'.size c b) = n := by
      obtain ⟨U1, cells1, hv1⟩ := hw'
      have hpq : MmHeap.buffer c b ≠ q := fun h => by rw [h, hLq] at hp; cases hp
      have hp1 : Function.update L q (some k) (MmHeap.buffer c b) = some n := by
        rw [Function.update_of_ne hpq, hp]
      rcases (hv1.live _ n).1 hp1 with ⟨d, hbd, hd, -, -, -⟩ | ⟨hf, hc, -, -⟩
      · have hdb : d = b := by
          unfold MmHeap.buffer at hbd
          omega
        exact (hv1.holds.size (hdb ▸ hd)).1
      · unfold IsCell cellStart at hc
        rw [hends.fixed] at hf hc
        exact absurd rfl (hv.not_buffer hf hc hb hbf)
    refine ⟨h'', q, ?_, .inr (.inr ⟨hm0, hq0, k, hms.trans hk, .inr hLq, hw'', hkeep'',
      fun i hi _ => hsame i hi⟩), hends.trans hends'⟩
    rw [heq, Option.bind_some]
    simp only [if_neg hq0, hn', if_neg (show ¬ n > reallocSize c m by omega), hfree]
    rfl

theorem MmWf.realloc (hw : MmWf c lo hi h L) (hp : L p = some n) (hm : m ≤ c.maxMmSize) :
    ∃ h' q, h.kMmRealloc c p m = some (h', q) ∧ Realloced c lo hi L h p n m h' q ∧
      SameEnds c lo h h' := by
  obtain ⟨U, cells, hv⟩ := id hw
  have hp0 := hv.pos hp
  unfold MmHeap.kMmRealloc
  rw [if_neg hp0]
  by_cases hm0 : m = 0
  · obtain ⟨h', heq, hw', hkeep, hends⟩ := hw.free hp
    exact ⟨h', 0, by rw [if_pos hm0, heq]; rfl, .inl ⟨hm0, rfl, hw', hkeep⟩, hends⟩
  · rw [if_neg hm0]
    rcases (hv.live p n).1 hp with ⟨b, rfl, hb, hlo, hhi, hbf⟩ | ⟨hf, hc, -, rfl⟩
    · rw [if_neg (hv.not_isFixed hb hbf)]
      exact hv.tlfRealloc hb hlo hhi hbf hm hm0
    · rw [if_pos (hv.isFixed hf hc)]
      exact hv.fixedRealloc hf hc hp hm hm0

end Rhino
