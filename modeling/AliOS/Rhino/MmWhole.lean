/-
  Rhino kernel: what the heap is at every moment of a run, by its blocks.

  `HeapOk` says it in full.  A free block is between used ones, so the used blocks
  tell the others (`Tiled.eq_of_used`): where nothing is live the blocks are those
  that `krhino_init_mm_head` made.
-/
import AliOS.Rhino.MmRun

namespace Rhino

open MmHeap Lib

variable {c : MmConfig} {lo hi : ℕ} {h h' h₀ : MmHeap} {live live' : ℕ → Prop} {B B' : ℕ → Option MmBlk}
  {L U U' : ℕ → Option ℕ} {cells : List ℕ} {x y z : MmBlk} {mem : ℕ → ℕ} {a b m n p q t addr len : ℕ}

/-! ## The used blocks tell the others -/

theorem usedBlk_free (hb : B b = some x) (hx : x.free = true) : usedBlk B b = none := by
  rw [usedBlk, hb, Option.bind_some, if_pos hx]

theorem usedBlk_used (hb : B b = some x) (hx : x.free = false) : usedBlk B b = some x.size := by
  obtain ⟨n, f, g⟩ := x
  cases hx
  exact usedBlk_eq_some.2 ⟨g, hb⟩

theorem Tiled.used_behind (hB : Tiled c lo hi B) (hb : B b = some x) (hx : x.free = true) :
    ∃ n, usedBlk B (b + c.headSize + x.size) = some n := by
  obtain ⟨y, hy, -, hno⟩ := hB.next hb (hB.free_ne_hi hb hx)
  exact ⟨y.size, usedBlk_used hy (hno hx)⟩

theorem Tiled.free_size_le (hB : Tiled c lo hi B) (hB' : Tiled c lo hi B') (hU : usedBlk B = usedBlk B')
    (hb : B b = some x) (hb' : B' b = some y) (hy : y.free = true) : x.size ≤ y.size := by
  obtain ⟨n, hn⟩ := hB'.used_behind hb' hy
  rw [← hU] at hn
  obtain ⟨f, hz⟩ := usedBlk_eq_some.1 hn
  have hmin := minLength_pos c
  have hle := hB'.least hb' (hB'.free_ne_hi hb' hy)
  have := hB.apart hb hz (by omega)
  omega

theorem Tiled.eq_of_used (hB : Tiled c lo hi B) (hB' : Tiled c lo hi B') (hU : usedBlk B = usedBlk B')
    (hb : B b = some x) : B' b = some x := by
  induction b using Nat.strong_induction_on generalizing x with
  | _ b ih =>
    have hused : ∀ {y}, B' b = some y → y.prevFree = x.prevFree → B' b = some x := by
      intro y hy hprev
      obtain ⟨n, f, g⟩ := x
      obtain ⟨n', f', g'⟩ := y
      cases hprev
      cases f with
      | false =>
        have hn := usedBlk_used hb rfl
        rw [hU] at hn
        obtain ⟨f1, hn⟩ := usedBlk_eq_some.1 hn
        rw [hy] at hn ⊢
        cases hn
        rfl
      | true =>
        have hn := usedBlk_free hb rfl
        rw [hU] at hn
        cases f' with
        | false =>
          rw [usedBlk_used hy rfl] at hn
          cases hn
        | true =>
          have h1 := hB.free_size_le hB' hU hb hy rfl
          have h2 := hB'.free_size_le hB hU.symm hy hb rfl
          rw [hy]
          simp only at h1 h2
          rw [le_antisymm h1 h2]
    by_cases hlo : b = lo
    · subst hlo
      obtain ⟨n, hn⟩ := hB.first
      obtain ⟨n', hn'⟩ := hB'.first
      rw [hn] at hb
      cases hb
      exact hused hn' rfl
    · obtain ⟨a, y, hy, hab⟩ := hB.before hb hlo
      have hlt : a < b := by
        have hW := ptrSize_pos c
        unfold MmConfig.headSize at hab
        omega
      obtain ⟨w, hw, hwp, -⟩ := hB.next hy (hB.ne_hi hb hlt)
      obtain ⟨w', hw', hwp', -⟩ := hB'.next (ih a hlt hy) (hB.ne_hi hb hlt)
      rw [hab] at hw hw'
      rw [hb] at hw
      cases hw
      exact hused hw' (hwp'.trans hwp.symm)

/-! ## The used blocks where nothing is live -/

theorem MmView.used_ends (hv : MmView c lo hi h (fun _ => none) U cells) (hb : U b = some n) :
    b = lo ∨ b = hi ∨ h.fixedmblk ≠ 0 ∧ b = h.fixedmblk := by
  by_contra hno
  rw [not_or, not_or, not_and] at hno
  have hpos : 0 < b := lt_of_lt_of_le hv.holds.lo_pos (hv.holds.bounds hb).1
  have hbf : b ≠ h.fixedmblk := fun heq => hno.2.2 (by omega) heq
  have := (hv.live (buffer c b) n).2 (.inl ⟨b, rfl, hb, hno.1, hno.2.1, hbf⟩)
  cases this

theorem MmView.used_eq (hv : MmView c lo hi h (fun _ => none) U cells) {cells' : List ℕ}
    (hv' : MmView c lo hi h' (fun _ => none) U' cells') (hends : SameEnds c lo h h')
    (hb : U b = some n) : U' b = some n := by
  have hsame : ∀ {m}, U' b = some m → c.blkSize (h'.size c b) = c.blkSize (h.size c b) →
      U' b = some n := by
    intro m hm heq
    rw [(hv.holds.size hb).1, (hv'.holds.size hm).1] at heq
    rw [hm, heq]
  rcases hv.used_ends hb with rfl | rfl | ⟨hf, rfl⟩
  · obtain ⟨m, hm⟩ := hv'.holds.used_lo
    exact hsame hm hends.first
  · rw [hv.holds.used_hi] at hb
    rw [hv'.holds.used_hi, ← hb]
  · have hf' : h'.fixedmblk ≠ 0 := by rwa [hends.fixed]
    obtain ⟨m, hm, -⟩ := (hv'.poolOk hf').used
    rw [hends.fixed] at hm
    exact hsame hm (hends.pool hf)

/-! ## Where a pointer comes from -/

/-- A block of the fixed pool is at `p`. -/
def PoolBlk (c : MmConfig) (h : MmHeap) (p : ℕ) : Prop := h.fixedmblk ≠ 0 ∧ IsCell c h p

theorem SameEnds.poolBlk (hends : SameEnds c lo h h') : PoolBlk c h' p ↔ PoolBlk c h p := by
  unfold PoolBlk IsCell cellStart
  rw [hends.fixed]

theorem MmView.isFixed_iff (hv : MmView c lo hi h L U cells) (hp : L p = some n) :
    h.IsFixedBlk c p ↔ PoolBlk c h p := by
  rcases (hv.live p n).1 hp with ⟨b, rfl, hb, -, -, hbf⟩ | ⟨hf, hc, -, -⟩
  · refine iff_of_false (hv.not_isFixed hb hbf) ?_
    rintro ⟨hf, hc⟩
    exact hv.not_buffer hf hc hb hbf rfl
  · exact iff_of_true (hv.isFixed hf hc) ⟨hf, hc⟩

theorem MmView.alloc_poolBlk (hv : MmView c lo hi h L U cells) (hn : n ≤ c.maxMmSize)
    (heq : h.kMmAlloc c n = some (h', p)) (hp : p ≠ 0) :
    PoolBlk c h p ↔ h.fixedmblk ≠ 0 ∧ n ≤ defFixBlkSize ∧ h.pool.blkAvail > 0 := by
  have hn0 : n ≠ 0 := by
    rintro rfl
    rw [kMmAlloc, if_pos rfl] at heq
    cases heq
    exact hp rfl
  rw [kMmAlloc, if_neg hn0] at heq
  by_cases hfix : h.fixedmblk ≠ 0 ∧ n ≤ defFixBlkSize ∧ h.pool.blkAvail > 0
  · have hpool := hv.poolOk hfix.1
    obtain ⟨-, hne, -⟩ := hv.smallblkAlloc hfix.1 hfix.2.2
    rw [if_pos hfix] at heq
    rw [if_pos hne] at heq
    refine iff_of_true ⟨hfix.1, ?_⟩ hfix
    have hpeq : p = h.pool.availList := (congrArg Prod.snd (Option.some.inj heq)).symm
    have havail := hpool.avail
    have hlinked := hpool.linked
    cases hcells : cells with
    | nil =>
      rw [hcells, List.length_nil] at havail
      omega
    | cons q rest =>
      rw [hcells] at hlinked
      rw [hpeq, hlinked.1]
      exact hpool.cell q (by rw [hcells]; exact List.mem_cons_self)
  · rw [if_neg hfix] at heq
    refine iff_of_false ?_ hfix
    rintro ⟨hf, hc⟩
    obtain ⟨h1, q, heq', ⟨-, rfl⟩ | ⟨b, k, rfl, hb, -, hh', -, -, -⟩⟩ := hv.holds.tlfAlloc hn
    · rw [heq'] at heq
      cases heq
      exact hp rfl
    · rw [heq'] at heq
      cases heq
      exact hv.not_buffer_new hb hh' hf hc rfl

/-! ## Runs from a heap -/

/-- The runs from the heap `h₀`, which has no live pointers. -/
inductive MmRun (c : MmConfig) (h₀ : MmHeap) : MmHeap → (ℕ → Prop) → Prop where
  | start : MmRun c h₀ h₀ fun _ => False
  | alloc {h : MmHeap} {live : ℕ → Prop} {size : ℕ} {h' : MmHeap} {p : ℕ} :
      MmRun c h₀ h live → size ≤ c.maxMmSize → h.kMmAlloc c size = some (h', p) →
      MmRun c h₀ h' fun q => p ≠ 0 ∧ q = p ∨ live q
  | free {h : MmHeap} {live : ℕ → Prop} {p : ℕ} {h' : MmHeap} :
      MmRun c h₀ h live → live p → h.kMmFree c p = some h' → MmRun c h₀ h' fun q => live q ∧ q ≠ p
  | realloc {h : MmHeap} {live : ℕ → Prop} {p size : ℕ} {h' : MmHeap} {q : ℕ} :
      MmRun c h₀ h live → live p → size ≤ c.maxMmSize → h.kMmRealloc c p size = some (h', q) →
      MmRun c h₀ h' fun r => q ≠ 0 ∧ r = q ∨ live r ∧ (r ≠ p ∨ q = 0 ∧ size ≠ 0)
  | write {h : MmHeap} {live : ℕ → Prop} {p t x : ℕ} :
      MmRun c h₀ h live → live p → p ≤ t → t < p + payload c h p → MmRun c h₀ (h.write t x) live

theorem MmRun.reach (hmem : addr + len < c.words)
    (hinit : krhinoInitMmHead c mem addr len = some (.success, some h₀)) (hr : MmRun c h₀ h live) :
    MmReach c (regionAddr c addr) (regionAddr c addr + (regionLen c addr len - 2 * c.ptrSize)) h live := by
  induction hr with
  | start => exact .init hmem hinit
  | alloc _ hsize heq ih => exact ih.alloc (.inl hsize) heq
  | free _ hp heq ih => exact ih.free hp heq
  | realloc _ hp hsize heq ih => exact ih.realloc hp hsize heq
  | write _ hp hle hlt ih => exact ih.write hp hle hlt

theorem MmRun.sameEnds (hmem : addr + len < c.words)
    (hinit : krhinoInitMmHead c mem addr len = some (.success, some h₀)) (hr : MmRun c h₀ h live) :
    SameEnds c (regionAddr c addr) h₀ h := by
  induction hr with
  | start => exact SameEnds.refl c _ h₀
  | alloc hrun hsize heq ih =>
    obtain ⟨L, hw, -⟩ := (hrun.reach hmem hinit).wf
    obtain ⟨h1, q, heq', ⟨rfl, rfl⟩ | ⟨k, -, -, -, -, -, hends⟩⟩ := hw.alloc hsize
    · rw [heq'] at heq
      cases heq
      exact ih
    · rw [heq'] at heq
      cases heq
      exact ih.trans hends
  | free hrun hp heq ih =>
    obtain ⟨L, hw, hlive⟩ := (hrun.reach hmem hinit).wf
    obtain ⟨n, hn⟩ := (hlive _).1 hp
    obtain ⟨h1, heq', -, -, hends⟩ := hw.free hn
    rw [heq'] at heq
    cases heq
    exact ih.trans hends
  | realloc hrun hp hsize heq ih =>
    obtain ⟨L, hw, hlive⟩ := (hrun.reach hmem hinit).wf
    obtain ⟨n, hn⟩ := (hlive _).1 hp
    obtain ⟨h1, q, heq', -, hends⟩ := hw.realloc hn hsize
    rw [heq'] at heq
    cases heq
    exact ih.trans hends
  | @write h live p t x hrun hp hle hlt ih =>
    obtain ⟨L, ⟨U, cells, hv⟩, hlive⟩ := (hrun.reach hmem hinit).wf
    obtain ⟨n, hn⟩ := (hlive p).1 hp
    rw [hv.payload_eq hn] at hlt
    exact ih.trans (hv.sameEnds (hv.write hn hle hlt).holds rfl rfl rfl)

/-! ## The heap -/

/-- What the heap `h` is, by its blocks `B` and its lists; `h₀` is the heap that was built. -/
structure HeapOk (c : MmConfig) (lo hi : ℕ) (h₀ h : MmHeap) (live : ℕ → Prop) (B : ℕ → Option MmBlk)
    (lists : ℕ × ℕ → List ℕ) : Prop where
  -- the blocks tile the region
  first : ∃ n, B lo = some ⟨n, false, false⟩
  last : ∃ f, B hi = some ⟨0, false, f⟩
  bounds : ∀ a x, B a = some x → lo ≤ a ∧ a ≤ hi
  apart : ∀ a b x y, B a = some x → B b = some y → a < b → a + c.headSize + x.size ≤ b
  cover : ∀ m, lo ≤ m → m < hi → ∃ a x, B a = some x ∧ a ≤ m ∧ m < a + c.headSize + x.size
  -- their tags
  size : ∀ a x, B a = some x → h.size c a = x.word
  next : ∀ a x, B a = some x → a ≠ hi → ∃ y, B (a + c.headSize + x.size) = some y ∧
    y.prevFree = x.free ∧ (x.free = true → y.free = false)
  prev : ∀ a x, B a = some x → x.prevFree = true → ∃ y, B (h.prev a) = some y ∧ y.free = true ∧
    h.prev a + c.headSize + y.size = a
  -- the free ones are on the lists
  least : ∀ a x, B a = some x → x.free = true → 2 * c.ptrSize ≤ x.size
  filed : ∀ a r, a ∈ lists r ↔ ∃ x, B a = some x ∧ x.free = true ∧
    bitmapSearch c x.size .insert = some (.success, r)
  nodup : ∀ r, (lists r).Nodup
  head : ∀ r, h.mmTbl r.1 r.2 = (lists r).headD 0
  linked : ∀ r, Linked (h.freeNext c) (h.freePrev c) 0 (lists r) 0
  sl : ∀ i j, j < 32 → ((h.slBitmap i).getLsbD j = true ↔ lists (i, j) ≠ [])
  fl : ∀ i < 32, h.flBitmap.getLsbD i = true ↔ ∃ j, lists (i, j) ≠ []
  -- the live pointers
  within : ∀ p, live p → lo ≤ p ∧ p + payload c h p ≤ hi
  disjoint : ∀ p q, live p → live q → p ≠ q → p + payload c h p ≤ q ∨ q + payload c h q ≤ p
  served : ∀ n h' p, n ≤ c.maxMmSize → h.kMmAlloc c n = some (h', p) → p ≠ 0 →
    (PoolBlk c h₀ p ↔ h.fixedmblk ≠ 0 ∧ n ≤ defFixBlkSize ∧ h.pool.blkAvail > 0)
  freed : ∀ p, live p → (h.IsFixedBlk c p ↔ PoolBlk c h₀ p)

theorem bitmapSearch_insert_iff {r : ℕ × ℕ} (hn : n < c.maxMmSize) :
    bitmapSearch c n .insert = some (.success, r) ↔ mmClass n = r := by
  obtain ⟨heq, -, -⟩ := insertIdx_eq hn
  unfold insertIdx at heq
  cases hs : bitmapSearch c n .insert with
  | none =>
    rw [hs] at heq
    cases heq
  | some s =>
    obtain ⟨stat, r'⟩ := s
    rw [hs, Option.bind_some] at heq
    split_ifs at heq with hstat
    simp only [Option.some.injEq] at heq
    simp only at hstat
    rw [hstat, Option.some.injEq, Prod.mk.injEq, eq_self, true_and, heq]

theorem MmView.heapOk (hv : MmView c lo hi h L U cells) (hlive : ∀ p, live p ↔ ∃ n, L p = some n)
    (hends : SameEnds c lo h₀ h) :
    ∃ B lists, MmInv c lo hi h B lists ∧ usedBlk B = U ∧ HeapOk c lo hi h₀ h live B lists := by
  obtain ⟨B, lists, hI, hU⟩ := id hv.holds
  have hB := hI.tiled
  refine ⟨B, lists, hI, hU, hB.first, hB.last, fun _ _ => hB.bounds, fun _ _ _ _ => hB.apart,
    fun _ => hB.cover, fun _ _ ha => (hI.header ha).size, fun _ _ => hB.next,
    fun _ _ ha => (hI.header ha).prev, fun a x ha hx => hB.least ha (hB.free_ne_hi ha hx),
    fun a r => ?_, hI.idx.nodup, hI.idx.head, hI.idx.linked, fun i j => hI.idx.bits.sl (i, j),
    fun i hi => ?_, fun p hp => ?_, fun p q hp hq hpq => ?_, fun n h' p hn heq hp => ?_, fun p hp => ?_⟩
  · rw [hI.filed]
    refine exists_congr fun x => and_congr_right fun hx => and_congr_right fun _ => ?_
    rw [bitmapSearch_insert_iff (hB.size_lt hx)]
  · rw [hI.idx.bits.fl i hi]
    constructor
    · intro hne
      by_contra hno
      refine hne (BitVec.eq_of_getLsbD_eq fun j hj => ?_)
      rw [show (0 : BitVec 32).getLsbD j = false by simp, Bool.eq_false_iff]
      exact fun hbit => hno ⟨j, (hI.idx.bits.sl (i, j) hj).1 hbit⟩
    · rintro ⟨j, hj⟩ h0
      have hbit := (hI.idx.bits.sl (i, j) (hI.idx.range hj).2).2 hj
      simp [h0] at hbit
  · obtain ⟨n, hn⟩ := (hlive p).1 hp
    rw [hv.payload_eq hn]
    exact ⟨(MmWf.within ⟨U, cells, hv⟩ hn).1, (MmWf.within ⟨U, cells, hv⟩ hn).2.1⟩
  · obtain ⟨n, hn⟩ := (hlive p).1 hp
    obtain ⟨m, hm⟩ := (hlive q).1 hq
    rw [hv.payload_eq hn, hv.payload_eq hm]
    exact hv.apart hn hm hpq
  · rw [← hends.poolBlk]
    exact hv.alloc_poolBlk hn heq hp
  · obtain ⟨n, hn⟩ := (hlive p).1 hp
    rw [← hends.poolBlk]
    exact hv.isFixed_iff hn

/-- Where nothing is live and the block of the fixed blocks is behind the first, at most one block is
    free. -/
theorem MmView.free_unique (hv : MmView c lo hi h (fun _ => none) (usedBlk B) cells) (hB : Tiled c lo hi B)
    (hpos : h.fixedmblk = 0 ∨ h.fixedmblk = lo + c.headSize + c.blkSize (h.size c lo))
    (ha : B a = some x) (hx : x.free = true) (hb : B b = some y) (hy : y.free = true) : a = b := by
  obtain ⟨n, hfirst⟩ := hB.first
  have hsize := (hv.holds.size (usedBlk_used hfirst rfl)).1
  have hW := ptrSize_pos c
  have hH : c.headSize = 2 * c.ptrSize := rfl
  -- a free block ends at the last
  have hend : ∀ {a x}, B a = some x → x.free = true → a + c.headSize + x.size = hi := by
    intro a x ha hx
    have hlt : lo < a := lt_of_le_of_ne (hB.bounds ha).1 (hB.free_ne_lo ha hx).symm
    have hle := hB.apart hfirst ha hlt
    obtain ⟨m, hm⟩ := hB.used_behind ha hx
    rcases hv.used_ends hm with h | h | ⟨h0, h⟩
    · omega
    · exact h
    · have := hpos.resolve_left h0
      omega
  by_contra hne
  have h1 := hend ha hx
  have h2 := hend hb hy
  rcases lt_or_gt_of_ne hne with h | h
  · have := hB.apart ha hb h
    omega
  · have := hB.apart hb ha h
    omega

/-- **The heap through its runs**: every heap of a run is what `HeapOk` says, and where nothing is live it
    has the blocks it began with, of which at most one is free. -/
theorem mmRun_heapOk (hmem : addr + len < c.words)
    (hinit : krhinoInitMmHead c mem addr len = some (.success, some h₀)) :
    ∃ B₀ : ℕ → Option MmBlk,
      (∀ a b x y, B₀ a = some x → x.free = true → B₀ b = some y → y.free = true → a = b) ∧
      ∀ h live, MmRun c h₀ h live → ∃ B lists,
        HeapOk c (regionAddr c addr) (regionAddr c addr + (regionLen c addr len - 2 * c.ptrSize)) h₀ h live
          B lists ∧ ((∀ p, ¬ live p) → B = B₀) := by
  obtain ⟨⟨U₀, cells₀, hv0⟩, hpos⟩ := krhinoInitMmHead_wf hmem hinit
  obtain ⟨B₀, lists₀, hI0, hU0⟩ := id hv0.holds
  refine ⟨B₀, fun a b x y ha hx hb hy =>
    (hU0.symm ▸ hv0).free_unique hI0.tiled hpos ha hx hb hy, fun h live hr => ?_⟩
  obtain ⟨L, ⟨U, cells, hv⟩, hlive⟩ := (hr.reach hmem hinit).wf
  have hends := hr.sameEnds hmem hinit
  obtain ⟨B, lists, hI, hU, hok⟩ := hv.heapOk hlive hends
  refine ⟨B, lists, hok, fun hnone => ?_⟩
  have hL : L = fun _ => none := by
    funext p
    rw [Option.eq_none_iff_forall_ne_some]
    exact fun n hn => hnone p ((hlive p).2 ⟨n, hn⟩)
  subst hL
  have hUU : U₀ = U := by
    funext b
    refine Option.ext fun n => ⟨hv0.used_eq hv hends, hv.used_eq hv0 hends.symm⟩
  have hused : usedBlk B₀ = usedBlk B := by rw [hU0, hU, hUU]
  funext a
  refine Option.ext fun x => ⟨hI.tiled.eq_of_used hI0.tiled hused.symm, hI0.tiled.eq_of_used hI.tiled hused⟩

theorem mmRun_heapOk_init : ∃ h, krhinoInitMmHead mmConfig32 (fun _ => 0) 4096 65536 = some (.success, some h) ∧
    ∃ B lists, HeapOk mmConfig32 5956 69624 h h (fun _ => False) B lists := by
  obtain ⟨h, heq, -⟩ := mmConfig32_init
  obtain ⟨B₀, -, hok⟩ := mmRun_heapOk (c := mmConfig32) (by decide) heq
  obtain ⟨B, lists, hok, -⟩ := hok h _ .start
  exact ⟨h, heq, B, lists, hok⟩

/-- The block behind the first, which is used, has no `prev`. -/
theorem prev_unset : ∃ h, krhinoInitMmHead mmConfig32 (fun _ => 0) 4096 65536 = some (.success, some h) ∧
    MmRun mmConfig32 h h (fun _ => False) ∧ h.nextMmBlk mmConfig32 5956 = 5972 ∧ h.prev 5972 = 0 ∧
    ¬ isPrevFree (h.size mmConfig32 5972) := by
  obtain ⟨h, heq, -⟩ := mmConfig32_init
  have hrun : ((krhinoInitMmHead mmConfig32 (fun _ => 0) 4096 65536).bind (·.2)).map (fun h =>
      (h.nextMmBlk mmConfig32 5956, h.prev 5972, decide (isPrevFree (h.size mmConfig32 5972)))) =
      some (5972, 0, false) := by decide +kernel
  rw [heq] at hrun
  simp only [Option.bind_some, Option.map_some, Option.some.injEq, Prod.mk.injEq, decide_eq_false_iff_not] at hrun
  exact ⟨h, heq, .start, hrun⟩

end Rhino
