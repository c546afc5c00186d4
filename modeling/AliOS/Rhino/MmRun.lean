/-
  Rhino kernel: runs of the heap.

  A run begins with `krhino_init_mm_head`; its users take, free and resize live
  pointers and store into what is behind them.  A request is one that the heap
  serves or refuses: `AllocFits` says when.
-/
import AliOS.Rhino.MmInit

namespace Rhino

open MmHeap

variable {c : MmConfig} {lo hi : ℕ} {h h' : MmHeap} {live : ℕ → Prop} {L U : ℕ → Option ℕ}
  {cells : List ℕ} {b m n p q t size : ℕ}

section

variable (c) (lo hi) (h)

/-- The bytes behind a pointer. -/
def payload (p : ℕ) : ℕ :=
  if h.IsFixedBlk c p then defFixBlkSize else c.blkSize (h.size c (c.sub p c.headSize))

/-- `k_mm_alloc` refuses, and leaves the heap as it is, or gives bytes of the region,
    as many as are wanted. -/
def AllocServes (size : ℕ) : Prop :=
  ∃ h' p, h.kMmAlloc c size = some (h', p) ∧ (p = 0 ∧ h' = h ∨
    p ≠ 0 ∧ size ≤ payload c h' p ∧ lo ≤ p ∧ p + payload c h' p ≤ hi)

/-- No more than `MAX_MM_SIZE` bytes are wanted, or `bitmap_search` gives a class
    outside of `mm_tbl`, or one with no blocks at or above it. -/
def AllocFits (size : ℕ) : Prop :=
  size ≤ c.maxMmSize ∨ ∃ s, bitmapSearch c (allocSize c size) .get = some s ∧
    (s.1 = .success → ∀ p, ClassLe s.2 p → p.1 < c.fltSize → p.2 < sltSize → h.mmTbl p.1 p.2 = 0)

end

/-- The runs of a heap, with its live pointers. -/
inductive MmReach (c : MmConfig) : ℕ → ℕ → MmHeap → (ℕ → Prop) → Prop where
  | init {mem : ℕ → ℕ} {addr len : ℕ} {h : MmHeap} : addr + len < c.words →
      krhinoInitMmHead c mem addr len = some (.success, some h) →
      MmReach c (regionAddr c addr) (regionAddr c addr + (regionLen c addr len - 2 * c.ptrSize)) h
        fun _ => False
  | alloc {lo hi : ℕ} {h : MmHeap} {live : ℕ → Prop} {size : ℕ} {h' : MmHeap} {p : ℕ} :
      MmReach c lo hi h live → AllocFits c h size →
      h.kMmAlloc c size = some (h', p) → MmReach c lo hi h' fun q => p ≠ 0 ∧ q = p ∨ live q
  | free {lo hi : ℕ} {h : MmHeap} {live : ℕ → Prop} {p : ℕ} {h' : MmHeap} :
      MmReach c lo hi h live → live p → h.kMmFree c p = some h' →
      MmReach c lo hi h' fun q => live q ∧ q ≠ p
  | realloc {lo hi : ℕ} {h : MmHeap} {live : ℕ → Prop} {p size : ℕ} {h' : MmHeap} {q : ℕ} :
      MmReach c lo hi h live → live p → size ≤ c.maxMmSize →
      h.kMmRealloc c p size = some (h', q) →
      MmReach c lo hi h' fun r => q ≠ 0 ∧ r = q ∨ live r ∧ (r ≠ p ∨ q = 0 ∧ size ≠ 0)
  | write {lo hi : ℕ} {h : MmHeap} {live : ℕ → Prop} {p t x : ℕ} :
      MmReach c lo hi h live → live p → p ≤ t → t < p + payload c h p →
      MmReach c lo hi (h.write t x) live

/-! ## The invariant of a run -/

theorem MmView.payload_eq (hv : MmView c lo hi h L U cells) (hp : L p = some n) :
    payload c h p = n := by
  unfold payload
  rcases (hv.live p n).1 hp with ⟨b, rfl, hb, -, -, hbf⟩ | ⟨hf, hc, -, rfl⟩
  · have hsub : c.sub (buffer c b) c.headSize = b := by
      have h1 := (hv.holds.bounds hb).2
      have h2 := hv.holds.span_lt.2
      rw [buffer, sub_eq (by omega) (by omega), Nat.add_sub_cancel]
    rw [if_neg (hv.not_isFixed hb hbf), hsub, (hv.holds.size hb).1]
  · rw [if_pos (hv.isFixed hf hc)]

theorem MmView.write (hv : MmView c lo hi h L U cells) (hp : L p = some n) (hle : p ≤ t) (hlt : t < p + n)
    {x : ℕ} : MmView c lo hi (h.write t x) L U cells := by
  refine hv.congr (SameIdx.refl h).write fun d hd => ?_
  rw [write_mem, if_neg]
  rintro rfl
  exact hd p n hp ⟨hle, hlt⟩

theorem MmWf.payload_eq (hw : MmWf c lo hi h L) (hp : L p = some n) : payload c h p = n := by
  obtain ⟨U, cells, hv⟩ := hw
  exact hv.payload_eq hp

theorem MmWf.within (hw : MmWf c lo hi h L) (hp : L p = some n) : lo ≤ p ∧ p + n ≤ hi ∧ p ≠ 0 := by
  obtain ⟨U, cells, hv⟩ := hw
  obtain ⟨b, m, hb, -, hhi, hle, hle'⟩ := hv.within hp
  have h1 := (hv.holds.bounds hb).1
  have h2 := hv.holds.bounds' hb hhi
  exact ⟨by omega, by omega, hv.pos hp⟩

theorem MmWf.alloc_big (hw : MmWf c lo hi h L) (hbig : c.maxMmSize < size) :
    (AllocFits c h size ↔ h.kMmAlloc c size = some (h, 0)) ∧
      ∀ h' p, h.kMmAlloc c size = some (h', p) → p = 0 → h' = h := by
  obtain ⟨U, cells, hv⟩ := hw
  obtain ⟨B, lists, hI, rfl⟩ := hv.holds
  have h128 : 2 ^ 7 ≤ c.maxMmSize := Nat.pow_le_pow_right (by decide) c.le_maxMmBit
  have hnf : ¬ (h.fixedmblk ≠ 0 ∧ size ≤ defFixBlkSize ∧ h.pool.blkAvail > 0) := by
    unfold defFixBlkSize
    omega
  have halloc : h.kMmAlloc c size = h.tlfAlloc c size := by
    rw [kMmAlloc, if_neg (by omega), if_neg hnf]
  have hr : ∀ p, lists p ≠ [] → p.1 < 32 ∧ p.2 < 32 := fun p hp => by
    have h1 := hI.idx.range hp
    have h2 := fltSize_le c
    unfold sltSize at h1
    omega
  have hhead : ∀ p, lists p ≠ [] ↔ h.mmTbl p.1 p.2 ≠ 0 := fun p => by
    rw [hI.idx.head p]
    have hz := hI.idx.ne_zero p
    cases hl : lists p with
    | nil => simp
    | cons a l =>
      rw [hl] at hz
      have : a ≠ 0 := fun h => hz (by simp [h])
      simp [this]
  have hsome : ∀ {o : Option MmHeap} {b : ℕ}, b ≠ 0 →
      o.map (fun h => (h, buffer c b)) ≠ some (h, 0) := by
    intro o b hb hmap
    cases o with
    | none => cases hmap
    | some h' =>
      simp only [Option.map_some, Option.some.injEq, Prod.mk.injEq, buffer] at hmap
      omega
  rw [halloc]
  simp only [AllocFits, tlfAlloc, findBlk]
  cases hs : bitmapSearch c (allocSize c size) .get with
  | none => simp [hbig]
  | some s =>
    simp only [Option.map_some, Option.bind_some]
    by_cases hst : s.1 = .success
    swap
    · rw [if_pos hst, if_pos rfl]
      refine ⟨iff_of_true (.inr ⟨s, rfl, fun h => absurd h hst⟩) rfl, fun h' p heq _ => ?_⟩
      simp only [Option.some.injEq, Prod.mk.injEq] at heq
      exact heq.1.symm
    rw [if_neg (not_not.2 hst)]
    rcases hI.idx.bits.find hr s.2.1 s.2.2 with ⟨p, hp, hle, heq⟩ | ⟨hno, hz⟩
    · have hne := (hhead p).1 hp
      rw [heq]
      rw [if_neg hne]
      refine ⟨iff_of_false ?_ (hsome hne), fun h' q hmap hq => ?_⟩
      · rintro (hle' | ⟨s', hs', hall⟩)
        · omega
        · simp only [Option.some.injEq] at hs'
          subst hs'
          have hrange := hI.idx.range hp
          exact hne (hall hst p hle hrange.1 hrange.2)
      · subst hq
        exfalso
        cases ho : (h.takeFirst c (h.mmTbl p.1 p.2) p.1 p.2).splitBlk c (h.mmTbl p.1 p.2)
            (allocSize c size) with
        | none =>
          rw [ho] at hmap
          cases hmap
        | some h₁ =>
          rw [ho] at hmap
          simp only [Option.map_some, Option.some.injEq, Prod.mk.injEq, buffer] at hmap
          omega
    · rw [if_pos hz]
      refine ⟨iff_of_true (.inr ⟨s, rfl, fun _ p hle _ _ => ?_⟩) rfl, fun h' p heq _ => ?_⟩
      · by_contra hne
        exact hno p ((hhead p).2 hne) hle
      · simp only [Option.some.injEq, Prod.mk.injEq] at heq
        exact heq.1.symm

theorem MmReach.wf (hr : MmReach c lo hi h live) :
    ∃ L, MmWf c lo hi h L ∧ ∀ p, live p ↔ ∃ n, L p = some n := by
  induction hr with
  | init hmem hinit =>
    exact ⟨fun _ => none, (krhinoInitMmHead_wf hmem hinit).1, fun p => by simp⟩
  | @alloc lo hi h live size h' p _ hfit heq ih =>
    obtain ⟨L, hw, hlive⟩ := ih
    by_cases hbig : c.maxMmSize < size
    · have halloc := (hw.alloc_big hbig).1.1 hfit
      rw [halloc] at heq
      cases heq
      exact ⟨L, hw, fun q => by simp [hlive]⟩
    · obtain ⟨h1, q, heq', ⟨rfl, rfl⟩ | ⟨k, hq0, -, -, hw', -, -⟩⟩ := hw.alloc (not_lt.1 hbig)
      · rw [heq'] at heq
        cases heq
        exact ⟨L, hw, fun q => by simp [hlive]⟩
      · rw [heq'] at heq
        cases heq
        refine ⟨_, hw', fun r => ?_⟩
        rw [Function.update_apply]
        split_ifs with hrp
        · simp [hrp, hq0]
        · simp [hrp, hlive]
  | @free lo hi h live p h' _ hp heq ih =>
    obtain ⟨L, hw, hlive⟩ := ih
    obtain ⟨n, hn⟩ := (hlive p).1 hp
    obtain ⟨h1, heq', hw', -⟩ := hw.free hn
    rw [heq'] at heq
    cases heq
    refine ⟨_, hw', fun r => ?_⟩
    rw [Function.update_apply]
    split_ifs with hrp
    · simp [hrp]
    · simp [hrp, hlive]
  | @realloc lo hi h live p size h' q _ hp hsize heq ih =>
    obtain ⟨L, hw, hlive⟩ := ih
    obtain ⟨n, hn⟩ := (hlive p).1 hp
    obtain ⟨h1, q', heq', hcases, -⟩ := hw.realloc hn hsize
    rw [heq'] at heq
    cases heq
    rcases hcases with ⟨h0, rfl, hw', -⟩ | ⟨h0, rfl, rfl⟩ | ⟨-, hq0, k, -, -, hw', -, -⟩
    · refine ⟨_, hw', fun r => ?_⟩
      rw [Function.update_apply]
      split_ifs with hrp
      · simp [hrp, h0]
      · simp [hrp, hlive]
    · exact ⟨L, hw, fun r => by simp [h0, hlive]⟩
    · refine ⟨_, hw', fun r => ?_⟩
      rw [Function.update_apply, Function.update_apply]
      split_ifs with hrq hrp
      · simp [hrq, hq0]
      · simp [hrp, hq0]
        exact fun h => hrq (hrp.trans h)
      · simp [hrp, hrq, hlive]
  | @write lo hi h live p t x _ hp hle hlt ih =>
    obtain ⟨L, ⟨U, cells, hv⟩, hlive⟩ := ih
    obtain ⟨n, hn⟩ := (hlive p).1 hp
    rw [hv.payload_eq hn] at hlt
    exact ⟨L, ⟨U, cells, hv.write hn hle hlt⟩, hlive⟩

/-! ## A build -/

theorem ptrSize_four : (4 : ℕ) = 4 ∨ (4 : ℕ) = 8 := .inl rfl

/-- The build for 32 bits with the defaults of `k_default_config.h`. -/
def mmConfig32 : MmConfig :=
  ⟨4, 20, 8192, 1860, 40, ptrSize_four, by decide, by decide, by decide, by decide, by decide,
    by decide, by decide⟩

theorem mmConfig32_init : ∃ h, krhinoInitMmHead mmConfig32 (fun _ => 0) 4096 65536 =
    some (.success, some h) ∧ MmReach mmConfig32 5956 69624 h fun _ => False := by
  have hmem : 4096 + 65536 < mmConfig32.words := by decide
  obtain ⟨h, heq, -⟩ := krhinoInitMmHead_ok (fun _ => 0) (by decide) hmem (by decide) (by decide)
  exact ⟨h, heq, .init (by decide) heq⟩

/-! ## The search -/

/-- **Good fit**: the search finds a free block with the bytes wanted where one is
    of a class at or above the rounded one, first in the list it tells, and
    nothing otherwise. -/
theorem findBlk_goodFit {B : ℕ → Option MmBlk} {lists : ℕ × ℕ → List ℕ}
    (hI : MmInv c lo hi h B lists) (hd : c.ptrSize ∣ n) (hn : n ≤ c.maxMmSize) :
    ∃ b fl sl, h.findBlk c n = some (b, fl, sl) ∧
      ((∃ a x, B a = some x ∧ x.free = true ∧ ClassLe (mmClass (mmRound n)) (mmClass x.size)) →
        b ≠ 0 ∧ h.mmTbl fl sl = b ∧
          ∃ x, B b = some x ∧ x.free = true ∧ mmClass x.size = (fl, sl) ∧ n ≤ x.size) ∧
      ((¬ ∃ a x, B a = some x ∧ x.free = true ∧ ClassLe (mmClass (mmRound n)) (mmClass x.size)) →
        b = 0) := by
  obtain ⟨b, ⟨fl, sl⟩, heq, ⟨hb, hno⟩ | ⟨hsuit, hb, hmem, hfirst⟩⟩ := hI.findBlk hn
  · exact ⟨b, fl, sl, heq, fun ⟨a, hx⟩ => absurd hx (hno a), fun _ => hb⟩
  · refine ⟨b, fl, sl, heq, fun _ => ⟨hb, hfirst, ?_⟩, fun hno => absurd ⟨b, hsuit⟩ hno⟩
    obtain ⟨x, hx, hfree, hle⟩ := hsuit.le hd
    obtain ⟨y, hy, -, hcl⟩ := hI.filed.1 hmem
    rw [hx] at hy
    cases hy
    exact ⟨x, hx, hfree, hcl, hle⟩

theorem findBlk_goodFit_eight : ∃ h B lists, MmInv mmConfig32 5956 69624 h B lists ∧
    ∃ b fl sl, h.findBlk mmConfig32 8 = some (b, fl, sl) ∧
      ((∃ a x, B a = some x ∧ x.free = true ∧ ClassLe (mmClass (mmRound 8)) (mmClass x.size)) →
        b ≠ 0 ∧ h.mmTbl fl sl = b ∧
          ∃ x, B b = some x ∧ x.free = true ∧ mmClass x.size = (fl, sl) ∧ 8 ≤ x.size) ∧
      ((¬ ∃ a x, B a = some x ∧ x.free = true ∧ ClassLe (mmClass (mmRound 8)) (mmClass x.size)) →
        b = 0) := by
  obtain ⟨h, -, hr⟩ := mmConfig32_init
  obtain ⟨L, ⟨U, cells, hv⟩, -⟩ := hr.wf
  obtain ⟨B, lists, hI, -⟩ := hv.holds
  exact ⟨h, B, lists, hI, findBlk_goodFit hI (by decide) (by decide)⟩

/-! ## Requests -/

/-- **`k_mm_alloc` serves a request exactly where it fits.** -/
theorem kMmAlloc_serves_iff (hr : MmReach c lo hi h live) :
    AllocServes c lo hi h size ↔ AllocFits c h size := by
  obtain ⟨L, hw, -⟩ := hr.wf
  by_cases hbig : c.maxMmSize < size
  · obtain ⟨hfit, hnull⟩ := hw.alloc_big hbig
    rw [hfit]
    constructor
    · rintro ⟨h', p, heq, ⟨rfl, rfl⟩ | ⟨-, hle, hlo, hhi⟩⟩
      · exact heq
      · obtain ⟨U, cells, hv⟩ := hw
        have := hv.holds.span_lt.1
        omega
    · exact fun heq => ⟨h, 0, heq, .inl ⟨rfl, rfl⟩⟩
  · refine iff_of_true ?_ (.inl (not_lt.1 hbig))
    obtain ⟨h', p, heq, ⟨rfl, rfl⟩ | ⟨k, hp0, hk, -, hw', -, -⟩⟩ := hw.alloc (not_lt.1 hbig)
    · exact ⟨_, 0, heq, .inl ⟨rfl, rfl⟩⟩
    · have hp : Function.update L p (some k) p = some k := Function.update_self ..
      obtain ⟨hlo, hhi, -⟩ := hw'.within hp
      exact ⟨h', p, heq, .inr ⟨hp0, by rwa [hw'.payload_eq hp], hlo, by rwa [hw'.payload_eq hp]⟩⟩

theorem kMmAlloc_serves_iff_hundred : ∃ h, MmReach mmConfig32 5956 69624 h (fun _ => False) ∧
    (AllocServes mmConfig32 5956 69624 h 100 ↔ AllocFits mmConfig32 h 100) := by
  obtain ⟨h, -, hr⟩ := mmConfig32_init
  exact ⟨h, hr, kMmAlloc_serves_iff hr⟩

/-- `MM_ALIGN_UP` wraps: a request of 4 GiB less a byte gets 8 bytes. -/
theorem kMmAlloc_not_serves : ∃ h, MmReach mmConfig32 5956 69624 h (fun _ => False) ∧
    ¬ AllocServes mmConfig32 5956 69624 h (2 ^ 32 - 1) := by
  obtain ⟨h, heq, hr⟩ := mmConfig32_init
  refine ⟨h, hr, ?_⟩
  rintro ⟨h', p, halloc, hp⟩
  have hrun : ((krhinoInitMmHead mmConfig32 (fun _ => 0) 4096 65536).bind (·.2)).bind (fun h =>
      (h.kMmAlloc mmConfig32 (2 ^ 32 - 1)).map (·.2)) = some 14220 := by decide +kernel
  rw [heq] at hrun
  simp only [Option.bind_some, halloc, Option.map_some, Option.some.injEq] at hrun
  omega

/-! ## Reallocation -/

/-- **`k_mm_realloc` keeps what is stored**: it moves the bytes of its pointer, as
    many as there are before and after, leaves the other live pointers alone, and
    changes nothing where it fails. -/
theorem kMmRealloc_keeps (hr : MmReach c lo hi h live) (hp : live p) (hm : m ≤ c.maxMmSize) :
    ∃ h' q, h.kMmRealloc c p m = some (h', q) ∧
      (q ≠ 0 → m ≤ payload c h' q ∧
        ∀ i, i < min (payload c h p) m → h'.mem (q + i) = h.mem (p + i)) ∧
      (∀ r, live r → r ≠ p → payload c h' r = payload c h r ∧
        ∀ t, r ≤ t → t < r + payload c h r → h'.mem t = h.mem t) ∧
      (q = 0 → m ≠ 0 → h' = h) := by
  obtain ⟨L, hw, hlive⟩ := hr.wf
  obtain ⟨n, hn⟩ := (hlive p).1 hp
  obtain ⟨h', q, heq, hcases, -⟩ := hw.realloc hn hm
  have hother : ∀ {L' : ℕ → Option ℕ}, MmWf c lo hi h' L' → LiveKeeps (Function.update L p none) h h' →
      ∀ r k, r ≠ p → L r = some k → L' r = some k → payload c h' r = payload c h r ∧
        ∀ t, r ≤ t → t < r + payload c h r → h'.mem t = h.mem t := by
    intro L' hw' hkeep r k hrp hr hr'
    have hr0 : Function.update L p none r = some k := by rw [Function.update_of_ne hrp, hr]
    rw [hw.payload_eq hr, hw'.payload_eq hr']
    exact ⟨rfl, fun t hle hlt => hkeep r k t hr0 hle hlt⟩
  refine ⟨h', q, heq, ?_⟩
  rw [hw.payload_eq hn]
  rcases hcases with ⟨h0, rfl, hw', hkeep⟩ | ⟨h0, rfl, rfl⟩ | ⟨h0, hq0, k, hk, hq, hw', hkeep, hsame⟩
  · refine ⟨fun h => absurd rfl h, fun r hr hrp => ?_, fun _ h => absurd h0 h⟩
    obtain ⟨d, hd⟩ := (hlive r).1 hr
    exact hother hw' hkeep r d hrp hd (by rw [Function.update_of_ne hrp, hd])
  · exact ⟨fun h => absurd rfl h, fun _ _ _ => ⟨rfl, fun _ _ _ => rfl⟩, fun _ _ => rfl⟩
  · have hself : Function.update (Function.update L p none) q (some k) q = some k :=
      Function.update_self ..
    refine ⟨fun _ => ⟨by rwa [hw'.payload_eq hself], fun i hi => ?_⟩, fun r hr hrp => ?_,
      fun h => absurd h hq0⟩
    · exact hsame i (lt_of_lt_of_le hi (min_le_left _ _)) (lt_of_lt_of_le hi (min_le_right _ _))
    · obtain ⟨d, hd⟩ := (hlive r).1 hr
      have hrq : r ≠ q := by
        rintro rfl
        rcases hq with rfl | hq
        · exact hrp rfl
        · rw [hq] at hd
          cases hd
      exact hother hw' hkeep r d hrp hd (by rw [Function.update_of_ne hrq, Function.update_of_ne hrp, hd])

theorem kMmRealloc_keeps_twoHundred : ∃ h h' q, h.kMmRealloc mmConfig32 14220 200 = some (h', q) ∧
    (q ≠ 0 → 200 ≤ payload mmConfig32 h' q ∧
      ∀ i, i < min (payload mmConfig32 h 14220) 200 → h'.mem (q + i) = h.mem (14220 + i)) ∧
    (q = 0 → h' = h) := by
  obtain ⟨h₀, heq, hr⟩ := mmConfig32_init
  have hrun : ((krhinoInitMmHead mmConfig32 (fun _ => 0) 4096 65536).bind (·.2)).bind (fun h =>
      (h.kMmAlloc mmConfig32 100).map (·.2)) = some 14220 := by decide +kernel
  rw [heq] at hrun
  simp only [Option.bind_some, Option.map_eq_some_iff] at hrun
  obtain ⟨⟨h, p⟩, halloc, rfl⟩ := hrun
  obtain ⟨h', q, hre, hmoved, -, hfail⟩ := kMmRealloc_keeps (p := 14220) (m := 200)
    (hr.alloc (.inl (by decide)) halloc) (.inl ⟨by decide, rfl⟩) (by decide)
  exact ⟨h, h', q, hre, hmoved, fun hq => hfail hq (by decide)⟩

end Rhino
