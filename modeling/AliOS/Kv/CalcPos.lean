/-
  Key-value store: the block kept for garbage collection, and the search of
  `kv_item_calc_pos` for a block with room.

  A collection needs a clean block.  With two blocks no store takes one; with
  more, `kv_item_calc_pos` may take the last.  In a run where it does not, a
  block is clean in every state.

  The loop is a relation here, without a bound on its turns: a derivation is a
  search that returns, and lists the blocks it looks at.  The blocks are looked
  at in the order of `blkRank`, which the search leaves only at block 0.
-/
import AliOS.Kv.Refine

namespace Kv

open Lib

variable {c : KvConfig} {d : Log} {s s' : KvMgr}

/-- `KV_GC_RESERVED` blocks are clean, and the count of clean blocks is right:
    `aos_kv_gc` does not leave at `clean_blk_nums == 0`. -/
def ReserveKept (c : KvConfig) (s : KvMgr) : Prop :=
  kvGcReserved ≤ s.cleanBlkNums ∧
    s.cleanBlkNums =
      ((Finset.range c.blkNums).filter fun b => (s.blockInfo b).state = blkStateClean).card

instance : Decidable (ReserveKept c s) := inferInstanceAs (Decidable (_ ∧ _))

/-- A set that writes an item takes a clean block only if another one is left. -/
def LeavesReserve (c : KvConfig) (s : KvMgr) (e : KvOp × KvOut) : Prop :=
  ∀ key val, e.1 = .set key val → Stores c s key val → TakesClean c s (storeLen c key val) →
    kvGcReserved < s.cleanBlkNums

theorem Inv.count_eq (h : Inv c s d) : s.cleanBlkNums =
    ((Finset.range c.blkNums).filter fun b => (s.blockInfo b).state = blkStateClean).card := by
  rw [h.count, cleanBlks]
  congr 1
  refine Finset.filter_congr fun b hb => ?_
  rw [h.state b (Finset.mem_range.1 hb), Option.some.injEq]

theorem Holding.reserve {M : KvMap} (h : Holding c s d M) {e : KvOp × KvOut}
    (hs : restrict (LeavesReserve c) (KvStep c) s e s') (hc : kvGcReserved ≤ s.cleanBlkNums) :
    ∃ d', Holding c s' d' (mapStep M e) ∧ kvGcReserved ≤ s'.cleanBlkNums := by
  obtain ⟨hl, hs⟩ := hs
  obtain ⟨d', h'⟩ := h.step hs
  refine ⟨d', h'.holding, ?_⟩
  by_cases hex : ∃ key val, e.1 = .set key val ∧ Stores c s key val ∧
      TakesClean c s (storeLen c key val)
  · obtain ⟨key, val, he, hst, ht⟩ := hex
    have := hl key val he hst ht
    have := h'.count_le
    omega
  · rw [h'.count_eq fun key val he hst ht => hex ⟨key, val, he, hst, ht⟩]
    exact hc

/-- **The reserve is kept** in every run whose sets leave it. -/
theorem reserve_kept {es : List (KvOp × KvOut)}
    (run : Run (restrict (LeavesReserve c) (KvStep c)) (aosKvInit c erased) es s) :
    ReserveKept c s := by
  obtain ⟨d₀, h₀, hc0, -⟩ := holding_init (c := c)
  have hI := @Run.keeps _ _ _ _ _ _ (fun s => ∃ d M, Holding c s d M ∧ kvGcReserved ≤ s.cleanBlkNums)
    (fun ⟨d, M, h, hc⟩ hs => by
      obtain ⟨d', h', hc'⟩ := h.reserve hs hc
      exact ⟨d', _, h', hc'⟩) run ⟨d₀, _, h₀, hc0⟩
  obtain ⟨d, M, h, hc⟩ := hI
  exact ⟨hc, h.inv.count_eq⟩

theorem leavesReserve_two (h : c.blkNums = 2) (e : KvOp × KvOut) : LeavesReserve c s e := by
  rintro key val - - ⟨-, i, hi, -⟩
  unfold calcBlk at hi
  simp only [h, kvGcReserved] at hi
  cases hi

theorem reserve_kept_two :
    ∃ es s, Run (KvStep twoBlks) (aosKvInit twoBlks erased) es s ∧ es.length = 3 ∧
      ReserveKept twoBlks s := by
  have hrun : (kvRun twoBlks (aosKvInit twoBlks erased)
      [.set [0x6B] [1], .set [0x6B] [2], .gc]).map (·.2) = some [.res .ok, .res .ok, .done] := by
    decide +kernel
  obtain ⟨⟨s, outs⟩, hrun, rfl⟩ := Option.map_eq_some_iff.1 hrun
  have run := run_kvRun hrun
  exact ⟨_, s, run, rfl, reserve_kept (run.mono fun hs => ⟨leavesReserve_two rfl _, hs⟩)⟩

/-- The configuration with three blocks. -/
def threeBlks : KvConfig := ⟨3, 4, by decide, by decide, twoBlks.ptrSize_eq⟩

/-- Sets of keys `0`, …, `n - 1` with values of the largest length. -/
def fillOps (n : ℕ) : List KvOp :=
  (List.range n).map fun i => .set [UInt8.ofNat i] (List.replicate itemMaxValLen 0)

/-- **The reserve is lost**: of three blocks, fifteen large items take all. -/
theorem reserve_lost :
    ∃ es s, Run (KvStep threeBlks) (aosKvInit threeBlks erased) es s ∧
      ¬ ReserveKept threeBlks s := by
  have hrun : (kvRun threeBlks (aosKvInit threeBlks erased) (fillOps 15)).map (·.1.cleanBlkNums) =
      some 0 := by decide +kernel
  obtain ⟨⟨s, outs⟩, hrun, hc⟩ := Option.map_eq_some_iff.1 hrun
  refine ⟨_, s, run_kvRun hrun, fun h => ?_⟩
  have := h.1
  rw [show s.cleanBlkNums = 0 from hc] at this
  exact absurd this (by decide)

end Kv

namespace Kv

open Lib

variable (c : KvConfig)

/-! ## The search -/

/-- The reset in the body of the loop: `if (i == BLK_NUMS) i = 0;`. -/
def wrapBlk (i : ℕ) : ℕ := if i = c.blkNums then 0 else i

/-- `len` bytes fit in the block `b`. -/
def KvMgr.HasRoom (s : KvMgr) (len b : ℕ) : Prop := len < (s.blockInfo b).space

instance (s : KvMgr) (len b : ℕ) : Decidable (s.HasRoom len b) := inferInstanceAs (Decidable (_ < _))

/-- The loop of `kv_item_calc_pos` at the index `i`, a `uint8_t`: the blocks it
    looks at from here on, and the one it stops at. -/
inductive CalcLoop (s : KvMgr) (len blkIndex : ℕ) : ℕ → List ℕ → Option ℕ → Prop where
  | back : CalcLoop s len blkIndex blkIndex [] none
  | room {i : ℕ} (hi : i ≠ blkIndex) (hr : s.HasRoom len (wrapBlk c i)) :
      CalcLoop s len blkIndex i [wrapBlk c i] (some (wrapBlk c i))
  | on {i : ℕ} {vs : List ℕ} {r : Option ℕ} (hi : i ≠ blkIndex) (hr : ¬ s.HasRoom len (wrapBlk c i))
      (rest : CalcLoop s len blkIndex ((wrapBlk c i + 1) % 256) vs r) :
      CalcLoop s len blkIndex i (wrapBlk c i :: vs) r

/-- The manager when the block written to has the room. -/
def KvMgr.keepBlk (s : KvMgr) (len : ℕ) : KvMgr :=
  if (s.blockInfo (s.writePos / blkSize)).space - len < itemMaxLen ∧ s.cleanBlkNums ≤ kvGcReserved
  then s.triggerGc else s

/-- `kv_item_calc_pos` returns: the blocks its loop looks at, the manager it
    leaves and the position. -/
inductive Calc (s : KvMgr) (len : ℕ) : List ℕ → KvMgr → ℕ → Prop where
  | here (hr : s.HasRoom len (s.writePos / blkSize)) : Calc s len [] (s.keepBlk len) s.writePos
  | few (hr : ¬ s.HasRoom len (s.writePos / blkSize)) (hn : ¬ c.blkNums > kvGcReserved + 1) :
      Calc s len [] s.triggerGc 0
  | found {vs : List ℕ} {i : ℕ} (hr : ¬ s.HasRoom len (s.writePos / blkSize))
      (hn : c.blkNums > kvGcReserved + 1)
      (loop : CalcLoop c s len (s.writePos / blkSize) (s.writePos / blkSize + 1) vs (some i)) :
      Calc s len vs (s.takeBlk i) (s.takeBlk i).writePos
  | full {vs : List ℕ} (hr : ¬ s.HasRoom len (s.writePos / blkSize))
      (hn : c.blkNums > kvGcReserved + 1)
      (loop : CalcLoop c s len (s.writePos / blkSize) (s.writePos / blkSize + 1) vs none) :
      Calc s len vs s.triggerGc 0

/-- The place of the block `b` in the order of the search. -/
def blkRank (blkIndex b : ℕ) : ℕ :=
  if blkIndex < b then b - blkIndex - 1 else c.blkNums - blkIndex - 1 + b

variable {c} {d : Log} {s s' : KvMgr} {len blkIndex i v : ℕ} {vs : List ℕ} {r : Option ℕ}

/-! ## The order of the search -/

theorem wrapBlk_lt (hi : i ≤ c.blkNums) : wrapBlk c i < c.blkNums := by
  have := c.two_le
  rw [wrapBlk]
  split_ifs <;> omega

theorem succ_mod (hv : v < c.blkNums) : (v + 1) % 256 = v + 1 := by
  have := c.le_fifteen
  exact Nat.mod_eq_of_lt (by omega)

theorem blkRank_inj {b : ℕ} (hb : blkIndex < c.blkNums) (hv : v < c.blkNums) (hb' : b < c.blkNums)
    (h : blkRank c blkIndex v = blkRank c blkIndex b) : v = b := by
  unfold blkRank at h
  split_ifs at h <;> omega

theorem blkRank_le (hb : blkIndex < c.blkNums) (hv : v < c.blkNums) :
    blkRank c blkIndex v ≤ blkRank c blkIndex blkIndex := by
  unfold blkRank
  split_ifs <;> omega

theorem blkRank_next (hb : blkIndex < c.blkNums) (hv : v < c.blkNums) (hne : v ≠ blkIndex) :
    blkRank c blkIndex (wrapBlk c (v + 1)) = blkRank c blkIndex v + 1 := by
  have := c.two_le
  unfold blkRank wrapBlk
  split_ifs <;> omega

theorem blkRank_first (hb : blkIndex < c.blkNums) (hv : v < c.blkNums) :
    blkRank c blkIndex (wrapBlk c (blkIndex + 1)) ≤ blkRank c blkIndex v := by
  unfold blkRank wrapBlk
  split_ifs <;> omega

theorem eq_of_wrapBlk_eq (hne : i ≠ blkIndex) (h : wrapBlk c i = blkIndex) :
    i = c.blkNums ∧ blkIndex = 0 := by
  unfold wrapBlk at h
  split_ifs at h with he
  · exact ⟨he, h.symm⟩
  · exact absurd h hne

/-! ## When the search returns -/

theorem CalcLoop.det {vs' : List ℕ} {r' : Option ℕ} (h : CalcLoop c s len blkIndex i vs r)
    (h' : CalcLoop c s len blkIndex i vs' r') : vs = vs' ∧ r = r' := by
  induction h generalizing vs' r' with
  | back =>
    cases h' with
    | back => exact ⟨rfl, rfl⟩
    | room hi => exact absurd rfl hi
    | on hi => exact absurd rfl hi
  | room hi hr =>
    cases h' with
    | back => exact absurd rfl hi
    | room => exact ⟨rfl, rfl⟩
    | on _ hr' => exact absurd hr hr'
  | on hi hr _ ih =>
    cases h' with
    | back => exact absurd rfl hi
    | room _ hr' => exact absurd hr' hr
    | on _ _ rest =>
      obtain ⟨hvs, hr⟩ := ih rest
      exact ⟨by rw [hvs], hr⟩

/-- **The search returns** from the index `i` if it does not start from block 0,
    or a block with room is still ahead; the blocks it looks at are in order. -/
theorem CalcLoop.exists (hb : blkIndex < c.blkNums) (hi : i ≤ c.blkNums) (hpos : 0 < i)
    (hok : blkIndex ≠ 0 ∨ ∃ j < c.blkNums, s.HasRoom len j ∧
      blkRank c blkIndex (wrapBlk c i) ≤ blkRank c blkIndex j) :
    ∃ vs r, CalcLoop c s len blkIndex i vs r ∧ vs.Pairwise (blkRank c blkIndex · < blkRank c blkIndex ·) ∧
      ∀ v ∈ vs, v < c.blkNums ∧ blkRank c blkIndex (wrapBlk c i) ≤ blkRank c blkIndex v := by
  -- on the places left before that of the block written to
  induction hk : blkRank c blkIndex blkIndex - blkRank c blkIndex (wrapBlk c i)
    using Nat.strong_induction_on generalizing i with
  | _ k ih =>
    have hv := wrapBlk_lt hi
    by_cases hback : i = blkIndex
    · subst hback
      exact ⟨[], none, .back, .nil, by simp⟩
    by_cases hr : s.HasRoom len (wrapBlk c i)
    · exact ⟨_, _, .room hback hr, List.pairwise_singleton _ _, by simp [hv]⟩
    -- no room: a block with room ahead is not this one
    have hahead : ∀ j < c.blkNums, s.HasRoom len j →
        blkRank c blkIndex (wrapBlk c i) ≤ blkRank c blkIndex j →
        blkRank c blkIndex (wrapBlk c i) < blkRank c blkIndex j := by
      intro j hj hrj hle
      refine lt_of_le_of_ne hle fun he => hr ?_
      rw [blkRank_inj hb hv hj he]
      exact hrj
    have hne : wrapBlk c i ≠ blkIndex := by
      intro he
      rcases hok with hok | ⟨j, hj, hrj, hle⟩
      · exact hok (eq_of_wrapBlk_eq hback he).2
      · have hlt := hahead j hj hrj hle
        have hlast := blkRank_le hb hj
        rw [he] at hlt
        omega
    have hnext := blkRank_next hb hv hne
    have hlast := blkRank_le hb (wrapBlk_lt (i := wrapBlk c i + 1) hv)
    have hlt : blkRank c blkIndex blkIndex - blkRank c blkIndex (wrapBlk c (wrapBlk c i + 1)) < k := by
      omega
    obtain ⟨vs, r, hl, hp, hm⟩ := ih _ hlt (i := wrapBlk c i + 1) hv (by omega)
      (hok.imp_right fun ⟨j, hj, hrj, hle⟩ => ⟨j, hj, hrj, by
        rw [hnext]
        exact hahead j hj hrj hle⟩) rfl
    refine ⟨_, r, .on hback hr ((succ_mod hv).symm ▸ hl), ?_, ?_⟩
    · refine List.pairwise_cons.2 ⟨fun v hmem => ?_, hp⟩
      have := (hm v hmem).2
      omega
    · rintro v (_ | ⟨_, hmem⟩)
      · exact ⟨hv, le_rfl⟩
      · have := hm v hmem
        exact ⟨this.1, by omega⟩

theorem CalcLoop.room_of_zero (h : CalcLoop c s len 0 i vs r) (hpos : 0 < i) (hi : i ≤ c.blkNums) :
    ∃ j < c.blkNums, s.HasRoom len j := by
  induction h with
  | back => omega
  | @room i _ hr => exact ⟨_, wrapBlk_lt hi, hr⟩
  | @on i _ _ _ _ _ ih =>
    have hv := wrapBlk_lt hi
    rw [succ_mod hv] at ih
    exact ih (Nat.succ_pos _) hv

theorem CalcLoop.some_spec (h : CalcLoop c s len blkIndex i vs r) (hi : i ≤ c.blkNums) {b : ℕ}
    (hr : r = some b) : b < c.blkNums ∧ s.HasRoom len b := by
  induction h with
  | back => cases hr
  | @room i _ hroom =>
    cases hr
    exact ⟨wrapBlk_lt hi, hroom⟩
  | @on i _ _ _ _ _ ih =>
    have hv := wrapBlk_lt hi
    rw [succ_mod hv] at ih
    exact ih hv hr

theorem CalcLoop.none_spec (h : CalcLoop c s len blkIndex i vs r) (hb : blkIndex < c.blkNums)
    (hi : i ≤ c.blkNums) (hr : r = none) {j : ℕ} (hj : j < c.blkNums) (hne : j ≠ blkIndex)
    (hle : blkRank c blkIndex (wrapBlk c i) ≤ blkRank c blkIndex j) : ¬ s.HasRoom len j := by
  induction h with
  | back =>
    have hw : wrapBlk c blkIndex = blkIndex := if_neg hb.ne
    rw [hw] at hle
    exact absurd (blkRank_inj hb hj hb ((blkRank_le hb hj).antisymm hle)) hne
  | room => cases hr
  | @on i _ _ hi' hroom _ ih =>
    have hv := wrapBlk_lt hi
    rw [succ_mod hv] at ih
    rcases eq_or_ne (wrapBlk c i) j with he | he
    · rwa [← he]
    have hlt : blkRank c blkIndex (wrapBlk c i) < blkRank c blkIndex j :=
      lt_of_le_of_ne hle fun h => he (blkRank_inj hb hv hj h)
    refine ih hv hr ?_
    have hlast := blkRank_le hb hj
    rw [blkRank_next hb hv (by rintro rfl; omega)]
    omega

/-! ## The search with a bound on its turns -/

theorem CalcLoop.calcScan_eq (h : CalcLoop c s len blkIndex i vs r) (hi : i ≤ c.blkNums) {fuel : ℕ}
    (hf : vs.length ≤ fuel) : calcScan c s len blkIndex (fuel + 1) i = some r := by
  induction h generalizing fuel with
  | back => exact if_pos rfl
  | room hi' hr =>
    rw [calcScan, if_neg hi']
    exact if_pos hr
  | @on i vs r hi' hr _ ih =>
    have hv := wrapBlk_lt hi
    rw [succ_mod hv] at ih
    rw [calcScan, if_neg hi']
    refine (if_neg hr).trans ?_
    cases fuel with
    | zero => simp at hf
    | succ fuel => exact ih hv (Nat.le_of_succ_le_succ hf)

theorem calcLoop_of_calcScan {fuel : ℕ} (hi : i ≤ c.blkNums)
    (h : calcScan c s len blkIndex fuel i = some r) : ∃ vs, CalcLoop c s len blkIndex i vs r := by
  induction fuel generalizing i with
  | zero => cases h
  | succ fuel ih =>
    rw [calcScan] at h
    by_cases hback : i = blkIndex
    · rw [if_pos hback] at h
      cases h
      subst hback
      exact ⟨_, .back⟩
    rw [if_neg hback] at h
    change (if s.HasRoom len (wrapBlk c i) then some (some (wrapBlk c i))
      else calcScan c s len blkIndex fuel (wrapBlk c i + 1)) = some r at h
    by_cases hr : s.HasRoom len (wrapBlk c i)
    · rw [if_pos hr] at h
      cases h
      exact ⟨_, .room hback hr⟩
    · rw [if_neg hr] at h
      have hv := wrapBlk_lt hi
      obtain ⟨vs, hl⟩ := ih (i := wrapBlk c i + 1) hv h
      rw [← succ_mod hv] at hl
      exact ⟨_, .on hback hr hl⟩

theorem CalcLoop.nodup (h : CalcLoop c s len blkIndex (blkIndex + 1) vs r)
    (hb : blkIndex < c.blkNums) : vs.Nodup ∧ ∀ v ∈ vs, v < c.blkNums := by
  have hok : blkIndex ≠ 0 ∨ ∃ j < c.blkNums, s.HasRoom len j ∧
      blkRank c blkIndex (wrapBlk c (blkIndex + 1)) ≤ blkRank c blkIndex j := by
    refine or_iff_not_imp_left.2 fun h0 => ?_
    rw [ne_eq, not_not] at h0
    subst h0
    obtain ⟨j, hj, hr⟩ := h.room_of_zero (Nat.succ_pos _) hb
    exact ⟨j, hj, hr, blkRank_first hb hj⟩
  obtain ⟨vs', r', h', hp, hm⟩ := CalcLoop.exists hb hb (Nat.succ_pos _) hok
  obtain ⟨rfl, rfl⟩ := h.det h'
  refine ⟨hp.imp fun hlt he => ?_, fun v hv => (hm v hv).1⟩
  rw [he] at hlt
  exact lt_irrefl _ hlt

theorem calcScan_iff (hb : blkIndex < c.blkNums) :
    calcScan c s len blkIndex (c.blkNums + 1) (blkIndex + 1) = some r ↔
      ∃ vs, CalcLoop c s len blkIndex (blkIndex + 1) vs r := by
  constructor
  · exact calcLoop_of_calcScan hb
  · rintro ⟨vs, h⟩
    obtain ⟨hnd, hlt⟩ := h.nodup hb
    refine h.calcScan_eq hb ?_
    have hsub : vs ⊆ List.range c.blkNums := fun v hv => List.mem_range.2 (hlt v hv)
    have := (hnd.subperm hsub).length_le
    rwa [List.length_range] at this

theorem keepBlk_writePos : (s.keepBlk len).writePos = s.writePos := by
  unfold KvMgr.keepBlk
  split_ifs <;> rfl

theorem calcPos_here (hr : s.HasRoom len (s.writePos / blkSize)) :
    kvItemCalcPos c s len = some (s.keepBlk len, s.writePos) := by
  have hw : kvItemCalcPos c s len = some (s.keepBlk len, (s.keepBlk len).writePos) := if_pos hr
  rw [hw, keepBlk_writePos]

theorem calcPos_few (hr : ¬ s.HasRoom len (s.writePos / blkSize))
    (hn : ¬ c.blkNums > kvGcReserved + 1) : kvItemCalcPos c s len = some (s.triggerGc, 0) := by
  have hblk : calcBlk c s len = some none := if_neg hn
  refine (if_neg hr).trans ?_
  rw [hblk]

theorem calcPos_search (hr : ¬ s.HasRoom len (s.writePos / blkSize))
    (hn : c.blkNums > kvGcReserved + 1)
    (h : calcScan c s len (s.writePos / blkSize) (c.blkNums + 1) (s.writePos / blkSize + 1) = some r) :
    kvItemCalcPos c s len = some (match r with
      | none => (s.triggerGc, 0)
      | some i => (s.takeBlk i, (s.takeBlk i).writePos)) := by
  have hblk : calcBlk c s len = some r := (if_pos hn).trans h
  refine (if_neg hr).trans ?_
  rw [hblk]
  cases r <;> rfl

theorem Calc.calcPos {pos : ℕ} (h : Calc c s len vs s' pos) (hb : s.writePos / blkSize < c.blkNums) :
    kvItemCalcPos c s len = some (s', pos) := by
  cases h with
  | here hr => exact calcPos_here hr
  | few hr hn => exact calcPos_few hr hn
  | found hr hn loop | full hr hn loop => exact calcPos_search hr hn ((calcScan_iff hb).2 ⟨_, loop⟩)

theorem kvItemCalcPos_iff (hb : s.writePos / blkSize < c.blkNums) {pos : ℕ} :
    kvItemCalcPos c s len = some (s', pos) ↔ ∃ vs, Calc c s len vs s' pos := by
  refine ⟨fun h => ?_, fun ⟨vs, hc⟩ => hc.calcPos hb⟩
  have hex : ∃ vs s₁ p1, Calc c s len vs s₁ p1 := by
    by_cases hr : s.HasRoom len (s.writePos / blkSize)
    · exact ⟨_, _, _, .here hr⟩
    by_cases hn : c.blkNums > kvGcReserved + 1
    · have hs : calcBlk c s len ≠ none := by
        intro hs
        have := (if_neg hr).symm.trans h
        simp only [hs] at this
        cases this
      obtain ⟨r, hr'⟩ := Option.ne_none_iff_exists'.1 hs
      obtain ⟨vs, loop⟩ := (calcScan_iff hb).1 ((if_pos hn).symm.trans hr')
      cases r with
      | none => exact ⟨_, _, _, .full hr hn loop⟩
      | some i => exact ⟨_, _, _, .found hr hn loop⟩
    · exact ⟨_, _, _, .few hr hn⟩
  obtain ⟨vs, s₁, p1, hc⟩ := hex
  have he := hc.calcPos hb
  rw [h, Option.some.injEq, Prod.mk.injEq] at he
  obtain ⟨rfl, rfl⟩ := he
  exact ⟨vs, hc⟩

/-! ## The position -/

/-- What the search relies on: the position is behind the header of a block, and
    no block has more space than there is behind its header. -/
structure Fits (c : KvConfig) (s : KvMgr) : Prop where
  blk : s.writePos / blkSize < c.blkNums
  pos : s.writePos ≠ 0
  space : ∀ b < c.blkNums, (s.blockInfo b).space ≤ blkSize - blkHeaderSize

theorem Inv.fits (h : Inv c s d) : Fits c s := by
  obtain ⟨b, hb, -, hw⟩ := h.write
  refine ⟨by rw [hw, endPos_div h.rep hb]; exact hb, ?_, fun b hb => ?_⟩
  · rw [hw, endPos, blkHeaderSize]
    omega
  · have := h.space b hb
    omega

/-- `kv_item_calc_pos` returns, its loop looks at each block at most once, and
    the position is 0 exactly when no block has room. -/
def CalcReturns (c : KvConfig) (s : KvMgr) (len : ℕ) : Prop :=
  ∃ vs s' pos, Calc c s len vs s' pos ∧ vs.Nodup ∧
    (pos = 0 ↔ ∀ b < c.blkNums, ¬ s.HasRoom len b)

theorem takeBlk_writePos {b : ℕ} :
    (s.takeBlk b).writePos = b * blkSize + blkSize - (s.blockInfo b).space := by
  unfold KvMgr.takeBlk
  simp only
  split_ifs <;> rfl

/-- **`kv_item_calc_pos` returns** exactly when the write position is not in
    block 0 or a block has room. -/
theorem calcReturns_iff (hn : kvGcReserved + 1 < c.blkNums) (hf : Fits c s) :
    CalcReturns c s len ↔
      s.writePos / blkSize ≠ 0 ∨ ∃ b < c.blkNums, s.HasRoom len b := by
  have hb := hf.blk
  by_cases hr : s.HasRoom len (s.writePos / blkSize)
  · refine iff_of_true ⟨[], _, _, .here hr, .nil, ?_⟩ (.inr ⟨_, hb, hr⟩)
    exact iff_of_false hf.pos fun h => h _ hb hr
  constructor
  · rintro ⟨vs, s', pos, hc, -, -⟩
    refine or_iff_not_imp_left.2 fun h0 => ?_
    rw [ne_eq, not_not] at h0
    cases hc with
    | here hr' => exact absurd hr' hr
    | few _ hn' => exact absurd hn hn'
    | found _ _ loop | full _ _ loop =>
      rw [h0] at loop hb
      exact loop.room_of_zero (Nat.succ_pos _) hb
  · intro hok
    obtain ⟨vs, r, loop, -, -⟩ := CalcLoop.exists hb hb (Nat.succ_pos _)
      (hok.imp_right fun ⟨j, hj, hrj⟩ => ⟨j, hj, hrj, blkRank_first hb hj⟩)
    have hnd := (loop.nodup hb).1
    cases r with
    | none =>
      refine ⟨vs, _, _, .full hr hn loop, hnd, iff_of_true rfl fun j hj => ?_⟩
      by_cases hne : j = s.writePos / blkSize
      · rwa [hne]
      · exact loop.none_spec hb hb rfl hj hne (blkRank_first hb hj)
    | some b =>
      obtain ⟨hbn, hbr⟩ := loop.some_spec hb rfl
      refine ⟨vs, _, _, .found hr hn loop, hnd, iff_of_false ?_ fun h => h b hbn hbr⟩
      have := hf.space b hbn
      rw [takeBlk_writePos]
      simp only [blkSize, blkHeaderSize] at *
      omega

/-- A manager that writes in block 0, with `space` bytes free in each block. -/
def evenMgr (space : ℕ) : KvMgr where
  flash := erased
  past := []
  gcTriggered := false
  cleanBlkNums := 0
  writePos := blkHeaderSize
  blockInfo _ := ⟨space, blkStateUsed⟩

theorem fits_evenMgr {space : ℕ} (h : space ≤ blkSize - blkHeaderSize) :
    Fits threeBlks (evenMgr space) :=
  ⟨show blkHeaderSize / blkSize < 3 by decide, show blkHeaderSize ≠ 0 by decide, fun _ _ => h⟩

theorem calcReturns_iff_roomy : CalcReturns threeBlks (evenMgr 100) 50 :=
  (calcReturns_iff (by decide) (fits_evenMgr (by decide))).2 (.inr ⟨0, by decide, by decide⟩)

/-- **No return**: block 0 is written to, and all three blocks are full. -/
theorem calcReturns_not_full : Fits threeBlks (evenMgr 0) ∧ ¬ CalcReturns threeBlks (evenMgr 0) 50 := by
  refine ⟨fits_evenMgr (Nat.zero_le _), ?_⟩
  have hfull : ∀ b, ¬ (evenMgr 0).HasRoom 50 b := fun b => Nat.not_lt_zero _
  rintro ⟨vs, s', pos, hc, -, -⟩
  cases hc with
  | here hr => exact hfull _ hr
  | few _ hn => exact hn (by decide)
  | found _ _ loop | full _ _ loop =>
    obtain ⟨b, -, hb⟩ := CalcLoop.room_of_zero loop (by decide) (by decide)
    exact hfull b hb

end Kv
