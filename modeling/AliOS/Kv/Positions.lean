/-
  Key-value store: which partitions have positions that fit.

  With at most 15 blocks every manager that is reached is good, and no call on a
  good one stops.  With more, `aos_kv_init` stops on an erased partition at the
  block 16, whose start is 65536, or, where there is no such block, on the next
  run at the block 15, whose end is.
-/
import AliOS.Kv.Boot
import AliOS.Kv.Refine
import AliOS.Kv.Unchecked

namespace Kv

open Lib

variable {c : KvConfig} {z : KvSize} {rows : ℕ → List ℕ} {s s' : KvMgr} {f : Flash} {k : ℕ} {un : List ℕ}

/-! ## At most 15 blocks -/

/-- The configuration of a partition of at most 15 blocks. -/
def KvSize.config (z : KvSize) (h : z.blkNums ≤ 15) : KvConfig := ⟨z.blkNums, z.ptrSize, z.two_le, h, z.ptrSize_eq⟩

theorem allChained_erased (c : KvConfig) : AllChained c erased fun _ => [] := fun _ _ => chained_nil fun _ _ _ => rfl

theorem Imgs.image (h : Imgs c s rows) (hf : f = s.flash ∨ f ∈ s.past) : ∃ rows', AllChained c f rows' := by
  rcases hf with rfl | hf
  · exact ⟨rows, h.chained⟩
  · exact h.past f hf

theorem GoesOn.map {α β : Type} {out : Fit (KvMgr × α)} (h : GoesOn c out) (g : α → β) :
    GoesOn c (out >>= fun r => return (r.1, g r.2)) := by
  rcases h with hrun | ⟨s, a, rows, hrun, hgood⟩
  · rw [hrun]
    exact .inl rfl
  · rw [hrun]
    exact .inr ⟨s, g a, rows, rfl, hgood⟩

theorem Good.step (h : Good c s rows) (op : KvOp) : GoesOn c (kvStepFit c.size s op) := by
  cases op with
  | set key val => exact (h.set key val).map KvOut.res
  | get key bufferLen => exact (h.read key bufferLen).map fun r => KvOut.read r.1 r.2.1 r.2.2
  | del key => exact (h.del key).map KvOut.res
  | gc =>
    obtain ⟨s₁, rows1, hrun, hgood⟩ := h.gc
    unfold kvStepFit
    rw [hrun]
    exact .inr ⟨s₁, _, rows1, rfl, hgood⟩

theorem Reached.good (h : Reached c.size s) : ∃ rows, Good c s rows := by
  have hinit : ∀ {f rows s}, AllChained c f rows → aosKvInitFit c.size f = .ok s → ∃ rows', Good c s rows' := by
    intro f rows s hchained hrun
    obtain ⟨s₁, rows1, hrun1, hgood⟩ := aosKvInitFit_good hchained
    rw [hrun] at hrun1
    cases hrun1
    exact ⟨rows1, hgood⟩
  induction h with
  | first hrun => exact hinit (allChained_erased c) hrun
  | again _ hf hrun ih =>
    obtain ⟨rows, hgood⟩ := ih
    obtain ⟨rows', hchained⟩ := hgood.image hf
    exact hinit hchained hrun
  | @call _ _ op _ _ hrun ih =>
    obtain ⟨rows, hgood⟩ := ih
    rcases hgood.step op with hstop | ⟨s₁, r, rows1, hrun1, hgood1⟩
    · rw [hrun] at hstop
      cases hstop
    · rw [hrun] at hrun1
      cases hrun1
      exact ⟨rows1, hgood1⟩

theorem neverWraps_config (c : KvConfig) : NeverWraps c.size := by
  have hinit : ∀ {f rows e}, AllChained c f rows → aosKvInitFit c.size f = .error e → e = .hangs := by
    intro f rows e hchained hrun
    obtain ⟨s₁, rows1, hrun1, -⟩ := aosKvInitFit_good hchained
    rw [hrun] at hrun1
    cases hrun1
  refine ⟨fun e hrun => hinit (allChained_erased c) hrun, fun s hreach => ?_⟩
  obtain ⟨rows, hgood⟩ := hreach.good
  refine ⟨fun op e hrun => ?_, fun f hf e hrun => ?_⟩
  · rcases hgood.step op with hstop | ⟨s₁, r, rows1, hrun1, -⟩
    · rw [hrun] at hstop
      cases hstop
      rfl
    · rw [hrun] at hrun1
      cases hrun1
  · obtain ⟨rows', hchained⟩ := hgood.image hf
    exact hinit hchained hrun

/-! ## Runs in the widths of the types -/

/-- The calls one after the other, and what they give back. -/
def kvRunFit (z : KvSize) (s : KvMgr) : List KvOp → Fit (KvMgr × List KvOut)
  | [] => return (s, [])
  | op :: ops => do
    let (s, out) ← kvStepFit z s op
    let (s, outs) ← kvRunFit z s ops
    return (s, out :: outs)

theorem Good.run (h : Good c s rows) (ops : List KvOp) : kvRunFit c.size s ops = .error .hangs ∨
    ∃ s' outs rows', kvRunFit c.size s ops = .ok (s', outs) ∧ kvRun c s ops = some (s', outs) ∧ Good c s' rows' := by
  induction ops generalizing s rows with
  | nil => exact .inr ⟨s, [], rows, rfl, rfl, h⟩
  | cons op ops ih =>
    rw [kvRunFit, kvRun]
    rcases h.step op with hstop | ⟨s₁, out, rows1, hrun, hgood⟩
    · rw [hstop]
      exact .inl rfl
    · rw [hrun, ok_bind, kvStepFit_ok hrun]
      rcases ih hgood with hstop | ⟨s', outs, rows', hrest, hplain, hgood'⟩
      · dsimp only
        rw [hstop]
        exact .inl rfl
      · dsimp only
        rw [hrest, hplain]
        exact .inr ⟨s', _, rows', rfl, rfl, hgood'⟩

/-- The blocks before `k` have a header and no items, and the others are erased. -/
structure Formatted (f : Flash) (k : ℕ) : Prop where
  magic : ∀ b < k, f (b * blkSize) = blkMagicNum
  state : ∀ b < k, ¬ InvalidBlkState (f (b * blkSize + 1))
  empty : ∀ b < k, f (b * blkSize + blkHeaderSize) = 0xFF ∧ f (b * blkSize + blkHeaderSize + 1) = 0xFF
  erased : ∀ o, k * blkSize ≤ o → f o = 0xFF

theorem Formatted.format (h : Formatted s.flash k) : Formatted (s.kvBlockFormat k).flash (k + 1) := by
  have hout : ∀ o, o < k * blkSize ∨ k * blkSize + blkSize ≤ o → (s.kvBlockFormat k).flash o = s.flash o := by
    intro o ho
    rw [kvBlockFormat_flash, if_neg (by unfold blkSize at *; omega), if_neg (by omega)]
  have hin : ∀ o, k * blkSize + 4 ≤ o → o < k * blkSize + blkSize → (s.kvBlockFormat k).flash o = 0xFF := by
    intro o h1 h2
    rw [kvBlockFormat_flash, if_neg (by omega), if_pos (by omega)]
  have hhead : (s.kvBlockFormat k).flash (k * blkSize) = blkMagicNum ∧
      (s.kvBlockFormat k).flash (k * blkSize + 1) = blkStateClean := by
    rw [kvBlockFormat_flash, kvBlockFormat_flash, if_pos (by omega), if_pos (by omega), Nat.sub_self, Nat.add_sub_cancel_left]
    exact ⟨rfl, rfl⟩
  have hold : ∀ b < k, ∀ o < blkSize, (s.kvBlockFormat k).flash (b * blkSize + o) = s.flash (b * blkSize + o) := by
    intro b hb o ho
    refine hout _ (.inl ?_)
    unfold blkSize at *
    omega
  refine ⟨fun b hb => ?_, fun b hb => ?_, fun b hb => ?_, fun o ho => ?_⟩
  · rcases Nat.lt_succ_iff_lt_or_eq.1 hb with hlt | rfl
    · have hsame := hold b hlt 0 (by decide)
      rw [Nat.add_zero] at hsame
      exact hsame.trans (h.magic b hlt)
    · exact hhead.1
  · rcases Nat.lt_succ_iff_lt_or_eq.1 hb with hlt | rfl
    · rw [hold b hlt 1 (by decide)]
      exact h.state b hlt
    · rw [hhead.2]
      decide
  · rcases Nat.lt_succ_iff_lt_or_eq.1 hb with hlt | rfl
    · rw [hold b hlt blkHeaderSize (by decide), Nat.add_assoc, hold b hlt (blkHeaderSize + 1) (by decide), ← Nat.add_assoc]
      exact h.empty b hlt
    · exact ⟨hin _ (by unfold blkHeaderSize; omega) (by unfold blkHeaderSize blkSize; omega),
        hin _ (by unfold blkHeaderSize; omega) (by unfold blkHeaderSize blkSize; omega)⟩
  · rw [Nat.succ_mul] at ho
    rw [hout o (.inr ho)]
    exact h.erased o (by omega)

theorem Formatted.blocks (h : Formatted s.flash k) (hcount : s.cleanBlkNums = k) (un : List ℕ) {m : ℕ} (hm : k + m ≤ 16) (r : ℕ) :
    ∃ s', initBlocksFit z (m + r) k (s, un) = initBlocksFit z r (k + m) (s', un) ∧ Formatted s'.flash (k + m) ∧
      s'.cleanBlkNums = k + m := by
  induction m generalizing k s with
  | zero => exact ⟨s, by rw [Nat.zero_add]; rfl, h, hcount⟩
  | succ m ih =>
    have hturn : initBlockFit z (s, un) k = .ok (s.kvBlockFormat k, un) := by
      unfold initBlockFit
      dsimp only
      rw [h.erased (k * blkSize) (Nat.le_refl _), if_neg (by decide), kvBlockFormatFit_eq (by omega)]
      rfl
    obtain ⟨s', hrun, hformatted, hcount'⟩ := ih h.format (by rw [← hcount]; rfl) (by omega)
    rw [show k + 1 + m = k + (m + 1) by omega] at hrun hformatted hcount'
    refine ⟨s', ?_, hformatted, hcount'⟩
    rw [show m + 1 + r = m + r + 1 by omega]
    rw [initBlocksFit, hturn, ok_bind, fit8_bind (by omega)]
    exact hrun

theorem Formatted.blkState {b : ℕ} {state : UInt8} (h : Formatted s.flash k) (hb : b < k) (hstate : ¬ InvalidBlkState state) :
    Formatted (s.kvStateSet (b * blkSize) state).flash k := by
  have hout : ∀ o, o ≠ b * blkSize + 1 → (s.kvStateSet (b * blkSize) state).flash o = s.flash o := by
    intro o ho
    refine rawWrite_out ?_
    rw [List.length_singleton]
    omega
  refine ⟨fun b' hb' => ?_, fun b' hb' => ?_, fun b' hb' => ?_, fun o ho => ?_⟩
  · rw [hout _ (by unfold blkSize; omega)]
    exact h.magic b' hb'
  · by_cases hself : b' = b
    · have hin : (s.kvStateSet (b * blkSize) state).flash (b * blkSize + 1) = state := by
        have hsame : memcpy s.flash (b * blkSize + 1) (fun i => [state].getD i 0) 1 (b * blkSize + 1) = state := by
          rw [memcpy_in (Nat.le_refl _) (by omega), Nat.sub_self]
          rfl
        exact hsame
      rwa [hself, hin]
    · rw [hout _ (by unfold blkSize; omega)]
      exact h.state b' hb'
  · rw [hout _ (by unfold blkSize blkHeaderSize; omega), hout _ (by unfold blkSize blkHeaderSize; omega)]
    exact h.empty b' hb'
  · rw [hout o (by unfold blkSize at *; omega)]
    exact h.erased o ho

theorem traverse_empty {func : ItemFuncFit} (hk : k < 15) (h₀ : s.flash (k * blkSize + blkHeaderSize) = 0xFF)
    (h1 : s.flash (k * blkSize + blkHeaderSize + 1) = 0xFF) :
    kvItemTraverseFit z func k s = .ok (traverseEnd s k (k * blkSize + blkHeaderSize), none) := by
  have hroom : k * blkSize + blkSize > k * blkSize + blkHeaderSize + itemHeaderSize := by
    unfold blkSize blkHeaderSize itemHeaderSize
    omega
  have hturns : blkSize / itemHeaderSize = 511 + 1 := by decide
  unfold kvItemTraverseFit
  rw [fit8_bind (by omega), fit16_bind (by unfold blkSize blkHeaderSize; omega), fit16_bind (by unfold blkSize; omega), hturns]
  unfold traverseLoopFit
  rw [if_pos hroom]
  rw [if_pos ⟨h₀, h1⟩]
  rfl

theorem Formatted.turn (h : Formatted s.flash 16) (un : List ℕ) (hk : k < 15) :
    ∃ s' un', initBlockFit z (s, un) k = .ok (s', un') ∧ s'.flash = s.flash := by
  obtain ⟨h₀, h1⟩ := h.empty k (by omega)
  unfold initBlockFit
  dsimp only
  rw [if_pos (h.magic k (by omega)), if_neg (h.state k (by omega))]
  have hrun : kvItemTraverseFit z itemRecoveryCbFit k (s.setBlkState k (s.flash (k * blkSize + 1))) = _ := traverse_empty hk h₀ h1
  rw [hrun, ok_bind]
  dsimp only
  split_ifs
  · exact ⟨_, _, rfl, rfl⟩
  · exact ⟨_, _, rfl, rfl⟩
  · exact ⟨_, _, rfl, rfl⟩

theorem Formatted.stops (h : Formatted s.flash 16) (un : List ℕ) {m : ℕ} (hm : k + m = 15) (r : ℕ) :
    initBlocksFit z (m + (r + 1)) k (s, un) = .error .wraps := by
  induction m generalizing k s un with
  | zero =>
    obtain rfl : k = 15 := hm
    rw [Nat.zero_add]
    unfold initBlocksFit initBlockFit
    rw [if_pos (h.magic 15 (by decide)), if_neg (h.state 15 (by decide))]
    rfl
  | succ m ih =>
    obtain ⟨s₁, un1, hrun, hflash⟩ := h.turn un (z := z) (by omega : k < 15)
    rw [show m + 1 + (r + 1) = m + (r + 1) + 1 by omega]
    unfold initBlocksFit
    rw [hrun, ok_bind, fit8_bind (by omega)]
    exact ih (hflash ▸ h) un1 (by omega)

theorem formatted_erased : Formatted erased 0 :=
  ⟨fun b hb => absurd hb (Nat.not_lt_zero b), fun b hb => absurd hb (Nat.not_lt_zero b),
    fun b hb => absurd hb (Nat.not_lt_zero b), fun _ _ => rfl⟩

theorem aosKvInitFit_first (hz : 17 ≤ z.blkNums) : aosKvInitFit z erased = .error .wraps := by
  obtain ⟨r, hr⟩ := Nat.exists_eq_add_of_le hz
  obtain ⟨s, hrun, hformatted, -⟩ := formatted_erased.blocks (z := z) (s := .boot erased) rfl [] (m := 16) (by decide) (1 + r)
  have hturn : initBlockFit z (s, []) 16 = .error .wraps := by
    unfold initBlockFit
    dsimp only
    rw [hformatted.erased (16 * blkSize) (Nat.le_refl _), if_neg (by decide)]
    rfl
  unfold aosKvInitFit kvInitFit
  rw [hr, show 17 + r = 16 + (1 + r) by omega, hrun, Nat.add_comm 1 r]
  unfold initBlocksFit
  rw [hturn]
  rfl

theorem aosKvInitFit_formats (hz : z.blkNums = 16) : ∃ s, aosKvInitFit z erased = .ok s ∧ Formatted s.flash 16 := by
  obtain ⟨s, hrun, hformatted, hcount⟩ := formatted_erased.blocks (z := z) (s := .boot erased) rfl [] (m := 16) (by decide) 0
  have hblocks : initBlocksFit z z.blkNums 0 (.boot erased, []) = .ok (s, []) := by
    rw [hz]
    exact hrun
  have hused : Formatted (({ s with writePos := blkHeaderSize } : KvMgr).kvStateSet (0 * blkSize) blkStateUsed).flash 16 :=
    Formatted.blkState (s := { s with writePos := blkHeaderSize }) hformatted (by decide) (by decide)
  have hinit : kvInitFit z (.boot erased) = initWritePosFit z s := by
    unfold kvInitFit
    rw [hblocks, ok_bind]
    dsimp only
    rw [List.foldlM_nil, pure_bind, if_neg (by rw [hcount]; decide), pure_bind]
  unfold aosKvInitFit
  rw [hinit, initWritePosFit_clean (by rw [hcount, hz]), ok_bind]
  rw [fit8_bind (by show blkHeaderSize / blkSize < 2 ^ 8; decide)]
  split_ifs
  · exact ⟨_, rfl, hused⟩
  · exact ⟨_, rfl, hused⟩

/-! ## The widths -/

theorem not_neverWraps (hz : 16 ≤ z.blkNums) : ¬ NeverWraps z := by
  rintro ⟨hfirst, hreached⟩
  rcases Nat.eq_or_lt_of_le hz with heq | hlt
  · obtain ⟨s, hrun, hformatted⟩ := aosKvInitFit_formats heq.symm
    obtain ⟨r, hr⟩ : ∃ r, z.blkNums = 15 + (r + 1) := ⟨0, heq.symm⟩
    have hagain : aosKvInitFit z s.flash = .error .wraps := by
      unfold aosKvInitFit kvInitFit
      rw [hr, Formatted.stops (s := .boot s.flash) hformatted [] (Nat.zero_add 15) r]
      rfl
    exact absurd ((hreached s (.first hrun)).2 s.flash (.inl rfl) _ hagain) (by decide)
  · exact absurd (hfirst _ (aosKvInitFit_first hlt)) (by decide)

/-- **No position or block index wraps** exactly on partitions of at most 15 blocks. -/
theorem positions_never_wrap_iff (z : KvSize) : NeverWraps z ↔ z.blkNums ≤ 15 := by
  constructor
  · intro h
    by_contra hlt
    exact not_neverWraps (by omega) h
  · intro h
    exact neverWraps_config (z.config h)

/-- 64 KiB are too many. -/
theorem positions_wrap : ¬ ∀ z : KvSize, NeverWraps z := by
  intro h
  exact not_neverWraps (z := ⟨16, 4, by decide, by decide⟩) (Nat.le_refl 16) (h _)

end Kv
