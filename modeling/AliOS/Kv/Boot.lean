/-
  Key-value store: `aos_kv_init` on a partition of chained blocks.

  `Booting c k s un rows` says that the first loop of `kv_init` has come to the
  block `k`, with the blocks `un` on its stack.  The same holds through the second
  loop, with what is left of the stack, and the last one finds a block to write to.
-/
import AliOS.Kv.Calls

namespace Kv

open Lib

variable {c : KvConfig} {rows : ℕ → List ℕ} {s s' : KvMgr} {f : Flash} {k u : ℕ} {un : List ℕ}

/-! ## The blocks that are counted -/

variable (c) in
/-- The first loop of `kv_init` has come to the block `k`. -/
structure Booting (k : ℕ) (s : KvMgr) (un : List ℕ) (rows : ℕ → List ℕ) : Prop extends Imgs c s rows where
  space : ∀ b < k, (s.blockInfo b).space = blkSize - (blkHeaderSize + (rows b).sum)
  state : ∀ b < k, ¬ InvalidBlkState (s.blockInfo b).state
  todo : ∀ b, k ≤ b → (s.blockInfo b).state = 0
  clean : ∀ b < k, (s.blockInfo b).state = blkStateClean → b ∉ un → rows b = []
  unclean : ∀ b ∈ un, b < k ∧ (s.blockInfo b).state = blkStateClean
  nodup : un.Nodup
  count : s.cleanBlkNums = (counted c s un).card

theorem counted_congr {un' : List ℕ} (h : ∀ b, ((s'.blockInfo b).state = blkStateClean ∧ b ∉ un') ↔
    ((s.blockInfo b).state = blkStateClean ∧ b ∉ un)) : counted c s' un' = counted c s un := by
  ext b
  rw [mem_counted, mem_counted, h b]

theorem counted_insert {un' : List ℕ} (hu : u < c.blkNums) (hself : (s'.blockInfo u).state = blkStateClean ∧ u ∉ un')
    (h : ∀ b, b ≠ u → (((s'.blockInfo b).state = blkStateClean ∧ b ∉ un') ↔
      ((s.blockInfo b).state = blkStateClean ∧ b ∉ un))) : counted c s' un' = insert u (counted c s un) := by
  ext b
  rw [Finset.mem_insert, mem_counted, mem_counted]
  by_cases hb : b = u
  · rw [hb]
    exact iff_of_true ⟨hu, hself⟩ (.inl rfl)
  · rw [h b hb, or_iff_right hb]

theorem Booting.not_counted (h : Booting c k s un rows) : k ∉ counted c s un := by
  rw [mem_counted, h.todo k (Nat.le_refl k)]
  rintro ⟨-, hc, -⟩
  exact absurd hc (by decide)

theorem Booting.not_unclean (h : Booting c k s un rows) : k ∉ un := fun hk => absurd (h.unclean k hk).1 (Nat.lt_irrefl k)

/-- **A block is formatted**: the next one, one of the stack, or any that is not counted. -/
theorem Booting.format (h : Booting c k s un rows) {k' : ℕ} {un' : List ℕ} (hu : u < c.blkNums)
    (hk : ∀ b, b < k' ↔ b < k ∨ b = u) (hun : ∀ b, b ∈ un' ↔ b ∈ un ∧ b ≠ u) (hnodup : un'.Nodup)
    (hnot : u ∉ counted c s un) : Booting c k' (s.kvBlockFormat u) un' (Function.update rows u []) := by
  have hinfo : ∀ b, b ≠ u → (s.kvBlockFormat u).blockInfo b = s.blockInfo b := fun b hb => by
    rw [kvBlockFormat_blockInfo, if_neg hb]
  have hself : (s.kvBlockFormat u).blockInfo u = ⟨blkSize - blkHeaderSize, blkStateClean⟩ := by
    rw [kvBlockFormat_blockInfo, if_pos rfl]
  refine ⟨h.toImgs.format u, fun b hb => ?_, fun b hb => ?_, fun b hb => ?_, fun b hb hc hno => ?_, fun b hb => ?_, hnodup, ?_⟩
  · by_cases hbu : b = u
    · rw [hbu, hself, Function.update_self, List.sum_nil]
      rfl
    · rw [hinfo b hbu, Function.update_of_ne hbu]
      exact h.space b (((hk b).1 hb).resolve_right hbu)
  · by_cases hbu : b = u
    · rw [hbu, hself]
      exact (by decide : ¬ InvalidBlkState blkStateClean)
    · rw [hinfo b hbu]
      exact h.state b (((hk b).1 hb).resolve_right hbu)
  · have hbk : ¬ (b < k ∨ b = u) := fun hlt => absurd ((hk b).2 hlt) (Nat.not_lt.2 hb)
    obtain ⟨hge, hbu⟩ := not_or.1 hbk
    rw [hinfo b hbu]
    exact h.todo b (Nat.not_lt.1 hge)
  · by_cases hbu : b = u
    · rw [hbu, Function.update_self]
    · rw [hinfo b hbu] at hc
      rw [Function.update_of_ne hbu]
      exact h.clean b (((hk b).1 hb).resolve_right hbu) hc fun hm => hno ((hun b).2 ⟨hm, hbu⟩)
  · obtain ⟨hm, hbu⟩ := (hun b).1 hb
    rw [hinfo b hbu]
    exact ⟨(hk b).2 (.inl (h.unclean b hm).1), (h.unclean b hm).2⟩
  · have hcounted : counted c (s.kvBlockFormat u) un' = insert u (counted c s un) := by
      refine counted_insert hu ⟨by rw [hself], fun hm => ((hun u).1 hm).2 rfl⟩ fun b hb => ?_
      rw [hinfo b hb, hun b, and_iff_left hb]
    rw [hcounted, Finset.card_insert_of_notMem hnot, ← h.count]
    rfl

/-! ## The first loop -/

theorem row_nil {pos : ℕ} {ns : List ℕ} (h : Row c f pos ns) (hsum : ns.sum = 0) : ns = [] := by
  cases ns with
  | nil => rfl
  | cons n ns =>
    have hge := h.1.size_ge
    rw [List.sum_cons] at hsum
    unfold itemHeaderSize at hge
    omega

theorem walks_recovery (s : KvMgr) (hk : k < c.blkNums) : Walks c itemRecoveryCbFit k (rows k)
    (fun _ s' => Imgs c s' rows ∧ Dirtied s s') fun _ _ => False where
  chained hJ := hJ.1.chained k hk
  skip hJ := ⟨hJ.1.markDirty k, hJ.2.trans (.markDirty _ k)⟩
  func := by
    intro pos n ns s₁ hJ hhead hstart hmod hend hnormal
    have hlast := c.le_fifteen
    have hlt := (hJ.1.chained k hk).end_lt
    obtain ⟨s₂, hrun, himgs, hd⟩ := recoveryCb_keeps hJ.1 hhead hmod (by unfold blkSize at *; omega) hnormal
    exact .inl ⟨s₂, _, hrun, himgs, hJ.2.trans hd⟩

variable (c) in
/-- The block `k` with the state `state` in its header is traversed. -/
structure Traversed (s : KvMgr) (rows : ℕ → List ℕ) (k : ℕ) (state : UInt8) (s' : KvMgr) : Prop extends Imgs c s' rows where
  count : s'.cleanBlkNums = s.cleanBlkNums
  space : ∀ b, b ≠ k → (s'.blockInfo b).space = (s.blockInfo b).space
  space_self : (s'.blockInfo k).space = blkSize - (blkHeaderSize + (rows k).sum)
  states : ∀ b, b ≠ k → (s'.blockInfo b).state = (s.blockInfo b).state ∨
    (s.blockInfo b).state = blkStateUsed ∧ (s'.blockInfo b).state = blkStateDirty
  state_self : (s'.blockInfo k).state = state ∨ state = blkStateUsed ∧ (s'.blockInfo k).state = blkStateDirty

theorem Booting.traverse (h : Booting c k s un rows) (hk : k < c.blkNums) (state : UInt8) :
    ∃ s', kvItemTraverseFit c.size itemRecoveryCbFit k (s.setBlkState k state) = .ok (s', none) ∧
      Traversed c s rows k state s' := by
  have hlast := c.le_fifteen
  have himgs : Imgs c (s.setBlkState k state) rows := h.toImgs.same rfl rfl
  rcases traverse_chained (by omega) (walks_recovery (s.setBlkState k state) hk) ⟨himgs, .refl _⟩ with
    ⟨s₁, ⟨himgs1, hd⟩, hrun⟩ | ⟨s₁, item, hno, -⟩
  · refine ⟨_, hrun, himgs1.same rfl rfl, hd.cleanBlkNums, fun b hb => ?_, ?_, fun b hb => ?_, ?_⟩
    · rw [setSpace_space, if_neg hb, hd.space b, setBlkState_space]
    · rw [setSpace_space, if_pos rfl]
    · have hstate := hd.state b
      rw [setSpace_state]
      rwa [setBlkState_state, if_neg hb] at hstate
    · have hstate := hd.state k
      rw [setSpace_state]
      rwa [setBlkState_state, if_pos rfl] at hstate
  · exact absurd hno id

section
variable {state : UInt8} (ht : Traversed c s rows k state s')
include ht

theorem Traversed.clean_iff {b : ℕ} (hb : b ≠ k) :
    (s'.blockInfo b).state = blkStateClean ↔ (s.blockInfo b).state = blkStateClean := by
  rcases ht.states b hb with he | ⟨hused, hdirty⟩
  · rw [he]
  · rw [hused, hdirty]
    decide

theorem Traversed.clean_self : (s'.blockInfo k).state = blkStateClean ↔ state = blkStateClean := by
  rcases ht.state_self with he | ⟨hused, hdirty⟩
  · rw [he]
  · rw [hused, hdirty]
    decide

theorem Traversed.valid {b : ℕ} (hb : b ≠ k) (hvalid : ¬ InvalidBlkState (s.blockInfo b).state) :
    ¬ InvalidBlkState (s'.blockInfo b).state := by
  rcases ht.states b hb with he | ⟨-, hdirty⟩
  · rwa [he]
  · rw [hdirty]
    decide

theorem Traversed.valid_self (hvalid : ¬ InvalidBlkState state) : ¬ InvalidBlkState (s'.blockInfo k).state := by
  rcases ht.state_self with he | ⟨-, hdirty⟩
  · rwa [he]
  · rw [hdirty]
    decide

end

theorem Booting.next (h : Booting c k s un rows) {state : UInt8} {un' : List ℕ} {n : ℕ}
    (ht : Traversed c s rows k state s') (hstate : ¬ InvalidBlkState state)
    (hun : un' = un ∧ (state = blkStateClean → rows k = []) ∨ un' = k :: un ∧ state = blkStateClean)
    (hcount : n = (counted c s' un').card) : Booting c (k + 1) { s' with cleanBlkNums := n } un' rows := by
  have hlt : ∀ {b}, b < k + 1 → b ≠ k → b < k := fun hb hne => Nat.lt_of_le_of_ne (Nat.lt_succ_iff.1 hb) hne
  refine ⟨ht.toImgs.same rfl rfl, fun b hb => ?_, fun b hb => ?_, fun b hb => ?_, fun b hb hc hno => ?_, fun b hb => ?_, ?_, hcount⟩
  · by_cases hbk : b = k
    · rw [hbk]
      exact ht.space_self
    · exact (ht.space b hbk).trans (h.space b (hlt hb hbk))
  · by_cases hbk : b = k
    · rw [hbk]
      exact ht.valid_self hstate
    · exact ht.valid hbk (h.state b (hlt hb hbk))
  · have hzero := h.todo b (by omega)
    rcases ht.states b (by omega) with he | ⟨hused, -⟩
    · exact he.trans hzero
    · rw [hzero] at hused
      exact absurd hused (by decide)
  · have hc' : (s'.blockInfo b).state = blkStateClean := hc
    by_cases hbk : b = k
    · subst hbk
      rcases hun with ⟨-, hnil⟩ | ⟨rfl, -⟩
      · exact hnil (ht.clean_self.1 hc')
      · exact absurd List.mem_cons_self hno
    · refine h.clean b (hlt hb hbk) ((ht.clean_iff hbk).1 hc') fun hm => hno ?_
      rcases hun with ⟨rfl, -⟩ | ⟨rfl, -⟩
      · exact hm
      · exact List.mem_cons_of_mem _ hm
  · have hold : b ∈ un → b < k + 1 ∧ (s'.blockInfo b).state = blkStateClean := by
      intro hm
      obtain ⟨hbk, hc⟩ := h.unclean b hm
      exact ⟨Nat.lt_succ_of_lt hbk, (ht.clean_iff (Nat.ne_of_lt hbk)).2 hc⟩
    rcases hun with ⟨rfl, -⟩ | ⟨rfl, hc⟩
    · exact hold hb
    · rcases List.mem_cons.1 hb with rfl | hm
      · exact ⟨Nat.lt_succ_self _, ht.clean_self.2 hc⟩
      · exact hold hm
  · rcases hun with ⟨rfl, -⟩ | ⟨rfl, -⟩
    · exact h.nodup
    · exact List.nodup_cons.2 ⟨h.not_unclean, h.nodup⟩

theorem Booting.turn (h : Booting c k s un rows) (hk : k < c.blkNums) :
    ∃ s' un' rows', initBlockFit c.size (s, un) k = .ok (s', un') ∧ Booting c (k + 1) s' un' rows' := by
  have hlast := c.le_fifteen
  have hformat : Booting c (k + 1) (s.kvBlockFormat k) un (Function.update rows k []) := by
    refine h.format hk (fun b => ?_) (fun b => ?_) h.nodup h.not_counted
    · omega
    · refine ⟨fun hb => ⟨hb, ?_⟩, fun hb => hb.1⟩
      rintro rfl
      exact h.not_unclean hb
  unfold initBlockFit
  dsimp only
  by_cases hmagic : s.flash (k * blkSize) = blkMagicNum
  · rw [if_pos hmagic]
    by_cases hinvalid : InvalidBlkState (s.flash (k * blkSize + 1))
    · rw [if_pos hinvalid, kvBlockFormatFit_eq (by omega)]
      exact ⟨_, _, _, rfl, hformat⟩
    rw [if_neg hinvalid]
    generalize s.flash (k * blkSize + 1) = state at hinvalid
    obtain ⟨s', hrun, ht⟩ := h.traverse hk state
    have hzero : (s.blockInfo k).state ≠ blkStateClean := by
      rw [h.todo k (Nat.le_refl k)]
      decide
    rw [hrun, ok_bind]
    dsimp only
    by_cases hstate : state = blkStateClean
    · rw [if_pos hstate, ht.space_self]
      by_cases hempty : blkSize - (blkHeaderSize + (rows k).sum) ≠ blkSize - blkHeaderSize
      · -- it holds items
        rw [if_pos hempty]
        refine ⟨s', _, rows, rfl, h.next ht hinvalid (.inr ⟨rfl, hstate⟩) ?_⟩
        rw [ht.count, h.count]
        refine congrArg _ (counted_congr fun b => ?_).symm
        by_cases hb : b = k
        · rw [hb]
          exact iff_of_false (fun he => he.2 List.mem_cons_self) fun he => hzero he.1
        · rw [ht.clean_iff hb, List.mem_cons, not_or, and_iff_right hb]
      · rw [if_neg hempty]
        have hroom := (h.chained k hk).room
        have hnil : rows k = [] := row_nil (h.chained k hk).row (by omega)
        refine ⟨_, _, rows, rfl, h.next ht hinvalid (.inl ⟨rfl, fun _ => hnil⟩) ?_⟩
        have hins : counted c s' un = insert k (counted c s un) :=
          counted_insert hk ⟨ht.clean_self.2 hstate, h.not_unclean⟩ fun b hb => by rw [ht.clean_iff hb]
        rw [hins, Finset.card_insert_of_notMem h.not_counted, ht.count, h.count]
    · rw [if_neg hstate]
      refine ⟨s', _, rows, rfl, h.next ht hinvalid (.inl ⟨rfl, fun hc => absurd hc hstate⟩) ?_⟩
      rw [ht.count, h.count]
      refine congrArg _ (counted_congr fun b => ?_).symm
      by_cases hb : b = k
      · rw [hb]
        exact iff_of_false (fun he => hstate (ht.clean_self.1 he.1)) fun he => hzero he.1
      · rw [ht.clean_iff hb]
  · rw [if_neg hmagic, kvBlockFormatFit_eq (by omega)]
    exact ⟨_, _, _, rfl, hformat⟩

theorem Booting.blocks (h : Booting c k s un rows) {m : ℕ} (hm : k + m = c.blkNums) :
    ∃ s' un' rows', initBlocksFit c.size m k (s, un) = .ok (s', un') ∧ Booting c c.blkNums s' un' rows' := by
  have hlast := c.le_fifteen
  induction m generalizing k s un rows with
  | zero =>
    obtain rfl : k = c.blkNums := hm
    exact ⟨s, un, rows, rfl, h⟩
  | succ m ih =>
    obtain ⟨s₁, un1, rows1, hrun, h1⟩ := h.turn (by omega)
    unfold initBlocksFit
    rw [hrun, ok_bind, fit8_bind (by omega)]
    exact ih h1 (by omega)

/-! ## The second loop -/

theorem Booting.unclean_turn (h : Booting c c.blkNums s (u :: un) rows) :
    ∃ s' rows', initUncleanFit s u = .ok s' ∧ Booting c c.blkNums s' un rows' := by
  have hlast := c.le_fifteen
  obtain ⟨hu, hclean⟩ := h.unclean u List.mem_cons_self
  obtain ⟨hno, hnodup⟩ := List.nodup_cons.1 h.nodup
  unfold initUncleanFit
  rw [fit8_bind (by omega)]
  by_cases hreserve : s.cleanBlkNums ≥ kvGcReserved
  · -- it becomes dirty
    rw [if_pos hreserve, kvStateSetFit_eq (blkStart_lt (by omega))]
    have hstate := setBlkState_state (s.kvStateSet (u * blkSize) blkStateDirty) u blkStateDirty
    have hspace := setBlkState_space (s.kvStateSet (u * blkSize) blkStateDirty) u blkStateDirty
    have hold : ∀ {b}, b ∈ un → b ≠ u := by
      rintro b hb rfl
      exact hno hb
    refine ⟨_, rows, rfl, (h.toImgs.op rfl (h.chained.blkState u _)).same rfl rfl, fun b hb => (hspace b).trans (h.space b hb),
      fun b hb => ?_, fun b hb => ?_, fun b hb hc hb' => ?_, fun b hb => ?_, hnodup, ?_⟩
    · rw [hstate]
      split_ifs
      · decide
      · exact h.state b hb
    · rw [hstate, if_neg (by omega)]
      exact h.todo b hb
    · rw [hstate] at hc
      split_ifs at hc with hbu
      · exact absurd hc (by decide)
      · exact h.clean b hb hc fun hm => (List.mem_cons.1 hm).elim hbu hb'
    · rw [hstate, if_neg (hold hb)]
      exact h.unclean b (List.mem_cons_of_mem _ hb)
    · refine h.count.trans (congrArg _ (counted_congr fun b => ?_).symm)
      rw [hstate]
      by_cases hbu : b = u
      · rw [if_pos hbu, hbu]
        exact iff_of_false (fun he => absurd he.1 (by decide)) fun he => he.2 List.mem_cons_self
      · rw [if_neg hbu, List.mem_cons, not_or, and_iff_right hbu]
        rfl
  · -- it is formatted
    rw [if_neg hreserve, kvBlockFormatFit_eq (by omega)]
    refine ⟨_, _, rfl, h.format hu (fun b => ?_) (fun b => ?_) hnodup fun hm => (mem_counted.1 hm).2.2 List.mem_cons_self⟩
    · refine ⟨.inl, fun hb => hb.elim id ?_⟩
      rintro rfl
      exact hu
    · rw [List.mem_cons]
      constructor
      · intro hb
        refine ⟨.inr hb, ?_⟩
        rintro rfl
        exact hno hb
      · rintro ⟨hb, hne⟩
        exact hb.resolve_left hne

theorem Booting.uncleans (h : Booting c c.blkNums s un rows) :
    ∃ s' rows', un.foldlM initUncleanFit s = .ok s' ∧ Booting c c.blkNums s' [] rows' := by
  induction un generalizing s rows with
  | nil => exact ⟨s, rows, rfl, h⟩
  | cons u un ih =>
    obtain ⟨s₁, rows1, hrun, h1⟩ := h.unclean_turn
    rw [List.foldlM_cons, hrun, ok_bind]
    exact ih h1

/-! ## The write position -/

theorem initNextFit_eq (c : KvConfig) (s : KvMgr) {i : ℕ} (hi : i < c.blkNums) : initNextFit c.size s i =
    .ok (decide (((s.blockInfo i).state = blkStateUsed ∨ (s.blockInfo i).state = blkStateDirty) ∧
      (s.blockInfo (if i + 1 = c.blkNums then 0 else i + 1)).state = blkStateClean)) := by
  have hlast := c.le_fifteen
  unfold initNextFit
  by_cases hused : (s.blockInfo i).state = blkStateUsed ∨ (s.blockInfo i).state = blkStateDirty
  · rw [if_pos hused]
    rw [size_blkNums, fit8_bind (by split_ifs <;> omega)]
    simp only [hused, true_and]
    rfl
  · rw [if_neg hused]
    simp only [hused, false_and, decide_false]
    rfl

theorem initWritePosFit_clean {z : KvSize} (hall : s.cleanBlkNums = z.blkNums) : initWritePosFit z s =
    .ok { (({ s with writePos := blkHeaderSize } : KvMgr).kvStateSet (0 * blkSize) blkStateUsed).setBlkState 0 blkStateUsed with
      cleanBlkNums := s.cleanBlkNums - 1 } := by
  have hstart : blkHeaderSize / blkSize * blkSize = 0 * blkSize := by decide
  unfold initWritePosFit
  rw [if_pos hall]
  dsimp only
  rw [hstart, kvStateSetFit_eq (blkStart_lt (by decide)), ok_bind]
  rfl

theorem Booting.writePos (h : Booting c c.blkNums s [] rows) (hcount : 0 < s.cleanBlkNums) :
    ∃ s', initWritePosFit c.size s = .ok s' ∧ Good c s' rows := by
  have htwo := c.two_le
  have hlast := c.le_fifteen
  have hnil : ∀ b < c.blkNums, (s.blockInfo b).state = blkStateClean → rows b = [] :=
    fun b hb hc => h.clean b hb hc List.not_mem_nil
  have hmem : ∀ b, b ∈ counted c s [] ↔ b < c.blkNums ∧ (s.blockInfo b).state = blkStateClean := fun b => by
    rw [mem_counted, and_iff_left List.not_mem_nil]
  by_cases hall : s.cleanBlkNums = c.blkNums
  · -- all blocks are clean
    have hsub : counted c s [] ⊆ Finset.range c.blkNums := Finset.filter_subset ..
    have heq := Finset.eq_of_subset_of_card_le hsub (by rw [← h.count, hall, Finset.card_range])
    have h0 : (0 : ℕ) ∈ counted c s [] := by
      rw [heq, Finset.mem_range]
      omega
    obtain ⟨hpos, hclean⟩ := (hmem 0).1 h0
    rw [initWritePosFit_clean (z := c.size) hall]
    have himgs : Imgs c { s with writePos := blkHeaderSize } rows := h.toImgs.same rfl rfl
    refine ⟨_, rfl, (himgs.op rfl (himgs.chained.blkState 0 blkStateUsed)).same rfl rfl, fun b hb => ?_, fun b hb hc => ?_,
      0, hpos, ?_, ?_⟩
    · exact (setBlkState_space _ 0 blkStateUsed b).trans (h.space b hb)
    · have hstate := (setBlkState_state _ 0 blkStateUsed b).symm.trans hc
      split_ifs at hstate with hb0
      · exact absurd hstate (by decide)
      · exact hnil b hb hstate
    · intro hc
      have hstate := (setBlkState_state _ 0 blkStateUsed 0).symm.trans hc
      rw [if_pos rfl] at hstate
      exact absurd hstate (by decide)
    · rw [hnil 0 hpos hclean]
      rfl
  · unfold initWritePosFit
    rw [size_blkNums, if_neg hall]
    -- a clean block, and one that is not
    obtain ⟨b, hb⟩ := Finset.card_pos.1 (by rw [← h.count]; exact hcount : 0 < (counted c s []).card)
    have hj : ∃ j < c.blkNums, ¬ (s.blockInfo j).state = blkStateClean := by
      by_contra hno
      push Not at hno
      have heq : counted c s [] = Finset.range c.blkNums := by
        ext j
        rw [hmem, Finset.mem_range]
        exact ⟨fun he => he.1, fun hj => ⟨hj, hno j hj⟩⟩
      rw [h.count, heq, Finset.card_range] at hall
      exact hall rfl
    obtain ⟨j, hj, hjno⟩ := hj
    let clean : ℕ → Prop := fun b => (s.blockInfo b).state = blkStateClean
    have hcb : clean b := ((hmem b).1 hb).2
    have hcj : ¬ clean j := hjno
    obtain ⟨i, hi, hino, hnext⟩ := exists_clean_next ((hmem b).1 hb).1 hj hcb hcj
    have hused : (s.blockInfo i).state = blkStateUsed ∨ (s.blockInfo i).state = blkStateDirty := by
      have hvalid := h.state i hi
      by_contra hno
      obtain ⟨h1, h2⟩ := not_or.1 hno
      exact hvalid ⟨h1, hino, h2⟩
    rcases forBlks_spec (fun j hj => initNextFit_eq c s hj) (by omega) (Nat.zero_add c.blkNums) with
      ⟨-, hno⟩ | ⟨w, hw, hrun, hfound⟩
    · exact absurd (decide_eq_false_iff_not.1 (hno i (Nat.zero_le i) hi)) (not_not.2 ⟨hused, hnext⟩)
    · obtain ⟨hstate, -⟩ := of_decide_eq_true hfound
      have hroom := (h.chained w hw).room
      have hend := (h.chained w hw).end_lt
      have hpos : w * blkSize + blkSize - (s.blockInfo w).space = rowEnd w (rows w) := by
        rw [h.space w hw]
        unfold rowEnd
        omega
      rw [hrun, ok_bind]
      dsimp only
      rw [hpos, fit16_bind (by unfold blkSize at *; omega)]
      refine ⟨_, rfl, h.toImgs.same rfl rfl, h.space, hnil, w, hw, ?_, rfl⟩
      rcases hstate with he | he
      · exact fun hc => absurd (he.symm.trans hc) (by decide)
      · exact fun hc => absurd (he.symm.trans hc) (by decide)

/-! ## `aos_kv_init` -/

theorem booting_boot (h : AllChained c f rows) : Booting c 0 (.boot f) [] rows where
  chained := h
  past f hf := absurd hf List.not_mem_nil
  space b hb := absurd hb (Nat.not_lt_zero b)
  state b hb := absurd hb (Nat.not_lt_zero b)
  todo _ _ := rfl
  clean b hb := absurd hb (Nat.not_lt_zero b)
  unclean b hb := absurd hb List.not_mem_nil
  nodup := List.nodup_nil
  count := by
    refine (Finset.card_eq_zero.2 ?_).symm
    ext b
    rw [mem_counted]
    refine iff_of_false (fun hb => ?_) (Finset.notMem_empty b)
    exact absurd hb.2.1 (by decide : (0 : UInt8) ≠ blkStateClean)

theorem aosKvInitFit_good (h : AllChained c f rows) : ∃ s rows', aosKvInitFit c.size f = .ok s ∧ Good c s rows' := by
  have hlast := c.le_fifteen
  have htwo := c.two_le
  obtain ⟨s₁, un, rows1, hrun1, h1⟩ := (booting_boot h).blocks (Nat.zero_add c.blkNums)
  obtain ⟨s₂, rows2, hrun2, h2⟩ := h1.uncleans
  -- one block is formatted if none is clean
  have hthird : ∃ s3 rows3, (if s₂.cleanBlkNums = 0 then kvBlockFormatFit s₂ 0 >>= initWritePosFit c.size
      else pure s₂ >>= initWritePosFit c.size) = initWritePosFit c.size s3 ∧
      Booting c c.blkNums s3 [] rows3 ∧ 0 < s3.cleanBlkNums := by
    by_cases hzero : s₂.cleanBlkNums = 0
    · rw [if_pos hzero, kvBlockFormatFit_eq (by decide)]
      have hcounted : counted c s₂ [] = ∅ := Finset.card_eq_zero.1 (h2.count.symm.trans hzero)
      refine ⟨_, _, rfl, h2.format (by omega) (fun b => ?_) (fun b => ?_) List.nodup_nil ?_, Nat.succ_pos _⟩
      · omega
      · exact iff_of_false List.not_mem_nil fun hb => absurd hb.1 List.not_mem_nil
      · rw [hcounted]
        exact Finset.notMem_empty 0
    · rw [if_neg hzero]
      exact ⟨s₂, rows2, rfl, h2, Nat.pos_of_ne_zero hzero⟩
  obtain ⟨s3, rows3, hrun3, h3, hpos⟩ := hthird
  obtain ⟨s4, hrun4, hgood⟩ := h3.writePos hpos
  have hblk := hgood.writeBlk
  have hinit : kvInitFit c.size (.boot f) = .ok s4 := by
    unfold kvInitFit
    rw [size_blkNums, hrun1, ok_bind]
    dsimp only
    rw [hrun2, ok_bind]
    exact hrun3.trans hrun4
  unfold aosKvInitFit
  rw [hinit, ok_bind]
  rw [fit8_bind (by omega)]
  split_ifs
  · exact ⟨_, rows3, rfl, hgood.same rfl rfl rfl rfl⟩
  · exact ⟨_, rows3, rfl, hgood⟩

end Kv
