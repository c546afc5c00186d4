/-
  Key-value store: what a garbage collection with failing calls loses.

  The traversal stops at the first call that fails, and the collection formats
  the block all the same.  So the items behind that point are lost, unless the
  erase fails, too; the items `copied` are a function of the pattern.
-/
import AliOS.Kv.Fault
import AliOS.Kv.Refine

namespace Kv

open Lib

variable {c : KvConfig} {p : FaultPattern} {f : Flash} {d d' : Log} {s : KvMgr} {io io' : KvIo}
  {g v pos end_ fuel m r w : ℕ} {it x : Item} {its pre rest l : List Item} {M : KvMap}

/-! ## The items that are copied -/

variable (p) in
/-- The items that are copied, from the buffer `m`, the read `r` and the write
    `w` on: an item takes a buffer and a read, and its copy takes one of each. -/
def copied : ℕ → ℕ → ℕ → List Item → List Item
  | _, _, _, [] => []
  | m, r, w, it :: its =>
    if p.malloc m ∨ p.read r then []
    else if it.live then
      if p.malloc (m + 1) ∨ p.read (r + 1) ∨ p.write w then []
      else it :: copied (m + 2) (r + 2) (w + 1) its
    else copied (m + 1) (r + 1) w its

/-- The number of items up to the last valid one. -/
def reach : List Item → ℕ
  | [] => 0
  | it :: its => if liveItems (it :: its) = [] then 0 else reach its + 1

theorem reach_eq_zero (h : liveItems its = []) : reach its = 0 := by
  cases its with
  | nil => rfl
  | cons it its => rw [reach, if_pos h]

theorem copied_cut : copied p m r w its <+: liveItems its := by
  induction its generalizing m r w with
  | nil => exact List.nil_prefix
  | cons it its ih =>
    rw [copied]
    split
    · exact List.nil_prefix
    · split
      · rename_i hl
        rw [liveItems_cons_live hl]
        split
        · exact List.nil_prefix
        · exact List.cons_prefix_cons.2 ⟨rfl, ih⟩
      · rename_i hl
        rw [liveItems_cons_dead (by simpa using hl)]
        exact ih

theorem forall_lt_succ {P : ℕ → Prop} {n : ℕ} :
    (∀ k < n + 1, P k) ↔ P 0 ∧ ∀ k < n, P (k + 1) := by
  constructor
  · intro h
    exact ⟨h 0 (Nat.succ_pos n), fun k hk => h (k + 1) (by omega)⟩
  · rintro ⟨h0, h⟩ k hk
    cases k with
    | zero => exact h0
    | succ k => exact h k (by omega)

/-- **All are copied** exactly if no call fails that is needed up to the last one. -/
theorem copied_eq_iff : copied p m r w its = liveItems its ↔
    (∀ k < reach its + (liveItems its).length, p.malloc (m + k) = false ∧ p.read (r + k) = false) ∧
      ∀ k < (liveItems its).length, p.write (w + k) = false := by
  induction its generalizing m r w with
  | nil => simp [copied, liveItems, reach]
  | cons it its ih =>
    by_cases hnil : liveItems (it :: its) = []
    · -- nothing to copy
      rw [reach_eq_zero hnil, hnil]
      have := (@copied_cut p m r w (it :: its))
      rw [hnil, List.prefix_nil] at this
      simp [this]
    · have hreach : reach (it :: its) = reach its + 1 := by rw [reach, if_neg hnil]
      rw [copied, hreach]
      cases hl : it.live with
      | true =>
        rw [liveItems_cons_live hl, List.length_cons,
          show reach its + 1 + ((liveItems its).length + 1) =
            reach its + (liveItems its).length + 1 + 1 by omega,
          forall_lt_succ, forall_lt_succ, forall_lt_succ]
        by_cases h0 : p.malloc m ∨ p.read r
        · rw [if_pos h0]
          constructor
          · intro h
            cases h
          · rintro ⟨⟨⟨hm, hr⟩, -⟩, -⟩
            rw [Nat.add_zero] at hm hr
            rcases h0 with h0 | h0 <;> simp [h0] at hm hr
        · rw [if_neg h0, if_pos rfl]
          by_cases h1 : p.malloc (m + 1) ∨ p.read (r + 1) ∨ p.write w
          · rw [if_pos h1]
            constructor
            · intro h
              cases h
            · rintro ⟨⟨-, ⟨hm, hr⟩, -⟩, hw, -⟩
              rw [Nat.add_zero] at hw
              rw [Nat.zero_add] at hm hr
              rcases h1 with h1 | h1 | h1 <;> simp [h1] at hm hr hw
          · rw [if_neg h1, List.cons.injEq, eq_self, true_and, ih]
            simp only [not_or, Bool.not_eq_true] at h0 h1
            simp only [Nat.add_zero, Nat.zero_add, h0, h1, true_and, and_self]
            refine and_congr (forall₂_congr fun k _ => ?_) (forall₂_congr fun k _ => ?_)
            · rw [show m + 2 + k = m + (k + 1 + 1) by omega, show r + 2 + k = r + (k + 1 + 1) by omega]
            · rw [show w + 1 + k = w + (k + 1) by omega]
      | false =>
        rw [liveItems_cons_dead hl, show reach its + 1 + (liveItems its).length =
            reach its + (liveItems its).length + 1 by omega, forall_lt_succ]
        by_cases h0 : p.malloc m ∨ p.read r
        · rw [if_pos h0]
          rw [liveItems_cons_dead hl] at hnil
          constructor
          · intro h
            exact absurd h.symm hnil
          · rintro ⟨⟨⟨hm, hr⟩, -⟩, -⟩
            rw [Nat.add_zero] at hm hr
            rcases h0 with h0 | h0 <;> simp [h0] at hm hr
        · rw [if_neg h0, if_neg (by simp), ih]
          simp only [not_or, Bool.not_eq_true] at h0
          simp only [Nat.add_zero, h0, and_self, true_and]
          refine and_congr (forall₂_congr fun k _ => ?_) Iff.rfl
          rw [show m + 1 + k = m + (k + 1) by omega, show r + 1 + k = r + (k + 1) by omega]

/-! ## The traversal -/

/-- Between `io` and `io'` there are buffers and reads, and nothing else but
    the space that is noted. -/
structure Passed (io io' : KvIo) : Prop extends SameBlks io.mgr io'.mgr where
  writePos : io'.mgr.writePos = io.mgr.writePos
  writes : io'.writes = io.writes
  erases : io'.erases = io.erases

/-- `io` with more buffers and reads behind it. -/
def KvIo.took (io : KvIo) (m r : ℕ) : KvIo := { io with mallocs := io.mallocs + m, reads := io.reads + r }

theorem took_passed {m r : ℕ} : Passed io (io.took m r) := ⟨⟨rfl, fun _ => rfl⟩, rfl, rfl, rfl⟩

theorem traverseLoopIo_nil {func : ItemFuncIo}
    (h : Tail c io.mgr.flash (v * blkSize + blkSize) pos []) :
    ∃ io', traverseLoopIo c p func v fuel pos io = (io', none) ∧ Passed io io' := by
  have hend : ∀ io1 : KvIo, Passed io io1 → Passed io (traverseEndIo io1 v pos) := by
    intro io1 h1
    have hs : SameBlks io1.mgr (traverseEnd io1.mgr v pos) := .setSpace
    refine ⟨⟨hs.flash.trans h1.flash, fun i => (hs.state i).trans (h1.state i)⟩, h1.writePos,
      h1.writes, h1.erases⟩
  cases fuel with
  | zero => exact ⟨_, rfl, hend io ⟨⟨rfl, fun _ => rfl⟩, rfl, rfl, rfl⟩⟩
  | succ fuel =>
    have hfree := h.free
    have hfits := h.fits
    simp only [itemsSize_nil, Nat.add_zero] at hfree hfits
    rw [traverseLoopIo]
    by_cases hlt : v * blkSize + blkSize > pos + itemHeaderSize
    · have hl : pos + 1 < v * blkSize + blkSize := by simp only [itemHeaderSize] at hlt; omega
      have hff : (readItemHdr io.mgr.flash pos).magic = 0xFF ∧
          (readItemHdr io.mgr.flash pos).state = 0xFF :=
        ⟨hfree pos le_rfl hfits, hfree (pos + 1) (by omega) hl⟩
      rw [if_pos hlt, KvIo.aosMalloc]
      cases p.malloc io.mallocs with
      | true => exact ⟨io.took 1 0, rfl, took_passed⟩
      | false =>
        simp only [KvIo.readHdr, Bool.not_false]
        cases p.read io.reads with
        | true => exact ⟨io.took 1 1, rfl, took_passed⟩
        | false =>
          simp only [Bool.false_eq_true, if_false]
          rw [if_pos hff]
          exact ⟨_, rfl, hend (io.took 1 1) took_passed⟩
    · rw [if_neg hlt]
      exact ⟨_, rfl, hend io ⟨⟨rfl, fun _ => rfl⟩, rfl, rfl, rfl⟩⟩

theorem traverseLoopIo_cons {func : ItemFuncIo}
    (h : Tail c io.mgr.flash (v * blkSize + blkSize) pos (it :: rest)) :
    traverseLoopIo c p func v (fuel + 1) pos io =
      if p.malloc io.mallocs then (io.took 1 0, none)
      else if p.read io.reads then (io.took 1 1, none)
      else if it.live then
        match func (it.view pos) (io.took 1 1) with
        | (io, item, .ok) => (io, some item)
        | (io, _, .cont) => traverseLoopIo c p func v fuel (pos + it.size c) io
        | (io, _, _) => (io, none)
      else traverseLoopIo c p func v fuel (pos + it.size c) ((io.took 1 1).markDirty p v) := by
  have hfits := h.fits
  have hsz := it.lt_size c
  have hk := it.key_le
  have hv := it.val_le
  rw [itemsSize_cons] at hfits
  have hhdr := readItemHdr_of_holds h.head
  have hmagic : ¬ (it.hdr.magic = 0xFF ∧ it.hdr.state = 0xFF) := fun hc =>
    absurd (show itemMagicNum = 0xFF from hc.1) (by decide)
  have hlen : ¬ (it.hdr.magic ≠ itemMagicNum ∨ it.hdr.valLen > itemMaxValLen ∨
      it.hdr.keyLen > itemMaxKeyLen) := by
    simp only [Item.hdr]
    rintro (hc | hc | hc)
    · exact hc rfl
    · omega
    · omega
  rw [traverseLoopIo, if_pos (by omega), KvIo.aosMalloc]
  cases p.malloc io.mallocs with
  | true => rfl
  | false =>
    simp only [KvIo.readHdr, Bool.not_false, Bool.false_eq_true, if_false]
    cases p.read io.reads with
    | true => rfl
    | false =>
      simp only [Bool.false_eq_true, if_false, hhdr, if_neg hmagic, if_neg hlen]
      cases hl : it.live with
      | true =>
        have hst : it.hdr.state = itemStateNormal := by simp [Item.hdr, hl]
        rw [if_pos hst]
        rfl
      | false =>
        have hst : it.hdr.state ≠ itemStateNormal := by simp [Item.hdr, hl]; decide
        rw [if_neg hst]
        rfl

theorem itemGcCbIo_view :
    (p.malloc io.mallocs ∨ p.read io.reads ∨ p.write io.writes) ∧
        (∃ io' item res, itemGcCbIo c p (it.view pos) io = (io', item, res) ∧ res ≠ .ok ∧ res ≠ .cont ∧
          io'.mgr = io.mgr ∧ io'.erases = io.erases) ∨
      ¬ (p.malloc io.mallocs ∨ p.read io.reads ∨ p.write io.writes) ∧
        itemGcCbIo c p (it.view pos) io =
          (⟨(itemGcCb c (it.view pos) io.mgr).1, io.mallocs + 1, io.reads + 1, io.writes + 1, io.erases⟩,
            it.view pos, .cont) := by
  unfold itemGcCbIo
  simp only [KvIo.aosMalloc, KvIo.rawRead, KvIo.rawWrite]
  cases hm : p.malloc io.mallocs with
  | true =>
    refine .inl ⟨.inl rfl, _, _, _, rfl, ?_, ?_, rfl, rfl⟩
    · exact fun h => by cases h
    · exact fun h => by cases h
  | false =>
    simp only [Bool.not_false]
    cases hr : p.read io.reads with
    | true =>
      refine .inl ⟨.inr (.inl rfl), _, _, _, rfl, ?_, ?_, rfl, rfl⟩
      · exact fun h => by cases h
      · exact fun h => by cases h
    | false =>
      simp only [Bool.false_eq_true, if_false]
      cases hw : p.write io.writes with
      | true =>
        refine .inl ⟨.inr (.inr rfl), _, _, _, rfl, ?_, ?_, rfl, rfl⟩
        · exact fun h => by cases h
        · exact fun h => by cases h
      | false => exact .inr ⟨by simp, rfl⟩

variable (c) in
/-- What a traversal leaves that copies `l` to the block `g`. -/
structure Moved (io : KvIo) (d : Log) (g : ℕ) (l : List Item) (io' : KvIo) : Prop where
  rep : Rep c io'.mgr.flash (d.extend g l)
  writePos : io'.mgr.writePos = endPos c (d.extend g l) g
  state : ∀ i, (io'.mgr.blockInfo i).state = (io.mgr.blockInfo i).state
  erases : io'.erases = io.erases

theorem Moved.nil (hrep : Rep c io.mgr.flash d) (hw : io.mgr.writePos = endPos c d g)
    (h : SameBlks io.mgr io'.mgr) (hw' : io'.mgr.writePos = io.mgr.writePos)
    (he : io'.erases = io.erases) : Moved c io d g [] io' := by
  constructor
  · rw [extend_nil, h.flash]
    exact hrep
  · rw [extend_nil, hw', hw]
  · exact h.state
  · exact he

/-- **Copying** with failing calls, from `rest` on to the end of the block `g`. -/
theorem traverseLoopIo_gc (hv : v < c.blkNums) (hne : v ≠ g) (hrep : Rep c io.mgr.flash d)
    (hd : (d v).items = pre ++ rest)
    (hpos : pos = v * blkSize + blkHeaderSize + itemsSize c pre)
    (hw : io.mgr.writePos = endPos c d g) (hst : (d g).state ≠ none)
    (hfit : blkHeaderSize + itemsSize c (d g).items + itemsSize c (liveItems rest) < blkSize)
    (hdirty : (io.mgr.blockInfo v).state ≠ blkStateUsed)
    (hfuel : v * blkSize + blkSize ≤ pos + itemHeaderSize * fuel) :
    ∃ io', traverseLoopIo c p (itemGcCbIo c p) v fuel pos io = (io', none) ∧
      Moved c io d g (copied p io.mallocs io.reads io.writes rest) io' ∧
      (copied p io.mallocs io.reads io.writes rest = liveItems rest →
        io'.writes = io.writes + (liveItems rest).length) := by
  have htail := (hrep v hv).tail hd
  rw [← hpos] at htail
  induction rest generalizing d io pre pos fuel with
  | nil =>
    obtain ⟨io', hrun, hp⟩ := @traverseLoopIo_nil c p io v pos fuel (itemGcCbIo c p) htail
    exact ⟨io', hrun, .nil hrep hw hp.toSameBlks hp.writePos hp.erases, fun _ => hp.writes⟩
  | cons it rest ih =>
    have hfits := htail.fits
    have hsz := it.lt_size c
    rw [itemsSize_cons] at hfits
    have hd' : (d v).items = (pre ++ [it]) ++ rest := by rw [hd]; simp
    have hpos' : pos + it.size c = v * blkSize + blkHeaderSize + itemsSize c (pre ++ [it]) := by
      rw [itemsSize_append, itemsSize_cons, itemsSize_nil]
      omega
    have hnone : [] = liveItems (it :: rest) →
        io.writes = io.writes + (liveItems (it :: rest)).length := by
      intro h
      rw [← h]
      rfl
    cases fuel with
    | zero => omega
    | succ fuel =>
      have hfuel' : v * blkSize + blkSize ≤ pos + it.size c + itemHeaderSize * fuel := by
        rw [Nat.mul_add] at hfuel
        omega
      rw [traverseLoopIo_cons htail, copied]
      by_cases hm : p.malloc io.mallocs = true
      · rw [if_pos hm, if_pos (.inl hm)]
        exact ⟨_, rfl, .nil hrep hw ⟨rfl, fun _ => rfl⟩ rfl rfl, hnone⟩
      rw [if_neg hm]
      by_cases hr : p.read io.reads = true
      · rw [if_pos hr, if_pos (.inr hr)]
        exact ⟨_, rfl, .nil hrep hw ⟨rfl, fun _ => rfl⟩ rfl rfl, hnone⟩
      rw [if_neg hr, if_neg (not_or.2 ⟨hm, hr⟩)]
      cases hl : it.live with
      | false =>
        rw [liveItems_cons_dead hl] at hfit ⊢
        have hdirty1 : ((io.took 1 1).mgr.blockInfo v).state ≠ blkStateUsed := hdirty
        rw [if_neg (by decide), if_neg (by decide), KvIo.markDirty, if_neg hdirty1]
        obtain ⟨io', hrun, hmv, hwr⟩ := @ih d (io.took 1 1) (pos + it.size c) fuel (pre ++ [it]) hrep
          hd' hpos' hw hst hfit hdirty hfuel' htail.next
        exact ⟨io', hrun, ⟨hmv.rep, hmv.writePos, hmv.state, hmv.erases⟩, hwr⟩
      | true =>
        rw [liveItems_cons_live hl] at hfit ⊢
        rw [itemsSize_cons] at hfit
        rw [if_pos rfl, if_pos rfl]
        rcases @itemGcCbIo_view c p (io.took 1 1) pos it with
          ⟨hf, io', item, res, hcb, hok, hcont, hmgr, her⟩ | ⟨hf, hcb⟩
        · -- the copy fails
          have hf' : p.malloc (io.mallocs + 1) ∨ p.read (io.reads + 1) ∨ p.write io.writes := hf
          rw [if_pos hf', hcb]
          refine ⟨io', ?_, .nil hrep hw ?_ ?_ her, fun h => by cases h⟩
          · cases res with
            | ok => exact absurd rfl hok
            | cont => exact absurd rfl hcont
            | mallocFailed | flashReadErr | flashWriteErr | flashEraseErr => rfl
          · rw [hmgr]
            exact ⟨rfl, fun _ => rfl⟩
          · rw [hmgr]
            rfl
        · have hf' : ¬ (p.malloc (io.mallocs + 1) ∨ p.read (io.reads + 1) ∨ p.write io.writes) := hf
          rw [if_neg hf', hcb]
          obtain ⟨s₂, he, hs2⟩ := itemGcCb_copies hrep htail.head hw hst (by omega)
          have hs : (itemGcCb c (it.view pos) (io.took 1 1).mgr).1 = s₂ := congrArg Prod.fst he
          rw [hs]
          have hapv : (d.append g it v).items = (d v).items := by rw [append_items, if_neg hne]
          have hst2 : (d.append g it g).state ≠ none := by
            rw [Log.append, Function.update_self]
            exact hst
          have hdirty2 : (s₂.blockInfo v).state ≠ blkStateUsed := by
            rw [hs2.state]
            exact hdirty
          have htail2 := (hs2.rep v hv).tail (hapv.trans hd')
          rw [← hpos'] at htail2
          obtain ⟨io', hrun, hmv, hwr⟩ :=
            @ih (d.append g it) ⟨s₂, io.mallocs + 2, io.reads + 2, io.writes + 1, io.erases⟩
              (pos + it.size c) fuel (pre ++ [it]) hs2.rep (hapv.trans hd') hpos' hs2.writePos hst2
              (by rw [append_size]; omega) hdirty2 hfuel' htail2
          refine ⟨io', hrun, ⟨?_, ?_, fun i => ?_, hmv.erases⟩, fun h => ?_⟩
          · rw [← extend_append]
            exact hmv.rep
          · rw [← extend_append]
            exact hmv.writePos
          · exact (hmv.state i).trans (hs2.state i)
          · rw [hwr (List.cons.inj h).2, List.length_cons, Nat.add_assoc, Nat.add_comm 1]

/-! ## What is left -/

variable (p) in
/-- The log on flash behind the copies `l`, where `w` is the next write. -/
def leftLog (d : Log) (v g : ℕ) (l : List Item) (w : ℕ) : Log :=
  if p.erase 0 then d.extend g l
  else if p.write w then (d.extend g l).erase v
  else if p.write (w + 1) then (d.extend g l).format v
  else ((d.extend g l).format v).setState g blkStateUsed

variable (p) in
/-- The log a lookup sees: the block `g` counts only when the run goes through. -/
def shownLog (d : Log) (v g : ℕ) (l : List Item) (w : ℕ) : Log :=
  if p.erase 0 then d
  else if p.write w then d.erase v
  else leftLog p d v g l w

theorem Rep.shown {d1 : Log} (h : Rep c s.flash d1)
    (heq : ∀ b < c.blkNums, (s.blockInfo b).state ≠ blkStateClean → d b = d1 b)
    (hclean : ∀ b < c.blkNums, (s.blockInfo b).state = blkStateClean → (d b).items = [])
    (hused : ∀ b < c.blkNums, (s.blockInfo b).state = blkStateUsed →
      ∀ it ∈ (d b).items, it.live = true) : Shown c s d := by
  constructor
  · intro b hb hc
    rw [heq b hb hc]
    exact h b hb
  · exact hclean
  · exact hused

theorem kvBlockFormatIo_cases (i : ℕ) :
    (p.erase io.erases = true ∧ ∃ io', io.kvBlockFormat p i = (io', .flashEraseErr) ∧ io'.mgr = io.mgr) ∨
      (p.erase io.erases = false ∧ p.write io.writes = true ∧ ∃ io', io.kvBlockFormat p i =
        (io', .flashWriteErr) ∧ io'.mgr = io.mgr.rawErase (i * blkSize) blkSize) ∨
      (p.erase io.erases = false ∧ p.write io.writes = false ∧ ∃ io', io.kvBlockFormat p i = (io', .ok) ∧
        io'.mgr = io.mgr.kvBlockFormat i ∧ io'.writes = io.writes + 1) := by
  unfold KvIo.kvBlockFormat
  simp only [KvIo.rawErase, KvIo.rawWrite]
  cases p.erase io.erases with
  | true => exact .inl ⟨rfl, _, rfl, rfl⟩
  | false =>
    simp only [Bool.not_false]
    cases p.write io.writes with
    | true => exact .inr (.inl ⟨trivial, rfl, _, rfl, rfl⟩)
    | false => exact .inr (.inr ⟨trivial, rfl, _, rfl, rfl, rfl⟩)

/-! ## What is shown at each end -/

section

variable {s' : KvMgr} (h : Backed c s d)
include h

theorem Backed.shown_extend (hgs : (s.blockInfo g).state = blkStateClean)
    (hst : ∀ i, (s'.blockInfo i).state = (s.blockInfo i).state) (hr : Rep c s'.flash (d.extend g l)) :
    Shown c s' d := by
  refine hr.shown (fun b hb hc => (extend_ne ?_).symm) (fun b hb hc => ?_) fun b hb hu => ?_
  · rintro rfl
    rw [hst] at hc
    exact hc hgs
  · rw [hst] at hc
    exact h.shown.clean b hb hc
  · rw [hst] at hu
    exact h.shown.used b hb hu

theorem Backed.shown_erase (hgs : (s.blockInfo g).state = blkStateClean)
    (hvd : (s.blockInfo v).state = blkStateDirty)
    (hst : ∀ i, (s'.blockInfo i).state = (s.blockInfo i).state)
    (hr : Rep c s'.flash ((d.extend g l).erase v)) : Shown c s' (d.erase v) := by
  have hother : ∀ b, b ≠ v → d.erase v b = d b := fun b hb => Function.update_of_ne hb ..
  refine hr.shown (fun b hb hc => ?_) (fun b hb hc => ?_) fun b hb hu => ?_
  · by_cases hbv : b = v
    · subst hbv
      rw [Log.erase, Log.erase, Function.update_self, Function.update_self]
    · rw [hother b hbv, Log.erase, Function.update_of_ne hbv, extend_ne]
      rintro rfl
      rw [hst] at hc
      exact hc hgs
  · rw [hst] at hc
    have hbv : b ≠ v := by
      rintro rfl
      rw [hvd] at hc
      cases hc
    rw [hother b hbv]
    exact h.shown.clean b hb hc
  · rw [hst] at hu
    have hbv : b ≠ v := by
      rintro rfl
      rw [hvd] at hu
      cases hu
    rw [hother b hbv]
    exact h.shown.used b hb hu

/-- Where the dirty block is formatted, and used and clean have changed places in memory. -/
theorem Backed.shown_format (hgi : (d g).items = []) (hne : v ≠ g) (hlive : ∀ it ∈ l, it.live = true)
    (hst : ∀ b, (s'.blockInfo b).state =
      if b = g then blkStateUsed else if b = v then blkStateClean else (s.blockInfo b).state)
    (hr : Rep c s'.flash d') (hsame : SameItems ((d.extend g l).format v) d') : Shown c s' d' := by
  have hitems : ∀ b, (d' b).items = if b = g then l else if b = v then [] else (d b).items := by
    intro b
    rw [hsame b, format_items]
    by_cases hbg : b = g
    · subst hbg
      rw [if_neg hne.symm, if_pos rfl, extend_self, hgi, List.nil_append]
    · rw [if_neg hbg, extend_ne hbg]
  refine hr.shown (fun _ _ _ => rfl) (fun b hb hc => ?_) fun b hb hu => ?_
  · rw [hitems]
    rw [hst] at hc
    by_cases hbg : b = g
    · rw [if_pos hbg] at hc
      cases hc
    · rw [if_neg hbg] at hc ⊢
      by_cases hbv : b = v
      · rw [if_pos hbv]
      · rw [if_neg hbv] at hc ⊢
        exact h.shown.clean b hb hc
  · rw [hitems]
    rw [hst] at hu
    by_cases hbg : b = g
    · rw [if_pos hbg]
      exact hlive
    · rw [if_neg hbg] at hu ⊢
      by_cases hbv : b = v
      · rw [if_pos hbv] at hu
        cases hu
      · rw [if_neg hbv] at hu ⊢
        exact h.shown.used b hb hu

end

theorem state_setBlkState {s₁ s₂ : KvMgr} (h : s₂.blockInfo = (s₁.kvBlockFormat v).blockInfo)
    (hst : ∀ i, (s₁.blockInfo i).state = (s.blockInfo i).state) (b : ℕ) :
    ((s₂.setBlkState g blkStateUsed).blockInfo b).state =
      if b = g then blkStateUsed else if b = v then blkStateClean else (s.blockInfo b).state := by
  rw [setBlkState_info, h]
  simp only [kvBlockFormat_blockInfo]
  by_cases hbg : b = g
  · rw [if_pos hbg, if_pos hbg]
  · rw [if_neg hbg, if_neg hbg]
    by_cases hbv : b = v
    · rw [if_pos hbv, if_pos hbv]
    · rw [if_neg hbv, if_neg hbv, hst]

theorem gcCollectIo_spec (h : Backed c s d) (hg : g < c.blkNums)
    (hgs : (s.blockInfo g).state = blkStateClean) (hv : v < c.blkNums)
    (hvd : (s.blockInfo v).state = blkStateDirty) :
    ∃ w s', (gcCollectIo c p ⟨{ s with writePos := g * blkSize + blkHeaderSize }, 0, 0, 0, 0⟩ g v).mgr =
        s' ∧
      (copied p 0 0 0 (d v).items = liveItems (d v).items → w = (liveItems (d v).items).length) ∧
      Rep c s'.flash (leftLog p d v g (copied p 0 0 0 (d v).items) w) ∧
      Shown c s' (shownLog p d v g (copied p 0 0 0 (d v).items) w) := by
  have hgc : (d g).state = some blkStateClean := by rw [h.state g hg, hgs]
  have hgi := h.clean g hg hgc
  have hne : v ≠ g := by
    rintro rfl
    rw [hvd] at hgs
    cases hgs
  have hfv := (h.rep v hv).fits
  have hlive := @liveItems_size_le c (d v).items
  obtain ⟨io, hrun, hmv, hw⟩ := @traverseLoopIo_gc c p d
    ⟨{ s with writePos := g * blkSize + blkHeaderSize }, 0, 0, 0, 0⟩ g v
    (v * blkSize + blkHeaderSize) (blkSize / itemHeaderSize) [] (d v).items hv hne h.rep
    (by simp) (by simp) (by simp [endPos, hgi]) (by simp [hgc])
    (by rw [hgi, itemsSize_nil]; omega) (by simp [hvd]; decide)
    (by simp only [itemHeaderSize, blkSize]; omega)
  have hpre : ∀ it ∈ copied p 0 0 0 (d v).items, it.live = true := fun it hit =>
    (mem_liveItems.1 (copied_cut.subset hit)).2
  simp only [Nat.zero_add] at hw
  generalize copied p 0 0 0 (d v).items = l at *
  have hst : ∀ i, (io.mgr.blockInfo i).state = (s.blockInfo i).state := hmv.state
  have her : io.erases = 0 := hmv.erases
  refine ⟨io.writes, _, rfl, hw, ?_⟩
  unfold gcCollectIo kvItemTraverseIo leftLog shownLog leftLog
  rw [hrun]
  simp only
  rcases @kvBlockFormatIo_cases p io v with ⟨he, io1, hf, hm⟩ | ⟨he, hwr, io1, hf, hm⟩ |
    ⟨he, hwr, io1, hf, hm, hw1⟩
  · -- the block is not erased
    rw [her] at he
    rw [hf, if_pos he, if_pos he]
    simp only [hm]
    exact ⟨hmv.rep, h.shown_extend hgs hst hmv.rep⟩
  · -- the block is erased, and gets no header
    rw [her] at he
    have he' : ¬ p.erase 0 = true := by simp [he]
    have hrep : Rep c (io.mgr.rawErase (v * blkSize) blkSize).flash ((d.extend g l).erase v) :=
      hmv.rep.erase
    rw [hf, if_neg he', if_neg he', if_pos hwr, if_pos hwr]
    simp only [hm]
    exact ⟨hrep, h.shown_erase hgs hvd hst hrep⟩
  · -- the run goes through
    rw [her] at he
    have he' : ¬ p.erase 0 = true := by simp [he]
    have hwr' : ¬ p.write io.writes = true := by simp [hwr]
    rw [hf, if_neg he', if_neg he', if_neg hwr', if_neg hwr']
    have hrep : Rep c io1.mgr.flash ((d.extend g l).format v) := by
      rw [hm]
      exact kvBlockFormat_rep hmv.rep
    have hdiv : io1.mgr.writePos / blkSize = g := by
      rw [hm, ← endPos_div hmv.rep hg, ← hmv.writePos]
      rfl
    have hgst : ((d.extend g l).format v g).state = some blkStateClean := by
      rw [Log.format, Function.update_of_ne hne.symm, extend_self, hgc]
    have hinfo : io1.mgr.blockInfo = (io.mgr.kvBlockFormat v).blockInfo := by rw [hm]
    simp only [KvIo.kvStateSet, KvIo.rawWrite, hw1]
    cases p.write (io.writes + 1) with
    | true =>
      rw [if_pos rfl, if_pos rfl]
      exact ⟨hrep, h.shown_format hgi hne hpre (state_setBlkState hinfo hst) hrep fun _ => rfl⟩
    | false =>
      rw [if_neg (by decide), if_neg (by decide), hdiv]
      have hrep' : Rep c (io1.mgr.rawWrite (g * blkSize + 1) [blkStateUsed]).flash
          (((d.extend g l).format v).setState g blkStateUsed) :=
        hrep.setState (by decide) (by rw [hgst]; simp)
      exact ⟨hrep', h.shown_format hgi hne hpre
        (@state_setBlkState s g v io.mgr (io1.mgr.rawWrite (g * blkSize + 1) [blkStateUsed]) hinfo hst) hrep'
        sameItems_setState⟩

end Kv
