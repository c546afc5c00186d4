/-
  Key-value store: when a garbage collection with failing calls keeps every key.

  `GcSafe` is a condition on the store and the pattern.  Lookups and the items
  on flash are kept exactly if it holds (`aosKvGcIo_keeps_iff`); so is what a
  later `aos_kv_init` reads, where the image that is left is recoverable.
-/
import AliOS.Kv.GcFault
import AliOS.Kv.PowerCut

namespace Kv

open Lib

variable {c : KvConfig} {p : FaultPattern} {d d' d₁ : Log} {s s' : KvMgr} {b g v fuel w : ℕ}
  {it x y : Item} {l : List Item} {M : KvMap} {key : List UInt8}

/-! ## The condition -/

variable (c) in
/-- The blocks `aos_kv_gc` copies to and collects. -/
def gcTarget (s : KvMgr) : Option (ℕ × ℕ) :=
  if s.cleanBlkNums = 0 then none
  else
    match (List.range c.blkNums).find? fun i => (s.blockInfo i).state = blkStateClean with
    | none => none
    | some g => (gcVictim c s (s.writePos / blkSize) (c.blkNums + 1) (s.writePos / blkSize + 1)).map
        fun v => (g, v)

variable (p) in
/-- No call fails that is needed to copy the items and to format the block. -/
def CopiesAll (its : List Item) : Prop :=
  (∀ k < reach its + (liveItems its).length, p.malloc k = false ∧ p.read k = false) ∧
    ∀ k < (liveItems its).length + 1, p.write k = false

variable (c p) in
/-- There is no block to collect, or it is not erased, or it has no valid item,
    or all of them are copied. -/
def GcSafe (s : KvMgr) (d : Log) : Prop :=
  ∀ g v, gcTarget c s = some (g, v) →
    p.erase 0 = true ∨ liveItems (d v).items = [] ∨ CopiesAll p (d v).items

variable (c p) in
/-- The log a run leaves on flash when it is `GcSafe`. -/
def gcLeft (s : KvMgr) (d : Log) : Log :=
  match gcTarget c s with
  | none => d
  | some (g, v) =>
    leftLog p d v g (copied p 0 0 0 (d v).items) (liveItems (d v).items).length

theorem gcVictim_writePos {n origin i : ℕ} :
    gcVictim c { s with writePos := n } origin fuel i = gcVictim c s origin fuel i := by
  induction fuel generalizing i with
  | zero => rfl
  | succ fuel ih =>
    rw [gcVictim, gcVictim]
    simp only [ih]

theorem aosKvGcIo_idle (h : gcTarget c s = none) :
    (aosKvGcIo c p s).flash = s.flash ∧ (aosKvGcIo c p s).blockInfo = s.blockInfo := by
  unfold gcTarget at h
  unfold aosKvGcIo
  by_cases h0 : s.cleanBlkNums = 0
  · simp only [if_pos h0]
    exact ⟨trivial, trivial⟩
  · simp only [if_neg h0] at h ⊢
    cases hf : (List.range c.blkNums).find? fun i => (s.blockInfo i).state = blkStateClean with
    | none => exact ⟨rfl, rfl⟩
    | some g =>
      rw [hf] at h
      simp only [Option.map_eq_none_iff] at h
      simp only [gcVictim_writePos, h]
      exact ⟨trivial, trivial⟩

theorem aosKvGcIo_collect (h : gcTarget c s = some (g, v)) :
    g < c.blkNums ∧ (s.blockInfo g).state = blkStateClean ∧
      gcVictim c s (s.writePos / blkSize) (c.blkNums + 1) (s.writePos / blkSize + 1) = some v ∧
      aosKvGcIo c p s =
        { (gcCollectIo c p ⟨{ s with writePos := g * blkSize + blkHeaderSize }, 0, 0, 0, 0⟩ g v).mgr with
          gcTriggered := false } := by
  unfold gcTarget at h
  unfold aosKvGcIo
  by_cases h0 : s.cleanBlkNums = 0
  · rw [if_pos h0] at h
    cases h
  · simp only [if_neg h0] at h ⊢
    cases hf : (List.range c.blkNums).find? fun i => (s.blockInfo i).state = blkStateClean with
    | none =>
      rw [hf] at h
      cases h
    | some g' =>
      rw [hf] at h
      simp only [Option.map_eq_some_iff, Prod.mk.injEq] at h
      obtain ⟨v', hv, rfl, rfl⟩ := h
      have hgs := List.find?_some hf
      simp only [decide_eq_true_eq] at hgs
      refine ⟨List.mem_range.1 (List.mem_of_find?_eq_some hf), hgs, hv, ?_⟩
      simp only [gcVictim_writePos, hv]

/-! ## What is read -/

theorem Unique.item {b' : ℕ} (hu : Unique c d) (hrep : Rep c s.flash d) (hb : b < c.blkNums)
    (hb' : b' < c.blkNums) (hx : x ∈ (d b).items) (hy : y ∈ (d b').items) (hxl : x.live = true)
    (hyl : y.live = true) (hk : x.key = y.key) : b = b' ∧ x = y := by
  obtain ⟨q, hq⟩ := @exists_placed c (b * blkSize + blkHeaderSize) x _ hx
  obtain ⟨r, hr⟩ := @exists_placed c (b' * blkSize + blkHeaderSize) y _ hy
  have hqr : q = r := hu q r x y ⟨⟨b, hb, hq⟩, hxl⟩ ⟨⟨b', hb', hr⟩, hyl⟩ hk
  subst hqr
  refine ⟨?_, At.inj hrep ⟨b, hb, hq⟩ ⟨b', hb', hr⟩⟩
  rw [← (placed_block hrep hb hq).2.2, ← (placed_block hrep hb' hr).2.2]

theorem Unique.not_copied {t : List Item} (hu : Unique c d) (hv : v < c.blkNums)
    (h : liveItems (d v).items = l ++ x :: t) : x ∉ l := by
  intro hx
  obtain ⟨pre, post, rfl⟩ := List.append_of_mem hx
  have hq := @mem_placed_mid c 0 x pre (post ++ x :: t)
  have hr := @mem_placed_mid c 0 x (pre ++ x :: post) t
  rw [List.append_assoc, List.cons_append] at h
  rw [← h] at hq
  rw [List.append_assoc, List.cons_append, ← h] at hr
  obtain ⟨q', r', hq', hr', he⟩ := @placed_liveItems c _ _ (v * blkSize + blkHeaderSize) _ 0 x x hq hr
  have hl : x.live = true := (mem_liveItems.1 (mem_of_placed hq)).2
  have := he (hu q' r' x x ⟨⟨v, hv, hq'⟩, hl⟩ ⟨⟨v, hv, hr'⟩, hl⟩ rfl)
  have hsz := x.lt_size c
  rw [itemsSize_append, itemsSize_cons] at this
  omega

theorem has_setState {st : UInt8} : Has c (d.setState b st) it ↔ Has c d it := by
  simp only [has_iff, sameItems_setState.lives_iff]

theorem has_leftLog (hv : v < c.blkNums) (hg : g < c.blkNums) (hne : v ≠ g) (hgi : (d g).items = [])
    (hl : l <+: liveItems (d v).items) (hall : p.erase 0 = true ∨ l = liveItems (d v).items) :
    Has c (leftLog p d v g l w) it ↔ Has c d it := by
  unfold leftLog
  by_cases he : p.erase 0 = true
  · rw [if_pos he]
    exact has_extend hv hg hne hgi fun _ h => hl.subset h
  · obtain rfl := hall.resolve_left he
    rw [if_neg he]
    split
    · exact has_moved hv hg hne hgi rfl
    · split
      · exact has_moved hv hg hne hgi rfl
      · rw [has_setState]
        exact has_moved hv hg hne hgi rfl

theorem has_erase (hv : v < c.blkNums) (hg : g < c.blkNums) (hne : v ≠ g) (hgi : (d g).items = [])
    (hnil : liveItems (d v).items = []) : Has c (d.erase v) it ↔ Has c d it := by
  have h := @has_moved c d g v it ⟨none, []⟩ hv hg hne hgi rfl
  rw [hnil, extend_nil] at h
  exact h

theorem has_shownLog (hv : v < c.blkNums) (hg : g < c.blkNums) (hne : v ≠ g) (hgi : (d g).items = [])
    (hl : l <+: liveItems (d v).items)
    (hall : p.erase 0 = true ∨ l = liveItems (d v).items ∧
      (p.write w = false ∨ liveItems (d v).items = [])) :
    Has c (shownLog p d v g l w) it ↔ Has c d it := by
  unfold shownLog
  by_cases he : p.erase 0 = true
  · rw [if_pos he]
  · obtain ⟨hl', hw⟩ := hall.resolve_left he
    rw [if_neg he]
    by_cases hwr : p.write w = true
    · rw [if_pos hwr]
      exact has_erase hv hg hne hgi (hw.resolve_left (by simp [hwr]))
    · rw [if_neg hwr]
      exact has_leftLog hv hg hne hgi hl (.inr hl')

theorem shownLog_loses (hu : Unique c d) (hrep : Rep c s.flash d) (hv : v < c.blkNums)
    (hne : v ≠ g) (hgi : (d g).items = []) (hl : l <+: liveItems (d v).items)
    (hsome : liveItems (d v).items ≠ []) (he : p.erase 0 = false)
    (hlost : p.write w = true ∨ l ≠ liveItems (d v).items) :
    ∃ x ∈ (d v).items, x.live = true ∧
      ∀ it, Has c (shownLog p d v g l w) it → it.key ≠ x.key := by
  have he' : ¬ p.erase 0 = true := by simp [he]
  -- an item of another block has another key
  have hother : ∀ {x it : Item} {b : ℕ}, x ∈ (d v).items → x.live = true → b < c.blkNums → b ≠ v →
      it ∈ (d b).items → it.live = true → it.key ≠ x.key := by
    intro x it b hx hxl hb hbv hit hil hk
    exact hbv (hu.item hrep hb hv hit hx hil hxl hk).1
  unfold shownLog
  rw [if_neg he']
  by_cases hwr : p.write w = true
  · rw [if_pos hwr]
    obtain ⟨x, hx⟩ := List.exists_mem_of_ne_nil _ hsome
    obtain ⟨hxv, hxl⟩ := mem_liveItems.1 hx
    refine ⟨x, hxv, hxl, ?_⟩
    rintro it ⟨b, hb, hit, hil⟩
    by_cases hbv : b = v
    · subst hbv
      rw [Log.erase, Function.update_self] at hit
      simp at hit
    · rw [Log.erase, Function.update_of_ne hbv] at hit
      exact hother hxv hxl hb hbv hit hil
  · rw [if_neg hwr]
    obtain ⟨t, ht⟩ := hl
    cases t with
    | nil =>
      rw [List.append_nil] at ht
      exact absurd ht (hlost.resolve_left hwr)
    | cons x t =>
      have hx : x ∈ liveItems (d v).items := by rw [← ht]; simp
      obtain ⟨hxv, hxl⟩ := mem_liveItems.1 hx
      have hnot := hu.not_copied hv ht.symm
      have hformat : ∀ it, Has c ((d.extend g l).format v) it → it.key ≠ x.key := by
        rintro it ⟨b, hb, hit, hil⟩
        rw [format_items] at hit
        by_cases hbv : b = v
        · rw [if_pos hbv] at hit
          simp at hit
        · rw [if_neg hbv] at hit
          by_cases hbg : b = g
          · subst hbg
            rw [extend_self, hgi, List.nil_append] at hit
            have hlive : it ∈ liveItems (d v).items := by rw [← ht]; simp [hit]
            intro hk
            obtain ⟨-, rfl⟩ := hu.item hrep hv hv (mem_liveItems.1 hlive).1 hxv hil hxl hk
            exact hnot hit
          · rw [extend_ne hbg] at hit
            exact hother hxv hxl hb hbv hit hil
      refine ⟨x, hxv, hxl, ?_⟩
      unfold leftLog
      rw [if_neg he', if_neg hwr]
      split
      · exact hformat
      · intro it hit
        exact hformat it (has_setState.1 hit)

/-! ## The claims -/

variable (c) in
/-- Every key that could be read from `s` reads the same from `s'`. -/
def ReadsOn (s s' : KvMgr) : Prop :=
  ∀ key n, (aosKvGet c s key n).2.1 = .ok → (aosKvGet c s' key n).2 = (aosKvGet c s key n).2

variable (c) in
/-- Nothing is lost now: the keys are read as before, and every valid item is
    still on flash. -/
structure KeepsNow (s s' : KvMgr) (d : Log) : Prop where
  reads : ReadsOn c s s'
  items : ∀ d', Rep c s'.flash d' → ∀ it, Has c d it → Has c d' it

variable (c p) in
/-- The image that is left is one recovery keeps. -/
def LeavesRecoverable (s : KvMgr) (d : Log) : Prop :=
  ∀ f, Rep c f (gcLeft c p s d) → Recoverable c f (gcLeft c p s d)

theorem Rep.has_iff {f : Flash} (h : Rep c f d) (h' : Rep c f d') : Has c d' it ↔ Has c d it := by
  constructor
  · rintro ⟨b, hb, hm⟩
    exact ⟨b, hb, by rwa [h.inj h' hb]⟩
  · rintro ⟨b, hb, hm⟩
    exact ⟨b, hb, by rwa [← h.inj h' hb]⟩

theorem Holding.readsOn (h : Holding c s d M) (hs : Shown c s' d₁)
    (hhas : ∀ it, Has c d₁ it ↔ Has c d it) : ReadsOn c s s' := by
  intro key n _
  obtain ⟨o, ho, hget⟩ := hs.aosKvGet key
  obtain ⟨o', ho', hget'⟩ := h.inv.toBacked.aosKvGet key
  rw [(hget n).1, hget' n, h.reads ((reads_congr hhas).1 ho), h.reads ho']

theorem Holding.not_readsOn (h : Holding c s d M) (hs : Shown c s' d₁) (hx : Has c d x)
    (hnone : ∀ it, Has c d₁ it → it.key ≠ x.key) : ¬ ReadsOn c s s' := by
  intro hr
  obtain ⟨o, ho, hget⟩ := hs.aosKvGet x.key
  obtain ⟨o', ho', hget'⟩ := h.inv.toBacked.aosKvGet x.key
  have hsome : o' = some x.val := (h.reads ho').trans (h.reads (o := some x.val) ⟨x, hx, rfl, rfl⟩).symm
  have hlost : o = none := by
    cases o with
    | none => rfl
    | some val =>
      obtain ⟨it, hit, hk, -⟩ := ho
      exact absurd hk (hnone it hit)
  have hok := hget' (x.val.length + 1)
  have hr' := hr x.key (x.val.length + 1)
  rw [hok, (hget _).1, hsome, hlost, readRes, readRes, if_neg (by omega), if_neg (by omega)] at hr'
  simp at hr'

theorem Holding.again {f : Flash} (h : Holding c s d M) (hrep : Rep c f d₁) (hsh : Shape c d₁)
    (hrec : Recoverable c f d₁) (hhas : ∀ it, Has c d₁ it ↔ Has c d it) :
    ReadsOn c s (aosKvInit c f) := by
  obtain ⟨d₂, hinv, hreads, -⟩ := aosKvInit_inv hrep hsh hrec
  intro key n _
  obtain ⟨o, ho, hget⟩ := hinv.toBacked.aosKvGet key
  obtain ⟨o', ho', hget'⟩ := h.inv.toBacked.aosKvGet key
  rw [hget n, hget' n, h.reads ((reads_congr hhas).1 (hreads key o ho)), h.reads ho']

theorem shape_leftLog (h : Backed c s d) (hv : v < c.blkNums) (hne : v ≠ g)
    (hgi : (d g).items = []) (hl : l <+: liveItems (d v).items) : Shape c (leftLog p d v g l w) := by
  have hspare : ∀ {d₀ : Log}, Spare d₀ v → Shape c d₀ := fun hs u hu hst hne' => .inl ⟨v, hv, hs⟩
  unfold leftLog
  by_cases he : p.erase 0 = true
  · rw [if_pos he]
    intro u hu hst hun
    by_cases hug : u = g
    · subst hug
      rw [extend_self, hgi, List.nil_append]
      refine .inr fun it hit hlive => ⟨v, hv, hne, it, ?_, hlive, rfl⟩
      rw [extend_ne hne]
      exact (mem_liveItems.1 (hl.subset hit)).1
    · rw [extend_ne hug] at hst hun
      exact absurd (h.clean u hu hst) hun
  · rw [if_neg he]
    split
    · refine hspare ⟨?_, .inl ?_⟩
      · rw [Log.erase, Function.update_self]
      · rw [Log.erase, Function.update_self]
    · split
      · refine hspare ⟨?_, .inr ?_⟩
        · rw [Log.format, Function.update_self]
        · rw [Log.format, Function.update_self]
      · refine hspare ⟨?_, .inr ?_⟩
        · rw [sameItems_setState, Log.format, Function.update_self]
        · rw [setState_state, if_neg hne, Log.format, Function.update_self]

theorem Holding.aosKvGcIo (h : Holding c s d M) :
    (KeepsNow c s (Kv.aosKvGcIo c p s) d ↔ GcSafe c p s d) ∧
      (LeavesRecoverable c p s d → GcSafe c p s d →
        ReadsOn c s (aosKvInit c (Kv.aosKvGcIo c p s).flash)) := by
  unfold LeavesRecoverable gcLeft
  cases ht : gcTarget c s with
  | none =>
    -- nothing is collected
    obtain ⟨hf, hi⟩ := @aosKvGcIo_idle c p s ht
    have hrep : Rep c (Kv.aosKvGcIo c p s).flash d := by
      rw [hf]
      exact h.inv.rep
    have hshown : Shown c (Kv.aosKvGcIo c p s) d :=
      h.inv.toBacked.shown.congr ⟨hf, fun i => by rw [hi]⟩
    have hsafe : GcSafe c p s d := by
      intro g v hgv
      rw [ht] at hgv
      cases hgv
    refine ⟨⟨fun _ => hsafe, fun _ => ⟨h.readsOn hshown fun _ => Iff.rfl, fun d' hr it hit =>
      (hrep.has_iff hr).2 hit⟩⟩, fun hrec _ => ?_⟩
    refine h.again hrep (fun u hu hst hun => absurd (h.inv.clean u hu hst) hun) (hrec _ hrep)
      fun _ => Iff.rfl
  | some gv =>
    obtain ⟨g, v⟩ := gv
    dsimp only
    obtain ⟨hg, hgs, hvict, hrun⟩ := @aosKvGcIo_collect c p s g v ht
    obtain ⟨b, hb, -, hwp⟩ := h.inv.write
    obtain ⟨hv, hvd⟩ := gcVictim_spec (by rw [hwp, endPos_div h.inv.rep hb]; omega) hvict
    have hgi := h.inv.clean g hg (by rw [h.inv.state g hg, hgs])
    have hne : v ≠ g := by
      rintro rfl
      rw [hvd] at hgs
      cases hgs
    obtain ⟨w, s', hs', hw, hrep', hshown'⟩ := @gcCollectIo_spec c p d s g v h.inv.toBacked hg hgs hv hvd
    rw [hs'] at hrun
    have hrep : Rep c (Kv.aosKvGcIo c p s).flash
        (leftLog p d v g (copied p 0 0 0 (d v).items) w) := by
      rw [hrun]
      exact hrep'
    have hshown : Shown c (Kv.aosKvGcIo c p s)
        (shownLog p d v g (copied p 0 0 0 (d v).items) w) := by
      rw [hrun]
      exact ⟨hshown'.rep, hshown'.clean, hshown'.used⟩
    have hpre := @copied_cut p 0 0 0 (d v).items
    have hiff := @copied_eq_iff p 0 0 0 (d v).items
    simp only [Nat.zero_add] at hiff
    have hsafe : GcSafe c p s d ↔
        p.erase 0 = true ∨ liveItems (d v).items = [] ∨ CopiesAll p (d v).items := by
      constructor
      · exact fun hs => hs g v ht
      · intro hs g' v' hgv
        rw [ht] at hgv
        cases hgv
        exact hs
    generalize copied p 0 0 0 (d v).items = l at *
    -- where it is safe all is copied, and the header is written
    have hall : GcSafe c p s d → p.erase 0 = true ∨ l = liveItems (d v).items ∧
        (p.write w = false ∨ liveItems (d v).items = []) := by
      intro hs
      rcases hsafe.1 hs with he | hnil | hc
      · exact .inl he
      · refine .inr ⟨?_, .inr hnil⟩
        rw [hnil] at hpre ⊢
        exact List.prefix_nil.1 hpre
      · have hl := hiff.2 ⟨hc.1, fun k hk => hc.2 k (by omega)⟩
        refine .inr ⟨hl, .inl ?_⟩
        rw [hw hl]
        exact hc.2 _ (Nat.lt_succ_self _)
    have hleft : GcSafe c p s d → ∀ it, Has c (leftLog p d v g l w) it ↔ Has c d it :=
      fun hs it => has_leftLog hv hg hne hgi hpre ((hall hs).imp_right And.left)
    refine ⟨⟨fun hk => ?_, fun hs => ⟨?_, fun d' hr it hit => ?_⟩⟩, fun hrec hs => ?_⟩
    · by_contra hn
      rw [hsafe, not_or, not_or, Bool.not_eq_true] at hn
      obtain ⟨he, hsome, hnc⟩ := hn
      obtain ⟨x, hx, hxl, hnone⟩ := @shownLog_loses c p d s g v w l h.unique h.inv.rep hv hne hgi hpre
        hsome he (by
          by_contra hno
          rw [not_or, Bool.not_eq_true, not_not] at hno
          obtain ⟨hwr, hl⟩ := hno
          refine hnc ⟨(hiff.1 hl).1, fun k hk => ?_⟩
          rcases Nat.lt_succ_iff_lt_or_eq.1 hk with hk | rfl
          · exact (hiff.1 hl).2 k hk
          · rw [← hw hl]
            exact hwr)
      exact h.not_readsOn hshown ⟨v, hv, hx, hxl⟩ hnone hk.reads
    · exact h.readsOn hshown fun it => has_shownLog hv hg hne hgi hpre (hall hs)
    · exact (hrep.has_iff hr).2 ((hleft hs it).2 hit)
    · have heq : leftLog p d v g l (liveItems (d v).items).length = leftLog p d v g l w := by
        rcases hall hs with he | ⟨hl, -⟩
        · unfold leftLog
          rw [if_pos he, if_pos he]
        · rw [hw hl]
      rw [heq] at hrec
      exact h.again hrep (shape_leftLog h.inv.toBacked hv hne hgi hpre) (hrec _ hrep) (hleft hs)

end Kv
