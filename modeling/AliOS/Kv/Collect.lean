/-
  Key-value store: garbage collection keeps the invariant and the valid items.

  The collection copies the valid items of a dirty block into a clean one,
  formats the dirty block, and marks the other used.  In every image between,
  the two blocks together hold what the dirty block held.
-/
import AliOS.Kv.Ops

namespace Kv

open Lib

variable {c : KvConfig} {f : Flash} {d d' : Log} {s s' : KvMgr} {b g v p q pos fuel : ℕ}
  {it x : Item} {its pre rest l l' : List Item}

/-! ## Positions of copied items -/

theorem mem_of_placed (h : (p, it) ∈ placed c pos its) : it ∈ its := by
  obtain ⟨pre, post, rfl, -⟩ := placed_split h
  simp

theorem exists_placed (h : it ∈ its) : ∃ p, (p, it) ∈ placed c pos its := by
  obtain ⟨pre, post, rfl⟩ := List.append_of_mem h
  exact ⟨_, mem_placed_mid⟩

/-- The valid items of a list. -/
def liveItems (its : List Item) : List Item := its.filter (·.live)

theorem liveItems_cons_live (h : it.live = true) : liveItems (it :: its) = it :: liveItems its := by
  rw [liveItems, List.filter_cons, if_pos h, liveItems]

theorem liveItems_cons_dead (h : it.live = false) : liveItems (it :: its) = liveItems its := by
  rw [liveItems, List.filter_cons, if_neg (by simp [h]), liveItems]

theorem mem_liveItems : x ∈ liveItems its ↔ x ∈ its ∧ x.live = true := by
  rw [liveItems, List.mem_filter]

theorem liveItems_size_le : itemsSize c (liveItems its) ≤ itemsSize c its := by
  induction its with
  | nil => exact Nat.le_refl _
  | cons it its ih =>
    cases hl : it.live with
    | true => rw [liveItems_cons_live hl, itemsSize_cons, itemsSize_cons]; omega
    | false => rw [liveItems_cons_dead hl, itemsSize_cons]; omega

theorem placed_liveItems {pos' : ℕ} {x y : Item} (hx : (p, x) ∈ placed c pos' (liveItems its))
    (hy : (q, y) ∈ placed c pos' (liveItems its)) :
    ∃ p' q', (p', x) ∈ placed c pos its ∧ (q', y) ∈ placed c pos its ∧ (p' = q' → p = q) := by
  induction its generalizing pos pos' with
  | nil => simp [liveItems, placed_nil] at hx
  | cons it its ih =>
    have hsz := it.lt_size c
    cases hl : it.live with
    | false =>
      rw [liveItems_cons_dead hl] at hx hy
      obtain ⟨p', q', hp, hq, he⟩ := @ih (pos + it.size c) _ hx hy
      exact ⟨p', q', List.mem_cons_of_mem _ hp, List.mem_cons_of_mem _ hq, he⟩
    | true =>
      rw [liveItems_cons_live hl, placed_cons, List.mem_cons, Prod.mk.injEq] at hx hy
      rcases hx with ⟨rfl, rfl⟩ | hx <;> rcases hy with ⟨rfl, rfl⟩ | hy
      · exact ⟨pos, pos, List.mem_cons_self, List.mem_cons_self, fun _ => rfl⟩
      · obtain ⟨q', hq⟩ := @exists_placed c (pos + x.size c) y its
          (mem_liveItems.1 (mem_of_placed hy)).1
        have := placed_bounds hq
        exact ⟨pos, q', List.mem_cons_self, List.mem_cons_of_mem _ hq, fun he => by omega⟩
      · obtain ⟨p', hp⟩ := @exists_placed c (pos + y.size c) x its
          (mem_liveItems.1 (mem_of_placed hx)).1
        have := placed_bounds hp
        exact ⟨p', pos, List.mem_cons_of_mem _ hp, List.mem_cons_self, fun he => by omega⟩
      · obtain ⟨p', q', hp, hq, he⟩ := @ih (pos + it.size c) _ hx hy
        exact ⟨p', q', List.mem_cons_of_mem _ hp, List.mem_cons_of_mem _ hq, he⟩

/-! ## Copying -/

/-- The items `l` behind those of the block `b`. -/
def Log.extend (d : Log) (b : ℕ) (l : List Item) : Log :=
  Function.update d b { d b with items := (d b).items ++ l }

theorem extend_nil : d.extend b [] = d := by
  rw [Log.extend, List.append_nil]
  exact Function.update_eq_self ..

theorem extend_append : (d.append b it).extend b l = d.extend b (it :: l) := by
  rw [Log.extend, Log.append, Function.update_self, Function.update_idem, Log.extend]
  simp

theorem extend_self : d.extend b l b = { d b with items := (d b).items ++ l } :=
  Function.update_self ..

theorem extend_ne {b' : ℕ} (h : b' ≠ b) : d.extend b l b' = d b' := Function.update_of_ne h ..

theorem itemGcCb_view (h : Holds s.flash pos (it.bytes c)) :
    itemGcCb c (it.view pos) s =
      let s' := { s.rawWrite s.writePos (it.bytes c) with writePos := s.writePos + it.size c }
      let index := s'.writePos / blkSize
      (s'.setSpace index ((s'.blockInfo index).space - it.size c), it.view pos, .cont) := by
  have hlen : c.align (itemHeaderSize + (it.view pos).len) = it.size c := by
    rw [Item.size, Nat.add_assoc]
    rfl
  have hread : rawRead s.flash (it.view pos).pos (it.size c) = it.bytes c := by
    have h' := h
    unfold Holds at h'
    rwa [Item.bytes_length] at h'
  unfold itemGcCb
  simp only [hlen, hread]
  rfl

theorem append_items (i : ℕ) :
    (d.append g it i).items = if i = g then (d g).items ++ [it] else (d i).items := by
  by_cases he : i = g
  · subst he
    rw [Log.append, Function.update_self, if_pos rfl]
  · rw [Log.append, Function.update_of_ne he, if_neg he]

theorem append_size : itemsSize c (d.append g it g).items = itemsSize c (d g).items + it.size c := by
  rw [append_items, if_pos rfl, itemsSize_append, itemsSize_cons, itemsSize_nil, Nat.add_zero]

variable (c) in
/-- What the copy of one item to the end of the block `g` does. -/
structure Copies (s : KvMgr) (d : Log) (g : ℕ) (it : Item) (s' : KvMgr) : Prop where
  rep : Rep c s'.flash (d.append g it)
  past : s'.past = s.flash :: s.past
  writePos : s'.writePos = endPos c (d.append g it) g
  cleanBlkNums : s'.cleanBlkNums = s.cleanBlkNums
  state : ∀ i, (s'.blockInfo i).state = (s.blockInfo i).state
  space : ∀ i, i ≠ g → (s'.blockInfo i).space = (s.blockInfo i).space
  space_self : (s'.blockInfo g).space = (s.blockInfo g).space - it.size c

theorem itemGcCb_copies (hrep : Rep c s.flash d) (h : Holds s.flash pos (it.bytes c))
    (hw : s.writePos = endPos c d g) (hst : (d g).state ≠ none)
    (hfit : blkHeaderSize + itemsSize c (d g).items + it.size c < blkSize) :
    ∃ s', itemGcCb c (it.view pos) s = (s', it.view pos, .cont) ∧ Copies c s d g it s' := by
  -- the copy ends in the same block
  have hidx : (s.writePos + it.size c) / blkSize = g := by
    rw [hw]
    unfold endPos
    simp only [blkSize, blkHeaderSize] at *
    omega
  have hrep' := hrep.append it hst hfit
  rw [← hw] at hrep'
  rw [itemGcCb_view h]
  simp only [hidx]
  refine ⟨_, rfl, hrep', rfl, ?_, rfl, fun i => ?_, fun i hi => ?_, ?_⟩
  · show s.writePos + it.size c = _
    rw [hw, endPos, endPos, append_size, Nat.add_assoc]
  · simp only [KvMgr.setSpace, KvMgr.setBlockInfo]
    split
    · rename_i he
      rw [he]
      rfl
    · rfl
  · simp only [KvMgr.setSpace, KvMgr.setBlockInfo]
    rw [if_neg hi]
    rfl
  · simp only [KvMgr.setSpace, KvMgr.setBlockInfo]
    rw [if_pos trivial]
    rfl

theorem traverseLoop_gc (hv : v < c.blkNums) (hne : v ≠ g)
    (hrep : Rep c s.flash d) (hd : (d v).items = pre ++ rest)
    (hpos : pos = v * blkSize + blkHeaderSize + itemsSize c pre) (hw : s.writePos = endPos c d g)
    (hst : (d g).state ≠ none)
    (hfit : blkHeaderSize + itemsSize c (d g).items + itemsSize c (liveItems rest) < blkSize)
    (hdirty : (s.blockInfo v).state ≠ blkStateUsed)
    (hfuel : v * blkSize + blkSize ≤ pos + itemHeaderSize * fuel)
    (hsv : (s.blockInfo v).space = blkSize - (blkHeaderSize + itemsSize c (d v).items))
    (hsg : (s.blockInfo g).space = blkSize - (blkHeaderSize + itemsSize c (d g).items)) :
    ∃ s', traverseLoop c (itemGcCb c) v fuel pos s = (s', none) ∧
      Rep c s'.flash (d.extend g (liveItems rest)) ∧
      s'.writePos = endPos c (d.extend g (liveItems rest)) g ∧
      s'.cleanBlkNums = s.cleanBlkNums ∧
      (∀ i, (s'.blockInfo i).state = (s.blockInfo i).state) ∧
      (∀ i, i ≠ g → (s'.blockInfo i).space = (s.blockInfo i).space) ∧
      (s'.blockInfo g).space =
        blkSize - (blkHeaderSize + itemsSize c (d.extend g (liveItems rest) g).items) ∧
      Grows s s' fun f => ∃ l, l <+: liveItems rest ∧ Rep c f (d.extend g l) := by
  have htail := (hrep v hv).tail hd
  rw [← hpos] at htail
  induction rest generalizing d s pre pos fuel with
  | nil =>
    have hfits := htail.fits
    rw [itemsSize_nil, Nat.add_zero] at hfits
    have hsp : v * blkSize + blkSize = pos + (s.blockInfo v).space := by
      have := (hrep v hv).fits
      rw [hd, List.append_nil] at this hsv
      omega
    refine ⟨s, ?_, ?_⟩
    · rw [traverseLoop_nil htail, traverseEnd_eq hfits hsp, setSpace_self rfl]
    · rw [show liveItems [] = [] from rfl, extend_nil]
      exact ⟨hrep, hw, rfl, fun _ => rfl, fun _ _ => rfl, hsg, .refl rfl⟩
  | cons it rest ih =>
    have hfits := htail.fits
    have hsz := it.lt_size c
    rw [itemsSize_cons] at hfits
    have hd' : (d v).items = (pre ++ [it]) ++ rest := by rw [hd]; simp
    have hpos' : pos + it.size c = v * blkSize + blkHeaderSize + itemsSize c (pre ++ [it]) := by
      rw [itemsSize_append, itemsSize_cons, itemsSize_nil]
      omega
    cases fuel with
    | zero => omega
    | succ fuel =>
      have hfuel' : v * blkSize + blkSize ≤ pos + it.size c + itemHeaderSize * fuel := by
        rw [Nat.mul_add] at hfuel
        omega
      rw [traverseLoop_cons htail]
      cases hl : it.live with
      | false =>
        rw [liveItems_cons_dead hl] at hfit ⊢
        rw [if_neg (by decide), KvMgr.markDirty, if_neg hdirty]
        exact ih hrep hd' hpos' hw hst hfit hdirty hfuel' hsv hsg htail.next
      | true =>
        rw [liveItems_cons_live hl] at hfit ⊢
        rw [itemsSize_cons] at hfit
        obtain ⟨s₂, hcb, hs2⟩ := itemGcCb_copies hrep htail.head hw hst (by omega)
        rw [if_pos rfl, hcb]
        have hapv : (d.append g it v).items = (d v).items := by rw [append_items, if_neg hne]
        have hst2 : (d.append g it g).state ≠ none := by
          rw [Log.append, Function.update_self]
          exact hst
        have hdirty2 : (s₂.blockInfo v).state ≠ blkStateUsed := by
          rw [hs2.state]
          exact hdirty
        have hsv2 : (s₂.blockInfo v).space =
            blkSize - (blkHeaderSize + itemsSize c (d.append g it v).items) := by
          rw [hs2.space v hne, hapv]
          exact hsv
        have hsg2 : (s₂.blockInfo g).space =
            blkSize - (blkHeaderSize + itemsSize c (d.append g it g).items) := by
          rw [hs2.space_self, append_size]
          omega
        have htail2 := (hs2.rep v hv).tail (hapv.trans hd')
        rw [← hpos'] at htail2
        obtain ⟨s', hrun, hr, hw', hc, hstates, hspaces, hsg', hgr⟩ :=
          @ih (d.append g it) s₂ (pos + it.size c) fuel (pre ++ [it]) hs2.rep (hapv.trans hd') hpos'
            hs2.writePos hst2 (by rw [append_size]; omega) hdirty2 hfuel' hsv2 hsg2 htail2
        rw [extend_append] at hr hw' hsg'
        refine ⟨s', hrun, hr, hw', hc.trans hs2.cleanBlkNums, fun i => ?_, fun i hi => ?_, hsg', ?_⟩
        · rw [hstates, hs2.state]
        · rw [hspaces i hi, hs2.space i hi]
        · refine Grows.trans (Grows.one hs2.past ⟨[], List.nil_prefix, ?_⟩) (hgr.mono ?_)
          · rw [extend_nil]
            exact hrep
          · rintro f ⟨l, hl, hf⟩
            refine ⟨it :: l, by rwa [List.cons_prefix_cons, eq_self, true_and], ?_⟩
            rwa [extend_append] at hf

/-! ## What an image reads as -/

variable (c) in
/-- The log has the valid item `it`. -/
def Has (d : Log) (it : Item) : Prop := ∃ b < c.blkNums, it ∈ (d b).items ∧ it.live = true

theorem has_iff : Has c d it ↔ ∃ p, Lives c d p it := by
  constructor
  · rintro ⟨b, hb, hm, hl⟩
    obtain ⟨p, hp⟩ := exists_placed hm
    exact ⟨p, ⟨b, hb, hp⟩, hl⟩
  · rintro ⟨p, ⟨b, hb, hp⟩, hl⟩
    exact ⟨b, hb, mem_of_placed hp, hl⟩

variable (c) in
/-- A value the log has for a key, or `none` when it has no valid item of it. -/
def Reads (d : Log) (key : List UInt8) : Option (List UInt8) → Prop
  | some val => ∃ it, Has c d it ∧ it.key = key ∧ it.val = val
  | none => ∀ it, Has c d it → it.key ≠ key

theorem reads_congr (h : ∀ it, Has c d' it ↔ Has c d it) {key : List UInt8}
    {o : Option (List UInt8)} : Reads c d' key o ↔ Reads c d key o := by
  cases o <;> simp only [Reads, h]

variable (c) in
/-- The block is erased, or formatted and empty. -/
def Spare (d : Log) (b : ℕ) : Prop :=
  (d b).items = [] ∧ ((d b).state = none ∨ (d b).state = some blkStateClean)

variable (c) in
/-- A clean block that holds items is being copied to: there is a spare block,
    or its keys are elsewhere, too. -/
def Shape (d : Log) : Prop :=
  ∀ u < c.blkNums, (d u).state = some blkStateClean → (d u).items ≠ [] →
    (∃ b < c.blkNums, Spare d b) ∨
      ∀ it ∈ (d u).items, it.live = true →
        ∃ b < c.blkNums, b ≠ u ∧ ∃ x ∈ (d b).items, x.live = true ∧ x.key = it.key

variable (c) in
/-- What a power cut between the logs `d` and `d'` can leave: every key reads
    as it does in one of them. -/
def CrashImg (d d' : Log) (f : Flash) : Prop :=
  ∃ d₀, Rep c f d₀ ∧ Shape c d₀ ∧ ∀ key o, Reads c d₀ key o → Reads c d key o ∨ Reads c d' key o

theorem Img.crashImg (h : Img c d f) : CrashImg c d d' f := by
  obtain ⟨d₀, hr, ht, hl⟩ := h
  refine ⟨d₀, hr, fun u hu hst hne => absurd (ht u hu hst) hne, fun key o ho => .inl ?_⟩
  refine (reads_congr fun it => ?_).1 ho
  rw [has_iff, has_iff]
  simp only [hl]

theorem CrashImg.symm (h : CrashImg c d d' f) : CrashImg c d' d f := by
  obtain ⟨d₀, hr, hs, h⟩ := h
  exact ⟨d₀, hr, hs, fun key o ho => (h key o ho).symm⟩

/-! ## The logs of a collection -/

theorem has_extend (hv : v < c.blkNums) (hg : g < c.blkNums) (hne : v ≠ g)
    (hgi : (d g).items = []) (hl : ∀ it ∈ l, it ∈ liveItems (d v).items) :
    Has c (d.extend g l) it ↔ Has c d it := by
  constructor
  · rintro ⟨b, hb, hm, hlive⟩
    by_cases he : b = g
    · subst he
      rw [extend_self, hgi, List.nil_append] at hm
      exact ⟨v, hv, (mem_liveItems.1 (hl it hm)).1, hlive⟩
    · rw [extend_ne he] at hm
      exact ⟨b, hb, hm, hlive⟩
  · rintro ⟨b, hb, hm, hlive⟩
    by_cases he : b = g
    · subst he
      rw [hgi] at hm
      simp at hm
    · exact ⟨b, hb, by rwa [extend_ne he], hlive⟩

theorem has_moved {blk : Blk} (hv : v < c.blkNums) (hg : g < c.blkNums) (hne : v ≠ g)
    (hgi : (d g).items = []) (hblk : blk.items = []) :
    Has c (Function.update (d.extend g (liveItems (d v).items)) v blk) it ↔ Has c d it := by
  constructor
  · rintro ⟨b, hb, hm, hlive⟩
    by_cases he : b = v
    · subst he
      rw [Function.update_self, hblk] at hm
      simp at hm
    · rw [Function.update_of_ne he] at hm
      exact (has_extend hv hg hne hgi fun _ h => h).1 ⟨b, hb, hm, hlive⟩
  · rintro ⟨b, hb, hm, hlive⟩
    by_cases he : b = v
    · subst he
      refine ⟨g, hg, ?_, hlive⟩
      rw [Function.update_of_ne hne.symm, extend_self, hgi, List.nil_append]
      exact mem_liveItems.2 ⟨hm, hlive⟩
    · have heg : b ≠ g := by
        rintro rfl
        rw [hgi] at hm
        simp at hm
      exact ⟨b, hb, by rwa [Function.update_of_ne he, extend_ne heg], hlive⟩

/-- The log after a collection: the items of `v` are in `g`, and `v` is empty. -/
def Log.moved (d : Log) (v g : ℕ) : Log :=
  ((d.extend g (liveItems (d v).items)).format v).setState g blkStateUsed

theorem moved_items (hne : v ≠ g) (hgi : (d g).items = []) :
    (d.moved v g b).items =
      if b = g then liveItems (d v).items else if b = v then [] else (d b).items := by
  rw [Log.moved, sameItems_setState b, Log.format]
  by_cases hb : b = g
  · subst hb
    rw [if_pos rfl, Function.update_of_ne hne.symm, extend_self, hgi, List.nil_append]
  · rw [if_neg hb]
    by_cases hbv : b = v
    · subst hbv
      rw [if_pos rfl, Function.update_self]
    · rw [if_neg hbv, Function.update_of_ne hbv, extend_ne hb]

theorem moved_state :
    (d.moved v g b).state =
      if b = g then some blkStateUsed else if b = v then some blkStateClean else (d b).state := by
  rw [Log.moved, setState_state, Log.format]
  by_cases hb : b = g
  · rw [if_pos hb, if_pos hb]
  · rw [if_neg hb, if_neg hb]
    by_cases hbv : b = v
    · subst hbv
      rw [if_pos rfl, Function.update_self]
    · rw [if_neg hbv, Function.update_of_ne hbv, extend_ne hb]

theorem Unique.moved (h : Unique c d) (hrep : Rep c f d) (hv : v < c.blkNums) (hne : v ≠ g)
    (hgi : (d g).items = []) : Unique c (d.moved v g) := by
  intro p q x y hx hy hk
  -- an item is a copy, or where it was
  have hat : ∀ {p x}, Lives c (d.moved v g) p x →
      (p, x) ∈ placed c (g * blkSize + blkHeaderSize) (liveItems (d v).items) ∨
        Lives c d p x ∧ p / blkSize ≠ v := by
    rintro p x ⟨⟨b, hb, hm⟩, hl⟩
    rw [moved_items hne hgi] at hm
    split at hm
    · rename_i he
      rw [he] at hm
      exact .inl hm
    · split at hm
      · simp [placed_nil] at hm
      · rename_i he
        refine .inr ⟨⟨⟨b, hb, hm⟩, hl⟩, ?_⟩
        rw [(placed_block hrep hb hm).2.2]
        exact he
  -- a copy has no other item of its key
  have hother : ∀ {p q x y}, (p, x) ∈ placed c (g * blkSize + blkHeaderSize)
      (liveItems (d v).items) → Lives c d q y → q / blkSize ≠ v → x.key ≠ y.key := by
    intro p q x y hx hy hq hk
    obtain ⟨hm, hlx⟩ := mem_liveItems.1 (mem_of_placed hx)
    obtain ⟨p', hp'⟩ := @exists_placed c (v * blkSize + blkHeaderSize) x _ hm
    have := h p' q x y ⟨⟨v, hv, hp'⟩, hlx⟩ hy hk
    rw [← this, (placed_block hrep hv hp').2.2] at hq
    exact hq rfl
  rcases hat hx with hx | ⟨hx, hpv⟩ <;> rcases hat hy with hy | ⟨hy, hqv⟩
  · obtain ⟨p', q', hp', hq', he⟩ := @placed_liveItems c p q (v * blkSize + blkHeaderSize) _ _ x y hx hy
    refine he (h p' q' x y ⟨⟨v, hv, hp'⟩, ?_⟩ ⟨⟨v, hv, hq'⟩, ?_⟩ hk)
    · exact (mem_liveItems.1 (mem_of_placed hx)).2
    · exact (mem_liveItems.1 (mem_of_placed hy)).2
  · exact absurd hk (hother hx hy hqv)
  · exact absurd hk.symm (hother hy hx hpv)
  · exact h p q x y hx hy hk

/-! ## Collection -/

theorem gcVictim_spec {origin fuel i r : ℕ} (hi : i ≤ c.blkNums)
    (h : gcVictim c s origin fuel i = some r) :
    r < c.blkNums ∧ (s.blockInfo r).state = blkStateDirty := by
  induction fuel generalizing i with
  | zero => cases h
  | succ fuel ih =>
    have htwo := c.two_le
    rw [gcVictim] at h
    have hj : (if i = c.blkNums then 0 else i) < c.blkNums := by split <;> omega
    generalize (if i = c.blkNums then 0 else i) = j at h hj
    by_cases hd : (s.blockInfo j).state = blkStateDirty
    · simp only [if_pos hd, Option.some.injEq] at h
      subst h
      exact ⟨hj, hd⟩
    · simp only [if_neg hd] at h
      split at h
      · cases h
      · exact ih hj h

theorem kvBlockFormat_rep (h : Rep c s.flash d) :
    Rep c (s.kvBlockFormat b).flash (d.format b) := by
  have hf : (d.erase b).format b = d.format b := Function.update_idem ..
  rw [← hf]
  exact h.erase.format (Function.update_self ..)

/-- The valid items of `v` are copied to `g`, and `s₁` is behind the last copy. -/
structure Gathered (c : KvConfig) (d : Log) (s s₁ : KvMgr) (g v : ℕ) : Prop where
  rep : Rep c s₁.flash (d.extend g (liveItems (d v).items))
  writePos : s₁.writePos = endPos c (d.extend g (liveItems (d v).items)) g
  count : s₁.cleanBlkNums = s.cleanBlkNums
  state : ∀ i, (s₁.blockInfo i).state = (s.blockInfo i).state
  space : ∀ i, i ≠ g → (s₁.blockInfo i).space = (s.blockInfo i).space
  space_self : (s₁.blockInfo g).space =
    blkSize - (blkHeaderSize + itemsSize c (d.extend g (liveItems (d v).items) g).items)
  grows : Grows s s₁ fun f => ∃ l, l <+: liveItems (d v).items ∧ Rep c f (d.extend g l)

/-- What `gc_collect` does behind the copies. -/
def KvMgr.swap (s : KvMgr) (g v : ℕ) : KvMgr :=
  { ((s.kvBlockFormat v).kvStateSet (g * blkSize) blkStateUsed).setBlkState g blkStateUsed with
    cleanBlkNums := s.cleanBlkNums + 1 - 1 }

theorem Inv.gathered (h : Inv c s d) (hg : g < c.blkNums) (hgc : (d g).state = some blkStateClean)
    (hv : v < c.blkNums) (hvd : (s.blockInfo v).state = blkStateDirty) (hne : v ≠ g) :
    ∃ s₁, Gathered c d s s₁ g v ∧
      gcCollect c { s with writePos := g * blkSize + blkHeaderSize } g v = s₁.swap g v := by
  have hgi := h.clean g hg hgc
  have hfv := (h.rep v hv).fits
  have hlive := @liveItems_size_le c (d v).items
  obtain ⟨s₁, hrun, hrep, hw, hc, hst, hsp, hsg, hgr⟩ :=
    @traverseLoop_gc c d { s with writePos := g * blkSize + blkHeaderSize } g v
      (v * blkSize + blkHeaderSize) (blkSize / itemHeaderSize) [] (d v).items hv hne h.rep
      (by simp) (by simp) (by simp [endPos, hgi]) (by simp [hgc])
      (by rw [hgi, itemsSize_nil]; omega) (by simp [hvd]; decide)
      (by simp only [itemHeaderSize, blkSize]; omega) (h.space v hv) (h.space g hg)
  refine ⟨s₁, ⟨hrep, hw, hc, hst, hsp, hsg, hgr⟩, ?_⟩
  have hdiv : s₁.writePos / blkSize = g := by rw [hw, endPos_div hrep hg]
  unfold gcCollect kvItemTraverse KvMgr.swap
  rw [hrun]
  show ({ (((s₁.kvBlockFormat v).kvStateSet (s₁.writePos / blkSize * blkSize)
    blkStateUsed).setBlkState g blkStateUsed) with cleanBlkNums := _ } : KvMgr) = _
  rw [hdiv]
  rfl

theorem swap_blockInfo (hne : v ≠ g) : (s.swap g v).blockInfo b =
    if b = g then ⟨(s.blockInfo g).space, blkStateUsed⟩
    else if b = v then ⟨blkSize - blkHeaderSize, blkStateClean⟩ else s.blockInfo b := by
  simp only [KvMgr.swap, KvMgr.setBlkState, KvMgr.setBlockInfo, KvMgr.kvStateSet, KvMgr.rawWrite,
    KvMgr.kvBlockFormat, KvMgr.rawErase]
  split
  · rw [if_neg hne.symm]
  · rfl

theorem card_cleanBlks_moved (hg : g ∈ cleanBlks c d) (hv : v < c.blkNums) (hne : v ≠ g)
    (hvs : (d v).state = some blkStateDirty) : (cleanBlks c (d.moved v g)).card = (cleanBlks c d).card := by
  have hclean : cleanBlks c (d.moved v g) = insert v ((cleanBlks c d).erase g) := by
    ext b
    rw [Finset.mem_insert, Finset.mem_erase, mem_cleanBlks, mem_cleanBlks, moved_state]
    by_cases hbg : b = g
    · subst hbg
      have hst : blkStateUsed ≠ blkStateClean := by decide
      simp [hne.symm, hst]
    · by_cases hbv : b = v
      · subst hbv
        simp [hbg, hv]
      · simp [hbg, hbv]
  have hvn : v ∉ (cleanBlks c d).erase g := by
    rw [Finset.mem_erase, mem_cleanBlks, hvs]
    rintro ⟨-, -, hc⟩
    cases hc
  have hpos : 0 < (cleanBlks c d).card := Finset.card_pos.2 ⟨g, hg⟩
  rw [hclean, Finset.card_insert_of_notMem hvn, Finset.card_erase_of_mem hg]
  omega

/-- An image with copies of items of `v` in the clean block `g`: the originals are still there. -/
theorem Backed.crashImg_extend (h : Backed c s d) (hg : g < c.blkNums) (hgi : (d g).items = [])
    (hv : v < c.blkNums) (hne : v ≠ g) (hl : l <+: liveItems (d v).items) (hr : Rep c f (d.extend g l)) :
    CrashImg c d d f := by
  have hsub : ∀ it ∈ l, it ∈ liveItems (d v).items := fun it hit => hl.subset hit
  refine ⟨_, hr, fun u hu hst hun => ?_, fun key o ho =>
    .inl ((reads_congr fun it => has_extend hv hg hne hgi hsub).1 ho)⟩
  by_cases hug : u = g
  · subst hug
    rw [extend_self, hgi, List.nil_append]
    refine .inr fun it hit hlive => ⟨v, hv, hne, it, ?_, hlive, rfl⟩
    rw [extend_ne hne]
    exact (mem_liveItems.1 (hsub it hit)).1
  · rw [extend_ne hug] at hst hun
    exact absurd (h.clean u hu hst) hun

theorem crashImg_spare {blk : Blk} (hg : g < c.blkNums) (hgi : (d g).items = []) (hv : v < c.blkNums)
    (hne : v ≠ g) (hblk : blk.items = []) (hst : blk.state = none ∨ blk.state = some blkStateClean)
    (hr : Rep c f (Function.update (d.extend g (liveItems (d v).items)) v blk)) : CrashImg c d d f := by
  refine ⟨_, hr, fun u _ _ _ => .inl ⟨v, hv, ?_, ?_⟩, fun key o ho =>
    .inl ((reads_congr fun it => has_moved hv hg hne hgi hblk).1 ho)⟩
  · rw [Function.update_self, hblk]
  · rw [Function.update_self]
    exact hst

namespace Gathered

variable {s₁ : KvMgr} (hs : Gathered c d s s₁ g v) (hne : v ≠ g)
include hs hne

theorem rep_swap (hgc : (d g).state = some blkStateClean) : Rep c (s₁.swap g v).flash (d.moved v g) := by
  have hst : ((d.extend g (liveItems (d v).items)).format v g).state = some blkStateClean := by
    rw [Log.format, Function.update_of_ne hne.symm, extend_self, hgc]
  exact (kvBlockFormat_rep hs.rep).setState (by decide) (by rw [hst]; simp)

theorem backed (h : Backed c s d) (hgc : (d g).state = some blkStateClean) (hgi : (d g).items = []) :
    Backed c (s₁.swap g v) (d.moved v g) := by
  refine ⟨hs.rep_swap hne hgc, fun b hb => ?_, fun b hb => ?_, fun b hb hcl => ?_, fun b hb hus => ?_⟩
  · rw [moved_state, swap_blockInfo hne]
    split
    · rfl
    · split
      · rfl
      · rw [hs.state]
        exact h.state b hb
  · rw [moved_items hne hgi, swap_blockInfo hne]
    split
    · rename_i he
      rw [hs.space_self, extend_self, hgi, List.nil_append]
    · split
      · simp
      · rename_i hbg hbv
        rw [hs.space b hbg]
        exact h.space b hb
  · rw [moved_state] at hcl
    rw [moved_items hne hgi]
    split at hcl
    · cases hcl
    · rename_i hbg
      rw [if_neg hbg]
      split at hcl
      · rename_i hbv
        rw [if_pos hbv]
      · rename_i hbv
        rw [if_neg hbv]
        exact h.clean b hb hcl
  · rw [moved_state] at hus
    rw [moved_items hne hgi]
    split at hus
    · rename_i hbg
      rw [if_pos hbg]
      exact fun it hit => (mem_liveItems.1 hit).2
    · rename_i hbg
      rw [if_neg hbg]
      split at hus
      · cases hus
      · rename_i hbv
        rw [if_neg hbv]
        exact h.used b hb hus

theorem grows_swap (h : Backed c s d) (hg : g < c.blkNums) (hgi : (d g).items = []) (hv : v < c.blkNums) :
    Grows s (s₁.swap g v) (CrashImg c d d) := by
  refine Grows.trans (hs.grows.mono fun f hf => ?_) (Grows.trans (Grows.one rfl ?_)
    (Grows.trans (Grows.one rfl ?_) (Grows.one rfl ?_)))
  · obtain ⟨l, hl, hr⟩ := hf
    exact h.crashImg_extend hg hgi hv hne hl hr
  · exact h.crashImg_extend hg hgi hv hne (List.prefix_refl _) hs.rep
  · exact crashImg_spare hg hgi hv hne rfl (.inl rfl) hs.rep.erase
  · exact crashImg_spare hg hgi hv hne rfl (.inr rfl) (kvBlockFormat_rep hs.rep)

end Gathered

theorem Inv.collect (h : Inv c s d) (hg : g ∈ cleanBlks c d) (hv : v < c.blkNums)
    (hvd : (s.blockInfo v).state = blkStateDirty) :
    Inv c (gcCollect c { s with writePos := g * blkSize + blkHeaderSize } g v) (d.moved v g) ∧
      (gcCollect c { s with writePos := g * blkSize + blkHeaderSize } g v).cleanBlkNums =
        s.cleanBlkNums ∧
      (∀ it, Has c (d.moved v g) it ↔ Has c d it) ∧
      Grows s (gcCollect c { s with writePos := g * blkSize + blkHeaderSize } g v)
        (CrashImg c d d) := by
  obtain ⟨hgn, hgc⟩ := mem_cleanBlks.1 hg
  have hgi := h.clean g hgn hgc
  have hvs : (d v).state = some blkStateDirty := by rw [h.state v hv, hvd]
  have hne : v ≠ g := by
    rintro rfl
    rw [hvs] at hgc
    cases hgc
  obtain ⟨s₁, hs, hrun⟩ := h.gathered hgn hgc hv hvd hne
  have hcount : (s₁.swap g v).cleanBlkNums = s.cleanBlkNums := by
    show s₁.cleanBlkNums + 1 - 1 = _
    rw [hs.count]
    rfl
  rw [hrun]
  refine ⟨⟨hs.backed hne h.toBacked hgc hgi, ?_, g, hgn, ?_, ?_⟩, hcount, fun it => ?_,
    hs.grows_swap hne h.toBacked hgn hgi hv⟩
  · rw [hcount, h.count, card_cleanBlks_moved hg hv hne hvs]
  · rw [moved_state, if_pos rfl]
    decide
  · show s₁.writePos = _
    rw [hs.writePos, endPos, endPos, moved_items hne hgi, if_pos rfl, extend_self, hgi, List.nil_append]
  · rw [Log.moved, has_iff]
    simp only [sameItems_setState.lives_iff]
    rw [← has_iff]
    exact has_moved hv hgn hne hgi rfl

theorem Inv.gc (h : Inv c s d) :
    ∃ d', Inv c (aosKvGc c s) d' ∧ (∀ it, Has c d' it ↔ Has c d it) ∧
      (Unique c d → Unique c d') ∧ (aosKvGc c s).cleanBlkNums = s.cleanBlkNums ∧
      Grows s (aosKvGc c s) (CrashImg c d d) := by
  obtain ⟨b, hb, hst, hw⟩ := h.write
  have hsame : ∀ m : KvMgr, m.flash = s.flash → m.past = s.past → m.cleanBlkNums = s.cleanBlkNums →
      m.writePos = s.writePos → m.blockInfo = s.blockInfo →
      ∃ d', Inv c m d' ∧ (∀ it, Has c d' it ↔ Has c d it) ∧ (Unique c d → Unique c d') ∧
        m.cleanBlkNums = s.cleanBlkNums ∧ Grows s m (CrashImg c d d) := by
    intro m hf hp hc hwp hi
    refine ⟨d, ⟨⟨by rw [hf]; exact h.rep, ?_, ?_, h.clean, h.used⟩, by rw [hc]; exact h.count, b, hb,
      hst, by rw [hwp]; exact hw⟩, fun _ => Iff.rfl, id, hc, .refl hp⟩
    · rw [hi]; exact h.state
    · rw [hi]; exact h.space
  unfold aosKvGc
  simp only
  split
  · exact hsame _ rfl rfl rfl rfl rfl
  · split
    · exact hsame _ rfl rfl rfl rfl rfl
    · rename_i g hfind
      have hgst := List.find?_some hfind
      have hgn := List.mem_range.1 (List.mem_of_find?_eq_some hfind)
      simp only [decide_eq_true_eq] at hgst
      have hg : g ∈ cleanBlks c d := mem_cleanBlks.2 ⟨hgn, by rw [h.state g hgn, hgst]⟩
      split
      · rename_i v hvict
        obtain ⟨hv, hvd⟩ := gcVictim_spec (by rw [hw, endPos_div h.rep hb]; omega) hvict
        have hvd' : (s.blockInfo v).state = blkStateDirty := hvd
        obtain ⟨hinv, hc, hh, hgr⟩ := h.collect hg hv hvd'
        have hne : v ≠ g := by
          rintro rfl
          rw [hvd'] at hgst
          cases hgst
        refine ⟨d.moved v g, ⟨⟨hinv.rep, hinv.state, hinv.space, hinv.clean, hinv.used⟩, hinv.count,
          hinv.write⟩, hh, fun hu => hu.moved h.rep hv hne (h.clean g hgn ?_), hc, hgr⟩
        rw [h.state g hgn, hgst]
      · exact hsame _ rfl rfl rfl rfl rfl

end Kv
