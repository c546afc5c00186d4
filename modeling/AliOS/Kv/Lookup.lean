/-
  Key-value store: traversal of a block, and lookup.

  `kv_item_traverse` meets the items of the log in order.  Where the manager
  mirrors the log (`Backed`), a lookup changes nothing and finds a valid item
  of its key if there is one.
-/
import AliOS.Kv.Log

namespace Kv

open Lib

variable (c : KvConfig)

/-! ## What a traversal meets -/

/-- From `pos` on the block holds `rest`, and is erased behind it. -/
structure Tail (f : Flash) (end_ pos : ℕ) (rest : List Item) : Prop where
  items : Holds f pos (itemsBytes c rest)
  free : ∀ a, pos + itemsSize c rest ≤ a → a < end_ → f a = 0xFF
  fits : pos + itemsSize c rest < end_

variable {c} {f : Flash} {d : Log} {s : KvMgr} {b pos end_ fuel : ℕ} {it it' : Item}
  {pre rest : List Item} {func : ItemFunc} {key : List UInt8}

theorem BlkRep.tail {base : ℕ} {blk : Blk} (h : BlkRep c f base blk)
    (he : blk.items = pre ++ rest) :
    Tail c f (base + blkSize) (base + blkHeaderSize + itemsSize c pre) rest := by
  have hi := h.items
  have hf := h.fits
  have hr := h.rest
  rw [he, itemsBytes, List.flatMap_append, holds_append] at hi
  rw [he, itemsSize_append] at hf hr
  refine ⟨?_, fun a h1 h2 => hr a (by omega) h2, by omega⟩
  have := hi.2
  rwa [show (pre.flatMap (·.bytes c)).length = itemsSize c pre from itemsBytes_length] at this

theorem BlkRep.tail_all {base : ℕ} {blk : Blk} (h : BlkRep c f base blk) :
    Tail c f (base + blkSize) (base + blkHeaderSize) blk.items :=
  ⟨h.items, h.rest, by have := h.fits; omega⟩

theorem Tail.head (h : Tail c f end_ pos (it :: rest)) : Holds f pos (it.bytes c) := by
  have := h.items
  rw [itemsBytes, List.flatMap_cons, holds_append] at this
  exact this.1

theorem Tail.next (h : Tail c f end_ pos (it :: rest)) : Tail c f end_ (pos + it.size c) rest := by
  have hi := h.items
  have hr := h.free
  have hf := h.fits
  rw [itemsBytes, List.flatMap_cons, holds_append, Item.bytes_length] at hi
  rw [itemsSize_cons] at hr hf
  exact ⟨hi.2, fun a h1 h2 => hr a (by omega) h2, by omega⟩

theorem traverseLoop_nil (h : Tail c s.flash (b * blkSize + blkSize) pos []) :
    traverseLoop c func b fuel pos s = (traverseEnd s b pos, none) := by
  cases fuel with
  | zero => rfl
  | succ fuel =>
    have hfree := h.free
    have hfits := h.fits
    simp only [itemsSize_nil, Nat.add_zero] at hfree hfits
    rw [traverseLoop]
    split
    · rename_i hlt
      have hl : pos + 1 < b * blkSize + blkSize := by simp only [itemHeaderSize] at hlt; omega
      rw [if_pos]
      exact ⟨hfree pos le_rfl hfits, hfree (pos + 1) (by omega) hl⟩
    · rfl

/-- At an item the traversal calls `func` if the item is valid, and marks the
    block dirty otherwise. -/
theorem traverseLoop_cons (h : Tail c s.flash (b * blkSize + blkSize) pos (it :: rest)) :
    traverseLoop c func b (fuel + 1) pos s =
      if it.live then
        match func (it.view pos) s with
        | (s, item, .ok) => (s, some item)
        | (s, _, .cont) => traverseLoop c func b fuel (pos + it.size c) s
        | (s, _, _) => (s, none)
      else traverseLoop c func b fuel (pos + it.size c) (s.markDirty b) := by
  have hfits := h.fits
  have hsz := it.lt_size c
  have hk := it.key_le
  have hv := it.val_le
  rw [itemsSize_cons] at hfits
  rw [traverseLoop, if_pos (by omega), readItemHdr_of_holds h.head]
  have hmagic : ¬ (it.hdr.magic = 0xFF ∧ it.hdr.state = 0xFF) := fun hc =>
    absurd (show itemMagicNum = 0xFF from hc.1) (by decide)
  have hlen : ¬ (it.hdr.magic ≠ itemMagicNum ∨ it.hdr.valLen > itemMaxValLen ∨
      it.hdr.keyLen > itemMaxKeyLen) := by
    simp only [Item.hdr]
    rintro (hc | hc | hc)
    · exact hc rfl
    · omega
    · omega
  simp only [if_neg hmagic, if_neg hlen]
  cases hl : it.live with
  | true =>
    have hst : it.hdr.state = itemStateNormal := by simp [Item.hdr, hl]
    rw [if_pos hst]
    rfl
  | false =>
    have hst : it.hdr.state ≠ itemStateNormal := by simp [Item.hdr, hl]; decide
    rw [if_neg hst]
    rfl

/-! ## The log of an image -/

theorem Item.eq_of_holds (h : Holds f pos (it.bytes c)) (h' : Holds f pos (it'.bytes c)) :
    it = it' := by
  have hh : it.hdr = it'.hdr := (readItemHdr_of_holds h).symm.trans (readItemHdr_of_holds h')
  have hk : it.key.length = it'.key.length := congrArg ItemHdr.keyLen hh
  have hv : it.val.length = it'.val.length := congrArg ItemHdr.valLen hh
  have ho : it.origin = it'.origin := congrArg ItemHdr.originOff hh
  have hkv : it.key ++ it.val = it'.key ++ it'.val := by
    rw [← rawRead_of_holds h, ← rawRead_of_holds h', hk, hv]
  have hl : it.live = it'.live := by
    have hst : (if it.live then itemStateNormal else itemStateDelete) =
        if it'.live then itemStateNormal else itemStateDelete := congrArg ItemHdr.state hh
    cases h1 : it.live <;> cases h2 : it'.live
    · rfl
    · rw [h1, h2] at hst; exact absurd hst (by decide)
    · rw [h1, h2] at hst; exact absurd hst (by decide)
    · rfl
  obtain ⟨hke, hva⟩ := List.append_inj hkv hk
  obtain ⟨_, _, _, _, _, _, _, _⟩ := it
  obtain ⟨_, _, _, _, _, _, _, _⟩ := it'
  cases hl; cases hke; cases hva; cases ho
  rfl

theorem Tail.not_nil (h : Tail c f end_ pos (it :: rest)) : ¬ Tail c f end_ pos [] := by
  intro h'
  have hfits := h'.fits
  rw [itemsSize_nil, Nat.add_zero] at hfits
  have h0 : f pos = 0xFF := h'.free pos le_rfl hfits
  have hm : f pos = itemMagicNum := congrArg ItemHdr.magic (readItemHdr_of_holds h.head)
  rw [h0] at hm
  exact absurd hm (by decide)

theorem Tail.inj {rest' : List Item} (h : Tail c f end_ pos rest) (h' : Tail c f end_ pos rest') :
    rest = rest' := by
  induction rest generalizing pos rest' with
  | nil =>
    cases rest' with
    | nil => rfl
    | cons it' rest' => exact absurd h h'.not_nil
  | cons it rest ih =>
    cases rest' with
    | nil => exact absurd h' h.not_nil
    | cons it' rest' =>
      obtain rfl := Item.eq_of_holds h.head h'.head
      rw [ih h.next h'.next]

theorem Rep.inj (h : Rep c f d) {d' : Log} (h' : Rep c f d') (hb : b < c.blkNums) : d b = d' b := by
  have h1 := h b hb
  have h2 := h' b hb
  have hst : (d b).state = (d' b).state := by
    cases hs : (d b).state with
    | none =>
      cases hs' : (d' b).state with
      | none => rfl
      | some st =>
        have hm := (h1.noHeader hs).1
        rw [(h2.header st hs').1] at hm
        exact absurd hm (by decide)
    | some st =>
      cases hs' : (d' b).state with
      | none =>
        have hm := (h2.noHeader hs').1
        rw [(h1.header st hs).1] at hm
        exact absurd hm (by decide)
      | some st' => rw [← (h1.header st hs).2.1, ← (h2.header st' hs').2.1]
  have hits : (d b).items = (d' b).items := h1.tail_all.inj h2.tail_all
  generalize d b = x at *
  generalize d' b = y at *
  obtain ⟨_, _⟩ := x
  obtain ⟨_, _⟩ := y
  cases hst; cases hits
  rfl

/-! ## A manager that mirrors the log -/

variable (c) in
/-- The manager mirrors the log `d`, and a state is what it says: a clean block
    is empty, and one in use without dirt has only valid items. -/
structure Backed (s : KvMgr) (d : Log) : Prop where
  rep : Rep c s.flash d
  state : ∀ b < c.blkNums, (d b).state = some (s.blockInfo b).state
  space : ∀ b < c.blkNums,
    (s.blockInfo b).space = blkSize - (blkHeaderSize + itemsSize c (d b).items)
  clean : ∀ b < c.blkNums, (d b).state = some blkStateClean → (d b).items = []
  used : ∀ b < c.blkNums, (d b).state = some blkStateUsed → ∀ it ∈ (d b).items, it.live = true

theorem setSpace_self {n : ℕ} (h : (s.blockInfo b).space = n) : s.setSpace b n = s := by
  unfold KvMgr.setSpace KvMgr.setBlockInfo
  congr 1
  funext i
  by_cases hi : i = b
  · subst hi
    rw [if_pos rfl, ← h]
  · rw [if_neg hi]

theorem traverseEnd_eq {n : ℕ} (hfits : pos < b * blkSize + blkSize)
    (hn : b * blkSize + blkSize = pos + n) : traverseEnd s b pos = s.setSpace b n := by
  unfold traverseEnd
  simp only
  rw [if_pos hfits, hn, Nat.add_sub_cancel_left]

/-! ## Lookup -/

/-- The item `kv_item_get` returns. -/
def Item.found (it : Item) (pos : ℕ) : KvItem := { it.view pos with store := it.key ++ it.val }

theorem itemFindCb_view (key : List UInt8) (h : Holds s.flash pos (it.bytes c)) :
    (it.key = key ∧ itemFindCb key (it.view pos) s = (s, it.found pos, .ok)) ∨
      (it.key ≠ key ∧ ∃ item, itemFindCb key (it.view pos) s = (s, item, .cont)) := by
  unfold itemFindCb
  by_cases hlen : it.key.length = key.length
  · have hkl : ¬ ((it.view pos).hdr.keyLen ≠ key.length) := not_not.2 hlen
    have hread : rawRead s.flash ((it.view pos).pos + itemHeaderSize) (it.view pos).len =
        it.key ++ it.val := rawRead_of_holds h
    rw [if_neg hkl, hread]
    simp only
    rw [← hlen, List.take_left']
    · by_cases hk : it.key = key
      · exact .inl ⟨hk, by rw [if_pos hk]; rfl⟩
      · exact .inr ⟨hk, _, by rw [if_neg hk]⟩
    · rfl
  · refine .inr ⟨fun hk => hlen (congrArg _ hk), it.view pos, ?_⟩
    rw [if_pos]
    exact hlen

/-- What a lookup finds among the items `its` from `pos` on. -/
def FindRes (key : List UInt8) (pl : ℕ → Item → Prop) : Option KvItem → Prop
  | some item => ∃ p it, pl p it ∧ it.live = true ∧ it.key = key ∧ item = it.found p
  | none => ∀ p it, pl p it → it.live = true → it.key ≠ key

theorem FindRes.mono {pl pl' : ℕ → Item → Prop} {r : Option KvItem} (h : FindRes key pl r)
    (hsub : ∀ p it, pl p it → pl' p it)
    (hrest : ∀ p it, pl' p it → it.live = true → it.key = key → pl p it) : FindRes key pl' r := by
  cases r with
  | none => exact fun p it hp hl hk => h p it (hrest p it hp hl hk) hl hk
  | some item =>
    obtain ⟨p, it, hp, hl, hk, he⟩ := h
    exact ⟨p, it, hsub p it hp, hl, hk, he⟩

theorem FindRes.cons {r : Option KvItem}
    (h : FindRes key (fun p it => (p, it) ∈ placed c (pos + it'.size c) rest) r)
    (hit : it'.live = true → it'.key ≠ key) :
    FindRes key (fun p it => (p, it) ∈ placed c pos (it' :: rest)) r := by
  refine h.mono (fun p it hp => List.mem_cons_of_mem _ hp) fun p it hp hl hk => ?_
  rw [placed_cons, List.mem_cons, Prod.mk.injEq] at hp
  rcases hp with ⟨-, rfl⟩ | hp
  · exact absurd hk (hit hl)
  · exact hp

/-- The managers differ at most in the space they note for blocks. -/
structure SameBlks (s s' : KvMgr) : Prop where
  flash : s'.flash = s.flash
  state : ∀ i, (s'.blockInfo i).state = (s.blockInfo i).state

theorem SameBlks.setSpace {n : ℕ} : SameBlks s (s.setSpace b n) := by
  refine ⟨rfl, fun i => ?_⟩
  unfold KvMgr.setSpace KvMgr.setBlockInfo
  by_cases hi : i = b
  · subst hi
    simp
  · simp [hi]

theorem traverseLoop_find (htail : Tail c s.flash (b * blkSize + blkSize) pos rest)
    (hfuel : b * blkSize + blkSize ≤ pos + itemHeaderSize * fuel)
    (hused : (s.blockInfo b).state = blkStateUsed → ∀ it ∈ rest, it.live = true) :
    ∃ s' r, traverseLoop c (itemFindCb key) b fuel pos s = (s', r) ∧ SameBlks s s' ∧
      (b * blkSize + blkSize = pos + itemsSize c rest + (s.blockInfo b).space → s' = s) ∧
      FindRes key (fun p it => (p, it) ∈ placed c pos rest) r := by
  induction rest generalizing pos fuel with
  | nil =>
    have hfits := htail.fits
    rw [itemsSize_nil, Nat.add_zero] at hfits
    obtain ⟨n, hn⟩ := Nat.exists_eq_add_of_le hfits.le
    refine ⟨_, none, by rw [traverseLoop_nil htail, traverseEnd_eq hfits hn], .setSpace,
      fun hs => setSpace_self ?_, fun p it hp => absurd hp (by simp [placed_nil])⟩
    rw [itemsSize_nil] at hs
    omega
  | cons it rest ih =>
    have hfits := htail.fits
    have hsz := it.lt_size c
    rw [itemsSize_cons] at hfits
    rw [itemsSize_cons, ← Nat.add_assoc]
    cases fuel with
    | zero => omega
    | succ fuel =>
      have hfuel' : b * blkSize + blkSize ≤ pos + it.size c + itemHeaderSize * fuel := by
        rw [Nat.mul_add] at hfuel
        omega
      -- the rest of the block, when this item is passed over
      obtain ⟨s', r, hr, hs, heq, hf⟩ := ih htail.next hfuel'
        (fun hu x hx => hused hu x (List.mem_cons_of_mem _ hx))
      rw [traverseLoop_cons htail]
      cases hl : it.live with
      | true =>
        rcases itemFindCb_view key htail.head with ⟨hk, he⟩ | ⟨hk, item, he⟩
        · refine ⟨s, some (it.found pos), by rw [if_pos rfl, he], ⟨rfl, fun _ => rfl⟩, fun _ => rfl,
            pos, it, ?_, hl, hk, rfl⟩
          exact List.mem_cons_self
        · exact ⟨s', r, by rw [if_pos rfl, he, ← hr], hs, heq, hf.cons fun _ => hk⟩
      | false =>
        -- a deleted item: the block is not `USED`
        have hnu : (s.blockInfo b).state ≠ blkStateUsed := fun hu => by
          have := hused hu it List.mem_cons_self
          rw [hl] at this
          cases this
        refine ⟨s', r, by rw [if_neg (by decide), KvMgr.markDirty, if_neg hnu, hr], hs, heq,
          hf.cons fun hlt => ?_⟩
        rw [hl] at hlt
        cases hlt

variable (c) in
/-- A lookup sees the log `d`: it passes over the blocks that are clean in
    memory, whatever they hold. -/
structure Shown (s : KvMgr) (d : Log) : Prop where
  rep : ∀ b < c.blkNums, (s.blockInfo b).state ≠ blkStateClean →
    BlkRep c s.flash (b * blkSize) (d b)
  clean : ∀ b < c.blkNums, (s.blockInfo b).state = blkStateClean → (d b).items = []
  used : ∀ b < c.blkNums, (s.blockInfo b).state = blkStateUsed → ∀ it ∈ (d b).items, it.live = true

variable (c) in
/-- The manager knows the free space of the blocks. -/
def KnowsSpace (s : KvMgr) (d : Log) : Prop :=
  ∀ b < c.blkNums, (s.blockInfo b).space = blkSize - (blkHeaderSize + itemsSize c (d b).items)

theorem Shown.congr {s' : KvMgr} (h : Shown c s d) (hs : SameBlks s s') : Shown c s' d := by
  constructor
  · intro b hb hc
    rw [hs.flash]
    exact h.rep b hb (hs.state b ▸ hc)
  · intro b hb hc
    exact h.clean b hb (hs.state b ▸ hc)
  · intro b hb hu
    exact h.used b hb (hs.state b ▸ hu)

theorem Shown.traverse_find (h : Shown c s d) (hb : b < c.blkNums)
    (hc : (s.blockInfo b).state ≠ blkStateClean) (key : List UInt8) :
    ∃ s' r, kvItemTraverse c (itemFindCb key) b s = (s', r) ∧ SameBlks s s' ∧
      (KnowsSpace c s d → s' = s) ∧
      FindRes key (fun p it => (p, it) ∈ placed c (b * blkSize + blkHeaderSize) (d b).items) r := by
  have hr := h.rep b hb hc
  have hf := hr.fits
  obtain ⟨s', r, hrun, hs, heq, hfind⟩ := @traverseLoop_find c s b (b * blkSize + blkHeaderSize)
    (blkSize / itemHeaderSize) (d b).items key hr.tail_all (by
      have : itemHeaderSize * (blkSize / itemHeaderSize) = blkSize := by simp [itemHeaderSize, blkSize]
      omega) (fun hu => h.used b hb hu)
  refine ⟨s', r, hrun, hs, fun hsp => heq ?_, hfind⟩
  have := hsp b hb
  omega

theorem Shown.getFrom (h : Shown c s d) (key : List UInt8) {is : List ℕ}
    (his : ∀ i ∈ is, i < c.blkNums) :
    ∃ s' r, itemGetFrom c key is s = (s', r) ∧ (KnowsSpace c s d → s' = s) ∧
      FindRes key (fun p it => ∃ b ∈ is, (p, it) ∈ placed c (b * blkSize + blkHeaderSize) (d b).items)
        r := by
  induction is generalizing s with
  | nil => exact ⟨s, none, rfl, fun _ => rfl, fun p it ⟨b, hb, _⟩ => absurd hb (by simp)⟩
  | cons i is ih =>
    have hi := his i List.mem_cons_self
    have his' : ∀ j ∈ is, j < c.blkNums := fun j hj => his j (List.mem_cons_of_mem _ hj)
    have hsub : ∀ {bs : List ℕ} {p it}, (∀ b ∈ bs, b ∈ i :: is) →
        (∃ b ∈ bs, (p, it) ∈ placed c (b * blkSize + blkHeaderSize) (d b).items) →
        ∃ b ∈ i :: is, (p, it) ∈ placed c (b * blkSize + blkHeaderSize) (d b).items :=
      fun hbs ⟨b, hb, hp⟩ => ⟨b, hbs b hb, hp⟩
    rw [itemGetFrom]
    by_cases hc : (s.blockInfo i).state = blkStateClean
    · -- a clean block counts as empty
      obtain ⟨s₂, r2, hr2, heq, hf2⟩ := ih h his'
      refine ⟨s₂, r2, by rw [if_neg (not_not.2 hc), hr2], heq, hf2.mono
        (fun p it => hsub fun b hb => List.mem_cons_of_mem _ hb) ?_⟩
      rintro p it ⟨b, hb, hp⟩ - -
      rcases List.mem_cons.1 hb with rfl | hb
      · rw [h.clean b hi hc] at hp
        simp [placed_nil] at hp
      · exact ⟨b, hb, hp⟩
    · obtain ⟨s₁, r1, hr1, hs1, heq1, hf1⟩ := h.traverse_find hi hc key
      rw [if_pos hc, hr1]
      cases r1 with
      | some item =>
        obtain ⟨p, it, hp, hrest⟩ := hf1
        exact ⟨s₁, some item, rfl, heq1, p, it, ⟨i, List.mem_cons_self, hp⟩, hrest⟩
      | none =>
        obtain ⟨s₂, r2, hr2, heq, hf2⟩ := ih (h.congr hs1) his'
        refine ⟨s₂, r2, hr2, fun hsp => ?_,
          hf2.mono (fun p it => hsub fun b hb => List.mem_cons_of_mem _ hb) ?_⟩
        · have := heq1 hsp
          subst this
          exact heq hsp
        · rintro p it ⟨b, hb, hp⟩ hl hk
          rcases List.mem_cons.1 hb with rfl | hb
          · exact absurd hk (hf1 p it hp hl)
          · exact ⟨b, hb, hp⟩

/-- **Lookup** of a log that is shown finds a valid item of the key, if there
    is any; it changes at most the space the manager notes. -/
theorem Shown.get (h : Shown c s d) (key : List UInt8) :
    ∃ s' r, kvItemGet c key s = (s', r) ∧ (KnowsSpace c s d → s' = s) ∧ FindRes key (At c d) r := by
  obtain ⟨s', r, hr, heq, hf⟩ := h.getFrom key (fun i hi => List.mem_range.1 hi)
  refine ⟨s', r, hr, heq, hf.mono ?_ ?_⟩
  · rintro p it ⟨b, hb, hp⟩
    exact ⟨b, List.mem_range.1 hb, hp⟩
  · rintro p it ⟨b, hb, hp⟩ - -
    exact ⟨b, List.mem_range.2 hb, hp⟩

theorem Backed.shown (h : Backed c s d) : Shown c s d := by
  constructor
  · intro b hb _
    exact h.rep b hb
  · intro b hb hc
    exact h.clean b hb (by rw [h.state b hb, hc])
  · intro b hb hu
    exact h.used b hb (by rw [h.state b hb, hu])

theorem Backed.get (h : Backed c s d) (key : List UInt8) :
    ∃ r, kvItemGet c key s = (s, r) ∧ FindRes key (At c d) r := by
  obtain ⟨s', r, hr, heq, hf⟩ := h.shown.get key
  have := heq h.space
  subst this
  exact ⟨r, hr, hf⟩

end Kv
