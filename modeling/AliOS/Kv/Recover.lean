/-
  Key-value store: what the recovery callback does to a log.

  `kv_init` traverses every block with `__item_recovery_cb`, which deletes the
  item that a valid one names as its origin if the two have the same key.
  `Recov` is what holds of the log throughout: it differs from that of the
  image by deleted items and marked blocks, and no key has lost its last valid
  item among the blocks to be kept.
-/
import AliOS.Kv.Collect

namespace Kv

open Lib

variable (c : KvConfig)

/-- The sizes of the items of a block, in order. -/
def itemSizes (its : List Item) : List ℕ := its.map (·.size c)

/-- An image with no item that the log `d` has no room for. -/
def Sub (d : Log) (f : Flash) : Prop :=
  ∃ d', Rep c f d' ∧ ∀ b, itemsSize c (d' b).items ≤ itemsSize c (d b).items

/-- The log `d` on the way from that of the image `f₀`. -/
structure Recov (f₀ : Flash) (d₀ : Log) (keep : ℕ → Prop) (s : KvMgr) (d : Log) : Prop where
  rep : Rep c s.flash d
  lowered : ∀ o, s.flash o = itemMagicNum → s.flash (o + 1) = itemStateNormal →
    f₀ o = itemMagicNum ∧ f₀ (o + 1) = itemStateNormal
  sizes : ∀ b, itemSizes c (d b).items = itemSizes c (d₀ b).items
  old : ∀ p it, At c d p it →
    ∃ it₀, At c d₀ p it₀ ∧ it.dead = it₀.dead ∧ (it.live = true → it₀.live = true)
  pos : ∀ p it₀, At c d₀ p it₀ → ∃ it, At c d p it
  surv : ∀ p it₀, Lives c d₀ p it₀ → keep (p / blkSize) →
    ∃ q it, Lives c d q it ∧ keep (q / blkSize) ∧ it.key = it₀.key
  mirror : ∀ b < c.blkNums, (s.blockInfo b).state ≠ 0 → (d b).state = some (s.blockInfo b).state

/-- What a traversal of the block `b` leaves: items are deleted only where the
    block is not `USED` afterwards. -/
structure Evolve (b : ℕ) (s : KvMgr) (d : Log) (s' : KvMgr) (d' : Log) : Prop where
  space : ∀ b', b' ≠ b → (s'.blockInfo b').space = (s.blockInfo b').space
  mem : ∀ b', (s'.blockInfo b').state = (s.blockInfo b').state ∨
    (s.blockInfo b').state = blkStateUsed ∧ (s'.blockInfo b').state = blkStateDirty
  state : ∀ b', (s.blockInfo b').state ≠ blkStateUsed → (d' b').state = (d b').state
  used : ∀ b', (s'.blockInfo b').state = blkStateUsed → (d' b').items = (d b').items
  count : s'.cleanBlkNums = s.cleanBlkNums

variable {c} {f f₀ : Flash} {d d' d'' d₀ : Log} {s s' s'' : KvMgr} {keep : ℕ → Prop}
  {b p q o fuel : ℕ} {it x y : Item} {its its' pre rest : List Item}

theorem itemsSize_of_sizes (h : itemSizes c its = itemSizes c its') : itemsSize c its = itemsSize c its' := by
  unfold itemsSize
  exact congrArg List.sum h

theorem Recov.sub (h : Recov c f₀ d₀ keep s d) : Sub c d₀ s.flash :=
  ⟨d, h.rep, fun b => (itemsSize_of_sizes (h.sizes b)).le⟩

theorem Evolve.refl : Evolve b s d s d :=
  ⟨fun _ _ => rfl, fun _ => .inl rfl, fun _ _ => rfl, fun _ _ => rfl, rfl⟩

theorem Evolve.trans (h : Evolve b s d s' d') (h' : Evolve b s' d' s'' d'') :
    Evolve b s d s'' d'' where
  space b' hb := (h'.space b' hb).trans (h.space b' hb)
  mem b' := by
    rcases h.mem b' with h1 | ⟨h1, h2⟩ <;> rcases h'.mem b' with h3 | ⟨h3, h4⟩
    · exact .inl (h3.trans h1)
    · exact .inr ⟨h1 ▸ h3, h4⟩
    · exact .inr ⟨h1, h3.trans h2⟩
    · exact .inr ⟨h1, h4⟩
  state b' hb := by
    have hb' : (s'.blockInfo b').state ≠ blkStateUsed := by
      rcases h.mem b' with h1 | ⟨h1, -⟩
      · rwa [h1]
      · exact absurd h1 hb
    exact (h'.state b' hb').trans (h.state b' hb)
  used b' hb := by
    -- `USED` afterwards is `USED` before
    have hb' : (s'.blockInfo b').state = blkStateUsed := by
      rcases h'.mem b' with h3 | ⟨-, h4⟩
      · rw [← h3, hb]
      · rw [hb] at h4
        exact absurd h4 (by decide)
    exact (h'.used b' hb).trans (h.used b' hb')
  count := h'.count.trans h.count

/-! ## Deleting and marking -/

theorem kill_sizes (h : Rep c f d) (hp : At c d p it) (b : ℕ) :
    itemSizes c (d.kill c p b).items = itemSizes c (d b).items := by
  obtain ⟨pre, post, he, -, hk⟩ := kill_block h hp
  rw [hk]
  by_cases hb : b = p / blkSize
  · subst hb
    rw [Function.update_self, he]
    simp [itemSizes]
  · rw [Function.update_of_ne hb]

theorem kvItemRemove_lowered (h : (kvItemRemove s o).flash p = itemMagicNum)
    (h' : (kvItemRemove s o).flash (p + 1) = itemStateNormal) :
    s.flash p = itemMagicNum ∧ s.flash (p + 1) = itemStateNormal := by
  -- one byte written, neither a magic number nor the state of a valid item
  have hone : ∀ (g : Flash) (a : ℕ) (v : UInt8), v ≠ itemMagicNum → v ≠ itemStateNormal →
      memcpy g a (fun i => [v].getD i 0) 1 p = itemMagicNum →
      memcpy g a (fun i => [v].getD i 0) 1 (p + 1) = itemStateNormal →
      g p = itemMagicNum ∧ g (p + 1) = itemStateNormal := by
    intro g a v hv hv' h1 h2
    by_cases hp : p = a
    · rw [memcpy_in (by omega) (by omega), hp, Nat.sub_self] at h1
      exact absurd h1 hv
    · by_cases hp' : p + 1 = a
      · rw [memcpy_in (by omega) (by omega), hp', Nat.sub_self] at h2
        exact absurd h2 hv'
      · rw [memcpy_out (by omega)] at h1 h2
        exact ⟨h1, h2⟩
  by_cases hu : (s.blockInfo (o / blkSize)).state = blkStateUsed
  · rw [kvItemRemove_used hu] at h h'
    obtain ⟨h1, h2⟩ := hone _ _ _ (by decide) (by decide) h h'
    exact hone _ _ _ (by decide) (by decide) h1 h2
  · rw [kvItemRemove_other hu] at h h'
    exact hone _ _ _ (by decide) (by decide) h h'

variable (c) in
/-- An item to be given up deletes no item of its key in a block to be kept. -/
def KeepOk (d₀ : Log) (keep : ℕ → Prop) : Prop :=
  ∀ p q x y, Lives c d₀ p x → Lives c d₀ q y → x.origin = q → x.key = y.key →
    keep (q / blkSize) → keep (p / blkSize)

theorem Recov.remove (h : Recov c f₀ d₀ keep s d) (hk : KeepOk c d₀ keep) (hx : Lives c d p x)
    (hy : Lives c d o y) (hxo : x.origin = o) (hne : o ≠ p) (hkey : x.key = y.key) :
    ∃ d', Recov c f₀ d₀ keep (kvItemRemove s o) d' ∧ Evolve b s d (kvItemRemove s o) d' ∧
      Grows s (kvItemRemove s o) (Sub c d₀) := by
  have hob := (hy.1.block h.rep).1
  have hmir : (s.blockInfo (o / blkSize)).state = blkStateUsed →
      (d (o / blkSize)).state = some blkStateUsed := fun hu => by
    rw [h.mirror _ hob (by rw [hu]; decide), hu]
  obtain ⟨d', hrep, hsame, hst, hgr⟩ :=
    kvItemRemove_rep h.rep hy.1 fun hu => by rw [hmir hu]; simp
  have hat := fun q x => @at_kill c s.flash d o q y h.rep hy.1 x
  refine ⟨d', ⟨hrep, fun a h1 h2 => ?_, fun b' => ?_, fun q it hq => ?_, fun q it₀ hq => ?_,
    fun q it₀ hq hkeep => ?_, fun b' hb' hnz => ?_⟩, ⟨fun b' _ => ?_, fun b' => ?_,
    fun b' hnu => ?_, fun b' hu => ?_, ?_⟩, hgr.mono ?_⟩
  · obtain ⟨h3, h4⟩ := kvItemRemove_lowered h1 h2
    exact h.lowered a h3 h4
  · rw [hsame b', kill_sizes h.rep hy.1]
    exact h.sizes b'
  · rw [hsame.at_iff, hat] at hq
    rcases hq with ⟨rfl, rfl⟩ | ⟨-, hq⟩
    · obtain ⟨it₀, h1, h2, -⟩ := h.old q y hy.1
      exact ⟨it₀, h1, h2, fun hl => absurd hl (by simp)⟩
    · exact h.old q it hq
  · obtain ⟨it, hit⟩ := h.pos q it₀ hq
    by_cases hqo : q = o
    · exact ⟨y.dead, by rw [hsame.at_iff, hat]; exact .inl ⟨hqo, rfl⟩⟩
    · exact ⟨it, by rw [hsame.at_iff, hat]; exact .inr ⟨hqo, hit⟩⟩
  · obtain ⟨q', it', hq', hk', hkey'⟩ := h.surv q it₀ hq hkeep
    by_cases hqo : q' = o
    · -- the deleted item was the one: `x` is still there
      subst hqo
      have hity : it' = y := hq'.1.inj h.rep hy.1
      subst hity
      obtain ⟨x0, hx0, hxd, hxl⟩ := h.old p x hx.1
      obtain ⟨y0, hy0, hyd, hyl⟩ := h.old q' it' hy.1
      refine ⟨p, x, ?_, hk p q' x0 y0 ⟨hx0, hxl hx.2⟩ ⟨hy0, hyl hy.2⟩ ?_ ?_ hk', ?_⟩
      · rw [hsame.lives_iff, lives_kill h.rep hy.1]
        exact ⟨hx, hne.symm⟩
      · rw [← hxo]
        exact (congrArg Item.origin hxd).symm
      · have h1 : x.dead.key = x0.dead.key := congrArg Item.key hxd
        have h2 : it'.dead.key = y0.dead.key := congrArg Item.key hyd
        exact h1.symm.trans (hkey.trans h2)
      · rw [hkey, hkey']
    · refine ⟨q', it', ?_, hk', hkey'⟩
      rw [hsame.lives_iff, lives_kill h.rep hy.1]
      exact ⟨hq', hqo⟩
  · rw [kvItemRemove_blockInfo] at hnz ⊢
    rw [hst]
    split
    · rfl
    · rename_i hn
      rw [if_neg hn] at hnz
      exact h.mirror b' hb' hnz
  · rw [kvItemRemove_blockInfo]
    split <;> rfl
  · rw [kvItemRemove_blockInfo]
    split
    · rename_i hn
      exact .inr ⟨hn.2, rfl⟩
    · exact .inl rfl
  · rw [hst, if_neg fun hn => hnu hn.2]
  · rw [kvItemRemove_blockInfo] at hu
    have hbo : b' ≠ o / blkSize := by
      rintro rfl
      split at hu
      · exact absurd (show blkStateDirty = blkStateUsed from hu) (by decide)
      · rename_i hn
        exact hn ⟨rfl, hu⟩
    rw [hsame b', kill_ne hbo]
  · exact kvItemRemove_cleanBlkNums
  · rintro f (rfl | hf)
    · exact h.sub
    · exact ⟨_, hf, fun b' => by
        rw [kill_size h.rep hy.1, itemsSize_of_sizes (h.sizes b')]⟩

theorem Recov.markDirty (h : Recov c f₀ d₀ keep s d) (hb : b < c.blkNums) :
    ∃ d', Recov c f₀ d₀ keep (s.markDirty b) d' ∧ Evolve b s d (s.markDirty b) d' ∧
      SameItems d d' ∧ ((s.markDirty b).blockInfo b).state ≠ blkStateUsed ∧
      Grows s (s.markDirty b) (Sub c d₀) := by
  unfold KvMgr.markDirty
  split
  · rename_i hu
    have hdb : (d b).state = some blkStateUsed := by rw [h.mirror b hb (by rw [hu]; decide), hu]
    have hinfo : ∀ b', ((s.kvStateSet (b * blkSize) blkStateDirty).setBlkState b
        blkStateDirty).blockInfo b' =
        if b' = b then ⟨(s.blockInfo b).space, blkStateDirty⟩ else s.blockInfo b' := fun b' => rfl
    refine ⟨d.setState b blkStateDirty, ⟨h.rep.setState (by decide) (by rw [hdb]; simp),
      fun a h1 h2 => ?_, fun b' => ?_, fun q it hq => ?_, fun q it₀ hq => ?_, fun q it₀ hq hk => ?_,
      fun b' hb' hnz => ?_⟩, ⟨fun b' hne => ?_, fun b' => ?_, fun b' hnu => ?_, fun b' hu' => ?_, rfl⟩,
      sameItems_setState, ?_, .one rfl h.sub⟩
    · have h1' : memcpy s.flash (b * blkSize + 1) (fun i => [blkStateDirty].getD i 0) 1 a =
        itemMagicNum := h1
      have h2' : memcpy s.flash (b * blkSize + 1) (fun i => [blkStateDirty].getD i 0) 1 (a + 1) =
        itemStateNormal := h2
      by_cases ha : a = b * blkSize + 1
      · rw [memcpy_in (by omega) (by omega), ha, Nat.sub_self] at h1'
        exact absurd h1' (by decide)
      · by_cases ha' : a + 1 = b * blkSize + 1
        · rw [memcpy_in (by omega) (by omega), ha', Nat.sub_self] at h2'
          exact absurd h2' (by decide)
        · rw [memcpy_out (by omega)] at h1' h2'
          exact h.lowered a h1' h2'
    · rw [sameItems_setState b']
      exact h.sizes b'
    · rw [at_setState] at hq
      exact h.old q it hq
    · obtain ⟨it, hit⟩ := h.pos q it₀ hq
      exact ⟨it, at_setState.2 hit⟩
    · obtain ⟨q', it', hl, hk', hkey⟩ := h.surv q it₀ hq hk
      exact ⟨q', it', sameItems_setState.lives_iff.2 hl, hk', hkey⟩
    · rw [hinfo] at hnz ⊢
      rw [setState_state]
      split
      · rfl
      · rename_i hn
        rw [if_neg hn] at hnz
        exact h.mirror b' hb' hnz
    · rw [hinfo, if_neg hne]
    · rw [hinfo]
      split
      · rename_i hbb
        rw [hbb]
        exact .inr ⟨hu, rfl⟩
      · exact .inl rfl
    · rw [setState_state, if_neg]
      rintro rfl
      exact hnu hu
    · exact sameItems_setState b'
    · rw [hinfo, if_pos rfl]
      exact fun hc => absurd (show blkStateDirty = blkStateUsed from hc) (by decide)
  · rename_i hu
    exact ⟨d, h, .refl, .refl, hu, .refl rfl⟩

/-! ## The callback -/

variable (c) in
/-- Where the origin of a valid item reads as a valid item, there is an item. -/
def OriginsOk (f₀ : Flash) (d₀ : Log) : Prop :=
  ∀ p it, Lives c d₀ p it → it.origin ≠ 0 → it.origin ≠ p → f₀ it.origin = itemMagicNum →
    f₀ (it.origin + 1) = itemStateNormal → ∃ y, At c d₀ it.origin y

theorem origMatches_view {f : Flash} {p o : ℕ} (hx : Holds f p (x.bytes c))
    (hy : Holds f o (y.bytes c)) (ho : x.origin = o) (h : OrigMatches f (x.view p)) :
    y.live = true ∧ x.key = y.key := by
  subst ho
  obtain ⟨-, hst, hlen, hkey⟩ := h
  have hhdr : readItemHdr f (x.view p).hdr.originOff = y.hdr := readItemHdr_of_holds hy
  rw [hhdr] at hst hlen hkey
  have hlen' : y.key.length = x.key.length := hlen
  have h1 : rawRead f (x.origin + itemHeaderSize) y.key.length =
      rawRead f (p + itemHeaderSize) y.key.length := hkey
  rw [rawRead_key_of_holds hy, hlen', rawRead_key_of_holds hx] at h1
  refine ⟨?_, h1.symm⟩
  cases hl : y.live with
  | true => rfl
  | false =>
    have : y.hdr.state = itemStateDelete := by simp [Item.hdr, hl]
    rw [this] at hst
    exact absurd hst (by decide)

theorem Recov.callback (h : Recov c f₀ d₀ keep s d) (hor : OriginsOk c f₀ d₀)
    (hk : KeepOk c d₀ keep) (hx : Lives c d p x) :
    ∃ s' d', itemRecoveryCb (x.view p) s = (s', x.view p, .cont) ∧ Recov c f₀ d₀ keep s' d' ∧
      Evolve b s d s' d' ∧ Grows s s' (Sub c d₀) := by
  have hxh := hx.1.holds h.rep
  have hcrc : (x.view p).hdr.crc =
      utilsCrc8 (rawRead s.flash ((x.view p).pos + itemHeaderSize) (x.view p).len) := by
    have : rawRead s.flash ((x.view p).pos + itemHeaderSize) (x.view p).len = x.key ++ x.val :=
      rawRead_of_holds hxh
    rw [this]
    rfl
  unfold itemRecoveryCb
  rw [if_pos hcrc]
  by_cases hcond : (x.view p).hdr.originOff ≠ 0 ∧ (x.view p).pos ≠ (x.view p).hdr.originOff
  · rw [if_pos hcond]
    obtain ⟨h0, hne⟩ := hcond
    unfold kvItemDelOrig
    by_cases hm : OrigMatches s.flash (x.view p)
    · rw [if_pos hm]
      -- the bytes at the origin were a valid header in the image, so an item is there
      obtain ⟨hf, hf'⟩ := h.lowered x.origin hm.1 hm.2.1
      obtain ⟨x0, hx0, hxd, hxl⟩ := h.old p x hx.1
      have ho : x.origin = x0.origin :=
        show x.dead.origin = x0.dead.origin from congrArg Item.origin hxd
      obtain ⟨y0, hy0⟩ := hor p x0 ⟨hx0, hxl hx.2⟩ (ho ▸ h0) (ho ▸ hne.symm) (ho ▸ hf) (ho ▸ hf')
      rw [← ho] at hy0
      obtain ⟨y, hy⟩ := h.pos _ _ hy0
      obtain ⟨hyl, hkey⟩ := origMatches_view hxh (hy.holds h.rep) rfl hm
      obtain ⟨d', hr, he, hg⟩ := h.remove (b := b) hk hx ⟨hy, hyl⟩ rfl hne.symm hkey
      exact ⟨_, d', rfl, hr, he, hg⟩
    · rw [if_neg hm]
      exact ⟨s, d, rfl, h, .refl, .refl rfl⟩
  · rw [if_neg hcond]
    exact ⟨s, d, rfl, h, .refl, .refl rfl⟩

/-! ## The traversal -/

theorem Recov.of_memory (h : Recov c f₀ d₀ keep s d) (hf : s'.flash = s.flash)
    (hm : ∀ b < c.blkNums, (s'.blockInfo b).state ≠ 0 →
      (d b).state = some (s'.blockInfo b).state) : Recov c f₀ d₀ keep s' d :=
  ⟨hf ▸ h.rep, fun o => by rw [hf]; exact h.lowered o, h.sizes, h.old, h.pos, h.surv, hm⟩

theorem setSpace_state {n b' : ℕ} : ((s.setSpace b n).blockInfo b').state = (s.blockInfo b').state := by
  simp only [KvMgr.setSpace, KvMgr.setBlockInfo]
  split
  · rename_i he; rw [he]
  · rfl

theorem sizes_split (h : itemSizes c its = itemSizes c (pre ++ rest)) :
    ∃ pre' rest', its = pre' ++ rest' ∧ itemSizes c pre' = itemSizes c pre ∧ itemSizes c rest' = itemSizes c rest := by
  rw [itemSizes, itemSizes, List.map_append] at h
  obtain ⟨l₁, l₂, rfl, h1, h2⟩ := List.map_eq_append_iff.1 h
  exact ⟨l₁, l₂, rfl, h1, h2⟩

theorem length_of_sizes (h : itemSizes c its = itemSizes c its') : its.length = its'.length := by
  have := congrArg List.length h
  simpa [itemSizes] using this

theorem Recov.traverse (hor : OriginsOk c f₀ d₀) (hk : KeepOk c d₀ keep) (hb : b < c.blkNums)
    (m : ℕ) : ∀ {s d pre rest pos fuel}, rest.length = m → Recov c f₀ d₀ keep s d →
      (s.blockInfo b).state ≠ 0 → (d b).items = pre ++ rest →
      pos = b * blkSize + blkHeaderSize + itemsSize c pre →
      ((s.blockInfo b).state = blkStateUsed → ∀ y ∈ pre, y.live = true) →
      b * blkSize + blkSize ≤ pos + itemHeaderSize * fuel →
      ∃ s' d', traverseLoop c itemRecoveryCb b fuel pos s = (s', none) ∧
        Recov c f₀ d₀ keep s' d' ∧ Evolve b s d s' d' ∧
        ((s'.blockInfo b).state = blkStateUsed → ∀ y ∈ (d' b).items, y.live = true) ∧
        (s'.blockInfo b).space = blkSize - (blkHeaderSize + itemsSize c (d₀ b).items) ∧
        Grows s s' (Sub c d₀) := by
  induction m with
  | zero =>
    intro s d pre rest pos fuel hlen h hnz hd hpos hpre hfuel
    obtain rfl := List.length_eq_zero_iff.1 hlen
    have htail := (h.rep b hb).tail hd
    rw [← hpos] at htail
    have hfits := htail.fits
    rw [itemsSize_nil, Nat.add_zero] at hfits
    rw [List.append_nil] at hd
    have hsz : itemsSize c pre = itemsSize c (d₀ b).items := by
      rw [← hd]
      exact itemsSize_of_sizes (h.sizes b)
    have hn : b * blkSize + blkSize =
        pos + (blkSize - (blkHeaderSize + itemsSize c (d₀ b).items)) := by
      have := (h.rep b hb).fits
      rw [hd, hsz] at this
      omega
    rw [traverseLoop_nil htail, traverseEnd_eq hfits hn]
    refine ⟨_, d, rfl, h.of_memory rfl fun b' hb' hnz' => ?_, ⟨fun b' hne => ?_, fun b' => ?_,
      fun _ _ => rfl, fun _ _ => rfl, rfl⟩, fun hu => ?_, ?_, .refl rfl⟩
    · rw [setSpace_state] at hnz' ⊢
      exact h.mirror b' hb' hnz'
    · simp only [KvMgr.setSpace, KvMgr.setBlockInfo, if_neg hne]
    · exact .inl setSpace_state
    · rw [setSpace_state] at hu
      rw [hd]
      exact hpre hu
    · simp only [KvMgr.setSpace, KvMgr.setBlockInfo, if_true]
  | succ m ih =>
    intro s d pre rest pos fuel hlen h hnz hd hpos hpre hfuel
    obtain ⟨it, rest, rfl⟩ := List.exists_cons_of_length_eq_add_one hlen
    have hlen' : rest.length = m := by simpa using hlen
    have htail := (h.rep b hb).tail hd
    rw [← hpos] at htail
    have hfits := htail.fits
    have hsz := it.lt_size c
    rw [itemsSize_cons] at hfits
    cases fuel with
    | zero => omega
    | succ fuel =>
      have hfuel' : b * blkSize + blkSize ≤ pos + it.size c + itemHeaderSize * fuel := by
        rw [Nat.mul_add] at hfuel
        omega
      rw [traverseLoop_cons htail]
      cases hl : it.live with
      | false =>
        rw [if_neg (by decide)]
        obtain ⟨d1, h1, he1, hsame, hnu, hg1⟩ := h.markDirty hb
        have hnz1 : ((s.markDirty b).blockInfo b).state ≠ 0 := by
          rcases he1.mem b with hm | ⟨-, hm⟩
          · rwa [hm]
          · rw [hm]; decide
        obtain ⟨s', d', hrun, hr, he, hu, hsp, hg⟩ := @ih (s.markDirty b) d1 (pre ++ [it]) rest
          (pos + it.size c) fuel hlen' h1 hnz1 (by rw [hsame b, hd]; simp)
          (by rw [itemsSize_append, itemsSize_cons, itemsSize_nil]; omega)
          (fun hc => absurd hc hnu) hfuel'
        exact ⟨s', d', hrun, hr, he1.trans he, hu, hsp, hg1.trans hg⟩
      | true =>
        have hx : Lives c d pos it := ⟨⟨b, hb, by rw [hd, hpos]; exact mem_placed_mid⟩, hl⟩
        obtain ⟨s₁, d1, hcb, h1, he1, hg1⟩ := h.callback (b := b) hor hk hx
        rw [if_pos rfl, hcb]
        have hnz1 : (s₁.blockInfo b).state ≠ 0 := by
          rcases he1.mem b with hm | ⟨-, hm⟩
          · rwa [hm]
          · rw [hm]; decide
        -- the block as it is now splits at the same place
        have hszs : itemSizes c (d1 b).items = itemSizes c ((pre ++ [it]) ++ rest) := by
          rw [h1.sizes, ← h.sizes, hd]
          simp
        obtain ⟨pre', rest', hd1, hp', hr'⟩ := sizes_split hszs
        have hpos' : pos + it.size c = b * blkSize + blkHeaderSize + itemsSize c pre' := by
          rw [itemsSize_of_sizes hp', itemsSize_append, itemsSize_cons, itemsSize_nil]
          omega
        have hpre' : (s₁.blockInfo b).state = blkStateUsed → ∀ y ∈ pre', y.live = true := by
          intro hu
          have hits := he1.used b hu
          rw [hd1, hd, List.append_cons] at hits
          obtain ⟨rfl, -⟩ := List.append_inj hits (length_of_sizes hp')
          have hu0 : (s.blockInfo b).state = blkStateUsed := by
            rcases he1.mem b with hm | ⟨-, hm⟩
            · rw [← hm, hu]
            · rw [hu] at hm
              exact absurd hm (by decide)
          intro y hy
          rcases List.mem_append.1 hy with hy | hy
          · exact hpre hu0 y hy
          · rw [List.mem_singleton.1 hy]
            exact hl
        obtain ⟨s', d', hrun, hr, he, hu, hsp, hg⟩ := @ih s₁ d1 pre' rest' (pos + it.size c) fuel
          ((length_of_sizes hr').trans hlen') h1 hnz1 hd1 hpos' hpre' hfuel'
        exact ⟨s', d', hrun, hr, he1.trans he, hu, hsp, hg1.trans hg⟩

end Kv
