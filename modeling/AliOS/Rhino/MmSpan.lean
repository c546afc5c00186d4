/-
  Rhino kernel: the ways an operation of the heap closes a span: as one block
  that is used, as one that is free, or cut in two.
-/
import AliOS.Rhino.MmInv

namespace Rhino

variable {c : MmConfig} {lo hi : ℕ} {h h' h₁ h₂ : MmHeap} {B B' : ℕ → Option MmBlk}
  {lists lists' : ℕ × ℕ → List ℕ} {x y z : MmBlk} {a b m n p q t : ℕ} {r : ℕ × ℕ} {f g : Bool}

/-- `h'` has the table and the bitmaps of `h`, and its fixed blocks. -/
structure SameIdx (h h' : MmHeap) : Prop where
  tbl : h'.mmTbl = h.mmTbl
  sl : h'.slBitmap = h.slBitmap
  fl : h'.flBitmap = h.flBitmap
  pool : h'.pool = h.pool
  fixed : h'.fixedmblk = h.fixedmblk

theorem SameIdx.refl (h : MmHeap) : SameIdx h h := ⟨rfl, rfl, rfl, rfl, rfl⟩

theorem SameIdx.write (hi : SameIdx h h') : SameIdx h (h'.write a n) :=
  ⟨hi.tbl, hi.sl, hi.fl, hi.pool, hi.fixed⟩

theorem FreeIdx.same (hx : FreeIdx c h lists) (hi : SameIdx h h')
    (hm : ∀ p, ∀ a ∈ lists p, ∀ t, LinkAt c a t → h'.mem t = h.mem t) : FreeIdx c h' lists :=
  hx.congr hi.tbl hi.sl hi.fl hm

theorem minLength_eq (c : MmConfig) : c.minLength = c.headSize := rfl

theorem Tiled.header_sep (hB : Tiled c lo hi B) (ha : B a = some x) (hb : B b = some y)
    (hab : a < b) : a + c.headSize ≤ b := by
  have := hB.apart ha hb hab
  omega

namespace Span

variable (hs : Span c lo hi h B lists p q x z)
include hs

/-- Headers of the span, and the words behind it in the header of `q`, may be
    written. -/
theorem congr (hsame : SameIdx h h')
    (hm : ∀ t, t < p ∨ q < t → t ≠ q + c.ptrSize → h'.mem t = h.mem t) (hp : h'.mem p = h.mem p)
    (hbit : isPrevFree (h'.size c p) ↔ isPrevFree (h.size c p))
    (hright : ∃ f, h'.size c q = MmBlk.word ⟨z.size, z.free, f⟩) :
    Span c lo hi h' B lists p q x z := by
  have hW := ptrSize_pos c
  have hlt := hs.lt
  have hH : c.headSize = 2 * c.ptrSize := rfl
  refine ⟨hs.tiled, hs.idx.same hsame fun r b hb t ht => ?_, hs.left, hs.right, hs.lt,
    fun {a y} ha hout => ?_, hright, hbit.trans hs.prevFree, fun hx => ?_, hs.filed⟩
  · have hno := fun hle hlt => hs.no_link_in (t := t) hle hlt r b hb ht
    refine hm t ?_ ?_
    · by_contra hc
      exact hno (by omega) (by omega)
    · rintro rfl
      exact hno (by omega) (by omega)
  · refine (hs.header ha hout).congr (hm _ hout ?_) (hm _ ?_ ?_)
    · rintro rfl
      rcases hout with hout | hout
      · omega
      · have := hs.tiled.header_sep hs.right ha hout
        omega
    · rcases hout with hout | hout
      · have := hs.tiled.header_sep ha hs.left hout
        omega
      · omega
    · omega
  · rw [MmHeap.prev, hp]
    exact hs.prev hx

theorem close (hB' : Tiled c lo hi B') (hout : ∀ {a}, a < p ∨ q < a → B' a = B a)
    (hq : ∃ f, B' q = some ⟨z.size, z.free, f⟩) (hx' : FreeIdx c h' lists')
    (hm : ∀ {a y}, B a = some y → a < p ∨ q < a →
      h'.mem a = h.mem a ∧ h'.mem (a + c.ptrSize) = h.mem (a + c.ptrSize))
    (hin : ∀ {a y}, B' a = some y → p ≤ a → a ≤ q → HeaderOk c h' B' a y)
    (hfiled : ∀ {b r}, b ∈ lists' r ↔ ∃ y, B' b = some y ∧ y.free = true ∧ mmClass y.size = r) :
    MmInv c lo hi h' B' lists' := by
  refine ⟨hB', hx', fun {a y} ha => ?_, hfiled⟩
  by_cases ho : a < p ∨ q < a
  · rw [hout ho] at ha
    obtain ⟨h1, h2⟩ := hm ha ho
    have hok := hs.header ha ho
    refine ⟨h2.trans hok.size, fun hy => ?_⟩
    obtain ⟨w, hw, hfree, heq⟩ := hok.prev hy
    have hprev : h'.prev a = h.prev a := h1
    have hH : 0 < c.headSize := minLength_pos c
    rw [hprev]
    by_cases hq' : h.prev a = q
    · obtain ⟨g, hg⟩ := hq
      rw [hq', hs.right] at hw
      cases hw
      exact ⟨⟨z.size, z.free, g⟩, by rw [hq', hg], hfree, heq⟩
    · refine ⟨w, ?_, hfree, heq⟩
      rw [hout, hw]
      by_contra hc
      have := hs.tiled.apart hw hs.right (by omega)
      omega
  · exact hin ha (by omega) (by omega)

theorem left_ok (hw : h'.size c p = MmBlk.word ⟨n, f, x.prevFree⟩) (hp : h'.mem p = h.mem p)
    (hout : ∀ {a}, a < p → B' a = B a) : HeaderOk c h' B' p ⟨n, f, x.prevFree⟩ := by
  refine ⟨hw, fun hx => ?_⟩
  obtain ⟨y, hy, hfree, heq⟩ := hs.prev hx
  have hprev : h'.prev p = h.prev p := hp
  have hH : 0 < c.headSize := minLength_pos c
  rw [hprev]
  exact ⟨y, by rw [hout (by omega), hy], hfree, heq⟩

theorem closeUsed (hsame : SameIdx h h')
    (hm : ∀ t, t ≠ p + c.ptrSize → t ≠ q → t ≠ q + c.ptrSize → h'.mem t = h.mem t)
    (hp : h'.size c p = MmBlk.word ⟨q - p - c.headSize, false, x.prevFree⟩)
    (hq : h'.size c q = MmBlk.word ⟨z.size, z.free, false⟩) :
    MmInv c lo hi h' (setOne B p q ⟨q - p - c.headSize, false, x.prevFree⟩ ⟨z.size, z.free, false⟩)
      lists := by
  have hW := ptrSize_pos c
  have hlt := hs.lt
  have hH : c.headSize = 2 * c.ptrSize := rfl
  have hxq := hs.tiled.apart hs.left hs.right hlt
  refine hs.close (hs.tiled.one (f := false) hs.left hs.right hlt fun h => nomatch h)
    (fun ho => setOne_out ho hlt) ⟨false, setOne_right hlt⟩ (hs.idx.same hsame fun r b hb t ht => ?_)
    (fun {a y} ha ho => ?_) (fun {a y} ha hle hle' => ?_) fun {b r} => ?_
  · have hno := fun hle hlt => hs.no_link_in (t := t) hle hlt r b hb ht
    refine hm t ?_ ?_ ?_ <;> rintro rfl <;> exact hno (by omega) (by omega)
  · rcases ho with ho | ho
    · have := hs.tiled.header_sep ha hs.left ho
      exact ⟨hm _ (by omega) (by omega) (by omega), hm _ (by omega) (by omega) (by omega)⟩
    · have := hs.tiled.header_sep hs.right ha ho
      exact ⟨hm _ (by omega) (by omega) (by omega), hm _ (by omega) (by omega) (by omega)⟩
  · rcases setOne_cases hlt ha with ⟨rfl, rfl⟩ | ⟨rfl, rfl⟩ | ⟨ho, -⟩
    · exact hs.left_ok hp (hm _ (by omega) (by omega) (by omega)) fun ho => setOne_out (.inl ho) hlt
    · exact ⟨hq, fun h => nomatch h⟩
    · omega
  · rw [hs.filed]
    constructor
    · rintro ⟨y, hy, hfree, hcl, ho⟩
      rcases eq_or_ne b q with rfl | hne
      · rw [hs.right] at hy
        cases hy
        exact ⟨_, setOne_right hlt, hfree, hcl⟩
      · exact ⟨y, by rw [setOne_out (by omega) hlt, hy], hfree, hcl⟩
    · rintro ⟨y, hy, hfree, hcl⟩
      rcases setOne_cases hlt hy with ⟨rfl, rfl⟩ | ⟨rfl, rfl⟩ | ⟨ho, hy⟩
      · cases hfree
      · exact ⟨z, hs.right, hfree, hcl, .inr le_rfl⟩
      · exact ⟨y, hy, hfree, hcl, by omega⟩

theorem insertIn (hpm : p ≤ m) (hmq : m + c.headSize + c.minLength ≤ q) (hn : n < c.maxMmSize) :
    FreeIdx c (h.insertBlock c m (mmClass n).1 (mmClass n).2) (pushBlk lists (mmClass n) m) := by
  have hpos := hs.tiled.lo_pos
  have hplo := (hs.tiled.bounds hs.left).1
  have hH : c.headSize = 2 * c.ptrSize := rfl
  have hL : c.listSize = 4 * c.ptrSize := rfl
  rw [minLength_eq] at hmq
  obtain ⟨-, hfl, hsl⟩ := insertIdx_eq hn
  refine hs.idx.insert (by omega) (fun r a ha => ?_) hfl hsl
  obtain ⟨y, hy, hfree, -, ho⟩ := hs.filed.1 ha
  have hmin := hs.tiled.least hy (hs.tiled.free_ne_hi hy hfree)
  rw [minLength_eq] at hmin
  rcases ho with ho | ho
  · have := hs.tiled.apart hy hs.left ho
    omega
  · omega

theorem linkFree (hx : x.prevFree = false) (hz : z.free = false) (hlo : p ≠ lo)
    (hp : h.size c p = MmBlk.word ⟨q - p - c.headSize, true, false⟩) :
    ∃ h', h.linkFree c p = some h' ∧
      MmInv c lo hi h'
        (setOne B p q ⟨q - p - c.headSize, true, x.prevFree⟩ ⟨z.size, z.free, true⟩)
        (pushBlk lists (mmClass (q - p - c.headSize)) p) ∧
      (∀ t, (∀ r, ∀ b ∈ lists r, ¬ LinkAt c b t) → ¬ LinkAt c p t → t ≠ q → t ≠ q + c.ptrSize →
        h'.mem t = h.mem t) ∧ h'.pool = h.pool ∧ h'.fixedmblk = h.fixedmblk := by
  have hW := ptrSize_pos c
  have hlt := hs.lt
  have hH : c.headSize = 2 * c.ptrSize := rfl
  have hxq := hs.tiled.apart hs.left hs.right hlt
  have hlen := hs.tiled.least hs.left (hs.tiled.ne_hi hs.right hlt)
  have hmin := minLength_eq c
  have htiled := hs.tiled.one hs.left hs.right hlt (f := true) fun _ => ⟨hlo, hx, hz⟩
  have hmax : q - p - c.headSize < c.maxMmSize := htiled.size_lt setOne_left
  have hd : c.ptrSize ∣ q - p - c.headSize := (htiled.dvd setOne_left).2
  generalize hn : q - p - c.headSize = n at *
  have hx' := hs.insertIn le_rfl (m := p) (by omega) hmax
  -- the heap with the block in its list
  obtain ⟨h₁, hh1⟩ : ∃ h₁, h₁ = h.insertBlock c p (mmClass n).1 (mmClass n).2 := ⟨_, rfl⟩
  have hkeep : ∀ t, (∀ r, ∀ b ∈ lists r, ¬ LinkAt c b t) → ¬ LinkAt c p t → h₁.mem t = h.mem t :=
    fun t ht hpt => by rw [hh1]; exact hs.idx.insertBlock_frame ht hpt
  rw [← hh1] at hx'
  have hsp : h₁.size c p = h.size c p :=
    hkeep _ (hs.no_link_in (by omega) (by omega)) (by unfold LinkAt; omega)
  have hnext : h₁.nextMmBlk c p = q := by
    rw [MmHeap.nextMmBlk, hsp, hp, blkSize_word hd hmax]
    omega
  obtain ⟨g, hg⟩ := hs.size_right
  have hsq : h₁.size c q = MmBlk.word ⟨z.size, z.free, g⟩ := by
    rw [← hg]
    exact hkeep _ (hs.no_link_in (by omega) (by omega)) (by unfold LinkAt; omega)
  obtain ⟨h', hh'⟩ : ∃ h', h' = (h₁.setSize c q (setPrevFree (h₁.size c q))).setPrev q p := ⟨_, rfl⟩
  have hmem : ∀ t, h'.mem t =
      if t = q then p else if t = q + c.ptrSize then MmBlk.word ⟨z.size, z.free, true⟩
      else h₁.mem t := by
    intro t
    rw [hh', hsq, setPrevFree_word (four_dvd (hs.tiled.dvd hs.right).2), MmHeap.setPrev,
      MmHeap.write_mem, MmHeap.setSize, MmHeap.write_mem]
  have hsame : SameIdx h₁ h' := by
    rw [hh']
    exact (SameIdx.refl h₁).write.write
  have hframe : ∀ t, (∀ r, ∀ b ∈ lists r, ¬ LinkAt c b t) → ¬ LinkAt c p t → t ≠ q →
      t ≠ q + c.ptrSize → h'.mem t = h.mem t := fun t ht hpt hq hq' => by
    rw [hmem, if_neg hq, if_neg hq', hkeep t ht hpt]
  obtain ⟨hpool, hfix⟩ := insertBlock_rest c h p (mmClass n).1 (mmClass n).2
  rw [← hh1] at hpool hfix
  refine ⟨h', ?_, ?_, hframe, hsame.pool.trans hpool, hsame.fixed.trans hfix⟩
  · rw [MmHeap.linkFree, hp, blkSize_word hd hmax, (insertIdx_eq hmax).1, Option.map_some]
    simp only [← hh1, hnext]
    rw [hh']
  · refine hs.close htiled (fun ho => setOne_out ho hlt) ⟨true, setOne_right hlt⟩
      (hx'.same hsame fun r b hb t ht => ?_) (fun {a y} ha ho => ?_) (fun {a y} ha hle hle' => ?_)
      fun {b r} => ?_
    · rw [hmem, if_neg, if_neg] <;> rintro rfl <;> rcases mem_pushBlk.1 hb with ⟨-, rfl⟩ | hb
      · unfold LinkAt at ht
        omega
      · exact hs.no_link_in (by omega) (by omega) r b hb ht
      · unfold LinkAt at ht
        omega
      · exact hs.no_link_in (by omega) (by omega) r b hb ht
    · have hno : ∀ t, t = a ∨ t = a + c.ptrSize → h'.mem t = h.mem t := by
        intro t hta
        have hsep : a + c.headSize ≤ p ∨ q + c.headSize ≤ a := by
          rcases ho with ho | ho
          · exact .inl (hs.tiled.header_sep ha hs.left ho)
          · exact .inr (hs.tiled.header_sep hs.right ha ho)
        refine hframe t (fun r b hb hlink => ?_) (by unfold LinkAt; omega) (by omega) (by omega)
        obtain ⟨w, hw, hfree⟩ := hs.blocks r b hb
        have := hs.tiled.link_header ha hw hfree hlink
        omega
      exact ⟨hno a (.inl rfl), hno _ (.inr rfl)⟩
    · rcases setOne_cases hlt ha with ⟨rfl, rfl⟩ | ⟨rfl, rfl⟩ | ⟨ho, -⟩
      · refine hs.left_ok ?_ ?_ fun ho => setOne_out (.inl ho) hlt
        · rw [hx, ← hp, MmHeap.size, hmem, if_neg (by omega), if_neg (by omega)]
          exact hsp
        · refine hframe _ (hs.no_link_in le_rfl (by omega)) (by unfold LinkAt; omega) (by omega)
            (by omega)
      · refine ⟨?_, fun _ => ⟨⟨n, true, x.prevFree⟩, ?_, rfl, ?_⟩⟩
        · rw [MmHeap.size, hmem, if_neg (by omega), if_pos rfl]
        · rw [MmHeap.prev, hmem, if_pos rfl]
          exact setOne_left
        · rw [MmHeap.prev, hmem, if_pos rfl]
          simp only
          omega
      · omega
    · rw [mem_pushBlk, hs.filed]
      constructor
      · rintro (⟨rfl, rfl⟩ | ⟨y, hy, hfree, hcl, ho⟩)
        · exact ⟨_, setOne_left, rfl, rfl⟩
        · rcases eq_or_ne b q with rfl | hne
          · rw [hs.right] at hy
            cases hy
            exact ⟨_, setOne_right hlt, hfree, hcl⟩
          · exact ⟨y, by rw [setOne_out (by omega) hlt, hy], hfree, hcl⟩
      · rintro ⟨y, hy, hfree, hcl⟩
        rcases setOne_cases hlt hy with ⟨rfl, rfl⟩ | ⟨rfl, rfl⟩ | ⟨ho, hy⟩
        · exact .inl ⟨hcl.symm, rfl⟩
        · exact .inr ⟨z, hs.right, hfree, hcl, .inr le_rfl⟩
        · exact .inr ⟨y, hy, hfree, hcl, by omega⟩

/-- **Two blocks**, the second of them free: after the headers of the second and
    of `q`, it enters its list, and `p` gets its size. -/
theorem closeTwo (hz : z.free = false) (hpm : p + c.headSize + c.minLength ≤ m)
    (hmq : m + c.headSize + c.minLength ≤ q) (hdvd : c.ptrSize ∣ m) (hsame : SameIdx h h₁)
    (hm1 : ∀ t, t ≠ m + c.ptrSize → t ≠ q → t ≠ q + c.ptrSize → h₁.mem t = h.mem t)
    (hsm : h₁.size c m = MmBlk.word ⟨q - m - c.headSize, true, false⟩) (hpq : h₁.prev q = m)
    (hsq : h₁.size c q = MmBlk.word ⟨z.size, z.free, true⟩)
    (hh2 : h₂ = h₁.insertBlock c m (mmClass (q - m - c.headSize)).1 (mmClass (q - m - c.headSize)).2)
    (hh' : h' = h₂.setSize c p (m - p - c.headSize + prestat (h₂.size c p))) :
    MmInv c lo hi h' (setTwo B p m q ⟨m - p - c.headSize, false, x.prevFree⟩
        ⟨q - m - c.headSize, true, false⟩ ⟨z.size, z.free, true⟩)
      (pushBlk lists (mmClass (q - m - c.headSize)) m) ∧
    (∀ t, (∀ r, ∀ b ∈ lists r, ¬ LinkAt c b t) → ¬ LinkAt c m t → t ≠ p + c.ptrSize →
      t ≠ m + c.ptrSize → t ≠ q → t ≠ q + c.ptrSize → h'.mem t = h.mem t) ∧
    h'.pool = h.pool ∧ h'.fixedmblk = h.fixedmblk := by
  have hW := ptrSize_pos c
  have hlt := hs.lt
  have hH : c.headSize = 2 * c.ptrSize := rfl
  have hmin := minLength_eq c
  have htiled := hs.tiled.two hs.left hs.right hlt hz hpm hmq hdvd
  have hmax : q - m - c.headSize < c.maxMmSize := htiled.size_lt setTwo_mid
  have hs1 : Span c lo hi h₁ B lists p q x z := by
    have hsp : h₁.size c p = h.size c p := hm1 _ (by omega) (by omega) (by omega)
    refine hs.congr hsame (fun t ho hne => hm1 t (by omega) (by omega) hne)
      (hm1 p (by omega) (by omega) (by omega)) (by rw [hsp]) ⟨true, hsq⟩
  have hx' := hs1.insertIn (m := m) (by omega) hmq hmax
  generalize hn : q - m - c.headSize = n at *
  have hkeep : ∀ t, (∀ r, ∀ b ∈ lists r, ¬ LinkAt c b t) → ¬ LinkAt c m t → h₂.mem t = h₁.mem t :=
    fun t ht hmt => by rw [hh2]; exact hs1.idx.insertBlock_frame ht hmt
  rw [← hh2] at hx'
  have hin : ∀ t, p ≤ t → t < q + c.headSize → ¬ LinkAt c m t → h₂.mem t = h₁.mem t :=
    fun t hle hlt hmt => hkeep t (hs.no_link_in hle hlt) hmt
  have hmem : ∀ t, h'.mem t =
      if t = p + c.ptrSize then m - p - c.headSize + prestat (h₂.size c p) else h₂.mem t := by
    intro t
    rw [hh', MmHeap.setSize, MmHeap.write_mem]
  have hframe : ∀ t, (∀ r, ∀ b ∈ lists r, ¬ LinkAt c b t) → ¬ LinkAt c m t → t ≠ p + c.ptrSize →
      t ≠ m + c.ptrSize → t ≠ q → t ≠ q + c.ptrSize → h'.mem t = h.mem t := by
    intro t ht hmt hp hm hq hq'
    rw [hmem, if_neg hp, hkeep t ht hmt, hm1 t hm hq hq']
  have hsame2 : SameIdx h₂ h' := by
    rw [hh']
    exact (SameIdx.refl h₂).write
  obtain ⟨hpool, hfix⟩ := insertBlock_rest c h₁ m (mmClass n).1 (mmClass n).2
  rw [← hh2] at hpool hfix
  have hword : h'.size c p = MmBlk.word ⟨m - p - c.headSize, false, x.prevFree⟩ := by
    have hsp : h₂.size c p = h.size c p :=
      (hin _ (by omega) (by omega) (by unfold LinkAt; omega)).trans
        (hm1 _ (by omega) (by omega) (by omega))
    rw [MmHeap.size, hmem, if_pos rfl, hsp, prestat]
    simp only [hs.prevFree]
    rfl
  refine ⟨hs.close htiled (fun {a} ho => ?_) ⟨true, ?_⟩ (hx'.same hsame2 fun r b hb t ht => ?_)
    (fun {a y} ha ho => ?_) (fun {a y} ha hle hle' => ?_) fun {b r} => ?_, hframe,
    hsame2.pool.trans (hpool.trans hsame.pool), hsame2.fixed.trans (hfix.trans hsame.fixed)⟩
  · rw [setTwo_of_ne (by omega), setOne_out ho hlt]
  · rw [setTwo_of_ne (by omega), setOne_right hlt]
  · rw [hmem, if_neg]
    rintro rfl
    rcases mem_pushBlk.1 hb with ⟨-, rfl⟩ | hb
    · unfold LinkAt at ht
      omega
    · exact hs.no_link_in (by omega) (by omega) r b hb ht
  · have hno : ∀ t, t = a ∨ t = a + c.ptrSize → h'.mem t = h.mem t := by
      intro t hta
      have hsep : a + c.headSize ≤ p ∨ q + c.headSize ≤ a := by
        rcases ho with ho | ho
        · exact .inl (hs.tiled.header_sep ha hs.left ho)
        · exact .inr (hs.tiled.header_sep hs.right ha ho)
      refine hframe t (fun r b hb hlink => ?_) (by unfold LinkAt; omega) (by omega) (by omega)
        (by omega) (by omega)
      obtain ⟨w, hw, hfree⟩ := hs.blocks r b hb
      have := hs.tiled.link_header ha hw hfree hlink
      omega
    exact ⟨hno a (.inl rfl), hno _ (.inr rfl)⟩
  · by_cases ham : a = m
    · rw [ham, setTwo_mid] at ha
      cases ha
      refine ⟨?_, by rintro ⟨⟩⟩
      rw [ham, ← hsm, MmHeap.size, hmem, if_neg (by omega)]
      exact hin _ (by omega) (by omega) (by unfold LinkAt; omega)
    · rw [setTwo_of_ne ham] at ha
      rcases setOne_cases hlt ha with ⟨rfl, rfl⟩ | ⟨rfl, rfl⟩ | ⟨ho, -⟩
      · refine hs.left_ok hword ?_ fun ho => by
          rw [setTwo_of_ne (by omega), setOne_out (.inl ho) hlt]
        exact hframe _ (hs.no_link_in le_rfl (by omega)) (by unfold LinkAt; omega) (by omega)
          (by omega) (by omega) (by omega)
      · have hprev : h'.prev a = m := by
          rw [← hpq, MmHeap.prev, hmem, if_neg (by omega)]
          exact hin _ (by omega) (by omega) (by unfold LinkAt; omega)
        refine ⟨?_, fun _ => ⟨⟨n, true, false⟩, ?_, rfl, ?_⟩⟩
        · rw [← hsq, MmHeap.size, hmem, if_neg (by omega)]
          exact hin _ (by omega) (by omega) (by unfold LinkAt; omega)
        · rw [hprev]
          exact setTwo_mid
        · rw [hprev]
          simp only
          omega
      · omega
  · rw [mem_pushBlk, hs.filed]
    constructor
    · rintro (⟨rfl, rfl⟩ | ⟨y, hy, hfree, hcl, ho⟩)
      · exact ⟨_, setTwo_mid, rfl, rfl⟩
      · rcases eq_or_ne b q with rfl | hne
        · rw [hs.right] at hy
          cases hy
          exact ⟨⟨z.size, z.free, true⟩, by rw [setTwo_of_ne (by omega), setOne_right hlt], hfree, hcl⟩
        · exact ⟨y, by rw [setTwo_of_ne (by omega), setOne_out (by omega) hlt, hy], hfree, hcl⟩
    · rintro ⟨y, hy, hfree, hcl⟩
      by_cases hbm : b = m
      · rw [hbm, setTwo_mid] at hy
        cases hy
        exact .inl ⟨hcl.symm, hbm⟩
      · rw [setTwo_of_ne hbm] at hy
        rcases setOne_cases hlt hy with ⟨rfl, rfl⟩ | ⟨rfl, rfl⟩ | ⟨ho, hy⟩
        · cases hfree
        · exact .inr ⟨z, hs.right, hfree, hcl, .inr le_rfl⟩
        · exact .inr ⟨y, hy, hfree, hcl, by omega⟩

end Span

end Rhino
