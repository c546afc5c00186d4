/-
  Rhino kernel: the invariant of the heap, and what is left of it while an
  operation has a span of blocks in its hands.

  `MmInv` is the invariant, `B` the blocks by their addresses.  In a `Span` the
  blocks from `p` up to `q` are on no list, and their headers do not count, but
  for what `p` says about the block before it.
-/
import AliOS.Rhino.MmIndex
import AliOS.Rhino.MmTiling

namespace Rhino

/-- The size word of a block. -/
def MmBlk.word (x : MmBlk) : ℕ := x.size + (if x.free then 1 else 0) + (if x.prevFree then 2 else 0)

variable {c : MmConfig} {lo hi : ℕ} {h h' : MmHeap} {B B' : ℕ → Option MmBlk}
  {lists lists' : ℕ × ℕ → List ℕ} {x y z : MmBlk} {a b m n p q s t : ℕ} {r : ℕ × ℕ} {f g : Bool}

/-! ## Size words -/

theorem four_dvd (hd : c.ptrSize ∣ n) : 4 ∣ n := by
  refine Dvd.dvd.trans ?_ hd
  rcases c.ptrSize_eq with h | h <;> rw [h] <;> decide

theorem maxMmSize_le (c : MmConfig) : c.maxMmSize ≤ 2 ^ 30 :=
  Nat.pow_le_pow_right (by decide) c.maxMmBit_le

theorem blkSize_word (hd : c.ptrSize ∣ n) (hn : n < c.maxMmSize) :
    c.blkSize (MmBlk.word ⟨n, f, g⟩) = n := by
  have hmax := maxMmSize_le c
  have hW := ptrSize_pos c
  obtain ⟨k, rfl⟩ := hd
  have hflags : (if f then 1 else 0) + (if g then 2 else 0) < c.ptrSize := by
    split_ifs <;> omega
  have hmod : MmBlk.word ⟨c.ptrSize * k, f, g⟩ % 2 ^ 32 = MmBlk.word ⟨c.ptrSize * k, f, g⟩ := by
    refine Nat.mod_eq_of_lt ?_
    unfold MmBlk.word
    simp only
    split_ifs <;> omega
  rw [MmConfig.blkSize, hmod, MmBlk.word, Nat.add_assoc, Nat.mul_add_div (by omega),
    Nat.div_eq_of_lt hflags, Nat.add_zero, Nat.mul_comm]

section

variable (hd : 4 ∣ n)
include hd

theorem isFree_word : isFree (MmBlk.word ⟨n, f, g⟩) ↔ f = true := by
  unfold isFree MmBlk.word
  cases f <;> cases g <;> simp <;> omega

theorem isPrevFree_word : isPrevFree (MmBlk.word ⟨n, f, g⟩) ↔ g = true := by
  unfold isPrevFree MmBlk.word
  cases f <;> cases g <;> simp <;> omega

theorem setFree_word : setFree (MmBlk.word ⟨n, f, g⟩) = MmBlk.word ⟨n, true, g⟩ := by
  unfold setFree
  simp only [isFree_word hd]
  unfold MmBlk.word
  cases f <;> cases g <;> simp

theorem clearFree_word : clearFree (MmBlk.word ⟨n, f, g⟩) = MmBlk.word ⟨n, false, g⟩ := by
  unfold clearFree
  simp only [isFree_word hd]
  unfold MmBlk.word
  cases f <;> cases g <;> simp

theorem setPrevFree_word : setPrevFree (MmBlk.word ⟨n, f, g⟩) = MmBlk.word ⟨n, f, true⟩ := by
  unfold setPrevFree
  simp only [isPrevFree_word hd]
  unfold MmBlk.word
  cases f <;> cases g <;> simp

theorem clearPrevFree_word : clearPrevFree (MmBlk.word ⟨n, f, g⟩) = MmBlk.word ⟨n, f, false⟩ := by
  unfold clearPrevFree
  simp only [isPrevFree_word hd]
  unfold MmBlk.word
  cases f <;> cases g <;> simp

end

theorem insertIdx_eq (hn : n < c.maxMmSize) :
    insertIdx c n = some (mmClass n) ∧ (mmClass n).1 < c.fltSize ∧ (mmClass n).2 < sltSize := by
  have hmax := maxMmSize_le c
  have hsl := mmClass_snd_lt n
  have hbit := c.le_maxMmBit
  have hfl : (mmClass n).1 < c.fltSize := by
    unfold mmClass MmConfig.fltSize
    split_ifs with h
    · omega
    · unfold minFltSize at h
      have := log2_lt (n := n) (by omega) hn
      omega
  refine ⟨?_, hfl, hsl⟩
  have hstat : ¬ ((mmClass n).1 ≥ c.fltSize ∨ (mmClass n).2 ≥ sltSize) := by omega
  rw [insertIdx, bitmapSearch, searchIdx_insert (by omega), Option.map_some, if_neg hstat,
    Option.bind_some, if_pos rfl]

/-! ## The invariant -/

/-- The header of the block `x` at `a`. -/
structure HeaderOk (c : MmConfig) (h : MmHeap) (B : ℕ → Option MmBlk) (a : ℕ) (x : MmBlk) : Prop where
  size : h.size c a = x.word
  prev : x.prevFree = true → ∃ y, B (h.prev a) = some y ∧ y.free = true ∧
    h.prev a + c.headSize + y.size = a

/-- **The invariant**: the blocks tile the region, their headers say what they
    are, and the free ones are on the lists of their classes. -/
structure MmInv (c : MmConfig) (lo hi : ℕ) (h : MmHeap) (B : ℕ → Option MmBlk)
    (lists : ℕ × ℕ → List ℕ) : Prop where
  tiled : Tiled c lo hi B
  idx : FreeIdx c h lists
  header : ∀ {a x}, B a = some x → HeaderOk c h B a x
  filed : ∀ {b r}, b ∈ lists r ↔ ∃ y, B b = some y ∧ y.free = true ∧ mmClass y.size = r

/-- The invariant but for the blocks from `p` up to `q`. -/
structure Span (c : MmConfig) (lo hi : ℕ) (h : MmHeap) (B : ℕ → Option MmBlk)
    (lists : ℕ × ℕ → List ℕ) (p q : ℕ) (x z : MmBlk) : Prop where
  tiled : Tiled c lo hi B
  idx : FreeIdx c h lists
  left : B p = some x
  right : B q = some z
  lt : p < q
  header : ∀ {a y}, B a = some y → a < p ∨ q < a → HeaderOk c h B a y
  size_right : ∃ f, h.size c q = MmBlk.word ⟨z.size, z.free, f⟩
  prevFree : isPrevFree (h.size c p) ↔ x.prevFree = true
  prev : x.prevFree = true → ∃ y, B (h.prev p) = some y ∧ y.free = true ∧
    h.prev p + c.headSize + y.size = p
  filed : ∀ {b r}, b ∈ lists r ↔
    ∃ y, B b = some y ∧ y.free = true ∧ mmClass y.size = r ∧ (b < p ∨ q ≤ b)

theorem HeaderOk.congr (hh : HeaderOk c h B a x) (hm : h'.mem a = h.mem a)
    (hm' : h'.mem (a + c.ptrSize) = h.mem (a + c.ptrSize)) : HeaderOk c h' B a x where
  size := hm'.trans hh.size
  prev hx := by
    rw [MmHeap.prev, hm]
    exact hh.prev hx

namespace Tiled

variable (hB : Tiled c lo hi B)
include hB

theorem free_ne_hi (hb : B b = some y) (hy : y.free = true) : b ≠ hi := by
  rintro rfl
  obtain ⟨f, hlast⟩ := hB.last
  rw [hlast] at hb
  cases hb
  cases hy

theorem free_ne_lo (hb : B b = some y) (hy : y.free = true) : b ≠ lo := by
  rintro rfl
  obtain ⟨n, hfirst⟩ := hB.first
  rw [hfirst] at hb
  cases hb
  cases hy

theorem link_in (hb : B b = some y) (hy : y.free = true) (ht : LinkAt c b t) :
    b + c.headSize ≤ t ∧ t + c.ptrSize ≤ b + c.headSize + y.size := by
  have hW := ptrSize_pos c
  have := hB.least hb (hB.free_ne_hi hb hy)
  unfold MmConfig.minLength at this
  unfold LinkAt at ht
  unfold MmConfig.headSize
  omega

theorem link_header (ha : B a = some x) (hb : B b = some y) (hy : y.free = true)
    (ht : LinkAt c b t) : t ≠ a ∧ t ≠ a + c.ptrSize := by
  have hW := ptrSize_pos c
  have hin := hB.link_in hb hy ht
  unfold MmConfig.headSize at hin
  rcases lt_trichotomy a b with hlt | rfl | hlt
  · have := hB.apart ha hb hlt
    unfold MmConfig.headSize at this
    omega
  · omega
  · have := hB.apart hb ha hlt
    unfold MmConfig.headSize at this
    omega

theorem link_payload (ha : B a = some x) (hx : x.free = false) (hb : B b = some y)
    (hy : y.free = true) (ht : LinkAt c b t) : t < a + c.headSize ∨ a + c.headSize + x.size ≤ t := by
  have hW := ptrSize_pos c
  have hin := hB.link_in hb hy ht
  rcases lt_trichotomy a b with hlt | rfl | hlt
  · have := hB.apart ha hb hlt
    omega
  · rw [ha] at hb
    cases hb
    rw [hx] at hy
    cases hy
  · have := hB.apart hb ha hlt
    omega

end Tiled

/-! ## A span is opened -/

theorem takeOut_eq (hd : c.ptrSize ∣ y.size) (hn : y.size < c.maxMmSize) (hs : h.size c b = y.word) :
    h.takeOut c b = some (h.getBlock c b (mmClass y.size).1 (mmClass y.size).2) := by
  rw [MmHeap.takeOut, hs, blkSize_word hd hn, (insertIdx_eq hn).1]
  rfl

theorem getBlock_header (hB : Tiled c lo hi B) (hx : FreeIdx c h lists)
    (hfiled : ∀ r, ∀ b ∈ lists r, ∃ y, B b = some y ∧ y.free = true) (hb : b ∈ lists r)
    (ha : B a = some x) :
    (h.getBlock c b r.1 r.2).mem a = h.mem a ∧
      (h.getBlock c b r.1 r.2).mem (a + c.ptrSize) = h.mem (a + c.ptrSize) := by
  have hno : ∀ t, t = a ∨ t = a + c.ptrSize → ∀ q, ∀ d ∈ lists q, ¬ LinkAt c d t := by
    intro t ht q d hd hlink
    obtain ⟨y, hy, hfree⟩ := hfiled q d hd
    have := hB.link_header ha hy hfree hlink
    omega
  exact ⟨hx.getBlock_frame hb (hno a (.inl rfl)), hx.getBlock_frame hb (hno _ (.inr rfl))⟩

theorem MmInv.span (hI : MmInv c lo hi h B lists) (hb : B b = some x) (hx : x.free = false)
    (hhi : b ≠ hi) : ∃ z, B (b + c.headSize + x.size) = some z ∧
      Span c lo hi h B lists b (b + c.headSize + x.size) x z := by
  obtain ⟨z, hz, -, -⟩ := hI.tiled.next hb hhi
  have hmin := minLength_pos c
  have hlen := hI.tiled.least hb hhi
  have h4 := four_dvd (hI.tiled.dvd hb).2
  refine ⟨z, hz, hI.tiled, hI.idx, hb, hz, by omega, fun ha _ => hI.header ha,
    ⟨z.prevFree, (hI.header hz).size⟩, ?_, (hI.header hb).prev, fun {d r} => ?_⟩
  · rw [(hI.header hb).size]
    exact isPrevFree_word h4
  · rw [hI.filed]
    constructor
    · rintro ⟨y, hy, hfree, hcl⟩
      refine ⟨y, hy, hfree, hcl, ?_⟩
      rcases lt_trichotomy d b with hlt | rfl | hlt
      · exact .inl hlt
      · rw [hb] at hy
        cases hy
        rw [hx] at hfree
        cases hfree
      · exact .inr (hI.tiled.apart hb hy hlt)
    · rintro ⟨y, hy, hfree, hcl, -⟩
      exact ⟨y, hy, hfree, hcl⟩

theorem MmInv.spanFree (hI : MmInv c lo hi h B lists) (hb : B b = some x) (hx : x.free = true) :
    ∃ z, B (b + c.headSize + x.size) = some z ∧ z.free = false ∧ x.prevFree = false ∧
      (h.getBlock c b (mmClass x.size).1 (mmClass x.size).2).size c b = x.word ∧
      (h.getBlock c b (mmClass x.size).1 (mmClass x.size).2).size c (b + c.headSize + x.size) =
        MmBlk.word ⟨z.size, z.free, true⟩ ∧
      Span c lo hi (h.getBlock c b (mmClass x.size).1 (mmClass x.size).2) B
        (dropBlk lists (mmClass x.size) b) b (b + c.headSize + x.size) x z := by
  have hhi := hI.tiled.free_ne_hi hb hx
  obtain ⟨z, hz, hzp, hzf⟩ := hI.tiled.next hb hhi
  have hmin := minLength_pos c
  have hlen := hI.tiled.least hb hhi
  have hmem : b ∈ lists (mmClass x.size) := hI.filed.2 ⟨x, hb, hx, rfl⟩
  have hfiled : ∀ r, ∀ b ∈ lists r, ∃ y, B b = some y ∧ y.free = true := fun r b hb => by
    obtain ⟨y, hy, hfree, -⟩ := hI.filed.1 hb
    exact ⟨y, hy, hfree⟩
  have hhead : ∀ {a y}, B a = some y → HeaderOk c (h.getBlock c b (mmClass x.size).1
      (mmClass x.size).2) B a y := fun ha => by
    obtain ⟨h1, h2⟩ := getBlock_header hI.tiled hI.idx hfiled hmem ha
    exact (hI.header ha).congr h1 h2
  have hpf : x.prevFree = false := by
    by_contra hpf
    obtain ⟨y, hy, hfree, heq⟩ := (hI.header hb).prev (by simpa using hpf)
    obtain ⟨w, hw, -, hno⟩ := hI.tiled.next hy (hI.tiled.free_ne_hi hy hfree)
    rw [heq, hb] at hw
    cases hw
    rw [hno hfree] at hx
    cases hx
  have hzw := (hhead hz).size
  rw [show z = ⟨z.size, z.free, z.prevFree⟩ from rfl, hzp, hx] at hzw
  refine ⟨z, hz, hzf hx, hpf, (hhead hb).size, hzw, hI.tiled, hI.idx.get hmem, hb, hz, by omega, fun ha _ => hhead ha,
    ⟨z.prevFree, (hhead hz).size⟩, ?_, (hhead hb).prev, fun {d r} => ?_⟩
  · rw [(hhead hb).size]
    exact isPrevFree_word (four_dvd (hI.tiled.dvd hb).2)
  · rw [hI.idx.mem_dropBlk hmem, hI.filed]
    constructor
    · rintro ⟨⟨y, hy, hfree, hcl⟩, hne⟩
      refine ⟨y, hy, hfree, hcl, ?_⟩
      rcases lt_or_gt_of_ne hne with hlt | hlt
      · exact .inl hlt
      · exact .inr (hI.tiled.apart hb hy hlt)
    · rintro ⟨y, hy, hfree, hcl, hout⟩
      exact ⟨⟨y, hy, hfree, hcl⟩, by omega⟩

namespace Span

variable (hs : Span c lo hi h B lists p q x z)
include hs

theorem blocks (r : ℕ × ℕ) (b : ℕ) (hb : b ∈ lists r) : ∃ y, B b = some y ∧ y.free = true := by
  obtain ⟨y, hy, hfree, -⟩ := hs.filed.1 hb
  exact ⟨y, hy, hfree⟩

theorem no_link (ha : B a = some y) (hy : y.free = false) (hle : a + c.headSize ≤ t)
    (hlt : t < a + c.headSize + y.size) : ∀ r, ∀ b ∈ lists r, ¬ LinkAt c b t := by
  intro r b hb hlink
  obtain ⟨w, hw, hfree⟩ := hs.blocks r b hb
  have := hs.tiled.link_payload ha hy hw hfree hlink
  omega

theorem no_link_in (hle : p ≤ t) (hlt : t < q + c.headSize) : ∀ r, ∀ b ∈ lists r, ¬ LinkAt c b t := by
  intro r b hb hlink
  obtain ⟨w, hw, hfree, -, hout⟩ := hs.filed.1 hb
  have hin := hs.tiled.link_in hw hfree hlink
  have hW := ptrSize_pos c
  rcases hout with hout | hout
  · have := hs.tiled.apart hw hs.left hout
    omega
  · omega

theorem takeNext (hz : z.free = true) : ∃ z', B (q + c.headSize + z.size) = some z' ∧
    z'.free = false ∧ h.takeOut c q = some (h.getBlock c q (mmClass z.size).1 (mmClass z.size).2) ∧
    (∀ t, (∀ r, ∀ b ∈ lists r, ¬ LinkAt c b t) →
      (h.getBlock c q (mmClass z.size).1 (mmClass z.size).2).mem t = h.mem t) ∧
    Span c lo hi (h.getBlock c q (mmClass z.size).1 (mmClass z.size).2) B
      (dropBlk lists (mmClass z.size) q) p (q + c.headSize + z.size) x z' := by
  have hhi := hs.tiled.free_ne_hi hs.right hz
  obtain ⟨z', hz', -, hzf⟩ := hs.tiled.next hs.right hhi
  have hmin := minLength_pos c
  have hlen := hs.tiled.least hs.right hhi
  have hlt := hs.lt
  have hd := (hs.tiled.dvd hs.right).2
  have hmem : q ∈ lists (mmClass z.size) := hs.filed.2 ⟨z, hs.right, hz, rfl, .inr le_rfl⟩
  have hkeep := fun {a y} (ha : B a = some y) => getBlock_header hs.tiled hs.idx hs.blocks hmem ha
  have hhead : ∀ {a y}, B a = some y → a < p ∨ q < a → HeaderOk c (h.getBlock c q
      (mmClass z.size).1 (mmClass z.size).2) B a y := fun ha hout =>
    (hs.header ha hout).congr (hkeep ha).1 (hkeep ha).2
  have htake : h.takeOut c q = some (h.getBlock c q (mmClass z.size).1 (mmClass z.size).2) := by
    obtain ⟨f, hf⟩ := hs.size_right
    exact takeOut_eq (y := ⟨z.size, z.free, f⟩) hd (hs.tiled.size_lt (x := z) hs.right) hf
  refine ⟨z', hz', hzf hz, htake, fun t ht => hs.idx.getBlock_frame hmem ht, hs.tiled, hs.idx.get hmem, hs.left, hz', by omega,
    fun ha hout => hhead ha (by omega), ⟨z'.prevFree, (hhead hz' (by omega)).size⟩, ?_, ?_,
    fun {d r} => ?_⟩
  · rw [← hs.prevFree]
    unfold MmHeap.size
    rw [(hkeep hs.left).2]
  · intro hx
    rw [MmHeap.prev, (hkeep hs.left).1]
    exact hs.prev hx
  · rw [hs.idx.mem_dropBlk hmem, hs.filed]
    constructor
    · rintro ⟨⟨y, hy, hfree, hcl, hout⟩, hne⟩
      refine ⟨y, hy, hfree, hcl, ?_⟩
      rcases hout with hout | hout
      · exact .inl hout
      · exact .inr (hs.tiled.apart hs.right hy (by omega))
    · rintro ⟨y, hy, hfree, hcl, hout⟩
      exact ⟨⟨y, hy, hfree, hcl, by omega⟩, by omega⟩

theorem takePrev (hx : x.prevFree = true) : ∃ y, B (h.prev p) = some y ∧ y.free = true ∧
    y.prevFree = false ∧ h.prev p + c.headSize + y.size = p ∧ h.size c (h.prev p) = y.word ∧
    h.takeOut c (h.prev p) =
      some (h.getBlock c (h.prev p) (mmClass y.size).1 (mmClass y.size).2) ∧
    (∀ t, (∀ r, ∀ b ∈ lists r, ¬ LinkAt c b t) →
      (h.getBlock c (h.prev p) (mmClass y.size).1 (mmClass y.size).2).mem t = h.mem t) ∧
    Span c lo hi (h.getBlock c (h.prev p) (mmClass y.size).1 (mmClass y.size).2) B
      (dropBlk lists (mmClass y.size) (h.prev p)) (h.prev p) q y z := by
  obtain ⟨y, hy, hfree, heq⟩ := hs.prev hx
  have hhi := hs.tiled.free_ne_hi hy hfree
  have hmin := minLength_pos c
  have hlen := hs.tiled.least hy hhi
  have hlt := hs.lt
  have hout : h.prev p < p := by omega
  have hd := (hs.tiled.dvd hy).2
  have hmem : h.prev p ∈ lists (mmClass y.size) := hs.filed.2 ⟨y, hy, hfree, rfl, .inl hout⟩
  have hkeep := fun {a y} (ha : B a = some y) => getBlock_header hs.tiled hs.idx hs.blocks hmem ha
  have hhead : ∀ {a w}, B a = some w → a < p ∨ q < a → HeaderOk c (h.getBlock c (h.prev p)
      (mmClass y.size).1 (mmClass y.size).2) B a w := fun ha hout =>
    (hs.header ha hout).congr (hkeep ha).1 (hkeep ha).2
  have hok := hs.header hy (.inl hout)
  have hpf : y.prevFree = false := by
    by_contra hpf
    obtain ⟨w, hw, hwf, hweq⟩ := hok.prev (by simpa using hpf)
    obtain ⟨v, hv, -, hno⟩ := hs.tiled.next hw (hs.tiled.free_ne_hi hw hwf)
    rw [hweq, hy] at hv
    cases hv
    rw [hno hwf] at hfree
    cases hfree
  have htake := takeOut_eq (h := h) (b := h.prev p) hd (hs.tiled.size_lt hy) hok.size
  refine ⟨y, hy, hfree, hpf, heq, hok.size, htake, fun t ht => hs.idx.getBlock_frame hmem ht,
    hs.tiled, hs.idx.get hmem, hy, hs.right, by omega, fun ha hout => hhead ha (by omega), ?_, ?_, (hhead hy (.inl hout)).prev,
    fun {d r} => ?_⟩
  · obtain ⟨f, hf⟩ := hs.size_right
    refine ⟨f, ?_⟩
    rw [MmHeap.size, (hkeep hs.right).2]
    exact hf
  · rw [(hhead hy (.inl hout)).size]
    exact isPrevFree_word (four_dvd hd)
  · rw [hs.idx.mem_dropBlk hmem, hs.filed]
    constructor
    · rintro ⟨⟨w, hw, hwf, hcl, hdo⟩, hne⟩
      refine ⟨w, hw, hwf, hcl, ?_⟩
      rcases hdo with hdo | hdo
      · refine .inl ?_
        by_contra hge
        have := hs.tiled.apart hy hw (by omega)
        omega
      · exact .inr hdo
    · rintro ⟨w, hw, hwf, hcl, hdo⟩
      exact ⟨⟨w, hw, hwf, hcl, by omega⟩, by omega⟩

end Span

end Rhino
