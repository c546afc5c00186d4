/-
  Rhino kernel: the free lists of the heap and their bitmaps.

  `lists p` are the blocks of the list of the class `p`, in their order.
  `FreeIdx` says that the table, the links and the bitmaps agree with it.
-/
import AliOS.Rhino.MmClass
import AliOS.Lib.Linked

namespace Rhino

open Lib

variable {c : MmConfig} {h h' : MmHeap} {lists : ℕ × ℕ → List ℕ} {S : ℕ × ℕ → Prop} {p q : ℕ × ℕ}
  {a b t x fl sl : ℕ}

/-- The bitmaps have a bit for each list in `S`, and no other. -/
structure Bits (h : MmHeap) (S : ℕ × ℕ → Prop) : Prop where
  sl : ∀ p, p.2 < 32 → ((h.slBitmap p.1).getLsbD p.2 = true ↔ S p)
  fl : ∀ i < 32, (h.flBitmap.getLsbD i = true ↔ h.slBitmap i ≠ 0)

/-- The lists of the heap. -/
structure FreeIdx (c : MmConfig) (h : MmHeap) (lists : ℕ × ℕ → List ℕ) : Prop where
  linked : ∀ p, Linked (h.freeNext c) (h.freePrev c) 0 (lists p) 0
  head : ∀ p, h.mmTbl p.1 p.2 = (lists p).headD 0
  nodup : ∀ p, (lists p).Nodup
  ne_zero : ∀ p, 0 ∉ lists p
  single : ∀ {p q a}, a ∈ lists p → a ∈ lists q → p = q
  apart : ∀ {p q a b}, a ∈ lists p → b ∈ lists q → a < b → a + c.listSize ≤ b
  range : ∀ {p}, lists p ≠ [] → p.1 < c.fltSize ∧ p.2 < sltSize
  bits : Bits h fun p => lists p ≠ []

/-! ## Writes -/

namespace MmHeap

@[simp] theorem write_mem : (h.write a x).mem t = if t = a then x else h.mem t :=
  Function.update_apply h.mem a x t

@[simp] theorem write_mmTbl : (h.write a x).mmTbl = h.mmTbl := rfl
@[simp] theorem write_slBitmap : (h.write a x).slBitmap = h.slBitmap := rfl
@[simp] theorem write_flBitmap : (h.write a x).flBitmap = h.flBitmap := rfl
@[simp] theorem write_pool : (h.write a x).pool = h.pool := rfl
@[simp] theorem write_fixedmblk : (h.write a x).fixedmblk = h.fixedmblk := rfl
@[simp] theorem setTbl_mem : (h.setTbl fl sl x).mem = h.mem := rfl
@[simp] theorem setTbl_slBitmap : (h.setTbl fl sl x).slBitmap = h.slBitmap := rfl
@[simp] theorem setTbl_flBitmap : (h.setTbl fl sl x).flBitmap = h.flBitmap := rfl
@[simp] theorem setTbl_pool : (h.setTbl fl sl x).pool = h.pool := rfl
@[simp] theorem setTbl_fixedmblk : (h.setTbl fl sl x).fixedmblk = h.fixedmblk := rfl

theorem setTbl_mmTbl : (h.setTbl fl sl x).mmTbl p.1 p.2 = if p = (fl, sl) then x else h.mmTbl p.1 p.2 := by
  obtain ⟨i, j⟩ := p
  simp only [setTbl, Function.update_apply, Prod.mk.injEq]
  by_cases hi : i = fl
  · subst hi
    simp [Function.update_apply]
  · simp [hi]

@[simp] theorem clearBits_mem : (h.clearBits fl sl).mem = h.mem := by
  unfold clearBits
  split_ifs <;> rfl

@[simp] theorem clearBits_mmTbl : (h.clearBits fl sl).mmTbl = h.mmTbl := by
  unfold clearBits
  split_ifs <;> rfl

@[simp] theorem clearBits_pool : (h.clearBits fl sl).pool = h.pool := by
  unfold clearBits
  split_ifs <;> rfl

@[simp] theorem clearBits_fixedmblk : (h.clearBits fl sl).fixedmblk = h.fixedmblk := by
  unfold clearBits
  split_ifs <;> rfl

end MmHeap

/-! ## The bitmaps -/

theorem Bits.congr (hb : Bits h S) (hs : h'.slBitmap = h.slBitmap) (hf : h'.flBitmap = h.flBitmap) :
    Bits h' S :=
  ⟨fun p hp => by rw [hs]; exact hb.sl p hp, fun i hi => by rw [hs, hf]; exact hb.fl i hi⟩

theorem Bits.set (hb : Bits h S) (hfl : fl < 32) (hsl : sl < 32)
    (hs : h'.slBitmap = Function.update h.slBitmap fl (krhinoBitmapSet (h.slBitmap fl) (31 - sl)))
    (hf : h'.flBitmap = krhinoBitmapSet h.flBitmap (31 - fl)) :
    Bits h' fun p => p = (fl, sl) ∨ S p := by
  constructor
  · rintro ⟨i, j⟩ hj
    have hbit := hb.sl (i, j) hj
    rw [hs, Function.update_apply]
    by_cases hi : i = fl
    · subst hi
      rw [if_pos rfl, krhinoBitmapSet_getLsbD hsl hj]
      by_cases hjs : j = sl
      · simp [hjs]
      · simp [hjs, hbit]
    · simp [hi, hbit]
  · intro i hi
    have hbit := hb.fl i hi
    rw [hs, hf, krhinoBitmapSet_getLsbD hfl hi, Function.update_apply]
    by_cases hif : i = fl
    · have hne : krhinoBitmapSet (h.slBitmap fl) (31 - sl) ≠ 0 := by
        intro hz
        have := bitmap_eq_zero.1 hz sl hsl
        rw [krhinoBitmapSet_getLsbD hsl hsl] at this
        simp at this
      rw [if_pos hif]
      simpa [hif] using hne
    · simp [hif, hbit]

theorem Bits.clear (hb : Bits h S) (hfl : fl < 32) (hsl : sl < 32) :
    Bits (h.clearBits fl sl) fun p => S p ∧ (p = (fl, sl) → h.mmTbl fl sl ≠ 0) := by
  unfold MmHeap.clearBits
  by_cases hz : h.mmTbl fl sl = 0
  · rw [if_pos hz]
    constructor
    · rintro ⟨i, j⟩ hj
      have hbit := hb.sl (i, j) hj
      simp only [Function.update_apply, Prod.mk.injEq] at hj hbit ⊢
      by_cases hi : i = fl
      · subst hi
        rw [if_pos rfl, krhinoBitmapClear_getLsbD hsl hj]
        by_cases hjs : j = sl
        · simp [hjs, hz]
        · simp [hjs, hbit]
      · simp [hi, hbit]
    · intro i hi
      have hbit := hb.fl i hi
      simp only [Function.update_apply]
      by_cases hif : i = fl
      · subst hif
        by_cases hsz : krhinoBitmapClear (h.slBitmap i) (31 - sl) = 0
        · rw [if_pos hsz, if_pos rfl, krhinoBitmapClear_getLsbD hfl hi]
          simp [hsz]
        · rw [if_neg hsz, if_pos rfl, hbit]
          refine iff_of_true (fun h0 => hsz ?_) hsz
          rw [h0, krhinoBitmapClear]
          exact BitVec.zero_and
      · rw [if_neg hif]
        split_ifs
        · rw [krhinoBitmapClear_getLsbD hfl hi]
          simp [hif, hbit]
        · exact hbit
  · rw [if_neg hz]
    refine ⟨fun p hp => ?_, hb.fl⟩
    rw [hb.sl p hp]
    simp [hz]

theorem fltSize_le (c : MmConfig) : c.fltSize ≤ 24 := by
  have := c.maxMmBit_le
  unfold MmConfig.fltSize
  omega

/-- **`findblk_byidx`** finds the first list at or above the class, where there
    is one. -/
theorem Bits.find (hb : Bits h S) (hr : ∀ p, S p → p.1 < 32 ∧ p.2 < 32) (fl sl : ℕ) :
    (∃ p, S p ∧ ClassLe (fl, sl) p ∧ h.findblkByidx fl sl = (h.mmTbl p.1 p.2, p)) ∨
      ((∀ p, S p → ¬ ClassLe (fl, sl) p) ∧ (h.findblkByidx fl sl).1 = 0) := by
  unfold MmHeap.findblkByidx
  by_cases htmp : h.slBitmap fl &&& (BitVec.allOnes 32 <<< sl) ≠ 0
  · obtain ⟨hlt, hset, -⟩ := findLastBit_spec htmp
    simp only [if_pos htmp]
    generalize findLastBit (h.slBitmap fl &&& (BitVec.allOnes 32 <<< sl)) = j at hlt hset
    rw [maskFrom_getLsbD hlt] at hset
    simp only [Bool.and_eq_true, decide_eq_true_eq] at hset
    exact .inl ⟨(fl, j), (hb.sl (fl, j) hlt).1 hset.1, .inr ⟨rfl, hset.2⟩, rfl⟩
  · simp only [if_neg htmp]
    rw [not_not] at htmp
    have hrow : ∀ p, S p → p.1 = fl → ¬ sl ≤ p.2 := by
      intro p hp hpf hle
      have h0 := bitmap_eq_zero.1 htmp p.2 (hr p hp).2
      rw [maskFrom_getLsbD (hr p hp).2, ← hpf, (hb.sl p (hr p hp).2).2 hp] at h0
      simp [hle] at h0
    by_cases hmask : h.flBitmap &&& (BitVec.allOnes 32 <<< (fl + 1)) = 0
    · have hlast : findLastBit (h.flBitmap &&& (BitVec.allOnes 32 <<< (fl + 1))) = 0 := by
        rw [hmask]
        rfl
      rw [hlast, if_neg (lt_irrefl 0)]
      refine .inr ⟨fun p hp hle => ?_, rfl⟩
      rcases hle with hlt | ⟨heq, hle⟩
      · have h0 := bitmap_eq_zero.1 hmask p.1 (hr p hp).1
        have hne : h.slBitmap p.1 ≠ 0 := fun hz => by
          have := (hb.sl p (hr p hp).2).2 hp
          rw [bitmap_eq_zero.1 hz p.2 (hr p hp).2] at this
          cases this
        rw [maskFrom_getLsbD (hr p hp).1, (hb.fl p.1 (hr p hp).1).2 hne] at h0
        simp only [Bool.true_and, decide_eq_false_iff_not] at h0
        omega
      · exact hrow p hp heq.symm hle
    · obtain ⟨hlt, hset, -⟩ := findLastBit_spec hmask
      generalize findLastBit (h.flBitmap &&& (BitVec.allOnes 32 <<< (fl + 1))) = i at hlt hset
      rw [maskFrom_getLsbD hlt] at hset
      simp only [Bool.and_eq_true, decide_eq_true_eq] at hset
      rw [if_pos (by omega)]
      obtain ⟨hlt', hset', -⟩ := findLastBit_spec ((hb.fl i hlt).1 hset.1)
      exact .inl ⟨(i, findLastBit (h.slBitmap i)), (hb.sl (i, _) hlt').1 hset',
        .inl (by simp only; omega), rfl⟩

/-! ## The links -/

section

variable (c)

/-- The words of the links of a block. -/
def LinkAt (b t : ℕ) : Prop := t = b + 2 * c.ptrSize ∨ t = b + 3 * c.ptrSize

end

theorem ptrSize_pos (c : MmConfig) : 4 ≤ c.ptrSize := by
  rcases c.ptrSize_eq with h | h <;> omega

namespace FreeIdx

variable (hx : FreeIdx c h lists)
include hx

theorem pos (ha : a ∈ lists p) : 0 < a := Nat.pos_of_ne_zero fun h => hx.ne_zero p (h ▸ ha)

theorem linkAt_inj (ha : a ∈ lists p) (hb : b ∈ lists q) (hta : LinkAt c a t) (htb : LinkAt c b t) :
    a = b := by
  have := ptrSize_pos c
  unfold LinkAt at hta htb
  rcases lt_trichotomy a b with hlt | heq | hlt
  · have := hx.apart ha hb hlt
    unfold MmConfig.listSize at this
    omega
  · exact heq
  · have := hx.apart hb ha hlt
    unfold MmConfig.listSize at this
    omega

/-- **The lists only depend on the links of their blocks**, the table and the
    bitmaps. -/
theorem congr (ht : h'.mmTbl = h.mmTbl) (hs : h'.slBitmap = h.slBitmap)
    (hf : h'.flBitmap = h.flBitmap)
    (hm : ∀ p, ∀ a ∈ lists p, ∀ t, LinkAt c a t → h'.mem t = h.mem t) : FreeIdx c h' lists where
  linked p := (hx.linked p).congr (fun a ha => hm p a ha _ (.inr rfl)) fun a ha => hm p a ha _ (.inl rfl)
  head p := by rw [ht]; exact hx.head p
  nodup := hx.nodup
  ne_zero := hx.ne_zero
  single := hx.single
  apart := hx.apart
  range := hx.range
  bits := hx.bits.congr hs hf

theorem neighbours (hb : b ∈ lists p) : ∃ l m, lists p = l ++ b :: m ∧
    h.freePrev c b = l.getLastD 0 ∧ h.freeNext c b = m.headD 0 := by
  obtain ⟨l, m, hl⟩ := List.append_of_mem hb
  have hlink := hx.linked p
  rw [hl] at hlink
  exact ⟨l, m, hl, hlink.at_mid⟩

theorem next_mem (hb : b ∈ lists p) (hne : h.freeNext c b ≠ 0) : h.freeNext c b ∈ lists p := by
  obtain ⟨l, m, hl, -, hn⟩ := hx.neighbours hb
  rw [hl, hn]
  rw [hn] at hne
  cases m with
  | nil => exact absurd rfl hne
  | cons a m => simp

theorem prev_mem (hb : b ∈ lists p) (hne : h.freePrev c b ≠ 0) : h.freePrev c b ∈ lists p := by
  obtain ⟨l, m, hl, hp, -⟩ := hx.neighbours hb
  rw [hl, hp]
  rw [hp] at hne
  cases l with
  | nil => exact absurd rfl hne
  | cons a l =>
    rw [List.getLastD_cons]
    exact List.mem_append_left _ (getLastD_mem a l)

end FreeIdx

/-! ## A block enters a list -/

theorem insertBlock_mem : (h.insertBlock c b fl sl).mem t =
    if h.mmTbl fl sl ≠ 0 ∧ t = h.mmTbl fl sl + 2 * c.ptrSize then b
    else if t = b + 3 * c.ptrSize then h.mmTbl fl sl
    else if t = b + 2 * c.ptrSize then 0 else h.mem t := by
  unfold MmHeap.insertBlock MmHeap.setFreePrev MmHeap.setFreeNext
  by_cases hz : h.mmTbl fl sl = 0 <;> simp [hz]

theorem insertBlock_mmTbl : (h.insertBlock c b fl sl).mmTbl p.1 p.2 =
    if p = (fl, sl) then b else h.mmTbl p.1 p.2 := by
  unfold MmHeap.insertBlock
  by_cases hz : h.mmTbl fl sl = 0 <;> simp [hz, MmHeap.setTbl_mmTbl, MmHeap.setFreePrev, MmHeap.setFreeNext]

theorem insertBlock_rest (c : MmConfig) (h : MmHeap) (b fl sl : ℕ) : (h.insertBlock c b fl sl).pool = h.pool ∧
    (h.insertBlock c b fl sl).fixedmblk = h.fixedmblk := by
  unfold MmHeap.insertBlock
  by_cases hz : h.mmTbl fl sl = 0 <;> simp [hz, MmHeap.setFreePrev, MmHeap.setFreeNext]

/-- The lists with a new first block. -/
def pushBlk (lists : ℕ × ℕ → List ℕ) (p : ℕ × ℕ) (b : ℕ) : ℕ × ℕ → List ℕ :=
  Function.update lists p (b :: lists p)

theorem mem_pushBlk : a ∈ pushBlk lists p b q ↔ q = p ∧ a = b ∨ a ∈ lists q := by
  unfold pushBlk
  rw [Function.update_apply]
  split_ifs with h
  · subst h
    simp
  · simp [h]

theorem FreeIdx.insert (hx : FreeIdx c h lists) (hb : b ≠ 0)
    (hap : ∀ q, ∀ a ∈ lists q, a + c.listSize ≤ b ∨ b + c.listSize ≤ a) (hfl : fl < c.fltSize)
    (hsl : sl < sltSize) : FreeIdx c (h.insertBlock c b fl sl) (pushBlk lists (fl, sl) b) := by
  have hW := ptrSize_pos c
  have hnew : ∀ q, b ∉ lists q := by
    intro q hq
    have := hap q b hq
    unfold MmConfig.listSize at this
    omega
  have hsep : ∀ q, ∀ a ∈ lists q, ∀ t, LinkAt c a t → ¬ LinkAt c b t := by
    intro q a ha t hta htb
    have := hap q a ha
    unfold MmConfig.listSize at this
    unfold LinkAt at hta htb
    omega
  have hfirst : h.mmTbl fl sl ≠ 0 → h.mmTbl fl sl ∈ lists (fl, sl) := by
    intro hne
    rw [hx.head (fl, sl)] at hne ⊢
    cases hl : lists (fl, sl) with
    | nil => exact absurd (by rw [hl]; rfl) hne
    | cons a l => simp
  have hfl32 : fl < 32 := lt_of_lt_of_le hfl ((fltSize_le c).trans (by decide))
  -- the links of the blocks that were there
  have hnext : ∀ q, ∀ a ∈ lists q, (h.insertBlock c b fl sl).freeNext c a = h.freeNext c a := by
    intro q a ha
    have h1 : ¬ (h.mmTbl fl sl ≠ 0 ∧ a + 3 * c.ptrSize = h.mmTbl fl sl + 2 * c.ptrSize) := by
      rintro ⟨hne, heq⟩
      have := hx.linkAt_inj ha (hfirst hne) (.inr rfl) (.inl heq)
      omega
    have h2 := hsep q a ha (a + 3 * c.ptrSize) (.inr rfl)
    unfold LinkAt at h2
    unfold MmHeap.freeNext
    rw [insertBlock_mem, if_neg h1, if_neg (by omega), if_neg (by omega)]
  have hprev : ∀ q, ∀ a ∈ lists q, (h.insertBlock c b fl sl).freePrev c a =
      if a = h.mmTbl fl sl then b else h.freePrev c a := by
    intro q a ha
    have hne := (hx.pos ha).ne'
    have h2 := hsep q a ha (a + 2 * c.ptrSize) (.inl rfl)
    unfold LinkAt at h2
    unfold MmHeap.freePrev
    rw [insertBlock_mem]
    by_cases heq : a = h.mmTbl fl sl
    · rw [if_pos heq, if_pos ⟨heq ▸ hne, by rw [← heq]⟩]
    · rw [if_neg heq, if_neg (by omega), if_neg (by omega), if_neg (by omega)]
  refine ⟨fun q => ?_, fun q => ?_, fun q => ?_, fun q hq => ?_, fun {q r a} ha ha' => ?_,
    fun {q r a d} ha hd hlt => ?_, fun {q} hq => ?_, ?_⟩
  · unfold pushBlk
    rw [Function.update_apply]
    split_ifs with hq
    · refine (hx.linked (fl, sl)).push ?_ ?_ (hx.nodup _) (hnext _) fun a ha => ?_
      · rw [← hx.head (fl, sl)]
        have h1 : ¬ (h.mmTbl fl sl ≠ 0 ∧ b + 3 * c.ptrSize = h.mmTbl fl sl + 2 * c.ptrSize) :=
          fun ⟨hne, heq⟩ => hsep _ _ (hfirst hne) _ (.inl rfl) (.inr heq.symm)
        unfold MmHeap.freeNext
        rw [insertBlock_mem, if_neg h1, if_pos rfl]
      · have h1 : ¬ (h.mmTbl fl sl ≠ 0 ∧ b + 2 * c.ptrSize = h.mmTbl fl sl + 2 * c.ptrSize) :=
          fun ⟨hne, heq⟩ => hsep _ _ (hfirst hne) _ (.inl rfl) (.inl heq.symm)
        unfold MmHeap.freePrev
        rw [insertBlock_mem, if_neg h1, if_neg (by omega), if_pos rfl]
      · rw [← hx.head (fl, sl)]
        exact hprev _ a ha
    · refine (hx.linked q).congr (hnext q) fun a ha => ?_
      rw [hprev q a ha, if_neg]
      intro heq
      have hne : h.mmTbl fl sl ≠ 0 := heq ▸ (hx.pos ha).ne'
      exact hq (hx.single ha (heq ▸ hfirst hne))
  · rw [insertBlock_mmTbl, pushBlk, Function.update_apply]
    split_ifs with hq
    · rfl
    · exact hx.head q
  · unfold pushBlk
    rw [Function.update_apply]
    split_ifs with hq
    · exact List.nodup_cons.2 ⟨hnew _, hx.nodup _⟩
    · exact hx.nodup q
  · rcases mem_pushBlk.1 hq with ⟨-, h0⟩ | h0
    · exact hb h0.symm
    · exact hx.ne_zero q h0
  · rcases mem_pushBlk.1 ha with ⟨hq, rfl⟩ | ha <;> rcases mem_pushBlk.1 ha' with ⟨hr, heq⟩ | ha'
    · rw [hq, hr]
    · exact absurd ha' (hnew r)
    · exact absurd (heq ▸ ha) (hnew q)
    · exact hx.single ha ha'
  · rcases mem_pushBlk.1 ha with ⟨-, rfl⟩ | hal <;> rcases mem_pushBlk.1 hd with ⟨-, rfl⟩ | hdl
    · omega
    · rcases hap r d hdl with h | h <;> omega
    · rcases hap q a hal with h | h <;> omega
    · exact hx.apart hal hdl hlt
  · by_cases hqp : q = (fl, sl)
    · rw [hqp]
      exact ⟨hfl, hsl⟩
    · refine hx.range fun hnil => hq ?_
      rw [pushBlk, Function.update_apply, if_neg hqp, hnil]
  · have hset : Bits (h.insertBlock c b fl sl) fun p => p = (fl, sl) ∨ lists p ≠ [] := by
      refine hx.bits.set hfl32 hsl ?_ ?_ <;> unfold MmHeap.insertBlock <;>
        by_cases hz : h.mmTbl fl sl = 0 <;> simp [hz, MmHeap.setFreePrev, MmHeap.setFreeNext]
    refine ⟨fun q hq => (hset.sl q hq).trans ?_, hset.fl⟩
    unfold pushBlk
    rw [Function.update_apply]
    split_ifs with hqp <;> simp [hqp]

/-! ## A block leaves a list -/

/-- The lists without a block. -/
def dropBlk (lists : ℕ × ℕ → List ℕ) (p : ℕ × ℕ) (b : ℕ) : ℕ × ℕ → List ℕ :=
  Function.update lists p ((lists p).erase b)

theorem FreeIdx.mem_dropBlk (hx : FreeIdx c h lists) (hb : b ∈ lists p) :
    a ∈ dropBlk lists p b q ↔ a ∈ lists q ∧ a ≠ b := by
  unfold dropBlk
  rw [Function.update_apply]
  split_ifs with hq
  · rw [hq, (hx.nodup p).mem_erase_iff]
    tauto
  · refine (and_iff_left_of_imp ?_).symm
    intro ha hab
    exact hq (hx.single (hab ▸ ha) hb)

section

variable (c) (h) (b)

/-- The heap with the neighbours of `b` in its list linked. -/
def MmHeap.bypass : MmHeap :=
  let h := if h.freeNext c b ≠ 0 then h.setFreePrev c (h.freeNext c b) (h.freePrev c b) else h
  if h.freePrev c b ≠ 0 then h.setFreeNext c (h.freePrev c b) (h.freeNext c b) else h

end

namespace FreeIdx

variable (hx : FreeIdx c h lists) (hb : b ∈ lists p)
include hx hb

theorem next_ne : h.freeNext c b ≠ b := by
  obtain ⟨l, m, hl, -, hn⟩ := hx.neighbours hb
  have hnd := hx.nodup p
  rw [hl] at hnd
  obtain ⟨-, hnd, -⟩ := List.nodup_append.1 hnd
  obtain ⟨hbm, -⟩ := List.nodup_cons.1 hnd
  rw [hn]
  cases m with
  | nil => exact (hx.pos hb).ne
  | cons a m =>
    rintro rfl
    simp at hbm

theorem prev_ne : h.freePrev c b ≠ b := by
  obtain ⟨l, m, hl, hp, -⟩ := hx.neighbours hb
  have hnd := hx.nodup p
  rw [hl] at hnd
  obtain ⟨-, -, hdis⟩ := List.nodup_append.1 hnd
  rw [hp]
  cases l with
  | nil => exact (hx.pos hb).ne
  | cons a l =>
    intro heq
    rw [List.getLastD_cons] at heq
    exact hdis _ (heq ▸ getLastD_mem a l) b (by simp) rfl

theorem next_sep (hne : h.freeNext c b ≠ 0) : ¬ LinkAt c b (h.freeNext c b + 2 * c.ptrSize) :=
  fun h => hx.next_ne hb (hx.linkAt_inj (hx.next_mem hb hne) hb (.inl rfl) h)

theorem prev_sep (hne : h.freePrev c b ≠ 0) : ¬ LinkAt c b (h.freePrev c b + 3 * c.ptrSize) :=
  fun h => hx.prev_ne hb (hx.linkAt_inj (hx.prev_mem hb hne) hb (.inr rfl) h)

theorem bypass_mem : (h.bypass c b).mem t =
    if h.freePrev c b ≠ 0 ∧ t = h.freePrev c b + 3 * c.ptrSize then h.freeNext c b
    else if h.freeNext c b ≠ 0 ∧ t = h.freeNext c b + 2 * c.ptrSize then h.freePrev c b
    else h.mem t := by
  unfold MmHeap.bypass
  by_cases hn : h.freeNext c b = 0
  · by_cases hp : h.freePrev c b = 0 <;> simp [hn, hp, MmHeap.setFreeNext]
  · have hsep := hx.next_sep hb hn
    unfold LinkAt at hsep
    have hp' : (h.setFreePrev c (h.freeNext c b) (h.freePrev c b)).freePrev c b = h.freePrev c b := by
      rw [MmHeap.freePrev, MmHeap.setFreePrev, MmHeap.write_mem, if_neg (by omega)]
      rfl
    have hn' : (h.setFreePrev c (h.freeNext c b) (h.freePrev c b)).freeNext c b = h.freeNext c b := by
      rw [MmHeap.freeNext, MmHeap.setFreePrev, MmHeap.write_mem, if_neg (by omega)]
      rfl
    simp only [if_pos hn, hp', hn']
    by_cases hp : h.freePrev c b = 0 <;> simp [hn, hp, MmHeap.setFreeNext, MmHeap.setFreePrev]

theorem bypass_freeNext : (h.bypass c b).freeNext c b = h.freeNext c b := by
  have hn := hx.next_sep hb
  have hp := hx.prev_sep hb
  unfold LinkAt at hn hp
  rw [MmHeap.freeNext, hx.bypass_mem hb, if_neg fun ⟨h0, heq⟩ => hp h0 (.inr heq.symm),
    if_neg fun ⟨h0, heq⟩ => hn h0 (.inr heq.symm)]
  rfl

end FreeIdx

theorem bypass_mmTbl : (h.bypass c b).mmTbl = h.mmTbl := by
  unfold MmHeap.bypass
  simp only
  split_ifs <;> rfl

theorem bypass_rest : (h.bypass c b).slBitmap = h.slBitmap ∧ (h.bypass c b).flBitmap = h.flBitmap ∧
    (h.bypass c b).pool = h.pool ∧ (h.bypass c b).fixedmblk = h.fixedmblk := by
  unfold MmHeap.bypass
  simp only
  split_ifs <;> exact ⟨rfl, rfl, rfl, rfl⟩

theorem getBlock_eq : h.getBlock c b fl sl =
    ((if (h.bypass c b).mmTbl fl sl = b then
        ((h.bypass c b).setTbl fl sl ((h.bypass c b).freeNext c b)).clearBits fl sl
      else h.bypass c b).setFreePrev c b 0).setFreeNext c b 0 := rfl

theorem getBlock_rest : (h.getBlock c b fl sl).pool = h.pool ∧
    (h.getBlock c b fl sl).fixedmblk = h.fixedmblk := by
  obtain ⟨-, -, hp, hf⟩ := bypass_rest (c := c) (h := h) (b := b)
  rw [getBlock_eq]
  split_ifs <;> simp [MmHeap.setFreePrev, MmHeap.setFreeNext, hp, hf]

theorem getBlock_mem : (h.getBlock c b fl sl).mem t =
    if t = b + 3 * c.ptrSize then 0 else if t = b + 2 * c.ptrSize then 0
    else (h.bypass c b).mem t := by
  rw [getBlock_eq]
  split_ifs <;> simp_all [MmHeap.setFreePrev, MmHeap.setFreeNext]

namespace FreeIdx

variable (hx : FreeIdx c h lists) (hb : b ∈ lists (fl, sl))
include hx hb

theorem getBlock_mmTbl : (h.getBlock c b fl sl).mmTbl p.1 p.2 =
    if p = (fl, sl) ∧ h.mmTbl fl sl = b then h.freeNext c b else h.mmTbl p.1 p.2 := by
  rw [getBlock_eq, bypass_mmTbl, hx.bypass_freeNext hb]
  by_cases hfirst : h.mmTbl fl sl = b
  · rw [if_pos hfirst]
    simp [MmHeap.setFreePrev, MmHeap.setFreeNext, MmHeap.setTbl_mmTbl, bypass_mmTbl, hfirst]
  · rw [if_neg hfirst]
    simp [MmHeap.setFreePrev, MmHeap.setFreeNext, bypass_mmTbl, hfirst]

theorem getBlock_bits (hfl : fl < 32) (hsl : sl < 32) : Bits (h.getBlock c b fl sl) fun p =>
    lists p ≠ [] ∧ (p = (fl, sl) → h.mmTbl fl sl = b → h.freeNext c b ≠ 0) := by
  obtain ⟨hs, hf, -, -⟩ := bypass_rest (c := c) (h := h) (b := b)
  rw [getBlock_eq, bypass_mmTbl, hx.bypass_freeNext hb]
  by_cases hfirst : h.mmTbl fl sl = b
  · rw [if_pos hfirst]
    have hb0 : Bits ((h.bypass c b).setTbl fl sl (h.freeNext c b)) fun p => lists p ≠ [] :=
      hx.bits.congr hs hf
    have hclear := hb0.clear hfl hsl
    have htbl : ((h.bypass c b).setTbl fl sl (h.freeNext c b)).mmTbl fl sl = h.freeNext c b := by
      simp [MmHeap.setTbl]
    rw [htbl] at hclear
    refine ⟨fun p hp => ?_, hclear.fl⟩
    refine (hclear.sl p hp).trans ?_
    simp [hfirst]
  · rw [if_neg hfirst]
    have hb0 : Bits (h.bypass c b) fun p => lists p ≠ [] := hx.bits.congr hs hf
    refine ⟨fun p hp => ?_, hb0.fl⟩
    refine (hb0.sl p hp).trans ?_
    simp [hfirst]

theorem get : FreeIdx c (h.getBlock c b fl sl) (dropBlk lists (fl, sl) b) := by
  have hW := ptrSize_pos c
  obtain ⟨l, m, hl, hprev, hnext⟩ := hx.neighbours hb
  obtain ⟨hfl, hsl⟩ := hx.range (List.ne_nil_of_mem hb)
  have hfl32 : fl < 32 := lt_of_lt_of_le hfl ((fltSize_le c).trans (by decide))
  have hnd := hx.nodup (fl, sl)
  rw [hl] at hnd
  have hbl : b ∉ l := fun h => (List.nodup_append.1 hnd).2.2 b h b (by simp) rfl
  have herase : (lists (fl, sl)).erase b = l ++ m := by
    rw [hl, List.erase_append_right _ hbl, List.erase_cons_head]
  have hmem : ∀ {q a}, a ∈ dropBlk lists (fl, sl) b q → a ∈ lists q ∧ a ≠ b :=
    fun ha => (hx.mem_dropBlk hb).1 ha
  -- the links of the blocks that stay
  have hsep : ∀ q, ∀ a ∈ lists q, a ≠ b → ∀ t, LinkAt c a t → ¬ LinkAt c b t :=
    fun q a ha hab t hta htb => hab (hx.linkAt_inj ha hb hta htb)
  have hfree : ∀ q, ∀ a ∈ lists q, a ≠ b → (h.getBlock c b fl sl).freeNext c a =
      if a = h.freePrev c b then h.freeNext c b else h.freeNext c a := by
    intro q a ha hab
    have h1 := hsep q a ha hab (a + 3 * c.ptrSize) (.inr rfl)
    have hn : ¬ (h.freeNext c b ≠ 0 ∧ a + 3 * c.ptrSize = h.freeNext c b + 2 * c.ptrSize) := by
      rintro ⟨h0, heq⟩
      have := hx.linkAt_inj ha (hx.next_mem hb h0) (.inr rfl) (.inl heq)
      omega
    unfold LinkAt at h1
    rw [MmHeap.freeNext, getBlock_mem, if_neg (by omega), if_neg (by omega), hx.bypass_mem hb]
    by_cases heq : a = h.freePrev c b
    · have hne : h.freePrev c b ≠ 0 := heq ▸ (hx.pos ha).ne'
      rw [if_pos heq, if_pos ⟨hne, by rw [← heq]⟩]
    · rw [if_neg heq, if_neg (by omega), if_neg hn]
      rfl
  have hback : ∀ q, ∀ a ∈ lists q, a ≠ b → (h.getBlock c b fl sl).freePrev c a =
      if a = h.freeNext c b then h.freePrev c b else h.freePrev c a := by
    intro q a ha hab
    have h1 := hsep q a ha hab (a + 2 * c.ptrSize) (.inl rfl)
    have hp : ¬ (h.freePrev c b ≠ 0 ∧ a + 2 * c.ptrSize = h.freePrev c b + 3 * c.ptrSize) := by
      rintro ⟨h0, heq⟩
      have := hx.linkAt_inj ha (hx.prev_mem hb h0) (.inl rfl) (.inr heq)
      omega
    unfold LinkAt at h1
    rw [MmHeap.freePrev, getBlock_mem, if_neg (by omega), if_neg (by omega), hx.bypass_mem hb,
      if_neg hp]
    by_cases heq : a = h.freeNext c b
    · have hne : h.freeNext c b ≠ 0 := heq ▸ (hx.pos ha).ne'
      rw [if_pos heq, if_pos ⟨hne, by rw [← heq]⟩]
    · rw [if_neg heq, if_neg (by omega)]
      rfl
  refine ⟨fun q => ?_, fun q => ?_, fun q => ?_, fun q hq => ?_, fun {q r a} ha ha' => ?_,
    fun {q r a d} ha hd hlt => ?_, fun {q} hq => ?_, ?_⟩
  · unfold dropBlk
    rw [Function.update_apply]
    split_ifs with hq
    · rw [herase]
      have hlink := hx.linked (fl, sl)
      have hz := hx.ne_zero (fl, sl)
      rw [hl] at hlink hz
      have hin : ∀ a ∈ l ++ m, a ∈ lists (fl, sl) ∧ a ≠ b := fun a ha => by
        rw [← herase] at ha
        exact (hx.nodup (fl, sl)).mem_erase_iff.1 ha |>.symm
      exact hlink.unlink hnd hz (fun a ha => hfree _ a (hin a ha).1 (hin a ha).2)
        fun a ha => hback _ a (hin a ha).1 (hin a ha).2
    · have hoff : ∀ a ∈ lists q, a ≠ b := fun a ha hab => hq (hx.single (hab ▸ ha) hb)
      refine (hx.linked q).congr (fun a ha => ?_) fun a ha => ?_
      · rw [hfree q a ha (hoff a ha), if_neg]
        intro heq
        have hne : h.freePrev c b ≠ 0 := heq ▸ (hx.pos ha).ne'
        exact hq (hx.single (heq ▸ ha) (hx.prev_mem hb hne))
      · rw [hback q a ha (hoff a ha), if_neg]
        intro heq
        have hne : h.freeNext c b ≠ 0 := heq ▸ (hx.pos ha).ne'
        exact hq (hx.single (heq ▸ ha) (hx.next_mem hb hne))
  · rw [hx.getBlock_mmTbl hb]
    unfold dropBlk
    rw [Function.update_apply]
    by_cases hq : q = (fl, sl)
    · subst hq
      rw [if_pos rfl, herase]
      have hhead := hx.head (fl, sl)
      simp only at hhead ⊢
      rw [hl] at hhead
      cases l with
      | nil => rw [if_pos ⟨trivial, hhead⟩, hnext]; rfl
      | cons a l =>
        have hne : h.mmTbl fl sl ≠ b := by
          rw [hhead]
          rintro heq
          exact hbl (heq ▸ by simp)
        rw [if_neg fun h => hne h.2, hhead]
        rfl
    · rw [if_neg fun h => hq h.1, if_neg hq]
      exact hx.head q
  · unfold dropBlk
    rw [Function.update_apply]
    split_ifs with hq
    · exact (hx.nodup _).erase b
    · exact hx.nodup q
  · exact hx.ne_zero q (hmem hq).1
  · exact hx.single (hmem ha).1 (hmem ha').1
  · exact hx.apart (hmem ha).1 (hmem hd).1 hlt
  · obtain ⟨a, ha⟩ := List.exists_mem_of_ne_nil _ hq
    exact hx.range (List.ne_nil_of_mem (hmem ha).1)
  · have hbits := hx.getBlock_bits hb hfl32 hsl
    refine ⟨fun q hq => (hbits.sl q hq).trans ?_, hbits.fl⟩
    unfold dropBlk
    rw [Function.update_apply]
    by_cases hqp : q = (fl, sl)
    · have hhead := hx.head (fl, sl)
      rw [if_pos hqp, herase, hqp, hl, hnext]
      rw [hl] at hhead
      cases l with
      | nil =>
        have hz : m.headD 0 ≠ 0 ↔ m ≠ [] := by
          have hzm := hx.ne_zero (fl, sl)
          rw [hl] at hzm
          cases m with
          | nil => simp
          | cons a m =>
            have : a ≠ 0 := fun h0 => hzm (by simp [h0])
            simp [this]
        simpa [hhead] using hz
      | cons a l =>
        have hne : h.mmTbl fl sl ≠ b := by
          rw [hhead]
          rintro heq
          exact hbl (heq ▸ by simp)
        simp [hne]
    · simp [hqp]

theorem getBlock_frame (ht : ∀ q, ∀ a ∈ lists q, ¬ LinkAt c a t) :
    (h.getBlock c b fl sl).mem t = h.mem t := by
  have hbt := ht _ b hb
  unfold LinkAt at hbt
  rw [getBlock_mem, if_neg (by omega), if_neg (by omega), hx.bypass_mem hb,
    if_neg fun ⟨h0, heq⟩ => ht _ _ (hx.prev_mem hb h0) (.inr heq),
    if_neg fun ⟨h0, heq⟩ => ht _ _ (hx.next_mem hb h0) (.inl heq)]

end FreeIdx

theorem FreeIdx.insertBlock_frame (hx : FreeIdx c h lists)
    (ht : ∀ q, ∀ a ∈ lists q, ¬ LinkAt c a t) (hbt : ¬ LinkAt c b t) :
    (h.insertBlock c b fl sl).mem t = h.mem t := by
  have h1 : ¬ (h.mmTbl fl sl ≠ 0 ∧ t = h.mmTbl fl sl + 2 * c.ptrSize) := by
    rintro ⟨hne, heq⟩
    have hhead := hx.head (fl, sl)
    cases hl : lists (fl, sl) with
    | nil =>
      rw [hl] at hhead
      exact hne hhead
    | cons a l =>
      rw [hl] at hhead
      refine ht (fl, sl) a (by simp [hl]) (.inl ?_)
      rw [heq, hhead]
      rfl
  unfold LinkAt at hbt
  rw [insertBlock_mem, if_neg h1, if_neg (by omega), if_neg (by omega)]

theorem FreeIdx.takeFirst_eq (hx : FreeIdx c h lists) (hb : b ∈ lists (fl, sl))
    (hfirst : h.mmTbl fl sl = b) : h.takeFirst c b fl sl = h.getBlock c b fl sl := by
  have hprev : h.freePrev c b = 0 := by
    have hlink := hx.linked (fl, sl)
    have hhead := hx.head (fl, sl)
    cases hl : lists (fl, sl) with
    | nil => rw [hl] at hb; simp at hb
    | cons a l =>
      rw [hl] at hlink hhead
      have hab : b = a := hfirst.symm.trans hhead
      rw [hab]
      exact hlink.1
  have hby : h.bypass c b =
      if h.freeNext c b ≠ 0 then h.setFreePrev c (h.freeNext c b) 0 else h := by
    have hp : (if h.freeNext c b ≠ 0 then h.setFreePrev c (h.freeNext c b) (h.freePrev c b)
        else h).freePrev c b = 0 := by
      split_ifs with hn
      · have hsep := hx.next_sep hb hn
        unfold LinkAt at hsep
        rw [MmHeap.freePrev, MmHeap.setFreePrev, MmHeap.write_mem, if_neg (by omega)]
        exact hprev
      · exact hprev
    refine (if_neg (not_not.2 hp)).trans ?_
    rw [hprev]
  rw [getBlock_eq, bypass_mmTbl, hx.bypass_freeNext hb, if_pos hfirst, hby]
  unfold MmHeap.takeFirst
  by_cases hn : h.freeNext c b = 0
  · simp [MmHeap.setTbl, hn]
  · simp [MmHeap.setTbl, hn, MmHeap.clearBits, MmHeap.setFreePrev, MmHeap.write]

end Rhino
