/-
  Rhino kernel: the operations of the heap behind the fixed blocks.

  `MmHolds` is the abstract heap: the blocks that are used, by their addresses,
  with the bytes they have.
-/
import AliOS.Rhino.MmSpan

namespace Rhino

variable {c : MmConfig} {lo hi : ℕ} {h h' h₁ : MmHeap} {B : ℕ → Option MmBlk}
  {lists : ℕ × ℕ → List ℕ} {x y z : MmBlk} {a b m n p q s t size : ℕ} {r : ℕ × ℕ} {f g : Bool}
  {U U' : ℕ → Option ℕ}

/-! ## The blocks that are used -/

/-- The bytes of the block at `a`, where one is used. -/
def usedBlk (B : ℕ → Option MmBlk) (a : ℕ) : Option ℕ :=
  (B a).bind fun x => if x.free then none else some x.size

theorem usedBlk_eq_some : usedBlk B a = some n ↔ ∃ f, B a = some ⟨n, false, f⟩ := by
  unfold usedBlk
  cases B a with
  | none => simp
  | some x =>
    obtain ⟨k, fr, pf⟩ := x
    cases fr <;> simp

/-- **The heap has the used blocks `U`.** -/
def MmHolds (c : MmConfig) (lo hi : ℕ) (h : MmHeap) (U : ℕ → Option ℕ) : Prop :=
  ∃ B lists, MmInv c lo hi h B lists ∧ usedBlk B = U

/-- The words behind the headers of the blocks `U` are as they were. -/
def Keeps (c : MmConfig) (U : ℕ → Option ℕ) (h h' : MmHeap) : Prop :=
  ∀ a n t, U a = some n → a + c.headSize ≤ t → t < a + c.headSize + n → h'.mem t = h.mem t

theorem Keeps.trans (h₁ : Keeps c U h h') {h'' : MmHeap} (h2 : Keeps c U h' h'') : Keeps c U h h'' :=
  fun a n t ha hle hlt => (h2 a n t ha hle hlt).trans (h₁ a n t ha hle hlt)

theorem Keeps.refl (c : MmConfig) (U : ℕ → Option ℕ) (h : MmHeap) : Keeps c U h h :=
  fun _ _ _ _ _ _ => rfl

/-- Blocks from `p` up to `q` other than `b` are free. -/
def OnlyUsed (B : ℕ → Option MmBlk) (p q b : ℕ) : Prop :=
  ∀ ⦃a y⦄, B a = some y → p ≤ a → a < q → a ≠ b → y.free = true

theorem Tiled.onlyUsed (hB : Tiled c lo hi B) (hp : B p = some x) :
    OnlyUsed B p (p + c.headSize + x.size) p := fun _ _ ha hle hlt' hne => by
  have := hB.apart hp ha (by omega)
  omega

theorem OnlyUsed.extend (hn : OnlyUsed B p q b) (hB : Tiled c lo hi B) (hq : B q = some z)
    (hz : z.free = true) : OnlyUsed B p (q + c.headSize + z.size) b := fun a y ha hle hlt hne => by
  rcases lt_trichotomy a q with hlq | rfl | hlq
  · exact hn ha hle hlq hne
  · rw [hq] at ha
    cases ha
    exact hz
  · have := hB.apart hq ha hlq
    omega

section

variable (hlt : p < q) (hn : OnlyUsed B p q p) (hq : B q = some z)
include hlt hn hq

theorem usedBlk_setOne : usedBlk (setOne B p q ⟨n, false, f⟩ ⟨z.size, z.free, g⟩) =
    Function.update (usedBlk B) p (some n) := by
  funext a
  rw [Function.update_apply]
  by_cases hp : a = p
  · rw [if_pos hp, hp, usedBlk, setOne_left]
    rfl
  · rw [if_neg hp]
    rcases eq_or_ne a q with rfl | hne
    · rw [usedBlk, setOne_right hlt, usedBlk, hq]
      rfl
    · by_cases ho : a < p ∨ q < a
      · rw [usedBlk, setOne_out ho hlt]
        rfl
      · rw [usedBlk, setOne, if_neg hp, if_neg hne, if_pos (by omega), usedBlk]
        cases hB : B a with
        | none => rfl
        | some y => rw [Option.bind_some, if_pos (hn hB (by omega) (by omega) hp)]; rfl

theorem usedBlk_setTwo (hpm : p < m) (hmq : m < q) :
    usedBlk (setTwo B p m q ⟨n, false, f⟩ ⟨s, true, g⟩ ⟨z.size, z.free, true⟩) =
      Function.update (usedBlk B) p (some n) := by
  rw [← usedBlk_setOne (f := f) (g := true) hlt hn hq]
  funext a
  by_cases ha : a = m
  · rw [ha, usedBlk, setTwo_mid, usedBlk, setOne, if_neg (by omega), if_neg (by omega),
      if_pos ⟨hpm, hmq⟩]
    rfl
  · rw [usedBlk, setTwo_of_ne ha]
    rfl

end

theorem usedBlk_setFree (hlt : p < q) (hq : B q = some z) (hpb : p ≤ b) (hbq : b < q)
    (hn : OnlyUsed B p q b) :
    usedBlk (setOne B p q ⟨n, true, f⟩ ⟨z.size, z.free, g⟩) =
      Function.update (usedBlk B) b none := by
  funext a
  rw [Function.update_apply]
  rcases eq_or_ne a q with rfl | hne
  · rw [if_neg (by omega), usedBlk, setOne_right hlt, usedBlk, hq]
    rfl
  · by_cases ho : a < p ∨ q < a
    · rw [if_neg (by omega), usedBlk, setOne_out ho hlt]
      rfl
    · have hnone : usedBlk (setOne B p q ⟨n, true, f⟩ ⟨z.size, z.free, g⟩) a = none := by
        by_cases hp : a = p
        · rw [hp, usedBlk, setOne_left]
          rfl
        · rw [usedBlk, setOne, if_neg hp, if_neg hne, if_pos (by omega)]
          rfl
      rw [hnone]
      split_ifs with hab
      · rfl
      · unfold usedBlk
        cases hB : B a with
        | none => rfl
        | some y => rw [Option.bind_some, if_pos (hn hB (by omega) (by omega) hab)]

/-! ## Cutting -/

namespace Span

variable (hs : Span c lo hi h B lists p q x z)
include hs

/-- What leaves the words outside of the span and of the lists alone leaves the
    blocks alone that are used. -/
theorem keeps (hn : OnlyUsed B p q b)
    (hm : ∀ t, (∀ r, ∀ b ∈ lists r, ¬ LinkAt c b t) → t < p ∨ q + c.headSize ≤ t →
      h'.mem t = h₁.mem t) : Keeps c (Function.update (usedBlk B) b none) h₁ h' := by
  intro a n t ha hle hlt
  rw [Function.update_apply] at ha
  split_ifs at ha with hab
  obtain ⟨f, hf⟩ := usedBlk_eq_some.1 ha
  refine hm t (hs.no_link hf rfl hle hlt) ?_
  rcases lt_or_ge a p with hap | hap
  · have := hs.tiled.apart hf hs.left hap
    simp only at this
    omega
  · by_cases haq : a < q
    · cases hn hf hap haq hab
    · omega

theorem fits : p + c.headSize + c.minLength ≤ q := by
  have h1 := hs.tiled.apart hs.left hs.right hs.lt
  have h2 := hs.tiled.least hs.left (hs.tiled.ne_hi hs.right hs.lt)
  omega

theorem cutTail (hz : z.free = false) (hd : c.ptrSize ∣ s) (hmin : c.minLength ≤ s)
    (hle : p + c.headSize + s + c.listSize ≤ q) :
    ∃ h', h.cutTail c p q s (q - p - c.headSize - s) = some h' ∧
      MmInv c lo hi h' (setTwo B p (p + c.headSize + s) q ⟨s, false, x.prevFree⟩
        ⟨q - (p + c.headSize + s) - c.headSize, true, false⟩ ⟨z.size, z.free, true⟩)
        (pushBlk lists (mmClass (q - (p + c.headSize + s) - c.headSize)) (p + c.headSize + s)) ∧
      (∀ t, (∀ r, ∀ b ∈ lists r, ¬ LinkAt c b t) →
        t < p ∨ q + c.headSize ≤ t ∨ p + c.headSize ≤ t ∧ t < p + c.headSize + s →
        h'.mem t = h.mem t) ∧ h'.pool = h.pool ∧ h'.fixedmblk = h.fixedmblk := by
  have hW := ptrSize_pos c
  have hlt := hs.lt
  have hH : c.headSize = 2 * c.ptrSize := rfl
  have hL : c.listSize = 4 * c.ptrSize := rfl
  have hM := minLength_eq c
  have htop := hs.tiled.top
  have hqhi := (hs.tiled.bounds hs.right).2
  obtain ⟨m, hm⟩ : ∃ m, m = p + c.headSize + s := ⟨_, rfl⟩
  have hmd : c.ptrSize ∣ m := by
    rw [hm]
    exact Nat.dvd_add (Nat.dvd_add (hs.tiled.dvd hs.left).1 ⟨2, Nat.mul_comm _ _⟩) hd
  have hadd : c.add (MmHeap.buffer c p) s = m := by
    rw [MmConfig.add, MmHeap.buffer, ← hm, Nat.mod_eq_of_lt (by omega)]
  have hsize : q - p - c.headSize - s - c.headSize = q - m - c.headSize := by omega
  have hkept : m - p - c.headSize = s := by omega
  obtain ⟨h₀, hh0⟩ : ∃ h₀, h₀ = (h.setSize c m (q - m - c.headSize + 1)).setPrev q m := ⟨_, rfl⟩
  obtain ⟨h₁, hh1⟩ : ∃ h₁, h₁ = h₀.setSize c q (setPrevFree (h₀.size c q)) := ⟨_, rfl⟩
  have hmem0 : ∀ t, h₀.mem t = if t = q then m else if t = m + c.ptrSize then q - m - c.headSize + 1
      else h.mem t := by
    intro t
    rw [hh0, MmHeap.setPrev, MmHeap.write_mem, MmHeap.setSize, MmHeap.write_mem]
  have hword : setPrevFree (h₀.size c q) = MmBlk.word ⟨z.size, z.free, true⟩ := by
    obtain ⟨f, hf⟩ := hs.size_right
    rw [MmHeap.size, hmem0, if_neg (by omega), if_neg (by omega)]
    refine (congrArg setPrevFree hf).trans ?_
    exact setPrevFree_word (four_dvd (hs.tiled.dvd hs.right).2)
  have hmem1 : ∀ t, h₁.mem t =
      if t = q + c.ptrSize then MmBlk.word ⟨z.size, z.free, true⟩ else h₀.mem t := by
    intro t
    rw [hh1, hword, MmHeap.setSize, MmHeap.write_mem]
  have hsame : SameIdx h h₁ := by
    rw [hh1, hh0]
    exact (SameIdx.refl h).write.write.write
  obtain ⟨hI, hframe, hpool, hfix⟩ := hs.closeTwo (m := m) hz (by omega) (by omega) hmd
    hsame (fun t h1 h2 h3 => by rw [hmem1, if_neg h3, hmem0, if_neg h2, if_neg h1])
    (by rw [MmHeap.size, hmem1, if_neg (by omega), hmem0, if_neg (by omega), if_pos rfl]; rfl)
    (by rw [MmHeap.prev, hmem1, if_neg (by omega), hmem0, if_pos rfl])
    (by rw [MmHeap.size, hmem1, if_pos rfl]) rfl rfl
  have hmax : q - m - c.headSize < c.maxMmSize := hI.tiled.size_lt setTwo_mid
  rw [hkept] at hI hframe hpool hfix
  refine ⟨_, ?_, hm ▸ hI, fun t ht ho => hframe t ht (by unfold LinkAt; omega) (by omega) (by omega)
    (by omega) (by omega), hpool, hfix⟩
  rw [MmHeap.cutTail, if_pos (by omega)]
  simp only [hsize, hadd]
  rw [(insertIdx_eq hmax).1, Option.map_some, hh1, hh0]

end Span

end Rhino
