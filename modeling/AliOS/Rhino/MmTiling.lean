/-
  Rhino kernel: the blocks of a heap, which lie one behind the other from the
  first of the region to its last.

  The last block has no bytes and nothing behind it.  A span of blocks may be
  put together (`setOne`) or cut in two (`setTwo`).
-/
import AliOS.Rhino.MmClass

namespace Rhino

/-- A block: the bytes behind its header, and its flags. -/
structure MmBlk where
  size : ℕ
  free : Bool
  prevFree : Bool
  deriving DecidableEq

variable {c : MmConfig} {lo hi : ℕ} {B : ℕ → Option MmBlk} {x y z : MmBlk} {a b m p q : ℕ} {f : Bool}

/-- The blocks from `lo` to `hi` lie one behind the other. -/
structure Tiled (c : MmConfig) (lo hi : ℕ) (B : ℕ → Option MmBlk) : Prop where
  lo_pos : 0 < lo
  first : ∃ n, B lo = some ⟨n, false, false⟩
  last : ∃ f, B hi = some ⟨0, false, f⟩
  bounds : ∀ {a x}, B a = some x → lo ≤ a ∧ a ≤ hi
  dvd : ∀ {a x}, B a = some x → c.ptrSize ∣ a ∧ c.ptrSize ∣ x.size
  apart : ∀ {a b x y}, B a = some x → B b = some y → a < b → a + c.headSize + x.size ≤ b
  next : ∀ {a x}, B a = some x → a ≠ hi → ∃ y, B (a + c.headSize + x.size) = some y ∧
    y.prevFree = x.free ∧ (x.free = true → y.free = false)
  least : ∀ {a x}, B a = some x → a ≠ hi → c.minLength ≤ x.size
  span : hi < lo + c.maxMmSize
  top : hi + c.headSize < c.words

namespace Tiled

variable (hB : Tiled c lo hi B)
include hB

theorem size_lt (ha : B a = some x) : x.size < c.maxMmSize := by
  obtain ⟨f, hhi⟩ := hB.last
  obtain ⟨hlo, hle⟩ := hB.bounds ha
  have hspan := hB.span
  rcases eq_or_lt_of_le hle with rfl | hlt
  · rw [hhi] at ha
    cases ha
    exact Nat.two_pow_pos _
  · have := hB.apart ha hhi hlt
    omega

theorem ne_hi (hb : B b = some y) (hab : a < b) : a ≠ hi := by
  have := (hB.bounds hb).2
  omega

theorem cover (hlo : lo ≤ m) (hhi : m < hi) :
    ∃ a x, B a = some x ∧ a ≤ m ∧ m < a + c.headSize + x.size := by
  classical
  obtain ⟨n, hfirst⟩ := hB.first
  obtain ⟨-, -⟩ := hB.last
  have hex : ∃ a, a ≤ m ∧ (B a).isSome := ⟨lo, hlo, by rw [hfirst]; rfl⟩
  obtain ⟨a0, hle0, hsome0⟩ := hex
  let a := Nat.findGreatest (fun a => (B a).isSome) m
  have ha : (B a).isSome := Nat.findGreatest_spec (P := fun a => (B a).isSome) hle0 hsome0
  have hle : a ≤ m := Nat.findGreatest_le m
  obtain ⟨x, hx⟩ := Option.isSome_iff_exists.1 ha
  refine ⟨a, x, hx, hle, ?_⟩
  by_contra hge
  obtain ⟨y, hy, -⟩ := hB.next hx (by omega)
  have hH : 0 < c.headSize := by
    unfold MmConfig.headSize
    rcases c.ptrSize_eq with h | h <;> omega
  have := Nat.le_findGreatest (P := fun a => (B a).isSome) (not_lt.1 hge) (by rw [hy]; rfl)
  omega

theorem before (hb : B b = some y) (hne : b ≠ lo) :
    ∃ a x, B a = some x ∧ a + c.headSize + x.size = b := by
  obtain ⟨hlo, hhi⟩ := hB.bounds hb
  obtain ⟨a, x, hx, hle, hlt⟩ := hB.cover (m := b - 1) (by omega) (by omega)
  have := hB.apart hx hb (by omega)
  exact ⟨a, x, hx, by omega⟩

end Tiled

/-! ## Spans -/

/-- The blocks from `p` up to `q` as one, `x`. -/
def setOne (B : ℕ → Option MmBlk) (p q : ℕ) (x z : MmBlk) (a : ℕ) : Option MmBlk :=
  if a = p then some x else if a = q then some z else if p < a ∧ a < q then none else B a

/-- The blocks from `p` up to `q` as two, `x` and `y`, the second at `m`. -/
def setTwo (B : ℕ → Option MmBlk) (p m q : ℕ) (x y z : MmBlk) (a : ℕ) : Option MmBlk :=
  if a = m then some y else setOne B p q x z a

theorem setOne_cases (hpq : p < q) (ha : setOne B p q x z a = some y) :
    a = p ∧ y = x ∨ a = q ∧ y = z ∨ (a < p ∨ q < a) ∧ B a = some y := by
  unfold setOne at ha
  by_cases hp : a = p
  · rw [if_pos hp] at ha
    cases ha
    exact .inl ⟨hp, rfl⟩
  · rw [if_neg hp] at ha
    by_cases hq : a = q
    · rw [if_pos hq] at ha
      cases ha
      exact .inr (.inl ⟨hq, rfl⟩)
    · rw [if_neg hq] at ha
      by_cases hmid : p < a ∧ a < q
      · rw [if_pos hmid] at ha
        cases ha
      · rw [if_neg hmid] at ha
        exact .inr (.inr ⟨by omega, ha⟩)

theorem setOne_left : setOne B p q x z p = some x := if_pos rfl

theorem setOne_right (hpq : p < q) : setOne B p q x z q = some z := by
  rw [setOne, if_neg hpq.ne', if_pos rfl]

theorem setOne_out (h : a < p ∨ q < a) (hpq : p < q) : setOne B p q x z a = B a := by
  rw [setOne, if_neg (by omega), if_neg (by omega), if_neg (by omega)]

theorem Tiled.one (hB : Tiled c lo hi B) (hp : B p = some x) (hq : B q = some z) (hpq : p < q)
    (hf : f = true → p ≠ lo ∧ x.prevFree = false ∧ z.free = false) :
    Tiled c lo hi (setOne B p q ⟨q - p - c.headSize, f, x.prevFree⟩ ⟨z.size, z.free, f⟩) := by
  have hxq := hB.apart hp hq hpq
  have hplo := (hB.bounds hp).1
  have hqhi := (hB.bounds hq).2
  refine ⟨hB.lo_pos, ?_, ?_, fun {a y} ha => ?_, fun {a y} ha => ?_, fun {a b y y'} ha hb hab => ?_,
    fun {a y} ha hne => ?_, fun {a y} ha hne => ?_, hB.span, hB.top⟩
  · obtain ⟨n, hfirst⟩ := hB.first
    rcases eq_or_lt_of_le hplo with heq | hlt
    · have hff : f = false := by
        by_contra h
        exact (hf (by simpa using h)).1 heq.symm
      rw [heq, hp] at hfirst
      cases hfirst
      rw [← heq] at *
      exact ⟨_, by rw [setOne_left, hff]⟩
    · exact ⟨n, by rw [setOne_out (.inl hlt) hpq, hfirst]⟩
  · obtain ⟨g, hlast⟩ := hB.last
    rcases eq_or_lt_of_le hqhi with heq | hlt
    · rw [← heq, hq] at hlast
      cases hlast
      exact ⟨f, by rw [← heq, setOne_right hpq]⟩
    · exact ⟨g, by rw [setOne_out (.inr hlt) hpq, hlast]⟩
  · rcases setOne_cases hpq ha with ⟨rfl, -⟩ | ⟨rfl, -⟩ | ⟨-, ha⟩
    · exact hB.bounds hp
    · exact hB.bounds hq
    · exact hB.bounds ha
  · rcases setOne_cases hpq ha with ⟨rfl, rfl⟩ | ⟨rfl, rfl⟩ | ⟨-, ha⟩
    · refine ⟨(hB.dvd hp).1, ?_⟩
      exact Nat.dvd_sub (Nat.dvd_sub (hB.dvd hq).1 (hB.dvd hp).1) ⟨2, Nat.mul_comm _ _⟩
    · exact hB.dvd (x := z) hq
    · exact hB.dvd ha
  · rcases setOne_cases hpq ha with ⟨rfl, rfl⟩ | ⟨rfl, rfl⟩ | ⟨ho, hoa⟩ <;>
      rcases setOne_cases hpq hb with ⟨rfl, rfl⟩ | ⟨rfl, rfl⟩ | ⟨ho', hob⟩
    · omega
    · simp only
      omega
    · simp only
      omega
    · omega
    · omega
    · exact hB.apart (x := z) hq hob hab
    · exact hB.apart hoa hp hab
    · exact hB.apart hoa hq hab
    · exact hB.apart hoa hob hab
  · rcases setOne_cases hpq ha with ⟨rfl, rfl⟩ | ⟨rfl, rfl⟩ | ⟨ho, ha⟩
    · refine ⟨⟨z.size, z.free, f⟩, ?_, rfl, fun h => (hf h).2.2⟩
      rw [show a + c.headSize + (q - a - c.headSize) = q by omega]
      exact setOne_right hpq
    · obtain ⟨y, hy, h⟩ := hB.next hq hne
      have hlt : a < a + c.headSize + z.size := by
        have := hB.least hq hne
        unfold MmConfig.minLength at this
        rcases c.ptrSize_eq with h | h <;> omega
      exact ⟨y, by simp only; rw [setOne_out (.inr hlt) hpq, hy], h⟩
    · obtain ⟨y', hy, h⟩ := hB.next ha hne
      rcases ho with ho | ho
      · have hle := hB.apart ha hp ho
        rcases eq_or_lt_of_le hle with heq | hlt
        · rw [heq, hp] at hy
          cases hy
          refine ⟨⟨q - p - c.headSize, f, x.prevFree⟩, by rw [heq]; exact setOne_left, h.1, fun hy => ?_⟩
          by_contra hff
          have hff : f = true := by simpa using hff
          rw [← h.1, (hf hff).2.1] at hy
          cases hy
        · exact ⟨y', by rw [setOne_out (.inl hlt) hpq, hy], h⟩
      · exact ⟨y', by rw [setOne_out (.inr (by omega)) hpq, hy], h⟩
  · rcases setOne_cases hpq ha with ⟨rfl, rfl⟩ | ⟨rfl, rfl⟩ | ⟨-, ha⟩
    · have := hB.least hp (hB.ne_hi hq hpq)
      simp only
      omega
    · exact hB.least (x := z) hq hne
    · exact hB.least ha hne

theorem setTwo_mid : setTwo B p m q x y z m = some y := if_pos rfl

theorem setTwo_of_ne (h : a ≠ m) : setTwo B p m q x y z a = setOne B p q x z a := if_neg h

theorem minLength_pos (c : MmConfig) : 0 < c.minLength := by
  unfold MmConfig.minLength
  rcases c.ptrSize_eq with h | h <;> omega

theorem Tiled.two (hB : Tiled c lo hi B) (hp : B p = some x) (hq : B q = some z) (hpq : p < q)
    (hz : z.free = false) (hm : p + c.headSize + c.minLength ≤ m)
    (hmq : m + c.headSize + c.minLength ≤ q) (hdvd : c.ptrSize ∣ m) :
    Tiled c lo hi (setTwo B p m q ⟨m - p - c.headSize, false, x.prevFree⟩
      ⟨q - m - c.headSize, true, false⟩ ⟨z.size, z.free, true⟩) := by
  have hmin := minLength_pos c
  have hqhi := (hB.bounds hq).2
  have hplo := (hB.bounds hp).1
  have hcases : ∀ {a y}, setTwo B p m q ⟨m - p - c.headSize, false, x.prevFree⟩
      ⟨q - m - c.headSize, true, false⟩ ⟨z.size, z.free, true⟩ a = some y →
      a = p ∧ y = ⟨m - p - c.headSize, false, x.prevFree⟩ ∨
      a = m ∧ y = ⟨q - m - c.headSize, true, false⟩ ∨ a = q ∧ y = ⟨z.size, z.free, true⟩ ∨
      (a < p ∨ q < a) ∧ B a = some y := by
    intro a y ha
    by_cases ham : a = m
    · rw [ham, setTwo_mid] at ha
      cases ha
      exact .inr (.inl ⟨ham, rfl⟩)
    · rw [setTwo_of_ne ham] at ha
      rcases setOne_cases hpq ha with h | h | h
      · exact .inl h
      · exact .inr (.inr (.inl h))
      · exact .inr (.inr (.inr h))
  have hout : ∀ {a}, a < p ∨ q < a → setTwo B p m q ⟨m - p - c.headSize, false, x.prevFree⟩
      ⟨q - m - c.headSize, true, false⟩ ⟨z.size, z.free, true⟩ a = B a := by
    intro a ha
    rw [setTwo_of_ne (by omega), setOne_out ha hpq]
  refine ⟨hB.lo_pos, ?_, ?_, fun {a y} ha => ?_, fun {a y} ha => ?_, fun {a b y y'} ha hb hab => ?_,
    fun {a y} ha hne => ?_, fun {a y} ha hne => ?_, hB.span, hB.top⟩
  · obtain ⟨n, hfirst⟩ := hB.first
    rcases eq_or_lt_of_le hplo with heq | hlt
    · rw [heq, hp] at hfirst
      cases hfirst
      rw [heq]
      exact ⟨_, by rw [setTwo_of_ne (by omega), setOne_left]⟩
    · exact ⟨n, by rw [hout (.inl hlt), hfirst]⟩
  · obtain ⟨g, hlast⟩ := hB.last
    rcases eq_or_lt_of_le hqhi with heq | hlt
    · rw [← heq, hq] at hlast
      cases hlast
      exact ⟨true, by rw [← heq, setTwo_of_ne (by omega), setOne_right hpq]⟩
    · exact ⟨g, by rw [hout (.inr hlt), hlast]⟩
  · rcases hcases ha with ⟨rfl, -⟩ | ⟨rfl, -⟩ | ⟨rfl, -⟩ | ⟨-, ha⟩
    · exact hB.bounds hp
    · omega
    · exact hB.bounds hq
    · exact hB.bounds ha
  · have hH : c.ptrSize ∣ c.headSize := ⟨2, Nat.mul_comm _ _⟩
    rcases hcases ha with ⟨rfl, rfl⟩ | ⟨rfl, rfl⟩ | ⟨rfl, rfl⟩ | ⟨-, ha⟩
    · exact ⟨(hB.dvd hp).1, Nat.dvd_sub (Nat.dvd_sub hdvd (hB.dvd hp).1) hH⟩
    · exact ⟨hdvd, Nat.dvd_sub (Nat.dvd_sub (hB.dvd hq).1 hdvd) hH⟩
    · exact hB.dvd (x := z) hq
    · exact hB.dvd ha
  · rcases hcases ha with ⟨rfl, rfl⟩ | ⟨rfl, rfl⟩ | ⟨rfl, rfl⟩ | ⟨ho, hoa⟩ <;>
      rcases hcases hb with ⟨rfl, rfl⟩ | ⟨rfl, rfl⟩ | ⟨rfl, rfl⟩ | ⟨ho', hob⟩ <;> (try simp only) <;>
        (try omega)
    · exact hB.apart (x := z) hq hob hab
    · exact hB.apart hoa hp hab
    · have := hB.apart hoa hp (by omega)
      omega
    · exact hB.apart hoa hq hab
    · exact hB.apart hoa hob hab
  · rcases hcases ha with ⟨rfl, rfl⟩ | ⟨rfl, rfl⟩ | ⟨rfl, rfl⟩ | ⟨ho, ha⟩
    · refine ⟨⟨q - m - c.headSize, true, false⟩, ?_, rfl, fun h => nomatch h⟩
      rw [show a + c.headSize + (m - a - c.headSize) = m by omega]
      exact setTwo_mid
    · refine ⟨⟨z.size, z.free, true⟩, ?_, rfl, fun _ => hz⟩
      rw [show a + c.headSize + (q - a - c.headSize) = q by omega, setTwo_of_ne (by omega)]
      exact setOne_right hpq
    · obtain ⟨y, hy, h⟩ := hB.next hq hne
      have := hB.least hq hne
      exact ⟨y, by simp only; rw [hout (.inr (by omega)), hy], h⟩
    · obtain ⟨y', hy, h⟩ := hB.next ha hne
      rcases ho with ho | ho
      · have hle := hB.apart ha hp ho
        rcases eq_or_lt_of_le hle with heq | hlt
        · rw [heq, hp] at hy
          cases hy
          refine ⟨⟨m - p - c.headSize, false, x.prevFree⟩, ?_, h.1, fun _ => rfl⟩
          rw [heq, setTwo_of_ne (by omega)]
          exact setOne_left
        · exact ⟨y', by rw [hout (.inl hlt), hy], h⟩
      · exact ⟨y', by rw [hout (.inr (by omega)), hy], h⟩
  · rcases hcases ha with ⟨rfl, rfl⟩ | ⟨rfl, rfl⟩ | ⟨rfl, rfl⟩ | ⟨-, ha⟩
    · simp only
      omega
    · simp only
      omega
    · exact hB.least (x := z) hq hne
    · exact hB.least ha hne

end Rhino
