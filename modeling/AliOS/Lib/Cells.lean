/-
  Memory as an array of cells, with `memcpy`, contiguous slices, and slices of
  a circular buffer.

  A memory is a function from addresses to cells.  `slice m a n` are the `n`
  cells from `a` on; `circ m b N p n` are the `n` cells of the circular buffer
  of `N` cells at `b`, starting `p` cells after `b`.
-/
import Mathlib.Data.Nat.ModEq

namespace Lib

variable {α : Type*}

/-- `memcpy(dst, src, n)`: `src` gives the cells at and after the source
    pointer. -/
def memcpy (m : ℕ → α) (dst : ℕ) (src : ℕ → α) (n : ℕ) : ℕ → α :=
  fun i => if dst ≤ i ∧ i < dst + n then src (i - dst) else m i

/-- The cells at and after the address `a`, as a source of `memcpy`. -/
def from_ (m : ℕ → α) (a : ℕ) : ℕ → α := fun i => m (a + i)

/-- The `n` cells from `a` on. -/
def slice (m : ℕ → α) (a n : ℕ) : List α := (List.range n).map fun i => m (a + i)

/-- The `n` cells of the circular buffer of `N` cells at `b`, from offset `p`. -/
def circ (m : ℕ → α) (b N p n : ℕ) : List α := (List.range n).map fun i => m (b + (p + i) % N)

/-! ## `memcpy` -/

theorem memcpy_in {m : ℕ → α} {dst : ℕ} {src : ℕ → α} {n i : ℕ} (h1 : dst ≤ i) (h2 : i < dst + n) :
    memcpy m dst src n i = src (i - dst) := if_pos ⟨h1, h2⟩

theorem memcpy_add {m : ℕ → α} {dst : ℕ} {src : ℕ → α} {n k : ℕ} (h : k < n) :
    memcpy m dst src n (dst + k) = src k := by
  rw [memcpy_in (by omega) (by omega), Nat.add_sub_cancel_left]

theorem memcpy_out {m : ℕ → α} {dst : ℕ} {src : ℕ → α} {n i : ℕ} (h : i < dst ∨ dst + n ≤ i) :
    memcpy m dst src n i = m i := if_neg (by omega)

@[simp] theorem memcpy_zero {m : ℕ → α} {dst : ℕ} {src : ℕ → α} : memcpy m dst src 0 = m :=
  funext fun _ => memcpy_out (by omega)

theorem memcpy_congr {m : ℕ → α} {dst : ℕ} {src src' : ℕ → α} {n : ℕ}
    (h : ∀ i < n, src i = src' i) : memcpy m dst src n = memcpy m dst src' n := by
  funext i
  unfold memcpy
  split_ifs with hi
  · exact h _ (by omega)
  · rfl

theorem memcpy_comm {m : ℕ → α} {a b n k : ℕ} {f g : ℕ → α} (h : a + n ≤ b ∨ b + k ≤ a) :
    memcpy (memcpy m a f n) b g k = memcpy (memcpy m b g k) a f n := by
  funext i
  by_cases ha : a ≤ i ∧ i < a + n
  · rw [memcpy_in ha.1 ha.2, memcpy_out (by omega), memcpy_in ha.1 ha.2]
  · rw [memcpy_out (m := memcpy m b g k) (by omega)]
    by_cases hb : b ≤ i ∧ i < b + k
    · rw [memcpy_in hb.1 hb.2, memcpy_in hb.1 hb.2]
    · rw [memcpy_out (by omega), memcpy_out (by omega), memcpy_out (by omega)]

/-! ## Slices -/

@[simp] theorem slice_length (m : ℕ → α) (a n : ℕ) : (slice m a n).length = n := by simp [slice]

@[simp] theorem circ_length (m : ℕ → α) (b N p n : ℕ) : (circ m b N p n).length = n := by
  simp [circ]

@[simp] theorem slice_zero (m : ℕ → α) (a : ℕ) : slice m a 0 = [] := rfl

@[simp] theorem circ_zero (m : ℕ → α) (b N p : ℕ) : circ m b N p 0 = [] := rfl

theorem slice_congr {m m' : ℕ → α} {a a' n : ℕ} (h : ∀ i < n, m (a + i) = m' (a' + i)) :
    slice m a n = slice m' a' n :=
  List.map_congr_left fun i hi => h i (List.mem_range.1 hi)

theorem slice_append (m : ℕ → α) (a n k : ℕ) :
    slice m a (n + k) = slice m a n ++ slice m (a + n) k := by
  simp [slice, List.range_add, Nat.add_assoc, Function.comp_def]

theorem slice_memcpy_same {m : ℕ → α} {dst : ℕ} {src : ℕ → α} {n : ℕ} :
    slice (memcpy m dst src n) dst n = slice src 0 n :=
  slice_congr fun i hi => by rw [memcpy_add hi, Nat.zero_add]

theorem slice_memcpy_disjoint {m : ℕ → α} {dst : ℕ} {src : ℕ → α} {n a k : ℕ}
    (h : a + k ≤ dst ∨ dst + n ≤ a) : slice (memcpy m dst src n) a k = slice m a k :=
  slice_congr fun i hi => memcpy_out (by omega)

theorem circ_congr {m m' : ℕ → α} {b N p n : ℕ}
    (h : ∀ i < n, m (b + (p + i) % N) = m' (b + (p + i) % N)) :
    circ m b N p n = circ m' b N p n :=
  List.map_congr_left fun i hi => h i (List.mem_range.1 hi)

theorem circ_append (m : ℕ → α) (b N p n k : ℕ) :
    circ m b N p (n + k) = circ m b N p n ++ circ m b N (p + n) k := by
  simp [circ, List.range_add, Nat.add_assoc, Function.comp_def]

theorem circ_mod {m : ℕ → α} {b N p q n : ℕ} (h : p % N = q % N) :
    circ m b N p n = circ m b N q n :=
  List.map_congr_left fun i _ => by rw [Nat.add_mod, h, ← Nat.add_mod]

theorem circ_eq_slice {m : ℕ → α} {b N p n : ℕ} (h : p + n ≤ N) :
    circ m b N p n = slice m (b + p) n :=
  List.map_congr_left fun i hi => by
    have := List.mem_range.1 hi
    rw [Nat.mod_eq_of_lt (by omega), Nat.add_assoc]

theorem circ_eq_slice_append {m : ℕ → α} {b N p n : ℕ} (hp : p ≤ N) (hn : N - p ≤ n)
    (hle : n ≤ N) : circ m b N p n = slice m (b + p) (N - p) ++ slice m b (n - (N - p)) := by
  obtain ⟨k, rfl⟩ : ∃ k, n = (N - p) + k := ⟨n - (N - p), by omega⟩
  rw [circ_append, circ_eq_slice (by omega), Nat.add_sub_cancel_left,
    circ_mod (q := 0) (by rw [Nat.add_sub_cancel' hp]; simp), circ_eq_slice (by omega), Nat.add_zero]

/-! ## Lists in memory -/

/-- The cells from `a` on hold the list `l`. -/
def Holds (m : ℕ → α) (a : ℕ) (l : List α) : Prop := slice m a l.length = l

theorem holds_append {m : ℕ → α} {a : ℕ} {l₁ l₂ : List α} :
    Holds m a (l₁ ++ l₂) ↔ Holds m a l₁ ∧ Holds m (a + l₁.length) l₂ := by
  unfold Holds
  rw [List.length_append, slice_append]
  constructor
  · intro h
    exact List.append_inj h (slice_length ..)
  · rintro ⟨h1, h2⟩
    rw [h1, h2]

theorem holds_cons {m : ℕ → α} {a : ℕ} {x : α} {l : List α} :
    Holds m a (x :: l) ↔ m a = x ∧ Holds m (a + 1) l := by
  rw [← List.singleton_append, holds_append]
  simp [Holds, slice]

theorem Holds.get {m : ℕ → α} {a i : ℕ} {l : List α} (h : Holds m a l) (hi : i < l.length) :
    m (a + i) = l[i] := by
  have := congrArg (fun l => l[i]?) h
  simpa [slice, hi] using this

theorem Holds.congr {m m' : ℕ → α} {a : ℕ} {l : List α} (h : Holds m a l)
    (he : ∀ i, a ≤ i → i < a + l.length → m' i = m i) : Holds m' a l := by
  unfold Holds at h ⊢
  rw [← slice_congr fun i hi => (he (a + i) (by omega) (by omega)).symm]
  exact h

theorem holds_memcpy_same {m : ℕ → α} {a : ℕ} {l : List α} (d : α) :
    Holds (memcpy m a (fun i => l.getD i d) l.length) a l := by
  unfold Holds
  rw [slice_memcpy_same]
  apply List.ext_getElem
  · simp
  · intro i h1 h2
    simp [slice, h2]

theorem Holds.memcpy_disjoint {m : ℕ → α} {a dst n : ℕ} {l : List α} {src : ℕ → α}
    (h : Holds m a l) (hd : a + l.length ≤ dst ∨ dst + n ≤ a) : Holds (memcpy m dst src n) a l :=
  h.congr fun i h1 h2 => memcpy_out (by omega)

/-! ## Circular copies -/

/-- Copy `n` cells into the circular buffer of `N` cells at `b`, from offset
    `p` on. -/
def circcpy (m : ℕ → α) (b N p : ℕ) (src : ℕ → α) (n : ℕ) : ℕ → α :=
  if p + n ≤ N then memcpy m (b + p) src n
  else memcpy (memcpy m (b + p) src (N - p)) b (from_ src (N - p)) (n - (N - p))

theorem circcpy_at {m : ℕ → α} {b N p : ℕ} {src : ℕ → α} {n j : ℕ} (hp : p < N) (hn : n ≤ N)
    (hj : j < n) : circcpy m b N p src n (b + (p + j) % N) = src j := by
  unfold circcpy
  split_ifs with h
  · rw [Nat.mod_eq_of_lt (by omega), ← Nat.add_assoc, memcpy_add hj]
  · by_cases hpj : p + j < N
    · rw [Nat.mod_eq_of_lt hpj, memcpy_out (by omega), ← Nat.add_assoc, memcpy_add (by omega)]
    · have hm : (p + j) % N = p + j - N := by
        rw [Nat.mod_eq_sub_mod (by omega), Nat.mod_eq_of_lt (by omega)]
      rw [hm, memcpy_add (by omega), from_]
      congr 1; omega

theorem circcpy_ne {m : ℕ → α} {b N p : ℕ} {src : ℕ → α} {n i : ℕ} (hp : p < N) (hn : n ≤ N)
    (hi : ∀ j < n, i ≠ b + (p + j) % N) : circcpy m b N p src n i = m i := by
  unfold circcpy
  split_ifs with h
  · refine memcpy_out ?_
    by_contra hc
    refine hi (i - (b + p)) (by omega) ?_
    rw [Nat.mod_eq_of_lt (by omega)]; omega
  · rw [memcpy_out, memcpy_out]
    · by_contra hc
      refine hi (i - (b + p)) (by omega) ?_
      rw [Nat.mod_eq_of_lt (by omega)]; omega
    · by_contra hc
      refine hi (i - b + (N - p)) (by omega) ?_
      rw [show p + (i - b + (N - p)) = (i - b) + N by omega, Nat.add_mod_right,
        Nat.mod_eq_of_lt (by omega)]
      omega

theorem circ_circcpy_same {m : ℕ → α} {b N p : ℕ} {src : ℕ → α} {n : ℕ} (hp : p < N)
    (hn : n ≤ N) : circ (circcpy m b N p src n) b N p n = slice src 0 n :=
  List.map_congr_left fun i hi => by
    rw [circcpy_at hp hn (List.mem_range.1 hi), Nat.zero_add]

theorem circ_off_ne {N h i k : ℕ} (hik : i < k) (hk : k < i + N) : (h + i) % N ≠ (h + k) % N := by
  intro he
  have hk' : h + k = h + i + (k - i) := by omega
  rw [hk'] at he
  have hd : N ∣ k - i := Nat.add_modEq_left_iff.1 he.symm
  have := Nat.le_of_dvd (by omega) hd
  omega

theorem circ_circcpy_behind {m : ℕ → α} {b N p t u : ℕ} {src : ℕ → α} {n : ℕ} (ht : t < N)
    (hpt : (p + u) % N = t) (hn : u + n ≤ N) :
    circ (circcpy m b N t src n) b N p u = circ m b N p u := by
  refine circ_congr fun i hi => circcpy_ne ht (by omega) fun j hj => ?_
  rw [← hpt, Nat.mod_add_mod, Nat.add_assoc]
  intro he
  exact circ_off_ne (h := p) (N := N) (i := i) (k := u + j) (by omega) (by omega) (by omega)

theorem circ_circcpy_before {m : ℕ → α} {b N p u : ℕ} {src : ℕ → α} {n : ℕ} (hp : p < N)
    (hn : n + u ≤ N) : circ (circcpy m b N p src n) b N (p + n) u = circ m b N (p + n) u := by
  refine circ_congr fun i hi => circcpy_ne hp (by omega) fun j hj => ?_
  rw [Nat.add_assoc]
  intro he
  exact circ_off_ne (h := p) (N := N) (i := j) (k := n + i) (by omega) (by omega) (by omega)

end Lib
