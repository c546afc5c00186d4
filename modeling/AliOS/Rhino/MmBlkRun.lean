/-
  Runs of `krhino_mblk_alloc` and `krhino_mblk_free` on a pool, with stores into
  the blocks that are handed out.

  The list of a pool begins with the blocks that are free, as many as `blk_avail`
  says; behind them are what is left at the end of the pool, and the blocks that
  a 32-bit count has lost.  `mblk_pool_sound_iff` says which pools are sound.
-/
import AliOS.Lib.Trans
import AliOS.Rhino.MmBlk
import Mathlib.Data.List.Nodup

namespace Rhino

open Lib

variable {A : Arch} {start blkSize poolSize k n a b : ℕ} {mem mem' : ℕ → ℕ}

/-! ## Runs -/

/-- A pool with the blocks that are live. -/
structure BlkRun where
  s : PoolMem
  live : List ℕ

/-- What is done with a pool. -/
inductive BlkOp
  | alloc
  | free (blk : ℕ)
  | store (mem : ℕ → ℕ)

/-- `krhino_mblk_alloc`. -/
def BlkRun.alloc (r : BlkRun) : BlkRun :=
  match krhinoMblkAlloc true true r.s with
  | (.success, some blk, s) => ⟨s, blk :: r.live⟩
  | (_, _, s) => ⟨s, r.live⟩

/-- `krhino_mblk_free` of a live block. -/
def Arch.free (A : Arch) (r : BlkRun) (blk : ℕ) : BlkRun :=
  ⟨(A.krhinoMblkFree true blk r.s).2, r.live.erase blk⟩

/-- One operation; live blocks are freed, and the stores go to live blocks. -/
inductive Arch.BlkMove (A : Arch) (blkSize : ℕ) : BlkRun → BlkOp → BlkRun → Prop
  | alloc {r : BlkRun} : A.BlkMove blkSize r .alloc r.alloc
  | free {r : BlkRun} {blk : ℕ} : blk ∈ r.live → A.BlkMove blkSize r (.free blk) (A.free r blk)
  | store {r : BlkRun} {mem : ℕ → ℕ} : (∀ a, (∀ b ∈ r.live, ¬ (b ≤ a ∧ a < b + blkSize)) → mem a = r.s.mem a) →
      A.BlkMove blkSize r (.store mem) { r with s := { r.s with mem := mem } }

/-- The pool behind an allocation. -/
def PoolMem.next (s : PoolMem) : PoolMem := (krhinoMblkAlloc true true s).2.2

/-- A state of a sound pool. -/
structure BlkSound (start blkSize poolSize : ℕ) (r : BlkRun) : Prop where
  apart : r.live.Pairwise fun a b => a + blkSize ≤ b ∨ b + blkSize ≤ a
  inside : ∀ b ∈ r.live, start ≤ b ∧ b + blkSize ≤ start + poolSize
  avail : ∀ n, (krhinoMblkAlloc true true (PoolMem.next^[n] r.s)).1 = .success ↔ n < r.s.pool.blkAvail
  whole : r.s.pool.blkAvail ≤ r.s.pool.blkWhole
  noMem : (krhinoMblkAlloc true true r.s).1 = .noMem ↔ r.live.length = r.s.pool.blkWhole

/-- The pool is made with stores inside of it only, and sound in every run. -/
def Arch.PoolSound (A : Arch) (name : String) (start blkSize poolSize : ℕ) (mem : ℕ → ℕ) : Prop :=
  ∃ made writes,
    A.krhinoMblkPoolInit true (some name) start blkSize poolSize mem = some (.success, some (made, writes)) ∧
    (∀ a ∈ writes, start ≤ a ∧ a + A.ptrSize ≤ start + poolSize) ∧
    ∀ ops r, Run (A.BlkMove blkSize) ⟨made, []⟩ ops r → BlkSound start blkSize poolSize r

/-! ## The invariant -/

/-- The chunk with the index `k`. -/
abbrev chunk (start blkSize k : ℕ) : ℕ := start + k * blkSize

theorem chunk_apart {i j : ℕ} (h : chunk start blkSize i ≠ chunk start blkSize j) :
    chunk start blkSize i + blkSize ≤ chunk start blkSize j ∨ chunk start blkSize j + blkSize ≤ chunk start blkSize i := by
  rcases Nat.lt_trichotomy i j with hij | rfl | hji
  · have hmul := Nat.mul_le_mul_right blkSize hij
    rw [Nat.succ_mul] at hmul
    exact .inl (by unfold chunk; omega)
  · exact absurd rfl h
  · have hmul := Nat.mul_le_mul_right blkSize hji
    rw [Nat.succ_mul] at hmul
    exact .inr (by unfold chunk; omega)

/-- The free blocks are at the front of the list of the pool; these and the live ones
    are the blocks that the pool counts. -/
structure BlkInv (A : Arch) (start blkSize poolSize : ℕ) (r : BlkRun) (avl tail : List ℕ) : Prop where
  chain : Chain r.s.mem 0 r.s.pool.availList (avl ++ tail)
  nodup : (r.live ++ (avl ++ tail)).Nodup
  chunks : ∀ b ∈ r.live ++ (avl ++ tail), ∃ k, b = chunk start blkSize k
  blocks : ∀ b ∈ r.live ++ avl, b + blkSize ≤ start + poolSize
  avail : avl.length = r.s.pool.blkAvail
  whole : r.s.pool.blkAvail + r.live.length = r.s.pool.blkWhole
  small : r.s.pool.blkWhole < 2 ^ A.sizeBits
  obj : r.s.pool.objType = .mmBlk

variable {r r' : BlkRun} {avl tail : List ℕ} {op : BlkOp}

/-- The blocks may be listed in any order, as long as the list of the pool goes on. -/
theorem BlkInv.perm {r' : BlkRun} {avl' : List ℕ} (h : BlkInv A start blkSize poolSize r avl tail)
    (hchain : Chain r'.s.mem 0 r'.s.pool.availList (avl' ++ tail))
    (hperm : (r'.live ++ avl').Perm (r.live ++ avl)) (havail : avl'.length = r'.s.pool.blkAvail)
    (hwhole : r'.s.pool.blkWhole = r.s.pool.blkWhole) (hobj : r'.s.pool.objType = r.s.pool.objType) :
    BlkInv A start blkSize poolSize r' avl' tail := by
  have hall : (r'.live ++ (avl' ++ tail)).Perm (r.live ++ (avl ++ tail)) := by
    rw [← List.append_assoc, ← List.append_assoc]
    exact hperm.append_right tail
  have hlen := hperm.length_eq
  rw [List.length_append, List.length_append] at hlen
  have hcount := h.whole
  have havl := h.avail
  exact
    { chain := hchain
      nodup := hall.nodup_iff.2 h.nodup
      chunks := fun b hb => h.chunks b (hall.mem_iff.1 hb)
      blocks := fun b hb => h.blocks b (hperm.mem_iff.1 hb)
      avail := havail
      whole := by omega
      small := hwhole ▸ h.small
      obj := hobj.trans h.obj }

theorem BlkInv.alloc (h : BlkInv A start blkSize poolSize r avl tail) :
    ∃ avl', BlkInv A start blkSize poolSize r.alloc avl' tail := by
  have havail := h.avail
  cases avl with
  | nil =>
    have hsame : r.alloc = r := by
      unfold BlkRun.alloc krhinoMblkAlloc
      simp [h.obj, ← havail]
    rw [hsame]
    exact ⟨[], h⟩
  | cons a avl =>
    rw [List.length_cons] at havail
    obtain ⟨hfirst, hrest⟩ := h.chain.pop
    have hnext : r.alloc =
        ⟨{ r.s with pool := { r.s.pool with availList := r.s.mem a, blkAvail := r.s.pool.blkAvail - 1 } }, a :: r.live⟩ := by
      unfold BlkRun.alloc krhinoMblkAlloc
      simp [h.obj, ← havail, hfirst]
    rw [hnext]
    rw [hfirst] at hrest
    refine ⟨avl, h.perm hrest ?_ (by dsimp only; omega) rfl rfl⟩
    exact List.perm_middle.symm

theorem BlkInv.free (h : BlkInv A start blkSize poolSize r avl tail) (hstart : start ≠ 0) (hb : b ∈ r.live) :
    BlkInv A start blkSize poolSize (A.free r b) (b :: avl) tail := by
  obtain ⟨k, hk⟩ := h.chunks b (List.mem_append_left _ hb)
  have hne : b ≠ 0 := by
    unfold chunk at hk
    omega
  have hnot : b ∉ avl ++ tail := fun hmem => (List.nodup_append.1 h.nodup).2.2 b hb b hmem rfl
  have hwhole := h.whole
  have hsmall := h.small
  have hlen := List.length_pos_of_mem hb
  have hcount : (r.s.pool.blkAvail + 1) % 2 ^ A.sizeBits = r.s.pool.blkAvail + 1 := Nat.mod_eq_of_lt (by omega)
  have hnext : A.free r b =
      ⟨⟨{ r.s.pool with availList := b, blkAvail := r.s.pool.blkAvail + 1 },
        Function.update r.s.mem b r.s.pool.availList⟩, r.live.erase b⟩ := by
    unfold Arch.free Arch.krhinoMblkFree
    simp [h.obj, hne, hcount]
  rw [hnext]
  refine h.perm (h.chain.push hne hnot) ?_ (congrArg Nat.succ h.avail) rfl rfl
  exact List.perm_middle.trans ((List.perm_cons_erase hb).symm.append_right avl)

theorem BlkInv.store (h : BlkInv A start blkSize poolSize r avl tail)
    (hmem : ∀ a, (∀ b ∈ r.live, ¬ (b ≤ a ∧ a < b + blkSize)) → mem a = r.s.mem a) :
    BlkInv A start blkSize poolSize { r with s := { r.s with mem := mem } } avl tail := by
  refine h.perm (h.chain.congr fun a ha => hmem a fun b hb => ?_) (List.Perm.refl _) h.avail rfl rfl
  obtain ⟨i, hi⟩ := h.chunks a (List.mem_append_right _ ha)
  obtain ⟨j, hj⟩ := h.chunks b (List.mem_append_left _ hb)
  have hne : b ≠ a := (List.nodup_append.1 h.nodup).2.2 b hb a ha
  rw [hi, hj] at hne
  rcases chunk_apart hne with hlt | hlt
  · omega
  · omega

theorem BlkInv.move (h : ∃ avl, BlkInv A start blkSize poolSize r avl tail) (hstart : start ≠ 0)
    (hmove : A.BlkMove blkSize r op r') : ∃ avl, BlkInv A start blkSize poolSize r' avl tail := by
  obtain ⟨avl, h⟩ := h
  cases hmove with
  | alloc => exact h.alloc
  | free hb => exact ⟨_, h.free hstart hb⟩
  | store hmem => exact ⟨avl, h.store hmem⟩

/-! ## Sound states -/

theorem next_iterate (s : PoolMem) (hobj : s.pool.objType = .mmBlk) (n : ℕ) :
    (PoolMem.next^[n] s).pool.objType = .mmBlk ∧ (PoolMem.next^[n] s).pool.blkAvail = s.pool.blkAvail - n := by
  induction n with
  | zero => exact ⟨hobj, rfl⟩
  | succ n ih =>
    obtain ⟨hobj', havail⟩ := ih
    rw [Function.iterate_succ_apply']
    generalize PoolMem.next^[n] s = t at hobj' havail
    unfold PoolMem.next krhinoMblkAlloc
    by_cases hpos : 0 < t.pool.blkAvail
    · simp [hobj', hpos]
      omega
    · simp [hobj', hpos]
      omega

theorem alloc_stat {s : PoolMem} (hobj : s.pool.objType = .mmBlk) :
    (krhinoMblkAlloc true true s).1 = if 0 < s.pool.blkAvail then .success else .noMem := by
  unfold krhinoMblkAlloc
  by_cases hpos : 0 < s.pool.blkAvail
  · simp [hobj, hpos]
  · simp [hobj, hpos]

theorem BlkInv.sound (h : BlkInv A start blkSize poolSize r avl tail) : BlkSound start blkSize poolSize r where
  apart := by
    refine (List.nodup_append.1 h.nodup).1.imp_of_mem fun {a b} ha hb hab => ?_
    obtain ⟨i, rfl⟩ := h.chunks a (List.mem_append_left _ ha)
    obtain ⟨j, rfl⟩ := h.chunks b (List.mem_append_left _ hb)
    exact chunk_apart hab
  inside := by
    intro b hb
    obtain ⟨i, rfl⟩ := h.chunks b (List.mem_append_left _ hb)
    exact ⟨Nat.le_add_right _ _, h.blocks _ (List.mem_append_left _ hb)⟩
  avail := by
    intro n
    obtain ⟨hobj, havail⟩ := next_iterate r.s h.obj n
    rw [alloc_stat hobj, havail]
    split_ifs with hpos
    · exact iff_of_true rfl (by omega)
    · exact iff_of_false (by decide) (by omega)
  whole := by
    have hwhole := h.whole
    omega
  noMem := by
    have hwhole := h.whole
    rw [alloc_stat h.obj]
    split_ifs with hpos
    · exact iff_of_false (by decide) (by omega)
    · exact iff_of_true rfl (by omega)

theorem blkInv_made (A : Arch) (name : String) (mem : ℕ → ℕ) (hstart : start ≠ 0) (hb : 0 < blkSize) (hk : poolSize ≤ (k + 1) * blkSize) :
    ∃ avl tail, BlkInv A start blkSize poolSize ⟨A.madePool name start blkSize poolSize mem k, []⟩ avl tail := by
  let nodes := (List.range (k + 1)).map (chunk start blkSize)
  let whole := poolSize / blkSize % 2 ^ 32 % 2 ^ A.sizeBits
  have hwhole : whole ≤ poolSize / blkSize := (Nat.mod_le _ _).trans (Nat.mod_le _ _)
  have hfull : poolSize / blkSize ≤ k + 1 := by
    rw [Nat.div_le_iff_le_mul_add_pred hb]
    rw [Nat.mul_comm] at hk
    omega
  have hinj : Function.Injective (chunk start blkSize) := by
    intro i j hij
    exact Nat.eq_of_mul_eq_mul_right hb (Nat.add_left_cancel hij)
  have hnodes : nodes.length = k + 1 := by simp [nodes]
  have hmem : ∀ b ∈ nodes, ∃ i, b = chunk start blkSize i := by
    intro b hb
    obtain ⟨i, -, rfl⟩ := List.mem_map.1 hb
    exact ⟨i, rfl⟩
  refine ⟨nodes.take whole, nodes.drop whole, ?_⟩
  exact
    { chain := by
        rw [List.take_append_drop]
        have hlink : ∀ i < k, (A.madePool name start blkSize poolSize mem k).mem (chunk start blkSize i) =
            chunk start blkSize (i + 1) := by
          intro i hi
          have hne : chunk start blkSize i ≠ start + k * blkSize := fun heq => absurd (hinj heq) (by omega)
          show Function.update _ _ _ _ = _
          rw [Function.update_of_ne hne]
          unfold Arch.carved chunk
          dsimp only
          rw [if_pos ⟨i, hi, rfl⟩, Nat.succ_mul, Nat.add_assoc]
        have hrow := chain_row (z := 0) (fun i _ => by unfold chunk; omega) hlink (Function.update_self ..)
        unfold chunk at hrow
        rwa [Nat.zero_mul, Nat.add_zero] at hrow
      nodup := by
        rw [List.nil_append, List.take_append_drop]
        exact List.Nodup.map hinj List.nodup_range
      chunks := by
        rw [List.nil_append, List.take_append_drop]
        exact hmem
      blocks := by
        intro b hb'
        rw [List.nil_append] at hb'
        obtain ⟨i, hi, rfl⟩ := List.getElem_of_mem hb'
        rw [List.length_take] at hi
        rw [List.getElem_take]
        simp only [nodes, List.getElem_map, List.getElem_range]
        have hmul : (i + 1) * blkSize ≤ poolSize / blkSize * blkSize := Nat.mul_le_mul_right _ (by omega)
        have hle := Nat.div_mul_le_self poolSize blkSize
        rw [Nat.succ_mul] at hmul
        unfold chunk
        omega
      avail := by
        rw [List.length_take, hnodes]
        exact Nat.min_eq_left (hwhole.trans hfull)
      whole := rfl
      small := Nat.mod_lt _ (Nat.two_pow_pos _)
      obj := rfl }

/-- **Fixed-block pools**: a pool that `krhino_mblk_pool_init` does not reject is sound
    in every run exactly where it has a size, its blocks have one, and the end of
    its last block, made whole, is still an address. -/
theorem mblk_pool_sound_iff {name : String} (mem : ℕ → ℕ)
    (h : A.poolInitChecks true (some name) start blkSize poolSize = .success) :
    A.PoolSound name start blkSize poolSize mem ↔
      0 < blkSize ∧ 0 < poolSize ∧ start + chunks blkSize poolSize * blkSize < 2 ^ A.sizeBits := by
  obtain ⟨hstart, hblk, hpool⟩ := A.poolInitChecks_success h
  have hptr : 0 < A.ptrSize := Nat.two_pow_pos _
  constructor
  · rintro ⟨made, writes, hinit, hinside, -⟩
    by_contra hbad
    obtain ⟨rfl, hmem⟩ := A.krhinoMblkPoolInit_bad h hbad hinit
    have hin := (hinside _ hmem).2
    omega
  · rintro ⟨hb, hp, hfit⟩
    obtain ⟨k, hchunks, hk, hk'⟩ := chunks_spec hb hp
    rw [hchunks] at hfit
    refine ⟨_, _, A.krhinoMblkPoolInit_eq h hb hk hk' hfit, ?_, ?_⟩
    · intro a ha
      obtain ⟨i, hi, rfl⟩ := List.mem_map.1 ha
      have hmul := Nat.mul_le_mul_right blkSize (Nat.lt_succ_iff.1 (List.mem_range.1 hi))
      have hroom : k * blkSize + A.ptrSize ≤ poolSize :=
        Nat.le_of_lt_add_of_dvd (by omega) (Nat.dvd_add (Nat.dvd_mul_left_of_dvd hblk k) (Nat.dvd_refl _)) hpool
      exact ⟨Nat.le_add_right _ _, by omega⟩
    · intro ops r hrun
      obtain ⟨avl, tail, hinv⟩ := blkInv_made A name mem hstart hb hk'
      have hkeeps := hrun.keeps (I := fun r => ∃ avl, BlkInv A start blkSize poolSize r avl tail)
        (fun hI hmove => BlkInv.move hI hstart hmove) ⟨avl, hinv⟩
      obtain ⟨avl', h'⟩ := hkeeps
      exact h'.sound

/-- Three blocks of 8 bytes, and 4 bytes behind them. -/
theorem mblk_pool_sound_iff_three : Arch.PoolSound ⟨2, by decide⟩ "blk" 0x20000000 8 28 (fun _ => 0) :=
  (mblk_pool_sound_iff _ (show Arch.poolInitChecks ⟨2, by decide⟩ true (some "blk") 0x20000000 8 28 = .success by
    decide)).2 ⟨by decide, by decide, by decide⟩

/-- Blocks of no size pass the tests. -/
theorem mblk_pool_not_sound :
    ¬ ∀ (A : Arch) name start blkSize poolSize mem,
      A.poolInitChecks true (some name) start blkSize poolSize = .success →
      A.PoolSound name start blkSize poolSize mem := by
  intro hall
  let A : Arch := ⟨2, by decide⟩
  have hchecks : A.poolInitChecks true (some "blk") 0x20000000 0 16 = .success := by decide
  obtain ⟨made, writes, hinit, -⟩ := hall A "blk" 0x20000000 0 16 (fun _ => 0) hchecks
  have hzero := (A.krhinoMblkPoolInit_bad hchecks (by decide) hinit).1
  exact absurd hzero (by decide)

end Rhino
