/-
  Pools of blocks of one size: `k_mm_blk.c`.

  `krhino_mblk_pool_init` threads a list through the blocks, each of which begins
  with the pointer to the next one.  Its loop goes on while the next block begins
  before the end of the pool, so what is left at the end is on the list too; the
  counters keep it from being handed out.

  The memory is one of pointers, by their addresses.  Pointer arithmetic that
  leaves the address space is `none`; so is a loop that does not end.
-/
import AliOS.Lib.Chain
import AliOS.Lib.Loop
import AliOS.Rhino.Kernel

namespace Rhino

open Lib

/-! ## The code -/

/-- The sizes of a machine: a pointer has 2 ^ `ptrLog` bytes, and the mask for its
    alignment is a `uint8_t`. -/
structure Arch where
  ptrLog : ℕ
  small : ptrLog ≤ 8

/-- `sizeof(void *)`. -/
def Arch.ptrSize (A : Arch) : ℕ := 2 ^ A.ptrLog
/-- The bits of a `size_t`, and of an address. -/
def Arch.sizeBits (A : Arch) : ℕ := 8 * A.ptrSize

/-- `p + n`. -/
def Arch.ptrAdd (A : Arch) (p n : ℕ) : Option ℕ := if p + n < 2 ^ A.sizeBits then some (p + n) else none

/-- `mblk_pool_t`; `availList` is 0 for the null pointer. -/
structure MblkObj where
  objType : KobjType
  poolName : String
  blkSize : ℕ
  blkAvail : ℕ
  blkWhole : ℕ
  availList : ℕ

/-- A pool, and the memory of pointers. -/
structure PoolMem where
  pool : MblkObj
  mem : ℕ → ℕ

/-- The variables of the loop of `krhino_mblk_pool_init`, with the memory and the
    addresses it has written pointers to. -/
structure Carve where
  blks : ℕ
  blkCur : ℕ
  blkNext : Option ℕ
  mem : ℕ → ℕ
  writes : List ℕ

/-- One turn of the loop. -/
def Arch.carveTurn (A : Arch) (blkSize poolEnd : ℕ) (s : Carve) : Option Carve :=
  match s.blkNext with
  | none => none
  | some blkNext =>
    if blkNext < poolEnd then
      some
        { blks := (s.blks + 1) % 2 ^ 32
          blkCur := blkNext
          blkNext := A.ptrAdd blkNext blkSize
          mem := Function.update s.mem s.blkCur blkNext
          writes := s.writes ++ [s.blkCur] }
    else none

/-- The loop: each turn goes on by a byte at least, or is the same again for ever. -/
def Arch.carve (A : Arch) (poolStart blkSize poolSize poolEnd : ℕ) (mem : ℕ → ℕ) : Option Carve :=
  loopFor (A.carveTurn blkSize poolEnd) poolSize
    { blks := 0, blkCur := poolStart, blkNext := A.ptrAdd poolStart blkSize, mem := mem, writes := [] }

/-- The tests of `krhino_mblk_pool_init`; null pointers are `false`, `none` and 0. -/
def Arch.poolInitChecks (A : Arch) (pool : Bool) (name : Option String) (poolStart blkSize poolSize : ℕ) : KStat :=
  let addrAlignMask := A.ptrSize - 1
  if ¬ pool then .nullPtr
  else if name = none then .nullPtr
  else if poolStart = 0 then .nullPtr
  else if poolSize < blkSize <<< 1 % 2 ^ A.sizeBits then .blkPoolSizeErr
  else if 0 < poolStart &&& addrAlignMask then .invAlign
  else if 0 < blkSize &&& addrAlignMask then .invAlign
  else if 0 < poolSize &&& addrAlignMask then .invAlign
  else .success

/-- `krhino_mblk_pool_init`: the status, and on success the pool with the memory and
    the addresses written. -/
def Arch.krhinoMblkPoolInit (A : Arch) (pool : Bool) (name : Option String) (poolStart blkSize poolSize : ℕ)
    (mem : ℕ → ℕ) : Option (KStat × Option (PoolMem × List ℕ)) :=
  match A.poolInitChecks pool name poolStart blkSize poolSize with
  | .success => do
    let poolEnd ← A.ptrAdd poolStart poolSize
    let s ← A.carve poolStart blkSize poolSize poolEnd mem
    let blkNext ← s.blkNext
    let blks := if blkNext = poolEnd then (s.blks + 1) % 2 ^ 32 else s.blks
    let made : PoolMem :=
      { pool :=
          { objType := .mmBlk
            poolName := name.getD ""
            blkWhole := blks % 2 ^ A.sizeBits
            blkAvail := blks % 2 ^ A.sizeBits
            blkSize := blkSize
            availList := poolStart }
        mem := Function.update s.mem s.blkCur 0 }
    some (.success, some (made, s.writes ++ [s.blkCur]))
  | stat => some (stat, none)

/-- `krhino_mblk_alloc`: the status, and what is written to `*blk`. -/
def krhinoMblkAlloc (poolPtr blkPtr : Bool) (s : PoolMem) : KStat × Option ℕ × PoolMem :=
  if ¬ poolPtr then (.nullPtr, none, s)
  else if ¬ blkPtr then (.nullPtr, none, s)
  else if s.pool.objType ≠ .mmBlk then (.kobjTypeErr, none, s)
  else if 0 < s.pool.blkAvail then
    let availBlk := s.pool.availList
    (.success, some availBlk,
      { s with pool := { s.pool with availList := s.mem availBlk, blkAvail := s.pool.blkAvail - 1 } })
  else (.noMem, some 0, s)

def Arch.krhinoMblkFree (A : Arch) (poolPtr : Bool) (blk : ℕ) (s : PoolMem) : KStat × PoolMem :=
  if ¬ poolPtr then (.nullPtr, s)
  else if blk = 0 then (.nullPtr, s)
  else if s.pool.objType ≠ .mmBlk then (.kobjTypeErr, s)
  else
    (.success,
      { mem := Function.update s.mem blk s.pool.availList
        pool := { s.pool with availList := blk, blkAvail := (s.pool.blkAvail + 1) % 2 ^ A.sizeBits } })

/-! ## The carving -/

variable {A : Arch} {start blkSize poolSize poolEnd k n : ℕ} {mem : ℕ → ℕ} {s : Carve}

/-- The blocks that a pool is cut into, with what is left at its end. -/
def chunks (blkSize poolSize : ℕ) : ℕ := (poolSize + blkSize - 1) / blkSize

/-- The state of the loop after `k` turns. -/
def Arch.carved (A : Arch) (start blkSize : ℕ) (mem : ℕ → ℕ) (k : ℕ) : Carve where
  blks := k % 2 ^ 32
  blkCur := start + k * blkSize
  blkNext := A.ptrAdd (start + k * blkSize) blkSize
  mem a := if ∃ i < k, a = start + i * blkSize then a + blkSize else mem a
  writes := (List.range k).map fun i => start + i * blkSize

theorem Arch.carveTurn_carved (hnext : start + (k + 1) * blkSize < poolEnd)
    (hend : poolEnd < 2 ^ A.sizeBits) :
    A.carveTurn blkSize poolEnd (A.carved start blkSize mem k) = some (A.carved start blkSize mem (k + 1)) := by
  have hmul : start + k * blkSize + blkSize = start + (k + 1) * blkSize := by
    rw [Nat.succ_mul, Nat.add_assoc]
  have hadd : A.ptrAdd (start + k * blkSize) blkSize = some (start + (k + 1) * blkSize) := by
    unfold Arch.ptrAdd
    rw [hmul, if_pos (by omega)]
  unfold Arch.carveTurn
  rw [show (A.carved start blkSize mem k).blkNext = some (start + (k + 1) * blkSize) from hadd]
  dsimp only
  rw [if_pos hnext]
  have hmem : Function.update (A.carved start blkSize mem k).mem (start + k * blkSize) (start + (k + 1) * blkSize) =
      (A.carved start blkSize mem (k + 1)).mem := by
    funext a
    by_cases ha : a = start + k * blkSize
    · subst ha
      rw [Function.update_self]
      unfold Arch.carved
      dsimp only
      rw [if_pos ⟨k, Nat.lt_succ_self k, rfl⟩, hmul]
    · rw [Function.update_of_ne ha]
      unfold Arch.carved
      refine if_congr ⟨?_, ?_⟩ rfl rfl
      · rintro ⟨i, hi, hai⟩
        exact ⟨i, Nat.lt_succ_of_lt hi, hai⟩
      · rintro ⟨i, hi, rfl⟩
        rcases Nat.lt_succ_iff_lt_or_eq.1 hi with hi | rfl
        · exact ⟨i, hi, rfl⟩
        · exact absurd rfl ha
  have hwrites : (A.carved start blkSize mem k).writes ++ [start + k * blkSize] =
      (A.carved start blkSize mem (k + 1)).writes := by
    unfold Arch.carved
    rw [List.range_succ, List.map_append, List.map_singleton]
  have hblks : ((A.carved start blkSize mem k).blks + 1) % 2 ^ 32 = (A.carved start blkSize mem (k + 1)).blks :=
    Nat.mod_add_mod k (2 ^ 32) 1
  refine congrArg some ?_
  show Carve.mk _ _ _ _ _ = Carve.mk _ _ _ _ _
  rw [Carve.mk.injEq]
  exact ⟨hblks, rfl, rfl, hmem, hwrites⟩

theorem chunks_spec (hb : 0 < blkSize) (hp : 0 < poolSize) :
    ∃ k, chunks blkSize poolSize = k + 1 ∧ k * blkSize < poolSize ∧ poolSize ≤ (k + 1) * blkSize := by
  have hle : chunks blkSize poolSize * blkSize ≤ poolSize + blkSize - 1 := Nat.div_mul_le_self _ _
  have hlt : poolSize + blkSize - 1 < (chunks blkSize poolSize + 1) * blkSize :=
    Nat.lt_mul_of_div_lt (Nat.lt_succ_self _) hb
  have hpos : 0 < chunks blkSize poolSize := Nat.div_pos (by omega) hb
  obtain ⟨k, hk⟩ : ∃ k, chunks blkSize poolSize = k + 1 := ⟨_, (Nat.succ_pred_eq_of_pos hpos).symm⟩
  rw [hk, Nat.succ_mul] at hle
  rw [hk, Nat.succ_mul] at hlt
  exact ⟨k, hk, by omega, by omega⟩

theorem Arch.carve_eq (hb : 0 < blkSize) (hk : k * blkSize < poolSize) (hk' : poolSize ≤ (k + 1) * blkSize)
    (hend : start + poolSize < 2 ^ A.sizeBits) :
    A.carve start blkSize poolSize (start + poolSize) mem = some (A.carved start blkSize mem k) := by
  have hinit : A.carved start blkSize mem 0 = ⟨0, start, A.ptrAdd start blkSize, mem, []⟩ := by
    unfold Arch.carved
    simp
  have hle : k ≤ poolSize := (Nat.le_mul_of_pos_right k hb).trans hk.le
  unfold Arch.carve
  rw [← hinit]
  refine loopFor_row (fun i hi => carveTurn_carved ?_ hend) ?_ hle
  · have hmul : (i + 1) * blkSize ≤ k * blkSize := Nat.mul_le_mul_right _ hi
    omega
  · have hmul : start + k * blkSize + blkSize = start + (k + 1) * blkSize := by
      rw [Nat.succ_mul, Nat.add_assoc]
    have hnext : (A.carved start blkSize mem k).blkNext = A.ptrAdd (start + k * blkSize) blkSize := rfl
    unfold Arch.carveTurn
    rw [hnext]
    unfold Arch.ptrAdd
    rw [hmul]
    split_ifs with h
    · dsimp only
      rw [if_neg (by omega)]
    · rfl

theorem Arch.carve_zero (hp : 0 < poolSize) (hend : start + poolSize < 2 ^ A.sizeBits) :
    A.carve start 0 poolSize (start + poolSize) mem = none := by
  have hadd : A.ptrAdd start 0 = some start := by
    unfold Arch.ptrAdd
    rw [Nat.add_zero, if_pos (by omega)]
  refine loopFor_none (I := fun s => s.blkNext = some start) (fun {s} hs => ?_) hadd
  unfold Arch.carveTurn
  rw [hs]
  dsimp only
  rw [if_pos (by omega)]
  exact ⟨_, rfl, hadd⟩

theorem Arch.carve_empty :
    A.carve start blkSize 0 start mem = some ⟨0, start, A.ptrAdd start blkSize, mem, []⟩ := by
  unfold Arch.carve loopFor
  have hend : A.carveTurn blkSize start ⟨0, start, A.ptrAdd start blkSize, mem, []⟩ = none := by
    unfold Arch.carveTurn Arch.ptrAdd
    split_ifs
    · dsimp only
      rw [if_neg (by omega)]
    · rfl
  rw [hend]
  rfl

/-! ## The pool that is made -/

theorem Arch.poolInitChecks_success {pool : Bool} {name : Option String}
    (h : A.poolInitChecks pool name start blkSize poolSize = .success) :
    start ≠ 0 ∧ A.ptrSize ∣ blkSize ∧ A.ptrSize ∣ poolSize := by
  have hdvd : ∀ x, ¬ 0 < x &&& (A.ptrSize - 1) → A.ptrSize ∣ x := by
    intro x hx
    unfold Arch.ptrSize at hx ⊢
    rw [Nat.and_two_pow_sub_one_eq_mod] at hx
    exact Nat.dvd_of_mod_eq_zero (by omega)
  unfold Arch.poolInitChecks at h
  dsimp only at h
  split_ifs at h with _ _ hstart _ _ hblk hpool
  exact ⟨hstart, hdvd _ hblk, hdvd _ hpool⟩

/-- The pool, where all goes well. -/
def Arch.madePool (A : Arch) (name : String) (start blkSize poolSize : ℕ) (mem : ℕ → ℕ) (k : ℕ) : PoolMem where
  pool :=
    { objType := .mmBlk
      poolName := name
      blkWhole := poolSize / blkSize % 2 ^ 32 % 2 ^ A.sizeBits
      blkAvail := poolSize / blkSize % 2 ^ 32 % 2 ^ A.sizeBits
      blkSize := blkSize
      availList := start }
  mem := Function.update (A.carved start blkSize mem k).mem (start + k * blkSize) 0

/-- **A pool that fits** into the address space with its last chunk made whole. -/
theorem Arch.krhinoMblkPoolInit_eq {name : String}
    (h : A.poolInitChecks true (some name) start blkSize poolSize = .success) (hb : 0 < blkSize)
    (hk : k * blkSize < poolSize) (hk' : poolSize ≤ (k + 1) * blkSize)
    (hfit : start + (k + 1) * blkSize < 2 ^ A.sizeBits) :
    A.krhinoMblkPoolInit true (some name) start blkSize poolSize mem =
      some (.success, some (A.madePool name start blkSize poolSize mem k,
        (List.range (k + 1)).map fun i => start + i * blkSize)) := by
  have hadd : A.ptrAdd start poolSize = some (start + poolSize) := if_pos (by omega)
  have hnext : (A.carved start blkSize mem k).blkNext = some (start + (k + 1) * blkSize) := by
    unfold Arch.carved Arch.ptrAdd
    rw [Nat.add_assoc, ← Nat.succ_mul]
    exact if_pos hfit
  have hblks : (if start + (k + 1) * blkSize = start + poolSize then (k % 2 ^ 32 + 1) % 2 ^ 32 else k % 2 ^ 32) =
      poolSize / blkSize % 2 ^ 32 := by
    by_cases hfull : (k + 1) * blkSize = poolSize
    · rw [if_pos (by rw [hfull]), Nat.mod_add_mod, ← hfull, Nat.mul_div_cancel _ hb]
    · rw [if_neg (by omega), Nat.div_eq_of_lt_le hk.le (by omega)]
  have hwrites : (A.carved start blkSize mem k).writes ++ [start + k * blkSize] =
      (List.range (k + 1)).map fun i => start + i * blkSize := by
    unfold Arch.carved
    rw [List.range_succ, List.map_append, List.map_singleton]
  unfold Arch.krhinoMblkPoolInit
  rw [h]
  rw [hadd, Option.bind_eq_bind, Option.bind_some, Arch.carve_eq hb hk hk' (by omega), Option.bind_eq_bind,
    Option.bind_some, hnext, Option.bind_some]
  have hcur : (A.carved start blkSize mem k).blkCur = start + k * blkSize := rfl
  have hcount : (A.carved start blkSize mem k).blks = k % 2 ^ 32 := rfl
  rw [hcur, hcount, hblks, hwrites]
  rfl

/-- **A pool that does not fit**, or has no size, or is of blocks of no size: there is no
    pool, or a pointer is written outside. -/
theorem Arch.krhinoMblkPoolInit_bad {name : String} {made : PoolMem} {writes : List ℕ}
    (h : A.poolInitChecks true (some name) start blkSize poolSize = .success)
    (hbad : ¬ (0 < blkSize ∧ 0 < poolSize ∧ start + chunks blkSize poolSize * blkSize < 2 ^ A.sizeBits))
    (hinit : A.krhinoMblkPoolInit true (some name) start blkSize poolSize mem = some (.success, some (made, writes))) :
    poolSize = 0 ∧ start ∈ writes := by
  unfold Arch.krhinoMblkPoolInit at hinit
  rw [h] at hinit
  obtain ⟨poolEnd, hend, hinit⟩ := Option.bind_eq_some_iff.1 hinit
  obtain ⟨s, hs, hinit⟩ := Option.bind_eq_some_iff.1 hinit
  obtain ⟨blkNext, hnext, hinit⟩ := Option.bind_eq_some_iff.1 hinit
  obtain ⟨-, hwrites⟩ := Prod.mk.inj (Option.some.inj (Prod.mk.inj (Option.some.inj hinit)).2)
  unfold Arch.ptrAdd at hend
  split_ifs at hend with hlt
  cases hend
  rcases Nat.eq_zero_or_pos poolSize with rfl | hp
  · rw [Nat.add_zero, Arch.carve_empty] at hs
    cases hs
    exact ⟨rfl, by rw [← hwrites]; exact List.mem_singleton_self start⟩
  · rcases Nat.eq_zero_or_pos blkSize with rfl | hb
    · rw [Arch.carve_zero hp hlt] at hs
      cases hs
    · obtain ⟨k, hchunks, hk, hk'⟩ := chunks_spec hb hp
      rw [Arch.carve_eq hb hk hk' hlt] at hs
      cases hs
      unfold Arch.carved Arch.ptrAdd at hnext
      rw [Nat.add_assoc, ← Nat.succ_mul, Nat.succ_eq_add_one, ← hchunks,
        if_neg fun hfit => hbad ⟨hb, hp, hfit⟩] at hnext
      cases hnext

end Rhino
