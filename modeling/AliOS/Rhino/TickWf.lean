/-
  The tick list: on it stand exactly the tasks whose `tick_head` is not NULL,
  once, in the order of the ticks they have left.

  Every move keeps that (`TickWf.move`, `TickSorted.move`).  `TickRel P` says
  which tasks an operation may take off the list: those of `P`; the others
  stay, with their deadlines.
-/
import AliOS.Rhino.MutexOps
import AliOS.Lib.Clock

namespace Rhino

open Lib

variable {w : ℕ} {k k' k₁ : Kernel w} {t u : TaskId} {o m : ObjId} {fuel : ℕ}

/-! ## The invariants -/

structure TickWf (k : Kernel w) : Prop where
  nodup : k.tickHead.Nodup
  mem : ∀ t, t ∈ k.tickHead ↔ (k.tasks t).tickHead = true
  timed : ∀ t, (k.tasks t).tickHead = true → (k.tasks t).taskState.timed

/-- The ticks the task has left. -/
def Kernel.left (k : Kernel w) (t : TaskId) : ℕ := Lib.left (k.tasks t).tickMatch k.tickCount

/-- The tick list is in the order of the ticks left. -/
def TickOrder (k : Kernel w) : Prop := k.tickHead.Pairwise fun a b => k.left a ≤ k.left b

structure TickSorted (k : Kernel w) : Prop where
  sorted : TickOrder k
  pos : ∀ t ∈ k.tickHead, k.left t ≠ 0

/-- What a move does to the tick list. -/
inductive TickMove (t : TaskId) (k k' : Kernel w) : Prop where
  | off (flag : (k'.tasks t).tickHead = false) (list : k'.tickHead = k.tickHead.erase t)
  | same (tick : SameTick t k k')
  | on {n : BitVec w} (was : (k.tasks t).tickHead = false) (tick : OnTick t n k k')

theorem TickWf.not_flag (h : TickWf k) (ht : ¬ (k.tasks t).taskState.timed) :
    (k.tasks t).tickHead = false := by
  by_contra hc
  exact ht (h.timed t (Bool.not_eq_false _ ▸ hc))

theorem TickWf.not_mem (h : TickWf k) (ht : (k.tasks t).tickHead = false) : t ∉ k.tickHead := by
  rw [h.mem, ht]
  simp

theorem OffTick.tickMove (hk : TickWf k) (h : OffTick t k k') : TickMove t k k' := by
  rcases h with ⟨hf, hl⟩ | ⟨ht, hf, hl⟩
  · refine .off hf (hl.trans ?_)
    rw [Kernel.tickListRm_tickHead]
    split
    · rfl
    · rename_i hc
      rw [List.erase_of_not_mem (hk.not_mem (Bool.not_eq_true _ ▸ hc))]
  · have hc := hk.not_flag ht
    refine .off (hf.trans hc) ?_
    rw [hl, List.erase_of_not_mem (hk.not_mem hc)]

/-- Every move takes the task off the tick list, enters it, or leaves the list;
    a task on the list may be there in its new state. -/
theorem Move.tickMove (hk : TickWf k) (h : Move t k k') :
    TickMove t k k' ∧ ((k'.tasks t).tickHead = true → (k'.tasks t).taskState.timed) := by
  have hrdy : (k.tasks t).taskState = .rdy → (k.tasks t).tickHead = false := fun hr =>
    hk.not_flag (by rw [hr]; decide)
  cases h with
  | ready frame was now prio tick queue =>
    have ht := tick.tickMove hk
    refine ⟨ht, fun hf => ?_⟩
    rcases tick with ⟨hc, -⟩ | ⟨hnt, hc, -⟩
    · rw [hc] at hf
      cases hf
    · exact absurd (hk.timed t (hc ▸ hf)) hnt
  | rest frame was now prio tick queue =>
    have ht := tick.tickMove hk
    refine ⟨ht, fun hf => ?_⟩
    rcases tick with ⟨hc, -⟩ | ⟨hnt, hc, -⟩
    · rw [hc] at hf
      cases hf
    · exact absurd (hk.timed t (hc ▸ hf)) hnt
  | stop frame was now prio tick queue =>
    refine ⟨.same tick, fun hf => ?_⟩
    rw [tick.flag, hrdy was] at hf
    cases hf
  | park frame was now prio tick queue =>
    refine ⟨?_, fun _ => ?_⟩
    · rcases tick with ⟨n, ht⟩ | ht
      · exact .on (hrdy was) ht
      · exact .same ht
    · rcases now with hn | hn <;> rw [hn] <;> decide
  | stay frame rdy timed deleted prio tick queue =>
    exact ⟨.same tick, fun hf => timed (hk.timed t (tick.flag ▸ hf))⟩
  | readyPrio frame was now tick queue =>
    refine ⟨.same tick, fun hf => ?_⟩
    rw [tick.flag, hrdy was] at hf
    cases hf
  | prio frame was now tick queue =>
    refine ⟨.same tick, fun hf => ?_⟩
    rw [now]
    exact hk.timed t (tick.flag ▸ hf)

theorem TickWf.move (hk : TickWf k) (h : Move t k k') : TickWf k' := by
  obtain ⟨htick, htimed⟩ := h.tickMove hk
  have hne := h.frame.others
  have htimed' : ∀ u, (k'.tasks u).tickHead = true → (k'.tasks u).taskState.timed := by
    intro u hu
    by_cases hut : u = t
    · subst hut
      exact htimed hu
    · rw [hne u hut] at hu ⊢
      exact hk.timed u hu
  cases htick with
  | off flag list =>
    refine ⟨list ▸ hk.nodup.erase t, fun u => ?_, htimed'⟩
    rw [list, hk.nodup.mem_erase_iff, hk.mem]
    by_cases hut : u = t
    · simp [hut, flag]
    · simp [hut, hne u hut]
  | same tick =>
    refine ⟨tick.list ▸ hk.nodup, fun u => ?_, htimed'⟩
    rw [tick.list, hk.mem]
    by_cases hut : u = t
    · rw [hut, tick.flag]
    · rw [hne u hut]
  | on was tick =>
    obtain ⟨hn, hf, -, hl⟩ := tick
    rw [Kernel.tickListInsert_tickHead _ _ hn] at hl
    refine ⟨?_, fun u => ?_, htimed'⟩
    · rw [hl, (insertBefore_perm _ _ _).nodup_iff]
      exact List.nodup_cons.2 ⟨hk.not_mem was, hk.nodup⟩
    · rw [hl, mem_insertBefore, hk.mem]
      by_cases hut : u = t
      · simp [hut, hf]
      · simp [hut, hne u hut]

theorem Move.left_ne (h : Move t k k') (hu : u ≠ t) : k'.left u = k.left u := by
  unfold Kernel.left
  rw [h.frame.others u hu, h.frame.tickCount]

theorem Move.left_on {n : BitVec w} (h : Move t k k') (ht : OnTick t n k k') :
    k'.left t = n.toNat := by
  unfold Kernel.left
  rw [ht.2.2.1, h.frame.tickCount, left_add]

theorem Move.left_same (h : Move t k k') (ht : SameTick t k k') : k'.left u = k.left u := by
  by_cases hu : u = t
  · unfold Kernel.left
    rw [hu, ht.tickMatch, h.frame.tickCount]
  · exact h.left_ne hu

theorem Move.list_on {n : BitVec w} (h : Move t k k') (ht : OnTick t n k k') :
    k'.tickHead = insertBefore (fun q => k'.left q > k'.left t) t k.tickHead := by
  rw [ht.2.2.2, Kernel.tickListInsert_tickHead _ _ ht.1]
  congr 1
  funext q
  have hq : (if q = t then k.tickCount + n else (k.tasks q).tickMatch) = (k'.tasks q).tickMatch := by
    split
    · rename_i hq
      rw [hq, ht.2.2.1]
    · rename_i hq
      rw [h.frame.others q hq]
  rw [h.left_on ht, hq, decide_eq_decide, ← h.frame.tickCount]
  exact BitVec.lt_def

theorem TickOrder.move (hs : TickOrder k) (hk : TickWf k) (h : Move t k k') : TickOrder k' := by
  unfold TickOrder at *
  cases (h.tickMove hk).1 with
  | off flag list =>
    have hmem : ∀ u ∈ k.tickHead.erase t, u ≠ t := fun u hu he =>
      (hk.nodup.mem_erase_iff.1 hu).1 he
    rw [list]
    refine (hs.sublist List.erase_sublist).imp_of_mem fun {a b} ha hb hab => ?_
    rw [h.left_ne (hmem a ha), h.left_ne (hmem b hb)]
    exact hab
  | same tick =>
    rw [tick.list]
    simpa only [h.left_same tick] using hs
  | on was tick =>
    have hmem : ∀ u ∈ k.tickHead, u ≠ t := fun u hu he => hk.not_mem was (he ▸ hu)
    rw [h.list_on tick]
    refine insertBefore_sorted (hs.imp_of_mem fun {a b} ha hb hab => ?_)
    rw [h.left_ne (hmem a ha), h.left_ne (hmem b hb)]
    exact hab

theorem TickSorted.move (hs : TickSorted k) (hk : TickWf k) (h : Move t k k') :
    TickSorted k' := by
  refine ⟨hs.sorted.move hk h, fun u hu => ?_⟩
  cases (h.tickMove hk).1 with
  | off flag list =>
    rw [list] at hu
    rw [h.left_ne (hk.nodup.mem_erase_iff.1 hu).1]
    exact hs.pos u (List.mem_of_mem_erase hu)
  | same tick =>
    rw [h.left_same tick]
    exact hs.pos u (tick.list ▸ hu)
  | on was tick =>
    rw [h.list_on tick, mem_insertBefore] at hu
    rcases hu with rfl | hu
    · rw [h.left_on tick]
      rename_i n
      have hlt : (0 : BitVec w).toNat < n.toNat := BitVec.lt_def.1 tick.1
      omega
    · have hut : u ≠ t := fun he => hk.not_mem was (he ▸ hu)
      rw [h.left_ne hut]
      exact hs.pos u hu

/-! ## What is not a move -/

/-- The invariants read the tick list, the count, and what the tasks have of it. -/
structure SameTicks (k k' : Kernel w) : Prop where
  list : k'.tickHead = k.tickHead
  count : k'.tickCount = k.tickCount
  flag : ∀ u, (k'.tasks u).tickHead = (k.tasks u).tickHead
  tickMatch : ∀ u, (k'.tasks u).tickMatch = (k.tasks u).tickMatch
  state : ∀ u, (k.tasks u).tickHead = true → (k'.tasks u).taskState = (k.tasks u).taskState

theorem SameTicks.wf (h : SameTicks k k') (hk : TickWf k) : TickWf k' := by
  refine ⟨h.list ▸ hk.nodup, fun u => ?_, fun u hu => ?_⟩
  · rw [h.list, h.flag, hk.mem]
  · rw [h.flag] at hu
    rw [h.state u hu]
    exact hk.timed u hu

theorem SameTicks.sorted (h : SameTicks k k') (hs : TickSorted k) : TickSorted k' := by
  have hall : ∀ u, k'.left u = k.left u := fun u => by
    unfold Kernel.left
    rw [h.tickMatch, h.count]
  refine ⟨?_, fun u hu => ?_⟩
  · unfold TickOrder
    rw [h.list]
    simp only [hall]
    exact hs.sorted
  · rw [hall]
    exact hs.pos u (h.list ▸ hu)

theorem SameButLocks.sameTicks (h : SameButLocks k k') : SameTicks k k' := by
  refine ⟨h.tickHead, h.tickCount, fun u => ?_, fun u => ?_, fun u _ => ?_⟩
  all_goals rw [h.tasks u]

/-- Both invariants of the tick list. -/
structure TickInv (k : Kernel w) : Prop where
  wf : TickWf k
  sorted : TickSorted k

theorem TickInv.move (hk : TickInv k) (h : Move t k k') : TickInv k' :=
  ⟨hk.wf.move h, hk.sorted.move hk.wf h⟩

theorem SameTicks.inv (h : SameTicks k k') (hk : TickInv k) : TickInv k' :=
  ⟨h.wf hk.wf, h.sorted hk.sorted⟩

theorem SameTicks.of_tasks (hl : k'.tickHead = k.tickHead) (hc : k'.tickCount = k.tickCount)
    (ht : k'.tasks = k.tasks) : SameTicks k k' := by
  refine ⟨hl, hc, fun u => ?_, fun u => ?_, fun u _ => ?_⟩
  all_goals rw [ht]

theorem TickInv.other (hk : TickInv k) (hne : ∀ u ≠ t, k'.tasks u = k.tasks u)
    (hl : k'.tickHead = k.tickHead) (hc : k'.tickCount = k.tickCount)
    (hf : (k.tasks t).tickHead = false) (hf' : (k'.tasks t).tickHead = false) : TickInv k' := by
  have hmem : ∀ u ∈ k.tickHead, u ≠ t := fun u hu he => hk.wf.not_mem hf (he ▸ hu)
  have hleft : ∀ u ∈ k.tickHead, k'.left u = k.left u := fun u hu => by
    unfold Kernel.left
    rw [hne u (hmem u hu), hc]
  refine ⟨⟨hl ▸ hk.wf.nodup, fun u => ?_, fun u hu => ?_⟩, ?_, fun u hu => ?_⟩
  · rw [hl, hk.wf.mem]
    by_cases hut : u = t
    · rw [hut, hf, hf']
    · rw [hne u hut]
  · have hut : u ≠ t := by
      rintro rfl
      rw [hf'] at hu
      cases hu
    rw [hne u hut] at hu ⊢
    exact hk.wf.timed u hu
  · unfold TickOrder
    rw [hl]
    refine hk.sorted.sorted.imp_of_mem fun {a b} ha hb hab => ?_
    rw [hleft a ha, hleft b hb]
    exact hab
  · rw [hl] at hu
    rw [hleft u hu]
    exact hk.sorted.pos u hu

theorem TickInv.ops (hk : TickInv k) (h : Ops k k') : TickInv k' :=
  h.keeps (fun hk hm => TickInv.move hk hm) (fun hk hl => hl.sameTicks.inv hk) hk

end Rhino
