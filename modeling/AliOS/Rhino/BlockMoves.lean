/-
  Blocking, sleeping, and deleting a task as moves; the deletion and the mutex
  operations write the ownership of mutexes as well.
-/
import AliOS.Rhino.TaskMoves

namespace Rhino

variable {w : ℕ} {k k' k₁ : Kernel w} {t u : TaskId} {o : ObjId} {fuel : ℕ}

namespace Kernel

/-! ## Blocking and sleeping -/

theorem tickListInsert_tickHead (k : Kernel w) (t : TaskId) {n : BitVec w} (hn : n > 0) :
    (k.tickListInsert t n).tickHead = insertBefore
      (fun q => (if q = t then k.tickCount + n else (k.tasks q).tickMatch) - k.tickCount > n) t
      k.tickHead := by
  unfold tickListInsert
  rw [if_pos hn]
  dsimp only
  congr 1
  funext q
  rw [updTask_tasks_self, updTask_tasks, updTask_tickCount]
  split_ifs <;> rfl

theorem tickListInsert_congr {n : BitVec w} (hn : n > 0) (hl : k₁.tickHead = k.tickHead)
    (hc : k₁.tickCount = k.tickCount) (hm : ∀ u, (k₁.tasks u).tickMatch = (k.tasks u).tickMatch) :
    (k₁.tickListInsert t n).tickHead = (k.tickListInsert t n).tickHead := by
  rw [tickListInsert_tickHead _ _ hn, tickListInsert_tickHead _ _ hn, hl, hc]
  congr 1
  funext q
  rw [hm]

theorem tickListInsert_tasks_self' (k : Kernel w) (t : TaskId) {n : BitVec w} (hn : n > 0) :
    (k.tickListInsert t n).tasks t =
      { k.tasks t with tickMatch := k.tickCount + n, tickRemain := n, tickHead := true } := by
  unfold tickListInsert
  rw [if_pos hn]
  rw [updTask_tasks_self]

theorem sameFields_tickListInsert (k : Kernel w) (t : TaskId) (n : BitVec w) :
    SameFields t k (k.tickListInsert t n) := by
  refine ⟨fun u hu => tickListInsert_tasks_ne k hu n, tickListInsert_mutexes k t n,
    .of_objs (tickListInsert_objs k t n), ?_, ?_, ?_⟩
  all_goals
    unfold tickListInsert
    split_ifs <;> rfl

theorem tickListInsert_readyQueue (k : Kernel w) (t : TaskId) (n : BitVec w) :
    (k.tickListInsert t n).readyQueue = k.readyQueue := by
  unfold tickListInsert
  split_ifs <;> rfl

theorem tickListInsert_zero (k : Kernel w) (t : TaskId) {n : BitVec w} (hn : ¬ n > 0) :
    k.tickListInsert t n = k := if_neg hn

theorem move_sleep {n : BitVec w} (hs : (k.tasks k.activeTask).taskState = .rdy)
    (h : k.krhinoTaskSleep n = .inr k') :
    Move k.activeTask k k' ∧ OnTick k.activeTask n k k' ∧
      (k'.tasks k.activeTask).taskState = .sleep := by
  unfold krhinoTaskSleep at h
  split at h
  · cases h
  split at h
  · cases h
  split at h
  · cases h
  rename_i hn _ _
  replace hn : n > 0 := (BitVec.pos_iff_ne_zero n).2 hn
  obtain rfl := Sum.inr.inj h
  set t := k.activeTask with ht
  set k₁ := k.updTask t fun x => { x with taskState := .sleep } with hk1
  have hself1 : k₁.tasks t = { k.tasks t with taskState := .sleep } := updTask_tasks_self _ _ _
  have hself : ((k₁.tickListInsert t n).readyListRm t).tasks t = { k₁.tasks t with
      tickMatch := k₁.tickCount + n, tickRemain := n, tickHead := true } := by
    rw [readyListRm_tasks, tickListInsert_tasks_self' _ _ hn]
  have hfields := ((sameFields_updTask k t fun x => { x with taskState := .sleep }).trans
    (sameFields_tickListInsert k₁ t n)).trans
      (SameButReady.sameFields _ t (same_readyListRm (k₁.tickListInsert t n) t))
  have htick : OnTick t n k ((k₁.tickListInsert t n).readyListRm t) := by
    refine ⟨hn, ?_, ?_, ?_⟩
    · rw [hself]
    · rw [hself]
      rfl
    · rw [readyListRm_tickHead]
      refine tickListInsert_congr hn rfl rfl fun u => ?_
      by_cases hu : u = t
      · rw [hu, hself1]
      · rw [hk1, updTask_tasks_ne _ _ _ _ hu]
  have hstate : (((k₁.tickListInsert t n).readyListRm t).tasks t).taskState = .sleep := by
    rw [hself, hself1]
  refine ⟨.park (hfields.frame ?_ ?_ ?_) hs (.inl hstate) ?_ (.inl ⟨n, htick⟩) ?_, htick, hstate⟩
  any_goals rw [hself, hself1]
  refine readyListRm_congr (tickListInsert_readyQueue k₁ t n) ?_ (hfields.priMax ▸ ?_)
  · rw [tickListInsert_tasks_self' _ _ hn, hself1]
  · rw [readyListRm_priMax]

theorem move_pendToBlkObj (hs : (k.tasks t).taskState = .rdy) (o : ObjId) (n : BitVec w) :
    Move t k (k.pendToBlkObj o t n) ∧
      (n > 0 → n ≠ BitVec.allOnes w → OnTick t n k (k.pendToBlkObj o t n)) ∧
      (n = BitVec.allOnes w → SameTick t k (k.pendToBlkObj o t n)) ∧
      ((k.pendToBlkObj o t n).tasks t).taskState = .pend := by
  set k₁ := k.updTask t fun x => { x with blkObj := some o } with hk1
  set k2 := if n ≠ BitVec.allOnes w then k₁.tickListInsert t n else k₁ with hk2
  set k3 := (k2.updTask t fun x => { x with taskState := .pend }).readyListRm t with hk3
  have hk' : ∃ g : List TaskId → List TaskId,
      k.pendToBlkObj o t n = k3.updObj o fun b => { b with blkList := g b.blkList } := by
    by_cases hp : (k3.objs o).blkPolicy = .fifo
    · exact ⟨fun l => l ++ [t], if_pos hp⟩
    · exact ⟨insertBefore (fun x => (k3.tasks x).prio > (k3.tasks t).prio) t, if_neg hp⟩
  obtain ⟨g, hk'⟩ := hk'
  rw [hk']
  set f : BlkObj → BlkObj := fun b => { b with blkList := g b.blkList }
  have hself1 : k₁.tasks t = { k.tasks t with blkObj := some o } := updTask_tasks_self _ _ _
  have hmatch : ∀ u, (k₁.tasks u).tickMatch = (k.tasks u).tickMatch := fun u => by
    by_cases hu : u = t
    · rw [hu, hself1]
    · rw [hk1, updTask_tasks_ne _ _ _ _ hu]
  have hfields2 : SameFields t k k2 := by
    refine (sameFields_updTask k t fun x => { x with blkObj := some o }).trans ?_
    rw [hk2]
    split
    · exact sameFields_tickListInsert k₁ t n
    · exact .refl t k₁
  have hq2 : k2.readyQueue = k.readyQueue := by
    rw [hk2]
    split
    · exact tickListInsert_readyQueue k₁ t n
    · rfl
  -- the fields of the task that the tick list leaves
  have hself2 : (k2.tasks t).mutexList = (k.tasks t).mutexList ∧
      (k2.tasks t).bPrio = (k.tasks t).bPrio ∧
      (k2.tasks t).mmAllocFlag = (k.tasks t).mmAllocFlag ∧ (k2.tasks t).prio = (k.tasks t).prio := by
    rw [hk2]
    split
    · by_cases hn : n > 0
      · rw [tickListInsert_tasks_self' _ _ hn, hself1]
        exact ⟨rfl, rfl, rfl, rfl⟩
      · rw [tickListInsert_zero _ _ hn, hself1]
        exact ⟨rfl, rfl, rfl, rfl⟩
    · rw [hself1]
      exact ⟨rfl, rfl, rfl, rfl⟩
  have hself3 : k3.tasks t = { k2.tasks t with taskState := .pend } := by
    rw [hk3, readyListRm_tasks, updTask_tasks_self]
  have hlist3 : k3.tickHead = k2.tickHead := by
    rw [hk3, readyListRm_tickHead, updTask_tickHead]
  have hfields3 : SameFields t k k3 := (hfields2.trans (sameFields_updTask k2 t fun x =>
    { x with taskState := .pend })).trans (SameButReady.sameFields _ t (same_readyListRm _ t))
  have hfields : SameFields t k (k3.updObj o f) := by
    refine hfields3.trans ⟨fun _ _ => rfl, rfl, fun o' => ?_, rfl, rfl, rfl⟩
    rw [updObj_objs]
    split
    · rename_i he
      rw [he]
      exact ⟨rfl, rfl⟩
    · exact ⟨rfl, rfl⟩
  have hq : (k3.updObj o f).readyQueue = (k.readyListRm t).readyQueue := by
    refine readyListRm_congr hq2 ?_ hfields2.priMax
    rw [updTask_tasks_self]
    exact hself2.2.2.2
  have hon : n > 0 → n ≠ BitVec.allOnes w → OnTick t n k (k3.updObj o f) := by
    intro hn hne
    rw [if_pos hne] at hk2
    refine ⟨hn, ?_, ?_, ?_⟩
    · rw [updObj_tasks, hself3, hk2, tickListInsert_tasks_self' _ _ hn]
    · rw [updObj_tasks, hself3, hk2, tickListInsert_tasks_self' _ _ hn]
      rfl
    · rw [updObj_tickHead, hlist3, hk2]
      exact tickListInsert_congr hn rfl rfl hmatch
  have hsame : ¬ (n > 0 ∧ n ≠ BitVec.allOnes w) → SameTick t k (k3.updObj o f) := by
    intro hn
    have hk : k2 = k₁ := by
      rw [hk2]
      split
      · rename_i hne
        exact tickListInsert_zero _ _ fun hp => hn ⟨hp, hne⟩
      · rfl
    refine ⟨?_, ?_, ?_⟩
    · rw [updObj_tasks, hself3, hk, hself1]
    · rw [updObj_tasks, hself3, hk, hself1]
    · rw [updObj_tickHead, hlist3, hk, hk1, updTask_tickHead]
  have hstate : ((k3.updObj o f).tasks t).taskState = .pend := by rw [updObj_tasks, hself3]
  refine ⟨.park (hfields.frame ?_ ?_ ?_) hs (.inr hstate) ?_ ?_ hq, hon,
    fun he => hsame fun h => h.2 he, hstate⟩
  · rw [updObj_tasks, hself3]
    exact hself2.1
  · rw [updObj_tasks, hself3]
    exact hself2.2.1
  · rw [updObj_tasks, hself3]
    exact hself2.2.2.1
  · rw [updObj_tasks, hself3]
    exact hself2.2.2.2
  · by_cases h : n > 0 ∧ n ≠ BitVec.allOnes w
    · exact .inl ⟨n, hon h.1 h.2⟩
    · exact .inr (hsame h)

end Kernel

end Rhino
