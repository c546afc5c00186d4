/-
  Which tasks an operation takes off the tick list.

  `TickRel P k k'`: the operation enters no task, and those it takes off are in
  `P`; the tasks that stay keep their deadlines.  A tick takes off the tasks
  that its test finds due, as long as it finds them so from the front of the
  list on (`tickRel_tickLoop`).
-/
import AliOS.Rhino.TickWf

namespace Rhino

open Lib

variable {w : ℕ} {k k' k₁ : Kernel w} {t u : TaskId} {o m : ObjId} {fuel : ℕ}
  {P Q : TaskId → Prop}

structure TickRel (P : TaskId → Prop) (k k' : Kernel w) : Prop where
  count : k'.tickCount = k.tickCount
  stays : ∀ u, (k'.tasks u).tickHead = true →
    (k.tasks u).tickHead = true ∧ (k'.tasks u).tickMatch = (k.tasks u).tickMatch
  leaves : ∀ u, (k.tasks u).tickHead = true → (k'.tasks u).tickHead = true ∨ P u

namespace TickRel

theorem refl (k : Kernel w) : TickRel P k k := ⟨rfl, fun _ h => ⟨h, rfl⟩, fun _ h => .inl h⟩

theorem trans (h1 : TickRel P k k₁) (h2 : TickRel P k₁ k') : TickRel P k k' := by
  refine ⟨h2.count.trans h1.count, fun u hu => ?_, fun u hu => ?_⟩
  · obtain ⟨hu1, hm1⟩ := h2.stays u hu
    obtain ⟨hu2, hm2⟩ := h1.stays u hu1
    exact ⟨hu2, hm1.trans hm2⟩
  · rcases h1.leaves u hu with hu1 | hp
    · exact h2.leaves u hu1
    · exact .inr hp

theorem mono (h : TickRel P k k') (hPQ : ∀ u, P u → Q u) : TickRel Q k k' :=
  ⟨h.count, h.stays, fun u hu => (h.leaves u hu).imp_right (hPQ u)⟩

theorem of_fields (hc : k'.tickCount = k.tickCount)
    (hf : ∀ u, (k'.tasks u).tickHead = (k.tasks u).tickHead ∧
      (k'.tasks u).tickMatch = (k.tasks u).tickMatch) : TickRel P k k' :=
  ⟨hc, fun u hu => ⟨(hf u).1 ▸ hu, (hf u).2⟩, fun u hu => .inl ((hf u).1.symm ▸ hu)⟩

theorem of_tasks (hc : k'.tickCount = k.tickCount) (ht : k'.tasks = k.tasks) : TickRel P k k' :=
  of_fields hc fun u => by
    rw [ht]
    exact ⟨rfl, rfl⟩

theorem of_same (h : SameTicks k k') : TickRel P k k' :=
  of_fields h.count fun u => ⟨h.flag u, h.tickMatch u⟩

theorem updTask {f : Task w → Task w} (h1 : ∀ x, (f x).tickHead = x.tickHead)
    (h2 : ∀ x, (f x).tickMatch = x.tickMatch) : TickRel P k (k.updTask t f) := by
  refine of_fields rfl fun u => ?_
  rw [Kernel.updTask_tasks]
  split
  · rename_i hu
    rw [hu]
    exact ⟨h1 _, h2 _⟩
  · exact ⟨rfl, rfl⟩

theorem of_ready (h : Kernel.SameButReady k k') : TickRel P k k' := of_tasks h.tickCount h.tasks

theorem off (hc : k'.tickCount = k.tickCount) (hne : ∀ u ≠ t, k'.tasks u = k.tasks u)
    (hf : (k'.tasks t).tickHead = false) (hP : P t) : TickRel P k k' := by
  refine ⟨hc, fun u hu => ?_, fun u hu => ?_⟩
  · have hut : u ≠ t := by
      rintro rfl
      rw [hf] at hu
      cases hu
    rw [hne u hut] at hu ⊢
    exact ⟨hu, rfl⟩
  · by_cases hut : u = t
    · exact .inr (hut ▸ hP)
    · rw [hne u hut]
      exact .inl hu

end TickRel

/-! ## Priorities -/

theorem SameTicks.refl (k : Kernel w) : SameTicks k k :=
  ⟨rfl, rfl, fun _ => rfl, fun _ => rfl, fun _ _ => rfl⟩

theorem SameTicks.trans (h1 : SameTicks k k₁) (h2 : SameTicks k₁ k') : SameTicks k k' := by
  refine ⟨h2.list.trans h1.list, h2.count.trans h1.count, fun u => (h2.flag u).trans (h1.flag u),
    fun u => (h2.tickMatch u).trans (h1.tickMatch u), fun u hu => ?_⟩
  rw [h2.state u (h1.flag u ▸ hu), h1.state u hu]

namespace Kernel

theorem SameButPrio.sameTicks (h : SameButPrio k k') : SameTicks k k' := by
  refine ⟨h.tickHead, h.tickCount, fun u => ?_, fun u => ?_, fun u _ => ?_⟩
  all_goals rw [h.tasks u]

theorem sameTicks_krhinoTaskPriChange {pri : ℕ} {r : KStat × Kernel w}
    (h : k.krhinoTaskPriChange fuel t pri = some r) : SameTicks k r.2 := by
  unfold krhinoTaskPriChange at h
  split at h
  · cases h
    exact .refl k
  split at h
  · cases h
    exact .refl k
  split at h
  · cases h
    exact .refl k
  split at h
  · cases h
    exact .refl k
  split at h
  · cases h
  · have hl := sameButLocks_updTask k t (fun x => { x with bPrio := pri }) fun _ => rfl
    exact hl.sameTicks.trans (priSteps_prio.taskPriChange h).sameTicks

theorem sameTicks_mutexRelease {rel : Option ObjId} (h : k.mutexRelease fuel t rel = some k') :
    SameTicks k k' := by
  unfold mutexRelease at h
  split at h
  · cases h
  · rename_i hlook
    have hl := (sameButLocks_mutexPriLook hlook).sameTicks
    split at h
    · obtain ⟨r, hr, rfl⟩ := Option.map_eq_some_iff.1 h
      exact hl.trans (priSteps_prio.taskPriChange hr).sameTicks
    · cases h
      exact hl

/-! ## Suspend and resume -/

theorem tickRel_krhinoTaskSuspend : TickRel P k (k.krhinoTaskSuspend t).2 := by
  unfold krhinoTaskSuspend taskSuspend
  split
  · exact .refl k
  split
  · exact .refl k
  split
  · refine TickRel.trans (TickRel.updTask (t := t) (f := fun x =>
      { x with suspendCount := 1, taskState := .suspended }) (by simp) (by simp)) ?_
    exact .of_ready (same_readyListRm _ t)
  · exact .updTask (f := fun x => { x with suspendCount := 1, taskState := .sleepSuspended })
      (fun _ => rfl) fun _ => rfl
  · exact .updTask (f := fun x => { x with suspendCount := 1, taskState := .pendSuspended })
      (fun _ => rfl) fun _ => rfl
  iterate 3
    · split
      · exact .refl k
      · exact .updTask (f := fun x => { x with suspendCount := x.suspendCount + 1 })
          (fun _ => rfl) fun _ => rfl
  · exact .refl k

theorem tickRel_resumeTo {st : TaskStat} : TickRel P k (k.resumeTo t st) := by
  unfold resumeTo
  have h : TickRel P k (k.updTask t fun x => { x with suspendCount := x.suspendCount - 1 }) :=
    .updTask (fun _ => rfl) fun _ => rfl
  dsimp only
  split
  · exact h.trans (.updTask (fun _ => rfl) fun _ => rfl)
  · exact h

theorem tickRel_krhinoTaskResume : TickRel P k (k.krhinoTaskResume t).2 := by
  unfold krhinoTaskResume
  split
  · exact .refl k
  · exact .refl k
  · exact .refl k
  · dsimp only
    split
    · exact tickRel_resumeTo.trans (.of_ready (same_readyListAdd _ t))
    · exact tickRel_resumeTo
  · exact tickRel_resumeTo
  · exact tickRel_resumeTo
  · exact .refl k

/-! ## Ends of waits -/

theorem tickRel_endWait {bs : BlkState} {st : TaskStat} {ready : Bool} (hP : P t)
    (h : k.endWait fuel t bs st ready = some k') :
    TickRel P k k' ∧ (k'.tasks t).tickHead = false := by
  unfold endWait at h
  obtain ⟨k2, h2, rfl⟩ := Option.map_eq_some_iff.1 h
  set k₁ := (if ready = true then ((k.tickListRm t).blkListRm t).readyListAdd t
    else (k.tickListRm t).blkListRm t).updTask t fun x =>
      { x with blkState := bs, taskState := st } with hk1
  have hr : SameButReady ((k.tickListRm t).blkListRm t) (if ready = true then
      ((k.tickListRm t).blkListRm t).readyListAdd t else (k.tickListRm t).blkListRm t) := by
    split
    · exact same_readyListAdd _ t
    · exact ⟨rfl, rfl, rfl, rfl, rfl, rfl, rfl, rfl, rfl⟩
  have hc : k₁.tickCount = k.tickCount := by
    rw [hk1, updTask_tickCount, hr.tickCount, (blkListRm_same _ t).2.1, (tickListRm_same k t).2.1]
  have hne : ∀ u ≠ t, k₁.tasks u = k.tasks u := fun u hu => by
    rw [hk1, updTask_tasks_ne _ _ _ _ hu, hr.tasks, blkListRm_tasks, tickListRm_ne k hu]
  have hf : (k₁.tasks t).tickHead = false := by
    rw [hk1, updTask_tasks_self, hr.tasks, blkListRm_tasks, tickListRm_self]
  have hs := (priSteps_prio.mutexTaskPriReset h2).sameTicks
  have h1 : TickRel P k k₁ := .off hc hne hf hP
  refine ⟨(h1.trans (.of_same hs)).trans (.updTask (fun _ => rfl) fun _ => rfl), ?_⟩
  rw [updTask_tasks_self]
  exact (hs.flag t).trans hf

theorem tickRel_pendTaskWakeup (hP : P t) :
    TickRel P k (k.pendTaskWakeup t) ∧ TickRel P k (k.pendTaskRm t) := by
  have hleave : (k.pendLeave t).tickCount = k.tickCount ∧
      ∀ u ≠ t, (k.pendLeave t).tasks u = k.tasks u := by
    unfold pendLeave
    split
    · refine ⟨?_, fun u hu => ?_⟩
      · rw [updTask_tickCount, readyListAdd_tickCount, (blkListRm_same k t).2.1]
      · rw [updTask_tasks_ne _ _ _ _ hu, readyListAdd_tasks, blkListRm_tasks]
    · refine ⟨?_, fun u hu => ?_⟩
      · rw [updTask_tickCount, (blkListRm_same k t).2.1]
      · rw [updTask_tasks_ne _ _ _ _ hu, blkListRm_tasks]
    · exact ⟨rfl, fun _ _ => rfl⟩
  have h : ∀ bs, TickRel P k (((k.pendLeave t).tickListRm t).updTask t fun x =>
      { x with blkState := bs, blkObj := none }) := fun bs => by
    refine .off ?_ (fun u hu => ?_) ?_ hP
    · rw [updTask_tickCount, (tickListRm_same _ t).2.1, hleave.1]
    · rw [updTask_tasks_ne _ _ _ _ hu, tickListRm_ne _ hu, hleave.2 u hu]
    · rw [updTask_tasks_self, tickListRm_self]
  exact ⟨h .finish, h .del⟩

theorem tickRel_krhinoTaskWaitAbort {r : KStat × Kernel w} (hP : P t)
    (h : k.krhinoTaskWaitAbort fuel t = some r) : TickRel P k r.2 := by
  unfold krhinoTaskWaitAbort at h
  split at h
  · cases h
    exact .refl k
  split at h
  · cases h
    exact .refl k
  · cases h
    have h1 : TickRel P k (k.updTask t fun x => { x with taskState := .rdy }) :=
      .updTask (fun _ => rfl) fun _ => rfl
    exact h1.trans (.of_ready (same_readyListAdd _ t))
  iterate 2
    · rename_i hst
      cases h
      refine .off ?_ (fun u hu => ?_) ?_ hP
      · rw [updTask_tickCount, readyListAdd_tickCount, (tickListRm_same k t).2.1]
      · rw [updTask_tasks_ne _ _ _ _ hu, readyListAdd_tasks, tickListRm_ne k hu]
      · rw [updTask_tasks_self, readyListAdd_tasks, tickListRm_self]
  iterate 2
    · obtain ⟨k₁, h1, rfl⟩ := Option.map_eq_some_iff.1 h
      exact (tickRel_endWait hP h1).1
  · cases h
    exact .refl k

/-! ## Deletion -/

theorem tickRel_taskMutexFree {next : Option ObjId} (hk : PendWf k)
    (hP : ∀ u, (k.tasks u).waits → P u) (h : taskMutexFree fuel k next = some k') :
    TickRel P k k' := by
  induction fuel generalizing k next with
  | zero => simp [taskMutexFree] at h
  | succ fuel ih =>
    cases next with
    | none =>
      obtain rfl := Option.some.inj h
      exact .refl k
    | some m =>
      unfold taskMutexFree at h
      split at h
      · rename_i v vs hl
        have hw : (k.tasks v).waits := ((hk.mem m v).1 (by simp [hl])).1
        have hwk := woken_pendTaskWakeup hk hw
        set k₁ := k.pendTaskWakeup v with hk1
        set k2 := k₁.updMutex m fun x =>
          { x with mutexTask := some v, mutexList := (k₁.tasks v).mutexList } with hk2
        set k3 := k2.updTask v fun x => { x with mutexList := some m } with hk3
        have hl3 : SameButLocks k₁ k3 := (sameButLocks_updMutex k₁ m _).trans
          (sameButLocks_updTask k2 v (fun x => { x with mutexList := some m }) fun _ => rfl)
        have hP3 : ∀ u, (k3.tasks u).waits → P u := fun u hu => by
          rw [(hl3.sameWait.waits u).1] at hu
          refine hP u ?_
          by_cases huv : u = v
          · exact absurd (huv ▸ hu) hwk.idle.not_waits
          · rwa [← hwk.others u huv]
        have h1 : TickRel P k k₁ := (tickRel_pendTaskWakeup (hP v hw)).1
        exact (h1.trans (.of_same hl3.sameTicks)).trans (ih (hl3.sameWait.wf hwk.wf) hP3 h)
      · have hl := sameButLocks_updMutex k m fun x => { x with mutexTask := none }
        exact (TickRel.of_same hl.sameTicks).trans (ih (hl.sameWait.wf hk) hP h)

theorem tickRel_taskDelState {r : KStat × Kernel w} (hP : P t)
    (h : k.taskDelState fuel t = some r) : TickRel P k r.2 := by
  unfold taskDelState at h
  split at h
  · cases h
    exact TickRel.trans (.of_ready (same_readyListRm k t))
      (.updTask (f := fun x => { x with taskState := .deleted }) (fun _ => rfl) fun _ => rfl)
  · cases h
    exact .updTask (f := fun x => { x with taskState := .deleted }) (fun _ => rfl) fun _ => rfl
  iterate 2
    · cases h
      refine .off ?_ (fun u hu => ?_) ?_ hP
      · rw [updTask_tickCount, (tickListRm_same k t).2.1]
      · rw [updTask_tasks_ne _ _ _ _ hu, tickListRm_ne k hu]
      · rw [updTask_tasks_self, tickListRm_self]
  iterate 2
    · obtain ⟨k2, h2, rfl⟩ := Option.map_eq_some_iff.1 h
      refine TickRel.trans ?_ (.of_same (priSteps_prio.mutexTaskPriReset h2).sameTicks)
      refine .off (t := t) ?_ (fun u hu => ?_) ?_ hP
      · rw [updTask_tickCount, (blkListRm_same _ t).2.1, (tickListRm_same k t).2.1]
      · rw [updTask_tasks_ne _ _ _ _ hu, blkListRm_tasks, tickListRm_ne k hu]
      · rw [updTask_tasks_self, blkListRm_tasks, tickListRm_self]
  · cases h
    exact .refl k

theorem tickRel_krhinoTaskDel {task : Option TaskId} {r : KStat × Kernel w} (hk : PendWf k)
    (hP : ∀ u, u = task.getD k.activeTask ∨ (k.tasks u).waits → P u)
    (h : k.krhinoTaskDel fuel task = some r) : TickRel P k r.2 := by
  unfold krhinoTaskDel at h
  dsimp only at h
  split at h
  · cases h
    exact .refl k
  split at h
  · cases h
    exact .refl k
  split at h
  · cases h
    exact .refl k
  split at h
  · cases h
    exact .refl k
  split at h
  · cases h
  · rename_i k₁ h1
    exact (tickRel_taskMutexFree hk (fun u hu => hP u (.inr hu)) h1).trans
      (tickRel_taskDelState (hP _ (.inl rfl)) h)

theorem tickRel_krhinoSemGive {sem : Sem} {g : GiveResult w} (hk : PendWf k)
    (hP : ∀ u, (k.tasks u).waits → P u) (h : krhinoSemGive fuel k sem = some g) :
    TickRel P k g.k ∧ ∀ u, (g.k.tasks u).waits → (k.tasks u).waits := by
  unfold krhinoSemGive semGive at h
  split at h
  · cases h
    exact ⟨.refl k, fun _ h => h⟩
  split at h
  · split at h
    · cases h
      exact ⟨.refl k, fun _ h => h⟩
    · cases h
      exact ⟨.refl k, fun _ h => h⟩
  · rename_i v vs hl
    cases h
    have hw : (k.tasks v).waits := ((hk.mem sem.blkObj v).1 (by simp [hl])).1
    have hwk := woken_pendTaskWakeup hk hw
    refine ⟨(tickRel_pendTaskWakeup (hP v hw)).1, fun u hu => ?_⟩
    by_cases huv : u = v
    · exact absurd (huv ▸ hu) hwk.idle.not_waits
    · rwa [← hwk.others u huv]

theorem tickRel_krhinoTaskDynDel {resSem : Sem} {task : Option TaskId}
    {r : KStat × Kernel w × Sem} (hk : PendWf k)
    (hP : ∀ u, u = task.getD k.activeTask ∨ (k.tasks u).waits → P u)
    (h : k.krhinoTaskDynDel fuel resSem task = some r) : TickRel P k r.2.1 := by
  unfold krhinoTaskDynDel at h
  dsimp only at h
  split at h
  · cases h
    exact .refl k
  split at h
  · cases h
    exact .refl k
  split at h
  · cases h
    exact .refl k
  split at h
  · cases h
    exact .refl k
  split at h
  · cases h
    exact .refl k
  obtain ⟨g, hg, h⟩ := Option.bind_eq_some_iff.1 h
  obtain ⟨hgr, hgw⟩ := tickRel_krhinoSemGive hk (fun u hu => hP u (.inr hu)) hg
  split at h
  · cases h
    exact hgr
  · obtain ⟨k₁, h1, h⟩ := Option.bind_eq_some_iff.1 h
    obtain ⟨r', hr', rfl⟩ := Option.map_eq_some_iff.1 h
    exact (hgr.trans (tickRel_taskMutexFree (delPart_krhinoSemGive hk hg).2.1
      (fun u hu => hP u (.inr (hgw u hu))) h1)).trans (tickRel_taskDelState (hP _ (.inl rfl)) hr')

/-! ## The tick -/

theorem tickRel_tickTask (hs : (k.tasks t).taskState.timed) (hP : P t)
    (h : k.tickTask fuel t = some k') : TickRel P k k' ∧ (k'.tasks t).tickHead = false := by
  unfold tickTask at h
  split at h
  · cases h
    set k₁ := k.updTask t fun x => { x with blkState := .finish, taskState := .rdy } with hk1
    have hf : ((((k₁.tickListRm t).readyListAdd t)).tasks t).tickHead = false := by
      rw [readyListAdd_tasks, tickListRm_self]
    refine ⟨.off ?_ (fun u hu => ?_) hf hP, hf⟩
    · rw [readyListAdd_tickCount, (tickListRm_same k₁ t).2.1, hk1, updTask_tickCount]
    · rw [readyListAdd_tasks, tickListRm_ne _ hu, hk1, updTask_tasks_ne _ _ _ _ hu]
  · exact tickRel_endWait hP h
  · exact tickRel_endWait hP h
  · cases h
    set k₁ := k.updTask t fun x => { x with taskState := .suspended, blkState := .finish } with hk1
    have hf : ((k₁.tickListRm t).tasks t).tickHead = false := by rw [tickListRm_self]
    refine ⟨.off ?_ (fun u hu => ?_) hf hP, hf⟩
    · rw [(tickListRm_same k₁ t).2.1, hk1, updTask_tickCount]
    · rw [tickListRm_ne _ hu, hk1, updTask_tasks_ne _ _ _ _ hu]
  · rename_i h1 h2 h3 h4
    rcases hs with hs | hs | hs | hs
    · exact absurd hs h1
    · exact absurd hs h4
    · exact absurd hs h2
    · exact absurd hs h3

theorem takeWhile_congr {p q : TaskId → Bool} {ts : List TaskId} (h : ∀ u ∈ ts, p u = q u) :
    ts.takeWhile p = ts.takeWhile q := by
  induction ts with
  | nil => rfl
  | cons v vs ih =>
    rw [List.takeWhile_cons, List.takeWhile_cons, h v (by simp), ih fun u hu => h u (by simp [hu])]

/-- **The loop of a tick** takes off the tasks that are due from the front on. -/
theorem tickRel_tickLoop {ts : List TaskId} (hk : TickWf k) (hn : ts.Nodup)
    (hf : ∀ u ∈ ts, (k.tasks u).tickHead = true) (h : k.tickLoop fuel ts = some k') :
    TickRel (fun u => u ∈ ts.takeWhile k.due) k k' ∧
      ∀ u ∈ ts.takeWhile k.due, (k'.tasks u).tickHead = false := by
  induction ts generalizing k with
  | nil =>
    obtain rfl := Option.some.inj h
    exact ⟨.refl k, by simp⟩
  | cons t ts ih =>
    obtain ⟨ht, hn⟩ := List.nodup_cons.1 hn
    unfold tickLoop at h
    split at h
    · rename_i hd
      obtain ⟨k₁, h1, h2⟩ := Option.bind_eq_some_iff.1 h
      rw [List.takeWhile_cons_of_pos hd]
      obtain ⟨hr1, hoff⟩ := tickRel_tickTask (P := (· = t)) (hk.timed t (hf t (by simp))) rfl h1
      have hwf1 : TickWf k₁ :=
        (moves_tickTask h1).keeps (fun hk hm => TickWf.move hk hm) hk
      have hf1 : ∀ u ∈ ts, (k₁.tasks u).tickHead = true := fun u hu =>
        (hr1.leaves u (hf u (by simp [hu]))).resolve_right fun he => ht (he ▸ hu)
      -- what is due is so whatever has left before it
      have hdue : ∀ u ∈ ts, k₁.due u = k.due u := fun u hu => by
        unfold due
        rw [(hr1.stays u (hf1 u hu)).2, hr1.count]
      have htake := takeWhile_congr hdue
      obtain ⟨hr2, hoff2⟩ := ih hwf1 hn hf1 h2
      rw [htake] at hr2 hoff2
      refine ⟨(hr1.mono fun u hu => ?_).trans (hr2.mono fun u hu => ?_), fun u hu => ?_⟩
      · simp [hu]
      · exact List.mem_cons_of_mem t hu
      · rcases List.mem_cons.1 hu with rfl | hu
        · by_contra hc
          have := (hr2.stays u (Bool.not_eq_false _ ▸ hc)).1
          rw [hoff] at this
          cases this
        · exact hoff2 u hu
    · rename_i hd
      cases h
      rw [List.takeWhile_cons_of_neg hd]
      exact ⟨.refl _, by simp⟩

end Kernel

end Rhino
