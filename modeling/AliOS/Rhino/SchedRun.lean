/-
  The scheduler's lists in every run of the kernel.

  Whatever the tasks and the interrupts do, the ready lists hold the ready
  tasks, the pend lists the tasks that wait, and the tick list those with a
  deadline; `core_sched` switches to a ready task of the highest priority.
-/
import AliOS.Rhino.SchedOps
import AliOS.Rhino.TickRun
import Mathlib.Data.List.Rotate

namespace Rhino

open Lib

variable {w : ℕ} {s s' : Sched w} {k k' : Kernel w} {a : KAct w} {t i : TaskId}

theorem SchedInv.headToTail (h : SchedInv i k) : SchedInv i (k.readyListHeadToTail t) := by
  set p := (k.tasks t).prio with hp
  have hlist : ∀ q, ((k.readyListHeadToTail t).readyQueue.curListItem q).Perm
      (k.readyQueue.curListItem q) := by
    intro q
    unfold Kernel.readyListHeadToTail
    dsimp only
    rw [Function.update_apply]
    split
    · rename_i hq
      rw [hq]
      exact List.rotate_perm _ _
    · exact .refl _
  have hnil : ∀ q, (k.readyListHeadToTail t).readyQueue.curListItem q = [] ↔
      k.readyQueue.curListItem q = [] := fun q => by
    rw [← List.length_eq_zero_iff, (hlist q).length_eq, List.length_eq_zero_iff]
  refine ⟨⟨fun q u => ?_, fun q => ?_, ⟨fun q => ?_, ?_, fun q hq => ?_⟩⟩,
    h.idle.rdy, h.idle.prio, h.idle.pos, h.idle.owner⟩
  · rw [(hlist q).mem_iff]
    exact h.ready.mem q u
  · rw [(hlist q).nodup_iff]
    exact h.ready.nodup q
  · rw [ne_eq, hnil]
    exact h.ready.queue.bit q
  · rw [ne_eq, hnil]
    exact h.ready.queue.ready
  · rw [hnil]
    exact h.ready.queue.least q hq

theorem SchedInv.create (h : SchedInv i s.k) {prio ticks : ℕ} {autorun : Bool} {flag : AllocFlag}
    (hnew : (s.k.tasks t).taskState = .seed ∨ (s.k.tasks t).taskState = .deleted) :
    SchedInv i (taskCreate s t prio ticks autorun flag).2.k := by
  rcases taskCreate_k s t prio ticks autorun flag with he | ⟨-, -, he⟩
  · rw [he]
    exact h
  have hst : (s.k.tasks t).taskState ≠ .rdy := by
    rcases hnew with hn | hn <;> simp [hn]
  have ht : i ≠ t := (h.idle.ne_of_state hst).symm
  set k₁ := s.k.updTask t fun _ => newTask w prio autorun flag with hk1
  have hne : ∀ u ≠ t, k₁.tasks u = s.k.tasks u := fun u hu => Kernel.updTask_tasks_ne _ _ _ _ hu
  have hself : k₁.tasks t = newTask w prio autorun flag := Kernel.updTask_tasks_self _ _ _
  have hidle : IdleReady i k₁ :=
    ⟨(hne i ht).symm ▸ h.idle.rdy, (hne i ht).symm ▸ h.idle.prio, h.idle.pos, h.idle.owner⟩
  rw [he]
  cases autorun with
  | true =>
    have hr := Kernel.same_readyListAddTail k₁ t
    refine ⟨h.ready.enter (t := t) (fun u hu => ?_) hst ?_ ?_, ?_, ?_, ?_, ?_⟩
    · rw [if_pos rfl, hr.tasks, hne u hu]
    · rw [if_pos rfl, hr.tasks, hself]
      rfl
    · rw [if_pos rfl, hr.tasks]
      exact Kernel.enters_readyListAddTail (k := k₁)
    · rw [if_pos rfl, hr.tasks]
      exact hidle.rdy
    · rw [if_pos rfl, hr.tasks, Kernel.idlePri, hr.priMax]
      exact hidle.prio
    · rw [if_pos rfl, hr.priMax]
      exact hidle.pos
    · rw [if_pos rfl, hr.mutexes]
      exact hidle.owner
  | false =>
    rw [if_neg (by decide)]
    refine ⟨h.ready.congr rfl (fun u => ?_) fun u hu => ?_, hidle⟩
    all_goals by_cases hut : u = t
    · rw [hut, hself]
      exact ⟨fun hn => absurd hn (by simp [newTask]), fun hn => absurd hn hst⟩
    · rw [hne u hut]
    · exact absurd (hut ▸ hu) hst
    · rw [hne u hut]

theorem Kernel.runs.ne_idle (h : SchedInv i k) (hr : k.runs) : k.activeTask ≠ i :=
  h.idle.ne_of_prio hr.2

theorem KStep.schedInv (hk : PendWf s.k) (h : SchedInv i s.k) (hs : KStep s a s') :
    SchedInv i s'.k := by
  cases hs with
  | tick ht =>
    unfold Kernel.tickListUpdate at ht
    set k₁ : Kernel w := { s.k with tickCount := s.k.tickCount + 1 }
    have h1 : SchedInv i k₁ := h.congr rfl rfl rfl rfl
    exact h1.movesBut (Kernel.but_tickLoop h1.idle ht)
  | @timeSlice pri =>
    rcases Kernel.timeSliceUpdate_k s pri with he | ⟨t, -, he⟩
    · rw [he]
      exact h
    · rw [he]
      exact h.headToTail
  | sliceSet =>
    rw [krhinoTaskTimeSliceSet_k]
    exact h
  | policySet =>
    rw [krhinoSchedPolicySet_k]
    exact h
  | create hnew => exact h.create hnew
  | sleep hr hsl => exact h.move (Kernel.move_sleep hr.1 hsl).1 (hr.ne_idle h)
  | yield => exact h.headToTail
  | suspend => exact h.movesBut (Kernel.but_krhinoTaskSuspend h.idle)
  | resume => exact h.movesBut (Kernel.but_krhinoTaskResume h.idle)
  | waitAbort hr => exact h.movesBut (Kernel.but_krhinoTaskWaitAbort h.idle hr)
  | @priChange t pri fuel r hr =>
    rcases Kernel.but_krhinoTaskPriChange h.idle hr with he | hm
    · dsimp only
      rw [he]
      exact h
    · have hl := sameButLocks_updTask s.k t (fun x => { x with bPrio := pri }) fun _ => rfl
      exact (h.locks hl fun _ he => he).movesBut hm
  | del hr => exact Kernel.sched_krhinoTaskDel hk h hr
  | dynDel hr => exact Kernel.sched_krhinoTaskDynDel hk h hr
  | wait hr ho hn => exact h.move (Kernel.move_pendToBlkObj hr.1 _ _).1 (hr.ne_idle h)
  | wake ht ho => exact h.movesBut (Kernel.but_pendTaskWakeup h.idle ht.1).1
  | remove ht ho => exact h.movesBut (Kernel.but_pendTaskWakeup h.idle ht.1).2
  | object => exact h.congr rfl rfl rfl rfl
  | @mutexCreate m flag ho hl =>
    have h1 : SchedInv i (s.k.updMutex m fun x =>
        { x with mutexTask := none, mutexList := none, mmAllocFlag := flag }) := by
      refine h.locks (sameButLocks_updMutex s.k m _) fun m' he => ?_
      rw [Kernel.updMutex_mutexes] at he
      split at he
      · cases he
      · exact he
    exact h1.congr rfl rfl rfl rfl
  | mutexDel hr => exact Kernel.sched_mutexDel hk h hr
  | lock hr hl => exact Kernel.sched_krhinoMutexLock h (hr.ne_idle h) hl
  | @lockWait m _ n k hr hl =>
    obtain ⟨owner, k₁, howner, -, -, -, hraise, rfl⟩ := Kernel.lock_blocked hl
    have h1 : SchedInv i k₁ ∧ k₁.activeTask = s.k.activeTask ∧
        (k₁.tasks s.k.activeTask).taskState = .rdy := by
      split at hraise
      · obtain ⟨st, hraise⟩ := hraise
        have hp := Kernel.priSteps_prio.taskPriChange hraise
        refine ⟨h.movesBut
          (Kernel.but_taskPriChange h.idle (h.idle.ne_of_owner howner) hraise), hp.activeTask, ?_⟩
        rw [hp.tasks]
        exact hr.1
      · subst hraise
        exact ⟨h, rfl, hr.1⟩
    rw [h1.2.1]
    exact h1.1.move (Kernel.move_pendToBlkObj h1.2.2 m n).1 (hr.ne_idle h)
  | unlock hr hu => exact Kernel.sched_krhinoMutexUnlock hk h hu
  | schedule =>
    obtain ⟨t, he⟩ := s.k.coreSched_eq
    rw [he]
    exact h.congr rfl rfl rfl rfl
  | interrupts => exact h.congr rfl rfl rfl rfl

theorem schedInv_initSched (w priMax : ℕ) (idle : TaskId) (c : BitVec w) (hp : 0 < priMax) :
    SchedInv idle (initSched w priMax idle c).k := by
  have hlt : priMax - 1 < priMax := by omega
  have hq : (initSched w priMax idle c).k.readyQueue =
      { curListItem := Function.update (fun _ => []) (priMax - 1) [idle]
        taskBitMap := Function.update (fun _ => false) (priMax - 1) true
        highestPri := priMax - 1 } := by
    unfold initSched initKernel Kernel.readyListAddTail Kernel.readyListInit
    simp [Kernel.isReadyListEmpty, runqueueInit, newTask, hlt]
  have ht : ∀ u, (initSched w priMax idle c).k.tasks u = if u = idle then
      newTask w (priMax - 1) true .staticAlloc else
        { newTask w 0 false .staticAlloc with taskState := .seed, suspendCount := 0 } := by
    intro u
    unfold initSched initKernel
    rw [Kernel.readyListAddTail_tasks]
  have hp' : (initSched w priMax idle c).k.priMax = priMax := by
    unfold initSched initKernel
    rw [(Kernel.same_readyListAddTail _ idle).priMax]
  refine ⟨⟨fun q u => ?_, fun q => ?_, ⟨fun q => ?_, ?_, fun q hq' => ?_⟩⟩, ?_, ?_, ?_, fun m => ?_⟩
  · rw [hq, ht]
    dsimp only
    rw [Function.update_apply]
    by_cases hu : u = idle
    · rw [if_pos hu]
      by_cases hqp : q = priMax - 1
      · simp [hqp, hu, newTask]
      · simp [hqp, Ne.symm hqp, newTask]
    · rw [if_neg hu]
      by_cases hqp : q = priMax - 1
      · simp [hqp, hu]
      · simp [hqp]
  · rw [hq]
    dsimp only
    rw [Function.update_apply]
    split <;> simp
  · rw [hq]
    dsimp only
    rw [Function.update_apply, Function.update_apply]
    split <;> simp
  · rw [hq]
    simp
  · rw [hq] at hq' ⊢
    dsimp only at hq' ⊢
    exact Function.update_of_ne hq'.ne _ _
  · rw [ht, if_pos rfl]
    rfl
  · rw [ht, if_pos rfl, Kernel.idlePri, hp']
    rfl
  · rw [hp']
    exact hp
  · unfold initSched initKernel
    rw [Kernel.readyListAddTail_mutexes]
    rintro ⟨⟩

/-! ## Runs -/

/-- The first of the ready list of `highest_pri` is ready, and no ready task has
    a smaller priority. -/
theorem SchedInv.preferred (h : SchedInv i k) : ∃ t, k.preferredCpuReadyTaskGet = some t ∧
    (k.tasks t).taskState = .rdy ∧
    ∀ u, (k.tasks u).taskState = .rdy → (k.tasks t).prio ≤ (k.tasks u).prio := by
  obtain ⟨t, ts, hl⟩ := List.exists_cons_of_ne_nil h.ready.queue.ready
  obtain ⟨hr, hp⟩ := (h.ready.mem _ t).1 (hl ▸ List.mem_cons_self)
  refine ⟨t, ?_, hr, fun u hu => ?_⟩
  · unfold Kernel.preferredCpuReadyTaskGet
    rw [hl]
    rfl
  · rw [hp]
    by_contra hlt
    have hm := (h.ready.mem (k.tasks u).prio u).2 ⟨hu, rfl⟩
    rw [h.ready.queue.least _ (not_le.1 hlt)] at hm
    cases hm

theorem Runqueue.Wf.isLeast {rq : Runqueue} (h : rq.Wf) :
    IsLeast {p | rq.curListItem p ≠ []} rq.highestPri := by
  refine ⟨h.ready, fun p hp => ?_⟩
  by_contra hlt
  exact hp (h.least p (not_le.1 hlt))

/-- **The scheduler's lists.**  In every state reachable from `krhino_init`, with
    a lowest priority for the idle task: the ready list of a priority holds the
    ready tasks of that priority, once; the bit map has the bits of the lists
    that are not empty, and `highest_pri` is the least of them; the list of an
    object holds the tasks blocked on it, once, and the tick list those whose
    `tick_head` is not NULL, once; and `core_sched`, where it may switch,
    switches to a ready task that no ready task has priority over. -/
theorem scheduler_lists_consistent {idlePri : ℕ} {idle : TaskId} {c : BitVec w}
    {as : List (KAct w)} (h : Run KStep (initSched w (idlePri + 1) idle c) as s) :
    (∀ p t, t ∈ s.k.readyQueue.curListItem p ↔
      (s.k.tasks t).taskState = .rdy ∧ (s.k.tasks t).prio = p) ∧
    (∀ p, (s.k.readyQueue.curListItem p).Nodup) ∧
    (∀ p, s.k.readyQueue.taskBitMap p = true ↔ s.k.readyQueue.curListItem p ≠ []) ∧
    IsLeast {p | s.k.readyQueue.curListItem p ≠ []} s.k.readyQueue.highestPri ∧
    (∀ o t, t ∈ (s.k.objs o).blkList ↔ ((s.k.tasks t).taskState = .pend ∨
      (s.k.tasks t).taskState = .pendSuspended) ∧ (s.k.tasks t).blkObj = some o) ∧
    (∀ o, (s.k.objs o).blkList.Nodup) ∧
    (∀ t, t ∈ s.k.tickHead ↔ (s.k.tasks t).tickHead = true) ∧ s.k.tickHead.Nodup ∧
    ∃ t, s.k.preferredCpuReadyTaskGet = some t ∧ (s.k.tasks t).taskState = .rdy ∧
      (∀ u, (s.k.tasks u).taskState = .rdy → (s.k.tasks t).prio ≤ (s.k.tasks u).prio) ∧
      (s.k.intrptNestedLevel = 0 → s.k.schedLock = 0 →
        s.k.coreSched = { s.k with activeTask := t }) := by
  obtain ⟨hw, hs⟩ : WaitInv s ∧ SchedInv idle s.k := by
    refine h.keeps (I := fun s => WaitInv s ∧ SchedInv idle s.k)
      (fun hs h => ⟨h.waitInv hs.1, h.schedInv hs.1.pend hs.2⟩) ⟨?_, ?_⟩
    · exact waitInv_initSched w (idlePri + 1) idle c
    · exact schedInv_initSched w (idlePri + 1) idle c (Nat.succ_pos idlePri)
  obtain ⟨t, hget, hrdy, hleast⟩ := hs.preferred
  refine ⟨hs.ready.mem, hs.ready.nodup, hs.ready.queue.bit, hs.ready.queue.isLeast,
    hw.pend.mem, hw.pend.nodup, hw.tick.wf.mem, hw.tick.wf.nodup, t, hget, hrdy, hleast, ?_⟩
  intro hi hl
  unfold Kernel.coreSched
  rw [if_neg (by omega), if_neg (by omega), hget]

theorem scheduler_lists_consistent_oneTask :
    1 ∈ oneTask.k.readyQueue.curListItem 1 ∧ oneTask.k.readyQueue.highestPri = 1 := by
  have h : Run KStep (initSched 32 (3 + 1) 0 0) [.create 1 1 true, .schedule] oneTask := run_oneTask
  obtain ⟨hmem, -, -, hleast, -⟩ := scheduler_lists_consistent h
  exact ⟨(hmem 1 1).2 ⟨rfl, rfl⟩, rfl⟩

end Rhino
