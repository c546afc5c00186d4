/-
  Rhino kernel: what `krhino_task_del` leaves behind when it fails.

  `nest` counts the critical sections that are open.  A deletion frees the
  mutexes of the task before it looks at the state of the task; the chain of a
  task deleted before is the one it had then.
-/
import AliOS.Rhino.TickRun

namespace Rhino

open Lib

variable {w : ℕ}

namespace Kernel

/-- `krhino_task_del` with its critical section; gives the sections still open.
    The return for the idle priority does not close it. -/
def krhinoTaskDelCrit (fuel : ℕ) (k : Kernel w) (nest : ℕ) (task : Option TaskId) :
    Option (KStat × ℕ × Kernel w) :=
  let nest := nest + 1
  if k.intrptNestedLevel > 0 then some (.notCalledByIntrpt, nest - 1, k)
  else
    let t := task.getD k.activeTask
    if (k.tasks t).prio = k.idlePri then some (.taskDelNotAllowed, nest, k)
    else if (k.tasks t).mmAllocFlag ≠ .staticAlloc then some (.kobjDelErr, nest - 1, k)
    else if t = k.activeTask ∧ k.schedLock > 0 then some (.schedDisable, nest - 1, k)
    else match taskMutexFree fuel k (k.tasks t).mutexList with
    | none => none
    | some k => (taskDelState fuel k t).map fun r => (r.1, nest - 1, r.2)

/-- What a failed call must leave as it was: the ready queue, the owners and
    the lists of the mutexes, the wait lists, the states of the tasks, and the
    open critical sections. -/
structure Untouched (k : Kernel w) (nest : ℕ) (k' : Kernel w) (nest' : ℕ) : Prop where
  readyQueue : k'.readyQueue = k.readyQueue
  mutexTask : ∀ m, (k'.mutexes m).mutexTask = (k.mutexes m).mutexTask
  mutexList : ∀ m, (k'.mutexes m).mutexList = (k.mutexes m).mutexList
  heldList : ∀ t, (k'.tasks t).mutexList = (k.tasks t).mutexList
  blkList : ∀ o, (k'.objs o).blkList = (k.objs o).blkList
  taskState : ∀ t, (k'.tasks t).taskState = (k.tasks t).taskState
  nest : nest' = nest

/-- No mutex of the chain is in use: it has no owner, and nobody waits. -/
inductive ChainFree (k : Kernel w) : Option ObjId → Prop where
  | nil : ChainFree k none
  | cons {m : ObjId} (wait : (k.objs m).blkList = []) (owner : (k.mutexes m).mutexTask = none)
      (rest : ChainFree k (k.mutexes m).mutexList) : ChainFree k (some m)

/-- The call gets as far as the mutexes of the task. -/
def DelFrees (k : Kernel w) (t : TaskId) : Prop :=
  k.intrptNestedLevel = 0 ∧ (k.tasks t).prio ≠ k.idlePri ∧ (k.tasks t).mmAllocFlag = .staticAlloc ∧
    ¬ (t = k.activeTask ∧ k.schedLock > 0)

/-- The task is not alive. -/
def Dead (k : Kernel w) (t : TaskId) : Prop :=
  (k.tasks t).taskState = .seed ∨ (k.tasks t).taskState = .deleted

/-- The call does not leave at the idle priority, and a task that is not alive
    has no mutex in use on its chain. -/
def DelSafe (k : Kernel w) (t : TaskId) : Prop :=
  (k.intrptNestedLevel = 0 → (k.tasks t).prio ≠ k.idlePri) ∧
    (k.DelFrees t → k.Dead t → ChainFree k (k.tasks t).mutexList)

variable {k k' k₁ : Kernel w} {t u : TaskId} {o m : ObjId} {fuel nest nest' : ℕ}
  {next : Option ObjId} {r : KStat}

theorem Untouched.refl (k : Kernel w) (nest : ℕ) : Untouched k nest k nest :=
  ⟨rfl, fun _ => rfl, fun _ => rfl, fun _ => rfl, fun _ => rfl, fun _ => rfl, rfl⟩

/-! ## Freeing the mutexes -/

theorem taskMutexFree_chainFree (hc : ChainFree k next) (h : taskMutexFree fuel k next = some k') :
    k' = k := by
  induction hc generalizing fuel with
  | nil =>
    cases fuel with
    | zero => cases h
    | succ fuel =>
      cases h
      rfl
  | @cons m hl ho _ ih =>
    cases fuel with
    | zero => cases h
    | succ fuel =>
      have hsame : k.updMutex m (fun x => { x with mutexTask := none }) = k := by
        unfold updMutex
        rw [← ho, Function.update_eq_self]
      unfold taskMutexFree at h
      simp only [hl, hsame] at h
      exact ih h

theorem pendTaskWakeup_objs (hw : (k.tasks t).waits) :
    (k.pendTaskWakeup t).objs = (k.blkListRm t).objs := by
  unfold pendTaskWakeup pendLeave
  rcases hw with hw | hw <;> simp [hw]

/-- What freeing mutexes leaves of the rest: a task keeps its state, but for
    those that waited, and a mutex that is not in use stays so. -/
structure Freed (k k' : Kernel w) : Prop where
  wf : PendWf k'
  state : ∀ t, (k'.tasks t).taskState = (k.tasks t).taskState ∨
    (k.tasks t).waits ∧ (k'.tasks t).idle
  free : ∀ m, (k.objs m).blkList = [] → (k.mutexes m).mutexTask = none →
    (k'.objs m).blkList = [] ∧ (k'.mutexes m).mutexTask = none

theorem Freed.refl (hk : PendWf k) : Freed k k := ⟨hk, fun _ => .inl rfl, fun _ hl ho => ⟨hl, ho⟩⟩

theorem Freed.idle (h : Freed k k') (ht : (k.tasks t).idle) : (k'.tasks t).idle := by
  rcases h.state t with he | ⟨hw, -⟩
  · unfold Task.idle
    rw [he]
    exact ht
  · exact absurd hw ht.not_waits

theorem Freed.trans (h1 : Freed k k₁) (h2 : Freed k₁ k') : Freed k k' := by
  refine ⟨h2.wf, fun t => ?_, fun m hl ho => ?_⟩
  · rcases h1.state t with he | ⟨hw, hi⟩
    · rcases h2.state t with he' | ⟨hw', hi'⟩
      · exact .inl (he'.trans he)
      · refine .inr ⟨?_, hi'⟩
        unfold Task.waits
        rw [← he]
        exact hw'
    · exact .inr ⟨hw, h2.idle hi⟩
  · obtain ⟨hl1, ho1⟩ := h1.free m hl ho
    exact h2.free m hl1 ho1

theorem freed_pass (hk : PendWf k) (hl : u ∈ (k.objs m).blkList) (next : Option ObjId) :
    Freed k (((k.pendTaskWakeup u).updMutex m fun x =>
      { x with mutexTask := some u, mutexList := next }).updTask u
        fun x => { x with mutexList := some m }) := by
  have hon := (hk.mem m u).1 hl
  have hw := woken_pendTaskWakeup hk hon.1
  set k₁ := k.pendTaskWakeup u
  have h2 := sameButLocks_updMutex k₁ m fun x => { x with mutexTask := some u, mutexList := next }
  have h3 := sameButLocks_updTask (k₁.updMutex m fun x =>
    { x with mutexTask := some u, mutexList := next }) u (fun x => { x with mutexList := some m })
    fun x => rfl
  have hsame : SameWait k₁ _ := h2.sameWait.trans h3.sameWait
  refine ⟨hsame.wf hw.wf, fun t => ?_, fun m' hl' ho' => ?_⟩
  · by_cases ht : t = u
    · subst ht
      refine .inr ⟨hon.1, ?_⟩
      rw [updTask_tasks_self]
      exact hw.idle
    · rw [updTask_tasks_ne _ _ _ _ ht, updMutex_tasks, hw.others t ht]
      exact .inl rfl
  · have hne : m' ≠ m := by
      rintro rfl
      rw [hl'] at hl
      cases hl
    constructor
    · have hsub := PendWf.sublist_blkListRm (k := k) u m'
      rw [hl', List.sublist_nil] at hsub
      change (k₁.objs m').blkList = []
      rw [pendTaskWakeup_objs hon.1]
      exact hsub
    · rw [updTask_mutexes, updMutex_mutexes, if_neg hne, (move_pendTaskWakeup hon.1).frame.mutexes]
      exact ho'

theorem freed_drop (hk : PendWf k) (m : ObjId) :
    Freed k (k.updMutex m fun x => { x with mutexTask := none }) := by
  have h2 := sameButLocks_updMutex k m fun x => { x with mutexTask := none }
  refine ⟨h2.sameWait.wf hk, fun _ => .inl rfl, fun m' hl ho => ⟨hl, ?_⟩⟩
  rw [updMutex_mutexes]
  split_ifs
  · rfl
  · exact ho

theorem freed_taskMutexFree (hk : PendWf k) (h : taskMutexFree fuel k next = some k') :
    Freed k k' := by
  induction fuel generalizing k next with
  | zero => cases h
  | succ fuel ih =>
    cases next with
    | none =>
      cases h
      exact .refl hk
    | some m =>
      unfold taskMutexFree at h
      split at h
      · rename_i u us hl
        have h1 := freed_pass hk (hl ▸ List.mem_cons_self : u ∈ (k.objs m).blkList)
          ((k.pendTaskWakeup u).tasks u).mutexList
        exact h1.trans (ih h1.wf h)
      · have h1 := freed_drop hk m
        exact h1.trans (ih h1.wf h)

/-- **A chain in use** is not left as it is: a task stops waiting, or a mutex
    loses its owner. -/
theorem chainFree_of_untouched (hk : PendWf k) (h : taskMutexFree fuel k next = some k')
    (hs : ∀ t, (k'.tasks t).taskState = (k.tasks t).taskState)
    (ho : ∀ m, (k'.mutexes m).mutexTask = (k.mutexes m).mutexTask) : ChainFree k next := by
  induction fuel generalizing next with
  | zero => cases h
  | succ fuel ih =>
    cases next with
    | none => exact .nil
    | some m =>
      unfold taskMutexFree at h
      split at h
      · rename_i u us hl
        have hmem : u ∈ (k.objs m).blkList := hl ▸ List.mem_cons_self
        have hon := (hk.mem m u).1 hmem
        have h1 := freed_pass hk hmem ((k.pendTaskWakeup u).tasks u).mutexList
        have hi : (k'.tasks u).idle := by
          refine (freed_taskMutexFree h1.wf h).idle ?_
          rw [updTask_tasks_self]
          exact (woken_pendTaskWakeup hk hon.1).idle
        refine absurd hon.1 ?_
        unfold Task.waits
        rw [← hs u]
        exact hi.not_waits
      · rename_i hl
        have h1 := freed_drop hk m
        have hfree : (k.mutexes m).mutexTask = none := by
          rw [← ho m]
          refine ((freed_taskMutexFree h1.wf h).free m hl ?_).2
          rw [updMutex_mutexes, if_pos rfl]
        have hsame : k.updMutex m (fun x => { x with mutexTask := none }) = k := by
          unfold updMutex
          rw [← hfree, Function.update_eq_self]
        rw [hsame] at h
        exact .cons hl hfree (ih h)

/-! ## The call -/

/-- A failed switch on the task state has done nothing: the task is not alive. -/
theorem taskDelState_fails (h : taskDelState fuel k t = some (r, k')) (hr : r ≠ .success) :
    k' = k ∧ k.Dead t := by
  unfold taskDelState at h
  split at h
  · cases h
    exact absurd rfl hr
  · cases h
    exact absurd rfl hr
  · cases h
    exact absurd rfl hr
  · cases h
    exact absurd rfl hr
  · obtain ⟨_, -, he⟩ := Option.map_eq_some_iff.1 h
    cases he
    exact absurd rfl hr
  · obtain ⟨_, -, he⟩ := Option.map_eq_some_iff.1 h
    cases he
    exact absurd rfl hr
  · cases h
    refine ⟨rfl, ?_⟩
    unfold Dead
    cases hs : (k.tasks t).taskState <;> simp_all

theorem Dead.not_idle (h : k.Dead t) : ¬ (k.tasks t).idle := by
  rintro (hi | hi) <;> rcases h with h | h <;> rw [h] at hi <;> cases hi

theorem untouched_iff (hk : PendWf k) {task : Option TaskId}
    (h : krhinoTaskDelCrit fuel k nest task = some (r, nest', k')) (hr : r ≠ .success) :
    Untouched k nest k' nest' ↔ k.DelSafe (task.getD k.activeTask) := by
  unfold krhinoTaskDelCrit at h
  generalize task.getD k.activeTask = t at h ⊢
  by_cases hi : k.intrptNestedLevel > 0
  · rw [if_pos hi] at h
    cases h
    have hne : k.intrptNestedLevel ≠ 0 := Nat.ne_of_gt hi
    exact iff_of_true (.refl k nest) ⟨fun h => absurd h hne, fun h => absurd h.1 hne⟩
  rw [if_neg hi] at h
  have hi0 : k.intrptNestedLevel = 0 := by omega
  by_cases hp : (k.tasks t).prio = k.idlePri
  · rw [if_pos hp] at h
    cases h
    refine iff_of_false (fun hu => ?_) fun hs => hs.1 hi0 hp
    have := hu.nest
    omega
  rw [if_neg hp] at h
  by_cases ha : (k.tasks t).mmAllocFlag ≠ .staticAlloc
  · rw [if_pos ha] at h
    cases h
    exact iff_of_true (.refl k nest) ⟨fun _ => hp, fun h => absurd h.2.2.1 ha⟩
  rw [if_neg ha] at h
  by_cases hl : t = k.activeTask ∧ k.schedLock > 0
  · rw [if_pos hl] at h
    cases h
    exact iff_of_true (.refl k nest) ⟨fun _ => hp, fun h => absurd hl h.2.2.2⟩
  rw [if_neg hl] at h
  have hfrees : k.DelFrees t := ⟨hi0, hp, not_not.1 ha, hl⟩
  split at h
  · cases h
  rename_i k₁ h1
  obtain ⟨⟨st, k2⟩, hst, he⟩ := Option.map_eq_some_iff.1 h
  obtain ⟨rfl, rfl, rfl⟩ : st = r ∧ nest = nest' ∧ k2 = k' := by simpa using he
  obtain ⟨rfl, hdead⟩ := taskDelState_fails hst hr
  have hfreed := freed_taskMutexFree hk h1
  constructor
  · intro hu
    exact ⟨fun _ => hp, fun _ _ => chainFree_of_untouched hk h1 hu.taskState hu.mutexTask⟩
  · intro hs
    -- a task that is not alive behind the freeing was not alive before it
    have hwas : k.Dead t := by
      rcases hfreed.state t with he | ⟨-, hidle⟩
      · unfold Dead
        rw [← he]
        exact hdead
      · exact absurd hidle hdead.not_idle
    obtain rfl := taskMutexFree_chainFree (hs.2 hfrees hwas) h1
    exact .refl _ _

end Kernel

variable {s : Sched w} {k' : Kernel w} {fuel nest nest' : ℕ} {r : KStat}

theorem pendWf_run {priMax : ℕ} {idle : TaskId} {c : BitVec w} {as : List (KAct w)}
    (run : Run KStep (initSched w priMax idle c) as s) : PendWf s.k :=
  run.keeps (I := fun s => PendWf s.k) (fun hk h => h.pendWf hk) (pendWf_initSched w priMax idle c)

/-- **A failed `krhino_task_del`** leaves the kernel as it was exactly when it
    does not leave at the idle priority, and does not come to the mutexes on the
    chain of a task that is not alive while one of them is in use. -/
theorem krhinoTaskDel_untouched_iff {priMax : ℕ} {idle : TaskId} {c : BitVec w}
    {as : List (KAct w)} (run : Run KStep (initSched w priMax idle c) as s) {task : Option TaskId}
    (h : s.k.krhinoTaskDelCrit fuel nest task = some (r, nest', k')) (hr : r ≠ .success) :
    s.k.Untouched nest k' nest' ↔ s.k.DelSafe (task.getD s.k.activeTask) :=
  Kernel.untouched_iff (pendWf_run run) h hr

theorem krhinoTaskDel_untouched_iff_idle : ¬ oneTask.k.Untouched 0 oneTask.k 1 := by
  have h : oneTask.k.krhinoTaskDelCrit 1 0 (some 0) = some (.taskDelNotAllowed, 1, oneTask.k) := rfl
  rw [krhinoTaskDel_untouched_iff run_oneTask h (by decide)]
  exact fun hs => hs.1 rfl rfl

/-- The task 1 has locked the mutex 0 and was deleted. -/
def freedMutex : Sched 32 :=
  let k := (oneTask.k.mutexCreate 0 .staticAlloc).2.mutexGet 1 0
  { oneTask with k := ((k.krhinoTaskDel 2 none).elim k (·.2)).coreSched }

/-- The task 2 has locked the mutex since. -/
def relocked : Sched 32 :=
  let s := (taskCreate freedMutex 2 1 0 true .staticAlloc).2
  { s with k := s.k.coreSched.mutexGet 2 0 }

theorem run_relocked : Run KStep (initSched 32 4 0 0)
    ([.create 1 1 true, .schedule] ++ [.mutexCreate 0, .lock 1 0 .success, .del 1, .schedule,
      .create 2 1 true, .schedule, .lock 2 0 .success]) relocked := by
  refine run_oneTask.append ?_
  refine .cons (@KStep.mutexCreate 32 _ 0 .staticAlloc (by decide) rfl) ?_
  refine .cons (@KStep.lock 32 _ 0 1 0 .success _ (by decide) rfl) ?_
  refine .cons (@KStep.del 32 _ none 2 _ rfl) ?_
  refine .cons .schedule ?_
  refine .cons (@KStep.create 32 _ 2 1 0 true .staticAlloc (.inl rfl)) ?_
  refine .cons .schedule ?_
  exact .single (@KStep.lock 32 _ 0 1 0 .success _ (by decide) rfl)

/-- **Two failed calls** that leave something behind: one on the idle task, with
    its critical section open, and one on a task deleted before, which takes the
    mutex of another task from it. -/
theorem krhinoTaskDel_not_untouched :
    (∃ as, ∃ s : Sched 32, Run KStep (initSched 32 4 0 0) as s ∧
      s.k.krhinoTaskDelCrit 1 0 (some 0) = some (.taskDelNotAllowed, 1, s.k) ∧
      ¬ s.k.Untouched 0 s.k 1) ∧
    ∃ as, ∃ s : Sched 32, Run KStep (initSched 32 4 0 0) as s ∧
      (s.k.mutexes 0).mutexTask = some 2 ∧ ∃ k',
      s.k.krhinoTaskDelCrit 2 0 (some 1) = some (.invTaskState, 0, k') ∧
      (k'.mutexes 0).mutexTask = none ∧ ¬ s.k.Untouched 0 k' 0 := by
  refine ⟨⟨_, _, run_oneTask, rfl, fun hu => absurd hu.nest (by decide)⟩,
    _, _, run_relocked, rfl, _, rfl, rfl, fun hu => ?_⟩
  have := hu.mutexTask 0
  revert this
  decide

end Rhino
