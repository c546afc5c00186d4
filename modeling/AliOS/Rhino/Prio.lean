/-
  Rhino kernel: the priority of a task and of the owners it waits for
  (`task_pri_change` of `k_task.c`, and the priority part of `k_mutex.c`).

  The mutexes a task holds are a chain: the task's `mutex_list`, then each
  mutex's `mutex_list`.  The loops over the chain, and the loop of
  `task_pri_change` from a blocked task to the owner it waits for, run on
  fuel; they give `none` where they have not ended in that many rounds, or
  follow a NULL pointer.
-/
import AliOS.Rhino.Pend

namespace Rhino

variable {w : ℕ}

/-- A `kmutex_t **`: the `mutex_list` of a task or of a mutex. -/
inductive MutexPtr where
  | task (t : TaskId)
  | mutex (m : ObjId)
  deriving DecidableEq, Repr

namespace Kernel

/-- `*prev`. -/
def mutexPtr (k : Kernel w) : MutexPtr → Option ObjId
  | .task t => (k.tasks t).mutexList
  | .mutex m => (k.mutexes m).mutexList

/-- `*prev = m`. -/
def setMutexPtr (k : Kernel w) (p : MutexPtr) (m : Option ObjId) : Kernel w :=
  match p with
  | .task t => k.updTask t fun x => { x with mutexList := m }
  | .mutex m' => k.updMutex m' fun x => { x with mutexList := m }

/-- The loop of `mutex_pri_look`. -/
def mutexPriLookLoop : ℕ → Kernel w → MutexPtr → Option ObjId → ℕ → ℕ → Option (Kernel w × ℕ)
  | 0, _, _, _, _, _ => none
  | fuel + 1, k, prev, mutexRel, newPri, pri =>
    match k.mutexPtr prev with
    | none => some (k, newPri)
    | some m =>
      if mutexRel = some m then
        mutexPriLookLoop fuel (k.setMutexPtr prev (k.mutexes m).mutexList) prev mutexRel newPri pri
      else
        let pri := match (k.objs m).blkList with
          | first :: _ => (k.tasks first).prio
          | [] => pri
        let newPri := if newPri > pri then pri else newPri
        mutexPriLookLoop fuel k (.mutex m) mutexRel newPri pri

/-- `mutex_pri_look`: the priority the task should have; takes `mutexRel` off
    the task's chain. -/
def mutexPriLook (fuel : ℕ) (k : Kernel w) (t : TaskId) (mutexRel : Option ObjId) :
    Option (Kernel w × ℕ) :=
  mutexPriLookLoop fuel k (.task t) mutexRel (k.tasks t).bPrio (k.tasks t).bPrio

/-- The loop of `mutex_pri_limit`. -/
def mutexPriLimitLoop : ℕ → Kernel w → Option ObjId → ℕ → ℕ → Option ℕ
  | 0, _, _, _, _ => none
  | _ + 1, _, none, highPri, _ => some highPri
  | fuel + 1, k, some m, highPri, pri =>
    let pri := match (k.objs m).blkList with
      | first :: _ => (k.tasks first).prio
      | [] => pri
    let highPri := if pri < highPri then pri else highPri
    mutexPriLimitLoop fuel k (k.mutexes m).mutexList highPri pri

def mutexPriLimit (fuel : ℕ) (k : Kernel w) (t : TaskId) (pri : ℕ) : Option ℕ :=
  mutexPriLimitLoop fuel k (k.tasks t).mutexList pri pri

def taskPriChange : ℕ → Kernel w → TaskId → ℕ → Option (KStat × Kernel w)
  | 0, _, _, _ => none
  | fuel + 1, k, t, newPri =>
    if (k.tasks t).prio ≠ newPri then
      match (k.tasks t).taskState with
      | .rdy =>
        let k := (k.readyListRm t).updTask t fun x => { x with prio := newPri }
        some (.success, if t = k.activeTask then k.readyListAddHead t else k.readyListAddTail t)
      | .sleep | .suspended | .sleepSuspended =>
        some (.success, k.updTask t fun x => { x with prio := newPri })
      | .pend | .pendSuspended =>
        let oldPri := (k.tasks t).prio
        let k := (k.updTask t fun x => { x with prio := newPri }).pendListReorder t
        match (k.tasks t).blkObj with
        | none => none
        | some o =>
          if (k.objs o).objType = .mutex then
            match (k.mutexes o).mutexTask with
            | none => none
            | some mutexTask =>
              if (k.tasks mutexTask).prio > (k.tasks t).prio then
                -- the owner inherits the priority of the waiting task
                taskPriChange fuel k mutexTask newPri
              else if (k.tasks mutexTask).prio = oldPri then
                match mutexPriLook fuel k mutexTask none with
                | none => none
                | some (k, newPri) =>
                  if newPri ≠ (k.tasks mutexTask).prio then taskPriChange fuel k mutexTask newPri
                  else some (.success, k)
              else some (.success, k)
          else some (.success, k)
      | _ => some (.invTaskState, k)
    else some (.success, k)

def mutexRelease (fuel : ℕ) (k : Kernel w) (t : TaskId) (mutexRel : Option ObjId) :
    Option (Kernel w) :=
  match mutexPriLook fuel k t mutexRel with
  | none => none
  | some (k, newPri) =>
    if newPri ≠ (k.tasks t).prio then (taskPriChange fuel k t newPri).map (·.2) else some k

def mutexTaskPriReset (fuel : ℕ) (k : Kernel w) (t : TaskId) : Option (Kernel w) :=
  match (k.tasks t).blkObj with
  | none => none
  | some o =>
    if (k.objs o).objType = .mutex then
      match (k.mutexes o).mutexTask with
      | none => none
      | some mutexTask =>
        if (k.tasks mutexTask).prio = (k.tasks t).prio then mutexRelease fuel k mutexTask none
        else some k
    else some k

/-! ## What a change of priority does -/

variable {k k' k₁ : Kernel w} {t : TaskId} {fuel : ℕ}

theorem mutexPriLookLoop_none {prev : MutexPtr} {np p : ℕ} {r : Kernel w × ℕ}
    (h : mutexPriLookLoop fuel k prev none np p = some r) : r.1 = k := by
  induction fuel generalizing prev np p with
  | zero => simp [mutexPriLookLoop] at h
  | succ fuel ih =>
    unfold mutexPriLookLoop at h
    split at h
    · cases h
      rfl
    · rw [if_neg (by simp)] at h
      exact ih h

theorem mutexPriLook_none {r : Kernel w × ℕ} (h : k.mutexPriLook fuel t none = some r) :
    r.1 = k := mutexPriLookLoop_none h

/-- A relation that the single changes of priority are in, and that composes. -/
structure PriSteps (R : Kernel w → Kernel w → Prop) : Prop where
  refl : ∀ k, R k k
  trans : ∀ {k k₁ k'}, R k k₁ → R k₁ k' → R k k'
  ready : ∀ {k : Kernel w} {t : TaskId}, (k.tasks t).taskState = .rdy → ∀ p,
    let k₁ := (k.readyListRm t).updTask t fun x => { x with prio := p }
    R k (if t = k₁.activeTask then k₁.readyListAddHead t else k₁.readyListAddTail t)
  prio : ∀ {k : Kernel w} {t : TaskId}, (k.tasks t).taskState = .sleep ∨
    (k.tasks t).taskState = .suspended ∨ (k.tasks t).taskState = .sleepSuspended → ∀ p,
      R k (k.updTask t fun x => { x with prio := p })
  reorder : ∀ {k : Kernel w} {t : TaskId} {o : ObjId},
    (k.tasks t).taskState = .pend ∨ (k.tasks t).taskState = .pendSuspended →
    (k.tasks t).blkObj = some o → ∀ p,
      R k ((k.updTask t fun x => { x with prio := p }).pendListReorder t)

/-- The same, with a condition on the tasks, which the owners along the chain
    meet as well. -/
structure PriStepsOn (Ok : Kernel w → TaskId → Prop) (R : Kernel w → Kernel w → Prop) : Prop where
  refl : ∀ k, R k k
  trans : ∀ {k k₁ k'}, R k k₁ → R k₁ k' → R k k'
  ready : ∀ {k : Kernel w} {t : TaskId}, Ok k t → (k.tasks t).taskState = .rdy → ∀ p,
    let k₁ := (k.readyListRm t).updTask t fun x => { x with prio := p }
    R k (if t = k₁.activeTask then k₁.readyListAddHead t else k₁.readyListAddTail t)
  prio : ∀ {k : Kernel w} {t : TaskId}, Ok k t → (k.tasks t).taskState = .sleep ∨
    (k.tasks t).taskState = .suspended ∨ (k.tasks t).taskState = .sleepSuspended → ∀ p,
      R k (k.updTask t fun x => { x with prio := p })
  reorder : ∀ {k : Kernel w} {t : TaskId} {o : ObjId}, Ok k t →
    (k.tasks t).taskState = .pend ∨ (k.tasks t).taskState = .pendSuspended →
    (k.tasks t).blkObj = some o → ∀ p,
      R k ((k.updTask t fun x => { x with prio := p }).pendListReorder t)
  owner : ∀ {k : Kernel w} {t u : TaskId} {o : ObjId}, Ok k t → (k.tasks t).blkObj = some o →
    (k.mutexes o).mutexTask = some u → ∀ p,
      Ok ((k.updTask t fun x => { x with prio := p }).pendListReorder t) u

/-- **`task_pri_change`** is a sequence of such changes, along the chain of
    owners. -/
theorem PriStepsOn.taskPriChange {Ok : Kernel w → TaskId → Prop}
    {R : Kernel w → Kernel w → Prop} (hR : PriStepsOn Ok R) {p : ℕ} {r : KStat × Kernel w}
    (ht : Ok k t) (h : k.taskPriChange fuel t p = some r) : R k r.2 := by
  induction fuel generalizing k t p with
  | zero => simp [Kernel.taskPriChange] at h
  | succ fuel ih =>
    unfold Kernel.taskPriChange at h
    by_cases hne : (k.tasks t).prio ≠ p
    · rw [if_pos hne] at h
      split at h
      · rename_i hst
        cases h
        exact hR.ready ht hst p
      · rename_i hst
        cases h
        exact hR.prio ht (by simp [hst]) p
      · rename_i hst
        cases h
        exact hR.prio ht (by simp [hst]) p
      · rename_i hst
        cases h
        exact hR.prio ht (by simp [hst]) p
      all_goals try
        cases h
        exact hR.refl _
      all_goals
        rename_i hst
        simp only [pendListReorder_tasks, updTask_tasks_self, pendListReorder_mutexes,
          updTask_mutexes] at h
        split at h
        · cases h
        · rename_i o ho
          have hr := hR.reorder ht (by simp [hst]) ho p
          split at h
          · split at h
            · cases h
            · rename_i hu
              have hok := hR.owner ht ho hu p
              split at h
              · exact hR.trans hr (ih hok h)
              · split at h
                · split at h
                  · cases h
                  · rename_i hlook
                    obtain rfl := mutexPriLook_none hlook
                    split at h
                    · exact hR.trans hr (ih hok h)
                    · cases h
                      exact hr
                · cases h
                  exact hr
          · cases h
            exact hr
    · rw [if_neg hne] at h
      cases h
      exact hR.refl _

theorem PriSteps.on {R : Kernel w → Kernel w → Prop} (hR : PriSteps R) :
    PriStepsOn (fun _ _ => True) R :=
  ⟨hR.refl, hR.trans, fun _ => hR.ready, fun _ => hR.prio, fun _ => hR.reorder,
    fun _ _ _ _ => trivial⟩

theorem PriSteps.taskPriChange {R : Kernel w → Kernel w → Prop} (hR : PriSteps R) {p : ℕ}
    {r : KStat × Kernel w} (h : k.taskPriChange fuel t p = some r) : R k r.2 :=
  hR.on.taskPriChange trivial h

theorem PriSteps.mutexRelease {R : Kernel w → Kernel w → Prop} (hR : PriSteps R)
    (h : k.mutexRelease fuel t none = some k') : R k k' := by
  unfold Kernel.mutexRelease at h
  split at h
  · cases h
  · rename_i hlook
    obtain rfl := mutexPriLook_none hlook
    split at h
    · obtain ⟨r, hr, rfl⟩ := Option.map_eq_some_iff.1 h
      exact hR.taskPriChange hr
    · cases h
      exact hR.refl _

theorem PriSteps.mutexTaskPriReset {R : Kernel w → Kernel w → Prop} (hR : PriSteps R)
    (h : k.mutexTaskPriReset fuel t = some k') : R k k' := by
  unfold Kernel.mutexTaskPriReset at h
  split at h
  · cases h
  · split at h
    · split at h
      · cases h
      · split at h
        · exact hR.mutexRelease h
        · cases h
          exact hR.refl _
    · cases h
      exact hR.refl _

end Kernel

end Rhino
