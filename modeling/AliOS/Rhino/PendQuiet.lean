/-
  What the operations on tasks do to the receivers of an object.

  `Quiet o k k'`: on the way from `k` to `k'` nobody called on the object `o`.
  A receiver blocked on `o` stays so, or leaves by timeout or abort; a task
  that does not wait keeps the state it was woken with.
-/
import AliOS.Rhino.PendWf

namespace Rhino

variable {w : ℕ} {k k' k'' : Kernel w} {t u : TaskId} {o : ObjId}

/-- `Quiet`, for one task. -/
structure Task.Quiet (o : ObjId) (x x' : Task w) : Prop where
  msg : x'.msg = x.msg
  bqMsgSize : x'.bqMsgSize = x.bqMsgSize
  idle : x.idle → x'.idle ∧ x'.blkState = x.blkState
  left : x.on o → x'.on o ∨ x'.idle ∧ (x'.blkState = .timeout ∨ x'.blkState = .abort)
  noNew : x'.on o → x.on o

structure Quiet (o : ObjId) (k k' : Kernel w) : Prop where
  objType : (k'.objs o).objType = (k.objs o).objType
  blkPolicy : (k'.objs o).blkPolicy = (k.objs o).blkPolicy
  task : ∀ u, (k.tasks u).Quiet o (k'.tasks u)

theorem Task.Quiet.refl (o : ObjId) (x : Task w) : x.Quiet o x :=
  ⟨rfl, rfl, fun h => ⟨h, rfl⟩, fun h => .inl h, id⟩

theorem Task.Quiet.trans {x y z : Task w} (h1 : x.Quiet o y) (h2 : y.Quiet o z) : x.Quiet o z := by
  refine ⟨h2.msg.trans h1.msg, h2.bqMsgSize.trans h1.bqMsgSize, fun h => ?_, fun h => ?_,
    fun h => h1.noNew (h2.noNew h)⟩
  · obtain ⟨i1, b1⟩ := h1.idle h
    obtain ⟨i2, b2⟩ := h2.idle i1
    exact ⟨i2, b2.trans b1⟩
  · rcases h1.left h with hy | ⟨hy, hb⟩
    · exact h2.left hy
    · obtain ⟨i2, b2⟩ := h2.idle hy
      exact .inr ⟨i2, b2 ▸ hb⟩

theorem Quiet.refl (o : ObjId) (k : Kernel w) : Quiet o k k := ⟨rfl, rfl, fun _ => .refl o _⟩

theorem Quiet.trans (h1 : Quiet o k k') (h2 : Quiet o k' k'') : Quiet o k k'' :=
  ⟨h2.objType.trans h1.objType, h2.blkPolicy.trans h1.blkPolicy,
    fun u => (h1.task u).trans (h2.task u)⟩

theorem Quiet.of_task (hty : (k'.objs o).objType = (k.objs o).objType)
    (hpo : (k'.objs o).blkPolicy = (k.objs o).blkPolicy)
    (hu : ∀ u ≠ t, k'.tasks u = k.tasks u) (ht : (k.tasks t).Quiet o (k'.tasks t)) :
    Quiet o k k' := by
  refine ⟨hty, hpo, fun u => ?_⟩
  by_cases hut : u = t
  · rw [hut]; exact ht
  · rw [hu u hut]; exact .refl o _

/-! ## Steps that move nobody -/

/-- The lists and the waits are the same. -/
structure SameWait (k k' : Kernel w) : Prop where
  objs : k'.objs = k.objs
  taskState : ∀ u, (k'.tasks u).taskState = (k.tasks u).taskState
  blkObj : ∀ u, (k'.tasks u).blkObj = (k.tasks u).blkObj
  blkState : ∀ u, (k'.tasks u).blkState = (k.tasks u).blkState
  prio : ∀ u, (k'.tasks u).prio = (k.tasks u).prio
  msg : ∀ u, (k'.tasks u).msg = (k.tasks u).msg
  bqMsgSize : ∀ u, (k'.tasks u).bqMsgSize = (k.tasks u).bqMsgSize

theorem SameWait.refl (k : Kernel w) : SameWait k k :=
  ⟨rfl, fun _ => rfl, fun _ => rfl, fun _ => rfl, fun _ => rfl, fun _ => rfl, fun _ => rfl⟩

theorem SameWait.trans (h1 : SameWait k k') (h2 : SameWait k' k'') : SameWait k k'' :=
  ⟨h2.objs.trans h1.objs, fun u => (h2.taskState u).trans (h1.taskState u),
    fun u => (h2.blkObj u).trans (h1.blkObj u), fun u => (h2.blkState u).trans (h1.blkState u),
    fun u => (h2.prio u).trans (h1.prio u), fun u => (h2.msg u).trans (h1.msg u),
    fun u => (h2.bqMsgSize u).trans (h1.bqMsgSize u)⟩

theorem SameWait.of_eq (ho : k'.objs = k.objs) (ht : k'.tasks = k.tasks) : SameWait k k' :=
  ⟨ho, fun _ => by rw [ht], fun _ => by rw [ht], fun _ => by rw [ht], fun _ => by rw [ht],
    fun _ => by rw [ht], fun _ => by rw [ht]⟩

theorem sameWait_activeTask (k : Kernel w) (t : TaskId) : SameWait k { k with activeTask := t } :=
  .of_eq rfl rfl

theorem sameWait_levels (k : Kernel w) (level lock : ℕ) :
    SameWait k { k with intrptNestedLevel := level, schedLock := lock } := .of_eq rfl rfl

theorem SameWait.updTask {f : Task w → Task w} (h1 : ∀ x, (f x).taskState = x.taskState)
    (h2 : ∀ x, (f x).blkObj = x.blkObj) (h3 : ∀ x, (f x).blkState = x.blkState)
    (h4 : ∀ x, (f x).prio = x.prio) (h5 : ∀ x, (f x).msg = x.msg)
    (h6 : ∀ x, (f x).bqMsgSize = x.bqMsgSize) : SameWait k (k.updTask t f) := by
  refine ⟨rfl, fun u => ?_, fun u => ?_, fun u => ?_, fun u => ?_, fun u => ?_, fun u => ?_⟩ <;>
    rw [Kernel.updTask_tasks] <;> split_ifs with he <;> simp [*]

theorem SameWait.waits (h : SameWait k k') (u : TaskId) :
    ((k'.tasks u).waits ↔ (k.tasks u).waits) ∧ ((k'.tasks u).idle ↔ (k.tasks u).idle) ∧
      ∀ o, (k'.tasks u).on o ↔ (k.tasks u).on o := by
  unfold Task.on Task.waits Task.idle
  rw [h.taskState, h.blkObj]
  exact ⟨Iff.rfl, Iff.rfl, fun _ => Iff.rfl⟩

theorem SameWait.wf (h : SameWait k k') (hk : PendWf k) : PendWf k' :=
  hk.congr h.objs fun u => ⟨(h.waits u).2.2, fun _ => h.prio u⟩

theorem SameWait.quiet (h : SameWait k k') (o : ObjId) : Quiet o k k' := by
  refine ⟨by rw [h.objs], by rw [h.objs], fun u => ⟨h.msg u, h.bqMsgSize u, fun hi => ?_,
    fun ho => .inl (((h.waits u).2.2 o).2 ho), ((h.waits u).2.2 o).1⟩⟩
  exact ⟨(h.waits u).2.1.2 hi, h.blkState u⟩

/-! ## The pieces of the operations -/

namespace Kernel

theorem tickListRm_tasks (k : Kernel w) (t : TaskId) :
    (k.tickListRm t).tasks = (k.updTask t fun x => { x with tickHead := false }).tasks := by
  unfold tickListRm
  split_ifs with h
  · rfl
  · funext u
    rw [updTask_tasks]
    split_ifs with hu
    · subst hu
      rw [Bool.not_eq_true] at h
      cases hx : k.tasks u
      rw [hx] at h
      simp only at h
      rw [h]
    · rfl

theorem sameWait_tickListRm (k : Kernel w) (t : TaskId) : SameWait k (k.tickListRm t) := by
  have hu : SameWait k (k.updTask t fun x => { x with tickHead := false }) :=
    SameWait.updTask (fun _ => rfl) (fun _ => rfl) (fun _ => rfl) (fun _ => rfl) (fun _ => rfl)
      fun _ => rfl
  exact hu.trans (SameWait.of_eq (by simp) (tickListRm_tasks k t))

theorem blkListRm_objs_of_sameWait (h : SameWait k k') (t : TaskId) :
    (k'.blkListRm t).objs = (k.blkListRm t).objs := by
  funext o
  rw [blkListRm_objs, blkListRm_objs, h.objs, h.blkObj]

theorem sameWait_setMutexPtr (k : Kernel w) (p : MutexPtr) (m : Option ObjId) :
    SameWait k (k.setMutexPtr p m) := by
  cases p with
  | task t =>
    exact SameWait.updTask (f := fun x => { x with mutexList := m }) (fun _ => rfl) (fun _ => rfl)
      (fun _ => rfl) (fun _ => rfl) (fun _ => rfl) fun _ => rfl
  | mutex m' => exact .of_eq rfl rfl

theorem sameWait_mutexPriLookLoop {rel : Option ObjId} {fuel : ℕ} :
    ∀ {k : Kernel w} {prev : MutexPtr} {np p : ℕ} {r : Kernel w × ℕ},
      mutexPriLookLoop fuel k prev rel np p = some r → SameWait k r.1 := by
  induction fuel with
  | zero => intro k prev np p r h; simp [mutexPriLookLoop] at h
  | succ fuel ih =>
    intro k prev np p r h
    unfold mutexPriLookLoop at h
    split at h
    · obtain rfl := Option.some.inj h; exact .refl k
    · split_ifs at h
      · exact (sameWait_setMutexPtr k _ _).trans (ih h)
      · exact ih h

theorem sameWait_mutexPriLook {rel : Option ObjId} {fuel : ℕ} {r : Kernel w × ℕ}
    (h : k.mutexPriLook fuel t rel = some r) : SameWait k r.1 := sameWait_mutexPriLookLoop h

@[simp] theorem pendListReorder_objs_type (k : Kernel w) (t : TaskId) (o : ObjId) :
    ((k.pendListReorder t).objs o).objType = (k.objs o).objType ∧
      ((k.pendListReorder t).objs o).blkPolicy = (k.objs o).blkPolicy := by
  unfold pendListReorder
  split
  · split_ifs
    · unfold pendListAdd
      rw [updObj_objs]
      split_ifs with he
      · subst he; exact blkListRm_objs_type k t o
      · exact blkListRm_objs_type k t o
    · exact ⟨rfl, rfl⟩
  · exact ⟨rfl, rfl⟩

end Kernel

theorem Task.quiet_prio (o : ObjId) (x : Task w) (p : ℕ) : x.Quiet o { x with prio := p } :=
  ⟨rfl, rfl, fun h => ⟨h, rfl⟩, fun h => .inl h, id⟩

/-- What an operation must show. -/
def PendStep (k k' : Kernel w) : Prop := PendWf k' ∧ ∀ o, Quiet o k k'

theorem SameWait.step (h : SameWait k k') (hk : PendWf k) : PendStep k k' :=
  ⟨h.wf hk, fun o => h.quiet o⟩

theorem PendStep.trans (h1 : PendStep k k') (h2 : PendStep k' k'') : PendStep k k'' :=
  ⟨h2.1, fun o => (h1.2 o).trans (h2.2 o)⟩

theorem SameWait.trans_step (h1 : PendStep k k') (h2 : SameWait k' k'') : PendStep k k'' :=
  h1.trans (h2.step h1.1)

namespace Kernel

theorem pendStep_prio (hk : PendWf k) (hw : ¬ (k.tasks t).waits) (p : ℕ) :
    PendStep k (k.updTask t fun x => { x with prio := p }) := by
  refine ⟨hk.congr rfl fun u => ?_, fun o => .of_task rfl rfl (fun u hu => updTask_tasks_ne _ _ _ _ hu)
    (by rw [updTask_tasks_self]; exact Task.quiet_prio o _ p)⟩
  rw [updTask_tasks]
  split_ifs with he
  · subst he; exact ⟨fun _ => Iff.rfl, fun h => absurd h hw⟩
  · exact ⟨fun _ => Iff.rfl, fun _ => rfl⟩

theorem pendStep_reorder {o : ObjId} (hk : PendWf k) (hw : (k.tasks t).on o) (p : ℕ) :
    PendStep k ((k.updTask t fun x => { x with prio := p }).pendListReorder t) := by
  refine ⟨hk.reorder p hw, fun o => Quiet.of_task (t := t) ?_ ?_ (fun u hu => ?_) ?_⟩
  · rw [(pendListReorder_objs_type _ _ _).1]; rfl
  · rw [(pendListReorder_objs_type _ _ _).2]; rfl
  · rw [pendListReorder_tasks, updTask_tasks_ne _ _ _ _ hu]
  · rw [pendListReorder_tasks, updTask_tasks_self]; exact Task.quiet_prio o _ p

theorem priSteps_pend : PriSteps fun k k' : Kernel w => PendWf k → PendStep k k' := by
  refine ⟨fun k hk => (SameWait.refl k).step hk, fun h1 h2 hk => (h1 hk).trans (h2 (h1 hk).1),
    fun {k t} hst p hk => ?_, fun {k t} hst p hk => ?_,
    fun hst ho p hk => pendStep_reorder hk ⟨hst, ho⟩ p⟩
  · have hs : SameWait k (k.readyListRm t) := .of_eq (by simp) (by simp)
    have hp := pendStep_prio (k := k.readyListRm t) (t := t) (hs.wf hk) (by simp [Task.waits, hst]) p
    refine SameWait.trans_step ((hs.step hk).trans hp) (.of_eq ?_ ?_) <;> split_ifs <;> simp
  · exact pendStep_prio hk (by rcases hst with h | h | h <;> simp [Task.waits, h]) p

theorem pendStep_taskPriChange {fuel p : ℕ} {r : KStat × Kernel w} (hk : PendWf k)
    (h : k.taskPriChange fuel t p = some r) : PendStep k r.2 := priSteps_pend.taskPriChange h hk

theorem pendStep_mutexRelease {fuel : ℕ} {rel : Option ObjId} (hk : PendWf k)
    (h : k.mutexRelease fuel t rel = some k') : PendStep k k' := by
  unfold mutexRelease at h
  split at h
  · simp at h
  · rename_i hlook
    have hl := (sameWait_mutexPriLook hlook).step hk
    split_ifs at h
    · obtain ⟨r, hr, rfl⟩ := Option.map_eq_some_iff.1 h
      exact hl.trans (pendStep_taskPriChange hl.1 hr)
    · obtain rfl := Option.some.inj h; exact hl

theorem pendStep_mutexTaskPriReset {fuel : ℕ} (hk : PendWf k)
    (h : k.mutexTaskPriReset fuel t = some k') : PendStep k k' := by
  unfold mutexTaskPriReset at h
  split at h
  · simp at h
  · split_ifs at h
    · split at h
      · simp at h
      · split_ifs at h
        · exact pendStep_mutexRelease hk h
        · obtain rfl := Option.some.inj h; exact (SameWait.refl _).step hk
    · obtain rfl := Option.some.inj h; exact (SameWait.refl _).step hk

end Kernel

end Rhino
