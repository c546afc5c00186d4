/-
  Waking a task that waits, and blocking a task on an object, keep the pend
  lists and touch no other task.
-/
import AliOS.Rhino.TaskQuiet

namespace Rhino

variable {w : ℕ} {k k' : Kernel w} {t u : TaskId} {o : ObjId}

/-- The objects are the same up to their lists. -/
def SameKind (k k' : Kernel w) : Prop := ∀ o, (k'.objs o).objType = (k.objs o).objType ∧
  (k'.objs o).blkPolicy = (k.objs o).blkPolicy

/-- What `pend_task_wakeup` does to a task that waits. -/
structure Woken (t : TaskId) (k k' : Kernel w) : Prop where
  wf : PendWf k'
  kind : SameKind k k'
  others : ∀ u ≠ t, k'.tasks u = k.tasks u
  idle : (k'.tasks t).idle
  blkState : (k'.tasks t).blkState = .finish
  msg : (k'.tasks t).msg = (k.tasks t).msg
  bqMsgSize : (k'.tasks t).bqMsgSize = (k.tasks t).bqMsgSize

/-- What `pend_to_blk_obj` does to a task that does not wait. -/
structure Blocked (o : ObjId) (t : TaskId) (k k' : Kernel w) : Prop where
  wf : PendWf k'
  kind : SameKind k k'
  others : ∀ u ≠ t, k'.tasks u = k.tasks u
  on : (k'.tasks t).on o
  msg : (k'.tasks t).msg = (k.tasks t).msg

namespace Kernel

theorem woken_pendTaskWakeup (hk : PendWf k) (hw : (k.tasks t).waits) :
    Woken t k (k.pendTaskWakeup t) := by
  -- off the list, and not waiting any more
  have hleave : (k.pendLeave t).objs = (k.blkListRm t).objs ∧
      (∀ u ≠ t, (k.pendLeave t).tasks u = k.tasks u) ∧ ((k.pendLeave t).tasks t).idle ∧
      ((k.pendLeave t).tasks t).msg = (k.tasks t).msg ∧
      ((k.pendLeave t).tasks t).bqMsgSize = (k.tasks t).bqMsgSize := by
    unfold pendLeave
    rcases hw with hw | hw
    · simp only [hw, updTask_objs, readyListAdd_objs, updTask_tasks_self, readyListAdd_tasks,
        blkListRm_tasks, and_self, and_true, true_and]
      exact ⟨fun u hu => by simp [hu], .inl rfl⟩
    · simp only [hw, updTask_objs, updTask_tasks_self, blkListRm_tasks, and_self, and_true,
        true_and]
      exact ⟨fun u hu => by simp [hu], .inr rfl⟩
  obtain ⟨ho, hne, hidle, hmsg, hsize⟩ := hleave
  have hobjs : (k.pendTaskWakeup t).objs = (k.blkListRm t).objs := by
    unfold pendTaskWakeup; rw [updTask_objs, tickListRm_objs, ho]
  have hothers : ∀ u ≠ t, (k.pendTaskWakeup t).tasks u = k.tasks u := fun u hu => by
    unfold pendTaskWakeup
    rw [updTask_tasks_ne _ _ _ _ hu, tickListRm_tasks, updTask_tasks_ne _ _ _ _ hu, hne u hu]
  have hself : (k.pendTaskWakeup t).tasks t = { (k.pendLeave t).tasks t with
      tickHead := false, blkState := .finish, blkObj := none } := by
    unfold pendTaskWakeup
    rw [updTask_tasks_self, tickListRm_tasks, updTask_tasks_self]
  have hidle' : ((k.pendTaskWakeup t).tasks t).idle := by rw [hself]; exact hidle
  refine ⟨hk.leave hobjs hothers hidle'.not_waits, fun o => ?_, hothers, hidle', ?_, ?_, ?_⟩
  · rw [hobjs]; exact blkListRm_objs_type k t o
  · rw [hself]
  · rw [hself]; exact hmsg
  · rw [hself]; exact hsize

theorem tickListInsert_tasks_ne (k : Kernel w) {t u : TaskId} (hu : u ≠ t) (time : BitVec w) :
    (k.tickListInsert t time).tasks u = k.tasks u := by
  unfold tickListInsert
  split_ifs
  · dsimp only; exact updTask_tasks_ne _ _ _ _ hu
  · rfl

theorem tickListInsert_tasks_self (k : Kernel w) (t : TaskId) (time : BitVec w) :
    ((k.tickListInsert t time).tasks t).blkObj = (k.tasks t).blkObj ∧
      ((k.tickListInsert t time).tasks t).msg = (k.tasks t).msg := by
  unfold tickListInsert
  split_ifs <;> simp

theorem blocked_pendToBlkObj (hk : PendWf k) (hw : ¬ (k.tasks t).waits) (o : ObjId)
    (timeout : BitVec w) : Blocked o t k (k.pendToBlkObj o t timeout) := by
  unfold pendToBlkObj
  dsimp only
  set k₁ := k.updTask t fun x => { x with blkObj := some o } with hk1
  set k2 := if timeout ≠ BitVec.allOnes w then k₁.tickListInsert t timeout else k₁ with hk2
  set k3 := (k2.updTask t fun x => { x with taskState := .pend }).readyListRm t with hk3
  have ho3 : k3.objs = k.objs := by
    rw [hk3, readyListRm_objs, updTask_objs, hk2]
    split_ifs
    · rw [tickListInsert_objs, hk1, updTask_objs]
    · rfl
  have hne3 : ∀ u ≠ t, k3.tasks u = k.tasks u := fun u hu => by
    rw [hk3, readyListRm_tasks, updTask_tasks_ne _ _ _ _ hu, hk2]
    split_ifs
    · rw [tickListInsert_tasks_ne _ hu, hk1, updTask_tasks_ne _ _ _ _ hu]
    · rw [hk1, updTask_tasks_ne _ _ _ _ hu]
  have hself2 : (k2.tasks t).blkObj = some o ∧ (k2.tasks t).msg = (k.tasks t).msg := by
    rw [hk2]
    split_ifs
    · rw [(tickListInsert_tasks_self k₁ t timeout).1, (tickListInsert_tasks_self k₁ t timeout).2,
        hk1, updTask_tasks_self]
      exact ⟨rfl, rfl⟩
    · rw [hk1, updTask_tasks_self]; exact ⟨rfl, rfl⟩
  have hself3 : (k3.tasks t).on o ∧ (k3.tasks t).msg = (k.tasks t).msg := by
    rw [hk3, readyListRm_tasks, updTask_tasks_self]
    exact ⟨⟨.inl rfl, hself2.1⟩, hself2.2⟩
  -- the task goes on the list at its place
  have hlist : ∀ l, l.Perm (t :: (k.objs o).blkList) → ((k.objs o).blkPolicy = .pri →
      l.Pairwise fun a b => (k3.tasks a).prio ≤ (k3.tasks b).prio) →
      Blocked o t k (k3.updObj o fun b => { b with blkList := l }) := by
    intro l hl hs
    refine ⟨hk.enter hw (o := o) (l := l) (funext fun o' => ?_) hl hs hne3 hself3.1, fun o' => ?_,
      hne3, hself3.1, hself3.2⟩
    · rw [updObj_objs, updObj_objs, ho3]
    · rw [updObj_objs, ho3]
      split_ifs with he
      · subst he; exact ⟨rfl, rfl⟩
      · exact ⟨rfl, rfl⟩
  split_ifs with hpol
  · have heq : (k3.updObj o fun b => { b with blkList := b.blkList ++ [t] }) =
        k3.updObj o fun b => { b with blkList := (k.objs o).blkList ++ [t] } := by
      unfold updObj; rw [ho3]
    rw [heq]
    refine hlist _ (List.perm_append_singleton t _) fun hp => ?_
    rw [ho3] at hpol
    rw [hpol] at hp; simp at hp
  · have heq : k3.pendListAdd o t = k3.updObj o fun b => { b with
        blkList := insertBefore (fun x => (k3.tasks x).prio > (k3.tasks t).prio) t
          (k.objs o).blkList } := by
      unfold pendListAdd updObj; rw [ho3]
    rw [heq]
    refine hlist _ (insertBefore_perm _ _ _) fun hp => ?_
    refine insertBefore_sorted (f := fun x => (k3.tasks x).prio)
      ((hk.sorted o hp).imp_of_mem fun {a b} ha hb hab => ?_)
    have hat : ∀ x ∈ (k.objs o).blkList, x ≠ t := by
      rintro x hx rfl; exact hk.not_mem hw o hx
    rw [hne3 a (hat a ha), hne3 b (hat b hb)]; exact hab

end Kernel

end Rhino
