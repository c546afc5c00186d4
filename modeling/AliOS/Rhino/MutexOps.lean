/-
  The mutex operations as sequences of moves and of writes of ownership, and
  what they do to the pend lists.
-/
import AliOS.Rhino.Mutex
import AliOS.Rhino.TaskDel

namespace Rhino

variable {w : ℕ} {k k' k₁ : Kernel w} {t u : TaskId} {o m : ObjId} {fuel : ℕ}

/-! ## Ownership -/

theorem SameButLocks.refl (k : Kernel w) : SameButLocks k k :=
  ⟨fun _ => rfl, rfl, rfl, rfl, rfl, rfl, rfl⟩

theorem SameButLocks.trans (h1 : SameButLocks k k₁) (h2 : SameButLocks k₁ k') :
    SameButLocks k k' := by
  refine ⟨fun u => ?_, h2.objs.trans h1.objs, h2.readyQueue.trans h1.readyQueue,
    h2.tickHead.trans h1.tickHead, h2.tickCount.trans h1.tickCount,
    h2.activeTask.trans h1.activeTask, h2.priMax.trans h1.priMax⟩
  rw [h2.tasks u, h1.tasks u]

namespace Kernel

theorem sameButLocks_setMutexPtr (k : Kernel w) (p : MutexPtr) (m : Option ObjId) :
    SameButLocks k (k.setMutexPtr p m) := by
  cases p with
  | task t => exact sameButLocks_updTask k t (fun x => { x with mutexList := m }) fun _ => rfl
  | mutex m' => exact sameButLocks_updMutex k m' fun x => { x with mutexList := m }

theorem sameButLocks_mutexPriLookLoop {rel : Option ObjId} {prev : MutexPtr} {np p : ℕ}
    {r : Kernel w × ℕ} (h : mutexPriLookLoop fuel k prev rel np p = some r) :
    SameButLocks k r.1 := by
  induction fuel generalizing k prev np p with
  | zero => simp [mutexPriLookLoop] at h
  | succ fuel ih =>
    unfold mutexPriLookLoop at h
    split at h
    · cases h
      exact .refl k
    · split at h
      · exact (sameButLocks_setMutexPtr k _ _).trans (ih h)
      · exact ih h

theorem sameButLocks_mutexPriLook {rel : Option ObjId} {r : Kernel w × ℕ}
    (h : k.mutexPriLook fuel t rel = some r) : SameButLocks k r.1 :=
  sameButLocks_mutexPriLookLoop h

theorem sameButLocks_mutexGet (k : Kernel w) (t : TaskId) (m : ObjId) :
    SameButLocks k (k.mutexGet t m) :=
  (sameButLocks_updMutex k m _).trans
    (sameButLocks_updTask _ t (fun x => { x with mutexList := some m }) fun _ => rfl)

theorem release_of_priSteps {R : Kernel w → Kernel w → Prop} (hR : PriSteps R)
    (hlocks : ∀ {k k' : Kernel w}, SameButLocks k k' → R k k') {rel : Option ObjId}
    (h : k.mutexRelease fuel t rel = some k') : R k k' := by
  unfold mutexRelease at h
  split at h
  · cases h
  · rename_i hlook
    have hl := hlocks (sameButLocks_mutexPriLook hlook)
    split at h
    · obtain ⟨r, hr, rfl⟩ := Option.map_eq_some_iff.1 h
      exact hR.trans hl (hR.taskPriChange hr)
    · cases h
      exact hl

theorem priSteps_ops : PriSteps (Ops (w := w)) := by
  have h : PriSteps (Moves (w := w)) := priSteps_moves
  exact ⟨fun _ => .refl, fun h1 h2 => h1.trans h2, fun hs p => (h.ready hs p).ops,
    fun hs p => (h.prio hs p).ops, fun hs ho p => (h.reorder hs ho p).ops⟩

theorem ops_mutexRelease {rel : Option ObjId} (h : k.mutexRelease fuel t rel = some k') :
    Ops k k' := release_of_priSteps priSteps_ops (fun h => h.ops) h

/-! ## The end of all waits on an object -/

theorem pendTaskRm_eq (k : Kernel w) (t : TaskId) :
    k.pendTaskRm t = (k.pendTaskWakeup t).updTask t fun x => { x with blkState := .del } := by
  unfold pendTaskRm pendTaskWakeup updTask
  simp

theorem pendWf_pendTaskRm (hk : PendWf k) (hw : (k.tasks t).waits) : PendWf (k.pendTaskRm t) := by
  rw [pendTaskRm_eq]
  refine (woken_pendTaskWakeup hk hw).wf.congr rfl fun u => ?_
  rw [updTask_tasks]
  split
  · rename_i hu
    subst hu
    exact ⟨fun _ => Iff.rfl, fun _ => rfl⟩
  · exact ⟨fun _ => Iff.rfl, fun _ => rfl⟩

theorem moves_pendRmAll (hk : PendWf k) (h : k.pendRmAll fuel o = some k') :
    Moves k k' ∧ PendWf k' := by
  induction fuel generalizing k with
  | zero => simp [pendRmAll] at h
  | succ fuel ih =>
    unfold pendRmAll at h
    split at h
    · cases h
      exact ⟨.refl, hk⟩
    · rename_i t ts hl
      have hw : (k.tasks t).waits := ((hk.mem o t).1 (by simp [hl])).1
      obtain ⟨hm, hwf⟩ := ih (pendWf_pendTaskRm hk hw) h
      exact ⟨.cons (move_pendTaskRm hw) hm, hwf⟩

/-! ## The operations -/

theorem pendWf_updObjType (hk : PendWf k) (o : ObjId) (ty : KobjType) :
    PendWf (k.updObj o fun b => { b with objType := ty }) := by
  have hobj : ∀ o', ((k.updObj o fun b => { b with objType := ty }).objs o').blkList =
      (k.objs o').blkList ∧ ((k.updObj o fun b => { b with objType := ty }).objs o').blkPolicy =
        (k.objs o').blkPolicy := fun o' => by
    rw [updObj_objs]
    split
    · rename_i he
      rw [he]
      exact ⟨rfl, rfl⟩
    · exact ⟨rfl, rfl⟩
  refine ⟨fun o' => ?_, fun o' t => ?_, fun o' hp => ?_⟩
  · rw [(hobj o').1]
    exact hk.nodup o'
  · rw [(hobj o').1]
    exact hk.mem o' t
  · rw [(hobj o').2] at hp
    rw [(hobj o').1]
    exact hk.sorted o' hp

/-- **`krhino_mutex_del`**: either an error, or the type of the mutex is
    written, and then its owner's priority, and the tasks that wait. -/
theorem ops_mutexDel {flag : AllocFlag} {r : KStat × Kernel w} (hk : PendWf k)
    (h : k.mutexDel flag fuel m = some r) :
    PendWf r.2 ∧ (r.1 ≠ .success ∧ r.2 = k ∨ r.1 = .success ∧
      (k.objs m).objType = .mutex ∧ Ops (k.updObj m fun b => { b with objType := .none }) r.2) := by
  unfold mutexDel at h
  split at h
  · cases h
    exact ⟨hk, .inl ⟨by simp, rfl⟩⟩
  split at h
  · cases h
    exact ⟨hk, .inl ⟨by simp, rfl⟩⟩
  rename_i hty
  split at h
  · cases h
    exact ⟨hk, .inl ⟨by simp, rfl⟩⟩
  have hk1 := pendWf_updObjType hk m .none
  set k₁ := k.updObj m fun b => { b with objType := .none } with hk1'
  obtain ⟨k2, h2, h⟩ := Option.bind_eq_some_iff.1 h
  obtain ⟨k3, h3, rfl⟩ := Option.map_eq_some_iff.1 h
  have hrel : Ops k₁ k2 ∧ PendWf k2 := by
    split at h2
    · exact ⟨ops_mutexRelease h2, (pendStep_mutexRelease hk1 h2).1⟩
    · cases h2
      exact ⟨.refl, hk1⟩
  obtain ⟨hm, hwf⟩ := moves_pendRmAll hrel.2 h3
  exact ⟨hwf, .inr ⟨rfl, not_not.1 hty, hrel.1.trans hm.ops⟩⟩

theorem sameButLocks_krhinoMutexLock {sysStat stat : KStat} {n : BitVec w}
    (h : k.krhinoMutexLock fuel sysStat m n = some (.ret stat k')) : SameButLocks k k' := by
  unfold krhinoMutexLock at h
  split at h
  · cases h
    exact .refl k
  split at h
  · cases h
    exact .refl k
  split at h
  · cases h
    exact .refl k
  split at h
  · split at h
    · cases h
      exact .refl k
    · cases h
      exact sameButLocks_updMutex k m _
  split at h
  · cases h
    exact sameButLocks_mutexGet k _ m
  split at h
  · cases h
    exact .refl k
  split at h
  · cases h
    exact .refl k
  · obtain ⟨k₁, -, h⟩ := Option.map_eq_some_iff.1 h
    cases h

/-- **A lock that blocks** raises the owner's priority, and parks the active
    task. -/
theorem lock_blocked {sysStat : KStat} {n : BitVec w}
    (h : k.krhinoMutexLock fuel sysStat m n = some (.blocked k')) :
    ∃ owner k₁, (k.mutexes m).mutexTask = some owner ∧ owner ≠ k.activeTask ∧
      (k.objs m).objType = .mutex ∧ n ≠ 0 ∧
      (if (k.tasks k.activeTask).prio < (k.tasks owner).prio then
          ∃ st, taskPriChange fuel k owner (k.tasks k.activeTask).prio = some (st, k₁)
        else k₁ = k) ∧
      k' = k₁.pendToBlkObj m k₁.activeTask n := by
  unfold krhinoMutexLock at h
  split at h
  · cases h
  split at h
  · cases h
  split at h
  · cases h
  rename_i hty
  split at h
  · split at h <;> cases h
  rename_i hne
  split at h
  · cases h
  rename_i owner howner
  split at h
  · cases h
  rename_i hn
  split at h
  · cases h
  obtain ⟨k₁, h1, h⟩ := Option.map_eq_some_iff.1 h
  cases h
  refine ⟨owner, k₁, howner, fun he => hne (he ▸ howner.symm), not_not.1 hty, hn, ?_, rfl⟩
  split
  · rename_i hlt
    rw [if_pos hlt] at h1
    obtain ⟨⟨st, k2⟩, hr, rfl⟩ := Option.map_eq_some_iff.1 h1
    exact ⟨st, hr⟩
  · rename_i hlt
    rw [if_neg hlt] at h1
    exact (Option.some.inj h1).symm

theorem unlock_cases {sysStat : KStat} {r : KStat × Kernel w}
    (h : k.krhinoMutexUnlock fuel sysStat m = some r) :
    r.2 = k ∧ r.1 ≠ .mutexOwnerNested ∧ (r.1 = .success → sysStat = .stopped) ∨
      ((k.objs m).objType = .mutex ∧ (k.mutexes m).mutexTask = some k.activeTask ∧
        ∃ k₁, k₁ = k.updMutex m (fun x => { x with ownerNested := nestedDec x.ownerNested }) ∧
          (r = (.mutexOwnerNested, k₁) ∧ (k₁.mutexes m).ownerNested ≠ 0 ∨
            (k₁.mutexes m).ownerNested = 0 ∧ r.1 = .success ∧
              ∃ k2, mutexRelease fuel k₁ k.activeTask (some m) = some k2 ∧
                r.2 = k2.mutexPass m)) := by
  unfold krhinoMutexUnlock at h
  split at h
  · rename_i hst
    cases h
    exact .inl ⟨rfl, by simp, fun _ => hst⟩
  split at h
  · cases h
    exact .inl ⟨rfl, by simp, by simp⟩
  split at h
  · cases h
    exact .inl ⟨rfl, by simp, by simp⟩
  rename_i hty
  split at h
  · cases h
    exact .inl ⟨rfl, by simp, by simp⟩
  rename_i howner
  refine .inr ⟨not_not.1 hty, (not_not.1 howner).symm, _, rfl, ?_⟩
  dsimp only at h
  split at h
  · rename_i hn
    cases h
    exact .inl ⟨rfl, by omega⟩
  · rename_i hn
    obtain ⟨k2, h2, rfl⟩ := Option.map_eq_some_iff.1 h
    exact .inr ⟨by omega, rfl, k2, h2, rfl⟩

theorem ops_mutexPass (hk : PendWf k) : Ops k (k.mutexPass m) ∧ PendWf (k.mutexPass m) := by
  unfold mutexPass
  split
  · have h := sameButLocks_updMutex k m fun x => { x with mutexTask := none }
    exact ⟨h.ops, h.sameWait.wf hk⟩
  · rename_i t ts hl
    have hw : (k.tasks t).waits := ((hk.mem m t).1 (by simp [hl])).1
    have h := sameButLocks_mutexGet (k.pendTaskWakeup t) t m
    exact ⟨.move (move_pendTaskWakeup hw) h.ops,
      h.sameWait.wf (woken_pendTaskWakeup hk hw).wf⟩

theorem ops_krhinoMutexUnlock {sysStat : KStat} {r : KStat × Kernel w} (hk : PendWf k)
    (h : k.krhinoMutexUnlock fuel sysStat m = some r) : Ops k r.2 ∧ PendWf r.2 := by
  rcases unlock_cases h with ⟨he, -⟩ | ⟨-, -, k₁, hk1, h⟩
  · rw [he]
    exact ⟨.refl, hk⟩
  · have h1 : SameButLocks k k₁ := hk1 ▸ sameButLocks_updMutex k m _
    have hwf1 := h1.sameWait.wf hk
    rcases h with ⟨rfl, -⟩ | ⟨-, -, k2, h2, he⟩
    · exact ⟨h1.ops, hwf1⟩
    · have hp := ops_mutexPass (m := m) (pendStep_mutexRelease hwf1 h2).1
      rw [he]
      exact ⟨.locks h1 ((ops_mutexRelease h2).trans hp.1), hp.2⟩

end Kernel

end Rhino
