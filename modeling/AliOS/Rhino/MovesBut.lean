/-
  The operations as moves of other tasks than the idle one.

  The idle task is ready all the time, at the lowest priority, and owns no
  mutex (`IdleReady`), so no operation moves it.  `MovesBut i` are sequences of
  moves of tasks other than `i` in which no task is created or deleted.
-/
import AliOS.Rhino.MutexOps

namespace Rhino

variable {w : ℕ} {k k' k₁ : Kernel w} {t u i : TaskId} {o m : ObjId} {fuel : ℕ}

/-- The task has been created, and not deleted. -/
def Task.live (x : Task w) : Prop := x.taskState ≠ .seed ∧ x.taskState ≠ .deleted

instance (x : Task w) : Decidable x.live := inferInstanceAs (Decidable (_ ∧ _))

theorem Task.live_of_away {x : Task w} (h : x.taskState.away) : x.live := by
  unfold Task.live
  rcases h with h | h | h | h | h <;> rw [h] <;> decide

theorem Task.waits.away {x : Task w} (h : x.waits) : x.taskState.away := by
  rcases h with h | h <;> rw [h] <;> decide

/-- The idle task `i` is ready, at the lowest priority, and owns no mutex. -/
structure IdleReady (i : TaskId) (k : Kernel w) : Prop where
  rdy : (k.tasks i).taskState = .rdy
  prio : (k.tasks i).prio = k.idlePri
  pos : 0 < k.priMax
  owner : ∀ m, (k.mutexes m).mutexTask ≠ some i

/-- A sequence of moves of tasks that are not `i`, and live on. -/
inductive MovesBut (i : TaskId) : Kernel w → Kernel w → Prop where
  | refl {k : Kernel w} : MovesBut i k k
  | cons {k k₁ k' : Kernel w} {t : TaskId} : Move t k k₁ → t ≠ i →
    ((k₁.tasks t).live ↔ (k.tasks t).live) → MovesBut i k₁ k' → MovesBut i k k'

theorem MovesBut.trans (h1 : MovesBut i k k₁) (h2 : MovesBut i k₁ k') : MovesBut i k k' := by
  induction h1 with
  | refl => exact h2
  | cons hm ht hl _ ih => exact .cons hm ht hl (ih h2)

theorem MovesBut.keeps {I : Kernel w → Prop} (h : MovesBut i k k')
    (hstep : ∀ {k k' t}, I k → Move t k k' → t ≠ i →
      ((k'.tasks t).live ↔ (k.tasks t).live) → I k') (hk : I k) : I k' := by
  induction h with
  | refl => exact hk
  | cons hm ht hl _ ih => exact ih (hstep hk hm ht hl)

theorem Move.but (h : Move t k k') (ht : t ≠ i) (hl : (k.tasks t).live) (hl' : (k'.tasks t).live) :
    MovesBut i k k' := .cons h ht ⟨fun _ => hl, fun _ => hl'⟩ .refl

namespace IdleReady

theorem ne_of_state (h : IdleReady i k) (ht : (k.tasks t).taskState ≠ .rdy) : t ≠ i := by
  rintro rfl
  exact ht h.rdy

theorem ne_of_waits (h : IdleReady i k) (ht : (k.tasks t).waits) : t ≠ i :=
  h.ne_of_state ht.away.ne.1

theorem ne_of_prio (h : IdleReady i k) (ht : (k.tasks t).prio ≠ k.idlePri) : t ≠ i := by
  rintro rfl
  exact ht h.prio

theorem ne_of_owner (h : IdleReady i k) (ht : (k.mutexes m).mutexTask = some t) : t ≠ i := by
  rintro rfl
  exact h.owner m ht

theorem move (h : IdleReady i k) (hm : Move t k k') (ht : t ≠ i) : IdleReady i k' := by
  have hf := hm.frame
  refine ⟨?_, ?_, hf.priMax ▸ h.pos, fun m => ?_⟩
  · rw [hf.others i ht.symm]
    exact h.rdy
  · rw [hf.others i ht.symm, Kernel.idlePri, hf.priMax]
    exact h.prio
  · rw [hf.mutexes]
    exact h.owner m

theorem movesBut (h : IdleReady i k) (hm : MovesBut i k k') : IdleReady i k' :=
  hm.keeps (I := IdleReady i) (fun h hm ht _ => h.move hm ht) h

theorem locks (h : IdleReady i k) (hl : SameButLocks k k')
    (ho : ∀ m, (k'.mutexes m).mutexTask = some i → (k.mutexes m).mutexTask = some i) :
    IdleReady i k' := by
  refine ⟨?_, ?_, ?_, fun m he => h.owner m (ho m he)⟩
  · rw [hl.tasks i]
    exact h.rdy
  · rw [hl.tasks i, Kernel.idlePri, hl.priMax]
    exact h.prio
  · rw [hl.priMax]
    exact h.pos

end IdleReady

namespace Kernel

/-! ## Priorities -/

theorem priSteps_but (i : TaskId) : PriStepsOn (w := w)
    (fun k t => t ≠ i ∧ ∀ m, (k.mutexes m).mutexTask ≠ some i) (MovesBut i) where
  refl _ := .refl
  trans h1 h2 := h1.trans h2
  ready {k t} ht hs p := by
    refine .cons (move_readyPrio hs p) ht.1 ?_ .refl
    rw [Task.live, (priSteps_prio.ready hs p).tasks t]
    rfl
  prio {k t} ht hs p := by
    refine .cons (move_prio ?_ p) ht.1 ?_ .refl
    · rcases hs with hs | hs | hs <;> simp [hs]
    · rw [Task.live, (priSteps_prio.prio hs p).tasks t]
      rfl
  reorder {k t o} ht hs ho p := by
    refine .cons (move_reorder ?_ p) ht.1 ?_ .refl
    · rcases hs with hs | hs <;> simp [hs]
    · rw [Task.live, (priSteps_prio.reorder hs ho p).tasks t]
      rfl
  owner ht _ hu p := by
    refine ⟨?_, fun m => ?_⟩
    · rintro rfl
      exact ht.2 _ hu
    · rw [pendListReorder_mutexes, updTask_mutexes]
      exact ht.2 m

theorem but_taskPriChange {p : ℕ} {r : KStat × Kernel w} (h : IdleReady i k) (ht : t ≠ i)
    (hr : k.taskPriChange fuel t p = some r) : MovesBut i k r.2 :=
  (priSteps_but i).taskPriChange ⟨ht, h.owner⟩ hr

/-- **`mutex_release`** looks for the priority, and changes to it if it is
    another one. -/
theorem release_cases {rel : Option ObjId} (hr : k.mutexRelease fuel t rel = some k') :
    ∃ k₁ newPri, k.mutexPriLook fuel t rel = some (k₁, newPri) ∧
      (newPri = (k₁.tasks t).prio ∧ k' = k₁ ∨
        ∃ st, k₁.taskPriChange fuel t newPri = some (st, k')) := by
  unfold mutexRelease at hr
  split at hr
  · cases hr
  · rename_i k₁ newPri hlook
    refine ⟨k₁, newPri, hlook, ?_⟩
    split at hr
    · obtain ⟨⟨st, k2⟩, hp, rfl⟩ := Option.map_eq_some_iff.1 hr
      exact .inr ⟨st, hp⟩
    · rename_i hne
      exact .inl ⟨not_not.1 hne, (Option.some.inj hr).symm⟩

theorem mutexes_mutexPriLookLoop {rel : Option ObjId} {prev : MutexPtr} {np q : ℕ}
    {r : Kernel w × ℕ} (h : mutexPriLookLoop fuel k prev rel np q = some r) (m : ObjId) :
    r.1.mutexes m = { k.mutexes m with mutexList := (r.1.mutexes m).mutexList } := by
  induction fuel generalizing k prev np q with
  | zero => simp [mutexPriLookLoop] at h
  | succ fuel ih =>
    unfold mutexPriLookLoop at h
    split at h
    · cases h
      rfl
    · split at h
      · rename_i x _ _
        have hset : (k.setMutexPtr prev (k.mutexes x).mutexList).mutexes m =
            { k.mutexes m with mutexList :=
              ((k.setMutexPtr prev (k.mutexes x).mutexList).mutexes m).mutexList } := by
          cases prev with
          | task t => rfl
          | mutex y =>
            simp only [setMutexPtr, updMutex_mutexes]
            split
            · rename_i he
              rw [he]
            · rfl
        rw [ih h, hset]
      · exact ih h

theorem mutexes_mutexPriLook {rel : Option ObjId} {r : Kernel w × ℕ}
    (h : mutexPriLook fuel k t rel = some r) (m : ObjId) :
    r.1.mutexes m = { k.mutexes m with mutexList := (r.1.mutexes m).mutexList } :=
  mutexes_mutexPriLookLoop h m

theorem but_mutexRelease (h : IdleReady i k) (ht : t ≠ i) {rel : Option ObjId}
    (hr : k.mutexRelease fuel t rel = some k') :
    ∃ k₁ newPri, k.mutexPriLook fuel t rel = some (k₁, newPri) ∧ MovesBut i k₁ k' := by
  obtain ⟨k₁, newPri, hlook, hc⟩ := release_cases hr
  have h1 : IdleReady i k₁ := h.locks (sameButLocks_mutexPriLook hlook) fun m he => by
    rw [← he, mutexes_mutexPriLook hlook m]
  refine ⟨k₁, newPri, hlook, ?_⟩
  rcases hc with ⟨-, rfl⟩ | ⟨st, hp⟩
  · exact .refl
  · exact but_taskPriChange h1 ht hp

theorem but_mutexTaskPriReset (h : IdleReady i k) (hr : k.mutexTaskPriReset fuel t = some k') :
    MovesBut i k k' := by
  unfold mutexTaskPriReset at hr
  split at hr
  · cases hr
  · split at hr
    · split at hr
      · cases hr
      · rename_i howner
        split at hr
        · obtain ⟨k₁, newPri, hlook, hm⟩ := but_mutexRelease h (h.ne_of_owner howner) hr
          exact mutexPriLook_none hlook ▸ hm
        · cases hr
          exact .refl
    · cases hr
      exact .refl

/-! ## Ends of waits -/

theorem but_updTask {f : Task w → Task w} (ht : t ≠ i)
    (hm : (f (k.tasks t)).mutexList = (k.tasks t).mutexList)
    (hb : (f (k.tasks t)).bPrio = (k.tasks t).bPrio)
    (ha : (f (k.tasks t)).mmAllocFlag = (k.tasks t).mmAllocFlag)
    (hs : (f (k.tasks t)).taskState = (k.tasks t).taskState)
    (hp : (f (k.tasks t)).prio = (k.tasks t).prio)
    (hf : (f (k.tasks t)).tickHead = (k.tasks t).tickHead)
    (hmt : (f (k.tasks t)).tickMatch = (k.tasks t).tickMatch) : MovesBut i k (k.updTask t f) := by
  refine .cons (move_stay hm hb ha (by rw [hs]) (by rw [hs]; exact id) (by rw [hs]; exact id) hp hf
    hmt) ht ?_ .refl
  rw [Task.live, updTask_tasks_self, hs]
  rfl

theorem but_endWait {bs : BlkState} {st : TaskStat} {ready : Bool} (h : IdleReady i k)
    (hw : (k.tasks t).waits) (hst : ready = true ∧ st = .rdy ∨ ready = false ∧ st = .suspended)
    (hr : k.endWait fuel t bs st ready = some k') : MovesBut i k k' := by
  have ht : t ≠ i := h.ne_of_waits hw
  have hl := Task.live_of_away hw.away
  unfold endWait at hr
  obtain ⟨k2, h2, rfl⟩ := Option.map_eq_some_iff.1 hr
  have hlast : MovesBut i k2 (k2.updTask t fun x => { x with blkObj := none }) :=
    but_updTask ht rfl rfl rfl rfl rfl rfl rfl
  -- off its lists, ready or suspended, and then the owner of the mutex
  rcases hst with ⟨rfl, rfl⟩ | ⟨rfl, rfl⟩
  · have hm := (move_leave hw bs).1
    have hlive : (((((k.tickListRm t).blkListRm t).readyListAdd t).updTask t fun x =>
        { x with blkState := bs, taskState := .rdy }).tasks t).live := by
      rw [updTask_tasks_self]
      exact ⟨nofun, nofun⟩
    exact ((hm.but ht hl hlive).trans (but_mutexTaskPriReset (h.move hm ht) h2)).trans hlast
  · have hm := (move_leave hw bs).2
    have hlive : ((((k.tickListRm t).blkListRm t).updTask t fun x =>
        { x with blkState := bs, taskState := .suspended }).tasks t).live := by
      rw [updTask_tasks_self]
      exact ⟨nofun, nofun⟩
    exact ((hm.but ht hl hlive).trans (but_mutexTaskPriReset (h.move hm ht) h2)).trans hlast

theorem pendLeave_live (hw : (k.tasks t).waits) : ((k.pendLeave t).tasks t).live := by
  unfold pendLeave
  rcases hw with hw | hw <;> rw [hw] <;> dsimp only <;> rw [updTask_tasks_self] <;>
    exact ⟨nofun, nofun⟩

theorem but_pendTaskWakeup (h : IdleReady i k) (hw : (k.tasks t).waits) :
    MovesBut i k (k.pendTaskWakeup t) ∧ MovesBut i k (k.pendTaskRm t) := by
  have ht : t ≠ i := h.ne_of_waits hw
  have hl := Task.live_of_away hw.away
  have hl' := pendLeave_live hw
  constructor
  · refine (move_pendTaskWakeup hw).but ht hl ?_
    unfold pendTaskWakeup
    rw [updTask_tasks_self, tickListRm_self]
    exact hl'
  · refine (move_pendTaskRm hw).but ht hl ?_
    unfold pendTaskRm
    rw [updTask_tasks_self, tickListRm_self]
    exact hl'

theorem but_pendRmAll (hk : PendWf k) (h : IdleReady i k) (hr : k.pendRmAll fuel o = some k') :
    MovesBut i k k' := by
  induction fuel generalizing k with
  | zero => simp [pendRmAll] at hr
  | succ fuel ih =>
    unfold pendRmAll at hr
    split at hr
    · cases hr
      exact .refl
    · rename_i t ts hl
      have hw : (k.tasks t).waits := ((hk.mem o t).1 (by simp [hl])).1
      have hm := (but_pendTaskWakeup h hw).2
      exact hm.trans (ih (pendWf_pendTaskRm hk hw) (h.movesBut hm) hr)

/-! ## The tick -/

theorem but_tickTask (h : IdleReady i k) (hr : k.tickTask fuel t = some k') :
    MovesBut i k k' := by
  unfold tickTask at hr
  split at hr
  · rename_i hst
    cases hr
    refine (move_wakeSleeper (.inl hst) .finish).1.but (h.ne_of_state (by simp [hst]))
      ⟨by simp [hst], by simp [hst]⟩ ?_
    rw [readyListAdd_tasks, tickListRm_self, updTask_tasks_self]
    exact ⟨nofun, nofun⟩
  · rename_i hst
    exact but_endWait h (.inl hst) (.inl ⟨rfl, rfl⟩) hr
  · rename_i hst
    exact but_endWait h (.inr hst) (.inr ⟨rfl, rfl⟩) hr
  · rename_i hst
    cases hr
    refine (move_restSleeper hst .finish).but (h.ne_of_state (by simp [hst]))
      ⟨by simp [hst], by simp [hst]⟩ ?_
    rw [tickListRm_self, updTask_tasks_self]
    exact ⟨nofun, nofun⟩
  · cases hr
    exact .refl

theorem but_tickLoop {ts : List TaskId} (h : IdleReady i k)
    (hr : k.tickLoop fuel ts = some k') : MovesBut i k k' := by
  induction ts generalizing k with
  | nil =>
    cases hr
    exact .refl
  | cons t ts ih =>
    unfold tickLoop at hr
    split at hr
    · obtain ⟨k₁, h1, h2⟩ := Option.bind_eq_some_iff.1 hr
      have hm := but_tickTask h h1
      exact hm.trans (ih (h.movesBut hm) h2)
    · cases hr
      exact .refl

/-! ## The operations on a task -/

theorem but_krhinoTaskSuspend (h : IdleReady i k) :
    MovesBut i k (k.krhinoTaskSuspend t).2 := by
  unfold krhinoTaskSuspend
  split
  · exact .refl
  rename_i hp
  have ht : t ≠ i := h.ne_of_prio hp
  unfold taskSuspend
  split
  · exact .refl
  split
  · rename_i hst
    refine (move_stop hst 1).1.but ht ⟨by simp [hst], by simp [hst]⟩ ?_
    rw [readyListRm_tasks, updTask_tasks_self]
    exact ⟨nofun, nofun⟩
  · rename_i hst
    refine (move_stay (f := fun x => { x with suspendCount := 1, taskState := .sleepSuspended })
      rfl rfl rfl (by simp [hst]) (fun _ => .inr (.inl rfl)) (by simp [hst]) rfl rfl rfl).but ht
        ⟨by simp [hst], by simp [hst]⟩ ?_
    rw [updTask_tasks_self]
    exact ⟨nofun, nofun⟩
  · rename_i hst
    refine (move_stay (f := fun x => { x with suspendCount := 1, taskState := .pendSuspended })
      rfl rfl rfl (by simp [hst]) (fun _ => .inr (.inr (.inr rfl))) (by simp [hst]) rfl rfl
        rfl).but ht ⟨by simp [hst], by simp [hst]⟩ ?_
    rw [updTask_tasks_self]
    exact ⟨nofun, nofun⟩
  iterate 3
    · split
      · exact .refl
      · exact but_updTask (f := fun x => { x with suspendCount := x.suspendCount + 1 }) ht
          rfl rfl rfl rfl rfl rfl rfl
  · exact .refl

theorem but_resumeTo {st : TaskStat} (h : IdleReady i k) (hs : (k.tasks t).taskState.away)
    (hst : st.timed) : MovesBut i k (k.resumeTo t st) := by
  have ht : t ≠ i := h.ne_of_state hs.ne.1
  set k₁ := k.updTask t fun x => { x with suspendCount := x.suspendCount - 1 } with hk1
  have h1 : MovesBut i k k₁ := but_updTask ht rfl rfl rfl rfl rfl rfl rfl
  have haway : (k₁.tasks t).taskState.away := by
    rw [hk1, updTask_tasks_self]
    exact hs
  have hst' : st.away := .inr hst
  unfold resumeTo
  rw [← hk1]
  dsimp only
  split
  · refine h1.trans (Move.but (move_stay rfl rfl rfl ?_ (fun _ => hst) ?_ rfl rfl rfl) ht
      (Task.live_of_away haway) ?_)
    · exact ⟨fun hc => absurd hc hst'.ne.1, fun hc => absurd hc haway.ne.1⟩
    · exact fun hc => absurd hc haway.ne.2
    · rw [updTask_tasks_self]
      exact Task.live_of_away hst'
  · exact h1

theorem but_krhinoTaskResume (h : IdleReady i k) : MovesBut i k (k.krhinoTaskResume t).2 := by
  unfold krhinoTaskResume
  split
  all_goals try exact .refl
  all_goals rename_i hst
  · -- a task that neither sleeps nor waits is ready again
    have ht : t ≠ i := h.ne_of_state (by simp [hst])
    set k₁ := k.updTask t fun x => { x with suspendCount := x.suspendCount - 1 } with hk1
    have h1 : MovesBut i k k₁ := but_updTask ht rfl rfl rfl rfl rfl rfl rfl
    have hst1 : (k₁.tasks t).taskState = .suspended := by
      rw [hk1, updTask_tasks_self]
      exact hst
    unfold resumeTo
    rw [← hk1]
    dsimp only
    by_cases hc : (k₁.tasks t).suspendCount = 0
    · rw [if_pos hc, if_pos (by rw [updTask_tasks_self]; exact hc)]
      refine h1.trans ((move_unsuspend hst1).but ht ⟨by simp [hst1], by simp [hst1]⟩ ?_)
      rw [readyListAdd_tasks, updTask_tasks_self]
      exact ⟨nofun, nofun⟩
    · rw [if_neg hc, if_neg hc]
      exact h1
  · exact but_resumeTo h (by rw [hst]; decide) (.inl rfl)
  · exact but_resumeTo h (by rw [hst]; decide) (.inr (.inr (.inl rfl)))

theorem but_krhinoTaskWaitAbort {r : KStat × Kernel w} (h : IdleReady i k)
    (hr : k.krhinoTaskWaitAbort fuel t = some r) : MovesBut i k r.2 := by
  unfold krhinoTaskWaitAbort at hr
  split at hr
  · cases hr
    exact .refl
  split at hr
  all_goals rename_i hst
  · cases hr
    exact .refl
  · cases hr
    refine (move_unsuspend hst).but (h.ne_of_state (by simp [hst]))
      ⟨by simp [hst], by simp [hst]⟩ ?_
    rw [readyListAdd_tasks, updTask_tasks_self]
    exact ⟨nofun, nofun⟩
  · cases hr
    refine (move_wakeSleeper (.inl hst) .abort).2.but (h.ne_of_state (by simp [hst]))
      ⟨by simp [hst], by simp [hst]⟩ ?_
    rw [updTask_tasks_self]
    exact ⟨nofun, nofun⟩
  · cases hr
    refine (move_wakeSleeper (.inr hst) .abort).2.but (h.ne_of_state (by simp [hst]))
      ⟨by simp [hst], by simp [hst]⟩ ?_
    rw [updTask_tasks_self]
    exact ⟨nofun, nofun⟩
  · obtain ⟨k₁, h1, rfl⟩ := Option.map_eq_some_iff.1 hr
    exact but_endWait h (.inr hst) (.inl ⟨rfl, rfl⟩) h1
  · obtain ⟨k₁, h1, rfl⟩ := Option.map_eq_some_iff.1 hr
    exact but_endWait h (.inl hst) (.inl ⟨rfl, rfl⟩) h1
  · cases hr
    exact .refl

theorem but_krhinoTaskPriChange {pri : ℕ} {r : KStat × Kernel w} (h : IdleReady i k)
    (hr : k.krhinoTaskPriChange fuel t pri = some r) :
    r.2 = k ∨ MovesBut i (k.updTask t fun x => { x with bPrio := pri }) r.2 := by
  unfold krhinoTaskPriChange at hr
  split at hr
  · cases hr
    exact .inl rfl
  rename_i hp
  have ht : t ≠ i := h.ne_of_prio fun he => hp he.ge
  iterate 3
    split at hr
    · cases hr
      exact .inl rfl
  split at hr
  · cases hr
  · have hne : ((k.updTask t fun x => { x with bPrio := pri }).tasks i) = k.tasks i :=
      updTask_tasks_ne _ _ _ _ ht.symm
    have h1 : IdleReady i (k.updTask t fun x => { x with bPrio := pri }) :=
      ⟨hne.symm ▸ h.rdy, hne.symm ▸ h.prio, h.pos, h.owner⟩
    exact .inr (but_taskPriChange h1 ht hr)

/-! ## The deletion of a task -/

/-- **The deletion itself**: an error, or a move of the task, and then the owner
    of what it waited for. -/
theorem but_taskDelState {r : KStat × Kernel w} (h : IdleReady i k) (ht : t ≠ i)
    (hr : k.taskDelState fuel t = some r) :
    r.2 = k ∧ ¬ (k.tasks t).live ∨ (k.tasks t).live ∧ ∃ k₁, Move t k k₁ ∧
      (k₁.tasks t).taskState = .deleted ∧ MovesBut i k₁ r.2 := by
  unfold taskDelState at hr
  split at hr
  · rename_i hst
    cases hr
    refine .inr ⟨⟨by simp [hst], by simp [hst]⟩, _, (move_stop hst 0).2, ?_, .refl⟩
    rw [updTask_tasks_self]
  · rename_i hst
    cases hr
    refine .inr ⟨⟨by simp [hst], by simp [hst]⟩, _, move_delSuspended hst, ?_, .refl⟩
    rw [updTask_tasks_self]
  iterate 2
    · rename_i hst
      cases hr
      refine .inr ⟨⟨by simp [hst], by simp [hst]⟩, _, move_delSleeper (by rw [hst]; decide), ?_,
        .refl⟩
      rw [updTask_tasks_self]
  iterate 2
    · rename_i hst
      obtain ⟨k2, h2, rfl⟩ := Option.map_eq_some_iff.1 hr
      have hm := move_delWaiter (k := k) (t := t) (by rw [hst]; decide)
      refine .inr ⟨⟨by simp [hst], by simp [hst]⟩, _, hm, ?_,
        but_mutexTaskPriReset (h.move hm ht) h2⟩
      rw [updTask_tasks_self]
  · rename_i h1 h2 h3 h4 h5 h6
    cases hr
    refine .inl ⟨rfl, fun hl => ?_⟩
    cases hs : (k.tasks t).taskState
    all_goals simp_all [Task.live]

end Kernel

end Rhino
