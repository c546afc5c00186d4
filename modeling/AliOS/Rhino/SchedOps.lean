/-
  The deletion of a task and the operations on mutexes keep the ready queue
  (`SchedInv`).
-/
import AliOS.Rhino.ReadyWf

namespace Rhino

variable {w : ℕ} {k k' : Kernel w} {t u i : TaskId} {o m : ObjId} {fuel : ℕ}

namespace Kernel

theorem sched_mutexRelease {rel : Option ObjId} (h : SchedInv i k) (ht : t ≠ i)
    (hr : k.mutexRelease fuel t rel = some k') : SchedInv i k' := by
  obtain ⟨k₁, newPri, hlook, hm⟩ := but_mutexRelease h.idle ht hr
  refine SchedInv.movesBut ?_ hm
  refine h.locks (sameButLocks_mutexPriLook hlook) fun m he => ?_
  rw [← he, mutexes_mutexPriLook hlook m]

/-! ## Deletion -/

theorem SchedInv.owned (h : SchedInv i k) (hu : u ≠ i) (f : Mutex → Mutex)
    (hf : ∀ x, (f x).mutexTask = some u) (ml : Option ObjId) :
    SchedInv i ((k.updMutex m f).updTask u fun x => { x with mutexList := ml }) := by
  have hl : SameButLocks k ((k.updMutex m f).updTask u fun x => { x with mutexList := ml }) :=
    (sameButLocks_updMutex k m f).trans
      (sameButLocks_updTask _ u (fun x => { x with mutexList := ml }) fun _ => rfl)
  refine h.locks hl fun m' he => ?_
  rw [updTask_mutexes, updMutex_mutexes] at he
  split at he
  · rw [hf] at he
    exact absurd (Option.some.inj he) hu
  · exact he

theorem SchedInv.freed (h : SchedInv i k) :
    SchedInv i (k.updMutex m fun x => { x with mutexTask := none }) := by
  refine h.locks (sameButLocks_updMutex k m _) fun m' he => ?_
  rw [updMutex_mutexes] at he
  split at he
  · cases he
  · exact he

theorem sched_taskMutexFree {next : Option ObjId} (hk : PendWf k) (h : SchedInv i k)
    (hr : taskMutexFree fuel k next = some k') : SchedInv i k' := by
  induction fuel generalizing k next with
  | zero => simp [taskMutexFree] at hr
  | succ fuel ih =>
    cases next with
    | none =>
      cases hr
      exact h
    | some m =>
      unfold taskMutexFree at hr
      split at hr
      · rename_i u us hl
        have hw : (k.tasks u).waits := ((hk.mem m u).1 (by simp [hl])).1
        have hu : u ≠ i := h.idle.ne_of_waits hw
        have h1 := h.movesBut (but_pendTaskWakeup h.idle hw).1
        have hwf := (woken_pendTaskWakeup hk hw).wf
        set k₁ := k.pendTaskWakeup u with hk1
        have hl1 : SameButLocks k₁ ((k₁.updMutex m fun x =>
            { x with mutexTask := some u, mutexList := (k₁.tasks u).mutexList }).updTask u
              fun x => { x with mutexList := some m }) :=
          (sameButLocks_updMutex k₁ m _).trans
            (sameButLocks_updTask _ u (fun x => { x with mutexList := some m }) fun _ => rfl)
        exact ih (hl1.sameWait.wf hwf) (SchedInv.owned h1 hu _ (fun _ => rfl) _) hr
      · exact ih ((sameButLocks_updMutex k m _).sameWait.wf hk) (SchedInv.freed h) hr

theorem sched_taskDelState {r : KStat × Kernel w} (h : SchedInv i k) (ht : t ≠ i)
    (hr : k.taskDelState fuel t = some r) : SchedInv i r.2 := by
  rcases but_taskDelState h.idle ht hr with ⟨he, -⟩ | ⟨-, k₁, hm, -, hb⟩
  · rw [he]
    exact h
  · exact (h.move hm ht).movesBut hb

theorem sched_krhinoTaskDel {task : Option TaskId} {r : KStat × Kernel w} (hk : PendWf k)
    (h : SchedInv i k) (hr : k.krhinoTaskDel fuel task = some r) : SchedInv i r.2 := by
  unfold krhinoTaskDel at hr
  dsimp only at hr
  split at hr
  · cases hr
    exact h
  split at hr
  · cases hr
    exact h
  rename_i hp
  split at hr
  · cases hr
    exact h
  split at hr
  · cases hr
    exact h
  split at hr
  · cases hr
  · rename_i h1
    exact sched_taskDelState (sched_taskMutexFree hk h h1) (h.idle.ne_of_prio hp) hr

theorem sched_krhinoTaskDynDel {resSem : Sem} {task : Option TaskId}
    {r : KStat × Kernel w × Sem} (hk : PendWf k) (h : SchedInv i k)
    (hr : k.krhinoTaskDynDel fuel resSem task = some r) : SchedInv i r.2.1 := by
  unfold krhinoTaskDynDel at hr
  dsimp only at hr
  split at hr
  · cases hr
    exact h
  split at hr
  · cases hr
    exact h
  rename_i hp
  iterate 3
    split at hr
    · cases hr
      exact h
  obtain ⟨g, hg, hr⟩ := Option.bind_eq_some_iff.1 hr
  have hgwf := (delPart_krhinoSemGive hk hg).2.1
  have hgs : SchedInv i g.k := by
    unfold krhinoSemGive semGive at hg
    split at hg
    · cases hg
      exact h
    split at hg
    · split at hg
      · cases hg
        exact h
      · cases hg
        exact h
    · rename_i u us hl
      cases hg
      have hw := ((hk.mem resSem.blkObj u).1 (by simp [hl])).1
      exact h.movesBut (but_pendTaskWakeup h.idle hw).1
  split at hr
  · cases hr
    exact hgs
  · obtain ⟨k₁, h1, hr⟩ := Option.bind_eq_some_iff.1 hr
    obtain ⟨r', hr', rfl⟩ := Option.map_eq_some_iff.1 hr
    exact sched_taskDelState (sched_taskMutexFree hgwf hgs h1) (h.idle.ne_of_prio hp) hr'

/-! ## Mutexes -/

theorem sched_mutexDel {flag : AllocFlag} {r : KStat × Kernel w} (hk : PendWf k)
    (h : SchedInv i k) (hr : k.mutexDel flag fuel m = some r) : SchedInv i r.2 := by
  unfold mutexDel at hr
  iterate 3
    split at hr
    · cases hr
      exact h
  have hk1 := pendWf_updObjType hk m .none
  have h1 : SchedInv i (k.updObj m fun b => { b with objType := .none }) :=
    h.congr rfl rfl rfl rfl
  obtain ⟨k2, h2, hr⟩ := Option.bind_eq_some_iff.1 hr
  obtain ⟨k3, h3, rfl⟩ := Option.map_eq_some_iff.1 hr
  split at h2
  · rename_i t ht
    have hs := sched_mutexRelease h1 (h.idle.ne_of_owner ht) h2
    exact hs.movesBut (but_pendRmAll (pendStep_mutexRelease hk1 h2).1 hs.idle h3)
  · cases h2
    exact h1.movesBut (but_pendRmAll hk1 h1.idle h3)

theorem sched_mutexGet (h : SchedInv i k) (ht : t ≠ i) (m : ObjId) :
    SchedInv i (k.mutexGet t m) :=
  SchedInv.owned h ht (fun x =>
    { x with mutexTask := some t, mutexList := (k.tasks t).mutexList, ownerNested := 1 })
      (fun _ => rfl) _

theorem sched_krhinoMutexLock {sysStat stat : KStat} {n : BitVec w} (h : SchedInv i k)
    (ha : k.activeTask ≠ i) (hr : k.krhinoMutexLock fuel sysStat m n = some (.ret stat k')) :
    SchedInv i k' := by
  unfold krhinoMutexLock at hr
  iterate 3
    split at hr
    · cases hr
      exact h
  split at hr
  · split at hr
    · cases hr
      exact h
    · cases hr
      refine h.locks (sameButLocks_updMutex k m _) fun m' he => ?_
      rw [updMutex_mutexes] at he
      split at he
      · rename_i hm
        rw [hm]
        exact he
      · exact he
  split at hr
  · cases hr
    exact sched_mutexGet h ha m
  iterate 2
    split at hr
    · cases hr
      exact h
  · obtain ⟨k₁, -, hr⟩ := Option.map_eq_some_iff.1 hr
    cases hr

theorem sched_krhinoMutexUnlock {sysStat : KStat} {r : KStat × Kernel w} (hk : PendWf k)
    (h : SchedInv i k) (hr : k.krhinoMutexUnlock fuel sysStat m = some r) : SchedInv i r.2 := by
  rcases unlock_cases hr with ⟨he, -⟩ | ⟨-, howner, k₁, hk1, hr⟩
  · rw [he]
    exact h
  have hl : SameButLocks k k₁ := hk1 ▸ sameButLocks_updMutex k m _
  have hwf1 := hl.sameWait.wf hk
  have h1 : SchedInv i k₁ := by
    refine h.locks hl fun m' he => ?_
    rw [hk1, updMutex_mutexes] at he
    split at he
    · rename_i hm
      rw [hm]
      exact he
    · exact he
  rcases hr with ⟨rfl, -⟩ | ⟨-, -, k2, h2, he⟩
  · exact h1
  have hwf2 := (pendStep_mutexRelease hwf1 h2).1
  have hs2 := sched_mutexRelease h1 (h.idle.ne_of_owner howner) h2
  rw [he]
  unfold mutexPass
  split
  · exact SchedInv.freed hs2
  · rename_i t ts hl
    have hw : (k2.tasks t).waits := ((hwf2.mem m t).1 (by simp [hl])).1
    exact sched_mutexGet (hs2.movesBut (but_pendTaskWakeup hs2.idle hw).1)
      (hs2.idle.ne_of_waits hw) m

end Kernel

end Rhino
