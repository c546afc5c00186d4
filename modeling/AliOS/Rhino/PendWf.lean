/-
  The pend lists: on every list stand exactly the tasks blocked on the object,
  once, by priority where the object's policy is `BLK_POLICY_PRI`.

  `PendWf` is that invariant.  `Quiet o` says what an operation that is not a
  call on the object `o` can do to the receivers of `o`: a blocked one may
  leave by timeout or abort, one that has been woken stays as it was woken.
  Every operation on tasks keeps the first and is the second.
-/
import AliOS.Rhino.TaskOps

namespace Rhino

variable {w : ℕ}

/-- The task is on the list of an object. -/
def Task.waits (x : Task w) : Prop := x.taskState = .pend ∨ x.taskState = .pendSuspended

/-- The task is blocked on `o`. -/
def Task.on (x : Task w) (o : ObjId) : Prop := x.waits ∧ x.blkObj = some o

/-- The task could run, or could if it were not suspended. -/
def Task.idle (x : Task w) : Prop := x.taskState = .rdy ∨ x.taskState = .suspended

instance (x : Task w) : Decidable x.waits := inferInstanceAs (Decidable (_ ∨ _))
instance (x : Task w) : Decidable x.idle := inferInstanceAs (Decidable (_ ∨ _))

theorem Task.idle.not_waits {x : Task w} (h : x.idle) : ¬ x.waits := by
  rintro (hw | hw) <;> rcases h with h | h <;> simp [h] at hw

theorem Task.idle.not_on {x : Task w} (h : x.idle) (o : ObjId) : ¬ x.on o := fun hw => h.not_waits hw.1

/-! ## The invariant -/

structure PendWf (k : Kernel w) : Prop where
  nodup : ∀ o, (k.objs o).blkList.Nodup
  mem : ∀ o t, t ∈ (k.objs o).blkList ↔ (k.tasks t).on o
  sorted : ∀ o, (k.objs o).blkPolicy = .pri →
    (k.objs o).blkList.Pairwise fun a b => (k.tasks a).prio ≤ (k.tasks b).prio

variable {k k' : Kernel w} {t u : TaskId} {o : ObjId}

theorem PendWf.congr (h : PendWf k) (ho : k'.objs = k.objs)
    (ht : ∀ u, (∀ o, (k'.tasks u).on o ↔ (k.tasks u).on o) ∧
      ((k.tasks u).waits → (k'.tasks u).prio = (k.tasks u).prio)) : PendWf k' := by
  refine ⟨fun o => by rw [ho]; exact h.nodup o, fun o u => ?_, fun o hp => ?_⟩
  · rw [ho, h.mem, (ht u).1]
  · rw [ho] at hp ⊢
    refine (h.sorted o hp).imp_of_mem fun {a b} ha hb hab => ?_
    rw [(ht a).2 ((h.mem o a).1 ha).1, (ht b).2 ((h.mem o b).1 hb).1]; exact hab

theorem PendWf.not_mem (h : PendWf k) (ht : ¬ (k.tasks t).waits) (o : ObjId) :
    t ∉ (k.objs o).blkList := fun hm => ht ((h.mem o t).1 hm).1

theorem Kernel.blkListRm_objs_type (k : Kernel w) (t : TaskId) (o : ObjId) :
    ((k.blkListRm t).objs o).objType = (k.objs o).objType ∧
      ((k.blkListRm t).objs o).blkPolicy = (k.objs o).blkPolicy := by
  rw [Kernel.blkListRm_objs]; split_ifs <;> exact ⟨rfl, rfl⟩

theorem PendWf.mem_blkListRm (h : PendWf k) :
    u ∈ ((k.blkListRm t).objs o).blkList ↔ u ∈ (k.objs o).blkList ∧ u ≠ t := by
  rw [Kernel.blkListRm_objs]
  by_cases ho : (k.tasks t).blkObj = some o
  · simp only [ho, if_true, (h.nodup o).mem_erase_iff]
    exact and_comm
  · simp only [ho, if_false]
    constructor
    · intro hu
      refine ⟨hu, ?_⟩
      rintro rfl
      exact ho ((h.mem o u).1 hu).2
    · exact fun hu => hu.1

theorem PendWf.sublist_blkListRm (t : TaskId) (o : ObjId) :
    ((k.blkListRm t).objs o).blkList.Sublist (k.objs o).blkList := by
  rw [Kernel.blkListRm_objs]
  split_ifs
  · exact List.erase_sublist
  · exact List.Sublist.refl _

theorem PendWf.leave (h : PendWf k) (ho : k'.objs = (k.blkListRm t).objs)
    (hu : ∀ u ≠ t, k'.tasks u = k.tasks u) (ht : ¬ (k'.tasks t).waits) : PendWf k' := by
  have hmem : ∀ o u, u ∈ (k'.objs o).blkList ↔ u ∈ (k.objs o).blkList ∧ u ≠ t := fun o u => by
    rw [ho]; exact h.mem_blkListRm
  refine ⟨fun o => ?_, fun o u => ?_, fun o hp => ?_⟩
  · rw [ho]; exact (h.nodup o).sublist (PendWf.sublist_blkListRm t o)
  · rw [hmem, h.mem]
    by_cases hut : u = t
    · subst hut
      exact ⟨fun hx => absurd rfl hx.2, fun hx => absurd hx.1 ht⟩
    · rw [hu u hut]; exact ⟨fun hx => hx.1, fun hx => ⟨hx, hut⟩⟩
  · rw [ho, (k.blkListRm_objs_type t o).2] at hp
    have hs := (h.sorted o hp).sublist (PendWf.sublist_blkListRm t o)
    rw [ho]
    refine hs.imp_of_mem fun {a b} ha hb hab => ?_
    rw [hu a (h.mem_blkListRm.1 ha).2, hu b (h.mem_blkListRm.1 hb).2]; exact hab

theorem PendWf.enter (h : PendWf k) (hw : ¬ (k.tasks t).waits) {l : List TaskId}
    (ho : k'.objs = (k.updObj o fun b => { b with blkList := l }).objs)
    (hl : l.Perm (t :: (k.objs o).blkList))
    (hs : (k.objs o).blkPolicy = .pri →
      l.Pairwise fun a b => (k'.tasks a).prio ≤ (k'.tasks b).prio)
    (hu : ∀ u ≠ t, k'.tasks u = k.tasks u) (ht : (k'.tasks t).on o) : PendWf k' := by
  have hobj : ∀ o', (k'.objs o').blkList = if o' = o then l else (k.objs o').blkList := fun o' => by
    rw [ho, Kernel.updObj_objs]; split_ifs <;> rfl
  have hpol : ∀ o', (k'.objs o').blkPolicy = (k.objs o').blkPolicy := fun o' => by
    rw [ho, Kernel.updObj_objs]; split_ifs with he
    · rw [he]
    · rfl
  refine ⟨fun o' => ?_, fun o' u => ?_, fun o' hp => ?_⟩
  · rw [hobj]
    split_ifs
    · rw [hl.nodup_iff]; exact List.nodup_cons.2 ⟨h.not_mem hw o, h.nodup o⟩
    · exact h.nodup o'
  · rw [hobj]
    by_cases hut : u = t
    · subst hut
      split_ifs with he
      · rw [hl.mem_iff, he]
        exact ⟨fun _ => ht, fun _ => by simp⟩
      · exact ⟨fun hm => absurd hm (h.not_mem hw o'),
          fun hm => absurd (Option.some.inj (hm.2.symm.trans ht.2)) he⟩
    · rw [hu u hut, ← h.mem]
      split_ifs with he
      · rw [hl.mem_iff, he, List.mem_cons]; simp [hut]
      · rfl
  · rw [hpol] at hp
    rw [hobj]
    split_ifs with he
    · exact hs (he ▸ hp)
    · refine (h.sorted o' hp).imp_of_mem fun {a b} ha hb hab => ?_
      rw [hu a fun hc => h.not_mem hw o' (hc ▸ ha), hu b fun hc => h.not_mem hw o' (hc ▸ hb)]
      exact hab

theorem PendWf.reorder (h : PendWf k) (p : ℕ) (hw : (k.tasks t).on o) :
    PendWf ((k.updTask t fun x => { x with prio := p }).pendListReorder t) := by
  set k₁ := k.updTask t fun x => { x with prio := p } with hk1
  have hwaits : ∀ u, (∀ o, (k₁.tasks u).on o ↔ (k.tasks u).on o) := fun u o => by
    rw [hk1, Kernel.updTask_tasks]; split_ifs with he
    · subst he; rfl
    · rfl
  have hb : (k₁.tasks t).blkObj = some o := by rw [hk1, Kernel.updTask_tasks_self]; exact hw.2
  have hprio : ∀ u ≠ t, (k₁.tasks u).prio = (k.tasks u).prio := fun u hu => by
    rw [hk1, Kernel.updTask_tasks_ne _ _ _ _ hu]
  have hm : ∀ o' u, u ∈ ((k₁.blkListRm t).objs o').blkList ↔ u ∈ (k.objs o').blkList ∧ u ≠ t := by
    intro o' u
    have : ((k₁.blkListRm t).objs o').blkList = ((k.blkListRm t).objs o').blkList := by
      rw [Kernel.blkListRm_objs, Kernel.blkListRm_objs, hb, hw.2]; rfl
    rw [this]; exact h.mem_blkListRm
  have hsub : ∀ o', ((k₁.blkListRm t).objs o').blkList.Sublist (k.objs o').blkList := fun o' =>
    PendWf.sublist_blkListRm (k := k₁) t o'
  unfold Kernel.pendListReorder
  rw [hb]
  dsimp only
  split_ifs with hpol
  · -- the list without the task is in order, and the task is put in its place
    have hperm := insertBefore_perm (fun x => ((k₁.blkListRm t).tasks x).prio >
      ((k₁.blkListRm t).tasks t).prio) t ((k₁.blkListRm t).objs o).blkList
    have hpair : ∀ o', (k.objs o').blkPolicy = .pri →
        ((k₁.blkListRm t).objs o').blkList.Pairwise
          fun a b => (k₁.tasks a).prio ≤ (k₁.tasks b).prio := by
      intro o' hp
      refine ((h.sorted o' hp).sublist (hsub o')).imp_of_mem fun {a b} ha hb' hab => ?_
      rw [hprio a ((hm o' a).1 ha).2, hprio b ((hm o' b).1 hb').2]; exact hab
    have hpolicy : ∀ o', (((k₁.blkListRm t).pendListAdd o t).objs o').blkPolicy =
        (k.objs o').blkPolicy := fun o' => by
      unfold Kernel.pendListAdd
      rw [Kernel.updObj_objs]
      split_ifs with he
      · subst he; exact (k₁.blkListRm_objs_type t o').2
      · exact (k₁.blkListRm_objs_type t o').2
    have hlist : ∀ o', (((k₁.blkListRm t).pendListAdd o t).objs o').blkList =
        if o' = o then insertBefore (fun x => ((k₁.blkListRm t).tasks x).prio >
          ((k₁.blkListRm t).tasks t).prio) t ((k₁.blkListRm t).objs o).blkList
        else ((k₁.blkListRm t).objs o').blkList := fun o' => by
      unfold Kernel.pendListAdd
      rw [Kernel.updObj_objs]; split_ifs <;> rfl
    refine ⟨fun o' => ?_, fun o' u => ?_, fun o' hp => ?_⟩
    · rw [hlist]
      split_ifs with he
      · rw [hperm.nodup_iff]
        exact List.nodup_cons.2 ⟨fun hc => ((hm o t).1 hc).2 rfl, (h.nodup o).sublist (hsub o)⟩
      · exact (h.nodup o').sublist (hsub o')
    · rw [Kernel.pendListAdd_tasks, Kernel.blkListRm_tasks, hlist, hwaits, ← h.mem]
      split_ifs with he
      · subst he
        rw [mem_insertBefore, hm]
        by_cases hut : u = t
        · subst hut; simp [(h.mem o' u).2 hw]
        · simp [hut]
      · rw [hm]
        refine ⟨fun hx => hx.1, fun hx => ⟨hx, ?_⟩⟩
        rintro rfl
        exact he (Option.some.inj (((h.mem o' u).1 hx).2.symm.trans hw.2))
    · rw [hpolicy] at hp
      rw [hlist, Kernel.pendListAdd_tasks, Kernel.blkListRm_tasks]
      split_ifs with he
      · subst he
        exact insertBefore_sorted (f := fun x => (k₁.tasks x).prio) (hpair o' hp)
      · exact hpair o' hp
  · -- another policy: the order does not matter
    have hobj : k₁.objs = k.objs := rfl
    refine ⟨h.nodup, fun o' u => ?_, fun o' hp => ?_⟩
    · rw [hwaits, hobj, h.mem]
    · refine (h.sorted o' hp).imp_of_mem fun {a b} ha hb' hab => ?_
      have hne : o' ≠ o := by
        rintro rfl; exact hpol hp
      have hnt : ∀ u ∈ (k.objs o').blkList, u ≠ t := by
        rintro u hu rfl
        exact hne (Option.some.inj (((h.mem o' u).1 hu).2.symm.trans hw.2))
      rw [hprio a (hnt a ha), hprio b (hnt b hb')]; exact hab

/-! ## A kernel where nobody waits -/

/-- A kernel whose tasks are all ready, at the priorities `prio`, with no objects. -/
def readyKernel (w : ℕ) (prio : TaskId → ℕ) : Kernel w where
  tasks t := {
    suspendCount := 0, mutexList := none, tickMatch := 0, tickRemain := 0, tickHead := false
    msg := fun _ => 0, bqMsgSize := 0, taskState := .rdy, blkState := .finish, blkObj := none
    prio := prio t, bPrio := prio t, mmAllocFlag := .staticAlloc }
  objs _ := ⟨[], .pri, .none⟩
  mutexes _ := ⟨none, none, 0, .staticAlloc⟩
  readyQueue := ⟨fun _ => [], fun _ => false, 0⟩
  tickHead := []
  tickCount := 0
  activeTask := 0
  schedLock := 0
  intrptNestedLevel := 0
  priMax := 62

theorem readyKernel_not_waits (prio : TaskId → ℕ) (t : TaskId) :
    ¬ ((readyKernel w prio).tasks t).waits := by simp [readyKernel, Task.waits]

theorem pendWf_readyKernel (prio : TaskId → ℕ) : PendWf (readyKernel w prio) :=
  ⟨fun _ => List.nodup_nil, fun _ t => ⟨fun h => absurd h List.not_mem_nil,
    fun h => absurd h.1 (readyKernel_not_waits prio t)⟩, fun _ _ => List.Pairwise.nil⟩

end Rhino
