/-
  The tick and the operations on a task keep the pend lists, and are quiet for
  the receivers of every object.
-/
import AliOS.Rhino.PendQuiet

namespace Rhino

variable {w : ℕ} {k k' : Kernel w} {t u : TaskId} {o : ObjId} {fuel : ℕ}

theorem pendStep_of_task (hk : PendWf k) (ho : k'.objs = k.objs)
    (hu : ∀ u ≠ t, k'.tasks u = k.tasks u) (hw : ¬ (k.tasks t).waits)
    (hw' : ¬ (k'.tasks t).waits) (hm : (k'.tasks t).msg = (k.tasks t).msg)
    (hs : (k'.tasks t).bqMsgSize = (k.tasks t).bqMsgSize)
    (hi : (k.tasks t).idle → (k'.tasks t).idle ∧ (k'.tasks t).blkState = (k.tasks t).blkState) :
    PendStep k k' := by
  refine ⟨hk.congr ho fun u => ?_, fun o => .of_task (t := t) (by rw [ho]) (by rw [ho]) hu
    ⟨hm, hs, hi, fun hx => absurd hx.1 hw, fun hx => absurd hx.1 hw'⟩⟩
  by_cases hut : u = t
  · subst hut
    exact ⟨fun o => ⟨fun hx => absurd hx.1 hw', fun hx => absurd hx.1 hw⟩, fun hx => absurd hx hw⟩
  · rw [hu u hut]; exact ⟨fun _ => Iff.rfl, fun _ => rfl⟩

theorem pendStep_of_waiting (hk : PendWf k) (ho : k'.objs = k.objs)
    (hu : ∀ u ≠ t, k'.tasks u = k.tasks u) (hw : (k.tasks t).waits) (hw' : (k'.tasks t).waits)
    (hb : (k'.tasks t).blkObj = (k.tasks t).blkObj) (hp : (k'.tasks t).prio = (k.tasks t).prio)
    (hm : (k'.tasks t).msg = (k.tasks t).msg)
    (hs : (k'.tasks t).bqMsgSize = (k.tasks t).bqMsgSize) : PendStep k k' := by
  have hon : ∀ o, (k'.tasks t).on o ↔ (k.tasks t).on o := fun o => by
    unfold Task.on; rw [hb]; exact ⟨fun h => ⟨hw, h.2⟩, fun h => ⟨hw', h.2⟩⟩
  refine ⟨hk.congr ho fun u => ?_, fun o => .of_task (t := t) (by rw [ho]) (by rw [ho]) hu
    ⟨hm, hs, fun hi => absurd hw hi.not_waits, fun hx => .inl ((hon o).2 hx), (hon o).1⟩⟩
  by_cases hut : u = t
  · subst hut; exact ⟨hon, fun _ => hp⟩
  · rw [hu u hut]; exact ⟨fun _ => Iff.rfl, fun _ => rfl⟩

namespace Kernel

theorem pendStep_endWait {bs : BlkState} {st : TaskStat} {ready : Bool} (hk : PendWf k)
    (hw : (k.tasks t).waits) (hst : st = .rdy ∨ st = .suspended)
    (hbs : bs = .timeout ∨ bs = .abort) (h : k.endWait fuel t bs st ready = some k') :
    PendStep k k' := by
  unfold endWait at h
  obtain ⟨k2, h2, rfl⟩ := Option.map_eq_some_iff.1 h
  have hsame := sameWait_tickListRm k t
  set k₁ := (if ready = true then ((k.tickListRm t).blkListRm t).readyListAdd t
    else (k.tickListRm t).blkListRm t).updTask t fun x =>
      { x with blkState := bs, taskState := st } with hk1
  have ho1 : k₁.objs = (k.blkListRm t).objs := by
    rw [hk1, updTask_objs, ← blkListRm_objs_of_sameWait hsame]
    split_ifs <;> simp
  have htasks : ∀ u, (if ready = true then ((k.tickListRm t).blkListRm t).readyListAdd t
      else (k.tickListRm t).blkListRm t).tasks u = (k.tickListRm t).tasks u := fun u => by
    split_ifs <;> simp
  have hne : ∀ u ≠ t, k₁.tasks u = k.tasks u := fun u hu => by
    rw [hk1, updTask_tasks_ne _ _ _ _ hu, htasks, tickListRm_tasks, updTask_tasks_ne _ _ _ _ hu]
  have hself : (k₁.tasks t).taskState = st ∧ (k₁.tasks t).blkState = bs ∧
      (k₁.tasks t).msg = (k.tasks t).msg ∧ (k₁.tasks t).bqMsgSize = (k.tasks t).bqMsgSize := by
    rw [hk1, updTask_tasks_self, htasks, tickListRm_tasks, updTask_tasks_self]
    exact ⟨rfl, rfl, rfl, rfl⟩
  have hidle : (k₁.tasks t).idle := by unfold Task.idle; rw [hself.1]; exact hst
  have h1 : PendStep k k₁ := by
    refine ⟨hk.leave ho1 hne hidle.not_waits, fun o => .of_task (t := t) ?_ ?_ hne
      ⟨hself.2.2.1, hself.2.2.2, fun hi => absurd hw hi.not_waits, fun _ => .inr ⟨hidle, ?_⟩,
        fun hx => absurd hx (hidle.not_on o)⟩⟩
    · rw [ho1]; exact (blkListRm_objs_type k t o).1
    · rw [ho1]; exact (blkListRm_objs_type k t o).2
    · rw [hself.2.1]; exact hbs
  have h12 := h1.trans (pendStep_mutexTaskPriReset h1.1 h2)
  have hidle2 : (k2.tasks t).idle :=
    (((pendStep_mutexTaskPriReset h1.1 h2).2 0).task t).idle hidle |>.1
  refine h12.trans (pendStep_of_task (t := t) h12.1 rfl
    (fun u hu => updTask_tasks_ne _ _ _ _ hu) hidle2.not_waits ?_ ?_ ?_ ?_)
  · rw [updTask_tasks_self]; exact fun hx => hidle2.not_waits hx
  · rw [updTask_tasks_self]
  · rw [updTask_tasks_self]
  · rw [updTask_tasks_self]; exact fun hx => ⟨hx, rfl⟩

theorem pendStep_tickTask (hk : PendWf k) (h : k.tickTask fuel t = some k') : PendStep k k' := by
  unfold tickTask at h
  split at h
  · rename_i hst
    cases h
    refine pendStep_of_task (t := t) hk (by simp) (fun u hu => ?_) (by simp [Task.waits, hst])
      ?_ ?_ ?_ ?_
    · rw [readyListAdd_tasks, tickListRm_tasks, updTask_tasks_ne _ _ _ _ hu,
        updTask_tasks_ne _ _ _ _ hu]
    all_goals rw [readyListAdd_tasks, tickListRm_tasks, updTask_tasks_self, updTask_tasks_self]
    · simp [Task.waits]
    · exact fun hi => by simp [Task.idle, hst] at hi
  · rename_i hst; exact pendStep_endWait hk (.inl hst) (.inl rfl) (.inl rfl) h
  · rename_i hst; exact pendStep_endWait hk (.inr hst) (.inr rfl) (.inl rfl) h
  · rename_i hst
    cases h
    refine pendStep_of_task (t := t) hk (by simp) (fun u hu => ?_) (by simp [Task.waits, hst])
      ?_ ?_ ?_ ?_
    · rw [tickListRm_tasks, updTask_tasks_ne _ _ _ _ hu, updTask_tasks_ne _ _ _ _ hu]
    all_goals rw [tickListRm_tasks, updTask_tasks_self, updTask_tasks_self]
    · simp [Task.waits]
    · exact fun hi => by simp [Task.idle, hst] at hi
  · obtain rfl := Option.some.inj h; exact (SameWait.refl _).step hk

theorem pendStep_tickLoop {ts : List TaskId} : ∀ {k : Kernel w}, PendWf k →
    k.tickLoop fuel ts = some k' → PendStep k k' := by
  induction ts with
  | nil => intro k hk h; obtain rfl := Option.some.inj h; exact (SameWait.refl _).step hk
  | cons t ts ih =>
    intro k hk h
    unfold tickLoop at h
    split_ifs at h
    · obtain ⟨k₁, h1, h2⟩ := Option.bind_eq_some_iff.1 h
      have hs := pendStep_tickTask hk h1
      exact hs.trans (ih hs.1 h2)
    · obtain rfl := Option.some.inj h; exact (SameWait.refl _).step hk

theorem pendStep_tickListUpdate (hk : PendWf k) (h : k.tickListUpdate fuel = some k') :
    PendStep k k' := by
  have hs : SameWait k { k with tickCount := k.tickCount + 1 } := .of_eq rfl rfl
  exact (hs.step hk).trans (pendStep_tickLoop (hs.wf hk) h)

theorem pendStep_upd {f : Task w → Task w} (hk : PendWf k) (hw : ¬ (k.tasks t).waits)
    (hw' : ¬ (f (k.tasks t)).waits) (hm : (f (k.tasks t)).msg = (k.tasks t).msg)
    (hs : (f (k.tasks t)).bqMsgSize = (k.tasks t).bqMsgSize)
    (hi : (k.tasks t).idle → (f (k.tasks t)).idle ∧
      (f (k.tasks t)).blkState = (k.tasks t).blkState) : PendStep k (k.updTask t f) :=
  pendStep_of_task (t := t) hk rfl (fun u hu => updTask_tasks_ne _ _ _ _ hu) hw
    (by rwa [updTask_tasks_self]) (by rwa [updTask_tasks_self]) (by rwa [updTask_tasks_self])
    (by rwa [updTask_tasks_self])

theorem pendStep_updWaiting {f : Task w → Task w} (hk : PendWf k) (hw : (k.tasks t).waits)
    (hw' : (f (k.tasks t)).waits) (hb : (f (k.tasks t)).blkObj = (k.tasks t).blkObj)
    (hp : (f (k.tasks t)).prio = (k.tasks t).prio) (hm : (f (k.tasks t)).msg = (k.tasks t).msg)
    (hs : (f (k.tasks t)).bqMsgSize = (k.tasks t).bqMsgSize) : PendStep k (k.updTask t f) :=
  pendStep_of_waiting (t := t) hk rfl (fun u hu => updTask_tasks_ne _ _ _ _ hu) hw
    (by rwa [updTask_tasks_self]) (by rwa [updTask_tasks_self]) (by rwa [updTask_tasks_self])
    (by rwa [updTask_tasks_self]) (by rwa [updTask_tasks_self])

theorem pendStep_taskSuspend (hk : PendWf k) : PendStep k (k.taskSuspend t).2 := by
  have hrefl := (SameWait.refl k).step hk
  have hcount : SameWait k (k.updTask t fun x => { x with suspendCount := x.suspendCount + 1 }) :=
    .updTask (fun _ => rfl) (fun _ => rfl) (fun _ => rfl) (fun _ => rfl) (fun _ => rfl) fun _ => rfl
  unfold taskSuspend
  split
  · exact hrefl
  · split <;> try dsimp only
    · rename_i hst
      refine SameWait.trans_step (pendStep_upd (t := t) hk (by simp [Task.waits, hst])
        (by simp [Task.waits]) rfl rfl fun _ => ⟨.inr rfl, rfl⟩) (.of_eq (readyListRm_objs ..) ?_)
      rw [readyListRm_tasks]
    · rename_i hst
      exact pendStep_upd hk (by simp [Task.waits, hst]) (by simp [Task.waits]) rfl rfl
        fun hi => by simp [Task.idle, hst] at hi
    · rename_i hst
      exact pendStep_updWaiting hk (.inl hst) (.inr rfl) rfl rfl rfl rfl
    all_goals try exact hrefl
    all_goals
      split_ifs
      · exact hrefl
      · exact hcount.step hk

theorem pendStep_krhinoTaskSuspend (hk : PendWf k) : PendStep k (k.krhinoTaskSuspend t).2 := by
  unfold krhinoTaskSuspend
  split_ifs
  · exact (SameWait.refl k).step hk
  · exact pendStep_taskSuspend hk

/-- One level of suspension less changes a state that is not read as a wait
    only by `st`. -/
theorem pendStep_resumeTo {st : TaskStat} (hk : PendWf k)
    (h : ∀ k', SameWait k k' → PendStep k' (k'.updTask t fun x => { x with taskState := st })) :
    PendStep k (k.resumeTo t st) := by
  have hs : SameWait k (k.updTask t fun x => { x with suspendCount := x.suspendCount - 1 }) :=
    .updTask (fun _ => rfl) (fun _ => rfl) (fun _ => rfl) (fun _ => rfl) (fun _ => rfl) fun _ => rfl
  unfold resumeTo
  dsimp only
  split_ifs
  · exact (hs.step hk).trans (h _ hs)
  · exact hs.step hk

theorem pendStep_krhinoTaskResume (hk : PendWf k) : PendStep k (k.krhinoTaskResume t).2 := by
  have hrefl := (SameWait.refl k).step hk
  unfold krhinoTaskResume
  split
  all_goals try exact hrefl
  all_goals rename_i hst; dsimp only
  · have h1 : PendStep k (k.resumeTo t .rdy) := pendStep_resumeTo hk fun k' hs =>
      pendStep_upd (hs.wf hk) (by simp [Task.waits, hs.taskState, hst]) (by simp [Task.waits])
        rfl rfl fun _ => ⟨.inl rfl, rfl⟩
    split_ifs
    · exact SameWait.trans_step h1 (.of_eq (readyListAdd_objs ..) (readyListAdd_tasks ..))
    · exact h1
  · exact pendStep_resumeTo hk fun k' hs =>
      pendStep_upd (hs.wf hk) (by simp [Task.waits, hs.taskState, hst]) (by simp [Task.waits])
        rfl rfl fun hi => by simp [Task.idle, hs.taskState, hst] at hi
  · exact pendStep_resumeTo hk fun k' hs =>
      pendStep_updWaiting (hs.wf hk) (.inr ((hs.taskState t).trans hst)) (.inl rfl) rfl rfl rfl rfl

theorem pendStep_krhinoTaskPriChange {pri : ℕ} {r : KStat × Kernel w} (hk : PendWf k)
    (h : k.krhinoTaskPriChange fuel t pri = some r) : PendStep k r.2 := by
  have hrefl := (SameWait.refl k).step hk
  unfold krhinoTaskPriChange at h
  split_ifs at h <;> try (obtain rfl := Option.some.inj h; exact hrefl)
  split at h
  · simp at h
  · have hs : SameWait k (k.updTask t fun x => { x with bPrio := pri }) :=
      .updTask (fun _ => rfl) (fun _ => rfl) (fun _ => rfl) (fun _ => rfl) (fun _ => rfl)
        fun _ => rfl
    exact (hs.step hk).trans (pendStep_taskPriChange (hs.wf hk) h)

theorem pendStep_krhinoTaskWaitAbort {r : KStat × Kernel w} (hk : PendWf k)
    (h : k.krhinoTaskWaitAbort fuel t = some r) : PendStep k r.2 := by
  have hrefl := (SameWait.refl k).step hk
  unfold krhinoTaskWaitAbort at h
  split_ifs at h
  · obtain rfl := Option.some.inj h; exact hrefl
  · split at h
    · obtain rfl := Option.some.inj h; exact hrefl
    · rename_i hst
      cases h
      refine SameWait.trans_step (pendStep_upd (t := t) hk (by simp [Task.waits, hst])
        (by simp [Task.waits]) rfl rfl fun _ => ⟨.inl rfl, rfl⟩) (.of_eq (readyListAdd_objs ..) ?_)
      rw [readyListAdd_tasks]
    all_goals try (obtain rfl := Option.some.inj h; exact hrefl)
    all_goals rename_i hst
    iterate 2
      cases h
      dsimp only
      have hs := (sameWait_tickListRm k t).trans
        (.of_eq (readyListAdd_objs (k.tickListRm t) t) (readyListAdd_tasks (k.tickListRm t) t))
      refine (hs.step hk).trans (pendStep_upd (hs.wf hk) ?_ (by simp [Task.waits]) rfl rfl
        fun hi => ?_)
      · unfold Task.waits; rw [hs.taskState, hst]; simp
      · unfold Task.idle at hi; rw [hs.taskState, hst] at hi; simp at hi
    · obtain ⟨k₁, h1, rfl⟩ := Option.map_eq_some_iff.1 h
      exact pendStep_endWait hk (.inr hst) (.inl rfl) (.inr rfl) h1
    · obtain ⟨k₁, h1, rfl⟩ := Option.map_eq_some_iff.1 h
      exact pendStep_endWait hk (.inl hst) (.inl rfl) (.inr rfl) h1

end Kernel

end Rhino
