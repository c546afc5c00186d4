/-
  Semaphores conserve their units.

  The system is a semaphore, the kernel with its tasks, and for each task
  whether it is inside `krhino_sem_take`, blocked or woken.  Any task that is
  ready, and any interrupt, may take the next step.  `SemSim` relates the
  system to a ledger; every step of the system is a legal event of the ledger.
-/
import AliOS.Rhino.TaskStep
import AliOS.Rhino.Receivers
import AliOS.Lib.Ledger

namespace Rhino

open Lib

variable {w : ℕ}

/-! ## The system -/

structure SemSys (w : ℕ) where
  k : Kernel w
  sem : Sem
  inTake : TaskId → Bool

/-- A step, with what it returns to its caller; `gone` is a task deleted. -/
inductive SemStep (w : ℕ) where
  | give (all : Bool) (stat : KStat) (served : List TaskId)
  | take (ticks : BitVec w) (stat : KStat)
  | block (t : TaskId) (ticks : BitVec w)
  | takeEnd (t : TaskId) (stat : KStat)
  | countSet (n : ℕ) (stat : KStat)
  | task (a : TaskAct) (gone : Option TaskId)
  deriving DecidableEq

/-- The active task runs, outside `krhino_sem_take`. -/
def SemSys.calls (s : SemSys w) : Prop :=
  (s.k.tasks s.k.activeTask).taskState = .rdy ∧ s.inTake s.k.activeTask = false

/-- The steps of the system. -/
inductive SemStep.Step : SemSys w → SemStep w → SemSys w → Prop
  | give {s all fuel r} (h : semGive fuel s.k s.sem all = some r) :
    Step s (.give all r.stat r.served) { s with k := r.k, sem := r.sem }
  | take {s ticks stat sem} (h : krhinoSemTake s.k s.sem ticks = .ret stat sem) :
    Step s (.take ticks stat) { s with sem := sem }
  | block {s ticks k} (hc : s.calls) (h : krhinoSemTake s.k s.sem ticks = .blocked k) :
    Step s (.block s.k.activeTask ticks)
      { s with k := k, inTake := Function.update s.inTake s.k.activeTask true }
  | takeEnd {s t} (ht : s.inTake t = true) (hr : (s.k.tasks t).taskState = .rdy) :
    Step s (.takeEnd t (krhinoSemTakeEnd s.k t))
      { s with inTake := Function.update s.inTake t false }
  | countSet {s n} :
    Step s (.countSet n (krhinoSemCountSet s.k s.sem n).1)
      { s with sem := (krhinoSemCountSet s.k s.sem n).2 }
  | task {s a k} (h : TaskStep s.sem.blkObj s.k a k) :
    Step s (.task a (a.gone k))
      { s with k := k, inTake := fun u => s.inTake u && a.gone k != some u }

/-- What a step is for the ledger. -/
def SemStep.events : SemStep w → List (LedgerEvent TaskId)
  | .give _ .success [] => [.give]
  | .give _ .success ts => [.hand ts]
  | .take _ .success => [.take]
  | .takeEnd t .success => [.ret t]
  | .takeEnd t _ => [.fail t]
  | .countSet n .success => [.set n]
  | .task _ (some t) => [.gone t]
  | _ => []

/-! ## The system and the ledger -/

/-- The system `s` is in the state `l` of the ledger. -/
structure SemSim (s : SemSys w) (l : Ledger TaskId) : Prop where
  wf : PendWf s.k
  apart : Apart s.sem.blkObj s.k
  objType : (s.k.objs s.sem.blkObj).objType = .sem
  count : s.sem.count = l.count
  /-- A task is blocked on the semaphore only while no unit is stored. -/
  blocked : ∀ t, (s.k.tasks t).on s.sem.blkObj → s.sem.count = 0 ∧ s.inTake t = true
  /-- Inside the take a task is blocked, or has been woken. -/
  taker : ∀ t, s.inTake t = true → (s.k.tasks t).on s.sem.blkObj ∨ (s.k.tasks t).idle ∧
    ((s.k.tasks t).blkState = .finish ∨ (s.k.tasks t).blkState = .timeout ∨
      (s.k.tasks t).blkState = .abort)
  /-- The tasks woken by a give are those that have been handed a unit. -/
  owed : ∀ t, t ∈ l.owed ↔
    s.inTake t = true ∧ (s.k.tasks t).idle ∧ (s.k.tasks t).blkState = .finish
  ledger : l.Wf

variable {s s' : SemSys w} {l : Ledger TaskId} {k k' : Kernel w} {t : TaskId} {o : ObjId}

/-! ## Give -/

theorem served_pendWakeupAll {fuel : ℕ} {r : Kernel w × List TaskId} (hk : PendWf k)
    (h : k.pendWakeupAll fuel o = some r) : Served o noMsg r.2 [] k r.1 := by
  induction fuel generalizing k r with
  | zero => simp [Kernel.pendWakeupAll] at h
  | succ fuel ih =>
    unfold Kernel.pendWakeupAll at h
    split at h
    · cases h
      exact ⟨hk, fun _ => ⟨rfl, rfl⟩, fun _ _ => rfl, by simp, by simp, by simp, by simp, by simp⟩
    · rename_i t ts hl
      obtain ⟨r', hr', rfl⟩ := Option.map_eq_some_iff.1 h
      have h1 := served_pendTaskWakeup hk ((hk.mem o t).1 (by simp [hl]))
      exact h1.cons (ih h1.wf hr')

theorem moves_pendWakeupAll {fuel : ℕ} {r : Kernel w × List TaskId} (hk : PendWf k)
    (h : k.pendWakeupAll fuel o = some r) : Moves k r.1 := by
  induction fuel generalizing k r with
  | zero => simp [Kernel.pendWakeupAll] at h
  | succ fuel ih =>
    unfold Kernel.pendWakeupAll at h
    split at h
    · cases h
      exact .refl
    · rename_i t ts hl
      obtain ⟨r', hr', rfl⟩ := Option.map_eq_some_iff.1 h
      have hon : (k.tasks t).on o := (hk.mem o t).1 (by simp [hl])
      have hrest := ih (Kernel.woken_pendTaskWakeup hk hon.1).wf hr'
      exact .cons (Kernel.move_pendTaskWakeup hon.1) hrest

theorem pendWakeupAll_total {fuel : ℕ} (hk : PendWf k) (hf : (k.objs o).blkList.length < fuel) :
    ∃ r, k.pendWakeupAll fuel o = some r := by
  induction fuel generalizing k with
  | zero => omega
  | succ fuel ih =>
    unfold Kernel.pendWakeupAll
    split
    · exact ⟨_, rfl⟩
    · rename_i t ts hl
      have h1 := served_pendTaskWakeup hk ((hk.mem o t).1 (by simp [hl]))
      have hsub : ((k.pendTaskWakeup t).objs o).blkList ⊆ ts := by
        intro u hu
        have hu' := (h1.wf.mem o u).1 hu
        have hut : u ≠ t := by
          rintro rfl
          exact (h1.idle u (by simp)).not_on o hu'
        rw [h1.others u (by simpa using hut), ← hk.mem, hl] at hu'
        exact (List.mem_cons.1 hu').resolve_left hut
      have hle := (List.subperm_of_subset (h1.wf.nodup o) hsub).length_le
      rw [hl, List.length_cons] at hf
      obtain ⟨r, hr⟩ := ih h1.wf (by omega)
      exact ⟨_, by rw [hr]; rfl⟩

namespace SemSim

theorem not_owed (h : SemSim s l) (ht : (s.k.tasks t).on s.sem.blkObj) : t ∉ l.owed :=
  fun hc => ((h.owed t).1 hc).2.1.not_on _ ht

theorem hand (h : SemSim s l) {ts : List TaskId} (hne : ts ≠ [])
    (hs : Served s.sem.blkObj noMsg ts [] s.k k) (ha : Apart s.sem.blkObj k) :
    ∃ l', l.step (.hand ts) = some l' ∧ SemSim { s with k := k } l' := by
  obtain ⟨u, hu⟩ := List.exists_mem_of_ne_nil ts hne
  have hcount : l.count = 0 := h.count ▸ (h.blocked u (hs.on u hu)).1
  have hstep : l.step (.hand ts) = some { l with
      owed := ts ++ l.owed, given := l.given + ts.length, taken := l.taken + ts.length } :=
    if_pos ⟨hcount, hs.nodup, fun t ht => h.not_owed (hs.on t ht)⟩
  refine ⟨_, hstep, hs.wf, ha, (hs.kind _).1.trans h.objType, h.count, fun t ht => ?_,
    fun t ht => ?_, fun t => ?_, Ledger.step_wf h.ledger hstep⟩
  · have hts : t ∉ ts := fun hc => (hs.idle t hc).not_on _ ht
    exact h.blocked t (hs.others t hts ▸ ht)
  · by_cases hts : t ∈ ts
    · exact .inr ⟨hs.idle t hts, .inl (hs.blkState t hts)⟩
    · dsimp only
      rw [hs.others t hts]
      exact h.taker t ht
  · rw [List.mem_append]
    by_cases hts : t ∈ ts
    · exact ⟨fun _ => ⟨(h.blocked t (hs.on t hts)).2, hs.idle t hts, hs.blkState t hts⟩,
        fun _ => .inl hts⟩
    · dsimp only
      rw [hs.others t hts, ← h.owed]
      simp [hts]

theorem give (h : SemSim s l) {all : Bool} {fuel : ℕ} {r : GiveResult w}
    (hr : semGive fuel s.k s.sem all = some r) :
    ∃ l', l.replay ((SemStep.give all r.stat r.served : SemStep w).events) = some l' ∧
      SemSim { s with k := r.k, sem := r.sem } l' := by
  unfold semGive at hr
  rw [if_neg (not_not.2 h.objType)] at hr
  split at hr
  · -- nobody waits
    rename_i hl
    split at hr
    · cases hr
      exact ⟨l, rfl, h⟩
    · cases hr
      refine ⟨_, rfl, h.wf, h.apart, h.objType, congrArg (· + 1) h.count, fun t ht => ?_, h.taker,
        h.owed, Ledger.step_wf (e := .give) h.ledger rfl⟩
      exact absurd ((h.wf.mem _ t).2 ht) (by simp [hl])
  · rename_i t ts hl
    have hon : (s.k.tasks t).on s.sem.blkObj := (h.wf.mem _ t).1 (by simp [hl])
    split at hr
    · obtain ⟨r', hr', rfl⟩ := Option.map_eq_some_iff.1 hr
      have hs := served_pendWakeupAll h.wf hr'
      obtain ⟨u, us, hus⟩ : ∃ u us, r'.2 = u :: us := by
        cases fuel with
        | zero => simp [Kernel.pendWakeupAll] at hr'
        | succ fuel =>
          unfold Kernel.pendWakeupAll at hr'
          rw [hl] at hr'
          obtain ⟨r'', -, rfl⟩ := Option.map_eq_some_iff.1 hr'
          exact ⟨_, _, rfl⟩
      have ha := h.apart.moves (moves_pendWakeupAll h.wf hr')
      obtain ⟨l', hl', hsim⟩ := h.hand (by simp [hus]) hs ha
      refine ⟨l', ?_, hsim⟩
      rw [hus] at hl' ⊢
      rw [← hl']
      exact Ledger.replay_single _ _
    · cases hr
      have ha := h.apart.move (Kernel.move_pendTaskWakeup hon.1)
      obtain ⟨l', hl', hsim⟩ := h.hand (by simp) (served_pendTaskWakeup h.wf hon) ha
      exact ⟨l', (Ledger.replay_single _ _).trans hl', hsim⟩

/-! ## Take and count -/

theorem setSem (h : SemSim s l) {sem : Sem} {l' : Ledger TaskId} (ho : sem.blkObj = s.sem.blkObj)
    (hc : sem.count = l'.count) (hb : ∀ t, (s.k.tasks t).on s.sem.blkObj → sem.count = 0)
    (hl : l'.owed = l.owed) (hw : l'.Wf) : SemSim { s with sem := sem } l' := by
  refine ⟨h.wf, by rw [ho]; exact h.apart, by rw [ho]; exact h.objType, hc, fun t ht => ?_,
    fun t ht => ?_, fun t => ?_, hw⟩
  · dsimp only at ht
    rw [ho] at ht
    exact ⟨hb t ht, (h.blocked t ht).2⟩
  · dsimp only
    rw [ho]
    exact h.taker t ht
  · rw [hl]
    exact h.owed t

theorem takeRet (h : SemSim s l) {ticks : BitVec w} {stat : KStat} {sem : Sem}
    (hr : krhinoSemTake s.k s.sem ticks = .ret stat sem) :
    ∃ l', l.replay ((SemStep.take ticks stat).events) = some l' ∧
      SemSim { s with sem := sem } l' := by
  unfold krhinoSemTake at hr
  rw [if_neg (not_not.2 h.objType)] at hr
  split_ifs at hr with h1 h2 h3 h4
  · cases hr
    exact ⟨l, rfl, h⟩
  · cases hr
    have hpos : l.count ≠ 0 := by
      rw [← h.count]
      omega
    have hstep : l.step .take = some { l with count := l.count - 1, taken := l.taken + 1 } :=
      if_neg hpos
    refine ⟨_, (Ledger.replay_single _ _).trans hstep, h.setSem rfl (congrArg (· - 1) h.count)
      (fun t ht => ?_) rfl (Ledger.step_wf h.ledger hstep)⟩
    have := (h.blocked t ht).1
    omega
  · cases hr
    exact ⟨l, rfl, h⟩
  · cases hr
    exact ⟨l, rfl, h⟩

theorem block (h : SemSim s l) {ticks : BitVec w} (hc : s.calls)
    (hr : krhinoSemTake s.k s.sem ticks = .blocked k) :
    SemSim { s with k := k, inTake := Function.update s.inTake s.k.activeTask true } l := by
  unfold krhinoSemTake at hr
  split_ifs at hr with h1 h2 h3 h4 h5
  cases hr
  have hzero : s.sem.count = 0 := by omega
  have hb := Kernel.blocked_pendToBlkObj h.wf (t := s.k.activeTask) (by simp [Task.waits, hc.1])
    s.sem.blkObj ticks
  have hm := (Kernel.move_pendToBlkObj hc.1 s.sem.blkObj ticks).1
  refine ⟨hb.wf, h.apart.move hm, (hb.kind _).1.trans h.objType, h.count, fun t ht => ?_,
    fun t ht => ?_, fun t => ?_, h.ledger⟩
  all_goals
    dsimp only at *
    by_cases hu : t = s.k.activeTask
  · exact ⟨hzero, by simp [hu]⟩
  · rw [hb.others t hu] at ht
    exact ⟨hzero, by simpa [hu] using (h.blocked t ht).2⟩
  · exact .inl (hu ▸ hb.on)
  · rw [hb.others t hu]
    exact h.taker t (by simpa [hu] using ht)
  · rw [h.owed, hu]
    exact ⟨fun hx => absurd hx.1 (by simp [hc.2]), fun hx => absurd hb.on (hx.2.1.not_on _)⟩
  · rw [h.owed, hb.others t hu, Function.update_of_ne hu]

theorem takeEnd_stat (h : SemSim s l) (ht : s.inTake t = true) (hi : (s.k.tasks t).idle) :
    krhinoSemTakeEnd s.k t = .success ∧ t ∈ l.owed ∨
      (krhinoSemTakeEnd s.k t = .blkTimeout ∨ krhinoSemTakeEnd s.k t = .blkAbort) ∧
        t ∉ l.owed := by
  have howed := h.owed t
  unfold krhinoSemTakeEnd
  rcases ((h.taker t ht).resolve_left (hi.not_on _)).2 with hb | hb | hb
  · exact .inl ⟨by rw [hb]; rfl, howed.2 ⟨ht, hi, hb⟩⟩
  · refine .inr ⟨.inl (by rw [hb]; rfl), fun hc => ?_⟩
    have := (howed.1 hc).2.2
    rw [hb] at this
    cases this
  · refine .inr ⟨.inr (by rw [hb]; rfl), fun hc => ?_⟩
    have := (howed.1 hc).2.2
    rw [hb] at this
    cases this

theorem leave (h : SemSim s l) {l' : Ledger TaskId} (hi : (s.k.tasks t).idle)
    (hc : l'.count = l.count) (ho : ∀ u, u ∈ l'.owed ↔ u ∈ l.owed ∧ u ≠ t) (hw : l'.Wf) :
    SemSim { s with inTake := Function.update s.inTake t false } l' := by
  refine ⟨h.wf, h.apart, h.objType, h.count.trans hc.symm, fun u hu => ?_, fun u hu => ?_,
    fun u => ?_, hw⟩
  all_goals
    by_cases hut : u = t
  · exact absurd (hut ▸ hu) (hi.not_on _)
  · simpa [hut] using h.blocked u hu
  · simp [hut] at hu
  · exact h.taker u (by simpa [hut] using hu)
  · rw [ho]
    simp [hut]
  · rw [ho, h.owed]
    simp [hut]

theorem takeEnd (h : SemSim s l) (ht : s.inTake t = true) (hr : (s.k.tasks t).taskState = .rdy) :
    ∃ l', l.replay ((SemStep.takeEnd t (krhinoSemTakeEnd s.k t) : SemStep w).events) = some l' ∧
      SemSim { s with inTake := Function.update s.inTake t false } l' := by
  rcases h.takeEnd_stat ht (.inl hr) with ⟨hs, hm⟩ | ⟨hs, hm⟩
  · have hstep : l.step (.ret t) = some { l with owed := l.owed.erase t } := if_pos hm
    refine ⟨{ l with owed := l.owed.erase t }, ?_,
      h.leave (.inl hr) rfl (fun u => ?_) (Ledger.step_wf h.ledger hstep)⟩
    · rw [hs]
      exact (Ledger.replay_single _ _).trans hstep
    · rw [h.ledger.owed.mem_erase_iff]
      exact and_comm
  · have hstep : l.step (.fail t) = some l := if_neg hm
    refine ⟨l, ?_, h.leave (.inl hr) rfl (fun u => ⟨fun hu => ⟨hu, ?_⟩, fun hu => hu.1⟩) h.ledger⟩
    · rcases hs with hs | hs
      · rw [hs]
        exact (Ledger.replay_single _ _).trans hstep
      · rw [hs]
        exact (Ledger.replay_single _ _).trans hstep
    · rintro rfl
      exact hm hu

theorem countSet (h : SemSim s l) (n : ℕ) :
    ∃ l', l.replay ((SemStep.countSet n (krhinoSemCountSet s.k s.sem n).1 : SemStep w).events) =
        some l' ∧
      SemSim { s with sem := (krhinoSemCountSet s.k s.sem n).2 } l' := by
  unfold krhinoSemCountSet
  rw [if_neg (not_not.2 h.objType)]
  split
  · exact ⟨l, rfl, h⟩
  split
  · rename_i h2
    refine ⟨_, rfl, h.setSem rfl rfl (fun t ht => ?_) rfl
      (Ledger.step_wf (e := .set n) h.ledger rfl)⟩
    rcases h2 with h2 | h2
    · have := (h.blocked t ht).1
      omega
    · exact absurd ((h.wf.mem _ t).2 ht) (by simp [h2])
  · exact ⟨l, rfl, h⟩

/-! ## The other steps -/

theorem task (h : SemSim s l) {a : TaskAct} (ha : TaskStep s.sem.blkObj s.k a k) :
    ∃ l', l.replay ((SemStep.task a (a.gone k) : SemStep w).events) = some l' ∧
      SemSim { s with k := k, inTake := fun u => s.inTake u && a.gone k != some u } l' := by
  have hs := ha.aside h.wf h.apart
  have hin : ∀ u, (s.inTake u && a.gone k != some u) = true ↔
      s.inTake u = true ∧ a.gone k ≠ some u := fun u => by simp
  -- the ledger without the task gone
  obtain ⟨l', hl', hcount, howed, hwf⟩ : ∃ l',
      l.replay ((SemStep.task a (a.gone k) : SemStep w).events) = some l' ∧
        l'.count = l.count ∧ (∀ u, u ∈ l'.owed ↔ u ∈ l.owed ∧ a.gone k ≠ some u) ∧ l'.Wf := by
    cases hg : a.gone k with
    | none => exact ⟨l, rfl, rfl, fun u => by simp, h.ledger⟩
    | some t =>
      refine ⟨_, Ledger.replay_single _ _, rfl, fun u => ?_,
        Ledger.step_wf (e := .gone t) h.ledger rfl⟩
      rw [h.ledger.owed.mem_erase_iff, and_comm]
      simp [eq_comm]
  refine ⟨l', hl', hs.wf, hs.apart, hs.objType.trans h.objType, h.count.trans hcount.symm,
    fun u hu => ?_, fun u hu => ?_, fun u => ?_, hwf⟩
  · have hg : a.gone k ≠ some u := fun hg =>
      (Task.not_idle_of_deleted (TaskAct.gone_deleted hg)).2 _ hu
    have hb := h.blocked u ((hs.quiet hg).noNew hu)
    exact ⟨hb.1, (hin u).2 ⟨hb.2, hg⟩⟩
  · obtain ⟨hu, hg⟩ := (hin u).1 hu
    rcases h.taker u hu with hon | ⟨hi, hb⟩
    · exact ((hs.quiet hg).left hon).imp_right fun hx => ⟨hx.1, .inr hx.2⟩
    · obtain ⟨hi', hb'⟩ := (hs.quiet hg).idle hi
      exact .inr ⟨hi', by rw [hb']; exact hb⟩
  · rw [howed, h.owed, hin]
    constructor
    · rintro ⟨⟨hu, hi, hb⟩, hg⟩
      obtain ⟨hi', hb'⟩ := (hs.quiet hg).idle hi
      exact ⟨⟨hu, hg⟩, hi', hb'.trans hb⟩
    · rintro ⟨⟨hu, hg⟩, hi, hb⟩
      refine ⟨⟨hu, ?_⟩, hg⟩
      rcases h.taker u hu with hon | ⟨hi', -⟩
      · -- it left by timeout or abort, so it was not woken by a give
        rcases (hs.quiet hg).left hon with hon' | ⟨-, hb' | hb'⟩
        · exact absurd hon' (hi.not_on _)
        · rw [hb'] at hb
          cases hb
        · rw [hb'] at hb
          cases hb
      · exact ⟨hi', ((hs.quiet hg).idle hi').2.symm.trans hb⟩

/-! ## Runs -/

theorem step (h : SemSim s l) {a : SemStep w} (hs : SemStep.Step s a s') :
    ∃ l', l.replay a.events = some l' ∧ SemSim s' l' := by
  cases hs with
  | give hr => exact h.give hr
  | take hr => exact h.takeRet hr
  | block hc hr => exact ⟨l, rfl, h.block hc hr⟩
  | takeEnd ht hr => exact h.takeEnd ht hr
  | countSet => exact h.countSet _
  | task ha => exact h.task ha

end SemSim

theorem semSim_create {k0 : Kernel w} {obj : ObjId} {c : ℕ} {sem : Sem} (hk : PendWf k0)
    (ha : Apart obj k0) (hnew : ∀ t, ¬ (k0.tasks t).on obj)
    (hc : krhinoSemCreate k0 obj c = (.success, k, sem)) :
    SemSim ⟨k, sem, fun _ => false⟩ (.new c) := by
  simp only [krhinoSemCreate, semCreate, Prod.mk.injEq, true_and] at hc
  obtain ⟨rfl, rfl⟩ := hc
  have hr := receivers_new hk hnew .sem noMsg
  exact ⟨hr.wf, ha.congr (fun _ => rfl) rfl, hr.objType, rfl, fun t ht => absurd ht (hnew t),
    by simp, by simp [Ledger.new], Ledger.wf_new c⟩

/-- **Semaphores conserve their units.**  In every run from the creation of a
    semaphore, by any tasks and interrupts: the log is a legal log of a ledger,
    so the units stored and the units taken are those the books began with and
    those given; a task is blocked on the semaphore only if none is stored; and
    the tasks that have been handed a unit and have not returned are those whose
    take will return success. -/
theorem sem_units_conserved {k₀ : Kernel w} {obj : ObjId} {c : ℕ} {sem : Sem} (hk : PendWf k₀)
    (ha : Apart obj k₀) (hnew : ∀ t, ¬ (k₀.tasks t).on obj)
    (hc : krhinoSemCreate k₀ obj c = (.success, k, sem)) {as : List (SemStep w)}
    (run : Run SemStep.Step ⟨k, sem, fun _ => false⟩ as s) :
    ∃ l : Ledger TaskId, (Ledger.new c).replay (as.flatMap SemStep.events) = some l ∧
      s.sem.count = l.count ∧ l.count + l.taken = l.base + l.given ∧ l.owed.Nodup ∧
      (s.sem.count > 0 → ∀ t, ¬ (s.k.tasks t).on s.sem.blkObj) ∧
      (∀ t, s.inTake t = true → (s.k.tasks t).idle →
        (krhinoSemTakeEnd s.k t = .success ↔ t ∈ l.owed)) ∧
      (∀ t ∈ l.owed, s.inTake t = true ∧ (s.k.tasks t).idle) ∧
      ∀ all, ∃ fuel r, semGive fuel s.k s.sem all = some r := by
  obtain ⟨l, hl, h⟩ := run.log (R := SemSim) (fun hsim hs => hsim.step hs)
    (semSim_create hk ha hnew hc)
  refine ⟨l, hl, h.count, h.ledger.balanced, h.ledger.owed, fun hp t ht => ?_, fun t ht hi => ?_,
    fun t ht => ?_, fun all => ?_⟩
  · have := (h.blocked t ht).1
    omega
  · rcases h.takeEnd_stat ht hi with ⟨hs, hm⟩ | ⟨hs, hm⟩
    · exact ⟨fun _ => hm, fun _ => hs⟩
    · refine ⟨fun hc => ?_, fun hc => absurd hc hm⟩
      rcases hs with hs | hs <;> rw [hs] at hc <;> cases hc
  · obtain ⟨hin, hi, -⟩ := (h.owed t).1 ht
    exact ⟨hin, hi⟩
  · obtain ⟨r, hr⟩ := pendWakeupAll_total (o := s.sem.blkObj) h.wf (Nat.lt_add_one _)
    refine ⟨(s.k.objs s.sem.blkObj).blkList.length + 1, ?_⟩
    unfold semGive
    split
    · exact ⟨_, rfl⟩
    split
    · split
      · exact ⟨_, rfl⟩
      · exact ⟨_, rfl⟩
    · split
      · exact ⟨_, by rw [hr]; rfl⟩
      · exact ⟨_, rfl⟩

/-- A unit given and taken. -/
theorem sem_units_conserved_give_take :
    ∃ l : Ledger TaskId, (Ledger.new 0).replay [.give, .take] = some l ∧
      l.count + l.taken = l.base + l.given := by
  have hnew : ∀ t, ¬ ((readyKernel 32 fun _ => 10).tasks t).on 0 := fun t h =>
    readyKernel_not_waits _ t h.1
  obtain ⟨l, h1, -, h2, -⟩ := sem_units_conserved (pendWf_readyKernel fun _ => 10)
    (apart_readyKernel _ 0) hnew (c := 0) rfl
    (.cons (@SemStep.Step.give _ _ false 1 _ rfl)
      (.cons (@SemStep.Step.take _ _ 0 .success _ rfl) .nil))
  exact ⟨l, h1, h2⟩

/-- A `krhino_sem_give` that was accepted. -/
def SemStep.singleGive : SemStep w → Bool
  | .give false .success _ => true
  | _ => false

/-- A take that returned success. -/
def SemStep.takeOk : SemStep w → Bool
  | .take _ .success | .takeEnd _ .success => true
  | _ => false

/-- A give to all gives more than one unit: both tasks that wait return with
    one, and no single give has been made. -/
theorem sem_give_all_units :
    ∃ (k : Kernel 32) (sem : Sem) (s : SemSys 32) (as : List (SemStep 32)),
      krhinoSemCreate (readyKernel 32 fun _ => 10) 0 0 = (.success, k, sem) ∧
      Run SemStep.Step ⟨k, sem, fun _ => false⟩ as s ∧
      s.inTake 0 = false ∧ s.inTake 1 = false ∧
      as.countP SemStep.takeOk = 2 ∧ as.countP SemStep.singleGive = 0 ∧
      s.sem.count + as.countP SemStep.takeOk ≠ 0 + as.countP SemStep.singleGive := by
  refine ⟨_, _, _, _, rfl,
    .cons (@SemStep.Step.block _ _ 5 _ ⟨rfl, rfl⟩ rfl)
    (.cons (@SemStep.Step.task _ _ (.schedule 1) _ (.schedule rfl))
    (.cons (@SemStep.Step.block _ _ 5 _ ⟨rfl, rfl⟩ rfl)
    (.cons (@SemStep.Step.task _ _ (.schedule 2) _ (.schedule rfl))
    (.cons (@SemStep.Step.give _ _ true 3 _ rfl)
    (.cons (@SemStep.Step.takeEnd _ _ 0 rfl rfl)
    (.cons (@SemStep.Step.takeEnd _ _ 1 rfl rfl) .nil)))))), rfl, rfl, rfl, rfl, ?_⟩
  decide

end Rhino
