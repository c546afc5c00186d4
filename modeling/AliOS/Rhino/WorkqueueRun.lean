/-
  Work queues: what the steps do to the timer of a work and to the list of a
  queue.

  Of the timers a work sees its own: the commands queued for it, and whether it
  is on `g_timer_head` (`TimerSeen`).  A work is on the list of a queue exactly
  when `work_exit` is set and its `wq` is the queue (`WorkWf`).
-/
import AliOS.Rhino.Workqueue
import AliOS.Rhino.TimerRun
import AliOS.Rhino.Receivers

namespace Rhino

open Lib

variable {w num : ℕ} {idle : BitVec w}

/-! ## The semaphore -/

/-- The semaphore of the queue, on which only its worker `t` blocks. -/
structure WorkQueue.HasSem (x : WorkQueue) (k : Kernel w) (sem : Sem) (t : TaskId) : Prop where
  objType : (k.objs sem.blkObj).objType = x.semType
  count : sem.count = x.count
  blkList : (k.objs sem.blkObj).blkList = if x.worker = .blocked then [t] else []

theorem WorkQueue.HasSem.give {x : WorkQueue} {k : Kernel w} {sem : Sem} {t : TaskId} {fuel : ℕ}
    {r : GiveResult w} (hk : PendWf k) (h : x.HasSem k sem t)
    (hr : krhinoSemGive fuel k sem = some r) :
    r.stat = x.semGive.1 ∧ x.semGive.2.HasSem r.k r.sem t := by
  unfold krhinoSemGive Rhino.semGive at hr
  unfold WorkQueue.semGive
  rw [h.objType, h.blkList] at hr
  by_cases ht : x.semType = .sem
  swap
  · rw [if_pos ht] at hr ⊢
    cases hr
    exact ⟨rfl, h⟩
  rw [if_neg (not_not.2 ht)] at hr ⊢
  by_cases hb : x.worker = .blocked
  · rw [if_pos hb] at hr ⊢
    cases hr
    have hon : (k.tasks t).on sem.blkObj := (hk.mem _ t).1 (by rw [h.blkList, if_pos hb]; simp)
    have hs := served_pendTaskWakeup hk hon
    refine ⟨rfl, (hs.kind _).1.trans h.objType, h.count, ?_⟩
    rw [if_neg nofun, List.eq_nil_iff_forall_not_mem]
    intro u hu
    rw [hs.wf.mem] at hu
    by_cases hut : u = t
    · subst hut
      exact (hs.idle u (by simp)).not_on _ hu
    · rw [hs.others u (by simpa using hut), ← hk.mem, h.blkList, if_pos hb] at hu
      exact hut (by simpa using hu)
  · rw [if_neg hb] at hr ⊢
    rw [h.count] at hr
    by_cases hc : x.count = semCountMax
    · rw [if_pos hc]
      simp only [hc, if_true] at hr
      cases hr
      exact ⟨rfl, h⟩
    · rw [if_neg hc]
      simp only [hc, if_false] at hr
      cases hr
      exact ⟨rfl, h.objType, rfl, h.blkList⟩

/-! ## The timer of a work -/

namespace Timers

variable {s : Timers w} {t u : TimerId} {cb : KTimerQueueCb w}

theorem cmdProc_of_ne (hs : s.Wf) (h : t ≠ cb.timer) (cmd : TimerCmd) :
    (s.cmdProc cb cmd).timers t = s.timers t ∧
      (t ∈ (s.cmdProc cb cmd).timerHead ↔ t ∈ s.timerHead) := by
  by_cases h1 : cmd = .start
  · rw [h1, start_eq hs]
    split
    · refine ⟨link_ne s _ h, ?_⟩
      rw [link_timerHead, mem_insertBefore]
      simp [h]
    · exact ⟨rfl, .rfl⟩
  by_cases h2 : cmd = .stop
  · rw [h2, stop_eq hs]
    split
    · exact ⟨unlink_ne s h, List.mem_erase_of_ne h⟩
    · exact ⟨rfl, .rfl⟩
  rcases edit_cases s cb h1 h2 with he | ⟨-, f, he, -, -⟩
  · rw [he]
    exact ⟨rfl, .rfl⟩
  · rw [he]
    exact ⟨updTimer_ne s f h, .rfl⟩

theorem timerCmdProc_of_ne (hs : s.Wf) (h : t ≠ cb.timer) :
    (s.timerCmdProc cb).timers t = s.timers t ∧
      (t ∈ (s.timerCmdProc cb).timerHead ↔ t ∈ s.timerHead) := by
  unfold timerCmdProc
  split
  · have h1 := cmdProc_of_ne hs h .stop
    have h2 := cmdProc_of_ne (hs.cmdProc cb .stop) h .argChg
    have h3 := cmdProc_of_ne ((hs.cmdProc cb .stop).cmdProc cb .argChg) h .start
    exact ⟨h3.1.trans (h2.1.trans h1.1), h3.2.trans (h2.2.trans h1.2)⟩
  · exact cmdProc_of_ne hs h _

theorem mem_of_auto (hs : s.Wf) (hl : (s.timers cb.timer).objType = .timer)
    (hc : cb.cbNum = .argChgAuto) : cb.timer ∈ (s.timerCmdProc cb).timerHead := by
  have h1 := hs.cmdProc cb .stop
  have h2 := h1.cmdProc cb .argChg
  have ht : ((s.cmdProc cb .stop).cmdProc cb .argChg |>.timers cb.timer).objType = .timer := by
    have h : SameTerms cb.timer s ((s.cmdProc cb .stop).cmdProc cb .argChg) :=
      (sameTerms_cmdProc hs (.inr (.inl rfl))).trans (sameTerms_cmdProc h1 (.inr (.inr rfl)))
    rw [h.objType, hl]
  unfold timerCmdProc
  rw [if_pos hc, start_eq h2]
  split
  · rw [link_timerHead, mem_insertBefore]
    exact .inl rfl
  · rename_i hi
    rw [h2.mem_iff]
    refine ⟨ht, ?_⟩
    by_contra ha
    refine hi ⟨ht, ?_⟩
    cases hst : ((s.cmdProc cb .stop).cmdProc cb .argChg |>.timers cb.timer).timerState with
    | deactive => rfl
    | active => exact absurd hst ha

theorem timerCbProc_of_ne (hs : s.Wf) (hu : u ∈ s.timerHead) (h : t ≠ u) :
    t ∈ (s.timerCbProc u).1.timerHead ↔ t ∈ s.timerHead := by
  rw [fire_eq hs hu]
  split
  · rw [link_timerHead, mem_insertBefore, unlink_timerHead, List.mem_erase_of_ne h]
    simp [h]
  · exact List.mem_erase_of_ne h

theorem sameTerms_run (hs : s.Wf) (hc : cb.cbNum = .argChgAuto ∨ cb.cbNum = .stop) :
    SameTerms t s (s.timerCmdProc cb) := by
  unfold timerCmdProc
  split
  · have h1 := hs.cmdProc cb .stop
    have h2 := h1.cmdProc cb .argChg
    exact ((sameTerms_cmdProc hs (.inr (.inl rfl))).trans
      (sameTerms_cmdProc h1 (.inr (.inr rfl)))).trans (sameTerms_cmdProc h2 (.inl rfl))
  · rename_i hn
    rw [hc.resolve_left hn]
    exact sameTerms_cmdProc hs (.inr (.inl rfl))

end Timers

/-- The commands queued for the timer. -/
def TimerSys.cmds (s : TimerSys w) (t : TimerId) : List TimerCmd :=
  (s.queue.filter (·.timer = t)).map (·.cbNum)

/-- What a step of `timer_task`, or of a task with another timer, is to the
    timer `t`. -/
inductive TimerSeen (t : TimerId) (s s' : TimerSys w) : TimerAct w → Prop
  | other {a} (hcmd : ∀ d c, a = .cmd d c → c.timer ≠ t) (hfire : a ≠ .fire t)
    (terms : Timers.SameTerms t s.toTimers s'.toTimers) (head : t ∈ s'.timerHead ↔ t ∈ s.timerHead)
    (cmds : s'.cmds t = s.cmds t) : TimerSeen t s s' a
  | cmd {d c} (ht : c.timer = t) (cmds : s.cmds t = c.cbNum :: s'.cmds t)
    (auto : c.cbNum = .argChgAuto →
      Timers.SameTerms t s.toTimers s'.toTimers ∧ t ∈ s'.timerHead)
    (stop : c.cbNum = .stop → Timers.SameTerms t s.toTimers s'.toTimers ∧ t ∉ s'.timerHead) :
    TimerSeen t s s' (.cmd d c)
  | fire (ht : t ∈ s.timerHead) (terms : Timers.SameTerms t s.toTimers s'.toTimers)
    (once : (s.timers t).roundTicks = 0 → t ∉ s'.timerHead) (cmds : s'.cmds t = s.cmds t) :
    TimerSeen t s s' (.fire t)

section
variable {x x' : TimerSys w} {a : TimerAct w} {t : TimerId}

theorem timerSend_cmds {queue : List (KTimerQueueCb w)} {cb : KTimerQueueCb w}
    (h : cb.timer ≠ t) : (timerSend num queue cb).2.filter (·.timer = t) =
      queue.filter (·.timer = t) := by
  unfold timerSend
  split
  · rw [List.filter_append, List.filter_cons_of_neg (by simpa using h), List.filter_nil,
      List.append_nil]
  · rfl

theorem TimerStep.seen (hx : TimerInv x) (h : TimerStep num idle x a x')
    (hl : (x.timers t).objType = .timer) (ht : a.client ≠ some t) : TimerSeen t x x' a := by
  cases h with
  | @create u intrpt cb first round arg autoRun flag r hu h =>
    have htu : t ≠ u := fun hc => ht (congrArg some hc.symm)
    have hq : r.2.2.filter (·.timer = t) = x.queue.filter (·.timer = t) := by
      subst h
      unfold timerCreate
      split
      · rfl
      split
      · rfl
      split
      · rfl
      split
      · rfl
      split
      · exact timerSend_cmds htu.symm
      · rfl
    have hcmds : TimerSys.cmds { x with toTimers := r.2.1, queue := r.2.2 } t = x.cmds t :=
      congrArg (List.map _) hq
    rcases timerCreate_timers h with he | ⟨y, -, -, he⟩
    · refine .other nofun nofun ?_ ?_ hcmds
      · rw [he]
        exact .refl
      · rw [he]
    · refine .other nofun nofun ?_ ?_ hcmds
      · rw [he]
        refine ⟨?_, ?_, ?_⟩
        all_goals rw [Timers.updTimer_ne _ _ htu]
      · rw [he, Timers.updTimer_timerHead]
  | @send cb hc =>
    refine .other nofun nofun .refl .rfl ?_
    exact congrArg (List.map _) (timerSend_cmds fun hc => ht (congrArg some hc))
  | block => exact .other nofun nofun .refl .rfl rfl
  | @cmd inner ticks d cb q hp hq =>
    have hr := hx.wf.readCount d
    by_cases htc : cb.timer = t
    · refine .cmd htc ?_ (fun hc => ⟨?_, ?_⟩) fun hc => ⟨?_, ?_⟩
      · unfold TimerSys.cmds
        rw [hq, List.filter_cons_of_pos (by simpa using htc)]
        rfl
      · have h := Timers.sameTerms_run (t := t) hr (.inl hc)
        exact ⟨h.objType, h.initCount, h.roundTicks⟩
      · rw [← htc] at hl ⊢
        exact Timers.mem_of_auto hr hl hc
      · have h := Timers.sameTerms_run (t := t) hr (.inr hc)
        exact ⟨h.objType, h.initCount, h.roundTicks⟩
      · rw [← htc]
        exact Timers.not_mem_of_stop hr hc
    · have hne := Timers.timerCmdProc_of_ne hr (Ne.symm htc)
      refine .other (fun d' c' he => ?_) nofun ?_ hne.2 ?_
      · cases he
        exact htc
      · have h1 := congrArg KTimer.objType hne.1
        exact ⟨h1, congrArg KTimer.initCount hne.1, congrArg KTimer.roundTicks hne.1⟩
      · unfold TimerSys.cmds
        rw [hq, List.filter_cons_of_neg (by simpa using htc)]
        rfl
  | timeoutOuter => exact .other nofun nofun ⟨rfl, rfl, rfl⟩ .rfl rfl
  | timeoutInner => exact .other nofun nofun ⟨rfl, rfl, rfl⟩ .rfl rfl
  | leave => exact .other nofun nofun .refl .rfl rfl
  | wait => exact .other nofun nofun .refl .rfl rfl
  | late => exact .other nofun nofun ⟨rfl, rfl, rfl⟩ .rfl rfl
  | @fire u r hp hd h =>
    subst h
    have hu := hx.walk u hp
    by_cases htu : t = u
    · subst htu
      exact .fire hu (Timers.timerCbProc_terms hx.wf hu) (Timers.not_mem_of_once hx.wf hu) rfl
    · refine .other nofun (fun hc => htu ?_) (Timers.timerCbProc_terms hx.wf hu)
        (Timers.timerCbProc_of_ne hx.wf hu htu) rfl
      cases hc
      rfl
  | walkBreak => exact .other nofun nofun .refl .rfl rfl
  | walkEnd => exact .other nofun nofun .refl .rfl rfl

end

/-! ## The invariant -/

namespace WorkSys

variable (s : WorkSys w) (q p : WqId) (u v : WorkId)

/-! What an insertion leaves as it is. -/

@[simp] theorem insert_cb : (s.insert q v).cb = s.cb := rfl
@[simp] theorem insert_calls : (s.insert q v).calls = s.calls := rfl
@[simp] theorem insert_gives : (s.insert q v).gives = s.gives := rfl

theorem updWork_self (f : Work w → Work w) : (s.updWork v f).works v = f (s.works v) :=
  Function.update_self ..

theorem updWork_ne {u v : WorkId} (f : Work w → Work w) (h : u ≠ v) :
    (s.updWork v f).works u = s.works u := Function.update_of_ne h ..

theorem updQueue_self (f : WorkQueue → WorkQueue) : (s.updQueue q f).queues q = f (s.queues q) :=
  Function.update_self ..

theorem updQueue_ne {q p : WqId} (f : WorkQueue → WorkQueue) (h : p ≠ q) :
    (s.updQueue q f).queues p = s.queues p := Function.update_of_ne h ..

@[simp] theorem updWork_queues (f : Work w → Work w) : (s.updWork v f).queues = s.queues := rfl

@[simp] theorem updQueue_works (f : WorkQueue → WorkQueue) : (s.updQueue q f).works = s.works := rfl

/-- The works keep their delays and timers. -/
def SameTimers (s s' : WorkSys w) : Prop :=
  ∀ v, (s'.works v).dly = (s.works v).dly ∧ (s'.works v).timer = (s.works v).timer

variable {s}

theorem sameTimers_updWork {v : WorkId} {f : Work w → Work w}
    (hf : ∀ x, (f x).dly = x.dly ∧ (f x).timer = x.timer) : SameTimers s (s.updWork v f) := by
  intro u
  by_cases hu : u = v
  · subst hu
    rw [updWork_self]
    exact hf _
  · rw [updWork_ne s f hu]
    exact ⟨rfl, rfl⟩

end WorkSys

/-- The work whose timer the callback is about. -/
def CbPc.work : CbPc → Option WorkId
  | .idle => none
  | .enter v _ | .give v _ | .done v => some v

/-- The timers of the works: each work has its own, started and stopped by its
    calls only. -/
structure WorkTimers (s : WorkSys w) : Prop where
  timers : TimerInv s.tm
  distinct : ∀ u v, (s.works u).dly ≠ 0 → (s.works v).dly ≠ 0 →
    (s.works u).timer = (s.works v).timer → u = v
  live : ∀ v, (s.works v).dly ≠ 0 → (s.tm.timers (s.works v).timer).objType = .timer ∧
    (s.tm.timers (s.works v).timer).roundTicks = 0
  cmds : ∀ v, (s.works v).dly ≠ 0 →
    ∀ c ∈ s.tm.cmds (s.works v).timer, c = .argChgAuto ∨ c = .stop
  priv : ∀ v, (s.works v).dly ≠ 0 → .argChgAuto ∈ s.tm.cmds (s.works v).timer ∨
    (s.works v).timer ∈ s.tm.timerHead → s.priv (s.works v).timer = v
  cb : ∀ v, s.cb.work = some v →
    (s.works v).dly ≠ 0 ∧ s.tm.pc = .walk (some (s.works v).timer)

/-- The lists of the queues: a work is on one exactly when its `work_exit` is
    set. -/
structure WorkLists (s : WorkSys w) : Prop where
  mem : ∀ q v, v ∈ (s.queues q).workList ↔
    (s.works v).workExit = true ∧ (s.works v).wq = some q
  nodup : ∀ q, (s.queues q).workList.Nodup
  wq : ∀ v, (s.works v).workExit = true → (s.works v).wq ≠ none

/-- The invariant of the works. -/
structure WorkWf (s : WorkSys w) : Prop where
  timers : WorkTimers s
  lists : WorkLists s

variable {s s' : WorkSys w} {a : WorkAct w} {q p : WqId} {u v : WorkId}

theorem timerSend_cmds_self {queue : List (KTimerQueueCb w)} {cb : KTimerQueueCb w} {t : TimerId}
    (h : cb.timer = t) : ((timerSend num queue cb).2.filter (·.timer = t)).map (·.cbNum) =
      (queue.filter (·.timer = t)).map (·.cbNum) ++ if queue.length < num then [cb.cbNum] else [] := by
  unfold timerSend
  split
  · rw [List.filter_append, List.filter_cons_of_pos (by simpa using h), List.filter_nil,
      List.map_append]
    rfl
  · rw [List.append_nil]

/-! ### The timers of the works -/

theorem WorkTimers.tm (h : WorkTimers s) {b : TimerAct w} {tm : TimerSys w} {cb : CbPc}
    (hb : TimerStep num idle s.tm b tm)
    (hv : ∀ v, (s.works v).dly ≠ 0 → b.client ≠ some (s.works v).timer)
    (hcb : ∀ v, cb.work = some v → s.cb.work = some v ∧ tm.pc = s.tm.pc) :
    WorkTimers { s with tm := tm, cb := cb } := by
  have hseen : ∀ v, (s.works v).dly ≠ 0 → TimerSeen (s.works v).timer s.tm tm b :=
    fun v hd => hb.seen h.timers (h.live v hd).1 (hv v hd)
  refine ⟨(hb.inv h.timers).1, h.distinct, fun v hd => ?_, fun v hd c hc => ?_, fun v hd hp => ?_,
    fun v hw => ?_⟩
  · have hterms : Timers.SameTerms (s.works v).timer s.tm.toTimers tm.toTimers := by
      cases hseen v hd with
      | other _ _ terms => exact terms
      | @cmd d c ht cmds auto stop =>
        rcases h.cmds v hd c.cbNum (by rw [cmds]; simp) with hc | hc
        · exact (auto hc).1
        · exact (stop hc).1
      | fire _ terms => exact terms
    have hl := h.live v hd
    exact ⟨hterms.objType.trans hl.1, hterms.roundTicks.trans hl.2⟩
  · refine h.cmds v hd c ?_
    cases hseen v hd with
    | other _ _ _ _ cmds => rwa [← cmds]
    | cmd _ cmds => rw [cmds]; exact List.mem_cons_of_mem _ hc
    | fire _ _ _ cmds => rwa [← cmds]
  · refine h.priv v hd ?_
    cases hseen v hd with
    | other _ _ _ head cmds =>
      rw [← cmds, ← head]
      exact hp
    | @cmd d c ht cmds auto stop =>
      rw [cmds]
      rcases h.cmds v hd c.cbNum (by rw [cmds]; simp) with hc | hc
      · exact .inl (by simp [hc])
      · exact .inl (List.mem_cons_of_mem _ (hp.resolve_right (stop hc).2))
    | fire ht _ _ cmds => exact .inr ht
  · obtain ⟨hw', hpc⟩ := hcb v hw
    have hc := h.cb v hw'
    exact ⟨hc.1, hpc.trans hc.2⟩

theorem WorkTimers.congr (h : WorkTimers s) (htm : s'.tm = s.tm) (hp : s'.priv = s.priv)
    (hw : s.SameTimers s') (hcb : ∀ v, s'.cb.work = some v →
      (s.works v).dly ≠ 0 ∧ s.tm.pc = .walk (some (s.works v).timer)) : WorkTimers s' := by
  refine ⟨htm ▸ h.timers, fun u v hu hv he => ?_, fun v hv => ?_, fun v hv => ?_, fun v hv => ?_,
    fun v hv => ?_⟩
  · rw [(hw u).1] at hu
    rw [(hw v).1] at hv
    rw [(hw u).2, (hw v).2] at he
    exact h.distinct u v hu hv he
  · rw [(hw v).1] at hv
    rw [htm, (hw v).2]
    exact h.live v hv
  · rw [(hw v).1] at hv
    rw [htm, (hw v).2]
    exact h.cmds v hv
  · rw [(hw v).1] at hv
    rw [htm, (hw v).2, hp]
    exact h.priv v hv
  · rw [htm, (hw v).1, (hw v).2]
    exact hcb v hv

theorem WorkTimers.send (h : WorkTimers s) (num : ℕ) {c : KTimerQueueCb w} (priv : TimerId → WorkId)
    (hc : c.timer = (s.works v).timer) (hn : c.cbNum = .argChgAuto ∨ c.cbNum = .stop)
    (hp : ∀ u, (s.works u).dly ≠ 0 → s.priv (s.works u).timer = u → priv (s.works u).timer = u)
    (hv : c.cbNum = .argChgAuto → priv (s.works v).timer = v) (hd : (s.works v).dly ≠ 0) :
    WorkTimers { s with
      priv := priv, tm := { s.tm with queue := (timerSend num s.tm.queue c).2 } } := by
  have hmem : ∀ u, (s.works u).dly ≠ 0 → ∀ x,
      x ∈ TimerSys.cmds { s.tm with queue := (timerSend num s.tm.queue c).2 } (s.works u).timer →
      x ∈ s.tm.cmds (s.works u).timer ∨ u = v ∧ x = c.cbNum := by
    intro u hu x hx
    unfold TimerSys.cmds at hx
    by_cases huv : u = v
    · subst huv
      rw [timerSend_cmds_self hc, List.mem_append] at hx
      refine hx.imp_right fun hx => ⟨rfl, ?_⟩
      split at hx
      · simpa using hx
      · simp at hx
    · dsimp only at hx
      rw [timerSend_cmds fun he => huv (h.distinct u v hu hd (he.symm.trans hc))] at hx
      exact .inl hx
  refine ⟨⟨h.timers.wf, h.timers.walk⟩, h.distinct, h.live, fun u hu x hx => ?_,
    fun u hu hx => ?_, h.cb⟩
  · rcases hmem u hu x hx with hx | ⟨-, rfl⟩
    · exact h.cmds u hu x hx
    · exact hn
  · rcases hx with hx | hx
    · rcases hmem u hu _ hx with hx | ⟨rfl, hx⟩
      · exact hp u hu (h.priv u hu (.inl hx))
      · exact hv hx.symm
    · exact hp u hu (h.priv u hu (.inr hx))

/-! ### The lists of the queues -/

theorem WorkLists.congr (h : WorkLists s)
    (hq : ∀ q, (s'.queues q).workList = (s.queues q).workList)
    (hw : ∀ v, (s'.works v).workExit = (s.works v).workExit ∧
      (s'.works v).wq = (s.works v).wq) : WorkLists s' := by
  refine ⟨fun q v => ?_, fun q => ?_, fun v hv => ?_⟩
  · rw [hq, (hw v).1, (hw v).2]
    exact h.mem q v
  · rw [hq]
    exact h.nodup q
  · rw [(hw v).1] at hv
    rw [(hw v).2]
    exact h.wq v hv

theorem WorkLists.unlink (h : WorkLists s) (hv : (s.works v).workExit = false) :
    s.unlink v = s := by
  have he : ∀ q, (s.queues q).workList.erase v = (s.queues q).workList := by
    intro q
    refine List.erase_of_not_mem fun hm => ?_
    rw [((h.mem q v).1 hm).1] at hv
    cases hv
  unfold WorkSys.unlink
  simp only [he]

theorem WorkLists.insert_queues (h : WorkLists s) (hv : (s.works v).workExit = false) (p : WqId) :
    (s.insert q v).queues p =
      if p = q then { s.queues q with workList := (s.queues q).workList ++ [v] } else s.queues p := by
  unfold WorkSys.insert
  rw [h.unlink hv, WorkSys.updWork_queues]
  split
  · rename_i hp
    subst hp
    exact WorkSys.updQueue_self ..
  · rename_i hp
    exact WorkSys.updQueue_ne _ _ hp

theorem WorkSys.insert_works (s : WorkSys w) (q : WqId) (u v : WorkId) :
    (s.insert q v).works u =
      if u = v then { s.works v with wq := some q, workExit := true } else s.works u :=
  Function.update_apply ..

theorem WorkSys.dequeue_works (s : WorkSys w) (q : WqId) (u v : WorkId) :
    (s.dequeue q v).works u = if u = v then { s.works v with workExit := false } else s.works u :=
  Function.update_apply ..

theorem WorkLists.insert (h : WorkLists s) (hv : (s.works v).workExit = false) :
    WorkLists (s.insert q v) := by
  refine ⟨fun p u => ?_, fun p => ?_, fun u hu => ?_⟩
  · rw [h.insert_queues hv, s.insert_works]
    split <;> split
    · rename_i hp hu
      simp [hp, hu]
    · rename_i hp hu
      subst hp
      rw [List.mem_append, h.mem]
      simp [hu]
    · rename_i hp hu
      subst hu
      rw [h.mem, hv]
      simp [Ne.symm hp]
    · exact h.mem p u
  · rw [h.insert_queues hv]
    split
    · refine List.nodup_append.2 ⟨h.nodup q, List.nodup_singleton v, fun x hx y hy he => ?_⟩
      rw [List.mem_singleton.1 hy] at he
      subst he
      rw [((h.mem q x).1 hx).1] at hv
      cases hv
    · exact h.nodup p
  · rw [s.insert_works] at hu ⊢
    split
    · nofun
    · rename_i hne
      rw [if_neg hne] at hu
      exact h.wq u hu

theorem WorkLists.dequeue_queues (h : WorkLists s) {l : List WorkId}
    (hl : (s.queues q).workList = v :: l) (p : WqId) :
    (s.dequeue q v).queues p = if p = q then
      { s.queues q with workList := l, workCurrent := some v, worker := .busy } else s.queues p := by
  have hv := (h.mem q v).1 (by rw [hl]; simp)
  unfold WorkSys.dequeue
  rw [WorkSys.updWork_queues]
  split
  · rename_i hp
    subst hp
    refine (WorkSys.updQueue_self ..).trans ?_
    unfold WorkSys.unlink
    simp only [hl, List.erase_cons_head]
  · rename_i hp
    refine (WorkSys.updQueue_ne _ _ hp).trans ?_
    have he : (s.queues p).workList.erase v = (s.queues p).workList := by
      refine List.erase_of_not_mem fun hm => hp ?_
      have hm := (h.mem p v).1 hm
      rw [hv.2] at hm
      exact (Option.some.inj hm.2).symm
    unfold WorkSys.unlink
    simp only [he]

theorem WorkLists.dequeue (h : WorkLists s) {l : List WorkId}
    (hl : (s.queues q).workList = v :: l) : WorkLists (s.dequeue q v) := by
  have hv := (h.mem q v).1 (by rw [hl]; simp)
  have hn := h.nodup q
  rw [hl, List.nodup_cons] at hn
  refine ⟨fun p u => ?_, fun p => ?_, fun u hu => ?_⟩
  · rw [h.dequeue_queues hl, s.dequeue_works]
    split <;> split
    · rename_i hp hu
      subst hu
      simp [hn.1]
    · rename_i hp hu
      subst hp
      rw [← h.mem, hl]
      simp [hu]
    · rename_i hp hu
      subst hu
      rw [h.mem, hv.2]
      simp [Ne.symm hp]
    · exact h.mem p u
  · rw [h.dequeue_queues hl]
    split
    · exact hn.2
    · exact h.nodup p
  · rw [s.dequeue_works] at hu ⊢
    split
    · rename_i he
      subst he
      exact h.wq u hv.1
    · rename_i hne
      rw [if_neg hne] at hu
      exact h.wq u hu

theorem WorkLists.cancel (h : WorkLists s) (hv : (s.works v).workExit = false) :
    WorkLists ((s.unlink v).updWork v fun x => { x with wq := none }) := by
  rw [h.unlink hv]
  refine ⟨fun q u => ?_, h.nodup, fun u hu => ?_⟩
  · change u ∈ (s.queues q).workList ↔ _
    rw [h.mem]
    by_cases huv : u = v
    · subst huv
      rw [WorkSys.updWork_self, hv]
      simp
    · rw [WorkSys.updWork_ne _ _ huv]
  · by_cases huv : u = v
    · subst huv
      rw [WorkSys.updWork_self, hv] at hu
      cases hu
    · rw [WorkSys.updWork_ne _ _ huv] at hu ⊢
      exact h.wq u hu

/-! ## What the functions do -/

theorem workTimerCb_cases (s : WorkSys w) (q : WqId) (v : WorkId) :
    ((s.queues q).workCurrent = some v ∨ (s.works v).workExit = true) ∧
      workTimerCb s q v = { s with cb := .done v } ∨
    (s.queues q).workCurrent ≠ some v ∧ (s.works v).workExit = false ∧
      workTimerCb s q v = { s.insert q v with cb := .give v q } := by
  unfold workTimerCb
  split
  · rename_i hc
    exact .inl ⟨.inl hc, rfl⟩
  split
  · rename_i he
    exact .inl ⟨.inr he, rfl⟩
  · rename_i hc he
    exact .inr ⟨hc, by simpa using he, rfl⟩

/-- A run is refused, adds the work to the queue, or sends its timer a command. -/
theorem krhinoWorkRun_cases {cb : KTimerQueueCb w} {r : Option KStat × WorkSys w}
    (h : krhinoWorkRun num s cb q v = r) :
    r = (some .workqueueWorkRunning, s) ∨ r = (some .workqueueWorkExist, s) ∨
    ((s.queues q).workCurrent ≠ some v ∧ (s.works v).workExit = false ∧
      r = (none, { s.insert q v with gives := (q, v) :: s.gives })) ∨
    (s.works v).dly ≠ 0 ∧ ∃ c : KTimerQueueCb w, c.timer = (s.works v).timer ∧
      c.cbNum = .argChgAuto ∧ c.arg = q ∧ r = (some (timerSend num s.tm.queue c).1, { s with
        priv := Function.update s.priv (s.works v).timer v
        tm := { s.tm with queue := (timerSend num s.tm.queue c).2 } }) := by
  subst h
  unfold krhinoWorkRun
  split
  · split
    · exact .inl rfl
    split
    · exact .inr (.inl rfl)
    · rename_i hc he
      exact .inr (.inr (.inl ⟨hc, by simpa using he, rfl⟩))
  · rename_i hd
    exact .inr (.inr (.inr ⟨hd, _, rfl, rfl, rfl, rfl⟩))

theorem krhinoWorkCancel_cases {cb : KTimerQueueCb w} {wq : Option WqId} {r : KStat × WorkSys w}
    (h : krhinoWorkCancel num s cb v wq = r) :
    (r.2 = s ∧ (r.1 = .success → (s.works v).dly = 0)) ∨
    (wq = none ∧ (s.works v).dly ≠ 0 ∧ ∃ c : KTimerQueueCb w, c.timer = (s.works v).timer ∧
      c.cbNum = .stop ∧ r = (.success, { s with
        tm := { s.tm with queue := (timerSend num s.tm.queue c).2 } })) ∨
    wq ≠ none ∧ (s.works v).workExit = false ∧
      r = (.success, (s.unlink v).updWork v fun x => { x with wq := none }) := by
  subst h
  unfold krhinoWorkCancel
  split
  · split
    · rename_i hd
      exact .inr (.inl ⟨rfl, (BitVec.pos_iff_ne_zero _).1 hd, _, rfl, rfl, rfl⟩)
    · rename_i hd
      refine .inl ⟨rfl, fun _ => ?_⟩
      by_contra hc
      exact hd ((BitVec.pos_iff_ne_zero _).2 hc)
  split
  · exact .inl ⟨rfl, nofun⟩
  split
  · exact .inl ⟨rfl, nofun⟩
  · rename_i hc he
    exact .inr (.inr ⟨nofun, by simpa using he, rfl⟩)

theorem WorkQueue.semGive_workList (x : WorkQueue) : x.semGive.2.workList = x.workList := by
  unfold WorkQueue.semGive
  split_ifs <;> rfl

theorem WorkQueue.semTake_workList (x : WorkQueue) : x.semTake.workList = x.workList := by
  unfold WorkQueue.semTake
  split <;> rfl

theorem WorkSys.updQueue_workList {f : WorkQueue → WorkQueue}
    (hf : ∀ x, (f x).workList = x.workList) (p : WqId) :
    ((s.updQueue q f).queues p).workList = (s.queues p).workList := by
  by_cases hp : p = q
  · subst hp
    rw [WorkSys.updQueue_self, hf]
  · rw [WorkSys.updQueue_ne _ _ hp]

/-! ## Steps -/

theorem WorkWf.congr (h : WorkWf s) (htm : s'.tm = s.tm) (hp : s'.priv = s.priv)
    (hw : s'.works = s.works) (hcb : ∀ v, s'.cb.work = some v → s.cb.work = some v)
    (hq : ∀ q, (s'.queues q).workList = (s.queues q).workList) : WorkWf s' :=
  ⟨h.timers.congr htm hp (fun v => by rw [hw]; exact ⟨rfl, rfl⟩) fun v hv => h.timers.cb v (hcb v hv),
    h.lists.congr hq fun v => by rw [hw]; exact ⟨rfl, rfl⟩⟩

theorem WorkSys.sameTimers_insert : s.SameTimers (s.insert q v) :=
  WorkSys.sameTimers_updWork (s := (s.unlink v).updQueue q _) fun _ => ⟨rfl, rfl⟩

theorem WorkSys.sameTimers_dequeue : s.SameTimers (s.dequeue q v) :=
  WorkSys.sameTimers_updWork (s := (s.unlink v).updQueue q _) fun _ => ⟨rfl, rfl⟩

theorem TimerStep.pc_client {x x' : TimerSys w} {b : TimerAct w} {t : TimerId}
    (h : TimerStep num idle x b x') (hb : b.client = some t) : x'.pc = x.pc := by
  cases h with
  | create => rfl
  | send => rfl
  | _ => cases hb

theorem WorkStep.wf (h : WorkWf s) (hs : WorkStep num idle s a s') : WorkWf s' := by
  have hl := h.lists
  have ht := h.timers
  cases hs with
  | @client b t tm hb hnt hstep =>
    refine ⟨ht.tm hstep (fun v hv hc => ?_) fun v hv => ⟨hv, hstep.pc_client hb⟩,
      hl.congr (fun _ => rfl) fun _ => ⟨rfl, rfl⟩⟩
    rw [hb] at hc
    exact hnt ⟨v, hv, (Option.some.inj hc).symm⟩
  | timer hcb hb hnt hstep =>
    refine ⟨ht.tm hstep (fun v hv hc => ?_) fun v hv => ?_,
      hl.congr (fun _ => rfl) fun _ => ⟨rfl, rfl⟩⟩
    · rw [hb] at hc
      cases hc
    · rw [hcb] at hv
      cases hv
  | fired hcb hstep =>
    exact ⟨ht.tm hstep (fun v hv => nofun) nofun, hl.congr (fun _ => rfl) fun _ => ⟨rfl, rfl⟩⟩
  | @expire t hcb hnt hp hd =>
    refine ⟨ht.congr rfl rfl (fun _ => ⟨rfl, rfl⟩) fun v hv => ?_,
      hl.congr (fun _ => rfl) fun _ => ⟨rfl, rfl⟩⟩
    obtain ⟨u, hu, rfl⟩ := hnt
    have hpriv := ht.priv u hu (.inr (ht.timers.walk _ hp))
    cases hv
    rw [hpriv]
    exact ⟨hu, hp⟩
  | @enter q v hcb =>
    have hwork : s.cb.work = some v := by rw [hcb]; rfl
    rcases workTimerCb_cases s q v with ⟨-, he⟩ | ⟨-, hv, he⟩
    · rw [he]
      exact h.congr rfl rfl rfl (fun u hu => hwork.trans hu) fun _ => rfl
    · rw [he]
      have ht' : WorkTimers { s.insert q v with cb := .give v q } :=
        ht.congr rfl rfl WorkSys.sameTimers_insert fun u hu => ht.cb u (hwork.trans hu)
      exact ⟨ht', (hl.insert hv).congr (fun _ => rfl) fun _ => ⟨rfl, rfl⟩⟩
  | @cbGive q v hcb =>
    refine h.congr rfl rfl rfl (fun u hu => ?_)
      (WorkSys.updQueue_workList WorkQueue.semGive_workList)
    rw [hcb]
    exact hu
  | @run cb q v r hr =>
    rcases krhinoWorkRun_cases hr with rfl | rfl | ⟨-, hv, rfl⟩ | ⟨hd, c, hc, hn, -, rfl⟩
    · exact h
    · exact h
    · exact ⟨ht.congr rfl rfl WorkSys.sameTimers_insert ht.cb,
        (hl.insert hv).congr (fun _ => rfl) fun _ => ⟨rfl, rfl⟩⟩
    · refine ⟨ht.send num _ hc (.inl hn) (fun u hu hp => ?_) (fun _ => Function.update_self ..) hd,
        hl.congr (fun _ => rfl) fun _ => ⟨rfl, rfl⟩⟩
      by_cases huv : (s.works u).timer = (s.works v).timer
      · rw [huv, Function.update_self]
        exact (ht.distinct u v hu hd huv).symm
      · rw [Function.update_of_ne huv]
        exact hp
  | give =>
    exact h.congr rfl rfl rfl (fun _ => id) (WorkSys.updQueue_workList WorkQueue.semGive_workList)
  | read => exact h.congr rfl rfl rfl (fun _ => id) fun _ => rfl
  | @cancel cb v wq l₁ l₂ r hc hr =>
    rcases krhinoWorkCancel_cases hr with ⟨he, -⟩ | ⟨-, hd, c, hc, hn, rfl⟩ | ⟨-, hv, rfl⟩
    · rw [he]
      exact h.congr rfl rfl rfl (fun _ => id) fun _ => rfl
    · have hsend := ht.send num s.priv hc (.inr hn) (fun _ _ => id)
        (fun he => by rw [hn] at he; cases he) hd
      exact ⟨hsend.congr rfl rfl (fun _ => ⟨rfl, rfl⟩) hsend.cb,
        hl.congr (fun _ => rfl) fun _ => ⟨rfl, rfl⟩⟩
    · refine ⟨ht.congr rfl rfl ?_ ht.cb, (hl.cancel hv).congr (fun _ => rfl) fun _ => ⟨rfl, rfl⟩⟩
      exact WorkSys.sameTimers_updWork (s := s.unlink v) (f := fun x => { x with wq := none })
        fun _ => ⟨rfl, rfl⟩
  | take =>
    exact h.congr rfl rfl rfl (fun _ => id) (WorkSys.updQueue_workList WorkQueue.semTake_workList)
  | dequeue hw hv =>
    exact ⟨ht.congr rfl rfl WorkSys.sameTimers_dequeue ht.cb,
      (hl.dequeue hv).congr (fun _ => rfl) fun _ => ⟨rfl, rfl⟩⟩
  | handle => exact h.congr rfl rfl rfl (fun _ => id) fun _ => rfl
  | delNone => exact h
  | delFound | delBusy | delCheck | delTaskErr | delSemErr =>
    exact h.congr rfl rfl rfl (fun _ => id) fun _ => rfl
  | finish =>
    exact h.congr rfl rfl rfl (fun _ => id) (WorkSys.updQueue_workList
      (f := fun x => { x with workCurrent := none, worker := .take }) fun _ => rfl)
  | delTask =>
    exact h.congr rfl rfl rfl (fun _ => id)
      (WorkSys.updQueue_workList (f := fun x => { x with worker := .gone }) fun _ => rfl)
  | delSem =>
    exact h.congr rfl rfl rfl (fun _ => id)
      (WorkSys.updQueue_workList (f := fun x => { x with semType := .none }) fun _ => rfl)
  | delEnd =>
    exact h.congr rfl rfl rfl (fun _ => id)
      (WorkSys.updQueue_workList (f := fun x => { x with onList := false }) fun _ => rfl)

/-! ## The start -/

/-- The works are as `krhino_work_init` leaves them, the queues as
    `krhino_workqueue_create` does, and no call is in progress; the other timers
    are in any state. -/
structure WorkSys.New (s : WorkSys w) : Prop where
  timers : TimerInv s.tm
  works : ∀ v, (s.works v).wq = none ∧ (s.works v).workExit = false
  live : ∀ v, (s.works v).dly ≠ 0 → s.tm.toTimers.Idle (s.works v).timer ∧
    (s.tm.timers (s.works v).timer).roundTicks = 0
  distinct : ∀ u v, (s.works u).dly ≠ 0 → (s.works v).dly ≠ 0 →
    (s.works u).timer = (s.works v).timer → u = v
  cmds : ∀ v, (s.works v).dly ≠ 0 → s.tm.cmds (s.works v).timer = []
  queues : ∀ q, s.queues q = .new
  cb : s.cb = .idle
  gives : s.gives = []
  calls : s.calls = []
  cancels : s.cancels = []
  dels : s.dels = []

theorem krhinoWorkInit_new {intrpt : Bool} {tm : Timers w} {queue : List (KTimerQueueCb w)}
    {cb : KTimerQueueCb w} {timer : TimerId} {arg : ℕ} {dly : BitVec w}
    {r : KStat × Timers w × List (KTimerQueueCb w) × Work w}
    (h : krhinoWorkInit num intrpt tm queue cb timer arg dly = r) (hr : r.1 = .success) :
    r.2.2.2.wq = none ∧ r.2.2.2.workExit = false ∧ r.2.2.2.dly = dly ∧ r.2.2.1 = queue ∧
      (dly ≠ 0 → r.2.2.2.timer = timer ∧ r.2.1.Idle timer ∧
        (r.2.1.timers timer).roundTicks = 0) := by
  subst h
  unfold krhinoWorkInit at hr ⊢
  split
  · rename_i hd
    rw [if_pos hd] at hr
    unfold timerCreate at hr ⊢
    simp only [Bool.false_eq_true, if_false] at hr ⊢
    split_ifs at hr ⊢
    refine ⟨trivial, trivial, trivial, rfl, fun _ => ⟨trivial, ⟨?_, ?_⟩, ?_⟩⟩
    all_goals rw [Timers.updTimer_self]
  · rename_i hd
    exact ⟨rfl, rfl, rfl, rfl, fun hc => absurd ((BitVec.pos_iff_ne_zero _).2 hc) hd⟩

theorem WorkSys.New.wf (h : s.New) : WorkWf s := by
  refine ⟨⟨h.timers, h.distinct, fun v hv => ?_, fun v hv c hc => ?_, fun v hv hp => ?_, fun v hv => ?_⟩,
    ⟨fun q v => ?_, fun q => ?_, fun v hv => ?_⟩⟩
  · exact ⟨(h.live v hv).1.1, (h.live v hv).2⟩
  · rw [h.cmds v hv] at hc
    cases hc
  · rw [h.cmds v hv] at hp
    rcases hp with hp | hp
    · cases hp
    · exact absurd hp (h.timers.wf.idle_not_mem (h.live v hv).1)
  · rw [h.cb] at hv
    cases hv
  · rw [h.queues, (h.works v).1, (h.works v).2]
    simp [WorkQueue.new]
  · rw [h.queues]
    exact List.nodup_nil
  · rw [(h.works v).2] at hv
    cases hv

end Rhino
