/-
  Work queues: a cancelled work does not run, but for a cancel that does not
  look at the timer, or is not seen by it in time.

  A cancel of a work that has been on a queue only clears `wq`, and leaves a
  timer that has been started since; one of a work that has not sends a stop,
  which may find no room, and which `timer_task` may receive after the timer has
  expired; and no cancel sees a work between its queue and its handler
  (`CancelOk`).  Otherwise the work is out of the queues, and its timer is off
  or about to be stopped (`Cancelled`), until it is run again.
-/
import AliOS.Rhino.WorkqueueRun

namespace Rhino

open Lib

variable {w num : ℕ} {idle : BitVec w}

/-- The work for which the callback has been through its critical section. -/
def CbPc.past : CbPc → Option WorkId
  | .give v _ | .done v => some v
  | _ => none

namespace WorkSys

/-- The timer of the work is about to be stopped, or is off with no command
    queued, but for a callback on its way out. -/
def Quiet (s : WorkSys w) (v : WorkId) : Prop :=
  (s.tm.cmds (s.works v).timer).getLast? = some .stop ∨
    s.tm.cmds (s.works v).timer = [] ∧
      ((s.works v).timer ∈ s.tm.timerHead → s.cb.past = some v)

/-- The work is on no list, no handler of it is about to be called, and its
    timer does not lead to one. -/
structure Cancelled (s : WorkSys w) (v : WorkId) : Prop where
  workExit : (s.works v).workExit = false
  calls : ∀ q, (q, v) ∉ s.calls
  timer : (s.works v).dly ≠ 0 → s.Quiet v

end WorkSys

/-- The cancels that are sure: the handler is not about to be called, the work
    has not been added to a queue since the cancel has read `wq`, and the timer
    is quiet or is sent a stop.  The callback adds no work whose stop is
    queued. -/
def CancelOk (num : ℕ) (s : WorkSys w) : WorkAct w → Prop
  | .cancel v wq .success => (∀ q, (q, v) ∉ s.calls) ∧ (s.works v).workExit = false ∧
    ((s.works v).dly ≠ 0 → s.Quiet v ∨ wq = none ∧ s.tm.queue.length < num)
  | .enter q v => (s.queues q).workCurrent = some v ∨ (s.works v).workExit = true ∨
    (s.tm.cmds (s.works v).timer).getLast? ≠ some .stop
  | _ => True

variable {s s' : WorkSys w} {a : WorkAct w} {q : WqId} {u v : WorkId}

/-! ## One step -/

theorem WorkSys.Quiet.congr (h : s.Quiet v) (hw : s.SameTimers s')
    (hc : s'.tm.cmds (s.works v).timer = s.tm.cmds (s.works v).timer)
    (hh : s'.tm.timerHead = s.tm.timerHead) (hp : s.cb.past = some v → s'.cb.past = some v) :
    s'.Quiet v := by
  unfold WorkSys.Quiet
  rw [(hw v).2, hc, hh]
  exact h.imp_right fun ⟨hn, hm⟩ => ⟨hn, fun hm' => hp (hm hm')⟩

theorem WorkSys.Quiet.tm (h : s.Quiet v) {tm : TimerSys w} {b : TimerAct w} {cb : CbPc}
    (hs : TimerSeen (s.works v).timer s.tm tm b)
    (hr : (s.tm.timers (s.works v).timer).roundTicks = 0)
    (hcb : cb.past = s.cb.past ∨ b = .fire (s.works v).timer ∨ s.cb.past ≠ some v) :
    WorkSys.Quiet { s with tm := tm, cb := cb } v := by
  cases hs with
  | other _ hfire _ head cmds =>
    rcases h with h | ⟨hn, hm⟩
    · exact .inl (by rw [← h, ← cmds])
    · refine .inr ⟨cmds.trans hn, fun hh => ?_⟩
      have hp := hm (head.1 hh)
      rcases hcb with hcb | hcb | hcb
      · exact hcb.trans hp
      · exact absurd hcb hfire
      · exact absurd hp hcb
  | @cmd d c ht cmds auto stop =>
    rcases h with h | ⟨hn, -⟩
    · rw [cmds] at h
      cases hl : tm.cmds (s.works v).timer with
      | nil =>
        rw [hl] at h
        exact .inr ⟨hl, fun hh => absurd hh (stop (Option.some.inj h)).2⟩
      | cons x l =>
        rw [hl, List.getLast?_cons_cons] at h
        exact .inl (by rw [hl]; exact h)
    · rw [cmds] at hn
      cases hn
  | fire ht _ once cmds =>
    rcases h with h | ⟨hn, -⟩
    · exact .inl (by rw [← h, ← cmds])
    · exact .inr ⟨cmds.trans hn, fun hh => absurd hh (once hr)⟩

theorem WorkSys.Quiet.stop (num : ℕ) {c : KTimerQueueCb w} (hc : c.timer = (s.works v).timer)
    (hn : c.cbNum = .stop) (h : s.Quiet v ∨ s.tm.queue.length < num) :
    WorkSys.Quiet { s with tm := { s.tm with queue := (timerSend num s.tm.queue c).2 } } v := by
  by_cases hr : s.tm.queue.length < num
  · refine .inl ?_
    unfold TimerSys.cmds
    rw [timerSend_cmds_self hc, if_pos hr, hn, List.getLast?_append]
    rfl
  · have he : (timerSend num s.tm.queue c).2 = s.tm.queue := by
      unfold timerSend
      rw [if_neg hr]
    rw [he]
    exact h.resolve_right hr

theorem WorkSys.Cancelled.congr (h : s.Cancelled v) (hw : s'.works v = s.works v)
    (htm : s'.tm = s.tm) (hcb : s'.cb.past = s.cb.past) (hc : ∀ x ∈ s'.calls, x ∈ s.calls) :
    s'.Cancelled v := by
  refine ⟨by rw [hw]; exact h.workExit, fun q hm => h.calls q (hc _ hm), fun hd => ?_⟩
  rw [hw] at hd
  have hq := h.timer hd
  unfold WorkSys.Quiet at hq ⊢
  rw [hw, htm, hcb]
  exact hq

theorem WorkSys.Cancelled.clear (h : s.Cancelled v) (hl : WorkLists s)
    (hu : (s.works u).workExit = false) :
    ((s.unlink u).updWork u fun x => { x with wq := none }).Cancelled v := by
  rw [hl.unlink hu]
  by_cases huv : v = u
  · subst huv
    have hself := s.updWork_self v fun x => { x with wq := none }
    refine ⟨(congrArg Work.workExit hself).trans h.workExit, h.calls, fun hv => ?_⟩
    rw [hself] at hv
    exact (h.timer hv).congr (WorkSys.sameTimers_updWork (f := fun x => { x with wq := none })
      fun _ => ⟨rfl, rfl⟩) rfl rfl id
  · exact h.congr (s.updWork_ne (fun x => { x with wq := none }) huv) rfl rfl fun _ => id

theorem WorkSys.Cancelled.step (hwf : WorkWf s) (h : s.Cancelled v)
    (hs : restrict (CancelOk num) (WorkStep num idle) s a s') (ha : ∀ q r, a ≠ .run q v r) :
    s'.Cancelled v := by
  obtain ⟨hok, hs⟩ := hs
  have ht := hwf.timers
  cases hs with
  | @client b t tm hb hnt hstep =>
    refine ⟨h.workExit, h.calls, fun hd => ?_⟩
    refine (h.timer hd).tm (hstep.seen ht.timers (ht.live v hd).1 fun hc => hnt ⟨v, hd, ?_⟩)
      (ht.live v hd).2 (.inl rfl)
    rw [hb] at hc
    exact (Option.some.inj hc).symm
  | timer hcb hb hnt hstep =>
    refine ⟨h.workExit, h.calls, fun hd => ?_⟩
    exact (h.timer hd).tm (hstep.seen ht.timers (ht.live v hd).1 (by rw [hb]; nofun))
      (ht.live v hd).2 (.inl rfl)
  | @fired u t tm hcb hstep =>
    refine ⟨h.workExit, h.calls, fun hd => (h.timer hd).tm
      (hstep.seen ht.timers (ht.live v hd).1 nofun) (ht.live v hd).2 (.inr ?_)⟩
    by_cases huv : u = v
    · subst huv
      refine .inl (congrArg _ ?_)
      have hp := (ht.cb u (by rw [hcb]; rfl)).2
      cases hstep with
      | fire hp' =>
        rw [hp] at hp'
        exact (Option.some.inj (TimerPc.walk.inj hp')).symm
    · refine .inr ?_
      rw [hcb]
      exact fun hc => huv (Option.some.inj hc)
  | expire hcb => exact h.congr rfl rfl (by rw [hcb]; rfl) fun _ => id
  | @enter q u hcb =>
    have hp : s.cb.past = none := by rw [hcb]; rfl
    rcases workTimerCb_cases s q u with ⟨-, he⟩ | ⟨hcur, hu, he⟩
    · rw [he]
      refine ⟨h.workExit, h.calls, fun hd => ?_⟩
      refine (h.timer hd).congr (fun _ => ⟨rfl, rfl⟩) rfl rfl fun hc => ?_
      rw [hp] at hc
      cases hc
    · -- the callback adds the work: its last command is no stop, so it is not ours
      have huv : v ≠ u := by
        rintro rfl
        have hcb' := ht.cb v (by rw [hcb]; rfl)
        rcases h.timer hcb'.1 with hq | ⟨-, hq⟩
        · rcases hok with hc | hc | hc
          · exact hcur hc
          · rw [hu] at hc
            cases hc
          · exact hc hq
        · have hc := hq (ht.timers.walk _ hcb'.2)
          rw [hp] at hc
          cases hc
      rw [he]
      have hw : (s.insert q u).works v = s.works v := by rw [s.insert_works, if_neg huv]
      refine ⟨?_, h.calls, fun hd => ?_⟩
      · change ((s.insert q u).works v).workExit = false
        rw [hw]
        exact h.workExit
      · change ((s.insert q u).works v).dly ≠ 0 at hd
        rw [hw] at hd
        refine (h.timer hd).congr WorkSys.sameTimers_insert rfl rfl fun hc => ?_
        rw [hp] at hc
        cases hc
  | cbGive hcb => exact h.congr rfl rfl (by rw [hcb]; rfl) fun _ => id
  | @run cb q u r hr =>
    have huv : v ≠ u := fun hc => ha q r.1 (hc ▸ rfl)
    rcases krhinoWorkRun_cases hr with rfl | rfl | ⟨-, -, rfl⟩ | ⟨hd, c, hc, -, -, rfl⟩
    · exact h
    · exact h
    · exact h.congr (by rw [s.insert_works, if_neg huv]) rfl rfl fun _ => id
    · refine ⟨h.workExit, h.calls, fun hv => (h.timer hv).congr (fun _ => ⟨rfl, rfl⟩) ?_ rfl id⟩
      exact congrArg (List.map _) (timerSend_cmds fun he => huv (ht.distinct v u hv hd (he.symm.trans hc)))
  | give => exact h.congr rfl rfl rfl fun _ => id
  | read => exact h.congr rfl rfl rfl fun _ => id
  | @cancel cb u wq l₁ l₂ r hc hr =>
    rcases krhinoWorkCancel_cases hr with ⟨he, -⟩ | ⟨-, hd, c, hc, hn, rfl⟩ | ⟨-, hu, rfl⟩
    · rw [he]
      exact h.congr rfl rfl rfl fun _ => id
    · refine ⟨h.workExit, h.calls, fun hv => ?_⟩
      by_cases huv : v = u
      · subst huv
        have hq := WorkSys.Quiet.stop num hc hn (.inl (h.timer hv))
        exact hq.congr (fun _ => ⟨rfl, rfl⟩) rfl rfl id
      · refine (h.timer hv).congr (fun _ => ⟨rfl, rfl⟩) ?_ rfl id
        exact congrArg (List.map _)
          (timerSend_cmds fun he => huv (ht.distinct v u hv hd (he.symm.trans hc)))
    · exact (h.clear hwf.lists hu).congr rfl rfl rfl fun _ => id
  | take => exact h.congr rfl rfl rfl fun _ => id
  | @dequeue q u l hw hl =>
    have hu := (hwf.lists.mem q u).1 (by rw [hl]; simp)
    have huv : v ≠ u := by
      rintro rfl
      rw [h.workExit] at hu
      cases hu.1
    have hc : WorkSys.Cancelled (s.dequeue q u) v :=
      h.congr (by rw [s.dequeue_works, if_neg huv]) rfl rfl fun _ => id
    refine ⟨hc.workExit, fun p hm => ?_, hc.timer⟩
    rcases List.mem_cons.1 hm with hm | hm
    · exact huv (Prod.mk.inj hm).2
    · exact h.calls p hm
  | @handle q u l₁ l₂ hc =>
    refine h.congr rfl rfl rfl fun x hx => ?_
    rw [hc]
    simp only [List.mem_append, List.mem_cons] at hx ⊢
    tauto
  | finish => exact h.congr rfl rfl rfl fun _ => id
  | delNone => exact h
  | delFound | delBusy | delCheck | delTaskErr | delSemErr | delSem | delEnd =>
    exact h.congr rfl rfl rfl fun _ => id
  | delTask => exact h.congr rfl rfl rfl fun _ hx => List.mem_of_mem_filter hx

theorem WorkStep.cancelled (hwf : WorkWf s) {wq : Option WqId}
    (hs : restrict (CancelOk num) (WorkStep num idle) s (.cancel v wq .success) s') :
    s'.Cancelled v := by
  obtain ⟨⟨hcalls, hexit, hq⟩, hs⟩ := hs
  generalize ha : WorkAct.cancel v wq .success = a at hs
  cases hs with
  | @cancel cb u wq l₁ l₂ r hc hr =>
    obtain ⟨rfl, rfl, hst⟩ := WorkAct.cancel.inj ha
    rcases krhinoWorkCancel_cases hr with ⟨he, hd⟩ | ⟨-, -, c, hc, hcn, rfl⟩ | ⟨hn, hu, rfl⟩
    · rw [he]
      exact ⟨hexit, hcalls, fun hv => absurd (hd hst.symm) hv⟩
    · refine ⟨hexit, hcalls, fun hv => ?_⟩
      have hq' := WorkSys.Quiet.stop num hc hcn ((hq hv).imp_right And.right)
      exact hq'.congr (fun _ => ⟨rfl, rfl⟩) rfl rfl id
    · have hcan : s.Cancelled v :=
        ⟨hexit, hcalls, fun hv => (hq hv).resolve_right fun hc => hn hc.1⟩
      exact (hcan.clear hwf.lists hu).congr rfl rfl rfl fun _ => id
  | _ => cases ha

/-! ## Runs -/

theorem WorkSys.Cancelled.run (hwf : WorkWf s) (h : s.Cancelled v) {as : List (WorkAct w)}
    (hs : Run (restrict (CancelOk num) (WorkStep num idle)) s as s')
    (ha : ∀ q r, .run q v r ∉ as) (q : WqId) : .handle q v ∉ as := by
  induction hs with
  | nil => exact List.not_mem_nil
  | @cons s a s₁ as s' hs _ ih =>
    have ha1 : ∀ q r, a ≠ .run q v r := fun q r hc => ha q r (by simp [hc])
    rw [List.mem_cons, not_or]
    constructor
    · rintro rfl
      cases hs.2 with
      | handle hc => exact h.calls q (by rw [hc]; simp)
    · exact ih (hs.2.wf hwf) (h.step hwf hs ha1) fun q r hc => ha q r (by simp [hc])

/-- **A cancelled work does not run.**  In every run of calls, timers and
    workers whose steps are `CancelOk`, after a cancel of a work that returns
    `RHINO_SUCCESS` its handler is not called until the work is run again. -/
theorem cancelled_work_does_not_run {s₀ s₁ s₂ s₃ : WorkSys w} (h₀ : s₀.New)
    {as bs : List (WorkAct w)} {wq : Option WqId}
    (h1 : Run (restrict (CancelOk num) (WorkStep num idle)) s₀ as s₁)
    (hc : restrict (CancelOk num) (WorkStep num idle) s₁ (.cancel v wq .success) s₂)
    (h2 : Run (restrict (CancelOk num) (WorkStep num idle)) s₂ bs s₃)
    (hr : ∀ q stat, .run q v stat ∉ bs) (q : WqId) : .handle q v ∉ bs := by
  have hwf : WorkWf s₁ := h1.keeps (fun hs h => h.2.wf hs) h₀.wf
  exact (WorkStep.cancelled hwf hc).run (hc.2.wf hwf) h2 hr q

/-- The work 0 has a delay of five ticks. -/
def delayedWork : WorkSys 32 where
  tm := {
    timers := fun t => ⟨false, 0, 0, 0, 5, 0, if t = 0 then .timer else .none, .deactive, .dynAlloc⟩
    timerHead := []
    timerCount := 0
    sysTick := 0
    queue := []
    pc := .recv false 100 }
  priv := fun _ => 0
  works := fun v => ⟨none, false, if v = 0 then 5 else 0, 0⟩
  queues := fun _ => .new
  cb := .idle
  gives := []
  calls := []
  cancels := []
  dels := []

theorem delayedWork_new : delayedWork.New := by
  have hd : ∀ v, (delayedWork.works v).dly ≠ 0 → v = 0 := by
    intro v hv
    by_contra hc
    exact hv (if_neg hc)
  refine ⟨⟨⟨List.nodup_nil, nofun, fun t _ => ?_, fun t _ => ?_⟩, nofun⟩, fun _ => ⟨rfl, rfl⟩,
    fun v _ => ⟨⟨rfl, rfl⟩, rfl⟩, fun u v hu hv _ => (hd u hu).trans (hd v hv).symm, fun _ _ => rfl,
    fun _ => rfl, rfl, rfl, rfl, rfl, rfl⟩
  · exact ⟨nofun, nofun⟩
  · exact ⟨nofun, nofun⟩

/-- A command of the work 0, as it is on the stack. -/
def workCmd : KTimerQueueCb 32 := ⟨0, 0, 0, 0, .start⟩

/-- A work is run and cancelled before `timer_task` sees the commands; its timer
    is started, and to be stopped. -/
theorem cancelled_work_does_not_run_delayed : ∃ bs : List (WorkAct 32), ∃ s : WorkSys 32,
    s.tm.timerHead = [0] ∧ s.tm.cmds 0 = [.stop] ∧ ∀ q, WorkAct.handle q 0 ∉ bs := by
  have hok : ∀ {s s' : WorkSys 32} {a}, WorkStep 20 100 s a s' → CancelOk 20 s a →
      restrict (CancelOk 20) (WorkStep 20 100) s a s' := fun h1 h2 => ⟨h2, h1⟩
  have hrun : ∃ as bs, ∃ s₁ s₂ s₃ : WorkSys 32,
      Run (restrict (CancelOk 20) (WorkStep 20 100)) delayedWork as s₁ ∧
      restrict (CancelOk 20) (WorkStep 20 100) s₁ (.cancel 0 none .success) s₂ ∧
      Run (restrict (CancelOk 20) (WorkStep 20 100)) s₂ bs s₃ ∧
      (∀ q stat, WorkAct.run q 0 stat ∉ bs) ∧ s₃.tm.timerHead = [0] ∧ s₃.tm.cmds 0 = [.stop] := by
    refine ⟨_, _, _, _, _,
      .cons (hok (@WorkStep.run 32 20 100 _ workCmd 0 0 _ rfl) trivial)
        (.single (hok (.read (v := 0)) trivial)),
      hok (@WorkStep.cancel 32 20 100 _ workCmd 0 none [] [] _ rfl rfl)
        ⟨nofun, rfl, fun _ => .inr ⟨rfl, by decide⟩⟩,
      .single (hok (.timer rfl rfl (by nofun) (.cmd (d := 0) (.inl rfl) rfl)) trivial), ?_, rfl, rfl⟩
    intro q stat hm
    simp at hm
  obtain ⟨as, bs, s₁, s₂, s₃, h1, hc, h2, hr, hh, hq⟩ := hrun
  exact ⟨bs, s₃, hh, hq, cancelled_work_does_not_run delayedWork_new h1 hc h2 hr⟩

/-- A work that has run is run again, and cancelled: the timer expires, and the
    handler is called. -/
theorem cancelled_work_runs : ∃ as bs, ∃ s₁ s₂ s₃ : WorkSys 32,
    Run (WorkStep 20 100) delayedWork as s₁ ∧
    WorkStep 20 100 s₁ (.cancel 0 (some 0) .success) s₂ ∧
    Run (WorkStep 20 100) s₂ bs s₃ ∧ (∀ q stat, WorkAct.run q 0 stat ∉ bs) ∧
    WorkAct.handle 0 0 ∈ bs := by
  refine ⟨_, _, _, _, _,
    .cons (@WorkStep.run 32 20 100 _ workCmd 0 0 _ rfl)
    (.cons (.timer rfl rfl (by nofun) (.cmd (d := 0) (.inl rfl) rfl))
    (.cons (.timer rfl rfl (by nofun) (.late (d := 5) rfl rfl rfl))
    (.cons (.expire (t := 0) rfl ⟨0, by decide, rfl⟩ rfl rfl)
    (.cons (.enter rfl)
    (.cons (.cbGive rfl)
    (.cons (.fired rfl (.fire rfl rfl rfl))
    (.cons (.take (q := 0) rfl rfl)
    (.cons (.dequeue (q := 0) rfl rfl)
    (.cons (@WorkStep.handle 32 20 100 _ 0 0 [] _ rfl)
    (.cons (.finish (q := 0) rfl (by nofun))
    (.cons (.timer rfl rfl (by nofun) (.walkEnd rfl))
    (.cons (.timer rfl rfl (by nofun) (.leave rfl rfl))
    (.cons (@WorkStep.run 32 20 100 _ workCmd 0 0 _ rfl)
    (.cons (.timer rfl rfl (by nofun) (.cmd (d := 0) (.inl rfl) rfl))
    (.single (.read (v := 0))))))))))))))))),
    @WorkStep.cancel 32 20 100 _ workCmd 0 (some 0) [] [] _ rfl rfl,
    .cons (.timer rfl rfl (by nofun) (.late (d := 5) rfl rfl rfl))
    (.cons (.expire (t := 0) rfl ⟨0, by decide, rfl⟩ rfl rfl)
    (.cons (.enter rfl)
    (.cons (.cbGive rfl)
    (.cons (.take (q := 0) rfl rfl)
    (.cons (.dequeue (q := 0) rfl rfl)
    (.single (@WorkStep.handle 32 20 100 _ 0 0 [] _ rfl))))))), ?_, ?_⟩
  · intro q stat h
    simp at h
  · simp

end Rhino
