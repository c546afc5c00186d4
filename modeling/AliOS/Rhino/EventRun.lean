/-
  Event flags lose no wake-up.

  The system is an event, the kernel with its tasks, and for each task whether
  it is inside `krhino_event_get`, blocked or woken.  No task stays blocked on
  flags that meet its condition: a set wakes every task whose condition its
  flags meet, and what comes between two sets only takes flags away.
-/
import AliOS.Rhino.TaskStep
import AliOS.Rhino.Receivers
import AliOS.Rhino.Event

namespace Rhino

open Lib

variable {w : ℕ}

/-! ## The system -/

structure EventSys (w : ℕ) where
  k : Kernel w
  event : Event
  pend : TaskId → EventPend
  inGet : TaskId → Bool

/-- A step, with what it returns to its caller; `gone` is a task deleted. -/
inductive EventStep (w : ℕ) where
  | get (flags : BitVec 32) (opt : BitVec 8) (ticks : BitVec w) (stat : KStat)
    (actlFlags : Option (BitVec 32))
  | block (t : TaskId) (flags : BitVec 32) (opt : BitVec 8) (ticks : BitVec w)
  | getEnd (t : TaskId) (stat : KStat) (actlFlags : BitVec 32)
  | set (flags : BitVec 32) (opt : BitVec 8) (stat : KStat) (woken : List TaskId)
  | task (a : TaskAct) (gone : Option TaskId)
  deriving DecidableEq

/-- The active task runs, outside `krhino_event_get`. -/
def EventSys.calls (s : EventSys w) : Prop :=
  (s.k.tasks s.k.activeTask).taskState = .rdy ∧ s.inGet s.k.activeTask = false

/-- What a set has written. -/
def EventSys.after (s : EventSys w) (r : EventSetResult w) : EventSys w :=
  { s with k := r.k, event := r.event, pend := r.pend }

/-- The steps of the system. -/
inductive EventStep.Step : EventSys w → EventStep w → EventSys w → Prop
  | get {s flags opt ticks stat event actl}
    (h : krhinoEventGet s.k s.event s.pend flags opt ticks = .ret stat event actl) :
    Step s (.get flags opt ticks stat actl) { s with event := event }
  | block {s flags opt ticks k pend} (hc : s.calls)
    (h : krhinoEventGet s.k s.event s.pend flags opt ticks = .blocked k pend) :
    Step s (.block s.k.activeTask flags opt ticks)
      { s with k := k, pend := pend, inGet := Function.update s.inGet s.k.activeTask true }
  | getEnd {s t} (ht : s.inGet t = true) (hr : (s.k.tasks t).taskState = .rdy) :
    Step s (.getEnd t (krhinoEventGetEnd s.k t) (s.pend t).pendInfo)
      { s with inGet := Function.update s.inGet t false }
  | set {s flags opt r} (h : krhinoEventSet s.k s.event s.pend flags opt = r) :
    Step s (.set flags opt r.stat r.woken) (s.after r)
  | task {s a k} (h : TaskStep s.event.blkObj s.k a k) :
    Step s (.task a (a.gone k))
      { s with k := k, inGet := fun u => s.inGet u && a.gone k != some u }

/-! ## The walk of a set -/

/-- The flags a task asked to be cleared. -/
def EventPend.clears (p : EventPend) : BitVec 32 := if optClear p.pendOption then p.pendFlags else 0

/-- The flags that the tasks `ts` asked to be cleared. -/
def clearedFlags (pend : TaskId → EventPend) (ts : List TaskId) : BitVec 32 :=
  ts.foldr (fun t c => (pend t).clears ||| c) 0

theorem and_not_zero (flags : BitVec 32) : flags &&& ~~~(0 : BitVec 32) = flags := by
  rw [show ~~~(0 : BitVec 32) = BitVec.allOnes 32 from rfl, BitVec.and_allOnes]

theorem EventPend.clear_eq (p : EventPend) (flags : BitVec 32) :
    p.clear flags = flags &&& ~~~p.clears := by
  unfold clear clears
  split
  · rfl
  · exact (and_not_zero flags).symm

theorem clearedFlags_congr {pend pend' : TaskId → EventPend} {ts : List TaskId}
    (h : ∀ t ∈ ts, (pend' t).clears = (pend t).clears) :
    clearedFlags pend' ts = clearedFlags pend ts := by
  induction ts with
  | nil => rfl
  | cons t ts ih =>
    rw [clearedFlags, List.foldr_cons, h t (by simp)]
    exact congrArg _ (ih fun u hu => h u (by simp [hu]))

variable {s s' : EventSys w} {k k' : Kernel w} {t : TaskId} {o : ObjId} {event : Event}
  {pend : TaskId → EventPend}

/-- What the walk over the tasks `ts` has done. -/
structure Walked (o : ObjId) (cur : BitVec 32) (ts : List TaskId) (k : Kernel w)
    (pend : TaskId → EventPend) (event : Event) (r : EventSetResult w) : Prop where
  stat : r.stat = .success
  served : Served o noMsg r.woken [] k r.k
  moves : Moves k r.k
  woken : ∀ t, t ∈ r.woken ↔ t ∈ ts ∧ (pend t).met cur = true
  handed : ∀ t ∈ r.woken, r.pend t = { pend t with pendInfo := cur }
  others : ∀ t ∉ r.woken, r.pend t = pend t
  event : r.event = { event with flags := event.flags &&& ~~~clearedFlags pend r.woken }

theorem Served.nil (hk : PendWf k) : Served o noMsg [] [] k k :=
  ⟨hk, fun _ => ⟨rfl, rfl⟩, fun _ _ => rfl, by simp, by simp, by simp, by simp, by simp⟩

theorem walked_eventWalk (cur : BitVec 32) (pend : TaskId → EventPend) (event : Event)
    {ts : List TaskId} (hk : PendWf k) (hn : ts.Nodup) (hon : ∀ t ∈ ts, (k.tasks t).on o) :
    Walked o cur ts k pend event (eventWalk cur k pend event ts) := by
  induction ts generalizing k pend event with
  | nil =>
    refine ⟨rfl, .nil hk, .refl, by simp [eventWalk], by simp [eventWalk], fun _ _ => rfl, ?_⟩
    change event = { event with flags := event.flags &&& ~~~(0 : BitVec 32) }
    rw [and_not_zero]
  | cons t ts ih =>
    obtain ⟨ht, hn⟩ := List.nodup_cons.1 hn
    have hne : ∀ u ∈ ts, u ≠ t := fun u hu he => ht (he ▸ hu)
    unfold eventWalk
    split
    · rename_i hmet
      have h1 := served_pendTaskWakeup hk (hon t (by simp))
      have hon' : ∀ u ∈ ts, ((k.pendTaskWakeup t).tasks u).on o := fun u hu => by
        rw [h1.others u (by simpa using hne u hu)]
        exact hon u (by simp [hu])
      set pend1 := Function.update pend t { pend t with pendInfo := cur } with hp1
      set event1 : Event := { event with flags := (pend1 t).clear event.flags } with he1
      have hpend : ∀ u ≠ t, pend1 u = pend u := fun u hu => by rw [hp1, Function.update_of_ne hu]
      have h2 := ih pend1 event1 h1.wf hn hon'
      set r := eventWalk cur (k.pendTaskWakeup t) pend1 event1 ts with hr
      have htr : t ∉ r.woken := fun hc => ht ((h2.woken t).1 hc).1
      have hclears : ∀ u, (pend1 u).clears = (pend u).clears := fun u => by
        by_cases hu : u = t
        · rw [hp1, hu, Function.update_self]
          rfl
        · rw [hpend u hu]
      refine ⟨h2.stat, h1.cons h2.served,
        .cons (Kernel.move_pendTaskWakeup (hon t (by simp)).1) h2.moves, fun u => ?_, fun u hu => ?_,
        fun u hu => ?_, ?_⟩
      · rw [List.mem_cons, List.mem_cons, h2.woken]
        by_cases hu : u = t
        · simp [hu, hmet]
        · simp [hu, hpend u hu]
      · rcases List.mem_cons.1 hu with rfl | hu
        · change r.pend u = _
          rw [h2.others u htr, hp1, Function.update_self]
        · change r.pend u = _
          rw [h2.handed u hu, hpend u (hne u ((h2.woken u).1 hu).1)]
      · rw [List.mem_cons, not_or] at hu
        change r.pend u = _
        rw [h2.others u hu.2, hpend u hu.1]
      · change r.event = _
        rw [h2.event, he1, clearedFlags_congr fun u _ => hclears u]
        rw [EventPend.clear_eq, hclears, BitVec.and_assoc, ← BitVec.not_or]
        rfl
    · rename_i hmet
      have h2 := ih pend event hk hn fun u hu => hon u (by simp [hu])
      refine ⟨h2.stat, h2.served, h2.moves, fun u => ?_, h2.handed, h2.others, h2.event⟩
      rw [h2.woken, List.mem_cons]
      by_cases hu : u = t
      · subst hu
        simp [hmet]
      · simp [hu]

/-! ## What a set does -/

/-- The flags a set walks the tasks with. -/
def EventSys.raised (s : EventSys w) (flags : BitVec 32) (opt : BitVec 8) : BitVec 32 :=
  if optAnd opt then s.event.flags &&& flags else s.event.flags ||| flags

/-- What a set that returns success has done: it has woken the tasks blocked on
    the event whose condition is met, handed each the flags that met it, and
    cleared the flags those tasks asked to be cleared. -/
structure SetDone (s : EventSys w) (flags : BitVec 32) (opt : BitVec 8) (r : EventSetResult w) :
    Prop where
  woken : ∀ t, t ∈ r.woken ↔
    (s.k.tasks t).on s.event.blkObj ∧ (s.pend t).met (s.raised flags opt) = true
  released : ∀ t ∈ r.woken, (r.k.tasks t).idle ∧ krhinoEventGetEnd r.k t = .success
  handed : ∀ t ∈ r.woken, r.pend t = { s.pend t with pendInfo := s.raised flags opt }
  others : ∀ t ∉ r.woken, r.k.tasks t = s.k.tasks t ∧ r.pend t = s.pend t
  flags : r.event.flags = s.raised flags opt &&& ~~~clearedFlags s.pend r.woken

/-- The system `s`: no task is blocked on flags that meet its condition. -/
structure EventInv (s : EventSys w) : Prop where
  wf : PendWf s.k
  apart : Apart s.event.blkObj s.k
  objType : (s.k.objs s.event.blkObj).objType = .event
  blocked : ∀ t, (s.k.tasks t).on s.event.blkObj →
    s.inGet t = true ∧ (s.pend t).met s.event.flags = false
  /-- Inside the get a task is blocked, or has been woken. -/
  getter : ∀ t, s.inGet t = true → (s.k.tasks t).on s.event.blkObj ∨ (s.k.tasks t).idle ∧
    ((s.k.tasks t).blkState = .finish ∨ (s.k.tasks t).blkState = .timeout ∨
      (s.k.tasks t).blkState = .abort)
  /-- The flags in the hands of a task that a set has woken met its condition. -/
  handed : ∀ t, s.inGet t = true → (s.k.tasks t).idle → (s.k.tasks t).blkState = .finish →
    (s.pend t).met (s.pend t).pendInfo = true

namespace EventInv

variable {flags : BitVec 32} {opt : BitVec 8} {r : EventSetResult w}

theorem lower (h : EventInv s) {f : BitVec 32} (hf : f &&& s.event.flags = f) :
    EventInv { s with event := { s.event with flags := f } } := by
  refine ⟨h.wf, h.apart, h.objType, fun t ht => ⟨(h.blocked t ht).1, ?_⟩, h.getter, h.handed⟩
  by_contra hc
  have hmet := EventPend.met_mono hf (Bool.not_eq_false _ ▸ hc)
  rw [(h.blocked t ht).2] at hmet
  cases hmet

theorem and_le (a b : BitVec 32) : (a &&& b) &&& a = a &&& b := by
  rw [BitVec.and_comm a b, BitVec.and_assoc, BitVec.and_self]

theorem setDone (h : EventInv s) (hr : krhinoEventSet s.k s.event s.pend flags opt = r)
    (hs : r.stat = .success) : SetDone s flags opt r ∧ EventInv (s.after r) := by
  unfold krhinoEventSet eventSet at hr
  rw [if_neg (not_not.2 h.objType)] at hr
  by_cases ho : opt ≠ rhinoAnd ∧ opt ≠ rhinoOr
  · rw [if_pos ho] at hr
    rw [← hr] at hs
    cases hs
  rw [if_neg ho] at hr
  by_cases ha : optAnd opt = true
  · -- the flags are only taken away
    rw [if_pos ha] at hr
    subst hr
    have hraise : s.raised flags opt = s.event.flags &&& flags := if_pos ha
    refine ⟨⟨fun t => ?_, by simp, by simp, fun t _ => ⟨rfl, rfl⟩, ?_⟩, h.lower (and_le _ _)⟩
    · refine ⟨fun hc => absurd hc List.not_mem_nil, fun hc => ?_⟩
      have hmet := EventPend.met_mono (and_le _ _) (hraise ▸ hc.2)
      rw [(h.blocked t hc.1).2] at hmet
      cases hmet
    · rw [hraise]
      exact (and_not_zero _).symm
  · rw [if_neg ha] at hr
    have hraise : s.raised flags opt = s.event.flags ||| flags := if_neg ha
    have hw := walked_eventWalk (s.raised flags opt) s.pend
      { s.event with flags := s.raised flags opt } h.wf (h.wf.nodup s.event.blkObj) fun t ht => (h.wf.mem _ t).1 ht
    rw [hraise] at hw
    rw [hr, ← hraise] at hw
    have hev : r.event.flags = s.raised flags opt &&& ~~~clearedFlags s.pend r.woken := by
      rw [hw.event]
    have hobj : r.event.blkObj = s.event.blkObj := by rw [hw.event]
    have hon : ∀ t, (r.k.tasks t).on s.event.blkObj →
        t ∉ r.woken ∧ (s.k.tasks t).on s.event.blkObj := fun t ht => by
      have htw : t ∉ r.woken := fun hc => (hw.served.idle t hc).not_on _ ht
      exact ⟨htw, hw.served.others t htw ▸ ht⟩
    refine ⟨⟨fun t => ?_, fun t ht => ⟨hw.served.idle t ht, ?_⟩, hw.handed,
      fun t ht => ⟨hw.served.others t ht, hw.others t ht⟩, hev⟩,
      ⟨hw.served.wf, ?_, ?_, fun t ht => ?_, fun t ht => ?_, fun t ht hi hf => ?_⟩⟩
    · rw [hw.woken, h.wf.mem]
    · unfold krhinoEventGetEnd
      rw [hw.served.blkState t ht]
      rfl
    · change Apart r.event.blkObj r.k
      rw [hobj]
      exact h.apart.moves hw.moves
    · change (r.k.objs r.event.blkObj).objType = .event
      rw [hobj]
      exact (hw.served.kind _).1.trans h.objType
    · change (r.k.tasks t).on r.event.blkObj at ht
      rw [hobj] at ht
      obtain ⟨htw, ht⟩ := hon t ht
      refine ⟨(h.blocked t ht).1, ?_⟩
      change (r.pend t).met r.event.flags = false
      rw [hw.others t htw]
      -- it was not met before the flags were cleared
      by_contra hc
      rw [hev] at hc
      have hmet := EventPend.met_mono (and_le _ _) (Bool.not_eq_false _ ▸ hc)
      exact htw ((hw.woken t).2 ⟨(h.wf.mem _ t).2 ht, hmet⟩)
    · change (r.k.tasks t).on r.event.blkObj ∨ _
      rw [hobj]
      by_cases htw : t ∈ r.woken
      · exact .inr ⟨hw.served.idle t htw, .inl (hw.served.blkState t htw)⟩
      · change (r.k.tasks t).on _ ∨ (r.k.tasks t).idle ∧ _
        rw [show (s.after r).k = r.k from rfl, hw.served.others t htw]
        exact h.getter t ht
    · change (r.pend t).met (r.pend t).pendInfo = true
      by_cases htw : t ∈ r.woken
      · rw [hw.handed t htw]
        exact ((hw.woken t).1 htw).2
      · rw [hw.others t htw]
        change (r.k.tasks t).idle at hi
        change (r.k.tasks t).blkState = _ at hf
        rw [hw.served.others t htw] at hi hf
        exact h.handed t ht hi hf

theorem set_fail (h : EventInv s) (hr : krhinoEventSet s.k s.event s.pend flags opt = r)
    (hs : r.stat ≠ .success) : s.after r = s := by
  unfold krhinoEventSet eventSet at hr
  rw [if_neg (not_not.2 h.objType)] at hr
  split at hr
  · subst hr
    rfl
  split at hr
  · subst hr
    exact absurd rfl hs
  · have hw := walked_eventWalk (s.event.flags ||| flags) s.pend
      { s.event with flags := s.event.flags ||| flags } h.wf
      (h.wf.nodup s.event.blkObj) fun t ht => (h.wf.mem _ t).1 ht
    exact absurd (hr ▸ hw.stat) hs

/-! ## The other steps -/

variable {ticks : BitVec w}

theorem getRet (h : EventInv s) {stat : KStat} {actl : Option (BitVec 32)}
    (hr : krhinoEventGet s.k s.event s.pend flags opt ticks = .ret stat event actl) :
    EventInv { s with event := event } := by
  unfold krhinoEventGet at hr
  rw [if_neg (not_not.2 h.objType)] at hr
  split_ifs at hr
  all_goals
    cases hr
    try exact h
  exact h.lower (and_le _ _)

theorem block (h : EventInv s) (hc : s.calls)
    (hr : krhinoEventGet s.k s.event s.pend flags opt ticks = .blocked k pend) :
    EventInv { s with
      k := k, pend := pend, inGet := Function.update s.inGet s.k.activeTask true } := by
  unfold krhinoEventGet at hr
  rw [if_neg (not_not.2 h.objType)] at hr
  split_ifs at hr with h1 h2 h3 h4 h5
  cases hr
  have hb := Kernel.blocked_pendToBlkObj h.wf (t := s.k.activeTask) (by simp [Task.waits, hc.1])
    s.event.blkObj ticks
  have hm := (Kernel.move_pendToBlkObj hc.1 s.event.blkObj ticks).1
  refine ⟨hb.wf, h.apart.move hm, (hb.kind _).1.trans h.objType, fun t ht => ?_, fun t ht => ?_,
    fun t ht hi hf => ?_⟩
  all_goals
    dsimp only at *
    by_cases hu : t = s.k.activeTask
  · refine ⟨by simp [hu], ?_⟩
    rw [hu, Function.update_self]
    exact Bool.eq_false_iff.2 h3
  · rw [hb.others t hu] at ht
    rw [Function.update_of_ne hu, Function.update_of_ne hu]
    exact h.blocked t ht
  · exact .inl (hu ▸ hb.on)
  · rw [hb.others t hu]
    exact h.getter t (by simpa [hu] using ht)
  · exact absurd hb.on (hu ▸ hi.not_on _)
  · rw [hb.others t hu] at hi hf
    rw [Function.update_of_ne hu] at ht ⊢
    exact h.handed t ht hi hf

theorem getEnd (h : EventInv s) (hr : (s.k.tasks t).taskState = .rdy) :
    EventInv { s with inGet := Function.update s.inGet t false } := by
  have hi : (s.k.tasks t).idle := .inl hr
  refine ⟨h.wf, h.apart, h.objType, fun u hu => ?_, fun u hu => ?_, fun u hu => ?_⟩
  all_goals
    dsimp only at *
    by_cases hut : u = t
  · exact absurd (hut ▸ hu) (hi.not_on _)
  · rw [Function.update_of_ne hut]
    exact h.blocked u hu
  · simp [hut] at hu
  · exact h.getter u (by simpa [hut] using hu)
  · simp [hut] at hu
  · exact h.handed u (by simpa [hut] using hu)

/-- **A step that is no call on the event**; the task gone, if any, is not in
    the get any more. -/
theorem task (h : EventInv s) {a : TaskAct} (ha : TaskStep s.event.blkObj s.k a k) :
    EventInv { s with k := k, inGet := fun u => s.inGet u && a.gone k != some u } := by
  have hs := ha.aside h.wf h.apart
  have hin : ∀ u, (s.inGet u && a.gone k != some u) = true ↔
      s.inGet u = true ∧ a.gone k ≠ some u := fun u => by simp
  refine ⟨hs.wf, hs.apart, hs.objType.trans h.objType, fun u hu => ?_, fun u hu => ?_,
    fun u hu hi hf => ?_⟩
  · have hg : a.gone k ≠ some u := fun hg =>
      (Task.not_idle_of_deleted (TaskAct.gone_deleted hg)).2 _ hu
    have hb := h.blocked u ((hs.quiet hg).noNew hu)
    exact ⟨(hin u).2 ⟨hb.1, hg⟩, hb.2⟩
  · obtain ⟨hu, hg⟩ := (hin u).1 hu
    rcases h.getter u hu with hon | ⟨hi, hb⟩
    · exact ((hs.quiet hg).left hon).imp_right fun hx => ⟨hx.1, .inr hx.2⟩
    · obtain ⟨hi', hb'⟩ := (hs.quiet hg).idle hi
      exact .inr ⟨hi', by rw [hb']; exact hb⟩
  · obtain ⟨hu, hg⟩ := (hin u).1 hu
    rcases h.getter u hu with hon | ⟨hi', -⟩
    · -- it left by timeout or abort, so no set has woken it
      rcases (hs.quiet hg).left hon with hon' | ⟨-, hb' | hb'⟩
      · exact absurd hon' (hi.not_on _)
      · rw [hb'] at hf
        cases hf
      · rw [hb'] at hf
        cases hf
    · exact h.handed u hu hi' (((hs.quiet hg).idle hi').2.symm.trans hf)

theorem step (h : EventInv s) {a : EventStep w} (hs : EventStep.Step s a s') : EventInv s' := by
  cases hs with
  | get hr => exact h.getRet hr
  | block hc hr => exact h.block hc hr
  | getEnd ht hr => exact h.getEnd hr
  | @set _ _ r hr =>
    by_cases hs : r.stat = .success
    · exact (h.setDone hr hs).2
    · rw [h.set_fail hr hs]
      exact h
  | task ha => exact h.task ha

theorem getEnd_stat (h : EventInv s) (ht : s.inGet t = true) (hi : (s.k.tasks t).idle) :
    krhinoEventGetEnd s.k t = .success ∧ (s.pend t).met (s.pend t).pendInfo = true ∨
      krhinoEventGetEnd s.k t = .blkTimeout ∨ krhinoEventGetEnd s.k t = .blkAbort := by
  unfold krhinoEventGetEnd
  rcases ((h.getter t ht).resolve_left (hi.not_on _)).2 with hb | hb | hb
  · exact .inl ⟨by rw [hb]; rfl, h.handed t ht hi hb⟩
  · exact .inr (.inl (by rw [hb]; rfl))
  · exact .inr (.inr (by rw [hb]; rfl))

end EventInv

/-! ## Runs -/

theorem eventInv_create {k0 : Kernel w} {obj : ObjId} {flags : BitVec 32} (hk : PendWf k0)
    (ha : Apart obj k0) (hnew : ∀ t, ¬ (k0.tasks t).on obj)
    (hc : krhinoEventCreate k0 obj flags = (.success, k, event)) :
    EventInv ⟨k, event, pend, fun _ => false⟩ := by
  simp only [krhinoEventCreate, eventCreate, Prod.mk.injEq, true_and] at hc
  obtain ⟨rfl, rfl⟩ := hc
  have hr := receivers_new hk hnew .event noMsg
  exact ⟨hr.wf, ha.congr (fun _ => rfl) rfl, hr.objType, fun t ht => absurd ht (hnew t), by simp,
    by simp⟩

/-- **Event flags lose no wake-up.**  In every run from the creation of an event,
    by any tasks and interrupts: no task is blocked on flags that meet its
    condition; a set wakes exactly the tasks whose condition its flags meet,
    hands them those flags, and clears exactly what those tasks asked to be
    cleared (`SetDone`); and a task returns with success only with flags that
    met its condition. -/
theorem event_no_lost_wakeup {k₀ : Kernel w} {obj : ObjId} {flags : BitVec 32} (hk : PendWf k₀)
    (ha : Apart obj k₀) (hnew : ∀ t, ¬ (k₀.tasks t).on obj)
    (hc : krhinoEventCreate k₀ obj flags = (.success, k, event)) {as : List (EventStep w)}
    (run : Run EventStep.Step ⟨k, event, pend, fun _ => false⟩ as s) :
    (∀ t, (s.k.tasks t).on s.event.blkObj → (s.pend t).met s.event.flags = false) ∧
      (∀ flags opt r, krhinoEventSet s.k s.event s.pend flags opt = r →
        if r.stat = .success then SetDone s flags opt r else s.after r = s) ∧
      ∀ t, s.inGet t = true → (s.k.tasks t).idle →
        krhinoEventGetEnd s.k t = .success ∧ (s.pend t).met (s.pend t).pendInfo = true ∨
          krhinoEventGetEnd s.k t = .blkTimeout ∨ krhinoEventGetEnd s.k t = .blkAbort := by
  have h : EventInv s := run.keeps (fun hi hs => hi.step hs) (eventInv_create hk ha hnew hc)
  refine ⟨fun t ht => (h.blocked t ht).2, fun flags opt r hr => ?_, fun t ht hi =>
    h.getEnd_stat ht hi⟩
  split
  · rename_i hs
    exact (h.setDone hr hs).1
  · rename_i hs
    exact h.set_fail hr hs

/-- A task waits for two flags, and only one of them is set. -/
theorem event_no_lost_wakeup_and :
    ∃ s : EventSys 32, (s.k.tasks 0).on 0 ∧ (s.pend 0).met s.event.flags = false := by
  have hnew : ∀ t, ¬ ((readyKernel 32 fun _ => 10).tasks t).on 0 := fun t h =>
    readyKernel_not_waits _ t h.1
  have h := @event_no_lost_wakeup 32 _ _ _ (fun _ => ⟨0, 0, 0⟩) _ 0 0
    (pendWf_readyKernel fun _ => 10) (apart_readyKernel _ 0) hnew rfl _
    (.cons (@EventStep.Step.block _ _ 3 rhinoAndClear 5 _ _ ⟨rfl, rfl⟩ rfl)
      (.cons (@EventStep.Step.set _ _ 1 rhinoOr _ rfl) .nil))
  exact ⟨_, ⟨.inl rfl, rfl⟩, h.1 0 ⟨.inl rfl, rfl⟩⟩

end Rhino
