/-
  Work queues: an accepted work is run exactly once, but for a deletion that
  another work overtakes and for a timer that is run again or expires in vain.

  A deletion tests the queue in one critical section and deletes its worker in
  another: a work added in between stays on the list for good.  A delayed run
  returns `RHINO_SUCCESS` when its command is queued: one that finds the timer
  on restarts it, and a callback that finds the work running or queued gives it
  up, where an immediate run would return an error (`OnceOk`).  Otherwise the
  works on a list are the units of its semaphore (`OnceInv`), and every accepted
  run is pending in one place until its handler is called or its timer is
  stopped (`pending`).
-/
import AliOS.Rhino.WorkCancel

namespace Rhino

open Lib

variable {w num : ℕ} {idle : BitVec w}

/-- A give of the callback to the queue is under way. -/
def CbPc.givesTo (q : WqId) : CbPc → Bool
  | .give _ p => p = q
  | _ => false

namespace WorkSys

/-- The units of the queue: in the semaphore, with the worker, and on their way. -/
def units (s : WorkSys w) (q : WqId) : ℕ :=
  (s.queues q).count + (if (s.queues q).worker = .got then 1 else 0) +
    (s.gives.countP (·.1 = q) + (s.cb.givesTo q).toNat)

/-- No deletion of the queue has passed its test. -/
def Open (s : WorkSys w) (q : WqId) : Prop :=
  (∀ p ∈ s.dels, p.1 = q → p.2 = .found) ∧ (s.queues q).worker ≠ .gone

/-- The timer of the work is on, and its callback has not added the work yet. -/
def Armed (s : WorkSys w) (v : WorkId) : Prop :=
  (s.works v).timer ∈ s.tm.timerHead ∧ s.cb.past ≠ some v

instance (s : WorkSys w) (v : WorkId) : Decidable (s.Armed v) := inferInstanceAs (Decidable (_ ∧ _))

/-- The runs of the work that wait for its timer. -/
def delayed (s : WorkSys w) (v : WorkId) : ℕ :=
  if (s.works v).dly = 0 then 0
  else (s.tm.cmds (s.works v).timer).count .argChgAuto + if s.Armed v then 1 else 0

/-- The runs of the work whose handler is still to be called: with its timer, on
    a list, or with a worker. -/
def pending (s : WorkSys w) (v : WorkId) : ℕ :=
  s.delayed v + (s.works v).workExit.toNat + s.calls.countP (·.2 = v)

/-- The runs of the work that have added it, and have not returned. -/
def giving (s : WorkSys w) (v : WorkId) : ℕ := s.gives.countP (·.2 = v)

end WorkSys

/-- The steps that keep the books: no work is added to a queue once a deletion of
    it has passed its test, the semaphore does not overflow, a timer is not
    restarted while it is on, and a callback adds its work. -/
def OnceOk (s : WorkSys w) : WorkAct w → Prop
  | .run q _ none => s.Open q
  | .enter q v => s.Open q ∧ (s.queues q).workCurrent ≠ some v ∧ (s.works v).workExit = false
  | .give q _ _ | .cbGive q _ => (s.queues q).count < semCountMax
  | .timer (.cmd _ c) on => c.cbNum = .argChgAuto → s.WorkTimer c.timer → on = false
  | _ => True

namespace WorkAct

/-- A run of the work returns `RHINO_SUCCESS`. -/
def accepts (v : WorkId) : WorkAct w → Bool
  | .run _ u (some .success) | .give _ u .success => u = v
  | _ => false

/-- The handler of the work is called. -/
def handles (v : WorkId) : WorkAct w → Bool
  | .handle _ u => u = v
  | _ => false

/-- The stop of a cancel takes the timer of the work off `g_timer_head`. -/
def stops (x : Work w) : WorkAct w → Bool
  | .timer (.cmd _ c) on => on && x.dly ≠ 0 && c.timer = x.timer && c.cbNum = .stop
  | _ => false

theorem stops_cmd (x : Work w) (d : ℕ) (c : KTimerQueueCb w) (on : Bool) :
    stops x (.timer (.cmd d c) on) =
      (on && x.dly ≠ 0 && c.timer = x.timer && c.cbNum = .stop) := rfl

end WorkAct

variable {s s' : WorkSys w} {a : WorkAct w} {q p : WqId} {u v : WorkId}

/-! ## The units of a queue -/

/-- The works on the list are the units of the queue; one whose deletion has
    passed its test is empty, and stays so. -/
structure QueueInv (s : WorkSys w) (q : WqId) : Prop where
  units : (s.queues q).workList.length = s.units q
  blocked : (s.queues q).worker = .blocked → (s.queues q).count = 0
  busy : (s.queues q).workCurrent ≠ none ↔ (s.queues q).worker = .busy
  calls : ∀ v, (q, v) ∈ s.calls → (s.queues q).workCurrent = some v
  semType : (s.queues q).worker ≠ .gone → (s.queues q).semType = .sem
  gone : (q, .noWorker) ∈ s.dels ∨ (q, .noSem) ∈ s.dels → (s.queues q).worker = .gone
  still : ¬ s.Open q → (s.queues q).workList = [] ∧ (s.queues q).workCurrent = none

theorem countP_middle {α : Type*} (f : α → Bool) (l₁ l₂ : List α) (x : α) :
    (l₁ ++ x :: l₂).countP f = (l₁ ++ l₂).countP f + (f x).toNat := by
  rw [List.countP_append, List.countP_append, List.countP_cons]
  cases f x
  · rfl
  · exact (Nat.add_assoc ..).symm

theorem QueueInv.isOpen (h : QueueInv s q) (hu : 0 < s.units q) : s.Open q := by
  by_contra hc
  have hl := h.units
  rw [(h.still hc).1, List.length_nil] at hl
  omega

theorem WorkSys.Open.congr (h : s.Open q)
    (hd : ∀ x, (q, x) ∈ s'.dels → x = .found ∨ (q, x) ∈ s.dels)
    (hq : (s'.queues q).worker = .gone → (s.queues q).worker = .gone) : s'.Open q := by
  refine ⟨?_, fun hc => h.2 (hq hc)⟩
  rintro ⟨p, x⟩ hx rfl
  exact (hd x hx).elim id fun hx => h.1 _ hx rfl

theorem QueueInv.congr (h : QueueInv s q) (hq : s'.queues q = s.queues q)
    (hg : s'.gives.countP (·.1 = q) + (s'.cb.givesTo q).toNat =
      s.gives.countP (·.1 = q) + (s.cb.givesTo q).toNat)
    (hc : ∀ v, (q, v) ∈ s'.calls → (q, v) ∈ s.calls)
    (hd : ∀ x, (q, x) ∈ s'.dels → x = .found ∨ (q, x) ∈ s.dels) : QueueInv s' q := by
  refine ⟨?_, by rw [hq]; exact h.blocked, by rw [hq]; exact h.busy, fun v hv => ?_,
    by rw [hq]; exact h.semType, fun hx => ?_, fun ho => ?_⟩
  · unfold WorkSys.units
    rw [hq, hg]
    exact h.units
  · rw [hq]
    exact h.calls v (hc v hv)
  · rw [hq]
    refine h.gone (hx.imp (fun hx => ?_) fun hx => ?_)
    · exact (hd _ hx).resolve_left nofun
    · exact (hd _ hx).resolve_left nofun
  · rw [hq]
    exact h.still fun hc => ho (hc.congr hd fun hg => by rwa [hq] at hg)

theorem QueueInv.insert (h : QueueInv s q) (hl : WorkLists s) (hv : (s.works v).workExit = false)
    (ho : s.Open q) (hq : s'.queues = (s.insert q v).queues)
    (hg : s'.gives.countP (·.1 = q) + (s'.cb.givesTo q).toNat =
      s.gives.countP (·.1 = q) + (s.cb.givesTo q).toNat + 1)
    (hc : s'.calls = s.calls) (hd : s'.dels = s.dels) : QueueInv s' q := by
  have hq' : s'.queues q =
      { s.queues q with workList := (s.queues q).workList ++ [v] } := by
    rw [hq, hl.insert_queues hv, if_pos rfl]
  refine ⟨?_, by rw [hq']; exact h.blocked, by rw [hq']; exact h.busy, fun u hu => ?_,
    by rw [hq']; exact h.semType, fun hx => ?_, fun hn => ?_⟩
  · have hu := h.units
    unfold WorkSys.units at hu ⊢
    rw [hq', hg, List.length_append, List.length_singleton]
    dsimp only
    omega
  · rw [hq']
    rw [hc] at hu
    exact h.calls u hu
  · rw [hq']
    rw [hd] at hx
    exact h.gone hx
  · refine absurd (ho.congr (fun x hx => .inr (hd ▸ hx)) fun hg => ?_) hn
    rwa [hq'] at hg

theorem QueueInv.give (h : QueueInv s q) (s' : WorkSys w) (hc : (s.queues q).count < semCountMax)
    (hq : s'.queues q = (s.queues q).semGive.2)
    (hg : s'.gives.countP (·.1 = q) + (s'.cb.givesTo q).toNat + 1 =
      s.gives.countP (·.1 = q) + (s.cb.givesTo q).toNat)
    (hcalls : s'.calls = s.calls) (hd : s'.dels = s.dels) :
    (s.queues q).semGive.1 = .success ∧ QueueInv s' q := by
  have hopen : s.Open q := h.isOpen (by unfold WorkSys.units; omega)
  have hgone : (s'.queues q).worker = .gone → (s.queues q).worker = .gone := by
    rw [hq]
    unfold WorkQueue.semGive
    split_ifs <;> first | exact id | nofun
  have hopen' : s'.Open q := hopen.congr (fun x hx => .inr (hd ▸ hx)) hgone
  have hu := h.units
  unfold WorkSys.units at hu
  have hcalls' : ∀ x : WorkQueue, x.workCurrent = (s.queues q).workCurrent →
      ∀ v, (q, v) ∈ s'.calls → x.workCurrent = some v := by
    intro x hx v hv
    rw [hcalls] at hv
    rw [hx]
    exact h.calls v hv
  unfold WorkQueue.semGive at hq ⊢
  rw [if_neg (not_not.2 (h.semType hopen.2))] at hq ⊢
  by_cases hb : (s.queues q).worker = .blocked
  · rw [if_pos hb] at hq ⊢
    refine ⟨rfl, ?_, by rw [hq]; nofun, ?_, hcalls' _ (by rw [hq]), ?_, fun hx => ?_,
      fun hn => absurd hopen' hn⟩
    · unfold WorkSys.units
      rw [hq]
      rw [if_neg (by rw [hb]; nofun)] at hu
      dsimp only
      rw [if_pos rfl]
      omega
    · rw [hq]
      have hbusy := h.busy
      rw [hb] at hbusy
      exact hbusy.trans ⟨nofun, nofun⟩
    · rw [hq]
      exact fun _ => h.semType hopen.2
    · rw [hd] at hx
      rw [h.gone hx] at hb
      cases hb
  · rw [if_neg hb, if_neg (by omega)] at hq ⊢
    refine ⟨rfl, ?_, ?_, by rw [hq]; exact h.busy, hcalls' _ (by rw [hq]),
      by rw [hq]; exact h.semType, fun hx => ?_, fun hn => absurd hopen' hn⟩
    · unfold WorkSys.units
      rw [hq]
      dsimp only
      omega
    · rw [hq]
      exact fun hc => absurd hc hb
    · rw [hq]
      rw [hd] at hx
      exact h.gone hx

/-- The invariant of the works and the queues. -/
structure OnceInv (s : WorkSys w) : Prop where
  wf : WorkWf s
  queue : ∀ q, QueueInv s q

theorem WorkSys.New.once (h : s.New) : OnceInv s := by
  refine ⟨h.wf, fun q => ⟨?_, ?_, ?_, fun v hc => ?_, fun _ => ?_, fun hd => ?_, fun _ => ?_⟩⟩
  · unfold WorkSys.units
    rw [h.queues, h.gives, h.cb]
    rfl
  · rw [h.queues]
    nofun
  · rw [h.queues]
    exact ⟨fun hc => absurd rfl hc, nofun⟩
  · rw [h.calls] at hc
    cases hc
  · rw [h.queues]
    rfl
  · rw [h.dels] at hd
    rcases hd with hd | hd <;> cases hd
  · rw [h.queues]
    exact ⟨rfl, rfl⟩

theorem QueueInv.take (h : QueueInv s q) (hw : (s.queues q).worker = .take) :
    QueueInv (s.updQueue q WorkQueue.semTake) q := by
  have hne : (s.queues q).worker ≠ .gone := by rw [hw]; nofun
  have hcur : (s.queues q).workCurrent = none := by
    by_contra hc
    have hb := h.busy.1 hc
    rw [hw] at hb
    cases hb
  have hu := h.units
  unfold WorkSys.units at hu
  rw [if_neg (by rw [hw]; nofun)] at hu
  have hstill : ¬ (s.updQueue q WorkQueue.semTake).Open q →
      (s.queues q).workList = [] ∧ (s.queues q).workCurrent = none := fun hn =>
    h.still fun ho => hn ⟨ho.1, by
      rw [s.updQueue_self]
      unfold WorkQueue.semTake
      split <;> nofun⟩
  have hgone : ¬ ((q, .noWorker) ∈ s.dels ∨ (q, .noSem) ∈ s.dels) := fun hx => hne (h.gone hx)
  by_cases hc : (s.queues q).count > 0
  · have hself := (s.updQueue_self q WorkQueue.semTake).trans (if_pos hc)
    refine ⟨?_, by rw [hself]; nofun, ?_, ?_, ?_, fun hx => absurd hx hgone, ?_⟩
    · unfold WorkSys.units
      rw [hself]
      dsimp only
      rw [if_pos rfl]
      change _ = (s.queues q).count - 1 + 1 + (s.gives.countP _ + (s.cb.givesTo q).toNat)
      omega
    · rw [hself, hcur]
      exact ⟨fun hc => absurd rfl hc, nofun⟩
    · rw [hself]
      exact h.calls
    · rw [hself]
      exact fun _ => h.semType hne
    · rw [hself]
      exact hstill
  · have hself := (s.updQueue_self q WorkQueue.semTake).trans (if_neg hc)
    refine ⟨?_, ?_, ?_, ?_, ?_, fun hx => absurd hx hgone, ?_⟩
    · unfold WorkSys.units
      rw [hself]
      exact hu
    · rw [hself]
      exact fun _ => Nat.eq_zero_of_not_pos hc
    · rw [hself, hcur]
      exact ⟨fun hc => absurd rfl hc, nofun⟩
    · rw [hself]
      exact h.calls
    · rw [hself]
      exact fun _ => h.semType hne
    · rw [hself]
      exact hstill

theorem QueueInv.dequeue (h : QueueInv s q) (hl : WorkLists s) {l : List WorkId}
    (hw : (s.queues q).worker = .got) (hlist : (s.queues q).workList = v :: l) :
    QueueInv { s.dequeue q v with calls := (q, v) :: s.calls } q := by
  have hself : (s.dequeue q v).queues q =
      { s.queues q with workList := l, workCurrent := some v, worker := .busy } := by
    rw [hl.dequeue_queues hlist, if_pos rfl]
  have hopen : s.Open q := by
    by_contra hc
    have he := (h.still hc).1
    rw [hlist] at he
    cases he
  have hcur : (s.queues q).workCurrent = none := by
    by_contra hc
    have hb := h.busy.1 hc
    rw [hw] at hb
    cases hb
  have hu := h.units
  unfold WorkSys.units at hu
  rw [hlist, if_pos hw, List.length_cons] at hu
  refine ⟨?_, ?_, ?_, fun u hm => ?_, ?_, fun hx => ?_, fun hn => ?_⟩
  · unfold WorkSys.units
    rw [hself]
    dsimp only
    rw [if_neg nofun]
    change l.length = _ + 0 + (s.gives.countP _ + (s.cb.givesTo q).toNat)
    omega
  · dsimp only
    rw [hself]
    nofun
  · dsimp only
    rw [hself]
    exact ⟨fun _ => rfl, nofun⟩
  · dsimp only
    rw [hself]
    rcases List.mem_cons.1 hm with hm | hm
    · rw [(Prod.mk.inj hm).2]
    · rw [h.calls u hm] at hcur
      cases hcur
  · dsimp only
    rw [hself]
    exact fun _ => h.semType hopen.2
  · exact absurd (h.gone hx) hopen.2
  · refine absurd ⟨hopen.1, ?_⟩ hn
    rw [hself]
    nofun

theorem QueueInv.finish (h : QueueInv s q) (hw : (s.queues q).worker = .busy)
    (hc : ∀ v, (q, v) ∉ s.calls) :
    QueueInv (s.updQueue q fun x => { x with workCurrent := none, worker := .take }) q := by
  have hself := s.updQueue_self q fun x => { x with workCurrent := none, worker := .take }
  have hne : (s.queues q).worker ≠ .gone := by rw [hw]; nofun
  have hopen : s.Open q := by
    by_contra hn
    exact h.busy.2 hw (h.still hn).2
  have hu := h.units
  unfold WorkSys.units at hu
  rw [if_neg (by rw [hw]; nofun)] at hu
  refine ⟨?_, ?_, ?_, fun v hv => absurd hv (hc v), ?_, fun hx => absurd (h.gone hx) hne,
    fun hn => absurd ⟨hopen.1, ?_⟩ hn⟩
  · unfold WorkSys.units
    rw [hself]
    exact hu
  · rw [hself]
    nofun
  · rw [hself]
    exact ⟨fun hc => absurd rfl hc, nofun⟩
  · rw [hself]
    exact fun _ => h.semType hne
  · rw [hself]
    nofun

/-- A deletion goes on past its test: the queue is empty, and its worker has no
    unit. -/
theorem QueueInv.resting (h : QueueInv s q) (ho : ¬ s.Open q) :
    (s.queues q).worker ≠ .got ∧ (s.queues q).worker ≠ .busy ∧ ∀ v, (q, v) ∉ s.calls := by
  obtain ⟨-, hc⟩ := h.still ho
  refine ⟨fun hw => ho (h.isOpen ?_), fun hw => h.busy.2 hw hc, fun v hv => ?_⟩
  · unfold WorkSys.units
    rw [if_pos hw]
    omega
  · have hcur := h.calls v hv
    rw [hc] at hcur
    cases hcur

/-- The worker, the semaphore or the node of a queue that is being deleted goes. -/
theorem QueueInv.del (h : QueueInv s q) (ho : ¬ s.Open q) {f : WorkQueue → WorkQueue}
    (hf : ∀ x, (f x).workList = x.workList ∧ (f x).workCurrent = x.workCurrent ∧
      (f x).count = x.count)
    (hw : (f (s.queues q)).worker = .gone) (hq : s'.queues q = f (s.queues q))
    (hg : s'.gives = s.gives) (hcb : s'.cb = s.cb) (hc : ∀ v, (q, v) ∈ s'.calls → (q, v) ∈ s.calls) :
    QueueInv s' q := by
  obtain ⟨hgot, -, hcalls⟩ := h.resting ho
  have hst := h.still ho
  have hu := h.units
  unfold WorkSys.units at hu
  rw [if_neg hgot] at hu
  refine ⟨?_, ?_, ?_, fun v hv => absurd (hc v hv) (hcalls v), fun hn => ?_, fun _ => ?_, fun _ => ?_⟩
  · unfold WorkSys.units
    rw [hq, (hf _).1, (hf _).2.2, hg, hcb, hw, if_neg nofun]
    exact hu
  · rw [hq, hw]
    nofun
  · rw [hq, hw, (hf _).2.1, hst.2]
    exact ⟨fun hc => absurd rfl hc, nofun⟩
  · rw [hq] at hn
    exact absurd hw hn
  · rw [hq, hw]
  · rw [hq, (hf _).1, (hf _).2.1]
    exact hst

theorem mem_removed {α : Type*} {l l₁ l₂ : List α} {x y : α} (hl : l = l₁ ++ y :: l₂) (hx : x ∈ l₁ ++ l₂) : x ∈ l := by
  rw [hl]
  rcases List.mem_append.1 hx with hx | hx
  · exact List.mem_append_left _ hx
  · exact List.mem_append_right _ (List.mem_cons_of_mem _ hx)

theorem mem_turned {α : Type*} {l l₁ l₂ : List (WqId × α)} {x y z : α} (hl : l = l₁ ++ (q, y) :: l₂) (hpq : p ≠ q)
    (hx : (p, x) ∈ l₁ ++ (q, z) :: l₂) : (p, x) ∈ l := by
  refine mem_removed hl ?_
  rcases List.mem_append.1 hx with hx | hx
  · exact List.mem_append_left _ hx
  · rcases List.mem_cons.1 hx with hx | hx
    · exact absurd (Prod.mk.inj hx).1 hpq
    · exact List.mem_append_right _ hx

theorem OnceInv.step (h : OnceInv s) (hs : restrict OnceOk (WorkStep num idle) s a s') :
    OnceInv s' := by
  obtain ⟨hok, hs⟩ := hs
  refine ⟨hs.wf h.wf, fun p => ?_⟩
  have hp := h.queue p
  have hl := h.wf.lists
  cases hs with
  | client => exact hp.congr rfl rfl (fun _ => id) fun _ => .inr
  | timer => exact hp.congr rfl rfl (fun _ => id) fun _ => .inr
  | expire hcb => exact hp.congr rfl (by rw [hcb]; rfl) (fun _ => id) fun _ => .inr
  | fired hcb => exact hp.congr rfl (by rw [hcb]; rfl) (fun _ => id) fun _ => .inr
  | @enter q v hcb =>
    obtain ⟨ho, hcur, hv⟩ := hok
    rcases workTimerCb_cases s q v with ⟨hc, -⟩ | ⟨-, -, he⟩
    · rcases hc with hc | hc
      · exact absurd hc hcur
      · rw [hv] at hc
        cases hc
    rw [he]
    by_cases hpq : p = q
    · subst hpq
      refine hp.insert (v := v) hl hv ho rfl ?_ rfl rfl
      simp [hcb, CbPc.givesTo]
    · refine hp.congr ?_ ?_ (fun _ => id) fun _ => .inr
      · exact (hl.insert_queues hv p).trans (if_neg hpq)
      · simp [hcb, CbPc.givesTo, Ne.symm hpq]
  | @cbGive q v hcb =>
    by_cases hpq : p = q
    · subst hpq
      refine (hp.give { s.updQueue p fun x => x.semGive.2 with cb := .done v } hok
        (s.updQueue_self p fun x => x.semGive.2) ?_ rfl rfl).2
      simp [hcb, CbPc.givesTo, WorkSys.updQueue]
    · refine hp.congr (s.updQueue_ne (fun x => x.semGive.2) hpq) ?_ (fun _ => id) fun _ => .inr
      simp [hcb, CbPc.givesTo, Ne.symm hpq, WorkSys.updQueue]
  | @run cb q v r hr =>
    rcases krhinoWorkRun_cases hr with rfl | rfl | ⟨-, hv, rfl⟩ | ⟨-, c, -, -, -, rfl⟩
    · exact hp
    · exact hp
    · by_cases hpq : p = q
      · subst hpq
        refine hp.insert (v := v) hl hv hok rfl ?_ rfl rfl
        simp
        omega
      · refine hp.congr ((hl.insert_queues hv p).trans (if_neg hpq)) ?_ (fun _ => id) fun _ => .inr
        simp [Ne.symm hpq]
    · exact hp.congr rfl rfl (fun _ => id) fun _ => .inr
  | @give q v l₁ l₂ hg =>
    have hcount := countP_middle (fun x : WqId × WorkId => decide (x.1 = p)) l₁ l₂ (q, v)
    by_cases hpq : p = q
    · subst hpq
      refine (hp.give { s.updQueue p fun x => x.semGive.2 with gives := l₁ ++ l₂ } hok
        (s.updQueue_self p fun x => x.semGive.2) ?_ rfl rfl).2
      rw [hg, hcount]
      simp [WorkSys.updQueue]
      omega
    · refine hp.congr (s.updQueue_ne (fun x => x.semGive.2) hpq) ?_ (fun _ => id) fun _ => .inr
      rw [hg, hcount]
      simp [Ne.symm hpq, WorkSys.updQueue]
  | read => exact hp.congr rfl rfl (fun _ => id) fun _ => .inr
  | @cancel cb v wq l₁ l₂ r hc hr =>
    rcases krhinoWorkCancel_cases hr with ⟨he, -⟩ | ⟨-, -, c, -, -, rfl⟩ | ⟨-, hv, rfl⟩
    · rw [he]
      exact hp.congr rfl rfl (fun _ => id) fun _ => .inr
    · exact hp.congr rfl rfl (fun _ => id) fun _ => .inr
    · rw [hl.unlink hv]
      exact hp.congr rfl rfl (fun _ => id) fun _ => .inr
  | @take q hw =>
    by_cases hpq : p = q
    · subst hpq
      exact hp.take hw
    · exact hp.congr (s.updQueue_ne _ hpq) rfl (fun _ => id) fun _ => .inr
  | @dequeue q v l hw hlist =>
    by_cases hpq : p = q
    · subst hpq
      exact hp.dequeue hl hw hlist
    · refine hp.congr ((hl.dequeue_queues hlist p).trans (if_neg hpq)) rfl (fun u hu => ?_)
        fun _ => .inr
      rcases List.mem_cons.1 hu with hu | hu
      · exact absurd (Prod.mk.inj hu).1 hpq
      · exact hu
  | @handle q v l₁ l₂ hc =>
    exact hp.congr rfl rfl (fun u hu => mem_removed hc hu) fun _ => .inr
  | @finish q hw hc =>
    by_cases hpq : p = q
    · subst hpq
      exact hp.finish hw hc
    · exact hp.congr (s.updQueue_ne (fun x => { x with workCurrent := none, worker := .take }) hpq) rfl
        (fun _ => id) fun _ => .inr
  | delNone => exact hp
  | @delFound q hq =>
    refine hp.congr rfl rfl (fun _ => id) fun x hx => ?_
    rcases List.mem_cons.1 hx with hx | hx
    · exact .inl (Prod.mk.inj hx).2
    · exact .inr hx
  | @delBusy q l₁ l₂ hd | @delTaskErr q _ l₁ l₂ hd | @delSemErr q l₁ l₂ hd =>
    exact hp.congr rfl rfl (fun _ => id) fun x hx => .inr (mem_removed hd hx)
  | @delCheck q l₁ l₂ hd hlist hc =>
    have hmem : ∀ x, (p, x) ∈ l₁ ++ (q, .checked) :: l₂ →
        p = q ∧ x = .checked ∨ (p, x) ∈ s.dels := by
      intro x hx
      rw [hd]
      simp only [List.mem_append, List.mem_cons, Prod.mk.injEq] at hx ⊢
      tauto
    by_cases hpq : p = q
    · subst hpq
      refine ⟨hp.units, hp.blocked, hp.busy, hp.calls, hp.semType, fun hx => hp.gone ?_,
        fun _ => ⟨hlist, hc⟩⟩
      refine hx.imp (fun hx => ?_) fun hx => ?_
      · exact (hmem _ hx).resolve_left (by simp)
      · exact (hmem _ hx).resolve_left (by simp)
    · exact hp.congr rfl rfl (fun _ => id) fun x hx =>
        .inr ((hmem x hx).resolve_left fun hc => hpq hc.1)
  | @delTask q l₁ l₂ hd hw =>
    have hmem : (q, .checked) ∈ s.dels := by rw [hd]; simp
    by_cases hpq : p = q
    · subst hpq
      exact hp.del (fun ho => absurd (ho.1 _ hmem rfl) nofun) (f := fun x => { x with worker := .gone })
        (fun _ => ⟨rfl, rfl, rfl⟩) rfl (s.updQueue_self p fun x => { x with worker := .gone }) rfl rfl
        fun v hv => List.mem_of_mem_filter hv
    · exact hp.congr (s.updQueue_ne (fun x => { x with worker := .gone }) hpq) rfl
        (fun v hv => List.mem_of_mem_filter hv) fun x hx => .inr (mem_turned hd hpq hx)
  | @delSem q l₁ l₂ hd ht =>
    have hmem : (q, .noWorker) ∈ s.dels := by rw [hd]; simp
    by_cases hpq : p = q
    · subst hpq
      exact hp.del (fun ho => absurd (ho.1 _ hmem rfl) nofun) (f := fun x => { x with semType := .none })
        (fun _ => ⟨rfl, rfl, rfl⟩) (hp.gone (.inl hmem))
        (s.updQueue_self p fun x => { x with semType := .none }) rfl rfl fun _ => id
    · exact hp.congr (s.updQueue_ne (fun x => { x with semType := .none }) hpq) rfl (fun _ => id)
        fun x hx => .inr (mem_turned hd hpq hx)
  | @delEnd q l₁ l₂ hd =>
    have hmem : (q, .noSem) ∈ s.dels := by rw [hd]; simp
    by_cases hpq : p = q
    · subst hpq
      exact hp.del (fun ho => absurd (ho.1 _ hmem rfl) nofun) (f := fun x => { x with onList := false })
        (fun _ => ⟨rfl, rfl, rfl⟩) (hp.gone (.inr hmem))
        (s.updQueue_self p fun x => { x with onList := false }) rfl rfl fun _ => id
    · exact hp.congr (s.updQueue_ne (fun x => { x with onList := false }) hpq) rfl (fun _ => id)
        fun x hx => .inr (mem_removed hd hx)

/-! ## The runs of a work -/

theorem WorkSys.delayed_congr (hw : s.SameTimers s')
    (hc : (s.works v).dly ≠ 0 → s'.tm.cmds (s.works v).timer = s.tm.cmds (s.works v).timer ∧
      (s'.Armed v ↔ s.Armed v)) : s'.delayed v = s.delayed v := by
  unfold WorkSys.delayed
  rw [(hw v).1, (hw v).2]
  split
  · rfl
  · rename_i hd
    obtain ⟨hcmds, ha⟩ := hc hd
    rw [hcmds]
    simp only [ha]

theorem WorkSys.pending_congr (hw : s'.works = s.works) (htm : s'.tm = s.tm)
    (hcb : s'.cb.past = s.cb.past) (hc : s'.calls = s.calls) : s'.pending v = s.pending v := by
  have hd : s'.delayed v = s.delayed v := by
    refine WorkSys.delayed_congr (fun u => by rw [hw]; exact ⟨rfl, rfl⟩) fun _ => ⟨by rw [htm], ?_⟩
    unfold WorkSys.Armed
    rw [hw, htm, hcb]
  unfold WorkSys.pending
  rw [hd, hw, hc]

theorem WorkTimers.delayed_send (h : WorkTimers s) (num : ℕ) (priv : TimerId → WorkId)
    (cancels : List (WorkId × Option WqId)) {c : KTimerQueueCb w} (hd : (s.works u).dly ≠ 0) (hc : c.timer = (s.works u).timer) (v : WorkId) :
    WorkSys.delayed { s with
      priv := priv, cancels := cancels
      tm := { s.tm with queue := (timerSend num s.tm.queue c).2 } } v =
      s.delayed v +
        if u = v ∧ s.tm.queue.length < num ∧ c.cbNum = .argChgAuto then 1 else 0 := by
  unfold WorkSys.delayed TimerSys.cmds
  by_cases huv : u = v
  · subst huv
    rw [if_neg hd, if_neg hd, timerSend_cmds_self hc, List.count_append]
    have hlast : (if s.tm.queue.length < num then [c.cbNum] else []).count .argChgAuto =
        if u = u ∧ s.tm.queue.length < num ∧ c.cbNum = .argChgAuto then 1 else 0 := by
      by_cases hr : s.tm.queue.length < num
      · simp [hr, List.count_singleton]
      · simp [hr]
    rw [hlast]
    exact Nat.add_right_comm ..
  · rw [if_neg (c := u = v ∧ _) fun hx => huv hx.1]
    by_cases hv : (s.works v).dly = 0
    · rw [if_pos hv, if_pos hv]
    · rw [if_neg hv, if_neg hv,
        timerSend_cmds fun he => huv (h.distinct u v hd hv (hc.symm.trans he))]
      rfl

/-- What the books of the work say of a step: the runs accepted and those added
    are the handlers called, the stops and the runs pending. -/
def Books (v : WorkId) (s : WorkSys w) (a : WorkAct w) (s' : WorkSys w) : Prop :=
  (a.accepts v).toNat + s'.giving v + s.pending v =
    (a.handles v).toNat + (a.stops (s.works v)).toNat + s.giving v + s'.pending v

theorem Books.of_same (hg : s'.gives = s.gives) (hp : s'.pending v = s.pending v)
    (ha : a.accepts v = false) (hh : a.handles v = false) (hs : a.stops (s.works v) = false) :
    Books v s a s' := by
  unfold Books WorkSys.giving
  rw [hg, hp, ha, hh, hs, Bool.toNat_false]

/-- The step of the timers, of a task or of `timer_task`, is seen by the timer of
    the work. -/
theorem books_timer {b : TimerAct w} {tm : TimerSys w} (h : WorkWf s) (hcb : s.cb = .idle)
    (hok : OnceOk s (.timer b (b.onHead s.tm))) (ht : ∀ t, b = .fire t → ¬ s.WorkTimer t)
    (hs : (s.works v).dly ≠ 0 → TimerSeen (s.works v).timer s.tm tm b) :
    Books v s (.timer b (b.onHead s.tm)) { s with tm := tm } := by
  by_cases hd : (s.works v).dly = 0
  · refine .of_same rfl ?_ rfl rfl ?_
    · unfold WorkSys.pending WorkSys.delayed
      rw [if_pos hd, if_pos hd]
    · cases b <;> simp [WorkAct.stops, hd]
  have hpast : s.cb.past ≠ some v := by rw [hcb]; nofun
  have harmed : s.Armed v ↔ (s.works v).timer ∈ s.tm.timerHead := and_iff_left hpast
  have harmed' : WorkSys.Armed { s with tm := tm } v ↔ (s.works v).timer ∈ tm.timerHead :=
    and_iff_left hpast
  unfold Books WorkSys.pending WorkSys.delayed
  rw [if_neg hd, if_neg hd]
  simp only [harmed, harmed']
  cases hs hd with
  | other hcmd hfire _ head cmds =>
    have hstop : WorkAct.stops (s.works v) (.timer b (b.onHead s.tm)) = false := by
      cases b with
      | cmd d c => simp [WorkAct.stops, hcmd d c rfl]
      | _ => rfl
    simp only [hstop, cmds, head]
    rfl
  | @cmd d c hct cmds auto stop =>
    rw [cmds]
    rcases h.timers.cmds v hd c.cbNum (by rw [cmds]; simp) with hc | hc
    · have hoff : (s.works v).timer ∉ s.tm.timerHead := by
        have hon := hok hc ⟨v, hd, hct.symm⟩
        rw [← hct]
        exact of_decide_eq_false hon
      have hstop : WorkAct.stops (s.works v) (.timer (.cmd d c) (TimerAct.onHead s.tm (.cmd d c))) =
          false := by simp [WorkAct.stops, hc]
      rw [hc, List.count_cons_self, hstop, if_neg hoff, if_pos (auto hc).2]
      rfl
    · have hstop : WorkAct.stops (s.works v) (.timer (.cmd d c) (TimerAct.onHead s.tm (.cmd d c))) =
          decide ((s.works v).timer ∈ s.tm.timerHead) := by
        rw [WorkAct.stops_cmd, decide_eq_true hd, decide_eq_true hct, decide_eq_true hc, ← hct]
        simp [TimerAct.onHead]
      rw [hc, List.count_cons_of_ne (by decide), hstop, if_neg (stop hc).2]
      change 0 + s.giving v + _ = 0 + _ + s.giving v + _
      by_cases hm : (s.works v).timer ∈ s.tm.timerHead
      · rw [if_pos hm, decide_eq_true hm, Bool.toNat_true]
        omega
      · rw [if_neg hm, decide_eq_false hm, Bool.toNat_false]
  | fire hmem => exact absurd ⟨v, hd, rfl⟩ (ht _ rfl)

/-- The expiry goes on behind the call-back: the work is not armed for it any more. -/
theorem books_fired {t : TimerId} {tm : TimerSys w} (h : WorkWf s) (hcb : s.cb = .done u)
    (hstep : TimerStep num idle s.tm (.fire t) tm) :
    Books v s (.timer (.fire t) false) { s with tm := tm, cb := .idle } := by
  refine .of_same rfl ?_ rfl rfl rfl
  have hd : WorkSys.delayed { s with tm := tm, cb := .idle } v = s.delayed v := by
    refine WorkSys.delayed_congr (fun _ => ⟨rfl, rfl⟩) fun hd => ?_
    have hseen := hstep.seen h.timers.timers (h.timers.live v hd).1 nofun
    have hut : t = (s.works u).timer := by
      have hp := (h.timers.cb u (by rw [hcb]; rfl)).2
      cases hstep with
      | fire hp' =>
        rw [hp] at hp'
        exact (Option.some.inj (TimerPc.walk.inj hp')).symm
    unfold WorkSys.Armed
    rw [hcb]
    cases hseen with
    | other _ hfire _ head cmds =>
      refine ⟨cmds, ?_⟩
      rw [head]
      refine and_congr_right fun _ => ⟨fun _ hc => ?_, fun _ => nofun⟩
      rw [Option.some.inj hc] at hut
      exact hfire (congrArg _ hut)
    | fire _ _ once cmds =>
      refine ⟨cmds, fun hc => absurd hc.1 (once (h.timers.live v hd).2), fun hc => absurd ?_ hc.2⟩
      exact congrArg some (h.timers.distinct u v (h.timers.cb u (by rw [hcb]; rfl)).1 hd hut.symm)
  unfold WorkSys.pending
  rw [hd]

theorem books_enter (h : WorkWf s) (hcb : s.cb = .enter u q) (hok : OnceOk s (.enter q u)) :
    Books v s (.enter q u) (workTimerCb s q u) := by
  obtain ⟨-, hcur, hu⟩ := hok
  rcases workTimerCb_cases s q u with ⟨hc, -⟩ | ⟨-, -, he⟩
  · rcases hc with hc | hc
    · exact absurd hc hcur
    · rw [hu] at hc
      cases hc
  rw [he]
  have hwork := h.timers.cb u (by rw [hcb]; rfl)
  have hpast : s.cb.past = none := by rw [hcb]; rfl
  have hg : WorkSys.giving { s.insert q u with cb := .give u q } v = s.giving v := rfl
  by_cases huv : v = u
  · subst huv
    have hb : s.Armed v := ⟨h.timers.timers.walk _ hwork.2, by rw [hpast]; nofun⟩
    have hb' : ¬ WorkSys.Armed { s.insert q v with cb := .give v q } v := fun hc => hc.2 rfl
    have hw : (s.insert q v).works v = { s.works v with wq := some q, workExit := true } :=
      (s.insert_works q v v).trans (if_pos rfl)
    unfold Books WorkSys.pending WorkSys.delayed
    rw [hg, hu, if_neg hwork.1, if_pos hb, if_neg hb', hw, if_neg hwork.1]
    rfl
  · have hw : (s.insert q u).works v = s.works v := (s.insert_works q v u).trans (if_neg huv)
    refine .of_same rfl ?_ rfl rfl rfl
    have hd : WorkSys.delayed { s.insert q u with cb := .give u q } v = s.delayed v := by
      refine WorkSys.delayed_congr WorkSys.sameTimers_insert fun _ => ⟨rfl, ?_⟩
      unfold WorkSys.Armed
      rw [hpast]
      rw [hw]
      exact and_congr_right fun _ => ⟨fun _ => nofun, fun _ hc => huv (Option.some.inj hc).symm⟩
    unfold WorkSys.pending
    rw [hd]
    rw [hw]
    rfl

theorem books_run {cb : KTimerQueueCb w} {r : Option KStat × WorkSys w} (h : WorkWf s)
    (hr : krhinoWorkRun num s cb q u = r) :
    Books v s (.run q u r.1) r.2 := by
  rcases krhinoWorkRun_cases hr with rfl | rfl | ⟨-, hu, rfl⟩ | ⟨hd, c, hc, hn, -, rfl⟩
  · exact .of_same rfl rfl rfl rfl rfl
  · exact .of_same rfl rfl rfl rfl rfl
  · have hd : WorkSys.delayed { s.insert q u with gives := (q, u) :: s.gives } v = s.delayed v := by
      refine WorkSys.delayed_congr WorkSys.sameTimers_insert fun _ => ⟨rfl, ?_⟩
      unfold WorkSys.Armed
      rw [((s.sameTimers_insert (q := q) (v := u)) v).2]
      rfl
    unfold Books WorkSys.pending WorkSys.giving
    rw [hd]
    dsimp only
    rw [s.insert_works, List.countP_cons]
    by_cases huv : v = u
    · subst huv
      rw [if_pos rfl, if_pos (decide_eq_true rfl), hu, s.insert_calls]
      change 0 + (_ + 1) + (_ + 0 + _) = 0 + 0 + _ + (_ + 1 + _)
      omega
    · rw [if_neg huv, if_neg (by simpa using Ne.symm huv)]
      rfl
  · have hst : (timerSend num s.tm.queue c).1 = .success ↔ s.tm.queue.length < num := by
      unfold timerSend
      split_ifs with hroom <;> simp [hroom]
    have hp := h.timers.delayed_send num (Function.update s.priv (s.works u).timer u) s.cancels hd hc v
    have hacc : (WorkAct.run q u (some (timerSend num s.tm.queue c).1) : WorkAct w).accepts v =
        decide (u = v ∧ s.tm.queue.length < num ∧ c.cbNum = .argChgAuto) := by
      by_cases hroom : s.tm.queue.length < num
      · rw [hst.2 hroom]
        simp [WorkAct.accepts, hroom, hn]
      · have hne : (timerSend num s.tm.queue c).1 ≠ .success := fun hc => hroom (hst.1 hc)
        rw [decide_eq_false fun hx => hroom hx.2.1]
        unfold WorkAct.accepts
        split <;> simp_all
    unfold Books WorkSys.pending
    rw [hp]
    dsimp only
    rw [hacc]
    change _ + s.giving v + _ = 0 + 0 + s.giving v + _
    by_cases hx : u = v ∧ s.tm.queue.length < num ∧ c.cbNum = .argChgAuto
    · rw [decide_eq_true hx, if_pos hx, Bool.toNat_true]
      omega
    · rw [decide_eq_false hx, if_neg hx, Bool.toNat_false]
      omega

theorem books_cancel {cb : KTimerQueueCb w} {wq : Option WqId} {l₁ l₂ : List (WorkId × Option WqId)}
    {r : KStat × WorkSys w} (h : WorkWf s) (hr : krhinoWorkCancel num s cb u wq = r) :
    Books v s (.cancel u wq r.1) { r.2 with cancels := l₁ ++ l₂ } := by
  rcases krhinoWorkCancel_cases hr with ⟨he, -⟩ | ⟨-, hd, c, hct, hn, rfl⟩ | ⟨-, hu, rfl⟩
  · rw [he]
    exact .of_same rfl (WorkSys.pending_congr rfl rfl rfl rfl) rfl rfl rfl
  · refine .of_same rfl ?_ rfl rfl rfl
    have hp := h.timers.delayed_send num s.priv (l₁ ++ l₂) hd hct v
    rw [hn, if_neg nofun] at hp
    unfold WorkSys.pending
    rw [hp, Nat.add_zero]
  · rw [h.lists.unlink hu]
    refine .of_same rfl ?_ rfl rfl rfl
    have hw : ∀ u', s.SameTimers (s.updWork u' fun x => { x with wq := none }) := fun u' =>
      WorkSys.sameTimers_updWork fun _ => ⟨rfl, rfl⟩
    have hexit : ((s.updWork u fun x => { x with wq := none }).works v).workExit =
        (s.works v).workExit := by
      by_cases huv : v = u
      · subst huv
        rw [s.updWork_self]
      · rw [s.updWork_ne _ huv]
    have hd : WorkSys.delayed (s.updWork u fun x => { x with wq := none }) v = s.delayed v := by
      refine WorkSys.delayed_congr (hw u) fun _ => ⟨rfl, ?_⟩
      unfold WorkSys.Armed
      rw [(hw u v).2]
      rfl
    unfold WorkSys.pending
    rw [hexit]
    exact congrArg (· + _ + _) hd

theorem books_dequeue {l : List WorkId} (h : WorkWf s) (hlist : (s.queues q).workList = u :: l) :
    Books v s (.dequeue q u) { s.dequeue q u with calls := (q, u) :: s.calls } := by
  have hu := ((h.lists.mem q u).1 (by rw [hlist]; simp)).1
  have hd : WorkSys.delayed { s.dequeue q u with calls := (q, u) :: s.calls } v = s.delayed v := by
    refine WorkSys.delayed_congr WorkSys.sameTimers_dequeue fun _ => ⟨rfl, ?_⟩
    unfold WorkSys.Armed
    rw [((s.sameTimers_dequeue (q := q) (v := u)) v).2]
    rfl
  have hg : WorkSys.giving { s.dequeue q u with calls := (q, u) :: s.calls } v = s.giving v := rfl
  unfold Books WorkSys.pending
  rw [hd, hg]
  rw [s.dequeue_works, List.countP_cons]
  by_cases huv : v = u
  · subst huv
    rw [if_pos rfl, if_pos (decide_eq_true rfl), hu]
    change 0 + _ + (_ + 1 + _) = 0 + 0 + _ + (_ + 0 + (_ + 1))
    omega
  · rw [if_neg huv, if_neg (by simpa using Ne.symm huv)]
    rfl

theorem OnceInv.books (h : OnceInv s) (hs : restrict OnceOk (WorkStep num idle) s a s')
    (v : WorkId) : Books v s a s' := by
  obtain ⟨hok, hs⟩ := hs
  have ht := h.wf.timers
  cases hs with
  | @client b t tm hb hnt hstep =>
    refine .of_same rfl ?_ rfl rfl rfl
    have hd : WorkSys.delayed { s with tm := tm } v = s.delayed v := by
      refine WorkSys.delayed_congr (fun _ => ⟨rfl, rfl⟩) fun hd => ?_
      have hseen := hstep.seen ht.timers (ht.live v hd).1 fun hc => hnt ⟨v, hd, by
        rw [hb] at hc
        exact (Option.some.inj hc).symm⟩
      cases hseen with
      | other _ _ _ head cmds => exact ⟨cmds, and_congr_left fun _ => head⟩
      | cmd => cases hb
      | fire => cases hb
    unfold WorkSys.pending
    rw [hd]
  | @timer b tm hcb hb hnt hstep =>
    exact books_timer h.wf hcb hok hnt fun hd =>
      hstep.seen ht.timers (ht.live v hd).1 (by rw [hb]; nofun)
  | expire hcb =>
    exact .of_same rfl (WorkSys.pending_congr rfl rfl (by rw [hcb]; rfl) rfl) rfl rfl rfl
  | fired hcb hstep => exact books_fired h.wf hcb hstep
  | enter hcb => exact books_enter h.wf hcb hok
  | cbGive hcb =>
    exact .of_same rfl (WorkSys.pending_congr rfl rfl (by rw [hcb]; rfl) rfl) rfl rfl rfl
  | run hr => exact books_run h.wf hr
  | @give q u l₁ l₂ hg =>
    have hgive := ((h.queue q).give { s.updQueue q fun x => x.semGive.2 with
      gives := l₁ ++ l₂ } hok (s.updQueue_self q fun x => x.semGive.2) (by
        rw [hg, countP_middle, decide_eq_true rfl]
        exact Nat.add_right_comm ..) rfl rfl).1
    have hp : WorkSys.pending { s.updQueue q fun x => x.semGive.2 with gives := l₁ ++ l₂ } v =
      s.pending v := WorkSys.pending_congr rfl rfl rfl rfl
    unfold Books WorkSys.giving
    rw [hp, hgive, hg, countP_middle]
    change (decide (u = v)).toNat + _ + _ = 0 + 0 + (_ + (decide (u = v)).toNat) + _
    dsimp only
    omega
  | read => exact .of_same rfl (WorkSys.pending_congr rfl rfl rfl rfl) rfl rfl rfl
  | cancel _ hr => exact books_cancel h.wf hr
  | take => exact .of_same rfl (WorkSys.pending_congr rfl rfl rfl rfl) rfl rfl rfl
  | dequeue _ hlist => exact books_dequeue h.wf hlist
  | @handle q u l₁ l₂ hc =>
    have hd : WorkSys.delayed { s with calls := l₁ ++ l₂ } v = s.delayed v :=
      WorkSys.delayed_congr (fun _ => ⟨rfl, rfl⟩) fun _ => ⟨rfl, .rfl⟩
    unfold Books WorkSys.pending
    rw [hd, hc, countP_middle]
    change 0 + s.giving v + (_ + _ + (_ + (decide (u = v)).toNat)) =
      (decide (u = v)).toNat + 0 + s.giving v + (_ + _ + _)
    dsimp only
    omega
  | finish => exact .of_same rfl (WorkSys.pending_congr rfl rfl rfl rfl) rfl rfl rfl
  | delNone => exact .of_same rfl rfl rfl rfl rfl
  | delFound | delBusy | delCheck | delTaskErr | delSem | delSemErr | delEnd =>
    exact .of_same rfl (WorkSys.pending_congr rfl rfl rfl rfl) rfl rfl rfl
  | @delTask q l₁ l₂ hd =>
    have hmem : (q, .checked) ∈ s.dels := by rw [hd]; simp
    have hno := ((h.queue q).resting fun ho => absurd (ho.1 _ hmem rfl) nofun).2.2
    refine .of_same rfl (WorkSys.pending_congr rfl rfl rfl ?_) rfl rfl rfl
    refine List.filter_eq_self.2 fun x hx => decide_eq_true ?_
    rintro rfl
    exact hno x.2 hx

/-! ## Runs -/

theorem WorkSys.updQueue_gone (s : WorkSys w) (p : WqId) (f : WorkQueue → WorkQueue)
    (hq : (s.queues q).worker = .gone) (hf : p = q → (f (s.queues q)).worker = .gone) :
    ((s.updQueue p f).queues q).worker = .gone := by
  by_cases hpq : q = p
  · subst hpq
    rw [s.updQueue_self]
    exact hf rfl
  · rw [s.updQueue_ne _ hpq]
    exact hq

theorem WorkStep.gone (hs : WorkStep num idle s a s') (hq : (s.queues q).worker = .gone) :
    (s'.queues q).worker = .gone := by
  have hgive : (s.queues q).semGive.2.worker = .gone := by
    unfold WorkQueue.semGive
    rw [if_neg (c := (s.queues q).worker = .blocked) (by rw [hq]; nofun)]
    split_ifs <;> exact hq
  have hne : ∀ {p x}, (s.queues p).worker = x → x ≠ .gone → p ≠ q := by
    rintro p x hw hx rfl
    exact hx (hw.symm.trans hq)
  have hinsert : ∀ p v, ((s.insert p v).queues q).worker = .gone := fun p v =>
    (s.unlink v).updQueue_gone p (fun x => { x with workList := x.workList ++ [v] }) hq fun _ => hq
  cases hs with
  | @enter p v hcb =>
    rcases workTimerCb_cases s p v with ⟨-, he⟩ | ⟨-, -, he⟩
    · rw [he]
      exact hq
    · rw [he]
      exact hinsert p v
  | @run cb p v r hr =>
    rcases krhinoWorkRun_cases hr with rfl | rfl | ⟨-, -, rfl⟩ | ⟨-, c, -, -, -, rfl⟩
    · exact hq
    · exact hq
    · exact hinsert p v
    · exact hq
  | @cancel cb v wq l₁ l₂ r hc hr =>
    rcases krhinoWorkCancel_cases hr with ⟨he, -⟩ | ⟨-, -, c, -, -, rfl⟩ | ⟨-, -, rfl⟩
    · rw [he]
      exact hq
    · exact hq
    · exact hq
  | @cbGive p => exact s.updQueue_gone p (fun x => x.semGive.2) hq fun _ => hgive
  | @give p => exact s.updQueue_gone p (fun x => x.semGive.2) hq fun _ => hgive
  | @take p hw => exact s.updQueue_gone p WorkQueue.semTake hq fun hc => absurd hc (hne hw nofun)
  | @dequeue p v l hw =>
    exact (s.unlink v).updQueue_gone p (fun x => { x with workCurrent := some v, worker := .busy }) hq
      fun hc => absurd hc (hne hw nofun)
  | @finish p hw =>
    exact s.updQueue_gone p (fun x => { x with workCurrent := none, worker := .take }) hq
      fun hc => absurd hc (hne hw nofun)
  | @delTask p => exact s.updQueue_gone p (fun x => { x with worker := .gone }) hq fun _ => rfl
  | @delSem p => exact s.updQueue_gone p (fun x => { x with semType := .none }) hq fun _ => hq
  | @delEnd p => exact s.updQueue_gone p (fun x => { x with onList := false }) hq fun _ => hq
  | _ => exact hq

theorem WorkStep.sameTimers (hs : WorkStep num idle s a s') : s.SameTimers s' := by
  cases hs with
  | @enter q v hcb =>
    rcases workTimerCb_cases s q v with ⟨-, he⟩ | ⟨-, -, he⟩
    · rw [he]
      exact fun _ => ⟨rfl, rfl⟩
    · rw [he]
      exact WorkSys.sameTimers_insert
  | @run cb q v r hr =>
    rcases krhinoWorkRun_cases hr with rfl | rfl | ⟨-, -, rfl⟩ | ⟨-, c, -, -, -, rfl⟩
    · exact fun _ => ⟨rfl, rfl⟩
    · exact fun _ => ⟨rfl, rfl⟩
    · exact WorkSys.sameTimers_insert
    · exact fun _ => ⟨rfl, rfl⟩
  | @cancel cb v wq l₁ l₂ r hc hr =>
    rcases krhinoWorkCancel_cases hr with ⟨he, -⟩ | ⟨-, -, c, -, -, rfl⟩ | ⟨-, -, rfl⟩
    · rw [he]
      exact fun _ => ⟨rfl, rfl⟩
    · exact fun _ => ⟨rfl, rfl⟩
    · exact WorkSys.sameTimers_updWork (s := s.unlink v) (f := fun x => { x with wq := none })
        fun _ => ⟨rfl, rfl⟩
  | dequeue => exact WorkSys.sameTimers_dequeue
  | _ => exact fun _ => ⟨rfl, rfl⟩

/-- The books after the steps `as` from `s₀`. -/
structure OnceRun (s₀ : WorkSys w) (as : List (WorkAct w)) (s : WorkSys w) : Prop where
  inv : OnceInv s
  timers : s₀.SameTimers s
  books : ∀ v, as.countP (WorkAct.accepts v) + s.giving v =
    as.countP (WorkAct.handles v) + as.countP (WorkAct.stops (s₀.works v)) + s.pending v
  deleted : ∀ q, .del q (some .success) ∈ as → (s.queues q).worker = .gone

theorem WorkAct.stops_congr {x y : Work w} (hd : y.dly = x.dly) (ht : y.timer = x.timer)
    (a : WorkAct w) : a.stops y = a.stops x := by
  unfold WorkAct.stops
  rw [hd, ht]

theorem WorkSys.New.onceRun (h : s.New) : OnceRun s [] s := by
  refine ⟨h.once, fun _ => ⟨rfl, rfl⟩, fun v => ?_, fun _ => nofun⟩
  have hg : s.giving v = 0 := by
    unfold WorkSys.giving
    rw [h.gives]
    rfl
  have hd : s.delayed v = 0 := by
    unfold WorkSys.delayed
    split
    · rfl
    · rename_i hd
      rw [h.cmds v hd, if_neg fun ha => h.timers.wf.idle_not_mem (h.live v hd).1 ha.1]
      rfl
  unfold WorkSys.pending
  rw [hg, hd, (h.works v).2, h.calls]
  rfl

theorem OnceRun.step {s₀ : WorkSys w} {as : List (WorkAct w)} (h : OnceRun s₀ as s)
    (hs : restrict OnceOk (WorkStep num idle) s a s') : OnceRun s₀ (as ++ [a]) s' := by
  refine ⟨h.inv.step hs, fun v => ?_, fun v => ?_, fun q hq => ?_⟩
  · have h1 := h.timers v
    have h2 := hs.2.sameTimers v
    exact ⟨h2.1.trans h1.1, h2.2.trans h1.2⟩
  · have hb := h.inv.books hs v
    have hr := h.books v
    have hcount : ∀ f : WorkAct w → Bool, (as ++ [a]).countP f = as.countP f + (f a).toNat := by
      intro f
      have hm := countP_middle f as [] a
      rwa [List.append_nil] at hm
    unfold Books at hb
    rw [WorkAct.stops_congr (h.timers v).1 (h.timers v).2] at hb
    rw [hcount, hcount, hcount]
    omega
  · rw [List.mem_append, List.mem_singleton] at hq
    rcases hq with hq | rfl
    · exact hs.2.gone (h.deleted q hq)
    · have hstep := hs.2
      cases hstep with
      | @delTaskErr _ _ _ _ _ hc => exact absurd rfl hc
      | @delEnd _ l₁ l₂ hd =>
        refine hs.2.gone (h.inv.queue q |>.gone (.inr ?_))
        rw [hd]
        simp

/-- **Accepted works run exactly once.**  In every run of calls, timers, workers
    and deletions whose steps are `OnceOk`, in every state: the works on the list
    of a queue are the units of its semaphore, those handed to its worker, and
    the gives on their way; the runs of a work that were accepted, with those
    about to be, are the calls of its handler, the stops of its timer by a
    cancel, and the runs pending; a queue that was deleted has no work on its
    list, and none with its worker; and a worker is blocked only while every work
    on the list has its give on the way. -/
theorem works_run_once {s₀ : WorkSys w} (h₀ : s₀.New) {as : List (WorkAct w)}
    (h : Run (restrict OnceOk (WorkStep num idle)) s₀ as s) :
    (∀ q, (s.queues q).workList.length = (s.queues q).count +
      (if (s.queues q).worker = .got then 1 else 0) +
      (s.gives.countP (·.1 = q) + (s.cb.givesTo q).toNat)) ∧
    (∀ v, as.countP (WorkAct.accepts v) + s.giving v =
      as.countP (WorkAct.handles v) + as.countP (WorkAct.stops (s₀.works v)) + s.pending v) ∧
    (∀ q, .del q (some .success) ∈ as → (s.queues q).workList = [] ∧
      (s.queues q).workCurrent = none ∧ ∀ v, (q, v) ∉ s.calls) ∧
    ∀ q, (s.queues q).worker = .blocked →
      (s.queues q).workList.length = s.gives.countP (·.1 = q) + (s.cb.givesTo q).toNat := by
  have hr : OnceRun s₀ ([] ++ as) s := h.keeps_hist (fun hi hs => hi.step hs) h₀.onceRun
  rw [List.nil_append] at hr
  refine ⟨fun q => (hr.inv.queue q).units, hr.books, fun q hq => ?_, fun q hb => ?_⟩
  · have hnot : ¬ s.Open q := fun ho => ho.2 (hr.deleted q hq)
    have hst := (hr.inv.queue q).still hnot
    exact ⟨hst.1, hst.2, ((hr.inv.queue q).resting hnot).2.2⟩
  · have hu := (hr.inv.queue q).units
    unfold WorkSys.units at hu
    rw [(hr.inv.queue q).blocked hb, if_neg (by rw [hb]; nofun)] at hu
    omega

/-- A work is run, its handler called, and its queue deleted. -/
theorem works_run_once_one : ∃ as, ∃ s : WorkSys 32, as.countP (WorkAct.accepts 1) = 1 ∧
    as.countP (WorkAct.handles 1) = 1 ∧ .del 0 (some .success) ∈ as ∧
      Run (WorkStep 20 100) delayedWork as s := by
  have hok : ∀ {s s' : WorkSys 32} {a}, WorkStep 20 100 s a s' → OnceOk s a →
      restrict OnceOk (WorkStep 20 100) s a s' := fun h1 h2 => ⟨h2, h1⟩
  have hrun : ∃ as, ∃ s : WorkSys 32, Run (restrict OnceOk (WorkStep 20 100)) delayedWork as s ∧
      as.countP (WorkAct.accepts 1) = 1 ∧
      as.countP (WorkAct.stops (delayedWork.works 1)) = 0 ∧ s.giving 1 = 0 ∧ s.pending 1 = 0 ∧
      .del 0 (some .success) ∈ as := by
    refine ⟨_, _,
      .cons (hok (@WorkStep.run 32 20 100 _ workCmd 0 1 _ rfl) ⟨nofun, nofun⟩)
      (.cons (hok (@WorkStep.give 32 20 100 _ 0 1 [] [] rfl) (show 0 < semCountMax by decide))
      (.cons (hok (.take (q := 0) rfl rfl) trivial)
      (.cons (hok (.dequeue (q := 0) rfl rfl) trivial)
      (.cons (hok (@WorkStep.handle 32 20 100 _ 0 1 [] [] rfl) trivial)
      (.cons (hok (.finish (q := 0) rfl nofun) trivial)
      (.cons (hok (.delFound (q := 0) rfl) trivial)
      (.cons (hok (@WorkStep.delCheck 32 20 100 _ 0 [] [] rfl rfl rfl) trivial)
      (.cons (hok (@WorkStep.delTask 32 20 100 _ 0 [] [] rfl nofun) trivial)
      (.cons (hok (@WorkStep.delSem 32 20 100 _ 0 [] [] rfl rfl) trivial)
      (.single (hok (@WorkStep.delEnd 32 20 100 _ 0 [] [] rfl) trivial))))))))))), ?_⟩
    exact ⟨rfl, rfl, rfl, rfl, by simp⟩
  obtain ⟨as, s, h, ha, hst, hg, hp, hd⟩ := hrun
  have hb := (works_run_once delayedWork_new h).2.1 1
  exact ⟨as, s, ha, by omega, hd, h.mono fun h => h.2⟩

/-- A work is added, and its unit handed to the worker, between the test of a
    deletion and the end of the worker: the run and the deletion return
    `RHINO_SUCCESS`, and the work stays on the list. -/
theorem deletion_strands_work : ∃ as, ∃ s : WorkSys 32,
    Run (WorkStep 20 100) delayedWork as s ∧ .del 0 (some .success) ∈ as ∧
    as.countP (WorkAct.accepts 1) = 1 ∧ as.countP (WorkAct.handles 1) = 0 ∧
    as.countP (WorkAct.stops (delayedWork.works 1)) = 0 ∧
    (s.queues 0).workList = [1] ∧ s.units 0 = 0 := by
  refine ⟨_, _,
    .cons (.take (q := 0) rfl rfl)
    (.cons (.delFound (q := 0) rfl)
    (.cons (@WorkStep.delCheck 32 20 100 _ 0 [] [] rfl rfl rfl)
    (.cons (@WorkStep.run 32 20 100 _ workCmd 0 1 _ rfl)
    (.cons (@WorkStep.give 32 20 100 _ 0 1 [] [] rfl)
    (.cons (@WorkStep.delTask 32 20 100 _ 0 [] [] rfl nofun)
    (.cons (@WorkStep.delSem 32 20 100 _ 0 [] [] rfl rfl)
    (.single (@WorkStep.delEnd 32 20 100 _ 0 [] [] rfl)))))))), by simp, rfl, rfl, rfl, rfl, rfl⟩

end Rhino
