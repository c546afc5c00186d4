/-
  Sleeps and timed waits end at the right tick.

  A task that is entered for `n` ticks leaves the tick list at the `n`-th tick,
  or before it by a wake-up, an abort or a deletion.  The test for a due task
  takes the sign of the ticks left, so a tick takes off too much where a task
  with `2 ^ (w - 1)` ticks left or more comes to the front (`TickOk`).
-/
import AliOS.Rhino.System
import AliOS.Rhino.TickRel

namespace Rhino

open Lib

variable {w : ℕ} {s s' : Sched w} {k k' : Kernel w} {a : KAct w} {t u : TaskId} {n : BitVec w}

/-! ## The tick -/

/-- The first task that has more than one tick left has, at the tick, fewer
    than `2 ^ (w - 1)` ticks left. -/
def Kernel.TickOk (k : Kernel w) : Prop :=
  ∀ t ∈ (k.tickHead.dropWhile fun t => k.left t = 1).head?, 2 * (k.left t - 1) < 2 ^ w

namespace Kernel

/-- The test of the next tick. -/
def dueNext (k : Kernel w) (t : TaskId) : Bool := Lib.due (k.tasks t).tickMatch (k.tickCount + 1)

/-- What a tick does to the tasks on the list: those of `takeWhile` leave. -/
structure Ticked (k k' : Kernel w) : Prop where
  count : k'.tickCount = k.tickCount + 1
  stays : ∀ u, (k'.tasks u).tickHead = true →
    (k.tasks u).tickHead = true ∧ (k'.tasks u).tickMatch = (k.tasks u).tickMatch
  leaves : ∀ u, (k.tasks u).tickHead = true → ((k'.tasks u).tickHead = false ↔
    u ∈ k.tickHead.takeWhile k.dueNext)
  wf : TickWf k'
  order : TickOrder k'

theorem left_tick (hs : TickSorted k) (hu : u ∈ k.tickHead) :
    ({ k with tickCount := k.tickCount + 1 } : Kernel w).left u = k.left u - 1 :=
  left_succ (hs.pos u hu)

theorem ticked_tickListUpdate {fuel : ℕ} (hk : TickInv k)
    (h : k.tickListUpdate fuel = some k') : Ticked k k' := by
  unfold tickListUpdate at h
  set k₁ : Kernel w := { k with tickCount := k.tickCount + 1 } with hk1
  have hwf1 : TickWf k₁ := ⟨hk.wf.nodup, hk.wf.mem, hk.wf.timed⟩
  have hord1 : TickOrder k₁ := by
    refine hk.sorted.sorted.imp_of_mem fun {a b} ha hb hab => ?_
    rw [hk1, left_tick hk.sorted ha, left_tick hk.sorted hb]
    omega
  have hm := moves_tickLoop h
  obtain ⟨hr, hoff⟩ := tickRel_tickLoop hwf1 hk.wf.nodup (fun u hu => (hk.wf.mem u).1 hu) h
  have hboth := hm.keeps (I := fun k => TickWf k ∧ TickOrder k)
    (fun hi hm => ⟨hi.1.move hm, hi.2.move hi.1 hm⟩) ⟨hwf1, hord1⟩
  refine ⟨hr.count, hr.stays, fun u hu => ⟨fun hf => ?_, hoff u⟩, hboth.1, hboth.2⟩
  refine (hr.leaves u hu).resolve_left fun hc => ?_
  rw [hf] at hc
  cases hc

theorem dueNext_iff (hs : TickSorted k) (hu : u ∈ k.tickHead) :
    k.dueNext u = true ↔ k.left u = 1 ∨ 2 ^ w ≤ 2 * (k.left u - 1) := by
  have hleft : Lib.left (k.tasks u).tickMatch (k.tickCount + 1) = k.left u - 1 := left_tick hs hu
  have hpos := hs.pos u hu
  unfold dueNext
  rw [due_iff, hleft]
  omega

theorem Ticked.leaves_iff (h : Ticked k k') (hk : TickInv k) (hok : k.TickOk)
    (hu : (k.tasks u).tickHead = true) : (k'.tasks u).tickHead = false ↔ k.left u = 1 := by
  have htake : k.tickHead.takeWhile k.dueNext = k.tickHead.takeWhile fun u => k.left u = 1 := by
    refine takeWhile_eq_of_head (fun v hv hp => ?_) fun v hv => ?_
    · exact (dueNext_iff hk.sorted hv).2 (.inl (of_decide_eq_true hp))
    · obtain ⟨hmem, hone⟩ := of_mem_head_dropWhile hv
      have hone := of_decide_eq_false hone
      have := hok v hv
      rw [← Bool.not_eq_true, dueNext_iff hk.sorted hmem]
      omega
  rw [h.leaves u hu, htake, mem_takeWhile_one hk.sorted.sorted hk.sorted.pos, hk.wf.mem]
  exact ⟨fun hx => hx.2, fun hx => ⟨hu, hx⟩⟩

theorem Ticked.early (h : Ticked k k') (hk : TickInv k) (hok : ¬ k.TickOk) :
    ∃ u, (k.tasks u).tickHead = true ∧ k.left u ≠ 1 ∧ (k'.tasks u).tickHead = false := by
  unfold TickOk at hok
  push Not at hok
  obtain ⟨u, hu, hfar⟩ := hok
  obtain ⟨hmem, hone⟩ := of_mem_head_dropWhile hu
  have hf := (hk.wf.mem u).1 hmem
  refine ⟨u, hf, of_decide_eq_false hone, (h.leaves u hf).2 ?_⟩
  refine head_mem_takeWhile (fun v hv hp => ?_) hu ((dueNext_iff hk.sorted hmem).2 (.inr hfar))
  exact (dueNext_iff hk.sorted hv).2 (.inl (of_decide_eq_true hp))

theorem Ticked.left (h : Ticked k k') (hs : TickSorted k) (hu : u ∈ k.tickHead)
    (hf : (k'.tasks u).tickHead = true) : k'.left u = k.left u - 1 := by
  unfold Kernel.left
  rw [(h.stays u hf).2, h.count]
  exact left_tick hs hu

/-- A task that has one tick left leaves at the tick, whatever the others have. -/
theorem Ticked.leaves_one (h : Ticked k k') (hk : TickInv k)
    (hu : (k.tasks u).tickHead = true) (hone : k.left u = 1) : (k'.tasks u).tickHead = false := by
  have hmem := (hk.wf.mem u).2 hu
  refine (h.leaves u hu).2 (mem_takeWhile_of_imp (fun v hv hp => ?_)
    ((mem_takeWhile_one hk.sorted.sorted hk.sorted.pos).2 ⟨hmem, hone⟩))
  exact (dueNext_iff hk.sorted hv).2 (.inl (of_decide_eq_true hp))

theorem Ticked.inv (h : Ticked k k') (hk : TickInv k) : TickInv k' := by
  refine ⟨h.wf, h.order, fun u hu => ?_⟩
  have hf := (h.wf.mem u).1 hu
  have hf0 := (h.stays u hf).1
  have hmem := (hk.wf.mem u).2 hf0
  have hone : k.left u ≠ 1 := fun he => by
    rw [h.leaves_one hk hf0 he] at hf
    cases hf
  rw [h.left hk.sorted hmem hf]
  have := hk.sorted.pos u hmem
  omega

end Kernel

/-! ## The other steps -/

/-- The step ends the wait of the task: it wakes it, aborts it, or deletes it,
    the object it waits on, or a task that holds what it waits for. -/
def KAct.ends (k : Kernel w) (t : TaskId) : KAct w → Prop
  | .wake u | .remove u | .waitAbort u => t = u
  | .unlock _ m _ | .mutexDel m _ => (k.tasks t).on m
  | .del u => t = u ∨ (k.tasks t).waits
  | _ => False

/-- What a step that is no tick does to the tick list. -/
structure TickStep (a : KAct w) (k k' : Kernel w) : Prop where
  inv : TickInv k'
  count : k'.tickCount = k.tickCount
  keeps : ∀ u, (k.tasks u).tickHead = true →
    (k'.tasks u).tickHead = true ∧ (k'.tasks u).tickMatch = (k.tasks u).tickMatch ∨
      (k'.tasks u).tickHead = false ∧ a.ends k u

theorem TickStep.of_rel (hi : TickInv k') (h : TickRel (fun u => a.ends k u) k k') :
    TickStep a k k' := by
  refine ⟨hi, h.count, fun u hu => ?_⟩
  cases hf : (k'.tasks u).tickHead with
  | true => exact .inl ⟨rfl, (h.stays u hf).2⟩
  | false =>
    refine .inr ⟨rfl, (h.leaves u hu).resolve_left fun hc => ?_⟩
    rw [hf] at hc
    cases hc

theorem TickStep.of_same (hk : TickInv k) (h : SameTicks k k') : TickStep a k k' :=
  .of_rel (h.inv hk) (.of_same h)

theorem TickStep.park (hk : TickInv k) (h : Move t k k') (hr : (k.tasks t).taskState = .rdy) :
    TickStep a k k' := by
  refine ⟨hk.move h, h.frame.tickCount, fun u hu => .inl ?_⟩
  have hut : u ≠ t := by
    rintro rfl
    rw [hk.wf.not_flag (by rw [hr]; decide)] at hu
    cases hu
  rw [h.frame.others u hut]
  exact ⟨hu, rfl⟩

theorem sameTicks_updObj (k : Kernel w) (o : ObjId) (f : BlkObj → BlkObj) :
    SameTicks k (k.updObj o f) := .of_tasks rfl rfl rfl

theorem sameTicks_of_ready (h : Kernel.SameButReady k k') : SameTicks k k' :=
  .of_tasks h.tickHead h.tickCount h.tasks

theorem tickRel_pendRmAll {P : TaskId → Prop} {o : ObjId} {fuel : ℕ} (hk : PendWf k)
    (hP : ∀ u, (k.tasks u).on o → P u) (h : k.pendRmAll fuel o = some k') : TickRel P k k' := by
  induction fuel generalizing k with
  | zero => simp [Kernel.pendRmAll] at h
  | succ fuel ih =>
    unfold Kernel.pendRmAll at h
    split at h
    · cases h
      exact .refl _
    · rename_i v vs hl
      have hon : (k.tasks v).on o := (hk.mem o v).1 (by simp [hl])
      have hm := Kernel.move_pendTaskRm (k := k) hon.1
      have hidle : ((k.pendTaskRm v).tasks v).idle := by
        rw [Kernel.pendTaskRm_eq, Kernel.updTask_tasks_self]
        exact (Kernel.woken_pendTaskWakeup hk hon.1).idle
      refine TickRel.trans (Kernel.tickRel_pendTaskWakeup (hP v hon)).2
        (ih (Kernel.pendWf_pendTaskRm hk hon.1) (fun u hu => ?_) h)
      by_cases huv : u = v
      · exact absurd (huv ▸ hu) (hidle.not_on o)
      · exact hP u (hm.frame.others u huv ▸ hu)

theorem TickStep.create (hk : TickInv s.k) {prio ticks : ℕ} {autorun : Bool} {flag : AllocFlag}
    (hnew : (s.k.tasks t).taskState = .seed ∨ (s.k.tasks t).taskState = .deleted) :
    TickStep (.create t prio autorun) s.k (taskCreate s t prio ticks autorun flag).2.k := by
  rcases taskCreate_k s t prio ticks autorun flag with he | ⟨-, -, he⟩
  · rw [he]
    exact .of_same hk (.refl _)
  · have hf : (s.k.tasks t).tickHead = false := by
      refine hk.wf.not_flag ?_
      rcases hnew with hn | hn <;> rw [hn] <;> decide
    set k₁ := s.k.updTask t fun _ => newTask w prio autorun flag with hk1
    have hne : ∀ u ≠ t, k₁.tasks u = s.k.tasks u := fun u hu =>
      Kernel.updTask_tasks_ne _ _ _ _ hu
    have hf1 : (k₁.tasks t).tickHead = false := by
      rw [hk1, Kernel.updTask_tasks_self]
      rfl
    have hi := hk.other hne rfl rfl hf hf1
    have hrel : TickRel (fun u => (KAct.create t prio autorun : KAct w).ends s.k u) s.k k₁ := by
      refine ⟨rfl, fun u hu => ?_, fun u hu => .inl ?_⟩
      · have hut : u ≠ t := by
          rintro rfl
          rw [hf1] at hu
          cases hu
        rw [hne u hut] at hu ⊢
        exact ⟨hu, rfl⟩
      · have hut : u ≠ t := by
          rintro rfl
          rw [hf] at hu
          cases hu
        rw [hne u hut]
        exact hu
    rw [he]
    split
    · have hr := Kernel.same_readyListAddTail k₁ t
      exact .of_rel ((sameTicks_of_ready hr).inv hi) (hrel.trans (.of_ready hr))
    · exact .of_rel hi hrel

theorem TickStep.mutexDel (hp : PendWf s.k) (hk : TickInv s.k) {m : ObjId} {flag : AllocFlag} {fuel : ℕ}
    {r : KStat × Kernel w} (h : s.k.mutexDel flag fuel m = some r) : TickStep (.mutexDel m r.1) s.k r.2 := by
  rcases (Kernel.ops_mutexDel hp h).2 with ⟨-, he⟩ | ⟨-, -, hops⟩
  · rw [he]
    exact .of_same hk (.refl _)
  · have hi := ((sameTicks_updObj s.k m _).inv hk).ops hops
    refine .of_rel hi ?_
    unfold Kernel.mutexDel at h
    split_ifs at h
    all_goals try
      cases h
      exact .refl _
    obtain ⟨k2, h2, h⟩ := Option.bind_eq_some_iff.1 h
    obtain ⟨k3, h3, rfl⟩ := Option.map_eq_some_iff.1 h
    have hp1 := Kernel.pendWf_updObjType hp m .none
    have h1 : TickRel (fun u => (KAct.mutexDel m .success : KAct w).ends s.k u) s.k
        (s.k.updObj m fun b => { b with objType := .none }) := .of_same (sameTicks_updObj _ _ _)
    split at h2
    · have hq := Kernel.pendStep_mutexRelease hp1 h2
      refine (h1.trans (.of_same (Kernel.sameTicks_mutexRelease h2))).trans
        (tickRel_pendRmAll hq.1 (fun u hu => ?_) h3)
      exact ((hq.2 m).task u).noNew hu
    · cases h2
      exact h1.trans (tickRel_pendRmAll hp1 (fun u hu => hu) h3)

theorem TickStep.lockWait (hk : TickInv s.k) {m : ObjId} {fuel : ℕ} (hr : s.k.runs)
    (h : s.k.krhinoMutexLock fuel .running m n = some (.blocked k)) :
    TickStep (.lockWait s.k.activeTask m n) s.k k := by
  obtain ⟨owner, k₁, -, -, -, -, hraise, rfl⟩ := Kernel.lock_blocked h
  have h1 : SameTicks s.k k₁ ∧ k₁.activeTask = s.k.activeTask ∧
      (k₁.tasks s.k.activeTask).taskState = .rdy := by
    split at hraise
    · obtain ⟨st, hraise⟩ := hraise
      have hp := Kernel.priSteps_prio.taskPriChange hraise
      refine ⟨hp.sameTicks, hp.activeTask, ?_⟩
      rw [hp.tasks]
      exact hr.1
    · subst hraise
      exact ⟨.refl _, rfl, hr.1⟩
  have hi := h1.1.inv hk
  have hpark : TickStep (.lockWait s.k.activeTask m n) k₁
      (k₁.pendToBlkObj m k₁.activeTask n) := by
    rw [h1.2.1]
    exact .park hi (Kernel.move_pendToBlkObj h1.2.2 m n).1 h1.2.2
  refine ⟨hpark.inv, hpark.count.trans h1.1.count, fun u hu => .inl ?_⟩
  rcases hpark.keeps u ((h1.1.flag u).trans hu) with ⟨hf, hm⟩ | ⟨-, hc⟩
  · exact ⟨hf, hm.trans (h1.1.tickMatch u)⟩
  · exact hc.elim

theorem TickStep.unlock (hp : PendWf s.k) (hk : TickInv s.k) {m : ObjId} {fuel : ℕ} {r : KStat × Kernel w}
    (h : s.k.krhinoMutexUnlock fuel .running m = some r) : TickStep (.unlock s.k.activeTask m r.1) s.k r.2 := by
  have hi := hk.ops (Kernel.ops_krhinoMutexUnlock hp h).1
  refine .of_rel hi ?_
  rcases Kernel.unlock_cases h with ⟨he, -⟩ | ⟨-, -, k₁, hk1, h⟩
  · rw [he]
    exact .refl _
  · have hl : SameButLocks s.k k₁ := hk1 ▸ sameButLocks_updMutex s.k m _
    have hp1 := hl.sameWait.wf hp
    rcases h with ⟨rfl, -⟩ | ⟨-, -, k2, h2, he⟩
    · exact .of_same hl.sameTicks
    · have hq := Kernel.pendStep_mutexRelease hp1 h2
      have hon : ∀ u, (k2.tasks u).on m → (s.k.tasks u).on m := fun u hu =>
        ((hl.sameWait.waits u).2.2 m).1 (((hq.2 m).task u).noNew hu)
      have h2' := hl.sameTicks.trans (Kernel.sameTicks_mutexRelease h2)
      rw [he]
      refine TickRel.trans (.of_same h2') ?_
      unfold Kernel.mutexPass
      split
      · exact .of_same (sameButLocks_updMutex k2 m _).sameTicks
      · rename_i v vs hl'
        have hv : (k2.tasks v).on m := (hq.1.mem m v).1 (by simp [hl'])
        exact (Kernel.tickRel_pendTaskWakeup (P := fun u => (KAct.unlock s.k.activeTask m r.1 :
          KAct w).ends s.k u) (hon v hv)).1.trans
            (.of_same (Kernel.sameButLocks_mutexGet _ v m).sameTicks)

theorem KStep.tickStep (hp : PendWf s.k) (hk : TickInv s.k) (h : KStep s a s') (ha : a ≠ .tick) :
    TickStep a s.k s'.k := by
  cases h with
  | tick => exact absurd rfl ha
  | @timeSlice pri =>
    rcases Kernel.timeSliceUpdate_k s pri with he | ⟨t, -, he⟩
    · rw [he]
      exact .of_same hk (.refl _)
    · rw [he]
      exact .of_same hk (sameTicks_of_ready (Kernel.same_readyListHeadToTail s.k t))
  | sliceSet =>
    rw [krhinoTaskTimeSliceSet_k]
    exact .of_same hk (.refl _)
  | policySet =>
    rw [krhinoSchedPolicySet_k]
    exact .of_same hk (.refl _)
  | create hnew => exact .create hk hnew
  | sleep hr h => exact .park hk (Kernel.move_sleep hr.1 h).1 hr.1
  | yield => exact .of_same hk (sameTicks_of_ready (Kernel.same_readyListHeadToTail s.k _))
  | suspend =>
    exact .of_rel (hk.ops Kernel.moves_krhinoTaskSuspend.ops) Kernel.tickRel_krhinoTaskSuspend
  | resume =>
    exact .of_rel (hk.ops Kernel.moves_krhinoTaskResume.ops) Kernel.tickRel_krhinoTaskResume
  | waitAbort h =>
    exact .of_rel (hk.ops (Kernel.moves_krhinoTaskWaitAbort h).ops)
      (Kernel.tickRel_krhinoTaskWaitAbort rfl h)
  | priChange h => exact .of_same hk (Kernel.sameTicks_krhinoTaskPriChange h)
  | del h =>
    exact .of_rel (hk.ops (Kernel.delStep_krhinoTaskDel hp h).1)
      (Kernel.tickRel_krhinoTaskDel hp (fun _ hu => hu) h)
  | dynDel h =>
    exact .of_rel (hk.ops (Kernel.delStep_krhinoTaskDynDel hp h).1)
      (Kernel.tickRel_krhinoTaskDynDel hp (fun _ hu => hu) h)
  | wait hr ho hn => exact .park hk (Kernel.move_pendToBlkObj hr.1 _ _).1 hr.1
  | wake ht ho =>
    refine .of_rel (hk.move (Kernel.move_pendTaskWakeup ht.1)) (Kernel.tickRel_pendTaskWakeup ?_).1
    exact rfl
  | remove ht ho =>
    refine .of_rel (hk.move (Kernel.move_pendTaskRm ht.1)) (Kernel.tickRel_pendTaskWakeup ?_).2
    exact rfl
  | object => exact .of_same hk (.of_tasks rfl rfl rfl)
  | mutexCreate => exact .of_same hk (.of_tasks rfl rfl rfl)
  | mutexDel h => exact .mutexDel hp hk h
  | lock hr h => exact .of_same hk (Kernel.sameButLocks_krhinoMutexLock h).sameTicks
  | lockWait hr h => exact .lockWait hk hr h
  | unlock _ h => exact .unlock hp hk h
  | schedule =>
    obtain ⟨t, he⟩ := s.k.coreSched_eq
    rw [he]
    exact .of_same hk (.of_tasks rfl rfl rfl)
  | interrupts => exact .of_same hk (.of_tasks rfl rfl rfl)

/-! ## Runs -/

theorem KStep.tickInv (hp : PendWf s.k) (hk : TickInv s.k) (h : KStep s a s') : TickInv s'.k := by
  by_cases ha : a = .tick
  · subst ha
    cases h with
    | tick h => exact (Kernel.ticked_tickListUpdate hk h).inv hk
  · exact (h.tickStep hp hk ha).inv

theorem tickInv_initSched (w priMax : ℕ) (idle : TaskId) (c : BitVec w) :
    TickInv (initSched w priMax idle c).k := by
  have hl : (initSched w priMax idle c).k.tickHead = [] := by
    unfold initSched initKernel
    rw [(Kernel.same_readyListAddTail _ idle).tickHead]
  have hf : ∀ t, ((initSched w priMax idle c).k.tasks t).tickHead = false := fun t => by
    unfold initSched initKernel
    rw [Kernel.readyListAddTail_tasks]
    dsimp only
    split <;> rfl
  refine ⟨⟨?_, fun t => ?_, fun t ht => ?_⟩, ?_, fun t ht => ?_⟩
  · rw [hl]
    exact List.nodup_nil
  · rw [hl, hf]
    simp
  · rw [hf] at ht
    cases ht
  · unfold TickOrder
    rw [hl]
    exact List.Pairwise.nil
  · rw [hl] at ht
    cases ht

/-- What holds of the waits and the tick list in every reachable state. -/
structure WaitInv (s : Sched w) : Prop where
  pend : PendWf s.k
  tick : TickInv s.k

theorem KStep.waitInv (hs : WaitInv s) (h : KStep s a s') : WaitInv s' :=
  ⟨h.pendWf hs.pend, h.tickInv hs.pend hs.tick⟩

theorem waitInv_initSched (w priMax : ℕ) (idle : TaskId) (c : BitVec w) :
    WaitInv (initSched w priMax idle c) :=
  ⟨pendWf_initSched w priMax idle c, tickInv_initSched w priMax idle c⟩

/-- For how many ticks a call enters the task, when not for ever. -/
def KAct.entersFor (t : TaskId) : KAct w → Option (BitVec w)
  | .sleep u n => if u = t then some n else none
  | .wait u _ n | .lockWait u _ n => if u = t ∧ n ≠ BitVec.allOnes w then some n else none
  | _ => none

theorem Move.entered (h : Move t k k') (ht : OnTick t n k k') :
    (k'.tasks t).tickHead = true ∧ k'.left t = n.toNat := ⟨ht.2.1, h.left_on ht⟩

theorem KStep.entered (h : KStep s a s') (hn : a.entersFor t = some n) :
    (s'.k.tasks t).tickHead = true ∧ s'.k.left t = n.toNat := by
  cases h with
  | sleep hr h =>
    obtain ⟨rfl, he⟩ := Option.ite_none_right_eq_some.1 hn
    cases he
    obtain ⟨hm, ht, -⟩ := Kernel.move_sleep hr.1 h
    exact hm.entered ht
  | wait hr ho hpos =>
    obtain ⟨⟨rfl, hever⟩, he⟩ := Option.ite_none_right_eq_some.1 hn
    cases he
    obtain ⟨hm, ht, -⟩ := Kernel.move_pendToBlkObj hr.1 _ _
    exact hm.entered (ht ((BitVec.pos_iff_ne_zero _).2 hpos) hever)
  | @lockWait m _ n k hr h =>
    obtain ⟨⟨rfl, hever⟩, he⟩ := Option.ite_none_right_eq_some.1 hn
    cases he
    obtain ⟨owner, k₁, -, -, -, hpos, hraise, rfl⟩ := Kernel.lock_blocked h
    have h1 : k₁.activeTask = s.k.activeTask ∧ (k₁.tasks s.k.activeTask).taskState = .rdy := by
      split at hraise
      · obtain ⟨st, hraise⟩ := hraise
        have hp := Kernel.priSteps_prio.taskPriChange hraise
        rw [hp.tasks]
        exact ⟨hp.activeTask, hr.1⟩
      · subst hraise
        exact ⟨rfl, hr.1⟩
    obtain ⟨hm, ht, -⟩ := Kernel.move_pendToBlkObj h1.2 m n
    rw [h1.1]
    exact hm.entered (ht ((BitVec.pos_iff_ne_zero _).2 hpos) hever)
  | _ => cases hn

/-- Steps through which the task stays on the tick list, with every tick `TickOk`. -/
def Stays (t : TaskId) : Sched w → KAct w → Sched w → Prop := fun s a s' =>
  KStep s a s' ∧ (s'.k.tasks t).tickHead = true ∧ (a = .tick → s.k.TickOk)

theorem Stays.step (hs : WaitInv s) (hf : (s.k.tasks t).tickHead = true) (h : Stays t s a s') :
    s'.k.left t + [a].count .tick = s.k.left t := by
  obtain ⟨h, hf', -⟩ := h
  by_cases ha : a = .tick
  · subst ha
    cases h with
    | tick h =>
      have hT := Kernel.ticked_tickListUpdate hs.tick h
      have hmem := (hs.tick.wf.mem t).2 hf
      have := hT.left hs.tick.sorted hmem hf'
      have := hs.tick.sorted.pos t hmem
      simp
      omega
  · have hT := h.tickStep hs.pend hs.tick ha
    obtain ⟨-, hm⟩ := (hT.keeps t hf).resolve_right fun hc => by
      rw [hc.1] at hf'
      cases hf'
    unfold Kernel.left
    rw [hm, hT.count, List.count_singleton, if_neg (by simpa using ha)]
    rfl

/-- **A run** of a task that stays: what is left and the ticks that were make `n`. -/
theorem Stays.run {as : List (KAct w)} (h : Run (Stays t) s as s') (hs : WaitInv s)
    (hf : (s.k.tasks t).tickHead = true) :
    WaitInv s' ∧ (s'.k.tasks t).tickHead = true ∧ s'.k.left t + as.count .tick = s.k.left t := by
  induction h with
  | nil => exact ⟨hs, hf, rfl⟩
  | @cons s a s₁ as s' h _ ih =>
    have h1 := h.step hs hf
    obtain ⟨hi, hf', hl⟩ := ih (h.1.waitInv hs) h.2.1
    have := List.count_cons (a := KAct.tick) (b := a) (l := as)
    rw [List.count_singleton] at h1
    exact ⟨hi, hf', by omega⟩

/-- **Timeouts end on time.**  In every reachable state the tick list is in the
    order of the ticks left, and a tick takes off the tasks with one tick left,
    and those only, if and only if it is `TickOk`.  A task that a call enters
    for `n` ticks leaves the list, over ticks that are, at the `n`-th tick, or
    before it by a step that ends its wait. -/
theorem timeouts_end_on_time {priMax : ℕ} {idle : TaskId} {c : BitVec w} {as : List (KAct w)}
    (h : Run KStep (initSched w priMax idle c) as s) :
    TickOrder s.k ∧
    (∀ s', KStep s .tick s' →
      ((∀ t ∈ s.k.tickHead, t ∉ s'.k.tickHead ↔ s.k.left t = 1) ↔ s.k.TickOk)) ∧
    ∀ a s₁ t n, KStep s a s₁ → a.entersFor t = some n →
      ∀ bs s₂, Run (Stays t) s₁ bs s₂ → bs.count .tick < n.toNat ∧
        ∀ b s₃, KStep s₂ b s₃ → (b = .tick → s₂.k.TickOk) →
          (b = .tick → (t ∉ s₃.k.tickHead ↔ bs.count .tick + 1 = n.toNat)) ∧
          (t ∉ s₃.k.tickHead → b = .tick ∨ b.ends s₂.k t) := by
  have hs : WaitInv s := h.keeps (fun hs h => h.waitInv hs) (waitInv_initSched w priMax idle c)
  have hoff : ∀ {k : Kernel w} {t}, TickWf k →
      (t ∉ k.tickHead ↔ (k.tasks t).tickHead = false) := fun hk => by
    rw [hk.mem, Bool.not_eq_true]
  refine ⟨hs.tick.sorted.sorted, fun s' h => ?_, fun a s₁ t n ha hn bs s₂ hrun => ?_⟩
  · cases h with
    | tick h =>
      have hT := Kernel.ticked_tickListUpdate hs.tick h
      constructor
      · intro hall
        by_contra hok
        obtain ⟨t, hf, hone, hf'⟩ := hT.early hs.tick hok
        exact hone ((hall t ((hs.tick.wf.mem t).2 hf)).1 ((hoff hT.wf).2 hf'))
      · intro hok t ht
        exact (hoff hT.wf).trans (hT.leaves_iff hs.tick hok ((hs.tick.wf.mem t).1 ht))
  · obtain ⟨hf1, hn⟩ := ha.entered hn
    obtain ⟨hs2, hf2, hleft⟩ := Stays.run hrun (ha.waitInv hs) hf1
    have hpos := hs2.tick.sorted.pos t ((hs2.tick.wf.mem t).2 hf2)
    refine ⟨by omega, fun b s₃ hb hok => ⟨fun hbt => ?_, fun hleave => ?_⟩⟩
    · subst hbt
      rw [hoff (hb.waitInv hs2).tick.wf]
      cases hb with
      | tick hb =>
        rw [(Kernel.ticked_tickListUpdate hs2.tick hb).leaves_iff hs2.tick (hok rfl) hf2]
        omega
    · rw [hoff (hb.waitInv hs2).tick.wf] at hleave
      by_cases hbt : b = .tick
      · exact .inl hbt
      · refine .inr (((hb.tickStep hs2.pend hs2.tick hbt).keeps t hf2).resolve_left fun hc => ?_).2
        rw [hc.1] at hleave
        cases hleave

/-! ## One task -/

/-- The task `1` runs, beside the idle task. -/
def oneTask : Sched 32 :=
  let s := (taskCreate (initSched 32 4 0 0) 1 1 0 true .staticAlloc).2
  { s with k := s.k.coreSched }

/-- The task `1` has gone to sleep for `n` ticks. -/
def asleep (n : BitVec 32) : Sched 32 :=
  { oneTask with k := (oneTask.k.krhinoTaskSleep n).elim (fun _ => oneTask.k) id }

theorem run_oneTask : Run KStep (initSched 32 4 0 0) [.create 1 1 true, .schedule] oneTask :=
  .cons (.create (.inl rfl)) (.single .schedule)

theorem sleep_asleep {n : BitVec 32} (hn : n ≠ 0) : KStep oneTask (.sleep 1 n) (asleep n) := by
  have h : oneTask.k.krhinoTaskSleep n = .inr (asleep n).k := by
    unfold asleep Kernel.krhinoTaskSleep
    rw [if_neg hn]
    rfl
  exact .sleep (s := oneTask) (by decide) h

theorem timeouts_end_on_time_asleep :
    ∃ s, KStep (asleep 1) .tick s ∧ 1 ∉ s.k.tickHead := by
  obtain ⟨-, -, h⟩ := timeouts_end_on_time run_oneTask
  have hok : (asleep 1).k.TickOk := fun t ht => by cases ht
  have htick := @KStep.tick 32 (asleep 1) 2 _ rfl
  obtain ⟨-, h⟩ := h _ _ 1 1 (sleep_asleep (by decide)) rfl [] _ .nil
  exact ⟨_, htick, ((h .tick _ htick fun _ => hok).1 rfl).2 rfl⟩

/-- A sleep of `2 ^ 31 + 1` ticks ends at the first tick. -/
theorem sleep_far_ends_at_once : ∃ as s s₁ s₂, Run KStep (initSched 32 4 0 0) as s ∧
    KStep s (.sleep 1 0x80000001#32) s₁ ∧ 1 ∈ s₁.k.tickHead ∧
    KStep s₁ .tick s₂ ∧ 1 ∉ s₂.k.tickHead := by
  refine ⟨_, _, _, _, run_oneTask, sleep_asleep (n := 0x80000001#32) (by decide), ?_,
    @KStep.tick 32 _ 2 _ rfl, ?_⟩
  · decide
  · exact List.not_mem_nil

end Rhino
