/-
  The receivers of a queue, and the mailbox their messages come from.

  `Receivers o read k inRecv m` relates the tasks inside a receive on the object
  `o` (`inRecv`) to the mailbox `m`: blocked tasks find nothing stored, and the
  tasks woken with a message are the ones that have one in hand.  `read` gives
  the message a woken task will return.
-/
import AliOS.Rhino.Wakeup
import AliOS.Lib.Mailbox

namespace Rhino

open Lib

variable {w : ℕ}

/-- A message read off the fields `msg` and `bq_msg_size` of a task. -/
def ReadsMsg (read : Task w → List UInt8) : Prop :=
  ∀ x y, x.msg = y.msg → x.bqMsgSize = y.bqMsgSize → read x = read y

structure Receivers (o : ObjId) (ty : KobjType) (read : Task w → List UInt8) (k : Kernel w)
    (inRecv : TaskId → Bool) (m : Mailbox TaskId (List UInt8)) : Prop where
  wf : PendWf k
  objType : (k.objs o).objType = ty
  policy : (k.objs o).blkPolicy = .pri
  /-- A task is blocked on the queue only while nothing is stored. -/
  blocked : ∀ t, (k.tasks t).on o → m.stored = [] ∧ inRecv t = true
  /-- Inside the receive a task is blocked, or has been woken. -/
  recv : ∀ t, inRecv t = true → (k.tasks t).on o ∨ (k.tasks t).idle ∧
    ((k.tasks t).blkState = .finish ∨ (k.tasks t).blkState = .timeout ∨
      (k.tasks t).blkState = .abort)
  /-- The tasks woken with a message are those that have one in hand. -/
  holders : ∀ t, t ∈ m.holders ↔
    inRecv t = true ∧ (k.tasks t).idle ∧ (k.tasks t).blkState = .finish
  hands : ∀ t i a, (t, i, a) ∈ m.hands → read (k.tasks t) = a
  mail : m.Wf

namespace Receivers

variable {o : ObjId} {ty : KobjType} {read : Task w → List UInt8} {k k' : Kernel w}
  {inRecv : TaskId → Bool} {m m' : Mailbox TaskId (List UInt8)} {t : TaskId}

theorem quiet (h : Receivers o ty read k inRecv m) (hread : ReadsMsg read) (hq : PendStep k k') :
    Receivers o ty read k' inRecv m := by
  obtain ⟨hwf, hquiet⟩ := hq
  have hq := hquiet o
  refine ⟨hwf, hq.objType.trans h.objType, hq.blkPolicy.trans h.policy,
    fun t ht => h.blocked t ((hq.task t).noNew ht), fun t ht => ?_, fun t => ?_, fun t i a hm => ?_,
    h.mail⟩
  · rcases h.recv t ht with hon | ⟨hi, hb⟩
    · exact ((hq.task t).left hon).imp_right fun hx => ⟨hx.1, .inr hx.2⟩
    · obtain ⟨hi', hb'⟩ := (hq.task t).idle hi
      exact .inr ⟨hi', by rw [hb']; exact hb⟩
  · rw [h.holders]
    constructor
    · rintro ⟨hr, hi, hb⟩
      obtain ⟨hi', hb'⟩ := (hq.task t).idle hi
      exact ⟨hr, hi', hb'.trans hb⟩
    · rintro ⟨hr, hi, hb⟩
      refine ⟨hr, ?_⟩
      rcases h.recv t hr with hon | ⟨hi', -⟩
      · -- it left by timeout or abort, so it was not woken
        rcases (hq.task t).left hon with hon' | ⟨-, hb' | hb'⟩
        · exact absurd hon' (hi.not_on _)
        · exact absurd (hb.symm.trans hb') (by simp)
        · exact absurd (hb.symm.trans hb') (by simp)
      · exact ⟨hi', ((hq.task t).idle hi').2.symm.trans hb⟩
  · rw [hread _ (k.tasks t) (hq.task t).msg (hq.task t).bqMsgSize]; exact h.hands t i a hm

/-- Another mailbox with the same messages in hand, and nothing new stored
    while a task is blocked. -/
theorem mailbox (h : Receivers o ty read k inRecv m) (hh : m'.hands = m.hands)
    (hst : ∀ t, (k.tasks t).on o → m'.stored = []) (hm : m'.Wf) :
    Receivers o ty read k inRecv m' := by
  refine ⟨h.wf, h.objType, h.policy, fun t ht => ⟨hst t ht, (h.blocked t ht).2⟩, h.recv,
    fun t => ?_, fun t i a hx => h.hands t i a (hh ▸ hx), hm⟩
  rw [← h.holders, Mailbox.holders, Mailbox.holders, hh]

theorem not_holder (h : Receivers o ty read k inRecv m) (ht : (k.tasks t).on o) :
    t ∉ m.holders := fun hc => ((h.holders t).1 hc).2.1.not_on _ ht

theorem holder_iff (h : Receivers o ty read k inRecv m) (ht : inRecv t = true)
    (hi : (k.tasks t).idle) : t ∈ m.holders ↔ (k.tasks t).blkState = .finish :=
  (h.holders t).trans ⟨fun hx => hx.2.2, fun hx => ⟨ht, hi, hx⟩⟩

theorem first (h : Receivers o ty read k inRecv m) {ts : List TaskId}
    (hl : (k.objs o).blkList = t :: ts) :
    (k.tasks t).on o ∧ ∀ u, (k.tasks u).on o → (k.tasks t).prio ≤ (k.tasks u).prio := by
  have hs := h.wf.sorted _ h.policy
  rw [hl, List.pairwise_cons] at hs
  refine ⟨(h.wf.mem _ t).1 (by rw [hl]; simp), fun u hu => ?_⟩
  rw [← h.wf.mem, hl] at hu
  rcases List.mem_cons.1 hu with rfl | hu
  · exact le_rfl
  · exact hs.1 u hu

end Receivers

/-! ## Waking receivers -/

/-- The tasks `ts`, blocked on `o`, have been given the message `a` and woken. -/
structure Served (o : ObjId) (read : Task w → List UInt8) (ts : List TaskId) (a : List UInt8)
    (k k' : Kernel w) : Prop where
  wf : PendWf k'
  kind : SameKind k k'
  others : ∀ u, u ∉ ts → k'.tasks u = k.tasks u
  nodup : ts.Nodup
  on : ∀ t ∈ ts, (k.tasks t).on o
  idle : ∀ t ∈ ts, (k'.tasks t).idle
  blkState : ∀ t ∈ ts, (k'.tasks t).blkState = .finish
  msg : ∀ t ∈ ts, read (k'.tasks t) = a

variable {o : ObjId} {ty : KobjType} {read : Task w → List UInt8} {k k₁ k' : Kernel w}
  {inRecv : TaskId → Bool} {m m' : Mailbox TaskId (List UInt8)} {t : TaskId} {ts : List TaskId}
  {a : List UInt8}

theorem served_wakeup {f : Task w → Task w} (hk : PendWf k) (hread : ReadsMsg read)
    (hon : (k.tasks t).on o) (hst : ∀ x, (f x).taskState = x.taskState)
    (hob : ∀ x, (f x).blkObj = x.blkObj) (hpr : ∀ x, (f x).prio = x.prio)
    (ha : read (f (k.tasks t)) = a) : Served o read [t] a k ((k.updTask t f).pendTaskWakeup t) := by
  have hk1 : PendWf (k.updTask t f) := by
    refine hk.congr rfl fun u => ?_
    rw [Kernel.updTask_tasks]
    split_ifs with he
    · subst he
      unfold Task.on Task.waits
      rw [hst, hob]; exact ⟨fun _ => Iff.rfl, fun _ => hpr _⟩
    · exact ⟨fun _ => Iff.rfl, fun _ => rfl⟩
  have hw : ((k.updTask t f).tasks t).waits := by
    rw [Kernel.updTask_tasks_self]; unfold Task.waits; rw [hst]; exact hon.1
  have h := Kernel.woken_pendTaskWakeup hk1 hw
  have hmsg := h.msg
  have hsize := h.bqMsgSize
  rw [Kernel.updTask_tasks_self] at hmsg hsize
  refine ⟨h.wf, h.kind, fun u hu => ?_, by simp, by simpa using hon, by simpa using h.idle,
    by simpa using h.blkState, by simpa using (hread _ _ hmsg hsize).trans ha⟩
  rw [List.mem_singleton] at hu
  rw [h.others u hu, Kernel.updTask_tasks_ne _ _ _ _ hu]

theorem Served.cons (h1 : Served o read [t] a k k₁) (h2 : Served o read ts a k₁ k') :
    Served o read (t :: ts) a k k' := by
  have hidle := h1.idle t (by simp)
  have ht : t ∉ ts := fun hc => hidle.not_on o (h2.on t hc)
  have hne : ∀ u ∈ ts, u ∉ [t] := fun u hu hc => ht (List.mem_singleton.1 hc ▸ hu)
  refine ⟨h2.wf, fun o => ⟨(h2.kind o).1.trans (h1.kind o).1, (h2.kind o).2.trans (h1.kind o).2⟩,
    fun u hu => ?_, List.nodup_cons.2 ⟨ht, h2.nodup⟩, fun u hu => ?_, fun u hu => ?_,
    fun u hu => ?_, fun u hu => ?_⟩
  · rw [List.mem_cons, not_or] at hu
    rw [h2.others u hu.2, h1.others u (by simpa using hu.1)]
  all_goals rcases List.mem_cons.1 hu with rfl | hu
  · exact h1.on u (by simp)
  · rw [← h1.others u (hne u hu)]; exact h2.on u hu
  · rw [h2.others u ht]; exact hidle
  · exact h2.idle u hu
  · rw [h2.others u ht]; exact h1.blkState u (by simp)
  · exact h2.blkState u hu
  · rw [h2.others u ht]; exact h1.msg u (by simp)
  · exact h2.msg u hu

/-- Where there is no message to hand over, as with a semaphore. -/
def noMsg (_ : Task w) : List UInt8 := []

theorem readsMsg_noMsg : ReadsMsg (noMsg : Task w → List UInt8) := fun _ _ _ _ => rfl

theorem served_pendTaskWakeup (hk : PendWf k) (hon : (k.tasks t).on o) :
    Served o noMsg [t] [] k (k.pendTaskWakeup t) := by
  have h := served_wakeup (f := id) hk readsMsg_noMsg hon (fun _ => rfl) (fun _ => rfl)
    (fun _ => rfl) (a := []) rfl
  rwa [show k.updTask t id = k by simp [Kernel.updTask]] at h

namespace Receivers

theorem served {i : Option ℕ} (h : Receivers o ty read k inRecv m)
    (hs : Served o read ts a k k') (hst : m'.stored = m.stored)
    (hh : m'.hands = ts.map (fun t => (t, i, a)) ++ m.hands) (hm : m'.Wf) :
    Receivers o ty read k' inRecv m' := by
  have hon : ∀ t, (k'.tasks t).on o → (k.tasks t).on o := by
    intro t ht
    have hts : t ∉ ts := fun hc => (hs.idle t hc).not_on _ ht
    rwa [← hs.others t hts]
  have hmem : ∀ t, t ∈ m'.holders ↔ t ∈ ts ∨ t ∈ m.holders := fun t => by
    simp [Mailbox.holders, hh]
  refine ⟨hs.wf, (hs.kind _).1.trans h.objType, (hs.kind _).2.trans h.policy,
    fun t ht => hst ▸ h.blocked t (hon t ht), fun t ht => ?_, fun t => ?_, fun t i' b hx => ?_, hm⟩
  · by_cases hts : t ∈ ts
    · exact .inr ⟨hs.idle t hts, .inl (hs.blkState t hts)⟩
    · rw [hs.others t hts]; exact h.recv t ht
  · rw [hmem]
    by_cases hts : t ∈ ts
    · exact ⟨fun _ => ⟨(h.blocked t (hs.on t hts)).2, hs.idle t hts, hs.blkState t hts⟩,
        fun _ => .inl hts⟩
    · rw [hs.others t hts, ← h.holders]; simp [hts]
  · rw [hh, List.mem_append, List.mem_map] at hx
    rcases hx with ⟨t', ht', he⟩ | hx
    · obtain ⟨rfl, -, rfl⟩ := Prod.mk.injEq .. ▸ he
      exact hs.msg t' ht'
    · have hts : t ∉ ts := fun hc => h.not_holder (hs.on t hc) (Mailbox.mem_holders.2 ⟨i', b, hx⟩)
      rw [hs.others t hts]; exact h.hands t i' b hx

/-! ## Blocking and leaving -/

theorem setMsg (h : Receivers o ty read k inRecv m) (hr : inRecv t = false) (f : Task w → Task w)
    (hst : ∀ x, (f x).taskState = x.taskState ∧ (f x).blkState = x.blkState)
    (hob : ∀ x, (f x).blkObj = x.blkObj) (hpr : ∀ x, (f x).prio = x.prio) :
    Receivers o ty read (k.updTask t f) inRecv m := by
  have hwaits : ∀ u, (∀ o, ((k.updTask t f).tasks u).on o ↔ (k.tasks u).on o) ∧
      (((k.updTask t f).tasks u).idle ↔ (k.tasks u).idle) ∧
      ((k.updTask t f).tasks u).blkState = (k.tasks u).blkState ∧
      ((k.updTask t f).tasks u).prio = (k.tasks u).prio := fun u => by
    rw [Kernel.updTask_tasks]
    split_ifs with he
    · subst he
      unfold Task.on Task.waits Task.idle
      rw [(hst _).1, (hst _).2, hob, hpr]; simp
    · simp
  refine ⟨h.wf.congr rfl fun u => ⟨(hwaits u).1, fun _ => (hwaits u).2.2.2⟩, h.objType, h.policy,
    fun u hu => h.blocked u (((hwaits u).1 o).1 hu), fun u hu => ?_, fun u => ?_,
    fun u i a hx => ?_, h.mail⟩
  · rw [(hwaits u).1, (hwaits u).2.1, (hwaits u).2.2.1]; exact h.recv u hu
  · rw [(hwaits u).2.1, (hwaits u).2.2.1]; exact h.holders u
  · have hut : u ≠ t := by
      rintro rfl
      have := ((h.holders u).1 (Mailbox.mem_holders.2 ⟨i, a, hx⟩)).1
      rw [hr] at this; simp at this
    rw [Kernel.updTask_tasks_ne _ _ _ _ hut]; exact h.hands u i a hx

theorem block (h : Receivers o ty read k inRecv m) (hb : Blocked o t k k') (hst : m.stored = [])
    (hr : inRecv t = false) :
    Receivers o ty read k' (Function.update inRecv t true) m := by
  have hin : ∀ u ≠ t, Function.update inRecv t true u = inRecv u := fun u hu => by simp [hu]
  refine ⟨hb.wf, (hb.kind _).1.trans h.objType, (hb.kind _).2.trans h.policy, fun u hu => ?_,
    fun u hu => ?_, fun u => ?_, fun u i a hx => ?_, h.mail⟩
  all_goals by_cases hut : u = t
  · exact ⟨hst, by simp [hut]⟩
  · rw [hb.others u hut] at hu
    rw [hin u hut]; exact h.blocked u hu
  · subst hut; exact .inl hb.on
  · rw [hin u hut] at hu
    rw [hb.others u hut]; exact h.recv u hu
  · subst hut
    rw [h.holders, hr]
    exact ⟨fun hx => absurd hx.1 (by simp), fun hx => absurd hb.on (hx.2.1.not_on _)⟩
  · rw [hb.others u hut, hin u hut]; exact h.holders u
  · have := ((h.holders u).1 (Mailbox.mem_holders.2 ⟨i, a, hx⟩)).1
    rw [hut, hr] at this; simp at this
  · rw [hb.others u hut]; exact h.hands u i a hx

theorem leave (h : Receivers o ty read k inRecv m) (hi : (k.tasks t).idle)
    (hst : m'.stored = m.stored) (hh : ∀ x, x ∈ m'.hands ↔ x ∈ m.hands ∧ x.1 ≠ t) (hm : m'.Wf) :
    Receivers o ty read k (Function.update inRecv t false) m' := by
  have hmem : ∀ u, u ∈ m'.holders ↔ u ∈ m.holders ∧ u ≠ t := fun u => by
    simp only [Mailbox.mem_holders, hh]
    exact ⟨fun ⟨i, a, h1, h2⟩ => ⟨⟨i, a, h1⟩, h2⟩, fun ⟨⟨i, a, h1⟩, h2⟩ => ⟨i, a, h1, h2⟩⟩
  refine ⟨h.wf, h.objType, h.policy, fun u hu => ?_, fun u hu => ?_, fun u => ?_,
    fun u i a hx => h.hands u i a ((hh _).1 hx).1, hm⟩
  · have hut : u ≠ t := by
      rintro rfl; exact hi.not_on _ hu
    rw [hst]; simpa [hut] using h.blocked u hu
  · by_cases hut : u = t
    · subst hut; simp at hu
    · exact h.recv u (by simpa [hut] using hu)
  · rw [hmem, h.holders]
    by_cases hut : u = t
    · subst hut; simp
    · simp [hut]

/-- **The end of a receive.**  A task woken with a message returns it, and one
    that timed out or was aborted has none: the events of the two cases. -/
theorem recvEnd (h : Receivers o ty read k inRecv m) (ht : inRecv t = true)
    (hi : (k.tasks t).idle) :
    ∃ m', m.step (if (k.tasks t).blkState = .finish then .ret t (read (k.tasks t)) else .fail t) =
        some m' ∧ m'.stored = m.stored ∧
      Receivers o ty read k (Function.update inRecv t false) m' := by
  by_cases hf : (k.tasks t).blkState = .finish
  · have hhold := (h.holder_iff ht hi).2 hf
    obtain ⟨m', hm', hst, hh⟩ := Mailbox.step_ret h.mail hhold
      (a := read (k.tasks t)) fun i b hib => (h.hands t i b hib).symm
    rw [if_pos hf]
    exact ⟨m', hm', hst, h.leave hi hst hh (Mailbox.step_wf h.mail hm')⟩
  · have hhold : t ∉ m.holders := fun hc => hf ((h.holder_iff ht hi).1 hc)
    rw [if_neg hf]
    refine ⟨m, by simp [Mailbox.step, hhold], rfl, h.leave hi rfl (fun x => ?_) h.mail⟩
    refine ⟨fun hx => ⟨hx, ?_⟩, fun hx => hx.1⟩
    rintro rfl; exact hhold (Mailbox.mem_holders.2 ⟨_, _, hx⟩)

theorem recvEnd_stat (h : Receivers o ty read k inRecv m) (ht : inRecv t = true)
    (hi : (k.tasks t).idle) :
    pendStateEndProc (k.tasks t).blkState = .success ∧ (k.tasks t).blkState = .finish ∨
      (pendStateEndProc (k.tasks t).blkState = .blkTimeout ∨
        pendStateEndProc (k.tasks t).blkState = .blkAbort) ∧ (k.tasks t).blkState ≠ .finish := by
  rcases ((h.recv t ht).resolve_left (hi.not_on _)).2 with hb | hb | hb <;> simp [hb, pendStateEndProc]

end Receivers

theorem receivers_new (hk : PendWf k) (hnew : ∀ t, ¬ (k.tasks t).on o) (ty : KobjType)
    (read : Task w → List UInt8) :
    Receivers o ty read (k.updObj o fun _ => ⟨[], .pri, ty⟩) (fun _ => false) {} := by
  have hobjs : ∀ o', o' ≠ o →
      (k.updObj o fun _ => (⟨[], .pri, ty⟩ : BlkObj)).objs o' = k.objs o' := fun o' ho => by
    rw [Kernel.updObj_objs, if_neg ho]
  refine ⟨⟨fun o' => ?_, fun o' t => ?_, fun o' hp => ?_⟩, by simp, by simp,
    fun t ht => absurd ht (hnew t), by simp, by simp [Mailbox.holders], by simp, Mailbox.wf_empty⟩
  all_goals by_cases ho : o' = o
  · subst ho; simp
  · rw [hobjs o' ho]; exact hk.nodup o'
  · subst ho; simpa using hnew t
  · rw [hobjs o' ho]; exact hk.mem o' t
  · subst ho; simp
  · rw [hobjs o' ho] at hp ⊢; exact hk.sorted o' hp

end Rhino
