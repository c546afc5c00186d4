/-
  Software timers: the state of a timer, its `to_head` and its place on
  `g_timer_head` agree in every reachable state.

  All that `timer_task` does to a timer comes down to three things: it links it
  (`link`), unlinks it (`unlink`), or writes to it while it is not active
  (`edit_cases`).  A timer that is not linked fires only after a start command.
-/
import AliOS.Rhino.Timer
import AliOS.Rhino.PendWf
import Mathlib.Data.List.Nodup

namespace Rhino

open Lib

variable {w : ℕ} {s s' : Timers w} {t u : TimerId} {n : BitVec w} {cb : KTimerQueueCb w}

namespace Timers

/-- The timer is on the list, and alive; the list, the state and `to_head` agree. -/
structure Wf (s : Timers w) : Prop where
  nodup : s.timerHead.Nodup
  live : ∀ t ∈ s.timerHead, (s.timers t).objType = .timer
  linked : ∀ t, (s.timers t).objType = .timer → ((s.timers t).toHead = true ↔ t ∈ s.timerHead)
  state : ∀ t, (s.timers t).objType = .timer →
    ((s.timers t).timerState = .active ↔ (s.timers t).toHead = true)

/-- The timer is alive and not active. -/
def Idle (s : Timers w) (t : TimerId) : Prop :=
  (s.timers t).objType = .timer ∧ (s.timers t).timerState = .deactive

instance (s : Timers w) (t : TimerId) : Decidable (s.Idle t) := inferInstanceAs (Decidable (_ ∧ _))

/-- The timer is alive and active. -/
def Active (s : Timers w) (t : TimerId) : Prop :=
  (s.timers t).objType = .timer ∧ (s.timers t).timerState = .active

instance (s : Timers w) (t : TimerId) : Decidable (s.Active t) :=
  inferInstanceAs (Decidable (_ ∧ _))

theorem Wf.mem_iff (hs : s.Wf) : t ∈ s.timerHead ↔ s.Active t := by
  constructor
  · intro h
    have hl := hs.live t h
    exact ⟨hl, (hs.state t hl).2 ((hs.linked t hl).2 h)⟩
  · rintro ⟨hl, ha⟩
    exact (hs.linked t hl).1 ((hs.state t hl).1 ha)

theorem Wf.idle_not_mem (hs : s.Wf) (h : s.Idle t) : t ∉ s.timerHead := by
  rw [hs.mem_iff]
  rintro ⟨-, ha⟩
  rw [h.2] at ha
  cases ha

theorem Wf.toHead_iff (hs : s.Wf) (hl : (s.timers t).objType = .timer) :
    (s.timers t).toHead = true ↔ s.Active t := by
  rw [hs.linked t hl, hs.mem_iff]

/-! ## What `timer_task` does to a timer -/

/-- The timer stands behind one with `n` ticks left. -/
def later (s : Timers w) (n : BitVec w) (q : TimerId) : Bool :=
  (s.timers q).timerMatch - s.timerCount > n

/-- The timer goes on the list for `n` ticks. -/
def link (s : Timers w) (t : TimerId) (n : BitVec w) : Timers w :=
  { s.updTimer t fun x => { x with
      timerMatch := s.timerCount + n, remain := n, toHead := true, timerState := .active } with
    timerHead := insertBefore (s.later n) t s.timerHead }

/-- The timer goes off the list. -/
def unlink (s : Timers w) (t : TimerId) : Timers w :=
  { s.updTimer t fun x => { x with toHead := false, timerState := .deactive } with
    timerHead := s.timerHead.erase t }

@[simp] theorem link_timerHead (s : Timers w) (t : TimerId) (n : BitVec w) :
    (s.link t n).timerHead = insertBefore (s.later n) t s.timerHead := rfl

@[simp] theorem unlink_timerHead (s : Timers w) (t : TimerId) :
    (s.unlink t).timerHead = s.timerHead.erase t := rfl

@[simp] theorem link_timerCount (s : Timers w) (t : TimerId) (n : BitVec w) :
    (s.link t n).timerCount = s.timerCount := rfl

@[simp] theorem unlink_timerCount (s : Timers w) (t : TimerId) :
    (s.unlink t).timerCount = s.timerCount := rfl

theorem link_ne (s : Timers w) (n : BitVec w) (h : u ≠ t) :
    (s.link t n).timers u = s.timers u := if_neg h

theorem unlink_ne (s : Timers w) (h : u ≠ t) : (s.unlink t).timers u = s.timers u := if_neg h

theorem link_self (s : Timers w) (t : TimerId) (n : BitVec w) :
    (s.link t n).timers t = { s.timers t with
      timerMatch := s.timerCount + n, remain := n, toHead := true, timerState := .active } :=
  if_pos rfl

theorem unlink_self (s : Timers w) (t : TimerId) :
    (s.unlink t).timers t = { s.timers t with toHead := false, timerState := .deactive } :=
  if_pos rfl

theorem insertBefore_congr {p q : TimerId → Bool} {l : List TimerId} (h : ∀ u ∈ l, p u = q u) :
    insertBefore p t l = insertBefore q t l := by
  induction l with
  | nil => rfl
  | cons x xs ih =>
    unfold insertBefore
    rw [h x (by simp), ih fun u hu => h u (by simp [hu])]

theorem start_eq (hs : s.Wf) :
    s.cmdProc cb .start =
      if s.Idle cb.timer then s.link cb.timer (s.timers cb.timer).initCount else s := by
  unfold cmdProc
  dsimp only
  by_cases hl : (s.timers cb.timer).objType = .timer
  swap
  · rw [if_pos hl, if_neg fun h => hl h.1]
  rw [if_neg (not_not.2 hl)]
  by_cases ha : (s.timers cb.timer).timerState = .active
  · rw [if_pos ha, if_neg]
    rintro ⟨-, hd⟩
    rw [hd] at ha
    cases ha
  have hd : s.Idle cb.timer := ⟨hl, by cases h : (s.timers cb.timer).timerState <;> simp_all⟩
  rw [if_neg ha, if_pos hd]
  have hne : ∀ u ∈ s.timerHead, u ≠ cb.timer := fun u hu he => hs.idle_not_mem hd (he ▸ hu)
  refine Timers.ext (funext fun u => ?_) ?_ rfl
  · by_cases hu : u = cb.timer
    · subst hu
      simp [timerListPriInsert, link, updTimer]
    · simp [timerListPriInsert, link, updTimer, hu]
  · refine insertBefore_congr fun u hu => ?_
    simp [updTimer, hne u hu, later]

theorem stop_eq (hs : s.Wf) :
    s.cmdProc cb .stop = if s.Active cb.timer then s.unlink cb.timer else s := by
  unfold cmdProc
  dsimp only
  by_cases hl : (s.timers cb.timer).objType = .timer
  swap
  · rw [if_pos hl, if_neg fun h => hl h.1]
  rw [if_neg (not_not.2 hl)]
  by_cases hd : (s.timers cb.timer).timerState = .deactive
  · rw [if_pos hd, if_neg]
    rintro ⟨-, ha⟩
    rw [hd] at ha
    cases ha
  have ha : s.Active cb.timer := ⟨hl, by cases h : (s.timers cb.timer).timerState <;> simp_all⟩
  rw [if_neg hd, if_pos ha]
  unfold timerListRm
  rw [if_pos ((hs.toHead_iff hl).2 ha)]
  refine Timers.ext (funext fun u => ?_) rfl rfl
  by_cases hu : u = cb.timer
  · subst hu
    simp [unlink, updTimer]
  · simp [unlink, updTimer, hu]

/-- The other commands write to a timer that is not active, or do nothing; an
    `arg_change` leaves it alive, with its period. -/
theorem edit_cases (s : Timers w) (cb : KTimerQueueCb w) {cmd : TimerCmd} (h1 : cmd ≠ .start) (h2 : cmd ≠ .stop) :
    s.cmdProc cb cmd = s ∨ s.Idle cb.timer ∧ ∃ f, s.cmdProc cb cmd = s.updTimer cb.timer f ∧
      (∀ x, (f x).toHead = x.toHead ∧ (f x).timerState = x.timerState) ∧
      (cmd = .argChg → ∀ x, (f x).objType = x.objType ∧ (f x).initCount = x.initCount ∧
        (f x).roundTicks = x.roundTicks) := by
  cases cmd with
  | start => exact absurd rfl h1
  | stop => exact absurd rfl h2
  | argChgAuto => exact .inl rfl
  | chg =>
    unfold cmdProc
    dsimp only
    split
    · exact .inl rfl
    split
    · exact .inl rfl
    split
    · exact .inl rfl
    · rename_i hl hd
      exact .inr ⟨⟨not_not.1 hl, not_not.1 hd⟩, _, rfl, fun _ => ⟨rfl, rfl⟩, nofun⟩
  | argChg =>
    unfold cmdProc
    dsimp only
    split
    · exact .inl rfl
    split
    · exact .inl rfl
    · rename_i hl hd
      exact .inr ⟨⟨not_not.1 hl, not_not.1 hd⟩, _, rfl, fun _ => ⟨rfl, rfl⟩,
        fun _ _ => ⟨rfl, rfl, rfl⟩⟩
  | del | dynDel =>
    unfold cmdProc
    dsimp only
    split
    · exact .inl rfl
    split
    · exact .inl rfl
    split
    · exact .inl rfl
    · rename_i hl hd _
      exact .inr ⟨⟨not_not.1 hl, not_not.1 hd⟩, _, rfl, fun _ => ⟨rfl, rfl⟩, nofun⟩

theorem fire_eq (hs : s.Wf) (ht : t ∈ s.timerHead) :
    s.timerCbProc t =
      if (s.timers t).roundTicks > 0 then
        ((s.unlink t).link t (s.timers t).roundTicks,
          next ((s.unlink t).link t (s.timers t).roundTicks).timerHead t)
      else (s.unlink t, next s.timerHead t) := by
  have ha := hs.mem_iff.1 ht
  have hrm : s.timerListRm t = { s.updTimer t fun x => { x with toHead := false } with
      timerHead := s.timerHead.erase t } := if_pos ((hs.toHead_iff ha.1).2 ha)
  unfold timerCbProc
  rw [hrm]
  have hround : ((s.updTimer t fun x => { x with toHead := false }).timers t).roundTicks =
      (s.timers t).roundTicks := by rw [updTimer_self]
  dsimp only at hround ⊢
  rw [hround]
  split
  · have hne : ∀ u ∈ s.timerHead.erase t, u ≠ t := fun u hu he =>
      (hs.nodup.mem_erase_iff.1 hu).1 he
    have heq : ∀ s₁ s₂ : Timers w, s₁ = s₂ → (s₁, next s₁.timerHead t) = (s₂, next s₂.timerHead t) := by
      rintro s₁ _ rfl
      rfl
    refine heq _ _ (Timers.ext (funext fun u => ?_) ?_ rfl)
    · by_cases hu : u = t
      · subst hu
        simp [timerListPriInsert, link, updTimer, unlink, ha.2]
      · simp [timerListPriInsert, link, updTimer, unlink, hu]
    · refine insertBefore_congr fun u hu => ?_
      simp [updTimer, unlink, hne u hu, later]
  · refine congrArg (·, next s.timerHead t) (Timers.ext (funext fun u => ?_) rfl rfl)
    by_cases hu : u = t
    · subst hu
      simp [unlink, updTimer]
    · simp [unlink, updTimer, hu]

/-! ## The invariant -/

theorem Wf.link (hs : s.Wf) (hl : (s.timers t).objType = .timer) (ht : t ∉ s.timerHead) :
    (s.link t n).Wf := by
  refine ⟨?_, fun u hu => ?_, fun u hu => ?_, fun u hu => ?_⟩
  · rw [link_timerHead, (insertBefore_perm _ _ _).nodup_iff]
    exact List.nodup_cons.2 ⟨ht, hs.nodup⟩
  · by_cases hut : u = t
    · rw [hut, link_self]
      exact hl
    · rw [link_timerHead, mem_insertBefore] at hu
      rw [link_ne s n hut]
      exact hs.live u (hu.resolve_left hut)
  · rw [link_timerHead, mem_insertBefore]
    by_cases hut : u = t
    · rw [hut, link_self]
      simp
    · rw [link_ne s n hut] at hu ⊢
      rw [hs.linked u hu]
      simp [hut]
  · by_cases hut : u = t
    · rw [hut, link_self]
      simp
    · rw [link_ne s n hut] at hu ⊢
      exact hs.state u hu

theorem Wf.unlink (hs : s.Wf) (t : TimerId) : (s.unlink t).Wf := by
  refine ⟨hs.nodup.erase t, fun u hu => ?_, fun u hu => ?_, fun u hu => ?_⟩
  · obtain ⟨hut, hu⟩ := hs.nodup.mem_erase_iff.1 hu
    rw [unlink_ne s hut]
    exact hs.live u hu
  · rw [unlink_timerHead, hs.nodup.mem_erase_iff]
    by_cases hut : u = t
    · rw [hut, unlink_self]
      simp
    · rw [unlink_ne s hut] at hu ⊢
      rw [hs.linked u hu]
      simp [hut]
  · by_cases hut : u = t
    · rw [hut, unlink_self]
      simp
    · rw [unlink_ne s hut] at hu ⊢
      exact hs.state u hu

theorem Wf.edit (hs : s.Wf) {f : KTimer w → KTimer w} (ht : t ∉ s.timerHead)
    (hf : (f (s.timers t)).objType = .timer →
      (f (s.timers t)).toHead = false ∧ (f (s.timers t)).timerState = .deactive) :
    (s.updTimer t f).Wf := by
  refine ⟨hs.nodup, fun u hu => ?_, fun u hu => ?_, fun u hu => ?_⟩
  · have hut : u ≠ t := fun he => ht (he ▸ hu)
    rw [updTimer_ne s f hut]
    exact hs.live u hu
  · rw [updTimer_timerHead]
    by_cases hut : u = t
    · subst hut
      rw [updTimer_self] at hu ⊢
      simp [(hf hu).1, ht]
    · rw [updTimer_ne s f hut] at hu ⊢
      exact hs.linked u hu
  · by_cases hut : u = t
    · subst hut
      rw [updTimer_self] at hu ⊢
      simp [hf hu]
    · rw [updTimer_ne s f hut] at hu ⊢
      exact hs.state u hu

theorem Wf.idle_fields (hs : s.Wf) (h : s.Idle t) :
    (s.timers t).toHead = false ∧ (s.timers t).timerState = .deactive := by
  refine ⟨?_, h.2⟩
  rw [← Bool.not_eq_true, hs.linked t h.1]
  exact hs.idle_not_mem h

theorem Wf.cmdProc (hs : s.Wf) (cb : KTimerQueueCb w) (cmd : TimerCmd) :
    (s.cmdProc cb cmd).Wf := by
  by_cases h1 : cmd = .start
  · rw [h1, start_eq hs]
    split
    · rename_i h
      exact hs.link h.1 (hs.idle_not_mem h)
    · exact hs
  by_cases h2 : cmd = .stop
  · rw [h2, stop_eq hs]
    split
    · exact hs.unlink _
    · exact hs
  rcases edit_cases s cb h1 h2 with he | ⟨hi, f, he, hf, -⟩
  · rw [he]
    exact hs
  · rw [he]
    refine hs.edit (hs.idle_not_mem hi) fun _ => ?_
    rw [(hf _).1, (hf _).2]
    exact hs.idle_fields hi

theorem Wf.timerCmdProc (hs : s.Wf) (cb : KTimerQueueCb w) : (s.timerCmdProc cb).Wf := by
  unfold Timers.timerCmdProc
  split
  · exact ((hs.cmdProc cb _).cmdProc cb _).cmdProc cb _
  · exact hs.cmdProc cb _

theorem Wf.timerCbProc (hs : s.Wf) (ht : t ∈ s.timerHead) : (s.timerCbProc t).1.Wf := by
  rw [fire_eq hs ht]
  split
  · refine (hs.unlink t).link ?_ fun h => (hs.nodup.mem_erase_iff.1 h).1 rfl
    rw [unlink_self]
    exact hs.live t ht
  · exact hs.unlink t

/-! ## What a step leaves as it is -/

/-- The timer keeps its type and its period. -/
structure SameTerms (t : TimerId) (s s' : Timers w) : Prop where
  objType : (s'.timers t).objType = (s.timers t).objType
  initCount : (s'.timers t).initCount = (s.timers t).initCount
  roundTicks : (s'.timers t).roundTicks = (s.timers t).roundTicks

theorem SameTerms.refl : SameTerms t s s := ⟨rfl, rfl, rfl⟩

theorem SameTerms.trans {s₁ s₂ : Timers w} (h1 : SameTerms t s s₁) (h2 : SameTerms t s₁ s₂) :
    SameTerms t s s₂ :=
  ⟨h2.objType.trans h1.objType, h2.initCount.trans h1.initCount,
    h2.roundTicks.trans h1.roundTicks⟩

theorem SameTerms.updTimer {f : KTimer w → KTimer w}
    (hf : ∀ x, (f x).objType = x.objType ∧ (f x).initCount = x.initCount ∧
      (f x).roundTicks = x.roundTicks) : SameTerms t s (s.updTimer u f) := by
  by_cases hu : t = u
  · subst hu
    have h := hf (s.timers t)
    refine ⟨?_, ?_, ?_⟩
    all_goals rw [updTimer_self]
    exacts [h.1, h.2.1, h.2.2]
  · refine ⟨?_, ?_, ?_⟩
    all_goals rw [updTimer_ne s f hu]

theorem sameTerms_link : SameTerms t s (s.link u n) := by
  have h : SameTerms t s (s.updTimer u fun x => { x with
      timerMatch := s.timerCount + n, remain := n, toHead := true, timerState := .active }) :=
    .updTimer fun _ => ⟨rfl, rfl, rfl⟩
  exact ⟨h.objType, h.initCount, h.roundTicks⟩

theorem sameTerms_unlink : SameTerms t s (s.unlink u) := by
  have h : SameTerms t s (s.updTimer u fun x => { x with
      toHead := false, timerState := .deactive }) := .updTimer fun _ => ⟨rfl, rfl, rfl⟩
  exact ⟨h.objType, h.initCount, h.roundTicks⟩

theorem sameTerms_cmdProc (hs : s.Wf) {cmd : TimerCmd}
    (h : cmd = .start ∨ cmd = .stop ∨ cmd = .argChg) : SameTerms t s (s.cmdProc cb cmd) := by
  rcases h with rfl | rfl | rfl
  · rw [start_eq hs]
    split
    · exact sameTerms_link
    · exact .refl
  · rw [stop_eq hs]
    split
    · exact sameTerms_unlink
    · exact .refl
  · rcases @edit_cases w s cb .argChg nofun nofun with he | ⟨-, f, he, -, hf⟩
    · rw [he]
      exact .refl
    · rw [he]
      exact .updTimer (hf rfl)

/-- **A command** deletes a timer, or changes its period, only while it is not
    active. -/
theorem timerCmdProc_terms (hs : s.Wf) (cb : KTimerQueueCb w) (t : TimerId) :
    SameTerms t s (s.timerCmdProc cb) ∨ s.Idle t := by
  unfold timerCmdProc
  split
  · have h1 := hs.cmdProc cb .stop
    have h2 := h1.cmdProc cb .argChg
    exact .inl (((sameTerms_cmdProc hs (.inr (.inl rfl))).trans
      (sameTerms_cmdProc h1 (.inr (.inr rfl)))).trans (sameTerms_cmdProc h2 (.inl rfl)))
  · by_cases h : cb.cbNum = .start ∨ cb.cbNum = .stop
    · exact .inl (sameTerms_cmdProc hs (h.imp_right .inl))
    · push Not at h
      rcases edit_cases s cb h.1 h.2 with he | ⟨hi, f, he, -, -⟩
      · rw [he]
        exact .inl .refl
      · rw [he]
        by_cases ht : t = cb.timer
        · exact .inr (ht ▸ hi)
        · refine .inl ⟨?_, ?_, ?_⟩
          all_goals rw [updTimer_ne s f ht]

theorem timerCbProc_terms (hs : s.Wf) (hu : u ∈ s.timerHead) :
    SameTerms t s (s.timerCbProc u).1 := by
  rw [fire_eq hs hu]
  split
  · exact sameTerms_unlink.trans sameTerms_link
  · exact sameTerms_unlink

theorem mem_of_cmdProc (hs : s.Wf) {cmd : TimerCmd} (h : t ∈ (s.cmdProc cb cmd).timerHead) :
    t ∈ s.timerHead ∨ cmd = .start ∧ cb.timer = t := by
  by_cases h1 : cmd = .start
  · rw [h1, start_eq hs] at h
    split at h
    · rw [link_timerHead, mem_insertBefore] at h
      rcases h with rfl | h
      · exact .inr ⟨h1, rfl⟩
      · exact .inl h
    · exact .inl h
  by_cases h2 : cmd = .stop
  · rw [h2, stop_eq hs] at h
    split at h
    · exact .inl (List.mem_of_mem_erase h)
    · exact .inl h
  rcases edit_cases s cb h1 h2 with he | ⟨-, f, he, -, -⟩
  · rw [he] at h
    exact .inl h
  · rw [he] at h
    exact .inl h

theorem mem_of_timerCmdProc (hs : s.Wf) (h : t ∈ (s.timerCmdProc cb).timerHead) :
    t ∈ s.timerHead ∨ (cb.cbNum = .start ∨ cb.cbNum = .argChgAuto) ∧ cb.timer = t := by
  unfold timerCmdProc at h
  split at h
  · rename_i hc
    have h1 := hs.cmdProc cb .stop
    rcases mem_of_cmdProc (h1.cmdProc cb .argChg) h with h | ⟨-, ht⟩
    · refine .inl ?_
      rcases mem_of_cmdProc h1 h with h | ⟨hc, -⟩
      · rcases mem_of_cmdProc hs h with h | ⟨hc, -⟩
        · exact h
        · cases hc
      · cases hc
    · exact .inr ⟨.inr hc, ht⟩
  · rcases mem_of_cmdProc hs h with h | ⟨hc, ht⟩
    · exact .inl h
    · exact .inr ⟨.inl hc, ht⟩

theorem not_mem_of_stop (hs : s.Wf) (hc : cb.cbNum = .stop) :
    cb.timer ∉ (s.timerCmdProc cb).timerHead := by
  unfold timerCmdProc
  rw [if_neg (by rw [hc]; nofun), hc, stop_eq hs]
  split
  · exact fun h => (hs.nodup.mem_erase_iff.1 h).1 rfl
  · rw [hs.mem_iff]
    assumption

theorem not_mem_of_once (hs : s.Wf) (ht : t ∈ s.timerHead)
    (hr : (s.timers t).roundTicks = 0) : t ∉ (s.timerCbProc t).1.timerHead := by
  rw [fire_eq hs ht, hr, if_neg (BitVec.lt_irrefl 0)]
  exact fun h => (hs.nodup.mem_erase_iff.1 h).1 rfl

theorem mem_of_timerCbProc (hs : s.Wf) (hu : u ∈ s.timerHead)
    (h : t ∈ (s.timerCbProc u).1.timerHead) : t ∈ s.timerHead := by
  rw [fire_eq hs hu] at h
  split at h
  · rw [link_timerHead, mem_insertBefore] at h
    rcases h with rfl | h
    · exact hu
    · exact List.mem_of_mem_erase h
  · exact List.mem_of_mem_erase h

theorem next_append {l₁ l₂ : List TimerId} (h : t ∉ l₁) : next (l₁ ++ t :: l₂) t = l₂.head? := by
  unfold next
  induction l₁ with
  | nil => rw [List.nil_append, List.dropWhile_cons_of_neg (by simp), List.tail_cons]
  | cons x l₁ ih =>
    rw [List.mem_cons, not_or] at h
    rw [List.cons_append, List.dropWhile_cons_of_pos (by simpa using Ne.symm h.1)]
    exact ih h.2

theorem mem_of_next {l : List TimerId} (h : next l t = some u) : u ∈ l :=
  (List.dropWhile_sublist _).subset (List.mem_of_mem_tail (List.mem_of_mem_head? h))

theorem next_mem (hs : s.Wf) (ht : t ∈ s.timerHead) (h : (s.timerCbProc t).2 = some u) :
    u ∈ (s.timerCbProc t).1.timerHead := by
  rw [fire_eq hs ht] at h ⊢
  split at h
  · rename_i hr
    rw [if_pos hr]
    exact mem_of_next h
  · rename_i hr
    rw [if_neg hr, unlink_timerHead, hs.nodup.mem_erase_iff]
    refine ⟨?_, mem_of_next h⟩
    rintro rfl
    obtain ⟨l₁, l₂, hl⟩ := List.append_of_mem ht
    have hn := hs.nodup
    rw [hl] at hn h
    have hu := List.nodup_append.1 hn
    rw [next_append fun hc => hu.2.2 u hc u (by simp) rfl] at h
    exact (List.nodup_cons.1 hu.2.1).1 (List.mem_of_mem_head? h)

end Timers

/-! ## Runs -/

/-- The invariant of the system: the walk stands at a timer on the list. -/
structure TimerInv (s : TimerSys w) : Prop where
  wf : s.toTimers.Wf
  walk : ∀ t, s.pc = .walk (some t) → t ∈ s.timerHead

/-- The step starts the timer. -/
def TimerAct.starts (t : TimerId) : TimerAct w → Prop
  | .cmd _ cb => (cb.cbNum = .start ∨ cb.cbNum = .argChgAuto) ∧ cb.timer = t
  | _ => False

/-- The step ends the timer: a stop, or the only round of a one-shot timer. -/
def TimerAct.ends (s : TimerSys w) (t : TimerId) : TimerAct w → Prop
  | .cmd _ cb => cb.cbNum = .stop ∧ cb.timer = t
  | .fire u => u = t ∧ (s.timers t).roundTicks = 0
  | _ => False

variable {num : ℕ} {idle : BitVec w} {s s' : TimerSys w} {t : TimerId} {a : TimerAct w}

theorem TimerSys.received_walk {inner : Bool} (h : (s.received inner).pc = .walk (some t)) :
    t ∈ (s.received inner).timerHead := by
  unfold received at h
  split at h
  · exact List.mem_of_mem_head? (TimerPc.walk.inj h)
  · cases h

theorem TimerInv.received {inner : Bool} (h : s.toTimers.Wf) : TimerInv (s.received inner) :=
  ⟨h, fun _ ht => TimerSys.received_walk ht⟩

theorem Timers.Wf.readCount (h : s.toTimers.Wf) (d : ℕ) : (s.readCount d).toTimers.Wf :=
  ⟨h.nodup, h.live, h.linked, h.state⟩

theorem timerCreate_timers {intrpt : Bool} {x0 : Timers w} {queue : List (KTimerQueueCb w)}
    {first round : BitVec w} {arg : ℕ} {autoRun : Bool} {flag : AllocFlag}
    {r : KStat × Timers w × List (KTimerQueueCb w)}
    (h : timerCreate num intrpt x0 queue cb t first round arg autoRun flag = r) :
    r.2.1 = x0 ∨ ∃ x : KTimer w, x.toHead = false ∧ x.timerState = .deactive ∧
      r.2.1 = x0.updTimer t fun _ => x := by
  subst h
  unfold timerCreate
  split
  · exact .inl rfl
  split
  · exact .inl rfl
  split
  · exact .inl rfl
  split
  · exact .inl rfl
  · exact .inr ⟨_, rfl, rfl, rfl⟩

/-- **One step**: the invariant is kept; a timer that is alive is deleted, or
    changes its period, only while it is not active; and a timer that the step
    does not start is not linked by it. -/
theorem TimerStep.inv (hs : TimerInv s) (h : TimerStep num idle s a s') :
    TimerInv s' ∧
      (∀ t, (s.timers t).objType = .timer →
        Timers.SameTerms t s.toTimers s'.toTimers ∨ s.toTimers.Idle t) ∧
      ∀ t, t ∈ s'.timerHead → t ∈ s.timerHead ∨ a.starts t := by
  cases h with
  | @create t intrpt cb first round arg autoRun flag r ht h =>
    rcases timerCreate_timers h with he | ⟨x, hx, hd, he⟩
    · have hi : TimerInv { s with toTimers := r.2.1, queue := r.2.2 } := by
        rw [he]
        exact ⟨hs.wf, hs.walk⟩
      refine ⟨hi, fun _ _ => .inl ?_, fun u hu => .inl ?_⟩
      · rw [he]
        exact .refl
      · rwa [he] at hu
    · have hmem : t ∉ s.timerHead := fun hc => ht (hs.wf.live t hc)
      have hi : TimerInv { s with toTimers := r.2.1, queue := r.2.2 } := by
        rw [he]
        exact ⟨hs.wf.edit (f := fun _ => x) hmem fun _ => ⟨hx, hd⟩, hs.walk⟩
      refine ⟨hi, fun u hu => .inl ?_, fun u hu => .inl ?_⟩
      · rw [he]
        have hut : u ≠ t := fun hc => ht (hc ▸ hu)
        refine ⟨?_, ?_, ?_⟩
        all_goals rw [Timers.updTimer_ne _ _ hut]
      · rwa [he] at hu
  | send => exact ⟨⟨hs.wf, hs.walk⟩, fun _ _ => .inl .refl, fun _ hu => .inl hu⟩
  | block => exact ⟨⟨hs.wf, nofun⟩, fun _ _ => .inl .refl, fun _ hu => .inl hu⟩
  | @cmd _ _ d cb _ hp hq =>
    have hr := hs.wf.readCount d
    refine ⟨.received (hr.timerCmdProc cb), fun t _ => ?_, fun t hu => ?_⟩
    · refine (Timers.timerCmdProc_terms hr cb t).imp_left fun h => ?_
      exact ⟨h.objType, h.initCount, h.roundTicks⟩
    · have h := Timers.mem_of_timerCmdProc (s := (s.readCount d).toTimers) (t := t) hr hu
      exact h
  | timeoutOuter =>
    exact ⟨⟨hs.wf.readCount _, nofun⟩, fun _ _ => .inl ⟨rfl, rfl, rfl⟩, fun _ hu => .inl hu⟩
  | timeoutInner =>
    exact ⟨.received (hs.wf.readCount _), fun _ _ => .inl ⟨rfl, rfl, rfl⟩, fun _ hu => .inl hu⟩
  | leave => exact ⟨⟨hs.wf, nofun⟩, fun _ _ => .inl .refl, fun _ hu => .inl hu⟩
  | wait => exact ⟨⟨hs.wf, nofun⟩, fun _ _ => .inl .refl, fun _ hu => .inl hu⟩
  | late =>
    exact ⟨.received (hs.wf.readCount _), fun _ _ => .inl ⟨rfl, rfl, rfl⟩, fun _ hu => .inl hu⟩
  | @fire t r hp hd h =>
    subst h
    have ht := hs.walk t hp
    exact ⟨⟨hs.wf.timerCbProc ht, fun u hu => Timers.next_mem hs.wf ht (TimerPc.walk.inj hu)⟩,
      fun u _ => .inl (Timers.timerCbProc_terms hs.wf ht),
      fun u hu => .inl (Timers.mem_of_timerCbProc hs.wf ht hu)⟩
  | walkBreak => exact ⟨⟨hs.wf, nofun⟩, fun _ _ => .inl .refl, fun _ hu => .inl hu⟩
  | walkEnd => exact ⟨⟨hs.wf, nofun⟩, fun _ _ => .inl .refl, fun _ hu => .inl hu⟩

theorem TimerStep.not_mem_of_ends (hs : TimerInv s) (h : TimerStep num idle s a s')
    (ha : a.ends s t) : t ∉ s'.timerHead := by
  cases h with
  | cmd hp hq =>
    obtain ⟨hc, rfl⟩ := ha
    exact Timers.not_mem_of_stop (hs.wf.readCount _) hc
  | fire hp hd h =>
    obtain ⟨rfl, hr⟩ := ha
    subst h
    exact Timers.not_mem_of_once hs.wf (hs.walk _ hp) hr
  | _ => exact ha.elim

theorem no_fire_of_not_mem {as : List (TimerAct w)} (hs : TimerInv s)
    (h : Run (TimerStep num idle) s as s') (ht : t ∉ s.timerHead)
    (has : ∀ a ∈ as, ¬ a.starts t) : TimerAct.fire t ∉ as := by
  induction h with
  | nil => exact List.not_mem_nil
  | @cons s a s₁ as s' h _ ih =>
    obtain ⟨hi, -, hmem⟩ := h.inv hs
    rw [List.mem_cons, not_or]
    constructor
    · rintro rfl
      cases h with
      | fire hp => exact ht (hs.walk t hp)
    · refine ih hi (fun hc => ?_) fun b hb => has b (by simp [hb])
      rcases hmem t hc with hc | hc
      · exact ht hc
      · exact has a (by simp) hc

theorem timerInv_init {timers : TimerId → KTimer w} {c : BitVec w}
    (hnew : ∀ t, (timers t).objType ≠ .timer) : TimerInv (initTimers timers idle c) :=
  ⟨⟨List.nodup_nil, nofun, fun t h => absurd h (hnew t), fun t h => absurd h (hnew t)⟩, nofun⟩

/-- **The state machine of the timers.**  In every reachable state, of any
    timers, commands and delays: a timer is active exactly when its `to_head` is
    set, which is exactly when it is on the list, once; a timer that is alive is
    deleted, or changes its period, only while it is not active; and after its
    only round, or a stop, it does not fire until it is started. -/
theorem timer_state_machine {timers : TimerId → KTimer w} {c : BitVec w}
    (hnew : ∀ t, (timers t).objType ≠ .timer) {as : List (TimerAct w)}
    (h : Run (TimerStep num idle) (initTimers timers idle c) as s) :
    (∀ t, (s.timers t).objType = .timer →
      ((s.timers t).timerState = .active ↔ (s.timers t).toHead = true) ∧
      ((s.timers t).toHead = true ↔ s.timerHead.count t = 1)) ∧
    (∀ t, s.timerHead.count t ≤ 1 ∧
      (t ∈ s.timerHead → (s.timers t).objType = .timer)) ∧
    (∀ a s', TimerStep num idle s a s' → ∀ t, (s.timers t).objType = .timer →
      (s'.timers t).objType ≠ .timer ∨ (s'.timers t).initCount ≠ (s.timers t).initCount ∨
        (s'.timers t).roundTicks ≠ (s.timers t).roundTicks →
      (s.timers t).timerState = .deactive) ∧
    ∀ a s₁ t, TimerStep num idle s a s₁ → a.ends s t →
      ∀ bs s₂, Run (TimerStep num idle) s₁ bs s₂ → (∀ b ∈ bs, ¬ b.starts t) →
        TimerAct.fire t ∉ bs := by
  have hs : TimerInv s := h.keeps (fun hs h => (h.inv hs).1) (timerInv_init hnew)
  refine ⟨fun t ht => ⟨hs.wf.state t ht, ?_⟩, fun t => ⟨?_, hs.wf.live t⟩,
    fun a s' h t ht hc => ?_, fun a s₁ t h ha bs s₂ hrun hbs => ?_⟩
  · rw [hs.wf.linked t ht]
    refine ⟨List.count_eq_one_of_mem hs.wf.nodup, fun hc => List.count_pos_iff.1 ?_⟩
    omega
  · exact List.nodup_iff_count_le_one.1 hs.wf.nodup t
  · rcases (h.inv hs).2.1 t ht with hk | hi
    · rcases hc with hc | hc | hc
      · exact absurd (hk.objType.trans ht) hc
      · exact absurd hk.initCount hc
      · exact absurd hk.roundTicks hc
    · exact hi.2
  · exact no_fire_of_not_mem (h.inv hs).1 hrun (h.not_mem_of_ends hs ha) hbs

/-- Memory in which no timer is alive. -/
def timerMemory (_ : TimerId) : KTimer 32 :=
  ⟨false, 0, 0, 0, 0, 0, .none, .deactive, .staticAlloc⟩

theorem timerMemory_new (t : TimerId) : (timerMemory t).objType ≠ .timer := nofun

theorem timer_state_machine_start :
    ∃ s : TimerSys 32, s.timerHead = [0] ∧
      ((s.timers 0).timerState = .active ↔ (s.timers 0).toHead = true) := by
  have hnew := @TimerStep.create 32 20 100 (initTimers timerMemory 100 0) 0 false
    ⟨0, 0, 0, 0, .start⟩ 1 0 0 false .staticAlloc _ (timerMemory_new 0) rfl
  have hrun := Run.cons hnew
    (.cons (@TimerStep.send 32 20 100 _ ⟨0, 0, 0, 0, .start⟩ nofun) (.single (.cmd (d := 0) (.inl rfl) rfl)))
  exact ⟨_, rfl, ((timer_state_machine timerMemory_new hrun).1 0 rfl).1⟩

end Rhino
