/-
  Software timers: when `timer_task` blocks, no timer is due, and the first is
  the next one.

  The insertion compares what is left as an unsigned word, so it takes a timer
  that is overdue for one far ahead and stops in front of it.  A start in front
  of an overdue timer, or a round that is put there out of order, leaves a due
  timer behind one that is not; `TimerOk` says which steps do not.  The walk
  splits the list: those it has passed, in order and not overdue, and those it
  has not (`Walks`).
-/
import AliOS.Rhino.TimerRun
import AliOS.Lib.Clock
import Mathlib.Data.List.TakeWhile

namespace Rhino

open Lib

variable {w : ℕ} {s s' : Timers w} {t u : TimerId} {n c : BitVec w} {cb : KTimerQueueCb w}
  {l l₁ l₂ : List TimerId} {q : Option TimerId}

namespace Timers

/-- The signed distance to the match of the timer at the tick `c`. -/
def off (s : Timers w) (c : BitVec w) (t : TimerId) : ℤ := Lib.off (s.timers t).timerMatch c

/-- The list is in the order of the matches at the tick `c`. -/
def Ordered (s : Timers w) (c : BitVec w) (l : List TimerId) : Prop :=
  l.Pairwise fun a b => s.off c a ≤ s.off c b

theorem due_iff_off : s.due t c = true ↔ s.off c t ≤ 0 := decide_eq_true_iff

theorem not_due_iff_off : s.due t c = false ↔ 0 < s.off c t := by
  rw [← Bool.not_eq_true, due_iff_off]
  omega

theorem Ordered.congr (h : s.Ordered c l) (ho : ∀ t ∈ l, s'.off c t = s.off c t) :
    s'.Ordered c l := by
  refine h.imp_of_mem fun {a b} ha hb hab => ?_
  rw [ho a ha, ho b hb]
  exact hab

theorem Ordered.append (h1 : s.Ordered c l₁) (h2 : s.Ordered c l₂)
    (h : ∀ a ∈ l₁, ∀ b ∈ l₂, s.off c a ≤ s.off c b) : s.Ordered c (l₁ ++ l₂) :=
  List.pairwise_append.2 ⟨h1, h2, h⟩

theorem Ordered.head_le (h : s.Ordered c l) (ht : t ∈ l.head?) (hu : u ∈ l) :
    s.off c t ≤ s.off c u := by
  cases l with
  | nil => cases hu
  | cons x xs =>
    obtain rfl : x = t := by simpa using ht
    rcases List.mem_cons.1 hu with rfl | hu
    · exact le_refl _
    · exact (List.pairwise_cons.1 h).1 u hu

theorem Ordered.later {d : ℕ} (h : s.Ordered c l)
    (hd : ∀ t ∈ l, 2 * (d : ℤ) ≤ 2 ^ w + 2 * s.off c t) :
    s.Ordered (c + BitVec.ofNat w d) l := by
  refine h.imp_of_mem fun {a b} ha hb hab => ?_
  have hab : Lib.off _ c ≤ Lib.off _ c := hab
  unfold off
  rw [off_sub (hd a ha), off_sub (hd b hb)]
  omega

theorem off_link_self (h : 2 * n.toNat < 2 ^ w) : (s.link t n).off s.timerCount t = n.toNat := by
  unfold off
  rw [link_self]
  exact off_add _ h

theorem off_link_ne (h : u ≠ t) : (s.link t n).off c u = s.off c u := by
  unfold off
  rw [link_ne s n h]

theorem off_unlink_ne (h : u ≠ t) : (s.unlink t).off c u = s.off c u := by
  unfold off
  rw [unlink_ne s h]

theorem later_iff (h : 2 * n.toNat < 2 ^ w) : s.later n u = true ↔
    s.off s.timerCount u < 0 ∨ (n.toNat : ℤ) < s.off s.timerCount u := by
  unfold later
  rw [decide_eq_true_iff]
  exact left_gt_iff h

theorem insertBefore_append {p : TimerId → Bool} (h1 : ∀ x ∈ l₁, p x = false)
    (h2 : ∀ x ∈ l₂.head?, p x = true) : insertBefore p t (l₁ ++ l₂) = l₁ ++ t :: l₂ := by
  induction l₁ with
  | nil =>
    cases l₂ with
    | nil => rfl
    | cons x xs => exact if_pos (h2 x rfl)
  | cons x xs ih =>
    rw [List.cons_append, insertBefore, if_neg (by simp [h1 x (by simp)]),
      ih fun y hy => h1 y (by simp [hy])]
    rfl

/-! ## The walk -/

/-- The walk stands at `q`: it has passed those of `l₁`, which are not overdue,
    and the others follow in order; those that are not overdue are in order with
    the ones passed. -/
structure Walks (s : Timers w) (q : Option TimerId) (l₁ l₂ : List TimerId) : Prop where
  list : s.timerHead = l₁ ++ l₂
  stands : q = l₂.head?
  passed : s.Ordered s.timerCount l₁
  ahead : ∀ t ∈ l₁, 0 ≤ s.off s.timerCount t
  follow : s.Ordered s.timerCount l₂
  cross : ∀ a ∈ l₁, ∀ b ∈ l₂, 0 ≤ s.off s.timerCount b →
    s.off s.timerCount a ≤ s.off s.timerCount b

/-- The round of a timer that goes on the list again is less than half of the
    range; where another timer is overdue, those that are not are in order with
    it around its old place. -/
def RoundOk (s : Timers w) (t : TimerId) : Prop :=
  (s.timers t).roundTicks > 0 → 2 * (s.timers t).roundTicks.toNat < 2 ^ w ∧
    ∀ l₁ l₂, s.timerHead = l₁ ++ t :: l₂ → (∃ u ∈ l₁ ++ l₂, s.off s.timerCount u < 0) →
      (∀ u ∈ l₁, 0 ≤ s.off s.timerCount u →
        s.off s.timerCount u ≤ (s.timers t).roundTicks.toNat) ∧
      ∀ u ∈ l₂, 0 ≤ s.off s.timerCount u →
        (s.timers t).roundTicks.toNat ≤ s.off s.timerCount u

/-- The timers around the one that fires. -/
structure Around (s : Timers w) (t : TimerId) (l₁ l₂ : List TimerId) : Prop where
  wf : s.Wf
  list : s.timerHead = l₁ ++ t :: l₂
  not_mem : t ∉ l₁ ++ l₂

theorem Walks.around (h : Walks s (some t) l₁ l₂) (hs : s.Wf) :
    ∃ l, l₂ = t :: l ∧ Around s t l₁ l := by
  have hstand := h.stands
  cases l₂ with
  | nil => cases hstand
  | cons x xs =>
    obtain rfl : t = x := by simpa using hstand
    refine ⟨xs, rfl, hs, h.list, ?_⟩
    have hn := hs.nodup
    rw [h.list, List.nodup_append] at hn
    rw [List.mem_append, not_or]
    exact ⟨fun hc => hn.2.2 t hc t (by simp) rfl, (List.nodup_cons.1 hn.2.1).1⟩

theorem timerCbProc_timerCount (hs : s.Wf) (ht : t ∈ s.timerHead) :
    (s.timerCbProc t).1.timerCount = s.timerCount := by
  rw [fire_eq hs ht]
  split <;> rfl

theorem Around.erase (h : Around s t l₁ l₂) : (s.unlink t).timerHead = l₁ ++ l₂ := by
  have hm := h.not_mem
  rw [List.mem_append, not_or] at hm
  rw [unlink_timerHead, h.list, List.erase_append_right _ hm.1, List.erase_cons_head]

theorem Around.next (h : Around s t l₁ l₂) : next s.timerHead t = l₂.head? := by
  have hm := h.not_mem
  rw [List.mem_append, not_or] at hm
  rw [h.list, next_append hm.1]

theorem Around.ne (h : Around s t l₁ l₂) (hu : u ∈ l₁ ++ l₂) : u ≠ t := fun he =>
  h.not_mem (he ▸ hu)

theorem Around.link (h : Around s t l₁ l₂) {m1 m2 : List TimerId} (hm : l₁ ++ l₂ = m1 ++ m2)
    (hn : 2 * n.toNat < 2 ^ w) (hl1 : ∀ u ∈ m1, s.later n u = false)
    (hl2 : ∀ u ∈ m2.head?, s.later n u = true) (hpassed : s.Ordered s.timerCount m1)
    (hahead : ∀ u ∈ m1, 0 ≤ s.off s.timerCount u) (hfollow : s.Ordered s.timerCount m2)
    (hcross : ∀ a ∈ m1, ∀ b ∈ m2, 0 ≤ s.off s.timerCount b →
      s.off s.timerCount a ≤ s.off s.timerCount b)
    (hback : ∀ b ∈ m2, 0 ≤ s.off s.timerCount b → (n.toNat : ℤ) ≤ s.off s.timerCount b) :
    Walks ((s.unlink t).link t n) (Timers.next ((s.unlink t).link t n).timerHead t)
      (m1 ++ [t]) m2 := by
  have hne : ∀ u ∈ m1 ++ m2, u ≠ t := fun u hu => h.ne (hm ▸ hu)
  have hoff : ∀ u ∈ m1 ++ m2, ((s.unlink t).link t n).off s.timerCount u =
      s.off s.timerCount u := fun u hu => by
    rw [off_link_ne (hne u hu), off_unlink_ne (hne u hu)]
  have hself : ((s.unlink t).link t n).off s.timerCount t = n.toNat :=
    off_link_self (s := s.unlink t) hn
  have hlater : ∀ u ∈ m1 ++ m2, (s.unlink t).later n u = s.later n u := fun u hu => by
    unfold Timers.later
    rw [unlink_ne s (hne u hu), unlink_timerCount]
  have hin1 : ∀ u ∈ m1, u ∈ m1 ++ m2 := fun u hu => List.mem_append_left _ hu
  have hin2 : ∀ u ∈ m2, u ∈ m1 ++ m2 := fun u hu => List.mem_append_right _ hu
  have hlist : ((s.unlink t).link t n).timerHead = m1 ++ t :: m2 := by
    rw [link_timerHead, h.erase, hm]
    refine insertBefore_append (fun u hu => ?_) fun u hu => ?_
    · rw [hlater u (hin1 u hu)]
      exact hl1 u hu
    · rw [hlater u (hin2 u (List.mem_of_mem_head? hu))]
      exact hl2 u hu
  have hle : ∀ u ∈ m1, s.off s.timerCount u ≤ n.toNat := fun u hu => by
    have hc := hl1 u hu
    rw [← Bool.not_eq_true, later_iff hn] at hc
    omega
  refine ⟨?_, ?_, ?_, fun u hu => ?_, ?_, fun a ha b hb hob => ?_⟩
  · rw [hlist, List.append_assoc]
    rfl
  · rw [hlist]
    exact next_append fun hc => hne t (hin1 t hc) rfl
  · refine (hpassed.congr fun u hu => hoff u (hin1 u hu)).append (List.pairwise_singleton _ _) ?_
    intro a ha b hb
    obtain rfl := List.mem_singleton.1 hb
    rw [hoff a (hin1 a ha), hself]
    exact hle a ha
  · change 0 ≤ ((s.unlink t).link t n).off s.timerCount u
    rcases List.mem_append.1 hu with hu | hu
    · rw [hoff u (hin1 u hu)]
      exact hahead u hu
    · rw [List.mem_singleton.1 hu, hself]
      omega
  · exact hfollow.congr fun u hu => hoff u (hin2 u hu)
  · change 0 ≤ ((s.unlink t).link t n).off s.timerCount b at hob
    change ((s.unlink t).link t n).off s.timerCount a ≤ ((s.unlink t).link t n).off s.timerCount b
    rw [hoff b (hin2 b hb)] at hob ⊢
    rcases List.mem_append.1 ha with ha | ha
    · rw [hoff a (hin1 a ha)]
      exact hcross a ha b hb hob
    · rw [List.mem_singleton.1 ha, hself]
      exact hback b hb hob

/-- **One timer fires**: a one-shot timer leaves the list; a round goes where
    the scan stops, in front of the next overdue timer or in order. -/
theorem Walks.fire (h : Walks s (some t) l₁ l₂) (hs : s.Wf) (hok : s.RoundOk t) :
    ∃ m1 m2, Walks (s.timerCbProc t).1 (s.timerCbProc t).2 m1 m2 := by
  obtain ⟨l, rfl, ha⟩ := h.around hs
  have hmem : t ∈ s.timerHead := by
    rw [ha.list]
    simp
  have hfollow : s.Ordered s.timerCount l := (List.pairwise_cons.1 h.follow).2
  have hcross : ∀ a ∈ l₁, ∀ b ∈ l, 0 ≤ s.off s.timerCount b →
      s.off s.timerCount a ≤ s.off s.timerCount b := fun a hm b hb =>
    h.cross a hm b (List.mem_cons_of_mem t hb)
  rw [fire_eq hs hmem]
  split
  swap
  · -- a one-shot timer
    have hoff : ∀ u ∈ l₁ ++ l, (s.unlink t).off s.timerCount u = s.off s.timerCount u :=
      fun u hu => off_unlink_ne (ha.ne hu)
    have hin1 : ∀ u ∈ l₁, u ∈ l₁ ++ l := fun u hu => List.mem_append_left _ hu
    have hin2 : ∀ u ∈ l, u ∈ l₁ ++ l := fun u hu => List.mem_append_right _ hu
    refine ⟨l₁, l, ha.erase, ha.next, h.passed.congr fun u hu => hoff u (hin1 u hu), fun u hu => ?_,
      hfollow.congr fun u hu => hoff u (hin2 u hu), fun a hm b hb hob => ?_⟩
    · rw [unlink_timerCount, hoff u (hin1 u hu)]
      exact h.ahead u hu
    · rw [unlink_timerCount, hoff b (hin2 b hb)] at hob ⊢
      rw [hoff a (hin1 a hm)]
      exact hcross a hm b hb hob
  rename_i hround
  obtain ⟨hn, hlate⟩ := hok hround
  have hlate := hlate l₁ l ha.list
  by_cases hover : ∃ u ∈ l, s.off s.timerCount u < 0
  · -- in front of the next timer, which is overdue
    obtain ⟨v, hv, hvo⟩ := hover
    obtain ⟨hle, hge⟩ := hlate ⟨v, List.mem_append_right _ hv, hvo⟩
    refine ⟨_, _, ha.link rfl hn (fun u hu => ?_) (fun u hu => ?_) h.passed h.ahead hfollow hcross
      hge⟩
    · have := hle u hu (h.ahead u hu)
      have := h.ahead u hu
      rw [← Bool.not_eq_true, later_iff hn]
      omega
    · have := hfollow.head_le hu hv
      rw [later_iff hn]
      omega
  · -- in order
    have hahead : ∀ u ∈ l, 0 ≤ s.off s.timerCount u := fun u hu => by
      by_contra hc
      exact hover ⟨u, hu, by omega⟩
    have hall : s.Ordered s.timerCount (l₁ ++ l) := h.passed.append hfollow fun a hm b hb =>
      hcross a hm b hb (hahead b hb)
    have hpos : ∀ u ∈ l₁ ++ l, 0 ≤ s.off s.timerCount u := fun u hu =>
      (List.mem_append.1 hu).elim (h.ahead u) (hahead u)
    have hsplit := List.takeWhile_append_dropWhile
      (p := fun x => !s.later (s.timers t).roundTicks x) (l := l₁ ++ l)
    set m1 := (l₁ ++ l).takeWhile fun x => !s.later (s.timers t).roundTicks x with hm1
    set m2 := (l₁ ++ l).dropWhile fun x => !s.later (s.timers t).roundTicks x with hm2
    have hin1 : ∀ u ∈ m1, u ∈ l₁ ++ l := fun u hu => hsplit ▸ List.mem_append_left _ hu
    have hin2 : ∀ u ∈ m2, u ∈ l₁ ++ l := fun u hu => hsplit ▸ List.mem_append_right _ hu
    obtain ⟨hord1, hord2, hord⟩ := List.pairwise_append.1 (hsplit ▸ hall)
    have hord2 : s.Ordered s.timerCount m2 := hord2
    have hfirst : ∀ u ∈ m2.head?, s.later (s.timers t).roundTicks u = true := fun u hu => by
      simpa using (of_mem_head_dropWhile hu).2
    refine ⟨_, _, ha.link hsplit.symm hn (fun u hu => ?_) hfirst hord1
      (fun u hu => hpos u (hin1 u hu)) hord2 (fun a hm b hb _ => hord a hm b hb) fun b hb _ => ?_⟩
    · simpa using List.mem_takeWhile_imp hu
    · cases hm : m2 with
      | nil =>
        rw [hm] at hb
        cases hb
      | cons x xs =>
        have hx := hfirst x (by simp [hm])
        have hle := hord2.head_le (t := x) (by simp [hm]) hb
        have := hpos x (hin2 x (by simp [hm]))
        rw [later_iff hn] at hx
        omega

theorem Walks.ordered (h : Walks s q l₁ l₂) (ho : ∀ t ∈ l₂, 0 ≤ s.off s.timerCount t) :
    s.Ordered s.timerCount s.timerHead ∧ ∀ t ∈ s.timerHead, 0 ≤ s.off s.timerCount t := by
  rw [h.list]
  refine ⟨h.passed.append h.follow fun a ha b hb => h.cross a ha b hb (ho b hb), fun t ht => ?_⟩
  exact (List.mem_append.1 ht).elim (h.ahead t) (ho t)

/-! ## The commands -/

/-- The command starts the timer. -/
def Starts (s : Timers w) (cb : KTimerQueueCb w) : Prop :=
  cb.cbNum = .start ∧ s.Idle cb.timer ∨ cb.cbNum = .argChgAuto ∧ (s.timers cb.timer).objType = .timer

/-- A timer that is started is started for less than half of the range, while
    no other is overdue. -/
def StartOk (s : Timers w) (cb : KTimerQueueCb w) : Prop :=
  s.Starts cb → 2 * (s.timers cb.timer).initCount.toNat < 2 ^ w ∧
    ∀ u ∈ s.timerHead, u ≠ cb.timer → 0 ≤ s.off s.timerCount u

/-- What a command keeps: the order, and that no timer is overdue. -/
structure Kept (s s' : Timers w) : Prop where
  count : s'.timerCount = s.timerCount
  ordered : s.Ordered s.timerCount s.timerHead → s'.Ordered s'.timerCount s'.timerHead
  ahead : (∀ u ∈ s.timerHead, 0 ≤ s.off s.timerCount u) →
    ∀ u ∈ s'.timerHead, 0 ≤ s'.off s'.timerCount u

theorem Kept.trans {s₁ s₂ : Timers w} (h1 : Kept s s₁) (h2 : Kept s₁ s₂) : Kept s s₂ :=
  ⟨h2.count.trans h1.count, h2.ordered ∘ h1.ordered, h2.ahead ∘ h1.ahead⟩

/-- The list loses timers, and the others keep their matches. -/
structure Shrinks (s s' : Timers w) : Prop where
  count : s'.timerCount = s.timerCount
  list : s'.timerHead.Sublist s.timerHead
  off : ∀ c, ∀ u ∈ s'.timerHead, s'.off c u = s.off c u

theorem Shrinks.refl (s : Timers w) : Shrinks s s := ⟨rfl, .refl _, fun _ _ _ => rfl⟩

theorem Shrinks.trans {s₁ s₂ : Timers w} (h1 : Shrinks s s₁) (h2 : Shrinks s₁ s₂) :
    Shrinks s s₂ :=
  ⟨h2.count.trans h1.count, h2.list.trans h1.list, fun c u hu =>
    (h2.off c u hu).trans (h1.off c u (h2.list.subset hu))⟩

theorem Shrinks.kept (h : Shrinks s s') : Kept s s' := by
  refine ⟨h.count, fun ho => ?_, fun ha u hu => ?_⟩
  · rw [h.count]
    exact Ordered.congr (List.Pairwise.sublist h.list ho) (h.off _)
  · rw [h.count, h.off _ u hu]
    exact ha u (h.list.subset hu)

theorem shrinks_cmdProc (hs : s.Wf) {cmd : TimerCmd} (h : cmd ≠ .start) :
    Shrinks s (s.cmdProc cb cmd) := by
  by_cases h2 : cmd = .stop
  · rw [h2, stop_eq hs]
    split
    · exact ⟨rfl, List.erase_sublist, fun c u hu => off_unlink_ne (hs.nodup.mem_erase_iff.1 hu).1⟩
    · exact .refl s
  rcases edit_cases s cb h h2 with he | ⟨hi, f, he, -, -⟩
  · rw [he]
    exact .refl s
  · rw [he]
    refine ⟨rfl, .refl _, fun c u hu => ?_⟩
    have hu : u ≠ cb.timer := by
      rintro rfl
      exact hs.idle_not_mem hi hu
    unfold Timers.off
    rw [updTimer_ne s f hu]

theorem kept_start (hs : s.Wf) (hn : s.Idle cb.timer →
      2 * (s.timers cb.timer).initCount.toNat < 2 ^ w ∧
        ∀ u ∈ s.timerHead, 0 ≤ s.off s.timerCount u) :
    Kept s (s.cmdProc cb .start) := by
  rw [start_eq hs]
  split
  swap
  · exact (Shrinks.refl s).kept
  rename_i hi
  obtain ⟨hn, hpos⟩ := hn hi
  set t := cb.timer with ht
  set n := (s.timers t).initCount with hnn
  have hne : ∀ u ∈ s.timerHead, u ≠ t := fun u hu he => hs.idle_not_mem hi (he ▸ hu)
  have hoff : ∀ u ∈ s.timerHead, (s.link t n).off s.timerCount u = s.off s.timerCount u :=
    fun u hu => off_link_ne (hne u hu)
  have hself : (s.link t n).off s.timerCount t = n.toNat := off_link_self hn
  have hall : ∀ u ∈ (s.link t n).timerHead, 0 ≤ (s.link t n).off s.timerCount u := fun u hu => by
    rw [link_timerHead, mem_insertBefore] at hu
    rcases hu with rfl | hu
    · omega
    · rw [hoff u hu]
      exact hpos u hu
  refine ⟨rfl, fun h => ?_, fun _ => hall⟩
  -- none is overdue: the unsigned order is the signed one
  have hlist : (s.link t n).timerHead = insertBefore (fun u => decide
      (((s.link t n).off s.timerCount u).toNat > ((s.link t n).off s.timerCount t).toNat)) t
      s.timerHead := by
    refine insertBefore_congr fun u hu => ?_
    have := hpos u hu
    rw [Bool.eq_iff_iff, later_iff hn, decide_eq_true_iff, hoff u hu, hself]
    omega
  have hnat : (s.link t n).timerHead.Pairwise fun a b =>
      ((s.link t n).off s.timerCount a).toNat ≤ ((s.link t n).off s.timerCount b).toNat := by
    rw [hlist]
    refine insertBefore_sorted (h.imp_of_mem fun {a b} ha hb hab => ?_)
    rw [hoff a ha, hoff b hb]
    omega
  refine hnat.imp_of_mem fun {a b} ha hb hab => ?_
  have := hall a ha
  have := hall b hb
  rw [link_timerCount]
  omega

/-- **A command** that starts no timer in front of an overdue one keeps the
    order. -/
theorem kept_timerCmdProc (hs : s.Wf) (hok : s.StartOk cb) : Kept s (s.timerCmdProc cb) := by
  unfold timerCmdProc
  split
  · rename_i hc
    have hs1 := hs.cmdProc cb .stop
    have hs2 := hs1.cmdProc cb .argChg
    have h1 : Shrinks s (s.cmdProc cb .stop) := shrinks_cmdProc hs nofun
    have h : Shrinks s ((s.cmdProc cb .stop).cmdProc cb .argChg) :=
      h1.trans (shrinks_cmdProc hs1 nofun)
    refine h.kept.trans (kept_start hs2 fun hi => ?_)
    have ht : SameTerms cb.timer s ((s.cmdProc cb .stop).cmdProc cb .argChg) :=
      (sameTerms_cmdProc hs (.inr (.inl rfl))).trans (sameTerms_cmdProc hs1 (.inr (.inr rfl)))
    obtain ⟨hn, hpos⟩ := hok (.inr ⟨hc, ht.objType.symm.trans hi.1⟩)
    refine ⟨ht.initCount ▸ hn, fun u hu => ?_⟩
    rw [h.count, h.off _ u hu]
    refine hpos u (h.list.subset hu) ?_
    rintro rfl
    exact hs2.idle_not_mem hi hu
  · by_cases h : cb.cbNum = .start
    · rw [h]
      refine kept_start hs fun hi => ?_
      obtain ⟨hn, hpos⟩ := hok (.inl ⟨h, hi⟩)
      refine ⟨hn, fun u hu => hpos u hu ?_⟩
      rintro rfl
      exact hs.idle_not_mem hi hu
    · exact (shrinks_cmdProc hs h).kept

end Timers

/-! ## The system -/

namespace TimerSys

variable {s s' : TimerSys w}

/-- The reading of the tick is not late by more than half of the range for a
    timer on the list. -/
def InTime (s : TimerSys w) (d : ℕ) : Prop :=
  ∀ t ∈ s.timerHead, 2 * (d : ℤ) ≤ 2 ^ w + 2 * s.toTimers.off s.sysTick t

/-- The list is in order at the last tick read, and no timer is due. -/
structure Waits (s : TimerSys w) : Prop where
  ordered : s.toTimers.Ordered s.sysTick s.timerHead
  ahead : ∀ t ∈ s.timerHead, 0 < s.toTimers.off s.sysTick t

/-- What holds of the list where `timer_task` is. -/
def ListOk (s : TimerSys w) : Prop :=
  match s.pc with
  | .recv false _ | .blocked false _ => s.timerHead = []
  | .recv true ticks =>
    s.Waits ∧ ∀ t ∈ s.timerHead, (ticks.toNat : ℤ) ≤ s.toTimers.off s.sysTick t
  | .blocked true _ => s.Waits
  | .loop => s.timerCount = s.sysTick ∧ s.toTimers.Ordered s.timerCount s.timerHead ∧
      ∀ t ∈ s.timerHead, 0 ≤ s.toTimers.off s.timerCount t
  | .walk q => s.timerCount = s.sysTick ∧ ∃ l₁ l₂, s.toTimers.Walks q l₁ l₂

end TimerSys

/-- The steps that keep the order: the tick is read in time, it does not go on
    between the test of the first timer and the block, and a timer is started,
    or goes on for a round, where it is in order. -/
def TimerOk (s : TimerSys w) : TimerAct w → Prop
  | .block d => s.timerHead = [] ∨ d = 0
  | .cmd d cb => s.InTime d ∧ (s.readCount d).toTimers.StartOk cb
  | .timeout d | .peek d => s.InTime d
  | .fire t => s.toTimers.RoundOk t
  | _ => True

/-! ## One step -/

variable {num : ℕ} {idle : BitVec w} {s s' : TimerSys w} {a : TimerAct w}

namespace TimerSys

/-- The list, with its matches, the ticks and the place of `timer_task` are what
    `ListOk` reads. -/
theorem ListOk.congr (h : s.ListOk) (hp : s'.pc = s.pc) (ht : s'.sysTick = s.sysTick)
    (hc : s'.timerCount = s.timerCount) (hl : s'.timerHead = s.timerHead)
    (ho : ∀ c, ∀ t ∈ s.timerHead, s'.toTimers.off c t = s.toTimers.off c t) : s'.ListOk := by
  have hord : ∀ {c l}, (∀ t ∈ l, t ∈ s.timerHead) → s.toTimers.Ordered c l →
      s'.toTimers.Ordered c l := fun hsub h => h.congr fun t hm => ho _ t (hsub t hm)
  have hwaits : s.Waits → s'.Waits := fun hw => by
    refine ⟨?_, fun t hm => ?_⟩
    · rw [ht, hl]
      exact hord (fun _ => id) hw.ordered
    · rw [hl] at hm
      rw [ht, ho _ t hm]
      exact hw.ahead t hm
  unfold ListOk at h ⊢
  rw [hp]
  split at h
  · exact hl.trans h
  · exact hl.trans h
  · refine ⟨hwaits h.1, fun t hm => ?_⟩
    rw [hl] at hm
    rw [ht, ho _ t hm]
    exact h.2 t hm
  · exact hwaits h
  · obtain ⟨hcs, h, hpos⟩ := h
    rw [hc, ht, hl]
    refine ⟨hcs, hord (fun _ => id) h, fun t hm => ?_⟩
    rw [ho _ t hm]
    exact hpos t hm
  · obtain ⟨hcs, l₁, l₂, hw⟩ := h
    have hin1 : ∀ t ∈ l₁, t ∈ s.timerHead := fun t hm => hw.list ▸ List.mem_append_left _ hm
    have hin2 : ∀ t ∈ l₂, t ∈ s.timerHead := fun t hm => hw.list ▸ List.mem_append_right _ hm
    refine ⟨by rw [hc, ht, hcs], l₁, l₂, hl.trans hw.list, hw.stands, ?_, fun t hm => ?_, ?_,
      fun a ha b hb hob => ?_⟩
    · rw [hc]
      exact hord hin1 hw.passed
    · rw [hc, ho _ t (hin1 t hm)]
      exact hw.ahead t hm
    · rw [hc]
      exact hord hin2 hw.follow
    · rw [hc, ho _ b (hin2 b hb)] at hob ⊢
      rw [ho _ a (hin1 a ha)]
      exact hw.cross a ha b hb hob

theorem received_listOk (ht : s.timerCount = s.sysTick)
    (h : s.toTimers.Ordered s.timerCount s.timerHead) : (s.received true).ListOk :=
  ⟨ht, [], s.timerHead, rfl, rfl, List.Pairwise.nil, nofun, h, nofun⟩

theorem InTime.ordered {d : ℕ} (hd : s.InTime d)
    (h : s.toTimers.Ordered s.sysTick s.timerHead) :
    (s.readCount d).toTimers.Ordered (s.readCount d).timerCount (s.readCount d).timerHead :=
  Timers.Ordered.congr (h.later hd) fun _ _ => rfl

end TimerSys

theorem TimerStep.listOk (hi : TimerInv s) (hs : s.ListOk) (hok : TimerOk s a)
    (h : TimerStep num idle s a s') : s'.ListOk := by
  unfold TimerSys.ListOk at hs
  cases h with
  | @create t intrpt cb first round arg autoRun flag r ht h =>
    rcases timerCreate_timers h with he | ⟨x, -, -, he⟩
    all_goals
      refine TimerSys.ListOk.congr (s := s) hs rfl rfl ?_ ?_ fun c u hu => ?_
      all_goals
        rw [he]
    · rfl
    · rfl
    · have hut : u ≠ t := by
        rintro rfl
        exact ht (hi.wf.live u hu)
      unfold Timers.off
      rw [Timers.updTimer_ne _ _ hut]
  | send => exact TimerSys.ListOk.congr (s := s) hs rfl rfl rfl rfl fun _ _ _ => rfl
  | @block inner ticks d hp hq =>
    rw [hp] at hs
    cases inner with
    | false => exact hs
    | true =>
      rcases hok with hl | rfl
      · refine ⟨?_, fun t ht => ?_⟩
        · change Timers.Ordered _ _ s.timerHead
          rw [hl]
          exact List.Pairwise.nil
        · change t ∈ s.timerHead at ht
          rw [hl] at ht
          cases ht
      · have ht : s.sysTick + BitVec.ofNat w 0 = s.sysTick := BitVec.add_zero _
        have hw := hs.1
        refine ⟨?_, fun t hm => ?_⟩
        · change Timers.Ordered _ (s.sysTick + BitVec.ofNat w 0) s.timerHead
          rw [ht]
          exact hw.ordered
        · change 0 < Timers.off _ (s.sysTick + BitVec.ofNat w 0) t
          rw [ht]
          exact hw.ahead t hm
  | @cmd inner ticks d cb q hp hq =>
    obtain ⟨hd, hstart⟩ := hok
    have hk := Timers.kept_timerCmdProc (hi.wf.readCount d) hstart
    cases inner with
    | false =>
      have hl : s.timerHead = [] := by
        rcases hp with hp | hp
        all_goals
          rw [hp] at hs
          exact hs
      have hnil : (s.readCount d).timerHead = [] := hl
      refine ⟨hk.count, hk.ordered ?_, hk.ahead ?_⟩
      all_goals rw [hnil]
      · exact List.Pairwise.nil
      · exact nofun
    | true =>
      have hw : s.Waits := by
        rcases hp with hp | hp
        all_goals rw [hp] at hs
        exacts [hs.1, hs]
      exact TimerSys.received_listOk hk.count (hk.ordered (hd.ordered hw.ordered))
  | timeoutOuter hp hd =>
    rw [hp] at hs
    exact hs
  | @timeoutInner ticks d hp hd =>
    rw [hp] at hs
    exact TimerSys.received_listOk rfl (TimerSys.InTime.ordered hok hs.ordered)
  | leave hp hl => exact hl
  | @wait t l d hp hl hd =>
    rw [hp] at hs
    obtain ⟨hc, hord, hpos⟩ := hs
    rw [hc] at hord hpos
    have hord := hord.later hok
    rw [Timers.not_due_iff_off] at hd
    have hall : ∀ u ∈ s.timerHead, s.toTimers.off (s.read d).sysTick t ≤
        s.toTimers.off (s.read d).sysTick u := fun u hu =>
      Timers.Ordered.head_le hord (by simp [hl]) hu
    have hleft := left_of_off (le_of_lt hd)
    refine ⟨⟨hord, fun u hu => hd.trans_le (hall u hu)⟩, fun u hu => ?_⟩
    refine le_trans (le_of_eq ?_) (hall u hu)
    exact hleft
  | @late t l d hp hl hd =>
    rw [hp] at hs
    obtain ⟨hc, hord, -⟩ := hs
    rw [hc] at hord
    exact TimerSys.received_listOk rfl (TimerSys.InTime.ordered hok hord)
  | @fire t r hp hd h =>
    subst h
    rw [hp] at hs
    obtain ⟨hc, l₁, l₂, hw⟩ := hs
    obtain ⟨m1, m2, hw'⟩ := hw.fire hi.wf hok
    exact ⟨(Timers.timerCbProc_timerCount hi.wf (hi.walk t hp)).trans hc, m1, m2, hw'⟩
  | @walkBreak t hp hd =>
    rw [hp] at hs
    obtain ⟨hc, l₁, l₂, hw⟩ := hs
    rw [Timers.not_due_iff_off] at hd
    refine ⟨hc, hw.ordered fun u hu => ?_⟩
    have hhead : t ∈ l₂.head? := hw.stands.symm
    have := hw.follow.head_le hhead hu
    omega
  | walkEnd hp =>
    rw [hp] at hs
    obtain ⟨hc, l₁, l₂, hw⟩ := hs
    have hl : l₂ = [] := List.head?_eq_none_iff.1 hw.stands.symm
    refine ⟨hc, hw.ordered fun u hu => ?_⟩
    rw [hl] at hu
    cases hu

/-! ## Runs -/

/-- What holds of the timers after a run of steps that are `TimerOk`. -/
structure TimerGood (s : TimerSys w) : Prop where
  inv : TimerInv s
  list : s.ListOk

theorem TimerStep.good (hs : TimerGood s) (h : restrict TimerOk (TimerStep num idle) s a s') :
    TimerGood s' :=
  ⟨(h.2.inv hs.inv).1, h.2.listOk hs.inv hs.list h.1⟩

theorem timerGood_init {timers : TimerId → KTimer w} {c : BitVec w}
    (hnew : ∀ t, (timers t).objType ≠ .timer) : TimerGood (initTimers timers idle c) :=
  ⟨timerInv_init hnew, rfl⟩

theorem TimerSys.Waits.left {t : TimerId} (h : s.Waits) (ht : t ∈ s.timerHead) :
    (Lib.left (s.timers t).timerMatch s.sysTick : ℤ) = s.toTimers.off s.sysTick t :=
  left_of_off (h.ahead t ht).le

/-- **The timers wait in order.**  In a run whose steps are `TimerOk`, whenever
    `timer_task` blocks, the list is in the order of what is left, no timer on it
    is due, and none has less left than the time-out of the wait. -/
theorem timers_wait_in_order {timers : TimerId → KTimer w} {c : BitVec w}
    (hnew : ∀ t, (timers t).objType ≠ .timer) {as : List (TimerAct w)}
    (h : Run (restrict TimerOk (TimerStep num idle)) (initTimers timers idle c) as s) {d : ℕ}
    (hb : restrict TimerOk (TimerStep num idle) s (.block d) s') :
    (s'.timerHead.Pairwise fun a b => Lib.left (s'.timers a).timerMatch s'.sysTick ≤
      Lib.left (s'.timers b).timerMatch s'.sysTick) ∧
    (∀ t ∈ s'.timerHead, s'.due t s'.sysTick = false) ∧
    ∃ inner ticks, s'.pc = .blocked inner ticks ∧ ∀ t ∈ s'.timerHead,
      inner = true ∧ ticks.toNat ≤ Lib.left (s'.timers t).timerMatch s'.sysTick := by
  have hs : TimerGood s := h.keeps (fun hs h => TimerStep.good hs h) (timerGood_init hnew)
  have hs' := TimerStep.good hs hb
  obtain ⟨hok, hb⟩ := hb
  have hlist := hs.list
  have hlist' := hs'.list
  cases hb with
  | @block inner ticks d hp hq =>
    unfold TimerSys.ListOk at hlist
    rw [hp] at hlist
    cases inner with
    | false =>
      have hnil : s.timerHead = [] := hlist
      refine ⟨?_, fun t ht => ?_, false, ticks, rfl, fun t ht => ?_⟩
      · change s.timerHead.Pairwise _
        rw [hnil]
        exact List.Pairwise.nil
      all_goals
        change t ∈ s.timerHead at ht
        rw [hnil] at ht
        cases ht
    | true =>
      have hw : TimerSys.Waits { s.read d with pc := .blocked true ticks } := hlist'
      refine ⟨hw.ordered.imp_of_mem fun {a b} ha hb hab => ?_, fun t ht => ?_, true, ticks, rfl,
        fun t ht => ⟨rfl, ?_⟩⟩
      · have := hw.left ha
        have := hw.left hb
        omega
      · exact Timers.not_due_iff_off.2 (hw.ahead t ht)
      · have hle := hlist.2 t ht
        have hd : d = 0 := by
          refine hok.resolve_left fun hnil => ?_
          change t ∈ s.timerHead at ht
          rw [hnil] at ht
          cases ht
        subst hd
        have hleft := hlist.1.left ht
        have htick : s.sysTick + BitVec.ofNat w 0 = s.sysTick := BitVec.add_zero _
        change ticks.toNat ≤ Lib.left (s.timers t).timerMatch (s.sysTick + BitVec.ofNat w 0)
        rw [htick]
        omega

/-! ## One-shot timers -/

/-- The message of `krhino_timer_start`. -/
def startCmd (t : TimerId) : KTimerQueueCb 32 := ⟨t, 0, 0, 0, .start⟩

theorem step_send (s : TimerSys 32) (t : TimerId) : TimerStep 20 100 s (.send (startCmd t))
    { s with queue := (timerSend 20 s.queue (startCmd t)).2 } :=
  .send (show TimerSys.accepts (startCmd t) from nofun)

theorem step_create (s : TimerSys 32) (t : TimerId) (n : BitVec 32)
    (ht : (s.timers t).objType ≠ .timer) :
    let r := timerCreate 20 false s.toTimers s.queue (startCmd t) t n 0 0 false .staticAlloc
    TimerStep 20 100 s (.create t) { s with toTimers := r.2.1, queue := r.2.2 } := .create ht rfl

theorem timers_wait_in_order_one : ∃ s : TimerSys 32,
    s.timerHead = [0] ∧ ∀ t ∈ s.timerHead, s.due t s.sysTick = false := by
  have hok : ∀ {s s' a}, TimerStep 20 (100 : BitVec 32) s a s' → TimerOk s a →
      restrict TimerOk (TimerStep 20 100) s a s' := fun h1 h2 => ⟨h2, h1⟩
  have hrun : ∃ as s, Run (restrict TimerOk (TimerStep 20 100))
      (initTimers timerMemory 100 0) as s ∧
      s.pc = .recv true 1 ∧ s.queue = [] ∧ s.timerHead = [0] := by
    refine ⟨_, _, .cons (hok (step_create _ 0 1 nofun) trivial)
      (.cons (hok (step_send _ 0) trivial) (.cons (hok (.cmd (d := 0) (.inl rfl) rfl)
      ⟨nofun, fun _ => ⟨?_, nofun⟩⟩) (.single (hok (.wait (d := 0) rfl rfl rfl) ?_)))), ?_⟩
    · decide
    · intro t ht
      obtain rfl := List.mem_singleton.1 ht
      decide
    · exact ⟨rfl, rfl, rfl⟩
  obtain ⟨as, s, h, hp, hq, hl⟩ := hrun
  obtain ⟨-, hdue, -⟩ := timers_wait_in_order timerMemory_new h
    (hok (a := .block 0) (.block hp hq) (.inr rfl))
  exact ⟨{ s.read 0 with pc := .blocked true 1 }, hl, hdue⟩

/-- A timer is started while another is overdue: the overdue one stands behind
    it, and `timer_task` blocks for five ticks. -/
theorem timer_overdue_behind : ∃ as s s', Run (TimerStep 20 100) (initTimers timerMemory 100 0) as s ∧
    TimerStep 20 100 s (.block 0) s' ∧ s'.pc = .blocked true 5 ∧
    s'.timerHead = [1, 0] ∧ s'.due 0 s'.sysTick = true := by
  have hrun : ∃ as s, Run (TimerStep 20 100) (initTimers timerMemory 100 0) as s ∧
      s.pc = .recv true 5 ∧ s.queue = [] ∧ s.timerHead = [1, 0] ∧
      s.due 0 (s.read 0).sysTick = true := by
    refine ⟨_, _, .cons (step_create _ 0 1 nofun) (.cons (step_create _ 1 5 nofun)
      (.cons (step_send _ 0) (.cons (.cmd (d := 0) (.inl rfl) rfl)
      (.cons (.wait (d := 0) rfl rfl rfl) (.cons (.block (d := 0) rfl rfl)
      (.cons (step_send _ 1) (.cons (.cmd (d := 2) (.inr rfl) rfl)
      (.cons (.walkBreak rfl rfl) (.single (.wait (d := 0) rfl rfl rfl)))))))))), ?_⟩
    exact ⟨rfl, rfl, rfl, rfl⟩
  obtain ⟨as, s, h, hp, hq, hl, hd⟩ := hrun
  exact ⟨as, s, _, h, .block hp hq, rfl, hl, hd⟩

end Rhino
