/-
  Labelled transition systems: runs, and the invariants they keep.

  A system is a relation `Step s a s'` ("the step `a` leads from `s` to `s'`").
  `Run Step s as s'` is a run of the steps `as`; a property that every step
  keeps holds in every state of every run (`Run.keeps`).  Runs whose steps all
  meet a side condition are runs of the restricted relation `Step.restrict`.
-/
import Mathlib.Data.List.Basic

namespace Lib

variable {σ α : Type*}

/-- A run: the steps `as` lead from the first state to the last. -/
inductive Run (Step : σ → α → σ → Prop) : σ → List α → σ → Prop
  | nil {s} : Run Step s [] s
  | cons {s a t as u} : Step s a t → Run Step t as u → Run Step s (a :: as) u

/-- The steps of `Step` taken where `C` holds of the state and the label. -/
def restrict (C : σ → α → Prop) (Step : σ → α → σ → Prop) : σ → α → σ → Prop :=
  fun s a s' => C s a ∧ Step s a s'

/-- The relation of a total step function. -/
def Fn (step : σ → α → σ) : σ → α → σ → Prop := fun s a s' => step s a = s'

variable {Step : σ → α → σ → Prop} {s t u : σ} {as bs : List α} {a : α}

theorem Run.append (h1 : Run Step s as t) (h2 : Run Step t bs u) : Run Step s (as ++ bs) u := by
  induction h1 with
  | nil => exact h2
  | cons h _ ih => exact .cons h (ih h2)

theorem Run.single (h : Step s a t) : Run Step s [a] t := .cons h .nil

theorem Run.snoc (h1 : Run Step s as t) (h2 : Step t a u) : Run Step s (as ++ [a]) u :=
  h1.append (.single h2)

theorem Run.keeps {I : σ → Prop} (hstep : ∀ {s a s'}, I s → Step s a s' → I s')
    (h : Run Step s as t) (hs : I s) : I t := by
  induction h with
  | nil => exact hs
  | cons h _ ih => exact ih (hstep hs h)

theorem Run.keeps_hist {I : List α → σ → Prop}
    (hstep : ∀ {as s a s'}, I as s → Step s a s' → I (as ++ [a]) s')
    (h : Run Step s as t) : ∀ {bs}, I bs s → I (bs ++ as) t := by
  induction h with
  | nil => intro bs hs; simpa using hs
  | cons h _ ih =>
    intro bs hs
    simpa using ih (hstep hs h)

theorem Run.mono {Step' : σ → α → σ → Prop} (hle : ∀ {s a s'}, Step s a s' → Step' s a s')
    (h : Run Step s as t) : Run Step' s as t := by
  induction h with
  | nil => exact .nil
  | cons h _ ih => exact .cons (hle h) ih

/-- **Logs**: a system whose steps are legal events of a machine `f`, in related
    states, has legal logs. -/
theorem Run.log {μ ε : Type*} {f : μ → ε → Option μ} {R : σ → μ → Prop} {events : α → List ε}
    (hstep : ∀ {s a s' m}, R s m → Step s a s' → ∃ m', (events a).foldlM f m = some m' ∧ R s' m')
    (h : Run Step s as t) :
    ∀ {m}, R s m → ∃ m', (as.flatMap events).foldlM f m = some m' ∧ R t m' := by
  induction h with
  | nil => intro m h; exact ⟨m, rfl, h⟩
  | cons h _ ih =>
    intro m hm
    obtain ⟨m1, h1, hs1⟩ := hstep hm h
    obtain ⟨m2, h2, hs2⟩ := ih hs1
    refine ⟨m2, ?_, hs2⟩
    rw [List.flatMap_cons, List.foldlM_append, h1]
    exact h2

/-- **Simulation**: a system each of whose steps is, in related states, a step of
    the other has its runs. -/
theorem Run.sim {τ : Type*} {Step' : τ → α → τ → Prop} {R : σ → τ → Prop}
    (hstep : ∀ {s a s' x}, R s x → Step s a s' → ∃ x', Step' x a x' ∧ R s' x') (h : Run Step s as t) :
    ∀ {x}, R s x → ∃ y, Run Step' x as y ∧ R t y := by
  induction h with
  | nil => exact fun hx => ⟨_, .nil, hx⟩
  | cons h _ ih =>
    intro x hx
    obtain ⟨x1, h1, hx1⟩ := hstep hx h
    obtain ⟨y, h2, hy⟩ := ih hx1
    exact ⟨y, .cons h1 h2, hy⟩

theorem run_fn {step : σ → α → σ} : Run (Fn step) s as t ↔ as.foldl step s = t := by
  constructor
  · intro h
    induction h with
    | nil => rfl
    | cons h _ ih => rw [List.foldl_cons, h]; exact ih
  · rintro rfl
    induction as generalizing s with
    | nil => exact .nil
    | cons a as ih => exact .cons rfl ih

theorem run_option {step : σ → α → Option σ} :
    Run (fun s a t => step s a = some t) s as t ↔ as.foldlM step s = some t := by
  constructor
  · intro h
    induction h with
    | nil => rfl
    | cons h _ ih => rw [List.foldlM_cons, h]; exact ih
  · intro h
    induction as generalizing s with
    | nil =>
      cases h
      exact .nil
    | cons a as ih =>
      rw [List.foldlM_cons] at h
      obtain ⟨u, hu, hrest⟩ := Option.bind_eq_some_iff.1 h
      exact .cons hu (ih hrest)

theorem run_guarded {step : σ → α → Option σ} {c : σ → α → Bool} :
    Run (restrict (fun s a => c s a = true) fun s a t => step s a = some t) s as t ↔
      as.foldlM (fun s a => if c s a then step s a else none) s = some t := by
  rw [← run_option]
  have heq : ∀ s a t, (if c s a then step s a else none) = some t ↔ c s a = true ∧ step s a = some t := by
    intro s a t
    by_cases hc : c s a = true
    · rw [if_pos hc, and_iff_right hc]
    · rw [if_neg hc]
      exact ⟨nofun, fun h => absurd h.1 hc⟩
  exact ⟨.mono fun h => (heq _ _ _).2 h, .mono fun h => (heq _ _ _).1 h⟩

/-- **Conditions**: what every step that meets `C` keeps holds all along a run whose steps all
    meet it. -/
theorem foldl_keeps {step : σ → α → σ} {J : σ → Prop} {C : σ → α → Prop}
    (hstep : ∀ s a, J s → C s a → J (step s a)) (hs : J s)
    (hmeets : ∀ bs a cs, as = bs ++ a :: cs → C (bs.foldl step s) a) :
    ∀ bs cs, as = bs ++ cs → J (bs.foldl step s) := by
  induction as generalizing s with
  | nil =>
    intro bs cs h
    rw [(List.append_eq_nil_iff.1 h.symm).1]
    exact hs
  | cons a as ih =>
    rintro (_ | ⟨b, bs⟩) cs heq
    · exact hs
    · obtain ⟨rfl, hbs⟩ := List.cons.inj heq
      refine ih (hstep s a hs (hmeets [] a as rfl)) ?_ bs cs hbs
      rintro es d fs rfl
      exact hmeets (a :: es) d fs rfl

/-- **Exact conditions**: where a step keeps the invariant `J`, which is stronger than `P`,
    if it meets `C`, and breaks `P` if it does not, `P` holds all along a run exactly
    if every step of the run meets `C`. -/
theorem foldl_always_iff {step : σ → α → σ} {J P : σ → Prop} {C : σ → α → Prop} (Ok : α → Prop)
    (hJ : ∀ s, J s → P s) (hmeet : ∀ s a, Ok a → J s → C s a → J (step s a))
    (hnot : ∀ s a, Ok a → J s → ¬ C s a → ¬ P (step s a)) (hok : ∀ a ∈ as, Ok a) (hs : J s) :
    (∀ bs cs, as = bs ++ cs → P (bs.foldl step s)) ↔
      ∀ bs a cs, as = bs ++ a :: cs → C (bs.foldl step s) a := by
  induction as generalizing s with
  | nil =>
    constructor
    · intro _ bs a cs h
      simp at h
    · intro _ bs cs h
      rw [(List.append_eq_nil_iff.1 h.symm).1]
      exact hJ s hs
  | cons a as ih =>
    have ha : Ok a := hok a List.mem_cons_self
    have has : ∀ b ∈ as, Ok b := fun b hb => hok b (List.mem_cons_of_mem a hb)
    constructor
    · intro h
      have hc : C s a := by
        by_contra hn
        exact hnot s a ha hs hn (h [a] as rfl)
      rintro (_ | ⟨b, bs⟩) d cs heq
      · obtain ⟨rfl, -⟩ := List.cons.inj heq
        exact hc
      · obtain ⟨rfl, hbs⟩ := List.cons.inj heq
        refine (ih has (hmeet s a ha hs hc)).1 ?_ bs d cs hbs
        rintro es fs rfl
        exact h (a :: es) fs rfl
    · intro h
      have hc : C s a := h [] a as rfl
      rintro (_ | ⟨b, bs⟩) cs heq
      · exact hJ s hs
      · obtain ⟨rfl, hbs⟩ := List.cons.inj heq
        refine (ih has (hmeet s a ha hs hc)).2 ?_ bs cs hbs
        rintro es d fs rfl
        exact h (a :: es) d fs rfl

/-- **Exact conditions**, for complete runs: where a step that meets `C` keeps `J`, and one that
    does not leads to `B`, which stays, a run that is done has `P` exactly if all of its steps
    meet `C`. -/
theorem Run.exact {J B P D : σ → Prop} {C : σ → α → Prop} (hJP : ∀ {s}, J s → P s)
    (hkeep : ∀ {s a s'}, J s → C s a → Step s a s' → J s')
    (hbreak : ∀ {s a s'}, J s → ¬ C s a → Step s a s' → B s')
    (hstay : ∀ {s a s'}, B s → Step s a s' → B s') (hB : ∀ {s}, B s → D s → ¬ P s)
    (h : Run Step s as t) (hs : J s) :
    (Run (restrict C Step) s as t → P t) ∧ (D t → P t → Run (restrict C Step) s as t) := by
  refine ⟨fun hr => hJP (hr.keeps (fun hJ hstep => hkeep hJ hstep.1 hstep.2) hs), ?_⟩
  intro hdone hP
  induction h with
  | nil => exact .nil
  | cons hstep hrest ih =>
    rename_i s a s₁ as t
    have hC : C s a := by
      by_contra hn
      exact hB (hrest.keeps hstay (hbreak hs hn hstep)) hdone hP
    exact .cons ⟨hC, hstep⟩ (ih (hkeep hs hC hstep) hdone hP)

/-- **Exact conditions**, for a step function that may have no step: where there is a step
    exactly if `C` is met, a run is made to its end exactly if every step of it meets `C`. -/
theorem foldlM_isSome_iff {step : σ → α → Option σ} {J : σ → Prop} {C : σ → α → Prop}
    (hkeep : ∀ {s a t}, J s → step s a = some t → J t) (hstep : ∀ {s a}, J s → ((step s a).isSome ↔ C s a))
    (hs : J s) :
    (as.foldlM step s).isSome ↔ ∀ bs a cs t, as = bs ++ a :: cs → bs.foldlM step s = some t → C t a := by
  induction as generalizing s with
  | nil =>
    refine iff_of_true rfl ?_
    intro bs a cs t h
    simp at h
  | cons a as ih =>
    rw [List.foldlM_cons]
    constructor
    · intro h
      obtain ⟨r, hr⟩ := Option.isSome_iff_exists.1 h
      obtain ⟨u, hu, hr⟩ := Option.bind_eq_some_iff.1 hr
      rintro (_ | ⟨b, bs⟩) d cs t heq ht
      · obtain ⟨rfl, -⟩ := List.cons.inj heq
        cases ht
        exact (hstep hs).1 (Option.isSome_of_eq_some hu)
      · obtain ⟨rfl, hbs⟩ := List.cons.inj heq
        rw [List.foldlM_cons, hu] at ht
        exact (ih (hkeep hs hu)).1 (Option.isSome_of_eq_some hr) bs d cs t hbs ht
    · intro h
      obtain ⟨u, hu⟩ := Option.isSome_iff_exists.1 ((hstep hs).2 (h [] a as s rfl rfl))
      rw [hu]
      refine (ih (hkeep hs hu)).2 ?_
      rintro bs d cs t rfl ht
      refine h (a :: bs) d cs t rfl ?_
      rw [List.foldlM_cons, hu]
      exact ht

/-- **Exact conditions for an invariant**: where a step is made and keeps `J` exactly if `C` is
    met, a run keeps `J` from step to step exactly if every step of it meets `C`. -/
theorem foldlM_stays_iff {step : σ → α → Option σ} {J : σ → Prop} {C : σ → α → Prop}
    (hstep : ∀ {s a}, J s → ((∃ t, step s a = some t ∧ J t) ↔ C s a)) (hs : J s) :
    (∀ bs cs, as = bs ++ cs → ∃ t, bs.foldlM step s = some t ∧ J t) ↔
      ∀ bs a cs t, as = bs ++ a :: cs → bs.foldlM step s = some t → C t a := by
  constructor
  · rintro h bs a cs t rfl ht
    obtain ⟨t', ht', hJ⟩ := h bs (a :: cs) rfl
    obtain rfl := Option.some.inj (ht.symm.trans ht')
    obtain ⟨u, hu, hJu⟩ := h (bs ++ [a]) cs (by simp)
    rw [List.foldlM_append, ht, Option.bind_eq_bind, Option.bind_some] at hu
    obtain ⟨u', hstep', hu⟩ := Option.bind_eq_some_iff.1 hu
    cases hu
    exact (hstep hJ).1 ⟨_, hstep', hJu⟩
  · intro h bs
    induction bs generalizing as s with
    | nil => exact fun cs _ => ⟨s, rfl, hs⟩
    | cons b bs ih =>
      rintro cs rfl
      obtain ⟨u, hu, hJ⟩ := (hstep hs).2 (h [] b (bs ++ cs) s rfl rfl)
      rw [List.foldlM_cons, hu, Option.bind_eq_bind, Option.bind_some]
      refine ih hJ ?_ cs rfl
      rintro ds d es t heq ht
      refine h (b :: ds) d es t (congrArg (b :: ·) heq) ?_
      rw [List.foldlM_cons, hu]
      exact ht

/-! ## Machines with outputs -/

variable {τ ω : Type*}

/-- The state after the operations, and the output of each. -/
def runOut (step : σ → α → σ × ω) : σ → List α → σ × List ω
  | s, [] => (s, [])
  | s, a :: as =>
    let (s', o) := step s a
    let (t, os) := runOut step s' as
    (t, o :: os)

/-- **Forward simulation**: machines that answer alike in related states, and
    stay related, give the same outputs on every run. -/
theorem runOut_sim {f : σ → α → σ × ω} {g : τ → α → τ × ω} {R : σ → τ → Prop}
    (hstep : ∀ {s t} (a : α), R s t → R (f s a).1 (g t a).1 ∧ (f s a).2 = (g t a).2) (as : List α) :
    ∀ {s t}, R s t → R (runOut f s as).1 (runOut g t as).1 ∧ (runOut f s as).2 = (runOut g t as).2 := by
  induction as with
  | nil => exact fun h => ⟨h, rfl⟩
  | cons a as ih =>
    intro s t h
    obtain ⟨h1, h2⟩ := hstep a h
    obtain ⟨h3, h4⟩ := ih h1
    exact ⟨h3, by simp only [runOut, h2, h4]⟩

end Lib
