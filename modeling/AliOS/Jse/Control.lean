/-
  When the engine executes the statements that ECMAScript 5.1 executes.

  `vm.execute` has one flag for all jumps, and several constructs lose it on the way: an `if` or a
  loop that is only passed clears it, the `else` after a branch that jumped clears it, the `for`
  runs its iterator after a `break`, and a `switch` evaluates every test and handles a `break` in
  its clauses and nothing else.  `clearStmt` follows the ECMAScript run and asks that it meets
  none of this.
-/
import AliOS.Jse.Script
import Mathlib.Tactic.SplitIfs

namespace Jse.Script

variable {α β : Type}

/-! ## What an idle machine can pass -/

mutual

/-- An idle machine passes the statement: with no for-in and no empty part of a `for`, except
inside braces. -/
def passStmt : Stmt α → Bool
  | .ifThen _ s => passStmt s
  | .ifElse _ s t => passStmt s && passStmt t
  | .while _ s => passStmt s
  | .for init c iter s => init.isSome && c.isSome && iter.isSome && passStmt s
  | .forIn _ _ => false
  | .switch _ cs => passCases cs
  | _ => true

def passBlock : Block α → Bool
  | .nil => true
  | .cons s b => passStmt s && passBlock b

def passCases : Cases α → Bool
  | .nil => true
  | .default b => passBlock b
  | .case _ b cs => passBlock b && passCases cs

end

mutual

/-- A machine that jumps keeps its flag: there is no `if` and no loop, except inside braces. -/
def keepStmt : Stmt α → Bool
  | .ifThen _ _ | .ifElse _ _ _ | .while _ _ | .for _ _ _ _ | .forIn _ _ => false
  | .switch _ cs => keepCases cs
  | _ => true

def keepBlock : Block α → Bool
  | .nil => true
  | .cons s b => keepStmt s && keepBlock b

def keepCases : Cases α → Bool
  | .nil => true
  | .default b => keepBlock b
  | .case _ b cs => keepBlock b && keepCases cs

end

/-- There is no call in the expression. -/
def quiet : Expr α β → Bool
  | .val _ => true
  | .call _ _ => false
  | .choose _ e e' => quiet e && quiet e'

/-- What may follow a `break` in the clauses of its `switch`. -/
def keepRest : Cases α → Bool
  | .nil => true
  | .default b => passBlock b
  | .case test b cs => quiet test && keepBlock b && keepRest cs

/-! ## Runs that meet no lost jump -/

/-- The test of a loop after its iterator, and the rest where it holds. -/
def clearTest (test : List α → Option (Bool × List α)) (clearT clear : List α → Bool) (h : List α) : Bool :=
  clearT h &&
    match test h with
    | some (true, h1) => clear h1
    | _ => true

/-- A round of a `while` with at most `k` rounds after it; a `return` in the last round is an error,
and so is a test that fails after it. -/
def clearWhile (test : List α → Option (Bool × List α)) (body : List α → Option (Completion × List α))
    (clearT clear : List α → Bool) : ℕ → List α → Bool
  | 0, h =>
    clear h &&
      match body h with
      | some (.brk, _) => true
      | _ => false
  | k + 1, h =>
    clear h &&
      match body h with
      | some (.brk, _) | some (.ret, _) | none => true
      | some (_, h1) => clearTest test clearT (clearWhile test body clearT clear k) h1

/-- A round of a `for`: no `break`. -/
def clearFor (test : List α → Option (Bool × List α)) (iter : List α → Option (List α))
    (body : List α → Option (Completion × List α)) (clearT clearI clear : List α → Bool) : ℕ → List α → Bool
  | 0, h =>
    clear h &&
      match body h with
      | some (.ret, _) => true
      | _ => false
  | k + 1, h =>
    clear h &&
      match body h with
      | some (.brk, _) => false
      | some (.ret, _) | none => true
      | some (_, h1) =>
        clearI h1 &&
          match iter h1 with
          | some h2 => clearTest test clearT (clearFor test iter body clearT clearI clear k) h2
          | none => true

def clearForIn (body : List α → Option (Completion × List α)) (clear : List α → Bool) :
    List α → List α → Bool
  | [], _ => true
  | x :: xs, h =>
    clear (h ++ [x]) &&
      match body (h ++ [x]) with
      | some (.brk, _) => true
      | some (.ret, _) => true
      | some (_, h1) => clearForIn body clear xs h1
      | none => true

section

variable (call : ℕ → List α → Option (List α)) (clearCall : ℕ → List α → Bool)

def clearExpr : Expr α β → List α → Bool
  | .val _, _ => true
  | .call f e, h =>
    clearCall f h &&
      match call f h with
      | some h1 => clearExpr e h1
      | none => true
  | .choose v e e', h => if v h then clearExpr e h else clearExpr e' h

def clearPart : Option (Expr α α) → List α → Bool
  | none, _ => false
  | some e, h => clearExpr call clearCall e h

/-- The test of a clause: with `==` only where ECMAScript has `===`, and without a call where it is
not evaluated at all. -/
def clearClause (on : Value) (test : Expr α Value) (found : Bool) (h : List α) : Bool :=
  if found then quiet test
  else
    clearExpr call clearCall test h &&
      match esExpr call test h with
      | some (v, _) => decide (on = v) || !mathsEqual on v
      | none => true

variable [DecidableEq α]

mutual

def clearStmt : Stmt α → List α → Bool
  | .simple e, h => clearExpr call clearCall e h
  | .block b, h => clearBlock b h
  | .ifThen c s, h =>
    clearExpr call clearCall c h &&
      match esExpr call c h with
      | some (true, h1) => clearStmt s h1
      | some (false, _) => passStmt s
      | none => true
  | .ifElse c s t, h =>
    clearExpr call clearCall c h &&
      match esExpr call c h with
      | some (true, h1) =>
        clearStmt s h1 && passStmt t &&
          -- a jump is lost at the `else`
          match esStmt call s h1 with
          | some (.brk, _) | some (.cont, _) => false
          | _ => true
      | some (false, h1) => passStmt s && clearStmt t h1
      | none => true
  | .while c s, h =>
    clearExpr call clearCall c h &&
      match esExpr call c h with
      | some (true, h1) =>
        clearWhile (esExpr call c) (esStmt call s) (clearExpr call clearCall c) (clearStmt s) (maxLoops - 1) h1
      | some (false, _) => passStmt s
      | none => true
  | .for init c iter s, h =>
    clearPart call clearCall init h && c.isSome && iter.isSome &&
      match esPart call init h with
      | some h1 =>
        clearExpr call clearCall (forCond c) h1 &&
          match esExpr call (forCond c) h1 with
          | some (true, h2) =>
            clearFor (esExpr call (forCond c)) (esPart call iter) (esStmt call s)
              (clearExpr call clearCall (forCond c)) (clearPart call clearCall iter) (clearStmt s)
              (maxLoops - 1) h2
          | some (false, _) => passStmt s
          | none => true
      | none => true
  | .forIn names s, h =>
    clearExpr call clearCall names h && passStmt s &&
      match esExpr call names h with
      | some (xs, h1) => clearForIn (esStmt call s) (clearStmt s) xs h1
      | none => true
  | .switch on cs, h =>
    clearExpr call clearCall on h &&
      match esExpr call on h with
      | some (v, h1) => clearCases v cs false h1
      | none => true
  | .call f, h => clearCall f h
  | .ret e, h => clearExpr call clearCall e h
  | .brk, _ | .cont, _ => true

def clearBlock : Block α → List α → Bool
  | .nil, _ => true
  | .cons s b, h =>
    clearStmt s h &&
      match esStmt call s h with
      | some (.normal, h1) => clearBlock b h1
      | some (.ret, _) => passBlock b
      | some (_, _) => keepBlock b
      | none => true

def clearCases (on : Value) : Cases α → Bool → List α → Bool
  | .nil, _, _ => true
  | .default b, found, h =>
    if found then
      -- what falls into the `default` is not executed
      passBlock b && (esBlock call b h = some (.normal, h) || esBlock call b h = some (.brk, h))
    else
      clearBlock b h &&
        match esBlock call b h with
        | some (.normal, _) | none => true
        | _ => false
  | .case test b cs, found, h =>
    clearClause call clearCall on test found h &&
      match esClause call on test found h with
      | some (true, h1) =>
        clearBlock b h1 &&
          match esBlock call b h1 with
          | some (.normal, h2) => clearCases on cs true h2
          | some (.brk, _) => keepRest cs
          | some (_, _) => false
          | none => true
      | some (false, h1) => passBlock b && clearCases on cs false h1
      | none => true

end

end

def clearCall [DecidableEq α] (funs : ℕ → Block α) : ℕ → ℕ → List α → Bool
  | 0, _, _ => true
  | n + 1, f, h => clearBlock (esCall funs n) (clearCall funs n) (funs f) h

def clearProg [DecidableEq α] (n : ℕ) (p : Prog α) : Bool :=
  clearBlock (esCall p.funs n) (clearCall p.funs n) p.main []

/-! ## Passing -/

/-- The flag of a completion. -/
def Completion.flag : Completion → Flags
  | .normal => execNormal
  | .brk => execBreak
  | .cont => execContinue
  | .ret => execIdle

section

variable (h : List α)

@[simp] theorem should_normal : (Vm.mk execNormal h).should = true := rfl
@[simp] theorem should_idle : (Vm.mk execIdle h).should = false := rfl

@[simp] theorem idle_mk (f : Flags) : (Vm.mk f h).idle = ⟨execIdle, h⟩ := rfl

@[simp] theorem restore_self (f : Flags) : Vm.restore f ⟨f, h⟩ = ⟨f, h⟩ := rfl
@[simp] theorem restore_idle : Vm.restore execNormal ⟨execIdle, h⟩ = ⟨execNormal, h⟩ := rfl

@[simp] theorem emit_mk (f : Flags) (as : List α) : (Vm.mk f h).emit as = ⟨f, h ++ as⟩ := rfl

@[simp] theorem post_idle : (Vm.mk execIdle h).post = (⟨execIdle, h⟩, false) := rfl
@[simp] theorem post_break : (Vm.mk execBreak h).post = (⟨execNormal, h⟩, true) := rfl

end

@[simp] theorem idleUnless_true (st : Vm α) : st.idleUnless true = st := rfl
@[simp] theorem idleUnless_false (st : Vm α) : st.idleUnless false = st.idle := rfl
@[simp] theorem restoreUnless_true (f : Flags) (st : Vm α) : st.restoreUnless true f = st := rfl
@[simp] theorem restoreUnless_false (f : Flags) (st : Vm α) : st.restoreUnless false f = st.restore f := rfl

theorem maxLoops_succ : maxLoops = 8191 + 1 := rfl

theorem whileLoop_over (c : Vm α → Option (Option Bool × Vm α)) (body : Vm α → Option (Vm α)) (b : Bool)
    (st : Vm α) : ∀ {k : ℕ}, 0 < k → whileLoop c body k false b st = some st
  | _ + 1, _ => by simp [whileLoop]

theorem forLoop_over (c : Vm α → Option (Option Bool × Vm α)) (iter body : Vm α → Option (Vm α)) (b : Bool)
    (st : Vm α) : ∀ {k : ℕ}, 0 < k → forLoop c iter body k false b st = some st
  | _ + 1, _ => by simp [forLoop]

theorem maxLoops_pos : 0 < maxLoops := by decide

theorem handleExpr_skip (call : ℕ → Vm α → Option (Vm α)) {st : Vm α} (hst : st.should = false) (e : Expr α β) :
    handleExpr call e st = some (none, st) := by
  induction e with
  | val v => simp [handleExpr, hst]
  | call f e ih => simp [handleExpr, hst, ih]
  | choose v e e' ih ih' =>
    rw [handleExpr]
    split_ifs
    · exact ih
    · exact ih'

theorem handleSimple_skip (call : ℕ → Vm α → Option (Vm α)) {st : Vm α} (hst : st.should = false) (e : Expr α α) :
    handleSimple call e st = some st := by
  simp [handleSimple, handleExpr_skip call hst, Vm.emit]

theorem handlePart_skip (call : ℕ → Vm α → Option (Vm α)) {st : Vm α} (hst : st.should = false) :
    ∀ e : Option (Expr α α), handlePart call e st = some st
  | none => rfl
  | some e => handleSimple_skip call hst e

theorem handleExpr_quiet (call : ℕ → Vm α → Option (Vm α)) (st : Vm α) (e : Expr α β) (hq : quiet e = true) :
    ∃ v, handleExpr call e st = some (v, st) := by
  induction e with
  | val v => exact ⟨_, rfl⟩
  | call f e ih => simp [quiet] at hq
  | choose v e e' ih ih' =>
    simp only [quiet, Bool.and_eq_true] at hq
    rw [handleExpr]
    split_ifs
    · exact ih hq.1
    · exact ih' hq.2

section

variable (call : ℕ → Vm α → Option (Vm α))

mutual

theorem handleStmt_idle : ∀ (s : Stmt α) (h : List α), passStmt s = true →
    handleStmt call s ⟨execIdle, h⟩ = some ⟨execIdle, h⟩
  | .simple e, h, _ => handleSimple_skip call (should_idle h) e
  | .block b, h, _ => by simp [handleStmt]
  | .ifThen c s, h, hp => by
    have hs := handleStmt_idle s h (by simpa [passStmt] using hp)
    simp [handleStmt, handleExpr_skip call (should_idle h), hs]
  | .ifElse c s t, h, hp => by
    simp only [passStmt, Bool.and_eq_true] at hp
    have hs := handleStmt_idle s h hp.1
    have ht := handleStmt_idle t h hp.2
    simp [handleStmt, handleExpr_skip call (should_idle h), hs, ht]
  | .while c s, h, hp => by
    have hs := handleStmt_idle s h (by simpa [passStmt] using hp)
    simp [handleStmt, handleExpr_skip call (should_idle h), hs, whileLoop_over _ _ _ _ maxLoops_pos]
  | .for init c iter s, h, hp => by
    simp only [passStmt, Bool.and_eq_true] at hp
    obtain ⟨⟨⟨hi, hc⟩, ht⟩, hp⟩ := hp
    have hs := handleStmt_idle s h hp
    simp [handleStmt, hi, hc, ht, handlePart_skip call (should_idle h), handleExpr_skip call (should_idle h), hs,
      forLoop_over _ _ _ _ _ maxLoops_pos]
  | .forIn _ _, _, hp => by simp [passStmt] at hp
  | .switch on cs, h, hp => by
    simpa [handleStmt, handleExpr_skip call (should_idle h)] using
      handleCases_idle none cs false h (by simpa [passStmt] using hp)
  | .brk, h, _ => by simp [handleStmt]
  | .cont, h, _ => by simp [handleStmt]
  | .ret e, h, _ => by simp [handleStmt, handleExpr_skip call (should_idle h)]
  | .call f, h, _ => by simp [handleStmt]

theorem handleBlock_idle : ∀ (b : Block α) (h : List α), passBlock b = true →
    handleBlock call b ⟨execIdle, h⟩ = some ⟨execIdle, h⟩
  | .nil, _, _ => rfl
  | .cons s b, h, hp => by
    simp only [passBlock, Bool.and_eq_true] at hp
    have hs := handleStmt_idle s h hp.1
    have hb := handleBlock_idle b h hp.2
    simp [handleBlock, hs, hb]

theorem handleCases_idle (on : Option Value) : ∀ (cs : Cases α) (x : Bool) (h : List α), passCases cs = true →
    handleCases call execIdle false on cs x ⟨execIdle, h⟩ = some ⟨execIdle, h⟩
  | .nil, _, _, _ => by simp [handleCases]
  | .default b, x, h, hp => by
    have hb := handleBlock_idle b h hp
    cases x <;> simp [handleCases, hb]
  | .case test b cs, x, h, hp => by
    simp only [passCases, Bool.and_eq_true] at hp
    have hb := handleBlock_idle b h hp.1
    have hcs := handleCases_idle on cs x h hp.2
    simp [handleCases, handleExpr_skip call (should_idle h), hb, hcs]

end

/-- A machine that jumps. -/
def Jumps (f : Flags) : Prop := f = execBreak ∨ f = execContinue

theorem Jumps.should {f : Flags} (hf : Jumps f) (h : List α) : (Vm.mk f h).should = false := by
  rcases hf with rfl | rfl <;> rfl

mutual

theorem handleStmt_keep {f : Flags} (hf : Jumps f) : ∀ (s : Stmt α) (h : List α), keepStmt s = true →
    handleStmt call s ⟨f, h⟩ = some ⟨f, h⟩
  | .simple e, h, _ => handleSimple_skip call (hf.should h) e
  | .block b, h, _ => by simp [handleStmt, hf.should]
  | .ifThen c s, _, hp => by simp [keepStmt] at hp
  | .ifElse c s t, _, hp => by simp [keepStmt] at hp
  | .while c s, _, hp => by simp [keepStmt] at hp
  | .for _ _ _ _, _, hp => by simp [keepStmt] at hp
  | .forIn _ _, _, hp => by simp [keepStmt] at hp
  | .switch on cs, h, hp => by
    simpa [handleStmt, handleExpr_skip call (hf.should h), hf.should] using
      handleCases_keep hf none cs h (by simpa [keepStmt] using hp)
  | .brk, h, _ => by simp [handleStmt, hf.should]
  | .cont, h, _ => by simp [handleStmt, hf.should]
  | .ret e, h, _ => by simp [handleStmt, handleExpr_skip call (hf.should h), hf.should]
  | .call _, h, _ => by simp [handleStmt, hf.should]

theorem handleBlock_keep {f : Flags} (hf : Jumps f) : ∀ (b : Block α) (h : List α), keepBlock b = true →
    handleBlock call b ⟨f, h⟩ = some ⟨f, h⟩
  | .nil, _, _ => rfl
  | .cons s b, h, hp => by
    simp only [keepBlock, Bool.and_eq_true] at hp
    have hs := handleStmt_keep hf s h hp.1
    have hb := handleBlock_keep hf b h hp.2
    simp [handleBlock, hs, hb]

theorem handleCases_keep {f : Flags} (hf : Jumps f) (on : Option Value) : ∀ (cs : Cases α) (h : List α),
    keepCases cs = true → handleCases call f false on cs false ⟨f, h⟩ = some ⟨f, h⟩
  | .nil, _, _ => by simp [handleCases]
  | .default b, h, hp => by
    have hb := handleBlock_keep hf b h hp
    simp [handleCases, hb]
  | .case test b cs, h, hp => by
    simp only [keepCases, Bool.and_eq_true] at hp
    have hb := handleBlock_keep hf b h hp.1
    have hcs := handleCases_keep hf on cs h hp.2
    simp [handleCases, handleExpr_skip call (hf.should h), hb, hcs]

end

theorem handleCases_break (on : Option Value) : ∀ (cs : Cases α) (h : List α), keepRest cs = true →
    handleCases call execNormal true on cs true ⟨execBreak, h⟩ = some ⟨execNormal, h⟩
  | .nil, _, _ => by simp [handleCases]
  | .default b, h, hp => by
    have hb := handleBlock_idle call b h hp
    simp [handleCases, hb]
  | .case test b cs, h, hp => by
    simp only [keepRest, Bool.and_eq_true] at hp
    obtain ⟨v, hv⟩ := handleExpr_quiet call ⟨execNormal, h⟩ test hp.1.1
    have hb := handleBlock_keep call (.inl rfl) b h hp.1.2
    have hcs := handleCases_break on cs h hp.2
    have hne : execBreak ≠ execIdle := by decide
    simp [handleCases, hv, hne, hb, hcs]

end

/-! ## Loops -/

section

/-- The engine's expression follows the specified one where it is clear. -/
def ExprFollows (jexpr : Vm α → Option (Option β × Vm α)) (expr : List α → Option (β × List α))
    (clear : List α → Bool) : Prop :=
  ∀ h v h1, clear h = true → expr h = some (v, h1) → jexpr ⟨execNormal, h⟩ = some (some v, ⟨execNormal, h1⟩)

/-- The engine's body follows the specified one where it is clear. -/
def Follows (jbody : Vm α → Option (Vm α)) (body : List α → Option (Completion × List α))
    (clear : List α → Bool) : Prop :=
  ∀ h o h1, clear h = true → body h = some (o, h1) → jbody ⟨execNormal, h⟩ = some ⟨o.flag, h1⟩

/-- An initialiser or an iterator. -/
def PartFollows (jpart : Vm α → Option (Vm α)) (part : List α → Option (List α)) (clear : List α → Bool) : Prop :=
  ∀ h h1, clear h = true → part h = some h1 → jpart ⟨execNormal, h⟩ = some ⟨execNormal, h1⟩

variable {jtest : Vm α → Option (Option Bool × Vm α)} {test : List α → Option (Bool × List α)}
  {jiter : Vm α → Option (Vm α)} {iter : List α → Option (List α)}
  {jbody : Vm α → Option (Vm α)} {body : List α → Option (Completion × List α)}
  {clearT clearI clear : List α → Bool}

theorem esRound_cases {next : List α → Option (Completion × List α)} {h h2 : List α} {o : Completion}
    (he : esRound body next h = some (o, h2)) :
    body h = some (.brk, h2) ∧ o = .normal ∨ body h = some (.ret, h2) ∧ o = .ret ∨
      ∃ o1 h1, (o1 = .normal ∨ o1 = .cont) ∧ body h = some (o1, h1) ∧ next h1 = some (o, h2) := by
  obtain ⟨⟨o1, h1⟩, hbody, he⟩ := Option.bind_eq_some_iff.1 he
  cases o1 with
  | brk =>
    cases he
    exact .inl ⟨hbody, rfl⟩
  | ret =>
    cases he
    exact .inr (.inl ⟨hbody, rfl⟩)
  | normal => exact .inr (.inr ⟨.normal, h1, .inl rfl, hbody, he⟩)
  | cont => exact .inr (.inr ⟨.cont, h1, .inr rfl, hbody, he⟩)

theorem post_goesOn {o : Completion} (ho : o = .normal ∨ o = .cont) (h : List α) :
    (Vm.mk o.flag h).post = (⟨execNormal, h⟩, false) := by
  rcases ho with rfl | rfl <;> rfl

theorem whileLoop_test (ht : ExprFollows jtest test clearT) {k : ℕ} {h h2 : List α} {o : Completion}
    (hcl : clearT h = true)
    (he : ((test h).bind fun r =>
      if r.1 then esRound body (fun h1 => (some h1).bind (esLoop test some body k)) r.2
      else some (.normal, r.2)) = some (o, h2))
    (next : ∀ h1, test h = some (true, h1) →
      esRound body (fun h1 => (some h1).bind (esLoop test some body k)) h1 = some (o, h2) →
      ((jbody ⟨execNormal, h1⟩).bind fun st1 => whileLoop jtest jbody (k + 1) true st1.post.2 st1.post.1) =
        some ⟨o.flag, h2⟩) :
    whileLoop jtest jbody (k + 2) true false ⟨execNormal, h⟩ = some ⟨o.flag, h2⟩ := by
  obtain ⟨⟨b, h1⟩, htest, he⟩ := Option.bind_eq_some_iff.1 he
  have hj := ht h b h1 hcl htest
  cases b with
  | true => simpa [whileLoop, hj] using next h1 htest he
  | false =>
    cases he
    simp [whileLoop, hj, Completion.flag]

theorem whileLoop_follows (ht : ExprFollows jtest test clearT) (hb : Follows jbody body clear)
    (hidle : ∀ h, jtest ⟨execIdle, h⟩ = some (none, ⟨execIdle, h⟩)) {o : Completion} {h2 : List α} :
    ∀ (k : ℕ) (h : List α), clearWhile test body clearT clear k h = true →
      esRound body (fun h1 => (some h1).bind (esLoop test some body k)) h = some (o, h2) →
      ((jbody ⟨execNormal, h⟩).bind fun st1 => whileLoop jtest jbody (k + 1) true st1.post.2 st1.post.1) =
        some ⟨o.flag, h2⟩ := by
  intro k
  induction k with
  | zero =>
    intro h hcl he
    rw [clearWhile, Bool.and_eq_true] at hcl
    rcases esRound_cases he with ⟨hbody, rfl⟩ | ⟨hbody, -⟩ | ⟨o1, h1, ho, hbody, -⟩
    · simp [hb h _ h2 hcl.1 hbody, Completion.flag, whileLoop]
    · simp [hbody] at hcl
    · rcases ho with rfl | rfl <;> simp [hbody] at hcl
  | succ k ih =>
    intro h hcl he
    rw [clearWhile, Bool.and_eq_true] at hcl
    rcases esRound_cases he with ⟨hbody, rfl⟩ | ⟨hbody, rfl⟩ | ⟨o1, h1, ho, hbody, he⟩
    · simp [hb h _ h2 hcl.1 hbody, Completion.flag, whileLoop]
    · simp [hb h _ h2 hcl.1 hbody, Completion.flag, whileLoop, hidle]
    · -- the next test, after a body that goes on
      have hcl1 : clearTest test clearT (clearWhile test body clearT clear k) h1 = true := by
        rcases ho with rfl | rfl <;> simpa [hbody] using hcl.2
      rw [clearTest, Bool.and_eq_true] at hcl1
      rw [hb h o1 h1 hcl.1 hbody, Option.bind_some, post_goesOn ho]
      refine whileLoop_test ht hcl1.1 he fun h3 htest he3 => ih h3 ?_ he3
      simpa [htest] using hcl1.2

theorem forLoop_test (ht : ExprFollows jtest test clearT) {k : ℕ} {h h2 : List α} {o : Completion}
    (hcl : clearT h = true)
    (he : ((test h).bind fun r =>
      if r.1 then esRound body (fun h1 => (iter h1).bind (esLoop test iter body k)) r.2
      else some (.normal, r.2)) = some (o, h2))
    (next : ∀ h1, test h = some (true, h1) →
      esRound body (fun h1 => (iter h1).bind (esLoop test iter body k)) h1 = some (o, h2) →
      ((jbody ⟨execNormal, h1⟩).bind fun st1 =>
        (jiter st1.post.1).bind (forLoop jtest jiter jbody (k + 1) true st1.post.2)) = some ⟨o.flag, h2⟩) :
    forLoop jtest jiter jbody (k + 2) true false ⟨execNormal, h⟩ = some ⟨o.flag, h2⟩ := by
  obtain ⟨⟨b, h1⟩, htest, he⟩ := Option.bind_eq_some_iff.1 he
  have hj := ht h b h1 hcl htest
  cases b with
  | true => simpa [forLoop, hj] using next h1 htest he
  | false =>
    cases he
    simp [forLoop, hj, Completion.flag]

theorem forLoop_follows (ht : ExprFollows jtest test clearT) (hi : PartFollows jiter iter clearI)
    (hb : Follows jbody body clear) (hidle : ∀ h, jiter ⟨execIdle, h⟩ = some ⟨execIdle, h⟩)
    {o : Completion} {h2 : List α} :
    ∀ (k : ℕ) (h : List α), clearFor test iter body clearT clearI clear k h = true →
      esRound body (fun h1 => (iter h1).bind (esLoop test iter body k)) h = some (o, h2) →
      ((jbody ⟨execNormal, h⟩).bind fun st1 =>
        (jiter st1.post.1).bind (forLoop jtest jiter jbody (k + 1) true st1.post.2)) = some ⟨o.flag, h2⟩ := by
  intro k
  induction k with
  | zero =>
    intro h hcl he
    rw [clearFor, Bool.and_eq_true] at hcl
    rcases esRound_cases he with ⟨hbody, -⟩ | ⟨hbody, rfl⟩ | ⟨o1, h1, ho, hbody, -⟩
    · simp [hbody] at hcl
    · simp [hb h _ h2 hcl.1 hbody, Completion.flag, forLoop, hidle]
    · rcases ho with rfl | rfl <;> simp [hbody] at hcl
  | succ k ih =>
    intro h hcl he
    rw [clearFor, Bool.and_eq_true] at hcl
    rcases esRound_cases he with ⟨hbody, -⟩ | ⟨hbody, rfl⟩ | ⟨o1, h1, ho, hbody, he⟩
    · simp [hbody] at hcl
    · simp [hb h _ h2 hcl.1 hbody, Completion.flag, forLoop, hidle]
    · -- the iterator and the next test, after a body that goes on
      obtain ⟨h3, hiter, he⟩ := Option.bind_eq_some_iff.1 he
      have hcl1 : clearI h1 = true ∧
          clearTest test clearT (clearFor test iter body clearT clearI clear k) h3 = true := by
        rcases ho with rfl | rfl <;> simpa [hbody, hiter] using hcl.2
      rw [clearTest, Bool.and_eq_true] at hcl1
      rw [hb h o1 h1 hcl.1 hbody, Option.bind_some, post_goesOn ho]
      rw [hi h1 h3 hcl1.1 hiter, Option.bind_some]
      refine forLoop_test ht hcl1.2.1 he fun h4 htest he4 => ih h4 ?_ he4
      simpa [htest] using hcl1.2.2

theorem forInLoop_stop (jbody : Vm α → Option (Vm α)) (xs : List α) (st : Vm α) :
    forInLoop jbody xs true st = some st := by
  cases xs <;> simp [forInLoop]

theorem forInLoop_idle (jbody : Vm α → Option (Vm α)) (xs : List α) (h : List α) :
    forInLoop jbody xs false ⟨execIdle, h⟩ = some ⟨execIdle, h⟩ := by
  cases xs <;> simp [forInLoop]

theorem forInLoop_follows (hb : Follows jbody body clear) {o : Completion} {h2 : List α} :
    ∀ (xs h : List α), clearForIn body clear xs h = true → esForIn body xs h = some (o, h2) →
      forInLoop jbody xs false ⟨execNormal, h⟩ = some ⟨o.flag, h2⟩ := by
  intro xs
  induction xs with
  | nil =>
    intro h _ he
    cases he
    rfl
  | cons x xs ih =>
    intro h hcl he
    rw [clearForIn, Bool.and_eq_true] at hcl
    rcases esRound_cases he with ⟨hbody, rfl⟩ | ⟨hbody, rfl⟩ | ⟨o1, h1, ho, hbody, he⟩
    · simp [forInLoop, hb _ _ h2 hcl.1 hbody, Completion.flag, forInLoop_stop]
    · simp [forInLoop, hb _ _ h2 hcl.1 hbody, Completion.flag, forInLoop_idle]
    · have hcl1 : clearForIn body clear xs h1 = true := by
        rcases ho with rfl | rfl <;> simpa [hbody] using hcl.2
      simpa [forInLoop, hb _ o1 h1 hcl.1 hbody, post_goesOn ho] using ih h1 hcl1 he

end

/-! ## Statements -/

theorem mathsEqual_self (v : Value) : mathsEqual v v = true := by
  cases v <;> simp [mathsEqual]

section

variable {call : ℕ → Vm α → Option (Vm α)} {es : ℕ → List α → Option (List α)} {clearC : ℕ → List α → Bool}

/-- The engine's calls follow the specified ones. -/
def CallFollows (call : ℕ → Vm α → Option (Vm α)) (es : ℕ → List α → Option (List α))
    (clearC : ℕ → List α → Bool) : Prop :=
  ∀ f, PartFollows (call f) (es f) (clearC f)

theorem handleExpr_follows (hf : CallFollows call es clearC) (e : Expr α β) :
    ExprFollows (handleExpr call e) (esExpr es e) (clearExpr es clearC e) := by
  induction e with
  | val v =>
    intro h x h1 _ he
    cases he
    rfl
  | call f e ih =>
    intro h x h1 hcl he
    rw [clearExpr, Bool.and_eq_true] at hcl
    rw [esExpr] at he
    obtain ⟨h2, hes, he⟩ := Option.bind_eq_some_iff.1 he
    have hj := hf f h h2 hcl.1 hes
    simp only [hes] at hcl
    simp [handleExpr, hj, ih h2 x h1 hcl.2 he]
  | choose v e e' ih ih' =>
    intro h x h1 hcl he
    rw [clearExpr] at hcl
    rw [esExpr] at he
    rw [handleExpr]
    split_ifs at hcl he ⊢
    · exact ih h x h1 hcl he
    · exact ih' h x h1 hcl he

theorem handleSimple_follows (hf : CallFollows call es clearC) (e : Expr α α) :
    PartFollows (handleSimple call e) (esSimple es e) (clearExpr es clearC e) := by
  intro h h1 hcl he
  obtain ⟨⟨x, h2⟩, hes, rfl⟩ := Option.map_eq_some_iff.1 he
  simp [handleSimple, handleExpr_follows hf e h x h2 hcl hes]

theorem handlePart_follows (hf : CallFollows call es clearC) : ∀ e : Option (Expr α α),
    PartFollows (handlePart call e) (esPart es e) (clearPart es clearC e)
  | none, _, _, hcl, _ => by simp [clearPart] at hcl
  | some e, h, h1, hcl, he => handleSimple_follows hf e h h1 hcl he

theorem clearPart_isSome {e : Option (Expr α α)} {h : List α} (hcl : clearPart es clearC e h = true) :
    e.isSome = true := by
  cases e with
  | none => simp [clearPart] at hcl
  | some e => rfl

/-- The flags of a machine among the clauses of a `switch`. -/
def caseFlag (found : Bool) : Flags := if found then execNormal else execIdle

theorem handleCases_case (hf : CallFollows call es clearC) {on : Value} {test : Expr α Value} {b : Block α}
    {cs : Cases α} {found found' : Bool} {h h1 : List α} (hcl : clearClause es clearC on test found h = true)
    (he : esClause es on test found h = some (found', h1)) :
    handleCases call execNormal true (some on) (.case test b cs) found ⟨caseFlag found, h⟩ =
      (handleBlock call b ⟨caseFlag found', h1⟩).bind (handleCases call execNormal true (some on) cs found') := by
  have hne : execNormal ≠ execIdle := by decide
  rw [clearClause] at hcl
  rw [esClause] at he
  cases found with
  | true =>
    simp only [if_true, Option.some.injEq, Prod.mk.injEq] at hcl he
    obtain ⟨rfl, rfl⟩ := he
    obtain ⟨v, hv⟩ := handleExpr_quiet call ⟨execNormal, h⟩ test hcl
    simp [handleCases, caseFlag, hv, hne]
  | false =>
    simp only [Bool.false_eq_true, if_false, Bool.and_eq_true] at hcl he
    obtain ⟨⟨v, h2⟩, hes, he⟩ := Option.map_eq_some_iff.1 he
    simp only [Prod.mk.injEq] at he
    obtain ⟨rfl, rfl⟩ := he
    have hv := handleExpr_follows hf test h v h2 hcl.1 hes
    simp only [hes, Bool.or_eq_true, decide_eq_true_eq, Bool.not_eq_true'] at hcl
    -- `==` agrees with `===` on this value
    have heq : mathsEqual on v = decide (on = v) := by
      by_cases hov : on = v
      · simp [hov, mathsEqual_self]
      · simpa [hov] using hcl.2
    by_cases hov : on = v
    · simp [handleCases, caseFlag, hv, hov, mathsEqual_self]
    · simp [handleCases, caseFlag, hv, heq, hov]

variable [DecidableEq α]

mutual

theorem handleStmt_follows (hf : CallFollows call es clearC) : ∀ s : Stmt α,
    Follows (handleStmt call s) (esStmt es s) (clearStmt es clearC s)
  | .simple e, h, o, h1, hcl, he => by
    rw [clearStmt] at hcl
    rw [esStmt] at he
    obtain ⟨h2, hes, he⟩ := Option.map_eq_some_iff.1 he
    cases he
    simpa [handleStmt, Completion.flag] using handleSimple_follows hf e h h1 hcl hes
  | .block b, h, o, h1, hcl, he => by
    simpa [handleStmt] using handleBlock_follows hf b h o h1 (by simpa [clearStmt] using hcl) he
  | .ifThen c s, h, o, h1, hcl, he => by
    rw [clearStmt, Bool.and_eq_true] at hcl
    rw [esStmt] at he
    obtain ⟨⟨v, h2⟩, hes, he⟩ := Option.bind_eq_some_iff.1 he
    have hc := handleExpr_follows hf c h v h2 hcl.1 hes
    simp only [hes] at hcl
    cases v with
    | true =>
      have hs := handleStmt_follows hf s h2 o h1 hcl.2 he
      simp [handleStmt, hc, hs]
    | false =>
      cases he
      have hs := handleStmt_idle call s h2 hcl.2
      simp [handleStmt, hc, hs, Completion.flag]
  | .ifElse c s t, h, o, h1, hcl, he => by
    rw [clearStmt, Bool.and_eq_true] at hcl
    rw [esStmt] at he
    obtain ⟨⟨v, h2⟩, hes, he⟩ := Option.bind_eq_some_iff.1 he
    have hc := handleExpr_follows hf c h v h2 hcl.1 hes
    simp only [hes] at hcl
    cases v with
    | true =>
      simp only [if_true] at he
      simp only [Bool.and_eq_true, he] at hcl
      have hs := handleStmt_follows hf s h2 o h1 hcl.2.1.1 he
      have ht := handleStmt_idle call t h1 hcl.2.1.2
      cases o with
      | brk => simp at hcl
      | cont => simp at hcl
      | normal => simp [handleStmt, hc, hs, ht, Completion.flag]
      | ret => simp [handleStmt, hc, hs, ht, Completion.flag]
    | false =>
      simp only [Bool.and_eq_true] at hcl
      have hs := handleStmt_idle call s h2 hcl.2.1
      have ht := handleStmt_follows hf t h2 o h1 hcl.2.2 he
      simp [handleStmt, hc, hs, ht]
  | .while c s, h, o, h1, hcl, he => by
    rw [clearStmt, Bool.and_eq_true] at hcl
    rw [esStmt, maxLoops_succ, esLoop] at he
    obtain ⟨⟨v, h2⟩, hes, he⟩ := Option.bind_eq_some_iff.1 he
    have hc := handleExpr_follows hf c h v h2 hcl.1 hes
    simp only [hes] at hcl
    cases v with
    | true =>
      have hs := whileLoop_follows (handleExpr_follows hf c) (handleStmt_follows hf s)
        (fun h => handleExpr_skip call (should_idle h) c) 8191 h2 hcl.2 he
      rw [← maxLoops_succ] at hs
      simpa [handleStmt, hc] using hs
    | false =>
      cases he
      have hs := handleStmt_idle call s h2 hcl.2
      simp [handleStmt, hc, hs, whileLoop_over _ _ _ _ maxLoops_pos, Completion.flag]
  | .for init c iter s, h, o, h1, hcl, he => by
    simp only [clearStmt, Bool.and_eq_true] at hcl
    rw [esStmt] at he
    obtain ⟨⟨⟨hinit, hc⟩, ht⟩, hcl⟩ := hcl
    have hi := clearPart_isSome hinit
    obtain ⟨h2, hesi, he⟩ := Option.bind_eq_some_iff.1 he
    have hji := handlePart_follows hf init h h2 hinit hesi
    rw [maxLoops_succ, esLoop] at he
    obtain ⟨⟨v, h3⟩, hes, he⟩ := Option.bind_eq_some_iff.1 he
    simp only [hesi, hes, Bool.and_eq_true] at hcl
    have hjc := handleExpr_follows hf (forCond c) h2 v h3 hcl.1 hes
    cases v with
    | true =>
      have hs := forLoop_follows (handleExpr_follows hf (forCond c)) (handlePart_follows hf iter)
        (handleStmt_follows hf s) (fun h => handlePart_skip call (should_idle h) iter) 8191 h3 hcl.2 he
      rw [← maxLoops_succ] at hs
      simpa [handleStmt, hi, hc, ht, hji, hjc] using hs
    | false =>
      cases he
      have hs := handleStmt_idle call s h3 hcl.2
      simp [handleStmt, hi, hc, ht, hji, hjc, hs, forLoop_over _ _ _ _ _ maxLoops_pos, Completion.flag]
  | .forIn names s, h, o, h1, hcl, he => by
    simp only [clearStmt, Bool.and_eq_true] at hcl
    rw [esStmt] at he
    obtain ⟨⟨xs, h2⟩, hes, he⟩ := Option.bind_eq_some_iff.1 he
    have hj := handleExpr_follows hf names h xs h2 hcl.1.1 hes
    simp only [hes] at hcl
    have hp := handleStmt_idle call s h2 hcl.1.2
    have hs := forInLoop_follows (handleStmt_follows hf s) xs h2 hcl.2 he
    simp [handleStmt, hj, hp, hs]
  | .switch on cs, h, o, h1, hcl, he => by
    rw [clearStmt, Bool.and_eq_true] at hcl
    rw [esStmt] at he
    obtain ⟨⟨v, h2⟩, hes, he⟩ := Option.bind_eq_some_iff.1 he
    have hj := handleExpr_follows hf on h v h2 hcl.1 hes
    simp only [hes] at hcl
    obtain ⟨⟨o2, h3⟩, hcs, he⟩ := Option.map_eq_some_iff.1 he
    cases he
    simpa [handleStmt, hj, caseFlag] using handleCases_follows hf v cs false h2 o2 h3 hcl.2 hcs
  | .brk, h, o, h1, _, he => by
    cases he
    simp [handleStmt, Completion.flag]
  | .cont, h, o, h1, _, he => by
    cases he
    simp [handleStmt, Completion.flag]
  | .ret e, h, o, h1, hcl, he => by
    rw [clearStmt] at hcl
    rw [esStmt] at he
    obtain ⟨⟨v, h2⟩, hes, he⟩ := Option.map_eq_some_iff.1 he
    cases he
    simp [handleStmt, handleExpr_follows hf e h v h2 hcl hes, Completion.flag]
  | .call f, h, o, h1, hcl, he => by
    rw [clearStmt] at hcl
    rw [esStmt] at he
    obtain ⟨h2, hes, he⟩ := Option.map_eq_some_iff.1 he
    cases he
    simpa [handleStmt, Completion.flag] using hf f h h1 hcl hes

theorem handleBlock_follows (hf : CallFollows call es clearC) : ∀ b : Block α,
    Follows (handleBlock call b) (esBlock es b) (clearBlock es clearC b)
  | .nil, h, o, h1, _, he => by
    cases he
    rfl
  | .cons s b, h, o, h1, hcl, he => by
    rw [clearBlock, Bool.and_eq_true] at hcl
    rw [esBlock] at he
    obtain ⟨⟨o2, h2⟩, hes, he⟩ := Option.bind_eq_some_iff.1 he
    have hs := handleStmt_follows hf s h o2 h2 hcl.1 hes
    simp only [hes] at hcl
    cases o2 with
    | normal =>
      have hb := handleBlock_follows hf b h2 o h1 hcl.2 he
      simpa [handleBlock, hs, Completion.flag] using hb
    | brk =>
      cases he
      have hb := handleBlock_keep call (.inl rfl) b h2 hcl.2
      simpa [handleBlock, hs, Completion.flag] using hb
    | cont =>
      cases he
      have hb := handleBlock_keep call (.inr rfl) b h2 hcl.2
      simpa [handleBlock, hs, Completion.flag] using hb
    | ret =>
      cases he
      have hb := handleBlock_idle call b h2 hcl.2
      simpa [handleBlock, hs, Completion.flag] using hb

/-- The clauses, idle up to the first that is equal and executed from there on. -/
theorem handleCases_follows (hf : CallFollows call es clearC) (on : Value) :
    ∀ (cs : Cases α) (found : Bool) (h : List α) (o : Completion) (h1 : List α),
      clearCases es clearC on cs found h = true → esCases es on cs found h = some (o, h1) →
      handleCases call execNormal true (some on) cs found ⟨caseFlag found, h⟩ = some ⟨o.endSwitch.flag, h1⟩
  | .nil, found, h, o, h1, _, he => by
    cases he
    cases found <;> rfl
  | .default b, found, h, o, h1, hcl, he => by
    have hne : execNormal ≠ execBreak := by decide
    have hne' : execIdle ≠ execBreak := by decide
    rw [esCases] at he
    cases found with
    | true =>
      simp only [clearCases, if_true, Bool.and_eq_true, Bool.or_eq_true, decide_eq_true_eq, he,
        Option.some.injEq, Prod.mk.injEq] at hcl
      obtain ⟨hp, ho⟩ := hcl
      have hb := handleBlock_idle call b h hp
      rcases ho with ⟨rfl, rfl⟩ | ⟨rfl, rfl⟩ <;>
        simp [handleCases, caseFlag, hb, hne, Completion.endSwitch, Completion.flag]
    | false =>
      simp only [clearCases, Bool.false_eq_true, if_false, Bool.and_eq_true, he] at hcl
      have hb := handleBlock_follows hf b h o h1 hcl.1 he
      cases o with
      | normal => simp [handleCases, caseFlag, hne', hb, Completion.flag, Completion.endSwitch]
      | brk => simp at hcl
      | cont => simp at hcl
      | ret => simp at hcl
  | .case test b cs, found, h, o, h1, hcl, he => by
    rw [clearCases, Bool.and_eq_true] at hcl
    rw [esCases] at he
    obtain ⟨⟨found', h2⟩, hes, he⟩ := Option.bind_eq_some_iff.1 he
    rw [handleCases_case hf hcl.1 hes]
    simp only [hes] at hcl
    cases found' with
    | true =>
      obtain ⟨⟨o2, h3⟩, hblock, he⟩ := Option.bind_eq_some_iff.1 he
      simp only [Bool.and_eq_true, hblock] at hcl
      have hb := handleBlock_follows hf b h2 o2 h3 hcl.2.1 hblock
      simp only [caseFlag, if_true, hb, Option.bind_some]
      cases o2 with
      | normal => exact handleCases_follows hf on cs true h3 o h1 hcl.2.2 he
      | brk =>
        cases he
        exact handleCases_break call (some on) cs h3 hcl.2.2
      | cont => simp at hcl
      | ret => simp at hcl
    | false =>
      simp only [Bool.and_eq_true] at hcl
      have hb := handleBlock_idle call b h2 hcl.2.1
      have hcs := handleCases_follows hf on cs false h2 o h1 hcl.2.2 he
      simpa [caseFlag, hb] using hcs

end

end

/-! ## Programs -/

theorem handleCall_follows [DecidableEq α] (funs : ℕ → Block α) (n : ℕ) :
    CallFollows (handleCall funs n) (esCall funs n) (clearCall funs n) := by
  induction n with
  | zero =>
    intro f h h1 _ he
    simp [esCall] at he
  | succ n ih =>
    intro f h h1 hcl he
    rw [clearCall] at hcl
    rw [esCall] at he
    obtain ⟨⟨o, h2⟩, hes, he⟩ := Option.bind_eq_some_iff.1 he
    have hb := handleBlock_follows ih (funs f) h o h2 hcl hes
    cases o with
    | normal =>
      cases he
      simp [handleCall, handleStmt, hb, Completion.flag]
    | ret =>
      cases he
      simp [handleCall, handleStmt, hb, Completion.flag]
    | brk => simp at he
    | cont => simp at he

/-- A program that ends is executed as ECMAScript 5.1 executes it, and the machine goes on normally. -/
def Faithful (n : ℕ) (p : Prog α) : Prop :=
  ∀ h, esProg n p = some (.normal, h) → evalString n p = some ⟨execNormal, h⟩

theorem evalString_faithful [DecidableEq α] (n : ℕ) (p : Prog α) (hcl : clearProg n p = true) : Faithful n p := by
  intro h he
  exact handleBlock_follows (handleCall_follows p.funs n) p.main [] .normal h hcl he

/-- A function with a `while` that returns, a for-in over a `switch`, and a `for` with a `continue`
that calls a function in its condition. -/
theorem evalString_faithful_nested :
    let s (a : ℕ) : Stmt ℕ := .simple (.val fun _ => a)
    let body : Block ℕ :=
      .cons (s 1) (.cons (.ifThen (.val fun h => h.length == 3) (.ret (.val fun _ => ()))) (.cons (s 7) .nil))
    let clauses : Cases ℕ :=
      .case (.val fun _ => .int 10) (.cons (s 20) (.cons .brk .nil))
        (.case (.val fun _ => .int 11) (.cons (s 21) .nil) .nil)
    let p : Prog ℕ :=
      ⟨fun f => if f = 0 then .cons (.while (.val fun h => h.length < 5) (.block body)) .nil else .cons (s 5) .nil,
        .cons (.call 0)
          (.cons (.forIn (.val fun _ => [10, 11])
            (.block (.cons (.switch (.val fun h => .int (h.getLastD 0)) clauses) .nil)))
            (.cons (.for (some (.val fun _ => 30)) (some (.call 1 (.val fun h => h.length < 13)))
              (some (.val fun _ => 31))
              (.block (.cons (.ifThen (.val fun h => h.length == 9) .cont) (.cons (s 32) .nil)))) .nil))⟩
    clearProg 1 p = true ∧ Faithful 1 p ∧
      esProg 1 p = some (.normal, [1, 7, 1, 10, 20, 11, 21, 30, 5, 31, 5, 32, 31, 5]) :=
  ⟨by decide, evalString_faithful 1 _ (by decide), by decide⟩

/-- `while (true) { if (true) break; else s1; } s2;`: the `else` loses the `break`. -/
theorem evalString_loses_break : ¬∀ (n : ℕ) (p : Prog ℕ), Faithful n p := by
  intro hall
  have h := hall 0
    ⟨fun _ => .nil,
      .cons (.while (.val fun _ => true)
          (.block (.cons (.ifElse (.val fun _ => true) .brk (.simple (.val fun _ => 1))) .nil)))
        (.cons (.simple (.val fun _ => 2)) .nil)⟩
    [2] rfl
  exact absurd h (by decide)

end Jse.Script
