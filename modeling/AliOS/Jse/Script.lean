/-
  Statements of the script engine (`bone_engine/jse/be_jse_executor.c`): what
  `handle_statement_syntax` executes of them, and what ECMAScript 5.1 executes.

  A program is kept as its syntax tree, and what it has executed as the list of its simple
  statements, with the initialisers and iterators of `for` and the names bound by for-in.  Of an
  expression the calls are kept in their order, and its value as a function of that list; how the
  engine groups operators is not looked at here.  Functions are looked up in a table.
-/
import Mathlib.Data.Int.Notation
import Mathlib.Data.Nat.Notation

namespace Jse.Script

/-- What a `switch` compares: integers and strings. -/
inductive Value
  | int (v : ℤ)
  | str (s : String)
  deriving DecidableEq

/-- An expression with values in `β`: calls, choices such as `&&` and `?:`, and the value. -/
inductive Expr (α β : Type)
  | val (v : List α → β)
  | call (f : ℕ) (e : Expr α β)
  | choose (v : List α → Bool) (e e' : Expr α β)

mutual

/-- A simple statement is an expression with the statement for its value; of a `return` only the
calls are kept. -/
inductive Stmt (α : Type)
  | simple (e : Expr α α)
  | block (b : Block α)
  | ifThen (c : Expr α Bool) (s : Stmt α)
  | ifElse (c : Expr α Bool) (s t : Stmt α)
  | while (c : Expr α Bool) (s : Stmt α)
  | for (init : Option (Expr α α)) (c : Option (Expr α Bool)) (iter : Option (Expr α α)) (s : Stmt α)
  | forIn (names : Expr α (List α)) (s : Stmt α)
  | switch (on : Expr α Value) (cs : Cases α)
  | brk
  | cont
  | ret (e : Expr α Unit)
  | call (f : ℕ)

inductive Block (α : Type)
  | nil
  | cons (s : Stmt α) (b : Block α)

/-- The clauses of a `switch`, a `default` only at the end. -/
inductive Cases (α : Type)
  | nil
  | default (b : Block α)
  | case (test : Expr α Value) (b : Block α) (cs : Cases α)

end

structure Prog (α : Type) where
  funs : ℕ → Block α
  main : Block α

/-- `BE_JSE_PARSE_MAX_LOOPS` -/
def maxLoops : ℕ := 8192

variable {α β : Type}

/-- The condition of a `for`; one that is left out holds. -/
def forCond (c : Option (Expr α Bool)) : Expr α Bool := c.getD (.val fun _ => true)

/-! ## The engine -/

/-- `vm.execute` without `EXEC_ERROR` -/
structure Flags where
  normal : Bool
  brk : Bool
  cont : Bool
  deriving DecidableEq

def execNormal : Flags := ⟨true, false, false⟩

def execIdle : Flags := ⟨false, false, false⟩

def execBreak : Flags := ⟨false, true, false⟩

def execContinue : Flags := ⟨false, false, true⟩

/-- The virtual machine.  A run that raises `EXEC_ERROR` has no result. -/
structure Vm (α : Type) where
  execute : Flags
  out : List α
  deriving DecidableEq

namespace Vm

/-- `BE_VM_PARSE_SHOULD_EXECUTE` -/
def should (st : Vm α) : Bool := decide (st.execute = execNormal)

/-- `set_vm_idle` -/
def idle (st : Vm α) : Vm α := { st with execute := execIdle }

/-- `BE_RESTORE_VM_EXE_STATE` -/
def restore (old : Flags) (st : Vm α) : Vm α := { st with execute := { st.execute with normal := old.normal } }

def idleUnless (b : Bool) (st : Vm α) : Vm α := if b then st else st.idle

def restoreUnless (b : Bool) (old : Flags) (st : Vm α) : Vm α := if b then st else st.restore old

def emit (as : List α) (st : Vm α) : Vm α := { st with out := st.out ++ as }

/-- What the loops do after their body; the flag is `hasHadBreak`. -/
def post (st : Vm α) : Vm α × Bool :=
  let st1 := if st.execute = execContinue then { st with execute := execNormal } else st
  if st1.execute = execBreak then ({ st1 with execute := execNormal }, true) else (st1, false)

end Vm

/-- `symbol_maths_op` with `==`: two integers are compared as such, else as strings. -/
def mathsEqual : Value → Value → Bool
  | .int a, .int b => a == b
  | .int a, .str t => toString a == t
  | .str s, .int b => s == toString b
  | .str s, .str t => s == t

/-- `handle_base_expr`; the value is null where the machine does not execute. -/
def handleExpr (call : ℕ → Vm α → Option (Vm α)) : Expr α β → Vm α → Option (Option β × Vm α)
  | .val v, st => some (if st.should then some (v st.out) else none, st)
  | .call f e, st => (if st.should then call f st else some st).bind (handleExpr call e)
  | .choose v e e', st => if v st.out then handleExpr call e st else handleExpr call e' st

def handleSimple (call : ℕ → Vm α → Option (Vm α)) (e : Expr α α) (st : Vm α) : Option (Vm α) :=
  (handleExpr call e st).map fun r => r.2.emit r.1.toList

/-- The initialiser and the iterator of a `for`. -/
def handlePart (call : ℕ → Vm α → Option (Vm α)) : Option (Expr α α) → Vm α → Option (Vm α)
  | none, st => some st
  | some e, st => handleSimple call e st

/-- The loop of a `while` after its first test; the number is `loopCount`. -/
def whileLoop (c : Vm α → Option (Option Bool × Vm α)) (body : Vm α → Option (Vm α)) :
    ℕ → Bool → Bool → Vm α → Option (Vm α)
  | 0, _, _, _ => none
  | k + 1, loopCond, hadBreak, st =>
    if hadBreak || !loopCond then some st
    else
      (c st).bind fun r =>
        if r.1.getD false then (body r.2).bind fun st1 => whileLoop c body k true st1.post.2 st1.post.1
        else whileLoop c body k false false r.2

/-- The loop of a `for` after its first round; the iterator follows a body that breaks, too. -/
def forLoop (c : Vm α → Option (Option Bool × Vm α)) (iter body : Vm α → Option (Vm α)) :
    ℕ → Bool → Bool → Vm α → Option (Vm α)
  | 0, _, _, _ => none
  | k + 1, loopCond, hadBreak, st =>
    if hadBreak || !st.should || !loopCond then some st
    else
      (c st).bind fun r =>
        if r.1.getD false then
          (body r.2).bind fun st1 => (iter st1.post.1).bind (forLoop c iter body k true st1.post.2)
        else forLoop c iter body k false false r.2

def forInLoop (body : Vm α → Option (Vm α)) : List α → Bool → Vm α → Option (Vm α)
  | [], _, st => some st
  | x :: xs, hadBreak, st =>
    if st.should && !hadBreak then
      (body (st.emit [x])).bind fun st1 => forInLoop body xs st1.post.2 st1.post.1
    else some st

mutual

/-- `handle_statement_syntax` and `handle_block_or_statement` -/
def handleStmt (call : ℕ → Vm α → Option (Vm α)) : Stmt α → Vm α → Option (Vm α)
  | .simple e, st => handleSimple call e st
  | .block b, st => if st.should then handleBlock call b st else some st
  | .ifThen c s, st =>
    (handleExpr call c st).bind fun r =>
      let cond := r.1.getD false
      (handleStmt call s (r.2.idleUnless cond)).bind fun st1 => some (st1.restoreUnless cond r.2.execute)
  | .ifElse c s t, st =>
    (handleExpr call c st).bind fun r =>
      let cond := r.1.getD false
      (handleStmt call s (r.2.idleUnless cond)).bind fun st1 =>
        let st2 := st1.restoreUnless cond r.2.execute
        (handleStmt call t (st2.idleUnless !cond)).bind fun st3 => some (st3.restoreUnless (!cond) st2.execute)
  | .while c s, st =>
    (handleExpr call c st).bind fun r =>
      let loopCond := r.1.getD false
      (handleStmt call s (r.2.idleUnless loopCond)).bind fun st1 =>
        whileLoop (handleExpr call c) (handleStmt call s) maxLoops loopCond st1.post.2
          (st1.post.1.restoreUnless loopCond r.2.execute)
  | .for init c iter s, st =>
    -- an empty part does not parse
    if init.isSome && c.isSome && iter.isSome then
      (handlePart call init st).bind fun st0 =>
        (handleExpr call (forCond c) st0).bind fun r =>
          let loopCond := r.1.getD false
          -- the iterator is passed once with the machine idle
          let st1 := r.2.idle.restore r.2.execute
          (handleStmt call s (st1.idleUnless loopCond)).bind fun st2 =>
            let st3 := st2.post.1.restoreUnless loopCond st1.execute
            (if loopCond then handlePart call iter st3 else some st3).bind
              (forLoop (handleExpr call (forCond c)) (handlePart call iter) (handleStmt call s) maxLoops
                loopCond st2.post.2)
    else none
  | .forIn names s, st =>
    -- without execution there is neither a name nor an array
    if st.should then
      (handleExpr call names st).bind fun r =>
        (handleStmt call s r.2.idle).bind fun st1 =>
          forInLoop (handleStmt call s) (r.1.getD []) false (st1.restore r.2.execute)
    else none
  | .switch on cs, st =>
    (handleExpr call on st).bind fun r =>
      handleCases call r.2.execute r.2.should r.1 cs false (if r.2.should then r.2.idle else r.2)
  | .brk, st => some (if st.should then { st with execute := execBreak } else st)
  | .cont, st => some (if st.should then { st with execute := execContinue } else st)
  | .ret e, st => (handleExpr call e st).map fun r => if r.2.should then r.2.idle else r.2
  | .call f, st => if st.should then call f st else some st

/-- The statements of `handle_block_syntax` -/
def handleBlock (call : ℕ → Vm α → Option (Vm α)) : Block α → Vm α → Option (Vm α)
  | .nil, st => some st
  | .cons s b, st => (handleStmt call s st).bind (handleBlock call b)

/-- The clauses of a `switch`, with the flags it has saved, `execute` and `hasExecuted`; every
test is evaluated, also after one that was equal. -/
def handleCases (call : ℕ → Vm α → Option (Vm α)) (old : Flags) (execute : Bool) (on : Option Value) :
    Cases α → Bool → Vm α → Option (Vm α)
  | .nil, _, st =>
    some (Vm.restore old (if execute && st.execute = execBreak then { st with execute := execNormal } else st))
  | .default b, hasExecuted, st =>
    let st1 := Vm.restore old (if execute && st.execute = execBreak then { st with execute := execNormal } else st)
    (handleBlock call b (st1.idleUnless !hasExecuted)).map (Vm.restore st1.execute)
  | .case test b cs, hasExecuted, st =>
    (handleExpr call test (if execute then { st with execute := execNormal } else st)).bind fun r =>
      let st1 : Vm α := { r.2 with execute := st.execute }
      let cond := execute && on.any fun a => r.1.any (mathsEqual a)
      (handleBlock call b
          (if cond && st1.execute = execIdle then { st1 with execute := execNormal } else st1)).bind
        (handleCases call old execute on cs (hasExecuted || cond))

end

/-- `be_jse_do_function_call`, at most `n` calls deep -/
def handleCall (funs : ℕ → Block α) : ℕ → ℕ → Vm α → Option (Vm α)
  | 0, _, _ => none
  | n + 1, f, st => (handleStmt (handleCall funs n) (.block (funs f)) st).map (Vm.restore st.execute)

/-- `be_jse_eval_string` -/
def evalString (n : ℕ) (p : Prog α) : Option (Vm α) := handleBlock (handleCall p.funs n) p.main ⟨execNormal, []⟩

/-! ## ECMAScript 5.1 -/

/-- The completion types. -/
inductive Completion
  | normal | brk | cont | ret
  deriving DecidableEq

/-- The completion of a `switch` from that of its clauses. -/
def Completion.endSwitch : Completion → Completion
  | .brk => .normal
  | o => o

def esExpr (call : ℕ → List α → Option (List α)) : Expr α β → List α → Option (β × List α)
  | .val v, h => some (v h, h)
  | .call f e, h => (call f h).bind (esExpr call e)
  | .choose v e e', h => if v h then esExpr call e h else esExpr call e' h

def esSimple (call : ℕ → List α → Option (List α)) (e : Expr α α) (h : List α) : Option (List α) :=
  (esExpr call e h).map fun r => r.2 ++ [r.1]

def esPart (call : ℕ → List α → Option (List α)) : Option (Expr α α) → List α → Option (List α)
  | none, h => some h
  | some e, h => esSimple call e h

/-- A round of a loop, and what follows it where it goes on. -/
def esRound (body next : List α → Option (Completion × List α)) (h : List α) : Option (Completion × List α) :=
  (body h).bind fun r =>
    match r.1 with
    | .brk => some (.normal, r.2)
    | .ret => some (.ret, r.2)
    | _ => next r.2

/-- At most `k` rounds; `test` is what stands before each. -/
def esLoop (test : List α → Option (Bool × List α)) (iter : List α → Option (List α))
    (body : List α → Option (Completion × List α)) : ℕ → List α → Option (Completion × List α)
  | 0, h => (test h).bind fun r => if r.1 then none else some (.normal, r.2)
  | k + 1, h =>
    (test h).bind fun r =>
      if r.1 then esRound body (fun h1 => (iter h1).bind (esLoop test iter body k)) r.2 else some (.normal, r.2)

def esForIn (body : List α → Option (Completion × List α)) : List α → List α → Option (Completion × List α)
  | [], h => some (.normal, h)
  | x :: xs, h => esRound body (esForIn body xs) (h ++ [x])

/-- Whether a clause is executed: it is the first that is equal, or comes after it. -/
def esClause (call : ℕ → List α → Option (List α)) (on : Value) (test : Expr α Value) (found : Bool)
    (h : List α) : Option (Bool × List α) :=
  if found then some (true, h) else (esExpr call test h).map fun r => (decide (on = r.1), r.2)

mutual

def esStmt (call : ℕ → List α → Option (List α)) : Stmt α → List α → Option (Completion × List α)
  | .simple e, h => (esSimple call e h).map fun h1 => (.normal, h1)
  | .block b, h => esBlock call b h
  | .ifThen c s, h => (esExpr call c h).bind fun r => if r.1 then esStmt call s r.2 else some (.normal, r.2)
  | .ifElse c s t, h => (esExpr call c h).bind fun r => if r.1 then esStmt call s r.2 else esStmt call t r.2
  | .while c s, h => esLoop (esExpr call c) some (esStmt call s) maxLoops h
  | .for init c iter s, h =>
    (esPart call init h).bind (esLoop (esExpr call (forCond c)) (esPart call iter) (esStmt call s) maxLoops)
  | .forIn names s, h => (esExpr call names h).bind fun r => esForIn (esStmt call s) r.1 r.2
  | .switch on cs, h =>
    (esExpr call on h).bind fun r => (esCases call r.1 cs false r.2).map fun r => (r.1.endSwitch, r.2)
  | .brk, h => some (.brk, h)
  | .cont, h => some (.cont, h)
  | .ret e, h => (esExpr call e h).map fun r => (.ret, r.2)
  | .call f, h => (call f h).map fun h1 => (.normal, h1)

def esBlock (call : ℕ → List α → Option (List α)) : Block α → List α → Option (Completion × List α)
  | .nil, h => some (.normal, h)
  | .cons s b, h =>
    (esStmt call s h).bind fun r =>
      match r.1 with
      | .normal => esBlock call b r.2
      | o => some (o, r.2)

/-- The clauses, `found` from the first that is equal on; `default` is the last. -/
def esCases (call : ℕ → List α → Option (List α)) (on : Value) :
    Cases α → Bool → List α → Option (Completion × List α)
  | .nil, _, h => some (.normal, h)
  | .default b, _, h => esBlock call b h
  | .case test b cs, found, h =>
    (esClause call on test found h).bind fun r =>
      if r.1 then
        (esBlock call b r.2).bind fun r =>
          match r.1 with
          | .normal => esCases call on cs true r.2
          | o => some (o, r.2)
      else esCases call on cs false r.2

end

/-- A call ends with its body or at a `return`; a jump out of a function is no program. -/
def esCall (funs : ℕ → Block α) : ℕ → ℕ → List α → Option (List α)
  | 0, _, _ => none
  | n + 1, f, h =>
    (esBlock (esCall funs n) (funs f) h).bind fun r =>
      match r.1 with
      | .normal | .ret => some r.2
      | _ => none

def esProg (n : ℕ) (p : Prog α) : Option (Completion × List α) := esBlock (esCall p.funs n) p.main []

end Jse.Script
