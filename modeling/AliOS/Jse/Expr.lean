/-
  Integer expressions of the script engine (`bone_engine/jse/be_jse_executor.c`): what
  `handle_base_expr` computes from the tokens, and the expressions of ECMAScript 5.1 with their
  tokens and their values.

  An integer is a `be_jse_int_t`, a `long` of `w` bits.  Where the virtual machine is idle the
  tokens are only passed, and the symbols are null, which counts as 0.  Names, calls, strings and
  assignments are left out.
-/
import Mathlib.Data.Nat.Notation

namespace Jse

variable {w : ℕ}

inductive BinOp
  | mul | div | mod | add | sub | shl | shr | ushr | lt | gt | le | ge | eq | ne | band | bxor | bor | land | lor
  deriving DecidableEq

inductive Tok (w : ℕ)
  | int (v : BitVec w)
  | op (o : BinOp)
  | bang | lpar | rpar | quest | colon | semi
  deriving DecidableEq

/-! ## The engine -/

def isMul : BinOp → Bool
  | .mul | .div | .mod => true
  | _ => false

def isAdd : BinOp → Bool
  | .add | .sub => true
  | _ => false

/-- `MEET_SHIFT_OP` -/
def isShift : BinOp → Bool
  | .shl | .shr | .ushr => true
  | _ => false

/-- `MEET_RELATIONAL_OP` -/
def isRelational : BinOp → Bool
  | .lt | .gt | .le | .ge | .eq | .ne => true
  | _ => false

/-- `MEET_BIT_ARITHMATICAL_OP` and `MEET_LOGICAL_OP` -/
def isBit : BinOp → Bool
  | .band | .bxor | .bor | .land | .lor => true
  | _ => false

/-- `new_bool_symbol` -/
def newBool (b : Bool) : BitVec w := if b then 1 else 0

/-- `symbol_maths_op` on integers; `&&` and `||` come there as `&` and `|`. -/
def mathsOp (o : BinOp) (a b : BitVec w) : BitVec w :=
  match o with
  | .mul => a * b
  | .div => a.sdiv b
  | .mod => a.srem b
  | .add => a + b
  | .sub => a - b
  | .shl => a <<< b.toNat
  | .shr => a.sshiftRight b.toNat
  | .ushr => a >>> b.toNat
  | .lt => newBool (a.slt b)
  | .gt => newBool (b.slt a)
  | .le => newBool (a.sle b)
  | .ge => newBool (b.sle a)
  | .eq => newBool (a == b)
  | .ne => newBool (a != b)
  | .band | .land => a &&& b
  | .bxor => a ^^^ b
  | .bor | .lor => a ||| b

/-- A part of the parser: from the tokens, whether the machine executes or is idle, to the value and
    the tokens behind; nothing where it sets the error flag. -/
abbrev Parse (w : ℕ) := Bool → List (Tok w) → Option (BitVec w × List (Tok w))

section

variable (nested : Parse w)

def handleFactorSyntax : Parse w
  | run, .lpar :: toks =>
    match nested run toks with
    | some (a, .rpar :: rest) => some (a, rest)
    | _ => none
  | run, .int v :: rest => some (if run then v else 0, rest)
  | _, _ => none

def handlePostfixSyntax : Parse w
  | run, .bang :: toks =>
    match handleFactorSyntax nested run toks with
    | some (a, rest) => some (if run then mathsOp .eq a 0 else a, rest)
    | none => none
  | run, toks => handleFactorSyntax nested run toks

/-- A loop of the parser: operators that meet the condition, each with an operand. -/
def opLoop (meets : BinOp → Bool) (operand : Parse w) (run : Bool) :
    ℕ → BitVec w → List (Tok w) → Option (BitVec w × List (Tok w))
  | 0, _, _ => none
  | n + 1, a, .op o :: toks =>
    if meets o then
      match operand run toks with
      | some (b, rest) => opLoop meets operand run n (if run then mathsOp o a b else a) rest
      | none => none
    else some (a, .op o :: toks)
  | _ + 1, a, toks => some (a, toks)

/-- An operand of `+` and `-`. -/
def term (n : ℕ) : Parse w := fun run toks =>
  match handlePostfixSyntax nested run toks with
  | some (a, rest) => opLoop isMul (handlePostfixSyntax nested) run n a rest
  | none => none

/-- The beginning of `handle_precedent_expr`: the first operand, and the sign of all of it. -/
def signedTerm (n : ℕ) : Parse w
  | run, .op .sub :: toks =>
    match term nested n run toks with
    | some (a, rest) => some (mathsOp .sub 0 a, rest)
    | none => none
  | run, toks => term nested n run toks

/-- The loop of `handle_precedent_expr` on `+` and `-`. -/
def sum (n : ℕ) : Parse w := fun run toks =>
  match signedTerm nested n run toks with
  | some (a, rest) => opLoop isAdd (term nested n) run n a rest
  | none => none

/-- The end of `handle_precedent_expr`: a shift, whose right operand is a whole expression. -/
def shiftOp (run : Bool) (a : BitVec w) : List (Tok w) → Option (BitVec w × List (Tok w))
  | .op o :: toks =>
    if isShift o then
      match nested run toks with
      | some (b, rest) => some (if run then mathsOp o a b else a, rest)
      | none => none
    else some (a, .op o :: toks)
  | toks => some (a, toks)

def handlePrecedentExpr (n : ℕ) : Parse w := fun run toks =>
  match sum nested n run toks with
  | some (a, rest) => shiftOp nested run a rest
  | none => none

/-- Operands with relational operators between them. -/
def relational (n : ℕ) : Parse w := fun run toks =>
  match handlePrecedentExpr nested n run toks with
  | some (a, rest) => opLoop isRelational (handlePrecedentExpr nested n) run n a rest
  | none => none

/-- What `&&` or `||` does not evaluate its right operand for. -/
def shortCircuit (o : BinOp) (a : BitVec w) : Bool :=
  match o with
  | .land => a == 0
  | .lor => a != 0
  | _ => false

/-- The value of a bit operator or of `&&` and `||`. -/
def bitOp (o : BinOp) (a b : BitVec w) : BitVec w :=
  match o with
  | .land | .lor => mathsOp o (newBool (a != 0)) (newBool (b != 0))
  | _ => mathsOp o a b

/-- The loop of `handle_base_expr` on the bit operators, `&&` and `||`. -/
def bitLoop (n : ℕ) (run : Bool) : ℕ → BitVec w → List (Tok w) → Option (BitVec w × List (Tok w))
  | 0, _, _ => none
  | m + 1, a, .op o :: toks =>
    if isBit o then
      let short := shortCircuit o a
      match relational nested n (run && !short) toks with
      | some (b, rest) => bitLoop n run m (if run && !short then bitOp o a b else a) rest
      | none => none
    else some (a, .op o :: toks)
  | _ + 1, a, toks => some (a, toks)

/-- The end of `handle_base_expr`: `?` and `:`, of which one side is only passed. -/
def ternary (run : Bool) (a : BitVec w) : List (Tok w) → Option (BitVec w × List (Tok w))
  | .quest :: toks =>
    let first := run && a != 0
    match nested first toks with
    | some (b, .colon :: toks) =>
      match nested (run && !first) toks with
      | some (c, rest) => some (if run then if first then b else c else a, rest)
      | none => none
    | _ => none
  | toks => some (a, toks)

end

/-- `handle_base_expr`; the bound is on its nesting, and on the length of the loops. -/
def handleBaseExpr : ℕ → Parse w
  | 0, _, _ => none
  | n + 1, run, toks =>
    match relational (handleBaseExpr n) n run toks with
    | some (a, rest) =>
      match bitLoop (handleBaseExpr n) n run n a rest with
      | some (a, rest) => ternary (handleBaseExpr n) run a rest
      | none => none
    | none => none

inductive Expr (w : ℕ)
  | lit (v : BitVec w)
  | paren (e : Expr w)
  | neg (e : Expr w)
  | not (e : Expr w)
  | bin (o : BinOp) (l r : Expr w)
  | cond (c a b : Expr w)

/-- How strongly an operator binds. -/
def BinOp.lvl : BinOp → ℕ
  | .mul | .div | .mod => 10
  | .add | .sub => 9
  | .shl | .shr | .ushr => 8
  | .lt | .gt | .le | .ge => 7
  | .eq | .ne => 6
  | .band => 5
  | .bxor => 4
  | .bor => 3
  | .land => 2
  | .lor => 1

namespace Expr

def lvl : Expr w → ℕ
  | lit _ | paren _ => 12
  | neg _ | not _ => 11
  | bin o _ _ => o.lvl
  | cond _ _ _ => 0

/-- The parse trees of the grammar: a binary operator groups to the left. -/
def Es : Expr w → Prop
  | lit _ => True
  | paren e => e.Es
  | neg e | not e => e.Es ∧ 11 ≤ e.lvl
  | bin o l r => l.Es ∧ r.Es ∧ o.lvl ≤ l.lvl ∧ o.lvl < r.lvl
  | cond c a b => c.Es ∧ a.Es ∧ b.Es ∧ 1 ≤ c.lvl

def toks : Expr w → List (Tok w)
  | lit v => [.int v]
  | paren e => .lpar :: (e.toks ++ [.rpar])
  | neg e => .op .sub :: e.toks
  | not e => .bang :: e.toks
  | bin o l r => l.toks ++ .op o :: r.toks
  | cond c a b => c.toks ++ .quest :: (a.toks ++ .colon :: b.toks)

/-- The value, where comparisons, `!`, `&&` and `||` are 0 or 1. -/
def value : Expr w → BitVec w
  | lit v => v
  | paren e => e.value
  | neg e => -e.value
  | not e => newBool (e.value == 0)
  | bin .land l r => newBool (l.value != 0 && r.value != 0)
  | bin .lor l r => newBool (l.value != 0 || r.value != 0)
  | bin o l r => mathsOp o l.value r.value
  | cond c a b => if c.value != 0 then a.value else b.value

end Expr

end Jse
