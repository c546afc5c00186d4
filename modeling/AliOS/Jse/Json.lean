/-
  `JSON.stringify` and `JSON.parse` of the script engine (`bone_engine/jse/be_jse_symbol.c`,
  `be_jse_lex.c`, `be_jse_executor.c`): what `symbol_to_json` writes for a value, and what
  `be_jse_eval_string` reads from such a text.

  The symbol table has room for everything here.  A string is the list of its bytes, whatever blocks
  hold it; the children of an array or an object are a list of their own, as their symbols are.  An
  integer is a `be_jse_int_t`, a `long` of `w` bits.  Of the lexer and the evaluator there is what
  brackets, literals, signs and separators need: names, calls, other numbers and operators behind an
  operand are left out, and the functions give nothing for them.
-/
import Mathlib.Data.Int.Notation
import Mathlib.Data.List.Defs

namespace Json

variable {w : ℕ}

abbrev Str := List UInt8

mutual

/-- The values of `JSON.stringify`. -/
inductive Val (w : ℕ)
  | null
  | int (v : BitVec w)
  | str (s : Str)
  | arr (xs : Items w)
  | obj (ms : Members w)

/-- The elements of an array. -/
inductive Items (w : ℕ)
  | nil
  | cons (x : Val w) (xs : Items w)

/-- The names of an object, with their values. -/
inductive Members (w : ℕ)
  | nil
  | cons (key : Str) (x : Val w) (ms : Members w)

end

/-! ## Writing -/

/-- The buffer of a call of `symbol_to_json`, which is on the stack: the byte before it, and the bytes
    from it on. -/
structure Frame where
  before : UInt8
  buf : Str

/-- `symbol_to_str` on a string, into the buffer of `fr`.  It ends the string only where the byte before
    the end is not 0; the end of an empty string is the beginning of the buffer. -/
def symbolToStr (fr : Frame) (s : Str) : Str :=
  if s = [] ∧ fr.before = 0 then fr.buf.takeWhile (· ≠ 0) else s

def digit (n : ℕ) : UInt8 := UInt8.ofNat (48 + n)

/-- `%d` of a number that is not negative. -/
def decimal (n : ℕ) : Str := if n < 10 then [digit n] else decimal (n / 10) ++ [digit (n % 10)]

/-- The `int` that `symbol_to_str` makes of an integer. -/
def toInt32 (v : BitVec w) : ℤ := (BitVec.ofInt 32 v.toInt).toInt

def itoa (v : BitVec w) : Str :=
  if toInt32 v < 0 then 45 :: decimal (toInt32 v).natAbs else decimal (toInt32 v).natAbs

/-- The frames of a call for the `i`-th child. -/
def sub (fr : List ℕ → Frame) (i : ℕ) : List ℕ → Frame := fun p => fr (i :: p)

mutual

/-- `symbol_to_json`; `fr` are the frames of the calls, by the path to the value. -/
def symbolToJson (fr : List ℕ → Frame) : Val w → Str
  | .null => [110, 117, 108, 108]
  | .int v => itoa v
  | .str s => 34 :: (symbolToStr (fr []) s ++ [34])
  | .arr xs => 91 :: (itemsToJson fr 0 xs ++ [93])
  | .obj ms => 123 :: (membersToJson fr 0 ms ++ [125])

def itemsToJson (fr : List ℕ → Frame) (i : ℕ) : Items w → Str
  | .nil => []
  | .cons x .nil => symbolToJson (sub fr i) x
  | .cons x (.cons y ys) => symbolToJson (sub fr i) x ++ 44 :: itemsToJson fr (i + 1) (.cons y ys)

def membersToJson (fr : List ℕ → Frame) (i : ℕ) : Members w → Str
  | .nil => []
  | .cons key x .nil => 34 :: (key ++ 34 :: 58 :: symbolToJson (sub fr i) x)
  | .cons key x (.cons key' y ms) =>
    34 :: (key ++ 34 :: 58 :: (symbolToJson (sub fr i) x ++ 44 :: membersToJson fr (i + 1) (.cons key' y ms)))

end

/-! ## Tokens -/

inductive Token
  | lpar | rpar | lbrack | rbrack | lbrace | rbrace | comma | colon | minus
  | null
  | int (s : Str)
  | str (s : Str)
  deriving DecidableEq

def isWhitespace (ch : UInt8) : Bool := ch == 32 || ch == 9 || ch == 10 || ch == 13

def isNumeric (ch : UInt8) : Bool := 48 ≤ ch && ch ≤ 57

def isAlpha (ch : UInt8) : Bool := 97 ≤ ch && ch ≤ 122 || 65 ≤ ch && ch ≤ 90 || ch == 95

/-- What a character stands for behind a backslash. -/
def escaped (ch : UInt8) : UInt8 := if ch = 110 then 10 else ch

/-- The loop of `next_token` behind a quote: the characters of the string, and the text behind it.  The
    end of the text also ends it. -/
def lexString : Str → Str × Str
  | [] => ([], [])
  | [c] => if c = 34 ∨ c = 92 then ([], []) else ([c], [])
  | c :: d :: cs =>
    if c = 34 then ([], d :: cs)
    else if c = 92 then (escaped d :: (lexString cs).1, (lexString cs).2)
    else (c :: (lexString (d :: cs)).1, (lexString (d :: cs)).2)

/-- The token keeps `MAX_TOKEN_LENGTH - 1` characters. -/
def appendChars (s : Str) : Str := s.take 63

def punct : UInt8 → Option Token
  | 40 => some .lpar
  | 41 => some .rpar
  | 91 => some .lbrack
  | 93 => some .rbrack
  | 123 => some .lbrace
  | 125 => some .rbrace
  | 44 => some .comma
  | 58 => some .colon
  | _ => none

/-- The text goes on with another form of number, behind these digits. -/
def otherNumber (digits : Str) : Str → Bool
  | [] => false
  | c :: _ => c == 46 || c == 101 || c == 69 || digits == [48] && (c == 120 || c == 98)

/-- `next_token` at a character that is not blank. -/
def nextToken (c : UInt8) (cs : Str) : Option (Token × Str) :=
  if isAlpha c then
    let word := (c :: cs).takeWhile fun ch => isAlpha ch || isNumeric ch
    if word = [110, 117, 108, 108] then
      some (.null, (c :: cs).dropWhile fun ch => isAlpha ch || isNumeric ch) else none
  else if isNumeric c then
    let digits := (c :: cs).takeWhile isNumeric
    let rest := (c :: cs).dropWhile isNumeric
    if otherNumber digits rest ∨ c = 48 ∧ digits ≠ [48] then none else some (.int (appendChars digits), rest)
  else if c = 34 then
    let r := lexString cs
    some (.str (appendChars r.1), r.2)
  else if c = 45 then
    if cs.head? = some 45 ∨ cs.head? = some 61 then none else some (.minus, cs)
  else (punct c).map fun t => (t, cs)

/-- The tokens of a text; the bound is on their number. -/
def lex : ℕ → Str → Option (List Token)
  | 0, _ => none
  | n + 1, src =>
    match src.dropWhile isWhitespace with
    | [] => some []
    | c :: cs =>
      match nextToken c cs with
      | some (t, rest) => (lex n rest).map (t :: ·)
      | none => none

/-! ## Reading -/

/-- `string_to_int` on decimal digits. -/
def stringToInt (s : Str) : ℕ := s.foldl (fun v ch => v * 10 + (ch.toNat - 48)) 0

/-- A part of the evaluator, from the tokens to the value and the tokens behind; nothing where it sets
    the error flag. -/
abbrev Eval (w : ℕ) := List Token → Option (Val w × List Token)

section

variable (nested : Eval w)

/-- The loop of an array literal. -/
def arrayLoop : ℕ → List Token → Option (Items w × List Token)
  | 0, _ => none
  | _ + 1, .rbrack :: rest => some (.nil, rest)
  | n + 1, toks =>
    match nested toks with
    | some (x, .rbrack :: rest) => some (.cons x .nil, rest)
    | some (x, .comma :: rest) => (arrayLoop n rest).map fun r => (.cons x r.1, r.2)
    | _ => none

/-- The loop of an object literal. -/
def objectLoop : ℕ → List Token → Option (Members w × List Token)
  | 0, _ => none
  | _ + 1, .rbrace :: rest => some (.nil, rest)
  | n + 1, .str key :: .colon :: toks =>
    match nested toks with
    | some (x, .rbrace :: rest) => some (.cons key x .nil, rest)
    | some (x, .comma :: rest) => (objectLoop n rest).map fun r => (.cons key x r.1, r.2)
    | _ => none
  | _ + 1, _ => none

def handleFactorSyntax (n : ℕ) : Eval w
  | .lpar :: toks =>
    match nested toks with
    | some (x, .rpar :: rest) => some (x, rest)
    | _ => none
  | .null :: rest => some (.null, rest)
  | .int s :: rest => some (.int (BitVec.ofNat w (stringToInt s)), rest)
  | .str s :: rest => some (.str s, rest)
  | .lbrace :: toks => (objectLoop nested n toks).map fun r => (.obj r.1, r.2)
  | .lbrack :: toks => (arrayLoop nested n toks).map fun r => (.arr r.1, r.2)
  | _ => none

/-- `handle_precedent_expr` on one operand, with its sign. -/
def handlePrecedentExpr (n : ℕ) : Eval w
  | .minus :: toks =>
    match handleFactorSyntax nested n toks with
    | some (.int a, rest) => some (.int (0 - a), rest)
    | _ => none
  | toks => handleFactorSyntax nested n toks

end

/-- `handle_base_expr` on one operand; the bound is on the nesting. -/
def handleBaseExpr : ℕ → Eval w
  | 0, _ => none
  | n + 1, toks =>
    match handlePrecedentExpr (handleBaseExpr n) n toks with
    | some (_, .minus :: _) => none
    | r => r

/-- `be_jse_eval_string` on a text that begins with a bracket: one expression. -/
def evalString (src : Str) : Option (Val w) :=
  match lex (src.length + 1) (src.takeWhile (· ≠ 0)) with
  | some toks =>
    match handleBaseExpr (toks.length + 1) toks with
    | some (x, []) => some x
    | _ => none
  | none => none

/-- `JSON.parse` -/
def jsonParse (s : Str) : Option (Val w) := if s = [] then none else evalString (40 :: (s ++ [41]))

/-- `JSON.stringify` -/
def jsonStringify (fr : List ℕ → Frame) (x : Val w) : Str := symbolToJson fr x

end Json
