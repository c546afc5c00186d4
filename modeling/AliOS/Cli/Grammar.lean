/-
  The grammar of a line: arguments at blanks, commands at semicolons.

  An argument in quotes goes up to its closing quote, another one up to a blank or a
  semicolon.  A backslash before a blank, a quote or a semicolon is dropped in an
  argument, and what follows it is an ordinary character; a quote inside of an argument
  without quotes is one as well.
-/
import AliOS.Cli.GetInput

namespace Cli

abbrev blank : UInt8 := 0x20
abbrev quote : UInt8 := 0x22
abbrev semicolon : UInt8 := 0x3b
abbrev backslash : UInt8 := 0x5c

/-- An argument, with the line from its first character on, and whether a semicolon stands directly
    behind it; a semicolon behind a blank or a closing quote; the end of a line that is none. -/
inductive Tok
  | arg (quoted : Bool) (text rest : Bytes) (ends : Bool)
  | semi
  | err
  deriving DecidableEq

/-- Between two arguments, or inside of one: the line from its first character on, what has been read
    of it, and whether a backslash has been read behind this. -/
inductive Mode
  | between
  | inArg (quoted : Bool) (rest acc : Bytes) (esc : Bool)

/-- The characters that a backslash is dropped before. -/
def isSpecial (c : UInt8) : Bool := c = blank || c = quote || c = semicolon

/-- What has been read of an argument, with the backslash. -/
def seen (acc : Bytes) (esc : Bool) : Bytes := if esc then acc ++ [backslash] else acc

/-- The tokens of a line. -/
def toks : Mode → Bytes → List Tok
  | .between, [] => []
  | .inArg quoted rest acc esc, [] => if quoted then [.err] else [.arg false (seen acc esc) rest false]
  | .between, c :: r =>
    if c = blank then toks .between r
    else if c = semicolon then .semi :: toks .between r
    else if c = quote then toks (.inArg true r [] false) r
    else if c = backslash then toks (.inArg false (c :: r) [] true) r
    else toks (.inArg false (c :: r) [c] false) r
  | .inArg quoted rest acc esc, c :: r =>
    if esc ∧ isSpecial c then toks (.inArg quoted rest (acc ++ [c]) false) r
    else if c = backslash then toks (.inArg quoted rest (seen acc esc) true) r
    else if quoted ∧ c = quote then .arg true (seen acc esc) rest false :: toks .between r
    else if quoted ∧ c = semicolon then [.err]
    else if ¬ quoted ∧ c = blank then .arg false (seen acc esc) rest false :: toks .between r
    else if ¬ quoted ∧ c = semicolon then .arg false (seen acc esc) rest true :: toks .between r
    else toks (.inArg quoted rest (seen acc esc ++ [c]) false) r

/-- The arguments of a command, if there are any. -/
def command (args : List Bytes) : List (List Bytes) := if args = [] then [] else [args]

/-- The commands of a line, where `args` have been read. -/
def commands : List Bytes → List Tok → List (List Bytes)
  | args, [] => command args
  | args, .arg _ text _ ends :: ts =>
    if ends then command (args ++ [text]) ++ commands [] ts else commands (args ++ [text]) ts
  | args, .semi :: ts => command args ++ commands [] ts
  | args, .err :: ts => commands args ts

/-- The commands, unless a quote is not closed or a semicolon stands in quotes. -/
def parse (line : Bytes) : Option (List (List Bytes)) :=
  if .err ∈ toks .between line then none else some (commands [] (toks .between line))

/-! ## Tokens -/

/-- The tokens of a line without NULs: an error is the last one, and so is an argument that is the
    rest of the line as it stands. -/
inductive Wf : List Tok → Prop
  | nil : Wf []
  | err : Wf [.err]
  | semi {ts : List Tok} : Wf ts → Wf (.semi :: ts)
  | arg {quoted ends : Bool} {text rest : Bytes} {ts : List Tok} : Wf ts → 0 ∉ text → 0 ∉ rest →
      (quoted = false → text = rest → ts = [] ∧ ends = false) → Wf (.arg quoted text rest ends :: ts)

/-- What has been read and what is left are in the rest of the line, and there is no NUL. -/
def Mode.Ok : Mode → Bytes → Prop
  | .between, r => 0 ∉ r
  | .inArg _ rest acc esc, r => (seen acc esc).length + r.length ≤ rest.length ∧ 0 ∉ rest ∧ 0 ∉ seen acc esc ∧ 0 ∉ r

variable {m : Mode} {r rest acc text : Bytes} {quoted esc ends : Bool} {c : UInt8} {ts a b : List Tok}

theorem seen_false : seen acc false = acc := rfl

theorem seen_true : seen acc true = acc ++ [backslash] := rfl

theorem wf_closed (hok : (Mode.inArg quoted rest acc esc).Ok (c :: r)) (hts : Wf ts) :
    Wf (.arg quoted (seen acc esc) rest ends :: ts) := by
  obtain ⟨hlen, hrest, hacc, -⟩ := hok
  refine .arg hts hacc hrest fun _ heq => ?_
  rw [heq, List.length_cons] at hlen
  omega

theorem not_mem_tail (h : 0 ∉ c :: r) : 0 ∉ r := fun h' => h (List.mem_cons_of_mem _ h')

theorem ok_quote (h : 0 ∉ c :: r) : (Mode.inArg true r [] false).Ok r :=
  ⟨by simp [seen], not_mem_tail h, nofun, not_mem_tail h⟩

theorem ok_first (h : 0 ∉ c :: r) (hread : seen acc esc = [c]) : (Mode.inArg false (c :: r) acc esc).Ok r := by
  refine ⟨?_, h, ?_, not_mem_tail h⟩
  · rw [hread, List.length_singleton, List.length_cons, Nat.add_comm]
  · rw [hread, List.mem_singleton]
    exact fun h0 => h (h0 ▸ List.mem_cons_self)

theorem ok_more {acc' : Bytes} {esc' : Bool} (hok : (Mode.inArg quoted rest acc esc).Ok (c :: r))
    (hread : seen acc' esc' = seen acc esc ++ [c]) : (Mode.inArg quoted rest acc' esc').Ok r := by
  obtain ⟨hlen, hrest, hacc, hr⟩ := hok
  refine ⟨?_, hrest, ?_, not_mem_tail hr⟩
  · rw [hread, List.length_append, List.length_singleton]
    rw [List.length_cons] at hlen
    omega
  · rw [hread, List.mem_append, not_or, List.mem_singleton]
    exact ⟨hacc, fun h0 => hr (h0 ▸ List.mem_cons_self)⟩

theorem ok_special (hok : (Mode.inArg quoted rest acc true).Ok (c :: r)) :
    (Mode.inArg quoted rest (acc ++ [c]) false).Ok r := by
  obtain ⟨hlen, hrest, hacc, hr⟩ := hok
  rw [seen_true] at hlen hacc
  rw [List.mem_append, not_or] at hacc
  refine ⟨?_, hrest, ?_, not_mem_tail hr⟩
  · rw [seen_false, List.length_append, List.length_singleton]
    rw [List.length_append, List.length_singleton, List.length_cons] at hlen
    omega
  · rw [seen_false, List.mem_append, not_or, List.mem_singleton]
    exact ⟨hacc.1, fun h0 => hr (h0 ▸ List.mem_cons_self)⟩

theorem toks_open (quoted : Bool) (rest acc : Bytes) (esc : Bool) (r : Bytes) :
    quoted = true ∧ toks (.inArg quoted rest acc esc) r = [.err] ∨
      ∃ text ends ts, toks (.inArg quoted rest acc esc) r = .arg quoted text rest ends :: ts := by
  induction r generalizing acc esc with
  | nil =>
    cases quoted
    · exact .inr ⟨_, _, _, rfl⟩
    · exact .inl ⟨rfl, rfl⟩
  | cons c r ih =>
    unfold toks
    split_ifs with _ _ h3 h4 h5 h6
    · exact ih _ _
    · exact ih _ _
    · obtain ⟨rfl, -⟩ := h3
      exact .inr ⟨_, _, _, rfl⟩
    · exact .inl ⟨h4.1, rfl⟩
    · rw [Bool.not_eq_true] at h5
      obtain ⟨rfl, -⟩ := h5
      exact .inr ⟨_, _, _, rfl⟩
    · rw [Bool.not_eq_true] at h6
      obtain ⟨rfl, -⟩ := h6
      exact .inr ⟨_, _, _, rfl⟩
    · exact ih _ _

theorem toks_wf (hok : m.Ok r) : Wf (toks m r) := by
  fun_induction toks m r with
  | case1 => exact .nil
  | case2 => exact .err
  | case3 => exact .arg .nil hok.2.2.1 hok.2.1 fun _ _ => ⟨rfl, rfl⟩
  | case4 _ ih => exact ih (not_mem_tail hok)
  | case5 _ _ ih => exact .semi (ih (not_mem_tail hok))
  | case6 _ _ _ ih => exact ih (ok_quote hok)
  | case7 _ _ _ _ ih => exact ih (ok_first hok rfl)
  | case8 _ _ _ _ _ _ ih => exact ih (ok_first hok rfl)
  | case9 _ _ _ _ _ _ h ih =>
    obtain ⟨rfl, -⟩ := h
    exact ih (ok_special hok)
  | case10 _ _ _ _ _ _ ih => exact ih (ok_more hok rfl)
  | case11 _ _ _ _ _ _ _ _ _ ih => exact wf_closed hok (ih (not_mem_tail hok.2.2.2))
  | case12 => exact .err
  | case13 _ _ _ _ _ _ _ _ _ _ _ ih => exact wf_closed hok (ih (not_mem_tail hok.2.2.2))
  | case14 _ _ _ _ _ _ _ _ _ _ _ _ ih => exact wf_closed hok (ih (not_mem_tail hok.2.2.2))
  | case15 _ _ _ _ _ _ _ _ _ _ _ _ ih => exact ih (ok_more hok rfl)

end Cli
