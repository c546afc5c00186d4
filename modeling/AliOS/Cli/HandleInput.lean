/-
  The parser of the shell (`tools/cli/cli.c`: `lookup_command`, `proc_onecmd`, `handle_input`).

  The line is edited in place.  A read or a write outside of it, of `argvall` or of
  `argcall` is undefined, and there is no result.  `memcpy` copies forwards; the commands
  do not write to the line.
-/
import AliOS.Cli.Grammar
import Mathlib.Data.List.GetD

namespace Cli

abbrev cliMaxArgNum : ℕ := 16

abbrev cliMaxOncecmdNum : ℕ := 6

/-! ## Commands -/

def lookupCommand (table : List CStr) (name : Bytes) (len : ℕ) : Option CStr :=
  (table.take maxCommands).find? fun command =>
    if len ≠ 0 then strncmpEq (command.text ++ [0]) (name ++ [0]) len else command.text = name

/-- The characters before the first dot, or 0 if there is none. -/
def dotIndex (name : Bytes) : ℕ := if 0x2e ∈ name then name.idxOf 0x2e else 0

/-- `proc_onecmd`: what it returns, and the command that it runs with its arguments. -/
def procOnecmd (table : List CStr) : List Bytes → ℕ × List (CStr × List Bytes)
  | [] => (0, [])
  | name :: args =>
    match lookupCommand table name (dotIndex name) with
    | none => (1, [])
    | some command => (0, [(command, name :: args)])

/-- The last loop of `handle_input`. -/
def runAll (table : List CStr) : List (List Bytes) → ℕ × List (CStr × List Bytes)
  | [] => (0, [])
  | args :: rest =>
    let r := procOnecmd table args
    let rs := runAll table rest
    (r.1 ||| rs.1, r.2 ++ rs.2)

/-! ## The loop -/

/-- The variables of the loop; `pargc` is the row of `argcall` that it points to, and the pointers in
    `argvall` are places in the line. -/
structure Parser where
  inbuf : Bytes
  i : ℕ
  inArg : Bool
  inQuote : Bool
  done : Bool
  cmdnum : ℕ
  pargc : ℕ
  argcall : ℕ → ℕ
  argvall : ℕ → ℕ → ℕ

def Parser.start (inbuf : Bytes) : Parser := ⟨inbuf, 0, false, false, false, 0, 0, fun _ => 0, fun _ _ => 0⟩

/-- The string at a place. -/
def cstr (inbuf : Bytes) (p : ℕ) : Option Bytes :=
  if 0 ∈ inbuf.drop p then some ((inbuf.drop p).takeWhile (· ≠ 0)) else none

/-- `memcpy(&inbuf[i - 1], &inbuf[i], strlen(&inbuf[i]) + 1); --i;` -/
def Parser.unescape (s : Parser) : Option Parser :=
  (cstr s.inbuf s.i).map fun str =>
    { s with inbuf := s.inbuf.take (s.i - 1) ++ str ++ 0 :: s.inbuf.drop (s.i + str.length), i := s.i - 1 }

/-- `(*pargc)++; argvall[cmdnum][(*pargc) - 1] = &inbuf[p];` -/
def Parser.newArg (s : Parser) (p : ℕ) : Option Parser :=
  if s.pargc < cliMaxOncecmdNum ∧ s.cmdnum < cliMaxOncecmdNum ∧ s.argcall s.pargc < cliMaxArgNum then
    some { s with
      argcall := Function.update s.argcall s.pargc (s.argcall s.pargc + 1)
      argvall := Function.update s.argvall s.cmdnum (Function.update (s.argvall s.cmdnum) (s.argcall s.pargc) p) }
  else none

/-- `inbuf[i] = '\0'` -/
def Parser.terminate (s : Parser) : Option Parser :=
  if s.i < s.inbuf.length then some { s with inbuf := s.inbuf.set s.i 0 } else none

/-- `i > 0 && inbuf[i - 1] == '\\' && stat.inArg` -/
def Parser.escaped (s : Parser) : Bool := 0 < s.i && s.inbuf[s.i - 1]? = some backslash && s.inArg

/-- `if (*pargc) if (++cmdnum < CLI_MAX_ONCECMD_NUM) pargc = &argcall[cmdnum];` -/
def Parser.nextCommand (s : Parser) : Parser :=
  if s.argcall s.pargc ≠ 0 then
    { s with cmdnum := s.cmdnum + 1, pargc := if s.cmdnum + 1 < cliMaxOncecmdNum then s.cmdnum + 1 else s.pargc }
  else s

/-- The `switch`; where `handle_input` returns 2, the inner result is `none`. -/
def Parser.switch (s : Parser) (c : UInt8) : Option (Option Parser) :=
  if c = 0 then some (if s.inQuote then none else some { s with done := true })
  else if c = quote then
    if s.escaped then s.unescape.map some
    else if ¬ s.inQuote ∧ s.inArg then some (some s)
    else if s.inQuote ∧ ¬ s.inArg then some none
    else if ¬ s.inQuote ∧ ¬ s.inArg then
      ({ s with inArg := true, inQuote := true }.newArg (s.i + 1)).map some
    else ({ s with inArg := false, inQuote := false }.terminate).map some
  else if c = blank then
    if s.escaped then s.unescape.map some
    else if ¬ s.inQuote ∧ s.inArg then ({ s with inArg := false }.terminate).map some
    else some (some s)
  else if c = semicolon then
    if s.escaped then s.unescape.map some
    else if s.inQuote then some none
    else if ¬ s.inQuote ∧ s.inArg then ({ s with inArg := false }.terminate).map (some ∘ Parser.nextCommand)
    else some (some s)
  else if ¬ s.inArg then ({ s with inArg := true }.newArg s.i).map some
  else some (some s)

/-- The loop, with `n` turns to go. -/
def Parser.loop : ℕ → Parser → Option (Option Parser)
  | 0, _ => none
  | n + 1, s => do
    match ← s.switch (← s.inbuf[s.i]?) with
    | none => some none
    | some s =>
      if s.done then some (some s)
      else
        let s := { s with i := s.i + 1 }
        if s.i < inbufSize ∧ s.cmdnum < cliMaxOncecmdNum ∧ s.argcall s.pargc < cliMaxArgNum then s.loop n
        else some (some s)

/-- The arguments that are passed. -/
def Parser.argvs (s : Parser) : Option (List (List Bytes)) :=
  (List.range (min (s.cmdnum + 1) cliMaxOncecmdNum)).mapM fun i =>
    (List.range (s.argcall i)).mapM fun k => cstr s.inbuf (s.argvall i k)

/-- What is passed behind the loop, unless `handle_input` returns 2. -/
def pass : Option Parser → Option (Option (List (List Bytes)))
  | none => some none
  | some s => if s.inQuote then some none else s.argvs.map some

def parseInput (inbuf : Bytes) : Option (Option (List (List Bytes))) :=
  (Parser.loop inbufSize (.start inbuf)).bind pass

/-- `handle_input`: what it returns, and the commands that are run. -/
def handleInput (table : List CStr) (inbuf : Bytes) : Option (ℕ × List (CStr × List Bytes)) :=
  (parseInput inbuf).map fun
    | none => (2, [])
    | some argvs => runAll table argvs

/-- What the grammar says of a line: the first commands are run, or there is a syntax error. -/
def expected (table : List CStr) (line : Bytes) : ℕ × List (CStr × List Bytes) :=
  match parse line with
  | none => (2, [])
  | some cmds => runAll table (cmds.take cliMaxOncecmdNum)

/-- The line is parsed by the grammar, with any commands and whatever stands behind it in the buffer. -/
def ParsesLine (line : Line) : Prop :=
  ∀ (table : List CStr) (junk : Bytes), (line.text ++ 0 :: junk).length = inbufSize →
    handleInput table (line.text ++ 0 :: junk) = some (expected table line.text)

/-! ## What the loop makes of the tokens -/

/-- The commands that are passed, where `cmds` and the arguments `args` of one more have been read. -/
def reading : List (List Bytes) → List Bytes → List Tok → Option (List (List Bytes))
  | cmds, args, [] => some (cmds ++ [args])
  | cmds, args, .arg quoted text rest ends :: ts =>
    if args.length + 1 = cliMaxArgNum then if quoted then none else some (cmds ++ [args ++ [rest]])
    else if ends then
      if cmds.length + 1 = cliMaxOncecmdNum then some (cmds ++ [args ++ [text]])
      else reading (cmds ++ [args ++ [text]]) [] ts
    else reading cmds (args ++ [text]) ts
  | cmds, args, .semi :: ts => reading cmds args ts
  | _, _, .err :: _ => none

section

variable {m m' : Mode} {cmds : List (List Bytes)} {args : List Bytes} {pre r junk text rest acc l l' : Bytes}
variable {quoted esc : Bool} {c : UInt8} {s s' : Parser} {argcall : ℕ → ℕ} {argvall : ℕ → ℕ → ℕ}
variable {rows : ℕ → List Bytes} {n i p : ℕ}

theorem reading_open (h : args.length + 1 = cliMaxArgNum) :
    reading cmds args (toks (.inArg quoted rest acc esc) r) =
      if quoted then none else some (cmds ++ [args ++ [rest]]) := by
  rcases toks_open quoted rest acc esc r with ⟨rfl, heq⟩ | ⟨text, ends, ts, heq⟩
  · rw [heq, if_pos rfl]
    rfl
  · rw [heq]
    exact if_pos h

theorem reading_arg {ts : List Tok} (h : args.length + 1 < cliMaxArgNum) :
    reading cmds args (.arg quoted text rest false :: ts) = reading cmds (args ++ [text]) ts := by
  rw [reading, if_neg (Nat.ne_of_lt h), if_neg Bool.false_ne_true]

theorem reading_ends {ts : List Tok} (h : args.length + 1 < cliMaxArgNum) :
    reading cmds args (.arg quoted text rest true :: ts) =
      if cmds.length + 1 = cliMaxOncecmdNum then some (cmds ++ [args ++ [text]])
      else reading (cmds ++ [args ++ [text]]) [] ts := by
  rw [reading, if_neg (Nat.ne_of_lt h), if_pos rfl]

/-! ### Pointers -/

/-- A string and its NUL stand at a place of the text. -/
def At (l : Bytes) (p : ℕ) (text : Bytes) : Prop := ∃ u v, l = u ++ text ++ 0 :: v ∧ u.length = p ∧ 0 ∉ text

theorem At.append (h : At l p text) (l' : Bytes) : At (l ++ l') p text := by
  obtain ⟨u, v, rfl, hp, hz⟩ := h
  exact ⟨u, v ++ l', by simp, hp, hz⟩

theorem cstr_eq (h : 0 ∉ text) : cstr (l ++ text ++ 0 :: l') l.length = some text := by
  rw [cstr, List.append_assoc, List.drop_left, if_pos (by simp), List.takeWhile_append_of_pos]
  · simp
  · intro x hx
    rw [decide_eq_true_iff]
    rintro rfl
    exact h hx

theorem At.cstr_eq (h : At l p text) : cstr l p = some text := by
  obtain ⟨u, v, rfl, rfl, hz⟩ := h
  exact Cli.cstr_eq hz

/-- The arguments of the commands, in the text. -/
def Table (argcall : ℕ → ℕ) (argvall : ℕ → ℕ → ℕ) (l : Bytes) (rows : ℕ → List Bytes) : Prop :=
  ∀ i, argcall i = (rows i).length ∧ ∀ k (hk : k < (rows i).length), At l (argvall i k) (rows i)[k]

theorem Table.append (h : Table argcall argvall l rows) (l' : Bytes) : Table argcall argvall (l ++ l') rows :=
  fun i => ⟨(h i).1, fun k hk => ((h i).2 k hk).append l'⟩

theorem Table.close (h : Table argcall argvall pre rows) (n : ℕ) (hz : 0 ∉ text) (l' : Bytes) :
    Table (Function.update argcall n (argcall n + 1))
      (Function.update argvall n (Function.update (argvall n) (argcall n) pre.length)) (pre ++ text ++ 0 :: l')
      (Function.update rows n (rows n ++ [text])) := by
  intro i
  by_cases hi : i = n
  · subst hi
    obtain ⟨hlen, hat⟩ := h i
    simp only [Function.update_self, List.length_append, List.length_singleton]
    refine ⟨congrArg (· + 1) hlen, fun k hk => ?_⟩
    by_cases hlast : k = argcall i
    · subst hlast
      rw [Function.update_self, List.getElem_append_right (Nat.le_of_eq hlen.symm)]
      exact ⟨pre, l', by simp, rfl, by simpa using hz⟩
    · have hlt : k < (rows i).length := by omega
      rw [Function.update_of_ne hlast, List.getElem_append_left hlt, List.append_assoc]
      exact (hat k hlt).append _
  · simp only [Function.update_of_ne hi]
    rw [List.append_assoc]
    exact h.append _ i

/-- The rows of the commands that have been read and of one more. -/
def rowsOf (cmds : List (List Bytes)) (args : List Bytes) (i : ℕ) : List Bytes := (cmds ++ [args]).getD i []

theorem rowsOf_length : rowsOf cmds args cmds.length = args := by
  simp [rowsOf]

theorem rowsOf_update {args' : List Bytes} :
    Function.update (rowsOf cmds args) cmds.length args' = rowsOf cmds args' := by
  funext i
  rcases Nat.lt_trichotomy i cmds.length with hlt | rfl | hgt
  · rw [Function.update_of_ne (Nat.ne_of_lt hlt), rowsOf, rowsOf, List.getD_append _ _ _ _ hlt,
      List.getD_append _ _ _ _ hlt]
  · rw [Function.update_self, rowsOf_length]
  · rw [Function.update_of_ne (Nat.ne_of_gt hgt), rowsOf, rowsOf, List.getD_eq_default _ _ (by simp; omega),
      List.getD_eq_default _ _ (by simp; omega)]

theorem rowsOf_snoc : rowsOf (cmds ++ [args]) [] = rowsOf cmds args := by
  funext i
  rcases Nat.lt_or_ge i (cmds ++ [args]).length with hlt | hge
  · rw [rowsOf, List.getD_append _ _ _ _ hlt, rowsOf]
  · rw [rowsOf, List.getD_append_right _ _ _ _ hge, rowsOf, List.getD_eq_default _ _ hge]
    cases i - (cmds ++ [args]).length <;> rfl

theorem mapM_range {α : Type} {f : ℕ → Option α} {xs : List α} (h : ∀ i (hi : i < xs.length), f i = some xs[i]) :
    (List.range xs.length).mapM f = some xs := by
  have htake : ∀ k ≤ xs.length, (List.range k).mapM f = some (xs.take k) := by
    intro k hk
    induction k with
    | zero => rfl
    | succ k ih =>
      rw [List.range_succ, List.mapM_append, ih (Nat.le_of_succ_le hk), List.mapM_cons, h k hk, List.take_succ_eq_append_getElem hk]
      rfl
  rw [htake _ (Nat.le_refl _), List.take_length]

theorem argvs_eq {cmds : List (List Bytes)} (h : Table s.argcall s.argvall s.inbuf rows)
    (hrows : ∀ i, rows i = cmds.getD i []) (hnum : min (s.cmdnum + 1) cliMaxOncecmdNum = cmds.length) : s.argvs = some cmds := by
  rw [Parser.argvs, hnum]
  refine mapM_range fun i hi => ?_
  have hrow : rows i = cmds[i] := by
    rw [hrows]
    simp [hi]
  obtain ⟨hlen, hat⟩ := h i
  rw [← hrow, hlen]
  exact mapM_range fun k hk => (hat k hk).cstr_eq

/-! ### Turns -/

/-- What has been read of an argument. -/
def Mode.read : Mode → Bytes
  | .between => []
  | .inArg _ _ acc esc => seen acc esc

def Mode.isArg : Mode → Bool
  | .between => false
  | .inArg .. => true

def Mode.isQuoted : Mode → Bool
  | .between => false
  | .inArg quoted _ _ _ => quoted

def Mode.isEsc : Mode → Bool
  | .between => false
  | .inArg _ _ _ esc => esc

/-- The arguments read, and the one that is open at a place. -/
def Mode.Holds (m : Mode) (s : Parser) (l : Bytes) (rows : ℕ → List Bytes) (n : ℕ) : Prop :=
  if m.isArg then
    ∃ argcall argvall, Table argcall argvall l rows ∧ s.argcall = Function.update argcall n (argcall n + 1) ∧
      s.argvall = Function.update argvall n (Function.update (argvall n) (argcall n) l.length)
  else Table s.argcall s.argvall l rows

/-- The loop before a turn: behind `pre` and what has been read of an argument stands the rest `r`
    of the line. -/
structure Reads (m : Mode) (cmds : List (List Bytes)) (args : List Bytes) (pre r junk : Bytes) (s : Parser) : Prop where
  inbuf : s.inbuf = pre ++ m.read ++ r ++ 0 :: junk
  i : s.i = (pre ++ m.read).length
  size : s.i + r.length < inbufSize
  inArg : s.inArg = m.isArg
  inQuote : s.inQuote = m.isQuoted
  done : s.done = false
  cmdnum : s.cmdnum = cmds.length
  pargc : s.pargc = cmds.length
  room : cmds.length < cliMaxOncecmdNum
  argc : args.length + (if m.isArg then 1 else 0) < cliMaxArgNum
  last : m.isArg = true → m.isEsc = false → (pre ++ m.read).getLast? ≠ some backslash
  holds : m.Holds s pre (rowsOf cmds args) cmds.length

theorem Reads.argc_eq (h : Reads m cmds args pre r junk s) :
    s.argcall s.pargc = args.length + if m.isArg then 1 else 0 := by
  have hholds := h.holds
  unfold Mode.Holds at hholds
  rw [h.pargc]
  split_ifs at hholds ⊢ with hm
  · obtain ⟨argcall, argvall, htable, hcall, -⟩ := hholds
    rw [hcall, Function.update_self, (htable _).1, rowsOf_length]
  · rw [(hholds _).1, rowsOf_length, Nat.add_zero]

theorem Reads.getElem (h : Reads m cmds args pre (c :: r) junk s) : s.inbuf[s.i]? = some c := by
  rw [h.inbuf, h.i, List.append_assoc, List.getElem?_append_right (Nat.le_refl _), Nat.sub_self]
  rfl

theorem Reads.escaped (h : Reads m cmds args pre r junk s) : s.escaped = m.isEsc := by
  unfold Parser.escaped
  rw [h.inArg]
  cases m with
  | between => simp [Mode.isArg, Mode.isEsc]
  | inArg quoted rest acc esc =>
    have hlast := h.last
    rw [h.i, h.inbuf]
    rcases List.eq_nil_or_concat (pre ++ (Mode.inArg quoted rest acc esc).read) with hnil | ⟨l, x, hl⟩
    · rw [hnil]
      cases esc
      · rfl
      · simp [Mode.read, seen] at hnil
    · rw [hl] at hlast ⊢
      have hget : (l.concat x ++ r ++ 0 :: junk)[(l.concat x).length - 1]? = some x := by simp
      rw [hget]
      cases esc with
      | false =>
        have hx := hlast rfl rfl
        simp only [List.concat_eq_append, List.getLast?_append, List.getLast?_singleton, Option.some_or, ne_eq,
          Option.some.injEq] at hx
        simp [Mode.isEsc, hx]
      | true =>
        have hx := congrArg List.getLast? hl
        simp [Mode.read, seen] at hx
        simp [Mode.isArg, Mode.isEsc, hx]

theorem loop_on {pre' r' junk' : Bytes} {cmds' : List (List Bytes)} {args' : List Bytes}
    (h : Reads m cmds args pre (c :: r) junk s) (hswitch : s.switch c = some (some s'))
    (h' : Reads m' cmds' args' pre' r' junk' { s' with i := s'.i + 1 }) :
    s.loop (n + 1) = Parser.loop n { s' with i := s'.i + 1 } := by
  have hdone : s'.done = false := h'.done
  have hsize : s'.i + 1 < inbufSize := Nat.lt_of_le_of_lt (Nat.le_add_right _ _) h'.size
  have hcmdnum : s'.cmdnum < cliMaxOncecmdNum := h'.cmdnum ▸ h'.room
  have hargc : s'.argcall s'.pargc < cliMaxArgNum := by
    have hcall : s'.argcall s'.pargc = _ := h'.argc_eq
    rw [hcall]
    exact h'.argc
  rw [Parser.loop, h.getElem]
  simp only [Option.bind_eq_bind, Option.bind_some, hswitch, hdone]
  rw [if_neg Bool.false_ne_true, if_pos ⟨hsize, hcmdnum, hargc⟩]

theorem Reads.more {acc' : Bytes} {esc' : Bool} (h : Reads (.inArg quoted rest acc esc) cmds args pre (c :: r) junk s)
    (hread : seen acc' esc' = seen acc esc ++ [c]) (hlast : esc' = false → c ≠ backslash) :
    Reads (.inArg quoted rest acc' esc') cmds args pre r junk { s with i := s.i + 1 } where
  inbuf := by
    rw [h.inbuf]
    simp [Mode.read, hread]
  i := by
    rw [h.i]
    simp [Mode.read, hread, Nat.add_assoc]
  size := by
    have hsize := h.size
    rw [List.length_cons] at hsize
    change s.i + 1 + r.length < inbufSize
    omega
  inArg := h.inArg
  inQuote := h.inQuote
  done := h.done
  cmdnum := h.cmdnum
  pargc := h.pargc
  room := h.room
  argc := h.argc
  last := by
    intro _ hesc
    have hne := hlast hesc
    simp [Mode.read, hread, hne]
  holds := h.holds

theorem Reads.skip (h : Reads .between cmds args pre (c :: r) junk s) :
    Reads .between cmds args (pre ++ [c]) r junk { s with i := s.i + 1 } where
  inbuf := by
    rw [h.inbuf]
    simp [Mode.read]
  i := by
    rw [h.i]
    simp [Mode.read]
  size := by
    have hsize := h.size
    rw [List.length_cons] at hsize
    change s.i + 1 + r.length < inbufSize
    omega
  inArg := h.inArg
  inQuote := h.inQuote
  done := h.done
  cmdnum := h.cmdnum
  pargc := h.pargc
  room := h.room
  argc := h.argc
  last := nofun
  holds := Table.append h.holds [c]

theorem Reads.unescape_eq (h : Reads (.inArg quoted rest acc true) cmds args pre (c :: r) junk s) (hz : 0 ∉ c :: r) :
    s.unescape = some { s with inbuf := pre ++ acc ++ c :: r ++ 0 :: 0 :: junk, i := s.i - 1 } := by
  have hi := h.i
  have hinbuf := h.inbuf
  simp only [Mode.read, seen_true] at hi hinbuf
  have hstr : cstr s.inbuf s.i = some (c :: r) := by
    rw [hinbuf, hi]
    exact cstr_eq hz
  have hpos : s.i - 1 = (pre ++ acc).length := by
    rw [hi]
    simp
  have htake : s.inbuf.take (s.i - 1) = pre ++ acc := by
    have hsplit : s.inbuf = (pre ++ acc) ++ (backslash :: c :: r ++ 0 :: junk) := by
      rw [hinbuf]
      simp
    rw [hpos, hsplit, List.take_left]
  have hdrop : s.inbuf.drop (s.i + (c :: r).length) = 0 :: junk := by
    rw [hinbuf, hi, ← List.length_append, List.drop_left]
  rw [Parser.unescape, hstr, Option.map_some, htake, hdrop]

theorem Reads.unescape (h : Reads (.inArg quoted rest acc true) cmds args pre (c :: r) junk s) (hc : c ≠ backslash) :
    Reads (.inArg quoted rest (acc ++ [c]) false) cmds args pre r (0 :: junk)
      { s with inbuf := pre ++ acc ++ c :: r ++ 0 :: 0 :: junk, i := s.i - 1 + 1 } where
  inbuf := by simp [Mode.read, seen]
  i := by
    have hi := h.i
    simp only [Mode.read, seen_true] at hi
    rw [hi]
    simp [Mode.read, seen, Nat.add_assoc]
  size := by
    have hsize := h.size
    have hi := h.i
    simp only [Mode.read, seen_true, List.length_append, List.length_singleton] at hi
    rw [List.length_cons] at hsize
    change s.i - 1 + 1 + r.length < inbufSize
    omega
  inArg := h.inArg
  inQuote := h.inQuote
  done := h.done
  cmdnum := h.cmdnum
  pargc := h.pargc
  room := h.room
  argc := h.argc
  last := by
    intro _ _
    simp [Mode.read, seen, hc]
  holds := h.holds

/-- The loop with one more argument. -/
def Parser.opened (s : Parser) (quoted : Bool) (p : ℕ) : Parser :=
  { s with
    inArg := true
    inQuote := quoted
    argcall := Function.update s.argcall s.pargc (s.argcall s.pargc + 1)
    argvall := Function.update s.argvall s.cmdnum (Function.update (s.argvall s.cmdnum) (s.argcall s.pargc) p) }

theorem Reads.newArg (h : Reads .between cmds args pre r junk s) :
    Parser.newArg { s with inArg := true, inQuote := quoted } p = some (s.opened quoted p) := by
  have hargc := h.argc_eq
  have hlt := h.argc
  have hroom := h.room
  rw [← hargc] at hlt
  rw [← h.pargc] at hroom
  exact if_pos ⟨hroom, h.cmdnum.trans h.pargc.symm ▸ hroom, hlt⟩

theorem Reads.holds_opened {pre' : Bytes} (quoted : Bool) (h : Reads .between cmds args pre r junk s) (hpre : pre <+: pre') :
    ∃ argcall argvall, Table argcall argvall pre' (rowsOf cmds args) ∧
      (s.opened quoted pre'.length).argcall =
        Function.update argcall cmds.length (argcall cmds.length + 1) ∧
      (s.opened quoted pre'.length).argvall =
        Function.update argvall cmds.length (Function.update (argvall cmds.length) (argcall cmds.length) pre'.length) := by
  obtain ⟨x, rfl⟩ := hpre
  refine ⟨s.argcall, s.argvall, Table.append h.holds x, ?_, ?_⟩
  · simp only [Parser.opened, h.pargc]
  · simp only [Parser.opened, h.pargc, h.cmdnum]

theorem Reads.opened {pre' : Bytes} (h : Reads .between cmds args pre (c :: r) junk s) (hpre : pre <+: pre')
    (hread : pre' ++ seen acc esc = pre ++ [c]) (hlast : esc = false → c ≠ backslash)
    (hargc : args.length + 1 < cliMaxArgNum) :
    Reads (.inArg quoted rest acc esc) cmds args pre' r junk
      { s.opened quoted pre'.length with i := (s.opened quoted pre'.length).i + 1 } where
  inbuf := by
    change s.inbuf = _
    rw [h.inbuf, Mode.read, Mode.read, hread]
    simp
  i := by
    change s.i + 1 = _
    rw [h.i, Mode.read, Mode.read, hread]
    simp
  size := by
    have hsize := h.size
    rw [List.length_cons] at hsize
    change s.i + 1 + r.length < inbufSize
    omega
  inArg := rfl
  inQuote := rfl
  done := h.done
  cmdnum := h.cmdnum
  pargc := h.pargc
  room := h.room
  argc := hargc
  last := by
    intro _ hesc
    have hne := hlast hesc
    rw [Mode.read, hread]
    simp [hne]
  holds := h.holds_opened quoted hpre

/-- The arguments of the commands, with the one that is open, up to a NUL behind it. -/
theorem Reads.table (h : Reads (.inArg quoted rest acc esc) cmds args pre r junk s) (hz : 0 ∉ text) (l' : Bytes) :
    Table s.argcall s.argvall (pre ++ text ++ 0 :: l') (rowsOf cmds (args ++ [text])) := by
  obtain ⟨argcall, argvall, htable, hcall, hvall⟩ := h.holds
  have hclose := htable.close cmds.length hz l'
  rw [rowsOf_length, rowsOf_update] at hclose
  rw [hcall, hvall]
  exact hclose

/-- The loop with the argument ended. -/
def Parser.closed (s : Parser) : Parser := { s with inArg := false, inQuote := false, inbuf := s.inbuf.set s.i 0 }

theorem Reads.closed_inbuf (h : Reads (.inArg quoted rest acc esc) cmds args pre (c :: r) junk s) :
    s.closed.inbuf = pre ++ seen acc esc ++ 0 :: (r ++ 0 :: junk) := by
  change s.inbuf.set s.i 0 = _
  rw [h.inbuf, h.i, List.append_assoc, List.set_append_right _ _ (Nat.le_refl _), Nat.sub_self]
  rfl

theorem Reads.terminate (h : Reads (.inArg quoted rest acc esc) cmds args pre (c :: r) junk s) :
    Parser.terminate { s with inArg := false, inQuote := false } = some s.closed := by
  refine if_pos ?_
  have hget := h.getElem
  exact (List.getElem?_eq_some_iff.1 hget).1

theorem Reads.closed (h : Reads (.inArg quoted rest acc esc) cmds args pre (c :: r) junk s) (hz : 0 ∉ seen acc esc) :
    Reads .between cmds (args ++ [seen acc esc]) (pre ++ seen acc esc ++ [0]) r junk
      { s.closed with i := s.closed.i + 1 } where
  inbuf := by
    rw [h.closed_inbuf]
    simp [Mode.read]
  i := by
    change s.i + 1 = _
    rw [h.i]
    simp [Mode.read, Nat.add_assoc]
  size := by
    have hsize := h.size
    rw [List.length_cons] at hsize
    change s.i + 1 + r.length < inbufSize
    omega
  inArg := rfl
  inQuote := rfl
  done := h.done
  cmdnum := h.cmdnum
  pargc := h.pargc
  room := h.room
  argc := by
    have hargc : args.length + 1 < cliMaxArgNum := h.argc
    simpa [Mode.isArg] using hargc
  last := nofun
  holds := h.table hz []

theorem Reads.nextCommand (h : Reads (.inArg quoted rest acc esc) cmds args pre r junk s) :
    s.closed.nextCommand = { s.closed with
      cmdnum := cmds.length + 1
      pargc := if cmds.length + 1 < cliMaxOncecmdNum then cmds.length + 1 else cmds.length } := by
  have hargc : s.closed.argcall s.closed.pargc = args.length + 1 := h.argc_eq
  have hcmdnum : s.closed.cmdnum = cmds.length := h.cmdnum
  have hpargc : s.closed.pargc = cmds.length := h.pargc
  rw [Parser.nextCommand, if_pos (by rw [hargc]; exact Nat.succ_ne_zero _), hcmdnum, hpargc]

theorem Reads.next (h : Reads (.inArg quoted rest acc esc) cmds args pre (c :: r) junk s) (hz : 0 ∉ seen acc esc)
    (hroom : cmds.length + 1 < cliMaxOncecmdNum) :
    Reads .between (cmds ++ [args ++ [seen acc esc]]) [] (pre ++ seen acc esc ++ [0]) r junk
      { s.closed.nextCommand with i := s.closed.nextCommand.i + 1 } := by
  have hclosed := h.closed hz
  rw [h.nextCommand, if_pos hroom]
  have hlen : (cmds ++ [args ++ [seen acc esc]]).length = cmds.length + 1 := by simp
  constructor
  · exact hclosed.inbuf
  · exact hclosed.i
  · exact hclosed.size
  · rfl
  · rfl
  · exact hclosed.done
  · exact hlen.symm
  · exact hlen.symm
  · rw [hlen]
    exact hroom
  · decide
  · nofun
  · unfold Mode.Holds
    rw [rowsOf_snoc]
    exact hclosed.holds

/-! ### The end of the loop -/

theorem loop_done (hget : s.inbuf[s.i]? = some c) (hswitch : s.switch c = some (some s')) (hdone : s'.done = true) :
    s.loop (n + 1) = some (some s') := by
  rw [Parser.loop, hget]
  simp only [Option.bind_eq_bind, Option.bind_some, hswitch, hdone]
  rfl

theorem loop_stop (hget : s.inbuf[s.i]? = some c) (hswitch : s.switch c = some (some s')) (hdone : s'.done = false)
    (hstop : ¬ (s'.cmdnum < cliMaxOncecmdNum ∧ s'.argcall s'.pargc < cliMaxArgNum)) :
    s.loop (n + 1) = some (some { s' with i := s'.i + 1 }) := by
  rw [Parser.loop, hget]
  simp only [Option.bind_eq_bind, Option.bind_some, hswitch, hdone]
  rw [if_neg Bool.false_ne_true, if_neg fun h => hstop h.2]

theorem loop_two (hget : s.inbuf[s.i]? = some c) (hswitch : s.switch c = some none) : s.loop (n + 1) = some none := by
  rw [Parser.loop, hget]
  simp only [Option.bind_eq_bind, Option.bind_some, hswitch]

theorem pass_eq (hquote : s.inQuote = false) (htable : Table s.argcall s.argvall s.inbuf (rowsOf cmds args))
    (hnum : min (s.cmdnum + 1) cliMaxOncecmdNum = cmds.length + 1) : pass (some s) = some (some (cmds ++ [args])) := by
  have hargvs := argvs_eq htable (fun _ => rfl) (hnum.trans (by simp))
  rw [pass, if_neg (by rw [hquote]; exact Bool.false_ne_true), hargvs]
  rfl

/-! ### The loop on a line -/

theorem switch_quote : s.switch quote =
    if s.escaped then s.unescape.map some
    else if ¬ s.inQuote ∧ s.inArg then some (some s)
    else if s.inQuote ∧ ¬ s.inArg then some none
    else if ¬ s.inQuote ∧ ¬ s.inArg then
      (Parser.newArg { s with inArg := true, inQuote := true } (s.i + 1)).map some
    else (Parser.terminate { s with inArg := false, inQuote := false }).map some := by
  rw [Parser.switch, if_neg (by decide), if_pos rfl]

theorem switch_blank : s.switch blank =
    if s.escaped then s.unescape.map some
    else if ¬ s.inQuote ∧ s.inArg then (Parser.terminate { s with inArg := false }).map some
    else some (some s) := by
  rw [Parser.switch, if_neg (by decide), if_neg (by decide), if_pos rfl]

theorem switch_semicolon : s.switch semicolon =
    if s.escaped then s.unescape.map some
    else if s.inQuote then some none
    else if ¬ s.inQuote ∧ s.inArg then
      (Parser.terminate { s with inArg := false }).map (some ∘ Parser.nextCommand)
    else some (some s) := by
  rw [Parser.switch, if_neg (by decide), if_neg (by decide), if_neg (by decide), if_pos rfl]

theorem switch_default (hz : c ≠ 0) (hc : isSpecial c = false) :
    s.switch c = if ¬ s.inArg then (Parser.newArg { s with inArg := true } s.i).map some else some (some s) := by
  simp only [isSpecial, Bool.or_eq_false_iff, decide_eq_false_iff_not] at hc
  rw [Parser.switch, if_neg hz, if_neg hc.1.2, if_neg hc.1.1, if_neg hc.2]

theorem Reads.getElem_nul (h : Reads m cmds args pre [] junk s) : s.inbuf[s.i]? = some 0 := by
  rw [h.inbuf, h.i, List.append_nil, List.getElem?_append_right (Nat.le_refl _), Nat.sub_self]
  rfl

theorem loop_nil (h : Reads m cmds args pre [] junk s) (hok : m.Ok []) :
    (s.loop (n + 1)).bind pass = some (reading cmds args (toks m [])) := by
  have hget := h.getElem_nul
  have hquote := h.inQuote
  have hnum : min (s.cmdnum + 1) cliMaxOncecmdNum = cmds.length + 1 := by
    rw [h.cmdnum]
    exact Nat.min_eq_left h.room
  have hdone : s.inQuote = false → s.switch 0 = some (some { s with done := true }) := by
    intro hq
    simp [Parser.switch, hq]
  rcases m with - | ⟨- | -, rest, acc, esc⟩
  · rw [loop_done hget (hdone hquote) rfl, Option.bind_some]
    refine pass_eq hquote ?_ hnum
    have htable := Table.append h.holds (0 :: junk)
    have hinbuf : s.inbuf = pre ++ 0 :: junk := by
      rw [h.inbuf]
      simp [Mode.read]
    rw [← hinbuf] at htable
    exact htable
  · have hread : reading cmds args (toks (.inArg false rest acc esc) []) = some (cmds ++ [args ++ [seen acc esc]]) :=
      if_neg (Nat.ne_of_lt h.argc)
    rw [loop_done hget (hdone hquote) rfl, Option.bind_some, hread]
    refine pass_eq hquote ?_ hnum
    have htable := h.table hok.2.2.1 junk
    have hinbuf : s.inbuf = pre ++ seen acc esc ++ 0 :: junk := by
      rw [h.inbuf]
      simp [Mode.read]
    rw [← hinbuf] at htable
    exact htable
  · have hswitch : s.switch 0 = some none := by
      simp [Parser.switch, hquote, Mode.isQuoted]
    rw [loop_two hget hswitch]
    rfl

theorem loop_full (h : Reads .between cmds args pre (c :: r) junk s) (hswitch : s.switch c = some (some (s.opened quoted p)))
    (hp : quoted = false → p = pre.length) (hz : 0 ∉ c :: r) (hfull : args.length + 1 = cliMaxArgNum) :
    (s.loop (n + 1)).bind pass = some (if quoted then none else some (cmds ++ [args ++ [c :: r]])) := by
  have hargc : (s.opened quoted p).argcall (s.opened quoted p).pargc = args.length + 1 := by
    have hargc := h.argc_eq
    change Function.update s.argcall s.pargc (s.argcall s.pargc + 1) s.pargc = _
    rw [Function.update_self, hargc]
    rfl
  rw [loop_stop h.getElem hswitch h.done (fun hlt => Nat.ne_of_lt (hargc ▸ hlt.2) hfull), Option.bind_some]
  cases quoted with
  | true => rfl
  | false =>
    obtain rfl := hp rfl
    refine pass_eq rfl ?_ ?_
    · obtain ⟨argcall, argvall, htable, hcall, hvall⟩ := h.holds_opened false (List.prefix_refl pre)
      have hclose := htable.close cmds.length hz junk
      rw [rowsOf_length, rowsOf_update, ← hcall, ← hvall] at hclose
      have hinbuf : s.inbuf = pre ++ (c :: r) ++ 0 :: junk := by
        rw [h.inbuf]
        simp [Mode.read]
      rw [← hinbuf] at hclose
      exact hclose
    · change min (s.cmdnum + 1) _ = _
      rw [h.cmdnum]
      exact Nat.min_eq_left h.room

theorem loop_last (h : Reads (.inArg false rest acc esc) cmds args pre (c :: r) junk s) (hz : 0 ∉ seen acc esc)
    (hswitch : s.switch c = some (some s.closed.nextCommand)) (hlast : cmds.length + 1 = cliMaxOncecmdNum) :
    (s.loop (n + 1)).bind pass = some (some (cmds ++ [args ++ [seen acc esc]])) := by
  have hnext := h.nextCommand
  have hstop : ¬ (s.closed.nextCommand.cmdnum < cliMaxOncecmdNum ∧
      s.closed.nextCommand.argcall s.closed.nextCommand.pargc < cliMaxArgNum) := by
    rw [hnext]
    exact fun hlt => Nat.ne_of_lt hlt.1 hlast
  have hdone : s.closed.nextCommand.done = false := by
    rw [hnext]
    exact h.done
  rw [loop_stop h.getElem hswitch hdone hstop, Option.bind_some, hnext]
  refine pass_eq rfl ?_ ?_
  · have htable := h.table hz (r ++ 0 :: junk)
    rw [← h.closed_inbuf] at htable
    exact htable
  · change min (cmds.length + 1 + 1) _ = _
    rw [hlast]
    rfl

/-- What the loop makes of the rest of the line, wherever it goes on behind a character. -/
def Proceeds (s : Parser) (c : UInt8) (r : Bytes) (n : ℕ) : Prop :=
  ∀ {m cmds args pre junk} (s'), s.switch c = some (some s') →
    Reads m cmds args pre r junk { s' with i := s'.i + 1 } → m.Ok r →
      (s.loop (n + 1)).bind pass = some (reading cmds args (toks m r))

theorem loop_between (h : Reads .between cmds args pre (c :: r) junk s) (hok : Mode.between.Ok (c :: r))
    (hgo : Proceeds s c r n) :
    (s.loop (n + 1)).bind pass = some (reading cmds args (toks .between (c :: r))) := by
  have hesc := h.escaped
  have harg := h.inArg
  have hquote := h.inQuote
  simp only [Mode.isEsc, Mode.isArg, Mode.isQuoted] at hesc harg hquote
  have hcz : c ≠ 0 := fun h0 => hok (h0 ▸ List.mem_cons_self)
  have hrz : 0 ∉ r := fun h0 => hok (List.mem_cons_of_mem _ h0)
  -- an argument begins, and the loop ends with it or goes on
  have hopen : ∀ {quoted rest acc esc pre'}, s.switch c = some (some (s.opened quoted pre'.length)) →
      pre <+: pre' → pre' ++ seen acc esc = pre ++ [c] → (esc = false → c ≠ backslash) →
      (quoted = false → pre' = pre ∧ rest = c :: r) → (Mode.inArg quoted rest acc esc).Ok r →
      (s.loop (n + 1)).bind pass = some (reading cmds args (toks (.inArg quoted rest acc esc) r)) := by
    intro quoted rest acc esc pre' hswitch hpre hread hlast hrest hok'
    by_cases hfull : args.length + 1 = cliMaxArgNum
    · rw [loop_full h hswitch (fun hq => congrArg List.length (hrest hq).1) hok hfull, reading_open hfull]
      cases quoted
      · rw [(hrest rfl).2]
      · rfl
    · have hargc : args.length + 1 < cliMaxArgNum := Nat.lt_of_le_of_ne h.argc hfull
      exact hgo _ hswitch (h.opened hpre hread hlast hargc) hok'
  have hword : isSpecial c = false → s.switch c = some (some (s.opened false pre.length)) := by
    intro hc
    have hself : { s with inArg := true } = { s with inArg := true, inQuote := false } := by rw [← hquote]
    have hi : s.i = pre.length := by
      rw [h.i]
      simp [Mode.read]
    rw [switch_default hcz hc, harg, if_pos Bool.false_ne_true, hself, h.newArg, hi]
    rfl
  rw [toks]
  split_ifs with hblank hsemi hq hback
  · subst hblank
    refine hgo s ?_ h.skip hrz
    rw [switch_blank, hesc, harg]
    simp
  · subst hsemi
    refine hgo s ?_ h.skip hrz
    rw [switch_semicolon, hesc, harg, hquote]
    simp
  · subst hq
    refine @hopen true r [] false (pre ++ [quote]) ?_ (List.prefix_append ..) ?_ (fun _ => by decide) (by rintro ⟨⟩) ?_
    · have hi : s.i + 1 = (pre ++ [quote]).length := by
        rw [h.i]
        simp [Mode.read]
      rw [switch_quote, hesc, harg, hquote, hi, h.newArg]
      simp
    · simp [seen]
    · exact ok_quote hok
  · subst hback
    exact hopen (hword rfl) (List.prefix_refl _) rfl (by rintro ⟨⟩) (fun _ => ⟨rfl, rfl⟩) (ok_first hok rfl)
  · refine hopen (hword ?_) (List.prefix_refl _) rfl (fun _ => hback) (fun _ => ⟨rfl, rfl⟩) (ok_first hok rfl)
    simp [isSpecial, hblank, hsemi, hq]

theorem loop_inArg (h : Reads (.inArg quoted rest acc esc) cmds args pre (c :: r) junk s)
    (hok : (Mode.inArg quoted rest acc esc).Ok (c :: r)) (hgo : Proceeds s c r n) :
    (s.loop (n + 1)).bind pass = some (reading cmds args (toks (.inArg quoted rest acc esc) (c :: r))) := by
  have hesc := h.escaped
  have harg := h.inArg
  have hquote := h.inQuote
  simp only [Mode.isEsc, Mode.isArg, Mode.isQuoted] at hesc harg hquote
  have hcr := hok.2.2.2
  have hcz : c ≠ 0 := fun h0 => hcr (h0 ▸ List.mem_cons_self)
  have hz := hok.2.2.1
  have hclosed := h.closed hz
  rw [toks]
  split_ifs with hspecial hback hq hbad hblank hsemi
  · obtain ⟨rfl, hc⟩ := hspecial
    have hne : c ≠ backslash := by
      rintro rfl
      exact absurd hc (by decide)
    have hun := h.unescape_eq hcr
    refine hgo { s with inbuf := pre ++ acc ++ c :: r ++ 0 :: 0 :: junk, i := s.i - 1 } ?_ (h.unescape hne)
      (ok_special hok)
    simp only [isSpecial, Bool.or_eq_true, decide_eq_true_eq] at hc
    rcases hc with (rfl | rfl) | rfl
    · rw [switch_blank, hesc, if_pos rfl, hun]
      rfl
    · rw [switch_quote, hesc, if_pos rfl, hun]
      rfl
    · rw [switch_semicolon, hesc, if_pos rfl, hun]
      rfl
  · subst hback
    have hmore : Reads (.inArg quoted rest (seen acc esc) true) cmds args pre r junk { s with i := s.i + 1 } :=
      h.more rfl nofun
    refine hgo s ?_ hmore (ok_more hok rfl)
    rw [switch_default (by decide) rfl, harg]
    rfl
  · -- the closing quote
    obtain ⟨rfl, rfl⟩ := hq
    obtain rfl : esc = false := by simpa [isSpecial] using hspecial
    rw [reading_arg h.argc]
    refine hgo s.closed ?_ hclosed (not_mem_tail hcr)
    rw [switch_quote, hesc, harg, hquote, h.terminate]
    rfl
  · obtain ⟨rfl, rfl⟩ := hbad
    obtain rfl : esc = false := by simpa [isSpecial] using hspecial
    have hswitch : s.switch semicolon = some none := by
      rw [switch_semicolon, hesc, hquote]
      rfl
    rw [loop_two h.getElem hswitch]
    rfl
  · -- a blank behind the argument
    rw [Bool.not_eq_true] at hblank
    obtain ⟨rfl, rfl⟩ := hblank
    obtain rfl : esc = false := by simpa [isSpecial] using hspecial
    rw [reading_arg h.argc]
    refine hgo s.closed ?_ hclosed (not_mem_tail hcr)
    rw [switch_blank, hesc, harg, hquote, h.terminate]
    rfl
  · -- a semicolon
    rw [Bool.not_eq_true] at hsemi
    obtain ⟨rfl, rfl⟩ := hsemi
    obtain rfl : esc = false := by simpa [isSpecial] using hspecial
    have hswitch : s.switch semicolon = some (some s.closed.nextCommand) := by
      rw [switch_semicolon, hesc, harg, hquote, h.terminate]
      rfl
    rw [reading_ends h.argc]
    split_ifs with hlast
    · exact loop_last h hz hswitch hlast
    · exact hgo _ hswitch (h.next hz (Nat.lt_of_le_of_ne h.room hlast)) (not_mem_tail hcr)
  · -- any other character
    have hmore : Reads (.inArg quoted rest (seen acc esc ++ [c]) false) cmds args pre r junk
        { s with i := s.i + 1 } := h.more rfl fun _ => hback
    refine hgo s ?_ hmore (ok_more hok rfl)
    by_cases hc : isSpecial c = true
    swap
    · rw [switch_default hcz (Bool.eq_false_iff.2 hc), harg]
      rfl
    obtain rfl : esc = false := by simpa [hc] using hspecial
    simp only [isSpecial, Bool.or_eq_true, decide_eq_true_eq] at hc
    rcases hc with (rfl | rfl) | rfl
    · obtain rfl : quoted = true := by simpa using hblank
      rw [switch_blank, hesc, hquote]
      rfl
    · obtain rfl : quoted = false := by simpa using hq
      rw [switch_quote, hesc, hquote, harg]
      rfl
    · cases quoted
      · exact absurd ⟨Bool.false_ne_true, rfl⟩ hsemi
      · exact absurd ⟨rfl, rfl⟩ hbad

theorem loop_reads (h : Reads m cmds args pre r junk s) (hok : m.Ok r) (hn : r.length < n) :
    (s.loop n).bind pass = some (reading cmds args (toks m r)) := by
  obtain ⟨n, rfl⟩ : ∃ k, n = k + 1 := ⟨n - 1, by omega⟩
  induction r generalizing m cmds args pre junk s n with
  | nil => exact loop_nil h hok
  | cons c r ih =>
    have hn : r.length < n := Nat.lt_of_succ_lt_succ hn
    obtain ⟨n, rfl⟩ : ∃ k, n = k + 1 := ⟨n - 1, by omega⟩
    have hgo : Proceeds s c r (n + 1) := by
      intro m' cmds' args' pre' junk' s' hswitch h' hok'
      rw [loop_on h hswitch h']
      exact ih h' hok' n hn
    cases m with
    | between => exact loop_between h hok hgo
    | inArg => exact loop_inArg h hok hgo

/-- **The line** is read within its buffer, and the loop makes of it what it makes of its tokens. -/
theorem parseInput_eq (line : Line) (junk : Bytes) :
    parseInput (line.text ++ 0 :: junk) = some (reading [] [] (toks .between line.text)) := by
  have hstart : Reads .between [] [] [] line.text junk (.start (line.text ++ 0 :: junk)) := by
    constructor
    · rfl
    · rfl
    · rw [Parser.start, Nat.zero_add]
      exact line.short
    · rfl
    · rfl
    · rfl
    · rfl
    · rfl
    · decide
    · decide
    · nofun
    · intro i
      cases i <;> exact ⟨rfl, nofun⟩
  exact loop_reads hstart line.ok line.short

end

end Cli
