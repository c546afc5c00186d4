/-
  The table of commands of the shell (`tools/cli/cli.c`): `aos_cli_register_command(s)`,
  `aos_cli_unregister_command(s)`, and the lookup in `proc_onecmd`.

  `cli` is there: `aos_cli_init` has allocated it.  A command is where it lies in memory, and an
  array of commands is what lies behind its first one.  What a command lies at does not change.
-/
import AliOS.Cli.HandleInput
import Mathlib.Data.List.Nodup

namespace Cli

open Lib

/-- `struct cli_command` -/
structure CliCommand where
  name : Option CStr
  function : Option ℕ

/-- `commands` and `num_commands` of `struct cli_st`. -/
structure Commands where
  commands : ℕ → Option ℕ
  numCommands : ℕ

namespace Commands

def init : Commands := ⟨fun _ => none, 0⟩

def EINVAL : ℤ := 22
def ENOMEM : ℤ := 12

/-- The memory: a command at each place. -/
abbrev Mem := ℕ → CliCommand

/-- `!cmd->name || !cmd->function` -/
def invalid (mem : Mem) (cmd : ℕ) : Bool := (mem cmd).name.isNone || (mem cmd).function.isNone

def aosCliRegisterCommand (mem : Mem) (c : Commands) (cmd : ℕ) : Commands × ℤ :=
  if invalid mem cmd then (c, -EINVAL)
  else if c.numCommands < maxCommands then
    if (List.range c.numCommands).any fun i => c.commands i = some cmd then (c, 0)
    else (⟨Function.update c.commands c.numCommands (some cmd), c.numCommands + 1⟩, 0)
  else (c, -ENOMEM)

/-- The command at `i` is taken out: `memmove` moves those behind it, and the last place is cleared. -/
def remove (c : Commands) (i : ℕ) : Commands :=
  let numCommands := c.numCommands - 1
  { commands := fun j =>
      if j = numCommands then none else if i ≤ j ∧ j < numCommands then c.commands (j + 1) else c.commands j
    numCommands := numCommands }

def aosCliUnregisterCommand (mem : Mem) (c : Commands) (cmd : ℕ) : Commands × ℤ :=
  if invalid mem cmd then (c, -EINVAL)
  else
    match (List.range c.numCommands).find? fun i => c.commands i = some cmd with
    | none => (c, -ENOMEM)
    | some i => (c.remove i, 0)

/-- The loop of `aos_cli_register_commands` and `aos_cli_unregister_commands`. -/
def each (f : Commands → ℕ → Commands × ℤ) (c : Commands) (cmds : ℕ) : (num : ℕ) → Commands × ℤ
  | 0 => (c, 0)
  | num + 1 =>
    let r := f c cmds
    if r.2 ≠ 0 then r else each f r.1 (cmds + 1) num

def aosCliRegisterCommands (mem : Mem) : Commands → ℕ → ℕ → Commands × ℤ := each (aosCliRegisterCommand mem)

def aosCliUnregisterCommands (mem : Mem) : Commands → ℕ → ℕ → Commands × ℤ := each (aosCliUnregisterCommand mem)

/-- The comparison in `lookup_command`. -/
def matchesName (name : Bytes) (len : ℕ) (command : CStr) : Bool :=
  if len ≠ 0 then strncmpEq (command.text ++ [0]) (name ++ [0]) len else command.text = name

/-- The loop of `lookup_command`, at most `left` times; there is no result where it reads a command at NULL. -/
def lookupLoop (mem : Mem) (c : Commands) (name : Bytes) (len : ℕ) : (left i n : ℕ) → Option (Option ℕ)
  | 0, _, _ => some none
  | left + 1, i, n =>
    if n < c.numCommands then
      match c.commands i with
      | none => none
      | some p =>
        match (mem p).name with
        | none => lookupLoop mem c name len left (i + 1) n
        | some command =>
          if matchesName name len command then some (some p) else lookupLoop mem c name len left (i + 1) (n + 1)
    else some none

/-- `lookup_command`: a command in the table, or NULL. -/
def lookupCommand (mem : Mem) (c : Commands) (name : Bytes) (len : ℕ) : Option (Option ℕ) :=
  lookupLoop mem c name len maxCommands 0 0

/-- `proc_onecmd`: what it returns, and the function it calls with the arguments. -/
def procOnecmd (mem : Mem) (c : Commands) : List Bytes → Option (ℕ × Option (ℕ × List Bytes))
  | [] => some (0, none)
  | name :: args =>
    (lookupCommand mem c name (dotIndex name)).bind fun
      | none => some (1, none)
      | some p => (mem p).function.map fun f => (0, some (f, name :: args))

end Commands

inductive CommandOp
  | register (cmd : ℕ)
  | unregister (cmd : ℕ)
  | registerAll (cmds num : ℕ)
  | unregisterAll (cmds num : ℕ)

namespace Commands

def step (mem : Mem) (c : Commands) : CommandOp → Commands
  | .register cmd => (aosCliRegisterCommand mem c cmd).1
  | .unregister cmd => (aosCliUnregisterCommand mem c cmd).1
  | .registerAll cmds num => (aosCliRegisterCommands mem c cmds num).1
  | .unregisterAll cmds num => (aosCliUnregisterCommands mem c cmds num).1

/-! ## What it is for -/

/-- The command is in the table. -/
def Registered (c : Commands) (p : ℕ) : Prop := ∃ i, c.commands i = some p

/-- The table has no gaps, no command twice, and no more than there is room for. -/
structure Packed (c : Commands) : Prop where
  le : c.numCommands ≤ maxCommands
  filled : ∀ i, (c.commands i).isSome ↔ i < c.numCommands
  once : ∀ i j, i < c.numCommands → c.commands i = c.commands j → i = j

/-- The part of a word before its first dot. -/
def stem (name : Bytes) : Bytes := name.takeWhile (· ≠ 0x2e)

/-- The command has this name. -/
def Named (mem : Mem) (name : Bytes) (p : ℕ) : Prop := (mem p).name.map CStr.text = some name

/-- **Dispatch**: the function of a command that is named by the stem of the word is called with the
    arguments, or nothing is called where there is no such command. -/
def Dispatches (mem : Mem) (c : Commands) (name : Bytes) (args : List Bytes) : Prop :=
  (∃ p f, c.Registered p ∧ Named mem (stem name) p ∧ (mem p).function = some f ∧
      procOnecmd mem c (name :: args) = some (0, some (f, name :: args))) ∨
    (∀ p, c.Registered p → ¬ Named mem (stem name) p) ∧ procOnecmd mem c (name :: args) = some (1, none)

/-- The name of the command begins with the stem; or is the word, where that has no dot or begins with one. -/
def Takes (mem : Mem) (name : Bytes) (p : ℕ) : Prop :=
  ∃ command, (mem p).name = some command ∧
    if 0x2e ∈ name ∧ stem name ≠ [] then stem name <+: command.text else command.text = name

/-- The first command that the word takes has the function of one named by the stem; and if there is
    one so named, there is one that the word takes. -/
def Meets (mem : Mem) (c : Commands) (name : Bytes) : Prop :=
  (∀ i p, c.commands i = some p → Takes mem name p → (∀ j q, j < i → c.commands j = some q → ¬ Takes mem name q) →
      ∃ q, c.Registered q ∧ Named mem (stem name) q ∧ (mem q).function = (mem p).function) ∧
    ((∃ q, c.Registered q ∧ Named mem (stem name) q) → ∃ p, c.Registered p ∧ Takes mem name p)

variable {mem : Mem} {c : Commands} {l : List ℕ} {cmd i n : ℕ} {name word : Bytes} {args : List Bytes}

/-! ## The table -/

/-- The commands in the table are the list, from the first place on. -/
structure Holds (mem : Mem) (c : Commands) (l : List ℕ) : Prop where
  commands : ∀ i, c.commands i = l[i]?
  num : c.numCommands = l.length
  nodup : l.Nodup
  le : l.length ≤ maxCommands
  valid : ∀ p ∈ l, invalid mem p = false

theorem holds_init : Holds mem init [] := ⟨fun _ => rfl, rfl, .nil, Nat.zero_le _, by simp⟩

theorem Holds.packed (h : Holds mem c l) : Packed c where
  le := h.num ▸ h.le
  filled i := by
    rw [h.commands, h.num]
    simp
  once i j hi heq := by
    rw [h.num] at hi
    rw [h.commands, h.commands, List.getElem?_eq_getElem hi] at heq
    obtain ⟨hj, hij⟩ := List.getElem?_eq_some_iff.1 heq.symm
    exact (h.nodup.getElem_inj_iff.1 hij).symm

theorem Holds.registered (h : Holds mem c l) {p : ℕ} : c.Registered p ↔ p ∈ l := by
  rw [Registered, List.mem_iff_getElem?]
  exact exists_congr fun i => by rw [h.commands]

theorem Holds.register (h : Holds mem c l) : ∃ l', Holds mem (aosCliRegisterCommand mem c cmd).1 l' := by
  unfold aosCliRegisterCommand
  split_ifs with hinv hlt hany
  · exact ⟨l, h⟩
  · exact ⟨l, h⟩
  · have hno : cmd ∉ l := by
      intro hmem
      obtain ⟨i, hi⟩ := h.registered.2 hmem
      have hlt : i < c.numCommands := (h.packed.filled i).1 (by rw [hi]; rfl)
      exact hany (List.any_eq_true.2 ⟨i, List.mem_range.2 hlt, by rw [hi]; simp⟩)
    refine ⟨l ++ [cmd], fun i => ?_, ?_, ?_, ?_, ?_⟩
    · dsimp only
      rw [Function.update_apply, h.num, h.commands]
      split_ifs with hi
      · rw [hi, List.getElem?_concat_length]
      · rcases Nat.lt_or_gt_of_ne hi with hi | hi
        · rw [List.getElem?_append_left hi]
        · rw [List.getElem?_eq_none hi.le, List.getElem?_eq_none (by simp; omega)]
    · dsimp only
      rw [h.num, List.length_append, List.length_singleton]
    · refine List.nodup_append.2 ⟨h.nodup, List.nodup_singleton _, fun a ha b hb heq => hno ?_⟩
      rw [← List.mem_singleton.1 hb, ← heq]
      exact ha
    · rw [h.num] at hlt
      rw [List.length_append]
      exact hlt
    · intro p hp
      rcases List.mem_append.1 hp with hp | hp
      · exact h.valid p hp
      · rw [List.mem_singleton.1 hp]
        exact Bool.eq_false_iff.2 hinv
  · exact ⟨l, h⟩

theorem Holds.remove (h : Holds mem c l) (hi : i < c.numCommands) : Holds mem (c.remove i) (l.eraseIdx i) := by
  have hlen : i < l.length := h.num ▸ hi
  have hnum : (l.eraseIdx i).length = l.length - 1 := List.length_eraseIdx_of_lt hlen
  refine ⟨fun j => ?_, ?_, h.nodup.eraseIdx i, ?_, fun p hp => h.valid p (List.mem_of_mem_eraseIdx hp)⟩
  · dsimp only [Commands.remove]
    rw [List.getElem?_eraseIdx, h.num, h.commands, h.commands]
    by_cases hj : j = l.length - 1
    · rw [if_pos hj]
      split_ifs
      · omega
      · rw [List.getElem?_eq_none (by omega)]
    rw [if_neg hj]
    by_cases hji : j < i
    · rw [if_pos hji, if_neg (by omega)]
    rw [if_neg hji]
    split_ifs
    · rfl
    · rw [List.getElem?_eq_none (by omega), List.getElem?_eq_none (by omega)]
  · dsimp only [Commands.remove]
    rw [h.num, hnum]
  · rw [hnum]
    exact (Nat.sub_le _ _).trans h.le

theorem Holds.unregister (h : Holds mem c l) : ∃ l', Holds mem (aosCliUnregisterCommand mem c cmd).1 l' := by
  unfold aosCliUnregisterCommand
  split_ifs with hinv
  · exact ⟨l, h⟩
  · cases hfind : (List.range c.numCommands).find? fun i => c.commands i = some cmd with
    | none => exact ⟨l, h⟩
    | some i => exact ⟨_, h.remove (List.mem_range.1 (List.mem_of_find?_eq_some hfind))⟩

theorem each_holds {f : Commands → ℕ → Commands × ℤ}
    (hf : ∀ {c l cmd}, Holds mem c l → ∃ l', Holds mem (f c cmd).1 l') (h : Holds mem c l) (cmds num : ℕ) :
    ∃ l', Holds mem (each f c cmds num).1 l' := by
  induction num generalizing c l cmds with
  | zero => exact ⟨l, h⟩
  | succ num ih =>
    obtain ⟨l', h'⟩ := @hf _ _ cmds h
    rw [each]
    split_ifs
    · exact ⟨l', h'⟩
    · exact ih h' (cmds + 1)

theorem Holds.step (h : Holds mem c l) (op : CommandOp) : ∃ l', Holds mem (step mem c op) l' := by
  cases op with
  | register cmd => exact h.register
  | unregister cmd => exact h.unregister
  | registerAll cmds num => exact each_holds Holds.register h cmds num
  | unregisterAll cmds num => exact each_holds Holds.unregister h cmds num

theorem run_holds (mem : Mem) (ops : List CommandOp) : ∃ l, Holds mem (ops.foldl (Commands.step mem) init) l := by
  have hrun : Run (Fn (Commands.step mem)) init ops (ops.foldl (Commands.step mem) init) := run_fn.2 rfl
  refine hrun.keeps (I := fun c => ∃ l, Holds mem c l) ?_ ⟨[], holds_init⟩
  rintro c op _ ⟨l, h⟩ rfl
  exact h.step op

/-! ## The lookup -/

theorem strncmpEq_prefix {p q : Bytes} (hp : 0 ∉ p) (hq : 0 ∉ q) (hn : n ≤ q.length) :
    strncmpEq (p ++ [0]) (q ++ [0]) n = true ↔ q.take n <+: p := by
  induction n generalizing p q with
  | zero => simp [strncmpEq]
  | succ n ih =>
    cases q with
    | nil => exact absurd hn (Nat.not_succ_le_zero n)
    | cons b q =>
      obtain ⟨hb, hq⟩ := not_or.1 (List.mem_cons.not.1 hq)
      cases p with
      | nil => simp [strncmpEq, hb]
      | cons a p =>
        obtain ⟨ha, hp⟩ := not_or.1 (List.mem_cons.not.1 hp)
        rw [List.cons_append, List.cons_append, strncmpEq, List.take_succ_cons, List.cons_prefix_cons]
        by_cases hab : a = b
        · rw [if_neg (not_not_intro hab), if_neg (Ne.symm ha), ih hp hq (Nat.le_of_succ_le_succ hn),
            and_iff_right hab.symm]
        · rw [if_pos hab]
          exact iff_of_false Bool.false_ne_true fun h => hab h.1.symm

theorem stem_eq_take (h : 0x2e ∈ name) : stem name = name.take (name.idxOf 0x2e) := by
  induction name with
  | nil => exact absurd h List.not_mem_nil
  | cons a name ih =>
    by_cases ha : a = 0x2e
    · simp [stem, ha]
    · have hmem : 0x2e ∈ name := (List.mem_cons.1 h).resolve_left (Ne.symm ha)
      rw [List.idxOf_cons_ne _ ha, List.take_succ_cons, ← ih hmem]
      simp [stem, ha]

theorem dotIndex_ne_zero : dotIndex name ≠ 0 ↔ 0x2e ∈ name ∧ stem name ≠ [] := by
  unfold dotIndex
  split_ifs with h
  · rw [and_iff_right h, stem_eq_take h]
    rw [Ne, Ne, List.take_eq_nil_iff, not_or, and_iff_left (List.ne_nil_of_mem h)]
  · exact iff_of_false (not_not_intro rfl) fun hh => h hh.1

theorem matchesName_iff {command : CStr} (hname : 0 ∉ name) : matchesName name (dotIndex name) command = true ↔
    if 0x2e ∈ name ∧ stem name ≠ [] then stem name <+: command.text else command.text = name := by
  unfold matchesName
  by_cases h : 0x2e ∈ name ∧ stem name ≠ []
  · rw [if_pos (dotIndex_ne_zero.2 h), if_pos h, stem_eq_take h.1]
    have hidx : dotIndex name = name.idxOf 0x2e := if_pos h.1
    rw [hidx]
    exact strncmpEq_prefix command.ok hname (List.idxOf_le_length)
  · rw [if_neg (dotIndex_ne_zero.not.2 h), if_neg h, decide_eq_true_eq]

/-- The word takes the command at `p`. -/
def takes (mem : Mem) (name : Bytes) (p : ℕ) : Bool := ((mem p).name.map (matchesName name (dotIndex name))).getD false

theorem takes_iff {p : ℕ} (hname : 0 ∉ name) : takes mem name p = true ↔ Takes mem name p := by
  unfold takes Takes
  cases (mem p).name with
  | none => simp
  | some command =>
    simp only [Option.map_some, Option.getD_some, matchesName_iff hname, Option.some.injEq, exists_eq_left']

theorem Holds.lookupLoop (h : Holds mem c l) (left : ℕ) (hi : i + left = maxCommands) :
    lookupLoop mem c name (dotIndex name) left i i = some ((l.drop i).find? (takes mem name)) := by
  induction left generalizing i with
  | zero =>
    have hle := h.le
    rw [Commands.lookupLoop, List.drop_eq_nil_of_le (by omega), List.find?_nil]
  | succ left ih =>
    rw [Commands.lookupLoop, h.num]
    split_ifs with hlt
    · have hp : c.commands i = some l[i] := by rw [h.commands, List.getElem?_eq_getElem hlt]
      have hvalid := h.valid l[i] (List.getElem_mem hlt)
      obtain ⟨command, hname⟩ : ∃ command, (mem l[i]).name = some command := by
        cases hn : (mem l[i]).name with
        | none => simp [invalid, hn] at hvalid
        | some command => exact ⟨command, rfl⟩
      have htakes : takes mem name l[i] = matchesName name (dotIndex name) command := by rw [takes, hname]; rfl
      rw [hp]
      dsimp only
      rw [hname, List.drop_eq_getElem_cons hlt, List.find?_cons, htakes]
      dsimp only
      cases matchesName name (dotIndex name) command with
      | true => rfl
      | false => exact ih (by omega)
    · rw [List.drop_eq_nil_of_le (Nat.le_of_not_lt hlt), List.find?_nil]

theorem Holds.procOnecmd (h : Holds mem c l) :
    procOnecmd mem c (name :: args) = match l.find? (takes mem name) with
      | none => some (1, none)
      | some p => (mem p).function.map fun f => (0, some (f, name :: args)) := by
  rw [Commands.procOnecmd, Commands.lookupCommand, h.lookupLoop _ (Nat.zero_add _), List.drop_zero, Option.bind_some]

theorem Holds.function (h : Holds mem c l) {p : ℕ} (hp : p ∈ l) : ∃ f, (mem p).function = some f := by
  have hvalid := h.valid p hp
  cases hf : (mem p).function with
  | none => simp [invalid, hf] at hvalid
  | some f => exact ⟨f, rfl⟩

/-! ## Dispatch -/

theorem Holds.dispatches_iff (h : Holds mem c l) (hname : 0 ∉ name) : Dispatches mem c name args ↔ Meets mem c name := by
  unfold Dispatches
  rw [h.procOnecmd]
  cases hfind : l.find? (takes mem name) with
  | none =>
    have hno : ∀ p, c.Registered p → ¬ Takes mem name p := fun p hp htakes =>
      List.find?_eq_none.1 hfind p (h.registered.1 hp) ((takes_iff hname).2 htakes)
    constructor
    · rintro (⟨p, f, -, -, -, heq⟩ | ⟨hnone, -⟩)
      · cases heq
      · exact ⟨fun i p hp htakes _ => absurd htakes (hno p ⟨i, hp⟩), fun ⟨q, hq, hnamed⟩ => absurd hnamed (hnone q hq)⟩
    · intro hm
      refine .inr ⟨fun p hp hnamed => ?_, rfl⟩
      obtain ⟨q, hq, htakes⟩ := hm.2 ⟨p, hp, hnamed⟩
      exact hno q hq htakes
  | some p =>
    obtain ⟨htakes, i, hi, rfl, hbefore⟩ := List.find?_eq_some_iff_getElem.1 hfind
    obtain ⟨f, hf⟩ := h.function (List.getElem_mem hi)
    have hcmd : c.commands i = some l[i] := by rw [h.commands, List.getElem?_eq_getElem hi]
    have hfirst : ∀ j q, j < i → c.commands j = some q → ¬ Takes mem name q := by
      intro j q hj hq ht
      rw [h.commands, List.getElem?_eq_getElem (hj.trans hi)] at hq
      cases hq
      simpa [(takes_iff hname).2 ht] using hbefore j hj
    dsimp only
    rw [hf, Option.map_some]
    constructor
    · rintro (⟨p, g, hp, hnamed, hg, heq⟩ | ⟨-, heq⟩)
      · obtain rfl : f = g := congrArg Prod.fst (Option.some.inj (congrArg Prod.snd (Option.some.inj heq)))
        refine ⟨fun j q hq hq' hq'' => ?_, fun _ => ⟨l[i], ⟨i, hcmd⟩, (takes_iff hname).1 htakes⟩⟩
        have hji : j = i := by
          rcases Nat.lt_trichotomy j i with hlt | heq | hlt
          · exact absurd hq' (hfirst j q hlt hq)
          · exact heq
          · exact absurd ((takes_iff hname).1 htakes) (hq'' i _ hlt hcmd)
        subst hji
        obtain rfl := Option.some.inj (hcmd.symm.trans hq)
        exact ⟨p, hp, hnamed, hg.trans hf.symm⟩
      · cases heq
    · intro hm
      obtain ⟨q, hq, hnamed, hfun⟩ := hm.1 i _ hcmd ((takes_iff hname).1 htakes) hfirst
      exact .inl ⟨q, f, hq, hnamed, hfun.trans hf, rfl⟩

/-- **CLI dispatch is exact**: in every run the table is packed, and a word is dispatched exactly
    where the first command that it takes runs what one named by its stem does. -/
theorem dispatch_exact_iff (mem : Mem) (ops : List CommandOp) :
    Packed (ops.foldl (Commands.step mem) init) ∧ ∀ (name : CStr) (args : List Bytes),
      Dispatches mem (ops.foldl (Commands.step mem) init) name.text args ↔
        Meets mem (ops.foldl (Commands.step mem) init) name.text := by
  obtain ⟨l, h⟩ := run_holds mem ops
  exact ⟨h.packed, fun name _ => h.dispatches_iff name.ok⟩

/-- A command with the name `foobar`. -/
def foobar : Mem := fun _ => ⟨some ⟨[0x66, 0x6f, 0x6f, 0x62, 0x61, 0x72], by decide⟩, some 7⟩

/-- It is called for the word `foo.a`. -/
theorem foobar_called :
    ¬ Dispatches foobar ([.register 0].foldl (Commands.step foobar) init) [0x66, 0x6f, 0x6f, 0x2e, 0x61] [] := by
  rintro (⟨p, f, -, hnamed, -, -⟩ | ⟨-, heq⟩)
  · change some _ = some _ at hnamed
    exact absurd hnamed (by decide)
  · exact absurd heq (by decide)

end Commands

end Cli
