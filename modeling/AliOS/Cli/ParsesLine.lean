/-
  When `handle_input` parses a line by its grammar.

  Two limits end the loop: a sixth semicolon directly behind an argument, and the
  sixteenth argument of a command.  `Goes` says of tokens that none of them is such an
  end.
-/
import AliOS.Cli.HandleInput

namespace Cli

variable {cmds D : List (List Bytes)} {args : List Bytes} {ts a b : List Tok} {tok : Tok} {s : ℕ × ℕ}

/-! ## Limits -/

/-- How many commands have been ended, and how many arguments the one that is read has. -/
def count : ℕ × ℕ → Tok → ℕ × ℕ
  | (n, k), .arg _ _ _ ends => if ends then (n + 1, 0) else (n, k + 1)
  | s, _ => s

/-- A limit ends the loop with a token. -/
def Ends (s : ℕ × ℕ) : Tok → Prop
  | .arg _ _ _ ends => s.2 + 1 = cliMaxArgNum ∨ ends = true ∧ s.1 + 1 = cliMaxOncecmdNum
  | _ => False

/-- The loop goes on behind the tokens. -/
def Goes (s : ℕ × ℕ) (a : List Tok) : Prop := ∀ x tok y, a = x ++ tok :: y → ¬ Ends (x.foldl count s) tok

/-- A property of every token that the loop comes to, and of those behind it. -/
def Everywhere (P : ℕ × ℕ → Tok → List Tok → Prop) (s : ℕ × ℕ) (ts : List Tok) : Prop :=
  ∀ a tok b, ts = a ++ tok :: b → Goes s a → P (a.foldl count s) tok b

theorem goes_nil : Goes s [] := fun x tok y h => by simp at h

theorem goes_cons : Goes s (tok :: a) ↔ ¬ Ends s tok ∧ Goes (count s tok) a := by
  constructor
  · intro h
    refine ⟨h [] tok a rfl, ?_⟩
    rintro x t y rfl
    exact h (tok :: x) t y rfl
  · rintro ⟨hends, h⟩ (_ | ⟨t, x⟩) u y heq
    · cases heq
      exact hends
    · cases heq
      exact h x u y rfl

theorem everywhere_nil {P : ℕ × ℕ → Tok → List Tok → Prop} : Everywhere P s [] := fun a tok b h => by simp at h

theorem everywhere_cons {P : ℕ × ℕ → Tok → List Tok → Prop} :
    Everywhere P s (tok :: ts) ↔ P s tok ts ∧ (¬ Ends s tok → Everywhere P (count s tok) ts) := by
  constructor
  · intro h
    refine ⟨h [] tok ts rfl goes_nil, ?_⟩
    rintro hends a t b rfl hgoes
    exact h (tok :: a) t b rfl (goes_cons.2 ⟨hends, hgoes⟩)
  · rintro ⟨hhead, h⟩ (_ | ⟨t, a⟩) u b heq hgoes
    · cases heq
      exact hhead
    · cases heq
      obtain ⟨hends, hgoes⟩ := goes_cons.1 hgoes
      exact h hends a u b rfl hgoes

theorem not_ends_last {n k : ℕ} {quoted : Bool} {text rest : Bytes} (hfull : ¬ k + 1 = cliMaxArgNum)
    (hlast : ¬ n + 1 = cliMaxOncecmdNum) : ¬ Ends (n, k) (.arg quoted text rest true) := by
  rintro (h | ⟨-, h⟩)
  · exact hfull h
  · exact hlast h

theorem not_ends_more {n k : ℕ} {quoted : Bool} {text rest : Bytes} (hfull : ¬ k + 1 = cliMaxArgNum) :
    ¬ Ends (n, k) (.arg quoted text rest false) := by
  rintro (h | ⟨h, -⟩)
  · exact hfull h
  · cases h

/-! ## Lines with a syntax error -/

/-- Here the loop returns 2: a syntax error, or a last argument in quotes. -/
def Fails (s : ℕ × ℕ) : Tok → Prop
  | .err => True
  | .arg quoted _ _ _ => quoted = true ∧ s.2 + 1 = cliMaxArgNum
  | .semi => False

/-- The loop comes to such a token. -/
def Comes (s : ℕ × ℕ) (ts : List Tok) : Prop := ∃ a tok b, ts = a ++ tok :: b ∧ Goes s a ∧ Fails (a.foldl count s) tok

theorem comes_cons : Comes s (tok :: ts) ↔ Fails s tok ∨ ¬ Ends s tok ∧ Comes (count s tok) ts := by
  constructor
  · rintro ⟨_ | ⟨t, a⟩, u, b, heq, hgoes, hfails⟩
    · cases heq
      exact .inl hfails
    · cases heq
      obtain ⟨hends, hgoes⟩ := goes_cons.1 hgoes
      exact .inr ⟨hends, a, u, b, rfl, hgoes, hfails⟩
  · rintro (hfails | ⟨hends, a, u, b, rfl, hgoes, hfails⟩)
    · exact ⟨[], tok, ts, rfl, goes_nil, hfails⟩
    · exact ⟨tok :: a, u, b, rfl, goes_cons.2 ⟨hends, hgoes⟩, hfails⟩

theorem reading_none_iff : reading cmds args ts = none ↔ Comes (cmds.length, args.length) ts := by
  induction ts generalizing cmds args with
  | nil =>
    refine iff_of_false (by rintro ⟨⟩) ?_
    rintro ⟨a, tok, b, heq, -⟩
    simp at heq
  | cons tok ts ih =>
    rw [comes_cons]
    cases tok with
    | err => exact iff_of_true rfl (.inl trivial)
    | semi =>
      rw [reading, ih]
      exact ⟨fun h => .inr ⟨id, h⟩, fun h => h.resolve_left id |>.2⟩
    | arg quoted text rest ends =>
      rw [reading]
      by_cases hfull : args.length + 1 = cliMaxArgNum
      · rw [if_pos hfull]
        cases quoted
        · refine iff_of_false (by rintro ⟨⟩) ?_
          rintro (⟨hq, -⟩ | ⟨hends, -⟩)
          · cases hq
          · exact hends (.inl hfull)
        · exact iff_of_true rfl (.inl ⟨rfl, hfull⟩)
      · rw [if_neg hfull]
        have hfails : ¬ Fails (cmds.length, args.length) (.arg quoted text rest ends) := fun h => hfull h.2
        cases ends with
        | true =>
          rw [if_pos rfl]
          by_cases hlast : cmds.length + 1 = cliMaxOncecmdNum
          · rw [if_pos hlast]
            refine iff_of_false (by rintro ⟨⟩) ?_
            rintro (h | ⟨hends, -⟩)
            · exact hfails h
            · exact hends (.inr ⟨rfl, hlast⟩)
          · rw [if_neg hlast, ih, List.length_append]
            exact ⟨fun h => .inr ⟨not_ends_last hfull hlast, h⟩, fun h => (h.resolve_left hfails).2⟩
        | false =>
          rw [if_neg Bool.false_ne_true, ih, List.length_append]
          exact ⟨fun h => .inr ⟨not_ends_more hfull, h⟩, fun h => (h.resolve_left hfails).2⟩

/-! ## Other lines -/

def Tok.isArg : Tok → Bool
  | .arg .. => true
  | _ => false

/-- No argument is behind a semicolon that stands apart from the arguments before it, and a sixteenth
    argument has no quotes and is the rest of the line as it stands. -/
def Keeps (s : ℕ × ℕ) (tok : Tok) (b : List Tok) : Prop :=
  match tok with
  | .semi => 0 < s.2 → ∀ t ∈ b, t.isArg = false
  | .arg quoted text rest _ => s.2 + 1 = cliMaxArgNum → quoted = false ∧ text = rest
  | .err => True

theorem reading_prefix (h : reading cmds args ts = some D) : ∃ x more, D = cmds ++ (args ++ x) :: more := by
  induction ts generalizing cmds args with
  | nil =>
    cases h
    exact ⟨[], [], by simp⟩
  | cons tok ts ih =>
    cases tok with
    | err => cases h
    | semi => exact ih h
    | arg quoted text rest ends =>
      rw [reading] at h
      split_ifs at h
      · cases h
        exact ⟨[rest], [], rfl⟩
      · cases h
        exact ⟨[text], [], rfl⟩
      · obtain ⟨x, more, rfl⟩ := ih h
        exact ⟨[text], ([] ++ x) :: more, by simp⟩
      · obtain ⟨x, more, rfl⟩ := ih h
        exact ⟨text :: x, more, by simp⟩

theorem commands_prefix (h : args ≠ []) : ∃ x more, commands args ts = (args ++ x) :: more := by
  induction ts generalizing args with
  | nil => exact ⟨[], [], by simp [commands, command, h]⟩
  | cons tok ts ih =>
    cases tok with
    | err => exact ih h
    | semi => exact ⟨[], commands [] ts, by simp [commands, command, h]⟩
    | arg quoted text rest ends =>
      cases ends
      · obtain ⟨x, more, heq⟩ : ∃ x more, commands (args ++ [text]) ts = (args ++ [text] ++ x) :: more := ih (by simp)
        exact ⟨text :: x, more, by simp [commands, heq]⟩
      · exact ⟨[text], commands [] ts, by simp [commands, command]⟩

theorem commands_arg (args : List Bytes) (quoted : Bool) (text rest : Bytes) (ends : Bool) (ts : List Tok) :
    ∃ x more, commands args (.arg quoted text rest ends :: ts) = (args ++ [text] ++ x) :: more := by
  cases ends
  · have hne : args ++ [text] ≠ [] := by simp
    exact commands_prefix hne
  · exact ⟨[], commands [] ts, by simp [commands, command]⟩

theorem reading_longer (harg : ∃ t ∈ ts, t.isArg = true) (h : reading cmds args ts = some D) :
    ∃ x more, x ≠ [] ∧ D = cmds ++ (args ++ x) :: more := by
  induction ts with
  | nil =>
    obtain ⟨t, ht, -⟩ := harg
    cases ht
  | cons tok ts ih =>
    cases tok with
    | err => cases h
    | semi =>
      obtain ⟨t, ht, hisArg⟩ := harg
      rcases List.mem_cons.1 ht with rfl | ht
      · cases hisArg
      · exact ih ⟨t, ht, hisArg⟩ h
    | arg quoted text rest ends =>
      rw [reading] at h
      split_ifs at h
      · cases h
        exact ⟨[rest], [], by simp, rfl⟩
      · cases h
        exact ⟨[text], [], by simp, rfl⟩
      · obtain ⟨x, more, rfl⟩ := reading_prefix h
        exact ⟨[text], ([] ++ x) :: more, by simp, by simp⟩
      · obtain ⟨x, more, rfl⟩ := reading_prefix h
        exact ⟨text :: x, more, by simp, by simp⟩

theorem reading_noArg (h : ∀ t ∈ ts, t.isArg = false) (herr : .err ∉ ts) :
    reading cmds args ts = some (cmds ++ [args]) ∧ commands [] ts = [] ∧ Everywhere Keeps s ts := by
  induction ts with
  | nil => exact ⟨rfl, rfl, everywhere_nil⟩
  | cons tok ts ih =>
    rw [List.mem_cons, not_or] at herr
    obtain ⟨hread, hcmds, hkeeps⟩ := ih (fun t ht => h t (List.mem_cons_of_mem _ ht)) herr.2
    cases tok with
    | err => exact absurd rfl herr.1
    | semi =>
      exact ⟨hread, by simp [commands, command, hcmds],
        everywhere_cons.2 ⟨fun _ t ht => h t (List.mem_cons_of_mem _ ht), fun _ => hkeeps⟩⟩
    | arg => cases h _ List.mem_cons_self

/-- Commands that have arguments. -/
def Filled (cmds : List (List Bytes)) : Prop := ∀ args ∈ cmds, args ≠ []

theorem flatMap_filled (h : Filled cmds) : cmds.flatMap command = cmds := by
  induction cmds with
  | nil => rfl
  | cons args cmds ih =>
    rw [List.flatMap_cons, command, if_neg (h args List.mem_cons_self), ih fun x hx => h x (List.mem_cons_of_mem _ hx)]
    rfl

theorem Filled.snoc (h : Filled cmds) (hargs : args ≠ []) : Filled (cmds ++ [args]) := by
  intro x hx
  rcases List.mem_append.1 hx with hx | hx
  · exact h x hx
  · rwa [List.mem_singleton.1 hx]

/-- The commands that are passed are the first ones of the grammar. -/
def Agree (cmds : List (List Bytes)) (args : List Bytes) (ts : List Tok) : Prop :=
  ∃ D, reading cmds args ts = some D ∧ D.flatMap command = (cmds ++ commands args ts).take cliMaxOncecmdNum

theorem agree_of_last {args' : List Bytes} {rest : List (List Bytes)} (hcmds : Filled cmds) (hargs : args ≠ [])
    (hread : reading cmds args' ts = some (cmds ++ [args])) (hlast : cmds.length + 1 = cliMaxOncecmdNum)
    (hcommands : commands args' ts = args :: rest) : Agree cmds args' ts := by
  refine ⟨_, hread, ?_⟩
  have hlen : (cmds ++ [args]).length = cliMaxOncecmdNum := by simpa using hlast
  have hsplit : cmds ++ args :: rest = (cmds ++ [args]) ++ rest := by simp
  rw [flatMap_filled (hcmds.snoc hargs), hcommands, hsplit, ← hlen, List.take_left]

theorem agree_semi (herr : .err ∉ ts) (hcmds : Filled cmds) (hn : cmds.length < cliMaxOncecmdNum)
    (hempty : Agree cmds [] ts ↔ Everywhere Keeps (cmds.length, 0) ts) :
    Agree cmds args (.semi :: ts) ↔ Everywhere Keeps (cmds.length, args.length) (.semi :: ts) := by
  rw [everywhere_cons]
  by_cases hargs : args = []
  · -- nothing has been read of the command
    subst hargs
    have hagree : Agree cmds [] (.semi :: ts) ↔ Agree cmds [] ts := Iff.rfl
    rw [hagree, hempty]
    exact ⟨fun h => ⟨fun hpos => absurd hpos (Nat.lt_irrefl 0), fun _ => h⟩, fun h => h.2 id⟩
  by_cases harg : ∃ t ∈ ts, t.isArg = true
  · -- the next argument is read into the command
    refine iff_of_false ?_ fun h => ?_
    · rintro ⟨D, hread, heq⟩
      obtain ⟨x, more, hx, rfl⟩ := reading_longer harg hread
      have hget := congrArg (fun l => l[cmds.length]?) heq
      have hright : ((cmds ++ commands args (.semi :: ts)).take cliMaxOncecmdNum)[cmds.length]? = some args := by
        rw [List.getElem?_take_of_lt hn, List.getElem?_append_right (Nat.le_refl _)]
        simp [commands, command, hargs]
      have hleft : ((cmds ++ (args ++ x) :: more).flatMap command)[cmds.length]? = some (args ++ x) := by
        rw [List.flatMap_append, flatMap_filled hcmds, List.getElem?_append_right (Nat.le_refl _)]
        simp [command, hargs]
      rw [hleft, hright] at hget
      exact hx (List.append_right_eq_self.1 (Option.some.inj hget))
    · obtain ⟨t, ht, hisArg⟩ := harg
      have hnone := h.1 (List.length_pos_iff.2 hargs) t ht
      rw [hisArg] at hnone
      cases hnone
  · have hnone : ∀ t ∈ ts, t.isArg = false := by
      intro t ht
      rw [← Bool.not_eq_true]
      exact fun hisArg => harg ⟨t, ht, hisArg⟩
    obtain ⟨hread, hcommands, hkeeps⟩ := reading_noArg hnone herr
    refine iff_of_true ⟨_, hread, ?_⟩ ⟨fun _ => hnone, fun _ => hkeeps⟩
    rw [flatMap_filled (hcmds.snoc hargs), List.take_of_length_le]
    · simp [commands, command, hargs, hcommands]
    · simpa [commands, command, hargs, hcommands, Nat.succ_le_iff] using hn

theorem agree_full {quoted ends : Bool} {text rest : Bytes} (hcmds : Filled cmds) (hn : cmds.length < cliMaxOncecmdNum)
    (hfull : args.length + 1 = cliMaxArgNum) (hwhole : quoted = false → text = rest → ts = [] ∧ ends = false) :
    Agree cmds args (.arg quoted text rest ends :: ts) ↔ quoted = false ∧ text = rest := by
  have hread : reading cmds args (.arg quoted text rest ends :: ts) =
      if quoted then none else some (cmds ++ [args ++ [rest]]) := if_pos hfull
  constructor
  · rintro ⟨D, hD, heq⟩
    rw [hread] at hD
    split_ifs at hD with hq
    cases hD
    obtain ⟨x, more, hcommands⟩ := commands_arg args quoted text rest ends ts
    have hget := congrArg (fun l => l[cmds.length]?) heq
    rw [flatMap_filled (hcmds.snoc (by simp)), List.getElem?_take_of_lt hn,
      List.getElem?_append_right (Nat.le_refl _), List.getElem?_append_right (Nat.le_refl _), hcommands] at hget
    simp only [Nat.sub_self, List.getElem?_cons_zero, Option.some.injEq, List.append_assoc,
      List.append_cancel_left_eq, List.singleton_append, List.cons.injEq] at hget
    exact ⟨Bool.eq_false_iff.2 hq, hget.1.symm⟩
  · rintro ⟨rfl, rfl⟩
    obtain ⟨rfl, rfl⟩ := hwhole rfl rfl
    refine ⟨_, hread, ?_⟩
    rw [flatMap_filled (hcmds.snoc (by simp)), List.take_of_length_le]
    · simp [commands, command]
    · simpa [commands, command, Nat.succ_le_iff] using hn

/-- **Lines without a syntax error** are read by the grammar exactly if no command is read into the
    one before, and the last argument that is read is not cut. -/
theorem agree_iff (hwf : Wf ts) (herr : .err ∉ ts) (hcmds : Filled cmds) (hn : cmds.length < cliMaxOncecmdNum) :
    Agree cmds args ts ↔ Everywhere Keeps (cmds.length, args.length) ts := by
  induction hwf generalizing cmds args with
  | nil =>
    refine iff_of_true ⟨_, rfl, ?_⟩ everywhere_nil
    have hflat : (cmds ++ [args]).flatMap command = cmds ++ command args := by
      rw [List.flatMap_append, flatMap_filled hcmds]
      simp
    rw [hflat, commands, List.take_of_length_le]
    unfold command
    split_ifs
    · simpa using Nat.le_of_lt hn
    · simpa [Nat.succ_le_iff] using hn
  | err => exact absurd List.mem_cons_self herr
  | semi _ ih =>
    have herr' := List.not_mem_of_not_mem_cons herr
    exact agree_semi herr' hcmds hn (ih herr' hcmds hn)
  | @arg quoted ends text rest ts _ _ _ hwhole ih =>
    have herr' := List.not_mem_of_not_mem_cons herr
    have hfilled : args ++ [text] ≠ [] := by simp
    rw [everywhere_cons]
    by_cases hfull : args.length + 1 = cliMaxArgNum
    · rw [agree_full hcmds hn hfull hwhole]
      exact ⟨fun h => ⟨fun _ => h, fun hends => absurd (.inl hfull) hends⟩, fun h => h.1 hfull⟩
    have hkeeps : Keeps (cmds.length, args.length) (.arg quoted text rest ends) ts := fun h => absurd h hfull
    rw [and_iff_right hkeeps]
    cases ends with
    | true =>
      have hread : reading cmds args (.arg quoted text rest true :: ts) =
          if cmds.length + 1 = cliMaxOncecmdNum then some (cmds ++ [args ++ [text]])
          else reading (cmds ++ [args ++ [text]]) [] ts := by
        rw [reading, if_neg hfull, if_pos rfl]
      have hcommands : commands args (.arg quoted text rest true :: ts) = (args ++ [text]) :: commands [] ts := by
        simp [commands, command]
      by_cases hlast : cmds.length + 1 = cliMaxOncecmdNum
      · rw [if_pos hlast] at hread
        exact iff_of_true (agree_of_last hcmds hfilled hread hlast hcommands)
          fun hends => absurd (.inr ⟨rfl, hlast⟩) hends
      · rw [if_neg hlast] at hread
        have hagree : Agree cmds args (.arg quoted text rest true :: ts) ↔ Agree (cmds ++ [args ++ [text]]) [] ts := by
          have hsplit : cmds ++ (args ++ [text]) :: commands [] ts = cmds ++ [args ++ [text]] ++ commands [] ts := by
            simp
          unfold Agree
          rw [hread, hcommands, hsplit]
        have hlen : (cmds ++ [args ++ [text]]).length = cmds.length + 1 := by simp
        rw [hagree, ih herr' (hcmds.snoc hfilled) (by rw [hlen]; exact Nat.lt_of_le_of_ne hn hlast), hlen]
        exact ⟨fun h _ => h, fun h => h (not_ends_last hfull hlast)⟩
    | false =>
      have hagree : Agree cmds args (.arg quoted text rest false :: ts) ↔ Agree cmds (args ++ [text]) ts := by
        unfold Agree
        rw [reading, if_neg hfull, if_neg Bool.false_ne_true]
        rfl
      rw [hagree, ih herr' hcmds hn, List.length_append]
      exact ⟨fun h _ => h, fun h => h (not_ends_more hfull)⟩

/-! ## What is run -/

variable {table : List CStr}

theorem strncmpEq_self {p : Bytes} {n : ℕ} (h : n ≤ p.length) : strncmpEq p p n = true := by
  induction n generalizing p with
  | zero => simp [strncmpEq]
  | succ n ih =>
    cases p with
    | nil => exact absurd h (Nat.not_succ_le_zero n)
    | cons a p =>
      rw [strncmpEq, if_neg (not_not_intro rfl), ih (Nat.le_of_succ_le_succ h)]
      simp

theorem lookup_found {c : CStr} (hc : c ∈ table.take maxCommands) :
    (lookupCommand table c.text (dotIndex c.text)).isSome := by
  rw [lookupCommand, List.find?_isSome]
  refine ⟨c, hc, ?_⟩
  split_ifs
  · refine strncmpEq_self ?_
    have hle : dotIndex c.text ≤ c.text.length := by
      unfold dotIndex
      split_ifs
      · exact List.idxOf_le_length
      · exact Nat.zero_le _
    rw [List.length_append]
    exact Nat.le_add_right_of_le hle
  · simp

theorem runAll_command : runAll table (cmds.flatMap command) = runAll table cmds := by
  induction cmds with
  | nil => rfl
  | cons args cmds ih =>
    rw [List.flatMap_cons, command]
    split_ifs with hargs
    · subst hargs
      rw [List.nil_append, ih]
      simp [runAll, procOnecmd]
    · rw [List.singleton_append, runAll, runAll, ih]

theorem runAll_le : (runAll table cmds).1 ≤ 1 := by
  have hproc : ∀ args, (procOnecmd table args).1 ≤ 1 := by
    rintro (_ | ⟨name, args⟩)
    · exact Nat.zero_le _
    · rw [procOnecmd]
      split
      · exact Nat.le_refl _
      · exact Nat.zero_le _
  induction cmds with
  | nil => exact Nat.zero_le _
  | cons args cmds ih =>
    have hor : (procOnecmd table args).1 ||| (runAll table cmds).1 < 2 ^ 1 :=
      Nat.or_lt_two_pow (Nat.lt_succ_of_le (hproc args)) (Nat.lt_succ_of_le ih)
    exact Nat.le_of_lt_succ hor

/-- Every first argument names a command. -/
def Named (table : List CStr) (cmds : List (List Bytes)) : Prop :=
  ∀ args ∈ cmds, ∃ c ∈ table.take maxCommands, args.head? = some c.text

theorem runAll_named (h : Named table cmds) : (runAll table cmds).2.map Prod.snd = cmds := by
  induction cmds with
  | nil => rfl
  | cons args cmds ih =>
    obtain ⟨c, hc, hhead⟩ := h args List.mem_cons_self
    cases args with
    | nil => cases hhead
    | cons name args =>
      obtain rfl : name = c.text := Option.some.inj hhead
      obtain ⟨command, hfound⟩ := Option.isSome_iff_exists.1 (lookup_found hc)
      have hproc : procOnecmd table (c.text :: args) = (0, [(command, c.text :: args)]) := by
        rw [procOnecmd, hfound]
      rw [runAll, hproc, List.map_append, ih fun x hx => h x (List.mem_cons_of_mem _ hx)]
      rfl

/-- The arguments are strings. -/
def Strings (cmds : List (List Bytes)) : Prop := ∀ args ∈ cmds, ∀ a ∈ args, 0 ∉ a

/-- The command that a first argument names. -/
def nameOf (args : List Bytes) : Option CStr :=
  args.head?.bind fun name => if h : 0 ∉ name then some ⟨name, h⟩ else none

theorem named_filterMap {rows : List (List Bytes)} (hfilled : Filled cmds) (hstrings : Strings cmds) (hsub : cmds ⊆ rows)
    (hlen : rows.length ≤ maxCommands) : Named (rows.filterMap nameOf) cmds := by
  intro args hargs
  cases args with
  | nil => exact absurd rfl (hfilled _ hargs)
  | cons name args =>
    have hname : nameOf (name :: args) = some ⟨name, hstrings _ hargs name List.mem_cons_self⟩ :=
      dif_pos (hstrings _ hargs name List.mem_cons_self)
    have hmem := List.mem_filterMap.2 ⟨_, hsub hargs, hname⟩
    rw [← List.take_of_length_le ((List.length_filterMap_le nameOf rows).trans hlen)] at hmem
    exact ⟨_, hmem, rfl⟩

theorem eq_of_runAll {C : List (List Bytes)} (hD : Filled D) (hC : Filled C) (hDs : Strings D) (hCs : Strings C)
    (hDlen : D.length ≤ cliMaxOncecmdNum) (hClen : C.length ≤ cliMaxOncecmdNum)
    (h : ∀ table, runAll table D = runAll table C) : D = C := by
  have hlen : (D ++ C).length ≤ maxCommands := by
    rw [List.length_append]
    exact (Nat.add_le_add hDlen hClen).trans (by decide)
  have hDn := named_filterMap hD hDs (List.subset_append_left D C) hlen
  have hCn := named_filterMap hC hCs (List.subset_append_right D C) hlen
  rw [← runAll_named hDn, h, runAll_named hCn]

/-! ## Arguments that are passed -/

theorem Strings.snoc (h : Strings cmds) (hargs : ∀ a ∈ args, 0 ∉ a) : Strings (cmds ++ [args]) := by
  intro x hx
  rcases List.mem_append.1 hx with hx | hx
  · exact h x hx
  · rwa [List.mem_singleton.1 hx]

theorem strings_more {text : Bytes} (hargs : ∀ a ∈ args, 0 ∉ a) (htext : 0 ∉ text) : ∀ a ∈ args ++ [text], 0 ∉ a := by
  intro a ha
  rcases List.mem_append.1 ha with ha | ha
  · exact hargs a ha
  · rwa [List.mem_singleton.1 ha]

theorem strings_last (hcmds : Strings cmds) (hargs : ∀ a ∈ args, 0 ∉ a) (hn : cmds.length < cliMaxOncecmdNum)
    (h : some (cmds ++ [args]) = some D) : Strings D ∧ D.length ≤ cliMaxOncecmdNum := by
  cases h
  refine ⟨hcmds.snoc hargs, ?_⟩
  rw [List.length_append]
  exact hn

theorem reading_strings (hwf : Wf ts) (hcmds : Strings cmds) (hargs : ∀ a ∈ args, 0 ∉ a)
    (hn : cmds.length < cliMaxOncecmdNum) (h : reading cmds args ts = some D) :
    Strings D ∧ D.length ≤ cliMaxOncecmdNum := by
  induction hwf generalizing cmds args with
  | nil => exact strings_last hcmds hargs hn h
  | err => cases h
  | semi _ ih => exact ih hcmds hargs hn h
  | arg _ htext hrest _ ih =>
    rw [reading] at h
    split_ifs at h with _ _ hends hlen
    · exact strings_last hcmds (strings_more hargs hrest) hn h
    · exact strings_last hcmds (strings_more hargs htext) hn h
    · refine ih (hcmds.snoc (strings_more hargs htext)) (List.forall_mem_nil _) ?_ h
      rw [List.length_append]
      exact Nat.lt_of_le_of_ne hn hlen
    · exact ih hcmds (strings_more hargs htext) hn h

theorem command_mem {x : List Bytes} (h : x ∈ command args) : x = args ∧ args ≠ [] := by
  unfold command at h
  split_ifs at h with hnil
  · cases h
  · exact ⟨List.mem_singleton.1 h, hnil⟩

theorem commands_strings (hwf : Wf ts) (hargs : ∀ a ∈ args, 0 ∉ a) :
    Strings (commands args ts) ∧ Filled (commands args ts) := by
  have hcommand : ∀ {args : List Bytes}, (∀ a ∈ args, 0 ∉ a) → ∀ x ∈ command args, (∀ a ∈ x, 0 ∉ a) ∧ x ≠ [] := by
    intro args hargs x hx
    obtain ⟨rfl, hne⟩ := command_mem hx
    exact ⟨hargs, hne⟩
  suffices hall : ∀ x ∈ commands args ts, (∀ a ∈ x, 0 ∉ a) ∧ x ≠ [] from
    ⟨fun x hx => (hall x hx).1, fun x hx => (hall x hx).2⟩
  induction hwf generalizing args with
  | nil => exact hcommand hargs
  | err => exact hcommand hargs
  | semi _ ih =>
    intro x hx
    rcases List.mem_append.1 hx with hx | hx
    · exact hcommand hargs x hx
    · exact ih (List.forall_mem_nil _) x hx
  | arg _ htext _ _ ih =>
    intro x hx
    rw [commands] at hx
    split_ifs at hx
    · rcases List.mem_append.1 hx with hx | hx
      · exact hcommand (strings_more hargs htext) x hx
      · exact ih (List.forall_mem_nil _) x hx
    · exact ih (strings_more hargs htext) x hx

theorem flatMap_sublist : (cmds.flatMap command).Sublist cmds := by
  induction cmds with
  | nil => exact List.Sublist.refl _
  | cons args cmds ih =>
    rw [List.flatMap_cons, command]
    split_ifs
    · exact ih.cons _
    · exact ih.cons_cons _

theorem filled_flatMap : Filled (cmds.flatMap command) := by
  intro x hx
  obtain ⟨args, -, hmem⟩ := List.mem_flatMap.1 hx
  obtain ⟨rfl, hne⟩ := command_mem hmem
  exact hne

/-- What a call does with what the loop has read. -/
def outcome (table : List CStr) : Option (List (List Bytes)) → ℕ × List (CStr × List Bytes)
  | none => (2, [])
  | some argvs => runAll table argvs

theorem parsesLine_outcome (line : Line) : ParsesLine line ↔
    ∀ table, outcome table (reading [] [] (toks .between line.text)) = expected table line.text := by
  have heq : ∀ table junk, handleInput table (line.text ++ 0 :: junk) =
      some (outcome table (reading [] [] (toks .between line.text))) := by
    intro table junk
    rw [handleInput, parseInput_eq]
    cases reading [] [] (toks .between line.text) <;> rfl
  constructor
  · intro h table
    have hlen : (line.text ++ 0 :: List.replicate (inbufSize - (line.text.length + 1)) 0).length = inbufSize := by
      have hshort := line.short
      rw [List.length_append, List.length_cons, List.length_replicate]
      omega
    have hparses := h table _ hlen
    rw [heq] at hparses
    exact Option.some.inj hparses
  · intro h table junk _
    rw [heq, h]

theorem runAll_ne_two : runAll table cmds ≠ (2, []) := by
  intro h
  have hle : (runAll table cmds).1 ≤ 1 := runAll_le
  rw [h] at hle
  exact absurd hle (by decide)

/-- **Lines are parsed by the grammar** exactly if the loop comes to the syntax error of one that has
    an error, and otherwise no command is read into the one before, and no last argument is cut. -/
theorem parsesLine_iff (line : Line) : ParsesLine line ↔
    (.err ∈ toks .between line.text → Comes (0, 0) (toks .between line.text)) ∧
      (.err ∉ toks .between line.text → Everywhere Keeps (0, 0) (toks .between line.text)) := by
  have hwf : Wf (toks .between line.text) := toks_wf line.ok
  rw [parsesLine_outcome]
  unfold expected parse
  by_cases herr : .err ∈ toks .between line.text
  · simp only [herr, not_true_eq_false, false_imp_iff, and_true, true_imp_iff]
    have hcomes : reading [] [] (toks .between line.text) = none ↔ Comes (0, 0) (toks .between line.text) :=
      reading_none_iff
    rw [← hcomes]
    constructor
    · intro h
      by_contra hne
      obtain ⟨D, hD⟩ := Option.ne_none_iff_exists'.1 hne
      have hrun := h []
      rw [hD] at hrun
      exact runAll_ne_two hrun
    · intro h table
      rw [h]
      rfl
  · simp only [herr, not_false_eq_true, false_imp_iff, true_and, true_imp_iff]
    have hagree : Agree [] [] (toks .between line.text) ↔ Everywhere Keeps (0, 0) (toks .between line.text) :=
      agree_iff hwf herr (List.forall_mem_nil _) (by decide)
    rw [← hagree]
    constructor
    · intro h
      cases hread : reading [] [] (toks .between line.text) with
      | none =>
        have hrun := h []
        rw [hread] at hrun
        exact absurd hrun.symm runAll_ne_two
      | some D =>
        refine ⟨D, hread, ?_⟩
        rw [hread] at h
        obtain ⟨hDs, hDlen⟩ := reading_strings hwf (List.forall_mem_nil _) (List.forall_mem_nil _) (by decide) hread
        obtain ⟨hCs, hC⟩ := commands_strings hwf (List.forall_mem_nil _)
        have hfirst := List.take_subset cliMaxOncecmdNum (commands [] (toks .between line.text))
        refine eq_of_runAll filled_flatMap (fun x hx => hC x (hfirst hx)) (fun x hx => hDs x (flatMap_sublist.subset hx))
          (fun x hx => hCs x (hfirst hx)) (flatMap_sublist.length_le.trans hDlen) (List.length_take_le ..) fun table => ?_
        rw [runAll_command]
        exact h table
    · rintro ⟨D, hread, heq⟩ table
      rw [hread]
      change runAll table D = _
      rw [← runAll_command, heq]
      rfl

/-- Of `a ; b`, one command is made. -/
theorem handleInput_merges : parse [0x61, blank, semicolon, blank, 0x62] = some [[[0x61]], [[0x62]]] ∧
    reading [] [] (toks .between [0x61, blank, semicolon, blank, 0x62]) = some [[[0x61], [0x62]]] ∧
    ¬ ParsesLine ⟨⟨[0x61, blank, semicolon, blank, 0x62], by decide⟩, by decide⟩ := by
  have hparse : parse [0x61, blank, semicolon, blank, 0x62] = some [[[0x61]], [[0x62]]] := by decide
  have hread : reading [] [] (toks .between [0x61, blank, semicolon, blank, 0x62]) = some [[[0x61], [0x62]]] := by
    decide
  refine ⟨hparse, hread, fun h => ?_⟩
  have hrun := (parsesLine_outcome _).1 h [⟨[0x61], by decide⟩]
  rw [hread, expected, hparse] at hrun
  exact absurd (congrArg Prod.fst hrun) (by decide)

end Cli
