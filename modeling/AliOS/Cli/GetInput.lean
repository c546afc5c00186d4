/-
  The line editor of the shell (`tools/cli/cli.c`: `tab_complete`, `get_input`, and what
  `cli_main` does with a line).

  A step is a turn of the loop in `get_input`, with the one of `cli_main` where the call
  returns.  A write outside of `inbuf` or `esc_tag` is undefined, and there is no step.
  The printing is left out.
-/
import AliOS.Lib.Trans
import Mathlib.Algebra.Group.Nat.Defs
import Mathlib.Data.List.TakeWhile

namespace Cli

open Lib

abbrev Bytes := List UInt8

abbrev inbufSize : ℕ := 128

abbrev hisSize : ℕ := 5

def maxCommands : ℕ := 64

/-- `sizeof(esc_tag)` -/
abbrev escTagSize : ℕ := 64

/-- A C string: no character is NUL. -/
structure CStr where
  text : Bytes
  ok : 0 ∉ text

/-- A line: a string that fits in `inbuf`.  The rows of `history` are lines, with zeros behind them. -/
structure Line extends CStr where
  short : text.length < inbufSize

/-- `cli`, the globals `esc_tag` and `esc_tag_len`, and the variables of `get_input`; -1 is `none`. -/
structure State where
  commands : List CStr
  inbuf : Vector UInt8 inbufSize
  bp : ℕ
  hisIdx : Fin hisSize
  hisCur : Fin hisSize
  history : Fin hisSize → Line
  escTag : Vector UInt8 escTagSize
  escTagLen : ℕ
  esc : Bool
  key1 : Option UInt8
  key2 : Option UInt8

/-! ## Writes -/

/-- `buf[i] = x` -/
def put {n : ℕ} (buf : Vector UInt8 n) (i : ℕ) (x : UInt8) : Option (Vector UInt8 n) :=
  if h : i < n then some (buf.set i x h) else none

/-- `memcpy(buf + i, l, n)`, where `l` are the `n` bytes. -/
def copyTo {n : ℕ} (buf : Vector UInt8 n) (i : ℕ) (l : Bytes) : Option (Vector UInt8 n) :=
  if i + l.length ≤ n then some (.ofFn fun k => if i ≤ k then l.getD (k - i) buf[k] else buf[k]) else none

/-- `strncpy(buf, s, n)` -/
def strncpy (n : ℕ) (s : Bytes) : Vector UInt8 n := .ofFn fun k => s.getD k 0

/-- The string at the start of a buffer. -/
def text {n : ℕ} (buf : Vector UInt8 n) : Bytes := buf.toList.takeWhile (· ≠ 0)

/-! ## Completion -/

/-- `strncmp(p, q, n) == 0` -/
def strncmpEq : Bytes → Bytes → ℕ → Bool
  | _, _, 0 => true
  | a :: p, b :: q, n + 1 => if a ≠ b then false else if a = 0 then true else strncmpEq p q n
  | _, _, _ => false

/-- The names that match the line: `fm` is the first one, and `m` their number. -/
def State.matching (s : State) (inbuf : Vector UInt8 inbufSize) : List CStr :=
  (s.commands.take maxCommands).filter fun name => strncmpEq inbuf.toList (name.text ++ [0]) s.bp

/-- `*bp + n`: the length of the name, as an `unsigned`. -/
def CStr.len (name : CStr) : ℕ := name.text.length % 2 ^ 32

/-- `tab_complete`; `memcpy` writes everywhere if `n` is negative. -/
def tabComplete (s : State) (inbuf : Vector UInt8 inbufSize) : Option State :=
  match s.matching inbuf with
  | [fm] =>
    if fm.len < inbufSize then
      if fm.len < s.bp then none
      else do
        let inbuf ← copyTo inbuf s.bp ((fm.text.drop s.bp).take (fm.len - s.bp))
        let inbuf ← put inbuf fm.len 0x20
        let inbuf ← put inbuf (fm.len + 1) 0
        some { s with inbuf := inbuf, bp := fm.len + 1 }
    else some { s with inbuf := inbuf }
  | _ => some { s with inbuf := inbuf }

/-! ## Input -/

/-- `inbuf[(*bp)] = x; (*bp) ++` -/
def State.push (s : State) (x : UInt8) : Option State :=
  (put s.inbuf s.bp x).map fun inbuf => { s with inbuf := inbuf, bp := s.bp + 1 }

/-- `esc_tag[0] = '\x0'; esc_tag_len = 0` -/
def State.clearTag (s : State) : State := { s with escTag := s.escTag.set 0 0, escTagLen := 0 }

/-- A command is taken from the history. -/
def State.recall (s : State) (hisIdx : Fin hisSize) : State :=
  let cmd := (s.history s.hisIdx).text
  { s.clearTag with hisIdx := hisIdx, inbuf := strncpy inbufSize cmd, bp := cmd.length, esc := false }

/-- `key2 = c` -/
def State.setKey2 (s : State) (key1 c : UInt8) : State :=
  if c = 't'.toUInt8 then
    { s with key2 := some c, escTag := (s.escTag.set 0 0x1b).set 1 key1, escTagLen := 2 }
  else { s with key2 := some c }

/-- `ESC_TAG` -/
def State.addTag (s : State) (c : UInt8) : Option State :=
  if escTagSize ≤ s.escTagLen then some { s.clearTag with esc := false }
  else do
    let escTag ← put s.escTag s.escTagLen c
    if c = 'm'.toUInt8 then
      let escTag ← put escTag (s.escTagLen + 1) 0
      some { s with escTag := escTag, escTagLen := s.escTagLen + 2, esc := false }
    else some { s with escTag := escTag, escTagLen := s.escTagLen + 1 }

def unsupported (key2 : UInt8) : Prop := key2 ≠ 0x41 ∧ key2 ≠ 0x42 ∧ key2 ≠ 't'.toUInt8

instance : DecidablePred unsupported := fun _ => inferInstanceAs (Decidable (_ ∧ _))

/-- What is done with the second key. -/
def State.key (s : State) (key1 key2 c : UInt8) : Option State :=
  if unsupported key2 then do
    let s ← s.push 0x1b
    let s ← s.push key1
    let s ← s.push key2
    some { s.clearTag with esc := false }
  else if key2 = 0x41 then some (s.recall (s.hisIdx + 4))
  else if key2 = 0x42 then some (s.recall (s.hisIdx + 1))
  else s.addTag c

/-- The branch `if (esc)`. -/
def State.escape (s : State) (c : UInt8) : Option State :=
  match s.key1 with
  | none =>
    if c ≠ 0x5b then do
      let s ← s.push 0x1b
      let s ← s.push c
      some { s with key1 := some c, esc := false }
    else some { s with key1 := some c }
  | some key1 =>
    match s.key2 with
    | none => (s.setKey2 key1 c).key key1 c c
    | some key2 => s.key key1 key2 c

/-- What `get_input` begins with. -/
def State.enter (s : State) : State :=
  { s with hisIdx := s.hisCur + 4, esc := false, key1 := none, key2 := none }

/-- A turn of the loop with the character `c`, where the line goes on: the call that returns
    since the buffer is full is followed by the next one. -/
def State.input (s : State) (c : UInt8) : Option State :=
  if c = 0x1b then some { s with esc := true, key1 := none, key2 := none }
  else if s.esc then s.escape c
  else do
    let inbuf ← put s.inbuf s.bp c
    if c = 0x08 ∨ c = 0x7f then
      some { s with inbuf := inbuf, bp := if 0 < s.bp then s.bp - 1 else s.bp }
    else if c = 0x09 then
      tabComplete s (← put inbuf s.bp 0)
    else if inbufSize ≤ s.bp + 1 then some { s with inbuf := inbuf, bp := 0 }.enter
    else some { s with inbuf := inbuf, bp := s.bp + 1 }

/-- A line in `history[his_cur]`, unless it is empty. -/
def State.record (s : State) (inbuf : Vector UInt8 inbufSize) : Option State :=
  if h : (text inbuf).length < inbufSize then
    if text inbuf = [] then some s
    else
      let cmd := ⟨⟨text inbuf, fun h0 => absurd (List.mem_takeWhile_imp h0) (by decide)⟩, h⟩
      some { s with history := Function.update s.history s.hisCur cmd, hisCur := s.hisCur + 1 }
  else none

/-- The end of a line: `cli_main` records it and calls `handle_input`; it and the commands leave
    `left` in the buffer. -/
def State.line (s : State) (left : Vector UInt8 inbufSize) : Option State := do
  let inbuf ← put s.inbuf s.bp 0
  let s ← s.record inbuf
  some { s.clearTag with inbuf := left, bp := 0 }.enter

/-- What `cli_getchar` gives, or commands that are registered or unregistered meanwhile. -/
inductive Event
  | char (c : UInt8) (left : Vector UInt8 inbufSize)
  | noChar
  | register (commands : List CStr)

/-- `RET_CHAR` and `END_CHAR` -/
def isEnd (c : UInt8) : Prop := c = '\n'.toUInt8 ∨ c = '\r'.toUInt8

instance : DecidablePred isEnd := fun _ => inferInstanceAs (Decidable (_ ∨ _))

def step (s : State) : Event → Option State
  | .char c left => if isEnd c then s.line left else s.input c
  | .noChar => some s.enter
  | .register commands => some { s with commands := commands }

/-- What `aos_cli_init` leaves, with any commands. -/
def State.init (commands : List CStr) : State where
  commands := commands
  inbuf := .replicate _ 0
  bp := 0
  hisIdx := 4
  hisCur := 0
  history _ := ⟨⟨[], nofun⟩, by decide⟩
  escTag := .replicate _ 0
  escTagLen := 0
  esc := false
  key1 := none
  key2 := none

/-- In every state of the run `*bp` is inside of the buffer, and no write is outside of one. -/
def StaysInside (commands : List CStr) (es : List Event) : Prop :=
  ∀ before after, es = before ++ after →
    ∃ s, before.foldlM step (.init commands) = some s ∧ s.bp < inbufSize

/-- What a character needs, in the state in which it comes. -/
structure Fits (s : State) (c : UInt8) : Prop where
  /-- Two bytes of an unsupported escape sequence are put in the line. -/
  two : s.esc = true → s.key1 = none → c ≠ 0x5b → s.bp + 2 < inbufSize
  /-- Or three. -/
  three : s.esc = true → s.key1 ≠ none → unsupported (s.key2.getD c) → s.bp + 3 < inbufSize
  /-- The tag ends, and its NUL has a place. -/
  tag : s.esc = true → s.key1 ≠ none → s.key2 = some 't'.toUInt8 → c = 'm'.toUInt8 → s.escTagLen ≠ escTagSize - 1
  /-- The only name that the line matches is not shorter than the line, and a blank and a NUL have
      a place behind it. -/
  tab : s.esc = false → c = 0x09 → ∀ fm, s.matching s.inbuf = [fm] → fm.len < inbufSize →
    s.bp ≤ fm.len ∧ fm.len + 1 < inbufSize

/-- The ends of a line, and the start of an escape sequence, need nothing. -/
def StepFits (s : State) : Event → Prop
  | .char c _ => ¬ isEnd c → c ≠ 0x1b → Fits s c
  | _ => True

/-! ## Writes that are made -/

variable {s : State} {c x : UInt8} {n i : ℕ} {buf : Vector UInt8 n}

theorem put_eq (h : i < n) : put buf i x = some (buf.set i x h) := dif_pos h

theorem put_none (h : ¬ i < n) : put buf i x = none := dif_neg h

theorem copyTo_isSome {l : Bytes} (buf : Vector UInt8 n) (h : i + l.length ≤ n) : ∃ buf', copyTo buf i l = some buf' := ⟨_, if_pos h⟩

/-- The line with one more character. -/
def State.pushed (s : State) (x : UInt8) (h : s.bp < inbufSize) : State :=
  { s with inbuf := s.inbuf.set s.bp x h, bp := s.bp + 1 }

theorem push_eq (h : s.bp < inbufSize) : s.push x = some (s.pushed x h) := by
  rw [State.push, put_eq h]
  rfl

theorem push_none (h : ¬ s.bp < inbufSize) : s.push x = none := by
  rw [State.push, put_none h]
  rfl

theorem push_bind_iff {f : State → Option State} :
    (∃ t, (s.push x).bind f = some t ∧ t.bp < inbufSize) ↔
      ∃ h : s.bp < inbufSize, ∃ t, f (s.pushed x h) = some t ∧ t.bp < inbufSize := by
  by_cases h : s.bp < inbufSize
  · rw [push_eq h, Option.bind_some]
    exact ⟨fun ht => ⟨h, ht⟩, fun ⟨_, ht⟩ => ht⟩
  · rw [push_none h]
    exact iff_of_false (fun ⟨_, ht, _⟩ => nomatch ht) fun ⟨h', _⟩ => h h'

theorem strncmpEq_set {p q : Bytes} : strncmpEq (p.set n x) q n = strncmpEq p q n := by
  induction n generalizing p q with
  | zero => simp [strncmpEq]
  | succ n ih =>
    cases p with
    | nil => rfl
    | cons a p =>
      cases q with
      | nil => rfl
      | cons b q =>
        rw [List.set_cons_succ, strncmpEq, strncmpEq, ih]

theorem matching_set (h : s.bp < inbufSize) : s.matching (s.inbuf.set s.bp x h) = s.matching s.inbuf := by
  unfold State.matching
  rw [Vector.toList_set]
  simp only [strncmpEq_set]

/-! ## Escape sequences -/

variable {key1 key2 : UInt8}

/-- A character is taken: there is a next state, with the index inside of the buffer. -/
def Taken (r : Option State) : Prop := ∃ t, r = some t ∧ t.bp < inbufSize

theorem taken_some : Taken (some s) ↔ s.bp < inbufSize :=
  ⟨fun ⟨_, heq, hlt⟩ => Option.some.inj heq ▸ hlt, fun h => ⟨s, rfl, h⟩⟩

theorem addTag_iff (h : s.bp < inbufSize) :
    Taken (s.addTag c) ↔ (c = 'm'.toUInt8 → s.escTagLen ≠ escTagSize - 1) := by
  unfold State.addTag
  split_ifs with hfull hm
  · refine iff_of_true (taken_some.2 h) fun _ => ?_
    unfold escTagSize at *
    omega
  · rw [put_eq (Nat.lt_of_not_le hfull), Option.bind_eq_bind, Option.bind_some]
    by_cases hlast : s.escTagLen + 1 < escTagSize
    · rw [put_eq hlast]
      exact iff_of_true (taken_some.2 h) fun _ => by omega
    · rw [put_none hlast]
      exact iff_of_false (fun ⟨_, heq, _⟩ => nomatch heq) fun hne => hne hm (by omega)
  · rw [put_eq (Nat.lt_of_not_le hfull)]
    exact iff_of_true (taken_some.2 h) fun hc => absurd hc hm

/-- **The second key**: an unsupported sequence is put in the line, and a tag ends in its buffer. -/
theorem key_iff (h : s.bp < inbufSize) :
    Taken (s.key key1 key2 c) ↔ (unsupported key2 → s.bp + 3 < inbufSize) ∧
      (key2 = 't'.toUInt8 → c = 'm'.toUInt8 → s.escTagLen ≠ escTagSize - 1) := by
  unfold State.key
  split_ifs with hun hup hdown
  · have ht : key2 ≠ 't'.toUInt8 := hun.2.2
    simp only [Option.bind_eq_bind, Taken, push_bind_iff]
    constructor
    · rintro ⟨_, _, _, t, heq, hlt⟩
      cases heq
      exact ⟨fun _ => hlt, fun hkey => absurd hkey ht⟩
    · rintro ⟨hlt, -⟩
      have hlt := hlt hun
      exact ⟨h, Nat.lt_of_succ_lt (Nat.lt_of_succ_lt hlt), Nat.lt_of_succ_lt hlt, _, rfl, hlt⟩
  · refine iff_of_true (taken_some.2 (s.history s.hisIdx).short) ⟨fun hc => absurd hc hun, ?_⟩
    rintro rfl
    cases hup
  · refine iff_of_true (taken_some.2 (s.history s.hisIdx).short) ⟨fun hc => absurd hc hun, ?_⟩
    rintro rfl
    cases hdown
  · have ht : key2 = 't'.toUInt8 := by
      by_contra hne
      exact hun ⟨hup, hdown, hne⟩
    rw [addTag_iff h]
    exact ⟨fun hc => ⟨fun hc => absurd hc hun, fun _ => hc⟩, fun hc => hc.2 ht⟩

theorem setKey2_bp (s : State) (key1 c : UInt8) : (s.setKey2 key1 c).bp = s.bp := by
  unfold State.setKey2
  split_ifs <;> rfl

theorem escape_iff (h : s.bp < inbufSize) : Taken (s.escape c) ↔
    (s.key1 = none → c ≠ 0x5b → s.bp + 2 < inbufSize) ∧
      (s.key1 ≠ none → unsupported (s.key2.getD c) → s.bp + 3 < inbufSize) ∧
      (s.key1 ≠ none → s.key2 = some 't'.toUInt8 → c = 'm'.toUInt8 → s.escTagLen ≠ escTagSize - 1) := by
  unfold State.escape
  cases hk : s.key1 with
  | none =>
    split_ifs with hc
    · simp only [Option.bind_eq_bind, Taken, push_bind_iff]
      constructor
      · rintro ⟨_, _, t, heq, hlt⟩
        cases heq
        exact ⟨fun _ _ => hlt, fun hne => absurd rfl hne, fun hne => absurd rfl hne⟩
      · rintro ⟨hlt, -⟩
        have hlt := hlt trivial hc
        exact ⟨h, Nat.lt_of_succ_lt hlt, _, rfl, hlt⟩
    · exact iff_of_true (taken_some.2 h)
        ⟨fun _ hne => absurd hne hc, fun hne => absurd rfl hne, fun hne => absurd rfl hne⟩
  | some key1 =>
    cases hk2 : s.key2 with
    | none =>
      have hbp := setKey2_bp s key1 c
      rw [key_iff (hbp ▸ h), hbp]
      constructor
      · rintro ⟨hthree, -⟩
        exact ⟨nofun, fun _ => hthree, nofun⟩
      · rintro ⟨-, hthree, -⟩
        refine ⟨hthree nofun, ?_⟩
        rintro rfl hm
        cases hm
    | some key2 =>
      rw [key_iff h]
      constructor
      · rintro ⟨hthree, htag⟩
        exact ⟨nofun, fun _ => hthree, fun _ hkey => htag (Option.some.inj hkey)⟩
      · rintro ⟨-, hthree, htag⟩
        exact ⟨hthree nofun, fun hkey => htag nofun (congrArg some hkey)⟩

/-! ## Characters of the line -/

theorem tabComplete_iff {inbuf : Vector UInt8 inbufSize} (h : s.bp < inbufSize) :
    Taken (tabComplete s inbuf) ↔ ∀ fm, s.matching inbuf = [fm] → fm.len < inbufSize →
      s.bp ≤ fm.len ∧ fm.len + 1 < inbufSize := by
  unfold tabComplete
  rcases s.matching inbuf with - | ⟨fm, - | ⟨_, _⟩⟩
  · exact iff_of_true (taken_some.2 h) nofun
  · dsimp only
    have hfits : (∀ fm', [fm] = [fm'] → fm'.len < inbufSize → s.bp ≤ fm'.len ∧ fm'.len + 1 < inbufSize) ↔
        (fm.len < inbufSize → s.bp ≤ fm.len ∧ fm.len + 1 < inbufSize) := by
      constructor
      · exact fun hall => hall fm rfl
      · intro hfm' fm' heq
        obtain rfl := (List.cons.inj heq).1
        exact hfm'
    rw [hfits]
    split_ifs with hlong hneg
    · exact iff_of_false (fun ⟨_, heq, _⟩ => nomatch heq) fun hc => absurd (hc hlong).1 (Nat.not_le_of_lt hneg)
    · have hcopy : s.bp + ((fm.text.drop s.bp).take (fm.len - s.bp)).length ≤ inbufSize := by
        have hle := List.length_take_le (fm.len - s.bp) (fm.text.drop s.bp)
        omega
      obtain ⟨buf, hbuf⟩ := copyTo_isSome inbuf hcopy
      rw [hbuf, Option.bind_eq_bind, Option.bind_some, put_eq hlong, Option.bind_some]
      by_cases hlast : fm.len + 1 < inbufSize
      · rw [put_eq hlast]
        exact iff_of_true (taken_some.2 hlast) fun _ => ⟨Nat.le_of_not_lt hneg, hlast⟩
      · rw [put_none hlast]
        exact iff_of_false (fun ⟨_, heq, _⟩ => nomatch heq) fun hc => hlast (hc hlong).2
    · exact iff_of_true (taken_some.2 h) fun hc => absurd hc hlong
  · exact iff_of_true (taken_some.2 h) nofun

theorem input_iff (h : s.bp < inbufSize) : Taken (s.input c) ↔ (c ≠ 0x1b → Fits s c) := by
  unfold State.input
  by_cases hstart : c = 0x1b
  · rw [if_pos hstart]
    exact iff_of_true (taken_some.2 h) fun hne => absurd hstart hne
  rw [if_neg hstart]
  by_cases hesc : s.esc = true
  · rw [if_pos hesc, escape_iff h]
    constructor
    · rintro ⟨htwo, hthree, htag⟩ -
      exact ⟨fun _ => htwo, fun _ => hthree, fun _ => htag, fun hno => absurd (hesc.symm.trans hno) nofun⟩
    · intro hfits
      have hfits := hfits hstart
      exact ⟨hfits.two hesc, hfits.three hesc, hfits.tag hesc⟩
  · have hline : Fits s c ↔ (c = 0x09 → ∀ fm, s.matching s.inbuf = [fm] → fm.len < inbufSize →
        s.bp ≤ fm.len ∧ fm.len + 1 < inbufSize) :=
      ⟨fun hfits => hfits.tab (Bool.eq_false_iff.2 hesc), fun htab =>
        ⟨fun hc => absurd hc hesc, fun hc => absurd hc hesc, fun hc => absurd hc hesc, fun _ => htab⟩⟩
    rw [if_neg hesc, imp_iff_right hstart, hline, put_eq h, Option.bind_eq_bind, Option.bind_some]
    by_cases hdel : c = 0x08 ∨ c = 0x7f
    · have hbp : (if 0 < s.bp then s.bp - 1 else s.bp) < inbufSize := by
        split_ifs
        · exact Nat.lt_of_le_of_lt (Nat.sub_le ..) h
        · exact h
      rw [if_pos hdel]
      refine iff_of_true (taken_some.2 hbp) ?_
      rintro rfl
      exact absurd hdel (by decide)
    rw [if_neg hdel]
    split_ifs with htab hfull
    · rw [put_eq h, Option.bind_some, tabComplete_iff h, Vector.set_set, matching_set h, imp_iff_right htab]
    · exact iff_of_true (taken_some.2 (Nat.succ_pos _)) fun hc => absurd hc htab
    · exact iff_of_true (taken_some.2 (Nat.lt_of_not_le hfull)) fun hc => absurd hc htab

theorem text_short (buf : Vector UInt8 n) (h : i < n) : (text (buf.set i 0 h)).length < n := by
  have hle : (text (buf.set i 0 h)).length ≤ (buf.set i 0 h).toList.length := (List.takeWhile_prefix _).length_le
  rw [Vector.length_toList] at hle
  refine Nat.lt_of_le_of_ne hle fun heq => ?_
  have hself : text (buf.set i 0 h) = (buf.set i 0 h).toList :=
    (List.takeWhile_prefix _).eq_of_length (by rw [Vector.length_toList]; exact heq)
  have hmem : (0 : UInt8) ∈ text (buf.set i 0 h) := by
    rw [hself, Vector.mem_toList_iff]
    exact Vector.mem_set h
  exact absurd (List.mem_takeWhile_imp hmem) (by decide)

theorem record_isSome (inbuf : Vector UInt8 inbufSize) (h : s.bp < inbufSize) :
    ∃ t, s.record (inbuf.set s.bp 0 h) = some t := by
  have hshort := text_short inbuf h
  rw [State.record, dif_pos hshort]
  split_ifs
  · exact ⟨_, rfl⟩
  · exact ⟨_, rfl⟩

theorem line_taken {left : Vector UInt8 inbufSize} (h : s.bp < inbufSize) : Taken (s.line left) := by
  obtain ⟨t, ht⟩ := record_isSome s.inbuf h
  rw [State.line, put_eq h, Option.bind_eq_bind, Option.bind_some, ht]
  exact taken_some.2 (Nat.succ_pos _)

/-- **A step** is made, and the index stays inside of the buffer, exactly if what comes fits. -/
theorem step_iff {e : Event} (h : s.bp < inbufSize) : Taken (step s e) ↔ StepFits s e := by
  cases e with
  | char c left =>
    unfold step StepFits
    dsimp only
    split_ifs with hend
    · exact iff_of_true (line_taken h) fun hno => absurd hend hno
    · rw [input_iff h]
      exact ⟨fun hc _ => hc, fun hc => hc hend⟩
  | noChar => exact iff_of_true (taken_some.2 h) trivial
  | register commands => exact iff_of_true (taken_some.2 h) trivial

/-- **Line editing stays in bounds** exactly if every character of the input fits where it comes. -/
theorem getInput_stays_iff (commands : List CStr) (es : List Event) : StaysInside commands es ↔
    ∀ before e after s, es = before ++ e :: after → before.foldlM step (.init commands) = some s → StepFits s e :=
  foldlM_stays_iff (J := fun s : State => s.bp < inbufSize) (C := StepFits) (fun h => step_iff h)
    (show 0 < inbufSize by decide)

/-- With the command "mac", after `mac`, a NUL and a tab, the length to copy is negative. -/
theorem getInput_leaves :
    ¬ StaysInside [⟨[0x6d, 0x61, 0x63], by decide⟩] ([0x6d, 0x61, 0x63, 0, 0x09].map fun c => .char c (.replicate _ 0)) := by
  intro h
  obtain ⟨s, hs, -⟩ := h _ [] (List.append_nil _).symm
  have hnone : (([0x6d, 0x61, 0x63, 0, 0x09].map fun c => Event.char c (.replicate _ 0)).foldlM step
      (.init [⟨[0x6d, 0x61, 0x63], by decide⟩])).isNone := by
    decide
  rw [hs] at hnone
  cases hnone

end Cli
