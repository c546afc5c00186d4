/-
  The script engine computes the value of an expression, where its grouping is that of ECMAScript:
  - `-` stands only at the beginning of a sum or product, and before no second sign;
  - a shift is the last operator of its group;
  - no comparison with `<`, `>`, `<=` or `>=` is the right operand of `==` or `!=`;
  - no bit operator, `&&` or `||` is the right operand of another;
  - the left operand of `||` is 0 or 1.
-/
import AliOS.Jse.Expr
import Mathlib.Tactic.SplitIfs

namespace Jse

variable {w : ℕ}

theorem isMul_iff {o : BinOp} : isMul o = true ↔ 10 ≤ o.lvl := by cases o <;> decide

theorem isAdd_iff {o : BinOp} : isAdd o = true ↔ o.lvl = 9 := by cases o <;> decide

theorem isShift_iff {o : BinOp} : isShift o = true ↔ o.lvl = 8 := by cases o <;> decide

theorem isRelational_iff {o : BinOp} : isRelational o = true ↔ o.lvl = 6 ∨ o.lvl = 7 := by cases o <;> decide

theorem isBit_iff {o : BinOp} : isBit o = true ↔ o.lvl < 6 := by cases o <;> decide

theorem not_isMul {o : BinOp} (h : o.lvl < 10) : ¬ isMul o = true := by
  rw [isMul_iff]
  omega

theorem not_isAdd {o : BinOp} (h : o.lvl ≠ 9) : ¬ isAdd o = true := by
  rwa [isAdd_iff]

theorem not_isShift {o : BinOp} (h : o.lvl ≠ 8) : ¬ isShift o = true := by
  rwa [isShift_iff]

namespace Expr

/-- The leftmost token is a sign. -/
def signed : Expr w → Bool
  | neg _ => true
  | bin o l _ => isMul o && l.signed
  | _ => false

/-- The engine groups the expression as ECMAScript does; `last` is whether its group ends with it,
    and `sign` whether a sign may begin it. -/
def Agrees (last sign : Bool) : Expr w → Prop
  | lit _ => True
  | paren e => e.Agrees true true
  | neg e => sign = true ∧ e.Agrees false false
  | not e => 12 ≤ e.lvl ∧ e.Agrees false false
  | bin o l r =>
    if isMul o then
      l.Agrees false sign ∧ r.Agrees false false ∧ (l.signed = true → o ≠ .mul → l.value ≠ BitVec.intMin w)
    else if isAdd o then l.Agrees false sign ∧ r.Agrees false false
    else if isShift o then last = true ∧ l.Agrees false sign ∧ r.Agrees true true
    else if isRelational o then l.Agrees false sign ∧ r.Agrees last true ∧ 8 ≤ r.lvl
    else l.Agrees false sign ∧ r.Agrees last true ∧ 6 ≤ r.lvl ∧ (o = .lor → l.value = 0 ∨ l.value = 1)
  | cond c a b => c.Agrees false sign ∧ a.Agrees true true ∧ b.Agrees last true

section

variable {last sign : Bool} {o : BinOp} {l r : Expr w}

theorem signed_bin : (bin o l r).signed = (isMul o && l.signed) := rfl

theorem toks_bin : (bin o l r).toks = l.toks ++ .op o :: r.toks := rfl

theorem agrees_bin : (bin o l r).Agrees last sign =
    if isMul o then
      l.Agrees false sign ∧ r.Agrees false false ∧ (l.signed = true → o ≠ .mul → l.value ≠ BitVec.intMin w)
    else if isAdd o then l.Agrees false sign ∧ r.Agrees false false
    else if isShift o then last = true ∧ l.Agrees false sign ∧ r.Agrees true true
    else if isRelational o then l.Agrees false sign ∧ r.Agrees last true ∧ 8 ≤ r.lvl
    else l.Agrees false sign ∧ r.Agrees last true ∧ 6 ≤ r.lvl ∧ (o = .lor → l.value = 0 ∨ l.value = 1) := rfl

theorem agrees_add (ho : isAdd o = true) :
    (bin o l r).Agrees last sign = (l.Agrees false sign ∧ r.Agrees false false) := by
  have hlvl := isAdd_iff.1 ho
  rw [agrees_bin, if_neg (not_isMul (by omega)), if_pos ho]

theorem agrees_shift (ho : isShift o = true) :
    (bin o l r).Agrees last sign = (last = true ∧ l.Agrees false sign ∧ r.Agrees true true) := by
  have hlvl := isShift_iff.1 ho
  rw [agrees_bin, if_neg (not_isMul (by omega)), if_neg (not_isAdd (by omega)), if_pos ho]

theorem agrees_relational (ho : isRelational o = true) :
    (bin o l r).Agrees last sign = (l.Agrees false sign ∧ r.Agrees last true ∧ 8 ≤ r.lvl) := by
  have hlvl := isRelational_iff.1 ho
  rw [agrees_bin, if_neg (not_isMul (by omega)), if_neg (not_isAdd (by omega)), if_neg (not_isShift (by omega)),
    if_pos ho]

theorem agrees_bit (ho : isBit o = true) : (bin o l r).Agrees last sign =
    (l.Agrees false sign ∧ r.Agrees last true ∧ 6 ≤ r.lvl ∧ (o = .lor → l.value = 0 ∨ l.value = 1)) := by
  have hlvl := isBit_iff.1 ho
  have hrel : ¬ isRelational o = true := by
    intro hr
    have heq := isRelational_iff.1 hr
    omega
  rw [agrees_bin, if_neg (not_isMul (by omega)), if_neg (not_isAdd (by omega)), if_neg (not_isShift (by omega)),
    if_neg hrel]

end

/-- The value that the engine has for it: an idle machine has none. -/
def val (run : Bool) (e : Expr w) : BitVec w := if run then e.value else 0

/-- The expression without the sign at its beginning. -/
def unsigned : Expr w → Expr w
  | neg e => e
  | bin o l r => bin o l.unsigned r
  | e => e

/-- How often the loop on the operators that meet the condition goes around. -/
def spine (meets : BinOp → Bool) : Expr w → ℕ
  | bin o l _ => if meets o then l.spine meets + 1 else 0
  | _ => 0

theorem spine_lt (meets : BinOp → Bool) (e : Expr w) : e.spine meets < e.toks.length := by
  induction e with
  | bin o l r ihl ihr =>
    rw [spine, toks, List.length_append, List.length_cons]
    split_ifs
    · omega
    · omega
  | lit v => exact Nat.zero_lt_one
  | paren e ih => exact Nat.succ_pos _
  | neg e ih => exact Nat.succ_pos _
  | not e ih => exact Nat.succ_pos _
  | cond c a b ihc iha ihb =>
    change 0 < (c.toks ++ _).length
    rw [List.length_append]
    omega

end Expr

/-- No operator of level `k` or above begins the tokens. -/
def Below (k : ℕ) (toks : List (Tok w)) : Prop := ∀ o rest, toks = .op o :: rest → o.lvl < k

/-- The end of a group begins the tokens. -/
def Stops : List (Tok w) → Prop
  | .op _ :: _ | .quest :: _ => False
  | _ => True

/-- What is behind an expression that is the last of its group, or is not. -/
def Ends (k : ℕ) (last : Bool) (toks : List (Tok w)) : Prop := if last then Stops toks else Below k toks

theorem Stops.below {toks : List (Tok w)} (h : Stops toks) (k : ℕ) : Below k toks := by
  rintro o rest rfl
  exact h.elim

theorem Ends.below {k : ℕ} {last : Bool} {toks : List (Tok w)} (h : Ends k last toks) : Below k toks := by
  cases last with
  | false => exact h
  | true => exact Stops.below h k

theorem Ends.mono {k j : ℕ} {last : Bool} {toks : List (Tok w)} (h : Ends k last toks) (hle : k ≤ j) :
    Ends j last toks := by
  cases last with
  | false => exact fun o rest heq => Nat.lt_of_lt_of_le (h o rest heq) hle
  | true => exact h

theorem ends_op {k : ℕ} {o : BinOp} (h : o.lvl < k) (toks : List (Tok w)) : Ends k false (.op o :: toks) := by
  intro o' rest heq
  obtain ⟨heq, -⟩ := List.cons.inj heq
  exact Tok.op.inj heq ▸ h

/-- What is shown of the nested expressions: those shorter than `n` have their values. -/
def Good (n : ℕ) (nested : Parse w) : Prop :=
  ∀ e : Expr w, e.Es → e.Agrees true true → e.toks.length < n → ∀ run rest, Stops rest →
    nested run (e.toks ++ rest) = some (e.val run, rest)

theorem Expr.val_bin {run : Bool} {o : BinOp} {l r : Expr w} (hand : o ≠ .land) (hor : o ≠ .lor) :
    (if run then mathsOp o (l.val run) (r.val run) else l.val run) = (Expr.bin o l r).val run := by
  cases run with
  | false => rfl
  | true =>
    cases o with
    | land => exact absurd rfl hand
    | lor => exact absurd rfl hor
    | _ => rfl

theorem neg_srem {x y : BitVec w} (h : x ≠ BitVec.intMin w) : (-x).srem y = -x.srem y := by
  by_cases hx : x = 0#w
  · subst hx
    simp
  · simp only [BitVec.srem, BitVec.msb_neg_of_ne_intMin_of_ne_zero h hx]
    cases x.msb <;> cases y.msb <;> simp

section

variable {nested : Parse w} {n m : ℕ} {run : Bool} {rest : List (Tok w)} {e : Expr w}

/-! ## Loops -/

theorem opLoop_stop {meets : BinOp → Bool} {operand : Parse w} {a : BitVec w} (hn : 0 < n)
    (hstop : ∀ o toks, rest = .op o :: toks → meets o = false) :
    opLoop meets operand run n a rest = some (a, rest) := by
  obtain ⟨m, rfl⟩ : ∃ m, n = m + 1 := ⟨n - 1, by omega⟩
  cases rest with
  | nil => rfl
  | cons t rest =>
    cases t with
    | op o =>
      rw [opLoop, hstop o rest rfl]
      rfl
    | _ => rfl

theorem opLoop_step {meets : BinOp → Bool} {operand : Parse w} {a b : BitVec w} {o : BinOp} {toks : List (Tok w)}
    (ho : meets o = true) (hb : operand run toks = some (b, rest)) :
    opLoop meets operand run (n + 1) a (.op o :: toks) =
      opLoop meets operand run n (if run then mathsOp o a b else a) rest := by
  rw [opLoop, if_pos ho, hb]

/-- **Chains**: operands and operators that meet the condition are read to the loop behind them. -/
theorem chain_eq {meets : BinOp → Bool} {operand chain : Parse w} (first : Parse w) (k : ℕ)
    (P : Bool → Expr w → Prop)
    (hchain : ∀ toks a rest, first run toks = some (a, rest) → chain run toks = opLoop meets operand run n a rest)
    (hfirst : ∀ {last e}, P last e → (∀ o l r, e = .bin o l r → meets o = false) → ∀ {rest}, Ends k last rest →
      first run (e.toks ++ rest) = some (e.val run, rest))
    (hbin : ∀ {last o l r}, P last (.bin o l r) → meets o = true → P false l ∧ ∀ {rest}, Ends k last rest →
      operand run (r.toks ++ rest) = some (r.val run, rest))
    (hmeets : ∀ o, meets o = true → o ≠ .land ∧ o ≠ .lor ∧ o.lvl < k)
    {last : Bool} (he : P last e) (hn : e.spine meets < n) (hrest : Ends k last rest) :
    chain run (e.toks ++ rest) = opLoop meets operand run (n - e.spine meets) (e.val run) rest := by
  have hbase : ∀ {last} {e : Expr w}, P last e → (∀ o l r, e = .bin o l r → meets o = false) → e.spine meets = 0 →
      ∀ {rest}, Ends k last rest →
        chain run (e.toks ++ rest) = opLoop meets operand run (n - e.spine meets) (e.val run) rest := by
    intro last e he hno hz rest hrest
    rw [hz, hchain _ _ _ (hfirst he hno hrest)]
    rfl
  induction e generalizing last rest with
  | bin o l r ihl ihr =>
    cases ho : meets o with
    | false =>
      refine hbase he (fun o' l' r' heq => ?_) (by rw [Expr.spine, ho]; rfl) hrest
      obtain ⟨rfl, rfl, rfl⟩ := Expr.bin.inj heq
      exact ho
    | true =>
      obtain ⟨hl, hr⟩ := hbin he ho
      obtain ⟨hand, hor, hlvl⟩ := hmeets o ho
      rw [Expr.spine, if_pos ho] at hn ⊢
      rw [Expr.toks_bin, List.append_assoc, List.cons_append, ihl hl (by omega) (ends_op hlvl _),
        show n - l.spine meets = n - (l.spine meets + 1) + 1 by omega, opLoop_step ho (hr hrest),
        Expr.val_bin hand hor]
  | lit v => exact hbase he nofun rfl hrest
  | paren e _ => exact hbase he nofun rfl hrest
  | neg e _ => exact hbase he nofun rfl hrest
  | not e _ => exact hbase he nofun rfl hrest
  | cond c a b _ _ _ => exact hbase he nofun rfl hrest

/-! ## Levels -/

theorem Expr.lvl_of_bin {e : Expr w} {k j : ℕ} (hk : 0 < k) (hj : j ≤ 11) (hlvl : k ≤ e.lvl)
    (hbin : ∀ o l r, e = .bin o l r → k ≤ o.lvl → j ≤ o.lvl) : j ≤ e.lvl := by
  cases e with
  | bin o l r => exact hbin o l r rfl hlvl
  | cond c a b => exact absurd hlvl (Nat.not_le_of_lt hk)
  | lit v => exact Nat.le_succ_of_le hj
  | paren e => exact Nat.le_succ_of_le hj
  | neg e => exact hj
  | not e => exact hj

theorem Expr.Agrees.last {e : Expr w} {last sign : Bool} (h : e.Agrees last sign) (hlvl : 9 ≤ e.lvl) (b : Bool) :
    e.Agrees b sign := by
  cases e with
  | bin o l r =>
    rw [Expr.agrees_bin] at h ⊢
    by_cases hmul : isMul o = true
    · rwa [if_pos hmul] at h ⊢
    · rw [if_neg hmul] at h ⊢
      by_cases hadd : isAdd o = true
      · rwa [if_pos hadd] at h ⊢
      · exact absurd (isAdd_iff.2 (by
          have hlt : o.lvl < 10 := Nat.lt_of_not_le fun hle => hmul (isMul_iff.2 hle)
          have hge : 9 ≤ o.lvl := hlvl
          omega)) hadd
  | cond c a d => exact absurd hlvl (by simp [Expr.lvl])
  | _ => exact h

theorem Expr.Agrees.not_shift {e : Expr w} {sign : Bool} (h : e.Agrees false sign) (hlvl : 8 ≤ e.lvl) : 9 ≤ e.lvl := by
  refine Nat.lt_of_le_of_ne hlvl fun heq => ?_
  cases e with
  | bin o l r =>
    rw [Expr.agrees_shift (isShift_iff.2 heq.symm)] at h
    exact nomatch h.1
  | cond c a b => exact absurd hlvl (by simp [Expr.lvl])
  | lit v => simp [Expr.lvl] at heq
  | paren e => simp [Expr.lvl] at heq
  | neg e => simp [Expr.lvl] at heq
  | not e => simp [Expr.lvl] at heq

theorem Expr.Agrees.unsigned {e : Expr w} {last sign : Bool} (h : e.Agrees last sign) (hs : e.signed = false)
    (hes : e.Es) (hlvl : 10 ≤ e.lvl) : e.Agrees last false := by
  induction e generalizing last with
  | lit v => exact h
  | paren e _ => exact h
  | neg e _ => exact nomatch hs
  | not e _ => exact h
  | cond c a b _ _ _ => exact absurd hlvl (by simp [Expr.lvl])
  | bin o l r ihl _ =>
    have hmul : isMul o = true := isMul_iff.2 hlvl
    rw [Expr.signed_bin, hmul, Bool.true_and] at hs
    rw [Expr.agrees_bin, if_pos hmul] at h ⊢
    have hl : 10 ≤ l.lvl := Nat.le_trans hlvl hes.2.2.1
    exact ⟨ihl h.1 hs hes.1 hl, h.2⟩

theorem Expr.toks_unsigned {e : Expr w} (hs : e.signed = false) (hes : e.Es) (hlvl : 10 ≤ e.lvl)
    (rest : List (Tok w)) : ∀ toks, e.toks ++ rest ≠ .op .sub :: toks := by
  induction e generalizing rest with
  | lit v => exact nofun
  | paren e _ => exact nofun
  | neg e _ => exact nomatch hs
  | not e _ => exact nofun
  | cond c a b _ _ _ => exact absurd hlvl (by simp [Expr.lvl])
  | bin o l r ihl _ =>
    have hmul : isMul o = true := isMul_iff.2 hlvl
    rw [Expr.signed_bin, hmul, Bool.true_and] at hs
    rw [Expr.toks_bin, List.append_assoc]
    exact ihl hs hes.1 (Nat.le_trans hlvl hes.2.2.1) _

theorem signed_unsigned {e : Expr w} {last : Bool} (h : e.Agrees last false) : e.signed = false := by
  induction e generalizing last with
  | neg e _ => exact nomatch h.1
  | bin o l r ihl _ =>
    rw [Expr.signed_bin]
    cases hmul : isMul o with
    | false => rfl
    | true =>
      rw [Expr.agrees_bin, if_pos hmul] at h
      exact ihl h.1
  | _ => rfl

theorem Expr.unsigned_spec {e : Expr w} {last sign : Bool} (h : e.Agrees last sign) (hs : e.signed = true) (hes : e.Es)
    (hlvl : 10 ≤ e.lvl) : e.toks = .op .sub :: e.unsigned.toks ∧ e.value = -e.unsigned.value ∧ e.unsigned.Es ∧
      e.unsigned.Agrees last false ∧ e.lvl ≤ e.unsigned.lvl := by
  induction e generalizing last with
  | lit v => exact nomatch hs
  | paren e _ => exact nomatch hs
  | not e _ => exact nomatch hs
  | cond c a b _ _ _ => exact nomatch hs
  | neg e _ => exact ⟨rfl, rfl, hes.1, h.2.last (Nat.le_trans (by decide) hes.2) last, hes.2⟩
  | bin o l r ihl _ =>
    have hmul : isMul o = true := isMul_iff.2 hlvl
    rw [Expr.signed_bin, hmul, Bool.true_and] at hs
    rw [Expr.agrees_bin, if_pos hmul] at h
    obtain ⟨hl, hr, hmin⟩ := h
    obtain ⟨htoks, hval, hles, hagrees, hle⟩ := ihl hl hs hes.1 (Nat.le_trans hlvl hes.2.2.1)
    have hmin' : o ≠ .mul → l.unsigned.value ≠ BitVec.intMin w := by
      intro ho heq
      refine hmin hs ho ?_
      rw [hval, heq, BitVec.neg_intMin]
    refine ⟨?_, ?_, ⟨hles, hes.2.1, Nat.le_trans hes.2.2.1 hle, hes.2.2.2⟩, ?_, Nat.le_refl _⟩
    · rw [Expr.toks_bin, htoks]
      rfl
    · cases o with
      | mul =>
        change l.value * r.value = -(l.unsigned.value * r.value)
        rw [hval, BitVec.neg_mul]
      | div =>
        change l.value.sdiv r.value = -(l.unsigned.value.sdiv r.value)
        rw [hval, BitVec.neg_sdiv (hmin' nofun)]
      | mod =>
        change l.value.srem r.value = -(l.unsigned.value.srem r.value)
        rw [hval]
        exact neg_srem (hmin' nofun)
      | _ => exact nomatch hmul
    · rw [Expr.unsigned, Expr.agrees_bin, if_pos hmul]
      exact ⟨hagrees, hr, fun hs' => absurd hs' (by rw [signed_unsigned hagrees]; exact Bool.false_ne_true)⟩

theorem factor_eq (hG : Good n nested) {last sign : Bool} (hes : e.Es) (h : e.Agrees last sign) (hlvl : 12 ≤ e.lvl)
    (hlen : e.toks.length ≤ n) : handleFactorSyntax nested run (e.toks ++ rest) = some (e.val run, rest) := by
  cases e with
  | lit v => rfl
  | paren e =>
    rw [Expr.toks, List.length_cons, List.length_append] at hlen
    have hnested : nested run (e.toks ++ ([.rpar] ++ rest)) = some (e.val run, .rpar :: rest) :=
      hG e hes h (by omega) run (.rpar :: rest) trivial
    rw [Expr.toks, List.cons_append, List.append_assoc, handleFactorSyntax, hnested]
    rfl
  | neg e => exact absurd hlvl (by simp [Expr.lvl])
  | not e => exact absurd hlvl (by simp [Expr.lvl])
  | bin o l r => exact absurd hlvl (by cases o <;> simp [Expr.lvl, BinOp.lvl])
  | cond c a b => exact absurd hlvl (by simp [Expr.lvl])

theorem operand_eq (hG : Good n nested) {last : Bool} (hes : e.Es) (h : e.Agrees last false) (hlvl : 11 ≤ e.lvl)
    (hlen : e.toks.length ≤ n) : handlePostfixSyntax nested run (e.toks ++ rest) = some (e.val run, rest) := by
  cases e with
  | lit v => rfl
  | paren e => exact factor_eq hG hes h (Nat.le_refl _) hlen
  | neg e => exact nomatch h.1
  | not e =>
    rw [Expr.toks, List.length_cons] at hlen
    rw [Expr.toks, List.cons_append, handlePostfixSyntax, factor_eq hG hes.1 h.2 h.1 (by omega)]
    cases run with
    | false => rfl
    | true => rfl
  | bin o l r => exact absurd hlvl (by cases o <;> simp [Expr.lvl, BinOp.lvl])
  | cond c a b => exact absurd hlvl (by simp [Expr.lvl])

theorem below_isMul (h : Below 10 rest) : ∀ o toks, rest = .op o :: toks → isMul o = false := fun o toks heq =>
  Bool.eq_false_iff.2 fun ho => Nat.not_le_of_lt (h o toks heq) (isMul_iff.1 ho)

theorem term_eq (hG : Good n nested) {last : Bool} (hes : e.Es) (h : e.Agrees last false) (hlvl : 10 ≤ e.lvl)
    (hlen : e.toks.length ≤ n) (hrest : Below 10 rest) :
    term nested n run (e.toks ++ rest) = some (e.val run, rest) := by
  have hspine := e.spine_lt isMul
  have hends : Ends 11 false rest := fun o toks heq => Nat.lt_succ_of_lt (hrest o toks heq)
  have hloop : term nested n run (e.toks ++ rest) =
      opLoop isMul (handlePostfixSyntax nested) run (n - e.spine isMul) (e.val run) rest := by
    refine chain_eq (handlePostfixSyntax nested) 11
      (fun _ e => e.Es ∧ e.Agrees false false ∧ 10 ≤ e.lvl ∧ e.toks.length ≤ n) ?_ ?_ ?_ ?_
      ⟨hes, h.last (by omega) false, hlvl, hlen⟩ (by omega) hends
    · intro toks a rest hfirst
      rw [term, hfirst]
    · rintro last e ⟨hes, h, hlvl, hlen⟩ hno rest _
      refine operand_eq hG hes h (Expr.lvl_of_bin (by decide) (by decide) hlvl fun o l r heq hle => ?_) hlen
      exact nomatch (hno o l r heq).symm.trans (isMul_iff.2 hle)
    · rintro last o l r ⟨hes, h, hlvl, hlen⟩ ho
      simp only [Expr.agrees_bin, if_pos ho] at h
      rw [Expr.toks_bin, List.length_append, List.length_cons] at hlen
      exact ⟨⟨hes.1, h.1, Nat.le_trans hlvl hes.2.2.1, by omega⟩, fun _ =>
        operand_eq hG hes.2.1 h.2.1 (Nat.lt_of_le_of_lt hlvl hes.2.2.2) (by omega)⟩
    · intro o ho
      cases o <;> first | exact absurd ho (by decide) | exact ⟨nofun, nofun, by decide⟩
  rw [hloop, opLoop_stop (by omega) (below_isMul hrest)]

theorem signedTerm_eq (hG : Good n nested) {last sign : Bool} (hes : e.Es) (h : e.Agrees last sign) (hlvl : 10 ≤ e.lvl)
    (hlen : e.toks.length ≤ n) (hrest : Below 10 rest) :
    signedTerm nested n run (e.toks ++ rest) = some (e.val run, rest) := by
  cases hs : e.signed with
  | false =>
    have hterm : signedTerm nested n run (e.toks ++ rest) = term nested n run (e.toks ++ rest) := by
      rw [signedTerm]
      exact e.toks_unsigned hs hes hlvl rest
    rw [hterm]
    exact term_eq hG hes (h.unsigned hs hes hlvl) hlvl hlen hrest
  | true =>
    obtain ⟨htoks, hval, hes', h', hle⟩ := Expr.unsigned_spec h hs hes hlvl
    rw [htoks, List.length_cons] at hlen
    rw [htoks, List.cons_append, signedTerm, term_eq hG hes' h' (by omega) (by omega) hrest]
    cases run with
    | false => simp [Expr.val, mathsOp]
    | true => simp [Expr.val, mathsOp, hval]

theorem sum_eq (hG : Good n nested) {last sign : Bool} (hes : e.Es) (h : e.Agrees last sign) (hlvl : 9 ≤ e.lvl)
    (hlen : e.toks.length ≤ n) (hrest : Below 9 rest) : sum nested n run (e.toks ++ rest) = some (e.val run, rest) := by
  have hspine := e.spine_lt isAdd
  have hends : Ends 10 false rest := fun o toks heq => Nat.lt_succ_of_lt (hrest o toks heq)
  have hstop : ∀ o toks, rest = .op o :: toks → isAdd o = false := fun o toks heq => Bool.eq_false_iff.2 fun ho => by
    have hlt := hrest o toks heq
    rw [isAdd_iff.1 ho] at hlt
    exact Nat.lt_irrefl _ hlt
  have hloop : sum nested n run (e.toks ++ rest) =
      opLoop isAdd (term nested n) run (n - e.spine isAdd) (e.val run) rest := by
    refine chain_eq (signedTerm nested n) 10
      (fun _ e => e.Es ∧ e.Agrees false sign ∧ 9 ≤ e.lvl ∧ e.toks.length ≤ n) ?_ ?_ ?_ ?_
      ⟨hes, h.last hlvl false, hlvl, hlen⟩ (by omega) hends
    · intro toks a rest hfirst
      rw [sum, hfirst]
    · rintro last e ⟨hes, h, hlvl, hlen⟩ hno rest hrest
      refine signedTerm_eq hG hes h (Expr.lvl_of_bin (by decide) (by decide) hlvl fun o l r heq hle => ?_) hlen
        (Ends.below hrest)
      have hne : o.lvl ≠ 9 := fun h9 => nomatch (hno o l r heq).symm.trans (isAdd_iff.2 h9)
      exact Nat.lt_of_le_of_ne hle hne.symm
    · rintro last o l r ⟨hes, h, hlvl, hlen⟩ ho
      rw [Expr.agrees_add ho] at h
      rw [Expr.toks_bin, List.length_append, List.length_cons] at hlen
      exact ⟨⟨hes.1, h.1, Nat.le_trans hlvl hes.2.2.1, by omega⟩, fun hrest =>
        term_eq hG hes.2.1 h.2 (Nat.lt_of_le_of_lt hlvl hes.2.2.2) (by omega) (Ends.below hrest)⟩
    · intro o ho
      cases o <;> first | exact absurd ho (by decide) | exact ⟨nofun, nofun, by decide⟩
  rw [hloop, opLoop_stop (by omega) hstop]

theorem shiftOp_none {a : BitVec w} (hrest : Below 8 rest) : shiftOp nested run a rest = some (a, rest) := by
  cases rest with
  | nil => rfl
  | cons t rest =>
    cases t with
    | op o =>
      have hno : ¬ isShift o = true := fun ho => by
        have hlt := hrest o rest rfl
        rw [isShift_iff.1 ho] at hlt
        exact Nat.lt_irrefl _ hlt
      rw [shiftOp, if_neg hno]
    | _ => rfl

theorem precedent_eq (hG : Good n nested) {last sign : Bool} (hes : e.Es) (h : e.Agrees last sign) (hlvl : 8 ≤ e.lvl)
    (hlen : e.toks.length ≤ n) (hrest : Ends 8 last rest) :
    handlePrecedentExpr nested n run (e.toks ++ rest) = some (e.val run, rest) := by
  by_cases hnine : 9 ≤ e.lvl
  · have hbelow : Below 8 rest := hrest.below
    rw [handlePrecedentExpr, sum_eq hG hes h hnine hlen fun o toks heq => Nat.lt_succ_of_lt (hbelow o toks heq)]
    exact shiftOp_none hbelow
  · cases e with
    | bin o l r =>
      have hshift : isShift o = true := isShift_iff.2 (Nat.le_antisymm (Nat.le_of_not_lt hnine) hlvl)
      have ho := isShift_iff.1 hshift
      rw [Expr.agrees_shift hshift] at h
      obtain ⟨rfl, hl, hr⟩ := h
      have hlvls := hes.2.2
      have hpos : 0 < l.toks.length := Nat.lt_of_le_of_lt (Nat.zero_le _) (l.spine_lt isMul)
      rw [Expr.toks_bin, List.length_append, List.length_cons] at hlen
      rw [Expr.toks_bin, List.append_assoc, List.cons_append, handlePrecedentExpr,
        sum_eq hG hes.1 hl (hl.not_shift (by omega)) (by omega) (ends_op (by omega) _)]
      -- the right operand ends with the group
      dsimp only
      rw [shiftOp, if_pos hshift, hG r hes.2.1 hr (by omega) run rest hrest]
      dsimp only
      rw [Expr.val_bin (by rintro rfl; exact nomatch hshift) (by rintro rfl; exact nomatch hshift)]
    | cond c a b => exact absurd hlvl (by simp [Expr.lvl])
    | lit v => exact absurd (by simp [Expr.lvl]) hnine
    | paren e => exact absurd (by simp [Expr.lvl]) hnine
    | neg e => exact absurd (by simp [Expr.lvl]) hnine
    | not e => exact absurd (by simp [Expr.lvl]) hnine

theorem relational_eq (hG : Good n nested) {last sign : Bool} (hes : e.Es) (h : e.Agrees last sign) (hlvl : 6 ≤ e.lvl)
    (hlen : e.toks.length ≤ n) (hrest : Ends 6 last rest) :
    relational nested n run (e.toks ++ rest) = some (e.val run, rest) := by
  have hspine := e.spine_lt isRelational
  have hstop : ∀ o toks, rest = .op o :: toks → isRelational o = false := fun o toks heq =>
    Bool.eq_false_iff.2 fun ho => by
      have hlt := hrest.below o toks heq
      have hor := isRelational_iff.1 ho
      omega
  have hloop : relational nested n run (e.toks ++ rest) =
      opLoop isRelational (handlePrecedentExpr nested n) run (n - e.spine isRelational) (e.val run) rest := by
    refine chain_eq (handlePrecedentExpr nested n) 8
      (fun last e => e.Es ∧ e.Agrees last sign ∧ 6 ≤ e.lvl ∧ e.toks.length ≤ n) ?_ ?_ ?_ ?_
      ⟨hes, h, hlvl, hlen⟩ (by omega) (hrest.mono (by decide))
    · intro toks a rest hfirst
      rw [relational, hfirst]
    · rintro last e ⟨hes, h, hlvl, hlen⟩ hno rest hrest
      refine precedent_eq hG hes h (Expr.lvl_of_bin (by decide) (by decide) hlvl fun o l r heq hle => ?_) hlen hrest
      have hne : ¬ (o.lvl = 6 ∨ o.lvl = 7) := fun hrel => nomatch (hno o l r heq).symm.trans (isRelational_iff.2 hrel)
      omega
    · rintro last o l r ⟨hes, h, hlvl, hlen⟩ ho
      rw [Expr.agrees_relational ho] at h
      rw [Expr.toks_bin, List.length_append, List.length_cons] at hlen
      exact ⟨⟨hes.1, h.1, Nat.le_trans hlvl hes.2.2.1, by omega⟩, fun hrest =>
        precedent_eq hG hes.2.1 h.2.1 h.2.2 (by omega) hrest⟩
    · intro o ho
      cases o <;> first | exact absurd ho (by decide) | exact ⟨nofun, nofun, by decide⟩
  rw [hloop, opLoop_stop (by omega) hstop]

theorem bitLoop_stop {a : BitVec w} (hm : 0 < m) (hstop : ∀ o toks, rest = .op o :: toks → isBit o = false) :
    bitLoop nested n run m a rest = some (a, rest) := by
  obtain ⟨k, rfl⟩ : ∃ k, m = k + 1 := ⟨m - 1, by omega⟩
  cases rest with
  | nil => rfl
  | cons t rest =>
    cases t with
    | op o =>
      rw [bitLoop, hstop o rest rfl]
      rfl
    | _ => rfl

/-- What the machine has of an operator, whose right operand it has passed where it is not needed. -/
theorem Expr.val_bit {o : BinOp} {l r : Expr w} (ho : isBit o = true) (h : o = .lor → l.value = 0 ∨ l.value = 1) :
    (if run && !shortCircuit o (l.val run) then bitOp o (l.val run) (r.val (run && !shortCircuit o (l.val run)))
      else l.val run) = (Expr.bin o l r).val run := by
  cases run with
  | false => rfl
  | true =>
    cases o with
    | band => rfl
    | bxor => rfl
    | bor => rfl
    | land =>
      change (if (true && !(l.value == 0)) = true then
          newBool (!(l.value == 0)) &&& newBool (!(r.val (true && !(l.value == 0)) == 0)) else l.value) =
        newBool (!(l.value == 0) && !(r.value == 0))
      cases hl : l.value == 0 with
      | true => exact eq_of_beq hl
      | false =>
        change newBool true &&& newBool (!(r.value == 0)) = newBool (!(r.value == 0))
        cases r.value == 0 with
        | true => exact BitVec.and_zero
        | false => exact BitVec.and_self
    | lor =>
      change (if (true && !!(l.value == 0)) = true then
          newBool (!(l.value == 0)) ||| newBool (!(r.val (true && !!(l.value == 0)) == 0)) else l.value) =
        newBool (!(l.value == 0) || !(r.value == 0))
      cases hl : l.value == 0 with
      | true => exact BitVec.zero_or
      | false => exact (h rfl).resolve_left fun hzero => by simp [hzero] at hl
    | _ => exact nomatch ho

theorem bit_eq (run : Bool) (hG : Good n nested) {last sign : Bool} (hes : e.Es) (h : e.Agrees last sign)
    (hlvl : 1 ≤ e.lvl)
    (hlen : e.toks.length ≤ n) (hrest : Ends 6 last rest) :
    ∃ a toks, relational nested n run (e.toks ++ rest) = some (a, toks) ∧
      bitLoop nested n run n a toks = bitLoop nested n run (n - e.spine isBit) (e.val run) rest := by
  induction e generalizing last rest with
  | bin o l r ihl _ =>
    cases ho : isBit o with
    | false =>
      have hsix : 6 ≤ o.lvl := Nat.le_of_not_lt fun hlt => nomatch ho.symm.trans (isBit_iff.2 hlt)
      refine ⟨_, _, relational_eq hG hes h hsix hlen hrest, ?_⟩
      rw [Expr.spine, ho]
      rfl
    | true =>
      have hlt := isBit_iff.1 ho
      rw [Expr.agrees_bit ho] at h
      obtain ⟨hl, hr, hsix, hor⟩ := h
      have hspine := l.spine_lt isBit
      rw [Expr.toks_bin, List.length_append, List.length_cons] at hlen
      have hends : Ends 6 false (.op o :: (r.toks ++ rest)) := ends_op hlt _
      obtain ⟨a, toks, hfirst, hloop⟩ := ihl hes.1 hl (Nat.le_trans hlvl hes.2.2.1) (by omega) hends
      refine ⟨a, toks, ?_, ?_⟩
      · rw [Expr.toks_bin, List.append_assoc, List.cons_append, hfirst]
      · rw [hloop, Expr.spine, if_pos ho, show n - l.spine isBit = n - (l.spine isBit + 1) + 1 by omega, bitLoop,
          if_pos ho]
        dsimp only
        rw [relational_eq hG hes.2.1 hr hsix (by omega) hrest]
        dsimp only
        rw [Expr.val_bit ho hor]
  | lit v => exact ⟨_, _, relational_eq hG hes h (by simp [Expr.lvl]) hlen hrest, rfl⟩
  | paren e _ => exact ⟨_, _, relational_eq hG hes h (by simp [Expr.lvl]) hlen hrest, rfl⟩
  | neg e _ => exact ⟨_, _, relational_eq hG hes h (by simp [Expr.lvl]) hlen hrest, rfl⟩
  | not e _ => exact ⟨_, _, relational_eq hG hes h (by simp [Expr.lvl]) hlen hrest, rfl⟩
  | cond c a b _ _ _ => exact absurd hlvl (by simp [Expr.lvl])

theorem ternary_none {a : BitVec w} (hrest : Stops rest) : ternary nested run a rest = some (a, rest) := by
  cases rest with
  | nil => rfl
  | cons t rest =>
    cases t with
    | quest => exact hrest.elim
    | _ => rfl

theorem base_eq (run : Bool) (hG : Good n nested) {last sign : Bool} (hes : e.Es) (h : e.Agrees last sign)
    (hlvl : 1 ≤ e.lvl)
    (hlen : e.toks.length ≤ n) (hrest : Ends 1 last rest) :
    ∃ a toks, relational nested n run (e.toks ++ rest) = some (a, toks) ∧
      bitLoop nested n run n a toks = some (e.val run, rest) := by
  obtain ⟨a, toks, hfirst, hloop⟩ := bit_eq run hG hes h hlvl hlen (hrest.mono (by decide))
  refine ⟨a, toks, hfirst, hloop.trans (bitLoop_stop ?_ fun o toks heq => ?_)⟩
  · have hspine := e.spine_lt isBit
    omega
  · have hlt := hrest.below o toks heq
    have hpos : 0 < o.lvl := by cases o <;> decide
    omega

theorem handleBaseExpr_good (hG : Good n (handleBaseExpr n (w := w))) :
    Good (n + 1) (handleBaseExpr (n + 1) (w := w)) := by
  intro e hes h hlen run rest hrest
  by_cases hlvl : 1 ≤ e.lvl
  · obtain ⟨a, toks, hfirst, hloop⟩ := base_eq run hG hes h hlvl (Nat.le_of_lt_succ hlen) hrest
    rw [handleBaseExpr, hfirst]
    dsimp only
    rw [hloop]
    exact ternary_none hrest
  · cases e with
    | cond c a b =>
      rw [Expr.toks, List.length_append, List.length_cons, List.length_append, List.length_cons] at hlen
      obtain ⟨hc, ha, hb⟩ := h
      have hquest : Ends 1 false (.quest :: (a.toks ++ .colon :: (b.toks ++ rest))) := nofun
      obtain ⟨x, toks, hfirst, hloop⟩ := base_eq run hG hes.1 hc hes.2.2.2 (by omega) hquest
      rw [Expr.toks, List.append_assoc, List.cons_append, List.append_assoc, List.cons_append, handleBaseExpr, hfirst]
      dsimp only
      rw [hloop]
      dsimp only
      rw [ternary, hG a hes.2.1 ha (by omega) _ (.colon :: (b.toks ++ rest)) trivial]
      dsimp only
      rw [hG b hes.2.2.1 hb (by omega) _ rest hrest]
      cases run with
      | false => rfl
      | true =>
        change some (if (c.value != 0) = true then a.val (c.value != 0) else b.val !(c.value != 0), rest) =
          some (if (c.value != 0) = true then a.value else b.value, rest)
        cases c.value != 0 with
        | false => rfl
        | true => rfl
    | bin o l r => exact absurd (by cases o <;> simp [Expr.lvl, BinOp.lvl]) hlvl
    | lit v => exact absurd (by simp [Expr.lvl]) hlvl
    | paren e => exact absurd (by simp [Expr.lvl]) hlvl
    | neg e => exact absurd (by simp [Expr.lvl]) hlvl
    | not e => exact absurd (by simp [Expr.lvl]) hlvl

theorem good (n : ℕ) : Good n (handleBaseExpr n (w := w)) := by
  induction n with
  | zero => exact fun e _ _ hlen => absurd hlen (Nat.not_lt_zero _)
  | succ n ih => exact handleBaseExpr_good ih

end

end Jse
