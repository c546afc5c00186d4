/-
  Dotted paths into a JSON text (`LITE-utils/json_token.c`).

  A path goes from the value of one member to the text behind it, and the scanner does not stop at
  the end of the object there.  Memory that is asked for is always given.
-/
import AliOS.Utility.JsonLookup

namespace Lite

open Lib

/-! ## Texts -/

/-- The characters that `%.*s` prints: `n` at most, and those before the NUL. -/
def precision : ℕ → Ptr → Option (List Char)
  | 0, _ => some []
  | _ + 1, [] => none
  | n + 1, b :: p => if b = nul then some [] else (precision n p).map (b :: ·)

/-- The characters before the NUL. -/
def textOf : Ptr → Option (List Char)
  | [] => none
  | b :: p => if b = nul then some [] else (textOf p).map (b :: ·)

/-- `LITE_format_string`: the text is printed to 1024 characters, the NUL among them. -/
def formatString (text : List Char) : Option (List Char) := if text.length < 1024 then some text else none

/-- The copy of a part of the key. -/
def partOf (s : List Char) : CStr where
  text := s.takeWhile (· ≠ nul)
  ok h := by simpa using List.mem_takeWhile_imp h

/-! ## The value at a path -/

/-- A call of `json_get_value_by_name` for all the text that follows; the type is not asked for. -/
def valueIn (src : Ptr) (key : List Char) : Option (Option (Ptr × Option ℕ)) :=
  (strlen src).bind fun len =>
    (getValueByName src len (partOf key)).map fun got => got.val.map fun val => (val, got.out.map (·.1))

/-- The last call, and the copy of the value; `value_len` has been stored where there is a value. -/
def copyValue (src : Ptr) (key : List Char) : Option (Option (List Char)) :=
  notNull (valueIn src key) fun (value, len) =>
    len.bind fun len => (textOf value).map fun text => some (text.take len)

/-- The loop of `LITE_json_value_of`: `part` stands between `key_iter` and the rest of the key. -/
def valueLoopOf (src : Ptr) (part : List Char) : List Char → Option (Option (List Char))
  | [] => copyValue src part
  | c :: key =>
    if c = '.' then notNull (valueIn src part) fun (value, _) => valueLoopOf value [] key
    else valueLoopOf src (part ++ [c]) key

def jsonValueOf (key : CStr) (src : Ptr) : Option (Option (List Char)) := valueLoopOf src [] key.text

/-! ## The paths of an object -/

/-- The body of the loop in `LITE_json_keys_of`; `inner` is the call for an object. -/
def keysBody (inner : Ptr → List Char → List (List Char) → Option (List (List Char))) (pre : List Char)
    (keylist : List (List Char)) (pair : Pair) : Option (List (List Char) × Bool) :=
  if pair.keyLen ≠ 0 ∧ pair.valLen ≠ 0 then do
    let name ← precision pair.keyLen pair.key
    let key ← formatString (pre ++ name)
    if pair.valType = .object then
      let iterVal ← formatString (← precision pair.valLen pair.val)
      let iterPre ← formatString (pre ++ name ++ ['.'])
      let keylist ← inner (iterVal ++ [nul]) iterPre (keylist ++ [key])
      some (keylist, false)
    else some (keylist ++ [key], false)
  else some (keylist, false)

/-- `LITE_json_keys_of` with the list so far; `n` bounds the depth of the objects. -/
def keysOf : ℕ → Ptr → List Char → List (List Char) → Option (List (List Char))
  | 0, _, _, _ => none
  | n + 1, src, pre, keylist => forEachKv (keysBody (keysOf n) pre) src keylist

/-- `LITE_json_keys_of` with the prefix `""`: the last entry of the list has no key. -/
def jsonKeysOf (src : Ptr) : Option (List (Option (List Char))) :=
  (keysOf (src.length + 1) src [] []).map fun keylist => keylist.map some ++ [none]

/-! ## By the grammar -/

/-- The text of a value. -/
def Value.content : Value → List Char
  | .string s => s
  | val => val.text

def Members.find (name : List Char) : Members → Option Value
  | .nil => none
  | .cons _ name' _ _ val _ members => if name' = name then some val else members.find name

/-- The value at a path of names. -/
def Members.resolve : List (List Char) → Members → Option Value
  | [], _ => none
  | [name], members => members.find name
  | name :: path, members =>
    match members.find name with
    | some (.object _ members) => members.resolve path
    | _ => none

mutual

/-- The dotted paths of all members. -/
def Value.paths (pre : List Char) : Value → List (List Char)
  | .object _ members => members.paths pre
  | _ => []

def Members.paths (pre : List Char) : Members → List (List Char)
  | .nil => []
  | .cons _ name _ _ val _ members =>
    (pre ++ name) :: (val.paths (pre ++ name ++ ['.']) ++ members.paths pre)

end

def Members.names : Members → List (List Char)
  | .nil => []
  | .cons _ name _ _ _ _ members => name :: members.names

mutual

/-- The names in each object are distinct and have no dots. -/
def Value.Dotless : Value → Prop
  | .array _ items => items.Dotless
  | .object _ members => members.names.Nodup ∧ members.Dotless
  | _ => True

def Items.Dotless : Items → Prop
  | .nil => True
  | .cons _ val _ items => val.Dotless ∧ items.Dotless

def Members.Dotless : Members → Prop
  | .nil => True
  | .cons _ name _ _ val _ members => '.' ∉ name ∧ val.Dotless ∧ members.Dotless

end

/-- The list has exactly the paths of the object, and the value at each path is its text; for
    any other path there is none. -/
def Resolves (t : ObjectText) : Prop :=
  ∀ z, (∃ keylist, jsonKeysOf (t.text ++ nul :: z) = some keylist ∧
      ∀ path, some path ∈ keylist ↔ path ∈ t.members.paths []) ∧
    ∀ key : CStr, jsonValueOf key (t.text ++ nul :: z) =
      some ((t.members.resolve (key.text.splitOn '.')).map Value.content)

/-! ## The loop over members -/

section

variable {σ : Type} {body body' : σ → Pair → Option (σ × Bool)} {I : σ → Prop} {src : Ptr} {data out : σ}

theorem forEachKv_iff : forEachKv body src data = some out ↔
    getObject src = some none ∧ data = out ∨
      ∃ p, getObject src = some (some p) ∧ Turns (forTurn body) ⟨.at_ p, data⟩ ⟨.null, out⟩ := by
  unfold forEachKv
  rcases hobj : getObject src with - | - | p
  · simp
  · simp
  · simpa using loopFor_iff

theorem forEachKv_keeps (hbody : ∀ {p next data pair data' brk}, nextPair p = some (some (pair, next)) → I data →
    body data pair = some (data', brk) → I data') (h : forEachKv body src data = some out) (hI : I data) : I out := by
  rcases forEachKv_iff.1 h with ⟨-, rfl⟩ | ⟨p, -, hturns⟩
  · exact hI
  · refine Turns.keeps (I := fun st => I st.data) ?_ hturns hI
    intro st st' hst hturn
    obtain ⟨p, -, rfl | rfl | ⟨pair, next, data', brk, hnext, hrun, rfl⟩⟩ := forTurn_eq_some hturn
    · exact hst
    · exact hst
    · exact hbody hnext hst hrun

end

/-! ## Keys -/

variable {src : Ptr} {pre key : List Char} {keylist keylist' : List (List Char)} {pair : Pair}
  {inner : Ptr → List Char → List (List Char) → Option (List (List Char))}

theorem precision_eq {n p : List Char} (hz : nul ∉ n) : precision n.length (n ++ p) = some n := by
  induction n with
  | nil => rfl
  | cons b n ih =>
    rw [List.mem_cons, not_or] at hz
    rw [List.length_cons, List.cons_append, precision, if_neg (Ne.symm hz.1), ih hz.2]
    rfl

theorem formatString_eq_some {text text' : List Char} (h : formatString text = some text') : text' = text := by
  rw [formatString] at h
  split_ifs at h
  exact (Option.some.inj h).symm

/-- **At a member** a key is added that is not empty, and those of its object. -/
theorem keysBody_eq_some {brk : Bool} (h : keysBody inner pre keylist pair = some (keylist', brk)) :
    brk = false ∧ (¬ (pair.keyLen ≠ 0 ∧ pair.valLen ≠ 0) ∧ keylist' = keylist ∨
      (pair.keyLen ≠ 0 ∧ pair.valLen ≠ 0) ∧ ∃ name, precision pair.keyLen pair.key = some name ∧
        (keylist' = keylist ++ [pre ++ name] ∨
          ∃ src, inner src (pre ++ name ++ ['.']) (keylist ++ [pre ++ name]) = some keylist')) := by
  unfold keysBody at h
  by_cases hrep : pair.keyLen ≠ 0 ∧ pair.valLen ≠ 0
  · rw [if_pos hrep] at h
    obtain ⟨name, hname, h⟩ := Option.bind_eq_some_iff.1 h
    obtain ⟨key, hkey, h⟩ := Option.bind_eq_some_iff.1 h
    obtain rfl := formatString_eq_some hkey
    split_ifs at h
    · obtain ⟨text, -, h⟩ := Option.bind_eq_some_iff.1 h
      obtain ⟨iterVal, -, h⟩ := Option.bind_eq_some_iff.1 h
      obtain ⟨iterPre, hpre, h⟩ := Option.bind_eq_some_iff.1 h
      obtain rfl := formatString_eq_some hpre
      obtain ⟨keys, hinner, h⟩ := Option.bind_eq_some_iff.1 h
      obtain ⟨rfl, rfl⟩ := Prod.mk.inj (Option.some.inj h)
      exact ⟨rfl, .inr ⟨hrep, name, hname, .inr ⟨_, hinner⟩⟩⟩
    · obtain ⟨rfl, rfl⟩ := Prod.mk.inj (Option.some.inj h)
      exact ⟨rfl, .inr ⟨hrep, name, hname, .inl rfl⟩⟩
  · rw [if_neg hrep] at h
    obtain ⟨rfl, rfl⟩ := Prod.mk.inj (Option.some.inj h)
    exact ⟨rfl, .inl ⟨hrep, rfl⟩⟩

theorem keysOf_ne_nil {n : ℕ} (h : keysOf n src pre keylist = some keylist') (hlist : [] ∉ keylist) : [] ∉ keylist' := by
  induction n generalizing src pre keylist keylist' with
  | zero => cases h
  | succ n ih =>
    rw [keysOf] at h
    refine forEachKv_keeps (I := fun keylist => [] ∉ keylist) ?_ h hlist
    intro p next keys pair keys' brk hnext hkeys hrun
    obtain ⟨-, ⟨-, rfl⟩ | ⟨hrep, name, hname, hkey⟩⟩ := keysBody_eq_some hrun
    · exact hkeys
    · obtain ⟨⟨x, y, hx, hlen, hz⟩, -⟩ := nextPair_eq_some hnext
      rw [hx, ← hlen, precision_eq hz] at hname
      obtain rfl := Option.some.inj hname
      have hne : pre ++ x ≠ [] := by
        intro hnil
        rw [List.append_eq_nil_iff] at hnil
        rw [hnil.2] at hlen
        exact hrep.1 hlen.symm
      have hadd : [] ∉ keys ++ [pre ++ x] := by
        rw [List.mem_append, List.mem_singleton, not_or]
        exact ⟨hkeys, hne.symm⟩
      rcases hkey with rfl | ⟨src', hinner⟩
      · exact hadd
      · exact ih hinner hadd

/-! ## The empty path -/

variable {t : ObjectText} {z : List Char}

theorem report_empty (pair : Pair) (ret : Bool) (nv : Nv) :
    report (getValueByNameCb (partOf [])) (ret, nv) pair =
      some (if pair.keyLen ≠ 0 ∧ pair.valLen ≠ 0 then ((true, ⟨pair.valLen, pair.valType, some pair.val⟩), true)
      else ((ret, nv), false)) := by
  have hcmp : strncmpEq pair.key ((partOf []).text ++ [nul]) (partOf []).text.length = some true := by
    rw [show (partOf []).text.length = 0 from rfl, strncmpEq]
  unfold report
  by_cases hrep : pair.keyLen ≠ 0 ∧ pair.valLen ≠ 0
  · rw [if_pos hrep, if_pos hrep, getValueByNameCb, hcmp]
    rfl
  · rw [if_neg hrep, if_neg hrep]

theorem scansTo_empty {n : ℕ} {p : Ptr} (h : Turns (forTurn (keysBody (keysOf n) pre)) ⟨.at_ p, []⟩ ⟨.null, keylist⟩)
    (hne : keylist ≠ []) : ∃ out, ScansTo (partOf []) p false out ∧ out.2.pV ≠ none := by
  induction hp : p.length using Nat.strong_induction_on generalizing p with
  | _ k ih =>
    subst hp
    rcases h.cases_first with heq | ⟨st, hturn, hrest⟩
    · cases heq
    obtain ⟨q, hq, rfl | rfl | ⟨pair, next, keys, brk, hnext, hrun, rfl⟩⟩ := forTurn_eq_some hturn
    · cases hrest.eq_of_end rfl
    · cases hrest.eq_of_end rfl
      exact absurd rfl hne
    · cases hq
      have hreport := report_empty pair false ⟨0, .string, none⟩
      obtain ⟨rfl, ⟨hno, rfl⟩ | ⟨hrep, -⟩⟩ := keysBody_eq_some hrun
      · rw [if_neg hno] at hreport
        obtain ⟨out, hout, hval⟩ := ih _ (nextPair_lt hnext) hrest rfl
        exact ⟨out, (scansTo_next hnext hreport).2 hout, hval⟩
      · rw [if_pos hrep] at hreport
        exact ⟨_, (scansTo_break hnext hreport).2 rfl, nofun⟩

theorem jsonValueOf_empty {n : ℕ} (h : keysOf n (t.text ++ nul :: z) pre [] = some keylist) (hne : keylist ≠ []) :
    jsonValueOf (partOf []) (t.text ++ nul :: z) ≠ some none := by
  cases n with
  | zero => cases h
  | succ n =>
    rw [keysOf, forEachKv_iff] at h
    rcases h with ⟨-, rfl⟩ | ⟨p, hobj, hturns⟩
    · exact absurd rfl hne
    · obtain ⟨out, hout, hval⟩ := scansTo_empty hturns hne
      have hloop := forEachKv_iff.2 (.inr ⟨p, hobj, hout⟩)
      obtain ⟨val, hval⟩ := Option.ne_none_iff_exists'.1 hval
      rw [jsonValueOf, show (partOf []).text = [] from rfl, valueLoopOf, copyValue, valueIn, strlen_eq t.nul_not_mem,
        Option.bind_some, getValueByName_eq, hloop]
      simp only [Option.map_some, hval, notNull_some]
      intro hnull
      obtain ⟨len, -, hnull⟩ := Option.bind_eq_some_iff.1 hnull
      obtain ⟨text, -, hnull⟩ := Option.map_eq_some_iff.1 hnull
      cases hnull

/-! ## No members -/

theorem forEachKv_empty {σ : Type} (h : t.members = .nil) (body : σ → Pair → Option (σ × Bool)) (data : σ) :
    forEachKv body (t.text ++ nul :: z) data = some data := by
  rw [forEachKv_iff, getObject_eq t.nul_not_mem]
  by_cases hopen : t.Opened
  · have hquote : '"' ∉ '{' :: (t.ws ++ t.after) := by
      have hws := t.ws_ok.not_mem (c := '"') (by decide)
      have htrail := t.trail_ok.not_mem (c := '"') (by decide)
      simp [ObjectText.after, hws, htrail]
    have hz : nul ∉ '{' :: (t.ws ++ t.after) := by
      have hws := t.ws_ok.not_mem (c := nul) (by decide)
      have htrail := t.trail_ok.not_mem (c := nul) (by decide)
      simp [ObjectText.after, hws, htrail, nul]
    right
    rw [t.objectText_opened hopen, h, Members.text, List.nil_append]
    exact ⟨_, rfl, .first (forTurn_null (nextPair_end hquote hz)) .refl⟩
  · left
    rw [t.objectText_closed hopen]
    exact ⟨rfl, rfl⟩

theorem valueIn_empty (h : t.members = .nil) (key : List Char) : valueIn (t.text ++ nul :: z) key = some none := by
  rw [valueIn, strlen_eq t.nul_not_mem, Option.bind_some, getValueByName_eq, forEachKv_empty h]
  rfl

theorem valueLoopOf_empty (h : t.members = .nil) (part key : List Char) :
    valueLoopOf (t.text ++ nul :: z) part key = some none := by
  induction key generalizing part with
  | nil => rw [valueLoopOf, copyValue, valueIn_empty h, notNull_null]
  | cons c key ih =>
    rw [valueLoopOf]
    split_ifs
    · rw [valueIn_empty h, notNull_null]
    · exact ih _

theorem resolve_nil (path : List (List Char)) : Members.nil.resolve path = none := by
  rcases path with - | ⟨name, - | ⟨name', path⟩⟩ <;> rfl

theorem find_mem_paths {name : List Char} {val : Value} (pre : List Char) : ∀ {members : Members},
    members.find name = some val → pre ++ name ∈ members.paths pre
  | .nil, h => by cases h
  | .cons w name' w₁ w₂ val' w₃ members, h => by
    rw [Members.find] at h
    rw [Members.paths, List.mem_cons, List.mem_append]
    split_ifs at h with heq
    · exact .inl (by rw [heq])
    · exact .inr (.inr (find_mem_paths pre h))

/-- **Paths are resolved** exactly in objects without members: where a key is listed, the empty path
    has a value, and it is listed for no member. -/
theorem resolves_iff (t : ObjectText) : Resolves t ↔ t.members = .nil := by
  constructor
  · intro h
    obtain ⟨⟨keylist, hlist, hpaths⟩, hvalues⟩ := h []
    obtain ⟨keys, hkeys, rfl⟩ := Option.map_eq_some_iff.1 hlist
    have hmem : ∀ path, path ∈ keys ↔ path ∈ t.members.paths [] := by
      intro path
      rw [← hpaths, List.mem_append, List.mem_map]
      simp
    by_contra hmembers
    have hne : keys ≠ [] := by
      rintro rfl
      cases hm : t.members with
      | nil => exact hmembers hm
      | cons w name w₁ w₂ val w₃ members =>
        have hname := (hmem name).2
        rw [hm] at hname
        cases hname List.mem_cons_self
    have hval := jsonValueOf_empty hkeys hne
    rw [hvalues (partOf []), show (partOf []).text.splitOn '.' = [[]] from rfl, Members.resolve] at hval
    cases hfind : t.members.find [] with
    | none =>
      rw [hfind] at hval
      exact hval rfl
    | some val => exact keysOf_ne_nil hkeys nofun ((hmem []).2 (find_mem_paths [] hfind))
  · intro h z
    refine ⟨⟨[none], ?_, fun path => ?_⟩, fun key => ?_⟩
    · rw [jsonKeysOf, keysOf, forEachKv_empty h]
      rfl
    · rw [h, Members.paths]
      simp
    · rw [jsonValueOf, valueLoopOf_empty h, h, resolve_nil]
      rfl

/-- `{"a":{"b":1},"x":2}` -/
def twoObjects : ObjectText where
  lead := []
  ws := []
  members := .cons [] ['a'] [] [] (.object [] (.cons [] ['b'] [] [] (.number false ['1'] [] []) [] .nil)) []
    (.cons [] ['x'] [] [] (.number false ['2'] [] []) [] .nil)
  trail := []
  lead_ok := .nil
  ws_ok := .nil
  members_ok := by
    have hname : ∀ {c}, c ∈ ['a', 'b', 'x'] → IsChars [c] := by
      intro c hc
      simp only [List.mem_cons, List.not_mem_nil, or_false] at hc
      rcases hc with rfl | rfl | rfl <;> exact .char (by decide) (by decide) (by decide) .nil
    have hnumber : ∀ {c}, c ∈ ['1', '2'] → (Value.number false [c] [] []).Ok := by
      intro c hc
      simp only [List.mem_cons, List.not_mem_nil, or_false] at hc
      rcases hc with rfl | rfl <;>
        exact ⟨⟨⟨List.cons_ne_nil _ _, List.forall_mem_singleton.2 rfl⟩, nofun⟩, .inl rfl, .inl rfl⟩
    have hb : (Members.cons [] ['b'] [] [] (.number false ['1'] [] []) [] .nil).Ok :=
      ⟨nofun, hname (by decide), nofun, nofun, hnumber (by decide), nofun, trivial⟩
    have hx : (Members.cons [] ['x'] [] [] (.number false ['2'] [] []) [] .nil).Ok :=
      ⟨nofun, hname (by decide), nofun, nofun, hnumber (by decide), nofun, trivial⟩
    exact ⟨nofun, hname (by decide), nofun, nofun, ⟨nofun, hb⟩, nofun, hx⟩
  trail_ok := .nil

/-- Here the path `a.x`, which names no member, has the value of `x`. -/
theorem resolves_outside : (twoObjects.members.names.Nodup ∧ twoObjects.members.Dotless) ∧ ¬ Resolves twoObjects := by
  refine ⟨?_, fun h => ?_⟩
  · simp [twoObjects, Members.names, Members.Dotless, Value.Dotless]
  · have hval : jsonValueOf ⟨['a', '.', 'x'], by decide⟩ (twoObjects.text ++ [nul]) = some (some ['2']) := by decide
    have hnone : twoObjects.members.resolve (['a', '.', 'x'].splitOn '.') = none := by decide
    have hsame := (h []).2 ⟨['a', '.', 'x'], by decide⟩
    rw [hval, hnone] at hsame
    cases hsame

end Lite
