/-
  `iotx_split_path_2_option` (`iotx_coap_api.c`): the path of a URI as options of
  a message.

  A pointer into the URI is the string from it on.  Each segment goes through
  `path`, a buffer of COAP_MSG_MAX_PATH_LEN bytes: a segment before a '/' with its
  own length, the last one with the length of the buffer.  An access behind `path`
  is `none`.  `coap_malloc` may fail: `alloc n` is its outcome for the option with
  the index `n`.
-/
import AliOS.Coap.Message

namespace Coap

variable {alloc : ℕ → Bool} {m m' : CoAPMessage} {s src cur ptr : Bytes} {parts : List Bytes} {n : ℕ}

/-! ## The code -/

/-- `COAP_MSG_MAX_PATH_LEN`. -/
def maxPathLen : ℕ := 32
/-- `IOTX_URI_MAX_LEN`. -/
def uriMaxLen : ℕ := 135
def optionUriPath : ℕ := 11

def slash : UInt8 := 0x2F

/-- The characters of a string before its end. -/
def CStr : Type := { s : Bytes // 0 ∉ s }

inductive IotxRet
  | success
  | invalidParam
  | uriTooLoog
  deriving DecidableEq

/-- `CoAPStrOption_add`; where `coap_malloc` fails, the option has its length and no value. -/
def coapStrOptionAddWith (ok : Bool) (m : CoAPMessage) (optnum : ℕ) (data : Bytes) : CoAPStat × CoAPMessage :=
  if maxOptionNum ≤ m.options.length then (.invalidParam, m)
  else
    let val := if ok then data else []
    (.success, { m with
      options := m.options ++ [⟨optionDelta optnum m.optdelta, data.length % 2 ^ 16, val⟩]
      optdelta := optnum % 2 ^ 8 })

/-- `strncpy(path, src, n)` into the buffer of zeros. -/
def strncpyPath (src : Bytes) (n : ℕ) : Option Bytes :=
  if n ≤ maxPathLen then
    let data := src.take n
    some (data ++ List.replicate (maxPathLen - data.length) 0)
  else none

/-- `strlen(path)`. -/
def strlenPath (path : Bytes) : Option ℕ := if 0 ∈ path then some (path.idxOf 0) else none

/-- Both branches: fill `path`, and add it.  What `CoAPStrOption_add` returns is not
    looked at. -/
def addPath (alloc : ℕ → Bool) (src : Bytes) (n : ℕ) (m : CoAPMessage) : Option CoAPMessage := do
  let path ← strncpyPath src n
  let len ← strlenPath path
  some (coapStrOptionAddWith (alloc m.options.length) m optionUriPath (path.take len)).2

/-- The loop. -/
def splitLoop (alloc : ℕ → Bool) : (ptr pstr : Bytes) → CoAPMessage → Option CoAPMessage
  | [], _, m => some m
  | c :: ptr, pstr, m =>
    let len := pstr.length - (ptr.length + 1)
    (if c = slash ∧ len ≠ 0 then addPath alloc pstr len m else some m).bind fun m =>
      let pstr := if c = slash then ptr else pstr
      (if ptr = [] ∧ pstr ≠ [] then addPath alloc pstr (maxPathLen - 1) m else some m).bind fun m =>
        splitLoop alloc ptr pstr m

def iotxSplitPath2Option (alloc : ℕ → Bool) (uri : Option CStr) (message : Option CoAPMessage) :
    Option (IotxRet × Option CoAPMessage) :=
  match uri, message with
  | some uri, some m =>
    if uriMaxLen < uri.1.length then some (.uriTooLoog, some m)
    else (splitLoop alloc uri.1 uri.1 m).map fun m => (.success, some m)
  | _, m => some (.invalidParam, m)

/-! ## The segments -/

/-- The non-empty segments of a URI. -/
def segments (uri : CStr) : List Bytes := (uri.1.splitOn slash).filter (· ≠ [])

/-- The options for segments. -/
def pathOptions (segs : List Bytes) : List (ℕ × OptData) := segs.map fun s => (optionUriPath, .str s)

/-- The call returns, with nothing written behind `path`, and adds the segments. -/
def SplitsExactly (alloc : ℕ → Bool) (uri : CStr) (m : CoAPMessage) : Prop :=
  ∃ m', iotxSplitPath2Option alloc (some uri) (some m) = some (.success, some m') ∧
    m'.options = m.options ++ stored m.optdelta (pathOptions (segments uri))

/-- There is room for the options from the index `n` on, and memory for their
    values; each segment leaves a byte of `path` free. -/
structure Roomy (alloc : ℕ → Bool) (segs : List Bytes) (n : ℕ) : Prop where
  short : ∀ s ∈ segs, s.length < maxPathLen
  room : ∀ i < segs.length, n + i < maxOptionNum
  memory : ∀ i < segs.length, alloc (n + i) = true

theorem roomy_nil : Roomy alloc [] n := ⟨by simp, by simp, by simp⟩

theorem roomy_cons {segs : List Bytes} :
    Roomy alloc (s :: segs) n ↔
      (s.length < maxPathLen ∧ n < maxOptionNum ∧ alloc n = true) ∧ Roomy alloc segs (n + 1) := by
  constructor
  · intro h
    refine ⟨⟨h.short s List.mem_cons_self, h.room 0 (Nat.succ_pos _), h.memory 0 (Nat.succ_pos _)⟩, ?_, ?_, ?_⟩
    · exact fun s hs => h.short s (List.mem_cons_of_mem _ hs)
    · intro i hi
      have hroom := h.room (i + 1) (Nat.succ_lt_succ hi)
      omega
    · intro i hi
      have hmem := h.memory (i + 1) (Nat.succ_lt_succ hi)
      rwa [show n + (i + 1) = n + 1 + i by omega] at hmem
  · rintro ⟨⟨hshort, hroom, hmem⟩, h⟩
    refine ⟨?_, ?_, ?_⟩
    · intro t ht
      rcases List.mem_cons.1 ht with rfl | ht
      · exact hshort
      · exact h.short t ht
    · rintro (_ | i) hi
      · exact hroom
      · have hrest := h.room i (Nat.lt_of_succ_lt_succ hi)
        omega
    · rintro (_ | i) hi
      · exact hmem
      · have hrest := h.memory i (Nat.lt_of_succ_lt_succ hi)
        rwa [show n + (i + 1) = n + 1 + i by omega]

/-! ## One segment -/

theorem addPath_short (hz : 0 ∉ s) (hs : src.take n = s) (hlen : s.length < maxPathLen) (hn : n ≤ maxPathLen) :
    addPath alloc src n m = some (coapStrOptionAddWith (alloc m.options.length) m optionUriPath s).2 := by
  have hpath : strncpyPath src n = some (s ++ List.replicate (maxPathLen - s.length) 0) := by
    unfold strncpyPath
    rw [if_pos hn, hs]
  have hzero : (0 : UInt8) ∈ List.replicate (maxPathLen - s.length) 0 :=
    List.mem_replicate.2 ⟨by omega, rfl⟩
  have hidx : (s ++ List.replicate (maxPathLen - s.length) (0 : UInt8)).idxOf 0 = s.length := by
    rw [List.idxOf_append_of_notMem hz]
    obtain ⟨k, hk⟩ : ∃ k, maxPathLen - s.length = k + 1 := ⟨maxPathLen - s.length - 1, by omega⟩
    rw [hk, List.replicate_succ, List.idxOf_cons_self, Nat.add_zero]
  unfold addPath strlenPath
  rw [hpath, Option.bind_eq_bind, Option.bind_some, if_pos (List.mem_append_right _ hzero), hidx,
    Option.bind_eq_bind, Option.bind_some, List.take_left]

/-- A segment that fills `path` has no zero behind it, and a longer one is written behind it. -/
theorem addPath_long (hz : 0 ∉ src.take n) (hlen : n ≤ src.length) (hn : maxPathLen ≤ n) :
    addPath alloc src n m = none := by
  unfold addPath strncpyPath
  by_cases h : n ≤ maxPathLen
  · have hfull : maxPathLen - (src.take n).length = 0 := by
      rw [List.length_take_of_le hlen]
      omega
    dsimp only
    rw [if_pos h, hfull, List.replicate_zero, List.append_nil, Option.bind_eq_bind, Option.bind_some]
    unfold strlenPath
    rw [if_neg hz]
    rfl
  · rw [if_neg h]
    rfl

theorem addWith_cases (ok : Bool) (m : CoAPMessage) (num : ℕ) (data : Bytes) :
    (maxOptionNum ≤ m.options.length ∧ (coapStrOptionAddWith ok m num data).2 = m) ∨
    (m.options.length < maxOptionNum ∧
      (coapStrOptionAddWith ok m num data).2.options =
        m.options ++ [⟨optionDelta num m.optdelta, data.length % 2 ^ 16, if ok then data else []⟩] ∧
      (coapStrOptionAddWith ok m num data).2.optdelta = num % 2 ^ 8) := by
  unfold coapStrOptionAddWith
  by_cases h : maxOptionNum ≤ m.options.length
  · rw [if_pos h]
    exact .inl ⟨h, rfl⟩
  · rw [if_neg h]
    exact .inr ⟨by omega, rfl, rfl⟩

/-! ## The loop, segment by segment -/

/-- Add the parts of a URI between its slashes; the last one is cut. -/
def addParts (alloc : ℕ → Bool) : List Bytes → CoAPMessage → Option CoAPMessage
  | [], m => some m
  | [last], m => if last = [] then some m else addPath alloc last (maxPathLen - 1) m
  | s :: t :: parts, m =>
    (if s = [] then some m else addPath alloc s s.length m).bind (addParts alloc (t :: parts))

theorem addParts_cons (h : parts ≠ []) :
    addParts alloc (s :: parts) m =
      (if s = [] then some m else addPath alloc s s.length m).bind (addParts alloc parts) := by
  cases parts with
  | nil => exact absurd rfl h
  | cons t parts => rfl

theorem splitLoop_eq (hptr : ptr ≠ []) (hcur : slash ∉ cur) :
    splitLoop alloc ptr (cur ++ ptr) m = addParts alloc ((cur ++ ptr).splitOn slash) m := by
  induction ptr generalizing cur m with
  | nil => exact absurd rfl hptr
  | cons c ptr ih =>
    have hlen : (cur ++ c :: ptr).length - (ptr.length + 1) = cur.length := by simp
    unfold splitLoop
    dsimp only
    rw [hlen]
    by_cases hc : c = slash
    · -- the segment ends here
      subst hc
      rw [List.splitOn_append_cons_self, List.splitOn_eq_singleton hcur, List.singleton_append,
        addParts_cons (List.splitOn_ne_nil _ _), if_pos rfl]
      have hfirst : (if slash = slash ∧ cur.length ≠ 0 then addPath alloc (cur ++ slash :: ptr) cur.length m else some m) =
          if cur = [] then some m else addPath alloc cur cur.length m := by
        by_cases hnil : cur = []
        · rw [if_pos hnil, if_neg (by simp [hnil])]
        · have hpos := List.length_pos_of_ne_nil hnil
          rw [if_neg hnil, if_pos ⟨rfl, by omega⟩]
          unfold addPath strncpyPath
          rw [List.take_left, List.take_length]
      rw [hfirst]
      congr 1
      funext m1
      rw [if_neg (by simp), Option.bind_some]
      by_cases hend : ptr = []
      · subst hend
        rfl
      · have hnone : slash ∉ ([] : Bytes) := List.not_mem_nil
        exact ih hend hnone
    · rw [if_neg (by simp [hc]), Option.bind_some, if_neg hc]
      have hcur' : slash ∉ cur ++ [c] := by
        rw [List.mem_append, List.mem_singleton]
        rintro (h | h)
        · exact hcur h
        · exact hc h.symm
      by_cases hend : ptr = []
      · -- the last character
        subst hend
        rw [List.splitOn_eq_singleton hcur', if_pos ⟨rfl, by simp⟩]
        unfold addParts
        rw [if_neg (by simp)]
        exact Option.bind_fun_some _
      · rw [if_neg (by simp [hend]), Option.bind_some]
        have hnext := ih (m := m) hend hcur'
        rwa [List.append_assoc, List.singleton_append] at hnext

/-! ## The options -/

/-- The parts are added, and nothing else. -/
def AddsExactly (alloc : ℕ → Bool) (parts : List Bytes) (m : CoAPMessage) : Prop :=
  ∃ m', addParts alloc parts m = some m' ∧
    m'.options = m.options ++ stored m.optdelta (pathOptions (parts.filter (· ≠ [])))

theorem addPath_appends (h : addPath alloc src n m = some m') :
    ∃ os, m'.options = m.options ++ os ∧ os.length ≤ 1 := by
  unfold addPath at h
  obtain ⟨path, -, h⟩ := Option.bind_eq_some_iff.1 h
  obtain ⟨len, -, h⟩ := Option.bind_eq_some_iff.1 h
  cases h
  rcases addWith_cases (alloc m.options.length) m optionUriPath (path.take len) with ⟨-, h⟩ | ⟨-, h, -⟩
  · exact ⟨[], by rw [h, List.append_nil], Nat.zero_le 1⟩
  · exact ⟨_, h, Nat.le_refl 1⟩

theorem addParts_nil_cons (alloc : ℕ → Bool) (parts : List Bytes) (m : CoAPMessage) :
    addParts alloc ([] :: parts) m = addParts alloc parts m := by
  cases parts with
  | nil => rfl
  | cons t parts => rfl

theorem addParts_appends (h : addParts alloc parts m = some m') :
    ∃ os, m'.options = m.options ++ os ∧ os.length ≤ (parts.filter (· ≠ [])).length := by
  induction parts generalizing m with
  | nil =>
    cases h
    exact ⟨[], by rw [List.append_nil], Nat.zero_le _⟩
  | cons s parts ih =>
    by_cases hs : s = []
    · subst hs
      rw [addParts_nil_cons] at h
      exact ih h
    · rw [List.filter_cons_of_pos (by simp [hs]), List.length_cons]
      cases parts with
      | nil =>
        unfold addParts at h
        rw [if_neg hs] at h
        exact addPath_appends h
      | cons t parts =>
        rw [addParts_cons (List.cons_ne_nil _ _), if_neg hs] at h
        obtain ⟨m1, h1, h⟩ := Option.bind_eq_some_iff.1 h
        obtain ⟨os, hos, hlen⟩ := addPath_appends h1
        obtain ⟨os', hos', hlen'⟩ := ih h
        refine ⟨os ++ os', by rw [hos', hos, List.append_assoc], ?_⟩
        rw [List.length_append]
        omega

theorem addParts_short (hz : 0 ∉ s) (hs : s ≠ []) (hlen : s.length < maxPathLen) :
    addParts alloc (s :: parts) m =
      addParts alloc parts (coapStrOptionAddWith (alloc m.options.length) m optionUriPath s).2 := by
  cases parts with
  | nil =>
    unfold addParts
    rw [if_neg hs]
    exact addPath_short hz (List.take_of_length_le (Nat.le_sub_one_of_lt hlen)) hlen (Nat.sub_le _ _)
  | cons t parts =>
    rw [addParts_cons (List.cons_ne_nil _ _), if_neg hs, addPath_short hz List.take_length hlen (Nat.le_of_lt hlen),
      Option.bind_some]

theorem stored_pathOptions (prev : ℕ) (s : Bytes) (segs : List Bytes) :
    stored prev (pathOptions (s :: segs)) =
      ⟨optionDelta optionUriPath prev, s.length, s⟩ :: stored (optionUriPath % 2 ^ 8) (pathOptions segs) := rfl

theorem pathOptions_length (segs : List Bytes) : (pathOptions segs).length = segs.length := List.length_map _

theorem not_exact_of_full {segs : List Bytes} {os : List CoAPMsgOption} {prev : ℕ}
    (hos : m'.options = m.options ++ os) (hlen : os.length ≤ segs.length) :
    m'.options ≠ m.options ++ stored prev (pathOptions (s :: segs)) := by
  intro h
  have heq := congrArg List.length (List.append_cancel_left (hos.symm.trans h))
  rw [stored_length, pathOptions_length, List.length_cons] at heq
  omega

theorem not_addsExactly_of_long (hz : 0 ∉ s) (hlen : maxPathLen ≤ s.length) :
    ¬ AddsExactly alloc (s :: parts) m := by
  have hs : s ≠ [] := by
    rintro rfl
    exact absurd hlen (by decide)
  rintro ⟨m', h, hopts⟩
  rw [List.filter_cons_of_pos (by simp [hs])] at hopts
  cases parts with
  | cons t parts =>
    rw [addParts_cons (List.cons_ne_nil _ _), if_neg hs,
      addPath_long (by rwa [List.take_length]) (Nat.le_refl _) hlen] at h
    cases h
  | nil =>
    have hcut : (s.take (maxPathLen - 1)).length = maxPathLen - 1 :=
      List.length_take_of_le (Nat.le_trans (Nat.sub_le _ _) hlen)
    unfold addParts at h
    rw [if_neg hs, addPath_short (s := s.take (maxPathLen - 1)) (fun h0 => hz (List.mem_of_mem_take h0)) rfl
      (by rw [hcut]; decide) (by decide)] at h
    cases h
    rcases addWith_cases (alloc m.options.length) m optionUriPath (s.take (maxPathLen - 1)) with
      ⟨-, hsame⟩ | ⟨-, hadd, -⟩
    · have hnone := congrArg CoAPMessage.options hsame
      have hnone' := hnone.trans (List.append_nil m.options).symm
      exact not_exact_of_full hnone' (Nat.zero_le _) hopts
    · rw [hadd, stored_pathOptions, hcut] at hopts
      have heq := congrArg CoAPMsgOption.len (List.cons.inj (List.append_cancel_left hopts)).1
      unfold maxPathLen at hlen heq
      dsimp only at heq
      omega

theorem addsExactly_iff (hz : ∀ s ∈ parts, 0 ∉ s) :
    AddsExactly alloc parts m ↔ Roomy alloc (parts.filter (· ≠ [])) m.options.length := by
  induction parts generalizing m with
  | nil => exact iff_of_true ⟨m, rfl, (List.append_nil _).symm⟩ roomy_nil
  | cons s parts ih =>
    have ih := fun {m} => @ih m fun s hs => hz s (List.mem_cons_of_mem _ hs)
    by_cases hs : s = []
    · subst hs
      rw [List.filter_cons_of_neg (by simp), ← ih]
      unfold AddsExactly
      rw [addParts_nil_cons, List.filter_cons_of_neg (by simp)]
    rw [List.filter_cons_of_pos (by simp [hs]), roomy_cons]
    by_cases hlen : s.length < maxPathLen
    · rw [and_iff_right hlen]
      unfold AddsExactly
      rw [addParts_short (hz s List.mem_cons_self) hs hlen, List.filter_cons_of_pos (by simp [hs])]
      rcases addWith_cases (alloc m.options.length) m optionUriPath s with ⟨hfull, hsame⟩ | ⟨hroom, hadd, hdelta⟩
      · -- the message is full
        refine iff_of_false ?_ fun h => absurd h.1.1 (Nat.not_lt.2 hfull)
        rintro ⟨m', h, hopts⟩
        rw [hsame] at h
        obtain ⟨os, hos, hless⟩ := addParts_appends h
        exact not_exact_of_full hos hless hopts
      · rw [and_iff_right hroom]
        generalize (coapStrOptionAddWith (alloc m.options.length) m optionUriPath s).2 = m1 at hadd hdelta
        have hcount : m1.options.length = m.options.length + 1 := by
          rw [hadd, List.length_append, List.length_singleton]
        rw [← hcount, ← ih]
        have hshort : s.length % 2 ^ 16 = s.length := Nat.mod_eq_of_lt (Nat.lt_trans hlen (by decide))
        rw [hshort] at hadd
        constructor
        · rintro ⟨m', h, hopts⟩
          obtain ⟨os, hos, -⟩ := addParts_appends h
          rw [stored_pathOptions] at hopts
          have happ := hos.symm.trans hopts
          rw [hadd, List.append_assoc, List.singleton_append] at happ
          obtain ⟨ho, htail⟩ := List.cons.inj (List.append_cancel_left happ)
          refine ⟨?_, m', h, by rw [hos, htail, hdelta]⟩
          by_contra hnull
          have hval := congrArg CoAPMsgOption.val ho
          rw [if_neg hnull] at hval
          exact hs hval.symm
        · rintro ⟨hmem, m', h, hopts⟩
          refine ⟨m', h, ?_⟩
          rw [hopts, hadd, hdelta, if_pos hmem, stored_pathOptions, List.append_assoc, List.singleton_append]
    · exact iff_of_false (not_addsExactly_of_long (hz s List.mem_cons_self) (Nat.le_of_not_lt hlen))
        fun h => hlen h.1.1

theorem mem_of_mem_part {uri : Bytes} {c : UInt8} (hs : s ∈ uri.splitOn slash) (hc : c ∈ s) : c ∈ uri := by
  induction uri generalizing s with
  | nil =>
    obtain rfl := List.mem_singleton.1 hs
    exact hc
  | cons x uri ih =>
    rw [List.splitOn_cons_eq_if_modifyHead] at hs
    split_ifs at hs with hx
    · rcases List.mem_cons.1 hs with rfl | hs
      · exact absurd hc List.not_mem_nil
      · exact List.mem_cons_of_mem _ (ih hs hc)
    · cases huri : uri.splitOn slash with
      | nil => exact absurd huri (List.splitOn_ne_nil _ _)
      | cons first parts =>
        rw [huri, List.modifyHead_cons] at hs
        rw [huri] at ih
        rcases List.mem_cons.1 hs with rfl | hs
        · rcases List.mem_cons.1 hc with rfl | hc
          · exact List.mem_cons_self
          · exact List.mem_cons_of_mem _ (ih List.mem_cons_self hc)
        · exact List.mem_cons_of_mem _ (ih (List.mem_cons_of_mem _ hs) hc)

theorem splitsExactly_iff (uri : CStr) (hlen : uri.1.length ≤ uriMaxLen) :
    SplitsExactly alloc uri m ↔ AddsExactly alloc (uri.1.splitOn slash) m := by
  have hloop : splitLoop alloc uri.1 uri.1 m = addParts alloc (uri.1.splitOn slash) m := by
    cases huri : uri.1 with
    | nil => rfl
    | cons c cs =>
      have hnone : slash ∉ ([] : Bytes) := List.not_mem_nil
      exact splitLoop_eq (List.cons_ne_nil c cs) hnone
  unfold SplitsExactly AddsExactly iotxSplitPath2Option
  dsimp only
  rw [if_neg (Nat.not_lt.2 hlen), hloop]
  constructor
  · rintro ⟨m', h, hopts⟩
    obtain ⟨m1, hm1, heq⟩ := Option.map_eq_some_iff.1 h
    obtain rfl := Option.some.inj (Prod.mk.inj heq).2
    exact ⟨m1, hm1, hopts⟩
  · rintro ⟨m', h, hopts⟩
    exact ⟨m', by rw [h]; rfl, hopts⟩

/-- **The path of a URI** becomes the options for its segments exactly where each of them
    leaves a byte of `path` free, and the message has room for all, and memory. -/
theorem uri_path_exact_iff (alloc : ℕ → Bool) (uri : CStr) (m : CoAPMessage) (hlen : uri.1.length ≤ uriMaxLen) :
    SplitsExactly alloc uri m ↔ Roomy alloc (segments uri) m.options.length := by
  rw [splitsExactly_iff uri hlen, addsExactly_iff fun s hs h0 => uri.2 (mem_of_mem_part hs h0), segments]

/-- "/topic/a" in a new message. -/
theorem uri_path_exact_iff_topic :
    SplitsExactly (fun _ => true) ⟨[0x2F, 0x74, 0x6F, 0x70, 0x69, 0x63, 0x2F, 0x61], by decide⟩ coapMessageInit :=
  (uri_path_exact_iff _ _ _ (by decide)).2 ⟨by decide, by decide, by decide⟩

/-- A segment of 33 characters is written behind `path`. -/
theorem uri_path_not_exact :
    ¬ ∀ uri : CStr, uri.1.length ≤ uriMaxLen → SplitsExactly (fun _ => true) uri coapMessageInit := by
  intro hall
  let uri : CStr := ⟨slash :: List.replicate 33 0x61 ++ [slash, 0x62], by decide⟩
  have hadds := (splitsExactly_iff uri (by decide)).1 (hall uri (by decide))
  have hroomy := (addsExactly_iff fun s hs h0 => uri.2 (mem_of_mem_part hs h0)).1 hadds
  have hshort := hroomy.short (List.replicate 33 0x61) (by decide)
  exact absurd hshort (by decide)

end Coap
