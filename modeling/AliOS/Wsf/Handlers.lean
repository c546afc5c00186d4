/-
  The handlers of `wsf_worker.c` that walk through a received message:
  `__process_msg_request`, `process_register_response` and `__copy_session`.

  The lengths of the fields come with the message, and none of them is checked.
  A read outside of the message, or a copy of more than its destination holds, is
  `none` here.  `handlers_inside_iff` says for which messages there is none.
-/
import AliOS.Wsf.Recv

namespace Wsf

/-! ## Reads -/

/-- A message in the receive buffer, whose length is an `int`. -/
structure WsfMsg where
  bytes : Bytes
  length_lt : bytes.length < 2 ^ 31

/-- `*pp`. -/
def readByte (msg : Bytes) (pp : ℕ) : Option ℕ := msg[pp]?.map UInt8.toNat

/-- The `n` bytes at `pp`. -/
def readBytes (msg : Bytes) (pp n : ℕ) : Option Bytes :=
  if pp + n ≤ msg.length then some ((msg.drop pp).take n) else none

/-- `os_get_unaligned_be32(pp)`. -/
def readBe32 (msg : Bytes) (pp : ℕ) : Option ℕ :=
  (readBytes msg pp 4).map fun bytes => be32 (at_ bytes) 0

/-- `pp += (*pp + 1)`. -/
def skipField (msg : Bytes) (pp : ℕ) : Option ℕ := (readByte msg pp).map fun len => pp + (len + 1)

/-- `memcpy` of `n` bytes at `pp` to a place of `size` bytes. -/
def copyField (msg : Bytes) (size pp n : ℕ) : Option Bytes :=
  if n ≤ size then readBytes msg pp n else none

/-- An `int` as the argument of a `size_t` or a `uint32_t`. -/
def toSize (n : ℤ) : ℕ := (n % 2 ^ 32).toNat

/-! ## The handlers -/

/-- `__process_msg_request`, as far as it reads the message: the parameter that is
    given to `push_callback`, which may read all of it. -/
def processMsgRequest (pushCallback : Bool) (msg : Bytes) : Option (Option Bytes) := do
  let _ ← readBytes msg 9 4
  if pushCallback then
    let pp ← skipField msg headerSize
    let pp ← skipField msg pp
    let pp ← skipField msg pp
    let pp ← skipField msg pp
    let paramCount ← readByte msg pp
    if 0 < paramCount then
      let param1Len ← readBe32 msg (pp + 1)
      let param ← readBytes msg (pp + 5) param1Len
      some (some param)
    else some none
  else some none

/-- `process_register_response`: the device id that it sets.  `malloc` says whether
    the `os_malloc` succeeds; an assertion checks that. -/
def processRegisterResponse (malloc : Bool) (msg : Bytes) : Option (Option Bytes) := do
  let resultCode ← readByte msg headerSize
  if resultCode = 0 then
    let byte ← readByte msg (headerSize + 1)
    let len : ℤ := if byte < 128 then byte else byte - 256
    if len ≠ 0 ∧ malloc then
      let deviceId ← copyField msg (toSize (len + 1)) (headerSize + 2) (toSize len)
      some (some deviceId)
    else some none
  else some none

/-- The copy of an id whose length is at `pp`, if there is memory for it: the id, and
    the place behind it. -/
def copyId (malloc : Bool) (msg : Bytes) (pp : ℕ) : Option (Option Bytes × ℕ) := do
  let len ← readByte msg pp
  if 0 < len ∧ malloc then
    let id ← copyField msg (len + 1) (pp + 1) len
    some (some id, pp + 1 + len)
  else some (none, pp + 1)

/-- `__copy_session`: the session id and the device id that it copies.  `hasDevice`
    says whether there is a device id already; the mallocs are those for the
    two. -/
def copySession (hasDevice malloc₁ malloc₂ : Bool) (msg : Bytes) : Option (Option Bytes × Option Bytes) := do
  let (sessionId, pp) ← copyId malloc₁ msg (headerSize + 1)
  if hasDevice then some (sessionId, none)
  else
    let (deviceId, _) ← copyId malloc₂ msg pp
    some (sessionId, deviceId)

/-! ## Messages that the handlers stay in -/

/-- A field: its length in a byte, and its bytes. -/
def field (s : Bytes) : Bytes := UInt8.ofNat s.length :: s

/-- The bytes of `htonl(n)`. -/
def be32Bytes (n : ℕ) : Bytes :=
  [UInt8.ofNat (n / 2 ^ 24), UInt8.ofNat (n / 2 ^ 16), UInt8.ofNat (n / 2 ^ 8), UInt8.ofNat n]

/-- A request has its four fields, a count, and if that is not 0 a parameter. -/
def RequestFields (msg : Bytes) : Prop :=
  ∃ header s₁ s₂ s₃ s₄ count rest, header.length = headerSize ∧
    (∀ s ∈ [s₁, s₂, s₃, s₄], s.length < 256) ∧
    msg = header ++ (field s₁ ++ (field s₂ ++ (field s₃ ++ (field s₄ ++ count :: rest)))) ∧
    (count ≠ 0 → ∃ param more, rest = be32Bytes param.length ++ (param ++ more))

/-- A register response has a result, and behind a result of 0 a field of less
    than 128 bytes; unless there is no memory to copy it. -/
def RegisterFields (malloc : Bool) (msg : Bytes) : Prop :=
  ∃ result rest, msg.drop headerSize = result :: rest ∧
    (result = 0 → ∃ len more, rest = len :: more ∧ (malloc = true → len.toNat < 128 ∧ len.toNat ≤ more.length))

/-- A response has the session id, as far as there is memory for it, and the
    device id behind it, if there is none yet and there is memory for it. -/
def SessionFields (hasDevice malloc₁ malloc₂ : Bool) (msg : Bytes) : Prop :=
  ∃ len rest, msg.drop (headerSize + 1) = len :: rest ∧ (malloc₁ = true → len.toNat ≤ rest.length) ∧
    (hasDevice = false → ∃ len' rest', rest.drop (if malloc₁ then len.toNat else 0) = len' :: rest' ∧
      (malloc₂ = true → len'.toNat ≤ rest'.length))

variable {msg s t bytes : Bytes} {pp q n : ℕ} {b : UInt8} {malloc malloc₁ malloc₂ hasDevice pushCallback : Bool}

/-! ## Reading fields -/

theorem isSome_bind_some {α β : Type} (o : Option α) (f : α → β) : (o.bind fun x => some (f x)).isSome = o.isSome := by
  cases o <;> rfl

theorem readByte_drop (h : msg.drop pp = b :: t) : readByte msg pp = some b.toNat := by
  rw [readByte, ← List.head?_drop, h]
  rfl

theorem readByte_some (h : readByte msg pp = some n) : ∃ b t, msg.drop pp = b :: t ∧ n = b.toNat := by
  rw [readByte, ← List.head?_drop] at h
  cases hd : msg.drop pp with
  | nil =>
    rw [hd] at h
    cases h
  | cons b t =>
    rw [hd] at h
    exact ⟨b, t, rfl, (Option.some.inj h).symm⟩

theorem length_of_cons (h : msg.drop pp = b :: t) : msg.length = pp + 1 + t.length := by
  have hlen := congrArg List.length h
  rw [List.length_drop, List.length_cons] at hlen
  omega

theorem length_of_append (h : msg.drop pp = s ++ t) (hpp : pp ≤ msg.length) :
    msg.length = pp + s.length + t.length := by
  have hlen := congrArg List.length h
  rw [List.length_drop, List.length_append] at hlen
  omega

theorem drop_add (h : msg.drop pp = s ++ t) (hs : s.length = n) : msg.drop (pp + n) = t := by
  rw [← List.drop_drop, h, ← hs, List.drop_left]

theorem drop_cons (h : msg.drop pp = b :: t) : msg.drop (pp + 1) = t := drop_add (s := [b]) h rfl

theorem readBytes_drop (h : msg.drop pp = s ++ t) (hs : s.length = n) (hpp : pp ≤ msg.length) :
    readBytes msg pp n = some s := by
  have hlen := length_of_append h hpp
  rw [readBytes, if_pos (by omega), h, ← hs, List.take_left]

theorem readBytes_some (h : readBytes msg pp n = some s) :
    s.length = n ∧ msg.drop pp = s ++ msg.drop (pp + n) ∧ pp + n ≤ msg.length := by
  unfold readBytes at h
  split_ifs at h with hle
  cases h
  refine ⟨?_, ?_, hle⟩
  · rw [List.length_take, List.length_drop]
    omega
  · rw [← List.drop_drop, List.take_append_drop]

theorem skipField_field (h : msg.drop pp = field s ++ t) (hs : s.length < 256) :
    skipField msg pp = some (pp + (s.length + 1)) ∧ msg.drop (pp + (s.length + 1)) = t := by
  refine ⟨?_, drop_add h rfl⟩
  rw [skipField, readByte_drop h, Option.map_some, UInt8.toNat_ofNat', Nat.mod_eq_of_lt hs]

theorem skipField_some (h : skipField msg pp = some q) (hq : q ≤ msg.length) :
    ∃ s : Bytes, s.length < 256 ∧ msg.drop pp = field s ++ msg.drop q ∧ q = pp + (s.length + 1) := by
  obtain ⟨n, hn, rfl⟩ := Option.map_eq_some_iff.1 h
  obtain ⟨b, t, ht, rfl⟩ := readByte_some hn
  have hlen := length_of_cons ht
  have hs : (t.take b.toNat).length = b.toNat := by
    rw [List.length_take]
    omega
  have hfield : field (t.take b.toNat) = b :: t.take b.toNat := by
    rw [field, hs, UInt8.ofNat_toNat]
  have hb : b.toNat < 256 := b.toNat_lt
  have hdrop : msg.drop pp = field (t.take b.toNat) ++ t.drop b.toNat := by
    rw [hfield, ht, List.cons_append, List.take_append_drop]
  refine ⟨t.take b.toNat, by omega, ?_, by rw [hs]⟩
  rw [hdrop, drop_add hdrop (by rw [hfield, List.length_cons, hs])]

theorem skipField_lt (h : skipField msg pp = some q) : pp < msg.length := by
  obtain ⟨n, hn, -⟩ := Option.map_eq_some_iff.1 h
  obtain ⟨b, t, ht, -⟩ := readByte_some hn
  have := length_of_cons ht
  omega

theorem be32_be32Bytes (h : n < 2 ^ 32) : be32 (at_ (be32Bytes n)) 0 = n := by
  simp only [be32, at_, be32Bytes, List.getD_cons_zero, List.getD_cons_succ, UInt8.toNat_ofNat']
  omega

theorem be32Bytes_be32 (h : bytes.length = 4) : be32Bytes (be32 (at_ bytes) 0) = bytes := by
  obtain ⟨a, b, c, d, rfl⟩ := List.length_eq_four.1 h
  have ha := a.toNat_lt
  have hb := b.toNat_lt
  have hc := c.toNat_lt
  have hd := d.toNat_lt
  simp only [be32, at_, be32Bytes, List.getD_cons_zero, List.getD_cons_succ, List.cons.injEq, and_true,
    ← UInt8.toNat_inj, UInt8.toNat_ofNat']
  omega

theorem readBe32_drop (h : msg.drop pp = be32Bytes n ++ t) (hn : n < 2 ^ 32) (hpp : pp ≤ msg.length) :
    readBe32 msg pp = some n := by
  rw [readBe32, readBytes_drop h (show (be32Bytes n).length = 4 from rfl) hpp, Option.map_some,
    be32_be32Bytes hn]

theorem readBe32_some (h : readBe32 msg pp = some n) :
    msg.drop pp = be32Bytes n ++ msg.drop (pp + 4) ∧ pp + 4 ≤ msg.length := by
  obtain ⟨bytes, hb, rfl⟩ := Option.map_eq_some_iff.1 h
  obtain ⟨hlen, hdrop, hle⟩ := readBytes_some hb
  rw [be32Bytes_be32 hlen]
  exact ⟨hdrop, hle⟩

/-! ## Requests -/

theorem drop_header {header : Bytes} (h : msg = header ++ t) (hlen : header.length = n) : msg.drop n = t := by
  rw [h, ← hlen, List.drop_left]

theorem requestFields_of_some (h : (processMsgRequest true msg).isSome) : RequestFields msg := by
  obtain ⟨r, hr⟩ := Option.isSome_iff_exists.1 h
  unfold processMsgRequest at hr
  simp only [Option.bind_eq_bind, Option.bind_eq_some_iff, if_true] at hr
  obtain ⟨-, -, p1, h1, p2, h2, p3, h3, p4, h4, count, hcount, hr⟩ := hr
  obtain ⟨b, rest, hb, rfl⟩ := readByte_some hcount
  have hp4 := length_of_cons hb
  have hp3 := skipField_lt h4
  have hp2 := skipField_lt h3
  have hp1 := skipField_lt h2
  have hp0 := skipField_lt h1
  obtain ⟨s₁, hs1, hd1, -⟩ := skipField_some h1 hp1.le
  obtain ⟨s₂, hs2, hd2, -⟩ := skipField_some h2 hp2.le
  obtain ⟨s3, hs3, hd3, -⟩ := skipField_some h3 hp3.le
  obtain ⟨s4, hs4, hd4, -⟩ := skipField_some h4 (by omega)
  refine ⟨msg.take headerSize, s₁, s₂, s3, s4, b, rest, ?_, ?_, ?_, ?_⟩
  · rw [List.length_take]
    omega
  · simp [hs1, hs2, hs3, hs4]
  · rw [← hb, ← hd4, ← hd3, ← hd2, ← hd1, List.take_append_drop]
  · intro hne
    have hpos : 0 < b.toNat := Nat.pos_of_ne_zero fun h0 => hne (UInt8.toNat_inj.1 h0)
    rw [if_pos hpos] at hr
    obtain ⟨len, hlen, hr⟩ := Option.bind_eq_some_iff.1 hr
    obtain ⟨param, hparam, -⟩ := Option.bind_eq_some_iff.1 hr
    obtain ⟨hdlen, -⟩ := readBe32_some hlen
    obtain ⟨rfl, hdparam, -⟩ := readBytes_some hparam
    exact ⟨param, msg.drop (p4 + 5 + param.length), by rw [← drop_cons hb, hdlen, ← hdparam]⟩

theorem read_param {param more : Bytes} (hlen : msg.length < 2 ^ 31)
    (h : msg.drop pp = b :: (be32Bytes param.length ++ (param ++ more))) :
    readBe32 msg (pp + 1) = some param.length ∧ readBytes msg (pp + 5) param.length = some param := by
  have hsize : (be32Bytes param.length).length = 4 := rfl
  have hlens := length_of_cons h
  rw [List.length_append, List.length_append, hsize] at hlens
  have hlength := drop_cons h
  have hdata : msg.drop (pp + 1 + 4) = param ++ more := drop_add hlength hsize
  exact ⟨readBe32_drop hlength (by omega) (by omega), readBytes_drop hdata rfl (by omega)⟩

/-- **A request with its fields** is read, and the parameter is the first one. -/
theorem processMsgRequest_fields {header s₁ s₂ s3 s4 rest : Bytes} {count : UInt8} (hlen : msg.length < 2 ^ 31)
    (hheader : header.length = headerSize) (hs : ∀ s ∈ [s₁, s₂, s3, s4], s.length < 256)
    (hmsg : msg = header ++ (field s₁ ++ (field s₂ ++ (field s3 ++ (field s4 ++ count :: rest))))) :
    (count = 0 → processMsgRequest true msg = some none) ∧
    (∀ param more, count ≠ 0 → rest = be32Bytes param.length ++ (param ++ more) →
      processMsgRequest true msg = some (some param)) := by
  have hid : readBytes msg 9 4 = some ((msg.drop 9).take 4) := by
    rw [readBytes, if_pos]
    rw [hmsg, List.length_append, hheader, headerSize]
    omega
  have hd0 := drop_header hmsg hheader
  obtain ⟨h1, hd1⟩ := skipField_field hd0 (hs s₁ (by simp))
  obtain ⟨h2, hd2⟩ := skipField_field hd1 (hs s₂ (by simp))
  obtain ⟨h3, hd3⟩ := skipField_field hd2 (hs s3 (by simp))
  obtain ⟨h4, hd4⟩ := skipField_field hd3 (hs s4 (by simp))
  have hcount := readByte_drop hd4
  simp only [processMsgRequest, Option.bind_eq_bind, hid, Option.bind_some, if_true, h1, h2, h3, h4, hcount]
  constructor
  · rintro rfl
    rfl
  · intro param more hne hparam
    rw [hparam] at hd4
    have hpos : 0 < count.toNat := Nat.pos_of_ne_zero fun h0 => hne (UInt8.toNat_inj.1 h0)
    obtain ⟨hsize, hdata⟩ := read_param hlen hd4
    rw [if_pos hpos, hsize, Option.bind_some, hdata, Option.bind_some]

theorem processMsgRequest_isSome_iff (hlen : msg.length < 2 ^ 31) :
    (processMsgRequest true msg).isSome ↔ RequestFields msg := by
  constructor
  · exact requestFields_of_some
  · rintro ⟨header, s₁, s₂, s3, s4, count, rest, hheader, hs, hmsg, hparam⟩
    obtain ⟨hnone, hsome⟩ := processMsgRequest_fields hlen hheader hs hmsg
    by_cases h0 : count = 0
    · rw [hnone h0]
      rfl
    · obtain ⟨param, more, hrest⟩ := hparam h0
      rw [hsome param more h0 hrest]
      rfl

theorem processMsgRequest_false_isSome_iff : (processMsgRequest false msg).isSome ↔ headerSize ≤ msg.length := by
  have hid : (readBytes msg 9 4).isSome ↔ headerSize ≤ msg.length := by
    unfold readBytes
    split_ifs with h
    · exact iff_of_true rfl h
    · exact iff_of_false (by simp) h
  rw [← hid]
  exact Bool.eq_iff_iff.1 (isSome_bind_some _ _)

theorem headerSize_le_of_requestFields (h : RequestFields msg) : headerSize ≤ msg.length := by
  obtain ⟨header, s₁, s₂, s3, s4, count, rest, hheader, -, rfl, -⟩ := h
  rw [List.length_append, hheader]
  omega

/-! ## Responses -/

theorem copyField_isSome_iff {size : ℕ} :
    (copyField msg size pp n).isSome ↔ n ≤ size ∧ pp + n ≤ msg.length := by
  unfold copyField readBytes
  split_ifs with h1 h2 <;> simp [*]

theorem toSize_small (h : n < 2 ^ 32) : toSize n = n := by
  unfold toSize
  omega

theorem toSize_succ (h : n + 1 < 2 ^ 32) : toSize (n + 1) = n + 1 := by
  unfold toSize
  omega

theorem le_toSize (h : 128 ≤ n) (h' : n < 256) : 2 ^ 31 ≤ toSize ((n : ℤ) - 256) := by
  unfold toSize
  omega

theorem copy_deviceId_iff {len : UInt8} {more : Bytes} (hlen : msg.length < 2 ^ 31)
    (h : msg.drop (headerSize + 1) = len :: more) :
    let l : ℤ := if len.toNat < 128 then len.toNat else len.toNat - 256
    (if l ≠ 0 ∧ malloc = true then
        (copyField msg (toSize (l + 1)) (headerSize + 2) (toSize l)).bind fun id => some (some id)
      else some none).isSome ↔
      (malloc = true → len.toNat < 128 ∧ len.toNat ≤ more.length) := by
  intro l
  have hlt := len.toNat_lt
  have hmore := length_of_cons h
  cases malloc with
  | false => simp
  | true =>
    by_cases h128 : len.toNat < 128
    · have hl : l = len.toNat := if_pos h128
      clear_value l
      have hsize : toSize l = len.toNat := by
        rw [hl, toSize_small (by omega)]
      have hsize' : toSize (l + 1) = len.toNat + 1 := by
        rw [hl, toSize_succ (by omega)]
      by_cases h0 : l = 0
      · rw [if_neg fun h => h.1 h0]
        refine iff_of_true rfl fun _ => ?_
        omega
      · rw [if_pos ⟨h0, rfl⟩, isSome_bind_some, copyField_isSome_iff, hsize, hsize']
        simp only [forall_const]
        omega
    · have hl : l = len.toNat - 256 := if_neg h128
      clear_value l
      have hbig : 2 ^ 31 ≤ toSize l := by
        rw [hl]
        exact le_toSize (by omega) hlt
      have hneg : l ≠ 0 := by
        rw [hl]
        omega
      rw [if_pos ⟨hneg, rfl⟩, isSome_bind_some, copyField_isSome_iff]
      constructor
      · rintro ⟨-, hle'⟩
        omega
      · intro h'
        exact absurd (h' rfl).1 h128

theorem processRegisterResponse_isSome_iff (hlen : msg.length < 2 ^ 31) :
    (processRegisterResponse malloc msg).isSome ↔ RegisterFields malloc msg := by
  constructor
  · intro h
    obtain ⟨r, hr⟩ := Option.isSome_iff_exists.1 h
    simp only [processRegisterResponse, Option.bind_eq_bind, Option.bind_eq_some_iff] at hr
    obtain ⟨n, hn, hr⟩ := hr
    obtain ⟨result, rest, hrest, rfl⟩ := readByte_some hn
    refine ⟨result, rest, hrest, ?_⟩
    rintro rfl
    rw [if_pos (show UInt8.toNat 0 = 0 from rfl)] at hr
    obtain ⟨n, hn, hr⟩ := Option.bind_eq_some_iff.1 hr
    obtain ⟨len, more, hmore, rfl⟩ := readByte_some hn
    refine ⟨len, more, by rw [← drop_cons hrest, hmore], ?_⟩
    exact (copy_deviceId_iff hlen hmore).1 (Option.isSome_of_eq_some hr)
  · rintro ⟨result, rest, hrest, hfields⟩
    simp only [processRegisterResponse, Option.bind_eq_bind, readByte_drop hrest, Option.bind_some]
    by_cases h0 : result = 0
    · obtain ⟨len, more, rfl, hfits⟩ := hfields h0
      have hmore := drop_cons hrest
      rw [if_pos (by rw [h0]; rfl), readByte_drop hmore, Option.bind_some]
      exact (copy_deviceId_iff hlen hmore).2 hfits
    · have hne : result.toNat ≠ 0 := fun h => h0 (UInt8.toNat_inj.1 h)
      rw [if_neg hne]
      rfl

theorem copyId_drop (malloc : Bool) {len : UInt8} {rest : Bytes} (h : msg.drop pp = len :: rest) :
    ((copyId malloc msg pp).isSome ↔ (malloc = true → len.toNat ≤ rest.length)) ∧
    (∀ id q, copyId malloc msg pp = some (id, q) → q = pp + 1 + if malloc then len.toNat else 0) := by
  have hlens := length_of_cons h
  simp only [copyId, Option.bind_eq_bind, readByte_drop h, Option.bind_some]
  split_ifs with hc hm hm
  · constructor
    · rw [isSome_bind_some, copyField_isSome_iff]
      simp only [hc.2, forall_const]
      omega
    · intro id q hq
      obtain ⟨bytes, -, hq⟩ := Option.bind_eq_some_iff.1 hq
      cases hq
      rfl
  · exact absurd hc.2 hm
  · have h0 : len.toNat = 0 := by
      by_contra hne
      exact hc ⟨Nat.pos_of_ne_zero hne, hm⟩
    constructor
    · refine iff_of_true rfl fun _ => ?_
      omega
    · intro id q hq
      cases hq
      rw [h0]
  · constructor
    · exact iff_of_true rfl fun h => absurd h hm
    · intro id q hq
      cases hq
      rfl

theorem copyId_some {id : Option Bytes} (h : copyId malloc msg pp = some (id, q)) :
    ∃ len rest, msg.drop pp = len :: rest := by
  obtain ⟨n, hn, -⟩ := Option.bind_eq_some_iff.1 h
  obtain ⟨len, rest, hrest, -⟩ := readByte_some hn
  exact ⟨len, rest, hrest⟩

theorem copySession_isSome_iff :
    (copySession hasDevice malloc₁ malloc₂ msg).isSome ↔ SessionFields hasDevice malloc₁ malloc₂ msg := by
  constructor
  · intro h
    obtain ⟨r, hr⟩ := Option.isSome_iff_exists.1 h
    obtain ⟨⟨sessionId, pp⟩, hsession, hr⟩ := Option.bind_eq_some_iff.1 hr
    obtain ⟨len, rest, hlen⟩ := copyId_some hsession
    obtain ⟨hsome, hpp⟩ := copyId_drop malloc₁ hlen
    refine ⟨len, rest, hlen, hsome.1 (Option.isSome_of_eq_some hsession), ?_⟩
    rintro rfl
    obtain ⟨⟨deviceId, q⟩, hdevice, -⟩ := Option.bind_eq_some_iff.1 hr
    obtain ⟨len', rest', hlen'⟩ := copyId_some hdevice
    have hrest := drop_cons hlen
    refine ⟨len', rest', ?_, (copyId_drop malloc₂ hlen').1.1 (Option.isSome_of_eq_some hdevice)⟩
    rw [← hrest, List.drop_drop, ← hpp _ _ hsession, hlen']
  · rintro ⟨len, rest, hlen, hid, hdevice⟩
    obtain ⟨hsome, hpp⟩ := copyId_drop malloc₁ hlen
    obtain ⟨⟨sessionId, pp⟩, hsession⟩ := Option.isSome_iff_exists.1 (hsome.2 hid)
    have hrest := drop_cons hlen
    simp only [copySession, Option.bind_eq_bind, hsession, Option.bind_some]
    cases hasDevice with
    | true => rfl
    | false =>
      obtain ⟨len', rest', hlen', hfits⟩ := hdevice rfl
      rw [← hrest, List.drop_drop, ← hpp _ _ hsession] at hlen'
      obtain ⟨⟨deviceId, q⟩, hdevice⟩ := Option.isSome_iff_exists.1 ((copyId_drop malloc₂ hlen').1.2 hfits)
      simp only [hdevice, Option.bind_some, Bool.false_eq_true, if_false]
      rfl

/-! ## Messages of any bytes -/

/-- **The handlers stay inside the message** exactly when its fields do: nothing is
    checked, so nothing is rejected. -/
theorem handlers_inside_iff (msg : WsfMsg) (pushCallback hasDevice malloc malloc₁ malloc₂ : Bool) :
    ((processMsgRequest pushCallback msg.bytes).isSome ↔
      headerSize ≤ msg.bytes.length ∧ (pushCallback = true → RequestFields msg.bytes)) ∧
    ((processRegisterResponse malloc msg.bytes).isSome ↔ RegisterFields malloc msg.bytes) ∧
    ((copySession hasDevice malloc₁ malloc₂ msg.bytes).isSome ↔ SessionFields hasDevice malloc₁ malloc₂ msg.bytes) := by
  refine ⟨?_, processRegisterResponse_isSome_iff msg.length_lt, copySession_isSome_iff⟩
  cases pushCallback with
  | true =>
    rw [processMsgRequest_isSome_iff msg.length_lt]
    constructor
    · intro h
      exact ⟨headerSize_le_of_requestFields h, fun _ => h⟩
    · rintro ⟨-, h⟩
      exact h rfl
  | false =>
    rw [processMsgRequest_false_isSome_iff]
    simp

/-- A request of fourteen bytes that is complete, and whose service name of five
    bytes would stand behind it. -/
theorem processMsgRequest_leaves :
    ∃ msg : WsfMsg, wsfMsgAccept (at_ msg.bytes) msg.bytes.length = true ∧
      wsfMsgComplete (at_ msg.bytes) msg.bytes.length = true ∧ be32 (at_ msg.bytes) 4 = msg.bytes.length ∧
      processMsgRequest true msg.bytes = none :=
  ⟨⟨[0x57, 0x53, 0x46, 0x31, 0, 0, 0, 14, 0x10, 0, 0, 0, 1, 5], by decide⟩, by decide, by decide, by decide, by decide⟩

end Wsf
