/-
  `wsf_msg_request_create` of `wsf_msg.c`, and the walk through its payload.

  `msgSize` is the pass that counts, `putRequest` the one that writes.  The walk
  reads the fields the way `__process_msg_request` steps over them, and then every
  parameter.
-/
import AliOS.Wsf.Handlers

namespace Wsf

/-! ## The source functions -/

/-- What a request is made of: the strings, of which two may be null, and the data
    of the nodes of `param_list`. -/
structure RequestArgs where
  servcieName : Bytes
  sessionId : Option Bytes
  deviceId : Option Bytes
  paramList : List Bytes

/-- `strlen` of a string, and 0 for the null pointer. -/
def strlen (s : Option Bytes) : ℕ := (s.getD []).length

/-- The sum over the nodes of `param_list`. -/
def paramsSize : List Bytes → ℕ
  | [] => 0
  | data :: params => 4 + data.length + paramsSize params

/-- The bytes that are counted. -/
def countedSize (args : RequestArgs) : ℕ :=
  headerSize + 1 + args.servcieName.length + 1 + strlen args.sessionId + 1 + strlen args.deviceId + 1 + 1 +
    paramsSize args.paramList

def msgSize (args : RequestArgs) : ℕ := countedSize args % 2 ^ 32

/-- The four bytes of a `uint32_t` as the host has them. -/
def host32Bytes (n : ℕ) : Bytes :=
  [UInt8.ofNat n, UInt8.ofNat (n / 2 ^ 8), UInt8.ofNat (n / 2 ^ 16), UInt8.ofNat (n / 2 ^ 24)]

/-- `set_msg_type_version`. -/
def msgTypeVersion (type version : ℕ) : UInt8 := UInt8.ofNat (type % 16) ||| UInt8.ofNat (version % 16 * 16)

/-- The header of a request. -/
def putHeader (size version id : ℕ) : Bytes :=
  [0x57, 0x53, 0x46, 0x31] ++ (host32Bytes size ++ (msgTypeVersion 0 version :: host32Bytes id))

/-- A string and its length in a byte; the byte alone for the null pointer. -/
def putString (s : Option Bytes) : Bytes :=
  match s with
  | some s => UInt8.ofNat s.length :: s
  | none => [0]

/-- The parameters, each behind its length. -/
def putParams : List Bytes → Bytes
  | [] => []
  | data :: params => be32Bytes data.length ++ (data ++ putParams params)

/-- All that is written to the request. -/
def putRequest (version id : ℕ) (args : RequestArgs) : Bytes :=
  putHeader (msgSize args) version id ++ (putString (some args.servcieName) ++ (putString args.sessionId ++
    (putString args.deviceId ++ (0 :: UInt8.ofNat args.paramList.length :: putParams args.paramList))))

/-- A request: the size that was allocated, and the bytes written there. -/
structure WsfRequest where
  allocated : ℕ
  written : Bytes

/-- `wsf_msg_request_create`; `malloc` says whether there is memory. -/
def wsfMsgRequestCreate (malloc : Bool) (version id : ℕ) (args : RequestArgs) : Option WsfRequest :=
  if malloc then some ⟨msgSize args, putRequest version id args⟩ else none

/-! ## The walk -/

/-- The field at `pp`, and the place behind it. -/
def readField (msg : Bytes) (pp : ℕ) : Option (Bytes × ℕ) := do
  let len ← readByte msg pp
  let s ← readBytes msg (pp + 1) len
  some (s, pp + (len + 1))

/-- `n` parameters at `pp`. -/
def readParams (msg : Bytes) : ℕ → ℕ → Option (List Bytes)
  | 0, _ => some []
  | n + 1, pp => do
    let len ← readBe32 msg pp
    let data ← readBytes msg (pp + 4) len
    let params ← readParams msg n (pp + 4 + len)
    some (data :: params)

/-- What the walk finds. -/
structure RequestRead where
  servcieName : Bytes
  sessionId : Bytes
  deviceId : Bytes
  paramCount : ℕ
  params : List Bytes
  deriving DecidableEq

def walkRequest (msg : Bytes) : Option RequestRead := do
  let (servcieName, pp) ← readField msg headerSize
  let (sessionId, pp) ← readField msg pp
  let (deviceId, pp) ← readField msg pp
  let (_, pp) ← readField msg pp
  let paramCount ← readByte msg pp
  let params ← readParams msg paramCount (pp + 1)
  some ⟨servcieName, sessionId, deviceId, paramCount, params⟩

/-- What it should find. -/
def RequestArgs.given (args : RequestArgs) : RequestRead :=
  ⟨args.servcieName, args.sessionId.getD [], args.deviceId.getD [], args.paramList.length, args.paramList⟩

/-- The lengths and the count fit their bytes. -/
def Fits (args : RequestArgs) : Prop :=
  args.servcieName.length < 256 ∧ strlen args.sessionId < 256 ∧ strlen args.deviceId < 256 ∧
    args.paramList.length < 256

/-- A request encodes what it was given, in as many bytes as were allocated and as
    its header says. -/
def Encodes (args : RequestArgs) (req : WsfRequest) : Prop :=
  walkRequest req.written = some args.given ∧ req.written.length = req.allocated ∧
    host32 (at_ req.written) 4 = req.written.length

variable {msg s t : Bytes} {pp q n version id : ℕ} {args : RequestArgs} {params : List Bytes}

/-! ## The two passes -/

theorem putString_eq (s : Option Bytes) : putString s = field (s.getD []) := by
  cases s <;> rfl

@[simp] theorem length_putString (s : Option Bytes) : (putString s).length = strlen s + 1 := by
  rw [putString_eq]
  rfl

@[simp] theorem length_putHeader (size : ℕ) : (putHeader size version id).length = headerSize := rfl

@[simp] theorem length_putParams (params : List Bytes) : (putParams params).length = paramsSize params := by
  induction params with
  | nil => rfl
  | cons data params ih =>
    simp only [putParams, paramsSize, List.length_append, ih, be32Bytes, List.length_cons, List.length_nil]
    omega

theorem length_putRequest : (putRequest version id args).length = countedSize args := by
  have hname : strlen (some args.servcieName) = args.servcieName.length := rfl
  simp only [putRequest, countedSize, List.length_append, length_putHeader, length_putString, List.length_cons,
    length_putParams, hname]
  omega

theorem host32_putRequest : host32 (at_ (putRequest version id args)) 4 = msgSize args := by
  have hlt : msgSize args < 2 ^ 32 := Nat.mod_lt _ (by decide)
  simp only [host32, at_, putRequest, putHeader, host32Bytes, List.cons_append, List.nil_append, List.getD_cons_succ,
    List.getD_cons_zero, UInt8.toNat_ofNat']
  omega

/-! ## Walking through what was written -/

theorem readField_field (h : msg.drop pp = field s ++ t) (hs : s.length < 256) :
    readField msg pp = some (s, pp + (s.length + 1)) ∧ msg.drop (pp + (s.length + 1)) = t := by
  refine ⟨?_, drop_add h rfl⟩
  have hlen : (UInt8.ofNat s.length).toNat = s.length := by
    rw [UInt8.toNat_ofNat', Nat.mod_eq_of_lt hs]
  have hlens := length_of_cons h
  rw [readField, readByte_drop h, hlen]
  simp only [Option.bind_eq_bind, Option.bind_some, readBytes_drop (drop_cons h) rfl (by omega)]

theorem readParams_putParams (h : msg.drop pp = putParams params ++ t) (hpp : pp ≤ msg.length)
    (hlt : ∀ data ∈ params, data.length < 2 ^ 32) : readParams msg params.length pp = some params := by
  induction params generalizing pp with
  | nil => rfl
  | cons data params ih =>
    rw [putParams, List.append_assoc, List.append_assoc] at h
    have hlens := length_of_append h hpp
    rw [List.length_append, show (be32Bytes data.length).length = 4 from rfl] at hlens
    have hdata : msg.drop (pp + 4) = data ++ (putParams params ++ t) := drop_add h rfl
    have hrest : msg.drop (pp + 4 + data.length) = putParams params ++ t := drop_add hdata rfl
    have hread : readBytes msg (pp + 4) data.length = some data := readBytes_drop hdata rfl (by omega)
    have ih := ih hrest (by omega) fun data' h' => hlt data' (List.mem_cons_of_mem _ h')
    simp only [List.length_cons, readParams, Option.bind_eq_bind, readBe32_drop h (hlt data List.mem_cons_self) hpp,
      Option.bind_some, hread, ih]

theorem length_le_paramsSize {data : Bytes} (h : data ∈ params) : data.length ≤ paramsSize params := by
  induction params with
  | nil => cases h
  | cons data' params ih =>
    rw [paramsSize]
    rcases List.mem_cons.1 h with rfl | h
    · omega
    · have := ih h
      omega

theorem walkRequest_putRequest (h : Fits args) (hlt : countedSize args < 2 ^ 32) :
    walkRequest (putRequest version id args) = some args.given := by
  obtain ⟨hname, hsession, hdevice, hcount⟩ := h
  have hparams : ∀ data ∈ args.paramList, data.length < 2 ^ 32 := by
    intro data hdata
    have := length_le_paramsSize hdata
    unfold countedSize at hlt
    omega
  have hd0 : (putRequest version id args).drop headerSize = _ := drop_header rfl (length_putHeader _)
  rw [putString_eq, putString_eq, putString_eq] at hd0
  obtain ⟨h1, hd1⟩ := readField_field hd0 hname
  obtain ⟨h2, hd2⟩ := readField_field hd1 hsession
  obtain ⟨h3, hd3⟩ := readField_field hd2 hdevice
  obtain ⟨h4, hd4⟩ := readField_field (s := []) hd3 (by decide)
  have hread := readByte_drop hd4
  rw [UInt8.toNat_ofNat', Nat.mod_eq_of_lt hcount] at hread
  have hlen := length_of_cons hd4
  have hd5 := drop_cons hd4
  rw [← List.append_nil (putParams _)] at hd5
  have hwalk := readParams_putParams hd5 (by omega) hparams
  simp only [walkRequest, Option.bind_eq_bind, h1, h2, h3, h4, hread, Option.bind_some, hwalk]
  rfl

/-! ## Requests of any inputs -/

theorem readField_lt (h : readField msg pp = some (s, q)) : s.length < 256 := by
  obtain ⟨len, hlen, h⟩ := Option.bind_eq_some_iff.1 h
  obtain ⟨s', hs, h⟩ := Option.bind_eq_some_iff.1 h
  cases h
  obtain ⟨b, t, -, rfl⟩ := readByte_some hlen
  rw [(readBytes_some hs).1]
  exact b.toNat_lt

theorem fits_of_walkRequest (h : walkRequest msg = some args.given) : Fits args := by
  obtain ⟨⟨name, p1⟩, h1, h⟩ := Option.bind_eq_some_iff.1 h
  obtain ⟨⟨session, p2⟩, h2, h⟩ := Option.bind_eq_some_iff.1 h
  obtain ⟨⟨device, p3⟩, h3, h⟩ := Option.bind_eq_some_iff.1 h
  obtain ⟨⟨secret, p4⟩, -, h⟩ := Option.bind_eq_some_iff.1 h
  obtain ⟨count, hcount, h⟩ := Option.bind_eq_some_iff.1 h
  obtain ⟨params, -, h⟩ := Option.bind_eq_some_iff.1 h
  obtain ⟨b, t, -, rfl⟩ := readByte_some hcount
  have hgiven := Option.some.inj h
  rw [RequestArgs.given, RequestRead.mk.injEq] at hgiven
  obtain ⟨rfl, hsession, hdevice, hparams, -⟩ := hgiven
  refine ⟨readField_lt h1, ?_, ?_, ?_⟩
  · rw [strlen, ← hsession]
    exact readField_lt h2
  · rw [strlen, ← hdevice]
    exact readField_lt h3
  · rw [← hparams]
    exact b.toNat_lt

/-- **Requests encode what they are given**, and other inputs are refused, exactly
    when the inputs fit (or there is no memory): nothing else is refused. -/
theorem request_exact_iff (malloc : Bool) (version id : ℕ) (args : RequestArgs) :
    ((∀ req, wsfMsgRequestCreate malloc version id args = some req → Encodes args req) ∧
      (¬ Fits args → wsfMsgRequestCreate malloc version id args = none)) ↔
    (malloc = true → Fits args ∧ countedSize args < 2 ^ 32) := by
  cases malloc with
  | false => simp [wsfMsgRequestCreate]
  | true =>
    simp only [wsfMsgRequestCreate, if_true, Option.some.injEq, forall_eq', forall_const]
    constructor
    · rintro ⟨⟨hwalk, hsize, -⟩, -⟩
      refine ⟨fits_of_walkRequest hwalk, ?_⟩
      rw [length_putRequest] at hsize
      rw [hsize]
      exact Nat.mod_lt _ (by decide)
    · rintro ⟨hfits, hlt⟩
      have hsize : countedSize args = msgSize args := (Nat.mod_eq_of_lt hlt).symm
      refine ⟨⟨walkRequest_putRequest hfits hlt, ?_, ?_⟩, fun h => absurd hfits h⟩
      · rw [length_putRequest, hsize]
      · rw [host32_putRequest, length_putRequest, hsize]

/-- A service name of 256 bytes is not refused, and the walk does not give it back. -/
theorem request_loses_name :
    ∃ args req, wsfMsgRequestCreate true 1 0 args = some req ∧ ¬ Fits args ∧
      walkRequest req.written ≠ some args.given := by
  have hname : ¬ Fits ⟨List.replicate 256 97, none, none, []⟩ := by
    rintro ⟨h, -⟩
    rw [List.length_replicate] at h
    exact absurd h (by decide)
  exact ⟨_, _, rfl, hname, fun h => hname (fits_of_walkRequest h)⟩

end Wsf
