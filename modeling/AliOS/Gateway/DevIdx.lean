/-
  The indices of the gateway's devices, over whole runs of the calls.

  A bit of `devidx_bit_map` is set exactly if one device has the index, so a new device gets
  one as long as one is left.
-/
import AliOS.Gateway.DevRefs
import AliOS.Lib.Trans
import Mathlib.Data.Set.Card

namespace Gateway

open Devmgr

variable {m m' : Devmgr} {n n' : ℕ → ℕ} {p p' : ℕ → Prop} {d e i j : ℕ} {x : DevInfo} {f : DevInfo → DevInfo}

/-! ## The calls -/

/-- `devmgr_delete_device`, and `devmgr_leave_zigbee_device` on the string of the address; each
    returns `SERVICE_RESULT_OK`. -/
def Devmgr.deleteDevice (m : Devmgr) (devid : Str) (c : Cloud) : Devmgr :=
  let (m, d) := m.getUnknownDevinfo devid
  let m := match d with
    | none => m
    | some d => (m.deleteDevinfo d).putDevinfoRef d
  let (m, d) := m.getDevinfo devid
  match d with
  | none => m
  | some d => ((m.networkLeave d c).deleteDevinfo d).putDevinfoRef d

def Devmgr.leaveZigbeeDevice (m : Devmgr) (ieeeAddr : List UInt8) (c : Cloud) : Devmgr :=
  m.deleteDevice (ieeeaddrString ieeeAddr) c

def Devmgr.authoriseDevice (m : Devmgr) (devid : Str) (c : Cloud) : Devmgr × ℤ :=
  match m.getDevinfo devid with
  | (m, some d) => (m.putDevinfoRef d, 0)
  | (m, none) =>
    match m.getUnknownDevinfo devid with
    | (m, none) => (m, -1)
    | (m, some d) =>
      let (m, ret) := (m.edit d DevInfo.authorise).networkUp d c
      if ret ≠ 0 then ((m.deleteDevinfo d).putDevinfoRef d, -1)
      else
        let (m, ret) := m.newDevidx d
        if ret < 0 then ((m.deleteDevinfo d).putDevinfoRef d, -1)
        else ((m.moveToDevHead d).putDevinfoRef d, 0)

def Devmgr.addAuthoriseDevice (m : Devmgr) (devid : Str) (modelId : UInt32) (devType : DevType)
    (malloc : Option ℕ) : Devmgr × ℤ :=
  match m.getDevinfo devid with
  | (m, some d) => (m.putDevinfoRef d, -1)
  | (m, none) =>
    match m.newDevinfo malloc with
    | (m, none) => (m, -1)
    | (m, some d) =>
      let m := m.edit d fun x =>
        { x with base := { x.base with devType := devType, modelId := modelId }, cloudState := .authorised }
      let (m, ret) := m.newDevidx d
      if ret ≠ 0 then (m.freeDevinfo d, -1) else (m.addTail d true, ret)

def Devmgr.joinZigbeeDevice (m : Devmgr) (j : Join) (malloc : Option ℕ) (c : Cloud) : Devmgr × ℤ :=
  if j.refused then (m, -1)
  else
    match m.getDevinfoByIeeeaddr j.ieeeAddr with
    | (m, some d) =>
      let (m, ret) := (m.edit d (DevInfo.rejoin j)).networkUp d c
      (m.putDevinfoRef d, ret)
    | (m, none) =>
      match m.newDevinfo malloc with
      | (m, none) => (m, -1)
      | (m, some d) =>
        let m := m.edit d (DevInfo.join j)
        if j.permitted then
          let (m, ret) := m.newDevidx d
          if ret < 0 then (m.putDevinfoRef d, ret)
          else
            let (m, ret) := (m.edit d DevInfo.authorise).networkUp d c
            if ret ≠ 0 then
              let m := m.releaseDevidx (((m.heap d).map (·.deviceIdx)).getD NO_DEVIDX).toNat
              (m.putDevinfoRef d, ret)
            else (m.addTail d true, 0)
        else (m.addTail d false, 0)

def Devmgr.freeUnknownDevlist (m : Devmgr) : Devmgr := m.unknownDevHead.foldl Devmgr.removeDevinfo m

def Devmgr.deleteAuthoriseDevlist (m : Devmgr) : Devmgr := m.devHead.foldl Devmgr.deleteDevinfo m

def Devmgr.resetAllDevice (m : Devmgr) : Devmgr := m.freeUnknownDevlist.deleteAuthoriseDevlist

/-- A call, with what `os_malloc` gives and what the cloud answers. -/
inductive DevCall
  | join (j : Join) (malloc : Option ℕ) (c : Cloud)
  | authorise (devid : Str) (c : Cloud)
  | addAuthorise (devid : Str) (modelId : UInt32) (devType : DevType) (malloc : Option ℕ)
  | delete (devid : Str) (c : Cloud)
  | leave (ieeeAddr : List UInt8) (c : Cloud)
  | resetAll
  | freeUnknown

def Devmgr.call (m : Devmgr) : DevCall → Devmgr
  | .join j malloc c => (m.joinZigbeeDevice j malloc c).1
  | .authorise devid c => (m.authoriseDevice devid c).1
  | .addAuthorise devid modelId devType malloc => (m.addAuthoriseDevice devid modelId devType malloc).1
  | .delete devid c => m.deleteDevice devid c
  | .leave ieeeAddr c => m.leaveZigbeeDevice ieeeAddr c
  | .resetAll => m.resetAllDevice
  | .freeUnknown => m.freeUnknownDevlist

/-! ## The bit map -/

/-- The index that a device has. -/
def Devmgr.index (m : Devmgr) (d : ℕ) : Option ℕ :=
  (m.heap d).bind fun x => if x.deviceIdx = NO_DEVIDX then none else some x.deviceIdx.toNat

/-- The devices that have an index. -/
def Devmgr.holders (m : Devmgr) : Set ℕ := {d | m.index d ≠ none}

theorem and_shift_ne_zero {b : BitVec 8} {k : ℕ} (hk : k < 8) :
    b &&& (0x01#8 <<< k) ≠ 0#8 ↔ b.getLsbD k = true := by
  constructor
  · intro h
    by_contra hno
    refine h (BitVec.eq_of_getLsbD_eq fun i hi => ?_)
    by_cases hik : i = k
    · subst hik
      simp [hno]
    · simp only [BitVec.getLsbD_and, BitVec.getLsbD_shiftLeft, BitVec.getLsbD_one, BitVec.getLsbD_zero]
      have : i < k ∨ i - k ≠ 0 := by omega
      rcases this with h | h <;> simp [h]
  · intro h hzero
    have hk' := congrArg (·.getLsbD k) hzero
    simp only [BitVec.getLsbD_and, BitVec.getLsbD_shiftLeft, BitVec.getLsbD_one, BitVec.getLsbD_zero, h] at hk'
    simp [hk] at hk'

theorem bit_eq : m.bit i = (m.devidxBitMap (i / 8)).getLsbD (i % 8) := by
  rw [Bool.eq_iff_iff, bit, decide_eq_true_eq]
  exact and_shift_ne_zero (Nat.mod_lt _ (by decide))

theorem bit_set :
    ({ m with
        devidxBitMap := Function.update m.devidxBitMap (i / 8)
          (m.devidxBitMap (i / 8) ||| (0x01#8 <<< (i % 8))) } : Devmgr).bit j = (m.bit j || decide (j = i)) := by
  rw [bit_eq, bit_eq]
  have hi := Nat.mod_lt i (show 0 < 8 by decide)
  by_cases hd : j / 8 = i / 8
  · rw [hd]
    simp only [Function.update_self, BitVec.getLsbD_or, BitVec.getLsbD_shiftLeft, BitVec.getLsbD_one]
    congr 1
    rw [Bool.eq_iff_iff]
    simp only [Bool.and_eq_true, Bool.not_eq_true', decide_eq_true_eq, decide_eq_false_iff_not]
    omega
  · simp only [Function.update_of_ne hd]
    rw [decide_eq_false (by rintro rfl; exact hd rfl), Bool.or_false]

theorem bit_clear :
    ({ m with
        devidxBitMap := Function.update m.devidxBitMap (i / 8)
          (m.devidxBitMap (i / 8) &&& ~~~(0x01#8 <<< (i % 8))) } : Devmgr).bit j = (m.bit j && !decide (j = i)) := by
  rw [bit_eq, bit_eq]
  have hi := Nat.mod_lt i (show 0 < 8 by decide)
  have hj := Nat.mod_lt j (show 0 < 8 by decide)
  by_cases hd : j / 8 = i / 8
  · rw [hd]
    simp only [Function.update_self, BitVec.getLsbD_and, BitVec.getLsbD_not, BitVec.getLsbD_shiftLeft,
      BitVec.getLsbD_one]
    congr 1
    rw [Bool.eq_iff_iff]
    simp only [Bool.and_eq_true, Bool.not_eq_true', Bool.not_eq_false', Bool.and_eq_false_iff, decide_eq_true_eq,
      decide_eq_false_iff_not]
    omega
  · simp only [Function.update_of_ne hd]
    rw [decide_eq_false (by rintro rfl; exact hd rfl), Bool.not_false, Bool.and_true]

theorem bit_releaseDevidx : (m.releaseDevidx i).bit j = (m.bit j && !decide (j = i)) := by
  rw [releaseDevidx]
  split_ifs with h
  · exact bit_clear
  · by_cases hj : j = i
    · subst hj
      simp [h]
    · simp [hj]

/-! ## Indices -/

/-- The bits are those of the indices that the devices have, each of one device. -/
structure Indexed (m : Devmgr) : Prop where
  bits : ∀ i, m.bit i = true ↔ ∃ d, m.index d = some i
  unique : ∀ {d e i}, m.index d = some i → m.index e = some i → d = e

theorem Indexed.congr (h : Indexed m) (hb : ∀ i, m'.bit i = m.bit i) (hi : ∀ d, m'.index d = m.index d) :
    Indexed m' := by
  refine ⟨fun i => ?_, fun hd he => h.unique (hi _ ▸ hd) (hi _ ▸ he)⟩
  rw [hb, h.bits i]
  simp only [hi]

theorem Indexed.release (h : Indexed m) (hb : ∀ i, m'.bit i = (m.bit i && !decide (m.index d = some i)))
    (hi : ∀ e, m'.index e = if e = d then none else m.index e) : Indexed m' := by
  have hsome : ∀ {e i}, m'.index e = some i ↔ e ≠ d ∧ m.index e = some i := by
    intro e i
    rw [hi]
    by_cases he : e = d
    · simp [he]
    · simp [he]
  refine ⟨fun i => ?_, fun hd he => h.unique (hsome.1 hd).2 (hsome.1 he).2⟩
  rw [hb, Bool.and_eq_true, h.bits i, Bool.not_eq_true', decide_eq_false_iff_not]
  constructor
  · rintro ⟨⟨e, he⟩, hd⟩
    exact ⟨e, hsome.2 ⟨fun hed => hd (hed ▸ he), he⟩⟩
  · rintro ⟨e, he⟩
    obtain ⟨hne, he⟩ := hsome.1 he
    exact ⟨⟨e, he⟩, fun hd => hne (h.unique he hd)⟩

theorem Indexed.take (h : Indexed m) (hclear : m.bit i = false) (hno : m.index d = none)
    (hb : ∀ j, m'.bit j = (m.bit j || decide (j = i)))
    (hi : ∀ e, m'.index e = if e = d then some i else m.index e) : Indexed m' := by
  have hfree : ∀ {e}, m.index e ≠ some i := by
    intro e he
    rw [(h.bits i).2 ⟨e, he⟩] at hclear
    exact nomatch hclear
  have hsome : ∀ {e j}, m'.index e = some j ↔ (e = d ∧ j = i) ∨ (m.index e = some j) := by
    intro e j
    rw [hi]
    by_cases he : e = d
    · subst he
      simp [hno, eq_comm]
    · simp [he]
  refine ⟨fun j => ?_, fun {e e' j} he he' => ?_⟩
  · rw [hb, Bool.or_eq_true, decide_eq_true_eq, h.bits j]
    constructor
    · rintro (⟨e, he⟩ | rfl)
      · exact ⟨e, hsome.2 (.inr he)⟩
      · exact ⟨d, hsome.2 (.inl ⟨rfl, rfl⟩)⟩
    · rintro ⟨e, he⟩
      rcases hsome.1 he with ⟨-, rfl⟩ | he
      · exact .inr rfl
      · exact .inl ⟨e, he⟩
  · rcases hsome.1 he with ⟨rfl, rfl⟩ | he
    · rcases hsome.1 he' with ⟨rfl, -⟩ | he'
      · rfl
      · exact absurd he' hfree
    · rcases hsome.1 he' with ⟨-, rfl⟩ | he'
      · exact absurd he hfree
      · exact h.unique he he'

namespace Devmgr

theorem index_edit (hf : ∀ x, (f x).deviceIdx = x.deviceIdx) : (m.edit d f).index e = m.index e := by
  by_cases he : e = d
  · subst he
    rw [index, edit_heap_map, Option.bind_map, index]
    exact congrArg (fun g => (m.heap e).bind g) (funext fun x => by rw [Function.comp_apply, hf])
  · rw [index, edit_heap_ne he, index]

theorem dropRef_map : (m.dropRef d).devidxBitMap = m.devidxBitMap := by
  rw [dropRef]
  split_ifs <;> rfl

theorem dropRef_unknown : (m.dropRef d).unknownDevHead ⊆ m.unknownDevHead := by
  rw [dropRef]
  split_ifs
  · exact List.erase_subset
  · exact List.Subset.refl _

theorem index_dropRef (h : m.index d = none) : (m.dropRef d).index e = m.index e := by
  have hedit : (m.edit d fun x => { x with refCnt := x.refCnt - 1 }).index e = m.index e := index_edit fun _ => rfl
  rw [dropRef]
  split_ifs
  · by_cases he : e = d
    · subst he
      rw [h, index, freeDevinfo]
      simp
    · rw [← hedit, index, freeDevinfo, index]
      exact congrArg (fun o => Option.bind o _) (Function.update_of_ne he ..)
  · exact hedit

theorem index_remove_self (hx : m.heap d = some x) : (m.removeDevinfo d).index e = if e = d then none else m.index e := by
  have h : ∀ m1 : Devmgr, m1.heap = (m.edit d fun x => { x with deviceIdx := NO_DEVIDX }).heap →
      m1.index e = if e = d then none else m.index e := by
    intro m1 hheap
    rw [index, hheap]
    split_ifs with he
    · rw [he, edit_heap_self hx]
      simp
    · rw [edit_heap_ne he, index]
  rw [removeDevinfo, hx]
  rw [index_dropRef]
  · exact h _ rfl
  · rw [index]
    change ((m.edit d fun x => { x with deviceIdx := NO_DEVIDX }).heap d).bind _ = none
    rw [edit_heap_self hx]
    simp

theorem removeDevinfo_map : (m.removeDevinfo d).devidxBitMap = m.devidxBitMap := by
  rw [removeDevinfo]
  split
  · rfl
  · exact dropRef_map

theorem bit_congr (h : m'.devidxBitMap = m.devidxBitMap) : m'.bit i = m.bit i := by rw [bit, h, bit]

end Devmgr

theorem Indexed.removeDevinfo (h : Indexed m) (hno : m.index d = none) : Indexed (m.removeDevinfo d) := by
  cases hx : m.heap d with
  | none =>
    rw [Devmgr.removeDevinfo, hx]
    exact h
  | some x =>
    refine h.congr (fun i => bit_congr removeDevinfo_map) fun e => ?_
    rw [index_remove_self hx]
    split_ifs with he
    · rw [he, hno]
    · rfl

theorem Indexed.deleteDevinfo (h : Indexed m) : Indexed (m.deleteDevinfo d) := by
  rw [Devmgr.deleteDevinfo]
  split
  · exact h
  · rename_i x hx
    split_ifs with hidx
    · refine h.release (d := d) (fun i => ?_) fun e => ?_
      · rw [bit_congr removeDevinfo_map, bit_releaseDevidx, index, hx]
        simp only [Option.bind_some, if_neg hidx, Option.some.injEq, @eq_comm _ i]
      · obtain ⟨b, hb⟩ := Devmgr.releaseDevidx_eq (m := m) x.deviceIdx.toNat
        rw [hb]
        exact index_remove_self (m := { m with devidxBitMap := b }) hx
    · refine h.removeDevinfo ?_
      rw [index, hx]
      simp [not_not.1 hidx]

theorem Indexed.newDevidx (h : Indexed m) (hx : m.heap d = some x) (hno : m.index d = none) :
    ((m.newDevidx d).1 = m ∧ (m.newDevidx d).2 = -1 ∧ ∀ i < DEVMGR_MAX_SUBDEVICE, m.bit i = true) ∨
      (Indexed (m.newDevidx d).1 ∧ (m.newDevidx d).2 = 0 ∧ (m.newDevidx d).1.index d ≠ none) := by
  cases hfind : (List.range DEVMGR_MAX_SUBDEVICE).find? fun index => !m.bit index with
  | none =>
    refine .inl ⟨by rw [Devmgr.newDevidx, hfind], by rw [Devmgr.newDevidx, hfind], fun i hi => ?_⟩
    simpa using List.find?_eq_none.1 hfind i (List.mem_range.2 hi)
  | some k =>
    right
    have hlt : k < DEVMGR_MAX_SUBDEVICE := List.mem_range.1 (List.mem_of_find?_eq_some hfind)
    have hclear : m.bit k = false := by simpa using List.find?_some hfind
    have hnat : (UInt8.ofNat k).toNat = k := by
      rw [UInt8.toNat_ofNat']
      exact Nat.mod_eq_of_lt (Nat.lt_trans hlt (by decide))
    have hne : UInt8.ofNat k ≠ NO_DEVIDX := by
      intro he
      rw [he] at hnat
      exact absurd (hnat ▸ hlt) (by decide)
    have hedit : ∀ (b : ℕ → BitVec 8) e,
        ({ m with devidxBitMap := b }.edit d fun x => { x with deviceIdx := .ofNat k }).index e =
          if e = d then some k else m.index e := by
      intro b e
      split_ifs with he
      · rw [index, he, edit_heap_self (m := { m with devidxBitMap := b }) hx]
        simp [hne, hnat]
      · rw [index, edit_heap_ne he, index]
    have hidx : ∀ e, (m.newDevidx d).1.index e = if e = d then some k else m.index e := by
      intro e
      rw [Devmgr.newDevidx, hfind]
      exact hedit _ e
    refine ⟨h.take hclear hno (fun j => ?_) hidx, ?_, ?_⟩
    · rw [Devmgr.newDevidx, hfind]
      exact bit_set
    · rw [Devmgr.newDevidx, hfind]
    · rw [hidx, if_pos rfl]
      rintro ⟨⟩

theorem put_listed (h : Refs m n' p) (hn : Adds n d n') (hd : d ∈ m.listed) :
    m.putDevinfoRef d = m.edit d fun x => { x with refCnt := x.refCnt - 1 } := by
  obtain ⟨x, hx⟩ := h.some_of_handle (d := d) (by rw [hn.self]; exact Nat.succ_ne_zero _)
  have hc := h.count hx
  rw [hn.self, if_pos hd] at hc
  have hsub : (x.refCnt - 1).toNat = x.refCnt.toNat - 1 :=
    UInt8.toNat_sub_of_le _ _ (by rw [UInt8.le_iff_toNat_le]; change 1 ≤ _; omega)
  have hpos : x.refCnt - 1 ≠ 0 := by
    intro hz
    rw [hz] at hsub
    change 0 = _ at hsub
    omega
  rw [putDevinfoRef, dropRef, if_neg]
  rw [edit_heap_self hx]
  simpa using hpos

theorem index_put (h : Refs m n' p) (hn : Adds n d n') (hd : d ∈ m.listed) : (m.putDevinfoRef d).index e = m.index e := by
  rw [put_listed h hn hd]
  exact index_edit fun _ => rfl

/-! ## Between the calls, and inside of one -/

/-- The state inside of a call that has `n` handles and makes the devices of `p`: the counts and
    the indices are right, and `unknown_dev_head` is empty: a device that would go there does not
    join at all. -/
structure Gw (m : Devmgr) (n : ℕ → ℕ) (p : ℕ → Prop) : Prop where
  refs : Refs m n p
  settled : ∀ {d x}, m.heap d = some x → Settled x
  indexed : Indexed m
  unknown : m.unknownDevHead = []

/-- Between two calls. -/
abbrev Idle (m : Devmgr) : Prop := Gw m (fun _ => 0) (fun _ => False)

/-- With one handle. -/
abbrev Has (m : Devmgr) (d : ℕ) : Prop := Gw m (fun j => if j = d then 1 else 0) (fun _ => False)

/-- With a new device. -/
abbrev Makes (m : Devmgr) (d : ℕ) : Prop := Gw m (fun j => if j = d then 1 else 0) (· = d)

theorem adds_one : Adds (fun _ => 0) d (fun j => if j = d then 1 else 0) := fun _ => (Nat.zero_add _).symm

theorem Gw.same (h : Gw m n p) (hr : Refs m' n' p') (hk : Kept m m') (hb : ∀ i, m'.bit i = m.bit i)
    (hi : ∀ e, m'.index e = m.index e) (hu : m'.unknownDevHead ⊆ m.unknownDevHead) : Gw m' n' p' := by
  refine ⟨hr, fun {_ _} hx => ?_, h.indexed.congr hb hi, List.subset_nil.1 (h.unknown ▸ hu)⟩
  obtain ⟨_, hx, -, hs⟩ := hk.heap hx
  exact hs (h.settled hx)

theorem Gw.touch (h : Gw m n p) (hf : Touches f) : Gw (m.edit d f) n p :=
  h.same (hf.refs h.refs) hf.kept (fun _ => rfl) (fun _ => index_edit hf.deviceIdx) (List.Subset.refl _)

/-- **Lookups**: from no handle to one on a device that is listed, or to none. -/
theorem Idle.found (h : Idle m) (found : Option ℕ) (hf : ∀ {d}, found = some d → d ∈ m.listed) :
    (found = none ∧ m.holdFound found = m) ∨
      ∃ d, found = some d ∧ d ∈ (m.holdFound found).listed ∧ Has (m.holdFound found) d := by
  cases hfound : found with
  | none => exact .inl ⟨rfl, rfl⟩
  | some d =>
    obtain ⟨x, hx⟩ := h.refs.some_of_mem (mem_lists.2 (.inl (hf hfound)))
    have hc := h.refs.count hx
    have hroom : x.refCnt ≠ 255 := by
      intro he
      rw [he, if_pos (hf hfound)] at hc
      exact absurd hc (by decide)
    refine .inr ⟨d, rfl, hf hfound, ?_⟩
    exact h.same (h.refs.hold adds_one hx hroom) (.edit (fun _ => rfl) id) (fun _ => rfl)
      (fun _ => index_edit fun _ => rfl) (List.Subset.refl _)

theorem Has.put (h : Has m d) (hi : m.index d = none ∨ d ∈ m.listed) : Idle (m.putDevinfoRef d) := by
  have hr : Refs (m.dropRef d) (fun _ => 0) fun _ => False :=
    h.refs.drop adds_one (fun hp => hp.elim) fun _ => ⟨False.elim, fun hp => hp.1⟩
  refine h.same hr .dropRef (fun i => bit_congr dropRef_map) (fun e => ?_) dropRef_unknown
  rcases hi with hno | hd
  · exact index_dropRef hno
  · exact index_put h.refs adds_one hd

theorem Makes.put (h : Makes m d) (hi : m.index d = none) : Idle (m.putDevinfoRef d) := by
  have hr : Refs (m.dropRef d) (fun _ => 0) fun _ => False :=
    h.refs.drop adds_one (fun _ => rfl) fun _ => ⟨False.elim, fun hp => hp.2 hp.1⟩
  exact h.same hr .dropRef (fun i => bit_congr dropRef_map) (fun e => index_dropRef hi) dropRef_unknown

theorem Gw.newDevidx (h : Gw m n p) (hx : m.heap d = some x) (hno : m.index d = none) :
    ((m.newDevidx d).1 = m ∧ (m.newDevidx d).2 = -1 ∧ ∀ i < DEVMGR_MAX_SUBDEVICE, m.bit i = true) ∨
      (Gw (m.newDevidx d).1 n p ∧ (m.newDevidx d).2 = 0 ∧ (m.newDevidx d).1.index d ≠ none) := by
  rcases h.indexed.newDevidx hx hno with hfull | ⟨hidx, hret, hsome⟩
  · exact .inl hfull
  · refine .inr ⟨⟨h.refs.newDevidx, fun {_ _} hy => ?_, hidx, ?_⟩, hret, hsome⟩
    · obtain ⟨_, hx, -, hs⟩ := Kept.newDevidx.heap hy
      exact hs (h.settled hx)
    · rw [Devmgr.newDevidx]
      split <;> exact h.unknown

theorem removeDevinfo_unknown : (m.removeDevinfo d).unknownDevHead ⊆ m.unknownDevHead := by
  rw [Devmgr.removeDevinfo]
  split
  · exact List.Subset.refl _
  · exact fun _ he => List.erase_subset (dropRef_unknown he)

theorem Gw.deleteDevinfo (h : Gw m n p) (hd : d ∈ m.listed) :
    Gw (m.deleteDevinfo d) n p ∧ (m.deleteDevinfo d).index d = none := by
  obtain ⟨x, hx⟩ := h.refs.some_of_mem (mem_lists.2 (.inl hd))
  obtain ⟨b, heq⟩ := deleteDevinfo_eq hx
  refine ⟨⟨h.refs.deleteDevinfo hd, fun {_ _} hy => ?_, h.indexed.deleteDevinfo, ?_⟩, ?_⟩
  · obtain ⟨_, hx, -, hs⟩ := Kept.deleteDevinfo.heap hy
    exact hs (h.settled hx)
  · rw [heq]
    exact List.subset_nil.1 (h.unknown ▸ removeDevinfo_unknown (m := { m with devidxBitMap := b }))
  · rw [heq, index_remove_self (m := { m with devidxBitMap := b }) hx, if_pos rfl]

theorem Gw.networkUp (h : Gw m n p) (c : Cloud) : ∃ f, Touches f ∧ (m.networkUp d c).1 = m.edit d f ∧
    Gw (m.networkUp d c).1 n p := by
  obtain ⟨f, hf, heq⟩ := networkUp_touches (m := m) (d := d) (fun hx => h.settled hx) c
  exact ⟨f, hf, heq, heq ▸ h.touch hf⟩

theorem Idle.newDevinfo {malloc : Option ℕ} (h : Idle m) (hm : m.newDevinfo malloc = (m', some d))
    (hf : ∀ x, (f x).refCnt = x.refCnt) (hi : ∀ x, (f x).deviceIdx = x.deviceIdx) (hs : ∀ x, Settled (f x)) :
    Makes (m'.edit d f) d ∧ (m'.edit d f).index d = none ∧ (m'.edit d f).holders = m.holders ∧
      ∃ x, (m'.edit d f).heap d = some x := by
  obtain ⟨hnone, hnew⟩ : m.heap d = none ∧ Refs m' (fun j => if j = d then 1 else 0) (· = d) :=
    h.refs.newDevinfo hm adds_one fun j => by rw [false_or]
  obtain ⟨x, hx, rfl⟩ := newDevinfo_eq hm
  have hheap : (({ m with heap := Function.update m.heap d (some x) } : Devmgr).edit d f).heap d = some (f x) :=
    edit_heap_self (Function.update_self ..)
  have hno : (({ m with heap := Function.update m.heap d (some x) } : Devmgr).edit d f).index d = none := by
    rw [index, hheap]
    simp [hi, hx]
  have hne : ∀ {e}, e ≠ d →
      (({ m with heap := Function.update m.heap d (some x) } : Devmgr).edit d f).heap e = m.heap e :=
    fun he => (edit_heap_ne he).trans (Function.update_of_ne he ..)
  have hsame : ∀ e, (({ m with heap := Function.update m.heap d (some x) } : Devmgr).edit d f).index e = m.index e := by
    intro e
    by_cases he : e = d
    · rw [he, hno, index, hnone]
      rfl
    · rw [index, hne he, index]
  refine ⟨⟨hnew.edit hf, fun {e y} hy => ?_, h.indexed.congr (fun _ => rfl) hsame, h.unknown⟩, hno, ?_, _, hheap⟩
  · by_cases he : e = d
    · rw [he, hheap] at hy
      cases hy
      exact hs x
    · exact h.settled (hne he ▸ hy)
  · ext e
    exact not_congr (by rw [hsame])

theorem Makes.addTail (h : Makes m d) :
    Idle (m.addTail d true) ∧ d ∈ (m.addTail d true).devHead ∧ (m.addTail d true).index d = m.index d := by
  obtain ⟨x, hx⟩ := h.refs.some_of_handle (d := d) (by simp)
  have heq : m.addTail d true = { m with devHead := m.devHead ++ [d] } := by
    rw [Devmgr.addTail, hx]
    rfl
  have hr : Refs (m.addTail d true) (fun _ => 0) fun _ => False :=
    h.refs.addTail adds_one rfl fun j => ⟨False.elim, fun hp => hp.2 hp.1⟩
  rw [heq] at hr ⊢
  exact ⟨⟨hr, h.settled, h.indexed.congr (fun _ => rfl) fun _ => rfl, h.unknown⟩, by simp, rfl⟩

theorem dropRef_heap_ne (he : e ≠ d) : (m.dropRef d).heap e = m.heap e := by
  rw [dropRef]
  split_ifs
  · exact (Function.update_of_ne he ..).trans (edit_heap_ne he)
  · exact edit_heap_ne he

theorem Makes.giveUp (h : Makes m d) (hi : m.index d ≠ none) :
    Idle ((m.releaseDevidx (((m.heap d).map (·.deviceIdx)).getD NO_DEVIDX).toNat).putDevinfoRef d) := by
  obtain ⟨x, hx⟩ := h.refs.some_of_handle (d := d) (by simp)
  obtain ⟨b, hb⟩ := Devmgr.releaseDevidx_eq (m := m) (((m.heap d).map (·.deviceIdx)).getD NO_DEVIDX).toNat
  have hr : Refs ((m.releaseDevidx (((m.heap d).map (·.deviceIdx)).getD NO_DEVIDX).toNat).putDevinfoRef d)
      (fun _ => 0) fun _ => False := by
    rw [hb]
    exact (h.refs.bitMap b).drop adds_one (fun _ => rfl) fun _ => ⟨False.elim, fun hp => hp.2 hp.1⟩
  have hnot : d ∉ m.listed := fun hd => ((h.refs.mem d).1 (mem_lists.2 (.inl hd))).2 rfl
  have hfree : ((m.releaseDevidx (((m.heap d).map (·.deviceIdx)).getD NO_DEVIDX).toNat).putDevinfoRef d).heap d =
      none := by
    refine (hr.freed d).2 ⟨rfl, fun hd => hnot ?_⟩
    rw [hb] at hd
    exact (Kept.dropRef (m := { m with devidxBitMap := b }) (d := d)).listed hd
  refine ⟨hr, fun {e y} hy => ?_, h.indexed.release (d := d) (fun i => ?_) fun e => ?_, ?_⟩
  · rw [hb] at hy
    obtain ⟨_, hx, -, hs⟩ := Kept.dropRef.heap hy
    exact hs (h.settled hx)
  · have hidx : x.deviceIdx ≠ NO_DEVIDX := by
      intro hno
      rw [index, hx] at hi
      exact hi (if_pos hno)
    rw [putDevinfoRef, bit_congr dropRef_map, bit_releaseDevidx, hx, index, hx]
    simp only [Option.bind_some, Option.map_some, Option.getD_some, if_neg hidx, Option.some.injEq, @eq_comm _ i]
  · split_ifs with he
    · rw [he, index, hfree]
      rfl
    · rw [putDevinfoRef, index, dropRef_heap_ne he, hb, index]
  · rw [hb]
    exact List.subset_nil.1 (h.unknown ▸ dropRef_unknown (m := { m with devidxBitMap := b }))

theorem Makes.free (h : Makes m d) (hi : m.index d = none) : Idle (m.freeDevinfo d) := by
  obtain ⟨x, hx⟩ := h.refs.some_of_handle (d := d) (by simp)
  have hnot : d ∉ m.listed := fun hd => ((h.refs.mem d).1 (mem_lists.2 (.inl hd))).2 rfl
  have hone : x.refCnt = 1 := by
    have hc := h.refs.count hx
    rw [if_pos rfl, if_neg hnot] at hc
    exact UInt8.toNat_inj.1 hc
  have heq : m.putDevinfoRef d = m.freeDevinfo d := by
    rw [putDevinfoRef, dropRef]
    rw [if_pos (by rw [edit_heap_self hx]; simp [hone])]
    simp only [freeDevinfo, edit, dlistDel, Function.update_idem]
  exact heq ▸ h.put hi

/-! ## The calls -/

theorem permitted_of_not_refused {j : Join} (h : ¬ j.refused = true) : j.permitted = true := by
  rw [Join.refused] at h
  rw [Join.permitted]
  by_cases ha : j.permit = DEVMGR_PERMITJOIN_ANY_MODEL
  · simp [ha]
  · simpa [ha] using h

theorem touches_rejoin {j : Join} : Touches (DevInfo.rejoin j) :=
  ⟨fun _ => rfl, fun _ => rfl, fun _ => rfl, fun _ => ⟨nofun, nofun⟩⟩

theorem touches_authorise : Touches DevInfo.authorise := touches_state nofun nofun

theorem Idle.joinZigbeeDevice (h : Idle m) (j : Join) (malloc : Option ℕ) (c : Cloud) :
    Idle (m.joinZigbeeDevice j malloc c).1 := by
  rw [Devmgr.joinZigbeeDevice]
  by_cases href : j.refused = true
  · rw [if_pos href]
    exact h
  rw [if_neg href]
  rcases h.found (m.findDevinfoByIeeeaddr j.ieeeAddr) findDevinfoByIeeeaddr_listed with
    ⟨hfound, hm⟩ | ⟨d, hfound, hd, hhas⟩
  · rw [getDevinfoByIeeeaddr, hfound]
    rw [hfound] at hm
    dsimp only
    rw [hm]
    split
    · rename_i m1 hnew
      obtain rfl := newDevinfo_none hnew
      exact h
    · rename_i m1 d hnew
      obtain ⟨hmk, hno, -, x, hx⟩ := h.newDevinfo hnew (f := DevInfo.join j) (fun _ => rfl) (fun _ => rfl)
        fun _ => ⟨nofun, nofun⟩
      rw [if_pos (permitted_of_not_refused href)]
      rcases hmk.newDevidx hx hno with ⟨hsame, hret, -⟩ | ⟨hmk', hret, hidx⟩
      · rw [hsame, hret, if_pos (by decide)]
        exact hmk.put hno
      · rw [hret, if_neg (by decide)]
        obtain ⟨f, hf, heq, hup⟩ := (hmk'.touch touches_authorise).networkUp (d := d) c
        split_ifs
        · refine Makes.giveUp hup ?_
          rw [heq, index_edit hf.deviceIdx, index_edit touches_authorise.deviceIdx]
          exact hidx
        · exact (Makes.addTail hup).1
  · rw [getDevinfoByIeeeaddr, hfound]
    rw [hfound] at hd hhas
    obtain ⟨f, -, heq, hup⟩ := (hhas.touch touches_rejoin).networkUp (d := d) c
    refine Has.put hup (.inr ?_)
    rw [heq]
    exact hd

theorem Idle.findUnknownDevinfo (h : Idle m) (name : Str) : m.findUnknownDevinfo name = none := by
  rw [Devmgr.findUnknownDevinfo, h.unknown]
  rfl

theorem Idle.authoriseDevice (h : Idle m) (devid : Str) (c : Cloud) : Idle (m.authoriseDevice devid c).1 := by
  rw [Devmgr.authoriseDevice]
  rcases h.found (m.findDevinfo devid) findDevinfo_listed with ⟨hfound, hm⟩ | ⟨d, hfound, hd, hhas⟩
  · rw [getDevinfo, hfound]
    rw [hfound] at hm
    dsimp only
    rw [hm, getUnknownDevinfo, h.findUnknownDevinfo]
    exact h
  · rw [getDevinfo, hfound]
    rw [hfound] at hd hhas
    exact hhas.put (.inr hd)

theorem Idle.addAuthoriseDevice (h : Idle m) (devid : Str) (modelId : UInt32) (devType : DevType)
    (malloc : Option ℕ) : Idle (m.addAuthoriseDevice devid modelId devType malloc).1 := by
  rw [Devmgr.addAuthoriseDevice]
  rcases h.found (m.findDevinfo devid) findDevinfo_listed with ⟨hfound, hm⟩ | ⟨d, hfound, hd, hhas⟩
  · rw [getDevinfo, hfound]
    rw [hfound] at hm
    dsimp only
    rw [hm]
    split
    · rename_i m1 hnew
      obtain rfl := newDevinfo_none hnew
      exact h
    · rename_i m1 d hnew
      obtain ⟨hmk, hno, -, x, hx⟩ := h.newDevinfo hnew
        (f := fun x => { x with base := { x.base with devType := devType, modelId := modelId }, cloudState := .authorised })
        (fun _ => rfl) (fun _ => rfl) fun _ => ⟨nofun, nofun⟩
      rcases hmk.newDevidx hx hno with ⟨hsame, hret, -⟩ | ⟨hmk', hret, -⟩
      · rw [hsame, hret, if_pos (by decide)]
        exact hmk.free hno
      · rw [hret, if_neg (by decide)]
        exact (Makes.addTail hmk').1
  · rw [getDevinfo, hfound]
    rw [hfound] at hd hhas
    exact hhas.put (.inr hd)

theorem Has.deletePut (h : Has m d) (hd : d ∈ m.listed) : Idle ((m.deleteDevinfo d).putDevinfoRef d) := by
  obtain ⟨hdel, hno⟩ := h.deleteDevinfo hd
  exact Has.put hdel (.inl hno)

theorem Idle.deleteDevice (h : Idle m) (devid : Str) (c : Cloud) : Idle (m.deleteDevice devid c) := by
  rw [Devmgr.deleteDevice, getUnknownDevinfo, h.findUnknownDevinfo]
  change Idle (match (m.getDevinfo devid).2 with
    | none => (m.getDevinfo devid).1
    | some d => (((m.getDevinfo devid).1.networkLeave d c).deleteDevinfo d).putDevinfoRef d)
  rcases h.found (m.findDevinfo devid) findDevinfo_listed with ⟨hfound, -⟩ | ⟨d, hfound, hd, hhas⟩
  · rw [getDevinfo, hfound]
    exact h
  · rw [getDevinfo, hfound]
    rw [hfound] at hd hhas
    obtain ⟨f, hf, heq⟩ := networkLeave_touches (m := m.holdFound (some d)) (d := d) c
    dsimp only
    rw [heq]
    exact Has.deletePut (hhas.touch hf) hd

theorem deleteDevinfo_listed (he : e ∈ m.listed) (hne : e ≠ d) : e ∈ (m.deleteDevinfo d).listed := by
  have hdel : ∀ m : Devmgr, e ∈ m.listed → e ∈ (m.dlistDel d).listed := by
    intro m he
    rcases mem_listed.1 he with h | h
    · exact mem_listed.2 (.inl ((List.mem_erase_of_ne hne).2 h))
    · exact mem_listed.2 (.inr ((List.mem_erase_of_ne hne).2 h))
  have hrem : ∀ m : Devmgr, e ∈ m.listed → e ∈ (m.removeDevinfo d).listed := by
    intro m he
    rw [Devmgr.removeDevinfo]
    split
    · exact he
    · rw [dropRef]
      split_ifs
      · exact hdel _ (hdel _ he)
      · exact hdel _ he
  cases hx : m.heap d with
  | none =>
    rw [Devmgr.deleteDevinfo, hx]
    exact he
  | some x =>
    obtain ⟨b, heq⟩ := deleteDevinfo_eq hx
    rw [heq]
    exact hrem _ he

theorem Idle.deleteAll {l : List ℕ} (h : Idle m) (hl : l.Nodup) (hin : ∀ d ∈ l, d ∈ m.listed) :
    Idle (l.foldl Devmgr.deleteDevinfo m) := by
  induction l generalizing m with
  | nil => exact h
  | cons d l ih =>
    obtain ⟨hd, hl⟩ := List.nodup_cons.1 hl
    refine ih (h.deleteDevinfo (hin d List.mem_cons_self)).1 hl fun e he => ?_
    refine deleteDevinfo_listed (hin e (List.mem_cons_of_mem d he)) ?_
    rintro rfl
    exact hd he

theorem Idle.freeUnknownDevlist (h : Idle m) : Idle m.freeUnknownDevlist := by
  rw [Devmgr.freeUnknownDevlist, h.unknown]
  exact h

theorem Idle.resetAllDevice (h : Idle m) : Idle m.resetAllDevice := by
  have hfree := h.freeUnknownDevlist
  have hnodup : m.freeUnknownDevlist.devHead.Nodup :=
    (List.nodup_append.1 (List.nodup_append.1 hfree.refs.nodup).1).1
  exact Idle.deleteAll hfree hnodup fun d hd => mem_listed.2 (.inl hd)

theorem Idle.call (h : Idle m) (a : DevCall) : Idle (m.call a) := by
  cases a with
  | join j malloc c => exact h.joinZigbeeDevice j malloc c
  | authorise devid c => exact h.authoriseDevice devid c
  | addAuthorise devid modelId devType malloc => exact h.addAuthoriseDevice devid modelId devType malloc
  | delete devid c => exact h.deleteDevice devid c
  | leave ieeeAddr c => exact h.deleteDevice _ c
  | resetAll => exact h.resetAllDevice
  | freeUnknown => exact h.freeUnknownDevlist

theorem idle_init : Idle .init where
  refs := Refs.init
  settled := fun hx => nomatch hx
  indexed :=
    ⟨fun i => ⟨fun hb => absurd hb (by simp [bit, Devmgr.init]), fun ⟨_, hd⟩ => (nomatch hd)⟩,
      fun {_ _ _} hd => (nomatch hd)⟩
  unknown := rfl

/-! ## Room for one more -/

theorem Indexed.full (h : Indexed m) (hfull : ∀ i < DEVMGR_MAX_SUBDEVICE, m.bit i = true) :
    (DEVMGR_MAX_SUBDEVICE : ℕ∞) ≤ m.holders.encard := by
  have hhas : ∀ i : Fin DEVMGR_MAX_SUBDEVICE, ∃ d, m.index d = some i.val := fun i =>
    (h.bits i.val).1 (hfull i.val i.isLt)
  choose g hg using hhas
  have hinj : Function.Injective g := by
    intro i j hij
    have hi := hg i
    rw [hij, hg j] at hi
    exact Fin.ext (Option.some.inj hi).symm
  have hsub : Set.range g ⊆ m.holders := by
    rintro _ ⟨i, rfl⟩
    exact fun hno => nomatch (hg i).symm.trans hno
  have hcard : (DEVMGR_MAX_SUBDEVICE : ℕ∞) ≤ (Set.range g).encard := by
    have hle := hinj.encard_range
    rwa [ENat.card_eq_coe_fintype_card, Fintype.card_fin] at hle
  exact hcard.trans (Set.encard_le_encard hsub)

theorem networkUp_ok {c : Cloud} {uuid : Str} (hx : m.heap d = some x) (hs : x.cloudState = .authorised)
    (hreg : c.register = some uuid) (hlog : c.login = 0) : (m.networkUp d c).2 = 0 := by
  simp [Devmgr.networkUp, hx, hs, hreg, hlog]

theorem newDevinfo_some (h : m.heap d = none) : ∃ m1, m.newDevinfo (some d) = (m1, some d) := by
  rw [Devmgr.newDevinfo, h]
  exact ⟨_, rfl⟩

theorem Makes.newDevidx (h : Makes m d) (hx : m.heap d = some x) (hno : m.index d = none)
    (hroom : m.holders.encard < DEVMGR_MAX_SUBDEVICE) :
    Makes (m.newDevidx d).1 d ∧ (m.newDevidx d).2 = 0 ∧ (m.newDevidx d).1.index d ≠ none := by
  rcases Gw.newDevidx h hx hno with ⟨-, -, hfull⟩ | hok
  · exact absurd (h.indexed.full hfull) (not_le.2 hroom)
  · exact hok

theorem Idle.joins {c : Cloud} {j : Join} {uuid : Str} (h : Idle m) (hroom : m.holders.encard < DEVMGR_MAX_SUBDEVICE)
    (href : j.refused = false) (hnew : m.findDevinfoByIeeeaddr j.ieeeAddr = none) (hd : m.heap d = none)
    (hreg : c.register = some uuid) (hlog : c.login = 0) :
    (m.joinZigbeeDevice j (some d) c).2 = 0 ∧ d ∈ (m.joinZigbeeDevice j (some d) c).1.devHead ∧
      (m.joinZigbeeDevice j (some d) c).1.index d ≠ none := by
  obtain ⟨m1, hm1⟩ := newDevinfo_some hd
  obtain ⟨hmk, hno, hsame, x, hx⟩ := h.newDevinfo hm1 (f := DevInfo.join j) (fun _ => rfl) (fun _ => rfl)
    fun _ => ⟨nofun, nofun⟩
  obtain ⟨hmk', hret, hidx⟩ := Makes.newDevidx hmk hx hno (hsame ▸ hroom)
  obtain ⟨f, hf, heq, hup⟩ := (hmk'.touch touches_authorise).networkUp (d := d) c
  obtain ⟨y, hy⟩ := hmk'.refs.some_of_handle (d := d) (by simp)
  have hok := networkUp_ok (edit_heap_self (f := DevInfo.authorise) hy) rfl hreg hlog
  obtain ⟨-, hin, hadd⟩ := Makes.addTail hup
  have hjoin : m.joinZigbeeDevice j (some d) c =
      ((((m1.edit d (DevInfo.join j)).newDevidx d).1.edit d DevInfo.authorise).networkUp d c |>.1.addTail d true, 0) := by
    rw [Devmgr.joinZigbeeDevice, if_neg (by rw [href]; nofun), getDevinfoByIeeeaddr, hnew]
    dsimp only [holdFound]
    rw [hm1]
    dsimp only
    rw [if_pos (permitted_of_not_refused (by rw [href]; nofun)), hret, if_neg (by decide), hok, if_neg (by decide)]
  rw [hjoin]
  refine ⟨rfl, hin, ?_⟩
  rw [hadd, heq, index_edit hf.deviceIdx, index_edit touches_authorise.deviceIdx]
  exact hidx

theorem Idle.adds {devid : Str} {modelId : UInt32} {devType : DevType} (h : Idle m)
    (hroom : m.holders.encard < DEVMGR_MAX_SUBDEVICE) (hnew : m.findDevinfo devid = none) (hd : m.heap d = none) :
    (m.addAuthoriseDevice devid modelId devType (some d)).2 = 0 ∧
      d ∈ (m.addAuthoriseDevice devid modelId devType (some d)).1.devHead ∧
      (m.addAuthoriseDevice devid modelId devType (some d)).1.index d ≠ none := by
  obtain ⟨m1, hm1⟩ := newDevinfo_some hd
  obtain ⟨hmk, hno, hsame, x, hx⟩ := h.newDevinfo hm1
    (f := fun x => { x with base := { x.base with devType := devType, modelId := modelId }, cloudState := .authorised })
    (fun _ => rfl) (fun _ => rfl) fun _ => ⟨nofun, nofun⟩
  obtain ⟨hmk', hret, hidx⟩ := Makes.newDevidx hmk hx hno (hsame ▸ hroom)
  obtain ⟨-, hin, hadd⟩ := Makes.addTail hmk'
  rw [Devmgr.addAuthoriseDevice, getDevinfo, hnew]
  dsimp only [holdFound]
  rw [hm1]
  dsimp only
  rw [hret, if_neg (by decide)]
  exact ⟨rfl, hin, hadd ▸ hidx⟩

/-- **Device indices**: after any calls, a bit is set exactly if one device has the index, no two
    devices have the same, and while fewer than 128 devices have one a new device gets one. -/
theorem devidx_exact (as : List DevCall) :
    (∀ i, (as.foldl Devmgr.call .init).bit i = true ↔ ∃! d, (as.foldl Devmgr.call .init).index d = some i) ∧
    (∀ d e i, (as.foldl Devmgr.call .init).index d = some i → (as.foldl Devmgr.call .init).index e = some i → d = e) ∧
    ((as.foldl Devmgr.call .init).holders.encard < DEVMGR_MAX_SUBDEVICE →
      ∀ d, (as.foldl Devmgr.call .init).heap d = none →
        (∀ j c uuid, j.refused = false → (as.foldl Devmgr.call .init).findDevinfoByIeeeaddr j.ieeeAddr = none →
          c.register = some uuid → c.login = 0 →
          d ∈ ((as.foldl Devmgr.call .init).call (.join j (some d) c)).devHead ∧
            ((as.foldl Devmgr.call .init).call (.join j (some d) c)).index d ≠ none) ∧
        (∀ devid modelId devType, (as.foldl Devmgr.call .init).findDevinfo devid = none →
          d ∈ ((as.foldl Devmgr.call .init).call (.addAuthorise devid modelId devType (some d))).devHead ∧
            ((as.foldl Devmgr.call .init).call (.addAuthorise devid modelId devType (some d))).index d ≠ none)) := by
  have hstep : ∀ {m a m'}, Idle m → Lib.Fn Devmgr.call m a m' → Idle m' := by
    rintro m a _ hm rfl
    exact hm.call a
  have h : Idle (as.foldl Devmgr.call .init) := (Lib.run_fn.2 rfl).keeps hstep idle_init
  refine ⟨fun i => ?_, fun _ _ _ hd he => h.indexed.unique hd he, fun hroom d hd => ⟨?_, ?_⟩⟩
  · rw [h.indexed.bits i]
    exact ⟨fun ⟨d, hd⟩ => ⟨d, hd, fun e he => h.indexed.unique he hd⟩, fun ⟨d, hd, _⟩ => ⟨d, hd⟩⟩
  · intro j c uuid href hnew hreg hlog
    exact (h.joins hroom href hnew hd hreg hlog).2
  · intro devid modelId devType hnew
    exact (h.adds hroom hnew hd).2

theorem devidx_exact_first :
    0 ∈ (Devmgr.init.call (.join ⟨[1, 2, 3, 4, 5, 6, 7, 8], 9, [], [], DEVMGR_PERMITJOIN_ANY_MODEL⟩ (some 0)
      ⟨some [], 0, true⟩)).devHead := by
  have hroom : Devmgr.init.holders.encard < DEVMGR_MAX_SUBDEVICE := by
    have hempty : Devmgr.init.holders = ∅ := by
      ext d
      simp [Devmgr.holders, Devmgr.index, Devmgr.init]
    rw [hempty, Set.encard_empty]
    exact ENat.natCast_lt_natCast.2 (by decide : 0 < DEVMGR_MAX_SUBDEVICE)
  exact (((devidx_exact []).2.2 hroom 0 rfl).1 _ _ [] rfl rfl rfl rfl).1

end Gateway
