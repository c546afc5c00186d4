/-
  Threads that look up, join, authorise and delete the gateway's devices.

  Each section under `devlist_lock` is one step of its thread, and so is what a thread does
  between two sections.  The reference counts are right in every state of a run exactly if in
  every step the device that a thread deletes or moves is still on a list, the device that it
  adds has an address of its own, and the count that it adds to has room.
-/
import AliOS.Gateway.DevRefs
import AliOS.Lib.Refs
import AliOS.Lib.Trans

namespace Gateway

open Lib Devmgr

/-- What an idle thread can call. -/
inductive Call
  | getDevinfo (name : Str)
  | getUnknownDevinfo (name : Str)
  | deleteDevice (devid : Str)
  | leaveZigbeeDevice (ieeeAddr : List UInt8)
  | authoriseDevice (devid : Str)
  | joinZigbeeDevice (j : Join)

/-- Where a thread is. -/
inductive Pc
  | idle
  /-- with a device that it has to put, and nothing else to do -/
  | held (d : ℕ)
  /-- `devmgr_delete_device` and `devmgr_leave_zigbee_device`: before the lookup on `dev_head`,
      before the device is unregistered, before it is deleted, and before it is put; `next` is
      the name to be looked up behind it -/
  | look (name : Str)
  | leaving (d : ℕ)
  | delete (d : ℕ) (next : Option Str)
  | put (d : ℕ) (next : Option Str)
  /-- `devmgr_authorise_device`: before the lookup on `unknown_dev_head`, before the device is
      registered, and before it is moved -/
  | authLook (devid : Str)
  | authorising (d : ℕ)
  | moving (d : ℕ)
  /-- `devmgr_join_zigbee_device`: with a device that was on `dev_head`, or before a new one is
      made, before the new one is registered, before it is added, and before it is given up -/
  | rejoining (d : ℕ) (j : Join)
  | joinNew (j : Join)
  | joinUp (d : ℕ)
  | adding (d : ℕ) (known : Bool)
  | discard (d : ℕ)

/-- The device that a thread has a handle on. -/
def Pc.handle : Pc → Option ℕ
  | .idle | .look _ | .authLook _ | .joinNew _ => none
  | .held d | .leaving d | .delete d _ | .put d _ | .authorising d | .moving d | .rejoining d _ => some d
  | .joinUp d | .adding d _ | .discard d => some d

/-- The device that a thread is making. -/
def Pc.making : Pc → Option ℕ
  | .joinUp d | .adding d _ | .discard d => some d
  | _ => none

/-- What is given to a step: the call of an idle thread, the block of `os_malloc`, and what the
    cloud answers. -/
structure Input where
  call : Call
  malloc : Option ℕ
  cloud : Cloud

/-- Where a lookup leads. -/
def onFound (found : Option ℕ) (yes : ℕ → Pc) (no : Pc) : Pc :=
  match found with
  | none => no
  | some d => yes d

/-- The next step of a thread. -/
def advance (m : Devmgr) (i : Input) : Pc → Devmgr × Pc
  | .idle =>
    match i.call with
    | .getDevinfo name => let (m, d) := m.getDevinfo name; (m, onFound d .held .idle)
    | .getUnknownDevinfo name => let (m, d) := m.getUnknownDevinfo name; (m, onFound d .held .idle)
    | .deleteDevice devid =>
      let (m, d) := m.getUnknownDevinfo devid
      (m, onFound d (.delete · (some devid)) (.look devid))
    | .leaveZigbeeDevice ieeeAddr =>
      let (m, d) := m.getUnknownDevinfo (ieeeaddrString ieeeAddr)
      (m, onFound d (.delete · (some (ieeeaddrString ieeeAddr))) (.look (ieeeaddrString ieeeAddr)))
    | .authoriseDevice devid => let (m, d) := m.getDevinfo devid; (m, onFound d .held (.authLook devid))
    | .joinZigbeeDevice j =>
      if j.refused then (m, .idle)
      else let (m, d) := m.getDevinfoByIeeeaddr j.ieeeAddr; (m, onFound d (.rejoining · j) (.joinNew j))
  | .held d => (m.putDevinfoRef d, .idle)
  | .look name => let (m, d) := m.getDevinfo name; (m, onFound d .leaving .idle)
  | .leaving d => (m.networkLeave d i.cloud, .delete d none)
  | .delete d next => (m.deleteDevinfo d, .put d next)
  | .put d next =>
    (m.putDevinfoRef d, match next with
      | none => .idle
      | some name => .look name)
  | .authLook devid => let (m, d) := m.getUnknownDevinfo devid; (m, onFound d .authorising .idle)
  | .authorising d =>
    let (m, ret) := (m.edit d DevInfo.authorise).networkUp d i.cloud
    if ret ≠ 0 then (m, .delete d none)
    else
      let (m, ret) := m.newDevidx d
      (m, if ret < 0 then .delete d none else .moving d)
  | .moving d => (m.moveToDevHead d, .held d)
  | .rejoining d j => (((m.edit d (DevInfo.rejoin j)).networkUp d i.cloud).1, .held d)
  | .joinNew j =>
    match m.newDevinfo i.malloc with
    | (m, none) => (m, .idle)
    | (m, some d) =>
      let m := m.edit d (DevInfo.join j)
      if j.permitted then
        let (m, ret) := m.newDevidx d
        (m, if ret < 0 then .discard d else .joinUp d)
      else (m, .adding d false)
  | .joinUp d =>
    let (m, ret) := (m.edit d DevInfo.authorise).networkUp d i.cloud
    if ret ≠ 0 then
      (m.releaseDevidx (((m.heap d).map (·.deviceIdx)).getD NO_DEVIDX).toNat, .discard d)
    else (m, .adding d true)
  | .adding d known => (m.addTail d known, .idle)
  | .discard d => (m.putDevinfoRef d, .idle)

/-- The device that the section of a step looks up, if there is one. -/
def lookup (m : Devmgr) (i : Input) : Pc → Option ℕ
  | .idle =>
    match i.call with
    | .getDevinfo name | .authoriseDevice name => m.findDevinfo name
    | .getUnknownDevinfo name | .deleteDevice name => m.findUnknownDevinfo name
    | .leaveZigbeeDevice ieeeAddr => m.findUnknownDevinfo (ieeeaddrString ieeeAddr)
    | .joinZigbeeDevice j => if j.refused then none else m.findDevinfoByIeeeaddr j.ieeeAddr
  | .look name => m.findDevinfo name
  | .authLook devid => m.findUnknownDevinfo devid
  | _ => none

/-- The gateway and its threads. -/
structure Sys (T : Type) where
  mgr : Devmgr
  pc : T → Pc

structure Act (T : Type) where
  thread : T
  input : Input

variable {T : Type} [DecidableEq T]

def Sys.init : Sys T := ⟨.init, fun _ => .idle⟩

/-- A thread makes its next step. -/
def Sys.next (s : Sys T) (a : Act T) : Sys T :=
  let (mgr, pc) := advance s.mgr a.input (s.pc a.thread)
  ⟨mgr, Function.update s.pc a.thread pc⟩

/-- The IEEE address of a device. -/
def Devmgr.ieeeAddr (m : Devmgr) (d : ℕ) : Option (List UInt8) := (m.heap d).map (·.base.u)

/-- **What the counts are**: of every device the handles on it, and the list that it is on;
    it is freed when there are none, and until then on exactly one list, once it is made; and no
    two devices of the gateway have one address. -/
structure Sys.Counted [Fintype T] (s : Sys T) : Prop where
  refs : Refs s.mgr (Lib.refs fun t => (s.pc t).handle) fun d => ∃ t, (s.pc t).making = some d
  addr : ∀ d ∈ s.mgr.listed, ∀ e ∈ s.mgr.listed, s.mgr.ieeeAddr d = s.mgr.ieeeAddr e → d = e

/-- What a step needs of the state before it. -/
def Meets (m : Devmgr) (i : Input) (pc : Pc) : Prop :=
  (∀ d x, lookup m i pc = some d → m.heap d = some x → x.refCnt ≠ 255) ∧
    match pc with
    | .delete d _ | .moving d => d ∈ m.listed
    | .adding d _ => ∀ e ∈ m.listed, m.ieeeAddr e ≠ m.ieeeAddr d
    | _ => True

/-! ## One thread among others -/

/-- No two devices on `dev_head` or `unknown_dev_head` have one address. -/
def Addressed (m : Devmgr) : Prop := ∀ d ∈ m.listed, ∀ e ∈ m.listed, m.ieeeAddr d = m.ieeeAddr e → d = e

/-- The handles of a thread, and `o` of the others. -/
def own (o : ℕ → ℕ) (pc : Pc) (d : ℕ) : ℕ := o d + if pc.handle = some d then 1 else 0

/-- The state as one thread finds it: the others have the handles `o`, and make the devices `q`. -/
structure Local (m : Devmgr) (o : ℕ → ℕ) (q : ℕ → Prop) (pc : Pc) : Prop where
  refs : Refs m (own o pc) fun d => q d ∨ pc.making = some d
  addr : Addressed m
  settled : ∀ {d x}, m.heap d = some x → Settled x
  alone : ∀ {d}, pc.making = some d → o d = 0
  held : ∀ {d}, q d → o d ≠ 0
  others : ∀ {d}, q d → pc.handle ≠ some d

variable {m m' : Devmgr} {o : ℕ → ℕ} {q : ℕ → Prop} {pc pc' : Pc} {i : Input} {d : ℕ} {x : DevInfo}
  {found : Option ℕ}

theorem Pc.handle_of_making (h : pc.making = some d) : pc.handle = some d := by
  cases pc <;> first | exact h | exact nomatch h

theorem Pc.making_none (h : pc.handle = none) : pc.making = none := by
  cases hm : pc.making with
  | none => rfl
  | some d => exact nomatch h ▸ Pc.handle_of_making hm

theorem own_congr (h : pc'.handle = pc.handle) : own o pc' = own o pc := by
  ext d
  rw [own, own, h]

theorem own_none (h : pc.handle = none) : own o pc = o := by
  funext d
  rw [own, h, if_neg (by nofun), Nat.add_zero]

theorem adds_own (h : pc.handle = some d) : Adds o d (own o pc) := by
  intro j
  rw [own, h]
  simp only [Option.some.injEq, eq_comm]

theorem Addressed.kept (h : Addressed m) (hk : Kept m m') (hsome : ∀ d ∈ m'.listed, ∃ y, m'.heap d = some y) :
    Addressed m' := by
  intro d hd e he heq
  obtain ⟨y, hy⟩ := hsome d hd
  obtain ⟨z, hz⟩ := hsome e he
  obtain ⟨y0, hy0, huy, -⟩ := hk.heap hy
  obtain ⟨z0, hz0, huz, -⟩ := hk.heap hz
  refine h d (hk.listed hd) e (hk.listed he) ?_
  rw [ieeeAddr, ieeeAddr, hy, hz] at heq
  rw [ieeeAddr, ieeeAddr, hy0, hz0]
  simpa [huy, huz] using heq

theorem Local.of_kept (h : Local m o q pc) (hk : Kept m m') (hrefs : Refs m' (own o pc') q)
    (hmaking : pc'.making = none) (hothers : ∀ {d}, q d → pc'.handle ≠ some d) : Local m' o q pc' := by
  refine ⟨hrefs.congr (fun _ => rfl) (fun d => ?_) (fun _ => rfl) rfl rfl, h.addr.kept hk fun d hd => ?_,
    fun {d y} hy => ?_, fun {d} hd => ?_, h.held, hothers⟩
  · simp [hmaking]
  · exact hrefs.some_of_mem (mem_lists.2 (.inl hd))
  · obtain ⟨x, hx, -, hs⟩ := hk.heap hy
    exact hs (h.settled hx)
  · rw [hmaking] at hd
    exact nomatch hd

theorem Local.refs_idle (h : Local m o q pc) (hmaking : pc.making = none) : Refs m (own o pc) q :=
  h.refs.congr (fun _ => rfl) (fun d => by simp [hmaking]) (fun _ => rfl) rfl rfl

theorem holdFound_kept : Kept m (m.holdFound found) := by
  cases found with
  | none => exact .refl
  | some d => exact .edit (fun _ => rfl) id

theorem Local.lookup {yes : ℕ → Pc} {no : Pc} (h : Local m o q pc) (hpc : pc.handle = none)
    (hf : ∀ {d}, found = some d → d ∈ m.listed)
    (hroom : ∀ d x, found = some d → m.heap d = some x → x.refCnt ≠ 255)
    (hyes : ∀ d, (yes d).handle = some d ∧ (yes d).making = none) (hno : no.handle = none) :
    Local (m.holdFound found) o q (onFound found yes no) := by
  have hmaking := Pc.making_none hpc
  have hrefs := h.refs_idle hmaking
  rw [own_none hpc] at hrefs
  cases hfound : found with
  | none =>
    subst hfound
    exact h.of_kept .refl (by rwa [onFound, own_none hno]) (Pc.making_none hno) fun _ hd => nomatch hno ▸ hd
  | some d =>
    obtain ⟨x, hx⟩ := hrefs.some_of_mem (mem_lists.2 (.inl (hf hfound)))
    have hnew := hrefs.hold (adds_own (hyes d).1) hx (hroom d x hfound hx)
    change Local (m.holdFound (some d)) o q (yes d)
    refine h.of_kept holdFound_kept hnew (hyes d).2 fun {e} hq he => ?_
    obtain rfl := Option.some.inj ((hyes d).1.symm.trans he)
    exact ((hrefs.mem d).1 (mem_lists.2 (.inl (hf hfound)))).2 hq

theorem Local.touch {f : DevInfo → DevInfo} (h : Local m o q pc) (hf : Touches f) (hh : pc'.handle = pc.handle)
    (hmk : pc'.making = pc.making) : Local (m.edit d f) o q pc' := by
  refine ⟨?_, h.addr.kept hf.kept fun e he => ?_, fun {e y} hy => ?_, fun hm => h.alone (hmk ▸ hm), h.held,
    fun hq => hh ▸ h.others hq⟩
  · rw [own_congr hh, hmk]
    exact hf.refs h.refs
  · exact (hf.refs h.refs).some_of_mem (mem_lists.2 (.inl he))
  · obtain ⟨x, hx, -, hs⟩ := hf.kept.heap hy
    exact hs (h.settled hx)

theorem Local.put (h : Local m o q pc) (hd : pc.handle = some d) (hno : pc'.handle = none) :
    Local (m.putDevinfoRef d) o q pc' := by
  have hq : ¬ q d := fun hq => h.others hq hd
  have hmaking := Pc.making_none hno
  refine h.of_kept .dropRef ?_ hmaking fun _ he => nomatch hno ▸ he
  rw [own_none hno]
  refine h.refs.drop (adds_own hd) ?_ fun j => ?_
  · rintro (hq' | hm)
    · exact absurd hq' hq
    · exact h.alone hm
  · constructor
    · intro hj
      exact ⟨.inl hj, fun he => hq (he ▸ hj)⟩
    · rintro ⟨hj | hj, hne⟩
      · exact hj
      · exact absurd (Option.some.inj (hd.symm.trans (Pc.handle_of_making hj))).symm hne

theorem Local.delete (h : Local m o q pc) (hd : d ∈ m.listed) (hh : pc'.handle = pc.handle)
    (hmk : pc.making = none) (hmk' : pc'.making = none) : Local (m.deleteDevinfo d) o q pc' := by
  refine h.of_kept .deleteDevinfo ?_ hmk' fun hq => hh ▸ h.others hq
  rw [own_congr hh]
  exact (h.refs_idle hmk).deleteDevinfo hd

theorem Local.rejoin {j : Join} (h : Local m o q pc) (hh : pc'.handle = pc.handle) (hmk : pc'.making = pc.making) :
    Local (m.edit d (DevInfo.rejoin j)) o q pc' :=
  h.touch ⟨fun _ => rfl, fun _ => rfl, fun _ => rfl, fun _ => ⟨nofun, nofun⟩⟩ hh hmk

theorem Local.authorise (h : Local m o q pc) (hh : pc'.handle = pc.handle) (hmk : pc'.making = pc.making) :
    Local (m.edit d DevInfo.authorise) o q pc' :=
  h.touch (touches_state nofun nofun) hh hmk

theorem Local.networkUp (h : Local m o q pc) (hh : pc'.handle = pc.handle) (hmk : pc'.making = pc.making) :
    Local (m.networkUp d i.cloud).1 o q pc' := by
  obtain ⟨f, hf, heq⟩ := networkUp_touches (m := m) (d := d) (fun hx => h.settled hx) i.cloud
  rw [heq]
  exact h.touch hf hh hmk

theorem Local.bitMap (h : Local m o q pc) (b : ℕ → BitVec 8) (hh : pc'.handle = pc.handle)
    (hmk : pc'.making = pc.making) : Local { m with devidxBitMap := b } o q pc' := by
  have h' : Local m o q pc' := by
    have hsame : Local (m.edit 0 id) o q pc' := h.touch touches_id hh hmk
    rwa [edit_id] at hsame
  exact ⟨h'.refs.bitMap b, h'.addr, h'.settled, h'.alone, h'.held, h'.others⟩

theorem Local.newDevidx (h : Local m o q pc) (hh : pc'.handle = pc.handle) (hmk : pc'.making = pc.making) :
    Local (m.newDevidx d).1 o q pc' := by
  have hr : Refs (m.newDevidx d).1 (own o pc') fun d => q d ∨ pc'.making = some d := by
    rw [own_congr hh, hmk]
    exact h.refs.newDevidx
  refine ⟨hr, h.addr.kept .newDevidx fun e he => hr.some_of_mem (mem_lists.2 (.inl he)), fun {e y} hy => ?_,
    fun hm => h.alone (hmk ▸ hm), h.held, fun hq => hh ▸ h.others hq⟩
  obtain ⟨x, hx, -, hs⟩ := Kept.newDevidx.heap hy
  exact hs (h.settled hx)

theorem Local.make {malloc : Option ℕ} {f : DevInfo → DevInfo} (h : Local m o q pc) (hpc : pc.handle = none)
    (hm : m.newDevinfo malloc = (m', some d)) (hf : ∀ x, (f x).refCnt = x.refCnt) (hs : ∀ x, Settled (f x))
    (hh : pc'.handle = some d) (hmk : pc'.making = some d) : Local (m'.edit d f) o q pc' := by
  have hmaking := Pc.making_none hpc
  have hrefs := h.refs_idle hmaking
  rw [own_none hpc] at hrefs
  obtain ⟨hnone, hnew⟩ : m.heap d = none ∧ Refs m' (own o pc') fun j => q j ∨ pc'.making = some j :=
    hrefs.newDevinfo hm (adds_own hh) fun j => by rw [hmk, Option.some.injEq, @eq_comm _ d j]
  obtain ⟨x0, -, rfl⟩ := newDevinfo_eq hm
  have hfree := (hrefs.freed d).1 hnone
  have hnew' := hnew.edit (d := d) hf
  have hne : ∀ {e}, e ∈ m.listed → e ≠ d := fun he hed => hfree.2 (hed ▸ he)
  have hheap : ∀ {e}, e ≠ d →
      (({ m with heap := Function.update m.heap d (some x0) } : Devmgr).edit d f).heap e = m.heap e :=
    fun he => (edit_heap_ne he).trans (Function.update_of_ne he ..)
  refine ⟨hnew', fun e he e' he' heq => ?_, fun {e y} hy => ?_, fun {e} he => ?_, h.held, fun {e} hq he => ?_⟩
  · rw [ieeeAddr, ieeeAddr, hheap (hne he), hheap (hne he')] at heq
    exact h.addr e he e' he' heq
  · by_cases he : e = d
    · rw [he, edit_heap_self (Function.update_self ..)] at hy
      cases hy
      exact hs _
    · exact h.settled (hheap he ▸ hy)
  · obtain rfl := Option.some.inj (hmk.symm.trans he)
    exact hfree.1
  · obtain rfl := Option.some.inj (hh.symm.trans he)
    exact h.held hq hfree.1

theorem Local.add {known : Bool} (h : Local m o q pc) (hmk : pc.making = some d)
    (hnew : ∀ e ∈ m.listed, m.ieeeAddr e ≠ m.ieeeAddr d) (hno : pc'.handle = none) :
    Local (m.addTail d known) o q pc' := by
  have hmaking := Pc.making_none hno
  have hh := Pc.handle_of_making hmk
  have hq : ¬ q d := fun hq => h.others hq hh
  have hadd : Refs (m.addTail d known) o fun j => q j ∨ pc'.making = some j := by
    refine h.refs.addTail (adds_own hh) (.inr hmk) fun j => ?_
    rw [hmaking, hmk, Option.some.injEq]
    constructor
    · rintro (hj | hj)
      · exact ⟨.inl hj, fun he => hq (he ▸ hj)⟩
      · exact nomatch hj
    · rintro ⟨hj | hj, hne⟩
      · exact .inl hj
      · exact absurd hj.symm hne
  obtain ⟨x, hx⟩ := h.refs.some_of_handle (d := d) (by rw [(adds_own hh).self]; exact Nat.succ_ne_zero _)
  have hheap : (m.addTail d known).heap = m.heap := addTail_heap hx
  have hmem : ∀ e, e ∈ (m.addTail d known).listed → e = d ∨ e ∈ m.listed := by
    intro e he
    exact List.mem_cons.1 ((addTail_listed hx).mem_iff.1 he)
  have haddr : ∀ e, (m.addTail d known).ieeeAddr e = m.ieeeAddr e := fun e => by rw [ieeeAddr, hheap, ieeeAddr]
  refine ⟨?_, fun e he e' he' heq => ?_, fun hy => h.settled (hheap ▸ hy), fun hm => ?_, h.held,
    fun _ he => nomatch hno ▸ he⟩
  · rw [own_none hno]
    exact hadd
  · rw [haddr, haddr] at heq
    rcases hmem e he with rfl | hl
    · rcases hmem e' he' with rfl | hl'
      · rfl
      · exact absurd heq.symm (hnew e' hl')
    · rcases hmem e' he' with rfl | hl'
      · exact absurd heq (hnew e hl)
      · exact h.addr e hl e' hl' heq
  · rw [hmaking] at hm
    exact nomatch hm

theorem Local.move (h : Local m o q pc) (hd : d ∈ m.listed) (hh : pc'.handle = pc.handle) (hmk : pc.making = none)
    (hmk' : pc'.making = none) : Local (m.moveToDevHead d) o q pc' := by
  obtain ⟨hrefs, hperm, hheap⟩ := (h.refs_idle hmk).moveToDevHead hd
  refine h.of_kept ⟨fun {_ y} hy => ⟨y, hheap ▸ hy, rfl, id⟩, hperm.subset⟩ ?_ hmk' fun hq => hh ▸ h.others hq
  rw [own_congr hh]
  exact hrefs

theorem Local.advance (h : Local m o q pc) (hm : Meets m i pc) :
    Local (Gateway.advance m i pc).1 o q (Gateway.advance m i pc).2 := by
  obtain ⟨hroom, hcond⟩ := hm
  cases pc with
  | idle =>
    unfold Gateway.advance
    simp only [Gateway.lookup] at hroom
    cases hcall : i.call with
    | getDevinfo name =>
      rw [hcall] at hroom
      exact h.lookup rfl findDevinfo_listed hroom (fun _ => ⟨rfl, rfl⟩) rfl
    | getUnknownDevinfo name =>
      rw [hcall] at hroom
      exact h.lookup rfl findUnknownDevinfo_listed hroom (fun _ => ⟨rfl, rfl⟩) rfl
    | deleteDevice devid =>
      rw [hcall] at hroom
      exact h.lookup rfl findUnknownDevinfo_listed hroom (fun _ => ⟨rfl, rfl⟩) rfl
    | leaveZigbeeDevice ieeeAddr =>
      rw [hcall] at hroom
      exact h.lookup rfl findUnknownDevinfo_listed hroom (fun _ => ⟨rfl, rfl⟩) rfl
    | authoriseDevice devid =>
      rw [hcall] at hroom
      exact h.lookup rfl findDevinfo_listed hroom (fun _ => ⟨rfl, rfl⟩) rfl
    | joinZigbeeDevice j =>
      rw [hcall] at hroom
      dsimp only at hroom ⊢
      split_ifs at hroom ⊢
      · exact h
      · exact h.lookup rfl findDevinfoByIeeeaddr_listed hroom (fun _ => ⟨rfl, rfl⟩) rfl
  | held d => exact h.put rfl rfl
  | look name => exact h.lookup rfl findDevinfo_listed hroom (fun _ => ⟨rfl, rfl⟩) rfl
  | leaving d =>
    obtain ⟨f, hf, heq⟩ := networkLeave_touches (m := m) (d := d) i.cloud
    change Local (m.networkLeave d i.cloud) o q (.delete d none)
    rw [heq]
    exact h.touch hf rfl rfl
  | delete d next => exact h.delete hcond rfl rfl rfl
  | put d next =>
    cases next with
    | none => exact h.put rfl rfl
    | some name => exact h.put rfl rfl
  | authLook devid => exact h.lookup rfl findUnknownDevinfo_listed hroom (fun _ => ⟨rfl, rfl⟩) rfl
  | authorising d =>
    have hauth : Local (m.edit d DevInfo.authorise) o q (.authorising d) := h.authorise rfl rfl
    have hup : Local ((m.edit d DevInfo.authorise).networkUp d i.cloud).1 o q (.authorising d) :=
      hauth.networkUp rfl rfl
    unfold Gateway.advance
    dsimp only
    split_ifs
    · exact hauth.networkUp rfl rfl
    · exact hup.newDevidx rfl rfl
    · exact hup.newDevidx rfl rfl
  | moving d => exact h.move hcond rfl rfl rfl
  | rejoining d j =>
    have hre : Local (m.edit d (DevInfo.rejoin j)) o q (.rejoining d j) := h.rejoin rfl rfl
    exact hre.networkUp rfl rfl
  | joinNew j =>
    unfold Gateway.advance
    dsimp only
    have hjoin : ∀ x, Settled (DevInfo.join j x) := fun _ => ⟨nofun, nofun⟩
    split
    · rename_i m1 hnew
      obtain rfl := newDevinfo_none hnew
      exact h.of_kept .refl (h.refs_idle rfl) rfl nofun
    · rename_i m1 d hnew
      have hmade : Local (m1.edit d (DevInfo.join j)) o q (.joinUp d) := h.make rfl hnew (fun _ => rfl) hjoin rfl rfl
      split_ifs
      · exact hmade.newDevidx rfl rfl
      · exact hmade.newDevidx rfl rfl
      · exact h.make rfl hnew (fun _ => rfl) hjoin rfl rfl
  | joinUp d =>
    have hauth : Local (m.edit d DevInfo.authorise) o q (.joinUp d) := h.authorise rfl rfl
    have hup : Local ((m.edit d DevInfo.authorise).networkUp d i.cloud).1 o q (.joinUp d) :=
      hauth.networkUp rfl rfl
    unfold Gateway.advance
    dsimp only
    split_ifs
    · obtain ⟨b, hb⟩ := Devmgr.releaseDevidx_eq (m := ((m.edit d DevInfo.authorise).networkUp d i.cloud).1) _
      rw [hb]
      exact hup.bitMap b rfl rfl
    · exact hauth.networkUp rfl rfl
  | adding d known => exact h.add rfl hcond rfl
  | discard d => exact h.put rfl rfl

theorem advance_found (h : lookup m i pc = some d) :
    (advance m i pc).1 = m.holdDevinfoRef d ∧ (advance m i pc).2.handle = some d := by
  cases pc with
  | idle =>
    simp only [lookup] at h
    cases hcall : i.call with
    | joinZigbeeDevice j =>
      rw [hcall] at h
      dsimp only at h
      split_ifs at h with hj
      simp [advance, hcall, hj, getDevinfoByIeeeaddr, h, holdFound, onFound, Pc.handle]
    | _ =>
      rw [hcall] at h
      simp [advance, hcall, getDevinfo, getUnknownDevinfo, h, holdFound, onFound, Pc.handle]
  | look name =>
    simp only [lookup] at h
    simp [advance, getDevinfo, h, holdFound, onFound, Pc.handle]
  | authLook devid =>
    simp only [lookup] at h
    simp [advance, getUnknownDevinfo, h, holdFound, onFound, Pc.handle]
  | _ => cases h

/-- A step that does not meet the condition leaves a count that is wrong, or two devices with
    one address. -/
theorem Local.not_advance (h : Local m o q pc) (hm : ¬ Meets m i pc) :
    ¬ (Refs (Gateway.advance m i pc).1 (own o (Gateway.advance m i pc).2)
        (fun d => q d ∨ (Gateway.advance m i pc).2.making = some d) ∧ Addressed (Gateway.advance m i pc).1) := by
  rintro ⟨hrefs, haddr⟩
  refine hm ⟨fun d x hd hx hfull => ?_, ?_⟩
  · obtain ⟨hmgr, hh⟩ := advance_found hd
    rw [hmgr] at hrefs
    exact Refs.not_hold hx hfull (by rw [(adds_own hh).self]; exact Nat.succ_ne_zero _) hrefs
  · have hhandle : ∀ d, pc.handle = some d → own o pc d ≠ 0 := fun d hd => by
      rw [(adds_own hd).self]
      exact Nat.succ_ne_zero _
    cases pc with
    | delete d next =>
      by_contra hd
      obtain ⟨x, hx⟩ := h.refs.some_of_handle (hhandle d rfl)
      exact (h.refs_idle rfl).not_deleteDevinfo hx hd (hhandle d rfl)
        (hrefs.congr (fun _ => rfl) (fun _ => (or_iff_left nofun).symm) (fun _ => rfl) rfl rfl)
    | moving d =>
      by_contra hd
      obtain ⟨x, hx⟩ := h.refs.some_of_handle (hhandle d rfl)
      exact (h.refs_idle rfl).not_moveToDevHead hx hd
        (hrefs.congr (fun _ => rfl) (fun _ => (or_iff_left nofun).symm) (fun _ => rfl) rfl rfl)
    | adding d known =>
      intro e he heq
      obtain ⟨x, hx⟩ := h.refs.some_of_handle (hhandle d rfl)
      have hne : e ≠ d := by
        rintro rfl
        exact ((h.refs.mem e).1 (mem_lists.2 (.inl he))).2 (.inr rfl)
      have hheap : (m.addTail d known).heap = m.heap := by
        rw [addTail, hx]
        split_ifs <;> rfl
      have hmem : ∀ j, j = d ∨ j ∈ m.listed → j ∈ (m.addTail d known).listed := by
        intro j hj
        rw [addTail, hx]
        rw [mem_listed] at hj
        split_ifs <;> simp only [mem_listed, List.mem_append, List.mem_singleton] <;> tauto
      refine hne (haddr e (hmem e (.inr he)) d (hmem d (.inl rfl)) ?_)
      change (m.addTail d known).ieeeAddr e = (m.addTail d known).ieeeAddr d
      rw [ieeeAddr, ieeeAddr, hheap]
      exact heq
    | _ => trivial

/-! ## Runs -/

section
variable [Fintype T] {s : Sys T} {a : Act T}

/-- The counts are right, the devices are in a state of these calls, and a device that is being
    made is with one thread. -/
structure Sys.Inv (s : Sys T) : Prop extends s.Counted where
  settled : ∀ {d x}, s.mgr.heap d = some x → Settled x
  alone : ∀ {t u d}, (s.pc t).making = some d → (s.pc u).handle = some d → t = u

/-- The handles of the other threads. -/
def Sys.others (s : Sys T) (t : T) : ℕ → ℕ :=
  Lib.refs (Function.update (fun t => (s.pc t).handle) t none)

theorem refs_own (t : T) (mgr : Devmgr) (pc : Pc) :
    Lib.refs (fun u => (Sys.mk mgr (Function.update s.pc t pc) |>.pc u).handle) = own (s.others t) pc := by
  have htable : (fun u => (Function.update s.pc t pc u).handle) =
      Function.update (Function.update (fun u => (s.pc u).handle) t none) t pc.handle := by
    funext u
    by_cases hu : u = t
    · subst hu
      simp
    · simp [Function.update_of_ne hu]
  funext d
  change Lib.refs (fun u => (Function.update s.pc t pc u).handle) d = _
  rw [htable, own, Sys.others]
  cases hh : pc.handle with
  | none => rw [Function.update_idem, if_neg (by nofun), Nat.add_zero]
  | some e =>
    rw [refs_hold (Function.update_self ..)]
    simp only [Option.some.injEq, eq_comm]

/-- The devices that the other threads make. -/
def Sys.makes (s : Sys T) (t : T) (d : ℕ) : Prop := ∃ u, u ≠ t ∧ (s.pc u).making = some d

omit [Fintype T] in
theorem makes_iff (t : T) (mgr : Devmgr) (pc : Pc) (d : ℕ) :
    (∃ u, ((Sys.mk mgr (Function.update s.pc t pc)).pc u).making = some d) ↔
      s.makes t d ∨ pc.making = some d := by
  constructor
  · rintro ⟨u, hu⟩
    by_cases hut : u = t
    · subst hut
      exact .inr (by simpa using hu)
    · exact .inl ⟨u, hut, by simpa [Function.update_of_ne hut] using hu⟩
  · rintro (⟨u, hut, hu⟩ | hpc)
    · exact ⟨u, by simpa [Function.update_of_ne hut] using hu⟩
    · exact ⟨t, by simpa using hpc⟩

/-- The counts are right after a step of thread `t` if they are right as it finds them. -/
theorem counted_iff (t : T) (mgr : Devmgr) (pc : Pc) :
    Sys.Counted ⟨mgr, Function.update s.pc t pc⟩ ↔
      Refs mgr (own (s.others t) pc) (fun d => s.makes t d ∨ pc.making = some d) ∧ Addressed mgr := by
  constructor
  · intro h
    exact ⟨h.refs.congr (fun d => by rw [refs_own]) (fun d => (makes_iff t mgr pc d).symm) (fun _ => rfl) rfl rfl,
      h.addr⟩
  · rintro ⟨hr, ha⟩
    exact ⟨hr.congr (fun d => by rw [refs_own]) (makes_iff t mgr pc) (fun _ => rfl) rfl rfl, ha⟩

theorem others_ne_zero {t u : T} (hu : u ≠ t) (hd : (s.pc u).handle = some d) : s.others t d ≠ 0 :=
  fun h => refs_eq_zero.1 h u (by rw [Function.update_of_ne hu]; exact hd)

theorem Sys.Inv.local_ (h : s.Inv) (t : T) : Local s.mgr (s.others t) (s.makes t) (s.pc t) := by
  have hs : s = ⟨s.mgr, Function.update s.pc t (s.pc t)⟩ := by rw [Function.update_eq_self]
  have hc : Sys.Counted ⟨s.mgr, Function.update s.pc t (s.pc t)⟩ := hs ▸ h.toCounted
  obtain ⟨hrefs, haddr⟩ := (counted_iff t s.mgr (s.pc t)).1 hc
  refine ⟨hrefs, haddr, h.settled, fun {d} hd => ?_, ?_, ?_⟩
  · refine refs_eq_zero.2 fun u hu => ?_
    by_cases hut : u = t
    · rw [hut, Function.update_self] at hu
      exact nomatch hu
    · rw [Function.update_of_ne hut] at hu
      exact hut (h.alone hd hu).symm
  · rintro d ⟨u, hut, hu⟩
    exact others_ne_zero hut (Pc.handle_of_making hu)
  · rintro d ⟨u, hut, hu⟩ hd
    exact hut (h.alone hu hd)

theorem Sys.Inv.next (h : s.Inv) (hm : Meets s.mgr a.input (s.pc a.thread)) : (s.next a).Inv := by
  have hl := (h.local_ a.thread).advance hm
  refine ⟨(counted_iff a.thread _ _).2 ⟨hl.refs, hl.addr⟩, hl.settled, fun {t u d} ht hu => ?_⟩
  change (Function.update s.pc a.thread (advance s.mgr a.input (s.pc a.thread)).2 t).making = some d at ht
  change (Function.update s.pc a.thread (advance s.mgr a.input (s.pc a.thread)).2 u).handle = some d at hu
  by_cases hta : t = a.thread
  · rw [hta, Function.update_self] at ht
    by_contra htu
    have hua : u ≠ a.thread := fun hua => htu (hta.trans hua.symm)
    rw [Function.update_of_ne hua] at hu
    exact others_ne_zero hua hu (hl.alone ht)
  · rw [Function.update_of_ne hta] at ht
    by_cases hua : u = a.thread
    · rw [hua, Function.update_self] at hu
      exact absurd hu (hl.others ⟨t, hta, ht⟩)
    · rw [Function.update_of_ne hua] at hu
      exact h.alone ht hu

theorem Sys.Inv.not_next (h : s.Inv) (hm : ¬ Meets s.mgr a.input (s.pc a.thread)) : ¬ (s.next a).Counted :=
  fun hc => (h.local_ a.thread).not_advance hm ((counted_iff a.thread _ _).1 hc)

omit [DecidableEq T] in
theorem inv_init : (Sys.init : Sys T).Inv where
  refs := (Refs.init (p := fun _ => False)).congr (fun _ => refs_none) (fun _ => ⟨fun ⟨_, h⟩ => (nomatch h), False.elim⟩)
    (fun _ => rfl) rfl rfl
  addr := nofun
  settled := fun hx => nomatch hx
  alone := fun hm => nomatch hm

/-- **Reference counts**: along a run of any threads, the counts are right exactly if each step
    finds the device that it deletes or moves on a list, adds a device with an address of its
    own, and has room in the count that it adds to. -/
theorem devinfo_counted_iff (as : List (Act T)) :
    (∀ bs cs, as = bs ++ cs → (bs.foldl Sys.next (Sys.init : Sys T)).Counted) ↔
      ∀ bs a cs, as = bs ++ a :: cs →
        Meets (bs.foldl Sys.next Sys.init).mgr a.input ((bs.foldl Sys.next Sys.init).pc a.thread) :=
  foldl_always_iff (J := Sys.Inv) (C := fun (s : Sys T) (a : Act T) => Meets s.mgr a.input (s.pc a.thread)) (fun _ => True)
    (fun _ h => h.toCounted) (fun _ _ _ h hm => h.next hm) (fun _ _ _ h hm => h.not_next hm)
    (fun _ _ => trivial) inv_init

end

/-! ## Two threads delete one device -/

/-- A device joins. -/
def joinCall : Call := .joinZigbeeDevice ⟨[1, 2, 3, 4, 5, 6, 7, 8], 9, [], [], DEVMGR_PERMITJOIN_ANY_MODEL⟩

/-- Its ID. -/
def joinedId : Str := ieeeaddrString [1, 2, 3, 4, 5, 6, 7, 8]

def act (thread : Fin 2) (call : Call) : Act (Fin 2) := ⟨thread, call, some 0, some [], 0, true⟩

/-- The device joins; then both threads look it up, both delete it, and one puts it. -/
def deletedTwice : List (Act (Fin 2)) :=
  List.replicate 4 (act 0 joinCall) ++ List.replicate 3 (act 0 (.deleteDevice joinedId)) ++
    List.replicate 4 (act 1 (.deleteDevice joinedId)) ++ List.replicate 2 (act 0 joinCall)

theorem devinfo_not_counted : ∃ as : List (Act (Fin 2)), ¬ (as.foldl Sys.next Sys.init).Counted := by
  refine ⟨deletedTwice, fun h => ?_⟩
  have hfree : ((deletedTwice.foldl Sys.next Sys.init).mgr.heap 0) = none := by decide
  have hhandle : ((deletedTwice.foldl Sys.next Sys.init).pc 1).handle = some 0 := by decide
  exact refs_eq_zero.1 ((h.refs.freed 0).1 hfree).1 1 hhandle

end Gateway
