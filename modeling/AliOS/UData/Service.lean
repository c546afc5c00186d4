/-
  The service registry of uData (`framework/uData/service_mgr/service_mgr.c`).

  The registry is an array of pointers and a count; `table` is the part of it below
  the count.  A run keeps beside it the services that were registered and not
  unregistered since, and the array holds these as long as only the service of the
  last slot is unregistered and no service is registered over the end of the array.
-/
import AliOS.Lib.Trans

namespace UData

open Lib

/-- `udata_type_e` -/
inductive UDataType
  | acc | mag | gyro | als | ps | baro | temp | uv | humi | hall | hr | pedometer | pdr | vdr
  deriving DecidableEq, Repr

def UDATA_MAX_CNT : ℕ := 14

/-- `sensor_tag_e` -/
inductive SensorTag
  | acc | mag | gyro | als | ps | baro | temp | uv | humi | hall | hr
  deriving DecidableEq, Repr

/-- `dev_sensor_config_t` -/
structure Config where
  id : ℕ
  range : ℕ
  odr : ℕ
  deriving DecidableEq, Repr

/-- `uData_service_t`; the callbacks are function pointers. -/
structure Service where
  type : UDataType
  tag : SensorTag
  subscribe : Bool
  running : Bool
  config : Config
  serviceProcessCb : Option ℕ
  serviceIoctlCb : Option ℕ
  deriving DecidableEq, Repr

/-- What `memset` leaves. -/
def Service.zero : Service :=
  { type := .acc, tag := .acc, subscribe := false, running := false, config := ⟨0, 0, 0⟩
    serviceProcessCb := none, serviceIoctlCb := none }

/-- `g_service_db` and `g_service_cnt`: `db i` is the service that slot `i` points to.
    `fault` is set by a write past the end of the array. -/
structure Mgr where
  db : ℕ → Service
  cnt : ℕ
  fault : Bool

/-- `uData_service_mgr_init` -/
def Mgr.init : Mgr := ⟨fun _ => .zero, 0, false⟩

/-- The slots that the loops over the array look at. -/
def Mgr.table (m : Mgr) : List Service := (List.range m.cnt).map m.db

/-- `uData_find_service`: the first slot with the type. -/
def Mgr.findService (m : Mgr) (type : UDataType) : Option ℕ :=
  m.table.findIdx? (fun s => decide (s.type = type))

/-- What `uData_service_register` makes of the caller's service. -/
def Service.registered (s : Service) : Service :=
  { Service.zero with
    type := s.type, tag := s.tag, config := { id := 0, range := s.config.range, odr := s.config.odr }
    serviceProcessCb := s.serviceProcessCb, serviceIoctlCb := s.serviceIoctlCb
    running := true, subscribe := false }

/-- `uData_service_register`: `malloc` and `opened` say whether `aos_malloc` and
    `abs_data_open` succeed; the result says whether it returns 0. -/
def Mgr.serviceRegister (m : Mgr) (service : Option Service) (malloc opened : Bool) : Mgr × Bool :=
  match service with
  | none => (m, false)
  | some s =>
    -- the pointer is stored in slot `g_service_cnt`, whatever that is
    let m := { m with fault := m.fault || decide (UDATA_MAX_CNT ≤ m.cnt) }
    if !malloc then (m, false)
    else if !opened then (m, false)
    else ({ m with db := Function.update m.db m.cnt s.registered, cnt := m.cnt + 1 }, true)

/-- `uData_service_unregister`: the slot found is cleared, and the count goes down. -/
def Mgr.serviceUnregister (m : Mgr) (type : UDataType) (closed : Bool) : Mgr × Bool :=
  match m.findService type with
  | none => (m, false)
  | some index =>
    if !closed then (m, false)
    else
      let m := { m with db := Function.update m.db index .zero }
      (if 0 < m.cnt then { m with cnt := m.cnt - 1 } else m, true)

/-- `uData_service_subscribe` -/
def Mgr.serviceSubscribe (m : Mgr) (type : UDataType) (opened : Bool) : Mgr × Bool :=
  match m.findService type with
  | none => (m, false)
  | some index =>
    if (m.db index).running ≠ true ∧ opened = false then (m, false)
    else ({ m with db := Function.update m.db index { m.db index with subscribe := true, running := true } }, true)

/-- `uData_service_unsubscribe`: `running` stays. -/
def Mgr.serviceUnsubscribe (m : Mgr) (type : UDataType) (closed : Bool) : Mgr × Bool :=
  match m.findService type with
  | none => (m, false)
  | some index =>
    if (m.db index).running ≠ false ∧ closed = false then (m, false)
    else ({ m with db := Function.update m.db index { m.db index with subscribe := false } }, true)

/-- A call, with the outcomes of what it calls. -/
inductive Act
  | register (service : Option Service) (malloc opened : Bool)
  | unregister (type : UDataType) (closed : Bool)
  | subscribe (type : UDataType) (opened : Bool)
  | unsubscribe (type : UDataType) (closed : Bool)

def Mgr.call (m : Mgr) : Act → Mgr × Bool
  | .register s malloc opened => m.serviceRegister s malloc opened
  | .unregister type closed => m.serviceUnregister type closed
  | .subscribe type opened => m.serviceSubscribe type opened
  | .unsubscribe type closed => m.serviceUnsubscribe type closed

/-! ## What the registry is for -/

/-- The registry as a collection of services, the oldest first. -/
abbrev Registry := List Service

/-- The first service with the type is changed. -/
def Registry.change (r : Registry) (type : UDataType) (f : Service → Service) : Registry :=
  r.modify (r.findIdx (fun s => decide (s.type = type))) f

/-- What a call that returned 0 does to the collection. -/
def Registry.after (r : Registry) : Act → Registry
  | .register s _ _ => r ++ s.toList.map Service.registered
  | .unregister type _ => r.eraseP (fun s => decide (s.type = type))
  | .subscribe type _ => r.change type fun s => { s with subscribe := true, running := true }
  | .unsubscribe type _ => r.change type fun s => { s with subscribe := false }

/-- The registry, and beside it the services registered and not unregistered since. -/
structure World where
  mgr : Mgr
  registered : Registry

def World.start : World := ⟨Mgr.init, []⟩

def World.step (w : World) (a : Act) : World :=
  let (mgr, ok) := w.mgr.call a
  ⟨mgr, if ok then w.registered.after a else w.registered⟩

/-- The array is the set: the services below the count are the registered ones with their
    tags, callbacks and flags; a service is found exactly if one of its type is
    registered; and the count stays in the array. -/
structure Refines (w : World) : Prop where
  find : ∀ type, (w.mgr.findService type).isSome ↔ ∃ s ∈ w.registered, s.type = type
  table : w.mgr.table.Perm w.registered
  count : w.mgr.cnt ≤ UDATA_MAX_CNT
  fault : w.mgr.fault = false

/-- No service is registered when the array is full, and only the service of the last
    slot is unregistered. -/
def Meets (m : Mgr) : Act → Prop
  | .register s _ _ => s ≠ none → m.cnt < UDATA_MAX_CNT
  | .unregister type closed => closed = true → ∀ index, m.findService type = some index → index + 1 = m.cnt
  | _ => True

/-! ## The table -/

variable {m : Mgr} {w : World} {type : UDataType} {index i : ℕ} {s : Service}

@[simp] theorem Mgr.table_length : m.table.length = m.cnt := by simp [Mgr.table]

theorem Mgr.table_getElem? (h : i < m.cnt) : m.table[i]? = some (m.db i) := by
  simp [Mgr.table, h]

theorem Mgr.table_set (m : Mgr) (i : ℕ) (s : Service) :
    ({ m with db := Function.update m.db i s } : Mgr).table = m.table.set i s := by
  apply List.ext_getElem?
  intro j
  rw [List.getElem?_set]
  by_cases hj : j < m.cnt
  · by_cases hij : i = j
    · subst hij
      simp [Mgr.table, hj]
    · rw [if_neg hij]
      simp [Mgr.table, hj, Function.update_of_ne (Ne.symm hij)]
  · have hle : i = j → m.cnt ≤ i := by
      intro h
      omega
    simpa [Mgr.table, hj] using hle

theorem Mgr.table_pred (m : Mgr) : ({ m with cnt := m.cnt - 1 } : Mgr).table = m.table.dropLast := by
  apply List.ext_getElem?
  intro j
  rw [List.getElem?_dropLast]
  by_cases hj : j < m.cnt - 1
  · have hj' : j < m.cnt := by omega
    simp [Mgr.table, hj, hj']
  · simp [Mgr.table, hj]

theorem Mgr.table_push (m : Mgr) (s : Service) (b : Bool) :
    (⟨Function.update m.db m.cnt s, m.cnt + 1, b⟩ : Mgr).table = m.table ++ [s] := by
  have hold : (List.range m.cnt).map (Function.update m.db m.cnt s) = (List.range m.cnt).map m.db := by
    refine List.map_congr_left ?_
    intro j hj
    exact Function.update_of_ne (Nat.ne_of_lt (List.mem_range.1 hj)) _ _
  simp [Mgr.table, List.range_succ, hold]

theorem Mgr.findService_some (h : m.findService type = some index) :
    index < m.cnt ∧ (m.db index).type = type := by
  rw [Mgr.findService, List.findIdx?_eq_some_iff_getElem] at h
  obtain ⟨hlt, hp, -⟩ := h
  refine ⟨by simpa using hlt, ?_⟩
  simpa [Mgr.table] using hp

theorem Mgr.findService_isSome :
    (m.findService type).isSome ↔ ∃ s ∈ m.table, s.type = type := by
  rw [Mgr.findService, List.findIdx?_isSome, List.any_eq_true]
  simp

theorem Mgr.findIdx_of_findService (h : m.findService type = some index) :
    m.table.findIdx (fun s => decide (s.type = type)) = index := by
  rw [Mgr.findService, List.findIdx?_eq_some_iff_findIdx_eq] at h
  exact h.2

theorem Mgr.eraseP_of_findService (h : m.findService type = some index) :
    m.table.eraseP (fun s => decide (s.type = type)) = m.table.eraseIdx index := by
  rw [List.eraseP_eq_eraseIdx]
  rw [Mgr.findService] at h
  rw [h]

theorem Mgr.change_of_findService (h : m.findService type = some index) (f : Service → Service) :
    Registry.change m.table type f = m.table.set index (f (m.db index)) := by
  rw [Registry.change, Mgr.findIdx_of_findService h, List.modify_eq_set_getElem?,
    Mgr.table_getElem? (Mgr.findService_some h).1]
  simp

/-! ## One call -/

/-- The array holds the registered services in order, all of them running. -/
structure Inv (w : World) : Prop where
  table : w.mgr.table = w.registered
  running : ∀ s ∈ w.registered, s.running = true
  count : w.mgr.cnt ≤ UDATA_MAX_CNT
  fault : w.mgr.fault = false

theorem Inv.refines (h : Inv w) : Refines w := by
  refine ⟨?_, ?_, h.count, h.fault⟩
  · intro type
    rw [Mgr.findService_isSome, h.table]
  · rw [h.table]

theorem Inv.start : Inv World.start := by
  constructor <;> simp [World.start, Mgr.init, Mgr.table]

theorem Inv.register {service : Option Service} {malloc opened : Bool} (h : Inv w)
    (hm : service ≠ none → w.mgr.cnt < UDATA_MAX_CNT) : Inv (w.step (.register service malloc opened)) := by
  cases service with
  | none => exact h
  | some s =>
    have hlt : w.mgr.cnt < UDATA_MAX_CNT := hm (Option.some_ne_none s)
    have hf : (w.mgr.fault || decide (UDATA_MAX_CNT ≤ w.mgr.cnt)) = false := by
      rw [h.fault, decide_eq_false (Nat.not_le.2 hlt)]
      rfl
    cases malloc with
    | false => exact ⟨h.table, h.running, h.count, hf⟩
    | true =>
      cases opened with
      | false => exact ⟨h.table, h.running, h.count, hf⟩
      | true =>
        refine ⟨?_, ?_, hlt, hf⟩
        · exact (Mgr.table_push w.mgr _ _).trans (congrArg (· ++ [s.registered]) h.table)
        · intro x hx
          rcases List.mem_append.1 hx with hx | hx
          · exact h.running x hx
          · rw [List.mem_singleton.1 hx]
            rfl

theorem World.step_unregister (h : w.mgr.findService type = some index) :
    w.step (.unregister type true) =
      ⟨{ w.mgr with db := Function.update w.mgr.db index .zero, cnt := w.mgr.cnt - 1 },
        w.registered.after (.unregister type true)⟩ := by
  have hpos : 0 < w.mgr.cnt := by
    have := (Mgr.findService_some h).1
    omega
  simp [World.step, Mgr.call, Mgr.serviceUnregister, h, hpos]

theorem Inv.unregister {closed : Bool} (h : Inv w)
    (hm : closed = true → ∀ index, w.mgr.findService type = some index → index + 1 = w.mgr.cnt) :
    Inv (w.step (.unregister type closed)) := by
  cases hf : w.mgr.findService type with
  | none =>
    have hs : w.step (.unregister type closed) = w := by
      simp [World.step, Mgr.call, Mgr.serviceUnregister, hf]
    rwa [hs]
  | some index =>
    cases closed with
    | false =>
      have hs : w.step (.unregister type false) = w := by
        simp [World.step, Mgr.call, Mgr.serviceUnregister, hf]
      rwa [hs]
    | true =>
      rw [World.step_unregister hf]
      have hlast := hm rfl index hf
      refine ⟨?_, ?_, ?_, h.fault⟩
      · have hset := Mgr.table_set { w.mgr with cnt := w.mgr.cnt - 1 } index .zero
        refine hset.trans ?_
        rw [Mgr.table_pred, Registry.after, ← h.table, Mgr.eraseP_of_findService hf]
        have hlen : index = w.mgr.table.length - 1 := by
          rw [Mgr.table_length]
          omega
        rw [hlen, List.eraseIdx_length_sub_one, List.set_eq_of_length_le (by simp)]
      · intro s hs
        exact h.running s (List.mem_of_mem_eraseP hs)
      · have := h.count
        exact Nat.le_trans (Nat.sub_le _ _) this

theorem Inv.change {f : Service → Service} (h : Inv w) (hf : w.mgr.findService type = some index)
    (hr : ∀ s, s.running = true → (f s).running = true) :
    Inv ⟨{ w.mgr with db := Function.update w.mgr.db index (f (w.mgr.db index)) }, w.registered.change type f⟩ := by
  have hreg : w.registered.change type f = w.mgr.table.set index (f (w.mgr.db index)) := by
    rw [← h.table, Mgr.change_of_findService hf]
  refine ⟨?_, ?_, h.count, h.fault⟩
  · exact (Mgr.table_set w.mgr _ _).trans hreg.symm
  · intro s hs
    change s ∈ w.registered.change type f at hs
    rw [hreg] at hs
    rcases List.mem_or_eq_of_mem_set hs with hs | hs
    · exact h.running s (h.table ▸ hs)
    · subst hs
      refine hr _ (h.running _ ?_)
      rw [← h.table]
      exact List.mem_of_getElem? (Mgr.table_getElem? (Mgr.findService_some hf).1)

theorem Inv.subscribe {opened : Bool} (h : Inv w) : Inv (w.step (.subscribe type opened)) := by
  cases hf : w.mgr.findService type with
  | none =>
    have hs : w.step (.subscribe type opened) = w := by
      simp [World.step, Mgr.call, Mgr.serviceSubscribe, hf]
    rwa [hs]
  | some index =>
    by_cases ho : (w.mgr.db index).running ≠ true ∧ opened = false
    · have hs : w.step (.subscribe type opened) = w := by
        simp only [World.step, Mgr.call, Mgr.serviceSubscribe, hf, if_pos ho]
        rfl
      rwa [hs]
    · have hc := h.change hf (f := fun s => { s with subscribe := true, running := true }) fun _ _ => rfl
      simpa only [World.step, Mgr.call, Mgr.serviceSubscribe, hf, if_neg ho, ↓reduceIte, Registry.after] using hc

theorem Inv.unsubscribe {closed : Bool} (h : Inv w) : Inv (w.step (.unsubscribe type closed)) := by
  cases hf : w.mgr.findService type with
  | none =>
    have hs : w.step (.unsubscribe type closed) = w := by
      simp [World.step, Mgr.call, Mgr.serviceUnsubscribe, hf]
    rwa [hs]
  | some index =>
    by_cases ho : (w.mgr.db index).running ≠ false ∧ closed = false
    · have hs : w.step (.unsubscribe type closed) = w := by
        simp only [World.step, Mgr.call, Mgr.serviceUnsubscribe, hf, if_pos ho]
        rfl
      rwa [hs]
    · have hc := h.change hf (f := fun s => { s with subscribe := false }) fun _ hs => hs
      simpa only [World.step, Mgr.call, Mgr.serviceUnsubscribe, hf, if_neg ho, ↓reduceIte, Registry.after] using hc

theorem Inv.step {a : Act} (h : Inv w) (hm : Meets w.mgr a) : Inv (w.step a) := by
  cases a with
  | register => exact h.register hm
  | unregister => exact h.unregister hm
  | subscribe => exact h.subscribe
  | unsubscribe => exact h.unsubscribe

/-- A call that does not meet the condition leaves a cleared service below the count, or
    writes past the array. -/
theorem Inv.not_refines {a : Act} (h : Inv w) (hm : ¬ Meets w.mgr a) : ¬ Refines (w.step a) := by
  intro hr
  cases a with
  | register service malloc opened =>
    cases service with
    | none => exact hm fun hn => absurd rfl hn
    | some s =>
      have hfull : UDATA_MAX_CNT ≤ w.mgr.cnt := by
        by_contra hlt
        exact hm fun _ => Nat.not_le.1 hlt
      have hfault := hr.fault
      cases malloc <;> cases opened <;>
        simp [World.step, Mgr.call, Mgr.serviceRegister, hfull] at hfault
  | unregister type closed =>
    simp only [Meets, not_forall] at hm
    obtain ⟨rfl, index, hf, hlast⟩ := hm
    have hlt : index + 1 < w.mgr.cnt := by
      have := (Mgr.findService_some hf).1
      omega
    rw [World.step_unregister hf] at hr
    have hmem : Service.zero ∈ w.registered.eraseP (fun s => decide (s.type = type)) := by
      refine hr.table.subset ?_
      refine List.mem_map.2 ⟨index, List.mem_range.2 (Nat.lt_sub_of_add_lt hlt), ?_⟩
      exact Function.update_self ..
    exact Bool.false_ne_true (h.running _ (List.mem_of_mem_eraseP hmem))
  | subscribe => exact hm trivial
  | unsubscribe => exact hm trivial

/-! ## Runs -/

/-- The registry after the calls. -/
def World.after (as : List Act) : World := as.foldl World.step World.start

/-- **The registry is a set** after every call of a run exactly if no call of the run
    registers into a full array or unregisters a service that is not the last. -/
theorem service_registry_refines_iff (as : List Act) :
    (∀ bs cs, as = bs ++ cs → Refines (World.after bs)) ↔
      ∀ bs a cs, as = bs ++ a :: cs → Meets (World.after bs).mgr a :=
  foldl_always_iff (fun _ => True) (fun _ h => h.refines) (fun _ _ _ h hm => h.step hm)
    (fun _ _ _ h hm => h.not_refines hm) (fun _ _ => trivial) Inv.start

/-- Two services, and the first is unregistered: the second is not found any more. -/
theorem service_registry_not_refines :
    ∃ as, (World.after as).registered.any (fun s => decide (s.type = .baro)) = true ∧
      (World.after as).mgr.findService .baro = none ∧ ¬ Refines (World.after as) := by
  let acc : Service := { Service.zero with type := .acc, tag := .acc }
  let baro : Service := { Service.zero with type := .baro, tag := .baro }
  refine ⟨[.register (some acc) true true, .register (some baro) true true, .unregister .acc true],
    by decide, by decide, ?_⟩
  intro h
  have hf := (h.find .baro).2 ⟨baro.registered, by decide, rfl⟩
  exact absurd hf (by decide)

end UData
