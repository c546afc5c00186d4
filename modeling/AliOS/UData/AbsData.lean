/-
  The sensor model of uData (`framework/uData/abs_data_model/abs_data_model.c`).

  All sensors share one timer.  Whether it runs is said in three places: in the timer,
  in `is_timer_work`, and by the powered-on sensors.  The calls keep these in
  agreement exactly under the condition `AbsData.Meets`.
-/
import AliOS.UData.Service
import Mathlib.Data.Int.Notation

namespace UData

open Lib

def DEFAULT_TIMER_INTERVAL : ℕ := 1000

def HZ_2_INTERVAL (hz : ℕ) : ℕ := if hz ≠ 0 then 1000 / hz else 0

theorem HZ_2_INTERVAL_le (hz : ℕ) : HZ_2_INTERVAL hz ≤ DEFAULT_TIMER_INTERVAL := by
  rw [HZ_2_INTERVAL]
  split
  · exact Nat.div_le_self _ _
  · exact Nat.zero_le _

def SENSOR_IOCTL_ODR_SET : ℕ := 1
def SENSOR_IOCTL_RANGE_SET : ℕ := 2

/-- The timer of the kernel: whether it is active, `init_count` and `round_ticks` (0 for a
    timer that fires once). -/
structure Timer where
  active : Bool
  first : ℕ
  round : ℕ
  deriving DecidableEq

/-- `aos_timer_start` -/
def Timer.start (t : Timer) : Timer := { t with active := true }

/-- `aos_timer_stop` -/
def Timer.stop (t : Timer) : Timer := { t with active := false }

/-- `aos_timer_change`: only a timer that is stopped is changed. -/
def Timer.change (t : Timer) (ms : ℕ) : Timer :=
  if ms = 0 ∨ t.active then t else { t with first := ms, round := ms }

/-- The timer fires: one without rounds is then stopped. -/
def Timer.expire (t : Timer) : Timer := if 0 < t.round then t else t.stop

/-- `abs_data_pkg_t`: what is kept of an opened sensor. -/
structure AbsDataPkg where
  tag : SensorTag
  poweron : Bool
  interval : ℕ
  deriving DecidableEq

/-- The variables of the file: `g_abs_data_db` below `abs_data_cnt`, and the descriptors of
    `g_sensor_node`.  `fault` is set by an access to `g_abs_data_db[-1]`. -/
structure AbsData where
  isTimerWork : Bool
  curInterval : ℕ
  db : List AbsDataPkg
  timer : Timer
  fd : SensorTag → ℤ
  fault : Bool

/-- `abs_data_model_init` -/
def AbsData.init : AbsData :=
  { isTimerWork := false, curInterval := DEFAULT_TIMER_INTERVAL, db := []
    timer := ⟨false, DEFAULT_TIMER_INTERVAL, 0⟩, fd := fun _ => 0, fault := false }

/-- What the calls of one operation return: `aos_open`, `aos_ioctl` with each command, the
    timer calls, and `aos_malloc`. -/
structure Outcome where
  fd : ℤ
  odr : ℤ
  range : ℤ
  power : ℤ
  stop : Bool
  change : Bool
  start : Bool
  malloc : Bool

/-- The driver and the timer succeed. -/
structure Outcome.Succeeds (o : Outcome) : Prop where
  fd : 0 < o.fd
  odr : 0 ≤ o.odr
  range : 0 ≤ o.range
  power : 0 < o.power
  stop : o.stop = true
  change : o.change = true
  start : o.start = true

def AbsData.getObjIndex (m : AbsData) (tag : SensorTag) : Option ℕ :=
  m.db.findIdx? (fun p => decide (p.tag = tag))

def AbsData.devEnable (m : AbsData) (o : Outcome) : AbsData × Bool :=
  if m.isTimerWork then (m, true)
  else if !o.start then (m, false)
  else ({ m with timer := m.timer.start }, true)

def AbsData.devDisable (m : AbsData) (o : Outcome) : AbsData × Bool :=
  if !m.isTimerWork then (m, true)
  else if !o.stop then (m, false)
  else ({ m with timer := m.timer.stop }, true)

def AbsData.timerUpdate (m : AbsData) (interval : ℕ) (o : Outcome) : AbsData × Bool :=
  if interval = 0 then (m, false)
  -- no need to change the interval
  else if m.curInterval < interval then (m, true)
  else if !o.stop then (m, false)
  else if !o.change then ({ m with timer := m.timer.stop }, false)
  else if !o.start then ({ m with timer := m.timer.stop.change interval }, false)
  else
    ({ m with
        timer := (m.timer.stop.change interval).start
        isTimerWork := true
        curInterval := interval }, true)

def AbsData.createObjCtx (m : AbsData) (interval : ℕ) (service : Service) (o : Outcome) : AbsData × Bool :=
  if !o.malloc then (m, false)
  else ({ m with db := m.db ++ [{ tag := service.tag, poweron := true, interval := interval }] }, true)

/-- `poweron` of the slot is set. -/
def AbsData.setPower (m : AbsData) (index : ℕ) (on : Bool) : AbsData :=
  { m with db := m.db.modify index fun p => { p with poweron := on } }

/-- `abs_data_open`; `devTree` is `abs_data_check_dev_tree`. -/
def AbsData.dataOpen (devTree : SensorTag → Bool) (m : AbsData) (service : Option Service) (o : Outcome) :
    AbsData × Bool :=
  match service with
  | none => (m, false)
  | some s =>
    if !devTree s.tag then (m, false)
    else
      let interval := HZ_2_INTERVAL s.config.odr
      match m.timerUpdate interval o with
      | (m, false) => (m, false)
      | (m, true) =>
        match m.getObjIndex s.tag with
        | some index =>
          if m.db[index]?.any (fun p => p.poweron) then (m, true)
          else if o.power ≤ 0 then (m, false)
          else (m.setPower index true, true)
        | none =>
          if o.fd ≤ 0 then (m, false)
          else
            let m := { m with fd := Function.update m.fd s.tag o.fd }
            if s.config.id &&& SENSOR_IOCTL_ODR_SET ≠ 0 ∧ o.odr < 0 then (m, false)
            else if s.config.id &&& SENSOR_IOCTL_RANGE_SET ≠ 0 ∧ o.range < 0 then (m, false)
            else m.createObjCtx interval s o

/-- The loop of `abs_data_close` over the opened sensors. -/
def AbsData.closeLoop (m : AbsData) : List AbsDataPkg → AbsData
  | [] => m
  | p :: ps =>
    if p.poweron then m
    else AbsData.closeLoop (if m.isTimerWork then { m with timer := m.timer.stop } else m) ps

/-- `abs_data_close` -/
def AbsData.dataClose (m : AbsData) (tag : SensorTag) (o : Outcome) : AbsData × Bool :=
  if m.fd tag ≤ 0 then (m, false)
  else if o.power < 0 then (m, false)
  else
    match m.getObjIndex tag with
    | none => ({ m with fault := true }, false)
    | some index =>
      let m := m.setPower index false
      (m.closeLoop m.db, true)

/-- An operation, or the timer firing. -/
inductive SensorAct
  | devOpen (service : Option Service)
  | devClose (tag : SensorTag)
  | devEnable (tag : SensorTag)
  | devDisable (tag : SensorTag)
  | expire

def AbsData.step (devTree : SensorTag → Bool) (m : AbsData) : SensorAct × Outcome → AbsData
  | (.devOpen service, o) => (m.dataOpen devTree service o).1
  | (.devClose tag, o) => (m.dataClose tag o).1
  | (.devEnable _, o) => (m.devEnable o).1
  | (.devDisable _, o) => (m.devDisable o).1
  | (.expire, _) => if m.timer.active then { m with timer := m.timer.expire } else m

/-! ## The property -/

/-- Some opened sensor is powered on. -/
def AbsData.On (m : AbsData) : Prop := ∃ p ∈ m.db, p.poweron = true

/-- The timer runs while a sensor is powered on, `is_timer_work` says whether it does, its
    period is at most the interval of each powered-on sensor, and it is stopped when none is. -/
structure Sampling (m : AbsData) : Prop where
  running : m.On → m.timer.active = true
  work : m.isTimerWork = m.timer.active
  period : ∀ p ∈ m.db, p.poweron = true →
    m.timer.first ≤ p.interval ∧ 0 < m.timer.round ∧ m.timer.round ≤ p.interval
  stopped : ¬ m.On → m.timer.active = false
  fault : m.fault = false

/-- The sensor opened first, which the close loop looks at first, is powered on. -/
def AbsData.HeadOn (m : AbsData) (tag : SensorTag) : Prop :=
  ∃ p, m.db.head? = some p ∧ p.poweron = true ∧ p.tag ≠ tag

/-- When a call keeps the timer and the sensors in agreement: `abs_data_close` of an opened
    sensor leaves the sensor opened first powered on; `abs_data_dev_enable` is called while
    `is_timer_work` is set and `abs_data_dev_disable` while it is not; and `abs_data_open` has the
    memory for a first sensor. -/
def AbsData.Meets (devTree : SensorTag → Bool) (m : AbsData) : SensorAct × Outcome → Prop
  | (.devOpen service, o) => ∀ s ∈ service, devTree s.tag = true → HZ_2_INTERVAL s.config.odr ≠ 0 →
      m.isTimerWork = false → o.malloc = true
  | (.devClose tag, _) => 0 < m.fd tag → m.getObjIndex tag ≠ none ∧ m.HeadOn tag
  | (.devEnable _, _) => m.isTimerWork = true
  | (.devDisable _, _) => m.isTimerWork = false
  | (.expire, _) => True

/-! ## What the timer says -/

variable {devTree : SensorTag → Bool} {m m' : AbsData} {o : Outcome} {tag : SensorTag} {interval : ℕ}

/-- What every call keeps, whatever the condition: the timer has the interval that is the
    smallest seen, and nothing is open before the first interval is set. -/
structure Kept (m : AbsData) : Prop where
  idle : m.isTimerWork = false → m.curInterval = DEFAULT_TIMER_INTERVAL ∧ m.db = []
  timer : m.isTimerWork = true → m.timer.first = m.curInterval ∧ m.timer.round = m.curInterval
  pos : 0 < m.curInterval
  least : ∀ p ∈ m.db, m.curInterval ≤ p.interval

/-- The timer runs, and `is_timer_work` says so. -/
structure Armed (m : AbsData) : Prop where
  kept : Kept m
  work : m.isTimerWork = true
  active : m.timer.active = true
  fault : m.fault = false

theorem Armed.sampling (h : Armed m) (hon : m.On) : Sampling m := by
  obtain ⟨hf, hr⟩ := h.kept.timer h.work
  refine ⟨fun _ => h.active, h.work.trans h.active.symm, ?_, fun hn => absurd hon hn, h.fault⟩
  intro p hp _
  have hle := h.kept.least p hp
  rw [hf, hr]
  exact ⟨hle, h.kept.pos, hle⟩

theorem Sampling.armed (h : Sampling m) (hk : Kept m) (hw : m.isTimerWork = true) : Armed m :=
  ⟨hk, hw, h.work ▸ hw, h.fault⟩

theorem Sampling.on (h : Sampling m) (hw : m.isTimerWork = true) : m.On := by
  by_contra hn
  rw [h.work, h.stopped hn] at hw
  exact Bool.false_ne_true hw

theorem Armed.setFd (h : Armed m) (fd : SensorTag → ℤ) : Armed { m with fd := fd } :=
  ⟨⟨h.kept.idle, h.kept.timer, h.kept.pos, h.kept.least⟩, h.work, h.active, h.fault⟩

/-- A change of the sensors, which are not sampled faster than the timer runs. -/
theorem Armed.setDb {db : List AbsDataPkg} (h : Armed m) (hl : ∀ p ∈ db, m.curInterval ≤ p.interval) :
    Armed { m with db := db } := by
  refine ⟨⟨?_, h.kept.timer, h.kept.pos, hl⟩, h.work, h.active, h.fault⟩
  intro hw
  exact absurd (h.work.symm.trans hw) Bool.noConfusion

theorem mem_modify {p : AbsDataPkg} {l : List AbsDataPkg} {i : ℕ} {f : AbsDataPkg → AbsDataPkg}
    (h : p ∈ l.modify i f) : ∃ q ∈ l, p = q ∨ p = f q := by
  obtain ⟨j, hj⟩ := List.getElem?_of_mem h
  rw [List.getElem?_modify] at hj
  obtain ⟨q, hq, rfl⟩ := Option.map_eq_some_iff.1 hj
  refine ⟨q, List.mem_of_getElem? hq, ?_⟩
  by_cases hij : i = j
  · right
    rw [if_pos hij]
  · left
    rw [if_neg hij]

theorem Armed.setPower (h : Armed m) (index : ℕ) (on : Bool) : Armed (m.setPower index on) := by
  refine h.setDb ?_
  intro p hp
  obtain ⟨q, hq, rfl | rfl⟩ := mem_modify hp
  · exact h.kept.least p hq
  · exact h.kept.least q hq

/-! ## One call -/

theorem AbsData.timerUpdate_cases (hs : o.Succeeds) :
    (interval = 0 ∧ m.timerUpdate interval o = (m, false)) ∨
    (interval ≠ 0 ∧ m.curInterval < interval ∧ m.timerUpdate interval o = (m, true)) ∨
    (interval ≠ 0 ∧ interval ≤ m.curInterval ∧ m.timerUpdate interval o =
      ({ m with timer := ⟨true, interval, interval⟩, isTimerWork := true, curInterval := interval }, true)) := by
  by_cases h0 : interval = 0
  · exact .inl ⟨h0, if_pos h0⟩
  · by_cases hlt : m.curInterval < interval
    · refine .inr (.inl ⟨h0, hlt, ?_⟩)
      rw [AbsData.timerUpdate, if_neg h0, if_pos hlt]
    · refine .inr (.inr ⟨h0, Nat.not_lt.1 hlt, ?_⟩)
      simp [AbsData.timerUpdate, h0, hlt, hs.stop, hs.change, hs.start, Timer.change, Timer.stop, Timer.start]

theorem AbsData.timerUpdate_armed (hs : o.Succeeds) (hk : Kept m) (hm : Sampling m) (h0 : interval ≠ 0)
    (hle : interval ≤ DEFAULT_TIMER_INTERVAL) :
    ∃ m', m.timerUpdate interval o = (m', true) ∧ Armed m' ∧ m'.db = m.db ∧ m'.curInterval ≤ interval := by
  have hcases : (interval = 0 ∧ _) ∨ (interval ≠ 0 ∧ m.curInterval < interval ∧ _) ∨ _ :=
    AbsData.timerUpdate_cases hs
  obtain ⟨h, -⟩ | ⟨-, hlt, heq⟩ | ⟨-, hcur, heq⟩ := hcases
  · exact absurd h h0
  · refine ⟨m, heq, hm.armed hk ?_, rfl, Nat.le_of_lt hlt⟩
    by_contra hw
    have := (hk.idle (Bool.eq_false_iff.2 hw)).1
    omega
  · refine ⟨_, heq, ⟨⟨nofun, fun _ => ⟨rfl, rfl⟩, Nat.pos_of_ne_zero h0, ?_⟩, rfl, rfl, hm.fault⟩, rfl, Nat.le_refl _⟩
    intro p hp
    exact Nat.le_trans hcur (hk.least p hp)

/-- The part of `abs_data_open` after the interval is set: it ends with a sensor powered on,
    or without the memory for it. -/
theorem AbsData.dataOpen_cases {s : Service} (hs : o.Succeeds) (hk : Kept m) (hm : Sampling m)
    (ht : devTree s.tag = true) (h0 : HZ_2_INTERVAL s.config.odr ≠ 0) :
    Armed (m.dataOpen devTree (some s) o).1 ∧
      if o.malloc = false ∧ m.getObjIndex s.tag = none then (m.dataOpen devTree (some s) o).1.db = m.db
      else (m.dataOpen devTree (some s) o).1.On := by
  obtain ⟨m', heq, ha, hdb, hcur⟩ := AbsData.timerUpdate_armed hs hk hm h0 (HZ_2_INTERVAL_le _)
  have hsame : m.getObjIndex s.tag = m'.getObjIndex s.tag := by
    rw [AbsData.getObjIndex, AbsData.getObjIndex, hdb]
  rw [hsame]
  cases hi : m'.getObjIndex s.tag with
  | some index =>
    rw [if_neg (fun h => Option.some_ne_none index h.2)]
    have hlt : index < m'.db.length := by
      rw [AbsData.getObjIndex, List.findIdx?_eq_some_iff_getElem] at hi
      exact hi.1
    by_cases hp : m'.db[index].poweron = true
    · have hopen : m.dataOpen devTree (some s) o = (m', true) := by
        simp [AbsData.dataOpen, ht, heq, hi, hlt, hp]
      rw [hopen]
      exact ⟨ha, _, List.getElem_mem hlt, hp⟩
    · have hopen : m.dataOpen devTree (some s) o = (m'.setPower index true, true) := by
        simp [AbsData.dataOpen, ht, heq, hi, hlt, hp, hs.power]
      rw [hopen]
      refine ⟨ha.setPower index true, { m'.db[index] with poweron := true }, ?_, rfl⟩
      refine List.mem_of_getElem? (i := index) ?_
      simp [AbsData.setPower, hlt]
  | none =>
    have hopen : m.dataOpen devTree (some s) o =
        { m' with fd := Function.update m'.fd s.tag o.fd }.createObjCtx (HZ_2_INTERVAL s.config.odr) s o := by
      simp [AbsData.dataOpen, ht, heq, hi, Int.not_le.2 hs.fd, Int.not_lt.2 hs.odr, Int.not_lt.2 hs.range]
    rw [hopen]
    cases hmal : o.malloc with
    | false =>
      rw [if_pos ⟨rfl, rfl⟩]
      constructor
      · simpa [AbsData.createObjCtx, hmal] using ha.setFd _
      · simpa [AbsData.createObjCtx, hmal] using hdb
    | true =>
      rw [if_neg (fun h => Bool.false_ne_true h.1.symm)]
      constructor
      · have hl : ∀ p ∈ m'.db ++ [⟨s.tag, true, HZ_2_INTERVAL s.config.odr⟩], m'.curInterval ≤ p.interval := by
          intro p hp
          rcases List.mem_append.1 hp with hp | hp
          · exact ha.kept.least p hp
          · rw [List.mem_singleton.1 hp]
            exact hcur
        have hnew := (ha.setFd (Function.update m'.fd s.tag o.fd)).setDb hl
        simpa [AbsData.createObjCtx, hmal] using hnew
      · refine ⟨⟨s.tag, true, HZ_2_INTERVAL s.config.odr⟩, ?_, rfl⟩
        simp [AbsData.createObjCtx, hmal]

theorem AbsData.closeLoop_cons_off {p : AbsDataPkg} {ps : List AbsDataPkg} (hp : p.poweron = false)
    (hw : m.isTimerWork = true) :
    m.closeLoop (p :: ps) = AbsData.closeLoop { m with timer := m.timer.stop } ps := by
  simp [AbsData.closeLoop, hp, hw]

theorem AbsData.closeLoop_stopped {ps : List AbsDataPkg} (hw : m.isTimerWork = true)
    (ha : m.timer.active = false) :
    (m.closeLoop ps).isTimerWork = true ∧ (m.closeLoop ps).timer.active = false := by
  induction ps generalizing m with
  | nil => exact ⟨hw, ha⟩
  | cons p ps ih =>
    cases hp : p.poweron with
    | true =>
      simp only [AbsData.closeLoop, hp, if_true]
      exact ⟨hw, ha⟩
    | false =>
      rw [AbsData.closeLoop_cons_off hp hw]
      exact ih hw rfl

theorem AbsData.getObjIndex_some {index : ℕ} (h : m.getObjIndex tag = some index) :
    ∃ p, m.db[index]? = some p ∧ p.tag = tag := by
  rw [AbsData.getObjIndex, List.findIdx?_eq_some_iff_getElem] at h
  obtain ⟨hlt, hp, -⟩ := h
  exact ⟨m.db[index], List.getElem?_eq_getElem hlt, of_decide_eq_true hp⟩

theorem AbsData.dataClose_eq {index : ℕ} (hs : o.Succeeds) (hf : 0 < m.fd tag)
    (hi : m.getObjIndex tag = some index) :
    m.dataClose tag o = ((m.setPower index false).closeLoop (m.setPower index false).db, true) := by
  have hp : ¬ o.power < 0 := by
    have := hs.power
    omega
  simp [AbsData.dataClose, Int.not_le.2 hf, hp, hi]

theorem AbsData.dataClose_meets (hs : o.Succeeds) (hk : Kept m) (hm : Sampling m) (hf : 0 < m.fd tag)
    (hi : m.getObjIndex tag ≠ none) (hh : m.HeadOn tag) :
    Armed (m.dataClose tag o).1 ∧ (m.dataClose tag o).1.On := by
  obtain ⟨index, hi⟩ := Option.ne_none_iff_exists'.1 hi
  obtain ⟨p, hp, hon, hne⟩ := hh
  obtain ⟨q, hq, rfl⟩ := AbsData.getObjIndex_some hi
  obtain ⟨ps, hdb⟩ := List.head?_eq_some_iff.1 hp
  have hpos : index ≠ 0 := by
    rintro rfl
    rw [hdb] at hq
    exact hne (congrArg AbsDataPkg.tag (Option.some.inj hq))
  have hwork : m.isTimerWork = true := by
    rw [hm.work]
    exact hm.running ⟨p, List.mem_of_mem_head? hp, hon⟩
  obtain ⟨n, rfl⟩ := Nat.exists_eq_succ_of_ne_zero hpos
  have hdb' : (m.setPower (n + 1) false).db = p :: ps.modify n fun p => { p with poweron := false } := by
    simp [AbsData.setPower, hdb]
  rw [AbsData.dataClose_eq hs hf hi]
  have hend : (m.setPower (n + 1) false).closeLoop (m.setPower (n + 1) false).db = m.setPower (n + 1) false := by
    rw [hdb', AbsData.closeLoop, if_pos hon]
  rw [hend]
  exact ⟨(hm.armed hk hwork).setPower _ _, p, hdb' ▸ List.mem_cons_self, hon⟩

theorem AbsData.dataClose_stops {index : ℕ} (hs : o.Succeeds) (hk : Kept m) (hf : 0 < m.fd tag)
    (hi : m.getObjIndex tag = some index) (hh : ¬ m.HeadOn tag) :
    (m.dataClose tag o).1.isTimerWork = true ∧ (m.dataClose tag o).1.timer.active = false := by
  obtain ⟨q, hq, rfl⟩ := AbsData.getObjIndex_some hi
  cases hdb : m.db with
  | nil => simp [hdb] at hq
  | cons p ps =>
    have hwork : m.isTimerWork = true := by
      by_contra hw
      have hnil := (hk.idle (Bool.eq_false_iff.2 hw)).2
      exact List.cons_ne_nil p ps (hdb.symm.trans hnil)
    obtain ⟨p', ps', hdb', hoff⟩ :
        ∃ p' ps', (m.setPower index false).db = p' :: ps' ∧ p'.poweron = false := by
      cases index with
      | zero => exact ⟨{ p with poweron := false }, ps, by simp [AbsData.setPower, hdb], rfl⟩
      | succ n =>
        refine ⟨p, ps.modify n fun p => { p with poweron := false }, by simp [AbsData.setPower, hdb], ?_⟩
        by_contra hon
        refine hh ⟨p, by rw [hdb]; rfl, eq_true_of_ne_false hon, ?_⟩
        -- the first of the list is not the one that was found further on
        intro htag
        rw [AbsData.getObjIndex, hdb, List.findIdx?_cons, if_pos (decide_eq_true htag)] at hi
        exact absurd hi (by simp)
    have hwork' : (m.setPower index false).isTimerWork = true := hwork
    rw [AbsData.dataClose_eq hs hf hi, hdb', AbsData.closeLoop_cons_off hoff hwork']
    exact AbsData.closeLoop_stopped hwork rfl

/-! ## Runs -/

/-- **One call** that meets the condition keeps the timer and the sensors in agreement. -/
theorem Sampling.step {a : SensorAct × Outcome} (hs : a.2.Succeeds) (h : Kept m ∧ Sampling m)
    (hc : m.Meets devTree a) : Kept (m.step devTree a) ∧ Sampling (m.step devTree a) := by
  obtain ⟨hk, hm⟩ := h
  obtain ⟨a, o⟩ := a
  have ho : o.Succeeds := hs
  cases a with
  | devOpen service =>
    cases service with
    | none => exact ⟨hk, hm⟩
    | some s =>
      by_cases ht : devTree s.tag = true
      · by_cases h0 : HZ_2_INTERVAL s.config.odr = 0
        · have hstep : m.step devTree (.devOpen (some s), o) = m := by
            simp [AbsData.step, AbsData.dataOpen, ht, h0, AbsData.timerUpdate]
          rw [hstep]
          exact ⟨hk, hm⟩
        · obtain ⟨ha, hdb⟩ := AbsData.dataOpen_cases ho hk hm ht h0
          refine ⟨ha.kept, ha.sampling ?_⟩
          split at hdb
          · next hmal =>
            have hw : m.isTimerWork = true := by
              by_contra hw
              have hyes := hc s rfl ht h0 (Bool.eq_false_iff.2 hw)
              exact Bool.false_ne_true (hmal.1.symm.trans hyes)
            obtain ⟨p, hp, hpon⟩ := hm.on hw
            exact ⟨p, hdb ▸ hp, hpon⟩
          · exact hdb
      · have hstep : m.step devTree (.devOpen (some s), o) = m := by
          simp [AbsData.step, AbsData.dataOpen, ht]
        rw [hstep]
        exact ⟨hk, hm⟩
  | devClose tag =>
    by_cases hf : 0 < m.fd tag
    · obtain ⟨ha, hon⟩ := AbsData.dataClose_meets ho hk hm hf (hc hf).1 (hc hf).2
      exact ⟨ha.kept, ha.sampling hon⟩
    · have hstep : m.step devTree (.devClose tag, o) = m := by
        simp [AbsData.step, AbsData.dataClose, Int.not_lt.1 hf]
      rw [hstep]
      exact ⟨hk, hm⟩
  | devEnable tag =>
    have hw : m.isTimerWork = true := hc
    have hstep : m.step devTree (.devEnable tag, o) = m := by
      simp [AbsData.step, AbsData.devEnable, hw]
    rw [hstep]
    exact ⟨hk, hm⟩
  | devDisable tag =>
    have hw : m.isTimerWork = false := hc
    have hstep : m.step devTree (.devDisable tag, o) = m := by
      simp [AbsData.step, AbsData.devDisable, hw]
    rw [hstep]
    exact ⟨hk, hm⟩
  | expire =>
    have hstep : m.step devTree (.expire, o) = m := by
      by_cases ha : m.timer.active = true
      · have hw : m.isTimerWork = true := hm.work.trans ha
        have hround : 0 < m.timer.round := (hk.timer hw).2 ▸ hk.pos
        simp [AbsData.step, Timer.expire, hround]
      · simp [AbsData.step, ha]
    rw [hstep]
    exact ⟨hk, hm⟩

/-- A call that does not meet the condition starts the timer with no sensor powered on, or
    stops it and leaves `is_timer_work` set. -/
theorem Sampling.not_step {a : SensorAct × Outcome} (hs : a.2.Succeeds) (h : Kept m ∧ Sampling m)
    (hc : ¬ m.Meets devTree a) : ¬ Sampling (m.step devTree a) := by
  obtain ⟨hk, hm⟩ := h
  obtain ⟨a, o⟩ := a
  have ho : o.Succeeds := hs
  intro hm'
  cases a with
  | devOpen service =>
    simp only [AbsData.Meets, not_forall] at hc
    obtain ⟨s, rfl, ht, h0, hw, hmal⟩ := hc
    obtain ⟨ha, hdb⟩ := AbsData.dataOpen_cases ho hk hm ht h0
    have hnil : m.db = [] := (hk.idle hw).2
    have hnone : m.getObjIndex s.tag = none := by simp [AbsData.getObjIndex, hnil]
    rw [if_pos ⟨Bool.eq_false_iff.2 hmal, hnone⟩, hnil] at hdb
    have hoff : ¬ (m.dataOpen devTree (some s) o).1.On := by
      rintro ⟨p, hp, -⟩
      rw [hdb] at hp
      exact List.not_mem_nil hp
    exact Bool.false_ne_true ((hm'.stopped hoff).symm.trans ha.active)
  | devClose tag =>
    simp only [AbsData.Meets, not_forall] at hc
    obtain ⟨hf, hc⟩ := hc
    cases hi : m.getObjIndex tag with
    | none =>
      have hp : ¬ o.power < 0 := by
        have := ho.power
        omega
      have hfault := hm'.fault
      simp [AbsData.step, AbsData.dataClose, Int.not_le.2 hf, hp, hi] at hfault
    | some index =>
      have hh : ¬ m.HeadOn tag := fun hh => hc ⟨by simp [hi], hh⟩
      obtain ⟨hw, ha⟩ := AbsData.dataClose_stops ho hk hf hi hh
      have := hm'.work
      simp only [AbsData.step] at this
      rw [hw, ha] at this
      exact Bool.false_ne_true this.symm
  | devEnable tag =>
    have hw : m.isTimerWork = false := Bool.eq_false_iff.2 hc
    have hwork := hm'.work
    simp [AbsData.step, AbsData.devEnable, hw, ho.start, Timer.start] at hwork
  | devDisable tag =>
    have hw : m.isTimerWork = true := by
      by_contra hn
      exact hc (Bool.eq_false_iff.2 hn)
    have hwork := hm'.work
    simp [AbsData.step, AbsData.devDisable, hw, ho.stop, Timer.stop] at hwork
  | expire => exact hc trivial

/-- The calls in order, from the start. -/
def AbsData.after (devTree : SensorTag → Bool) (as : List (SensorAct × Outcome)) : AbsData :=
  as.foldl (AbsData.step devTree) AbsData.init

theorem Sampling.init : Kept AbsData.init ∧ Sampling AbsData.init := by
  constructor
  · constructor <;> simp [AbsData.init, DEFAULT_TIMER_INTERVAL]
  · constructor <;> simp [AbsData.init, AbsData.On]

/-- **Sampling goes on while it is needed**, after every call of a run, exactly if every
    call of the run meets the condition. -/
theorem sampling_iff (devTree : SensorTag → Bool) (as : List (SensorAct × Outcome))
    (hs : ∀ a ∈ as, a.2.Succeeds) :
    (∀ bs cs, as = bs ++ cs → Sampling (AbsData.after devTree bs)) ↔
      ∀ bs a cs, as = bs ++ a :: cs → (AbsData.after devTree bs).Meets devTree a :=
  foldl_always_iff (fun a => a.2.Succeeds) (fun _ h => h.2) (fun _ _ hs h hc => Sampling.step hs h hc)
    (fun _ _ hs h hc => Sampling.not_step hs h hc) hs Sampling.init

/-- A service of the sensor with the rate. -/
def Service.of (tag : SensorTag) (odr : ℕ) : Service := { Service.zero with tag := tag, config := ⟨0, 0, odr⟩ }

/-- Everything succeeds. -/
def Outcome.ok : Outcome := ⟨3, 1, 1, 1, true, true, true, true⟩

/-- Two sensors are opened, and the second is closed: sampling goes on. -/
theorem sampling_two :
    Sampling (AbsData.after (fun _ => true)
      [(.devOpen (some (.of .acc 10)), .ok), (.devOpen (some (.of .baro 5)), .ok), (.devClose .baro, .ok)]) := by
  refine (sampling_iff (fun _ => true)
    [(.devOpen (some (.of .acc 10)), .ok), (.devOpen (some (.of .baro 5)), .ok), (.devClose .baro, .ok)] ?_).2 ?_
    _ [] (List.append_nil _).symm
  · intro a ha
    have ho : a.2 = .ok := by
      simp only [List.mem_cons, List.not_mem_nil, or_false] at ha
      rcases ha with rfl | rfl | rfl <;> rfl
    rw [ho]
    constructor <;> decide
  · rintro (_ | ⟨_, _ | ⟨_, _ | ⟨_, bs⟩⟩⟩) a cs h <;> simp at h
    · obtain ⟨rfl, -⟩ := h
      intro _ _ _ _ _
      rfl
    · obtain ⟨-, rfl, -⟩ := h
      intro _ _ _ _ _
      rfl
    · obtain ⟨rfl, rfl, rfl, -⟩ := h
      intro _
      exact ⟨by decide, ⟨.acc, true, 100⟩, by decide, rfl, by decide⟩

/-- Two sensors are opened, and the first is closed: the timer is stopped while the second
    is powered on. -/
theorem sampling_stops :
    ∃ m, m = AbsData.after (fun _ => true)
      [(.devOpen (some (.of .acc 10)), .ok), (.devOpen (some (.of .baro 5)), .ok), (.devClose .acc, .ok)] ∧
      m.db = [⟨.acc, false, 100⟩, ⟨.baro, true, 200⟩] ∧ m.timer.active = false ∧ ¬ Sampling m := by
  refine ⟨_, rfl, by decide, by decide, ?_⟩
  intro h
  have hrun := h.running ⟨⟨.baro, true, 200⟩, by decide, rfl⟩
  exact absurd hrun (by decide)

end UData
