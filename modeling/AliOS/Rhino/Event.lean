/-
  Rhino kernel: event flags (`k_event.c`).

  A task that waits for flags leaves its option and its flags in its task block;
  a set walks over the tasks that wait, wakes those whose condition the flags
  meet, and clears the flags they asked to be cleared as it goes.
-/
import AliOS.Rhino.Pend

namespace Rhino

variable {w : ℕ}

/-! ## Options -/

def flagsAndMask : BitVec 8 := 0x2
def flagsClearMask : BitVec 8 := 0x1
def rhinoAnd : BitVec 8 := 0x02
def rhinoAndClear : BitVec 8 := 0x03
def rhinoOr : BitVec 8 := 0x00
def rhinoOrClear : BitVec 8 := 0x01

/-- `opt & RHINO_FLAGS_AND_MASK`. -/
def optAnd (opt : BitVec 8) : Bool := opt &&& flagsAndMask ≠ 0

/-- `opt & RHINO_FLAGS_CLEAR_MASK`. -/
def optClear (opt : BitVec 8) : Bool := opt &&& flagsClearMask ≠ 0

/-! ## The event and the tasks that wait for it -/

/-- `kevent_t`; `blkObj` is its address, where its `blk_obj` is. -/
structure Event where
  blkObj : ObjId
  flags : BitVec 32
  mmAllocFlag : AllocFlag

/-- The fields of `ktask_t` for a wait on flags.  `pendInfo` is the word that
    the pointer `pend_info` leads to. -/
structure EventPend where
  pendOption : BitVec 8
  pendFlags : BitVec 32
  pendInfo : BitVec 32
  deriving DecidableEq

/-- `status` of `krhino_event_get` and `event_set`: what the option asks of the
    flags `flags` is met by `cur`. -/
def flagsMet (opt : BitVec 8) (flags cur : BitVec 32) : Bool :=
  if optAnd opt then cur &&& flags = flags else cur &&& flags > 0

/-- What the task waits for is met by `cur`. -/
def EventPend.met (p : EventPend) (cur : BitVec 32) : Bool := flagsMet p.pendOption p.pendFlags cur

/-- The flags without those the task asked to be cleared. -/
def EventPend.clear (p : EventPend) (flags : BitVec 32) : BitVec 32 :=
  if optClear p.pendOption then flags &&& ~~~p.pendFlags else flags

/-- `event_create`, for an event at `obj`. -/
def eventCreate (k : Kernel w) (obj : ObjId) (flags : BitVec 32) (mmAllocFlag : AllocFlag) :
    KStat × Kernel w × Event :=
  (.success, k.updObj obj fun _ => ⟨[], .pri, .event⟩, ⟨obj, flags, mmAllocFlag⟩)

def krhinoEventCreate (k : Kernel w) (obj : ObjId) (flags : BitVec 32) :
    KStat × Kernel w × Event :=
  eventCreate k obj flags .staticAlloc

/-! ## Get -/

/-- What the critical section of a get leads to: a return, with the flags
    written to `*actl_flags` if any, or the block of the active task. -/
inductive EventGetResult (w : ℕ) where
  | ret (stat : KStat) (event : Event) (actlFlags : Option (BitVec 32))
  | blocked (k : Kernel w) (pend : TaskId → EventPend)

/-- `krhino_event_get`, up to the switch to another task; `RHINO_NO_WAIT` is 0. -/
def krhinoEventGet (k : Kernel w) (event : Event) (pend : TaskId → EventPend) (flags : BitVec 32)
    (opt : BitVec 8) (ticks : BitVec w) : EventGetResult w :=
  if opt ≠ rhinoAnd ∧ opt ≠ rhinoOr ∧ opt ≠ rhinoAndClear ∧ opt ≠ rhinoOrClear then
    .ret .noThisEventOpt event none
  else if k.intrptNestedLevel > 0 then .ret .notCalledByIntrpt event none
  else if (k.objs event.blkObj).objType ≠ .event then .ret .kobjTypeErr event none
  else if flagsMet opt flags event.flags then
    .ret .success
      { event with flags := if optClear opt then event.flags &&& ~~~flags else event.flags }
      (some event.flags)
  else if ticks = 0 then .ret .noPendWait event none
  else if k.schedLock > 0 then .ret .schedDisable event none
  else
    let t := k.activeTask
    -- the caller's `*actl_flags` is not written here
    .blocked (k.pendToBlkObj event.blkObj t ticks)
      (Function.update pend t { pend t with pendOption := opt, pendFlags := flags })

/-- The end of `krhino_event_get` in a task that was blocked. -/
def krhinoEventGetEnd (k : Kernel w) (t : TaskId) : KStat := pendStateEndProc (k.tasks t).blkState

/-! ## Set -/

/-- What a set returns: the status, the tasks it has woken, and what it has
    written. -/
structure EventSetResult (w : ℕ) where
  stat : KStat
  woken : List TaskId
  k : Kernel w
  pend : TaskId → EventPend
  event : Event

/-- The walk of `event_set` over the list, with `cur_event_flags`.  `iter_temp`
    is read before the task of `iter` leaves the list, so the walk comes to each
    task that was on it. -/
def eventWalk (cur : BitVec 32) :
    Kernel w → (TaskId → EventPend) → Event → List TaskId → EventSetResult w
  | k, pend, event, [] => ⟨.success, [], k, pend, event⟩
  | k, pend, event, t :: ts =>
    if (pend t).met cur then
      let pend := Function.update pend t { pend t with pendInfo := cur }
      let event := { event with flags := (pend t).clear event.flags }
      let r := eventWalk cur (k.pendTaskWakeup t) pend event ts
      { r with woken := t :: r.woken }
    else eventWalk cur k pend event ts

def eventSet (k : Kernel w) (event : Event) (pend : TaskId → EventPend) (flags : BitVec 32)
    (opt : BitVec 8) : EventSetResult w :=
  if (k.objs event.blkObj).objType ≠ .event then ⟨.kobjTypeErr, [], k, pend, event⟩
  else if optAnd opt then ⟨.success, [], k, pend, { event with flags := event.flags &&& flags }⟩
  else
    let event := { event with flags := event.flags ||| flags }
    eventWalk event.flags k pend event (k.objs event.blkObj).blkList

def krhinoEventSet (k : Kernel w) (event : Event) (pend : TaskId → EventPend) (flags : BitVec 32)
    (opt : BitVec 8) : EventSetResult w :=
  if opt ≠ rhinoAnd ∧ opt ≠ rhinoOr then ⟨.noThisEventOpt, [], k, pend, event⟩
  else eventSet k event pend flags opt

/-! ## Conditions and flags -/

theorem flagsMet_mono {opt : BitVec 8} {flags a b : BitVec 32} (hab : a &&& b = a)
    (h : flagsMet opt flags a = true) : flagsMet opt flags b = true := by
  have hsub : a &&& flags = (a &&& flags) &&& (b &&& flags) := by
    calc a &&& flags = (a &&& b) &&& flags := by rw [hab]
      _ = (a &&& flags) &&& (b &&& flags) := by
        ext i
        simp only [BitVec.getElem_and]
        cases a[i] <;> cases b[i] <;> cases flags[i] <;> rfl
  unfold flagsMet at h ⊢
  split at h
  · rename_i ho
    rw [if_pos ho]
    simp only [decide_eq_true_eq] at h ⊢
    rw [h] at hsub
    calc b &&& flags = b &&& (flags &&& (b &&& flags)) := by rw [← hsub]
      _ = flags &&& (b &&& flags) := by
        ext i
        simp only [BitVec.getElem_and]
        cases b[i] <;> cases flags[i] <;> rfl
      _ = flags := hsub.symm
  · rename_i ho
    rw [if_neg ho]
    have hpos : ∀ x : BitVec 32, x > 0 ↔ x ≠ 0 := fun x => BitVec.pos_iff_ne_zero x
    simp only [decide_eq_true_eq, hpos] at h ⊢
    intro hz
    rw [hz] at hsub
    exact h (hsub.trans BitVec.and_zero)

theorem EventPend.met_mono {p : EventPend} {a b : BitVec 32} (hab : a &&& b = a)
    (h : p.met a = true) : p.met b = true := flagsMet_mono hab h

end Rhino
