/-
  Key-value store: the handshake between writers and the garbage collector
  (`aos_kv_set`, `trigger_gc` and `aos_kv_gc` of `kvmgr.c`).

  A writer tests `gc_triggered` outside the mutex, counts itself in `gc_waiter`
  and waits on `gc_sem`; a collection clears the flag, releases the mutex, and
  signals the semaphore if it finds the count positive.  Each of these is a
  step of its own here, of any number of writers and of collections, in any
  order.  `aos_sem_wait` and `aos_sem_signal_all` are `krhino_sem_take` and
  `krhino_sem_give_all`: with no task blocked, a signal is kept in the count.
-/
import AliOS.Lib.Trans
import Mathlib.Algebra.Group.Nat.Defs

namespace Kv

open Lib

/-- Where a writer is in `aos_kv_set`. -/
inductive WriterPc where
  | idle
  /-- It has found `gc_triggered` set; `gc_waiter++` is next. -/
  | increment
  /-- `aos_sem_wait` is next. -/
  | wait
  /-- Blocked on `gc_sem`. -/
  | blocked
  /-- `aos_mutex_lock` is next. -/
  | lock
  /-- It holds `kv_mutex`. -/
  | store
  /-- In `trigger_gc`: `gc_waiter = 0` is next. -/
  | reset
  /-- In `trigger_gc`: `gc_triggered = 1` is next. -/
  | setFlag
  /-- In `trigger_gc`: `aos_task_new` is next. -/
  | newTask
  deriving DecidableEq, Repr

/-- Where a collection is in `aos_kv_gc`. -/
inductive GcPc where
  /-- No such task yet. -/
  | none
  /-- `aos_mutex_lock` is next. -/
  | lock
  /-- It holds `kv_mutex`. -/
  | collect
  /-- `gc_triggered` is cleared; `aos_mutex_unlock` is next. -/
  | unlock
  /-- `if (gc_waiter > 0)` is next. -/
  | test
  /-- `aos_sem_signal_all` is next. -/
  | signal
  | done
  deriving DecidableEq, Repr

/-- The fields of `kv_mgr_t` the handshake uses, and the tasks.  `gcWaiter` is
    a `uint8_t`; `gc_sem` is a count and the writers blocked on it. -/
structure GcSync where
  gcTriggered : Bool
  gcWaiter : ℕ
  semCount : ℕ
  semBlkList : List ℕ
  locked : Bool
  writer : ℕ → WriterPc
  gc : ℕ → GcPc

/-- The largest `sem_count_t`. -/
def semCountMax : ℕ := 2 ^ 32 - 1

/-- A step of the writer `i`, or of the collection `g`. -/
inductive GcAct where
  /-- `if (g_kv_mgr.gc_triggered)` of `aos_kv_set`. -/
  | testTriggered (i : ℕ)
  | increment (i : ℕ)
  | semWait (i : ℕ)
  | lock (i : ℕ)
  /-- `if (g_kv_mgr.gc_triggered)` of `trigger_gc`, reached while storing. -/
  | trigger (i : ℕ)
  | reset (i : ℕ)
  | setFlag (i : ℕ)
  /-- The new task is the collection `g`. -/
  | newTask (i g : ℕ)
  | unlock (i : ℕ)
  | gcLock (g : ℕ)
  | gcClear (g : ℕ)
  | gcUnlock (g : ℕ)
  | gcTest (g : ℕ)
  | gcSignal (g : ℕ)
  deriving DecidableEq, Repr

namespace GcSync

def setWriter (s : GcSync) (i : ℕ) (pc : WriterPc) : GcSync :=
  { s with writer := Function.update s.writer i pc }

def setGc (s : GcSync) (g : ℕ) (pc : GcPc) : GcSync :=
  { s with gc := Function.update s.gc g pc }

/-- `krhino_sem_take`, waiting forever. -/
def semTake (s : GcSync) (i : ℕ) : GcSync :=
  if s.semCount > 0 then { s with semCount := s.semCount - 1 }.setWriter i .lock
  else { s with semBlkList := s.semBlkList ++ [i] }.setWriter i .blocked

/-- `krhino_sem_give_all`. -/
def semGiveAll (s : GcSync) : GcSync :=
  if s.semBlkList = [] then
    { s with semCount := if s.semCount = semCountMax then s.semCount else s.semCount + 1 }
  else
    { s with
      semBlkList := []
      writer := fun i => if i ∈ s.semBlkList then .lock else s.writer i }

/-- The step of an action; `none` where its task is not there. -/
def step (s : GcSync) : GcAct → Option GcSync
  | .testTriggered i =>
    if s.writer i = .idle then
      some (s.setWriter i (if s.gcTriggered then .increment else .lock))
    else none
  | .increment i =>
    if s.writer i = .increment then
      some ({ s with gcWaiter := (s.gcWaiter + 1) % 256 }.setWriter i .wait)
    else none
  | .semWait i => if s.writer i = .wait then some (s.semTake i) else none
  | .lock i =>
    if s.writer i = .lock ∧ s.locked = false then
      some ({ s with locked := true }.setWriter i .store)
    else none
  | .trigger i =>
    if s.writer i = .store then
      some (s.setWriter i (if s.gcTriggered then .store else .reset))
    else none
  | .reset i =>
    if s.writer i = .reset then some ({ s with gcWaiter := 0 }.setWriter i .setFlag) else none
  | .setFlag i =>
    if s.writer i = .setFlag then some ({ s with gcTriggered := true }.setWriter i .newTask)
    else none
  | .newTask i g =>
    if s.writer i = .newTask ∧ s.gc g = .none then some ((s.setGc g .lock).setWriter i .store)
    else none
  | .unlock i =>
    if s.writer i = .store then some ({ s with locked := false }.setWriter i .idle) else none
  | .gcLock g =>
    if s.gc g = .lock ∧ s.locked = false then some ({ s with locked := true }.setGc g .collect)
    else none
  | .gcClear g =>
    if s.gc g = .collect then some ({ s with gcTriggered := false }.setGc g .unlock) else none
  | .gcUnlock g =>
    if s.gc g = .unlock then some ({ s with locked := false }.setGc g .test) else none
  | .gcTest g =>
    if s.gc g = .test then some (s.setGc g (if s.gcWaiter > 0 then .signal else .done)) else none
  | .gcSignal g => if s.gc g = .signal then some (s.semGiveAll.setGc g .done) else none

/-- The steps as a relation. -/
def Step (s : GcSync) (a : GcAct) (s' : GcSync) : Prop := s.step a = some s'

/-- After `aos_kv_init`, which triggers a collection (number `0`) or not. -/
def init (triggered : Bool) : GcSync where
  gcTriggered := triggered
  gcWaiter := 0
  semCount := 0
  semBlkList := []
  locked := false
  writer _ := .idle
  gc g := if triggered ∧ g = 0 then .lock else .none

/-! ## The property -/

/-- The collection has not yet tested `gc_waiter`. -/
def BeforeTest (s : GcSync) (g : ℕ) : Prop :=
  s.gc g = .lock ∨ s.gc g = .collect ∨ s.gc g = .unlock ∨ s.gc g = .test

/-- A writer blocks only on a collection that will find it counted, and the
    count is not set to zero under a blocked writer, unless a collection is
    about to signal the semaphore. -/
def Careful (s : GcSync) : GcAct → Prop
  | .semWait _ => s.semCount = 0 →
      (s.gcWaiter > 0 ∧ (s.gcTriggered = true ∨ ∃ g, s.BeforeTest g)) ∨ ∃ g, s.gc g = .signal
  | .increment _ => s.gcWaiter = 255 → s.semBlkList = [] ∨ ∃ g, s.gc g = .signal
  | .reset _ => s.semBlkList = [] ∨ ∃ g, s.gc g = .signal
  | _ => True

/-! ## The invariant -/

/-- What holds while a writer is blocked: it is counted, and the count will be
    tested; or the signal is on its way. -/
def Covered (s : GcSync) : Prop :=
  (s.gcWaiter > 0 ∧ (s.gcTriggered = true ∨ ∃ g, s.BeforeTest g)) ∨ ∃ g, s.gc g = .signal

/-- The invariant of careful runs. -/
structure Inv (s : GcSync) : Prop where
  gcWaiter_lt : s.gcWaiter < 256
  covered : s.semBlkList ≠ [] → s.Covered

/-- The collections of `s'` are those of `s` but for a move of `g` that does
    not leave the test behind. -/
theorem Covered.of_gc {s s' : GcSync} (h : s.Covered) (hw : s'.gcWaiter = s.gcWaiter)
    (ht : s.gcTriggered = true → s'.gcTriggered = true ∨ ∃ g, s'.BeforeTest g)
    (hb : ∀ g, s.BeforeTest g → s'.BeforeTest g) (hs : ∀ g, s.gc g = .signal → s'.gc g = .signal) :
    s'.Covered := by
  rcases h with ⟨hpos, hf | ⟨g, hg⟩⟩ | ⟨g, hg⟩
  · exact .inl ⟨hw ▸ hpos, ht hf⟩
  · exact .inl ⟨hw ▸ hpos, .inr ⟨g, hb g hg⟩⟩
  · exact .inr ⟨g, hs g hg⟩

theorem setGc_gc (s : GcSync) (g g' : ℕ) (pc : GcPc) :
    (s.setGc g pc).gc g' = if g' = g then pc else s.gc g' := by
  simp [setGc, Function.update_apply]

theorem beforeTest_setGc {s : GcSync} {g g' : ℕ} {pc : GcPc}
    (hpc : pc = .lock ∨ pc = .collect ∨ pc = .unlock ∨ pc = .test) (h : s.BeforeTest g') :
    (s.setGc g pc).BeforeTest g' := by
  unfold BeforeTest at h ⊢
  rw [setGc_gc]
  split_ifs
  · exact hpc
  · exact h

theorem signal_setGc {s : GcSync} {g g' : ℕ} {pc : GcPc} (hg : s.gc g ≠ .signal)
    (h : s.gc g' = .signal) : (s.setGc g pc).gc g' = .signal := by
  rw [setGc_gc, if_neg]
  · exact h
  · rintro rfl; exact hg h

theorem semGiveAll_semBlkList (s : GcSync) : s.semGiveAll.semBlkList = [] := by
  by_cases h : s.semBlkList = []
  · rw [semGiveAll, if_pos h]
    exact h
  · rw [semGiveAll, if_neg h]

theorem Inv.step_covered {s s' : GcSync} {a : GcAct} (h : s.Inv)
    (hs : restrict Careful Step s a s') (hne : s'.semBlkList ≠ []) : s'.Covered := by
  obtain ⟨hc, hs⟩ := hs
  change s.step a = some s' at hs
  cases a with
  | testTriggered i | trigger i | unlock i =>
    obtain ⟨-, ⟨⟩⟩ := Option.ite_none_right_eq_some.1 hs
    exact h.covered hne
  | lock i =>
    obtain ⟨-, ⟨⟩⟩ := Option.ite_none_right_eq_some.1 hs
    exact h.covered hne
  | increment i =>
    obtain ⟨-, ⟨⟩⟩ := Option.ite_none_right_eq_some.1 hs
    by_cases hw : s.gcWaiter = 255
    · exact .inr ((hc hw).resolve_left hne)
    · rcases h.covered hne with ⟨hpos, hf⟩ | hg
      · refine .inl ⟨?_, hf⟩
        have hlt := h.gcWaiter_lt
        simp only [setWriter]
        omega
      · exact .inr hg
  | semWait i =>
    obtain ⟨-, ⟨⟩⟩ := Option.ite_none_right_eq_some.1 hs
    unfold semTake at hne ⊢
    split_ifs at hne ⊢ with hcount
    · exact h.covered hne
    · exact hc (by omega)
  | reset i =>
    obtain ⟨-, ⟨⟩⟩ := Option.ite_none_right_eq_some.1 hs
    exact .inr (hc.resolve_left hne)
  | setFlag i =>
    obtain ⟨-, ⟨⟩⟩ := Option.ite_none_right_eq_some.1 hs
    exact (h.covered hne).of_gc rfl (fun _ => .inl rfl) (fun _ hg => hg) fun _ hg => hg
  | newTask i g =>
    obtain ⟨⟨-, hg⟩, ⟨⟩⟩ := Option.ite_none_right_eq_some.1 hs
    exact (h.covered hne).of_gc rfl (fun hf => .inl hf) (fun _ hb => beforeTest_setGc (.inl rfl) hb)
      fun _ hsig => signal_setGc (by simp [hg]) hsig
  | gcLock g =>
    obtain ⟨⟨hg, -⟩, ⟨⟩⟩ := Option.ite_none_right_eq_some.1 hs
    exact (h.covered hne).of_gc rfl (fun hf => .inl hf)
      (fun _ hb => beforeTest_setGc (.inr (.inl rfl)) hb) fun _ hsig =>
      @signal_setGc s g _ .collect (by simp [hg]) hsig
  | gcClear g =>
    -- the flag goes, but this collection has still to test the count
    obtain ⟨hg, ⟨⟩⟩ := Option.ite_none_right_eq_some.1 hs
    refine (h.covered hne).of_gc rfl (fun _ => .inr ⟨g, ?_⟩)
      (fun _ hb => beforeTest_setGc (.inr (.inr (.inl rfl))) hb) fun _ hsig =>
      @signal_setGc s g _ .unlock (by simp [hg]) hsig
    exact .inr (.inr (.inl (by rw [setGc_gc, if_pos rfl])))
  | gcUnlock g =>
    obtain ⟨hg, ⟨⟩⟩ := Option.ite_none_right_eq_some.1 hs
    exact (h.covered hne).of_gc rfl (fun hf => .inl hf)
      (fun _ hb => beforeTest_setGc (.inr (.inr (.inr rfl))) hb) fun _ hsig =>
      @signal_setGc s g _ .test (by simp [hg]) hsig
  | gcTest g =>
    -- a positive count makes the collection signal
    obtain ⟨hg, ⟨⟩⟩ := Option.ite_none_right_eq_some.1 hs
    rcases h.covered hne with ⟨hpos, -⟩ | ⟨g', hg'⟩
    · exact .inr ⟨g, by rw [setGc_gc, if_pos rfl, if_pos hpos]⟩
    · exact .inr ⟨g', signal_setGc (by simp [hg]) hg'⟩
  | gcSignal g =>
    obtain ⟨-, ⟨⟩⟩ := Option.ite_none_right_eq_some.1 hs
    exact absurd (semGiveAll_semBlkList s) hne

theorem step_gcWaiter_lt {s s' : GcSync} {a : GcAct} (h : s.gcWaiter < 256) (hs : Step s a s') :
    s'.gcWaiter < 256 := by
  change s.step a = some s' at hs
  cases a <;>
    simp only [GcSync.step, Option.ite_none_right_eq_some, Option.some.injEq] at hs <;>
    obtain ⟨-, rfl⟩ := hs
  case increment i => exact Nat.mod_lt _ (by decide)
  case reset i => exact Nat.zero_lt_succ _
  case semWait i => unfold semTake; split <;> exact h
  case gcSignal g => unfold semGiveAll; split <;> exact h
  all_goals exact h

theorem Inv.step {s s' : GcSync} {a : GcAct} (h : s.Inv) (hs : restrict Careful Step s a s') :
    s'.Inv where
  gcWaiter_lt := step_gcWaiter_lt h.gcWaiter_lt hs.2
  covered := h.step_covered hs

end GcSync

end Kv
