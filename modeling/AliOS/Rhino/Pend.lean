/-
  Rhino kernel: blocking a task on an object and waking it (`k_pend.c`), and
  the tick list a timed wait is entered in (`k_tick.c`, up to the update of the
  list).

  `klist_rm(&task->task_list)` on a blocked task takes it off the list of the
  object it is blocked on.
-/
import AliOS.Rhino.Kernel
import Mathlib.Order.Basic
import Mathlib.Data.Nat.Basic

namespace Rhino

variable {w : ℕ}

/-- Insert before the first element that satisfies `p`, or at the end. -/
def insertBefore (p : TaskId → Bool) (t : TaskId) : List TaskId → List TaskId
  | [] => [t]
  | x :: xs => if p x then t :: x :: xs else x :: insertBefore p t xs

theorem insertBefore_perm (p : TaskId → Bool) (t : TaskId) :
    ∀ l, (insertBefore p t l).Perm (t :: l)
  | [] => .refl _
  | x :: xs => by
    unfold insertBefore
    split_ifs
    · exact .refl _
    · exact ((insertBefore_perm p t xs).cons x).trans (.swap t x xs)

@[simp] theorem mem_insertBefore {p : TaskId → Bool} {t x : TaskId} {l : List TaskId} :
    x ∈ insertBefore p t l ↔ x = t ∨ x ∈ l := by
  rw [(insertBefore_perm p t l).mem_iff, List.mem_cons]

theorem insertBefore_sorted {f : TaskId → ℕ} {t : TaskId} {l : List TaskId}
    (h : l.Pairwise fun a b => f a ≤ f b) :
    (insertBefore (fun x => f x > f t) t l).Pairwise fun a b => f a ≤ f b := by
  induction l with
  | nil => simp [insertBefore]
  | cons x xs ih =>
    obtain ⟨hx, hxs⟩ := List.pairwise_cons.1 h
    unfold insertBefore
    split_ifs with hc
    · refine List.pairwise_cons.2 ⟨fun y hy => ?_, h⟩
      have hlt : f t < f x := by simpa using hc
      rcases List.mem_cons.1 hy with rfl | hy
      · exact hlt.le
      · exact hlt.le.trans (hx y hy)
    · refine List.pairwise_cons.2 ⟨fun y hy => ?_, ih hxs⟩
      have hle : f x ≤ f t := by simpa using hc
      rcases mem_insertBefore.1 hy with rfl | hy
      · exact hle
      · exact hx y hy

namespace Kernel

/-! ## The tick list -/

/-- `tick_list_insert`, with `tick_list_pri_insert`. -/
def tickListInsert (k : Kernel w) (t : TaskId) (time : BitVec w) : Kernel w :=
  if time > 0 then
    let k := k.updTask t fun x =>
      { x with tickMatch := k.tickCount + time, tickRemain := time, tickHead := true }
    let later := fun q => (k.tasks q).tickMatch - k.tickCount > (k.tasks t).tickRemain
    { k with tickHead := insertBefore (fun q => later q) t k.tickHead }
  else k

def tickListRm (k : Kernel w) (t : TaskId) : Kernel w :=
  if (k.tasks t).tickHead then
    let k := k.updTask t fun x => { x with tickHead := false }
    { k with tickHead := k.tickHead.erase t }
  else k

/-! ## The list of an object -/

/-- `pend_list_add`: the list is sorted by priority. -/
def pendListAdd (k : Kernel w) (o : ObjId) (t : TaskId) : Kernel w :=
  k.updObj o fun b =>
    { b with blkList := insertBefore (fun x => (k.tasks x).prio > (k.tasks t).prio) t b.blkList }

/-- `klist_rm(&task->task_list)`, the task being blocked. -/
def blkListRm (k : Kernel w) (t : TaskId) : Kernel w :=
  match (k.tasks t).blkObj with
  | some o => k.updObj o fun b => { b with blkList := b.blkList.erase t }
  | none => k

def pendListReorder (k : Kernel w) (t : TaskId) : Kernel w :=
  match (k.tasks t).blkObj with
  | some o => if (k.objs o).blkPolicy = .pri then (k.blkListRm t).pendListAdd o t else k
  | none => k

/-! ## Waking and blocking -/

/-- The switch of `pend_task_wakeup` and `pend_task_rm`: off the object's list,
    and ready or suspended; another state is a fatal error, reported only. -/
def pendLeave (k : Kernel w) (t : TaskId) : Kernel w :=
  match (k.tasks t).taskState with
  | .pend => ((k.blkListRm t).readyListAdd t).updTask t fun x => { x with taskState := .rdy }
  | .pendSuspended => (k.blkListRm t).updTask t fun x => { x with taskState := .suspended }
  | _ => k

def pendTaskWakeup (k : Kernel w) (t : TaskId) : Kernel w :=
  ((k.pendLeave t).tickListRm t).updTask t fun x => { x with blkState := .finish, blkObj := none }

def pendTaskRm (k : Kernel w) (t : TaskId) : Kernel w :=
  ((k.pendLeave t).tickListRm t).updTask t fun x => { x with blkState := .del, blkObj := none }

/-- `pend_to_blk_obj`; `RHINO_WAIT_FOREVER` is the largest `tick_t`. -/
def pendToBlkObj (k : Kernel w) (o : ObjId) (t : TaskId) (timeout : BitVec w) : Kernel w :=
  let k := k.updTask t fun x => { x with blkObj := some o }
  let k := if timeout ≠ BitVec.allOnes w then k.tickListInsert t timeout else k
  let k := k.updTask t fun x => { x with taskState := .pend }
  let k := k.readyListRm t
  if (k.objs o).blkPolicy = .fifo then
    k.updObj o fun b => { b with blkList := b.blkList ++ [t] }
  else k.pendListAdd o t

end Kernel

def pendStateEndProc : BlkState → KStat
  | .finish => .success
  | .abort => .blkAbort
  | .timeout => .blkTimeout
  | .del => .blkDel
  | .invalid => .blkInvState

/-! ## What they change -/

namespace Kernel

variable (k : Kernel w) (t u : TaskId) (o : ObjId) (time : BitVec w)

@[simp] theorem tickListInsert_objs : (k.tickListInsert t time).objs = k.objs := by
  unfold tickListInsert; split_ifs <;> rfl

@[simp] theorem tickListInsert_mutexes : (k.tickListInsert t time).mutexes = k.mutexes := by
  unfold tickListInsert; split_ifs <;> rfl

@[simp] theorem tickListRm_objs : (k.tickListRm t).objs = k.objs := by
  unfold tickListRm; split_ifs <;> rfl

@[simp] theorem tickListRm_mutexes : (k.tickListRm t).mutexes = k.mutexes := by
  unfold tickListRm; split_ifs <;> rfl

@[simp] theorem pendListAdd_tasks : (k.pendListAdd o t).tasks = k.tasks := rfl

@[simp] theorem pendListAdd_mutexes : (k.pendListAdd o t).mutexes = k.mutexes := rfl

@[simp] theorem blkListRm_tasks : (k.blkListRm t).tasks = k.tasks := by
  unfold blkListRm; split <;> rfl

@[simp] theorem blkListRm_mutexes : (k.blkListRm t).mutexes = k.mutexes := by
  unfold blkListRm; split <;> rfl

@[simp] theorem pendListReorder_tasks : (k.pendListReorder t).tasks = k.tasks := by
  unfold pendListReorder; split
  · split_ifs <;> simp
  · rfl

@[simp] theorem pendListReorder_mutexes : (k.pendListReorder t).mutexes = k.mutexes := by
  unfold pendListReorder; split
  · split_ifs <;> simp
  · rfl

theorem blkListRm_objs (o' : ObjId) : (k.blkListRm t).objs o' =
    if (k.tasks t).blkObj = some o' then
      { k.objs o' with blkList := (k.objs o').blkList.erase t }
    else k.objs o' := by
  unfold blkListRm
  split
  · rename_i o ho
    rw [updObj_objs, ho]
    by_cases he : o' = o
    · subst he; simp
    · rw [if_neg he, if_neg (by simpa using fun h => he h.symm)]
  · rename_i ho; simp [ho]

end Kernel

end Rhino
