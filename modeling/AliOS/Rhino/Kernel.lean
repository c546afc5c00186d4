/-
  Rhino kernel: tasks, blocking objects and the ready queue (`k_task.h`,
  `k_obj.h`, `k_sched.c`), for one CPU.

  Tasks and objects are named by their addresses.  A `klist_t` is the list of
  its elements from the head's `next` on; the ready list of a priority is the
  ring of its tasks from `cur_list_item` on.  The width `w` of `tick_t` is 32
  or 64 in the source.
-/
import AliOS.Rhino.KErr
import Mathlib.Algebra.Group.Nat.Defs
import Mathlib.Data.List.Basic

namespace Rhino

abbrev TaskId := ℕ

/-- The address of a blocking object (`blk_obj_t`, at the start of a mutex, a
    queue, ...). -/
abbrev ObjId := ℕ

/-- `task_stat_t`. -/
inductive TaskStat where
  | seed | rdy | pend | suspended | pendSuspended | sleep | sleepSuspended | deleted
  deriving DecidableEq, Repr

/-- `blk_state_t`. -/
inductive BlkState where
  | finish | abort | timeout | del | invalid
  deriving DecidableEq, Repr

/-- `blk_policy_t`. -/
inductive BlkPolicy where
  | pri | fifo
  deriving DecidableEq, Repr

/-- `kobj_type_t`. -/
inductive KobjType where
  | none | sem | mutex | queue | bufQueue | timer | event | mmBlk | mm
  deriving DecidableEq, Repr

/-- `mm_alloc_flag`. -/
inductive AllocFlag where
  | staticAlloc | dynAlloc
  deriving DecidableEq, Repr

/-- `ktask_t`.  `tickHead` tells whether `tick_head` is non-NULL; `msg` gives
    the bytes of the pointer `msg` (message queues), or those it points to
    (buffer queues). -/
structure Task (w : ℕ) where
  suspendCount : ℕ
  mutexList : Option ObjId
  tickMatch : BitVec w
  tickRemain : BitVec w
  tickHead : Bool
  msg : ℕ → UInt8
  bqMsgSize : ℕ
  taskState : TaskStat
  blkState : BlkState
  blkObj : Option ObjId
  prio : ℕ
  bPrio : ℕ
  mmAllocFlag : AllocFlag

/-- `blk_obj_t`. -/
structure BlkObj where
  blkList : List TaskId
  blkPolicy : BlkPolicy
  objType : KobjType
  deriving DecidableEq, Repr

/-- The fields of `kmutex_t` behind its `blk_obj`. -/
structure Mutex where
  mutexTask : Option TaskId
  mutexList : Option ObjId
  ownerNested : ℕ
  mmAllocFlag : AllocFlag
  deriving DecidableEq, Repr

/-- `runqueue_t`. -/
structure Runqueue where
  curListItem : ℕ → List TaskId
  taskBitMap : ℕ → Bool
  highestPri : ℕ

/-- The kernel: the tasks, the objects, and the globals of `k_obj.c`. -/
structure Kernel (w : ℕ) where
  tasks : TaskId → Task w
  objs : ObjId → BlkObj
  mutexes : ObjId → Mutex
  readyQueue : Runqueue
  tickHead : List TaskId
  tickCount : BitVec w
  activeTask : TaskId
  schedLock : ℕ
  intrptNestedLevel : ℕ
  priMax : ℕ

variable {w : ℕ}

namespace Kernel

/-- Write fields of a task. -/
def updTask (k : Kernel w) (t : TaskId) (f : Task w → Task w) : Kernel w :=
  { k with tasks := Function.update k.tasks t (f (k.tasks t)) }

/-- Write fields of an object. -/
def updObj (k : Kernel w) (o : ObjId) (f : BlkObj → BlkObj) : Kernel w :=
  { k with objs := Function.update k.objs o (f (k.objs o)) }

/-- Write fields of a mutex. -/
def updMutex (k : Kernel w) (m : ObjId) (f : Mutex → Mutex) : Kernel w :=
  { k with mutexes := Function.update k.mutexes m (f (k.mutexes m)) }

/-- `RHINO_IDLE_PRI`. -/
def idlePri (k : Kernel w) : ℕ := k.priMax - 1

section
variable (k : Kernel w) (t u : TaskId) (f : Task w → Task w) (o : ObjId) (g : BlkObj → BlkObj)
  (h : Mutex → Mutex)

@[simp] theorem updTask_tasks_self : (k.updTask t f).tasks t = f (k.tasks t) := by simp [updTask]

@[simp] theorem updTask_tasks_ne (hu : u ≠ t) : (k.updTask t f).tasks u = k.tasks u := by
  simp [updTask, hu]

theorem updTask_tasks : (k.updTask t f).tasks u = if u = t then f (k.tasks t) else k.tasks u := by
  simp [updTask, Function.update_apply]

@[simp] theorem updTask_objs : (k.updTask t f).objs = k.objs := rfl
@[simp] theorem updTask_mutexes : (k.updTask t f).mutexes = k.mutexes := rfl
@[simp] theorem updTask_tickHead : (k.updTask t f).tickHead = k.tickHead := rfl
@[simp] theorem updTask_tickCount : (k.updTask t f).tickCount = k.tickCount := rfl
@[simp] theorem updTask_activeTask : (k.updTask t f).activeTask = k.activeTask := rfl
@[simp] theorem updObj_tasks : (k.updObj o g).tasks = k.tasks := rfl
@[simp] theorem updObj_tickHead : (k.updObj o g).tickHead = k.tickHead := rfl
@[simp] theorem updMutex_tasks : (k.updMutex o h).tasks = k.tasks := rfl

theorem updObj_objs (o' : ObjId) :
    (k.updObj o g).objs o' = if o' = o then g (k.objs o) else k.objs o' := by
  simp [updObj, Function.update_apply]

@[simp] theorem updObj_objs_self : (k.updObj o g).objs o = g (k.objs o) := by simp [updObj]

theorem updMutex_mutexes (o' : ObjId) :
    (k.updMutex o h).mutexes o' = if o' = o then h (k.mutexes o) else k.mutexes o' := by
  simp [updMutex, Function.update_apply]

end

/-! ## The ready queue (`k_sched.c`) -/

def readyListInit (k : Kernel w) (t : TaskId) : Kernel w :=
  let p := (k.tasks t).prio
  { k with readyQueue :=
    { curListItem := Function.update k.readyQueue.curListItem p [t]
      taskBitMap := Function.update k.readyQueue.taskBitMap p true
      highestPri := if p < k.readyQueue.highestPri then p else k.readyQueue.highestPri } }

def isReadyListEmpty (k : Kernel w) (p : ℕ) : Bool := (k.readyQueue.curListItem p).isEmpty

/-- `ready_list_add_tail`: `klist_insert` before the current item is the end of
    the ring. -/
def readyListAddTail (k : Kernel w) (t : TaskId) : Kernel w :=
  let p := (k.tasks t).prio
  if k.isReadyListEmpty p then k.readyListInit t
  else { k with readyQueue := { k.readyQueue with
    curListItem := Function.update k.readyQueue.curListItem p
      (k.readyQueue.curListItem p ++ [t]) } }

def readyListAddHead (k : Kernel w) (t : TaskId) : Kernel w :=
  let p := (k.tasks t).prio
  if k.isReadyListEmpty p then k.readyListInit t
  else { k with readyQueue := { k.readyQueue with
    curListItem := Function.update k.readyQueue.curListItem p
      (t :: k.readyQueue.curListItem p) } }

def readyListAdd (k : Kernel w) (t : TaskId) : Kernel w :=
  if (k.tasks t).prio = (k.tasks k.activeTask).prio then k.readyListAddTail t
  else k.readyListAddHead t

/-- `krhino_find_first_bit` over the priorities; `none` where no bit is set. -/
def findFirstBit (k : Kernel w) (bitMap : ℕ → Bool) : Option ℕ :=
  (List.range k.priMax).find? bitMap

def readyListRm (k : Kernel w) (t : TaskId) : Kernel w :=
  let pri := (k.tasks t).prio
  let rq := k.readyQueue
  if (rq.curListItem pri).length > 1 then
    { k with readyQueue := { rq with
      curListItem := Function.update rq.curListItem pri ((rq.curListItem pri).erase t) } }
  else
    let rq := { rq with
      curListItem := Function.update rq.curListItem pri []
      taskBitMap := Function.update rq.taskBitMap pri false }
    if pri ≠ rq.highestPri then { k with readyQueue := rq }
    else match k.findFirstBit rq.taskBitMap with
    | some i => { k with readyQueue := { rq with highestPri := i } }
    | none => { k with readyQueue := rq }

def readyListHeadToTail (k : Kernel w) (t : TaskId) : Kernel w :=
  let p := (k.tasks t).prio
  { k with readyQueue := { k.readyQueue with
    curListItem := Function.update k.readyQueue.curListItem p
      ((k.readyQueue.curListItem p).rotate 1) } }

/-- `k'` is `k` up to the ready queue. -/
structure SameButReady (k k' : Kernel w) : Prop where
  tasks : k'.tasks = k.tasks
  objs : k'.objs = k.objs
  mutexes : k'.mutexes = k.mutexes
  tickHead : k'.tickHead = k.tickHead
  tickCount : k'.tickCount = k.tickCount
  activeTask : k'.activeTask = k.activeTask
  schedLock : k'.schedLock = k.schedLock
  intrptNestedLevel : k'.intrptNestedLevel = k.intrptNestedLevel
  priMax : k'.priMax = k.priMax

variable (k : Kernel w) (t : TaskId)

theorem same_readyListAddTail : SameButReady k (k.readyListAddTail t) := by
  unfold readyListAddTail readyListInit
  dsimp only
  split_ifs <;> exact ⟨rfl, rfl, rfl, rfl, rfl, rfl, rfl, rfl, rfl⟩

theorem same_readyListAddHead : SameButReady k (k.readyListAddHead t) := by
  unfold readyListAddHead readyListInit
  dsimp only
  split_ifs <;> exact ⟨rfl, rfl, rfl, rfl, rfl, rfl, rfl, rfl, rfl⟩

theorem same_readyListAdd : SameButReady k (k.readyListAdd t) := by
  unfold readyListAdd
  split_ifs
  · exact same_readyListAddTail k t
  · exact same_readyListAddHead k t

theorem same_readyListRm : SameButReady k (k.readyListRm t) := by
  unfold readyListRm
  dsimp only
  split_ifs
  · exact ⟨rfl, rfl, rfl, rfl, rfl, rfl, rfl, rfl, rfl⟩
  · exact ⟨rfl, rfl, rfl, rfl, rfl, rfl, rfl, rfl, rfl⟩
  · split <;> exact ⟨rfl, rfl, rfl, rfl, rfl, rfl, rfl, rfl, rfl⟩

@[simp] theorem readyListAddTail_tasks : (k.readyListAddTail t).tasks = k.tasks := (same_readyListAddTail k t).tasks
@[simp] theorem readyListAddTail_objs : (k.readyListAddTail t).objs = k.objs := (same_readyListAddTail k t).objs
@[simp] theorem readyListAddTail_mutexes : (k.readyListAddTail t).mutexes = k.mutexes := (same_readyListAddTail k t).mutexes

@[simp] theorem readyListAddHead_tasks : (k.readyListAddHead t).tasks = k.tasks := (same_readyListAddHead k t).tasks
@[simp] theorem readyListAddHead_objs : (k.readyListAddHead t).objs = k.objs := (same_readyListAddHead k t).objs

@[simp] theorem readyListAdd_tasks : (k.readyListAdd t).tasks = k.tasks := (same_readyListAdd k t).tasks
@[simp] theorem readyListAdd_objs : (k.readyListAdd t).objs = k.objs := (same_readyListAdd k t).objs
@[simp] theorem readyListAdd_tickHead : (k.readyListAdd t).tickHead = k.tickHead := (same_readyListAdd k t).tickHead
@[simp] theorem readyListAdd_tickCount : (k.readyListAdd t).tickCount = k.tickCount := (same_readyListAdd k t).tickCount

@[simp] theorem readyListRm_tasks : (k.readyListRm t).tasks = k.tasks := (same_readyListRm k t).tasks
@[simp] theorem readyListRm_objs : (k.readyListRm t).objs = k.objs := (same_readyListRm k t).objs
@[simp] theorem readyListRm_mutexes : (k.readyListRm t).mutexes = k.mutexes := (same_readyListRm k t).mutexes
@[simp] theorem readyListRm_tickHead : (k.readyListRm t).tickHead = k.tickHead := (same_readyListRm k t).tickHead
@[simp] theorem readyListRm_tickCount : (k.readyListRm t).tickCount = k.tickCount := (same_readyListRm k t).tickCount
@[simp] theorem readyListRm_activeTask : (k.readyListRm t).activeTask = k.activeTask := (same_readyListRm k t).activeTask

end Kernel

end Rhino
