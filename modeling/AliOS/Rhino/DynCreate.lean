/-
  Rhino kernel: the functions that create an object in memory of the heap
  (`krhino_task_dyn_create`, `krhino_queue_dyn_create`,
  `krhino_buf_queue_dyn_create`, `krhino_timer_dyn_create` and
  `krhino_kobj_set_dyn_create`).

  What `krhino_mm_alloc` gives is a parameter, so that any of its calls can
  fail.  Of the create functions underneath there are the tests: all of them
  come before the first write to the object, and what follows cannot fail.  A
  call that fails must have given back what it took; `dynCreate_clean_iff` says
  when it does.
-/
import AliOS.Rhino.Timer

namespace Rhino

/-! ## The heap -/

/-- What the calls of `krhino_mm_alloc` give, by their number: the size asked
    for, and the block or `NULL`. -/
abbrev MmOracle := ℕ → ℕ → Option ℕ

/-- The calls to the heap: how many allocations, the blocks that they gave, and
    the blocks that were freed. -/
structure MmCalls where
  count : ℕ
  allocated : List ℕ
  freed : List ℕ

def krhinoMmAlloc (mm : MmOracle) (size : ℕ) (m : MmCalls) : Option ℕ × MmCalls :=
  if size = 0 then (none, m)
  else
    match mm m.count size with
    | none => (none, { m with count := m.count + 1 })
    | some blk => (some blk, { m with count := m.count + 1, allocated := blk :: m.allocated })

def krhinoMmFree (m : MmCalls) (blk : ℕ) : MmCalls := { m with freed := blk :: m.freed }

/-! ## The source functions -/

/-- What the functions find: the configuration, the sizes of the types, and the
    kernel. -/
structure DynEnv where
  priMax : ℕ
  idlePri : ℕ
  ktask : ℕ
  kqueue : ℕ
  kbufQueue : ℕ
  ktimer : ℕ
  kobjSet : ℕ
  cpuStack : ℕ
  ptrSize : ℕ
  /-- The width of a `size_t`. -/
  sizeBits : ℕ
  intrptNestedLevel : ℕ
  idleTaskSpawned : Bool

/-- What a call leaves: the status, the calls to the heap, and the handle of the
    caller. -/
structure DynOut where
  stat : KStat
  mm : MmCalls
  handle : Option ℕ

section
variable {w : ℕ} (env : DynEnv) (mm : MmOracle)

/-- The tests of `task_create`; a name or an entry that is `NULL` is `false`. -/
def taskCreateStat (name entry : Bool) (prio stackSize : ℕ) : KStat :=
  if ¬ name then .nullPtr
  else if ¬ entry then .nullPtr
  else if stackSize = 0 then .taskInvStackSize
  else if prio ≥ env.priMax then .beyondMaxPri
  else if env.intrptNestedLevel > 0 then .notCalledByIntrpt
  else if prio = env.idlePri ∧ env.idleTaskSpawned then .idleTaskExist
  else .success

/-- `task_dyn_create`; `stack` is a number of words.  `task` is the address of
    the handle, and `handle` is what is in it. -/
def taskDynCreate (task name entry : Bool) (pri stack : ℕ) (handle : Option ℕ) : DynOut :=
  let m : MmCalls := ⟨0, [], []⟩
  if ¬ task then ⟨.nullPtr, m, handle⟩
  else if stack = 0 then ⟨.invParam, m, handle⟩
  else
    match krhinoMmAlloc mm (stack * env.cpuStack % 2 ^ env.sizeBits) m with
    | (none, m) => ⟨.noMem, m, handle⟩
    | (some taskStack, m) =>
      match krhinoMmAlloc mm env.ktask m with
      | (none, m) => ⟨.noMem, krhinoMmFree m taskStack, handle⟩
      | (some taskObj, m) =>
        let ret := taskCreateStat env name entry pri stack
        if ret ≠ .success ∧ ret ≠ .stopped then
          ⟨ret, krhinoMmFree (krhinoMmFree m taskStack) taskObj, none⟩
        else ⟨ret, m, some taskObj⟩

/-- The tests of `queue_create`. -/
def queueCreateStat (name : Bool) (msgNum : ℕ) : KStat :=
  if ¬ name then .nullPtr
  else if msgNum = 0 then .invParam
  else .success

def krhinoQueueDynCreate (queue name : Bool) (msgNum : ℕ) (handle : Option ℕ) : DynOut :=
  let m : MmCalls := ⟨0, [], []⟩
  if ¬ queue then ⟨.nullPtr, m, handle⟩
  else
    match krhinoMmAlloc mm env.kqueue m with
    | (none, m) => ⟨.noMem, m, handle⟩
    | (some queueObj, m) =>
      match krhinoMmAlloc mm (msgNum * env.ptrSize % 2 ^ env.sizeBits) m with
      | (none, m) => ⟨.noMem, krhinoMmFree m queueObj, handle⟩
      | (some msgStart, m) =>
        let stat := queueCreateStat name msgNum
        if stat ≠ .success then
          ⟨stat, krhinoMmFree (krhinoMmFree m msgStart) queueObj, handle⟩
        else ⟨stat, m, some queueObj⟩

/-- The tests of `buf_queue_create`. -/
def bufQueueCreateStat (name : Bool) (size maxMsg : ℕ) : KStat :=
  if ¬ name then .nullPtr
  else if maxMsg = 0 then .invParam
  else if size = 0 then .bufQueueSizeZero
  else .success

def krhinoBufQueueDynCreate (queue name : Bool) (size maxMsg : ℕ) (handle : Option ℕ) : DynOut :=
  let m : MmCalls := ⟨0, [], []⟩
  if ¬ queue then ⟨.nullPtr, m, handle⟩
  else if size = 0 then ⟨.bufQueueSizeZero, m, handle⟩
  else
    match krhinoMmAlloc mm env.kbufQueue m with
    | (none, m) => ⟨.noMem, m, handle⟩
    | (some queueObj, m) =>
      match krhinoMmAlloc mm size m with
      | (none, m) => ⟨.noMem, krhinoMmFree m queueObj, handle⟩
      | (some buf, m) =>
        let stat := bufQueueCreateStat name size maxMsg
        if stat ≠ .success then ⟨stat, krhinoMmFree (krhinoMmFree m buf) queueObj, handle⟩
        else ⟨.success, m, some queueObj⟩

/-- The tests of `timer_create`. -/
def timerCreateStat (name cb : Bool) (first round : BitVec w) : KStat :=
  if ¬ name then .nullPtr
  else if ¬ cb then .nullPtr
  else if first = 0 then .invParam
  else if first ≥ maxTimerTicks w then .invParam
  else if round ≥ maxTimerTicks w then .invParam
  else if env.intrptNestedLevel > 0 then .notCalledByIntrpt
  else .success

def krhinoTimerDynCreate (timer name cb : Bool) (first round : BitVec w) (handle : Option ℕ) :
    DynOut :=
  let m : MmCalls := ⟨0, [], []⟩
  if ¬ timer then ⟨.nullPtr, m, handle⟩
  else if first ≥ maxTimerTicks w then ⟨.invParam, m, handle⟩
  else if round ≥ maxTimerTicks w then ⟨.invParam, m, handle⟩
  else
    match krhinoMmAlloc mm env.ktimer m with
    | (none, m) => ⟨.noMem, m, handle⟩
    | (some timerObj, m) =>
      let ret := timerCreateStat env name cb first round
      if ret ≠ .success then ⟨ret, krhinoMmFree m timerObj, handle⟩
      else ⟨ret, m, some timerObj⟩

/-- `krhino_kobj_set_dyn_create`; where there is no memory for the queue it
    returns without freeing the set. -/
def krhinoKobjSetDynCreate (handlePtr name : Bool) (msgNum : ℕ) (handle : Option ℕ) : DynOut :=
  let m : MmCalls := ⟨0, [], []⟩
  if ¬ handlePtr then ⟨.nullPtr, m, handle⟩
  else
    match krhinoMmAlloc mm env.kobjSet m with
    | (none, m) => ⟨.noMem, m, handle⟩
    | (some kobjSet, m) =>
      match krhinoMmAlloc mm (env.ptrSize * msgNum % 2 ^ env.sizeBits) m with
      | (none, m) => ⟨.noMem, m, handle⟩
      | (some start, m) =>
        let stat := queueCreateStat name msgNum
        if stat ≠ .success then ⟨stat, krhinoMmFree (krhinoMmFree m kobjSet) start, handle⟩
        else ⟨.success, m, some kobjSet⟩

/-- A call that creates an object, with ticks of `w` bits; the pointers among the
    arguments are `false` for `NULL`. -/
inductive DynCall (w : ℕ)
  | task (task name entry : Bool) (pri stack : ℕ)
  | queue (queue name : Bool) (msgNum : ℕ)
  | bufQueue (queue name : Bool) (size maxMsg : ℕ)
  | timer (timer name cb : Bool) (first round : BitVec w)
  | kobjSet (handlePtr name : Bool) (msgNum : ℕ)

/-- The call, with what is in the handle of the caller. -/
def DynCall.run (handle : Option ℕ) : DynCall w → DynOut
  | .task ptr name entry pri stack => taskDynCreate env mm ptr name entry pri stack handle
  | .queue ptr name msgNum => krhinoQueueDynCreate env mm ptr name msgNum handle
  | .bufQueue ptr name size maxMsg => krhinoBufQueueDynCreate env mm ptr name size maxMsg handle
  | .timer ptr name cb first round => krhinoTimerDynCreate env mm ptr name cb first round handle
  | .kobjSet ptr name msgNum => krhinoKobjSetDynCreate env mm ptr name msgNum handle

end

/-! ## Calls that fail -/

/-- A call that fails has freed each block it was given once and nothing else,
    and puts no freed block into the handle. -/
def DynOut.Clean (handle : Option ℕ) (out : DynOut) : Prop :=
  out.stat ≠ .success → out.mm.freed.Perm out.mm.allocated ∧
    ∀ blk ∈ out.mm.freed, out.handle = some blk → handle = some blk

variable {w : ℕ} {env : DynEnv} {mm : MmOracle} {handle : Option ℕ} {size : ℕ} {m m' : MmCalls}
  {stat : KStat} {blk : ℕ}

/-- An allocation gives a block and counts it, or leaves the blocks as they are. -/
theorem krhinoMmAlloc_cases (mm : MmOracle) (size : ℕ) (m : MmCalls) :
    (∃ m', krhinoMmAlloc mm size m = (none, m') ∧ m'.allocated = m.allocated ∧ m'.freed = m.freed) ∨
      ∃ blk m', krhinoMmAlloc mm size m = (some blk, m') ∧ m'.allocated = blk :: m.allocated ∧
        m'.freed = m.freed := by
  unfold krhinoMmAlloc
  split_ifs with h0
  · exact .inl ⟨m, rfl, rfl, rfl⟩
  · cases mm m.count size with
    | none => exact .inl ⟨_, rfl, rfl, rfl⟩
    | some blk => exact .inr ⟨blk, _, rfl, rfl, rfl⟩

namespace DynOut.Clean

theorem same (h : m.freed.Perm m.allocated) : DynOut.Clean handle ⟨stat, m, handle⟩ :=
  fun _ => ⟨h, fun _ _ hb => hb⟩

theorem null (h : m.freed.Perm m.allocated) : DynOut.Clean handle ⟨stat, m, none⟩ :=
  fun _ => ⟨h, fun _ _ hb => nomatch hb⟩

theorem success (h : stat = .success) : DynOut.Clean handle ⟨stat, m, some blk⟩ :=
  fun hs => absurd h hs

end DynOut.Clean

theorem taskCreateStat_ne_stopped (name entry : Bool) (prio stackSize : ℕ) :
    taskCreateStat env name entry prio stackSize ≠ .stopped := by
  unfold taskCreateStat
  split_ifs <;> simp

theorem taskDynCreate_clean (task name entry : Bool) (pri stack : ℕ) :
    (taskDynCreate env mm task name entry pri stack handle).Clean handle := by
  unfold taskDynCreate
  by_cases htask : ¬ task
  · rw [if_pos htask]
    exact .same .nil
  rw [if_neg htask]
  by_cases hstack : stack = 0
  · rw [if_pos hstack]
    exact .same .nil
  rw [if_neg hstack]
  rcases krhinoMmAlloc_cases mm (stack * env.cpuStack % 2 ^ env.sizeBits) ⟨0, [], []⟩ with
    ⟨m1, h1, ha1, hf1⟩ | ⟨taskStack, m1, h1, ha1, hf1⟩
  · rw [h1]
    exact .same (by simp [ha1, hf1])
  rw [h1]
  dsimp only
  rcases krhinoMmAlloc_cases mm env.ktask m1 with ⟨m2, h2, ha2, hf2⟩ | ⟨taskObj, m2, h2, ha2, hf2⟩
  · rw [h2]
    exact .same (by simp [krhinoMmFree, ha1, hf1, ha2, hf2])
  rw [h2]
  dsimp only
  by_cases hret : taskCreateStat env name entry pri stack ≠ .success ∧
      taskCreateStat env name entry pri stack ≠ .stopped
  · rw [if_pos hret]
    exact .null (by simp [krhinoMmFree, ha1, hf1, ha2, hf2])
  · rw [if_neg hret]
    refine .success ?_
    by_contra hne
    exact hret ⟨hne, taskCreateStat_ne_stopped name entry pri stack⟩

theorem krhinoQueueDynCreate_clean (queue name : Bool) (msgNum : ℕ) :
    (krhinoQueueDynCreate env mm queue name msgNum handle).Clean handle := by
  unfold krhinoQueueDynCreate
  by_cases hqueue : ¬ queue
  · rw [if_pos hqueue]
    exact .same .nil
  rw [if_neg hqueue]
  rcases krhinoMmAlloc_cases mm env.kqueue ⟨0, [], []⟩ with
    ⟨m1, h1, ha1, hf1⟩ | ⟨queueObj, m1, h1, ha1, hf1⟩
  · rw [h1]
    exact .same (by simp [ha1, hf1])
  rw [h1]
  dsimp only
  rcases krhinoMmAlloc_cases mm (msgNum * env.ptrSize % 2 ^ env.sizeBits) m1 with
    ⟨m2, h2, ha2, hf2⟩ | ⟨msgStart, m2, h2, ha2, hf2⟩
  · rw [h2]
    exact .same (by simp [krhinoMmFree, ha1, hf1, ha2, hf2])
  rw [h2]
  dsimp only
  by_cases hstat : queueCreateStat name msgNum ≠ .success
  · rw [if_pos hstat]
    refine .same ?_
    simp only [krhinoMmFree, ha1, hf1, ha2, hf2]
    exact .swap ..
  · rw [if_neg hstat]
    exact .success (not_not.1 hstat)

theorem krhinoBufQueueDynCreate_clean (queue name : Bool) (size maxMsg : ℕ) :
    (krhinoBufQueueDynCreate env mm queue name size maxMsg handle).Clean handle := by
  unfold krhinoBufQueueDynCreate
  by_cases hqueue : ¬ queue
  · rw [if_pos hqueue]
    exact .same .nil
  rw [if_neg hqueue]
  by_cases hsize : size = 0
  · rw [if_pos hsize]
    exact .same .nil
  rw [if_neg hsize]
  rcases krhinoMmAlloc_cases mm env.kbufQueue ⟨0, [], []⟩ with
    ⟨m1, h1, ha1, hf1⟩ | ⟨queueObj, m1, h1, ha1, hf1⟩
  · rw [h1]
    exact .same (by simp [ha1, hf1])
  rw [h1]
  dsimp only
  rcases krhinoMmAlloc_cases mm size m1 with ⟨m2, h2, ha2, hf2⟩ | ⟨buf, m2, h2, ha2, hf2⟩
  · rw [h2]
    exact .same (by simp [krhinoMmFree, ha1, hf1, ha2, hf2])
  rw [h2]
  dsimp only
  by_cases hstat : bufQueueCreateStat name size maxMsg ≠ .success
  · rw [if_pos hstat]
    refine .same ?_
    simp only [krhinoMmFree, ha1, hf1, ha2, hf2]
    exact .swap ..
  · rw [if_neg hstat]
    exact .success rfl

theorem krhinoTimerDynCreate_clean (timer name cb : Bool) (first round : BitVec w) :
    (krhinoTimerDynCreate env mm timer name cb first round handle).Clean handle := by
  unfold krhinoTimerDynCreate
  by_cases htimer : ¬ timer
  · rw [if_pos htimer]
    exact .same .nil
  rw [if_neg htimer]
  by_cases hfirst : first ≥ maxTimerTicks w
  · rw [if_pos hfirst]
    exact .same .nil
  rw [if_neg hfirst]
  by_cases hround : round ≥ maxTimerTicks w
  · rw [if_pos hround]
    exact .same .nil
  rw [if_neg hround]
  rcases krhinoMmAlloc_cases mm env.ktimer ⟨0, [], []⟩ with
    ⟨m1, h1, ha1, hf1⟩ | ⟨timerObj, m1, h1, ha1, hf1⟩
  · rw [h1]
    exact .same (by simp [ha1, hf1])
  rw [h1]
  dsimp only
  by_cases hret : timerCreateStat env name cb first round ≠ .success
  · rw [if_pos hret]
    exact .same (by simp [krhinoMmFree, ha1, hf1])
  · rw [if_neg hret]
    exact .success (not_not.1 hret)

/-- The set is leaked where there is memory for it, but not for its queue. -/
def Starved (env : DynEnv) (mm : MmOracle) (msgNum : ℕ) : Prop :=
  let (kobjSet, m) := krhinoMmAlloc mm env.kobjSet ⟨0, [], []⟩
  kobjSet ≠ none ∧ (krhinoMmAlloc mm (env.ptrSize * msgNum % 2 ^ env.sizeBits) m).1 = none

theorem krhinoKobjSetDynCreate_clean_iff (handlePtr name : Bool) (msgNum : ℕ) :
    (krhinoKobjSetDynCreate env mm handlePtr name msgNum handle).Clean handle ↔
      ¬ (handlePtr ∧ Starved env mm msgNum) := by
  unfold krhinoKobjSetDynCreate Starved
  by_cases hptr : ¬ handlePtr
  · rw [if_pos hptr]
    exact iff_of_true (.same .nil) fun h => hptr h.1
  rw [if_neg hptr]
  rcases krhinoMmAlloc_cases mm env.kobjSet ⟨0, [], []⟩ with
    ⟨m1, h1, ha1, hf1⟩ | ⟨kobjSet, m1, h1, ha1, hf1⟩
  · rw [h1]
    exact iff_of_true (.same (by simp [ha1, hf1])) fun h => h.2.1 rfl
  rw [h1]
  dsimp only
  rcases krhinoMmAlloc_cases mm (env.ptrSize * msgNum % 2 ^ env.sizeBits) m1 with
    ⟨m2, h2, ha2, hf2⟩ | ⟨start, m2, h2, ha2, hf2⟩
  · -- the block of the set is not freed
    rw [h2]
    refine iff_of_false (fun h => ?_) fun h => h ⟨not_not.1 hptr, by simp, rfl⟩
    have hperm := (h (by simp)).1.length_eq
    simp [ha1, hf1, ha2, hf2] at hperm
  · rw [h2]
    refine iff_of_true ?_ fun h => by simp at h
    dsimp only
    by_cases hstat : queueCreateStat name msgNum ≠ .success
    · rw [if_pos hstat]
      exact .same (by simp [krhinoMmFree, ha1, hf1, ha2, hf2])
    · rw [if_neg hstat]
      exact .success rfl

/-- **A creation that fails leaves nothing behind**, unless it is that of an
    object set which gets memory for the set, and none for its queue. -/
theorem dynCreate_clean_iff (env : DynEnv) (mm : MmOracle) (handle : Option ℕ) (call : DynCall w) :
    (call.run env mm handle).Clean handle ↔
      ∀ name msgNum, call = .kobjSet true name msgNum → ¬ Starved env mm msgNum := by
  cases call with
  | task task name entry pri stack =>
    exact iff_of_true (taskDynCreate_clean task name entry pri stack) fun _ _ h => nomatch h
  | queue queue name msgNum =>
    exact iff_of_true (krhinoQueueDynCreate_clean queue name msgNum) fun _ _ h => nomatch h
  | bufQueue queue name size maxMsg =>
    exact iff_of_true (krhinoBufQueueDynCreate_clean queue name size maxMsg) fun _ _ h => nomatch h
  | timer timer name cb first round =>
    exact iff_of_true (krhinoTimerDynCreate_clean timer name cb first round) fun _ _ h => nomatch h
  | kobjSet handlePtr name msgNum =>
    refine (krhinoKobjSetDynCreate_clean_iff ..).trans ?_
    constructor
    · rintro h name' msgNum' heq hs
      cases heq
      exact h ⟨rfl, hs⟩
    · rintro h ⟨hptr, hs⟩
      rw [hptr] at h
      exact h name msgNum rfl hs

/-- A kernel on 32 bits before any interrupt. -/
def plainEnv : DynEnv where
  priMax := 62
  idlePri := 61
  ktask := 128
  kqueue := 64
  kbufQueue := 72
  ktimer := 56
  kobjSet := 68
  cpuStack := 4
  ptrSize := 4
  sizeBits := 32
  intrptNestedLevel := 0
  idleTaskSpawned := true

/-- A set of 16 messages, with a heap that is full after the first block. -/
theorem dynCreate_leaks :
    ¬ ∀ mm handle (call : DynCall 32), (call.run plainEnv mm handle).Clean handle := by
  intro hall
  let mm : MmOracle := fun n _ => if n = 0 then some 0x1000 else none
  have hclean := hall mm none (.kobjSet true true 16)
  exact (krhinoKobjSetDynCreate_clean_iff true true 16).1 hclean ⟨rfl, by decide, by decide⟩

end Rhino
