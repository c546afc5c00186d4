/-
  Rhino kernel: object sets (`k_obj_set.c`).

  In the queue of a set an object stands once for each unit it holds.  A send
  adds the entry after the critical section that has counted the unit, if the
  object has a `handle`; an insertion counts the units in one critical section
  and sets the `handle` in another.  Of an object the set sees its type, its
  count and whether a task is blocked on it (`SetObj`): what the three sends do
  to these is `SendOutcome`.
-/
import AliOS.Rhino.BufQueue
import AliOS.Lib.Trans

namespace Rhino

open Lib

variable {w : ℕ}

/-- A blocking object, as a set sees it. -/
structure SetObj where
  objType : KobjType
  count : ℕ
  blkList : List TaskId

def Sem.setObj (k : Kernel w) (sem : Sem) : SetObj :=
  ⟨(k.objs sem.blkObj).objType, sem.count, (k.objs sem.blkObj).blkList⟩

def KQueue.setObj (k : Kernel w) (q : KQueue) : SetObj :=
  ⟨(k.objs q.blkObj).objType, q.msgQ.curNum, (k.objs q.blkObj).blkList⟩

def KBufQueue.setObj (k : Kernel w) (q : KBufQueue) : SetObj :=
  ⟨(k.objs q.blkObj).objType, q.curNum, (k.objs q.blkObj).blkList⟩

def kobjInternalCountGet (o : SetObj) : KStat × ℕ :=
  match o.objType with
  | .sem | .bufQueue | .queue => (.success, o.count)
  | _ => (.kobjTypeErr, 0)

/-- What a send does to the object: it is refused, it counts its unit, or it
    hands it to a task that is blocked.  Only one that counts notifies the set. -/
inductive SendOutcome (o : SetObj) : Bool → SetObj → Prop
  | refused : SendOutcome o false o
  | counted (hl : o.blkList = []) : SendOutcome o true { o with count := o.count + 1 }
  | handed {l} (hl : o.blkList ≠ []) : SendOutcome o false { o with blkList := l }

/-- Where a send is that has counted its unit: at the test of `handle`, or past
    it; `snap` tells whether an insertion has counted the unit since. -/
inductive SendPc where
  | test (snap : Bool)
  | notify
  deriving DecidableEq

/-- Where the insertion is: `n` entries are to be sent, or the `handle` is to be
    set. -/
inductive InsPc where
  | idle
  | push (n : ℕ)
  | install
  deriving DecidableEq

/-- Where the owner of the set is: blocked in `krhino_kobj_select`, back from it
    with an object, or blocked on the object. -/
inductive OwnerPc where
  | idle
  | waitSet
  | chosen (o : ObjId)
  | waitObj
  deriving DecidableEq

/-- An object and a set: the queue of the set, which has room for `size`
    entries, the sends on their way, the insertion and the owner. -/
structure SetSys where
  obj : SetObj
  handle : Bool
  queue : List ObjId
  size : ℕ
  overflow : Bool
  sends : List SendPc
  ins : InsPc
  owner : OwnerPc

namespace SetSys

/-- `krhino_kobj_set_notify`: a send of `o` to the back of the queue of the set,
    which hands it to the owner if it is blocked there. -/
def notify (s : SetSys) (o : ObjId) : SetSys :=
  if s.queue.length ≥ s.size then { s with overflow := true }
  else if s.owner = .waitSet then { s with owner := .chosen o }
  else { s with queue := s.queue ++ [o] }

/-- The loop of `kobj_insert_prepare`.  A send that wakes the owner lets other
    tasks run, within the critical section. -/
def pushAll (obj : ObjId) : ℕ → SetSys → SetSys
  | 0, s => { s with ins := .install }
  | n + 1, s =>
    if s.owner = .waitSet then { s.notify obj with ins := .push n } else pushAll obj n (s.notify obj)

/-- The sends on their way have their units counted by the insertion. -/
def snapshot (s : SetSys) : SetSys :=
  { s with sends := s.sends.map fun
      | .test _ => .test true
      | .notify => .notify }

def kobjInsertPrepare (obj : ObjId) (s : SetSys) : KStat × SetSys :=
  if s.obj.blkList ≠ [] then (.kobjBlk, s)
  else
    let free := s.size - s.queue.length
    let (stat, count) := kobjInternalCountGet s.obj
    if stat ≠ .success then (stat, s)
    else if count > free then (.kobjSetFull, s)
    else (.success, pushAll obj count s.snapshot)

end SetSys

/-- The steps; `other` is the notification of another object. -/
inductive SetAct where
  | send
  | test (snap : Bool)
  | notify
  | other (o : ObjId)
  | prepare (stat : KStat)
  | push
  | install
  | select
  | take
  | timeout
  deriving DecidableEq

/-- The steps of the object at `id` and the set.  Only the owner takes from the
    object, when `krhino_kobj_select` has given it. -/
inductive SetStep (id : ObjId) : SetSys → SetAct → SetSys → Prop
  | send {s o} (h : SendOutcome s.obj true o) :
    SetStep id s .send { s with obj := o, sends := .test false :: s.sends }
  | refused {s o} (h : SendOutcome s.obj false o) :
    SetStep id s .send
      { s with obj := o, owner := if s.owner = .waitObj ∧ o.blkList = [] then .idle else s.owner }
  | test {s snap l₁ l₂} (hs : s.sends = l₁ ++ .test snap :: l₂) :
    SetStep id s (.test snap)
      { s with sends := l₁ ++ if s.handle then .notify :: l₂ else l₂ }
  | notify {s l₁ l₂} (hs : s.sends = l₁ ++ .notify :: l₂) :
    SetStep id s .notify { s.notify id with sends := l₁ ++ l₂ }
  | other {s o} (ho : o ≠ id) : SetStep id s (.other o) (s.notify o)
  | prepare {s r} (hi : s.ins = .idle) (h : s.kobjInsertPrepare id = r) :
    SetStep id s (.prepare r.1) r.2
  | push {s n} (hi : s.ins = .push n) : SetStep id s .push (s.pushAll id n)
  | install {s} (hi : s.ins = .install) :
    SetStep id s .install { s with handle := true, ins := .idle }
  | select {s o q} (ho : s.owner = .idle) (hq : s.queue = o :: q) :
    SetStep id s .select { s with owner := .chosen o, queue := q }
  | selectWait {s} (ho : s.owner = .idle) (hq : s.queue = []) :
    SetStep id s .select { s with owner := .waitSet }
  | selectEnd {s} (ho : s.owner = .waitSet) : SetStep id s .timeout { s with owner := .idle }
  | takeOther {s o} (ho : s.owner = .chosen o) (hne : o ≠ id) :
    SetStep id s .take { s with owner := .idle }
  | take {s n} (ho : s.owner = .chosen id) (hc : s.obj.count = n + 1) :
    SetStep id s .take { s with owner := .idle, obj := { s.obj with count := n } }
  | takeNone {s} (ho : s.owner = .chosen id) (hc : s.obj.count = 0) :
    SetStep id s .take { s with owner := .idle }
  | takeWait {s t} (ho : s.owner = .chosen id) (hc : s.obj.count = 0) :
    SetStep id s .take { s with owner := .waitObj, obj := { s.obj with blkList := [t] } }
  | takeEnd {s} (ho : s.owner = .waitObj) :
    SetStep id s .timeout { s with owner := .idle, obj := { s.obj with blkList := [] } }

/-- No call is in progress. -/
def SetSys.Quiescent (s : SetSys) (id : ObjId) : Prop :=
  s.sends = [] ∧ s.ins = .idle ∧ s.owner ≠ .chosen id

end Rhino
