/-
  The hash table.

  `Ht` embeds `ht_t` of `hashtable.c`: each bucket is a root slot that a delete
  empties in place, and a chain behind it.  Keys are stored without their
  length, so `memcmp` runs over the end of a shorter key; `Heap` says what lies
  there, and what a block holds before it is written.  Allocations succeed.
-/
import AliOS.Lib.Cells
import AliOS.Lib.Trans
import Mathlib.Data.BitVec

namespace Hashtable

open Lib

/-- The bytes of a key or of a value. -/
abbrev Bytes := List UInt8

/-- `ht_item_t` without its link; `none` is the null pointer. -/
structure HtItem where
  key : Option Bytes
  val : Option Bytes
  sizeVal : ℕ

/-- A slot of the table: the root item, and the items linked behind it. -/
structure Bucket where
  root : HtItem
  next : List HtItem

/-- `ht_t`. -/
structure Ht where
  cnt : ℕ
  item : ℕ → Bucket

/-- The memory that an operation sees outside what the table wrote: the bytes
    behind the key block of an item, and the bytes of a new block. -/
structure Heap where
  behind : HtItem → ℕ → UInt8
  junk : ℕ → UInt8

def Bucket.items (b : Bucket) : List HtItem := b.root :: b.next

/-! ## The source functions -/

/-- `memset` of an item. -/
def HtItem.zero : HtItem := ⟨none, none, 0⟩

def hashFunc (key : Bytes) : BitVec 32 :=
  let hash := key.foldl (fun hash b =>
    let hash := hash + BitVec.ofNat 32 b.toNat
    let hash := hash + hash <<< 10
    hash ^^^ hash >>> 6) 0
  let hash := hash + hash <<< 3
  let hash := hash ^^^ hash >>> 11
  hash + hash <<< 15

/-- `ht_init` with `max_cnt` at least 1. -/
def htInit (maxCnt : ℕ) : Ht := { cnt := maxCnt, item := fun _ => ⟨.zero, []⟩ }

/-- The table with the bucket `b` in slot `i`. -/
def Ht.setItem (h : Ht) (i : ℕ) (b : Bucket) : Ht := { h with item := Function.update h.item i b }

/-- The slot of a key. -/
def Ht.pos (h : Ht) (key : Bytes) : ℕ := (hashFunc key).toNat % h.cnt

/-- `_ht_find_lockless`: the bucket of a key, none for an empty key. -/
def Ht.bucket (h : Ht) (key : Bytes) : Option Bucket :=
  if key = [] then none else some (h.item (h.pos key))

/-- `!memcmp(stored, key, key_len)`, where `behind` are the bytes behind the
    stored ones. -/
def memcmpEq : Bytes → (ℕ → UInt8) → Bytes → Bool
  | _, _, [] => true
  | [], behind, k :: key => behind 0 = k && memcmpEq [] (fun i => behind (i + 1)) key
  | s :: stored, behind, k :: key => s = k && memcmpEq stored behind key

/-- `p->key && !memcmp(p->key, key, key_len)`. -/
def Heap.isKey (mem : Heap) (key : Bytes) (p : HtItem) : Bool :=
  match p.key with
  | some stored => memcmpEq stored (mem.behind p) key
  | none => false

/-- What `ht_find` returns: the block of the value, and the caller's `val` and
    `size_val`. -/
structure Found where
  ret : Option Bytes
  val : Option (ℕ → UInt8)
  sizeVal : Option ℕ

/-- Copy the value to the caller, cut to the caller's size. -/
def copyVal (ret : ℕ → UInt8) (size : ℕ) (val : ℕ → UInt8) (sizeVal : ℕ) : ℕ → UInt8 :=
  memcpy val 0 ret (if size > sizeVal then sizeVal else size)

def htFindLockless (mem : Heap) (h : Ht) (key : Bytes) (val : Option (ℕ → UInt8))
    (sizeVal : Option ℕ) : Found :=
  match (h.bucket key).bind fun b => b.items.find? (mem.isKey key) with
  | none => ⟨none, val, sizeVal⟩
  | some p =>
    match p.val, val, sizeVal with
    | some ret, some dst, some n =>
      ⟨some ret, some (copyVal (fun i => ret.getD i (mem.junk i)) p.sizeVal dst n), some p.sizeVal⟩
    | ret, val, sizeVal => ⟨ret, val, sizeVal⟩

/-- `memcpy` of `val` to the block `old`, which keeps its length. -/
def overwrite (old val : Bytes) : Bytes := val.take old.length ++ old.drop val.length

/-- A block of `n` bytes as it comes from `aos_malloc`. -/
def Heap.block (mem : Heap) (n : ℕ) : Bytes := slice mem.junk 0 n

/-- The update of a key found in the chain: `p_tmp` is the item found, and
    `p_item` the one before it.  `p_tmp` gets a new block, but the size and the
    bytes go to `p_item`, whose value is not null: the root has a key here. -/
def updateNext (mem : Heap) (key val : Bytes) :
    HtItem → List HtItem → Option (HtItem × List HtItem)
  | _, [] => none
  | item, tmp :: next =>
    if mem.isKey key tmp then
      some ({ item with sizeVal := val.length, val := item.val.map (overwrite · val) },
        { tmp with val := some (mem.block val.length) } :: next)
    else (updateNext mem key val tmp next).map fun (tmp, next) => (item, tmp :: next)

/-- `ht_add_lockless`: the status, and the bucket. -/
def Bucket.add (mem : Heap) (key val : Bytes) (b : Bucket) : Bucket :=
  let new : HtItem := ⟨some key, some val, val.length⟩
  if b.root.key = none then { b with root := new }
  else if mem.isKey key b.root then
    -- here `p_item` is `p_tmp`
    { b with root := { b.root with sizeVal := val.length, val := some val } }
  else
    match updateNext mem key val b.root b.next with
    | some (root, next) => ⟨root, next⟩
    | none => { b with next := b.next ++ [new] }

def htAddLockless (mem : Heap) (h : Ht) (key val : Bytes) : ℤ × Ht :=
  if key = [] ∨ val = [] then (-1, h)
  else (0, h.setItem (h.pos key) ((h.item (h.pos key)).add mem key val))

/-- The test of `_ht_del_node`; without a key it takes every item. -/
def Heap.isDel (mem : Heap) (key : Option Bytes) (p : HtItem) : Bool :=
  p.key.isSome && p.val.isSome && key.all fun key => mem.isKey key p

/-- The loop of `_ht_del_node` over the items behind the root, which it frees. -/
def delNext (mem : Heap) (key : Option Bytes) : List HtItem → ℤ × List HtItem
  | [] => (-1, [])
  | parent :: next =>
    if mem.isDel key parent then
      if key.isSome then (0, next) else (0, (delNext mem key next).2)
    else
      let (ret, next) := delNext mem key next
      (ret, parent :: next)

/-- `_ht_del_node`: the root is emptied, not freed. -/
def htDelNode (mem : Heap) (key : Option Bytes) (b : Bucket) : ℤ × Bucket :=
  if mem.isDel key b.root then
    let root := { b.root with key := none, val := none }
    if key.isSome then (0, { b with root }) else (0, ⟨root, (delNext mem key b.next).2⟩)
  else
    let (ret, next) := delNext mem key b.next
    (ret, { b with next })

def htDelLockless (mem : Heap) (h : Ht) (key : Bytes) : ℤ × Ht :=
  match h.bucket key with
  | none => (-1, h)
  | some b =>
    let (ret, b) := htDelNode mem (some key) b
    (ret, h.setItem (h.pos key) b)

/-! ## Runs -/

inductive HtOp
  | add (key val : Bytes)
  | del (key : Bytes)
  | find (key : Bytes) (val : Option (ℕ → UInt8)) (sizeVal : Option ℕ)

/-- The key a call is about. -/
def HtOp.key : HtOp → Bytes
  | .add key _ => key
  | .del key => key
  | .find key _ _ => key

inductive HtOut
  | status (ret : ℤ)
  | found (res : Found)

/-- One call, under its mutex. -/
def Ht.step (h : Ht) (mem : Heap) : HtOp → Ht × HtOut
  | .add key val => ((htAddLockless mem h key val).2, .status (htAddLockless mem h key val).1)
  | .del key => ((htDelLockless mem h key).2, .status (htDelLockless mem h key).1)
  | .find key val sizeVal => (h, .found (htFindLockless mem h key val sizeVal))

/-- A step, with the call, the heap it meets and what it returns. -/
def HtStep (h : Ht) (a : Heap × HtOp × HtOut) (h' : Ht) : Prop := h.step a.1 a.2.1 = (h', a.2.2)

/-! ## The map -/

/-- A finite map from keys to values. -/
abbrev Map := Bytes → Option Bytes

/-- One call on the map. -/
def mapStep (m : Map) : HtOp → Map × HtOut
  | .add key val =>
    if key = [] ∨ val = [] then (m, .status (-1))
    else (Function.update m key (some val), .status 0)
  | .del key => (Function.update m key none, .status (if (m key).isSome then 0 else -1))
  | .find key val sizeVal =>
    match m key, val, sizeVal with
    | some v, some dst, some n =>
      (m, .found ⟨some v, some (copyVal (fun i => v.getD i 0) v.length dst n), some v.length⟩)
    | ret, val, sizeVal => (m, .found ⟨ret, val, sizeVal⟩)

def MapStep (m : Map) (a : Heap × HtOp × HtOut) (m' : Map) : Prop := mapStep m a.2.1 = (m', a.2.2)

end Hashtable
