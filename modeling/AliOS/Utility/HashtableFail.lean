/-
  `ht_add_lockless` where `aos_malloc` may fail.

  `malloc i` is the outcome of the call's allocation with the number `i`.  What the
  call allocates has that number, and what it frees of the bucket has its place
  there: 0 is the root slot.  The root slot and a new item are undone; the update
  of a key that is there is not.  It has freed the old value before it asks for the
  new one, it looks for the null pointer in the item before (`p_item`) in place of
  the item found (`p_tmp`), and then it frees the item, which is still linked.
-/
import AliOS.Utility.Hashtable

namespace Hashtable

open Lib

variable {mem : Heap} {malloc : ℕ → Bool} {h : Ht} {b : Bucket} {key val : Bytes} {item : HtItem}
  {next : List HtItem} {i : ℕ}

/-! ## The source function -/

/-- What a call leaves: the result, the table, the allocations that gave a block and
    those of them that it freed, and the items that it freed. -/
structure AddOut (τ : Type) where
  ret : ℤ
  table : τ
  taken : List ℕ
  released : List ℕ
  freed : List ℕ

/-- The update of a key found in the chain, with `tmp` at the place `i`. -/
def updateNextWith (mem : Heap) (ok : Bool) (key val : Bytes) :
    ℕ → HtItem → List HtItem → Option (AddOut (HtItem × List HtItem))
  | _, _, [] => none
  | i, item, tmp :: next =>
    if mem.isKey key tmp then
      let tmp := { tmp with val := if ok then some (mem.block val.length) else none }
      let taken := if ok then [0] else []
      if item.val = none then some ⟨-1, (item, tmp :: next), taken, [], [i]⟩
      else
        let item := { item with sizeVal := val.length, val := item.val.map (overwrite · val) }
        some ⟨0, (item, tmp :: next), taken, [], []⟩
    else (updateNextWith mem ok key val (i + 1) tmp next).map fun out =>
      { out with table := (item, out.table.1 :: out.table.2) }

/-- `ht_add_lockless` on the bucket of the key. -/
def Bucket.addWith (mem : Heap) (malloc : ℕ → Bool) (key val : Bytes) (b : Bucket) : AddOut Bucket :=
  let new : HtItem := ⟨some key, some val, val.length⟩
  if b.root.key = none then
    if malloc 0 = false then ⟨-1, b, [], [], []⟩
    else if malloc 1 = false then ⟨-1, { b with root := { b.root with key := none, val := none } }, [0], [0], []⟩
    else ⟨0, { b with root := new }, [0, 1], [], []⟩
  else if mem.isKey key b.root then
    if malloc 0 = false then ⟨-1, { b with root := { b.root with val := none } }, [], [], [0]⟩
    else ⟨0, { b with root := { b.root with sizeVal := val.length, val := some val } }, [0], [], []⟩
  else
    match updateNextWith mem (malloc 0) key val 1 b.root b.next with
    | some out => { out with table := ⟨out.table.1, out.table.2⟩ }
    | none =>
      if malloc 0 = false then ⟨-1, b, [], [], []⟩
      else if malloc 1 = false then ⟨-1, b, [0], [0], []⟩
      else if malloc 2 = false then ⟨-1, b, [0, 1], [1, 0], []⟩
      else ⟨0, { b with next := b.next ++ [new] }, [0, 1, 2], [], []⟩

def htAddWith (mem : Heap) (malloc : ℕ → Bool) (h : Ht) (key val : Bytes) : AddOut Ht :=
  if key = [] ∨ val = [] then ⟨-1, h, [], [], []⟩
  else
    let out := (h.item (h.pos key)).addWith mem malloc key val
    { out with table := h.setItem (h.pos key) out.table }

/-- No item before the one that is updated is without a value, as where all
    allocations succeed. -/
theorem updateNextWith_eq (mem : Heap) (key val : Bytes) (i : ℕ) (hval : ∀ p ∈ item :: next, p.val ≠ none) :
    (updateNextWith mem true key val i item next).map (fun out => (out.ret, out.table)) =
      (updateNext mem key val item next).map fun t => (0, t) := by
  induction next generalizing i item with
  | nil => rfl
  | cons tmp next ih =>
    unfold updateNextWith updateNext
    by_cases hkey : mem.isKey key tmp = true
    · rw [if_pos hkey, if_pos hkey, if_neg (hval item List.mem_cons_self)]
      rfl
    · rw [if_neg hkey, if_neg hkey, Option.map_map, Option.map_map]
      have hrest := congrArg (Option.map fun t : ℤ × HtItem × List HtItem => (t.1, item, t.2.1 :: t.2.2))
        (@ih tmp (i + 1) fun p hp => hval p (List.mem_cons_of_mem _ hp))
      rw [Option.map_map, Option.map_map] at hrest
      exact hrest

theorem htAddWith_eq (hval : ∀ p ∈ (h.item (h.pos key)).items, p.key ≠ none → p.val ≠ none)
    (hnext : ∀ p ∈ (h.item (h.pos key)).next, p.key ≠ none) :
    ((htAddWith mem (fun _ => true) h key val).ret, (htAddWith mem (fun _ => true) h key val).table) =
      htAddLockless mem h key val := by
  unfold htAddWith htAddLockless
  by_cases hargs : key = [] ∨ val = []
  · rw [if_pos hargs, if_pos hargs]
  · rw [if_neg hargs, if_neg hargs]
    unfold Bucket.addWith Bucket.add
    by_cases hroot : (h.item (h.pos key)).root.key = none
    · rw [if_pos hroot, if_pos hroot]
      rfl
    rw [if_neg hroot, if_neg hroot]
    by_cases hkey : mem.isKey key (h.item (h.pos key)).root = true
    · rw [if_pos hkey, if_pos hkey]
      rfl
    rw [if_neg hkey, if_neg hkey]
    have hvals : ∀ p ∈ (h.item (h.pos key)).root :: (h.item (h.pos key)).next, p.val ≠ none := by
      intro p hp
      rcases List.mem_cons.1 hp with rfl | hp'
      · exact hval _ hp hroot
      · exact hval _ hp (hnext _ hp')
    have heq := updateNextWith_eq mem key val 1 hvals
    cases hold : updateNext mem key val (h.item (h.pos key)).root (h.item (h.pos key)).next with
    | none =>
      rw [hold, Option.map_none] at heq
      rw [Option.map_eq_none_iff.1 heq]
      rfl
    | some t =>
      rw [hold, Option.map_some] at heq
      obtain ⟨out, hout, hpair⟩ := Option.map_eq_some_iff.1 heq
      obtain ⟨hret, htable⟩ := Prod.mk.inj hpair
      rw [hout]
      dsimp only
      rw [hret, htable]

/-! ## A failed call -/

/-- The call is undone: every key is found as before, no item that is linked was freed,
    and all that was allocated was. -/
structure Undone (h : Ht) (key : Bytes) (out : AddOut Ht) : Prop where
  finds : ∀ mem k val sizeVal, htFindLockless mem out.table k val sizeVal = htFindLockless mem h k val sizeVal
  linked : ∀ i ∈ out.freed, ¬ i < (out.table.item (h.pos key)).items.length
  released : out.taken.Perm out.released

/-- The first item of the chain that is taken for the key has an item without a
    value before it. -/
def BehindNull (mem : Heap) (key : Bytes) : HtItem → List HtItem → Prop
  | _, [] => False
  | item, tmp :: next => if mem.isKey key tmp then item.val = none else BehindNull mem key tmp next

/-- The key is there, and its update fails: at the root for want of memory, in the chain
    for the item before. -/
def SpoilsUpdate (mem : Heap) (malloc : ℕ → Bool) (key : Bytes) (b : Bucket) : Prop :=
  b.root.key ≠ none ∧
    if mem.isKey key b.root then malloc 0 = false else BehindNull mem key b.root b.next

theorem isKey_none (mem : Heap) (key : Bytes) (hkey : item.key = none) : mem.isKey key item = false := by
  unfold Heap.isKey
  rw [hkey]

theorem updateNextWith_spec {ok : Bool} {out : AddOut (HtItem × List HtItem)}
    (hout : updateNextWith mem ok key val i item next = some out) :
    (out.ret = -1 ↔ BehindNull mem key item next) ∧ out.table.2.length = next.length ∧
      (out.ret = -1 → ∃ j ∈ out.freed, j < i + next.length) := by
  induction next generalizing i item out with
  | nil => cases hout
  | cons tmp next ih =>
    unfold updateNextWith at hout
    unfold BehindNull
    by_cases hkey : mem.isKey key tmp = true
    · rw [if_pos hkey] at hout ⊢
      by_cases hval : item.val = none
      · rw [if_pos hval] at hout
        cases hout
        refine ⟨iff_of_true rfl hval, rfl, fun _ => ⟨i, List.mem_singleton_self i, ?_⟩⟩
        rw [List.length_cons]
        omega
      · rw [if_neg hval] at hout
        cases hout
        exact ⟨iff_of_false (by decide : (0 : ℤ) ≠ -1) hval, rfl, fun h => absurd h (by decide : (0 : ℤ) ≠ -1)⟩
    · rw [if_neg hkey] at hout ⊢
      obtain ⟨out', hout', rfl⟩ := Option.map_eq_some_iff.1 hout
      obtain ⟨hret, hlen, hfreed⟩ := ih hout'
      refine ⟨hret, congrArg Nat.succ hlen, fun h => ?_⟩
      obtain ⟨j, hj, hless⟩ := hfreed h
      refine ⟨j, hj, ?_⟩
      rw [List.length_cons]
      omega

theorem updateNextWith_none {ok : Bool} (hout : updateNextWith mem ok key val i item next = none) :
    ¬ BehindNull mem key item next := by
  induction next generalizing i item with
  | nil => exact id
  | cons tmp next ih =>
    unfold updateNextWith at hout
    unfold BehindNull
    dsimp only at hout
    by_cases hkey : mem.isKey key tmp = true
    · rw [if_pos hkey] at hout
      split_ifs at hout
    · rw [if_neg hkey] at hout ⊢
      exact ih (Option.map_eq_none_iff.1 hout)

theorem find_setItem {b' : Bucket} (hfind : ∀ mem k, b'.items.find? (Heap.isKey mem k) =
      (h.item i).items.find? (Heap.isKey mem k)) (mem : Heap) (k : Bytes) (val : Option (ℕ → UInt8))
    (sizeVal : Option ℕ) :
    htFindLockless mem (h.setItem i b') k val sizeVal = htFindLockless mem h k val sizeVal := by
  have hsame : ((h.setItem i b').bucket k).bind (fun b => b.items.find? (mem.isKey k)) =
      (h.bucket k).bind fun b => b.items.find? (mem.isKey k) := by
    unfold Ht.bucket
    split_ifs with hk
    · rfl
    · have hpos : (h.setItem i b').pos k = h.pos k := rfl
      rw [hpos, Option.bind_some, Option.bind_some]
      unfold Ht.setItem
      dsimp only
      by_cases hi : h.pos k = i
      · rw [hi, Function.update_self, hfind]
      · rw [Function.update_of_ne hi]
  unfold htFindLockless
  rw [hsame]

theorem undone_of_same {b' : Bucket} {ret : ℤ} {taken released : List ℕ}
    (hfind : ∀ mem k, b'.items.find? (Heap.isKey mem k) = (h.item (h.pos key)).items.find? (Heap.isKey mem k))
    (hperm : taken.Perm released) :
    Undone h key ⟨ret, h.setItem (h.pos key) b', taken, released, []⟩ where
  finds := find_setItem hfind
  linked := nofun
  released := hperm

theorem not_undone_of_freed {out : AddOut Bucket} (hfreed : ∃ j ∈ out.freed, j < out.table.items.length) :
    ¬ Undone h key { out with table := h.setItem (h.pos key) out.table } := by
  obtain ⟨j, hj, hless⟩ := hfreed
  intro hundone
  refine hundone.linked j hj ?_
  unfold Ht.setItem
  dsimp only
  rwa [Function.update_self]

theorem bucket_undone_iff (h : Ht) :
    let out := (h.item (h.pos key)).addWith mem malloc key val
    (out.ret = -1 → Undone h key { out with table := h.setItem (h.pos key) out.table }) ↔
      ¬ SpoilsUpdate mem malloc key (h.item (h.pos key)) := by
  unfold Bucket.addWith SpoilsUpdate
  by_cases hroot : (h.item (h.pos key)).root.key = none
  · -- the root slot is undone
    rw [if_pos hroot]
    refine iff_of_true (fun hret => ?_) fun hs => hs.1 hroot
    split_ifs at hret ⊢
    · exact undone_of_same (fun _ _ => rfl) (List.Perm.refl _)
    · refine undone_of_same (fun mem k => ?_) (List.Perm.refl _)
      have hold := isKey_none mem k hroot
      unfold Bucket.items
      rw [List.find?_cons, List.find?_cons, hold]
      rfl
  rw [if_neg hroot]
  by_cases hkey : mem.isKey key (h.item (h.pos key)).root = true
  · -- the update of the root
    rw [if_pos hkey, if_pos hkey]
    by_cases hmalloc : malloc 0 = false
    · rw [if_pos hmalloc]
      refine iff_of_false (fun hu => ?_) fun hs => hs ⟨hroot, hmalloc⟩
      exact not_undone_of_freed ⟨0, List.mem_singleton_self 0, Nat.succ_pos _⟩ (hu rfl)
    · rw [if_neg hmalloc]
      exact iff_of_true (fun hret => absurd hret (by decide : (0 : ℤ) ≠ -1)) fun hs => hmalloc hs.2
  rw [if_neg hkey, if_neg hkey, and_iff_right hroot]
  cases hout : updateNextWith mem (malloc 0) key val 1 (h.item (h.pos key)).root (h.item (h.pos key)).next with
  | some out =>
    -- the update in the chain
    obtain ⟨hret, hlen, hfreed⟩ := updateNextWith_spec hout
    rw [← hret]
    refine ⟨fun hu hfail => ?_, fun hok hfail => absurd hfail hok⟩
    obtain ⟨j, hj, hless⟩ := hfreed hfail
    have hlinked : j < (Bucket.mk out.table.1 out.table.2).items.length := by
      unfold Bucket.items
      rw [List.length_cons, hlen]
      omega
    let out' : AddOut Bucket := { out with table := ⟨out.table.1, out.table.2⟩ }
    have hfreed' : ∃ j ∈ out'.freed, j < out'.table.items.length := ⟨j, hj, hlinked⟩
    exact not_undone_of_freed hfreed' (hu hfail)
  | none =>
    -- a new item
    refine iff_of_true (fun hret => ?_) (updateNextWith_none hout)
    split_ifs at hret ⊢
    · exact undone_of_same (fun _ _ => rfl) (List.Perm.refl _)
    · exact undone_of_same (fun _ _ => rfl) (List.Perm.refl _)
    · exact undone_of_same (fun _ _ => rfl) (List.Perm.swap ..)

/-- **A failed add** leaves the table as it was, exactly where it is not the update of a
    key that is there. -/
theorem failed_add_undone_iff (mem : Heap) (malloc : ℕ → Bool) (h : Ht) (key val : Bytes) :
    ((htAddWith mem malloc h key val).ret = -1 → Undone h key (htAddWith mem malloc h key val)) ↔
      key = [] ∨ val = [] ∨ ¬ SpoilsUpdate mem malloc key (h.item (h.pos key)) := by
  unfold htAddWith
  by_cases hargs : key = [] ∨ val = []
  · rw [if_pos hargs]
    refine iff_of_true (fun _ => ⟨fun _ _ _ _ => rfl, nofun, List.Perm.refl _⟩) ?_
    rw [← or_assoc]
    exact .inl hargs
  · rw [if_neg hargs, ← or_assoc, or_iff_right hargs]
    exact bucket_undone_iff h

/-! ## Tables that are reached -/

/-- The tables reached from `ht_init` by calls that free no linked item. -/
inductive HtReach (cnt : ℕ) : Ht → Prop
  | init : HtReach cnt (htInit cnt)
  | add {h : Ht} (mem : Heap) (malloc : ℕ → Bool) (key val : Bytes) : HtReach cnt h →
    (htAddWith mem malloc h key val).freed = [] → HtReach cnt (htAddWith mem malloc h key val).table
  | del {h : Ht} (mem : Heap) (key : Bytes) : HtReach cnt h → HtReach cnt (htDelLockless mem h key).2

/-- The update of the only key, with no memory left. -/
theorem failed_add_not_undone :
    ¬ ∀ cnt h, HtReach cnt h → ∀ mem malloc key val,
      (htAddWith mem malloc h key val).ret = -1 → Undone h key (htAddWith mem malloc h key val) := by
  intro hall
  let mem : Heap := ⟨fun _ _ => 0, fun _ => 0⟩
  let h := (htAddWith mem (fun _ => true) (htInit 1) [1] [1]).table
  have hreach : HtReach 1 h := .add mem (fun _ => true) [1] [1] .init rfl
  have hundone := hall 1 h hreach mem (fun _ => false) [1] [2] (by decide)
  exact hundone.linked 0 (by decide) (by decide)

end Hashtable
