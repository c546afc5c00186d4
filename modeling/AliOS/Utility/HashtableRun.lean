/-
  The hash table and the map it is for.

  A bucket in order (`BucketWf`) stores each key once, and an operation that
  takes no key for another (`Exact`) acts on the bucket as on a map.  Two
  defects make the difference: `memcmp` over the length of the key asked for
  confuses a key with the longer keys it begins, and an add of a key that is
  stored behind the root goes to the item before it, or twice into the bucket.
-/
import AliOS.Utility.Hashtable

namespace Hashtable

open Lib

variable {mem : Heap} {key k : Bytes} {b : Bucket} {p q : HtItem} {next : List HtItem}

/-! ## Comparing keys -/

theorem memcmpEq_self (behind : ℕ → UInt8) (key : Bytes) : memcmpEq key behind key = true := by
  induction key generalizing behind with
  | nil => rfl
  | cons k key ih => simp [memcmpEq, ih]

theorem isKey_self (h : p.key = some key) : mem.isKey key p = true := by
  unfold Heap.isKey
  rw [h]
  exact memcmpEq_self ..

/-- No item is taken for the key without being stored under it. -/
def Exact (mem : Heap) (key : Bytes) (ps : List HtItem) : Prop :=
  ∀ p ∈ ps, mem.isKey key p = true → p.key = some key

/-! ## Buckets in order -/

/-- An item that holds a key and its value. -/
def HtItem.Full (p : HtItem) : Prop := ∃ k v, p = ⟨some k, some v, v.length⟩

/-- Two items hold different keys. -/
def Apart (p q : HtItem) : Prop := ∀ k, p.key = some k → q.key ≠ some k

instance : Std.Symm Apart := ⟨fun _ _ h k hq hp => h k hp hq⟩

/-- A bucket in order, whose keys satisfy `P`. -/
structure BucketWf (P : Bytes → Prop) (b : Bucket) : Prop where
  root : b.root.Full ∨ b.root.key = none ∧ b.root.val = none
  next : ∀ p ∈ b.next, p.Full
  apart : b.items.Pairwise Apart
  home : ∀ p ∈ b.items, ∀ k, p.key = some k → P k

/-- One of the items holds the key and the value. -/
def Has (ps : List HtItem) (k v : Bytes) : Prop := ∃ p ∈ ps, p.key = some k ∧ p.val = some v

theorem has_cons {ps : List HtItem} {k v : Bytes} :
    Has (p :: ps) k v ↔ p.key = some k ∧ p.val = some v ∨ Has ps k v := by
  simp [Has]

theorem has_append {ps qs : List HtItem} {k v : Bytes} :
    Has (ps ++ qs) k v ↔ Has ps k v ∨ Has qs k v := by
  simp [Has, or_and_right, exists_or]

theorem not_has {ps : List HtItem} {k v : Bytes} (h : ∀ p ∈ ps, p.key ≠ some k) : ¬ Has ps k v :=
  fun ⟨p, hp, hk, _⟩ => h p hp hk

@[simp] theorem has_new {k v key val : Bytes} {n : ℕ} :
    Has [⟨some key, some val, n⟩] k v ↔ key = k ∧ val = v := by
  simp [Has]

variable {P : Bytes → Prop}

theorem BucketWf.full (h : BucketWf P b) (hp : p ∈ b.items) (hk : p.key = some k) :
    ∃ v, p = ⟨some k, some v, v.length⟩ := by
  have hfull : p.Full := by
    rcases List.mem_cons.1 hp with rfl | hp
    · rcases h.root with hf | ⟨hn, -⟩
      · exact hf
      · rw [hn] at hk
        cases hk
    · exact h.next p hp
  obtain ⟨k', v, rfl⟩ := hfull
  cases hk
  exact ⟨v, rfl⟩

theorem find_eq {ps : List HtItem} (he : Exact mem key ps) :
    (∃ p ∈ ps, ps.find? (mem.isKey key) = some p ∧ p.key = some key) ∨
      ps.find? (mem.isKey key) = none ∧ ∀ p ∈ ps, p.key ≠ some key := by
  cases hf : ps.find? (mem.isKey key) with
  | none =>
    refine .inr ⟨rfl, fun p hp hk => ?_⟩
    exact List.find?_eq_none.1 hf p hp (isKey_self hk)
  | some p =>
    have hp := List.mem_of_find?_eq_some hf
    exact .inl ⟨p, hp, rfl, he p hp (List.find?_some hf)⟩

/-! ## Add -/

theorem updateNext_none {val : Bytes} {item : HtItem} (h : ∀ p ∈ next, mem.isKey key p = false) :
    updateNext mem key val item next = none := by
  induction next generalizing item with
  | nil => rfl
  | cons tmp next ih =>
    obtain ⟨htmp, hnext⟩ := List.forall_mem_cons.1 h
    unfold updateNext
    rw [if_neg (by rw [htmp]; decide), ih hnext]
    rfl

theorem Bucket.add_cases (val : Bytes) (he : Exact mem key b.items)
    (hn : ∀ p ∈ b.next, p.key ≠ some key) :
    ((b.root.key = none ∨ b.root.key = some key) ∧
        ∃ n, b.add mem key val = { b with root := ⟨some key, some val, n⟩ } ∧ n = val.length) ∨
      (b.root.key ≠ none ∧ b.root.key ≠ some key ∧
        b.add mem key val = { b with next := b.next ++ [⟨some key, some val, val.length⟩] }) := by
  unfold Bucket.add
  split_ifs with hnone hkey
  · exact .inl ⟨.inl hnone, _, rfl, rfl⟩
  · have hroot := he b.root (List.mem_cons_self ..) hkey
    refine .inl ⟨.inr hroot, _, ?_, rfl⟩
    rw [← hroot]
  · refine .inr ⟨hnone, fun hk => hkey (isKey_self hk), ?_⟩
    rw [updateNext_none fun p hp => ?_]
    rw [Bool.eq_false_iff]
    exact fun hk => hn p hp (he p (List.mem_cons_of_mem _ hp) hk)

theorem BucketWf.add (val : Bytes) (h : BucketWf P b) (hP : P key) (he : Exact mem key b.items)
    (hn : ∀ p ∈ b.next, p.key ≠ some key) :
    BucketWf P (b.add mem key val) ∧
      ∀ k v, Has (b.add mem key val).items k v ↔ if k = key then val = v else Has b.items k v := by
  rcases Bucket.add_cases val he hn with ⟨hroot, n, hb, rfl⟩ | ⟨-, hne, hb⟩
  · -- the new item is the root
    have hapart := List.pairwise_cons.1 h.apart
    rw [hb]
    refine ⟨⟨.inl ⟨key, val, rfl⟩, h.next, ?_, ?_⟩, ?_⟩
    · refine List.pairwise_cons.2 ⟨fun q hq k hk => ?_, hapart.2⟩
      cases hk
      exact hn q hq
    · refine List.forall_mem_cons.2 ⟨fun k hk => ?_, fun p hp => h.home p (List.mem_cons_of_mem _ hp)⟩
      cases hk
      exact hP
    · intro k v
      unfold Bucket.items
      rw [has_cons, has_cons]
      split_ifs with hk
      · subst hk
        simp [not_has hn]
      · have hold : b.root.key ≠ some k := by
          rcases hroot with hr | hr
          · rw [hr]
            exact nofun
          · rw [hr]
            exact fun hkk => hk (Option.some.inj hkk).symm
        simp [Ne.symm hk, hold]
  · -- the new item is the last
    have hitems : (b.add mem key val).items = b.items ++ [⟨some key, some val, val.length⟩] := by
      rw [hb]
      rfl
    have hother : ∀ p ∈ b.items, p.key ≠ some key := List.forall_mem_cons.2 ⟨hne, hn⟩
    refine ⟨⟨?_, ?_, ?_, ?_⟩, ?_⟩
    · rw [hb]
      exact h.root
    · rw [hb]
      refine List.forall_mem_append.2 ⟨h.next, ?_⟩
      exact List.forall_mem_singleton.2 ⟨key, val, rfl⟩
    · rw [hitems]
      refine List.pairwise_append.2 ⟨h.apart, List.pairwise_singleton .., fun p hp q hq k hk => ?_⟩
      rw [List.mem_singleton.1 hq]
      rintro hkey
      cases hkey
      exact hother p hp hk
    · rw [hitems]
      refine List.forall_mem_append.2 ⟨h.home, List.forall_mem_singleton.2 fun k hk => ?_⟩
      cases hk
      exact hP
    · intro k v
      rw [hitems, has_append, has_new]
      split_ifs with hk
      · subst hk
        simp [not_has hother]
      · simp [Ne.symm hk]

/-! ## Delete -/

theorem isDel_iff (hp : p.key = none ∨ p.Full) (he : mem.isKey key p = true → p.key = some key) :
    mem.isDel (some key) p = true ↔ p.key = some key := by
  unfold Heap.isDel
  rcases hp with hp | ⟨k, v, rfl⟩
  · simp [hp]
  · simp only [Option.isSome_some, Option.all_some, Bool.true_and]
    exact ⟨he, fun hk => isKey_self hk⟩

/-- The status of a delete: whether the key was stored. -/
def DelStatus (ps : List HtItem) (key : Bytes) (ret : ℤ) : Prop :=
  ret = 0 ∧ (∃ v, Has ps key v) ∨ ret = -1 ∧ ∀ v, ¬ Has ps key v

theorem DelStatus.cons {ps : List HtItem} {ret : ℤ} (hp : p.key ≠ some key)
    (h : DelStatus ps key ret) : DelStatus (p :: ps) key ret := by
  rcases h with ⟨hret, v, hv⟩ | ⟨hret, hv⟩
  · exact .inl ⟨hret, v, has_cons.2 (.inr hv)⟩
  · exact .inr ⟨hret, fun v h => (has_cons.1 h).elim (fun h => hp h.1) (hv v)⟩

theorem delNext_spec (hfull : ∀ p ∈ next, p.Full) (he : Exact mem key next)
    (hapart : next.Pairwise Apart) :
    (∀ k v, Has (delNext mem (some key) next).2 k v ↔ k ≠ key ∧ Has next k v) ∧
      (delNext mem (some key) next).2.Sublist next ∧
      DelStatus next key (delNext mem (some key) next).1 := by
  induction next with
  | nil => simp [delNext, Has, DelStatus]
  | cons p next ih =>
    obtain ⟨hp, hfull⟩ := List.forall_mem_cons.1 hfull
    obtain ⟨hep, he⟩ := List.forall_mem_cons.1 he
    obtain ⟨hpa, hapart⟩ := List.pairwise_cons.1 hapart
    unfold delNext
    by_cases hdel : mem.isDel (some key) p = true
    · rw [if_pos hdel, Option.isSome_some, if_pos rfl]
      have hkey := (isDel_iff (.inr hp) hep).1 hdel
      have hrest : ∀ q ∈ next, q.key ≠ some key := fun q hq => hpa q hq key hkey
      obtain ⟨k', v', rfl⟩ := hp
      cases hkey
      refine ⟨fun k v => ?_, List.sublist_cons_self .., .inl ⟨rfl, v', has_cons.2 (.inl ⟨rfl, rfl⟩)⟩⟩
      rw [has_cons]
      by_cases hk : k = key
      · subst hk
        simp [not_has hrest]
      · simp [hk, Ne.symm hk]
    · rw [if_neg hdel]
      have hkey : p.key ≠ some key := fun hk => hdel ((isDel_iff (.inr hp) hep).2 hk)
      obtain ⟨hhas, hsub, hret⟩ := ih hfull he hapart
      refine ⟨fun k v => ?_, hsub.cons_cons p, hret.cons hkey⟩
      rw [has_cons, has_cons, hhas]
      by_cases hk : k = key
      · subst hk
        simp [hkey]
      · simp [hk]

theorem BucketWf.del (h : BucketWf P b) (he : Exact mem key b.items) :
    BucketWf P (htDelNode mem (some key) b).2 ∧
      (∀ k v, Has (htDelNode mem (some key) b).2.items k v ↔ k ≠ key ∧ Has b.items k v) ∧
      DelStatus b.items key (htDelNode mem (some key) b).1 := by
  obtain ⟨hra, hapart⟩ := List.pairwise_cons.1 h.apart
  obtain ⟨her, hen⟩ := List.forall_mem_cons.1 he
  obtain ⟨hhr, hhn⟩ := List.forall_mem_cons.1 h.home
  have hroot : b.root.key = none ∨ b.root.Full := by
    rcases h.root with hf | hn
    · exact .inr hf
    · exact .inl hn.1
  unfold htDelNode
  by_cases hdel : mem.isDel (some key) b.root = true
  · rw [if_pos hdel]
    rw [Option.isSome_some, if_pos rfl]
    have hkey := (isDel_iff hroot her).1 hdel
    have hrest : ∀ q ∈ b.next, q.key ≠ some key := fun q hq => hra q hq key hkey
    obtain ⟨v', hv'⟩ := h.full (List.mem_cons_self ..) hkey
    refine ⟨⟨.inr ⟨rfl, rfl⟩, h.next, ?_, ?_⟩, fun k v => ?_, .inl ⟨rfl, v', has_cons.2 (.inl ?_)⟩⟩
    · exact List.pairwise_cons.2 ⟨nofun, hapart⟩
    · exact List.forall_mem_cons.2 ⟨nofun, hhn⟩
    · unfold Bucket.items
      rw [has_cons, has_cons, hv']
      by_cases hk : k = key
      · subst hk
        simp [not_has hrest]
      · simp [hk, Ne.symm hk]
    · rw [hv']
      exact ⟨rfl, rfl⟩
  · rw [if_neg hdel]
    have hkey : b.root.key ≠ some key := fun hk => hdel ((isDel_iff hroot her).2 hk)
    obtain ⟨hhas, hsub, hret⟩ := delNext_spec h.next hen hapart
    refine ⟨⟨h.root, fun p hp => h.next p (hsub.subset hp), ?_, ?_⟩, fun k v => ?_, hret.cons hkey⟩
    · exact List.pairwise_cons.2 ⟨fun q hq => hra q (hsub.subset hq), hapart.sublist hsub⟩
    · exact List.forall_mem_cons.2 ⟨hhr, fun p hp => hhn p (hsub.subset hp)⟩
    · unfold Bucket.items
      rw [has_cons, has_cons, hhas]
      by_cases hk : k = key
      · subst hk
        simp [hkey]
      · simp [hk]

/-! ## The table holds a map -/

/-- The table stores the map: each key in its bucket, and there once. -/
structure Ht.Holds (h : Ht) (m : Map) : Prop where
  bucket : ∀ i, BucketWf (fun k => h.pos k = i ∧ k ≠ []) (h.item i)
  has : ∀ k v, m k = some v ↔ Has (h.item (h.pos k)).items k v

variable {h : Ht} {m : Map}

theorem Ht.Holds.empty_key (hm : h.Holds m) : m [] = none := by
  cases hv : m [] with
  | none => rfl
  | some v =>
    obtain ⟨p, hp, hk, -⟩ := (hm.has [] v).1 hv
    exact absurd rfl ((hm.bucket _).home p hp [] hk).2

theorem holds_init (maxCnt : ℕ) : (htInit maxCnt).Holds fun _ => none where
  bucket _ := by
    refine ⟨.inr ⟨rfl, rfl⟩, nofun, List.pairwise_singleton .., fun p hp k hk => ?_⟩
    rw [List.mem_singleton.1 hp] at hk
    cases hk
  has k v := by simp [htInit, Bucket.items, HtItem.zero, Has]

@[simp] theorem pos_setItem (h : Ht) (i : ℕ) (b : Bucket) (k : Bytes) :
    (h.setItem i b).pos k = h.pos k := rfl

@[simp] theorem setItem_self (h : Ht) (i : ℕ) (b : Bucket) : (h.setItem i b).item i = b :=
  Function.update_self ..

theorem setItem_of_ne {i j : ℕ} {b : Bucket} (hij : j ≠ i) : (h.setItem i b).item j = h.item j :=
  Function.update_of_ne hij ..

theorem Ht.Holds.update (hm : h.Holds m) {b : Bucket} {o : Option Bytes}
    (hb : BucketWf (fun k => h.pos k = h.pos key ∧ k ≠ []) b)
    (hhas : ∀ k v, Has b.items k v ↔
      if k = key then o = some v else Has (h.item (h.pos key)).items k v) :
    (h.setItem (h.pos key) b).Holds (Function.update m key o) where
  bucket i := by
    by_cases hi : i = h.pos key
    · subst hi
      rw [setItem_self]
      exact hb
    · rw [setItem_of_ne hi]
      exact hm.bucket i
  has k v := by
    rw [pos_setItem]
    by_cases hi : h.pos k = h.pos key
    · rw [hi, setItem_self, hhas]
      by_cases hk : k = key
      · subst hk
        simp
      · rw [Function.update_of_ne hk, if_neg hk, hm.has, hi]
    · have hk : k ≠ key := fun hk => hi (by rw [hk])
      rw [setItem_of_ne hi, Function.update_of_ne hk, hm.has]

/-! ## Each call -/

/-- **The condition**: no item in the bucket is taken for the key of another,
    and an add meets its key at most in the root. -/
def HtOk (h : Ht) (a : Heap × HtOp × HtOut) : Prop :=
  Exact a.1 a.2.1.key (h.item (h.pos a.2.1.key)).items ∧
    ∀ key val, a.2.1 = .add key val → ∀ p ∈ (h.item (h.pos key)).next, p.key ≠ some key

theorem Ht.Holds.add (hm : h.Holds m) {val : Bytes} (hkey : key ≠ [])
    (he : Exact mem key (h.item (h.pos key)).items)
    (hn : ∀ p ∈ (h.item (h.pos key)).next, p.key ≠ some key) :
    (h.setItem (h.pos key) ((h.item (h.pos key)).add mem key val)).Holds
      (Function.update m key (some val)) := by
  obtain ⟨hb, hhas⟩ := BucketWf.add val (hm.bucket (h.pos key)) ⟨rfl, hkey⟩ he hn
  refine hm.update hb fun k v => ?_
  rw [hhas, Option.some_inj]

theorem Ht.Holds.del (hm : h.Holds m) (hkey : key ≠ [])
    (he : Exact mem key (h.item (h.pos key)).items) :
    (htDelLockless mem h key).2.Holds (Function.update m key none) ∧
      (htDelLockless mem h key).1 = if (m key).isSome then 0 else -1 := by
  obtain ⟨hb, hhas, hret⟩ := (hm.bucket (h.pos key)).del he
  have hbucket : h.bucket key = some (h.item (h.pos key)) := if_neg hkey
  unfold htDelLockless
  rw [hbucket]
  refine ⟨hm.update hb fun k v => ?_, ?_⟩
  · rw [hhas]
    by_cases hk : k = key
    · simp [hk]
    · simp [hk]
  · dsimp only
    rcases hret with ⟨hret, v, hv⟩ | ⟨hret, hv⟩
    · rw [hret, (hm.has key v).2 hv]
      rfl
    · have hnone : m key = none := Option.eq_none_iff_forall_not_mem.2 fun v hmv => hv v ((hm.has key v).1 hmv)
      rw [hret, hnone]
      rfl

theorem Ht.Holds.find (hm : h.Holds m) (val : Option (ℕ → UInt8)) (sizeVal : Option ℕ)
    (he : Exact mem key (h.item (h.pos key)).items) :
    (m, HtOut.found (htFindLockless mem h key val sizeVal)) = mapStep m (.find key val sizeVal) := by
  by_cases hkey : key = []
  · subst hkey
    simp [mapStep, htFindLockless, Ht.bucket, hm.empty_key]
  have hbucket : h.bucket key = some (h.item (h.pos key)) := if_neg hkey
  unfold htFindLockless
  rw [hbucket, Option.bind_some]
  rcases find_eq he with ⟨p, hp, hf, hk⟩ | ⟨hf, hk⟩
  · obtain ⟨v, rfl⟩ := (hm.bucket _).full hp hk
    have hmv : m key = some v := (hm.has key v).2 ⟨_, hp, rfl, rfl⟩
    rw [hf]
    simp only [mapStep, hmv]
    cases val with
    | none => rfl
    | some dst =>
      cases sizeVal with
      | none => rfl
      | some n =>
        have hcopy : copyVal (fun i => v.getD i (mem.junk i)) v.length dst n =
            copyVal (fun i => v.getD i 0) v.length dst n := by
          refine memcpy_congr fun i hi => ?_
          have hlt : i < v.length := by
            split_ifs at hi <;> omega
          simp [hlt]
        simp only [hcopy]
  · have hnone : m key = none :=
      Option.eq_none_iff_forall_not_mem.2 fun v hmv => not_has hk ((hm.has key v).1 hmv)
    rw [hf]
    simp only [mapStep, hnone]

theorem Ht.Holds.step (hm : h.Holds m) {a : Heap × HtOp × HtOut} {h' : Ht} (hok : HtOk h a)
    (hs : HtStep h a h') : ∃ m', MapStep m a m' ∧ h'.Holds m' := by
  obtain ⟨mem, op, out⟩ := a
  obtain ⟨he, hn⟩ := hok
  have hs : h.step mem op = (h', out) := hs
  cases op with
  | add key val =>
    obtain ⟨rfl, rfl⟩ := Prod.mk.inj hs
    by_cases hne : key = [] ∨ val = []
    · refine ⟨m, ?_, ?_⟩
      · simp [MapStep, mapStep, htAddLockless, hne]
      · simpa [htAddLockless, hne] using hm
    · refine ⟨Function.update m key (some val), ?_, ?_⟩
      · simp [MapStep, mapStep, htAddLockless, hne]
      · simp only [htAddLockless, if_neg hne]
        exact hm.add (fun hk => hne (.inl hk)) he (hn key val rfl)
  | del key =>
    obtain ⟨rfl, rfl⟩ := Prod.mk.inj hs
    by_cases hkey : key = []
    · subst hkey
      refine ⟨m, ?_, hm⟩
      have hupd : Function.update m [] none = m := by
        rw [← hm.empty_key, Function.update_eq_self]
      simp [MapStep, mapStep, htDelLockless, Ht.bucket, hm.empty_key, hupd]
    · obtain ⟨hd, hret⟩ := hm.del hkey he
      exact ⟨_, by simp [MapStep, mapStep, hret], hd⟩
  | find key val sizeVal =>
    obtain ⟨rfl, rfl⟩ := Prod.mk.inj hs
    have hf := hm.find val sizeVal he
    exact ⟨m, hf.symm, hm⟩

/-- **The hash table refines the map** in every run whose calls meet the
    condition: it answers as the map does, and stores it. -/
theorem hashtable_refines_map {maxCnt : ℕ} {as : List (Heap × HtOp × HtOut)} {h : Ht}
    (hr : Run (restrict HtOk HtStep) (htInit maxCnt) as h) :
    ∃ m, Run MapStep (fun _ => none) as m ∧ h.Holds m := by
  exact hr.sim (R := fun h m => h.Holds m) (fun hm hs => hm.step hs.1 hs.2) (holds_init maxCnt)

/-- A heap whose blocks hold zeros. -/
def zeros : Heap := ⟨fun _ _ => 0, fun _ => 0⟩

theorem ok_of_next_nil {h : Ht} {a : Heap × HtOp × HtOut}
    (hn : (h.item (h.pos a.2.1.key)).next = [])
    (hr : ∀ k, (h.item (h.pos a.2.1.key)).root.key = some k → k = a.2.1.key) : HtOk h a := by
  constructor
  · intro p hp hk
    unfold Bucket.items at hp
    rw [hn, List.mem_singleton] at hp
    subst hp
    cases hkey : (h.item (h.pos a.2.1.key)).root.key with
    | none =>
      rw [Heap.isKey, hkey] at hk
      cases hk
    | some k => rw [hr k hkey]
  · intro key val ha p hp
    rw [ha] at hn
    change p ∈ (h.item (h.pos (HtOp.add key val).key)).next at hp
    rw [hn] at hp
    cases hp

/-- An add, and a find of the key in a table of one bucket. -/
theorem hashtable_refines_map_find :
    ∃ m, Run MapStep (fun _ => none)
      [(zeros, .add [1] [5], .status 0), (zeros, .find [1] none none, .found ⟨some [5], none, none⟩)]
      m := by
  have hr : Run (restrict HtOk HtStep) (htInit 1)
      [(zeros, .add [1] [5], .status 0), (zeros, .find [1] none none, .found ⟨some [5], none, none⟩)]
      _ :=
    .cons ⟨ok_of_next_nil rfl (by nofun), rfl⟩
      (.cons ⟨ok_of_next_nil rfl fun k hk => (Option.some.inj hk).symm, rfl⟩ .nil)
  obtain ⟨m, hm, -⟩ := hashtable_refines_map hr
  exact ⟨m, hm⟩

/-- The second add of a key behind the root writes to the root's value. -/
theorem hashtable_not_map :
    ¬ ∀ maxCnt, 1 ≤ maxCnt → ∀ as h, Run HtStep (htInit maxCnt) as h →
      ∃ m, Run MapStep (fun _ => none) as m := by
  intro hall
  obtain ⟨m, hm⟩ := hall 1 le_rfl
    [(zeros, .add [1] [5], .status 0), (zeros, .add [2] [6], .status 0),
      (zeros, .add [2] [7], .status 0), (zeros, .find [1] none none, .found ⟨some [7], none, none⟩)] _
    (.cons rfl (.cons rfl (.cons rfl (.cons rfl .nil))))
  rcases hm with _ | ⟨h1, _ | ⟨h2, _ | ⟨h3, _ | ⟨h4, _⟩⟩⟩⟩
  obtain rfl := congrArg Prod.fst h1
  obtain rfl := congrArg Prod.fst h2
  obtain rfl := congrArg Prod.fst h3
  have hout := congrArg Prod.snd h4
  simp [mapStep] at hout

end Hashtable
