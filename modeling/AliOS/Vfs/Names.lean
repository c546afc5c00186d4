/-
  The names of the VFS: what registering and unregistering a path does to the
  paths that are looked up.

  `inode_reserve` takes the first free slot and does not look for the name, and
  `inode_open` gives the first slot that takes a path: one with this name, or a
  file system above.  So a new node may stand behind another one that takes its
  path, and `inode_release` may find a node with another name.
  `names_exact_iff` says when they do not.
-/
import AliOS.Vfs.Files

namespace Vfs

/-- The path is below a file system of this name. -/
def Below (name path : Path) : Prop := name <+: path ∧ path[name.length]? = some '/'

/-! ## What it is for -/

/-- A path has been registered: it resolves to the new node, no other node has
    the name, and the other paths that resolved still do, to the same node. -/
structure Registered (n n' : Inodes) (path : Path) : Prop where
  resolves : n'.open path = n.alloc
  unique : ∀ e e', (n' e).iName = some path → (n' e').iName = some path → e = e'
  others : ∀ q e, q ≠ path → n.open q = some e → n'.open q = some e

/-- A path has been unregistered: the node with its name is the one removed, the
    path does not resolve to it, and the other paths resolve as before; below a
    file system that is removed there are none. -/
structure Unregistered (n n' : Inodes) (path : Path) (e : Fin DEV_NODES) : Prop where
  named : (n e).iName = some path
  removed : (n' e).iName = none ∧ (n' e).type = .notInit
  kept : ∀ e', e' ≠ e → n' e' = n e'
  gone : n'.open path ≠ some e
  others : ∀ q, q ≠ path → ¬ ((n e).type = .fsDev ∧ Below path q) → n'.open q = n.open q

/-- No node has the name, the free slot stands before all that take the path, and
    behind all that take a path below it. -/
structure Room (n : Inodes) (type : NodeType) (path : Path) : Prop where
  unnamed : ∀ e, (n e).iName ≠ some path
  first : ∀ e e', n.alloc = some e → n.open path = some e' → e < e'
  last : type = .fsDev → ∀ e q e', n.alloc = some e → Below path q → n.open q = some e' → e' < e

variable {n n' : Inodes} {e e' : Fin DEV_NODES} {path q : Path} {node : Inode} {w : State} {type : NodeType}
  {ops arg : ℕ} {lock malloc mutexNew unlock : Bool}

/-! ## Lookups -/

theorem Inode.isAt_iff : node.isAt path = true ↔
    ∃ name, node.iName = some name ∧ (node.type = .fsDev ∧ Below name path ∨ name = path) := by
  unfold Inode.isAt Below
  cases node.iName with
  | none => simp
  | some name => simp [List.isPrefixOf_iff_prefix, and_assoc]

theorem Inodes.open_iff : n.open path = some e ↔ (n e).isAt path = true ∧ ∀ e' < e, (n e').isAt path = false := by
  unfold Inodes.open
  rw [List.find?_eq_some_iff_getElem]
  constructor
  · rintro ⟨hat, i, hi, rfl, hbefore⟩
    refine ⟨hat, fun e' he' => ?_⟩
    have h := hbefore e'.1 (by simpa [Fin.lt_def] using he')
    simpa using h
  · rintro ⟨hat, hbefore⟩
    refine ⟨hat, e.1, by simp, by simp, fun j hj => ?_⟩
    have h := hbefore ⟨j, hj.trans e.2⟩ hj
    simpa using h

theorem Inodes.open_none : n.open path = none ↔ ∀ e, (n e).isAt path = false := by
  simp [Inodes.open, List.find?_eq_none]

theorem Inodes.open_of_isAt (h : (n e).isAt path = true) : ∃ e', n.open path = some e' ∧ e' ≤ e := by
  cases ho : n.open path with
  | none =>
    rw [Inodes.open_none.1 ho e] at h
    cases h
  | some e' =>
    refine ⟨e', rfl, le_of_not_gt fun hlt => ?_⟩
    rw [(Inodes.open_iff.1 ho).2 e hlt] at h
    cases h

theorem Inodes.open_congr (h : ∀ e, (n' e).isAt path = (n e).isAt path) : n'.open path = n.open path := by
  unfold Inodes.open
  simp only [h]

/-! ## Registering -/

theorem Inodes.reserve_cases (n : Inodes) (path : Path) (malloc : Bool) :
    (∃ ret, n.reserve (some path) malloc = (n, .inr ret) ∧ ret ≠ .success) ∨
      ∃ e, n.alloc = some e ∧
        n.reserve (some path) malloc = (Function.update n e { n e with iName := some path }, .inl e) := by
  unfold Inodes.reserve
  dsimp only
  by_cases hroot : path.head? ≠ some '/'
  · rw [if_pos hroot]
    exact .inl ⟨_, rfl, by decide⟩
  · rw [if_neg hroot]
    cases n.alloc with
    | none => exact .inl ⟨_, rfl, by decide⟩
    | some e =>
      cases malloc with
      | false => exact .inl ⟨_, rfl, by decide⟩
      | true => exact .inr ⟨e, rfl, rfl⟩

theorem State.register_success (h : (w.register type (some path) ops arg lock malloc mutexNew unlock).2 = .success) :
    ∃ e node, w.inodes.alloc = some e ∧ node.iName = some path ∧ node.type = type ∧
      (w.register type (some path) ops arg lock malloc mutexNew unlock).1.inodes = Function.update w.inodes e node := by
  unfold State.register at h ⊢
  rcases w.inodes.reserve_cases path malloc with ⟨ret, hr, hret⟩ | ⟨e, halloc, hr⟩
  · rw [hr] at h
    dsimp only at h
    split_ifs at h
    exact absurd h hret
  · rw [hr] at h ⊢
    dsimp only at h ⊢
    rw [Function.update_idem, Function.update_self] at h ⊢
    split_ifs at h ⊢
    · exact ⟨e, _, halloc, rfl, rfl, rfl⟩

theorem isAt_free (hfree : (n e).iName = none) : (n e).isAt q = false := by
  rw [Bool.eq_false_iff, ne_eq, Inode.isAt_iff]
  rintro ⟨name, hname, -⟩
  rw [hfree] at hname
  cases hname

theorem open_ne_free (hfree : (n e).iName = none) (ho : n.open q = some e') : e' ≠ e := by
  rintro rfl
  have hat := (Inodes.open_iff.1 ho).1
  rw [isAt_free hfree] at hat
  cases hat

/-- **A new node** is found by the paths that it takes, unless an earlier one
    takes them. -/
theorem open_update (hfree : (n e).iName = none) :
    Inodes.open (Function.update n e node) q =
      if node.isAt q = true ∧ ∀ e', n.open q = some e' → e < e' then some e else n.open q := by
  split_ifs with hnew
  · rw [Inodes.open_iff, Function.update_self]
    refine ⟨hnew.1, fun e' he' => ?_⟩
    rw [Function.update_of_ne (Fin.ne_of_lt he'), Bool.eq_false_iff]
    intro hat
    obtain ⟨e₁, ho, hle⟩ := Inodes.open_of_isAt hat
    exact absurd (hnew.2 e₁ ho) (not_lt.2 (hle.trans he'.le))
  · by_cases hat : node.isAt q = true
    · have hex : ∃ e', n.open q = some e' ∧ e' ≤ e := by
        by_contra hno
        refine hnew ⟨hat, fun e' ho => ?_⟩
        by_contra hlt
        exact hno ⟨e', ho, not_lt.1 hlt⟩
      obtain ⟨e', ho, hle⟩ := hex
      have hne : e' ≠ e := open_ne_free hfree ho
      have hlt : e' < e := lt_of_le_of_ne hle hne
      obtain ⟨hat', hbefore⟩ := Inodes.open_iff.1 ho
      rw [ho, Inodes.open_iff, Function.update_of_ne hne]
      refine ⟨hat', fun e₁ he1 => ?_⟩
      rw [Function.update_of_ne (Fin.ne_of_lt (he1.trans hlt))]
      exact hbefore e₁ he1
    · refine Inodes.open_congr fun e' => ?_
      rcases eq_or_ne e' e with rfl | hne
      · rw [Function.update_self, isAt_free hfree, Bool.eq_false_iff]
        exact hat
      · rw [Function.update_of_ne hne]

theorem Below.ne (h : Below path q) : q ≠ path := by
  rintro rfl
  have hnone : q[q.length]? = none := List.getElem?_eq_none (Nat.le_refl _)
  rw [h.2] at hnone
  cases hnone

theorem registered_iff (halloc : n.alloc = some e) (hfree : (n e).iName = none) (hname : node.iName = some path)
    (htype : node.type = type) : Registered n (Function.update n e node) path ↔ Room n type path := by
  have hat : ∀ q, node.isAt q = true ↔ type = .fsDev ∧ Below path q ∨ path = q := by
    intro q
    rw [Inode.isAt_iff, hname, htype]
    simp
  constructor
  · intro h
    refine ⟨?_, ?_, ?_⟩
    · intro e' he'
      have hne : e' ≠ e := by
        rintro rfl
        rw [hfree] at he'
        cases he'
      refine hne (h.unique e' e ?_ ?_)
      · rwa [Function.update_of_ne hne]
      · rwa [Function.update_self]
    · intro e₁ e' he1 ho
      obtain rfl := Option.some.inj (halloc.symm.trans he1)
      have hres := h.resolves
      rw [open_update hfree, halloc] at hres
      split_ifs at hres with hnew
      · exact hnew.2 e' ho
      · exact absurd rfl (open_ne_free hfree hres)
    · intro hfs e₁ q e' he1 hq ho
      obtain rfl := Option.some.inj (halloc.symm.trans he1)
      have hres := h.others q e' hq.ne ho
      rw [open_update hfree] at hres
      split_ifs at hres with hnew
      · exact absurd (Option.some.inj hres) (Fin.ne_of_lt (hnew.2 e' ho))
      · by_contra hle
        refine hnew ⟨(hat q).2 (.inl ⟨hfs, hq⟩), fun e₂ ho2 => ?_⟩
        obtain rfl := Option.some.inj (ho.symm.trans ho2)
        exact lt_of_le_of_ne (not_lt.1 hle) (open_ne_free hfree ho).symm
  · rintro ⟨hunnamed, hfirst, hlast⟩
    have hself : ∀ e', (Function.update n e node e').iName = some path → e' = e := by
      intro e' he'
      by_contra hne
      rw [Function.update_of_ne hne] at he'
      exact hunnamed e' he'
    refine ⟨?_, ?_, ?_⟩
    · rw [open_update hfree, if_pos ⟨(hat path).2 (.inr rfl), fun e' ho => hfirst e e' halloc ho⟩, halloc]
    · intro e₁ e₂ h1 h2
      rw [hself e₁ h1, hself e₂ h2]
    · intro q e' hq ho
      rw [open_update hfree, if_neg, ho]
      rintro ⟨hnode, hbefore⟩
      rcases (hat q).1 hnode with ⟨hfs, hbelow⟩ | rfl
      · exact absurd (hbefore e' ho) (lt_asymm (hlast hfs e q e' halloc hbelow ho))
      · exact hq rfl

/-! ## Unregistering -/

theorem Inodes.release_cases (n : Inodes) (path : Path) :
    (n.release (some path)).2 ≠ .success ∨
      ∃ e node, n.open path = some e ∧ node.iName = none ∧ node.type = .notInit ∧
        n.release (some path) = (Function.update n e node, .success) := by
  unfold Inodes.release
  dsimp only
  cases n.open path with
  | none => exact .inl nofun
  | some e =>
    dsimp only
    by_cases hbusy : 0 < (n e).refs
    · have hdel : (n e).del = (n e, .ebusy) := if_pos hbusy
      rw [hdel]
      exact .inl nofun
    · have hdel : (n e).del =
          ({ n e with iName := none, iArg := 0, iFlags := 0, type := .notInit }, .success) := if_neg hbusy
      rw [hdel]
      exact .inr ⟨e, _, rfl, rfl, rfl, rfl⟩

theorem State.unregister_success (h : (w.unregister (some path) lock unlock).2 = .success) :
    ∃ e node, w.inodes.open path = some e ∧ node.iName = none ∧ node.type = .notInit ∧
      (w.unregister (some path) lock unlock).1.inodes = Function.update w.inodes e node := by
  unfold State.unregister at h ⊢
  split_ifs at h ⊢
  · rcases w.inodes.release_cases path with hret | ⟨e, node, ho, hname, htype, hr⟩
    · exact absurd h hret
    · exact ⟨e, node, ho, hname, htype, by rw [hr]⟩

/-- **An unregistration** does what it is for if the path resolved to a node with
    its name. -/
theorem unregistered_iff (ho : n.open path = some e) (hnode : node.iName = none) (htype : node.type = .notInit) :
    (∃ e', Unregistered n (Function.update n e node) path e') ↔ (n e).iName = some path := by
  have hat : ∀ q, Inode.isAt (Function.update n e node e) q = false := by
    intro q
    refine isAt_free ?_
    rwa [Function.update_self]
  constructor
  · rintro ⟨e', h⟩
    by_cases hne : e = e'
    · rw [hne]
      exact h.named
    · have hkept := h.kept e hne
      have hfound := (Inodes.open_iff.1 ho).1
      rw [← hkept, hat] at hfound
      cases hfound
  · intro hname
    refine ⟨e, hname, ?_, fun e' hne => Function.update_of_ne hne .., ?_, ?_⟩
    · rw [Function.update_self]
      exact ⟨hnode, htype⟩
    · intro hgone
      have hfound := (Inodes.open_iff.1 hgone).1
      rw [hat] at hfound
      cases hfound
    · intro q hq hbelow
      refine Inodes.open_congr fun e' => ?_
      rcases eq_or_ne e' e with rfl | hne
      · rw [hat, eq_comm, Bool.eq_false_iff, ne_eq, Inode.isAt_iff]
        rintro ⟨name, hsome, hname'⟩
        obtain rfl := Option.some.inj (hname.symm.trans hsome)
        rcases hname' with hfs | heq
        · exact hbelow hfs
        · exact hq heq.symm
      · rw [Function.update_of_ne hne]

/-! ## Every table -/

/-- **Names are exact** for the registrations that find room and the
    unregistrations that find the node with the name, in every table that calls
    lead to. -/
theorem names_exact_iff (cs : List Call) (path : Path) :
    (∀ type ops arg lock malloc mutexNew unlock,
      ((State.after cs).register type (some path) ops arg lock malloc mutexNew unlock).2 = .success →
      (Registered (State.after cs).inodes
        ((State.after cs).register type (some path) ops arg lock malloc mutexNew unlock).1.inodes path ↔
          Room (State.after cs).inodes type path)) ∧
    (∀ lock unlock, ((State.after cs).unregister (some path) lock unlock).2 = .success →
      ((∃ e, Unregistered (State.after cs).inodes ((State.after cs).unregister (some path) lock unlock).1.inodes
        path e) ↔
          ∀ e, (State.after cs).inodes.open path = some e → ((State.after cs).inodes e).iName = some path)) := by
  constructor
  · intro type ops arg lock malloc mutexNew unlock hret
    obtain ⟨e, node, halloc, hname, htype, hn⟩ := State.register_success hret
    have hfree : ((State.after cs).inodes e).iName = none := by
      by_contra hne
      exact (Inv.after cs).named e hne (Inodes.alloc_some halloc)
    rw [hn]
    exact registered_iff halloc hfree hname htype
  · intro lock unlock hret
    obtain ⟨e, node, ho, hname, htype, hn⟩ := State.unregister_success hret
    rw [hn, unregistered_iff ho hname htype]
    constructor
    · intro h e' ho'
      obtain rfl := Option.some.inj (ho.symm.trans ho')
      exact h
    · intro h
      exact h e ho

/-- "/a" -/
def pathA : Path := ['/', 'a']

/-- A driver at "/a". -/
def driverA : Call := .registerDriver (some pathA) 1 1 true true true true

theorem names_exact_iff_first :
    Registered (State.after []).inodes ((State.after []).register .charDev (some pathA) 1 1 true true true true).1.inodes
        pathA ↔ Room (State.after []).inodes .charDev pathA :=
  (names_exact_iff [] pathA).1 .charDev 1 1 true true true true (by decide)

/-- A second driver is registered at "/a", in the second slot, where no lookup
    finds it. -/
theorem names_not_unique :
    ((State.after [driverA]).register .charDev (some pathA) 2 2 true true true true).2 = .success ∧
    ¬ Registered (State.after [driverA]).inodes
      ((State.after [driverA]).register .charDev (some pathA) 2 2 true true true true).1.inodes pathA := by
  refine ⟨by decide, fun h => ?_⟩
  have heq := h.unique 0 1 (by decide) (by decide)
  cases heq

end Vfs
