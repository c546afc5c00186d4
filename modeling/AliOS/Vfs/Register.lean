/-
  Registrations of the VFS that fail (`kernel/vfs/vfs_register.c`): what they
  leave in the inode table and on the heap.
-/
import AliOS.Vfs.Files

namespace Vfs

/-- What a registration allocates: the copy of the name, and the lock of the node. -/
inductive Block
  | name | lock
  deriving DecidableEq

/-- What `aos_mutex_new` returns where it is called, and the blocks allocated with the name. -/
def newMutex : Option Bool → Ret × List Block
  | none => (.success, [.name])
  | some true => (.success, [.name, .lock])
  | some false => (.mutex, [.name])

/-- A registration, with the blocks it has allocated and not freed; `mutexNew` is the result of
    `aos_mutex_new`, for the function that calls it. -/
def State.registerMem (w : State) (type : NodeType) (path : Option Path) (ops arg : ℕ) (lock malloc : Bool)
    (mutexNew : Option Bool) (unlock : Bool) : State × Ret × List Block :=
  if !lock then (w, .mutex, [])
  else
    match w.inodes.reserve path malloc with
    -- without a node, the clean-up goes through NULL
    | (_, .inr ret) => if unlock then (w, ret, []) else ({ w with fault := true }, .mutex, [])
    | (inodes, .inl e) =>
      let inodes := Function.update inodes e { inodes e with type := type, ops := ops, iArg := arg }
      let (ret, blocks) := newMutex mutexNew
      if unlock then ({ w with inodes := inodes }, ret, blocks)
      -- the name is freed, and the node with the handle of the lock cleared
      else ({ w with inodes := Function.update inodes e Inode.zero }, .mutex, blocks.erase .name)

def State.aosRegisterDriver (w : State) (path : Option Path) (ops arg : ℕ) (lock malloc mutexNew unlock : Bool) :
    State × Ret × List Block :=
  w.registerMem .charDev path ops arg lock malloc (some mutexNew) unlock

def State.aosRegisterFs (w : State) (path : Option Path) (ops arg : ℕ) (lock malloc unlock : Bool) :
    State × Ret × List Block :=
  w.registerMem .fsDev path ops arg lock malloc none unlock

/-- If the call returns an error, the table is as it was, and nothing is left on the heap. -/
def Undone (w : State) (r : State × Ret × List Block) : Prop :=
  r.2.1 ≠ .success →
    (∀ e, (r.1.inodes e).type = (w.inodes e).type ∧ (r.1.inodes e).iName = (w.inodes e).iName ∧
      (r.1.inodes e).refs = (w.inodes e).refs) ∧ r.2.2 = []

/-- `inode_reserve` gives a node. -/
def Reserves (n : Inodes) (path : Option Path) (malloc : Bool) : Prop :=
  (∃ p, path = some p ∧ p.head? = some '/') ∧ n.alloc.isSome ∧ malloc = true

variable {w : State} {n : Inodes} {e : Fin DEV_NODES} {type : NodeType} {path : Option Path} {ops arg : ℕ}
  {lock malloc unlock : Bool} {mutexNew : Option Bool}

/-- The table and the result are those of the registrations as calls of the file system. -/
theorem State.registerMem_eq :
    ((w.registerMem type path ops arg lock malloc mutexNew unlock).1,
      (w.registerMem type path ops arg lock malloc mutexNew unlock).2.1) =
      w.register type path ops arg lock malloc (mutexNew.getD true) unlock := by
  unfold State.registerMem State.register
  cases lock with
  | false => rfl
  | true =>
    rcases w.inodes.reserve path malloc with ⟨inodes, e | ret⟩
    · cases unlock <;> rcases mutexNew with - | (- | -) <;> rfl
    · cases unlock <;> rfl

/-- Reserving a node: the first free slot gets the name, or there is an error. -/
theorem Inodes.reserve_of_reserves (h : Reserves n path malloc) :
    ∃ e p, n.alloc = some e ∧ n.reserve path malloc = (Function.update n e { n e with iName := some p }, .inl e) := by
  obtain ⟨⟨p, rfl, hroot⟩, halloc, rfl⟩ := h
  obtain ⟨e, he⟩ := Option.isSome_iff_exists.1 halloc
  refine ⟨e, p, he, ?_⟩
  unfold Inodes.reserve
  dsimp only
  rw [if_neg (not_not_intro hroot), he]
  rfl

theorem Inodes.reserve_of_not (h : ¬ Reserves n path malloc) : ∃ ret, n.reserve path malloc = (n, .inr ret) := by
  unfold Inodes.reserve
  cases path with
  | none => exact ⟨_, rfl⟩
  | some p =>
    dsimp only
    by_cases hroot : p.head? ≠ some '/'
    · rw [if_pos hroot]
      exact ⟨_, rfl⟩
    · rw [if_neg hroot]
      cases ha : n.alloc with
      | none => exact ⟨_, rfl⟩
      | some e =>
        cases malloc with
        | false => exact ⟨_, rfl⟩
        | true => exact absurd ⟨⟨p, rfl, not_not.1 hroot⟩, Option.isSome_of_eq_some ha, rfl⟩ h

theorem undone_of_not (h : ¬ (lock = true ∧ Reserves w.inodes path malloc)) :
    Undone w (w.registerMem type path ops arg lock malloc mutexNew unlock) := by
  intro _
  unfold State.registerMem
  cases lock with
  | false => exact ⟨fun _ => ⟨rfl, rfl, rfl⟩, rfl⟩
  | true =>
    obtain ⟨ret, hr⟩ := Inodes.reserve_of_not fun hres => h ⟨rfl, hres⟩
    rw [hr]
    cases unlock <;> exact ⟨fun _ => ⟨rfl, rfl, rfl⟩, rfl⟩

theorem registerMem_reserved (type : NodeType) (ops arg : ℕ) (mutexNew : Option Bool) (unlock : Bool)
    (h : Reserves w.inodes path malloc) :
    ∃ e node, w.inodes.alloc = some e ∧ node.type = type ∧
      w.registerMem type path ops arg true malloc mutexNew unlock =
        if unlock then ({ w with inodes := Function.update w.inodes e node }, newMutex mutexNew)
        else ({ w with inodes := Function.update w.inodes e Inode.zero }, .mutex, (newMutex mutexNew).2.erase .name) := by
  obtain ⟨e, p, halloc, hr⟩ := Inodes.reserve_of_reserves h
  refine ⟨e, { w.inodes e with iName := some p, type := type, ops := ops, iArg := arg }, halloc, rfl, ?_⟩
  unfold State.registerMem
  rw [hr]
  dsimp only
  rw [Function.update_idem, Function.update_self]
  cases unlock
  · rw [Function.update_idem]
    rfl
  · rfl

/-- **A node that is reserved** is given back if the call fails on the way out, before it has
    made a lock. -/
theorem undone_iff_of_reserves (hI : Inv w) (ht : type ≠ .notInit) (h : Reserves w.inodes path malloc) :
    Undone w (w.registerMem type path ops arg true malloc mutexNew unlock) ↔
      (mutexNew = some false → unlock = false) ∧ (mutexNew = some true → unlock = true) := by
  obtain ⟨e, node, halloc, htype, heq⟩ := registerMem_reserved type ops arg mutexNew unlock h
  have hfree := Inodes.alloc_some halloc
  rw [heq]
  cases unlock with
  | true =>
    rcases mutexNew with - | (- | -)
    · exact iff_of_true (fun hret => absurd rfl hret) ⟨nofun, nofun⟩
    · -- the node stays in use
      refine iff_of_false (fun hun => ?_) fun hc => nomatch hc.1 rfl
      have hsame := ((hun nofun).1 e).1
      change (Function.update w.inodes e node e).type = _ at hsame
      rw [Function.update_self, htype, hfree] at hsame
      exact ht hsame
    · exact iff_of_true (fun hret => absurd rfl hret) ⟨nofun, fun _ => rfl⟩
  | false =>
    have htable : ∀ e', (Function.update w.inodes e Inode.zero e').type = (w.inodes e').type ∧
        (Function.update w.inodes e Inode.zero e').iName = (w.inodes e').iName ∧
        (Function.update w.inodes e Inode.zero e').refs = (w.inodes e').refs := by
      intro e'
      rcases eq_or_ne e' e with rfl | hne
      · have hname : (w.inodes e').iName = none := by
          by_contra hn
          exact hI.named e' hn hfree
        rw [Function.update_self, hfree, hname, hI.free hfree]
        exact ⟨rfl, rfl, rfl⟩
      · rw [Function.update_of_ne hne]
        exact ⟨rfl, rfl, rfl⟩
    rcases mutexNew with - | (- | -)
    · exact iff_of_true (fun _ => ⟨htable, rfl⟩) ⟨nofun, nofun⟩
    · exact iff_of_true (fun _ => ⟨htable, rfl⟩) ⟨fun _ => rfl, nofun⟩
    · -- the lock stays allocated
      exact iff_of_false (fun hun => nomatch (hun nofun).2) fun hc => nomatch hc.2 rfl

/-- **Failed registrations** change nothing, except those of a driver that have reserved a node,
    and of whose lock and unlocking only one succeeds. -/
theorem register_undone_iff (cs : List Call) (path : Option Path) (ops arg : ℕ) (lock malloc mutexNew unlock : Bool) :
    (Undone (State.after cs) ((State.after cs).aosRegisterDriver path ops arg lock malloc mutexNew unlock) ↔
      ¬ (lock = true ∧ Reserves (State.after cs).inodes path malloc ∧ mutexNew ≠ unlock)) ∧
    Undone (State.after cs) ((State.after cs).aosRegisterFs path ops arg lock malloc unlock) := by
  have hI := Inv.after cs
  by_cases h : lock = true ∧ Reserves (State.after cs).inodes path malloc
  · obtain ⟨rfl, hres⟩ := h
    unfold State.aosRegisterDriver State.aosRegisterFs
    constructor
    · rw [undone_iff_of_reserves hI (by decide) hres]
      cases mutexNew <;> cases unlock <;> simp [hres]
    · rw [undone_iff_of_reserves hI (by decide) hres]
      exact ⟨nofun, nofun⟩
  · refine ⟨iff_of_true (undone_of_not h) ?_, undone_of_not h⟩
    rintro ⟨hlock, hres, -⟩
    exact h ⟨hlock, hres⟩

/-- The path "/a". -/
def devA : Path := ['/', 'a']

/-- `aos_mutex_new` fails for the first driver: the slot stays in use, with its name. -/
theorem register_keeps_node :
    (State.init.aosRegisterDriver (some devA) 1 1 true true false true).2 = (.mutex, [.name]) ∧
      ¬ Undone State.init (State.init.aosRegisterDriver (some devA) 1 1 true true false true) := by
  refine ⟨by decide, fun h => ?_⟩
  cases (h (by decide)).2

end Vfs
