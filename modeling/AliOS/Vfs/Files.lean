/-
  The inode table and the open files of the VFS (`kernel/vfs/vfs_inode.c`, `vfs.c`,
  `vfs_register.c`).

  The reference count of an inode is the number of file slots that refer to it, in every
  state that calls lead to; so a name is freed, and a slot used again, only when no file is
  open on it.
-/
import AliOS.Lib.Refs
import AliOS.Lib.Trans

namespace Vfs

/-- `AOS_CONFIG_VFS_DEV_NODES` -/
abbrev DEV_NODES : ℕ := 25

abbrev MAX_FILE_NUM : ℕ := DEV_NODES * 2

/-- The type of an inode. -/
inductive NodeType
  | notInit | charDev | blockDev | fsDev
  deriving DecidableEq, Repr

/-- A path, without the terminating NUL. -/
abbrev Path := List Char

/-- `inode_t`: `ops` and `iArg` are pointers of the driver, and `refs` is a `uint8_t`. -/
structure Inode where
  ops : ℕ
  iArg : ℕ
  iName : Option Path
  iFlags : ℕ
  type : NodeType
  refs : ℕ
  deriving DecidableEq

/-- What `memset` leaves. -/
def Inode.zero : Inode :=
  { ops := 0, iArg := 0, iName := none, iFlags := 0, type := .notInit, refs := 0 }

/-- `g_vfs_dev_nodes` -/
abbrev Inodes := Fin DEV_NODES → Inode

/-- `inode_alloc`: the first slot that is not used. -/
def Inodes.alloc (n : Inodes) : Option (Fin DEV_NODES) :=
  (List.finRange DEV_NODES).find? fun e => decide ((n e).type = .notInit)

/-- What `inode_open` asks of a slot. -/
def Inode.isAt (node : Inode) (path : Path) : Bool :=
  match node.iName with
  | none => false
  | some name =>
    -- a file system takes every path below its own
    (node.type = .fsDev && name.isPrefixOf path && path[name.length]? = some '/') || name = path

/-- `inode_open` -/
def Inodes.open (n : Inodes) (path : Path) : Option (Fin DEV_NODES) :=
  (List.finRange DEV_NODES).find? fun e => (n e).isAt path

def Inode.ref (node : Inode) : Inode := { node with refs := (node.refs + 1) % 256 }

def Inode.unref (node : Inode) : Inode :=
  if 0 < node.refs then { node with refs := node.refs - 1 } else node

/-- What a call returns: a descriptor, `VFS_SUCCESS` or an error. -/
inductive Ret
  | fd (n : ℕ)
  | success
  | einval | enametoolong | enfile | enoent | enodev | ebusy | enomem
  | driver | mutex | trap
  deriving DecidableEq, Repr

def Inode.del (node : Inode) : Inode × Ret :=
  if 0 < node.refs then (node, .ebusy)
  else ({ node with iName := none, iArg := 0, iFlags := 0, type := .notInit }, .success)

/-- `inode_reserve`: a slot with the name of the path, or an error; `malloc` says whether
    there is memory for the name. -/
def Inodes.reserve (n : Inodes) (path : Option Path) (malloc : Bool) : Inodes × (Fin DEV_NODES ⊕ Ret) :=
  match path with
  | none => (n, .inr .einval)
  | some p =>
    if p.head? ≠ some '/' then (n, .inr .einval)
    else
      match n.alloc with
      | none => (n, .inr .enomem)
      | some e =>
        if !malloc then (n, .inr .enomem)
        else (Function.update n e { n e with iName := some p }, .inl e)

/-- `inode_release` -/
def Inodes.release (n : Inodes) (path : Option Path) : Inodes × Ret :=
  match path with
  | none => (n, .einval)
  | some p =>
    match n.open p with
    | none => (n, .enodev)
    | some e => let (node, ret) := (n e).del; (Function.update n e node, ret)

/-! ## What the lookups find -/

variable {n : Inodes} {e : Fin DEV_NODES} {path : Path}

theorem Inodes.alloc_some (h : n.alloc = some e) : (n e).type = .notInit := by
  have := List.find?_some h
  simpa using this

theorem Inodes.open_some (h : n.open path = some e) : (n e).iName ≠ none := by
  intro hn
  have := List.find?_some h
  simp [Inode.isAt, hn] at this

end Vfs

/-! ## The files -/

namespace Vfs

open Lib

/-- `AOS_CONFIG_VFS_FD_OFFSET` -/
def FD_OFFSET : ℕ := 64

def PATH_MAX : ℕ := 256

/-- The inodes, and for each slot of `files` its `node`; what else a slot has belongs to
    the driver.  `fault` is set by a use of a NULL inode. -/
structure State where
  inodes : Inodes
  files : Fin MAX_FILE_NUM → Option (Fin DEV_NODES)
  fault : Bool

/-- `vfs_init` -/
def State.init : State := ⟨fun _ => .zero, fun _ => none, false⟩

/-- The inode of a slot is written. -/
def State.setInode (w : State) (e : Fin DEV_NODES) (node : Inode) : State :=
  { w with inodes := Function.update w.inodes e node }

def getFd (f : Fin MAX_FILE_NUM) : Ret := .fd (f + FD_OFFSET)

def State.getFile (w : State) (fd : ℤ) : Option (Fin MAX_FILE_NUM) :=
  let fd := fd - FD_OFFSET
  if h : 0 ≤ fd ∧ fd < MAX_FILE_NUM then
    let f : Fin MAX_FILE_NUM := ⟨fd.toNat, by omega⟩
    if (w.files f).isSome then some f else none
  else none

def State.newFile (w : State) (node : Fin DEV_NODES) : State × Option (Fin MAX_FILE_NUM) :=
  match (List.finRange MAX_FILE_NUM).find? fun f => (w.files f).isNone with
  | none => (w, none)
  | some f =>
    ({ w.setInode node (w.inodes node).ref with files := Function.update w.files f (some node) }, some f)

def State.delFile (w : State) (f : Fin MAX_FILE_NUM) : State :=
  match w.files f with
  | none => { w with fault := true }
  | some node =>
    { w.setInode node (w.inodes node).unref with files := Function.update w.files f none }

/-- `aos_register_driver` and `aos_register_fs`: `type` is what each of them sets, and
    `mutexNew` is the result of the call that only the first one makes. -/
def State.register (w : State) (type : NodeType) (path : Option Path) (ops arg : ℕ)
    (lock malloc mutexNew unlock : Bool) : State × Ret :=
  if !lock then (w, .mutex)
  else
    match w.inodes.reserve path malloc with
    | (_, .inr ret) => if unlock then (w, ret) else ({ w with fault := true }, .mutex)
    | (inodes, .inl e) =>
      let inodes := Function.update inodes e { inodes e with type := type, ops := ops, iArg := arg }
      let ret := if mutexNew then Ret.success else .mutex
      if unlock then ({ w with inodes := inodes }, ret)
      else ({ w with inodes := Function.update inodes e Inode.zero }, .mutex)

/-- `aos_unregister_driver` and `aos_unregister_fs` -/
def State.unregister (w : State) (path : Option Path) (lock unlock : Bool) : State × Ret :=
  if !lock then (w, .mutex)
  else
    let (inodes, ret) := w.inodes.release path
    ({ w with inodes := inodes }, if unlock then ret else .mutex)

/-- `aos_open`; `opened` says whether the driver's open, where it has one, succeeds. -/
def State.aosOpen (w : State) (path : Option Path) (flags : ℕ) (lock opened : Bool) : State × Ret :=
  match path with
  | none => (w, .einval)
  | some p =>
    if PATH_MAX < p.length then (w, .enametoolong)
    else if !lock then (w, .mutex)
    else
      match w.inodes.open p with
      | none => (w, .trap)
      | some node =>
        let w := w.setInode node { w.inodes node with iFlags := flags }
        match w.newFile node with
        | (w, none) => (w, .enfile)
        | (w, some f) => if opened then (w, getFd f) else (w.delFile f, .driver)

/-- `aos_close`, and `aos_closedir` on the descriptor of the directory; the driver's close
    runs before the lock is taken, whatever it returns. -/
def State.aosClose (w : State) (fd : ℤ) (lock : Bool) : State × Ret :=
  match w.getFile fd with
  | none => (w, .trap)
  | some f => if lock then (w.delFile f, .success) else (w, .mutex)

/-- `aos_stat`, `aos_unlink`, `aos_rename` and `aos_mkdir`: a file is held while the driver works. -/
def State.withFile (w : State) (path : Option Path) (lock : Bool) (ret : Ret) (lockAgain : Bool) : State × Ret :=
  match path with
  | none => (w, .einval)
  | some p =>
    if !lock then (w, .mutex)
    else
      match w.inodes.open p with
      | none => (w, .enodev)
      | some node =>
        match w.newFile node with
        | (w, none) => (w, .enoent)
        | (w, some f) => if lockAgain then (w.delFile f, ret) else (w, .mutex)

/-- `aos_opendir`; `opened` says whether the driver gives a directory. -/
def State.opendir (w : State) (path : Option Path) (lock opened lockAgain : Bool) : State × Ret :=
  match path with
  | none => (w, .einval)
  | some p =>
    if !lock then (w, .mutex)
    else
      match w.inodes.open p with
      | none => (w, .enodev)
      | some node =>
        match w.newFile node with
        | (w, none) => (w, .enoent)
        | (w, some f) =>
          if opened then (w, getFd f)
          else if lockAgain then (w.delFile f, .driver)
          else (w, .mutex)

/-- `aos_read`, `aos_write`, `aos_ioctl`, `aos_lseek`, `aos_sync` and `aos_readdir`: the
    driver gets the file, and the tables stay. -/
def State.io (w : State) (fd : ℤ) (ret : Ret) : State × Ret :=
  match w.getFile fd with
  | none => (w, .enoent)
  | some _ => (w, ret)

/-- A call, with what the mutex, the memory and the driver answer. -/
inductive Call
  | registerDriver (path : Option Path) (ops arg : ℕ) (lock malloc mutexNew unlock : Bool)
  | registerFs (path : Option Path) (ops arg : ℕ) (lock malloc unlock : Bool)
  | unregisterDriver (path : Option Path) (lock unlock : Bool)
  | unregisterFs (path : Option Path) (lock unlock : Bool)
  | aosOpen (path : Option Path) (flags : ℕ) (lock opened : Bool)
  | aosClose (fd : ℤ) (lock : Bool)
  | withFile (path : Option Path) (lock : Bool) (ret : Ret) (lockAgain : Bool)
  | opendir (path : Option Path) (lock opened lockAgain : Bool)
  | io (fd : ℤ) (ret : Ret)

def State.call (w : State) : Call → State × Ret
  | .registerDriver path ops arg lock malloc mutexNew unlock =>
    w.register .charDev path ops arg lock malloc mutexNew unlock
  | .registerFs path ops arg lock malloc unlock => w.register .fsDev path ops arg lock malloc true unlock
  | .unregisterDriver path lock unlock => w.unregister path lock unlock
  | .unregisterFs path lock unlock => w.unregister path lock unlock
  | .aosOpen path flags lock opened => w.aosOpen path flags lock opened
  | .aosClose fd lock => w.aosClose fd lock
  | .withFile path lock ret lockAgain => w.withFile path lock ret lockAgain
  | .opendir path lock opened lockAgain => w.opendir path lock opened lockAgain
  | .io fd ret => w.io fd ret

/-- The state after the calls. -/
def State.after (cs : List Call) : State := cs.foldl (fun w c => (w.call c).1) State.init

/-! ## The property -/

/-- The count of an inode is the number of file slots that refer to it, and a file slot in
    use refers to an inode in use. -/
structure Counted (w : State) : Prop where
  refs : ∀ e, (w.inodes e).refs = refs w.files e
  used : ∀ f e, w.files f = some e → (w.inodes e).type ≠ .notInit ∧ (w.inodes e).iName ≠ none

/-- Where the name or the use of an inode slot changes, its count is 0. -/
def Idle (w w' : State) : Prop :=
  ∀ e, (w'.inodes e).iName ≠ (w.inodes e).iName ∨ (w'.inodes e).type ≠ (w.inodes e).type → (w.inodes e).refs = 0

/-- The state that the calls keep: only inodes in use have a name. -/
structure Inv (w : State) : Prop extends Counted w where
  named : ∀ e, (w.inodes e).iName ≠ none → (w.inodes e).type ≠ .notInit

variable {w : State} {e : Fin DEV_NODES} {f : Fin MAX_FILE_NUM} {path : Option Path} {p : Path}
  {lock unlock malloc : Bool}

theorem Idle.refl (w : State) : Idle w w := by
  rintro e (h | h) <;> exact absurd rfl h

theorem Inv.init : Inv State.init := by
  refine ⟨⟨?_, nofun⟩, ?_⟩
  · intro e
    exact refs_none.symm
  · intro e h
    exact absurd rfl h

theorem Inv.free (h : Inv w) (he : (w.inodes e).type = .notInit) : (w.inodes e).refs = 0 := by
  rw [h.refs, refs_eq_zero]
  intro f hf
  exact (h.used f e hf).1 he

@[simp] theorem State.setInode_files (w : State) (e : Fin DEV_NODES) (node : Inode) :
    (w.setInode e node).files = w.files := rfl

@[simp] theorem State.setInode_self (w : State) (e : Fin DEV_NODES) (node : Inode) :
    (w.setInode e node).inodes e = node := Function.update_self ..

@[simp] theorem State.setInode_ne {e' : Fin DEV_NODES} (h : e' ≠ e) (w : State) (node : Inode) :
    (w.setInode e node).inodes e' = w.inodes e' := Function.update_of_ne h ..

/-- An inode is written that has the count of the old one, and is in use if a file refers to it. -/
theorem Inv.setInode {node : Inode} (h : Inv w) (hr : node.refs = (w.inodes e).refs)
    (hu : ∀ f, w.files f = some e → node.type ≠ .notInit ∧ node.iName ≠ none)
    (hn : node.iName ≠ none → node.type ≠ .notInit) : Inv (w.setInode e node) := by
  refine ⟨⟨?_, ?_⟩, ?_⟩
  · intro e'
    rcases eq_or_ne e' e with rfl | hne
    · rw [State.setInode_self, hr, h.refs, State.setInode_files]
    · rw [State.setInode_ne hne, h.refs, State.setInode_files]
  · intro f e' hf
    rcases eq_or_ne e' e with rfl | hne
    · rw [State.setInode_self]
      exact hu f hf
    · rw [State.setInode_ne hne]
      exact h.used f e' hf
  · intro e'
    rcases eq_or_ne e' e with rfl | hne
    · rw [State.setInode_self]
      exact hn
    · rw [State.setInode_ne hne]
      exact h.named e'

theorem Inv.replace {node : Inode} (h : Inv w) (h0 : (w.inodes e).refs = 0) (hr : node.refs = 0)
    (hn : node.iName ≠ none → node.type ≠ .notInit) :
    Inv (w.setInode e node) ∧ Idle w (w.setInode e node) := by
  have hno : ∀ f, w.files f ≠ some e := refs_eq_zero.1 (h.refs e ▸ h0)
  refine ⟨h.setInode (hr.trans h0.symm) (fun f hf => absurd hf (hno f)) hn, ?_⟩
  intro e' hch
  rcases eq_or_ne e' e with rfl | hne
  · exact h0
  · rw [State.setInode_ne hne] at hch
    rcases hch with hch | hch <;> exact absurd rfl hch

/-! ## Files -/

/-- Every inode slot has the name and the type it had. -/
def Same (w w' : State) : Prop :=
  ∀ e, (w'.inodes e).iName = (w.inodes e).iName ∧ (w'.inodes e).type = (w.inodes e).type

theorem Same.idle {w' : State} (h : Same w w') : Idle w w' := by
  rintro e (hch | hch)
  · exact absurd (h e).1 hch
  · exact absurd (h e).2 hch

theorem Same.trans {w₁ w₂ w₃ : State} (h1 : Same w₁ w₂) (h2 : Same w₂ w₃) : Same w₁ w₃ := by
  intro e
  exact ⟨(h2 e).1.trans (h1 e).1, (h2 e).2.trans (h1 e).2⟩

theorem Same.setInode {node : Inode} (hn : node.iName = (w.inodes e).iName)
    (ht : node.type = (w.inodes e).type) : Same w (w.setInode e node) := by
  intro e'
  rcases eq_or_ne e' e with rfl | hne
  · rw [State.setInode_self]
    exact ⟨hn, ht⟩
  · rw [State.setInode_ne hne]
    exact ⟨rfl, rfl⟩

theorem Inode.unref_same (node : Inode) : node.unref.iName = node.iName ∧ node.unref.type = node.type := by
  rw [Inode.unref]
  split <;> exact ⟨rfl, rfl⟩

theorem State.newFile_some {w' : State} (h : w.newFile e = (w', some f)) :
    w.files f = none ∧
      w' = { w.setInode e (w.inodes e).ref with files := Function.update w.files f (some e) } := by
  rw [State.newFile] at h
  split at h
  · simp at h
  · next f' hf =>
    obtain ⟨rfl, hff⟩ := Prod.mk.inj h
    cases hff
    exact ⟨by simpa using List.find?_some hf, rfl⟩

theorem State.newFile_none {w' : State} (h : w.newFile e = (w', none)) : w' = w := by
  rw [State.newFile] at h
  split at h
  · exact (Prod.mk.inj h).1.symm
  · simp at h

theorem Inv.newFile {w' : State} (h : Inv w) (hu : (w.inodes e).iName ≠ none)
    (hw : w.newFile e = (w', some f)) : Inv w' ∧ Same w w' ∧ w'.files f = some e := by
  obtain ⟨hf, rfl⟩ := State.newFile_some hw
  have hlt : refs w.files e + 1 < 256 := by
    have hle : refs w.files e ≤ Fintype.card (Fin MAX_FILE_NUM) := refs_le_card
    rw [Fintype.card_fin] at hle
    exact Nat.lt_of_le_of_lt (Nat.succ_le_succ hle) (by decide)
  have hsame : Same w (w.setInode e (w.inodes e).ref) := Same.setInode rfl rfl
  refine ⟨⟨⟨?_, ?_⟩, ?_⟩, hsame, Function.update_self ..⟩
  · intro e'
    change ((w.setInode e (w.inodes e).ref).inodes e').refs = Lib.refs (Function.update w.files f (some e)) e'
    rw [refs_hold hf]
    rcases eq_or_ne e' e with rfl | hne
    · rw [State.setInode_self, Inode.ref, h.refs, if_pos rfl]
      exact Nat.mod_eq_of_lt hlt
    · rw [State.setInode_ne hne, h.refs, if_neg hne]
      rfl
  · intro g e' hg
    change ((w.setInode e (w.inodes e).ref).inodes e').type ≠ .notInit ∧ _
    change Function.update w.files f (some e) g = some e' at hg
    rw [(hsame e').2, (hsame e').1]
    rcases eq_or_ne g f with rfl | hne
    · rw [Function.update_self] at hg
      cases hg
      exact ⟨h.named _ hu, hu⟩
    · rw [Function.update_of_ne hne] at hg
      exact h.used g e' hg
  · intro e'
    change ((w.setInode e (w.inodes e).ref).inodes e').iName ≠ none → _
    rw [(hsame e').1]
    intro hn
    exact (hsame e').2 ▸ h.named e' hn

theorem Inv.delFile (h : Inv w) (hf : w.files f = some e) : Inv (w.delFile f) ∧ Same w (w.delFile f) := by
  have hw : w.delFile f = { w.setInode e (w.inodes e).unref with files := Function.update w.files f none } := by
    rw [State.delFile, hf]
  have hun : (w.inodes e).unref.refs = (w.inodes e).refs - 1 := by
    rw [Inode.unref]
    split
    · rfl
    · omega
  have hsame : Same w (w.setInode e (w.inodes e).unref) :=
    Same.setInode (Inode.unref_same _).1 (Inode.unref_same _).2
  rw [hw]
  refine ⟨⟨⟨?_, ?_⟩, ?_⟩, hsame⟩
  · intro e'
    change ((w.setInode e (w.inodes e).unref).inodes e').refs = Lib.refs (Function.update w.files f none) e'
    have hrel : refs w.files e' = _ := refs_release hf
    rcases eq_or_ne e' e with rfl | hne
    · rw [State.setInode_self, hun, h.refs, hrel, if_pos rfl]
      rfl
    · rw [State.setInode_ne hne, h.refs, hrel, if_neg hne]
      rfl
  · intro g e' hg
    change ((w.setInode e (w.inodes e).unref).inodes e').type ≠ .notInit ∧ _
    change Function.update w.files f none g = some e' at hg
    rw [(hsame e').2, (hsame e').1]
    rcases eq_or_ne g f with rfl | hne
    · rw [Function.update_self] at hg
      cases hg
    · rw [Function.update_of_ne hne] at hg
      exact h.used g e' hg
  · intro e'
    change ((w.setInode e (w.inodes e).unref).inodes e').iName ≠ none → _
    rw [(hsame e').1]
    intro hn
    exact (hsame e').2 ▸ h.named e' hn

theorem State.getFile_some {fd : ℤ} (h : w.getFile fd = some f) : ∃ e, w.files f = some e := by
  rw [State.getFile] at h
  split at h
  · dsimp only at h
    split at h
    · next hs =>
      cases h
      exact Option.isSome_iff_exists.1 hs
    · cases h
  · cases h

/-! ## One call -/

/-- What a call keeps, and that it frees no name in use. -/
def Keeps (w w' : State) : Prop := Inv w' ∧ Idle w w'

theorem Inv.same (h : Inv w) : Keeps w w := ⟨h, Idle.refl w⟩

theorem Inv.fault (h : Inv w) (b : Bool) : Keeps w { w with fault := b } :=
  ⟨⟨⟨h.refs, h.used⟩, h.named⟩, Idle.refl w⟩

theorem Inodes.reserve_inl {inodes : Inodes} {path : Option Path} (hr : w.inodes.reserve path malloc = (inodes, .inl e)) :
    ∃ p, (w.inodes e).type = .notInit ∧ inodes = Function.update w.inodes e { w.inodes e with iName := some p } := by
  unfold Inodes.reserve at hr
  split at hr
  · simp at hr
  · next p =>
    split at hr
    · simp at hr
    · split at hr
      · simp at hr
      · next e' ha =>
        split at hr
        · simp at hr
        · obtain ⟨rfl, he⟩ := Prod.mk.inj hr
          obtain rfl := Sum.inl.inj he
          exact ⟨p, Inodes.alloc_some ha, rfl⟩

theorem Inv.register {type : NodeType} {ops arg : ℕ} {mutexNew : Bool} (h : Inv w) (ht : type ≠ .notInit) :
    Keeps w (w.register type path ops arg lock malloc mutexNew unlock).1 := by
  unfold State.register
  split
  · exact h.same
  · split
    · next ret hr =>
      split
      · exact h.same
      · exact h.fault true
    · next inodes e hr =>
      obtain ⟨p, hfree, rfl⟩ := Inodes.reserve_inl hr
      rw [Function.update_idem, Function.update_self]
      have h0 := h.free hfree
      dsimp only
      split
      · exact h.replace h0 h0 fun _ => ht
      · rw [Function.update_idem]
        exact h.replace h0 rfl fun hn => absurd rfl hn

theorem Inv.release (h : Inv w) : Keeps w { w with inodes := (w.inodes.release path).1 } := by
  unfold Inodes.release
  split
  · exact h.same
  · next p =>
    split
    · exact h.same
    · next e he =>
      by_cases hbusy : 0 < (w.inodes e).refs
      · have hdel : (w.inodes e).del = (w.inodes e, .ebusy) := if_pos hbusy
        rw [hdel]
        have heq : Function.update w.inodes e (w.inodes e) = w.inodes := Function.update_eq_self ..
        simp only [heq]
        exact h.same
      · have h0 : (w.inodes e).refs = 0 := Nat.eq_zero_of_not_pos hbusy
        have hdel : (w.inodes e).del = _ := if_neg hbusy
        rw [hdel]
        exact h.replace h0 h0 fun hn => absurd rfl hn

/-- A file slot is taken for the inode of a path, and what follows ends with the file open
    or given back. -/
theorem Inv.lookup {w' : State} (h : Inv w) (ho : w.inodes.open p = some e)
    (hw : w.newFile e = (w', some f)) : Keeps w w' ∧ Keeps w (w'.delFile f) := by
  obtain ⟨hi, hs, hf⟩ := h.newFile (Inodes.open_some ho) hw
  obtain ⟨hi', hs'⟩ := hi.delFile hf
  exact ⟨⟨hi, hs.idle⟩, hi', (hs.trans hs').idle⟩

theorem Inv.aosOpen {flags : ℕ} {opened : Bool} (h : Inv w) :
    Keeps w (w.aosOpen path flags lock opened).1 := by
  unfold State.aosOpen
  split
  · exact h.same
  · next p =>
    split
    · exact h.same
    · split
      · exact h.same
      · split
        · exact h.same
        · next e he =>
          have hset : Inv (w.setInode e { w.inodes e with iFlags := flags }) :=
            h.setInode rfl (h.used · e) (h.named e)
          have hs : Same w (w.setInode e { w.inodes e with iFlags := flags }) := Same.setInode rfl rfl
          have hname : ((w.setInode e { w.inodes e with iFlags := flags }).inodes e).iName ≠ none := by
            rw [State.setInode_self]
            exact Inodes.open_some he
          dsimp only
          split
          · next hn => exact ⟨State.newFile_none hn ▸ hset, State.newFile_none hn ▸ hs.idle⟩
          · next f hf =>
            obtain ⟨hi, hs', hff⟩ := hset.newFile hname hf
            split
            · exact ⟨hi, (hs.trans hs').idle⟩
            · obtain ⟨hi', hs''⟩ := hi.delFile hff
              exact ⟨hi', ((hs.trans hs').trans hs'').idle⟩

theorem Inv.aosClose {fd : ℤ} (h : Inv w) : Keeps w (w.aosClose fd lock).1 := by
  unfold State.aosClose
  split
  · exact h.same
  · next f hf =>
    obtain ⟨e, he⟩ := State.getFile_some hf
    split
    · obtain ⟨hi, hs⟩ := h.delFile he
      exact ⟨hi, hs.idle⟩
    · exact h.same

theorem Inv.withFile {ret : Ret} {lockAgain : Bool} (h : Inv w) :
    Keeps w (w.withFile path lock ret lockAgain).1 := by
  unfold State.withFile
  split
  · exact h.same
  · split
    · exact h.same
    · split
      · exact h.same
      · next e he =>
        split
        · next hn => exact State.newFile_none hn ▸ h.same
        · next f hf =>
          obtain ⟨hk, hd⟩ := h.lookup he hf
          split
          · exact hd
          · exact hk

theorem Inv.opendir {opened lockAgain : Bool} (h : Inv w) :
    Keeps w (w.opendir path lock opened lockAgain).1 := by
  unfold State.opendir
  split
  · exact h.same
  · split
    · exact h.same
    · split
      · exact h.same
      · next e he =>
        split
        · next hn => exact State.newFile_none hn ▸ h.same
        · next f hf =>
          obtain ⟨hk, hd⟩ := h.lookup he hf
          split
          · exact hk
          · split
            · exact hd
            · exact hk

theorem Inv.io {fd : ℤ} {ret : Ret} (h : Inv w) : Keeps w (w.io fd ret).1 := by
  unfold State.io
  split <;> exact h.same

theorem Inv.call (h : Inv w) (c : Call) : Keeps w (w.call c).1 := by
  cases c with
  | registerDriver => exact h.register (by decide)
  | registerFs => exact h.register (by decide)
  | unregisterDriver path lock unlock =>
    cases lock
    · exact h.same
    · exact h.release
  | unregisterFs path lock unlock =>
    cases lock
    · exact h.same
    · exact h.release
  | aosOpen => exact h.aosOpen
  | aosClose => exact h.aosClose
  | withFile => exact h.withFile
  | opendir => exact h.opendir
  | io => exact h.io

theorem Inv.after (cs : List Call) : Inv (State.after cs) := by
  have hr : Run (Fn fun w c => (State.call w c).1) State.init cs (State.after cs) := run_fn.2 rfl
  refine hr.keeps ?_ Inv.init
  rintro w c w' h rfl
  exact (h.call c).1

/-- **Reference counts are right** in every state that calls lead to, and the next call
    frees or takes no inode slot that a file is open on. -/
theorem vfs_refs_counted (cs : List Call) (c : Call) :
    Counted (State.after cs) ∧ Idle (State.after cs) ((State.after cs).call c).1 :=
  ⟨(Inv.after cs).toCounted, ((Inv.after cs).call c).2⟩

end Vfs
