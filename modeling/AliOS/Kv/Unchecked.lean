/-
  Key-value store: the checked calls are those of `Store`.

  A call that does not stop gives what the call of `Store` gives, and so does
  `aos_kv_init`: the tests on the widths only read (`kvStepFit_ok`,
  `aosKvInitFit_ok`).
-/
import AliOS.Kv.Widths

namespace Kv

open Lib

/-- What does not stop gives what the other computation gives. -/
def Erases {α : Type} (x : Fit α) (o : Option α) : Prop := ∀ a, x = .ok a → o = some a

namespace Erases

variable {α β : Type} {x : Fit α} {a : α} {o : Option α} {k : α → Fit β} {q : Option β}

theorem ret : Erases (pure a) (some a) := fun _ h => congrArg some (Except.ok.inj h)

theorem seq (h : Erases x o) (hk : ∀ a, o = some a → Erases (k a) q) : Erases (x >>= k) q := by
  intro b hb
  cases x with
  | ok a => exact hk a (h a rfl) b hb
  | error e => cases hb

theorem bind (h : Erases x (some a)) (hk : Erases (k a) q) : Erases (x >>= k) q :=
  h.seq fun _ ha => Option.some.inj ha ▸ hk

theorem test {t : Fit Unit} (h : Erases x o) : Erases (t >>= fun _ => x) o := by
  intro b hb
  cases t with
  | ok a => exact h b hb
  | error e => cases hb

end Erases

variable {c : KvConfig} {s : KvMgr} {pos index i fuel : ℕ} {state : UInt8}

/-! ## Flash operations -/

theorem Erases.stateSet : Erases (kvStateSetFit s pos state) (some (s.kvStateSet pos state)) := .test .ret

theorem Erases.dirty : Erases (markDirtyFit s index) (some (s.markDirty index)) := by
  unfold markDirtyFit KvMgr.markDirty
  split_ifs
  · exact .bind .stateSet .ret
  · exact .ret

theorem Erases.format : Erases (kvBlockFormatFit s index) (some (s.kvBlockFormat index)) := .test (.test .ret)

theorem Erases.remove : Erases (kvItemRemoveFit s pos) (some (kvItemRemove s pos)) :=
  .test (.bind .stateSet (.test .dirty))

theorem Erases.delOrig {item : KvItem} : Erases (kvItemDelOrigFit s item) (some (kvItemDelOrig s item)) := by
  refine .test ?_
  unfold kvItemDelOrig
  split_ifs
  · exact .remove
  · exact .ret

/-! ## Where an item is written -/

theorem Erases.scan {len blkIndex : ℕ} :
    Erases (calcScanFit c.size s len blkIndex fuel i) (calcScan c s len blkIndex fuel i) := by
  induction fuel generalizing i with
  | zero => rintro _ ⟨⟩
  | succ fuel ih =>
    unfold calcScanFit calcScan
    dsimp only
    rw [size_blkNums]
    split_ifs
    · exact .ret
    · exact .ret
    · exact .test ih
    · exact .ret
    · exact .test ih

theorem Erases.take : Erases (takeBlkFit s i) (some (s.takeBlk i)) := by
  refine .test ?_
  unfold KvMgr.takeBlk
  dsimp only
  split_ifs
  · exact .bind .stateSet .ret
  · exact .ret

theorem Erases.calcPos {len : ℕ} : Erases (kvItemCalcPosFit c.size s len) (kvItemCalcPos c s len) := by
  refine .test ?_
  unfold kvItemCalcPos calcBlk
  dsimp only
  rw [size_blkNums]
  by_cases hroom : (s.blockInfo (s.writePos / blkSize)).space > len
  · rw [if_pos hroom, if_pos hroom]
    exact .ret
  rw [if_neg hroom, if_neg hroom]
  by_cases hblks : c.blkNums > kvGcReserved + 1
  · rw [if_pos hblks, if_pos hblks]
    refine .test (Erases.scan.seq ?_)
    rintro (_ | i) hscan
    · rw [hscan]
      exact .ret
    · rw [hscan]
      exact .bind .take .ret
  · rw [if_neg hblks, if_neg hblks]
    exact .ret

/-! ## Traversal -/

/-- The two callbacks do the same where the first does not stop. -/
def Agree (f : ItemFuncFit) (g : ItemFunc) : Prop := ∀ item s, Erases (f item s) (some (g item s))

theorem agree_recovery : Agree itemRecoveryCbFit itemRecoveryCb := by
  intro item s
  unfold itemRecoveryCbFit itemRecoveryCb
  split_ifs
  · exact .bind .delOrig .ret
  · exact .ret
  · exact .bind .remove .ret

theorem agree_find (key : List UInt8) : Agree (itemFindCbFit key) (itemFindCb key) := fun _ _ => .ret

theorem agree_gc (c : KvConfig) : Agree (itemGcCbFit c.size) (itemGcCb c) := fun _ _ => .test (.test (.test .ret))

variable {f : ItemFuncFit} {g : ItemFunc}

theorem Erases.walk (hf : Agree f g) :
    Erases (traverseLoopFit c.size f index fuel pos s) (some (traverseLoop c g index fuel pos s)) := by
  induction fuel generalizing pos s with
  | zero => exact .ret
  | succ fuel ih =>
    unfold traverseLoopFit traverseLoop
    dsimp only
    split_ifs with hroom hend hmagic hnormal
    · exact .ret
    · exact .test (.bind .dirty ih)
    · refine (hf _ _).seq ?_
      rintro ⟨s₁, item, res⟩ hfunc
      rw [Option.some.inj hfunc]
      cases res with
      | ok => exact .ret
      | cont => exact .test ih
      | noSpace | invalidParam | itemNotFound => exact .ret
    · exact .bind .dirty (.test ih)
    · exact .ret

theorem Erases.traverse (hf : Agree f g) :
    Erases (kvItemTraverseFit c.size f index s) (some (kvItemTraverse c g index s)) :=
  .test (.test (.test (.walk hf)))

theorem Erases.getFrom {key : List UInt8} {k : ℕ} :
    Erases (itemGetFromFit c.size key k i s) (some (itemGetFrom c key (List.range' i k) s)) := by
  induction k generalizing i s with
  | zero => exact .ret
  | succ k ih =>
    rw [List.range'_succ]
    unfold itemGetFromFit itemGetFrom
    split_ifs
    · refine (Erases.traverse (agree_find key)).seq ?_
      rintro ⟨s₁, _ | item⟩ hrun
      · rw [Option.some.inj hrun]
        exact .test ih
      · rw [Option.some.inj hrun]
        exact .ret
    · exact .test ih

theorem Erases.item {key : List UInt8} : Erases (kvItemGetFit c.size key s) (some (kvItemGet c key s)) := by
  unfold kvItemGet
  rw [List.range_eq_range']
  exact .getFrom

/-! ## The interface -/

variable {key val : List UInt8}

theorem Erases.store {originOff : ℕ} :
    Erases (kvItemStoreFit c.size s key val originOff) (kvItemStore c s key val originOff) := by
  refine .test (Erases.calcPos.seq ?_)
  rintro ⟨s₁, pos⟩ hpos
  rw [size_align] at hpos
  unfold kvItemStore
  dsimp only
  rw [hpos]
  dsimp only
  split_ifs
  · exact .test (.test (.test (.test .ret)))
  · exact .ret

theorem Erases.update {item : KvItem} :
    Erases (kvItemUpdateFit c.size s item key val) (kvItemUpdate c s item key val) := by
  unfold kvItemUpdateFit kvItemUpdate
  by_cases hsame : item.hdr.valLen = val.length ∧ (item.store.drop item.hdr.keyLen).take val.length = val
  · rw [if_pos hsame, if_pos hsame]
    exact .ret
  rw [if_neg hsame, if_neg hsame]
  by_cases hpos : item.pos = 0
  · rw [if_pos hpos]
    rintro _ ⟨⟩
  rw [if_neg hpos]
  refine Erases.store.seq ?_
  rintro ⟨s₁, r⟩ hstore
  rw [hstore]
  cases r with
  | ok => exact .bind .remove .ret
  | cont | noSpace | invalidParam | itemNotFound => exact .ret

theorem Erases.set : Erases (aosKvSetFit c.size s key val) (aosKvSet c s key val) := by
  unfold aosKvSetFit aosKvSet
  split_ifs
  · exact .ret
  · refine Erases.item.seq ?_
    rintro ⟨s₁, _ | item⟩ hget
    · rw [Option.some.inj hget]
      exact .store
    · rw [Option.some.inj hget]
      exact .update

theorem Erases.get {bufferLen : ℕ} :
    Erases (aosKvGetFit c.size s key bufferLen) (some (aosKvGet c s key bufferLen)) := by
  unfold aosKvGetFit aosKvGet
  split_ifs
  · exact .ret
  · refine Erases.item.seq ?_
    rintro ⟨s₁, _ | item⟩ hget
    · rw [Option.some.inj hget]
      exact .ret
    · rw [Option.some.inj hget]
      dsimp only
      split_ifs
      · exact .ret
      · exact .ret

theorem Erases.del : Erases (aosKvDelFit c.size s key) (some (aosKvDel c s key)) := by
  unfold aosKvDel
  refine Erases.item.seq ?_
  rintro ⟨s₁, _ | item⟩ hget
  · rw [Option.some.inj hget]
    exact .ret
  · rw [Option.some.inj hget]
    exact .bind .remove .ret

/-! ## Garbage collection -/

theorem Erases.blks {p : ℕ → Fit Bool} {q : ℕ → Bool} {k : ℕ} (hp : ∀ i, Erases (p i) (some (q i))) :
    Erases (forBlks p k i) (some ((List.range' i k).find? q)) := by
  induction k generalizing i with
  | zero => exact .ret
  | succ k ih =>
    unfold forBlks
    rw [List.range'_succ, List.find?_cons]
    refine (hp i).bind ?_
    cases q i with
    | true => exact .ret
    | false => exact .test ih

theorem Erases.victim {origin : ℕ} :
    Erases (gcVictimFit c.size s origin fuel i) (some (gcVictim c s origin fuel i)) := by
  induction fuel generalizing i with
  | zero => exact .ret
  | succ fuel ih =>
    unfold gcVictimFit gcVictim
    dsimp only
    rw [size_blkNums]
    generalize (if i = c.blkNums then 0 else i) = j
    split_ifs
    · exact .ret
    · exact .ret
    · exact .test ih

theorem Erases.collect {gcIndex : ℕ} : Erases (gcCollectFit c.size s gcIndex i) (some (gcCollect c s gcIndex i)) :=
  .bind (.traverse (agree_gc c)) (.bind .format (.bind .stateSet .ret))

theorem Erases.gc : Erases (aosKvGcFit c.size s) (some (aosKvGc c s)) := by
  unfold aosKvGcFit aosKvGc
  dsimp only
  rw [size_blkNums, List.range_eq_range']
  split_ifs
  · exact .ret
  refine (Erases.blks (q := fun i => decide ((s.blockInfo i).state = blkStateClean)) fun _ => .ret).bind ?_
  cases (List.range' 0 c.blkNums).find? fun i => decide ((s.blockInfo i).state = blkStateClean) with
  | none => exact .ret
  | some gcIndex =>
    dsimp only
    refine .test (.test (Erases.victim.seq ?_))
    rintro (_ | i) hvictim
    · rw [Option.some.inj hvictim]
      exact .ret
    · rw [Option.some.inj hvictim]
      exact .bind .collect .ret

/-! ## Initialisation -/

theorem Erases.block {p : KvMgr × List ℕ} : Erases (initBlockFit c.size p i) (some (initBlock c p i)) := by
  unfold initBlockFit initBlock
  dsimp only
  by_cases hmagic : p.1.flash (i * blkSize) = blkMagicNum
  · rw [if_pos hmagic, if_pos hmagic]
    by_cases hinvalid : InvalidBlkState (p.1.flash (i * blkSize + 1))
    · rw [if_pos hinvalid, if_pos hinvalid]
      exact .bind .format .ret
    rw [if_neg hinvalid, if_neg hinvalid]
    refine (Erases.traverse agree_recovery).bind ?_
    split_ifs
    · exact .ret
    · exact .ret
    · exact .ret
  · rw [if_neg hmagic, if_neg hmagic]
    exact .bind .format .ret

theorem Erases.blocks {k : ℕ} {p : KvMgr × List ℕ} :
    Erases (initBlocksFit c.size k i p) (some ((List.range' i k).foldl (initBlock c) p)) := by
  induction k generalizing i p with
  | zero => exact .ret
  | succ k ih =>
    rw [List.range'_succ, List.foldl_cons]
    exact .bind .block (.test ih)

theorem Erases.unclean : Erases (initUncleanFit s i) (some (initUnclean s i)) := by
  refine .test ?_
  unfold initUnclean
  split_ifs
  · exact .bind .stateSet .ret
  · exact .format

theorem Erases.uncleans {un : List ℕ} : Erases (un.foldlM initUncleanFit s) (some (un.foldl initUnclean s)) := by
  induction un generalizing s with
  | nil => exact .ret
  | cons i un ih =>
    rw [List.foldlM_cons, List.foldl_cons]
    exact .bind .unclean ih

theorem Erases.next : Erases (initNextFit c.size s i)
    (some (decide (((s.blockInfo i).state = blkStateUsed ∨ (s.blockInfo i).state = blkStateDirty) ∧
      (s.blockInfo (if i + 1 = c.blkNums then 0 else i + 1)).state = blkStateClean))) := by
  unfold initNextFit
  by_cases hused : (s.blockInfo i).state = blkStateUsed ∨ (s.blockInfo i).state = blkStateDirty
  · rw [if_pos hused]
    simp only [hused, true_and]
    exact .test .ret
  · rw [if_neg hused]
    simp only [hused, false_and, decide_false]
    exact .ret

theorem Erases.writePos : Erases (initWritePosFit c.size s) (some (initWritePos c s)) := by
  unfold initWritePosFit initWritePos
  rw [size_blkNums]
  by_cases hall : s.cleanBlkNums = c.blkNums
  · rw [if_pos hall, if_pos hall]
    exact .bind .stateSet .ret
  rw [if_neg hall, if_neg hall]
  unfold initWriteBlk
  rw [List.range_eq_range']
  refine (Erases.blks fun _ => .next).seq ?_
  rintro (_ | i) hfind
  · rw [Option.some.inj hfind]
    exact .ret
  · rw [Option.some.inj hfind]
    exact .test .ret

theorem Erases.init : Erases (kvInitFit c.size s) (some (kvInit c s)) := by
  unfold kvInitFit kvInit
  rw [size_blkNums, List.range_eq_range']
  refine Erases.blocks.bind (Erases.uncleans.bind ?_)
  dsimp only
  split_ifs
  · exact .bind .format .writePos
  · exact .writePos

theorem Erases.boot {f : Flash} : Erases (aosKvInitFit c.size f) (some (aosKvInit c f)) := by
  unfold aosKvInitFit aosKvInit
  refine Erases.init.bind (.test ?_)
  dsimp only
  split_ifs
  · exact .ret
  · exact .ret

theorem Erases.step {op : KvOp} : Erases (kvStepFit c.size s op) (kvStep c s op) := by
  cases op with
  | set key val =>
    refine Erases.set.seq ?_
    rintro t hset
    unfold kvStep
    dsimp only
    rw [hset]
    exact .ret
  | get key bufferLen => exact .bind .get .ret
  | del key => exact .bind .del .ret
  | gc => exact .bind .gc .ret

theorem kvStepFit_ok {op : KvOp} {r : KvMgr × KvOut} (h : kvStepFit c.size s op = .ok r) : kvStep c s op = some r :=
  Erases.step r h

end Kv
