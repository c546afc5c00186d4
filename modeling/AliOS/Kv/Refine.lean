/-
  Key-value store: the store is a finite map.

  `Holding c s d M` ties the manager, the log and the map together.  Each call
  keeps it and answers as the map does (`Holding.step`), so every run from a
  freshly formatted partition refines the map (`kv_refines_map`).
-/
import AliOS.Kv.Settle
import AliOS.Lib.Trans

namespace Kv

open Lib

variable {c : KvConfig} {f : Flash} {d d' d₁ : Log} {s s' : KvMgr} {p q : ℕ} {it : Item}
  {key val : List UInt8}

/-! ## The map -/

/-- The map: the value of each key. -/
abbrev KvMap := List UInt8 → Option (List UInt8)

/-- What a completed call makes of the map. -/
def mapStep (M : KvMap) : KvOp × KvOut → KvMap
  | (.set key val, .res .ok) => Function.update M key (some val)
  | (.del key, .res .ok) => Function.update M key none
  | _ => M

/-- The value of the last successful set of a key with no successful delete
    behind it. -/
def valueAfter (es : List (KvOp × KvOut)) : KvMap := es.foldl mapStep fun _ => none

/-- What `aos_kv_get` gives back for a value. -/
def readRes (o : Option (List UInt8)) (bufferLen : ℕ) : KvRes × List UInt8 × ℕ :=
  if bufferLen = 0 then (.invalidParam, [], bufferLen)
  else
    match o with
    | none => (.itemNotFound, [], bufferLen)
    | some v => if bufferLen < v.length then (.noSpace, [], v.length) else (.ok, v, v.length)

/-! ## Reading a log -/

theorem reads_some : Reads c d key (some val) ↔
    ∃ p it, Lives c d p it ∧ it.key = key ∧ it.val = val := by
  constructor
  · rintro ⟨it, hit, h⟩
    obtain ⟨p, hp⟩ := has_iff.1 hit
    exact ⟨p, it, hp, h⟩
  · rintro ⟨p, it, hp, h⟩
    exact ⟨it, has_iff.2 ⟨p, hp⟩, h⟩

theorem reads_none : Reads c d key none ↔ ∀ p it, Lives c d p it → it.key ≠ key := by
  constructor
  · exact fun h p it hp => h it (has_iff.2 ⟨p, hp⟩)
  · intro h it hit
    obtain ⟨p, hp⟩ := has_iff.1 hit
    exact h p it hp

theorem Unique.reads (h : Unique c d) (hrep : Rep c f d) {o o' : Option (List UInt8)}
    (ho : Reads c d key o) (ho' : Reads c d key o') : o = o' := by
  cases o with
  | none =>
    cases o' with
    | none => rfl
    | some v =>
      obtain ⟨p, it, hp, hk, -⟩ := reads_some.1 ho'
      exact absurd hk (reads_none.1 ho p it hp)
  | some v =>
    obtain ⟨p, it, hp, hk, hv⟩ := reads_some.1 ho
    cases o' with
    | none => exact absurd hk (reads_none.1 ho' p it hp)
    | some v' =>
      obtain ⟨p', it', hp', hk', hv'⟩ := reads_some.1 ho'
      obtain rfl := h p p' it it' hp hp' (hk.trans hk'.symm)
      obtain rfl := hp.1.inj hrep hp'.1
      rw [← hv, hv']

variable (c) in
/-- The log holds the map. -/
def Models (d : Log) (M : KvMap) : Prop := ∀ key, Reads c d key (M key)

theorem Shown.aosKvGet (h : Shown c s d) (key : List UInt8) :
    ∃ o, Reads c d key o ∧ ∀ n, (Kv.aosKvGet c s key n).2 = readRes o n ∧
      (KnowsSpace c s d → (Kv.aosKvGet c s key n).1 = s) := by
  obtain ⟨s', r, hr, heq, hf⟩ := h.get key
  unfold Kv.aosKvGet readRes
  cases r with
  | none =>
    refine ⟨none, reads_none.2 fun p it hp => hf p it hp.1 hp.2, fun n => ?_⟩
    rw [hr]
    split
    · exact ⟨rfl, fun _ => rfl⟩
    · exact ⟨rfl, heq⟩
  | some item =>
    obtain ⟨p, it, hp, hl, hk, rfl⟩ := hf
    refine ⟨some it.val, reads_some.2 ⟨p, it, ⟨hp, hl⟩, hk, rfl⟩, fun n => ?_⟩
    have hbuf : ((it.found p).store.drop (it.found p).hdr.keyLen).take (it.found p).hdr.valLen =
        it.val := by
      show ((it.key ++ it.val).drop it.key.length).take it.val.length = it.val
      rw [List.drop_left, List.take_length]
    simp only [hr, hbuf]
    have hvl : (it.found p).hdr.valLen = it.val.length := rfl
    rw [hvl]
    split
    · exact ⟨rfl, fun _ => rfl⟩
    · split
      · exact ⟨rfl, heq⟩
      · exact ⟨rfl, heq⟩

theorem Backed.aosKvGet (h : Backed c s d) (key : List UInt8) :
    ∃ o, Reads c d key o ∧ ∀ n, Kv.aosKvGet c s key n = (s, readRes o n) := by
  obtain ⟨o, ho, hget⟩ := h.shown.aosKvGet key
  exact ⟨o, ho, fun n => Prod.ext ((hget n).2 h.space) (hget n).1⟩

/-! ## A key set or deleted -/

theorem Models.set {M : KvMap} (hm : Models c d M) (hu : Unique c d) {new : Item}
    (h : ∀ q x, Lives c d' q x ↔ Lives c d q x ∧ x.key ≠ key ∨ q = p ∧ x = new)
    (hnew : new.key = key ∧ new.val = val) :
    Models c d' (Function.update M key (some val)) ∧ Unique c d' := by
  refine ⟨fun k => ?_, fun q r x y hx hy hk => ?_⟩
  · by_cases hk : k = key
    · subst hk
      rw [Function.update_self]
      exact reads_some.2 ⟨p, new, (h p new).2 (.inr ⟨rfl, rfl⟩), hnew⟩
    · rw [Function.update_of_ne hk]
      have hmk := hm k
      cases ho : M k with
      | none =>
        rw [ho] at hmk
        refine reads_none.2 fun q x hx => ?_
        rcases (h q x).1 hx with ⟨hx, -⟩ | ⟨-, rfl⟩
        · exact reads_none.1 hmk q x hx
        · rw [hnew.1]
          exact fun he => hk he.symm
      | some v =>
        rw [ho] at hmk
        obtain ⟨q, x, hx, hxk, hxv⟩ := reads_some.1 hmk
        exact reads_some.2 ⟨q, x, (h q x).2 (.inl ⟨hx, by rw [hxk]; exact hk⟩), hxk, hxv⟩
  · rcases (h q x).1 hx with ⟨hx, hxk⟩ | ⟨rfl, rfl⟩ <;>
      rcases (h r y).1 hy with ⟨hy, hyk⟩ | ⟨rfl, rfl⟩
    · exact hu q r x y hx hy hk
    · exact absurd (hk.trans hnew.1) hxk
    · exact absurd (hk.symm.trans hnew.1) hyk
    · rfl

theorem Models.del {M : KvMap} (hm : Models c d M) (hu : Unique c d)
    (h : ∀ q x, Lives c d' q x ↔ Lives c d q x ∧ x.key ≠ key) :
    Models c d' (Function.update M key none) ∧ Unique c d' := by
  refine ⟨fun k => ?_, fun q r x y hx hy hk => hu q r x y ((h q x).1 hx).1 ((h r y).1 hy).1 hk⟩
  by_cases hk : k = key
  · subst hk
    rw [Function.update_self]
    exact reads_none.2 fun q x hx => ((h q x).1 hx).2
  · rw [Function.update_of_ne hk]
    have hmk := hm k
    cases ho : M k with
    | none =>
      rw [ho] at hmk
      exact reads_none.2 fun q x hx => reads_none.1 hmk q x ((h q x).1 hx).1
    | some v =>
      rw [ho] at hmk
      obtain ⟨q, x, hx, hxk, hxv⟩ := reads_some.1 hmk
      exact reads_some.2 ⟨q, x, (h q x).2 ⟨hx, by rw [hxk]; exact hk⟩, hxk, hxv⟩

theorem Models.congr {M : KvMap} (hm : Models c d M) (h : ∀ it, Has c d' it ↔ Has c d it) :
    Models c d' M := fun key => (reads_congr h).2 (hm key)

theorem Unique.ne_iff (hu : Unique c d) (hrep : Rep c f d) (hp : Lives c d p it) {x : Item} :
    Lives c d q x ∧ q ≠ p ↔ Lives c d q x ∧ x.key ≠ it.key := by
  constructor
  · rintro ⟨hx, hne⟩
    exact ⟨hx, fun hk => hne (hu q p x it hx hp hk)⟩
  · rintro ⟨hx, hne⟩
    refine ⟨hx, ?_⟩
    rintro rfl
    exact hne (congrArg Item.key (hx.1.inj hrep hp.1))

/-! ## The calls -/

/-- The manager, its log and the map. -/
structure Holding (c : KvConfig) (s : KvMgr) (d : Log) (M : KvMap) : Prop where
  inv : Inv c s d
  unique : Unique c d
  models : Models c d M

/-- The space an item of a key and a value takes. -/
def storeLen (c : KvConfig) (key val : List UInt8) : ℕ :=
  c.align (itemHeaderSize + key.length + val.length)

/-- `aos_kv_set` writes an item: its arguments are valid, and the key does not
    have the value already. -/
def Stores (c : KvConfig) (s : KvMgr) (key val : List UInt8) : Prop :=
  ¬ (val.length = 0 ∨ key.length > itemMaxKeyLen ∨ val.length > itemMaxValLen) ∧
    ∀ item, (kvItemGet c key s).2 = some item →
      ¬ (item.hdr.valLen = val.length ∧ (item.store.drop item.hdr.keyLen).take val.length = val)

/-- What a call leaves: the map after it, the images during it, and the count
    of clean blocks, which a set lowers only if it takes a clean block. -/
structure StepSpec (c : KvConfig) (s : KvMgr) (d : Log) (M : KvMap) (e : KvOp × KvOut)
    (s' : KvMgr) (d' : Log) : Prop where
  holding : Holding c s' d' (mapStep M e)
  grows : Grows s s' (CrashImg c d d')
  count_le : s.cleanBlkNums ≤ s'.cleanBlkNums + 1
  count_eq : (∀ key val, e.1 = .set key val → Stores c s key val →
    ¬ TakesClean c s (storeLen c key val)) → s'.cleanBlkNums = s.cleanBlkNums

variable {M : KvMap}

theorem Holding.reads (h : Holding c s d M) {o : Option (List UInt8)} (ho : Reads c d key o) :
    o = M key := h.unique.reads h.inv.rep ho (h.models key)

theorem Holding.same (h : Holding c s d M) {e : KvOp × KvOut} (he : mapStep M e = M) :
    StepSpec c s d M e s d :=
  ⟨by rw [he]; exact h, .refl rfl, Nat.le_succ _, fun _ => rfl⟩

theorem Img.between (hl1 : ∀ q x, Lives c d₁ q x → Lives c d q x ∨ Lives c d' q x)
    (hl : ∀ q x, Lives c d q x → Lives c d₁ q x) (h : Img c d₁ f) : CrashImg c d d' f := by
  obtain ⟨d₀, hr, ht, hlives⟩ := h
  refine ⟨d₀, hr, fun u hu hst hne => absurd (ht u hu hst) hne, fun k o ho => ?_⟩
  cases o with
  | none =>
    refine .inl (reads_none.2 fun q x hx => ?_)
    exact reads_none.1 ho q x ((hlives q x).2 (hl q x hx))
  | some v =>
    obtain ⟨q, x, hx, hk⟩ := reads_some.1 ho
    rcases hl1 q x ((hlives q x).1 hx) with hx | hx
    · exact .inl (reads_some.2 ⟨q, x, hx, hk⟩)
    · exact .inr (reads_some.2 ⟨q, x, hx, hk⟩)

theorem Holding.store (h : Holding c s d M) {r : KvRes} (hk : key.length ≤ itemMaxKeyLen)
    (hv : 0 < val.length ∧ val.length ≤ itemMaxValLen) (hnone : Reads c d key none)
    (hstores : Stores c s key val) (he : kvItemStore c s key val 0 = some (s', r)) :
    ∃ d', StepSpec c s d M (.set key val, .res r) s' d' := by
  obtain ⟨⟨d', hinv, hg, hd'⟩, hle, hnt⟩ := h.inv.store hk hv (by decide) he
  have hcount : (∀ k v, KvOp.set key val = .set k v → Stores c s k v →
      ¬ TakesClean c s (storeLen c k v)) → s'.cleanBlkNums = s.cleanBlkNums :=
    fun hc => hnt (hc key val rfl hstores)
  rcases hd' with ⟨rfl, hsame⟩ | ⟨rfl, p, -, hl⟩
  · refine ⟨d', ⟨hinv, fun p q x y hx hy => ?_, h.models.congr fun it => ?_⟩,
      hg.mono fun f hf => hf.crashImg, hle, hcount⟩
    · exact h.unique p q x y (hsame.lives_iff.1 hx) (hsame.lives_iff.1 hy)
    · simp only [has_iff, hsame.lives_iff]
  · have hl' : ∀ q x, Lives c d' q x ↔ Lives c d q x ∧ x.key ≠ key ∨
        q = p ∧ x = newItem key val 0 hk hv (by decide) := by
      intro q x
      rw [hl]
      constructor
      · rintro (hx | hx)
        · exact .inl ⟨hx, reads_none.1 hnone q x hx⟩
        · exact .inr hx
      · rintro (⟨hx, -⟩ | hx)
        · exact .inl hx
        · exact .inr hx
    obtain ⟨hm, hu⟩ := h.models.set h.unique hl' ⟨rfl, rfl⟩
    exact ⟨d', ⟨hinv, hu, hm⟩, hg.mono fun f hf => hf.crashImg, hle, hcount⟩

theorem Holding.update (h : Holding c s d M) {r : KvRes} (hk : key.length ≤ itemMaxKeyLen)
    (hv : 0 < val.length ∧ val.length ≤ itemMaxValLen) (hp : Lives c d p it) (hkey : it.key = key)
    (hstores : it.val ≠ val → Stores c s key val)
    (he : kvItemUpdate c s (it.found p) key val = some (s', r)) :
    ∃ d', StepSpec c s d M (.set key val, .res r) s' d' := by
  have hread : M key = some it.val := (h.reads (reads_some.2 ⟨p, it, hp, hkey, rfl⟩)).symm
  unfold kvItemUpdate at he
  have hval : ((it.found p).store.drop (it.found p).hdr.keyLen) = it.val := by
    show (it.key ++ it.val).drop it.key.length = it.val
    rw [List.drop_left]
  have hvl : (it.found p).hdr.valLen = it.val.length := rfl
  rw [hval, hvl] at he
  by_cases hsame : it.val.length = val.length ∧ it.val.take val.length = val
  · -- the value is there already
    rw [if_pos hsame] at he
    cases he
    have hveq : it.val = val := by
      rw [← hsame.2, ← hsame.1, List.take_length]
    refine ⟨d, h.same ?_⟩
    show Function.update M key (some val) = M
    rw [← hveq, ← hread]
    exact Function.update_eq_self ..
  · rw [if_neg hsame] at he
    have hne : it.val ≠ val := fun hc => hsame (by rw [hc, List.take_length]; exact ⟨rfl, rfl⟩)
    have ho := (hp.1.pos_lt h.inv.rep).2
    cases hst : kvItemStore c s key val (it.found p).pos with
    | none => rw [hst] at he; cases he
    | some res =>
      obtain ⟨s₁, r1⟩ := res
      rw [hst] at he
      obtain ⟨⟨d₁, hinv, hg, hd1⟩, hle, hnt⟩ := h.inv.store hk hv ho hst
      have hcount : (∀ k v, KvOp.set key val = .set k v → Stores c s k v →
          ¬ TakesClean c s (storeLen c k v)) → s₁.cleanBlkNums = s.cleanBlkNums :=
        fun hc => hnt (hc key val rfl (hstores hne))
      rcases hd1 with ⟨rfl, hsame⟩ | ⟨rfl, p1, hfree, hl⟩
      · cases he
        refine ⟨d₁, ⟨hinv, fun p q x y hx hy => ?_, h.models.congr fun it => ?_⟩,
          hg.mono fun f hf => hf.crashImg, hle, hcount⟩
        · exact h.unique p q x y (hsame.lives_iff.1 hx) (hsame.lives_iff.1 hy)
        · simp only [has_iff, hsame.lives_iff]
      · cases he
        -- both items are valid until the old one is deleted
        have hp1 : Lives c d₁ p it := (hl p it).2 (.inl hp)
        have hpne : p1 ≠ p := by
          rintro rfl
          exact hfree it hp.1
        obtain ⟨d', hinv', hl', hc', hg'⟩ := hinv.remove hp1
        have hlives : ∀ q x, Lives c d' q x ↔ Lives c d q x ∧ x.key ≠ key ∨
            q = p1 ∧ x = newItem key val p hk hv ho := by
          intro q x
          rw [hl', hl, or_and_right, h.unique.ne_iff h.inv.rep hp, hkey]
          constructor
          · rintro (hx | ⟨hx, -⟩)
            · exact .inl hx
            · exact .inr hx
          · rintro (hx | hx)
            · exact .inl hx
            · exact .inr ⟨hx, by rw [hx.1]; exact hpne⟩
        obtain ⟨hm, hu⟩ := h.models.set h.unique hlives ⟨rfl, rfl⟩
        refine ⟨d', ⟨hinv', hu, hm⟩, (hg.mono fun f hf => hf.crashImg).trans (hg'.mono ?_), ?_, ?_⟩
        · rintro f (hf | hf)
          · refine hf.between (fun q x hx => ?_) fun q x hx => (hl q x).2 (.inl hx)
            rcases (hl q x).1 hx with hx | hx
            · exact .inl hx
            · exact .inr ((hlives q x).2 (.inr hx))
          · exact hf.crashImg.symm
        · show s.cleanBlkNums ≤ (kvItemRemove s₁ p).cleanBlkNums + 1
          omega
        · intro hc
          show (kvItemRemove s₁ p).cleanBlkNums = _
          rw [hc', hcount hc]

/-- **One call** keeps the map, and leaves only images that read as the map
    before it or as the map after it. -/
theorem Holding.step (h : Holding c s d M) {e : KvOp × KvOut} (hs : KvStep c s e s') :
    ∃ d', StepSpec c s d M e s' d' := by
  obtain ⟨op, out⟩ := e
  unfold KvStep at hs
  cases op with
  | set key val =>
    simp only [kvStep, Option.map_eq_some_iff, Prod.mk.injEq] at hs
    obtain ⟨⟨m, r⟩, hs, rfl, rfl⟩ := hs
    unfold aosKvSet at hs
    by_cases hinv : val.length = 0 ∨ key.length > itemMaxKeyLen ∨ val.length > itemMaxValLen
    · rw [if_pos hinv] at hs
      cases hs
      exact ⟨d, h.same rfl⟩
    · rw [if_neg hinv] at hs
      have hk : key.length ≤ itemMaxKeyLen := by omega
      have hv : 0 < val.length ∧ val.length ≤ itemMaxValLen := by omega
      obtain ⟨res, hget, hfind⟩ := h.inv.get key
      rw [hget] at hs
      cases res with
      | none =>
        refine h.store hk hv (reads_none.2 fun p it hp => hfind p it hp.1 hp.2) ⟨hinv, ?_⟩ hs
        rw [hget]
        intro item hitem
        cases hitem
      | some item =>
        obtain ⟨p, it, hp, hl, hkey, rfl⟩ := hfind
        refine h.update hk hv ⟨hp, hl⟩ hkey (fun hne => ⟨hinv, ?_⟩) hs
        rw [hget]
        rintro item hitem ⟨h1, h2⟩
        cases hitem
        refine hne ?_
        have hdrop : (it.found p).store.drop (it.found p).hdr.keyLen = it.val := by
          show (it.key ++ it.val).drop it.key.length = it.val
          rw [List.drop_left]
        have hvl : it.val.length = val.length := h1
        rw [hdrop] at h2
        rw [← h2, ← hvl, List.take_length]
  | get key n =>
    obtain ⟨o, -, hget⟩ := h.inv.toBacked.aosKvGet key
    simp only [kvStep, hget, Option.some.injEq, Prod.mk.injEq] at hs
    obtain ⟨rfl, rfl⟩ := hs
    exact ⟨d, h.same rfl⟩
  | del key =>
    obtain ⟨res, hget, hfind⟩ := h.inv.get key
    simp only [kvStep, aosKvDel, hget, Option.some.injEq, Prod.mk.injEq] at hs
    cases res with
    | none =>
      obtain ⟨rfl, rfl⟩ := hs
      exact ⟨d, h.same rfl⟩
    | some item =>
      obtain ⟨p, it, hp, hl, rfl, rfl⟩ := hfind
      obtain ⟨rfl, rfl⟩ := hs
      obtain ⟨d', hinv, hl', hc, hg⟩ := h.inv.remove ⟨hp, hl⟩
      have hlives : ∀ q x, Lives c d' q x ↔ Lives c d q x ∧ x.key ≠ it.key := fun q x => by
        rw [hl', h.unique.ne_iff h.inv.rep ⟨hp, hl⟩]
      obtain ⟨hm, hu⟩ := h.models.del h.unique hlives
      refine ⟨d', ⟨hinv, hu, hm⟩, hg.mono ?_, ?_, fun _ => hc⟩
      · rintro f (hf | hf)
        · exact hf.crashImg
        · exact hf.crashImg.symm
      · show s.cleanBlkNums ≤ (kvItemRemove s p).cleanBlkNums + 1
        omega
  | gc =>
    simp only [kvStep, Option.some.injEq, Prod.mk.injEq] at hs
    obtain ⟨rfl, rfl⟩ := hs
    obtain ⟨d', hinv, hh, hu, hc, hg⟩ := h.inv.gc
    refine ⟨d', ⟨hinv, hu h.unique, h.models.congr hh⟩, hg.mono ?_, by omega, fun _ => hc⟩
    rintro f ⟨d₀, hr, hs, hreads⟩
    refine ⟨d₀, hr, hs, fun key o ho => .inl ?_⟩
    exact (hreads key o ho).elim id id

/-! ## Runs -/

theorem rep_erased : Rep c erased fun _ => ⟨none, []⟩ := by
  intro b _
  refine ⟨fun st hst => ?_, fun _ => ⟨rfl, rfl⟩, rfl, fun _ _ _ => rfl, ?_⟩
  · cases hst
  · rw [itemsSize_nil]
    decide

theorem reads_empty (h : ∀ b, (d b).items = []) {o : Option (List UInt8)}
    (ho : Reads c d key o) : o = none := by
  cases o with
  | none => rfl
  | some v =>
    obtain ⟨it, ⟨b, -, hm, -⟩, -⟩ := ho
    rw [h b] at hm
    simp at hm

theorem recoverable_erased : Recoverable c erased fun _ => ⟨none, []⟩ where
  origins p it hp := by
    obtain ⟨⟨b, -, hm⟩, -⟩ := hp
    simp [placed_nil] at hm
  reserve := .inr (by simp)
  copies u _ hu := by cases hu

theorem holding_init :
    ∃ d, Holding c (aosKvInit c erased) d (fun _ => none) ∧
      1 ≤ (aosKvInit c erased).cleanBlkNums ∧
      Sub c (fun _ => ⟨none, []⟩) (aosKvInit c erased).flash ∧
      Grows (.boot erased) (aosKvInit c erased) (Sub c fun _ => ⟨none, []⟩) := by
  obtain ⟨d, hinv, hreads, hc, hsub, hg⟩ := aosKvInit_inv (c := c) rep_erased
    (fun u hu hst => by cases hst) recoverable_erased
  have hno : ∀ p it, ¬ Lives c d p it := by
    intro p it hp
    have := reads_empty (fun _ => rfl) (hreads it.key (some it.val)
      (reads_some.2 ⟨p, it, hp, rfl, rfl⟩))
    cases this
  exact ⟨d, ⟨hinv, fun p q it it' hp => absurd hp (hno p it), fun key =>
    reads_none.2 fun p it hp => absurd hp (hno p it)⟩, hc, hsub, hg⟩

theorem Holding.run {es : List (KvOp × KvOut)} (run : Run (KvStep c) s es s')
    (h : Holding c s d M) : ∃ d', Holding c s' d' (es.foldl mapStep M) := by
  induction run generalizing d M with
  | nil => exact ⟨d, h⟩
  | cons hs _ ih =>
    obtain ⟨d₁, h1⟩ := h.step hs
    exact ih h1.holding

theorem run_kvRun {ops : List KvOp} {outs : List KvOut} (h : kvRun c s ops = some (s', outs)) :
    Run (KvStep c) s (ops.zip outs) s' := by
  induction ops generalizing s outs with
  | nil =>
    cases h
    exact .nil
  | cons op ops ih =>
    rw [kvRun] at h
    cases hs : kvStep c s op with
    | none => rw [hs] at h; cases h
    | some p =>
      rw [hs] at h
      simp only [Option.map_eq_some_iff] at h
      obtain ⟨⟨t, rest⟩, hrest, he⟩ := h
      cases he
      exact .cons hs (ih hrest)

/-- **The store refines a finite map**: at the end of every run each key reads as
    the value of its last successful set, or as not found; a set that fails
    changes nothing that is read; and no key has two valid items. -/
theorem kv_refines_map {es : List (KvOp × KvOut)}
    (run : Run (KvStep c) (aosKvInit c erased) es s) :
    (∀ key n, (aosKvGet c s key n).2 = readRes (valueAfter es key) n) ∧
      (∀ key val r s', KvStep c s (.set key val, .res r) s' → r ≠ .ok →
        ∀ k n, (aosKvGet c s' k n).2 = (aosKvGet c s k n).2) ∧
      ∃ d, Rep c s.flash d ∧ Unique c d := by
  obtain ⟨d₀, h₀, -⟩ := holding_init (c := c)
  obtain ⟨d, h⟩ := h₀.run run
  have hget : ∀ {s : KvMgr} {d : Log} {M : KvMap}, Holding c s d M → ∀ key n,
      (aosKvGet c s key n).2 = readRes (M key) n := by
    intro s d M h key n
    obtain ⟨o, ho, hg⟩ := h.inv.toBacked.aosKvGet key
    rw [hg, h.reads ho]
  refine ⟨hget h, fun key val r s' hs hr k n => ?_, d, h.inv.rep, h.unique⟩
  obtain ⟨d', h'⟩ := h.step hs
  have hmap : mapStep (es.foldl mapStep fun _ => none) (.set key val, .res r) =
      es.foldl mapStep fun _ => none := by
    cases r with
    | ok => exact absurd rfl hr
    | cont | noSpace | invalidParam | itemNotFound => rfl
  rw [hget h'.holding, hget h, hmap]

/-- The configuration with two blocks, as by default, and four-byte pointers. -/
def twoBlks : KvConfig := ⟨2, 4, by decide, by decide, .inl rfl⟩

theorem kv_refines_map_gc :
    ∃ es s, Run (KvStep twoBlks) (aosKvInit twoBlks erased) es s ∧
      (aosKvGet twoBlks s [0x6B] 16).2 = (.ok, [2], 1) := by
  have hrun : (kvRun twoBlks (aosKvInit twoBlks erased)
      [.set [0x6B] [1], .set [0x6B] [2], .gc, .set [0x6A] [3], .del [0x6A]]).map (·.2) =
      some [.res .ok, .res .ok, .done, .res .ok, .res .ok] := by decide +kernel
  obtain ⟨⟨s, outs⟩, hrun, rfl⟩ := Option.map_eq_some_iff.1 hrun
  have run := run_kvRun hrun
  exact ⟨_, s, run, (kv_refines_map run).1 [0x6B] 16⟩

end Kv
