/-
  Key-value store: power cuts.

  Power may be lost between any two flash operations of any run, the first
  initialisation included.  Every image this leaves is a log, and recovery on
  it keeps every key where the image is `Recoverable`.  It need not be: the
  copies of a collection keep the origins of the items, and recovery takes a
  copy whose origin is the original for an update of it.
-/
import AliOS.Kv.Refine

namespace Kv

open Lib

variable {c : KvConfig} {f : Flash} {d d' : Log} {s s' : KvMgr}

/-- The image `f` is there at some point between `s` and `s'`, before a flash
    operation or behind the last one. -/
def Cut (s s' : KvMgr) (f : Flash) : Prop :=
  ∃ new, s'.past = new ++ s.past ∧ (f ∈ new ∨ f = s'.flash)

/-- The images a power cut can leave, with the calls completed before it and
    the call it interrupts. -/
inductive PowerCut (c : KvConfig) : List (KvOp × KvOut) → Option (KvOp × KvOut) → Flash → Prop
  /-- During the first `aos_kv_init`. -/
  | init {img : Flash} : Cut (.boot erased) (aosKvInit c erased) img → PowerCut c [] none img
  /-- Between two calls, or in a call that comes to no flash operation. -/
  | idle {es : List (KvOp × KvOut)} {m : KvMgr} :
      Run (KvStep c) (aosKvInit c erased) es m → PowerCut c es none m.flash
  /-- During a call. -/
  | call {es : List (KvOp × KvOut)} {m m' : KvMgr} {e : KvOp × KvOut} {img : Flash} :
      Run (KvStep c) (aosKvInit c erased) es m → KvStep c m e m' → Cut m m' img →
      PowerCut c es (some e) img

/-- The key a call changes. -/
def KvOp.key? : KvOp → Option (List UInt8)
  | .set key _ | .del key => some key
  | .get .. | .gc => none

/-- What a key may read as after recovery: its value after the completed calls
    or, if the interrupted call changes it, its value after that call. -/
def MayRead (es : List (KvOp × KvOut)) (pending : Option (KvOp × KvOut)) (key : List UInt8)
    (o : Option (List UInt8)) : Prop :=
  o = valueAfter es key ∨
    ∃ e, pending = some e ∧ e.1.key? = some key ∧ o = valueAfter (es ++ [e]) key

theorem Cut.grows {P : Flash → Prop} (h : Cut s s' f) (hg : Grows s s' P) (hlast : P s'.flash) :
    P f := by
  obtain ⟨new, he, hf⟩ := h
  obtain ⟨new', he', hp⟩ := hg
  rw [he'] at he
  obtain rfl := List.append_cancel_right he
  rcases hf with hf | rfl
  · exact hp f hf
  · exact hlast

theorem mapStep_ne {M : KvMap} {e : KvOp × KvOut} {key : List UInt8} (h : e.1.key? ≠ some key) :
    mapStep M e key = M key := by
  obtain ⟨op, out⟩ := e
  cases op with
  | set k v =>
    have hk : key ≠ k := fun he => h (by rw [he]; rfl)
    cases out with
    | res r => cases r <;> simp [mapStep, Function.update_of_ne hk]
    | read | done => rfl
  | del k =>
    have hk : key ≠ k := fun he => h (by rw [he]; rfl)
    cases out with
    | res r => cases r <;> simp [mapStep, Function.update_of_ne hk]
    | read | done => rfl
  | get | gc => cases out <;> rfl

/-- **What a power cut leaves** is a log with the shape recovery expects, and
    every key reads as it may. -/
theorem PowerCut.img {es : List (KvOp × KvOut)} {pending : Option (KvOp × KvOut)}
    (h : PowerCut c es pending f) :
    ∃ d, Rep c f d ∧ Shape c d ∧ ∀ key o, Reads c d key o → MayRead es pending key o := by
  obtain ⟨d₀, h₀, -, hsub0, hg0⟩ := holding_init (c := c)
  cases h with
  | init hcut =>
    obtain ⟨d, hr, hsz⟩ := hcut.grows hg0 hsub0
    have hnil : ∀ b, (d b).items = [] := fun b => itemsSize_eq_zero.1 (Nat.le_zero.1 (hsz b))
    exact ⟨d, hr, fun u _ _ hne => absurd (hnil u) hne, fun key o ho => .inl (reads_empty hnil ho)⟩
  | idle run =>
    obtain ⟨d, h⟩ := h₀.run run
    exact ⟨d, h.inv.rep, fun u hu hst hne => absurd (h.inv.clean u hu hst) hne, fun key o ho =>
      .inl (h.reads ho)⟩
  | @call _ _ _ e _ run hs hcut =>
    obtain ⟨d, h⟩ := h₀.run run
    obtain ⟨d', h'⟩ := h.step hs
    obtain ⟨d1, hr, hsh, hreads⟩ := hcut.grows h'.grows h'.holding.inv.img.crashImg.symm
    refine ⟨d1, hr, hsh, fun key o ho => ?_⟩
    have hafter : valueAfter (es ++ [e]) = mapStep (valueAfter es) e := by
      rw [valueAfter, List.foldl_append]
      rfl
    rcases hreads key o ho with ho | ho
    · exact .inl (h.reads ho)
    · have he := h'.holding.reads ho
      by_cases hk : e.1.key? = some key
      · exact .inr ⟨e, rfl, hk, by rw [hafter, he]; rfl⟩
      · exact .inl (by rw [he, mapStep_ne hk]; rfl)

/-- **Power-cut safety**, of the recoverable images: each key reads as its value
    after the completed calls, and only the key of the interrupted call may
    read as its value after that one instead. -/
theorem power_cut_safe {es : List (KvOp × KvOut)} {pending : Option (KvOp × KvOut)}
    (h : PowerCut c es pending f) :
    (∃ d, Rep c f d) ∧ ∀ d, Rep c f d → Recoverable c f d → ∀ key, ∃ o, MayRead es pending key o ∧
      ∀ n, (aosKvGet c (aosKvInit c f) key n).2 = readRes o n := by
  obtain ⟨d, hrep, hsh, hmay⟩ := h.img
  refine ⟨⟨d, hrep⟩, fun d' hrep' hrec key => ?_⟩
  have heq : ∀ b < c.blkNums, d' b = d b := fun b hb => hrep'.inj hrep hb
  have hshape : Shape c d' := by
    intro u hu hst hne
    rw [heq u hu] at hst hne ⊢
    rcases hsh u hu hst hne with ⟨b, hb, hs⟩ | hcopy
    · refine .inl ⟨b, hb, ?_⟩
      rwa [Spare, heq b hb]
    · refine .inr fun it hit hl => ?_
      obtain ⟨b, hb, hbu, x, hx⟩ := hcopy it hit hl
      exact ⟨b, hb, hbu, x, by rwa [heq b hb]⟩
  have hhas : ∀ it, Has c d' it ↔ Has c d it := fun it => by
    constructor
    · rintro ⟨b, hb, hm⟩
      exact ⟨b, hb, by rwa [← heq b hb]⟩
    · rintro ⟨b, hb, hm⟩
      exact ⟨b, hb, by rwa [heq b hb]⟩
  obtain ⟨d₁, hinv, hreads, -⟩ := aosKvInit_inv hrep' hshape hrec
  obtain ⟨o, ho, hget⟩ := hinv.toBacked.aosKvGet key
  exact ⟨o, hmay key o ((reads_congr hhas).1 (hreads key o ho)), fun n => by rw [hget]⟩

theorem Recoverable.of_origin_zero (hno : ∀ p it, Lives c d p it → it.origin = 0)
    (hclean : ∃ b < c.blkNums, Spare d b) : Recoverable c f d where
  origins p it hp h0 := absurd (hno p it hp) h0
  reserve := by
    obtain ⟨b, hb, -, hst⟩ := hclean
    exact .inl ⟨b, hb, hst⟩
  copies _ _ _ := .inl hclean

/-- A power cut behind the first set. -/
theorem power_cut_safe_set :
    ∃ es f, PowerCut twoBlks es none f ∧ valueAfter es [0x6B] = some [1] ∧
      (aosKvGet twoBlks (aosKvInit twoBlks f) [0x6B] 16).2 = (.ok, [1], 1) := by
  have hrun : (kvRun twoBlks (aosKvInit twoBlks erased) [.set [0x6B] [1]]).map
      (fun p => (p.2, (kvItemGet twoBlks [0x6B] p.1).2.map (·.hdr.originOff), p.1.cleanBlkNums)) =
      some ([.res .ok], some 0, 1) := by decide +kernel
  obtain ⟨⟨s, outs⟩, hrun, hres⟩ := Option.map_eq_some_iff.1 hrun
  simp only [Prod.mk.injEq] at hres
  obtain ⟨rfl, horig, hclean⟩ := hres
  have run := run_kvRun hrun
  obtain ⟨d₀, h₀, -⟩ := holding_init (c := twoBlks)
  obtain ⟨d, h⟩ := h₀.run run
  have hcut : PowerCut twoBlks _ none s.flash := .idle run
  have hrec : Recoverable twoBlks s.flash d := by
    refine .of_origin_zero (fun p it hp => ?_) ?_
    · -- the only valid item is the one a lookup finds
      obtain ⟨r, hr, hf⟩ := h.inv.get [0x6B]
      rw [hr] at horig
      obtain ⟨item, rfl, ho⟩ := Option.map_eq_some_iff.1 horig
      obtain ⟨q, x, hx, hl, hk, rfl⟩ := hf
      have hkey : it.key = [0x6B] := by
        by_contra hne
        have := h.reads (reads_some.2 ⟨p, it, hp, rfl, rfl⟩)
        have hnone : valueAfter ([KvOp.set [0x6B] [1]].zip [.res .ok]) it.key = none := by
          show Function.update (fun _ => none) [0x6B] (some [1]) it.key = none
          rw [Function.update_of_ne hne]
        exact absurd (this.trans hnone) (by simp)
      obtain rfl := h.unique p q it x hp ⟨hx, hl⟩ (hkey.trans hk.symm)
      obtain rfl := hp.1.inj h.inv.rep hx
      exact ho
    · have hcard : 0 < (cleanBlks twoBlks d).card := by
        rw [← h.inv.count, hclean]
        exact Nat.zero_lt_one
      obtain ⟨b, hb⟩ := Finset.card_pos.1 hcard
      obtain ⟨hbn, hbc⟩ := mem_cleanBlks.1 hb
      exact ⟨b, hbn, h.inv.clean b hbn hbc, .inr hbc⟩
  obtain ⟨o, ho, hget⟩ := (power_cut_safe hcut).2 d h.inv.rep hrec [0x6B]
  refine ⟨_, s.flash, hcut, rfl, ?_⟩
  rcases ho with rfl | ⟨e, he, -⟩
  · rw [hget]
    rfl
  · cases he

/-- Two updates and two collections before the collection that is cut: the key
    `k` is back in the second block, and its item names as its origin the place
    it is copied to next but one. -/
def staleOps : List KvOp :=
  [.set [0x6B] [1], .set [0x6B] [2], .gc, .set [0x6A] [1], .del [0x6A], .gc,
    .set [0x6A] [1], .del [0x6A]]

/-- **A key is lost**: power fails when the collection has copied the only
    valid item.  Recovery deletes the original, as the origin of the copy, and
    formats the block of the copy. -/
theorem power_cut_loses_key :
    ∃ es e f, PowerCut twoBlks es (some e) f ∧ e.1 = .gc ∧ valueAfter es [0x6B] = some [2] ∧
      (aosKvGet twoBlks (aosKvInit twoBlks f) [0x6B] 16).2.1 = .itemNotFound := by
  have hrun : (kvRun twoBlks (aosKvInit twoBlks erased) staleOps).map (fun p =>
      (p.2, (aosKvGc twoBlks p.1).past.length - p.1.past.length,
        (aosKvGc twoBlks p.1).past[2]?.map fun f =>
          (aosKvGet twoBlks (aosKvInit twoBlks f) [0x6B] 16).2.1)) =
      some ([.res .ok, .res .ok, .done, .res .ok, .res .ok, .done, .res .ok, .res .ok], 4,
        some .itemNotFound) := by decide +kernel
  obtain ⟨⟨s, outs⟩, hrun, hres⟩ := Option.map_eq_some_iff.1 hrun
  simp only [Prod.mk.injEq] at hres
  obtain ⟨rfl, hlen, himg⟩ := hres
  obtain ⟨f, hf, hget⟩ := Option.map_eq_some_iff.1 himg
  have run := run_kvRun hrun
  have hstep : KvStep twoBlks s (.gc, .done) (aosKvGc twoBlks s) := rfl
  obtain ⟨d₀, h₀, -⟩ := holding_init (c := twoBlks)
  obtain ⟨d, h⟩ := h₀.run run
  obtain ⟨d', h'⟩ := h.step hstep
  obtain ⟨new, hnew, -⟩ := h'.grows
  have hcut : Cut s (aosKvGc twoBlks s) f := by
    refine ⟨new, hnew, .inl ?_⟩
    have hl : new.length = 4 := by
      rw [hnew, List.length_append] at hlen
      omega
    rw [hnew, List.getElem?_append_left (by omega)] at hf
    exact List.mem_of_getElem? hf
  exact ⟨_, _, f, .call run hstep hcut, rfl, rfl, hget⟩

end Kv
