/-
  Key-value store: the log of a partition, and the flash operations as updates
  of the log.
-/
import AliOS.Kv.Layout

namespace Kv

open Lib

variable (c : KvConfig)

/-- A block: the state in its header, `none` before it has one, and its items. -/
structure Blk where
  state : Option UInt8
  items : List Item

/-- The blocks of a partition. -/
abbrev Log := ℕ → Blk

/-- The bytes from `base` on are the block `b`. -/
structure BlkRep (f : Flash) (base : ℕ) (b : Blk) : Prop where
  header : ∀ st, b.state = some st →
    f base = blkMagicNum ∧ f (base + 1) = st ∧ ¬ InvalidBlkState st
  noHeader : b.state = none → f base = 0xFF ∧ b.items = []
  items : Holds f (base + blkHeaderSize) (itemsBytes c b.items)
  rest : ∀ a, base + blkHeaderSize + itemsSize c b.items ≤ a → a < base + blkSize → f a = 0xFF
  fits : blkHeaderSize + itemsSize c b.items < blkSize

/-- The image `f` is the log `d`. -/
def Rep (f : Flash) (d : Log) : Prop := ∀ b < c.blkNums, BlkRep c f (b * blkSize) (d b)

/-- The item `it` is at the offset `p`. -/
def At (d : Log) (p : ℕ) (it : Item) : Prop :=
  ∃ b < c.blkNums, (p, it) ∈ placed c (b * blkSize + blkHeaderSize) (d b).items

/-- The item at `p` is valid: in the state `NORMAL`. -/
def Lives (d : Log) (p : ℕ) (it : Item) : Prop := At c d p it ∧ it.live = true

/-- The offset behind the items of a block. -/
def endPos (d : Log) (b : ℕ) : ℕ := b * blkSize + blkHeaderSize + itemsSize c (d b).items

namespace Log

def setState (d : Log) (b : ℕ) (st : UInt8) : Log :=
  Function.update d b { d b with state := some st }

def append (d : Log) (b : ℕ) (it : Item) : Log :=
  Function.update d b { d b with items := (d b).items ++ [it] }

/-- The items from `pos` on, the one at `p` deleted. -/
def killFrom (p : ℕ) : ℕ → List Item → List Item
  | _, [] => []
  | pos, it :: its => (if pos = p then it.dead else it) :: killFrom p (pos + it.size c) its

/-- The item at `p` deleted. -/
def kill (d : Log) (p : ℕ) : Log :=
  Function.update d (p / blkSize)
    { d (p / blkSize) with
      items := killFrom c p (p / blkSize * blkSize + blkHeaderSize) (d (p / blkSize)).items }

def erase (d : Log) (b : ℕ) : Log := Function.update d b ⟨none, []⟩

def format (d : Log) (b : ℕ) : Log := Function.update d b ⟨some blkStateClean, []⟩

end Log

variable {c} {f f' : Flash} {d : Log} {b p q base : ℕ} {it it' : Item} {blk : Blk}

theorem BlkRep.congr (h : BlkRep c f base blk)
    (he : ∀ a, base ≤ a → a < base + blkSize → f' a = f a) : BlkRep c f' base blk := by
  have hfit := h.fits
  simp only [blkSize, blkHeaderSize] at *
  refine ⟨fun st hst => ?_, fun hn => ?_, ?_, fun a h1 h2 => ?_, h.fits⟩
  · rw [he _ (by omega) (by omega), he _ (by omega) (by omega)]
    exact h.header st hst
  · rw [he _ (by omega) (by omega)]
    exact h.noHeader hn
  · refine h.items.congr fun i h1 h2 => he i ?_ ?_
    · simp only [blkHeaderSize] at h1; omega
    · simp only [blkHeaderSize, itemsBytes_length] at h2; omega
  · rw [he a (by omega) h2]
    exact h.rest a h1 h2

theorem Rep.update {dst n : ℕ} {src : ℕ → UInt8} (h : Rep c f d) (hlo : b * blkSize ≤ dst)
    (hhi : dst + n ≤ b * blkSize + blkSize)
    (hb : b < c.blkNums → BlkRep c (memcpy f dst src n) (b * blkSize) blk) :
    Rep c (memcpy f dst src n) (Function.update d b blk) := by
  intro b' hb'
  by_cases he : b' = b
  · subst he
    rw [Function.update_self]
    exact hb hb'
  · rw [Function.update_of_ne he]
    refine (h b' hb').congr fun a h1 h2 => memcpy_out ?_
    simp only [blkSize] at *
    omega

/-! ## Positions -/

theorem placed_block (h : Rep c f d) (hb : b < c.blkNums)
    (hp : (p, it) ∈ placed c (b * blkSize + blkHeaderSize) (d b).items) :
    b * blkSize + blkHeaderSize ≤ p ∧ p + it.size c < b * blkSize + blkSize ∧ p / blkSize = b := by
  have := placed_bounds hp
  have := (h b hb).fits
  have := it.lt_size c
  simp only [blkSize, blkHeaderSize] at *
  omega

theorem At.block (h : Rep c f d) (hp : At c d p it) :
    p / blkSize < c.blkNums ∧
      (p, it) ∈ placed c (p / blkSize * blkSize + blkHeaderSize) (d (p / blkSize)).items := by
  obtain ⟨b, hb, hp⟩ := hp
  obtain ⟨-, -, rfl⟩ := placed_block h hb hp
  exact ⟨hb, hp⟩

theorem At.inj (h : Rep c f d) (hp : At c d p it) (hp' : At c d p it') : it = it' :=
  placed_inj (hp.block h).2 (hp'.block h).2

theorem At.holds (h : Rep c f d) (hp : At c d p it) : Holds f p (it.bytes c) := by
  obtain ⟨b, hb, hp⟩ := hp
  exact holds_of_placed (h b hb).items hp

theorem At.pos_lt (h : Rep c f d) (hp : At c d p it) : 0 < p ∧ p < 65536 := by
  obtain ⟨b, hb, hp⟩ := hp
  have := placed_block h hb hp
  have := c.le_fifteen
  simp only [blkSize, blkHeaderSize] at *
  omega

/-! ## Updates -/

theorem Rep.setState {st : UInt8} (h : Rep c f d) (hst : ¬ InvalidBlkState st)
    (hs : (d b).state ≠ none) :
    Rep c (memcpy f (b * blkSize + 1) (fun i => [st].getD i 0) 1) (d.setState b st) := by
  refine h.update (by omega) (by simp only [blkSize]; omega) fun hb => ?_
  have hr := h b hb
  obtain ⟨st0, hst0⟩ := Option.ne_none_iff_exists'.1 hs
  refine ⟨fun st' hst' => ?_, fun hn => absurd hn (by simp), ?_, fun a h1 h2 => ?_, hr.fits⟩
  · cases hst'
    refine ⟨?_, ?_, hst⟩
    · rw [memcpy_out (by omega)]
      exact (hr.header st0 hst0).1
    · rw [memcpy_in (by omega) (by omega), Nat.sub_self]
      rfl
  · refine hr.items.memcpy_disjoint (.inr ?_)
    simp only [blkHeaderSize]; omega
  · rw [memcpy_out]
    · exact hr.rest a h1 h2
    · simp only [blkHeaderSize] at h1; omega

theorem Rep.append (h : Rep c f d) (it : Item) (hs : (d b).state ≠ none)
    (hfit : blkHeaderSize + itemsSize c (d b).items + it.size c < blkSize) :
    Rep c (memcpy f (endPos c d b) (fun i => (it.bytes c).getD i 0) (it.bytes c).length)
      (d.append b it) := by
  have hlen := it.bytes_length c
  refine h.update (by simp only [endPos]; omega)
    (by simp only [endPos, blkSize, blkHeaderSize] at *; omega) fun hb => ?_
  have hr := h b hb
  simp only [endPos]
  refine ⟨fun st hst => ?_, fun hn => absurd hn hs, ?_, fun a h1 h2 => ?_, ?_⟩
  · rw [memcpy_out (by simp only [blkHeaderSize]; omega),
      memcpy_out (by simp only [blkHeaderSize]; omega)]
    exact hr.header st hst
  · rw [itemsBytes, List.flatMap_append, holds_append]
    refine ⟨hr.items.memcpy_disjoint (.inl ?_), ?_⟩
    · simp
    · rw [show ((d b).items.flatMap (·.bytes c)).length = itemsSize c (d b).items from
        itemsBytes_length]
      simp only [List.flatMap_cons, List.flatMap_nil, List.append_nil]
      exact holds_memcpy_same 0
  · simp only [itemsSize_append, itemsSize_cons, itemsSize_nil] at h1
    rw [memcpy_out (by omega)]
    exact hr.rest a (by omega) h2
  · simp only [itemsSize_append, itemsSize_cons, itemsSize_nil]
    omega

theorem killFrom_behind {p pos : ℕ} {its : List Item} (h : p < pos) :
    Log.killFrom c p pos its = its := by
  induction its generalizing pos with
  | nil => rfl
  | cons it its ih => rw [Log.killFrom, if_neg (by omega), ih (by omega)]

theorem killFrom_split {pos : ℕ} {pre post : List Item} :
    Log.killFrom c (pos + itemsSize c pre) pos (pre ++ it :: post) = pre ++ it.dead :: post := by
  induction pre generalizing pos with
  | nil =>
    have := it.lt_size c
    rw [itemsSize_nil, List.nil_append, Log.killFrom, if_pos (by omega), killFrom_behind (by omega)]
    rfl
  | cons x pre ih =>
    have := x.lt_size c
    rw [itemsSize_cons, List.cons_append, Log.killFrom, if_neg (by omega), ← Nat.add_assoc, ih]
    rfl

theorem kill_block (h : Rep c f d) (hp : At c d p it) :
    ∃ pre post, (d (p / blkSize)).items = pre ++ it :: post ∧
      p = p / blkSize * blkSize + blkHeaderSize + itemsSize c pre ∧
      d.kill c p = Function.update d (p / blkSize)
        { d (p / blkSize) with items := pre ++ it.dead :: post } := by
  obtain ⟨pre, post, he, hpos⟩ := placed_split (hp.block h).2
  refine ⟨pre, post, he, hpos, ?_⟩
  have hk := @killFrom_split c it (p / blkSize * blkSize + blkHeaderSize) pre post
  rw [← hpos] at hk
  rw [Log.kill, he, hk]

theorem itemsBytes_mid {pre post : List Item} :
    itemsBytes c (pre ++ it :: post) = itemsBytes c pre ++ (it.bytes c ++ itemsBytes c post) := by
  simp [itemsBytes]

theorem Rep.kill (h : Rep c f d) (hp : At c d p it) :
    Rep c (memcpy f (p + 1) (fun i => [itemStateDelete].getD i 0) 1) (d.kill c p) := by
  obtain ⟨pre, post, he, hpos, hk⟩ := kill_block h hp
  have hb := (hp.block h).1
  have hblk := (placed_block h hb (hp.block h).2).1
  have hlt := (placed_block h hb (hp.block h).2).2.1
  have hsz := it.lt_size c
  rw [hk]
  refine h.update (by omega) (by simp only [itemHeaderSize] at hsz; omega) fun _ => ?_
  have hr := h _ hb
  have hi := hr.items
  have hsize : itemsSize c (pre ++ it.dead :: post) = itemsSize c (d (p / blkSize)).items := by
    rw [he]
    simp
  rw [he, itemsBytes_mid, holds_append, holds_append, itemsBytes_length, ← hpos] at hi
  refine ⟨fun st hst => ?_, fun hn => ?_, ?_, fun a h1 h2 => ?_, ?_⟩
  · simp only [blkHeaderSize] at hblk
    rw [memcpy_out (by omega), memcpy_out (by omega)]
    exact hr.header st hst
  · have := (hr.noHeader hn).2
    simp [he] at this
  · rw [itemsBytes_mid, holds_append, holds_append, itemsBytes_length, ← hpos]
    refine ⟨hi.1.memcpy_disjoint (.inl ?_), holds_dead hi.2.1, ?_⟩
    · rw [itemsBytes_length]; omega
    · rw [Item.bytes_length, Item.dead_size, ← it.bytes_length c]
      refine hi.2.2.memcpy_disjoint (.inr ?_)
      rw [Item.bytes_length]
      simp only [itemHeaderSize] at hsz
      omega
  · rw [hsize] at h1
    rw [memcpy_out]
    · exact hr.rest a h1 h2
    · have := placed_bounds (hp.block h).2
      simp only [itemHeaderSize] at hsz
      omega
  · rw [hsize]
    exact hr.fits

theorem Rep.erase (h : Rep c f d) : Rep c (memcpy f (b * blkSize) (fun _ => 0xFF) blkSize)
    (d.erase b) := by
  refine h.update le_rfl le_rfl fun _ => ?_
  refine ⟨fun st hst => absurd hst (by simp), fun _ => ⟨?_, rfl⟩, rfl, fun a h1 h2 => ?_, ?_⟩
  · have hlt : b * blkSize < b * blkSize + blkSize := by simp only [blkSize]; omega
    rw [memcpy_in le_rfl hlt]
  · simp only [itemsSize_nil] at h1
    exact memcpy_in (by omega) h2
  · simp only [itemsSize_nil]
    decide

theorem Rep.format (h : Rep c f d) (hd : d b = ⟨none, []⟩) :
    Rep c (memcpy f (b * blkSize) (fun i => [blkMagicNum, blkStateClean, 0, 0].getD i 0) 4)
      (d.format b) := by
  refine h.update le_rfl (by simp only [blkSize]; omega) fun hb => ?_
  refine ⟨fun st hst => ?_, fun hn => absurd hn (by simp), rfl, fun a h1 h2 => ?_, ?_⟩
  · cases hst
    refine ⟨?_, ?_, by decide⟩
    · rw [memcpy_in (by omega) (by omega), Nat.sub_self]
      rfl
    · rw [memcpy_in (by omega) (by omega), Nat.add_sub_cancel_left]
      rfl
  · simp only [blkHeaderSize, itemsSize_nil] at h1
    rw [memcpy_out (by omega)]
    refine (h b hb).rest a ?_ h2
    rw [hd]
    exact h1
  · simp only [itemsSize_nil]
    decide

/-! ## The items after an update -/

theorem at_update (hb : b < c.blkNums) :
    At c (Function.update d b blk) p it ↔
      (p, it) ∈ placed c (b * blkSize + blkHeaderSize) blk.items ∨
        ∃ b' < c.blkNums, b' ≠ b ∧ (p, it) ∈ placed c (b' * blkSize + blkHeaderSize) (d b').items := by
  constructor
  · rintro ⟨b', hb', h⟩
    by_cases he : b' = b
    · subst he
      rw [Function.update_self] at h
      exact .inl h
    · rw [Function.update_of_ne he] at h
      exact .inr ⟨b', hb', he, h⟩
  · rintro (h | ⟨b', hb', he, h⟩)
    · exact ⟨b, hb, by rwa [Function.update_self]⟩
    · exact ⟨b', hb', by rwa [Function.update_of_ne he]⟩

theorem at_setState {st : UInt8} : At c (d.setState b st) p it ↔ At c d p it := by
  have hi : ∀ b', (d.setState b st b').items = (d b').items := by
    intro b'
    by_cases he : b' = b
    · subst he
      rw [Log.setState, Function.update_self]
    · rw [Log.setState, Function.update_of_ne he]
  simp only [At, hi]

theorem at_append (hb : b < c.blkNums) :
    At c (d.append b it') p it ↔ At c d p it ∨ p = endPos c d b ∧ it = it' := by
  rw [Log.append, at_update hb, placed_append]
  simp only [placed_cons, placed_nil, List.mem_append, List.mem_singleton, Prod.mk.injEq, endPos]
  constructor
  · rintro ((h | h) | ⟨b', hb', -, h⟩)
    · exact .inl ⟨b, hb, h⟩
    · exact .inr h
    · exact .inl ⟨b', hb', h⟩
  · rintro (⟨b', hb', h⟩ | h)
    · by_cases he : b' = b
      · subst he
        exact .inl (.inl h)
      · exact .inr ⟨b', hb', he, h⟩
    · exact .inl (.inr h)

theorem at_kill (h : Rep c f d) (hp : At c d p it) {x : Item} :
    At c (d.kill c p) q x ↔ q = p ∧ x = it.dead ∨ q ≠ p ∧ At c d q x := by
  obtain ⟨pre, post, he, hpos, hk⟩ := kill_block h hp
  have hb := (hp.block h).1
  rw [hk, at_update hb, mem_placed_replace (it.dead_size c), ← he, ← hpos]
  constructor
  · rintro ((h1 | ⟨h1, h2⟩) | ⟨b', hb', hne, h1⟩)
    · exact .inl h1
    · exact .inr ⟨h1, _, hb, h2⟩
    · refine .inr ⟨?_, b', hb', h1⟩
      rintro rfl
      exact hne (placed_block h hb' h1).2.2.symm
  · rintro (h1 | ⟨h1, h2⟩)
    · exact .inl (.inl h1)
    · obtain ⟨b', hb', h3⟩ := h2
      by_cases hbe : b' = p / blkSize
      · subst hbe
        exact .inl (.inr ⟨h1, h3⟩)
      · exact .inr ⟨b', hb', hbe, h3⟩

theorem lives_kill (h : Rep c f d) (hp : At c d p it) {x : Item} :
    Lives c (d.kill c p) q x ↔ Lives c d q x ∧ q ≠ p := by
  unfold Lives
  rw [at_kill h hp]
  constructor
  · rintro ⟨⟨-, rfl⟩ | ⟨hq, hx⟩, hl⟩
    · simp at hl
    · exact ⟨⟨hx, hl⟩, hq⟩
  · rintro ⟨⟨hx, hl⟩, hq⟩
    exact ⟨.inr ⟨hq, hx⟩, hl⟩

end Kv
