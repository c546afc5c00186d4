/-
  Runs of the send list: it is bounded, and its exchanges end.

  What the functions do to the list is a sequence of moves: a node is added,
  marked, sent again, counted down, handed to its handler, or taken out (`Move`).
  The invariant is proved for moves (`SendInv.move`), the bound on cycles for
  whole cycles, by what is left of a node's time (`CoAPSendNode.life`).
-/
import AliOS.Coap.SendList
import AliOS.Lib.Trans
import Mathlib.Logic.Relation
import Mathlib.Data.List.Nodup

namespace Coap

open Lib

/-! ## Moves -/

/-- The message is listed if it is sent. -/
def Listed (m : CoAPMessage) (env : SendEnv) : Prop :=
  coapSerializeMessageLength m ≤ maxPduLen ∧ env.written ∧ (isReqMsg m.header || isConRespMsg m.header) ∧
    env.node

/-- The context with a further node. -/
def addNode (c : CoAPContext) (n : CoAPSendNode) : CoAPContext :=
  { c with
    sendlist := c.sendlist ++ [n], count := c.count + 1, blocks := c.blocks + n.blocks
    fresh := c.fresh + 1, log := c.log ++ [.tx n.uid] }

variable {T : Prop} {L : CoAPContext → CoAPMessage → Prop} {b b' : Option ℕ} {c c' : CoAPContext}
  {n n' : CoAPSendNode} {l₁ l₂ : List CoAPSendNode} {m : CoAPMessage} {env : SendEnv}

theorem coapMessageSend_cases (c : CoAPContext) (m : CoAPMessage) (env : SendEnv) :
    (Listed m env ∧
      coapMessageSend c m env = addNode c (newNode c.fresh m (datagram m) env.copy)) ∨
    (¬ Listed m env ∧ coapMessageSend c m env = c) := by
  unfold Listed coapMessageSend coapMessageListAdd
  by_cases hlen : maxPduLen < coapSerializeMessageLength m
  · exact .inr ⟨fun h => absurd h.1 (by omega), if_pos hlen⟩
  rw [if_neg hlen]
  by_cases hw : env.written
  swap
  · exact .inr ⟨fun h => hw h.2.1, if_neg hw⟩
  rw [if_pos hw]
  by_cases hq : isReqMsg m.header || isConRespMsg m.header
  swap
  · exact .inr ⟨fun h => hq h.2.2.1, if_neg hq⟩
  rw [if_pos hq]
  by_cases hn : env.node
  · exact .inl ⟨⟨by omega, hw, hq, hn⟩, by rw [if_pos hn]; rfl⟩
  · exact .inr ⟨fun h => hn h.2.2.2, if_neg hn⟩

/-- A message is added to the list, where `L` allows it, or the counters go on. -/
inductive Add (L : CoAPContext → CoAPMessage → Prop) (c : CoAPContext) : CoAPContext → Prop
  | node (m : CoAPMessage) (dg : Bytes) (copy : Bool) : L c m →
      Add L c (addNode c (newNode c.fresh m dg copy))
  | counters (messageId : UInt16) (coapToken : UInt32) (isAuthed : Bool) :
      c.messageId.toNat ≤ messageId.toNat → Add L c { c with messageId, coapToken, isAuthed }

abbrev Adds (L : CoAPContext → CoAPMessage → Prop) := Relation.ReflTransGen (Add L)

/-- What happens on the list, with the node whose handler runs; the timer moves
    are those of a cycle (`T`). -/
inductive Move (T : Prop) (L : CoAPContext → CoAPMessage → Prop) :
    Option ℕ × CoAPContext → Option ℕ × CoAPContext → Prop
  | add {b : Option ℕ} {c c' : CoAPContext} : Add L c c' → Move T L (b, c) (b, c')
  | mark {c : CoAPContext} {l₁ : List CoAPSendNode} {n : CoAPSendNode} {l₂ : List CoAPSendNode} :
      c.sendlist = l₁ ++ n :: l₂ →
      Move T L (none, c)
        (none, { c with sendlist := l₁ ++ { n with acked := true } :: l₂, log := c.log ++ [.acked n.uid] })
  | resend {c : CoAPContext} {l₁ : List CoAPSendNode} {n : CoAPSendNode} {l₂ : List CoAPSendNode} :
      T → c.sendlist = l₁ ++ n :: l₂ → n.retransCount < maxRetryCount → n.acked = false →
      Move T L (none, c)
        (none, { c with sendlist := l₁ ++ (retransmit n).1 :: l₂, log := c.log ++ [.tx n.uid] })
  | tick {c : CoAPContext} {l₁ : List CoAPSendNode} {n : CoAPSendNode} {l₂ : List CoAPSendNode} :
      T → c.sendlist = l₁ ++ n :: l₂ →
      Move T L (none, c) (none, { c with sendlist := l₁ ++ { n with timeout := n.timeout - 1 } :: l₂ })
  | call {c : CoAPContext} {n : CoAPSendNode} : n ∈ c.sendlist →
      Move T L (none, c) (some n.uid, { c with log := c.log ++ [.handled n.uid] })
  | remove {b : Option ℕ} {c : CoAPContext} {l₁ : List CoAPSendNode} {n : CoAPSendNode}
      {l₂ : List CoAPSendNode} : c.sendlist = l₁ ++ n :: l₂ → b = none ∨ b = some n.uid →
      Move T L (b, c)
        (none, { c with
          sendlist := l₁ ++ l₂, count := c.count - 1, blocks := c.blocks - n.blocks
          log := c.log ++ [.removed n.uid] })

abbrev Moves (T : Prop) (L : CoAPContext → CoAPMessage → Prop) := Relation.ReflTransGen (Move T L)

theorem adds_send (h : Listed m env → L c m) : Adds L c (coapMessageSend c m env) := by
  rcases coapMessageSend_cases c m env with ⟨hl, he⟩ | ⟨-, he⟩
  · rw [he]
    exact .single (.node m _ _ (h hl))
  · rw [he]

theorem moves_adds (h : Adds L c c') : Moves T L (b, c) (b, c') :=
  h.lift (fun c => (b, c)) fun _ _ h => .add h

theorem Adds.grows (h : Adds L c c') : ∃ ns, c'.sendlist = c.sendlist ++ ns := by
  induction h with
  | refl => exact ⟨[], (List.append_nil _).symm⟩
  | tail _ hadd ih =>
    obtain ⟨ns, hns⟩ := ih
    cases hadd with
    | node m dg copy => exact ⟨ns ++ [newNode _ m dg copy], by rw [← List.append_assoc, ← hns]; rfl⟩
    | counters => exact ⟨ns, hns⟩

/-! ## The invariant -/

/-- The event may come behind the other: after the removal nothing does, after an
    ack no transmission, after the handler's call only the removal. -/
def Follows (e e' : Ev) : Prop :=
  e.uid = e'.uid →
    match e, e' with
    | .removed _, _ => False
    | .acked _, .tx _ => False
    | .handled _, .removed _ => True
    | .handled _, _ => False
    | _, _ => True

/-- A log in which every node is handled and removed at most once, not sent again
    once acked, and sent a bounded number of times. -/
structure LogOk (log : List Ev) : Prop where
  order : log.Pairwise Follows
  sent : ∀ u, log.count (.tx u) ≤ 1 + maxRetryCount

/-- What the log says of a node on the list. -/
structure NodeOk (log : List Ev) (b : Option ℕ) (n : CoAPSendNode) : Prop where
  retransCount : n.retransCount ≤ maxRetryCount
  tx : log.count (.tx n.uid) ≤ 1 + n.retransCount
  acked : Ev.acked n.uid ∈ log → n.acked = true
  removed : Ev.removed n.uid ∉ log
  handled : Ev.handled n.uid ∈ log → b = some n.uid

structure SendInv (b : Option ℕ) (c : CoAPContext) : Prop where
  nodup : (c.sendlist.map CoAPSendNode.uid).Nodup
  lt : ∀ n ∈ c.sendlist, n.uid < c.fresh
  count : c.count = UInt8.ofNat c.sendlist.length
  blocks : c.blocks = (c.sendlist.map CoAPSendNode.blocks).sum
  nodes : ∀ n ∈ c.sendlist, NodeOk c.log b n
  events : ∀ e ∈ c.log, e.uid < c.fresh
  log : LogOk c.log

/-! ### The log -/

theorem LogOk.snoc {log : List Ev} {e : Ev} (h : LogOk log) (hf : ∀ e' ∈ log, Follows e' e)
    (hs : ∀ u, e = .tx u → log.count (.tx u) ≤ maxRetryCount) : LogOk (log ++ [e]) where
  order := by
    refine List.pairwise_append.2 ⟨h.order, List.pairwise_singleton _ _, fun e' he' x hx => ?_⟩
    obtain rfl := List.mem_singleton.1 hx
    exact hf e' he'
  sent u := by
    rw [List.count_append]
    by_cases he : e = .tx u
    · have := hs u he
      have : [e].count (.tx u) = 1 := by rw [he, List.count_singleton_self]
      omega
    · rw [List.count_singleton, if_neg (by simpa using he)]
      exact h.sent u

theorem mem_snoc_of_uid_ne {log : List Ev} {e x : Ev} (hne : e.uid ≠ x.uid) :
    x ∈ log ++ [e] ↔ x ∈ log := by
  rw [List.mem_append, List.mem_singleton]
  exact ⟨fun h => h.resolve_right fun he => hne (congrArg Ev.uid he.symm), .inl⟩

/-- An event of another node, where the handler's node stays or none was busy. -/
theorem NodeOk.other {log : List Ev} {b b' : Option ℕ} {e : Ev} (h : NodeOk log b n)
    (hne : e.uid ≠ n.uid) (hb : b = some n.uid → b' = some n.uid) : NodeOk (log ++ [e]) b' n where
  retransCount := h.retransCount
  tx := by
    rw [List.count_append, List.count_singleton, if_neg]
    · exact h.tx
    · rw [beq_iff_eq]
      rintro rfl
      exact hne rfl
  acked ha := h.acked ((mem_snoc_of_uid_ne hne).1 ha)
  removed hr := h.removed ((mem_snoc_of_uid_ne hne).1 hr)
  handled hh := hb (h.handled ((mem_snoc_of_uid_ne hne).1 hh))

theorem NodeOk.follows {log : List Ev} {e e' : Ev} (h : NodeOk log b n) (he : e.uid = n.uid)
    (hacked : ∀ u, e = .tx u → n.acked = false)
    (hhandled : b = none ∨ e = .removed n.uid) (hmem : e' ∈ log) : Follows e' e := by
  intro hu
  have hu : e'.uid = n.uid := hu.trans he
  cases e' with
  | tx u => trivial
  | removed u =>
    obtain rfl : u = n.uid := hu
    exact absurd hmem h.removed
  | acked u =>
    obtain rfl : u = n.uid := hu
    cases e with
    | tx u => exact absurd (h.acked hmem) (by rw [hacked u rfl]; decide)
    | _ => trivial
  | handled u =>
    obtain rfl : u = n.uid := hu
    rcases hhandled with rfl | rfl
    · exact absurd (h.handled hmem) (by nofun)
    · trivial

/-! ### Moves keep the invariant -/

theorem ofNat_succ (k : ℕ) : UInt8.ofNat (k + 1) - 1 = UInt8.ofNat k := by
  rw [UInt8.ofNat_add]
  exact UInt8.add_sub_cancel ..

theorem SendInv.apart (h : SendInv b c) (hl : c.sendlist = l₁ ++ n :: l₂) :
    (∀ x ∈ l₁ ++ l₂, x ∈ c.sendlist ∧ x.uid ≠ n.uid) ∧ ((l₁ ++ l₂).map CoAPSendNode.uid).Nodup ∧
      n ∈ c.sendlist := by
  have hnd := h.nodup
  rw [hl, List.map_append, List.map_cons, List.nodup_middle, List.nodup_cons, ← List.map_append] at hnd
  refine ⟨fun x hx => ⟨?_, fun he => hnd.1 (List.mem_map.2 ⟨x, hx, he⟩)⟩, hnd.2, by rw [hl]; simp⟩
  rw [hl]
  exact (List.mem_append.1 hx).elim (fun h => List.mem_append_left _ h)
    fun h => List.mem_append_right _ (List.mem_cons_of_mem _ h)

theorem SendInv.update {e : Ev} (h : SendInv none c) (hl : c.sendlist = l₁ ++ n :: l₂)
    (hu : n'.uid = n.uid) (hb : n'.blocks = n.blocks) (he : e.uid = n.uid)
    (hn : NodeOk (c.log ++ [e]) none n') (hlog : LogOk (c.log ++ [e])) :
    SendInv none { c with sendlist := l₁ ++ n' :: l₂, log := c.log ++ [e] } := by
  obtain ⟨hothers, -, hmem⟩ := h.apart hl
  have hcases : ∀ x ∈ l₁ ++ n' :: l₂, x = n' ∨ x ∈ l₁ ++ l₂ := by
    intro x hx
    simp only [List.mem_append, List.mem_cons] at hx ⊢
    tauto
  refine ⟨?_, ?_, ?_, ?_, ?_, ?_, hlog⟩
  · have hnd := h.nodup
    rw [hl] at hnd
    simpa [hu] using hnd
  · intro x hx
    rcases hcases x hx with rfl | hx
    · rw [hu]
      exact h.lt n hmem
    · exact h.lt x (hothers x hx).1
  · have hc := h.count
    rw [hl] at hc
    simpa using hc
  · have hc := h.blocks
    rw [hl] at hc
    simpa [hb] using hc
  · intro x hx
    rcases hcases x hx with rfl | hx
    · exact hn
    · exact (h.nodes x (hothers x hx).1).other (by rw [he]; exact (hothers x hx).2.symm) (by nofun)
  · intro x hx
    rcases List.mem_append.1 hx with hx | hx
    · exact h.events x hx
    · rw [List.mem_singleton.1 hx, he]
      exact h.lt n hmem

theorem SendInv.add (h : SendInv b c) (m : CoAPMessage) (dg : Bytes) (copy : Bool) :
    SendInv b (addNode c (newNode c.fresh m dg copy)) := by
  unfold addNode
  generalize hnew : newNode c.fresh m dg copy = n
  have hu : n.uid = c.fresh := by rw [← hnew]; rfl
  have hno : ∀ e ∈ c.log, e.uid ≠ n.uid := fun e he hx => by
    have := h.events e he
    omega
  have hnone : ∀ e : Ev, e.uid = n.uid → e ∉ c.log := fun e he hx => hno e hx he
  have hcount : c.log.count (.tx n.uid) = 0 := List.count_eq_zero.2 (hnone _ rfl)
  refine ⟨?_, ?_, ?_, ?_, ?_, ?_, ?_⟩
  · rw [List.map_append, List.map_singleton]
    refine List.nodup_append'.2 ⟨h.nodup, List.nodup_singleton _, List.disjoint_singleton.2 fun hx => ?_⟩
    obtain ⟨x, hx, he⟩ := List.mem_map.1 hx
    have := h.lt x hx
    omega
  · intro x hx
    rcases List.mem_append.1 hx with hx | hx
    · exact Nat.lt_succ_of_lt (h.lt x hx)
    · rw [List.mem_singleton.1 hx, hu]
      exact Nat.lt_succ_self _
  · dsimp only
    rw [List.length_append, List.length_singleton, UInt8.ofNat_add, ← h.count]
    rfl
  · dsimp only
    rw [List.map_append, List.sum_append, ← h.blocks]
    rfl
  · intro x hx
    rcases List.mem_append.1 hx with hx | hx
    · refine (h.nodes x hx).other ?_ id
      have := h.lt x hx
      change n.uid ≠ x.uid
      omega
    · obtain rfl := List.mem_singleton.1 hx
      refine ⟨?_, ?_, fun ha => ?_, fun hr => ?_, fun hh => ?_⟩
      · rw [← hnew]
        unfold newNode
        dsimp only
        split_ifs <;> decide
      · rw [List.count_append, hcount, List.count_singleton_self]
        omega
      all_goals
        rw [List.mem_append, List.mem_singleton] at *
      · exact absurd (ha.resolve_right (by nofun)) (hnone _ rfl)
      · exact absurd (hr.resolve_right (by nofun)) (hnone _ rfl)
      · exact absurd (hh.resolve_right (by nofun)) (hnone _ rfl)
  · intro e he
    rcases List.mem_append.1 he with he | he
    · exact Nat.lt_succ_of_lt (h.events e he)
    · rw [List.mem_singleton.1 he]
      change n.uid < c.fresh + 1
      omega
  · refine h.log.snoc (fun e' he' hx => absurd hx (hno e' he')) fun u hu' => ?_
    cases hu'
    rw [hcount]
    exact Nat.zero_le _

theorem SendInv.remove (h : SendInv b c) (hl : c.sendlist = l₁ ++ n :: l₂)
    (hb : b = none ∨ b = some n.uid) :
    SendInv none { c with
      sendlist := l₁ ++ l₂, count := c.count - 1, blocks := c.blocks - n.blocks
      log := c.log ++ [.removed n.uid] } := by
  obtain ⟨hothers, hnd, hmem⟩ := h.apart hl
  have hn := h.nodes n hmem
  refine ⟨hnd, fun x hx => h.lt x (hothers x hx).1, ?_, ?_, ?_, ?_, ?_⟩
  · have hc := h.count
    rw [hl, List.length_append, List.length_cons, ← Nat.add_assoc] at hc
    rw [hc, ofNat_succ, List.length_append]
  · have hc := h.blocks
    rw [hl] at hc
    simp only [List.map_append, List.map_cons, List.sum_append, List.sum_cons] at hc ⊢
    omega
  · intro x hx
    refine (h.nodes x (hothers x hx).1).other (hothers x hx).2.symm fun hx' => ?_
    rcases hb with rfl | rfl
    · exact hx'
    · exact absurd (Option.some.inj hx').symm (hothers x hx).2
  · intro e he
    rcases List.mem_append.1 he with he | he
    · exact h.events e he
    · rw [List.mem_singleton.1 he]
      exact h.lt n hmem
  · refine h.log.snoc (fun e' he' => ?_) (by nofun)
    exact hn.follows rfl (by nofun) (.inr rfl) he'

theorem SendInv.call (h : SendInv none c) (hn : n ∈ c.sendlist) :
    SendInv (some n.uid) { c with log := c.log ++ [.handled n.uid] } := by
  have hok := h.nodes n hn
  refine ⟨h.nodup, h.lt, h.count, h.blocks, fun x hx => ?_, fun e he => ?_, ?_⟩
  · by_cases he : n.uid = x.uid
    · have hx := h.nodes x hx
      refine ⟨hx.retransCount, ?_, fun ha => ?_, fun hr => ?_, fun _ => congrArg some he⟩
      · rw [List.count_append]
        exact hx.tx
      · exact hx.acked ((List.mem_append.1 ha).resolve_right (by simp))
      · exact hx.removed ((List.mem_append.1 hr).resolve_right (by simp))
    · exact (h.nodes x hx).other he (by nofun)
  · rcases List.mem_append.1 he with he | he
    · exact h.events e he
    · rw [List.mem_singleton.1 he]
      exact h.lt n hn
  · refine h.log.snoc (fun e' he' => ?_) (by nofun)
    exact hok.follows rfl (by nofun) (.inl rfl) he'

theorem retransmit_fields (h : n.retransCount < maxRetryCount) (ha : n.acked = false) :
    (retransmit n).1.uid = n.uid ∧ (retransmit n).1.blocks = n.blocks ∧
      (retransmit n).1.acked = false ∧ (retransmit n).1.retransCount = n.retransCount + 1 := by
  have hlt : (n.retransCount + 1) % 2 ^ 8 = n.retransCount + 1 := by
    unfold maxRetryCount at h
    omega
  unfold retransmit
  rw [if_pos ⟨h, by rw [ha]; rfl⟩]
  exact ⟨rfl, rfl, ha, hlt⟩

theorem SendInv.move (h : SendInv b c) (hm : Move T L (b, c) (b', c')) : SendInv b' c' := by
  cases hm with
  | add hadd =>
    cases hadd with
    | node m dg copy => exact h.add m dg copy
    | counters => exact ⟨h.nodup, h.lt, h.count, h.blocks, h.nodes, h.events, h.log⟩
  | @mark _ l₁ n l₂ hl =>
    obtain ⟨-, -, hmem⟩ := h.apart hl
    have hn := h.nodes n hmem
    refine h.update hl rfl rfl rfl ⟨hn.retransCount, ?_, fun _ => rfl, fun hr => ?_, fun hh => ?_⟩ ?_
    · rw [List.count_append]
      exact hn.tx
    · exact hn.removed ((List.mem_append.1 hr).resolve_right (by simp))
    · exact hn.handled ((List.mem_append.1 hh).resolve_right (by simp))
    · refine h.log.snoc (fun e' he' => ?_) (by nofun)
      exact hn.follows rfl (by nofun) (.inl rfl) he'
  | @resend _ l₁ n l₂ _ hl hlt hacked =>
    obtain ⟨-, -, hmem⟩ := h.apart hl
    have hn := h.nodes n hmem
    obtain ⟨hu, hb, ha, hr⟩ := retransmit_fields hlt hacked
    refine h.update hl hu hb rfl ⟨?_, ?_, fun hx => ?_, fun hx => ?_, fun hx => ?_⟩ ?_
    · rw [hr]
      exact hlt
    · rw [hu, hr, List.count_append, List.count_singleton_self]
      have := hn.tx
      omega
    · rw [hu] at hx
      rw [ha, ← hacked]
      exact hn.acked ((List.mem_append.1 hx).resolve_right (by simp))
    · rw [hu] at hx
      exact hn.removed ((List.mem_append.1 hx).resolve_right (by simp))
    · rw [hu] at hx
      exact absurd (hn.handled ((List.mem_append.1 hx).resolve_right (by simp))) (by nofun)
    · refine h.log.snoc (fun e' he' => ?_) fun u hu' => ?_
      · exact hn.follows rfl (fun _ _ => hacked) (.inl rfl) he'
      · cases hu'
        have := hn.tx
        omega
  | @tick _ l₁ n l₂ _ hl =>
    obtain ⟨hothers, -, hmem⟩ := h.apart hl
    have hn := h.nodes n hmem
    have hmap : ∀ {α : Type} (f : CoAPSendNode → α),
        f { n with timeout := n.timeout - 1 } = f n →
        (l₁ ++ { n with timeout := n.timeout - 1 } :: l₂).map f = c.sendlist.map f := by
      intro α f hf
      rw [hl, List.map_append, List.map_cons, hf, List.map_append, List.map_cons]
    have hcases : ∀ x ∈ l₁ ++ { n with timeout := n.timeout - 1 } :: l₂,
        x = { n with timeout := n.timeout - 1 } ∨ x ∈ c.sendlist := by
      intro x hx
      rcases List.mem_append.1 hx with hx | hx
      · exact .inr (hothers x (List.mem_append_left _ hx)).1
      · rcases List.mem_cons.1 hx with rfl | hx
        · exact .inl rfl
        · exact .inr (hothers x (List.mem_append_right _ hx)).1
    refine ⟨?_, fun x hx => ?_, ?_, ?_, fun x hx => ?_, h.events, h.log⟩
    · dsimp only
      rw [hmap _ rfl]
      exact h.nodup
    · rcases hcases x hx with rfl | hx
      · exact h.lt n hmem
      · exact h.lt x hx
    · have hc := h.count
      rw [hl] at hc
      simpa using hc
    · dsimp only
      rw [hmap _ rfl]
      exact h.blocks
    · rcases hcases x hx with rfl | hx
      · exact ⟨hn.retransCount, hn.tx, hn.acked, hn.removed, hn.handled⟩
      · exact h.nodes x hx
  | call hmem => exact h.call hmem
  | remove hl hb => exact h.remove hl hb

theorem SendInv.moves (h : SendInv b c) (hm : Moves T L (b, c) (b', c')) : SendInv b' c' := by
  have hall : ∀ p : Option ℕ × CoAPContext, Moves T L (b, c) p → SendInv p.1 p.2 := by
    intro p hp
    induction hp with
    | refl => exact h
    | tail _ hmove ih => exact ih.move hmove
  exact hall _ hm

/-! ## The functions as moves -/

theorem markAcked_cases (msgid : ℕ) (ns : List CoAPSendNode) :
    (markAcked msgid ns = (ns, []) ∧ ∀ n ∈ ns, n.msgid ≠ msgid) ∨
      ∃ l₁ n l₂, ns = l₁ ++ n :: l₂ ∧ n.msgid = msgid ∧ (∀ x ∈ l₁, x.msgid ≠ msgid) ∧
        markAcked msgid ns = (l₁ ++ { n with acked := true } :: l₂, [.acked n.uid]) := by
  induction ns with
  | nil => exact .inl ⟨rfl, by simp⟩
  | cons n ns ih =>
    unfold markAcked
    by_cases h : n.msgid = msgid
    · rw [if_pos h]
      exact .inr ⟨[], n, ns, rfl, h, by simp, rfl⟩
    rw [if_neg h]
    rcases ih with ⟨he, hno⟩ | ⟨l₁, x, l₂, rfl, hx, hno, he⟩
    · rw [he]
      exact .inl ⟨rfl, List.forall_mem_cons.2 ⟨h, hno⟩⟩
    · rw [he]
      exact .inr ⟨n :: l₁, x, l₂, rfl, hx, List.forall_mem_cons.2 ⟨h, hno⟩, rfl⟩

theorem moves_ack (c : CoAPContext) (m : CoAPMessage) :
    Moves T L (none, c) (none, coapAckMessageHandle c m) := by
  unfold coapAckMessageHandle
  rcases markAcked_cases m.header.msgid c.sendlist with ⟨he, -⟩ | ⟨l₁, n, l₂, hl, -, -, he⟩
  · simp only [he, List.append_nil]
    exact .refl
  · rw [he]
    exact .single (.mark hl)

theorem coapAckMessageSend_eq (c : CoAPContext) (msgid : ℕ) (env : SendEnv) :
    coapAckMessageSend c msgid env = c := by
  rcases coapMessageSend_cases c (coapMessageIdSet coapMessageInit msgid) env with ⟨hl, -⟩ | ⟨-, he⟩
  · exact absurd hl.2.2.1 (by simp [coapMessageIdSet, coapMessageInit, isReqMsg, isConRespMsg, codeEmpty,
      code205Content])
  · exact he

theorem coapRespMessageHandle_cases (c : CoAPContext) (m : CoAPMessage) (env : SendEnv)
    (run : CoAPContext → CoAPContext) :
    (c.sendlist.find? (fun n => n.hasToken m) = none ∧ coapRespMessageHandle c m env run = c) ∨
      ∃ n, c.sendlist.find? (fun n => n.hasToken m) = some n ∧
        coapRespMessageHandle c m env run = removeNode (callHandler c n run) n := by
  unfold coapRespMessageHandle
  rw [coapAckMessageSend_eq, ite_self]
  cases hf : c.sendlist.find? (fun n => n.hasToken m) with
  | none => exact .inl ⟨rfl, by dsimp only; rw [hf]⟩
  | some n => exact .inr ⟨n, rfl, by dsimp only; rw [hf]⟩

theorem filter_uid (hl : c.sendlist = l₁ ++ n :: l₂) (h : SendInv b c) :
    (c.sendlist.filter fun x => x.uid ≠ n.uid) = l₁ ++ l₂ := by
  obtain ⟨hothers, -, -⟩ := h.apart hl
  have hkeep : ∀ l : List CoAPSendNode, (∀ x ∈ l, x.uid ≠ n.uid) →
      l.filter (fun x => x.uid ≠ n.uid) = l := by
    intro l hx
    exact List.filter_eq_self.2 fun x hmem => by simpa using hx x hmem
  rw [hl, List.filter_append, List.filter_cons_of_neg (by simp),
    hkeep l₁ fun x hx => (hothers x (List.mem_append_left _ hx)).2,
    hkeep l₂ fun x hx => (hothers x (List.mem_append_right _ hx)).2]

theorem moves_removeNode (h : SendInv b c) (hn : n ∈ c.sendlist) (hb : b = none ∨ b = some n.uid) :
    Moves T L (b, c) (none, removeNode c n) := by
  obtain ⟨l₁, l₂, hl⟩ := List.append_of_mem hn
  unfold removeNode
  rw [filter_uid hl h]
  exact .single (.remove hl hb)

/-- What a handler may do, called in the context `c`. -/
def RunsIn (L : CoAPContext → CoAPMessage → Prop) (c : CoAPContext) (run : CoAPContext → CoAPContext) :
    Prop :=
  ∀ u, Adds L { c with log := c.log ++ [.handled u] } (run { c with log := c.log ++ [.handled u] })

theorem moves_handle {run : CoAPContext → CoAPContext} (h : SendInv none c) (hrun : RunsIn L c run) :
    Moves T L (none, c) (none, coapMessageHandle c m env run) := by
  unfold coapMessageHandle
  split_ifs
  · exact moves_ack c m
  · rcases coapRespMessageHandle_cases c m env run with ⟨-, he⟩ | ⟨n, hf, he⟩
    · rw [he]
    have hn := List.mem_of_find?_eq_some hf
    rw [he]
    unfold callHandler
    split_ifs
    · -- the handler is called, and the node taken out behind its sends
      have hadds := hrun n.uid
      have hmoves : Moves T L (none, c) (some n.uid, run { c with log := c.log ++ [.handled n.uid] }) :=
        .head (.call hn) (moves_adds hadds)
      obtain ⟨ns, hns⟩ := hadds.grows
      refine hmoves.trans (moves_removeNode (h.moves hmoves) ?_ (.inr rfl))
      rw [hns]
      exact List.mem_append_left _ hn
    · exact moves_removeNode h hn (.inl rfl)
  · exact .refl

theorem cycleNode_wait (h : n.timeout ≠ 0) :
    cycleNode n = (some { n with timeout := n.timeout - 1 }, []) := if_neg h

theorem cycleNode_over (h : n.timeout = 0) :
    cycleNode n =
      if (retransmit n).1.timeout > maxTransmissionSpan ∨ (retransmit n).1.retransCount ≥ maxRetryCount then
        (none, (retransmit n).2 ++ [.removed (retransmit n).1.uid])
      else (some (retransmit n).1, (retransmit n).2) := if_pos h

theorem retransmit_cases (n : CoAPSendNode) :
    (n.retransCount < maxRetryCount ∧ n.acked = false ∧ (retransmit n).2 = [.tx n.uid]) ∨
      (¬ (n.retransCount < maxRetryCount ∧ n.acked = false) ∧ retransmit n = (n, [])) := by
  unfold retransmit
  by_cases h : n.retransCount < maxRetryCount ∧ n.acked = false
  · rw [if_pos ⟨h.1, by rw [h.2]; rfl⟩]
    exact .inl ⟨h.1, h.2, rfl⟩
  · rw [if_neg (by simpa using h)]
    exact .inr ⟨h, rfl⟩

@[simp] theorem retransmit_uid (n : CoAPSendNode) : (retransmit n).1.uid = n.uid := by
  unfold retransmit
  split_ifs <;> rfl

@[simp] theorem retransmit_blocks (n : CoAPSendNode) : (retransmit n).1.blocks = n.blocks := by
  unfold retransmit
  split_ifs <;> rfl

@[simp] theorem retransmit_msgid (n : CoAPSendNode) : (retransmit n).1.msgid = n.msgid := by
  unfold retransmit
  split_ifs <;> rfl

@[simp] theorem retransmit_token (n : CoAPSendNode) : (retransmit n).1.token = n.token := by
  unfold retransmit
  split_ifs <;> rfl

theorem moves_retransmit (hT : T) (hl : c.sendlist = l₁ ++ n :: l₂) :
    Moves T L (none, c)
      (none, { c with sendlist := l₁ ++ (retransmit n).1 :: l₂, log := c.log ++ (retransmit n).2 }) := by
  rcases retransmit_cases n with ⟨hlt, ha, hevs⟩ | ⟨-, he⟩
  · rw [hevs]
    exact .single (.resend hT hl hlt ha)
  · rw [he, List.append_nil, ← hl]

theorem moves_cycleNodes (hT : T) (ns : List CoAPSendNode) (c : CoAPContext) :
    Moves T L (none, { c with sendlist := c.sendlist ++ ns }) (none, cycleNodes ns c) := by
  induction ns generalizing c with
  | nil =>
    rw [List.append_nil]
    exact .refl
  | cons n ns ih =>
    have hgo : ∀ d e : CoAPContext, e = { d with sendlist := d.sendlist ++ ns } →
        Moves T L (none, e) (none, cycleNodes ns d) := by
      rintro d e rfl
      exact ih d
    have hl : ({ c with sendlist := c.sendlist ++ n :: ns } : CoAPContext).sendlist =
        c.sendlist ++ n :: ns := rfl
    unfold cycleNodes
    by_cases h : n.timeout = 0
    · have hre := moves_retransmit (L := L) hT hl
      have hl' : ({ c with
          sendlist := c.sendlist ++ (retransmit n).1 :: ns
          log := c.log ++ (retransmit n).2 } : CoAPContext).sendlist =
          c.sendlist ++ (retransmit n).1 :: ns := rfl
      rw [cycleNode_over h]
      split_ifs
      · refine (hre.tail (.remove hl' (.inl rfl))).trans (hgo _ _ ?_)
        simp only [retransmit_blocks, List.append_assoc]
      · refine hre.trans (hgo _ _ ?_)
        simp only [List.append_assoc, List.singleton_append]
    · rw [cycleNode_wait h]
      refine .head (.tick hT hl) (hgo _ _ ?_)
      simp only [List.append_assoc, List.singleton_append, List.append_nil]

theorem moves_cycle (hT : T) (c : CoAPContext) : Moves T L (none, c) (none, coapMessageCycle c) :=
  moves_cycleNodes hT c.sendlist { c with sendlist := [] }

/-! ## Runs -/

/-- A step: a message is sent, a datagram arrives whose handler sends `sends`, or
    a cycle walks over the list. -/
inductive SendAct
  | send (m : CoAPMessage) (env : SendEnv)
  | arrive (m : CoAPMessage) (env : SendEnv) (sends : List (CoAPMessage × SendEnv))
  | cycle

def sendAll (sends : List (CoAPMessage × SendEnv)) (c : CoAPContext) : CoAPContext :=
  sends.foldl (fun c s => coapMessageSend c s.1 s.2) c

def sendStep (c : CoAPContext) : SendAct → CoAPContext
  | .send m env => coapMessageSend c m env
  | .arrive m env sends => coapMessageHandle c m env (sendAll sends)
  | .cycle => coapMessageCycle c

abbrev SendStep := Fn sendStep

/-- The sends are made where `L` allows them. -/
def SendsOk (L : CoAPContext → CoAPMessage → Prop) (c : CoAPContext) :
    List (CoAPMessage × SendEnv) → Prop
  | [] => True
  | s :: ss => (Listed s.1 s.2 → L c s.1) ∧ SendsOk L (coapMessageSend c s.1 s.2) ss

/-- There is room for a node, and its field holds the token. -/
def Room (c : CoAPContext) (m : CoAPMessage) : Prop :=
  c.sendlist.length < c.maxcount.toNat ∧ m.token.length ≤ nodeTokenLen

/-- **The condition**: what is sent finds room. -/
def RoomOk (c : CoAPContext) : SendAct → Prop
  | .send m env => Listed m env → Room c m
  | .arrive _ _ sends => ∀ u, SendsOk Room { c with log := c.log ++ [.handled u] } sends
  | .cycle => True

variable {a : SendAct} {as : List SendAct} {sends : List (CoAPMessage × SendEnv)}

theorem adds_sendAll (h : SendsOk L c sends) : Adds L c (sendAll sends c) := by
  induction sends generalizing c with
  | nil => exact .refl
  | cons s ss ih => exact (adds_send h.1).trans (ih h.2)

theorem sendsOk_true (c : CoAPContext) (sends : List (CoAPMessage × SendEnv)) :
    SendsOk (fun _ _ => True) c sends := by
  induction sends generalizing c with
  | nil => trivial
  | cons s ss ih => exact ⟨fun _ => trivial, ih _⟩

theorem sendStep_moves (h : SendInv none c) (hok : RoomOk c a) :
    Moves True Room (none, c) (none, sendStep c a) := by
  cases a with
  | send m env => exact moves_adds (adds_send hok)
  | arrive m env sends => exact moves_handle h fun u => adds_sendAll (hok u)
  | cycle => exact moves_cycle trivial c

/-! ### The bound on the list -/

def Bounded (c : CoAPContext) : Prop := c.sendlist.length ≤ c.maxcount.toNat

theorem Move.bounded (hm : Move T Room (b, c) (b', c')) (h : Bounded c) : Bounded c' := by
  unfold Bounded at h ⊢
  cases hm with
  | add hadd =>
    cases hadd with
    | node m dg copy hroom =>
      unfold addNode
      rw [List.length_append]
      exact hroom.1
    | counters => exact h
  | mark hl | resend _ hl | tick _ hl =>
    rw [hl] at h
    simpa using h
  | call => exact h
  | remove hl =>
    rw [hl] at h
    simp only [List.length_append, List.length_cons] at h ⊢
    omega

theorem Move.fresh_le (hm : Move T L (b, c) (b', c')) : c.fresh ≤ c'.fresh := by
  cases hm with
  | add hadd =>
    cases hadd with
    | node => exact Nat.le_succ _
    | counters => exact le_rfl
  | _ => exact le_rfl

theorem Moves.bounded (hm : Moves T Room (b, c) (b', c')) (h : Bounded c) : Bounded c' := by
  have hall : ∀ p : Option ℕ × CoAPContext, Moves T Room (b, c) p → Bounded p.2 := by
    intro p hp
    induction hp with
    | refl => exact h
    | tail _ hmove ih => exact hmove.bounded ih
  exact hall _ hm

theorem Moves.fresh_le (hm : Moves T L (b, c) (b', c')) : c.fresh ≤ c'.fresh := by
  have hall : ∀ p : Option ℕ × CoAPContext, Moves T L (b, c) p → c.fresh ≤ p.2.fresh := by
    intro p hp
    induction hp with
    | refl => exact le_rfl
    | tail _ hmove ih => exact ih.trans hmove.fresh_le
  exact hall _ hm

theorem sendInv_create (maxcount : UInt8) (tokenConst : UInt32) :
    SendInv none (coapContextCreate maxcount tokenConst) :=
  ⟨List.nodup_nil, by simp [coapContextCreate], rfl, rfl, by simp [coapContextCreate],
    by simp [coapContextCreate], ⟨.nil, fun _ => Nat.zero_le _⟩⟩

/-! ### Where the nodes of the list come from -/

/-- The timeout of a node is bounded by that of its last transmission. -/
def CoAPSendNode.Timed (n : CoAPSendNode) : Prop :=
  n.retransCount = 0 ∧ n.timeout ≤ 2 ∧ n.timeoutVal = 2 ∨
    n.retransCount = 1 ∧ n.timeout ≤ 4 ∧ n.timeoutVal = 4 ∨
    n.retransCount = 2 ∧ n.timeout ≤ 8 ∧ n.timeoutVal = 8 ∨
    n.retransCount = maxRetryCount ∧ n.timeout ≤ 10

/-- The node has been added since. -/
structure NewIn (c : CoAPContext) (n : CoAPSendNode) : Prop where
  le : c.fresh ≤ n.uid
  timed : n.Timed
  acked : n.acked = false

theorem Adds.origin (h : Adds L c c') (hn : n ∈ c'.sendlist) : n ∈ c.sendlist ∨ NewIn c n := by
  induction h with
  | refl => exact .inl hn
  | @tail d d' hds hadd ih =>
    cases hadd with
    | counters => exact ih hn
    | node m dg copy =>
      rcases List.mem_append.1 hn with hn | hn
      · exact ih hn
      · have hle : c.fresh ≤ d.fresh := (moves_adds (T := True) (b := none) hds).fresh_le
        rw [List.mem_singleton.1 hn]
        refine .inr ⟨hle, ?_, rfl⟩
        unfold newNode CoAPSendNode.Timed
        dsimp only
        split_ifs
        · exact .inl ⟨rfl, by decide, rfl⟩
        · exact .inr (.inr (.inr ⟨rfl, by decide⟩))

/-- The ack marks the node. -/
def Marks (c : CoAPContext) (a : SendAct) (n : CoAPSendNode) : Prop :=
  ∃ m env sends, a = .arrive m env sends ∧ isAckMsg m.header ∧
    c.sendlist.find? (fun x => x.msgid = m.header.msgid) = some n

/-- A node of the list behind a send or an arrival: it was there, it was there and
    is marked, or it is new. -/
theorem arrive_origin (hn : n' ∈ (sendStep c (.arrive m env sends)).sendlist) :
    n' ∈ c.sendlist ∨ NewIn c n' ∨
      ∃ n ∈ c.sendlist, n' = { n with acked := true } ∧ Marks c (.arrive m env sends) n := by
  unfold sendStep coapMessageHandle at hn
  dsimp only at hn
  split_ifs at hn with hack hresp
  · unfold coapAckMessageHandle at hn
    rcases markAcked_cases m.header.msgid c.sendlist with ⟨he, -⟩ | ⟨l₁, n, l₂, hl, hid, hno, he⟩
    · rw [he] at hn
      exact .inl hn
    · rw [he] at hn
      have hfind : c.sendlist.find? (fun x => x.msgid = m.header.msgid) = some n := by
        rw [hl, List.find?_append, List.find?_eq_none.2 (by simpa using hno), Option.none_or,
          List.find?_cons_of_pos (by simpa using hid)]
      rw [hl]
      rcases List.mem_append.1 hn with hn | hn
      · exact .inl (List.mem_append_left _ hn)
      · rcases List.mem_cons.1 hn with rfl | hn
        · exact .inr (.inr ⟨n, by simp, rfl, m, env, sends, rfl, hack, hfind⟩)
        · exact .inl (List.mem_append_right _ (List.mem_cons_of_mem _ hn))
  · rcases coapRespMessageHandle_cases c m env (sendAll sends) with ⟨-, he⟩ | ⟨n, -, he⟩
    · rw [he] at hn
      exact .inl hn
    · rw [he] at hn
      have hn := List.mem_of_mem_filter hn
      unfold callHandler at hn
      split_ifs at hn
      · rcases (adds_sendAll (sendsOk_true _ _)).origin hn with hn | hn
        · exact .inl hn
        · exact .inr (.inl ⟨hn.le, hn.timed, hn.acked⟩)
      · exact .inl hn
  · exact .inl hn

theorem cycleNodes_sendlist (ns : List CoAPSendNode) (c : CoAPContext) :
    (cycleNodes ns c).sendlist = c.sendlist ++ ns.filterMap fun n => (cycleNode n).1 := by
  induction ns generalizing c with
  | nil => exact (List.append_nil _).symm
  | cons n ns ih =>
    unfold cycleNodes
    rcases hcyc : cycleNode n with ⟨_ | n', evs⟩
    · rw [List.filterMap_cons_none (by rw [hcyc])]
      exact ih _
    · rw [List.filterMap_cons_some (by rw [hcyc])]
      refine (ih _).trans ?_
      rw [List.append_assoc, List.singleton_append]

theorem cycle_origin (hn : n' ∈ (coapMessageCycle c).sendlist) :
    ∃ n ∈ c.sendlist, (cycleNode n).1 = some n' := by
  unfold coapMessageCycle at hn
  rw [cycleNodes_sendlist] at hn
  exact List.mem_filterMap.1 ((List.mem_append.1 hn).resolve_left (List.not_mem_nil))

/-! ### The time of a node -/

/-- The cycles that a node has left. -/
def CoAPSendNode.life (n : CoAPSendNode) : ℕ :=
  if n.retransCount = 0 then n.timeout + 15
  else if n.retransCount = 1 then n.timeout + 10
  else n.timeout + 1

/-- No node that is not stalled lives longer. -/
def maxLife : ℕ := 17

/-- An acked request waits for its response, and nothing else ends it. -/
def CoAPSendNode.Stalled (n : CoAPSendNode) : Prop := n.acked = true ∧ n.retransCount < maxRetryCount

theorem CoAPSendNode.Timed.life (h : n.Timed) : 1 ≤ n.life ∧ n.life ≤ maxLife := by
  unfold CoAPSendNode.Timed maxRetryCount at h
  unfold CoAPSendNode.life maxLife
  split_ifs <;> omega

theorem CoAPSendNode.life_zero (h : n.retransCount = 0) : n.life = n.timeout + 15 := if_pos h

theorem CoAPSendNode.life_one (h : n.retransCount = 1) : n.life = n.timeout + 10 := by
  rw [life, h]
  rfl

theorem CoAPSendNode.life_two (h : n.retransCount = 2) : n.life = n.timeout + 1 := by
  rw [life, h]
  rfl

theorem retransmit_sent (h : n.retransCount < maxRetryCount ∧ n.acked = false) :
    (retransmit n).1 = { n with
      timeout := n.timeoutVal * 2 % 2 ^ 16
      timeoutVal := n.timeoutVal * 2 % 2 ^ 16
      retransCount := (n.retransCount + 1) % 2 ^ 8 } := by
  rw [retransmit, if_pos ⟨h.1, by rw [h.2]; rfl⟩]

/-- A time that is over leaves a node on the list if it is sent again, with its
    next time, or if it is stalled. -/
theorem retransmit_life (ht : n.Timed) (h : n.timeout = 0)
    (hend : ¬ ((retransmit n).1.timeout > maxTransmissionSpan ∨ (retransmit n).1.retransCount ≥ maxRetryCount)) :
    (retransmit n).1.Timed ∧ (¬ n.Stalled → ¬ (retransmit n).1.Stalled ∧ (retransmit n).1.life + 1 ≤ n.life) := by
  by_cases hre : n.retransCount < maxRetryCount ∧ n.acked = false
  · have hacked : ¬ (retransmit n).1.Stalled := by
      rw [retransmit_sent hre]
      rintro ⟨hacked, -⟩
      exact absurd hre.2 (by rw [hacked]; decide)
    rw [retransmit_sent hre] at hend hacked ⊢
    rcases ht with ⟨hcount, -, hval⟩ | ⟨hcount, -, hval⟩ | ⟨hcount, -, hval⟩ | ⟨hcount, -⟩
    · rw [hcount, hval] at hacked ⊢
      refine ⟨.inr (.inl ⟨rfl, le_refl 4, rfl⟩), fun _ => ⟨hacked, ?_⟩⟩
      rw [CoAPSendNode.life_zero hcount, CoAPSendNode.life_one rfl, h]
      exact le_refl 15
    · rw [hcount, hval] at hacked ⊢
      refine ⟨.inr (.inr (.inl ⟨rfl, le_refl 8, rfl⟩)), fun _ => ⟨hacked, ?_⟩⟩
      rw [CoAPSendNode.life_one hcount, CoAPSendNode.life_two rfl, h]
      exact le_refl 10
    · rw [hval] at hend
      exact absurd (.inl (show 10 < 16 by decide)) hend
    · exact absurd hre.1 (by rw [hcount]; decide)
  · obtain ⟨-, heq⟩ := (retransmit_cases n).resolve_left fun hsent => hre ⟨hsent.1, hsent.2.1⟩
    rw [heq] at hend ⊢
    refine ⟨ht, fun hst => absurd ⟨?_, not_le.1 fun hle => hend (.inr hle)⟩ hst⟩
    by_contra hacked
    exact hre ⟨not_le.1 fun hle => hend (.inr hle), by simpa using hacked⟩

/-- **A cycle** takes a node out, or takes one off its life, if it is not stalled. -/
theorem cycleNode_life (ht : n.Timed) (hn : (cycleNode n).1 = some n') :
    n'.uid = n.uid ∧ n'.Timed ∧ (¬ n.Stalled → ¬ n'.Stalled ∧ n'.life + 1 ≤ n.life) := by
  by_cases h : n.timeout = 0
  · rw [cycleNode_over h] at hn
    split_ifs at hn with hend
    cases hn
    exact ⟨retransmit_uid n, retransmit_life ht h hend⟩
  · rw [cycleNode_wait h] at hn
    cases hn
    refine ⟨rfl, ?_, fun hst => ⟨hst, ?_⟩⟩
    · rcases ht with ⟨hcount, hle, hval⟩ | ⟨hcount, hle, hval⟩ | ⟨hcount, hle, hval⟩ | ⟨hcount, hle⟩
      · exact .inl ⟨hcount, (Nat.sub_le ..).trans hle, hval⟩
      · exact .inr (.inl ⟨hcount, (Nat.sub_le ..).trans hle, hval⟩)
      · exact .inr (.inr (.inl ⟨hcount, (Nat.sub_le ..).trans hle, hval⟩))
      · exact .inr (.inr (.inr ⟨hcount, (Nat.sub_le ..).trans hle⟩))
    · unfold CoAPSendNode.life
      dsimp only
      split_ifs
      all_goals omega

def SendAct.isCycle : SendAct → Bool
  | .cycle => true
  | _ => false

/-- The cycles of a run. -/
def cycles (as : List SendAct) : ℕ := as.countP SendAct.isCycle

/-- The invariant with the time of the nodes. -/
structure TimeInv (c : CoAPContext) : Prop where
  inv : SendInv none c
  bounded : Bounded c
  timed : ∀ n ∈ c.sendlist, n.Timed

theorem timed_marked (h : n.Timed) : CoAPSendNode.Timed { n with acked := true } := h

theorem TimeInv.step (h : TimeInv c) (hs : restrict RoomOk SendStep c a c') : TimeInv c' := by
  obtain ⟨hok, rfl⟩ := hs
  have hmoves := sendStep_moves h.inv hok
  refine ⟨h.inv.moves hmoves, Moves.bounded hmoves h.bounded, fun n' hn' => ?_⟩
  cases a with
  | send m env =>
    rcases (adds_send (L := Room) hok).origin hn' with hn | hn
    · exact h.timed n' hn
    · exact hn.timed
  | arrive m env sends =>
    rcases arrive_origin hn' with hn | hn | ⟨n, hn, rfl, -⟩
    · exact h.timed n' hn
    · exact hn.timed
    · exact timed_marked (h.timed n hn)
  | cycle =>
    obtain ⟨n, hn, hcyc⟩ := cycle_origin hn'
    exact (cycleNode_life (h.timed n hn) hcyc).2.1

theorem timeInv_create (maxcount : UInt8) (tokenConst : UInt32) :
    TimeInv (coapContextCreate maxcount tokenConst) :=
  ⟨sendInv_create maxcount tokenConst, Nat.zero_le _, by simp [coapContextCreate]⟩

/-- No ack marks the node while it has retransmissions left. -/
def Spares (u : ℕ) (c : CoAPContext) (a : SendAct) : Prop :=
  ∀ n, Marks c a n → n.uid = u → maxRetryCount ≤ n.retransCount

/-- The node has not been stalled, and each cycle took one off its life. -/
structure Ages (u : ℕ) (as : List SendAct) (c : CoAPContext) : Prop where
  inv : TimeInv c
  lt : u < c.fresh
  ages : ∀ n ∈ c.sendlist, n.uid = u → ¬ n.Stalled ∧ n.life + cycles as ≤ maxLife

theorem cycles_snoc (as : List SendAct) (a : SendAct) :
    cycles (as ++ [a]) = cycles as + if a.isCycle then 1 else 0 := by
  unfold cycles
  rw [List.countP_append, List.countP_singleton]

theorem Ages.step {u : ℕ} (h : Ages u as c)
    (hs : restrict (fun c a => RoomOk c a ∧ Spares u c a) SendStep c a c') :
    Ages u (as ++ [a]) c' := by
  obtain ⟨⟨hroom, hspare⟩, rfl⟩ := hs
  have hmoves := sendStep_moves h.inv.inv hroom
  refine ⟨h.inv.step ⟨hroom, rfl⟩, h.lt.trans_le (Moves.fresh_le hmoves), fun n' hn' hu => ?_⟩
  have hnew : ¬ NewIn c n' := fun hnew => by
    have := hnew.le
    have := h.lt
    omega
  rw [cycles_snoc]
  cases a with
  | send m env =>
    exact h.ages n' (((adds_send (L := Room) hroom).origin hn').resolve_right hnew) hu
  | arrive m env sends =>
    rcases arrive_origin hn' with hn | hn | ⟨n, hn, rfl, hmark⟩
    · exact h.ages n' hn hu
    · exact absurd hn hnew
    · -- marked, so without retransmissions left
      have hlife := (h.ages n hn hu).2
      exact ⟨fun hst => absurd hst.2 (Nat.not_lt.2 (hspare n hmark hu)), hlife⟩
  | cycle =>
    obtain ⟨n, hn, hcyc⟩ := cycle_origin hn'
    obtain ⟨hid, -, hlife⟩ := cycleNode_life (h.inv.timed n hn) hcyc
    obtain ⟨hst, hage⟩ := h.ages n hn (hid.symm.trans hu)
    obtain ⟨hst', hlife⟩ := hlife hst
    refine ⟨hst', ?_⟩
    change n'.life + (cycles as + 1) ≤ maxLife
    omega

/-! ### Stalled nodes -/

/-- No response with the node's token arrives. -/
def Unanswered (u : ℕ) (c : CoAPContext) (a : SendAct) : Prop :=
  ∀ m env sends, a = .arrive m env sends →
    ∀ n, c.sendlist.find? (fun x => x.hasToken m) = some n → n.uid ≠ u

theorem stalled_step (hs : restrict (Unanswered n.uid) SendStep c a c') (hn : n ∈ c.sendlist)
    (hst : n.Stalled) : ∃ n' ∈ c'.sendlist, n'.uid = n.uid ∧ n'.Stalled := by
  obtain ⟨hun, rfl⟩ := hs
  cases a with
  | send m env =>
    refine ⟨n, ?_, rfl, hst⟩
    have hadds : Adds (fun _ _ => True) c (coapMessageSend c m env) := adds_send fun _ => trivial
    obtain ⟨ns, hns⟩ := hadds.grows
    exact hns ▸ List.mem_append_left _ hn
  | arrive m env sends =>
    unfold sendStep coapMessageHandle
    dsimp only
    split_ifs
    · unfold coapAckMessageHandle
      rcases markAcked_cases m.header.msgid c.sendlist with ⟨he, -⟩ | ⟨l₁, x, l₂, hl, -, -, he⟩
      · rw [he]
        exact ⟨n, hn, rfl, hst⟩
      · rw [he]
        rw [hl] at hn
        rcases List.mem_append.1 hn with hn | hn
        · exact ⟨n, List.mem_append_left _ hn, rfl, hst⟩
        · rcases List.mem_cons.1 hn with rfl | hn
          · exact ⟨{ n with acked := true }, by simp, rfl, rfl, hst.2⟩
          · exact ⟨n, List.mem_append_right _ (List.mem_cons_of_mem _ hn), rfl, hst⟩
    · rcases coapRespMessageHandle_cases c m env (sendAll sends) with ⟨-, he⟩ | ⟨x, hf, he⟩
      · rw [he]
        exact ⟨n, hn, rfl, hst⟩
      · rw [he]
        refine ⟨n, List.mem_filter.2 ⟨?_, ?_⟩, rfl, hst⟩
        · unfold callHandler
          split_ifs
          · obtain ⟨ns, hns⟩ := (adds_sendAll (sendsOk_true _ sends)).grows
            rw [hns]
            exact List.mem_append_left _ hn
          · exact hn
        · simpa using (hun m env sends rfl x hf).symm
    · exact ⟨n, hn, rfl, hst⟩
  | cycle =>
    have hcyc : ∃ n', (cycleNode n).1 = some n' ∧ n'.uid = n.uid ∧ n'.Stalled := by
      by_cases h : n.timeout = 0
      · rcases retransmit_cases n with ⟨-, ha, -⟩ | ⟨-, he⟩
        · exact absurd ha (by rw [hst.1]; decide)
        · rw [cycleNode_over h, he, if_neg]
          · exact ⟨n, rfl, rfl, hst⟩
          · have := hst.2
            unfold maxTransmissionSpan
            dsimp only
            omega
      · rw [cycleNode_wait h]
        exact ⟨_, rfl, rfl, hst⟩
    obtain ⟨n', hn', hrest⟩ := hcyc
    refine ⟨n', ?_, hrest⟩
    change n' ∈ (coapMessageCycle c).sendlist
    unfold coapMessageCycle
    rw [cycleNodes_sendlist]
    exact List.mem_append_right _ (List.mem_filterMap.2 ⟨n, hn, hn'⟩)

theorem stalled_run (hr : Run (restrict (Unanswered n.uid) SendStep) c as c') (hn : n ∈ c.sendlist)
    (hst : n.Stalled) : ∃ n' ∈ c'.sendlist, n'.uid = n.uid ∧ n'.Stalled := by
  refine hr.keeps (I := fun c => ∃ n' ∈ c.sendlist, n'.uid = n.uid ∧ n'.Stalled) ?_ ⟨n, hn, rfl, hst⟩
  rintro c a c' ⟨x, hx, hu, hst⟩ hs
  rw [← hu] at hs ⊢
  exact stalled_step hs hx hst

/-! ### The send list -/

/-- The list is counted and bounded, its nodes are all that is allocated, and what
    happened to the nodes is in order. -/
structure SendListOk (c : CoAPContext) : Prop where
  count : c.count.toNat = c.sendlist.length
  bounded : c.sendlist.length ≤ c.maxcount.toNat
  blocks : c.blocks = (c.sendlist.map CoAPSendNode.blocks).sum
  log : LogOk c.log

theorem TimeInv.sendListOk (h : TimeInv c) : SendListOk c where
  count := by
    have hlt : c.sendlist.length < 2 ^ 8 := h.bounded.trans_lt c.maxcount.toNat_lt
    rw [h.inv.count, UInt8.toNat_ofNat', Nat.mod_eq_of_lt hlt]
  bounded := h.bounded
  blocks := h.inv.blocks
  log := h.inv.log

/-- **The send list**, in every run whose sends find room: it is in order, a node
    leaves it within 17 cycles if no ack marks it while it has retransmissions
    left, and a node that is so marked stays until its response arrives. -/
theorem coap_send_list_ends {maxcount : UInt8} {tokenConst : UInt32}
    (hr : Run (restrict RoomOk SendStep) (coapContextCreate maxcount tokenConst) as c) :
    SendListOk c ∧
    (∀ n ∈ c.sendlist, ¬ n.Stalled → ∀ bs c',
      Run (restrict (fun c a => RoomOk c a ∧ Spares n.uid c a) SendStep) c bs c' →
      maxLife ≤ cycles bs → ∀ n' ∈ c'.sendlist, n'.uid ≠ n.uid) ∧
    ∀ n ∈ c.sendlist, n.Stalled → ∀ bs c',
      Run (restrict (fun c a => RoomOk c a ∧ Unanswered n.uid c a) SendStep) c bs c' →
      ∃ n' ∈ c'.sendlist, n'.uid = n.uid := by
  have hinv : TimeInv c :=
    hr.keeps (fun h hs => TimeInv.step h hs) (timeInv_create maxcount tokenConst)
  refine ⟨hinv.sendListOk, fun n hn hst bs c' hr' hcyc n' hn' hu => ?_, fun n hn hst bs c' hr' => ?_⟩
  · have hages : Ages n.uid [] c := by
      refine ⟨hinv, hinv.inv.lt n hn, fun x hx hxu => ?_⟩
      obtain rfl : x = n := List.inj_on_of_nodup_map hinv.inv.nodup hx hn hxu
      exact ⟨hst, (hinv.timed x hn).life.2⟩
    have hend := hr'.keeps_hist (I := Ages n.uid) (fun h hs => Ages.step h hs) hages
    have := (hend.ages n' hn' hu).2
    have := (hend.inv.timed n' hn').life.1
    rw [List.nil_append] at *
    omega
  · obtain ⟨n', hn', hu, -⟩ := stalled_run (hr'.mono fun hs => ⟨hs.1.2, hs.2⟩) hn hst
    exact ⟨n', hn', hu⟩

/-- A confirmable request. -/
def exampleReq : CoAPMessage :=
  build [.type 0, .code 1, .msgid 7, .token [1], .handler true]

/-- The ack of the request. -/
def exampleAck : CoAPMessage := build [.msgid 7]

def allWell : SendEnv := ⟨true, true, true⟩

theorem run_cycles {C : CoAPContext → SendAct → Prop} (hC : ∀ c, C c .cycle) (k : ℕ) (c : CoAPContext) :
    Run (restrict C SendStep) c (List.replicate k .cycle) (coapMessageCycle^[k] c) := by
  induction k generalizing c with
  | zero => exact .nil
  | succ k ih => exact .cons ⟨hC c, rfl⟩ (ih _)

theorem spares_cycle (u : ℕ) (c : CoAPContext) : Spares u c .cycle := by
  rintro n ⟨m, env, sends, he, -⟩
  cases he

theorem unanswered_cycle (u : ℕ) (c : CoAPContext) : Unanswered u c .cycle := by
  intro m env sends he
  cases he

/-- A request that fills the list, and is gone after 17 cycles. -/
theorem coap_send_list_ends_one :
    SendListOk (sendStep (coapContextCreate 1 0) (.send exampleReq allWell)) ∧
      ∀ n ∈ (coapMessageCycle^[17] (sendStep (coapContextCreate 1 0) (.send exampleReq allWell))).sendlist,
        n.uid ≠ 0 := by
  have hr : Run (restrict RoomOk SendStep) (coapContextCreate 1 0) [.send exampleReq allWell] _ :=
    .cons ⟨fun _ => ⟨by decide, by decide⟩, rfl⟩ .nil
  obtain ⟨hok, hends, -⟩ := coap_send_list_ends hr
  refine ⟨hok, ?_⟩
  have hmem : newNode 0 exampleReq (datagram exampleReq) true ∈
      (sendStep (coapContextCreate 1 0) (.send exampleReq allWell)).sendlist := List.mem_singleton_self _
  exact hends _ hmem (by nofun) _ _
    (run_cycles (fun c => ⟨trivial, spares_cycle _ c⟩) 17 _) (by decide)

/-- The list grows over `maxcount`, and an acked request without a response stays
    on it for ever. -/
theorem coap_send_list_never_ends :
    (¬ ∀ maxcount tokenConst as c, Run SendStep (coapContextCreate maxcount tokenConst) as c →
      SendListOk c) ∧
    ¬ ∀ maxcount tokenConst as c, Run SendStep (coapContextCreate maxcount tokenConst) as c →
      ∃ k, ∀ n ∈ c.sendlist, ∀ bs c', Run SendStep c bs c' → k ≤ cycles bs →
        ∀ n' ∈ c'.sendlist, n'.uid ≠ n.uid := by
  constructor
  · intro hall
    have hok := hall 1 0 [.send exampleReq allWell, .send exampleReq allWell] _
      (.cons rfl (.cons rfl .nil))
    exact absurd hok.bounded (by decide)
  · intro hall
    obtain ⟨k, hk⟩ := hall 10 0 [.send exampleReq allWell, .arrive exampleAck allWell []] _
      (.cons rfl (.cons rfl .nil))
    generalize hc : sendStep (sendStep (coapContextCreate 10 0) (.send exampleReq allWell))
      (.arrive exampleAck allWell []) = c at hk
    have hmem : ({ newNode 0 exampleReq (datagram exampleReq) true with acked := true } : CoAPSendNode) ∈
        c.sendlist := by
      rw [← hc]
      exact List.mem_singleton_self _
    have hr := run_cycles (fun c => unanswered_cycle 0 c) k c
    obtain ⟨n', hn', hu, -⟩ := stalled_run hr hmem ⟨rfl, by decide⟩
    have hcyc : k ≤ cycles (List.replicate k .cycle) := by
      unfold cycles
      rw [List.countP_replicate]
      exact le_rfl
    exact hk _ hmem _ _ (hr.mono fun h => h.2) hcyc n' hn' hu

end Coap
