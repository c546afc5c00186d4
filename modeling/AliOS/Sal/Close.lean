/-
  Closing a SAL socket, in any reachable state: what is released, and when that is everything.
-/
import AliOS.Sal.Sockets
import Mathlib.Logic.Function.Iterate
import Mathlib.Data.List.Perm.Subperm

namespace Sal

/-- The packets that the socket has: in its mailbox, and left over from the last read. -/
def Sock.held (k : Sock) : List ℕ := k.recvmbox.map (·.id) ++ k.lastdata.toList.map (·.id)

/-- A socket of which only the packets changed, and whether it is connected. -/
structure Sock.Same (k k' : Sock) : Prop where
  pcb : k'.pcb = k.pcb
  proto : k'.proto = k.proto
  connected : k'.connected = k.connected
  accepted : k'.accepted = k.accepted

namespace Sockets

variable {s t : Sockets} {fd a b l n p : ℕ} {k k' : Sock} {o : Option Sock} {proto : Proto}

/-- The sockets with their pcbs and their links. -/
structure Inv (s : Sockets) : Prop where
  range : ∀ {fd k}, s.sockets fd = some k → fd < NUM_SOCKETS
  pcb : ∀ {a b k k'}, s.sockets a = some k → s.sockets b = some k' → k.pcb = k'.pcb → a = b
  fresh : ∀ {fd k}, s.sockets fd = some k → k.pcb < s.nextPcb
  listed : ∀ {proto p}, p ∈ s.pcbs proto → ∃ fd k, s.sockets fd = some k ∧ k.pcb = p ∧ k.proto = proto
  nodup : ∀ proto, (s.pcbs proto).Nodup
  port : ∀ proto, LOCAL_PORT_RANGE_START ≤ s.lastPort proto ∧ s.lastPort proto ≤ LOCAL_PORT_RANGE_END
  link : ∀ {l fd}, s.gLink l = some fd → l < LINK_ID_MAX ∧ ∃ k, s.sockets fd = some k ∧ k.connected = true
  one : ∀ {l l' fd}, s.gLink l = some fd → s.gLink l' = some fd → l = l'

/-- A packet that an open socket accepted was freed once, or the socket has it once. -/
structure Books (s : Sockets) : Prop where
  held : ∀ {fd k n}, s.sockets fd = some k → n ∈ k.held → n ∈ k.accepted
  once : ∀ {fd k n}, s.sockets fd = some k → n ∈ k.accepted → s.freed.count n + k.held.count n = 1
  apart : ∀ {a b k k' n}, s.sockets a = some k → s.sockets b = some k' → n ∈ k.accepted → n ∈ k'.accepted → a = b
  fresh : ∀ {fd k n}, s.sockets fd = some k → n ∈ k.accepted → n < s.nextBuf
  freed : ∀ {n}, n ∈ s.freed → n < s.nextBuf

theorem inv_init (rand : Proto → ℕ) : Inv (init rand) where
  range := nofun
  pcb := nofun
  fresh := nofun
  listed := nofun
  nodup := fun _ => .nil
  port := fun proto => by
    have hmod := Nat.mod_lt (rand proto) (show 0 < 0x4000 by decide)
    simp only [init, LOCAL_PORT_RANGE_START, LOCAL_PORT_RANGE_END]
    omega
  link := nofun
  one := nofun

theorem books_init (rand : Proto → ℕ) : Books (init rand) := ⟨nofun, nofun, nofun, nofun, nofun⟩

/-! ## Sockets -/

theorem setSock_self : (s.setSock fd o).sockets fd = o := Function.update_self ..

theorem setSock_ne (h : a ≠ fd) : (s.setSock fd o).sockets a = s.sockets a := Function.update_of_ne h ..

theorem setSock_some (h : (s.setSock fd o).sockets a = some k) :
    a = fd ∧ o = some k ∨ a ≠ fd ∧ s.sockets a = some k := by
  by_cases ha : a = fd
  · subst ha
    exact .inl ⟨rfl, setSock_self.symm.trans h⟩
  · exact .inr ⟨ha, (setSock_ne ha).symm.trans h⟩

theorem Inv.setSock (h : Inv s) (hk : s.sockets fd = some k) (hpcb : k'.pcb = k.pcb) (hproto : k'.proto = k.proto)
    (hconn : k.connected = true → k'.connected = true) : Inv (s.setSock fd (some k')) where
  range := fun {a j} ha => by
    rcases setSock_some ha with ⟨rfl, -⟩ | ⟨-, ha⟩
    · exact h.range hk
    · exact h.range ha
  pcb := fun {a b j j'} ha hb heq => by
    rcases setSock_some ha with ⟨rfl, hj⟩ | ⟨-, ha'⟩ <;> rcases setSock_some hb with ⟨rfl, hj'⟩ | ⟨-, hb'⟩
    · rfl
    · cases hj
      exact h.pcb hk hb' (hpcb.symm.trans heq)
    · cases hj'
      exact h.pcb ha' hk (heq.trans hpcb)
    · exact h.pcb ha' hb' heq
  fresh := fun {a j} ha => by
    rcases setSock_some ha with ⟨rfl, hj⟩ | ⟨-, ha⟩
    · cases hj
      exact hpcb ▸ h.fresh hk
    · exact h.fresh ha
  listed := fun {proto p} hp => by
    obtain ⟨a, j, ha, hj, hproto'⟩ := h.listed hp
    by_cases hfd : a = fd
    · subst hfd
      obtain rfl := Option.some.inj (hk.symm.trans ha)
      exact ⟨a, k', setSock_self, hpcb.trans hj, hproto.trans hproto'⟩
    · exact ⟨a, j, (setSock_ne hfd).trans ha, hj, hproto'⟩
  nodup := h.nodup
  port := h.port
  link := fun {l a} hl => by
    obtain ⟨hlt, j, ha, hj⟩ := h.link hl
    refine ⟨hlt, ?_⟩
    by_cases hfd : a = fd
    · subst hfd
      obtain rfl := Option.some.inj (hk.symm.trans ha)
      exact ⟨k', setSock_self, hconn hj⟩
    · exact ⟨j, (setSock_ne hfd).trans ha, hj⟩
  one := h.one

theorem Books.setSock {gs : List ℕ} (h : Books s) (hk : s.sockets fd = some k) (hacc : k'.accepted = k.accepted)
    (hheld : k.held.Perm (gs ++ k'.held)) : Books { s.setSock fd (some k') with freed := gs ++ s.freed } := by
  have hin : ∀ {n}, n ∈ gs → n ∈ k.accepted := fun hn => h.held hk (hheld.mem_iff.2 (List.mem_append_left _ hn))
  refine ⟨fun {a j n} ha hn => ?_, fun {a j n} ha hn => ?_, fun {a b j j' n} ha hb hn hn' => ?_,
      fun {a j n} ha hn => ?_,
    fun {n} hn => ?_⟩
  · rcases setSock_some ha with ⟨rfl, hj⟩ | ⟨-, ha⟩
    · cases hj
      exact hacc ▸ h.held hk (hheld.mem_iff.2 (List.mem_append_right _ hn))
    · exact h.held ha hn
  · change (gs ++ s.freed).count n + _ = 1
    rw [List.count_append]
    rcases setSock_some ha with ⟨rfl, hj⟩ | ⟨hne, ha⟩
    · cases hj
      have honce := h.once hk (hacc ▸ hn)
      rw [hheld.count_eq, List.count_append] at honce
      omega
    · have hno : n ∉ gs := fun hg => hne (h.apart ha hk hn (hin hg))
      rw [List.count_eq_zero_of_not_mem hno]
      have honce := h.once ha hn
      omega
  · rcases setSock_some ha with ⟨rfl, hj⟩ | ⟨-, ha'⟩ <;> rcases setSock_some hb with ⟨rfl, hj'⟩ | ⟨-, hb'⟩
    · rfl
    · cases hj
      exact h.apart hk hb' (hacc ▸ hn) hn'
    · cases hj'
      exact h.apart ha' hk hn (hacc ▸ hn')
    · exact h.apart ha' hb' hn hn'
  · rcases setSock_some ha with ⟨rfl, hj⟩ | ⟨-, ha⟩
    · cases hj
      exact h.fresh hk (hacc ▸ hn)
    · exact h.fresh ha hn
  · rcases List.mem_append.1 hn with hn | hn
    · exact h.fresh hk (hin hn)
    · exact h.freed hn

theorem Inv.salSocket (h : Inv s) (proto : Proto) : Inv (s.salSocket proto).1 := by
  rw [Sockets.salSocket]
  split
  · exact h
  · rename_i fd hfind
    have hlt : fd < NUM_SOCKETS := List.mem_range.1 (List.mem_of_find?_eq_some hfind)
    have hnone : s.sockets fd = none := Option.isNone_iff_eq_none.1 (by simpa using List.find?_some hfind)
    have hold : ∀ {a j}, s.sockets a = some j → a ≠ fd := by
      rintro a j ha rfl
      exact nomatch hnone.symm.trans ha
    refine ⟨fun {a j} ha => ?_, fun {a b j j'} ha hb heq => ?_, fun {a j} ha => ?_, fun {proto p} hp => ?_, h.nodup,
        h.port,
      fun {l a} hl => ?_, h.one⟩
    · rcases setSock_some ha with ⟨rfl, -⟩ | ⟨-, ha⟩
      · exact hlt
      · exact h.range ha
    · rcases setSock_some ha with ⟨rfl, hj⟩ | ⟨-, ha'⟩ <;> rcases setSock_some hb with ⟨rfl, hj'⟩ | ⟨-, hb'⟩
      · rfl
      · cases hj
        exact absurd heq (Nat.ne_of_gt (h.fresh hb'))
      · cases hj'
        exact absurd heq (Nat.ne_of_lt (h.fresh ha'))
      · exact h.pcb ha' hb' heq
    · rcases setSock_some ha with ⟨rfl, hj⟩ | ⟨-, ha⟩
      · cases hj
        exact Nat.lt_succ_self _
      · exact Nat.lt_succ_of_lt (h.fresh ha)
    · obtain ⟨a, j, ha, hj⟩ := h.listed hp
      exact ⟨a, j, (setSock_ne (hold ha)).trans ha, hj⟩
    · obtain ⟨hlt, j, ha, hj⟩ := h.link hl
      exact ⟨hlt, j, (setSock_ne (hold ha)).trans ha, hj⟩

theorem Books.salSocket (h : Books s) (proto : Proto) : Books (s.salSocket proto).1 := by
  rw [Sockets.salSocket]
  split
  · exact h
  · refine ⟨fun {a j n} ha hn => ?_, fun {a j n} ha hn => ?_, fun {a b j j' n} ha hb hn hn' => ?_,
      fun {a j n} ha hn => ?_,
      h.freed⟩
    all_goals rcases setSock_some ha with ⟨rfl, hj⟩ | ⟨-, ha⟩
    all_goals try cases hj
    · exact nomatch hn
    · exact h.held ha hn
    · exact nomatch hn
    · exact h.once ha hn
    · exact nomatch hn
    · rcases setSock_some hb with ⟨rfl, hj'⟩ | ⟨-, hb⟩
      · cases hj'
        exact nomatch hn'
      · exact h.apart ha hb hn hn'
    · exact nomatch hn
    · exact h.fresh ha hn

theorem Books.congr (h : Books s) (hs : t.sockets = s.sockets) (hf : t.freed = s.freed) (hn : t.nextBuf = s.nextBuf) :
    Books t :=
  ⟨fun ha => h.held (hs ▸ ha), fun ha hx => hf ▸ h.once (hs ▸ ha) hx, fun ha hb => h.apart (hs ▸ ha) (hs ▸ hb),
    fun ha hx => hn ▸ h.fresh (hs ▸ ha) hx, fun hx => hn ▸ h.freed (hf ▸ hx)⟩

theorem Inv.congr (h : Inv s) (hs : t.sockets = s.sockets) (hl : t.gLink = s.gLink) (hp : t.pcbs = s.pcbs)
    (hport : ∀ proto, LOCAL_PORT_RANGE_START ≤ t.lastPort proto ∧ t.lastPort proto ≤ LOCAL_PORT_RANGE_END)
    (hn : t.nextPcb = s.nextPcb) : Inv t :=
  ⟨fun ha => h.range (hs ▸ ha), fun ha hb => h.pcb (hs ▸ ha) (hs ▸ hb), fun ha => hn ▸ h.fresh (hs ▸ ha),
    fun hx => hs ▸ h.listed (hp ▸ hx), fun proto => hp ▸ h.nodup proto, hport, fun hx => hs ▸ h.link (hl ▸ hx),
    fun hx hy => h.one (hl ▸ hx) (hl ▸ hy)⟩

/-! ## Ports -/

theorem portAfter_range (h1 : LOCAL_PORT_RANGE_START ≤ p) (h2 : p ≤ LOCAL_PORT_RANGE_END) :
    LOCAL_PORT_RANGE_START ≤ portAfter p ∧ portAfter p ≤ LOCAL_PORT_RANGE_END := by
  rw [portAfter]
  by_cases hp : p = LOCAL_PORT_RANGE_END
  · rw [if_pos hp]
    exact ⟨Nat.le_refl _, by decide⟩
  · rw [if_neg hp]
    omega

/-- The port that is found, and the last one that was tried, are in the range. -/
theorem newPort_range (used : ℕ → Bool) (n : ℕ) (h1 : LOCAL_PORT_RANGE_START ≤ p) (h2 : p ≤ LOCAL_PORT_RANGE_END) :
    LOCAL_PORT_RANGE_START ≤ (newPort used n p).1 ∧ (newPort used n p).1 ≤ LOCAL_PORT_RANGE_END ∧
      ∀ q, (newPort used n p).2 = some q → used q = false ∧ LOCAL_PORT_RANGE_START ≤ q := by
  induction n generalizing p with
  | zero => exact ⟨h1, h2, nofun⟩
  | succ n ih =>
    obtain ⟨h1, h2⟩ := portAfter_range h1 h2
    rw [newPort]
    split_ifs with hused
    · exact ih h1 h2
    · refine ⟨h1, h2, fun q hq => ?_⟩
      cases hq
      exact ⟨Bool.eq_false_iff.2 hused, h1⟩

theorem portAfter_iterate (h1 : LOCAL_PORT_RANGE_START ≤ p) (h2 : p ≤ LOCAL_PORT_RANGE_END) (i : ℕ) :
    portAfter^[i] p = LOCAL_PORT_RANGE_START + (p - LOCAL_PORT_RANGE_START + i) % 0x4000 := by
  have hstart : LOCAL_PORT_RANGE_START = 0xc000 := rfl
  have hend : LOCAL_PORT_RANGE_END = 0xffff := rfl
  induction i with
  | zero =>
    rw [Function.iterate_zero, id]
    omega
  | succ i ih =>
    rw [Function.iterate_succ_apply', ih, portAfter]
    by_cases hp : LOCAL_PORT_RANGE_START + (p - LOCAL_PORT_RANGE_START + i) % 0x4000 = LOCAL_PORT_RANGE_END
    · rw [if_pos hp]
      omega
    · rw [if_neg hp]
      omega

theorem newPort_none {used : ℕ → Bool} (h : (newPort used n p).2 = none) :
    ∀ i < n, used (portAfter^[i + 1] p) = true := by
  induction n generalizing p with
  | zero => exact fun i hi => absurd hi (Nat.not_lt_zero i)
  | succ n ih =>
    rw [newPort] at h
    split_ifs at h with hused
    · intro i hi
      cases i with
      | zero => exact hused
      | succ i => exact ih h i (Nat.lt_of_succ_lt_succ hi)

theorem Inv.pcbs_length (h : Inv s) (proto : Proto) : (s.pcbs proto).length ≤ NUM_SOCKETS := by
  have hsock : ∀ p : ℕ, ∃ fd, p ∈ s.pcbs proto → fd < NUM_SOCKETS ∧ ∃ k, s.sockets fd = some k ∧ k.pcb = p := by
    intro p
    by_cases hp : p ∈ s.pcbs proto
    · obtain ⟨fd, k, hk, hpcb, -⟩ := h.listed hp
      exact ⟨fd, fun _ => ⟨h.range hk, k, hk, hpcb⟩⟩
    · exact ⟨0, fun hin => absurd hin hp⟩
  choose f hf using hsock
  have hnodup : ((s.pcbs proto).map f).Nodup := by
    refine (List.nodup_map_iff_inj_on (h.nodup proto)).2 fun p hp q hq heq => ?_
    obtain ⟨-, k, hk, rfl⟩ := hf p hp
    obtain ⟨-, k', hk', rfl⟩ := hf q hq
    rw [heq] at hk
    rw [Option.some.inj (hk.symm.trans hk')]
  have hsub : (s.pcbs proto).map f ⊆ List.range NUM_SOCKETS := by
    intro fd hfd
    obtain ⟨p, hp, rfl⟩ := List.mem_map.1 hfd
    exact List.mem_range.2 (hf p hp).1
  have hle := (List.subperm_of_subset hnodup hsub).length_le
  rwa [List.length_map, List.length_range] at hle

theorem Inv.salNewPort (h : Inv s) (proto : Proto) :
    ∃ q, (s.salNewPort proto).2 = some q ∧ q ≠ 0 ∧ s.portUsed proto q = false ∧ Inv (s.salNewPort proto).1 := by
  obtain ⟨h1, h2⟩ := h.port proto
  obtain ⟨hlast1, hlast2, hfound⟩ := newPort_range (s.portUsed proto)
    (LOCAL_PORT_RANGE_END - LOCAL_PORT_RANGE_START + 1) h1 h2
  have hinv : Inv (s.salNewPort proto).1 := by
    refine h.congr rfl rfl rfl (fun proto' => ?_) rfl
    change _ ≤ Function.update s.lastPort proto _ proto' ∧ Function.update s.lastPort proto _ proto' ≤ _
    by_cases hp : proto' = proto
    · subst hp
      rw [Function.update_self]
      exact ⟨hlast1, hlast2⟩
    · rw [Function.update_of_ne hp]
      exact h.port proto'
  cases hport : (s.salNewPort proto).2 with
  | some q =>
    obtain ⟨hfree, hge⟩ := hfound q hport
    exact ⟨q, rfl, fun hz => absurd (hz ▸ hge) (by decide), hfree, hinv⟩
  | none =>
    -- every port of the range would be that of a pcb
    have hno : (newPort (s.portUsed proto) (LOCAL_PORT_RANGE_END - LOCAL_PORT_RANGE_START + 1) (s.lastPort proto)).2 =
        none := hport
    have hall := newPort_none hno
    have hsub : (List.range 0x4000).map (LOCAL_PORT_RANGE_START + ·) ⊆ (s.pcbs proto).map s.localPort := by
      intro q hq
      obtain ⟨j, hj, rfl⟩ := List.mem_map.1 hq
      have hj := List.mem_range.1 hj
      obtain ⟨i, hi, heq⟩ : ∃ i < 0x4000, (s.lastPort proto - LOCAL_PORT_RANGE_START + (i + 1)) % 0x4000 = j := by
        refine ⟨(j + 0x4000 - 1 - (s.lastPort proto - LOCAL_PORT_RANGE_START)) % 0x4000, Nat.mod_lt _ (by decide), ?_⟩
        simp only [LOCAL_PORT_RANGE_START, LOCAL_PORT_RANGE_END] at h1 h2 ⊢
        omega
      have hused := hall i hi
      rw [portAfter_iterate h1 h2, heq, portUsed, List.any_eq_true] at hused
      obtain ⟨p, hp, hport⟩ := hused
      exact List.mem_map.2 ⟨p, hp, of_decide_eq_true hport⟩
    have hnodup : ((List.range 0x4000).map (LOCAL_PORT_RANGE_START + ·)).Nodup :=
      List.nodup_range.map fun _ _ => Nat.add_left_cancel
    have hle := (List.subperm_of_subset hnodup hsub).length_le
    rw [List.length_map, List.length_range, List.length_map] at hle
    exact absurd (Nat.le_trans hle (h.pcbs_length proto)) (by decide)

theorem Inv.bindPort (h : Inv s) (hk : s.sockets fd = some k) (port : ℕ) : Inv (s.bindPort k.proto k.pcb port) := by
  have hpcbs : ∀ proto, (s.bindPort k.proto k.pcb port).pcbs proto = s.pcbs proto ∨
      proto = k.proto ∧ k.pcb ∉ s.pcbs proto ∧ (s.bindPort k.proto k.pcb port).pcbs proto = k.pcb :: s.pcbs proto := by
    intro proto
    by_cases hp : proto = k.proto
    · subst hp
      by_cases hin : k.pcb ∈ s.pcbs k.proto
      · exact .inl (by simp [Sockets.bindPort, hin])
      · exact .inr ⟨rfl, hin, by simp [Sockets.bindPort, hin]⟩
    · exact .inl (Function.update_of_ne hp ..)
  refine ⟨h.range, h.pcb, h.fresh, fun {proto p} hp => ?_, fun proto => ?_, h.port, h.link, h.one⟩
  · rcases hpcbs proto with heq | ⟨rfl, -, heq⟩
    · exact h.listed (heq ▸ hp)
    · rw [heq] at hp
      rcases List.mem_cons.1 hp with rfl | hp
      · exact ⟨fd, k, hk, rfl, rfl⟩
      · exact h.listed hp
  · rcases hpcbs proto with heq | ⟨-, hnot, heq⟩
    · exact heq ▸ h.nodup proto
    · exact heq ▸ List.nodup_cons.2 ⟨hnot, h.nodup proto⟩

theorem Inv.pcbBind (h : Inv s) (hk : s.sockets fd = some k) (port : ℕ) : Inv (s.pcbBind k.proto k.pcb port).1 := by
  rw [Sockets.pcbBind]
  split_ifs
  · obtain ⟨q, hq, -, -, hinv⟩ := h.salNewPort k.proto
    rw [show s.salNewPort k.proto = ((s.salNewPort k.proto).1, some q) from Prod.ext rfl hq]
    exact hinv.bindPort hk q
  · exact h
  · exact h.bindPort hk port

theorem pcbBind_free {q : ℕ} (hne : q ≠ 0) (hfree : s.portUsed proto q = false) :
    s.pcbBind proto p q = (s.bindPort proto p q, true) := by
  rw [Sockets.pcbBind, if_neg hne, if_neg]
  intro hany
  obtain ⟨q', hq', hsame⟩ := List.any_eq_true.1 hany
  have hused : s.portUsed proto q = true := List.any_eq_true.2 ⟨q', hq', decide_eq_true (of_decide_eq_true hsame).2⟩
  exact nomatch hfree.symm.trans hused

theorem pcbBind_keeps (s : Sockets) (proto : Proto) (p port : ℕ) :
    (s.pcbBind proto p port).1.sockets = s.sockets ∧ (s.pcbBind proto p port).1.freed = s.freed ∧
      (s.pcbBind proto p port).1.nextBuf = s.nextBuf := by
  have hnew : (s.salNewPort proto).1.sockets = s.sockets ∧ (s.salNewPort proto).1.freed = s.freed ∧
    (s.salNewPort proto).1.nextBuf = s.nextBuf := ⟨rfl, rfl, rfl⟩
  rw [pcbBind]
  split_ifs
  · split
    · rename_i h
      rw [h] at hnew
      exact hnew
    · rename_i h
      rw [h] at hnew
      exact hnew
  · exact ⟨rfl, rfl, rfl⟩
  · exact ⟨rfl, rfl, rfl⟩

theorem Inv.salBind (h : Inv s) (fd port : ℕ) : Inv (s.salBind fd port).1 := by
  rw [Sockets.salBind]
  split
  · exact h
  · rename_i k hk
    exact h.pcbBind hk port

/-! ## Connections -/

theorem wifiStart_eq (ht : s.wifiStart fd = some t) :
    ∃ l < LINK_ID_MAX, t = { s with gLink := Function.update s.gLink l (some fd) } := by
  rw [wifiStart] at ht
  split at ht
  · exact nomatch ht
  · rename_i l hfind
    exact ⟨l, List.mem_range.1 (List.mem_of_find?_eq_some hfind), (Option.some.inj ht).symm⟩

theorem Inv.connected (h : Inv s) (hk : s.sockets fd = some k) (hno : k.connected = false) (hlt : l < LINK_ID_MAX) :
    Inv ({ s with gLink := Function.update s.gLink l (some fd) }.setSock fd (some { k with connected := true })) := by
  have hset : Inv (s.setSock fd (some { k with connected := true })) := h.setSock hk rfl rfl fun _ => rfl
  have hnone : ∀ l', s.gLink l' ≠ some fd := by
    intro l' hl'
    obtain ⟨-, j, hj, hconn⟩ := h.link hl'
    obtain rfl := Option.some.inj (hk.symm.trans hj)
    exact nomatch hno.symm.trans hconn
  have hlink : ∀ {l' a}, Function.update s.gLink l (some fd) l' = some a →
      l' = l ∧ a = fd ∨ l' ≠ l ∧ s.gLink l' = some a := by
    intro l' a hl'
    by_cases heq : l' = l
    · subst heq
      rw [Function.update_self] at hl'
      exact .inl ⟨rfl, (Option.some.inj hl').symm⟩
    · rw [Function.update_of_ne heq] at hl'
      exact .inr ⟨heq, hl'⟩
  refine ⟨hset.range, hset.pcb, hset.fresh, hset.listed, hset.nodup, hset.port, fun {l' a} hl' => ?_,
    fun {l₁ l₂ a} h1 h2 => ?_⟩
  · rcases hlink hl' with ⟨rfl, rfl⟩ | ⟨-, hl'⟩
    · exact ⟨hlt, _, setSock_self, rfl⟩
    · exact hset.link hl'
  · rcases hlink h1 with ⟨hl1, ha⟩ | ⟨-, h1'⟩ <;> rcases hlink h2 with ⟨hl2, ha'⟩ | ⟨-, h2'⟩
    · exact hl1.trans hl2.symm
    · exact absurd (ha ▸ h2') (hnone _)
    · exact absurd (ha' ▸ h1') (hnone _)
    · exact h.one h1' h2'

/-- **Connecting**: when the link is taken the socket is connected, and otherwise it is not. -/
theorem Inv.salConnect (h : Inv s) (fd : ℕ) : Inv (s.salConnect fd).1 := by
  rw [Sockets.salConnect]
  split
  · exact h
  rename_i k hk
  by_cases hconn : k.connected = true
  · rw [if_pos hconn]
    exact h
  rw [if_neg hconn]
  have hno : k.connected = false := Bool.eq_false_iff.2 hconn
  dsimp only
  split
  · split
    · exact h
    · rename_i t ht
      obtain ⟨l, hl, rfl⟩ := wifiStart_eq ht
      exact h.connected hk hno hl
  rename_i hudp
  by_cases hport : s.localPort k.pcb = 0
  · rw [if_pos hport]
    obtain ⟨q, hq, hne, hfree, hinv⟩ := h.salNewPort .udp
    split
    · exact hinv
    · rename_i t ht
      obtain ⟨l, hl, rfl⟩ := wifiStart_eq ht
      -- no pcb has the new port, so the bind behind the start of the link is good
      have hbind : ({ (s.salNewPort .udp).1 with
          gLink := Function.update (s.salNewPort .udp).1.gLink l (some fd) } : Sockets).pcbBind .udp k.pcb q =
            (_, true) :=
        pcbBind_free hne hfree
      have hget : (s.salNewPort .udp).2.getD 0 = q := by rw [hq]; rfl
      have hb : Inv ((s.salNewPort .udp).1.bindPort k.proto k.pcb q) := hinv.bindPort (k := k) hk q
      rw [hudp] at hb
      rw [hget, hbind]
      exact hb.connected hk hno hl
  · rw [if_neg hport]
    split
    · exact h
    · rename_i t ht
      obtain ⟨l, hl, rfl⟩ := wifiStart_eq ht
      exact h.connected hk hno hl

theorem salConnect_books (s : Sockets) (fd : ℕ) :
    (s.salConnect fd).1.freed = s.freed ∧ (s.salConnect fd).1.nextBuf = s.nextBuf ∧
      ((s.salConnect fd).1.sockets = s.sockets ∨ ∃ k, s.sockets fd = some k ∧
        (s.salConnect fd).1.sockets = (s.setSock fd (some { k with connected := true })).sockets) := by
  rw [salConnect]
  split
  · exact ⟨rfl, rfl, .inl rfl⟩
  rename_i k hk
  by_cases hconn : k.connected = true
  · rw [if_pos hconn]
    exact ⟨rfl, rfl, .inl rfl⟩
  rw [if_neg hconn]
  dsimp only
  split
  · split
    · exact ⟨rfl, rfl, .inl rfl⟩
    · rename_i t ht
      obtain ⟨l, -, rfl⟩ := wifiStart_eq ht
      exact ⟨rfl, rfl, .inr ⟨k, hk, rfl⟩⟩
  by_cases hport : s.localPort k.pcb = 0
  · rw [if_pos hport]
    split
    · exact ⟨rfl, rfl, .inl rfl⟩
    · rename_i t ht
      obtain ⟨l, -, rfl⟩ := wifiStart_eq ht
      obtain ⟨hsockets, hfreed, hnext⟩ := pcbBind_keeps { (s.salNewPort .udp).1 with
        gLink := Function.update (s.salNewPort .udp).1.gLink l (some fd) } .udp k.pcb ((s.salNewPort .udp).2.getD 0)
      split
      · rename_i u hu
        rw [hu] at hsockets hfreed hnext
        exact ⟨hfreed, hnext, .inl hsockets⟩
      · rename_i u hu
        rw [hu] at hsockets hfreed hnext
        refine ⟨hfreed, hnext, .inr ⟨k, hk, ?_⟩⟩
        exact congrArg (fun f => Function.update f fd _) hsockets
  · rw [if_neg hport]
    split
    · exact ⟨rfl, rfl, .inl rfl⟩
    · rename_i t ht
      obtain ⟨l, -, rfl⟩ := wifiStart_eq ht
      exact ⟨rfl, rfl, .inr ⟨k, hk, rfl⟩⟩

/-! ## Packets -/

theorem readLast_spec {r : Recv} {n : Netbuf} (hn : k.lastdata = some n) :
    k.Same (readLast k n r).1 ∧ (readLast k n r).1.recvmbox = k.recvmbox ∧
      k.lastdata.toList.map (·.id) = (readLast k n r).2.2.1 ++ (readLast k n r).1.lastdata.toList.map (·.id) ∧
      ((readLast k n r).2.2.2 = false → (readLast k n r).1.lastdata = none) := by
  rw [readLast]
  split_ifs with hpeek hpart
  · exact ⟨⟨rfl, rfl, rfl, rfl⟩, rfl, rfl, fun hdone => by simp [hpeek] at hdone⟩
  · refine ⟨⟨rfl, rfl, rfl, rfl⟩, rfl, by rw [hn]; rfl, fun hdone => ?_⟩
    -- what is left over is more than what was asked for, which was all read
    simp only [Bool.and_eq_true, decide_eq_true_eq] at hpart
    have hmin : r.len = min r.len (n.len - k.lastoffset) := by omega
    simp [← hmin] at hdone
  · exact ⟨⟨rfl, rfl, rfl, rfl⟩, rfl, by rw [hn]; rfl, fun _ => rfl⟩

/-- What a read does to the socket: it frees `gs`, and keeps the other packets. -/
structure Reads (k k' : Sock) (gs : List ℕ) : Prop where
  same : k.Same k'
  held : k.held.Perm (gs ++ k'.held)

theorem Reads.refl : Reads k k [] := ⟨⟨rfl, rfl, rfl, rfl⟩, .refl _⟩

theorem Reads.step {k'' : Sock} {gs gs' : List ℕ} (h : Reads k k' gs) (h' : Reads k' k'' gs') :
    Reads k k'' (gs ++ gs') := by
  refine ⟨⟨h'.same.pcb.trans h.same.pcb, h'.same.proto.trans h.same.proto, h'.same.connected.trans h.same.connected,
    h'.same.accepted.trans h.same.accepted⟩, ?_⟩
  rw [List.append_assoc]
  exact h.held.trans (h'.held.append_left _)

theorem reads_last {r : Recv} {n : Netbuf} (hn : k.lastdata = some n) :
    Reads k (readLast k n r).1 (readLast k n r).2.2.1 := by
  obtain ⟨hsame, hmbox, hlast, -⟩ := readLast_spec (r := r) hn
  refine ⟨hsame, ?_⟩
  rw [Sock.held, Sock.held, hmbox, hlast, ← List.append_assoc, ← List.append_assoc]
  exact List.perm_append_comm.append_right _

theorem reads_fetch {n : Netbuf} {rest : List Netbuf} (hm : k.recvmbox = n :: rest) (hnone : k.lastdata = none) :
    Reads k { k with recvmbox := rest, rcvevent := k.rcvevent - 1, lastdata := some n } [] := by
  refine ⟨⟨rfl, rfl, rfl, rfl⟩, ?_⟩
  rw [Sock.held, Sock.held, hm, hnone]
  simpa using (List.perm_append_singleton n.id (rest.map (·.id))).symm

theorem recvLoop_reads {mbox : List Netbuf} (r : Recv) (off : ℕ) (fs : List ℕ) (hm : k.recvmbox = mbox)
    (hnone : k.lastdata = none) :
    ∃ gs, (recvLoop r k off fs mbox).2.1 = fs ++ gs ∧ Reads k (recvLoop r k off fs mbox).1 gs := by
  induction mbox generalizing k off fs with
  | nil => exact ⟨[], (List.append_nil _).symm, .refl⟩
  | cons n rest ih =>
    rw [recvLoop]
    by_cases hwait : (r.dontwait && k.rcvevent ≤ 0) = true
    · rw [if_pos hwait]
      exact ⟨[], (List.append_nil _).symm, .refl⟩
    rw [if_neg hwait]
    have hfetch := reads_fetch hm hnone
    have hlast := reads_last (r := r)
      (k := { k with recvmbox := rest, rcvevent := k.rcvevent - 1, lastdata := some n }) rfl
    obtain ⟨-, hmbox, -, hdone⟩ := readLast_spec (r := r)
      (k := { k with recvmbox := rest, rcvevent := k.rcvevent - 1, lastdata := some n }) rfl
    split
    rename_i k' copied gs done heq
    rw [heq] at hlast hmbox hdone
    have hreads : Reads k k' gs := hfetch.step hlast
    split_ifs with hd
    · exact ⟨gs, rfl, hreads⟩
    · obtain ⟨gs', hfs, hrest⟩ := ih (off + copied) (fs ++ gs) hmbox (hdone (Bool.eq_false_iff.2 hd))
      exact ⟨gs ++ gs', hfs.trans (List.append_assoc ..), hreads.step hrest⟩

theorem Inv.reads {gs : List ℕ} (h : Inv s) (hk : s.sockets fd = some k) (hr : Reads k k' gs) :
    Inv { s.setSock fd (some k') with freed := gs ++ s.freed } :=
  (h.setSock hk hr.same.pcb hr.same.proto fun hc => hr.same.connected.trans hc).congr rfl rfl rfl h.port rfl

theorem salRecvfrom_reads (s : Sockets) (fd : ℕ) (r : Recv) :
    (s.salRecvfrom fd r).1 = s ∨ ∃ k k' gs, s.sockets fd = some k ∧ Reads k k' gs ∧
      (s.salRecvfrom fd r).1 = { s.setSock fd (some k') with freed := gs ++ s.freed } := by
  rw [salRecvfrom]
  by_cases hlen : r.len = 0
  · rw [if_pos hlen]
    exact .inl rfl
  rw [if_neg hlen]
  split
  · exact .inl rfl
  rename_i k hk
  refine .inr ⟨k, _, _, hk, ?_, rfl⟩
  split
  · rename_i hnone
    obtain ⟨gs, hfs, hreads⟩ := recvLoop_reads r 0 [] rfl hnone
    rw [hfs]
    exact hreads
  · rename_i n hn
    have hlast := reads_last (r := r) hn
    obtain ⟨-, -, -, hdone⟩ := readLast_spec (r := r) hn
    split
    rename_i k₁ copied gs done heq
    rw [heq] at hlast hdone
    by_cases hd : done = true
    · rw [if_pos hd]
      exact hlast
    · rw [if_neg hd]
      have hnone : k₁.lastdata = none := hdone (Bool.eq_false_iff.2 hd)
      obtain ⟨gs', hfs, hrest⟩ := recvLoop_reads r copied gs rfl hnone
      rw [hfs]
      exact hlast.step hrest

theorem salPacketInput_eq (s : Sockets) (fd len : ℕ) (malloc : Bool) :
    (s.salPacketInput fd len malloc).1 = s ∨ ∃ k, s.sockets fd = some k ∧ (s.salPacketInput fd len malloc).1 =
      { s.setSock fd (some
          { k with
            recvmbox := k.recvmbox ++ [⟨s.nextBuf, len % 2 ^ 16⟩]
            rcvevent := k.rcvevent + 1
            accepted := s.nextBuf :: k.accepted }) with
        nextBuf := s.nextBuf + 1 } := by
  rw [salPacketInput]
  split_ifs
  · exact .inl rfl
  · split
    · exact .inl rfl
    · rename_i k hk
      split_ifs
      · exact .inr ⟨k, hk, rfl⟩
      · exact .inl rfl

theorem Books.accept (h : Books s) (hk : s.sockets fd = some k) (hacc : k'.accepted = s.nextBuf :: k.accepted)
    (hheld : k'.held.Perm (s.nextBuf :: k.held)) : Books { s.setSock fd (some k') with nextBuf := s.nextBuf + 1 } := by
  have hnew : ∀ {a j}, s.sockets a = some j → s.nextBuf ∉ j.accepted := fun ha hn => Nat.lt_irrefl _ (h.fresh ha hn)
  have hfreed : s.nextBuf ∉ s.freed := fun hn => Nat.lt_irrefl _ (h.freed hn)
  refine ⟨fun {a j n} ha hn => ?_, fun {a j n} ha hn => ?_, fun {a b j j' n} ha hb hn hn' => ?_,
      fun {a j n} ha hn => ?_,
    fun {n} hn => Nat.lt_succ_of_lt (h.freed hn)⟩
  · rcases setSock_some ha with ⟨rfl, hj⟩ | ⟨-, ha⟩
    · cases hj
      rw [hacc]
      rcases List.mem_cons.1 (hheld.mem_iff.1 hn) with rfl | hn
      · exact List.mem_cons_self
      · exact List.mem_cons_of_mem _ (h.held hk hn)
    · exact h.held ha hn
  · rcases setSock_some ha with ⟨rfl, hj⟩ | ⟨-, ha⟩
    · cases hj
      rw [hheld.count_eq]
      rw [hacc] at hn
      rcases List.mem_cons.1 hn with rfl | hn
      · have hno : s.nextBuf ∉ k.held := fun hin => hnew hk (h.held hk hin)
        change s.freed.count s.nextBuf + _ = 1
        rw [List.count_eq_zero_of_not_mem hfreed, List.count_cons_self, List.count_eq_zero_of_not_mem hno]
      · have hne : s.nextBuf ≠ n := by
          rintro rfl
          exact hnew hk hn
        rw [List.count_cons_of_ne hne]
        exact h.once hk hn
    · exact h.once ha hn
  · rcases setSock_some ha with ⟨rfl, hj⟩ | ⟨-, ha'⟩ <;> rcases setSock_some hb with ⟨rfl, hj'⟩ | ⟨-, hb'⟩
    · rfl
    · cases hj
      rcases List.mem_cons.1 (hacc ▸ hn) with rfl | hn
      · exact absurd hn' (hnew hb')
      · exact h.apart hk hb' hn hn'
    · cases hj'
      rcases List.mem_cons.1 (hacc ▸ hn') with rfl | hn'
      · exact absurd hn (hnew ha')
      · exact h.apart ha' hk hn hn'
    · exact h.apart ha' hb' hn hn'
  · rcases setSock_some ha with ⟨rfl, hj⟩ | ⟨-, ha⟩
    · cases hj
      rcases List.mem_cons.1 (hacc ▸ hn) with rfl | hn
      · exact Nat.lt_succ_self _
      · exact Nat.lt_succ_of_lt (h.fresh hk hn)
    · exact Nat.lt_succ_of_lt (h.fresh ha hn)

/-! ## Closing -/

theorem Inv.closedEvent (h : Inv s) (l : ℕ) : Inv (s.closedEvent l) := by
  have hlink : ∀ {l' a}, (s.closedEvent l).gLink l' = some a → s.gLink l' = some a := by
    intro l' a hl'
    by_cases heq : l' = l
    · subst heq
      exact nomatch (Function.update_self ..).symm.trans hl'
    · exact (Function.update_of_ne heq ..).symm.trans hl'
  exact ⟨h.range, h.pcb, h.fresh, h.listed, h.nodup, h.port, fun hl => h.link (hlink hl), fun h1 h2 =>
    h.one (hlink h1) (hlink h2)⟩

theorem Inv.netconnDelete (h : Inv s) (hk : s.sockets fd = some k) (hlink : ∀ l, s.gLink l ≠ some fd) :
    Inv (s.netconnDelete fd k) := by
  have hsome : ∀ {a j}, (s.netconnDelete fd k).sockets a = some j → a ≠ fd ∧ s.sockets a = some j := by
    intro a j ha
    rcases setSock_some ha with ⟨-, hj⟩ | ha
    · exact nomatch hj
    · exact ha
  have hpcbs : ∀ {proto p}, p ∈ (s.netconnDelete fd k).pcbs proto → p ∈ s.pcbs proto ∧
      (proto = k.proto → p ≠ k.pcb) := by
    intro proto p hp
    by_cases hproto : proto = k.proto
    · subst hproto
      rw [Sockets.netconnDelete] at hp
      simp only [Function.update_self] at hp
      exact ⟨List.mem_of_mem_erase hp, fun _ => ((h.nodup _).mem_erase_iff.1 hp).1⟩
    · rw [Sockets.netconnDelete] at hp
      simp only [Function.update_of_ne hproto] at hp
      exact ⟨hp, fun heq => absurd heq hproto⟩
  refine ⟨fun ha => h.range (hsome ha).2, fun ha hb => h.pcb (hsome ha).2 (hsome hb).2, fun ha => h.fresh (hsome ha).2,
    fun {proto p} hp => ?_, fun proto => ?_, h.port, fun {l a} hl => ?_, h.one⟩
  · obtain ⟨hin, hne⟩ := hpcbs hp
    obtain ⟨a, j, ha, rfl, rfl⟩ := h.listed hin
    refine ⟨a, j, (setSock_ne ?_).trans ha, rfl, rfl⟩
    rintro rfl
    obtain rfl := Option.some.inj (hk.symm.trans ha)
    exact hne rfl rfl
  · by_cases hproto : proto = k.proto
    · subst hproto
      rw [Sockets.netconnDelete]
      simp only [Function.update_self]
      exact (h.nodup _).erase _
    · rw [Sockets.netconnDelete]
      simp only [Function.update_of_ne hproto]
      exact h.nodup proto
  · obtain ⟨hlt, j, ha, hj⟩ := h.link hl
    refine ⟨hlt, j, (setSock_ne ?_).trans ha, hj⟩
    rintro rfl
    exact hlink l hl

theorem Books.netconnDelete (h : Books s) (hk : s.sockets fd = some k) : Books (s.netconnDelete fd k) := by
  have hsome : ∀ {a j}, (s.netconnDelete fd k).sockets a = some j → a ≠ fd ∧ s.sockets a = some j := by
    intro a j ha
    rcases setSock_some ha with ⟨-, hj⟩ | ha
    · exact nomatch hj
    · exact ha
  have hin : ∀ {n}, n ∈ k.recvmbox.map (·.id) → n ∈ k.accepted := fun hn => h.held hk (List.mem_append_left _ hn)
  refine ⟨fun ha => h.held (hsome ha).2, fun {a j n} ha hn => ?_, fun ha hb => h.apart (hsome ha).2 (hsome hb).2,
    fun ha => h.fresh (hsome ha).2, fun {n} hn => ?_⟩
  · obtain ⟨hne, ha⟩ := hsome ha
    have hno : n ∉ k.recvmbox.map (·.id) := fun hm => hne (h.apart ha hk hn (hin hm))
    change (k.recvmbox.map (·.id) ++ s.freed).count n + _ = 1
    rw [List.count_append, List.count_eq_zero_of_not_mem hno, Nat.zero_add]
    exact h.once ha hn
  · rcases List.mem_append.1 hn with hn | hn
    · exact h.fresh hk (hin hn)
    · exact h.freed hn

theorem Inv.pcb_deleted (h : Inv s) (hk : s.sockets fd = some k) (proto : Proto) :
    k.pcb ∉ (s.netconnDelete fd k).pcbs proto := by
  intro hp
  by_cases hproto : proto = k.proto
  · subst hproto
    rw [Sockets.netconnDelete] at hp
    simp only [Function.update_self] at hp
    exact ((h.nodup _).mem_erase_iff.1 hp).1 rfl
  · rw [Sockets.netconnDelete] at hp
    simp only [Function.update_of_ne hproto] at hp
    obtain ⟨a, j, ha, hj, hj'⟩ := h.listed hp
    obtain rfl := h.pcb ha hk hj
    obtain rfl := Option.some.inj (hk.symm.trans ha)
    exact hproto hj'.symm

/-- Deleting the netconn frees what was in the mailbox: everything, if nothing was left over. -/
theorem Books.freed_deleted (h : Books s) (hk : s.sockets fd = some k) :
    (∀ n ∈ k.accepted, (s.netconnDelete fd k).freed.count n = 1) ↔ k.lastdata = none := by
  have hcount : ∀ {n}, n ∈ k.accepted →
      (s.netconnDelete fd k).freed.count n + (k.lastdata.toList.map (·.id)).count n = 1 := by
    intro n hn
    have honce := h.once hk hn
    rw [Sock.held, List.count_append] at honce
    change (k.recvmbox.map (·.id) ++ s.freed).count n + _ = 1
    rw [List.count_append]
    omega
  constructor
  · intro hall
    cases hlast : k.lastdata with
    | none => rfl
    | some n =>
      have hin : n.id ∈ k.accepted := h.held hk (List.mem_append_right _ (by simp [hlast]))
      have hone := hcount hin
      rw [hall _ hin, hlast] at hone
      simp at hone
  · intro hlast n hn
    have hone := hcount hn
    rw [hlast] at hone
    simpa using hone

theorem wifiClose_some (ht : s.wifiClose fd = some t) : ∃ l, s.gLink l = some fd ∧ t = s.closedEvent l := by
  rw [wifiClose] at ht
  split at ht
  · exact nomatch ht
  · rename_i l hfind
    exact ⟨l, by simpa using List.find?_some hfind, (Option.some.inj ht).symm⟩

theorem Inv.wifiClose_none (h : Inv s) : s.wifiClose fd = none ↔ ∀ l, s.gLink l ≠ some fd := by
  rw [wifiClose]
  constructor
  · intro hnone l hl
    split at hnone
    · rename_i hfind
      have hno := List.find?_eq_none.1 hfind l (List.mem_range.2 (h.link hl).1)
      exact hno (decide_eq_true hl)
    · exact nomatch hnone
  · intro hno
    split
    · rfl
    · rename_i l hfind
      exact absurd (by simpa using List.find?_some hfind) (hno l)

/-- What `sal_close` does: it fails on a connected socket without a link, and deletes the netconn
    otherwise, where no link has the socket any more. -/
theorem Inv.salClose_cases (h : Inv s) (hk : s.sockets fd = some k) :
    k.connected = true ∧ (∀ l, s.gLink l ≠ some fd) ∧ s.salClose fd = (s, -1) ∨
      (k.connected = true → ∃ l, s.gLink l = some fd) ∧ ∃ t, Inv t ∧ t.sockets = s.sockets ∧ t.freed = s.freed ∧
        t.nextBuf = s.nextBuf ∧ (∀ l, t.gLink l ≠ some fd) ∧ s.salClose fd = (t.netconnDelete fd k, 0) := by
  rw [salClose, hk]
  dsimp only
  split_ifs with hconn
  · cases hclose : s.wifiClose fd with
    | none => exact .inl ⟨hconn, h.wifiClose_none.1 hclose, rfl⟩
    | some t =>
      obtain ⟨l, hl, rfl⟩ := wifiClose_some hclose
      refine .inr ⟨fun _ => ⟨l, hl⟩, s.closedEvent l, h.closedEvent l, rfl, rfl, rfl, fun l' hl' => ?_, rfl⟩
      by_cases heq : l' = l
      · subst heq
        exact nomatch (Function.update_self ..).symm.trans hl'
      · exact heq (h.one ((Function.update_of_ne heq ..).symm.trans hl') hl)
  · refine .inr ⟨fun hc => absurd hc hconn, s, h, rfl, rfl, rfl, fun l hl => ?_, rfl⟩
    obtain ⟨-, j, hj, hc⟩ := h.link hl
    obtain rfl := Option.some.inj (hk.symm.trans hj)
    exact hconn hc

theorem Books.delete (h : Books s) (hk : s.sockets fd = some k) (hs : t.sockets = s.sockets) (hf : t.freed = s.freed)
    (hn : t.nextBuf = s.nextBuf) : Books (t.netconnDelete fd k) :=
  (h.congr hs hf hn).netconnDelete (hs ▸ hk)

theorem step_keeps (h : Inv s) (hb : Books s) (act : SockAct) : Inv (s.step act) ∧ Books (s.step act) := by
  cases act with
  | socket proto => exact ⟨h.salSocket proto, hb.salSocket proto⟩
  | bind fd port =>
    refine ⟨h.salBind fd port, ?_⟩
    rw [step, salBind]
    split
    · exact hb
    · obtain ⟨hsockets, hfreed, hnext⟩ := pcbBind_keeps s _ _ _
      exact hb.congr hsockets hfreed hnext
  | connect fd =>
    obtain ⟨hf, hn, hs | ⟨k, hk, hs⟩⟩ := s.salConnect_books fd
    · exact ⟨h.salConnect fd, hb.congr hs hf hn⟩
    · have hset : Books { s.setSock fd (some { k with connected := true }) with freed := [] ++ s.freed } :=
        hb.setSock hk rfl (.refl _)
      exact ⟨h.salConnect fd, hset.congr hs hf hn⟩
  | packetInput fd len malloc =>
    rw [step]
    rcases s.salPacketInput_eq fd len malloc with heq | ⟨k, hk, heq⟩
    · rw [heq]
      exact ⟨h, hb⟩
    · rw [heq]
      have hset : Inv (s.setSock fd (some
          { k with
            recvmbox := k.recvmbox ++ [⟨s.nextBuf, len % 2 ^ 16⟩]
            rcvevent := k.rcvevent + 1
            accepted := s.nextBuf :: k.accepted })) := h.setSock hk rfl rfl id
      refine ⟨hset.congr rfl rfl rfl h.port rfl, hb.accept hk rfl ?_⟩
      rw [Sock.held, Sock.held, List.map_append, List.append_assoc]
      exact List.perm_middle
  | recvfrom fd r =>
    rw [step]
    rcases s.salRecvfrom_reads fd r with heq | ⟨k, k', gs, hk, hreads, heq⟩
    · rw [heq]
      exact ⟨h, hb⟩
    · rw [heq]
      exact ⟨h.reads hk hreads, hb.setSock hk hreads.same.accepted hreads.held⟩
  | closedEvent l => exact ⟨h.closedEvent l, hb.congr rfl rfl rfl⟩
  | close fd =>
    rw [step]
    cases hk : s.sockets fd with
    | none =>
      rw [salClose, hk]
      exact ⟨h, hb⟩
    | some k =>
      rcases h.salClose_cases hk with ⟨-, -, heq⟩ | ⟨-, t, ht, hs, hf, hn, hlink, heq⟩
      · rw [heq]
        exact ⟨h, hb⟩
      · rw [heq]
        exact ⟨ht.netconnDelete (hs ▸ hk) hlink, hb.delete hk hs hf hn⟩

/-- **Closing** releases everything exactly if a connected socket still has its link, and no packet is
    left over from the last read. -/
theorem Inv.released_iff (h : Inv s) (hb : Books s) (hk : s.sockets fd = some k) :
    Released s fd k ↔ (k.connected = true → ∃ l, s.gLink l = some fd) ∧ k.lastdata = none := by
  rcases h.salClose_cases hk with ⟨hconn, hno, heq⟩ | ⟨hlinked, t, ht, hs, hf, hn, hlink, heq⟩
  · constructor
    · intro hrel
      have hret := hrel.ret
      rw [heq] at hret
      exact absurd hret (show (-1 : ℤ) ≠ 0 by decide)
    · rintro ⟨hlinked, -⟩
      obtain ⟨l, hl⟩ := hlinked hconn
      exact absurd hl (hno l)
  · have hbooks : Books t := hb.congr hs hf hn
    have hkt : t.sockets fd = some k := hs ▸ hk
    have hfreed := hbooks.freed_deleted hkt
    constructor
    · intro hrel
      have hall := hrel.freed
      rw [heq] at hall
      exact ⟨hlinked, hfreed.1 hall⟩
    · rintro ⟨-, hlast⟩
      refine ⟨by rw [heq], ?_, ?_, ?_, ?_⟩ <;> rw [heq]
      · exact setSock_self
      · exact hlink
      · exact ht.pcb_deleted hkt
      · exact hfreed.2 hlast

end Sockets

/-- **Closing a socket**: after any calls and events, `sal_close` on an open socket returns 0 and
    releases its slot, its link, its pcb and its packets exactly if the socket has its link when it
    is connected, and has no packet that was read in part. -/
theorem close_releases (rand : Proto → ℕ) (as : List SockAct) (fd : ℕ) (k : Sock)
    (hk : (as.foldl Sockets.step (.init rand)).sockets fd = some k) :
    Sockets.Released (as.foldl Sockets.step (.init rand)) fd k ↔
      (k.connected = true → ∃ l, (as.foldl Sockets.step (.init rand)).gLink l = some fd) ∧ k.lastdata = none := by
  have hstep : ∀ {s a t}, s.Inv ∧ s.Books → Lib.Fn Sockets.step s a t → t.Inv ∧ t.Books := by
    rintro s a _ ⟨hinv, hbooks⟩ rfl
    exact Sockets.step_keeps hinv hbooks a
  have hrun : Lib.Run (Lib.Fn Sockets.step) (.init rand) as _ := Lib.run_fn.2 rfl
  obtain ⟨hinv, hbooks⟩ := hrun.keeps (I := fun s => s.Inv ∧ s.Books) hstep
    ⟨Sockets.inv_init rand, Sockets.books_init rand⟩
  exact hinv.released_iff hbooks hk

/-- A socket that has read a packet, and closes first. -/
def closesFirst : List SockAct := [.socket .tcp, .connect 0, .packetInput 0 4 true, .recvfrom 0 ⟨4, false, false⟩]

theorem close_releases_first : ∃ k, (closesFirst.foldl Sockets.step (.init fun _ => 0)).sockets 0 = some k ∧
    Sockets.Released (closesFirst.foldl Sockets.step (.init fun _ => 0)) 0 k :=
  ⟨_, rfl, (close_releases (fun _ => 0) closesFirst 0 _ rfl).2 ⟨fun _ => ⟨0, rfl⟩, rfl⟩⟩

/-- The peer closes first; and a packet is read in part. -/
theorem close_leaks :
    ¬ ∀ (rand : Proto → ℕ) (as : List SockAct) (fd : ℕ) (k : Sock),
      (as.foldl Sockets.step (.init rand)).sockets fd = some k →
        Sockets.Released (as.foldl Sockets.step (.init rand)) fd k := by
  intro h
  have hret := (h (fun _ => 0) [.socket .tcp, .connect 0, .closedEvent 0] 0 _ rfl).ret
  exact absurd hret (by decide)

end Sal
