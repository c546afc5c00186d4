/-
  The callers of `sal_select` on `select_cb_list`: where they are registered, what they know of the
  descriptors that they look at no more, and that it stays so where the rest of the state changes.
-/
import AliOS.Sal.Select

namespace Sal.Select

open Sockets (Recv readLast)

/-- The task is on `select_cb_list`. -/
def Pc.onList : Pc → Bool
  | .reg _ | .scan .second _ _ | .wait | .leave _ _ _ | .delist _ => true
  | _ => false

/-- The task has registered on a descriptor of its sets, and not left it. -/
def Pc.registered (fd : ℕ) : Pc → Bool
  | .reg i => fd < i
  | .scan .second _ _ | .wait => true
  | .leave i maxfdp2 _ => decide (i ≤ fd) && decide (fd < maxfdp2)
  | _ => false

/-- The task looks at the descriptor no more before it blocks. -/
def Pc.past (fd : ℕ) : Pc → Bool
  | .scan .second i 0 => fd < i
  | .wait => true
  | _ => false

/-- The task may still come to its wait, and was on the list before. -/
def Pc.awaits : Pc → Bool
  | .reg _ | .scan .second _ _ | .wait => true
  | _ => false

/-- Who is past a descriptor is on the list, has registered there, and may come to its wait. -/
theorem Pc.past_spec {p : Pc} {fd : ℕ} (h : p.past fd = true) :
    p.onList = true ∧ p.registered fd = true ∧ p.awaits = true := by
  cases p with
  | scan k i nready =>
    cases k with
    | second => exact ⟨rfl, rfl, rfl⟩
    | first => exact nomatch h
    | last => exact nomatch h
  | wait => exact ⟨rfl, rfl, rfl⟩
  | _ => exact nomatch h

theorem Pc.off_spec {p : Pc} (h : p.onList = false) :
    (∀ fd, p.registered fd = false) ∧ (∀ fd, p.past fd = false) ∧ p.awaits = false := by
  cases p with
  | scan k i nready =>
    cases k with
    | second => exact nomatch h
    | first => exact ⟨fun _ => rfl, fun _ => rfl, rfl⟩
    | last => exact ⟨fun _ => rfl, fun _ => rfl, rfl⟩
  | reg i => exact nomatch h
  | wait => exact nomatch h
  | leave i maxfdp2 again => exact nomatch h
  | delist again => exact nomatch h
  | _ => exact ⟨fun _ => rfl, fun _ => rfl, rfl⟩

theorem Next.pc_off (next : Next) : next.pc.onList = false := by cases next <;> rfl

theorem Next.pc_walk (next : Next) {fd scb ctr : ℕ} {next' : Next} : next.pc ≠ .walk fd scb ctr next' := by
  cases next <;> exact nofun

namespace State

variable {s t : State} {w c fd n : ℕ} {p : Pc} {k : SelSock} {e : SelEvent} {b : SelectCb}

/-- The descriptor is one that the task asks for. -/
def asks (s : State) (c fd : ℕ) : Bool := decide (fd < (s.cb c).args.maxfdp1) && (s.cb c).args.has fd

def registered (s : State) (fd c : ℕ) : Bool := s.asks c fd && (s.pc c).registered fd

/-- Who will not look at the socket again was signalled, or does not wait for packets of it. -/
def heeded (s : State) (fd : ℕ) : Bool :=
  s.list.all fun c => !((s.pc c).past fd && s.asks c fd && (s.cb c).args.readset fd) || decide ((s.cb c).sem ≠ 0)

/-- The condition on a step. -/
def meets (s : State) : ℕ × Move → Bool
  | (w, .go) =>
    match s.pc w with
    | .reg i =>
      !s.asks w i || if s.hasSocket i then decide ((s.socks i).selectWaiting + 1 < SELWAIT_SIZE)
        else !s.hasEvent i || (s.events i).psem.isNone
    | .write fd v =>
      !s.hasEvent fd || decide (((s.events fd).counts + v) % 2 ^ 64 = 0) ||
        decide (0 < ((((s.events fd).counts + v) % 2 ^ 64 : ℕ) : ℤ).bmod (2 ^ 16))
    | .take fd _ _ => !s.hasSocket fd || s.heeded fd
    | .read fd r n =>
      !s.hasSocket fd || (s.socks fd).lastdata.isSome || (readLast (s.socks fd).toSock n r).1.lastdata.isNone ||
        s.heeded fd
    | _ => true
  | _ => true

/-- The tasks on the list, what the sockets and the eventfds know of them, and the walks. -/
structure Regs (s : State) : Prop where
  nodup : s.list.Nodup
  mem : ∀ {c}, c ∈ s.list ↔ (s.pc c).onList = true
  waiting : ∀ {fd}, s.hasSocket fd = true → (s.socks fd).selectWaiting = s.list.countP (s.registered fd)
  psem : ∀ {c fd}, s.hasEvent fd = true → s.registered fd c = true → (s.events fd).psem = some c
  counts : ∀ {fd}, s.hasEvent fd = true → (s.events fd).counts ≠ 0 → 0 < scanReads (s.events fd)
  writes : ∀ fd, (s.events fd).writes = 0
  signalled : ∀ {c}, (s.pc c).awaits = true → (s.cb c).semSignalled = true → (s.cb c).sem ≠ 0
  walk : ∀ {w fd scb ctr next}, s.pc w = .walk fd scb ctr next → ctr ≤ s.ctr ∧ (ctr = s.ctr → scb ∈ s.list)
  leave : ∀ {w i maxfdp2 again}, s.pc w = .leave i maxfdp2 again → maxfdp2 ≤ (s.cb w).args.maxfdp1

/-- The walk of the task at the socket has the caller before it. -/
def Walks (s : State) (w c fd : ℕ) : Prop := ∃ scb ctr next, s.pc w = .walk fd scb ctr next ∧ c ∈ s.before scb ctr

/-- What a caller that was not signalled knows of a descriptor that it is past; `W` is who will signal it. -/
structure Heard (s : State) (W : Prop) (c fd : ℕ) : Prop where
  last : s.hasSocket fd = true → (s.cb c).args.readset fd = true → (s.socks fd).lastdata = none
  event : s.hasSocket fd = true → asked (s.cb c).args (s.socks fd) fd = true → W
  counts : s.hasEvent fd = true → (s.cb c).args.readset fd = true → (s.events fd).counts = 0

structure Inv (s : State) : Prop extends Regs s where
  heard : ∀ {c fd}, (s.pc c).past fd = true → s.asks c fd = true → (s.cb c).sem = 0 → s.Heard (∃ w, s.Walks w c fd) c fd

/-! ## What the parts of the state know -/

@[simp] theorem setPc_self : (s.setPc w p).pc w = p := Function.update_self ..

theorem setPc_ne (h : c ≠ w) : (s.setPc w p).pc c = s.pc c := Function.update_of_ne h ..

@[simp] theorem setSock_self : (s.setSock fd k).socks fd = k := Function.update_self ..

theorem setSock_ne (h : n ≠ fd) : (s.setSock fd k).socks n = s.socks n := Function.update_of_ne h ..

@[simp] theorem setEvent_self : (s.setEvent fd e).events fd = e := Function.update_self ..

theorem setEvent_ne (h : n ≠ fd) : (s.setEvent fd e).events n = s.events n := Function.update_of_ne h ..

@[simp] theorem setCb_self : (s.setCb c b).cb c = b := Function.update_self ..

theorem setCb_ne (h : n ≠ c) : (s.setCb c b).cb n = s.cb n := Function.update_of_ne h ..

theorem hasEvent_not (h : s.hasSocket fd = true) : s.hasEvent fd = false := by
  simp only [hasSocket, Bool.and_eq_true, decide_eq_true_eq] at h
  simp only [hasEvent, Bool.and_eq_false_iff, decide_eq_false_iff_not]
  exact .inl (.inl (by omega))

/-! ## Frames -/

theorem registered_setPc (hreg : ∀ fd, s.asks w fd = true → p.registered fd = (s.pc w).registered fd) (fd c : ℕ) :
    (s.setPc w p).registered fd c = s.registered fd c := by
  change (s.asks c fd && ((s.setPc w p).pc c).registered fd) = (s.asks c fd && (s.pc c).registered fd)
  by_cases hc : c = w
  · subst hc
    rw [setPc_self]
    cases ha : s.asks c fd with
    | false => rfl
    | true => rw [hreg fd ha]
  · rw [setPc_ne hc]

theorem Regs.setPc (h : Regs s) (hon : p.onList = (s.pc w).onList)
    (hreg : ∀ fd, s.asks w fd = true → p.registered fd = (s.pc w).registered fd)
    (hawaits : p.awaits = true → (s.pc w).awaits = true)
    (hwalk : ∀ {fd scb ctr next}, p = .walk fd scb ctr next → ctr ≤ s.ctr ∧ (ctr = s.ctr → scb ∈ s.list))
    (hleave : ∀ {i m again}, p = .leave i m again → m ≤ (s.cb w).args.maxfdp1) : Regs (s.setPc w p) where
  nodup := h.nodup
  mem := by
    intro c
    by_cases hc : c = w
    · subst hc
      rw [setPc_self, hon]
      exact h.mem
    · rw [setPc_ne hc]
      exact h.mem
  waiting := by
    intro fd hs
    rw [List.countP_congr fun c _ => by rw [registered_setPc hreg fd c]]
    exact h.waiting hs
  psem := fun he hr => h.psem he ((registered_setPc hreg _ _).symm.trans hr)
  counts := h.counts
  writes := h.writes
  signalled := by
    intro c ha hb
    by_cases hc : c = w
    · subst hc
      rw [setPc_self] at ha
      exact h.signalled (hawaits ha) hb
    · rw [setPc_ne hc] at ha
      exact h.signalled ha hb
  walk := by
    intro v fd scb ctr next hv
    by_cases hc : v = w
    · subst hc
      rw [setPc_self] at hv
      exact hwalk hv
    · rw [setPc_ne hc] at hv
      exact h.walk hv
  leave := by
    intro v i m again hv
    by_cases hc : v = w
    · subst hc
      rw [setPc_self] at hv
      exact hleave hv
    · rw [setPc_ne hc] at hv
      exact h.leave hv

theorem Heard.mono {W W' : Prop} (h : s.Heard W c fd) (hW : W → W') : s.Heard W' c fd :=
  ⟨h.last, fun hs hask => hW (h.event hs hask), h.counts⟩

theorem Heard.setPc {W : Prop} (h : s.Heard W c fd) : (s.setPc w p).Heard W c fd := ⟨h.last, h.event, h.counts⟩

theorem Walks.setPc {v : ℕ} (h : s.Walks v c fd) (hv : v ≠ w) : (s.setPc w p).Walks v c fd := by
  obtain ⟨scb, ctr, next, hwalk, hmem⟩ := h
  exact ⟨scb, ctr, next, (setPc_ne hv).trans hwalk, hmem⟩

theorem Inv.setPc (h : Inv s) (hon : p.onList = (s.pc w).onList)
    (hreg : ∀ fd, s.asks w fd = true → p.registered fd = (s.pc w).registered fd)
    (hpast : ∀ fd, s.asks w fd = true → p.past fd = true → (s.pc w).past fd = true)
    (hawaits : p.awaits = true → (s.pc w).awaits = true)
    (hnew : ∀ {fd scb ctr next}, p ≠ .walk fd scb ctr next)
    (hold : ∀ {fd scb ctr next}, s.pc w = .walk fd scb ctr next → s.before scb ctr = [])
    (hleave : ∀ {i m again}, p = .leave i m again → m ≤ (s.cb w).args.maxfdp1) : Inv (s.setPc w p) := by
  refine ⟨h.toRegs.setPc hon hreg hawaits (fun hp => absurd hp hnew) hleave, fun {c fd} hp ha hsem => ?_⟩
  have hp' : (s.pc c).past fd = true := by
    by_cases hc : c = w
    · subst hc
      rw [setPc_self] at hp
      exact hpast fd ha hp
    · rw [setPc_ne hc] at hp
      exact hp
  refine (h.heard hp' ha hsem).setPc.mono ?_
  rintro ⟨v, hv⟩
  refine ⟨v, hv.setPc ?_⟩
  -- the walk that the task was at has nobody before it
  rintro rfl
  obtain ⟨scb, ctr, next, hwalk, hmem⟩ := hv
  rw [hold hwalk] at hmem
  exact nomatch hmem

theorem Inv.setPc_off (h : Inv s) (hp : (s.pc w).onList = false) (hp' : p.onList = false)
    (hnew : ∀ {fd scb ctr next}, p ≠ .walk fd scb ctr next)
    (hold : ∀ {fd scb ctr next}, s.pc w = .walk fd scb ctr next → s.before scb ctr = []) : Inv (s.setPc w p) := by
  obtain ⟨hreg, -, -⟩ := Pc.off_spec hp
  obtain ⟨hreg', hpast', hawaits'⟩ := Pc.off_spec hp'
  refine h.setPc (hp'.trans hp.symm) (fun fd _ => (hreg' fd).trans (hreg fd).symm)
    (fun fd _ hp => nomatch (hpast' fd).symm.trans hp) (fun ha => nomatch hawaits'.symm.trans ha) hnew hold ?_
  rintro i m again rfl
  exact nomatch hp'

theorem hasSocket_setSock (hconn : k.conn = true → (s.socks fd).conn = true)
    (hs : (s.setSock fd k).hasSocket n = true) : s.hasSocket n = true := by
  rw [hasSocket, Bool.and_eq_true] at hs ⊢
  refine ⟨hs.1, ?_⟩
  by_cases hn : n = fd
  · subst hn
    rw [setSock_self] at hs
    exact hconn hs.2
  · rw [setSock_ne hn] at hs
    exact hs.2

theorem Regs.setSock (h : Regs s) (hconn : k.conn = true → (s.socks fd).conn = true)
    (hwait : k.selectWaiting = (s.socks fd).selectWaiting) : Regs (s.setSock fd k) where
  nodup := h.nodup
  mem := h.mem
  waiting := by
    intro n hs
    have hold := h.waiting (hasSocket_setSock hconn hs)
    by_cases hn : n = fd
    · subst hn
      rw [setSock_self, hwait]
      exact hold
    · rw [setSock_ne hn]
      exact hold
  psem := h.psem
  counts := h.counts
  writes := h.writes
  signalled := h.signalled
  walk := h.walk
  leave := h.leave

theorem heeded_last (hh : s.heeded fd = true) (hmem : c ∈ s.list) (hp : (s.pc c).past fd = true)
    (ha : s.asks c fd = true) (hr : (s.cb c).args.readset fd = true) : (s.cb c).sem ≠ 0 := by
  have hall := List.all_eq_true.1 hh c hmem
  rw [hp, ha, hr] at hall
  exact of_decide_eq_true hall

theorem Inv.setSock (h : Inv s) (hconn : k.conn = true → (s.socks fd).conn = true)
    (hwait : k.selectWaiting = (s.socks fd).selectWaiting)
    (hlast : s.hasSocket fd = true → k.lastdata ≠ none → (s.socks fd).lastdata ≠ none ∨ s.heeded fd = true)
    (hasked : ∀ x, asked x k fd = true → asked x (s.socks fd) fd = true) : Inv (s.setSock fd k) := by
  refine ⟨h.toRegs.setSock hconn hwait, fun {c n} hp ha hsem => ?_⟩
  obtain ⟨hlast', hevent, hcounts⟩ := h.heard hp ha hsem
  by_cases hn : n = fd
  · subst hn
    refine ⟨fun hs hr => ?_, fun hs hask => ?_, hcounts⟩
    · have hs' := hasSocket_setSock hconn hs
      rw [setSock_self]
      by_contra hsome
      rcases hlast hs' hsome with hold | hheed
      · exact hold (hlast' hs' hr)
      · exact heeded_last hheed (h.mem.2 (Pc.past_spec hp).1) hp ha hr hsem
    · rw [setSock_self] at hask
      exact hevent (hasSocket_setSock hconn hs) (hasked _ hask)
  · refine ⟨fun hs hr => ?_, fun hs hask => ?_, hcounts⟩
    · rw [setSock_ne hn]
      exact hlast' (hasSocket_setSock hconn hs) hr
    · rw [setSock_ne hn] at hask
      exact hevent (hasSocket_setSock hconn hs) hask

theorem asks_setCb (hargs : b.args = (s.cb c).args) (n fd : ℕ) : (s.setCb c b).asks n fd = s.asks n fd := by
  by_cases hn : n = c
  · subst hn
    rw [asks, setCb_self, hargs]
    rfl
  · rw [asks, setCb_ne hn]
    rfl

theorem Regs.setCb (h : Regs s) (hargs : b.args = (s.cb c).args) (hsem : (s.pc c).awaits = true → b.sem ≠ 0) :
    Regs (s.setCb c b) := by
  have hreg : ∀ fd n, (s.setCb c b).registered fd n = s.registered fd n := by
    intro fd n
    rw [registered, asks_setCb hargs]
    rfl
  refine ⟨h.nodup, h.mem, fun {fd} hs => ?_, fun he hr => h.psem he ((hreg _ _).symm.trans hr), h.counts, h.writes,
    fun {n} ha hb => ?_, h.walk, fun {n i m again} hn => ?_⟩
  · rw [List.countP_congr fun n _ => by rw [hreg fd n]]
    exact h.waiting hs
  · by_cases hn : n = c
    · subst hn
      rw [setCb_self]
      exact hsem ha
    · rw [setCb_ne hn] at hb ⊢
      exact h.signalled ha hb
  · by_cases hc : n = c
    · subst hc
      rw [setCb_self, hargs]
      exact h.leave hn
    · rw [setCb_ne hc]
      exact h.leave hn

theorem Heard.setCb {W : Prop} (h : s.Heard W n fd) (hn : n ≠ c) : (s.setCb c b).Heard W n fd := by
  refine ⟨fun hs hr => ?_, fun hs hask => ?_, fun he hr => ?_⟩
  · rw [setCb_ne hn] at hr
    exact h.last hs hr
  · rw [setCb_ne hn] at hask
    exact h.event hs hask
  · rw [setCb_ne hn] at hr
    exact h.counts he hr

theorem Inv.setCb (h : Inv s) (hargs : b.args = (s.cb c).args) (hsem : (s.pc c).awaits = true → b.sem ≠ 0) :
    Inv (s.setCb c b) := by
  refine ⟨h.toRegs.setCb hargs hsem, fun {n fd} hp ha hz => ?_⟩
  have hn : n ≠ c := by
    rintro rfl
    rw [setCb_self] at hz
    exact hsem (Pc.past_spec hp).2.2 hz
  rw [setCb_ne hn] at hz
  exact (h.heard hp ((asks_setCb hargs n fd).symm.trans ha) hz).setCb hn

theorem Inv.setCb_off (h : Inv s) (hoff : (s.pc c).onList = false) : Inv (s.setCb c b) := by
  obtain ⟨hreg, hpast, hawaits⟩ := Pc.off_spec hoff
  have hasks : ∀ {n fd}, n ≠ c → (s.setCb c b).asks n fd = s.asks n fd := fun hn => by rw [asks, asks, setCb_ne hn]
  have hregistered : ∀ fd n, (s.setCb c b).registered fd n = s.registered fd n := by
    intro fd n
    change ((s.setCb c b).asks n fd && (s.pc n).registered fd) = (s.asks n fd && (s.pc n).registered fd)
    by_cases hn : n = c
    · subst hn
      rw [hreg, Bool.and_false, Bool.and_false]
    · rw [hasks hn]
  refine ⟨⟨h.nodup, h.mem, fun {fd} hs => ?_, fun he hr => h.psem he ((hregistered _ _).symm.trans hr), h.counts,
      h.writes,
    fun {n} ha hb => ?_, h.walk, fun {n i m again} hl => ?_⟩, fun {n fd} hp ha hz => ?_⟩
  · rw [List.countP_congr fun n _ => by rw [hregistered fd n]]
    exact h.waiting hs
  · by_cases hn : n = c
    · subst hn
      exact nomatch hawaits.symm.trans ha
    · rw [setCb_ne hn] at hb ⊢
      exact h.signalled ha hb
  · have hn : n ≠ c := by
      rintro rfl
      rw [show s.pc n = _ from hl] at hoff
      exact nomatch hoff
    rw [setCb_ne hn]
    exact h.leave hl
  · have hn : n ≠ c := by
      rintro rfl
      exact nomatch (hpast fd).symm.trans hp
    rw [setCb_ne hn] at hz
    exact (h.heard hp ((hasks hn).symm.trans ha) hz).setCb hn

theorem hasEvent_setEvent (hused : e.used = true → (s.events fd).used = true)
    (he : (s.setEvent fd e).hasEvent n = true) : s.hasEvent n = true := by
  rw [hasEvent, Bool.and_eq_true] at he ⊢
  refine ⟨he.1, ?_⟩
  by_cases hn : n = fd
  · subst hn
    rw [setEvent_self] at he
    exact hused he.2
  · rw [setEvent_ne hn] at he
    exact he.2

theorem Inv.setEvent (h : Inv s) (hused : e.used = true → (s.events fd).used = true) (hw : e.writes = 0)
    (hpsem : s.hasEvent fd = true → e.psem = (s.events fd).psem)
    (hcounts : e.used = true → s.hasEvent fd = true → e.counts ≠ 0 → 0 < scanReads e)
    (hheard : ∀ {c}, e.used = true → s.hasEvent fd = true → (s.pc c).past fd = true → s.asks c fd = true →
      (s.cb c).sem = 0 → (s.cb c).args.readset fd = true → e.counts = 0) : Inv (s.setEvent fd e) := by
  have hself : (s.setEvent fd e).hasEvent fd = true → e.used = true := by
    intro he
    rw [hasEvent, Bool.and_eq_true, setEvent_self] at he
    exact he.2
  refine ⟨⟨h.nodup, h.mem, h.waiting, fun {c n} he hr => ?_, fun {n} he hne => ?_, fun n => ?_, h.signalled, h.walk,
      h.leave⟩,
    fun {c n} hp ha hsem => ?_⟩
  · have he' := hasEvent_setEvent hused he
    by_cases hn : n = fd
    · subst hn
      rw [setEvent_self, hpsem he']
      exact h.psem he' hr
    · rw [setEvent_ne hn]
      exact h.psem he' hr
  · have he' := hasEvent_setEvent hused he
    by_cases hn : n = fd
    · subst hn
      rw [setEvent_self] at hne ⊢
      exact hcounts (hself he) he' hne
    · rw [setEvent_ne hn] at hne ⊢
      exact h.counts he' hne
  · by_cases hn : n = fd
    · subst hn
      rwa [setEvent_self]
    · rw [setEvent_ne hn]
      exact h.writes n
  · obtain ⟨hlast, hevent, hzero⟩ := h.heard hp ha hsem
    refine ⟨hlast, hevent, fun he hr => ?_⟩
    have he' := hasEvent_setEvent hused he
    by_cases hn : n = fd
    · subst hn
      rw [setEvent_self]
      exact hheard (hself he) he' hp ha hsem hr
    · rw [setEvent_ne hn]
      exact hzero he' hr

end State

end Sal.Select
