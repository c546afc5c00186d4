/-
  No caller of `sal_select` misses a wake-up, where
  - one caller at a time is registered on an eventfd, and fewer than 256 on a socket;
  - the count of an eventfd stays one that the scan can see;
  - no caller waits for packets of a socket when a read takes one out of its mailbox.
-/
import AliOS.Sal.SelectSteps

namespace Sal.Select

open Sockets (Recv readLast)

namespace State

variable {s t : State} {w c fd : ℕ} {p : Pc}

theorem Inv.next (h : Inv s) {q : Pc} (hpc : s.pc w = q) (hq : q.onList = false)
    (hq' : ∀ {fd scb ctr next}, q ≠ .walk fd scb ctr next) (hp : p.onList = false)
    (hp' : ∀ {fd scb ctr next}, p ≠ .walk fd scb ctr next) : Inv (s.setPc w p) :=
  h.setPc_off (by rw [hpc]; exact hq) hp hp' fun hwalk => absurd (hpc.symm.trans hwalk) hq'

theorem Inv.sendto (h : Inv s) {ok : Bool} (hpc : s.pc w = .idle) : Inv (s.sendto w fd ok) := by
  rw [State.sendto]
  split_ifs
  · exact h.next hpc rfl nofun rfl nofun
  · exact h

theorem Inv.start (h : Inv s) (hpc : s.pc w = .idle) (q : Call) : Inv (s.start w q) := by
  cases q with
  | select x =>
    have hcb : Inv (s.setCb w { s.cb w with args := x }) := h.setCb_off (by rw [hpc]; rfl)
    exact hcb.next hpc rfl nofun rfl nofun
  | packetInput fd len =>
    rw [State.start]
    split_ifs
    · exact h
    · exact h.next hpc rfl nofun rfl nofun
  | recvfrom fd r =>
    rw [State.start]
    split_ifs
    · exact h
    · exact h.next hpc rfl nofun rfl nofun
  | sendto fd ok => exact h.sendto hpc
  | write fd size v ok =>
    rw [State.start]
    split_ifs
    · exact h.next hpc rfl nofun rfl nofun
    · exact h
    · exact h.sendto hpc
  | close fd ok =>
    rw [State.start]
    split_ifs
    · exact h.setEvent nofun (h.writes fd) (fun _ => rfl) nofun nofun
    · exact h.next hpc rfl nofun rfl nofun
    · exact h

/-- A caller with all its descriptors registered comes to the loop that unregisters them. -/
theorem Inv.toLeave (h : Inv s) {q : Pc} {again : Bool} (hpc : s.pc w = q) (hon : q.onList = true)
    (hq : ∀ {fd scb ctr next}, q ≠ .walk fd scb ctr next) (hreg : ∀ fd, s.asks w fd = true → q.registered fd = true) :
    Inv (s.setPc w (.leave 0 (s.cb w).args.maxfdp1 again)) := by
  refine h.setPc (by rw [hpc, hon]; rfl) (fun fd has => ?_) nofun nofun nofun
      (fun hwalk => absurd (hpc.symm.trans hwalk) hq) ?_
  · have hlt : fd < (s.cb w).args.maxfdp1 := of_decide_eq_true (Bool.and_eq_true _ _ ▸ has).1
    rw [hpc, hreg fd has]
    simp [Pc.registered, hlt]
  · rintro _ m _ heq
    obtain ⟨-, rfl, -⟩ := Pc.leave.inj heq
    exact Nat.le_refl _

theorem readLast_same (k : Sock) (n : Netbuf) (r : Recv) :
    (readLast k n r).1.rcvevent = k.rcvevent ∧
      ((readLast k n r).1.lastdata = k.lastdata ∨ (readLast k n r).1.lastdata = none ∨
        (readLast k n r).1.lastdata = some n) := by
  rw [readLast]
  split_ifs
  · exact ⟨rfl, .inl rfl⟩
  · exact ⟨rfl, .inr (.inr rfl)⟩
  · exact ⟨rfl, .inr (.inl rfl)⟩

theorem Inv.scanned (h : Inv s) {k : Scan} {i nready : ℕ} (hpc : s.pc w = .scan k i nready)
    (hi : (s.cb w).args.maxfdp1 ≤ i) : Inv (s.scanned w nready k) := by
  have hlt : ∀ fd, s.asks w fd = true → fd < (s.cb w).args.maxfdp1 := fun fd ha =>
    of_decide_eq_true (Bool.and_eq_true _ _ ▸ ha).1
  cases k with
  | first =>
    rw [State.scanned]
    split_ifs
    · exact h.next hpc rfl nofun rfl nofun
    · exact h.next hpc rfl nofun rfl nofun
  | second =>
    rw [State.scanned]
    split_ifs with hz
    · refine h.setPc (by rw [hpc]; rfl) (fun fd _ => by rw [hpc]; rfl) (fun fd ha _ => ?_)
        (fun _ => by rw [hpc]; rfl) nofun (fun hwalk => nomatch hpc.symm.trans hwalk) nofun
      rw [hpc, hz]
      exact decide_eq_true (Nat.lt_of_lt_of_le (hlt fd ha) hi)
    · exact h.toLeave hpc rfl nofun fun _ _ => rfl
  | last => exact h.next hpc rfl nofun rfl nofun

theorem asks_of_has {i : ℕ} (hi : i < (s.cb w).args.maxfdp1) (ha : (s.cb w).args.has i = true) : s.asks w i = true := by
  rw [asks, ha, decide_eq_true hi]
  rfl

theorem ne_of_asks {i : ℕ} (hno : ¬ (s.cb w).args.has i = true) (ha : s.asks w fd = true) : fd ≠ i := by
  rintro rfl
  exact hno (Bool.and_eq_true _ _ ▸ ha).2

theorem Inv.regSkip (h : Inv s) {i : ℕ} (hpc : s.pc w = .reg i) (hno : ¬ (s.cb w).args.has i = true) :
    Inv (s.setPc w (.reg (i + 1))) := by
  refine h.setPc (by rw [hpc]; rfl) (fun fd has => ?_) nofun (fun _ => by rw [hpc]; rfl) nofun
    (fun hwalk => nomatch hpc.symm.trans hwalk) nofun
  rw [hpc]
  exact (registered_off 0 true (ne_of_asks hno has)).1

theorem Inv.regDone (h : Inv s) {i : ℕ} (hpc : s.pc w = .reg i) (hi : (s.cb w).args.maxfdp1 ≤ i) :
    Inv (s.setPc w (.scan .second 0 0)) := by
  refine h.setPc (by rw [hpc]; rfl) (fun fd has => ?_) (fun fd _ hp => ?_) (fun _ => by rw [hpc]; rfl) nofun
    (fun hwalk => nomatch hpc.symm.trans hwalk) nofun
  · have hlt : fd < (s.cb w).args.maxfdp1 := of_decide_eq_true (Bool.and_eq_true _ _ ▸ has).1
    rw [hpc]
    exact (decide_eq_true (Nat.lt_of_lt_of_le hlt hi)).symm
  · have hlt : fd < 0 := of_decide_eq_true (p := fd < 0) hp
    exact absurd hlt (Nat.not_lt_zero fd)

theorem Inv.leaveSkip (h : Inv s) {i m : ℕ} {again : Bool} (hpc : s.pc w = .leave i m again)
    (hno : ¬ (s.cb w).args.has i = true) : Inv (s.setPc w (.leave (i + 1) m again)) := by
  refine h.setPc (by rw [hpc]; rfl) (fun fd has => ?_) nofun nofun nofun
      (fun hwalk => nomatch hpc.symm.trans hwalk) ?_
  · rw [hpc]
    exact (registered_off _ _ (ne_of_asks hno has)).2
  · rintro _ m' _ heq
    obtain ⟨-, rfl, -⟩ := Pc.leave.inj heq
    exact h.leave hpc

theorem Inv.leaveDone (h : Inv s) {i m : ℕ} {again : Bool} (hpc : s.pc w = .leave i m again) (hi : m ≤ i) :
    Inv (s.setPc w (.delist again)) := by
  refine h.setPc (by rw [hpc]; rfl) (fun fd has => ?_) nofun nofun nofun
      (fun hwalk => nomatch hpc.symm.trans hwalk) nofun
  rw [hpc]
  simp only [Pc.registered, Bool.false_eq, Bool.and_eq_false_iff, decide_eq_false_iff_not]
  omega

theorem Inv.postAt (h : Inv s) {len : ℕ} (hpc : s.pc w = .post fd len) : Inv (s.postAt w fd len) := by
  rw [State.postAt]
  dsimp only
  split_ifs
  · have hsock : Inv (s.setSock fd
        { s.socks fd with recvmbox := (s.socks fd).recvmbox ++ [⟨s.nextBuf, len % 2 ^ 16⟩] }) :=
      h.setSock id rfl (fun _ hl => .inl hl) fun _ => id
    have hdeal := hsock.next (w := w) (p := .deal fd .rcvplus .done) hpc rfl nofun rfl nofun
    exact ⟨⟨hdeal.nodup, hdeal.mem, hdeal.waiting, hdeal.psem, hdeal.counts, hdeal.writes, hdeal.signalled,
      hdeal.walk, hdeal.leave⟩, fun hp ha hsem => ⟨(hdeal.heard hp ha hsem).last, (hdeal.heard hp ha hsem).event,
      (hdeal.heard hp ha hsem).counts⟩⟩
  · exact h.next hpc rfl nofun rfl nofun

theorem Inv.go (h : Inv s) (hm : s.meets (w, .go) = true) (hgo : s.go w = some t) : Inv t := by
  rw [State.go] at hgo
  dsimp only at hgo
  cases hpc : s.pc w with
  | idle =>
    rw [hpc] at hgo
    cases hgo
  | scan k i nready =>
    rw [hpc] at hgo
    dsimp only at hgo
    by_cases hi : i < (s.cb w).args.maxfdp1
    · rw [if_pos hi] at hgo
      cases hgo
      cases k with
      | second => exact h.scanSecond hpc
      | first => exact h.next hpc rfl (fun h => by cases h) rfl (fun h => by cases h)
      | last => exact h.next hpc rfl (fun h => by cases h) rfl (fun h => by cases h)
    · rw [if_neg hi] at hgo
      cases hgo
      exact h.scanned hpc (Nat.le_of_not_lt hi)
  | enlist =>
    rw [hpc] at hgo
    cases hgo
    exact h.enlist hpc
  | reg i =>
    rw [hpc] at hgo
    dsimp only at hgo
    split_ifs at hgo with hi ha
    · cases hgo
      exact h.regAt hpc (asks_of_has hi ha) hm
    · cases hgo
      exact h.regSkip hpc ha
    · cases hgo
      exact h.regDone hpc (Nat.le_of_not_lt hi)
  | wait =>
    rw [hpc] at hgo
    dsimp only at hgo
    split_ifs at hgo
    cases hgo
    have hleave : Inv (s.setPc w (.leave 0 (s.cb w).args.maxfdp1 true)) :=
      h.toLeave hpc rfl (fun h => by cases h) fun _ _ => rfl
    exact hleave.setCb rfl fun haw => by
      rw [setPc_self] at haw
      cases haw
  | leave i m again =>
    rw [hpc] at hgo
    dsimp only at hgo
    split_ifs at hgo with hi ha
    · cases hgo
      exact h.leaveAt hpc hi (asks_of_has (Nat.lt_of_lt_of_le hi (h.leave hpc)) ha)
    · cases hgo
      exact h.leaveSkip hpc ha
    · cases hgo
      exact h.leaveDone hpc (Nat.le_of_not_lt hi)
  | delist again =>
    rw [hpc] at hgo
    cases hgo
    exact h.delist hpc (by split_ifs <;> rfl) (by split_ifs <;> exact fun h => by cases h)
  | deal fd evt next =>
    rw [hpc] at hgo
    cases hgo
    refine h.setPc_off (by rw [hpc]; rfl) ?_ ?_ fun hwalk => by cases hpc.symm.trans hwalk
    · split_ifs
      · rfl
      · exact next.pc_off
    · intro fd' scb ctr next'
      split_ifs
      · rintro ⟨⟩
      · exact next.pc_walk
  | upd fd evt next =>
    rw [hpc] at hgo
    dsimp only at hgo
    obtain ⟨hnone, hwalk⟩ := h.upd hpc
    split_ifs at hgo with hz
    · cases hgo
      exact hnone hz
    · cases hgo
      exact hwalk
  | walk fd scb ctr next =>
    rw [hpc] at hgo
    cases hgo
    exact h.walkOn hpc
  | post fd len =>
    rw [hpc] at hgo
    cases hgo
    exact h.postAt hpc
  | recv fd r =>
    rw [hpc] at hgo
    dsimp only at hgo
    split at hgo
    · cases hgo
      exact h.next hpc rfl (fun h => by cases h) rfl (fun h => by cases h)
    · cases hgo
      exact h.next hpc rfl (fun h => by cases h) (by split_ifs <;> rfl) (by split_ifs <;> exact fun h => by cases h)
  | fetch fd r =>
    rw [hpc] at hgo
    dsimp only at hgo
    split at hgo
    · cases hgo
    · rename_i n rest hmbox
      cases hgo
      have hsock : Inv (s.setSock fd { s.socks fd with recvmbox := rest }) :=
        h.setSock id rfl (fun _ hl => .inl hl) fun _ => id
      exact hsock.next hpc rfl (fun h => by cases h) rfl (fun h => by cases h)
  | take fd r n =>
    rw [hpc] at hgo
    cases hgo
    simp only [meets, hpc, Bool.or_eq_true, Bool.not_eq_true'] at hm
    have hsock : Inv (s.setSock fd { s.socks fd with lastdata := some n }) := by
      refine h.setSock id rfl (fun hs _ => .inr ?_) fun _ => id
      rcases hm with hm | hm
      · cases hm.symm.trans hs
      · exact hm
    exact hsock.next hpc rfl (fun h => by cases h) rfl (fun h => by cases h)
  | read fd r n =>
    rw [hpc] at hgo
    cases hgo
    simp only [meets, hpc, Bool.or_eq_true, Bool.not_eq_true'] at hm
    obtain ⟨hrcv, -⟩ := readLast_same (s.socks fd).toSock n r
    have hsock : Inv (s.setSock fd { s.socks fd with toSock := (readLast (s.socks fd).toSock n r).1 }) := by
      refine h.setSock id rfl (fun hs hl => ?_) fun x hask => ?_
      · rcases hm with ((hm | hm) | hm) | hm
        · cases hm.symm.trans hs
        · exact .inl (Option.isSome_iff_ne_none.1 hm)
        · exact absurd (Option.isNone_iff_eq_none.1 hm) hl
        · exact .inr hm
      · rw [asked] at hask ⊢
        rw [← hrcv]
        exact hask
    exact hsock.next hpc rfl (fun h => by cases h) (by split_ifs <;> rfl) (by split_ifs <;> exact fun h => by cases h)
  | write fd v =>
    rw [hpc] at hgo
    cases hgo
    have hpc' : (s.writeAt fd v).pc = s.pc := by
      rw [State.writeAt]
      split_ifs
      · rfl
      · split <;> rfl
    exact (h.writeAt hpc hm).setPc_off (by rw [hpc', hpc]; rfl) rfl (fun h => by cases h)
      fun hwalk => by cases hpc.symm.trans ((congrFun hpc' w).symm.trans hwalk)
  | free fd =>
    rw [hpc] at hgo
    cases hgo
    have hsock : Inv (s.setSock fd
        { s.socks fd with recvmbox := [], lastdata := none, lastoffset := 0, conn := false }) :=
      h.setSock (fun h => by cases h) rfl (fun _ hl => absurd rfl hl) fun _ => id
    exact hsock.next hpc rfl (fun h => by cases h) rfl (fun h => by cases h)

theorem Inv.step (h : Inv s) {a : ℕ × Move} (hm : s.meets a = true) (hstep : s.step a = some t) : Inv t := by
  obtain ⟨w, m⟩ := a
  cases m with
  | start q =>
    dsimp only [State.step] at hstep
    split at hstep
    · rename_i hpc
      cases hstep
      exact h.start hpc q
    · exact nomatch hstep
  | go => exact h.go hm hstep
  | timeout =>
    dsimp only [State.step] at hstep
    rw [timeout] at hstep
    split at hstep
    · rename_i hpc
      split_ifs at hstep
      cases hstep
      exact h.toLeave hpc rfl nofun fun _ _ => rfl
    · rename_i hpc
      cases hstep
      exact h.next hpc rfl nofun rfl nofun
    · exact nomatch hstep
  | fail =>
    dsimp only [State.step] at hstep
    rw [fail] at hstep
    split at hstep
    · rename_i hpc
      cases hstep
      exact h.next hpc rfl nofun rfl nofun
    · rename_i hpc
      cases hstep
      exact h.next hpc rfl nofun rfl nofun
    · rename_i hpc
      cases hstep
      exact h.next hpc rfl nofun rfl nofun
    · exact nomatch hstep

theorem inv_init (socks : ℕ → Option Proto) (connected efds : ℕ → Bool) : Inv (init socks connected efds) where
  nodup := .nil
  mem := ⟨(fun h => by cases h), by rintro ⟨⟩⟩
  waiting := fun _ => rfl
  psem := by
    intro c fd _ hr
    rw [registered, Bool.and_eq_true] at hr
    cases hr.2
  counts := fun _ hne => absurd rfl hne
  writes := fun _ => rfl
  signalled := fun h => by cases h
  walk := fun h => by cases h
  leave := fun h => by cases h
  heard := fun h => by cases h

/-- A walk that has the caller before it, whose event is asked for, signals it. -/
theorem Inv.not_lost (h : Inv s) : ¬ s.Lost c fd := by
  rintro ⟨hpc, hsem, ⟨hlt, hready⟩, hno⟩
  have hp : (s.pc c).past fd = true := by rw [hpc]; rfl
  -- a descriptor that is ready is in one of the sets
  have hheard : (s.cb c).args.has fd = true → s.Heard (∃ w, s.Walks w c fd) c fd := fun has => by
    refine h.heard hp ?_ hsem
    rw [asks, has, decide_eq_true hlt]
    rfl
  have hasked : asked (s.cb c).args (s.socks fd) fd = true → s.hasSocket fd = true → (s.cb c).args.has fd = true →
      False := by
    intro hask hs has
    obtain ⟨w, scb, ctr, next, hwalk, hmem⟩ := (hheard has).event hs hask
    refine hno w ?_
    rw [hwalk]
    refine ⟨hmem, ?_, hask⟩
    by_contra hsig
    exact h.signalled (Pc.past_spec hp).2.2 (Bool.not_eq_false _ ▸ hsig) hsem
  rcases hready with ⟨hs, ⟨hr, hlast | hrcv⟩ | ⟨hw, hsend⟩ | ⟨he, herr⟩⟩ | ⟨hev, ⟨hr, hcount⟩ | ⟨-, hwr⟩⟩
  · exact hlast ((hheard (by simp [Args.has, hr])).last hs hr)
  · exact hasked (by simp [asked, hrcv, hr]) hs (by simp [Args.has, hr])
  · exact hasked (by simp [asked, hsend, hw]) hs (by simp [Args.has, hw])
  · exact hasked (by simp [asked, herr, he]) hs (by simp [Args.has, he])
  · exact hcount ((hheard (by simp [Args.has, hr])).counts hev hr)
  · exact hwr (h.writes fd)

end State

/-- **No lost wake-ups**, in a run whose steps meet the condition. -/
theorem select_wakes {socks : ℕ → Option Proto} {connected efds : ℕ → Bool} {as : List (ℕ × Move)} {s : State}
    (h : Lib.Run (Lib.restrict (fun s a => s.meets a = true) State.Step) (.init socks connected efds) as s) (c fd : ℕ) :
    ¬ s.Lost c fd := by
  have hinv : State.Inv s := h.keeps (I := State.Inv) (fun hinv hstep => hinv.step hstep.1 hstep.2)
    (State.inv_init socks connected efds)
  exact hinv.not_lost

/-- Task 0 selects on the first socket to read, and task 1 has a packet for it. -/
def arrives : List (ℕ × Move) :=
  [(0, .start (.select ⟨1, (· == 0), fun _ => false, fun _ => false, none⟩))] ++ List.replicate 7 (0, .go) ++
    [(1, .start (.packetInput 0 4)), (1, .go), (1, .go), (1, .go)]

theorem select_wakes_arrives : ∃ s, Lib.Run (Lib.restrict (fun s a => s.meets a = true) State.Step)
    (.init (fun fd => if fd = 0 then some .udp else none) (fun _ => true) fun _ => false) arrives s ∧
      s.pc 0 = .wait ∧ (s.cb 0).sem = 1 ∧ ∀ fd, ¬ s.Lost 0 fd := by
  have hrun : Lib.Run (Lib.restrict (fun s a => s.meets a = true) State.Step)
    (.init (fun fd => if fd = 0 then some .udp else none) (fun _ => true) fun _ => false) arrives _ :=
    Lib.run_guarded.2 rfl
  exact ⟨_, hrun, rfl, rfl, select_wakes hrun 0⟩

/-- Tasks 0 and 1 select on the first eventfd to read, and task 2 writes to it. -/
def overwritten : List (ℕ × Move) :=
  [(0, .start (.select ⟨6, (· == 5), fun _ => false, fun _ => false, none⟩))] ++ List.replicate 22 (0, .go) ++
    [(1, .start (.select ⟨6, (· == 5), fun _ => false, fun _ => false, none⟩))] ++ List.replicate 14 (1, .go) ++
    [(2, .start (.write 5 8 1 true)), (2, .go)]

/-- The semaphore of the first caller no longer stands in the eventfd. -/
theorem select_loses : ¬ ∀ (socks : ℕ → Option Proto) (connected efds : ℕ → Bool) (as : List (ℕ × Move)) (s : State),
    Lib.Run State.Step (.init socks connected efds) as s → ∀ c fd, ¬ s.Lost c fd := by
  intro h
  have hrun : Lib.Run State.Step (.init (fun _ => none) (fun _ => true) fun _ => true) overwritten _ :=
    Lib.run_option.2 rfl
  refine h _ _ _ overwritten _ hrun 0 5 ⟨rfl, rfl, ⟨by decide, .inr ⟨rfl, .inl ⟨rfl, by decide⟩⟩⟩, fun w => ?_⟩
  match w with
  | 0 => exact id
  | 1 => exact id
  | 2 => exact id
  | w + 3 => exact id

end Sal.Select
