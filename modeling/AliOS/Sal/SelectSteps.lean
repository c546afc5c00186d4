/-
  The steps around `select_cb_list`: the walks of `sal_deal_event`, who comes to the list and who
  leaves it, the registration on a descriptor, and `sal_write`.
-/
import AliOS.Sal.Selectors

namespace Sal.Select.State

variable {s t : State} {w c fd n : ℕ} {p : Pc} {k : SelSock} {e : SelEvent} {b : SelectCb}

/-! ## Walks -/

theorem tail_dropWhile {l r : List ℕ} {a : ℕ} (hl : l.Nodup) (h : (a :: r).IsSuffix l) :
    (l.dropWhile fun c => c ≠ a).tail = r := by
  induction l with
  | nil => exact nomatch List.suffix_nil.1 h
  | cons b l ih =>
    rcases List.suffix_cons_iff.1 h with heq | hsuf
    · cases heq
      rw [List.dropWhile_cons_of_neg (by simp)]
      rfl
    · have hne : b ≠ a := fun heq => (List.nodup_cons.1 hl).1 (heq ▸ hsuf.subset List.mem_cons_self)
      rw [List.dropWhile_cons_of_pos (by simpa using hne)]
      exact ih (List.nodup_cons.1 hl).2 hsuf

theorem before_suffix (s : State) (scb ctr : ℕ) : (s.before scb ctr).IsSuffix s.list := by
  rw [before]
  split_ifs
  · exact (List.tail_suffix _).trans (List.dropWhile_suffix _)
  · exact List.suffix_refl _

theorem visit_eq (s : State) (fd scb : ℕ) : s.visit fd scb = s ∨
    asked (s.cb scb).args (s.socks fd) fd = true ∧
      s.visit fd scb = s.setCb scb { s.cb scb with semSignalled := true, sem := (s.cb scb).sem + 1 } := by
  rw [visit]
  split_ifs with h
  · exact .inr ⟨(Bool.and_eq_true _ _ ▸ h).2, rfl⟩
  · exact .inl rfl

theorem Regs.visit_sem (h : Regs s) (ha : (s.pc c).awaits = true) (hask : asked (s.cb c).args (s.socks fd) fd = true) :
    ((s.visit fd c).cb c).sem ≠ 0 := by
  rw [visit]
  split_ifs with hv
  · rw [setCb_self]
    exact Nat.succ_ne_zero _
  · rw [hask, Bool.and_true, Bool.not_eq_true', Bool.not_eq_false] at hv
    exact h.signalled ha hv

theorem Regs.visit (h : Regs s) (fd a : ℕ) : Regs (s.visit fd a) := by
  rcases s.visit_eq fd a with heq | ⟨-, heq⟩
  · rwa [heq]
  · rw [heq]
    exact h.setCb rfl fun _ => Nat.succ_ne_zero _

theorem visit_same (s : State) (fd a : ℕ) : (s.visit fd a).pc = s.pc ∧ (s.visit fd a).list = s.list ∧
    (s.visit fd a).ctr = s.ctr := by
  rcases s.visit_eq fd a with heq | ⟨-, heq⟩
  · rw [heq]
    exact ⟨rfl, rfl, rfl⟩
  · rw [heq]
    exact ⟨rfl, rfl, rfl⟩

theorem Regs.visit_heard {W : ℕ → ℕ → Prop} {a : ℕ} {r : List ℕ} (h : Regs s)
    (hheard : ∀ {c n}, (s.pc c).past n = true → s.asks c n = true → (s.cb c).sem = 0 →
      s.Heard (W c n ∨ n = fd ∧ c ∈ a :: r) c n)
    (hp : (s.pc c).past n = true) (ha : (s.visit fd a).asks c n = true) (hsem : ((s.visit fd a).cb c).sem = 0) :
    (s.visit fd a).Heard (W c n ∨ n = fd ∧ c ∈ r) c n := by
  have hrest : (s.cb c).sem = 0 → s.asks c n = true → s.Heard (W c n ∨ n = fd ∧ c ∈ r) c n := by
    intro hz has
    refine ⟨(hheard hp has hz).last, fun hs hask => ?_, (hheard hp has hz).counts⟩
    rcases (hheard hp has hz).event hs hask with hW | ⟨rfl, hmem⟩
    · exact .inl hW
    · rcases List.mem_cons.1 hmem with rfl | hmem
      · exact absurd hsem (h.visit_sem (Pc.past_spec hp).2.2 hask)
      · exact .inr ⟨rfl, hmem⟩
  rcases s.visit_eq fd a with heq | ⟨-, heq⟩
  · rw [heq] at hsem ha ⊢
    exact hrest hsem ha
  · rw [heq] at hsem ha ⊢
    have has : s.asks c n = true :=
      (asks_setCb (b := { s.cb a with semSignalled := true, sem := (s.cb a).sem + 1 }) rfl c n).symm.trans ha
    have hca : c ≠ a := by
      rintro rfl
      rw [setCb_self] at hsem
      exact nomatch hsem
    rw [setCb_ne hca] at hsem
    exact (hrest hsem has).setCb hca

/-- **Walks**: the callers of `rest` are before the walk that comes to the first of them, who is signalled. -/
theorem Regs.walkTo {next : Next} {rest : List ℕ} (h : Regs s) (hw : (s.pc w).onList = false)
    (hrest : rest.IsSuffix s.list)
    (hheard : ∀ {c n}, (s.pc c).past n = true → s.asks c n = true → (s.cb c).sem = 0 →
      s.Heard ((∃ v, v ≠ w ∧ s.Walks v c n) ∨ n = fd ∧ c ∈ rest) c n) :
    Inv (s.walkTo w fd next rest) := by
  obtain ⟨hreg, hpast, -⟩ := Pc.off_spec hw
  have hne : ∀ {t : State} {p c n}, t.pc = s.pc → p.past n = false → ((t.setPc w p).pc c).past n = true →
      c ≠ w ∧ (s.pc c).past n = true := by
    intro t p c n hpc hp hc
    by_cases hcw : c = w
    · subst hcw
      rw [setPc_self] at hc
      exact nomatch hp.symm.trans hc
    · rw [setPc_ne hcw, hpc] at hc
      exact ⟨hcw, hc⟩
  cases rest with
  | nil =>
    obtain ⟨hreg', hpast', hawaits'⟩ := Pc.off_spec next.pc_off
    rw [State.walkTo]
    refine ⟨h.setPc (next.pc_off.trans hw.symm) (fun n _ => (hreg' n).trans (hreg n).symm)
      (fun ha => nomatch hawaits'.symm.trans ha) (fun hp => absurd hp next.pc_walk) fun hp => ?_,
      fun {c n} hp ha hsem => ?_⟩
    · have hoff := next.pc_off
      rw [hp] at hoff
      exact nomatch hoff
    refine (hheard (hne rfl (hpast' n) hp).2 ha hsem).setPc.mono ?_
    rintro (⟨v, hv, hwalk⟩ | ⟨-, hmem⟩)
    · exact ⟨v, hwalk.setPc hv⟩
    · exact nomatch hmem
  | cons a r =>
    have hmem : a ∈ s.list := hrest.subset List.mem_cons_self
    obtain ⟨hpc, hlist, hctr⟩ := s.visit_same fd a
    rw [State.walkTo]
    refine ⟨(h.visit fd a).setPc (by rw [hpc, hw]; rfl) (fun n _ => by rw [hpc, hreg]; rfl) nofun (fun heq => ?_) nofun,
      fun {c n} hp ha hsem => ?_⟩
    · obtain ⟨rfl, rfl, rfl, rfl⟩ := Pc.walk.inj heq
      rw [hctr, hlist]
      exact ⟨Nat.le_refl _, fun _ => hmem⟩
    · have hcall := h.visit_heard hheard (hne hpc rfl hp).2 ha hsem
      have hbefore : ∀ scb ctr, (s.visit fd a).before scb ctr = s.before scb ctr := by
        intro scb ctr
        rw [before, before, hlist, hctr]
      refine hcall.setPc.mono ?_
      rintro (⟨v, hv, scb, ctr, next', hwalk, hin⟩ | ⟨rfl, hin⟩)
      · exact ⟨v, scb, ctr, next', (setPc_ne hv).trans ((congrFun hpc v).trans hwalk), (hbefore scb ctr).symm ▸ hin⟩
      · refine ⟨w, a, s.ctr, next, setPc_self, (hbefore a s.ctr).symm ▸ ?_⟩
        rw [before, if_pos rfl, tail_dropWhile h.nodup hrest]
        exact hin

/-! ## The steps of a caller -/

theorem Inv.upd (h : Inv s) {evt : Evt} {next : Next} (hpc : s.pc w = .upd fd evt next) :
    let t := s.setSock fd (dealt (s.socks fd) evt)
    ((t.socks fd).selectWaiting = 0 → Inv (t.setPc w next.pc)) ∧ Inv (t.walkTo w fd next t.list) := by
  intro t
  have hoff : (t.pc w).onList = false := by
    change (s.pc w).onList = false
    rw [hpc]
    rfl
  have hregs : Regs t := h.toRegs.setSock (by cases evt <;> exact id) (by cases evt <;> rfl)
  have hlast : (dealt (s.socks fd) evt).lastdata = (s.socks fd).lastdata := by cases evt <;> rfl
  have hconn : (dealt (s.socks fd) evt).conn = true → (s.socks fd).conn = true := by cases evt <;> exact id
  have hheard : ∀ {c n}, (t.pc c).past n = true → t.asks c n = true → (t.cb c).sem = 0 →
      t.Heard ((∃ v, v ≠ w ∧ t.Walks v c n) ∨ n = fd ∧ c ∈ t.list) c n := by
    intro c n hp ha hsem
    obtain ⟨hlast', hevent, hcounts⟩ := h.heard hp ha hsem
    refine ⟨fun hs hr => ?_, fun hs hask => ?_, hcounts⟩
    · have hold := hlast' (hasSocket_setSock hconn hs) hr
      by_cases hn : n = fd
      · subst hn
        rw [setSock_self, hlast]
        exact hold
      · rw [setSock_ne hn]
        exact hold
    · by_cases hn : n = fd
      · exact .inr ⟨hn, h.mem.2 (Pc.past_spec hp).1⟩
      · rw [setSock_ne hn] at hask
        obtain ⟨v, hv⟩ := hevent (hasSocket_setSock hconn hs) hask
        refine .inl ⟨v, ?_, hv⟩
        rintro rfl
        obtain ⟨scb, ctr, next', hwalk, -⟩ := hv
        exact nomatch hpc.symm.trans hwalk
  refine ⟨fun hzero => ?_, hregs.walkTo hoff (List.suffix_refl _) hheard⟩
  -- nobody is registered at the socket, so nobody is past it
  have hnil : Inv (t.walkTo w fd next []) := by
    refine hregs.walkTo hoff List.nil_suffix fun {c n} hp ha hsem => ?_
    refine ⟨(hheard hp ha hsem).last, fun hs hask => ?_, (hheard hp ha hsem).counts⟩
    rcases (hheard hp ha hsem).event hs hask with hW | ⟨rfl, hmem⟩
    · exact .inl hW
    · have hcount := hregs.waiting hs
      rw [hzero] at hcount
      have hno := List.countP_eq_zero.1 hcount.symm c hmem
      refine absurd ?_ hno
      rw [registered, ha, (Pc.past_spec hp).2.1]
      rfl
  exact hnil

theorem Inv.walkOn (h : Inv s) {scb ctr : ℕ} {next : Next} (hpc : s.pc w = .walk fd scb ctr next) :
    Inv (s.walkTo w fd next (s.before scb ctr)) := by
  refine h.toRegs.walkTo (by rw [hpc]; rfl) (s.before_suffix scb ctr) fun {c n} hp ha hsem => ?_
  refine (h.heard hp ha hsem).mono ?_
  rintro ⟨v, hv⟩
  by_cases hvw : v = w
  · subst hvw
    obtain ⟨scb', ctr', next', hwalk, hmem⟩ := hv
    obtain ⟨rfl, rfl, rfl, rfl⟩ := Pc.walk.inj (hpc.symm.trans hwalk)
    exact .inr ⟨rfl, hmem⟩
  · exact .inl ⟨v, hvw, hv⟩

theorem before_changed {scb ctr : ℕ} (h : ctr < s.ctr) : s.before scb ctr = s.list := by
  rw [before, if_neg (Nat.ne_of_lt h)]

theorem Inv.enlist (h : Inv s) (hpc : s.pc w = .enlist) :
    Inv (({ s with list := w :: s.list, ctr := s.ctr + 1 }.setCb w ⟨(s.cb w).args, false, 0⟩).setPc w (.reg 0)) := by
  have hw : w ∉ s.list := fun hmem => by
    have hon := h.mem.1 hmem
    rw [hpc] at hon
    cases hon
  have hcb : ∀ {c}, c ≠ w →
      (({ s with list := w :: s.list, ctr := s.ctr + 1 }.setCb w ⟨(s.cb w).args, false, 0⟩).setPc w (.reg 0)).cb c =
        s.cb c := fun hc => setCb_ne hc
  have hreg : ∀ fd c,
      (({ s with list := w :: s.list, ctr := s.ctr + 1 }.setCb w ⟨(s.cb w).args, false, 0⟩).setPc w (.reg 0)).registered
        fd c = s.registered fd c := by
    intro fd c
    by_cases hc : c = w
    · subst hc
      rw [registered, registered, setPc_self, hpc]
      simp [Pc.registered]
    · rw [registered, registered, asks, asks, hcb hc, setPc_ne hc]
      rfl
  refine ⟨⟨List.nodup_cons.2 ⟨hw, h.nodup⟩, fun {c} => ?_, fun {fd} hs => ?_,
      fun he hr => h.psem he ((hreg _ _).symm.trans hr),
    h.counts, h.writes, fun {c} ha hb => ?_, fun {v fd scb ctr next} hv => ?_, fun {v i m again} hv => ?_⟩,
    fun {c fd} hp ha hsem => ?_⟩
  · change c ∈ w :: s.list ↔ _
    by_cases hc : c = w
    · subst hc
      rw [setPc_self]
      exact ⟨fun _ => rfl, fun _ => List.mem_cons_self⟩
    · rw [setPc_ne hc, List.mem_cons, or_iff_right hc]
      exact h.mem
  · change (s.socks fd).selectWaiting = (w :: s.list).countP _
    rw [List.countP_congr fun c _ => by rw [hreg fd c], List.countP_cons_of_neg, h.waiting hs]
    rw [registered, hpc]
    simp [Pc.registered]
  · by_cases hc : c = w
    · subst hc
      change ((State.setCb _ c _).cb c).semSignalled = true at hb
      rw [setCb_self] at hb
      cases hb
    · rw [hcb hc] at hb ⊢
      rw [setPc_ne hc] at ha
      exact h.signalled ha hb
  · by_cases hc : v = w
    · subst hc
      rw [setPc_self] at hv
      cases hv
    · rw [setPc_ne hc] at hv
      have hle := (h.walk hv).1
      change ctr ≤ s.ctr + 1 ∧ (ctr = s.ctr + 1 → _)
      exact ⟨by omega, fun heq => by omega⟩
  · by_cases hc : v = w
    · subst hc
      rw [setPc_self] at hv
      cases hv
    · rw [setPc_ne hc] at hv
      rw [hcb hc]
      exact h.leave hv
  · have hc : c ≠ w := by
      rintro rfl
      rw [setPc_self] at hp
      cases hp
    rw [setPc_ne hc] at hp
    rw [hcb hc] at hsem
    rw [asks, hcb hc] at ha
    obtain ⟨hlast, hevent, hcounts⟩ := h.heard hp ha hsem
    refine ⟨fun hs hr => ?_, fun hs hask => ?_, fun he hr => ?_⟩
    · rw [hcb hc] at hr
      exact hlast hs hr
    · rw [hcb hc] at hask
      obtain ⟨v, scb, ctr, next, hwalk, -⟩ := hevent hs hask
      refine ⟨v, scb, ctr, next, (setPc_ne ?_).trans hwalk, ?_⟩
      · rintro rfl
        cases hpc.symm.trans hwalk
      · rw [before_changed (Nat.lt_succ_of_le (h.walk hwalk).1)]
        exact List.mem_cons_of_mem _ (h.mem.2 (Pc.past_spec hp).1)
    · rw [hcb hc] at hr
      exact hcounts he hr

/-- **Off the list**: all walks begin again, and come to the callers that are left. -/
theorem Inv.delist (h : Inv s) {again : Bool} (hpc : s.pc w = .delist again) (hp : p.onList = false)
    (hnew : ∀ {fd scb ctr next}, p ≠ .walk fd scb ctr next) :
    Inv ({ s with list := s.list.erase w, ctr := s.ctr + 1 }.setPc w p) := by
  obtain ⟨hreg, hpast, hawaits⟩ := Pc.off_spec hp
  have hregistered : ∀ fd c, ({ s with list := s.list.erase w, ctr := s.ctr + 1 }.setPc w p).registered fd c =
      s.registered fd c := by
    intro fd c
    by_cases hc : c = w
    · subst hc
      rw [registered, registered, setPc_self, hpc, hreg]
      simp [Pc.registered]
    · rw [registered, registered, setPc_ne hc]
      rfl
  refine ⟨⟨h.nodup.erase w, fun {c} => ?_, fun {fd} hs => ?_, fun he hr => h.psem he ((hregistered _ _).symm.trans hr),
    h.counts, h.writes, fun {c} ha hb => ?_, fun {v fd scb ctr next} hv => ?_, fun {v i m again} hv => ?_⟩,
    fun {c fd} hpc' ha hsem => ?_⟩
  · change c ∈ s.list.erase w ↔ _
    rw [h.nodup.mem_erase_iff]
    by_cases hc : c = w
    · subst hc
      rw [setPc_self, hp]
      exact ⟨fun hmem => absurd rfl hmem.1, by rintro ⟨⟩⟩
    · rw [setPc_ne hc]
      exact ⟨fun hmem => h.mem.1 hmem.2, fun hon => ⟨hc, h.mem.2 hon⟩⟩
  · change (s.socks fd).selectWaiting = (s.list.erase w).countP _
    rw [List.countP_congr fun c _ => by rw [hregistered fd c], h.waiting hs]
    have hno : s.registered fd w = false := by
      rw [registered, hpc]
      simp [Pc.registered]
    have hmem : w ∈ s.list := h.mem.2 (by rw [hpc]; rfl)
    rw [(List.perm_cons_erase hmem).countP_eq, List.countP_cons_of_neg (by rw [hno]; exact Bool.false_ne_true)]
  · by_cases hc : c = w
    · subst hc
      rw [setPc_self] at ha
      cases hawaits.symm.trans ha
    · rw [setPc_ne hc] at ha
      exact h.signalled ha hb
  · by_cases hc : v = w
    · subst hc
      rw [setPc_self] at hv
      exact absurd hv hnew
    · rw [setPc_ne hc] at hv
      have hle := (h.walk hv).1
      change ctr ≤ s.ctr + 1 ∧ (ctr = s.ctr + 1 → _)
      exact ⟨by omega, fun heq => by omega⟩
  · by_cases hc : v = w
    · subst hc
      rw [setPc_self] at hv
      rw [hv] at hp
      cases hp
    · rw [setPc_ne hc] at hv
      exact h.leave hv
  · have hc : c ≠ w := by
      rintro rfl
      rw [setPc_self] at hpc'
      cases (hpast fd).symm.trans hpc'
    rw [setPc_ne hc] at hpc'
    refine ⟨(h.heard hpc' ha hsem).last, fun hs hask => ?_, (h.heard hpc' ha hsem).counts⟩
    obtain ⟨v, scb, ctr, next, hwalk, -⟩ := (h.heard hpc' ha hsem).event hs hask
    refine ⟨v, scb, ctr, next, (setPc_ne ?_).trans hwalk, ?_⟩
    · rintro rfl
      cases hpc.symm.trans hwalk
    · rw [before_changed (Nat.lt_succ_of_le (h.walk hwalk).1)]
      exact (h.nodup.mem_erase_iff).2 ⟨hc, h.mem.2 (Pc.past_spec hpc').1⟩

theorem ready_zero {x : Args} (h : s.ready x fd = 0) :
    (s.hasSocket fd = true → (x.readset fd = true → (s.socks fd).lastdata = none) ∧ asked x (s.socks fd) fd = false) ∧
      (s.hasEvent fd = true → x.readset fd = true → scanReads (s.events fd) ≤ 0) := by
  rw [ready] at h
  refine ⟨fun hs => ?_, fun he hr => ?_⟩
  · rw [if_pos hs] at h
    simp only [Nat.add_eq_zero_iff, Bool.toNat_eq_zero] at h
    obtain ⟨⟨hread, hwrite⟩, herr⟩ := h
    refine ⟨fun hr => ?_, ?_⟩
    · rw [hr, Bool.true_and, Bool.or_eq_false_iff] at hread
      exact Option.not_isSome_iff_eq_none.1 (Bool.eq_false_iff.1 hread.1)
    · rw [asked, Bool.and_comm _ (x.readset fd), Bool.and_comm _ (x.writeset fd), Bool.and_comm _ (x.exceptset fd),
        hwrite, herr, Bool.or_false, Bool.or_false]
      cases hr : x.readset fd with
      | false => rfl
      | true =>
        rw [hr, Bool.true_and, Bool.or_eq_false_iff] at hread
        exact hread.2
  · have hs : s.hasSocket fd = false := by
      by_contra hs
      exact nomatch (hasEvent_not (Bool.not_eq_false _ ▸ hs)).symm.trans he
    rw [hs, if_neg Bool.false_ne_true, if_pos he] at h
    simp only [Nat.add_eq_zero_iff, Bool.toNat_eq_zero] at h
    have hread := h.1
    rw [hr, Bool.true_and, decide_eq_false_iff_not] at hread
    exact Int.not_lt.1 hread

/-- The second scan: what it was past it has heard of, and of what it passes it finds nothing ready. -/
theorem Inv.scanSecond (h : Inv s) {i nready : ℕ} (hpc : s.pc w = .scan .second i nready) :
    Inv (s.setPc w (.scan .second (i + 1)
      (nready + if (s.cb w).args.has i then s.ready (s.cb w).args i else 0))) := by
  refine ⟨h.toRegs.setPc (by rw [hpc]; rfl) (fun fd _ => by rw [hpc]; rfl) (fun _ => by rw [hpc]; rfl) nofun nofun,
    fun {c fd} hp ha hsem => ?_⟩
  have hwalks : (∃ v, s.Walks v c fd) → ∃ v, (s.setPc w (.scan .second (i + 1)
      (nready + if (s.cb w).args.has i then s.ready (s.cb w).args i else 0))).Walks v c fd := by
    rintro ⟨v, hv⟩
    refine ⟨v, hv.setPc ?_⟩
    rintro rfl
    obtain ⟨scb, ctr, next, hwalk, -⟩ := hv
    exact nomatch hpc.symm.trans hwalk
  by_cases hc : c = w
  · subst hc
    rw [setPc_self] at hp
    obtain ⟨hz, hlt⟩ : (nready + if (s.cb c).args.has i then s.ready (s.cb c).args i else 0) = 0 ∧ fd < i + 1 := by
      generalize hn : (nready + if (s.cb c).args.has i then s.ready (s.cb c).args i else 0) = n at hp
      cases n with
      | zero => exact ⟨rfl, of_decide_eq_true hp⟩
      | succ n => exact nomatch hp
    obtain ⟨hn, hr⟩ := Nat.add_eq_zero_iff.1 hz
    by_cases hi : fd < i
    · refine (h.heard ?_ ha hsem).setPc.mono hwalks
      rw [hpc, hn]
      exact decide_eq_true hi
    · obtain rfl : fd = i := by omega
      have has : (s.cb c).args.has fd = true := (Bool.and_eq_true _ _ ▸ (show s.asks c fd = true from ha)).2
      rw [if_pos has] at hr
      obtain ⟨hsock, hevent⟩ := ready_zero hr
      refine ⟨fun hs => (hsock hs).1, fun hs hask => (nomatch (hsock hs).2.symm.trans hask), fun he hread => ?_⟩
      by_contra hne
      exact Int.not_le.2 (h.counts he hne) (hevent he hread)
  · rw [setPc_ne hc] at hp
    exact (h.heard hp ha hsem).setPc.mono hwalks

/-! ### Registration -/

theorem countP_more {l : List ℕ} {f g : ℕ → Bool} (hl : l.Nodup) (hw : w ∈ l) (hf : f w = false) (hg : g w = true)
    (heq : ∀ c, c ≠ w → f c = g c) : l.countP g = l.countP f + 1 := by
  induction l with
  | nil => exact nomatch hw
  | cons a l ih =>
    obtain ⟨ha, hl⟩ := List.nodup_cons.1 hl
    by_cases haw : a = w
    · subst haw
      have hrest : l.countP g = l.countP f := List.countP_congr fun c hc => by
        rw [heq c fun hca => ha (hca ▸ hc)]
      rw [List.countP_cons_of_pos hg, List.countP_cons_of_neg (by rw [hf]; exact Bool.false_ne_true), hrest]
    · rcases List.mem_cons.1 hw with hw | hw
      · exact absurd hw.symm haw
      · have hcount := ih hl hw
        cases hfa : f a with
        | false =>
          have hga : g a = false := (heq a haw).symm.trans hfa
          rw [List.countP_cons_of_neg (by rw [hga]; exact Bool.false_ne_true),
            List.countP_cons_of_neg (by rw [hfa]; exact Bool.false_ne_true), hcount]
        | true =>
          have hga : g a = true := (heq a haw).symm.trans hfa
          rw [List.countP_cons_of_pos hga, List.countP_cons_of_pos hfa, hcount]

/-- What a socket and an eventfd know of the tasks registered there. -/
def know (s : State) (i n : ℕ) (o : Option ℕ) : State :=
  (s.setSock i { s.socks i with selectWaiting := n }).setEvent i { s.events i with psem := o }

theorem know_has (s : State) (i n : ℕ) (o : Option ℕ) (fd : ℕ) :
    (s.know i n o).hasSocket fd = s.hasSocket fd ∧ (s.know i n o).hasEvent fd = s.hasEvent fd := by
  by_cases hi : fd = i
  · subst hi
    rw [hasSocket, hasEvent, know, setEvent_self]
    change (_ && ((s.setSock fd _).socks fd).conn) = _ ∧ _
    rw [setSock_self]
    exact ⟨rfl, rfl⟩
  · rw [hasSocket, hasEvent, know, setEvent_ne hi]
    change (_ && ((s.setSock i _).socks fd).conn) = _ ∧ _
    rw [setSock_ne hi]
    exact ⟨rfl, rfl⟩

theorem know_same (s : State) (i n : ℕ) (o : Option ℕ) (fd : ℕ) :
    ((s.know i n o).events fd).counts = (s.events fd).counts ∧
      ((s.know i n o).events fd).writes = (s.events fd).writes ∧
      scanReads ((s.know i n o).events fd) = scanReads (s.events fd) ∧
      ((s.know i n o).socks fd).lastdata = (s.socks fd).lastdata ∧
      ∀ x, asked x ((s.know i n o).socks fd) fd = asked x (s.socks fd) fd := by
  by_cases hi : fd = i
  · subst hi
    rw [know, setEvent_self]
    change _ ∧ _ ∧ _ ∧ ((s.setSock fd _).socks fd).lastdata = _ ∧ ∀ x, asked x ((s.setSock fd _).socks fd) fd = _
    rw [setSock_self]
    exact ⟨rfl, rfl, rfl, rfl, fun _ => rfl⟩
  · rw [know, setEvent_ne hi]
    change _ ∧ _ ∧ _ ∧ ((s.setSock i _).socks fd).lastdata = _ ∧ ∀ x, asked x ((s.setSock i _).socks fd) fd = _
    rw [setSock_ne hi]
    exact ⟨rfl, rfl, rfl, rfl, fun _ => rfl⟩

/-- A task registers on a descriptor, or leaves it, and comes to another place. -/
theorem Inv.know (h : Inv s) {i : ℕ} {o : Option ℕ} (hon : p.onList = (s.pc w).onList)
    (hreg : ∀ fd, fd ≠ i → s.asks w fd = true → p.registered fd = (s.pc w).registered fd)
    (hpast : ∀ fd, p.past fd = false) (hawaits : p.awaits = true → (s.pc w).awaits = true)
    (hnew : ∀ {fd scb ctr next}, p ≠ .walk fd scb ctr next) (hold : (s.pc w).onList = true)
    (hleave : ∀ {i m again}, p = .leave i m again → m ≤ (s.cb w).args.maxfdp1)
    (hwait : s.hasSocket i = true → n = s.list.countP ((s.setPc w p).registered i))
    (hpsem : ∀ {c}, s.hasEvent i = true → (s.setPc w p).registered i c = true → o = some c) :
    Inv ((s.know i n o).setPc w p) := by
  have hsame : ∀ fd, fd ≠ i → ∀ c, (s.setPc w p).registered fd c = s.registered fd c := by
    intro fd hfd c
    by_cases hc : c = w
    · subst hc
      change (s.asks c fd && ((s.setPc c p).pc c).registered fd) = (s.asks c fd && (s.pc c).registered fd)
      rw [setPc_self]
      cases ha : s.asks c fd with
      | false => rfl
      | true => rw [hreg fd hfd ha]
    · change (s.asks c fd && ((s.setPc w p).pc c).registered fd) = (s.asks c fd && (s.pc c).registered fd)
      rw [setPc_ne hc]
  have hpc : ∀ {c}, c ≠ w → ((s.know i n o).setPc w p).pc c = s.pc c := fun hc => setPc_ne hc
  refine ⟨⟨h.nodup, fun {c} => ?_, fun {fd} hs => ?_, fun {c fd} he hr => ?_, fun {fd} he hne => ?_, fun fd => ?_,
    fun {c} ha hb => ?_, fun {v fd scb ctr next} hv => ?_, fun {v i m again} hv => ?_⟩, fun {c fd} hp ha hsem => ?_⟩
  · by_cases hc : c = w
    · subst hc
      rw [setPc_self, hon]
      exact h.mem
    · rw [hpc hc]
      exact h.mem
  · have hs' : s.hasSocket fd = true := (s.know_has i n o fd).1.symm.trans hs
    change ((s.setSock i _).socks fd).selectWaiting = s.list.countP ((s.setPc w p).registered fd)
    by_cases hi : fd = i
    · subst hi
      rw [setSock_self]
      exact hwait hs'
    · rw [setSock_ne hi, List.countP_congr fun c _ => by rw [hsame fd hi c]]
      exact h.waiting hs'
  · have he' : s.hasEvent fd = true := (s.know_has i n o fd).2.symm.trans he
    have hr' : (s.setPc w p).registered fd c = true := hr
    change ((State.setEvent _ i _).events fd).psem = some c
    by_cases hi : fd = i
    · subst hi
      rw [setEvent_self]
      exact hpsem he' hr'
    · rw [setEvent_ne hi]
      exact h.psem he' ((hsame fd hi c).symm.trans hr')
  · have he' : s.hasEvent fd = true := (s.know_has i n o fd).2.symm.trans he
    obtain ⟨hcounts, -, hscan, -⟩ := s.know_same i n o fd
    have hne' : (s.events fd).counts ≠ 0 := fun hz => hne (hcounts.trans hz)
    change 0 < scanReads ((s.know i n o).events fd)
    rw [hscan]
    exact h.counts he' hne'
  · exact (s.know_same i n o fd).2.1.trans (h.writes fd)
  · by_cases hc : c = w
    · subst hc
      rw [setPc_self] at ha
      exact h.signalled (hawaits ha) hb
    · rw [hpc hc] at ha
      exact h.signalled ha hb
  · by_cases hc : v = w
    · subst hc
      rw [setPc_self] at hv
      exact absurd hv hnew
    · rw [hpc hc] at hv
      exact h.walk hv
  · by_cases hc : v = w
    · subst hc
      rw [setPc_self] at hv
      exact hleave hv
    · rw [hpc hc] at hv
      exact h.leave hv
  · have hc : c ≠ w := by
      rintro rfl
      rw [setPc_self] at hp
      exact nomatch (hpast fd).symm.trans hp
    rw [hpc hc] at hp
    obtain ⟨hlast, hevent, hcounts⟩ := h.heard hp ha hsem
    obtain ⟨hhas, hhasEvent⟩ := s.know_has i n o fd
    obtain ⟨hsame, -, -, hdata, hasked⟩ := s.know_same i n o fd
    refine ⟨fun hs hr => hdata.trans (hlast (hhas.symm.trans hs) hr), fun hs hask => ?_,
      fun he hr => hsame.trans (hcounts (hhasEvent.symm.trans he) hr)⟩
    · have hask' : asked (s.cb c).args (s.socks fd) fd = true := (hasked _).symm.trans hask
      obtain ⟨v, scb, ctr, next, hwalk, hmem⟩ := hevent (hhas.symm.trans hs) hask'
      refine ⟨v, scb, ctr, next, (hpc ?_).trans hwalk, hmem⟩
      rintro rfl
      rw [hwalk] at hold
      exact nomatch hold

theorem know_sock (s : State) (i n : ℕ) :
    s.setSock i { s.socks i with selectWaiting := n } = s.know i n (s.events i).psem := by
  have heq : Function.update s.events i { s.events i with psem := (s.events i).psem } = s.events :=
    Function.update_eq_self i s.events
  rw [know, setEvent, setSock]
  change _ = { s with socks := _, events := Function.update s.events i _ }
  rw [heq]

theorem know_event (s : State) (i : ℕ) (o : Option ℕ) :
    s.setEvent i { s.events i with psem := o } = s.know i (s.socks i).selectWaiting o := by
  have heq : Function.update s.socks i { s.socks i with selectWaiting := (s.socks i).selectWaiting } = s.socks :=
    Function.update_eq_self i s.socks
  rw [know, setSock, heq]

/-- The places of a registration and of the end of one differ at one descriptor. -/
theorem registered_off {i fd : ℕ} (m : ℕ) (again : Bool) (h : fd ≠ i) :
    Pc.registered fd (.reg (i + 1)) = Pc.registered fd (.reg i) ∧
      Pc.registered fd (.leave (i + 1) m again) = Pc.registered fd (.leave i m again) := by
  simp only [Pc.registered]
  constructor
  · exact decide_eq_decide.2 (by omega)
  · rw [show decide (i + 1 ≤ fd) = decide (i ≤ fd) from decide_eq_decide.2 (by omega)]

theorem Inv.regAt (h : Inv s) {i : ℕ} (hpc : s.pc w = .reg i) (ha : s.asks w i = true)
    (hm : s.meets (w, .go) = true) : Inv (s.regAt w i) := by
  have hmem : w ∈ s.list := h.mem.2 (by rw [hpc]; rfl)
  have hnot : s.registered i w = false := by
    rw [registered, hpc]
    simp [Pc.registered]
  have hreg : ∀ fd, fd ≠ i → s.asks w fd = true → Pc.registered fd (.reg (i + 1)) = (s.pc w).registered fd := by
    intro fd hfd _
    rw [hpc]
    exact (registered_off 0 true hfd).1
  have hself : (s.setPc w (.reg (i + 1))).registered i w = true := by
    change (s.asks w i && ((s.setPc w (.reg (i + 1))).pc w).registered i) = true
    rw [setPc_self, ha]
    simp [Pc.registered]
  have hother : ∀ c, c ≠ w → s.registered i c = (s.setPc w (.reg (i + 1))).registered i c := by
    intro c hc
    change _ = (s.asks c i && ((s.setPc w (.reg (i + 1))).pc c).registered i)
    rw [setPc_ne hc]
    rfl
  simp only [meets, hpc, ha, Bool.not_true, Bool.false_or] at hm
  rw [State.regAt]
  by_cases hs : s.hasSocket i = true
  · rw [if_pos hs] at hm ⊢
    have hlt : (s.socks i).selectWaiting + 1 < SELWAIT_SIZE := of_decide_eq_true hm
    dsimp only
    rw [Nat.mod_eq_of_lt hlt, know_sock]
    refine h.know (by rw [hpc]; rfl) hreg (fun _ => rfl) (fun _ => by rw [hpc]; rfl) (fun h => by cases h)
      (by rw [hpc]; rfl) (fun h => by cases h) (fun _ => ?_) fun he => by cases (hasEvent_not hs).symm.trans he
    rw [countP_more h.nodup hmem hnot hself hother, h.waiting hs]
  · rw [if_neg hs] at hm ⊢
    by_cases he : s.hasEvent i = true
    · rw [he, Bool.not_true, Bool.false_or] at hm
      rw [if_pos he, know_event]
      refine h.know (by rw [hpc]; rfl) hreg (fun _ => rfl) (fun _ => by rw [hpc]; rfl) (fun h => by cases h)
        (by rw [hpc]; rfl) (fun h => by cases h) (fun hs' => absurd hs' hs) fun {c} _ hr => ?_
      -- the eventfd had no semaphore, so no other task is registered there
      by_cases hc : c = w
      · rw [hc]
      · have hpsem := h.psem he ((hother c hc).trans hr)
        rw [hpsem] at hm
        cases hm
    · rw [if_neg he]
      refine h.setPc (by rw [hpc]; rfl) (fun fd _ => ?_) (fun _ _ h => by cases h) (fun h => by cases h)
        (fun h => by cases h) (fun hwalk => by cases hpc.symm.trans hwalk) ?_
      · rw [hpc]
        simp [Pc.registered]
      · rintro _ m _ heq
        obtain ⟨-, rfl, -⟩ := Pc.leave.inj heq
        exact Nat.le_of_lt (of_decide_eq_true (Bool.and_eq_true _ _ ▸ (show s.asks w _ = true from ha)).1)

theorem Inv.leaveAt (h : Inv s) {i m : ℕ} {again : Bool} (hpc : s.pc w = .leave i m again) (hi : i < m)
    (ha : s.asks w i = true) : Inv (s.leaveAt w i m again) := by
  have hmem : w ∈ s.list := h.mem.2 (by rw [hpc]; rfl)
  have hself : s.registered i w = true := by
    rw [registered, hpc, ha]
    simp [Pc.registered, hi]
  have hreg : ∀ b fd, fd ≠ i → s.asks w fd = true → Pc.registered fd (.leave (i + 1) m b) = (s.pc w).registered fd := by
    intro b fd hfd _
    rw [hpc]
    exact (registered_off _ _ hfd).2
  have hnot : ∀ b, (s.setPc w (.leave (i + 1) m b)).registered i w = false := by
    intro b
    change (s.asks w i && ((s.setPc w (.leave (i + 1) m b)).pc w).registered i) = false
    rw [setPc_self, Pc.registered, decide_eq_false (Nat.not_succ_le_self i), Bool.false_and, Bool.and_false]
  have hother : ∀ b c, c ≠ w → (s.setPc w (.leave (i + 1) m b)).registered i c = s.registered i c := by
    intro b c hc
    change (s.asks c i && ((s.setPc w (.leave (i + 1) m b)).pc c).registered i) = _
    rw [setPc_ne hc]
    rfl
  have hleave : ∀ b, ∀ {j m' again'}, Pc.leave (i + 1) m b = .leave j m' again' → m' ≤ (s.cb w).args.maxfdp1 := by
    intro b j m' again' heq
    obtain ⟨-, rfl, -⟩ := Pc.leave.inj heq
    exact h.leave hpc
  rw [State.leaveAt]
  by_cases hs : s.hasSocket i = true
  · rw [if_pos hs]
    dsimp only
    rw [know_sock]
    refine h.know (by rw [hpc]; rfl) (hreg again) (fun _ => rfl) (fun h => by cases h) (fun h => by cases h)
      (by rw [hpc]; rfl) (hleave again) (fun _ => ?_) fun he => by cases (hasEvent_not hs).symm.trans he
    rw [h.waiting hs, countP_more h.nodup hmem (hnot again) hself (hother again)]
    rfl
  · rw [if_neg hs]
    by_cases he : s.hasEvent i = true
    · rw [if_pos he, know_event]
      refine h.know (by rw [hpc]; rfl) (hreg again) (fun _ => rfl) (fun h => by cases h) (fun h => by cases h)
        (by rw [hpc]; rfl) (hleave again) (fun hs' => absurd hs' hs) fun {c} _ hr => ?_
      -- who is registered at the eventfd is the task that leaves
      by_cases hc : c = w
      · subst hc
        cases (hnot again).symm.trans hr
      · have hpsem := h.psem he ((hother again c hc).symm.trans hr)
        exact absurd (Option.some.inj (hpsem.symm.trans (h.psem he hself))) hc
    · rw [if_neg he]
      have hknow : s.know i (s.socks i).selectWaiting (s.events i).psem = s := by
        rw [← know_event]
        exact congrArg (fun f => { s with events := f }) (Function.update_eq_self i s.events)
      have hgone := h.know (i := i) (n := (s.socks i).selectWaiting) (o := (s.events i).psem) (w := w)
        (p := .leave (i + 1) m false) (by rw [hpc]; rfl) (hreg false) (fun _ => rfl) (fun h => by cases h)
        (fun h => by cases h) (by rw [hpc]; rfl) (hleave false) (fun hs' => absurd hs' hs) fun he' => absurd he' he
      rwa [hknow] at hgone

/-! ## The steps of the others -/

theorem Inv.writeAt (h : Inv s) {v : ℕ} (hpc : s.pc w = .write fd v) (hm : s.meets (w, .go) = true) :
    Inv (s.writeAt fd v) := by
  simp only [meets, hpc, Bool.or_eq_true, decide_eq_true_eq, Bool.not_eq_true'] at hm
  rw [State.writeAt]
  by_cases hz : ((s.events fd).counts + v) % 2 ^ 64 = 0
  · rw [if_pos hz]
    exact h.setEvent id (h.writes fd) (fun _ => rfl) (fun _ _ hne => absurd rfl hne) fun _ _ _ _ _ _ => rfl
  · rw [if_neg hz]
    have hcounts : s.hasEvent fd = true →
        0 < (((((s.events fd).counts + v) % 2 ^ 64 : ℕ) : ℤ).bmod (2 ^ 32)).bmod (2 ^ 16) := by
      intro he
      rcases hm with (hm | hm) | hm
      · cases hm.symm.trans he
      · exact absurd hm hz
      · rw [Int.bmod_bmod_of_dvd (by decide)]
        exact hm
    split
    · rename_i hnone
      refine h.setEvent id (h.writes fd) (fun _ => rfl) (fun _ he _ => by dsimp only [scanReads]; exact hcounts he)
          fun {c} _ he hp ha hsem hr => ?_
      have hreg : s.registered fd c = true := by
        rw [registered, ha, (Pc.past_spec hp).2.1]
        rfl
      cases hnone.symm.trans (h.psem he hreg)
    · rename_i c hsome
      have hsig : Inv (s.setCb c { s.cb c with sem := (s.cb c).sem + 1 }) := h.setCb rfl fun _ => Nat.succ_ne_zero _
      have hreads : s.hasEvent fd = true → 0 < scanReads { s.events fd with
          counts := ((s.events fd).counts + v) % 2 ^ 64
          reads := ((((s.events fd).counts + v) % 2 ^ 64 : ℕ) : ℤ).bmod (2 ^ 32) } := by
        intro he
        dsimp only [scanReads]
        exact hcounts he
      refine Inv.setEvent hsig id (h.writes fd) (fun _ => rfl) (fun _ he _ => hreads he)
        fun {n} _ he hp ha hsem hr => ?_
      -- the caller that waits for the eventfd is the one that is signalled
      have hreg : (s.setCb c { s.cb c with sem := (s.cb c).sem + 1 }).registered fd n = true := by
        rw [registered, ha, (Pc.past_spec hp).2.1]
        rfl
      have hpsem : (s.events fd).psem = some n := hsig.psem he hreg
      obtain rfl := Option.some.inj (hsome.symm.trans hpsem)
      rw [setCb_self] at hsem
      cases hsem

end Sal.Select.State
