/-
  Object sets neither miss nor duplicate notifications, but for a send whose
  test of `handle` and whose unit are on different sides of an insertion.

  The entries in the queue and in the hands of the owner, those still to be sent
  and the units held by the object are in balance (`SetInv`).  A send breaks the
  balance when it finds no `handle` after an insertion that has not counted its
  unit, or a `handle` set by one that has (`SetOk`).
-/
import AliOS.Rhino.KobjSet
import AliOS.Rhino.QueueRun
import AliOS.Rhino.BufQueueRun

namespace Rhino

open Lib

variable {w : ℕ}

/-! ## The sends and the takes -/

section
variable {k k' : Kernel w} {sem : Sem} {q : KQueue} {b : KBufQueue} {fuel ptrSize size : ℕ}
  {msg : ℕ → UInt8} {ticks : BitVec w}

theorem handed_of_served {o : ObjId} {t : TaskId} {ts : List TaskId} {read : Task w → List UInt8}
    {a : List UInt8} (hl : (k.objs o).blkList = t :: ts) (hs : Served o read [t] a k k')
    (count : ℕ) :
    SendOutcome ⟨(k.objs o).objType, count, (k.objs o).blkList⟩ false
      ⟨(k'.objs o).objType, count, (k'.objs o).blkList⟩ := by
  rw [(hs.kind o).1]
  exact .handed (by simp [hl])

theorem sendOutcome_krhinoSemGive (hk : PendWf k) {r : GiveResult w}
    (h : krhinoSemGive fuel k sem = some r) :
    SendOutcome (sem.setObj k) (r.stat = .success ∧ r.served = []) (r.sem.setObj r.k) := by
  unfold krhinoSemGive semGive at h
  split at h
  · cases h
    exact .refused
  split at h
  · rename_i hl
    split at h
    · cases h
      exact .refused
    · cases h
      exact .counted hl
  · rename_i t ts hl
    cases h
    have hon : (k.tasks t).on sem.blkObj := (hk.mem _ t).1 (by simp [hl])
    rw [decide_eq_false (by simp)]
    exact handed_of_served hl (served_pendTaskWakeup hk hon) sem.count

theorem sendOutcome_krhinoQueueBackSend (hk : PendWf k) {r : SendResult w}
    (h : krhinoQueueBackSend fuel ptrSize k q msg = some r) :
    SendOutcome (q.setObj k) (r.stat = .success ∧ r.served = []) (r.q.setObj r.k) := by
  unfold krhinoQueueBackSend msgSend at h
  split at h
  · cases h
    exact .refused
  split at h
  · cases h
    exact .refused
  split at h
  · rename_i hl
    cases h
    exact .counted hl
  · rename_i t ts hl
    cases h
    have hon : (k.tasks t).on q.blkObj := (hk.mem _ t).1 (by simp [hl])
    rw [decide_eq_false (by simp)]
    exact handed_of_served hl (served_taskMsgRecv ptrSize hk hon msg) q.msgQ.curNum

theorem sendOutcome_krhinoBufQueueSend (hk : PendWf k) {r : BufSendResult w}
    (h : krhinoBufQueueSend k b msg size = r) :
    SendOutcome (b.setObj k) (r.stat = .success ∧ r.served = none) (r.q.setObj r.k) := by
  subst h
  unfold krhinoBufQueueSend bufQueueSend
  split
  · exact .refused
  split
  · exact .refused
  split
  · exact .refused
  split
  · rename_i hl
    simp only [Bool.false_eq_true, if_false]
    split
    · rename_i hfail
      rw [decide_eq_false]
      · exact .refused
      · rintro ⟨hs, -⟩
        split at hs
        · cases hs
        · exact hfail hs
    · exact SendOutcome.counted (o := b.setObj k) hl
  · rename_i t ts hl
    have hon : (k.tasks t).on b.blkObj := (hk.mem _ t).1 (by simp [hl])
    have hs : Served b.blkObj bufOf [t] (slice msg 0 size) k ((k.updTask t fun x =>
        { x with msg := memcpy x.msg 0 msg size, bqMsgSize := size }).pendTaskWakeup t) :=
      served_wakeup hk readsMsg_bufOf hon (fun _ => rfl) (fun _ => rfl) (fun _ => rfl)
        slice_memcpy_same
    rw [decide_eq_false (by simp)]
    exact handed_of_served hl hs b.curNum

/-- What a take by a task does to the object: it has a unit, or there is none. -/
inductive TakeOutcome (o : SetObj) : SetObj → Prop
  | taken {n} (hc : o.count = n + 1) : TakeOutcome o { o with count := n }
  | none (hc : o.count = 0) : TakeOutcome o o

theorem takeOutcome_krhinoSemTake {sem' : Sem} {stat : KStat} (hn : k.intrptNestedLevel = 0)
    (ht : (k.objs sem.blkObj).objType = .sem) (h : krhinoSemTake k sem ticks = .ret stat sem') :
    TakeOutcome (sem.setObj k) (sem'.setObj k) := by
  unfold krhinoSemTake at h
  rw [if_neg (by omega), if_neg (not_not.2 ht)] at h
  split at h
  · rename_i hc
    cases h
    exact .taken (o := sem.setObj k) (Nat.succ_pred_eq_of_pos hc).symm
  · rename_i hc
    have h₀ : sem.count = 0 := by omega
    split at h
    · cases h
      exact .none h₀
    split at h
    · cases h
      exact .none h₀
    · cases h

theorem takeOutcome_krhinoQueueRecv {q' : KQueue} {stat : KStat} {msg' : ℕ → UInt8}
    (hn : k.intrptNestedLevel = 0) (ht : (k.objs q.blkObj).objType = .queue)
    (h : krhinoQueueRecv ptrSize k q ticks msg = .ret stat msg' q') :
    TakeOutcome (q.setObj k) (q'.setObj k) := by
  unfold krhinoQueueRecv at h
  rw [if_neg (by omega), if_neg (not_not.2 ht)] at h
  split at h
  · rename_i hc
    cases h
    exact .taken (o := q.setObj k) (Nat.succ_pred_eq_of_pos hc).symm
  · rename_i hc
    have h₀ : q.msgQ.curNum = 0 := by omega
    split at h
    · cases h
      exact .none h₀
    split at h
    · cases h
      exact .none h₀
    · cases h

theorem takeOutcome_krhinoBufQueueRecv {b' : KBufQueue} {stat : KStat} {msg' : ℕ → UInt8}
    {len : Option ℕ} (hring : ringbufIsEmpty b.ringbuf = true ↔ b.curNum = 0)
    (hn : k.intrptNestedLevel = 0) (ht : (k.objs b.blkObj).objType = .bufQueue)
    (h : krhinoBufQueueRecv k b ticks msg = .ret stat msg' len b') :
    TakeOutcome (b.setObj k) (b'.setObj k) := by
  unfold krhinoBufQueueRecv at h
  rw [if_neg (by omega), if_neg (not_not.2 ht)] at h
  split at h
  · rename_i hc
    have hpos : b.curNum ≠ 0 := fun h₀ => by simp [hring.2 h₀] at hc
    cases h
    exact .taken (o := b.setObj k) (Nat.succ_pred_eq_of_ne_zero hpos).symm
  · rename_i hc
    have h₀ : b.curNum = 0 := hring.1 (by simpa using hc)
    split at h
    · cases h
      exact .none h₀
    split at h
    · cases h
      exact .none h₀
    · cases h

end

/-! ## The balance -/

variable {id o : ObjId} {s s' : SetSys} {a : SetAct} {n : ℕ}

/-- The entries still to be sent by the insertion. -/
def InsPc.left : InsPc → ℕ
  | .push n => n
  | _ => 0

namespace SetSys

/-- The entries of the object in the queue and in the hands of the owner. -/
def entries (s : SetSys) (id : ObjId) : ℕ :=
  s.queue.count id + if s.owner = .chosen id then 1 else 0

/-- The sends that owe the set an entry: those past the test, and those at the
    test whose unit no insertion has counted. -/
def owed (s : SetSys) : ℕ := s.sends.count .notify + s.sends.count (.test false)

/-- The object is in the set, or is being inserted. -/
def member (s : SetSys) : Prop := s.handle = true ∨ s.ins ≠ .idle

end SetSys

/-- The invariant, as long as the queue of the set has not overflowed. -/
structure SetInv (id : ObjId) (s : SetSys) : Prop where
  balance : s.overflow = false → s.member →
    s.entries id + s.owed + s.ins.left = s.obj.count
  outside : s.overflow = false → ¬ s.member → s.entries id = 0
  silent : s.handle = false → s.sends.count .notify = 0

/-- The condition: an object is inserted while it is in no set or holds no unit;
    and a send at its test finds a `handle` exactly when its unit has not been
    counted by an insertion, unless none is going on. -/
def SetOk (s : SetSys) : SetAct → Prop
  | .prepare stat => stat = .success → s.handle = false ∨ s.obj.count = 0
  | .test snap => if s.handle then snap = false else s.ins = .idle ∨ snap = true
  | _ => True

/-- A notification adds an entry, and nothing else. -/
structure Notified (id o : ObjId) (s s' : SetSys) : Prop where
  obj : s'.obj = s.obj
  handle : s'.handle = s.handle
  sends : s'.sends = s.sends
  ins : s'.ins = s.ins
  overflow : s'.overflow = false → s.overflow = false
  entries : s'.overflow = false → s'.entries id = s.entries id + if o = id then 1 else 0

theorem notified (id o : ObjId) (s : SetSys) : Notified id o s (s.notify o) := by
  unfold SetSys.notify
  split
  · exact ⟨rfl, rfl, rfl, rfl, nofun, nofun⟩
  split
  · rename_i ho
    refine ⟨rfl, rfl, rfl, rfl, fun h => h, fun _ => ?_⟩
    simp [SetSys.entries, ho]
  · refine ⟨rfl, rfl, rfl, rfl, fun h => h, fun _ => ?_⟩
    simp [SetSys.entries, List.count_append, List.count_singleton]
    omega

/-- The loop of the insertion turns entries to be sent into entries. -/
structure Pushed (id : ObjId) (n : ℕ) (s s' : SetSys) : Prop where
  obj : s'.obj = s.obj
  handle : s'.handle = s.handle
  sends : s'.sends = s.sends
  busy : s'.ins ≠ .idle
  overflow : s'.overflow = false → s.overflow = false
  entries : s'.overflow = false → s'.entries id + s'.ins.left = s.entries id + n

theorem pushed (id : ObjId) (n : ℕ) (s : SetSys) : Pushed id n s (s.pushAll id n) := by
  induction n generalizing s with
  | zero => exact ⟨rfl, rfl, rfl, nofun, fun h => h, fun _ => rfl⟩
  | succ n ih =>
    have hn := notified id id s
    unfold SetSys.pushAll
    split
    · refine ⟨hn.obj, hn.handle, hn.sends, nofun, hn.overflow, fun ho => ?_⟩
      have he := hn.entries ho
      rw [if_pos rfl] at he
      change (s.notify id).entries id + n = _
      omega
    · have hp := ih (s.notify id)
      refine ⟨hp.obj.trans hn.obj, hp.handle.trans hn.handle, hp.sends.trans hn.sends, hp.busy,
        hn.overflow ∘ hp.overflow, fun ho => ?_⟩
      have he := hn.entries (hp.overflow ho)
      have hp := hp.entries ho
      rw [if_pos rfl] at he
      omega

/-- After the count of an insertion only the sends past their test owe an entry. -/
theorem SetSys.snapshot_owed (s : SetSys) :
    s.snapshot.owed = s.sends.count .notify ∧
      s.snapshot.sends.count .notify = s.sends.count .notify := by
  unfold owed snapshot
  induction s.sends with
  | nil => exact ⟨rfl, rfl⟩
  | cons p ps ih =>
    dsimp only at ih ⊢
    cases p with
    | test snap => simpa using ih
    | notify =>
      rw [List.map_cons, List.count_cons_self, List.count_cons_self,
        List.count_cons_of_ne (by decide)]
      omega

theorem SetSys.entries_chosen (ho : s.owner = .chosen id) : s.entries id = s.queue.count id + 1 := by
  unfold entries
  rw [if_pos ho]

theorem SetSys.entries_congr (hq : s'.queue = s.queue) (ho : s.owner ≠ .chosen id)
    (ho' : s'.owner ≠ .chosen id) : s'.entries id = s.entries id := by
  unfold entries
  rw [hq, if_neg ho, if_neg ho']

theorem SetSys.entries_not_chosen (ho : s.owner ≠ .chosen id) :
    s.entries id = s.queue.count id := by
  unfold entries
  rw [if_neg ho, Nat.add_zero]

theorem SetInv.unit (h : SetInv id s) (hv : s.overflow = false) (ho : s.owner = .chosen id) :
    s.obj.count ≠ 0 := by
  have he := SetSys.entries_chosen ho
  by_cases hm : s.member
  · have := h.balance hv hm
    omega
  · have := h.outside hv hm
    omega

theorem kobjInternalCountGet_count {o : SetObj} (h : (kobjInternalCountGet o).1 = .success) :
    (kobjInternalCountGet o).2 = o.count := by
  unfold kobjInternalCountGet at *
  split at h
  · rfl
  · rfl
  · rfl
  · cases h

theorem SetInv.start (h : SetInv id s) (hv : s.overflow = false) (hi : s.ins = .idle)
    (hok : s.handle = false ∨ s.obj.count = 0) :
    s.entries id = 0 ∧ s.sends.count .notify = 0 := by
  by_cases hh : s.handle = true
  · have := h.balance hv (.inl hh)
    have hc := hok.resolve_left (by simp [hh])
    unfold SetSys.owed at this
    omega
  · have hm : ¬ s.member := fun hm => hm.elim hh fun hc => hc hi
    exact ⟨h.outside hv hm, h.silent (by simpa using hh)⟩

theorem SetInv.congr {s' : SetSys} (h : SetInv id s)
    (he : s'.overflow = false → s'.entries id = s.entries id) (ho : s'.obj.count = s.obj.count)
    (hs : s'.sends = s.sends) (hh : s'.handle = s.handle) (hi : s'.ins = s.ins)
    (hv : s'.overflow = false → s.overflow = false) : SetInv id s' := by
  have hmem : s'.member ↔ s.member := by
    unfold SetSys.member
    rw [hh, hi]
  refine ⟨fun hv' hm => ?_, fun hv' hm => (he hv').trans (h.outside (hv hv') (hm ∘ hmem.2)), fun hc => ?_⟩
  · have hb := h.balance (hv hv') (hmem.1 hm)
    unfold SetSys.owed at hb ⊢
    rw [he hv', hs, hi, ho]
    exact hb
  · rw [hs]
    exact h.silent (hh ▸ hc)

theorem SetInv.test {snap : Bool} {l₁ l₂ : List SendPc} (h : SetInv id s) (hok : SetOk s (.test snap))
    (hl : s.sends = l₁ ++ .test snap :: l₂) :
    SetInv id { s with sends := l₁ ++ if s.handle then .notify :: l₂ else l₂ } := by
  have hsend : ∀ p, s.sends.count p =
      l₁.count p + l₂.count p + if .test snap = p then 1 else 0 := fun p => by
    rw [hl, List.count_append, List.count_cons]
    simp
    omega
  have hN := hsend .notify
  have hT := hsend (.test false)
  rw [if_neg (by simp)] at hN
  by_cases hh : s.handle = true
  · -- the unit is not yet in the set
    have hsnap : snap = false := by simpa [SetOk, hh] using hok
    subst hsnap
    rw [if_pos rfl] at hT
    rw [if_pos hh]
    refine ⟨fun hv hm => ?_, h.outside, fun hc => ?_⟩
    · have hb := h.balance hv hm
      unfold SetSys.owed at hb ⊢
      change s.entries id + (_ + _) + s.ins.left = s.obj.count
      rw [List.count_append, List.count_append, List.count_cons_self,
        List.count_cons_of_ne (by decide)]
      omega
    · exact absurd hh (by simpa using hc)
  · rw [if_neg hh]
    have hsil := h.silent (by simpa using hh)
    refine ⟨fun hv hm => ?_, h.outside, fun hc => ?_⟩
    · -- an insertion has counted the unit
      have hsnap : snap = true := by
        have hok : s.ins = .idle ∨ snap = true := by simpa [SetOk, hh] using hok
        exact hok.resolve_left fun hi => hm.elim hh fun hb => hb hi
      subst hsnap
      rw [if_neg (by decide)] at hT
      have hb := h.balance hv hm
      unfold SetSys.owed at hb ⊢
      change s.entries id + (_ + _) + s.ins.left = s.obj.count
      rw [List.count_append, List.count_append]
      omega
    · change (l₁ ++ l₂).count .notify = 0
      rw [List.count_append]
      omega

theorem SetInv.notify {l₁ l₂ : List SendPc} (h : SetInv id s) (hl : s.sends = l₁ ++ .notify :: l₂) :
    SetInv id { s.notify id with sends := l₁ ++ l₂ } := by
  have hsend : ∀ p, s.sends.count p =
      (l₁ ++ l₂).count p + if .notify = p then 1 else 0 := fun p => by
    rw [hl, List.count_append, List.count_append, List.count_cons]
    simp
    omega
  have hN := hsend .notify
  have hT := hsend (.test false)
  rw [if_pos rfl] at hN
  rw [if_neg (by decide)] at hT
  have hn := notified id id s
  have hh : s.handle = true := by
    by_contra hc
    have := h.silent (by simpa using hc)
    omega
  refine ⟨fun hv _ => ?_, fun _ hm => absurd (.inl (hn.handle.trans hh)) hm, fun hc => ?_⟩
  · have hb := h.balance (hn.overflow hv) (.inl hh)
    have he := hn.entries hv
    rw [if_pos rfl] at he
    unfold SetSys.owed at hb
    change (s.notify id).entries id + ((l₁ ++ l₂).count .notify + (l₁ ++ l₂).count (.test false)) +
      (s.notify id).ins.left = (s.notify id).obj.count
    rw [he, hn.ins, hn.obj]
    omega
  · have hc : (s.notify id).handle = false := hc
    rw [hn.handle, hh] at hc
    cases hc

theorem SetInv.prepare {r : KStat × SetSys} (h : SetInv id s) (hi : s.ins = .idle) (hok : SetOk s (.prepare r.1))
    (hr : s.kobjInsertPrepare id = r) : SetInv id r.2 := by
  unfold SetSys.kobjInsertPrepare at hr
  dsimp only at hr
  split at hr
  · subst hr
    exact h
  split at hr
  · subst hr
    exact h
  split at hr
  · subst hr
    exact h
  · rename_i hst _
    rw [kobjInternalCountGet_count (not_not.1 hst)] at hr
    subst hr
    have hp := pushed id s.obj.count s.snapshot
    obtain ⟨howed, hnot⟩ := s.snapshot_owed
    refine ⟨fun hv _ => ?_, fun _ hm => absurd (.inr hp.busy) hm, fun hc => ?_⟩
    · obtain ⟨he, hN⟩ := h.start (hp.overflow hv) hi (hok rfl)
      have hpe := hp.entries hv
      have hsnap : s.snapshot.entries id = s.entries id := rfl
      have hown : (s.snapshot.pushAll id s.obj.count).owed = s.snapshot.owed := by
        unfold SetSys.owed
        rw [hp.sends]
      have hobj : (s.snapshot.pushAll id s.obj.count).obj.count = s.obj.count := by
        rw [hp.obj]
        rfl
      change (s.snapshot.pushAll id s.obj.count).entries id +
        (s.snapshot.pushAll id s.obj.count).owed +
        (s.snapshot.pushAll id s.obj.count).ins.left =
        (s.snapshot.pushAll id s.obj.count).obj.count
      omega
    · change (s.snapshot.pushAll id s.obj.count).sends.count .notify = 0
      rw [hp.sends, hnot]
      exact h.silent (hp.handle.symm.trans hc)

theorem SetInv.step (h : SetInv id s) (hs : restrict SetOk (SetStep id) s a s') :
    SetInv id s' := by
  obtain ⟨hok, hs⟩ := hs
  cases hs with
  | send hc =>
    cases hc with
    | counted hl =>
      have hcount : ∀ p : SendPc, (SendPc.test false :: s.sends).count p =
          s.sends.count p + if .test false = p then 1 else 0 := fun p => by
        rw [List.count_cons]
        simp
      refine ⟨fun hv hm => ?_, h.outside, fun hh => ?_⟩
      · have hb := h.balance hv hm
        change s.entries id + (_ + _) + s.ins.left = s.obj.count + 1
        rw [hcount, hcount, if_neg (by decide), if_pos rfl]
        unfold SetSys.owed at hb
        omega
      · change (SendPc.test false :: s.sends).count .notify = 0
        rw [hcount, if_neg (by decide), h.silent hh]
  | @refused o hc =>
    have hcount : o.count = s.obj.count := by cases hc <;> rfl
    refine h.congr (fun _ => ?_) hcount rfl rfl rfl fun hv => hv
    unfold SetSys.entries
    split
    · rename_i hw
      rw [if_neg nofun, hw.1, if_neg nofun]
    · rfl
  | test hl => exact h.test hok hl
  | notify hl => exact h.notify hl
  | @other o ho =>
    have hn := notified id o s
    refine h.congr (fun hv => ?_) (congrArg _ hn.obj) hn.sends hn.handle hn.ins hn.overflow
    have he := hn.entries hv
    rwa [if_neg ho] at he
  | prepare hi hr => exact h.prepare hi hok hr
  | @push n hi =>
    have hp := pushed id n s
    refine ⟨fun hv _ => ?_, fun _ hm => absurd (.inr hp.busy) hm, fun hc => ?_⟩
    · have hb := h.balance (hp.overflow hv) (.inr (by rw [hi]; nofun))
      have hpe := hp.entries hv
      rw [hi] at hb
      change s.entries id + s.owed + n = s.obj.count at hb
      have hown : (s.pushAll id n).owed = s.owed := by
        unfold SetSys.owed
        rw [hp.sends]
      rw [hown, hp.obj]
      omega
    · rw [hp.sends]
      exact h.silent (hp.handle.symm.trans hc)
  | install hi =>
    refine ⟨fun hv _ => ?_, fun _ hm => absurd (.inl rfl) hm, nofun⟩
    have hb := h.balance hv (.inr (by rw [hi]; nofun))
    rw [hi] at hb
    exact hb
  | @select o q ho hq =>
    refine h.congr (fun _ => ?_) rfl rfl rfl rfl fun hv => hv
    rw [SetSys.entries_not_chosen (s := s) (by rw [ho]; nofun), hq, List.count_cons]
    unfold SetSys.entries
    simp
  | selectWait ho hq =>
    exact h.congr (fun _ => SetSys.entries_congr rfl (by rw [ho]; nofun) nofun) rfl rfl rfl rfl fun hv => hv
  | selectEnd ho =>
    exact h.congr (fun _ => SetSys.entries_congr rfl (by rw [ho]; nofun) nofun) rfl rfl rfl rfl fun hv => hv
  | takeOther ho hne =>
    exact h.congr (fun _ => SetSys.entries_congr rfl (by rw [ho]; simpa using hne) nofun) rfl rfl rfl rfl fun hv => hv
  | @take n ho hc =>
    have he : SetSys.entries { s with owner := .idle, obj := { s.obj with count := n } } id + 1 =
        s.entries id := by
      rw [SetSys.entries_chosen ho]
      unfold SetSys.entries
      rw [if_neg nofun]
    refine ⟨fun hv hm => ?_, fun hv hm => ?_, h.silent⟩
    · have hb := h.balance hv hm
      change _ + s.owed + s.ins.left = n
      omega
    · have := h.outside hv hm
      omega
  | takeNone ho hc =>
    exact ⟨fun hv _ => absurd hc (h.unit hv ho), fun hv _ => absurd hc (h.unit hv ho), h.silent⟩
  | takeWait ho hc =>
    exact ⟨fun hv _ => absurd hc (h.unit hv ho), fun hv _ => absurd hc (h.unit hv ho), h.silent⟩
  | takeEnd ho =>
    exact h.congr (fun _ => SetSys.entries_congr rfl (by rw [ho]; nofun) nofun) rfl rfl rfl rfl fun hv => hv

/-! ## Runs -/

/-- The object is in no set, and no call is in progress. -/
structure SetSys.New (s : SetSys) (id : ObjId) : Prop where
  quiescent : s.Quiescent id
  handle : s.handle = false
  queue : id ∉ s.queue

theorem SetSys.New.inv (h : s.New id) : SetInv id s := by
  obtain ⟨⟨hs, hi, ho⟩, hh, hq⟩ := h
  refine ⟨fun _ hm => ?_, fun _ _ => ?_, fun _ => ?_⟩
  · rcases hm with hm | hm
    · rw [hh] at hm
      cases hm
    · exact absurd hi hm
  · rw [SetSys.entries_not_chosen ho, List.count_eq_zero]
    exact hq
  · rw [hs]
    rfl

/-- **Object sets neither miss nor duplicate.**  In every run of sends,
    insertions and takes whose steps are `SetOk`, when no call is in progress
    and the queue of the set has not overflowed, an object in the set stands in
    the queue as often as it has units. -/
theorem set_entries_match {s₀ : SetSys} (hnew : s₀.New id) {as : List SetAct}
    (h : Run (restrict SetOk (SetStep id)) s₀ as s) (hv : s.overflow = false)
    (hq : s.Quiescent id) (hin : s.handle = true) : s.queue.count id = s.obj.count := by
  have hi : SetInv id s := h.keeps (fun hi hs => hi.step hs) hnew.inv
  obtain ⟨hs, hidle, ho⟩ := hq
  have hb := hi.balance hv (.inl hin)
  rw [SetSys.entries_not_chosen ho, hidle] at hb
  unfold SetSys.owed at hb
  rw [hs] at hb
  exact hb

/-- An empty semaphore and a set with room for eight entries. -/
def newSet : SetSys := ⟨⟨.sem, 0, []⟩, false, [], 8, false, [], .idle, .idle⟩

theorem newSet_new : newSet.New 0 := ⟨⟨rfl, rfl, nofun⟩, rfl, nofun⟩

/-- A semaphore with a unit is inserted, and given another. -/
theorem set_entries_match_two : ∃ s : SetSys, s.queue.count 0 = 2 ∧ s.obj.count = 2 := by
  have hok : ∀ {s s' a}, SetStep 0 s a s' → SetOk s a → restrict SetOk (SetStep 0) s a s' :=
    fun h1 h2 => ⟨h2, h1⟩
  have hrun : ∃ as s, Run (restrict SetOk (SetStep 0)) newSet as s ∧ s.overflow = false ∧
      s.Quiescent 0 ∧ s.handle = true ∧ s.obj.count = 2 := by
    refine ⟨_, _, .cons (hok (.send (.counted rfl)) trivial)
      (.cons (hok (@SetStep.test 0 _ false [] _ rfl) (.inl rfl))
      (.cons (hok (.prepare rfl rfl) fun _ => .inl rfl) (.cons (hok (.install rfl) trivial)
      (.cons (hok (.send (.counted rfl)) trivial)
      (.cons (hok (@SetStep.test 0 _ false [] _ rfl) rfl)
      (.single (hok (@SetStep.notify 0 _ [] _ rfl) trivial))))))), ?_⟩
    exact ⟨rfl, ⟨rfl, rfl, nofun⟩, rfl, rfl⟩
  obtain ⟨as, s, h, hv, hq, hin, hc⟩ := hrun
  exact ⟨s, (set_entries_match newSet_new h hv hq hin).trans hc, hc⟩

/-- A unit given between the two critical sections of an insertion is missed,
    and one whose send tests the `handle` after them is entered twice. -/
theorem set_misses_and_doubles :
    (∃ as s, Run (SetStep 0) newSet as s ∧ s.overflow = false ∧ s.Quiescent 0 ∧
      s.handle = true ∧ s.obj.count = 1 ∧ s.queue.count 0 = 0) ∧
    ∃ as s, Run (SetStep 0) newSet as s ∧ s.overflow = false ∧ s.Quiescent 0 ∧
      s.handle = true ∧ s.obj.count = 1 ∧ s.queue.count 0 = 2 := by
  constructor
  · refine ⟨_, _, .cons (.prepare rfl rfl) (.cons (.send (.counted rfl))
      (.cons (@SetStep.test 0 _ false [] _ rfl) (.single (.install rfl)))), rfl,
      ⟨rfl, rfl, nofun⟩, rfl, rfl, rfl⟩
  · refine ⟨_, _, .cons (.send (.counted rfl)) (.cons (.prepare rfl rfl)
      (.cons (.install rfl) (.cons (@SetStep.test 0 _ true [] _ rfl)
      (.single (@SetStep.notify 0 _ [] _ rfl))))), rfl, ⟨rfl, rfl, nofun⟩, rfl, rfl, rfl⟩

end Rhino
