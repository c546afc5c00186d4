/-
  The links of the wifi module (`device/sal/wifi/mk3060/mk3060.c`): opening and closing them, and
  the events that the AT worker handles meanwhile.

  A call sends its command, and waits on a semaphore of its link for the event of the command.
  `sal_wifi_close` makes the semaphore before it sends, and `sal_wifi_start` after.
-/
import AliOS.Lib.Trans
import Mathlib.Data.Int.Notation

namespace Sal

def LINK_ID_MAX : ℕ := 5

/-- `sal_wifi_start` and `sal_wifi_close`, and their semaphores `sem_start` and `sem_close`. -/
inductive Kind
  | start | close
  deriving DecidableEq

/-- `link_t`.  A semaphore that is valid is named by the call that made it. -/
structure Link where
  fd : Option ℕ
  sem : Kind → Option ℕ

/-- Where a call is.  `err` is behind the label of `sal_wifi_start`. -/
inductive Pc
  | pick (fd : ℕ) (typeOk : Bool)
  | find (fd : ℕ)
  | send (kind : Kind) (l : ℕ)
  | new (kind : Kind) (l : ℕ)
  | valid (kind : Kind) (l : ℕ)
  | enter (kind : Kind) (l : ℕ)
  | wait (kind : Kind) (l sem : ℕ)
  | free (kind : Kind) (l : ℕ)
  | err (l : ℕ)
  | done (ret : ℤ)

/-- The event that the command of a call causes, and which semaphore it signalled. -/
inductive Event
  | unsent
  | inFlight (kind : Kind) (l : ℕ)
  | handled (signalled : Option ℕ)

/-- The AT worker: in `handle_tcp_udp_client_conn_state` it has cleared the link, in
    `handle_socket_data` it has found the link in use. -/
inductive Worker
  | idle
  | closed (l : ℕ) (cause : Option ℕ)
  | data (l : ℕ)

/-- Data that was passed to a descriptor, and the descriptor of the link then. -/
structure Passed where
  fd : ℕ
  holder : Option ℕ

/-- `g_link`, the semaphores with their counts, the calls, the events and the worker. -/
structure Links where
  links : ℕ → Link
  sems : ℕ → Option ℕ
  calls : ℕ → Option Pc
  events : ℕ → Event
  worker : Worker
  passed : List Passed

namespace Links

/-- After `sal_wifi_init`. -/
def init : Links := ⟨fun _ => ⟨none, fun _ => none⟩, fun _ => none, fun _ => none, fun _ => .unsent, .idle, []⟩

def setCall (s : Links) (k : ℕ) (pc : Pc) : Links := { s with calls := Function.update s.calls k (some pc) }

def setFd (s : Links) (l : ℕ) (fd : Option ℕ) : Links :=
  { s with links := Function.update s.links l { s.links l with fd := fd } }

def setSem (s : Links) (l : ℕ) (kind : Kind) (sem : Option ℕ) : Links :=
  { s with links := Function.update s.links l { s.links l with sem := Function.update (s.links l).sem kind sem } }

/-- `aos_sem_signal`, if the semaphore of the link is valid. -/
def signal (s : Links) (l : ℕ) (kind : Kind) : Links :=
  match (s.links l).sem kind with
  | none => s
  | some x => { s with sems := Function.update s.sems x ((s.sems x).map (· + 1)) }

def fdToLinkid (s : Links) (fd : ℕ) : Option ℕ := (List.range LINK_ID_MAX).find? fun l => (s.links l).fd = some fd

/-- The link that `sal_wifi_start` picks. -/
def freeLink (s : Links) : Option ℕ := (List.range LINK_ID_MAX).find? fun l => (s.links l).fd = none

/-- What a call does when a semaphore fails. -/
def fail (l : ℕ) : Kind → Pc
  | .start => .err l
  | .close => .done (-1)

/-- Where a call is when its command was answered. -/
def answered (l : ℕ) : Kind → Pc
  | .start => .new .start l
  | .close => .valid .close l

/-- Where a call is when it has made its semaphore. -/
def made (l : ℕ) : Kind → Pc
  | .start => .valid .start l
  | .close => .send .close l

/-- The next step of a call; `ok` tells whether `aos_sem_new` has room.  Commands are answered OK. -/
def task (s : Links) (k : ℕ) (ok : Bool) : Option Links :=
  match s.calls k with
  | none | some (.done _) => none
  | some (.pick fd typeOk) =>
    match s.freeLink with
    | none => some (s.setCall k (.done (-1)))
    | some l => some ((s.setFd l (some fd)).setCall k (if typeOk then .send .start l else .err l))
  | some (.find fd) =>
    match s.fdToLinkid fd with
    | none => some (s.setCall k (.done (-1)))
    | some l => some (s.setCall k (.new .close l))
  | some (.send kind l) =>
    some { s.setCall k (answered l kind) with
      events := Function.update s.events k (.inFlight kind l) }
  | some (.new kind l) =>
    if ok then
      some { (s.setSem l kind (some k)).setCall k
          (made l kind) with
        sems := Function.update s.sems k (some 0) }
    else some (s.setCall k (fail l kind))
  | some (.valid kind l) =>
    some (s.setCall k (if ((s.links l).sem kind).isSome then .enter kind l else .done 0))
  | some (.enter kind l) =>
    match (s.links l).sem kind with
    | none => some (s.setCall k (fail l kind))
    | some x => some (s.setCall k (.wait kind l x))
  | some (.wait kind l x) =>
    match s.sems x with
    | none => some (s.setCall k (fail l kind))
    | some 0 => none
    | some (n + 1) => some { s.setCall k (.free kind l) with sems := Function.update s.sems x (some n) }
  | some (.free kind l) =>
    some { (s.setSem l kind none).setCall k (.done 0) with
      sems := match (s.links l).sem kind with
        | none => s.sems
        | some x => Function.update s.sems x none }
  | some (.err l) => some ((s.setFd l none).setCall k (.done (-1)))

/-- The CONNECTED event of the command of a call. -/
def connected (s : Links) (k : ℕ) : Option Links :=
  match s.worker, s.events k with
  | .idle, .inFlight .start l =>
    some { s.signal l .start with events := Function.update s.events k (.handled ((s.links l).sem .start)) }
  | _, _ => none

/-- The CLOSED event of the command of a call, or of the peer, up to the mutex. -/
def closed (s : Links) (l : ℕ) (cause : Option ℕ) : Links := { s.setFd l none with worker := .closed l cause }

/-- What the handler of CLOSED does behind the mutex. -/
def wakeClose (s : Links) (l : ℕ) (cause : Option ℕ) : Links :=
  { s.signal l .close with
    worker := .idle
    events := match cause with
      | none => s.events
      | some k => Function.update s.events k (.handled ((s.links l).sem .close)) }

/-- The call of `g_netconn_data_input_cb`, which reads the descriptor once more. -/
def passData (s : Links) (l : ℕ) : Links :=
  { s with
    worker := .idle
    passed := match (s.links l).fd with
      | none => s.passed
      | some fd => ⟨fd, (s.links l).fd⟩ :: s.passed }

end Links

inductive LinkAct
  | start (k fd : ℕ) (typeOk : Bool)
  | close (k fd : ℕ)
  | task (k : ℕ) (ok : Bool)
  | connected (k : ℕ)
  | closed (k : ℕ)
  | peerClosed (l : ℕ)
  | data (l : ℕ)
  | worker

namespace Links

def step (s : Links) : LinkAct → Option Links
  | .start k fd typeOk =>
    match s.calls k with
    | none => some (s.setCall k (.pick fd typeOk))
    | some _ => none
  | .close k fd =>
    match s.calls k with
    | none => some (s.setCall k (.find fd))
    | some _ => none
  | .task k ok => s.task k ok
  | .connected k => s.connected k
  | .closed k =>
    match s.worker, s.events k with
    | .idle, .inFlight .close l => some (s.closed l (some k))
    | _, _ => none
  | .peerClosed l =>
    match s.worker with
    | .idle => some (s.closed l none)
    | _ => none
  | .data l =>
    match s.worker with
    | .idle => some (if ((s.links l).fd).isSome then { s with worker := .data l } else s)
    | _ => none
  | .worker =>
    match s.worker with
    | .idle => none
    | .closed l cause => some (s.wakeClose l cause)
    | .data l => some (s.passData l)

def Step (s : Links) (a : LinkAct) (s' : Links) : Prop := s.step a = some s'

/-! ## The claim, and when it holds -/

/-- The call waits for an event that was handled, and did not signal its semaphore. -/
def Lost (s : Links) (k : ℕ) : Prop :=
  ∃ kind l x o, s.calls k = some (.wait kind l x) ∧ s.events k = .handled o ∧ o ≠ some x

/-- The socket holds the link. -/
def Holds (s : Links) (fd l : ℕ) : Prop := (s.links l).fd = some fd

structure Sound (s : Links) : Prop where
  lost : ∀ k, ¬ s.Lost k
  holds : ∀ l a b, s.Holds a l → s.Holds b l → a = b
  passed : ∀ p ∈ s.passed, p.holder = some p.fd

/-- CONNECTED does not come before the call that caused it has made its semaphore, and a call does
    not make its semaphore where that of another call still is. -/
def meets (s : Links) : LinkAct → Bool
  | .connected k =>
    match s.calls k with
    | some (.new .start _) => false
    | _ => true
  | .task k ok =>
    match s.calls k with
    | some (.new kind l) => !ok || ((s.links l).sem kind).isNone
    | _ => true
  | _ => true

def Meets (s : Links) (a : LinkAct) : Prop := s.meets a = true

end Links

/-! ## What a call knows -/

/-- The event of the call, and the semaphore of its link while the call has one. -/
def Pc.Placed (k : ℕ) (event : Event) (sem : ℕ → Kind → Option ℕ) : Option Pc → Prop
  | none | some (.pick ..) | some (.find _) | some (.new .close _) | some (.send .start _) => event = .unsent
  | some (.send .close l) => event = .unsent ∧ sem l .close = some k
  | some (.new .start l) => event = .inFlight .start l
  | some (.valid kind l) | some (.enter kind l) | some (.free kind l) =>
    sem l kind = some k ∧ (event = .inFlight kind l ∨ event = .handled (some k))
  | some (.wait kind l x) => x = k ∧ sem l kind = some k ∧ (event = .inFlight kind l ∨ event = .handled (some k))
  | some (.err _) | some (.done _) => True

/-- The semaphores of the links. -/
def Links.sem (s : Links) (l : ℕ) : Kind → Option ℕ := (s.links l).sem

variable {s t : Links} {k j l : ℕ} {kind : Kind} {pc : Pc} {a : LinkAct}

theorem Pc.Placed.mono {o : Option Pc} {event : Event} {sem sem' : ℕ → Kind → Option ℕ}
    (h : Pc.Placed k event sem o) (hsem : ∀ l kind, sem l kind = some k → sem' l kind = some k) :
    Pc.Placed k event sem' o := by
  cases o with
  | none => exact h
  | some pc =>
    cases pc with
    | pick => exact h
    | find => exact h
    | send kind l =>
      cases kind with
      | start => exact h
      | close => exact ⟨h.1, hsem _ _ h.2⟩
    | new kind l => cases kind <;> exact h
    | valid => exact ⟨hsem _ _ h.1, h.2⟩
    | enter => exact ⟨hsem _ _ h.1, h.2⟩
    | wait => exact ⟨h.1, hsem _ _ h.2.1, h.2.2⟩
    | free => exact ⟨hsem _ _ h.1, h.2⟩
    | err => trivial
    | done => trivial

namespace Links

structure Inv (s : Links) : Prop where
  placed : ∀ k, Pc.Placed k (s.events k) s.sem (s.calls k)
  worker : ∀ l k, s.worker = .closed l (some k) → s.events k = .inFlight .close l
  passed : ∀ p ∈ s.passed, p.holder = some p.fd

theorem inv_init : Inv init := ⟨fun _ => rfl, nofun, nofun⟩

theorem Inv.one (h : Inv s) (hcalls : ∀ j, j ≠ k → t.calls j = s.calls j)
    (hevents : ∀ j, j ≠ k → t.events j = s.events j)
    (hsem : ∀ j, j ≠ k → ∀ l kind, s.sem l kind = some j → t.sem l kind = some j)
    (hk : Pc.Placed k (t.events k) t.sem (t.calls k))
    (hw : ∀ l k, t.worker = .closed l (some k) → t.events k = .inFlight .close l)
    (hp : t.passed = s.passed) : Inv t := by
  refine ⟨fun j => ?_, hw, hp ▸ h.passed⟩
  by_cases hj : j = k
  · exact hj ▸ hk
  · rw [hcalls j hj, hevents j hj]
    exact (h.placed j).mono (hsem j hj)

@[simp] theorem setCall_self : (s.setCall k pc).calls k = some pc := Function.update_self ..

theorem setCall_ne (h : j ≠ k) : (s.setCall k pc).calls j = s.calls j := Function.update_of_ne h ..

theorem setSem_self {sem : Option ℕ} : (s.setSem l kind sem).sem l kind = sem := by
  simp [setSem, Links.sem]

theorem setSem_ne {sem : Option ℕ} {l' : ℕ} {kind' : Kind} (h : ¬ (l' = l ∧ kind' = kind)) :
    (s.setSem l kind sem).sem l' kind' = s.sem l' kind' := by
  rw [Links.sem, setSem, Links.sem]
  dsimp only
  by_cases hl : l' = l
  · subst hl
    rw [Function.update_self]
    exact Function.update_of_ne (fun hk => h ⟨rfl, hk⟩) ..
  · rw [Function.update_of_ne hl]

theorem setFd_sem {fd : Option ℕ} {l' : ℕ} : (s.setFd l fd).sem l' = s.sem l' := by
  rw [Links.sem, setFd, Links.sem]
  dsimp only
  by_cases hl : l' = l
  · rw [hl, Function.update_self]
  · rw [Function.update_of_ne hl]

theorem signal_calls : (s.signal l kind).calls = s.calls := by
  rw [signal]
  split <;> rfl

theorem signal_links : (s.signal l kind).links = s.links := by
  rw [signal]
  split <;> rfl

theorem signal_passed : (s.signal l kind).passed = s.passed := by
  rw [signal]
  split <;> rfl

theorem signal_worker : (s.signal l kind).worker = s.worker := by
  rw [signal]
  split <;> rfl

theorem signal_sem : (s.signal l kind).sem = s.sem := funext fun l => by rw [Links.sem, signal_links, Links.sem]

theorem Inv.goto (h : Inv s) (hk : Pc.Placed k (s.events k) s.sem (some pc)) : Inv (s.setCall k pc) :=
  h.one (fun _ => setCall_ne) (fun _ _ => rfl) (fun _ _ _ _ hs => hs) (by rw [setCall_self]; exact hk) h.worker rfl

/-! ## One step -/

theorem placed_fail {event : Event} {sem : ℕ → Kind → Option ℕ} : Pc.Placed k event sem (some (fail l kind)) := by
  cases kind <;> trivial

theorem Inv.setFd (h : Inv s) (fd : Option ℕ) : Inv (s.setFd l fd) := by
  have hsem : (s.setFd l fd).sem = s.sem := funext fun _ => setFd_sem
  exact ⟨fun k => hsem.symm ▸ h.placed k, h.worker, h.passed⟩

theorem Inv.send (h : Inv s) (hpc : s.calls k = some (.send kind l)) :
    Inv { s.setCall k (answered l kind) with
      events := Function.update s.events k (.inFlight kind l) } := by
  have hplaced := h.placed k
  rw [hpc] at hplaced
  have hunsent : s.events k = .unsent := by
    cases kind with
    | start => exact hplaced
    | close => exact hplaced.1
  refine h.one (k := k) (fun j hj => setCall_ne hj) (fun j hj => Function.update_of_ne hj ..) (fun _ _ _ _ hs => hs) ?_
    (fun l' j hw => ?_) rfl
  · change Pc.Placed k (Function.update s.events k _ k) s.sem ((s.setCall k _).calls k)
    rw [setCall_self, Function.update_self]
    cases kind with
    | start => rfl
    | close => exact ⟨hplaced.2, .inl rfl⟩
  · have hj := h.worker l' j hw
    refine (Function.update_of_ne ?_ ..).trans hj
    rintro rfl
    exact nomatch hunsent.symm.trans hj

theorem Inv.new (h : Inv s) (hpc : s.calls k = some (.new kind l)) (hnone : s.sem l kind = none) :
    Inv { (s.setSem l kind (some k)).setCall k
        (made l kind) with
      sems := Function.update s.sems k (some 0) } := by
  have hplaced := h.placed k
  rw [hpc] at hplaced
  refine h.one (k := k) (fun j hj => setCall_ne hj) (fun _ _ => rfl) (fun j hj l' kind' hs => ?_) ?_ h.worker rfl
  · refine (setSem_ne ?_).trans hs
    rintro ⟨rfl, rfl⟩
    exact nomatch hs.symm.trans hnone
  · change Pc.Placed k (s.events k) (s.setSem l kind (some k)).sem (((s.setSem l kind (some k)).setCall k _).calls k)
    rw [setCall_self]
    cases kind with
    | start => exact ⟨setSem_self, .inl hplaced⟩
    | close => exact ⟨hplaced, setSem_self⟩

theorem Inv.free (h : Inv s) (hown : s.sem l kind = some k) (sems : ℕ → Option ℕ) :
    Inv { (s.setSem l kind none).setCall k (.done 0) with sems := sems } := by
  refine h.one (k := k) (fun j hj => setCall_ne hj) (fun _ _ => rfl) (fun j hj l' kind' hs => ?_) ?_ h.worker rfl
  · refine (setSem_ne ?_).trans hs
    rintro ⟨rfl, rfl⟩
    exact hj (Option.some.inj (hs.symm.trans hown))
  · change Pc.Placed k _ _ (((s.setSem l kind none).setCall k (.done 0)).calls k)
    rw [setCall_self]
    trivial

theorem Meets.new {ok : Bool} (hm : s.Meets (.task k ok)) (hpc : s.calls k = some (.new kind l)) (hok : ok = true) :
    s.sem l kind = none := by
  rw [Meets, meets, hpc, hok] at hm
  exact Option.isNone_iff_eq_none.1 hm

theorem Meets.connected (hm : s.Meets (.connected k)) (l : ℕ) : s.calls k ≠ some (.new .start l) := by
  intro hpc
  rw [Meets, meets, hpc] at hm
  exact nomatch hm

theorem Inv.task {ok : Bool} (h : Inv s) (hm : s.Meets (.task k ok)) (ht : s.task k ok = some t) : Inv t := by
  have hplaced := h.placed k
  rw [Links.task] at ht
  split at ht
  · exact nomatch ht
  · exact nomatch ht
  · rename_i fd typeOk hpc
    rw [hpc] at hplaced
    split at ht
    · cases ht
      exact h.goto trivial
    · cases ht
      refine (h.setFd (some fd)).goto ?_
      cases typeOk with
      | true => exact hplaced
      | false => trivial
  · rename_i fd hpc
    rw [hpc] at hplaced
    split at ht
    · cases ht
      exact h.goto trivial
    · cases ht
      exact h.goto hplaced
  · rename_i kind l hpc
    cases ht
    exact h.send hpc
  · rename_i kind l hpc
    split_ifs at ht with hok
    · cases ht
      exact h.new hpc (hm.new hpc hok)
    · cases ht
      exact h.goto placed_fail
  · rename_i kind l hpc
    rw [hpc] at hplaced
    cases ht
    refine h.goto ?_
    split_ifs
    · exact hplaced
    · trivial
  · rename_i kind l hpc
    rw [hpc] at hplaced
    split at ht
    · cases ht
      exact h.goto placed_fail
    · rename_i x hx
      cases ht
      exact h.goto ⟨Option.some.inj (hx.symm.trans hplaced.1), hplaced⟩
  · rename_i kind l x hpc
    rw [hpc] at hplaced
    split at ht
    · cases ht
      exact h.goto placed_fail
    · exact nomatch ht
    · cases ht
      have hgo : Inv (s.setCall k (.free kind l)) := h.goto hplaced.2
      exact ⟨hgo.placed, hgo.worker, hgo.passed⟩
  · rename_i kind l hpc
    rw [hpc] at hplaced
    cases ht
    exact h.free hplaced.1 _
  · cases ht
    exact (h.setFd none).goto trivial

/-! ## Events -/

/-- **An event is handled**: if the call has its semaphore, that is the one that is signalled. -/
theorem Inv.handle (h : Inv s) (hev : s.events k = .inFlight kind l)
    (hearly : kind = .start → ∀ l, s.calls k ≠ some (.new .start l))
    (hother : ∀ l j, t.worker = .closed l (some j) → j ≠ k ∧ s.events j = .inFlight .close l)
    (hcalls : t.calls = s.calls) (hsem : t.sem = s.sem) (hpassed : t.passed = s.passed)
    (hevents : t.events = Function.update s.events k (.handled (s.sem l kind))) : Inv t := by
  have hplaced := h.placed k
  rw [hev] at hplaced
  refine h.one (k := k) (fun _ _ => by rw [hcalls]) (fun j hj => ?_) (fun _ _ _ _ hs => hsem ▸ hs) ?_
      (fun l' j hw => ?_) hpassed
  · rw [hevents, Function.update_of_ne hj]
  · rw [hcalls, hsem, hevents, Function.update_self]
    have hown : ∀ {kind' l'}, s.sem l' kind' = some k → Event.inFlight kind l = .inFlight kind' l' ∨
        Event.inFlight kind l = .handled (some k) → Event.handled (s.sem l kind) = .handled (some k) := by
      rintro kind' l' hs (heq | heq)
      · cases heq
        rw [hs]
      · exact nomatch heq
    cases hpc : s.calls k with
    | none =>
      rw [hpc] at hplaced
      exact nomatch hplaced
    | some pc =>
      rw [hpc] at hplaced
      cases pc with
      | pick => exact nomatch hplaced
      | find => exact nomatch hplaced
      | send kind' l' =>
        cases kind' with
        | start => exact nomatch hplaced
        | close => exact nomatch hplaced.1
      | new kind' l' =>
        cases kind' with
        | start =>
          cases hplaced
          exact absurd hpc (hearly rfl l)
        | close => exact nomatch hplaced
      | valid => exact ⟨hplaced.1, .inr (hown hplaced.1 hplaced.2)⟩
      | enter => exact ⟨hplaced.1, .inr (hown hplaced.1 hplaced.2)⟩
      | wait => exact ⟨hplaced.1, hplaced.2.1, .inr (hown hplaced.2.1 hplaced.2.2)⟩
      | free => exact ⟨hplaced.1, .inr (hown hplaced.1 hplaced.2)⟩
      | err => trivial
      | done => trivial
  · obtain ⟨hj, hflight⟩ := hother l' j hw
    rw [hevents, Function.update_of_ne hj]
    exact hflight

theorem Inv.step (h : Inv s) (hm : s.Meets a) (ht : Step s a t) : Inv t := by
  rw [Step, Links.step.eq_def] at ht
  cases a with
  | start k fd typeOk =>
    dsimp only at ht
    split at ht
    · rename_i hpc
      have hplaced := h.placed k
      rw [hpc] at hplaced
      cases ht
      exact h.goto hplaced
    · exact nomatch ht
  | close k fd =>
    dsimp only at ht
    split at ht
    · rename_i hpc
      have hplaced := h.placed k
      rw [hpc] at hplaced
      cases ht
      exact h.goto hplaced
    · exact nomatch ht
  | task k ok => exact h.task hm ht
  | connected k =>
    dsimp only at ht
    rw [Links.connected] at ht
    split at ht
    · rename_i l hw hev
      cases ht
      refine h.handle hev (fun _ => hm.connected) (fun l' j hw' => ?_) signal_calls ?_ signal_passed rfl
      · exact nomatch (signal_worker.symm.trans hw').symm.trans hw
      · exact signal_sem
    · exact nomatch ht
  | closed k =>
    dsimp only at ht
    split at ht
    · rename_i l hw hev
      cases ht
      have hfd := h.setFd (l := l) none
      refine ⟨hfd.placed, fun l' j hcause => ?_, hfd.passed⟩
      cases hcause
      exact hev
    · exact nomatch ht
  | peerClosed l =>
    dsimp only at ht
    split at ht
    · cases ht
      have hfd := h.setFd (l := l) none
      exact ⟨hfd.placed, nofun, hfd.passed⟩
    · exact nomatch ht
  | data l =>
    dsimp only at ht
    split at ht
    · cases ht
      split_ifs
      · exact ⟨h.placed, nofun, h.passed⟩
      · exact h
    · exact nomatch ht
  | worker =>
    dsimp only at ht
    split at ht
    · exact nomatch ht
    · rename_i l cause hw
      cases ht
      cases cause with
      | none =>
        have hsem : (s.wakeClose l none).sem = s.sem := signal_sem
        have hcalls : (s.wakeClose l none).calls = s.calls := signal_calls
        refine ⟨fun j => ?_, nofun, signal_passed.symm ▸ h.passed⟩
        rw [hsem, hcalls]
        exact h.placed j
      | some k =>
        exact h.handle (h.worker l k hw) nofun nofun signal_calls signal_sem signal_passed rfl
    · rename_i l hw
      cases ht
      refine ⟨h.placed, nofun, fun p hp => ?_⟩
      rw [passData] at hp
      split at hp
      · exact h.passed p hp
      · rename_i fd hfd
        rcases List.mem_cons.1 hp with rfl | hp
        · exact hfd
        · exact h.passed p hp

theorem Inv.sound (h : Inv s) : Sound s := by
  refine ⟨fun k hlost => ?_, fun l a b ha hb => Option.some.inj (ha.symm.trans hb), h.passed⟩
  obtain ⟨kind, l, x, o, hpc, hev, hne⟩ := hlost
  have hplaced := h.placed k
  rw [hpc, hev] at hplaced
  obtain ⟨rfl, -, heq | heq⟩ := hplaced
  · exact nomatch heq
  · cases heq
    exact hne rfl

theorem early_lost (hpc : s.calls k = some (.new .start l)) (hev : s.events k = .inFlight .start l)
    (hw : s.worker = .idle) (hnone : s.sem l .start = none) :
    ∃ t, Lib.Run Step s [.connected k, .task k true, .task k true, .task k true] t ∧ t.Lost k := by
  let s₁ : Links := { s with events := Function.update s.events k (.handled none) }
  let s₂ : Links := { (s₁.setSem l .start (some k)).setCall k (.valid .start l) with
    sems := Function.update s.sems k (some 0) }
  have h1 : Step s (.connected k) s₁ := by
    have hsem : (s.links l).sem .start = none := hnone
    simp [Step, Links.step, Links.connected, hw, hev, signal, hsem, s₁]
  have h2 : Step s₁ (.task k true) s₂ := by
    rw [Step, Links.step, Links.task, hpc]
    rfl
  have hpc2 : s₂.calls k = some (.valid .start l) := setCall_self
  have hsem2 : (s₂.links l).sem .start = some k := setSem_self
  have h3 : Step s₂ (.task k true) (s₂.setCall k (.enter .start l)) := by
    rw [Step, Links.step, Links.task, hpc2]
    dsimp only
    rw [hsem2]
    rfl
  have h4 : Step (s₂.setCall k (.enter .start l)) (.task k true)
      ((s₂.setCall k (.enter .start l)).setCall k (.wait .start l k)) := by
    rw [Step, Links.step, Links.task, setCall_self]
    dsimp only
    rw [show ((s₂.setCall k (.enter .start l)).links l).sem .start = some k from hsem2]
  exact ⟨_, .cons h1 (.cons h2 (.cons h3 (.cons h4 .nil))), .start, l, k, none, setCall_self, Function.update_self ..,
    nofun⟩

/-- **A semaphore made over another's** that a call waits on: the event of that call is lost. -/
theorem displaced_lost {kind : Kind} (hpc : s.calls k = some (.new kind l)) (hwait : s.calls j = some (.wait kind l j))
    (hev : s.events j = .inFlight kind l) (hw : s.worker = .idle) :
    ∃ as t, Lib.Run Step s (.task k true :: as) t ∧ t.Lost j := by
  have hne : j ≠ k := by
    rintro rfl
    exact nomatch hpc.symm.trans hwait
  let s₁ : Links := { (s.setSem l kind (some k)).setCall k (made l kind) with
    sems := Function.update s.sems k (some 0) }
  have h1 : Step s (.task k true) s₁ := by
    rw [Step, Links.step, Links.task, hpc]
    rfl
  have hpc1 : s₁.calls j = some (.wait kind l j) := (setCall_ne hne).trans hwait
  have hsem1 : (s₁.links l).sem kind = some k := setSem_self
  have hlost : ∀ {t : Links}, t.calls = s₁.calls → t.events j = .handled (some k) → t.Lost j := fun hcalls hevents =>
    ⟨kind, l, j, some k, hcalls ▸ hpc1, hevents, fun heq => hne (Option.some.inj heq).symm⟩
  cases kind with
  | start =>
    have h2 : Step s₁ (.connected j) { s₁.signal l .start with
        events := Function.update s.events j (.handled (some k)) } := by
      have hw1 : s₁.worker = .idle := hw
      have hev1 : s₁.events j = .inFlight .start l := hev
      rw [Step, Links.step, Links.connected, hw1, hev1]
      dsimp only
      rw [hsem1]
      rfl
    exact ⟨_, _, .cons h1 (.cons h2 .nil), hlost signal_calls (Function.update_self ..)⟩
  | close =>
    have h2 : Step s₁ (.closed j) (s₁.closed l (some j)) := by
      have hw1 : s₁.worker = .idle := hw
      have hev1 : s₁.events j = .inFlight .close l := hev
      rw [Step, Links.step, hw1, hev1]
    have h3 : Step (s₁.closed l (some j)) .worker ((s₁.closed l (some j)).wakeClose l (some j)) := rfl
    have hsem2 : ((s₁.closed l (some j)).links l).sem .close = some k := by
      have hfd : (s₁.setFd l none).sem l .close = s₁.sem l .close := congrFun setFd_sem _
      exact hfd.trans hsem1
    refine ⟨_, _, .cons h1 (.cons h2 (.cons h3 .nil)),
      hlost (t := (s₁.closed l (some j)).wakeClose l (some j)) signal_calls ?_⟩
    rw [wakeClose, hsem2]
    exact Function.update_self ..

end Links

/-- **Handshakes**: in every run whose steps meet the condition no event is lost, each link has one
    socket at most, and data goes to the socket that has the link.  A CONNECTED that comes then before
    its semaphore is lost, and so is the event of a call whose semaphore another call replaces. -/
theorem handshakes_sound (as : List LinkAct) (s : Links)
    (h : Lib.Run (Lib.restrict Links.Meets Links.Step) .init as s) :
    s.Sound ∧
    (∀ k l, s.calls k = some (.new .start l) → s.events k = .inFlight .start l → s.worker = .idle →
      s.sem l .start = none →
      ∃ t, Lib.Run Links.Step s [.connected k, .task k true, .task k true, .task k true] t ∧ t.Lost k) ∧
    ∀ k j kind l, s.calls k = some (.new kind l) → s.calls j = some (.wait kind l j) → s.events j = .inFlight kind l →
      s.worker = .idle → ∃ bs t, Lib.Run Links.Step s (.task k true :: bs) t ∧ t.Lost j := by
  have hinv : s.Inv := h.keeps (fun hinv hstep => hinv.step hstep.1 hstep.2) Links.inv_init
  refine ⟨hinv.sound, fun k l hpc hev hw hnone => ?_, fun k j kind l hpc hwait hev hw => ?_⟩
  · exact Links.early_lost hpc hev hw hnone
  · exact Links.displaced_lost hpc hwait hev hw

/-- A call that has sent its command. -/
def sent : List LinkAct := [.start 0 7 true, .task 0 true, .task 0 true]

/-- And has its semaphore, when the module is connected. -/
def inTime : List LinkAct :=
  sent ++ [.task 0 true, .connected 0, .task 0 true, .task 0 true, .task 0 true, .task 0 true]

theorem handshakes_sound_inTime :
    (∃ s, Lib.Run (Lib.restrict Links.Meets Links.Step) .init inTime s ∧ s.Sound) ∧
      ∃ s t, Lib.Run (Lib.restrict Links.Meets Links.Step) .init sent s ∧
        Lib.Run Links.Step s [.connected 0, .task 0 true, .task 0 true, .task 0 true] t ∧ t.Lost 0 := by
  constructor
  · have hrun : Lib.Run (Lib.restrict Links.Meets Links.Step) .init inTime _ :=
      .cons ⟨rfl, rfl⟩ (.cons ⟨rfl, rfl⟩ (.cons ⟨rfl, rfl⟩ (.cons ⟨rfl, rfl⟩ (.cons ⟨rfl, rfl⟩ (.cons ⟨rfl, rfl⟩
        (.cons ⟨rfl, rfl⟩ (.cons ⟨rfl, rfl⟩ (.cons ⟨rfl, rfl⟩ .nil))))))))
    exact ⟨_, hrun, (handshakes_sound inTime _ hrun).1⟩
  · have hrun : Lib.Run (Lib.restrict Links.Meets Links.Step) .init sent _ :=
      .cons ⟨rfl, rfl⟩ (.cons ⟨rfl, rfl⟩ (.cons ⟨rfl, rfl⟩ .nil))
    obtain ⟨t, hlost⟩ := (handshakes_sound sent _ hrun).2.1 0 0 rfl rfl rfl rfl
    exact ⟨_, t, hrun, hlost⟩

/-- The module is connected before `sal_wifi_start` has made its semaphore. -/
theorem connected_lost : ¬ ∀ (as : List LinkAct) (s : Links), Lib.Run Links.Step .init as s → s.Sound := by
  intro h
  have hrun : Lib.Run Links.Step .init (sent ++ [.connected 0, .task 0 true, .task 0 true, .task 0 true]) _ :=
    .cons rfl (.cons rfl (.cons rfl (.cons rfl (.cons rfl (.cons rfl (.cons rfl .nil))))))
  exact (h _ _ hrun).lost 0 ⟨.start, 0, 0, none, rfl, rfl, nofun⟩

end Sal
