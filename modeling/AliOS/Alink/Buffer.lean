/-
  The uplink buffer of Alink (`protocol/alink/accs/alink_protocol.c`, `connectivity/wsf`): who has
  taken `link_buff_sem`, and what the callbacks of the asynchronous requests have to free.

  A call waits for the buffer, sends its request, and gives the buffer back itself or in the
  callback.  The requests are in the bounded queue of WSF, with those of other users; a callback
  gets a response or `NULL`, which is the same here.  What a callback calls is a call of its own.
-/
import AliOS.Lib.Trans

namespace Alink

/-- What a callback frees. -/
inductive Obj
  | alinkReg
  | alinkPostCb
  | alinkProtCb
  deriving DecidableEq

/-- The functions; `__alink_post_async` allocates only where it gets a callback. -/
inductive Fn
  | alinkRegister
  | alinkLogin
  | alinkUnregister
  | alinkPost
  | alinkGet
  | alinkRegisterAsync
  | alinkLoginAsync
  | alinkUnregisterAsync
  | alinkPostAsync (cb : Bool)
  | alinkGetAsync
  deriving DecidableEq

def Fn.async : Fn → Bool
  | .alinkRegister | .alinkLogin | .alinkUnregister | .alinkPost | .alinkGet => false
  | .alinkRegisterAsync | .alinkLoginAsync | .alinkUnregisterAsync | .alinkPostAsync _ | .alinkGetAsync => true

/-- The buffer is given back by the callback, not by the function. -/
def Fn.callbackPuts : Fn → Bool
  | .alinkRegisterAsync | .alinkLoginAsync | .alinkUnregisterAsync => true
  | _ => false

def Fn.obj : Fn → Option Obj
  | .alinkRegisterAsync => some .alinkReg
  | .alinkPostAsync true => some .alinkPostCb
  | .alinkGetAsync => some .alinkProtCb
  | _ => none

/-- Where a call is: in `get_protocol_buff`, in `send` before the request is in the queue
    (`sending`), in `wsf_send_msg` (`pushed`), waiting for the response, before its own
    `put_protocol_buff`, and behind. -/
inductive BufPc
  | getting
  | sending
  | pushed
  | waiting
  | putting
  | returned
  deriving DecidableEq

/-- A call; whether its request is in the queue; how many runs of its callback have yet to give
    the buffer back, and to free; and how often both was done. -/
structure Call where
  fn : Fn
  pc : BufPc
  queued : Bool
  toPost : ℕ
  toFree : ℕ
  posts : ℕ
  frees : ℕ
  deriving DecidableEq

/-- `link_buff_sem`, the queue of requests with the newest first, and the calls.  What is in the
    queue and no call here is a request of another user of WSF. -/
structure Buf where
  sem : ℕ
  queue : List ℕ
  calls : ℕ → Option Call

def Buf.start : Buf := ⟨1, [], fun _ => none⟩

/-- Up to `get_protocol_buff`; an asynchronous function has allocated. -/
def Call.new (fn : Fn) : Call := ⟨fn, .getting, false, 0, 0, 0, 0⟩

/-- The callback is called. -/
def Call.callback (c : Call) : Call :=
  if c.fn.callbackPuts then { c with toPost := c.toPost + 1 } else { c with toFree := c.toFree + 1 }

/-- Behind `send` or `send_async`. -/
def Call.sent (c : Call) : Call := { c with pc := if c.fn.callbackPuts then .returned else .putting }

/-- The request is taken from the queue: its callback is called, or its thread is woken. -/
def Call.complete (c : Call) : Call :=
  let c := { c with queued := false }
  if c.fn.async then c.callback else c

/-- `send` returns `NULL`, or `send_async` fails with the callback called. -/
def Call.fail (c : Call) : Call := if c.fn.async then c.callback.sent else c.sent

/-- `wsf_send_msg` has failed: what is still in the queue is taken from it. -/
def Call.sendFail (c : Call) : Call := { c with queued := false }.fail

def Call.sendOk (c : Call) : Call := if c.fn.async then c.sent else { c with pc := .waiting }

def Call.put (c : Call) : Call := { c with pc := .returned, posts := c.posts + 1 }

def Call.callbackPut (c : Call) : Call :=
  { c with toPost := c.toPost - 1, posts := c.posts + 1, toFree := c.toFree + 1 }

def Call.callbackFree (c : Call) : Call :=
  { c with toFree := c.toFree - 1, frees := if c.fn.obj = none then c.frees else c.frees + 1 }

def Buf.setCall (s : Buf) (k : ℕ) (c : Call) : Buf := { s with calls := Function.update s.calls k (some c) }

/-- A request leaves the queue. -/
def Buf.complete (s : Buf) (k : ℕ) : Buf :=
  let s := { s with queue := s.queue.erase k }
  match s.calls k with
  | some c => s.setCall k c.complete
  | none => s

/-- `wsf_request_queue_push` of an asynchronous request: where the queue is full,
    `wsf_del_first_msg` takes the oldest request. -/
def Buf.displace (s : Buf) (max : ℕ) : Buf :=
  if max ≤ s.queue.length then
    match s.queue.getLast? with
    | some d => s.complete d
    | none => s
  else s

def Buf.push (s : Buf) (k : ℕ) : Buf := { s with queue := k :: s.queue }

inductive BufAct
  /-- A function is called. -/
  | call (k : ℕ) (fn : Fn)
  /-- `os_semaphore_wait` returns. -/
  | get (k : ℕ)
  /-- `send_async` returns without a call of its callback. -/
  | refuse (k : ℕ)
  /-- `__send_msg` fails before the queue, or at a full one. -/
  | fail (k : ℕ)
  | push (k : ℕ)
  | sendOk (k : ℕ)
  | sendFail (k : ℕ)
  /-- A response arrives, or the queue is flushed. -/
  | complete (k : ℕ)
  /-- A synchronous call has its response, or its time is out. -/
  | wake (k : ℕ)
  | put (k : ℕ)
  | callbackPut (k : ℕ)
  | callbackFree (k : ℕ)
  /-- Another user of WSF. -/
  | other (k : ℕ) (async : Bool)

/-- The steps, with the length of the queue. -/
def Buf.step (max : ℕ) (s : Buf) : BufAct → Option Buf
  | .call k fn => if s.calls k = none ∧ k ∉ s.queue then some (s.setCall k (.new fn)) else none
  | .get k =>
    match s.calls k with
    | some c =>
      if c.pc = .getting ∧ 0 < s.sem then some ({ s with sem := s.sem - 1 }.setCall k { c with pc := .sending })
      else none
    | none => none
  | .refuse k =>
    match s.calls k with
    | some c => if c.pc = .sending ∧ c.fn.async then some (s.setCall k c.sent) else none
    | none => none
  | .fail k =>
    match s.calls k with
    | some c => if c.pc = .sending then some (s.setCall k c.fail) else none
    | none => none
  | .push k =>
    match s.calls k with
    | some c =>
      if c.pc = .sending then
        if c.fn.async then some (((s.displace max).push k).setCall k { c with pc := .pushed, queued := true })
        else if s.queue.length < max then some ((s.push k).setCall k { c with pc := .pushed, queued := true })
        else none
      else none
    | none => none
  | .sendOk k =>
    match s.calls k with
    | some c => if c.pc = .pushed then some (s.setCall k c.sendOk) else none
    | none => none
  | .sendFail k =>
    match s.calls k with
    | some c =>
      if c.pc = .pushed then some ({ s with queue := s.queue.erase k }.setCall k c.sendFail) else none
    | none => none
  | .complete k => if k ∈ s.queue then some (s.complete k) else none
  | .wake k =>
    match s.calls k with
    | some c =>
      if c.pc = .waiting then
        some ({ s with queue := s.queue.erase k }.setCall k { c with pc := .putting, queued := false })
      else none
    | none => none
  | .put k =>
    match s.calls k with
    | some c => if c.pc = .putting then some ({ s with sem := s.sem + 1 }.setCall k c.put) else none
    | none => none
  | .callbackPut k =>
    match s.calls k with
    | some c => if 0 < c.toPost then some ({ s with sem := s.sem + 1 }.setCall k c.callbackPut) else none
    | none => none
  | .callbackFree k =>
    match s.calls k with
    | some c => if 0 < c.toFree then some (s.setCall k c.callbackFree) else none
    | none => none
  | .other k async =>
    if s.calls k = none ∧ k ∉ s.queue then
      if async then some ((s.displace max).push k) else if s.queue.length < max then some (s.push k) else none
    else none

def BufStep (max : ℕ) (s : Buf) (a : BufAct) (s' : Buf) : Prop := s.step max a = some s'

/-- A request of the call has yet to be answered, or to be sent. -/
def Call.asked (c : Call) : ℕ := if c.pc = .sending ∨ c.queued = true then 1 else 0

/-- The posts of the buffer that are still to come for a call: its own, or that of its request,
    which will have its callback called, and those of the callbacks. -/
def Call.duePosts (c : Call) : ℕ :=
  if c.fn.callbackPuts then c.asked + c.toPost else if c.pc = .getting ∨ c.pc = .returned then 0 else 1

/-- The frees of its object that are still to come. -/
def Call.dueFrees (c : Call) : ℕ := (if c.pc = .getting then 1 else c.asked) + c.toPost + c.toFree

/-- **Once**: the buffer that a call waited for has one post, made or to come, and its object one
    free. -/
structure Call.Right (c : Call) : Prop where
  posts : c.pc ≠ .getting → c.posts + c.duePosts = 1
  frees : c.fn.obj ≠ none → c.frees + c.dueFrees = 1

/-- **The buffer**: where it is taken a post of it is to come. -/
structure Buf.Right (s : Buf) : Prop where
  calls : ∀ k c, s.calls k = some c → c.Right
  taken : s.sem = 0 → ∃ k c, s.calls k = some c ∧ 0 < c.duePosts

/-- What `send_async` has to do for its callers, but for a post without a callback of its own: it
    fails with their callback called, and only once. -/
def BufMeets (s : Buf) : BufAct → Prop
  | .refuse k => ∀ c, s.calls k = some c → c.fn = .alinkPostAsync false
  | .sendFail k => ∀ c, s.calls k = some c → c.queued = true ∨ c.fn.async = false ∨ c.fn = .alinkPostAsync false
  | _ => True

/-! ## One call -/

variable {s s' t : Buf} {c c' : Call} {a : BufAct} {fn : Fn} {k max : ℕ}

theorem sync_obj (h : fn.async = false) : fn.obj = none ∧ fn.callbackPuts = false := by
  cases fn <;> first | exact ⟨rfl, rfl⟩ | exact nomatch h

theorem obj_of_own (ha : fn.async = true) (hcb : fn.callbackPuts = false) (hf : fn ≠ .alinkPostAsync false) :
    fn.obj ≠ none := by
  cases fn with
  | alinkPostAsync cb =>
    cases cb with
    | true => exact nofun
    | false => exact absurd rfl hf
  | alinkGetAsync => exact nofun
  | alinkRegisterAsync | alinkLoginAsync | alinkUnregisterAsync => cases hcb
  | alinkRegister | alinkLogin | alinkUnregister | alinkPost | alinkGet => cases ha

/-- What holds of a call, whatever WSF does. -/
structure Call.Wf (c : Call) : Prop where
  puts : c.fn.callbackPuts = true → c.pc ≠ .putting ∧ c.pc ≠ .waiting
  sync : c.pc = .waiting → c.fn.async = false
  early : c.pc = .getting ∨ c.pc = .sending →
    c.queued = false ∧ c.toPost = 0 ∧ c.toFree = 0 ∧ c.posts = 0 ∧ c.frees = 0
  own : c.fn.callbackPuts = false → c.toPost = 0

/-- Behind `send`. -/
def Call.Late (c : Call) : Prop := c.pc ≠ .getting ∧ c.pc ≠ .sending ∧ c.pc ≠ .pushed

/-- What is made and to come stays the same. -/
structure Steady (c c' : Call) : Prop where
  fn : c'.fn = c.fn
  posts : c'.posts + c'.duePosts = c.posts + c.duePosts
  frees : c.fn.obj ≠ none → c'.frees + c'.dueFrees = c.frees + c.dueFrees
  getting : c.pc ≠ .getting ∧ c'.pc ≠ .getting
  late : c.Late → c'.Late
  wf : c'.Wf

theorem Steady.right (h : Steady c c') (hr : c.Right) : c'.Right := by
  constructor
  · intro _
    rw [h.posts]
    exact hr.posts h.getting.1
  · intro ho
    rw [h.fn] at ho
    rw [h.frees ho]
    exact hr.frees ho

theorem Steady.not_right (h : Steady c c') (hr : ¬ c.Right) : ¬ c'.Right := by
  intro hr'
  apply hr
  constructor
  · intro _
    rw [← h.posts]
    exact hr'.posts h.getting.2
  · intro ho
    rw [← h.frees ho]
    exact hr'.frees (h.fn ▸ ho)

theorem duePosts_callback (h : c.fn.callbackPuts = true) : c.duePosts = c.asked + c.toPost := if_pos h

theorem dueFrees_late (h : c.pc ≠ .getting) : c.dueFrees = c.asked + c.toPost + c.toFree := by
  rw [Call.dueFrees, if_neg h]

theorem Call.Wf.of_queued (hw : c.Wf) (hq : c.queued = true) : c.pc ≠ .getting ∧ c.pc ≠ .sending := by
  constructor <;> intro hp
  · exact nomatch (hw.early (.inl hp)).1.symm.trans hq
  · exact nomatch (hw.early (.inr hp)).1.symm.trans hq

theorem wf_of_late (hfn : c'.fn = c.fn) (hpc : c'.pc ≠ .getting ∧ c'.pc ≠ .sending)
    (hputs : c.fn.callbackPuts = true → c'.pc ≠ .putting ∧ c'.pc ≠ .waiting)
    (hsync : c'.pc = .waiting → c.fn.async = false) (hown : c.fn.callbackPuts = false → c'.toPost = 0) : c'.Wf := by
  refine ⟨by rw [hfn]; exact hputs, by rw [hfn]; exact hsync, ?_, by rw [hfn]; exact hown⟩
  rintro (h | h)
  · exact absurd h hpc.1
  · exact absurd h hpc.2

theorem steady_put (hw : c.Wf) (hp : c.pc = .putting) : Steady c c.put := by
  have hcb : c.fn.callbackPuts = false := by
    by_contra hne
    exact (hw.puts (by simpa using hne)).1 hp
  refine ⟨rfl, ?_, fun _ => ?_, ⟨by rw [hp]; exact nofun, nofun⟩, fun _ => ⟨nofun, nofun, nofun⟩, ?_⟩
  · simp [Call.duePosts, Call.put, hcb, hp]
  · simp [Call.dueFrees, Call.asked, Call.put, hp]
  · exact wf_of_late rfl ⟨nofun, nofun⟩ (fun h => absurd (hcb.symm.trans h) nofun) nofun fun h => hw.own h

theorem steady_callbackPut (hw : c.Wf) (hp : 0 < c.toPost) : Steady c c.callbackPut := by
  have hcb : c.fn.callbackPuts = true := by
    by_contra hne
    have := hw.own (by simpa using hne)
    omega
  have hpc : c.pc ≠ .getting ∧ c.pc ≠ .sending := by
    constructor <;> intro hpc
    · have := (hw.early (.inl hpc)).2.1
      omega
    · have := (hw.early (.inr hpc)).2.1
      omega
  have hasked : c.callbackPut.asked = c.asked := rfl
  have hposts : c.callbackPut.posts = c.posts + 1 := rfl
  have hpost : c.callbackPut.toPost = c.toPost - 1 := rfl
  have hfrees : c.callbackPut.frees = c.frees := rfl
  have hfree : c.callbackPut.toFree = c.toFree + 1 := rfl
  refine ⟨rfl, ?_, fun _ => ?_, ⟨hpc.1, hpc.1⟩, id, ?_⟩
  · rw [duePosts_callback hcb, duePosts_callback (c := c.callbackPut) hcb, hasked, hposts, hpost]
    omega
  · rw [dueFrees_late hpc.1, dueFrees_late (c := c.callbackPut) hpc.1, hasked, hfrees, hpost, hfree]
    omega
  · exact wf_of_late rfl hpc hw.puts hw.sync fun h => absurd (hcb.symm.trans h) nofun

theorem steady_callbackFree (hw : c.Wf) (hp : 0 < c.toFree) : Steady c c.callbackFree := by
  have hpc : c.pc ≠ .getting ∧ c.pc ≠ .sending := by
    constructor <;> intro hpc
    · have := (hw.early (.inl hpc)).2.2.1
      omega
    · have := (hw.early (.inr hpc)).2.2.1
      omega
  refine ⟨rfl, rfl, fun ho => ?_, ⟨hpc.1, hpc.1⟩, id, wf_of_late rfl hpc hw.puts hw.sync hw.own⟩
  have hasked : c.callbackFree.asked = c.asked := rfl
  have hpost : c.callbackFree.toPost = c.toPost := rfl
  have hfrees : c.callbackFree.frees = c.frees + 1 := if_neg ho
  have hfree : c.callbackFree.toFree = c.toFree - 1 := rfl
  rw [dueFrees_late hpc.1, dueFrees_late (c := c.callbackFree) hpc.1, hasked, hfrees, hpost, hfree]
  omega

theorem callback_puts (h : c.fn.callbackPuts = true) : c.callback = { c with toPost := c.toPost + 1 } := if_pos h

theorem callback_own (h : c.fn.callbackPuts = false) : c.callback = { c with toFree := c.toFree + 1 } := by
  rw [Call.callback, h]
  rfl

theorem sent_puts (h : c.fn.callbackPuts = true) : c.sent = { c with pc := .returned } := by
  rw [Call.sent, if_pos h]

theorem sent_own (h : c.fn.callbackPuts = false) : c.sent = { c with pc := .putting } := by
  rw [Call.sent, h]
  rfl

theorem steady_complete (hw : c.Wf) (hq : c.queued = true) : Steady c c.complete := by
  have hpc := hw.of_queued hq
  cases ha : c.fn.async with
  | false =>
    obtain ⟨ho, hcb⟩ := sync_obj ha
    have hc : c.complete = { c with queued := false } := by rw [Call.complete, ha]; rfl
    rw [hc]
    refine ⟨rfl, ?_, fun h => absurd ho h, ⟨hpc.1, hpc.1⟩, id, wf_of_late rfl hpc hw.puts hw.sync hw.own⟩
    simp [Call.duePosts, hcb]
  | true =>
    cases hcb : c.fn.callbackPuts with
    | true =>
      have hc : c.complete = { c with queued := false, toPost := c.toPost + 1 } := by
        rw [Call.complete, ha]
        exact callback_puts hcb
      rw [hc]
      refine ⟨rfl, ?_, fun _ => ?_, ⟨hpc.1, hpc.1⟩, id, ?_⟩
      · simp [Call.duePosts, Call.asked, hcb, hpc.2, hq, Nat.add_comm]
      · simp [Call.dueFrees, Call.asked, hpc, hq, Nat.add_comm]
      · exact wf_of_late rfl hpc hw.puts hw.sync fun h => absurd (hcb.symm.trans h) nofun
    | false =>
      have hc : c.complete = { c with queued := false, toFree := c.toFree + 1 } := by
        rw [Call.complete, ha]
        exact callback_own hcb
      rw [hc]
      refine ⟨rfl, ?_, fun _ => ?_, ⟨hpc.1, hpc.1⟩, id, wf_of_late rfl hpc hw.puts hw.sync hw.own⟩
      · simp [Call.duePosts, hcb]
      · simp [Call.dueFrees, Call.asked, hpc, hq]
        omega

theorem steady_push (hw : c.Wf) (hp : c.pc = .sending) : Steady c { c with pc := .pushed, queued := true } := by
  refine ⟨rfl, ?_, fun _ => ?_, ⟨by rw [hp]; exact nofun, nofun⟩, fun h => absurd hp h.2.1, ?_⟩
  · simp [Call.duePosts, Call.asked, hp]
  · simp [Call.dueFrees, Call.asked, hp]
  · exact wf_of_late rfl ⟨nofun, nofun⟩ (fun _ => ⟨nofun, nofun⟩) nofun hw.own

theorem steady_sent (hw : c.Wf) (hp : c.pc = .pushed) : Steady c c.sent := by
  cases hcb : c.fn.callbackPuts with
  | true =>
    rw [sent_puts hcb]
    refine ⟨rfl, ?_, fun _ => ?_, ⟨by rw [hp]; exact nofun, nofun⟩, fun h => absurd hp h.2.2, ?_⟩
    · simp [Call.duePosts, Call.asked, hcb, hp]
    · simp [Call.dueFrees, Call.asked, hp]
    · exact wf_of_late rfl ⟨nofun, nofun⟩ (fun _ => ⟨nofun, nofun⟩) nofun hw.own
  | false =>
    rw [sent_own hcb]
    refine ⟨rfl, ?_, fun _ => ?_, ⟨by rw [hp]; exact nofun, nofun⟩, fun h => absurd hp h.2.2, ?_⟩
    · simp [Call.duePosts, hcb, hp]
    · simp [Call.dueFrees, Call.asked, hp]
    · exact wf_of_late rfl ⟨nofun, nofun⟩ (fun h => absurd (hcb.symm.trans h) nofun) nofun hw.own

theorem steady_sendOk (hw : c.Wf) (hp : c.pc = .pushed) : Steady c c.sendOk := by
  cases ha : c.fn.async with
  | false =>
    obtain ⟨ho, hcb⟩ := sync_obj ha
    have hc : c.sendOk = { c with pc := .waiting } := by rw [Call.sendOk, ha]; rfl
    rw [hc]
    refine ⟨rfl, ?_, fun h => absurd ho h, ⟨by rw [hp]; exact nofun, nofun⟩, fun h => absurd hp h.2.2, ?_⟩
    · simp [Call.duePosts, hcb, hp]
    · exact wf_of_late rfl ⟨nofun, nofun⟩ (fun h => absurd (hcb.symm.trans h) nofun) (fun _ => ha) hw.own
  | true =>
    have hs : c.sendOk = c.sent := if_pos ha
    rw [hs]
    exact steady_sent hw hp

theorem Steady.trans (h : Steady c c') {d : Call} (h' : Steady c' d) : Steady c d where
  fn := h'.fn.trans h.fn
  posts := h'.posts.trans h.posts
  frees ho := (h'.frees (by rw [h.fn]; exact ho)).trans (h.frees ho)
  getting := ⟨h.getting.1, h'.getting.2⟩
  late hl := h'.late (h.late hl)
  wf := h'.wf

theorem fail_of_async (ha : c.fn.async = true) : c.fail = c.callback.sent := if_pos ha

theorem fail_of_sync (ha : c.fn.async = false) : c.fail = c.sent := by
  rw [Call.fail, ha]
  rfl

/-- A failed send, where the request is still in the queue, or where nobody is told twice. -/
theorem steady_sendFail (hw : c.Wf) (hp : c.pc = .pushed)
    (h : c.queued = true ∨ c.fn.async = false ∨ c.fn = .alinkPostAsync false) : Steady c c.sendFail := by
  by_cases hq : c.queued = true
  · have hc : c.sendFail = c.complete.sent := by
      cases ha : c.fn.async with
      | false => rw [Call.sendFail, fail_of_sync (c := { c with queued := false }) ha, Call.complete, ha]; rfl
      | true => rw [Call.sendFail, fail_of_async (c := { c with queued := false }) ha, Call.complete, ha]; rfl
    have hsteady := steady_complete hw hq
    have hpc : c.complete.pc = .pushed := by
      rw [Call.complete, Call.callback]
      split_ifs <;> exact hp
    rw [hc]
    exact hsteady.trans (steady_sent hsteady.wf hpc)
  · have hq' : c.queued = false := by simpa using hq
    have hsame : { c with queued := false } = c := by rw [← hq']
    rw [Call.sendFail, hsame]
    rcases h with h | ha | hf
    · exact absurd h hq
    · rw [fail_of_sync ha]
      exact steady_sent hw hp
    · have hcb : c.fn.callbackPuts = false := by rw [hf]; rfl
      have ho : c.fn.obj = none := by rw [hf]; rfl
      rw [fail_of_async (by rw [hf]; rfl), callback_own hcb]
      have hfree : Steady c { c with toFree := c.toFree + 1 } := by
        have hpc : c.pc ≠ .getting ∧ c.pc ≠ .sending := by rw [hp]; exact ⟨nofun, nofun⟩
        exact ⟨rfl, rfl, fun h => absurd ho h, ⟨hpc.1, hpc.1⟩, id, wf_of_late rfl hpc hw.puts hw.sync hw.own⟩
      exact hfree.trans (steady_sent hfree.wf hp)

theorem steady_fail (hw : c.Wf) (hp : c.pc = .sending) : Steady c c.fail := by
  obtain ⟨hq, -, -, -, -⟩ := hw.early (.inr hp)
  have hlate : ∀ {c' : Call}, c.Late → c'.Late := fun h => absurd hp h.2.1
  cases ha : c.fn.async with
  | false =>
    obtain ⟨ho, hcb⟩ := sync_obj ha
    rw [fail_of_sync ha, sent_own hcb]
    refine ⟨rfl, ?_, fun h => absurd ho h, ⟨by rw [hp]; exact nofun, nofun⟩, hlate, ?_⟩
    · simp [Call.duePosts, hcb, hp]
    · exact wf_of_late rfl ⟨nofun, nofun⟩ (fun h => absurd (hcb.symm.trans h) nofun) nofun hw.own
  | true =>
    rw [fail_of_async ha]
    cases hcb : c.fn.callbackPuts with
    | true =>
      rw [callback_puts hcb, sent_puts (c := { c with toPost := c.toPost + 1 }) hcb]
      refine ⟨rfl, ?_, fun _ => ?_, ⟨by rw [hp]; exact nofun, nofun⟩, hlate, ?_⟩
      · simp [Call.duePosts, Call.asked, hcb, hp, hq, Nat.add_comm]
      · simp [Call.dueFrees, Call.asked, hp, hq, Nat.add_comm]
      · exact wf_of_late rfl ⟨nofun, nofun⟩ (fun _ => ⟨nofun, nofun⟩) nofun fun h => absurd (hcb.symm.trans h) nofun
    | false =>
      rw [callback_own hcb, sent_own (c := { c with toFree := c.toFree + 1 }) hcb]
      refine ⟨rfl, ?_, fun _ => ?_, ⟨by rw [hp]; exact nofun, nofun⟩, hlate, ?_⟩
      · simp [Call.duePosts, hcb, hp]
      · simp [Call.dueFrees, Call.asked, hp, hq]
        omega
      · exact wf_of_late rfl ⟨nofun, nofun⟩ (fun h => absurd (hcb.symm.trans h) nofun) nofun hw.own

theorem steady_refuse (hw : c.Wf) (hp : c.pc = .sending) (hf : c.fn = .alinkPostAsync false) : Steady c c.sent := by
  have hcb : c.fn.callbackPuts = false := by rw [hf]; rfl
  have ho : c.fn.obj = none := by rw [hf]; rfl
  rw [sent_own hcb]
  refine ⟨rfl, ?_, fun h => absurd ho h, ⟨by rw [hp]; exact nofun, nofun⟩, fun h => absurd hp h.2.1, ?_⟩
  · simp [Call.duePosts, hcb, hp]
  · exact wf_of_late rfl ⟨nofun, nofun⟩ (fun h => absurd (hcb.symm.trans h) nofun) nofun hw.own

theorem steady_wake (hw : c.Wf) (hp : c.pc = .waiting) : Steady c { c with pc := .putting, queued := false } := by
  have ha := hw.sync hp
  obtain ⟨ho, hcb⟩ := sync_obj ha
  refine ⟨rfl, ?_, fun h => absurd ho h, ⟨by rw [hp]; exact nofun, nofun⟩, fun _ => ⟨nofun, nofun, nofun⟩, ?_⟩
  · simp [Call.duePosts, hcb, hp]
  · exact wf_of_late rfl ⟨nofun, nofun⟩ (fun h => absurd (hcb.symm.trans h) nofun) nofun hw.own

theorem lost_refuse (hw : c.Wf) (hp : c.pc = .sending) (ha : c.fn.async = true) (hf : c.fn ≠ .alinkPostAsync false) :
    c.sent.Wf ∧ c.sent.Late ∧ ¬ c.sent.Right := by
  obtain ⟨hq, hpost, hfree, hposts, hfrees⟩ := hw.early (.inr hp)
  cases hcb : c.fn.callbackPuts with
  | true =>
    rw [sent_puts hcb]
    refine ⟨wf_of_late rfl ⟨nofun, nofun⟩ (fun _ => ⟨nofun, nofun⟩) nofun hw.own, ⟨nofun, nofun, nofun⟩, fun hr => ?_⟩
    have hsum := hr.posts nofun
    simp [Call.duePosts, Call.asked, hcb, hq, hpost, hposts] at hsum
  | false =>
    rw [sent_own hcb]
    refine ⟨wf_of_late rfl ⟨nofun, nofun⟩ (fun h => absurd (hcb.symm.trans h) nofun) nofun hw.own,
      ⟨nofun, nofun, nofun⟩, fun hr => ?_⟩
    have ho : c.fn.obj ≠ none := obj_of_own ha hcb hf
    have hsum := hr.frees ho
    simp [Call.dueFrees, Call.asked, hq, hpost, hfree, hfrees] at hsum

theorem lost_sendFail (hw : c.Wf) (hp : c.pc = .pushed)
    (h : ¬ (c.queued = true ∨ c.fn.async = false ∨ c.fn = .alinkPostAsync false)) :
    c.sendFail.Wf ∧ c.sendFail.Late ∧ (c.Right → ¬ c.sendFail.Right) := by
  have hq : c.queued = false := by
    by_contra hne
    exact h (.inl (by simpa using hne))
  have ha : c.fn.async = true := by
    by_contra hne
    exact h (.inr (.inl (by simpa using hne)))
  have hf : c.fn ≠ .alinkPostAsync false := fun hf => h (.inr (.inr hf))
  have hsame : { c with queued := false } = c := by rw [← hq]
  have hpc : c.pc ≠ .getting ∧ c.pc ≠ .sending := by rw [hp]; exact ⟨nofun, nofun⟩
  rw [Call.sendFail, hsame, fail_of_async ha]
  cases hcb : c.fn.callbackPuts with
  | true =>
    rw [callback_puts hcb, sent_puts (c := { c with toPost := c.toPost + 1 }) hcb]
    refine ⟨wf_of_late rfl ⟨nofun, nofun⟩ (fun _ => ⟨nofun, nofun⟩) nofun fun h => absurd (hcb.symm.trans h) nofun,
      ⟨nofun, nofun, nofun⟩, fun hr hr' => ?_⟩
    have hsum := hr.posts hpc.1
    have hsum' := hr'.posts nofun
    simp [Call.duePosts, Call.asked, hcb, hq, hp] at hsum hsum'
    omega
  | false =>
    rw [callback_own hcb, sent_own (c := { c with toFree := c.toFree + 1 }) hcb]
    refine ⟨wf_of_late rfl ⟨nofun, nofun⟩ (fun h => absurd (hcb.symm.trans h) nofun) nofun hw.own,
      ⟨nofun, nofun, nofun⟩, fun hr hr' => ?_⟩
    have ho : c.fn.obj ≠ none := obj_of_own ha hcb hf
    have hsum := hr.frees ho
    have hsum' := hr'.frees ho
    simp [Call.dueFrees, Call.asked, hq, hp] at hsum hsum'
    omega

/-! ## The queue -/

/-- The queue and the calls tell the same. -/
structure Queued (s : Buf) : Prop where
  nodup : s.queue.Nodup
  calls : ∀ k c, s.calls k = some c → (c.queued = true ↔ k ∈ s.queue) ∧ c.Wf

/-- A step that changes at most one call, and what is made and to come of none. -/
inductive Clean (s s' : Buf) : Prop
  | same (sem : s'.sem = s.sem) (calls : s'.calls = s.calls)
  | set (k : ℕ) (c c' : Call) (was : s.calls k = some c) (steady : Steady c c')
      (calls : s'.calls = Function.update s.calls k (some c')) (sem : s'.sem + c'.duePosts = s.sem + c.duePosts)
  | new (k : ℕ) (fn : Fn) (was : s.calls k = none) (calls : s'.calls = Function.update s.calls k (some (.new fn)))
      (sem : s'.sem = s.sem)
  | get (k : ℕ) (c : Call) (was : s.calls k = some c) (pc : c.pc = .getting) (wf : c.Wf)
      (calls : s'.calls = Function.update s.calls k (some { c with pc := .sending })) (sem : s'.sem + 1 = s.sem)

theorem Queued.set {sem : ℕ} {queue : List ℕ} (h : Queued s) (hw : c'.Wf) (hn : queue.Nodup)
    (hother : ∀ l, l ≠ k → (l ∈ queue ↔ l ∈ s.queue)) (hself : c'.queued = true ↔ k ∈ queue) :
    Queued ⟨sem, queue, Function.update s.calls k (some c')⟩ := by
  refine ⟨hn, ?_⟩
  intro l d hl
  by_cases hlk : l = k
  · subst hlk
    simp only [Function.update_self, Option.some.injEq] at hl
    subst hl
    exact ⟨hself, hw⟩
  · simp only [Function.update_of_ne hlk] at hl
    obtain ⟨hq, hw⟩ := h.calls l d hl
    exact ⟨hq.trans (hother l hlk).symm, hw⟩

theorem Steady.due (h : Steady c c') (hp : c'.posts = c.posts) : c'.duePosts = c.duePosts := by
  have := h.posts
  omega

theorem complete_posts : c.complete.posts = c.posts := by
  rw [Call.complete, Call.callback]
  split_ifs <;> rfl

theorem complete_queued : c.complete.queued = false := by
  rw [Call.complete, Call.callback]
  split_ifs <;> rfl

theorem complete_some (hc : s.calls k = some c) :
    s.complete k = { s with queue := s.queue.erase k }.setCall k c.complete := by
  rw [Buf.complete]
  simp only [hc]

theorem complete_none (hc : s.calls k = none) : s.complete k = { s with queue := s.queue.erase k } := by
  rw [Buf.complete]
  simp only [hc]

theorem complete_spec (h : Queued s) (hk : k ∈ s.queue) :
    Queued (s.complete k) ∧ Clean s (s.complete k) ∧ (s.complete k).queue = s.queue.erase k ∧
      ∀ l, l ≠ k → (s.complete k).calls l = s.calls l := by
  have hn : (s.queue.erase k).Nodup := h.nodup.erase k
  have hother : ∀ l, l ≠ k → (l ∈ s.queue.erase k ↔ l ∈ s.queue) := fun l hl => List.mem_erase_of_ne hl
  have hself : k ∉ s.queue.erase k := h.nodup.not_mem_erase
  cases hc : s.calls k with
  | none =>
    rw [complete_none hc]
    refine ⟨⟨hn, ?_⟩, .same rfl rfl, rfl, fun _ _ => rfl⟩
    intro l d hl
    have hlk : l ≠ k := by
      rintro rfl
      exact nomatch hc.symm.trans hl
    obtain ⟨hq, hw⟩ := h.calls l d hl
    exact ⟨hq.trans (hother l hlk).symm, hw⟩
  | some c =>
    rw [complete_some hc]
    obtain ⟨hq, hw⟩ := h.calls k c hc
    have hsteady := steady_complete hw (hq.2 hk)
    refine ⟨h.set hsteady.wf hn hother ?_, .set k c c.complete hc hsteady rfl ?_, rfl, fun l hl => ?_⟩
    · rw [complete_queued]
      exact ⟨nofun, fun hm => absurd hm hself⟩
    · rw [hsteady.due complete_posts]
      rfl
    · exact Function.update_of_ne hl ..

theorem displace_spec (h : Queued s) :
    Queued (s.displace max) ∧ Clean s (s.displace max) ∧
      ∀ k, k ∉ s.queue → k ∉ (s.displace max).queue ∧ (s.displace max).calls k = s.calls k := by
  have hsame : Queued s ∧ Clean s s ∧ ∀ k, k ∉ s.queue → k ∉ s.queue ∧ s.calls k = s.calls k :=
    ⟨h, .same rfl rfl, fun _ hk => ⟨hk, rfl⟩⟩
  rw [Buf.displace]
  split_ifs
  · cases hd : s.queue.getLast? with
    | none => exact hsame
    | some d =>
      have hmem : d ∈ s.queue := List.mem_of_getLast? hd
      obtain ⟨hq, hc, hqueue, hother⟩ := complete_spec h hmem
      refine ⟨hq, hc, fun k hk => ⟨?_, hother k ?_⟩⟩
      · simp only [hqueue]
        exact fun hm => hk (List.mem_of_mem_erase hm)
      · rintro rfl
        exact hk hmem
  · exact hsame

/-- A step: clean, where WSF does what it has to, with what a push displaces before it; or one
    that loses a post or a free, or makes one twice. -/
inductive BufEffect (s : Buf) (a : BufAct) (s' : Buf) : Prop
  | clean (t : Buf) (meets : BufMeets s a) (first : Clean s t) (second : Clean t s')
  | lost (k : ℕ) (c c' : Call) (meets : ¬ BufMeets s a) (was : s.calls k = some c) (early : ¬ c.Late)
      (wf : c'.Wf) (late : c'.Late) (lost : c.Right → ¬ c'.Right)
      (calls : s'.calls = Function.update s.calls k (some c'))

theorem BufEffect.once (hm : BufMeets s a) (h : Clean s s') : BufEffect s a s' := .clean s hm (.same rfl rfl) h

theorem step_stays {a : BufAct} {n : ℕ} (hs : Queued s) (hm : BufMeets s a) (hc : s.calls k = some c)
    (hsteady : Steady c c') (hqueued : c'.queued = c.queued) (hsem : n + c.posts = s.sem + c'.posts) :
    Queued ({ s with sem := n }.setCall k c') ∧ BufEffect s a ({ s with sem := n }.setCall k c') := by
  obtain ⟨hq, -⟩ := hs.calls k c hc
  refine ⟨hs.set hsteady.wf hs.nodup (fun _ _ => Iff.rfl) (hqueued ▸ hq), .once hm (.set k c c' hc hsteady rfl ?_)⟩
  have hposts := hsteady.posts
  change n + c'.duePosts = s.sem + c.duePosts
  omega

theorem step_leaves {a : BufAct} (hs : Queued s) (hm : BufMeets s a) (hc : s.calls k = some c)
    (hsteady : Steady c c') (hqueued : c'.queued = false) (hposts : c'.posts = c.posts) :
    Queued ({ s with queue := s.queue.erase k }.setCall k c') ∧
      BufEffect s a ({ s with queue := s.queue.erase k }.setCall k c') := by
  refine ⟨hs.set hsteady.wf (hs.nodup.erase k) (fun l hl => List.mem_erase_of_ne hl) ?_,
    .once hm (.set k c c' hc hsteady rfl (congrArg (s.sem + ·) (hsteady.due hposts)))⟩
  rw [hqueued]
  exact ⟨nofun, fun hmem => absurd hmem hs.nodup.not_mem_erase⟩

theorem step_pushes {t : Buf} (ht : Queued t) (hst : Clean s t) (hk : k ∉ t.queue) (hc : t.calls k = some c)
    (hw : c.Wf) (hp : c.pc = .sending) :
    Queued ((t.push k).setCall k { c with pc := .pushed, queued := true }) ∧
      BufEffect s (.push k) ((t.push k).setCall k { c with pc := .pushed, queued := true }) := by
  have hsteady := steady_push hw hp
  refine ⟨ht.set hsteady.wf (List.nodup_cons.2 ⟨hk, ht.nodup⟩) (fun l hl => ?_)
    ⟨fun _ => List.mem_cons_self, fun _ => rfl⟩, .clean _ trivial hst (.set k c _ hc hsteady rfl ?_)⟩
  · exact List.mem_cons.trans ⟨fun h => h.resolve_left hl, .inr⟩
  · exact congrArg (_ + ·) (hsteady.due rfl)

theorem step_spec (hs : Queued s) (h : BufStep max s a s') : Queued s' ∧ BufEffect s a s' := by
  rw [BufStep] at h
  have herase : ∀ k l, l ≠ k → (l ∈ s.queue.erase k ↔ l ∈ s.queue) := fun k l hl => List.mem_erase_of_ne hl
  have hgone : ∀ k, k ∉ s.queue.erase k := fun k => hs.nodup.not_mem_erase
  cases a with
  | call k fn =>
    rw [Buf.step] at h
    split_ifs at h with hk
    cases h
    refine ⟨hs.set ⟨fun _ => ⟨nofun, nofun⟩, nofun, fun _ => ⟨rfl, rfl, rfl, rfl, rfl⟩, fun _ => rfl⟩ hs.nodup
      (fun _ _ => Iff.rfl) ⟨nofun, fun hm => absurd hm hk.2⟩, .once trivial (.new k fn hk.1 rfl rfl)⟩
  | get k =>
    rw [Buf.step] at h
    split at h
    · rename_i c hc
      split_ifs at h with hp
      cases h
      obtain ⟨hq, hw⟩ := hs.calls k c hc
      have hearly := hw.early (.inl hp.1)
      refine ⟨hs.set ⟨fun _ => ⟨nofun, nofun⟩, nofun, fun _ => hearly, hw.own⟩ hs.nodup (fun _ _ => Iff.rfl) hq,
        .once trivial (.get k c hc hp.1 hw rfl ?_)⟩
      exact Nat.sub_add_cancel hp.2
    · exact nomatch h
  | refuse k =>
    rw [Buf.step] at h
    split at h
    · rename_i c hc
      split_ifs at h with hp
      cases h
      obtain ⟨hq, hw⟩ := hs.calls k c hc
      have hqueued : c.sent.queued = c.queued := rfl
      by_cases hf : c.fn = .alinkPostAsync false
      · have hsteady := steady_refuse hw hp.1 hf
        have hmeets : BufMeets s (.refuse k) := by
          intro d hd
          obtain rfl := Option.some.inj (hc.symm.trans hd)
          exact hf
        exact step_stays hs hmeets hc hsteady hqueued rfl
      · obtain ⟨hw', hl, hr⟩ := lost_refuse hw hp.1 hp.2 hf
        exact ⟨hs.set hw' hs.nodup (fun _ _ => Iff.rfl) (hqueued ▸ hq),
          .lost k c c.sent (fun hm => hf (hm c hc)) hc (fun h => h.2.1 hp.1) hw' hl (fun _ => hr) rfl⟩
    · exact nomatch h
  | fail k =>
    rw [Buf.step] at h
    split at h
    · rename_i c hc
      split_ifs at h with hp
      cases h
      obtain ⟨-, hw⟩ := hs.calls k c hc
      have hsteady := steady_fail hw hp
      have hsame : c.fail.queued = c.queued ∧ c.fail.posts = c.posts := by
        rw [Call.fail, Call.callback]
        split_ifs <;> exact ⟨rfl, rfl⟩
      exact step_stays hs trivial hc hsteady hsame.1 (congrArg (s.sem + ·) hsame.2.symm)
    · exact nomatch h
  | push k =>
    rw [Buf.step] at h
    split at h
    · rename_i c hc
      split_ifs at h with hp ha hfull
      · cases h
        obtain ⟨hq, hw⟩ := hs.calls k c hc
        have hk : k ∉ s.queue := fun hm => nomatch (hw.early (.inr hp)).1.symm.trans (hq.2 hm)
        obtain ⟨hqd, hcd, hother⟩ := @displace_spec s max hs
        obtain ⟨hkd, hck⟩ := hother k hk
        exact step_pushes hqd hcd hkd (hck.trans hc) hw hp
      · cases h
        obtain ⟨hq, hw⟩ := hs.calls k c hc
        have hk : k ∉ s.queue := fun hm => nomatch (hw.early (.inr hp)).1.symm.trans (hq.2 hm)
        exact step_pushes hs (.same rfl rfl) hk hc hw hp
    · exact nomatch h
  | sendOk k =>
    rw [Buf.step] at h
    split at h
    · rename_i c hc
      split_ifs at h with hp
      cases h
      obtain ⟨-, hw⟩ := hs.calls k c hc
      have hsteady := steady_sendOk hw hp
      have hsame : c.sendOk.queued = c.queued ∧ c.sendOk.posts = c.posts := by
        rw [Call.sendOk]
        split_ifs <;> exact ⟨rfl, rfl⟩
      exact step_stays hs trivial hc hsteady hsame.1 (congrArg (s.sem + ·) hsame.2.symm)
    · exact nomatch h
  | sendFail k =>
    rw [Buf.step] at h
    split at h
    · rename_i c hc
      split_ifs at h with hp
      cases h
      obtain ⟨-, hw⟩ := hs.calls k c hc
      have hsame : c.sendFail.queued = false ∧ c.sendFail.posts = c.posts := by
        rw [Call.sendFail, Call.fail, Call.callback]
        split_ifs <;> exact ⟨rfl, rfl⟩
      have hself : c.sendFail.queued = true ↔ k ∈ s.queue.erase k := by
        rw [hsame.1]
        exact ⟨nofun, fun hm => absurd hm (hgone k)⟩
      by_cases hf : c.queued = true ∨ c.fn.async = false ∨ c.fn = .alinkPostAsync false
      · have hsteady := steady_sendFail hw hp hf
        have hmeets : BufMeets s (.sendFail k) := by
          intro d hd
          obtain rfl := Option.some.inj (hc.symm.trans hd)
          exact hf
        exact step_leaves hs hmeets hc hsteady hsame.1 hsame.2
      · obtain ⟨hw', hl, hr⟩ := lost_sendFail hw hp hf
        exact ⟨hs.set hw' (hs.nodup.erase k) (herase k) hself,
          .lost k c c.sendFail (fun hm => hf (hm c hc)) hc (fun h => h.2.2 hp) hw' hl hr rfl⟩
    · exact nomatch h
  | complete k =>
    rw [Buf.step] at h
    split_ifs at h with hk
    cases h
    obtain ⟨hq, hc, -⟩ := complete_spec hs hk
    exact ⟨hq, .once trivial hc⟩
  | wake k =>
    rw [Buf.step] at h
    split at h
    · rename_i c hc
      split_ifs at h with hp
      cases h
      obtain ⟨-, hw⟩ := hs.calls k c hc
      have hsteady := steady_wake hw hp
      exact step_leaves hs trivial hc hsteady rfl rfl
    · exact nomatch h
  | put k =>
    rw [Buf.step] at h
    split at h
    · rename_i c hc
      split_ifs at h with hp
      cases h
      obtain ⟨-, hw⟩ := hs.calls k c hc
      have hsteady := steady_put hw hp
      exact step_stays hs trivial hc hsteady rfl (Nat.add_right_comm ..)
    · exact nomatch h
  | callbackPut k =>
    rw [Buf.step] at h
    split at h
    · rename_i c hc
      split_ifs at h with hp
      cases h
      obtain ⟨-, hw⟩ := hs.calls k c hc
      have hsteady := steady_callbackPut hw hp
      exact step_stays hs trivial hc hsteady rfl (Nat.add_right_comm ..)
    · exact nomatch h
  | callbackFree k =>
    rw [Buf.step] at h
    split at h
    · rename_i c hc
      split_ifs at h with hp
      cases h
      obtain ⟨-, hw⟩ := hs.calls k c hc
      have hsteady := steady_callbackFree hw hp
      exact step_stays hs trivial hc hsteady rfl rfl
    · exact nomatch h
  | other k async =>
    rw [Buf.step] at h
    have hpush : ∀ {t : Buf}, Queued t → k ∉ t.queue → t.calls k = none → Queued (t.push k) := by
      intro t ht hk hc
      refine ⟨List.nodup_cons.2 ⟨hk, ht.nodup⟩, fun l d hl => ?_⟩
      have hlk : l ≠ k := by
        rintro rfl
        exact nomatch hc.symm.trans hl
      obtain ⟨hq, hw⟩ := ht.calls l d hl
      exact ⟨hq.trans (by simp [Buf.push, hlk]), hw⟩
    split_ifs at h with hk ha hfull
    · cases h
      obtain ⟨hqd, hcd, hother⟩ := @displace_spec s max hs
      obtain ⟨hkd, hck⟩ := hother k hk.2
      exact ⟨hpush hqd hkd (hck.trans hk.1), .clean _ trivial hcd (.same rfl rfl)⟩
    · cases h
      exact ⟨hpush hs hk.2 hk.1, .once trivial (.same rfl rfl)⟩

/-! ## Runs -/

/-- The posts of the buffer that are to come for a call, 0 where there is none. -/
def Buf.due (s : Buf) (k : ℕ) : ℕ := (s.calls k).elim 0 Call.duePosts

/-- The buffer is free and no post of it is to come, or it is taken and one is. -/
def Single (s : Buf) : Prop := s.sem = 1 ∧ (∀ k, s.due k = 0) ∨ s.sem = 0 ∧ ∃ k, s.due k = 1 ∧ ∀ l, l ≠ k → s.due l = 0

theorem Single.set (h : Single s) (hother : ∀ l, l ≠ k → s'.due l = s.due l) (hself : s'.sem + s'.due k = s.sem + s.due k) :
    Single s' := by
  rcases h with ⟨hsem, hall⟩ | ⟨hsem, o, ho, hall⟩
  · have hk := hall k
    by_cases hz : s'.sem = 0
    · refine .inr ⟨hz, k, by omega, fun l hl => ?_⟩
      rw [hother l hl]
      exact hall l
    · refine .inl ⟨by omega, fun l => ?_⟩
      by_cases hl : l = k
      · rw [hl]
        omega
      · rw [hother l hl]
        exact hall l
  · by_cases hok : o = k
    · subst hok
      by_cases hz : s'.sem = 0
      · refine .inr ⟨hz, o, by omega, fun l hl => ?_⟩
        rw [hother l hl]
        exact hall l hl
      · refine .inl ⟨by omega, fun l => ?_⟩
        by_cases hl : l = o
        · rw [hl]
          omega
        · rw [hother l hl]
          exact hall l hl
    · have hk := hall k (Ne.symm hok)
      refine .inr ⟨by omega, o, by rw [hother o hok]; exact ho, fun l hl => ?_⟩
      by_cases hlk : l = k
      · rw [hlk]
        omega
      · rw [hother l hlk]
        exact hall l hl

structure Sound (s : Buf) : Prop where
  queued : Queued s
  calls : ∀ k c, s.calls k = some c → c.Right
  single : Single s

theorem Sound.right (h : Sound s) : s.Right := by
  refine ⟨h.calls, fun hz => ?_⟩
  rcases h.single with ⟨hsem, -⟩ | ⟨-, k, hk, -⟩
  · omega
  · cases hc : s.calls k with
    | none =>
      rw [Buf.due, hc] at hk
      exact nomatch hk
    | some c =>
      rw [Buf.due, hc] at hk
      exact ⟨k, c, hc, Nat.lt_of_lt_of_eq Nat.one_pos hk.symm⟩

theorem due_some (hc : s.calls k = some c) : s.due k = c.duePosts := by rw [Buf.due, hc]; rfl

theorem due_none (hc : s.calls k = none) : s.due k = 0 := by rw [Buf.due, hc]; rfl

theorem calls_set (hcalls : s'.calls = Function.update s.calls k (some c)) :
    s'.calls k = some c ∧ ∀ l, l ≠ k → s'.calls l = s.calls l := by
  constructor
  · rw [hcalls, Function.update_self]
  · intro l hl
    rw [hcalls, Function.update_of_ne hl]

theorem due_set (hcalls : s'.calls = Function.update s.calls k (some c)) : ∀ l, l ≠ k → s'.due l = s.due l := by
  intro l hl
  rw [Buf.due, (calls_set hcalls).2 l hl, Buf.due]

theorem right_set (h : ∀ k c, s.calls k = some c → c.Right) (hr : c.Right)
    (hcalls : s'.calls = Function.update s.calls k (some c)) : ∀ k c, s'.calls k = some c → c.Right := by
  intro l d hl
  by_cases hlk : l = k
  · subst hlk
    rw [(calls_set hcalls).1] at hl
    exact Option.some.inj hl ▸ hr
  · rw [(calls_set hcalls).2 l hlk] at hl
    exact h l d hl

theorem new_right : (Call.new fn).Right := ⟨fun h => absurd rfl h, fun _ => rfl⟩

theorem new_due : (Call.new fn).duePosts = 0 := by cases fn <;> rfl

theorem get_right (hr : c.Right) (hw : c.Wf) (hp : c.pc = .getting) :
    ({ c with pc := .sending } : Call).Right ∧ c.duePosts = 0 ∧ ({ c with pc := .sending } : Call).duePosts = 1 := by
  obtain ⟨hq, hpost, -, hposts, -⟩ := hw.early (.inl hp)
  refine ⟨⟨fun _ => ?_, fun ho => ?_⟩, ?_, ?_⟩
  · cases hcb : c.fn.callbackPuts <;> simp [Call.duePosts, Call.asked, hcb, hpost, hposts]
  · have hsum := hr.frees ho
    simp [Call.dueFrees, Call.asked, hp] at hsum ⊢
    exact hsum
  · simp [Call.duePosts, Call.asked, hp, hq, hpost]
  · cases hcb : c.fn.callbackPuts <;> simp [Call.duePosts, Call.asked, hcb, hpost]

theorem Clean.sound (h : Clean s s') (hc : ∀ k c, s.calls k = some c → c.Right) (hs : Single s) :
    (∀ k c, s'.calls k = some c → c.Right) ∧ Single s' := by
  cases h with
  | same sem calls =>
    have hdue : s'.due = s.due := by
      funext k
      rw [Buf.due, calls, Buf.due]
    exact ⟨by rw [calls]; exact hc, by rw [Single, sem, hdue]; exact hs⟩
  | set k c c' was steady calls sem =>
    refine ⟨right_set hc (steady.right (hc k c was)) calls, hs.set (due_set calls) ?_⟩
    rw [due_some (calls_set calls).1, due_some was]
    exact sem
  | new k fn was calls sem =>
    refine ⟨right_set hc new_right calls, hs.set (due_set calls) ?_⟩
    rw [due_some (calls_set calls).1, due_none was, new_due, sem]
  | get k c was pc wf calls sem =>
    obtain ⟨hr, hz, ho⟩ := get_right (hc k c was) wf pc
    refine ⟨right_set hc hr calls, hs.set (due_set calls) ?_⟩
    rw [due_some (calls_set calls).1, due_some was, hz, ho, ← sem]

/-- A call that lost a post or a free, or made one twice. -/
structure Broken (s : Buf) : Prop where
  queued : Queued s
  call : ∃ k c, s.calls k = some c ∧ c.Late ∧ ¬ c.Right

theorem Clean.broken (h : Clean s s') (hb : ∃ k c, s.calls k = some c ∧ c.Late ∧ ¬ c.Right) :
    ∃ k c, s'.calls k = some c ∧ c.Late ∧ ¬ c.Right := by
  obtain ⟨l, d, hl, hlate, hr⟩ := hb
  cases h with
  | same sem calls => exact ⟨l, d, by rw [calls]; exact hl, hlate, hr⟩
  | set k c c' was steady calls =>
    by_cases hlk : l = k
    · subst hlk
      obtain rfl := Option.some.inj (was.symm.trans hl)
      exact ⟨l, c', (calls_set calls).1, steady.late hlate, steady.not_right hr⟩
    · exact ⟨l, d, ((calls_set calls).2 l hlk).trans hl, hlate, hr⟩
  | new k fn was calls =>
    have hlk : l ≠ k := by
      rintro rfl
      exact nomatch was.symm.trans hl
    exact ⟨l, d, ((calls_set calls).2 l hlk).trans hl, hlate, hr⟩
  | get k c was pc wf calls =>
    have hlk : l ≠ k := by
      rintro rfl
      obtain rfl := Option.some.inj (was.symm.trans hl)
      exact hlate.1 pc
    exact ⟨l, d, ((calls_set calls).2 l hlk).trans hl, hlate, hr⟩

theorem Sound.step (hs : Sound s) (hm : BufMeets s a) (h : BufStep max s a s') : Sound s' := by
  obtain ⟨hq, he⟩ := step_spec hs.queued h
  cases he with
  | clean t meets first second =>
    obtain ⟨hc, hsingle⟩ := first.sound hs.calls hs.single
    obtain ⟨hc, hsingle⟩ := second.sound hc hsingle
    exact ⟨hq, hc, hsingle⟩
  | lost k c c' meets => exact absurd hm meets

theorem Sound.broken (hs : Sound s) (hm : ¬ BufMeets s a) (h : BufStep max s a s') : Broken s' := by
  obtain ⟨hq, he⟩ := step_spec hs.queued h
  cases he with
  | clean t meets => exact absurd meets hm
  | lost k c c' meets was early wf late lost calls =>
    exact ⟨hq, k, c', (calls_set calls).1, late, lost (hs.calls k c was)⟩

theorem Broken.step (hb : Broken s) (h : BufStep max s a s') : Broken s' := by
  obtain ⟨hq, he⟩ := step_spec hb.queued h
  refine ⟨hq, ?_⟩
  cases he with
  | clean t meets first second => exact second.broken (first.broken hb.call)
  | lost k c c' meets was early wf late lost calls =>
    obtain ⟨l, d, hl, hlate, hr⟩ := hb.call
    have hlk : l ≠ k := by
      rintro rfl
      obtain rfl := Option.some.inj (was.symm.trans hl)
      exact early hlate
    exact ⟨l, d, ((calls_set calls).2 l hlk).trans hl, hlate, hr⟩

theorem Sound.start : Sound .start := ⟨⟨.nil, nofun⟩, nofun, .inl ⟨rfl, fun _ => rfl⟩⟩

/-- **The uplink buffer**: in a run of calls, whatever becomes of their requests, each wait for the
    buffer has one post, a taken buffer one to come, and each object one free, exactly if all of the
    steps meet what `send_async` has to do. -/
theorem buffer_never_lost (max : ℕ) (as : List BufAct) (s : Buf) (h : Lib.Run (BufStep max) .start as s) :
    s.Right ↔ Lib.Run (Lib.restrict BufMeets (BufStep max)) .start as s := by
  have hexact := Lib.Run.exact (J := Sound) (B := Broken) (P := Buf.Right) (C := BufMeets) (D := fun _ => True)
    Sound.right Sound.step Sound.broken Broken.step
    (fun hb _ hr => by
      obtain ⟨k, c, hc, -, hn⟩ := hb.call
      exact hn (hr.calls k c hc)) h .start
  exact ⟨hexact.2 trivial, hexact.1⟩

/-- A post whose request is displaced by another user of the full queue, and a login that is
    answered. -/
def displaced : List BufAct :=
  [.call 0 (.alinkPostAsync true), .get 0, .push 0, .sendOk 0, .put 0, .other 1 true, .callbackFree 0,
    .call 2 .alinkLoginAsync, .get 2, .complete 1, .push 2, .sendOk 2, .complete 2, .callbackPut 2, .callbackFree 2]

theorem buffer_never_lost_displaced :
    ∃ s, Lib.Run (BufStep 1) .start displaced s ∧ s.sem = 1 ∧ s.Right := by
  have hrun : Lib.Run (Lib.restrict BufMeets (BufStep 1)) .start displaced _ :=
    .cons ⟨trivial, rfl⟩ (.cons ⟨trivial, rfl⟩ (.cons ⟨trivial, rfl⟩ (.cons ⟨trivial, rfl⟩ (.cons ⟨trivial, rfl⟩
      (.cons ⟨trivial, rfl⟩ (.cons ⟨trivial, rfl⟩ (.cons ⟨trivial, rfl⟩ (.cons ⟨trivial, rfl⟩ (.cons ⟨trivial, rfl⟩
        (.cons ⟨trivial, rfl⟩ (.cons ⟨trivial, rfl⟩ (.cons ⟨trivial, rfl⟩ (.cons ⟨trivial, rfl⟩
          (.cons ⟨trivial, rfl⟩ .nil))))))))))))))
  have hall : Lib.Run (BufStep 1) .start displaced _ := hrun.mono fun h => h.2
  exact ⟨_, hall, rfl, (buffer_never_lost 1 displaced _ hall).2 hrun⟩

/-! ## A login that is refused -/

theorem buffer_lost : ¬ ∀ max as s, Lib.Run (BufStep max) .start as s → s.Right := by
  intro h
  have hrun : Lib.Run (BufStep 1) .start [.call 0 .alinkLoginAsync, .get 0, .refuse 0] _ :=
    .cons rfl (.cons rfl (.cons rfl .nil))
  have hcall := (h 1 _ _ hrun).calls 0 ⟨.alinkLoginAsync, .returned, false, 0, 0, 0, 0⟩ rfl
  exact absurd (hcall.posts nofun) (by decide)

end Alink
