/-
  Cancelling an update (`framework/fota/ota_update_manifest.c`): the download task against any
  number of callers of `ota_cancel_update_packet`.

  The status is only accessed under the mutex of `ota_util.c`, one access a section, so each
  access is a step, and so are a receive of the downloader and a call of the finish callback.
-/
import AliOS.Fota.Ota
import AliOS.Lib.Trans

namespace Fota

/-- `OTA_STATUS_T` -/
inductive OtaStatus
  | rebootFailed
  | upgradeFailed
  | checkFailed
  | decompressFailed
  | downloadFailed
  | initFailed
  | init
  | download
  | decompress
  | check
  | upgrade
  | reboot
  | rebootSuccess
  | cancel
  deriving DecidableEq

def OtaStatus.toInt : OtaStatus → ℤ
  | .rebootFailed => -6
  | .upgradeFailed => -5
  | .checkFailed => -4
  | .decompressFailed => -3
  | .downloadFailed => -2
  | .initFailed => -1
  | .init => 0
  | .download => 1
  | .decompress => 2
  | .check => 3
  | .upgrade => 4
  | .reboot => 5
  | .rebootSuccess => 6
  | .cancel => 7

def MAX_ID_LEN : ℕ := 64

/-- `!strncmp(s, t, n)` -/
def strnEq (s t : Str) (n : ℕ) : Bool := s.take n = t.take n

/-- What `ota_do_update_packet` started the task with, and what the task meets: the stored
    keys, the md5 of the image, whether the URL has a host and a file, whether the host is reached and
    takes the request, whether there is a finish callback, and `platform_ota_get_id`. -/
structure Job where
  nv : Nv
  md5 : Str
  url : Bool
  connects : Bool
  sends : Bool
  finishCb : Bool
  id : Str

/-- What `ota_socket_recv` gives: bytes (none where the connection is closed), or an error, with
    `errno == EINTR` and the result of `ota_socket_check_conn`. -/
inductive Got
  | data (bytes : List UInt8)
  | fail (eintr conn : Bool)

/-- Where a receive leads to: the next receive, the poll of the status, or out of the loop. -/
inductive Next
  | again (t : Task) (l : Loop)
  | poll (t : Task) (l : Loop)
  | ends (t : Task) (l : Loop) (e : LoopEnd)

/-- A receive and what the loop of `ota_download` does with it. -/
def recvNext (t : Task) (l : Loop) : Got → Next
  | .fail eintr conn => if !eintr || !conn then .ends t l .failed else .again t l
  | .data bytes =>
    let bytes := bytes.take (OTA_BUFFER_MAX_SIZE - 1)
    if bytes.length = 0 then .ends t l .closed
    else
      let buffer := bytes ++ l.httpBuffer.drop bytes.length
      if !l.headerFound then
        let s := buffer.takeWhile (· ≠ 0)
        let fileSize := scanFileSize s l.fileSize
        match strstr s headerEnd with
        | none => .again t { l with httpBuffer := buffer, fileSize := fileSize }
        | some i =>
          let len := i + 4
          let size : ℤ := bytes.length - len
          if size < 0 then .ends t l .fault
          else .again (t.func ((buffer.drop len).take size.toNat)) ⟨buffer, true, fileSize, size⟩
      else
        let size := l.size + bytes.length
        let t := t.func bytes
        let l := { l with httpBuffer := List.replicate OTA_BUFFER_MAX_SIZE 0, size := size }
        if size = l.fileSize then .ends t l .closed else .poll t l

/-- The program counter of the download task. -/
inductive Pc
  | start
  | connect
  | recv (breakpoint : ℕ) (t : Task) (l : Loop)
  | poll (breakpoint : ℕ) (t : Task) (l : Loop)
  | returned (t : Task) (ret : ℤ)
  | failed
  | cancelled
  | check (t : Task)
  | checkFailed
  | upgrade
  | finish
  | reboot
  | ended
  | fault

/-- `ota_cancel_update_packet`: not called, at the two reads of `ota_is_cancelable`, and at
    `ota_set_status(OTA_CANCEL)`. -/
inductive CancelPc
  | idle
  | init (deviceUuid : Str)
  | upgrade (deviceUuid : Str)
  | set (deviceUuid : Str)
  deriving DecidableEq

/-- A cancel that sets the status and returns 1, the task's `ota_set_status(OTA_UPGRADE)`, and
    the task's calls of the finish callback. -/
inductive Event
  | accepted (deviceUuid : Str)
  | upgrade
  | callback (result : FinishResult)
  deriving DecidableEq

structure Sys where
  status : OtaStatus
  pc : Pc
  cancels : ℕ → CancelPc
  hist : List Event

/-- `ota_do_update_packet` has set the status and started the task. -/
def Sys.start : Sys := ⟨.init, .start, fun _ => .idle, []⟩

def Sys.goto (s : Sys) (pc : Pc) : Sys := { s with pc := pc }

def Sys.setStatus (s : Sys) (status : OtaStatus) : Sys := { s with status := status }

def Sys.log (s : Sys) (e : Event) : Sys := { s with hist := s.hist ++ [e] }

/-- `g_finish_cb`, where it is not `NULL`. -/
def Sys.finishCb (s : Sys) (j : Job) (result : FinishResult) : Sys :=
  if j.finishCb then s.log (.callback result) else s

def Sys.setCancel (s : Sys) (k : ℕ) (c : CancelPc) : Sys := { s with cancels := Function.update s.cancels k c }

/-- `ota_download` behind its loop. -/
def loopEnd (breakpoint : ℕ) (t : Task) (l : Loop) : LoopEnd → Pc
  | .failed => .returned (t.write (.saveState (l.size + breakpoint).toNat t.gCtx)) OTA_DOWNLOAD_FAILED
  | .closed => .returned (t.write (.updateBreakpoint 0)) OTA_DOWNLOAD_FINISH
  | .cancelled => .returned (t.write (.saveState (l.size + breakpoint).toNat t.gCtx)) OTA_DOWNLOAD_CANCEL
  | .fault => .fault

/-- `ota_download` up to its loop. -/
def connect (j : Job) (t : Task) : Pc :=
  if !j.url then .returned t OTA_DOWNLOAD_URL_FAIL
  else if !j.connects then .returned t OTA_DOWNLOAD_SOCKET_FAIL
  else
    let (breakpoint, t) := resume j.nv ⟨j.md5, j.url, j.connects, j.sends, [], .never⟩ t
    let t := t.write (.curMd5 j.md5)
    if !j.sends then .returned t OTA_DOWNLOAD_SEND_FAIL else .recv breakpoint t .start

/-- `ota_download_start`, up to its next access of the status, call of the callback or
    receive. -/
def taskStep (j : Job) (s : Sys) : Option Sys :=
  match s.pc with
  | .start => some ((s.setStatus .download).goto .connect)
  | .connect => some (s.goto (connect j ⟨.zero, j.nv.breakpoint.getD 0, [], []⟩))
  | .recv _ _ _ => none
  | .poll breakpoint t l =>
    if s.status = .cancel then some (s.goto (loopEnd breakpoint t l .cancelled))
    else some (s.goto (.recv breakpoint t l))
  | .returned t ret =>
    if ret ≤ 0 then some ((s.setStatus .downloadFailed).goto .failed)
    else if ret = OTA_DOWNLOAD_CANCEL then some ((s.finishCb j .breakpoint).goto .cancelled)
    else some ((s.setStatus .check).goto (.check t))
  | .failed => some ((s.finishCb j .breakpoint).goto .ended)
  | .cancelled => some ((s.setStatus .cancel).goto .ended)
  | .check t => some (s.goto (if checkMd5 t.gCtx j.md5 then .upgrade else .checkFailed))
  | .checkFailed => some ((s.setStatus .checkFailed).goto .ended)
  | .upgrade => some (((s.setStatus .upgrade).log .upgrade).goto .finish)
  | .finish => some ((s.finishCb j .finish).goto .reboot)
  | .reboot => some ((s.setStatus .reboot).goto .ended)
  | .ended => none
  | .fault => none

/-- A receive of the downloader. -/
def recvStep (s : Sys) (g : Got) : Option Sys :=
  match s.pc with
  | .recv breakpoint t l =>
    match recvNext t l g with
    | .again t l => some (s.goto (.recv breakpoint t l))
    | .poll t l => some (s.goto (.poll breakpoint t l))
    | .ends t l e => some (s.goto (loopEnd breakpoint t l e))
  | _ => none

/-- `ota_if_cancel` up to `ota_is_cancelable`; `none` is `NULL`. -/
def ifCancel (j : Job) : Option Str → CancelPc
  | none => .idle
  | some deviceUuid => if strnEq deviceUuid j.id MAX_ID_LEN then .idle else .init deviceUuid

/-- `ota_is_cancelable`, one read a step, and the set behind it. -/
def cancelStep (s : Sys) (k : ℕ) : Option Sys :=
  match s.cancels k with
  | .idle => none
  | .init deviceUuid => some (s.setCancel k (if s.status ≠ .init then .upgrade deviceUuid else .idle))
  | .upgrade deviceUuid =>
    some (s.setCancel k (if s.status.toInt < OtaStatus.upgrade.toInt then .set deviceUuid else .idle))
  | .set deviceUuid => some (((s.setStatus .cancel).log (.accepted deviceUuid)).setCancel k .idle)

/-- A step of the task, a receive of it, a call of `ota_cancel_update_packet` and a step of it. -/
inductive Act
  | task
  | recv (g : Got)
  | call (k : ℕ) (deviceUuid : Option Str)
  | cancel (k : ℕ)

def Sys.step (j : Job) (s : Sys) : Act → Option Sys
  | .task => taskStep j s
  | .recv g => recvStep s g
  | .call k deviceUuid => if s.cancels k = .idle then some (s.setCancel k (ifCancel j deviceUuid)) else none
  | .cancel k => cancelStep s k

/-- The interleavings. -/
def Step (j : Job) (s : Sys) (a : Act) (s' : Sys) : Prop := s.step j a = some s'

/-! ## The receive loop -/

/-- What is received, and what the poll behind it finds. -/
def Recv.got : Recv → Got
  | .data bytes _ => .data bytes
  | .fail eintr conn => .fail eintr conn

def Recv.cancelled : Recv → Bool
  | .data _ cancelled => cancelled
  | .fail _ _ => false

theorem recvLoop_cons (t : Task) (l : Loop) (r : Recv) (rs : List Recv) :
    recvLoop t l (r :: rs) =
      match recvNext t l r.got with
      | .again t l => recvLoop t l rs
      | .poll t l => if r.cancelled then (t, l, .cancelled) else recvLoop t l rs
      | .ends t l e => (t, l, e) := by
  cases r with
  | fail eintr conn =>
    rw [recvLoop, Recv.got, recvNext]
    split_ifs <;> rfl
  | data bytes cancelled =>
    rw [recvLoop, Recv.got, recvNext, Recv.cancelled]
    by_cases hb : (bytes.take (OTA_BUFFER_MAX_SIZE - 1)).length = 0
    · rw [if_pos hb, if_pos hb]
    · rw [if_neg hb, if_neg hb]
      cases hf : l.headerFound with
      | true =>
        simp only [Bool.not_true, Bool.false_eq_true, if_false]
        split_ifs <;> rfl
      | false =>
        simp only [Bool.not_false, if_true]
        cases strstr (List.takeWhile (· ≠ 0)
            (bytes.take (OTA_BUFFER_MAX_SIZE - 1) ++
              l.httpBuffer.drop (bytes.take (OTA_BUFFER_MAX_SIZE - 1)).length)) headerEnd with
        | none => rfl
        | some i =>
          simp only
          split_ifs <;> rfl

/-! ## Cancels in time -/

variable {j : Job} {s s' : Sys} {a : Act} {as : List Act} {k : ℕ} {g : Got} {hist : List Event}

/-- **A cancel takes effect**: behind one that is accepted the task neither sets `OTA_UPGRADE`
    nor calls the finish callback with `OTA_FINISH`. -/
def TakesEffect (hist : List Event) : Prop :=
  hist.Pairwise fun e f => (∃ m, e = .accepted m) → f ≠ .upgrade ∧ f ≠ .callback .finish

def Accepted (hist : List Event) : Prop := ∃ m, .accepted m ∈ hist

/-- The task has left the loop with the image of the right md5, and has yet to set `OTA_UPGRADE`
    or to call the finish callback. -/
def Pc.Finishing (j : Job) : Pc → Prop
  | .returned t ret => 0 < ret ∧ ret ≠ OTA_DOWNLOAD_CANCEL ∧ checkMd5 t.gCtx j.md5 = true
  | .check t => checkMd5 t.gCtx j.md5 = true
  | .upgrade => True
  | .finish => j.finishCb = true
  | _ => False

/-- The receive is the last one, of the image of the right md5. -/
def Closes (j : Job) (s : Sys) (g : Got) : Prop :=
  ∃ breakpoint t l t' l', s.pc = .recv breakpoint t l ∧ recvNext t l g = .ends t' l' .closed ∧
    checkMd5 t'.gCtx j.md5 = true

/-- What a step needs for a cancel to come in time: no cancel was accepted before the last
    receive of the right image, and none sets the status behind it. -/
def InTime (j : Job) (s : Sys) : Act → Prop
  | .recv g => Accepted s.hist → ¬ Closes j s g
  | .cancel k => (∃ m, s.cancels k = .set m) → ¬ s.pc.Finishing j
  | .task | .call _ _ => True

theorem TakesEffect.snoc {e : Event} :
    TakesEffect (hist ++ [e]) ↔ TakesEffect hist ∧ (e = .upgrade ∨ e = .callback .finish → ¬ Accepted hist) := by
  rw [TakesEffect, List.pairwise_append]
  constructor
  · rintro ⟨h, -, he⟩
    refine ⟨h, ?_⟩
    rintro hup ⟨m, hm⟩
    have hne := he _ hm e (List.mem_singleton_self e) ⟨m, rfl⟩
    rcases hup with rfl | rfl
    · exact hne.1 rfl
    · exact hne.2 rfl
  · rintro ⟨h, he⟩
    refine ⟨h, List.pairwise_singleton _ _, ?_⟩
    rintro _ hm f hf ⟨m, rfl⟩
    rw [List.mem_singleton.1 hf]
    exact ⟨fun hup => he (.inl hup) ⟨m, hm⟩, fun hup => he (.inr hup) ⟨m, hm⟩⟩

theorem Accepted.snoc {e : Event} : Accepted (hist ++ [e]) ↔ Accepted hist ∨ ∃ m, e = .accepted m := by
  constructor
  · rintro ⟨m, hm⟩
    rcases List.mem_append.1 hm with hm | hm
    · exact .inl ⟨m, hm⟩
    · exact .inr ⟨m, (List.mem_singleton.1 hm).symm⟩
  · rintro (⟨m, hm⟩ | ⟨m, rfl⟩)
    · exact ⟨m, List.mem_append_left _ hm⟩
    · exact ⟨m, List.mem_append_right _ (List.mem_singleton_self _)⟩

/-- What a step does to the history, and to whether the task is finishing. -/
inductive Effect (j : Job) (s : Sys) (a : Act) (s' : Sys) : Prop
  | quiet (hist : s'.hist = s.hist) (pc : s'.pc.Finishing j ↔ s.pc.Finishing j)
      (recv : ∀ g, a = .recv g → ¬ Closes j s g) (cancel : ∀ k m, a = .cancel k → s.cancels k ≠ .set m)
  | closes (g : Got) (act : a = .recv g) (last : Closes j s g) (hist : s'.hist = s.hist) (pc : s'.pc.Finishing j)
  | breakpoint (act : a = .task) (hist : s'.hist = s.hist ++ [.callback .breakpoint]) (was : ¬ s.pc.Finishing j)
      (pc : ¬ s'.pc.Finishing j)
  | finish (e : Event) (act : a = .task) (event : e = .upgrade ∨ e = .callback .finish)
      (hist : s'.hist = s.hist ++ [e]) (was : s.pc.Finishing j)
  | accepted (k : ℕ) (m : Str) (act : a = .cancel k) (set : s.cancels k = .set m)
      (hist : s'.hist = s.hist ++ [.accepted m]) (pc : s'.pc = s.pc)

theorem finishCb_hist {r : FinishResult} (h : j.finishCb = true) : (s.finishCb j r).hist = s.hist ++ [.callback r] := by
  rw [Sys.finishCb, if_pos h]
  rfl

theorem finishCb_none {r : FinishResult} (h : ¬ j.finishCb = true) : (s.finishCb j r).hist = s.hist := by
  rw [Sys.finishCb, if_neg h]

theorem not_finishing_connect {t : Task} : ¬ (connect j t).Finishing j := by
  rw [connect]
  split_ifs
  · exact fun h => absurd h.1 (by decide)
  · exact fun h => absurd h.1 (by decide)
  · exact fun h => absurd h.1 (by decide)
  · exact id

theorem finishing_loopEnd {breakpoint : ℕ} {t : Task} {l : Loop} {e : LoopEnd} :
    (loopEnd breakpoint t l e).Finishing j ↔ e = .closed ∧ checkMd5 t.gCtx j.md5 = true := by
  cases e with
  | closed => exact ⟨fun h => ⟨rfl, h.2.2⟩, fun h => ⟨by decide, by decide, h.2⟩⟩
  | failed => exact ⟨fun h => absurd h.1 (by decide), fun h => nomatch h.1⟩
  | cancelled => exact ⟨fun h => absurd rfl h.2.1, fun h => nomatch h.1⟩
  | fault => exact ⟨False.elim, fun h => nomatch h.1⟩

theorem Effect.of_task (h : taskStep j s = some s') : Effect j s .task s' := by
  have hquiet : s'.hist = s.hist → (s'.pc.Finishing j ↔ s.pc.Finishing j) → Effect j s .task s' :=
    fun hh hp => .quiet hh hp (fun _ h => nomatch h) fun _ _ h => nomatch h
  rw [taskStep] at h
  cases hpc : s.pc with
  | start =>
    simp only [hpc, Option.some.injEq] at h
    subst h
    exact hquiet rfl (by rw [hpc]; exact Iff.rfl)
  | connect =>
    simp only [hpc, Option.some.injEq] at h
    subst h
    exact hquiet rfl ⟨fun h => absurd h not_finishing_connect, by rw [hpc]; exact False.elim⟩
  | recv breakpoint t l => simp only [hpc, reduceCtorEq] at h
  | poll breakpoint t l =>
    simp only [hpc] at h
    split_ifs at h <;> cases h
    · have hpc' : ¬ (loopEnd breakpoint t l .cancelled).Finishing j := fun h => nomatch (finishing_loopEnd.1 h).1
      exact hquiet rfl ⟨fun h => absurd h hpc', by rw [hpc]; exact False.elim⟩
    · exact hquiet rfl (by rw [hpc]; exact Iff.rfl)
  | returned t ret =>
    simp only [hpc] at h
    split_ifs at h with h1 h2 <;> cases h
    · exact hquiet rfl ⟨False.elim, by rw [hpc]; exact fun h => absurd h.1 (Int.not_lt.2 h1)⟩
    · have hwas : ¬ s.pc.Finishing j := by rw [hpc]; exact fun h => h.2.1 h2
      by_cases hcb : j.finishCb = true
      · exact .breakpoint rfl (finishCb_hist hcb) hwas id
      · exact hquiet (finishCb_none hcb) ⟨False.elim, fun h => absurd h hwas⟩
    · exact hquiet rfl (by rw [hpc]; exact ⟨fun h => ⟨Int.not_le.1 h1, h2, h⟩, fun h => h.2.2⟩)
  | failed =>
    simp only [hpc, Option.some.injEq] at h
    subst h
    have hwas : ¬ s.pc.Finishing j := by rw [hpc]; exact id
    by_cases hcb : j.finishCb = true
    · exact .breakpoint rfl (finishCb_hist hcb) hwas id
    · exact hquiet (finishCb_none hcb) ⟨False.elim, fun h => absurd h hwas⟩
  | cancelled =>
    simp only [hpc, Option.some.injEq] at h
    subst h
    exact hquiet rfl (by rw [hpc]; exact Iff.rfl)
  | check t =>
    simp only [hpc, Option.some.injEq] at h
    subst h
    refine hquiet rfl ?_
    rw [hpc]
    by_cases hm : checkMd5 t.gCtx j.md5 = true
    · rw [if_pos hm]
      exact ⟨fun _ => hm, fun _ => trivial⟩
    · rw [if_neg hm]
      exact ⟨False.elim, hm⟩
  | checkFailed =>
    simp only [hpc, Option.some.injEq] at h
    subst h
    exact hquiet rfl (by rw [hpc]; exact Iff.rfl)
  | upgrade =>
    simp only [hpc, Option.some.injEq] at h
    subst h
    exact .finish .upgrade rfl (.inl rfl) rfl (by rw [hpc]; exact trivial)
  | finish =>
    simp only [hpc, Option.some.injEq] at h
    subst h
    by_cases hcb : j.finishCb = true
    · exact .finish (.callback .finish) rfl (.inr rfl) (finishCb_hist hcb) (by rw [hpc]; exact hcb)
    · exact hquiet (finishCb_none hcb) ⟨False.elim, by rw [hpc]; exact hcb⟩
  | reboot =>
    simp only [hpc, Option.some.injEq] at h
    subst h
    exact hquiet rfl (by rw [hpc]; exact Iff.rfl)
  | ended => simp only [hpc, reduceCtorEq] at h
  | fault => simp only [hpc, reduceCtorEq] at h

theorem Effect.of_recv (h : recvStep s g = some s') : Effect j s (.recv g) s' := by
  rw [recvStep] at h
  cases hpc : s.pc with
  | recv breakpoint t l =>
    have hwas : ¬ s.pc.Finishing j := by rw [hpc]; exact id
    have hquiet : s'.hist = s.hist → ¬ s'.pc.Finishing j → ¬ Closes j s g → Effect j s (.recv g) s' := by
      intro hh hp hl
      refine .quiet hh ⟨fun h => absurd h hp, fun h => absurd h hwas⟩ ?_ fun _ _ h => nomatch h
      intro g' hg
      rw [← Act.recv.inj hg]
      exact hl
    have hclose : ∀ {next}, recvNext t l g = next → (∀ t' l', next ≠ .ends t' l' .closed) → ¬ Closes j s g := by
      rintro next rfl hne ⟨breakpoint', t1, l₁, t', l', hpc', hn, -⟩
      obtain ⟨-, rfl, rfl⟩ := Pc.recv.inj (hpc.symm.trans hpc')
      exact hne t' l' hn
    simp only [hpc] at h
    cases hn : recvNext t l g with
    | again t' l' =>
      simp only [hn, Option.some.injEq] at h
      subst h
      exact hquiet rfl id (hclose hn fun _ _ h => nomatch h)
    | poll t' l' =>
      simp only [hn, Option.some.injEq] at h
      subst h
      exact hquiet rfl id (hclose hn fun _ _ h => nomatch h)
    | ends t' l' e =>
      simp only [hn, Option.some.injEq] at h
      subst h
      by_cases he : e = .closed ∧ checkMd5 t'.gCtx j.md5 = true
      · obtain ⟨rfl, hm⟩ := he
        have hpc' : (loopEnd breakpoint t' l' .closed).Finishing j := finishing_loopEnd.2 ⟨rfl, hm⟩
        exact .closes g rfl ⟨breakpoint, t, l, t', l', hpc, hn, hm⟩ rfl hpc'
      · have hpc' : ¬ (loopEnd breakpoint t' l' e).Finishing j := fun h => he (finishing_loopEnd.1 h)
        refine hquiet rfl hpc' ?_
        rintro ⟨_, _, _, _, _, hpc', hn', hm⟩
        obtain ⟨-, rfl, rfl⟩ := Pc.recv.inj (hpc.symm.trans hpc')
        obtain ⟨rfl, -, rfl⟩ := Next.ends.inj (hn.symm.trans hn')
        exact he ⟨rfl, hm⟩
  | _ => simp only [hpc, reduceCtorEq] at h

theorem Effect.of_cancel (h : cancelStep s k = some s') : Effect j s (.cancel k) s' := by
  rw [cancelStep] at h
  have hquiet : s'.hist = s.hist → s'.pc = s.pc → (∀ m, s.cancels k ≠ .set m) → Effect j s (.cancel k) s' := by
    intro hh hp hset
    refine .quiet hh (by rw [hp]) (fun _ h => nomatch h) ?_
    intro k' m hk
    rw [← Act.cancel.inj hk]
    exact hset m
  cases hc : s.cancels k with
  | idle => simp only [hc, reduceCtorEq] at h
  | init m =>
    simp only [hc, Option.some.injEq] at h
    subst h
    exact hquiet rfl rfl fun m h => nomatch hc.symm.trans h
  | upgrade m =>
    simp only [hc, Option.some.injEq] at h
    subst h
    exact hquiet rfl rfl fun m h => nomatch hc.symm.trans h
  | set m =>
    simp only [hc, Option.some.injEq] at h
    subst h
    exact .accepted k m rfl hc rfl rfl

theorem Effect.of_step (h : Step j s a s') : Effect j s a s' := by
  cases a with
  | task => exact .of_task h
  | recv g => exact .of_recv h
  | cancel k => exact .of_cancel h
  | call k m =>
    rw [Step, Sys.step] at h
    split_ifs at h
    cases h
    exact .quiet rfl Iff.rfl (fun _ h => nomatch h) fun _ _ h => nomatch h

/-- Every accepted cancel came in time so far. -/
structure Timely (j : Job) (s : Sys) : Prop where
  effect : TakesEffect s.hist
  early : Accepted s.hist → ¬ s.pc.Finishing j

/-- A cancel has come too late, or the task is sure to go past it. -/
def Missed (j : Job) (s : Sys) : Prop := ¬ TakesEffect s.hist ∨ Accepted s.hist ∧ s.pc.Finishing j

theorem Timely.step (hs : Timely j s) (hC : InTime j s a) (h : Step j s a s') : Timely j s' := by
  cases Effect.of_step h with
  | quiet hist pc =>
    exact ⟨hist ▸ hs.effect, fun ha hp => hs.early (hist ▸ ha) (pc.1 hp)⟩
  | closes g act last hist pc =>
    subst act
    exact ⟨hist ▸ hs.effect, fun ha _ => hC (hist ▸ ha) last⟩
  | breakpoint act hist was pc =>
    refine ⟨?_, fun _ => pc⟩
    rw [hist, TakesEffect.snoc]
    exact ⟨hs.effect, by rintro (h | h) <;> cases h⟩
  | finish e act event hist was =>
    have hna : ¬ Accepted s.hist := fun ha => hs.early ha was
    constructor
    · rw [hist, TakesEffect.snoc]
      exact ⟨hs.effect, fun _ => hna⟩
    · rw [hist, Accepted.snoc]
      rintro (ha | ⟨m, rfl⟩)
      · exact absurd ha hna
      · rcases event with h | h <;> cases h
  | accepted k m act set hist pc =>
    subst act
    constructor
    · rw [hist, TakesEffect.snoc]
      exact ⟨hs.effect, by rintro (h | h) <;> cases h⟩
    · rw [pc]
      exact fun _ => hC ⟨m, set⟩

theorem Missed.step (hs : Missed j s) (h : Step j s a s') : Missed j s' := by
  cases Effect.of_step h with
  | quiet hist pc => exact hs.imp (fun h => hist ▸ h) fun ⟨ha, hp⟩ => ⟨hist ▸ ha, pc.2 hp⟩
  | closes g act last hist pc => exact hs.imp (fun h => hist ▸ h) fun ⟨ha, _⟩ => ⟨hist ▸ ha, pc⟩
  | breakpoint act hist was pc =>
    rcases hs with hs | ⟨-, hp⟩
    · exact .inl fun h => hs (TakesEffect.snoc.1 (hist ▸ h)).1
    · exact absurd hp was
  | finish e act event hist was =>
    left
    rw [hist, TakesEffect.snoc]
    rcases hs with hs | ⟨ha, -⟩
    · exact fun h => hs h.1
    · exact fun h => h.2 event ha
  | accepted k m act set hist pc =>
    rcases hs with hs | ⟨ha, hp⟩
    · exact .inl fun h => hs (TakesEffect.snoc.1 (hist ▸ h)).1
    · refine .inr ⟨?_, pc ▸ hp⟩
      rw [hist, Accepted.snoc]
      exact .inl ha

theorem Missed.of_late (hC : ¬ InTime j s a) (h : Step j s a s') : Missed j s' := by
  cases a with
  | task => exact absurd trivial hC
  | call k m => exact absurd trivial hC
  | recv g =>
    obtain ⟨ha, hl⟩ := Classical.not_imp.1 hC
    cases Effect.of_step h with
    | quiet _ _ recv => exact absurd (not_not.1 hl) (recv g rfl)
    | closes _ _ _ hist pc => exact .inr ⟨hist ▸ ha, pc⟩
    | breakpoint act => cases act
    | finish _ act => cases act
    | accepted _ _ act => cases act
  | cancel k =>
    obtain ⟨⟨m, hset⟩, hp⟩ := Classical.not_imp.1 hC
    cases Effect.of_step h with
    | quiet _ _ _ cancel => exact absurd hset (cancel k m rfl)
    | closes _ act => cases act
    | breakpoint act => cases act
    | finish _ act => cases act
    | accepted k' m' act set hist pc =>
      refine .inr ⟨?_, pc ▸ not_not.1 hp⟩
      rw [hist, Accepted.snoc]
      exact .inr ⟨m', rfl⟩

/-! ## Addressed messages -/

/-- The message is for this device. -/
def Addressed (j : Job) (deviceUuid : Str) : Prop := strnEq deviceUuid j.id MAX_ID_LEN = true

/-- The second read of `ota_is_cancelable` finds `OTA_UPGRADE` or more. -/
def Stopped (s : Sys) (a : Act) : Prop :=
  ∀ k m, a = .cancel k → s.cancels k = .upgrade m → ¬ s.status.toInt < OtaStatus.upgrade.toInt

def CancelPc.message : CancelPc → Option Str
  | .idle => none
  | .init m | .upgrade m | .set m => some m

/-- The comparison is the wrong way round: no message that gets past it is for this device. -/
structure Astray (j : Job) (s : Sys) : Prop where
  cancels : ∀ k m, (s.cancels k).message = some m → ¬ Addressed j m
  hist : ∀ m, .accepted m ∈ s.hist → ¬ Addressed j m

/-- What a step does to the cancels: nothing, one of them to another place, or the set. -/
inductive CancelEffect (j : Job) (s : Sys) (a : Act) (s' : Sys) : Prop
  | none (cancels : s'.cancels = s.cancels) (hist : ∀ m, .accepted m ∈ s'.hist ↔ .accepted m ∈ s.hist)
      (stopped : Stopped s a)
  | moves (k : ℕ) (c : CancelPc) (cancels : s'.cancels = Function.update s.cancels k c) (hist : s'.hist = s.hist)
      (was : ∀ m, s.cancels k ≠ .set m)
      (message : ∀ m, c.message = some m → (s.cancels k).message = some m ∨ ¬ Addressed j m)
      (set : (∃ m, c = .set m) ↔ ¬ Stopped s a)
  | sets (k : ℕ) (m : Str) (cancels : s'.cancels = Function.update s.cancels k .idle)
      (hist : s'.hist = s.hist ++ [.accepted m]) (was : s.cancels k = .set m) (stopped : Stopped s a)

theorem finishCb_cancels {r : FinishResult} : (s.finishCb j r).cancels = s.cancels := by
  rw [Sys.finishCb]
  split_ifs <;> rfl

theorem taskStep_cancels (h : taskStep j s = some s') : s'.cancels = s.cancels := by
  rw [taskStep] at h
  split at h <;> (try split_ifs at h) <;> cases h <;> first | rfl | exact finishCb_cancels

theorem recvStep_cancels (h : recvStep s g = some s') : s'.cancels = s.cancels := by
  rw [recvStep] at h
  split at h
  · split at h <;> cases h <;> rfl
  · cases h

theorem Effect.accepted_iff (h : Effect j s a s') (ha : ∀ k, a ≠ .cancel k) (m : Str) :
    .accepted m ∈ s'.hist ↔ .accepted m ∈ s.hist := by
  cases h with
  | quiet hist => rw [hist]
  | closes _ _ _ hist => rw [hist]
  | breakpoint _ hist => rw [hist]; simp
  | finish e _ event hist =>
    rw [hist]
    rcases event with rfl | rfl <;> simp
  | accepted k _ act => exact absurd act (ha k)

theorem ifCancel_message {m : Str} {uuid : Option Str} (h : (ifCancel j uuid).message = some m) : ¬ Addressed j m := by
  cases uuid with
  | none => exact nomatch h
  | some uuid =>
    rw [ifCancel] at h
    split_ifs at h with he
    · exact nomatch h
    · cases h
      exact he

theorem ifCancel_ne_set {m : Str} {uuid : Option Str} : ifCancel j uuid ≠ .set m := by
  cases uuid with
  | none => exact nofun
  | some uuid =>
    rw [ifCancel]
    split_ifs <;> exact nofun

theorem CancelEffect.of_step (h : Step j s a s') : CancelEffect j s a s' := by
  cases a with
  | task =>
    exact .none (taskStep_cancels h) ((Effect.of_task h).accepted_iff nofun) fun _ _ h => nomatch h
  | recv g =>
    exact .none (recvStep_cancels h) ((Effect.of_recv (j := j) h).accepted_iff nofun) fun _ _ h => nomatch h
  | call k uuid =>
    rw [Step, Sys.step] at h
    split_ifs at h with hidle
    cases h
    refine .moves k (ifCancel j uuid) rfl rfl ?_ (fun m hm => .inr (ifCancel_message hm)) ?_
    · rw [hidle]
      exact nofun
    · constructor
      · rintro ⟨m, hm⟩
        exact absurd hm ifCancel_ne_set
      · exact fun hn => absurd (fun _ _ h => nomatch h) hn
  | cancel k =>
    rw [Step, Sys.step, cancelStep] at h
    have hstop : (∀ m, s.cancels k ≠ .upgrade m) → Stopped s (.cancel k) := by
      rintro hne k' m hk hm
      rw [← Act.cancel.inj hk] at hm
      exact absurd hm (hne m)
    cases hc : s.cancels k with
    | idle => simp only [hc, reduceCtorEq] at h
    | init m =>
      simp only [hc, Option.some.injEq] at h
      subst h
      refine .moves k _ rfl rfl (by rw [hc]; exact nofun) ?_ ?_
      · intro m' hm'
        split_ifs at hm'
        · exact .inl (by rw [hc]; exact hm')
        · exact nomatch hm'
      · constructor
        · rintro ⟨m', hm'⟩
          split_ifs at hm'
        · exact fun hn => absurd (hstop fun m' hm' => nomatch hc.symm.trans hm') hn
    | upgrade m =>
      simp only [hc, Option.some.injEq] at h
      subst h
      refine .moves k _ rfl rfl (by rw [hc]; exact nofun) ?_ ?_
      · intro m' hm'
        split_ifs at hm'
        · exact .inl (by rw [hc]; exact hm')
        · exact nomatch hm'
      · by_cases hlt : s.status.toInt < OtaStatus.upgrade.toInt
        · rw [if_pos hlt]
          exact ⟨fun _ hs => hs k m rfl hc hlt, fun _ => ⟨m, rfl⟩⟩
        · rw [if_neg hlt]
          refine ⟨nofun, fun hn => absurd ?_ hn⟩
          intro _ _ _ _
          exact hlt
    | set m =>
      simp only [hc, Option.some.injEq] at h
      subst h
      exact .sets k m rfl rfl hc (hstop fun m' hm' => nomatch hc.symm.trans hm')

theorem Astray.step (hs : Astray j s) (h : Step j s a s') : Astray j s' := by
  cases CancelEffect.of_step h with
  | none cancels hist => exact ⟨cancels ▸ hs.cancels, fun m hm => hs.hist m ((hist m).1 hm)⟩
  | moves k c cancels hist was message =>
    refine ⟨?_, hist ▸ hs.hist⟩
    intro k' m hm
    rw [cancels] at hm
    by_cases hk : k' = k
    · subst hk
      rw [Function.update_self] at hm
      exact (message m hm).elim (hs.cancels k' m) id
    · rw [Function.update_of_ne hk] at hm
      exact hs.cancels k' m hm
  | sets k m cancels hist was =>
    constructor
    · intro k' m' hm
      rw [cancels] at hm
      by_cases hk : k' = k
      · subst hk
        rw [Function.update_self] at hm
        exact nomatch hm
      · rw [Function.update_of_ne hk] at hm
        exact hs.cancels k' m' hm
    · intro m' hm
      rw [hist] at hm
      rcases List.mem_append.1 hm with hm | hm
      · exact hs.hist m' hm
      · obtain rfl := Event.accepted.inj (List.mem_singleton.1 hm)
        exact hs.cancels k m' (by rw [was]; rfl)

/-- No cancel is about to be accepted, or was. -/
structure Quiet (j : Job) (s : Sys) : Prop where
  astray : Astray j s
  cancels : ∀ k m, s.cancels k ≠ .set m
  hist : ¬ Accepted s.hist

/-- A cancel is about to be accepted, or was. -/
structure Loud (j : Job) (s : Sys) : Prop where
  astray : Astray j s
  loud : (∃ k m, s.cancels k = .set m) ∨ Accepted s.hist

theorem Quiet.step (hs : Quiet j s) (hC : Stopped s a) (h : Step j s a s') : Quiet j s' := by
  refine ⟨hs.astray.step h, ?_, ?_⟩
  · intro k' m' hset
    cases CancelEffect.of_step h with
    | none cancels => exact hs.cancels k' m' (cancels ▸ hset)
    | moves k c cancels hist was message set =>
      rw [cancels] at hset
      by_cases hk : k' = k
      · subst hk
        rw [Function.update_self] at hset
        exact set.1 ⟨m', hset⟩ hC
      · rw [Function.update_of_ne hk] at hset
        exact hs.cancels k' m' hset
    | sets k m cancels hist was => exact hs.cancels k m was
  · rintro ⟨m, hm⟩
    cases CancelEffect.of_step h with
    | none cancels hist => exact hs.hist ⟨m, (hist m).1 hm⟩
    | moves k c cancels hist => exact hs.hist ⟨m, hist ▸ hm⟩
    | sets k m cancels hist was => exact hs.cancels k m was

theorem Loud.step (hs : Loud j s) (h : Step j s a s') : Loud j s' := by
  refine ⟨hs.astray.step h, ?_⟩
  cases CancelEffect.of_step h with
  | none cancels hist =>
    rcases hs.loud with ⟨k, m, hm⟩ | ⟨m, hm⟩
    · exact .inl ⟨k, m, cancels ▸ hm⟩
    · exact .inr ⟨m, (hist m).2 hm⟩
  | moves k c cancels hist was =>
    rcases hs.loud with ⟨k', m, hm⟩ | ha
    · refine .inl ⟨k', m, ?_⟩
      have hk : k' ≠ k := by
        rintro rfl
        exact was m hm
      rw [cancels, Function.update_of_ne hk]
      exact hm
    · exact .inr (hist ▸ ha)
  | sets k m cancels hist =>
    right
    rw [hist, Accepted.snoc]
    exact .inr ⟨m, rfl⟩

theorem Loud.of_unstopped (hs : Astray j s) (hC : ¬ Stopped s a) (h : Step j s a s') : Loud j s' := by
  refine ⟨hs.step h, ?_⟩
  cases CancelEffect.of_step h with
  | none _ _ stopped => exact absurd stopped hC
  | moves k c cancels _ _ _ set =>
    obtain ⟨m, rfl⟩ := set.2 hC
    exact .inl ⟨k, m, by rw [cancels, Function.update_self]⟩
  | sets _ _ _ _ _ stopped => exact absurd stopped hC

/-- **Cancels**: with the task at its end, the accepted cancels took effect exactly if all came
    in time; with no cancel in progress, the accepted ones were for this device exactly if the
    status stopped all that were not. -/
theorem cancel_takes_effect (j : Job) (as : List Act) (s : Sys) (h : Lib.Run (Step j) .start as s) :
    ((Lib.Run (Lib.restrict (InTime j) (Step j)) .start as s → TakesEffect s.hist) ∧
      (s.pc = .ended → TakesEffect s.hist → Lib.Run (Lib.restrict (InTime j) (Step j)) .start as s)) ∧
    ((Lib.Run (Lib.restrict Stopped (Step j)) .start as s → ∀ m, .accepted m ∈ s.hist → Addressed j m) ∧
      ((∀ k, s.cancels k = .idle) → (∀ m, .accepted m ∈ s.hist → Addressed j m) →
        Lib.Run (Lib.restrict Stopped (Step j)) .start as s)) := by
  constructor
  · refine Lib.Run.exact (J := Timely j) (B := Missed j) (P := fun s => TakesEffect s.hist)
      (C := InTime j) (D := fun s => s.pc = .ended)
      Timely.effect Timely.step (fun _ => Missed.of_late) Missed.step ?_ h ⟨.nil, fun ⟨_, hm⟩ => nomatch hm⟩
    rintro s (hn | ⟨-, hp⟩) hdone
    · exact hn
    · rw [hdone] at hp
      exact hp.elim
  · refine Lib.Run.exact (J := Quiet j) (B := Loud j) (P := fun s => ∀ m, .accepted m ∈ s.hist → Addressed j m)
      (C := Stopped) (D := fun s => ∀ k, s.cancels k = .idle)
      (fun hs m hm => absurd ⟨m, hm⟩ hs.hist) Quiet.step (fun hs => Loud.of_unstopped hs.astray) Loud.step ?_ h
      ⟨⟨nofun, nofun⟩, nofun, fun ⟨_, hm⟩ => nomatch hm⟩
    rintro s hl hidle hP
    rcases hl.loud with ⟨k, m, hm⟩ | ⟨m, hm⟩
    · exact nomatch (hidle k).symm.trans hm
    · exact hl.astray.hist m hm (hP m hm)

def Sys.after (j : Job) (s : Sys) (as : List Act) : Option Sys := as.foldlM (Sys.step j) s

theorem Sys.run_after (h : s.after j as = some s') : Lib.Run (Step j) s as s' := by
  induction as generalizing s with
  | nil =>
    cases h
    exact .nil
  | cons a as ih =>
    obtain ⟨s₁, h1, h⟩ := Option.bind_eq_some_iff.1 h
    exact .cons h1 (ih h)

/-- The md5 of the empty image, on device `"A"`. -/
def emptyJob : Job :=
  { nv := .fresh fun _ => 0xff
    md5 := [0x44, 0x34, 0x31, 0x44, 0x38, 0x43, 0x44, 0x39, 0x38, 0x46, 0x30, 0x30, 0x42, 0x32, 0x30, 0x34,
      0x45, 0x39, 0x38, 0x30, 0x30, 0x39, 0x39, 0x38, 0x45, 0x43, 0x46, 0x38, 0x34, 0x32, 0x37, 0x45]
    url := true, connects := true, sends := true, finishCb := true, id := [0x41] }

/-- A cancel for device `"B"`, before the first byte of the body. -/
def early : List Act :=
  [.task, .task, .recv (.data headerEnd), .call 0 (some [0x42]), .cancel 0, .cancel 0, .cancel 0,
    .recv (.data [0x61]), .task, .task, .task]

theorem cancel_takes_effect_early :
    ∃ s, Lib.Run (Step emptyJob) .start early s ∧ Accepted s.hist ∧
      Lib.Run (Lib.restrict (InTime emptyJob) (Step emptyJob)) .start early s := by
  have hrun : Lib.Run (Step emptyJob) .start early _ := Sys.run_after rfl
  refine ⟨_, hrun, ⟨[0x42], List.mem_cons_self⟩, (cancel_takes_effect emptyJob early _ hrun).1.2 rfl ?_⟩
  change TakesEffect ([.accepted [0x42]] ++ [_])
  exact TakesEffect.snoc.2
    ⟨List.pairwise_singleton _ _, by rintro (h | h) <;> cases h⟩

/-! ## A cancel that is too late -/

/-- The same cancel, and the image is empty. -/
def late : List Act :=
  [.task, .task, .call 0 (some [0x42]), .cancel 0, .cancel 0, .cancel 0, .recv (.data []), .task, .task, .task,
    .task]

theorem cancel_misses :
    ¬ ∀ j as s, Lib.Run (Step j) .start as s → TakesEffect s.hist ∧ ∀ m, .accepted m ∈ s.hist → Addressed j m := by
  intro h
  have hlate : (Sys.start.after emptyJob late).map (·.hist) =
      some [.accepted [0x42], .upgrade, .callback .finish] := by decide +kernel
  obtain ⟨s, hs, hist⟩ := Option.map_eq_some_iff.1 hlate
  have hP := (h emptyJob late s (Sys.run_after hs)).1
  rw [hist] at hP
  exact (List.rel_of_pairwise_cons hP List.mem_cons_self ⟨[0x42], rfl⟩).1 rfl

end Fota
