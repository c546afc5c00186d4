/-
  The locks of the client are balanced, except on two kinds of path: the iterator
  of the requests cannot be allocated, and `lock_list_sub` is taken a second time;
  a SUBACK finds the table full, and `lock_generic` is not released.
-/
import AliOS.Mqtt.Subs
import Mathlib.Tactic.SplitIfs

namespace Mqtt

open Lib LockM

variable {c : SubClient} {h : Lock → Bool} {P : Prop}

/-! ## What each function does, with its locks free -/

theorem iotxMcPushPubInfoTo_balanced {len : ℤ} {msgId : ℕ} {env : PushEnv} (hp : h .listPub = false) :
    LockBalanced (iotxMcPushPubInfoTo len msgId env) c h := by
  unfold LockBalanced iotxMcPushPubInfoTo
  simp only [wp_bind, wp_get, wp_ite, wp_lock_free hp, wp_unlock_taken hp, wp_modify, wp_pure, ite_self]

theorem iotxMcPushSubInfoTo_balanced {len msgId : ℕ} {type : SubType} {handler : TopicHandle} {env : PushEnv}
    (hs : h .listSub = false) : LockBalanced (iotxMcPushSubInfoTo len msgId type handler env) c h := by
  unfold LockBalanced iotxMcPushSubInfoTo
  simp only [wp_bind, wp_get, wp_ite, wp_lock_free hs, wp_unlock_taken hs, wp_modify, wp_pure, ite_self]

theorem iotxMcGetNextPacketid_balanced (hg : h .generic = false) : LockBalanced iotxMcGetNextPacketid c h := by
  unfold LockBalanced iotxMcGetNextPacketid
  simp only [wp_bind, wp_get, wp_lock_free hg, wp_unlock_taken hg, wp_modify, wp_pure]

/-- The iterator over the requests is there, or there are none. -/
def IterOk (c : SubClient) (iter : Bool) : Prop := c.listSub ≠ [] → iter = true

theorem iotxMcMaskSubInfoFrom_wp {msgId : ℕ} {iter : Bool}
    {Q : Option TopicHandle → SubClient → (Lock → Bool) → Prop}
    (hs : h .listSub = false) :
    wp P (iotxMcMaskSubInfoFrom msgId iter) Q c h ↔
      if c.listSub = [] then Q none c h
      else if iter then
        Q (maskNodes msgId c.listSub.reverse none).2
          { c with listSub := (maskNodes msgId c.listSub.reverse none).1.reverse } h
      else P := by
  unfold iotxMcMaskSubInfoFrom
  simp only [wp_bind, wp_get, wp_ite, wp_lock_free hs, wp_lock_taken, wp_unlock_taken hs, wp_modify, wp_pure]
  cases c.listSub <;> cases iter <;> simp

theorem iotxMcMaskSubInfoFrom_balanced_iff {msgId : ℕ} {iter : Bool} (hs : h .listSub = false) :
    LockBalanced (iotxMcMaskSubInfoFrom msgId iter) c h ↔ IterOk c iter := by
  unfold LockBalanced IterOk
  rw [iotxMcMaskSubInfoFrom_wp hs]
  split_ifs with hc hi
  · simp [hc]
  · simp [hi]
  · simp [hc, hi]

theorem iotxMcGetClientState_wp {Q : Bool → SubClient → (Lock → Bool) → Prop} (hg : h .generic = false) :
    wp P iotxMcGetClientState Q c h ↔ Q c.connected c h := by
  unfold iotxMcGetClientState
  simp only [wp_bind, wp_get, wp_lock_free hg, wp_unlock_taken hg, wp_pure]

theorem subInfoWalk_wp {expired : SubInfo → Bool} (hg : h .generic = false) (hs : h .listSub = false)
    {ns : List (Option SubInfo)} {c : SubClient} {Q : List (Option SubInfo) → SubClient → (Lock → Bool) → Prop}
    (hQ : ∀ ns c, Q ns c (Function.update h .listSub true)) :
    wp P (subInfoWalk expired ns) Q c (Function.update h .listSub true) := by
  have hg' : Function.update h Lock.listSub true Lock.generic = false := hg
  induction ns generalizing c Q with
  | nil => exact hQ _ _
  | cons n ns ih =>
    cases n with
    | none => exact ih hQ
    | some info =>
      unfold subInfoWalk
      simp only [wp_ite, wp_bind, iotxMcGetClientState_wp hg', wp_unlock_taken hs, wp_get]
      split_ifs
      · exact ih hQ
      · exact ih fun _ _ => hQ _ _
      -- the timeout is reported between the release of the lock and its return
      · cases info.type <;> simp only [notify, wp_bind, wp_modify, wp_lock_free hs] <;> exact ih hQ
      · rw [wp_lock_free hs]
        exact ih hQ

theorem mqttSubInfoProc_balanced_iff {iter : Bool} {expired : SubInfo → Bool} (hg : h .generic = false)
    (hs : h .listSub = false) : LockBalanced (mqttSubInfoProc iter expired) c h ↔ IterOk c iter := by
  unfold LockBalanced mqttSubInfoProc IterOk
  simp only [wp_bind, wp_get, wp_ite, wp_lock_free hs, wp_lock_taken, wp_unlock_taken hs, wp_pure,
    List.length_eq_zero_iff, Bool.not_eq_true']
  split_ifs with hc hi
  · simp [hc]
  · simp [hc, hi]
  · refine iff_of_true (subInfoWalk_wp hg hs fun ns c' => ?_) fun _ => by simpa using hi
    simp only [wp_bind, wp_modify, wp_unlock_taken hs, wp_pure]

theorem iotxMcHandleRecvUnsuback_balanced_iff {body : Bytes} {junk : TopicHandle} {iter : Bool}
    (hg : h .generic = false) (hs : h .listSub = false) :
    LockBalanced (iotxMcHandleRecvUnsuback body junk iter) c h ↔ IterOk c iter := by
  unfold LockBalanced iotxMcHandleRecvUnsuback IterOk
  simp only [wp_bind, iotxMcMaskSubInfoFrom_wp hs, wp_lock_free hg, wp_unlock_taken hg, wp_get, wp_modify, wp_ite,
    notify, wp_pure, ite_self]
  split_ifs with hc hi
  · simp [hc]
  · simp [hi]
  · simp [hc, hi]

/-! ## SUBACK -/

/-- A SUBACK with `handler` finds its handle in the table, or room for it. -/
def TableOk (c : SubClient) (handler : TopicHandle) : Prop :=
  (∃ e, some e ∈ c.subHandle ∧ handleIsIdentical e handler) ∨ none ∈ c.subHandle

/-- What a SUBACK with a code other than 0x80 needs of the iterator and of the table. -/
def SubackOk (c : SubClient) (body : Bytes) (junk : ℕ) (iter : Bool) : Prop :=
  ∀ msgId code, mqttDeserializeSuback body junk = some (msgId, code) → code ≠ some 0x80 →
    IterOk c iter ∧
      ∀ handler, (maskNodes msgId c.listSub.reverse none).2 = some handler → handler.hFp ≠ none →
        TableOk c handler

theorem subackOk_iff {body : Bytes} {junk msgId : ℕ} {code : Option UInt8} {iter : Bool}
    (hb : mqttDeserializeSuback body junk = some (msgId, code)) (hc : code ≠ some 0x80) :
    SubackOk c body junk iter ↔ IterOk c iter ∧
      ∀ handler, (maskNodes msgId c.listSub.reverse none).2 = some handler → handler.hFp ≠ none →
        TableOk c handler := by
  unfold SubackOk
  rw [hb]
  constructor
  · intro hok
    exact hok _ _ rfl hc
  · rintro hok _ _ ⟨⟩ -
    exact hok

theorem iotxMcHandleRecvSuback_balanced_iff {body : Bytes} {junk : ℕ} {iter : Bool} (hg : h .generic = false)
    (hs : h .listSub = false) :
    LockBalanced (iotxMcHandleRecvSuback body junk iter) c h ↔ SubackOk c body junk iter := by
  cases hb : mqttDeserializeSuback body junk with
  | none =>
    unfold LockBalanced iotxMcHandleRecvSuback SubackOk
    simp [hb]
  | some p =>
    obtain ⟨msgId, code⟩ := p
    by_cases hc : code = some 0x80
    · -- without a handler for events this path is a call of the null pointer
      subst hc
      unfold LockBalanced iotxMcHandleRecvSuback SubackOk
      rw [hb]
      cases he : c.handleEvent <;> simp [he, notify]
    · rw [subackOk_iff hb hc]
      unfold LockBalanced iotxMcHandleRecvSuback
      rw [hb]
      simp only [wp_bind, iotxMcMaskSubInfoFrom_wp hs, if_neg hc]
      split_ifs with hl hi
      · simp [hl, IterOk, maskNodes]
      · have hok : IterOk c iter := fun _ => hi
        cases hm : (maskNodes msgId c.listSub.reverse none).2 with
        | none => simp [hok]
        | some handler =>
          by_cases hf : handler.hFp = none
          · simp [hok, hf]
          · have ht : (∀ h, some handler = some h → h.hFp ≠ none → TableOk c h) ↔ TableOk c handler :=
              ⟨fun ht => ht _ rfl hf, fun ht _ heq _ => Option.some.inj heq ▸ ht⟩
            rw [ht, TableOk, ← any_any_iff]
            simp only [if_neg hf, wp_bind, wp_ite, wp_lock_free hg, wp_unlock_taken hg, wp_get, wp_modify, notify,
              wp_pure, ite_self, hok, true_and, update_taken_ne hg]
            -- the function returns with the lock where it finds neither its handle nor room
            by_cases hn : none ∈ c.subHandle <;>
              cases c.subHandle.any fun e => e.any fun e => handleIsIdentical e handler <;> simp [hn]
      · simp [IterOk, hl, hi]

/-! ## The functions together -/

/-- **When the locks are balanced.**  The pushes and the packet ids keep their locks
    balanced; what walks over the requests does so exactly where its iterator is
    there, and a SUBACK if besides the table has its handle or room for it. -/
theorem client_locks_balanced_iff (hg : h .generic = false) (hp : h .listPub = false) (hs : h .listSub = false)
    (c : SubClient) :
    (∀ len msgId env, LockBalanced (iotxMcPushPubInfoTo len msgId env) c h) ∧
    (∀ len msgId type handler env, LockBalanced (iotxMcPushSubInfoTo len msgId type handler env) c h) ∧
    LockBalanced iotxMcGetNextPacketid c h ∧
    ∀ iter,
      (∀ msgId, LockBalanced (iotxMcMaskSubInfoFrom msgId iter) c h ↔ IterOk c iter) ∧
      (∀ expired, LockBalanced (mqttSubInfoProc iter expired) c h ↔ IterOk c iter) ∧
      (∀ body junk, LockBalanced (iotxMcHandleRecvUnsuback body junk iter) c h ↔ IterOk c iter) ∧
      ∀ body junk, LockBalanced (iotxMcHandleRecvSuback body junk iter) c h ↔ SubackOk c body junk iter :=
  ⟨fun _ _ _ => iotxMcPushPubInfoTo_balanced hp,
    fun _ _ _ _ _ => iotxMcPushSubInfoTo_balanced hs,
    iotxMcGetNextPacketid_balanced hg,
    fun _ => ⟨fun _ => iotxMcMaskSubInfoFrom_balanced_iff hs,
      fun _ => mqttSubInfoProc_balanced_iff hg hs,
      fun _ _ => iotxMcHandleRecvUnsuback_balanced_iff hg hs,
      fun _ _ => iotxMcHandleRecvSuback_balanced_iff hg hs⟩⟩

/-- A connected client that waits for the ack of its subscription 7, with `subHandle`. -/
def clientWith (subHandle : List (Option TopicHandle)) : SubClient :=
  ⟨7, [], 64, subHandle, true, [], [some ⟨.subscribe, 7, .normal, ⟨[0x61], some 1, 0⟩, []⟩], true, []⟩

theorem client_locks_balanced_iff_room :
    LockBalanced (iotxMcHandleRecvSuback [0, 7, 1] 0 true) (clientWith (List.replicate subNumMax none))
      (fun _ => false) :=
  (((client_locks_balanced_iff rfl rfl rfl _).2.2.2 true).2.2.2 _ _).2
    ((subackOk_iff rfl (by decide)).2 ⟨fun _ => rfl, fun _ _ _ => .inr (by decide)⟩)

/-- A SUBACK that finds ten other handles returns with `lock_generic`; an ack whose
    iterator cannot be allocated takes `lock_list_sub` twice. -/
theorem client_locks_not_balanced :
    ¬ LockBalanced (iotxMcHandleRecvSuback [0, 7, 1] 0 true)
      (clientWith (List.replicate subNumMax (some ⟨[0x62], some 1, 0⟩))) (fun _ => false) ∧
    ¬ LockBalanced (iotxMcMaskSubInfoFrom 7 false) (clientWith (List.replicate subNumMax none)) (fun _ => false) := by
  refine ⟨?_, fun hb => hb⟩
  rw [iotxMcHandleRecvSuback_balanced_iff rfl rfl, subackOk_iff rfl (by decide)]
  rintro ⟨-, ht⟩
  obtain ⟨e, he, hi⟩ | hn := ht _ rfl (by decide)
  · obtain rfl := Option.some.inj (List.eq_of_mem_replicate he)
    exact absurd hi (by decide)
  · exact absurd hn (by decide)

end Mqtt
