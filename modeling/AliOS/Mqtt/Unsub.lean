/-
  Unsubscribing.

  A run is any sequence of subscriptions, unsubscriptions, acks, publishes and
  walks over the waiting requests, from a client without subscriptions.
  A request to unsubscribe waits with a handle whose callback is null, and every
  entry of the table has a callback: so no UNSUBACK for a filter takes an entry out.
-/
import AliOS.Mqtt.Subs
import AliOS.Lib.Trans
import Mathlib.Data.List.ReduceOption

namespace Mqtt

open Lib LockM

/-- What can happen to a client. -/
inductive Op
  | subscribe (topicFilter : Bytes) (msgId hFp pcontext : ℕ) (env : RequestEnv)
  | unsubscribe (topicFilter : Bytes) (msgId : ℕ) (env : RequestEnv)
  | suback (body : Bytes) (junk : ℕ) (iter : Bool)
  | unsuback (body : Bytes) (junk : TopicHandle) (iter : Bool)
  | publish (topic : Bytes)
  | subInfoProc (iter : Bool) (expired : SubInfo → Bool)
  | setState (connected : Bool)

def Op.exec : Op → Client (Option Rc)
  | .subscribe topicFilter msgId hFp pcontext env => do
    let rc ← mqttSubscribe topicFilter msgId hFp pcontext env
    pure (some rc)
  | .unsubscribe topicFilter msgId env => do
    let rc ← mqttUnsubscribe topicFilter msgId env
    pure (some rc)
  | .suback body junk iter => do
    let rc ← iotxMcHandleRecvSuback body junk iter
    pure (some rc)
  | .unsuback body junk iter => do
    let rc ← iotxMcHandleRecvUnsuback body junk iter
    pure (some rc)
  | .publish topic => do
    iotxMcDeliverMessage topic
    pure none
  | .subInfoProc iter expired => do
    let rc ← mqttSubInfoProc iter expired
    pure (some rc)
  | .setState connected => do
    iotxMcSetClientState connected
    pure none

/-- The request that an ack with `msgId` is for, the oldest with this id. -/
def ackedRequest (c : SubClient) (msgId : ℕ) : Option SubInfo :=
  c.listSub.reduceOption.find? fun info => info.msgId = msgId

/-- An ack with `msgId` is for a request of this type and filter. -/
def Acks (c : SubClient) (type : SubType) (msgId : ℕ) (f : Bytes) : Prop :=
  ∃ info, ackedRequest c msgId = some info ∧ info.type = type ∧ info.handler.topicFilter = f

/-- The operation handles a SUBACK that grants a subscription to `f`. -/
def SubackFor (c : SubClient) (f : Bytes) : Op → Prop
  | .suback body junk _ => ∃ msgId code,
    mqttDeserializeSuback body junk = some (msgId, code) ∧ code ≠ some 0x80 ∧ Acks c .subscribe msgId f
  | _ => False

/-- The operation handles the UNSUBACK for `f`. -/
def UnsubackFor (c : SubClient) (f : Bytes) : Op → Prop
  | .unsuback body _ _ => Acks c .unsubscribe (mqttDeserializeUnsuback body) f
  | _ => False

/-- The operation asks for a subscription to `f`. -/
def SubscribeFor (f : Bytes) : Op → Prop
  | .subscribe topicFilter _ _ _ _ => topicFilter = f
  | _ => False

/-- A client, the locks left held, and the filters whose UNSUBACK was handled and for
    which no subscription was asked since. -/
structure Session where
  client : SubClient
  held : Lock → Bool
  gone : Bytes → Prop

/-- A step: the operation returns. -/
def SessionStep (s : Session) (op : Op) (s' : Session) : Prop :=
  (∃ rc, op.exec s.client s.held = .ok rc s'.client s'.held) ∧
    ∀ f, s'.gone f ↔ UnsubackFor s.client f op ∨ s.gone f ∧ ¬ SubscribeFor f op

/-- The state behind `iotx_mc_init`: no subscription, no request, no lock held. -/
def SessionInit (s : Session) : Prop :=
  s.client.subHandle = List.replicate subNumMax none ∧ s.client.listSub = [] ∧ (∀ l, s.held l = false) ∧
    ∀ f, ¬ s.gone f

/-- An entry of the table has the filter. -/
def HasFilter (c : SubClient) (f : Bytes) : Prop := ∃ e, some e ∈ c.subHandle ∧ e.topicFilter = f

/-! ## Invariant -/

/-- Entries have callbacks; of the requests, those to subscribe have one. -/
structure SubInv (c : SubClient) : Prop where
  table : ∀ e, some e ∈ c.subHandle → e.hFp ≠ none
  pending : ∀ info, some info ∈ c.listSub → (info.handler.hFp = none ↔ info.type = .unsubscribe)

/-- The request was made in `c`, or is well formed. -/
def Known (c : SubClient) (info : SubInfo) : Prop :=
  (info.handler.hFp = none ↔ info.type = .unsubscribe) ∨
    ∃ info₀, some info₀ ∈ c.listSub ∧ info₀.type = info.type ∧ info₀.handler = info.handler

/-- The application was told more; publishes went to entries of the table. -/
def Told (c : SubClient) (events : List Event) : Prop :=
  ∃ es, events = c.events ++ es ∧ ∀ e topic, Event.publish e topic ∈ es → some e ∈ c.subHandle

/-- `c'` comes behind `c`, with the table `t`. -/
structure Follows (c c' : SubClient) (t : List (Option TopicHandle)) : Prop where
  table : c'.subHandle = t
  pending : ∀ info, some info ∈ c'.listSub → Known c info
  told : Told c c'.events

variable {c c' c₀ : SubClient} {h h' : Lock → Bool}

theorem Told.refl : Told c c.events := ⟨[], (List.append_nil _).symm, nofun⟩

theorem Told.snoc {es : List Event} {e : Event} (ht : Told c es)
    (he : ∀ hd topic, e = .publish hd topic → some hd ∈ c.subHandle) : Told c (es ++ [e]) := by
  obtain ⟨es', rfl, hes⟩ := ht
  refine ⟨es' ++ [e], List.append_assoc .., fun hd topic hm => ?_⟩
  rcases List.mem_append.1 hm with hm | hm
  · exact hes hd topic hm
  · exact he hd topic (List.mem_singleton.1 hm).symm

theorem Known.of_mem {info : SubInfo} (hm : some info ∈ c.listSub) : Known c info := .inr ⟨info, hm, rfl, rfl⟩

theorem Follows.refl : Follows c c c.subHandle := ⟨rfl, fun _ => .of_mem, .refl⟩

theorem maskNodes_fst {msgId : ℕ} {ns : List (Option SubInfo)} {hd : Option TopicHandle} {info : SubInfo}
    (hi : some info ∈ (maskNodes msgId ns hd).1) :
    ∃ info0, some info0 ∈ ns ∧ info0.type = info.type ∧ info0.handler = info.handler := by
  induction ns generalizing hd with
  | nil => cases hi
  | cons n ns ih =>
    cases n with
    | none =>
      obtain ⟨i, hm, hi⟩ := ih (List.mem_of_ne_of_mem (by simp) hi)
      exact ⟨i, List.mem_cons_of_mem _ hm, hi⟩
    | some n =>
      unfold maskNodes at hi
      split_ifs at hi
      · rcases List.mem_cons.1 hi with heq | hi
        · cases heq
          exact ⟨n, List.mem_cons_self, rfl, rfl⟩
        · obtain ⟨i, hm, hi⟩ := ih hi
          exact ⟨i, List.mem_cons_of_mem _ hm, hi⟩
      · rcases List.mem_cons.1 hi with heq | hi
        · cases heq
          exact ⟨info, List.mem_cons_self, rfl, rfl⟩
        · obtain ⟨i, hm, hi⟩ := ih hi
          exact ⟨i, List.mem_cons_of_mem _ hm, hi⟩

theorem maskNodes_snd {msgId : ℕ} {ns : List (Option SubInfo)} {hd : Option TopicHandle} :
    (maskNodes msgId ns hd).2 =
      ((ns.reverse.reduceOption.find? fun info => info.msgId = msgId).map (·.handler)).or hd := by
  induction ns generalizing hd with
  | nil => rfl
  | cons n ns ih =>
    cases n with
    | none =>
      unfold maskNodes
      rw [List.reverse_cons, List.reduceOption_append]
      simpa using ih
    | some n =>
      unfold maskNodes
      rw [List.reverse_cons, List.reduceOption_append, List.find?_append]
      split_ifs with hn
      · simp [ih, hn]
      · simp [ih, hn]

theorem known_of_masked {msgId : ℕ} {hd : Option TopicHandle} {info : SubInfo}
    (hi : some info ∈ (maskNodes msgId c.listSub.reverse hd).1.reverse) : Known c info := by
  obtain ⟨i, hm, hi⟩ := maskNodes_fst (List.mem_reverse.1 hi)
  exact .inr ⟨i, List.mem_reverse.1 hm, hi⟩

theorem masked_handler {msgId : ℕ} :
    (maskNodes msgId c.listSub.reverse none).2 = (ackedRequest c msgId).map (·.handler) := by
  rw [maskNodes_snd, List.reverse_reverse, Option.or_none]
  rfl

/-! ## What each operation does to the table -/

theorem mask_wp {msgId : ℕ} {iter : Bool} {Q : Option TopicHandle → SubClient → (Lock → Bool) → Prop}
    (hQ : ∀ ns h', (∀ info, some info ∈ ns → Known c info) →
      Q ((ackedRequest c msgId).map (·.handler)) { c with listSub := ns } h') :
    wp True (iotxMcMaskSubInfoFrom msgId iter) Q c h := by
  unfold iotxMcMaskSubInfoFrom
  refine wp_lock_bind fun _ => ?_
  simp only [wp_bind, wp_get, wp_ite]
  split_ifs with hl hi
  · simp only [wp_lock_taken]
  · simp only [wp_bind, wp_modify]
    refine wp_unlock_of fun _ => ?_
    rw [wp_pure, masked_handler]
    exact hQ _ _ fun _ => known_of_masked
  · refine wp_unlock_of fun _ => ?_
    have hn : ackedRequest c msgId = none := by
      rw [ackedRequest, List.length_eq_zero_iff.1 (not_not.1 hl)]
      rfl
    have hQ := hQ c.listSub (Function.update (Function.update h .listSub true) .listSub false) fun _ => .of_mem
    rw [hn] at hQ
    exact hQ

theorem push_wp {len msgId : ℕ} {type : SubType} {handler : TopicHandle} {env : PushEnv}
    {Q : Rc → SubClient → (Lock → Bool) → Prop} (hf : ∀ h', Q .fail c h')
    (hs : ∀ info h', info.type = type → info.handler = handler →
      Q .success { c with listSub := c.listSub ++ [some info] } h') :
    wp True (iotxMcPushSubInfoTo len msgId type handler env) Q c h := by
  unfold iotxMcPushSubInfoTo
  refine wp_lock_bind fun _ => ?_
  simp only [wp_bind, wp_get, wp_ite, wp_modify]
  split_ifs <;> refine wp_unlock_of fun _ => ?_
  · exact hf _
  · exact hf _
  · exact hf _
  · exact hs _ _ rfl rfl

theorem sendRequest_wp {packetError : Rc} {type : SubType} {handler : TopicHandle} {msgId : ℕ} {env : RequestEnv}
    (ht : handler.hFp = none ↔ type = .unsubscribe) :
    wp True (sendRequest packetError type handler msgId env) (fun _ c' _ => Follows c c' c.subHandle) c h := by
  unfold sendRequest
  refine wp_lock_bind fun _ => ?_
  by_cases hl : env.len ≤ 0
  · rw [if_pos hl, wp_bind]
    exact wp_unlock_of fun _ => .refl
  rw [if_neg hl, wp_bind]
  refine push_wp (fun h' => ?_) fun info h' hit hih => ?_
  · rw [if_pos (by decide), wp_bind]
    exact wp_unlock_of fun _ => .refl
  rw [if_neg (by decide), wp_ite]
  have hk : ∀ i, some i ∈ c.listSub ++ [some info] → Known c i := by
    intro i hi
    rcases List.mem_append.1 hi with hi | hi
    · exact .of_mem hi
    · obtain rfl := Option.some.inj (List.mem_singleton.1 hi)
      subst hit hih
      exact .inl ht
  split_ifs
  · -- the packet was not sent: the request goes out of the list again
    refine wp_lock_bind fun _ => ?_
    simp only [wp_bind, wp_modify]
    refine wp_unlock_of fun _ => ?_
    exact wp_unlock_bind fun _ => ⟨rfl, fun i hi => hk i ((List.dropLast_subset _) hi), .refl⟩
  · exact wp_unlock_bind fun _ => ⟨rfl, hk, .refl⟩

/-- The table with a handle, if it has room. -/
def insertHandle (t : List (Option TopicHandle)) (handler : TopicHandle) : List (Option TopicHandle) :=
  if (t.any fun e => e.any fun e => handleIsIdentical e handler) ∨ none ∉ t then t
  else t.set (t.idxOf none) (some handler)

/-- The table behind a SUBACK. -/
def subackTable (c : SubClient) (body : Bytes) (junk : ℕ) : List (Option TopicHandle) :=
  match mqttDeserializeSuback body junk with
  | none => c.subHandle
  | some (msgId, code) =>
    if code = some 0x80 then c.subHandle
    else
      match ackedRequest c msgId with
      | none => c.subHandle
      | some info => if info.handler.hFp = none then c.subHandle else insertHandle c.subHandle info.handler

theorem notified_wp {t : List (Option TopicHandle)} {b : Bool} {e : Event} {rc : Rc} (hf : Follows c c' t)
    (he : ∀ hd topic, e ≠ .publish hd topic) :
    wp True (if b then do
      notify e
      pure rc
    else pure rc) (fun _ c' _ => Follows c c' t) c' h := by
  split
  · exact ⟨hf.table, hf.pending, hf.told.snoc fun hd topic heq => absurd heq (he hd topic)⟩
  · exact hf

theorem suback_wp {body : Bytes} {junk : ℕ} {iter : Bool} :
    wp True (iotxMcHandleRecvSuback body junk iter) (fun _ c' _ => Follows c c' (subackTable c body junk)) c h := by
  unfold iotxMcHandleRecvSuback subackTable
  cases hb : mqttDeserializeSuback body junk with
  | none => exact .refl
  | some p =>
    obtain ⟨msgId, code⟩ := p
    dsimp only
    by_cases hc : code = some 0x80
    · rw [if_pos hc, if_pos hc]
      simp only [wp_bind, wp_get, wp_ite, notify_wp, wp_pure]
      split_ifs
      · exact ⟨rfl, fun _ => .of_mem, .snoc .refl (fun _ _ => by rintro ⟨⟩)⟩
      · exact wp_fault
    rw [if_neg hc, if_neg hc, wp_bind]
    refine mask_wp fun ns h1 hns => ?_
    cases ackedRequest c msgId with
    | none => exact ⟨rfl, hns, .refl⟩
    | some info =>
      dsimp only [Option.map_some]
      by_cases hf : info.handler.hFp = none
      · rw [if_pos hf, if_pos hf]
        exact ⟨rfl, hns, .refl⟩
      rw [if_neg hf, if_neg hf, wp_bind, insertHandle]
      refine wp_lock_of fun _ => ?_
      rw [wp_bind, wp_get]
      cases c.subHandle.any fun e => e.any fun e => handleIsIdentical e info.handler <;>
        by_cases hn : none ∈ c.subHandle <;>
        simp only [hn, Bool.not_true, Bool.not_false, Bool.false_eq_true, if_true, if_false, not_true,
          not_false_eq_true, and_true, and_false, or_false, or_true, wp_bind, wp_modify]
      · exact wp_unlock_of fun _ => notified_wp ⟨rfl, hns, .refl⟩ (fun _ _ => by rintro ⟨⟩)
      · exact ⟨rfl, hns, .refl⟩
      · exact wp_unlock_of fun _ => notified_wp ⟨rfl, hns, .refl⟩ (fun _ _ => by rintro ⟨⟩)
      · exact wp_unlock_of fun _ => notified_wp ⟨rfl, hns, .refl⟩ (fun _ _ => by rintro ⟨⟩)

theorem unsuback_wp {body : Bytes} {junk : TopicHandle} {iter : Bool} :
    wp True (iotxMcHandleRecvUnsuback body junk iter)
      (fun _ c' _ => Follows c c' (c.subHandle.map
        (clearEntry (((ackedRequest c (mqttDeserializeUnsuback body)).map (·.handler)).getD junk)))) c h := by
  unfold iotxMcHandleRecvUnsuback
  rw [wp_bind]
  refine mask_wp fun ns h1 hns => ?_
  refine wp_lock_bind fun _ => ?_
  simp only [wp_bind, wp_modify, wp_get]
  split_ifs
  · simp only [wp_bind, notify_wp]
    exact wp_unlock_of fun _ => ⟨rfl, hns, .snoc .refl (fun _ _ => by rintro ⟨⟩)⟩
  · exact wp_unlock_bind fun _ => ⟨rfl, hns, .refl⟩

/-! ## What walks over the requests and the table -/

theorem clientState_wp {Q : Bool → SubClient → (Lock → Bool) → Prop} (hQ : ∀ h', Q c.connected c h') :
    wp True iotxMcGetClientState Q c h := by
  refine wp_lock_bind fun _ => ?_
  simp only [wp_bind, wp_get]
  exact wp_unlock_of fun _ => hQ _

theorem subInfoWalk_keeps {expired : SubInfo → Bool} {ns : List (Option SubInfo)}
    {Q : List (Option SubInfo) → SubClient → (Lock → Bool) → Prop} (ht : Told c₀ c.events)
    (hQ : ∀ ns' c' h', ns' ⊆ ns → c'.subHandle = c.subHandle → Told c₀ c'.events → Q ns' c' h') :
    wp True (subInfoWalk expired ns) Q c h := by
  induction ns generalizing c h Q with
  | nil => exact hQ _ _ _ (List.Subset.refl _) rfl ht
  | cons n ns ih =>
    have hskip : ∀ ns' c' h', ns' ⊆ ns → c'.subHandle = c.subHandle → Told c₀ c'.events → Q ns' c' h' :=
      fun ns' c' h' hs => hQ ns' c' h' (List.Subset.trans hs (List.subset_cons_self _ _))
    cases n with
    | none => exact ih ht hskip
    | some info =>
      unfold subInfoWalk
      split_ifs with hv
      · exact ih ht hskip
      rw [wp_bind]
      refine clientState_wp fun h1 => ?_
      split_ifs with hx
      · rw [wp_bind]
        exact ih ht fun ns' c' h' hs => hQ _ c' h' (List.cons_subset_cons _ hs)
      · refine wp_unlock_bind fun _ => ?_
        have hlock : ∀ {c' : SubClient} {h'}, c'.subHandle = c.subHandle → Told c₀ c'.events →
            wp True (lock .listSub) (fun _ => wp True (subInfoWalk expired ns) Q) c' h' := by
          intro c' h' hc' ht'
          exact wp_lock_of fun _ => ih ht' fun ns' c'' h'' hs he => hskip ns' c'' h'' hs (he.trans hc')
        cases info.type <;> simp only [wp_bind, wp_get, wp_ite, notify_wp] <;> split_ifs
        · exact hlock rfl (ht.snoc (fun _ _ => by rintro ⟨⟩))
        · exact hlock rfl ht
        · exact hlock rfl (ht.snoc (fun _ _ => by rintro ⟨⟩))
        · exact hlock rfl ht

theorem subInfoProc_wp {iter : Bool} {expired : SubInfo → Bool} :
    wp True (mqttSubInfoProc iter expired) (fun _ c' _ => Follows c c' c.subHandle) c h := by
  unfold mqttSubInfoProc
  refine wp_lock_bind fun _ => ?_
  rw [wp_bind, wp_get]
  split_ifs
  · exact wp_unlock_bind fun _ => .refl
  · simp only [wp_bind, wp_lock_taken]
  · rw [wp_bind]
    refine subInfoWalk_keeps .refl fun ns c' h' hs he ht => ?_
    simp only [wp_bind, wp_modify]
    refine wp_unlock_of fun _ => ⟨he, fun info hm => .of_mem ?_, ht⟩
    exact List.mem_reverse.1 (hs (List.mem_reverse.1 hm))

theorem deliverWalk_keeps {topic : Bytes} {es : List (Option TopicHandle)} {matched : Bool}
    {Q : Bool → SubClient → (Lock → Bool) → Prop} (hes : ∀ e, some e ∈ es → some e ∈ c₀.subHandle)
    (hc : Follows c₀ c c₀.subHandle)
    (hQ : ∀ b c' h', Follows c₀ c' c₀.subHandle → Q b c' h') :
    wp True (deliverWalk topic es matched) Q c h := by
  induction es generalizing c h matched with
  | nil => exact hQ _ _ _ hc
  | cons e es ih =>
    have hes' : ∀ e, some e ∈ es → some e ∈ c₀.subHandle := fun e he => hes e (List.mem_cons_of_mem _ he)
    cases e with
    | none => exact ih hes' hc
    | some e =>
      unfold deliverWalk
      split_ifs
      · refine wp_unlock_bind fun _ => ?_
        simp only [wp_bind, notify_wp]
        refine wp_lock_of fun _ => ih hes' ⟨hc.table, hc.pending, hc.told.snoc ?_⟩
        rintro _ _ ⟨⟩
        exact hes e List.mem_cons_self
      · refine wp_unlock_bind fun _ => ?_
        exact wp_lock_bind fun _ => ih hes' hc
      · exact ih hes' hc

theorem deliverMessage_wp {topic : Bytes} :
    wp True (iotxMcDeliverMessage topic) (fun _ c' _ => Follows c c' c.subHandle) c h := by
  refine wp_lock_bind fun _ => ?_
  rw [wp_bind, wp_get, wp_bind]
  refine deliverWalk_keeps (fun _ => id) .refl fun b c' h' hc => ?_
  refine wp_unlock_bind fun _ => ?_
  split_ifs
  · exact ⟨hc.table, hc.pending, hc.told.snoc nofun⟩
  · exact hc

/-- The table behind an operation. -/
def tableAfter (c : SubClient) : Op → List (Option TopicHandle)
  | .suback body junk _ => subackTable c body junk
  | .unsuback body junk _ =>
    c.subHandle.map (clearEntry (((ackedRequest c (mqttDeserializeUnsuback body)).map (·.handler)).getD junk))
  | _ => c.subHandle

theorem exec_follows {op : Op} {rc : Option Rc} (he : op.exec c h = .ok rc c' h') : Follows c c' (tableAfter c op) := by
  have hw : wp True op.exec (fun _ c' _ => Follows c c' (tableAfter c op)) c h := by
    cases op with
    | subscribe f msgId hFp pcontext env => exact wp_bind.2 (sendRequest_wp (by simp))
    | unsubscribe f msgId env => exact wp_bind.2 (sendRequest_wp (by simp))
    | suback body junk iter => exact wp_bind.2 suback_wp
    | unsuback body junk iter => exact wp_bind.2 unsuback_wp
    | publish topic => exact wp_bind.2 deliverMessage_wp
    | subInfoProc iter expired => exact wp_bind.2 subInfoProc_wp
    | setState connected =>
      refine wp_bind.2 ?_
      unfold iotxMcSetClientState
      refine wp_lock_bind fun _ => ?_
      rw [wp_bind, wp_modify]
      exact wp_unlock_of fun _ => ⟨rfl, fun _ => .of_mem, .refl⟩
  exact of_ok hw he

/-! ## Runs -/

theorem acked_mem {msgId : ℕ} {info : SubInfo} (ha : ackedRequest c msgId = some info) : some info ∈ c.listSub :=
  List.reduceOption_mem_iff.1 (List.mem_of_find?_eq_some ha)

theorem mem_insertHandle {t : List (Option TopicHandle)} {handler e : TopicHandle}
    (he : some e ∈ insertHandle t handler) : some e ∈ t ∨ e = handler ∧ none ∈ t := by
  unfold insertHandle at he
  split_ifs at he with hd
  · exact .inl he
  · rcases List.mem_or_eq_of_mem_set he with he | he
    · exact .inl he
    · exact .inr ⟨Option.some.inj he, not_not.1 (not_or.1 hd).2⟩

theorem insertHandle_filter {t : List (Option TopicHandle)} {handler : TopicHandle} (hn : none ∈ t) :
    ∃ e, some e ∈ insertHandle t handler ∧ e.topicFilter = handler.topicFilter := by
  unfold insertHandle
  split_ifs with hd
  · rcases hd with hd | hd
    · obtain ⟨e, he, hi⟩ := any_any_iff.1 hd
      exact ⟨e, he, by simp [handleIsIdentical] at hi; exact hi.1.1⟩
    · exact absurd hn hd
  · exact ⟨handler, List.mem_set (List.idxOf_lt_length_iff.2 hn) _, rfl⟩

/-- An entry behind an operation was there, or comes from the SUBACK of its filter. -/
theorem SubInv.entry {op : Op} (hi : SubInv c) {e : TopicHandle} (he : some e ∈ tableAfter c op) :
    some e ∈ c.subHandle ∨ e.hFp ≠ none ∧ SubackFor c e.topicFilter op ∧ none ∈ c.subHandle := by
  cases op with
  | suback body junk iter =>
    unfold tableAfter subackTable at he
    dsimp only at he
    cases hb : mqttDeserializeSuback body junk with
    | none =>
      rw [hb] at he
      exact .inl he
    | some p =>
      obtain ⟨msgId, code⟩ := p
      rw [hb] at he
      dsimp only at he
      cases ha : ackedRequest c msgId with
      | none =>
        rw [ha] at he
        split_ifs at he <;> exact .inl he
      | some info =>
        rw [ha] at he
        dsimp only at he
        split_ifs at he with hc hf
        · exact .inl he
        · exact .inl he
        rcases mem_insertHandle he with he | ⟨rfl, hn⟩
        · exact .inl he
        refine .inr ⟨hf, ⟨msgId, code, hb, hc, info, ha, ?_, rfl⟩, hn⟩
        cases hty : info.type with
        | subscribe => rfl
        | unsubscribe => exact absurd ((hi.pending info (acked_mem ha)).2 hty) hf
  | unsuback body junk iter =>
    obtain ⟨e₀, hm, hc⟩ := List.mem_map.1 he
    unfold clearEntry at hc
    split_ifs at hc
    rw [hc] at hm
    exact .inl hm
  | _ => exact .inl he

theorem SubInv.granted {op : Op} (hi : SubInv c) {f : Bytes} (hs : SubackFor c f op) (hn : none ∈ c.subHandle) :
    ∃ e, some e ∈ tableAfter c op ∧ e.topicFilter = f := by
  cases op with
  | suback body junk iter =>
    obtain ⟨msgId, code, hb, hc, info, ha, hty, rfl⟩ := hs
    have hf : info.handler.hFp ≠ none := fun hf => by
      rw [(hi.pending info (acked_mem ha)).1 hf] at hty
      cases hty
    unfold tableAfter subackTable
    dsimp only
    rw [hb]
    dsimp only
    rw [if_neg hc, ha]
    dsimp only
    rw [if_neg hf]
    exact insertHandle_filter hn
  | _ => exact hs.elim

theorem SubInv.step {op : Op} {rc : Option Rc} (hi : SubInv c) (he : op.exec c h = .ok rc c' h') : SubInv c' := by
  have hf := exec_follows he
  constructor
  · intro e hm
    rw [hf.table] at hm
    rcases hi.entry hm with hm | ⟨hfp, -⟩
    · exact hi.table e hm
    · exact hfp
  · intro info hm
    rcases hf.pending info hm with hk | ⟨info0, hm0, hty, hh⟩
    · exact hk
    · rw [← hty, ← hh]
      exact hi.pending info0 hm0

theorem SubInv.unsuback_table {op : Op} {f : Bytes} (hi : SubInv c) (hu : UnsubackFor c f op) :
    tableAfter c op = c.subHandle := by
  cases op with
  | unsuback body junk iter =>
    obtain ⟨info, ha, hty, -⟩ := hu
    have hfp : info.handler.hFp = none := (hi.pending info (acked_mem ha)).2 hty
    unfold tableAfter
    dsimp only
    rw [ha]
    refine List.map_congr_left ?_ |>.trans (List.map_id _)
    -- the callbacks differ: an entry has one, the request to unsubscribe has none
    rintro (_ | e) hm
    · rfl
    · have hne : handleIsIdentical e info.handler = false := by
        simp [handleIsIdentical, hfp, hi.table e hm]
      simp [clearEntry, hne]
  | _ => exact hu.elim

/-- Invariant of the runs in which unsubscribing takes effect. -/
structure SessionInv (s : Session) : Prop where
  sub : SubInv s.client
  gone : ∀ f, s.gone f → ¬ HasFilter s.client f

theorem SessionInit.inv {s : Session} (hi : SessionInit s) : SessionInv s := by
  obtain ⟨ht, hl, -, hg⟩ := hi
  refine ⟨⟨fun e hm => ?_, fun info hm => ?_⟩, fun f hf => absurd hf (hg f)⟩
  · rw [ht] at hm
    cases List.eq_of_mem_replicate hm
  · rw [hl] at hm
    cases hm

/-- The entries with other filters are what they were. -/
def OthersUnchanged (f : Bytes) (c c' : SubClient) : Prop :=
  ∀ (i : ℕ) (e : TopicHandle), e.topicFilter ≠ f →
    (c'.subHandle[i]? = some (some e) ↔ c.subHandle[i]? = some (some e))

/-- Filters that are gone have no entry, and an UNSUBACK changes no entry of another
    filter. -/
def TakesEffect (s : Session) (op : Op) (s' : Session) : Prop :=
  (∀ f, s'.gone f → ¬ HasFilter s'.client f) ∧
    ∀ f, UnsubackFor s.client f op → OthersUnchanged f s.client s'.client

/-- An UNSUBACK finds no entry with its filter, and no SUBACK that finds room comes for
    a filter that is gone. -/
def NothingLeft (s : Session) (op : Op) : Prop :=
  (∀ f, UnsubackFor s.client f op → ¬ HasFilter s.client f) ∧
    ∀ f, SubackFor s.client f op → none ∈ s.client.subHandle → ¬ s.gone f

theorem SessionInv.takesEffect_iff {s s' : Session} {op : Op} (hi : SessionInv s) (hs : SessionStep s op s') :
    TakesEffect s op s' ↔ NothingLeft s op := by
  obtain ⟨⟨rc, he⟩, hg⟩ := hs
  have ht := (exec_follows he).table
  constructor
  · rintro ⟨hgone, -⟩
    refine ⟨fun f hu hf => hgone f ((hg f).2 (.inl hu)) ?_,
      fun f hsub hn hgf => hgone f ((hg f).2 (.inr ⟨hgf, ?_⟩)) ?_⟩
    · rw [HasFilter, ht, hi.sub.unsuback_table hu]
      exact hf
    · cases op <;> first | exact hsub.elim | exact id
    · rw [HasFilter, ht]
      exact hi.sub.granted hsub hn
  · rintro ⟨hu, hsub⟩
    refine ⟨?_, fun f hf i e _ => by rw [ht, hi.sub.unsuback_table hf]⟩
    rintro f hf ⟨e, hm, rfl⟩
    rw [ht] at hm
    rcases (hg _).1 hf with hf | ⟨hgone, -⟩
    · rw [hi.sub.unsuback_table hf] at hm
      exact hu _ hf ⟨e, hm, rfl⟩
    · rcases hi.sub.entry hm with hm | ⟨-, hs, hn⟩
      · exact hi.gone _ hgone ⟨e, hm, rfl⟩
      · exact hsub _ hs hn hgone

theorem SessionInv.step {s s' : Session} {op : Op} (hi : SessionInv s)
    (hs : restrict NothingLeft SessionStep s op s') : SessionInv s' := by
  obtain ⟨hn, hs⟩ := hs
  refine ⟨?_, ((hi.takesEffect_iff hs).2 hn).1⟩
  obtain ⟨rc, he⟩ := hs.1
  exact hi.sub.step he

/-- **When unsubscribing takes effect.**  In a run whose UNSUBACKs find no entry with
    their filter, and whose SUBACKs come for no filter that is gone, a filter has no
    entry from its UNSUBACK until a subscription to it is asked again, and nothing is
    delivered through it.  Any other step from such a run breaks this. -/
theorem unsubscribe_takes_effect {s₀ s : Session} {ops : List Op} (hi : SessionInit s₀)
    (hr : Run (restrict NothingLeft SessionStep) s₀ ops s) :
    (∀ f, s.gone f → ¬ HasFilter s.client f) ∧
    ∀ op s', SessionStep s op s' →
      (TakesEffect s op s' ↔ NothingLeft s op) ∧
      ∀ e topic es, s'.client.events = s.client.events ++ es → Event.publish e topic ∈ es →
        ¬ s.gone e.topicFilter := by
  have hinv : SessionInv s := Run.keeps (fun h hs => SessionInv.step h hs) hr hi.inv
  refine ⟨hinv.gone, fun op s' hs => ⟨hinv.takesEffect_iff hs, fun e topic es hes hm hg => ?_⟩⟩
  obtain ⟨⟨rc, he⟩, -⟩ := hs
  obtain ⟨es', hes', hp⟩ := (exec_follows he).told
  obtain rfl := List.append_cancel_left (hes.symm.trans hes')
  exact hinv.gone _ hg ⟨e, hp e topic hm, rfl⟩

/-- No lock is held. -/
def free : Lock → Bool := fun _ => false

/-- The session that follows an operation that leaves no lock held. -/
def Session.next (s : Session) (op : Op) (c : SubClient) : Session :=
  ⟨c, free, fun f => UnsubackFor s.client f op ∨ s.gone f ∧ ¬ SubscribeFor f op⟩

theorem Session.step_next {s : Session} {op : Op} {rc : Option Rc} (he : op.exec s.client s.held = .ok rc c' h')
    (hh : ∀ l, h' l = false) : SessionStep s op (s.next op c') := by
  refine ⟨⟨rc, ?_⟩, fun _ => Iff.rfl⟩
  rw [he, show h' = free from funext hh]
  rfl

/-- A connected client with a table, waiting requests and past events. -/
def clientAt (t : List (Option TopicHandle)) (ns : List (Option SubInfo)) (es : List Event) : SubClient :=
  ⟨0, [], 64, t, true, [], ns, true, es⟩

def sessionStart : Session := ⟨clientAt (List.replicate subNumMax none) [] [], free, fun _ => False⟩

theorem sessionStart_init : SessionInit sessionStart := ⟨rfl, rfl, fun _ => rfl, fun _ => id⟩

/-- How the environment answers a request that goes out. -/
def sentEnv : RequestEnv := ⟨6, ⟨true, true⟩, true⟩

def unsubOp : Op := .unsubscribe [0x61] 2 sentEnv

def unsubackOp : Op := .unsuback [0, 2] ⟨[], none, 0⟩ true

/-- The request of `unsubOp`. -/
def unsubInfo (state : NodeState) : Option SubInfo := some ⟨.unsubscribe, 2, state, ⟨[0x61], none, 0⟩, []⟩

/-- A filter that was never subscribed. -/
theorem unsubscribe_takes_effect_unknown :
    ∃ s, Run (restrict NothingLeft SessionStep) sessionStart [unsubOp, unsubackOp] s ∧ s.gone [0x61] ∧
      ∀ f, s.gone f → ¬ HasFilter s.client f := by
  let s₁ := sessionStart.next unsubOp (clientAt (List.replicate subNumMax none) [unsubInfo .normal] [])
  let s₂ := s₁.next unsubackOp
    (clientAt (List.replicate subNumMax none) [unsubInfo .invalid] [.unsubscribeSuccess 2])
  have hn : NothingLeft s₁ unsubackOp := by
    refine ⟨?_, fun _ => False.elim⟩
    rintro f - ⟨e, he, -⟩
    cases List.eq_of_mem_replicate he
  have h1 : SessionStep sessionStart unsubOp s₁ := Session.step_next rfl fun l => by cases l <;> rfl
  have h2 : SessionStep s₁ unsubackOp s₂ := Session.step_next rfl fun l => by cases l <;> rfl
  have hr : Run (restrict NothingLeft SessionStep) sessionStart [unsubOp, unsubackOp] s₂ :=
    .cons ⟨⟨fun _ => False.elim, fun _ => False.elim⟩, h1⟩ (.single ⟨hn, h2⟩)
  have hg : Acks s₁.client .unsubscribe 2 [0x61] := ⟨_, rfl, rfl, rfl⟩
  exact ⟨s₂, hr, .inl hg, (unsubscribe_takes_effect sessionStart_init hr).1⟩

/-- After a subscription and its unsubscription, both acked, the entry is there and a
    publish goes through it. -/
theorem unsubscribe_without_effect :
    ∃ ops s s', Run SessionStep sessionStart ops s ∧ s.gone [0x61] ∧ HasFilter s.client [0x61] ∧
      SessionStep s (.publish [0x61]) s' ∧
      ∃ e, e.topicFilter = [0x61] ∧ Event.publish e [0x61] ∈ s'.client.events := by
  let e : TopicHandle := ⟨[0x61], some 1, 0⟩
  let t : List (Option TopicHandle) := some e :: List.replicate 9 none
  let sub : NodeState → Option SubInfo := fun state => some ⟨.subscribe, 1, state, e, []⟩
  let es : List Event := [.subscribeSuccess 1, .unsubscribeSuccess 2]
  let s₁ := sessionStart.next (.subscribe [0x61] 1 1 0 sentEnv)
    (clientAt (List.replicate subNumMax none) [sub .normal] [])
  let s₂ := s₁.next (.suback [0, 1, 0] 0 true) (clientAt t [sub .invalid] [.subscribeSuccess 1])
  let s₃ := s₂.next unsubOp (clientAt t [sub .invalid, unsubInfo .normal] [.subscribeSuccess 1])
  let s₄ := s₃.next unsubackOp (clientAt t [sub .invalid, unsubInfo .invalid] es)
  let s₅ := s₄.next (.publish [0x61]) (clientAt t [sub .invalid, unsubInfo .invalid] (es ++ [.publish e [0x61]]))
  have h1 : SessionStep sessionStart _ s₁ := Session.step_next rfl fun l => by cases l <;> rfl
  have h2 : SessionStep s₁ _ s₂ := Session.step_next rfl fun l => by cases l <;> rfl
  have h3 : SessionStep s₂ _ s₃ := Session.step_next rfl fun l => by cases l <;> rfl
  have h4 : SessionStep s₃ _ s₄ := Session.step_next rfl fun l => by cases l <;> rfl
  have h5 : SessionStep s₄ _ s₅ := Session.step_next rfl fun l => by cases l <;> rfl
  have hg : Acks s₃.client .unsubscribe 2 [0x61] := ⟨_, rfl, rfl, rfl⟩
  exact ⟨_, s₄, s₅, .cons h1 (.cons h2 (.cons h3 (.single h4))), .inl hg,
    ⟨e, List.mem_cons_self, rfl⟩, h5, e, rfl, List.mem_append_right _ List.mem_cons_self⟩

end Mqtt
