/-
  Runs of the client up to the body: what is read, and what the headers say.

  The reads are followed by their offsets in the response: `Seen` says where the read that came
  last ends, and that the reads before it ended early.
-/
import AliOS.Httpc.Response

namespace Httpc

open StateTransition Relation

variable {R b b' pos k n : ℕ} {closed : Bool} {all rs : List Bytes} {s t u : State} {d stream bs : Bytes}

/-! ## Reads -/

/-- Of the reads `all`, `rs` are to come; the others end behind `d`, which starts at offset `pos`,
    and but for the last they end at `b` or before it. -/
def Seen (all : List Bytes) (b pos : ℕ) (d : Bytes) (rs : List Bytes) : Prop :=
  ∃ done, all = done ++ rs ∧ done.flatten.length = pos + d.length ∧
    ∀ p, p <+: done → p ≠ done → p.flatten.length ≤ b

theorem flatten_length_le {p q : List Bytes} (h : p <+: q) : p.flatten.length ≤ q.flatten.length := by
  obtain ⟨e, rfl⟩ := h
  simp

theorem Seen.cut (h : Seen all b pos d rs) : Cut all (pos + d.length) := by
  obtain ⟨done, rfl, hlen, -⟩ := h
  exact ⟨done, List.prefix_append _ _, hlen⟩

theorem Seen.first (h : Seen all b pos d rs) (hk : Cut all k) (hb : b < k) : pos + d.length ≤ k := by
  obtain ⟨done, rfl, hlen, hbefore⟩ := h
  obtain ⟨p, hp, rfl⟩ := hk
  rw [← hlen]
  rcases List.prefix_or_prefix_of_prefix hp (List.prefix_append done rs) with hp | hp
  · by_cases he : p = done
    · rw [he]
    · exact absurd (hbefore p hp he) (Nat.not_le_of_lt hb)
  · exact flatten_length_le hp

theorem Seen.read {r : Bytes} (h : Seen all b pos d (r :: rs)) (hb : pos + d.length ≤ b) :
    Seen all b pos (d ++ r) rs := by
  obtain ⟨done, rfl, hlen, -⟩ := h
  refine ⟨done ++ [r], by simp, by simp [hlen, Nat.add_assoc], fun p hp hne => ?_⟩
  rcases List.prefix_concat_iff.1 hp with he | hp
  · exact absurd he hne
  · exact Nat.le_trans (flatten_length_le hp) (hlen ▸ hb)

theorem Seen.drop (h : Seen all b pos d rs) (hn : n ≤ d.length) : Seen all b (pos + n) (d.drop n) rs := by
  obtain ⟨done, hall, hlen, hbefore⟩ := h
  exact ⟨done, hall, by rw [hlen, List.length_drop]; omega, hbefore⟩

theorem Seen.mono (h : Seen all b pos d rs) (hb : b ≤ b') : Seen all b' pos d rs := by
  obtain ⟨done, hall, hlen, hbefore⟩ := h
  exact ⟨done, hall, hlen, fun p hp hne => Nat.le_trans (hbefore p hp hne) hb⟩

theorem Seen.mem {r : Bytes} (h : Seen all b pos d rs) (hr : r ∈ rs) : r ∈ all := by
  obtain ⟨done, rfl, -⟩ := h
  exact List.mem_append_right _ hr

/-! ## Runs -/

/-- No run from here reads more than was asked for. -/
def Fine (R : ℕ) (closed : Bool) (s : State) : Prop := ∀ t, Reaches (step R closed) s t → t.phase ≠ .unasked

theorem Fine.reach (h : Fine R closed s) (hr : Reaches (step R closed) s u) : Fine R closed u :=
  fun t ht => h t (hr.trans ht)

theorem reach_one (h : step R closed s = some u) : Reaches (step R closed) s u := ReflTransGen.single h

/-- The run gets to where `is_more` is set for ever. -/
def Fails (R : ℕ) (closed : Bool) (s : State) : Prop :=
  ∃ u, Reaches (step R closed) s u ∧ ∀ t, Reaches (step R closed) u t → t.isMore = true

/-- The calls from here deliver `body`. -/
def Ends (R : ℕ) (closed : Bool) (s : State) (body : Bytes) : Prop :=
  ∃ t, Reaches (step R closed) s t ∧ (∃ ret, t.phase = .returned ret) ∧ t.isMore = false ∧
    t.delivered ++ t.responseBuf = body

theorem Ends.of_reach {body : Bytes} (hr : Reaches (step R closed) s u) (h : Ends R closed u body) :
    Ends R closed s body := by
  obtain ⟨t, ht, h⟩ := h
  exact ⟨t, hr.trans ht, h⟩

theorem step_returned {ret : Ret} (h : s.phase = .returned ret) : step R closed s = s.again ret := by
  rw [step.eq_def, h]

theorem reach_end (h : step R closed s = none) (hr : Reaches (step R closed) s t) : t = s := by
  rcases ReflTransGen.cases_head hr with h' | ⟨v, hv, -⟩
  · exact h'.symm
  · exact nomatch h ▸ hv

theorem Fails.error {ret : Ret} (hr : Reaches (step R closed) s u) (h : u.phase = .returned ret) (hret : ret.ok = false)
    (hm : u.isMore = true) : Fails R closed s := by
  refine ⟨u, hr, fun t ht => ?_⟩
  have hend : step R closed u = none := by
    rw [step_returned h, State.again, hret, Bool.and_false]
    rfl
  rw [reach_end hend ht, hm]

theorem recv_cons {r : Bytes} {max : ℕ} {f : State → Bytes → State} (hrs : s.reads = r :: rs) (hmax : max ≠ 0) :
    s.recv closed max f = if r.length ≤ max then f { s with reads := rs } r else { s with phase := .unasked } := by
  rw [State.recv, hrs]
  dsimp only
  rw [if_neg hmax]

theorem recv_nil {max : ℕ} {f : State → Bytes → State} (hrs : s.reads = []) :
    s.recv closed max f = if closed then { s with phase := .returned .errorConn } else f s [] := by
  rw [State.recv, hrs]

theorem recv_keeps {P : State → Prop} {max : ℕ} {f : State → Bytes → State} (hmax : max ≠ 0)
    (hconn : P { s with phase := .returned .errorConn }) (hnil : s.reads = [] → P (f s []))
    (hread : ∀ {r rs}, s.reads = r :: rs → r.length ≤ max → P (f { s with reads := rs } r))
    (hunasked : P { s with phase := .unasked }) : P (s.recv closed max f) := by
  cases hrs : s.reads with
  | nil =>
    rw [recv_nil hrs]
    split_ifs
    · exact hconn
    · exact hnil hrs
  | cons r rs =>
    rw [recv_cons hrs hmax]
    split_ifs with hr
    · exact hread hrs hr
    · exact hunasked

theorem fill {need : ℕ} (s : State) (hneed : need < HTTPCLIENT_CHUNK_SIZE) (hb : pos + need ≤ b + 1)
    (hlen : need ≤ stream.length)
    (hloop : ∀ d rs, d ++ rs.flatten = stream → d.length < need →
      step R closed { s with data := d, reads := rs } = some ({ s with data := d, reads := rs }.readMore closed id)) :
    ∀ rs d, d ++ rs.flatten = stream → Fine R closed { s with data := d, reads := rs } → Seen all b pos d rs →
      ∃ d' rs', Reaches (step R closed) { s with data := d, reads := rs } { s with data := d', reads := rs' } ∧
        need ≤ d'.length ∧ d' ++ rs'.flatten = stream ∧ Seen all b pos d' rs' := by
  intro rs
  induction rs with
  | nil =>
    intro d hd hfine hseen
    refine ⟨d, [], .refl, ?_, hd, hseen⟩
    rw [List.flatten_nil, List.append_nil] at hd
    exact hd ▸ hlen
  | cons r rs ih =>
    intro d hd hfine hseen
    by_cases hn : need ≤ d.length
    · exact ⟨d, r :: rs, .refl, hn, hd, hseen⟩
    have hstep := hloop d (r :: rs) hd (Nat.lt_of_not_le hn)
    rw [State.readMore, recv_cons rfl (by dsimp only; omega)] at hstep
    by_cases hr : r.length ≤ HTTPCLIENT_CHUNK_SIZE - d.length - 1
    · rw [if_pos hr] at hstep
      have hreach := reach_one hstep
      obtain ⟨d', rs', hreach', h⟩ := ih (d ++ r) (by rw [← hd, List.flatten_cons, List.append_assoc])
        (hfine.reach hreach) (hseen.read (by omega))
      exact ⟨d', rs', hreach.trans hreach', h⟩
    · rw [if_neg hr] at hstep
      exact absurd rfl (hfine _ (reach_one hstep))

/-! ## The headers -/

/-- The framing after some headers. -/
def State.headers (s : State) (hs : List Header) : State := hs.foldl (fun s h => s.header h.name (h.value.take 31)) s

theorem u32_of_lt (h : n < 2 ^ 31) : u32 n = n := by
  rw [u32]
  omega

theorem i32_of_lt (h : n < 2 ^ 31) : i32 n = n := by
  rw [i32, Int.bmod_eq_of_le] <;> omega

theorem prefix_single {buf : Bytes} {p : List Bytes} (h : p <+: [buf]) : p = [] ∨ p = [buf] := by
  rw [← List.nil_append [buf]] at h
  rcases List.prefix_concat_iff.1 h with rfl | h
  · exact .inr rfl
  · exact .inl (List.prefix_nil.1 h)

theorem Seen.head {buf : Bytes} : Seen (buf :: rs) b 0 buf rs := by
  refine ⟨[buf], rfl, by simp, fun p hp hne => ?_⟩
  rcases prefix_single hp with rfl | he
  · exact Nat.zero_le _
  · exact absurd he hne

end Httpc
