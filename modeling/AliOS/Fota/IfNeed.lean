/-
  Which of the versions offered a device takes (`framework/fota/ota_update_manifest.c`):
  `ota_if_need`.

  Each part of the offered version is compared over its own length, so a part that begins that of
  the device counts as equal to it.
-/
import AliOS.Fota.Ota
import Mathlib.Data.List.Lex

namespace Fota

open Relation

def MAX_VERSION_LEN : ℕ := 64

/-- `primary_version` and `secondary_version`. -/
structure Version where
  primaryVersion : Str
  secondaryVersion : Str
  primary_ok : 0 ∉ primaryVersion
  secondary_ok : 0 ∉ secondaryVersion

/-- `OTA_ENUM_UPDATE_TYPE` -/
inductive UpdateType
  | kernel
  | app
  | all
  deriving DecidableEq

/-- `strncmp`: the difference of the first characters that are not the same. -/
def strncmp : Str → Str → ℕ → ℤ
  | _, _, 0 => 0
  | [], [], _ + 1 => 0
  | [], b :: _, _ + 1 => -(b.toNat : ℤ)
  | a :: _, [], _ + 1 => a.toNat
  | a :: s, b :: t, n + 1 => if a = b then strncmp s t n else (a.toNat : ℤ) - b.toNat

/-- What `ota_if_need` returns, and gives to `ota_set_update_type` and `ota_set_ota_version`. -/
structure IfNeed where
  isNeedOta : Bool
  updateType : Option UpdateType
  otaVersion : Str

/-- `snprintf` to `ota_version`. -/
def versionText (s : Str) : Str := s.take (MAX_VERSION_LEN - 1)

/-- `ota_if_need`; `appVersion` is that of `aos_get_app_version`. -/
def otaIfNeed (appVersion : Str) (response request : Version) : IfNeed :=
  let isPrimaryOta := strncmp response.primaryVersion request.primaryVersion response.primaryVersion.length
  let isSecondaryOta := strncmp response.secondaryVersion request.secondaryVersion response.secondaryVersion.length
  let need : IfNeed := ⟨false, none, []⟩
  let need :=
    if 0 < isPrimaryOta then
      if request.secondaryVersion.length ≠ 0 then
        let need := { need with otaVersion := versionText (response.primaryVersion ++ 0x5f :: appVersion) }
        if isSecondaryOta = 0 then { need with updateType := some .kernel, isNeedOta := true } else need
      else { need with otaVersion := versionText response.primaryVersion, isNeedOta := true }
    else need
  if isPrimaryOta = 0 ∧ 0 < isSecondaryOta then
    { isNeedOta := true
      updateType := some .app
      otaVersion := versionText (response.primaryVersion ++ 0x5f :: response.secondaryVersion) }
  else need

namespace Version

/-- A device with the version `v` takes the offer `w`. -/
def Takes (v w : Version) : Prop := ∃ appVersion, (otaIfNeed appVersion w v).isNeedOta = true

/-- The primary version of the offer `w` is no proper prefix of the device's. -/
def Meets (v w : Version) : Prop := ¬ (w.primaryVersion <+: v.primaryVersion ∧ w.primaryVersion ≠ v.primaryVersion)

/-- The primary version of `w` continues that of `v`, the secondary version of `v` that of `w`. -/
def Crosses (v w : Version) : Prop :=
  (v.primaryVersion <+: w.primaryVersion ∧ v.primaryVersion ≠ w.primaryVersion) ∧
    w.secondaryVersion <+: v.secondaryVersion ∧ w.secondaryVersion ≠ v.secondaryVersion

/-- An offer that is taken where the condition is met. -/
def Plain (v w : Version) : Prop := Takes v w ∧ Meets v w

end Version

variable {s t : Str}

/-! ## Prefixes and the order of strings -/

theorem lt_of_begins (h : s <+: t) (hne : s ≠ t) : s < t := by
  obtain ⟨r, rfl⟩ := h
  induction s with
  | nil =>
    cases r with
    | nil => exact absurd rfl hne
    | cons c r => exact List.nil_lt_cons c r
  | cons a s ih => exact List.cons_lt_cons_iff.2 (.inr ⟨rfl, ih fun heq => hne (by rw [List.cons_append, ← heq])⟩)

theorem not_lt_of_begins (h : s <+: t) : ¬ t < s := h.le

theorem strncmp_eq_zero (h : 0 ∉ s) : strncmp s t s.length = 0 ↔ s <+: t := by
  induction s generalizing t with
  | nil => simp [strncmp]
  | cons a s ih =>
    obtain ⟨ha, hs⟩ := not_or.1 (List.mem_cons.not.1 h)
    cases t with
    | nil =>
      refine iff_of_false (fun h0 => ha ?_) (by simp)
      exact (UInt8.toNat_inj.1 (Int.ofNat_eq_zero.1 h0)).symm
    | cons b t =>
      rw [List.length_cons, strncmp, List.cons_prefix_cons]
      split_ifs with hab
      · rw [ih hs, and_iff_right hab]
      · have hne : a.toNat ≠ b.toNat := fun heq => hab (UInt8.toNat_inj.1 heq)
        exact iff_of_false (by omega) fun h => hab h.1

theorem strncmp_pos (h : 0 ∉ s) : 0 < strncmp s t s.length ↔ t < s := by
  induction s generalizing t with
  | nil => simp [strncmp]
  | cons a s ih =>
    obtain ⟨ha, hs⟩ := not_or.1 (List.mem_cons.not.1 h)
    cases t with
    | nil =>
      have hpos : a.toNat ≠ 0 := fun h0 => ha (UInt8.toNat_inj.1 h0).symm
      exact iff_of_true (by rw [List.length_cons, strncmp]; omega) (List.nil_lt_cons _ _)
    | cons b t =>
      rw [List.length_cons, strncmp, List.cons_lt_cons_iff]
      split_ifs with hab
      · subst hab
        rw [ih hs, and_iff_right rfl, or_iff_right (UInt8.lt_irrefl _)]
      · rw [or_iff_left fun h => hab h.1.symm, UInt8.lt_iff_toNat_lt]
        omega

namespace Version

variable {u v w : Version} {vs : List Version}

/-! ## Offers that are taken -/

/-- A primary version that is greater is taken with a secondary one that begins the device's, or
    where that is empty; and one that begins the device's with a greater secondary one. -/
theorem takes_iff : Takes v w ↔
    (v.primaryVersion < w.primaryVersion ∧ (v.secondaryVersion = [] ∨ w.secondaryVersion <+: v.secondaryVersion)) ∨
      w.primaryVersion <+: v.primaryVersion ∧ v.secondaryVersion < w.secondaryVersion := by
  have hneed : ∀ appVersion, (otaIfNeed appVersion w v).isNeedOta = true ↔
      (v.primaryVersion < w.primaryVersion ∧ (v.secondaryVersion = [] ∨ w.secondaryVersion <+: v.secondaryVersion)) ∨
        w.primaryVersion <+: v.primaryVersion ∧ v.secondaryVersion < w.secondaryVersion := by
    intro appVersion
    unfold otaIfNeed
    dsimp only
    rw [← strncmp_pos w.primary_ok, ← strncmp_pos w.secondary_ok, ← strncmp_eq_zero w.primary_ok,
      ← strncmp_eq_zero w.secondary_ok, ← List.length_eq_zero_iff (l := v.secondaryVersion)]
    split_ifs <;> simp_all
  exact ⟨fun ⟨appVersion, h⟩ => (hneed appVersion).1 h, fun h => ⟨[], (hneed []).2 h⟩⟩

theorem takes_both_iff : Takes v w ∧ Takes w v ↔ Crosses v w ∨ Crosses w v := by
  rw [takes_iff, takes_iff]
  constructor
  · rintro ⟨⟨hp, hs⟩ | ⟨hp, hs⟩, ⟨hp', hs'⟩ | ⟨hp', hs'⟩⟩
    · exact absurd hp' (List.lt_asymm hp)
    · refine .inl ⟨⟨hp', fun heq => List.lt_irrefl _ (heq ▸ hp)⟩, ?_, fun heq => List.lt_irrefl _ (heq ▸ hs')⟩
      exact hs.resolve_left fun h0 => List.not_lt_nil _ (h0 ▸ hs')
    · refine .inr ⟨⟨hp, fun heq => List.lt_irrefl _ (heq ▸ hp')⟩, ?_, fun heq => List.lt_irrefl _ (heq ▸ hs)⟩
      exact hs'.resolve_left fun h0 => List.not_lt_nil _ (h0 ▸ hs)
    · exact absurd hs' (List.lt_asymm hs)
  · rintro (⟨⟨hp, hpne⟩, hs, hsne⟩ | ⟨⟨hp, hpne⟩, hs, hsne⟩)
    · exact ⟨.inl ⟨lt_of_begins hp hpne, .inr hs⟩, .inr ⟨hp, lt_of_begins hs hsne⟩⟩
    · exact ⟨.inr ⟨hp, lt_of_begins hs hsne⟩, .inl ⟨lt_of_begins hp hpne, .inr hs⟩⟩

/-! ## Runs of offers -/

/-- The order by the primary and then by the secondary version. -/
def Older (v w : Version) : Prop :=
  v.primaryVersion < w.primaryVersion ∨
    v.primaryVersion = w.primaryVersion ∧ v.secondaryVersion < w.secondaryVersion

theorem not_older_self : ¬ Older v v := by
  rintro (h | ⟨-, h⟩)
  · exact List.lt_irrefl _ h
  · exact List.lt_irrefl _ h

theorem Older.trans (h : Older u v) (h' : Older v w) : Older u w := by
  rcases h with h | ⟨heq, h⟩ <;> rcases h' with h' | ⟨heq', h'⟩
  · exact .inl (List.lt_trans h h')
  · exact .inl (heq' ▸ h)
  · exact .inl (heq ▸ h')
  · exact .inr ⟨heq.trans heq', List.lt_trans h h'⟩

instance : Trans Older Older Older := ⟨Older.trans⟩

theorem Plain.older (h : Plain v w) : Older v w := by
  rcases takes_iff.1 h.1 with ⟨hp, -⟩ | ⟨hp, hs⟩
  · exact .inl hp
  · exact .inr ⟨(not_not.1 fun hne => h.2 ⟨hp, hne⟩).symm, hs⟩

theorem older_of_reach (h : ReflTransGen Plain v w) : v = w ∨ Older v w := by
  induction h with
  | refl => exact .inl rfl
  | tail _ hstep ih =>
    rcases ih with rfl | ih
    · exact .inr hstep.older
    · exact .inr (ih.trans hstep.older)

theorem not_back (h : Older v w) : ¬ ReflTransGen Plain w v := by
  intro hback
  rcases older_of_reach hback with rfl | hback
  · exact not_older_self h
  · exact not_older_self (h.trans hback)

theorem back_of_not_meets (h : Takes v w) (hm : ¬ Meets v w) : ReflTransGen Plain w v := by
  obtain ⟨hp, hne⟩ := not_not.1 hm
  have hlt : w.primaryVersion < v.primaryVersion := lt_of_begins hp hne
  let x : Version := ⟨v.primaryVersion, [], v.primary_ok, List.not_mem_nil⟩
  have hx : Plain w x :=
    ⟨takes_iff.2 (.inl ⟨hlt, .inr List.nil_prefix⟩), fun hpre => not_lt_of_begins hpre.1 hlt⟩
  refine (ReflTransGen.single hx).trans ?_
  by_cases hs : v.secondaryVersion = []
  · have hxv : x = v := by
      cases v
      subst hs
      rfl
    exact hxv ▸ .refl
  · obtain ⟨c, r, hcr⟩ := List.exists_cons_of_ne_nil hs
    exact .single ⟨takes_iff.2 (.inr ⟨List.prefix_rfl, by rw [hcr]; exact List.nil_lt_cons c r⟩), fun hpre => hpre.2 rfl⟩

/-- A run of offers can be undone nowhere where each of its steps meets the condition. -/
theorem pairwise_not_back_iff (h : vs.IsChain Takes) :
    vs.Pairwise (fun v w => ¬ ReflTransGen Plain w v) ↔ vs.IsChain Meets := by
  constructor
  · intro hback
    induction vs with
    | nil => exact .nil
    | cons v vs ih =>
      cases vs with
      | nil => exact .singleton _
      | cons w ws =>
        obtain ⟨hvw, hws⟩ := List.isChain_cons_cons.1 h
        obtain ⟨hv, hw⟩ := List.pairwise_cons.1 hback
        refine List.isChain_cons_cons.2 ⟨?_, ih hws hw⟩
        by_contra hm
        exact hv w List.mem_cons_self (back_of_not_meets hvw hm)
  · intro hm
    have hplain : vs.IsChain Plain := by
      induction vs with
      | nil => exact .nil
      | cons v vs ih =>
        cases vs with
        | nil => exact .singleton _
        | cons w ws =>
          obtain ⟨hvw, hws⟩ := List.isChain_cons_cons.1 h
          obtain ⟨hmvw, hmws⟩ := List.isChain_cons_cons.1 hm
          exact List.isChain_cons_cons.2 ⟨⟨hvw, hmvw⟩, ih hws hmws⟩
    exact (List.isChain_iff_pairwise.1 (hplain.imp fun _ _ => Plain.older)).imp not_back

/-- **Upgrade decisions never cycle**: two versions are taken on one another exactly where they
    cross; where the condition is met no three versions go round; and from no state of a run can
    offers that meet it lead back, exactly where every step of the run meets it. -/
theorem never_cycles_iff (u v w : Version) (vs : List Version) :
    (¬ (Takes v w ∧ Takes w v) ↔ ¬ (Crosses v w ∨ Crosses w v)) ∧
      (Plain u v → Plain v w → ¬ Plain w u) ∧
        (vs.IsChain Takes → (vs.Pairwise (fun v w => ¬ ReflTransGen Plain w v) ↔ vs.IsChain Meets)) :=
  ⟨not_congr takes_both_iff,
    fun huv hvw hwu => not_older_self ((huv.older.trans hvw.older).trans hwu.older),
    fun h => pairwise_not_back_iff h⟩

/-- The versions `1.1` with `1.2`, and `1.10` with `1`. -/
def short : Version := ⟨[0x31, 0x2e, 0x31], [0x31, 0x2e, 0x32], by decide, by decide⟩
def long : Version := ⟨[0x31, 0x2e, 0x31, 0x30], [0x31], by decide, by decide⟩

/-- A device goes from one to the other and back. -/
theorem offers_alternate : ¬ ∀ v w, Takes v w → ¬ Takes w v :=
  fun h => h short long ⟨[], by decide⟩ ⟨[], by decide⟩

end Version

end Fota
