/-
  Doubly linked lists: what the link functions `next` and `prev` of a memory
  have to do with the list of the nodes.
-/
import Mathlib.Data.List.Basic

namespace Lib

variable {α : Type*} {next prev next' prev' : α → α} {z p n b a : α} {l m : List α}

/-- The nodes `l` are linked in their order, with `p` before the first and `n`
    behind the last. -/
def Linked (next prev : α → α) (p : α) (l : List α) (n : α) : Prop :=
  match l with
  | [] => True
  | b :: l => prev b = p ∧ next b = l.headD n ∧ Linked next prev b l n

theorem Linked.append : Linked next prev p (l ++ m) n ↔
    Linked next prev p l (m.headD n) ∧ Linked next prev (l.getLastD p) m n := by
  induction l generalizing p with
  | nil => simp [Linked]
  | cons b l ih =>
    have hhead : (l ++ m).headD n = l.headD (m.headD n) := by cases l <;> rfl
    have hlast : (b :: l).getLastD p = l.getLastD b := List.getLastD_cons ..
    rw [List.cons_append, Linked, Linked, ih, hhead, hlast]
    tauto

theorem Linked.congr (h : Linked next prev p l n) (hn : ∀ a ∈ l, next' a = next a)
    (hp : ∀ a ∈ l, prev' a = prev a) : Linked next' prev' p l n := by
  induction l generalizing p with
  | nil => trivial
  | cons b l ih =>
    obtain ⟨hprev, hnext, hl⟩ := h
    refine ⟨(hp b (by simp)).trans hprev, (hn b (by simp)).trans hnext, ?_⟩
    exact ih hl (fun a ha => hn a (by simp [ha])) fun a ha => hp a (by simp [ha])

theorem getLastD_mem (b : α) (l : List α) : l.getLastD b ∈ b :: l := by
  induction l generalizing b with
  | nil => simp
  | cons a l ih =>
    rw [List.getLastD_cons]
    exact List.mem_cons_of_mem b (ih a)

theorem Linked.at_mid (h : Linked next prev z (l ++ b :: m) z) :
    prev b = l.getLastD z ∧ next b = m.headD z := by
  obtain ⟨-, hprev, hnext, -⟩ := Linked.append.1 h
  exact ⟨hprev, hnext⟩

variable [DecidableEq α]

theorem Linked.push (h : Linked next prev z l z) (hb : next' b = l.headD z) (hb' : prev' b = z)
    (hnd : l.Nodup) (hn : ∀ a ∈ l, next' a = next a)
    (hp : ∀ a ∈ l, prev' a = if a = l.headD z then b else prev a) :
    Linked next' prev' z (b :: l) z := by
  refine ⟨hb', hb, ?_⟩
  cases l with
  | nil => trivial
  | cons a l =>
    obtain ⟨-, hnext, hl⟩ := h
    obtain ⟨hal, -⟩ := List.nodup_cons.1 hnd
    refine ⟨(hp a (by simp)).trans (if_pos rfl), (hn a (by simp)).trans hnext, ?_⟩
    refine hl.congr (fun d hd => hn d (by simp [hd])) fun d hd => ?_
    exact (hp d (by simp [hd])).trans (if_neg fun (hda : d = a) => hal (hda ▸ hd))

theorem Linked.setNext (h : Linked next prev p l n) (hnd : l.Nodup) (hl : p ∉ l)
    (hn : ∀ a ∈ l, next' a = if a = l.getLastD p then b else next a)
    (hp : ∀ a ∈ l, prev' a = prev a) : Linked next' prev' p l b := by
  induction l generalizing p with
  | nil => trivial
  | cons a l ih =>
    obtain ⟨hprev, hnext, h⟩ := h
    obtain ⟨hal, hnd⟩ := List.nodup_cons.1 hnd
    have hlast : (a :: l).getLastD p = l.getLastD a := List.getLastD_cons ..
    rw [hlast] at hn
    refine ⟨(hp a (by simp)).trans hprev, ?_, ?_⟩
    · rw [hn a (by simp)]
      cases l with
      | nil => simp
      | cons d l =>
        have hne : a ≠ (d :: l).getLastD a := by
          intro heq
          rw [heq, List.getLastD_cons] at hal
          exact hal (getLastD_mem d l)
        rw [if_neg hne, hnext]
        rfl
    · exact ih h hnd hal (fun d hd => hn d (by simp [hd])) fun d hd => hp d (by simp [hd])

theorem Linked.setPrev (h : Linked next prev p l n) (hnd : l.Nodup)
    (hn : ∀ a ∈ l, next' a = next a)
    (hp : ∀ a ∈ l, prev' a = if a = l.headD z then b else prev a) :
    Linked next' prev' b l n := by
  cases l with
  | nil => trivial
  | cons a l =>
    obtain ⟨-, hnext, h⟩ := h
    obtain ⟨hal, -⟩ := List.nodup_cons.1 hnd
    refine ⟨(hp a (by simp)).trans (if_pos rfl), (hn a (by simp)).trans hnext, ?_⟩
    refine h.congr (fun d hd => hn d (by simp [hd])) fun d hd => ?_
    exact (hp d (by simp [hd])).trans (if_neg fun (hda : d = a) => hal (hda ▸ hd))

theorem Linked.unlink (h : Linked next prev z (l ++ b :: m) z) (hnd : (l ++ b :: m).Nodup)
    (hz : z ∉ l ++ b :: m) (hn : ∀ a ∈ l ++ m, next' a = if a = prev b then next b else next a)
    (hp : ∀ a ∈ l ++ m, prev' a = if a = next b then prev b else prev a) :
    Linked next' prev' z (l ++ m) z := by
  obtain ⟨hprev, hnext⟩ := h.at_mid
  obtain ⟨hl, -, -, hm⟩ := Linked.append.1 h
  obtain ⟨hndl, hndm, hdis⟩ := List.nodup_append.1 hnd
  obtain ⟨-, hndm⟩ := List.nodup_cons.1 hndm
  have hzl : z ∉ l := fun ha => hz (by simp [ha])
  have hzm : z ∉ m := fun ha => hz (by simp [ha])
  have hlm : ∀ a ∈ l, a ∉ m := fun a ha hm => hdis a ha a (by simp [hm]) rfl
  refine Linked.append.2 ⟨?_, ?_⟩
  · refine hl.setNext hndl hzl (fun a ha => ?_) fun a ha => ?_
    · rw [hn a (by simp [ha]), hprev, hnext]
    · rw [hp a (by simp [ha]), if_neg]
      intro heq
      cases m with
      | nil =>
        have haz : a = z := heq.trans hnext
        exact hzl (haz ▸ ha)
      | cons d m =>
        have had : a = d := heq.trans hnext
        exact hlm a ha (by simp [had])
  · refine hm.setPrev (z := z) hndm (fun a ha => ?_) fun a ha => ?_
    · rw [hn a (by simp [ha]), if_neg]
      intro heq
      rw [hprev] at heq
      cases l with
      | nil =>
        have haz : a = z := heq
        exact hzm (haz ▸ ha)
      | cons d l =>
        refine hlm a ?_ ha
        rw [heq, List.getLastD_cons]
        exact getLastD_mem d l
    · rw [hp a (by simp [ha]), hprev, hnext]

end Lib
