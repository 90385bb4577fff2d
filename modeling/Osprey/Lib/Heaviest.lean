/-
The heaviest elements of a list, in the order of the list, and what becomes
of them when the list is read one element further: a heavier element replaces
them, a lighter one is dropped, and one of their weight joins them.
-/
import Mathlib.Data.List.Basic

namespace Lib

variable {α : Type} (weight : α → Nat)

/-- The heaviest elements of a list, in order. -/
def heaviest (l : List α) : List α := l.filter fun a => l.all (weight · ≤ weight a)

variable {weight}

theorem mem_heaviest {l a} : a ∈ heaviest weight l ↔ a ∈ l ∧ ∀ x ∈ l, weight x ≤ weight a := by
  simp [heaviest]

theorem heaviest_ne_nil {l} (h : l ≠ []) : heaviest weight l ≠ [] := by
  have hmax : ∃ a ∈ l, ∀ x ∈ l, weight x ≤ weight a := by
    induction l with
    | nil => exact absurd rfl h
    | cons a l ih =>
      by_cases hl : l = []
      · exact ⟨a, List.mem_cons_self, by simp [hl]⟩
      · obtain ⟨b, hb, hle⟩ := ih hl
        rcases Nat.le_total (weight a) (weight b) with hab | hba
        · exact ⟨b, List.mem_cons_of_mem a hb, List.forall_mem_cons.mpr ⟨hab, hle⟩⟩
        · exact ⟨a, List.mem_cons_self,
            List.forall_mem_cons.mpr ⟨Nat.le_refl _, fun x hx => Nat.le_trans (hle x hx) hba⟩⟩
  obtain ⟨a, ha, hle⟩ := hmax
  exact List.ne_nil_of_mem (mem_heaviest.mpr ⟨ha, hle⟩)

variable (weight) in
/-- The heaviest elements when one more is read, from those before it. -/
def push (l : List α) (a : α) : List α :=
  match l with
  | [] => [a]
  | b :: _ => (if weight a ≤ weight b then l else []) ++ if weight b ≤ weight a then [a] else []

variable (weight) in
/-- What is not among the heaviest, or no longer, when one more is read. -/
def lost (l : List α) (a : α) : List α :=
  match l with
  | [] => []
  | b :: _ => (if weight a ≤ weight b then [] else l) ++ if weight b ≤ weight a then [] else [a]

theorem lost_append_push (l : List α) (a : α) : (lost weight l a ++ push weight l a).Perm (l ++ [a]) := by
  cases l with
  | nil => exact List.Perm.refl _
  | cons b l =>
    unfold lost push
    by_cases hab : weight a ≤ weight b <;> by_cases hba : weight b ≤ weight a
    · simp [hab, hba]
    · simpa [hab, hba] using (List.perm_append_singleton a (b :: l)).symm
    · simp [hab, hba]
    · omega

theorem heaviest_append (l : List α) (a : α) : heaviest weight (l ++ [a]) = push weight (heaviest weight l) a := by
  cases hl : heaviest weight l with
  | nil =>
    obtain rfl : l = [] := by
      by_contra hne
      exact heaviest_ne_nil hne hl
    simp [heaviest, push]
  | cons b rest =>
    obtain ⟨hb, hle⟩ := mem_heaviest.mp (hl ▸ List.mem_cons_self : b ∈ heaviest weight l)
    have hrest : l.filter (fun x => (l ++ [a]).all (weight · ≤ weight x)) =
        if weight a ≤ weight b then heaviest weight l else [] := by
      split
      · refine List.filter_congr fun x _ => ?_
        rw [List.all_append, Bool.and_eq_left_iff_imp]
        intro hall
        have hbx : weight b ≤ weight x := by simpa using List.all_eq_true.mp hall b hb
        simp only [List.all_cons, List.all_nil, Bool.and_true, decide_eq_true_eq]
        omega
      · rw [List.filter_eq_nil_iff]
        intro x hx hall
        have hax : weight a ≤ weight x := by simpa using List.all_eq_true.mp hall a (by simp)
        have hxb := hle x hx
        omega
    have hself : (l ++ [a]).all (weight · ≤ weight a) = decide (weight b ≤ weight a) := by
      rw [Bool.eq_iff_iff]
      simp only [List.all_eq_true, decide_eq_true_eq, List.forall_mem_append, List.forall_mem_singleton]
      exact ⟨fun h => h.1 b hb, fun h => ⟨fun x hx => Nat.le_trans (hle x hx) h, Nat.le_refl _⟩⟩
    rw [heaviest, List.filter_append, hrest, List.filter_singleton, hself, hl]
    simp [push]

end Lib
