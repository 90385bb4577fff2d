/-
Liveness on infinite runs: what leads to what, with the two rules by which
it is shown. A rank that no step raises and that a helpful step lowers,
where the helpful labels recur, leads to the end; and a list that only
shrinks, and from which every member goes at some time, becomes empty.
-/
import Mathlib.Data.List.Basic
import Mathlib.Order.WellFounded

namespace Lib

variable {σ α ι W β : Type*}

/-- The states of an infinite run of a machine. -/
def states (next : σ → α → σ) (s : σ) (labels : Nat → α) : Nat → σ
  | 0 => s
  | n + 1 => next (states next s labels n) (labels n)

/-- From `P`, `Q` comes. -/
def LeadsTo (exec : Nat → σ) (P Q : σ → Prop) : Prop := ∀ n, P (exec n) → ∃ m, n ≤ m ∧ Q (exec m)

variable {P Q : σ → Prop} {exec : Nat → σ}

theorem LeadsTo.trans {R} (h : LeadsTo exec P Q) (h' : LeadsTo exec Q R) : LeadsTo exec P R := by
  intro n hP
  obtain ⟨m, hm, hQ⟩ := h n hP
  obtain ⟨k, hk, hR⟩ := h' m hQ
  exact ⟨k, Nat.le_trans hm hk, hR⟩

theorem LeadsTo.or_left {E : σ → Prop} (h : LeadsTo exec P fun s => E s ∨ Q s) :
    LeadsTo exec (fun s => E s ∨ P s) fun s => E s ∨ Q s := by
  rintro n (hE | hP)
  · exact ⟨n, Nat.le_refl n, .inl hE⟩
  · exact h n hP

/-- Every step keeps `P`. -/
def Stable (exec : Nat → σ) (P : σ → Prop) : Prop := ∀ n, P (exec n) → P (exec (n + 1))

theorem Stable.le (h : Stable exec P) {n m} (hle : n ≤ m) (hP : P (exec n)) : P (exec m) := by
  induction hle with
  | refl => exact hP
  | step _ ih => exact h _ ih

/-- **The rule of ranks.** In a state with `P` some class of labels is helpful. Every step ends in `Q`, or lowers the
rank, or it is not a helpful one and leaves the rank and what is helpful as they are. The labels of every class
recur. -/
theorem leadsTo_of_rank [LT W] [WellFoundedLT W] {labels : Nat → α} {classes : ι → α → Prop}
    (hfair : ∀ i n, ∃ m, n ≤ m ∧ classes i (labels m)) (rank : σ → W) (helpful : σ → ι)
    (hstep : ∀ n, P (exec n) → Q (exec (n + 1)) ∨ P (exec (n + 1)) ∧
      (rank (exec (n + 1)) < rank (exec n) ∨
        rank (exec (n + 1)) = rank (exec n) ∧ helpful (exec (n + 1)) = helpful (exec n) ∧
          ¬ classes (helpful (exec n)) (labels n))) :
    LeadsTo exec P Q := by
  intro n hP
  generalize hr : rank (exec n) = r
  induction r using WellFoundedLT.induction generalizing n with
  | ind r ih =>
    -- Up to the next helpful label, the rank goes down or all that matters stays.
    have hwait : ∀ k, (∃ m, n ≤ m ∧ Q (exec m)) ∨ (∃ m, n ≤ m ∧ P (exec m) ∧ rank (exec m) < r) ∨
        P (exec (n + k)) ∧ rank (exec (n + k)) = r ∧ helpful (exec (n + k)) = helpful (exec n) ∧
          ∀ j < k, ¬ classes (helpful (exec n)) (labels (n + j)) := by
      intro k
      induction k with
      | zero => exact .inr (.inr ⟨hP, hr, rfl, fun _ hj => absurd hj (Nat.not_lt_zero _)⟩)
      | succ k ihk =>
        rcases ihk with hQ | hlower | ⟨hPk, hrk, hhk, hnot⟩
        · exact .inl hQ
        · exact .inr (.inl hlower)
        · rcases hstep (n + k) hPk with hQ | ⟨hP', hlt | ⟨heq, hh, hlabel⟩⟩
          · exact .inl ⟨n + k + 1, by omega, hQ⟩
          · exact .inr (.inl ⟨n + k + 1, by omega, hP', hrk ▸ hlt⟩)
          · refine .inr (.inr ⟨hP', heq.trans hrk, hh.trans hhk, fun j hj => ?_⟩)
            rcases Nat.lt_succ_iff_lt_or_eq.1 hj with hj | rfl
            · exact hnot j hj
            · rwa [hhk] at hlabel
    obtain ⟨m, hm, hlabel⟩ := hfair (helpful (exec n)) n
    obtain ⟨k, rfl⟩ := Nat.exists_eq_add_of_le hm
    rcases hwait (k + 1) with hQ | ⟨m, hm, hPm, hlt⟩ | ⟨-, -, -, hnot⟩
    · exact hQ
    · obtain ⟨m', hm', hQ⟩ := ih _ hlt m hPm rfl
      exact ⟨m', Nat.le_trans hm hm', hQ⟩
    · exact absurd hlabel (hnot k (Nat.lt_succ_self k))

/-- **The rule of departures.** From `P`, a list that takes nothing in and that every member leaves becomes empty. -/
theorem leadsTo_empty (hP : Stable exec P) (list : σ → List β)
    (hshrinks : ∀ n, P (exec n) → ∀ x ∈ list (exec (n + 1)), x ∈ list (exec n))
    (hleaves : ∀ n, ∀ x ∈ list (exec n), ∃ m, n ≤ m ∧ x ∉ list (exec m)) :
    LeadsTo exec P fun s => P s ∧ list s = [] := by
  have hshrinks' : ∀ n m, n ≤ m → P (exec n) → ∀ x ∈ list (exec m), x ∈ list (exec n) := by
    intro n m hle hPn
    induction hle with
    | refl => exact fun x hx => hx
    | @step m hle ih => exact fun x hx => ih x (hshrinks m (hP.le hle hPn) x hx)
  have hbound : ∀ (bound : List β) n, P (exec n) → (∀ x ∈ list (exec n), x ∈ bound) →
      ∃ m, n ≤ m ∧ P (exec m) ∧ list (exec m) = [] := by
    intro bound
    induction bound with
    | nil => exact fun n hPn hsub => ⟨n, Nat.le_refl n, hPn, List.eq_nil_iff_forall_not_mem.2 fun x hx => (by
        cases hsub x hx)⟩
    | cons x bound ih =>
      intro n hPn hsub
      have hgone : ∃ m, n ≤ m ∧ x ∉ list (exec m) := by
        by_cases hx : x ∈ list (exec n)
        · exact hleaves n x hx
        · exact ⟨n, Nat.le_refl n, hx⟩
      obtain ⟨m, hm, hx⟩ := hgone
      obtain ⟨m', hm', hnil⟩ := ih m (hP.le hm hPn) fun y hy => by
        rcases List.mem_cons.1 (hsub y (hshrinks' n m hm hPn y hy)) with rfl | hmem
        · exact absurd hy hx
        · exact hmem
      exact ⟨m', Nat.le_trans hm hm', hnil⟩
  exact fun n hPn => hbound _ n hPn fun _ hx => hx

end Lib
