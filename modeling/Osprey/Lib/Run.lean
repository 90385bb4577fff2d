/-
Runs of a labelled transition system, and the induction on them: what
holds at the start and is kept by every step holds in every state a run
reaches. A run carries the list of its labels, so that a condition on the
steps of a run can be stated and used by the same induction.
-/
import Mathlib.Data.List.Basic

namespace Lib

variable {σ α : Type*}

/-- `Run step s as s'`: performing the labels `as` in order leads from `s`
to `s'`. -/
inductive Run (step : σ → α → σ → Prop) : σ → List α → σ → Prop
  | nil {s : σ} : Run step s [] s
  | snoc {s s' s'' : σ} {as : List α} {a : α} :
      Run step s as s' → step s' a s'' → Run step s (as ++ [a]) s''

theorem Run.invariant {step : σ → α → σ → Prop} {I : σ → Prop} (hstep : ∀ s a s', I s → step s a s' → I s')
    {s as s'} (h : Run step s as s') (h₀ : I s) : I s' := by
  induction h with
  | nil => exact h₀
  | snoc _ hs ih => exact hstep _ _ _ ih hs

/-- The rule of invariants when only the steps with a label in `P` are known
to keep the invariant. -/
theorem Run.invariant_of_labels {step} {I : σ → Prop} {P : α → Prop}
    (hstep : ∀ s a s', P a → I s → step s a s' → I s') {s as s'} (h : Run step s as s') (hP : ∀ a ∈ as, P a)
    (h₀ : I s) : I s' := by
  induction h with
  | nil => exact h₀
  | snoc _ hs ih => exact hstep _ _ _ (hP _ (by simp)) (ih fun a ha => hP a (by simp [ha])) hs

/-! ## Deterministic machines -/

/-- Along the run of `as` from `s`, every step meets `P`. -/
def Along (next : σ → α → σ) (P : σ → α → Prop) : σ → List α → Prop
  | _, [] => True
  | s, a :: as => P s a ∧ Along next P (next s a) as

instance Along.decidable {next : σ → α → σ} {P : σ → α → Prop} [∀ s a, Decidable (P s a)] :
    ∀ s as, Decidable (Along next P s as)
  | _, [] => .isTrue trivial
  | s, a :: as => @instDecidableAnd _ _ _ (Along.decidable (next s a) as)

theorem Along.of_forall {next P} : ∀ {s : σ} {as : List α}, (∀ s, ∀ a ∈ as, P s a) → Along next P s as
  | _, [], _ => trivial
  | s, a :: _, h => ⟨h s a (by simp), Along.of_forall fun s a ha => h s a (by simp [ha])⟩

/-- The rule of invariants for a condition on the steps: the steps that meet `P` keep `I` and meet
`Q`. -/
theorem Along.invariant {next P Q} {I : σ → Prop} (hstep : ∀ s a, I s → P s a → Q s a ∧ I (next s a)) :
    ∀ {s} {as : List α}, Along next P s as → I s → Along next Q s as ∧ I (as.foldl next s)
  | _, [], _, h₀ => ⟨trivial, h₀⟩
  | s, a :: _, h, h₀ => by
    obtain ⟨hQ, h₁⟩ := hstep s a h₀ h.1
    obtain ⟨hrest, hlast⟩ := Along.invariant hstep h.2 h₁
    exact ⟨⟨hQ, hrest⟩, hlast⟩

/-- The rule of invariants for an exact condition: from a state that meets `I` the two conditions on a step
agree, and a step that meets them keeps `I`. -/
theorem Along.congr {next P Q} {I : σ → Prop} (hPQ : ∀ s a, I s → (P s a ↔ Q s a))
    (hstep : ∀ s a, I s → P s a → I (next s a)) :
    ∀ {s} {as : List α}, I s → (Along next P s as ↔ Along next Q s as)
  | _, [], _ => Iff.rfl
  | s, a :: _, h₀ => by
    constructor
    · rintro ⟨hP, hrest⟩
      exact ⟨(hPQ s a h₀).1 hP, (Along.congr hPQ hstep (hstep s a h₀ hP)).1 hrest⟩
    · rintro ⟨hQ, hrest⟩
      have hP := (hPQ s a h₀).2 hQ
      exact ⟨hP, (Along.congr hPQ hstep (hstep s a h₀ hP)).2 hrest⟩

end Lib
