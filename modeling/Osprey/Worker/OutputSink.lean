/-
`_get_label_effects_from_result`: the label mutations a run asks for.

One mutation is due per statement, effect of its `then` list and passing rule
of the same statement (and one for a true `apply_if`). The sink reads them off
the effect objects, in which the rules of all statements have been collected,
once for every statement the effect stands in. An effect that stands in one
statement gives what is due; one that stands in more gives more. An expiry
that no date stands for makes the sink raise.
-/
import Osprey.Engine.Effects
import Mathlib.Algebra.Order.BigOperators.Group.List
import Mathlib.Algebra.Order.Group.Nat

namespace Osprey.OutputSink

open Effects Labels

/-! ## The sink -/

def createEntityMutation (e : LabelEffect) (rule : RuleT) (expiresAt : Option Time) : EntityLabelMutation where
  labelName := e.name
  reasonName := rule.name
  status := e.status
  description := rule.description
  features := rule.features
  expiresAt := expiresAt

/-- The sink skips an effect that is suppressed or whose `apply_if` is false. -/
def isLive (e : LabelEffect) : Bool := !e.suppressed && e.dependentRule.all (·.value)

def expiresAt (timestamp : Time) (e : LabelEffect) : Except Exc (Option Time) :=
  match e.expiresAfter with
  | none => .ok none
  | some expiresAfter => (addDelta timestamp expiresAfter).map some

def mutationsOf (timestamp : Time) (e : LabelEffect) : Except Exc (List EntityLabelMutation) := do
  let expiresAt ← expiresAt timestamp e
  return (e.dependentRule.toList ++ e.rules).map fun rule => createEntityMutation e rule expiresAt

/-- `_get_label_effects_from_result`, from the action's timestamp and the
label effects of the result. -/
def getLabelEffectsFromResult (timestamp : Time) (labelEffects : List LabelEffect) :
    Except Exc (Lib.Dict EntityT (List EntityLabelMutation)) :=
  labelEffects.foldlM (fun effects e => do
    if isLive e then return effects.appendAt e.entity (← mutationsOf timestamp e) else return effects) .empty

/-- The label effects of the result of a run, as the sink sees them: the
objects as the whole run has left them. -/
def resultLabelEffects (σ : EffectState) : List LabelEffect :=
  σ.labelEffects.filterMap fun n =>
    match σ.heap n with
    | some (.label e) => some e
    | _ => none

def runMutations (timestamp : Time) (v : Resolved) (statements : List WhenRules) :
    Except Exc (List (EntityT × EntityLabelMutation)) :=
  (getLabelEffectsFromResult timestamp (resultLabelEffects (runWhenRules v statements))).map (·.flatten)

/-! ## What is due -/

/-- The label effect a node makes, if it resolved to one that is live. -/
def liveEffect (v : Resolved) (n : NodeId) : Option LabelEffect :=
  match (v.effect n).map EffectCall.execute with
  | some (.label e) => if isLive e then some e else none
  | _ => none

/-- The expiry of the effect is a date. -/
def Datable (timestamp : Time) (e : LabelEffect) : Prop :=
  ∀ expiresAfter, e.expiresAfter = some expiresAfter →
    datetimeMin ≤ timestamp + expiresAfter ∧ timestamp + expiresAfter ≤ datetimeMax

/-- One mutation for a true `apply_if`, and one per passing rule. -/
def dueFor (timestamp : Time) (e : LabelEffect) (passing : List RuleT) : List (EntityT × EntityLabelMutation) :=
  (e.dependentRule.toList ++ passing).map fun rule =>
    (e.entity, createEntityMutation e rule (e.expiresAfter.map (timestamp + ·)))

/-- What a statement asks for: nothing without a passing rule, else what is
due for each live effect of its `then` list. -/
def statementDue (timestamp : Time) (v : Resolved) (s : WhenRules) : List (EntityT × EntityLabelMutation) :=
  if s.passing v = [] then []
  else (s.thenEffects.items.filterMap (liveEffect v)).flatMap fun e => dueFor timestamp e (s.passing v)

def dueMutations (timestamp : Time) (v : Resolved) (statements : List WhenRules) :
    List (EntityT × EntityLabelMutation) :=
  statements.flatMap (statementDue timestamp v)

/-! ## Both as sums over the occurrences of effects -/

/-- What an effect node gives when it holds the rules `rs`. -/
def given (timestamp : Time) (v : Resolved) (n : NodeId) (rs : List RuleT) : List (EntityT × EntityLabelMutation) :=
  match liveEffect v n with
  | none => []
  | some e => dueFor timestamp e rs

variable {v : Resolved} {n : NodeId} {t : Time}

theorem mutationsOf_of_datable {e} (h : Datable t e) :
    ∃ ms, mutationsOf t e = .ok ms ∧ ms.map (e.entity, ·) = dueFor t e e.rules := by
  have hexpires : expiresAt t e = .ok (e.expiresAfter.map (t + ·)) := by
    unfold expiresAt
    cases he : e.expiresAfter with
    | none => rfl
    | some delta => simp [addDelta, h delta he, Except.map]
  exact ⟨_, by rw [mutationsOf, hexpires]; rfl, by simp [dueFor, Function.comp_def]⟩

theorem mutationsOf_of_not_datable {e} (h : ¬Datable t e) : ∃ error, mutationsOf t e = .error error := by
  obtain ⟨delta, he, hrange⟩ : ∃ delta, e.expiresAfter = some delta ∧ _ := by simpa [Datable] using h
  have hsum : addDelta t delta = .error ⟨.overflowError, "date value out of range"⟩ :=
    if_neg fun hboth => absurd hboth.2 (Int.not_le.mpr (hrange hboth.1))
  have hexpires : expiresAt t e = .error ⟨.overflowError, "date value out of range"⟩ := by
    simp only [expiresAt, he, hsum]
    rfl
  exact ⟨_, by rw [mutationsOf, hexpires]; rfl⟩

/-- The sink returns if every live effect has a date for its expiry, and has then what each gives. -/
theorem getLabelEffectsFromResult_perm_iff (es : List LabelEffect) (ms : List (EntityT × EntityLabelMutation)) :
    (∃ d, getLabelEffectsFromResult t es = .ok d ∧ d.flatten.Perm ms) ↔ (∀ e ∈ es, isLive e → Datable t e) ∧
      (es.flatMap fun e => if isLive e then dueFor t e e.rules else []).Perm ms := by
  have fold : ∀ (es : List LabelEffect) (d : Lib.Dict EntityT (List EntityLabelMutation)),
      (∃ d', es.foldlM (m := Except Exc) (fun effects e => do
          if isLive e then return effects.appendAt e.entity (← mutationsOf t e) else return effects) d = .ok d' ∧
        d'.flatten.Perm ms) ↔ (∀ e ∈ es, isLive e → Datable t e) ∧
        (d.flatten ++ es.flatMap fun e => if isLive e then dueFor t e e.rules else []).Perm ms := by
    intro es
    induction es with
    | nil => simp [pure_eq_ok]
    | cons e es ih =>
      intro d
      rw [List.foldlM_cons, List.forall_mem_cons, List.flatMap_cons]
      by_cases hl : isLive e
      · simp only [hl, if_true, true_implies]
        by_cases hd : Datable t e
        · obtain ⟨new, hnew, hdue⟩ := mutationsOf_of_datable hd
          have happend : (d.appendAt e.entity new).flatten.Perm (d.flatten ++ dueFor t e e.rules) :=
            hdue ▸ Lib.Dict.flatten_appendAt d e.entity new
          rw [hnew, ok_bind, pure_eq_ok, ok_bind, ih, ← List.append_assoc]
          have hperm := happend.append_right (es.flatMap fun e => if isLive e then dueFor t e e.rules else [])
          exact and_congr (and_iff_right hd).symm ⟨hperm.symm.trans, hperm.trans⟩
        · obtain ⟨error, herror⟩ := mutationsOf_of_not_datable hd
          rw [herror]
          exact iff_of_false (fun ⟨_, h, _⟩ => nomatch h) fun h => hd h.1.1
      · rw [if_neg hl, if_neg hl, List.nil_append, pure_bind, ih, and_iff_right fun h => absurd h hl]
  simpa [getLabelEffectsFromResult] using fold es .empty

def labelAt (v : Resolved) (os : List (NodeId × List RuleT)) (n : NodeId) : Option LabelEffect :=
  match (v.effect n).map EffectCall.execute with
  | some (.label e) => some { e with rules := rulesAt os n }
  | _ => none

theorem resultLabelEffects_eq {os σ} (h : Holds v os σ) :
    resultLabelEffects σ = (os.map Prod.fst).filterMap (labelAt v os) := by
  rw [resultLabelEffects, h.labels, List.filterMap_filter]
  refine List.filterMap_congr fun n _ => ?_
  rw [h.heap, labelAt]
  cases v.effect n with
  | none => rfl
  | some c => cases c <;> rfl

theorem labelAt_spec (os : List (NodeId × List RuleT)) (n : NodeId) :
    ((labelAt v os n).toList.flatMap fun e => if isLive e then dueFor t e e.rules else []) =
      given t v n (rulesAt os n) ∧
      ((∀ e, labelAt v os n = some e → isLive e → Datable t e) ↔ ∀ e, liveEffect v n = some e → Datable t e) := by
  unfold labelAt given liveEffect
  cases (v.effect n).map EffectCall.execute with
  | none => simp
  | some effect =>
    cases effect with
    | other rules => simp
    | label e =>
      have hlive : isLive { e with rules := rulesAt os n } = isLive e := rfl
      by_cases hl : isLive e
      · simp [hlive, hl, dueFor, Datable, createEntityMutation]
      · simp [hlive, hl]

/-- The sink derives these mutations exactly if every live effect that is used has a date for its expiry, and each
occurrence of an effect gives what the run has collected in it. -/
theorem runMutations_perm_iff (t : Time) {statements : List WhenRules} (hs : ∀ s ∈ statements, s.Literal)
    (ms : List (EntityT × EntityLabelMutation)) :
    (∃ mutations, runMutations t v statements = .ok mutations ∧ mutations.Perm ms) ↔
      (∀ n ∈ (outcomesOf v statements).map Prod.fst, ∀ e, liveEffect v n = some e → Datable t e) ∧
      ((outcomesOf v statements).flatMap fun o => given t v o.1 (rulesAt (outcomesOf v statements) o.1)).Perm ms := by
  have hholds := runWhenRules_spec v hs
  have hreturns : (∃ mutations, runMutations t v statements = .ok mutations ∧ mutations.Perm ms) ↔
      ∃ d, getLabelEffectsFromResult t (resultLabelEffects (runWhenRules v statements)) = .ok d ∧
        d.flatten.Perm ms := by
    simp [runMutations, map_eq_ok]
  rw [hreturns, getLabelEffectsFromResult_perm_iff, resultLabelEffects_eq hholds]
  generalize outcomesOf v statements = os
  refine and_congr ?_ (Iff.of_eq (congrArg (List.Perm · ms) ?_))
  · simp only [List.mem_filterMap]
    constructor
    · exact fun h n hn => (labelAt_spec os n).2.mp fun e he => h e ⟨n, hn, he⟩
    · rintro h e ⟨n, hn, he⟩
      exact (labelAt_spec os n).2.mpr (h n hn) e he
  · rw [← List.flatMap_map (f := Prod.fst) (g := fun n => given t v n (rulesAt os n))]
    induction os.map Prod.fst with
    | nil => rfl
    | cons n ns ih =>
      rw [List.flatMap_cons, ← ih, ← (labelAt_spec os n).1]
      cases hat : labelAt v os n <;> simp [hat]

theorem dueMutations_eq (t : Time) (v : Resolved) (statements : List WhenRules) :
    dueMutations t v statements = (outcomesOf v statements).flatMap fun o => given t v o.1 o.2 := by
  rw [dueMutations, outcomesOf, List.flatMap_assoc]
  refine List.flatMap_congr fun s _ => ?_
  unfold statementDue WhenRules.outcomes
  split
  · rfl
  · induction s.thenEffects.items with
    | nil => rfl
    | cons n ns ih =>
      have hdead : (v.effect n).isSome = false → liveEffect v n = none := fun h => by
        simp only [Option.isSome_eq_false_iff, Option.isNone_iff_eq_none] at h
        simp [liveEffect, h]
      cases hr : (v.effect n).isSome with
      | false => simpa [hr, hdead hr] using ih
      | true =>
        cases hl : liveEffect v n with
        | none => simpa [hr, hl, given] using ih
        | some e => simpa [hr, hl, given] using ih

/-! ## Counting -/

variable {os : List (NodeId × List RuleT)}

theorem rulesAt_eq_nil (hne : ∀ o ∈ os, o.2 ≠ []) (h : rulesAt os n = []) : n ∉ os.map Prod.fst := by
  rintro hm
  obtain ⟨o, ho, rfl⟩ := List.mem_map.1 hm
  have hflat := List.flatMap_eq_nil_iff.1 h o ho
  rw [if_pos rfl] at hflat
  exact hne o ho hflat

theorem rulesAt_of_not_mem (h : n ∉ os.map Prod.fst) : rulesAt os n = [] := by
  refine List.flatMap_eq_nil_iff.2 fun o ho => if_neg ?_
  rintro rfl
  exact h (List.mem_map_of_mem ho)

/-- An effect holds at least the rules of each statement it stands in, and
just those exactly when it stands in no other. -/
theorem rulesAt_mem (hne : ∀ o ∈ os, o.2 ≠ []) {o} (ho : o ∈ os) : o.2.length ≤ (rulesAt os o.1).length ∧
      ((rulesAt os o.1).length = o.2.length → (os.map Prod.fst).count o.1 ≤ 1) ∧
      ((os.map Prod.fst).count o.1 ≤ 1 → rulesAt os o.1 = o.2) := by
  obtain ⟨l₁, l₂, rfl⟩ := List.append_of_mem ho
  have hsplit : rulesAt (l₁ ++ o :: l₂) o.1 = rulesAt l₁ o.1 ++ (o.2 ++ rulesAt l₂ o.1) := by
    simp [rulesAt]
  have hcount : ((l₁ ++ o :: l₂).map Prod.fst).count o.1
      = (l₁.map Prod.fst).count o.1 + ((l₂.map Prod.fst).count o.1 + 1) := by simp
  rw [hsplit, hcount]
  refine ⟨by simp; omega, fun hlen => ?_, fun hle => ?_⟩
  · simp only [List.length_append] at hlen
    have h₁ := rulesAt_eq_nil (fun o' ho' => hne o' (by simp [ho']))
      (List.length_eq_zero_iff.1 (by omega : (rulesAt l₁ o.1).length = 0))
    have h₂ := rulesAt_eq_nil (fun o' ho' => hne o' (by simp [ho']))
      (List.length_eq_zero_iff.1 (by omega : (rulesAt l₂ o.1).length = 0))
    rw [List.count_eq_zero_of_not_mem h₁, List.count_eq_zero_of_not_mem h₂]
  · have h₁ : o.1 ∉ l₁.map Prod.fst := List.count_eq_zero.1 (by omega)
    have h₂ : o.1 ∉ l₂.map Prod.fst := List.count_eq_zero.1 (by omega)
    simp [rulesAt_of_not_mem h₁, rulesAt_of_not_mem h₂]

theorem outcomesOf_ne_nil {statements} : ∀ o ∈ outcomesOf v statements, o.2 ≠ [] := by
  intro o ho
  obtain ⟨s, _, ho⟩ := List.mem_flatMap.1 ho
  unfold WhenRules.outcomes at ho
  split at ho
  · cases ho
  · next hp =>
    obtain ⟨n, _, rfl⟩ := List.mem_map.1 ho
    exact hp

theorem length_given (rs rs' : List RuleT) (hle : rs.length ≤ rs'.length) :
    (given t v n rs).length ≤ (given t v n rs').length ∧
      ((liveEffect v n).isSome → (given t v n rs').length ≤ (given t v n rs).length → rs'.length = rs.length) := by
  unfold given
  cases liveEffect v n with
  | none => simp
  | some e => simp only [dueFor, List.length_map, List.length_append]; omega

/-- Handing out what was collected instead of what is due is the same
exactly when every live effect occurs once. -/
theorem collected_perm_due_iff (t : Time) (v : Resolved) (hne : ∀ o ∈ os, o.2 ≠ []) :
    (os.flatMap fun o => given t v o.1 (rulesAt os o.1)).Perm (os.flatMap fun o => given t v o.1 o.2) ↔
      ∀ n, (liveEffect v n).isSome → (os.map Prod.fst).count n ≤ 1 := by
  constructor
  · intro h n hlive
    by_contra hcount
    obtain ⟨o, ho, rfl⟩ := List.mem_map.1 (List.count_pos_iff.1 (by omega : 0 < (os.map Prod.fst).count n))
    -- every occurrence gives at least what is due, this one gives more
    have hlen := h.length_eq
    simp only [List.length_flatMap] at hlen
    refine absurd hlen (Nat.ne_of_gt (List.sum_lt_sum _ _ (fun o' ho' => ?_) ⟨o, ho, ?_⟩))
    · exact (length_given _ _ (rulesAt_mem hne ho').1).1
    · obtain ⟨hle, hone, -⟩ := rulesAt_mem hne ho
      by_contra hnot
      exact hcount (hone ((length_given (t := t) o.2 (rulesAt os o.1) hle).2 hlive (Nat.le_of_not_lt hnot)))
  · intro h
    refine List.Perm.of_eq (List.flatMap_congr fun o ho => ?_)
    cases hl : liveEffect v o.1 with
    | none => simp [given, hl]
    | some e => rw [(rulesAt_mem hne ho).2.2 (h o.1 (by simp [hl]))]

/-! ## Labels follow rules -/

def usedEffects (v : Resolved) (statements : List WhenRules) : List NodeId :=
  statements.flatMap fun s => if s.passing v = [] then [] else s.thenEffects.items

theorem count_usedEffects (h : (liveEffect v n).isSome) (statements : List WhenRules) :
    ((outcomesOf v statements).map Prod.fst).count n = (usedEffects v statements).count n := by
  have hr : (v.effect n).isSome := by
    cases hv : v.effect n with
    | none => simp [liveEffect, hv] at h
    | some c => rfl
  induction statements with
  | nil => rfl
  | cons s ss ih =>
    simp only [outcomesOf, usedEffects, List.flatMap_cons, List.map_append, List.count_append] at ih ⊢
    rw [ih]
    congr 1
    unfold WhenRules.outcomes
    split
    · rfl
    · rw [List.map_map]
      change ((s.thenEffects.items.filter _).map id).count n = _
      rw [List.map_id, List.count_filter (p := fun n => (v.effect n).isSome) hr]

/-- **Labels follow rules exactly when no live effect is used twice.** For
statements whose lists are list literals, the sink returns the mutations that
are due, each as often, exactly when every label effect that resolved, is
not suppressed and whose `apply_if` is absent or true stands at most once in
the `then` lists of the statements with a passing rule, and has a date for its
expiry if it stands there. -/
theorem runMutations_perm_due_iff (t : Time) (v : Resolved) (statements : List WhenRules)
    (hs : ∀ s ∈ statements, s.Literal) :
    (∃ mutations, runMutations t v statements = .ok mutations ∧ mutations.Perm (dueMutations t v statements)) ↔
      (∀ n, (liveEffect v n).isSome → (usedEffects v statements).count n ≤ 1) ∧
        ∀ n ∈ usedEffects v statements, ∀ e, liveEffect v n = some e → Datable t e := by
  have hused : ∀ n, (liveEffect v n).isSome →
      (n ∈ (outcomesOf v statements).map Prod.fst ↔ n ∈ usedEffects v statements) := by
    intro n hn
    rw [← List.count_pos_iff, count_usedEffects hn, List.count_pos_iff]
  rw [runMutations_perm_iff t hs, dueMutations_eq, collected_perm_due_iff t v outcomesOf_ne_nil, and_comm]
  refine and_congr (forall₂_congr fun n hn => by rw [count_usedEffects hn]) ?_
  constructor
  · exact fun h n hn e he => h n ((hused n (by simp [he])).mpr hn) e he
  · exact fun h n hn e he => h n ((hused n (by simp [he])).mp hn) e he

/-- A ban for a minute that is used in one statement and follows its two passing rules. -/
theorem runMutations_one_statement :
    let passes (name : String) : RuleT := ⟨name, true, "", .empty⟩
    let ban : EffectCall := .labelAdd { entity := ⟨"User", .int 1⟩, label := "ban", expiresAfter := some (seconds 60) }
    let v : Resolved := ⟨fun n => if n = 0 then some (passes "R0") else some (passes "R1"), fun _ => some ban⟩
    let statements : List WhenRules := [⟨⟨true, [0, 1]⟩, ⟨true, [2]⟩⟩]
    ∃ mutations, runMutations 0 v statements = .ok mutations ∧ mutations.Perm (dueMutations 0 v statements) := by
  intro passes ban v statements
  refine (runMutations_perm_due_iff 0 v statements (by decide)).2 ⟨fun n _ => ?_, ?_⟩
  · change List.count n [2] ≤ 1
    simp only [List.count_singleton]
    split <;> omega
  · rintro n - e ⟨⟩ _ ⟨⟩
    decide

/-- Two ways to lose exactness. One named effect in two statements, each with
one passing rule: two mutations are due and the sink derives four. And a `then`
list given by name: one mutation is due and the sink derives none. -/
theorem runMutations_shared_effect :
    let passes (name : String) : RuleT := ⟨name, true, "", .empty⟩
    let ban : EffectCall := .labelAdd { entity := ⟨"User", .int 1⟩, label := "ban" }
    let v : Resolved := ⟨fun n => if n = 0 then some (passes "R0") else some (passes "R1"), fun _ => some ban⟩
    let shared : List WhenRules := [⟨⟨true, [0]⟩, ⟨true, [2]⟩⟩, ⟨⟨true, [1]⟩, ⟨true, [2]⟩⟩]
    let named : List WhenRules := [⟨⟨true, [0]⟩, ⟨false, [2]⟩⟩]
    ((dueMutations 0 v shared).map (·.2.reasonName) = ["R0", "R1"] ∧
        (runMutations 0 v shared).map (·.map (·.2.reasonName)) = .ok ["R0", "R1", "R0", "R1"]) ∧
      ((dueMutations 0 v named).map (·.2.reasonName) = ["R0"] ∧ runMutations 0 v named = .ok []) :=
  ⟨⟨rfl, rfl⟩, rfl, rfl⟩

end Osprey.OutputSink
