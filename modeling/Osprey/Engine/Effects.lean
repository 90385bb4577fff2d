/-
Rules, effects and `WhenRules`.

An effect is an object: the value of the node that made it, shared by every
reader of that node. `WhenRules.execute` writes its passing rules into the
effects of its `then` list in place and appends each effect to the effects
of the run. What the run leaves of an effect is therefore the rules of all
the statements it stands in, and it stands in the effects of the run once
per statement. `runWhenRules_spec` says exactly that.
-/
import Osprey.Engine.NodeExecution
import Osprey.Worker.LabelsProvider

namespace Osprey.Effects

open Labels (LabelStatus)

/-! ## Rules and effects -/

structure RuleT where
  name : String
  value : Bool
  description : String
  features : Lib.Dict String String := .empty
  deriving DecidableEq

structure LabelEffect where
  rules : List RuleT := []
  entity : EntityT
  status : LabelStatus
  name : String
  expiresAfter : Option TimeDelta := none
  delayActionBy : Option TimeDelta := none
  dependentRule : Option RuleT := none
  suppressed : Bool := false
  deriving DecidableEq

/-- An effect object: a label effect, or one of another class. -/
inductive Effect
  | label (e : LabelEffect)
  | other (rules : List RuleT)
  deriving DecidableEq

def Effect.addRules : Effect → List RuleT → Effect
  | .label e, rs => .label { e with rules := e.rules ++ rs }
  | .other rules, rs => .other (rules ++ rs)

/-- Resolved `LabelArguments`. `hasApplyIf` is `has_argument_ast('apply_if')`. -/
structure LabelArguments where
  entity : EntityT
  label : String
  delayActionBy : Option TimeDelta := none
  hasApplyIf : Bool := false
  applyIf : Option RuleT := none
  expiresAfter : Option TimeDelta := none

def synthesizeEffect (status : LabelStatus) (arguments : LabelArguments) : LabelEffect where
  entity := arguments.entity
  status := status
  name := arguments.label
  expiresAfter := arguments.expiresAfter
  delayActionBy := arguments.delayActionBy
  dependentRule := arguments.applyIf
  suppressed := arguments.hasApplyIf && arguments.applyIf.isNone

inductive EffectCall
  | labelAdd (arguments : LabelArguments)
  | labelRemove (arguments : LabelArguments)
  | other

/-- The object a call makes; it has no rules yet. -/
def EffectCall.execute : EffectCall → Effect
  | .labelAdd arguments => .label (synthesizeEffect .added arguments)
  | .labelRemove arguments => .label (synthesizeEffect .removed arguments)
  | .other => .other []

/-! ## `WhenRules` -/

/-- A list argument: the nodes of its items, and whether the argument is a
list literal or something else that evaluates to a list, such as a name. -/
structure ListArgument where
  literal : Bool := true
  items : List NodeId

structure WhenRules where
  rulesAny : ListArgument
  thenEffects : ListArgument

/-- What the nodes `WhenRules` statements read have resolved to; `none` for a
failed node. Names of one node share its id, and so its object. -/
structure Resolved where
  rule : NodeId → Option RuleT
  effect : NodeId → Option EffectCall

/-- The effect objects by node, and the effects of the run by class. -/
structure EffectState where
  heap : NodeId → Option Effect
  labelEffects : List NodeId := []
  otherEffects : List NodeId := []

def Resolved.start (v : Resolved) : EffectState where
  heap n := (v.effect n).map EffectCall.execute

def EffectState.addEffect (σ : EffectState) (n : NodeId) : Effect → EffectState
  | .label _ => { σ with labelEffects := σ.labelEffects ++ [n] }
  | .other _ => { σ with otherEffects := σ.otherEffects ++ [n] }

/-- `WhenRules.resolve_arguments`: the passing over of failed items. -/
def WhenRules.resolveArguments (s : WhenRules) (v : Resolved) : Except Exc (List NodeId × List RuleT) :=
  if s.thenEffects.literal then
    if s.rulesAny.literal then
      .ok (s.thenEffects.items.filter fun n => (v.effect n).isSome, s.rulesAny.items.filterMap v.rule)
    else .error ⟨.assertionError, "BUG: `rules_any node is not a List!"⟩
  else .error ⟨.assertionError, "BUG: `then` node is not a list!"⟩

/-- One round of the loop of `WhenRules.execute`. -/
def EffectState.applyOutcome (σ : EffectState) (passingRules : List RuleT) (outcome : NodeId) : EffectState :=
  match σ.heap outcome with
  | none => σ
  | some e =>
    { σ with heap := Function.update σ.heap outcome (some (e.addRules passingRules)) }.addEffect outcome e

def WhenRules.execute (outcomes : List NodeId) (rulesAny : List RuleT) (σ : EffectState) : EffectState :=
  let passingRules := rulesAny.filter (·.value)
  if passingRules = [] then σ else outcomes.foldl (·.applyOutcome passingRules) σ

/-- A statement as the executor runs it: an argument that cannot be resolved
fails the statement and nothing else. -/
def WhenRules.run (v : Resolved) (σ : EffectState) (s : WhenRules) : EffectState :=
  match s.resolveArguments v with
  | .error _ => σ
  | .ok (outcomes, rulesAny) => WhenRules.execute outcomes rulesAny σ

/-- The statements of a run, in the order they were executed in. -/
def runWhenRules (v : Resolved) (statements : List WhenRules) : EffectState :=
  statements.foldl (WhenRules.run v) v.start

/-! ## What a run leaves behind -/

def WhenRules.passing (s : WhenRules) (v : Resolved) : List RuleT :=
  (s.rulesAny.items.filterMap v.rule).filter (·.value)

/-- The pairs of a resolved effect and the passing rules of a statement it
stands in, over statements with a passing rule. -/
def WhenRules.outcomes (v : Resolved) (s : WhenRules) : List (NodeId × List RuleT) :=
  if s.passing v = [] then []
  else (s.thenEffects.items.filter fun n => (v.effect n).isSome).map fun n => (n, s.passing v)

def outcomesOf (v : Resolved) (statements : List WhenRules) : List (NodeId × List RuleT) :=
  statements.flatMap (WhenRules.outcomes v)

def rulesAt (occurrences : List (NodeId × List RuleT)) (n : NodeId) : List RuleT :=
  occurrences.flatMap fun o => if o.1 = n then o.2 else []

def EffectCall.isLabel : EffectCall → Bool
  | .labelAdd _ | .labelRemove _ => true
  | .other => false

/-- The state after the given occurrences: every effect holds the rules
written into it, and the label effects are those of the occurrences in order. -/
structure Holds (v : Resolved) (occurrences : List (NodeId × List RuleT)) (σ : EffectState) : Prop where
  heap : ∀ n, σ.heap n = (v.effect n).map fun c => c.execute.addRules (rulesAt occurrences n)
  labels : σ.labelEffects = (occurrences.map (·.1)).filter fun n => (v.effect n).any EffectCall.isLabel

theorem Effect.addRules_nil (e : Effect) : e.addRules [] = e := by
  cases e <;> simp [Effect.addRules]

theorem Effect.addRules_append (e : Effect) (rs rs' : List RuleT) :
    (e.addRules rs).addRules rs' = e.addRules (rs ++ rs') := by
  cases e <;> simp [Effect.addRules]

theorem rulesAt_append (os os' : List (NodeId × List RuleT)) (n : NodeId) :
    rulesAt (os ++ os') n = rulesAt os n ++ rulesAt os' n := by
  simp [rulesAt]

theorem rulesAt_single (m n : NodeId) (rs : List RuleT) : rulesAt [(m, rs)] n = if m = n then rs else [] := by
  simp [rulesAt]

theorem Resolved.start_holds (v : Resolved) : Holds v [] v.start where
  heap n := by
    cases h : v.effect n <;> simp [Resolved.start, rulesAt, h, Effect.addRules_nil]
  labels := rfl

theorem EffectState.addEffect_heap (σ : EffectState) (n : NodeId) (e : Effect) : (σ.addEffect n e).heap = σ.heap := by
  cases e <;> rfl

theorem EffectState.addEffect_labelEffects (σ : EffectState) (n : NodeId) (c : EffectCall) (rs : List RuleT) :
    (σ.addEffect n (c.execute.addRules rs)).labelEffects = σ.labelEffects ++ if c.isLabel then [n] else [] := by
  cases c <;> simp [EffectState.addEffect, EffectCall.execute, Effect.addRules, EffectCall.isLabel]

theorem Holds.applyOutcome {v os σ} (h : Holds v os σ) (rs : List RuleT) {n c}
    (hc : v.effect n = some c) : Holds v (os ++ [(n, rs)]) (σ.applyOutcome rs n) := by
  have hn : σ.heap n = some (c.execute.addRules (rulesAt os n)) := by rw [h.heap, hc]; rfl
  unfold EffectState.applyOutcome
  rw [hn]
  refine ⟨fun m => ?_, ?_⟩
  · rw [EffectState.addEffect_heap, rulesAt_append, rulesAt_single]
    by_cases hm : n = m
    · subst hm
      simp [Effect.addRules_append, hc]
    · simp [Function.update_of_ne (Ne.symm hm), hm, h.heap]
  · dsimp only
    rw [EffectState.addEffect_labelEffects, h.labels]
    cases hl : c.isLabel <;> simp [hc, hl]

theorem Holds.applyOutcomes {v} (rs : List RuleT) : ∀ (ns : List NodeId) {os σ}, Holds v os σ →
    (∀ n ∈ ns, (v.effect n).isSome) →
    Holds v (os ++ ns.map fun n => (n, rs)) (ns.foldl (·.applyOutcome rs) σ)
  | [], os, σ, h, _ => by simpa using h
  | n :: ns, os, σ, h, hns => by
    obtain ⟨c, hc⟩ := Option.isSome_iff_exists.1 (hns n (by simp))
    have ih := Holds.applyOutcomes rs ns (h.applyOutcome rs hc) fun m hm => hns m (by simp [hm])
    simpa using ih

def WhenRules.Literal (s : WhenRules) : Prop := s.thenEffects.literal ∧ s.rulesAny.literal

instance (s : WhenRules) : Decidable s.Literal := inferInstanceAs (Decidable (_ ∧ _))

theorem Holds.run {v os σ} (h : Holds v os σ) {s : WhenRules} (hs : s.Literal) :
    Holds v (os ++ s.outcomes v) (s.run v σ) := by
  unfold WhenRules.run WhenRules.resolveArguments WhenRules.outcomes
  simp only [hs.1, hs.2, if_true, WhenRules.execute]
  change Holds v (os ++ if s.passing v = [] then [] else _) (if s.passing v = [] then σ else _)
  split
  · simpa using h
  · refine h.applyOutcomes _ _ fun n hn => ?_
    simpa using (List.mem_filter.1 hn).2

/-- **What a run leaves behind**: each effect with the rules of all its
occurrences, and the label effects once per occurrence. -/
theorem runWhenRules_spec (v : Resolved) {statements : List WhenRules} (hs : ∀ s ∈ statements, s.Literal) :
    Holds v (outcomesOf v statements) (runWhenRules v statements) := by
  have run : ∀ (ss : List WhenRules) os σ, Holds v os σ → (∀ s ∈ ss, s.Literal) →
      Holds v (os ++ outcomesOf v ss) (ss.foldl (WhenRules.run v) σ) := by
    intro ss
    induction ss with
    | nil => intro os σ h _; simpa [outcomesOf] using h
    | cons s ss ih =>
      intro os σ h hs
      have hrest := ih _ _ (h.run (hs s (by simp))) fun s' hs' => hs s' (by simp [hs'])
      simpa [outcomesOf] using hrest
  simpa [runWhenRules] using run statements [] v.start v.start_holds hs

end Osprey.Effects
