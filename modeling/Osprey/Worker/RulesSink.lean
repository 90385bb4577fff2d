/-
Sampling of actions: `ActionSampler.sample` decides whether an action is
dropped, and `RulesRunner.classify_one` executes the actions that are not.

`execute` documents its parameter `sample_rate` as the percentage of actions
that should be executed, and both ends of the scale follow it: rate 100
never drops and rate 0 always does. Between them the draw decides, and the
comparison is the other way round.
-/
import Osprey.Engine.Basic
import Osprey.Lib.Dict
import Mathlib.Order.Interval.Finset.Fin

namespace Osprey.RulesSink

/-! ## The actions configuration -/

/-- `ActionConfig`; the bounds are those its field is declared with. -/
structure ActionConfig where
  sampleRate : Nat := 100
  sampleRate_le : sampleRate ≤ 100 := by decide

structure ActionConfigs where
  actions : Lib.Dict String ActionConfig

def ActionConfigs.getActionConfig (c : ActionConfigs) (actionName : String) : Option ActionConfig :=
  c.actions.get? actionName

/-! ## The sampler -/

structure SampleDecision where
  sampleRate : Nat
  drop : Bool
  deriving DecidableEq, Repr

def sampleNever : SampleDecision := ⟨100, false⟩

def sampleAlways : SampleDecision := ⟨0, true⟩

/-- `ActionSampler.sample`; `p` is the value `randint(0, 99)` draws. -/
def sample (configs : ActionConfigs) (action : Action) (p : Fin 100) : SampleDecision :=
  match configs.getActionConfig action.actionName with
  | none => sampleNever
  | some config =>
    if config.sampleRate = 100 then sampleNever
    else if config.sampleRate = 0 then sampleAlways
    else ⟨config.sampleRate, p.val < config.sampleRate⟩

/-! ## The runner -/

/-- The part of an `ExecutionResult` that sampling determines, and the rest of it. -/
structure ExecutionResult (R : Type*) where
  body : R
  action : Action
  sampleRate : Nat

/-- What a `RulesRunner` holds: the configuration the engine gives, the
engine's rules, and the output sink. The rules and the sink may raise. -/
structure RulesRunner (R : Type*) where
  configs : ActionConfigs
  rules : Action → Except Exc R
  push : ExecutionResult R → Except Exc Unit

/-- What one call of `classify_one` does: the calls of `engine.execute` with
their `sample_rate`, the results that reached the sink, and the value returned. -/
structure Classified (R : Type*) where
  executions : List (Action × Nat)
  pushed : List (ExecutionResult R)
  result : Option (ExecutionResult R)

variable {R : Type*}

/-- `OspreyEngine.execute`, which ends in `execute` building the result. -/
def RulesRunner.execute (r : RulesRunner R) (action : Action) (sampleRate : Nat) :
    Except Exc (ExecutionResult R) := do
  let body ← r.rules action
  return ⟨body, action, sampleRate⟩

/-- `RulesRunner.classify_one`. An exception of the engine or of the sink is
reported and swallowed. -/
def RulesRunner.classifyOne (r : RulesRunner R) (action : Action) (p : Fin 100) : Classified R :=
  let sampleConfig := sample r.configs action p
  if sampleConfig.drop then ⟨[], [], none⟩
  else
    match r.execute action sampleConfig.sampleRate with
    | .error _ => ⟨[(action, sampleConfig.sampleRate)], [], none⟩
    | .ok result =>
      match r.push result with
      | .error _ => ⟨[(action, sampleConfig.sampleRate)], [], some result⟩
      | .ok _ => ⟨[(action, sampleConfig.sampleRate)], [result], some result⟩

theorem RulesRunner.execute_sampleRate {r : RulesRunner R} {a n res} (h : r.execute a n = .ok res) :
    res.sampleRate = n ∧ res.action = a := by
  unfold RulesRunner.execute at h
  cases hb : r.rules a with
  | error e => rw [hb] at h; cases h
  | ok b => rw [hb] at h; cases h; exact ⟨rfl, rfl⟩

variable (r : RulesRunner R)

/-- **What a call of the runner does.** A dropped action leaves no trace; any
other is executed once, at the rate the sampler gave, and every result that
is pushed or returned carries that rate. -/
theorem RulesRunner.classifyOne_spec (a : Action) (p : Fin 100) :
    (r.classifyOne a p).executions
        = (if (sample r.configs a p).drop then [] else [(a, (sample r.configs a p).sampleRate)]) ∧
      (∀ res ∈ (r.classifyOne a p).result, res.sampleRate = (sample r.configs a p).sampleRate) ∧
      (∀ res ∈ (r.classifyOne a p).pushed, (r.classifyOne a p).result = some res) := by
  unfold RulesRunner.classifyOne
  by_cases hd : (sample r.configs a p).drop
  · simp [hd]
  · simp only [hd]
    cases he : r.execute a (sample r.configs a p).sampleRate with
    | error e => simp
    | ok res =>
      have hr := (RulesRunner.execute_sampleRate he).1
      cases hp : r.push res with
      | error e => simp [hp, hr]
      | ok u => simp [hp, hr]

/-! ## Counting draws -/

/-- The rate an action is configured with; an unconfigured action is never dropped. -/
def configuredRate (configs : ActionConfigs) (action : Action) : Nat :=
  match configs.getActionConfig action.actionName with
  | none => 100
  | some config => config.sampleRate

variable (configs : ActionConfigs)

theorem configuredRate_le (a : Action) : configuredRate configs a ≤ 100 := by
  unfold configuredRate
  split
  · exact Nat.le_refl _
  · next c _ => exact c.sampleRate_le

theorem sample_eq (a : Action) (p : Fin 100) :
    sample configs a p =
      ⟨configuredRate configs a, decide (configuredRate configs a ≠ 100 ∧ p.val < configuredRate configs a)
        || decide (configuredRate configs a = 0)⟩ := by
  unfold sample configuredRate
  cases configs.getActionConfig a.actionName with
  | none => simp [sampleNever]
  | some c =>
    dsimp only
    by_cases h100 : c.sampleRate = 100
    · simp [h100, sampleNever]
    · by_cases h0 : c.sampleRate = 0
      · simp [h0, sampleAlways]
      · simp [h100, h0]

theorem sample_sampleRate (a : Action) (p : Fin 100) :
    (sample configs a p).sampleRate = configuredRate configs a := by
  rw [sample_eq]

/-- The draws under which `classify_one` executes the action. -/
def executingDraws (r : RulesRunner R) (a : Action) : Finset (Fin 100) :=
  Finset.univ.filter fun p => (r.classifyOne a p).executions ≠ []

theorem mem_executingDraws (a : Action) (p : Fin 100) :
    p ∈ executingDraws r a ↔ (sample r.configs a p).drop = false := by
  simp only [executingDraws, Finset.mem_filter, Finset.mem_univ, true_and, (r.classifyOne_spec a p).1]
  cases (sample r.configs a p).drop <;> simp

/-- How many of the draws execute an action of rate `n`. -/
def executedOfRate (n : Nat) : Nat := if n = 0 then 0 else if n = 100 then 100 else 100 - n

theorem card_draws_ge {n} (h : n < 100) : (Finset.univ.filter fun p : Fin 100 => n ≤ p.val).card = 100 - n := by
  have hset : (Finset.univ.filter fun p : Fin 100 => n ≤ p.val) = Finset.Ici ⟨n, h⟩ := by
    ext p
    simp [Fin.le_def]
  rw [hset, Fin.card_Ici]

theorem card_executingDraws (a : Action) :
    (executingDraws r a).card = executedOfRate (configuredRate r.configs a) := by
  have hle := configuredRate_le r.configs a
  unfold executedOfRate
  by_cases h0 : configuredRate r.configs a = 0
  · rw [if_pos h0, Finset.card_eq_zero]
    ext p
    simp [mem_executingDraws, sample_eq, h0]
  by_cases h100 : configuredRate r.configs a = 100
  · have huniv : executingDraws r a = Finset.univ := by
      ext p
      simp [mem_executingDraws, sample_eq, h100]
    simp [h100, huniv]
  · rw [if_neg h0, if_neg h100, ← card_draws_ge (by omega : configuredRate r.configs a < 100)]
    congr 1
    ext p
    simp [mem_executingDraws, sample_eq, h0, h100]

/-- **Exactly the rates at the ends and in the middle are kept as numbers.** -/
theorem card_executingDraws_eq_rate (a : Action) :
    (executingDraws r a).card = configuredRate r.configs a ↔
      configuredRate r.configs a = 0 ∨ configuredRate r.configs a = 50 ∨ configuredRate r.configs a = 100 := by
  have hle := configuredRate_le r.configs a
  rw [card_executingDraws, executedOfRate]
  split
  · next h => simp [h]
  · split
    · next h => simp [h]
    · omega

/-! ## What the rate promises -/

/-- The promise of a sample rate for one action: as many of the hundred
draws execute it as the rate says, every execution and every result carry
the rate, and no runner with a lower rate for the action executes it on more
draws, nor one with a higher rate on fewer. -/
structure SamplesAsConfigured (r : RulesRunner R) (a : Action) : Prop where
  count : (executingDraws r a).card = configuredRate r.configs a
  executed : ∀ p, ∀ call ∈ (r.classifyOne a p).executions, call = (a, configuredRate r.configs a)
  recorded : ∀ p, ∀ res ∈ (r.classifyOne a p).result, res.sampleRate = configuredRate r.configs a
  lower : ∀ r' : RulesRunner R, configuredRate r'.configs a ≤ configuredRate r.configs a →
    (executingDraws r' a).card ≤ (executingDraws r a).card
  higher : ∀ r' : RulesRunner R, configuredRate r.configs a ≤ configuredRate r'.configs a →
    (executingDraws r a).card ≤ (executingDraws r' a).card

theorem classifyOne_executed (a : Action) (p : Fin 100) :
    ∀ call ∈ (r.classifyOne a p).executions, call = (a, configuredRate r.configs a) := by
  intro call hc
  rw [(r.classifyOne_spec a p).1, sample_sampleRate] at hc
  split at hc
  · cases hc
  · simpa using hc

theorem classifyOne_recorded (a : Action) (p : Fin 100) :
    ∀ res ∈ (r.classifyOne a p).result, res.sampleRate = configuredRate r.configs a := by
  intro res hres
  rw [(r.classifyOne_spec a p).2.1 res hres, sample_sampleRate]

def RulesRunner.withConfig (r : RulesRunner R) (a : Action) (config : ActionConfig) : RulesRunner R :=
  { r with configs := ⟨r.configs.actions.set a.actionName config⟩ }

@[simp] theorem configuredRate_withConfig (a : Action) (config : ActionConfig) :
    configuredRate (r.withConfig a config).configs a = config.sampleRate := by
  simp [configuredRate, RulesRunner.withConfig, ActionConfigs.getActionConfig]

theorem executedOfRate_le (n : Nat) : executedOfRate n ≤ 100 := by
  unfold executedOfRate
  split
  · omega
  · split <;> omega

/-- **The promise is kept at the two ends of the scale and nowhere else.** An
unconfigured action has rate 100. -/
theorem samplesAsConfigured_iff (r : RulesRunner R) (a : Action) :
    SamplesAsConfigured r a ↔ configuredRate r.configs a = 0 ∨ configuredRate r.configs a = 100 := by
  constructor
  · intro h
    -- only rate 50 is left to exclude, and a runner of rate 60 executes fewer draws
    rcases (card_executingDraws_eq_rate r a).1 h.count with h0 | h50 | h100
    · exact .inl h0
    · have hlow := h.higher (r.withConfig a ⟨60, by decide⟩) (by simp [h50])
      rw [card_executingDraws, card_executingDraws, configuredRate_withConfig, h50] at hlow
      exact absurd hlow (by decide)
    · exact .inr h100
  · rintro (h | h)
    all_goals refine ⟨?_, classifyOne_executed r a, classifyOne_recorded r a, fun r' hr' => ?_, fun r' hr' => ?_⟩
    · exact (card_executingDraws_eq_rate r a).2 (.inl h)
    · have h' : configuredRate r'.configs a = 0 := by omega
      rw [card_executingDraws, card_executingDraws, h, h']
    · rw [card_executingDraws, h]
      exact Nat.zero_le _
    · exact (card_executingDraws_eq_rate r a).2 (.inr (.inr h))
    · rw [card_executingDraws r a, h, card_executingDraws]
      exact executedOfRate_le _
    · have h' : configuredRate r'.configs a = 100 := by have := configuredRate_le r'.configs a; omega
      rw [card_executingDraws, card_executingDraws, h, h']

/-- An action configured to be executed one time in ten is executed nine times in ten. -/
theorem classifyOne_rate_ten :
    let action : Action := ⟨1, "message_sent", 0⟩
    let runner : RulesRunner Unit :=
      ⟨⟨Lib.Dict.empty.set "message_sent" ⟨10, by decide⟩⟩, fun _ => .ok (), fun _ => .ok ()⟩
    configuredRate runner.configs action = 10 ∧ (executingDraws runner action).card = 90 := by
  intro action runner
  have hrate : configuredRate runner.configs action = 10 := rfl
  exact ⟨hrate, by rw [card_executingDraws, hrate]; rfl⟩

end Osprey.RulesSink
