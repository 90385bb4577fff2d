/-
The start of an engine while the rules change.

`EtcdSourcesProvider` watches the key from the moment it is built.
`OspreyEngine` then compiles its first graph in a thread, during which other
greenlets run, and sets its callback afterwards. The steps below are the
stretches between the points where a greenlet may be switched out; a run is
any interleaving of them with updates of the key, and with the loss of
events that the store has cleared. It starts when the provider has loaded
the key.
-/
import Osprey.Lib.Run
import Osprey.Worker.SourcesProvider

namespace Osprey.EngineStartup

open Lib Lib.Raise SourcesProvider

variable {κ γ μ : Type}

/-! ## Updates that are valid -/

/-- A value of the key that is loaded, validates and is dispatched, with what becomes of it. -/
structure ValidValue (env : Env κ γ μ) where
  value : String
  sources : Sources κ
  graph : γ
  parsed : μ
  loads : env.loads value >>= Sources.fromDict env = .ok sources
  compiles : env.compile sources = .ok graph
  hashes : ∃ fed, sources.hash = .ok fed
  parses : env.parseNewConfig sources.config.config = .ok parsed
  dispatches : ∀ callback ∈ env.callbacks, callback parsed = .ok ()

/-- What the engine has of a value: its execution graph and its config subkeys. -/
def ValidValue.engine {env : Env κ γ μ} (v : ValidValue env) : γ × μ := (v.graph, v.parsed)

theorem ValidValue.eq_of_value {env : Env κ γ μ} {v w : ValidValue env} (h : v.value = w.value) : v = w := by
  obtain ⟨value, sources, graph, parsed, hloads, hcompiles, _, hparses, _⟩ := v
  obtain ⟨value', sources', graph', parsed', hloads', hcompiles', _, hparses', _⟩ := w
  change value = value' at h
  subst h
  cases hloads.symm.trans hloads'
  cases hcompiles.symm.trans hcompiles'
  cases hparses.symm.trans hparses'
  rfl

theorem ValidValue.handleUpdatedSources_run {env} (v : ValidValue env) {w : Worker κ γ μ}
    (hcurrent : w.currentSources = v.sources) :
    (handleUpdatedSources env).run w = (.ok (),
      { w with executionGraph := v.graph, validatedSources := v.sources, knownGoodParsedConfig := v.parsed }) := by
  have hcompile : env.compile w.currentSources = .ok v.graph := hcurrent ▸ v.compiles
  have hhash : ∃ fed, w.currentSources.hash = .ok fed := hcurrent ▸ v.hashes
  obtain ⟨r, hr, ⟨rfl, -⟩ | ⟨-, hnot⟩⟩ := tryCompile_ok hcompile
  · have hparse : env.parseNewConfig (w.compiled v.graph).validatedSources.config.config = .ok v.parsed := by
      rw [Worker.compiled, hcurrent]
      exact v.parses
    have hsend : (trySend env).run { w.compiled v.graph with knownGoodParsedConfig := v.parsed } =
        (.ok (), { w.compiled v.graph with knownGoodParsedConfig := v.parsed }) := trySend_run env hhash
    unfold handleUpdatedSources
    rw [run_bind_ok hr]
    refine (run_bind_ok (dispatchConfig_ok hparse v.dispatches) _).trans (hsend.trans ?_)
    rw [Worker.compiled, hcurrent]
  · exact absurd hhash hnot

/-! ## Greenlets -/

inductive Main (env : Env κ γ μ)
  /-- The first compilation is submitted to the thread pool. -/
  | submitted
  /-- The thread has read the sources of the value and compiles them. -/
  | compiling (read : ValidValue env)
  /-- The engine has its first graph, made of `read`, and has set its callback, when the current sources were
  those of `registered`. -/
  | started (read registered : ValidValue env)

inductive Watch (env : Env κ γ μ)
  | idle
  /-- `pause_input_stream` and `wait_for_input_stream_to_pause`, before the sources are built. -/
  | pausing (v : ValidValue env)
  /-- The callback has submitted a compilation. -/
  | submitted
  | compiling (read : ValidValue env)

structure State (env : Env κ γ μ) where
  /-- The value under the key. -/
  stored : ValidValue env
  /-- The events of the watch that are not handled yet. -/
  pending : List (ValidValue env)
  /-- `_prev_event` of the `WatchMux`. -/
  prevEvent : String
  /-- The value that `_current_sources` was built from. -/
  current : ValidValue env
  main : Main env
  watch : Watch env
  /-- The graph and the config of the engine. -/
  engine : Option (γ × μ)
  /-- The callback was called since it was set. -/
  updated : Bool

def State.init {env : Env κ γ μ} (v : ValidValue env) : State env :=
  ⟨v, [], v.value, v, .submitted, .idle, none, false⟩

inductive Label (env : Env κ γ μ)
  | put (v : ValidValue env)
  | resync
  | read
  | construct
  | take
  | apply
  | readUpdate
  | finishUpdate

/-- The steps of the greenlets and of their threads, and the updates of the key. -/
inductive Step {env : Env κ γ μ} : State env → Label env → State env → Prop
  | put {s : State env} (v : ValidValue env) :
      Step s (.put v) { s with stored := v, pending := s.pending ++ [v] }
  -- The store has cleared the events, so the watcher reads the key again.
  | resync {s : State env} : s.watch = .idle → Step s .resync { s with pending := [s.stored] }
  | read {s : State env} : s.main = .submitted → Step s .read { s with main := .compiling s.current }
  | construct {s : State env} {v : ValidValue env} : s.main = .compiling v →
      Step s .construct { s with main := .started v s.current, engine := some v.engine }
  | take {s : State env} {v : ValidValue env} {rest : List (ValidValue env)} : s.watch = .idle →
      s.pending = v :: rest → v.value ≠ s.prevEvent →
      Step s .take { s with pending := rest, prevEvent := v.value, watch := .pausing v }
  -- `dedupe_event` drops an event that equals the one before.
  | takeDuplicate {s : State env} {v : ValidValue env} {rest : List (ValidValue env)} : s.watch = .idle →
      s.pending = v :: rest → v.value = s.prevEvent → Step s .take { s with pending := rest }
  | applyUnwatched {s : State env} {v : ValidValue env} : s.watch = .pausing v →
      (∀ read registered, s.main ≠ .started read registered) →
      Step s .apply { s with current := v, watch := .idle }
  | applyWatched {s : State env} {v read registered : ValidValue env} : s.watch = .pausing v →
      s.main = .started read registered →
      Step s .apply { s with current := v, watch := .submitted, updated := true }
  | readUpdate {s : State env} : s.watch = .submitted →
      Step s .readUpdate { s with watch := .compiling s.current }
  | finishUpdate {s : State env} {v : ValidValue env} : s.watch = .compiling v →
      Step s .finishUpdate { s with engine := some v.engine, watch := .idle }

/-- The value that is being applied, else the current one. -/
def State.applying {env : Env κ γ μ} (s : State env) : ValidValue env :=
  match s.watch with
  | .pausing v => v
  | _ => s.current

/-- The worker of a state in which the engine has its first graph. -/
def State.worker {env : Env κ γ μ} (s : State env) (engine : γ × μ) (validated : Sources κ) : Worker κ γ μ :=
  ⟨false, true, s.current.sources, engine.1, validated, engine.2⟩

/-- The steps that follow the setting of the current sources are `_handle_updated_sources`. -/
theorem update_eq_handleUpdatedSources {env} {s s₁ s₂ : State env}
    (hread : Step s .readUpdate s₁) (hfinish : Step s₁ .finishUpdate s₂) (engine : γ × μ) (validated : Sources κ) :
    ∃ engine', s₂.engine = some engine' ∧
      (handleUpdatedSources env).run (s.worker engine validated) = (.ok (), s₂.worker engine' s.current.sources) := by
  cases hread
  cases hfinish with
  | finishUpdate hwatch =>
    cases hwatch
    exact ⟨_, rfl, s.current.handleUpdatedSources_run rfl⟩

/-- The last value on its way to the provider. -/
def State.latest {env : Env κ γ μ} (s : State env) : ValidValue env := s.pending.getLast?.getD s.applying

/-- What the engine executes, by what it has been told. -/
def State.Consistent {env : Env κ γ μ} (s : State env) : Prop :=
  match s.main, s.updated, s.watch with
  | .started read registered, false, .idle => s.engine = some read.engine ∧ s.current = registered
  | .started read registered, false, .pausing _ => s.engine = some read.engine ∧ s.current = registered
  | .started _ _, true, .idle => s.engine = some s.current.engine
  | .started _ _, true, .pausing _ => s.engine = some s.current.engine
  | .started _ _, true, .submitted => True
  | .started _ _, true, .compiling v => v = s.current
  | .submitted, false, .idle => True
  | .submitted, false, .pausing _ => True
  | .compiling _, false, .idle => True
  | .compiling _, false, .pausing _ => True
  | _, _, _ => False

structure Inv {env : Env κ γ μ} (s : State env) : Prop where
  passed : s.applying.value = s.prevEvent
  latest : s.latest = s.stored
  consistent : s.Consistent

theorem inv_init {env : Env κ γ μ} (v : ValidValue env) : Inv (State.init v) := ⟨rfl, rfl, trivial⟩

theorem Inv.step {env : Env κ γ μ} {s s'} {label : Label env} (h : Inv s) (hstep : Step s label s') :
    Inv s' := by
  obtain ⟨stored, pending, prevEvent, current, main, watch, engine, updated⟩ := s
  obtain ⟨hpassed, hlatest, hcons⟩ := h
  simp only [State.latest] at hlatest
  cases hstep with
  | put v => exact ⟨hpassed, by simp [State.latest], hcons⟩
  | resync => exact ⟨hpassed, rfl, hcons⟩
  | read hmain =>
    cases hmain
    exact ⟨hpassed, hlatest, by cases updated <;> cases watch <;> exact hcons⟩
  | construct hmain =>
    cases hmain
    refine ⟨hpassed, hlatest, ?_⟩
    cases updated with
    | true => cases watch <;> exact hcons.elim
    | false =>
      cases watch with
      | idle => exact ⟨rfl, rfl⟩
      | pausing v => exact ⟨rfl, rfl⟩
      | submitted => exact hcons
      | compiling v => exact hcons
  | take hwatch hpending =>
    cases hwatch
    cases hpending
    exact ⟨rfl, by simpa [State.latest, State.applying, List.getLast?_cons] using hlatest,
      by cases updated <;> cases main <;> exact hcons⟩
  | @takeDuplicate v rest hwatch hpending hsame =>
    cases hwatch
    cases hpending
    -- The value dropped is the one applied last, so nothing newer is lost.
    have hv : v = current := ValidValue.eq_of_value (hsame.trans hpassed.symm)
    exact ⟨hpassed, by simpa [State.latest, State.applying, List.getLast?_cons, hv] using hlatest, hcons⟩
  | applyUnwatched hwatch hmain =>
    cases hwatch
    refine ⟨hpassed, hlatest, ?_⟩
    cases main with
    | submitted => cases updated <;> exact hcons
    | compiling v => cases updated <;> exact hcons
    | started read registered => exact absurd rfl (hmain read registered)
  | applyWatched hwatch hmain =>
    cases hwatch
    cases hmain
    exact ⟨hpassed, hlatest, trivial⟩
  | readUpdate hwatch =>
    cases hwatch
    refine ⟨hpassed, hlatest, ?_⟩
    cases updated with
    | true => cases main <;> first | exact hcons.elim | rfl
    | false => cases main <;> exact hcons.elim
  | finishUpdate hwatch =>
    cases hwatch
    refine ⟨hpassed, hlatest, ?_⟩
    cases updated with
    | true =>
      cases main with
      | started read registered =>
        exact congrArg (fun v => some v.engine) hcons
      | submitted => exact hcons
      | compiling v => exact hcons
    | false => cases main <;> exact hcons.elim

/-! ## Once everything is handled -/

/-- Construction has finished, and every event has been handled. -/
structure Settled {env : Env κ γ μ} (s : State env) (read registered : ValidValue env) : Prop where
  started : s.main = .started read registered
  handled : s.pending = []
  idle : s.watch = .idle

/-- **The newest rules, or the first.** In every run of valid updates and of a starting engine, once construction
has finished and all events are handled, the engine has the graph and the config of the value last stored if and
only if the callback was called since it was set, or the sources that were current when it was set have the graph
and the config of those that the first compilation had read. -/
theorem settled_newest_iff {env : Env κ γ μ} {v : ValidValue env} {labels : List (Label env)} {s : State env}
    (hrun : Run Step (State.init v) labels s) {read registered : ValidValue env}
    (hsettled : Settled s read registered) :
    s.engine = some s.stored.engine ↔ s.updated = true ∨ read.engine = registered.engine := by
  have hinv : Inv s := hrun.invariant (fun _ _ _ h hstep => h.step hstep) (inv_init v)
  obtain ⟨-, hlatest, hcons⟩ := hinv
  obtain ⟨hmain, hpending, hwatch⟩ := hsettled
  have hstored : s.current = s.stored := by
    simpa [State.latest, State.applying, hpending, hwatch] using hlatest
  cases hupdated : s.updated with
  | true =>
    simp only [State.Consistent, hmain, hupdated, hwatch] at hcons
    simp [hcons, hstored]
  | false =>
    simp only [State.Consistent, hmain, hupdated, hwatch] at hcons
    rw [hcons.1, ← hstored, hcons.2]
    simp

/-! ## An update during the first compilation -/

/-- A worker whose graphs are the text of `main.sml`. -/
def textOfMain : Env Unit (List SourcesProvider.Source) Unit where
  loads value := .ok (.dict [(sourceEntryPointPath, .text (ofString value))])
  emptyConfig := ()
  parseConfig _ := .ok ()
  compile s := .ok s.sources
  parseNewConfig _ := .ok ()
  callbacks := []
  send _ := .ok ()
  hasSignaler := true

/-- A `main.sml` with a text of characters that can be encoded. -/
def mainWith (value : String) (h : ∃ fed, encode (ofString value) = .ok fed) : ValidValue textOfMain where
  value := value
  sources := ⟨[⟨sourceEntryPointPath, .text (ofString value)⟩], ⟨[⟨configPath, .text []⟩], ()⟩, by simp⟩
  graph := [⟨sourceEntryPointPath, .text (ofString value)⟩]
  parsed := ()
  loads := rfl
  compiles := rfl
  hashes := by
    obtain ⟨fed, hfed⟩ := h
    exact ⟨_, by simp [Sources.hash, Contents.truthy, Contents.encode, hfed]; rfl⟩
  parses := rfl
  dispatches := fun _ h => by cases h

def oldRules : ValidValue textOfMain := mainWith "A = 1" ⟨_, rfl⟩

def newRules : ValidValue textOfMain := mainWith "A = 2" ⟨_, rfl⟩

theorem newRules_update :
    let s : State textOfMain :=
      ⟨newRules, [], newRules.value, newRules, .started oldRules oldRules, .submitted, some oldRules.engine, true⟩
    ∃ w, (handleUpdatedSources textOfMain).run (s.worker oldRules.engine oldRules.sources) = (.ok (), w) := by
  intro s
  obtain ⟨_, -, hrun⟩ := update_eq_handleUpdatedSources (s := s) (.readUpdate rfl) (.finishUpdate rfl) oldRules.engine
    oldRules.sources
  exact ⟨_, hrun⟩

theorem newest_after_callback :
    ∃ s, Run Step (State.init oldRules)
        [.read, .construct, .put newRules, .take, .apply, .readUpdate, .finishUpdate] s ∧
      Settled s oldRules oldRules ∧ s.engine = some s.stored.engine := by
  let s : State textOfMain :=
    ⟨newRules, [], newRules.value, newRules, .started oldRules oldRules, .idle, some newRules.engine, true⟩
  have hrun : Run Step (State.init oldRules)
      [.read, .construct, .put newRules, .take, .apply, .readUpdate, .finishUpdate] s :=
    .snoc (.snoc (.snoc (.snoc (.snoc (.snoc (.snoc .nil (.read rfl)) (.construct rfl)) (.put newRules))
      (.take rfl rfl (by decide))) (.applyWatched rfl rfl)) (.readUpdate rfl)) (.finishUpdate rfl)
  have hsettled : Settled s oldRules oldRules := ⟨rfl, rfl, rfl⟩
  exact ⟨s, hrun, hsettled, (settled_newest_iff hrun hsettled).mpr (.inl rfl)⟩

/-- The update is applied after the first compilation has read the sources and before the callback is set: the
engine stays on the old rules, and publishing the new ones again does not help. -/
theorem update_during_compilation_lost :
    ∃ s, Run Step (State.init oldRules) [.read, .put newRules, .take, .apply, .construct, .put newRules, .take] s ∧
      Settled s oldRules newRules ∧ s.stored = newRules ∧ s.engine = some oldRules.engine ∧
      s.engine ≠ some s.stored.engine := by
  let s : State textOfMain :=
    ⟨newRules, [], newRules.value, newRules, .started oldRules newRules, .idle, some oldRules.engine, false⟩
  have hrun : Run Step (State.init oldRules)
      [.read, .put newRules, .take, .apply, .construct, .put newRules, .take] s :=
    .snoc (.snoc (.snoc (.snoc (.snoc (.snoc (.snoc .nil (.read rfl)) (.put newRules)) (.take rfl rfl (by decide)))
      (.applyUnwatched rfl (fun _ _ h => by cases h))) (.construct rfl)) (.put newRules)) (.takeDuplicate rfl rfl rfl)
  have hne : oldRules.graph ≠ newRules.graph := by decide
  exact ⟨s, hrun, ⟨rfl, rfl, rfl⟩, rfl, rfl, fun h => hne (congrArg Prod.fst (Option.some.inj h))⟩

end Osprey.EngineStartup
