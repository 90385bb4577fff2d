/-
How an update of the rules reaches the engine: `ReadOnlyEtcdDict` watches the
key, `EtcdSourcesProvider` pauses the input streams and builds the `Sources`,
`OspreyEngine` compiles them and dispatches their config, and the streams are
resumed.

Only the compilation is protected. An exception anywhere else on the way
leaves the loop that watches the key: its greenlet ends, and what comes after
in `_notify_watcher`, the resuming of the streams, is not done.
-/
import Mathlib.Data.List.Infix
import Mathlib.Data.List.Lex
import Mathlib.Data.List.Sort
import Osprey.Engine.Basic
import Osprey.Lib.Raise

namespace Osprey.SourcesProvider

open Lib Lib.Raise

/-! ## Sources -/

/-- A Python string, by its code points: unlike a `String` it may hold a lone surrogate. -/
abbrev PyStr := List Nat

def ofString (s : String) : PyStr := s.toList.map Char.toNat

/-- `s.encode('utf-8')`, as far as it raises; the bytes stand for the code points. -/
def encode (s : PyStr) : Except Exc PyStr :=
  if s.any fun c => 0xD800 ≤ c && c ≤ 0xDFFF then .error ⟨.other, "surrogates not allowed"⟩ else .ok s

/-- A value in the dictionary of sources: a text, or whatever else JSON can hold. -/
inductive Contents
  | text (s : PyStr)
  | other (truthy : Bool)
  deriving DecidableEq, Repr

def Contents.truthy : Contents → Bool
  | .text s => !s.isEmpty
  | .other truthy => truthy

/-- `contents.encode('utf-8')`; only texts have the method. -/
def Contents.encode : Contents → Except Exc PyStr
  | .text s => SourcesProvider.encode s
  | .other _ => .error ⟨.other, "encode"⟩

structure Source where
  path : PyStr
  contents : Contents
  deriving DecidableEq, Repr

/-- What `json.loads` returns: an object, with its entries in order, or something else. -/
inductive Loaded
  | dict (entries : List (PyStr × Contents))
  | other
  deriving DecidableEq, Repr

def sourceEntryPointPath : PyStr := ofString "main.sml"

def configPath : PyStr := ofString "config.yaml"

section

variable {κ γ μ : Type}

structure SourcesConfig (κ : Type) where
  sources : List Source
  config : κ

structure Sources (κ : Type) where
  sources : List Source
  config : SourcesConfig κ
  hasEntryPoint : sourceEntryPointPath ∈ sources.map Source.path

/-- What the updates of the rules depend on: configs are `κ`, execution graphs `γ`, parsed subkeys `μ`. -/
structure Env (κ γ μ : Type) where
  /-- `json.loads(str(event.value))`. -/
  loads : String → Except Exc Loaded
  emptyConfig : κ
  /-- A config that is not empty: YAML, a dictionary, with keys that are strings. -/
  parseConfig : Source → Except Exc κ
  /-- `validate_sources`, then `compile_execution_graph`. -/
  compile : Sources κ → Except Exc γ
  /-- `ConfigSubkeyHandler._parse_new_config`. -/
  parseNewConfig : κ → Except Exc μ
  /-- The callbacks that watch config subkeys, in the order they are dispatched to. -/
  callbacks : List (μ → Except Exc Unit)
  /-- `BaseValidationResultExporter.send`. -/
  send : γ → Except Exc Unit
  /-- The provider was given an `InputStreamReadySignaler`. -/
  hasSignaler : Bool

/-- `SourcesConfig.__init__`, of one source. -/
def SourcesConfig.ofSource (env : Env κ γ μ) (source : Source) : Except Exc (SourcesConfig κ) :=
  if source.contents.truthy then (env.parseConfig source).map fun config => ⟨[source], config⟩
  else .ok ⟨[source], env.emptyConfig⟩

structure SourcesBuilder (κ : Type) where
  sources : List Source := []
  config : Option (SourcesConfig κ) := none

def SourcesBuilder.addSource (builder : SourcesBuilder κ) (source : Source) : Except Exc (SourcesBuilder κ) :=
  if source.path ∈ builder.sources.map Source.path then
    .error ⟨.assertionError, "A source with that path already exists."⟩
  else if ¬ofString ".sml" <:+ source.path then
    .error ⟨.assertionError, "Source does not end with .sml"⟩
  else .ok { builder with sources := builder.sources ++ [source] }

/-- `SourcesBuilder.add_config`, of one source. -/
def SourcesBuilder.addConfig (env : Env κ γ μ) (builder : SourcesBuilder κ) (source : Source) :
    Except Exc (SourcesBuilder κ) :=
  if builder.config.isSome then .error ⟨.valueError, "A configuration already exists for this builder."⟩
  else if ¬ofString ".yaml" <:+ source.path then .error ⟨.assertionError, "Config does not end with .yaml"⟩
  else (SourcesConfig.ofSource env source).map fun config => { builder with config := some config }

/-- `SourcesBuilder.build`, and the assertion of `Sources.__init__`. -/
def SourcesBuilder.build (env : Env κ γ μ) (builder : SourcesBuilder κ) : Except Exc (Sources κ) :=
  if h : sourceEntryPointPath ∈ builder.sources.map Source.path then
    .ok ⟨builder.sources, builder.config.getD ⟨[⟨configPath, .text []⟩], env.emptyConfig⟩, h⟩
  else .error ⟨.assertionError,
    "Sources requires a file with the `path` 'main.sml' to be present as the entry-point"⟩

def Sources.fromDict (env : Env κ γ μ) : Loaded → Except Exc (Sources κ)
  | .other => .error ⟨.other, "items"⟩
  | .dict entries => do
    let builder ← entries.foldlM (fun (builder : SourcesBuilder κ) (path, contents) =>
      if path = configPath then builder.addConfig env ⟨path, contents⟩
      else builder.addSource ⟨path, contents⟩) {}
    builder.build env

/-- `Sources.hash`, up to the digest: what is fed to the hasher. -/
def Sources.hash (s : Sources κ) : Except Exc PyStr := do
  let sources := s.sources.insertionSort fun a b => a.path ≤ b.path
  let sources := if s.config.sources.any (·.contents.truthy) then s.config.sources ++ sources else sources
  sources.foldlM (fun fed source => do
    return fed ++ (← encode source.path) ++ ofString "|" ++ (← source.contents.encode)) []

/-! ## The worker -/

/-- The parts of a worker that an update touches. -/
structure Worker (κ γ μ : Type) where
  /-- The input streams are told to pause. -/
  paused : Bool
  /-- The greenlet that watches the key is running. -/
  watching : Bool
  /-- `EtcdSourcesProvider._current_sources`. -/
  currentSources : Sources κ
  /-- `OspreyEngine._execution_graph`. -/
  executionGraph : γ
  /-- The sources that the execution graph was compiled from. -/
  validatedSources : Sources κ
  /-- `ConfigSubkeyHandler._known_good_parsed_config`. -/
  knownGoodParsedConfig : μ

/-- Code that changes the worker and may raise; what was changed before stays changed. -/
abbrev WorkerM (κ γ μ : Type) := Raise Exc (Worker κ γ μ)

def dispatchConfig (env : Env κ γ μ) : WorkerM κ γ μ Unit := do
  let parsed ← result (env.parseNewConfig (← get).validatedSources.config.config)
  modify fun w => { w with knownGoodParsedConfig := parsed }
  env.callbacks.forM fun callback => result (callback parsed)

def logHash : WorkerM κ γ μ Unit := do
  let _ ← result (← get).currentSources.hash

/-- The first half of `_handle_updated_sources`: whether the current sources compiled. -/
def tryCompile (env : Env κ γ μ) : WorkerM κ γ μ Bool :=
  tryCatch (do
    let graph ← result (env.compile (← get).currentSources)
    modify fun w => { w with executionGraph := graph, validatedSources := w.currentSources }
    logHash
    return true) fun _ => do
      logHash
      return false

/-- The export of the validation results, "should not block osprey_engine if this fails". -/
def trySend (env : Env κ γ μ) : WorkerM κ γ μ Unit :=
  tryCatch (do result (env.send (← get).executionGraph)) fun _ => logHash

def handleUpdatedSources (env : Env κ γ μ) : WorkerM κ γ μ Unit := do
  if ← tryCompile env then dispatchConfig env
  trySend env

/-- `pause_input_stream` and `resume_input_stream`, if there is a signaler. -/
def setPaused (env : Env κ γ μ) (paused : Bool) : WorkerM κ γ μ Unit :=
  modify fun w => if env.hasSignaler then { w with paused := paused } else w

/-- `EtcdSourcesProvider._notify_watcher`, once the engine has set its callback. -/
def notifyWatcher (env : Env κ γ μ) (sourcesDict : Loaded) : WorkerM κ γ μ Unit := do
  setPaused env true
  let sources ← result (Sources.fromDict env sourcesDict)
  modify fun w => { w with currentSources := sources }
  handleUpdatedSources env
  setPaused env false

/-- An event of the watch on the key. The kinds that are not about a single key are ignored. -/
inductive Event
  | fullSyncOne (value : String)
  | fullSyncOneNoKey
  | other
  deriving DecidableEq, Repr

def handleEvent (env : Env κ γ μ) : Event → WorkerM κ γ μ Unit
  | .fullSyncOne value => do notifyWatcher env (← result (env.loads value))
  | .fullSyncOneNoKey => notifyWatcher env (.dict [])
  | .other => return

/-- One turn of `ReadOnlyEtcdDict._loop`: an exception ends the greenlet. -/
def loop (env : Env κ γ μ) (w : Worker κ γ μ) (event : Event) : Worker κ γ μ :=
  if w.watching then
    match (handleEvent env event).run w with
    | (.ok (), w') => w'
    | (.error _, w') => { w' with watching := false }
  else w

def run (env : Env κ γ μ) (w : Worker κ γ μ) (events : List Event) : Worker κ γ μ := events.foldl (loop env) w

/-! ## What an event holds -/

/-- The sources that an event holds, if it is about the key. -/
def Event.sources (env : Env κ γ μ) : Event → Option (Except Exc (Sources κ))
  | .fullSyncOne value => some (env.loads value >>= Sources.fromDict env)
  | .fullSyncOneNoKey => some (Sources.fromDict env (.dict []))
  | .other => none

/-- The config of the sources parses, and no callback raises on it. -/
def Dispatches (env : Env κ γ μ) (s : Sources κ) : Prop :=
  ∃ parsed, env.parseNewConfig s.config.config = .ok parsed ∧ ∀ callback ∈ env.callbacks, callback parsed = .ok ()

/-- Sources that can be hashed and, if they validate, dispatched. -/
def Handled (env : Env κ γ μ) (s : Sources κ) : Prop :=
  (∃ fed, s.hash = .ok fed) ∧ ∀ graph, env.compile s = .ok graph → Dispatches env s

/-- An event that does not raise: the value is a JSON object of sources with an entry point and a config that
parses, they can be hashed, and no callback raises on their config if they validate. -/
def Fine (env : Env κ γ μ) (event : Event) : Prop :=
  ∀ result, event.sources env = some result → ∃ s, result = .ok s ∧ Handled env s

/-- The last sources that validated, and their graph. -/
def lastValidated (env : Env κ γ μ) (last : Sources κ × γ) (event : Event) : Sources κ × γ :=
  match event.sources env with
  | some (.ok s) => match env.compile s with
    | .ok graph => (s, graph)
    | .error _ => last
  | _ => last

/-- The worker goes on: the streams are not paused, the key is watched, and the engine executes the graph of the
last sources that validated. -/
structure Healthy (w : Worker κ γ μ) (last : Sources κ × γ) : Prop where
  notPaused : w.paused = false
  watching : w.watching = true
  validated : w.validatedSources = last.1
  executes : w.executionGraph = last.2

/-! ## One update -/

/-- A dispatch raises, or leaves the worker with the parsed config of its validated sources. -/
theorem dispatchConfig_run (env : Env κ γ μ) (w : Worker κ γ μ) :
    ∃ r parsed, (dispatchConfig env).run w = (r, { w with knownGoodParsedConfig := parsed }) ∧
      (r = .ok () ↔ Dispatches env w.validatedSources) := by
  unfold dispatchConfig
  rw [run_bind_ok (run_get w)]
  cases hparse : env.parseNewConfig w.validatedSources.config.config with
  | error e =>
    refine ⟨.error e, w.knownGoodParsedConfig, ?_, by simp [Dispatches, hparse]⟩
    exact run_bind_error rfl _
  | ok parsed =>
    obtain ⟨r, hr, hiff⟩ := run_forM_result env.callbacks (fun callback => callback parsed)
      { w with knownGoodParsedConfig := parsed }
    refine ⟨r, parsed, ?_, by simp [Dispatches, hparse, hiff]⟩
    rw [run_bind_ok (run_result w _), run_bind_ok (run_modify w _)]
    exact hr

variable {w : Worker κ γ μ} {env : Env κ γ μ}

theorem dispatchConfig_ok {parsed} (hparse : env.parseNewConfig w.validatedSources.config.config = .ok parsed)
    (hcallbacks : ∀ callback ∈ env.callbacks, callback parsed = .ok ()) :
    (dispatchConfig env).run w = (.ok (), { w with knownGoodParsedConfig := parsed }) := by
  obtain ⟨r, hr, hiff⟩ := run_forM_result env.callbacks (fun callback => callback parsed)
    { w with knownGoodParsedConfig := parsed }
  unfold dispatchConfig
  rw [run_bind_ok (run_get w), hparse, run_bind_ok (run_result w _), run_bind_ok (run_modify w _)]
  exact hr.trans (by rw [hiff.mpr hcallbacks])

theorem logHash_run (w : Worker κ γ μ) :
    ∃ r, logHash.run w = (r, w) ∧ (r = .ok () ↔ ∃ fed, w.currentSources.hash = .ok fed) := by
  unfold logHash
  rw [run_bind_ok (run_get w)]
  cases hhash : w.currentSources.hash with
  | error e => exact ⟨.error e, run_bind_error rfl _, by simp⟩
  | ok fed => exact ⟨.ok (), run_bind_ok rfl _, by simp⟩

theorem logHash_ok (h : ∃ fed, w.currentSources.hash = .ok fed) : logHash.run w = (.ok (), w) := by
  obtain ⟨r, hr, hiff⟩ := logHash_run w
  rw [hr, hiff.mpr h]

theorem trySend_run (env : Env κ γ μ) (h : ∃ fed, w.currentSources.hash = .ok fed) :
    (trySend env).run w = (.ok (), w) := by
  have hsend : (do result (env.send (← get).executionGraph) : WorkerM κ γ μ Unit).run w =
      (env.send w.executionGraph, w) := run_bind_ok (run_get w) _
  unfold trySend
  cases hs : env.send w.executionGraph with
  | ok u => exact run_tryCatch_ok (hsend.trans (by rw [hs])) _
  | error e => exact (run_tryCatch_error (hsend.trans (by rw [hs])) _).trans (logHash_ok h)

/-- The worker once its current sources compiled. -/
def Worker.compiled (w : Worker κ γ μ) (graph : γ) : Worker κ γ μ :=
  { w with executionGraph := graph, validatedSources := w.currentSources }

theorem tryCompile_ok {graph} (h : env.compile w.currentSources = .ok graph) :
    ∃ r, (tryCompile env).run w = (r, w.compiled graph) ∧
      (r = .ok true ∧ (∃ fed, w.currentSources.hash = .ok fed) ∨
        (∃ e, r = .error e) ∧ ¬∃ fed, w.currentSources.hash = .ok fed) := by
  unfold tryCompile
  obtain ⟨r, hr, hiff⟩ := logHash_run (w.compiled graph)
  have hstart : ∀ rest : WorkerM κ γ μ Bool,
      (do let graph ← result (env.compile (← get).currentSources)
          modify fun w => { w with executionGraph := graph, validatedSources := w.currentSources }
          rest : WorkerM κ γ μ Bool).run w = rest.run (w.compiled graph) := by
    intro rest
    rw [run_bind_ok (run_get w), h, run_bind_ok (run_result w _), run_bind_ok (run_modify w _)]
    rfl
  cases r with
  | ok u =>
    refine ⟨.ok true, ?_, .inl ⟨rfl, hiff.mp rfl⟩⟩
    exact run_tryCatch_ok ((hstart _).trans (run_bind_ok hr _)) _
  | error e =>
    refine ⟨.error e, ?_, .inr ⟨⟨e, rfl⟩, fun hash => by cases hiff.mpr hash⟩⟩
    rw [run_tryCatch_error ((hstart _).trans (run_bind_error hr _)) _]
    exact run_bind_error hr _

theorem tryCompile_error {e} (h : env.compile w.currentSources = .error e) :
    ∃ r, (tryCompile env).run w = (r, w) ∧
      (r = .ok false ∧ (∃ fed, w.currentSources.hash = .ok fed) ∨
        (∃ e, r = .error e) ∧ ¬∃ fed, w.currentSources.hash = .ok fed) := by
  unfold tryCompile
  obtain ⟨r, hr, hiff⟩ := logHash_run w
  have hstart : ∀ rest : γ → WorkerM κ γ μ Bool,
      (do let graph ← result (env.compile (← get).currentSources); rest graph : WorkerM κ γ μ Bool).run w =
        (.error e, w) := by
    intro rest
    rw [run_bind_ok (run_get w), h]
    exact run_bind_error (run_result w _) _
  rw [run_tryCatch_error (hstart _) _]
  cases r with
  | ok u => exact ⟨.ok false, run_bind_ok hr _, .inl ⟨rfl, hiff.mp rfl⟩⟩
  | error e => exact ⟨.error e, run_bind_error hr _, .inr ⟨⟨e, rfl⟩, fun hash => by cases hiff.mpr hash⟩⟩

def Worker.executed (w : Worker κ γ μ) : Sources κ × γ := (w.validatedSources, w.executionGraph)

/-- What is executed after an update to `s`: the graph of `s` if it compiles. -/
def updated (env : Env κ γ μ) (last : Sources κ × γ) (s : Sources κ) : Sources κ × γ :=
  match env.compile s with
  | .ok graph => (s, graph)
  | .error _ => last

variable (env)

/-- An update returns when the sources are handled; the engine has switched to them if they compile, whether or
not it returns. -/
theorem handleUpdatedSources_run (w : Worker κ γ μ) :
    ∃ r w', (handleUpdatedSources env).run w = (r, w') ∧ (r = .ok () ↔ Handled env w.currentSources) ∧
      w'.paused = w.paused ∧ w'.watching = w.watching ∧ w'.executed = updated env w.executed w.currentSources := by
  unfold handleUpdatedSources
  cases hcompile : env.compile w.currentSources with
  | error e =>
    obtain ⟨r, hr, ⟨rfl, hash⟩ | ⟨⟨e', rfl⟩, hash⟩⟩ := tryCompile_error hcompile
    · refine ⟨.ok (), w, ?_, by simp [Handled, hcompile, hash], rfl, rfl, by simp [updated, hcompile]⟩
      rw [run_bind_ok hr]
      exact trySend_run env hash
    · exact ⟨.error e', w, run_bind_error hr _, by simp [Handled, hash], rfl, rfl, by simp [updated, hcompile]⟩
  | ok graph =>
    obtain ⟨r, hr, ⟨rfl, hash⟩ | ⟨⟨e', rfl⟩, hash⟩⟩ := tryCompile_ok hcompile
    · obtain ⟨r, parsed, hdispatch, hiff⟩ := dispatchConfig_run env (w.compiled graph)
      have hiff' : r = .ok () ↔ Handled env w.currentSources :=
        hiff.trans ⟨fun h => ⟨hash, fun _ _ => h⟩, fun h => h.2 graph hcompile⟩
      refine ⟨r, { w.compiled graph with knownGoodParsedConfig := parsed }, ?_, hiff', rfl, rfl,
        by simp [updated, hcompile, Worker.executed, Worker.compiled]⟩
      rw [run_bind_ok hr]
      cases r with
      | ok u => exact (run_bind_ok hdispatch _).trans (trySend_run env hash)
      | error e => exact run_bind_error hdispatch _
    · exact ⟨.error e', w.compiled graph, run_bind_error hr _, by simp [Handled, hash], rfl, rfl,
        by simp [updated, hcompile, Worker.executed, Worker.compiled]⟩

/-! ## One event -/

theorem setPaused_run (paused : Bool) (w : Worker κ γ μ) :
    (setPaused env paused).run w = (.ok (), if env.hasSignaler then { w with paused := paused } else w) := rfl

theorem notifyWatcher_run (sourcesDict : Loaded) (w : Worker κ γ μ) :
    ∃ r w', (notifyWatcher env sourcesDict).run w = (r, w') ∧
      (r = .ok () ↔ ∃ s, Sources.fromDict env sourcesDict = .ok s ∧ Handled env s) ∧
      (r = .ok () → w.paused = false → w'.paused = false) ∧ w'.watching = w.watching ∧
      w'.executed = match Sources.fromDict env sourcesDict with
        | .ok s => updated env w.executed s
        | .error _ => w.executed := by
  unfold notifyWatcher
  rw [run_bind_ok (setPaused_run env true w)]
  generalize hpaused : (if env.hasSignaler then { w with paused := true } else w) = w₁
  have hw₁ : w₁.watching = w.watching ∧ w₁.executed = w.executed := by
    subst hpaused
    cases env.hasSignaler <;> exact ⟨rfl, rfl⟩
  cases hsources : Sources.fromDict env sourcesDict with
  | error e =>
    refine ⟨.error e, w₁, run_bind_error (run_result w₁ _) _, by simp, fun h => (by cases h), hw₁.1, hw₁.2⟩
  | ok s =>
    rw [run_bind_ok (run_result w₁ _), run_bind_ok (run_modify w₁ _)]
    obtain ⟨r, w₂, hr, hiff, hpaused₂, hwatching, hexecuted⟩ :=
      handleUpdatedSources_run env { w₁ with currentSources := s }
    have hwatching₂ : w₂.watching = w.watching := hwatching.trans hw₁.1
    have hexecuted₂ : w₂.executed = updated env w.executed s := by
      rw [hexecuted, ← hw₁.2]
      rfl
    cases r with
    | error e =>
      exact ⟨.error e, w₂, run_bind_error hr _, by simpa using hiff, fun h => (by cases h), hwatching₂, hexecuted₂⟩
    | ok u =>
      refine ⟨.ok (), _, (run_bind_ok hr _).trans (setPaused_run env false w₂), by simpa using hiff, fun _ hw => ?_,
        ?_, ?_⟩
      · cases hsignaler : env.hasSignaler with
        | true => rfl
        | false =>
          subst hpaused
          simpa [hsignaler, hw] using hpaused₂
      · cases env.hasSignaler <;> exact hwatching₂
      · cases env.hasSignaler <;> exact hexecuted₂

theorem lastValidated_eq (last : Sources κ × γ) (event : Event) :
    lastValidated env last event = match event.sources env with
      | some (.ok s) => updated env last s
      | _ => last := by
  unfold lastValidated updated
  rfl

/-- An event returns when it is fine; the engine has switched to its sources if they compile. -/
theorem handleEvent_run (event : Event) (w : Worker κ γ μ) :
    ∃ r w', (handleEvent env event).run w = (r, w') ∧ (r = .ok () ↔ Fine env event) ∧
      (r = .ok () → w.paused = false → w'.paused = false) ∧ w'.watching = w.watching ∧
      w'.executed = lastValidated env w.executed event := by
  rw [lastValidated_eq]
  cases event with
  | fullSyncOne value =>
    cases hloads : env.loads value with
    | error e =>
      refine ⟨.error e, w, ?_, by simp [Fine, Event.sources, hloads], fun h => (by cases h), rfl,
        by simp [Event.sources, hloads]⟩
      rw [handleEvent, hloads]
      exact run_bind_error (run_result w _) _
    | ok sourcesDict =>
      obtain ⟨r, w', hr, hiff, hpaused, hwatching, hexecuted⟩ := notifyWatcher_run env sourcesDict w
      refine ⟨r, w', ?_, ?_, hpaused, hwatching, ?_⟩
      · rw [handleEvent, hloads]
        exact (run_bind_ok (run_result w _) _).trans hr
      · simpa [Fine, Event.sources, hloads] using hiff
      · rw [hexecuted]
        simp only [Event.sources, hloads, ok_bind]
        cases Sources.fromDict env sourcesDict <;> rfl
  | fullSyncOneNoKey =>
    obtain ⟨r, w', hr, hiff, hpaused, hwatching, hexecuted⟩ := notifyWatcher_run env (.dict []) w
    refine ⟨r, w', hr, by simpa [Fine, Event.sources] using hiff, hpaused, hwatching, ?_⟩
    rw [hexecuted, Event.sources]
    cases Sources.fromDict env (.dict []) <;> rfl
  | other => exact ⟨.ok (), w, rfl, by simp [Fine, Event.sources], fun _ h => h, rfl, rfl⟩

variable {env}

theorem Healthy.loop {last} (h : Healthy w last) {event}
    (hfine : Fine env event) : Healthy (loop env w event) (lastValidated env last event) := by
  have hlast : w.executed = last := Prod.ext h.validated h.executes
  obtain ⟨r, w', hr, hiff, hpaused, hwatching, hexecuted⟩ := handleEvent_run env event w
  obtain rfl := hiff.mpr hfine
  rw [SourcesProvider.loop, if_pos h.watching, hr, ← hlast, ← hexecuted]
  exact ⟨hpaused rfl h.notPaused, hwatching.trans h.watching, rfl, rfl⟩

theorem not_watching_loop {event} (hfine : ¬Fine env event) : (loop env w event).watching = false := by
  obtain ⟨r, w', hr, hiff, -, -, -⟩ := handleEvent_run env event w
  unfold loop
  cases hwatching : w.watching with
  | false => simpa using hwatching
  | true =>
    rw [if_pos rfl, hr]
    cases r with
    | error e => rfl
    | ok u => exact absurd (hiff.mp rfl) hfine

/-! ## All events -/

/-- **A worker survives exactly the events that are fine.** From a healthy worker, and for every sequence of
events: after each event the streams are not paused, the key is watched, and the engine executes the last sources
that validated, if and only if every event is fine. -/
theorem healthy_after_each_iff {env : Env κ γ μ} {w : Worker κ γ μ} {last : Sources κ × γ} (h : Healthy w last)
    (events : List Event) :
    (∀ handled, handled <+: events → Healthy (run env w handled) (handled.foldl (lastValidated env) last)) ↔
      ∀ event ∈ events, Fine env event := by
  induction events generalizing w last with
  | nil => simpa [run] using h
  | cons event events ih =>
    by_cases hfine : Fine env event
    · rw [List.forall_mem_cons, ← ih (h.loop hfine)]
      refine ⟨fun hall => ⟨hfine, fun handled hpre => hall (event :: handled) ?_⟩, fun ⟨_, hall⟩ handled hpre => ?_⟩
      · exact List.cons_prefix_cons.mpr ⟨rfl, hpre⟩
      · cases handled with
        | nil => exact h
        | cons event' handled =>
          obtain ⟨heq, hrest⟩ := List.cons_prefix_cons.mp hpre
          subst heq
          exact hall handled hrest
    · -- the greenlet has ended after the first event that is not fine
      refine iff_of_false (fun hall => ?_) fun hall => hfine (hall event List.mem_cons_self)
      have hwatching := (hall [event] (List.cons_prefix_cons.mpr ⟨rfl, List.nil_prefix⟩)).watching
      rw [run, List.foldl_cons, List.foldl_nil, not_watching_loop hfine] at hwatching
      cases hwatching

end

/-! ## A key that is deleted -/

/-- A worker for which every value holds one valid file, `main.sml`. -/
def mainOnly : Env Unit Unit Unit where
  loads _ := .ok (.dict [(sourceEntryPointPath, .text [])])
  emptyConfig := ()
  parseConfig _ := .ok ()
  compile _ := .ok ()
  parseNewConfig _ := .ok ()
  callbacks := []
  send _ := .ok ()
  hasSignaler := true

def mainSources : Sources Unit :=
  ⟨[⟨sourceEntryPointPath, .text []⟩], ⟨[⟨configPath, .text []⟩], ()⟩, by decide⟩

def started : Worker Unit Unit Unit := ⟨false, true, mainSources, (), mainSources, ()⟩

theorem healthy_after_valid_update :
    Healthy started (mainSources, ()) ∧
      ∀ handled, handled <+: [.fullSyncOne "", .other] →
        Healthy (run mainOnly started handled) (handled.foldl (lastValidated mainOnly) (mainSources, ())) := by
  have hstarted : Healthy started (mainSources, ()) := ⟨rfl, rfl, rfl, rfl⟩
  have hsources : Sources.fromDict mainOnly (.dict [(sourceEntryPointPath, .text [])]) = .ok mainSources := rfl
  have hhandled : Handled mainOnly mainSources := by
    refine ⟨⟨_, rfl⟩, fun _ _ => ⟨(), rfl, ?_⟩⟩
    intro callback hcallback
    cases hcallback
  refine ⟨hstarted, (healthy_after_each_iff hstarted _).mpr fun event hevent => ?_⟩
  intro result hresult
  rcases List.mem_cons.mp hevent with rfl | hevent
  · cases hresult
    exact ⟨mainSources, hsources, hhandled⟩
  · cases List.mem_singleton.mp hevent
    cases hresult

/-- The key is deleted and then set again: the streams stay paused, nobody watches the key, and the new value is
not looked at. -/
theorem deletion_ends_the_watch :
    Healthy started (mainSources, ()) ∧
      ∀ value, (run mainOnly started [.fullSyncOneNoKey, .fullSyncOne value]).paused = true ∧
        (run mainOnly started [.fullSyncOneNoKey, .fullSyncOne value]).watching = false :=
  ⟨⟨rfl, rfl, rfl, rfl⟩, fun _ => ⟨rfl, rfl⟩⟩

end Osprey.SourcesProvider
