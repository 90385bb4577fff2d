/-
Executions are confluent. Where the chains of a graph compute functions of
what they depend on, every chain has one value that it can get: chains only
depend on chains before them, so the values are given by recursion. The
sources that come to be enqueued are the least set that has the entry point
and what the chains of its members enqueue. A run whose steps follow these
functions ends with those values for the chains of those sources, whatever
the order in which its greenlets finish and whether there is a pool or not;
and with the outputs that these values make.
-/
import Osprey.Engine.ExecutorResults
import Osprey.Engine.ExecutorCompletion

namespace Osprey.Executor

open Lib (Dict)
open NodeInfos (IsDone)

variable {g : ExecutionGraph} {V : Type}

/-! ## Deterministic chains -/

/-- The results of what a chain depends on. -/
abbrev Dependencies (g : ExecutionGraph) (V : Type) (c : Fin g.size) : Type :=
  (d : Fin g.size) → d ∈ g.dependentOn c → NodeResult V

/-- What the executions of the chains give and which sources they enqueue, as functions of the
results of what they depend on. -/
structure Semantics (g : ExecutionGraph) (V : Type) where
  result : (c : Fin g.size) → Dependencies g V c → NodeResult V
  enqueues : (c : Fin g.size) → Dependencies g V c → List String

namespace Semantics

variable (sem : Semantics g V)

def value (c : Fin g.size) : NodeResult V := sem.result c fun d _ => value d
termination_by c
decreasing_by exact g.dependentOn_lt c d (by assumption)

/-- The sources that a chain enqueues when it has its value. -/
def sources (c : Fin g.size) : List String :=
  (sem.enqueues c fun d _ => sem.value d).filter fun source => (g.statementChains source).isSome

/-- The sources that come to be enqueued. -/
inductive Demanded : String → Prop
  | entryPoint : Demanded g.entryPoint
  | enqueued {source source' : String} {sorted : List (Fin g.size)} {c : Fin g.size} (h : Demanded source)
      (hsorted : g.getSortedDependencyChain source = .ok sorted) (hc : c ∈ sorted)
      (hsource : source' ∈ sem.sources c) :
      Demanded source'

def DemandedChain (c : Fin g.size) : Prop :=
  ∃ source sorted, sem.Demanded source ∧ g.getSortedDependencyChain source = .ok sorted ∧ c ∈ sorted

/-- An execution of the chain may end with the result: it is the chain's, and what the chain enqueues
has been enqueued. -/
def Gives (ctx : ExecutionContext g V) (c : Fin g.size) (r : NodeResult V) : Prop :=
  ∀ dependencies : Dependencies g V c,
    (∀ d hd, ctx.resolvedNodeValues.get? d = some (dependencies d hd)) →
    r = sem.result c dependencies ∧
      ∀ source ∈ sem.enqueues c dependencies, (g.statementChains source).isSome = true → .enqueued source ∈ ctx.trace

def MayEnqueue (ctx : ExecutionContext g V) (c : Fin g.size) (source : String) : Prop :=
  ∀ dependencies : Dependencies g V c,
    (∀ d hd, ctx.resolvedNodeValues.get? d = some (dependencies d hd)) → source ∈ sem.enqueues c dependencies

end Semantics

def State.executingChains (s : State g V) : List (Fin g.size) :=
  s.phase.running ++ (s.greenlets.filter Greenlet.isRunning).flatMap Greenlet.chains

/-- The step follows the functions: the executions that end in it, in a batch or alone, give what the
chains give, and a source is enqueued by a chain that enqueues it. -/
def Semantics.Allows (sem : Semantics g V) (cfg : Config V) (s : State g V) (label : Label V) : Prop :=
  (∀ p ∈ finishing cfg s label, sem.Gives s.context p.1 p.2) ∧
    ∀ source, label = .enqueue source → ∃ c ∈ s.executingChains, sem.MayEnqueue s.context c source

def Semantics.FollowsFrom (sem : Semantics g V) (cfg : Config V) (s : State g V) : List (Label V) → Prop
  | [] => True
  | label :: labels => sem.Allows cfg s label ∧ ∀ s', next cfg s label = .ok s' → sem.FollowsFrom cfg s' labels

def Semantics.Follows (sem : Semantics g V) (cfg : Config V) (labels : List (Label V)) : Prop :=
  ∀ ctx, ExecutionContext.new g V = .ok ctx → sem.FollowsFrom cfg { context := ctx } labels

/-! ## Outputs -/

/-- What `AssignExecutor` uses of an assignment: `should_extract`, and what `resolved` makes of the
value of its right side, which is unwrapped if the node was marked so. -/
structure Extraction (g : ExecutionGraph) (V : Type) where
  shouldExtract : Assign → Bool
  unwrap : Fin g.size → V → Except Exc V

def assignOf (g : ExecutionGraph) (c : Fin g.size) : Option Assign := match (g.executor c).node with
  | .statement (.assign a) => some a
  | _ => none

namespace Extraction

variable (ex : Extraction g V)

/-- `resolved(value, return_none_for_failed_values=True)` for the right side of an assignment, on which
its chain depends. -/
def resolvedMaybeError (values : Fin g.size → Option (NodeResult V)) (c : Fin g.size) : Except Exc (Option V) :=
  match (g.dependentOn c).head?.bind values with
  | none => .error ⟨.keyError, toString c⟩
  | some .err => .ok none
  | some (.ok v) => (ex.unwrap c v).map some

def output (values : Fin g.size → Option (NodeResult V)) (c : Fin g.size) : Option (String × Option V) :=
  match assignOf g c with
  | none => none
  | some a =>
    if ex.shouldExtract a then
      match ex.resolvedMaybeError values c with
      | .ok v => some (a.target.identifier, v)
      | .error _ => none
    else none

def setOutputValue (values : Fin g.size → Option (NodeResult V)) (outputs : Dict String (Option V)) (c : Fin g.size) :
    Dict String (Option V) :=
  match ex.output values c with
  | none => outputs
  | some (key, v) => outputs.set key v

def UniqueNames : Prop :=
  ∀ c d a b, assignOf g c = some a → assignOf g d = some b → ex.shouldExtract a = true → ex.shouldExtract b = true →
    a.target.identifier = b.target.identifier → c = d

/-- A step, with the outputs: the executions that end in it have written theirs. The chains of a batch
are calls, which write none. -/
def record (cfg : Config V) (r : State g V × Dict String (Option V)) (label : Label V) :
    Except Exc (State g V × Dict String (Option V)) := do
  let s ← next cfg r.1 label
  return (s, ((finishing cfg r.1 label).map Prod.fst).foldl
    (ex.setOutputValue r.1.context.resolvedNodeValues.get?) r.2)

/-- A run of `execute` with its `_outputs`. -/
def recordRun (cfg : Config V) (labels : List (Label V)) : Except Exc (State g V × Dict String (Option V)) := do
  let ctx ← ExecutionContext.new g V
  labels.foldlM (ex.record cfg) ({ context := ctx }, Dict.empty)

end Extraction

/-! ## The chains in the executor's hands -/

variable {c : Fin g.size}

theorem mem_runningOf {gls} {gl : Greenlet g.size V} (hgl : gl ∈ gls)
    (hrunning : gl.isRunning = true) (hc : c ∈ gl.chains) : c ∈ runningOf gls := by
  refine List.mem_flatMap.mpr ⟨gl, List.mem_filter.mpr ⟨hgl, ?_⟩, hc⟩
  rw [isRunning_iff] at hrunning
  simp [Greenlet.isSpawned, hrunning]

variable {s : State g V}

theorem mem_running_of_mem_executingChains (h : c ∈ s.executingChains) : c ∈ s.running := by
  rcases List.mem_append.mp h with h | h
  · exact List.mem_append_left _ h
  · obtain ⟨gl, hgl, hc⟩ := List.mem_flatMap.mp h
    obtain ⟨hgl, hrunning⟩ := List.mem_filter.mp hgl
    refine List.mem_append_right _ ?_
    rcases List.mem_append.mp hgl with hgl | hgl
    · exact List.mem_append_left _ (mem_runningOf hgl hrunning hc)
    · exact List.mem_append_right _ (mem_runningOf hgl hrunning hc)

variable {r : NodeResult V} {cfg : Config V} {label : Label V}

theorem mem_hands_of_finishing (h : (c, r) ∈ finishing cfg s label) : c ∈ s.pending ++ s.running := by
  have hfound : ∀ {gls : List (Greenlet g.size V)} {id : Nat} {gl : Greenlet g.size V},
      gls.find? (fun gl => gl.id = id && gl.isRunning) = some gl → c ∈ gl.chains → c ∈ runningOf gls := by
    intro gls id gl hfind hc
    have hgl := List.find?_some hfind
    simp only [Bool.and_eq_true] at hgl
    exact mem_runningOf (List.mem_of_find?_eq_some hfind) hgl.2 hc
  cases label with
  | loop routingKey =>
    rw [finishing] at h
    split at h
    · next readySync readyAsync hphase =>
      obtain ⟨c', hc', heq⟩ := List.mem_map.mp h
      cases heq
      have hmem : c ∈ s.phase.pending := by
        rw [hphase]
        exact List.mem_append_right _ (List.mem_filter.mp hc').1
      exact List.mem_append_left _ (List.mem_append_left _ hmem)
    · cases h
  | finishSync outcome =>
    rw [finishing] at h
    split at h
    · next chain readySync hphase =>
      obtain ⟨rfl, -⟩ := Prod.mk.inj (List.mem_singleton.mp h)
      have hmem : c ∈ s.phase.running := by simp [hphase, Phase.running]
      exact List.mem_append_right _ (List.mem_append_left _ hmem)
    · cases h
  | finishSinglet id outcome =>
    rw [finishing] at h
    split at h
    · next gl hfind =>
      have hmem := hfound hfind (List.of_mem_zip h).1
      exact List.mem_append_right _ (List.mem_append_right _ (List.mem_append_left _ hmem))
    · cases h
  | finishBatch id outcome =>
    rw [finishing] at h
    split at h
    · next gl hfind =>
      have hmem := hfound hfind (List.of_mem_zip h).1
      exact List.mem_append_right _ (List.mem_append_right _ (List.mem_append_right _ hmem))
    · cases h
  | _ => cases h

theorem Inv.enqueued_of_mem (h : Inv cfg s) (hc : c ∈ s.pending ++ s.running) : s.context.Enqueued c :=
  (h.inUse.enqueued c).mp (NodeInfos.known_of_npredecessors ((h.inUse.out c).mpr hc))

/-! ## Agreement -/

section

variable (sem : Semantics g V) (ex : Extraction g V)

def outputOf (c : Fin g.size) : Option (String × Option V) := ex.output (fun d => some (sem.value d)) c

def Written (outputs : Dict String (Option V)) (c : Fin g.size) : Prop :=
  ∀ key v, outputOf sem ex c = some (key, v) → outputs.get? key = some v

/-- The state has no result, no source and no output but those that the functions give; and where it
has a result, it has the sources and the output that go with it. -/
structure Agrees (s : State g V) (outputs : Dict String (Option V)) : Prop where
  entryPoint : .enqueued g.entryPoint ∈ s.context.trace
  demanded : ∀ source, .enqueued source ∈ s.context.trace → sem.Demanded source
  result : ∀ c r, s.HasResult c r → r = sem.value c ∧ s.context.Enqueued c ∧
    (∀ source ∈ sem.sources c, .enqueued source ∈ s.context.trace) ∧ Written sem ex outputs c
  outputs : ∀ key v, outputs.get? key = some v → ∃ c, s.context.Enqueued c ∧ outputOf sem ex c = some (key, v)

end

section

variable {sem : Semantics g V} {ex : Extraction g V} {cfg : Config V} {s s' : State g V}
  {outputs : Dict String (Option V)}

theorem Agrees.dependency (h : Agrees sem ex s outputs) (hinv : Inv cfg s) {d}
    (hc : c ∈ s.pending ++ s.running) (hd : d ∈ g.dependentOn c) :
    s.context.resolvedNodeValues.get? d = some (sem.value d) := by
  have hdone : IsDone s.context.dependencyDag.node2info d :=
    hinv.inUse.valid.counted.passed c (.inl ((hinv.inUse.out c).mpr hc)) d hd
  obtain ⟨r, hr⟩ := Option.isSome_iff_exists.mp (hinv.inUse.value d hdone)
  rw [hr, (h.result d r (.inl hr)).1]

theorem Agrees.gives (h : Agrees sem ex s outputs) (hinv : Inv cfg s)
    (hc : c ∈ s.pending ++ s.running) (hgives : sem.Gives s.context c r) :
    r = sem.value c ∧ ∀ source ∈ sem.sources c, .enqueued source ∈ s.context.trace := by
  obtain ⟨hr, hsources⟩ := hgives (fun d _ => sem.value d) fun d hd => h.dependency hinv hc hd
  refine ⟨by rw [hr, Semantics.value], ?_⟩
  intro source hsource
  obtain ⟨hmem, hsome⟩ := List.mem_filter.mp hsource
  exact hsources source hmem hsome

theorem Agrees.output_eq (h : Agrees sem ex s outputs) (hinv : Inv cfg s)
    (hc : c ∈ s.pending ++ s.running) : ex.output s.context.resolvedNodeValues.get? c = outputOf sem ex c := by
  have hbind : (g.dependentOn c).head?.bind s.context.resolvedNodeValues.get? =
      (g.dependentOn c).head?.bind fun d => some (sem.value d) := by
    cases hhead : (g.dependentOn c).head? with
    | none => rfl
    | some d => exact h.dependency hinv hc (List.mem_of_head? hhead)
  unfold outputOf Extraction.output Extraction.resolvedMaybeError
  rw [hbind]

theorem outputOf_inj (huniq : ex.UniqueNames) {d key v w}
    (hc : outputOf sem ex c = some (key, v)) (hd : outputOf sem ex d = some (key, w)) : c = d := by
  have htarget : ∀ {c v}, outputOf sem ex c = some (key, v) →
      ∃ a, assignOf g c = some a ∧ ex.shouldExtract a = true ∧ a.target.identifier = key := by
    intro c v h
    unfold outputOf Extraction.output at h
    split at h
    · cases h
    · next a ha =>
      split at h
      · next hex =>
        split at h
        · cases h
          exact ⟨a, ha, hex, rfl⟩
        · cases h
      · cases h
  obtain ⟨a, ha, hexa, hkeya⟩ := htarget hc
  obtain ⟨b, hb, hexb, hkeyb⟩ := htarget hd
  exact huniq c d a b ha hb hexa hexb (hkeya.trans hkeyb.symm)

theorem foldl_setOutputValue (huniq : ex.UniqueNames) {values} :
    ∀ (cs : List (Fin g.size)) (outputs : Dict String (Option V)),
      (∀ c ∈ cs, ex.output values c = outputOf sem ex c) →
    (∀ c, Written sem ex outputs c ∨ c ∈ cs → Written sem ex (cs.foldl (ex.setOutputValue values) outputs) c) ∧
      ∀ key v, (cs.foldl (ex.setOutputValue values) outputs).get? key = some v →
        outputs.get? key = some v ∨ ∃ c ∈ cs, outputOf sem ex c = some (key, v)
  | [], outputs, _ => ⟨fun c h => h.resolve_right (by simp), fun _ _ => .inl⟩
  | c :: cs, outputs, heq => by
    obtain ⟨hwritten, hfrom⟩ := foldl_setOutputValue huniq cs (ex.setOutputValue values outputs c)
      fun d hd => heq d (by simp [hd])
    have hc := heq c (by simp)
    rw [List.foldl_cons]
    constructor
    · intro d hd
      have hone : Written sem ex outputs d ∨ d = c → Written sem ex (ex.setOutputValue values outputs c) d := by
        intro hd key v hout
        unfold Extraction.setOutputValue
        rw [hc]
        cases hoc : outputOf sem ex c with
        | none =>
          rcases hd with hd | rfl
          · exact hd key v hout
          · rw [hoc] at hout
            cases hout
        | some p =>
          obtain ⟨key', v'⟩ := p
          rw [Dict.get?_set]
          split
          · next hkey =>
            subst hkey
            obtain rfl := outputOf_inj huniq hout hoc
            rw [hoc] at hout
            cases hout
            rfl
          · next hkey =>
            rcases hd with hd | rfl
            · exact hd key v hout
            · rw [hoc] at hout
              cases hout
              exact absurd rfl hkey
      refine hwritten d ?_
      rcases hd with hd | hd
      · exact .inl (hone (.inl hd))
      · exact (List.mem_cons.mp hd).imp_left fun hdc => hone (.inr hdc)
    · intro key v hget
      rcases hfrom key v hget with hget | ⟨d, hd, hout⟩
      · unfold Extraction.setOutputValue at hget
        rw [hc] at hget
        split at hget
        · exact .inl hget
        · next key' v' hoc =>
          rcases Dict.of_get?_set hget with ⟨rfl, rfl⟩ | ⟨-, hget⟩
          · exact .inr ⟨c, by simp, hoc⟩
          · exact .inl hget
      · exact .inr ⟨d, by simp [hd], hout⟩

theorem enqueued_mono {ctx ctx' : ExecutionContext g V} (htrace : ctx.trace ⊆ ctx'.trace)
    (h : ctx.Enqueued c) : ctx'.Enqueued c := by
  obtain ⟨source, sorted, hmem, hsorted, hc⟩ := h
  exact ⟨source, sorted, htrace hmem, hsorted, hc⟩

theorem Agrees.next (h : Agrees sem ex s outputs) (huniq : ex.UniqueNames) (hinv : Inv cfg s)
    (hlabel : ∀ source, label ≠ .enqueue source) (hallows : sem.Allows cfg s label)
    (hnext : Executor.next cfg s label = .ok s') :
    Agrees sem ex s' (((finishing cfg s label).map Prod.fst).foldl
      (ex.setOutputValue s.context.resolvedNodeValues.get?) outputs) := by
  have hp := next_produces hlabel hnext
  have hhands : ∀ c ∈ (finishing cfg s label).map Prod.fst, c ∈ s.pending ++ s.running := by
    intro c hc
    obtain ⟨⟨c', r⟩, hmem, rfl⟩ := List.mem_map.mp hc
    exact mem_hands_of_finishing hmem
  obtain ⟨hwritten, hfrom⟩ := foldl_setOutputValue huniq ((finishing cfg s label).map Prod.fst) outputs
    fun c hc => h.output_eq hinv (hhands c hc)
  refine ⟨hp.trace h.entryPoint, fun source hs => h.demanded source (hp.enqueued source hs), ?_, ?_⟩
  · intro c r hr
    rcases hp.results c r hr with hr | hr
    · obtain ⟨hvalue, henqueued, hsources, hw⟩ := h.result c r hr
      exact ⟨hvalue, enqueued_mono hp.trace henqueued, fun source hs => hp.trace (hsources source hs),
        hwritten c (.inl hw)⟩
    · have hc : c ∈ s.pending ++ s.running := mem_hands_of_finishing hr
      obtain ⟨hvalue, hsources⟩ := h.gives hinv hc (hallows.1 _ hr)
      exact ⟨hvalue, enqueued_mono hp.trace (hinv.enqueued_of_mem hc),
        fun source hs => hp.trace (hsources source hs), hwritten c (.inr (List.mem_map_of_mem hr))⟩
  · intro key v hget
    rcases hfrom key v hget with hget | ⟨c, hc, hout⟩
    · obtain ⟨c, henqueued, hout⟩ := h.outputs key v hget
      exact ⟨c, enqueued_mono hp.trace henqueued, hout⟩
    · exact ⟨c, enqueued_mono hp.trace (hinv.enqueued_of_mem (hhands c hc)), hout⟩

theorem Agrees.enqueue (h : Agrees sem ex s outputs) (hinv : Inv cfg s) {source : String}
    (hallows : sem.Allows cfg s (.enqueue source)) (hnext : Executor.next cfg s (.enqueue source) = .ok s') :
    Agrees sem ex s' outputs := by
  rw [Executor.next] at hnext
  split at hnext
  · next hcan =>
    obtain ⟨-, hsome⟩ := Bool.and_eq_true_iff.mp hcan
    obtain ⟨ctx, henqueue, hnext⟩ := bind_eq_ok.mp hnext
    obtain ⟨sorted, -, henqueue⟩ := bind_eq_ok.mp henqueue
    obtain ⟨⟨dag, chainById⟩, -, henqueue⟩ := bind_eq_ok.mp henqueue
    cases henqueue
    cases hnext
    obtain ⟨c, hc, hmay⟩ := hallows.2 source rfl
    have hhands : c ∈ s.pending ++ s.running := List.mem_append_right _ (mem_running_of_mem_executingChains hc)
    have hdemanded : sem.Demanded source := by
      obtain ⟨source₀, sorted₀, hmem, hsorted, hc⟩ := hinv.enqueued_of_mem hhands
      refine .enqueued (h.demanded source₀ hmem) hsorted hc (List.mem_filter.mpr ⟨?_, hsome⟩)
      exact hmay (fun d _ => sem.value d) fun d hd => h.dependency hinv hhands hd
    have htrace : s.context.trace ⊆ .enqueued source :: s.context.trace := List.subset_cons_self _ _
    refine ⟨htrace h.entryPoint, ?_, ?_, ?_⟩
    · intro source' hs
      rcases List.mem_cons.mp hs with heq | hs
      · cases heq
        exact hdemanded
      · exact h.demanded source' hs
    · intro c r hr
      obtain ⟨hvalue, henqueued, hsources, hw⟩ := h.result c r hr
      exact ⟨hvalue, enqueued_mono htrace henqueued, fun source hs => htrace (hsources source hs), hw⟩
    · intro key v hget
      obtain ⟨c, henqueued, hout⟩ := h.outputs key v hget
      exact ⟨c, enqueued_mono htrace henqueued, hout⟩
  · cases hnext
    exact h

/-- **Every step keeps the agreement.** -/
theorem Agrees.record (h : Agrees sem ex s outputs) (huniq : ex.UniqueNames) (hinv : Inv cfg s)
    (hallows : sem.Allows cfg s label) {outputs'}
    (hrecord : ex.record cfg (s, outputs) label = .ok (s', outputs')) : Agrees sem ex s' outputs' := by
  obtain ⟨s₁, hnext, hrecord⟩ := bind_eq_ok.mp hrecord
  cases hrecord
  by_cases hlabel : ∃ source, label = .enqueue source
  · obtain ⟨source, rfl⟩ := hlabel
    exact h.enqueue hinv hallows hnext
  · exact h.next huniq hinv (fun source heq => hlabel ⟨source, heq⟩) hallows hnext

end

/-! ## Runs -/

theorem Agrees.foldlM {sem ex} (huniq : ex.UniqueNames) {labels outputs} (hinv : Inv cfg s)
    (h : Agrees sem ex s outputs) (hfollows : sem.FollowsFrom cfg s labels) {r}
    (hrun : labels.foldlM (ex.record cfg) (s, outputs) = .ok r) : Inv cfg r.1 ∧ Agrees sem ex r.1 r.2 := by
  induction labels generalizing s outputs with
  | nil =>
    cases hrun
    exact ⟨hinv, h⟩
  | cons label labels ih =>
    rw [List.foldlM_cons] at hrun
    obtain ⟨⟨s₁, outputs₁⟩, hrecord, hrun⟩ := bind_eq_ok.mp hrun
    have h₁ : Agrees sem ex s₁ outputs₁ := h.record huniq hinv hfollows.1 hrecord
    obtain ⟨s₁, hnext, hrecord⟩ := bind_eq_ok.mp hrecord
    cases hrecord
    have hinv₁ : Inv cfg s₁ := by
      obtain ⟨s₂, hnext₂, hinv₂⟩ := hinv.next label
      obtain rfl := Except.ok.inj (hnext.symm.trans hnext₂)
      exact hinv₂
    exact ih hinv₁ h₁ (hfollows.2 s₁ hnext) hrun

/-- **Every run keeps the agreement.** -/
theorem agrees_recordRun {sem ex} (huniq : ex.UniqueNames) {labels} (hfollows : sem.Follows cfg labels) {outputs}
    (hrun : ex.recordRun cfg labels = .ok (s, outputs)) : Inv cfg s ∧ Agrees sem ex s outputs := by
  obtain ⟨ctx, hnew, hrun⟩ := bind_eq_ok.mp hrun
  have hinv : Inv cfg ({ context := ctx } : State g V) := by
    obtain ⟨s₀, hs₀, hinv⟩ := run_inv cfg g []
    rw [run, hnew] at hs₀
    cases hs₀
    exact hinv
  have hagrees : Agrees sem ex { context := ctx } Dict.empty := by
    obtain ⟨sorted, -, hnew⟩ := bind_eq_ok.mp hnew
    obtain ⟨⟨dag, chainById⟩, -, hnew⟩ := bind_eq_ok.mp hnew
    cases hnew
    refine ⟨by simp, ?_, ?_, by simp⟩
    · intro source hs
      obtain rfl : source = g.entryPoint := by simpa using hs
      exact .entryPoint
    · intro c r hr
      simp [State.HasResult, State.greenlets] at hr
  exact hagrees.foldlM huniq hinv (hfollows ctx hnew) hrun

/-! ## What a run ends with -/

section

variable {sem : Semantics g V} {ex : Extraction g V} {cfg : Config V} {s : State g V}
  {outputs : Dict String (Option V)}

theorem Inv.hasResult_of_exited (hinv : Inv cfg s) (hexited : s.phase = .exited)
    (hc : s.context.Enqueued c) : ∃ r, s.context.resolvedNodeValues.get? c = some r := by
  obtain ⟨hsinglets, hbatches, hready⟩ := hinv.exited hexited
  have hinUse : s.context.InUse [] [] := by
    have := hinv.inUse
    rw [State.pending, State.running, hexited, hsinglets, hbatches] at this
    exact this
  exact Option.isSome_iff_exists.mp (hinUse.value c (hinUse.all_done hready hc))

theorem Agrees.enqueued_of_demanded (h : Agrees sem ex s outputs) (hinv : Inv cfg s) (hexited : s.phase = .exited)
    {source} (hsource : sem.Demanded source) : .enqueued source ∈ s.context.trace := by
  induction hsource with
  | entryPoint => exact h.entryPoint
  | @enqueued source source' sorted c _ hsorted hc hsource' ih =>
    obtain ⟨r, hr⟩ := hinv.hasResult_of_exited hexited ⟨source, sorted, ih, hsorted, hc⟩
    exact (h.result c r (.inl hr)).2.2.1 source' hsource'

theorem Agrees.enqueued_iff (h : Agrees sem ex s outputs) (hinv : Inv cfg s) (hexited : s.phase = .exited) :
    s.context.Enqueued c ↔ sem.DemandedChain c := by
  constructor
  · rintro ⟨source, sorted, hmem, hsorted, hc⟩
    exact ⟨source, sorted, h.demanded source hmem, hsorted, hc⟩
  · rintro ⟨source, sorted, hdemanded, hsorted, hc⟩
    exact ⟨source, sorted, h.enqueued_of_demanded hinv hexited hdemanded, hsorted, hc⟩

/-- **The values at the end**: those of the demanded chains. -/
theorem Agrees.value_iff (h : Agrees sem ex s outputs) (hinv : Inv cfg s) (hexited : s.phase = .exited) :
    s.context.resolvedNodeValues.get? c = some r ↔ sem.DemandedChain c ∧ r = sem.value c := by
  rw [← h.enqueued_iff hinv hexited]
  constructor
  · intro hr
    obtain ⟨hvalue, henqueued, -⟩ := h.result c r (.inl hr)
    exact ⟨henqueued, hvalue⟩
  · rintro ⟨henqueued, rfl⟩
    obtain ⟨r, hr⟩ := hinv.hasResult_of_exited hexited henqueued
    rw [hr, (h.result c r (.inl hr)).1]

/-- **The outputs at the end**: those of the demanded chains. -/
theorem Agrees.output_iff (h : Agrees sem ex s outputs) (hinv : Inv cfg s) (hexited : s.phase = .exited) {key v} :
    outputs.get? key = some v ↔ ∃ c, sem.DemandedChain c ∧ outputOf sem ex c = some (key, v) := by
  simp only [← h.enqueued_iff hinv hexited]
  constructor
  · exact h.outputs key v
  · rintro ⟨c, henqueued, hout⟩
    obtain ⟨r, hr⟩ := hinv.hasResult_of_exited hexited henqueued
    exact (h.result c r (.inl hr)).2.2.2 key v hout

end

/-- **Execution is confluent.** Where the chains of a graph are functions of what they depend on, whether
they are executed alone or in a batch, and no two extracted assignments have one target, any two runs of
`execute` that come to their end have the same resolved values and the same outputs: with a pool or
without, and in whatever order the greenlets finish. -/
theorem execute_confluent (sem : Semantics g V) (ex : Extraction g V) (huniq : ex.UniqueNames) {cfg₁ cfg₂ : Config V}
    {labels₁ labels₂ : List (Label V)} (hfollows₁ : sem.Follows cfg₁ labels₁) (hfollows₂ : sem.Follows cfg₂ labels₂)
    {s₁ s₂ : State g V} {outputs₁ outputs₂ : Dict String (Option V)}
    (hrun₁ : ex.recordRun cfg₁ labels₁ = .ok (s₁, outputs₁)) (hrun₂ : ex.recordRun cfg₂ labels₂ = .ok (s₂, outputs₂))
    (hexited₁ : s₁.phase = .exited) (hexited₂ : s₂.phase = .exited) :
    (∀ c, s₁.context.resolvedNodeValues.get? c = s₂.context.resolvedNodeValues.get? c) ∧
      ∀ key, outputs₁.get? key = outputs₂.get? key := by
  obtain ⟨hinv₁, h₁⟩ := agrees_recordRun huniq hfollows₁ hrun₁
  obtain ⟨hinv₂, h₂⟩ := agrees_recordRun huniq hfollows₂ hrun₂
  constructor
  · intro c
    refine Option.ext fun r => ?_
    rw [h₁.value_iff hinv₁ hexited₁, h₂.value_iff hinv₂ hexited₂]
  · intro key
    refine Option.ext fun v => ?_
    rw [h₁.output_iff hinv₁ hexited₁, h₂.output_iff hinv₂ hexited₂]

/-- `X = First()` and `Y = Second()`, where the calls are asynchronous. -/
def twoCalls : ExecutionGraph where
  size := 4
  executor c := match c with
    | 0 => { node := .expression (.call 0 (.name ⟨"First", "main.sml"⟩) []), executeAsync := true }
    | 1 => { node := .statement (.assign ⟨⟨"X", "main.sml"⟩, .call 0 (.name ⟨"First", "main.sml"⟩) [], none⟩) }
    | 2 => { node := .expression (.call 1 (.name ⟨"Second", "main.sml"⟩) []), executeAsync := true }
    | 3 => { node := .statement (.assign ⟨⟨"Y", "main.sml"⟩, .call 1 (.name ⟨"Second", "main.sml"⟩) [], none⟩) }
  dependentOn c := match c with
    | 0 | 2 => []
    | 1 => [0]
    | 3 => [2]
  dependentOn_lt := by decide
  statementChains source := if source = "main.sml" then some [1, 3] else none
  entryPoint := "main.sml"
  entryPoint_mem := rfl

namespace twoCalls

/-- A call gives the number of its chain, and an assignment what is assigned. -/
def semantics : Semantics twoCalls Nat where
  result c dependencies := match (twoCalls.dependentOn c).attach with
    | [] => .ok c.val
    | d :: _ => dependencies d.1 d.2
  enqueues _ _ := []

def extraction : Extraction twoCalls Nat where
  shouldExtract _ := true
  unwrap _ v := .ok v

def withPool : Config Nat := ⟨true, fun _ v => .ok v⟩

def withoutPool : Config Nat := ⟨false, fun _ v => .ok v⟩

/-- The second call finishes before the first. -/
def secondFirst : List (Label Nat) :=
  [.getReady, .loop fun _ => .ok "", .startSinglet 0, .startSinglet 1, .getReady, .loop fun _ => .ok "",
    .finishSinglet 1 (.ok 2), .wake 1, .getReady, .loop fun _ => .ok "", .executeSync, .finishSync (.ok 2),
    .finishSinglet 0 (.ok 0), .getReady, .loop fun _ => .ok "", .wake 0, .getReady, .loop fun _ => .ok "",
    .executeSync, .finishSync (.ok 0), .getReady]

def inOrder : List (Label Nat) :=
  [.getReady, .loop fun _ => .ok "", .executeSync, .finishSync (.ok 0), .executeSync, .finishSync (.ok 2), .getReady,
    .loop fun _ => .ok "", .executeSync, .finishSync (.ok 0), .executeSync, .finishSync (.ok 2), .getReady]

/-- What the execution of a chain may end with, by the values resolved so far. -/
def expected (s : State twoCalls Nat) (c : Fin 4) : Option (NodeResult Nat) := match twoCalls.dependentOn c with
  | [] => some (.ok c.val)
  | d :: _ => s.context.resolvedNodeValues.get? d

/-- A check that a run follows the functions. -/
def follows (cfg : Config Nat) (s : State twoCalls Nat) : List (Label Nat) → Bool
  | [] => true
  | .enqueue _ :: _ => false
  | label :: labels =>
    (finishing cfg s label).all (fun p => some p.2 = expected s p.1) &&
      ((next cfg s label).toOption.all fun s' => follows cfg s' labels)

theorem gives_of_expected {s : State twoCalls Nat} {c : Fin twoCalls.size} {r : NodeResult Nat}
    (h : some r = expected s c) : semantics.Gives s.context c r := by
  intro dependencies hd
  refine ⟨?_, fun source hs => (by cases hs)⟩
  match c with
  | ⟨0, _⟩ => exact Option.some.inj h
  | ⟨1, _⟩ => exact Option.some.inj (h.trans (hd ⟨0, by decide⟩ List.mem_cons_self))
  | ⟨2, _⟩ => exact Option.some.inj h
  | ⟨3, _⟩ => exact Option.some.inj (h.trans (hd ⟨2, by decide⟩ List.mem_cons_self))

theorem followsFrom_of_follows {cfg labels s}
    (h : follows cfg s labels = true) : semantics.FollowsFrom cfg s labels := by
  fun_induction follows cfg s labels with
  | case1 => trivial
  | case2 => cases h
  | case3 s label labels hlabel ih =>
    obtain ⟨hfinishing, hrest⟩ := Bool.and_eq_true_iff.mp h
    refine ⟨⟨?_, fun source heq => (hlabel source heq).elim⟩, ?_⟩
    · intro p hp
      exact gives_of_expected (of_decide_eq_true (List.all_eq_true.mp hfinishing p hp))
    · intro s' hs'
      rw [hs'] at hrest
      exact ih s' hrest

theorem follows_secondFirst : semantics.Follows withPool secondFirst := by
  intro ctx hctx
  cases hctx
  exact followsFrom_of_follows rfl

theorem follows_inOrder : semantics.Follows withoutPool inOrder := by
  intro ctx hctx
  cases hctx
  exact followsFrom_of_follows rfl

theorem uniqueNames : extraction.UniqueNames := by
  have hnames : ∀ c d : Fin 4, (assignOf twoCalls c).isSome = true →
      (assignOf twoCalls c).map (·.target.identifier) = (assignOf twoCalls d).map (·.target.identifier) → c = d := by
    decide
  intro c d a b hc hd _ _ hname
  exact hnames c d (by rw [hc]; rfl) (by rw [hc, hd, Option.map_some, Option.map_some, hname])

/-- With the calls in one order and in the other, and with and without a pool. -/
theorem execute_confluent_twoCalls :
    ∃ s₁ outputs₁ s₂ outputs₂, extraction.recordRun withPool secondFirst = .ok (s₁, outputs₁) ∧
      extraction.recordRun withoutPool inOrder = .ok (s₂, outputs₂) ∧ s₁.phase = .exited ∧ s₂.phase = .exited ∧
      (∀ c, s₁.context.resolvedNodeValues.get? c = s₂.context.resolvedNodeValues.get? c) ∧
      ∀ key, outputs₁.get? key = outputs₂.get? key :=
  ⟨_, _, _, _, rfl, rfl, rfl, rfl, execute_confluent semantics extraction uniqueNames follows_secondFirst
    follows_inOrder rfl rfl rfl rfl⟩

end twoCalls

end Osprey.Executor
