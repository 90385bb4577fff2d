/-
`ExecutionContext`: the sources enqueued so far, the chains that are ready,
and the resolved values. The history of a context is kept beside it, newest
event first, so that what an execution did can be stated: which sources were
enqueued, and when each chain was executed and resolved.

The chains that were passed out and not resolved yet are in the hands of the
executor, some of them executed already. The lemmas here say what each call
of the executor does to those two lists.
-/
import Osprey.Engine.ExecutionGraph
import Osprey.Engine.TopologicalSorter

namespace Osprey

open Lib (Dict mapM_ok)
open NodeInfos (Known IsOut IsDone)

variable {V : Type}

/-! ## The context -/

/-- What an execution did. A batchable call whose arguments cannot be resolved is executed up to there. -/
inductive TraceEvent (n : Nat)
  | enqueued (source : String)
  | started (c : Fin n)
  | argumentsFailed (c : Fin n)
  | resolved (c : Fin n)
  deriving DecidableEq, Repr

def TraceEvent.executes? {n : Nat} : TraceEvent n → Option (Fin n)
  | started c | argumentsFailed c => some c
  | enqueued _ | resolved _ => none

def TraceEvent.resolves? {n : Nat} : TraceEvent n → Option (Fin n)
  | resolved c => some c
  | enqueued _ | started _ | argumentsFailed _ => none

def executions {n : Nat} (trace : List (TraceEvent n)) : List (Fin n) := trace.filterMap TraceEvent.executes?

def resolutions {n : Nat} (trace : List (TraceEvent n)) : List (Fin n) := trace.filterMap TraceEvent.resolves?

variable {n : Nat}

@[simp] theorem executions_resolved (c : Fin n) (trace : List (TraceEvent n)) :
    executions (.resolved c :: trace) = executions trace := rfl

@[simp] theorem resolutions_resolved (c : Fin n) (trace : List (TraceEvent n)) :
    resolutions (.resolved c :: trace) = c :: resolutions trace := rfl

@[simp] theorem executions_enqueued (source : String) (trace : List (TraceEvent n)) :
    executions (.enqueued source :: trace) = executions trace := rfl

@[simp] theorem resolutions_enqueued (source : String) (trace : List (TraceEvent n)) :
    resolutions (.enqueued source :: trace) = resolutions trace := rfl

/-- The fields of an `ExecutionContext` that schedule its chains. A chain and its node are known by
the number of the chain, as every node but a loaded name has a chain of its own. -/
structure ExecutionContext (g : ExecutionGraph) (V : Type) where
  dependencyDag : TopologicalSorter (Fin g.size) := {}
  chainById : Dict (Fin g.size) (Fin g.size) := Dict.empty
  resolvedNodeValues : Dict (Fin g.size) (NodeResult V) := Dict.empty
  trace : List (TraceEvent g.size) := []

namespace ExecutionContext

variable {g : ExecutionGraph}

/-- The loop of `enqueue_source`. -/
def addChains (g : ExecutionGraph) : List (Fin g.size) → TopologicalSorter (Fin g.size) →
    Dict (Fin g.size) (Fin g.size) → Except Exc (TopologicalSorter (Fin g.size) × Dict (Fin g.size) (Fin g.size))
  | [], dag, chainById => .ok (dag, chainById)
  | chain :: rest, dag, chainById =>
    if dag.alreadyAdded chain then addChains g rest dag chainById
    else do
      let dag ← dag.add chain (g.dependentOn chain)
      addChains g rest dag (chainById.set chain chain)

def enqueueSource (ctx : ExecutionContext g V) (source : String) : Except Exc (ExecutionContext g V) := do
  let sortedDependencyChain ← g.getSortedDependencyChain source
  let (dag, chainById) ← addChains g sortedDependencyChain ctx.dependencyDag ctx.chainById
  return { ctx with
    dependencyDag := dag.prepare
    chainById := chainById
    trace := .enqueued source :: ctx.trace }

def setResolvedValue (ctx : ExecutionContext g V) (chain : Fin g.size) (value : NodeResult V) :
    Except Exc (ExecutionContext g V) := do
  let dag ← ctx.dependencyDag.done [chain]
  return { ctx with
    resolvedNodeValues := ctx.resolvedNodeValues.set chain value
    dependencyDag := dag
    trace := .resolved chain :: ctx.trace }

def chainOf (chainById : Dict (Fin g.size) (Fin g.size)) (nodeid : Fin g.size) : Except Exc (Fin g.size) :=
  match chainById.get? nodeid with
  | none => .error ⟨.keyError, toString nodeid⟩
  | some chain => .ok chain

def getReadyToExecute (ctx : ExecutionContext g V) : Except Exc (List (Fin g.size) × ExecutionContext g V) := do
  let (readyNodeids, dag) ← ctx.dependencyDag.getReady
  let ready ← readyNodeids.mapM (chainOf ctx.chainById)
  return (ready, { ctx with dependencyDag := dag })

/-- `ExecutionContext.__init__` enqueues the entry point. -/
def new (g : ExecutionGraph) (V : Type) : Except Exc (ExecutionContext g V) := enqueueSource {} g.entryPoint

def log (ctx : ExecutionContext g V) (event : TraceEvent g.size) : ExecutionContext g V :=
  { ctx with trace := event :: ctx.trace }

@[simp] theorem log_dependencyDag (ctx : ExecutionContext g V) (event : TraceEvent g.size) :
    (ctx.log event).dependencyDag = ctx.dependencyDag := rfl

@[simp] theorem log_trace (ctx : ExecutionContext g V) (event : TraceEvent g.size) :
    (ctx.log event).trace = event :: ctx.trace := rfl

/-! ## What holds of a context in use -/

/-- Every execution comes after the resolutions of what it depends on. -/
def Ordered (g : ExecutionGraph) : List (TraceEvent g.size) → Prop
  | [] => True
  | event :: before =>
    (∀ c, event.executes? = some c → ∀ d ∈ g.dependentOn c, .resolved d ∈ before) ∧ Ordered g before

def Enqueued (ctx : ExecutionContext g V) (c : Fin g.size) : Prop :=
  ∃ source sorted, .enqueued source ∈ ctx.trace ∧ g.getSortedDependencyChain source = .ok sorted ∧ c ∈ sorted

/-- The executor has been given the chains of both lists, executed those in `running`, and resolved
every other chain it was given. -/
structure InUse (ctx : ExecutionContext g V) (pending running : List (Fin g.size)) : Prop where
  valid : ctx.dependencyDag.Valid g.dependentOn
  chainById : ∀ c, Known ctx.dependencyDag.node2info c → ctx.chainById.get? c = some c
  enqueued : ∀ c, Known ctx.dependencyDag.node2info c ↔ ctx.Enqueued c
  nodup : (pending ++ running).Nodup
  out : ∀ c, IsOut ctx.dependencyDag.node2info c ↔ c ∈ pending ++ running
  executed : ∀ c, c ∈ executions ctx.trace ↔ c ∈ running ∨ IsDone ctx.dependencyDag.node2info c
  resolved : ∀ c, c ∈ resolutions ctx.trace ↔ IsDone ctx.dependencyDag.node2info c
  executedOnce : (executions ctx.trace).Nodup
  resolvedOnce : (resolutions ctx.trace).Nodup
  ordered : Ordered g ctx.trace
  value : ∀ c, IsDone ctx.dependencyDag.node2info c → (ctx.resolvedNodeValues.get? c).isSome = true

theorem mem_resolutions {trace} {c : Fin n} : c ∈ resolutions trace ↔ .resolved c ∈ trace := by
  simp only [resolutions, List.mem_filterMap]
  constructor
  · rintro ⟨e, he, hc⟩
    cases e with
    | resolved d =>
      cases hc
      exact he
    | _ => cases hc
  · intro h
    exact ⟨_, h, rfl⟩

section

variable {ctx : ExecutionContext g V} {pending running : List (Fin g.size)}

theorem InUse.perm (h : ctx.InUse pending running) {pending' running'}
    (hp : pending.Perm pending') (hr : running.Perm running') : ctx.InUse pending' running' where
  valid := h.valid
  chainById := h.chainById
  enqueued := h.enqueued
  nodup := (hp.append hr).nodup_iff.mp h.nodup
  out c := by rw [h.out, (hp.append hr).mem_iff]
  executed c := by rw [h.executed, hr.mem_iff]
  resolved := h.resolved
  executedOnce := h.executedOnce
  resolvedOnce := h.resolvedOnce
  ordered := h.ordered
  value := h.value

variable {c : Fin g.size}

theorem InUse.execute (h : ctx.InUse (c :: pending) running) {event : TraceEvent g.size}
    (hevent : event.executes? = some c) : (ctx.log event).InUse pending (c :: running) := by
  have hres : event.resolves? = none := by cases event <;> first | rfl | cases hevent
  have hexec : executions (event :: ctx.trace) = c :: executions ctx.trace := by simp [executions, hevent]
  have hresol : resolutions (event :: ctx.trace) = resolutions ctx.trace := by simp [resolutions, hres]
  have hout : IsOut ctx.dependencyDag.node2info c := (h.out c).mpr (by simp)
  have hnew : c ∉ executions ctx.trace := by
    rw [h.executed, not_or]
    have := h.nodup
    simp only [List.cons_append, List.nodup_cons, List.mem_append, not_or] at this
    exact ⟨this.1.2, hout.not_done⟩
  refine ⟨h.valid, h.chainById, ?_, ?_, ?_, ?_, ?_, ?_, ?_, ?_, h.value⟩
  · intro d
    rw [log_dependencyDag, h.enqueued]
    have hne : ∀ source, TraceEvent.enqueued source ≠ event := by
      rintro source rfl
      cases hevent
    simp [Enqueued, hne]
  · exact (List.perm_middle.symm.nodup_iff).mp h.nodup
  · intro d
    rw [log_dependencyDag, h.out]
    simp only [List.cons_append, List.mem_cons, List.mem_append]
    tauto
  · intro d
    simp only [log_trace, log_dependencyDag, hexec, List.mem_cons, h.executed]
    tauto
  · intro d
    simp only [log_trace, log_dependencyDag, hresol, h.resolved]
  · simp only [log_trace, hexec]
    exact List.nodup_cons.mpr ⟨hnew, h.executedOnce⟩
  · simp only [log_trace, hresol]
    exact h.resolvedOnce
  · refine ⟨?_, h.ordered⟩
    intro c' hc' d hd
    obtain rfl : c = c' := by simpa [hevent] using hc'
    exact mem_resolutions.mp ((h.resolved d).mpr (h.valid.counted.passed c (.inl hout) d hd))

/-- **A running chain can be resolved**: `done` does not raise. -/
theorem InUse.setResolvedValue (h : ctx.InUse pending (c :: running)) (value : NodeResult V) :
    ∃ ctx', ctx.setResolvedValue c value = .ok ctx' ∧ ctx'.InUse pending running ∧
      ctx'.trace = .resolved c :: ctx.trace := by
  have hout : IsOut ctx.dependencyDag.node2info c := (h.out c).mpr (by simp)
  obtain ⟨dag, hdone, hvalid, hknown, hisDone, hisOut⟩ := h.valid.done hout
  have hnd : c ∉ pending ++ running ∧ (pending ++ running).Nodup := by
    have := (List.perm_middle.nodup_iff).mp h.nodup
    simpa using this
  refine ⟨_, by rw [ExecutionContext.setResolvedValue, hdone]; rfl, ?_, rfl⟩
  refine ⟨hvalid, ?_, ?_, hnd.2, ?_, ?_, ?_, ?_, ?_, ?_, ?_⟩
  · intro d hd
    exact h.chainById d ((hknown d).mp hd)
  · intro d
    rw [hknown, h.enqueued]
    simp [Enqueued]
  · intro d
    rw [hisOut, h.out]
    simp only [List.mem_append, List.mem_cons]
    have hc := hnd.1
    simp only [List.mem_append, not_or] at hc
    constructor
    · tauto
    · intro hmem
      exact ⟨by rintro rfl; tauto, by tauto⟩
  · intro d
    simp only [executions_resolved, h.executed, hisDone, List.mem_cons]
    tauto
  · intro d
    simp only [resolutions_resolved, List.mem_cons, hisDone, h.resolved]
  · exact h.executedOnce
  · have hnew : c ∉ resolutions ctx.trace := by
      rw [h.resolved]
      exact hout.not_done
    exact List.nodup_cons.mpr ⟨hnew, h.resolvedOnce⟩
  · exact ⟨fun d hd => (by cases hd), h.ordered⟩
  · intro d hd
    rw [Dict.get?_set]
    split
    · rfl
    · next hne => exact h.value d (((hisDone d).mp hd).resolve_left hne)

/-- **The ready chains are passed out**, and none is left. -/
theorem InUse.getReadyToExecute (h : ctx.InUse pending running) :
    ∃ ready ctx', ctx.getReadyToExecute = .ok (ready, ctx') ∧ ctx'.InUse (ready ++ pending) running ∧
      ctx'.dependencyDag.readyNodes = [] ∧ ctx'.trace = ctx.trace := by
  obtain ⟨dag, hready, hvalid, hknown, hisDone, hisOut, hempty⟩ := h.valid.getReady
  have hzero : ∀ c ∈ ctx.dependencyDag.readyNodes, NodeInfos.IsReady ctx.dependencyDag.node2info c :=
    fun c hc => (h.valid.ready c).mp hc
  have hmap : ctx.dependencyDag.readyNodes.mapM (chainOf ctx.chainById) =
      .ok (ctx.dependencyDag.readyNodes.map id) := mapM_ok fun c hc => by
    rw [chainOf, h.chainById c (NodeInfos.known_of_npredecessors (hzero c hc))]
    rfl
  rw [List.map_id] at hmap
  refine ⟨ctx.dependencyDag.readyNodes, { ctx with dependencyDag := dag }, ?_, ?_, hempty, rfl⟩
  · simp only [ExecutionContext.getReadyToExecute, hready, hmap, ok_bind]
    rfl
  · refine ⟨hvalid, ?_, ?_, ?_, ?_, ?_, ?_, h.executedOnce, h.resolvedOnce, h.ordered, ?_⟩
    · intro c hc
      exact h.chainById c ((hknown c).mp hc)
    · intro c
      rw [hknown, h.enqueued]
      rfl
    · rw [List.append_assoc]
      refine List.nodup_append.mpr ⟨h.valid.nodup, h.nodup, ?_⟩
      rintro c hc d hd rfl
      have ho := (h.out c).mpr hd
      rw [IsOut, hzero c hc] at ho
      exact absurd ho (by decide)
    · intro c
      rw [hisOut, h.out, List.append_assoc, ← List.mem_append]
    · intro c
      rw [hisDone, h.executed]
    · intro c
      rw [hisDone, h.resolved]
    · intro c hc
      exact h.value c ((hisDone c).mp hc)

/-- What enqueueing changes in the sorter: the chains of the list are known too. -/
structure Adds (g : ExecutionGraph) (cs : List (Fin g.size)) (dag dag' : TopologicalSorter (Fin g.size)) : Prop where
  counted : NodeInfos.Counted g.dependentOn dag'.node2info
  known : ∀ c, Known dag'.node2info c ↔ Known dag.node2info c ∨ c ∈ cs
  isDone : ∀ c, IsDone dag'.node2info c ↔ IsDone dag.node2info c
  isOut : ∀ c, IsOut dag'.node2info c ↔ IsOut dag.node2info c
  prepare : dag' = dag ∨ dag'.needsPrepare = true

/-- What a chain of the list depends on comes before it or is known already. -/
def Addable (cs : List (Fin g.size)) (d : NodeInfos (Fin g.size)) : Prop :=
  ∀ before c after, cs = before ++ c :: after → ∀ p ∈ g.dependentOn c, p ∈ before ∨ Known d p

theorem Addable.tail {cs d d'}
    (h : Addable (c :: cs) d) (hknown : ∀ p, p = c ∨ Known d p → Known d' p) : Addable cs d' := by
  intro before c' after heq p hp
  rcases h (c :: before) c' after (by rw [heq]; rfl) p hp with hmem | hk
  · rcases List.mem_cons.mp hmem with rfl | hmem
    · exact .inr (hknown p (.inl rfl))
    · exact .inl hmem
  · exact .inr (hknown p (.inr hk))

theorem addChains_spec : ∀ (cs : List (Fin g.size)) (dag : TopologicalSorter (Fin g.size))
    (byId : Dict (Fin g.size) (Fin g.size)), NodeInfos.Counted g.dependentOn dag.node2info →
    Addable cs dag.node2info → (∀ c, Known dag.node2info c → byId.get? c = some c) →
    ∃ dag' byId', addChains g cs dag byId = .ok (dag', byId') ∧ Adds g cs dag dag' ∧
      ∀ c, Known dag'.node2info c → byId'.get? c = some c
  | [], dag, byId, hcount, _, hbyId =>
    ⟨dag, byId, rfl, ⟨hcount, by simp, fun _ => Iff.rfl, fun _ => Iff.rfl, .inl rfl⟩, hbyId⟩
  | c :: cs, dag, byId, hcount, hdeps, hbyId => by
    by_cases hadded : dag.alreadyAdded c = true
    · have hc : Known dag.node2info c := hadded
      have hrest : Addable cs dag.node2info := hdeps.tail fun p hp => hp.elim (fun h => h ▸ hc) id
      obtain ⟨dag', byId', hadd, ha, hb⟩ := addChains_spec cs dag byId hcount hrest hbyId
      refine ⟨dag', byId', ?_, ⟨ha.counted, fun d => ?_, ha.isDone, ha.isOut, ha.prepare⟩, hb⟩
      · rw [addChains, if_pos hadded, hadd]
      · rw [ha.known, List.mem_cons]
        constructor
        · tauto
        · rintro (hk | rfl | hmem) <;> tauto
    · have hnew : ¬ Known dag.node2info c := hadded
      have hpreds : ∀ d ∈ g.dependentOn c, Known dag.node2info d := by
        intro d hd
        simpa using hdeps [] c cs rfl d hd
      have hknown := NodeInfos.known_addNode hnew hpreds
      have hbyId' : ∀ d, Known (NodeInfos.addNode dag.node2info c (g.dependentOn c)) d →
          (byId.set c c).get? d = some d := by
        intro d hd
        rw [Dict.get?_set]
        split
        · next heq => rw [heq]
        · next hne => exact hbyId d (((hknown d).mp hd).resolve_left hne)
      obtain ⟨dag', byId', hadd, ha, hb⟩ := addChains_spec cs
        { dag with node2info := NodeInfos.addNode dag.node2info c (g.dependentOn c), needsPrepare := true }
        (byId.set c c) (hcount.addNode hnew hpreds) (hdeps.tail fun p hp => (hknown p).mpr hp) hbyId'
      refine ⟨dag', byId', ?_, ⟨ha.counted, fun d => ?_, fun d => ?_, fun d => ?_, ?_⟩, hb⟩
      · rw [addChains, if_neg hadded, TopologicalSorter.add, if_neg hadded]
        exact hadd
      · rw [ha.known, hknown, List.mem_cons]
        tauto
      · rw [ha.isDone, NodeInfos.isDone_addNode hnew hpreds]
      · rw [ha.isOut, NodeInfos.isOut_addNode hnew hpreds]
      · right
        rcases ha.prepare with rfl | hp
        · rfl
        · exact hp

theorem enqueueSource_spec (ctx : ExecutionContext g V) {source} (hsource : (g.statementChains source).isSome = true)
    (hcount : NodeInfos.Counted g.dependentOn ctx.dependencyDag.node2info)
    (hbyId : ∀ c, Known ctx.dependencyDag.node2info c → ctx.chainById.get? c = some c) :
    ∃ sorted dag byId, g.getSortedDependencyChain source = .ok sorted ∧ Adds g sorted ctx.dependencyDag dag ∧
      (∀ c, Known dag.node2info c → byId.get? c = some c) ∧
      ctx.enqueueSource source = .ok { ctx with
        dependencyDag := dag.prepare
        chainById := byId
        trace := .enqueued source :: ctx.trace } := by
  obtain ⟨statements, hst⟩ := Option.isSome_iff_exists.mp hsource
  have hsorted : g.getSortedDependencyChain source
      = .ok (g.topologicallySortDependencyChainFor statements) := by
    rw [ExecutionGraph.getSortedDependencyChain, hst]
  have hfirst := (ExecutionGraph.topologicallySort_dependenciesFirst statements).1
  obtain ⟨dag, byId, hadd, ha, hb⟩ := addChains_spec _ ctx.dependencyDag ctx.chainById hcount
    (fun before c after heq d hd => .inl (hfirst before c after heq d hd)) hbyId
  refine ⟨_, dag, byId, hsorted, ha, hb, ?_⟩
  rw [enqueueSource, hsorted]
  simp only [ok_bind, hadd]
  rfl

theorem Adds.valid {cs dag dag'} (h : Adds g cs dag dag')
    (hdag : dag.needsPrepare = true ∨ dag.Valid g.dependentOn) : dag'.prepare.Valid g.dependentOn := by
  rcases h.prepare with rfl | hneeds
  · rcases hdag with hneeds | hvalid
    · exact TopologicalSorter.valid_prepare hneeds h.counted
    · rwa [hvalid.prepare]
  · exact TopologicalSorter.valid_prepare hneeds h.counted

/-- **A source can be enqueued at any time**; the chains in the executor's hands stay there. -/
theorem InUse.enqueueSource (h : ctx.InUse pending running) {source}
    (hsource : (g.statementChains source).isSome = true) :
    ∃ ctx', ctx.enqueueSource source = .ok ctx' ∧ ctx'.InUse pending running ∧
      ctx'.trace = .enqueued source :: ctx.trace := by
  obtain ⟨sorted, dag, byId, hsorted, ha, hb, henq⟩ := ctx.enqueueSource_spec hsource h.valid.counted h.chainById
  refine ⟨_, henq, ?_, rfl⟩
  refine ⟨ha.valid (.inr h.valid), ?_, ?_, h.nodup, ?_, ?_, ?_, h.executedOnce, h.resolvedOnce,
    ⟨nofun, h.ordered⟩, ?_⟩
  · simpa using hb
  · intro c
    simp only [TopologicalSorter.prepare_node2info, ha.known, h.enqueued]
    constructor
    · rintro (⟨source', sorted', hmem, hs, hc⟩ | hc)
      · exact ⟨source', sorted', by simp [hmem], hs, hc⟩
      · exact ⟨source, sorted, by simp, hsorted, hc⟩
    · rintro ⟨source', sorted', hmem, hs, hc⟩
      rcases List.mem_cons.mp hmem with heq | hmem
      · cases heq
        rw [hsorted] at hs
        cases hs
        exact .inr hc
      · exact .inl ⟨source', sorted', hmem, hs, hc⟩
  · intro c
    simp only [TopologicalSorter.prepare_node2info, ha.isOut, h.out]
  · intro c
    simp only [TopologicalSorter.prepare_node2info, executions_enqueued, ha.isDone, h.executed]
  · intro c
    simp only [TopologicalSorter.prepare_node2info, resolutions_enqueued, ha.isDone, h.resolved]
  · intro c hc
    simp only [TopologicalSorter.prepare_node2info, ha.isDone] at hc
    exact h.value c hc

theorem new_inUse (g : ExecutionGraph) (V : Type) :
    ∃ ctx, new g V = .ok ctx ∧ ctx.InUse [] [] ∧ ctx.trace = [.enqueued g.entryPoint] := by
  have hcount : NodeInfos.Counted g.dependentOn (Dict.empty : NodeInfos (Fin g.size)) :=
    ⟨nofun, nofun, fun n h => (h.elim nofun nofun), nofun⟩
  obtain ⟨sorted, dag, byId, hsorted, ha, hb, henq⟩ :=
    enqueueSource_spec ({} : ExecutionContext g V) g.entryPoint_mem hcount nofun
  have hdone : ∀ c, ¬ IsDone dag.node2info c := by
    intro c hc
    cases (ha.isDone c).mp hc
  have hout : ∀ c, ¬ IsOut dag.node2info c := by
    intro c hc
    cases (ha.isOut c).mp hc
  refine ⟨_, henq, ?_, rfl⟩
  refine ⟨ha.valid (.inl rfl), by simpa using hb, ?_, List.nodup_nil, ?_, ?_, ?_, List.nodup_nil, List.nodup_nil,
    ⟨nofun, trivial⟩, ?_⟩
  · intro c
    simp only [TopologicalSorter.prepare_node2info, ha.known]
    constructor
    · rintro (hc | hc)
      · cases hc
      · exact ⟨g.entryPoint, sorted, by simp, hsorted, hc⟩
    · rintro ⟨source, sorted', hmem, hs, hc⟩
      obtain rfl : source = g.entryPoint := by simpa using hmem
      rw [hsorted] at hs
      cases hs
      exact .inr hc
  · intro c
    simpa using hout c
  · intro c
    simpa [executions, TraceEvent.executes?] using hdone c
  · intro c
    simpa [resolutions, TraceEvent.resolves?] using hdone c
  · intro c hc
    exact absurd (by simpa using hc) (hdone c)

/-- **When the executor holds no chain and none is ready, every chain that was enqueued is done.** -/
theorem InUse.all_done (h : ctx.InUse [] []) (hready : ctx.dependencyDag.readyNodes = [])
    (hc : ctx.Enqueued c) : IsDone ctx.dependencyDag.node2info c :=
  h.valid.all_done Fin.val g.dependentOn_lt hready (fun n hn => by simpa using (h.out n).mp hn) c
    ((h.enqueued c).mpr hc)

end

end ExecutionContext

end Osprey
