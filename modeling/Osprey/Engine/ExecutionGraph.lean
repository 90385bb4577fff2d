/-
`ExecutionGraph` and its compilation from sources: one dependency chain for
each node of the syntax trees, except that a loaded name stands for the chain
of its assignment.

Chains are numbered in the order they are built, and a chain is built after
the chains it depends on. That makes a compiled graph acyclic by construction,
and the order in which a source enqueues its chains one in which every chain
comes after its dependencies.
-/
import Osprey.Engine.Grammar
import Osprey.Lib.Graph
import Osprey.Lib.Raise

namespace Osprey

open Lib (Dict)

/-! ## Graphs -/

inductive AstNode
  | statement (s : Statement)
  | expression (e : Expr)

/-- What the executor uses of a `BaseNodeExecutor`: its node, `execute_async`, and the batchable
arguments type if it calls a `BatchableUDFBase`. -/
structure NodeExecutor where
  node : AstNode
  executeAsync : Bool := false
  batchType : Option String := none

/-- A compiled graph of `size` dependency chains. A chain only depends on chains built before it. -/
structure ExecutionGraph where
  size : Nat
  executor : Fin size → NodeExecutor
  dependentOn : Fin size → List (Fin size)
  dependentOn_lt : ∀ c, ∀ d ∈ dependentOn c, d < c
  /-- `_root_node_executor_mapping`: the chains of the statements of each source, by path. -/
  statementChains : String → Option (List (Fin size))
  /-- The path of `get_entry_point()`, which is one of the sources. -/
  entryPoint : String
  entryPoint_mem : (statementChains entryPoint).isSome = true

namespace ExecutionGraph

/-- `do_topological_sort`. The visited chains are those sorted so far. A chain with number `c` is
at most `c` dependencies away from the bottom, so `size` is fuel enough. -/
def doTopologicalSort (g : ExecutionGraph) : Nat → List (Fin g.size) → Fin g.size → List (Fin g.size)
  | 0, sortedChain, _ => sortedChain
  | fuel + 1, sortedChain, chain =>
    let sortedChain := (g.dependentOn chain).foldl (g.doTopologicalSort fuel) sortedChain
    if chain ∈ sortedChain then sortedChain else sortedChain ++ [chain]

/-- `_topologically_sort_dependency_chain_for`, for the chains of the statements of a source. -/
def topologicallySortDependencyChainFor (g : ExecutionGraph) (statements : List (Fin g.size)) : List (Fin g.size) :=
  statements.foldl (g.doTopologicalSort g.size) []

def getSortedDependencyChain (g : ExecutionGraph) (source : String) : Except Exc (List (Fin g.size)) :=
  match g.statementChains source with
  | none => .error ⟨.keyError, source⟩
  | some statements => .ok (g.topologicallySortDependencyChainFor statements)

/-! ## The order of the chains of a source -/

variable {g : ExecutionGraph}

/-- Every chain of the list comes after its dependencies. -/
def DependenciesFirst (g : ExecutionGraph) (l : List (Fin g.size)) : Prop :=
  ∀ before c after, l = before ++ c :: after → ∀ d ∈ g.dependentOn c, d ∈ before

theorem DependenciesFirst.nil : DependenciesFirst g [] := by
  intro before c after h
  simp at h

theorem DependenciesFirst.concat {l} (h : DependenciesFirst g l) {c}
    (hc : ∀ d ∈ g.dependentOn c, d ∈ l) : DependenciesFirst g (l ++ [c]) :=
  Lib.Graph.EdgesFirst.concat h hc

/-- A visit of a chain sorts it in after its dependencies, and leaves what was sorted in front. -/
def Visits (visit : List (Fin g.size) → Fin g.size → List (Fin g.size)) (c : Fin g.size) : Prop :=
  ∀ l, DependenciesFirst g l → DependenciesFirst g (visit l c) ∧ c ∈ visit l c ∧ l <+: visit l c

theorem foldl_visits {visit} (cs : List (Fin g.size))
    (hvisit : ∀ c ∈ cs, Visits visit c) (l : List (Fin g.size)) (hl : DependenciesFirst g l) :
    DependenciesFirst g (cs.foldl visit l) ∧ (∀ c ∈ cs, c ∈ cs.foldl visit l) ∧ l <+: cs.foldl visit l := by
  induction cs generalizing l with
  | nil => exact ⟨hl, by simp, List.prefix_rfl⟩
  | cons c cs ih =>
    obtain ⟨h₁, hmem, hpre⟩ := hvisit c (by simp) l hl
    obtain ⟨h₂, hmems, hpre'⟩ := ih (fun c' hc' => hvisit c' (by simp [hc'])) _ h₁
    refine ⟨h₂, ?_, hpre.trans hpre'⟩
    intro c' hc'
    rcases List.mem_cons.mp hc' with rfl | hc'
    · exact hpre'.subset hmem
    · exact hmems c' hc'

theorem doTopologicalSort_visits (fuel : Nat) (c : Fin g.size) (hc : c.val < fuel) :
    Visits (g.doTopologicalSort fuel) c := by
  induction fuel generalizing c with
  | zero => omega
  | succ fuel ih =>
    intro l hl
    have hdep : ∀ d ∈ g.dependentOn c, Visits (g.doTopologicalSort fuel) d := by
      intro d hd
      have hlt : d.val < c.val := g.dependentOn_lt c d hd
      exact ih d (by omega)
    obtain ⟨h₁, hdeps, hpre⟩ := foldl_visits (g.dependentOn c) hdep l hl
    rw [doTopologicalSort]
    split
    · next hmem => exact ⟨h₁, hmem, hpre⟩
    · exact ⟨h₁.concat hdeps, by simp, hpre.trans (List.prefix_append _ _)⟩

/-- **Dependencies first**: the chains a source enqueues contain those of its statements, and each
comes after its dependencies. -/
theorem topologicallySort_dependenciesFirst (statements : List (Fin g.size)) :
    DependenciesFirst g (g.topologicallySortDependencyChainFor statements) ∧
      ∀ c ∈ statements, c ∈ g.topologicallySortDependencyChainFor statements := by
  obtain ⟨h, hmem, -⟩ := foldl_visits statements (fun c _ => doTopologicalSort_visits g.size c c.isLt) [] .nil
  exact ⟨h, hmem⟩

end ExecutionGraph

/-! ## Compilation -/

namespace ExecutionGraph

/-- A `DependencyChain` of a graph that is being built; the chains it depends on are given by number. -/
structure DependencyChain where
  executor : NodeExecutor
  dependentOn : List Nat

/-- What the compilation uses of the UDF of a call: `execute_async`, the batchable arguments type if
there is one, and which arguments are `ConstExpr`s. -/
structure Udf where
  executeAsync : Bool
  batchType : Option String
  isConstExpr : String → Bool

def newChain (chains : List DependencyChain) (executor : NodeExecutor) (dependentOn : List Nat) :
    List DependencyChain × Nat := (chains ++ [⟨executor, dependentOn⟩], chains.length)

def getAssignmentDependencyChain (assignments : Dict String Nat) (n : Name) : Except Exc Nat :=
  match assignments.get? n.identifierKey with
  | none => .error ⟨.keyError, n.identifierKey⟩
  | some c => .ok c

section

variable (udfs : CallNode → Udf) (assignments : Dict String Nat)

def callExecutor (node : AstNode) (call : CallNode) : NodeExecutor :=
  ⟨node, (udfs call).executeAsync, (udfs call).batchType⟩

mutual

/-- `_build_dependency_chain` for an expression. The dependent nodes of a call are its arguments that
are not `ConstExpr`s. No executor is registered for an attribute. -/
def buildDependencyChain (chains : List DependencyChain) : Expr → Except Exc (List DependencyChain × Nat)
  | .name n => do return (chains, ← getAssignmentDependencyChain assignments n)
  | .attributeAccess .. => .error ⟨.keyError, "Attribute"⟩
  | .call id func arguments => do
    let (chains, dependentOn) ← buildArguments (udfs ⟨id, func, arguments⟩).isConstExpr chains arguments
    return newChain chains
      (callExecutor udfs (.expression (.call id func arguments)) ⟨id, func, arguments⟩) dependentOn
  | .list items => do
    let (chains, dependentOn) ← buildAll chains items
    return newChain chains ⟨.expression (.list items), false, none⟩ dependentOn
  | .binaryOperation left right operator => do
    let (chains, l) ← buildDependencyChain chains left
    let (chains, r) ← buildDependencyChain chains right
    return newChain chains ⟨.expression (.binaryOperation left right operator), false, none⟩ [l, r]
  | .unaryOperation operand operator => do
    let (chains, o) ← buildDependencyChain chains operand
    return newChain chains ⟨.expression (.unaryOperation operand operator), false, none⟩ [o]
  | .binaryComparison left right comparator => do
    let (chains, l) ← buildDependencyChain chains left
    let (chains, r) ← buildDependencyChain chains right
    return newChain chains ⟨.expression (.binaryComparison left right comparator), false, none⟩ [l, r]
  | .booleanOperation values operand => do
    let (chains, dependentOn) ← buildAll chains values
    return newChain chains ⟨.expression (.booleanOperation values operand), false, none⟩ dependentOn
  | .formatString text names => do
    let dependentOn ← names.mapM (getAssignmentDependencyChain assignments)
    return newChain chains ⟨.expression (.formatString text names), false, none⟩ dependentOn
  | .string s => .ok (newChain chains ⟨.expression (.string s), false, none⟩ [])
  | .number id => .ok (newChain chains ⟨.expression (.number id), false, none⟩ [])
  | .boolean b => .ok (newChain chains ⟨.expression (.boolean b), false, none⟩ [])
  | .none => .ok (newChain chains ⟨.expression .none, false, none⟩ [])

def buildAll (chains : List DependencyChain) : List Expr → Except Exc (List DependencyChain × List Nat)
  | [] => .ok (chains, [])
  | e :: es => do
    let (chains, c) ← buildDependencyChain chains e
    let (chains, cs) ← buildAll chains es
    return (chains, c :: cs)

def buildArguments (isConstExpr : String → Bool) (chains : List DependencyChain) :
    List (String × Expr) → Except Exc (List DependencyChain × List Nat)
  | [] => .ok (chains, [])
  | (key, e) :: es =>
    if isConstExpr key then buildArguments isConstExpr chains es
    else do
      let (chains, c) ← buildDependencyChain chains e
      let (chains, cs) ← buildArguments isConstExpr chains es
      return (chains, c :: cs)

end

/-- `_build_dependency_chain` for a statement. -/
def buildStatement (chains : List DependencyChain) : Statement → Except Exc (List DependencyChain × Nat)
  | .assign a => do
    let (chains, v) ← buildDependencyChain udfs assignments chains a.value
    return newChain chains ⟨.statement (.assign a), false, none⟩ [v]
  | .call c => do
    let (chains, dependentOn) ← buildArguments udfs assignments (udfs c).isConstExpr chains c.arguments
    return newChain chains (callExecutor udfs (.statement (.call c)) c) dependentOn

end

structure Builder where
  chains : List DependencyChain := []
  assignments : Dict String Nat := Dict.empty
  statementChains : Dict String (List Nat) := Dict.empty

/-- The loop of `_add_validated_source`, with the chains of the statements so far. -/
def addStatements (udfs : CallNode → Udf) (b : Builder) (statementChains : List Nat) :
    List Statement → Except Exc (Builder × List Nat)
  | [] => .ok (b, statementChains)
  | s :: rest => do
    let (chains, c) ← buildStatement udfs b.assignments b.chains s
    let assignments := match s with
      | .assign a => b.assignments.set a.target.identifierKey c
      | .call _ => b.assignments
    addStatements udfs { b with chains := chains, assignments := assignments } (statementChains ++ [c]) rest

def addValidatedSource (udfs : CallNode → Udf) (b : Builder) (source : Source) : Except Exc Builder := do
  let (b, statementChains) ← addStatements udfs b [] source.statements
  return { b with statementChains := b.statementChains.set source.path statementChains }

/-- `chain_dedupe`; a source is known by its path. -/
def chainDedupe (seen : List String) : List Source → List Source
  | [] => []
  | s :: rest => if s.path ∈ seen then chainDedupe seen rest else s :: chainDedupe (seen ++ [s.path]) rest

/-! ## Compiled graphs are acyclic -/

/-- Every chain depends on chains with smaller numbers only. -/
def WellBuilt (chains : List DependencyChain) : Prop :=
  ∀ (i : Nat) (chain : DependencyChain), chains[i]? = some chain → ∀ d ∈ chain.dependentOn, d < i

/-- The names refer to chains that exist. -/
def InRange (assignments : Dict String Nat) (n : Nat) : Prop := ∀ k c, assignments.get? k = some c → c < n

variable {assignments : Dict String Nat} {n : Nat}

theorem InRange.mono {m} (h : InRange assignments m) (hmn : m ≤ n) :
    InRange assignments n := fun k c hc => lt_of_lt_of_le (h k c hc) hmn

variable {chains : List DependencyChain}

theorem WellBuilt.newChain (h : WellBuilt chains) (executor : NodeExecutor)
    {dependentOn} (hdeps : ∀ d ∈ dependentOn, d < chains.length) :
    WellBuilt (chains ++ [⟨executor, dependentOn⟩]) := by
  intro i chain hi d hd
  by_cases hlt : i < chains.length
  · rw [List.getElem?_append_left hlt] at hi
    exact h i chain hi d hd
  · obtain ⟨hlt', hi⟩ := List.getElem?_eq_some_iff.mp hi
    obtain rfl : i = chains.length := by simp at hlt'; omega
    obtain rfl : (⟨executor, dependentOn⟩ : DependencyChain) = chain := by simpa using hi
    exact hdeps d hd

/-- More chains were built: they are well built too, and the numbers that came out are in use. -/
structure Grows (chains chains' : List DependencyChain) (cs : List Nat) : Prop where
  wellBuilt : WellBuilt chains'
  start : chains <+: chains'
  lt : ∀ c ∈ cs, c < chains'.length

variable {chains' : List DependencyChain}

theorem Grows.le {cs} (h : Grows chains chains' cs) :
    chains.length ≤ chains'.length := h.start.length_le

variable {c : Nat}

theorem Grows.newChain {chains₁ executor dependentOn} (h : Grows chains chains₁ dependentOn)
    (heq : ExecutionGraph.newChain chains₁ executor dependentOn = (chains', c)) : Grows chains chains' [c] := by
  simp only [ExecutionGraph.newChain, Prod.mk.injEq] at heq
  obtain ⟨rfl, rfl⟩ := heq
  exact ⟨h.wellBuilt.newChain executor h.lt, h.start.trans (List.prefix_append _ _), by simp⟩

theorem Grows.cons {chains₁ cs}
    (h : Grows chains chains₁ [c]) (h' : Grows chains₁ chains' cs) : Grows chains chains' (c :: cs) := by
  refine ⟨h'.wellBuilt, h.start.trans h'.start, ?_⟩
  intro d hd
  rcases List.mem_cons.mp hd with rfl | hd
  · exact lt_of_lt_of_le (h.lt d (by simp)) h'.le
  · exact h'.lt d hd

theorem Grows.refl (h : WellBuilt chains) : Grows chains chains [] :=
  ⟨h, List.prefix_rfl, by simp⟩

theorem getAssignment_lt (h : InRange assignments n) {name}
    (heq : getAssignmentDependencyChain assignments name = .ok c) : c < n := by
  unfold getAssignmentDependencyChain at heq
  split at heq
  · cases heq
  · next hc =>
    cases heq
    exact h _ _ hc

section

variable {udfs : CallNode → Udf} {assignments : Dict String Nat}

def dependentNodes (isConstExpr : String → Bool) (es : List (String × Expr)) : List Expr :=
  es.filterMap fun e => if isConstExpr e.1 then none else some e.2

theorem exists_of_mem_dependentNodes {isConstExpr es e}
    (h : e ∈ dependentNodes isConstExpr es) : ∃ a ∈ es, a.2 = e := by
  obtain ⟨a, ha, heq⟩ := List.mem_filterMap.mp h
  exact ⟨a, ha, Option.some.inj (Option.ite_none_left_eq_some.mp heq).2⟩

theorem buildArguments_eq (isConstExpr : String → Bool) (es : List (String × Expr)) (chains : List DependencyChain) :
    buildArguments udfs assignments isConstExpr chains es =
      buildAll udfs assignments chains (dependentNodes isConstExpr es) := by
  induction es generalizing chains with
  | nil => rfl
  | cons e es ih =>
    rw [buildArguments, dependentNodes, List.filterMap_cons]
    split
    · exact ih chains
    · simp only [buildAll, ih]
      rfl

theorem buildAll_grows {es chains chains' cs} (hes : ∀ e ∈ es, ∀ {chains chains' c}, WellBuilt chains →
      InRange assignments chains.length → buildDependencyChain udfs assignments chains e = .ok (chains', c) →
      Grows chains chains' [c])
    (hw : WellBuilt chains) (hr : InRange assignments chains.length)
    (h : buildAll udfs assignments chains es = .ok (chains', cs)) : Grows chains chains' cs := by
  induction es generalizing chains cs with
  | nil =>
    cases h
    exact .refl hw
  | cons e es ih =>
    obtain ⟨he, hes⟩ := List.forall_mem_cons.mp hes
    rw [buildAll] at h
    obtain ⟨⟨chains₁, c⟩, hchain, h⟩ := bind_eq_ok.mp h
    obtain ⟨⟨chains₂, cs'⟩, hrest, h⟩ := bind_eq_ok.mp h
    cases h
    have hc := he hw hr hchain
    exact hc.cons (ih hes hc.wellBuilt (hr.mono hc.le) hrest)

theorem buildDependencyChain_grows (e : Expr) {chains chains' c} (hw : WellBuilt chains)
    (hr : InRange assignments chains.length) (h : buildDependencyChain udfs assignments chains e = .ok (chains', c)) :
    Grows chains chains' [c] := by
  induction e generalizing chains chains' c with
  | name n =>
    obtain ⟨c', hc, h⟩ := bind_eq_ok.mp h
    cases h
    exact ⟨hw, List.prefix_rfl, by simpa using getAssignment_lt hr hc⟩
  | attributeAccess n attributeName => cases h
  | call id func arguments ih =>
    obtain ⟨⟨chains₁, cs⟩, hargs, h⟩ := bind_eq_ok.mp h
    rw [buildArguments_eq] at hargs
    refine (buildAll_grows (fun e he => ?_) hw hr hargs).newChain (Except.ok.inj h)
    obtain ⟨a, ha, rfl⟩ := exists_of_mem_dependentNodes he
    exact ih a ha
  | list es ih | booleanOperation es operand ih =>
    obtain ⟨⟨chains₁, cs⟩, hes, h⟩ := bind_eq_ok.mp h
    exact (buildAll_grows ih hw hr hes).newChain (Except.ok.inj h)
  | binaryOperation left right operator ihl ihr | binaryComparison left right comparator ihl ihr =>
    obtain ⟨⟨chains₁, l⟩, hleft, h⟩ := bind_eq_ok.mp h
    obtain ⟨⟨chains₂, r⟩, hright, h⟩ := bind_eq_ok.mp h
    have hl := ihl hw hr hleft
    have hr' := ihr hl.wellBuilt (hr.mono hl.le) hright
    exact (hl.cons hr').newChain (Except.ok.inj h)
  | unaryOperation operand operator ih =>
    obtain ⟨⟨chains₁, o⟩, hoperand, h⟩ := bind_eq_ok.mp h
    exact (ih hw hr hoperand).newChain (Except.ok.inj h)
  | formatString text names =>
    obtain ⟨cs, hnames, h⟩ := bind_eq_ok.mp h
    have hg : Grows chains chains cs := by
      refine ⟨hw, List.prefix_rfl, fun c hc => ?_⟩
      obtain ⟨name, -, hname⟩ := (Lib.mem_of_mapM_ok hnames).mp hc
      exact getAssignment_lt hr hname
    exact hg.newChain (Except.ok.inj h)
  | string | number | boolean | none => exact (Grows.refl hw).newChain (Except.ok.inj h)

theorem buildArguments_grows {isConstExpr es chains chains' cs} (hw : WellBuilt chains)
    (hr : InRange assignments chains.length)
    (h : buildArguments udfs assignments isConstExpr chains es = .ok (chains', cs)) : Grows chains chains' cs :=
  buildAll_grows (fun e _ => buildDependencyChain_grows e) hw hr (buildArguments_eq isConstExpr es chains ▸ h)

end

variable {udfs : CallNode → Udf}

theorem buildStatement_grows (s : Statement) (hw : WellBuilt chains) (hr : InRange assignments chains.length)
    (h : buildStatement udfs assignments chains s = .ok (chains', c)) : Grows chains chains' [c] := by
  cases s with
  | assign a =>
    obtain ⟨⟨chains₁, v⟩, hv, h⟩ := bind_eq_ok.mp h
    exact (buildDependencyChain_grows a.value hw hr hv).newChain (Except.ok.inj h)
  | call call =>
    obtain ⟨⟨chains₁, cs⟩, hargs, h⟩ := bind_eq_ok.mp h
    exact (buildArguments_grows hw hr hargs).newChain (Except.ok.inj h)

structure Builder.Valid (b : Builder) : Prop where
  wellBuilt : WellBuilt b.chains
  assignments : InRange b.assignments b.chains.length
  statementChains : ∀ path cs, b.statementChains.get? path = some cs → ∀ c ∈ cs, c < b.chains.length

theorem Builder.valid_empty : Builder.Valid {} where
  wellBuilt i chain hi := by simp at hi
  assignments k c hc := by simp at hc
  statementChains path cs hcs := by simp at hcs

theorem addStatements_valid : ∀ (statements : List Statement) {b b' cs cs'}, b.Valid → (∀ c ∈ cs, c < b.chains.length) →
    addStatements udfs b cs statements = .ok (b', cs') → b'.Valid ∧ ∀ c ∈ cs', c < b'.chains.length
  | [], b, b', cs, cs', hb, hcs, h => by
    cases h
    exact ⟨hb, hcs⟩
  | s :: rest, b, b', cs, cs', hb, hcs, h => by
    obtain ⟨⟨chains, c⟩, hs, h⟩ := bind_eq_ok.mp h
    have hg := buildStatement_grows s hb.wellBuilt hb.assignments hs
    have hlt : c < chains.length := hg.lt c (by simp)
    refine addStatements_valid rest ⟨hg.wellBuilt, ?_, ?_⟩ ?_ h
    · cases s with
      | call call => exact hb.assignments.mono hg.le
      | assign a =>
        exact Dict.forall_set (hb.assignments.mono hg.le) hlt
    · intro path ds hds d hd
      exact lt_of_lt_of_le (hb.statementChains path ds hds d hd) hg.le
    · intro d hd
      rcases List.mem_append.mp hd with hd | hd
      · exact lt_of_lt_of_le (hcs d hd) hg.le
      · obtain rfl : d = c := by simpa using hd
        exact hlt

theorem addValidatedSource_valid {b b' source} (hb : b.Valid)
    (h : addValidatedSource udfs b source = .ok b') : b'.Valid := by
  obtain ⟨⟨b₁, cs⟩, hadd, h⟩ := bind_eq_ok.mp h
  cases h
  obtain ⟨hb₁, hcs⟩ := addStatements_valid source.statements hb (by simp) hadd
  exact ⟨hb₁.wellBuilt, hb₁.assignments, Dict.forall_set hb₁.statementChains hcs⟩

theorem addValidatedSources_valid : ∀ (sources : List Source) {b b'}, b.Valid →
    sources.foldlM (addValidatedSource udfs) b = .ok b' → b'.Valid
  | [], b, b', hb, h => by
    cases h
    exact hb
  | source :: rest, b, b', hb, h => by
    rw [List.foldlM_cons] at h
    obtain ⟨b₁, hadd, h⟩ := bind_eq_ok.mp h
    exact addValidatedSources_valid rest (addValidatedSource_valid hb hadd) h

theorem addStatements_statementChains : ∀ (statements : List Statement)
    {b b' cs cs'}, addStatements udfs b cs statements = .ok (b', cs') → b'.statementChains = b.statementChains
  | [], b, b', cs, cs', h => by
    cases h
    rfl
  | s :: rest, b, b', cs, cs', h => by
    obtain ⟨⟨chains, c⟩, hs, h⟩ := bind_eq_ok.mp h
    have hrest := addStatements_statementChains rest h
    exact hrest

theorem addValidatedSource_statementChains {b b' source} (h : addValidatedSource udfs b source = .ok b') {path}
    (hpath : path = source.path ∨ (b.statementChains.get? path).isSome = true) :
    (b'.statementChains.get? path).isSome = true := by
  obtain ⟨⟨b₁, cs⟩, hadd, h⟩ := bind_eq_ok.mp h
  cases h
  simp only [Dict.get?_set, addStatements_statementChains source.statements hadd]
  split
  · rfl
  · next hne => exact hpath.resolve_left hne

theorem addValidatedSources_statementChains : ∀ (sources : List Source) {b b'},
    sources.foldlM (addValidatedSource udfs) b = .ok b' → ∀ {path},
    (∃ s ∈ sources, s.path = path) ∨ (b.statementChains.get? path).isSome = true →
    (b'.statementChains.get? path).isSome = true
  | [], b, b', h, path, hpath => by
    cases h
    simpa using hpath
  | source :: rest, b, b', h, path, hpath => by
    rw [List.foldlM_cons] at h
    obtain ⟨b₁, hadd, h⟩ := bind_eq_ok.mp h
    refine addValidatedSources_statementChains rest h ?_
    rcases hpath with ⟨s, hs, rfl⟩ | hpath
    · rcases List.mem_cons.mp hs with rfl | hs
      · exact .inr (addValidatedSource_statementChains hadd (.inl rfl))
      · exact .inl ⟨s, hs, rfl⟩
    · exact .inr (addValidatedSource_statementChains hadd (.inr hpath))

theorem exists_mem_chainDedupe : ∀ (sources : List Source) (seen : List String) (s : Source), s ∈ sources →
    s.path ∈ seen ∨ ∃ s' ∈ chainDedupe seen sources, s'.path = s.path
  | s' :: rest, seen, s, hs => by
    rw [chainDedupe]
    rcases List.mem_cons.mp hs with rfl | hs
    · split
      · next hmem => exact .inl hmem
      · exact .inr ⟨s, by simp, rfl⟩
    · split
      · exact exists_mem_chainDedupe rest seen s hs
      · rcases exists_mem_chainDedupe rest (seen ++ [s'.path]) s hs with hmem | ⟨s₁, hs₁, heq⟩
        · rcases List.mem_append.mp hmem with hmem | hmem
          · exact .inl hmem
          · exact .inr ⟨s', by simp, by simpa using (List.mem_singleton.mp hmem).symm⟩
        · exact .inr ⟨s₁, by simp [hs₁], heq⟩

def Builder.toGraph (b : Builder) (hb : b.Valid) (entryPoint : String)
    (hentry : (b.statementChains.get? entryPoint).isSome = true) : ExecutionGraph where
  size := b.chains.length
  executor c := b.chains[c].executor
  dependentOn c := b.chains[c].dependentOn.pmap (fun d hd => ⟨d, hd⟩)
    fun d hd => lt_trans (hb.wellBuilt c _ (List.getElem?_eq_getElem c.isLt) d hd) c.isLt
  dependentOn_lt c d hd := by
    obtain ⟨d', hd', rfl⟩ := List.mem_pmap.mp hd
    exact hb.wellBuilt c _ (List.getElem?_eq_getElem c.isLt) d' hd'
  statementChains path := (b.statementChains.get? path).pmap (fun cs hcs => cs.pmap (fun c hc => ⟨c, hc⟩) hcs)
    fun cs h => hb.statementChains path cs h
  entryPoint := entryPoint
  entryPoint_mem := by simpa using hentry

/-- `compile_execution_graph`: `sortedSources` is the result of `ImportsMustNotHaveCycles`. -/
def compileExecutionGraph (udfs : CallNode → Udf) (sortedSources sources : List Source) (entryPoint : Source)
    (hentry : entryPoint ∈ sources) : Except Exc ExecutionGraph :=
  match h : (chainDedupe [] (sortedSources ++ sources)).foldlM (addValidatedSource udfs) {} with
  | .error e => .error e
  | .ok b => .ok (b.toGraph (addValidatedSources_valid _ Builder.valid_empty h) entryPoint.path
      (addValidatedSources_statementChains _ h (.inl ((exists_mem_chainDedupe _ [] entryPoint
        (List.mem_append_right _ hentry)).resolve_left (by simp)))))

end ExecutionGraph

end Osprey
