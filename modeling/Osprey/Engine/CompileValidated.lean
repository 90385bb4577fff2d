/-
The compilation of a validated rule set. Building the chain of a value goes
down to leaves, where it looks up the assignment of a loaded name or fails
over an attribute, for which there is no executor. In a rule set that
`UniqueStoredNames`, `ImportsMustNotHaveCycles` and `VariablesMustBeDefined`
accept every lookup succeeds, because the order of compilation has the
sources that a source imports before it. So the compilation fails over
attributes only, which `ValidateStaticTypes` refuses and these three do not.
-/
import Osprey.Engine.DefinedNames

namespace Osprey

open Lib (Dict)
open ExecutionGraph RuleSet

/-! ## The leaves of a value -/

/-- Where the building of a chain goes no further down. -/
inductive Leaf
  | name (n : Name)
  | attributeAccess (n : Name) (attributeName : String)
  deriving DecidableEq, Repr

section

variable (udfs : CallNode → Udf)

mutual

def Expr.leaves : Expr → List Leaf
  | .name n => [.name n]
  | .attributeAccess n attributeName => [.attributeAccess n attributeName]
  | .call id func arguments => argumentLeaves (udfs ⟨id, func, arguments⟩).isConstExpr arguments
  | .list items => listLeaves items
  | .binaryOperation left right _ => left.leaves ++ right.leaves
  | .unaryOperation operand _ => operand.leaves
  | .binaryComparison left right _ => left.leaves ++ right.leaves
  | .booleanOperation values _ => listLeaves values
  | .formatString _ names => names.map .name
  | .string _ | .number _ | .boolean _ | .none => []

def listLeaves : List Expr → List Leaf
  | [] => []
  | e :: es => e.leaves ++ listLeaves es

def argumentLeaves (isConstExpr : String → Bool) : List (String × Expr) → List Leaf
  | [] => []
  | (key, e) :: es =>
    if isConstExpr key then argumentLeaves isConstExpr es else e.leaves ++ argumentLeaves isConstExpr es

end

def Statement.leaves : Statement → List Leaf
  | .assign a => a.value.leaves udfs
  | .call c => argumentLeaves udfs (udfs c).isConstExpr c.arguments

end

/-- A chain can be had for the leaf. -/
def Leaf.Resolves (assignments : Dict String Nat) : Leaf → Prop
  | .name n => (assignments.get? n.identifierKey).isSome = true
  | .attributeAccess .. => False

def IsOk {α : Type} (x : Except Exc α) : Prop := ∃ a, x = .ok a

variable {α : Type}

@[simp] theorem isOk_ok (a : α) : IsOk (.ok a : Except Exc α) := ⟨a, rfl⟩

@[simp] theorem isOk_pure (a : α) : IsOk (pure a : Except Exc α) := ⟨a, rfl⟩

theorem isOk_bind {β : Type} {x} {f : α → Except Exc β} {P : Prop} (hf : ∀ a, IsOk (f a) ↔ P) :
    IsOk (x >>= f) ↔ IsOk x ∧ P := by
  constructor
  · rintro ⟨b, hb⟩
    obtain ⟨a, ha, hfa⟩ := bind_eq_ok.mp hb
    exact ⟨⟨a, ha⟩, (hf a).mp ⟨b, hfa⟩⟩
  · rintro ⟨⟨a, rfl⟩, hP⟩
    exact (hf a).mpr hP

theorem isOk_bind_pure {β : Type} {x} {f : α → β} : IsOk (do let a ← x; return f a) ↔ IsOk x := by
  rw [isOk_bind (fun a => iff_of_true (isOk_pure _) trivial), and_true]

variable {assignments : Dict String Nat} {n : Name}

theorem isOk_getAssignment :
    IsOk (getAssignmentDependencyChain assignments n) ↔ (Leaf.name n).Resolves assignments := by
  unfold getAssignmentDependencyChain
  cases hget : assignments.get? n.identifierKey with
  | none => simp [IsOk, Leaf.Resolves, hget]
  | some c => simp [Leaf.Resolves, hget]

theorem isOk_mapM_getAssignment (names : List Name) :
    IsOk (names.mapM (getAssignmentDependencyChain assignments)) ↔
      ∀ leaf ∈ names.map Leaf.name, leaf.Resolves assignments := by
  rw [List.forall_mem_map]
  exact Lib.exists_mapM_ok_iff.trans (forall₂_congr fun _ _ => isOk_getAssignment)

section

variable {udfs : CallNode → Udf} {assignments : Dict String Nat}

theorem listLeaves_eq (es : List Expr) : listLeaves udfs es = es.flatMap (Expr.leaves udfs) := by
  induction es with
  | nil => rfl
  | cons e es ih => rw [listLeaves, ih, List.flatMap_cons]

theorem argumentLeaves_eq (isConstExpr : String → Bool) (es : List (String × Expr)) :
    argumentLeaves udfs isConstExpr es = (dependentNodes isConstExpr es).flatMap (Expr.leaves udfs) := by
  induction es with
  | nil => rfl
  | cons e es ih =>
    rw [argumentLeaves, dependentNodes, List.filterMap_cons, ih]
    split <;> rfl

theorem isOk_buildAll {es : List Expr} (hes : ∀ e ∈ es, ∀ chains : List DependencyChain,
      IsOk (buildDependencyChain udfs assignments chains e) ↔ ∀ leaf ∈ e.leaves udfs, leaf.Resolves assignments)
    (chains : List DependencyChain) :
    IsOk (buildAll udfs assignments chains es) ↔ ∀ leaf ∈ es.flatMap (Expr.leaves udfs), leaf.Resolves assignments := by
  induction es generalizing chains with
  | nil => simp [buildAll]
  | cons e es ih =>
    obtain ⟨he, hes⟩ := List.forall_mem_cons.mp hes
    rw [buildAll, isOk_bind fun _ => isOk_bind_pure.trans (ih hes _), he, List.flatMap_cons, List.forall_mem_append]

theorem isOk_buildDependencyChain (e : Expr) (chains : List DependencyChain) :
    IsOk (buildDependencyChain udfs assignments chains e) ↔ ∀ leaf ∈ e.leaves udfs, leaf.Resolves assignments := by
  induction e generalizing chains with
  | name n =>
    rw [buildDependencyChain, isOk_bind_pure, isOk_getAssignment]
    simp [Expr.leaves]
  | attributeAccess n attributeName => simp [buildDependencyChain, Expr.leaves, IsOk, Leaf.Resolves]
  | call id func arguments ih =>
    rw [buildDependencyChain, isOk_bind_pure, buildArguments_eq, Expr.leaves, argumentLeaves_eq]
    refine isOk_buildAll (fun e he => ?_) chains
    obtain ⟨a, ha, rfl⟩ := exists_of_mem_dependentNodes he
    exact ih a ha
  | list es ih | booleanOperation es operand ih =>
    rw [buildDependencyChain, isOk_bind_pure, isOk_buildAll ih, Expr.leaves, listLeaves_eq]
  | binaryOperation left right operator ihl ihr | binaryComparison left right comparator ihl ihr =>
    rw [buildDependencyChain, isOk_bind fun _ => isOk_bind_pure.trans (ihr _), ihl, Expr.leaves,
      List.forall_mem_append]
  | unaryOperation operand operator ih => rw [buildDependencyChain, isOk_bind_pure, ih, Expr.leaves]
  | formatString text names => rw [buildDependencyChain, isOk_bind_pure, isOk_mapM_getAssignment, Expr.leaves]
  | string | number | boolean | none => simp [buildDependencyChain, Expr.leaves]

theorem isOk_buildArguments (isConstExpr : String → Bool) (es : List (String × Expr)) (chains : List DependencyChain) :
    IsOk (buildArguments udfs assignments isConstExpr chains es) ↔
      ∀ leaf ∈ argumentLeaves udfs isConstExpr es, leaf.Resolves assignments := by
  rw [buildArguments_eq, argumentLeaves_eq, isOk_buildAll fun e _ => isOk_buildDependencyChain e]

theorem isOk_buildStatement (st : Statement) (chains : List DependencyChain) :
    IsOk (buildStatement udfs assignments chains st) ↔ ∀ leaf ∈ st.leaves udfs, leaf.Resolves assignments := by
  cases st with
  | assign a => rw [buildStatement, isOk_bind_pure, isOk_buildDependencyChain, Statement.leaves]
  | call c => rw [buildStatement, isOk_bind_pure, isOk_buildArguments, Statement.leaves]

end

/-! ## The leaves are loads -/

section

variable {udfs : CallNode → Udf} {n : Name}

theorem load_mem_of_argumentLeaf {isConstExpr es} (hes : ∀ e ∈ es, .name n ∈ e.2.leaves udfs → .load n ∈ e.2.nodes)
    (h : .name n ∈ argumentLeaves udfs isConstExpr es) : .load n ∈ argumentNodes es := by
  rw [argumentLeaves_eq, List.mem_flatMap] at h
  obtain ⟨e, he, h⟩ := h
  obtain ⟨a, ha, rfl⟩ := exists_of_mem_dependentNodes he
  rw [argumentNodes_eq]
  exact List.mem_flatMap.mpr ⟨a, ha, hes a ha h⟩

theorem load_mem_of_leaf (e : Expr) (h : .name n ∈ e.leaves udfs) : .load n ∈ e.nodes := by
  induction e with
  | string | number | boolean | none => cases h
  | name n' =>
    have heq : n = n' := by simpa [Expr.leaves] using h
    simp [Expr.nodes, heq]
  | attributeAccess => simp [Expr.leaves] at h
  | call id func arguments ih => simp [Expr.nodes, load_mem_of_argumentLeaf ih h]
  | list es ih | booleanOperation es operand ih =>
    rw [Expr.leaves, listLeaves_eq, List.mem_flatMap] at h
    obtain ⟨e, he, h⟩ := h
    rw [Expr.nodes, listNodes_eq]
    exact List.mem_flatMap.mpr ⟨e, he, ih e he h⟩
  | binaryOperation left right operator ihl ihr | binaryComparison left right comparator ihl ihr =>
    exact List.mem_append.mpr ((List.mem_append.mp h).imp ihl ihr)
  | unaryOperation operand operator ih => exact ih h
  | formatString text names =>
    have hn : n ∈ names := by simpa [Expr.leaves] using h
    simpa [Expr.nodes] using hn

theorem load_mem_valueNodes {st} (h : .name n ∈ st.leaves udfs) : .load n ∈ valueNodes st := by
  cases st with
  | assign a => exact load_mem_of_leaf a.value h
  | call c => exact load_mem_of_argumentLeaf (fun e _ => load_mem_of_leaf e.2) h

end

/-! ## Registered assignments -/

def Registered (b : Builder) (a : Assign) : Prop :=
  ∃ c, b.assignments.get? a.target.identifierKey = some c ∧
    (b.chains[c]?).map (fun chain => chain.executor.node) = some (.statement (.assign a))

def targetKeys (assigns : List Assign) : List String := assigns.map (·.target.identifierKey)

section

variable {udfs : CallNode → Udf}

variable {chains : List DependencyChain} {a : Assign} {c : Nat}

theorem buildStatement_assign {chains'} (h : buildStatement udfs assignments chains (.assign a) = .ok (chains', c)) :
    (chains'[c]?).map (fun chain => chain.executor.node) = some (.statement (.assign a)) := by
  obtain ⟨⟨chains₁, v⟩, -, h⟩ := bind_eq_ok.mp h
  cases h
  simp

variable {b : Builder}

theorem Registered.mono {b'} (h : Registered b a) (hchains : b.chains <+: b'.chains)
    (hget : b'.assignments.get? a.target.identifierKey = b.assignments.get? a.target.identifierKey) :
    Registered b' a := by
  obtain ⟨c, hc, hnode⟩ := h
  refine ⟨c, hget.trans hc, ?_⟩
  cases hchain : b.chains[c]? with
  | none => simp [hchain] at hnode
  | some chain =>
    have hlt : c < b.chains.length := (List.getElem?_eq_some_iff.mp hchain).1
    obtain ⟨more, hmore⟩ := hchains
    rw [← hmore, List.getElem?_append_left hlt]
    exact hnode

/-- What one statement makes of a builder. -/
def ExecutionGraph.Builder.register (b : Builder) (st : Statement) (chains : List DependencyChain) (c : Nat) :
    Builder :=
  { b with
    chains := chains
    assignments := match st with
      | .assign a => b.assignments.set a.target.identifierKey c
      | .call _ => b.assignments }

theorem addStatements_cons (b : Builder) (cs : List Nat) (st : Statement) (rest : List Statement) :
    addStatements udfs b cs (st :: rest) = (do
      let (chains, c) ← buildStatement udfs b.assignments b.chains st
      addStatements udfs (b.register st chains c) (cs ++ [c]) rest) := rfl

/-- One turn of the loop over the statements. -/
def addStatement (udfs : CallNode → Udf) (r : Builder × List Nat) (st : Statement) :
    Except Exc (Builder × List Nat) := do
  let (chains, c) ← buildStatement udfs r.1.assignments r.1.chains st
  pure (r.1.register st chains c, r.2 ++ [c])

theorem addStatements_eq_foldlM : ∀ (statements : List Statement) (b : Builder) (cs : List Nat),
    addStatements udfs b cs statements = statements.foldlM (addStatement udfs) (b, cs)
  | [], b, cs => rfl
  | st :: rest, b, cs => by
    rw [addStatements_cons, List.foldlM_cons, addStatement]
    cases buildStatement udfs b.assignments b.chains st with
    | error e => rfl
    | ok r => exact addStatements_eq_foldlM rest _ _

/-- The step from one builder to another registers the assignments, and keeps those under other keys. -/
structure Registers (b b' : Builder) (assigns : List Assign) : Prop where
  valid : b'.Valid
  registered : ∀ a ∈ assigns, Registered b' a
  keeps : ∀ a, Registered b a → a.target.identifierKey ∉ targetKeys assigns → Registered b' a

theorem Registers.refl (hb : b.Valid) : Registers b b [] := ⟨hb, by simp, fun _ ha _ => ha⟩

theorem Registers.trans {b₁ b₂ assigns assigns'} (h : Registers b b₁ assigns)
    (hnodup : (targetKeys (assigns ++ assigns')).Nodup)
    (h' : (targetKeys assigns').Nodup → Registers b₁ b₂ assigns') : Registers b b₂ (assigns ++ assigns') := by
  have hkeys : targetKeys (assigns ++ assigns') = targetKeys assigns ++ targetKeys assigns' := List.map_append
  rw [hkeys] at hnodup
  obtain ⟨-, hnodup', hdisj⟩ := List.nodup_append.mp hnodup
  have h' := h' hnodup'
  refine ⟨h'.valid, fun a ha => ?_, fun a ha hkey => ?_⟩
  · rcases List.mem_append.mp ha with ha | ha
    · exact h'.keeps a (h.registered a ha) fun hmem => hdisj _ (List.mem_map_of_mem ha) _ hmem rfl
    · exact h'.registered a ha
  · rw [hkeys, List.mem_append, not_or] at hkey
    exact h'.keeps a (h.keeps a ha hkey.1) hkey.2

variable {st : Statement}

theorem register_registers (hb : b.Valid) (h : buildStatement udfs b.assignments b.chains st = .ok (chains, c)) :
    Registers b (b.register st chains c) (assigned [st]) := by
  have hone : addStatements udfs b [] [st] = .ok (b.register st chains c, [c]) := by
    rw [addStatements_cons, h]
    rfl
  refine ⟨(addStatements_valid [st] hb (by simp) hone).1, fun a ha => ?_, fun a ha hkey => ?_⟩
  · obtain rfl := List.mem_singleton.mp (mem_assigned.mp ha)
    exact ⟨c, Dict.get?_set_self _ _ _, buildStatement_assign h⟩
  · refine ha.mono (buildStatement_grows st hb.wellBuilt hb.assignments h).start ?_
    cases st with
    | call call => rfl
    | assign a' => exact Dict.get?_set_other _ _ (by simpa [targetKeys, assigned] using hkey)

theorem addStatements_registers : ∀ (statements : List Statement) {b b' cs cs'}, b.Valid →
    addStatements udfs b cs statements = .ok (b', cs') → (targetKeys (assigned statements)).Nodup →
    Registers b b' (assigned statements)
  | [], b, b', cs, cs', hb, h, hnodup => by
    cases h
    exact .refl hb
  | st :: rest, b, b', cs, cs', hb, h, hnodup => by
    rw [addStatements_cons] at h
    obtain ⟨⟨chains, c⟩, hst, h⟩ := bind_eq_ok.mp h
    have hst := register_registers hb hst
    have hsplit : assigned (st :: rest) = assigned [st] ++ assigned rest := by
      cases st <;> rfl
    rw [hsplit] at hnodup ⊢
    exact hst.trans hnodup (addStatements_registers rest hst.valid h)

def sourceAssigns (sources : List Source) : List Assign := sources.flatMap fun s => assigned s.statements

theorem addValidatedSources_registers : ∀ (sources : List Source) {b b'}, b.Valid →
    sources.foldlM (addValidatedSource udfs) b = .ok b' → (targetKeys (sourceAssigns sources)).Nodup →
    Registers b b' (sourceAssigns sources)
  | [], b, b', hb, h, hnodup => by
    cases h
    exact .refl hb
  | s :: rest, b, b', hb, h, hnodup => by
    rw [List.foldlM_cons] at h
    obtain ⟨b₁, hs, h⟩ := bind_eq_ok.mp h
    have hb₁ := addValidatedSource_valid hb hs
    obtain ⟨⟨b₂, cs⟩, hadd, hs⟩ := bind_eq_ok.mp hs
    cases hs
    rw [sourceAssigns, List.flatMap_cons] at hnodup ⊢
    have hnodup₁ := hnodup.sublist ((List.sublist_append_left _ _).map _)
    have hstatements := addStatements_registers s.statements hb hadd hnodup₁
    exact Registers.trans { hstatements with valid := hb₁ } hnodup (addValidatedSources_registers rest hb₁ h)

/-- The state of the compilation when `before` has been added and, of the next source, `statements`. -/
def reached (udfs : CallNode → Udf) (before : List Source) (statements : List Statement) :
    Except Exc (Builder × List Nat) := do
  let b ← before.foldlM (addValidatedSource udfs) {}
  addStatements udfs b [] statements

theorem reached_registers {before statements cs} (h : reached udfs before statements = .ok (b, cs))
    (hnodup : (targetKeys (sourceAssigns before ++ assigned statements)).Nodup) :
    Registers {} b (sourceAssigns before ++ assigned statements) := by
  obtain ⟨b₁, hbefore, h⟩ := bind_eq_ok.mp h
  have hnodup₁ := hnodup.sublist ((List.sublist_append_left _ _).map _)
  have hsources := addValidatedSources_registers before Builder.valid_empty hbefore hnodup₁
  exact hsources.trans hnodup (addStatements_registers statements hsources.valid h)

theorem exists_of_not_isOk {sources} (h : ¬ IsOk (sources.foldlM (addValidatedSource udfs) {})) :
    ∃ before s after pre st post b cs, sources = before ++ s :: after ∧ s.statements = pre ++ st :: post ∧
      reached udfs before pre = .ok (b, cs) ∧ ¬ IsOk (buildStatement udfs b.assignments b.chains st) := by
  cases hfold : sources.foldlM (addValidatedSource udfs) {} with
  | ok b => exact absurd ⟨b, hfold⟩ h
  | error e =>
    obtain ⟨before, s, after, b₁, rfl, hbefore, hs⟩ := Lib.Graph.foldlM_error hfold
    cases hadd : addStatements udfs b₁ [] s.statements with
    | ok r => simp [addValidatedSource, hadd] at hs
    | error e' =>
      rw [addStatements_eq_foldlM] at hadd
      obtain ⟨pre, st, post, ⟨b, cs⟩, hsplit, hpre, hst⟩ := Lib.Graph.foldlM_error hadd
      rw [← addStatements_eq_foldlM] at hpre
      refine ⟨before, s, after, pre, st, post, b, cs, rfl, hsplit, bind_eq_ok.mpr ⟨b₁, hbefore, hpre⟩, ?_⟩
      rintro ⟨r, hr⟩
      simp [addStatement, hr] at hst

theorem isOk_reached {sources} (h : IsOk (sources.foldlM (addValidatedSource udfs) {})) {before after s pre post}
    (hsources : sources = before ++ s :: after) (hstatements : s.statements = pre ++ st :: post) :
    ∃ b cs, reached udfs before pre = .ok (b, cs) ∧ IsOk (buildStatement udfs b.assignments b.chains st) := by
  obtain ⟨b', h⟩ := h
  rw [hsources, List.foldlM_append] at h
  obtain ⟨b₁, hbefore, h⟩ := bind_eq_ok.mp h
  rw [List.foldlM_cons] at h
  obtain ⟨b₂, hs, -⟩ := bind_eq_ok.mp h
  obtain ⟨r, hadd, -⟩ := bind_eq_ok.mp hs
  rw [hstatements, addStatements_eq_foldlM, List.foldlM_append] at hadd
  obtain ⟨⟨b, cs⟩, hpre, hadd⟩ := bind_eq_ok.mp hadd
  rw [List.foldlM_cons] at hadd
  obtain ⟨_, hst, -⟩ := bind_eq_ok.mp hadd
  obtain ⟨r, hst, -⟩ := bind_eq_ok.mp hst
  rw [← addStatements_eq_foldlM] at hpre
  exact ⟨b, cs, bind_eq_ok.mpr ⟨b₁, hbefore, hpre⟩, r, hst⟩

end

namespace RuleSet

variable (rs : RuleSet)

/-- `compile_execution_graph` on the rule set. -/
def compile : Except Exc ExecutionGraph :=
  compileExecutionGraph rs.udfs rs.importsMustNotHaveCycles.2 rs.sources rs.entryPoint rs.entryPoint_mem

theorem isOk_compile : (∃ g, rs.compile = .ok g) ↔ IsOk (rs.orderedSources.foldlM (addValidatedSource rs.udfs) {}) := by
  unfold compile compileExecutionGraph
  constructor
  · rintro ⟨g, h⟩
    split at h
    · cases h
    · next b hb => exact ⟨b, hb⟩
  · rintro ⟨b, hb⟩
    split
    · next e he => exact absurd (hb.symm.trans he) (by simp)
    · exact ⟨_, rfl⟩

variable {rs} {getClosest : String → List String → Option String}

theorem Accepted.nodup_targetKeys (h : rs.Accepted getClosest) :
    (targetKeys (sourceAssigns rs.orderedSources)).Nodup := by
  have hperm : rs.orderedSources.Perm rs.sources :=
    (List.perm_ext_iff_of_nodup (chainDedupe_paths_nodup _ []).of_map rs.paths_nodup.of_map).mpr
      fun _ => rs.mem_orderedSources
  have hkeys : targetKeys (sourceAssigns rs.sources) = (rs.sources.flatMap storedNames).map Name.identifierKey := by
    simp [targetKeys, sourceAssigns, storedNames_eq, List.map_flatMap, Function.comp_def]
  have hnodup : (targetKeys (sourceAssigns rs.sources)).Nodup := hkeys ▸ nodup_identifierKey h.uniqueStoredNames
  exact ((hperm.flatMap_right _).map _).nodup_iff.mpr hnodup

theorem identifierKey_congr {m : Name} (hid : m.identifier = n.identifier)
    (hpath : m.isLocal = false ∨ m.path = n.path) :
    m.identifierKey = n.identifierKey := by
  have hloc : m.isLocal = n.isLocal := by simp [Name.isLocal, hid]
  unfold Name.identifierKey
  rcases hpath with hm | hpath
  · simp [hm, ← hloc, hid]
  · simp [hloc, hpath, hid]

/-- In an accepted rule set the assignment of every name that the compilation comes to look up is registered. -/
theorem Accepted.registered (h : rs.Accepted getClosest) {before after s pre post st b cs}
    (hsources : rs.orderedSources = before ++ s :: after) (hstatements : s.statements = pre ++ st :: post)
    (hreached : reached rs.udfs before pre = .ok (b, cs)) (hn : .name n ∈ st.leaves rs.udfs) :
    ∃ s' a, .assign a ∈ s'.statements ∧ (s' = s ∨ rs.Imports s s') ∧ a.target.identifier = n.identifier ∧
      a.target.identifierKey = n.identifierKey ∧ Registered b a := by
  have hs : s ∈ rs.sources := rs.mem_orderedSources.mp (by simp [hsources])
  have hnodup : (targetKeys (sourceAssigns before ++ assigned pre)).Nodup := by
    refine h.nodup_targetKeys.sublist (List.Sublist.map _ ?_)
    rw [hsources, sourceAssigns, sourceAssigns, List.flatMap_append, List.flatMap_cons, hstatements, assigned, assigned,
      List.filterMap_append, List.append_assoc]
    exact (List.sublist_append_left _ _).append_left _
  have hregisters := (reached_registers hreached hnodup).registered
  rcases h.defined hs hstatements (load_mem_valueNodes hn) with ⟨a, ha, hid⟩ | ⟨s', himp, a, ha, hloc, hid⟩
  · have hpath : a.target.path = n.path := by
      have hstore : Node.store a.target ∈ s.nodes :=
        List.mem_flatMap.mpr ⟨.assign a, by simp [hstatements, ha], by simp [Statement.nodes]⟩
      have hload : Node.load n ∈ s.nodes :=
        List.mem_flatMap.mpr ⟨st, by simp [hstatements], by simp [nodes_eq_append, load_mem_valueNodes hn]⟩
      rw [rs.names_path s hs _ (List.mem_filterMap.mpr ⟨_, hstore, rfl⟩),
        rs.names_path s hs _ (List.mem_filterMap.mpr ⟨_, hload, rfl⟩)]
    exact ⟨s, a, by simp [hstatements, ha], .inl rfl, hid, identifierKey_congr hid (.inr hpath),
      hregisters a (List.mem_append_right _ (mem_assigned.mpr ha))⟩
  · have hs' := rs.imports_first h.importsMustNotHaveCycles hsources himp
    exact ⟨s', a, ha, .inr himp, hid, identifierKey_congr hid (.inl hloc),
      hregisters a (List.mem_append_left _ (List.mem_flatMap.mpr ⟨s', hs', mem_assigned.mpr ha⟩))⟩

/-- In a compiled graph a chain depends on chains before it only, so that none depends on itself. -/
theorem not_transGen_dependentOn (g : ExecutionGraph) (c : Fin g.size) :
    ¬ Relation.TransGen (fun c d => d ∈ g.dependentOn c) c c := by
  intro h
  have hlt : ∀ {c d}, Relation.TransGen (fun c d => d ∈ g.dependentOn c) c d → d < c := by
    intro c d h
    induction h with
    | single hd => exact g.dependentOn_lt _ _ hd
    | tail _ hd ih => exact Fin.lt_trans (g.dependentOn_lt _ _ hd) ih
  exact Fin.lt_irrefl c (hlt h)

/-- **Validated sources compile**: of a rule set that the three validators accept, a graph is made
exactly if there is no attribute in a value that is compiled. Whenever the compilation comes to look up
a name, the chain of the assignment in this source or in a source it imports that stores the name is
registered. No chain of the graph depends on itself. -/
theorem compile_of_accepted (rs : RuleSet) (getClosest : String → List String → Option String)
    (h : rs.Accepted getClosest) :
    ((∃ g, rs.compile = .ok g) ↔
      ∀ s ∈ rs.sources, ∀ st ∈ s.statements, ∀ n attributeName,
        .attributeAccess n attributeName ∉ st.leaves rs.udfs) ∧
    (∀ before s after pre st post b cs, rs.orderedSources = before ++ s :: after → s.statements = pre ++ st :: post →
      reached rs.udfs before pre = .ok (b, cs) → ∀ n, .name n ∈ st.leaves rs.udfs →
      ∃ s' a, .assign a ∈ s'.statements ∧ (s' = s ∨ rs.Imports s s') ∧ a.target.identifier = n.identifier ∧
        a.target.identifierKey = n.identifierKey ∧ Registered b a) ∧
    ∀ g, rs.compile = .ok g → ∀ c, ¬ Relation.TransGen (fun c d => d ∈ g.dependentOn c) c c := by
  refine ⟨?_, fun _ _ _ _ _ _ _ _ hsources hstatements hreached n hn => h.registered hsources hstatements hreached hn,
    fun g _ => not_transGen_dependentOn g⟩
  rw [isOk_compile]
  constructor
  · intro hok s hs st hst n attributeName hmem
    obtain ⟨before, after, hsources⟩ := List.append_of_mem (rs.mem_orderedSources.mpr hs)
    obtain ⟨pre, post, hstatements⟩ := List.append_of_mem hst
    obtain ⟨b, cs, -, hbuilt⟩ := isOk_reached hok hsources hstatements
    exact (isOk_buildStatement st b.chains).mp hbuilt _ hmem
  · intro hattr
    by_contra hfail
    obtain ⟨before, s, after, pre, st, post, b, cs, hsources, hstatements, hreached, hst⟩ := exists_of_not_isOk hfail
    refine hst ((isOk_buildStatement st b.chains).mpr ?_)
    intro leaf hleaf
    cases leaf with
    | attributeAccess n attributeName =>
      exact hattr s (rs.mem_orderedSources.mp (by simp [hsources])) st (by simp [hstatements]) n attributeName hleaf
    | name n =>
      obtain ⟨s', a, -, -, -, hkey, c, hc, -⟩ := h.registered hsources hstatements hreached hleaf
      rw [Leaf.Resolves, ← hkey, hc]
      rfl

/-- A main source that imports a source and loads a name that it stores. -/
def importing : RuleSet where
  sources :=
    [⟨"main.sml", [.call ⟨0, .name ⟨"Import", "main.sml"⟩, [("rules", .list [.string "models.sml"])]⟩,
        .assign ⟨⟨"X", "main.sml"⟩, .name ⟨"Foo", "main.sml"⟩, none⟩]⟩,
      ⟨"models.sml", [.assign ⟨⟨"Foo", "models.sml"⟩, .number 1, none⟩]⟩]
  paths_nodup := by decide
  entryPoint := _
  entryPoint_mem := List.mem_cons_self
  names_path := by decide
  names_identifier := by decide
  udfs _ := ⟨false, none, fun key => key = "rules"⟩
  importRules _ := some ["models.sml"]
  setOrder l := l
  setOrder_perm _ := .rfl

theorem importing_compiles : importing.Accepted (fun _ _ => none) ∧ ∃ g, importing.compile = .ok g := by
  have haccepted : importing.Accepted fun _ _ => none := by
    exact ⟨by decide, by decide, ⟨_, rfl, by decide⟩⟩
  refine ⟨haccepted, (compile_of_accepted importing _ haccepted).1.mpr ?_⟩
  simp [importing, Statement.leaves, argumentLeaves, Expr.leaves]

/-- `Foo = 1` and `X = Foo.Bar`. -/
def attributeOfNumber : RuleSet where
  sources :=
    [⟨"main.sml", [.assign ⟨⟨"Foo", "main.sml"⟩, .number 0, none⟩,
        .assign ⟨⟨"X", "main.sml"⟩, .attributeAccess ⟨"Foo", "main.sml"⟩ "Bar", none⟩]⟩]
  paths_nodup := by decide
  entryPoint := _
  entryPoint_mem := List.mem_cons_self
  names_path := by decide
  names_identifier := by decide
  udfs _ := ⟨false, none, fun _ => false⟩
  importRules _ := none
  setOrder l := l
  setOrder_perm _ := .rfl

/-- The three validators accept an attribute, and the compilation raises a `KeyError`. -/
theorem attributeOfNumber_fails : attributeOfNumber.Accepted (fun _ _ => none) ∧
    attributeOfNumber.compile = .error ⟨.keyError, "Attribute"⟩ := by
  exact ⟨⟨by decide, by decide, ⟨_, rfl, by decide⟩⟩, rfl⟩

end RuleSet

end Osprey
