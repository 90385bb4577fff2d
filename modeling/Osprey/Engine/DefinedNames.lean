/-
The validators of names, `UniqueStoredNames` and `VariablesMustBeDefined`.

A global name is stored once over all sources and a local one once in its
source. A name is known in a source from the node that stores it on, or from
the `Import` of the source that stores it on: the imports of an imported
source do not count. What the validators accept is put as one fact about
statements: a loaded name was stored by an earlier statement of the source,
or by a source that it imports.
-/
import Osprey.Engine.ImportOrder
import Osprey.Lib.Raise

namespace Osprey

open Lib (Dict)

/-! ## Keys of names -/

theorem append_cons_inj_of_not_mem {α : Type*} {c} {l₁ l₂ r₁ r₂ : List α} (h : l₁ ++ c :: r₁ = l₂ ++ c :: r₂)
    (h₁ : c ∉ r₁) (h₂ : c ∉ r₂) : l₁ = l₂ ∧ r₁ = r₂ := by
  rcases List.append_eq_append_iff.mp h with ⟨a, rfl, ha⟩ | ⟨a, rfl, ha⟩ <;> cases a with
  | nil => simp_all
  | cons b a =>
    obtain ⟨-, rfl⟩ := List.cons.inj ha
    simp at *

variable {n : Name}

theorem Name.identifierKey_inj {m : Name} (hm : '/' ∉ m.identifier.toList) (hn : '/' ∉ n.identifier.toList)
    (h : m.identifierKey = n.identifierKey) :
    m.identifier = n.identifier ∧ m.isLocal = n.isLocal ∧ (m.isLocal → m.path = n.path) := by
  have hlist := congrArg String.toList h
  unfold Name.identifierKey at hlist
  cases hml : m.isLocal <;> cases hnl : n.isLocal <;>
    simp only [hml, hnl, if_true, if_false, Bool.false_eq_true, String.toList_append] at hlist
  · exact ⟨String.toList_inj.mp hlist, rfl, by simp⟩
  · exact absurd (by simp [hlist]) hm
  · exact absurd (by simp [← hlist]) hn
  · obtain ⟨hpath, hid⟩ := append_cons_inj_of_not_mem (by simpa using hlist) hm hn
    exact ⟨String.toList_inj.mp hid, rfl, fun _ => String.toList_inj.mp hpath⟩

variable {s : Source} {identifier : String}

namespace RuleSet

variable (rs : RuleSet)

/-! ## Stored names are unique -/

/-- The name, if the node is a `Name` in `Store` context. -/
def stored? : Node → Option Name
  | .store n => some n
  | _ => none

def storedNames (s : Source) : List Name := s.nodes.filterMap stored?

/-- `d[identifier].append(span)`; the span of a name is given by the name. -/
def appendName (d : Dict String (List Name)) (n : Name) : Dict String (List Name) := d.appendAt n.identifier [n]

def storedGlobalNames : Dict String (List Name) :=
  ((rs.sources.flatMap storedNames).filter fun n => !n.isLocal).foldl appendName Dict.empty

/-- `d[path][identifier].append(span)`. -/
def appendLocalName (d : Dict String (Dict String (List Name))) (n : Name) : Dict String (Dict String (List Name)) :=
  d.set n.path (appendName ((d.get? n.path).getD Dict.empty) n)

def storedLocalNamesByFile : Dict String (Dict String (List Name)) :=
  ((rs.sources.flatMap storedNames).filter fun n => n.isLocal).foldl appendLocalName Dict.empty

def uniqueStoredNames : List ValidationError :=
  ((rs.storedGlobalNames.values.filter fun spans => spans.length ≠ 1).map fun _ =>
      ⟨"features must be unique across all rule files", "this feature is defined in multiple locations"⟩) ++
    (((rs.storedLocalNamesByFile.values.flatMap Dict.values).filter fun spans => spans.length ≠ 1).map fun _ =>
      ⟨"local variables must be unique in their file",
        "this local variable is defined in multiple locations in this file"⟩)

/-- An identifier goes into the index if it has one span. -/
def addToIndex (index : Dict String Name) : String × List Name → Dict String Name
  | (identifier, [span]) => index.set identifier span
  | _ => index

/-- `identifier_index`, the result of `UniqueStoredNames`: the global names that are stored once. -/
def identifierIndex : Dict String Name := rs.storedGlobalNames.entries.foldl addToIndex Dict.empty

theorem flatten_foldl_appendName (l : List Name) (d : Dict String (List Name)) :
    (l.foldl appendName d).flatten.Perm (d.flatten ++ l.map fun n => (n.identifier, n)) := by
  induction l generalizing d with
  | nil => simp
  | cons n l ih =>
    rw [List.foldl_cons, List.map_cons]
    refine (ih _).trans ?_
    have h := (d.flatten_appendAt n.identifier [n]).append_right (l.map fun n => (n.identifier, n))
    simpa [appendName] using h

theorem getD_foldl_appendLocalName (path : String) (l : List Name) (d : Dict String (Dict String (List Name))) :
    ((l.foldl appendLocalName d).get? path).getD Dict.empty =
      (l.filter fun n => n.path = path).foldl appendName ((d.get? path).getD Dict.empty) := by
  induction l generalizing d with
  | nil => rfl
  | cons n l ih =>
    rw [List.foldl_cons, ih, appendLocalName, Dict.get?_set]
    by_cases h : n.path = path
    · simp [h]
    · simp [h, Ne.symm h]

theorem nodup_of_singletons {l : List Name} (h : ∀ spans ∈ (l.foldl appendName Dict.empty).values, spans.length = 1) :
    (l.map Name.identifier).Nodup := by
  have hentries : ∀ es : List (String × List Name), (∀ e ∈ es, e.2.length = 1) →
      (es.flatMap fun e => e.2.map (e.1, ·)).map Prod.fst = es.map Prod.fst := by
    intro es hes
    induction es with
    | nil => rfl
    | cons e es ih =>
      obtain ⟨n, hn⟩ := List.length_eq_one_iff.mp (hes e (by simp))
      simp [hn, ih fun e' he' => hes e' (by simp [he'])]
  have hkeys : (l.foldl appendName Dict.empty).flatten.map Prod.fst = (l.foldl appendName Dict.empty).keys :=
    hentries _ fun e he => h e.2 (List.mem_map_of_mem he)
  have hperm := (flatten_foldl_appendName l Dict.empty).map Prod.fst
  rw [hkeys] at hperm
  simpa [Function.comp_def] using hperm.nodup_iff.mp (Dict.nodup_keys _)

variable {rs}

theorem path_of_mem_storedNames (hs : s ∈ rs.sources) (hn : n ∈ storedNames s) :
    n.path = s.path ∧ '/' ∉ n.identifier.toList := by
  obtain ⟨node, hnode, hstore⟩ := List.mem_filterMap.mp hn
  have hname : n ∈ s.names := by
    refine List.mem_filterMap.mpr ⟨node, hnode, ?_⟩
    cases node <;> simp_all [stored?, Node.name?]
  exact ⟨rs.names_path s hs n hname, rs.names_identifier s hs n hname⟩

/-- **Stored names are unique**: where the validator finds no error no two stored names have the same key. -/
theorem nodup_identifierKey (h : rs.uniqueStoredNames = []) :
    ((rs.sources.flatMap storedNames).map Name.identifierKey).Nodup := by
  obtain ⟨hglobal, hlocal⟩ := List.append_eq_nil_iff.mp h
  have hglobals : ∀ spans ∈ rs.storedGlobalNames.values, spans.length = 1 := by
    simpa [List.filter_eq_nil_iff] using hglobal
  have hlocals : ∀ d ∈ rs.storedLocalNamesByFile.values, ∀ spans ∈ d.values, spans.length = 1 := by
    have hall : ∀ spans ∈ rs.storedLocalNamesByFile.values.flatMap Dict.values, spans.length = 1 := by
      simpa [List.filter_eq_nil_iff] using hlocal
    exact fun d hd spans hspans => hall spans (List.mem_flatMap.mpr ⟨d, hd, hspans⟩)
  have hl : ∀ path, ((((rs.sources.flatMap storedNames).filter fun n => n.isLocal).filter
      fun n => n.path = path).map Name.identifier).Nodup := by
    intro path
    refine nodup_of_singletons ?_
    have hinner :=
      getD_foldl_appendLocalName path ((rs.sources.flatMap storedNames).filter fun n => n.isLocal) Dict.empty
    simp only [Dict.get?_empty, Option.getD_none] at hinner
    rw [← hinner]
    change ∀ spans ∈ ((rs.storedLocalNamesByFile.get? path).getD Dict.empty).values, spans.length = 1
    cases hget : rs.storedLocalNamesByFile.get? path with
    | none => simp [Dict.values, Dict.empty]
    | some d => exact hlocals d (List.mem_map_of_mem (Dict.get?_eq_some_iff.mp hget))
  have hg := nodup_of_singletons hglobals
  simp only [List.Nodup, List.pairwise_map, List.pairwise_filter] at hg hl ⊢
  simp only [List.pairwise_iff_getElem] at hg hl ⊢
  intro i j hi hj hij hkey
  have hname : ∀ n ∈ rs.sources.flatMap storedNames, '/' ∉ n.identifier.toList := by
    intro n hn
    obtain ⟨s, hs, hn⟩ := List.mem_flatMap.mp hn
    exact (path_of_mem_storedNames hs hn).2
  obtain ⟨hid, hloc, hpath⟩ :=
    Name.identifierKey_inj (hname _ (List.getElem_mem hi)) (hname _ (List.getElem_mem hj)) hkey
  cases hi' : ((rs.sources.flatMap storedNames)[i]).isLocal with
  | false => exact hg i j hi hj hij (by simp [hi']) (by simp [← hloc, hi']) hid
  | true =>
    exact hl ((rs.sources.flatMap storedNames)[j]).path i j hi hj hij hi' (hloc ▸ hi') (by simp [hpath hi'])
      (by simp) hid

/-! ## Variables are defined -/

theorem mem_of_identifierIndex (h : rs.identifierIndex.get? identifier = some n) :
    n ∈ rs.sources.flatMap storedNames ∧ n.isLocal = false ∧ n.identifier = identifier := by
  have hfold : ∀ (es : List (String × List Name)) (index : Dict String Name),
      (es.foldl addToIndex index).get? identifier = some n →
      index.get? identifier = some n ∨ (identifier, [n]) ∈ es := by
    intro es
    induction es with
    | nil => exact fun index h => .inl h
    | cons e es ih =>
      intro index h
      rcases ih _ h with h | h
      · unfold addToIndex at h
        split at h
        · rcases Dict.of_get?_set h with ⟨rfl, rfl⟩ | ⟨-, h⟩
          · exact .inr (by simp)
          · exact .inl h
        · exact .inl h
      · exact .inr (by simp [h])
  have hmem := (hfold _ _ h).resolve_left (by simp)
  have hflat : (identifier, n) ∈ rs.storedGlobalNames.flatten :=
    List.mem_flatMap.mpr ⟨_, hmem, by simp⟩
  have hperm := (flatten_foldl_appendName ((rs.sources.flatMap storedNames).filter fun n => !n.isLocal)
    Dict.empty).mem_iff.mp hflat
  simp only [Dict.flatten_empty, List.nil_append, List.mem_map, List.mem_filter, Prod.mk.injEq] at hperm
  obtain ⟨n', ⟨hn', hloc⟩, hid, rfl⟩ := hperm
  exact ⟨hn', by simpa using hloc, hid⟩

variable (rs)

/-- `identifiers_by_source[source]`. -/
def identifiersBySource (source : Source) : List String :=
  rs.identifierIndex.entries.filterMap fun (identifier, span) =>
    if span.path = source.path then some identifier else none

theorem mem_identifiersBySource (hs : s ∈ rs.sources) (h : identifier ∈ rs.identifiersBySource s) :
    ∃ n ∈ storedNames s, n.isLocal = false ∧ n.identifier = identifier := by
  obtain ⟨⟨k, n⟩, hentry, hif⟩ := List.mem_filterMap.mp h
  simp only [Option.ite_none_right_eq_some, Option.some.injEq] at hif
  obtain ⟨hpath, rfl⟩ := hif
  obtain ⟨hmem, hloc, hid⟩ := mem_of_identifierIndex (Dict.get?_eq_some_iff.mpr hentry)
  obtain ⟨s', hs', hn⟩ := List.mem_flatMap.mp hmem
  obtain rfl := rs.eq_of_path hs hs' (hpath.symm.trans (path_of_mem_storedNames hs' hn).1)
  exact ⟨n, hn, hloc, hid⟩

/-- The names known in a source so far, and the errors. -/
structure Scope where
  known : List String := []
  errors : List ValidationError := []

def isImport (c : CallNode) : Bool :=
  match c.func with
  | .name n => n.identifier = "Import"
  | .attributeAccess .. => false

section

/- `get_closest_string_within_threshold`. -/
variable (getClosest : String → List String → Option String)

def unknownIdentifier (known : List String) (n : Name) : ValidationError :=
  if (rs.identifierIndex.get? n.identifier).isSome then
    ⟨"unknown identifier", "this identifier was not imported into this file"⟩
  else match (getClosest n.identifier known).or (getClosest n.identifier rs.identifierIndex.keys) with
    | some closestName =>
      if (rs.identifierIndex.get? closestName).isSome then ⟨"unknown identifier", "this identifier not found"⟩
      else ⟨"unknown identifier", "unknown name `" ++ n.identifier ++ "`, did you mean `" ++ closestName ++ "`?"⟩
    | none =>
      if n.isLocal then
        ⟨"unknown local variable", "`" ++ n.identifier ++ "` does not exist in this file\n" ++
          "variables that start with `_` can only be used in the file they're declared in"⟩
      else ⟨"unknown identifier", "`" ++ n.identifier ++ "` does not exist in any rule files. typo, perhaps?"⟩

/-- The loads of a name in a value. The `func` of a call is loaded, too. -/
def loadsOf (identifier : String) (nodes : List Node) : List Node :=
  nodes.filter fun
    | .load n | .func n => n.identifier = identifier
    | _ => false

/-- One turn of the loop over the nodes of a source. -/
def visitNode (scope : Scope) : Node → Except Exc Scope
  | .call c =>
    if isImport c then
      match rs.importRules c with
      | none => .error ⟨.assertionError, ""⟩
      | some rules =>
        .ok { scope with known := scope.known ++ (rs.sourcesAndSpans rules).flatMap rs.identifiersBySource }
    else .ok scope
  | .store n => .ok { scope with known := scope.known ++ [n.identifier] }
  | .load n =>
    if n.identifier ∈ scope.known then .ok scope
    else .ok { scope with errors := scope.errors ++ [rs.unknownIdentifier getClosest scope.known n] }
  | .func _ => .ok scope
  | .assign a =>
    .ok { scope with errors := scope.errors ++ (loadsOf a.target.identifier a.value.nodes).map fun _ =>
      ⟨"cannot both store and load the same value within an assignment",
        "you cannot use the identifier you are assigning to in its assignment"⟩ }

/-- `VariablesMustBeDefined`, with no names known from outside: the names known in each source at its
end, and the errors. -/
def variablesMustBeDefined : Except Exc (List Scope) :=
  rs.sources.mapM fun s => s.nodes.foldlM (rs.visitNode getClosest) {}

end

/-- The three validators have no error. -/
structure Accepted (getClosest : String → List String → Option String) : Prop where
  uniqueStoredNames : rs.uniqueStoredNames = []
  importsMustNotHaveCycles : rs.importsMustNotHaveCycles.1 = []
  variablesMustBeDefined : ∃ scopes, rs.variablesMustBeDefined getClosest = .ok scopes ∧
    ∀ scope ∈ scopes, scope.errors = []

/-! ## What is accepted -/

def Known (nodes : List Node) (identifier : String) : Prop :=
  (∃ n, .store n ∈ nodes ∧ n.identifier = identifier) ∨
    ∃ c, .call c ∈ nodes ∧ ∃ rules, rs.importRules c = some rules ∧
      ∃ s' ∈ rs.sourcesAndSpans rules, identifier ∈ rs.identifiersBySource s'

variable {rs} {getClosest : String → List String → Option String}

theorem Known.mono {nodes nodes'} (hsub : nodes ⊆ nodes') :
    rs.Known nodes identifier → rs.Known nodes' identifier
  | .inl ⟨n, hn, hid⟩ => .inl ⟨n, hsub hn, hid⟩
  | .inr ⟨c, hc, h⟩ => .inr ⟨c, hsub hc, h⟩

/-- What one node does to the scope. -/
structure VisitSpec (rs : RuleSet) (scope : Scope) (node : Node) (scope' : Scope) : Prop where
  known : ∀ identifier ∈ scope'.known, identifier ∈ scope.known ∨ rs.Known [node] identifier
  errors : scope.errors <+: scope'.errors
  load : ∀ n, node = .load n → scope'.errors = [] → n.identifier ∈ scope.known
  assign : ∀ a, node = .assign a → scope'.errors = [] → loadsOf a.target.identifier a.value.nodes = []

theorem visitNode_spec {scope scope' node} (h : rs.visitNode getClosest scope node = .ok scope') :
    VisitSpec rs scope node scope' := by
  cases node with
  | call c =>
    rw [visitNode] at h
    split at h
    · cases hrules : rs.importRules c with
      | none => simp [hrules] at h
      | some rules =>
        simp only [hrules, Except.ok.injEq] at h
        subst h
        refine ⟨?_, List.prefix_rfl, by simp, by simp⟩
        intro identifier hid
        rcases List.mem_append.mp hid with hid | hid
        · exact .inl hid
        · obtain ⟨s', hs', hid⟩ := List.mem_flatMap.mp hid
          exact .inr (.inr ⟨c, by simp, rules, hrules, s', hs', hid⟩)
    · cases h
      exact ⟨fun _ => .inl, List.prefix_rfl, by simp, by simp⟩
  | store n =>
    cases h
    refine ⟨?_, List.prefix_rfl, by simp, by simp⟩
    intro identifier hid
    rcases List.mem_append.mp hid with hid | hid
    · exact .inl hid
    · exact .inr (.inl ⟨n, by simp, (List.mem_singleton.mp hid).symm⟩)
  | load n =>
    rw [visitNode] at h
    split at h
    · next hmem =>
      cases h
      refine ⟨fun _ => .inl, List.prefix_rfl, ?_, by simp⟩
      rintro n' ⟨rfl⟩ _
      exact hmem
    · cases h
      exact ⟨fun _ => .inl, List.prefix_append _ _, by simp, by simp⟩
  | func n =>
    cases h
    exact ⟨fun _ => .inl, List.prefix_rfl, by simp, by simp⟩
  | assign a =>
    cases h
    refine ⟨fun _ => .inl, List.prefix_append _ _, by simp, ?_⟩
    rintro a' ⟨rfl⟩ herr
    simpa using (List.append_eq_nil_iff.mp herr).2

theorem foldlM_visitNode_spec {nodes} : ∀ {scope scope'},
    nodes.foldlM (rs.visitNode getClosest) scope = .ok scope' →
    (∀ identifier ∈ scope'.known, identifier ∈ scope.known ∨ rs.Known nodes identifier) ∧
      scope.errors <+: scope'.errors := by
  induction nodes with
  | nil =>
    intro scope scope' h
    cases h
    exact ⟨fun _ => .inl, List.prefix_rfl⟩
  | cons node nodes ih =>
    intro scope scope' h
    rw [List.foldlM_cons] at h
    obtain ⟨scope₁, hnode, h⟩ := bind_eq_ok.mp h
    have hspec := visitNode_spec hnode
    obtain ⟨hknown, herrors⟩ := ih h
    refine ⟨?_, hspec.errors.trans herrors⟩
    intro identifier hid
    rcases hknown identifier hid with hid | hid
    · exact (hspec.known identifier hid).imp_right (Known.mono (by simp))
    · exact .inr (hid.mono (by simp))

/-- In an accepted rule set every node was visited without an error, in a scope that the nodes before
it have made. -/
theorem Accepted.visited (h : rs.Accepted getClosest) (hs : s ∈ rs.sources) {before after node}
    (hsplit : s.nodes = before ++ node :: after) :
    ∃ scope scope', VisitSpec rs scope node scope' ∧ scope'.errors = [] ∧
      ∀ identifier ∈ scope.known, rs.Known before identifier := by
  obtain ⟨scopes, hscopes, herrors⟩ := h.variablesMustBeDefined
  obtain ⟨last, hfold⟩ := Lib.forall_of_mapM_ok hscopes s hs
  have hlast := (Lib.mem_of_mapM_ok hscopes).mpr ⟨s, hs, hfold⟩
  rw [hsplit, List.foldlM_append] at hfold
  obtain ⟨scope, hbefore, hfold⟩ := bind_eq_ok.mp hfold
  rw [List.foldlM_cons] at hfold
  obtain ⟨scope', hnode, hafter⟩ := bind_eq_ok.mp hfold
  refine ⟨scope, scope', visitNode_spec hnode, ?_, ?_⟩
  · have hprefix := (foldlM_visitNode_spec hafter).2
    rw [herrors last hlast] at hprefix
    exact List.prefix_nil.mp hprefix
  · intro identifier hid
    exact ((foldlM_visitNode_spec hbefore).1 identifier hid).resolve_left (by simp)

/-! ### Nodes of statements -/

def OnlyCalls (nodes : List Node) (calls : List CallNode) : Prop :=
  ∀ node ∈ nodes, (∀ n, node ≠ .store n) ∧ ∀ c, node = .call c → c ∈ calls

theorem OnlyCalls.append {nodes nodes' calls calls'} (h : OnlyCalls nodes calls)
    (h' : OnlyCalls nodes' calls') : OnlyCalls (nodes ++ nodes') (calls ++ calls') := by
  intro node hnode
  rcases List.mem_append.mp hnode with hnode | hnode
  · exact (h node hnode).imp_right fun hc c heq => List.mem_append_left _ (hc c heq)
  · exact (h' node hnode).imp_right fun hc c heq => List.mem_append_right _ (hc c heq)

theorem OnlyCalls.flatMap {α : Type} {es : List α} {nodes calls}
    (h : ∀ e ∈ es, OnlyCalls (nodes e) (calls e)) : OnlyCalls (es.flatMap nodes) (es.flatMap calls) := by
  intro node hnode
  obtain ⟨e, he, hnode⟩ := List.mem_flatMap.mp hnode
  exact (h e he node hnode).imp_right fun hc c heq => List.mem_flatMap.mpr ⟨e, he, hc c heq⟩

theorem OnlyCalls.call {nodes calls} (h : OnlyCalls nodes calls) (c : CallNode) :
    OnlyCalls (.call c :: (c.func.nodes ++ nodes)) (c :: calls) := by
  have hc : OnlyCalls [.call c] [c] := by simp [OnlyCalls]
  have hfunc : OnlyCalls c.func.nodes [] := by
    intro node hnode
    cases hf : c.func <;> (rw [hf] at hnode; obtain rfl := List.mem_singleton.mp hnode; simp)
  exact hc.append (hfunc.append h)

theorem onlyCalls_expr (e : Expr) : OnlyCalls e.nodes e.calls := by
  induction e with
  | string | number | boolean | none => exact List.forall_mem_nil _
  | name n | attributeAccess n attributeName => simp [OnlyCalls, Expr.nodes]
  | call id func arguments ih =>
    rw [Expr.nodes, Expr.calls, argumentNodes_eq, argumentCalls_eq]
    exact OnlyCalls.call (.flatMap ih) ⟨id, func, arguments⟩
  | list es ih | booleanOperation es operand ih =>
    rw [Expr.nodes, Expr.calls, listNodes_eq, listCalls_eq]
    exact .flatMap ih
  | unaryOperation operand operator ih => exact ih
  | binaryOperation left right operator ihl ihr | binaryComparison left right comparator ihl ihr =>
    exact ihl.append ihr
  | formatString format names => simp [OnlyCalls, Expr.nodes]

theorem onlyCalls_arguments (es : List (String × Expr)) : OnlyCalls (argumentNodes es) (argumentCalls es) := by
  rw [argumentNodes_eq, argumentCalls_eq]
  exact .flatMap fun e _ => onlyCalls_expr e.2

variable {st : Statement}

theorem mem_calls_of_mem_nodes {c} (h : .call c ∈ st.nodes) : c ∈ st.calls := by
  cases st with
  | assign a =>
    have hc : Node.call c ∈ a.value.nodes := by simpa [Statement.nodes] using h
    exact (onlyCalls_expr a.value _ hc).2 c rfl
  | call c' => exact ((onlyCalls_arguments c'.arguments).call c' _ h).2 c rfl

/-- What comes in a statement before the values it computes, and these. -/
def headNodes : Statement → List Node
  | .assign a => [.assign a, .store a.target]
  | .call c => .call c :: c.func.nodes

def valueNodes : Statement → List Node
  | .assign a => a.value.nodes
  | .call c => argumentNodes c.arguments

theorem nodes_eq_append (st : Statement) : st.nodes = headNodes st ++ valueNodes st := by
  cases st <;> simp [Statement.nodes, headNodes, valueNodes]

theorem not_store_mem_valueNodes (st : Statement) (n : Name) : .store n ∉ valueNodes st := by
  cases st with
  | assign a => exact fun h => (onlyCalls_expr _ _ h).1 n rfl
  | call c => exact fun h => (onlyCalls_arguments _ _ h).1 n rfl

theorem store_mem_headNodes : .store n ∈ headNodes st ↔ ∃ a, st = .assign a ∧ a.target = n := by
  cases st with
  | assign a => simp [headNodes, eq_comm]
  | call c => cases hf : c.func <;> simp [headNodes, hf, Callee.nodes]

theorem store_mem_nodes : .store n ∈ st.nodes ↔ ∃ a, st = .assign a ∧ a.target = n := by
  rw [nodes_eq_append, List.mem_append, or_iff_left (not_store_mem_valueNodes st n), store_mem_headNodes]

def assigned (statements : List Statement) : List Assign :=
  statements.filterMap fun
    | .assign a => some a
    | .call _ => none

theorem mem_assigned {statements a} : a ∈ assigned statements ↔ .assign a ∈ statements := by
  refine List.mem_filterMap.trans ⟨?_, fun h => ⟨_, h, rfl⟩⟩
  rintro ⟨st, hst, h⟩
  cases st <;> cases h
  exact hst

theorem storedNames_eq (s : Source) : storedNames s = (assigned s.statements).map Assign.target := by
  rw [storedNames, Source.nodes]
  induction s.statements with
  | nil => rfl
  | cons st rest ih =>
    have hvalue : (valueNodes st).filterMap stored? = [] := by
      refine List.filterMap_eq_nil_iff.mpr ?_
      intro node hnode
      cases node with
      | store n => exact absurd hnode (not_store_mem_valueNodes st n)
      | assign _ | call _ | load _ | func _ => rfl
    rw [List.flatMap_cons, nodes_eq_append, List.filterMap_append, List.filterMap_append, hvalue, List.append_nil, ih]
    cases st with
    | assign a => rfl
    | call c => cases hf : c.func <;> simp [headNodes, hf, Callee.nodes, stored?, assigned]

/-- What `Foo = ... Foo ...` is refused for: no value loads the name that it is assigned to. -/
theorem Accepted.load_ne_target (h : rs.Accepted getClosest) (hs : s ∈ rs.sources) {a}
    (ha : .assign a ∈ s.statements) (hn : .load n ∈ a.value.nodes) :
    n.identifier ≠ a.target.identifier := by
  intro heq
  have hmem : Node.assign a ∈ s.nodes := List.mem_flatMap.mpr ⟨_, ha, by simp [Statement.nodes]⟩
  obtain ⟨before, after, hsplit⟩ := List.append_of_mem hmem
  obtain ⟨scope, scope', hspec, herr, -⟩ := h.visited hs hsplit
  have hnil := hspec.assign a rfl herr
  exact List.filter_eq_nil_iff.mp hnil _ hn (by simpa using heq)

/-- **A name is defined before it is used**: in an accepted rule set a name that a statement loads is
assigned by an earlier statement of the same source, or is a global that a source it imports assigns. -/
theorem Accepted.defined (h : rs.Accepted getClosest) (hs : s ∈ rs.sources)
    {before after} (hsplit : s.statements = before ++ st :: after) (hn : .load n ∈ valueNodes st) :
    (∃ a, .assign a ∈ before ∧ a.target.identifier = n.identifier) ∨
      ∃ s', rs.Imports s s' ∧ ∃ a, .assign a ∈ s'.statements ∧ a.target.isLocal = false ∧
        a.target.identifier = n.identifier := by
  obtain ⟨pre, post, hpre⟩ := List.append_of_mem hn
  have hnodes : s.nodes = (before.flatMap Statement.nodes ++ headNodes st ++ pre) ++
      .load n :: (post ++ after.flatMap Statement.nodes) := by
    simp [Source.nodes, hsplit, nodes_eq_append st, hpre]
  obtain ⟨scope, scope', hspec, herr, hknown⟩ := h.visited hs hnodes
  rcases hknown _ (hspec.load n rfl herr) with ⟨n', hstore, hid⟩ | ⟨c, hc, rules, hrules, s', hs', hid⟩
  · simp only [List.mem_append, List.mem_flatMap, store_mem_nodes] at hstore
    rcases hstore with (⟨st', hst', a, rfl, rfl⟩ | hstore) | hstore
    · exact .inl ⟨a, hst', hid⟩
    · -- The target is stored before the value is visited, but no value loads its own target.
      obtain ⟨a, rfl, rfl⟩ := store_mem_headNodes.mp hstore
      exact absurd hid.symm (h.load_ne_target hs (by simp [hsplit]) hn)
    · exact absurd (by simp [hpre, hstore]) (not_store_mem_valueNodes st n')
  · have hmem : Node.call c ∈ s.nodes := hnodes ▸ List.mem_append_left _ hc
    obtain ⟨st', hst', hc'⟩ := List.mem_flatMap.mp hmem
    have himp : rs.Imports s s' :=
      ⟨hs, c, List.mem_flatMap.mpr ⟨st', hst', mem_calls_of_mem_nodes hc'⟩, rules, hrules, hs'⟩
    obtain ⟨n', hn', hloc, rfl'⟩ := rs.mem_identifiersBySource himp.mem hid
    rw [storedNames_eq] at hn'
    obtain ⟨a, ha, rfl⟩ := List.mem_map.mp hn'
    exact .inr ⟨s', himp, a, mem_assigned.mp ha, hloc, rfl'⟩

end RuleSet

end Osprey
