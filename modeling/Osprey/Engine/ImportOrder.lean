/-
The order in which sources are compiled. `ImportsMustNotHaveCycles` builds
the graph of imports and sorts it, and `compile_execution_graph` goes through
the sorted sources first and through the others after them.

The graph is over the paths of the sources, which tell the sources of a
collection apart. That the order puts every imported source before the
sources that import it is what the compiler relies on when it looks up a name.
-/
import Osprey.Engine.ExecutionGraph
import Osprey.Lib.Graph

namespace Osprey

open Lib (Graph)

/-! ## Rule sets -/

/-- A `Sources` collection, parsed, with what `ValidateCallKwargs` found out about its calls. -/
structure RuleSet where
  sources : List Source
  paths_nodup : (sources.map Source.path).Nodup
  entryPoint : Source
  entryPoint_mem : entryPoint ∈ sources
  /-- A name has the source it stands in as its `span.source`. -/
  names_path : ∀ s ∈ sources, ∀ n ∈ s.names, n.path = s.path
  /-- Names are identifiers. -/
  names_identifier : ∀ s ∈ sources, ∀ n ∈ s.names, '/' ∉ n.identifier.toList
  udfs : CallNode → ExecutionGraph.Udf
  /-- The `rules` that an `Import` is called with, if the UDF of the call is an `Import`. -/
  importRules : CallNode → Option (List String)
  /-- The order in which a set of paths is iterated over. -/
  setOrder : List String → List String
  setOrder_perm : ∀ l, (setOrder l).Perm l

namespace RuleSet

variable (rs : RuleSet)

def getByPath (path : String) : Option Source := rs.sources.find? fun s => s.path = path

/-- The sources of `sources_and_spans`, which `Import.__init__` looks up. -/
def sourcesAndSpans (rules : List String) : List Source := rules.filterMap rs.getByPath

variable {s s' : Source}

theorem eq_of_path (hs : s ∈ rs.sources) (hs' : s' ∈ rs.sources) (h : s.path = s'.path) : s = s' :=
  List.inj_on_of_nodup_map rs.paths_nodup hs hs' h

theorem getByPath_eq_some {path} : rs.getByPath path = some s ↔ s ∈ rs.sources ∧ s.path = path := by
  constructor
  · intro h
    exact ⟨List.mem_of_find?_eq_some h, by simpa using List.find?_some h⟩
  · rintro ⟨hs, rfl⟩
    cases hfind : rs.getByPath s.path with
    | none => simpa using List.find?_eq_none.mp hfind s hs
    | some s' =>
      have hpath : s'.path = s.path := by simpa using List.find?_some hfind
      rw [rs.eq_of_path (List.mem_of_find?_eq_some hfind) hs hpath]

def Imports (s s' : Source) : Prop :=
  s ∈ rs.sources ∧ ∃ call ∈ s.calls, ∃ rules, rs.importRules call = some rules ∧ s' ∈ rs.sourcesAndSpans rules

variable {rs} in
theorem Imports.mem (h : rs.Imports s s') : s' ∈ rs.sources := by
  obtain ⟨-, call, -, rules, -, hs'⟩ := h
  obtain ⟨path, -, hpath⟩ := List.mem_filterMap.mp hs'
  exact (rs.getByPath_eq_some.mp hpath).1

/-! ## The graph of imports -/

def addImports (source : Source) (g : Graph String) (call : CallNode) : Graph String :=
  match rs.importRules call with
  | none => g
  | some rules => (rs.sourcesAndSpans rules).foldl (fun g edge => g.addEdge source.path edge.path) g

def validateSource (g : Graph String) (source : Source) : Graph String := source.calls.foldl (rs.addImports source) g

def importGraph : Graph String := rs.sources.foldl rs.validateSource Graph.empty

/-- `ImportsMustNotHaveCycles`: the errors and `sorted_sources`, if an error gets as far as being added. -/
def importsMustNotHaveCycles : List ValidationError × List Source :=
  match rs.importGraph.topologicalSort rs.setOrder with
  | .error _ => ([⟨"import cycle detected here", "this import results in a cyclic dependency"⟩], [])
  | .ok paths => ([], paths.filterMap rs.getByPath)

/-- The sources in the order in which `compile_execution_graph` adds them. -/
def orderedSources : List Source := ExecutionGraph.chainDedupe [] (rs.importsMustNotHaveCycles.2 ++ rs.sources)

theorem mem_edges_addImports (source : Source) (g : Graph String) (call : CallNode) (n e : String) :
    e ∈ (rs.addImports source g call).edges n ↔ e ∈ g.edges n ∨
      ∃ rules, rs.importRules call = some rules ∧ ∃ s' ∈ rs.sourcesAndSpans rules, n = source.path ∧ e = s'.path := by
  unfold addImports
  cases rs.importRules call with
  | none => simp
  | some rules =>
    have hedge : ∀ (g : Graph String) (edge : Source) (n e : String),
        e ∈ (g.addEdge source.path edge.path).edges n ↔ e ∈ g.edges n ∨ (n = source.path ∧ e = edge.path) :=
      fun _ _ _ _ => Graph.mem_edges_addEdge
    simp [Graph.mem_edges_foldl hedge]

theorem mem_edges_importGraph {n e} :
    e ∈ rs.importGraph.edges n ↔ ∃ s s', rs.Imports s s' ∧ n = s.path ∧ e = s'.path := by
  have hempty : e ∉ (Graph.empty : Graph String).edges n := by simp [Graph.edges, Graph.empty]
  have hsource : ∀ g source n e, e ∈ (rs.validateSource g source).edges n ↔ e ∈ g.edges n ∨ ∃ call ∈ source.calls,
      ∃ rules, rs.importRules call = some rules ∧ ∃ s' ∈ rs.sourcesAndSpans rules, n = source.path ∧ e = s'.path :=
    fun g source n e => Graph.mem_edges_foldl (rs.mem_edges_addImports source) source.calls g n e
  rw [importGraph, Graph.mem_edges_foldl hsource]
  simp only [hempty, false_or]
  constructor
  · rintro ⟨s, hs, call, hcall, rules, hrules, s', hs', hn, he⟩
    exact ⟨s, s', ⟨hs, call, hcall, rules, hrules, hs'⟩, hn, he⟩
  · rintro ⟨s, s', ⟨hs, call, hcall, rules, hrules, hs'⟩, hn, he⟩
    exact ⟨s, hs, call, hcall, rules, hrules, s', hs', hn, he⟩

theorem transGen_edges_iff (hs : s ∈ rs.sources) (hs' : s' ∈ rs.sources) :
    Relation.TransGen (fun n e => e ∈ rs.importGraph.edges n) s.path s'.path ↔ Relation.TransGen rs.Imports s s' := by
  constructor
  · intro h
    generalize hp : s'.path = p at h
    induction h generalizing s' with
    | single h =>
      obtain ⟨s₁, s₂, himp, h₁, h₂⟩ := rs.mem_edges_importGraph.mp h
      obtain rfl := rs.eq_of_path hs himp.1 h₁
      obtain rfl := rs.eq_of_path hs' himp.mem (hp.trans h₂)
      exact .single himp
    | tail _ h ih =>
      obtain ⟨s₁, s₂, himp, h₁, h₂⟩ := rs.mem_edges_importGraph.mp h
      obtain rfl := rs.eq_of_path hs' himp.mem (hp.trans h₂)
      exact .tail (ih himp.1 h₁.symm) himp
  · intro h
    exact h.lift Source.path fun a b hab => rs.mem_edges_importGraph.mpr ⟨a, b, hab, rfl, rfl⟩

/-- **The validator finds the cycles**: it accepts the sources exactly if none imports itself, directly or
through others. -/
theorem importsMustNotHaveCycles_iff :
    rs.importsMustNotHaveCycles.1 = [] ↔ ∀ s, ¬ Relation.TransGen rs.Imports s s := by
  have hok : rs.importsMustNotHaveCycles.1 = [] ↔ ∃ l, rs.importGraph.topologicalSort rs.setOrder = .ok l := by
    unfold importsMustNotHaveCycles
    cases rs.importGraph.topologicalSort rs.setOrder <;> simp
  rw [hok, Graph.topologicalSort_isOk_iff rs.setOrder_perm]
  constructor
  · intro h s hs
    obtain ⟨s', himp, -⟩ := Relation.TransGen.head'_iff.mp hs
    exact h s.path ((rs.transGen_edges_iff himp.1 himp.1).mpr hs)
  · intro h n hn
    obtain ⟨e, he, -⟩ := Relation.TransGen.head'_iff.mp hn
    obtain ⟨s, s', himp, rfl, -⟩ := rs.mem_edges_importGraph.mp he
    exact h s ((rs.transGen_edges_iff himp.1 himp.1).mp hn)

/-! ## The compile order -/

theorem chainDedupe_split : ∀ (l : List Source) (seen : List String) {before after s},
    ExecutionGraph.chainDedupe seen l = before ++ s :: after →
    s.path ∉ seen ∧ ∃ l₁ l₂, l = l₁ ++ s :: l₂ ∧ (∀ s' ∈ l₁, s'.path ≠ s.path) ∧
      ∀ s' ∈ l₁, s'.path ∈ seen ∨ ∃ s₁ ∈ before, s₁.path = s'.path
  | [], seen, before, after, s, h => by simp [ExecutionGraph.chainDedupe] at h
  | a :: l, seen, before, after, s, h => by
    rw [ExecutionGraph.chainDedupe] at h
    split at h
    · next hseen =>
      obtain ⟨hs, l₁, l₂, rfl, hne, hbefore⟩ := chainDedupe_split l seen h
      refine ⟨hs, a :: l₁, l₂, rfl, ?_, ?_⟩
      · rintro s' (_ | ⟨_, hs'⟩)
        · exact fun heq => hs (heq ▸ hseen)
        · exact hne s' hs'
      · rintro s' (_ | ⟨_, hs'⟩)
        · exact .inl hseen
        · exact hbefore s' hs'
    · next hseen =>
      cases before with
      | nil =>
        obtain ⟨rfl, rfl⟩ := List.cons.inj h
        exact ⟨hseen, [], l, rfl, by simp, by simp⟩
      | cons b before =>
        obtain ⟨hab, hrest⟩ := List.cons.inj h
        subst hab
        obtain ⟨hs, l₁, l₂, rfl, hne, hbefore⟩ := chainDedupe_split l _ hrest
        simp only [List.mem_append, List.mem_singleton, not_or] at hs
        refine ⟨hs.1, a :: l₁, l₂, rfl, ?_, ?_⟩
        · rintro s' (_ | ⟨_, hs'⟩)
          · exact fun heq => hs.2 heq.symm
          · exact hne s' hs'
        · rintro s' (_ | ⟨_, hs'⟩)
          · exact .inr ⟨a, by simp, rfl⟩
          · rcases hbefore s' hs' with hmem | ⟨s₁, hs₁, heq⟩
            · rcases List.mem_append.mp hmem with hmem | hmem
              · exact .inl hmem
              · exact .inr ⟨a, by simp, (List.mem_singleton.mp hmem).symm⟩
            · exact .inr ⟨s₁, by simp [hs₁], heq⟩

theorem mem_sources_of_mem_orderedSources (h : s ∈ rs.orderedSources) : s ∈ rs.sources := by
  obtain ⟨before, after, hsplit⟩ := List.append_of_mem h
  obtain ⟨-, l₁, l₂, heq, -, -⟩ := chainDedupe_split _ [] hsplit
  have hs : s ∈ rs.importsMustNotHaveCycles.2 ++ rs.sources := by simp [heq]
  refine (List.mem_append.mp hs).elim (fun hs => ?_) id
  unfold importsMustNotHaveCycles at hs
  split at hs
  · simp at hs
  · obtain ⟨path, -, hpath⟩ := List.mem_filterMap.mp hs
    exact (rs.getByPath_eq_some.mp hpath).1

theorem mem_orderedSources : s ∈ rs.orderedSources ↔ s ∈ rs.sources := by
  refine ⟨rs.mem_sources_of_mem_orderedSources, ?_⟩
  intro hs
  obtain ⟨s', hs', hpath⟩ := (ExecutionGraph.exists_mem_chainDedupe _ [] s
    (List.mem_append_right rs.importsMustNotHaveCycles.2 hs)).resolve_left (by simp)
  exact rs.eq_of_path (rs.mem_sources_of_mem_orderedSources hs') hs hpath ▸ hs'

theorem chainDedupe_paths_nodup : ∀ (l : List Source) (seen : List String),
    ((ExecutionGraph.chainDedupe seen l).map Source.path).Nodup
  | [], seen => by simp [ExecutionGraph.chainDedupe]
  | s :: l, seen => by
    rw [ExecutionGraph.chainDedupe]
    split
    · exact chainDedupe_paths_nodup l seen
    · rw [List.map_cons, List.nodup_cons]
      refine ⟨?_, chainDedupe_paths_nodup l _⟩
      intro hmem
      obtain ⟨s', hs', hpath⟩ := List.mem_map.mp hmem
      obtain ⟨before, after, hsplit⟩ := List.append_of_mem hs'
      exact (chainDedupe_split l _ hsplit).1 (by simp [hpath])

theorem split_of_filterMap_getByPath {paths l₁ l₂} (h : paths.filterMap rs.getByPath = l₁ ++ s :: l₂) :
    ∃ p₁ p₂, paths = p₁ ++ s.path :: p₂ ∧ p₁.filterMap rs.getByPath = l₁ := by
  obtain ⟨p₁, p₂, rfl, hp₁, hp₂⟩ := List.filterMap_eq_append_iff.mp h
  obtain ⟨q₁, path, q₂, rfl, hq₁, hpath, -⟩ := List.filterMap_eq_cons_iff.mp hp₂
  obtain rfl := (rs.getByPath_eq_some.mp hpath).2
  refine ⟨p₁ ++ q₁, q₂, by simp, ?_⟩
  have hq₁' : q₁.filterMap rs.getByPath = [] := List.filterMap_eq_nil_iff.mpr hq₁
  rw [List.filterMap_append, hp₁, hq₁', List.append_nil]

/-- **Imports first**: in the order of compilation a source comes after every source that it imports. -/
theorem imports_first (h : rs.importsMustNotHaveCycles.1 = []) {before after}
    (hsplit : rs.orderedSources = before ++ s :: after) (himp : rs.Imports s s') : s' ∈ before := by
  obtain ⟨-, l₁, l₂, heq, hne, hbefore⟩ := chainDedupe_split _ [] hsplit
  obtain ⟨s₁, hs₁, hpath⟩ : ∃ s₁ ∈ before, s₁.path = s'.path := by
    refine (hbefore s' ?_).resolve_left (by simp)
    cases hsort : rs.importGraph.topologicalSort rs.setOrder with
    | error path => simp [importsMustNotHaveCycles, hsort] at h
    | ok paths =>
      simp only [importsMustNotHaveCycles, hsort] at heq
      obtain ⟨hfirst, hperm⟩ := Graph.topologicalSort_edgesFirst rs.setOrder_perm hsort
      have hedge : s'.path ∈ rs.importGraph.edges s.path := rs.mem_edges_importGraph.mpr ⟨s, s', himp, rfl, rfl⟩
      -- The path of `s` is sorted, so that the first place of `s` is among the sorted sources.
      have hmem : s ∈ paths.filterMap rs.getByPath :=
        List.mem_filterMap.mpr ⟨s.path, hperm.mem_iff.mpr (Graph.mem_nodes_of_mem_edges hedge).1,
          rs.getByPath_eq_some.mpr ⟨himp.1, rfl⟩⟩
      obtain ⟨l₃, hl₃⟩ : ∃ l₃, paths.filterMap rs.getByPath = l₁ ++ s :: l₃ := by
        rcases List.append_eq_append_iff.mp heq with ⟨a, rfl, -⟩ | ⟨a, hsorted, hrest⟩
        · exact absurd rfl (hne s (List.mem_append_left _ hmem))
        · cases a with
          | nil => exact absurd rfl (hne s (by simpa [hsorted] using hmem))
          | cons s₂ a =>
            obtain ⟨rfl, -⟩ := List.cons.inj hrest
            exact ⟨a, hsorted⟩
      obtain ⟨p₁, p₂, hpaths, hp₁⟩ := rs.split_of_filterMap_getByPath hl₃
      have hs' : s'.path ∈ p₁ := hfirst p₁ s.path p₂ hpaths s'.path hedge
      exact hp₁ ▸ List.mem_filterMap.mpr ⟨s'.path, hs', rs.getByPath_eq_some.mpr ⟨himp.mem, rfl⟩⟩
  have hs₁' : s₁ ∈ rs.sources := rs.mem_sources_of_mem_orderedSources (by simp [hsplit, hs₁])
  exact rs.eq_of_path hs₁' himp.mem hpath ▸ hs₁

end RuleSet

end Osprey
