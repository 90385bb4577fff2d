/-
Directed graphs as dictionaries of edges, and their topological sort by
depth-first search: a node is visited once, its edges before it is put out,
and an edge back into the path that led to the node ends the sort.

The edges of a node are a set, so the order in which they are followed is a
parameter. Whatever it is, a sort that ends well puts the end of every edge
before its start, and a sort that fails has found a cycle.
-/
import Osprey.Lib.Dict
import Mathlib.Data.List.Chain
import Mathlib.Data.List.Infix

namespace Lib

/-! ## Graphs -/

/-- The edges of every node. An edge leads to a node. -/
structure Graph (α : Type*) [DecidableEq α] where
  dict : Dict α (List α)
  closed : ∀ n es, dict.get? n = some es → ∀ e ∈ es, e ∈ dict.keys

namespace Graph

section

variable {α : Type*} [DecidableEq α]

def empty : Graph α := ⟨Dict.empty, fun n es h => by simp at h⟩

def nodes (g : Graph α) : List α := g.dict.keys

/-- The edges of a node, in the order in which they were added. A node that is absent has none. -/
def edges (g : Graph α) (n : α) : List α := (g.dict.get? n).getD []

theorem mem_nodes_of_mem_edges {g : Graph α} {n e} (h : e ∈ g.edges n) : n ∈ g.nodes ∧ e ∈ g.nodes := by
  unfold edges at h
  cases hn : g.dict.get? n with
  | none => simp [hn] at h
  | some es => exact ⟨Dict.mem_keys.mpr ⟨es, hn⟩, g.closed n es hn e (by simpa [hn] using h)⟩

/-- Adding to a set that is kept as a list. -/
def insert (e : α) (es : List α) : List α := if e ∈ es then es else es ++ [e]

@[simp] theorem mem_insert {e e'} {es : List α} : e' ∈ insert e es ↔ e' ∈ es ∨ e' = e := by
  unfold insert
  split
  · next h => exact ⟨.inl, fun h' => h'.elim id (fun heq => heq ▸ h)⟩
  · simp

/-- A new edge; its two ends become nodes. -/
def addEdge (g : Graph α) (node edge : α) : Graph α where
  dict := (g.dict.set edge (g.edges edge)).set node
    (insert edge ((g.dict.set edge (g.edges edge)).get? node |>.getD []))
  closed n es hes e he := by
    have hkey : ∀ k, k = node ∨ k = edge ∨ k ∈ g.nodes → k ∈ ((g.dict.set edge (g.edges edge)).set node
        (insert edge ((g.dict.set edge (g.edges edge)).get? node |>.getD []))).keys := by
      intro k hk
      rw [← Dict.isSome_get?, Dict.get?_set]
      split
      · rfl
      · next hne =>
        rw [Dict.get?_set]
        split
        · rfl
        · next hne' => exact Dict.isSome_get?.mpr ((hk.resolve_left hne).resolve_left hne')
    have hold : ∀ k, e ∈ ((g.dict.set edge (g.edges edge)).get? k).getD [] → e ∈ g.edges k := by
      intro k hk
      rw [Dict.get?_set] at hk
      split at hk
      · next heq => exact heq ▸ hk
      · exact hk
    refine hkey e ?_
    rw [Dict.get?_set] at hes
    split at hes
    · cases hes
      rcases mem_insert.mp he with he | he
      · exact .inr (.inr (mem_nodes_of_mem_edges (hold node he)).2)
      · exact .inr (.inl he)
    · exact .inr (.inr (mem_nodes_of_mem_edges (hold n (by simpa [hes] using he))).2)

theorem mem_edges_addEdge {g : Graph α} {node edge n e} :
    e ∈ (g.addEdge node edge).edges n ↔ e ∈ g.edges n ∨ (n = node ∧ e = edge) := by
  have hold : ∀ k, ((g.dict.set edge (g.edges edge)).get? k).getD [] = g.edges k := by
    intro k
    rw [Dict.get?_set]
    split
    · next heq => simp [heq]
    · rfl
  by_cases h : n = node
  · subst h
    rw [edges, addEdge, Dict.get?_set_self, Option.getD_some, hold]
    simp
  · have hn : (g.addEdge node edge).edges n = g.edges n := by
      rw [← hold n, edges, addEdge, Dict.get?_set_other _ _ h]
    simp [hn, h]

theorem mem_edges_foldl {β : Type*} {f} {P : β → α → α → Prop}
    (hf : ∀ g b n e, e ∈ (f g b).edges n ↔ e ∈ g.edges n ∨ P b n e) : ∀ (l : List β) (g : Graph α) (n e : α),
    e ∈ (l.foldl f g).edges n ↔ e ∈ g.edges n ∨ ∃ b ∈ l, P b n e
  | [], g, n, e => by simp
  | b :: l, g, n, e => by
    rw [List.foldl_cons, mem_edges_foldl hf l, hf]
    simp only [List.exists_mem_cons_iff]
    tauto

/-! ## The topological sort -/

/-- The path to the node that is being visited, the nodes visited, and those put out. -/
structure SortState (α : Type*) where
  path : List α := []
  visited : List α := []
  sortedNodes : List α := []

section

variable (edges : α → List α)

/-- `visit`. The error is the path on which an edge led back. A path has no node twice, so that with
the number of nodes as fuel the first case is never reached. The `path` a visit comes back with is
the one its edges were visited under, whose last node is the visited one. -/
def visit : Nat → SortState α → α → Except (List α) (SortState α)
  | 0, s, _ => .error s.path
  | fuel + 1, s, node =>
    if node ∈ s.visited then .ok s
    else
      match (edges node).foldlM (fun s edge => if edge ∈ s.path then .error s.path else visit fuel s edge)
          { s with path := s.path ++ [node], visited := node :: s.visited } with
      | .error path => .error path
      | .ok s => .ok { s with path := s.path.dropLast, sortedNodes := s.sortedNodes ++ [node] }

/-- The visit of an edge of the node at the end of the path. -/
def visitEdge (fuel : Nat) (s : SortState α) (edge : α) : Except (List α) (SortState α) :=
  if edge ∈ s.path then .error s.path else visit edges fuel s edge

end

/-- `topological_sort`: `order` is the order in which a set is iterated over. -/
def topologicalSort (order : List α → List α) (g : Graph α) : Except (List α) (List α) :=
  (g.nodes.foldlM (visit (fun n => order (g.edges n)) g.nodes.length) {}).map SortState.sortedNodes

end

/-! ## A sort that ends well -/

variable {α : Type*} {edges : α → List α}

/-- The end of every edge comes before its start. -/
def EdgesFirst (edges : α → List α) (l : List α) : Prop :=
  ∀ before n after, l = before ++ n :: after → ∀ e ∈ edges n, e ∈ before

theorem EdgesFirst.concat {l} (h : EdgesFirst edges l) {n} (hn : ∀ e ∈ edges n, e ∈ l) :
    EdgesFirst edges (l ++ [n]) := by
  intro before n' after heq e he
  rcases List.eq_nil_or_concat after with rfl | ⟨after, last, rfl⟩
  · obtain ⟨rfl, hnn⟩ := List.append_inj' heq rfl
    obtain rfl : n = n' := by simpa using hnn
    exact hn e he
  · have heq' : l ++ [n] = (before ++ n' :: after) ++ [last] := by simpa using heq
    exact h before n' after (List.append_inj' heq' rfl).1 e he

/-- What was visited is put out or on the path, and not both. -/
structure SortState.Inv (edges : α → List α) (s : SortState α) : Prop where
  edgesFirst : EdgesFirst edges s.sortedNodes
  visited : ∀ n, n ∈ s.visited ↔ n ∈ s.path ∨ n ∈ s.sortedNodes
  nodup : (s.path ++ s.sortedNodes).Nodup

theorem SortState.inv_empty : ({} : SortState α).Inv edges := by
  refine ⟨?_, by simp, by simp⟩
  intro before n after heq
  simp at heq

/-- What a visit leaves: the path, and the sorted nodes with more of them at the end, which its node leads to. -/
structure SortState.Visited (edges : α → List α) (s s' : SortState α) (node : α) : Prop where
  inv : s'.Inv edges
  path : s'.path = s.path
  grows : s.sortedNodes <+: s'.sortedNodes
  mem : node ∈ s'.sortedNodes
  new : ∀ n ∈ s'.sortedNodes, n ∈ s.sortedNodes ∨ Relation.ReflTransGen (fun a b => b ∈ edges a) node n

theorem foldlM_visited {visit : SortState α → α → Except (List α) (SortState α)} {path} (ns : List α)
    (hvisit : ∀ n ∈ ns, ∀ s s', s.Inv edges → s.path = path → visit s n = .ok s' → s.Visited edges s' n)
    {s s'} (hs : s.Inv edges) (hpath : s.path = path) (h : ns.foldlM visit s = .ok s') :
    s'.Inv edges ∧ s'.path = path ∧ s.sortedNodes <+: s'.sortedNodes ∧ (∀ n ∈ ns, n ∈ s'.sortedNodes) ∧
      ∀ n ∈ s'.sortedNodes, n ∈ s.sortedNodes ∨ ∃ m ∈ ns, Relation.ReflTransGen (fun a b => b ∈ edges a) m n := by
  induction ns generalizing s with
  | nil =>
    cases h
    exact ⟨hs, hpath, List.prefix_rfl, by simp, fun n hn => .inl hn⟩
  | cons n ns ih =>
    rw [List.foldlM_cons] at h
    cases hn : visit s n with
    | error path => simp [hn, bind, Except.bind] at h
    | ok s₁ =>
      simp only [hn, bind, Except.bind] at h
      have hv := hvisit n (by simp) s s₁ hs hpath hn
      obtain ⟨hs', hpath', hgrows, hmem, hnew⟩ :=
        ih (fun n' hn' => hvisit n' (by simp [hn'])) hv.inv (hv.path.trans hpath) h
      refine ⟨hs', hpath', hv.grows.trans hgrows, List.forall_mem_cons.mpr ⟨hgrows.subset hv.mem, hmem⟩, ?_⟩
      intro n' hn'
      rcases hnew n' hn' with hold | ⟨m, hm, hmn⟩
      · exact (hv.new n' hold).imp_right fun hreach => ⟨n, by simp, hreach⟩
      · exact .inr ⟨m, by simp [hm], hmn⟩

def SortState.enter (s : SortState α) (node : α) : SortState α :=
  { s with path := s.path ++ [node], visited := node :: s.visited }

theorem SortState.Inv.enter {s : SortState α} (hs : s.Inv edges) {node} (hnode : node ∉ s.visited) :
    (s.enter node).Inv edges := by
  refine ⟨hs.edgesFirst, ?_, ?_⟩
  · intro n
    simp only [SortState.enter, List.mem_cons, hs.visited, List.mem_append, List.not_mem_nil]
    tauto
  · have hmem : node ∉ s.path ++ s.sortedNodes := by simpa [hs.visited] using hnode
    rw [SortState.enter, List.append_assoc]
    exact List.nodup_middle.mpr (List.nodup_cons.mpr ⟨hmem, hs.nodup⟩)

def SortState.leave (s : SortState α) (node : α) : SortState α :=
  { s with path := s.path.dropLast, sortedNodes := s.sortedNodes ++ [node] }

theorem SortState.Inv.leave {s : SortState α} {path node} (hs : s.Inv edges)
    (hpath : s.path = path ++ [node]) (hedges : ∀ e ∈ edges node, e ∈ s.sortedNodes) : (s.leave node).Inv edges := by
  refine ⟨hs.edgesFirst.concat hedges, ?_, ?_⟩
  · intro n
    simp only [SortState.leave, hs.visited, hpath, List.dropLast_concat, List.mem_append]
    tauto
  · have hnodup := hs.nodup
    rw [hpath] at hnodup
    rw [SortState.leave, hpath, List.dropLast_concat]
    refine (List.Perm.nodup_iff ?_).mp hnodup
    rw [List.append_assoc]
    exact List.perm_append_comm.append_left path

section

variable [DecidableEq α]

theorem visit_succ (fuel : Nat) (s : SortState α) (node : α) : visit edges (fuel + 1) s node =
    if node ∈ s.visited then .ok s
    else match (edges node).foldlM (visitEdge edges fuel) (s.enter node) with
      | .error path => .error path
      | .ok s => .ok (s.leave node) := rfl

theorem visit_visited {fuel : Nat} : ∀ {s s' node}, s.Inv edges → node ∉ s.path →
    visit edges fuel s node = .ok s' → s.Visited edges s' node := by
  induction fuel with
  | zero =>
    intro s s' node hs hnode h
    cases h
  | succ fuel ih =>
    intro s s' node hs hnode h
    rw [visit_succ] at h
    split at h
    · next hvisited =>
      cases h
      exact ⟨hs, rfl, List.prefix_rfl, ((hs.visited node).mp hvisited).resolve_left hnode, fun n hn => .inl hn⟩
    · next hvisited =>
      split at h
      · cases h
      · next s₂ hedges =>
        cases h
        obtain ⟨hs₂, hpath, hgrows, hmem, hnew⟩ := foldlM_visited (edges node)
          (fun e _ s s' hs _ h => by
            unfold visitEdge at h
            split at h
            · cases h
            · next he => exact ih hs he h) (hs.enter hvisited) rfl hedges
        refine ⟨hs₂.leave hpath hmem, ?_, hgrows.trans (List.prefix_append _ _), by simp [SortState.leave], ?_⟩
        · simp [SortState.leave, hpath, SortState.enter]
        · intro n hn
          rcases List.mem_append.mp hn with hn | hn
          · exact (hnew n hn).imp_right fun ⟨e, he, hreach⟩ => hreach.head he
          · exact .inr (List.mem_singleton.mp hn ▸ .refl)

theorem visitEdge_visited {fuel s s' edge} (hs : s.Inv edges)
    (h : visitEdge edges fuel s edge = .ok s') : s.Visited edges s' edge := by
  unfold visitEdge at h
  split at h
  · cases h
  · next he => exact visit_visited hs he h

/-- **Every edge points backwards**: a sort that ends well has each node once, after the ends of its edges. -/
theorem topologicalSort_edgesFirst {order} (horder : ∀ l, (order l).Perm l) {g : Graph α}
    {l} (h : g.topologicalSort order = .ok l) : EdgesFirst g.edges l ∧ l.Perm g.nodes := by
  unfold topologicalSort at h
  cases hsort : g.nodes.foldlM (visit (fun n => order (g.edges n)) g.nodes.length) {} with
  | error path => simp [hsort, Except.map] at h
  | ok s =>
    simp only [hsort, Except.map, Except.ok.injEq] at h
    subst h
    obtain ⟨hs, hpath, -, hmem, hnew⟩ := foldlM_visited g.nodes
      (fun n _ s s' hs hpath h => visit_visited hs (by simp [hpath]) h) SortState.inv_empty rfl hsort
    have hnodup : s.sortedNodes.Nodup := by simpa [hpath] using hs.nodup
    refine ⟨?_, (List.perm_ext_iff_of_nodup hnodup g.dict.nodup_keys).mpr fun n => ⟨fun hn => ?_, hmem n⟩⟩
    · intro before n after heq e he
      exact hs.edgesFirst before n after heq e ((horder _).mem_iff.mpr he)
    · obtain ⟨m, hm, hreach⟩ := (hnew n hn).resolve_left (by simp)
      rcases Relation.ReflTransGen.cases_tail hreach with rfl | ⟨n', -, he⟩
      · exact hm
      · exact (mem_nodes_of_mem_edges ((horder _).mem_iff.mp he)).2

end

/-! ## A sort that fails -/

theorem foldlM_error {σ β ε : Type*} {f : σ → β → Except ε σ} {e : ε} : ∀ {l : List β} {s : σ},
    l.foldlM f s = .error e →
    ∃ before b after s', l = before ++ b :: after ∧ before.foldlM f s = .ok s' ∧ f s' b = .error e
  | [], s, h => by cases h
  | b :: l, s, h => by
    rw [List.foldlM_cons] at h
    cases hb : f s b with
    | error e' =>
      simp only [hb, bind, Except.bind, Except.error.injEq] at h
      exact ⟨[], b, l, s, rfl, rfl, h ▸ hb⟩
    | ok s₁ =>
      simp only [hb, bind, Except.bind] at h
      obtain ⟨before, b', after, s', rfl, hbefore, hb'⟩ := foldlM_error h
      refine ⟨b :: before, b', after, s', rfl, ?_, hb'⟩
      rw [List.foldlM_cons, hb]
      exact hbefore

/-- A way through the graph that meets no node twice. -/
structure Walk (edges : α → List α) (nodes walk : List α) : Prop where
  chain : walk.IsChain fun a b => b ∈ edges a
  nodup : walk.Nodup
  subset : walk ⊆ nodes

theorem Walk.concat {nodes walk node edge} (h : Walk edges nodes (walk ++ [node]))
    (hclosed : ∀ n, ∀ e ∈ edges n, e ∈ nodes) (hedge : edge ∈ edges node) (hmem : edge ∉ walk ++ [node]) :
    Walk edges nodes (walk ++ [node] ++ [edge]) where
  chain := h.chain.append (List.isChain_singleton _) (by simp [hedge])
  nodup := List.nodup_append.mpr ⟨h.nodup, by simp, fun a ha b hb heq => hmem (by simp_all)⟩
  subset := List.append_subset.mpr ⟨h.subset, by simpa using hclosed node edge hedge⟩

theorem Walk.cycle {nodes walk node edge} (h : Walk edges nodes (walk ++ [node]))
    (hedge : edge ∈ edges node) (hmem : edge ∈ walk ++ [node]) :
    Relation.TransGen (fun a b => b ∈ edges a) edge edge := by
  obtain ⟨before, after, heq⟩ := List.append_of_mem hmem
  have hchain : (edge :: after).IsChain fun a b => b ∈ edges a := by
    have := h.chain
    rw [heq] at this
    exact this.right_of_append
  have hlast : (edge :: after).getLast (by simp) = node := by
    have := congrArg List.getLast? heq
    simp only [List.getLast?_append, List.getLast?_singleton, Option.some_or] at this
    rw [List.getLast?_eq_getLast_of_ne_nil (by simp)] at this
    simpa using this.symm
  exact Relation.TransGen.tail' (List.relationReflTransGen_of_exists_isChain_cons after hchain hlast) hedge

/-- What a sort fails with: the way from the node it started at to one that has an edge back to the way. -/
structure Stuck (edges : α → List α) (nodes path : List α) : Prop where
  walk : Walk edges nodes path
  back : ∃ init node edge, path = init ++ [node] ∧ edge ∈ edges node ∧ edge ∈ path

theorem Stuck.mono {edges' nodes path} (h : Stuck edges nodes path)
    (hedges : ∀ n e, e ∈ edges n → e ∈ edges' n) : Stuck edges' nodes path := by
  obtain ⟨init, node, edge, hpath, hedge, hmem⟩ := h.back
  exact ⟨⟨h.walk.chain.imp fun a b => hedges a b, h.walk.nodup, h.walk.subset⟩,
    init, node, edge, hpath, hedges node edge hedge, hmem⟩

theorem Stuck.cycle {nodes path} (h : Stuck edges nodes path) :
    ∃ n, Relation.TransGen (fun a b => b ∈ edges a) n n := by
  obtain ⟨init, node, edge, rfl, hedge, hmem⟩ := h.back
  exact ⟨edge, h.walk.cycle hedge hmem⟩

theorem EdgesFirst.acyclic {l} (h : EdgesFirst edges l) (hmem : ∀ n, ∀ e ∈ edges n, n ∈ l) (n : α) :
    ¬ Relation.TransGen (fun a b => b ∈ edges a) n n := by
  have hbefore : ∀ {a b}, Relation.TransGen (fun a b => b ∈ edges a) a b →
      ∀ before after, l = before ++ a :: after → b ∈ before := by
    intro a b hab before after heq
    induction hab with
    | single hb => exact h before a after heq _ hb
    | tail _ hc ih =>
      obtain ⟨before₁, after₁, rfl⟩ := List.append_of_mem ih
      exact List.mem_append_left _ (h before₁ _ _ (by simpa using heq) _ hc)
  intro hcycle
  have hn : n ∈ l := by
    obtain ⟨e, he, -⟩ := Relation.TransGen.head'_iff.mp hcycle
    exact hmem n e he
  obtain ⟨before, after, heq, hnot⟩ := List.eq_append_cons_of_mem hn
  exact hnot (hbefore hcycle before after heq)

variable [DecidableEq α]

theorem visit_error {nodes : List α} (hclosed : ∀ n, ∀ e ∈ edges n, e ∈ nodes) {fuel} :
    ∀ {s node path}, s.Inv edges → Walk edges nodes (s.path ++ [node]) →
    nodes.length ≤ fuel + s.path.length → visit edges fuel s node = .error path → Stuck edges nodes path := by
  induction fuel with
  | zero =>
    intro s node path hs hwalk hfuel h
    have hle := hwalk.nodup.length_le_of_subset hwalk.subset
    simp only [List.length_append, List.length_singleton] at hle
    omega
  | succ fuel ih =>
    intro s node path hs hwalk hfuel h
    rw [visit_succ] at h
    split at h
    · cases h
    · next hvisited =>
      split at h
      · next path' hedges =>
        cases h
        obtain ⟨before, edge, after, s₁, heq, hbefore, hedge⟩ := foldlM_error hedges
        obtain ⟨hs₁, hpath, -, -, -⟩ := foldlM_visited before
          (fun e _ s s' hs _ h => visitEdge_visited hs h) (hs.enter hvisited) rfl hbefore
        have hpath : s₁.path = s.path ++ [node] := hpath
        have hmem : edge ∈ edges node := by simp [heq]
        unfold visitEdge at hedge
        split at hedge
        · next hback =>
          cases hedge
          rw [hpath] at hback ⊢
          exact ⟨hwalk, s.path, node, edge, rfl, hmem, hback⟩
        · next hnew =>
          refine ih hs₁ ?_ ?_ hedge
          · rw [hpath]
            exact hwalk.concat hclosed hmem (hpath ▸ hnew)
          · simp only [hpath, List.length_append, List.length_singleton]
            omega
      · cases h

theorem topologicalSort_stuck {order} (horder : ∀ l, (order l).Perm l) {g : Graph α} {path}
    (h : g.topologicalSort order = .error path) : Stuck g.edges g.nodes path := by
  unfold topologicalSort at h
  cases hsort : g.nodes.foldlM (visit (fun n => order (g.edges n)) g.nodes.length) {} with
  | ok s => simp [hsort, Except.map] at h
  | error path' =>
    simp only [hsort, Except.map, Except.error.injEq] at h
    subst h
    obtain ⟨before, n, after, s, heq, hbefore, hn⟩ := foldlM_error hsort
    obtain ⟨hs, hpath, -, -, -⟩ := foldlM_visited before
      (fun n _ s s' hs hpath h => visit_visited hs (by simp [hpath]) h) SortState.inv_empty rfl hbefore
    have hclosed : ∀ n, ∀ e ∈ order (g.edges n), e ∈ g.nodes := by
      intro n e he
      exact (mem_nodes_of_mem_edges ((horder _).mem_iff.mp he)).2
    have hwalk : Walk (fun n => order (g.edges n)) g.nodes (s.path ++ [n]) := by
      rw [hpath]
      exact ⟨List.isChain_singleton _, by simp, by simp [heq]⟩
    exact (visit_error hclosed hs hwalk (by omega) hn).mono fun n e => (horder _).mem_iff.mp

/-- **The sort decides acyclicity**, in whatever order the edges are followed. -/
theorem topologicalSort_isOk_iff {order} (horder : ∀ l, (order l).Perm l) {g : Graph α} :
    (∃ l, g.topologicalSort order = .ok l) ↔ ∀ n, ¬ Relation.TransGen (fun a b => b ∈ g.edges a) n n := by
  constructor
  · intro ⟨l, hl⟩
    obtain ⟨hfirst, hperm⟩ := topologicalSort_edgesFirst horder hl
    exact hfirst.acyclic fun n e he => hperm.mem_iff.mpr (mem_nodes_of_mem_edges he).1
  · intro hacyclic
    cases hsort : g.topologicalSort order with
    | ok l => exact ⟨l, rfl⟩
    | error path =>
      obtain ⟨n, hn⟩ := (topologicalSort_stuck horder hsort).cycle
      exact absurd hn (hacyclic n)

end Graph

end Lib
