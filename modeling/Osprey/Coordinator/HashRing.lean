/-
The coordinator's consistent hash ring (`hashring/mod.rs`): every node has
`num_replicas` items on a circle, each at the hash of the node's name and the
replica's number, and a key belongs to the node of the next item above its
own hash.

The hash is a parameter, any function of a text. So is the standard library's
binary search, which may find any one of several equal keys.
-/
import Mathlib.Data.List.Sort
import Mathlib.Data.String.Basic
import Osprey.Lib.Circle

namespace Osprey.ConsistentHash

open Lib.Circle

structure Node where
  name : String
  numReplicas : Nat
  deriving DecidableEq, Repr

structure Item where
  /-- The hash of the node's name and the number of the replica. -/
  ringIndex : Nat
  nodeName : String
  deriving DecidableEq, Repr

structure NodeAlreadyExists where
  deriving DecidableEq, Repr

structure NodeDoesNotExist where
  deriving DecidableEq, Repr

structure RingEmpty where
  deriving DecidableEq, Repr

/-! ## Nodes -/

/-- The nodes by their names: a `BTreeMap`, whose values come in the order of the keys. -/
structure RingNodes where
  values : List Node
  sorted : values.Pairwise fun a b => a.name < b.name

namespace RingNodes

/-- `BTreeMap::insert`: a node of the same name is replaced. -/
def insertValue (node : Node) : List Node → List Node
  | [] => [node]
  | n :: ns =>
    if node.name < n.name then node :: n :: ns
    else if node.name = n.name then node :: ns
    else n :: insertValue node ns

section Insert

variable {node m : Node} {ns : List Node}

theorem mem_insertValue (h : m ∈ insertValue node ns) : m = node ∨ m ∈ ns := by
  fun_induction insertValue node ns with
  | case1 | case2 => exact List.mem_cons.mp h
  | case3 n => exact (List.mem_cons.mp h).imp_right (List.mem_cons_of_mem n)
  | case4 n ns _ _ ih =>
    rcases List.mem_cons.mp h with rfl | h
    · exact .inr List.mem_cons_self
    · exact (ih h).imp_right (List.mem_cons_of_mem n)

theorem sorted_insertValue (node : Node) (h : ns.Pairwise fun a b => a.name < b.name) :
    (insertValue node ns).Pairwise fun a b => a.name < b.name := by
  fun_induction insertValue node ns with
  | case1 => exact List.pairwise_singleton _ _
  | case2 n ns hlt =>
    refine List.pairwise_cons.mpr ⟨fun m hm => ?_, h⟩
    rcases List.mem_cons.mp hm with rfl | hm
    · exact hlt
    · exact hlt.trans (List.rel_of_pairwise_cons h hm)
  | case3 n ns _ heq =>
    have hn := List.pairwise_cons.mp h
    exact List.pairwise_cons.mpr ⟨fun m hm => heq ▸ hn.1 m hm, hn.2⟩
  | case4 n ns hnlt hne ih =>
    have hn := List.pairwise_cons.mp h
    refine List.pairwise_cons.mpr ⟨fun m hm => ?_, ih hn.2⟩
    rcases mem_insertValue hm with rfl | hm
    · exact lt_of_le_of_ne (not_lt.mp hnlt) (Ne.symm hne)
    · exact hn.1 m hm

theorem perm_insertValue (h : node.name ∉ ns.map Node.name) : (insertValue node ns).Perm (node :: ns) := by
  fun_induction insertValue node ns with
  | case1 | case2 => exact .refl _
  | case3 n ns _ heq => exact absurd (List.mem_map_of_mem List.mem_cons_self) (heq ▸ h)
  | case4 n ns _ _ ih => exact ((ih (mt (List.mem_cons_of_mem _) h)).cons n).trans (.swap node n ns)

end Insert

def insert (nodes : RingNodes) (node : Node) : RingNodes :=
  ⟨insertValue node nodes.values, sorted_insertValue node nodes.sorted⟩

def empty : RingNodes := ⟨[], .nil⟩

/-- `with_nodes`: of several nodes with one name the last one stays. -/
def withNodes (nodes : List Node) : RingNodes := nodes.foldl insert empty

def names (nodes : RingNodes) : List String := nodes.values.map Node.name

def add (nodes : RingNodes) (node : Node) : Except NodeAlreadyExists RingNodes :=
  if node.name ∈ nodes.names then .error {} else .ok (nodes.insert node)

def remove (nodes : RingNodes) (nodeName : String) : Except NodeDoesNotExist RingNodes :=
  if nodeName ∈ nodes.names then .ok ⟨nodes.values.filter (·.name ≠ nodeName), nodes.sorted.filter _⟩ else .error {}

def len (nodes : RingNodes) : Nat := nodes.values.length

theorem nodup_names (nodes : RingNodes) : nodes.names.Nodup :=
  List.pairwise_map.mpr (nodes.sorted.imp ne_of_lt)

end RingNodes

/-! ## Items -/

section Ring

variable (hash : String → Nat)

def replicas (node : Node) : List Item :=
  (List.range node.numReplicas).map fun idx => ⟨hash (node.name ++ toString idx), node.name⟩

def RingNodes.buildRingItems (nodes : RingNodes) : List Item :=
  (nodes.values.flatMap (replicas hash)).insertionSort fun a b => a.ringIndex ≤ b.ringIndex

structure HashRing where
  nodes : RingNodes
  items : List Item
  built : items = nodes.buildRingItems hash

variable {hash}

variable {node : Node} {item : Item}

theorem nodeName_of_mem_replicas (h : item ∈ replicas hash node) : item.nodeName = node.name := by
  obtain ⟨idx, -, rfl⟩ := List.mem_map.mp h
  rfl

theorem replicas_eq_nil : replicas hash node = [] ↔ node.numReplicas = 0 := by
  simp [replicas]

theorem mem_buildRingItems {nodes : RingNodes} :
    item ∈ nodes.buildRingItems hash ↔ ∃ node ∈ nodes.values, item ∈ replicas hash node := by
  rw [RingNodes.buildRingItems, (List.perm_insertionSort _ _).mem_iff, List.mem_flatMap]

namespace HashRing

theorem sorted (ring : HashRing hash) : ring.items.Pairwise fun a b => a.ringIndex ≤ b.ringIndex := by
  rw [ring.built]
  have : Std.Total fun a b : Item => a.ringIndex ≤ b.ringIndex := ⟨fun a b => Nat.le_total _ _⟩
  have : IsTrans Item fun a b : Item => a.ringIndex ≤ b.ringIndex := ⟨fun _ _ _ => Nat.le_trans⟩
  exact List.pairwise_insertionSort _ _

variable {ring : HashRing hash}

theorem mem_items : item ∈ ring.items ↔ ∃ node ∈ ring.nodes.values, item ∈ replicas hash node := by
  rw [ring.built, mem_buildRingItems]

theorem items_eq_nil : ring.items = [] ↔ ∀ node ∈ ring.nodes.values, node.numReplicas = 0 := by
  rw [ring.built, RingNodes.buildRingItems, ← List.length_eq_zero_iff, List.length_insertionSort,
    List.length_eq_zero_iff, List.flatMap_eq_nil_iff]
  exact forall₂_congr fun node _ => replicas_eq_nil

variable (hash) in
def ofNodes (nodes : RingNodes) : HashRing hash := ⟨nodes, nodes.buildRingItems hash, rfl⟩

variable (hash) in
def withNodes (nodes : List Node) : HashRing hash := ofNodes hash (.withNodes nodes)

def add (ring : HashRing hash) (node : Node) : Except NodeAlreadyExists (HashRing hash) :=
  (ring.nodes.add node).map (ofNodes hash)

def remove (ring : HashRing hash) (nodeName : String) : Except NodeDoesNotExist (HashRing hash) :=
  (ring.nodes.remove nodeName).map (ofNodes hash)

def positions (ring : HashRing hash) : List Nat := ring.items.map Item.ringIndex

theorem sorted_positions (ring : HashRing hash) : ring.positions.Pairwise (· ≤ ·) := List.pairwise_map.mpr ring.sorted

def wrap (ring : HashRing hash) (index : Nat) : Nat := if ring.items.length ≤ index then 0 else index

theorem wrap_lt (h : ring.items ≠ []) (index : Nat) : ring.wrap index < ring.items.length := by
  have hpos := List.length_pos_iff.mpr h
  unfold wrap
  split
  · exact hpos
  · omega

theorem ne_nil_of_index (index : Fin ring.items.length) : ring.items ≠ [] :=
  List.length_pos_iff.mp index.pos

/-- Where the search for a key ends: right on an item, the next one is looked for. -/
def searchIndex (B : BinarySearch) (ring : HashRing hash) (key : Nat) : Nat :=
  match B.search ring.positions key with
  | .ok index => index + 1
  | .error index => index

/-- `find_index`: the index of the next item above the key. -/
def findIndex (B : BinarySearch) (ring : HashRing hash) (key : Nat) : Except RingEmpty (Fin ring.items.length) :=
  if h : ring.items = [] then .error {} else .ok ⟨ring.wrap (ring.searchIndex B key), wrap_lt h _⟩

def nextIndex (ring : HashRing hash) (index : Fin ring.items.length) : Fin ring.items.length :=
  ⟨ring.wrap (index + 1), wrap_lt (ne_nil_of_index index) _⟩

def findNext (B : BinarySearch) (ring : HashRing hash) (key : Nat) : Except RingEmpty Item :=
  (ring.findIndex B key).map ring.items.get

def find (B : BinarySearch) (ring : HashRing hash) (key : String) : Except RingEmpty String :=
  (ring.findNext B (hash key)).map Item.nodeName

/-- The loop of `find_n`: the items from an index on, the nodes already seen left out. `none` is a loop that goes
on past the fuel. -/
def findNLoop (ring : HashRing hash) (num : Nat) :
    Nat → Fin ring.items.length → List String → Option (List String)
  | 0, _, nodes => if nodes.length < num then none else some nodes
  | fuel + 1, index, nodes =>
    if nodes.length < num then
      let item := ring.items.get index
      findNLoop ring num fuel (ring.nextIndex index)
        (if item.nodeName ∈ nodes then nodes else nodes ++ [item.nodeName])
    else some nodes

def findN (B : BinarySearch) (ring : HashRing hash) (fuel : Nat) (key : String) (num : Nat) :
    Option (Except RingEmpty (List String)) :=
  let num := min ring.nodes.len num
  match ring.findIndex B (hash key) with
  | .error e => some (.error e)
  | .ok index => (ring.findNLoop num fuel index []).map .ok

/-! ## Lookups -/

variable {ring' : HashRing hash}

theorem items_mem_of_nodes {name} (hsub : ring.nodes.values ⊆ ring'.nodes.values)
    (hnew : ∀ n ∈ ring'.nodes.values, n.name = name ∨ n ∈ ring.nodes.values) :
    ring.items ⊆ ring'.items ∧ ∀ item ∈ ring'.items, item ∈ ring.items ∨ item.nodeName = name := by
  constructor
  · intro item hitem
    obtain ⟨n, hn, hreplica⟩ := mem_items.mp hitem
    exact mem_items.mpr ⟨n, hsub hn, hreplica⟩
  · intro item hitem
    obtain ⟨n, hn, hreplica⟩ := mem_items.mp hitem
    rcases hnew n hn with hname | hn
    · exact .inr ((nodeName_of_mem_replicas hreplica).trans hname)
    · exact .inl (mem_items.mpr ⟨n, hn, hreplica⟩)

theorem items_mem_of_add (h : ring.add node = .ok ring') :
    ring.items ⊆ ring'.items ∧ ∀ item ∈ ring'.items, item ∈ ring.items ∨ item.nodeName = node.name := by
  unfold add RingNodes.add at h
  split at h
  · cases h
  · rename_i hnew
    obtain rfl := Except.ok.inj h
    have hperm : (ring.nodes.insert node).values.Perm (node :: ring.nodes.values) := RingNodes.perm_insertValue hnew
    refine items_mem_of_nodes (fun n hn => hperm.mem_iff.mpr (List.mem_cons_of_mem node hn)) fun n hn => ?_
    exact (List.mem_cons.mp (hperm.mem_iff.mp hn)).imp_left (congrArg Node.name)

theorem items_mem_of_remove {nodeName} (h : ring.remove nodeName = .ok ring') :
    ring'.items ⊆ ring.items ∧ ∀ item ∈ ring.items, item ∈ ring'.items ∨ item.nodeName = nodeName := by
  unfold remove RingNodes.remove at h
  split at h
  · obtain rfl := Except.ok.inj h
    refine items_mem_of_nodes (fun n hn => List.mem_of_mem_filter hn) fun n hn => ?_
    exact or_iff_not_imp_left.mpr fun hname => List.mem_filter.mpr ⟨hn, by simpa using hname⟩
  · cases h

variable (B : BinarySearch)

theorem find_of_ne_nil (hne : ring.items ≠ []) (key : String) : ring.find B key =
    .ok (ring.items.get ⟨_, wrap_lt hne (ring.searchIndex B (hash key))⟩).nodeName := by
  simp only [find, findNext, findIndex, dif_neg hne]
  rfl

/-- Where no two items share a ring index, a key is found at the next item above its hash. -/
theorem find_isNext (hdistinct : ring.positions.Nodup) (hne : ring.items ≠ []) (key : String) :
    ∃ item, IsNext Item.ringIndex (hash key) ring.items item ∧ ring.find B key = .ok item.nodeName := by
  refine ⟨_, isNext_of_cut ring.sorted (fun n y hn => ?_) (List.getElem?_eq_getElem _), find_of_ne_nil B hne key⟩
  have hpos : ring.positions[n]? = some y.ringIndex := by simp [positions, hn]
  unfold searchIndex
  split
  · rename_i index hfound
    exact key_lt_of_found ring.sorted_positions hdistinct (B.found ring.sorted_positions hfound) hpos
  · rename_i index hmissing
    exact key_lt_of_missing B ring.sorted_positions hmissing hpos

theorem find_of_nil (h : ring.items = []) (key : String) : ring.find B key = .error {} := by
  simp only [find, findNext, findIndex, dif_pos h]
  rfl

variable {key : String} {position : Nat}

theorem getElem?_positions (ring : HashRing hash) (index : Fin ring.items.length) :
    ring.positions[(index : Nat)]? = some (ring.items.get index).ringIndex := by
  simp [positions]

theorem exists_searchIndex {index} (h : (ring.items.get index).ringIndex = position) :
    ∃ B : BinarySearch, ring.searchIndex B position = index + 1 := by
  have hget : ring.positions[(index : Nat)]? = some position := h ▸ getElem?_positions ring index
  exact ⟨linear.toFind _ _ _ hget, by rw [searchIndex, BinarySearch.toFind_search]⟩

/-- Of two rings, one with the items of the other and those of a node: the keys found elsewhere in the larger one
are found at that node. -/
theorem find_of_more_items {name} (hsub : ring.items ⊆ ring'.items)
    (hnew : ∀ item ∈ ring'.items, item ∈ ring.items ∨ item.nodeName = name) (hdistinct : ring.positions.Nodup)
    (hdistinct' : ring'.positions.Nodup) (hne : ring'.find B key ≠ ring.find B key) : ring'.find B key = .ok name := by
  have hitems' : ring'.items ≠ [] := by
    intro hnil
    have hnil' : ring.items = [] := List.subset_nil.mp (hnil ▸ hsub)
    exact hne ((find_of_nil B hnil key).trans (find_of_nil B hnil' key).symm)
  obtain ⟨item', hnext', hfind'⟩ := find_isNext B hdistinct' hitems' key
  rcases hnew item' hnext'.1 with hold | hname
  · have hitems : ring.items ≠ [] := List.ne_nil_of_mem hold
    obtain ⟨item, hnext, hfind⟩ := find_isNext B hdistinct hitems key
    obtain rfl := hnext.eq_of_subset hdistinct' hsub hnext' hold
    exact absurd (hfind'.trans hfind.symm) hne
  · rw [hfind', hname]

/-- **Consistent hashing moves only what it must.** As long as no two items share a ring index, a key is found
elsewhere after a node is added only at that node, and after a node is removed only if it was found there. -/
theorem moves_only_the_node (B : BinarySearch) (ring ring' : HashRing hash) (key : String)
    (hdistinct : ring.positions.Nodup) (hdistinct' : ring'.positions.Nodup)
    (hmoved : ring'.find B key ≠ ring.find B key) :
    (∀ node, ring.add node = .ok ring' → ring'.find B key = .ok node.name) ∧
      ∀ nodeName, ring.remove nodeName = .ok ring' → ring.find B key = .ok nodeName := by
  constructor
  · intro node hadd
    obtain ⟨hsub, hnew⟩ := items_mem_of_add hadd
    exact find_of_more_items B hsub hnew hdistinct hdistinct' hmoved
  · intro nodeName hremove
    obtain ⟨hsub, hnew⟩ := items_mem_of_remove hremove
    exact find_of_more_items B hsub hnew hdistinct' hdistinct hmoved.symm

/-- With the length of a text as its hash, `bb` is put right after `a` and takes the keys with the hash of `a`; what
was found at `a` before `a` is removed moves to `bb`. -/
theorem moves_only_the_node_bb :
    (withNodes String.length [⟨"a", 1⟩, ⟨"bb", 1⟩]).find linear "xy" = .ok "bb" ∧
      (withNodes String.length [⟨"a", 1⟩, ⟨"bb", 1⟩]).find linear "x" = .ok "a" := by
  constructor
  · refine (moves_only_the_node linear (withNodes String.length [⟨"a", 1⟩])
      (withNodes String.length [⟨"a", 1⟩, ⟨"bb", 1⟩]) "xy" ?_ ?_ ?_).1 ⟨"bb", 1⟩ rfl <;> decide
  · refine (moves_only_the_node linear (withNodes String.length [⟨"a", 1⟩, ⟨"bb", 1⟩])
      (withNodes String.length [⟨"bb", 1⟩]) "x" ?_ ?_ ?_).2 "a" rfl <;> decide

/-! ## The next item -/

/-- The first item above a position, or the first of all. -/
def nextItem? (ring : HashRing hash) (position : Nat) : Option Item :=
  (ring.items.find? (position < ·.ringIndex)).or ring.items.head?

theorem nextItem?_of_missing {index} (hne : ring.items ≠ [])
    (hmissing : B.search ring.positions position = .error index) :
    ring.nextItem? position = some (ring.items.get ⟨_, wrap_lt hne index⟩) := by
  have hcut : ∀ (n : Nat) (h : n < ring.items.length), position < ring.items[n].ringIndex ↔ index ≤ n := fun n h =>
    key_lt_of_missing B ring.sorted_positions hmissing (by simp [positions, h])
  by_cases hlen : ring.items.length ≤ index
  · have hnone : ring.items.find? (position < ·.ringIndex) = none := by
      rw [List.find?_eq_none]
      intro item hitem
      obtain ⟨n, hn, rfl⟩ := List.getElem_of_mem hitem
      simpa using (hcut n hn).not.mpr (by omega)
    simp only [nextItem?, hnone, Option.none_or, wrap, if_pos hlen, List.head?_eq_getElem?]
    exact List.getElem?_eq_getElem _
  · have hsome : ring.items.find? (position < ·.ringIndex) = some ring.items[index] := by
      rw [List.find?_eq_some_iff_getElem]
      refine ⟨by simpa using (hcut index (by omega)).mpr le_rfl, index, by omega, rfl, fun n hn => ?_⟩
      simpa using (hcut n (by omega)).not.mpr (by omega)
    simp only [nextItem?, hsome, Option.some_or, wrap, if_neg hlen]
    rfl

/-- **When a lookup finds the next item**, wherever among equal ring indices the search ends: every item right at the
key's hash has to be followed by one of the node that is looked for. -/
theorem find_eq_nextItem_iff (ring : HashRing hash) (key : String) :
    (∀ B : BinarySearch, (ring.find B key).toOption = (ring.nextItem? (hash key)).map Item.nodeName) ↔
      ∀ index : Fin ring.items.length, (ring.items.get index).ringIndex = hash key →
        some (ring.items.get (ring.nextIndex index)).nodeName = (ring.nextItem? (hash key)).map Item.nodeName := by
  by_cases hne : ring.items = []
  · refine iff_of_true (fun B => ?_) fun index => absurd hne (ne_nil_of_index index)
    simp [find_of_nil B hne, nextItem?, hne, Except.toOption]
  constructor
  · intro hfind index hat
    obtain ⟨B, hsearch⟩ := exists_searchIndex hat
    rw [← hfind B, find_of_ne_nil B hne]
    simp only [hsearch, Except.toOption, nextIndex]
  · intro hstays B
    rw [find_of_ne_nil B hne, Except.toOption]
    cases hsearch : B.search ring.positions (hash key) with
    | ok index =>
      have hget := B.found ring.sorted_positions hsearch
      have hlt : index < ring.items.length := by simpa [positions] using (List.getElem?_eq_some_iff.mp hget).1
      rw [← hstays ⟨index, hlt⟩ (by simpa [positions, hlt] using hget)]
      simp only [searchIndex, hsearch, nextIndex]
    | error index =>
      rw [nextItem?_of_missing B hne hsearch]
      simp only [searchIndex, hsearch, Option.map_some]

/-- The label `a10` of two nodes is found at the first of its items, and the second one is taken for the next: nothing is
above it, so that the first item of all is to be found. -/
theorem find_stops_at_equal_label :
    (withNodes (fun s => if s = "a10" then 1 else 0) [⟨"a", 11⟩, ⟨"a1", 1⟩]).find linear "a10" = .ok "a1" ∧
      (withNodes (fun s => if s = "a10" then 1 else 0) [⟨"a", 11⟩, ⟨"a1", 1⟩]).nextItem? 1 = some ⟨0, "a"⟩ := by
  decide +kernel

/-! ## Several nodes of a key -/

def nodeNames (ring : HashRing hash) : List String := ring.items.map Item.nodeName

variable (ring)

theorem length_nodeNames : ring.nodeNames.length = ring.items.length := List.length_map _

theorem rotate_wrap {index} (h : index ≤ ring.items.length) :
    ring.nodeNames.rotate (ring.wrap index) = ring.nodeNames.rotate index := by
  unfold wrap
  split
  · rename_i hle
    obtain rfl : index = ring.nodeNames.length := (length_nodeNames ring).symm ▸ le_antisymm h hle
    rw [List.rotate_zero, List.rotate_length]
  · rfl

theorem head?_rotate (index : Fin ring.items.length) :
    (ring.nodeNames.rotate index).head? = some (ring.items.get index).nodeName := by
  have hlt : (index : Nat) < ring.nodeNames.length := (length_nodeNames ring).symm ▸ index.isLt
  rw [List.head?_rotate hlt]
  simp [nodeNames]

theorem length_eraseDups_nodeNames :
    ring.nodeNames.eraseDups.length = ring.nodes.values.countP (0 < ·.numReplicas) := by
  have hnodup : ((ring.nodes.values.filter (0 < ·.numReplicas)).map Node.name).Nodup :=
    ring.nodes.nodup_names.sublist (List.filter_sublist.map _)
  rw [List.countP_eq_length_filter, ← List.length_map Node.name]
  refine ((List.perm_ext_iff_of_nodup (nodup_eraseDups _) hnodup).mpr fun name => ?_).length_eq
  rw [List.mem_eraseDups]
  constructor
  · intro hname
    obtain ⟨item, hitem, rfl⟩ := List.mem_map.mp hname
    obtain ⟨node, hnode, hreplica⟩ := mem_items.mp hitem
    have hpos : node.numReplicas ≠ 0 := mt replicas_eq_nil.mpr (List.ne_nil_of_mem hreplica)
    exact List.mem_map.mpr ⟨node, List.mem_filter.mpr ⟨hnode, by simpa using Nat.pos_of_ne_zero hpos⟩,
      (nodeName_of_mem_replicas hreplica).symm⟩
  · intro hname
    obtain ⟨node, hnode, rfl⟩ := List.mem_map.mp hname
    obtain ⟨hnode, hpos⟩ := List.mem_filter.mp hnode
    obtain ⟨item, hitem⟩ := List.exists_mem_of_ne_nil (replicas hash node)
      (mt replicas_eq_nil.mp (by simpa [Nat.pos_iff_ne_zero] using hpos))
    exact List.mem_map.mpr ⟨item, mem_items.mpr ⟨node, hnode, hitem⟩, nodeName_of_mem_replicas hitem⟩

variable {ring}

/-- The nodes met in the first `k` items from a start on, each where it is met first. -/
def seen (ring : HashRing hash) (start k : Nat) : List String := ((ring.nodeNames.rotate start).take k).eraseDups

/-- All nodes in the order they are met from a start on. -/
def nodesFrom (ring : HashRing hash) (start : Nat) : List String := (ring.nodeNames.rotate start).eraseDups

section Walk

variable {ring : HashRing hash} {start k num : Nat}

theorem length_rotate_nodeNames (ring : HashRing hash) (start : Nat) :
    (ring.nodeNames.rotate start).length = ring.items.length := by
  rw [List.length_rotate, length_nodeNames]

theorem length_nodesFrom (ring : HashRing hash) (start : Nat) :
    (ring.nodesFrom start).length = ring.nodes.values.countP (0 < ·.numReplicas) := by
  rw [← length_eraseDups_nodeNames]
  exact length_eraseDups_of_mem_iff fun a => List.mem_rotate

theorem seen_isPrefix (ring : HashRing hash) (start k : Nat) : ring.seen start k <+: ring.nodesFrom start :=
  eraseDups_take_isPrefix _ k

theorem seen_round (h : ring.items.length ≤ k) : ring.seen start k = ring.nodesFrom start := by
  rw [seen, List.take_of_length_le ((length_rotate_nodeNames ring start).le.trans h), nodesFrom]

theorem seen_succ {index : Fin ring.items.length} (hk : k < ring.items.length)
    (hindex : ring.nodeNames.rotate index = (ring.nodeNames.rotate start).rotate k) :
    ring.seen start (k + 1) =
      if (ring.items.get index).nodeName ∈ ring.seen start k then ring.seen start k
      else ring.seen start k ++ [(ring.items.get index).nodeName] := by
  have hk' : k < (ring.nodeNames.rotate start).length := (length_rotate_nodeNames ring start).symm ▸ hk
  have hitem : (ring.items.get index).nodeName = (ring.nodeNames.rotate start)[k] := by
    have hhead := head?_rotate ring index
    rw [hindex, List.head?_rotate hk', List.getElem?_eq_getElem hk'] at hhead
    exact (Option.some.inj hhead).symm
  simp only [seen, List.take_succ_eq_append_getElem hk', eraseDups_concat, hitem, List.mem_eraseDups]

theorem rotate_nextIndex {index : Fin ring.items.length}
    (hindex : ring.nodeNames.rotate index = (ring.nodeNames.rotate start).rotate k) :
    ring.nodeNames.rotate (ring.nextIndex index) = (ring.nodeNames.rotate start).rotate (k + 1) := by
  calc ring.nodeNames.rotate (ring.nextIndex index) = ring.nodeNames.rotate (index + 1) := rotate_wrap ring index.isLt
    _ = (ring.nodeNames.rotate index).rotate 1 := (List.rotate_rotate _ _ _).symm
    _ = (ring.nodeNames.rotate start).rotate (k + 1) := by rw [hindex, List.rotate_rotate]

theorem findNLoop_of_done {nodes} (h : ¬ nodes.length < num) (fuel : Nat)
    (index : Fin ring.items.length) : ring.findNLoop num fuel index nodes = some nodes := by
  cases fuel <;> rw [findNLoop, if_neg h]

/-- The walk from a start: after `k` items the nodes are those seen in them. It ends within one round if as many nodes
as it looks for have an item. -/
theorem findNLoop_eq (hnum : num ≤ ring.nodes.values.countP (0 < ·.numReplicas)) :
    ∀ (fuel k : Nat) (index : Fin ring.items.length), ring.items.length ≤ k + fuel →
      ring.nodeNames.rotate index = (ring.nodeNames.rotate start).rotate k →
      (ring.seen start k).length ≤ num →
      ring.findNLoop num fuel index (ring.seen start k) = some ((ring.nodesFrom start).take num) := by
  intro fuel
  -- a walk that has gone round has met every node, so it looks for no more
  have hround : ∀ k, (ring.seen start k).length < num → k < ring.items.length := by
    intro k hlt
    by_contra hk
    rw [seen_round (Nat.le_of_not_lt hk), length_nodesFrom] at hlt
    omega
  have hdone : ∀ k, (ring.seen start k).length ≤ num → ¬ (ring.seen start k).length < num →
      ring.seen start k = (ring.nodesFrom start).take num := by
    intro k hle hnlt
    have hlength : (ring.seen start k).length = num := by omega
    rw [List.prefix_iff_eq_take.mp (seen_isPrefix ring start k), hlength]
  induction fuel with
  | zero =>
    intro k index hfuel _ hle
    have hk := mt (hround k) (by omega)
    rw [findNLoop_of_done hk, hdone k hle hk]
  | succ fuel ih =>
    intro k index hfuel hindex hle
    by_cases hlt : (ring.seen start k).length < num
    · rw [findNLoop, if_pos hlt]
      have hnodes := seen_succ (hround k hlt) hindex
      have hle' : (ring.seen start (k + 1)).length ≤ num := by
        rw [hnodes]
        split
        · exact hle
        · rw [List.length_append]
          exact hlt
      simp only [← hnodes]
      exact ih (k + 1) _ (by omega) (rotate_nextIndex hindex) hle'
    · rw [findNLoop_of_done hlt, hdone k hle hlt]

theorem findNLoop_add {result nodes fuel index} (more : Nat) (h : ring.findNLoop num fuel index nodes = some result) :
    ring.findNLoop num (fuel + more) index nodes = some result := by
  fun_induction findNLoop ring num fuel index nodes with
  | case1 => cases h
  | case2 index nodes hdone | case4 fuel index nodes hdone => rw [findNLoop_of_done hdone, h]
  | case3 fuel index nodes hlt item ih =>
    rw [Nat.succ_add, findNLoop, if_pos hlt]
    exact ih h

theorem findNLoop_forever (hnum : ring.nodes.values.countP (0 < ·.numReplicas) < num) :
    ∀ (fuel : Nat) (index : Fin ring.items.length) (nodes : List String), nodes.Nodup → nodes ⊆ ring.nodeNames →
      ring.findNLoop num fuel index nodes = none := by
  have hless : ∀ nodes : List String, nodes.Nodup → nodes ⊆ ring.nodeNames → nodes.length < num := by
    intro nodes hnodup hsub
    have hsub' : nodes ⊆ ring.nodeNames.eraseDups := fun a ha => List.mem_eraseDups.mpr (hsub ha)
    have hle := (List.subperm_of_subset hnodup hsub').length_le
    rw [length_eraseDups_nodeNames] at hle
    omega
  intro fuel
  induction fuel with
  | zero =>
    intro index nodes hnodup hsub
    rw [findNLoop, if_pos (hless nodes hnodup hsub)]
  | succ fuel ih =>
    intro index nodes hnodup hsub
    rw [findNLoop, if_pos (hless nodes hnodup hsub)]
    have hname : (ring.items.get index).nodeName ∈ ring.nodeNames := List.mem_map_of_mem (List.get_mem _ _)
    dsimp only
    split
    · exact ih _ _ hnodup hsub
    · rename_i hnew
      have hnodup' : (nodes ++ [(ring.items.get index).nodeName]).Nodup := by simpa using hnodup.concat hnew
      exact ih _ _ hnodup' (List.append_subset.mpr ⟨hsub, by simpa using hname⟩)

variable (B : BinarySearch)

theorem searchIndex_le (ring : HashRing hash) (position : Nat) : ring.searchIndex B position ≤ ring.items.length := by
  have hlen : ring.positions.length = ring.items.length := List.length_map _
  unfold searchIndex
  split
  · rename_i index hfound
    exact hlen ▸ (List.getElem?_eq_some_iff.mp (B.found ring.sorted_positions hfound)).1
  · rename_i index hmissing
    exact hlen ▸ (B.missing ring.sorted_positions hmissing).1

theorem findN_of_nil (h : ring.items = []) (fuel : Nat) (key : String) (n : Nat) :
    ring.findN B fuel key n = some (.error {}) := by
  simp only [findN, findIndex, dif_pos h]

theorem findN_of_ne_nil (hne : ring.items ≠ []) (fuel : Nat) (key : String) (n : Nat) :
    ring.findN B fuel key n = (ring.findNLoop (min ring.nodes.len n) fuel
      ⟨ring.wrap (ring.searchIndex B (hash key)), wrap_lt hne _⟩ []).map .ok := by
  simp only [findN, findIndex, dif_neg hne]

variable {n : Nat}

theorem findN_eq (hne : ring.items ≠ []) (hnum : min ring.nodes.len n ≤ ring.nodes.values.countP (0 < ·.numReplicas)) :
    ring.findN B ring.items.length key n =
      some (.ok ((ring.nodesFrom (ring.searchIndex B (hash key))).take (min ring.nodes.len n))) := by
  have hstart : ring.nodeNames.rotate (ring.wrap (ring.searchIndex B (hash key))) =
      (ring.nodeNames.rotate (ring.searchIndex B (hash key))).rotate 0 := by
    rw [rotate_wrap ring (searchIndex_le B ring _), List.rotate_zero]
  have hloop := findNLoop_eq hnum ring.items.length 0 ⟨_, wrap_lt hne _⟩ (by omega) hstart (Nat.zero_le _)
  rw [findN_of_ne_nil B hne]
  exact congrArg (Option.map Except.ok) hloop

theorem findN_unique {fuel fuel' result result'} (h : ring.findN B fuel key n = some result)
    (h' : ring.findN B fuel' key n = some result') : result = result' := by
  by_cases hne : ring.items = []
  · rw [findN_of_nil B hne] at h h'
    exact (Option.some.inj h).symm.trans (Option.some.inj h')
  · rw [findN_of_ne_nil B hne, Option.map_eq_some_iff] at h h'
    obtain ⟨nodes, hnodes, rfl⟩ := h
    obtain ⟨nodes', hnodes', rfl⟩ := h'
    have hsame := (findNLoop_add fuel' hnodes).symm.trans (Nat.add_comm fuel fuel' ▸ findNLoop_add fuel hnodes')
    rw [Option.some.inj hsame]

theorem findN_forever (hne : ring.items ≠ [])
    (hnum : ring.nodes.values.countP (0 < ·.numReplicas) < min ring.nodes.len n) (fuel : Nat) :
    ring.findN B fuel key n = none := by
  rw [findN_of_ne_nil B hne, findNLoop_forever hnum fuel _ [] List.nodup_nil (List.nil_subset _)]
  rfl

/-- Where every node has an item, `find_n` returns, and the node that `find` finds comes first. -/
theorem findN_spec (key : String) (hreplicas : ∀ node ∈ ring.nodes.values, 1 ≤ node.numReplicas) (hn : 1 ≤ n) :
    ∃ fuel result, ring.findN B fuel key n = some result ∧ (result = .error {} ∧ ring.find B key = .error {} ∨
      ∃ name rest, result = .ok (name :: rest) ∧ ring.find B key = .ok name ∧ (name :: rest).Nodup ∧
        rest.length < n) := by
  by_cases hne : ring.items = []
  · exact ⟨0, _, findN_of_nil B hne 0 key n, .inl ⟨rfl, find_of_nil B hne key⟩⟩
  have hcount : ring.nodes.values.countP (0 < ·.numReplicas) = ring.nodes.len :=
    List.countP_eq_length.mpr fun node hnode => decide_eq_true (hreplicas node hnode)
  have hlen : 0 < ring.nodes.len := by
    obtain ⟨item, hitem⟩ := List.exists_mem_of_ne_nil _ hne
    obtain ⟨node, hnode, -⟩ := mem_items.mp hitem
    exact List.length_pos_of_mem hnode
  have hhead : ((ring.nodesFrom (ring.searchIndex B (hash key))).take (min ring.nodes.len n)).head? =
      some (ring.items.get ⟨_, wrap_lt hne (ring.searchIndex B (hash key))⟩).nodeName := by
    rw [List.head?_take, if_neg (by omega), ← head?_rotate, nodesFrom, head?_eraseDups]
    exact congrArg List.head? (rotate_wrap ring (searchIndex_le B ring _)).symm
  obtain ⟨rest, hrest⟩ := List.head?_eq_some_iff.mp hhead
  refine ⟨_, _, findN_eq B hne (by omega), .inr ⟨_, rest, congrArg _ hrest, find_of_ne_nil B hne key, ?_, ?_⟩⟩
  · exact hrest ▸ (nodup_eraseDups _).sublist (List.take_sublist _ _)
  · have hlength := congrArg List.length hrest
    simp only [List.length_take, List.length_cons] at hlength
    omega

end Walk

/-! ## Where the nodes of a key begin -/

def firstIndex (ring : HashRing hash) (position : Nat) : Nat := lowerBound ring.positions position

/-- `find_n` returns (or says that the ring is empty), and what it returns are as many nodes as asked for, as far as
there are, each once and in the order of their first items at or above the key's position. -/
def Complete (ring : HashRing hash) (key : String) (n : Nat) : Prop :=
  ∀ B : BinarySearch, (∃ fuel, ring.findN B fuel key n = some (.error {})) ∨
    ∃ fuel nodes, ring.findN B fuel key n = some (.ok nodes) ∧ nodes.length = min ring.nodes.len n ∧ nodes.Nodup ∧
      nodes <+: ring.nodesFrom (ring.firstIndex (hash key))

/-- Every item right at a position is followed by one of the same node. -/
def StaysAt (ring : HashRing hash) (position : Nat) : Prop :=
  ∀ index : Fin ring.items.length, (ring.items.get index).ringIndex = position →
    (ring.items.get (ring.nextIndex index)).nodeName = (ring.items.get index).nodeName

section Start

variable {ring : HashRing hash}

theorem head?_nodesFrom (ring : HashRing hash) (index : Fin ring.items.length) :
    (ring.nodesFrom index).head? = some (ring.items.get index).nodeName := by
  rw [nodesFrom, head?_eraseDups, head?_rotate]

theorem head?_nodesFrom_succ (ring : HashRing hash) (index : Fin ring.items.length) :
    (ring.nodesFrom (index + 1)).head? = some (ring.items.get (ring.nextIndex index)).nodeName := by
  rw [← head?_nodesFrom, nodesFrom, nodesFrom]
  exact congrArg (fun l => l.eraseDups.head?) (rotate_wrap ring index.isLt).symm

theorem nodesFrom_succ {index}
    (h : (ring.items.get (ring.nextIndex index)).nodeName = (ring.items.get index).nodeName) :
    ring.nodesFrom (index + 1) = ring.nodesFrom index := by
  refine eraseDups_rotate_succ ?_
  rw [← head?_eraseDups, ← head?_eraseDups (ring.nodeNames.rotate (index + 1))]
  exact (head?_nodesFrom ring index).trans (h ▸ (head?_nodesFrom_succ ring index).symm)

theorem nodesFrom_searchIndex (B : BinarySearch) (hstays : ring.StaysAt position) :
    ring.nodesFrom (ring.searchIndex B position) = ring.nodesFrom (ring.firstIndex position) := by
  unfold searchIndex
  split
  · rename_i index hfound
    have hhit := B.found ring.sorted_positions hfound
    have hpass : ∀ n, ring.firstIndex position ≤ n → n ≤ index + 1 →
        ring.nodesFrom n = ring.nodesFrom (ring.firstIndex position) := by
      intro n hn
      induction n, hn using Nat.le_induction with
      | base => exact fun _ => rfl
      | succ n hn ih =>
        intro hle
        have hat := getElem?_of_lowerBound_le ring.sorted_positions hhit hn (by omega)
        have hlt : n < ring.items.length := by simpa [positions] using (List.getElem?_eq_some_iff.mp hat).1
        have hpos := (getElem?_positions ring ⟨n, hlt⟩).symm.trans hat
        rw [nodesFrom_succ (hstays ⟨n, hlt⟩ (Option.some.inj hpos)), ih (by omega)]
    exact hpass (index + 1) (Nat.le_succ_of_le (lowerBound_le_of_found ring.sorted_positions hhit)) le_rfl
  · rename_i index hmissing
    rw [B.missing_eq ring.sorted_positions hmissing, firstIndex]

/-- If the nodes begin the same wherever the search ends, every item right at the position is followed by one of its
own node. -/
theorem staysAt_of_head? (h : ∀ B : BinarySearch, (ring.nodesFrom (ring.searchIndex B position)).head? =
    (ring.nodesFrom (ring.firstIndex position)).head?) : ring.StaysAt position := by
  -- the node after an item at the position is the one at the first item there
  have hnext : ∀ index : Fin ring.items.length, (ring.items.get index).ringIndex = position →
      some (ring.items.get (ring.nextIndex index)).nodeName = (ring.nodesFrom (ring.firstIndex position)).head? := by
    intro index hat
    obtain ⟨B, hsearch⟩ := exists_searchIndex hat
    rw [← head?_nodesFrom_succ, ← hsearch]
    exact h B
  intro index hat
  have hget : ring.positions[(index : Nat)]? = some position := hat ▸ getElem?_positions ring index
  have hfirst := lowerBound_le_of_found ring.sorted_positions hget
  rcases Nat.eq_or_lt_of_le hfirst with heq | hlt
  · have hhead := head?_nodesFrom ring index
    rw [← heq] at hhead
    exact Option.some.inj ((hnext index hat).trans hhead)
  · -- the item before is at the position as well
    have hbefore := getElem?_of_lowerBound_le ring.sorted_positions hget (n := index - 1) (by omega) (by omega)
    have hlt' : (index : Nat) - 1 < ring.items.length := by omega
    have hat' := Option.some.inj ((getElem?_positions ring ⟨index - 1, hlt'⟩).symm.trans hbefore)
    have hnext' : ring.nextIndex ⟨index - 1, hlt'⟩ = index := by
      apply Fin.ext
      have hsucc : (index : Nat) - 1 + 1 = index := by omega
      simp only [nextIndex, wrap, hsucc]
      exact if_neg (by omega)
    have hown := hnext ⟨index - 1, hlt'⟩ hat'
    rw [hnext'] at hown
    exact Option.some.inj ((hnext index hat).trans hown.symm)

end Start

/-- **Which lookups of several nodes are complete.** Those in a ring without items, which is reported; and those that
look for no more nodes than have an item, if no node is asked for or every item right at the key's position is followed
by one of its own node. -/
theorem complete_iff (ring : HashRing hash) (key : String) (n : Nat) :
    ring.Complete key n ↔ (∀ node ∈ ring.nodes.values, node.numReplicas = 0) ∨
      (min ring.nodes.len n ≤ ring.nodes.values.countP (0 < ·.numReplicas) ∧
        (min ring.nodes.len n = 0 ∨ ring.StaysAt (hash key))) := by
  rw [← items_eq_nil]
  by_cases hne : ring.items = []
  · exact iff_of_true (fun B => .inl ⟨0, findN_of_nil B hne 0 key n⟩) (.inl hne)
  rw [or_iff_right hne]
  constructor
  · intro hcomplete
    have hreturns : ∀ B : BinarySearch, ∃ fuel nodes, ring.findN B fuel key n = some (.ok nodes) ∧
        nodes.length = min ring.nodes.len n ∧ nodes <+: ring.nodesFrom (ring.firstIndex (hash key)) := by
      intro B
      obtain ⟨fuel, herror⟩ | ⟨fuel, nodes, hok, hlength, -, hprefix⟩ := hcomplete B
      · rw [findN_of_ne_nil B hne] at herror
        simp at herror
      · exact ⟨fuel, nodes, hok, hlength, hprefix⟩
    have hnum : min ring.nodes.len n ≤ ring.nodes.values.countP (0 < ·.numReplicas) := by
      by_contra hlt
      obtain ⟨fuel, nodes, hok, -⟩ := hreturns linear
      rw [findN_forever linear hne (by omega) fuel] at hok
      cases hok
    refine ⟨hnum, or_iff_not_imp_left.mpr fun hpos => staysAt_of_head? fun B => ?_⟩
    obtain ⟨fuel, nodes, hok, hlength, hprefix⟩ := hreturns B
    have hnodes := Except.ok.inj (findN_unique B hok (findN_eq B hne hnum))
    have hnonempty : nodes ≠ [] := List.length_pos_iff.mp (by omega)
    have hhead : nodes.head? = (ring.nodesFrom (ring.searchIndex B (hash key))).head? := by
      rw [hnodes, List.head?_take, if_neg hpos]
    rw [← hhead]
    obtain ⟨rest, hrest⟩ := hprefix
    rw [← hrest, List.head?_append_of_ne_nil _ hnonempty]
  · rintro ⟨hnum, hstays⟩ B
    refine .inr ⟨_, _, findN_eq B hne hnum, ?_, (nodup_eraseDups _).sublist (List.take_sublist _ _), ?_⟩
    · rw [List.length_take, length_nodesFrom]
      omega
    · rcases hstays with hzero | hstays
      · rw [hzero, List.take_zero]
        exact List.nil_prefix
      · rw [nodesFrom_searchIndex B hstays]
        exact List.take_prefix _ _

end HashRing
end Ring
end Osprey.ConsistentHash
