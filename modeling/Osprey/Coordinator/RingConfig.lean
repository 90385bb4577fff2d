/-
The coordinator's side of a ring kept in etcd (`discovery/ring.rs`,
`discovery/types/ring.rs`): how the stored document is read, and the ring and
overrides that are selected from.

The document is an untagged choice: a list whose entries are names or nodes,
or a configuration tagged with its schema. As everywhere with `serde`, a
structure may also be given as the list of its fields, a number may stand for
the name of a variant, fields that are not known are ignored, and one that is
given twice is an error.
-/
import Osprey.Coordinator.HashRing
import Osprey.Lib.Dict
import Osprey.Lib.JsonDoc

namespace Osprey.ConsistentHash

open Lib Lib.Circle

/-! ## The document -/

def Node.deserialize : JsonDoc → Option Node
  | .dict entries => do
    let name ← (JsonDoc.field? "name" entries).bind JsonDoc.string?
    let numReplicas ← (JsonDoc.field? "num_replicas" entries).bind (JsonDoc.nat? (2 ^ 32))
    return ⟨name, numReplicas⟩
  | .list [name, numReplicas] => do
    return ⟨← JsonDoc.string? name, ← JsonDoc.nat? (2 ^ 32) numReplicas⟩
  | _ => none

inductive LegacyEntry
  | named (name : String)
  | full (node : Node)

def LegacyEntry.deserialize (value : JsonDoc) : Option LegacyEntry :=
  (named <$> JsonDoc.string? value) <|> (full <$> Node.deserialize value)

structure RingConfigV1 where
  /-- The keys (`RingKey`) with the nodes they are sent to (`RingNodeName`). -/
  overrides : Option (List (Nat × String))
  members : List Node
  deriving DecidableEq

/-- A pair of a `RingKey` and a `RingNodeName`. -/
def deserializeOverride : JsonDoc → Option (Nat × String)
  | .list [key, nodeName] => do return (← JsonDoc.nat? (2 ^ 64) key, ← JsonDoc.string? nodeName)
  | _ => none

def deserializeOverrides : JsonDoc → Option (Option (List (Nat × String)))
  | .leaf .null => some none
  | value => some <$> JsonDoc.list? deserializeOverride value

def RingConfigV1.deserialize : JsonDoc → Option RingConfigV1
  | .dict entries => do
    let overrides ← match ← JsonDoc.optionalField? "overrides" entries with
      | none => some none
      | some value => deserializeOverrides value
    let members ← (JsonDoc.field? "members" entries).bind (JsonDoc.list? Node.deserialize)
    return ⟨overrides, members⟩
  | .list [overrides, members] => do
    return ⟨← deserializeOverrides overrides, ← JsonDoc.list? Node.deserialize members⟩
  | _ => none

/-- The tag of the only variant, `V1`. -/
def isV1 (tag : JsonDoc) : Bool :=
  match tag with
  | .leaf (.str s) => s == "v1"
  | .leaf (.int n) => n == 0
  | _ => false

/-- `VersionedRingConfig`, tagged with its `schema`. -/
def deserializeVersioned : JsonDoc → Option RingConfigV1
  | .dict entries => do
    let tag ← JsonDoc.field? "schema" entries
    if isV1 tag then RingConfigV1.deserialize (.dict entries) else none
  | .list (tag :: rest) => if isV1 tag then RingConfigV1.deserialize (.list rest) else none
  | _ => none

inductive RingConfig
  | legacyMixed (entries : List LegacyEntry)
  | versioned (config : RingConfigV1)

def RingConfig.deserialize (value : JsonDoc) : Option RingConfig :=
  (legacyMixed <$> JsonDoc.list? LegacyEntry.deserialize value) <|> (versioned <$> deserializeVersioned value)

def RingConfig.convertToV1 (defaultNumReplicas : Nat) : RingConfig → RingConfigV1
  | legacyMixed entries =>
    { overrides := none
      members := entries.map fun
        | .full node => node
        | .named name => ⟨name, defaultNumReplicas⟩ }
  | versioned config => config

def deserializeConfig (value : JsonDoc) (defaultNumReplicas : Nat) : Option RingConfigV1 :=
  (RingConfig.deserialize value).map (RingConfig.convertToV1 defaultNumReplicas)

/-! ## The ring -/

variable {hash : String → Nat}

structure RingData (hash : String → Nat) where
  ring : HashRing hash
  overrides : Dict String String

namespace RingData

/-- The data of a configuration. The keys of the overrides become texts. -/
def ofConfig (hash : String → Nat) (config : RingConfigV1) : RingData hash where
  ring := .withNodes hash config.members
  overrides := .ofList ((config.overrides.getD []).map fun e => (toString e.1, e.2))

def select (B : BinarySearch) (data : RingData hash) (key : String) : Option String :=
  match data.overrides.get? key with
  | some node => some node
  | none => (data.ring.find B key).toOption

/-- `select_n`: an override comes first. -/
def selectN (B : BinarySearch) (fuel : Nat) (data : RingData hash) (key : String) (n : Nat) :
    Option (Option (List String)) :=
  (data.ring.findN B fuel key n).map fun result =>
    match data.overrides.get? key, result with
    | none, result => result.toOption
    | some node, .ok nodes => some (node :: nodes.filter (· ≠ node))
    | some node, .error _ => some [node]

/-- **One node and several agree.** If every node has a replica and at least one node is asked for, `select_n` returns,
nothing exactly if `select` does; otherwise the node of `select` comes first, no node comes twice, at most one more than
asked for, and those after the first are found in this order by `find_n`. -/
theorem select_first_of_selectN (B : BinarySearch) (data : RingData hash) (key : String) (n : Nat)
    (hreplicas : ∀ node ∈ data.ring.nodes.values, 1 ≤ node.numReplicas) (hn : 1 ≤ n) :
    (∃ fuel selected, data.selectN B fuel key n = some selected) ∧
    ∀ fuel selected, data.selectN B fuel key n = some selected →
      (selected = none ↔ data.select B key = none) ∧
      ∀ nodes, selected = some nodes → nodes.head? = data.select B key ∧ nodes.Nodup ∧ nodes.length ≤ n + 1 ∧
        ∃ result, data.ring.findN B fuel key n = some result ∧ nodes.tail.Sublist (result.toOption.getD []) := by
  obtain ⟨fuel, result, hresult, hspec⟩ := HashRing.findN_spec B key hreplicas hn
  refine ⟨⟨fuel, _, congrArg _ hresult⟩, fun fuel' selected hselected => ?_⟩
  obtain ⟨result', hresult', rfl⟩ := Option.map_eq_some_iff.mp hselected
  obtain rfl := HashRing.findN_unique B hresult hresult'
  unfold select
  cases hoverride : data.overrides.get? key with
  | none =>
    obtain ⟨rfl, hfind⟩ | ⟨name, rest, rfl, hfind, hnodup, hlength⟩ := hspec
    · simp [hfind, Except.toOption]
    · refine ⟨by simp [hfind, Except.toOption], fun nodes hnodes => ?_⟩
      obtain rfl := Option.some.inj hnodes
      exact ⟨by simp [hfind, Except.toOption], hnodup, by simp; omega, _, hresult', List.sublist_cons_self _ _⟩
  | some node =>
    obtain ⟨rfl, -⟩ | ⟨name, rest, rfl, -, hnodup, hlength⟩ := hspec
    · refine ⟨by simp, fun nodes hnodes => ?_⟩
      obtain rfl := Option.some.inj hnodes
      exact ⟨rfl, List.nodup_singleton _, by simp, _, hresult', List.Sublist.refl _⟩
    · refine ⟨by simp, fun nodes hnodes => ?_⟩
      obtain rfl := Option.some.inj hnodes
      have hle := List.length_filter_le (· ≠ node) (name :: rest)
      refine ⟨rfl, List.nodup_cons.mpr ⟨by simp, hnodup.filter _⟩, ?_, _, hresult', List.filter_sublist⟩
      simp only [List.length_cons] at hle ⊢
      omega

/-- An override beside a ring of two nodes. -/
theorem select_first_of_selectN_override :
    let data : RingData String.length := ⟨.withNodes String.length [⟨"a", 1⟩, ⟨"cc", 1⟩], .ofList [("1", "b")]⟩
    ∃ fuel nodes, data.selectN linear fuel "1" 2 = some (some nodes) ∧ nodes.head? = some "b" ∧ nodes.Nodup := by
  intro data
  obtain ⟨⟨fuel, selected, hselected⟩, hspec⟩ := select_first_of_selectN linear data "1" 2 (by decide) (by decide)
  obtain ⟨hnone, hnodes⟩ := hspec fuel selected hselected
  cases selected with
  | none => exact absurd (hnone.mp rfl) (by decide)
  | some nodes =>
    obtain ⟨hhead, hnodup, -⟩ := hnodes nodes rfl
    exact ⟨fuel, nodes, hselected, hhead, hnodup⟩

end RingData

/-! ## Lookups of several nodes -/

/-- **Which lookups of several nodes return, and return them all.** In the ring of any configuration: if no node has a
replica, the ring is reported as empty. Otherwise no more nodes may be looked for than have a replica, and, if one is
looked for, every item right at the key's hash has to be followed by one of its own node. -/
theorem findN_complete_iff (config : RingConfigV1) (key : String) (n : Nat) :
    (RingData.ofConfig hash config).ring.Complete key n ↔
      (∀ node ∈ (RingNodes.withNodes config.members).values, node.numReplicas = 0) ∨
      (min (RingNodes.withNodes config.members).len n ≤
          (RingNodes.withNodes config.members).values.countP (0 < ·.numReplicas) ∧
        (min (RingNodes.withNodes config.members).len n = 0 ∨
          (RingData.ofConfig hash config).ring.StaysAt (hash key))) :=
  HashRing.complete_iff _ key n

/-- A stored node without replicas beside one that has some: the lookup of two nodes never returns. -/
theorem findN_hangs :
    ∃ config, deserializeConfig (.list [.dict [("name", .leaf (.str "a")), ("num_replicas", .leaf (.int 1))],
        .dict [("name", .leaf (.str "b")), ("num_replicas", .leaf (.int 0))]]) 512 = some config ∧
      ∀ (hash : String → Nat) (B : BinarySearch) (fuel : Nat) (key : String),
        (RingData.ofConfig hash config).ring.findN B fuel key 2 = none := by
  refine ⟨⟨none, [⟨"a", 1⟩, ⟨"b", 0⟩]⟩, by decide, fun hash B fuel key => ?_⟩
  have hitem : (⟨hash "a0", "a"⟩ : Item) ∈ (RingData.ofConfig hash ⟨none, [⟨"a", 1⟩, ⟨"b", 0⟩]⟩).ring.items :=
    HashRing.mem_items.mpr ⟨⟨"a", 1⟩, List.mem_cons_self, List.mem_cons_self⟩
  have hless : (RingNodes.withNodes [⟨"a", 1⟩, ⟨"b", 0⟩]).values.countP (0 < ·.numReplicas) <
      min (RingNodes.withNodes [⟨"a", 1⟩, ⟨"b", 0⟩]).len 2 := by decide
  exact HashRing.findN_forever B (List.ne_nil_of_mem hitem) hless fuel

end Osprey.ConsistentHash
