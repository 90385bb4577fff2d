/-
The worker's side of a ring kept in etcd (`lib/etcd/ring.py`): the topology
as it is written and read, and `EtcdHashRing`, which keeps a copy of it and
selects from that.

The hash ring itself is a library; what it finds is a parameter, a function
of the members it was built from. Names, and keys that are no integers, are
bytes; they are decoded where a document is written and encoded where it is read.
-/
import Osprey.Coordinator.RingConfig
import Osprey.Lib.Raise
import Osprey.Lib.Run

namespace Osprey.EtcdRing

open Lib

/-! ## Members and topologies -/

abbrev Name := ByteArray

instance lawfulBEqByteArray : LawfulBEq ByteArray where
  eq_of_beq h := ByteArray.ext (eq_of_beq h)
  rfl {a} := beq_self_eq_true a.data

instance decidableEqByteArray : DecidableEq ByteArray := instDecidableEqOfLawfulBEq

/-- `EtcdHashRingMember`, which has at least one replica. -/
structure Member where
  name : Name
  numReplicas : Nat
  positive : 1 ≤ numReplicas
  deriving DecidableEq

inductive Key
  | int (n : Int)
  | bytes (b : ByteArray)
  deriving DecidableEq

abbrev Overrides := Dict Key (List Name)

inductive ReadError
  | valueError
  | assertionError
  | other
  deriving DecidableEq, Repr

theorem one_le_toNat {n : Int} (h : 1 ≤ n) : 1 ≤ n.toNat := by omega

/-- `EtcdHashRingMember.__init__`. -/
def Member.new (name : Name) (numReplicas : Int) : Except ReadError Member :=
  if h : 1 ≤ numReplicas then .ok ⟨name, numReplicas.toNat, one_le_toNat h⟩ else .error .valueError

structure Topology where
  members : List Member
  overrides : Overrides

namespace Topology

/-! ### Writing

Names and keys are decoded; `none` is a `UnicodeDecodeError`. -/

def writeMember (value : Member) : Option JsonDoc :=
  (String.fromUTF8? value.name).map fun name =>
    .dict [("name", .leaf (.str name)), ("num_replicas", .leaf (.int value.numReplicas))]

/-- `ensure_bytes_are_strings` of a name. -/
def writeName (name : Name) : Option JsonDoc := (String.fromUTF8? name).map fun name => .leaf (.str name)

/-- `ensure_bytes_are_strings` of a key. -/
def writeKey : Key → Option JsonDoc
  | .int n => some (.leaf (.int n))
  | .bytes b => writeName b

def writeOverride (values : Key × List Name) : Option JsonDoc := do
  return .list ((← writeKey values.1) :: (← values.2.mapM writeName))

def v1 (members overrides : List JsonDoc) : List (String × JsonDoc) :=
  [("schema", .leaf (.str "v1")), ("members", .list members), ("overrides", .list overrides)]

/-- `to_json`: the list of the members if there are no overrides, and the `v1` schema otherwise. -/
def toJson (members : List Member) (overrides : Overrides) : Option JsonDoc :=
  if overrides.entries = [] then (members.mapM writeMember).map .list
  else do return .dict (v1 (← members.mapM writeMember) (← overrides.entries.mapM writeOverride))

/-! ### Reading -/

/-- A JSON object as a `dict`: the last entry of a name counts. -/
def getItem (entries : List (String × JsonDoc)) (name : String) : Except ReadError JsonDoc :=
  match (Dict.ofList entries).get? name with
  | some value => .ok value
  | none => .error .other

/-- `read_member` of a value of the document. Names that are no texts, and counts that are no integers, are converted;
they are left out here. -/
def readMember (defaultNumReplicas : Int) : JsonDoc → Except ReadError Member
  | .leaf (.str name) => Member.new name.toUTF8 defaultNumReplicas
  | .dict entries => do
    match ← getItem entries "name", ← getItem entries "num_replicas" with
    | .leaf (.str name), .leaf (.int numReplicas) => Member.new name.toUTF8 numReplicas
    | _, _ => .error .other
  | _ => .error .valueError

/-- `read_members`: members that cannot be created are dropped. -/
def readMembers (defaultNumReplicas : Int) : List JsonDoc → Except ReadError (List Member)
  | [] => .ok []
  | value :: values =>
    match readMember defaultNumReplicas value with
    | .ok member => (member :: ·) <$> readMembers defaultNumReplicas values
    | .error .valueError => readMembers defaultNumReplicas values
    | .error e => .error e

/-- `ensure_strings_are_bytes` of a key. -/
def readKey : JsonDoc → Except ReadError Key
  | .leaf (.int n) => .ok (.int n)
  | .leaf (.str s) => .ok (.bytes s.toUTF8)
  | _ => .error .other

/-- `ensure_strings_are_bytes` of a name. -/
def readName : JsonDoc → Except ReadError Name
  | .leaf (.str s) => .ok s.toUTF8
  | _ => .error .other

/-- `read_override`: a key and at least one node. Keys and nodes of other types are left out here. -/
def readOverride : JsonDoc → Except ReadError (Key × List Name)
  | .list (key :: value :: values) => do return (← readKey key, ← (value :: values).mapM readName)
  | .list _ => .error .assertionError
  | _ => .error .other

def readOverrides (overrides : List JsonDoc) : Except ReadError Overrides :=
  Dict.ofList <$> overrides.mapM readOverride

def readList : JsonDoc → Except ReadError (List JsonDoc)
  | .list items => .ok items
  | _ => .error .other

def fromValue (defaultNumReplicas : Int) : JsonDoc → Except ReadError Topology
  | .list data => do return ⟨← readMembers defaultNumReplicas data, .empty⟩
  | .dict data =>
    match (Dict.ofList data).get? "schema" with
    | some (.leaf (.str "v1")) => do
      let members ← readMembers defaultNumReplicas (← readList (← getItem data "members"))
      let overrides ← readOverrides (← readList (← getItem data "overrides"))
      return ⟨members, overrides⟩
    | _ => .error .valueError
  | _ => .error .valueError

/-! ### Reading back what was written -/

theorem fromUTF8?_eq_some_iff {b : ByteArray} {s : String} : String.fromUTF8? b = some s ↔ b = s.toUTF8 := by
  rw [String.fromUTF8?, Option.dite_none_right_eq_some]
  constructor
  · rintro ⟨h, heq⟩
    exact congrArg String.toUTF8 (Option.some.inj heq)
  · rintro rfl
    exact ⟨s.isValidUTF8, rfl⟩

section

variable {member : Member} {members : List Member} {key : Key} {name : Name} {values : Key × List Name}
  {overrides : Overrides} {value : JsonDoc}

variable (defaultNumReplicas : Int)

theorem readMember_of_writeMember (h : writeMember member = some value) :
    readMember defaultNumReplicas value = .ok member := by
  obtain ⟨name, hname, rfl⟩ := Option.map_eq_some_iff.mp h
  have hpos : (1 : Int) ≤ member.numReplicas := by exact_mod_cast member.positive
  change Member.new name.toUTF8 member.numReplicas = .ok member
  rw [Member.new, dif_pos hpos, ← fromUTF8?_eq_some_iff.mp hname]
  rfl

theorem readMembers_of_writeMember {values} (h : members.mapM writeMember = some values) :
    readMembers defaultNumReplicas values = .ok members := by
  induction members generalizing values with
  | nil =>
    cases h
    rfl
  | cons member members ih =>
    obtain ⟨value, hvalue, values, hvalues, rfl⟩ := mapM_cons_eq_some.mp h
    rw [readMembers, readMember_of_writeMember defaultNumReplicas hvalue, ih hvalues]
    rfl

theorem readName_of_writeName (h : writeName name = some value) : readName value = .ok name := by
  obtain ⟨s, hs, rfl⟩ := Option.map_eq_some_iff.mp h
  exact congrArg Except.ok (fromUTF8?_eq_some_iff.mp hs).symm

theorem readNames_of_writeName {names : List Name} {values} (h : names.mapM writeName = some values) :
    values.mapM readName = .ok names := by
  have hread := mapM_of_mapM_write (.error .other) (fun _ => rfl) (fun _ => True) id
    (fun h => (readName_of_writeName h).trans (if_pos trivial).symm) h
  rw [hread, if_pos fun _ _ => trivial, List.map_id]
  rfl

theorem readKey_of_writeKey (h : writeKey key = some value) : readKey value = .ok key := by
  cases key with
  | int n =>
    cases h
    rfl
  | bytes b =>
    obtain ⟨s, hs, rfl⟩ := Option.map_eq_some_iff.mp h
    exact congrArg (Except.ok ∘ Key.bytes) (fromUTF8?_eq_some_iff.mp hs).symm

theorem writeOverride_eq_some_iff : writeOverride values = some value ↔
    ∃ key names, writeKey values.1 = some key ∧ values.2.mapM writeName = some names ∧
      .list (key :: names) = value := by
  simp [writeOverride, Option.bind_eq_some_iff]

theorem readOverride_of_writeOverride (h : writeOverride values = some value) :
    readOverride value = if values.2 ≠ [] then .ok values else .error .assertionError := by
  obtain ⟨key, names⟩ := values
  obtain ⟨keyValue, nameValues, hkey, hnames, rfl⟩ := writeOverride_eq_some_iff.mp h
  cases names with
  | nil =>
    cases hnames
    rfl
  | cons name names =>
    have hread := readNames_of_writeName hnames
    obtain ⟨first, hfirst, rest, hrest, rfl⟩ := mapM_cons_eq_some.mp hnames
    rw [if_pos (List.cons_ne_nil _ _), readOverride, hread, readKey_of_writeKey hkey]
    rfl

theorem readOverrides_of_writeOverride {values} (h : overrides.entries.mapM writeOverride = some values) :
    readOverrides values = if ∀ e ∈ overrides.entries, e.2 ≠ [] then .ok overrides else .error .assertionError := by
  rw [readOverrides, mapM_of_mapM_write (.error .assertionError) (fun _ => rfl) (·.2 ≠ []) id
    readOverride_of_writeOverride h, List.map_id]
  split
  · exact congrArg Except.ok overrides.ofList_entries
  · rfl

theorem toJson_eq_some_iff : toJson members overrides = some value ↔
    ∃ memberValues overrideValues, members.mapM writeMember = some memberValues ∧
      overrides.entries.mapM writeOverride = some overrideValues ∧
      (if overrides.entries = [] then .list memberValues else .dict (v1 memberValues overrideValues)) = value := by
  unfold toJson
  split
  · rename_i hnil
    simp [hnil]
  · simp [Option.bind_eq_some_iff]

theorem fromValue_of_toJson (h : toJson members overrides = some value) :
    fromValue defaultNumReplicas value =
      if ∀ e ∈ overrides.entries, e.2 ≠ [] then .ok ⟨members, overrides⟩ else .error .assertionError := by
  obtain ⟨memberValues, overrideValues, hmembers, hoverrides, rfl⟩ := toJson_eq_some_iff.mp h
  have hreadMembers := readMembers_of_writeMember defaultNumReplicas hmembers
  split
  · rename_i hnil
    have hempty : overrides = .empty := Dict.ext hnil
    rw [fromValue, hreadMembers, if_pos (by simp [hnil]), hempty]
    rfl
  · have hread : fromValue defaultNumReplicas (.dict (v1 memberValues overrideValues)) =
        readMembers defaultNumReplicas memberValues >>= fun members =>
          Topology.mk members <$> readOverrides overrideValues := rfl
    rw [hread, hreadMembers, readOverrides_of_writeOverride hoverrides]
    split
    · rfl
    · rfl

end

theorem exists_writeName_iff {name : Name} : (∃ value, writeName name = some value) ↔ name.IsValidUTF8 := by
  simp [writeName, String.fromUTF8?]

theorem exists_writeMember_iff {member : Member} :
    (∃ value, writeMember member = some value) ↔ member.name.IsValidUTF8 := by
  simp [writeMember, String.fromUTF8?]

theorem exists_writeOverride_iff {values : Key × List Name} : (∃ value, writeOverride values = some value) ↔
    (∀ b, values.1 = .bytes b → b.IsValidUTF8) ∧ ∀ name ∈ values.2, name.IsValidUTF8 := by
  have hkey : (∃ value, writeKey values.1 = some value) ↔ ∀ b, values.1 = .bytes b → b.IsValidUTF8 := by
    cases values.1 with
    | int n => exact iff_of_true ⟨_, rfl⟩ nofun
    | bytes b => simpa [writeKey] using exists_writeName_iff
  rw [← hkey]
  simp only [← exists_writeName_iff, ← exists_mapM_eq_some_iff, writeOverride_eq_some_iff]
  exact ⟨fun ⟨_, key, names, hkey, hnames, _⟩ => ⟨⟨key, hkey⟩, names, hnames⟩,
    fun ⟨⟨key, hkey⟩, names, hnames⟩ => ⟨_, key, names, hkey, hnames, rfl⟩⟩

theorem exists_toJson_iff {members : List Member} {overrides : Overrides} :
    (∃ value, toJson members overrides = some value) ↔ (∀ m ∈ members, m.name.IsValidUTF8) ∧
      ∀ e ∈ overrides.entries, (∀ b, e.1 = .bytes b → b.IsValidUTF8) ∧ ∀ name ∈ e.2, name.IsValidUTF8 := by
  simp only [← exists_writeMember_iff, ← exists_writeOverride_iff, ← exists_mapM_eq_some_iff, toJson_eq_some_iff]
  exact ⟨fun ⟨_, members, overrides, hmembers, hoverrides, _⟩ => ⟨⟨members, hmembers⟩, overrides, hoverrides⟩,
    fun ⟨⟨members, hmembers⟩, overrides, hoverrides⟩ => ⟨_, members, overrides, hmembers, hoverrides, rfl⟩⟩

/-- **When a topology is read back as it was written**: exactly if every name, and every key in bytes, is UTF-8, and
every override has a node. -/
theorem read_back_iff (defaultNumReplicas : Int) (members : List Member) (overrides : Overrides) :
    (∃ value, toJson members overrides = some value ∧ fromValue defaultNumReplicas value = .ok ⟨members, overrides⟩) ↔
      (∀ m ∈ members, m.name.IsValidUTF8) ∧ ∀ e ∈ overrides.entries, e.2 ≠ [] ∧
        (∀ b, e.1 = .bytes b → b.IsValidUTF8) ∧ ∀ name ∈ e.2, name.IsValidUTF8 := by
  constructor
  · rintro ⟨value, hvalue, hread⟩
    obtain ⟨hmembers, hoverrides⟩ := exists_toJson_iff.mp ⟨value, hvalue⟩
    rw [fromValue_of_toJson defaultNumReplicas hvalue] at hread
    split at hread
    · rename_i hnames
      exact ⟨hmembers, fun e he => ⟨hnames e he, hoverrides e he⟩⟩
    · cases hread
  · rintro ⟨hmembers, hoverrides⟩
    obtain ⟨value, hvalue⟩ := exists_toJson_iff.mpr ⟨hmembers, fun e he => (hoverrides e he).2⟩
    refine ⟨value, hvalue, ?_⟩
    rw [fromValue_of_toJson defaultNumReplicas hvalue, if_pos fun e he => (hoverrides e he).1]

/-- A key that is no UTF-8 is not written, and neither is a name. -/
theorem key_not_utf8 :
    toJson [] ⟨[(.bytes ⟨#[255]⟩, ["a".toUTF8])], List.nodup_singleton _⟩ = none ∧
      toJson [] ⟨[(.int 1, [⟨#[255]⟩])], List.nodup_singleton _⟩ = none := by
  decide

end Topology

/-! ## The ring -/

/-- The `hash_ring` library: what a ring built from members finds for a key. -/
structure Library where
  findNode : List Member → Key → Option Name
  findNodes : List Member → Key → Nat → List Name

structure EtcdHashRing where
  members : Dict Name Member
  overrides : Overrides
  /-- The members that the library's ring was built from. -/
  ring : List Member

def EtcdHashRing.empty : EtcdHashRing := ⟨.empty, .empty, []⟩

/-- What `select` returns: one node, or a list of them. -/
inductive Selected
  | one (node : Option Name)
  | many (nodes : List Name)
  deriving DecidableEq

def Selected.first? : Selected → Option Name
  | one node => node
  | many nodes => nodes.head?

def appendNew (overrides : List Name) (node : Name) : List Name :=
  if node ∈ overrides then overrides else overrides ++ [node]

def extend (overrides nodes : List Name) : List Name := nodes.foldl appendNew overrides

namespace EtcdHashRing

def selectOneOverride (self : EtcdHashRing) (key : Key) : Option Name := (self.overrides.get? key).bind List.head?

/-- `select`. The overrides are extended where they are stored. -/
def select (lib : Library) (self : EtcdHashRing) (key : Key) (secondaries : Nat) : Selected × EtcdHashRing :=
  if secondaries = 0 then
    match self.selectOneOverride key with
    -- a node without a name is falsy
    | some node => (.one (if node = .empty then lib.findNode self.ring key else some node), self)
    | none => (.one (lib.findNode self.ring key), self)
  else
    let nodes := lib.findNodes self.ring key (secondaries + 1)
    match self.overrides.get? key with
    | some overrides =>
      let overrides := extend overrides nodes
      (.many (overrides.take (secondaries + 1)), { self with overrides := self.overrides.set key overrides })
    | none => (.many nodes, self)

/-- `_update`. -/
def updateTopology (self : EtcdHashRing) (topology : Topology) : EtcdHashRing :=
  { self with
    members := .ofList (topology.members.map fun m => (m.name, m))
    overrides := topology.overrides
    ring := topology.members }

/-- `_persist_topology`: the ring after it, and the document that is stored. -/
def persistTopology (defaultNumReplicas : Int) (self : EtcdHashRing) : EtcdHashRing × Option JsonDoc :=
  match Topology.toJson self.members.values self.overrides with
  | none => (self, none)
  | some value =>
    match Topology.fromValue defaultNumReplicas value with
    | .ok topology => (self.updateTopology topology, some value)
    | .error _ => (self, some value)

/-- The loop over the members that `add`, `remove` and `update` are given, as values of a document or as members. What
was changed before a value that cannot be read stays changed. -/
def changeMembers (defaultNumReplicas : Int) (change : Dict Name Member → Member → Option (Dict Name Member)) :
    List (JsonDoc ⊕ Member) → Dict Name Member → Bool → Dict Name Member × Except ReadError Bool
  | [], members, dirty => (members, .ok dirty)
  | value :: values, members, dirty =>
    match value.elim (Topology.readMember defaultNumReplicas) .ok with
    | .error e => (members, .error e)
    | .ok member =>
      match change members member with
      | none => changeMembers defaultNumReplicas change values members dirty
      | some members => changeMembers defaultNumReplicas change values members true

def changeAndPersist (defaultNumReplicas : Int) (change : Dict Name Member → Member → Option (Dict Name Member))
    (self : EtcdHashRing) (values : List (JsonDoc ⊕ Member)) : EtcdHashRing × Option JsonDoc :=
  let (members, dirty) := changeMembers defaultNumReplicas change values self.members false
  let self := { self with members := members }
  match dirty with
  | .ok true => self.persistTopology defaultNumReplicas
  | _ => (self, none)

def add (defaultNumReplicas : Int) (self : EtcdHashRing) (members : List (JsonDoc ⊕ Member)) :
    EtcdHashRing × Option JsonDoc :=
  self.changeAndPersist defaultNumReplicas
    (fun known member => if known.get? member.name = some member then none else some (known.set member.name member))
    members

def remove (defaultNumReplicas : Int) (self : EtcdHashRing) (members : List (JsonDoc ⊕ Member)) :
    EtcdHashRing × Option JsonDoc :=
  self.changeAndPersist defaultNumReplicas
    (fun known member => if known.get? member.name = none then none else some (known.erase member.name)) members

def update (defaultNumReplicas : Int) (self : EtcdHashRing) (members : List (JsonDoc ⊕ Member)) :
    EtcdHashRing × Option JsonDoc :=
  self.changeAndPersist defaultNumReplicas
    (fun known member => if known.get? member.name = none then none else some (known.set member.name member)) members

def setOverrides (defaultNumReplicas : Int) (self : EtcdHashRing) (overrides : Overrides) :
    EtcdHashRing × Option JsonDoc :=
  if self.overrides ≠ overrides then { self with overrides := overrides }.persistTopology defaultNumReplicas
  else (self, none)

/-! ## What selecting changes -/

theorem mem_appendNew {overrides node n} (h : node ∈ overrides ∨ node = n) :
    node ∈ appendNew overrides n := by
  unfold appendNew
  split
  · rename_i hn
    exact h.elim id fun heq => heq ▸ hn
  · simpa using h

theorem mem_extend {overrides nodes node} (h : node ∈ overrides ∨ node ∈ nodes) :
    node ∈ extend overrides nodes := by
  induction nodes generalizing overrides with
  | nil => exact h.resolve_right List.not_mem_nil
  | cons n nodes ih =>
    refine ih ?_
    rcases h with h | h
    · exact .inl (mem_appendNew (.inl h))
    · rcases List.mem_cons.mp h with rfl | h
      · exact .inl (mem_appendNew (.inr rfl))
      · exact .inr h

theorem head?_extend {overrides} (nodes : List Name) (h : overrides ≠ []) :
    (extend overrides nodes).head? = overrides.head? := by
  induction nodes generalizing overrides with
  | nil => rfl
  | cons node nodes ih =>
    rw [extend, List.foldl_cons]
    by_cases hnode : node ∈ overrides
    · rw [appendNew, if_pos hnode]
      exact ih h
    · rw [appendNew, if_neg hnode]
      exact (ih (by simp)).trans (List.head?_append_of_ne_nil _ h)

theorem extend_eq_self_iff {overrides nodes} :
    extend overrides nodes = overrides ↔ ∀ node ∈ nodes, node ∈ overrides := by
  constructor
  · intro h node hnode
    rw [← h]
    exact mem_extend (.inr hnode)
  · intro h
    induction nodes with
    | nil => rfl
    | cons node nodes ih =>
      obtain ⟨hnode, hnodes⟩ := List.forall_mem_cons.mp h
      rw [extend, List.foldl_cons, appendNew, if_pos hnode]
      exact ih hnodes

/-- The selection extends no override: one node is asked for, or the nodes found for a key with overrides are among
them. -/
def ExtendsNothing (lib : Library) (self : EtcdHashRing) (key : Key) (secondaries : Nat) : Prop :=
  secondaries = 0 ∨ ∀ overrides, self.overrides.get? key = some overrides →
    ∀ node ∈ lib.findNodes self.ring key (secondaries + 1), node ∈ overrides

theorem select_snd_eq_iff (lib : Library) (self : EtcdHashRing) (key : Key) (secondaries : Nat) :
    (self.select lib key secondaries).2 = self ↔ self.ExtendsNothing lib key secondaries := by
  unfold select ExtendsNothing
  by_cases hzero : secondaries = 0
  · rw [if_pos hzero]
    exact iff_of_true (by split <;> rfl) (.inl hzero)
  · rw [if_neg hzero, or_iff_right hzero]
    cases hget : self.overrides.get? key with
    | none => exact iff_of_true rfl fun _ h => (by cases h)
    | some overrides =>
      have hset : self.overrides.set key (extend overrides (lib.findNodes self.ring key (secondaries + 1))) =
          self.overrides ↔ ∀ node ∈ lib.findNodes self.ring key (secondaries + 1), node ∈ overrides := by
        rw [Dict.set_eq_self_iff, hget, Option.some.injEq, eq_comm, extend_eq_self_iff]
      constructor
      · intro h overrides' heq
        obtain rfl := Option.some.inj heq
        exact hset.mp (congrArg EtcdHashRing.overrides h)
      · intro h
        have hsame := hset.mpr (h overrides rfl)
        simp only [hsame]

theorem persistTopology_spec (defaultNumReplicas : Int) (self : EtcdHashRing) :
    (self.persistTopology defaultNumReplicas).1.overrides = self.overrides ∧
      (self.persistTopology defaultNumReplicas).2 = Topology.toJson self.members.values self.overrides := by
  unfold persistTopology
  split
  · rename_i h
    exact ⟨rfl, h.symm⟩
  · rename_i value h
    rw [Topology.fromValue_of_toJson defaultNumReplicas h, h]
    split
    · rename_i topology htopology
      split at htopology
      · cases htopology
        exact ⟨rfl, rfl⟩
      · cases htopology
    · exact ⟨rfl, rfl⟩

section Change

variable {defaultNumReplicas : Int} {change : Dict Name Member → Member → Option (Dict Name Member)}
  {self : EtcdHashRing} {values : List (JsonDoc ⊕ Member)} {configured : Overrides}

theorem changeAndPersist_spec (h : self.overrides = configured) :
    (self.changeAndPersist defaultNumReplicas change values).1.overrides = configured ∧
      ∀ value, (self.changeAndPersist defaultNumReplicas change values).2 = some value →
        ∃ members, Topology.toJson members configured = some value := by
  subst h
  unfold changeAndPersist
  obtain ⟨members, dirty⟩ := changeMembers defaultNumReplicas change values self.members false
  dsimp only
  split
  · obtain ⟨hoverrides, hvalue⟩ := persistTopology_spec defaultNumReplicas { self with members := members }
    exact ⟨hoverrides, fun value h => ⟨_, hvalue.symm.trans h⟩⟩
  · exact ⟨rfl, fun _ h => (by cases h)⟩

end Change

end EtcdHashRing

/-! ## Runs -/

/-- The ring, and the overrides that were configured: those of the last topology read or set. -/
structure System where
  ring : EtcdHashRing
  configured : Overrides

def System.start (ring : EtcdHashRing) : System := ⟨ring, ring.overrides⟩

inductive Label
  | select (key : Key) (secondaries : Nat)
  | add (members : List (JsonDoc ⊕ Member))
  | remove (members : List (JsonDoc ⊕ Member))
  | update (members : List (JsonDoc ⊕ Member))
  | setOverrides (overrides : Overrides)
  /-- `_handle_event`: a topology is read from etcd. -/
  | handleEvent (topology : Topology)

section Runs

variable (lib : Library) (defaultNumReplicas : Int)

def step (s : System) : Label → System
  | .select key secondaries => { s with ring := (s.ring.select lib key secondaries).2 }
  | .add members => { s with ring := (s.ring.add defaultNumReplicas members).1 }
  | .remove members => { s with ring := (s.ring.remove defaultNumReplicas members).1 }
  | .update members => { s with ring := (s.ring.update defaultNumReplicas members).1 }
  | .setOverrides overrides => ⟨(s.ring.setOverrides defaultNumReplicas overrides).1, overrides⟩
  | .handleEvent topology => ⟨s.ring.updateTopology topology, topology.overrides⟩

/-- What a step is to keep: a selection gives what the configured overrides give and leaves the ring as it is; a change
of the members stores the configured overrides. -/
def Faithful (s : System) : Label → Prop
  | .select key secondaries => s.ring.select lib key secondaries =
      (({ s.ring with overrides := s.configured }.select lib key secondaries).1, s.ring)
  | .add members => ∀ value, (s.ring.add defaultNumReplicas members).2 = some value →
      ∃ stored, Topology.toJson stored s.configured = some value
  | .remove members => ∀ value, (s.ring.remove defaultNumReplicas members).2 = some value →
      ∃ stored, Topology.toJson stored s.configured = some value
  | .update members => ∀ value, (s.ring.update defaultNumReplicas members).2 = some value →
      ∃ stored, Topology.toJson stored s.configured = some value
  | .setOverrides _ => True
  | .handleEvent _ => True

/-- The condition on a step: a selection extends no override. -/
def Harmless (s : System) : Label → Prop
  | .select key secondaries => s.ring.ExtendsNothing lib key secondaries
  | _ => True

variable {lib defaultNumReplicas}

theorem faithful_iff {s} (h : s.ring.overrides = s.configured) (l : Label) :
    Faithful lib defaultNumReplicas s l ↔ Harmless lib s l := by
  cases l with
  | select key secondaries =>
    rw [Faithful, Harmless, ← EtcdHashRing.select_snd_eq_iff, ← h]
    exact ⟨fun heq => congrArg Prod.snd heq, fun heq => Prod.ext rfl heq⟩
  | add members | remove members | update members =>
    exact iff_of_true (EtcdHashRing.changeAndPersist_spec h).2 trivial
  | setOverrides overrides | handleEvent topology => exact Iff.rfl

theorem step_configured {s l} (h : s.ring.overrides = s.configured) (hl : Faithful lib defaultNumReplicas s l) :
    (step lib defaultNumReplicas s l).ring.overrides = (step lib defaultNumReplicas s l).configured := by
  cases l with
  | select key secondaries =>
    have hsame : (s.ring.select lib key secondaries).2 = s.ring := congrArg Prod.snd hl
    rw [step, hsame, h]
  | add members | remove members | update members => exact (EtcdHashRing.changeAndPersist_spec h).1
  | setOverrides overrides =>
    rw [step, EtcdHashRing.setOverrides]
    split
    · exact (EtcdHashRing.persistTopology_spec _ _).1
    · rename_i hsame
      exact not_not.mp hsame
  | handleEvent topology => rfl

/-- **When selecting leaves a ring as it is.** Along a run, every selection leaves the ring unchanged and gives what the
configured overrides give, and every change of the members stores these, exactly if no selection of several nodes finds
one that is missing from the overrides of its key. -/
theorem selects_leave_ring_iff (lib : Library) (defaultNumReplicas : Int) (ring : EtcdHashRing) (labels : List Label) :
    Along (step lib defaultNumReplicas) (Faithful lib defaultNumReplicas) (.start ring) labels ↔
      Along (step lib defaultNumReplicas) (Harmless lib) (.start ring) labels :=
  Along.congr (I := fun s => s.ring.overrides = s.configured) (fun _ l h => faithful_iff h l)
    (fun _ _ h hl => step_configured h hl) rfl

end Runs

/-- A node found beside the override of a key is stored with it, and persisted with the next member. -/
theorem select_stores_found_nodes :
    ∃ (lib : Library) (ring : EtcdHashRing) (member : Member),
      ¬ Along (step lib 512) (Faithful lib 512) (.start ring) [.select (.int 1) 1] ∧
      ring.overrides = ⟨[(.int 1, ["a".toUTF8])], List.nodup_singleton _⟩ ∧
      ((ring.select lib (.int 1) 1).2.add 512 [.inr member]).2 =
        Topology.toJson [member] ⟨[(.int 1, ["a".toUTF8, "b".toUTF8])], List.nodup_singleton _⟩ := by
  refine ⟨⟨fun _ _ => none, fun _ _ _ => ["b".toUTF8]⟩,
    ⟨.empty, ⟨[(.int 1, ["a".toUTF8])], List.nodup_singleton _⟩, []⟩, ⟨"b".toUTF8, 1, le_rfl⟩, ?_, rfl, rfl⟩
  rintro ⟨h, -⟩
  have hoverrides := congrArg (fun r => r.2.overrides.get? (.int 1)) h
  exact absurd hoverrides (by decide)

/-! ## One document, two readers -/

section Readers

open ConsistentHash

/-- The text that the bytes encode. -/
def text (b : ByteArray) : String := (String.fromUTF8? b).getD ""

theorem text_toUTF8 (s : String) : text s.toUTF8 = s := by
  rw [text, Topology.fromUTF8?_eq_some_iff.mpr rfl]
  rfl

def Member.node (member : Member) : ConsistentHash.Node := ⟨text member.name, member.numReplicas⟩

/-- The key as the coordinator is given it. -/
def Key.text : Key → String
  | .int n => toString n
  | .bytes b => EtcdRing.text b

/-- The coordinator reads an override: an integer of 64 bits and one node. -/
def Readable : Key × List Name → Prop
  | (.int n, [_]) => 0 ≤ n ∧ n < (2 ^ 64 : Nat)
  | _ => False

instance : DecidablePred Readable
  | (.int n, [_]) => inferInstanceAs (Decidable (0 ≤ n ∧ n < (2 ^ 64 : Nat)))
  | (.int _, []) => .isFalse id
  | (.int _, _ :: _ :: _) => .isFalse id
  | (.bytes _, _) => .isFalse id

def readAs : Key × List Name → Nat × String
  | (.int n, name :: _) => (n.toNat, text name)
  | _ => (0, "")

section

variable {member : Member} {members : List Member} {e : Key × List Name} {value : JsonDoc} {values : List JsonDoc}

theorem deserialize_of_writeMember (h : Topology.writeMember member = some value) :
    ConsistentHash.Node.deserialize value = if member.numReplicas < 2 ^ 32 then some member.node else none := by
  obtain ⟨name, hname, rfl⟩ := Option.map_eq_some_iff.mp h
  have hnode : member.node = ⟨name, member.numReplicas⟩ := by rw [Member.node, text, hname, Option.getD_some]
  have hname : JsonDoc.field? "name" [("name", .leaf (.str name)),
      ("num_replicas", .leaf (.int member.numReplicas))] = some (.str name) := rfl
  have hnum : JsonDoc.field? "num_replicas" [("name", .leaf (.str name)),
      ("num_replicas", .leaf (.int member.numReplicas))] = some (.int member.numReplicas) := rfl
  rw [ConsistentHash.Node.deserialize, hname, hnum, Option.bind_some, Option.bind_some, JsonDoc.nat?_int, hnode]
  by_cases h : member.numReplicas < 2 ^ 32
  · rw [if_pos h, if_pos (by omega)]
    rfl
  · rw [if_neg h, if_neg (by omega)]
    rfl

theorem deserializeOverride_of_writeOverride (h : Topology.writeOverride e = some value) :
    deserializeOverride value = if Readable e then some (readAs e) else none := by
  obtain ⟨key, names⟩ := e
  obtain ⟨keyValue, nameValues, hkey, hnames, rfl⟩ := Topology.writeOverride_eq_some_iff.mp h
  cases key with
  | bytes b =>
    obtain ⟨s, -, rfl⟩ := Option.map_eq_some_iff.mp hkey
    match nameValues with
    | [] | [_] | _ :: _ :: _ => rfl
  | int n =>
    cases hkey
    match names, hnames with
    | [], hnames =>
      cases hnames
      rfl
    | name :: other :: names, hnames =>
      obtain ⟨_, -, _, hothers, rfl⟩ := mapM_cons_eq_some.mp hnames
      obtain ⟨_, -, _, -, rfl⟩ := mapM_cons_eq_some.mp hothers
      rfl
    | [name], hnames =>
      obtain ⟨nameValue, hname, rest, hrest, rfl⟩ := mapM_cons_eq_some.mp hnames
      obtain ⟨s, hs, rfl⟩ := Option.map_eq_some_iff.mp hname
      obtain rfl : [] = rest := Option.some.inj hrest
      have hread : deserializeOverride (.list [.leaf (.int n), .leaf (.str s)]) =
          (JsonDoc.nat? (2 ^ 64) (.int n)).bind fun n => some (n, s) := rfl
      have htext : text name = s := by rw [text, hs, Option.getD_some]
      rw [hread, JsonDoc.nat?_int, readAs, htext]
      by_cases h : 0 ≤ n ∧ n < (2 ^ 64 : Nat)
      · rw [if_pos h, if_pos (show Readable (.int n, [name]) from h)]
        rfl
      · rw [if_neg h, if_neg (show ¬ Readable (.int n, [name]) from h)]
        rfl

theorem mapM_deserialize_of_writeMember (h : members.mapM Topology.writeMember = some values) :
    values.mapM ConsistentHash.Node.deserialize =
      if ∀ m ∈ members, m.numReplicas < 2 ^ 32 then some (members.map Member.node) else none :=
  mapM_of_mapM_write (m := Option) none (fun _ => rfl) (fun m => m.numReplicas < 2 ^ 32) Member.node
    deserialize_of_writeMember h

theorem mapM_legacyEntry_of_writeMember (h : members.mapM Topology.writeMember = some values) :
    values.mapM LegacyEntry.deserialize =
      if ∀ m ∈ members, m.numReplicas < 2 ^ 32 then some (members.map (.full ·.node)) else none := by
  refine mapM_of_mapM_write (m := Option) none (fun _ => rfl) (fun m => m.numReplicas < 2 ^ 32)
    (fun m => LegacyEntry.full m.node) (fun {m value} hvalue => ?_) h
  have hname : JsonDoc.string? value = none := by
    obtain ⟨name, -, rfl⟩ := Option.map_eq_some_iff.mp hvalue
    rfl
  rw [LegacyEntry.deserialize, hname, deserialize_of_writeMember hvalue]
  split <;> rfl

theorem deserializeVersioned_v1 (members overrides : List JsonDoc) :
    deserializeVersioned (.dict (Topology.v1 members overrides)) =
      (overrides.mapM deserializeOverride).bind fun overrides =>
        (members.mapM ConsistentHash.Node.deserialize).bind fun members => some ⟨some overrides, members⟩ := by
  have hschema : JsonDoc.field? "schema" (Topology.v1 members overrides) = some (.str "v1") := rfl
  have hmembers : JsonDoc.field? "members" (Topology.v1 members overrides) = some (.list members) := rfl
  have hoverrides : JsonDoc.optionalField? "overrides" (Topology.v1 members overrides) =
      some (some (.list overrides)) :=
    rfl
  simp only [deserializeVersioned, RingConfigV1.deserialize, hschema, hmembers, hoverrides, isV1, deserializeOverrides,
    JsonDoc.list?, Option.bind_some, Option.bind_eq_bind, beq_self_eq_true, if_true, Option.pure_def, Option.map_eq_map,
    Option.bind_map, Function.comp_def]

theorem deserializeVersioned_of_writeMember (h : members.mapM Topology.writeMember = some values) :
    deserializeVersioned (.list values) = none := by
  cases members with
  | nil =>
    cases h
    rfl
  | cons member members =>
    obtain ⟨value, hvalue, _, -, rfl⟩ := mapM_cons_eq_some.mp h
    obtain ⟨name, -, rfl⟩ := Option.map_eq_some_iff.mp hvalue
    rfl

theorem deserializeConfig_of_toJson (defaultNumReplicas : Nat) {overrides : Overrides}
    (h : Topology.toJson members overrides = some value) :
    deserializeConfig value defaultNumReplicas =
      if (∀ m ∈ members, m.numReplicas < 2 ^ 32) ∧ ∀ e ∈ overrides.entries, Readable e then
        some ⟨if overrides.entries = [] then none else some (overrides.entries.map readAs), members.map Member.node⟩
      else none := by
  obtain ⟨memberValues, overrideValues, hmemberValues, hoverrideValues, rfl⟩ := Topology.toJson_eq_some_iff.mp h
  by_cases hnil : overrides.entries = []
  · have hversioned := deserializeVersioned_of_writeMember hmemberValues
    rw [if_pos hnil, deserializeConfig, RingConfig.deserialize, JsonDoc.list?,
      mapM_legacyEntry_of_writeMember hmemberValues, hversioned, hnil]
    by_cases hmembers : ∀ m ∈ members, m.numReplicas < 2 ^ 32
    · rw [if_pos hmembers, if_pos ⟨hmembers, List.forall_mem_nil _⟩]
      simp [RingConfig.convertToV1]
    · rw [if_neg hmembers, if_neg (fun h => hmembers h.1)]
      rfl
  · have hread : deserializeConfig (.dict (Topology.v1 memberValues overrideValues)) defaultNumReplicas =
        deserializeVersioned (.dict (Topology.v1 memberValues overrideValues)) := by
      have hlist : JsonDoc.list? LegacyEntry.deserialize (.dict (Topology.v1 memberValues overrideValues)) = none := rfl
      rw [deserializeConfig, RingConfig.deserialize, hlist]
      simp [Function.comp_def, RingConfig.convertToV1]
    have hoverrides := mapM_of_mapM_write (m := Option) none (fun _ => rfl) Readable readAs
      deserializeOverride_of_writeOverride hoverrideValues
    rw [if_neg hnil, hread, deserializeVersioned_v1, hoverrides, mapM_deserialize_of_writeMember hmemberValues,
      if_neg hnil]
    by_cases hreadable : ∀ e ∈ overrides.entries, Readable e
    · by_cases hmembers : ∀ m ∈ members, m.numReplicas < 2 ^ 32
      · rw [if_pos hreadable, if_pos hmembers, if_pos ⟨hmembers, hreadable⟩]
        rfl
      · rw [if_pos hreadable, if_neg hmembers, if_neg (fun h : _ ∧ _ => hmembers h.1)]
        rfl
    · rw [if_neg hreadable, if_neg (fun h : _ ∧ _ => hreadable h.2)]
      rfl

end

/-- The written topology is read by both sides, with the same members, and both select the same node for every key that
is overridden. -/
def Agree (lib : Library) (hash : String → Nat) (B : Circle.BinarySearch) (defaultNumReplicas : Nat)
    (members : List Member) (overrides : Overrides) : Prop :=
  ∃ value config, Topology.toJson members overrides = some value ∧
    deserializeConfig value defaultNumReplicas = some config ∧ config.members = members.map Member.node ∧
    ∀ key ∈ overrides.keys, ∀ secondaries, ∃ node, (RingData.ofConfig hash config).select B key.text = some node ∧
      ((EtcdHashRing.empty.updateTopology ⟨members, overrides⟩).select lib key secondaries).1.first? = some node.toUTF8

theorem first?_select {lib} {ring : EtcdHashRing} {key name}
    (h : ring.overrides.get? key = some [name]) (secondaries : Nat) :
    (ring.select lib key secondaries).1.first? =
      if secondaries = 0 ∧ name = .empty then lib.findNode ring.ring key else some name := by
  unfold EtcdHashRing.select
  by_cases hzero : secondaries = 0
  · have hone : ring.selectOneOverride key = some name := by
      rw [EtcdHashRing.selectOneOverride, h]
      rfl
    rw [if_pos hzero, hone]
    by_cases hname : name = .empty
    · rw [if_pos ⟨hzero, hname⟩]
      simp only [if_pos hname]
      rfl
    · rw [if_neg (fun hand => hname hand.2)]
      simp only [if_neg hname]
      rfl
  · have hhead := EtcdHashRing.head?_extend (lib.findNodes ring.ring key (secondaries + 1)) (List.cons_ne_nil name [])
    rw [if_neg hzero, if_neg (fun hand => hzero hand.1), h]
    change ((extend [name] _).take (secondaries + 1)).head? = some name
    rw [List.head?_take, if_neg (Nat.succ_ne_zero _), hhead]
    rfl

theorem readable_iff {e} :
    Readable e ↔ ∃ (n : Nat) (name : Name), n < 2 ^ 64 ∧ e = (.int n, [name]) := by
  constructor
  · intro h
    match e, h with
    | (.int n, [name]), h =>
      obtain ⟨m, rfl⟩ := Int.eq_ofNat_of_zero_le h.1
      exact ⟨m, name, by exact_mod_cast h.2, rfl⟩
  · rintro ⟨n, name, hn, rfl⟩
    exact ⟨Int.natCast_nonneg n, by exact_mod_cast hn⟩

theorem toString_inj {m n : Nat} (h : toString m = toString n) : m = n := by
  have hdigits : Nat.toDigits 10 m = Nat.toDigits 10 n := by simpa using congrArg String.toList h
  rw [← Nat.ofDigitChars_toDigits (b := 10) (n := m) (by decide) (by decide), hdigits,
    Nat.ofDigitChars_toDigits (by decide) (by decide)]

theorem select_ofConfig {hash} (B : Circle.BinarySearch) {overrides : Overrides}
    {members} (hreadable : ∀ e ∈ overrides.entries, Readable e) {n : Nat} {name}
    (h : (.int n, [name]) ∈ overrides.entries) :
    (RingData.ofConfig hash
        ⟨if overrides.entries = [] then none else some (overrides.entries.map readAs), members⟩).select B
      (Key.text (.int n)) = some (text name) := by
  have hread : (if overrides.entries = [] then none else some (overrides.entries.map readAs)).getD [] =
      overrides.entries.map readAs := by
    split
    · rename_i hnil
      rw [hnil]
      rfl
    · rfl
  have hnodup : ((overrides.entries.map fun e => (toString (readAs e).1, (readAs e).2)).map Prod.fst).Nodup := by
    rw [List.map_map]
    refine overrides.nodup_entries.map_on fun e he e' he' heq => ?_
    obtain ⟨m, a, -, rfl⟩ := readable_iff.mp (hreadable e he)
    obtain ⟨m', a', -, rfl⟩ := readable_iff.mp (hreadable e' he')
    obtain rfl : m = m' := toString_inj heq
    exact List.inj_on_of_nodup_map overrides.nodup he he' rfl
  have hget : (RingData.ofConfig hash
      ⟨if overrides.entries = [] then none else some (overrides.entries.map readAs), members⟩).overrides.get?
        (toString n) = some (text name) := by
    simp only [RingData.ofConfig, hread, List.map_map]
    exact Dict.get?_foldl_set_of_mem hnodup (List.mem_map.mpr ⟨_, h, rfl⟩)
  have htext : Key.text (.int n) = toString n := rfl
  rw [htext, RingData.select, hget]

/-- **When the two sides agree on a stored ring.** The names are UTF-8 and the counts of replicas have 32 bits; every
override has an integer of 64 bits as its key and exactly one node; and a node without a name is found by the worker's
ring as well. -/
theorem agree_iff (lib : Library) (hash : String → Nat) (B : Circle.BinarySearch) (defaultNumReplicas : Nat)
    (members : List Member) (overrides : Overrides) :
    Agree lib hash B defaultNumReplicas members overrides ↔
      (∀ m ∈ members, m.name.IsValidUTF8 ∧ m.numReplicas < 2 ^ 32) ∧
      ∀ e ∈ overrides.entries, ∃ (n : Nat) (name : String), n < 2 ^ 64 ∧ e = (.int n, [name.toUTF8]) ∧
        (name = "" → lib.findNode members (.int n) = some .empty) := by
  have hfirst : ∀ {n : Nat} {name : Name}, (.int n, [name]) ∈ overrides.entries → ∀ secondaries,
      ((EtcdHashRing.empty.updateTopology ⟨members, overrides⟩).select lib (.int n) secondaries).1.first? =
        if secondaries = 0 ∧ name = .empty then lib.findNode members (.int n) else some name :=
    fun h secondaries => first?_select (Dict.get?_eq_some_iff.mpr h) secondaries
  constructor
  · rintro ⟨value, config, hvalue, hconfig, -, hselect⟩
    obtain ⟨hmembers, hoverrides⟩ := Topology.exists_toJson_iff.mp ⟨value, hvalue⟩
    rw [deserializeConfig_of_toJson defaultNumReplicas hvalue] at hconfig
    split at hconfig
    · rename_i hread
      obtain rfl := Option.some.inj hconfig
      refine ⟨fun m hm => ⟨hmembers m hm, hread.1 m hm⟩, fun e he => ?_⟩
      obtain ⟨n, name, hn, rfl⟩ := readable_iff.mp (hread.2 e he)
      obtain ⟨s, rfl⟩ : ∃ s : String, name = s.toUTF8 :=
        ⟨.ofByteArray name ((hoverrides _ he).2 name List.mem_cons_self), rfl⟩
      refine ⟨n, s, hn, rfl, ?_⟩
      rintro rfl
      obtain ⟨node, hrust, hpython⟩ := hselect (.int n) (List.mem_map_of_mem he) 0
      rw [select_ofConfig B hread.2 he, text_toUTF8] at hrust
      rw [hfirst he, if_pos ⟨rfl, rfl⟩, ← Option.some.inj hrust] at hpython
      exact hpython
    · cases hconfig
  · rintro ⟨hmembers, hoverrides⟩
    have hreadable : ∀ e ∈ overrides.entries, Readable e := by
      intro e he
      obtain ⟨n, name, hn, heq, -⟩ := hoverrides e he
      exact readable_iff.mpr ⟨n, _, hn, heq⟩
    have hutf8 : ∀ e ∈ overrides.entries, (∀ b, e.1 = .bytes b → b.IsValidUTF8) ∧ ∀ name ∈ e.2, name.IsValidUTF8 := by
      intro e he
      obtain ⟨n, name, -, rfl, -⟩ := hoverrides e he
      exact ⟨nofun, List.forall_mem_singleton.mpr name.isValidUTF8⟩
    obtain ⟨value, hvalue⟩ := Topology.exists_toJson_iff.mpr ⟨fun m hm => (hmembers m hm).1, hutf8⟩
    refine ⟨value, _, hvalue, (deserializeConfig_of_toJson defaultNumReplicas hvalue).trans
      (if_pos ⟨fun m hm => (hmembers m hm).2, hreadable⟩), rfl, ?_⟩
    intro key hkey secondaries
    obtain ⟨e, he, rfl⟩ := List.mem_map.mp hkey
    obtain ⟨n, name, -, rfl, hempty⟩ := hoverrides e he
    refine ⟨name, (select_ofConfig B hreadable he).trans (congrArg some (text_toUTF8 name)), ?_⟩
    rw [hfirst he]
    split
    · rename_i h
      have hname : name = "" := String.toByteArray_inj.mp h.2
      rw [hempty hname, hname]
      rfl
    · rfl

/-- An override with two nodes is written by the worker and not read by the coordinator. -/
theorem two_overrides_rejected :
    ∃ members overrides value, (∀ e ∈ Dict.entries overrides, e.2 ≠ []) ∧
      Topology.toJson members overrides = some value ∧ deserializeConfig value 512 = none := by
  let overrides : Overrides := ⟨[(.int 100, ["a".toUTF8, "b".toUTF8])], List.nodup_singleton _⟩
  have hwritten : (Topology.toJson [⟨"a".toUTF8, 1, le_rfl⟩] overrides).isSome = true := by decide
  obtain ⟨value, hvalue⟩ := Option.isSome_iff_exists.mp hwritten
  refine ⟨_, overrides, value, by decide, hvalue, ?_⟩
  rw [deserializeConfig_of_toJson 512 hvalue]
  exact if_neg fun h => h.2 _ List.mem_cons_self

end Readers

end Osprey.EtcdRing
