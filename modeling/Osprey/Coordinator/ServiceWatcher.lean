/-
The coordinator's view of the instances of a service (`discovery::watcher`):
the stream of watch events on the service's directory in etcd, and the loop
that keeps a map of the registrations by their ids.

The stream gets the directory once and then follows its changes. After an
error it backs off and gets the directory again, and what has happened in
between is in that answer only. So etcd is modelled by what it answers: at a
get, whatever the directory holds by then; while watching, the changes one
by one.
-/
import Osprey.Coordinator.Etcd
import Osprey.Lib.Dict
import Osprey.Lib.Run

namespace Osprey.Discovery

open Etcd (KeyValueInfo Response EtcdError WriteAction RemoveAction)
open Lib (Dict Along)

/-! ## Registrations -/

structure ServiceRegistration where
  name : String
  address : String
  port : UInt16
  ports : List (String × UInt16) := []
  ip : Option String := none
  idOverride : Option String := none
  draining : Bool := false
  deriving DecidableEq

def ServiceRegistration.id (r : ServiceRegistration) : String :=
  match r.idOverride with
  | some idOverride => idOverride ++ ":" ++ toString r.port.toNat
  | none => r.address ++ ":" ++ toString r.port.toNat

/-- How registrations are written as JSON texts, the values `V` that etcd stores, and read back. -/
structure Serde (V : Type) where
  toString : ServiceRegistration → V
  fromStr : V → Option ServiceRegistration
  fromStr_toString : ∀ r, fromStr (toString r) = some r

variable {V : Type}

/-! ## Watch events -/

inductive WatchEvent (V : Type)
  | get (info : Option (KeyValueInfo V))
  | update (info : KeyValueInfo V)

/-! ## The event stream -/

inductive PendingFuture
  | get
  | watch (afterIndex : Nat)
  | backoff

/-- `poll_get`, on the answer: the next future, and the event if the poll is ready. -/
def pollGet : Except EtcdError (Response V) → PendingFuture × Option (WatchEvent V)
  | .ok response =>
    match response.etcdIndex with
    | some afterIndex => (.watch afterIndex, some (.get (some response.data)))
    | none => (.backoff, none)
  | .error (.keyNotFound afterIndex) => (.watch afterIndex, some (.get none))
  | .error _ => (.backoff, none)

/-- `poll_watch`, on the answer. -/
def pollWatch : Except EtcdError (Response V) → PendingFuture × Option (WatchEvent V)
  | .error _ => (.backoff, none)
  | .ok response =>
    match response.data.node.modifiedIndex with
    | some afterIndex => (.watch afterIndex, some (.update response.data))
    | none => (.backoff, none)

inductive Ready (V : Type)
  | slept
  | got (answer : Except EtcdError (Response V))
  | watched (answer : Except EtcdError (Response V))

/-- `poll_pending`, once a future is ready. -/
def pollPending : PendingFuture → Ready V → PendingFuture × Option (WatchEvent V)
  | .backoff, .slept => (.get, none)
  | .get, .got answer => pollGet answer
  | .watch _, .watched answer => pollWatch answer
  | pending, _ => (pending, none)

/-! ## The loop -/

def deserializeNode (serde : Serde V) (node : Etcd.Node V) : Option ServiceRegistration :=
  match node.value with
  | some value => serde.fromStr value
  | none => none

def deserializeNodes (serde : Serde V) (nodes : List (Etcd.Node V)) : Option (List ServiceRegistration) :=
  nodes.mapM (deserializeNode serde)

abbrev Instances := Dict String ServiceRegistration

/-- One turn of the loop of `watch`: the map after an event. -/
def watch (serde : Serde V) (instances : Instances) : WatchEvent V → Instances
  | .get none => instances
  | .get (some info) | .update info =>
    match info.action with
    | .get =>
      match info.node.nodes with
      | some nodes =>
        match deserializeNodes serde nodes with
        | some services => Dict.ofList (services.map fun service => (service.id, service))
        | none => instances
      | none => instances
    | .set | .create | .compareAndSwap | .update =>
      match deserializeNode serde info.node with
      | some service => instances.set service.id service
      | none => instances
    | .delete | .expire | .compareAndDelete =>
      match info.prevNode with
      | some node =>
        match deserializeNode serde node with
        | some service => instances.erase service.id
        | none => instances
      | none => instances

/-! ## The directory in etcd -/

/-- A directory of registrations, each under its id. -/
structure Directory where
  registrations : Instances
  keyed : ∀ id r, registrations.get? id = some r → r.id = id

namespace Directory

def empty : Directory := ⟨Dict.empty, fun _ _ h => by simp at h⟩

def set (d : Directory) (r : ServiceRegistration) : Directory where
  registrations := d.registrations.set r.id r
  keyed := Dict.forall_set d.keyed rfl

def erase (d : Directory) (id : String) : Directory where
  registrations := d.registrations.erase id
  keyed := Dict.forall_erase d.keyed

def ofList (rs : List ServiceRegistration) : Directory := rs.foldl set empty

theorem registrations_ofList (rs : List ServiceRegistration) :
    (ofList rs).registrations = Dict.ofList (rs.map fun r => (r.id, r)) := by
  have hfold : ∀ d : Directory, (rs.foldl set d).registrations =
      (rs.map fun r => (r.id, r)).foldl (fun m e => m.set e.1 e.2) d.registrations := by
    induction rs with
    | nil => exact fun _ => rfl
    | cons r rs ih => exact fun d => ih (d.set r)
  exact hfold empty

end Directory

/-- What can happen to a directory: a registration is written or removed under its key, or the directory
itself is written (it comes into being, or its lease is renewed) or removed with all it holds. -/
inductive Change
  | write (action : WriteAction) (r : ServiceRegistration)
  | remove (action : RemoveAction) (id : String)
  | writeDirectory (action : WriteAction)
  | removeDirectory (action : RemoveAction)

/-- The directory after a change, if there is one. -/
def Change.directory (d : Option Directory) : Change → Option Directory
  | write _ r => some ((d.getD .empty).set r)
  | remove _ id => d.map (·.erase id)
  | writeDirectory _ => some (d.getD .empty)
  | removeDirectory _ => none

def fileNode (serde : Serde V) (modifiedIndex : Option Nat) (r : ServiceRegistration) : Etcd.Node V :=
  { value := some (serde.toString r), modifiedIndex := modifiedIndex }

/-- The node of something without a value: a directory, or a key that is gone. -/
def bareNode (modifiedIndex : Option Nat) : Etcd.Node V :=
  { value := none, modifiedIndex := modifiedIndex }

/-- How a watch reports a change. There is nothing to report if there was nothing to remove. -/
def Change.info (serde : Serde V) (d : Option Directory) (modifiedIndex : Option Nat) :
    Change → Option (KeyValueInfo V)
  | write a r =>
    some ⟨a.action, fileNode serde modifiedIndex r,
      ((d.getD .empty).registrations.get? r.id).map (fileNode serde none)⟩
  | remove a id =>
    ((d.getD .empty).registrations.get? id).map fun r =>
      ⟨a.action, bareNode modifiedIndex, some (fileNode serde none r)⟩
  | writeDirectory a => some ⟨a.action, bareNode modifiedIndex, d.map fun _ => bareNode none⟩
  | removeDirectory a => d.map fun _ => ⟨a.action, bareNode modifiedIndex, some (bareNode none)⟩

/-! ## Runs -/

/-- What etcd answers, or that the backoff is over. A get finds the directory missing, or lists its
registrations; the list is left out for an empty directory. -/
inductive Label
  | slept
  | getFailed
  | getMissing (index : Nat)
  | getFound (nodes : Option (List ServiceRegistration)) (etcdIndex : Option Nat)
  | watchFailed
  | watchChanged (change : Change) (modifiedIndex : Option Nat)

/-- The state of the stream and of the map, and the directory as of the last event. -/
structure State where
  pending : PendingFuture := .get
  instances : Instances := Dict.empty
  directory : Option Directory := none

def State.registrations (s : State) : Instances := (s.directory.getD .empty).registrations

def Label.ready (serde : Serde V) (d : Option Directory) : Label → Option (Ready V)
  | slept => some .slept
  | getFailed => some (.got (.error .other))
  | getMissing index => some (.got (.error (.keyNotFound index)))
  | getFound nodes etcdIndex =>
    let node : Etcd.Node V := { value := none, nodes := nodes.map (·.map (fileNode serde none)) }
    some (.got (.ok ⟨{ action := .get, node := node }, etcdIndex⟩))
  | watchFailed => some (.watched (.error .other))
  | watchChanged change modifiedIndex =>
    (change.info serde d modifiedIndex).map fun info => .watched (.ok ⟨info, none⟩)

def Label.directory (d : Option Directory) : Label → Option Directory
  | getMissing _ => none
  | getFound nodes _ => some (.ofList (nodes.getD []))
  | watchChanged change _ => change.directory d
  | _ => d

def State.step (serde : Serde V) (s : State) (label : Label) : State :=
  match label.ready serde s.directory with
  | none => s
  | some ready =>
    match pollPending s.pending ready with
    | (pending, none) => { s with pending := pending }
    | (pending, some event) => ⟨pending, watch serde s.instances event, label.directory s.directory⟩

def Mirrors (s : State) : Prop := ∀ id, s.instances.get? id = s.registrations.get? id

/-- The steps after which the map may hold more than the directory: a get that finds the directory missing or
without a list of nodes, and a removal of the directory itself. They leave the map as it is, so nothing may
have been registered when the directory was last heard of. -/
def Keeps (s : State) (label : Label) : Prop :=
  match s.pending, label with
  | .get, .getMissing _ | .get, .getFound none (some _) | .watch _, .watchChanged (.removeDirectory _) (some _) =>
    s.registrations = Dict.empty
  | _, _ => True

section Step

variable {serde : Serde V} {s : State}

@[simp] theorem deserializeNode_fileNode (modifiedIndex : Option Nat) (r : ServiceRegistration) :
    deserializeNode serde (fileNode serde modifiedIndex r) = some r :=
  serde.fromStr_toString r

theorem deserializeNodes_fileNodes (rs : List ServiceRegistration) :
    deserializeNodes serde (rs.map (fileNode serde none)) = some rs := by
  induction rs with
  | nil => rfl
  | cons r rs ih => simp_all [deserializeNodes]

theorem mirrors_unchanged_iff (h : Mirrors s) (pending : PendingFuture) {d : Option Directory}
    (hd : (d.getD .empty).registrations = Dict.empty) :
    Mirrors ⟨pending, s.instances, d⟩ ↔ s.registrations = Dict.empty := by
  constructor
  · intro h'
    have hnone : ∀ id, s.registrations.get? id = none := fun id => by
      rw [← h id, h' id, State.registrations, hd, Dict.get?_empty]
    apply Dict.ext
    refine List.eq_nil_iff_forall_not_mem.2 fun e he => ?_
    have := Dict.get?_eq_some_iff.2 he
    rw [hnone] at this
    cases this
  · intro hempty id
    rw [h id, hempty, State.registrations, hd]

theorem watch_write (instances : Instances) (action : WriteAction) (node : Etcd.Node V)
    (prevNode : Option (Etcd.Node V)) :
    watch serde instances (.update ⟨action.action, node, prevNode⟩) =
      match deserializeNode serde node with
      | some service => instances.set service.id service
      | none => instances := by
  cases action <;> rfl

theorem watch_remove (instances : Instances) (action : RemoveAction) (node prevNode : Etcd.Node V) :
    watch serde instances (.update ⟨action.action, node, some prevNode⟩) =
      match deserializeNode serde prevNode with
      | some service => instances.erase service.id
      | none => instances := by
  cases action <;> rfl

theorem Mirrors.write (h : Mirrors s) (pending : PendingFuture) (action : WriteAction) (r : ServiceRegistration) :
    Mirrors ⟨pending, s.instances.set r.id r, (Change.write action r).directory s.directory⟩ := by
  intro id
  change (s.instances.set r.id r).get? id = (s.registrations.set r.id r).get? id
  rw [Dict.get?_set, Dict.get?_set, h id]

theorem Mirrors.remove (h : Mirrors s) (pending : PendingFuture) (action : RemoveAction) {d}
    (hd : s.directory = some d) (id : String) :
    Mirrors ⟨pending, s.instances.erase id, (Change.remove action id).directory s.directory⟩ := by
  intro id'
  have hold : s.instances.get? id' = d.registrations.get? id' := by
    rw [h id', State.registrations, hd]
    rfl
  rw [hd]
  change (s.instances.erase id).get? id' = (d.registrations.erase id).get? id'
  rw [Dict.get?_erase, Dict.get?_erase, hold]

/-- A change that the loop hears of: the map follows it, unless it removes the directory. -/
theorem mirrors_changed_iff (h : Mirrors s) (afterIndex : Nat) (change : Change) (modifiedIndex : Nat) :
    Mirrors (State.step serde { s with pending := .watch afterIndex } (.watchChanged change (some modifiedIndex))) ↔
      Keeps { s with pending := .watch afterIndex } (.watchChanged change (some modifiedIndex)) := by
  cases change with
  | write action r =>
    refine iff_of_true ?_ trivial
    simp only [State.step, Label.ready, Change.info, Option.map_some, pollPending, pollWatch, fileNode, watch_write]
    simp only [deserializeNode, serde.fromStr_toString]
    exact h.write _ action r
  | remove action id =>
    refine iff_of_true ?_ trivial
    cases hr : s.registrations.get? id with
    | none =>
      have hget : (s.directory.getD .empty).registrations.get? id = none := hr
      simp only [State.step, Label.ready, Change.info, hget, Option.map_none]
      exact h
    | some r =>
      have hget : (s.directory.getD .empty).registrations.get? id = some r := hr
      have hid : r.id = id := (s.directory.getD .empty).keyed id r hget
      simp only [State.step, Label.ready, Change.info, hget, Option.map_some, pollPending, pollWatch, bareNode,
        watch_remove, deserializeNode_fileNode]
      rw [hid]
      cases hd : s.directory with
      | none =>
        rw [hd] at hget
        cases hget
      | some d =>
        have hremove := h.remove (.watch modifiedIndex) action hd id
        rw [hd] at hremove
        exact hremove
  | writeDirectory action =>
    refine iff_of_true ?_ trivial
    simp only [State.step, Label.ready, Change.info, Option.map_some, pollPending, pollWatch, bareNode, watch_write]
    exact h
  | removeDirectory action =>
    obtain ⟨pending, instances, _ | d⟩ := s
    · exact iff_of_true h rfl
    · have hstep := mirrors_unchanged_iff h (.watch modifiedIndex) (d := none) rfl
      refine Iff.trans ?_ hstep
      simp only [State.step, Label.ready, Change.info, Option.map_some, pollPending, pollWatch, bareNode,
        watch_remove, deserializeNode]
      rfl

theorem Change.modifiedIndex_info {d modifiedIndex} {change : Change}
    {info} (h : change.info serde d modifiedIndex = some info) :
    info.node.modifiedIndex = modifiedIndex := by
  cases change with
  | write action r => cases h; rfl
  | writeDirectory action => cases h; rfl
  | remove action id =>
    obtain ⟨r, -, rfl⟩ := Option.map_eq_some_iff.1 h
    rfl
  | removeDirectory action =>
    obtain ⟨d, -, rfl⟩ := Option.map_eq_some_iff.1 h
    rfl

/-- **A step keeps the map right just if it keeps.** -/
theorem mirrors_step_iff (h : Mirrors s) (label : Label) : Mirrors (s.step serde label) ↔ Keeps s label := by
  obtain ⟨pending, instances, directory⟩ := s
  cases label with
  | slept | getFailed | watchFailed => cases pending <;> exact iff_of_true h trivial
  | getMissing index =>
    cases pending with
    | get => exact mirrors_unchanged_iff h _ rfl
    | watch | backoff => exact iff_of_true h trivial
  | getFound nodes etcdIndex =>
    cases pending with
    | watch | backoff => exact iff_of_true h (by cases nodes <;> cases etcdIndex <;> trivial)
    | get =>
      cases etcdIndex with
      | none => exact iff_of_true h (by cases nodes <;> trivial)
      | some afterIndex =>
        cases nodes with
        | none => exact mirrors_unchanged_iff h _ rfl
        | some rs =>
          refine iff_of_true (fun id => ?_) trivial
          simp only [State.step, Label.ready, Option.map_some, pollPending, pollGet, watch,
            deserializeNodes_fileNodes, State.registrations, Label.directory, Option.getD_some,
            Directory.registrations_ofList]
  | watchChanged change modifiedIndex =>
    cases pending with
    | get | backoff =>
      refine iff_of_true ?_ trivial
      simp only [State.step, Label.ready]
      cases change.info serde directory modifiedIndex <;> exact h
    | watch afterIndex =>
      cases modifiedIndex with
      | some modifiedIndex => exact mirrors_changed_iff h afterIndex change modifiedIndex
      | none =>
        refine iff_of_true ?_ (by cases change <;> trivial)
        simp only [State.step, Label.ready]
        cases hinfo : change.info serde directory none with
        | none => exact h
        | some info =>
          have hindex : info.node.modifiedIndex = none := Change.modifiedIndex_info hinfo
          simp only [Option.map_some, pollPending, pollWatch, hindex]
          exact h

end Step

/-- **The map of instances mirrors the directory exactly where nothing was registered before it was found
missing or empty, or removed.** For every history of answers: the map is right after every event, if and
only if each of these events finds the directory without registrations. -/
theorem instances_mirror_iff (serde : Serde V) (labels : List Label) :
    Along (State.step serde) (fun s label => Mirrors (s.step serde label)) {} labels ↔
      Along (State.step serde) Keeps {} labels :=
  Along.congr (fun _ label h => mirrors_step_iff h label) (fun _ _ _ h => h) (fun _ => rfl)

/-- A registration, an error while watching, and the directory is gone when it is gotten again: the instance
stays in the map. -/
theorem instances_stale_after_resync :
    let serde : Serde ServiceRegistration := ⟨id, some, fun _ => rfl⟩
    let r : ServiceRegistration := { name := "service", address := "host", port := 80 }
    let labels := [Label.getFound (some [r]) (some 1), .watchFailed, .slept, .getMissing 2]
    let s := labels.foldl (State.step serde) {}
    s.registrations.get? "host:80" = none ∧ s.instances.get? "host:80" = some r ∧ ¬ Mirrors s := by
  refine ⟨rfl, rfl, fun h => ?_⟩
  have := h "host:80"
  exact absurd this (by decide)

end Osprey.Discovery
