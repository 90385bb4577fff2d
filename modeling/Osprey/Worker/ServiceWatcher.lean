/-
Service discovery in the worker (`ServiceWatcher`): the instances of a
service and the rotation they are picked from, kept up to date by the events
of a recursive watch on the directory where the instances are stored.

The watcher knows its instances by their ids, etcd by their keys. In between
stands what the directory means: a map from ids to services. Each operation
of the watcher is shown to do to that map what its event does to the
directory.
-/
import Mathlib.Data.Rat.Defs
import Osprey.Worker.WatchMux

namespace Osprey.ServiceDiscovery

open Function (update update_apply)
open Lib (Dict Along)
open Etcd (below)
open EtcdWatcher (Value Directory Event EachDelete dedupe Harmless mem_unvisitedKeys synthesizeUpserts
  synthesizeDeletes unvisitedKeys)

/-! ## Services -/

structure Service where
  name : String
  address : String
  port : Int
  ports : List (String × Int) := []
  metadata : List (String × String) := []
  ip : Option String := none
  idOverride : Option String := none
  draining : Bool := false
  deriving DecidableEq

/-- An override counts unless it is empty. -/
def Service.id (s : Service) : String :=
  match s.idOverride with
  | some idOverride =>
    if idOverride = "" then s.address ++ ":" ++ toString s.port else idOverride ++ ":" ++ toString s.port
  | none => s.address ++ ":" ++ toString s.port

def Service.merge (s other : Service) : Service :=
  { s with
    name := other.name
    address := other.address
    port := other.port
    metadata := other.metadata
    ports := other.ports
    ip := other.ip
    idOverride := other.idOverride
    draining := other.draining }

structure ServiceWrapper where
  service : Service
  visibleAt : Option ℚ

/-! ## The watcher -/

structure Watcher where
  instances : Dict String ServiceWrapper := Dict.empty
  rotation : List String := []

/-- What the random generator gives an instance: a place in the rotation, and the time it becomes visible. -/
structure Draw where
  index : Nat
  visibleAt : ℚ

/-- `_rotation.insert(randint(0, len(_rotation)), id)`. -/
def insertRandomly (draw : Draw) (rotation : List String) (id : String) : List String :=
  rotation.insertIdx (min draw.index rotation.length) id

def Watcher.addInstance (draw : Draw) (delayVisibility : Bool) (w : Watcher) (newInstance : Service) : Watcher :=
  match w.instances.get? newInstance.id with
  | none =>
    { rotation := insertRandomly draw w.rotation newInstance.id
      instances := w.instances.set newInstance.id
        ⟨newInstance, if delayVisibility then some draw.visibleAt else none⟩ }
  | some existing =>
    let service := existing.service.merge newInstance
    { instances := w.instances.set newInstance.id { existing with service := service }
      rotation :=
        if service.id ∈ w.rotation then w.rotation else insertRandomly draw w.rotation newInstance.id }

/-- `_remove_instance`. It raises if the instance is not in the rotation. -/
def Watcher.removeInstance (w : Watcher) (instanceId : String) : Option Watcher :=
  match w.instances.get? instanceId with
  | none => some w
  | some old =>
    if old.service.id ∈ w.rotation then
      some ⟨w.instances.erase instanceId, w.rotation.erase old.service.id⟩
    else none

section Handling

variable (deserialize : String → Option Service)

/-- `Service.deserialize` of a value; `None` is no text and raises. -/
def deserializeValue (value : Value) : Option Service := value.bind deserialize

def latestInstances (services : List Service) : Dict String Service :=
  Dict.ofList (services.map fun service => (service.id, service))

def Watcher.handleFullSync (draws : String → Draw) (delayVisibility : Bool) (w : Watcher) (values : List Value) :
    Option Watcher := do
  let services ← values.mapM (deserializeValue deserialize)
  let latest := latestInstances services
  let w ← (w.instances.keys.filter fun id => id ∉ latest.keys).foldlM Watcher.removeInstance w
  return latest.values.foldl (fun w service => w.addInstance (draws service.id) delayVisibility service) w

/-- One turn of the loop of `_watch`. -/
def Watcher.handle (draws : String → Draw) (w : Watcher) : Event → Option Watcher
  | .incrementalSyncUpsert _ value => do
    let service ← deserializeValue deserialize value
    return w.addInstance (draws service.id) true service
  | .incrementalSyncDelete _ prevValue => do
    let service ← deserializeValue deserialize prevValue
    w.removeInstance service.id
  | .fullSyncRecursive items => w.handleFullSync deserialize draws true (items.map Prod.snd)

/-! ## Runs -/

/-- The watch with its mux, and the watcher unless it has raised. -/
structure State where
  etcd : EtcdWatcher.State
  watcher : Option Watcher

/-- `ensure_watching`: the first full sync goes to the watcher as it is. -/
def State.start (draws : String → Draw) (items : List (String × Value)) : State where
  etcd := EtcdWatcher.State.start items
  watcher := Watcher.handleFullSync deserialize draws false {} (items.map Prod.snd)

structure Label where
  event : Event
  draws : String → Draw

def State.step (s : State) (label : Label) : State where
  etcd := s.etcd.step label.event
  watcher := s.watcher.bind fun w =>
    (dedupe s.etcd.mux label.event).2.foldlM (Watcher.handle deserialize label.draws) w

/-- The watcher has not raised; the keys of its instances are the ids of the stored services; the rotation is
a permutation of them without duplicates; each instance has the data that is stored under its id. -/
def MirrorsEtcd (s : State) : Prop :=
  ∃ w, s.watcher = some w ∧
    (∀ id, id ∈ w.instances.keys ↔ ∃ key value service, s.etcd.raw.get? key = some value ∧
      deserializeValue deserialize value = some service ∧ service.id = id) ∧
    w.rotation.Perm w.instances.keys ∧ w.rotation.Nodup ∧
    ∀ id wrapper, w.instances.get? id = some wrapper → ∀ key value service, s.etcd.raw.get? key = some value →
      deserializeValue deserialize value = some service → service.id = id → wrapper.service = service

end Handling

/-! ## The watcher and the map of services -/

/-- The watcher holds the services of the map, and the rotation their ids. -/
structure Shows (w : Watcher) (services : String → Option Service) : Prop where
  instances : ∀ id, (w.instances.get? id).map (·.service) = services id
  ids : ∀ id service, services id = some service → service.id = id
  nodup : w.rotation.Nodup
  rotation : ∀ id, id ∈ w.rotation ↔ (services id).isSome

theorem Shows.nil : Shows {} fun _ => none :=
  ⟨fun _ => rfl, fun _ _ h => (by cases h), List.nodup_nil, fun _ => by simp⟩

section Shows

variable {w : Watcher} {services : String → Option Service}

theorem Shows.perm (h : Shows w services) : w.rotation.Perm w.instances.keys := by
  refine (List.perm_ext_iff_of_nodup h.nodup w.instances.nodup_keys).2 fun id => ?_
  rw [h.rotation, ← h.instances, Option.isSome_map, Dict.isSome_get?]

theorem perm_insertRandomly (draw : Draw) (rotation : List String) (id : String) :
    (insertRandomly draw rotation id).Perm (id :: rotation) :=
  List.perm_insertIdx _ _ (Nat.min_le_right _ _)

theorem Shows.addInstance (h : Shows w services) (draw : Draw) (delayVisibility : Bool) (service : Service) :
    Shows (w.addInstance draw delayVisibility service) (update services service.id (some service)) := by
  have hids : ∀ id service', update services service.id (some service) id = some service' →
      service'.id = id := fun id service' hid => by
    rw [update_apply] at hid
    split at hid
    · next heq =>
      cases hid
      exact heq.symm
    · exact h.ids id service' hid
  cases hget : w.instances.get? service.id with
  | none =>
    rw [Watcher.addInstance, hget]
    have hnew : service.id ∉ w.rotation := by
      rw [h.rotation, ← h.instances, hget]
      simp
    refine ⟨fun id => ?_, hids, ?_, fun id => ?_⟩
    · simp only [Dict.get?_set, update_apply, ← h.instances id]
      split <;> rfl
    · exact (perm_insertRandomly draw _ _).nodup_iff.2 (List.nodup_cons.2 ⟨hnew, h.nodup⟩)
    · rw [(perm_insertRandomly draw _ _).mem_iff, List.mem_cons, h.rotation, update_apply]
      split <;> simp_all
  | some existing =>
    have hold : service.id ∈ w.rotation := by
      rw [h.rotation, ← h.instances, hget]
      simp
    have hadd : w.addInstance draw delayVisibility service =
        ⟨w.instances.set service.id { existing with service := service }, w.rotation⟩ := by
      rw [Watcher.addInstance, hget]
      exact congrArg (Watcher.mk _) (if_pos hold)
    rw [hadd]
    refine ⟨fun id => ?_, hids, h.nodup, fun id => ?_⟩
    · simp only [Dict.get?_set, update_apply, ← h.instances id]
      split <;> rfl
    · rw [h.rotation, update_apply]
      split
      · next heq =>
        subst heq
        rw [← h.rotation]
        simp [hold]
      · rfl

theorem Shows.removeInstance (h : Shows w services) (id : String) :
    ∃ w', w.removeInstance id = some w' ∧ Shows w' (update services id none) := by
  unfold Watcher.removeInstance
  cases hget : w.instances.get? id with
  | none =>
    have hnone : services id = none := by rw [← h.instances, hget]; rfl
    exact ⟨w, rfl, by rwa [← hnone, Function.update_eq_self]⟩
  | some old =>
    have hsome : services id = some old.service := by rw [← h.instances, hget]; rfl
    have hid : old.service.id = id := h.ids id old.service hsome
    have hmem : id ∈ w.rotation := by rw [h.rotation, hsome]; rfl
    refine ⟨⟨w.instances.erase id, w.rotation.erase id⟩, ?_,
      ⟨fun id' => ?_, fun id' service' hid' => ?_, ?_, fun id' => ?_⟩⟩
    · simp only [hid, if_pos hmem]
    · rw [Dict.get?_erase, update_apply, ← h.instances id']
      split <;> rfl
    · rw [update_apply] at hid'
      split at hid'
      · cases hid'
      · exact h.ids id' service' hid'
    · exact h.nodup.erase id
    · rw [h.nodup.mem_erase_iff, h.rotation, update_apply]
      split <;> simp_all

theorem Shows.removeInstances (h : Shows w services) (ids : List String) :
    ∃ w', ids.foldlM Watcher.removeInstance w = some w' ∧
      Shows w' fun id => if id ∈ ids then none else services id := by
  induction ids generalizing w services with
  | nil => exact ⟨w, rfl, by simpa using h⟩
  | cons id ids ih =>
    obtain ⟨w₁, hw₁, h₁⟩ := h.removeInstance id
    obtain ⟨w₂, hw₂, h₂⟩ := ih h₁
    refine ⟨w₂, by simpa [hw₁] using hw₂, ?_⟩
    have hservices : (fun id' => if id' ∈ ids then none else update services id none id') =
        fun id' => if id' ∈ id :: ids then none else services id' := by
      funext id'
      rw [update_apply]
      by_cases hmem : id' ∈ ids <;> by_cases heq : id' = id <;> simp [hmem, heq]
    rwa [hservices] at h₂

theorem Shows.addInstances (h : Shows w services) (draws : String → Draw) (delayVisibility : Bool)
    (ss : List Service) :
    Shows (ss.foldl (fun w service => w.addInstance (draws service.id) delayVisibility service) w)
      (ss.foldl (fun f service => update f service.id (some service)) services) := by
  induction ss generalizing w services with
  | nil => exact h
  | cons service ss ih => exact ih (h.addInstance (draws service.id) delayVisibility service)

theorem foldl_update_values : ∀ (es : List (String × Service)) (services : String → Option Service) (id : String),
    (es.map Prod.fst).Nodup → (∀ e ∈ es, e.2.id = e.1) →
      (es.map Prod.snd).foldl (fun (f : String → Option Service) service =>
        update f service.id (some service)) services id = (es.lookup id).or (services id)
  | [], _, _, _, _ => rfl
  | (a, service) :: es, services, id, hnodup, hids => by
    rw [List.map_cons, List.nodup_cons] at hnodup
    have hid : service.id = a := hids (a, service) (by simp)
    rw [List.map_cons, List.foldl_cons, foldl_update_values es _ id hnodup.2 fun e he => hids e (by simp [he]),
      update_apply, List.lookup_cons, hid]
    by_cases heq : id = a
    · subst heq
      have hnone : es.lookup id = none := by
        refine List.lookup_eq_none_iff.2 fun p hp => ?_
        have hne : p.1 ≠ id := fun he => hnodup.1 (List.mem_map.2 ⟨p, hp, he⟩)
        simpa using hne.symm
      simp [hnone]
    · simp [heq, beq_eq_false_iff_ne.2 heq]

theorem id_latestInstances {ss id service} (h : (latestInstances ss).get? id = some service) : service.id = id := by
  obtain ⟨service', -, heq⟩ := List.mem_map.1 (Dict.mem_of_get?_ofList h)
  cases heq
  rfl

theorem Shows.handleFullSync (h : Shows w services) (deserialize : String → Option Service) (draws : String → Draw)
    (delayVisibility : Bool) {values ss} (hss : values.mapM (deserializeValue deserialize) = some ss) :
    ∃ w', w.handleFullSync deserialize draws delayVisibility values = some w' ∧
      Shows w' (latestInstances ss).get? := by
  set gone := w.instances.keys.filter fun id => id ∉ (latestInstances ss).keys with hgone
  obtain ⟨w₁, hw₁, h₁⟩ := h.removeInstances gone
  have h₂ := h₁.addInstances draws delayVisibility (latestInstances ss).values
  have hsync : w.handleFullSync deserialize draws delayVisibility values =
      some ((latestInstances ss).values.foldl
        (fun w service => w.addInstance (draws service.id) delayVisibility service) w₁) := by
    rw [Watcher.handleFullSync, hss]
    change (gone.foldlM Watcher.removeInstance w).bind _ = _
    rw [hw₁]
    rfl
  refine ⟨_, hsync, ?_⟩
  have hservices : (latestInstances ss).values.foldl
      (fun (f : String → Option Service) service => update f service.id (some service))
      (fun id => if id ∈ gone then none else services id) = (latestInstances ss).get? := by
    funext id
    have hentries : ∀ e ∈ (latestInstances ss).entries, e.2.id = e.1 := fun e he =>
      id_latestInstances (Dict.get?_eq_some_iff.2 he)
    rw [Dict.values, foldl_update_values _ _ _ (latestInstances ss).nodup hentries]
    change ((latestInstances ss).get? id).or _ = _
    cases hlatest : (latestInstances ss).get? id with
    | some service => rfl
    | none =>
      rw [Option.none_or]
      split
      · rfl
      · next hnot =>
        rw [← h.instances]
        have hkeys : id ∉ (latestInstances ss).keys := by simp [← Dict.isSome_get?, hlatest]
        have hnone : ¬ (w.instances.get? id).isSome := fun hsome =>
          hnot (List.mem_filter.2 ⟨Dict.isSome_get?.1 hsome, by simpa using hkeys⟩)
        rw [Option.not_isSome_iff_eq_none.1 hnone]
        rfl
  rwa [hservices] at h₂

end Shows

/-! ## The directory and the map of services -/

/-- How a directory of instances is laid out: which keys instances are stored under, and the id that each of
them is for. -/
structure Layout where
  keys : String → Prop
  idOf : String → String
  injective : ∀ {key key'}, keys key → keys key' → idOf key = idOf key' → key = key'
  flat : ∀ {key key'}, keys key → keys key' → ¬ below key key'

section Layout

variable {deserialize : String → Option Service} {L : Layout}

/-- The value is a service with the id that the key is for. -/
def Layout.Holds (deserialize : String → Option Service) (L : Layout) (key : String) (value : Value) : Prop :=
  L.keys key ∧ ∃ service, deserializeValue deserialize value = some service ∧ service.id = L.idOf key

theorem Layout.Holds.idOf {key value service} (h : L.Holds deserialize key value)
    (hservice : deserializeValue deserialize value = some service) : service.id = L.idOf key := by
  obtain ⟨-, service', hservice', hid⟩ := h
  rw [hservice] at hservice'
  cases hservice'
  exact hid

/-- What an event writes are services under the keys of their ids. -/
def Layout.Writes (deserialize : String → Option Service) (L : Layout) : Event → Prop
  | .incrementalSyncUpsert key value => L.Holds deserialize key value
  | .incrementalSyncDelete _ _ => True
  | .fullSyncRecursive items => ∀ item ∈ items, L.Holds deserialize item.1 item.2

/-- The directory holds the services of the map. -/
structure Layout.Means (deserialize : String → Option Service) (L : Layout) (directory : Directory)
    (services : String → Option Service) : Prop where
  holds : ∀ key value, directory.get? key = some value → L.Holds deserialize key value
  read : ∀ key, L.keys key → services (L.idOf key) = (directory.get? key).bind (deserializeValue deserialize)
  keyed : ∀ id, (services id).isSome → ∃ key, L.keys key ∧ L.idOf key = id

variable {key : String}

namespace Layout.Means

variable {directory : Directory} {services : String → Option Service}

theorem nil : L.Means deserialize Dict.empty fun _ => none :=
  ⟨fun _ _ h => (by cases h), fun _ _ => rfl, fun _ h => (by cases h)⟩

theorem congr (h : L.Means deserialize directory services) {directory'}
    (hdirectory : ∀ key, directory'.get? key = directory.get? key) : L.Means deserialize directory' services := by
  refine ⟨fun key value => ?_, fun key => ?_, h.keyed⟩
  · rw [hdirectory]
    exact h.holds key value
  · rw [hdirectory]
    exact h.read key

variable {service : Service} {value : Value}

theorem services_iff (h : L.Means deserialize directory services) {id} :
    services id = some service ↔ ∃ key value, directory.get? key = some value ∧
      deserializeValue deserialize value = some service ∧ service.id = id := by
  constructor
  · intro hservice
    obtain ⟨key, hkey, rfl⟩ := h.keyed id (Option.isSome_of_eq_some hservice)
    rw [h.read key hkey, Option.bind_eq_some_iff] at hservice
    obtain ⟨value, hget, hvalue⟩ := hservice
    exact ⟨key, value, hget, hvalue, (h.holds key value hget).idOf hvalue⟩
  · rintro ⟨key, value, hget, hvalue, rfl⟩
    have hholds := h.holds key value hget
    rw [hholds.idOf hvalue, h.read key hholds.1, hget]
    exact hvalue

theorem set (h : L.Means deserialize directory services)
    (hholds : L.Holds deserialize key value) (hservice : deserializeValue deserialize value = some service) :
    L.Means deserialize (directory.set key value) (update services service.id (some service)) := by
  rw [hholds.idOf hservice]
  refine ⟨Dict.forall_set h.holds hholds, fun key' hkey' => ?_, fun id hid => ?_⟩
  · by_cases heq : key' = key
    · subst heq
      rw [Dict.get?_set_self, Function.update_self]
      exact hservice.symm
    · rw [Dict.get?_set_other _ _ heq, Function.update_of_ne fun hid => heq (L.injective hkey' hholds.1 hid)]
      exact h.read key' hkey'
  · by_cases heq : id = L.idOf key
    · exact ⟨key, hholds.1, heq.symm⟩
    · rw [Function.update_of_ne heq] at hid
      exact h.keyed id hid

theorem get?_delete (h : L.Means deserialize directory services) (hkey : L.keys key)
    (prevValue : Value) (key' : String) :
    ((Event.incrementalSyncDelete key prevValue).apply directory).get? key' =
      if key' = key then none else directory.get? key' := by
  rw [EtcdWatcher.get?_delete]
  by_cases heq : key' = key
  · simp [heq]
  · simp only [heq, false_or, if_false]
    split
    · next hbelow =>
      cases hget : directory.get? key' with
      | none => rfl
      | some value => exact absurd hbelow (L.flat hkey (h.holds key' value hget).1)
    · rfl

theorem delete (h : L.Means deserialize directory services)
    (hget : directory.get? key = some value) (hservice : deserializeValue deserialize value = some service) :
    L.Means deserialize ((Event.incrementalSyncDelete key value).apply directory)
      (update services service.id none) := by
  have hholds := h.holds key value hget
  rw [hholds.idOf hservice]
  refine ⟨fun key' value' => ?_, fun key' hkey' => ?_, fun id hid => ?_⟩
  · rw [h.get?_delete hholds.1]
    split
    · exact fun hget' => (by cases hget')
    · exact h.holds key' value'
  · rw [h.get?_delete hholds.1]
    split
    · next heq =>
      rw [heq, Function.update_self]
      rfl
    · next hne =>
      rw [Function.update_of_ne fun hid => hne (L.injective hkey' hholds.1 hid)]
      exact h.read key' hkey'
  · rw [update_apply] at hid
    split at hid
    · cases hid
    · exact h.keyed id hid

theorem fullSync {items} (hitems : ∀ item ∈ items, L.Holds deserialize item.1 item.2) :
    ∃ ss, (items.map Prod.snd).mapM (deserializeValue deserialize) = some ss ∧
      L.Means deserialize (Dict.ofList items) (latestInstances ss).get? := by
  have hfold : ∀ (items : List (String × Value)) (d : Directory) (latest : Dict String Service),
      (∀ item ∈ items, L.Holds deserialize item.1 item.2) → L.Means deserialize d latest.get? →
      ∃ ss, (items.map Prod.snd).mapM (deserializeValue deserialize) = some ss ∧
        L.Means deserialize (items.foldl (fun d e => d.set e.1 e.2) d)
          ((ss.map fun s => (s.id, s)).foldl (fun d e => d.set e.1 e.2) latest).get? := by
    intro items
    induction items with
    | nil => exact fun d latest _ h => ⟨[], rfl, h⟩
    | cons item items ih =>
      intro d latest hitems h
      obtain ⟨-, service, hservice, -⟩ := hitems item (by simp)
      have hset := h.set (hitems item (by simp)) hservice
      have hlatest : (latest.set service.id service).get? =
          update latest.get? service.id (some service) := by
        funext id
        rw [Dict.get?_set, update_apply]
      rw [← hlatest] at hset
      obtain ⟨ss, hss, hmeans⟩ := ih _ _ (fun item' h' => hitems item' (by simp [h'])) hset
      exact ⟨service :: ss, by simp [hservice, hss], hmeans⟩
  exact hfold items Dict.empty Dict.empty hitems nil

end Layout.Means

/-! ## Events -/

/-- What a delete has to be for the watcher to follow it. -/
def Known (directory : Directory) (key : String) (prevValue : Value) : Prop :=
  directory.get? key = some prevValue

/-- The watcher handles an event without raising, and still has the services of the directory. -/
theorem Shows.handle {w services directory}
    (h : Shows w services) (hmeans : L.Means deserialize directory services) (draws : String → Draw) {event}
    (hwrites : L.Writes deserialize event)
    (hknown : ∀ key prevValue, event = .incrementalSyncDelete key prevValue → Known directory key prevValue) :
    ∃ w' services', w.handle deserialize draws event = some w' ∧ Shows w' services' ∧
      L.Means deserialize (event.apply directory) services' := by
  cases event with
  | incrementalSyncUpsert key value =>
    obtain ⟨service, hservice, -⟩ := hwrites.2
    refine ⟨_, _, by rw [Watcher.handle, hservice]; rfl, h.addInstance _ true service, hmeans.set hwrites hservice⟩
  | incrementalSyncDelete key prevValue =>
    have hget : directory.get? key = some prevValue := hknown key prevValue rfl
    obtain ⟨-, service, hservice, -⟩ := hmeans.holds key prevValue hget
    obtain ⟨w', hw', h'⟩ := h.removeInstance service.id
    exact ⟨w', _, by rw [Watcher.handle, hservice]; exact hw', h', hmeans.delete hget hservice⟩
  | fullSyncRecursive items =>
    obtain ⟨ss, hss, hmeans'⟩ := Layout.Means.fullSync hwrites
    obtain ⟨w', hw', h'⟩ := h.handleFullSync deserialize draws true hss
    exact ⟨w', _, hw', h', hmeans'⟩

theorem Shows.handleAll (draws : String → Draw) : ∀ {events w services directory}, Shows w services →
    L.Means deserialize directory services → (∀ event ∈ events, L.Writes deserialize event) →
    EachDelete Known directory events →
    ∃ w' services', events.foldlM (Watcher.handle deserialize draws) w = some w' ∧ Shows w' services' ∧
      L.Means deserialize (events.foldl Event.apply directory) services'
  | [], w, services, _, h, hmeans, _, _ => ⟨w, services, rfl, h, hmeans⟩
  | event :: events, w, services, directory, h, hmeans, hwrites, hknown => by
    have hknown' : ∀ key prevValue, event = .incrementalSyncDelete key prevValue →
        Known directory key prevValue := by
      rintro key prevValue rfl
      exact hknown.1
    obtain ⟨w₁, services₁, hw₁, h₁, hmeans₁⟩ := h.handle hmeans draws (hwrites event (by simp)) hknown'
    obtain ⟨w₂, services₂, hw₂, h₂, hmeans₂⟩ :=
      Shows.handleAll draws h₁ hmeans₁ (fun event' h' => hwrites event' (by simp [h'])) hknown.2
    exact ⟨w₂, services₂, by simp [hw₁, hw₂], h₂, hmeans₂⟩

/-! ## What the mux yields -/

theorem writes_dedupe {event} (hwrites : L.Writes deserialize event) (mux : Directory) :
    ∀ event' ∈ (dedupe mux event).2, L.Writes deserialize event' := by
  have hupserts : ∀ (items : List (String × Value)) (mux : Directory),
      (∀ item ∈ items, L.Holds deserialize item.1 item.2) →
      ∀ event' ∈ (synthesizeUpserts mux items).2, L.Writes deserialize event' := by
    intro items
    induction items with
    | nil => exact fun _ _ event' h' => (by cases h')
    | cons item items ih =>
      intro mux hitems event' h'
      rw [synthesizeUpserts] at h'
      split at h'
      · exact ih mux (fun item' hi => hitems item' (by simp [hi])) event' h'
      · rcases List.mem_cons.1 h' with rfl | h'
        · exact hitems item (by simp)
        · exact ih _ (fun item' hi => hitems item' (by simp [hi])) event' h'
  have hdeletes : ∀ (keys : List String) (mux : Directory),
      ∀ event' ∈ (synthesizeDeletes mux keys).2, L.Writes deserialize event' := by
    intro keys
    induction keys with
    | nil => exact fun _ event' h' => (by cases h')
    | cons key keys ih =>
      intro mux event' h'
      rcases List.mem_cons.1 h' with rfl | h'
      · trivial
      · exact ih _ event' h'
  intro event' h'
  cases event with
  | incrementalSyncUpsert key value =>
    rw [dedupe] at h'
    split at h'
    · cases h'
    · rw [List.mem_singleton.1 h']
      exact hwrites
  | incrementalSyncDelete key prevValue =>
    rw [List.mem_singleton.1 h']
    trivial
  | fullSyncRecursive items =>
    rw [dedupe, EtcdWatcher.synthesizeIncrementalEventsFromFullSync] at h'
    split at h'
    · split at h'
      · cases h'
      · rw [List.mem_singleton.1 h']
        exact hwrites
    · rcases List.mem_append.1 h' with h' | h'
      · exact hupserts items mux hwrites event' h'
      · exact hdeletes _ _ event' h'

theorem exist_deletes {keys mux directory} (hnodup : keys.Nodup)
    (hflat : ∀ key ∈ keys, ∀ key' ∈ keys, ¬ below key key') (hexist : ∀ key ∈ keys, (directory.get? key).isSome) :
    EachDelete (fun d key _ => (d.get? key).isSome) directory (synthesizeDeletes mux keys).2 := by
  induction keys generalizing mux directory with
  | nil => trivial
  | cons key keys ih =>
    rw [List.nodup_cons] at hnodup
    refine ⟨hexist key (by simp), ih hnodup.2 (fun k hk k' hk' => hflat k (by simp [hk]) k' (by simp [hk']))
      fun k hk => ?_⟩
    rw [EtcdWatcher.get?_delete, if_neg]
    · exact hexist k (by simp [hk])
    · rintro (rfl | hbelow)
      · exact hnodup.1 hk
      · exact hflat key (by simp) k (by simp [hk]) hbelow

/-! ## Runs -/

/-- The steps that the watcher can follow: what is written are services under the keys of their ids, the
mux's stale keys do no harm, and a key that is deleted is there. -/
def Follows (deserialize : String → Option Service) (L : Layout) (s : State) (label : Label) : Prop :=
  L.Writes deserialize label.event ∧ Harmless s.etcd label.event ∧
    match label.event with
    | .incrementalSyncDelete key _ => (s.etcd.raw.get? key).isSome
    | _ => True

structure Inv (deserialize : String → Option Service) (L : Layout) (s : State) : Prop where
  etcd : EtcdWatcher.Inv s.etcd
  keys : ∀ key, (s.etcd.mux.get? key).isSome → (s.etcd.raw.get? key).isSome
  watcher : ∃ w services, s.watcher = some w ∧ Shows w services ∧ L.Means deserialize s.etcd.raw services

variable {s : State}

variable {label : Label}

theorem Inv.exist (h : Inv deserialize L s) (hfollows : Follows deserialize L s label) :
    EachDelete (fun d key _ => (d.get? key).isSome) s.etcd.consumer
      (dedupe s.etcd.mux label.event).2 := by
  obtain ⟨-, hharmless, hexists⟩ := hfollows
  obtain ⟨-, services, -, -, hmeans⟩ := h.watcher
  cases hevent : label.event with
  | incrementalSyncUpsert key value =>
    rw [dedupe]
    split
    · trivial
    · exact ⟨trivial, trivial⟩
  | incrementalSyncDelete key prevValue =>
    rw [hevent] at hexists
    refine ⟨?_, trivial⟩
    change (s.etcd.consumer.get? key).isSome
    rw [h.etcd.consumer]
    exact hexists
  | fullSyncRecursive items =>
    rw [dedupe, EtcdWatcher.synthesizeIncrementalEventsFromFullSync]
    split
    · split
      · trivial
      · exact ⟨trivial, trivial⟩
    · next hitems =>
      rw [hevent] at hharmless
      obtain ⟨hshows, -⟩ := Or.resolve_left hharmless hitems
      have hraw : ∀ key ∈ unvisitedKeys s.etcd.mux items, (s.etcd.raw.get? key).isSome := fun key hkey =>
        h.keys key (mem_unvisitedKeys.1 hkey).1
      have hlayout : ∀ key ∈ unvisitedKeys s.etcd.mux items, L.keys key := fun key hkey => by
        obtain ⟨value, hvalue⟩ := Option.isSome_iff_exists.1 (hraw key hkey)
        exact (hmeans.holds key value hvalue).1
      refine EtcdWatcher.eachDelete_upserts items (exist_deletes (EtcdWatcher.nodup_unvisitedKeys _ _)
        (fun key hkey key' hkey' => L.flat (hlayout key hkey) (hlayout key' hkey')) fun key hkey => ?_)
      rw [EtcdWatcher.get?_upserts items hshows h.etcd.consumer,
        Dict.get?_foldl_set_of_not_mem items (mem_unvisitedKeys.1 hkey).2]
      exact hraw key hkey

theorem Inv.keys_step (h : Inv deserialize L s) (hfollows : Follows deserialize L s label)
    (hkey : ((s.etcd.step label.event).mux.get? key).isSome) :
    ((s.etcd.step label.event).raw.get? key).isSome := by
  obtain ⟨-, -, hexists⟩ := hfollows
  obtain ⟨-, services, -, -, hmeans⟩ := h.watcher
  simp only [EtcdWatcher.State.step] at hkey ⊢
  cases hevent : label.event with
  | incrementalSyncUpsert key' value =>
    rw [hevent, dedupe] at hkey
    rw [Event.apply, Dict.get?_set]
    split
    · rfl
    · next hne =>
      split at hkey
      · exact h.keys key hkey
      · rw [Dict.get?_set_other _ _ hne] at hkey
        exact h.keys key hkey
  | incrementalSyncDelete key' prevValue =>
    rw [hevent] at hkey hexists
    change ((s.etcd.mux.erase key').get? key).isSome at hkey
    obtain ⟨value, hvalue⟩ := Option.isSome_iff_exists.1 hexists
    rw [hmeans.get?_delete (hmeans.holds key' value hvalue).1]
    rw [Dict.get?_erase] at hkey
    split at hkey
    · cases hkey
    · next hne =>
      rw [if_neg hne]
      exact h.keys key hkey
  | fullSyncRecursive items =>
    rw [hevent, dedupe, EtcdWatcher.synthesizeIncrementalEventsFromFullSync] at hkey
    rw [Event.apply, Dict.isSome_get?_ofList]
    split at hkey
    · split at hkey
      · next hempty =>
        rw [Dict.isSome_get?, Dict.keys, hempty] at hkey
        cases hkey
      · cases hkey
    · change ((synthesizeDeletes _ (unvisitedKeys s.etcd.mux items)).1.get? key).isSome at hkey
      rw [EtcdWatcher.get?_mux_deletes] at hkey
      split at hkey
      · cases hkey
      · next hvisited =>
        by_contra hnot
        rw [EtcdWatcher.get?_synthesizeUpserts_of_not_mem items hnot] at hkey
        exact hvisited (mem_unvisitedKeys.2 ⟨hkey, hnot⟩)

theorem Inv.step (h : Inv deserialize L s) (hfollows : Follows deserialize L s label) :
    Inv deserialize L (s.step deserialize label) := by
  obtain ⟨hpreserves, hetcd⟩ := h.etcd.step label.event hfollows.2.1
  refine ⟨hetcd, fun key hkey => h.keys_step hfollows hkey, ?_⟩
  obtain ⟨w, services, hw, hshows, hmeans⟩ := h.watcher
  have hknown : EachDelete Known s.etcd.consumer (dedupe s.etcd.mux label.event).2 := by
    refine EachDelete.combine (fun d key prevValue hright hexists => ?_) hpreserves.2 (h.exist hfollows)
    obtain ⟨value, hvalue⟩ := Option.isSome_iff_exists.1 hexists
    rw [Known, hvalue, hright value hvalue]
  obtain ⟨w', services', hw', hshows', hmeans'⟩ := hshows.handleAll label.draws
    (hmeans.congr h.etcd.consumer) (writes_dedupe hfollows.1 s.etcd.mux) hknown
  refine ⟨w', services', ?_, hshows', hmeans'.congr fun key => (hpreserves.1 key).symm⟩
  rw [State.step, hw]
  exact hw'

theorem Inv.start {items} (hitems : ∀ item ∈ items, L.Holds deserialize item.1 item.2)
    (draws : String → Draw) : Inv deserialize L (State.start deserialize draws items) := by
  obtain ⟨ss, hss, hmeans⟩ := Layout.Means.fullSync hitems
  obtain ⟨w, hw, hshows⟩ := Shows.nil.handleFullSync deserialize draws false hss
  exact ⟨⟨fun _ => rfl, fun _ h => h⟩, fun _ h => h, ⟨w, _, hw, hshows, hmeans⟩⟩

theorem Inv.mirrors (h : Inv deserialize L s) : MirrorsEtcd deserialize s := by
  obtain ⟨w, services, hw, hshows, hmeans⟩ := h.watcher
  refine ⟨w, hw, fun id => ?_, hshows.perm, hshows.nodup,
    fun id wrapper hwrapper key value service hget hservice hid => ?_⟩
  · rw [← Dict.isSome_get?, ← Option.isSome_map (f := fun wrapper : ServiceWrapper => wrapper.service),
      hshows.instances, Option.isSome_iff_exists]
    constructor
    · rintro ⟨service, hservice⟩
      obtain ⟨key, value, hget, hvalue, hid⟩ := hmeans.services_iff.1 hservice
      exact ⟨key, value, service, hget, hvalue, hid⟩
    · rintro ⟨key, value, service, hget, hvalue, hid⟩
      exact ⟨service, hmeans.services_iff.2 ⟨key, value, hget, hvalue, hid⟩⟩
  · have hservices := hmeans.services_iff.2 ⟨key, value, hget, hservice, hid⟩
    rw [← hshows.instances, hwrapper] at hservices
    exact Option.some.inj hservices

end Layout

/-- **The watcher mirrors etcd while it can follow.** For every layout of the directory, every first full sync
of services under the keys of their ids and every sequence of raw events that the watcher can follow: it never
raises, and after each event its instances and its rotation are those that are stored. -/
theorem watcher_mirrors_etcd (deserialize : String → Option Service) (L : Layout) (items : List (String × Value))
    (hitems : ∀ item ∈ items, L.Holds deserialize item.1 item.2) (draws : String → Draw) (labels : List Label)
    (hfollows : Along (State.step deserialize) (Follows deserialize L) (State.start deserialize draws items) labels) :
    MirrorsEtcd deserialize (State.start deserialize draws items) ∧
      Along (State.step deserialize) (fun s label => MirrorsEtcd deserialize (s.step deserialize label))
        (State.start deserialize draws items) labels := by
  have hstart : Inv deserialize L (State.start deserialize draws items) := Inv.start hitems draws
  have hrun := Along.invariant (I := Inv deserialize L) (fun s label h hlabel =>
    ⟨(h.step hlabel).mirrors, h.step hlabel⟩) hfollows hstart
  exact ⟨hstart.mirrors, hrun.1⟩

namespace TwoInstances

def serviceA : Service := { name := "service", address := "a", port := 1 }

def serviceB : Service := { name := "service", address := "b", port := 1 }

/-- Three texts: two instances, and the first of them when it drains. -/
def deserialize (text : String) : Option Service :=
  if text = "A" then some serviceA
  else if text = "B" then some serviceB
  else if text = "A draining" then some { serviceA with draining := true }
  else none

def layout : Layout where
  keys key := key = "/a:1" ∨ key = "/b:1"
  idOf key := if key = "/a:1" then "a:1" else "b:1"
  injective := by
    rintro key key' (rfl | rfl) (rfl | rfl) h
    · rfl
    · exact absurd h (by decide)
    · exact absurd h (by decide)
    · rfl
  flat := by
    rintro key key' (rfl | rfl) (rfl | rfl) <;> decide

def draws (_ : String) : Draw := ⟨0, 0⟩

/-- Both instances come up, the first drains, and the second goes. -/
theorem watcher_mirrors_etcd_twoInstances :
    let labels := [⟨.incrementalSyncUpsert "/b:1" (some "B"), draws⟩,
      ⟨.incrementalSyncUpsert "/a:1" (some "A draining"), draws⟩, ⟨.incrementalSyncDelete "/b:1" none, draws⟩]
    let start := State.start deserialize draws [("/a:1", some "A")]
    Along (State.step deserialize)
      (fun s label => MirrorsEtcd deserialize (s.step deserialize label)) start labels := by
  have hA : layout.Holds deserialize "/a:1" (some "A") := ⟨.inl rfl, serviceA, rfl, rfl⟩
  have hdraining : layout.Holds deserialize "/a:1" (some "A draining") :=
    ⟨.inl rfl, { serviceA with draining := true }, rfl, rfl⟩
  have hB : layout.Holds deserialize "/b:1" (some "B") := ⟨.inr rfl, serviceB, rfl, rfl⟩
  refine (watcher_mirrors_etcd deserialize layout [("/a:1", some "A")] ?_ draws _ ?_).2
  · intro item hitem
    rw [List.mem_singleton.1 hitem]
    exact hA
  · refine ⟨⟨hB, ?_, trivial⟩, ⟨hdraining, ?_, trivial⟩, ⟨trivial, ?_, ?_⟩, trivial⟩ <;> decide

/-- A full sync brings new data of an instance, and then its key is deleted: the mux gives the key as the
previous value, which is no service, and the watcher raises. -/
theorem watcher_raises_after_full_sync :
    let labels := [⟨.fullSyncRecursive [("/a:1", some "A draining")], draws⟩,
      ⟨.incrementalSyncDelete "/a:1" (some "A draining"), draws⟩]
    let s := labels.foldl (State.step deserialize) (State.start deserialize draws [("/a:1", some "A")])
    s.watcher.isNone ∧ ¬ MirrorsEtcd deserialize s := by
  refine ⟨by decide, ?_⟩
  rintro ⟨w, hw, -⟩
  cases hw

end TwoInstances

end Osprey.ServiceDiscovery
