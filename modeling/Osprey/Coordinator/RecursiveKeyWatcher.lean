/-
The watcher of a directory of keys (`recursive_key_watcher`): the events it
computes from what etcd tells it, by a recursive get after a reset and by one
change at a time while watching, and the map of keys and values that it keeps
for its subscribers.

etcd is modelled by what it tells: a get describes the tree of keys as it is
by then, and a change is told when it concerns the watched directory, which
the removal of a directory above it does too. The map of the keys that are
not directories is followed next to the watcher's own.
-/
import Osprey.Coordinator.Etcd
import Osprey.Coordinator.WatchSubscribers
import Osprey.Lib.Dict

namespace Osprey.EtcdWatcherd.RecursiveKey

open Etcd (KeyValueInfo Response EtcdError WriteAction RemoveAction EtcdTree below)
open Lib (Dict Along)

abbrev Value := Dict String String

inductive RecursiveKeyWatchEvents
  | fullSync (items : Value)
  | syncOne (key value : String)
  | deleteOne (key prevValue : String)

abbrev Events := RecursiveKeyWatchEvents

/-- What a subscriber makes of its map when it sees an event. -/
def Events.apply (value : Value) : Events → Value
  | .fullSync items => items
  | .syncOne key v => value.set key v
  | .deleteOne key _ => value.erase key

def watchEvents : WatchEvents Events Value where
  maxBacklogSize := 64
  fullSyncEvent := .fullSync
  apply := Events.apply
  apply_fullSyncEvent _ _ := rfl

/-- The order in which a hash map is gone through. -/
structure HashOrder where
  order : List (String × String) → List (String × String)
  perm : ∀ entries, (order entries).Perm entries

/-! ## The events of an answer -/

section Watcher

variable (root : String) (hash : HashOrder)

def computeDirDeleteEvents (key : String) (value : Value) : List Events × Value :=
  if key = root then
    if value.entries = [] then ([], value) else ([.fullSync Dict.empty], Dict.empty)
  else
    (((hash.order value.entries).filter fun e => below key e.1).map fun e => .deleteOne e.1 e.2,
      value.filterKeys fun k => !below key k)

def computeSingleKeyDeleteEvents (key : String) (value : Value) : List Events × Value :=
  match value.get? key with
  | some prevValue => ([.deleteOne key prevValue], value.erase key)
  | none => ([], value)

def computeKeyUpdateEvents (value : Value) (key v : String) : List Events × Value :=
  if value.get? key = some v then ([], value) else ([.syncOne key v], value.set key v)

def removeEntries : Value → List String → List Events × Value
  | value, [] => ([], value)
  | value, key :: keys =>
    match value.get? key with
    | some prevValue =>
      let (events, value') := removeEntries (value.erase key) keys
      (.deleteOne key prevValue :: events, value')
    | none => removeEntries value keys

def computeResetEvents (currentValue nextValue : Value) : List Events × Value :=
  let changed := (hash.order nextValue.entries).filter fun e => currentValue.get? e.1 ≠ some e.2
  let unvisitedKeys := ((hash.order currentValue.entries).map Prod.fst).filter fun key => key ∉ nextValue.keys
  let (deletes, value) := removeEntries (changed.foldl (fun d e => d.set e.1 e.2) currentValue) unvisitedKeys
  (changed.map (fun e => .syncOne e.1 e.2) ++ deletes, value)

mutual

def collectChildren (target : Value) : Etcd.Node String → Value
  | ⟨_, _, _, _, some children⟩ => collectEach target children
  | ⟨some key, some value, _, _, none⟩ => target.set key value
  | ⟨_, _, _, _, none⟩ => target

def collectEach (target : Value) : List (Etcd.Node String) → Value
  | [] => target
  | child :: children => collectEach (collectChildren target child) children

end

def collectNodeChildren (node : Etcd.Node String) : Value := collectChildren Dict.empty node

def beginWatching : Except EtcdError (Response String) → Option (WatchState Value)
  | .error (.keyNotFound index) => some ⟨Dict.empty, index⟩
  | .error _ => none
  | .ok response => some ⟨collectNodeChildren response.data.node, response.etcdIndex.getD 0⟩

def resetWatcher (currentValue : Value) (answer : Except EtcdError (Response String)) :
    Option (WatchResult Events Value) :=
  (beginWatching answer).map fun state =>
    if state.currentValue.entries = [] then
      if currentValue.entries = [] then .success [] ⟨currentValue, state.waitIndex⟩
      else .success [.fullSync state.currentValue] state
    else
      let (events, value) := computeResetEvents hash currentValue state.currentValue
      .success events ⟨value, state.waitIndex⟩

def continueWatching (state : WatchState Value) :
    Except EtcdError (KeyValueInfo String) → Option (WatchResult Events Value)
  | .error .eventIndexCleared => some .resetWatcher
  | .error .timeout => some .timeout
  | .error _ => none
  | .ok data =>
    let waitIndex := data.node.modifiedIndex.getD 0
    match data.action with
    | .compareAndDelete | .delete | .expire =>
      let key := data.node.key.getD ""
      let (events, value) :=
        if data.node.dir.getD false then computeDirDeleteEvents root hash key state.currentValue
        else computeSingleKeyDeleteEvents key state.currentValue
      some (.success events ⟨value, waitIndex⟩)
    | .create | .set | .update | .compareAndSwap =>
      let (events, value) :=
        computeKeyUpdateEvents state.currentValue (data.node.key.getD "") (data.node.value.getD "")
      some (.success events ⟨value, waitIndex⟩)
    | .get => some .resetWatcher

end Watcher

/-! ## Runs -/

/-- What etcd tells: of a change while watching, or of all keys at a get. -/
inductive Label
  | watchFailed
  | watchTimeout
  | eventIndexCleared
  | written (action : WriteAction) (key value : String) (modifiedIndex : Option Nat)
  | directoryWritten (action : WriteAction) (key : String) (modifiedIndex : Option Nat)
  | removed (action : RemoveAction) (key : String) (modifiedIndex : Option Nat)
  | directoryRemoved (action : RemoveAction) (key : String) (modifiedIndex : Option Nat)
  | getFailed
  | getMissing (index : Nat)
  | getFound (tree : EtcdTree) (etcdIndex : Option Nat)

def inSubtree (root key : String) : Bool := key = root || below root key

/-- What a watch hears. A key that is removed was there, and a directory that is removed is no key with a
value; it may lie above the watched one. -/
def Label.watchAnswer (root : String) (files : Value) : Label → Option (Except EtcdError (KeyValueInfo String))
  | watchFailed => some (.error .other)
  | watchTimeout => some (.error .timeout)
  | eventIndexCleared => some (.error .eventIndexCleared)
  | written action key value modifiedIndex =>
    if inSubtree root key then
      some (.ok ⟨action.action, { key := some key, value := some value, modifiedIndex := modifiedIndex }, none⟩)
    else none
  | directoryWritten action key modifiedIndex =>
    if inSubtree root key then
      some (.ok ⟨action.action,
        { key := some key, value := none, dir := some true, modifiedIndex := modifiedIndex }, none⟩)
    else none
  | removed action key modifiedIndex =>
    if (files.get? key).isSome then
      some (.ok ⟨action.action, { key := some key, value := none, modifiedIndex := modifiedIndex }, none⟩)
    else none
  | directoryRemoved action key modifiedIndex =>
    if (inSubtree root key || below key root) && (files.get? key).isNone then
      some (.ok ⟨action.action,
        { key := some key, value := none, dir := some true, modifiedIndex := modifiedIndex }, none⟩)
    else none
  | getFailed | getMissing _ | getFound _ _ => none

def Label.getAnswer (root : String) : Label → Option (Except EtcdError (Response String))
  | getFailed => some (.error .other)
  | getMissing index => some (.error (.keyNotFound index))
  | getFound tree etcdIndex => some (.ok ⟨{ action := .get, node := tree.node root }, etcdIndex⟩)
  | _ => none

/-- The keys that are not directories after what a label tells. -/
def Label.files (root : String) (files : Value) : Label → Value
  | written _ key value _ => files.set key value
  | directoryWritten _ key _ | removed _ key _ => files.erase key
  | directoryRemoved _ key _ => files.filterKeys fun k => !below key k
  | getMissing _ => Dict.empty
  | getFound tree _ => Dict.ofList (tree.files root)
  | _ => files

/-- The loop of the watcher, and the keys that are not directories as of what etcd last told. -/
structure State where
  loopState : WatchLoopState Value
  files : Value

def State.value (s : State) : Value := s.loopState.watchState.currentValue

section Runs

variable (root : String) (hash : HashOrder)

/-- The state after `begin_watching`, on a directory that is missing or found. -/
def State.start (found : Option EtcdTree) (index : Nat) : State :=
  match found with
  | none => ⟨.continueWatching ⟨Dict.empty, index⟩, Dict.empty⟩
  | some tree => ⟨.continueWatching ⟨collectNodeChildren (tree.node root), index⟩, Dict.ofList (tree.files root)⟩

/-- What the watcher answers to its loop, if it hears of the label. -/
def State.outcome (s : State) (label : Label) : Option (Option (WatchResult Events Value)) :=
  match s.loopState with
  | .continueWatching state => (label.watchAnswer root s.files).map (continueWatching root hash state)
  | .resetWatcher state => (label.getAnswer root).map (resetWatcher hash state.currentValue)

def State.step (s : State) (label : Label) : State :=
  match s.outcome root hash label with
  | none => s
  | some outcome => ⟨(runLoopOnce s.loopState outcome).1, label.files root s.files⟩

def State.events (s : State) (label : Label) : List Events :=
  match s.outcome root hash label with
  | none => []
  | some outcome => (runLoopOnce s.loopState outcome).2

def EachChanges : Value → List Events → Prop
  | _, [] => True
  | value, event :: events =>
    (∃ key, (event.apply value).get? key ≠ value.get? key) ∧ EachChanges (event.apply value) events

/-- After the step the watcher's map is that of the keys that are not directories, and the events lead from
the old map to the new one without a change of nothing. -/
def Tracks (s : State) (label : Label) : Prop :=
  (∀ key, (s.step root hash label).value.get? key = (s.step root hash label).files.get? key) ∧
    (s.events root hash label).foldl Events.apply s.value = (s.step root hash label).value ∧
    EachChanges s.value (s.events root hash label)

/-- The watcher does not hear of a directory that is written. -/
def NoDirectoryWritten (s : State) : Label → Prop
  | .directoryWritten _ key _ =>
    match s.loopState with
    | .continueWatching _ => ¬ inSubtree root key
    | .resetWatcher _ => True
  | _ => True

end Runs

/-! ## Each computation -/

/-- The events lead from a map to another without a change of nothing. -/
structure Leads (value : Value) (result : List Events × Value) : Prop where
  fold : result.1.foldl Events.apply value = result.2
  changes : EachChanges value result.1

theorem Leads.nil (value : Value) : Leads value ([], value) := ⟨rfl, trivial⟩

theorem EachChanges.append : ∀ {events events' value}, EachChanges value events →
    EachChanges (events.foldl Events.apply value) events' → EachChanges value (events ++ events')
  | [], _, _, _, h' => h'
  | _ :: _, _, _, h, h' => ⟨h.1, EachChanges.append h.2 h'⟩

theorem leads_computeKeyUpdateEvents (value : Value) (key v : String) :
    Leads value (computeKeyUpdateEvents value key v) := by
  rw [computeKeyUpdateEvents]
  split
  · exact .nil value
  · next hne => exact ⟨rfl, ⟨key, by simpa [Events.apply] using Ne.symm hne⟩, trivial⟩

theorem get?_computeKeyUpdateEvents (value : Value) (key v k : String) :
    (computeKeyUpdateEvents value key v).2.get? k = (value.set key v).get? k := by
  rw [computeKeyUpdateEvents]
  split
  · next hsame =>
    rw [Dict.get?_set]
    split
    · next hk => rw [hk, hsame]
    · rfl
  · rfl

theorem leads_removeEntries : ∀ (keys : List String) (value : Value), Leads value (removeEntries value keys)
  | [], value => .nil value
  | key :: keys, value => by
    rw [removeEntries]
    split
    · next prevValue hget =>
      have ih := leads_removeEntries keys (value.erase key)
      exact ⟨ih.fold, ⟨key, by simp [Events.apply, Dict.get?_erase, hget]⟩, ih.changes⟩
    · exact leads_removeEntries keys value

theorem get?_removeEntries (k : String) : ∀ (keys : List String) (value : Value),
    (removeEntries value keys).2.get? k = if k ∈ keys then none else value.get? k
  | [], value => by simp [removeEntries]
  | key :: keys, value => by
    rw [removeEntries]
    split
    · refine (get?_removeEntries k keys (value.erase key)).trans ?_
      rw [Dict.get?_erase]
      by_cases hk : k = key <;> simp [hk]
    · next hnone =>
      refine (get?_removeEntries k keys value).trans ?_
      by_cases hk : k = key <;> simp [hk, hnone]

theorem leads_computeSingleKeyDeleteEvents (key : String) (value : Value) :
    Leads value (computeSingleKeyDeleteEvents key value) := by
  rw [computeSingleKeyDeleteEvents]
  split
  · next prevValue hget => exact ⟨rfl, ⟨key, by simp [Events.apply, Dict.get?_erase, hget]⟩, trivial⟩
  · exact .nil value

theorem get?_computeSingleKeyDeleteEvents (key : String) (value : Value) (k : String) :
    (computeSingleKeyDeleteEvents key value).2.get? k = (value.erase key).get? k := by
  rw [computeSingleKeyDeleteEvents]
  split
  · rfl
  · next hnone =>
    rw [Dict.get?_erase]
    split
    · next hk => rw [hk, hnone]
    · rfl

theorem entries_foldl_erase : ∀ (keys : List String) (value : Value),
    (keys.foldl Dict.erase value).entries = value.entries.filter fun e => e.1 ∉ keys
  | [], value => by simp
  | key :: keys, value => by
    rw [List.foldl_cons, entries_foldl_erase keys]
    simp only [Dict.erase, Dict.filterKeys, List.filter_filter, List.mem_cons, not_or]
    exact List.filter_congr fun e _ => by simp [Bool.and_comm]

/-- Events about different keys, each of which leaves the other keys alone and changes its own. -/
theorem eachChanges_map {f : String × String → RecursiveKeyWatchEvents} {P : String × String → Option String → Prop}
    (hchanges : ∀ e value, P e (value.get? e.1) → (Events.apply value (f e)).get? e.1 ≠ value.get? e.1)
    (hother : ∀ e value k, k ≠ e.1 → (Events.apply value (f e)).get? k = value.get? k) :
    ∀ {es : List (String × String)} {value}, (es.map Prod.fst).Nodup → (∀ e ∈ es, P e (value.get? e.1)) →
      EachChanges value (es.map f)
  | [], _, _, _ => trivial
  | e :: es, value, hnodup, hget => by
    rw [List.map_cons, List.nodup_cons] at hnodup
    refine ⟨⟨e.1, hchanges e value (hget e (by simp))⟩, eachChanges_map hchanges hother hnodup.2 fun e' he' => ?_⟩
    rw [hother e value e'.1 fun heq => hnodup.1 (heq ▸ List.mem_map_of_mem he')]
    exact hget e' (by simp [he'])

theorem eachChanges_deletes {es : List (String × String)} {value} (hnodup : (es.map Prod.fst).Nodup)
    (hget : ∀ e ∈ es, value.get? e.1 = some e.2) : EachChanges value (es.map fun e => .deleteOne e.1 e.2) :=
  eachChanges_map (P := fun e v => v = some e.2) (fun e value hv => by simp [Events.apply, Dict.get?_erase, hv])
    (fun e value k hne => by rw [Events.apply, Dict.get?_erase, if_neg hne]) hnodup hget

theorem leads_computeDirDeleteEvents (root : String) (hash : HashOrder) (key : String) (value : Value) :
    Leads value (computeDirDeleteEvents root hash key value) := by
  rw [computeDirDeleteEvents]
  split
  · split
    · exact .nil value
    · next hne =>
      obtain ⟨e, he⟩ := List.exists_mem_of_ne_nil _ hne
      exact ⟨rfl, ⟨e.1, by simp [Events.apply, Dict.get?_eq_some_iff.2 he]⟩, trivial⟩
  · set gone := (hash.order value.entries).filter fun e => below key e.1 with hgone
    have hmem : ∀ e, e ∈ gone ↔ e ∈ value.entries ∧ below key e.1 := fun e => by
      rw [hgone, List.mem_filter, (hash.perm value.entries).mem_iff]
    refine ⟨?_, eachChanges_deletes ?_ fun e he => Dict.get?_eq_some_iff.2 ((hmem e).1 he).1⟩
    · apply Dict.ext
      have hfold : (gone.map fun e => RecursiveKeyWatchEvents.deleteOne e.1 e.2).foldl Events.apply value =
          (gone.map Prod.fst).foldl Dict.erase value := by
        rw [List.foldl_map, List.foldl_map]
        rfl
      rw [hfold, entries_foldl_erase]
      refine List.filter_congr fun e he => ?_
      rw [decide_not, Bool.not_inj_iff, Bool.eq_iff_iff, decide_eq_true_eq, List.mem_map]
      constructor
      · rintro ⟨e', he', heq⟩
        rw [← heq]
        exact ((hmem e').1 he').2
      · exact fun hbelow => ⟨e, (hmem e).2 ⟨he, hbelow⟩, rfl⟩
    · have hnodup : ((hash.order value.entries).map Prod.fst).Nodup :=
        ((hash.perm value.entries).map Prod.fst).nodup_iff.2 value.nodup
      exact hnodup.sublist (List.filter_sublist.map Prod.fst)

variable {hash : HashOrder} {root : String}

/-- A directory that is removed takes with it what lies below it, which is all if it is the watched one. -/
theorem get?_computeDirDeleteEvents {key value}
    (hroot : key = root → ∀ k, (value.get? k).isSome → below root k) (k : String) :
    (computeDirDeleteEvents root hash key value).2.get? k = (value.filterKeys fun k => !below key k).get? k := by
  rw [computeDirDeleteEvents]
  split
  · next heq =>
    subst heq
    have hnone : (value.filterKeys fun k => !below key k).get? k = none := by
      rw [Dict.get?_filterKeys]
      split
      · next hnot =>
        by_contra hsome
        have := hroot rfl k (Option.isSome_iff_ne_none.2 hsome)
        simp [this] at hnot
      · rfl
    rw [hnone]
    split
    · next hempty =>
      have : k ∉ value.keys := by simp [Dict.keys, hempty]
      rwa [← Dict.isSome_get?, Option.not_isSome_iff_eq_none] at this
    · rfl
  · rfl

theorem eachChanges_syncs {es : List (String × String)} {value} (hnodup : (es.map Prod.fst).Nodup)
    (hget : ∀ e ∈ es, value.get? e.1 ≠ some e.2) : EachChanges value (es.map fun e => .syncOne e.1 e.2) :=
  eachChanges_map (P := fun e v => v ≠ some e.2) (fun e value hv => by simpa [Events.apply] using hv.symm)
    (fun e value k hne => by rw [Events.apply, Dict.get?_set_other _ _ hne]) hnodup hget

section Reset

variable (hash : HashOrder) (currentValue nextValue : Value)

/-- The entries that a reset finds new or changed. -/
def changedEntries : List (String × String) :=
  (hash.order nextValue.entries).filter fun e => currentValue.get? e.1 ≠ some e.2

theorem nodup_changedEntries : ((changedEntries hash currentValue nextValue).map Prod.fst).Nodup := by
  have hnodup : ((hash.order nextValue.entries).map Prod.fst).Nodup :=
    ((hash.perm nextValue.entries).map Prod.fst).nodup_iff.2 nextValue.nodup
  exact hnodup.sublist (List.filter_sublist.map Prod.fst)

theorem mem_changedEntries {e} : e ∈ changedEntries hash currentValue nextValue ↔
    e ∈ nextValue.entries ∧ currentValue.get? e.1 ≠ some e.2 := by
  rw [changedEntries, List.mem_filter, (hash.perm nextValue.entries).mem_iff, decide_eq_true_eq]

theorem leads_computeResetEvents : Leads currentValue (computeResetEvents hash currentValue nextValue) := by
  set changed := changedEntries hash currentValue nextValue with hchanged
  have hfold : (changed.map fun e => RecursiveKeyWatchEvents.syncOne e.1 e.2).foldl Events.apply currentValue =
      changed.foldl (fun d e => d.set e.1 e.2) currentValue := by
    rw [List.foldl_map]
    rfl
  have hremove := leads_removeEntries
    (((hash.order currentValue.entries).map Prod.fst).filter fun key => key ∉ nextValue.keys)
    (changed.foldl (fun d e => d.set e.1 e.2) currentValue)
  constructor
  · change (changed.map (fun e => RecursiveKeyWatchEvents.syncOne e.1 e.2) ++ _).foldl _ _ = _
    rw [List.foldl_append, hfold]
    exact hremove.fold
  · have hsyncs := eachChanges_syncs (nodup_changedEntries hash currentValue nextValue)
      fun e he => ((mem_changedEntries hash currentValue nextValue).1 he).2
    refine hsyncs.append ?_
    rw [← hchanged, hfold]
    exact hremove.changes

theorem get?_computeResetEvents (k : String) :
    (computeResetEvents hash currentValue nextValue).2.get? k = nextValue.get? k := by
  have hkeys : ∀ key, key ∈ (hash.order currentValue.entries).map Prod.fst ↔ key ∈ currentValue.keys := fun key =>
    ((hash.perm currentValue.entries).map Prod.fst).mem_iff
  set changed := changedEntries hash currentValue nextValue with hchanged
  change (removeEntries (changed.foldl (fun d e => d.set e.1 e.2) currentValue) _).2.get? k = _
  rw [get?_removeEntries]
  simp only [List.mem_filter, hkeys, decide_eq_true_eq]
  cases hnext : nextValue.get? k with
  | some v =>
    have hmem : k ∈ nextValue.keys := Dict.isSome_get?.1 (by simp [hnext])
    rw [if_neg fun h => h.2 hmem]
    by_cases hsame : currentValue.get? k = some v
    · rw [Dict.get?_foldl_set_of_not_mem, hsame]
      intro hk
      obtain ⟨e, he, rfl⟩ := List.mem_map.1 hk
      obtain ⟨hentry, hne⟩ := (mem_changedEntries hash currentValue nextValue).1 he
      rw [Dict.get?_eq_some_iff.2 hentry] at hnext
      exact hne (hsame.trans hnext.symm)
    · refine Dict.get?_foldl_set_of_mem (nodup_changedEntries hash currentValue nextValue) ?_
      exact (mem_changedEntries hash currentValue nextValue).2 ⟨Dict.get?_eq_some_iff.1 hnext, hsame⟩
  | none =>
    have hnot : k ∉ nextValue.keys := fun hk => by
      rw [← Dict.isSome_get?, hnext] at hk
      cases hk
    by_cases hcurrent : k ∈ currentValue.keys
    · rw [if_pos ⟨hcurrent, hnot⟩]
    · rw [if_neg fun h => hcurrent h.1, Dict.get?_foldl_set_of_not_mem]
      · rwa [← Dict.isSome_get?, Option.not_isSome_iff_eq_none] at hcurrent
      · intro hk
        obtain ⟨e, he, rfl⟩ := List.mem_map.1 hk
        exact hnot (List.mem_map_of_mem ((mem_changedEntries hash currentValue nextValue).1 he).1)

end Reset

variable {state : WatchState Value}

/-! ## The tree of an answer -/

mutual

theorem collectChildren_node (key : String) : ∀ (tree : EtcdTree) (target : Value),
    collectChildren target (tree.node key) = (tree.files key).foldl (fun d e => d.set e.1 e.2) target
  | .file value, target => by
    rw [EtcdTree.node, EtcdTree.files]
    rfl
  | .dir [], target => by
    rw [EtcdTree.node, EtcdTree.files, EtcdTree.childFiles]
    rfl
  | .dir (c :: cs), target => by
    rw [EtcdTree.node, EtcdTree.files, ← collectEach_childNodes key (c :: cs) target, collectChildren]

theorem collectEach_childNodes (key : String) : ∀ (children : List (String × EtcdTree)) (target : Value),
    collectEach target (EtcdTree.childNodes key children) =
      (EtcdTree.childFiles key children).foldl (fun d e => d.set e.1 e.2) target
  | [], target => by
    rw [EtcdTree.childNodes, EtcdTree.childFiles, collectEach]
    rfl
  | (name, tree) :: children, target => by
    rw [EtcdTree.childNodes, EtcdTree.childFiles, collectEach, List.foldl_append,
      collectChildren_node (Etcd.child key name) tree target, collectEach_childNodes key children]

end

theorem collectNodeChildren_node (key : String) (tree : EtcdTree) :
    collectNodeChildren (tree.node key) = Dict.ofList (tree.files key) :=
  collectChildren_node key tree Dict.empty

/-! ## Each step -/

section Step

variable {root : String} {hash : HashOrder} {s : State}

/-- The watcher's map is that of the keys that are not directories, and they lie in the watched directory. -/
structure Inv (root : String) (s : State) : Prop where
  value : ∀ key, s.value.get? key = s.files.get? key
  subtree : ∀ key, (s.files.get? key).isSome → inSubtree root key

variable {label : Label}

theorem tracks_iff_of_outcome {events} (houtcome : s.outcome root hash label = some (some (.success events state)))
    (hleads : Leads s.value (events, state.currentValue)) :
    Tracks root hash s label ↔ ∀ key, state.currentValue.get? key = (label.files root s.files).get? key := by
  have hstep : s.step root hash label = ⟨.continueWatching state, label.files root s.files⟩ := by
    rw [State.step, houtcome]
    rfl
  have hevents : s.events root hash label = events := by
    rw [State.events, houtcome]
    rfl
  rw [Tracks, hstep, hevents]
  exact ⟨fun h => h.1, fun h => ⟨h, hleads.fold, hleads.changes⟩⟩

theorem Inv.tracks_of_silent (h : Inv root s) (hevents : s.events root hash label = [])
    (hvalue : (s.step root hash label).value = s.value) (hfiles : (s.step root hash label).files = s.files) :
    Tracks root hash s label := by
  rw [Tracks, hevents, hvalue, hfiles]
  exact ⟨h.value, rfl, trivial⟩

theorem Inv.tracks_of_not_heard (h : Inv root s) (houtcome : s.outcome root hash label = none) :
    Tracks root hash s label := by
  have hstep : s.step root hash label = s := by rw [State.step, houtcome]
  refine h.tracks_of_silent ?_ (by rw [hstep]) (by rw [hstep])
  rw [State.events, houtcome]

theorem tracks_of_failed (h : Inv root s) {outcome} (houtcome : s.outcome root hash label = some outcome)
    (hfailed : outcome = none ∨ outcome = some .timeout ∨ outcome = some .resetWatcher)
    (hfiles : label.files root s.files = s.files) : Tracks root hash s label := by
  have hstep : s.step root hash label = ⟨(runLoopOnce s.loopState outcome).1, s.files⟩ := by
    rw [State.step, houtcome, hfiles]
  rcases hfailed with rfl | rfl | rfl
  all_goals
    refine h.tracks_of_silent ?_ ?_ (by rw [hstep])
    · rw [State.events, houtcome]
      rfl
    · rw [hstep]
      rfl

theorem continueWatching_write (state : WatchState Value) (action : WriteAction) (node : Etcd.Node String)
    (prevNode : Option (Etcd.Node String)) :
    continueWatching root hash state (.ok ⟨action.action, node, prevNode⟩) =
      some (.success (computeKeyUpdateEvents state.currentValue (node.key.getD "") (node.value.getD "")).1
        ⟨(computeKeyUpdateEvents state.currentValue (node.key.getD "") (node.value.getD "")).2,
          node.modifiedIndex.getD 0⟩) := by
  cases action <;> rfl

theorem continueWatching_remove (state : WatchState Value) (action : RemoveAction) (node : Etcd.Node String)
    (prevNode : Option (Etcd.Node String)) :
    continueWatching root hash state (.ok ⟨action.action, node, prevNode⟩) =
      let result :=
        if node.dir.getD false then computeDirDeleteEvents root hash (node.key.getD "") state.currentValue
        else computeSingleKeyDeleteEvents (node.key.getD "") state.currentValue
      some (.success result.1 ⟨result.2, node.modifiedIndex.getD 0⟩) := by
  cases action <;> rfl

theorem Inv.get?_watching (h : Inv root s) (hloop : s.loopState = .continueWatching state) (key : String) :
    state.currentValue.get? key = s.files.get? key := by
  rw [← h.value, State.value, hloop]
  rfl

theorem Inv.tracks_heard_iff (h : Inv root s) (hloop : s.loopState = .continueWatching state) {heard : Bool}
    {data : KeyValueInfo String} (hanswer : label.watchAnswer root s.files = if heard then some (.ok data) else none)
    {result : List Events × Value} {index : Nat}
    (hwatch : continueWatching root hash state (.ok data) = some (.success result.1 ⟨result.2, index⟩))
    (hleads : Leads state.currentValue result) :
    Tracks root hash s label ↔
      (heard = true → ∀ key, result.2.get? key = (label.files root s.files).get? key) := by
  have hvalue : s.value = state.currentValue := by rw [State.value, hloop]; rfl
  have houtcome : s.outcome root hash label =
      (label.watchAnswer root s.files).map (continueWatching root hash state) := by
    rw [State.outcome, hloop]
  rw [hanswer] at houtcome
  cases heard with
  | false => exact iff_of_true (h.tracks_of_not_heard houtcome) fun hheard => (by cases hheard)
  | true =>
    rw [if_pos rfl, Option.map_some, hwatch] at houtcome
    rw [tracks_iff_of_outcome houtcome (by rw [hvalue]; exact hleads)]
    exact ⟨fun hright _ => hright, fun hright => hright rfl⟩

/-- While watching, a change keeps the map right just if it does not write a directory. -/
theorem Inv.tracks_watching_iff (h : Inv root s) (hloop : s.loopState = .continueWatching state) (label : Label) :
    Tracks root hash s label ↔ NoDirectoryWritten root s label := by
  have hget := h.get?_watching hloop
  have houtcome : s.outcome root hash label =
      (label.watchAnswer root s.files).map (continueWatching root hash state) := by
    rw [State.outcome, hloop]
  cases label with
  | watchFailed => exact iff_of_true (tracks_of_failed h houtcome (.inl rfl) rfl) trivial
  | watchTimeout => exact iff_of_true (tracks_of_failed h houtcome (.inr (.inl rfl)) rfl) trivial
  | eventIndexCleared => exact iff_of_true (tracks_of_failed h houtcome (.inr (.inr rfl)) rfl) trivial
  | getFailed | getMissing index | getFound tree etcdIndex =>
    exact iff_of_true (h.tracks_of_not_heard houtcome) trivial
  | written action key value modifiedIndex =>
    refine iff_of_true ((h.tracks_heard_iff hloop rfl (continueWatching_write state action _ _)
      (leads_computeKeyUpdateEvents _ _ _)).2 fun _ k => ?_) trivial
    rw [get?_computeKeyUpdateEvents, Label.files, Dict.get?_set, Dict.get?_set, hget]
    rfl
  | directoryWritten action key modifiedIndex =>
    rw [NoDirectoryWritten, hloop, h.tracks_heard_iff hloop rfl (continueWatching_write state action _ _)
      (leads_computeKeyUpdateEvents _ _ _)]
    refine ⟨fun hright hkey => ?_, fun hnot hkey => absurd hkey hnot⟩
    -- The watcher has the directory with an empty value.
    have := hright hkey key
    rw [get?_computeKeyUpdateEvents] at this
    simp [Label.files, Dict.get?_erase] at this
  | removed action key modifiedIndex =>
    refine iff_of_true ((h.tracks_heard_iff hloop rfl (continueWatching_remove state action _ _)
      (leads_computeSingleKeyDeleteEvents _ _)).2 fun _ k => ?_) trivial
    refine (get?_computeSingleKeyDeleteEvents _ _ _).trans ?_
    rw [Label.files, Dict.get?_erase, Dict.get?_erase, hget]
    rfl
  | directoryRemoved action key modifiedIndex =>
    refine iff_of_true ((h.tracks_heard_iff hloop rfl (continueWatching_remove state action _ _)
      (leads_computeDirDeleteEvents _ _ _ _)).2 fun hkey k => ?_) trivial
    have hroot : key = root → ∀ k, (state.currentValue.get? k).isSome → below root k := by
      rintro rfl k hk
      rw [hget] at hk
      have hsubtree := h.subtree k hk
      simp only [Bool.and_eq_true, Option.isNone_iff_eq_none] at hkey
      simp only [inSubtree, Bool.or_eq_true, decide_eq_true_eq] at hsubtree
      refine hsubtree.resolve_left fun heq => ?_
      rw [heq, hkey.2] at hk
      cases hk
    refine (get?_computeDirDeleteEvents hroot k).trans ?_
    rw [Label.files, Dict.get?_filterKeys, Dict.get?_filterKeys, hget]

theorem Inv.tracks_resetting (h : Inv root s)
    (hloop : s.loopState = .resetWatcher state) (label : Label) : Tracks root hash s label := by
  have hvalue : s.value = state.currentValue := by rw [State.value, hloop]; rfl
  have houtcome : s.outcome root hash label = (label.getAnswer root).map (resetWatcher hash state.currentValue) := by
    rw [State.outcome, hloop]
  -- What a reset answers once it knows the next value.
  have hreset : ∀ (nextValue : Value) (index : Nat) (answer : Except EtcdError (Response String)),
      beginWatching answer = some ⟨nextValue, index⟩ →
      s.outcome root hash label = some (resetWatcher hash state.currentValue answer) →
      (∀ key, nextValue.get? key = (label.files root s.files).get? key) → Tracks root hash s label := by
    intro nextValue index answer hbegin houtcome hfiles
    rw [resetWatcher, hbegin, Option.map_some] at houtcome
    simp only at houtcome
    split at houtcome
    · next hempty =>
      have hnext : ∀ key, nextValue.get? key = none := fun key => by
        rw [Dict.get?, hempty]
        rfl
      split at houtcome
      · next hcurrent =>
        refine (tracks_iff_of_outcome houtcome (by rw [hvalue]; exact .nil _)).2 fun key => ?_
        rw [← hfiles, hnext]
        change state.currentValue.get? key = none
        rw [Dict.get?, hcurrent]
        rfl
      · next hcurrent =>
        refine (tracks_iff_of_outcome houtcome ⟨rfl, ?_, trivial⟩).2 hfiles
        obtain ⟨e, he⟩ := List.exists_mem_of_ne_nil _ hcurrent
        refine ⟨e.1, ?_⟩
        rw [Events.apply, hnext, hvalue, Dict.get?_eq_some_iff.2 he]
        simp
    · refine (tracks_iff_of_outcome houtcome ?_).2 fun key => ?_
      · rw [hvalue]
        exact leads_computeResetEvents hash state.currentValue nextValue
      · exact (get?_computeResetEvents hash state.currentValue nextValue key).trans (hfiles key)
  cases label with
  | getFailed => exact tracks_of_failed h houtcome (.inl rfl) rfl
  | getMissing index => exact hreset Dict.empty index _ rfl houtcome fun _ => rfl
  | getFound tree etcdIndex =>
    refine hreset _ _ _ rfl houtcome fun key => ?_
    rw [collectNodeChildren_node]
    rfl
  | watchFailed | watchTimeout | eventIndexCleared | written | directoryWritten | removed | directoryRemoved =>
    exact h.tracks_of_not_heard houtcome

theorem Inv.tracks_iff (h : Inv root s) (label : Label) :
    Tracks root hash s label ↔ NoDirectoryWritten root s label := by
  cases hloop : s.loopState with
  | continueWatching state => exact h.tracks_watching_iff hloop label
  | resetWatcher state =>
    refine iff_of_true (h.tracks_resetting hloop label) ?_
    cases label with
    | directoryWritten action key modifiedIndex =>
      rw [NoDirectoryWritten, hloop]
      trivial
    | _ => trivial

theorem Inv.subtree_step (h : Inv root s) (label : Label) {key}
    (hkey : ((s.step root hash label).files.get? key).isSome) : inSubtree root key := by
  rw [State.step] at hkey
  cases houtcome : s.outcome root hash label with
  | none =>
    rw [houtcome] at hkey
    exact h.subtree key hkey
  | some outcome =>
    rw [houtcome] at hkey
    change ((label.files root s.files).get? key).isSome at hkey
    cases label with
    | written action key' value modifiedIndex =>
      rw [Label.files, Dict.get?_set] at hkey
      split at hkey
      · next heq =>
        subst heq
        by_contra hnot
        cases hloop : s.loopState <;>
          simp [State.outcome, hloop, Label.watchAnswer, Label.getAnswer, hnot] at houtcome
      · exact h.subtree key hkey
    | directoryWritten action key' modifiedIndex | removed action key' modifiedIndex =>
      rw [Label.files, Dict.get?_erase] at hkey
      split at hkey
      · cases hkey
      · exact h.subtree key hkey
    | directoryRemoved action key' modifiedIndex =>
      rw [Label.files, Dict.get?_filterKeys] at hkey
      split at hkey
      · exact h.subtree key hkey
      · cases hkey
    | getMissing index => cases hkey
    | getFound tree etcdIndex =>
      obtain ⟨e, he, rfl⟩ := List.mem_map.1 (Dict.isSome_get?_ofList.1 hkey)
      simpa [inSubtree] using EtcdTree.mem_files he
    | watchFailed | watchTimeout | eventIndexCleared | getFailed => exact h.subtree key hkey

theorem Inv.start (found : Option EtcdTree) (index : Nat) : Inv root (State.start root found index) := by
  cases found with
  | none => exact ⟨fun _ => rfl, fun _ h => (by cases h)⟩
  | some tree =>
    refine ⟨fun key => ?_, fun key hkey => ?_⟩
    · change (collectNodeChildren (tree.node root)).get? key = _
      rw [collectNodeChildren_node]
      rfl
    · obtain ⟨e, he, rfl⟩ := List.mem_map.1 (Dict.isSome_get?_ofList.1 hkey)
      simpa [inSubtree] using EtcdTree.mem_files he

end Step

/-- **The watcher's view is right exactly as long as no directory is written.** For every history of what etcd
tells a watcher of a directory, with resets at any point: after every step the map is that of the keys that are
not directories, and the events lead to it from the map before without one that changes nothing, if and only if
the watcher never hears of a directory that is set, created or updated. -/
theorem view_tracks_iff (root : String) (hash : HashOrder) (found : Option EtcdTree) (index : Nat)
    (labels : List Label) :
    Along (State.step root hash) (Tracks root hash) (State.start root found index) labels ↔
      Along (State.step root hash) (NoDirectoryWritten root) (State.start root found index) labels :=
  Along.congr (fun _ label h => h.tracks_iff label)
    (fun _ label h htracks => ⟨htracks.1, fun _ hkey => h.subtree_step label hkey⟩) (Inv.start found index)

/-- A directory `/a/sub` is created in the watched directory `/a`: the watcher has it as a key with an empty
value. -/
theorem view_wrong_after_directory_written :
    let hash : HashOrder := ⟨id, fun _ => .refl _⟩
    let s := (State.start "/a" none 0).step "/a" hash (.directoryWritten .set "/a/sub" (some 1))
    s.files.get? "/a/sub" = none ∧ s.value.get? "/a/sub" = some "" ∧
      ¬ Tracks "/a" hash (State.start "/a" none 0) (.directoryWritten .set "/a/sub" (some 1)) := by
  refine ⟨by decide, by decide, fun h => ?_⟩
  exact absurd (h.1 "/a/sub") (by decide)

/-! ## The watcher with its subscribers -/

/-- The loop with its subscriptions, and the keys that are not directories as of what etcd last told. -/
structure System where
  subscribers : EtcdWatcherd.State Events Value
  files : Value

/-- etcd tells something, which the loop does not ask for while it sends; or the loop sends an event, or a consumer
comes, reads or goes. -/
inductive Turn
  | told (label : Label)
  | other (label : EtcdWatcherd.Label Events Value) (h : ∀ outcome, label ≠ .loop outcome)

namespace System

def watcher (s : System) : State := ⟨s.subscribers.loopState, s.files⟩

variable (root : String) (hash : HashOrder)

def start (found : Option EtcdTree) (index : Nat) : System :=
  ⟨.start (State.start root found index).loopState.watchState, (State.start root found index).files⟩

def step (s : System) : Turn → System
  | .told label =>
    match s.subscribers.sending, s.watcher.outcome root hash label with
    | false, some outcome => ⟨s.subscribers.step watchEvents (.loop outcome), label.files root s.files⟩
    | _, _ => s
  | .other label _ => { s with subscribers := s.subscribers.step watchEvents label }

def NoDirectoryWritten (s : System) : Turn → Prop
  | .told label => s.subscribers.sending = false → RecursiveKey.NoDirectoryWritten root s.watcher label
  | .other .. => True

/-- Both parts keep what they keep on their own. -/
structure Inv (v₀ : Value) (s : System) : Prop where
  subscribers : EtcdWatcherd.Inv watchEvents v₀ s.subscribers
  watcher : RecursiveKey.Inv root s.watcher

variable {root hash} {s : System} {v₀ : Value}

theorem inv_start (found : Option EtcdTree) (index : Nat) : Inv root v₀ (start root found index) := by
  have hwatcher : (start root found index).watcher = State.start root found index := by cases found <;> rfl
  exact ⟨EtcdWatcherd.inv_start _, hwatcher ▸ .start found index⟩

theorem step_told (hfree : s.subscribers.sending = false) (label : Label) : s.step root hash (.told label) =
    match s.watcher.outcome root hash label with
    | none => s
    | some outcome =>
      ⟨{ s.subscribers with loopState := (runLoopOnce s.subscribers.loopState outcome).1 }.updateSubscribers
        (runLoopOnce s.subscribers.loopState outcome).2
        (runLoopOnce s.subscribers.loopState outcome).1.watchState.currentValue, label.files root s.files⟩ := by
  rw [step, hfree]
  cases s.watcher.outcome root hash label with
  | none => rfl
  | some outcome => simp [EtcdWatcherd.State.step, hfree]

/-- The events of a turn lead the subscribers to the watcher's map, which is right if no directory is written. -/
theorem Inv.told (h : s.Inv root v₀) {label} (hno : s.NoDirectoryWritten root (.told label)) :
    (s.step root hash (.told label)).Inv root v₀ := by
  cases hfree : s.subscribers.sending with
  | true =>
    rw [step, hfree]
    exact h
  | false =>
    have htracks : Tracks root hash s.watcher label := (h.watcher.tracks_iff label).2 (hno hfree)
    obtain ⟨hvalue, hfold, -⟩ := htracks
    have hwatcher : RecursiveKey.Inv root (s.watcher.step root hash label) :=
      ⟨hvalue, fun _ hkey => h.watcher.subtree_step label hkey⟩
    rw [step_told hfree]
    unfold State.step at hwatcher
    cases houtcome : s.watcher.outcome root hash label with
    | none => exact h
    | some outcome =>
      rw [houtcome] at hwatcher
      rw [State.events, State.step, houtcome] at hfold
      refine ⟨h.subscribers.update hfree ?_, hwatcher⟩
      rw [← h.subscribers.loopValue]
      exact hfold

theorem Inv.step (h : s.Inv root v₀) (turn : Turn) (hno : s.NoDirectoryWritten root turn) :
    (s.step root hash turn).Inv root v₀ := by
  cases turn with
  | told label => exact h.told hno
  | other label hlabel =>
    rw [System.step]
    refine ⟨h.subscribers.step label ?_, ?_⟩
    · cases label with
      | loop outcome => exact absurd rfl (hlabel outcome)
      | _ => trivial
    · rw [System.watcher, loopState_step hlabel]
      exact h.watcher

end System

/-- **What a consumer has read is what etcd holds.** Along every run in which etcd tells the watcher of changes,
resets and failures while its events are sent one by one and consumers come, fall behind and go, and the watcher does
not hear of a directory that is written: when no batch is under way, a consumer for which nothing is left to read has,
by the events it has seen, the keys that are not directories. -/
theorem consumers_have_files (root : String) (hash : HashOrder) (found : Option EtcdTree) (index : Nat) (v₀ : Value)
    (turns : List Turn)
    (hno : Along (System.step root hash) (System.NoDirectoryWritten root) (System.start root found index) turns)
    {s : System} (hs : turns.foldl (System.step root hash) (System.start root found index) = s)
    (hfree : s.subscribers.sending = false) {c consumer} (hc : s.subscribers.consumers c = some consumer)
    (hall : s.subscribers.available watchEvents consumer = none) (key : String) :
    (consumer.seen.foldl Events.apply v₀).get? key = s.files.get? key := by
  obtain ⟨-, hinv⟩ := Along.invariant (Q := fun _ _ => True) (I := System.Inv root v₀)
    (fun _ turn h hno => ⟨trivial, h.step turn hno⟩) hno (System.inv_start found index)
  rw [hs] at hinv
  have hseen := (hinv.subscribers.seen_eq hfree hc hall).trans hinv.subscribers.loopValue.symm
  exact (congrArg (·.get? key) hseen).trans (hinv.watcher.value key)

/-- A consumer that reads nothing while a key is written 66 times, and so loses its subscription; when it has taken out
a new one, the key is written once more. -/
def fallsBehind : List Turn :=
  let write := fun value => Turn.told (.written .set "/a/k" value none)
  let send := fun id => Turn.other (.send id) nofun
  let read := Turn.other (.next 0) nofun
  [.other (.events 0) nofun, read] ++ (List.replicate 33 [write "v", send 0, write "w", send 0]).flatten ++
    List.replicate 65 read ++ [write "x", send 1, read]

theorem consumers_have_files_fallsBehind :
    let s := fallsBehind.foldl (System.step "/a" ⟨id, fun _ => .refl _⟩) (System.start "/a" none 0)
    s.subscribers.watchers = [1] ∧ ∃ consumer, s.subscribers.consumers 0 = some consumer ∧
      (consumer.seen.foldl Events.apply Dict.empty).get? "/a/k" = some "x" := by
  intro s
  refine ⟨by decide +kernel, ?_⟩
  obtain ⟨consumer, hc⟩ := Option.isSome_iff_exists.mp
    (show (s.subscribers.consumers 0).isSome = true by decide +kernel)
  have hall : (s.subscribers.consumers 0).all (fun c => (s.subscribers.available watchEvents c).isNone) = true := by
    decide +kernel
  rw [hc, Option.all_some, Option.isNone_iff_eq_none] at hall
  have hno : Along (System.step "/a" ⟨id, fun _ => .refl _⟩) (System.NoDirectoryWritten "/a")
      (System.start "/a" none 0) fallsBehind := Along.of_forall fun s turn hturn => by
    simp only [fallsBehind, List.mem_append, List.mem_cons, List.mem_flatten, List.mem_replicate] at hturn
    grind [System.NoDirectoryWritten, NoDirectoryWritten]
  refine ⟨consumer, hc, ?_⟩
  have hfree : s.subscribers.sending = false := by decide +kernel
  have hfiles : s.files.get? "/a/k" = some "x" := by decide +kernel
  rw [consumers_have_files "/a" _ none 0 .empty fallsBehind hno (s := s) rfl hfree hc hall "/a/k", hfiles]

end Osprey.EtcdWatcherd.RecursiveKey
