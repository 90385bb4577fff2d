/-
`ReadOnlyEtcdTree`: a mapping of the leaf keys below a root, kept up by the events
of a recursive watch, with callbacks for single paths.

A directory is deleted with one event for its path. The tree takes every key that
starts with the path as a text for a key below it, and so it deletes `/r/ab` with
`/r/a`, and tells its watchers so.

Beside the tree runs what etcd holds, which a delete takes the path and the keys
below it from.
-/
import Mathlib.Data.List.DropRight
import Osprey.Coordinator.Etcd
import Osprey.Lib.Dict
import Osprey.Lib.Run

namespace Osprey.ReadOnlyTree

open Etcd (below below_iff)
open Lib (Dict)

/-- The events of a recursive watch, for leaf keys. -/
inductive Event
  | fullSyncRecursive (items : List (String × String))
  | incrementalSyncUpsert (key value : String)
  | incrementalSyncDelete (key : String)
  deriving DecidableEq

def Event.apply (etcd : Dict String String) : Event → Dict String String
  | fullSyncRecursive items => Dict.ofList items
  | incrementalSyncUpsert key value => etcd.set key value
  | incrementalSyncDelete key => etcd.filterKeys fun k => k ≠ key && !below key k

/-! ## The tree -/

/-- `str.startswith`. -/
def startswith (text start : String) : Bool := start.toList.isPrefixOf text.toList

abbrev Callback := Nat

structure Told where
  callback : Callback
  path : String
  value : Option String
  deriving DecidableEq

structure Tree where
  rootPath : String
  dict : Dict String String := .empty
  nodeWatchers : Dict String (List Callback) := .empty
  loaded : Bool := false

namespace Tree

/-- `ReadOnlyEtcdTree(root_path)`. -/
def new (rootPath : String) : Tree := { rootPath := String.ofList (rootPath.toList.rdropWhile (· = '/')) }

/-- `self._node_watchers[path]`. -/
def watchersOf (t : Tree) (path : String) : List Callback := (t.nodeWatchers.get? path).getD []

/-- The watchers of a path are told a value. -/
def tell (t : Tree) (path : String) (value : Option String) : List Told := (t.watchersOf path).map (⟨·, path, value⟩)

def deleteSubtree (t : Tree) (path : String) : Tree :=
  { t with dict := t.dict.filterKeys fun k => !startswith k path }

/-- `_handle_event`, with what the watchers are told. -/
def handleEvent (t : Tree) : Event → Tree × List Told
  | .fullSyncRecursive [] => ({ t with dict := .empty }, t.nodeWatchers.keys.flatMap fun path => t.tell path none)
  | .fullSyncRecursive (item :: items) =>
    let newDict := Dict.ofList (item :: items)
    let deleted := t.dict.keys.filter (· ∉ newDict.keys)
    ({ t with dict := newDict },
      (deleted.flatMap fun path => t.tell path none) ++ newDict.entries.flatMap fun e => t.tell e.1 (some e.2))
  | .incrementalSyncUpsert key value => ({ t with dict := t.dict.set key value }, t.tell key (some value))
  | .incrementalSyncDelete key =>
    (t.deleteSubtree key,
      (t.nodeWatchers.keys.filter (startswith · key)).flatMap fun path => t.tell path none)

/-- `watch`: what etcd holds is loaded if it was not. -/
def watch (t : Tree) (items : List (String × String)) : Tree × List Told :=
  if t.loaded then (t, [])
  else ({ (t.handleEvent (.fullSyncRecursive items)).1 with loaded := true }, (t.handleEvent (.fullSyncRecursive items)).2)

def nodePath (t : Tree) (path : String) : String :=
  if startswith path t.rootPath then path
  else t.rootPath ++ "/" ++ String.ofList (path.toList.dropWhile (· = '/'))

def addWatcher (t : Tree) (path : String) (callback : Callback) : Tree :=
  { t with nodeWatchers := t.nodeWatchers.set path (t.watchersOf path ++ [callback]) }

def watchNode (t : Tree) (path : String) (callback : Callback) (items : List (String × String)) : Tree × List Told :=
  let path := t.nodePath path
  let loaded := (t.addWatcher path callback).watch items
  (loaded.1, loaded.2 ++ [⟨callback, path, loaded.1.dict.get? path⟩])

end Tree

/-! ## The tree and etcd -/

/-- What happens: an event comes, or somebody watches the tree or a node; the items are what etcd holds then. -/
inductive Input
  | event (e : Event)
  | watch (items : List (String × String))
  | watchNode (path : String) (callback : Callback) (items : List (String × String))

structure World where
  tree : Tree
  etcd : Dict String String := .empty

namespace World

def handle (w : World) : Input → Tree × List Told
  | .event e => w.tree.handleEvent e
  | .watch items => w.tree.watch items
  | .watchNode path callback items => w.tree.watchNode path callback items

def etcdAfter (w : World) : Input → Dict String String
  | .event e => e.apply w.etcd
  | .watch items | .watchNode _ _ items => if w.tree.loaded then w.etcd else Dict.ofList items

def next (w : World) (input : Input) : World := ⟨(w.handle input).1, w.etcdAfter input⟩

/-- After the input the tree maps the keys that etcd holds to their values, and a watcher was told `None` only for a path
that etcd does not hold. -/
def Mirrors (w : World) (input : Input) : Prop :=
  (∀ key, (w.next input).tree.dict.get? key = (w.next input).etcd.get? key) ∧
    ∀ told ∈ (w.handle input).2, told.value = none → (w.next input).etcd.get? told.path = none

/-- A deleted path is not the beginning of the text of a key that does not lie below it. -/
def NoSibling (w : World) : Input → Prop
  | .event (.incrementalSyncDelete key) => ∀ k ∈ w.etcd.keys, startswith k key = true → k = key ∨ below key k = true
  | _ => True

end World

/-! ## Deleting -/

theorem startswith_self (path : String) : startswith path path = true :=
  List.isPrefixOf_iff_prefix.mpr (List.prefix_refl _)

variable {path : String}

theorem startswith_of_below {key} (h : below path key = true) : startswith key path = true := by
  rw [below_iff] at h
  exact List.isPrefixOf_iff_prefix.mpr ((List.prefix_append _ _).trans h)

theorem startswith_eq_of_noSibling {key} (h : startswith key path = true → key = path ∨ below path key = true) :
    (!startswith key path) = (decide (key ≠ path) && !below path key) := by
  cases hstart : startswith key path with
  | true =>
    rcases h hstart with rfl | hbelow
    · simp
    · simp [hbelow]
  | false =>
    have hne : key ≠ path := by
      intro heq
      rw [heq, startswith_self] at hstart
      cases hstart
    have hbelow : below path key = false := by
      rw [← Bool.not_eq_true]
      intro hb
      rw [startswith_of_below hb] at hstart
      cases hstart
    simp [hne, hbelow]

variable {t : Tree}

theorem deleteSubtree_dict (h : ∀ k ∈ t.dict.keys, startswith k path = true → k = path ∨ below path k = true) :
    (t.deleteSubtree path).dict = Event.apply t.dict (.incrementalSyncDelete path) :=
  Dict.filterKeys_congr fun k hk => startswith_eq_of_noSibling (h k hk)

theorem noSibling_of_deleteSubtree
    (h : ∀ key, (t.deleteSubtree path).dict.get? key = (Event.apply t.dict (.incrementalSyncDelete path)).get? key)
    {k} (hk : k ∈ t.dict.keys) (hstart : startswith k path = true) : k = path ∨ below path k = true := by
  by_contra hnot
  rw [not_or] at hnot
  obtain ⟨v, hv⟩ := Dict.mem_keys.mp hk
  have hkey := h k
  simp only [Tree.deleteSubtree, Event.apply, Dict.get?_filterKeys, hstart, hnot.2, hv] at hkey
  simp [hnot.1] at hkey

/-! ## Steps -/

variable {told : Told}

theorem mem_tell {value} (h : told ∈ t.tell path value) : told.path = path ∧ told.value = value := by
  obtain ⟨callback, _, rfl⟩ := List.mem_map.mp h
  exact ⟨rfl, rfl⟩

theorem dict_fullSync (t : Tree) (items : List (String × String)) :
    (t.handleEvent (.fullSyncRecursive items)).1.dict = Dict.ofList items := by
  cases items <;> rfl

theorem told_fullSync {items} (h : told ∈ (t.handleEvent (.fullSyncRecursive items)).2) (hnone : told.value = none) :
    (Dict.ofList items).get? told.path = none := by
  cases items with
  | nil => rfl
  | cons item items =>
    rcases List.mem_append.mp h with h | h
    · obtain ⟨path, hpath, htold⟩ := List.mem_flatMap.mp h
      have hdeleted := (List.mem_filter.mp hpath).2
      rw [(mem_tell htold).1]
      by_contra hsome
      obtain ⟨v, hv⟩ := Option.ne_none_iff_exists'.mp hsome
      exact of_decide_eq_true hdeleted (Dict.mem_keys.mpr ⟨v, hv⟩)
    · obtain ⟨e, _, htold⟩ := List.mem_flatMap.mp h
      rw [(mem_tell htold).2] at hnone
      cases hnone

theorem told_delete (hsibling : ∀ k ∈ t.dict.keys, startswith k path = true → k = path ∨ below path k = true)
    (h : told ∈ (t.handleEvent (.incrementalSyncDelete path)).2) :
    (Event.apply t.dict (.incrementalSyncDelete path)).get? told.path = none := by
  obtain ⟨watched, hwatched, htold⟩ := List.mem_flatMap.mp h
  have hstart := (List.mem_filter.mp hwatched).2
  rw [(mem_tell htold).1, Event.apply, Dict.get?_filterKeys]
  by_cases hk : watched ∈ t.dict.keys
  · rcases hsibling watched hk hstart with rfl | hbelow
    · simp
    · simp [hbelow]
  · have hnone : t.dict.get? watched = none := by
      by_contra hsome
      obtain ⟨v, hv⟩ := Option.ne_none_iff_exists'.mp hsome
      exact hk (Dict.mem_keys.mpr ⟨v, hv⟩)
    rw [hnone]
    simp

theorem watch_mirrors {etcd} (h : t.dict = etcd) (items : List (String × String)) :
    (t.watch items).1.dict = (if t.loaded then etcd else Dict.ofList items) ∧
      ∀ told ∈ (t.watch items).2, told.value = none →
        (if t.loaded then etcd else Dict.ofList items).get? told.path = none := by
  unfold Tree.watch
  cases t.loaded with
  | true => exact ⟨h, nofun⟩
  | false => exact ⟨dict_fullSync t items, fun told htold hnone => told_fullSync htold hnone⟩

namespace World

variable {w : World}

theorem next_mirrors (h : w.tree.dict = w.etcd) {input} (hsibling : w.NoSibling input) :
    (w.next input).tree.dict = (w.next input).etcd ∧
      ∀ told ∈ (w.handle input).2, told.value = none → (w.next input).etcd.get? told.path = none := by
  cases input with
  | event e =>
    cases e with
    | fullSyncRecursive items =>
      exact ⟨dict_fullSync w.tree items, fun told htold hnone => told_fullSync htold hnone⟩
    | incrementalSyncUpsert key value =>
      refine ⟨congrArg (fun d => d.set key value) h, fun told htold hnone => ?_⟩
      rw [(mem_tell htold).2] at hnone
      cases hnone
    | incrementalSyncDelete key =>
      have hsibling : ∀ k ∈ w.tree.dict.keys, startswith k key = true → k = key ∨ below key k = true := h ▸ hsibling
      show (w.tree.deleteSubtree key).dict = Event.apply w.etcd (.incrementalSyncDelete key) ∧
        ∀ told ∈ (w.tree.handleEvent (.incrementalSyncDelete key)).2, told.value = none →
          (Event.apply w.etcd (.incrementalSyncDelete key)).get? told.path = none
      rw [← h]
      exact ⟨deleteSubtree_dict hsibling, fun told htold _ => told_delete hsibling htold⟩
  | watch items => exact watch_mirrors h items
  | watchNode path callback items =>
    have hadded : (w.tree.addWatcher (w.tree.nodePath path) callback).dict = w.etcd := h
    obtain ⟨hdict, htold⟩ := watch_mirrors hadded items
    refine ⟨hdict, fun told hmem hnone => ?_⟩
    rcases List.mem_append.mp hmem with hmem | hmem
    · exact htold told hmem hnone
    · rw [List.mem_singleton.mp hmem] at hnone ⊢
      show (if w.tree.loaded then w.etcd else Dict.ofList items).get? (w.tree.nodePath path) = none
      rw [← hnone]
      exact congrArg (fun d => d.get? (w.tree.nodePath path)) hdict.symm

theorem mirrors_step_iff (h : w.tree.dict = w.etcd) (input : Input) : w.Mirrors input ↔ w.NoSibling input := by
  constructor
  · intro hmirrors
    cases input with
    | watch items | watchNode path callback items => trivial
    | event e =>
      cases e with
      | fullSyncRecursive items | incrementalSyncUpsert key value => trivial
      | incrementalSyncDelete key =>
        intro k hk hstart
        rw [← h] at hk
        refine noSibling_of_deleteSubtree (fun key' => ?_) hk hstart
        rw [h]
        exact hmirrors.1 key'
  · intro hsibling
    obtain ⟨hdict, htold⟩ := next_mirrors h hsibling
    exact ⟨fun key => congrArg (fun d => d.get? key) hdict, htold⟩

end World

/-- The tree mirrors what etcd holds below its root, and tells `None` only for what is not there, along every run in
which no deleted path is the beginning of a key that does not lie below it, and along no other. -/
theorem mirrors_iff (rootPath : String) (inputs : List Input) :
    Lib.Along World.next World.Mirrors { tree := .new rootPath } inputs ↔
      Lib.Along World.next World.NoSibling { tree := .new rootPath } inputs :=
  (Lib.Along.congr (I := fun w => w.tree.dict = w.etcd) (fun _ input h => (World.mirrors_step_iff h input).symm)
    (fun _ _ h hsibling => (World.next_mirrors h hsibling).1) rfl).symm

/-- The directory `/r/a` is deleted, and the tree deletes `/r/ab` too, and tells its watcher. -/
theorem sibling_deleted :
    let w : World := [Input.watch [("/r/a/x", "1"), ("/r/ab", "2")], .watchNode "/r/ab" 0 []].foldl World.next
      { tree := .new "/r" }
    let input : Input := .event (.incrementalSyncDelete "/r/a")
    (w.next input).etcd.get? "/r/ab" = some "2" ∧ (w.next input).tree.dict.get? "/r/ab" = none ∧
      (w.handle input).2 = [⟨0, "/r/ab", none⟩] := by
  decide +kernel

end Osprey.ReadOnlyTree
