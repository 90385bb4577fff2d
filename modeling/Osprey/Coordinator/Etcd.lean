/-
etcd as its clients see it (version 2 of its interface): the actions, the
nodes of an answer, and the tree of keys that an answer to a recursive get
describes.
-/
import Mathlib.Data.List.Basic

namespace Osprey.Etcd

/-! ## Answers -/

inductive Action
  | get | set | create | compareAndSwap | update | delete | expire | compareAndDelete

structure Node (V : Type) where
  key : Option String := none
  value : Option V
  dir : Option Bool := none
  modifiedIndex : Option Nat := none
  nodes : Option (List (Node V)) := none

structure KeyValueInfo (V : Type) where
  action : Action
  node : Node V
  prevNode : Option (Node V) := none

structure Response (V : Type) where
  data : KeyValueInfo V
  etcdIndex : Option Nat := none

inductive EtcdError
  | keyNotFound (index : Nat)
  | eventIndexCleared
  | timeout
  | other

/-- The actions that write a node, and those that remove one. -/
inductive WriteAction
  | set | create | compareAndSwap | update

inductive RemoveAction
  | delete | expire | compareAndDelete

def WriteAction.action : WriteAction → Action
  | set => .set
  | create => .create
  | compareAndSwap => .compareAndSwap
  | update => .update

def RemoveAction.action : RemoveAction → Action
  | delete => .delete
  | expire => .expire
  | compareAndDelete => .compareAndDelete

/-! ## Keys -/

/-- The key lies below the path: it starts with the path and a slash. -/
def below (path key : String) : Bool := (path.toList ++ ['/']).isPrefixOf key.toList

theorem below_iff {path key} : below path key ↔ path.toList ++ ['/'] <+: key.toList := by
  rw [below, List.isPrefixOf_iff_prefix]

def child (path name : String) : String := path ++ "/" ++ name

theorem below_child (path name : String) : below path (child path name) := by
  rw [below_iff]
  exact ⟨name.toList, by simp [child, String.toList_append]⟩

theorem below_trans {path path' key} (h : below path path') (h' : below path' key) : below path key := by
  rw [below_iff] at h h' ⊢
  exact h.trans ((List.prefix_append _ _).trans h')

/-! ## Trees -/

/-- What is stored at a key: a value, or a directory. -/
inductive EtcdTree
  | file (value : String)
  | dir (children : List (String × EtcdTree))

mutual

/-- The keys of the tree that are not directories, with their values. -/
def EtcdTree.files (key : String) : EtcdTree → List (String × String)
  | .file value => [(key, value)]
  | .dir children => childFiles key children

def EtcdTree.childFiles (key : String) : List (String × EtcdTree) → List (String × String)
  | [] => []
  | (name, tree) :: children => tree.files (child key name) ++ childFiles key children

end

mutual

/-- The answer to a recursive get. The list of an empty directory is left out. -/
def EtcdTree.node (key : String) : EtcdTree → Node String
  | .file value => { key := some key, value := some value }
  | .dir [] => { key := some key, value := none, dir := some true }
  | .dir (c :: cs) =>
    { key := some key, value := none, dir := some true, nodes := some (childNodes key (c :: cs)) }

def EtcdTree.childNodes (key : String) : List (String × EtcdTree) → List (Node String)
  | [] => []
  | (name, tree) :: children => tree.node (child key name) :: childNodes key children

end

mutual

theorem EtcdTree.mem_files {key} : ∀ {tree : EtcdTree} {e}, e ∈ tree.files key →
    e.1 = key ∨ below key e.1
  | .file value, e, h => by
    rw [EtcdTree.files, List.mem_singleton] at h
    exact .inl (by rw [h])
  | .dir children, e, h => .inr (EtcdTree.mem_childFiles (by rwa [EtcdTree.files] at h))

theorem EtcdTree.mem_childFiles {key} : ∀ {children : List (String × EtcdTree)} {e},
    e ∈ childFiles key children → below key e.1
  | [], _, h => by simp [EtcdTree.childFiles] at h
  | (name, tree) :: children, e, h => by
    rw [EtcdTree.childFiles, List.mem_append] at h
    rcases h with h | h
    · rcases EtcdTree.mem_files h with heq | hbelow
      · rw [heq]
        exact below_child key name
      · exact below_trans (below_child key name) hbelow
    · exact EtcdTree.mem_childFiles h

end

end Osprey.Etcd
