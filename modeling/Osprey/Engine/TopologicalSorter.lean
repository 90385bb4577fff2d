/-
`TopologicalSorter`: the graph of nodes still to execute, with the number of
unfinished predecessors of each. Nodes can be added at any time, also while
others are ready, passed out or done.

A sorter is valid for the dependencies of its nodes if every number is right,
every edge that can still be released is recorded, and the nodes without
unfinished predecessors are listed as ready. Each operation keeps a sorter
valid, and on a valid sorter `done` does not raise for a node passed out.
-/
import Mathlib.Data.List.Count
import Mathlib.Tactic.Ring
import Osprey.Lib.Dict
import Osprey.Engine.Basic

namespace Osprey

open Lib (Dict)

variable {α : Type*}

/-! ## The sorter -/

/-- `_NODE_OUT`, the number of predecessors of a node that `get_ready` has returned. -/
def nodeOut : Int := -1

/-- `_NODE_DONE`, the number of predecessors of a node that is processed. -/
def nodeDone : Int := -2

structure NodeInfo (α : Type*) where
  npredecessors : Int := 0
  successors : List α := []
  deriving DecidableEq, Repr

/-- `_node2info`. -/
abbrev NodeInfos (α : Type*) := Dict α (NodeInfo α)

structure TopologicalSorter (α : Type*) where
  node2info : NodeInfos α := Dict.empty
  readyNodes : List α := []
  npassedout : Nat := 0
  nfinished : Nat := 0
  needsPrepare : Bool := true

variable [DecidableEq α]

namespace NodeInfos

/-- `_get_nodeinfo`: an unknown node is added. -/
def getNodeinfo (d : NodeInfos α) (node : α) : NodeInfos α :=
  if (d.get? node).isSome then d else d.set node {}

def npredecessors (d : NodeInfos α) (node : α) : Option Int := (d.get? node).map NodeInfo.npredecessors

def successors (d : NodeInfos α) (node : α) : List α := ((d.get? node).map NodeInfo.successors).getD []

def Known (d : NodeInfos α) (n : α) : Prop := (d.get? n).isSome = true

def IsOut (d : NodeInfos α) (n : α) : Prop := d.npredecessors n = some nodeOut

def IsDone (d : NodeInfos α) (n : α) : Prop := d.npredecessors n = some nodeDone

def IsReady (d : NodeInfos α) (n : α) : Prop := d.npredecessors n = some 0

instance (d : NodeInfos α) (n : α) : Decidable (d.Known n) := inferInstanceAs (Decidable (_ = _))

instance (d : NodeInfos α) (n : α) : Decidable (d.IsDone n) := inferInstanceAs (Decidable (_ = _))

def setNpredecessors (d : NodeInfos α) (node : α) (n : Int) : NodeInfos α :=
  d.modify node fun info => { info with npredecessors := n }

def appendSuccessor (d : NodeInfos α) (node successor : α) : NodeInfos α :=
  d.modify node fun info => { info with successors := info.successors ++ [successor] }

/-- The loop of `add`: the node becomes a successor of each predecessor that is not done. -/
def addPredecessors (node : α) : List α → NodeInfos α → Int → NodeInfos α × Int
  | [], d, numNewPredecessors => (d, numNewPredecessors)
  | pred :: preds, d, numNewPredecessors =>
    if (getNodeinfo d pred).IsDone pred then
      addPredecessors node preds (getNodeinfo d pred) numNewPredecessors
    else addPredecessors node preds ((getNodeinfo d pred).appendSuccessor pred node) (numNewPredecessors + 1)

def addNode (d : NodeInfos α) (node : α) (predecessors : List α) : NodeInfos α :=
  let (d, numNewPredecessors) := addPredecessors node predecessors (getNodeinfo d node) 0
  d.modify node fun info => { info with npredecessors := info.npredecessors + numNewPredecessors }

/-- The loop of `done`: each successor has one predecessor less, and is ready when none is left. -/
def releaseSuccessors : List α → NodeInfos α → List α → Except Exc (NodeInfos α × List α)
  | [], d, readyNodes => .ok (d, readyNodes)
  | successor :: rest, d, readyNodes => match d.npredecessors successor with
    | none => .error ⟨.keyError, ""⟩
    | some n =>
      releaseSuccessors rest (d.setNpredecessors successor (n - 1))
        (if n - 1 = 0 then readyNodes ++ [successor] else readyNodes)

end NodeInfos

namespace TopologicalSorter

def alreadyAdded (t : TopologicalSorter α) (node : α) : Bool := (t.node2info.get? node).isSome

def add (t : TopologicalSorter α) (node : α) (predecessors : List α) : Except Exc (TopologicalSorter α) :=
  if t.alreadyAdded node then .error ⟨.valueError, "Cannot add the same node more than once"⟩
  else .ok { t with node2info := NodeInfos.addNode t.node2info node predecessors, needsPrepare := true }

def prepare (t : TopologicalSorter α) : TopologicalSorter α :=
  if t.needsPrepare then
    { t with
      readyNodes := (t.node2info.entries.filter fun e => e.2.npredecessors = 0).map Prod.fst
      needsPrepare := false }
  else t

def prepareFirst : Exc := ⟨.valueError, "prepare() must be called first"⟩

def getReady (t : TopologicalSorter α) : Except Exc (List α × TopologicalSorter α) :=
  if t.needsPrepare then .error prepareFirst
  else .ok (t.readyNodes, { t with
    node2info := t.readyNodes.foldl (fun d node => NodeInfos.setNpredecessors d node nodeOut) t.node2info
    readyNodes := []
    npassedout := t.npassedout + t.readyNodes.length })

def doneNode [ToString α] (t : TopologicalSorter α) (node : α) : Except Exc (TopologicalSorter α) :=
  match NodeInfos.npredecessors t.node2info node with
  | none => .error ⟨.valueError, s!"node {node} was not added using add()"⟩
  | some stat =>
    if stat ≠ nodeOut then
      if stat ≥ 0 then .error ⟨.valueError, s!"node {node} was not passed out (still not ready)"⟩
      else if stat = nodeDone then .error ⟨.valueError, s!"node {node} was already marked done"⟩
      else .error ⟨.assertionError, s!"node {node}: unknown status {stat}"⟩
    else do
      let (d, readyNodes) ← NodeInfos.releaseSuccessors (NodeInfos.successors t.node2info node)
        (NodeInfos.setNpredecessors t.node2info node nodeDone) t.readyNodes
      return { t with node2info := d, readyNodes := readyNodes, nfinished := t.nfinished + 1 }

def done [ToString α] (t : TopologicalSorter α) (nodes : List α) : Except Exc (TopologicalSorter α) :=
  if t.needsPrepare then .error prepareFirst else nodes.foldlM doneNode t

end TopologicalSorter

/-! ## Reading the infos -/

namespace NodeInfos

variable {d : NodeInfos α} {node n p : α}

@[simp] theorem isSome_npredecessors (d : NodeInfos α) (n : α) :
    (d.npredecessors n).isSome = (d.get? n).isSome := by simp [npredecessors]

theorem npredecessors_setNpredecessors (h : d.Known node) (k : Int) (n : α) :
    (d.setNpredecessors node k).npredecessors n = if n = node then some k else d.npredecessors n := by
  obtain ⟨info, hinfo⟩ := Option.isSome_iff_exists.mp h
  rw [npredecessors, npredecessors, setNpredecessors, Dict.get?_modify, hinfo]
  split <;> rfl

variable (d)

@[simp] theorem successors_setNpredecessors (node n : α) (k : Int) :
    (d.setNpredecessors node k).successors n = d.successors n :=
  congrArg (Option.getD · []) (Dict.map_get?_modify (fun _ => by rfl) ..)

@[simp] theorem isSome_get?_setNpredecessors (node n : α) (k : Int) :
    ((d.setNpredecessors node k).get? n).isSome = (d.get? n).isSome := by simp [setNpredecessors]

@[simp] theorem npredecessors_appendSuccessor (node successor n : α) :
    (d.appendSuccessor node successor).npredecessors n = d.npredecessors n :=
  Dict.map_get?_modify (fun _ => by rfl) ..

theorem successors_appendSuccessor {node} (h : (d.get? node).isSome = true) (successor n : α) :
    (d.appendSuccessor node successor).successors n
      = if n = node then d.successors n ++ [successor] else d.successors n := by
  unfold successors appendSuccessor
  rw [Dict.get?_modify]
  by_cases hn : n = node
  · subst hn
    obtain ⟨info, hinfo⟩ := Option.isSome_iff_exists.mp h
    simp [hinfo]
  · simp [hn]

@[simp] theorem isSome_get?_appendSuccessor (node successor n : α) :
    ((d.appendSuccessor node successor).get? n).isSome = (d.get? n).isSome := by simp [appendSuccessor]

variable {d}

theorem getNodeinfo_of_isSome (h : (d.get? node).isSome = true) : getNodeinfo d node = d := by
  simp [getNodeinfo, h]

/-! ## Right numbers -/

def unfinished (d : NodeInfos α) (predecessors : List α) : Nat := predecessors.countP fun p => ¬ d.IsDone p

/-- The infos are right for the dependencies `dep` of the nodes. A node that is done keeps no
successors up to date, since none has to be released by it. -/
structure Counted (dep : α → List α) (d : NodeInfos α) : Prop where
  closed : ∀ n, d.Known n → ∀ p ∈ dep n, d.Known p
  status : ∀ n k, d.npredecessors n = some k → k = nodeOut ∨ k = nodeDone ∨ k = d.unfinished (dep n)
  passed : ∀ n, d.IsOut n ∨ d.IsDone n → ∀ p ∈ dep n, d.IsDone p
  successors : ∀ p, d.Known p → ¬ d.IsDone p → ∀ n,
    (d.successors p).count n = if d.Known n then (dep n).count p else 0

theorem known_iff : d.Known n ↔ ∃ k, d.npredecessors n = some k := by
  rw [Known, ← isSome_npredecessors, Option.isSome_iff_exists]

theorem known_of_npredecessors {k} (h : d.npredecessors n = some k) : d.Known n := known_iff.mpr ⟨k, h⟩

theorem IsDone.known (h : d.IsDone n) : d.Known n := known_of_npredecessors h

theorem IsOut.not_done (h : d.IsOut n) : ¬ d.IsDone n := by
  intro hd
  rw [IsDone, h] at hd
  exact absurd hd (by decide)

theorem unfinished_cons (d : NodeInfos α) (p : α) (ps : List α) :
    d.unfinished (p :: ps) = d.unfinished ps + if d.IsDone p then 0 else 1 := by
  by_cases h : d.IsDone p <;> simp [unfinished, h]

theorem unfinished_congr {d' : NodeInfos α} {ps} (h : ∀ p ∈ ps, d'.IsDone p ↔ d.IsDone p) :
    d'.unfinished ps = d.unfinished ps :=
  List.countP_congr fun p hp => by simp [h p hp]

theorem unfinished_eq_zero {ps} : d.unfinished ps = 0 ↔ ∀ p ∈ ps, d.IsDone p := by
  simp [unfinished]

theorem addPredecessors_spec (node : α) (preds : List α) (d : NodeInfos α) (k : Int)
    (h : ∀ p ∈ preds, d.Known p) :
    (∀ n, (addPredecessors node preds d k).1.npredecessors n = d.npredecessors n) ∧
    (addPredecessors node preds d k).2 = k + d.unfinished preds ∧
    ∀ p n, ((addPredecessors node preds d k).1.successors p).count n
      = (d.successors p).count n + if n = node ∧ ¬ d.IsDone p then preds.count p else 0 := by
  induction preds generalizing d k with
  | nil => simp [addPredecessors, unfinished]
  | cons q preds ih =>
    have hq : d.Known q := h q (by simp)
    have hrest : ∀ p ∈ preds, d.Known p := fun p hp => h p (by simp [hp])
    rw [addPredecessors, getNodeinfo_of_isSome hq, unfinished_cons]
    by_cases hdone : d.IsDone q
    · rw [if_pos hdone, if_pos hdone]
      obtain ⟨hn, hk, hs⟩ := ih d k hrest
      refine ⟨hn, hk, fun p n => ?_⟩
      rw [hs p n]
      by_cases hpq : q = p
      · subst hpq; simp [hdone]
      · simp [hpq]
    · have hdone' : ∀ p, (d.appendSuccessor q node).IsDone p ↔ d.IsDone p := fun p => by simp [IsDone]
      rw [if_neg hdone, if_neg hdone]
      obtain ⟨hn, hk, hs⟩ := ih (d.appendSuccessor q node) (k + 1) fun p hp => by simpa [Known] using hrest p hp
      refine ⟨fun n => by rw [hn, npredecessors_appendSuccessor], ?_, fun p n => ?_⟩
      · rw [hk, unfinished_congr fun p _ => hdone' p]
        push_cast
        ring
      · rw [hs p n, successors_appendSuccessor d hq]
        simp only [hdone']
        by_cases hpq : p = q
        · subst hpq
          by_cases hnode : n = node
          · subst hnode; simp [hdone]; omega
          · simp [hnode, Ne.symm hnode]
        · simp [hpq, Ne.symm hpq]

section

variable {preds : List α} (hnew : ¬ d.Known node) (hpreds : ∀ p ∈ preds, d.Known p)

include hnew

theorem getNodeinfo_of_new : getNodeinfo d node = d.set node {} := if_neg hnew

theorem npredecessors_getNodeinfo (n : α) :
    (getNodeinfo d node).npredecessors n = if n = node then some 0 else d.npredecessors n := by
  rw [getNodeinfo_of_new hnew, npredecessors, Dict.get?_set]
  by_cases hn : n = node <;> simp [hn, npredecessors]

theorem successors_getNodeinfo (p : α) : (getNodeinfo d node).successors p = d.successors p := by
  have hnone : d.get? node = none := by simpa [Known] using hnew
  rw [getNodeinfo_of_new hnew, successors, Dict.get?_set]
  by_cases hp : p = node
  · subst hp; simp [successors, hnone]
  · simp [hp, successors]

theorem isDone_getNodeinfo (p : α) : (getNodeinfo d node).IsDone p ↔ d.IsDone p := by
  rw [IsDone, npredecessors_getNodeinfo hnew]
  by_cases hp : p = node
  · subst hp
    rw [if_pos rfl]
    exact iff_of_false (by decide) fun h => hnew h.known
  · rw [if_neg hp, IsDone]

theorem unfinished_getNodeinfo (ps : List α) : (getNodeinfo d node).unfinished ps = d.unfinished ps :=
  unfinished_congr fun p _ => isDone_getNodeinfo hnew p

include hpreds

theorem known_getNodeinfo (p : α) (hp : p ∈ preds) : (getNodeinfo d node).Known p := by
  obtain ⟨k, hk⟩ := known_iff.mp (hpreds p hp)
  have hne : p ≠ node := fun h => hnew (h ▸ hpreds p hp)
  exact known_of_npredecessors (k := k) (by rw [npredecessors_getNodeinfo hnew, if_neg hne, hk])

theorem npredecessors_addNode (n : α) : (d.addNode node preds).npredecessors n
    = if n = node then some (d.unfinished preds : Int) else d.npredecessors n := by
  obtain ⟨hn, hk, -⟩ := addPredecessors_spec node preds _ 0 (known_getNodeinfo hnew hpreds)
  rw [addNode, npredecessors, Dict.get?_modify]
  by_cases h : n = node
  · subst h
    have hself := (hn n).trans (npredecessors_getNodeinfo hnew n)
    rw [if_pos rfl, npredecessors] at hself
    obtain ⟨info, hinfo, hzero⟩ := Option.map_eq_some_iff.mp hself
    rw [if_pos rfl, if_pos rfl, hinfo, hk, unfinished_getNodeinfo hnew]
    simp [hzero]
  · rw [if_neg h, if_neg h]
    exact (hn n).trans (by rw [npredecessors_getNodeinfo hnew, if_neg h])

/-- The new node becomes a successor of each unfinished predecessor, as often as it is one. -/
theorem count_successors_addNode (p n : α) : ((d.addNode node preds).successors p).count n
    = (d.successors p).count n + if n = node ∧ ¬ d.IsDone p then preds.count p else 0 := by
  obtain ⟨-, -, hs⟩ := addPredecessors_spec node preds _ 0 (known_getNodeinfo hnew hpreds)
  have hmod : (d.addNode node preds).successors p
      = (addPredecessors node preds (getNodeinfo d node) 0).1.successors p :=
    congrArg (Option.getD · []) (Dict.map_get?_modify (fun _ => by rfl) ..)
  rw [hmod, hs p n, successors_getNodeinfo hnew]
  simp only [isDone_getNodeinfo hnew]

theorem known_addNode (n : α) : (d.addNode node preds).Known n ↔ n = node ∨ d.Known n := by
  rw [known_iff, known_iff, npredecessors_addNode hnew hpreds]
  by_cases h : n = node <;> simp [h]

theorem mark_addNode {mark} (hmark : mark < 0) (n : α) :
    (d.addNode node preds).npredecessors n = some mark ↔ d.npredecessors n = some mark := by
  rw [npredecessors_addNode hnew hpreds]
  by_cases h : n = node
  · subst h
    rw [if_pos rfl, Option.some.injEq]
    exact iff_of_false (by omega) fun h => hnew (known_of_npredecessors h)
  · rw [if_neg h]

theorem isDone_addNode (n : α) : (d.addNode node preds).IsDone n ↔ d.IsDone n :=
  mark_addNode hnew hpreds (by decide) n

theorem isOut_addNode (n : α) : (d.addNode node preds).IsOut n ↔ d.IsOut n :=
  mark_addNode hnew hpreds (by decide) n

end

variable {dep : α → List α}

theorem Counted.addNode (h : Counted dep d) (hnew : ¬ d.Known node)
    (hdeps : ∀ p ∈ dep node, d.Known p) : Counted dep (d.addNode node (dep node)) := by
  have hdone := isDone_addNode hnew hdeps
  have hunf : ∀ ps, (d.addNode node (dep node)).unfinished ps = d.unfinished ps :=
    fun ps => unfinished_congr fun p _ => hdone p
  refine ⟨?_, ?_, ?_, ?_⟩
  · intro n hn p hp
    refine (known_addNode hnew hdeps p).mpr (.inr ?_)
    rcases (known_addNode hnew hdeps n).mp hn with rfl | hn
    · exact hdeps p hp
    · exact h.closed n hn p hp
  · intro n k hk
    rw [npredecessors_addNode hnew hdeps] at hk
    rw [hunf]
    by_cases hn : n = node
    · subst hn
      rw [if_pos rfl] at hk
      exact .inr (.inr (Option.some.inj hk).symm)
    · rw [if_neg hn] at hk
      exact h.status n k hk
  · intro n hn p hp
    rw [isOut_addNode hnew hdeps, hdone n] at hn
    exact (hdone p).mpr (h.passed n hn p hp)
  · intro p hp hpdone n
    rw [hdone p] at hpdone
    rw [count_successors_addNode hnew hdeps]
    simp only [known_addNode hnew hdeps]
    by_cases hpn : p = node
    · -- Nothing that is known already depends on the new node.
      subst hpn
      have hno : ∀ m, d.Known m ∨ m = p → (dep m).count p = 0 := by
        rintro m (hm | rfl)
        · exact List.count_eq_zero.mpr fun hmem => hnew (h.closed m hm p hmem)
        · exact List.count_eq_zero.mpr fun hmem => hnew (hdeps m hmem)
      have hnone : d.get? p = none := by simpa [Known] using hnew
      have hnil : d.successors p = [] := by simp [NodeInfos.successors, hnone]
      rw [hnil, hno p (.inr rfl)]
      by_cases hn : n = p ∨ d.Known n
      · rw [if_pos hn, hno n hn.symm]; simp
      · rw [if_neg hn]; simp
    · have hpk : d.Known p := ((known_addNode hnew hdeps p).mp hp).resolve_left hpn
      rw [h.successors p hpk hpdone n]
      by_cases hn : n = node
      · subst hn; simp [hnew, hpdone]
      · simp [hn]

/-- Marking ready nodes as passed out keeps the numbers right, since their predecessors are done. -/
theorem Counted.setOut (h : Counted dep d) (hready : d.IsReady node) :
    Counted dep (d.setNpredecessors node nodeOut) := by
  have hknown : d.Known node := known_of_npredecessors hready
  have hn := npredecessors_setNpredecessors hknown nodeOut
  have hdone : ∀ n, (d.setNpredecessors node nodeOut).IsDone n ↔ d.IsDone n := by
    intro n
    rw [IsDone, hn]
    by_cases hnn : n = node
    · subst hnn
      rw [if_pos rfl, IsDone, hready]
      decide
    · rw [if_neg hnn, IsDone]
  have hknown' : ∀ n, (d.setNpredecessors node nodeOut).Known n ↔ d.Known n := fun n => by simp [Known]
  refine ⟨?_, ?_, ?_, ?_⟩
  · intro n hk p hp
    exact (hknown' p).mpr (h.closed n ((hknown' n).mp hk) p hp)
  · intro n k hk
    rw [hn] at hk
    rw [unfinished_congr fun p _ => hdone p]
    by_cases hnn : n = node
    · rw [if_pos hnn] at hk
      exact .inl (Option.some.inj hk).symm
    · rw [if_neg hnn] at hk
      exact h.status n k hk
  · intro n hk p hp
    rw [hdone p]
    by_cases hnn : n = node
    · subst hnn
      rcases h.status n 0 hready with h0 | h0 | h0
      · exact absurd h0 (by decide)
      · exact absurd h0 (by decide)
      · exact unfinished_eq_zero.mp (by omega) p hp
    · rw [IsOut, hn, if_neg hnn, hdone n] at hk
      exact h.passed n hk p hp
  · intro p hp hpd n
    simp only [successors_setNpredecessors, hknown']
    exact h.successors p ((hknown' p).mp hp) (fun hd => hpd ((hdone p).mpr hd)) n

/-- Releasing successors takes one off a number for each time the node is listed, and lists those
that get to zero. -/
theorem releaseSuccessors_spec (ss : List α) (d : NodeInfos α) (ready : List α)
    (hcount : ∀ n ∈ ss, ∃ k, d.npredecessors n = some k ∧ (ss.count n : Int) ≤ k)
    (hnodup : ready.Nodup) (hready : ∀ n, n ∈ ready ↔ d.IsReady n) :
    ∃ d' ready', releaseSuccessors ss d ready = .ok (d', ready') ∧ ready'.Nodup ∧
      (∀ n, n ∈ ready' ↔ d'.IsReady n) ∧
      (∀ n, d'.npredecessors n = (d.npredecessors n).map (· - (ss.count n : Int))) ∧
      ∀ n, d'.successors n = d.successors n := by
  induction ss generalizing d ready with
  | nil => exact ⟨d, ready, rfl, hnodup, hready, by simp, fun _ => rfl⟩
  | cons s ss ih =>
    obtain ⟨k, hk, hle⟩ := hcount s (by simp)
    have hpos : 1 ≤ k := by simp at hle; omega
    have hn := npredecessors_setNpredecessors (known_of_npredecessors hk) (k - 1)
    have hnot : s ∉ ready := by
      rw [hready, IsReady, hk]
      simp only [Option.some.injEq]
      omega
    have hcount' : ∀ n ∈ ss, ∃ k', (d.setNpredecessors s (k - 1)).npredecessors n = some k' ∧
        (ss.count n : Int) ≤ k' := by
      intro n hmem
      obtain ⟨k', hk', hle'⟩ := hcount n (by simp [hmem])
      by_cases hns : n = s
      · subst hns
        refine ⟨k - 1, by rw [hn, if_pos rfl], ?_⟩
        simp at hle
        omega
      · exact ⟨k', by rw [hn, if_neg hns, hk'], by simpa [Ne.symm hns] using hle'⟩
    have hnodup' : (if k - 1 = 0 then ready ++ [s] else ready).Nodup := by
      split
      · exact List.nodup_append.mpr ⟨hnodup, by simp, by simpa using fun a ha (h : a = s) => hnot (h ▸ ha)⟩
      · exact hnodup
    have hready' : ∀ n, n ∈ (if k - 1 = 0 then ready ++ [s] else ready)
        ↔ (d.setNpredecessors s (k - 1)).IsReady n := by
      intro n
      rw [IsReady, hn]
      by_cases hns : n = s
      · subst hns
        split <;> simp_all
      · rw [if_neg hns]
        split <;> simp [hready, IsReady, hns]
    obtain ⟨d', ready', hrel, hnd, hr, hnp, hsucc⟩ := ih _ _ hcount' hnodup' hready'
    refine ⟨d', ready', by rw [releaseSuccessors, hk]; exact hrel, hnd, hr, fun n => ?_,
      fun n => by rw [hsucc, successors_setNpredecessors]⟩
    rw [hnp n, hn n]
    by_cases hns : n = s
    · subst hns
      simp [hk]
      omega
    · simp [hns, Ne.symm hns]

theorem count_le_unfinished (hnode : ¬ d.IsDone node) (ps : List α) : ps.count node ≤ d.unfinished ps := by
  refine List.countP_mono_left fun p _ hp => ?_
  obtain rfl : p = node := by simpa using hp
  simpa using hnode

theorem unfinished_add_count {d' : NodeInfos α} (hnode : ¬ d.IsDone node)
    (hdone : ∀ p, d'.IsDone p ↔ p = node ∨ d.IsDone p) (ps : List α) :
    d'.unfinished ps + ps.count node = d.unfinished ps := by
  induction ps with
  | nil => rfl
  | cons p ps ih =>
    rw [unfinished_cons, unfinished_cons, ← ih]
    by_cases hp : p = node
    · subst hp
      simp [hdone, hnode]
      omega
    · simp [hdone, hp]
      omega

theorem Counted.not_mem_of_passed (h : Counted dep d) (hnode : ¬ d.IsDone node)
    (hn : d.IsOut n ∨ d.IsDone n) : node ∉ dep n :=
  fun hmem => hnode (h.passed n hn node hmem)

theorem Counted.waiting_of_successor (h : Counted dep d) (hknown : d.Known node)
    (hnode : ¬ d.IsDone node) (hn : n ∈ d.successors node) :
    d.npredecessors n = some (d.unfinished (dep n) : Int) ∧
      (d.successors node).count n = (dep n).count node := by
  have hpos : 0 < (d.successors node).count n := List.count_pos_iff.mpr hn
  have hcount := h.successors node hknown hnode n
  by_cases hkn : d.Known n
  · rw [if_pos hkn] at hcount
    have hmem : node ∈ dep n := List.count_pos_iff.mp (by omega)
    obtain ⟨k, hk⟩ := known_iff.mp hkn
    refine ⟨?_, hcount⟩
    rcases h.status n k hk with rfl | rfl | rfl
    · exact absurd hmem (h.not_mem_of_passed hnode (.inl hk))
    · exact absurd hmem (h.not_mem_of_passed hnode (.inr hk))
    · exact hk
  · rw [if_neg hkn] at hcount
    omega

/-- What `done` changes: the node is done, those passed out or done stay so, and those waiting have
the node taken off their number. -/
structure Released (dep : α → List α) (d d' : NodeInfos α) (node : α) : Prop where
  isDone : d'.IsDone node
  passed : ∀ n, n ≠ node → d.IsOut n ∨ d.IsDone n → d'.npredecessors n = d.npredecessors n
  waiting : ∀ n, n ≠ node → d.npredecessors n = some (d.unfinished (dep n) : Int) →
    d'.npredecessors n = some ((d.unfinished (dep n) - (dep n).count node : Nat) : Int)
  known : ∀ n, d'.Known n ↔ d.Known n
  successors : ∀ n, d'.successors n = d.successors n

theorem Counted.release (h : Counted dep d) (hout : d.IsOut node) {ready}
    (hnodup : ready.Nodup) (hready : ∀ n, n ∈ ready ↔ d.IsReady n) :
    ∃ d' ready', releaseSuccessors (d.successors node) (d.setNpredecessors node nodeDone) ready = .ok (d', ready') ∧
      ready'.Nodup ∧ (∀ n, n ∈ ready' ↔ d'.IsReady n) ∧ Released dep d d' node := by
  have hknown : d.Known node := known_of_npredecessors hout
  have hnode : ¬ d.IsDone node := hout.not_done
  have hself : node ∉ d.successors node := by
    intro hmem
    have hw := (h.waiting_of_successor hknown hnode hmem).1
    rw [hout] at hw
    have := Option.some.inj hw
    simp only [nodeOut] at this
    omega
  have hset := npredecessors_setNpredecessors hknown nodeDone
  have hcount : ∀ n ∈ d.successors node, ∃ k,
      (d.setNpredecessors node nodeDone).npredecessors n = some k ∧ ((d.successors node).count n : Int) ≤ k := by
    intro n hn
    obtain ⟨hk, hc⟩ := h.waiting_of_successor hknown hnode hn
    have hne : n ≠ node := by
      rintro rfl
      exact hself hn
    refine ⟨_, by rw [hset, if_neg hne, hk], ?_⟩
    rw [hc]
    exact_mod_cast count_le_unfinished hnode (dep n)
  have hready₁ : ∀ n, n ∈ ready ↔ (d.setNpredecessors node nodeDone).IsReady n := by
    intro n
    rw [hready, IsReady, IsReady, hset]
    by_cases hn : n = node
    · subst hn
      rw [if_pos rfl, hout]
      decide
    · rw [if_neg hn]
  obtain ⟨d', ready', hrel, hnd, hr, hnp, hsucc⟩ := releaseSuccessors_spec _ _ _ hcount hnodup hready₁
  refine ⟨d', ready', hrel, hnd, hr, ?_, ?_, ?_, ?_, fun n => by rw [hsucc, successors_setNpredecessors]⟩
  · rw [IsDone, hnp, hset, if_pos rfl, List.count_eq_zero.mpr hself]
    rfl
  · intro n hn hp
    have hnot : n ∉ d.successors node := by
      intro hmem
      have hpos := List.count_pos_iff.mpr hmem
      rw [(h.waiting_of_successor hknown hnode hmem).2] at hpos
      exact h.not_mem_of_passed hnode hp (List.count_pos_iff.mp hpos)
    rw [hnp, hset, if_neg hn, List.count_eq_zero.mpr hnot]
    simp
  · intro n hn hw
    have hle := count_le_unfinished hnode (dep n)
    rw [hnp, hset, if_neg hn, hw, h.successors node hknown hnode, if_pos (known_of_npredecessors hw)]
    simp only [Option.map_some, Option.some.injEq]
    omega
  · intro n
    rw [known_iff, hnp, hset, known_iff]
    by_cases hn : n = node
    · subst hn
      simpa using ⟨_, hout⟩
    · rw [if_neg hn]
      simp

theorem Counted.cases (h : Counted dep d) (hn : d.Known n) :
    (d.IsOut n ∨ d.IsDone n) ∨ d.npredecessors n = some (d.unfinished (dep n) : Int) := by
  obtain ⟨k, hk⟩ := known_iff.mp hn
  rcases h.status n k hk with rfl | rfl | rfl
  · exact .inl (.inl hk)
  · exact .inl (.inr hk)
  · exact .inr hk

section

variable {dep : α → List α} {d' : NodeInfos α} (h : Counted dep d) (hout : d.IsOut node)
  (hrel : Released dep d d' node)

include h hrel

/-- Away from the node, the marks `_NODE_OUT` and `_NODE_DONE` stay where they are. -/
theorem Released.mark_iff {mark} (hmark : mark = nodeOut ∨ mark = nodeDone) (hn : n ≠ node) :
    d'.npredecessors n = some mark ↔ d.npredecessors n = some mark := by
  have hneg : mark < 0 := by rcases hmark with rfl | rfl <;> decide
  by_cases hk : d.Known n
  · rcases h.cases hk with hp | hw
    · rw [hrel.passed n hn hp]
    · rw [hrel.waiting n hn hw, hw]
      simp only [Option.some.injEq]
      omega
  · refine iff_of_false (fun hm => hk ?_) fun hm => hk (known_of_npredecessors hm)
    exact (hrel.known n).mp (known_of_npredecessors hm)

theorem Released.isDone_iff : d'.IsDone n ↔ n = node ∨ d.IsDone n := by
  by_cases hn : n = node
  · subst hn
    exact iff_of_true hrel.isDone (.inl rfl)
  · rw [IsDone, hrel.mark_iff h (.inr rfl) hn]
    simp [hn, IsDone]

theorem Released.isOut_iff : d'.IsOut n ↔ n ≠ node ∧ d.IsOut n := by
  by_cases hn : n = node
  · subst hn
    exact iff_of_false (fun ho => ho.not_done hrel.isDone) fun ho => ho.1 rfl
  · rw [IsOut, hrel.mark_iff h (.inl rfl) hn]
    simp [hn, IsOut]

include hout

theorem Released.counted : Counted dep d' := by
  have hdone : ∀ p, d'.IsDone p ↔ p = node ∨ d.IsDone p := fun p => hrel.isDone_iff h
  refine ⟨?_, ?_, ?_, ?_⟩
  · intro n hn p hp
    exact (hrel.known p).mpr (h.closed n ((hrel.known n).mp hn) p hp)
  · intro n k hk
    by_cases hn : n = node
    · subst hn
      rw [hrel.isDone] at hk
      exact .inr (.inl (Option.some.inj hk).symm)
    · rcases h.cases ((hrel.known n).mp (known_of_npredecessors hk)) with hp | hw
      · rw [hrel.passed n hn hp] at hk
        rcases hp with ho | hd
        · rw [ho] at hk
          exact .inl (Option.some.inj hk).symm
        · rw [hd] at hk
          exact .inr (.inl (Option.some.inj hk).symm)
      · rw [hrel.waiting n hn hw] at hk
        have hsum := unfinished_add_count hout.not_done hdone (dep n)
        refine .inr (.inr ?_)
        rw [← Option.some.inj hk]
        omega
  · intro n hn p hp
    rw [hdone p]
    by_cases hnn : n = node
    · subst hnn
      exact .inr (h.passed n (.inl hout) p hp)
    · rw [hrel.isOut_iff h, hdone n] at hn
      exact .inr (h.passed n (hn.imp And.right (Or.resolve_left · hnn)) p hp)
  · intro p hp hpd n
    rw [hdone p, not_or] at hpd
    simp only [hrel.successors, hrel.known]
    exact h.successors p ((hrel.known p).mp hp) hpd.2 n

end

end NodeInfos

/-! ## Valid sorters -/

namespace TopologicalSorter

open NodeInfos (Known IsOut IsDone IsReady Counted)

/-- The sorter is right for the dependencies `dep`, and prepared. -/
structure Valid (dep : α → List α) (t : TopologicalSorter α) : Prop where
  prepared : t.needsPrepare = false
  counted : Counted dep t.node2info
  nodup : t.readyNodes.Nodup
  ready : ∀ n, n ∈ t.readyNodes ↔ IsReady t.node2info n

variable {dep : α → List α} {t : TopologicalSorter α}

theorem mem_ready_prepare (d : NodeInfos α) (n : α) :
    n ∈ (d.entries.filter fun e => e.2.npredecessors = 0).map Prod.fst ↔ IsReady d n := by
  simp only [List.mem_map, List.mem_filter, decide_eq_true_eq, IsReady, NodeInfos.npredecessors,
    Option.map_eq_some_iff, Dict.get?_eq_some_iff]
  constructor
  · rintro ⟨⟨n, info⟩, ⟨hmem, hzero⟩, rfl⟩
    exact ⟨info, hmem, hzero⟩
  · rintro ⟨info, hmem, hzero⟩
    exact ⟨(n, info), ⟨hmem, hzero⟩, rfl⟩

theorem valid_prepare (hneeds : t.needsPrepare = true) (h : Counted dep t.node2info) : Valid dep t.prepare := by
  have hsub := (t.node2info.entries.filter_sublist (p := fun e => e.2.npredecessors = 0)).map Prod.fst
  simp only [prepare, hneeds, if_true]
  exact ⟨rfl, h, hsub.nodup t.node2info.nodup, mem_ready_prepare t.node2info⟩

theorem Valid.prepare (h : Valid dep t) : t.prepare = t := by
  simp [TopologicalSorter.prepare, h.prepared]

omit [DecidableEq α] in
@[simp] theorem prepare_node2info (t : TopologicalSorter α) : t.prepare.node2info = t.node2info := by
  unfold TopologicalSorter.prepare
  split <;> rfl

theorem counted_setOut (ns : List α) (d : NodeInfos α) (h : Counted dep d) (hnodup : ns.Nodup)
    (hready : ∀ n ∈ ns, IsReady d n) :
    Counted dep (ns.foldl (fun d n => d.setNpredecessors n nodeOut) d) ∧
      ∀ n, NodeInfos.npredecessors (ns.foldl (fun d n => d.setNpredecessors n nodeOut) d) n
        = if n ∈ ns then some nodeOut else d.npredecessors n := by
  induction ns generalizing d with
  | nil => exact ⟨h, by simp⟩
  | cons m ns ih =>
    rw [List.nodup_cons] at hnodup
    have hm := hready m (by simp)
    have hset := NodeInfos.npredecessors_setNpredecessors (NodeInfos.known_of_npredecessors hm) nodeOut
    have hready' : ∀ n ∈ ns, IsReady (d.setNpredecessors m nodeOut) n := by
      intro n hn
      have hne : n ≠ m := by
        rintro rfl
        exact hnodup.1 hn
      rw [IsReady, hset, if_neg hne]
      exact hready n (by simp [hn])
    obtain ⟨hc, hnp⟩ := ih _ (h.setOut hm) hnodup.2 hready'
    refine ⟨hc, fun n => ?_⟩
    rw [List.foldl_cons, hnp, hset]
    by_cases hn : n = m <;> simp [hn]

/-- **`get_ready`** passes out exactly the ready nodes. -/
theorem Valid.getReady (h : Valid dep t) : ∃ t', t.getReady = .ok (t.readyNodes, t') ∧ Valid dep t' ∧
    (∀ n, Known t'.node2info n ↔ Known t.node2info n) ∧ (∀ n, IsDone t'.node2info n ↔ IsDone t.node2info n) ∧
    (∀ n, IsOut t'.node2info n ↔ n ∈ t.readyNodes ∨ IsOut t.node2info n) ∧ t'.readyNodes = [] := by
  obtain ⟨hc, hnp⟩ := counted_setOut t.readyNodes t.node2info h.counted h.nodup fun n hn => (h.ready n).mp hn
  have hzero : ∀ n ∈ t.readyNodes, t.node2info.npredecessors n = some 0 := fun n hn => (h.ready n).mp hn
  have hprep : ¬ t.needsPrepare = true := by simp [h.prepared]
  refine ⟨_, if_neg hprep, ⟨h.prepared, hc, List.nodup_nil, ?_⟩, ?_, ?_, ?_, rfl⟩
  · intro n
    simp only [IsReady, hnp]
    by_cases hn : n ∈ t.readyNodes
    · simp [hn, nodeOut]
    · simpa [hn, IsReady] using fun hr => hn ((h.ready n).mpr hr)
  · intro n
    simp only [NodeInfos.known_iff, hnp]
    by_cases hn : n ∈ t.readyNodes
    · simp [hn, hzero n hn]
    · simp [hn]
  · intro n
    simp only [IsDone, hnp]
    by_cases hn : n ∈ t.readyNodes
    · simp [hn, hzero n hn, nodeOut, nodeDone]
    · simp [hn]
  · intro n
    simp only [IsOut, hnp]
    by_cases hn : n ∈ t.readyNodes <;> simp [hn]

/-- **`done`** does not raise for a node that is passed out, and marks it. -/
theorem Valid.done [ToString α] (h : Valid dep t) {node} (hout : IsOut t.node2info node) :
    ∃ t', t.done [node] = .ok t' ∧ Valid dep t' ∧ (∀ n, Known t'.node2info n ↔ Known t.node2info n) ∧
      (∀ n, IsDone t'.node2info n ↔ n = node ∨ IsDone t.node2info n) ∧
      ∀ n, IsOut t'.node2info n ↔ n ≠ node ∧ IsOut t.node2info n := by
  obtain ⟨d', ready', hrelease, hnodup, hready, hrel⟩ := h.counted.release hout h.nodup h.ready
  refine ⟨{ t with node2info := d', readyNodes := ready', nfinished := t.nfinished + 1 }, ?_,
    ⟨h.prepared, hrel.counted h.counted hout, hnodup, hready⟩, hrel.known,
    fun n => hrel.isDone_iff h.counted, fun n => hrel.isOut_iff h.counted⟩
  have hnode : t.doneNode node
      = .ok { t with node2info := d', readyNodes := ready', nfinished := t.nfinished + 1 } := by
    have hstat : NodeInfos.npredecessors t.node2info node = some nodeOut := hout
    rw [doneNode, hstat]
    simp only [ne_eq, not_true_eq_false, if_false, hrelease]
    rfl
  have hprep : ¬ t.needsPrepare = true := by simp [h.prepared]
  rw [TopologicalSorter.done, if_neg hprep, List.foldlM_cons, hnode]
  rfl

/-- **Nothing is forgotten**: when no node is ready and none is passed out, every node is done,
provided the dependencies are acyclic. -/
theorem Valid.all_done (h : Valid dep t) (rank : α → Nat) (hrank : ∀ n, ∀ p ∈ dep n, rank p < rank n)
    (hready : t.readyNodes = []) (hout : ∀ n, ¬ IsOut t.node2info n) (n : α) (hn : Known t.node2info n) :
    IsDone t.node2info n := by
  induction hr : rank n using Nat.strong_induction_on generalizing n with
  | _ r ih =>
    subst hr
    rcases h.counted.cases hn with (ho | hd) | hw
    · exact absurd ho (hout n)
    · exact hd
    · have hdeps : ∀ p ∈ dep n, IsDone t.node2info p :=
        fun p hp => ih (rank p) (hrank n p hp) p (h.counted.closed n hn p hp) rfl
      rw [NodeInfos.unfinished_eq_zero.mpr hdeps] at hw
      have hmem := (h.ready n).mpr hw
      rw [hready] at hmem
      cases hmem

end TopologicalSorter

end Osprey
