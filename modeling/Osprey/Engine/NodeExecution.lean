/-
How the executor runs one node, or a batch of nodes: `_wrapped_execution`
and `_wrapped_batch_execution` turn whatever happens into node results and a
list of errors to report.
-/
import Osprey.Engine.Basic

namespace Osprey

/-- Nodes are told apart by identity, as `id(node)` does. -/
abbrev NodeId := Nat

structure NodeErrorInfo where
  error : Exc
  node : NodeId
  deriving DecidableEq, Repr

variable {V : Type*}

/-- A failure to report: a propagated one is not its root cause. -/
def errorInfo (e : Exc) (node : NodeId) : List NodeErrorInfo :=
  if e.cls = .nodeFailurePropagation then [] else [⟨e, node⟩]

/-- `_wrapped_execution`: `outcome` is what `chain.executor.execute` did. -/
def wrappedExecution (node : NodeId) (outcome : Except Exc V) : NodeResult V × List NodeErrorInfo :=
  match outcome with
  | .ok v => (.ok v, [])
  | .error e => (.err, errorInfo e node)

/-- The loop over the results of a batch: a failed result, or one that its own
`check_result_type` refuses, becomes `Err(None)`. -/
def checkResults (checkResultType : NodeId → V → Except Exc V) :
    List (NodeId × Except Exc V) → List (NodeResult V) × List NodeErrorInfo
  | [] => ([], [])
  | (node, result) :: rest =>
    let (r, errs) := wrappedExecution node (result.bind (checkResultType node))
    let (rs, errs') := checkResults checkResultType rest
    (r :: rs, errs ++ errs')

/-- `_wrapped_batch_execution`: `outcome` is what `udfs[0].execute_batch` did
for `nodes`. A batch that raises, or answers with the wrong number of
results, fails for all its nodes. -/
def wrappedBatchExecution (checkResultType : NodeId → V → Except Exc V) (nodes : List NodeId)
    (outcome : Except Exc (List (Except Exc V))) : List (NodeResult V) × List NodeErrorInfo :=
  let failAll (e : Exc) := (nodes.map fun _ => NodeResult.err, nodes.flatMap (errorInfo e))
  match outcome with
  | .error e => failAll e
  | .ok results =>
    if results.length = nodes.length then checkResults checkResultType (nodes.zip results)
    else failAll ⟨.assertionError,
      "_wrapped_batch_execution invariant: results must be the same length as the number of executions"⟩

theorem checkResults_fst (check : NodeId → V → Except Exc V) : ∀ rs : List (NodeId × Except Exc V),
    (checkResults check rs).1 = rs.map fun r => (wrappedExecution r.1 (r.2.bind (check r.1))).1
  | [] => rfl
  | (node, result) :: rest => by
    rw [checkResults, List.map_cons, ← checkResults_fst check rest]

theorem wrappedBatchExecution_length (check : NodeId → V → Except Exc V) (nodes : List NodeId)
    (outcome : Except Exc (List (Except Exc V))) :
    (wrappedBatchExecution check nodes outcome).1.length = nodes.length := by
  unfold wrappedBatchExecution
  cases outcome with
  | error e => simp
  | ok results =>
    dsimp only
    split
    · next h => simp [checkResults_fst, h]
    · simp

end Osprey
