/-
`execute`, the executor: a loop that runs the ready chains, some of them in
greenlets, alone or in batches, while the chains that run may enqueue further
sources.

The main greenlet runs without interruption up to `gevent.wait`,
`gevent.sleep` or the execution of a chain, so a step of the system is one
such stretch, or a move of a greenlet: it starts, it enqueues a source, it
finishes. What the chains do is not fixed: a step says what the execution of
a chain or batch gave, and whether the arguments of a batchable call could be
resolved.
-/
import Osprey.Engine.ExecutionContext

namespace Osprey.Executor

open Lib (Dict)

variable {g : ExecutionGraph} {V : Type}

/-! ## States -/

inductive Status (V : Type)
  | spawned
  | running
  | finished (results : List (NodeResult V))

/-- A greenlet of the pool, with the chains it executes: one, or those of a batch. -/
structure Greenlet (n : Nat) (V : Type) where
  id : Nat
  chains : List (Fin n)
  status : Status V := .spawned

inductive Phase (n : Nat)
  /-- At the head of the loop. -/
  | top (readySync readyAsync : List (Fin n))
  /-- In `gevent.wait`; some batches had finished before. -/
  | waiting (finishedBatches : List Nat)
  /-- In the loop over `ready_sync`, with the chains that follow. -/
  | syncLoop (readySync : List (Fin n))
  /-- In the execution of a chain in that loop. -/
  | executing (chain : Fin n) (readySync : List (Fin n))
  /-- After the loop. -/
  | exited
  deriving DecidableEq

structure State (g : ExecutionGraph) (V : Type) where
  context : ExecutionContext g V
  errorInfos : List NodeErrorInfo := []
  inProgressAsyncSinglets : List (Greenlet g.size V) := []
  inProgressAsyncBatches : List (Greenlet g.size V) := []
  nextGreenlet : Nat := 0
  phase : Phase g.size := .syncLoop []

/-- Whether there is an `async_pool`, and `check_result_type` of the UDFs. -/
structure Config (V : Type) where
  allowAsync : Bool
  checkResultType : NodeId → V → Except Exc V

inductive Label (V : Type)
  /-- The main greenlet goes on from the head of the loop. -/
  | loop (routingKey : Nat → Except Exc String)
  /-- `gevent.wait` returns the greenlet. -/
  | wake (id : Nat)
  /-- The next chain of `ready_sync` is executed. -/
  | executeSync
  | finishSync (outcome : Except Exc V)
  /-- The round ends, `_get_ready_sync_and_async` begins the next. -/
  | getReady
  | startSinglet (id : Nat)
  | startBatch (id : Nat)
  | finishSinglet (id : Nat) (outcome : Except Exc V)
  | finishBatch (id : Nat) (outcome : Except Exc (List (Except Exc V)))
  /-- A chain that is being executed enqueues a source, as `Import` and `Require` do. -/
  | enqueue (source : String)

/-! ## Greenlets -/

namespace Greenlet

variable {n : Nat}

def isSpawned (gl : Greenlet n V) : Bool := match gl.status with
  | .spawned => true
  | _ => false

def isRunning (gl : Greenlet n V) : Bool := match gl.status with
  | .running => true
  | _ => false

/-- `greenlet.ready()`. -/
def ready (gl : Greenlet n V) : Bool := match gl.status with
  | .finished _ => true
  | _ => false

def start (gl : Greenlet n V) : Greenlet n V := { gl with status := .running }

def finish (gl : Greenlet n V) (results : List (NodeResult V)) : Greenlet n V :=
  { gl with status := .finished results }

end Greenlet

/-- `set_resolved_value(chain, results[i])` for each chain. -/
def setResolvedValues (ctx : ExecutionContext g V) : List (Fin g.size) → List (NodeResult V) →
    Except Exc (ExecutionContext g V)
  | [], _ => .ok ctx
  | _ :: _, [] => .error ⟨.indexError, "list index out of range"⟩
  | chain :: chains, result :: results => do
    let ctx ← ctx.setResolvedValue chain result
    setResolvedValues ctx chains results

/-- The finished greenlets among those picked are popped, and their results stored. -/
def popFinished (pick : Nat → Bool) : List (Greenlet g.size V) → ExecutionContext g V →
    Except Exc (ExecutionContext g V × List (Greenlet g.size V))
  | [], ctx => .ok (ctx, [])
  | gl :: rest, ctx => match gl.status with
    | .finished results =>
      if pick gl.id then do
        let ctx ← setResolvedValues ctx gl.chains results
        popFinished pick rest ctx
      else do
        let (ctx, kept) ← popFinished pick rest ctx
        return (ctx, gl :: kept)
    | _ => do
      let (ctx, kept) ← popFinished pick rest ctx
      return (ctx, gl :: kept)

def logStarted (ctx : ExecutionContext g V) (chains : List (Fin g.size)) : ExecutionContext g V :=
  chains.foldl (fun ctx c => ctx.log (.started c)) ctx

def startGreenlet (id : Nat) : List (Greenlet g.size V) → ExecutionContext g V →
    ExecutionContext g V × List (Greenlet g.size V)
  | [], ctx => (ctx, [])
  | gl :: rest, ctx =>
    if gl.id = id ∧ gl.isSpawned then (logStarted ctx gl.chains, gl.start :: rest)
    else
      let (ctx, rest) := startGreenlet id rest ctx
      (ctx, gl :: rest)

/-- The greenlet finishes, if it is running; `execution` gives the results for its chains and the
errors to report. -/
def finishGreenlet (id : Nat) (execution : List (Fin g.size) → List (NodeResult V) × List NodeErrorInfo) :
    List (Greenlet g.size V) → List (Greenlet g.size V) × List NodeErrorInfo
  | [] => ([], [])
  | gl :: rest =>
    if gl.id = id ∧ gl.isRunning then (gl.finish (execution gl.chains).1 :: rest, (execution gl.chains).2)
    else
      let (rest, errorInfos) := finishGreenlet id execution rest
      (gl :: rest, errorInfos)

/-! ## Batches -/

/-- What `_enqueue_batches` has put together: the context, with the chains resolved whose arguments
failed, the errors, the groups by batch type and routing key, and `chains_to_remove`. -/
structure Batching (g : ExecutionGraph) (V : Type) where
  context : ExecutionContext g V
  errorInfos : List NodeErrorInfo
  batchChains : Dict (String × String) (List (Fin g.size))
  chainsToRemove : List (Fin g.size)

/-- The first loop of `_enqueue_batches`. -/
def groupBatches (routingKey : Nat → Except Exc String) : List (Fin g.size) → Batching g V →
    Except Exc (Batching g V)
  | [], b => .ok b
  | chain :: rest, b => match (g.executor chain).batchType with
    | none => groupBatches routingKey rest b
    | some batchType => match routingKey chain with
      | .ok key =>
        groupBatches routingKey rest { b with batchChains := b.batchChains.appendAt (batchType, key) [chain] }
      | .error e => do
        let ctx ← (b.context.log (.argumentsFailed chain)).setResolvedValue chain .err
        groupBatches routingKey rest { b with
          context := ctx
          errorInfos := b.errorInfos ++ errorInfo e chain
          chainsToRemove := b.chainsToRemove ++ [chain] }

/-- The groups that are executed as a batch. -/
def Batching.batches (b : Batching g V) : List (List (Fin g.size)) :=
  b.batchChains.values.filter fun chains => ¬ chains.length < 2

def spawn (first : Nat) (tasks : List (List (Fin g.size))) : List (Greenlet g.size V) :=
  tasks.zipIdx.map fun (chains, i) => { id := first + i, chains := chains }

/-- `_enqueue_batches`, and after it the remaining ready chains as greenlets of their own. -/
def enqueueAsync (s : State g V) (routingKey : Nat → Except Exc String) (readyAsync : List (Fin g.size)) :
    Except Exc (State g V) := do
  let b ← groupBatches routingKey readyAsync ⟨s.context, s.errorInfos, Dict.empty, []⟩
  let chainsToRemove := b.chainsToRemove ++ b.batches.flatten
  let remaining := readyAsync.filter fun chain => !chainsToRemove.contains chain
  return { s with
    context := b.context
    errorInfos := b.errorInfos
    inProgressAsyncBatches := s.inProgressAsyncBatches ++ spawn s.nextGreenlet b.batches
    inProgressAsyncSinglets :=
      s.inProgressAsyncSinglets ++ spawn (s.nextGreenlet + b.batches.length) (remaining.map ([·]))
    nextGreenlet := s.nextGreenlet + b.batches.length + remaining.length }

/-- The same, if there is a pool. -/
def enqueueReady (cfg : Config V) (s : State g V) (routingKey : Nat → Except Exc String)
    (readyAsync : List (Fin g.size)) : Except Exc (State g V) :=
  if cfg.allowAsync then enqueueAsync s routingKey readyAsync else .ok s

/-! ## Steps -/

/-- The picked greenlets that have finished are handled, singlets first. -/
def handleFinished (s : State g V) (pickSinglet pickBatch : Nat → Bool) : Except Exc (State g V) := do
  let (ctx, singlets) ← popFinished pickSinglet s.inProgressAsyncSinglets s.context
  let (ctx, batches) ← popFinished pickBatch s.inProgressAsyncBatches ctx
  return { s with context := ctx, inProgressAsyncSinglets := singlets, inProgressAsyncBatches := batches }

/-- The body of the loop up to the loop over `ready_sync`, when a chain is ready. -/
def round (cfg : Config V) (s : State g V) (routingKey : Nat → Except Exc String)
    (readySync readyAsync : List (Fin g.size)) : Except Exc (State g V) := do
  let s ← handleFinished s (fun _ => true) (fun _ => true)
  let s ← enqueueReady cfg s routingKey readyAsync
  return { s with phase := .syncLoop readySync }

def getReadySyncAndAsync (allowAsync : Bool) (ctx : ExecutionContext g V) :
    Except Exc (List (Fin g.size) × List (Fin g.size) × ExecutionContext g V) := do
  let (ready, ctx) ← ctx.getReadyToExecute
  let isAsync := fun c => (g.executor c).executeAsync && allowAsync
  return (ready.filter fun c => ¬ isAsync c, ready.filter isAsync, ctx)

def State.executing (s : State g V) : Bool :=
  s.inProgressAsyncSinglets.any Greenlet.isRunning || s.inProgressAsyncBatches.any Greenlet.isRunning ||
    match s.phase with
    | .executing .. => true
    | _ => false

/-- One step. A label that does not fit the state does nothing. -/
def next (cfg : Config V) (s : State g V) : Label V → Except Exc (State g V)
  | .loop routingKey => match s.phase with
    | .top readySync readyAsync =>
      if readySync.isEmpty && readyAsync.isEmpty then
        .ok { s with phase := .waiting ((s.inProgressAsyncBatches.filter Greenlet.ready).map Greenlet.id) }
      else round cfg s routingKey readySync readyAsync
    | _ => .ok s
  | .wake id => match s.phase with
    | .waiting finishedBatches =>
      -- It waits for a singlet if there is one in progress, and else for a batch.
      if s.inProgressAsyncSinglets.isEmpty then
        if s.inProgressAsyncBatches.any fun gl => gl.id = id && gl.ready then do
          let s ← handleFinished s (fun _ => false) (· = id)
          return { s with phase := .syncLoop [] }
        else .ok s
      else if s.inProgressAsyncSinglets.any fun gl => gl.id = id && gl.ready then do
        let s ← handleFinished s (· = id) (· ∈ finishedBatches)
        return { s with phase := .syncLoop [] }
      else .ok s
    | _ => .ok s
  | .executeSync => match s.phase with
    | .syncLoop (chain :: readySync) =>
      .ok { s with context := s.context.log (.started chain), phase := .executing chain readySync }
    | _ => .ok s
  | .finishSync outcome => match s.phase with
    | .executing chain readySync => do
      let ctx ← s.context.setResolvedValue chain (wrappedExecution chain outcome).1
      return { s with
        context := ctx
        errorInfos := s.errorInfos ++ (wrappedExecution (V := V) chain outcome).2
        phase := .syncLoop readySync }
    | _ => .ok s
  | .getReady => match s.phase with
    | .syncLoop [] => do
      let (readySync, readyAsync, ctx) ← getReadySyncAndAsync cfg.allowAsync s.context
      let exits := readySync.isEmpty && readyAsync.isEmpty && s.inProgressAsyncSinglets.isEmpty &&
        s.inProgressAsyncBatches.isEmpty
      return { s with context := ctx, phase := if exits then .exited else .top readySync readyAsync }
    | _ => .ok s
  | .startSinglet id =>
    let (ctx, singlets) := startGreenlet id s.inProgressAsyncSinglets s.context
    .ok { s with context := ctx, inProgressAsyncSinglets := singlets }
  | .startBatch id =>
    let (ctx, batches) := startGreenlet id s.inProgressAsyncBatches s.context
    .ok { s with context := ctx, inProgressAsyncBatches := batches }
  | .finishSinglet id outcome =>
    let execution := fun chains => (chains.map fun c => (wrappedExecution c.val outcome).1,
      chains.flatMap fun c => (wrappedExecution c.val outcome).2)
    let (singlets, errorInfos) := finishGreenlet id execution s.inProgressAsyncSinglets
    .ok { s with inProgressAsyncSinglets := singlets, errorInfos := s.errorInfos ++ errorInfos }
  | .finishBatch id outcome =>
    let execution := fun chains => wrappedBatchExecution cfg.checkResultType (chains.map Fin.val) outcome
    let (batches, errorInfos) := finishGreenlet id execution s.inProgressAsyncBatches
    .ok { s with inProgressAsyncBatches := batches, errorInfos := s.errorInfos ++ errorInfos }
  | .enqueue source =>
    if s.executing && (g.statementChains source).isSome then do
      return { s with context := ← s.context.enqueueSource source }
    else .ok s

def run (cfg : Config V) (g : ExecutionGraph) (labels : List (Label V)) : Except Exc (State g V) := do
  let ctx ← ExecutionContext.new g V
  labels.foldlM (next cfg) { context := ctx }

end Osprey.Executor
