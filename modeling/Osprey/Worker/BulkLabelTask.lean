/-
A bulk label task and the workers that process it: the row in Postgres, and the
`BulkLabelSink`s that claim it, collect entity ids and label them one by one.

A claim only lasts until `claim_until`, so a task can be claimed again while an
earlier worker is still at it. Every worker has its own copy of the row, as the
ORM loads it: the copy is forgotten at each commit, loaded again when a column is
read, and a commit writes the columns that were set to another value than the
loaded one. Between two commits other workers may write.

Workers crash, raise and outlive their claims at any point. The progress of the
task is the one number `entities_labeled`, written by whoever heartbeats, lower
than before or not.
-/
import Mathlib.Data.Finset.Sort
import Mathlib.Data.Rat.Floor
import Mathlib.Data.String.Basic
import Osprey.Engine.Basic
import Osprey.Lib.Run

namespace Osprey.BulkLabel

/-! ## Rows -/

inductive TaskStatus
  | queued
  | runningDeprecated
  | collecting
  | labelling
  | complete
  | retrying
  | failed
  deriving DecidableEq, Repr

def TaskStatus.isFinal : TaskStatus → Bool
  | complete | failed => true
  | _ => false

/-- `self in TaskStatus.non_final_statuses()`. -/
def TaskStatus.isNonFinal (s : TaskStatus) : Bool := !s.isFinal && s ≠ .runningDeprecated

/-- The columns of a `BulkLabelTask` that change. -/
structure Row where
  taskStatus : TaskStatus := .queued
  entitiesCollected : Nat := 0
  entitiesLabeled : Nat := 0
  totalEntitiesToLabel : Option Nat := none
  expectedTotalEntitiesToLabel : Int
  claimUntil : Time
  result : Option String := none
  attempts : Nat := 0
  updatedAt : Time
  deriving DecidableEq, Repr

def Row.enqueue (expectedTotalEntitiesToLabel : Int) (now : Time) : Row :=
  { expectedTotalEntitiesToLabel, claimUntil := now, updatedAt := now }

def baseDelaySeconds : Nat := 60 * 3

/-- `_calculate_lock_seconds`, in microseconds; `jitterPercent` is `1 + random()`. -/
def calculateLockSeconds (attempts : Nat) (jitterPercent : Rat) : Rat :=
  2 ^ attempts * baseDelaySeconds * jitterPercent * 1000000

/-- The condition of the subquery of `claim`. -/
def Row.claimable (maxAttempts : Nat) (row : Row) (now : Time) (jitterPercent : Rat) : Bool :=
  row.claimUntil < now && row.taskStatus.isNonFinal && row.attempts ≤ maxAttempts &&
    (row.taskStatus = .retrying && calculateLockSeconds row.attempts jitterPercent < now - row.updatedAt ||
      row.taskStatus ≠ .retrying)

/-- `BulkLabelTask.claim`: the row afterwards. Each call of `random` gives a jitter of its own. -/
def Row.claim (maxAttempts : Nat) (row : Row) (now : Time) (retryJitter lockJitter : Rat) : Option Row :=
  if row.claimable maxAttempts now retryJitter then
    some { row with
      claimUntil := now + ⌊calculateLockSeconds 0 lockJitter⌋
      attempts := row.attempts + 1
      taskStatus := .collecting
      updatedAt := now }
  else none

/-! ## Copies of a row -/

/-- The columns that were set and not written yet. -/
structure Changes where
  taskStatus : Option TaskStatus := none
  entitiesCollected : Option Nat := none
  entitiesLabeled : Option Nat := none
  totalEntitiesToLabel : Option (Option Nat) := none
  expectedTotalEntitiesToLabel : Option Int := none
  claimUntil : Option Time := none
  result : Option (Option String) := none
  updatedAt : Option Time := none
  deriving DecidableEq, Repr

def Changes.write (c : Changes) (row : Row) : Row where
  taskStatus := c.taskStatus.getD row.taskStatus
  entitiesCollected := c.entitiesCollected.getD row.entitiesCollected
  entitiesLabeled := c.entitiesLabeled.getD row.entitiesLabeled
  totalEntitiesToLabel := c.totalEntitiesToLabel.getD row.totalEntitiesToLabel
  expectedTotalEntitiesToLabel := c.expectedTotalEntitiesToLabel.getD row.expectedTotalEntitiesToLabel
  claimUntil := c.claimUntil.getD row.claimUntil
  result := c.result.getD row.result
  attempts := row.attempts
  updatedAt := c.updatedAt.getD row.updatedAt

/-- Setting a column to the value that was loaded is no change. -/
def setColumn {α : Type} [DecidableEq α] (loaded pending new : Option α) : Option α :=
  match new with
  | none => pending
  | some v => if loaded = some v then none else some v

/-- A worker's copy of the row: what was loaded since the last commit, and what was set. -/
structure Copy where
  loaded : Option Row := none
  pending : Changes := {}
  deriving DecidableEq, Repr

namespace Copy

/-- The columns as the worker reads them; what is not loaded is loaded now. -/
def read (c : Copy) (row : Row) : Row := c.pending.write (c.loaded.getD row)

def load (c : Copy) (row : Row) : Copy := { c with loaded := some (c.loaded.getD row) }

def set (c : Copy) (new : Changes) : Copy where
  loaded := c.loaded
  pending :=
    { taskStatus := setColumn (c.loaded.map Row.taskStatus) c.pending.taskStatus new.taskStatus
      entitiesCollected :=
        setColumn (c.loaded.map Row.entitiesCollected) c.pending.entitiesCollected new.entitiesCollected
      entitiesLabeled := setColumn (c.loaded.map Row.entitiesLabeled) c.pending.entitiesLabeled new.entitiesLabeled
      totalEntitiesToLabel :=
        setColumn (c.loaded.map Row.totalEntitiesToLabel) c.pending.totalEntitiesToLabel new.totalEntitiesToLabel
      expectedTotalEntitiesToLabel := setColumn (c.loaded.map Row.expectedTotalEntitiesToLabel)
        c.pending.expectedTotalEntitiesToLabel new.expectedTotalEntitiesToLabel
      -- `func.now()` is an expression, not a value that was loaded.
      claimUntil := new.claimUntil.or c.pending.claimUntil
      result := setColumn (c.loaded.map Row.result) c.pending.result new.result
      updatedAt := new.updatedAt.or c.pending.updatedAt }

/-- The total is set where the worker has read none, or zero. -/
def setTotal (c : Copy) (row : Row) (total : Nat) : Copy :=
  if (c.read row).totalEntitiesToLabel.getD 0 = 0 then
    (c.load row).set { totalEntitiesToLabel := some (some total) }
  else c.load row

/-- `session.commit()`: the row afterwards. The copy is forgotten. -/
def commit (c : Copy) (row : Row) : Row := c.pending.write row

/-- What `heartbeat` sets, for one of the statuses that it is called with. -/
def heartbeatChanges (collecting : Bool) (newEntityCount : Nat) (now : Time) (claimUntilSeconds : Nat) : Changes where
  taskStatus := some (if collecting then .collecting else .labelling)
  entitiesCollected := if collecting then some newEntityCount else none
  entitiesLabeled := if collecting then none else some newEntityCount
  claimUntil := some (now + seconds claimUntilSeconds)

/-- `BulkLabelTask.heartbeat`, which reads the status before it sets it: the row afterwards. -/
def heartbeat (c : Copy) (row : Row) (collecting : Bool) (newEntityCount : Nat) (now : Time)
    (claimUntilSeconds : Nat) : Row :=
  ((c.load row).set (heartbeatChanges collecting newEntityCount now claimUntilSeconds)).commit row

/-- `BulkLabelTask.release`: the row afterwards. -/
def release (c : Copy) (row : Row) (status : TaskStatus) (result : Option String) (now : Time) : Row :=
  (c.set { taskStatus := some status, result := some result, updatedAt := some now }).commit row

end Copy

/-! ## Workers -/

abbrev WorkerId := Nat

/-- Where a worker is in `run` and `_process_task`. -/
inductive Phase
  /-- It has claimed the task. -/
  | claimed
  /-- In `_collect_entity_ids`. -/
  | collecting
  /-- In the body of the loop over `range(…, stop)`, at `index`. -/
  | labelling (entityIds : List String) (index stop : Nat)
  /-- In `iterate_entity_indices`, after the body at `index`. -/
  | labelled (entityIds : List String) (index stop : Nat)
  /-- After the loop of `iterate_entity_indices`. -/
  | finished
  /-- After its last heartbeat. -/
  | completing
  /-- After `release(COMPLETE)`. -/
  | sending
  deriving DecidableEq, Repr

def Phase.inTry : Phase → Bool
  | claimed => false
  | _ => true

structure Worker where
  phase : Phase
  copy : Copy := {}
  deriving DecidableEq, Repr

/-- The row, the workers at it, the entities that were labelled, and how often `_process_task` was begun. -/
structure State where
  row : Row
  workers : WorkerId → Option Worker := fun _ => none
  labelled : List String := []
  processed : Nat := 0

/-- What can happen next. Time is the one of Postgres. -/
inductive Event
  /-- The worker claims the task. -/
  | claim (w : WorkerId) (now : Time) (retryJitter lockJitter : Rat)
  /-- A column is read, for instance for a logged message. -/
  | load (w : WorkerId)
  /-- The test at the beginning of `run`. -/
  | begin (w : WorkerId) (now : Time)
  | heartbeatCollecting (w : WorkerId) (newEntityCount : Nat) (now : Time) (claimUntilSeconds : Nat)
  /-- `_collect_entity_ids` returns, and the worker goes on to the first index. -/
  | collect (w : WorkerId) (entityIds : Finset String) (now : Time)
  /-- `_apply_label_mutations` returns. -/
  | label (w : WorkerId) (now : Time)
  /-- A label mutation failed and is to be tried again. -/
  | retryLabel (w : WorkerId) (now : Time)
  /-- The generator goes on, with a heartbeat if enough time has passed. -/
  | next (w : WorkerId) (now : Time) (heartbeat : Bool)
  /-- The heartbeat after the loop. -/
  | finish (w : WorkerId) (now : Time)
  /-- `release(COMPLETE)`. -/
  | complete (w : WorkerId) (now : Time)
  /-- `_process_task` returns. -/
  | send (w : WorkerId)
  /-- Anything inside the `try` of `run` raises. -/
  | raise (w : WorkerId) (unretryable : Bool) (repr : String) (now : Time)
  | crash (w : WorkerId)

/-- `EXPECTED_ENTITY_MARGIN_OF_ERROR` is a tenth. -/
def withinMarginOfError (expected : Int) (actual : Nat) : Bool :=
  expected ≤ 0 || 10 * |expected - actual| ≤ expected

namespace State

def setWorker (s : State) (w : WorkerId) (worker : Option Worker) : State :=
  { s with workers := Function.update s.workers w worker }

/-- The `except` of `run`, which reads `task.attempts`. -/
def fail (maxAttempts : Nat) (s : State) (w : WorkerId) (copy : Copy) (unretryable : Bool) (repr : String)
    (now : Time) : State :=
  let copy := copy.load s.row
  let status : TaskStatus :=
    if unretryable || maxAttempts ≤ (copy.read s.row).attempts then .failed else .retrying
  { s with row := copy.release s.row status (some repr) now }.setWorker w none

def sorted (entityIds : Finset String) : List String := entityIds.sort (· ≤ ·)

def phaseAt (entityIds : List String) (index stop : Nat) : Phase :=
  if index < stop then .labelling entityIds index stop else .finished

/-- `_process_task` from where the ids are collected to the first index. The count of excluded entities is taken off
what was expected if the margin is not met. -/
def startLabelling (maxAttempts excludedCount : Nat) (s : State) (w : WorkerId) (copy : Copy)
    (entityIds : Finset String) (now : Time) : State :=
  let copy := copy.setTotal s.row entityIds.card
  let expected := (copy.read s.row).expectedTotalEntitiesToLabel
  let actual := (copy.read s.row).totalEntitiesToLabel.getD 0
  let begin (copy : Copy) : State :=
    s.setWorker w (some ⟨phaseAt (sorted entityIds) (copy.read s.row).entitiesLabeled actual, copy⟩)
  if withinMarginOfError expected actual then begin copy
  else if excludedCount = 0 then s.fail maxAttempts w copy true "UnretryableTaskException" now
  else
    let copy := copy.set { expectedTotalEntitiesToLabel := some (expected - excludedCount) }
    if withinMarginOfError (expected - excludedCount) actual then begin copy
    else s.fail maxAttempts w copy true "UnretryableTaskException" now

/-- The worker goes on with a copy, or raises; what it has set holds of the copy, whatever is expected. -/
theorem startLabelling_cases {maxAttempts excludedCount} {s : State} {w copy entityIds now} {P : Copy → Prop}
    (hP : P (copy.setTotal s.row entityIds.card))
    (hset : ∀ copy expected, P copy → P (copy.set { expectedTotalEntitiesToLabel := some expected })) :
    ∃ copy', P copy' ∧
      (s.startLabelling maxAttempts excludedCount w copy entityIds now = s.setWorker w (some
          ⟨phaseAt (sorted entityIds) (copy'.read s.row).entitiesLabeled
            ((copy'.read s.row).totalEntitiesToLabel.getD 0), copy'⟩) ∨
        s.startLabelling maxAttempts excludedCount w copy entityIds now =
          s.fail maxAttempts w copy' true "UnretryableTaskException" now) := by
  unfold startLabelling
  simp only
  split
  · exact ⟨_, hP, .inl rfl⟩
  split
  · exact ⟨_, hP, .inr rfl⟩
  split
  · exact ⟨_, hset _ _ hP, .inl rfl⟩
  · exact ⟨_, hset _ _ hP, .inr rfl⟩

end State

/-- One step, with `MAX_ATTEMPTS` and the number of excluded entities of the task. An event that does not fit the
place of its worker does nothing. -/
def next (maxAttempts excludedCount : Nat) (s : State) : Event → State
  | .claim w now retryJitter lockJitter => match s.workers w with
    | some _ => s
    | none => match s.row.claim maxAttempts now retryJitter lockJitter with
      | none => s
      | some row => { s with row }.setWorker w (some ⟨.claimed, {}⟩)
  | .load w => match s.workers w with
    | none => s
    | some worker => s.setWorker w (some { worker with copy := worker.copy.load s.row })
  | .begin w now => match s.workers w with
    | some ⟨.claimed, copy⟩ =>
      let copy := copy.load s.row
      if maxAttempts ≤ (copy.read s.row).attempts ∧ (copy.read s.row).taskStatus.isNonFinal then
        { s with row := copy.release s.row .failed none now }.setWorker w none
      else { s with processed := s.processed + 1 }.setWorker w (some ⟨.collecting, copy⟩)
    | _ => s
  | .heartbeatCollecting w newEntityCount now claimUntilSeconds => match s.workers w with
    | some ⟨.collecting, copy⟩ =>
      { s with row := copy.heartbeat s.row true newEntityCount now claimUntilSeconds }.setWorker w
        (some ⟨.collecting, {}⟩)
    | _ => s
  | .collect w entityIds now => match s.workers w with
    | some ⟨.collecting, copy⟩ => s.startLabelling maxAttempts excludedCount w copy entityIds now
    | _ => s
  | .label w now => match s.workers w with
    | some ⟨.labelling entityIds index stop, copy⟩ => match entityIds[index]? with
      | none => s.fail maxAttempts w copy false "IndexError" now
      | some entityId =>
        { s with labelled := entityId :: s.labelled }.setWorker w (some ⟨.labelled entityIds index stop, copy⟩)
    | _ => s
  | .retryLabel w now => match s.workers w with
    | some ⟨.labelling entityIds index stop, copy⟩ =>
      let row := copy.heartbeat s.row false (copy.read s.row).entitiesLabeled now baseDelaySeconds
      { s with row }.setWorker w (some ⟨.labelling entityIds index stop, {}⟩)
    | _ => s
  | .next w now heartbeat => match s.workers w with
    | some ⟨.labelled entityIds index stop, copy⟩ =>
      if heartbeat then
        { s with row := copy.heartbeat s.row false (index + 1) now baseDelaySeconds }.setWorker w
          (some ⟨State.phaseAt entityIds (index + 1) stop, {}⟩)
      else s.setWorker w (some ⟨State.phaseAt entityIds (index + 1) stop, copy⟩)
    | _ => s
  | .finish w now => match s.workers w with
    | some ⟨.finished, copy⟩ =>
      let total := (copy.read s.row).totalEntitiesToLabel.getD 0
      { s with row := copy.heartbeat s.row false total now baseDelaySeconds }.setWorker w (some ⟨.completing, {}⟩)
    | _ => s
  | .complete w now => match s.workers w with
    | some ⟨.completing, copy⟩ =>
      { s with row := copy.release s.row .complete none now }.setWorker w (some ⟨.sending, {}⟩)
    | _ => s
  | .send w => match s.workers w with
    | some ⟨.sending, _⟩ => s.setWorker w none
    | _ => s
  | .raise w unretryable repr now => match s.workers w with
    | some worker =>
      if worker.phase.inTry then s.fail maxAttempts w worker.copy unretryable repr now else s
    | none => s
  | .crash w => s.setWorker w none

def Event.worker : Event → WorkerId
  | .claim w .. | .load w | .begin w .. | .heartbeatCollecting w .. | .collect w .. | .label w .. | .retryLabel w ..
  | .next w .. | .finish w .. | .complete w .. | .send w | .raise w .. | .crash w => w

theorem next_of_absent {maxAttempts excludedCount s event}
    (hclaim : ∀ w now retryJitter lockJitter, event ≠ .claim w now retryJitter lockJitter)
    (h : s.workers event.worker = none) : next maxAttempts excludedCount s event = s := by
  fun_cases next maxAttempts excludedCount s event with
  | case3 w now retryJitter lockJitter => exact absurd rfl (hclaim w now retryJitter lockJitter)
  | case30 w =>
    show State.mk s.row (Function.update s.workers w none) s.labelled s.processed = s
    rw [Function.update_eq_self_iff.mpr h.symm]
  | _ => simp_all [Event.worker]

def run (maxAttempts excludedCount : Nat) (s : State) (events : List Event) : State :=
  events.foldl (next maxAttempts excludedCount) s

end Osprey.BulkLabel
