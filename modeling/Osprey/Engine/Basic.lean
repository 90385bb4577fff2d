/-
The values every part of the engine passes around: times, exceptions,
entities, actions and the outcome of a node.

A `datetime` is in UTC: its number of microseconds since the epoch. A
`timedelta` is a number of microseconds. Both are unbounded here, and a sum
that leaves the years 1 to 9999 raises as it does in Python.
-/
import Mathlib.Data.Nat.Basic

namespace Osprey

/-- A `datetime`, in microseconds since the epoch. -/
abbrev Time := Int

abbrev TimeDelta := Int

/-- `timedelta(seconds=n)`. -/
def seconds (n : Int) : TimeDelta := n * 1000000

/-- `datetime.min`, the first instant of year 1. -/
def datetimeMin : Time := seconds (-62135596800)

/-- `datetime.max`, the last microsecond of year 9999. -/
def datetimeMax : Time := seconds 253402300800 - 1

/-! ## Exceptions -/

/-- The exception classes the modelled code raises or tells apart. `other`
stands for a class the code only passes on. -/
inductive ExcClass
  | assertionError
  | valueError
  | keyError
  | indexError
  | typeError
  | overflowError
  | notImplementedError
  | nodeFailurePropagation
  | expectedUdf
  | emptyEntity
  | druidQueryTransform
  | other
  deriving DecidableEq, Repr

structure Exc where
  cls : ExcClass
  text : String := ""
  deriving DecidableEq, Repr

/-- The sum of a `datetime` and a `timedelta`. -/
def addDelta (t : Time) (delta : TimeDelta) : Except Exc Time :=
  if datetimeMin ≤ t + delta ∧ t + delta ≤ datetimeMax then .ok (t + delta)
  else .error ⟨.overflowError, "date value out of range"⟩

theorem addDelta_eq_ok {t delta t'} :
    addDelta t delta = .ok t' ↔ t' = t + delta ∧ datetimeMin ≤ t' ∧ t' ≤ datetimeMax := by
  unfold addDelta
  split
  · next h =>
    constructor
    · rintro ⟨⟩
      exact ⟨rfl, h⟩
    · rintro ⟨rfl, -⟩
      rfl
  · next h =>
    refine ⟨nofun, ?_⟩
    rintro ⟨rfl, hrange⟩
    exact absurd hrange h

section

universe u

variable {ε α β : Type u}

@[simp] theorem ok_bind (a : α) (f : α → Except ε β) : (.ok a >>= f) = f a := rfl

@[simp] theorem error_bind (e : ε) (f : α → Except ε β) : (.error e >>= f) = .error e := rfl

@[simp] theorem pure_eq_ok (a : α) : (pure a : Except ε α) = .ok a := rfl

theorem bind_eq_ok {x} {f : α → Except ε β} {b} :
    (x >>= f) = .ok b ↔ ∃ a, x = .ok a ∧ f a = .ok b := by
  cases x with
  | error e => exact ⟨nofun, nofun⟩
  | ok a =>
    refine ⟨fun h => ⟨a, rfl, h⟩, ?_⟩
    rintro ⟨a', ha, h⟩
    cases ha
    exact h

theorem map_eq_ok {x : Except ε α} {f} {b : β} : x.map f = .ok b ↔ ∃ a, x = .ok a ∧ f a = b := by
  cases x with
  | error e => exact ⟨nofun, nofun⟩
  | ok a => simp [Except.map]

end

/-! ## Entities and actions -/

/-- The id of an entity: `EntityT.__post_init__` admits `str` and `int` only. -/
inductive EntityId
  | str (s : String)
  | int (n : Int)
  deriving DecidableEq, Repr

/-- `EntityT`, a frozen dataclass: two entities are equal when their fields are. -/
structure EntityT where
  type : String
  id : EntityId
  deriving DecidableEq, Repr

/-- The fields of an `Action` that the modelled code reads. -/
structure Action where
  actionId : Int
  actionName : String
  timestamp : Time
  deriving DecidableEq, Repr

/-! ## Node results -/

/-- `NodeResult`, which is `Result[object, None]`: a value, or a failure
that carries nothing. -/
inductive NodeResult (V : Type*)
  | ok (v : V)
  | err
  deriving DecidableEq, Repr

/-- What `context.resolved(node, return_none_for_failed_values=True)` sees. -/
def NodeResult.toOption {V : Type*} : NodeResult V → Option V
  | .ok v => some v
  | .err => none

end Osprey
