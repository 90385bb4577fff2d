/-
JSON documents as trees, and readers for their parts: each gives the value
read, or nothing where the document has another shape.
-/
import Mathlib.Data.Rat.Defs
import Osprey.Lib.Tree

namespace Lib

inductive JsonDoc.Scalar
  | null
  | bool (b : Bool)
  | int (n : Int)
  | float (q : Rat)
  | str (s : String)
  deriving DecidableEq, Repr

abbrev JsonDoc := Tree String JsonDoc.Scalar

namespace JsonDoc

abbrev str (s : String) : JsonDoc := .leaf (.str s)

abbrev int (n : Int) : JsonDoc := .leaf (.int n)

def string? : JsonDoc → Option String
  | .leaf (.str s) => some s
  | _ => none

/-- A number below a bound. -/
def nat? (bound : Nat) : JsonDoc → Option Nat
  | .leaf (.int n) => if 0 ≤ n ∧ n < bound then some n.toNat else none
  | _ => none

def list? {α : Type} (read : JsonDoc → Option α) : JsonDoc → Option (List α)
  | .list items => items.mapM read
  | _ => none

/-- A field that has to be there once. -/
def field? (name : String) (entries : List (String × JsonDoc)) : Option JsonDoc :=
  match entries.filter (·.1 == name) with
  | [e] => some e.2
  | _ => none

/-- A field that may be left out. -/
def optionalField? (name : String) (entries : List (String × JsonDoc)) : Option (Option JsonDoc) :=
  match entries.filter (·.1 == name) with
  | [] => some none
  | [e] => some (some e.2)
  | _ => none

theorem nat?_int (bound : Nat) (n : Int) :
    nat? bound (int n) = if 0 ≤ n ∧ n < bound then some n.toNat else none := rfl

end JsonDoc
end Lib
