/-
What the node executors of literals, names, comparisons, boolean operations
and unary operations compute, given a value for every feature.

Ordering follows Python: numbers (a `bool` is one) by value, strings by code
point, lists item by item, anything else raises.
-/
import Mathlib.Data.String.Basic
import Mathlib.Data.List.Infix
import Osprey.Engine.Grammar

namespace Osprey

/-! ## Python comparisons -/

mutual

/-- `operator.eq`. -/
def pyEq : PyValue → PyValue → Bool
  | .none, .none => true
  | .str s, .str t => s = t
  | .list xs, .list ys => pyEqList xs ys
  | .num x, .num y => x.toRat = y.toRat
  | .num x, .bool b | .bool b, .num x => x.toRat = if b then 1 else 0
  | .bool a, .bool b => a = b
  | _, _ => false

def pyEqList : List PyValue → List PyValue → Bool
  | [], [] => true
  | x :: xs, y :: ys => pyEq x y && pyEqList xs ys
  | _, _ => false

end

/-- The order of two numbers, if both values are numbers. -/
def compareNumbers (a b : PyValue) : Option Ordering :=
  match a.toNum?, b.toNum? with
  | some x, some y => some (cmp x.toRat y.toRat)
  | _, _ => none

mutual

/-- How `a` stands to `b` for `operator.lt` and its siblings; `none` if they raise `TypeError`. -/
def pyCompare : PyValue → PyValue → Option Ordering
  | .str s, .str t => some (cmp s t)
  | .list xs, .list ys => pyCompareList xs ys
  | a, b => compareNumbers a b

def pyCompareList : List PyValue → List PyValue → Option Ordering
  | [], [] => some .eq
  | [], _ :: _ => some .lt
  | _ :: _, [] => some .gt
  | x :: xs, y :: ys => if pyEq x y then pyCompareList xs ys else pyCompare x y

end

def inOperator (a b : PyValue) : NodeResult Bool :=
  match a, b with
  | .none, .none => .ok true
  | .none, .list items => .ok (items.any (pyEq .none))
  | .none, _ | _, .none => .ok false
  | a, .list items => .ok (items.any (pyEq a))
  | .str s, .str t => .ok (s.toList <:+: t.toList)
  | _, _ => .err

/-! ## Executors -/

def Comparator.leftCanBeNone : Comparator → Bool
  | .in_ | .notIn | .equals | .notEquals => true
  | _ => false

def Comparator.rightCanBeNone : Comparator → Bool
  | .equals | .notEquals => true
  | _ => false

/-- The comparators whose executor answers false when a side is `None`. -/
def Comparator.handlesNoneComparison : Comparator → Bool
  | .lessThan | .lessThanEquals | .greaterThan | .greaterThanEquals => true
  | _ => false

/-- An ordering comparison: `asked` is what it asks of the order of its sides. -/
def orderingResult (asked : Ordering → Bool) (left right : PyValue) : NodeResult Bool :=
  match pyCompare left right with
  | some o => .ok (asked o)
  | none => .err

/-- `_COMPARATORS`. -/
def Comparator.apply : Comparator → PyValue → PyValue → NodeResult Bool
  | .equals, a, b => .ok (pyEq a b)
  | .notEquals, a, b => .ok !pyEq a b
  | .lessThan, a, b => orderingResult Ordering.isLT a b
  | .lessThanEquals, a, b => orderingResult Ordering.isLE a b
  | .greaterThan, a, b => orderingResult Ordering.isGT a b
  | .greaterThanEquals, a, b => orderingResult Ordering.isGE a b
  | .in_, a, b => inOperator a b
  | .notIn, a, b => match inOperator a b with
    | .ok found => .ok !found
    | .err => .err

/-- `context.resolved(node, return_none_for_failed_values=canBeNone)`: `none`
is the failure that `resolved` raises again. -/
def resolved (canBeNone : Bool) : NodeResult PyValue → Option PyValue
  | .ok v => some v
  | .err => if canBeNone then some .none else none

/-- `BinaryComparisonExecutor.execute`. -/
def executeBinaryComparison (comparator : Comparator) (left right : NodeResult PyValue) : NodeResult PyValue :=
  match resolved comparator.leftCanBeNone left, resolved comparator.rightCanBeNone right with
  | some l, some r =>
    if comparator.handlesNoneComparison && (l.isNone || r.isNone) then .ok (.bool false)
    else match comparator.apply l r with
      | .ok b => .ok (.bool b)
      | .err => .err
  | _, _ => .err

/-- `UnaryOperationExecutor.execute`. -/
def executeUnaryOperation : UnaryOperator → NodeResult PyValue → NodeResult PyValue
  | .not, .ok v => .ok (.bool !v.truthy)
  | .uSub, .ok v => match v.toNum? with
    | some x => .ok (.num x.neg)
    | none => .err
  | _, .err => .err

/-- `_OPERATORS`. -/
def BooleanOperand.apply : BooleanOperand → List Bool → Bool
  | .and, bs => bs.all id
  | .or, bs => bs.any id

/-- `BooleanOperationExecutor.execute`: a failed value is falsy. -/
def executeBooleanOperation (operand : BooleanOperand) (values : List (NodeResult PyValue)) : NodeResult PyValue :=
  .ok (.bool (operand.apply (values.map fun v => ((resolved true v).getD .none).truthy)))

/-- A value for every feature name. -/
abbrev Row := String → PyValue

section

-- The heap of the number nodes, the features, and the results of the nodes whose
-- executors are not modelled here: attributes, calls, binary operations and f-strings.
variable (σ : Values) (row : Row) (other : Expr → NodeResult PyValue)

mutual

def evaluate : Expr → NodeResult PyValue
  | .string value => .ok (.str value)
  | .number id => .ok (.num (σ id))
  | .boolean value => .ok (.bool value)
  | .none => .ok .none
  | .list items => match evaluateItems items with
    | some vs => .ok (.list vs)
    | none => .err
  | .name n => .ok (row n.identifier)
  | .unaryOperation operand operator => executeUnaryOperation operator (evaluate operand)
  | .binaryComparison left right comparator => executeBinaryComparison comparator (evaluate left) (evaluate right)
  | .booleanOperation values operand => executeBooleanOperation operand (evaluateAll values)
  | node => other node

def evaluateAll : List Expr → List (NodeResult PyValue)
  | [] => []
  | e :: es => evaluate e :: evaluateAll es

def evaluateItems : List Expr → Option (List PyValue)
  | [] => some []
  | e :: es => match evaluate e, evaluateItems es with
    | .ok v, some vs => some (v :: vs)
    | _, _ => none

end

end

end Osprey
