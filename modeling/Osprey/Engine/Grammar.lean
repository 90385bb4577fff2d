/-
The syntax trees of rules and queries (`grammar.py`), and the one place
that writes to a tree after it was parsed, `OspreyUnaryExecutor`.

`Number.value` is the only field that is assigned after parsing. A tree
therefore holds the identity of its number nodes, and their values live in a
heap beside it: a parsed source is a tree and a heap.
-/
import Mathlib.Tactic.Linarith
import Osprey.Engine.NodeExecution

namespace Osprey

/-! ## Values -/

/-- An `int` or a `float`. Floats are the rationals they denote; `inf` and
`nan` have no literal in a rule. -/
inductive Num
  | int (n : Int)
  | float (q : ℚ)
  deriving DecidableEq, Repr

namespace Num

/-- `operator.neg`. -/
def neg : Num → Num
  | int n => int (-n)
  | float q => float (-q)

def toRat : Num → ℚ
  | int n => n
  | float q => q

@[simp] theorem toRat_int (n : Int) : (int n).toRat = n := rfl

def isZero : Num → Bool
  | int n => n = 0
  | float q => q = 0

@[simp] theorem neg_neg (x : Num) : x.neg.neg = x := by
  cases x <;> simp [neg]

theorem neg_of_isZero {x : Num} (h : x.isZero) : x.neg = x := by
  cases x with
  | int n => simp_all [isZero, neg]
  | float q => simp_all [isZero, neg]

theorem isZero_of_neg_eq {x : Num} (h : x.neg = x) : x.isZero := by
  cases x with
  | int n =>
    have hn : -n = n := by simpa [neg] using h
    exact decide_eq_true (by omega)
  | float q =>
    have hq : -q = q := by simpa [neg] using h
    exact decide_eq_true (by linarith)

end Num

/-- The Python values that literals denote and features hold. -/
inductive PyValue
  | none
  | bool (b : Bool)
  | num (x : Num)
  | str (s : String)
  | list (items : List PyValue)
  deriving Repr

namespace PyValue

/-- The name of the value's class. -/
def className : PyValue → String
  | .none => "NoneType"
  | .bool _ => "bool"
  | .num (.int _) => "int"
  | .num (.float _) => "float"
  | .str _ => "str"
  | .list _ => "list"

def isNone : PyValue → Bool
  | .none => true
  | _ => false

/-- `bool(v)`. -/
def truthy : PyValue → Bool
  | .none => false
  | .bool b => b
  | .num x => !x.isZero
  | .str s => s ≠ ""
  | .list items => !items.isEmpty

/-- The number a value counts as in arithmetic: a `bool` is an `int`. -/
def toNum? : PyValue → Option Num
  | .num x => some x
  | .bool b => some (.int (if b then 1 else 0))
  | _ => .none

end PyValue

/-! ## Syntax -/

inductive Comparator
  | equals
  | notEquals
  | lessThan
  | lessThanEquals
  | greaterThan
  | greaterThanEquals
  | in_
  | notIn
  deriving DecidableEq, Repr

def Comparator.className : Comparator → String
  | equals => "Equals"
  | notEquals => "NotEquals"
  | lessThan => "LessThan"
  | lessThanEquals => "LessThanEquals"
  | greaterThan => "GreaterThan"
  | greaterThanEquals => "GreaterThanEquals"
  | in_ => "In"
  | notIn => "NotIn"

inductive BooleanOperand
  | and
  | or
  deriving DecidableEq, Repr

inductive UnaryOperator
  | not
  | uSub
  deriving DecidableEq, Repr

inductive Operator
  | add
  | subtract
  | multiply
  | divide
  | floorDivide
  | modulo
  | pow
  | leftShift
  | rightShift
  | bitwiseOr
  | bitwiseXor
  | bitwiseAnd
  deriving DecidableEq, Repr

/-- A `Name`, with the path of the source it stands in. -/
structure Name where
  identifier : String
  path : String := "main.sml"
  deriving DecidableEq, Repr

def Name.isLocal (n : Name) : Bool := n.identifier.toList.head? = some '_'

/-- `identifier_key`: unique over all sources, also for a local. -/
def Name.identifierKey (n : Name) : String :=
  if n.isLocal then n.path ++ "/" ++ n.identifier else n.identifier

/-- What a `Call` calls. -/
inductive Callee
  | name (n : Name)
  | attributeAccess (n : Name) (attributeName : String)
  deriving DecidableEq, Repr

inductive Expr
  | string (value : String)
  | number (id : NodeId)
  | boolean (value : Bool)
  | none
  | list (items : List Expr)
  | name (n : Name)
  | attributeAccess (n : Name) (attributeName : String)
  | call (id : NodeId) (func : Callee) (arguments : List (String × Expr))
  | binaryOperation (left right : Expr) (operator : Operator)
  | unaryOperation (operand : Expr) (operator : UnaryOperator)
  | binaryComparison (left right : Expr) (comparator : Comparator)
  | booleanOperation (values : List Expr) (operand : BooleanOperand)
  | formatString (formatString : String) (names : List Name)
  deriving Repr

namespace Expr

/-- `node.__class__.__name__`. -/
def className : Expr → String
  | string _ => "String"
  | number _ => "Number"
  | boolean _ => "Boolean"
  | none => "None_"
  | list _ => "List"
  | name _ => "Name"
  | attributeAccess .. => "Attribute"
  | call .. => "Call"
  | binaryOperation .. => "BinaryOperation"
  | unaryOperation .. => "UnaryOperation"
  | binaryComparison .. => "BinaryComparison"
  | booleanOperation .. => "BooleanOperation"
  | formatString .. => "FormatString"

def isLiteral : Expr → Bool
  | string _ | number _ | boolean _ | none | list _ => true
  | _ => false

def isUnaryOperation : Expr → Bool
  | unaryOperation .. => true
  | _ => false

/-- `isinstance(node, Name)`, with the name. -/
def name? : Expr → Option Name
  | name n => some n
  | _ => .none

@[elab_as_elim, induction_eliminator]
theorem ind {motive : Expr → Prop} (string : ∀ value, motive (.string value)) (number : ∀ id, motive (.number id))
    (boolean : ∀ value, motive (.boolean value)) (none : motive .none)
    (list : ∀ items, (∀ e ∈ items, motive e) → motive (.list items)) (name : ∀ n, motive (.name n))
    (attributeAccess : ∀ n attributeName, motive (.attributeAccess n attributeName))
    (call : ∀ id func arguments, (∀ e ∈ arguments, motive e.2) → motive (.call id func arguments))
    (binaryOperation : ∀ left right operator, motive left → motive right →
      motive (.binaryOperation left right operator))
    (unaryOperation : ∀ operand operator, motive operand → motive (.unaryOperation operand operator))
    (binaryComparison : ∀ left right comparator, motive left → motive right →
      motive (.binaryComparison left right comparator))
    (booleanOperation : ∀ values operand, (∀ e ∈ values, motive e) → motive (.booleanOperation values operand))
    (formatString : ∀ format names, motive (.formatString format names)) (e : Expr) : motive e :=
  @Expr.rec motive (fun es => ∀ e ∈ es, motive e) (fun es => ∀ e ∈ es, motive e.2) (fun e => motive e.2) string number
    boolean none list name attributeAccess call binaryOperation unaryOperation binaryComparison booleanOperation
    formatString (List.forall_mem_nil _) (fun _ _ he hes => List.forall_mem_cons.mpr ⟨he, hes⟩)
    (List.forall_mem_nil _) (fun _ _ he hes => List.forall_mem_cons.mpr ⟨he, hes⟩) (fun _ _ he => he) e

end Expr

/-- An annotation, with its variants if it has any. -/
inductive Annotation
  | plain (identifier : String)
  | withVariants (identifier : String) (variants : List Annotation)
  deriving Repr

def Annotation.identifier : Annotation → String
  | plain identifier => identifier
  | withVariants identifier _ => identifier

structure Assign where
  target : Name
  value : Expr
  annotation : Option Annotation := none
  deriving Repr

structure CallNode where
  id : NodeId
  func : Callee
  arguments : List (String × Expr)
  deriving Repr

inductive Statement
  | assign (a : Assign)
  | call (c : CallNode)
  deriving Repr

/-- A parsed source: its path and the statements of its `ast_root`. -/
structure Source where
  path : String
  statements : List Statement
  deriving Repr

/-- An error that a validator adds to its context. -/
structure ValidationError where
  message : String
  hint : String := ""
  deriving DecidableEq, Repr

/-! ## Walking a tree -/

mutual

/-- `filter_nodes(e, Call)`, in the order of `iter_nodes`. -/
def Expr.calls : Expr → List CallNode
  | .call id func arguments => ⟨id, func, arguments⟩ :: argumentCalls arguments
  | .list items => listCalls items
  | .binaryOperation left right _ => left.calls ++ right.calls
  | .unaryOperation operand _ => operand.calls
  | .binaryComparison left right _ => left.calls ++ right.calls
  | .booleanOperation values _ => listCalls values
  | .string _ | .number _ | .boolean _ | .none | .name _ | .attributeAccess .. | .formatString .. => []

def listCalls : List Expr → List CallNode
  | [] => []
  | e :: es => e.calls ++ listCalls es

def argumentCalls : List (String × Expr) → List CallNode
  | [] => []
  | (_, e) :: es => e.calls ++ argumentCalls es

end

theorem listCalls_eq (es : List Expr) : listCalls es = es.flatMap Expr.calls := by
  induction es with
  | nil => rfl
  | cons e es ih => rw [listCalls, ih, List.flatMap_cons]

theorem argumentCalls_eq (es : List (String × Expr)) : argumentCalls es = es.flatMap (·.2.calls) := by
  induction es with
  | nil => rfl
  | cons e es ih => rw [argumentCalls, ih, List.flatMap_cons]

def Statement.calls : Statement → List CallNode
  | .assign a => a.value.calls
  | .call c => c :: argumentCalls c.arguments

def Source.calls (s : Source) : List CallNode := s.statements.flatMap Statement.calls

mutual

def Expr.numbers : Expr → List NodeId
  | .number id => [id]
  | .call _ _ arguments => argumentNumbers arguments
  | .list items => listNumbers items
  | .binaryOperation left right _ => left.numbers ++ right.numbers
  | .unaryOperation operand _ => operand.numbers
  | .binaryComparison left right _ => left.numbers ++ right.numbers
  | .booleanOperation values _ => listNumbers values
  | .string _ | .boolean _ | .none | .name _ | .attributeAccess .. | .formatString .. => []

def listNumbers : List Expr → List NodeId
  | [] => []
  | e :: es => e.numbers ++ listNumbers es

def argumentNumbers : List (String × Expr) → List NodeId
  | [] => []
  | (_, e) :: es => e.numbers ++ argumentNumbers es

end

def Statement.numbers : Statement → List NodeId
  | .assign a => a.value.numbers
  | .call c => argumentNumbers c.arguments

def Source.numbers (s : Source) : List NodeId := s.statements.flatMap Statement.numbers

/-- The nodes that validators of names look at. A loaded `Name` is told from the `func` of a call,
for which `is_function_call` holds. -/
inductive Node
  | assign (a : Assign)
  | call (c : CallNode)
  | store (n : Name)
  | load (n : Name)
  | func (n : Name)
  deriving Repr

def Node.name? : Node → Option Name
  | store n | load n | func n => some n
  | assign _ | call _ => none

def Callee.nodes : Callee → List Node
  | name n => [.func n]
  | attributeAccess n _ => [.load n]

mutual

/-- `iter_nodes(e)`. -/
def Expr.nodes : Expr → List Node
  | .name n => [.load n]
  | .attributeAccess n _ => [.load n]
  | .call id func arguments => .call ⟨id, func, arguments⟩ :: (func.nodes ++ argumentNodes arguments)
  | .list items => listNodes items
  | .binaryOperation left right _ => left.nodes ++ right.nodes
  | .unaryOperation operand _ => operand.nodes
  | .binaryComparison left right _ => left.nodes ++ right.nodes
  | .booleanOperation values _ => listNodes values
  | .formatString _ names => names.map .load
  | .string _ | .number _ | .boolean _ | .none => []

def listNodes : List Expr → List Node
  | [] => []
  | e :: es => e.nodes ++ listNodes es

def argumentNodes : List (String × Expr) → List Node
  | [] => []
  | (_, e) :: es => e.nodes ++ argumentNodes es

end

theorem listNodes_eq (es : List Expr) : listNodes es = es.flatMap Expr.nodes := by
  induction es with
  | nil => rfl
  | cons e es ih => rw [listNodes, ih, List.flatMap_cons]

theorem argumentNodes_eq (es : List (String × Expr)) : argumentNodes es = es.flatMap (·.2.nodes) := by
  induction es with
  | nil => rfl
  | cons e es ih => rw [argumentNodes, ih, List.flatMap_cons]

def Statement.nodes : Statement → List Node
  | .assign a => .assign a :: .store a.target :: a.value.nodes
  | .call c => .call c :: (c.func.nodes ++ argumentNodes c.arguments)

def Source.nodes (s : Source) : List Node := s.statements.flatMap Statement.nodes

/-- `filter_nodes(root, Name)`. -/
def Source.names (s : Source) : List Name := s.nodes.filterMap Node.name?

/-! ## The heap of number values -/

/-- The `value` field of every number node. -/
abbrev Values := NodeId → Num

/-- Code that may raise and may write to number nodes. What it wrote stays
written when it raises. -/
abbrev AstM := ExceptT Exc (StateM Values)

namespace AstM

variable {α β : Type}

/-- What running `x` over the heap `σ` gives and leaves. -/
def exec (x : AstM α) (σ : Values) : Except Exc α × Values := x.run.run σ

@[simp] theorem exec_pure (a : α) (σ : Values) : exec (pure a) σ = (.ok a, σ) := rfl

@[simp] theorem exec_throw (e : Exc) (σ : Values) : exec (throw e : AstM α) σ = (.error e, σ) := rfl

@[simp] theorem exec_get (σ : Values) : exec get σ = (.ok σ, σ) := rfl

@[simp] theorem exec_set (τ σ : Values) : exec (set τ) σ = (.ok ⟨⟩, τ) := rfl

theorem exec_bind (x : AstM α) (f : α → AstM β) (σ : Values) :
    exec (x >>= f) σ = match exec x σ with
      | (.ok a, σ') => exec (f a) σ'
      | (.error e, σ') => (.error e, σ') := by
  simp only [exec, ExceptT.run_bind, StateT.run_bind]
  change (match (x.run.run σ).1 with | _ => _) = _
  rcases x.run.run σ with ⟨r, σ'⟩
  cases r <;> rfl

end AstM

/-- `OspreyUnaryExecutor(node)`: a minus before a number is evaluated, and the
result is written back to the number node it stands before. -/
def ospreyUnaryExecutor (operator : UnaryOperator) (operand : Expr) : AstM Num :=
  match operator, operand with
  | .uSub, .number id => do
    let executedValue := ((← get) id).neg
    set (Function.update (← get) id executedValue)
    return executedValue
  | _, _ => throw ⟨.other, "Validation error when executing UnaryOperation."⟩

@[simp] theorem exec_ospreyUnaryExecutor_number (id : NodeId) (σ : Values) :
    (ospreyUnaryExecutor .uSub (.number id)).exec σ = (.ok (σ id).neg, Function.update σ id (σ id).neg) := rfl

end Osprey
