/-
`ValidateStaticTypes` of expressions: each expression is given a type, and the
operators, comparisons and calls check the types of their operands. An operand
of `and` sees the names that an earlier operand has compared with `None` without
their `None`, and so does an operand of `or`.

The UDFs are such as queries call: they are not generic, they have no dynamic
result, and they take no extra arguments.
-/
import Mathlib.Data.List.Sort
import Osprey.Engine.Extraction
import Osprey.Engine.TypeEvaluator
import Osprey.Lib.Raise

namespace Osprey.StaticTypes

open PyType (isCompatibleType intOrFloat CompatibleTypeInfo UnsupportedTypeError)

/-- `_TypeAndSpan`, with the annotation of the assignment. -/
structure TypeAndSpan where
  type : PyType
  canExtract : Bool := true
  annotated : Option Annotation := none
  deriving Repr

/-- `_name_type_and_span_cache`. -/
abbrev Cache := String → Option TypeAndSpan

structure Signature where
  name : String
  items : List (String × PyType)
  rvalueType : PyType
  deriving Repr

/-- What the check reads: the UDFs by name, the bases of classes, the values of
number nodes, and the text of a type in an f-string. -/
structure Context where
  udfs : String → Option Signature
  bases : String → List PyClass
  values : Values
  typeText : PyType → String

/-- Code that adds errors and may raise. -/
abbrev Check := Lib.Raise Exc (List ValidationError)

def addError (e : ValidationError) : Check Unit := modify (· ++ [e])

def unwrap {α : Type} : Except UnsupportedTypeError α → Check α
  | .ok a => return a
  | .error _ => throw ⟨.other, "Called `Result.unwrap()` on an `Err` value"⟩

/-- `_maybe_get_additional_span_for_identifier_definition`, which looks a name up. -/
def definitionSpan (cache : Cache) (e : Expr) : Check Unit :=
  match e.name? with
  | some n => if (cache n.identifierKey).isSome then return else throw ⟨.keyError, n.identifierKey⟩
  | none => return

/-! ## Optional types -/

def isOptionalType : PyType → Bool
  | .invariant origin _ => origin = "EntityT"
  | .union args => args.any PyType.isNoneType
  | _ => false

def getNonNoneType : PyType → Option PyType
  | .union args =>
    if args.any PyType.isNoneType then
      match args.filter (!·.isNoneType) with
      | [] => none
      | [t] => some t
      | ts => some (.union ts)
    else none
  | _ => none

/-- The name that an expression compares with `None`, with `!=` under `and` and with `==` under `or`. -/
def nullCheckedName? (operand : BooleanOperand) : Expr → Option Name
  | .binaryComparison left right comparator =>
    match operand, comparator with
    | .and, .notEquals | .or, .equals => match left, right with
      | .none, .name n => some n
      | .name n, .none => some n
      | _, _ => none
    | _, _ => none
  | _ => none

/-- `_get_type_narrowing_from_expression`. -/
def typeNarrowing (cache : Cache) (operand : BooleanOperand) (e : Expr) : Option (String × PyType) := do
  let n ← nullCheckedName? operand e
  let entry ← cache n.identifierKey
  return (n.identifierKey, ← getNonNoneType entry.type)

def narrow (cache : Cache) (narrowed : String × PyType) : Cache := fun key =>
  if key = narrowed.1 then (cache key).map fun entry => { entry with type := narrowed.2 } else cache key

/-! ## Operators -/

/-- `_ValidTwoArgTypeTransition`. -/
structure Transition where
  validLeftType : PyType
  validRightType : PyType
  resultingType : PyType

def intTransition : Transition := ⟨.int, .int, .int⟩

def floatTransition : Transition := ⟨intOrFloat, intOrFloat, .float⟩

/-- `_get_binary_operation_transitions`. -/
def binaryOperationTransitions : Operator → List Transition
  | .add => [⟨.str, .str, .str⟩, intTransition, floatTransition]
  | .subtract | .floorDivide | .modulo | .pow => [intTransition, floatTransition]
  | .multiply => [intTransition, floatTransition, ⟨.str, .int, .str⟩, ⟨.int, .str, .str⟩]
  | .divide => [floatTransition]
  | .leftShift | .rightShift | .bitwiseOr | .bitwiseXor | .bitwiseAnd => [intTransition]

/-- `_get_binary_comparison_transitions`. -/
def binaryComparisonTransitions : Comparator → List Transition
  | .equals | .notEquals => [⟨.any, .any, .bool⟩]
  | .lessThan | .lessThanEquals | .greaterThan | .greaterThanEquals => [⟨intOrFloat, intOrFloat, .bool⟩]
  | .in_ | .notIn => [⟨.str, .str, .bool⟩, ⟨.any, .list .any, .bool⟩]

def originalOperator : Operator → String
  | .add => "+"
  | .subtract => "-"
  | .multiply => "*"
  | .divide => "/"
  | .floorDivide => "//"
  | .modulo => "%"
  | .pow => "**"
  | .leftShift => "<<"
  | .rightShift => ">>"
  | .bitwiseOr => "|"
  | .bitwiseXor => "^"
  | .bitwiseAnd => "&"

def originalComparator : Comparator → String
  | .equals => "=="
  | .notEquals => "!="
  | .lessThan => "<"
  | .lessThanEquals => "<="
  | .greaterThan => ">"
  | .greaterThanEquals => ">="
  | .in_ => "in"
  | .notIn => "not in"

def originalOperand : BooleanOperand → String
  | .and => "and"
  | .or => "or"

namespace Context

variable (C : Context)

def checkCompatibleType (t accepted : PyType) (error : ValidationError) : Check Unit :=
  match isCompatibleType C.bases t accepted true with
  | .ok none => addError error
  | .ok (some _) => return
  | .error e => addError ⟨e.message, e.hint⟩

def compatible (t t' : PyType) (allowUnwrap : Bool) : Check (Option CompatibleTypeInfo) :=
  unwrap (isCompatibleType C.bases t t' allowUnwrap)

/-- The check of `==` and `!=`: one of the types is compatible with the other, or is `None`. -/
def checkEquality (cache : Cache) (left right : Expr) (comparator : Comparator) (leftType rightType : PyType) :
    Check Unit := do
  let compatLeftItem ← C.compatible leftType rightType true
  let compatItemLeft ← C.compatible rightType leftType true
  let isComparingNone := leftType.isNoneType || rightType.isNoneType
  if isComparingNone && !(isOptionalType leftType || isOptionalType rightType) then
    -- A warning, for which the side that is not `None` is looked up.
    definitionSpan cache (if leftType.isNoneType then right else left)
  if compatLeftItem.isNone && compatItemLeft.isNone && !isComparingNone then
    definitionSpan cache left
    definitionSpan cache right
    addError ⟨"left and right sides have incompatible types", "comparison will always result in `" ++
      (if comparator = .equals then "False" else "True") ++ "`"⟩

/-- The check of `in` and `not in` with a list. -/
def checkMembership (cache : Cache) (left right : Expr) (comparator : Comparator) (leftType rightType : PyType) :
    Check Unit :=
  match rightType with
  | .list itemType => do
    let compatLeftItem ← C.compatible leftType itemType true
    let compatItemLeft ← C.compatible itemType leftType false
    if compatLeftItem.isNone && compatItemLeft.isNone then
      definitionSpan cache left
      definitionSpan cache right
      addError ⟨"item has incompatible type with list elements", "comparison will always result in `" ++
        (if comparator = .in_ then "False" else "True") ++ "`"⟩
  | _ => return

/-- The `valid_transition_hook` of a comparison. -/
def comparisonHook (cache : Cache) (left right : Expr) (comparator : Comparator) (leftType rightType : PyType) :
    Check Unit :=
  match comparator with
  | .equals | .notEquals => C.checkEquality cache left right comparator leftType rightType
  | .in_ | .notIn => C.checkMembership cache left right comparator leftType rightType
  | _ => return

/-- The loop of `_validate_two_arg_type_transitions`; none if no transition is valid. -/
def firstTransition (hook : PyType → PyType → Check Unit) (leftType rightType : PyType) :
    List Transition → Check (Option PyType)
  | [] => return none
  | transition :: transitions =>
    match isCompatibleType C.bases leftType transition.validLeftType true,
      isCompatibleType C.bases rightType transition.validRightType true with
    | .error e, .error e' => do
      addError ⟨e.message, e.hint⟩
      addError ⟨e'.message, e'.hint⟩
      return some .any
    | .error e, .ok _ | .ok _, .error e => do
      addError ⟨e.message, e.hint⟩
      return some .any
    | .ok (some leftInfo), .ok (some rightInfo) => do
      hook (leftInfo.unwrappedToType.getD leftType) (rightInfo.unwrappedToType.getD rightType)
      return some transition.resultingType
    | .ok _, .ok _ => firstTransition hook leftType rightType transitions

/-- `_validate_two_arg_type_transitions`, with the types of both sides. -/
def twoArgTypeTransitions (cache : Cache) (transitioner : String) (left right : Expr) (leftType rightType : PyType)
    (transitions : List Transition) (hook : PyType → PyType → Check Unit) : Check PyType := do
  match ← C.firstTransition hook leftType rightType transitions with
  | some t => return t
  | none =>
    definitionSpan cache left
    definitionSpan cache right
    addError ⟨"unsupported operand types for `" ++ transitioner ++ "`",
      "no implementation for `" ++ leftType.displayStr ++ " " ++ transitioner ++ " " ++ rightType.displayStr ++ "`"⟩
    return .any

/-- The check of the operand of `not`, with its type; `isinstance(t, type(bool))` holds for every class. -/
def checkNot (cache : Cache) (operand : Expr) (operandType : PyType) : Check Unit := do
  let compatItem ← C.compatible operandType .bool true
  match compatItem.bind CompatibleTypeInfo.unwrappedToType with
  | some (.cls _) => return
  | _ =>
    definitionSpan cache operand
    C.checkCompatibleType operandType .bool
      ⟨"`not` only works on `bool` types", "`not` should be used on `bool` types like `not (X == Y)`"⟩

/-- The check of the operand of a minus. A type is no instance of `int` or `float`, so it is always made. -/
def checkUSub (cache : Cache) (operand : Expr) (operandType : PyType) : Check Unit := do
  let _ ← C.compatible operandType intOrFloat true
  definitionSpan cache operand
  C.checkCompatibleType operandType intOrFloat ⟨"bad operand type for unary -: `" ++ C.typeText operandType ++ "`",
    "unary `-` should be used on `int` types or `float` types like `-3`"⟩

def listType (types : List PyType) : Check PyType :=
  match types.pwFilter fun t t' => !t.same t' with
  | [] => return .list .any
  | [t] => return .list t
  | ts => do
    addError ⟨"found multiple different types in list literal, unable to infer type",
      "has types " ++ ", ".intercalate ((ts.map PyType.toDisplayStr).insertionSort (· ≤ ·))⟩
    return .list .any

def checkArgument (cache : Cache) (udf : Signature) (argument : String) (value : Expr) (t : PyType) : Check Unit :=
  match udf.items.lookup argument with
  | none => throw ⟨.keyError, argument⟩
  | some paramType => do
    definitionSpan cache value
    C.checkCompatibleType t paramType
      ⟨"argument `" ++ argument ++ "` to `" ++ udf.name ++ "` has incompatible type",
        "has type " ++ t.toDisplayStr ++ ", expected " ++ paramType.toDisplayStr⟩

def checkFormatName (cache : Cache) (n : Name) : Check Unit :=
  match cache n.identifierKey with
  | none => throw ⟨.keyError, n.identifierKey⟩
  | some entry => do
    C.checkCompatibleType entry.type (.union [.int, .float, .bool, .str])
      ⟨"unsupported type for f-string substitution",
        "has type " ++ entry.type.toDisplayStr ++ ", expected one of `int`, `float`, `bool`, `str`"⟩
    if !entry.canExtract then
      addError ⟨"format strings can not include non-extractable features",
        "name '" ++ n.identifier ++ "' is marked as non-extractable"⟩

/-! ## Expressions -/

def numberType (id : NodeId) : PyType :=
  match C.values id with
  | .int _ => .int
  | .float _ => .float

/-- `_udf_node_mapping[id(call)]`, for a call that was validated. -/
def udf (id : NodeId) : Callee → Check Signature
  | .name n => match C.udfs n.identifier with
    | some signature => return signature
    | none => throw ⟨.keyError, toString id⟩
  | .attributeAccess .. => throw ⟨.keyError, toString id⟩

mutual

def validateExpression (cache : Cache) : Expr → Check PyType
  | .name n => return ((cache n.identifierKey).map TypeAndSpan.type).getD .any
  | .string _ => return .str
  | .number id => return C.numberType id
  | .boolean _ => return .bool
  | .none => return .noneType
  | .list items => do listType (← validateItems cache items)
  | .call id func arguments => do
    let udf ← C.udf id func
    validateArguments cache udf arguments
    return udf.rvalueType
  | .binaryOperation left right operator => do
    let leftType ← validateExpression cache left
    let rightType ← validateExpression cache right
    -- `allow_any` is false here.
    let transitions := if leftType.isAny || rightType.isAny then [] else binaryOperationTransitions operator
    C.twoArgTypeTransitions cache (originalOperator operator) left right leftType rightType transitions
      fun _ _ => return
  | .unaryOperation operand .not => do
    C.checkNot cache operand (← validateExpression cache operand)
    return .bool
  | .unaryOperation operand .uSub => do
    let operandType ← validateExpression cache operand
    C.checkUSub cache operand operandType
    return operandType
  | .binaryComparison left right comparator => do
    let leftType ← validateExpression cache left
    let rightType ← validateExpression cache right
    C.twoArgTypeTransitions cache (originalComparator comparator) left right leftType rightType
      (binaryComparisonTransitions comparator) (C.comparisonHook cache left right comparator)
  | .booleanOperation values operand => do
    validateOperands cache operand values
    return .bool
  | .attributeAccess .. => do
    addError ⟨"attributes aren't supported yet", ""⟩
    return .any
  | .formatString _ names => do
    names.forM (C.checkFormatName cache)
    return .str

def validateItems (cache : Cache) : List Expr → Check (List PyType)
  | [] => return []
  | item :: items => return (← validateExpression cache item) :: (← validateItems cache items)

def validateArguments (cache : Cache) (udf : Signature) : List (String × Expr) → Check Unit
  | [] => return
  | (argument, value) :: arguments => do
    C.checkArgument cache udf argument value (← validateExpression cache value)
    validateArguments cache udf arguments

/-- The loop of `_validate_boolean_operation`, with the names narrowed so far in the cache. -/
def validateOperands (cache : Cache) (operand : BooleanOperand) : List Expr → Check Unit
  | [] => return
  | value :: values => do
    let valueType ← validateExpression cache value
    definitionSpan cache value
    C.checkCompatibleType valueType .bool ⟨"unsupported operand type for `" ++ originalOperand operand ++ "`",
      "has type " ++ valueType.toDisplayStr ++ ", expected `bool`"⟩
    validateOperands (((typeNarrowing cache operand value).map (narrow cache)).getD cache) operand values

end

/-- `_validate_assign` of an assignment without an annotation. -/
def validateAssign (cache : Cache) (a : Assign) : Check Unit := do
  match a.value with
  | .list [] => addError ⟨"empty list literal has a dynamic item type, and thus must be assigned to a variable" ++
      " with a type annotation", "give this variable a type annotation, eg:\n`" ++ a.target.identifier ++
      ": List[str] = []`"⟩
  | _ => pure ()
  let _ ← C.validateExpression cache a.value
  (Extraction.assignErrors (fun key => (cache key).bind TypeAndSpan.annotated) a).forM addError

end Context

end Osprey.StaticTypes
