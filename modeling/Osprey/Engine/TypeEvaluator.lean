/-
Types as the static checks see them, and `is_compatible_type`: whether a value
of one type may stand where another type is asked for, as it is or after it was
unwrapped to its value of after the execution.
-/
import Osprey.Engine.Basic

namespace Osprey

/-! ## Types -/

inductive PyClass
  | bool
  | int
  | float
  | str
  | noneType
  | other (name : String)
  deriving DecidableEq, Repr

/-- `List[T]` and `ConstExpr[T]` have constructors of their own; `invariant` is a
class with one parameter that inherits from `OspreyInvariantGeneric`, and
`generic` any other class with parameters. -/
inductive PyType
  | any
  | cls (c : PyClass)
  | constExpr (item : PyType)
  | list (item : PyType)
  | invariant (origin : String) (item : PyType)
  | generic (origin : String) (args : List PyType)
  | union (args : List PyType)
  deriving Repr

namespace PyType

abbrev bool : PyType := cls .bool
abbrev int : PyType := cls .int
abbrev float : PyType := cls .float
abbrev str : PyType := cls .str
abbrev noneType : PyType := cls .noneType

/-- `_INT_OR_FLOAT_T`. -/
def intOrFloat : PyType := union [int, float]

def isNoneType : PyType → Bool
  | cls .noneType => true
  | _ => false

mutual

/-- `t == t'`; the members of a union have no order. -/
def same : PyType → PyType → Bool
  | any, any => true
  | cls c, cls c' => c = c'
  | constExpr t, constExpr t' => t.same t'
  | list t, list t' => t.same t'
  | invariant origin t, invariant origin' t' => origin = origin' && t.same t'
  | generic origin ts, generic origin' ts' => origin = origin' && sameAll ts ts'
  | union ts, union ts' => allAmong ts ts' && ts'.all fun t' => anySame ts t'
  | _, _ => false

def sameAll : List PyType → List PyType → Bool
  | [], [] => true
  | t :: ts, t' :: ts' => t.same t' && sameAll ts ts'
  | _, _ => false

def allAmong : List PyType → List PyType → Bool
  | [], _ => true
  | t :: ts, ts' => ts'.any t.same && allAmong ts ts'

def anySame : List PyType → PyType → Bool
  | [], _ => false
  | t :: ts, t' => t.same t' || anySame ts t'

end

end PyType

def PyClass.name : PyClass → String
  | bool => "bool"
  | int => "int"
  | float => "float"
  | str => "str"
  | noneType => "None"
  | other name => name

namespace PyType

mutual

/-- `to_display_str(t, include_quotes=False)`. -/
def displayStr : PyType → String
  | any => "Any"
  | cls c => c.name
  | constExpr t => "ConstExpr[" ++ t.displayStr ++ "]"
  | list t => "List[" ++ t.displayStr ++ "]"
  | invariant origin t => origin ++ "[" ++ t.displayStr ++ "]"
  | generic origin ts => origin ++ "[" ++ ", ".intercalate (displayStrs ts) ++ "]"
  | union [cls .noneType, t] => "Optional[" ++ t.displayStr ++ "]"
  | union [t, cls .noneType] => "Optional[" ++ t.displayStr ++ "]"
  | union ts => "Union[" ++ ", ".intercalate (displayStrs ts) ++ "]"

def displayStrs : List PyType → List String
  | [] => []
  | t :: ts => t.displayStr :: displayStrs ts

end

/-- `to_display_str(t)`. -/
def toDisplayStr (t : PyType) : String := "`" ++ t.displayStr ++ "`"

/-! ## `is_compatible_type` -/

/-- A type that the limited type system does not support. -/
structure UnsupportedTypeError where
  message : String
  hint : String := ""
  deriving DecidableEq, Repr

/-- `issubclass(c, c')`, with the classes above one that is not built in. -/
def issubclass (bases : String → List PyClass) (c c' : PyClass) : Bool :=
  match c, c' with
  | .bool, .int => true
  | .other name, c' => c' = .other name || c' ∈ bases name || c' = .other "object"
  | c, c' => c = c' || c' = .other "object"

def unwrapConst : PyType → PyType
  | constExpr t => t
  | t => t

/-- `_is_simple_type`. -/
def isSimple : PyType → Bool
  | any | cls _ => true
  | _ => false

/-- `_get_type_candidates`. -/
def candidates (t : PyType) : Except UnsupportedTypeError (List PyType) :=
  match t with
  | any | cls _ => .ok [t]
  | union args => args.mapM fun arg =>
    if arg.isSimple then .ok arg
    else .error ⟨"cannot get type candidates for " ++ t.toDisplayStr ++ ", arg " ++ arg.toDisplayStr ++
      " is not a simple type", ""⟩
  | t => .error ⟨"cannot get type candidates for " ++ t.toDisplayStr ++ ", is an unknown generic", ""⟩

section

variable (bases : String → List PyClass)

/-- The body of `_is_acceptable_candidate`: a `bool` is no `int` here, and an `int` is a `float`. -/
def acceptable : PyType → PyType → Bool
  | any, _ | _, any => true
  | cls c, cls c' =>
    (issubclass bases c c' && !(c' = .int && c = .bool)) || (c' = .float && c = .int)
  | _, _ => false

/-- The end of `_is_compatible_type`, for types that are no invariant generics. -/
def compatibleCandidates (t t' : PyType) : Except UnsupportedTypeError Bool := do
  let ts ← t.candidates
  let ts' ← t'.candidates
  return ts.all fun t => ts'.any (acceptable bases t)

def isAny : PyType → Bool
  | any => true
  | _ => false

/-- `_is_compatible_type(t, t')`; inside a `ConstExpr`, with `outer` false, `Any` is a simple type as others are. -/
def compatible (outer : Bool) (t t' : PyType) : Except UnsupportedTypeError Bool :=
  if outer && (t.isAny || t'.isAny) then .ok true
  else
    let accepted := if outer then t'.unwrapConst else t'
    match t with
    | constExpr inner => if outer then compatible false inner accepted else compatibleCandidates bases t accepted
    | list item => match accepted with
      | list item' => compatible true item item'
      | _ => .ok false
    | invariant origin item => match accepted with
      | invariant origin' item' => if origin = origin' then compatible true item item' else .ok false
      | _ => .ok false
    | t => match accepted with
      | list _ | invariant .. => .ok false
      | accepted => compatibleCandidates bases t accepted

end

def maybePostExecutionType : PyType → Option PyType
  | cls (.other "RuleT") => some bool
  | cls (.other "TimeDeltaT") => some float
  | cls (.other "ExperimentT") => some (list str)
  | invariant "EntityT" item => some item
  | _ => none

/-- `CompatibleTypeInfo`: the type that the given type was unwrapped to, if it had to be. -/
structure CompatibleTypeInfo where
  unwrappedToType : Option PyType
  deriving Repr

/-- `is_compatible_type`: an error, or the information if the types are compatible. -/
def isCompatibleType (bases : String → List PyClass) (t t' : PyType) (allowUnwrap : Bool) :
    Except UnsupportedTypeError (Option CompatibleTypeInfo) := do
  if ← compatible bases true t t' then return some ⟨none⟩
  else match allowUnwrap, t.maybePostExecutionType with
    | true, some unwrapped =>
      if ← compatible bases true unwrapped t' then return some ⟨some unwrapped⟩ else return none
    | _, _ => return none

end PyType

end Osprey
