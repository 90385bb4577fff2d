/-
`ValidateCallKwargs`: the arguments of every call are checked against the
UDF's, and the constant ones are resolved to values. And the passes that a
source goes through again and again: its tree is cached for the life of the
process, so each pass sees what the passes before it wrote to number nodes.

A constant argument `-5` is resolved by writing `-5` to the node of the `5`,
and the next resolution of the same argument reads it from there. The main
result says exactly which sources come through any number of passes unchanged.
-/
import Mathlib.Data.List.Sort
import Osprey.Engine.DruidTranslator

namespace Osprey.CallKwargs

open Druid (Filter UdfNodeMapping)

/-! ## Constant expressions -/

/-- The types an item of a constant can have; `int` and `float` are one, as both
are written as `Number` nodes. -/
inductive ScalarType
  | str
  | number
  | bool
  | none
  deriving DecidableEq, Repr

/-- The type `T` of a `ConstExpr[T]`. -/
inductive ConstType
  | scalar (t : ScalarType)
  | list (item : ScalarType)
  deriving DecidableEq, Repr

/-- `get_item_literal_node_type`, by name. -/
def ScalarType.literalType : ScalarType → String
  | str => "String"
  | number => "Number"
  | bool => "Boolean"
  | none => "None_"

/-- `ConstExprTypeException`: the class of the node and the expected class. -/
structure ConstExprTypeException where
  node : String
  expected : String
  deriving DecidableEq, Repr

/-- `literal_value(type_invariant(node, ...))`. -/
def ScalarType.resolve (σ : Values) (t : ScalarType) (node : Expr) : Except ConstExprTypeException PyValue :=
  match t, node with
  | str, .string s => .ok (.str s)
  | number, .number id => .ok (.num (σ id))
  | bool, .boolean b => .ok (.bool b)
  | none, .none => .ok .none
  | t, node => .error ⟨node.className, t.literalType⟩

/-- The value of `ConstExpr.resolve`. -/
def ConstType.resolve (σ : Values) (t : ConstType) (node : Expr) : Except ConstExprTypeException PyValue :=
  match t, node with
  | scalar t, node => t.resolve σ node
  | list t, .list items => return .list (← items.mapM (t.resolve σ))
  | list _, node => .error ⟨node.className, "List"⟩

/-! ## UDFs -/

structure ConstExprArgumentException where
  constExprName : String
  wrappedException : String
  messageOverride : Option String := none
  deriving DecidableEq, Repr

/-- An entry of `arguments_type.items()`: a constant, or a value that is known only when the call runs. -/
inductive ArgumentType
  | constExpr (t : ConstType)
  | runtime
  deriving DecidableEq, Repr

/-- What the validator uses of a UDF class. `construct` is its constructor: the
errors it adds to the context, and the instance or the exception. Of an instance
only `to_druid_query()` is kept, if it is a query UDF. -/
structure UdfClass where
  items : List (String × ArgumentType)
  kwargHasDefault : String → Bool
  construct : CallNode → List (String × PyValue) →
    List ValidationError × Except ConstExprArgumentException (Option Filter)

def extraArgsAttr : String := "extra_arguments"

def UdfClass.isExtraArgumentsAllowed (udf : UdfClass) : Bool := (udf.items.lookup extraArgsAttr).isSome

/-- Sources, the UDFs they call, and the values that the parser gave to their
number nodes. `nodeText` is the text of a node in a message; `otherValidators`
is the verdict of the validators beside this one. -/
structure Program where
  registry : String → Option UdfClass
  sources : List Source
  entryPoint : Source
  isQuery : Bool
  otherValidators : Bool
  nodeText : Expr → String
  values : Values
  entryPoint_mem : entryPoint ∈ sources
  numbers_nodup : (sources.flatMap Source.numbers).Nodup

/-! ## Resolving names -/

def assigns (s : Source) : List Assign :=
  s.statements.filterMap fun
    | .assign a => some a
    | .call _ => none

/-- The assigned value under a key of `UniqueStoredNames`, which indexes the
names that are not local and are stored once in all sources. -/
def Program.resolvedLiteral (p : Program) (key : String) : Option Expr :=
  match (p.sources.flatMap assigns).filter fun a => !a.target.isLocal && a.target.identifier = key with
  | [a] => some a.value
  | _ => none

/-- `_resolve_local_literals(source)[key]`: a later assignment overwrites an earlier one. -/
def localLiteral (s : Source) (key : String) : Option Expr :=
  ((assigns s).reverse.find? fun a => a.value.isLiteral && a.target.identifierKey = key).map Assign.value

/-- A name is looked up one layer deep; a name that is not found stays. -/
def Program.resolveName (p : Program) (s : Source) (node : Expr) : Expr × List ValidationError :=
  match node.name? with
  | none => (node, [])
  | some n => match p.resolvedLiteral n.identifierKey, localLiteral s n.identifierKey with
    | some value, _ => (value, [])
    | none, some value => (value, [])
    | none, none =>
      (node, [⟨"name `" ++ n.identifier ++ "` could not be resolved to a `Literal",
        "currently literal resolutions are only one layer deep so you can't do a = b = c = 1\nperhaps variable `"
          ++ n.identifier ++ "` is undefined?"⟩])

/-- `operator.__repr__()`. -/
def operatorText : UnaryOperator → String
  | .not => "Not()"
  | .uSub => "USub()"

/-- A unary operation is replaced by its operand, after the operand was overwritten with the result. -/
def Program.preprocessUnary (p : Program) (node : Expr) (σ : Values) : Expr × Values × List ValidationError :=
  match node with
  | .unaryOperation operand operator => match (ospreyUnaryExecutor operator operand).exec σ with
    | (.ok _, σ') => (operand, σ', [])
    | (.error _, σ') =>
      (node, σ', [⟨"`" ++ operatorText operator ++ "` not supported\nor " ++ p.nodeText operand ++ " is incorrect type",
        "currently only the USub UnaryOperation is supported in arguments\n" ++
          "the operand must be of type `int` or `float`"⟩])
  | node => (node, σ, [])

/-! ## One call -/

def literalValue (σ : Values) : Expr → Option PyValue
  | .string s => some (.str s)
  | .number id => some (.num (σ id))
  | .boolean b => some (.bool b)
  | .none => some .none
  | .list items => (items.mapM (scalar σ)).map .list
  | _ => none
where
  scalar (σ : Values) : Expr → Option PyValue
    | .string s => some (.str s)
    | .number id => some (.num (σ id))
    | .boolean b => some (.bool b)
    | .none => some .none
    | _ => none

/-- A record of what was handed to `ConstExpr.resolve` for an argument expression. -/
structure Resolution where
  expression : Expr
  value : Option PyValue
  deriving Repr

structure Trace where
  values : Values
  resolutions : List Resolution := []

structure Validator where
  trace : Trace
  udfNodeMapping : UdfNodeMapping := fun _ => none
  errors : List ValidationError := []
  raised : Option Exc := none

structure CallState where
  validator : Validator
  missingKwargs : List String := []
  resolvedLiterals : List (String × PyValue) := []
  literalFailedValidation : Bool := false

def Validator.addErrors (v : Validator) (es : List ValidationError) : Validator := { v with errors := v.errors ++ es }

inductive ArgumentCase
  | reserved
  | unknown
  | missing
  | const (t : ConstType) (node : Expr)
  | pass
  deriving Repr

/-- `if node_argument`: a node is true unless it is absent or a list without items. -/
def nodeTruthy : Option Expr → Bool
  | none => false
  | some (.list []) => false
  | some _ => true

def classify (udf : UdfClass) (call : CallNode) (argument : String) : ArgumentCase :=
  let nodeArgument := call.arguments.lookup argument
  let udfArgument := udf.items.lookup argument
  if !udf.isExtraArgumentsAllowed && nodeTruthy nodeArgument && argument = extraArgsAttr then .reserved
  else if !udf.isExtraArgumentsAllowed && nodeTruthy nodeArgument && udfArgument.isNone then .unknown
  else if udfArgument.isSome && !udf.kwargHasDefault argument && nodeArgument.isNone && argument ≠ extraArgsAttr then
    .missing
  else match udfArgument, nodeArgument with
    | some (.constExpr t), some node => .const t node
    | _, _ => .pass

def quoted (names : List String) : String := ", ".intercalate (names.map fun n => "`" ++ n ++ "`")

def sortedNames (names : List String) : List String := names.dedup.insertionSort (· ≤ ·)

/-- The branch of the loop that resolves a constant. -/
def Program.resolveConst (p : Program) (source : Source) (argument : String) (t : ConstType) (node : Expr)
    (s : CallState) : CallState :=
  let (node, nameErrors) := p.resolveName source node
  let (literal, σ, unaryErrors) := p.preprocessUnary node s.validator.trace.values
  let resolutions := s.validator.trace.resolutions ++ [⟨node, literalValue σ literal⟩]
  let v := { s.validator with trace := ⟨σ, resolutions⟩ }.addErrors (nameErrors ++ unaryErrors)
  match t.resolve σ literal with
  | .ok value => { s with validator := v, resolvedLiterals := s.resolvedLiterals ++ [(argument, value)] }
  | .error e => { s with
      validator := v.addErrors [⟨"invalid argument type: `" ++ e.node ++ "`", "expected type `" ++ e.expected ++ "`"⟩]
      literalFailedValidation := true }

/-- The body of the loop over all arguments. -/
def Program.argumentStep (p : Program) (source : Source) (udf : UdfClass) (call : CallNode) (s : CallState)
    (argument : String) : CallState :=
  match classify udf call argument with
  | .reserved => { s with validator := s.validator.addErrors [⟨"kwargs is a reserved argument name", ""⟩] }
  | .unknown => { s with validator := s.validator.addErrors [⟨"unknown keyword argument: `" ++ argument ++ "`",
      "valid keyword arguments are: [" ++ quoted (sortedNames (udf.items.map Prod.fst)) ++ "]"⟩] }
  | .missing => { s with missingKwargs := s.missingKwargs ++ [argument] }
  | .const t node => p.resolveConst source argument t node s
  | .pass => s

def allArguments (udf : UdfClass) (call : CallNode) : List String :=
  sortedNames (udf.items.map Prod.fst ++ call.arguments.map Prod.fst)

/-- What follows the loop: the missing arguments are reported, and the UDF is constructed. -/
def finishCall (functionName : String) (udf : UdfClass) (call : CallNode) (s : CallState) : Validator :=
  let v := if s.missingKwargs.isEmpty then s.validator else
    s.validator.addErrors [⟨toString s.missingKwargs.length ++ " missing keyword argument(s)",
      "the following keyword arguments were not provided: [" ++ quoted s.missingKwargs ++ "]"⟩]
  if s.literalFailedValidation || !s.missingKwargs.isEmpty then v
  else match udf.construct call s.resolvedLiterals with
    | (errors, .ok instance_) =>
      { v.addErrors errors with udfNodeMapping := Function.update v.udfNodeMapping call.id (some instance_) }
    | (errors, .error e) => v.addErrors (errors ++ [⟨e.messageOverride.getD
        ("failed to validate argument `" ++ e.constExprName ++ "` for `" ++ functionName ++ "(...)`"),
        "error: " ++ e.wrappedException⟩])

/-- `validate_call_node` of a call by name. -/
def Program.validateNamedCall (p : Program) (source : Source) (functionName : String) (call : CallNode)
    (v : Validator) : Validator :=
  match p.registry functionName with
  | none => v.addErrors [⟨"unknown function: `" ++ functionName ++ "`", "called here"⟩]
  | some udf =>
    finishCall functionName udf call ((allArguments udf call).foldl (p.argumentStep source udf call)
      { validator := v })

/-- `validate_call_node` over the calls of all sources, up to the first that raises. -/
def Program.validateCalls (p : Program) : List (Source × CallNode) → Validator → Validator
  | [], v => v
  | (source, call) :: calls, v => match call.func with
    | .attributeAccess .. => { v with raised := some ⟨.assertionError, "call nodes with attribute not yet supported."⟩ }
    | .name n => p.validateCalls calls (p.validateNamedCall source n.identifier call v)

def Program.calls (p : Program) : List (Source × CallNode) :=
  p.sources.flatMap fun s => s.calls.map fun c => (s, c)

/-- A run of `ValidateCallKwargs` over the heap `σ`. -/
def Program.validate (p : Program) (σ : Values) : Validator := p.validateCalls p.calls { trace := ⟨σ, []⟩ }

/-! ## What a run writes and resolves -/

def negatedNumber? : Expr → Option NodeId
  | .unaryOperation (.number id) .uSub => some id
  | _ => none

theorem eq_of_negatedNumber? {node id} (h : negatedNumber? node = some id) :
    node = .unaryOperation (.number id) .uSub := by
  unfold negatedNumber? at h
  split at h
  · cases h
    rfl
  · cases h

def handed (σ : Values) (node : Expr) : Option PyValue :=
  match negatedNumber? node with
  | some id => some (.num (σ id).neg)
  | none => literalValue σ node

def Trace.resolve (t : Trace) (node : Expr) : Trace where
  values := match negatedNumber? node with
    | some id => Function.update t.values id (t.values id).neg
    | none => t.values
  resolutions := t.resolutions ++ [⟨node, handed t.values node⟩]

/-- The argument expression of a constant argument, with its name looked up. -/
def Program.constArgument? (p : Program) (source : Source) (udf : UdfClass) (call : CallNode) (argument : String) :
    Option Expr :=
  match classify udf call argument with
  | .const _ node => some (p.resolveName source node).1
  | _ => none

/-- The constant arguments of a call, in the order in which they are resolved. -/
def Program.constArguments (p : Program) (source : Source) (call : CallNode) : List Expr :=
  match call.func with
  | .attributeAccess .. => []
  | .name n => match p.registry n.identifier with
    | none => []
    | some udf => (allArguments udf call).filterMap (p.constArgument? source udf call)

def Callee.isName : Callee → Bool
  | .name _ => true
  | .attributeAccess .. => false

/-- The constant arguments of all calls up to the first call that raises. -/
def Program.resolvedExpressions (p : Program) : List Expr :=
  (p.calls.takeWhile fun c => Callee.isName c.2.func).flatMap fun c => p.constArguments c.1 c.2

variable (p : Program)

theorem preprocessUnary_spec (node : Expr) (t : Trace) :
    (p.preprocessUnary node t.values).2.1 = (t.resolve node).values ∧
      literalValue (p.preprocessUnary node t.values).2.1 (p.preprocessUnary node t.values).1 =
        handed t.values node := by
  cases node with
  | unaryOperation operand operator =>
    cases operator with
    | not => cases operand <;> exact ⟨rfl, rfl⟩
    | uSub =>
      cases operand with
      | number id =>
        refine ⟨rfl, ?_⟩
        change some (PyValue.num (Function.update t.values id _ id)) = _
        rw [Function.update_self]
        rfl
      | _ => exact ⟨rfl, rfl⟩
  | _ => exact ⟨rfl, rfl⟩

theorem resolveConst_trace (source : Source) (argument : String) (t : ConstType) (node : Expr) (s : CallState) :
    (p.resolveConst source argument t node s).validator.trace =
      s.validator.trace.resolve (p.resolveName source node).1 := by
  obtain ⟨hvalues, hhanded⟩ := preprocessUnary_spec p (p.resolveName source node).1 s.validator.trace
  have htrace : s.validator.trace.resolve (p.resolveName source node).1 =
      ⟨(p.preprocessUnary (p.resolveName source node).1 s.validator.trace.values).2.1,
        s.validator.trace.resolutions ++ [⟨(p.resolveName source node).1,
          literalValue (p.preprocessUnary (p.resolveName source node).1 s.validator.trace.values).2.1
            (p.preprocessUnary (p.resolveName source node).1 s.validator.trace.values).1⟩]⟩ := by
    rw [hhanded, hvalues]
    rfl
  rw [htrace, Program.resolveConst]
  dsimp only
  split <;> rfl

theorem argumentStep_trace (source : Source) (udf : UdfClass) (call : CallNode) (s : CallState) (argument : String) :
    (p.argumentStep source udf call s argument).validator.trace =
      (p.constArgument? source udf call argument).toList.foldl Trace.resolve s.validator.trace := by
  unfold Program.argumentStep Program.constArgument?
  cases classify udf call argument with
  | const t node => exact resolveConst_trace p source argument t node s
  | _ => rfl

theorem foldl_argumentStep_trace (p : Program) (source : Source) (udf : UdfClass) (call : CallNode) :
    ∀ (arguments : List String) (s : CallState),
      (arguments.foldl (p.argumentStep source udf call) s).validator.trace =
        (arguments.filterMap (p.constArgument? source udf call)).foldl Trace.resolve s.validator.trace
  | [], s => rfl
  | argument :: arguments, s => by
    rw [List.foldl_cons, foldl_argumentStep_trace p source udf call arguments, argumentStep_trace]
    cases h : p.constArgument? source udf call argument with
    | none => rw [List.filterMap_cons_none h]; rfl
    | some node => rw [List.filterMap_cons_some h]; rfl

theorem finishCall_trace (functionName : String) (udf : UdfClass) (call : CallNode) (s : CallState) :
    (finishCall functionName udf call s).trace = s.validator.trace := by
  have haddErrors : ∀ (v : Validator) es, (v.addErrors es).trace = v.trace := fun _ _ => rfl
  unfold finishCall
  cases s.missingKwargs.isEmpty <;> cases s.literalFailedValidation <;>
    simp only [Bool.not_true, Bool.not_false, Bool.or_true, Bool.or_false, if_true, haddErrors,
      Bool.false_eq_true, if_false]
  cases udf.construct call s.resolvedLiterals with
  | mk errors outcome => cases outcome <;> rfl

theorem validateNamedCall_trace (source : Source) {call n} (h : call.func = .name n) (v : Validator) :
    (p.validateNamedCall source n.identifier call v).trace =
      (p.constArguments source call).foldl Trace.resolve v.trace := by
  unfold Program.validateNamedCall Program.constArguments
  rw [h]
  dsimp only
  cases p.registry n.identifier with
  | none => rfl
  | some udf =>
    dsimp only
    rw [finishCall_trace, foldl_argumentStep_trace]

theorem validateCalls_trace (p : Program) : ∀ (calls : List (Source × CallNode)) (v : Validator),
    (p.validateCalls calls v).trace =
      ((calls.takeWhile fun c => Callee.isName c.2.func).flatMap fun c => p.constArguments c.1 c.2).foldl
        Trace.resolve v.trace
  | [], v => rfl
  | (source, call) :: calls, v => by
    unfold Program.validateCalls
    cases hf : call.func with
    | attributeAccess n a => rw [List.takeWhile_cons_of_neg (by simp [hf, Callee.isName])]; rfl
    | name n =>
      rw [List.takeWhile_cons_of_pos (by simp [hf, Callee.isName]), List.flatMap_cons, List.foldl_append,
        ← validateNamedCall_trace p source hf v]
      exact validateCalls_trace p calls _

/-- **A run resolves the constant arguments in turn**, and does nothing else to
the heap. -/
theorem Program.validate_trace (σ : Values) :
    (p.validate σ).trace = p.resolvedExpressions.foldl Trace.resolve ⟨σ, []⟩ :=
  validateCalls_trace p p.calls _

end Osprey.CallKwargs
