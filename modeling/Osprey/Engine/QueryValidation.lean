/-
`parse_query_to_validated_ast`: the validators that a query goes through, and
whether what they accept can be translated to a Druid filter.

The validators and the translator walk the same tree separately. A query is
accepted if its types fit, but the translator knows no filter for a feature that
stands for itself, as in `not A`, nor for a comparison without a feature. The
main result says exactly which of the accepted queries are translated.
-/
import Osprey.Engine.AcceptedCalls
import Osprey.Engine.AstPasses
import Osprey.Engine.DefinedNames
import Osprey.Engine.StaticTypes

namespace Osprey.QueryValidation

open CallKwargs (Program UdfClass Validator)
open Druid (Filter UdfNodeMapping getAstNodeValue getAstNodeValues getComparisonDimension getComparisonValue
  transformValueComparison transformBinaryComparison transformCall transform transformAll)
open StaticTypes (Cache Signature)

/-! ## The UDFs of queries -/

/-- The value of an argument of type `ConstExpr[str]`. -/
def text (literals : List (String × PyValue)) (argument : String) : String :=
  match literals.lookup argument with
  | some (.str s) => s
  | _ => ""

/-- A query UDF all whose arguments are constant texts. -/
def constantUdf (arguments : List String) (toDruidQuery : List (String × PyValue) → Filter) : UdfClass where
  items := arguments.map fun argument => (argument, .constExpr (.scalar .str))
  kwargHasDefault _ := false
  construct _ literals := ([], .ok (some (toDruidQuery literals)))

def didDeclareVerdict : UdfClass :=
  constantUdf ["verdict"] fun literals => .arrayContainsElement "__verdicts" "STRING" (text literals "verdict")

/-- `DidAddLabel` and `DidRemoveLabel`, with the text of the status. -/
def didMutateLabel (labelStatus : String) : UdfClass :=
  constantUdf ["entity_type", "label_name"] fun literals => .like "__entity_label_mutations"
    ("%" ++ text literals "entity_type" ++ "/" ++ text literals "label_name" ++ "/" ++ labelStatus ++ "%")

/-- `RegexMatch`. The text of the exception is what `re.compile` raises, if it does. -/
def regexMatch (compile : String → Option String) : UdfClass where
  items := [("item", .runtime), ("regex", .constExpr (.scalar .str))]
  kwargHasDefault _ := false
  construct call literals :=
    let regex := text literals "regex"
    match compile regex with
    | some wrapped => ([], .error ⟨"regex", wrapped, none⟩)
    | none => match (call.arguments.lookup "item").bind Expr.name? with
      | some n => ([], .ok (some (.regex n.identifier regex)))
      | none => ([⟨"expected variable", "argument `item` must be a variable"⟩], .ok (some (.regex "" regex)))

/-- `UDF_REGISTRY` of the query language. -/
def udfRegistry (compile : String → Option String) (f : String) : Option UdfClass :=
  if f = "DidDeclareVerdict" then some didDeclareVerdict
  else if f = "DidAddLabel" then some (didMutateLabel "1")
  else if f = "DidRemoveLabel" then some (didMutateLabel "0")
  else if f = "RegexMatch" then some (regexMatch compile)
  else none

/-- The types of the arguments and results of these UDFs. -/
def signatures (f : String) : Option Signature :=
  let constText : PyType := .constExpr .str
  if f = "DidDeclareVerdict" then some ⟨f, [("verdict", constText)], .bool⟩
  else if f = "DidAddLabel" ∨ f = "DidRemoveLabel" then
    some ⟨f, [("entity_type", constText), ("label_name", constText)], .bool⟩
  else if f = "RegexMatch" then some ⟨f, [("item", .str), ("regex", constText)], .bool⟩
  else none

/-! ## Queries -/

/-- A parsed query, `Query = ...`, with what may follow it in the text. -/
structure Query where
  program : Program
  names : RuleSet
  compile : String → Option String
  root : Expr
  rest : List Statement
  registry_eq : program.registry = udfRegistry compile
  sources_eq : program.sources = [program.entryPoint]
  names_sources : names.sources = program.sources
  statements_eq : program.entryPoint.statements = .assign ⟨⟨"Query", "main.sml"⟩, root, none⟩ :: rest

/-- The results of the rules' validators that a query is validated with. -/
structure Rules where
  names : List String
  types : Cache
  bases : String → List PyClass
  typeText : PyType → String
  closest : String → List String → Option String

def Rules.toPostExecutionTypes (rules : Rules) : Cache := fun key =>
  (rules.types key).map fun entry => { entry with type := entry.type.maybePostExecutionType.getD entry.type }

/-! ## The validators of queries -/

def operatorClassName : Operator → String
  | .add => "Add"
  | .subtract => "Subtract"
  | .multiply => "Multiply"
  | .divide => "Divide"
  | .floorDivide => "FloorDivide"
  | .modulo => "Modulo"
  | .pow => "Pow"
  | .leftShift => "LeftShift"
  | .rightShift => "RightShift"
  | .bitwiseOr => "BitwiseOr"
  | .bitwiseXor => "BitwiseXor"
  | .bitwiseAnd => "BitwiseAnd"

def unexpectedCallee : Callee → List String
  | .name _ => []
  | .attributeAccess .. => ["Attribute"]

mutual

/-- The classes of the nodes that are not among `ALLOWED_NODES`. -/
def unexpectedNodes : Expr → List String
  | .string _ | .number _ | .boolean _ | .none | .name _ => []
  | .attributeAccess .. => ["Attribute"]
  | .formatString .. => ["FormatString"]
  | .binaryOperation left right operator =>
    "BinaryOperation" :: (unexpectedNodes left ++ unexpectedNodes right ++ [operatorClassName operator])
  | .list items => unexpectedNodesOf items
  | .call _ func arguments => unexpectedCallee func ++ unexpectedArguments arguments
  | .unaryOperation operand _ => unexpectedNodes operand
  | .binaryComparison left right _ => unexpectedNodes left ++ unexpectedNodes right
  | .booleanOperation values _ => unexpectedNodesOf values

def unexpectedNodesOf : List Expr → List String
  | [] => []
  | e :: es => unexpectedNodes e ++ unexpectedNodesOf es

def unexpectedArguments : List (String × Expr) → List String
  | [] => []
  | (_, e) :: es => unexpectedNodes e ++ unexpectedArguments es

end

mutual

/-- The expressions of a tree, in the order of `iter_nodes`. -/
def subtrees : Expr → List Expr
  | e@(.list items) => e :: subtreesOf items
  | e@(.call _ _ arguments) => e :: argumentSubtrees arguments
  | e@(.binaryOperation left right _) => e :: (subtrees left ++ subtrees right)
  | e@(.unaryOperation operand _) => e :: subtrees operand
  | e@(.binaryComparison left right _) => e :: (subtrees left ++ subtrees right)
  | e@(.booleanOperation values _) => e :: subtreesOf values
  | e => [e]

def subtreesOf : List Expr → List Expr
  | [] => []
  | e :: es => subtrees e ++ subtreesOf es

def argumentSubtrees : List (String × Expr) → List Expr
  | [] => []
  | (_, e) :: es => subtrees e ++ argumentSubtrees es

end

def statementSubtrees : Statement → List Expr
  | .assign a => subtrees a.value
  | .call c => argumentSubtrees c.arguments

/-- `BinaryComparisonMustNotBeAllLiteral`, of one node. -/
def comparisonErrors : Expr → List ValidationError
  | .binaryComparison left right comparator =>
    if left.isLiteral && right.isLiteral then
      [⟨"cannot compare a literal to another literal",
        "one side of the `" ++ StaticTypes.originalComparator comparator ++
          "` comparison must be a non-literal (non-constant) value"⟩]
    else []
  | _ => []

/-- `BooleanOperationMustNotBeAllLiteral`, of one node. -/
def booleanErrors : Expr → List ValidationError
  | .booleanOperation values operand =>
    if values.all Expr.isLiteral then
      [⟨"one value must be a literal", "one side of the `" ++ StaticTypes.originalOperand operand ++
        "` must be a non-literal (non-constant) value"⟩]
    else []
  | _ => []

/-- `UnaryNotOperationMustNotBeLiteral`, of one node. -/
def notErrors (nodeText : Expr → String) : Expr → List ValidationError
  | .unaryOperation operand .not =>
    if operand.isLiteral then
      [⟨"the operand must not be a literal",
        "the right side of the `" ++ nodeText operand ++ "` must be a non-literal (non-constant) value"⟩]
    else []
  | _ => []

/-- `QueryRootIsBooleanOperationBinaryComparisonOrCall`. -/
def rootErrors : Expr → List ValidationError
  | .booleanOperation .. | .binaryComparison .. | .call .. | .unaryOperation .. => []
  | e => [⟨"the query must be a `BooleanOperation`, `BinaryComparison`, `UnaryOperation`, or a `Call`",
      "you have provided a `" ++ e.className ++ "`, try something like `ActionName != True`"⟩]

namespace Query

variable (q : Query)

def main : Source := q.program.entryPoint

def onlyQueryAstNodes : List ValidationError :=
  (unexpectedNodes q.root).map fun className => ⟨"unexpected node type: `" ++ className ++ "`", ""⟩

def onlyOneStatementInAstRoot : List ValidationError :=
  q.rest.map fun _ => ⟨"unexpected Node", "you cannot define additional statements within the query"⟩

def literalErrors : List ValidationError :=
  let nodes := q.main.statements.flatMap statementSubtrees
  nodes.flatMap comparisonErrors ++ nodes.flatMap booleanErrors ++ nodes.flatMap (notErrors q.program.nodeText)

def staticTypes (rules : Rules) : Except Exc Unit × List ValidationError :=
  (StaticTypes.Context.validateAssign ⟨signatures, rules.bases, q.program.values, rules.typeText⟩
    rules.toPostExecutionTypes ⟨⟨"Query", "main.sml"⟩, q.root, none⟩).run []

def variablesMustBeDefined (rules : Rules) : Except Exc RuleSet.Scope :=
  q.main.nodes.foldlM (q.names.visitNode rules.closest) { known := rules.names }

def callKwargs : Validator := q.program.validate q.program.values

/-- The validators find no error in the query. The ones that are not here look at
nothing that such a query has: imports, locals, descriptions of rules, calls
without a result or with a dynamic one, experiments and entities. -/
structure Accepted (rules : Rules) : Prop where
  onlyQueryAstNodes : q.onlyQueryAstNodes = []
  onlyOneStatement : q.onlyOneStatementInAstRoot = []
  literals : q.literalErrors = []
  root : rootErrors q.root = []
  callKwargs_errors : q.callKwargs.errors = []
  callKwargs_raised : q.callKwargs.raised = none
  uniqueStoredNames : q.names.uniqueStoredNames = []
  defined : ∃ scope, q.variablesMustBeDefined rules = .ok scope ∧ scope.errors = []
  staticTypes : q.staticTypes rules = (.ok (), [])

/-- `DruidQueryTransformer(validated_sources).transform()`. -/
def transform : Except Exc Filter :=
  ((q.program.transform q.callKwargs.udfNodeMapping).exec q.callKwargs.trace.values).1

end Query

/-! ## Queries that can be translated -/

mutual

/-- A node with a value: a literal without names, or a number after a minus. -/
def hasValue : Expr → Bool
  | .unaryOperation (.number _) .uSub => true
  | .list items => allHaveValue items
  | .none | .string _ | .number _ | .boolean _ => true
  | _ => false

def allHaveValue : List Expr → Bool
  | [] => true
  | e :: es => hasValue e && allHaveValue es

end

/-- The side of a comparison that its value is taken from. -/
def valueNode? (left right : Expr) : Option Expr :=
  if left.isLiteral || left.isUnaryOperation then some left
  else if right.isLiteral || right.isUnaryOperation then some right
  else none

/-- A comparator that has a filter for a value of this node: `in` needs a text or a list, and an order a
number, a truth value or a text. -/
def comparesWith (comparator : Comparator) (node : Option Expr) : Bool :=
  match comparator with
  | .equals | .notEquals => true
  | .in_ | .notIn => match node with
    | some (.string _) | some (.list _) => true
    | _ => false
  | .lessThan | .lessThanEquals | .greaterThan | .greaterThanEquals => match node with
    | some (.number _) | some (.boolean _) | some (.string _) | some (.unaryOperation ..) => true
    | _ => false

/-- Two features are compared with `==` or `!=`, and one feature with a value that the comparator takes. -/
def comparisonTranslatable (left right : Expr) (comparator : Comparator) : Bool :=
  match left.name?, right.name? with
  | some _, some _ => comparator = .equals || comparator = .notEquals
  | none, none => false
  | _, _ => (valueNode? left right).all hasValue && comparesWith comparator (valueNode? left right)

mutual

/-- Combinations by `and`, `or` and `not` of calls and of comparisons that have a filter. -/
def translatable : Expr → Bool
  | .booleanOperation values _ => allTranslatable values
  | .binaryComparison left right comparator => comparisonTranslatable left right comparator
  | .unaryOperation operand .not => translatable operand
  | .call .. => true
  | _ => false

def allTranslatable : List Expr → Bool
  | [] => true
  | e :: es => translatable e && allTranslatable es

end

/-! ## Code whose outcome does not depend on the heap -/

section

variable {α β : Type}

/-- The code returns if `b` holds, with results that satisfy `P`, and raises otherwise, over every heap. -/
def Decides (x : AstM α) (b : Bool) (P : α → Prop) : Prop :=
  ∀ σ, match x.exec σ with
    | (.ok a, _) => b = true ∧ P a
    | (.error _, _) => b = false

theorem Decides.pure {a} {P : α → Prop} (h : P a) : Decides (Pure.pure a) true P := fun _ => ⟨rfl, h⟩

theorem Decides.throw {e P} : Decides (MonadExcept.throw e : AstM α) false P := fun _ => rfl

theorem Decides.bind {x f b c} {P : α → Prop} {Q : β → Prop}
    (hx : Decides x b P) (hf : ∀ a, P a → Decides (f a) c Q) : Decides (x >>= f) (b && c) Q := by
  intro σ
  have hσ := hx σ
  rw [AstM.exec_bind]
  generalize x.exec σ = outcome at hσ ⊢
  obtain ⟨r, σ'⟩ := outcome
  cases r with
  | error e =>
    have hb : b = false := hσ
    simp [hb]
  | ok a =>
    obtain ⟨rfl, ha⟩ := hσ
    exact hf a ha σ'

end

/-! ## One comparison -/

def valueKind : Expr → PyValue → Prop
  | .list _, v => ∃ items, v = .list items
  | .none, v => v = .none
  | .string _, v => ∃ s, v = .str s
  | .number _, v | .unaryOperation .., v => ∃ x, v = .num x
  | .boolean _, v => ∃ b, v = .bool b
  | _, _ => True

/-- The value of a comparison, of the kind of the node it is taken from. -/
def comparisonKind (node : Option Expr) (v : PyValue) : Prop :=
  match node with
  | some e => valueKind e v
  | none => v = .none

theorem decides_getAstNodeValues {es : List Expr}
    (h : ∀ e ∈ es, Decides (getAstNodeValue e) (hasValue e) (valueKind e)) :
    Decides (getAstNodeValues es) (allHaveValue es) fun _ => True := by
  induction es with
  | nil => exact .pure trivial
  | cons e es ih =>
    obtain ⟨he, hes⟩ := List.forall_mem_cons.mp h
    rw [getAstNodeValues, allHaveValue]
    refine he.bind fun v _ => ?_
    rw [← Bool.and_true (allHaveValue es)]
    exact (ih hes).bind fun vs _ => .pure trivial

theorem decides_getAstNodeValue (e : Expr) : Decides (getAstNodeValue e) (hasValue e) (valueKind e) := by
  induction e with
  | unaryOperation operand operator =>
    cases operator <;> cases operand <;> first
      | exact fun _ => rfl
      | exact fun σ => ⟨rfl, _, rfl⟩
  | list items ih =>
    rw [getAstNodeValue, hasValue, ← Bool.and_true (allHaveValue items)]
    exact (decides_getAstNodeValues ih).bind fun vs _ => .pure ⟨vs, rfl⟩
  | none => exact fun σ => ⟨rfl, rfl⟩
  | string | number | boolean => exact fun σ => ⟨rfl, _, rfl⟩
  | _ => exact fun _ => rfl

theorem decides_getComparisonValue (left right : Expr) :
    Decides (getComparisonValue left right) ((valueNode? left right).all hasValue)
      (comparisonKind (valueNode? left right)) := by
  unfold getComparisonValue valueNode?
  split
  · exact decides_getAstNodeValue left
  · split
    · exact decides_getAstNodeValue right
    · exact .pure rfl

theorem decides_getComparisonDimension (left right : Expr) :
    Decides (getComparisonDimension left right) (left.name?.isSome || right.name?.isSome) fun _ => True := by
  unfold getComparisonDimension
  cases left.name? with
  | some n => exact .pure trivial
  | none => cases right.name? with
    | some n => exact .pure trivial
    | none => exact .throw

theorem decides_transformValueComparison (dimension : String) (comparator : Comparator) {node v}
    (hnode : ∀ e ∈ node, e.isLiteral || e.isUnaryOperation) (hv : comparisonKind node v) :
    Decides (transformValueComparison dimension v comparator) (comparesWith comparator node) fun _ => True := by
  cases node with
  | none =>
    cases hv
    cases comparator <;> first
      | exact fun _ => rfl
      | exact fun _ => ⟨rfl, trivial⟩
  | some e =>
    have he := hnode e rfl
    cases e with
    | none =>
      cases hv
      cases comparator <;> first
        | exact fun _ => rfl
        | exact fun _ => ⟨rfl, trivial⟩
    | string _ | number _ | boolean _ | list _ | unaryOperation _ _ =>
      obtain ⟨x, rfl⟩ := hv
      cases comparator <;> first
        | exact fun _ => rfl
        | exact fun _ => ⟨rfl, trivial⟩
    | _ => cases he

theorem mem_valueNode? {left right e} (h : e ∈ valueNode? left right) : e.isLiteral || e.isUnaryOperation := by
  unfold valueNode? at h
  split at h
  · next hleft =>
    cases h
    exact hleft
  · split at h
    · next hright =>
      cases h
      exact hright
    · cases h

/-- **One comparison.** It is translated exactly if it is of the form that has a filter. -/
theorem decides_transformBinaryComparison (left right : Expr) (comparator : Comparator) :
    Decides (transformBinaryComparison left right comparator) (comparisonTranslatable left right comparator)
      fun _ => True := by
  have hvalue : Decides
      (do transformValueComparison (← getComparisonDimension left right) (← getComparisonValue left right) comparator)
      ((left.name?.isSome || right.name?.isSome) &&
        ((valueNode? left right).all hasValue && comparesWith comparator (valueNode? left right))) fun _ => True :=
    (decides_getComparisonDimension left right).bind fun dimension _ =>
      (decides_getComparisonValue left right).bind fun v hv =>
        decides_transformValueComparison dimension comparator (fun e he => mem_valueNode? he) hv
  unfold transformBinaryComparison comparisonTranslatable
  cases hleft : left.name? with
  | none =>
    rw [hleft] at hvalue
    cases hright : right.name? with
    | none => simpa [hright] using hvalue
    | some n => simpa [hright] using hvalue
  | some n =>
    rw [hleft] at hvalue
    cases hright : right.name? with
    | none => simpa [hright] using hvalue
    | some n' =>
      cases comparator <;> first
        | exact fun _ => rfl
        | exact fun _ => ⟨rfl, trivial⟩

/-! ## The whole query -/

def AllQueryUdfs (mapping : UdfNodeMapping) : Prop := ∀ id instance_, mapping id = some instance_ → instance_.isSome

section

variable {mapping : UdfNodeMapping}

theorem decides_transform (hudfs : AllQueryUdfs mapping) (e : Expr) (hcalls : ∀ c ∈ e.calls, (mapping c.id).isSome) :
    Decides (transform mapping e) (translatable e) fun _ => True := by
  induction e with
  | booleanOperation values operand ih =>
    have hvalues : Decides (transformAll mapping values) (allTranslatable values) fun _ => True := by
      rw [Expr.calls] at hcalls
      induction values with
      | nil => exact .pure trivial
      | cons e es ihes =>
        obtain ⟨he, hes⟩ := List.forall_mem_cons.mp ih
        obtain ⟨hcall, hcalls⟩ := List.forall_mem_append.mp hcalls
        rw [transformAll, allTranslatable, ← Bool.and_true (allTranslatable es)]
        exact (he hcall).bind fun _ _ => (ihes hes hcalls).bind fun _ _ => .pure trivial
    rw [transform, translatable, ← Bool.and_true (allTranslatable values)]
    exact hvalues.bind fun _ _ => .pure trivial
  | binaryComparison left right comparator =>
    rw [transform, translatable]
    exact decides_transformBinaryComparison left right comparator
  | unaryOperation operand operator ih =>
    cases operator with
    | not =>
      rw [transform, translatable, ← Bool.and_true (translatable operand)]
      exact (ih hcalls).bind fun _ _ => .pure trivial
    | uSub => exact fun _ => rfl
  | call id func arguments =>
    obtain ⟨instance_, hmapped⟩ := Option.isSome_iff_exists.mp (hcalls ⟨id, func, arguments⟩ List.mem_cons_self)
    obtain ⟨filter, rfl⟩ := Option.isSome_iff_exists.mp (hudfs id instance_ hmapped)
    rw [transform, translatable, transformCall, hmapped]
    exact .pure trivial
  | _ => exact fun _ => rfl

end

/-- A query that is accepted against some rules. -/
structure AcceptedQuery where
  query : Query
  rules : Rules
  accepted : query.Accepted rules

theorem isSome_of_construct {compile f udf call literals instance_} (hudf : udfRegistry compile f = some udf)
    (h : (udf.construct call literals).2 = .ok instance_) : instance_.isSome := by
  unfold udfRegistry at hudf
  split at hudf
  · cases hudf
    cases h
    rfl
  · split at hudf
    · cases hudf
      cases h
      rfl
    · split at hudf
      · cases hudf
        cases h
        rfl
      · split at hudf
        · cases hudf
          simp only [regexMatch] at h
          split at h
          · cases h
          · split at h <;> cases h <;> rfl
        · cases hudf

namespace AcceptedQuery

variable (Q : AcceptedQuery)

theorem allQueryUdfs : AllQueryUdfs Q.query.callKwargs.udfNodeMapping := by
  refine CallKwargs.udfNodeMapping_validateCalls (fun f udf call literals instance_ hudf h => ?_)
    fun id instance_ h => by cases h
  rw [Q.query.registry_eq] at hudf
  exact isSome_of_construct hudf h

theorem calls_mapped : ∀ c ∈ Q.query.root.calls, (Q.query.callKwargs.udfNodeMapping c.id).isSome := by
  intro c hc
  have hmain : c ∈ Q.query.program.entryPoint.calls := by
    rw [Source.calls, Q.query.statements_eq]
    exact List.mem_flatMap.mpr ⟨_, List.mem_cons_self, hc⟩
  have hcalls : (Q.query.program.entryPoint, c) ∈ Q.query.program.calls :=
    List.mem_flatMap.mpr ⟨_, Q.query.program.entryPoint_mem, List.mem_map.mpr ⟨c, hmain, rfl⟩⟩
  exact (CallKwargs.validateCalls_fine Q.accepted.callKwargs_errors Q.accepted.callKwargs_raised _ hcalls).2

/-- **Which accepted queries are translated.** `DruidQueryTransformer.transform`
of an accepted query returns a filter exactly if the query is a combination by
`and`, `or` and `not` of calls and of comparisons that have a filter. -/
theorem transform_returns_iff : (∃ filter, Q.query.transform = .ok filter) ↔ translatable Q.query.root = true := by
  have hroot : Q.query.program.transform Q.query.callKwargs.udfNodeMapping =
      Druid.transform Q.query.callKwargs.udfNodeMapping Q.query.root := by
    rw [Program.transform, Program.queryRoot, Q.query.statements_eq]
  have hdecides := decides_transform Q.allQueryUdfs Q.query.root Q.calls_mapped Q.query.callKwargs.trace.values
  rw [Query.transform, hroot]
  generalize (Druid.transform Q.query.callKwargs.udfNodeMapping Q.query.root).exec
    Q.query.callKwargs.trace.values = outcome at hdecides ⊢
  obtain ⟨r, σ⟩ := outcome
  cases r with
  | ok filter => exact ⟨fun _ => hdecides.1, fun _ => ⟨filter, rfl⟩⟩
  | error e =>
    have hfalse : translatable Q.query.root = false := hdecides
    simp [hfalse]

end AcceptedQuery

/-! ## Accepted queries that are not translated -/

def feature (identifier : String) : Expr := .name ⟨identifier, "main.sml"⟩

def mainOf (root : Expr) : Source := ⟨"main.sml", [.assign ⟨⟨"Query", "main.sml"⟩, root, none⟩]⟩

/-- The query with this tree, whose numbers are all 5. -/
def queryOf (root : Expr) (hnumbers : (mainOf root).numbers.Nodup)
    (hnames : ∀ n ∈ (mainOf root).names, n.path = "main.sml" ∧ '/' ∉ n.identifier.toList) : Query where
  program := ⟨udfRegistry fun _ => none, [mainOf root], mainOf root, true, true, Expr.className, fun _ => .int 5,
    List.mem_singleton_self _, by simpa using hnumbers⟩
  names := ⟨[mainOf root], List.nodup_singleton _, mainOf root, List.mem_singleton_self _,
    fun s hs n hn => (by cases List.mem_singleton.mp hs; exact (hnames n hn).1),
    fun s hs n hn => (by cases List.mem_singleton.mp hs; exact (hnames n hn).2),
    fun _ => ⟨false, none, fun _ => false⟩, fun _ => none, id, fun _ => .rfl⟩
  compile := fun _ => none
  root := root
  rest := []
  registry_eq := rfl
  sources_eq := rfl
  names_sources := rfl
  statements_eq := rfl

/-- Rules with the features `Banned: bool`, `Score: int`, `Limit: int` and `Levels: List[int]`. -/
def fourFeatures : Rules where
  names := ["Banned", "Score", "Limit", "Levels"]
  types := fun key => [("Banned", ⟨.bool, true, none⟩), ("Score", ⟨.int, true, none⟩), ("Limit", ⟨.int, true, none⟩),
    ("Levels", ⟨.list .int, true, none⟩)].lookup key
  bases := fun _ => []
  typeText := PyType.displayStr
  closest := fun _ _ => none

/-- `not Banned`. -/
def notBanned : AcceptedQuery where
  query := queryOf (.unaryOperation (feature "Banned") .not) (by decide) (by decide)
  rules := fourFeatures
  accepted := ⟨rfl, rfl, rfl, rfl, rfl, rfl, rfl, ⟨_, rfl, rfl⟩, rfl⟩

/-- `Score < Limit`. -/
def scoreBelowLimit : AcceptedQuery where
  query := queryOf (.binaryComparison (feature "Score") (feature "Limit") .lessThan) (by decide) (by decide)
  rules := fourFeatures
  accepted := ⟨rfl, rfl, rfl, rfl, rfl, rfl, rfl, ⟨_, rfl, rfl⟩, rfl⟩

/-- `5 in Levels`. -/
def fiveInLevels : AcceptedQuery where
  query := queryOf (.binaryComparison (.number 0) (feature "Levels") .in_) (by decide) (by decide)
  rules := fourFeatures
  accepted := ⟨rfl, rfl, rfl, rfl, rfl, rfl, rfl, ⟨_, rfl, rfl⟩, rfl⟩

/-- Three queries that are accepted, and for which the transformer raises. -/
theorem accepted_not_translated :
    notBanned.query.transform = .error ⟨.druidQueryTransform, "Unknown AST Expression: Name"⟩ ∧
    scoreBelowLimit.query.transform = .error ⟨.druidQueryTransform,
      "When comparing two features, only the `==` and `!=` operators are supported: LessThan"⟩ ∧
    fiveInLevels.query.transform = .error ⟨.druidQueryTransform,
      "Invalid \"in\" comparison value type, must be string or list: BinaryComparison"⟩ :=
  ⟨rfl, rfl, rfl⟩

end Osprey.QueryValidation
