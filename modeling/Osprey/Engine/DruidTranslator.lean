/-
From a query to a Druid filter (`ast_druid_translator.py`), and what both of
them say about a row of features.

The translation of a comparison takes the dimension and the value from
whichever side they stand on, and the direction of the bound from the
comparator alone. So `5 < Score` is translated as `Score < 5` is. The main
result says that this is the only way in which a filter and its query differ.
-/
import Osprey.Engine.Evaluate

namespace Osprey.Druid

/-! ## Filters -/

inductive BoundOrdering
  | numeric
  | lexicographic
  deriving DecidableEq, Repr

/-- A `bound` filter. A limit that the source leaves out of the dictionary is
`none`, a strictness it leaves out is `false`. -/
structure Bound where
  dimension : String
  ordering : BoundOrdering
  lower : Option PyValue := none
  lowerStrict : Bool := false
  upper : Option PyValue := none
  upperStrict : Bool := false
  deriving Repr

/-- The filters that the transformer and the query UDFs produce. -/
inductive Filter
  | selector (dimension : String) (value : PyValue)
  | columnComparison (left right : String)
  | insensitiveContains (dimension value : String)
  | inValues (dimension : String) (values : List PyValue)
  | bound (b : Bound)
  | boolean (type : BooleanOperand) (fields : List Filter)
  | not (field : Filter)
  | regex (dimension pattern : String)
  | like (dimension pattern : String)
  | arrayContainsElement (column elementMatchType elementMatchValue : String)
  deriving Repr

/-! ## The transformer -/

/-- `DruidQueryTransformException(node, error)`, for a node of the named class. -/
def transformException (className error : String) : Exc := ⟨.druidQueryTransform, error ++ ": " ++ className⟩

mutual

def getAstNodeValue : Expr → AstM PyValue
  | .unaryOperation operand operator => return .num (← ospreyUnaryExecutor operator operand)
  | .list items => return .list (← getAstNodeValues items)
  | .none => return .none
  | .string value => return .str value
  | .number id => return .num ((← get) id)
  | .boolean value => return .bool value
  | node => throw (transformException node.className "Node has no known value attribute")

def getAstNodeValues : List Expr → AstM (List PyValue)
  | [] => return []
  | item :: items => return (← getAstNodeValue item) :: (← getAstNodeValues items)

end

def getComparisonDimension (left right : Expr) : AstM String :=
  match left.name?, right.name? with
  | some n, _ => return n.identifier
  | none, some n => return n.identifier
  | none, none => throw (transformException "BinaryComparison" "Binary Comparator must contain at least one column")

/-- `get_comparison_value`: a comparison without a literal has the value `None`. -/
def getComparisonValue (left right : Expr) : AstM PyValue :=
  if left.isLiteral || left.isUnaryOperation then getAstNodeValue left
  else if right.isLiteral || right.isUnaryOperation then getAstNodeValue right
  else return .none

/-- `get_value_bound_ordering`: a `bool` is an `int`. -/
def getValueBoundOrdering : PyValue → AstM BoundOrdering
  | .num _ | .bool _ => return .numeric
  | .str _ => return .lexicographic
  | value => throw ⟨.typeError, "Cannot compare a " ++ value.className⟩

/-- The bound filter with the limits of `get_druid_bound_query_props`. -/
def boundQuery (dimension : String) (ordering : BoundOrdering) (value : PyValue) : Comparator → AstM Bound
  | .lessThan => return { dimension, ordering, upper := some value, upperStrict := true }
  | .lessThanEquals => return { dimension, ordering, upper := some value }
  | .greaterThan => return { dimension, ordering, lower := some value, lowerStrict := true }
  | .greaterThanEquals => return { dimension, ordering, lower := some value }
  | comparator => throw (transformException comparator.className "Unknown Binary Comparator")

def getInQueryByValueType (dimension : String) : PyValue → AstM Filter
  | .str s => return .insensitiveContains dimension s
  | .list values => return .inValues dimension values
  | _ => throw (transformException "BinaryComparison" "Invalid \"in\" comparison value type, must be string or list")

/-- `transform_BinaryComparison` of two features. -/
def transformColumnComparison (left right : Name) : Comparator → AstM Filter
  | .equals => return .columnComparison left.identifier right.identifier
  | .notEquals => return .not (.columnComparison left.identifier right.identifier)
  | comparator => throw (transformException comparator.className
      "When comparing two features, only the `==` and `!=` operators are supported")

/-- `transform_BinaryComparison` with an ordering comparator, which needs an explicit not null check. -/
def transformOrderingComparison (dimension : String) (value : PyValue) (comparator : Comparator) : AstM Filter := do
  let ordering ← getValueBoundOrdering value
  let bound ← boundQuery dimension ordering value comparator
  return .boolean .and [.not (.selector dimension .none), .bound bound]

/-- `transform_BinaryComparison` of a dimension with a value. -/
def transformValueComparison (dimension : String) (value : PyValue) : Comparator → AstM Filter
  | .equals => return .selector dimension value
  | .in_ => getInQueryByValueType dimension value
  | .notEquals => return .not (.selector dimension value)
  | .notIn => return .not (← getInQueryByValueType dimension value)
  | comparator => transformOrderingComparison dimension value comparator

def transformBinaryComparison (left right : Expr) (comparator : Comparator) : AstM Filter :=
  match left.name?, right.name? with
  | some l, some r => transformColumnComparison l r comparator
  | _, _ => do
    let dimension ← getComparisonDimension left right
    let value ← getComparisonValue left right
    transformValueComparison dimension value comparator

/-- What `transform_Call` finds under the id of a call node: `none` if the node
is not mapped, and for a mapped one the `to_druid_query()` of its UDF, if that is
a query UDF. -/
abbrev UdfNodeMapping := NodeId → Option (Option Filter)

def transformCall (mapping : UdfNodeMapping) (id : NodeId) : AstM Filter :=
  match mapping id with
  | none => throw ⟨.keyError, toString id⟩
  | some none => throw (transformException "Call" "Unknown function call type")
  | some (some query) => return query

mutual

def transform (mapping : UdfNodeMapping) : Expr → AstM Filter
  | .booleanOperation values operand => return .boolean operand (← transformAll mapping values)
  | .binaryComparison left right comparator => transformBinaryComparison left right comparator
  | .unaryOperation operand .not => return .not (← transform mapping operand)
  | .unaryOperation _ .uSub => throw (transformException "UnaryOperation" "Unknown Unary Operator")
  | .call id _ _ => transformCall mapping id
  | node => throw (transformException node.className "Unknown AST Expression")

def transformAll (mapping : UdfNodeMapping) : List Expr → AstM (List Filter)
  | [] => return []
  | node :: nodes => return (← transform mapping node) :: (← transformAll mapping nodes)

end

/-! ## What a filter says of a row -/

/-- The order of two values under a bound's ordering, if it has one. -/
def BoundOrdering.compare : BoundOrdering → PyValue → PyValue → Option Ordering
  | .numeric, a, b => compareNumbers a b
  | .lexicographic, .str s, .str t => some (cmp s t)
  | .lexicographic, _, _ => none

/-- The first of two values is within the limit that the second one sets. -/
def withinLimit (strict : Bool) : Option Ordering → Bool
  | some .lt => true
  | some .eq => !strict
  | _ => false

/-- `upper` asks for `dimension <= value`, strictly if `upperStrict`, and `lower` dually. -/
def Bound.holds (b : Bound) (x : PyValue) : Bool :=
  (b.lower.all fun l => withinLimit b.lowerStrict (b.ordering.compare l x)) &&
    b.upper.all fun u => withinLimit b.upperStrict (b.ordering.compare x u)

mutual

/-- Druid's reading of a filter. The kinds that no comparison with a literal
produces are read by `other`. -/
def Filter.holds (row : Row) (other : Filter → Bool) : Filter → Bool
  | .selector dimension value => pyEq (row dimension) value
  | .bound b => b.holds (row b.dimension)
  | .boolean type fields => type.apply (holdsAll row other fields)
  | .not field => !field.holds row other
  | f => other f

def holdsAll (row : Row) (other : Filter → Bool) : List Filter → List Bool
  | [] => []
  | f :: fs => f.holds row other :: holdsAll row other fs

end

/-! ## Queries of comparisons -/

/-- A literal that is not null: a number, a number after a minus, or a string. -/
inductive Constant
  | number (id : NodeId)
  | negative (id : NodeId)
  | string (s : String)
  deriving DecidableEq, Repr

def Constant.toExpr : Constant → Expr
  | number id => .number id
  | negative id => .unaryOperation (.number id) .uSub
  | string s => .string s

def Constant.value (σ : Values) : Constant → PyValue
  | number id => .num (σ id)
  | negative id => .num (σ id).neg
  | string s => .str s

/-- The heap after the value of the constant was read once. -/
def Constant.write (σ : Values) : Constant → Values
  | negative id => Function.update σ id (σ id).neg
  | _ => σ

/-- A comparison of a feature with a constant, in the order in which it is written. -/
structure FeatureComparison where
  feature : Name
  comparator : Comparator
  constant : Constant
  constantFirst : Bool
  notMembership : comparator ≠ .in_ ∧ comparator ≠ .notIn

def FeatureComparison.toExpr (c : FeatureComparison) : Expr :=
  if c.constantFirst then .binaryComparison c.constant.toExpr (.name c.feature) c.comparator
  else .binaryComparison (.name c.feature) c.constant.toExpr c.comparator

/-- And/or/not combinations of comparisons. -/
inductive Query
  | comparison (c : FeatureComparison)
  | boolean (operand : BooleanOperand) (values : List Query)
  | not (q : Query)

@[elab_as_elim, induction_eliminator]
theorem Query.ind {motive : Query → Prop} (comparison : ∀ c, motive (.comparison c))
    (boolean : ∀ operand values, (∀ q ∈ values, motive q) → motive (.boolean operand values))
    (not : ∀ q, motive q → motive (.not q)) (q : Query) : motive q :=
  @Query.rec motive (fun qs => ∀ q ∈ qs, motive q) comparison boolean not (List.forall_mem_nil _)
    (fun _ _ hq hqs => List.forall_mem_cons.mpr ⟨hq, hqs⟩) q

mutual

def Query.toExpr : Query → Expr
  | .comparison c => c.toExpr
  | .boolean operand values => .booleanOperation (toExprs values) operand
  | .not q => .unaryOperation q.toExpr .not

def toExprs : List Query → List Expr
  | [] => []
  | q :: qs => q.toExpr :: toExprs qs

end

mutual

def Query.subqueries : Query → List Query
  | .comparison c => [.comparison c]
  | .boolean operand values => .boolean operand values :: subqueriesOf values
  | .not q => .not q :: q.subqueries

def subqueriesOf : List Query → List Query
  | [] => []
  | q :: qs => q.subqueries ++ subqueriesOf qs

end

theorem subqueriesOf_eq (qs : List Query) : subqueriesOf qs = qs.flatMap Query.subqueries := by
  induction qs with
  | nil => rfl
  | cons q qs ih => rw [subqueriesOf, ih, List.flatMap_cons]

mutual

def Query.combine (leaf : FeatureComparison → Bool) : Query → Bool
  | .comparison c => leaf c
  | .boolean operand values => operand.apply (combineAll leaf values)
  | .not q => !q.combine leaf

def combineAll (leaf : FeatureComparison → Bool) : List Query → List Bool
  | [] => []
  | q :: qs => q.combine leaf :: combineAll leaf qs

end

theorem combineAll_eq (leaf : FeatureComparison → Bool) (qs : List Query) :
    combineAll leaf qs = qs.map (Query.combine leaf) := by
  induction qs with
  | nil => rfl
  | cons q qs ih => rw [combineAll, ih, List.map_cons]

/-! ## One comparison -/

def truth (comparator : Comparator) (left right : PyValue) : Bool :=
  match executeBinaryComparison comparator (.ok left) (.ok right) with
  | .ok (.bool b) => b
  | _ => false

/-- What the comparison evaluates to, with its sides as they are written. -/
def FeatureComparison.written (σ : Values) (row : Row) (c : FeatureComparison) : Bool :=
  if c.constantFirst then truth c.comparator (c.constant.value σ) (row c.feature.identifier)
  else truth c.comparator (row c.feature.identifier) (c.constant.value σ)

/-- What it would evaluate to with the feature on the left. -/
def FeatureComparison.featureFirst (σ : Values) (row : Row) (c : FeatureComparison) : Bool :=
  truth c.comparator (row c.feature.identifier) (c.constant.value σ)

/-- An ordering comparison with the constant on the left. -/
def FeatureComparison.Reversed (c : FeatureComparison) : Prop :=
  c.constantFirst ∧ c.comparator.handlesNoneComparison

open FeatureComparison (written featureFirst Reversed)

instance (c : FeatureComparison) : Decidable c.Reversed := inferInstanceAs (Decidable (_ ∧ _))

/-- In an ordering comparison the feature is null or can be ordered with the
constant, which is what the static types of a validated query promise. -/
def FeatureComparison.Typed (σ : Values) (row : Row) (c : FeatureComparison) : Prop :=
  c.comparator.handlesNoneComparison →
    row c.feature.identifier = .none ∨ (pyCompare (row c.feature.identifier) (c.constant.value σ)).isSome

theorem exec_transform_comparison (mapping : UdfNodeMapping) (c : FeatureComparison) (σ : Values) :
    (transform mapping c.toExpr).exec σ =
      (transformValueComparison c.feature.identifier (c.constant.value σ) c.comparator).exec
      (c.constant.write σ) := by
  obtain ⟨n, op, k, first, -⟩ := c
  cases first <;> cases k <;> rfl

theorem exec_getValueBoundOrdering (k : Constant) (σ τ : Values) :
    ∃ o, (getValueBoundOrdering (k.value σ)).exec τ = (.ok o, τ) ∧
      ∀ x, o.compare x (k.value σ) = pyCompare x (k.value σ) ∧ o.compare (k.value σ) x = pyCompare (k.value σ) x := by
  cases k with
  | number id | negative id => exact ⟨.numeric, rfl, fun x => ⟨by cases x <;> rfl, by cases x <;> rfl⟩⟩
  | string s => exact ⟨.lexicographic, rfl, fun x => ⟨by cases x <;> rfl, by cases x <;> rfl⟩⟩

theorem pyCompare_swap (k : Constant) (σ : Values) (x : PyValue) :
    pyCompare (k.value σ) x = (pyCompare x (k.value σ)).map Ordering.swap := by
  cases k <;> cases x <;> first
    | rfl
    | exact congrArg some (cmp_swap _ _).symm

theorem pyCompare_of_isNone {x y} (h : (x.isNone || y.isNone) = true) : pyCompare x y = none := by
  cases x <;> cases y <;> first
    | rfl
    | cases h

variable {asked : Ordering → Bool} {op : Comparator}

theorem execute_ordering (hop : op.handlesNoneComparison)
    (happly : ∀ a b, op.apply a b = orderingResult asked a b) (a b : PyValue) :
    executeBinaryComparison op (.ok a) (.ok b) =
      if a.isNone || b.isNone then .ok (.bool false)
      else match pyCompare a b with
        | some o => .ok (.bool (asked o))
        | none => .err := by
  simp only [executeBinaryComparison, resolved, hop, Bool.true_and, happly, orderingResult]
  split
  · rfl
  · cases pyCompare a b <;> rfl

theorem truth_ordering (hop : op.handlesNoneComparison)
    (happly : ∀ a b, op.apply a b = orderingResult asked a b) (a b : PyValue) :
    truth op a b = (pyCompare a b).any asked := by
  rw [truth, execute_ordering hop happly]
  split_ifs with hnone
  · rw [pyCompare_of_isNone hnone]
    rfl
  · cases pyCompare a b <;> rfl

theorem execute_comparable (hop : op ≠ .in_ ∧ op ≠ .notIn) {a b}
    (h : op.handlesNoneComparison → (a.isNone || b.isNone) = true ∨ (pyCompare a b).isSome) :
    executeBinaryComparison op (.ok a) (.ok b) = .ok (.bool (truth op a b)) := by
  have ordering : ∀ {asked : Ordering → Bool}, op.handlesNoneComparison →
      (∀ a b, op.apply a b = orderingResult asked a b) →
      executeBinaryComparison op (.ok a) (.ok b) = .ok (.bool (truth op a b)) := fun hop happly => by
    rw [truth_ordering hop happly, execute_ordering hop happly]
    rcases h hop with h | h
    · rw [if_pos h, pyCompare_of_isNone h]
      rfl
    · obtain ⟨o, ho⟩ := Option.isSome_iff_exists.1 h
      split_ifs with hn
      · rw [pyCompare_of_isNone hn]
        rfl
      · rw [ho]
        rfl
  cases op with
  | equals | notEquals => rfl
  | in_ => exact absurd rfl hop.1
  | notIn => exact absurd rfl hop.2
  | lessThan | lessThanEquals | greaterThan | greaterThanEquals => exact ordering rfl fun _ _ => rfl

theorem holds_ordering (row : Row) (other : Filter → Bool) (b : Bound) :
    (Filter.boolean .and [.not (.selector b.dimension .none), .bound b]).holds row other =
      (!(row b.dimension).isNone && b.holds (row b.dimension)) := by
  have hnone : pyEq (row b.dimension) .none = (row b.dimension).isNone := by
    cases row b.dimension <;> rfl
  simp [Filter.holds, holdsAll, hnone, BooleanOperand.apply]

theorem transformOrderingComparison_spec
    (hop : op.handlesNoneComparison) (happly : ∀ a b, op.apply a b = orderingResult asked a b)
    (d : String) (k : Constant) (σ τ : Values) {b : BoundOrdering → Bound}
    (hquery : ∀ o, (boundQuery d o (k.value σ) op).exec τ = (.ok (b o), τ)) (hdim : ∀ o, (b o).dimension = d)
    (hholds : ∀ o, (∀ x, o.compare x (k.value σ) = pyCompare x (k.value σ) ∧
        o.compare (k.value σ) x = pyCompare (k.value σ) x) →
      ∀ x, (b o).holds x = (pyCompare x (k.value σ)).any asked) :
    ∃ f, (transformOrderingComparison d (k.value σ) op).exec τ = (.ok f, τ) ∧
      ∀ row other, f.holds row other = truth op (row d) (k.value σ) := by
  obtain ⟨o, hexec, hcompare⟩ := exec_getValueBoundOrdering k σ τ
  refine ⟨.boolean .and [.not (.selector (b o).dimension .none), .bound (b o)], ?_, fun row other => ?_⟩
  · simp only [transformOrderingComparison, AstM.exec_bind, hexec, hquery, hdim, AstM.exec_pure]
  · rw [holds_ordering, hdim, hholds o hcompare, truth_ordering hop happly]
    cases hn : (row d).isNone with
    | true => rw [pyCompare_of_isNone (by rw [hn]; rfl)]; rfl
    | false => rfl

/-- **A filter puts the feature first.** The filter of a comparison holds on a row
exactly when the comparison with the feature on the left is true there. -/
theorem transform_comparison (mapping : UdfNodeMapping) (c : FeatureComparison) (σ : Values) :
    ∃ f, (transform mapping c.toExpr).exec σ = (.ok f, c.constant.write σ) ∧
      ∀ row other, f.holds row other = c.featureFirst σ row := by
  rw [exec_transform_comparison]
  obtain ⟨n, op, k, first, hop⟩ := c
  have swapped : ∀ (asked : Ordering → Bool) x, (pyCompare (k.value σ) x).any asked =
      (pyCompare x (k.value σ)).any fun o => asked o.swap := fun asked x => by
    rw [pyCompare_swap, Option.any_map]
  have within_strict : ∀ o, withinLimit true o = o.any Ordering.isLT := by
    rintro (_ | _ | _ | _) <;> rfl
  have within : ∀ o, withinLimit false o = o.any Ordering.isLE := by
    rintro (_ | _ | _ | _) <;> rfl
  cases op with
  | equals | notEquals => exact ⟨_, rfl, fun row other => rfl⟩
  | in_ => exact absurd rfl hop.1
  | notIn => exact absurd rfl hop.2
  | lessThan | lessThanEquals | greaterThan | greaterThanEquals =>
    refine transformOrderingComparison_spec rfl (fun _ _ => rfl) _ k σ _ (fun o => rfl) (fun o => rfl) ?_
    intro o ho x
    simp [Bound.holds, ho, within_strict, within, swapped]

variable {c : FeatureComparison} {σ : Values} {row : Row}

theorem evaluate_comparison (other : Expr → NodeResult PyValue)
    (h : c.Typed σ row) : evaluate σ row other c.toExpr = .ok (.bool (c.written σ row)) := by
  obtain ⟨n, op, k, first, hop⟩ := c
  have hk : evaluate σ row other k.toExpr = .ok (k.value σ) := by cases k <;> rfl
  have hnone : row n.identifier = .none → (row n.identifier).isNone = true := fun hn => by rw [hn]; rfl
  cases first with
  | false =>
    simp only [FeatureComparison.toExpr, written, evaluate, hk, Bool.false_eq_true, if_false]
    refine execute_comparable hop fun ho => (h ho).imp (fun hn => ?_) id
    rw [hnone hn, Bool.true_or]
  | true =>
    simp only [FeatureComparison.toExpr, written, evaluate, hk, if_true]
    refine execute_comparable hop fun ho => (h ho).imp (fun hn => ?_) fun hs => ?_
    · rw [hnone hn, Bool.or_true]
    · rwa [pyCompare_swap, Option.isSome_map]

/-! ## Turning a comparison around -/

theorem pyEq_comm (k : Constant) (σ : Values) (x : PyValue) : pyEq (k.value σ) x = pyEq x (k.value σ) := by
  cases k <;> cases x <;> simp [Constant.value, pyEq, eq_comm]

theorem pyEq_iff_of_pyCompare {k : Constant} {x o}
    (h : pyCompare x (k.value σ) = some o) : pyEq x (k.value σ) ↔ o = .eq := by
  have number : ∀ y : Num, pyCompare x (.num y) = some o → (pyEq x (.num y) ↔ o = .eq) := fun y hy => by
    cases x with
    | num x =>
      cases hy
      rw [cmp_eq_eq_iff]
      simp [pyEq]
    | bool b =>
      cases hy
      rw [cmp_eq_eq_iff]
      cases b <;> simp [pyEq, @eq_comm ℚ]
    | none | str | list => cases hy
  cases k with
  | number id | negative id => exact number _ h
  | string s =>
    cases x with
    | str t =>
      cases h
      rw [cmp_eq_eq_iff]
      simp [Constant.value, pyEq]
    | none | bool | num | list => cases h

/-- **The comparisons a translation turns around.** A comparison of a feature with
a constant of its kind says the same with the feature first, unless it is an
ordering comparison written with the constant first and the feature has another
value than the constant. -/
theorem written_eq_featureFirst_iff (h : c.Typed σ row) :
    c.written σ row = c.featureFirst σ row ↔
      (c.Reversed → row c.feature.identifier = .none ∨ pyEq (row c.feature.identifier) (c.constant.value σ)) := by
  obtain ⟨n, op, k, first, hop⟩ := c
  have ordering : ∀ {asked : Ordering → Bool}, op.handlesNoneComparison →
      (∀ a b, op.apply a b = orderingResult asked a b) → (∀ o : Ordering, asked o.swap = asked o ↔ o = .eq) →
      (truth op (k.value σ) (row n.identifier) = truth op (row n.identifier) (k.value σ) ↔
        (op.handlesNoneComparison → row n.identifier = .none ∨ pyEq (row n.identifier) (k.value σ))) :=
      fun hop happly hasked => by
    refine Iff.trans ?_ ⟨fun p _ => p, fun p => p hop⟩
    rw [truth_ordering hop happly, truth_ordering hop happly, pyCompare_swap]
    cases hc : pyCompare (row n.identifier) (k.value σ) with
    | none => exact iff_of_true rfl (.inl ((h hop).resolve_right (by simp [hc])))
    | some o =>
      have hnone : row n.identifier ≠ .none := fun hn => by
        rw [pyCompare_of_isNone (by rw [hn]; rfl)] at hc
        cases hc
      rw [Option.map_some, Option.any_some, Option.any_some, hasked, or_iff_right hnone, pyEq_iff_of_pyCompare hc]
  cases first with
  | false => simp [written, featureFirst, Reversed]
  | true =>
    simp only [written, featureFirst, Reversed, if_true, true_and]
    cases op with
    | equals | notEquals =>
      simp [truth, executeBinaryComparison, resolved, Comparator.apply, Comparator.handlesNoneComparison, pyEq_comm]
    | in_ => exact absurd rfl hop.1
    | notIn => exact absurd rfl hop.2
    | lessThan | lessThanEquals | greaterThan | greaterThanEquals => exact ordering rfl (fun _ _ => rfl) (by decide)

/-! ## Queries -/

theorem FeatureComparison.featureFirst_congr {τ}
    (h : ∀ id ∈ c.toExpr.numbers, τ id = σ id) (row : Row) : c.featureFirst τ row = c.featureFirst σ row := by
  obtain ⟨n, op, k, first, hop⟩ := c
  have hk : k.value τ = k.value σ := by
    cases k with
    | number id => exact congrArg PyValue.num (h id (by cases first <;> simp [toExpr, Constant.toExpr, Expr.numbers]))
    | negative id =>
      exact congrArg (PyValue.num ∘ Num.neg)
        (h id (by cases first <;> simp [toExpr, Constant.toExpr, Expr.numbers]))
    | string s => rfl
  simp only [featureFirst, hk]

theorem FeatureComparison.write_other (σ : Values) (c : FeatureComparison) {id}
    (h : id ∉ c.toExpr.numbers) : c.constant.write σ id = σ id := by
  obtain ⟨n, op, k, first, hop⟩ := c
  cases k with
  | negative m =>
    refine Function.update_of_ne (fun hid => h ?_) _ _
    cases first <;> simp [toExpr, Constant.toExpr, Expr.numbers, hid]
  | number m => rfl
  | string s => rfl

section

variable (mapping : UdfNodeMapping) (σ : Values)

mutual

/-- A query whose number nodes are all different translates, whatever was
translated before it, to a filter that puts every feature first. -/
theorem Query.transform_spec : ∀ (q : Query) {τ}, (∀ id ∈ q.toExpr.numbers, τ id = σ id) →
    q.toExpr.numbers.Nodup → ∃ f τ', (transform mapping q.toExpr).exec τ = (.ok f, τ') ∧
      (∀ id ∉ q.toExpr.numbers, τ' id = τ id) ∧
      ∀ row other, f.holds row other = q.combine (featureFirst σ row)
  | .comparison c, τ, hτ, _ => by
    obtain ⟨f, hf, hholds⟩ := transform_comparison mapping c τ
    exact ⟨f, _, hf, fun id hid => c.write_other τ hid, fun row other => by
      rw [hholds, c.featureFirst_congr hτ, Query.combine]⟩
  | .boolean operand values, τ, hτ, hnodup => by
    obtain ⟨fs, τ', hfs, hframe, hholds⟩ := transformAll_spec values hτ hnodup
    refine ⟨.boolean operand fs, τ', ?_, hframe, fun row other => ?_⟩
    · simp only [Query.toExpr, transform, AstM.exec_bind, hfs, AstM.exec_pure]
    · simp only [Filter.holds, Query.combine, hholds]
  | .not q, τ, hτ, hnodup => by
    obtain ⟨f, τ', hf, hframe, hholds⟩ := q.transform_spec hτ hnodup
    refine ⟨.not f, τ', ?_, hframe, fun row other => ?_⟩
    · simp only [Query.toExpr, transform, AstM.exec_bind, hf, AstM.exec_pure]
    · simp only [Filter.holds, Query.combine, hholds]

theorem transformAll_spec : ∀ (qs : List Query) {τ}, (∀ id ∈ listNumbers (toExprs qs), τ id = σ id) →
    (listNumbers (toExprs qs)).Nodup → ∃ fs τ', (transformAll mapping (toExprs qs)).exec τ = (.ok fs, τ') ∧
      (∀ id ∉ listNumbers (toExprs qs), τ' id = τ id) ∧
      ∀ row other, holdsAll row other fs = combineAll (featureFirst σ row) qs
  | [], τ, _, _ => ⟨[], τ, rfl, fun _ _ => rfl, fun _ _ => rfl⟩
  | q :: qs, τ, hτ, hnodup => by
    obtain ⟨hq, hqs, hdisj⟩ := List.nodup_append.1 hnodup
    obtain ⟨f, τ₁, hf, hframe₁, hholds₁⟩ := q.transform_spec (fun id hid => hτ id (List.mem_append_left _ hid)) hq
    -- the rest of the list reads numbers that the first query did not write
    have hτ₁ : ∀ id ∈ listNumbers (toExprs qs), τ₁ id = σ id := fun id hid => by
      rw [hframe₁ id fun hm => hdisj id hm id hid rfl]
      exact hτ id (List.mem_append_right _ hid)
    obtain ⟨fs, τ₂, hfs, hframe₂, hholds₂⟩ := transformAll_spec qs hτ₁ hqs
    refine ⟨f :: fs, τ₂, ?_, fun id hid => ?_, fun row other => ?_⟩
    · simp only [toExprs, transformAll, AstM.exec_bind, hf, hfs, AstM.exec_pure]
    · simp only [toExprs, listNumbers, List.mem_append, not_or] at hid
      rw [hframe₂ id hid.2, hframe₁ id hid.1]
    · simp only [holdsAll, combineAll, hholds₁, hholds₂]

end

end

section

variable {σ : Values} {row : Row} (other : Expr → NodeResult PyValue)

theorem executeBooleanOperation_bools (operand : BooleanOperand) (bs : List Bool) :
    executeBooleanOperation operand (bs.map fun b => .ok (.bool b)) = .ok (.bool (operand.apply bs)) := by
  have hbs : (bs.map fun b => (.ok (.bool b) : NodeResult PyValue)).map
      (fun v => ((resolved true v).getD .none).truthy) = bs := by
    rw [List.map_map]
    exact List.map_id bs
  rw [executeBooleanOperation, hbs]

theorem Query.evaluate_spec (q : Query) (h : ∀ c, .comparison c ∈ q.subqueries → c.Typed σ row) :
    evaluate σ row other q.toExpr = .ok (.bool (q.combine (written σ row))) := by
  induction q with
  | comparison c => exact evaluate_comparison other (h c (by simp [Query.subqueries]))
  | boolean operand values ih =>
    have hvalues : evaluateAll σ row other (toExprs values) =
        (combineAll (written σ row) values).map fun b => .ok (.bool b) := by
      replace h : ∀ c, .comparison c ∈ subqueriesOf values → c.Typed σ row := fun c hc =>
        h c (List.mem_cons_of_mem _ hc)
      induction values with
      | nil => rfl
      | cons q qs ihqs =>
        obtain ⟨hq, hqs⟩ := List.forall_mem_cons.1 ih
        rw [toExprs, evaluateAll, hq fun c hc => h c (List.mem_append_left _ hc),
          ihqs hqs fun c hc => h c (List.mem_append_right _ hc)]
        rfl
    simp only [Query.toExpr, evaluate, hvalues, executeBooleanOperation_bools, Query.combine]
  | not q ih =>
    simp only [Query.toExpr, evaluate, ih fun c hc => h c (List.mem_cons_of_mem _ hc)]
    rfl

end

/-! ## Subqueries -/

theorem Query.rel_of_mem_subqueries {R : Query → Query → Prop} (hrefl : ∀ q, R q q)
    (hboolean : ∀ {s q operand values}, q ∈ values → R s q → R s (.boolean operand values))
    (hnot : ∀ {s q}, R s q → R s (.not q)) {q s} (h : s ∈ q.subqueries) : R s q := by
  induction q with
  | comparison c =>
    obtain rfl := List.mem_singleton.1 h
    exact hrefl _
  | boolean operand values ih =>
    rcases List.mem_cons.1 h with rfl | h
    · exact hrefl _
    · rw [subqueriesOf_eq] at h
      obtain ⟨q, hq, hs⟩ := List.mem_flatMap.1 h
      exact hboolean hq (ih q hq hs)
  | not q ih =>
    rcases List.mem_cons.1 h with rfl | h
    · exact hrefl _
    · exact hnot (ih h)

theorem subqueries_subset_of_mem {qs q} (h : q ∈ qs) : q.subqueries ⊆ subqueriesOf qs := by
  rw [subqueriesOf_eq]
  exact fun s hs => List.mem_flatMap.2 ⟨q, h, hs⟩

theorem numbers_sublist_of_mem : ∀ {qs} {q : Query}, q ∈ qs →
    q.toExpr.numbers.Sublist (listNumbers (toExprs qs))
  | q :: qs, q', h => by
    rcases List.mem_cons.1 h with rfl | h
    · exact List.sublist_append_left _ _
    · exact (numbers_sublist_of_mem h).trans (List.sublist_append_right _ _)

variable {q : Query}

theorem Query.subqueries_trans {s : Query} (h : s ∈ q.subqueries) : s.subqueries ⊆ q.subqueries := by
  refine Query.rel_of_mem_subqueries (R := fun s q => s.subqueries ⊆ q.subqueries) ?_ ?_ ?_ h
  · exact fun q => List.Subset.refl _
  · exact fun hq hs => List.Subset.trans hs (List.Subset.trans (subqueries_subset_of_mem hq)
      (List.subset_cons_self _ _))
  · exact fun hs => List.Subset.trans hs (List.subset_cons_self _ _)

theorem Query.numbers_sublist {s : Query} (h : s ∈ q.subqueries) : s.toExpr.numbers.Sublist q.toExpr.numbers := by
  refine Query.rel_of_mem_subqueries (R := fun s q => s.toExpr.numbers.Sublist q.toExpr.numbers) ?_ ?_ ?_ h
  · exact fun q => List.Sublist.refl _
  · exact fun hq hs => hs.trans (numbers_sublist_of_mem hq)
  · exact fun hs => hs

theorem Query.combine_congr {l₁ l₂ : FeatureComparison → Bool} (q : Query)
    (h : ∀ c, .comparison c ∈ q.subqueries → l₁ c = l₂ c) : q.combine l₁ = q.combine l₂ := by
  induction q with
  | comparison c => exact h c (List.mem_singleton.2 rfl)
  | boolean operand values ih =>
    rw [Query.combine, Query.combine, combineAll_eq, combineAll_eq, List.map_congr_left fun q hq =>
      ih q hq fun c hc => h c (List.mem_cons_of_mem _ (subqueries_subset_of_mem hq hc))]
  | not q ih => rw [Query.combine, Query.combine, ih fun c hc => h c (List.mem_cons_of_mem _ hc)]

/-! ## The translation and the query -/

/-- The query is translated, and its filter holds on the row exactly when the
query evaluates to true there. -/
def Agrees (mapping : UdfNodeMapping) (σ : Values) (row : Row) (q : Query) : Prop :=
  ∃ f, ((transform mapping q.toExpr).exec σ).1 = .ok f ∧
    ∀ other otherFilter, f.holds row otherFilter = true ↔ evaluate σ row other q.toExpr = .ok (.bool true)

theorem agrees_iff_combine {mapping}
    (hnodup : q.toExpr.numbers.Nodup) (htyped : ∀ c, .comparison c ∈ q.subqueries → c.Typed σ row) :
    Agrees mapping σ row q ↔
      q.combine (written σ row) = q.combine (featureFirst σ row) := by
  obtain ⟨f, τ, hf, -, hholds⟩ := q.transform_spec mapping σ (fun _ _ => rfl) hnodup
  constructor
  · rintro ⟨f', hf', h⟩
    rw [hf] at hf'
    cases hf'
    have := h (fun _ => .err) (fun _ => false)
    rw [hholds, q.evaluate_spec _ htyped] at this
    simp only [NodeResult.ok.injEq, PyValue.bool.injEq] at this
    exact (Bool.eq_iff_iff.2 this).symm
  · intro h
    refine ⟨f, by rw [hf], fun other otherFilter => ?_⟩
    rw [hholds, q.evaluate_spec _ htyped, h]
    simp

/-- **When a translation keeps the meaning of a query.** On a row whose features
are null or of the kind they are ordered with, the query and every part of it
agrees with its filter exactly when each ordering comparison in it that is
written with the constant first meets null or a value equal to the constant. -/
theorem subqueries_agree_iff (mapping : UdfNodeMapping) (σ : Values) (row : Row) (q : Query)
    (hnodup : q.toExpr.numbers.Nodup) (htyped : ∀ c, .comparison c ∈ q.subqueries → c.Typed σ row) :
    (∀ s ∈ q.subqueries, Agrees mapping σ row s) ↔
      ∀ c, .comparison c ∈ q.subqueries → c.Reversed →
        row c.feature.identifier = .none ∨ pyEq (row c.feature.identifier) (c.constant.value σ) := by
  have hpart : ∀ s ∈ q.subqueries, Agrees mapping σ row s ↔
      s.combine (written σ row) = s.combine (featureFirst σ row) := fun s hs =>
    agrees_iff_combine (hnodup.sublist (Query.numbers_sublist hs)) fun c hc => htyped c (Query.subqueries_trans hs hc)
  constructor
  · intro h c hc
    exact (written_eq_featureFirst_iff (htyped c hc)).1 ((hpart _ hc).1 (h _ hc))
  · intro h s hs
    refine (hpart s hs).2 (s.combine_congr fun c hc => ?_)
    have hcq := Query.subqueries_trans hs hc
    exact (written_eq_featureFirst_iff (htyped c hcq)).2 (h c hcq)

/-- `5 <= Score and not Name == "x"` on a row where the score is five. -/
theorem subqueries_agree_score_five :
    let score : FeatureComparison := ⟨⟨"Score", "main.sml"⟩, .lessThanEquals, .number 0, true, by decide⟩
    let name : FeatureComparison := ⟨⟨"Name", "main.sml"⟩, .equals, .string "x", false, by decide⟩
    let q : Query := .boolean .and [.comparison score, .not (.comparison name)]
    let row : Row := fun feature => if feature = "Score" then .num (.int 5) else .none
    ∀ s ∈ q.subqueries, Agrees (fun _ => none) (fun _ => .int 5) row s := by
  intro score name q row
  have hcs : ∀ c, .comparison c ∈ q.subqueries → c = score ∨ c = name := by
    intro c hc
    simpa [q, Query.subqueries, subqueriesOf] using hc
  refine (subqueries_agree_iff _ _ row q (by decide) fun c hc => ?_).2 fun c hc hreversed => ?_
  · rcases hcs c hc with rfl | rfl
    · exact fun _ => .inr rfl
    · exact fun h => absurd h (by decide)
  · rcases hcs c hc with rfl | rfl
    · exact .inr (by decide +kernel)
    · exact absurd hreversed (by decide)

/-- `5 < Score` on a row where the score is ten: the query is true, and its
filter asks for a score below five. -/
theorem filter_constant_first_wrong :
    let score : FeatureComparison := ⟨⟨"Score", "main.sml"⟩, .lessThan, .number 0, true, by decide⟩
    let σ : Values := fun _ => .int 5
    let row : Row := fun _ => .num (.int 10)
    evaluate σ row (fun _ => .err) (Query.comparison score).toExpr = .ok (.bool true) ∧
      ∃ f, ((transform (fun _ => none) (Query.comparison score).toExpr).exec σ).1 = .ok f ∧
        f.holds row (fun _ => false) = false :=
  ⟨rfl, _, rfl, rfl⟩

end Osprey.Druid
