/-
The passes over a cached tree: validation again and again, and for a query
validation followed by translation. What a pass writes to number nodes is
what the next one reads.
-/
import Osprey.Engine.ValidateCallKwargs

namespace Osprey.CallKwargs

open Druid (Filter UdfNodeMapping getAstNodeValue getAstNodeValues getComparisonDimension getComparisonValue
  transformValueComparison transformBinaryComparison transformCall transform transformAll)
open Trace (resolve)

/-! ## Resolving in turn -/

theorem foldl_resolve_log (l : List Expr) (σ : Values) (log : List Resolution) :
    l.foldl resolve ⟨σ, log⟩ =
      ⟨(l.foldl resolve ⟨σ, []⟩).values, log ++ (l.foldl resolve ⟨σ, []⟩).resolutions⟩ := by
  induction l generalizing σ log with
  | nil => simp
  | cons node l ih =>
    rw [List.foldl_cons, List.foldl_cons, resolve, resolve, ih, ih _ ([] ++ _)]
    simp

theorem foldl_resolve_cons (node : Expr) (l : List Expr) (σ : Values) :
    (node :: l).foldl resolve ⟨σ, []⟩ =
      let σ' := (resolve ⟨σ, []⟩ node).values
      ⟨(l.foldl resolve ⟨σ', []⟩).values,
        ⟨node, handed σ node⟩ :: (l.foldl resolve ⟨σ', []⟩).resolutions⟩ := by
  rw [List.foldl_cons, resolve, foldl_resolve_log]
  rfl

variable {σ : Values}

theorem foldl_resolve_of_zero : ∀ {l : List Expr},
    (∀ node ∈ l, ∀ id, negatedNumber? node = some id → (σ id).isZero) →
    l.foldl resolve ⟨σ, []⟩ = ⟨σ, l.map fun node => ⟨node, handed σ node⟩⟩
  | [], _ => rfl
  | node :: l, h => by
    have hσ : (resolve ⟨σ, []⟩ node).values = σ := by
      unfold resolve
      cases hn : negatedNumber? node with
      | none => rfl
      | some id =>
        dsimp only
        rw [Num.neg_of_isZero (h node (by simp) id hn), Function.update_eq_self]
    rw [foldl_resolve_cons, hσ]
    dsimp only
    rw [foldl_resolve_of_zero fun m hm => h m (by simp [hm])]
    rfl

section

variable {id : NodeId}

theorem resolve_values_self (σ : Values) :
    (resolve ⟨σ, []⟩ (.unaryOperation (.number id) .uSub)).values id = (σ id).neg :=
  Function.update_self ..

theorem resolve_values_other {node} (h : node ≠ .unaryOperation (.number id) .uSub) :
    (resolve ⟨σ, []⟩ node).values id = σ id := by
  unfold resolve
  cases hn : negatedNumber? node with
  | none => rfl
  | some m =>
    refine Function.update_of_ne (fun hid => h ?_) _ _
    rw [eq_of_negatedNumber? hn, hid]

theorem first_resolution_mem : ∀ {l : List Expr} {σ}, .unaryOperation (.number id) .uSub ∈ l →
    ⟨.unaryOperation (.number id) .uSub, some (.num (σ id).neg)⟩ ∈ (l.foldl resolve ⟨σ, []⟩).resolutions
  | node :: l, σ, h => by
    rw [foldl_resolve_cons]
    by_cases hn : node = .unaryOperation (.number id) .uSub
    · subst hn
      exact List.mem_cons_self
    · have hl := (List.mem_cons.1 h).resolve_left (Ne.symm hn)
      have ih := first_resolution_mem (σ := (resolve ⟨σ, []⟩ node).values) hl
      rw [resolve_values_other hn] at ih
      exact List.mem_cons_of_mem _ ih

theorem values_of_not_mem : ∀ {l : List Expr} {σ}, .unaryOperation (.number id) .uSub ∉ l →
    (l.foldl resolve ⟨σ, []⟩).values id = σ id
  | [], σ, _ => rfl
  | node :: l, σ, h => by
    rw [List.mem_cons, not_or] at h
    rw [foldl_resolve_cons]
    exact (values_of_not_mem h.2).trans (resolve_values_other (Ne.symm h.1))

theorem values_of_resolutions {x : Num} : ∀ {l : List Expr} {σ}, .unaryOperation (.number id) .uSub ∈ l →
    (∀ r ∈ (l.foldl resolve ⟨σ, []⟩).resolutions,
      r.expression = .unaryOperation (.number id) .uSub → r.value = some (.num x)) →
    (l.foldl resolve ⟨σ, []⟩).values id = x
  | node :: l, σ, h, hr => by
    rw [foldl_resolve_cons] at hr ⊢
    by_cases hl : .unaryOperation (.number id) .uSub ∈ l
    · exact values_of_resolutions hl fun r hm => hr r (List.mem_cons_of_mem _ hm)
    · obtain rfl := (List.mem_cons.1 h).resolve_right hl
      have hx := hr _ List.mem_cons_self rfl
      exact (values_of_not_mem hl).trans ((resolve_values_self σ).trans (by simpa [handed, negatedNumber?] using hx))

end

/-! ## What a translation writes -/

/-- The number nodes that code negates, in order, and whether it returns. -/
structure Negations where
  ids : List NodeId := []
  returns : Bool := true

/-- One after the other, the second only if the first returns. -/
def Negations.andThen (a b : Negations) : Negations :=
  if a.returns then ⟨a.ids ++ b.ids, b.returns⟩ else a

theorem Negations.andThen_nil (n : Negations) : n.andThen {} = n := by
  obtain ⟨ids, returns⟩ := n
  cases returns <;> simp [andThen]

def negateAll : List NodeId → Values → Values
  | [], σ => σ
  | id :: ids, σ => negateAll ids (Function.update σ id (σ id).neg)

theorem negateAll_append : ∀ (a b : List NodeId) (σ : Values), negateAll (a ++ b) σ = negateAll b (negateAll a σ)
  | [], _, _ => rfl
  | _ :: a, b, _ => negateAll_append a b _

theorem negateAll_of_zero : ∀ {ids}, (∀ id ∈ ids, (σ id).isZero) → negateAll ids σ = σ
  | [], _ => rfl
  | id :: ids, h => by
    rw [negateAll, Num.neg_of_isZero (h id (by simp)), Function.update_eq_self,
      negateAll_of_zero fun m hm => h m (by simp [hm])]

variable {id : NodeId}

theorem negateAll_of_not_mem : ∀ {ids σ}, id ∉ ids → negateAll ids σ id = σ id
  | [], _, _ => rfl
  | m :: ids, σ, h => by
    rw [List.mem_cons, not_or] at h
    rw [negateAll, negateAll_of_not_mem h.2, Function.update_of_ne h.1]

theorem negateAll_of_mem : ∀ {ids σ}, ids.Nodup → id ∈ ids →
    negateAll ids σ id = (σ id).neg
  | m :: ids, σ, hnodup, h => by
    obtain ⟨hm, hids⟩ := List.nodup_cons.1 hnodup
    rw [negateAll]
    rcases List.mem_cons.1 h with rfl | h
    · rw [negateAll_of_not_mem hm, Function.update_self]
    · rw [negateAll_of_mem hids h, Function.update_of_ne fun he : id = m => hm (he ▸ h)]

/-- Whatever the heap, `x` negates the numbers of `n`, and returns if `n` says so. -/
def Negates {α : Type} (x : AstM α) (n : Negations) : Prop :=
  ∀ σ, (x.exec σ).2 = negateAll n.ids σ ∧ ((x.exec σ).1.isOk = n.returns)

namespace Negates

variable {α β : Type}

theorem pure (a : α) : Negates (Pure.pure a) {} := fun _ => ⟨rfl, rfl⟩

variable {n : Negations} {x : AstM α}

/-- The rule of composition: `P` is what is known of the values that `x` returns. -/
theorem bind {f : α → AstM β} {m} {P : α → Prop} (hx : Negates x n)
    (hP : ∀ σ a, (x.exec σ).1 = .ok a → P a) (hf : ∀ a, P a → Negates (f a) m) :
    Negates (x >>= f) (n.andThen m) := by
  intro σ
  obtain ⟨hvalues, hreturns⟩ := hx σ
  rw [AstM.exec_bind]
  cases he : x.exec σ with
  | mk r σ' =>
    rw [he] at hvalues hreturns
    cases r with
    | error e =>
      have hn : n.returns = false := hreturns.symm
      rw [Negations.andThen, if_neg (by simp [hn])]
      exact ⟨hvalues, hreturns⟩
    | ok a =>
      obtain ⟨hvalues', hreturns'⟩ := hf a (hP σ a (by rw [he])) σ'
      have hn : n.returns = true := hreturns.symm
      rw [Negations.andThen, if_pos hn]
      refine ⟨?_, hreturns'⟩
      dsimp only at hvalues ⊢
      rw [hvalues', hvalues, negateAll_append]

theorem andThen {f : α → AstM β} {m} (hx : Negates x n) (hf : ∀ a, Negates (f a) m) :
    Negates (x >>= f) (n.andThen m) :=
  hx.bind (P := fun _ => True) (fun _ _ _ => trivial) fun a _ => hf a

theorem map (hx : Negates x n) (f : α → β) : Negates (do let a ← x; return f a) n := by
  have h := hx.andThen fun a => Negates.pure (f a)
  rwa [Negations.andThen_nil] at h

end Negates

/-! ## The negations of a query -/

mutual

/-- The numbers that reading the value of a node negates. -/
def valueNegations : Expr → Negations
  | .unaryOperation (.number id) .uSub => ⟨[id], true⟩
  | .list items => valuesNegations items
  | .none | .string _ | .number _ | .boolean _ => {}
  | _ => ⟨[], false⟩

def valuesNegations : List Expr → Negations
  | [] => {}
  | item :: items => (valueNegations item).andThen (valuesNegations items)

end

/-- The classes of values that the translation of a comparison tells apart. -/
inductive ValueClass
  | none
  | scalar
  | str
  | list
  deriving DecidableEq

def valueClass : PyValue → ValueClass
  | .none => .none
  | .bool _ | .num _ => .scalar
  | .str _ => .str
  | .list _ => .list

/-- The class of the value that is read from a node. -/
def nodeClass : Expr → ValueClass
  | .string _ => .str
  | .list _ => .list
  | .number _ | .boolean _ | .unaryOperation .. => .scalar
  | _ => .none

/-- The filters of a comparator exist for a value of this class. -/
def comparatorTakes : Comparator → ValueClass → Bool
  | .equals, _ | .notEquals, _ => true
  | .in_, c | .notIn, c => c = .str || c = .list
  | _, c => c = .scalar || c = .str

/-- The side that `get_comparison_value` reads. -/
def valueSide (left right : Expr) : Option Expr :=
  if left.isLiteral || left.isUnaryOperation then some left
  else if right.isLiteral || right.isUnaryOperation then some right
  else none

def comparisonNegations (left right : Expr) (comparator : Comparator) : Negations :=
  match left.name?, right.name? with
  | some _, some _ => ⟨[], comparator = .equals || comparator = .notEquals⟩
  | none, none => ⟨[], false⟩
  | _, _ =>
    ((valueSide left right).elim {} valueNegations).andThen
      ⟨[], comparatorTakes comparator ((valueSide left right).elim .none nodeClass)⟩

mutual

/-- The numbers that the translation of a node negates. -/
def queryNegations (mapping : UdfNodeMapping) : Expr → Negations
  | .booleanOperation values _ => queryNegationsOf mapping values
  | .binaryComparison left right comparator => comparisonNegations left right comparator
  | .unaryOperation operand .not => queryNegations mapping operand
  | .call id _ _ => ⟨[], (mapping id).join.isSome⟩
  | _ => ⟨[], false⟩

def queryNegationsOf (mapping : UdfNodeMapping) : List Expr → Negations
  | [] => {}
  | node :: nodes => (queryNegations mapping node).andThen (queryNegationsOf mapping nodes)

end

theorem negates_getAstNodeValues {es : List Expr} (h : ∀ e ∈ es, Negates (getAstNodeValue e) (valueNegations e)) :
    Negates (getAstNodeValues es) (valuesNegations es) := by
  induction es with
  | nil => exact Negates.pure _
  | cons e es ih =>
    obtain ⟨he, hes⟩ := List.forall_mem_cons.1 h
    rw [getAstNodeValues, valuesNegations]
    exact he.andThen fun v => (ih hes).map _

theorem negates_getAstNodeValue (e : Expr) : Negates (getAstNodeValue e) (valueNegations e) := by
  induction e with
  | list items ih =>
    rw [getAstNodeValue, valueNegations]
    exact (negates_getAstNodeValues ih).map PyValue.list
  | unaryOperation operand operator => cases operator <;> cases operand <;> exact fun σ => ⟨rfl, rfl⟩
  | _ => exact fun σ => ⟨rfl, rfl⟩

theorem nodeClass_of_exec {e v} (h : ((getAstNodeValue e).exec σ).1 = .ok v) :
    valueClass v = nodeClass e := by
  cases e with
  | unaryOperation operand operator =>
    cases operator with
    | not => cases operand <;> cases h
    | uSub =>
      cases operand <;> cases h
      rfl
  | list items =>
    rw [getAstNodeValue, AstM.exec_bind] at h
    cases hr : (getAstNodeValues items).exec σ with
    | mk r σ' =>
      rw [hr] at h
      cases r <;> cases h
      rfl
  | _ => cases h <;> rfl

theorem negates_transformValueComparison (d : String) (v : PyValue) (comparator : Comparator) :
    Negates (transformValueComparison d v comparator) ⟨[], comparatorTakes comparator (valueClass v)⟩ := by
  intro σ
  cases comparator <;> cases v <;> exact ⟨rfl, rfl⟩

theorem negates_getComparisonValue (left right : Expr) :
    Negates (getComparisonValue left right) ((valueSide left right).elim {} valueNegations) := by
  unfold getComparisonValue valueSide
  split_ifs
  · exact negates_getAstNodeValue left
  · exact negates_getAstNodeValue right
  · exact Negates.pure _

theorem valueClass_of_exec {left right v} (h : ((getComparisonValue left right).exec σ).1 = .ok v) :
    valueClass v = (valueSide left right).elim .none nodeClass := by
  unfold getComparisonValue at h
  unfold valueSide
  split_ifs at h ⊢
  · exact nodeClass_of_exec h
  · exact nodeClass_of_exec h
  · cases h
    rfl

theorem negates_transformBinaryComparison (left right : Expr) (comparator : Comparator) :
    Negates (transformBinaryComparison left right comparator) (comparisonNegations left right comparator) := by
  have hvalue : ∀ d, Negates (do transformValueComparison d (← getComparisonValue left right) comparator)
      (((valueSide left right).elim {} valueNegations).andThen
        ⟨[], comparatorTakes comparator ((valueSide left right).elim .none nodeClass)⟩) := fun d => by
    refine (negates_getComparisonValue left right).bind (fun σ v hv => valueClass_of_exec hv) fun v hv => ?_
    rw [← hv]
    exact negates_transformValueComparison d v comparator
  unfold transformBinaryComparison comparisonNegations getComparisonDimension
  cases left.name? with
  | none =>
    cases right.name? with
    | none => exact fun σ => ⟨rfl, rfl⟩
    | some r => exact hvalue r.identifier
  | some l =>
    cases right.name? with
    | none => exact hvalue l.identifier
    | some r => intro σ; cases comparator <;> exact ⟨rfl, rfl⟩

theorem negates_transformAll {mapping : UdfNodeMapping} {es}
    (h : ∀ e ∈ es, Negates (transform mapping e) (queryNegations mapping e)) :
    Negates (transformAll mapping es) (queryNegationsOf mapping es) := by
  induction es with
  | nil => exact Negates.pure _
  | cons e es ih =>
    obtain ⟨he, hes⟩ := List.forall_mem_cons.1 h
    rw [transformAll, queryNegationsOf]
    exact he.andThen fun f => (ih hes).map _

/-- **What the translation of a query writes.** -/
theorem negates_transform (mapping : UdfNodeMapping) (e : Expr) :
    Negates (transform mapping e) (queryNegations mapping e) := by
  induction e with
  | booleanOperation values operand ih =>
    rw [transform, queryNegations]
    exact (negates_transformAll ih).map _
  | binaryComparison left right comparator =>
    rw [transform, queryNegations]
    exact negates_transformBinaryComparison left right comparator
  | unaryOperation operand operator ih =>
    cases operator with
    | not =>
      rw [transform, queryNegations]
      exact ih.map _
    | uSub => exact fun σ => ⟨rfl, rfl⟩
  | call id func arguments =>
    rw [transform, queryNegations, transformCall]
    intro σ
    rcases mapping id with _ | _ | f <;> exact ⟨rfl, rfl⟩
  | _ => exact fun σ => ⟨rfl, rfl⟩

theorem ids_sublist_andThen {a b : Negations} {l m} (ha : a.ids.Sublist l) (hb : b.ids.Sublist m) :
    (a.andThen b).ids.Sublist (l ++ m) := by
  unfold Negations.andThen
  split
  · exact ha.append hb
  · exact ha.trans (List.sublist_append_left l m)

theorem valueNegations_sublist (e : Expr) : (valueNegations e).ids.Sublist e.numbers := by
  induction e with
  | unaryOperation operand operator =>
    cases operator <;> cases operand <;> first
      | exact List.nil_sublist _
      | exact List.Sublist.refl _
  | list items ih =>
    rw [valueNegations, Expr.numbers]
    induction items with
    | nil => exact List.Sublist.refl _
    | cons e es ihes =>
      obtain ⟨he, hes⟩ := List.forall_mem_cons.1 ih
      exact ids_sublist_andThen he (ihes hes)
  | _ => exact List.nil_sublist _

theorem comparisonNegations_sublist (left right : Expr) (comparator : Comparator) :
    (comparisonNegations left right comparator).ids.Sublist (left.numbers ++ right.numbers) := by
  have hside : ((valueSide left right).elim {} valueNegations).ids.Sublist (left.numbers ++ right.numbers) := by
    unfold valueSide
    split_ifs
    · exact (valueNegations_sublist left).trans (List.sublist_append_left _ _)
    · exact (valueNegations_sublist right).trans (List.sublist_append_right _ _)
    · exact List.nil_sublist _
  have hread : ∀ takes, (((valueSide left right).elim {} valueNegations).andThen ⟨[], takes⟩).ids.Sublist
      (left.numbers ++ right.numbers) := fun takes => by
    have h := ids_sublist_andThen (b := ⟨[], takes⟩) hside (List.nil_sublist [])
    rwa [List.append_nil] at h
  unfold comparisonNegations
  cases left.name? <;> cases right.name? <;> first
    | exact List.nil_sublist _
    | exact hread _

theorem queryNegations_sublist (mapping : UdfNodeMapping) (e : Expr) :
    (queryNegations mapping e).ids.Sublist e.numbers := by
  induction e with
  | booleanOperation values operand ih =>
    rw [queryNegations, Expr.numbers]
    induction values with
    | nil => exact List.Sublist.refl _
    | cons e es ihes =>
      obtain ⟨he, hes⟩ := List.forall_mem_cons.1 ih
      exact ids_sublist_andThen he (ihes hes)
  | binaryComparison left right comparator => exact comparisonNegations_sublist left right comparator
  | unaryOperation operand operator ih =>
    cases operator with
    | not => exact ih
    | uSub => exact List.nil_sublist _
  | _ => exact List.nil_sublist _

/-! ## Passes -/

/-- `DruidQueryTransformer.__init__`: the value of the first statement of the entry point. -/
def Program.queryRoot (p : Program) : Except Exc Expr :=
  match p.entryPoint.statements with
  | [] => .error ⟨.indexError, "list index out of range"⟩
  | .assign a :: _ => .ok a.value
  | .call _ :: _ => .error ⟨.assertionError, ""⟩

/-- `DruidQueryTransformer(validated_sources).transform()`. -/
def Program.transform (p : Program) (mapping : UdfNodeMapping) : AstM Filter :=
  match p.queryRoot with
  | .ok root => Druid.transform mapping root
  | .error e => throw e

/-- The sources are a query and the validators found no error in it. -/
def Program.accepts (p : Program) (v : Validator) : Bool :=
  p.isQuery && p.otherValidators && v.errors.isEmpty && v.raised.isNone

/-- A run of the validator, or a submission of the query, which is validated and then translated. -/
inductive Pass
  | validate
  | submit
  deriving DecidableEq, Repr

/-- What the passes did: the heap they left, the resolutions they made and what
the translations returned or raised. -/
structure History where
  values : Values
  resolutions : List Resolution := []
  filters : List (Except Exc Filter) := []

def Program.pass (p : Program) (h : History) : Pass → History
  | .validate =>
    let v := p.validate h.values
    { h with values := v.trace.values, resolutions := h.resolutions ++ v.trace.resolutions }
  | .submit =>
    let v := p.validate h.values
    if p.accepts v then
      let (filter, values) := (p.transform v.udfNodeMapping).exec v.trace.values
      { values, resolutions := h.resolutions ++ v.trace.resolutions, filters := h.filters ++ [filter] }
    else { h with values := v.trace.values, resolutions := h.resolutions ++ v.trace.resolutions }

/-- The passes over the parsed program. -/
def Program.run (p : Program) (passes : List Pass) : History := passes.foldl p.pass { values := p.values }

/-- The tree is as it was parsed, an argument expression was handed over with one
value only, and the translations of the query all gave the same. -/
structure Program.Unchanged (p : Program) (h : History) : Prop where
  tree : ∀ id ∈ p.sources.flatMap Source.numbers, h.values id = p.values id
  constants : ∀ r₁ ∈ h.resolutions, ∀ r₂ ∈ h.resolutions, r₁.expression = r₂.expression → r₁.value = r₂.value
  filters : ∀ f₁ ∈ h.filters, ∀ f₂ ∈ h.filters, f₁ = f₂

/-- The numbers under a minus among the constant arguments. -/
def Program.argumentNegations (p : Program) : List NodeId := p.resolvedExpressions.filterMap negatedNumber?

/-- The numbers under a minus among the values that the translation of the query reads. -/
def Program.queryNegations (p : Program) : List NodeId :=
  if p.accepts (p.validate p.values) then
    match p.queryRoot with
    | .ok root => (CallKwargs.queryNegations (p.validate p.values).udfNodeMapping root).ids
    | .error _ => []
  else []

theorem Program.transform_exec (p : Program) (h : p.accepts (p.validate p.values)) :
    ((p.transform (p.validate p.values).udfNodeMapping).exec p.values).2 = negateAll p.queryNegations p.values := by
  rw [Program.transform, Program.queryNegations, if_pos h]
  cases p.queryRoot with
  | error e => rfl
  | ok root => exact (negates_transform _ root p.values).1

theorem Program.queryNegations_sublist (p : Program) : p.queryNegations.Sublist (p.sources.flatMap Source.numbers) := by
  unfold Program.queryNegations Program.queryRoot
  split
  · split
    next root hroot =>
      cases hs : p.entryPoint.statements with
      | nil => rw [hs] at hroot; cases hroot
      | cons statement statements =>
        rw [hs] at hroot
        cases statement with
        | call c => cases hroot
        | assign a =>
          cases hroot
          have hfirst : a.value.numbers.Sublist p.entryPoint.numbers := by
            rw [Source.numbers, hs, List.flatMap_cons]
            exact List.sublist_append_left _ _
          have hentry : p.entryPoint.numbers.Sublist (p.sources.flatMap Source.numbers) := by
            rw [List.flatMap_def]
            exact List.sublist_flatten_of_mem (List.mem_map_of_mem p.entryPoint_mem)
          exact (CallKwargs.queryNegations_sublist _ a.value).trans (hfirst.trans hentry)
    · exact List.nil_sublist _
  · exact List.nil_sublist _

section

variable {p : Program}

theorem validate_trace_of_zero (h : ∀ id ∈ p.argumentNegations, (p.values id).isZero) :
    (p.validate p.values).trace =
      ⟨p.values, p.resolvedExpressions.map fun node => ⟨node, handed p.values node⟩⟩ := by
  rw [p.validate_trace]
  exact foldl_resolve_of_zero fun node hnode id hid => h id (List.mem_filterMap.2 ⟨node, hnode, hid⟩)

/-- What holds after any number of passes over a program whose negated numbers are zero. -/
structure Settled (p : Program) (h : History) : Prop where
  values : h.values = p.values
  resolutions : ∀ r ∈ h.resolutions, r.value = handed p.values r.expression
  filters : ∀ f ∈ h.filters, f = ((p.transform (p.validate p.values).udfNodeMapping).exec p.values).1

theorem Settled.pass (hzero : ∀ id ∈ p.argumentNegations ++ p.queryNegations, (p.values id).isZero) {h}
    (hs : Settled p h) (pass : Pass) : Settled p (p.pass h pass) := by
  have htrace := validate_trace_of_zero fun id hid => hzero id (List.mem_append_left _ hid)
  have hnew : ∀ r ∈ h.resolutions ++ (p.validate p.values).trace.resolutions,
      r.value = handed p.values r.expression := by
    intro r hr
    rcases List.mem_append.1 hr with hr | hr
    · exact hs.resolutions r hr
    · rw [htrace] at hr
      obtain ⟨node, -, rfl⟩ := List.mem_map.1 hr
      rfl
  cases pass with
  | validate =>
    rw [Program.pass, hs.values]
    exact ⟨by rw [htrace], hnew, hs.filters⟩
  | submit =>
    rw [Program.pass, hs.values]
    dsimp only
    split
    next haccepts =>
      have hvalues : (p.validate p.values).trace.values = p.values := by rw [htrace]
      rw [hvalues]
      refine ⟨?_, hnew, fun f hf => ?_⟩
      · rw [p.transform_exec haccepts]
        exact negateAll_of_zero fun id hid => hzero id (List.mem_append_right _ hid)
      · rcases List.mem_append.1 hf with hf | hf
        · exact hs.filters f hf
        · exact List.mem_singleton.1 hf
    next => exact ⟨by rw [htrace], hnew, hs.filters⟩

theorem settled_run (hzero : ∀ id ∈ p.argumentNegations ++ p.queryNegations, (p.values id).isZero) :
    ∀ (passes : List Pass) {h}, Settled p h → Settled p (passes.foldl p.pass h)
  | [], _, hs => hs
  | pass :: passes, _, hs => settled_run hzero passes (hs.pass hzero pass)

theorem isZero_of_validated_twice (h : p.Unchanged (p.run [.validate, .validate]))
    (hid : id ∈ p.argumentNegations) : (p.values id).isZero := by
  obtain ⟨node, hnode, hneg⟩ := List.mem_filterMap.1 hid
  obtain rfl := eq_of_negatedNumber? hneg
  have hlog : (p.run [.validate, .validate]).resolutions = (p.validate p.values).trace.resolutions ++
      (p.validate (p.validate p.values).trace.values).trace.resolutions := rfl
  have hconstants := h.constants
  simp only [hlog, p.validate_trace, List.mem_append] at hconstants
  -- the first value that is handed over is the value of every later resolution
  have hfirst := first_resolution_mem (σ := p.values) hnode
  have hleft := values_of_resolutions hnode fun r hr he => hconstants _ (.inl hr) _ (.inl hfirst) he
  have hagain := first_resolution_mem (σ := (p.resolvedExpressions.foldl resolve ⟨p.values, []⟩).values) hnode
  rw [hleft] at hagain
  have heq := hconstants _ (.inl hfirst) _ (.inr hagain) rfl
  simp only [Option.some.injEq, PyValue.num.injEq, Num.neg_neg] at heq
  exact Num.isZero_of_neg_eq heq

theorem isZero_of_submitted (harguments : ∀ id ∈ p.argumentNegations, (p.values id).isZero)
    (h : p.Unchanged (p.run [.submit])) (hid : id ∈ p.queryNegations) : (p.values id).isZero := by
  have haccepts : p.accepts (p.validate p.values) := by
    by_contra hn
    rw [Program.queryNegations, if_neg hn] at hid
    cases hid
  have hvalues : (p.run [.submit]).values = negateAll p.queryNegations p.values := by
    rw [← p.transform_exec haccepts]
    change (p.pass { values := p.values } .submit).values = _
    rw [Program.pass]
    dsimp only
    rw [if_pos haccepts, validate_trace_of_zero harguments]
  have hsub := p.queryNegations_sublist
  have htree := h.tree id (hsub.subset hid)
  rw [hvalues, negateAll_of_mem (p.numbers_nodup.sublist hsub) hid] at htree
  exact Num.isZero_of_neg_eq htree

end

/-- **When validation and translation leave a program unchanged.** However often
the sources are validated or submitted, the tree stays as it was parsed, every
argument expression is resolved to one value and every translation gives the same
filter, exactly when each number under a minus that the passes evaluate (in a
constant argument, or in a comparison of a query that is translated) is zero. -/
theorem Program.unchanged_iff (p : Program) :
    (∀ passes, p.Unchanged (p.run passes)) ↔
      ∀ id ∈ p.argumentNegations ++ p.queryNegations, (p.values id).isZero := by
  constructor
  · intro h id hid
    have harguments : ∀ id ∈ p.argumentNegations, (p.values id).isZero := fun id hid =>
      isZero_of_validated_twice (h [.validate, .validate]) hid
    rcases List.mem_append.1 hid with hid | hid
    · exact harguments id hid
    · exact isZero_of_submitted harguments (h [.submit]) hid
  · intro hzero passes
    obtain ⟨hvalues, hresolutions, hfilters⟩ :=
      settled_run hzero passes (h := { values := p.values }) ⟨rfl, fun r hr => (nomatch hr), fun f hf => (nomatch hf)⟩
    refine ⟨fun id _ => congrFun hvalues id, fun r₁ h₁ r₂ h₂ he => ?_, fun f₁ h₁ f₂ h₂ => ?_⟩
    · rw [hresolutions r₁ h₁, hresolutions r₂ h₂, he]
    · rw [hfilters f₁ h₁, hfilters f₂ h₂]

/-- A rule `Foo(x=-5)`, where `x` is a constant number, validated twice: the
argument is resolved to -5 and then to 5, and after the first run the tree says
`Foo(x=--5)`. And a query `Score == -5`, submitted twice: the first filter asks
for -5, the second for 5. -/
theorem minus_five_changes :
    let foo : UdfClass := ⟨[("x", .constExpr (.scalar .number))], fun _ => false, fun _ _ => ([], .ok none)⟩
    let minusFive : Expr := .unaryOperation (.number 0) .uSub
    let rules : Source := ⟨"main.sml", [.call ⟨1, .name ⟨"Foo", "main.sml"⟩, [("x", minusFive)]⟩]⟩
    let rule : Program := ⟨fun f => if f = "Foo" then some foo else none, [rules], rules, false, true,
      Expr.className, fun _ => .int 5, List.mem_singleton_self _, by decide⟩
    let main : Source := ⟨"main.sml", [.assign ⟨⟨"Query", "main.sml"⟩,
      .binaryComparison (.name ⟨"Score", "main.sml"⟩) minusFive .equals, none⟩]⟩
    let query : Program := ⟨fun _ => none, [main], main, true, true, Expr.className, fun _ => .int 5,
      List.mem_singleton_self _, by decide⟩
    ((rule.run [.validate, .validate]).resolutions.map Resolution.value =
        [some (.num (.int (-5))), some (.num (.int 5))] ∧
      (rule.run [.validate]).values 0 = .int (-5)) ∧
    (query.run [.submit, .submit]).filters =
      [.ok (.selector "Score" (.num (.int (-5)))), .ok (.selector "Score" (.num (.int 5)))] :=
  ⟨⟨rfl, rfl⟩, rfl⟩

end Osprey.CallKwargs
