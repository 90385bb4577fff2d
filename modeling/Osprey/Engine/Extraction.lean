/-
Which assignments are extracted into the output of a run (`should_extract`,
`can_extract`), and whether an extracted feature can tell secrets apart.

`can_extract` is meant to percolate from a name that is annotated
`Secret[...]` to whatever is built from it. It does so through names, lists,
calls and f-strings, but a binary operation is always extractable. The main
result says that this is what an extracted feature can leak through.
-/
import Mathlib.Logic.Function.Basic
import Osprey.Engine.Grammar

namespace Osprey

/-! ## Annotations -/

mutual

def Annotation.canExtract : Annotation → Bool
  | .plain _ => true
  | .withVariants identifier variants =>
    if identifier = "Secret" then false
    else if identifier = "ExtractSecret" then true
    else variantsCanExtract variants

def variantsCanExtract : List Annotation → Bool
  | [] => true
  | variant :: variants => variant.canExtract && variantsCanExtract variants

end

/-- The non-generic types of the registry. -/
def Annotation.isSimple : Annotation → Bool
  | .plain identifier => identifier ∈ ["str", "bool", "int", "float", "None"]
  | .withVariants .. => false

mutual

/-- `convert_ast_annotation_to_type_checker` returns. -/
def Annotation.converts : Annotation → Bool
  | .plain identifier => (.plain identifier : Annotation).isSimple
  | .withVariants identifier variants =>
    if identifier = "Union" then
      2 ≤ variants.length && (variants.map Annotation.identifier).Nodup && variants.all Annotation.isSimple
    else if identifier = "Optional" || identifier = "List" then
      variants.length = 1 && variants.all Annotation.isSimple
    else if identifier = "Entity" then
      variants.length = 1 && variants.all fun v => v.isSimple && (v.identifier = "str" || v.identifier = "int")
    else if identifier = "ExtractLiteral" || identifier = "Secret" || identifier = "ExtractSecret" then
      variants.length = 1 && variantsConvert variants
    else false

def variantsConvert : List Annotation → Bool
  | [] => true
  | variant :: variants => variant.converts && variantsConvert variants

end

namespace Extraction

/-! ## Extractable nodes -/

/-- The annotation of the assignment that a name refers to, which the validator
has set on every name before anything asks for it. -/
abbrev SourceAnnotation := String → Option Annotation

def nameCanExtract (source : SourceAnnotation) (n : Name) : Bool :=
  match source n.identifierKey with
  | some annotation => annotation.canExtract
  | none => true

mutual

def canExtract (source : SourceAnnotation) : Expr → Bool
  | .name n => nameCanExtract source n
  | .string _ | .number _ | .boolean _ | .none => true
  | .list items => listCanExtract source items
  | .call _ _ arguments => argumentsCanExtract source arguments
  | .formatString _ names => names.all (nameCanExtract source)
  | .attributeAccess n _ => nameCanExtract source n
  | .binaryOperation .. | .unaryOperation .. | .binaryComparison .. | .booleanOperation .. => true

def listCanExtract (source : SourceAnnotation) : List Expr → Bool
  | [] => true
  | e :: es => canExtract source e && listCanExtract source es

def argumentsCanExtract (source : SourceAnnotation) : List (String × Expr) → Bool
  | [] => true
  | (_, e) :: es => canExtract source e && argumentsCanExtract source es

end

/-- `Assign.is_constant`: a list is one when its items are literals. -/
def isConstant : Expr → Bool
  | .string _ | .number _ | .boolean _ | .none => true
  | .list items => items.all Expr.isLiteral
  | _ => false

def hasIdentifier (a : Assign) (identifier : String) : Bool := a.annotation.any (·.identifier = identifier)

def assignCanExtract (source : SourceAnnotation) (a : Assign) : Bool :=
  if a.annotation.any (!·.canExtract) then false
  else if hasIdentifier a "ExtractSecret" then true
  else canExtract source a.value

def shouldExtract (source : SourceAnnotation) (a : Assign) : Bool :=
  if hasIdentifier a "ExtractLiteral" then true
  else if a.target.isLocal || isConstant a.value then false
  else if hasIdentifier a "ExtractSecret" then true
  else if !assignCanExtract source a then false
  else true

/-! ## Validated rule sets -/

def key (a : Assign) : String := a.target.identifierKey

def definition (assigns : List Assign) (k : String) : Option Assign := assigns.find? (key · = k)

def annotationOf (assigns : List Assign) : SourceAnnotation :=
  fun k => (definition assigns k).bind Assign.annotation

/-- The check of `_validate_assign` on secrets. -/
def assignErrors (source : SourceAnnotation) (a : Assign) : List ValidationError :=
  if !assignCanExtract source a && !(hasIdentifier a "Secret" || hasIdentifier a "ExtractSecret") then
    [⟨"assignments can not include non-extractable features if they are not marked Secret",
      "name '" ++ a.target.identifier ++ "' is not marked as non-extractable"⟩]
  else []

mutual

def names : Expr → List Name
  | .name n => [n]
  | .attributeAccess n _ => [n]
  | .list items => listNames items
  | .call _ _ arguments => argumentNames arguments
  | .binaryOperation left right _ => names left ++ names right
  | .unaryOperation operand _ => names operand
  | .binaryComparison left right _ => names left ++ names right
  | .booleanOperation values _ => listNames values
  | .formatString _ names => names
  | .string _ | .number _ | .boolean _ | .none => []

def listNames : List Expr → List Name
  | [] => []
  | e :: es => names e ++ listNames es

def argumentNames : List (String × Expr) → List Name
  | [] => []
  | (_, e) :: es => names e ++ argumentNames es

end

/-- Every name is assigned before it is loaded, given what is known already. -/
def definedBefore : List String → List Assign → Bool
  | _, [] => true
  | known, a :: assigns =>
    (names a.value).all (·.identifierKey ∈ known) && definedBefore (known ++ [key a]) assigns

/-- The assignments of a rule set in the order in which they are validated, with
what the validators have checked of them: stored names are unique, variables are
defined, annotations convert, and no assignment hides a secret. -/
structure RuleSet where
  assigns : List Assign
  unique : (assigns.map key).Nodup
  defined : definedBefore [] assigns
  converts : ∀ a ∈ assigns, ∀ t ∈ a.annotation, t.converts
  validated : ∀ a ∈ assigns, assignErrors (annotationOf assigns) a = []

def isSecret (a : Assign) : Bool :=
  match a.annotation with
  | some (.withVariants identifier _) => identifier = "Secret"
  | _ => false

/-! ## Runs -/

variable {V : Type}

/-- What the nodes of a rule set compute from the results of the nodes they
depend on. A call stands for the UDF at its node, with all it does in this run. -/
structure Semantics (V : Type) where
  literal : Expr → NodeResult V
  list : List (NodeResult V) → NodeResult V
  call : NodeId → Callee → List (String × NodeResult V) → NodeResult V
  binaryOperation : Operator → NodeResult V → NodeResult V → NodeResult V
  unaryOperation : UnaryOperator → NodeResult V → NodeResult V
  binaryComparison : Comparator → NodeResult V → NodeResult V → NodeResult V
  booleanOperation : BooleanOperand → List (NodeResult V) → NodeResult V
  formatString : String → List (NodeResult V) → NodeResult V
  attributeAccess : String → NodeResult V → NodeResult V

abbrev Env (V : Type) := String → NodeResult V

mutual

def eval (sem : Semantics V) (env : Env V) : Expr → NodeResult V
  | .name n => env n.identifierKey
  | .attributeAccess n attributeName => sem.attributeAccess attributeName (env n.identifierKey)
  | .list items => sem.list (evalList sem env items)
  | .call id func arguments => sem.call id func (evalArguments sem env arguments)
  | .binaryOperation left right operator => sem.binaryOperation operator (eval sem env left) (eval sem env right)
  | .unaryOperation operand operator => sem.unaryOperation operator (eval sem env operand)
  | .binaryComparison left right comparator =>
    sem.binaryComparison comparator (eval sem env left) (eval sem env right)
  | .booleanOperation values operand => sem.booleanOperation operand (evalList sem env values)
  | .formatString format names => sem.formatString format (names.map fun n => env n.identifierKey)
  | .string value => sem.literal (.string value)
  | .number id => sem.literal (.number id)
  | .boolean value => sem.literal (.boolean value)
  | .none => sem.literal .none

def evalList (sem : Semantics V) (env : Env V) : List Expr → List (NodeResult V)
  | [] => []
  | e :: es => eval sem env e :: evalList sem env es

def evalArguments (sem : Semantics V) (env : Env V) : List (String × Expr) → List (String × NodeResult V)
  | [] => []
  | (k, e) :: es => (k, eval sem env e) :: evalArguments sem env es

end

/-- The result of an assignment. The runs that are compared differ in the results
of the secret ones, which are taken from `secrets`. -/
def assignResult (sem : Semantics V) (secrets env : Env V) (a : Assign) : NodeResult V :=
  if isSecret a then secrets (key a) else eval sem env a.value

def runAssigns (sem : Semantics V) (secrets : Env V) : List Assign → Env V → Env V
  | [], env => env
  | a :: assigns, env =>
    runAssigns sem secrets assigns (Function.update env (key a) (assignResult sem secrets env a))

/-- The value that `AssignExecutor.execute` extracts: `None` for a failed one. -/
def RuleSet.output (r : RuleSet) (sem : Semantics V) (secrets : Env V) (a : Assign) : Option V :=
  (runAssigns sem secrets r.assigns (fun _ => .err) (key a)).toOption

/-! ## Reaching a secret -/

/-- What an expression goes through on the way to a secret. -/
inductive Step
  | name
  | list
  | call
  | formatString
  | attributeAccess
  | binaryOperation
  | unaryOperation
  | binaryComparison
  | booleanOperation
  | extractSecret
  deriving DecidableEq, Repr

/-- `Reaches assigns e p`: along the steps `p` the expression `e` depends on an
assignment annotated `Secret[...]`. -/
inductive Reaches (assigns : List Assign) : Expr → List Step → Prop
  | secret {n a} : definition assigns n.identifierKey = some a → isSecret a → Reaches assigns (.name n) [.name]
  | name {n a p} : definition assigns n.identifierKey = some a → ¬ isSecret a → ¬ hasIdentifier a "ExtractSecret" →
      Reaches assigns a.value p → Reaches assigns (.name n) (.name :: p)
  | extractSecret {n a p} : definition assigns n.identifierKey = some a → ¬ isSecret a →
      hasIdentifier a "ExtractSecret" → Reaches assigns a.value p →
      Reaches assigns (.name n) (.name :: .extractSecret :: p)
  | list {items e p} : e ∈ items → Reaches assigns e p → Reaches assigns (.list items) (.list :: p)
  | call {id func arguments k e p} : (k, e) ∈ arguments → Reaches assigns e p →
      Reaches assigns (.call id func arguments) (.call :: p)
  | formatString {format names n p} : n ∈ names → Reaches assigns (.name n) p →
      Reaches assigns (.formatString format names) (.formatString :: p)
  | attributeAccess {n attributeName p} : Reaches assigns (.name n) p →
      Reaches assigns (.attributeAccess n attributeName) (.attributeAccess :: p)
  | binaryOperationLeft {left right operator p} : Reaches assigns left p →
      Reaches assigns (.binaryOperation left right operator) (.binaryOperation :: p)
  | binaryOperationRight {left right operator p} : Reaches assigns right p →
      Reaches assigns (.binaryOperation left right operator) (.binaryOperation :: p)
  | unaryOperation {operand operator p} : Reaches assigns operand p →
      Reaches assigns (.unaryOperation operand operator) (.unaryOperation :: p)
  | binaryComparisonLeft {left right comparator p} : Reaches assigns left p →
      Reaches assigns (.binaryComparison left right comparator) (.binaryComparison :: p)
  | binaryComparisonRight {left right comparator p} : Reaches assigns right p →
      Reaches assigns (.binaryComparison left right comparator) (.binaryComparison :: p)
  | booleanOperation {values operand e p} : e ∈ values → Reaches assigns e p →
      Reaches assigns (.booleanOperation values operand) (.booleanOperation :: p)

/-- The steps through which `can_extract` is meant to percolate: names, lists,
calls, f-strings and binary operations. -/
def Step.percolates : Step → Bool
  | .name | .list | .call | .formatString | .binaryOperation => true
  | _ => false

variable {assigns : List Assign} {a : Assign}

theorem definition_eq_some (h : (assigns.map key).Nodup) (ha : a ∈ assigns) : definition assigns (key a) = some a := by
  induction assigns with
  | nil => cases ha
  | cons b assigns ih =>
    obtain ⟨hb, hnodup⟩ := List.nodup_cons.1 h
    rcases List.mem_cons.1 ha with rfl | ha
    · simp [definition]
    · have hne : key b ≠ key a := fun he => hb (he ▸ List.mem_map_of_mem ha)
      rw [definition, List.find?_cons_of_neg (by simpa using hne)]
      exact ih hnodup ha

theorem definition_spec {k} (h : definition assigns k = some a) : a ∈ assigns ∧ key a = k :=
  ⟨List.mem_of_find?_eq_some h, by simpa using List.find?_some h⟩

/-! ## Percolation -/

variable {source : SourceAnnotation}

theorem listCanExtract_eq (es : List Expr) : listCanExtract source es = es.all (canExtract source) := by
  induction es with
  | nil => rfl
  | cons e es ih => rw [listCanExtract, ih, List.all_cons]

theorem argumentsCanExtract_eq (es : List (String × Expr)) :
    argumentsCanExtract source es = es.all (canExtract source ·.2) := by
  induction es with
  | nil => rfl
  | cons e es ih => rw [argumentsCanExtract, ih, List.all_cons]

theorem annotation_of_isSecret (h : isSecret a) : ∃ t, a.annotation = some t ∧ t.canExtract = false := by
  unfold isSecret at h
  split at h
  next identifier variants heq =>
    refine ⟨_, heq, ?_⟩
    unfold Annotation.canExtract
    rw [if_pos (of_decide_eq_true h)]
  next => cases h

variable {p : List Step} {e : Expr}

section

variable {r : RuleSet}

theorem isSecret_of_hasIdentifier (ha : a ∈ r.assigns) (h : hasIdentifier a "Secret") : isSecret a := by
  unfold hasIdentifier at h
  unfold isSecret
  cases ht : a.annotation with
  | none => rw [ht] at h; cases h
  | some t =>
    rw [ht] at h
    have hid : t.identifier = "Secret" := by simpa using h
    have hconverts := r.converts a ha t (by rw [ht]; rfl)
    cases t with
    | withVariants identifier variants => exact decide_eq_true hid
    | plain identifier =>
      cases (show identifier = "Secret" from hid)
      exact absurd hconverts (by decide)

theorem secret_of_not_canExtract (ha : a ∈ r.assigns)
    (h : canExtract (annotationOf r.assigns) a.value = false) : isSecret a ∨ hasIdentifier a "ExtractSecret" := by
  by_cases hextract : hasIdentifier a "ExtractSecret" = true
  · exact .inr hextract
  · left
    have hassign : assignCanExtract (annotationOf r.assigns) a = false := by
      unfold assignCanExtract
      split_ifs
      · rfl
      · exact h
    have herrors := r.validated a ha
    unfold assignErrors at herrors
    split at herrors
    · cases herrors
    next hno =>
      refine isSecret_of_hasIdentifier ha ?_
      simpa [hassign, Bool.eq_false_iff.2 hextract] using hno

/-- **`can_extract` percolates.** What reaches a secret through names, lists, calls
and f-strings only is not extractable. -/
theorem canExtract_eq_false (h : Reaches r.assigns e p)
    (hp : ∀ s ∈ p, s.percolates ∧ s ≠ .binaryOperation) : canExtract (annotationOf r.assigns) e = false := by
  induction h with
  | secret hdef hsecret =>
    obtain ⟨t, ht, hfalse⟩ := annotation_of_isSecret hsecret
    rw [canExtract, nameCanExtract, annotationOf, hdef, Option.bind_some, ht]
    exact hfalse
  | name hdef hnot hextract _ ih =>
    have hvalue := ih (List.forall_mem_cons.1 hp).2
    rcases secret_of_not_canExtract (definition_spec hdef).1 hvalue with h | h
    · exact absurd h hnot
    · exact absurd h hextract
  | extractSecret _ _ _ _ _ => exact absurd (hp .extractSecret (by simp)).1 (by decide)
  | list hmem _ ih =>
    have hitem := ih (List.forall_mem_cons.1 hp).2
    rw [canExtract, listCanExtract_eq]
    exact List.all_eq_false.2 ⟨_, hmem, by simp [hitem]⟩
  | call hmem _ ih =>
    have hargument := ih (List.forall_mem_cons.1 hp).2
    rw [canExtract, argumentsCanExtract_eq]
    exact List.all_eq_false.2 ⟨_, hmem, by simp [hargument]⟩
  | formatString hmem _ ih =>
    have hname := ih (List.forall_mem_cons.1 hp).2
    rw [canExtract] at hname
    simp only [canExtract]
    exact List.all_eq_false.2 ⟨_, hmem, by simp [hname]⟩
  | binaryOperationLeft | binaryOperationRight => exact absurd rfl (hp _ List.mem_cons_self).2
  | attributeAccess | unaryOperation | binaryComparisonLeft | binaryComparisonRight | booleanOperation =>
    exact absurd (hp _ List.mem_cons_self).1 (by decide)

theorem not_isSecret_of_shouldExtract (h : shouldExtract source a) : ¬ isSecret a := by
  intro hsecret
  obtain ⟨t, ht, hfalse⟩ := annotation_of_isSecret hsecret
  have hidentifier : t.identifier = "Secret" := by
    simp only [isSecret, ht] at hsecret
    cases t with
    | plain identifier => cases hsecret
    | withVariants identifier variants => exact of_decide_eq_true hsecret
  have hother : ∀ identifier, identifier ≠ "Secret" → hasIdentifier a identifier = false := fun identifier hne => by
    simp [hasIdentifier, ht, hidentifier, Ne.symm hne]
  have hassign : assignCanExtract source a = false := by simp [assignCanExtract, ht, hfalse]
  simp [shouldExtract, hother "ExtractLiteral" (by decide), hother "ExtractSecret" (by decide), hassign] at h

theorem not_reaches_of_shouldExtract (ha : a ∈ r.assigns) (h : shouldExtract (annotationOf r.assigns) a)
    (hreaches : Reaches r.assigns (.name a.target) p) (hp : ∀ s ∈ p, s.percolates ∧ s ≠ .binaryOperation) : False := by
  have hdef := definition_eq_some r.unique ha
  have hsecret := not_isSecret_of_shouldExtract h
  cases hreaches with
  | secret hdef' hsecret' =>
    cases hdef'.symm.trans hdef
    exact hsecret hsecret'
  | name hdef' hnot hextract hvalue =>
    cases hdef'.symm.trans hdef
    have hfalse := canExtract_eq_false hvalue (List.forall_mem_cons.1 hp).2
    rcases secret_of_not_canExtract ha hfalse with h' | h'
    · exact hsecret h'
    · exact hextract h'
  | extractSecret _ _ _ _ => exact absurd (hp .extractSecret (by simp)).1 (by decide)

end

/-! ## Two runs -/

variable {env₁ env₂ : Env V}

theorem listNames_eq (es : List Expr) : listNames es = es.flatMap names := by
  induction es with
  | nil => rfl
  | cons e es ih => rw [listNames, ih, List.flatMap_cons]

theorem argumentNames_eq (es : List (String × Expr)) : argumentNames es = es.flatMap (names ·.2) := by
  induction es with
  | nil => rfl
  | cons e es ih => rw [argumentNames, ih, List.flatMap_cons]

theorem evalList_eq (sem : Semantics V) (env : Env V) (es : List Expr) :
    evalList sem env es = es.map (eval sem env) := by
  induction es with
  | nil => rfl
  | cons e es ih => rw [evalList, ih, List.map_cons]

theorem evalArguments_eq (sem : Semantics V) (env : Env V) (es : List (String × Expr)) :
    evalArguments sem env es = es.map fun e => (e.1, eval sem env e.2) := by
  induction es with
  | nil => rfl
  | cons e es ih => rw [evalArguments, ih, List.map_cons]

theorem eval_congr (sem : Semantics V) (e : Expr)
    (h : ∀ n ∈ names e, env₁ n.identifierKey = env₂ n.identifierKey) : eval sem env₁ e = eval sem env₂ e := by
  induction e with
  | string | number | boolean | none => rfl
  | name n => exact h n (by simp [names])
  | attributeAccess n attributeName => simp only [eval, h n (by simp [names])]
  | list es ih | booleanOperation es operand ih =>
    rw [names, listNames_eq] at h
    rw [eval, eval, evalList_eq, evalList_eq,
      List.map_congr_left fun e he => ih e he fun n hn => h n (List.mem_flatMap.2 ⟨e, he, hn⟩)]
  | call id func es ih =>
    rw [names, argumentNames_eq] at h
    rw [eval, eval, evalArguments_eq, evalArguments_eq, List.map_congr_left fun e he =>
      congrArg (e.1, ·) (ih e he fun n hn => h n (List.mem_flatMap.2 ⟨e, he, hn⟩))]
  | unaryOperation operand operator ih => simp only [eval, ih h]
  | binaryOperation left right operator ihl ihr | binaryComparison left right comparator ihl ihr =>
    simp only [eval, ihl fun n hn => h n (List.mem_append_left _ hn),
      ihr fun n hn => h n (List.mem_append_right _ hn)]
  | formatString format ns =>
    simp only [eval]
    exact congrArg _ (List.map_congr_left fun n hn => h n hn)

theorem reaches_of_mem_names {n} (h : Reaches assigns (.name n) p) (e : Expr) (hn : n ∈ names e) :
    ∃ q, Reaches assigns e q := by
  induction e with
  | string | number | boolean | none => cases hn
  | name m =>
    obtain rfl := List.mem_singleton.1 hn
    exact ⟨p, h⟩
  | attributeAccess m attributeName =>
    obtain rfl := List.mem_singleton.1 hn
    exact ⟨_, .attributeAccess h⟩
  | list es ih =>
    rw [names, listNames_eq, List.mem_flatMap] at hn
    obtain ⟨e, he, hn⟩ := hn
    exact (ih e he hn).imp' _ fun _ => .list he
  | call id func es ih =>
    rw [names, argumentNames_eq, List.mem_flatMap] at hn
    obtain ⟨e, he, hn⟩ := hn
    exact (ih e he hn).imp' _ fun _ => .call he
  | binaryOperation left right operator ihl ihr =>
    rcases List.mem_append.1 hn with hn | hn
    · exact (ihl hn).imp' _ fun _ => .binaryOperationLeft
    · exact (ihr hn).imp' _ fun _ => .binaryOperationRight
  | unaryOperation operand operator ih => exact (ih hn).imp' _ fun _ => .unaryOperation
  | binaryComparison left right comparator ihl ihr =>
    rcases List.mem_append.1 hn with hn | hn
    · exact (ihl hn).imp' _ fun _ => .binaryComparisonLeft
    · exact (ihr hn).imp' _ fun _ => .binaryComparisonRight
  | booleanOperation es operand ih =>
    rw [names, listNames_eq, List.mem_flatMap] at hn
    obtain ⟨e, he, hn⟩ := hn
    exact (ih e he hn).imp' _ fun _ => .booleanOperation he
  | formatString format ns => exact ⟨_, .formatString hn h⟩

/-- Two environments agree on every name that reaches no secret. -/
def Agree (assigns : List Assign) (env₁ env₂ : Env V) : Prop :=
  ∀ n : Name, (¬ ∃ p, Reaches assigns (.name n) p) → env₁ n.identifierKey = env₂ n.identifierKey

theorem Agree.eval (h : Agree assigns env₁ env₂) (sem : Semantics V)
    (he : ¬ ∃ p, Reaches assigns e p) : eval sem env₁ e = eval sem env₂ e :=
  eval_congr sem e fun n hn => h n fun ⟨_, hp⟩ => he (reaches_of_mem_names hp e hn)

theorem Agree.assign (h : Agree assigns env₁ env₂) (sem : Semantics V)
    (secrets₁ secrets₂ : Env V) (hdef : definition assigns (key a) = some a) :
    Agree assigns (Function.update env₁ (key a) (assignResult sem secrets₁ env₁ a))
      (Function.update env₂ (key a) (assignResult sem secrets₂ env₂ a)) := by
  intro n hn
  by_cases hk : n.identifierKey = key a
  · rw [hk, Function.update_self, Function.update_self]
    rw [← hk] at hdef
    have hsecret : ¬ isSecret a := fun hs => hn ⟨_, .secret hdef hs⟩
    have hvalue : ¬ ∃ p, Reaches assigns a.value p := by
      rintro ⟨p, hp⟩
      by_cases hx : hasIdentifier a "ExtractSecret" = true
      · exact hn ⟨_, .extractSecret hdef hsecret hx hp⟩
      · exact hn ⟨_, .name hdef hsecret hx hp⟩
    rw [assignResult, assignResult, if_neg hsecret, if_neg hsecret]
    exact h.eval sem hvalue
  · rw [Function.update_of_ne hk, Function.update_of_ne hk]
    exact h n hn

theorem Agree.run {all} (sem : Semantics V) (secrets₁ secrets₂ : Env V) :
    ∀ (assigns : List Assign) {env₁ env₂}, (∀ a ∈ assigns, definition all (key a) = some a) →
    Agree all env₁ env₂ → Agree all (runAssigns sem secrets₁ assigns env₁) (runAssigns sem secrets₂ assigns env₂)
  | [], _, _, _, h => h
  | a :: assigns, _, _, hdef, h =>
    Agree.run sem secrets₁ secrets₂ assigns (fun b hb => hdef b (by simp [hb])) (h.assign sem _ _ (hdef a (by simp)))

/-- **Non-interference.** A feature that reaches no secret has one value in all runs. -/
theorem RuleSet.output_eq (r : RuleSet) (h : ¬ ∃ p, Reaches r.assigns (.name a.target) p)
    (sem : Semantics V) (secrets₁ secrets₂ : Env V) : r.output sem secrets₁ a = r.output sem secrets₂ a := by
  have hagree : Agree r.assigns (runAssigns sem secrets₁ r.assigns fun _ => .err)
      (runAssigns sem secrets₂ r.assigns fun _ => .err) :=
    Agree.run sem secrets₁ secrets₂ _ (fun b hb => definition_eq_some r.unique hb) fun _ _ => rfl
  rw [RuleSet.output, RuleSet.output, key, hagree a.target h]

/-! ## A run as a solution -/

theorem runAssigns_of_not_mem (sem : Semantics V) (secrets : Env V) : ∀ (assigns : List Assign) (env : Env V)
    {k}, k ∉ assigns.map key → runAssigns sem secrets assigns env k = env k
  | [], _, _, _ => rfl
  | a :: assigns, env, k, h => by
    rw [List.map_cons, List.mem_cons, not_or] at h
    rw [runAssigns, runAssigns_of_not_mem sem secrets assigns _ h.2, Function.update_of_ne h.1]

/-- After a run every assignment has the result that its value has in the end:
the names it loads were assigned before it, and nothing is assigned twice. -/
theorem runAssigns_solves (sem : Semantics V) (secrets : Env V) : ∀ (assigns : List Assign) (known : List String)
    (env : Env V), definedBefore known assigns → (assigns.map key).Nodup → (∀ k ∈ known, k ∉ assigns.map key) →
    ∀ a ∈ assigns, runAssigns sem secrets assigns env (key a) =
      assignResult sem secrets (runAssigns sem secrets assigns env) a
  | b :: assigns, known, env, hdefined, hnodup, hknown, a, ha => by
    rw [definedBefore, Bool.and_eq_true, List.all_eq_true] at hdefined
    obtain ⟨hb, hnodup'⟩ := List.nodup_cons.1 hnodup
    rcases List.mem_cons.1 ha with rfl | ha
    · have hold : ∀ k ∈ known, runAssigns sem secrets (a :: assigns) env k = env k := fun k hk =>
        runAssigns_of_not_mem sem secrets _ env (hknown k hk)
      have hvalue := eval_congr sem a.value fun n hn => hold n.identifierKey (of_decide_eq_true (hdefined.1 n hn))
      rw [assignResult, hvalue]
      exact (runAssigns_of_not_mem sem secrets assigns _ hb).trans (Function.update_self ..)
    · refine runAssigns_solves sem secrets assigns (known ++ [key b]) _ hdefined.2 hnodup' (fun k hk => ?_) a ha
      rcases List.mem_append.1 hk with hk | hk
      · exact fun hm => hknown k hk (List.mem_cons_of_mem _ hm)
      · rwa [List.mem_singleton.1 hk]

/-! ## Telling secrets apart -/

def isTrue : NodeResult Bool → Bool
  | .ok b => b
  | .err => false

/-- The semantics that only passes on whether something true was used. -/
def taint : Semantics Bool where
  literal _ := .ok false
  list vs := .ok (vs.any isTrue)
  call _ _ vs := .ok (vs.any fun v => isTrue v.2)
  binaryOperation _ a b := .ok (isTrue a || isTrue b)
  unaryOperation _ a := .ok (isTrue a)
  binaryComparison _ a b := .ok (isTrue a || isTrue b)
  booleanOperation _ vs := .ok (vs.any isTrue)
  formatString _ vs := .ok (vs.any isTrue)
  attributeAccess _ a := .ok (isTrue a)

variable {env : Env Bool}

theorem isTrue_of_reaches (hsolves : ∀ a ∈ assigns, env (key a) = assignResult taint (fun _ => .ok true) env a)
    (h : Reaches assigns e p) : isTrue (eval taint env e) := by
  have hname : ∀ {n : Name} {a : Assign}, definition assigns n.identifierKey = some a →
      eval taint env (.name n) = assignResult taint (fun _ => .ok true) env a := fun hdef => by
    obtain ⟨ha, hk⟩ := definition_spec hdef
    rw [eval, ← hk, hsolves _ ha]
  induction h with
  | secret hdef hsecret => rw [hname hdef, assignResult, if_pos hsecret]; rfl
  | name hdef hnot _ _ ih | extractSecret hdef hnot _ _ ih => rwa [hname hdef, assignResult, if_neg hnot]
  | list hmem _ ih | booleanOperation hmem _ ih =>
    rw [eval, evalList_eq]
    exact List.any_eq_true.2 ⟨_, List.mem_map_of_mem hmem, ih⟩
  | call hmem _ ih =>
    rw [eval, evalArguments_eq]
    exact List.any_eq_true.2 ⟨_, List.mem_map_of_mem hmem, ih⟩
  | formatString hmem _ ih => exact List.any_eq_true.2 ⟨_, List.mem_map_of_mem hmem, ih⟩
  | attributeAccess _ ih | unaryOperation _ ih => exact ih
  | binaryOperationLeft _ ih | binaryComparisonLeft _ ih => exact Bool.or_eq_true_iff.2 (.inl ih)
  | binaryOperationRight _ ih | binaryComparisonRight _ ih => exact Bool.or_eq_true_iff.2 (.inr ih)

theorem eval_taint_of_false (h : ∀ k, isTrue (env k) = false) (e : Expr) : isTrue (eval taint env e) = false := by
  induction e with
  | string | number | boolean | none => rfl
  | name n | attributeAccess n attributeName => exact h n.identifierKey
  | list es ih | booleanOperation es operand ih =>
    rw [eval, evalList_eq]
    exact List.any_eq_false.2 (List.forall_mem_map.2 fun e he => by simp [ih e he])
  | call id func es ih =>
    rw [eval, evalArguments_eq]
    exact List.any_eq_false.2 (List.forall_mem_map.2 fun e he => by simp [ih e he])
  | unaryOperation operand operator ih => exact ih
  | binaryOperation left right operator ihl ihr | binaryComparison left right comparator ihl ihr =>
    exact Bool.or_eq_false_iff.2 ⟨ihl, ihr⟩
  | formatString format ns =>
    simp only [eval]
    exact List.any_eq_false.2 (List.forall_mem_map.2 fun n _ => by simp [h])

theorem runAssigns_taint_of_false : ∀ (assigns : List Assign) (env : Env Bool), (∀ k, isTrue (env k) = false) →
    ∀ k, isTrue (runAssigns taint (fun _ => .ok false) assigns env k) = false
  | [], _, h => h
  | a :: assigns, env, h => by
    refine runAssigns_taint_of_false assigns _ fun k => ?_
    by_cases hk : k = key a
    · rw [hk, Function.update_self, assignResult]
      split_ifs
      · rfl
      · exact eval_taint_of_false h a.value
    · rw [Function.update_of_ne hk]
      exact h k

theorem RuleSet.output_ne_of_reaches (r : RuleSet) (h : Reaches r.assigns (.name a.target) p) :
    r.output taint (fun _ => .ok true) a ≠ r.output taint (fun _ => .ok false) a := by
  have hsolves := runAssigns_solves taint (fun _ => .ok true) r.assigns [] (fun _ => .err) r.defined r.unique
    (fun k hk => (nomatch hk))
  have htrue := isTrue_of_reaches hsolves h
  have hfalse := runAssigns_taint_of_false r.assigns (fun _ => .err) (fun _ => rfl) (key a)
  intro heq
  unfold RuleSet.output at heq
  change isTrue (runAssigns taint (fun _ => .ok true) r.assigns (fun _ => .err) (key a)) = true at htrue
  cases h₁ : runAssigns taint (fun _ => .ok true) r.assigns (fun _ => .err) (key a) with
  | err => rw [h₁] at htrue; cases htrue
  | ok b =>
    rw [h₁] at heq htrue
    cases h₂ : runAssigns taint (fun _ => .ok false) r.assigns (fun _ => .err) (key a) with
    | err => rw [h₂] at heq; cases heq
    | ok c =>
      rw [h₂] at heq hfalse
      cases heq
      exact Bool.false_ne_true (hfalse.symm.trans htrue)

/-- **What an extracted feature can tell of secrets.** An extracted feature that
reaches secrets through names, lists, calls, f-strings and binary operations only,
and through no `ExtractSecret`, has the same value in all runs that differ only in
the secrets, whatever the operators and UDFs compute, exactly when it reaches no
secret through a binary operation. -/
theorem RuleSet.output_same_iff (r : RuleSet) {a : Assign} (ha : a ∈ r.assigns)
    (hextract : shouldExtract (annotationOf r.assigns) a)
    (hpaths : ∀ p, Reaches r.assigns (.name a.target) p → ∀ s ∈ p, s.percolates) :
    (∀ (V : Type) (sem : Semantics V) (secrets₁ secrets₂ : Env V),
        r.output sem secrets₁ a = r.output sem secrets₂ a) ↔
      ∀ p, Reaches r.assigns (.name a.target) p → .binaryOperation ∉ p := by
  constructor
  · intro hsame p hp
    exact absurd (hsame Bool taint _ _) (r.output_ne_of_reaches hp)
  · intro hno V sem secrets₁ secrets₂
    refine r.output_eq ?_ sem secrets₁ secrets₂
    rintro ⟨p, hp⟩
    exact not_reaches_of_shouldExtract ha hextract hp fun s hs =>
      ⟨hpaths p hp s hs, fun he => hno p hp (he ▸ hs)⟩

/-- `Foo: Secret[str] = F()` and `Bar = G()`: whatever `F` gives, `Bar` is the same. -/
theorem output_same_without_secret :
    let call (id : NodeId) (f : String) : Expr := .call id (.name ⟨f, "main.sml"⟩) []
    let foo : Assign := ⟨⟨"Foo", "main.sml"⟩, call 0 "F", some (.withVariants "Secret" [.plain "str"])⟩
    let bar : Assign := ⟨⟨"Bar", "main.sml"⟩, call 1 "G", none⟩
    ∃ r : RuleSet, r.assigns = [foo, bar] ∧ ∀ (V : Type) (sem : Semantics V) (secrets₁ secrets₂ : Env V),
      r.output sem secrets₁ bar = r.output sem secrets₂ bar := by
  intro call foo bar
  have hdef : definition [foo, bar] (key bar) = some bar := definition_eq_some (by decide) (by simp)
  have hno : ∀ p, ¬ Reaches [foo, bar] (.name bar.target) p := by
    intro p h
    cases h with
    | secret hdef' hsecret => cases hdef'.symm.trans hdef; cases hsecret
    | name hdef' _ _ hvalue => cases hdef'.symm.trans hdef; cases hvalue with | call hmem _ => cases hmem
    | extractSecret hdef' _ hextract _ => cases hdef'.symm.trans hdef; cases hextract
  refine ⟨⟨[foo, bar], by decide, by decide, by decide, by decide⟩, rfl, ?_⟩
  exact (RuleSet.output_same_iff _ (by simp) (by decide) fun p h => absurd h (hno p)).2 fun p h => absurd h (hno p)

/-- `Foo: Secret[str] = F()` and `Bar = Foo + 'x'` pass validation, `Bar` is
extracted, and its value tells the secret. -/
theorem output_tells_secret :
    let foo : Assign := ⟨⟨"Foo", "main.sml"⟩, .call 0 (.name ⟨"F", "main.sml"⟩) [],
      some (.withVariants "Secret" [.plain "str"])⟩
    let bar : Assign := ⟨⟨"Bar", "main.sml"⟩, .binaryOperation (.name ⟨"Foo", "main.sml"⟩) (.string "x") .add, none⟩
    let sem : Semantics String :=
      { literal := fun
          | .string s => .ok s
          | _ => .err
        list := fun _ => .err
        call := fun _ _ _ => .err
        binaryOperation := fun _ a b => match a, b with
          | .ok a, .ok b => .ok (a ++ b)
          | _, _ => .err
        unaryOperation := fun _ _ => .err
        binaryComparison := fun _ _ _ => .err
        booleanOperation := fun _ _ => .err
        formatString := fun _ _ => .err
        attributeAccess := fun _ _ => .err }
    ∃ r : RuleSet, r.assigns = [foo, bar] ∧ shouldExtract (annotationOf r.assigns) bar ∧
      (∀ p, Reaches r.assigns (.name bar.target) p → p = [.name, .binaryOperation, .name]) ∧
      r.output sem (fun _ => .ok "a") bar = some "ax" ∧ r.output sem (fun _ => .ok "b") bar = some "bx" := by
  intro foo bar sem
  have hdef : definition [foo, bar] (key bar) = some bar := definition_eq_some (by decide) (by simp)
  have hdef₀ : definition [foo, bar] (key foo) = some foo := definition_eq_some (by decide) (by simp)
  have hpath : ∀ p, Reaches [foo, bar] (.name bar.target) p → p = [.name, .binaryOperation, .name] := by
    intro p h
    cases h with
    | secret hdef' hsecret => cases hdef'.symm.trans hdef; cases hsecret
    | extractSecret hdef' _ hextract _ => cases hdef'.symm.trans hdef; cases hextract
    | name hdef' _ _ hvalue =>
      cases hdef'.symm.trans hdef
      cases hvalue with
      | binaryOperationRight h => cases h
      | binaryOperationLeft h =>
        cases h with
        | secret _ _ => rfl
        | name hdef' hnot _ _ => cases hdef'.symm.trans hdef₀; exact absurd rfl hnot
        | extractSecret hdef' hnot _ _ => cases hdef'.symm.trans hdef₀; exact absurd rfl hnot
  have hextract : shouldExtract (annotationOf [foo, bar]) bar := by decide
  have ha : (runAssigns sem (fun _ => .ok "a") [foo, bar] (fun _ => .err) (key bar)).toOption = some "ax" := by decide
  have hb : (runAssigns sem (fun _ => .ok "b") [foo, bar] (fun _ => .err) (key bar)).toOption = some "bx" := by decide
  exact ⟨⟨[foo, bar], by decide, by decide, by decide, by decide⟩, rfl, hextract, hpath, ha, hb⟩

end Extraction

end Osprey
