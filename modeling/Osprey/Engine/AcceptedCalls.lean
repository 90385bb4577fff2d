/-
What it means that `ValidateCallKwargs` accepts sources: errors are only ever
added, so that a run without errors has found every argument of every call in
order, and has put every call into its mapping.
-/
import Mathlib.Data.List.Dedup
import Osprey.Engine.ValidateCallKwargs

namespace Osprey.CallKwargs

open Druid (Filter)

/-! ## Errors are only added -/

/-- A later state of the validator: nothing was taken from its errors or its mapping. -/
structure Validator.Extends (v v' : Validator) : Prop where
  errors : v.errors <+: v'.errors
  mapped : ∀ id, (v.udfNodeMapping id).isSome = true → (v'.udfNodeMapping id).isSome = true

namespace Validator.Extends

theorem refl (v : Validator) : v.Extends v := ⟨List.prefix_refl _, fun _ => id⟩

theorem trans {v v' v'' : Validator} (h : v.Extends v') (h' : v'.Extends v'') : v.Extends v'' :=
  ⟨h.errors.trans h'.errors, fun id hid => h'.mapped id (h.mapped id hid)⟩

theorem addErrors (v : Validator) (es : List ValidationError) : v.Extends (v.addErrors es) :=
  ⟨List.prefix_append _ _, fun _ => id⟩

theorem errors_nil {v v' : Validator} (h : v.Extends v') (hnil : v'.errors = []) : v.errors = [] :=
  List.prefix_nil.mp (hnil ▸ h.errors)

end Validator.Extends

structure CallState.Extends (s s' : CallState) : Prop where
  validator : s.validator.Extends s'.validator
  missingKwargs : s.missingKwargs <+: s'.missingKwargs

namespace CallState.Extends

theorem refl (s : CallState) : s.Extends s := ⟨.refl _, List.prefix_refl _⟩

theorem trans {s s' s'' : CallState} (h : s.Extends s') (h' : s'.Extends s'') : s.Extends s'' :=
  ⟨h.validator.trans h'.validator, h.missingKwargs.trans h'.missingKwargs⟩

end CallState.Extends

theorem resolveConst_cases (p : Program) (source : Source) (argument : String) (t : ConstType) (node : Expr)
    (s : CallState) : ∃ es σ, s.validator.Extends (p.resolveConst source argument t node s).validator ∧
      (p.resolveConst source argument t node s).missingKwargs = s.missingKwargs ∧
      ((∃ value,
          t.resolve σ (p.preprocessUnary (p.resolveName source node).1 s.validator.trace.values).1 = .ok value ∧
          (p.resolveConst source argument t node s).literalFailedValidation = s.literalFailedValidation) ∨
        (p.resolveConst source argument t node s).validator.errors = s.validator.errors ++ es ∧ es ≠ []) := by
  unfold Program.resolveConst
  dsimp only
  cases hresolve : t.resolve (p.preprocessUnary (p.resolveName source node).1 s.validator.trace.values).2.1
      (p.preprocessUnary (p.resolveName source node).1 s.validator.trace.values).1 with
  | ok value =>
    refine ⟨[], _, ⟨?_, fun _ => id⟩, rfl, .inl ⟨value, hresolve, rfl⟩⟩
    exact List.prefix_append _ _
  | error e =>
    refine ⟨(p.resolveName source node).2 ++
      (p.preprocessUnary (p.resolveName source node).1 s.validator.trace.values).2.2 ++
        [⟨"invalid argument type: `" ++ e.node ++ "`", "expected type `" ++ e.expected ++ "`"⟩],
      s.validator.trace.values, ⟨?_, fun _ => id⟩, rfl, .inr ⟨?_, by simp⟩⟩
    · exact (List.prefix_append _ _).trans (List.prefix_append _ _)
    · exact List.append_assoc _ _ _

/-- An argument with which the loop finds nothing wrong: it is not missing, and a constant is resolved. -/
structure ArgumentFine (p : Program) (source : Source) (udf : UdfClass) (call : CallNode) (argument : String) :
    Prop where
  notMissing : classify udf call argument ≠ .missing
  resolved : ∀ t node, classify udf call argument = .const t node → ∃ σ σ' value,
    t.resolve σ' (p.preprocessUnary (p.resolveName source node).1 σ).1 = .ok value

section

variable {p : Program} {source : Source} {udf : UdfClass} {call : CallNode}

theorem argumentStep_extends (s : CallState) (argument : String) :
    s.Extends (p.argumentStep source udf call s argument) := by
  unfold Program.argumentStep
  cases classify udf call argument with
  | reserved => exact ⟨.addErrors _ _, List.prefix_refl _⟩
  | unknown => exact ⟨.addErrors _ _, List.prefix_refl _⟩
  | missing => exact ⟨.refl _, List.prefix_append _ _⟩
  | const t node =>
    obtain ⟨es, σ, hext, hmissing, -⟩ := resolveConst_cases p source argument t node s
    refine ⟨hext, ?_⟩
    dsimp only
    rw [hmissing]
  | pass => exact .refl s

theorem argumentStep_fine {s argument} (herrors : (p.argumentStep source udf call s argument).validator.errors = [])
    (hmissing : (p.argumentStep source udf call s argument).missingKwargs = [])
    (hfailed : s.literalFailedValidation = false) :
    ArgumentFine p source udf call argument ∧
      (p.argumentStep source udf call s argument).literalFailedValidation = false := by
  unfold Program.argumentStep at herrors hmissing ⊢
  cases hclassify : classify udf call argument with
  | reserved | unknown | pass => exact ⟨⟨by simp [hclassify], by simp [hclassify]⟩, hfailed⟩
  | missing =>
    rw [hclassify] at hmissing
    exact absurd hmissing (List.append_ne_nil_of_right_ne_nil _ (List.cons_ne_nil _ _))
  | const t node =>
    rw [hclassify] at herrors
    dsimp only at herrors ⊢
    obtain ⟨es, σ, -, -, ⟨value, hvalue, hsame⟩ | ⟨hes, hne⟩⟩ := resolveConst_cases p source argument t node s
    · refine ⟨⟨by simp [hclassify], fun t' node' h => ?_⟩, hsame.trans hfailed⟩
      rw [hclassify] at h
      cases h
      exact ⟨_, _, _, hvalue⟩
    · rw [hes] at herrors
      exact absurd (List.append_eq_nil_iff.mp herrors).2 hne

theorem foldl_argumentStep_fine (p : Program) (source : Source) (udf : UdfClass) (call : CallNode) :
    ∀ (arguments : List String) (s : CallState),
    s.Extends (arguments.foldl (p.argumentStep source udf call) s) ∧
      ((arguments.foldl (p.argumentStep source udf call) s).validator.errors = [] →
        (arguments.foldl (p.argumentStep source udf call) s).missingKwargs = [] →
        s.literalFailedValidation = false →
        (∀ argument ∈ arguments, ArgumentFine p source udf call argument) ∧
          (arguments.foldl (p.argumentStep source udf call) s).literalFailedValidation = false)
  | [], s => ⟨.refl s, fun _ _ hfailed => ⟨List.forall_mem_nil _, hfailed⟩⟩
  | argument :: arguments, s => by
    obtain ⟨hext, hrest⟩ :=
      foldl_argumentStep_fine p source udf call arguments (p.argumentStep source udf call s argument)
    refine ⟨(argumentStep_extends s argument).trans hext, fun herrors hmissing hfailed => ?_⟩
    have hnil : (p.argumentStep source udf call s argument).missingKwargs = [] :=
      List.prefix_nil.mp (hmissing ▸ hext.missingKwargs)
    obtain ⟨hfine, hstep⟩ := argumentStep_fine (hext.validator.errors_nil herrors) hnil hfailed
    obtain ⟨hall, hlast⟩ := hrest herrors hmissing hstep
    exact ⟨List.forall_mem_cons.mpr ⟨hfine, hall⟩, hlast⟩

theorem finishCall_extends (functionName : String) (udf : UdfClass) (call : CallNode) (s : CallState) :
    s.validator.Extends (finishCall functionName udf call s) := by
  unfold finishCall
  dsimp only
  have hmissing : s.validator.Extends (if s.missingKwargs.isEmpty then s.validator else
      s.validator.addErrors [⟨toString s.missingKwargs.length ++ " missing keyword argument(s)",
        "the following keyword arguments were not provided: [" ++ quoted s.missingKwargs ++ "]"⟩]) := by
    split
    · exact .refl _
    · exact .addErrors _ _
  split
  · exact hmissing
  · split
    · refine hmissing.trans ⟨List.prefix_append _ _, fun id hid => ?_⟩
      dsimp only
      by_cases heq : id = call.id
      · rw [heq, Function.update_self]
        rfl
      · rw [Function.update_of_ne heq]
        exact hid
    · exact hmissing.trans (.addErrors _ _)

theorem finishCall_missing {functionName s}
    (herrors : (finishCall functionName udf call s).errors = []) : s.missingKwargs = [] := by
  by_contra hne
  unfold finishCall at herrors
  rw [← List.isEmpty_iff] at hne
  simp [hne, Validator.addErrors] at herrors

/-- A call that is finished without errors, with its constants resolved, is in the mapping. -/
theorem finishCall_mapped {functionName s}
    (herrors : (finishCall functionName udf call s).errors = []) (hmissing : s.missingKwargs = [])
    (hfailed : s.literalFailedValidation = false) :
    ((finishCall functionName udf call s).udfNodeMapping call.id).isSome = true := by
  unfold finishCall at herrors ⊢
  simp only [hmissing, hfailed, List.isEmpty_nil, Bool.not_true, Bool.or_false, Bool.false_eq_true, if_false,
    if_true] at herrors ⊢
  split
  · dsimp only
    rw [Function.update_self]
    rfl
  · next h =>
    rw [h] at herrors
    simp [Validator.addErrors] at herrors

end

theorem validateNamedCall_extends (p : Program) (source : Source) (functionName : String) (call : CallNode)
    (v : Validator) : v.Extends (p.validateNamedCall source functionName call v) := by
  unfold Program.validateNamedCall
  cases p.registry functionName with
  | none => exact .addErrors _ _
  | some udf =>
    have hloop := (foldl_argumentStep_fine p source udf call (allArguments udf call) { validator := v }).1.validator
    exact hloop.trans (finishCall_extends functionName udf call _)

/-- A call with which the validator finds nothing wrong: its function is registered, and its arguments are fine. -/
structure CallFine (p : Program) (source : Source) (call : CallNode) (n : Name) (udf : UdfClass) : Prop where
  func : call.func = .name n
  registered : p.registry n.identifier = some udf
  arguments : ∀ argument ∈ allArguments udf call, ArgumentFine p source udf call argument

theorem validateNamedCall_fine {p source n call v}
    (hfunc : call.func = .name n) (herrors : (p.validateNamedCall source n.identifier call v).errors = []) :
    (∃ udf, CallFine p source call n udf) ∧
      ((p.validateNamedCall source n.identifier call v).udfNodeMapping call.id).isSome = true := by
  unfold Program.validateNamedCall at herrors ⊢
  cases hudf : p.registry n.identifier with
  | none =>
    rw [hudf] at herrors
    simp [Validator.addErrors] at herrors
  | some udf =>
    rw [hudf] at herrors
    dsimp only at herrors ⊢
    obtain ⟨-, hloop⟩ := foldl_argumentStep_fine p source udf call (allArguments udf call) { validator := v }
    generalize (allArguments udf call).foldl (p.argumentStep source udf call) { validator := v } = s at *
    have hnil := (finishCall_extends n.identifier udf call s).errors_nil herrors
    have hmissing := finishCall_missing herrors
    obtain ⟨hfine, hfailed⟩ := hloop hnil hmissing rfl
    exact ⟨⟨udf, hfunc, hudf, hfine⟩, finishCall_mapped herrors hmissing hfailed⟩

/-! ## A run without errors -/

theorem validateCalls_extends (p : Program) : ∀ (calls : List (Source × CallNode)) (v : Validator),
    v.Extends (p.validateCalls calls v)
  | [], v => .refl v
  | (source, call) :: calls, v => by
    unfold Program.validateCalls
    cases call.func with
    | attributeAccess n attributeName => exact ⟨List.prefix_refl _, fun _ => id⟩
    | name n =>
      exact (validateNamedCall_extends p source n.identifier call v).trans (validateCalls_extends p calls _)

/-- **What the validator accepts.** If it adds no error and does not raise, then
nothing is wrong with any call, and every call is in the mapping. -/
theorem validateCalls_fine {p} : ∀ {calls v},
    (p.validateCalls calls v).errors = [] → (p.validateCalls calls v).raised = none →
      ∀ c ∈ calls, (∃ n udf, CallFine p c.1 c.2 n udf) ∧
        ((p.validateCalls calls v).udfNodeMapping c.2.id).isSome = true
  | [], _, _, _ => List.forall_mem_nil _
  | (source, call) :: calls, v, herrors, hraised => by
    cases hfunc : call.func with
    | attributeAccess n attributeName => simp [Program.validateCalls, hfunc] at hraised
    | name n =>
      have hstep : p.validateCalls ((source, call) :: calls) v =
          p.validateCalls calls (p.validateNamedCall source n.identifier call v) := by
        rw [Program.validateCalls, hfunc]
      rw [hstep] at herrors hraised ⊢
      have hext := validateCalls_extends p calls (p.validateNamedCall source n.identifier call v)
      obtain ⟨⟨udf, hfine⟩, hmapped⟩ := validateNamedCall_fine hfunc (hext.errors_nil herrors)
      exact List.forall_mem_cons.mpr
        ⟨⟨⟨n, udf, hfine⟩, hext.mapped _ hmapped⟩, validateCalls_fine herrors hraised⟩

/-! ## What is in the mapping -/

section

variable {p : Program} {source : Source} {udf : UdfClass} {call : CallNode}

theorem udfNodeMapping_resolveConst (argument : String) (t : ConstType) (node : Expr) (s : CallState) :
    (p.resolveConst source argument t node s).validator.udfNodeMapping = s.validator.udfNodeMapping := by
  unfold Program.resolveConst
  dsimp only
  split <;> rfl

theorem udfNodeMapping_foldl_argumentStep (arguments : List String) (s : CallState) :
    (arguments.foldl (p.argumentStep source udf call) s).validator.udfNodeMapping = s.validator.udfNodeMapping := by
  induction arguments generalizing s with
  | nil => rfl
  | cons argument arguments ih =>
    rw [List.foldl_cons, ih]
    unfold Program.argumentStep
    cases classify udf call argument with
    | const t node => exact udfNodeMapping_resolveConst argument t node s
    | _ => rfl

theorem udfNodeMapping_finishCall {functionName s id instance_}
    (h : (finishCall functionName udf call s).udfNodeMapping id = some instance_) :
    s.validator.udfNodeMapping id = some instance_ ∨
      ∃ literals, (udf.construct call literals).2 = .ok instance_ := by
  have hmissing : (if s.missingKwargs.isEmpty then s.validator else
      s.validator.addErrors [⟨toString s.missingKwargs.length ++ " missing keyword argument(s)",
        "the following keyword arguments were not provided: [" ++ quoted s.missingKwargs ++ "]"⟩]).udfNodeMapping =
      s.validator.udfNodeMapping := by
    split <;> rfl
  unfold finishCall at h
  dsimp only at h
  split at h
  · exact .inl (hmissing ▸ h)
  · split at h
    · next errors constructed hconstruct =>
      dsimp only at h
      by_cases hid : id = call.id
      · rw [hid, Function.update_self] at h
        cases h
        exact .inr ⟨_, congrArg Prod.snd hconstruct⟩
      · rw [Function.update_of_ne hid] at h
        exact .inl (hmissing ▸ h)
    · exact .inl (hmissing ▸ h)

end

/-- A property of whatever the registered UDFs are constructed to holds of the whole mapping. -/
theorem udfNodeMapping_validateCalls {p : Program} {P : Option Filter → Prop}
    (hconstruct : ∀ f udf call literals instance_, p.registry f = some udf →
      (udf.construct call literals).2 = .ok instance_ → P instance_) :
    ∀ {calls v},
      (∀ id instance_, v.udfNodeMapping id = some instance_ → P instance_) →
      ∀ id instance_, (p.validateCalls calls v).udfNodeMapping id = some instance_ → P instance_
  | [], _, hv => hv
  | (source, call) :: calls, v, hv => by
    unfold Program.validateCalls
    cases call.func with
    | attributeAccess n attributeName => exact hv
    | name n =>
      refine udfNodeMapping_validateCalls hconstruct fun id instance_ h => ?_
      unfold Program.validateNamedCall at h
      cases hudf : p.registry n.identifier with
      | none =>
        rw [hudf] at h
        exact hv id instance_ h
      | some udf =>
        rw [hudf] at h
        obtain hbefore | ⟨literals, hnew⟩ := udfNodeMapping_finishCall h
        · rw [udfNodeMapping_foldl_argumentStep] at hbefore
          exact hv id instance_ hbefore
        · exact hconstruct _ _ _ _ _ hudf hnew

/-! ## Required arguments -/

section

variable {p : Program} {source : Source} {call : CallNode} {n : Name} {udf : UdfClass} {argument : String}

theorem mem_allArguments {t} (h : udf.items.lookup argument = some t) :
    argument ∈ allArguments udf call := by
  have hmem : (argument, t) ∈ udf.items := by
    obtain ⟨l₁, l₂, heq, -⟩ := List.lookup_eq_some_iff.mp h
    simp [heq]
  unfold allArguments sortedNames
  rw [List.mem_insertionSort, List.mem_dedup]
  exact List.mem_append_left _ (List.mem_map.mpr ⟨_, hmem, rfl⟩)

theorem CallFine.required (h : CallFine p source call n udf) {t}
    (hitem : udf.items.lookup argument = some t) (hdefault : udf.kwargHasDefault argument = false)
    (hname : argument ≠ extraArgsAttr) : ∃ node, call.arguments.lookup argument = some node := by
  have hfine := (h.arguments argument (mem_allArguments hitem)).notMissing
  cases hnode : call.arguments.lookup argument with
  | some node => exact ⟨node, rfl⟩
  | none => exact absurd (by simp [classify, hnode, hitem, hdefault, hname, nodeTruthy]) hfine

theorem eq_string_of_resolve {σ σ' node value}
    (h : ScalarType.str.resolve σ' (p.preprocessUnary node σ).1 = .ok value) :
    ∃ text, node = .string text ∧ value = .str text := by
  cases node with
  | unaryOperation operand operator =>
    exfalso
    unfold Program.preprocessUnary at h
    cases operator <;> cases operand <;> cases h
  | string text => exact ⟨text, rfl, by cases h; rfl⟩
  | _ => cases h

theorem CallFine.text (h : CallFine p source call n udf)
    (hitem : udf.items.lookup argument = some (.constExpr (.scalar .str)))
    (hdefault : udf.kwargHasDefault argument = false) (hname : argument ≠ extraArgsAttr) :
    ∃ node text, call.arguments.lookup argument = some node ∧ (p.resolveName source node).1 = .string text := by
  obtain ⟨node, hnode⟩ := h.required hitem hdefault hname
  have hconst : classify udf call argument = .const (.scalar .str) node := by
    simp [classify, hnode, hitem, hname]
  obtain ⟨σ, σ', value, hresolve⟩ := (h.arguments argument (mem_allArguments hitem)).resolved _ _ hconst
  obtain ⟨text, htext, -⟩ := eq_string_of_resolve hresolve
  exact ⟨node, text, hnode, htext⟩

end

end Osprey.CallKwargs
