/-
`ValidateLabels`: every `LabelAdd` and `LabelRemove` is checked against the
labels of the configuration, with the types of entities that
`FeatureNameToEntityTypeMapping` collects and the models that the
`ConfigValidator` parses.

The main result says exactly for which sources and configurations the validator
ends with a verdict, and not with an exception that nothing expects.
-/
import Osprey.Engine.AcceptedCalls
import Osprey.Engine.SourcesConfig

namespace Osprey.ValidateLabels

open CallKwargs (Program UdfClass CallFine assigns quoted extraArgsAttr validateCalls_fine)
open ConfigMerge (SourcesConfig Yaml)
open Lib (Dict Tree exists_mapM_ok_iff mem_of_mapM_ok)

/-! ## Sources that `ValidateCallKwargs` accepts -/

/-- The class of a UDF's arguments, as far as it is told: `LabelArguments`, `EntityArgumentsBase` or another. -/
inductive ArgumentsClass
  | labelArguments
  | entityArguments
  | other
  deriving DecidableEq, Repr

/-- An argument of type `ConstExpr[str]` without a default. -/
structure RequiredText (udf : UdfClass) (argument : String) : Prop where
  item : udf.items.lookup argument = some (.constExpr (.scalar .str))
  required : udf.kwargHasDefault argument = false

/-- Sources that come through `ValidateCallKwargs`, and the classes of the
arguments of the registered UDFs, of which the fields that are read are given. -/
structure AcceptedSources where
  program : Program
  argumentsType : String → ArgumentsClass
  entityField : ∀ f udf, program.registry f = some udf → argumentsType f = .labelArguments →
    udf.items.lookup "entity" = some .runtime ∧ udf.kwargHasDefault "entity" = false
  labelField : ∀ f udf, program.registry f = some udf → argumentsType f = .labelArguments → RequiredText udf "label"
  typeField : ∀ f udf, program.registry f = some udf → argumentsType f = .entityArguments → RequiredText udf "type"
  noErrors : (program.validate program.values).errors = []
  notRaised : (program.validate program.values).raised = none

namespace AcceptedSources

variable (A : AcceptedSources)

def classOf : Callee → ArgumentsClass
  | .name n => A.argumentsType n.identifier
  | .attributeAccess .. => .other

/-- `_, arguments = self._udf_node_mapping[id(call_node)]`: the class of the arguments. -/
def argumentsOf (call : CallNode) : Except Exc ArgumentsClass :=
  match (A.program.validate A.program.values).udfNodeMapping call.id with
  | some _ => .ok (A.classOf call.func)
  | none => .error ⟨.keyError, toString call.id⟩

/-- `arguments.label.value`, of an argument that was resolved to a text. -/
def textArgument (source : Source) (call : CallNode) (argument : String) : Except Exc String :=
  match (call.arguments.lookup argument).map fun node => (A.program.resolveName source node).1 with
  | some (.string text) => .ok text
  | _ => .error ⟨.other, "object has no attribute '" ++ argument ++ "'"⟩

/-! ## `FeatureNameToEntityTypeMapping` -/

def entityFeature? (source : Source) : Statement → Except Exc (Option (String × String))
  | .assign ⟨target, .call id func arguments, _⟩ =>
    if target.isLocal then .ok none
    else do
      match ← A.argumentsOf ⟨id, func, arguments⟩ with
      | .entityArguments => return some (target.identifier, ← A.textArgument source ⟨id, func, arguments⟩ "type")
      | _ => return none
  | _ => .ok none

def statements : List (Source × Statement) := A.program.sources.flatMap fun s => s.statements.map (s, ·)

/-- The types of the entities by feature; a later assignment overwrites an earlier one. -/
def featureNameToEntityType : Except Exc (Dict String String) := do
  let features ← A.statements.mapM fun s => A.entityFeature? s.1 s.2
  return Dict.ofList (features.filterMap id)

end AcceptedSources

/-! ## `SourcesConfig.closest_span_for_location` -/

variable {κ α : Type}

/-- An item of `PydanticValidationError.errors()`, with the texts of its location. -/
structure PydanticError where
  loc : List String
  msg : String
  errorType : String
  deriving DecidableEq, Repr

structure LabelInfo where
  validFor : List String
  deriving DecidableEq, Repr

/-- How values of a configuration are read: the text of a key that is one, the
name of a class, `dict(obj)` of what is no dictionary, and `LabelInfo(**obj)`. -/
structure Reader (κ α : Type) where
  text : κ → Option String
  className : Tree κ α → String
  dict : Tree κ α → Option (List (κ × Tree κ α))
  labelInfo : Tree κ α → Except (PydanticError × List PydanticError) LabelInfo

/-- `config.get(key)`. -/
def Reader.get? (r : Reader κ α) (config : SourcesConfig κ α) (key : String) : Option (Tree κ α) :=
  (config.config.find? fun e => r.text e.1 = some key).map Prod.snd

/-- Whether `closest_span_for_location` finds a span. The keys that are found on
the way have a position; without any, the span is that of `_source`. -/
def Reader.closestSpanForLocation (r : Reader κ α) (config : SourcesConfig κ α) (location : List String) :
    Except Exc Unit :=
  match location.head?.bind (r.get? config), config.source with
  | some _, _ => .ok ()
  | none, some _ => .ok ()
  | none, none => .error ⟨.other, "'SourcesConfig' object has no attribute '_source'"⟩

/-! ## `ConfigValidator` -/

/-- What `model.parse_obj` does: it returns a model, raises a
`PydanticValidationError` with its errors, or raises another exception. -/
inductive Parsed (β : Type)
  | model (value : β)
  | invalid (error : PydanticError) (errors : List PydanticError)
  | raised (e : Exc)
  deriving Repr

def Parsed.toUnit {β : Type} : Parsed β → Parsed Unit
  | model _ => .model ()
  | invalid error errors => .invalid error errors
  | raised e => .raised e

variable {β : Type}

theorem Parsed.toUnit_eq_raised_iff {x : Parsed β} {e} : x.toUnit = .raised e ↔ x = .raised e := by
  cases x <;> simp [toUnit]

theorem Parsed.toUnit_eq_model_iff {x : Parsed β} : x.toUnit = .model () ↔ ∃ value, x = .model value := by
  cases x <;> simp [toUnit]

/-- A registered model. Of the models beside `LabelsConfig` only their outcome counts. -/
inductive ConfigModel (κ α : Type)
  | labelsConfig
  | other (subkey : String) (parseObj : Option (Tree κ α) → Parsed Unit)

def labelsConfigSubkey : String := "labels"

def ConfigModel.subkey : ConfigModel κ α → String
  | labelsConfig => labelsConfigSubkey
  | other subkey _ => subkey

namespace Reader

variable (r : Reader κ α)

/-- The dictionary that `parse_obj` makes of a value. -/
def asDict : Tree κ α → Option (List (κ × Tree κ α))
  | .dict entries => some entries
  | t => r.dict t

/-- The keyword arguments of `cls(**obj)`, the first of which is named `__pydantic_self__` by the model itself. -/
def keyword (e : κ × Tree κ α) : Except Exc (String × Tree κ α) :=
  match r.text e.1 with
  | none => .error ⟨.typeError, "keywords must be strings"⟩
  | some name =>
    if name = "__pydantic_self__" then
      .error ⟨.typeError, "__init__() got multiple values for argument '__pydantic_self__'"⟩
    else .ok (name, e.2)

/-- `root_validator`: the keys that were in use once are removed. -/
def rootValidator (values : List (String × Tree κ α)) : List (String × Tree κ α) :=
  values.filter fun e => e.1 ≠ "positive" ∧ e.1 ≠ "negative"

def labelErrors (e : String × Tree κ α) : List PydanticError :=
  match r.labelInfo e.2 with
  | .ok _ => []
  | .error (error, errors) => (error :: errors).map fun x => { x with loc := "labels" :: e.1 :: x.loc }

def label? (e : String × Tree κ α) : Option (String × LabelInfo) :=
  match r.labelInfo e.2 with
  | .ok info => some (e.1, info)
  | .error _ => none

/-- `LabelsConfig(**obj)`. -/
def labelsOf (values : List (String × Tree κ α)) : Parsed (List (String × LabelInfo)) :=
  match values.flatMap r.labelErrors with
  | [] => .model (values.filterMap r.label?)
  | error :: errors => .invalid error errors

/-- `LabelsConfig.parse_obj`, with an empty dictionary for a missing value. -/
def parseLabels : Option (Tree κ α) → Parsed (List (String × LabelInfo))
  | none => .model []
  | some t => match r.asDict t with
    | none => .invalid ⟨["__root__"], "LabelsConfig expected dict not " ++ r.className t, "type_error"⟩ []
    | some entries => match entries.mapM r.keyword with
      | .error e => .raised e
      | .ok values => r.labelsOf (rootValidator values)

end Reader

/-! ## The validator -/

/-- How a validator ends: without errors, with `ValidatorFailed`, or with another exception. -/
inductive Outcome
  | passed
  | validatorFailed (errors : List ValidationError)
  | raised (e : Exc)
  deriving Repr

/-- Accepted sources with a configuration that `SourcesConfig` has built, and the
registered models, `LabelsConfig` among them. `closest` is `get_closest_string_within_threshold`. -/
structure Setting (κ α : Type) [DecidableEq κ] where
  sources : AcceptedSources
  config : SourcesConfig κ α
  reader : Reader κ α
  models : List (ConfigModel κ α)
  closest : String → List String → Option String
  built : ∃ (yaml : Yaml κ α) (files : List ConfigMerge.Source), SourcesConfig.new yaml files = .ok config
  labelsConfig_mem : .labelsConfig ∈ models

namespace Setting

variable [DecidableEq κ] (S : Setting κ α)

def value (m : ConfigModel κ α) : Option (Tree κ α) := S.reader.get? S.config m.subkey

/-- `parse_config_with_auto_default`. -/
def parse (m : ConfigModel κ α) : Parsed Unit :=
  match m with
  | .labelsConfig => (S.reader.parseLabels (S.value m)).toUnit
  | .other _ parseObj => parseObj (S.value m)

def reportInvalid (subkey : String) (error : PydanticError) : Except Exc ValidationError := do
  S.reader.closestSpanForLocation S.config (subkey :: error.loc)
  return ⟨"invalid config value at `" ++ ".".intercalate (subkey :: error.loc) ++ "`",
    error.msg ++ " (type=" ++ error.errorType ++ ")"⟩

def modelErrors (m : ConfigModel κ α) : Except Exc (List ValidationError) :=
  match S.parse m with
  | .model _ => .ok []
  | .invalid error errors => (error :: errors).mapM (S.reportInvalid m.subkey)
  | .raised e => .error e

def topLevelKeys : List String := S.config.config.filterMap fun e => S.reader.text e.1

def unknownKeys : List String := S.topLevelKeys.filter fun key => key ∉ S.models.map ConfigModel.subkey

def reportUnknown (key : String) : Except Exc ValidationError := do
  S.reader.closestSpanForLocation S.config [key]
  return ⟨"invalid top-level config key `" ++ key ++ "`",
    "make sure there is a config model registered for the `" ++ key ++ "` key"⟩

/-- `ConfigValidator.run`. -/
def configErrors : Except Exc (List ValidationError) := do
  let errors ← S.models.mapM S.modelErrors
  let unknown ← S.unknownKeys.mapM S.reportUnknown
  return errors.flatten ++ unknown

/-- The end of `_validate_label`, with the name of the label and the type of the entity. -/
def checkLabel (labels : List (String × LabelInfo)) (entityType labelName : String) :
    Except Exc (List ValidationError) :=
  match labels.lookup labelName with
  | none => do
    let extraHint := match S.closest labelName (labels.map Prod.fst) with
      | some closestName => ", did you mean `" ++ closestName ++ "`?"
      | none => ""
    S.reader.closestSpanForLocation S.config [labelsConfigSubkey]
    return [⟨"unknown label", "there is no `" ++ labelName ++ "` label in the config" ++ extraHint⟩]
  | some labelConfig =>
    if entityType ∈ labelConfig.validFor then .ok []
    else do
      S.reader.closestSpanForLocation S.config [labelsConfigSubkey, labelName, "valid_for"]
      return [⟨"label is not valid for this entity type",
        "entity has type `" ++ entityType ++ "`, this label is valid for " ++ quoted labelConfig.validFor⟩]

def validateLabel (entityTypes : Dict String String) (labels : List (String × LabelInfo)) (source : Source)
    (call : CallNode) : Except Exc (List ValidationError) :=
  match call.arguments.lookup "entity" with
  | none => .error ⟨.keyError, "entity"⟩
  | some entityArgNode => match entityArgNode.name? with
    | none => .ok []
    | some n => match entityTypes.get? n.identifier with
      | none => .error ⟨.keyError, n.identifier⟩
      | some entityType => do S.checkLabel labels entityType (← S.sources.textArgument source call "label")

/-- The body of the loop of `validate_source`. -/
def validateCall (entityTypes : Dict String String) (labels : List (String × LabelInfo)) (c : Source × CallNode) :
    Except Exc (List ValidationError) := do
  match ← S.sources.argumentsOf c.2 with
  | .labelArguments => S.validateLabel entityTypes labels c.1 c.2
  | _ => return []

/-- The constructor of `ValidateLabels`: the errors of the `ConfigValidator`, or what it reads. -/
def dependencies : Except Exc (List ValidationError × Dict String String) := do
  let entityTypes ← S.sources.featureNameToEntityType
  return (← S.configErrors, entityTypes)

/-- `context.run_validator(ValidateLabels)`. -/
def validateLabels : Outcome :=
  match S.dependencies with
  | .error e => .raised e
  | .ok (error :: errors, _) => .validatorFailed (error :: errors)
  | .ok ([], entityTypes) => match S.reader.parseLabels (S.value .labelsConfig) with
    | .model labels => match S.sources.program.calls.mapM (S.validateCall entityTypes labels) with
      | .error e => .raised e
      | .ok errors => if errors.flatten = [] then .passed else .validatorFailed errors.flatten
    | _ => .raised ⟨.keyError, "LabelsConfig"⟩

end Setting

/-! ## The mapping of entity types -/

namespace AcceptedSources

variable {A : AcceptedSources} {source : Source} {call : CallNode}

theorem callFine (hcall : (source, call) ∈ A.program.calls) : ∃ n udf, CallFine A.program source call n udf :=
  (validateCalls_fine A.noErrors A.notRaised _ hcall).1

theorem argumentsOf_eq (hcall : (source, call) ∈ A.program.calls) : A.argumentsOf call = .ok (A.classOf call.func) := by
  obtain ⟨instance_, hmapped⟩ := Option.isSome_iff_exists.mp (validateCalls_fine A.noErrors A.notRaised _ hcall).2
  have hmapping : (A.program.validate A.program.values).udfNodeMapping call.id = some instance_ := hmapped
  rw [argumentsOf, hmapping]

theorem textArgument_ok {n udf} (hfine : CallFine A.program source call n udf)
    {argument} (htext : RequiredText udf argument) (hname : argument ≠ extraArgsAttr) :
    ∃ text, A.textArgument source call argument = .ok text := by
  obtain ⟨node, text, hnode, hresolve⟩ := hfine.text htext.item htext.required hname
  exact ⟨text, by rw [textArgument, hnode, Option.map_some, hresolve]⟩

theorem label_arguments (hcall : (source, call) ∈ A.program.calls) (hclass : A.classOf call.func = .labelArguments) :
    (∃ node, call.arguments.lookup "entity" = some node) ∧
      ∃ text, A.textArgument source call "label" = .ok text := by
  obtain ⟨n, udf, hfine⟩ := callFine hcall
  rw [hfine.func] at hclass
  obtain ⟨hitem, hdefault⟩ := A.entityField _ _ hfine.registered hclass
  exact ⟨hfine.required hitem hdefault (by decide),
    textArgument_ok hfine (A.labelField _ _ hfine.registered hclass) (by decide)⟩

theorem entity_type (hcall : (source, call) ∈ A.program.calls) (hclass : A.classOf call.func = .entityArguments) :
    ∃ text, A.textArgument source call "type" = .ok text := by
  obtain ⟨n, udf, hfine⟩ := callFine hcall
  rw [hfine.func] at hclass
  exact textArgument_ok hfine (A.typeField _ _ hfine.registered hclass) (by decide)

def assignsEntity (a : Assign) : Bool :=
  match a.value with
  | .call _ func _ => !a.target.isLocal && A.classOf func = .entityArguments
  | _ => false

theorem mem_statements {statement} :
    (source, statement) ∈ A.statements ↔ source ∈ A.program.sources ∧ statement ∈ source.statements := by
  simp only [statements, List.mem_flatMap, List.mem_map, Prod.mk.injEq]
  constructor
  · rintro ⟨s, hs, x, hx, rfl, rfl⟩
    exact ⟨hs, hx⟩
  · rintro ⟨hs, hx⟩
    exact ⟨source, hs, statement, hx, rfl, rfl⟩

theorem mem_calls_of_assign {target id func arguments annotated}
    (h : (source, Statement.assign ⟨target, .call id func arguments, annotated⟩) ∈ A.statements) :
    (source, ⟨id, func, arguments⟩) ∈ A.program.calls := by
  obtain ⟨hs, hstatement⟩ := mem_statements.mp h
  have hcall : (⟨id, func, arguments⟩ : CallNode) ∈ source.calls :=
    List.mem_flatMap.mpr ⟨_, hstatement, by simp [Statement.calls, Expr.calls]⟩
  exact List.mem_flatMap.mpr ⟨source, hs, List.mem_map.mpr ⟨_, hcall, rfl⟩⟩

theorem entityFeature?_ok {statement} (h : (source, statement) ∈ A.statements) :
    ∃ feature, A.entityFeature? source statement = .ok feature ∧ ∀ name, feature.map Prod.fst = some name ↔
      ∃ a, statement = .assign a ∧ A.assignsEntity a = true ∧ a.target.identifier = name := by
  cases statement with
  | call c => exact ⟨none, rfl, fun name => by simp⟩
  | assign a =>
    obtain ⟨target, value, annotated⟩ := a
    cases value with
    | call id func arguments =>
      have hcall := mem_calls_of_assign h
      cases hlocal : target.isLocal with
      | true => exact ⟨none, by simp [entityFeature?, hlocal], fun name => by simp [assignsEntity, hlocal]⟩
      | false =>
        cases hclass : A.classOf func with
        | entityArguments =>
          obtain ⟨text, htext⟩ := entity_type hcall hclass
          refine ⟨some (target.identifier, text), ?_, fun name => by simp [assignsEntity, hlocal, hclass]⟩
          simp [entityFeature?, hlocal, argumentsOf_eq hcall, hclass, htext]
        | labelArguments | other =>
          refine ⟨none, ?_, fun name => by simp [assignsEntity, hclass]⟩
          simp [entityFeature?, hlocal, argumentsOf_eq hcall, hclass]
    | _ => exact ⟨none, rfl, fun name => by simp [assignsEntity]⟩

/-- A name that some source assigns the value of an entity call. -/
def EntityFeature (A : AcceptedSources) (name : String) : Prop :=
  ∃ source ∈ A.program.sources, ∃ a, .assign a ∈ source.statements ∧
    A.assignsEntity a = true ∧ a.target.identifier = name

theorem featureNameToEntityType_ok : ∃ entityTypes, A.featureNameToEntityType = .ok entityTypes ∧
    ∀ name, (entityTypes.get? name).isSome ↔ A.EntityFeature name := by
  obtain ⟨features, hfeatures⟩ := exists_mapM_ok_iff.mpr fun s (hs : s ∈ A.statements) =>
    (entityFeature?_ok hs).imp fun _ h => h.1
  refine ⟨Dict.ofList (features.filterMap id), by rw [featureNameToEntityType, hfeatures]; rfl, fun name => ?_⟩
  have hkeys : name ∈ (features.filterMap id).map Prod.fst ↔
      ∃ feature ∈ features, feature.map Prod.fst = some name := by
    simp only [List.mem_map, List.mem_filterMap, id, Option.map_eq_some_iff]
    constructor
    · rintro ⟨entry, ⟨feature, hfeature, hsome⟩, hname⟩
      exact ⟨feature, hfeature, entry, hsome, hname⟩
    · rintro ⟨feature, hfeature, entry, hsome, hname⟩
      exact ⟨entry, ⟨feature, hfeature, hsome⟩, hname⟩
  rw [Dict.isSome_get?_ofList, hkeys]
  constructor
  · rintro ⟨feature, hfeature, hname⟩
    obtain ⟨⟨source, statement⟩, hs, hstep⟩ := (mem_of_mapM_ok hfeatures).mp hfeature
    obtain ⟨feature', hstep', hadds⟩ := entityFeature?_ok hs
    cases hstep.symm.trans hstep'
    obtain ⟨a, rfl, hentity, htarget⟩ := (hadds name).mp hname
    obtain ⟨hsource, hstatement⟩ := mem_statements.mp hs
    exact ⟨source, hsource, a, hstatement, hentity, htarget⟩
  · rintro ⟨source, hsource, a, hstatement, hentity, htarget⟩
    have hs := mem_statements.mpr ⟨hsource, hstatement⟩
    obtain ⟨feature, hstep, hadds⟩ := entityFeature?_ok hs
    exact ⟨feature, (mem_of_mapM_ok hfeatures).mpr ⟨_, hs, hstep⟩, (hadds name).mpr ⟨a, rfl, hentity, htarget⟩⟩

end AcceptedSources

/-! ## Reading the configuration -/

section

variable {r : Reader κ α}

/-- Entries that `cls(**obj)` can be called with. -/
def Reader.Keywords (r : Reader κ α) (entries : List (κ × Tree κ α)) : Prop :=
  ∀ e ∈ entries, ∃ name, r.text e.1 = some name ∧ name ≠ "__pydantic_self__"

/-- The entries of labels are read, apart from those that were in use once. -/
def Reader.LabelInfos (r : Reader κ α) (entries : List (κ × Tree κ α)) : Prop :=
  ∀ e ∈ entries, r.text e.1 ≠ some "positive" → r.text e.1 ≠ some "negative" → ∃ info, r.labelInfo e.2 = .ok info

/-- The model does not raise anything but a `PydanticValidationError`. -/
def ConfigModel.Readable (r : Reader κ α) (value : Option (Tree κ α)) : ConfigModel κ α → Prop
  | labelsConfig => ∀ t entries, value = some t → r.asDict t = some entries → r.Keywords entries
  | other _ parseObj => ∀ e, parseObj value ≠ .raised e

def ConfigModel.Accepted (r : Reader κ α) (value : Option (Tree κ α)) : ConfigModel κ α → Prop
  | labelsConfig => ∀ t, value = some t → ∃ entries, r.asDict t = some entries ∧ r.Keywords entries ∧
      r.LabelInfos entries
  | other _ parseObj => parseObj value = .model ()

theorem keyword_eq_ok_iff {e x} :
    r.keyword e = .ok x ↔ r.text e.1 = some x.1 ∧ x.1 ≠ "__pydantic_self__" ∧ x.2 = e.2 := by
  obtain ⟨name, t⟩ := x
  unfold Reader.keyword
  cases htext : r.text e.1 with
  | none => simp
  | some name' =>
    dsimp only
    split
    · next hself => simp +contextual [hself, eq_comm]
    · next hself =>
      simp only [Except.ok.injEq, Prod.mk.injEq, Option.some.injEq]
      constructor
      · rintro ⟨rfl, rfl⟩
        exact ⟨rfl, hself, rfl⟩
      · rintro ⟨rfl, -, rfl⟩
        exact ⟨rfl, rfl⟩

variable {entries : List (κ × Tree κ α)}

theorem exists_keywords_iff : (∃ values, entries.mapM r.keyword = .ok values) ↔ r.Keywords entries := by
  rw [exists_mapM_ok_iff]
  refine forall₂_congr fun e _ => ?_
  simp only [keyword_eq_ok_iff]
  constructor
  · rintro ⟨x, htext, hself, -⟩
    exact ⟨x.1, htext, hself⟩
  · rintro ⟨name, htext, hself⟩
    exact ⟨(name, e.2), htext, hself, rfl⟩

theorem labelErrors_eq_nil_iff {e} : r.labelErrors e = [] ↔ ∃ info, r.labelInfo e.2 = .ok info := by
  unfold Reader.labelErrors
  cases r.labelInfo e.2 with
  | ok info => simp
  | error x => simp

theorem exists_labelsOf_iff {values} :
    (∃ labels, r.labelsOf values = .model labels) ↔ ∀ e ∈ values, ∃ info, r.labelInfo e.2 = .ok info := by
  have hnil : values.flatMap r.labelErrors = [] ↔ ∀ e ∈ values, ∃ info, r.labelInfo e.2 = .ok info := by
    rw [List.flatMap_eq_nil_iff]
    exact forall₂_congr fun e _ => labelErrors_eq_nil_iff
  rw [← hnil, Reader.labelsOf]
  cases values.flatMap r.labelErrors <;> simp

theorem labelsOf_ne_raised (values : List (String × Tree κ α)) (e : Exc) : r.labelsOf values ≠ .raised e := by
  unfold Reader.labelsOf
  split <;> exact fun h => by cases h

theorem rootValidator_labelInfos {values} (h : entries.mapM r.keyword = .ok values) :
    (∀ e ∈ Reader.rootValidator values, ∃ info, r.labelInfo e.2 = .ok info) ↔ r.LabelInfos entries := by
  simp only [Reader.rootValidator, List.mem_filter, decide_eq_true_eq, mem_of_mapM_ok h, keyword_eq_ok_iff]
  constructor
  · intro hall e he hpositive hnegative
    obtain ⟨name, htext, hself⟩ := exists_keywords_iff.mp ⟨values, h⟩ e he
    rw [htext] at hpositive hnegative
    exact hall (name, e.2) ⟨⟨e, he, htext, hself, rfl⟩, fun h => hpositive (congrArg some h),
      fun h => hnegative (congrArg some h)⟩
  · rintro hall ⟨name, t⟩ ⟨⟨e, he, htext, -, rfl⟩, hpositive, hnegative⟩
    exact hall e he (by rw [htext]; simpa using hpositive) (by rw [htext]; simpa using hnegative)

theorem parseLabels_ne_raised_of_dict {t} (hdict : r.asDict t = some entries) :
    (∀ e, r.parseLabels (some t) ≠ .raised e) ↔ r.Keywords entries := by
  rw [← exists_keywords_iff]
  simp only [Reader.parseLabels, hdict]
  cases entries.mapM r.keyword with
  | error e => simp
  | ok values => simp [labelsOf_ne_raised]

theorem exists_parseLabels_of_dict {t} (hdict : r.asDict t = some entries) :
    (∃ labels, r.parseLabels (some t) = .model labels) ↔ r.Keywords entries ∧ r.LabelInfos entries := by
  rw [← exists_keywords_iff]
  simp only [Reader.parseLabels, hdict]
  cases hvalues : entries.mapM r.keyword with
  | error e => simp
  | ok values => simpa using exists_labelsOf_iff.trans (rootValidator_labelInfos hvalues)

theorem parseLabels_ne_raised_iff {value} :
    (∀ e, r.parseLabels value ≠ .raised e) ↔ ConfigModel.labelsConfig.Readable r value := by
  cases value with
  | none => exact ⟨fun _ _ _ ht => (by cases ht), fun _ _ he => (by cases he)⟩
  | some t =>
    constructor
    · intro hraised t' entries ht hdict
      cases ht
      exact (parseLabels_ne_raised_of_dict hdict).mp hraised
    · intro hreadable
      cases hdict : r.asDict t with
      | none => simp [Reader.parseLabels, hdict]
      | some entries => exact (parseLabels_ne_raised_of_dict hdict).mpr (hreadable t entries rfl hdict)

theorem exists_parseLabels_iff {value} :
    (∃ labels, r.parseLabels value = .model labels) ↔ ConfigModel.labelsConfig.Accepted r value := by
  cases value with
  | none => exact ⟨fun _ t ht => (by cases ht), fun _ => ⟨[], rfl⟩⟩
  | some t =>
    constructor
    · intro hlabels t' ht
      cases ht
      cases hdict : r.asDict t with
      | none => simp [Reader.parseLabels, hdict] at hlabels
      | some entries => exact ⟨entries, rfl, (exists_parseLabels_of_dict hdict).mp hlabels⟩
    · intro haccepted
      obtain ⟨entries, hdict, hinfos⟩ := haccepted t rfl
      exact (exists_parseLabels_of_dict hdict).mpr hinfos

end

namespace Setting

variable [DecidableEq κ] {S : Setting κ α}

variable {m : ConfigModel κ α}

theorem parse_ne_raised_iff : (∀ e, S.parse m ≠ .raised e) ↔ m.Readable S.reader (S.value m) := by
  cases m with
  | other subkey parseObj => exact Iff.rfl
  | labelsConfig =>
    rw [← parseLabels_ne_raised_iff]
    exact forall_congr' fun e => not_congr Parsed.toUnit_eq_raised_iff

theorem parse_eq_model_iff : S.parse m = .model () ↔ m.Accepted S.reader (S.value m) := by
  cases m with
  | other subkey parseObj => exact Iff.rfl
  | labelsConfig =>
    rw [← exists_parseLabels_iff]
    exact Parsed.toUnit_eq_model_iff

theorem config_nil (hsource : S.config.source = none) : S.config.config = [] := by
  obtain ⟨yaml, files, hnew⟩ := S.built
  rcases (SourcesConfig.new_cases hnew).2 with ⟨-, hnil, -⟩ | ⟨-, -, hsome⟩
  · exact hnil
  · cases hsource.symm.trans hsome

theorem exists_span_iff {location} :
    (∃ u, S.reader.closestSpanForLocation S.config location = .ok u) ↔ S.config.source ≠ none := by
  unfold Reader.closestSpanForLocation
  cases hsource : S.config.source with
  | some source => cases location.head?.bind (S.reader.get? S.config) <;> simp
  | none =>
    have hget : location.head?.bind (S.reader.get? S.config) = none := by
      cases location <;> simp [Reader.get?, config_nil hsource]
    simp [hget]

theorem exists_report_iff {location x} :
    (∃ y, (do S.reader.closestSpanForLocation S.config location; return x : Except Exc β) = .ok y) ↔
      S.config.source ≠ none := by
  rw [← exists_span_iff]
  simp only [bind_eq_ok]
  exact ⟨fun ⟨_, u, hu, _⟩ => ⟨u, hu⟩, fun ⟨u, hu⟩ => ⟨x, u, hu, rfl⟩⟩

theorem exists_modelErrors_iff : (∃ es, S.modelErrors m = .ok es) ↔
    m.Readable S.reader (S.value m) ∧ (S.config.source = none → m.Accepted S.reader (S.value m)) := by
  rw [← parse_ne_raised_iff, ← parse_eq_model_iff, modelErrors]
  cases S.parse m with
  | model value => simp
  | raised e => simp
  | invalid error errors =>
    rw [exists_mapM_ok_iff]
    simp only [reportInvalid, exists_report_iff]
    constructor
    · intro h
      have hsource := h error List.mem_cons_self
      exact ⟨fun _ he => (by cases he), fun hnone => absurd hnone hsource⟩
    · rintro ⟨-, h⟩ _ - hnone
      cases h hnone

theorem modelErrors_eq_nil_iff : S.modelErrors m = .ok [] ↔ m.Accepted S.reader (S.value m) := by
  rw [← parse_eq_model_iff, modelErrors]
  cases S.parse m with
  | model value => simp
  | raised e => simp
  | invalid error errors =>
    simp only [reduceCtorEq, iff_false]
    intro h
    obtain ⟨y, hy⟩ := Lib.forall_of_mapM_ok h error List.mem_cons_self
    exact absurd ((mem_of_mapM_ok h).mpr ⟨error, List.mem_cons_self, hy⟩) List.not_mem_nil

theorem unknownKeys_nil (hsource : S.config.source = none) : S.unknownKeys = [] := by
  simp [unknownKeys, topLevelKeys, config_nil hsource]

/-- **The configuration is checked without an exception** exactly if its models are read without one, and
accept their values if it has no source. -/
theorem exists_configErrors_iff : (∃ es, S.configErrors = .ok es) ↔ ∀ m ∈ S.models,
    m.Readable S.reader (S.value m) ∧ (S.config.source = none → m.Accepted S.reader (S.value m)) := by
  have hmodels : (∃ es, S.models.mapM S.modelErrors = .ok es) ↔ ∀ m ∈ S.models,
      m.Readable S.reader (S.value m) ∧ (S.config.source = none → m.Accepted S.reader (S.value m)) :=
    exists_mapM_ok_iff.trans (forall₂_congr fun _ _ => exists_modelErrors_iff)
  have hunknown : ∃ es, S.unknownKeys.mapM S.reportUnknown = .ok es := by
    refine exists_mapM_ok_iff.mpr fun key hkey => exists_report_iff.mpr fun hsource => ?_
    rw [unknownKeys_nil hsource] at hkey
    cases hkey
  rw [← hmodels]
  simp only [configErrors, bind_eq_ok]
  constructor
  · rintro ⟨-, es, hes, -⟩
    exact ⟨es, hes⟩
  · rintro ⟨es, hes⟩
    obtain ⟨unknown, hok⟩ := hunknown
    exact ⟨_, es, hes, unknown, hok, rfl⟩

/-- The configuration is valid: its models accept their values, and every top-level key has a model. -/
def ConfigAccepted (S : Setting κ α) : Prop :=
  (∀ m ∈ S.models, m.Accepted S.reader (S.value m)) ∧ ∀ key ∈ S.topLevelKeys, key ∈ S.models.map ConfigModel.subkey

theorem configErrors_eq_nil_iff : S.configErrors = .ok [] ↔ S.ConfigAccepted := by
  have hunknown : S.unknownKeys = [] ↔ ∀ key ∈ S.topLevelKeys, key ∈ S.models.map ConfigModel.subkey := by
    simp [unknownKeys, List.filter_eq_nil_iff]
  rw [ConfigAccepted, ← hunknown]
  simp only [configErrors, bind_eq_ok]
  constructor
  · rintro ⟨es, hes, unknown, hunknown, heq⟩
    obtain ⟨hflat, hnil⟩ := List.append_eq_nil_iff.mp (Except.ok.inj heq)
    refine ⟨fun m hm => modelErrors_eq_nil_iff.mp ?_, ?_⟩
    · obtain ⟨errors, herrors⟩ := Lib.forall_of_mapM_ok hes m hm
      rw [herrors, List.flatten_eq_nil_iff.mp hflat errors ((mem_of_mapM_ok hes).mpr ⟨m, hm, herrors⟩)]
    · refine List.eq_nil_iff_forall_not_mem.mpr fun key hkey => ?_
      obtain ⟨error, herror⟩ := Lib.forall_of_mapM_ok hunknown key hkey
      exact absurd ((mem_of_mapM_ok hunknown).mpr ⟨key, hkey, herror⟩) (hnil ▸ List.not_mem_nil)
  · rintro ⟨hmodels, hnil⟩
    refine ⟨_, Lib.mapM_ok fun m hm => modelErrors_eq_nil_iff.mpr (hmodels m hm), [], by rw [hnil]; rfl, ?_⟩
    simp [pure, Except.pure]

/-! ## The calls of label UDFs -/

/-- The calls with the arguments of a label, and a name for their entity. -/
def LabelCall (S : Setting κ α) (call : CallNode) (n : Name) : Prop :=
  S.sources.classOf call.func = .labelArguments ∧ call.arguments.lookup "entity" = some (.name n)

theorem exists_checkLabel (labels : List (String × LabelInfo)) (entityType labelName : String)
    (hsource : S.config.source ≠ none) : ∃ es, S.checkLabel labels entityType labelName = .ok es := by
  unfold checkLabel
  cases labels.lookup labelName with
  | none => exact exists_report_iff.mpr hsource
  | some labelConfig =>
    dsimp only
    split
    · exact ⟨[], rfl⟩
    · exact exists_report_iff.mpr hsource

theorem exists_checkLabel_nil_iff (entityType labelName : String) :
    (∃ es, S.checkLabel [] entityType labelName = .ok es) ↔ S.config.source ≠ none := exists_report_iff

theorem parseLabels_nil (hsource : S.config.source = none) {labels}
    (h : S.reader.parseLabels (S.value .labelsConfig) = .model labels) : labels = [] := by
  have hvalue : S.value .labelsConfig = none := by simp [value, Reader.get?, config_nil hsource]
  rw [hvalue] at h
  cases h
  rfl

section

variable {entityTypes : Dict String String} {labels : List (String × LabelInfo)} {source : Source} {call : CallNode}

/-- A call is checked without an exception exactly if it is no label call, or its entity is a feature with a type
and the configuration has a source. -/
theorem exists_validateCall_iff (hcall : (source, call) ∈ S.sources.program.calls)
    (htypes : ∀ name, (entityTypes.get? name).isSome ↔ S.sources.EntityFeature name)
    (hlabels : S.config.source = none → labels = []) :
    (∃ es, S.validateCall entityTypes labels (source, call) = .ok es) ↔
      ∀ n, S.LabelCall call n → S.sources.EntityFeature n.identifier ∧ S.config.source ≠ none := by
  have hstep : S.validateCall entityTypes labels (source, call) = match S.sources.classOf call.func with
      | .labelArguments => S.validateLabel entityTypes labels source call
      | _ => .ok [] := by
    rw [validateCall, AcceptedSources.argumentsOf_eq hcall]
    rfl
  rw [hstep]
  cases hclass : S.sources.classOf call.func with
  | entityArguments | other => simp [LabelCall, hclass]
  | labelArguments =>
    obtain ⟨⟨node, hnode⟩, labelName, hlabelName⟩ := AcceptedSources.label_arguments hcall hclass
    have hcalls : ∀ n, S.LabelCall call n ↔ node = .name n := fun n => by simp [LabelCall, hclass, hnode]
    simp only [hcalls, validateLabel, hnode]
    cases node with
    | name n =>
      simp only [Expr.name?, Expr.name.injEq, forall_eq']
      rw [← htypes]
      cases htype : entityTypes.get? n.identifier with
      | none => simp
      | some entityType =>
        simp only [hlabelName, Option.isSome_some, true_and]
        change (∃ es, S.checkLabel labels entityType labelName = .ok es) ↔ S.config.source ≠ none
        refine ⟨fun hcheck hnone => ?_, exists_checkLabel labels entityType labelName⟩
        rw [hlabels hnone] at hcheck
        exact (exists_checkLabel_nil_iff entityType labelName).mp hcheck hnone
    | _ => simp [Expr.name?]

end

/-! ## The main result -/

/-- The validator raises exactly if a validator it depends on does, or if a call does once they are done. -/
theorem validateLabels_ne_raised_iff {entityTypes} (htypes : S.sources.featureNameToEntityType = .ok entityTypes) :
    (∀ e, S.validateLabels ≠ .raised e) ↔ (∃ es, S.configErrors = .ok es) ∧
      (S.ConfigAccepted → ∃ labels, S.reader.parseLabels (S.value .labelsConfig) = .model labels ∧
        ∃ es, S.sources.program.calls.mapM (S.validateCall entityTypes labels) = .ok es) := by
  have hdependencies : S.dependencies = S.configErrors.map fun es => (es, entityTypes) := by
    rw [dependencies, htypes]
    cases S.configErrors <;> rfl
  rw [← configErrors_eq_nil_iff, validateLabels, hdependencies]
  cases S.configErrors with
  | error e => simp [Except.map]
  | ok es =>
    cases es with
    | cons error errors => simp [Except.map]
    | nil =>
      simp only [Except.map]
      cases S.reader.parseLabels (S.value .labelsConfig) with
      | invalid error errors => simp
      | raised e => simp
      | model labels =>
        cases hcalls : S.sources.program.calls.mapM (S.validateCall entityTypes labels) with
        | error e => simp [hcalls]
        | ok errors =>
          refine ⟨fun _ => ⟨⟨[], rfl⟩, fun _ => ⟨labels, rfl, errors, hcalls⟩⟩, fun _ e => ?_⟩
          dsimp only
          rw [hcalls]
          dsimp only
          split <;> exact fun h => by cases h

/-- **When the mistakes in labels are reported.** `ValidateLabels` ends without
an exception other than `ValidatorFailed` exactly if no model of the
configuration raises another exception, a configuration without a source is
accepted by its models, and, in case the configuration is accepted, each call of
a label UDF with a name for its entity has one that is assigned an entity, and
the configuration has a source. -/
theorem validateLabels_reports_iff (S : Setting κ α) :
    (∀ e, S.validateLabels ≠ .raised e) ↔
      (∀ m ∈ S.models, m.Readable S.reader (S.value m) ∧
        (S.config.source = none → m.Accepted S.reader (S.value m))) ∧
      (S.ConfigAccepted → ∀ c ∈ S.sources.program.calls, ∀ n, S.LabelCall c.2 n →
        S.sources.EntityFeature n.identifier ∧ S.config.source ≠ none) := by
  obtain ⟨entityTypes, hentityTypes, htypes⟩ := S.sources.featureNameToEntityType_ok
  rw [validateLabels_ne_raised_iff hentityTypes, exists_configErrors_iff]
  refine and_congr_right fun _ => forall_congr' fun haccepted => ?_
  obtain ⟨labels, hlabels⟩ := exists_parseLabels_iff.mpr (haccepted.1 _ S.labelsConfig_mem)
  have hcalls : (∃ es, S.sources.program.calls.mapM (S.validateCall entityTypes labels) = .ok es) ↔
      ∀ c ∈ S.sources.program.calls, ∀ n, S.LabelCall c.2 n →
        S.sources.EntityFeature n.identifier ∧ S.config.source ≠ none :=
    exists_mapM_ok_iff.trans (forall₂_congr fun c hc =>
      exists_validateCall_iff hc htypes fun hsource => parseLabels_nil hsource hlabels)
  rw [← hcalls]
  constructor
  · rintro ⟨labels', hlabels', hok⟩
    cases hlabels.symm.trans hlabels'
    exact hok
  · intro hok
    exact ⟨labels, hlabels, hok⟩

end Setting

/-! ## A rule with a label -/

/-- `LabelAdd` and `Entity`, with the arguments they have. -/
def labelRegistry (f : String) : Option UdfClass :=
  if f = "LabelAdd" then some
    ⟨[("entity", .runtime), ("label", .constExpr (.scalar .str)), ("delay_action_by", .runtime),
      ("apply_if", .runtime), ("expires_after", .runtime)], fun argument => argument ≠ "entity" ∧ argument ≠ "label",
      fun _ _ => ([], .ok none)⟩
  else if f = "Entity" then some
    ⟨[("type", .constExpr (.scalar .str)), ("id", .runtime)], fun _ => false, fun _ _ => ([], .ok none)⟩
  else none

def labelArgumentsType (f : String) : ArgumentsClass :=
  if f = "LabelAdd" then .labelArguments else if f = "Entity" then .entityArguments else .other

/-- `LabelAdd(entity=User, label='spam')`. -/
def addSpam : Statement :=
  .call ⟨0, .name ⟨"LabelAdd", "main.sml"⟩, [("entity", .name ⟨"User", "main.sml"⟩), ("label", .string "spam")]⟩

/-- `User = Entity(type='User', id='1')`. -/
def assignUser : Statement :=
  .assign ⟨⟨"User", "main.sml"⟩,
    .call 1 (.name ⟨"Entity", "main.sml"⟩) [("type", .string "User"), ("id", .string "1")], none⟩

def labelProgram (statements : List Statement) (h : ((⟨"main.sml", statements⟩ : Source).numbers).Nodup) :
    Program where
  registry := labelRegistry
  sources := [⟨"main.sml", statements⟩]
  entryPoint := ⟨"main.sml", statements⟩
  isQuery := false
  otherValidators := true
  nodeText := Expr.className
  values := fun _ => .int 0
  entryPoint_mem := List.mem_singleton_self _
  numbers_nodup := by simpa using h

theorem labelRegistry_fields (f : String) (udf : UdfClass) (hudf : labelRegistry f = some udf) :
    (labelArgumentsType f = .labelArguments →
      (udf.items.lookup "entity" = some .runtime ∧ udf.kwargHasDefault "entity" = false) ∧ RequiredText udf "label") ∧
    (labelArgumentsType f = .entityArguments → RequiredText udf "type") := by
  unfold labelRegistry at hudf
  split at hudf
  · next hf =>
    subst hf
    cases hudf
    exact ⟨fun _ => ⟨⟨rfl, rfl⟩, rfl, rfl⟩, fun h => absurd h (by decide)⟩
  · split at hudf
    · next hf =>
      subst hf
      cases hudf
      exact ⟨fun h => absurd h (by decide), fun _ => ⟨rfl, rfl⟩⟩
    · cases hudf

def labelSources (program : Program) (hregistry : program.registry = labelRegistry)
    (noErrors : (program.validate program.values).errors = [])
    (notRaised : (program.validate program.values).raised = none) : AcceptedSources where
  program := program
  argumentsType := labelArgumentsType
  entityField f udf hudf h := ((labelRegistry_fields f udf (hregistry ▸ hudf)).1 h).1
  labelField f udf hudf h := ((labelRegistry_fields f udf (hregistry ▸ hudf)).1 h).2
  typeField f udf hudf := (labelRegistry_fields f udf (hregistry ▸ hudf)).2
  noErrors := noErrors
  notRaised := notRaised

/-- Configurations with the one label `spam`, which is valid for users. -/
def spamReader : Reader String Unit := ⟨some, fun _ => "dict", fun _ => none, fun _ => .ok ⟨["User"]⟩⟩

def spamSetting (A : AcceptedSources) (config : SourcesConfig String Unit)
    (built : ∃ (yaml : Yaml String Unit) (files : List ConfigMerge.Source),
      SourcesConfig.new yaml files = .ok config) :
    Setting String Unit :=
  ⟨A, config, spamReader, [.labelsConfig], fun _ _ => none, built, List.mem_singleton_self _⟩

def spamYaml : Yaml String Unit where
  load _ := .ok (.dict [("labels", .dict [("spam", .dict [])])])
  isText _ := true
  dump _ := "labels:\n    spam: \x7b\x7d\n"
  reprKey := id
  reprSource := ConfigMerge.Source.path
  deepmerge := .replacing

/-- Two rules that end in an exception. `LabelAdd(entity=User, label='spam')` with a
`User` that is nowhere assigned: the mapping of entity types has no such key. And the
same rule with `User = Entity(type='User', id='1')`, with an empty configuration: the
label is unknown, and the error would point to a source that is not there. -/
theorem label_mistakes_raise :
    let undefined := labelProgram [addSpam] (by decide)
    let defined := labelProgram [assignUser, addSpam] (by decide)
    let file : ConfigMerge.Source := ⟨"config.yaml", "labels: ..."⟩
    let config : SourcesConfig String Unit := ⟨[file], [("labels", .dict [("spam", .dict [])])],
      some ⟨"config.yaml", "labels:\n    spam: \x7b\x7d\n"⟩⟩
    let missing : SourcesConfig String Unit := ⟨[⟨"config.yaml", ""⟩], [], none⟩
    (spamSetting (labelSources undefined rfl rfl rfl) config ⟨spamYaml, [file], rfl⟩).validateLabels =
        .raised ⟨.keyError, "User"⟩ ∧
      (spamSetting (labelSources defined rfl rfl rfl) missing ⟨spamYaml, [⟨"config.yaml", ""⟩], rfl⟩).validateLabels =
        .raised ⟨.other, "'SourcesConfig' object has no attribute '_source'"⟩ :=
  ⟨rfl, rfl⟩

end Osprey.ValidateLabels
