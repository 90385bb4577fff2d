/-
The queries of the event endpoints (`lib/druid.py`) and the stored events
(`stored_execution_result.py`).

Druid is any function of the rows that the filter and the interval of a
query select: it evaluates the filter it is given exactly and aggregates the
rows as it likes. A storage backend is any function of the records it is
asked for.
-/
import Mathlib.Data.List.ReduceOption
import Mathlib.Data.Nat.Log
import Osprey.Engine.DruidTranslator
import Osprey.Lib.Dict
import Osprey.Worker.Pagination
import Osprey.UiApi.DataCensor

namespace Osprey.UiApi

open Lib Druid DataCensor

/-! ## Events -/

/-- What the storage backend holds of an event; the JSON texts are read already, an absent or empty text is
`none`. -/
structure StoredRecord where
  extractedFeatures : Option JsonObject
  errorTraces : Option Json
  timestamp : Time
  actionData : Option JsonObject

structure Event where
  actionName : String
  /-- `__time`, in milliseconds since the epoch. -/
  time : Int
  columns : Row
  record : StoredRecord

def Event.instant (e : Event) : Time := e.time * 1000

def Event.row (e : Event) : Row := fun dimension =>
  if dimension = "ActionName" then .str e.actionName else e.columns dimension

abbrev EventStore := Int → Option Event

structure StoredExecutionResult where
  id : Int
  extractedFeatures : JsonObject
  errorTraces : Json
  timestamp : Time
  actionData : Option JsonObject

/-- `_censor_data` of `parse_from_query_result`. -/
def censorField (data : Option JsonObject) (censors : List DataCensorAbility) (actionName : String) :
    Except Exc (Option JsonObject) :=
  match data with
  | none => .ok none
  | some data =>
    if censors.isEmpty then .ok (some (censorAllLeafs data []))
    else (censors.foldlM (fun data (censor : DataCensorAbility) => censor.censorData data actionName) data).map some

/-- The action name that is read from the features. One that is no text is equal to no name of an item, as the
empty one is. -/
def parseActionName (features : JsonObject) : Option String :=
  match features.lookup "ActionName" with
  | none => none
  | some (.leaf .null) => none
  | some (.leaf (.str name)) => some name
  | some _ => some ""

def parseFromQueryResult (censors : List (Option DataCensorAbility)) (id : Int) (result : StoredRecord) :
    Except Exc StoredExecutionResult := do
  match result.extractedFeatures.bind parseActionName with
  | none => .error ⟨.assertionError, "Action name could not be parsed from query result"⟩
  | some actionName =>
    let ofClass cls := censors.reduceOption.filter (·.cls = cls)
    let actionData ← censorField result.actionData (ofClass .canViewActionData) actionName
    let features ← censorField result.extractedFeatures (ofClass .canViewFeatureData) actionName
    match features with
    | none => .error ⟨.assertionError, ""⟩
    | some features => .ok ⟨id, features, result.errorTraces.getD (.list []), result.timestamp, actionData⟩

/-- A backend of the storage service: `select_many` returns what it holds under the ids, in an order of its own. -/
structure StorageBackend where
  selectMany : List Int → EventStore → List (Int × StoredRecord)
  selectMany_congr : ∀ ids s t, (∀ id ∈ ids, s id = t id) → selectMany ids s = selectMany ids t

def getOneWithActionData (censors : List (Option DataCensorAbility)) (store : EventStore) (id : Int) :
    Except Exc (Option StoredExecutionResult) :=
  match store id with
  | none => .ok none
  | some event => (parseFromQueryResult censors id event.record).map some

/-- `get_many`: the latest first. -/
def getMany (backend : StorageBackend) (censors : List (Option DataCensorAbility)) (store : EventStore)
    (actionIds : List Int) : Except Exc (List StoredExecutionResult) := do
  let results ← (backend.selectMany actionIds store).mapM fun r => parseFromQueryResult censors r.1 r.2
  return results.mergeSort fun a b => decide (b.timestamp ≤ a.timestamp)

/-! ## Druid -/

structure Env where
  /-- `parse_query_to_validated_ast`, then `DruidQueryTransformer.transform`. -/
  transformQuery : String → Except Exc Filter
  /-- `get_feature_name_to_entity_type_mapping`. -/
  featureNameToEntityType : List (String × String)
  /-- Druid's reading of the filters that are not comparisons with a literal. -/
  otherFilters : Row → Filter → Bool
  now : Time
  maxHistoricalQueryWindowDays : Int := 90
  /-- The order in which a set is iterated over. -/
  setOrder : List (Option String) → List (Option String)
  setOrder_perm : ∀ keys, (setOrder keys).Perm keys

/-- A dimension, as it is or rounded down to a number of decimal places. -/
inductive DimensionParameter
  | plain (dimension : String)
  | rounded (dimension : String) (inversePrecision precisionLength : Nat)
  deriving DecidableEq, Repr

inductive Aggregation
  | count
  | filteredCount (dimension value : String)
  deriving DecidableEq, Repr

/-- A row of a topN answer that `DimensionData` admits: the value of the dimension and the count. -/
structure DimensionData where
  key : Option String
  count : Int
  deriving DecidableEq, Repr

/-- One element of a topN answer. A timestamp or a row that the models refuse is `none`. -/
structure RawPeriod where
  timestamp : Option Time
  result : List (Option DimensionData)

/-- Druid, which sees the rows a query selects and no others. -/
structure DruidEngine where
  topN : Time × Time → DimensionParameter → Int → EventStore → List RawPeriod
  timeseries : Time × Time → String → List (String × Aggregation) → EventStore → Json
  groupBy : Time × Time → String → EventStore → List (Option Int)
  scan : Time × Time → Pagination.Ordering → Nat → EventStore → List (List Pagination.Event)
  /-- A scan returns columns of the rows. -/
  scan_mem : ∀ interval order limit rows, ∀ r ∈ (scan interval order limit rows).flatten,
    (rows r.actionId).isSome = true

/-! ## Filters -/

structure EntityFilter where
  id : String
  type : String
  featureFilters : Option (List String)
  deriving DecidableEq, Repr

/-- `EntityFilter.wrap_filter`. No feature filters and an empty list of them are both falsy. -/
def EntityFilter.wrapFilter (env : Env) (entity : EntityFilter) (queryFilter : Option Filter) : Filter :=
  let filters := env.featureNameToEntityType.filter fun (featureName, entityType) =>
    entityType == entity.type &&
      ((entity.featureFilters.getD []).isEmpty || (entity.featureFilters.getD []).contains featureName)
  let entityFilters := Filter.boolean .or (filters.map fun (featureName, _) => .selector featureName (.str entity.id))
  match queryFilter with
  | some queryFilter => .boolean .and [queryFilter, entityFilters]
  | none => entityFilters

def getQueryFilter (a : Ability String) : Except Exc (Option Filter) :=
  let selectors (items : List String) := items.map fun name => Filter.selector "ActionName" (.str name)
  if a.allowAll == some true then .ok none
  else match a.allowSpecific, a.allowAllExcept with
    | some (i :: items), _ => .ok (some (.boolean .or (selectors (i :: items))))
    | _, some (i :: items) => .ok (some (.not (.boolean .or (selectors (i :: items)))))
    | _, _ => .error ⟨.assertionError, "Validation failed to assert that this ability had a present 'allow' variable"⟩

structure BaseDruidQuery where
  start : Time
  end_ : Time
  queryFilter : String
  entity : Option EntityFilter
  /-- What `str` prints of the request. -/
  text : String

def parseQueryFilter (env : Env) (queryFilter : String) : Except Exc (Option Filter) :=
  if queryFilter = "" then .ok none else (env.transformQuery queryFilter).map some

/-- The filter of the user's query and of the entity. -/
def BaseDruidQuery.userFilter (env : Env) (q : BaseDruidQuery) (transformed : Option Filter) : Option Filter :=
  match q.entity with
  | some entity => some (entity.wrapFilter env transformed)
  | none => transformed

/-- The filter a query has, together with those of the abilities. -/
def withAbilityFilters (filter : Option Filter) (abilityFilters : List Filter) : Option Filter :=
  if abilityFilters.isEmpty then filter
  else match filter with
    | some userQueryFilter => some (.boolean .and [userQueryFilter, .boolean .and abilityFilters])
    | none => some (.boolean .and abilityFilters)

def selects (env : Env) (filter : Option Filter) (start end_ : Time) (e : Event) : Bool :=
  decide (start ≤ e.instant ∧ e.instant < end_) && filter.all (·.holds e.row (env.otherFilters e.row))

/-- `_query_with_filter`, up to the rows that Druid aggregates. -/
def BaseDruidQuery.queryWithFilter (env : Env) (q : BaseDruidQuery) (start end_ : Time)
    (abilities : List (Option (Ability String))) (store : EventStore) : Except Exc EventStore := do
  let transformed ← parseQueryFilter env q.queryFilter
  if start > end_ then .error ⟨.valueError, "Start date must be before end date"⟩
  else
    let abilityFilters ← (abilities.reduceOption).mapM getQueryFilter
    let filter := withAbilityFilters (q.userFilter env transformed) abilityFilters.reduceOption
    return fun id => (store id).filter (selects env filter start end_)

/-! ## The query classes -/

structure TimeseriesDruidQuery extends BaseDruidQuery where
  granularity : String
  aggregationDimensions : Option (List String) := none

def TimeseriesDruidQuery.aggregations (q : TimeseriesDruidQuery) : List (String × Aggregation) :=
  match q.aggregationDimensions, q.entity with
  | some (d :: dimensions), some entity => (d :: dimensions).map fun d => (d, .filteredCount d entity.id)
  | _, _ => [("count", .count)]

def TimeseriesDruidQuery.execute (env : Env) (druid : DruidEngine) (q : TimeseriesDruidQuery) (store : EventStore) :
    Except Exc Json := do
  let rows ← q.queryWithFilter env q.start q.end_ [] store
  return druid.timeseries (q.start, q.end_) q.granularity q.aggregations rows

structure GroupByApproximateCountDruidQuery extends BaseDruidQuery where
  dimension : String

/-- `GroupByApproximateCountDruidQuery.execute`: the cardinality in the first element of the answer. -/
def GroupByApproximateCountDruidQuery.execute (env : Env) (druid : DruidEngine)
    (q : GroupByApproximateCountDruidQuery) (store : EventStore) : Except Exc Int := do
  let rows ← q.queryWithFilter env q.start q.end_ [] store
  match druid.groupBy (q.start, q.end_) q.dimension rows with
  | [] => .error ⟨.indexError, "list index out of range"⟩
  | none :: _ => return -1
  | some cardinality :: _ => return cardinality

structure PeriodData where
  timestamp : Time
  result : List DimensionData
  deriving DecidableEq, Repr

structure DimensionDifference where
  dimensionKey : Option String
  currentCount : Int
  previousCount : Int
  difference : Int
  percentageChange : Option Rat
  deriving DecidableEq, Repr

structure TopNPoPResponse where
  currentPeriod : List PeriodData
  previousPeriod : Option (List PeriodData) := none
  comparison : Option (List (List DimensionDifference)) := none
  deriving DecidableEq, Repr

structure TopNDruidQuery extends BaseDruidQuery where
  dimension : String
  limit : Int := 100
  precision : Rat := 0

namespace TopNDruidQuery

def getDimensionParameter (env : Env) (q : TopNDruidQuery) : DimensionParameter :=
  let isFloat := (env.featureNameToEntityType.lookup q.dimension).all fun type => type.toLower = "float"
  if !isFloat || q.precision == 0 then .plain q.dimension
  else
    let inversePrecision := (1 / q.precision).floor.toNat
    .rounded q.dimension inversePrecision (Nat.log 10 inversePrecision)

def executeSinglePeriod (env : Env) (druid : DruidEngine) (q : TopNDruidQuery) (start end_ : Time)
    (abilities : List (Option (Ability String))) (store : EventStore) : Except Exc (List RawPeriod) :=
  if ¬(0 ≤ q.precision ∧ q.precision < 1) then
    .error ⟨.assertionError, "Precision specified was not valid; Must be a float between 0 and 1!"⟩
  else do
    let rows ← q.queryWithFilter env start end_ abilities store
    return druid.topN (start, end_) (q.getDimensionParameter env) q.limit rows

/-- `_sanitize_results`: what the models refuse is left out, and so is a period left with no row. -/
def sanitizeResults (results : List RawPeriod) : List PeriodData :=
  results.filterMap fun period =>
    match period.result.reduceOption, period.timestamp with
    | [], _ => none
    | _, none => none
    | data, some timestamp => some ⟨timestamp, data⟩

/-- The counts by the value of the dimension; of two rows for one value the later counts. -/
def countMap (period : PeriodData) : Dict (Option String) Int :=
  period.result.foldl (fun counts item => counts.set item.key item.count) Dict.empty

/-- The comparison of two periods: every value that occurs in the current one. -/
def differences (env : Env) (current previous : PeriodData) : List DimensionDifference :=
  let currentMap := countMap current
  let previousMap := countMap previous
  let allKeys := currentMap.keys ++ previousMap.keys.filter (!currentMap.keys.contains ·)
  (env.setOrder allKeys).filterMap fun item =>
    let currentCount := (currentMap.get? item).getD 0
    let previousCount := (previousMap.get? item).getD 0
    if currentCount = 0 then none
    else
      let difference := currentCount - previousCount
      some ⟨item, currentCount, previousCount, difference,
        if previousCount = 0 then none else some ((difference : Rat) / previousCount * 100)⟩

def analyzePopResults (env : Env) (currentResults previousResults : List PeriodData) : TopNPoPResponse :=
  if previousResults.isEmpty then ⟨currentResults, none, none⟩
  else ⟨currentResults, some previousResults, some (List.zipWith (differences env) currentResults previousResults)⟩

/-- The start of the period before the query's, unless it is too long ago to be asked for. -/
def previousStart (env : Env) (q : TopNDruidQuery) : Except Exc (Option Time) := do
  let start ← addDelta q.start (-(q.end_ - q.start))
  let oldest ← addDelta env.now (-(env.maxHistoricalQueryWindowDays * seconds 86400))
  return if start < oldest then none else some start

/-- `TopNDruidQuery.execute`. No caller turns the previous period off. -/
def execute (env : Env) (druid : DruidEngine) (q : TopNDruidQuery) (abilities : List (Option (Ability String)))
    (store : EventStore) : Except Exc TopNPoPResponse := do
  let current ← q.executeSinglePeriod env druid q.start q.end_ abilities store
  match ← q.previousStart env with
  | none => return ⟨sanitizeResults current, none, none⟩
  | some start =>
    let previous ← q.executeSinglePeriod env druid start q.start abilities store
    return analyzePopResults env (sanitizeResults current) (sanitizeResults previous)

theorem previousStart_eq {env : Env} {q : TopNDruidQuery} {start} (h : q.previousStart env = .ok (some start)) :
    start = q.start - (q.end_ - q.start) := by
  obtain ⟨t, ht, h⟩ := bind_eq_ok.mp h
  obtain ⟨_, -, h⟩ := bind_eq_ok.mp h
  obtain ⟨rfl, -⟩ := addDelta_eq_ok.mp ht
  split at h
  · cases h
  · cases h
    exact Int.sub_eq_add_neg.symm

end TopNDruidQuery

structure PaginatedScanDruidQuery extends BaseDruidQuery where
  limit : Nat := 100
  nextPage : Option (List Char) := none
  order : Pagination.Ordering := .descending

/-- The part of the query that paginates. -/
def PaginatedScanDruidQuery.pagination (q : PaginatedScanDruidQuery) : Pagination.PaginatedScanDruidQuery :=
  ⟨q.start, q.end_, q.limit, q.nextPage, q.order⟩

def PaginatedScanDruidQuery.execute (env : Env) (druid : DruidEngine) (q : PaginatedScanDruidQuery)
    (abilities : List (Option (Ability String))) (store : EventStore) :
    Except Exc Pagination.PaginatedScanResult := do
  let (start, end_) ← q.pagination.interval
  let rows ← q.queryWithFilter env start end_ abilities store
  let results := druid.scan (start, end_) q.order (q.limit + 1) rows
  if results = [] then return ⟨[], none⟩
  return Pagination.makePage q.limit results.flatten

/-! ## What a query sees -/

theorem holdsAll_eq_map (row : Row) (other : Filter → Bool) :
    ∀ fs : List Filter, holdsAll row other fs = fs.map (Filter.holds row other)
  | [] => by rw [holdsAll, List.map_nil]
  | f :: fs => by rw [holdsAll, holdsAll_eq_map row other fs, List.map_cons]

theorem getQueryFilter_holds (a : Ability String) :
    ∃ filter, getQueryFilter a = .ok filter ∧ ∀ (row : Row) (other : Filter → Bool) (name : String),
      row "ActionName" = .str name → filter.all (·.holds row other) = a.itemIsAllowed name := by
  have hselectors : ∀ (items : List String) (row : Row) (other : Filter → Bool) (name : String),
      row "ActionName" = .str name →
        (Filter.boolean .or (items.map fun name => .selector "ActionName" (.str name))).holds row other =
          items.contains name := by
    intro items row other name hname
    rw [Filter.holds, holdsAll_eq_map, BooleanOperand.apply, List.map_map, List.any_map, Bool.eq_iff_iff,
      List.any_eq_true, List.contains_iff_mem]
    constructor
    · rintro ⟨item, hitem, h⟩
      have heq : name = item := by simpa [Filter.holds, hname, pyEq] using h
      exact heq ▸ hitem
    · exact fun h => ⟨name, h, by simp [Filter.holds, hname, pyEq]⟩
  rcases a.eq_all_or_specific_or_allExcept with rfl | ⟨items, hne, rfl⟩ | ⟨items, hne, rfl⟩
  · exact ⟨none, rfl, fun row other name _ => rfl⟩
  · obtain ⟨i, items, rfl⟩ := List.exists_cons_of_ne_nil hne
    refine ⟨_, rfl, fun row other name hname => ?_⟩
    rw [Option.all_some, hselectors _ row other name hname, Ability.itemIsAllowed_specific]
  · obtain ⟨i, items, rfl⟩ := List.exists_cons_of_ne_nil hne
    refine ⟨_, rfl, fun row other name hname => ?_⟩
    rw [Option.all_some, Filter.holds, hselectors _ row other name hname, Ability.itemIsAllowed_allExcept]

theorem withAbilityFilters_all (filter : Option Filter) (abilityFilter : Option Filter) (row : Row)
    (other : Filter → Bool) :
    (withAbilityFilters filter abilityFilter.toList).all (·.holds row other) =
      (filter.all (·.holds row other) && abilityFilter.all (·.holds row other)) := by
  cases abilityFilter with
  | none => simp [withAbilityFilters]
  | some f => cases filter <;> simp [withAbilityFilters, Filter.holds, holdsAll, BooleanOperand.apply]

/-- The events that the user's own query selects in an interval: none when it cannot be parsed. -/
def BaseDruidQuery.asksFor (env : Env) (q : BaseDruidQuery) (start end_ : Time) (e : Event) : Bool :=
  match parseQueryFilter env q.queryFilter with
  | .error _ => false
  | .ok transformed => selects env (q.userFilter env transformed) start end_ e

/-- The stores hold the same events for the action names that the ability allows. -/
def SameFor (a : Ability String) (s t : EventStore) : Prop :=
  ∀ id, (s id).filter (a.itemIsAllowed ·.actionName) = (t id).filter (a.itemIsAllowed ·.actionName)

variable {a : Ability String} {s t : EventStore}

theorem SameFor.eq_of_allowed (h : SameFor a s t) {id e}
    (hs : s id = some e) (he : a.itemIsAllowed e.actionName = true) : t id = some e := by
  have hid := h id
  simp only [hs, Option.filter_some, he, if_true] at hid
  exact (Option.filter_eq_some_iff.mp hid.symm).1

theorem SameFor.symm (h : SameFor a s t) : SameFor a t s :=
  fun id => (h id).symm

theorem SameFor.filter_eq (h : SameFor a s t) {p}
    (hp : ∀ e, p e = true → a.itemIsAllowed e.actionName = true) (id : Int) : (s id).filter p = (t id).filter p := by
  refine Option.ext fun e => ?_
  simp only [Option.filter_eq_some_iff]
  exact ⟨fun ⟨hs, he⟩ => ⟨h.eq_of_allowed hs (hp e he), he⟩, fun ⟨ht, he⟩ => ⟨h.symm.eq_of_allowed ht (hp e he), he⟩⟩

/-- What a query refuses before Druid is asked. -/
def BaseDruidQuery.check (env : Env) (q : BaseDruidQuery) (start end_ : Time) : Except Exc Unit := do
  let _ ← parseQueryFilter env q.queryFilter
  if start > end_ then .error ⟨.valueError, "Start date must be before end date"⟩ else .ok ()

theorem queryWithFilter_nil (env : Env) (q : BaseDruidQuery) (start end_ : Time) (store : EventStore) :
    q.queryWithFilter env start end_ [] store =
      (q.check env start end_).map fun _ id => (store id).filter (q.asksFor env start end_) := by
  unfold BaseDruidQuery.queryWithFilter BaseDruidQuery.check BaseDruidQuery.asksFor
  cases parseQueryFilter env q.queryFilter with
  | error e => rfl
  | ok transformed =>
    by_cases h : start > end_ <;>
      simp [h, Except.map, withAbilityFilters]

theorem queryWithFilter_ability (env : Env) (q : BaseDruidQuery) (start end_ : Time) (a : Ability String)
    (store : EventStore) :
    q.queryWithFilter env start end_ [some a] store =
      (q.check env start end_).map fun _ id =>
        (store id).filter fun e => q.asksFor env start end_ e && a.itemIsAllowed e.actionName := by
  obtain ⟨filter, hfilter, hholds⟩ := getQueryFilter_holds a
  unfold BaseDruidQuery.queryWithFilter BaseDruidQuery.check BaseDruidQuery.asksFor
  cases parseQueryFilter env q.queryFilter with
  | error e => rfl
  | ok transformed =>
    have hselects : selects env (withAbilityFilters (q.userFilter env transformed) filter.toList) start end_ =
        fun e => selects env (q.userFilter env transformed) start end_ e && a.itemIsAllowed e.actionName := by
      funext e
      rw [selects, selects, withAbilityFilters_all, hholds e.row _ e.actionName rfl, Bool.and_assoc]
    have hreduce : [filter].reduceOption = filter.toList := by cases filter <;> rfl
    by_cases h : start > end_
    · simp [h, Except.map]
    · simp [h, Except.map, hfilter, hreduce, hselects]

variable {q : BaseDruidQuery} {start end_ : Time} {env : Env}

theorem BaseDruidQuery.mem_interval {e} (h : q.asksFor env start end_ e = true) :
    (start ≤ e.instant ∧ e.instant < end_) ∧ ∃ f, parseQueryFilter env q.queryFilter = .ok f := by
  unfold asksFor at h
  split at h
  · cases h
  · rename_i f hf
    simp only [selects, Bool.and_eq_true, decide_eq_true_eq] at h
    exact ⟨h.1, f, hf⟩

theorem BaseDruidQuery.check_of_asksFor {e}
    (h : q.asksFor env start end_ e = true) : start < end_ ∧ ∃ f, parseQueryFilter env q.queryFilter = .ok f :=
  ⟨lt_of_le_of_lt (mem_interval h).1.1 (mem_interval h).1.2, (mem_interval h).2⟩

theorem BaseDruidQuery.check_eq_ok {f} (hf : parseQueryFilter env q.queryFilter = .ok f) (hle : start ≤ end_) :
    q.check env start end_ = .ok () := by
  have hnot : ¬start > end_ := not_lt.mpr hle
  simp [check, hf, hnot]

/-- No event that the ability does not allow is asked for. -/
def Confined (env : Env) (a : Ability String) (q : BaseDruidQuery) (start end_ : Time) : Prop :=
  ∀ e, a.itemIsAllowed e.actionName = false → q.asksFor env start end_ e = false

theorem queryWithFilter_ability_eq (env : Env) (q : BaseDruidQuery) (start end_ : Time) (h : SameFor a s t) :
    q.queryWithFilter env start end_ [some a] s = q.queryWithFilter env start end_ [some a] t := by
  rw [queryWithFilter_ability, queryWithFilter_ability]
  congr 1
  funext _ id
  refine h.filter_eq (fun e he => ?_) id
  rw [Bool.and_eq_true] at he
  exact he.2

theorem queryWithFilter_nil_eq (hconfined : Confined env a q start end_) (h : SameFor a s t) :
    q.queryWithFilter env start end_ [] s = q.queryWithFilter env start end_ [] t := by
  rw [queryWithFilter_nil, queryWithFilter_nil]
  congr 1
  funext _ id
  refine h.filter_eq (fun e he => ?_) id
  by_contra hnot
  rw [hconfined e (by simpa using hnot)] at he
  cases he

end Osprey.UiApi
