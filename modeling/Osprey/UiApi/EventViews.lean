/-
The event endpoints (`views/events.py`): who is let in, which filter goes to
Druid, and what comes back.

The ability to view events by action is a filter that each view has to pass
to its query. `topn_query` and `scan_query` pass it; `groupby_count`,
`timeseries_query`, `topn_query_csv` and `get_event_data` do not. So the
first two show nothing of the events that a user may not see, and the others
show nothing exactly when the request asks for no such event.
-/
import Osprey.UiApi.DruidQueries

namespace Osprey.UiApi

open Lib Druid DataCensor

/-! ## Users and requests -/

structure HashableEntityKey where
  type : String
  id : String
  deriving DecidableEq, Repr

structure User where
  email : String
  canViewEventsByEntity : List (Ability HashableEntityKey)
  canViewEventsByAction : List (Ability String)
  dataCensorAbilities : List DataCensorAbility

/-- A class of abilities: the name it is registered under, and its own. -/
structure AbilityClass where
  className : String
  name : String

def canViewEventsByEntity : AbilityClass := ⟨"CAN_VIEW_EVENTS_BY_ENTITY", "CanViewEventsByEntity"⟩

def canViewEventsByAction : AbilityClass := ⟨"CAN_VIEW_EVENTS_BY_ACTION", "CanViewEventsByAction"⟩

inductive Request
  | topn (q : TopNDruidQuery)
  | groupbyCount (q : GroupByApproximateCountDruidQuery)
  | timeseries (q : TimeseriesDruidQuery)
  | scan (q : PaginatedScanDruidQuery)
  | topnCsv (q : TopNDruidQuery)
  | event (id : Int)

structure ScannedEvent where
  id : Int
  extractedFeatures : JsonObject
  timestamp : Time

/-- A row of the CSV file; a value that is `None` or missing is written as nothing. -/
structure CsvRow where
  dimensionKey : String
  currentCount : Int
  previousCount : Option Int
  difference : Option Int
  percentDiff : Option Rat
  deriving DecidableEq, Repr

inductive Response
  | aborted (status : Nat) (text : String)
  | raised (e : Exc)
  | topn (result : TopNPoPResponse)
  | count (n : Int)
  | timeseries (result : Json)
  | scan (events : List ScannedEvent) (nextPage : Option (List Char))
  | csv (fieldnames : List String) (rows : List CsvRow)
  | event (result : StoredExecutionResult)

/-- A view returns its response, or leaves by an exception with another one. -/
abbrev View := Except Response

/-- An exception that no view catches. -/
def raises {α : Type} : Except Exc α → View α := Except.mapError .raised

def View.response : View Response → Response
  | .ok response => response
  | .error response => response

/-! ## Who is let in -/

def requireAbility {ι : Type} (user : User) (cls : AbilityClass) (abilities : List (Ability ι)) : View Unit :=
  if abilities.isEmpty then
    .error (.aborted 401 ("User `" ++ user.email ++ "` doesn't have ability `" ++ cls.className ++ "`"))
  else .ok ()

/-- `require_ability_with_request`, for a class whose `_request_is_allowed` is `requestIsAllowed`. -/
def requireAbilityWithRequest {ι : Type} [DecidableEq ι] (user : User) (cls : AbilityClass)
    (abilities : List (Ability ι)) (requestIsAllowed : Ability ι → Bool) (request : String) : View Unit := do
  match ← raises (Ability.getAbility abilities) with
  | none => .error (.aborted 401 ("User `" ++ user.email ++ "` doesn't have ability `" ++ cls.className ++ "`"))
  | some ability =>
    if ability.allowAll == some true || requestIsAllowed ability then .ok ()
    else .error (.aborted 401 ("User `" ++ user.email ++ "` with ability `" ++ cls.name ++
      "` is not authorized to access `" ++ request ++ "`"))

/-- `CanViewEventsByEntity._request_is_allowed`. -/
def entityIsAllowed (q : BaseDruidQuery) (ability : Ability HashableEntityKey) : Bool :=
  match q.entity with
  | none => false
  | some entity => ability.itemIsAllowed ⟨entity.type, entity.id⟩

def requireEntity (user : User) : View Unit := requireAbility user canViewEventsByEntity user.canViewEventsByEntity

def requireAction (user : User) : View Unit := requireAbility user canViewEventsByAction user.canViewEventsByAction

def requireEntityWithRequest (user : User) (q : BaseDruidQuery) : View Unit :=
  requireAbilityWithRequest user canViewEventsByEntity user.canViewEventsByEntity (entityIsAllowed q) q.text

/-- `QueryFilterAbility._request_is_allowed` is always true. -/
def requireActionWithRequest (user : User) (q : BaseDruidQuery) : View Unit :=
  requireAbilityWithRequest user canViewEventsByAction user.canViewEventsByAction (fun _ => true) q.text

/-- The checks at the head of each view, in their order. -/
def authorize (user : User) : Request → View Unit
  | .topn q => do
    requireEntityWithRequest user q.toBaseDruidQuery
    requireActionWithRequest user q.toBaseDruidQuery
  | .groupbyCount q => do
    requireEntityWithRequest user q.toBaseDruidQuery
    requireActionWithRequest user q.toBaseDruidQuery
  | .timeseries q => do
    requireEntity user
    requireEntityWithRequest user q.toBaseDruidQuery
  | .scan q => do
    requireEntity user
    requireAction user
    requireEntityWithRequest user q.toBaseDruidQuery
    requireActionWithRequest user q.toBaseDruidQuery
  | .topnCsv q => do
    requireEntity user
    requireEntityWithRequest user q.toBaseDruidQuery
  | .event _ => requireEntity user

/-! ## The views -/

/-- `[action_data_censor_ability, feature_data_censor_ability]`. -/
def censors (user : User) : View (List (Option DataCensorAbility)) := do
  let actionData ← raises (DataCensor.getAbility user.dataCensorAbilities .canViewActionData)
  let featureData ← raises (DataCensor.getAbility user.dataCensorAbilities .canViewFeatureData)
  return [actionData, featureData]

def maxCsvRows : Int := 100000

/-- The rows of the comparison: the first for each key that is not `None`. -/
def comparisonRows (differences : List DimensionDifference) : List CsvRow :=
  differences.foldl (fun rows diff =>
    match diff.dimensionKey with
    | none => rows
    | some key =>
      if rows.any (·.dimensionKey == key) then rows
      else rows ++ [⟨key, diff.currentCount, some diff.previousCount, some diff.difference,
        diff.percentageChange⟩]) []

/-- The rows of `topn_query_csv`: those of the comparison, then those of the current period whose key is not
included yet. -/
def csvRows (result : TopNPoPResponse) : List CsvRow :=
  (result.currentPeriod.flatMap (·.result)).foldl (fun rows current =>
    let key := current.key.getD "None"
    if rows.any (·.dimensionKey == key) then rows else rows ++ [⟨key, current.count, none, none, none⟩])
    (comparisonRows (result.comparison.getD []).flatten)

def csvFieldnames (q : TopNDruidQuery) (result : TopNPoPResponse) : List String :=
  [q.dimension, "current_count"] ++
    if (result.comparison.getD []).isEmpty then [] else ["previous_count", "difference", "percent_diff"]

section

variable (env : Env) (druid : DruidEngine) (backend : StorageBackend) (user : User)

/-- What a view does once the request is authorized. -/
def view (store : EventStore) : Request → View Response
  | .topn q => do
    let queryFilterAbility ← raises (Ability.getAbility user.canViewEventsByAction)
    let abilities := match queryFilterAbility with
      | some ability => [some ability]
      | none => []
    return .topn (← raises (q.execute env druid abilities store))
  | .groupbyCount q => do
    return .count (← raises (q.execute env druid store))
  | .timeseries q => do
    return .timeseries (← raises (q.execute env druid store))
  | .scan q => do
    let queryFilterAbility ← raises (Ability.getAbility user.canViewEventsByAction)
    let page ← raises (q.execute env druid [queryFilterAbility] store)
    let events ← raises (getMany backend (← censors user) store page.actionIds)
    return .scan (events.map fun e => ⟨e.id, e.extractedFeatures, e.timestamp⟩) page.nextPage
  | .topnCsv q => do
    let q := { q with limit := min q.limit maxCsvRows }
    let result ← raises (q.execute env druid [] store)
    return .csv (csvFieldnames q result) (csvRows result)
  | .event id => do
    match ← raises (getOneWithActionData (← censors user) store id) with
    | none => .error (.aborted 404 "Unknown action id")
    | some result => return .event result

def respond (request : Request) (store : EventStore) : Response :=
  View.response (do
    authorize user request
    view env druid backend user store request)

end

/-! ## What a response depends on -/

/-- The responses do not tell apart two stores that hold the same events for the allowed action names, whatever
Druid makes of the rows and wherever the records are kept. -/
def NonInterfering (env : Env) (user : User) (a : Ability String) (request : Request) : Prop :=
  ∀ (druid : DruidEngine) (backend : StorageBackend) (s t : EventStore), SameFor a s t →
    respond env druid backend user request s = respond env druid backend user request t

/-- No event is asked for that the ability does not allow, by the views that do not filter. -/
def Request.Confined (env : Env) (a : Ability String) : Request → Prop
  | .topn _ => True
  | .scan _ => True
  | .groupbyCount q => UiApi.Confined env a q.toBaseDruidQuery q.start q.end_
  | .timeseries q => UiApi.Confined env a q.toBaseDruidQuery q.start q.end_
  | .topnCsv q => 0 ≤ q.precision ∧ q.precision < 1 → ∀ previous, q.previousStart env = .ok previous →
      UiApi.Confined env a q.toBaseDruidQuery q.start q.end_ ∧
      ∀ start, previous = some start → UiApi.Confined env a q.toBaseDruidQuery start q.start
  | .event _ => ∀ name, a.itemIsAllowed name = true

section

variable {env : Env} {druid : DruidEngine} {backend : StorageBackend} {user : User} {a : Ability String}
  {s t : EventStore}

theorem respond_of_authorized {request} (h : authorize user request = .ok ()) (store : EventStore) :
    respond env druid backend user request store = (view env druid backend user store request).response := by
  rw [respond, h]
  rfl

theorem TopNDruidQuery.execute_congr {q : TopNDruidQuery} {abilities}
    (hcurrent : q.queryWithFilter env q.start q.end_ abilities s = q.queryWithFilter env q.start q.end_ abilities t)
    (hprevious : ∀ start, q.previousStart env = .ok (some start) → q.queryWithFilter env start q.start abilities s =
      q.queryWithFilter env start q.start abilities t) :
    q.execute env druid abilities s = q.execute env druid abilities t := by
  rw [execute, execute, executeSinglePeriod, executeSinglePeriod, hcurrent]
  match hstart : q.previousStart env with
  | .error _ | .ok none => rfl
  | .ok (some start) => simp only [ok_bind, executeSinglePeriod, hprevious start hstart]

/-- A query for which there is no date for the period before it tells nothing. -/
theorem TopNDruidQuery.execute_of_overflow {q : TopNDruidQuery} {e} (h : q.previousStart env = .error e) :
    q.execute env druid [] s = q.execute env druid [] t := by
  simp only [execute, executeSinglePeriod, queryWithFilter_nil, h]
  split
  · rfl
  · cases q.check env q.start q.end_ <;> rfl

theorem makePage_actionIds {limit events id}
    (h : id ∈ (Pagination.makePage limit events).actionIds) : ∃ r ∈ events, r.actionId = id := by
  unfold Pagination.makePage at h
  split at h
  · obtain ⟨r, hr, hid⟩ := List.mem_map.mp h
    exact ⟨r, List.mem_of_mem_dropLast hr, hid⟩
  · obtain ⟨r, hr, hid⟩ := List.mem_map.mp h
    exact ⟨r, hr, hid⟩

theorem PaginatedScanDruidQuery.execute_allowed {q : PaginatedScanDruidQuery} {page}
    (h : q.execute env druid [some a] s = .ok page) {id} (hid : id ∈ page.actionIds) :
    ∃ e, s id = some e ∧ a.itemIsAllowed e.actionName = true := by
  obtain ⟨⟨start, end_⟩, -, h⟩ := bind_eq_ok.mp h
  obtain ⟨rows, hrows, h⟩ := bind_eq_ok.mp h
  have hrow : ∃ r ∈ (druid.scan (start, end_) q.order (q.limit + 1) rows).flatten, r.actionId = id := by
    dsimp only at h
    split at h
    · cases h
      simp at hid
    · cases h
      exact makePage_actionIds hid
  obtain ⟨r, hr, rfl⟩ := hrow
  obtain ⟨e, he⟩ := Option.isSome_iff_exists.mp (druid.scan_mem _ _ _ _ r hr)
  rw [queryWithFilter_ability] at hrows
  cases hcheck : q.check env start end_ with
  | error e => simp [hcheck, Except.map] at hrows
  | ok u =>
    rw [hcheck] at hrows
    cases hrows
    obtain ⟨hs, hand⟩ := Option.filter_eq_some_iff.mp he
    rw [Bool.and_eq_true] at hand
    exact ⟨e, hs, hand.2⟩

theorem view_topn_eq (ha : Ability.getAbility user.canViewEventsByAction = .ok (some a)) (h : SameFor a s t)
    (q : TopNDruidQuery) :
    view env druid backend user s (.topn q) = view env druid backend user t (.topn q) := by
  have hexecute : q.execute env druid [some a] s = q.execute env druid [some a] t :=
    TopNDruidQuery.execute_congr (queryWithFilter_ability_eq _ _ _ _ h) fun _ _ =>
      queryWithFilter_ability_eq _ _ _ _ h
  simp only [view, ha, raises, Except.mapError, ok_bind, hexecute]

theorem view_scan_eq (ha : Ability.getAbility user.canViewEventsByAction = .ok (some a)) (h : SameFor a s t)
    (q : PaginatedScanDruidQuery) :
    view env druid backend user s (.scan q) = view env druid backend user t (.scan q) := by
  have hexecute : q.execute env druid [some a] s = q.execute env druid [some a] t := by
    simp only [PaginatedScanDruidQuery.execute, queryWithFilter_ability_eq _ _ _ _ h]
  simp only [view, ha, raises, Except.mapError, ok_bind, ← hexecute]
  cases hpage : q.execute env druid [some a] s with
  | error e => simp
  | ok page =>
    have hselect : backend.selectMany page.actionIds s = backend.selectMany page.actionIds t := by
      refine backend.selectMany_congr _ _ _ fun id hid => ?_
      obtain ⟨e, hs, he⟩ := PaginatedScanDruidQuery.execute_allowed hpage hid
      rw [hs, h.eq_of_allowed hs he]
    simp only [ok_bind, getMany, hselect]

theorem view_eq (ha : Ability.getAbility user.canViewEventsByAction = .ok (some a)) (h : SameFor a s t)
    {request : Request} (hconfined : request.Confined env a) :
    view env druid backend user s request = view env druid backend user t request := by
  cases request with
  | topn q => exact view_topn_eq ha h q
  | scan q => exact view_scan_eq ha h q
  | groupbyCount q =>
    simp only [view, GroupByApproximateCountDruidQuery.execute, queryWithFilter_nil_eq hconfined h]
  | timeseries q => simp only [view, TimeseriesDruidQuery.execute, queryWithFilter_nil_eq hconfined h]
  | topnCsv q =>
    have hexecute : ({ q with limit := min q.limit maxCsvRows } : TopNDruidQuery).execute env druid [] s =
        ({ q with limit := min q.limit maxCsvRows } : TopNDruidQuery).execute env druid [] t := by
      by_cases hprecision : 0 ≤ q.precision ∧ q.precision < 1
      · cases hprevious : q.previousStart env with
        | error e => exact TopNDruidQuery.execute_of_overflow hprevious
        | ok previous =>
          obtain ⟨hcurrent, hstart⟩ := hconfined hprecision previous hprevious
          exact TopNDruidQuery.execute_congr (queryWithFilter_nil_eq hcurrent h) fun start hsome =>
            queryWithFilter_nil_eq (hstart start (Except.ok.inj (hprevious.symm.trans hsome))) h
      · simp [TopNDruidQuery.execute, TopNDruidQuery.executeSinglePeriod, hprecision]
    simp only [view, hexecute]
  | event id =>
    have hsame : s id = t id := by
      cases hs : s id with
      | some e => exact (h.eq_of_allowed hs (hconfined _)).symm
      | none =>
        cases ht : t id with
        | none => rfl
        | some e => exact absurd (h.symm.eq_of_allowed ht (hconfined _)) (by simp [hs])
    simp only [view, getOneWithActionData, hsame]

end

/-! ## Telling stores apart -/

/-- A number that tells whether event 0 is among the rows. -/
def presence (rows : EventStore) : Int := if (rows 0).isSome then 2 else 1

def presenceEngine : DruidEngine where
  topN _ _ _ rows := [⟨some 0, [some ⟨some "", presence rows⟩]⟩]
  timeseries _ _ _ rows := .leaf (.int (presence rows))
  groupBy _ _ rows := [some (presence rows)]
  scan _ _ _ _ := []
  scan_mem := by simp

/-- A backend that looks the ids up one by one. -/
def lookupBackend : StorageBackend where
  selectMany ids store := ids.filterMap fun id => (store id).map fun e => (id, e.record)
  selectMany_congr ids s t h := List.filterMap_congr fun id hid => by rw [h id hid]

def only (id : Int) (e : Event) : EventStore := fun i => if i = id then some e else none

def emptyStore : EventStore := fun _ => none

section

variable {env : Env} {user : User} {a : Ability String}

theorem sameFor_only {e} (he : a.itemIsAllowed e.actionName = false) (id : Int) :
    SameFor a emptyStore (only id e) := by
  intro i
  by_cases hi : i = id <;> simp [emptyStore, only, hi, Option.filter_some, he]

theorem presence_empty (p : Event → Bool) : presence (fun id => (emptyStore id).filter p) = 1 := rfl

theorem presence_only (e : Event) (p : Event → Bool) :
    presence (fun id => (only 0 e id).filter p) = if p e then 2 else 1 := by
  by_cases hp : p e = true <;> simp [presence, only, Option.filter_some, hp]

/-- A view that does not filter, answered by the engine of presence, tells the stores apart. -/
theorem not_nonInterfering {request} (hauth : authorize user request = .ok ()) {e}
    (he : a.itemIsAllowed e.actionName = false) (id : Int)
    (hview : (view env presenceEngine lookupBackend user emptyStore request).response ≠
      (view env presenceEngine lookupBackend user (only id e) request).response) :
    ¬NonInterfering env user a request := by
  intro h
  have heq := h presenceEngine lookupBackend _ _ (sameFor_only he id)
  rw [respond_of_authorized hauth, respond_of_authorized hauth] at heq
  exact hview heq

theorem confined_of {q : BaseDruidQuery} {start end_}
    (h : ∀ e, a.itemIsAllowed e.actionName = false → ∀ f, parseQueryFilter env q.queryFilter = .ok f → start < end_ →
      q.asksFor env start end_ e ≠ true) : Confined env a q start end_ := by
  intro e he
  by_contra hasks
  rw [Bool.not_eq_false] at hasks
  obtain ⟨hlt, f, hf⟩ := BaseDruidQuery.check_of_asksFor hasks
  exact h e he f hf hlt hasks

theorem confined_groupbyCount {q}
    (hauth : authorize user (.groupbyCount q) = .ok ()) (h : NonInterfering env user a (.groupbyCount q)) :
    Confined env a q.toBaseDruidQuery q.start q.end_ := by
  refine confined_of fun e he f hf hlt hasks => ?_
  refine not_nonInterfering hauth he 0 ?_ h
  simp [view, GroupByApproximateCountDruidQuery.execute, queryWithFilter_nil, BaseDruidQuery.check_eq_ok hf hlt.le,
    raises, Except.mapError, Except.map, View.response, presenceEngine, presence_empty, presence_only, hasks]

theorem confined_timeseries {q}
    (hauth : authorize user (.timeseries q) = .ok ()) (h : NonInterfering env user a (.timeseries q)) :
    Confined env a q.toBaseDruidQuery q.start q.end_ := by
  refine confined_of fun e he f hf hlt hasks => ?_
  refine not_nonInterfering hauth he 0 ?_ h
  simp [view, TimeseriesDruidQuery.execute, queryWithFilter_nil, BaseDruidQuery.check_eq_ok hf hlt.le, raises,
    Except.mapError, Except.map, View.response, presenceEngine, presence_empty, presence_only, hasks]

theorem confined_event {id} (hauth : authorize user (.event id) = .ok ())
    (h : NonInterfering env user a (.event id)) (name : String) : a.itemIsAllowed name = true := by
  by_contra hname
  let e : Event := ⟨name, 0, fun _ => .none, ⟨none, none, 0, none⟩⟩
  obtain ⟨actionData, hactionData⟩ := getAbility_isOk user.dataCensorAbilities .canViewActionData
  obtain ⟨featureData, hfeatureData⟩ := getAbility_isOk user.dataCensorAbilities .canViewFeatureData
  refine not_nonInterfering hauth (e := e) (by simpa using hname) id ?_ h
  simp [view, censors, hactionData, hfeatureData, getOneWithActionData, emptyStore, only, e, parseFromQueryResult,
    raises, Except.mapError, Except.map, View.response]

theorem differences_singleton (env : Env) {c} (hc : c ≠ 0) (p : Int) :
    TopNDruidQuery.differences env ⟨0, [⟨some "", c⟩]⟩ ⟨0, [⟨some "", p⟩]⟩ =
      [⟨some "", c, p, c - p, if p = 0 then none else some (((c - p : Int) : Rat) / p * 100)⟩] := by
  have hcount : ∀ n : Int, TopNDruidQuery.countMap ⟨0, [⟨some "", n⟩]⟩ = ⟨[(some "", n)], by simp⟩ := fun n => rfl
  have horder : env.setOrder [some ""] = [some ""] := List.perm_singleton.mp (env.setOrder_perm _)
  simp [TopNDruidQuery.differences, hcount, Dict.keys, Dict.get?, horder, hc]

theorem execute_presence {q : TopNDruidQuery} (hprecision : 0 ≤ q.precision ∧ q.precision < 1) {f}
    (hf : parseQueryFilter env q.queryFilter = .ok f) (hle : q.start ≤ q.end_) {previous}
    (hprevious : q.previousStart env = .ok previous) (store : EventStore) :
    ∃ result, q.execute env presenceEngine [] store = .ok result ∧ ∃ row, (csvRows result).head? = some row ∧
      row.currentCount = presence (fun id => (store id).filter (q.asksFor env q.start q.end_)) ∧
      ∀ start, previous = some start → row.previousCount =
        some (presence fun id => (store id).filter (q.asksFor env start q.start)) := by
  have hsingle : ∀ start end_, start ≤ end_ → q.executeSinglePeriod env presenceEngine start end_ [] store =
      .ok [⟨some 0, [some ⟨some "", presence fun id => (store id).filter (q.asksFor env start end_)⟩]⟩] := by
    intro start end_ hle
    simp [TopNDruidQuery.executeSinglePeriod, hprecision, queryWithFilter_nil, BaseDruidQuery.check_eq_ok hf hle,
      Except.map, presenceEngine]
  have hpos : presence (fun id => (store id).filter (q.asksFor env q.start q.end_)) ≠ 0 := by
    unfold presence
    split <;> decide
  cases previous with
  | none =>
    refine ⟨_, by simp only [TopNDruidQuery.execute, hsingle _ _ hle, hprevious, ok_bind, pure_eq_ok]; rfl, ?_⟩
    simp [TopNDruidQuery.sanitizeResults, csvRows, comparisonRows, List.reduceOption]
  | some start =>
    have hbefore : start ≤ q.start := by
      rw [TopNDruidQuery.previousStart_eq hprevious]
      exact Int.sub_le_self _ (Int.sub_nonneg.mpr hle)
    refine ⟨_, by simp only [TopNDruidQuery.execute, hsingle _ _ hle, hsingle _ _ hbefore, hprevious, ok_bind,
      pure_eq_ok]; rfl, ?_⟩
    simp [TopNDruidQuery.sanitizeResults, TopNDruidQuery.analyzePopResults, csvRows, comparisonRows,
      differences_singleton env hpos, List.reduceOption]

theorem confined_topnCsv {q : TopNDruidQuery} (hauth : authorize user (.topnCsv q) = .ok ())
    (h : NonInterfering env user a (.topnCsv q)) (hprecision : 0 ≤ q.precision ∧ q.precision < 1) {previous}
    (hprevious : q.previousStart env = .ok previous) : Confined env a q.toBaseDruidQuery q.start q.end_ ∧
      ∀ start, previous = some start → Confined env a q.toBaseDruidQuery start q.start := by
  -- both stores are answered with one row, whose counts are the two numbers of presence
  have hsame : ∀ e, a.itemIsAllowed e.actionName = false → ∀ f, parseQueryFilter env q.queryFilter = .ok f →
      q.start ≤ q.end_ → q.asksFor env q.start q.end_ e = false ∧
        ∀ start, previous = some start → q.asksFor env start q.start e = false := by
    intro e he f hf hle
    let q' : TopNDruidQuery := { q with limit := min q.limit maxCsvRows }
    obtain ⟨r₁, hr₁, row₁, hrow₁, hcurrent₁, hprevious₁⟩ :=
      execute_presence (q := q') (f := f) hprecision hf hle hprevious emptyStore
    obtain ⟨r₂, hr₂, row₂, hrow₂, hcurrent₂, hprevious₂⟩ :=
      execute_presence (q := q') (f := f) hprecision hf hle hprevious (only 0 e)
    have heq := h presenceEngine lookupBackend _ _ (sameFor_only he 0)
    rw [respond_of_authorized hauth, respond_of_authorized hauth] at heq
    simp only [view, q', hr₁, hr₂, raises, Except.mapError, ok_bind, pure_eq_ok, View.response,
      Response.csv.injEq] at heq
    rw [heq.2, hrow₂] at hrow₁
    cases hrow₁
    rw [hcurrent₁, presence_empty, presence_only] at hcurrent₂
    refine ⟨?_, fun start hstart => ?_⟩
    · simpa [q'] using hcurrent₂
    · have hcount := (hprevious₁ start hstart).symm.trans (hprevious₂ start hstart)
      rw [presence_empty, presence_only] at hcount
      simpa [q'] using hcount
  constructor
  · refine confined_of fun e he f hf hlt hasks => ?_
    rw [(hsame e he f hf hlt.le).1] at hasks
    cases hasks
  · rintro start rfl
    refine confined_of fun e he f hf hlt hasks => ?_
    have hle : q.start ≤ q.end_ := by
      rw [TopNDruidQuery.previousStart_eq hprevious] at hlt
      exact (sub_pos.mp ((sub_lt_self_iff _).mp hlt)).le
    rw [(hsame e he f hf hle).2 start rfl] at hasks
    cases hasks

/-- **Which requests leak nothing of the events a user may not see.** For a user whose ability to view events by
action is `a`, the response to a request is the same from any two stores that hold the same events for the
allowed action names, if and only if the request is refused or, in a view that does not pass the ability's filter
to its query, asks for no event of another action name. -/
theorem nonInterfering_iff (ha : Ability.getAbility user.canViewEventsByAction = .ok (some a)) (request : Request) :
    NonInterfering env user a request ↔ (authorize user request = .ok () → request.Confined env a) := by
  constructor
  · intro h hauth
    cases request with
    | topn q => trivial
    | scan q => trivial
    | groupbyCount q => exact confined_groupbyCount hauth h
    | timeseries q => exact confined_timeseries hauth h
    | topnCsv q => exact fun hprecision _ hprevious => confined_topnCsv hauth h hprecision hprevious
    | event id => exact confined_event hauth h
  · intro h druid backend s t hsame
    cases hauth : authorize user request with
    | error response => simp only [respond, hauth, error_bind]
    | ok u => rw [respond_of_authorized hauth, respond_of_authorized hauth, view_eq ha hsame (h hauth)]

end

/-! ## A time series of events that may not be seen -/

/-- A user who may see the events of every entity, but those of `guild_joined` only. -/
def guildUser : User :=
  ⟨"local-dev@localhost", [.all], [.specific ["guild_joined"] (by simp)], []⟩

/-- A worker without features, whose queries are all refused. -/
def plainEnv : Env where
  transformQuery _ := .error ⟨.other, ""⟩
  featureNameToEntityType := []
  otherFilters _ _ := false
  now := 0
  setOrder keys := keys
  setOrder_perm := .refl

def firstSecond : BaseDruidQuery := ⟨0, seconds 1, "", none, ""⟩

def dmSent : Event := ⟨"dm_sent", 0, fun _ => .none, ⟨none, none, 0, none⟩⟩

def guildJoined : Ability String := .specific ["guild_joined"] (by simp)

theorem nonInterfering_topn_guildUser :
    Ability.getAbility guildUser.canViewEventsByAction = .ok (some guildJoined) ∧
      NonInterfering plainEnv guildUser guildJoined (.topn ⟨firstSecond, "UserId", 100, 0⟩) :=
  ⟨rfl, (nonInterfering_iff rfl _).mpr fun _ => trivial⟩

/-- The stores differ in an event the user may not see, and the time series tells. -/
theorem timeseries_tells_dmSent :
    Ability.getAbility guildUser.canViewEventsByAction = .ok (some guildJoined) ∧
      SameFor guildJoined emptyStore (only 0 dmSent) ∧
      respond plainEnv presenceEngine lookupBackend guildUser (.timeseries ⟨firstSecond, "hour", none⟩) emptyStore ≠
        respond plainEnv presenceEngine lookupBackend guildUser (.timeseries ⟨firstSecond, "hour", none⟩)
          (only 0 dmSent) := by
  refine ⟨rfl, sameFor_only (by decide) 0, ?_⟩
  have hempty : respond plainEnv presenceEngine lookupBackend guildUser (.timeseries ⟨firstSecond, "hour", none⟩)
      emptyStore = .timeseries (.leaf (.int 1)) := rfl
  have honly : respond plainEnv presenceEngine lookupBackend guildUser (.timeseries ⟨firstSecond, "hour", none⟩)
      (only 0 dmSent) = .timeseries (.leaf (.int 2)) := rfl
  rw [hempty, honly]
  simp

end Osprey.UiApi
