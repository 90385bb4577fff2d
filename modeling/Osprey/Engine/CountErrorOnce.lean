/-
`count_error_once`: who is told of a failed request. `get` stores `None` for
everybody else and raises. `get_without_cache` and `batch_get` store the
exception, so that whoever reads the entry later is told again.

The state of the accessor does not say whose request stored what. A ledger beside
it does: the calls are numbered, and for each result it has the call whose request
stored its exception, or left `None` in it. The ledger only watches. A failed request
is counted once in every run exactly if only requests of `get` may fail.
-/
import Osprey.Engine.ExternalServiceGreenlets
import Osprey.Lib.Run

namespace Osprey.ExternalService.Greenlets

variable {κ ν α : Type*}

/-- What `batch_get` puts into its list for a result: the exception, or else the value. -/
def AsyncResult.outcome? (a : AsyncResult ν) : Option (Except Exc ν) :=
  match a.exception, a.value with
  | some e, _ => some (.error e)
  | none, some v => some (.ok v)
  | none, none => none

/-- A value or an exception that is stored. -/
def AsyncResult.Tells (a : AsyncResult ν) : Except Exc ν → Prop
  | .ok v => a.value = some v
  | .error _ => a.exception.isSome = true

theorem AsyncResult.tells_get : ∀ {a : AsyncResult ν} {outcome}, a.get = some outcome → a.Tells outcome
  | ⟨some _, _⟩, _, rfl => rfl
  | ⟨none, some _⟩, _, rfl => rfl

theorem AsyncResult.tells_outcome? : ∀ {a : AsyncResult ν} {outcome}, a.outcome? = some outcome → a.Tells outcome
  | ⟨_, some _⟩, _, rfl => rfl
  | ⟨some _, none⟩, _, rfl => rfl

def Event.caller : Event κ ν → CallerId
  | .get c .. | .getWithoutCache c .. | .batchGet c .. | .complete c .. | .completeBatch c .. | .wake c => c

def Event.begins : Event κ ν → Bool
  | .get .. | .getWithoutCache .. | .batchGet .. => true
  | _ => false

inductive Requester
  | get
  | getWithoutCache
  | batchGet

variable {r : Nat}

namespace State

/-! ## What a step stores and reads -/

def resultsOf (s : State κ ν) (keys : List κ) : List Nat := keys.filterMap fun key => (s.cache key).map Entry.result

def failedKeys (keys : List κ) (results : List (Except Exc ν)) : List κ :=
  ((keys.zip results).filter fun p => !p.2.isOk).map Prod.fst

def okKeys (keys : List κ) (results : List (Except Exc ν)) : List κ :=
  ((keys.zip results).filter fun p => p.2.isOk).map Prod.fst

def batchFailures (s : State κ ν) (keys : List κ) : Except Exc (List (Except Exc ν)) → List Nat
  | .error _ => s.resultsOf keys
  | .ok results =>
    s.resultsOf (failedKeys keys results) ++ if results.length < keys.length then s.resultsOf keys else []

def batchValues (s : State κ ν) (keys : List κ) : Except Exc (List (Except Exc ν)) → List Nat
  | .error _ => []
  | .ok results => s.resultsOf (okKeys keys results)

/-- The results in which a step stores an exception, with `count_error_once`. -/
def failures (s : State κ ν) : Event κ ν → List Nat
  | .complete c (.error _) => match s.callers c with
    | .requesting .getWithoutCache r => [r]
    | _ => []
  | .completeBatch c outcome => match s.callers c with
    | .requestingBatch _ nonCachedKeys => s.batchFailures nonCachedKeys outcome
    | _ => []
  | _ => []

/-- The results in which a step stores a value of the service. -/
def values (s : State κ ν) : Event κ ν → List Nat
  | .complete c (.ok _) => match s.callers c with
    | .requesting _ r => [r]
    | _ => []
  | .completeBatch c outcome => match s.callers c with
    | .requestingBatch _ nonCachedKeys => s.batchValues nonCachedKeys outcome
    | _ => []
  | _ => []

/-- The result in which `get` stores `None` after an exception. -/
def fallback (s : State κ ν) : Event κ ν → Option Nat
  | .complete c (.error _) => match s.callers c with
    | .requesting .get r => some r
    | _ => none
  | _ => none

/-- The results that `collect` goes through, with what it puts into the list. -/
def collected (s : State κ ν) : List κ → List (Nat × Except Exc ν)
  | [] => []
  | key :: rest => match s.cache key with
    | none => []
    | some e => match (s.results e.result).outcome? with
      | none => []
      | some outcome => (e.result, outcome) :: s.collected rest

/-- The result read by `AsyncResult.get`, if it is set. -/
def got (s : State κ ν) (r : Nat) : List (Nat × Except Exc ν) := ((s.results r).get.map (r, ·)).toList

/-- The results that the caller reads in a step from `s` to `s'`, with what it is told. -/
def reads (s s' : State κ ν) : Event κ ν → List (Nat × Except Exc ν)
  | .get c key now => match s.cache key with
    | some e => if (s.callers c).isFree && !isPastCacheExpiration e.expiration now then s'.got e.result else []
    | none => []
  | .getWithoutCache .. => []
  | .batchGet c keys now =>
    if (s.callers c).isFree && (keys.filter (s.notCached now)).isEmpty then s'.collected keys else []
  | .complete c _ => match s.callers c with
    | .requesting .getWithoutCache r => s'.got r
    | _ => []
  | .completeBatch c _ => match s.callers c with
    | .requestingBatch keys _ => s'.collected keys
    | _ => []
  | .wake c => match s.callers c with
    | .waiting r => s'.got r
    | .collecting r rest _ => match (s.results r).get with
      | some (.ok _) => s'.got r ++ s'.collected rest
      | _ => s'.got r
    | _ => []

variable {s : State κ ν} {keys : List κ}

/-! ## What is read was stored -/

/-- What a caller is told of a result is in it. -/
def Tells (s : State κ ν) (p : Nat × Except Exc ν) : Prop := (s.results p.1).Tells p.2

variable {p : Nat × Except Exc ν}

theorem tells_got (h : p ∈ s.got r) : s.Tells p := by
  simp only [got, Option.mem_toList, Option.map_eq_some_iff] at h
  obtain ⟨outcome, hget, rfl⟩ := h
  exact AsyncResult.tells_get hget

theorem tells_collected (h : p ∈ s.collected keys) : s.Tells p := by
  fun_induction collected s keys with
  | case1 | case2 | case3 => cases h
  | case4 key rest entry _ outcome hentry ih =>
    rcases List.mem_cons.mp h with rfl | h
    · exact AsyncResult.tells_outcome? hentry
    · exact ih h

variable {s' : State κ ν}

theorem tells_reads {event} (h : p ∈ s.reads s' event) : s'.Tells p := by
  revert h
  fun_cases reads s s' event with
  | case1 | case7 | case11 | case13 => exact tells_got
  | case5 | case9 => exact tells_collected
  | case12 => exact fun h => (List.mem_append.mp h).elim tells_got tells_collected
  | _ => exact fun h => absurd h List.not_mem_nil

/-! ## What a step stores when no other request fails -/

theorem results_store (s : State κ ν) (r r' : Nat) (outcome : Except Exc ν) :
    (s.store r outcome).results r' = if r' = r then (s.results r).store outcome else s.results r' :=
  Function.update_apply ..

/-- Only values are stored, in these results. -/
structure StoresValues (s s' : State κ ν) (rs : List Nat) : Prop where
  exception : ∀ r, (s'.results r).exception = (s.results r).exception
  value : ∀ r, r ∉ rs → (s'.results r).value = (s.results r).value

theorem storesValues_store (s : State κ ν) (r : Nat) (v : ν) : StoresValues s (s.store r (.ok v)) [r] := by
  refine ⟨fun r' => ?_, fun r' hr => ?_⟩
  · rw [results_store]
    split
    next hr => rw [hr]; rfl
    next => rfl
  · rw [results_store, if_neg fun h => hr (List.mem_singleton.mpr h)]

theorem storesValues_storeByKey (s : State κ ν) (key : κ) (v : ν) :
    StoresValues s (s.storeByKey key (.ok v)) (s.resultsOf [key]) := by
  unfold storeByKey resultsOf
  cases hcache : s.cache key with
  | none => exact ⟨fun _ => rfl, fun _ _ => rfl⟩
  | some e => simpa [hcache] using s.storesValues_store e.result v

def Answers (keys : List κ) : Except Exc (List (Except Exc ν)) → Prop
  | .error _ => False
  | .ok results => keys.length ≤ results.length ∧ ∀ p ∈ keys.zip results, p.2.isOk = true

theorem storesValues_storeResults {results : List (Except Exc ν)} (h : Answers keys (.ok results)) :
    (s.storeResults keys results).2 = none ∧
      StoresValues s (s.storeResults keys results).1 (s.resultsOf (okKeys keys results)) := by
  induction keys generalizing s results with
  | nil => exact ⟨rfl, fun _ => rfl, fun _ _ => rfl⟩
  | cons key keys ih =>
    obtain ⟨hlength, hall⟩ := h
    match results with
    | [] => simp at hlength
    | .error e :: results => cases (List.forall_mem_cons.mp hall).1
    | .ok v :: results =>
      have hstored := s.storesValues_storeByKey key v
      have hcache : (s.storeByKey key (.ok v)).cache = s.cache := (s.stores_storeByKey key _).cache
      have hanswers : Answers keys (.ok results) := ⟨by simpa using hlength, (List.forall_mem_cons.mp hall).2⟩
      obtain ⟨hnone, hrest⟩ := ih (s := s.storeByKey key (.ok v)) hanswers
      refine ⟨hnone, fun r => (hrest.exception r).trans (hstored.exception r), fun r hr => ?_⟩
      have hkeys : s.resultsOf (okKeys (key :: keys) (.ok v :: results)) =
          s.resultsOf [key] ++ s.resultsOf (okKeys keys results) :=
        List.filterMap_append (l := [key])
      rw [hkeys, List.mem_append, not_or] at hr
      have hr' : r ∉ (s.storeByKey key (.ok v)).resultsOf (okKeys keys results) := by
        rw [resultsOf, hcache]
        exact hr.2
      exact (hrest.value r hr').trans (hstored.value r hr.1)

theorem storesValues_storeBatch {outcome} (h : Answers keys outcome) :
    StoresValues s (s.storeBatch keys outcome) (s.batchValues keys outcome) := by
  cases outcome with
  | error e => exact h.elim
  | ok results =>
    obtain ⟨hnone, hstored⟩ := storesValues_storeResults (s := s) h
    have hbatch : s.storeBatch keys (.ok results) = (s.storeResults keys results).1 := by
      simp only [storeBatch]
      rcases hres : s.storeResults keys results with ⟨s', _ | e⟩
      · rfl
      · rw [hres] at hnone
        cases hnone
    rw [hbatch]
    exact hstored

theorem results_newEntries [DecidableEq κ] (s : State κ ν) (ttl : Option TimeDelta) (now : Time) (keys : List κ)
    (r : Nat) :
    (s.newEntries ttl now keys).results r = {} ∨ (s.newEntries ttl now keys).results r = s.results r := by
  induction keys generalizing s with
  | nil => exact .inr rfl
  | cons key keys ih =>
    rcases ih (s.newEntry ttl now key) with h | h
    · exact .inl h
    · by_cases hr : r = s.fresh
      · refine .inl (h.trans ?_)
        simp [newEntry, hr]
      · refine .inr (h.trans ?_)
        simp [newEntry, hr]

/-- The request of a method fails in the step. That of `batch_get` fails if there is no value for some key. -/
def Fails (s : State κ ν) : Requester → Event κ ν → Prop
  | .get, .complete c (.error _) => ∃ r, s.callers c = .requesting .get r
  | .getWithoutCache, .complete c (.error _) => ∃ r, s.callers c = .requesting .getWithoutCache r
  | .batchGet, .completeBatch c outcome =>
    ∃ keys nonCachedKeys, s.callers c = .requestingBatch keys nonCachedKeys ∧ ¬Answers nonCachedKeys outcome
  | _, _ => False

/-- No request fails in the step but one of these methods. -/
def FailsOnly (mayFail : Requester → Prop) (s : State κ ν) (event : Event κ ν) : Prop :=
  ∀ method, s.Fails method event → mayFail method

theorem failsOnly_of_begins {mayFail : Requester → Prop} {s : State κ ν} {event : Event κ ν}
    (hbegins : event.begins = true) : s.FailsOnly mayFail event := by
  intro method hfails
  cases event with
  | get | getWithoutCache | batchGet => cases method <;> cases hfails
  | complete | completeBatch | wake => cases hbegins

/-- What a step from `s` to `s'` does to the results. -/
structure Effect (s s' : State κ (Option α)) (event : Event κ (Option α)) : Prop where
  exception : ∀ r, (s.results r).exception = none → (s'.results r).exception = none
  value : ∀ r, r < s.fresh → s.fallback event ≠ some r → r ∉ s.values event → (s'.results r).value = (s.results r).value
  fallback : ∀ r, s.fallback event = some r → (s'.results r).value = some none

section

variable {s : State κ (Option α)} {event : Event κ (Option α)} {c : CallerId}

theorem effect_goTo {s₁ : State κ (Option α)} (hresults : ∀ r, s₁.results r = {} ∨ s₁.results r = s.results r)
    (hkept : ∀ r, r < s.fresh → s₁.results r = s.results r) (hfallback : s.fallback event = none)
    (call : Call κ (Option α)) : Effect s (s₁.goTo c call) event where
  exception r h := by
    rcases hresults r with hr | hr
    · rw [goTo_results, hr]
    · rw [goTo_results, hr, h]
  value r hr _ _ := by rw [goTo_results, hkept r hr]
  fallback r h := by
    rw [hfallback] at h
    cases h

theorem Effect.refl (hfallback : s.fallback event = none) : Effect s s event :=
  ⟨fun _ h => h, fun _ _ _ _ => rfl, fun r h => by rw [hfallback] at h; cases h⟩

theorem StoresValues.effect {s' : State κ (Option α)} {rs} (h : StoresValues s s' rs) (call : Call κ (Option α))
    (hrs : ∀ r ∈ rs, s.fallback event = some r ∨ r ∈ s.values event)
    (hfallback : ∀ r, s.fallback event = some r → (s'.results r).value = some none) :
    Effect s (s'.goTo c call) event where
  exception r hr := (h.exception r).trans hr
  value r _ hno hnot := h.value r fun hmem => (hrs r hmem).elim hno hnot
  fallback := hfallback

theorem effect_finish {method} (hcall : s.callers c = .requesting method r) (outcome : Except Exc (Option α))
    (honly : s.FailsOnly (· = .get) (.complete c outcome)) :
    Effect s (s.finish (some none) c r outcome method) (.complete c outcome) := by
  cases outcome with
  | ok v =>
    have heffect : ∀ returned, Effect s ((s.store r (.ok v)).goTo c (.returned returned)) (.complete c (.ok v)) :=
      fun _ => (s.storesValues_store r v).effect _ (fun r' hr => .inr (by simpa [values, hcall] using hr)) nofun
    cases method <;> exact heffect _
  | error e =>
    cases method with
    | getWithoutCache => cases honly .getWithoutCache ⟨r, hcall⟩
    | get =>
      have hfallback : s.fallback (.complete c (.error e)) = some r := by simp [State.fallback, hcall]
      refine (s.storesValues_store r none).effect _ (fun r' hr => .inl ?_) fun r' hr => ?_
      · rw [hfallback, List.mem_singleton.mp hr]
      · rw [hfallback] at hr
        cases hr
        rw [results_store, if_pos rfl]
        rfl

variable [DecidableEq κ] (ttl : Option TimeDelta)

theorem effect_begin (event : Event κ (Option α)) (hfallback : s.fallback event = none) (now : Time) (keys : List κ)
    (call : Call κ (Option α)) : Effect s ((s.newEntries ttl now keys).goTo c call) event :=
  effect_goTo (s.results_newEntries ttl now keys) (s.newEntries_makes ttl now keys).results hfallback call

/-- **What a step does to the results** when no request but one of `get` fails. -/
theorem effect_next (s : State κ (Option α)) (event : Event κ (Option α)) (honly : s.FailsOnly (· = .get) event) :
    Effect s (next ttl (some none) s event) event := by
  fun_cases next ttl (some none) s event with
  | case2 c key now | case3 c key now => exact effect_begin ttl (.get c key now) rfl now [key] _
  | case4 c key now | case5 c key now => exact effect_begin ttl (.get c key now) rfl now [] _
  | case7 c key now => exact effect_begin ttl (.getWithoutCache c key now) rfl now [key] _
  | case9 c keys now => exact effect_begin ttl (.batchGet c keys now) rfl now [] _
  | case10 c keys now => exact effect_begin ttl (.batchGet c keys now) rfl now _ _
  | case11 c outcome method r hcall => exact effect_finish hcall outcome honly
  | case12 c outcome hcall =>
    refine .refl ?_
    cases outcome with
    | ok v => rfl
    | error e =>
      cases hcaller : s.callers c with
      | requesting method r => exact absurd hcaller (hcall method r)
      | _ => simp only [State.fallback, hcaller]
  | case13 c outcome keys nonCachedKeys hcall =>
    have hanswers : Answers nonCachedKeys outcome := by
      by_contra hfails
      cases honly .batchGet ⟨keys, nonCachedKeys, hcall, hfails⟩
    exact (storesValues_storeBatch hanswers).effect _
      (fun r hr => .inr (by simpa only [values, hcall] using hr)) fun r hr => by cases hr
  | case16 | case18 | case19 => exact effect_goTo (fun _ => .inr rfl) (fun _ _ => rfl) rfl _
  | _ => exact .refl rfl

end

end State

/-! ## The ledger -/

/-- A call, by its caller and its number among the calls of this caller. A call makes at most one request. -/
abbrev CallNo := CallerId × Nat

/-- Somebody is told the outcome of a request that failed. -/
structure Delivery (α : Type*) where
  request : CallNo
  receiver : CallNo
  outcome : Except Exc (Option α)

/-- Only the call whose request failed is told of the exception, and the others are told `None`. -/
def Delivery.CountsOnce (d : Delivery α) : Prop := d.receiver ≠ d.request → d.outcome = .ok none

/-- The accessor of a service with `count_error_once`; how many calls each caller has begun; and for each result the
call whose request stored its exception, and the call whose failed request left `None` in it. -/
structure Ledger (κ α : Type*) where
  state : State κ (Option α) := .initial
  calls : CallerId → Nat := fun _ => 0
  failedBy : Nat → CallNo := fun _ => (0, 0)
  noneFor : Nat → Option CallNo := fun _ => none

namespace Ledger

section

variable [DecidableEq κ] (ttl : Option TimeDelta)

def callsAfter (l : Ledger κ α) (event : Event κ (Option α)) : CallerId → Nat :=
  if event.begins && (l.state.callers event.caller).isFree then
    Function.update l.calls event.caller (l.calls event.caller + 1)
  else l.calls

def callOf (l : Ledger κ α) (event : Event κ (Option α)) : CallNo := (event.caller, l.callsAfter event event.caller)

def next (l : Ledger κ α) (event : Event κ (Option α)) : Ledger κ α where
  state := Greenlets.next ttl (some none) l.state event
  calls := l.callsAfter event
  failedBy r := if r ∈ l.state.failures event then l.callOf event else l.failedBy r
  noneFor r :=
    if l.state.fallback event = some r then some (l.callOf event)
    else if r ∈ l.state.values event ∨ l.state.fresh ≤ r then none
    else l.noneFor r

/-- The delivery to a call that is told something of a result, if that comes from a request that failed. -/
def serve (l : Ledger κ α) (receiver : CallNo) (p : Nat × Except Exc (Option α)) : Option (Delivery α) :=
  match p.2 with
  | .error e => some ⟨l.failedBy p.1, receiver, .error e⟩
  | .ok v => (l.noneFor p.1).map (⟨·, receiver, .ok v⟩)

def raised (l : Ledger κ α) : Event κ (Option α) → List (Delivery α)
  | .complete c (.error e) => match l.state.callers c with
    | .requesting .get _ => [⟨l.callOf (.complete c (.error e)), l.callOf (.complete c (.error e)), .error e⟩]
    | _ => []
  | _ => []

/-- Everything that a step tells of requests that failed. -/
def deliveries (l : Ledger κ α) (event : Event κ (Option α)) : List (Delivery α) :=
  l.raised event ++
    (l.state.reads (l.next ttl event).state event).filterMap ((l.next ttl event).serve (l.callOf event))

/-- The step tells nobody else of an exception. -/
def CountsErrorOnce (l : Ledger κ α) (event : Event κ (Option α)) : Prop :=
  ∀ d ∈ l.deliveries ttl event, d.CountsOnce

end

/-! ## Runs in which only requests of `get` fail -/

/-- No exception is stored, and what the ledger calls `None` is `None`. -/
structure Inv (l : Ledger κ α) : Prop where
  exception : ∀ r, (l.state.results r).exception = Option.none
  none : ∀ r q, l.noneFor r = some q → (l.state.results r).value = some none

theorem inv_initial : Inv ({} : Ledger κ α) := ⟨fun _ => rfl, nofun⟩

variable {l : Ledger κ α} {event : Event κ (Option α)} [DecidableEq κ] (ttl : Option TimeDelta)

theorem Inv.next (hi : Inv l) (honly : l.state.FailsOnly (· = .get) event) : Inv (l.next ttl event) := by
  have heffect := l.state.effect_next ttl event honly
  refine ⟨fun r => heffect.exception r (hi.exception r), fun r q hq => ?_⟩
  simp only [Ledger.next] at hq
  split at hq
  next hfallback => exact heffect.fallback r hfallback
  next hfallback =>
    split at hq
    · cases hq
    next hnew =>
      rw [not_or, not_le] at hnew
      exact (heffect.value r hnew.2 hfallback hnew.1).trans (hi.none r q hq)

theorem Inv.countsErrorOnce (hnext : Inv (l.next ttl event)) : l.CountsErrorOnce ttl event := by
  intro d hd hne
  rcases List.mem_append.mp hd with hd | hd
  · unfold raised at hd
    split at hd
    · split at hd
      · rw [List.mem_singleton.mp hd] at hne
        exact absurd rfl hne
      · cases hd
    · cases hd
  · obtain ⟨⟨r, outcome⟩, hp, hserve⟩ := List.mem_filterMap.mp hd
    have htells := State.tells_reads hp
    cases outcome with
    | error e =>
      have hsome : ((l.next ttl event).state.results r).exception.isSome = true := htells
      rw [hnext.exception r] at hsome
      cases hsome
    | ok v =>
      obtain ⟨q, hq, rfl⟩ := Option.map_eq_some_iff.mp hserve
      have hvalue : ((l.next ttl event).state.results r).value = some v := htells
      rw [hnext.none r q hq] at hvalue
      exact congrArg Except.ok (Option.some.inj hvalue).symm

end Ledger

/-! ## Which requests may fail -/

section

variable [DecidableEq κ]

namespace Ledger

theorem mem_deliveries_get {l : Ledger κ α} {ttl : Option TimeDelta} {key : κ} {entry : Entry} {e : Exc} {c : CallerId}
    {now : Time} (hcache : l.state.cache key = some entry) (hvalid : isPastCacheExpiration entry.expiration now = false)
    (hresult : l.state.results entry.result = ⟨none, some e⟩) (hfree : (l.state.callers c).isFree = true) :
    ⟨l.failedBy entry.result, (c, l.calls c + 1), .error e⟩ ∈ l.deliveries ttl (.get c key now) := by
  simp [deliveries, raised, State.reads, State.got, Ledger.next, Greenlets.next, State.goTo, AsyncResult.get, serve,
    State.failures, callOf, callsAfter, Event.begins, Event.caller, hcache, hvalid, hresult, hfree]

/-- After these events the exception of caller 0 is stored for the key, and caller 1 is told of it. -/
theorem not_along_countsErrorOnce {ttl : Option TimeDelta} {key : κ} {e : Exc} {call answer : Event κ (Option α)}
    (h : let l := (({} : Ledger κ α).next ttl call).next ttl answer
      l.state.cache key = some ⟨0, getCacheExpirationDatetime ttl 0⟩ ∧ l.state.results 0 = ⟨none, some e⟩ ∧
        (l.state.callers 1).isFree = true ∧ l.failedBy 0 = (0, 1)) :
    ¬Lib.Along (Ledger.next ttl) (CountsErrorOnce ttl) ({} : Ledger κ α)
        [call, answer, .get 1 key (ttl.getD 0)] := by
  intro ⟨_, _, honce, _⟩
  obtain ⟨hcache, hresult, hfree, hfailedBy⟩ := h
  have hvalid : isPastCacheExpiration (getCacheExpirationDatetime ttl 0) (ttl.getD 0) = false := by
    cases ttl <;> simp [isPastCacheExpiration, getCacheExpirationDatetime]
  have hother := honce _ (mem_deliveries_get hcache hvalid hresult hfree)
  rw [hfailedBy] at hother
  exact absurd (hother (by simp)) nofun

end Ledger

open Ledger in
/-- **Errors are counted once exactly if only requests of `get` may fail.** Let the requests of some of the methods
fail, and those of the others not. In every run of any number of callers a failed request is an exception for the call
that made it and `None` for every other call, if and only if no method but `get` is among them. -/
theorem errors_counted_once_iff (ttl : Option TimeDelta) (key : κ) (mayFail : Requester → Prop) :
    (∀ events, Lib.Along (Ledger.next ttl) (fun l => l.state.FailsOnly mayFail) ({} : Ledger κ α) events →
      Lib.Along (Ledger.next ttl) (CountsErrorOnce ttl) ({} : Ledger κ α) events) ↔
    ∀ method, mayFail method → method = .get := by
  constructor
  · intro h method hmay
    -- The request of caller 0 fails, and caller 1 reads the exception.
    let e : Exc := ⟨.other, "timeout"⟩
    cases method with
    | get => rfl
    | getWithoutCache =>
      have hfails : Lib.Along (Ledger.next ttl) (fun l => l.state.FailsOnly mayFail) ({} : Ledger κ α)
          [.getWithoutCache 0 key 0, .complete 0 (.error e), .get 1 key (ttl.getD 0)] := by
        refine ⟨State.failsOnly_of_begins rfl, ?_, State.failsOnly_of_begins rfl, trivial⟩
        rintro (_ | _ | _) ⟨r, hcall⟩
        · simp [Ledger.next, Greenlets.next, State.request, State.goTo, State.initial, Call.isFree] at hcall
        · exact hmay
      refine absurd (h _ hfails) (not_along_countsErrorOnce (e := e) ?_)
      simp [Ledger.next, Greenlets.next, State.request, State.newEntry, State.goTo, State.finish, State.store,
        State.initial, Call.isFree, AsyncResult.store, AsyncResult.setException, State.failures, callOf, callsAfter,
        Event.begins, Event.caller]
    | batchGet =>
      have hfails : Lib.Along (Ledger.next ttl) (fun l => l.state.FailsOnly mayFail) ({} : Ledger κ α)
          [.batchGet 0 [key] 0, .completeBatch 0 (.error e), .get 1 key (ttl.getD 0)] := by
        refine ⟨State.failsOnly_of_begins rfl, ?_, State.failsOnly_of_begins rfl, trivial⟩
        rintro (_ | _ | _) hfails
        · exact hfails.elim
        · exact hfails.elim
        · exact hmay
      refine absurd (h _ hfails) (not_along_countsErrorOnce (e := e) ?_)
      simp [Ledger.next, Greenlets.next, List.filter_cons, State.notCached, State.newEntries, State.newEntry,
        State.goTo, State.storeBatch, State.storeAll, State.storeByKey, State.store, State.initial, Call.isFree,
        AsyncResult.store, AsyncResult.setException, State.failures, State.batchFailures, State.resultsOf, callOf,
        callsAfter, Event.begins, Event.caller]
  · intro honly events hrun
    have hstep : ∀ (l : Ledger κ α) event, Inv l → l.state.FailsOnly mayFail event →
        CountsErrorOnce ttl l event ∧ Inv (l.next ttl event) := by
      intro l event hi hfails
      have hnext := hi.next ttl fun method h => honly method (hfails method h)
      exact ⟨hnext.countsErrorOnce ttl, hnext⟩
    exact (Lib.Along.invariant hstep hrun inv_initial).1

/-- Two runs in which a call is told of the exception of another one's request: a `get` after a `get_without_cache` that
failed, and a second `batch_get` after one that failed. -/
theorem errors_counted_twice :
    let timeout : Exc := ⟨.other, "timeout"⟩
    ¬Lib.Along (Ledger.next none) (Ledger.CountsErrorOnce none) ({} : Ledger String Int)
        [.getWithoutCache 0 "a" 0, .complete 0 (.error timeout), .get 1 "a" 1] ∧
      ¬Lib.Along (Ledger.next none) (Ledger.CountsErrorOnce none) ({} : Ledger String Int)
        [.batchGet 0 ["a"] 0, .completeBatch 0 (.error timeout), .batchGet 0 ["a"] 1] := by
  constructor
  · intro ⟨_, _, h, _⟩
    cases h ⟨(0, 1), (1, 1), .error ⟨.other, "timeout"⟩⟩ List.mem_cons_self (by decide)
  · intro ⟨_, _, h, _⟩
    cases h ⟨(0, 1), (0, 2), .error ⟨.other, "timeout"⟩⟩ List.mem_cons_self (by decide)

end

end Osprey.ExternalService.Greenlets
