/-
`ExternalServiceAccessor` with any number of callers at once. A caller runs
without interruption until its service request is in flight or it waits on an
`AsyncResult`, so a step of the system is one such stretch of one caller.

The `AsyncResult` of a cache entry is set by the caller that created the
entry. `get` and `get_without_cache` keep hold of it; `batch_get` looks it up
again under its key when the request returns, and finds another one if the
entry was replaced in the meantime.
-/
import Osprey.Engine.ExternalService

namespace Osprey.ExternalService.Greenlets

variable {κ ν : Type*}

/-! ## States -/

/-- `gevent.event.AsyncResult`. `set` and `set_exception` may both happen, and each keeps
what the other stored. -/
structure AsyncResult (ν : Type*) where
  value : Option ν := none
  exception : Option Exc := none

namespace AsyncResult

def set (a : AsyncResult ν) (v : ν) : AsyncResult ν := { a with value := some v }

def setException (a : AsyncResult ν) (e : Exc) : AsyncResult ν := { a with exception := some e }

/-- `AsyncResult.get`: the value, or else the exception, which is raised; `none` when it has to wait. -/
def get (a : AsyncResult ν) : Option (Except Exc ν) :=
  match a.value, a.exception with
  | some v, _ => some (.ok v)
  | none, some e => some (.error e)
  | none, none => none

def ready (a : AsyncResult ν) : Bool := a.get.isSome

def store (a : AsyncResult ν) : Except Exc ν → AsyncResult ν
  | .ok v => a.set v
  | .error e => a.setException e

@[simp] theorem ready_store (a : AsyncResult ν) (outcome : Except Exc ν) : (a.store outcome).ready = true := by
  cases outcome with
  | ok v => rfl
  | error e => cases hv : a.value <;> simp [store, setException, ready, get, hv]

end AsyncResult

abbrev CallerId := Nat

/-- A cache entry: its `AsyncResult`, by its number, and its expiration. -/
structure Entry where
  result : Nat
  expiration : Option Time
  deriving DecidableEq, Repr

inductive Method
  | get
  | getWithoutCache
  deriving DecidableEq, Repr

inductive Call (κ ν : Type*)
  /-- Not in a call. -/
  | idle
  /-- The request of a method is in flight, for the entry it made with this result. -/
  | requesting (method : Method) (result : Nat)
  /-- The request of `batch_get(keys)` for the keys that were not cached is in flight. -/
  | requestingBatch (keys nonCachedKeys : List κ)
  /-- `get` waits on a cached result. -/
  | waiting (result : Nat)
  /-- `batch_get` waits on a cached result, with the keys that follow and the list so far. -/
  | collecting (result : Nat) (rest : List κ) (collected : List (Except Exc ν))
  /-- `get` or `get_without_cache` returned, or raised. -/
  | returned (outcome : Except Exc ν)
  /-- `batch_get` returned, or raised. -/
  | returnedBatch (outcome : Except Exc (List (Except Exc ν)))

/-- The `AsyncResult`s are numbered in the order they are made; `fresh` is the next number. -/
structure State (κ ν : Type*) where
  cache : κ → Option Entry
  results : Nat → AsyncResult ν
  fresh : Nat
  callers : CallerId → Call κ ν

/-- Nothing is cached and nobody calls. -/
def State.initial : State κ ν := ⟨fun _ => none, fun _ => {}, 0, fun _ => .idle⟩

/-- What can happen next: a call begins at the time `now`, the service answers
a request or raises, a caller goes on after its result was set. -/
inductive Event (κ ν : Type*)
  | get (c : CallerId) (key : κ) (now : Time)
  | getWithoutCache (c : CallerId) (key : κ) (now : Time)
  | batchGet (c : CallerId) (keys : List κ) (now : Time)
  | complete (c : CallerId) (outcome : Except Exc ν)
  | completeBatch (c : CallerId) (outcome : Except Exc (List (Except Exc ν)))
  | wake (c : CallerId)

/-! ## Steps -/

namespace State

def goTo (s : State κ ν) (c : CallerId) (call : Call κ ν) : State κ ν :=
  { s with callers := Function.update s.callers c call }

def store (s : State κ ν) (r : Nat) (outcome : Except Exc ν) : State κ ν :=
  { s with results := Function.update s.results r ((s.results r).store outcome) }

/-- `self._cache[key] = (AsyncResult(), self._get_cache_expiration_datetime())`. -/
def newEntry [DecidableEq κ] (s : State κ ν) (ttl : Option TimeDelta) (now : Time) (key : κ) : State κ ν :=
  { s with
    cache := Function.update s.cache key (some ⟨s.fresh, getCacheExpirationDatetime ttl now⟩)
    results := Function.update s.results s.fresh {}
    fresh := s.fresh + 1 }

def newEntries [DecidableEq κ] (s : State κ ν) (ttl : Option TimeDelta) (now : Time) : List κ → State κ ν
  | [] => s
  | key :: keys => (s.newEntry ttl now key).newEntries ttl now keys

def notCached (s : State κ ν) (now : Time) (key : κ) : Bool :=
  match s.cache key with
  | none => true
  | some e => isPastCacheExpiration e.expiration now

/-- `self._cache[key][0].set(...)`, or `set_exception(...)`. The cache has every key that was requested. -/
def storeByKey (s : State κ ν) (key : κ) (outcome : Except Exc ν) : State κ ν :=
  match s.cache key with
  | none => s
  | some e => s.store e.result outcome

/-- The same for all keys: `except Exception as e` of `batch_get`. -/
def storeAll (s : State κ ν) (e : Exc) : List κ → State κ ν
  | [] => s
  | key :: keys => (s.storeByKey key (.error e)).storeAll e keys

/-- The loop of `batch_get` over the results of the service, and the exception it ends with
when there are too few. -/
def storeResults (s : State κ ν) : List κ → List (Except Exc ν) → State κ ν × Option Exc
  | [], _ => (s, none)
  | _ :: _, [] => (s, some ⟨.indexError, "list index out of range"⟩)
  | key :: keys, outcome :: results => (s.storeByKey key outcome).storeResults keys results

/-- What `batch_get` does when its request completes. -/
def storeBatch (s : State κ ν) (nonCachedKeys : List κ) (outcome : Except Exc (List (Except Exc ν))) : State κ ν :=
  match outcome with
  | .error e => s.storeAll e nonCachedKeys
  | .ok results => match s.storeResults nonCachedKeys results with
    | (s', none) => s'
    | (s', some e) => s'.storeAll e nonCachedKeys

/-- The list that `batch_get` returns, up to the first result it has to wait on. -/
def collect (s : State κ ν) : List κ → List (Except Exc ν) → Call κ ν
  | [], collected => .returnedBatch (.ok collected)
  | key :: rest, collected => match s.cache key with
    | none => .returnedBatch (.error ⟨.keyError, ""⟩)
    | some entry => match (s.results entry.result).exception with
      | some e => s.collect rest (collected ++ [.error e])
      | none => match (s.results entry.result).value with
        | some v => s.collect rest (collected ++ [.ok v])
        | none => .collecting entry.result rest collected

def request [DecidableEq κ] (s : State κ ν) (ttl : Option TimeDelta) (c : CallerId) (key : κ) (now : Time)
    (method : Method) : State κ ν :=
  (s.newEntry ttl now key).goTo c (.requesting method s.fresh)

/-- The request of a method completes. After an exception `get` stores the value that
`count_error_once` asks for, if it does, and raises; `get_without_cache` stores the exception
and reads its result, which has a value if a `batch_get` has stored one there. -/
def finish (s : State κ ν) (noneOnError : Option ν) (c : CallerId) (r : Nat) (outcome : Except Exc ν) :
    Method → State κ ν
  | .get => match outcome, noneOnError with
    | .error e, some v => (s.store r (.ok v)).goTo c (.returned (.error e))
    | outcome, _ => (s.store r outcome).goTo c (.returned outcome)
  | .getWithoutCache =>
    (s.store r outcome).goTo c (.returned ((((s.store r outcome).results r).get).getD outcome))

end State

def Call.isFree : Call κ ν → Bool
  | .idle | .returned _ | .returnedBatch _ => true
  | _ => false

/-- One step. An event that does not fit the place of its caller does nothing. -/
def next [DecidableEq κ] (ttl : Option TimeDelta) (noneOnError : Option ν) (s : State κ ν) :
    Event κ ν → State κ ν
  | .get c key now =>
    if !(s.callers c).isFree then s
    else match s.cache key with
      | none => s.request ttl c key now .get
      | some e =>
        if isPastCacheExpiration e.expiration now then s.request ttl c key now .get
        else match (s.results e.result).get with
          | none => s.goTo c (.waiting e.result)
          | some outcome => s.goTo c (.returned outcome)
  | .getWithoutCache c key now =>
    if !(s.callers c).isFree then s else s.request ttl c key now .getWithoutCache
  | .batchGet c keys now =>
    if !(s.callers c).isFree then s
    else
      let nonCachedKeys := keys.filter (s.notCached now)
      if nonCachedKeys.isEmpty then s.goTo c (s.collect keys [])
      else (s.newEntries ttl now nonCachedKeys).goTo c (.requestingBatch keys nonCachedKeys)
  | .complete c outcome => match s.callers c with
    | .requesting method r => s.finish noneOnError c r outcome method
    | _ => s
  | .completeBatch c outcome => match s.callers c with
    | .requestingBatch keys nonCachedKeys =>
      (s.storeBatch nonCachedKeys outcome).goTo c ((s.storeBatch nonCachedKeys outcome).collect keys [])
    | _ => s
  | .wake c => match s.callers c with
    | .waiting r => match (s.results r).get with
      | none => s
      | some outcome => s.goTo c (.returned outcome)
    | .collecting r rest collected => match (s.results r).get with
      | none => s
      | some (.ok v) => s.goTo c (s.collect rest (collected ++ [.ok v]))
      | some (.error e) => s.goTo c (.returnedBatch (.error e))
    | _ => s

/-! ## Who waits, and who will set the result -/

def Call.waitsOn : Call κ ν → Option Nat
  | .waiting r | .collecting r _ _ => some r
  | _ => none

/-- The result that the caller sets when its request completes, if it keeps hold of one. -/
def Call.holds : Call κ ν → Option Nat
  | .requesting _ r => some r
  | _ => none

/-- The keys under which the caller looks up the results to set when its request completes. -/
def Call.batchKeys : Call κ ν → List κ
  | .requestingBatch _ nonCachedKeys => nonCachedKeys
  | _ => []

namespace State

def Blocked (s : State κ ν) (c : CallerId) (r : Nat) : Prop :=
  (s.callers c).waitsOn = some r ∧ (s.results r).ready = false

/-- A request of the caller is in flight, and if it completes now, it sets the result. -/
def WillSet (s : State κ ν) (c : CallerId) (r : Nat) : Prop :=
  (s.callers c).holds = some r ∨ ∃ key ∈ (s.callers c).batchKeys, ∃ e, s.cache key = some e ∧ e.result = r

/-- The keys whose entries a step makes anew. -/
def renewed (s : State κ ν) : Event κ ν → List κ
  | .get c key now => if (s.callers c).isFree && s.notCached now key then [key] else []
  | .getWithoutCache c key _ => if (s.callers c).isFree then [key] else []
  | .batchGet c keys now => if (s.callers c).isFree then keys.filter (s.notCached now) else []
  | _ => []

end State

/-! ## What a step can do -/

namespace State

structure Makes (s s' : State κ ν) (keys : List κ) : Prop where
  kept : ∀ key, key ∉ keys → s'.cache key = s.cache key
  made : ∀ key ∈ keys, ∃ e, s'.cache key = some e ∧ s.fresh ≤ e.result ∧ e.result < s'.fresh
  distinct : ∀ key ∈ keys, ∀ key' ∈ keys, ∀ e e', s'.cache key = some e → s'.cache key' = some e' →
    e.result = e'.result → key = key'
  results : ∀ r, r < s.fresh → s'.results r = s.results r
  fresh : s.fresh ≤ s'.fresh

/-- The caller makes new entries for the keys and its request for them is in flight. -/
structure Renews (s s' : State κ ν) (c : CallerId) (keys : List κ) : Prop extends Makes s s' keys where
  free : (s.callers c).isFree = true
  others : ∀ c', c' ≠ c → s'.callers c' = s.callers c'
  waits : (s'.callers c).waitsOn = none
  holds : ∀ r, (s'.callers c).holds = some r → s.fresh ≤ r ∧ r < s'.fresh
  willSet : ∀ key ∈ keys, ∀ e, s'.cache key = some e → s'.WillSet c e.result

/-- The call has no request in flight, and what it waits on is cached. -/
structure Settled (s : State κ ν) (call : Call κ ν) : Prop where
  holds : call.holds = none
  batchKeys : call.batchKeys = []
  waits : ∀ r, call.waitsOn = some r → ∃ key e, s.cache key = some e ∧ e.result = r

/-- The caller sets what its request was for, if it had one in flight, and goes on without one. -/
structure Settles (s s' : State κ ν) (c : CallerId) : Prop where
  others : ∀ c', c' ≠ c → s'.callers c' = s.callers c'
  cache : s'.cache = s.cache
  fresh : s'.fresh = s.fresh
  ready : ∀ r, (s.results r).ready = true → (s'.results r).ready = true
  sets : ∀ r, s.WillSet c r → (s'.results r).ready = true
  settled : Settled s' (s'.callers c)

variable (s : State κ ν)

@[simp] theorem goTo_cache (c : CallerId) (call : Call κ ν) : (s.goTo c call).cache = s.cache := rfl

@[simp] theorem goTo_results (c : CallerId) (call : Call κ ν) : (s.goTo c call).results = s.results := rfl

@[simp] theorem goTo_fresh (c : CallerId) (call : Call κ ν) : (s.goTo c call).fresh = s.fresh := rfl

@[simp] theorem goTo_callers_self (c : CallerId) (call : Call κ ν) : (s.goTo c call).callers c = call := by simp [goTo]

variable {c : CallerId}

theorem goTo_callers_of_ne {c'} (call : Call κ ν) (h : c' ≠ c) :
    (s.goTo c call).callers c' = s.callers c' := by simp [goTo, h]

variable (r : Nat) (outcome : Except Exc ν)

@[simp] theorem store_cache : (s.store r outcome).cache = s.cache := rfl

@[simp] theorem store_callers : (s.store r outcome).callers = s.callers := rfl

@[simp] theorem store_fresh : (s.store r outcome).fresh = s.fresh := rfl

@[simp] theorem ready_store_self : ((s.store r outcome).results r).ready = true := by simp [store]

theorem ready_store_of_ready {r'} (h : (s.results r').ready = true) :
    ((s.store r outcome).results r').ready = true := by
  by_cases hr : r' = r
  · rw [hr, ready_store_self]
  · simpa [store, hr] using h

/-- Only results change between the two states, and none is unset. -/
structure Stores (s s' : State κ ν) : Prop where
  cache : s'.cache = s.cache
  callers : s'.callers = s.callers
  fresh : s'.fresh = s.fresh
  ready : ∀ r, (s.results r).ready = true → (s'.results r).ready = true

theorem Stores.refl : Stores s s := ⟨rfl, rfl, rfl, fun _ h => h⟩

variable {s s' : State κ ν}

theorem Stores.trans {s''} (h : Stores s s') (h' : Stores s' s'') : Stores s s'' :=
  ⟨h'.cache.trans h.cache, h'.callers.trans h.callers, h'.fresh.trans h.fresh,
    fun r hr => h'.ready r (h.ready r hr)⟩

variable (s)

theorem stores_store : Stores s (s.store r outcome) :=
  ⟨rfl, rfl, rfl, fun _ h => s.ready_store_of_ready r outcome h⟩

theorem stores_storeByKey (key : κ) (outcome : Except Exc ν) : Stores s (s.storeByKey key outcome) := by
  unfold storeByKey
  split
  · exact .refl s
  · exact s.stores_store _ outcome

variable {e : Entry} {key : κ}

theorem ready_storeByKey (h : s.cache key = some e) (outcome : Except Exc ν) :
    ((s.storeByKey key outcome).results e.result).ready = true := by
  simp [storeByKey, h]

theorem stores_storeAll (exc : Exc) (keys : List κ) : Stores s (s.storeAll exc keys) := by
  induction keys generalizing s with
  | nil => exact .refl s
  | cons key keys ih => exact (s.stores_storeByKey key _).trans (ih _)

variable {keys : List κ}

theorem ready_storeAll (exc : Exc) (hkey : key ∈ keys) (h : s.cache key = some e) :
    ((s.storeAll exc keys).results e.result).ready = true := by
  induction keys generalizing s with
  | nil => cases hkey
  | cons k keys ih =>
    rcases List.mem_cons.mp hkey with rfl | hkey
    · exact (stores_storeAll _ exc keys).ready _ (s.ready_storeByKey h _)
    · exact ih _ hkey (by rw [(s.stores_storeByKey k _).cache, h])

theorem stores_storeResults (keys : List κ) (results : List (Except Exc ν)) :
    Stores s (s.storeResults keys results).1 := by
  induction keys generalizing s results with
  | nil => exact .refl s
  | cons key keys ih =>
    cases results with
    | nil => exact .refl s
    | cons outcome results => exact (s.stores_storeByKey key outcome).trans (ih _ results)

theorem ready_storeResults {results} (hnone : (s.storeResults keys results).2 = none) (hkey : key ∈ keys)
    (h : s.cache key = some e) : ((s.storeResults keys results).1.results e.result).ready = true := by
  induction keys generalizing s results with
  | nil => cases hkey
  | cons k keys ih =>
    cases results with
    | nil => simp [storeResults] at hnone
    | cons outcome results =>
      rcases List.mem_cons.mp hkey with rfl | hkey
      · exact (stores_storeResults _ keys results).ready _ (s.ready_storeByKey h outcome)
      · exact ih _ hnone hkey (by rw [(s.stores_storeByKey k outcome).cache, h])

theorem stores_storeBatch (keys : List κ) (outcome : Except Exc (List (Except Exc ν))) :
    Stores s (s.storeBatch keys outcome) := by
  cases outcome with
  | error e => exact s.stores_storeAll e keys
  | ok results =>
    have hs := s.stores_storeResults keys results
    rcases hres : s.storeResults keys results with ⟨s', _ | e⟩ <;> simp only [storeBatch, hres] at hs ⊢
    · exact hs
    · exact hs.trans (stores_storeAll _ e keys)

theorem ready_storeBatch (outcome : Except Exc (List (Except Exc ν))) (hkey : key ∈ keys) (h : s.cache key = some e) :
    ((s.storeBatch keys outcome).results e.result).ready = true := by
  cases outcome with
  | error exc => exact s.ready_storeAll exc hkey h
  | ok results =>
    rcases hres : s.storeResults keys results with ⟨s', _ | exc⟩ <;> simp only [storeBatch, hres]
    · have hr := s.ready_storeResults (by rw [hres]) hkey h
      rwa [hres] at hr
    · have hs := s.stores_storeResults keys results
      rw [hres] at hs
      exact s'.ready_storeAll exc hkey (by rw [hs.cache, h])

variable {s}

theorem Makes.goTo (h : Makes s s' keys) (c : CallerId) (call : Call κ ν) :
    Makes s (s'.goTo c call) keys := ⟨h.kept, h.made, h.distinct, h.results, h.fresh⟩

theorem Makes.cons {s₁} (h₁ : Makes s s₁ [key]) (h : Makes s₁ s' keys) : Makes s s' (key :: keys) := by
  -- The entry of the first key is the one made first, unless the key comes again.
  have first : key ∉ keys → ∃ e, s'.cache key = some e ∧ s.fresh ≤ e.result ∧ e.result < s₁.fresh := by
    intro hkey
    rw [h.kept key hkey]
    exact h₁.made key (by simp)
  have later : ∀ k ∈ keys, ∀ e, s'.cache k = some e → s₁.fresh ≤ e.result := by
    intro k hk e he
    obtain ⟨e', he', hle, -⟩ := h.made k hk
    rw [he] at he'
    cases he'
    exact hle
  have hf₁ := h₁.fresh
  have hf := h.fresh
  refine ⟨?_, ?_, ?_, ?_, Nat.le_trans hf₁ hf⟩
  · intro k hk
    rw [List.mem_cons, not_or] at hk
    rw [h.kept k hk.2, h₁.kept k (by simpa using hk.1)]
  · intro k hk
    by_cases hmem : k ∈ keys
    · obtain ⟨e, he, hle, hlt⟩ := h.made k hmem
      exact ⟨e, he, by omega, hlt⟩
    · obtain rfl : k = key := by simpa [hmem] using hk
      obtain ⟨e, he, hle, hlt⟩ := first hmem
      exact ⟨e, he, hle, by omega⟩
  · intro k hk k' hk' e e' he he' heq
    by_cases hmem : k ∈ keys <;> by_cases hmem' : k' ∈ keys
    · exact h.distinct k hmem k' hmem' e e' he he' heq
    · obtain rfl : k' = key := by simpa [hmem'] using hk'
      obtain ⟨e₁, he₁, -, hlt⟩ := first hmem'
      rw [he'] at he₁
      cases he₁
      have := later k hmem e he
      omega
    · obtain rfl : k = key := by simpa [hmem] using hk
      obtain ⟨e₁, he₁, -, hlt⟩ := first hmem
      rw [he] at he₁
      cases he₁
      have := later k' hmem' e' he'
      omega
    · rw [List.mem_cons] at hk hk'
      exact (hk.resolve_right hmem).trans (hk'.resolve_right hmem').symm
  · intro r hr
    rw [h.results r (by omega), h₁.results r hr]

section

variable [DecidableEq κ] (ttl : Option TimeDelta) (noneOnError : Option ν)

theorem newEntry_makes (s : State κ ν) (now : Time) (key : κ) : Makes s (s.newEntry ttl now key) [key] where
  kept k hk := by simp_all [newEntry]
  made k hk := by simp_all [newEntry]
  distinct k hk k' hk' _ _ _ _ _ := by simp_all
  results r hr := by simp [newEntry, Nat.ne_of_lt hr]
  fresh := Nat.le_succ _

theorem newEntries_makes (s : State κ ν) (now : Time) (keys : List κ) : Makes s (s.newEntries ttl now keys) keys := by
  induction keys generalizing s with
  | nil => exact ⟨fun _ _ => rfl, nofun, nofun, fun _ _ => rfl, le_rfl⟩
  | cons key keys ih => exact (s.newEntry_makes ttl now key).cons (ih _)

@[simp] theorem newEntries_callers (s : State κ ν) (now : Time) (keys : List κ) :
    (s.newEntries ttl now keys).callers = s.callers := by
  induction keys generalizing s with
  | nil => rfl
  | cons key keys ih => exact ih _

theorem request_renews (h : (s.callers c).isFree = true) (key : κ) (now : Time)
    (method : Method) : Renews s (s.request ttl c key now method) c [key] where
  toMakes := (s.newEntry_makes ttl now key).goTo c _
  free := h
  others _ hne := goTo_callers_of_ne _ _ hne
  waits := by simp [request, Call.waitsOn]
  holds r hr := by
    obtain rfl : s.fresh = r := by simpa [request, Call.holds] using hr
    exact ⟨le_rfl, Nat.lt_succ_self _⟩
  willSet k hk e he := by
    obtain rfl : k = key := by simpa using hk
    obtain rfl : (⟨s.fresh, _⟩ : Entry) = e := by simpa [request, newEntry] using he
    exact .inl (by simp [request, Call.holds])

theorem newEntries_renews (h : (s.callers c).isFree = true) (keys nonCachedKeys : List κ) (now : Time) :
    Renews s ((s.newEntries ttl now nonCachedKeys).goTo c (.requestingBatch keys nonCachedKeys)) c nonCachedKeys where
  toMakes := (s.newEntries_makes ttl now nonCachedKeys).goTo c _
  free := h
  others c' hne := by rw [goTo_callers_of_ne _ _ hne, newEntries_callers]
  waits := by simp [Call.waitsOn]
  holds r hr := by simp [Call.holds] at hr
  willSet k hk e he := .inr ⟨k, by simpa [Call.batchKeys] using hk, e, he, rfl⟩

end

variable {call : Call κ ν}

theorem Stores.settles (h : Stores s s')
    (hsets : ∀ r, s.WillSet c r → (s'.results r).ready = true) (hcall : Settled s' call) :
    Settles s (s'.goTo c call) c where
  others c' hne := by rw [goTo_callers_of_ne _ _ hne, h.callers]
  cache := h.cache
  fresh := h.fresh
  ready := h.ready
  sets := hsets
  settled := by rw [goTo_callers_self]; exact ⟨hcall.holds, hcall.batchKeys, hcall.waits⟩

theorem settled_returned (s : State κ ν) (outcome : Except Exc ν) : Settled s (.returned outcome) :=
  ⟨rfl, rfl, nofun⟩

theorem settled_returnedBatch (s : State κ ν) (outcome : Except Exc (List (Except Exc ν))) :
    Settled s (.returnedBatch outcome) := ⟨rfl, rfl, nofun⟩

theorem settled_waiting (h : s.cache key = some e) :
    Settled s (.waiting e.result) where
  holds := rfl
  batchKeys := rfl
  waits r hr := ⟨key, e, h, by simpa [Call.waitsOn] using hr⟩

theorem settled_collect (s : State κ ν) (keys : List κ) (collected : List (Except Exc ν)) :
    Settled s (s.collect keys collected) := by
  fun_induction collect s keys collected with
  | case1 | case2 => exact s.settled_returnedBatch _
  | case3 _ _ _ _ _ _ _ ih | case4 _ _ _ _ _ _ _ _ ih => exact ih
  | case5 key rest collected e he => exact ⟨rfl, rfl, fun r hr => ⟨key, e, he, by simpa [Call.waitsOn] using hr⟩⟩

theorem goTo_settles (hholds : (s.callers c).holds = none)
    (hkeys : (s.callers c).batchKeys = []) (hcall : Settled s call) :
    Settles s (s.goTo c call) c := by
  refine (Stores.refl s).settles ?_ hcall
  rintro r (hr | ⟨key, hkey, -⟩)
  · rw [hholds] at hr
    cases hr
  · rw [hkeys] at hkey
    cases hkey

theorem holds_of_isFree (h : call.isFree = true) : call.holds = none := by
  cases call <;> first | rfl | cases h

theorem batchKeys_of_isFree (h : call.isFree = true) : call.batchKeys = [] := by
  cases call <;> first | rfl | cases h

theorem waitsOn_of_isFree (h : call.isFree = true) : call.waitsOn = none := by
  cases call <;> first | rfl | cases h

theorem free_settles (h : (s.callers c).isFree = true) (hcall : Settled s call) : Settles s (s.goTo c call) c :=
  goTo_settles (holds_of_isFree h) (batchKeys_of_isFree h) hcall

theorem finish_settles {method r}
    (h : s.callers c = .requesting method r) (noneOnError : Option ν) (outcome : Except Exc ν) :
    Settles s (s.finish noneOnError c r outcome method) c := by
  have stored : ∀ stored returned : Except Exc ν, Settles s ((s.store r stored).goTo c (.returned returned)) c := by
    intro stored returned
    refine (s.stores_store r stored).settles ?_ (settled_returned _ returned)
    rintro r' (hr | ⟨key, hkey, -⟩)
    · obtain rfl : r = r' := by simpa [h, Call.holds] using hr
      exact s.ready_store_self r stored
    · simp [h, Call.batchKeys] at hkey
  cases method with
  | getWithoutCache => exact stored _ _
  | get => cases outcome <;> cases noneOnError <;> exact stored _ _

theorem storeBatch_settles {nonCachedKeys}
    (h : s.callers c = .requestingBatch keys nonCachedKeys) (outcome : Except Exc (List (Except Exc ν))) :
    Settles s ((s.storeBatch nonCachedKeys outcome).goTo c
      ((s.storeBatch nonCachedKeys outcome).collect keys [])) c := by
  refine (s.stores_storeBatch nonCachedKeys outcome).settles ?_ (settled_collect _ keys [])
  rintro r (hr | ⟨key, hkey, e, he, rfl⟩)
  · simp [h, Call.holds] at hr
  · rw [h] at hkey
    exact s.ready_storeBatch outcome hkey he

/-- **What a step can do**: nothing, let its caller go on without a request, or make the entries
of the keys it renews. -/
theorem next_cases [DecidableEq κ] (ttl : Option TimeDelta) (noneOnError : Option ν) (s : State κ ν)
    (event : Event κ ν) :
    (s.renewed event = [] ∧ (next ttl noneOnError s event = s ∨ ∃ c, Settles s (next ttl noneOnError s event) c)) ∨
      ∃ c, Renews s (next ttl noneOnError s event) c (s.renewed event) := by
  fun_cases next ttl noneOnError s event with
  | case2 c key now hfree hcache =>
    have hfree : (s.callers c).isFree = true := by simpa using hfree
    exact .inr ⟨c, by simpa [renewed, notCached, hfree, hcache] using request_renews ttl hfree key now .get⟩
  | case3 c key now hfree e hcache hpast =>
    have hfree : (s.callers c).isFree = true := by simpa using hfree
    exact .inr ⟨c, by simpa [renewed, notCached, hfree, hcache, hpast] using request_renews ttl hfree key now .get⟩
  | case4 c key now hfree e hcache hpast =>
    refine .inl ⟨by simp [renewed, notCached, hcache, hpast], .inr ⟨c, ?_⟩⟩
    exact free_settles (by simpa using hfree) (settled_waiting hcache)
  | case5 c key now hfree e hcache hpast outcome =>
    refine .inl ⟨by simp [renewed, notCached, hcache, hpast], .inr ⟨c, ?_⟩⟩
    exact free_settles (by simpa using hfree) (s.settled_returned outcome)
  | case7 c key now hfree =>
    have hfree : (s.callers c).isFree = true := by simpa using hfree
    exact .inr ⟨c, by simpa [renewed, hfree] using request_renews ttl hfree key now .getWithoutCache⟩
  | case9 c keys now hfree nonCachedKeys hempty =>
    have hfree : (s.callers c).isFree = true := by simpa using hfree
    refine .inl ⟨by simpa [renewed, hfree, nonCachedKeys] using hempty, .inr ⟨c, ?_⟩⟩
    exact free_settles hfree (s.settled_collect keys [])
  | case10 c keys now hfree nonCachedKeys hempty =>
    have hfree : (s.callers c).isFree = true := by simpa using hfree
    refine .inr ⟨c, ?_⟩
    rw [renewed, if_pos hfree]
    exact newEntries_renews ttl hfree keys nonCachedKeys now
  | case11 c outcome method r hcall => exact .inl ⟨rfl, .inr ⟨c, finish_settles hcall noneOnError outcome⟩⟩
  | case13 c outcome keys nonCachedKeys hcall => exact .inl ⟨rfl, .inr ⟨c, storeBatch_settles hcall outcome⟩⟩
  | case16 c r hcall outcome =>
    have hsettled := s.settled_returned outcome
    exact .inl ⟨rfl, .inr ⟨c, goTo_settles (by rw [hcall]; rfl) (by rw [hcall]; rfl) hsettled⟩⟩
  | case18 c r rest collected hcall v =>
    have hsettled := s.settled_collect rest (collected ++ [.ok v])
    exact .inl ⟨rfl, .inr ⟨c, goTo_settles (by rw [hcall]; rfl) (by rw [hcall]; rfl) hsettled⟩⟩
  | case19 c r rest collected hcall e =>
    have hsettled := s.settled_returnedBatch (.error e)
    exact .inl ⟨rfl, .inr ⟨c, goTo_settles (by rw [hcall]; rfl) (by rw [hcall]; rfl) hsettled⟩⟩
  | case1 _ _ _ hfree | case6 _ _ _ hfree | case8 _ _ _ hfree => exact .inl (by simp_all [renewed])
  | _ => exact .inl ⟨rfl, .inl rfl⟩

end State

end Osprey.ExternalService.Greenlets
