/-
`CachedFutures`: a map from keys to values that are ready or on their way. Callers
of one key share one resolver; its value is cached and its error is not.

A resolver that completes writes to the map under its key, whatever stands there.
An entry can be dropped while its resolver is in flight, and the key be asked for
again: then the late completion of the first resolver takes the entry of the
second one away.
-/
import Osprey.Lib.Dict
import Osprey.Lib.Run

namespace Osprey.CachedFutures

open Lib (Dict)
open Function (update update_self update_of_ne)

/-! ## States -/

abbrev ResolverId := Nat

abbrev CallerId := Nat

inductive CachedFuture (T : Type*)
  | ready (resolver : ResolverId) (value : T)
  | pending (resolver : ResolverId)
  deriving DecidableEq

structure Resolver (K T E : Type*) where
  key : K
  dropped : Bool := false
  result : Option (Except E T) := none

inductive Caller (K T E : Type*)
  | idle
  /-- It found nothing with the read lock, and goes on to take the write lock. -/
  | missed (key : K)
  /-- It awaits the shared future of a resolver. -/
  | joined (key : K) (resolver : ResolverId)
  /-- It has the result of the resolver it joined. -/
  | resolved (key : K) (resolver : ResolverId) (result : Except E T)
  /-- It has a value that it found ready under the key. -/
  | found (key : K) (value : T)

structure State (K T E : Type*) where
  cache : Dict K (CachedFuture T) := .empty
  created : Nat := 0
  resolvers : ResolverId → Option (Resolver K T E) := fun _ => none
  callers : CallerId → Caller K T E := fun _ => .idle

inductive Event (K T E : Type*)
  /-- A call looks the key up with the read lock. -/
  | read (c : CallerId) (key : K)
  /-- It looks the key up with the write lock, and creates a resolver if there is no entry. -/
  | write (c : CallerId)
  /-- The caller's poll completes the resolver. -/
  | complete (c : CallerId) (result : Except E T)
  /-- The caller's poll finds the shared future completed. -/
  | receive (c : CallerId)
  /-- The caller's future is dropped. -/
  | cancel (c : CallerId)
  | drop (key : K)
  /-- `retain_ready`, with the answers of the predicate. -/
  | retainReady (f : K → T → Bool)

variable {K T E : Type*} [DecidableEq K]

namespace State

def goTo (s : State K T E) (c : CallerId) (caller : Caller K T E) : State K T E :=
  { s with callers := update s.callers c caller }

def take (s : State K T E) (c : CallerId) (key : K) : CachedFuture T → State K T E
  | .ready _ value => s.goTo c (.found key value)
  | .pending r => s.goTo c (.joined key r)

/-- `create_resolver_future`, and the entry for it. -/
def create (s : State K T E) (key : K) : State K T E :=
  { s with
    cache := s.cache.set key (.pending s.created)
    created := s.created + 1
    resolvers := update s.resolvers s.created (some { key }) }

/-- The end of the resolver's future: a value is cached, an error is not. -/
def finish (s : State K T E) (r : ResolverId) (resolver : Resolver K T E) (result : Except E T) : State K T E :=
  { s with
    cache := match result with
      | .ok value => s.cache.set resolver.key (.ready r value)
      | .error _ => s.cache.erase resolver.key
    resolvers := update s.resolvers r (some { resolver with result := some result }) }

/-- The resolver of the entry under the key is dropped, if it is pending. -/
def markDropped (s : State K T E) (key : K) : ResolverId → Option (Resolver K T E) :=
  match s.cache.get? key with
  | some (.pending r) =>
    update s.resolvers r ((s.resolvers r).map fun resolver => { resolver with dropped := true })
  | _ => s.resolvers

def drop (s : State K T E) (key : K) : State K T E :=
  { s with cache := s.cache.erase key, resolvers := s.markDropped key }

/-- `retain_ready`: the cache afterwards. -/
def retained (s : State K T E) (f : K → T → Bool) : Dict K (CachedFuture T) :=
  s.cache.filterKeys fun key => match s.cache.get? key with
    | some (.ready _ value) => f key value
    | _ => true

/-- `retain_ready`: the number of entries that were disposed of. -/
def numDisposed (s : State K T E) (f : K → T → Bool) : Nat :=
  s.cache.entries.length - (s.retained f).entries.length

end State

def next (s : State K T E) : Event K T E → State K T E
  | .read c key => match s.callers c with
    | .idle => match s.cache.get? key with
      | some entry => s.take c key entry
      | none => s.goTo c (.missed key)
    | _ => s
  | .write c => match s.callers c with
    | .missed key => match s.cache.get? key with
      | some entry => s.take c key entry
      | none => (s.create key).goTo c (.joined key s.created)
    | _ => s
  | .complete c result => match s.callers c with
    | .joined key r => match s.resolvers r with
      | some resolver =>
        if resolver.result.isNone then (s.finish r resolver result).goTo c (.resolved key r result) else s
      | none => s
    | _ => s
  | .receive c => match s.callers c with
    | .joined key r => match (s.resolvers r).bind Resolver.result with
      | some result => s.goTo c (.resolved key r result)
      | none => s
    | _ => s
  | .cancel c => s.goTo c .idle
  | .drop key => s.drop key
  | .retainReady f => { s with cache := s.retained f }

/-! ## What is to hold -/

namespace State

def InFlight (s : State K T E) (r : ResolverId) (key : K) : Prop :=
  ∃ resolver, s.resolvers r = some resolver ∧ resolver.key = key ∧ resolver.dropped = false ∧ resolver.result = none

def Resolved (s : State K T E) (r : ResolverId) (key : K) (result : Except E T) : Prop :=
  ∃ resolver, s.resolvers r = some resolver ∧ resolver.key = key ∧ resolver.result = some result

/-- At most one resolver for a key is in flight, those of dropped entries aside. -/
def OneInFlight (s : State K T E) : Prop := ∀ r r' key, s.InFlight r key → s.InFlight r' key → r = r'

/-- What a caller got: the result of the resolver it joined, or a value that a resolver of its key has made. -/
def CallerOk (s : State K T E) : Caller K T E → Prop
  | .idle | .missed _ => True
  | .joined key r => ∃ resolver, s.resolvers r = some resolver ∧ resolver.key = key
  | .resolved key r result => s.Resolved r key result
  | .found key value => ∃ r, s.Resolved r key (.ok value)

def CompletesDropped (s : State K T E) (event : Event K T E) (resolver : Resolver K T E) : Prop :=
  ∃ c result key r, event = .complete c result ∧ s.callers c = .joined key r ∧ s.resolvers r = some resolver ∧
    resolver.result = none ∧ resolver.dropped = true

def KeepsLaterEntry (s : State K T E) (event : Event K T E) : Prop :=
  ∀ resolver, s.CompletesDropped event resolver → ∀ entry, s.cache.get? resolver.key = some entry →
    (next s event).cache.get? resolver.key = some entry

structure Safe (s : State K T E) (event : Event K T E) : Prop where
  one : (next s event).OneInFlight
  keeps : s.KeepsLaterEntry event
  callers : ∀ c, (next s event).CallerOk ((next s event).callers c)

/-- No dropped resolver completes while its key has an entry. -/
def NotLate (s : State K T E) (event : Event K T E) : Prop :=
  ∀ resolver, s.CompletesDropped event resolver → s.cache.get? resolver.key = none

def NoPendingDropped (s : State K T E) : Event K T E → Prop
  | .drop key => ∀ r, s.cache.get? key ≠ some (.pending r)
  | _ => True

/-! ## The map -/

def EntryOk (s : State K T E) (key : K) : CachedFuture T → Prop
  | .pending r => s.InFlight r key
  | .ready r value => s.Resolved r key (.ok value)

structure Base (s : State K T E) : Prop where
  fresh : ∀ r, s.created ≤ r → s.resolvers r = none
  entries : ∀ key entry, s.cache.get? key = some entry → s.EntryOk key entry
  callers : ∀ c, s.CallerOk (s.callers c)

/-- Every resolver in flight has its entry. -/
def Owned (s : State K T E) : Prop := ∀ r key, s.InFlight r key → s.cache.get? key = some (.pending r)

theorem Owned.oneInFlight {s : State K T E} (h : s.Owned) : s.OneInFlight := by
  intro r r' key hr hr'
  have hsame := (h r key hr).symm.trans (h r' key hr')
  cases hsame
  rfl

variable {s s' : State K T E}

def Grows (s s' : State K T E) : Prop :=
  ∀ r resolver, s.resolvers r = some resolver → ∃ resolver', s'.resolvers r = some resolver' ∧
    resolver'.key = resolver.key ∧ ∀ result, resolver.result = some result → resolver'.result = some result

variable {r : ResolverId} {key : K}

omit [DecidableEq K] in
theorem Resolved.grow {result} (h : s.Resolved r key result) (hg : Grows s s') :
    s'.Resolved r key result := by
  obtain ⟨resolver, hr, hkey, hresult⟩ := h
  obtain ⟨resolver', hr', hkey', hresult'⟩ := hg r resolver hr
  exact ⟨resolver', hr', hkey'.trans hkey, hresult' result hresult⟩

omit [DecidableEq K] in
theorem CallerOk.grow {caller} (h : s.CallerOk caller) (hg : Grows s s') : s'.CallerOk caller := by
  cases caller with
  | idle | missed key => trivial
  | joined key r =>
    obtain ⟨resolver, hr, hkey⟩ := h
    obtain ⟨resolver', hr', hkey', -⟩ := hg r resolver hr
    exact ⟨resolver', hr', hkey'.trans hkey⟩
  | resolved key r result => exact Resolved.grow h hg
  | found key value =>
    obtain ⟨r, hr⟩ := h
    exact ⟨r, hr.grow hg⟩

theorem Base.goTo (h : s.Base) (c : CallerId) {caller} (hc : s.CallerOk caller) :
    (s.goTo c caller).Base := by
  refine ⟨h.fresh, h.entries, fun c' => ?_⟩
  by_cases hne : c' = c
  · subst hne
    have hself : (s.goTo c' caller).callers c' = caller := update_self ..
    rw [hself]
    exact hc
  · have hother : (s.goTo c caller).callers c' = s.callers c' := update_of_ne hne ..
    rw [hother]
    exact h.callers c'

/-! ## A resolver is created -/

variable {resolver : Resolver K T E}

theorem Base.resolvers_lt (h : s.Base) (hr : s.resolvers r = some resolver) : r < s.created := by
  by_contra hge
  rw [h.fresh r (Nat.le_of_not_lt hge)] at hr
  cases hr

theorem Base.resolvers_create (h : s.Base) (key : K)
    (hr : s.resolvers r = some resolver) : (s.create key).resolvers r = some resolver := by
  have hne : r ≠ s.created := Nat.ne_of_lt (h.resolvers_lt hr)
  exact (update_of_ne hne ..).trans hr

theorem Base.create (h : s.Base) (key : K) : (s.create key).Base := by
  have hg : Grows s (s.create key) := fun r resolver hr => ⟨resolver, h.resolvers_create key hr, rfl, fun _ => id⟩
  refine ⟨fun r hr => ?_, fun key' entry hentry => ?_, fun c => (h.callers c).grow hg⟩
  · have hlt : s.created + 1 ≤ r := hr
    have hne : r ≠ s.created := by omega
    exact (update_of_ne hne ..).trans (h.fresh r (by omega))
  · have hget : (s.cache.set key (.pending s.created)).get? key' = some entry := hentry
    rw [Dict.get?_set] at hget
    split at hget
    next hkey =>
      cases hget
      exact ⟨_, update_self .., hkey.symm, rfl, rfl⟩
    next =>
      have hok := h.entries key' entry hget
      cases entry with
      | ready r value => exact Resolved.grow hok hg
      | pending r =>
        obtain ⟨resolver, hr, hrest⟩ := hok
        exact ⟨resolver, h.resolvers_create key hr, hrest⟩

theorem Owned.create (h : s.Owned) (hnone : s.cache.get? key = none) : (s.create key).Owned := by
  intro r key' ⟨resolver, hr, hrest⟩
  show (s.cache.set key (.pending s.created)).get? key' = some (.pending r)
  rw [Dict.get?_set]
  by_cases hne : r = s.created
  · subst hne
    have hself : (s.create key).resolvers s.created = some { key } := update_self ..
    rw [hself] at hr
    cases hr
    rw [if_pos hrest.1.symm]
  · have hold : (s.create key).resolvers r = s.resolvers r := update_of_ne hne ..
    rw [hold] at hr
    have hentry := h r key' ⟨resolver, hr, hrest⟩
    split
    next hkey =>
      subst hkey
      rw [hnone] at hentry
      cases hentry
    next => exact hentry

/-! ## A resolver completes -/

theorem get?_finish (r : ResolverId) (resolver : Resolver K T E) (result : Except E T) (key : K) :
    (s.finish r resolver result).cache.get? key =
      if key = resolver.key then result.toOption.map (CachedFuture.ready r) else s.cache.get? key := by
  cases result with
  | ok value => exact Dict.get?_set ..
  | error error => exact Dict.get?_erase ..

section
variable {r : ResolverId} {resolver : Resolver K T E} (result : Except E T)

theorem resolvers_finish_self :
    (s.finish r resolver result).resolvers r = some { resolver with result := some result } :=
  update_self ..

theorem resolvers_finish_other {r'} (hne : r' ≠ r) :
    (s.finish r resolver result).resolvers r' = s.resolvers r' :=
  update_of_ne hne ..

theorem grows_finish (hr : s.resolvers r = some resolver) (hnone : resolver.result = none) :
    Grows s (s.finish r resolver result) := by
  intro r' resolver' hr'
  by_cases hne : r' = r
  · subst hne
    rw [hr] at hr'
    cases hr'
    refine ⟨_, resolvers_finish_self result, rfl, fun old hold => ?_⟩
    rw [hnone] at hold
    cases hold
  · exact ⟨resolver', (resolvers_finish_other result hne).trans hr', rfl, fun _ => id⟩

theorem resolved_finish : (s.finish r resolver result).Resolved r resolver.key result :=
  ⟨_, resolvers_finish_self result, rfl, rfl⟩

theorem Base.finish (h : s.Base) (hr : s.resolvers r = some resolver) (hnone : resolver.result = none) :
    (s.finish r resolver result).Base := by
  have hg := grows_finish result hr hnone
  refine ⟨fun r' hr' => ?_, fun key entry hentry => ?_, fun c => (h.callers c).grow hg⟩
  · have hlt : r < s.created := h.resolvers_lt hr
    have hge : s.created ≤ r' := hr'
    exact (resolvers_finish_other result (Nat.ne_of_gt (Nat.lt_of_lt_of_le hlt hge))).trans (h.fresh r' hge)
  · rw [get?_finish] at hentry
    split at hentry
    next hkey =>
      cases result with
      | error error => cases hentry
      | ok value =>
        cases hentry
        rw [hkey]
        exact resolved_finish _
    next hkey =>
      have hok := h.entries key entry hentry
      cases entry with
      | ready r' value => exact Resolved.grow hok hg
      | pending r' =>
        -- the entry of another key has another resolver
        obtain ⟨resolver', hr', hkey', hrest⟩ := hok
        have hne : r' ≠ r := by
          intro heq
          subst heq
          rw [hr] at hr'
          cases hr'
          exact hkey hkey'.symm
        exact ⟨resolver', (resolvers_finish_other result hne).trans hr', hkey', hrest⟩

/-- The entry a completion takes away is its own, unless the resolver was dropped and the key asked for again. -/
theorem Owned.finish (h : s.Owned) (hr : s.resolvers r = some resolver) (hnone : resolver.result = none)
    (hlate : resolver.dropped = true → s.cache.get? resolver.key = none) : (s.finish r resolver result).Owned := by
  intro r' key ⟨resolver', hr', hkey', hdropped', hnone'⟩
  have hne : r' ≠ r := by
    intro heq
    subst heq
    rw [resolvers_finish_self] at hr'
    cases hr'
    cases hnone'
  rw [resolvers_finish_other result hne] at hr'
  have hentry := h r' key ⟨resolver', hr', hkey', hdropped', hnone'⟩
  rw [get?_finish, if_neg, hentry]
  intro hkey
  subst hkey
  cases hdropped : resolver.dropped with
  | true =>
    rw [hlate hdropped] at hentry
    cases hentry
  | false =>
    have hown := h r resolver.key ⟨resolver, hr, rfl, hdropped, hnone⟩
    rw [hown] at hentry
    cases hentry
    exact hne rfl

end

/-! ## Entries go -/

theorem resolvers_drop_of_pending (h : s.cache.get? key = some (.pending r)) :
    (s.drop key).resolvers r = (s.resolvers r).map fun resolver => { resolver with dropped := true } := by
  show s.markDropped key r = _
  simp only [markDropped, h, update_self]

theorem resolvers_drop_of_not_pending (h : s.cache.get? key ≠ some (.pending r)) :
    (s.drop key).resolvers r = s.resolvers r := by
  show s.markDropped key r = _
  cases hentry : s.cache.get? key with
  | none => simp only [markDropped, hentry]
  | some entry => cases entry with
    | ready r' value => simp only [markDropped, hentry]
    | pending r' =>
      have hne : r ≠ r' := by
        intro heq
        rw [heq] at h
        exact h hentry
      simp only [markDropped, hentry, update_of_ne hne]

theorem grows_drop (key : K) : Grows s (s.drop key) := by
  intro r resolver hr
  by_cases hentry : s.cache.get? key = some (.pending r)
  · refine ⟨{ resolver with dropped := true }, ?_, rfl, fun _ => id⟩
    rw [resolvers_drop_of_pending hentry, hr, Option.map_some]
  · exact ⟨resolver, (resolvers_drop_of_not_pending hentry).trans hr, rfl, fun _ => id⟩

theorem get?_drop (key key' : K) : (s.drop key).cache.get? key' = if key' = key then none else s.cache.get? key' :=
  Dict.get?_erase ..

theorem Base.drop (h : s.Base) (key : K) : (s.drop key).Base := by
  have hg := grows_drop (s := s) key
  refine ⟨fun r hr => ?_, fun key' entry hentry => ?_, fun c => (h.callers c).grow hg⟩
  · by_cases hpending : s.cache.get? key = some (.pending r)
    · rw [resolvers_drop_of_pending hpending, h.fresh r hr, Option.map_none]
    · exact (resolvers_drop_of_not_pending hpending).trans (h.fresh r hr)
  · rw [get?_drop] at hentry
    split at hentry
    next => cases hentry
    next hkey =>
      have hok := h.entries key' entry hentry
      cases entry with
      | ready r value => exact Resolved.grow hok hg
      | pending r =>
        obtain ⟨resolver, hr, hkey', hrest⟩ := hok
        have hother : s.cache.get? key ≠ some (.pending r) := by
          intro hpending
          obtain ⟨resolver', hr', hsame, -⟩ := h.entries key _ hpending
          rw [hr] at hr'
          cases hr'
          exact hkey (hkey'.symm.trans hsame)
        exact ⟨resolver, (resolvers_drop_of_not_pending hother).trans hr, hkey', hrest⟩

theorem Owned.drop (h : s.Owned) (key : K) : (s.drop key).Owned := by
  intro r key' ⟨resolver, hr, hkey, hdropped, hnone⟩
  by_cases hpending : s.cache.get? key = some (.pending r)
  · rw [resolvers_drop_of_pending hpending, Option.map_eq_some_iff] at hr
    obtain ⟨old, -, hold⟩ := hr
    subst hold
    cases hdropped
  · rw [resolvers_drop_of_not_pending hpending] at hr
    have hentry := h r key' ⟨resolver, hr, hkey, hdropped, hnone⟩
    rw [get?_drop, if_neg, hentry]
    intro heq
    rw [heq] at hentry
    exact hpending hentry

theorem get?_retained {f entry} (h : (s.retained f).get? key = some entry) : s.cache.get? key = some entry := by
  rw [retained, Dict.get?_filterKeys, Option.ite_none_right_eq_some] at h
  exact h.2

theorem get?_retained_pending (f : K → T → Bool) (h : s.cache.get? key = some (.pending r)) :
    (s.retained f).get? key = some (.pending r) := by
  rw [retained, Dict.get?_filterKeys, h, if_pos rfl]

/-! ## Steps -/

inductive Effect (s : State K T E) (event : Event K T E) : State K T E → Prop
  | moves (c : CallerId) (caller : Caller K T E) (hc : s.Base → s.CallerOk caller) : Effect s event (s.goTo c caller)
  | creates (c : CallerId) (key : K) (hnone : s.cache.get? key = none) :
      Effect s event ((s.create key).goTo c (.joined key s.created))
  | completes (c : CallerId) (result : Except E T) (key : K) (r : ResolverId) (resolver : Resolver K T E)
      (hevent : event = .complete c result) (hc : s.callers c = .joined key r) (hr : s.resolvers r = some resolver)
      (hnone : resolver.result = none) : Effect s event ((s.finish r resolver result).goTo c (.resolved key r result))
  | drops (key : K) (hevent : event = .drop key) : Effect s event (s.drop key)
  | retains (f : K → T → Bool) : Effect s event { s with cache := s.retained f }

omit [DecidableEq K] in
theorem goTo_self (s : State K T E) (c : CallerId) : s.goTo c (s.callers c) = s := by
  simp only [goTo, Function.update_eq_self]

variable {event : Event K T E}

theorem Effect.stays (c : CallerId) : s.Effect event s := by
  have hmoves : s.Effect event (s.goTo c (s.callers c)) := .moves c _ fun h => h.callers c
  rwa [goTo_self] at hmoves

theorem Effect.takes (c : CallerId) {entry}
    (hentry : s.cache.get? key = some entry) : s.Effect event (s.take c key entry) := by
  cases entry with
  | ready r value => exact .moves c _ fun h => ⟨r, h.entries key _ hentry⟩
  | pending r =>
    refine .moves c _ fun h => ?_
    obtain ⟨resolver, hr, hkey, -⟩ := h.entries key _ hentry
    exact ⟨resolver, hr, hkey⟩

theorem effect_next (s : State K T E) (event : Event K T E) : s.Effect event (next s event) := by
  cases event with
  | read c key =>
    simp only [next]
    split
    next =>
      cases hentry : s.cache.get? key with
      | some entry => exact .takes c hentry
      | none => exact .moves c _ fun _ => trivial
    next => exact .stays c
  | write c =>
    simp only [next]
    split
    next key _ =>
      cases hentry : s.cache.get? key with
      | some entry => exact .takes c hentry
      | none => exact .creates c key hentry
    next => exact .stays c
  | complete c result =>
    simp only [next]
    split
    next key r hc =>
      cases hr : s.resolvers r with
      | none => exact .stays c
      | some resolver =>
        show Effect s _ (if resolver.result.isNone then _ else s)
        split
        next hnone => exact .completes c result key r resolver rfl hc hr (Option.isNone_iff_eq_none.1 hnone)
        next => exact .stays c
    next => exact .stays c
  | receive c =>
    simp only [next]
    split
    next key r hc =>
      cases hresult : (s.resolvers r).bind Resolver.result with
      | none => exact .stays c
      | some result =>
        refine .moves c _ fun h => ?_
        have hjoined := h.callers c
        rw [hc] at hjoined
        obtain ⟨resolver, hr, hkey⟩ := hjoined
        rw [hr, Option.bind_some] at hresult
        exact ⟨resolver, hr, hkey, hresult⟩
    next => exact .stays c
  | cancel c => exact .moves c _ fun _ => trivial
  | drop key => exact .drops key rfl
  | retainReady f => exact .retains f

theorem Base.step (h : s.Base) (heffect : s.Effect event s') : s'.Base := by
  cases heffect with
  | moves c caller hc => exact h.goTo c (hc h)
  | creates c key hnone => exact (h.create key).goTo c ⟨_, update_self .., rfl⟩
  | completes c result key r resolver hevent hc hr hnone =>
    have hjoined := h.callers c
    rw [hc] at hjoined
    obtain ⟨resolver', hr', hkey⟩ := hjoined
    rw [hr] at hr'
    cases hr'
    subst hkey
    exact (h.finish result hr hnone).goTo c (resolved_finish result)
  | drops key hevent => exact h.drop key
  | retains f => exact ⟨h.fresh, fun key entry hentry => h.entries key entry (get?_retained hentry), h.callers⟩

theorem Owned.step (h : s.Owned) (hlate : s.NotLate event) (heffect : s.Effect event s') : s'.Owned := by
  cases heffect with
  | moves c caller hc => exact h
  | creates c key hnone => exact h.create hnone
  | completes c result key r resolver hevent hc hr hnone =>
    exact h.finish result hr hnone fun hdropped => hlate resolver ⟨c, result, key, r, hevent, hc, hr, hnone, hdropped⟩
  | drops key hevent => exact h.drop key
  | retains f => exact fun r key hr => get?_retained_pending f (h r key hr)

theorem CompletesDropped.next
    (h : s.CompletesDropped event resolver) : ∃ r result, s.resolvers r = some resolver ∧ resolver.result = none ∧
      (next s event).cache = (s.finish r resolver result).cache := by
  obtain ⟨c, result, key, r, hevent, hc, hr, hnone, -⟩ := h
  subst hevent
  refine ⟨r, result, hr, hnone, ?_⟩
  simp only [CachedFutures.next, hc, hr, hnone, Option.isNone_none, if_true]
  rfl

/-- A completion never writes what stands under its key already: an entry of its own would be pending or gone. -/
theorem Base.notLate_of_keepsLaterEntry (h : s.Base) (hkeeps : s.KeepsLaterEntry event) : s.NotLate event := by
  intro resolver hcompletes
  by_contra hsome
  obtain ⟨entry, hentry⟩ := Option.ne_none_iff_exists'.1 hsome
  have hkept := hkeeps resolver hcompletes entry hentry
  obtain ⟨r, result, hr, hnone, hcache⟩ := hcompletes.next
  rw [hcache, get?_finish, if_pos rfl] at hkept
  cases result with
  | error error => cases hkept
  | ok value =>
    cases hkept
    obtain ⟨resolver', hr', -, hresult⟩ := h.entries _ _ hentry
    rw [hr] at hr'
    cases hr'
    rw [hnone] at hresult
    cases hresult

theorem NotLate.keepsLaterEntry (h : s.NotLate event) : s.KeepsLaterEntry event := by
  intro resolver hcompletes entry hentry
  rw [h resolver hcompletes] at hentry
  cases hentry

/-- From a state in which every resolver in flight has its entry, a step is safe if and only if it is not late. -/
theorem safe_iff_notLate (hb : s.Base) (ho : s.Owned) (event : Event K T E) : s.Safe event ↔ s.NotLate event := by
  constructor
  · intro h
    exact hb.notLate_of_keepsLaterEntry h.keeps
  · intro h
    have heffect := effect_next s event
    exact ⟨(ho.step h heffect).oneInFlight, h.keepsLaterEntry, (hb.step heffect).callers⟩

/-! ## Runs in which no entry is dropped while it is pending -/

def NoneDropped (s : State K T E) : Prop :=
  ∀ r resolver, s.resolvers r = some resolver → resolver.dropped = false

theorem NoneDropped.step (h : s.NoneDropped) (hdrop : s.NoPendingDropped event)
    (heffect : s.Effect event s') : s'.NoneDropped := by
  cases heffect with
  | moves c caller hc => exact h
  | creates c key hnone =>
    intro r resolver hr
    have hupdate : update s.resolvers s.created (some { key }) r = some resolver := hr
    by_cases hne : r = s.created
    · subst hne
      rw [update_self] at hupdate
      cases hupdate
      rfl
    · rw [update_of_ne hne] at hupdate
      exact h r resolver hupdate
  | completes c result key r resolver hevent hc hr hnone =>
    intro r' resolver' hr'
    by_cases hne : r' = r
    · subst hne
      have hself : (s.finish r' resolver result).resolvers r' = some resolver' := hr'
      rw [resolvers_finish_self] at hself
      cases hself
      exact h r' resolver hr
    · exact h r' resolver' ((resolvers_finish_other result hne).symm.trans hr')
  | drops key hevent =>
    subst hevent
    intro r resolver hr
    rw [resolvers_drop_of_not_pending (hdrop r)] at hr
    exact h r resolver hr
  | retains f => exact h

theorem NoneDropped.notLate (h : s.NoneDropped) (event : Event K T E) : s.NotLate event := by
  intro resolver ⟨c, result, key, r, hevent, hc, hr, hnone, hdropped⟩
  rw [h r resolver hr] at hdropped
  cases hdropped

theorem base_init : ({} : State K T E).Base := by
  refine ⟨fun r _ => rfl, fun key entry hentry => ?_, fun c => trivial⟩
  cases hentry

theorem owned_init : ({} : State K T E).Owned := by
  intro r key ⟨resolver, hr, _⟩
  cases hr

end State

/-- A run keeps one resolver for a key in flight and the entries of later resolvers, and serves every caller with the
result of a resolver of its key, if and only if no resolver whose entry was dropped completes while its key has an
entry. So does every run in which `drop` meets no pending entry. -/
theorem resolved_once_iff (events : List (Event K T E)) :
    (Lib.Along next State.Safe {} events ↔ Lib.Along next State.NotLate {} events) ∧
      (Lib.Along next State.NoPendingDropped {} events → Lib.Along next State.Safe {} events) ∧
      ∀ c, (events.foldl next {}).CallerOk ((events.foldl next {}).callers c) := by
  have hiff : Lib.Along next State.Safe {} events ↔ Lib.Along next State.NotLate {} events := by
    refine Lib.Along.congr (I := fun s : State K T E => s.Base ∧ s.Owned) ?_ ?_ ⟨State.base_init, State.owned_init⟩
    · intro s event hs
      exact State.safe_iff_notLate hs.1 hs.2 event
    · intro s event hs hsafe
      have heffect := State.effect_next s event
      exact ⟨hs.1.step heffect, hs.2.step ((State.safe_iff_notLate hs.1 hs.2 event).1 hsafe) heffect⟩
  refine ⟨hiff, fun hdrop => hiff.2 ?_, ?_⟩
  · refine (Lib.Along.invariant (I := State.NoneDropped) ?_ hdrop ?_).1
    · intro s event hs hstep
      exact ⟨hs.notLate event, hs.step hstep (State.effect_next s event)⟩
    · intro r resolver hr
      cases hr
  · have hbase : (events.foldl next ({} : State K T E)).Base :=
      List.foldlRecOn events next State.base_init fun s hs event _ => hs.step (State.effect_next s event)
    exact hbase.callers

/-- A key is asked for, dropped, and asked for again: the first resolver is in flight still. -/
def droppedAndAskedAgain : State Unit Nat Unit :=
  [.read 0 (), .write 0, .drop (), .read 1 (), .write 1].foldl next {}

/-- The first resolver's completion overwrites the entry of the second one, or removes it; in the second case the
next caller starts a third resolver beside the second. -/
theorem late_completion_takes_entry :
    droppedAndAskedAgain.cache.get? () = some (.pending 1) ∧
      (next droppedAndAskedAgain (.complete 0 (.ok 7))).cache.get? () = some (.ready 0 7) ∧
      (next droppedAndAskedAgain (.complete 0 (.error ()))).cache.get? () = none ∧
      ¬ ([.complete 0 (.error ()), .read 2 (), .write 2].foldl next droppedAndAskedAgain).OneInFlight := by
  refine ⟨by decide, by decide, by decide, fun hone => ?_⟩
  have hsame := hone 1 2 () ⟨_, rfl, rfl, rfl, rfl⟩ ⟨_, rfl, rfl, rfl, rfl⟩
  cases hsame

end Osprey.CachedFutures
