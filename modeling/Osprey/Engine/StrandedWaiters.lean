/-
Which runs of an `ExternalServiceAccessor` leave a waiter behind: a caller
that waits on an `AsyncResult` which no request in flight will set.
-/
import Osprey.Engine.ExternalServiceGreenlets

namespace Osprey.ExternalService.Greenlets

variable {κ ν : Type*}

namespace State

/-- Whoever waits, waits on a result that a request in flight will set. -/
def NoneStranded (s : State κ ν) : Prop := ∀ c r, s.Blocked c r → ∃ c', s.WillSet c' r

/-- No step takes an entry away from its `batch_get` while somebody waits on it:
an entry that is replaced while its result is awaited is held by the `get` or the
`get_without_cache` that made it. -/
def Harmless (s : State κ ν) (event : Event κ ν) : Prop :=
  ∀ key ∈ s.renewed event, ∀ e, s.cache key = some e → (∃ c, s.Blocked c e.result) →
    ∃ c, (s.callers c).holds = some e.result

end State

section

variable [DecidableEq κ] (ttl : Option TimeDelta) (noneOnError : Option ν)

def NeverStranded : State κ ν → List (Event κ ν) → Prop
  | s, [] => s.NoneStranded
  | s, event :: events => s.NoneStranded ∧ NeverStranded (next ttl noneOnError s event) events

def HarmlessRun : State κ ν → List (Event κ ν) → Prop
  | _, [] => True
  | s, event :: events => s.Harmless event ∧ HarmlessRun (next ttl noneOnError s event) events

end

/-! ## The invariant -/

variable {s : State κ ν} {r : Nat}

namespace State

/-- What every state of a run keeps: the numbers in use are not fresh, a result is cached under
one key only, and a request in flight will set each cached result that is not set. -/
structure Inv (s : State κ ν) : Prop where
  cacheFresh : ∀ key e, s.cache key = some e → e.result < s.fresh
  cacheInj : ∀ key key' e e', s.cache key = some e → s.cache key' = some e' → e.result = e'.result → key = key'
  waitsFresh : ∀ c r, (s.callers c).waitsOn = some r → r < s.fresh
  holdsFresh : ∀ c r, (s.callers c).holds = some r → r < s.fresh
  cachedServed : ∀ key e, s.cache key = some e → (s.results e.result).ready = false → ∃ c, s.WillSet c e.result

theorem inv_initial : Inv (initial : State κ ν) := ⟨nofun, nofun, nofun, nofun, nofun⟩

section

variable {s s' : State κ ν} {c : CallerId} {keys : List κ}

/-- A request in flight of another caller still sets its result, or the result is set now. -/
theorem Settles.served (h : Settles s s' c) (hserved : ∃ c', s.WillSet c' r)
    (hr : (s'.results r).ready = false) : ∃ c', s'.WillSet c' r := by
  obtain ⟨c', hset⟩ := hserved
  by_cases hc : c' = c
  · subst hc
    rw [h.sets r hset] at hr
    cases hr
  · refine ⟨c', ?_⟩
    rwa [WillSet, h.others c' hc, h.cache]

theorem Settles.not_ready (h : Settles s s' c) (hr : (s'.results r).ready = false) : (s.results r).ready = false := by
  cases hs : (s.results r).ready with
  | false => rfl
  | true =>
    rw [h.ready r hs] at hr
    cases hr

theorem Settles.inv (h : Settles s s' c) (hi : Inv s) : Inv s' where
  cacheFresh key e he := by
    rw [h.cache] at he
    rw [h.fresh]
    exact hi.cacheFresh key e he
  cacheInj := by
    rw [h.cache]
    exact hi.cacheInj
  waitsFresh c' r hr := by
    rw [h.fresh]
    by_cases hc : c' = c
    · subst hc
      obtain ⟨key, e, he, rfl⟩ := h.settled.waits r hr
      rw [h.cache] at he
      exact hi.cacheFresh key e he
    · rw [h.others c' hc] at hr
      exact hi.waitsFresh c' r hr
  holdsFresh c' r hr := by
    rw [h.fresh]
    by_cases hc : c' = c
    · subst hc
      rw [h.settled.holds] at hr
      cases hr
    · rw [h.others c' hc] at hr
      exact hi.holdsFresh c' r hr
  cachedServed key e he hr := by
    rw [h.cache] at he
    exact h.served (hi.cachedServed key e he (h.not_ready hr)) hr

/-- A caller that goes on leaves nobody behind, and waits itself on a cached result only. -/
theorem Settles.noneStranded (h : Settles s s' c) (hi : Inv s') (hs : s.NoneStranded) : s'.NoneStranded := by
  rintro c' r ⟨hwait, hr⟩
  by_cases hc : c' = c
  · subst hc
    obtain ⟨key, e, he, rfl⟩ := h.settled.waits r hwait
    exact hi.cachedServed key e he hr
  · rw [h.others c' hc] at hwait
    exact h.served (hs c' r ⟨hwait, h.not_ready hr⟩) hr

theorem Renews.willSet_of_ne (h : Renews s s' c keys) {c'} (hc : c' ≠ c) (hset : s.WillSet c' r)
    (hkept : (s.callers c').holds = some r ∨ ∀ key ∈ keys, ∀ e, s.cache key = some e → e.result ≠ r) :
    s'.WillSet c' r := by
  rw [WillSet, h.others c' hc]
  rcases hset with hholds | ⟨key, hkey, e, he, rfl⟩
  · exact .inl hholds
  · rcases hkept with hholds | hkept
    · exact .inl hholds
    · have hnot : key ∉ keys := fun hmem => hkept key hmem e he rfl
      exact .inr ⟨key, hkey, e, by rw [h.kept key hnot, he], rfl⟩

theorem Renews.willSet_ne (h : Renews s s' c keys) {c'} (hset : s.WillSet c' r) : c' ≠ c := by
  rintro rfl
  rcases hset with hholds | ⟨key, hkey, -⟩
  · rw [holds_of_isFree h.free] at hholds
    cases hholds
  · rw [batchKeys_of_isFree h.free] at hkey
    cases hkey

theorem Renews.fresh_le (h : Renews s s' c keys) {key} (hkey : key ∈ keys) {e}
    (he : s'.cache key = some e) : s.fresh ≤ e.result ∧ e.result < s'.fresh := by
  obtain ⟨e', he', hle⟩ := h.made key hkey
  rw [he] at he'
  cases he'
  exact hle

theorem Renews.inv (h : Renews s s' c keys) (hi : Inv s) : Inv s' := by
  have old : ∀ {key e}, key ∉ keys → s'.cache key = some e → s.cache key = some e ∧ e.result < s.fresh := by
    intro key e hkey he
    rw [h.kept key hkey] at he
    exact ⟨he, hi.cacheFresh key e he⟩
  have hf := h.fresh
  refine ⟨?_, ?_, ?_, ?_, ?_⟩
  · intro key e he
    by_cases hkey : key ∈ keys
    · exact (h.fresh_le hkey he).2
    · have := (old hkey he).2
      omega
  · intro key key' e e' he he' heq
    by_cases hkey : key ∈ keys <;> by_cases hkey' : key' ∈ keys
    · exact h.distinct key hkey key' hkey' e e' he he' heq
    · have := (h.fresh_le hkey he).1
      have := (old hkey' he').2
      omega
    · have := (h.fresh_le hkey' he').1
      have := (old hkey he).2
      omega
    · exact hi.cacheInj key key' e e' (old hkey he).1 (old hkey' he').1 heq
  · intro c' r hr
    by_cases hc : c' = c
    · subst hc
      rw [h.waits] at hr
      cases hr
    · rw [h.others c' hc] at hr
      have := hi.waitsFresh c' r hr
      omega
  · intro c' r hr
    by_cases hc : c' = c
    · subst hc
      exact (h.holds r hr).2
    · rw [h.others c' hc] at hr
      have := hi.holdsFresh c' r hr
      omega
  · intro key e he hr
    by_cases hkey : key ∈ keys
    · exact ⟨c, h.willSet key hkey e he⟩
    · obtain ⟨hold, hlt⟩ := old hkey he
      rw [h.results _ hlt] at hr
      obtain ⟨c', hset⟩ := hi.cachedServed key e hold hr
      refine ⟨c', h.willSet_of_ne (h.willSet_ne hset) hset (.inr fun key' hkey' e' he' heq => ?_)⟩
      exact hkey (hi.cacheInj key' key e' e he' hold heq ▸ hkey')

/-- Replacing entries strands nobody exactly if each entry that is awaited is held by the request
that made it. -/
theorem Renews.noneStranded_iff (h : Renews s s' c keys) (hi : Inv s) (hs : s.NoneStranded) :
    s'.NoneStranded ↔ ∀ key ∈ keys, ∀ e, s.cache key = some e → (∃ c, s.Blocked c e.result) →
      ∃ c, (s.callers c).holds = some e.result := by
  constructor
  · rintro hs' key hkey e he ⟨c', hwait, hr⟩
    have hlt := hi.cacheFresh key e he
    have hne : c' ≠ c := by
      rintro rfl
      rw [waitsOn_of_isFree h.free] at hwait
      cases hwait
    rw [← h.others c' hne] at hwait
    rw [← h.results _ hlt] at hr
    -- A batch cannot set it any more, since the key has another entry now.
    obtain ⟨c'', hholds | ⟨key', -, e', he', heq⟩⟩ := hs' c' e.result ⟨hwait, hr⟩
    · by_cases hc : c'' = c
      · subst hc
        have := (h.holds _ hholds).1
        omega
      · rw [h.others c'' hc] at hholds
        exact ⟨c'', hholds⟩
    · by_cases hkey' : key' ∈ keys
      · have := (h.fresh_le hkey' he').1
        omega
      · rw [h.kept key' hkey'] at he'
        exact absurd (hi.cacheInj key' key e' e he' he heq ▸ hkey) hkey'
  · rintro hharmless c' r ⟨hwait, hr⟩
    have hne : c' ≠ c := by
      rintro rfl
      rw [h.waits] at hwait
      cases hwait
    rw [h.others c' hne] at hwait
    rw [h.results _ (hi.waitsFresh c' r hwait)] at hr
    by_cases hrep : ∃ key ∈ keys, ∃ e, s.cache key = some e ∧ e.result = r
    · obtain ⟨key, hkey, e, he, rfl⟩ := hrep
      obtain ⟨c'', hholds⟩ := hharmless key hkey e he ⟨c', hwait, hr⟩
      exact ⟨c'', h.willSet_of_ne (h.willSet_ne (.inl hholds)) (.inl hholds) (.inl hholds)⟩
    · obtain ⟨c'', hset⟩ := hs c' r ⟨hwait, hr⟩
      exact ⟨c'', h.willSet_of_ne (h.willSet_ne hset) hset
        (.inr fun key hkey e he heq => hrep ⟨key, hkey, e, he, heq⟩)⟩

end

section

variable [DecidableEq κ] (ttl : Option TimeDelta) (noneOnError : Option ν)

theorem inv_next (hi : Inv s) (event : Event κ ν) : Inv (next ttl noneOnError s event) := by
  rcases next_cases ttl noneOnError s event with ⟨-, heq | ⟨c, h⟩⟩ | ⟨c, h⟩
  · rwa [heq]
  · exact h.inv hi
  · exact h.inv hi

theorem noneStranded_next_iff (hi : Inv s) (hs : s.NoneStranded) (event : Event κ ν) :
    (next ttl noneOnError s event).NoneStranded ↔ s.Harmless event := by
  rcases next_cases ttl noneOnError s event with ⟨hren, hstep⟩ | ⟨c, h⟩
  · have hharmless : s.Harmless event := by
      rw [Harmless, hren]
      exact nofun
    refine iff_of_true ?_ hharmless
    rcases hstep with heq | ⟨c, h⟩
    · rwa [heq]
    · exact h.noneStranded (h.inv hi) hs
  · exact h.noneStranded_iff hi hs

theorem neverStranded_iff_of_inv (hi : Inv s) (hs : s.NoneStranded) (events : List (Event κ ν)) :
    NeverStranded ttl noneOnError s events ↔ HarmlessRun ttl noneOnError s events := by
  induction events generalizing s with
  | nil => exact iff_of_true hs trivial
  | cons event events ih =>
    have hstep := noneStranded_next_iff ttl noneOnError hi hs event
    constructor
    · rintro ⟨-, hrest⟩
      have hnext : (next ttl noneOnError s event).NoneStranded := by
        cases events <;> first | exact hrest | exact hrest.1
      exact ⟨hstep.mp hnext, (ih (inv_next ttl noneOnError hi event) hnext).mp hrest⟩
    · rintro ⟨hharmless, hrest⟩
      have hnext := hstep.mpr hharmless
      exact ⟨hs, (ih (inv_next ttl noneOnError hi event) hnext).mpr hrest⟩

end

end State

/-! ## Runs -/

theorem State.ready_of_willSet [DecidableEq κ] (ttl : Option TimeDelta) (noneOnError : Option ν)
    {c} (h : s.WillSet c r) :
    (∀ outcome, ((next ttl noneOnError s (.complete c outcome)).results r).ready = true) ∨
      ∀ outcome, ((next ttl noneOnError s (.completeBatch c outcome)).results r).ready = true := by
  have hset := h
  cases hcall : s.callers c with
  | requesting method r' =>
    refine .inl fun outcome => ?_
    simpa [next, hcall] using (finish_settles hcall noneOnError outcome).sets r hset
  | requestingBatch keys nonCachedKeys =>
    refine .inr fun outcome => ?_
    simpa [next, hcall] using (storeBatch_settles hcall outcome).sets r hset
  | _ => simp [WillSet, hcall, Call.holds, Call.batchKeys] at h

/-- **A run strands no waiter exactly if no step replaces an entry of a `batch_get` while its result
is awaited.** For every `cache_ttl`, with and without `count_error_once`, and every interleaving. -/
theorem neverStranded_iff_harmlessRun [DecidableEq κ] (ttl : Option TimeDelta) (noneOnError : Option ν)
    (events : List (Event κ ν)) :
    NeverStranded ttl noneOnError State.initial events ↔ HarmlessRun ttl noneOnError State.initial events :=
  State.neverStranded_iff_of_inv ttl noneOnError State.inv_initial nofun events

section

variable [DecidableEq κ] (ttl : Option TimeDelta) (noneOnError : Option ν)

theorem NeverStranded.last : ∀ (s : State κ ν) (events), NeverStranded ttl noneOnError s events →
    (events.foldl (next ttl noneOnError) s).NoneStranded
  | _, [], h => h
  | _, _ :: events, h => last _ events h.2

/-- **Every waiter is woken.** After a run of harmless steps, a caller that waits does so for a result that is set when
some request in flight completes, whatever the service answers. -/
theorem waiter_woken (events : List (Event κ ν)) (h : HarmlessRun ttl noneOnError State.initial events) {c r} :
    let s := events.foldl (next ttl noneOnError) State.initial
    s.Blocked c r → ∃ c', (∀ outcome, ((next ttl noneOnError s (.complete c' outcome)).results r).ready = true) ∨
      ∀ outcome, ((next ttl noneOnError s (.completeBatch c' outcome)).results r).ready = true := by
  intro s hblocked
  have hnever := (State.neverStranded_iff_of_inv ttl noneOnError State.inv_initial nofun events).mpr h
  obtain ⟨c', hset⟩ := hnever.last _ _ _ _ c r hblocked
  exact ⟨c', State.ready_of_willSet ttl noneOnError hset⟩

end

theorem waiter_woken_by_batch :
    let s := [Event.batchGet 0 ["a"] 0, .get 1 "a" 0].foldl (next none (none : Option String)) State.initial
    ∃ c', (∀ outcome, ((next none none s (.complete c' outcome)).results 0).ready = true) ∨
      ∀ outcome, ((next none none s (.completeBatch c' outcome)).results 0).ready = true :=
  waiter_woken none none [.batchGet 0 ["a"] 0, .get 1 "a" 0]
    ⟨fun _ _ _ he => (by cases he), fun _ hkey => (by cases hkey), trivial⟩ (c := 1) ⟨rfl, rfl⟩

/-- While caller 0 has `batch_get(['a'])` in flight and caller 1 waits for the same key in `get`,
caller 2 calls `get_without_cache`; then the service answers both requests. -/
def getWithoutCacheDuringBatch : List (Event String String) :=
  [.batchGet 0 ["a"] 0, .get 1 "a" 0, .getWithoutCache 2 "a" 0, .completeBatch 0 (.ok [.ok "v"]), .complete 2 (.ok "v")]

/-- The answers set only the second result. Every request has completed, and caller 1 still waits. -/
theorem waiter_stranded :
    let s := getWithoutCacheDuringBatch.foldl (next none none) State.initial
    s.Blocked 1 0 ∧ (s.results 1).ready = true ∧ ∀ c, ¬ s.WillSet c 0 := by
  refine ⟨⟨by decide, by decide⟩, by decide, fun c => ?_⟩
  match c with
  | 0 => rintro (h | ⟨key, hkey, -⟩) <;> contradiction
  | 1 => rintro (h | ⟨key, hkey, -⟩) <;> contradiction
  | 2 => rintro (h | ⟨key, hkey, -⟩) <;> contradiction
  | c + 3 => rintro (h | ⟨key, hkey, -⟩) <;> contradiction

end Osprey.ExternalService.Greenlets
