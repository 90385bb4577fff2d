/-
The mux of a recursive etcd watch (`RecursiveWatchMux`): it keeps a copy of
the watched directory and passes on only the events that change it. A full
sync after the first is turned into the upserts and deletes that it amounts
to.

The run below follows three directories at once: the one that the raw events
describe, the mux's copy, and the one that a consumer makes of the events it
is given. The copy is not always right. A key that a later full sync writes
is stored with the key in place of the value, and the deletion of a path
leaves the keys below it behind. Such a key is stale, and what the consumer
is told stays right only as long as no event depends on it.
-/
import Mathlib.Data.List.Sort
import Osprey.Coordinator.Etcd
import Osprey.Lib.Dict
import Osprey.Lib.Run

namespace Osprey.EtcdWatcher

open Etcd (below)
open Lib (Dict Along)

/-! ## Events -/

/-- The value of a node; `None` for a directory. -/
abbrev Value := Option String

abbrev Directory := Dict String Value

inductive Event
  | fullSyncRecursive (items : List (String × Value))
  | incrementalSyncUpsert (key : String) (value : Value)
  | incrementalSyncDelete (key : String) (prevValue : Value)
  deriving DecidableEq

/-- What a consumer makes of its directory when it sees an event: a delete removes the key and every key
below it. -/
def Event.apply (directory : Directory) : Event → Directory
  | fullSyncRecursive items => Dict.ofList items
  | incrementalSyncUpsert key value => directory.set key value
  | incrementalSyncDelete key _ => directory.filterKeys fun k => k ≠ key && !below key k

/-! ## The mux -/

/-- The upserts of a full sync. The copy gets the key, not the value. -/
def synthesizeUpserts : Directory → List (String × Value) → Directory × List Event
  | directory, [] => (directory, [])
  | directory, (key, value) :: items =>
    if directory.get? key = some value then synthesizeUpserts directory items
    else
      let (directory', events) := synthesizeUpserts (directory.set key (some key)) items
      (directory', .incrementalSyncUpsert key value :: events)

/-- `directory.pop(key, None)`. -/
def pop (directory : Directory) (key : String) : Directory × Value :=
  (directory.erase key, (directory.get? key).getD none)

def synthesizeDeletes : Directory → List String → Directory × List Event
  | directory, [] => (directory, [])
  | directory, key :: keys =>
    let (directory', prevValue) := pop directory key
    let (directory'', events) := synthesizeDeletes directory' keys
    (directory'', .incrementalSyncDelete key prevValue :: events)

/-- The keys of the copy that a full sync does not have, sorted. -/
def unvisitedKeys (directory : Directory) (items : List (String × Value)) : List String :=
  (directory.keys.filter fun key => key ∉ items.map Prod.fst).insertionSort (· ≤ ·)

def synthesizeIncrementalEventsFromFullSync (directory : Directory) (items : List (String × Value)) :
    Directory × List Event :=
  if items = [] then
    if directory.entries = [] then (directory, []) else (Dict.empty, [.fullSyncRecursive items])
  else
    let (directory', upserts) := synthesizeUpserts directory items
    let (directory'', deletes) := synthesizeDeletes directory' (unvisitedKeys directory items)
    (directory'', upserts ++ deletes)

/-- `dedupe_event`, once the mux has a copy. -/
def dedupe (directory : Directory) : Event → Directory × List Event
  | .fullSyncRecursive items => synthesizeIncrementalEventsFromFullSync directory items
  | .incrementalSyncUpsert key value =>
    if directory.get? key = some value then (directory, [])
    else (directory.set key value, [.incrementalSyncUpsert key value])
  | .incrementalSyncDelete key _ =>
    let (directory', prevValue) := pop directory key
    (directory', [.incrementalSyncDelete key prevValue])

/-! ## Runs -/

structure State where
  raw : Directory
  mux : Directory
  consumer : Directory

def State.start (items : List (String × Value)) : State where
  raw := (Event.fullSyncRecursive items).apply Dict.empty
  mux := Dict.ofList items
  consumer := [Event.fullSyncRecursive items].foldl Event.apply Dict.empty

def State.step (s : State) (event : Event) : State where
  raw := event.apply s.raw
  mux := (dedupe s.mux event).1
  consumer := (dedupe s.mux event).2.foldl Event.apply s.consumer

/-- Every delete among the events meets `P`, on the consumer's directory when it comes. -/
def EachDelete (P : Directory → String → Value → Prop) : Directory → List Event → Prop
  | _, [] => True
  | directory, event :: events =>
    (match event with
      | .incrementalSyncDelete key prevValue => P directory key prevValue
      | _ => True) ∧
    EachDelete P (event.apply directory) events

theorem EachDelete.combine {P Q R}
    (hPQ : ∀ d key prevValue, P d key prevValue → Q d key prevValue → R d key prevValue) :
    ∀ {events directory},
      EachDelete P directory events → EachDelete Q directory events → EachDelete R directory events
  | [], _, _, _ => trivial
  | event :: _, directory, hP, hQ => by
    refine ⟨?_, EachDelete.combine hPQ hP.2 hQ.2⟩
    cases event with
    | incrementalSyncDelete key prevValue => exact hPQ directory key prevValue hP.1 hQ.1
    | incrementalSyncUpsert | fullSyncRecursive => trivial

def PrevValueRight (directory : Directory) (key : String) (prevValue : Value) : Prop :=
  ∀ value, directory.get? key = some value → prevValue = value

/-- The event leaves the consumer with the directory that the raw events describe, and what it is told of
the values that are gone is right. -/
def Preserves (s : State) (event : Event) : Prop :=
  (∀ key, (s.step event).consumer.get? key = (s.step event).raw.get? key) ∧
    EachDelete PrevValueRight s.consumer (dedupe s.mux event).2

/-- The mux's copy does not make a write look redundant that is not. -/
def ShowsWrite (mux raw : Directory) (key : String) (value : Value) : Prop :=
  mux.get? key = some value → raw.get? key = some value

/-- The key, if it is there, is not stale in the mux's copy. -/
def Fresh (mux raw : Directory) (key : String) : Prop :=
  (raw.get? key).isSome → mux.get? key = raw.get? key

variable {key : String}

theorem Fresh.get? {mux raw} (h : Fresh mux raw key) {value}
    (hvalue : raw.get? key = some value) : mux.get? key = some value := by
  rw [← hvalue]
  exact h (by rw [hvalue]; rfl)

/-- `ShowsWrite` for the items of a full sync, one after the other. -/
def ShowsWrites : Directory → Directory → List (String × Value) → Prop
  | _, _, [] => True
  | mux, raw, (key, value) :: items =>
    ShowsWrite mux raw key value ∧ ShowsWrites (synthesizeUpserts mux [(key, value)]).1 (raw.set key value) items

/-- Where the stale keys do no harm: no write finds its value in a stale copy, no key is removed that is
stale, and a full sync removes no key that lies above one that stays. -/
def Harmless (s : State) : Event → Prop
  | .incrementalSyncUpsert key value => ShowsWrite s.mux s.raw key value
  | .incrementalSyncDelete key _ => Fresh s.mux s.raw key
  | .fullSyncRecursive items =>
    items = [] ∨ ShowsWrites s.mux s.raw items ∧
      ∀ key ∈ unvisitedKeys s.mux items, Fresh s.mux s.raw key ∧ ∀ item ∈ items, ¬ below key item.1

instance (mux raw : Directory) (key : String) (value : Value) : Decidable (ShowsWrite mux raw key value) :=
  inferInstanceAs (Decidable (_ → _))

instance (mux raw : Directory) (key : String) : Decidable (Fresh mux raw key) :=
  inferInstanceAs (Decidable (_ → _))

instance ShowsWrites.decidable : ∀ mux raw items, Decidable (ShowsWrites mux raw items)
  | _, _, [] => .isTrue trivial
  | mux, raw, (key, value) :: items =>
    @instDecidableAnd _ _ _ (ShowsWrites.decidable (synthesizeUpserts mux [(key, value)]).1 (raw.set key value) items)

instance (s : State) : ∀ event, Decidable (Harmless s event)
  | .incrementalSyncUpsert key value => inferInstanceAs (Decidable (ShowsWrite s.mux s.raw key value))
  | .incrementalSyncDelete key _ => inferInstanceAs (Decidable (Fresh s.mux s.raw key))
  | .fullSyncRecursive _ => inferInstanceAs (Decidable (_ ∨ _ ∧ _))

/-- The consumer has the raw directory, and the mux has its keys. -/
structure Inv (s : State) : Prop where
  consumer : ∀ key, s.consumer.get? key = s.raw.get? key
  keys : ∀ key, (s.raw.get? key).isSome → (s.mux.get? key).isSome

/-! ## The upserts of a full sync -/

section Upserts

theorem get?_synthesizeUpserts_of_not_mem : ∀ (items : List (String × Value)) {mux},
    key ∉ items.map Prod.fst → (synthesizeUpserts mux items).1.get? key = mux.get? key
  | [], _, _ => rfl
  | (key', value) :: items, mux, h => by
    simp only [List.map_cons, List.mem_cons, not_or] at h
    rw [synthesizeUpserts]
    split
    · exact get?_synthesizeUpserts_of_not_mem items h.2
    · exact (get?_synthesizeUpserts_of_not_mem items h.2).trans (Dict.get?_set_other _ _ h.1)

theorem isSome_synthesizeUpserts : ∀ (items : List (String × Value)) {mux},
    (mux.get? key).isSome ∨ key ∈ items.map Prod.fst → ((synthesizeUpserts mux items).1.get? key).isSome
  | [], _, h => by simpa [synthesizeUpserts] using h
  | (key', value) :: items, mux, h => by
    rw [synthesizeUpserts]
    split
    · next hsame =>
      refine isSome_synthesizeUpserts items ?_
      rw [List.map_cons, List.mem_cons] at h
      rcases h with h | rfl | h
      · exact .inl h
      · exact .inl (by simp [hsame])
      · exact .inr h
    · refine isSome_synthesizeUpserts items ?_
      rw [List.map_cons, List.mem_cons] at h
      rw [Dict.get?_set]
      by_cases hk : key = key' <;> simp_all

theorem get?_upserts : ∀ (items : List (String × Value)) {mux raw consumer},
    ShowsWrites mux raw items → (∀ key, consumer.get? key = raw.get? key) → ∀ key,
      ((synthesizeUpserts mux items).2.foldl Event.apply consumer).get? key =
        (items.foldl (fun d e => d.set e.1 e.2) raw).get? key
  | [], _, _, _, _, h => h
  | (key', value) :: items, mux, raw, consumer, ⟨hwrite, hwrites⟩, h => by
    rw [synthesizeUpserts] at hwrites ⊢
    split at hwrites
    · next hsame =>
      rw [if_pos hsame]
      refine get?_upserts items hwrites fun key => ?_
      rw [h key, Dict.get?_set]
      split
      · next hk => rw [hk, hwrite hsame]
      · rfl
    · next hsame =>
      rw [if_neg hsame]
      refine get?_upserts items hwrites fun key => ?_
      rw [Event.apply, Dict.get?_set, Dict.get?_set, h key]

theorem eachDelete_upserts {P} :
    ∀ (items : List (String × Value)) {mux consumer rest},
    EachDelete P ((synthesizeUpserts mux items).2.foldl Event.apply consumer) rest →
      EachDelete P consumer ((synthesizeUpserts mux items).2 ++ rest)
  | [], _, _, _, h => h
  | (key, value) :: items, mux, consumer, rest, h => by
    rw [synthesizeUpserts] at h ⊢
    split at h
    · next hsame =>
      rw [if_pos hsame]
      exact eachDelete_upserts items h
    · next hsame =>
      rw [if_neg hsame]
      exact ⟨trivial, eachDelete_upserts items h⟩

end Upserts

/-! ## The deletes of a full sync -/

section Deletes

theorem get?_delete (directory : Directory) (key prevKey : String) (prevValue : Value) :
    ((Event.incrementalSyncDelete prevKey prevValue).apply directory).get? key =
      if key = prevKey ∨ below prevKey key then none else directory.get? key := by
  rw [Event.apply, Dict.get?_filterKeys]
  by_cases hk : key = prevKey <;> cases hb : below prevKey key <;> simp [hk]

theorem get?_deletes : ∀ (keys : List String) {mux consumer},
    ((synthesizeDeletes mux keys).2.foldl Event.apply consumer).get? key =
      if ∃ k ∈ keys, key = k ∨ below k key then none else consumer.get? key
  | [], _, _ => by simp [synthesizeDeletes]
  | k :: keys, mux, consumer => by
    rw [synthesizeDeletes]
    refine (get?_deletes keys).trans ?_
    rw [get?_delete]
    by_cases hk : key = k ∨ below k key
    · simp [hk]
    · simp [hk]

theorem get?_mux_deletes : ∀ (keys : List String) {mux},
    (synthesizeDeletes mux keys).1.get? key = if key ∈ keys then none else mux.get? key
  | [], _ => by simp [synthesizeDeletes]
  | k :: keys, mux => by
    rw [synthesizeDeletes]
    refine (get?_mux_deletes keys).trans ?_
    simp only [pop, Dict.get?_erase, List.mem_cons]
    by_cases hk : key = k <;> simp [hk]

theorem prevValueRight_deletes : ∀ {keys mux consumer}, keys.Nodup →
    (∀ key ∈ keys, Fresh mux consumer key) → EachDelete PrevValueRight consumer (synthesizeDeletes mux keys).2
  | [], _, _, _, _ => trivial
  | k :: keys, mux, consumer, hnodup, hfresh => by
    rw [List.nodup_cons] at hnodup
    refine ⟨fun value hvalue => ?_, prevValueRight_deletes hnodup.2 fun key hkey hsome => ?_⟩
    · rw [(hfresh k (by simp)).get? hvalue]
      rfl
    · rw [get?_delete] at hsome ⊢
      split at hsome
      · cases hsome
      · next hk =>
        have hne : key ≠ k := fun he => hk (.inl he)
        change (mux.erase k).get? key = _
        rw [Dict.get?_erase, if_neg hne, if_neg hk]
        exact hfresh key (by simp [hkey]) hsome

theorem mem_unvisitedKeys {mux items} :
    key ∈ unvisitedKeys mux items ↔ (mux.get? key).isSome ∧ key ∉ items.map Prod.fst := by
  simp only [unvisitedKeys, List.mem_insertionSort, List.mem_filter, decide_eq_true_eq, Dict.isSome_get?]

theorem nodup_unvisitedKeys (mux : Directory) (items : List (String × Value)) : (unvisitedKeys mux items).Nodup :=
  (List.perm_insertionSort _ _).nodup_iff.2 (mux.nodup_keys.filter _)

end Deletes

/-! ## One event -/

section Step

variable {s : State}

theorem preserves_of_dedupe {event mux' events} (hdedupe : dedupe s.mux event = (mux', events))
    (hconsumer : ∀ k, (events.foldl Event.apply s.consumer).get? k = (event.apply s.raw).get? k)
    (hright : EachDelete PrevValueRight s.consumer events)
    (hkeys : ∀ k, ((event.apply s.raw).get? k).isSome → (mux'.get? k).isSome) :
    Preserves s event ∧ Inv (s.step event) := by
  have hstep : s.step event = ⟨event.apply s.raw, mux', events.foldl Event.apply s.consumer⟩ := by
    rw [State.step, hdedupe]
  refine ⟨⟨?_, ?_⟩, ?_⟩
  · rw [hstep]
    exact hconsumer
  · rw [hdedupe]
    exact hright
  · rw [hstep]
    exact ⟨hconsumer, hkeys⟩

theorem Inv.upsert (h : Inv s) {value} (hshows : ShowsWrite s.mux s.raw key value) :
    Preserves s (.incrementalSyncUpsert key value) ∧ Inv (s.step (.incrementalSyncUpsert key value)) := by
  have hkeys : ∀ k, ((s.raw.set key value).get? k).isSome → k = key ∨ (s.mux.get? k).isSome := fun k hk => by
    rw [Dict.get?_set] at hk
    split at hk
    · next heq => exact .inl heq
    · exact .inr (h.keys k hk)
  by_cases hsame : s.mux.get? key = some value
  · refine preserves_of_dedupe (show dedupe _ _ = (s.mux, []) from if_pos hsame) (fun k => ?_) trivial fun k hk => ?_
    · change s.consumer.get? k = (s.raw.set key value).get? k
      rw [h.consumer k, Dict.get?_set]
      split
      · next hk => rw [hk, hshows hsame]
      · rfl
    · rcases hkeys k hk with rfl | hk
      · simp [hsame]
      · exact hk
  · refine preserves_of_dedupe (if_neg hsame) (fun k => ?_) ⟨trivial, trivial⟩ fun k hk => ?_
    · change (s.consumer.set key value).get? k = (s.raw.set key value).get? k
      rw [Dict.get?_set, Dict.get?_set, h.consumer k]
    · rw [Dict.get?_set]
      split
      · rfl
      · next hne => exact (hkeys k hk).resolve_left hne

theorem Inv.delete (h : Inv s) (prevValue : Value) (hfresh : Fresh s.mux s.raw key) :
    Preserves s (.incrementalSyncDelete key prevValue) ∧ Inv (s.step (.incrementalSyncDelete key prevValue)) := by
  have hdedupe : dedupe s.mux (.incrementalSyncDelete key prevValue) =
      (s.mux.erase key, [.incrementalSyncDelete key ((s.mux.get? key).getD none)]) := rfl
  refine preserves_of_dedupe hdedupe (fun k => ?_) ⟨fun value hvalue => ?_, trivial⟩ fun k hk => ?_
  · rw [List.foldl_cons, List.foldl_nil, get?_delete, get?_delete, h.consumer k]
  · rw [h.consumer key] at hvalue
    rw [hfresh.get? hvalue]
    rfl
  · rw [get?_delete] at hk
    split at hk
    · cases hk
    · next hne =>
      rw [Dict.get?_erase, if_neg fun he => hne (.inl he)]
      exact h.keys k hk

theorem Inv.fullSync_nil (h : Inv s) : Preserves s (.fullSyncRecursive []) ∧ Inv (s.step (.fullSyncRecursive [])) := by
  by_cases hempty : s.mux.entries = []
  · have hraw : ∀ k, s.raw.get? k = none := fun k => by
      by_contra hk
      have := h.keys k (Option.isSome_iff_ne_none.2 hk)
      rw [Dict.isSome_get?, Dict.keys, hempty] at this
      cases this
    refine preserves_of_dedupe (if_pos hempty) (fun k => ?_) trivial fun k hk => ?_
    · exact (h.consumer k).trans (hraw k)
    · cases hk
  · refine preserves_of_dedupe (if_neg hempty) (fun _ => rfl) ⟨trivial, trivial⟩ fun k hk => ?_
    cases hk

theorem Inv.fullSync (h : Inv s) {items} (hitems : items ≠ []) (hshows : ShowsWrites s.mux s.raw items)
    (hunvisited : ∀ key ∈ unvisitedKeys s.mux items, Fresh s.mux s.raw key ∧ ∀ item ∈ items, ¬ below key item.1) :
    Preserves s (.fullSyncRecursive items) ∧ Inv (s.step (.fullSyncRecursive items)) := by
  set mux' := (synthesizeUpserts s.mux items).1 with hmux'
  set deletes := synthesizeDeletes mux' (unvisitedKeys s.mux items) with hdeletes
  have hdedupe : dedupe s.mux (.fullSyncRecursive items) =
      (deletes.1, (synthesizeUpserts s.mux items).2 ++ deletes.2) := by
    simp only [dedupe, synthesizeIncrementalEventsFromFullSync, if_neg hitems]
    rfl
  set consumer' := (synthesizeUpserts s.mux items).2.foldl Event.apply s.consumer with hconsumer'
  have hupserts : ∀ k, consumer'.get? k = (items.foldl (fun d e => d.set e.1 e.2) s.raw).get? k :=
    get?_upserts items hshows h.consumer
  -- A key of the items stays; any other that is there is in the mux's copy, and so is deleted.
  have hconsumer : ∀ k, (deletes.2.foldl Event.apply consumer').get? k = (Dict.ofList items).get? k := fun k => by
    rw [hdeletes, get?_deletes]
    by_cases hk : k ∈ items.map Prod.fst
    · rw [if_neg, hupserts k]
      · obtain ⟨v, hv⟩ := Option.isSome_iff_exists.mp (Dict.isSome_get?_ofList.mpr hk)
        rw [Dict.get?_foldl_set, ← Dict.get?_ofList, hv, Option.some_or]
      · rintro ⟨k', hk', rfl | hbelow⟩
        · exact (mem_unvisitedKeys.1 hk').2 hk
        · obtain ⟨item, hitem, rfl⟩ := List.mem_map.1 hk
          exact (hunvisited k' hk').2 item hitem hbelow
    · rw [Dict.ofList, Dict.get?_foldl_set_of_not_mem items hk, Dict.get?_empty]
      split
      · rfl
      · next hnot =>
        rw [hupserts k, Dict.get?_foldl_set_of_not_mem items hk]
        by_contra hsome
        have hmux := h.keys k (Option.isSome_iff_ne_none.2 hsome)
        exact hnot ⟨k, mem_unvisitedKeys.2 ⟨hmux, hk⟩, .inl rfl⟩
  have hfresh : ∀ key ∈ unvisitedKeys s.mux items, Fresh mux' consumer' key := fun key hkey hsome => by
    have hnot := (mem_unvisitedKeys.1 hkey).2
    rw [hupserts, Dict.get?_foldl_set_of_not_mem items hnot] at hsome ⊢
    rw [hmux', get?_synthesizeUpserts_of_not_mem items hnot]
    exact (hunvisited key hkey).1 hsome
  refine preserves_of_dedupe hdedupe (fun k => ?_) ?_ fun k hk => ?_
  · rw [List.foldl_append]
    exact hconsumer k
  · exact eachDelete_upserts items (prevValueRight_deletes (nodup_unvisitedKeys s.mux items) hfresh)
  · have hmem : k ∈ items.map Prod.fst := Dict.isSome_get?_ofList.1 hk
    rw [hdeletes, get?_mux_deletes, if_neg fun hmem' => (mem_unvisitedKeys.1 hmem').2 hmem]
    exact isSome_synthesizeUpserts items (.inr hmem)

theorem Inv.step (h : Inv s) (event : Event) (hharmless : Harmless s event) :
    Preserves s event ∧ Inv (s.step event) := by
  cases event with
  | incrementalSyncUpsert key value => exact h.upsert hharmless
  | incrementalSyncDelete key prevValue => exact h.delete prevValue hharmless
  | fullSyncRecursive items =>
    by_cases hitems : items = []
    · subst hitems
      exact h.fullSync_nil
    · obtain ⟨hshows, hunvisited⟩ := Or.resolve_left hharmless hitems
      exact h.fullSync hitems hshows hunvisited

end Step

/-- **The mux preserves the directory while its stale keys do no harm.** From every first full sync and for
every sequence of raw events that are harmless when they come: after each of them the consumer of the mux has
the directory that the raw events describe, and the deletes it is given carry the values that are deleted. -/
theorem mux_preserves (items : List (String × Value)) (events : List Event)
    (hharmless : Along State.step Harmless (State.start items) events) :
    Along State.step Preserves (State.start items) events := by
  have hstart : Inv (State.start items) := ⟨fun _ => rfl, fun _ hsome => hsome⟩
  exact (Along.invariant (fun _ event h hevent => Inv.step h event hevent) hharmless hstart).1

/-- A full sync that changes `b` and drops `c`, an upsert that makes `b` right again in the copy, and
deletes. -/
theorem mux_preserves_resync :
    let items := [("/a", some "1"), ("/b", some "2"), ("/c", some "3")]
    let events := [.fullSyncRecursive [("/a", some "1"), ("/b", some "4")], .incrementalSyncUpsert "/b" (some "5"),
      .incrementalSyncDelete "/a" none, .incrementalSyncDelete "/b" none]
    Along State.step Harmless (State.start items) events ∧ Along State.step Preserves (State.start items) events := by
  have hharmless : Along State.step Harmless
      (State.start [("/a", some "1"), ("/b", some "2"), ("/c", some "3")])
      [.fullSyncRecursive [("/a", some "1"), ("/b", some "4")], .incrementalSyncUpsert "/b" (some "5"),
        .incrementalSyncDelete "/a" none, .incrementalSyncDelete "/b" none] := by
    decide
  exact ⟨hharmless, mux_preserves _ _ hharmless⟩

/-- A full sync changes the value of `/a` to `2`. The delete that follows carries the key `/a` as the
previous value, and an upsert of that text is swallowed. -/
theorem mux_stale_after_full_sync :
    let s := (State.start [("/a", some "1")]).step (.fullSyncRecursive [("/a", some "2")])
    s.consumer.get? "/a" = some (some "2") ∧
      (dedupe s.mux (.incrementalSyncDelete "/a" (some "2"))).2 = [.incrementalSyncDelete "/a" (some "/a")] ∧
      ¬ Preserves s (.incrementalSyncDelete "/a" (some "2")) ∧
      ¬ Preserves s (.incrementalSyncUpsert "/a" (some "/a")) := by
  refine ⟨by decide, by decide, fun h => ?_, fun h => ?_⟩
  · exact absurd (h.2.1 (some "2") (by decide)) (by decide)
  · exact absurd (h.1 "/a") (by decide)

end Osprey.EtcdWatcher
