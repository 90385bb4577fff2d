/-
Insertion-ordered dictionaries: what a Python `dict` is, as a list of
entries with pairwise distinct keys. A write to a present key keeps its
place, a write to an absent key goes to the end, and iteration is in
insertion order. The distinctness of the keys is a field, so a dictionary
with two entries for one key cannot be built.
-/
import Mathlib.Data.List.Induction
import Mathlib.Data.List.Nodup
import Mathlib.Data.List.Perm.Basic

namespace Lib

structure Dict (κ : Type*) (ν : Type*) where
  entries : List (κ × ν)
  nodup : (entries.map Prod.fst).Nodup

namespace Dict

variable {κ ν : Type*}

variable {d : Dict κ ν}

@[ext] theorem ext {e} (h : d.entries = e.entries) : d = e := by
  cases d; cases e; simp_all

instance [DecidableEq κ] [DecidableEq ν] : DecidableEq (Dict κ ν) := fun d e =>
  decidable_of_iff (d.entries = e.entries) ⟨Dict.ext, fun h => h ▸ rfl⟩

def empty : Dict κ ν := ⟨[], List.nodup_nil⟩

def keys (d : Dict κ ν) : List κ := d.entries.map Prod.fst

def values (d : Dict κ ν) : List ν := d.entries.map Prod.snd

/-- All the values of a dictionary of lists, each with its key. -/
def flatten (d : Dict κ (List ν)) : List (κ × ν) := d.entries.flatMap fun e => e.2.map (e.1, ·)

@[simp] theorem flatten_empty : (empty : Dict κ (List ν)).flatten = [] := rfl

theorem map_snd_flatten (d : Dict κ (List ν)) : d.flatten.map Prod.snd = d.values.flatten := by
  simp [flatten, values, Function.comp_def, List.flatMap_def]

variable (d)

theorem nodup_keys : d.keys.Nodup := d.nodup

theorem nodup_entries : d.entries.Nodup := List.Nodup.of_map Prod.fst d.nodup

variable [DecidableEq κ]

/-- `d.get(k)`. -/
def get? (d : Dict κ ν) (k : κ) : Option ν := d.entries.lookup k

/-- The entries of `d[k] = v`: in place when `k` is present, else at the end. -/
def setEntries (k : κ) (v : ν) : List (κ × ν) → List (κ × ν)
  | [] => [(k, v)]
  | (k', v') :: es => if k' = k then (k, v) :: es else (k', v') :: setEntries k v es

theorem map_fst_setEntries (k : κ) (v : ν) : ∀ es : List (κ × ν),
    (setEntries k v es).map Prod.fst = if k ∈ es.map Prod.fst then es.map Prod.fst else es.map Prod.fst ++ [k]
  | [] => by simp [setEntries]
  | (k', v') :: es => by
    simp only [setEntries]
    by_cases h : k' = k
    · subst h; simp
    · have ih := map_fst_setEntries k v es
      have h' : ¬ k = k' := fun e => h e.symm
      simp only [h, if_false, List.map_cons, ih, List.mem_cons, h', false_or]
      split <;> simp

/-- `d[k] = v`. -/
def set (d : Dict κ ν) (k : κ) (v : ν) : Dict κ ν where
  entries := setEntries k v d.entries
  nodup := by
    rw [map_fst_setEntries]
    split
    · exact d.nodup
    · next h => exact List.nodup_append.2 ⟨d.nodup, by simp, fun a ha b hb he => by simp_all⟩

@[simp] theorem get?_empty (k : κ) : (empty : Dict κ ν).get? k = none := rfl

theorem lookup_setEntries (k k' : κ) (v : ν) : ∀ es : List (κ × ν),
    (setEntries k v es).lookup k' = if k' = k then some v else es.lookup k'
  | [] => by
    by_cases h : k' = k
    · simp [setEntries, h]
    · simp [setEntries, List.lookup_cons, beq_eq_false_iff_ne.2 h, h]
  | (a, b) :: es => by
    have ih := lookup_setEntries k k' v es
    simp only [setEntries]
    by_cases h : k' = a
    · subst h
      by_cases ha : k' = k <;> simp [ha]
    · have hb := beq_eq_false_iff_ne.2 h
      by_cases ha : a = k
      · subst ha; simp [List.lookup_cons, hb, h]
      · simp only [ha, if_false, List.lookup_cons, hb, ih]

theorem get?_set (k k' : κ) (v : ν) : (d.set k v).get? k' = if k' = k then some v else d.get? k' :=
  lookup_setEntries k k' v d.entries

@[simp] theorem get?_set_self (k : κ) (v : ν) : (d.set k v).get? k = some v := by
  simp [get?_set]

variable {k : κ}

theorem get?_set_other {k'} (v : ν) (h : k' ≠ k) : (d.set k v).get? k' = d.get? k' := by
  simp [get?_set, h]

variable {d}

variable {v : ν}

theorem lookup_eq_some_iff {es : List (κ × ν)} (hn : (es.map Prod.fst).Nodup) : es.lookup k = some v ↔ (k, v) ∈ es := by
  induction es with
  | nil => simp
  | cons p es ih =>
    obtain ⟨a, b⟩ := p
    simp only [List.map_cons, List.nodup_cons, List.mem_map, not_exists, not_and] at hn
    by_cases h : k = a
    · subst h
      simp only [List.lookup_cons_self, Option.some.injEq, List.mem_cons, Prod.mk.injEq, true_and]
      refine ⟨fun e => .inl e.symm, ?_⟩
      rintro (e | hm)
      · exact e.symm
      · exact absurd rfl (hn.1 (k, v) hm)
    · simp only [List.lookup_cons, beq_eq_false_iff_ne.2 h, h, List.mem_cons, Prod.mk.injEq, false_and, false_or]
      exact ih hn.2

theorem get?_eq_some_iff : d.get? k = some v ↔ (k, v) ∈ d.entries :=
  lookup_eq_some_iff d.nodup

theorem mem_keys : k ∈ d.keys ↔ ∃ v, d.get? k = some v := by
  simp only [keys, List.mem_map, get?_eq_some_iff]
  exact ⟨fun ⟨⟨_, v⟩, hm, he⟩ => ⟨v, he ▸ hm⟩, fun ⟨v, hm⟩ => ⟨_, hm, rfl⟩⟩

theorem flatMap_entries_of_key {β : Type*} (f : ν → List β) (k : κ) (d : Dict κ ν) :
    d.entries.flatMap (fun e => if e.1 = k then f e.2 else []) = ((d.get? k).map f).getD [] := by
  obtain ⟨es, hn⟩ := d
  simp only [get?]
  induction es with
  | nil => rfl
  | cons e es ih =>
    obtain ⟨a, b⟩ := e
    simp only [List.map_cons, List.nodup_cons] at hn
    rw [List.flatMap_cons, ih hn.2]
    by_cases h : a = k
    · subst h
      have hnone : es.lookup a = none := List.lookup_eq_none_iff.2 fun p hp => by
        have : p.1 ≠ a := fun hk => hn.1 (hk ▸ List.mem_map_of_mem hp)
        simpa using this.symm
      simp [hnone]
    · simp [List.lookup_cons, beq_eq_false_iff_ne.2 (Ne.symm h), h]

theorem isSome_get? : (d.get? k).isSome ↔ k ∈ d.keys := by
  rw [mem_keys, Option.isSome_iff_exists]

/-- An update in place of the value under a key, if there is one. -/
def modify (d : Dict κ ν) (k : κ) (f : ν → ν) : Dict κ ν :=
  match d.get? k with
  | none => d
  | some v => d.set k (f v)

theorem get?_modify (d : Dict κ ν) (k k' : κ) (f : ν → ν) :
    (d.modify k f).get? k' = if k' = k then (d.get? k).map f else d.get? k' := by
  unfold modify
  cases h : d.get? k with
  | none =>
    by_cases hk : k' = k
    · subst hk; simp [h]
    · simp [hk]
  | some v => simp [get?_set]

theorem map_get?_modify {β : Type*} {f} {g : ν → β} (h : ∀ v, g (f v) = g v) (d : Dict κ ν) (k k' : κ) :
    ((d.modify k f).get? k').map g = (d.get? k').map g := by
  rw [get?_modify]
  by_cases hk : k' = k
  · subst hk; simp [Function.comp_def, h]
  · simp [hk]

@[simp] theorem isSome_get?_modify (d : Dict κ ν) (k k' : κ) (f : ν → ν) :
    ((d.modify k f).get? k').isSome = (d.get? k').isSome := by
  rw [get?_modify]
  by_cases hk : k' = k
  · subst hk; simp
  · simp [hk]

/-! ## Removal and construction -/

def filterKeys (d : Dict κ ν) (p : κ → Bool) : Dict κ ν where
  entries := d.entries.filter fun e => p e.1
  nodup := d.nodup.sublist ((List.filter_sublist (p := fun e : κ × ν => p e.1)).map Prod.fst)

theorem get?_filterKeys (d : Dict κ ν) (p : κ → Bool) (k : κ) :
    (d.filterKeys p).get? k = if p k then d.get? k else none := by
  apply Option.ext
  intro v
  rw [get?_eq_some_iff]
  cases hp : p k with
  | true => simp [filterKeys, hp, get?_eq_some_iff]
  | false => simp [filterKeys, hp]

omit [DecidableEq κ] in
theorem filterKeys_congr {p q} (h : ∀ k ∈ d.keys, p k = q k) : d.filterKeys p = d.filterKeys q :=
  Dict.ext (List.filter_congr fun e he => h e.1 (List.mem_map_of_mem he))

/-- `d.pop(k, None)`. -/
def erase (d : Dict κ ν) (k : κ) : Dict κ ν := d.filterKeys (· ≠ k)

theorem get?_erase (d : Dict κ ν) (k k' : κ) : (d.erase k).get? k' = if k' = k then none else d.get? k' := by
  by_cases h : k' = k <;> simp [erase, get?_filterKeys, h]

theorem get?_erase_of_ne {k'} (h : k' ≠ k) : (d.erase k).get? k' = d.get? k' := by
  rw [get?_erase, if_neg h]

theorem of_get?_set {k' v'} (h : (d.set k v).get? k' = some v') :
    k' = k ∧ v' = v ∨ k' ≠ k ∧ d.get? k' = some v' := by
  rw [get?_set] at h
  split at h
  · next heq => exact .inl ⟨heq, (Option.some.inj h).symm⟩
  · next hne => exact .inr ⟨hne, h⟩

theorem of_get?_erase {k'} (h : (d.erase k).get? k' = some v) : k' ≠ k ∧ d.get? k' = some v := by
  rw [get?_erase] at h
  split at h
  · cases h
  · next hne => exact ⟨hne, h⟩

theorem get?_set_of_new {k' v'} (hnew : d.get? k = none) (h : d.get? k' = some v') :
    (d.set k v).get? k' = some v' := by
  rw [get?_set_other d v, h]
  rintro rfl
  rw [hnew] at h
  cases h

theorem forall_set {P : κ → ν → Prop} (h : ∀ k v, d.get? k = some v → P k v) (hv : P k v) (k' : κ) (v' : ν)
    (hget : (d.set k v).get? k' = some v') : P k' v' := by
  rcases of_get?_set hget with ⟨rfl, rfl⟩ | ⟨-, hget⟩
  · exact hv
  · exact h k' v' hget

theorem forall_erase {P : κ → ν → Prop} (h : ∀ k v, d.get? k = some v → P k v) (k' : κ) (v' : ν)
    (hget : (d.erase k).get? k' = some v') : P k' v' :=
  h k' v' (of_get?_erase hget).2

theorem perm_cons_erase (h : d.get? k = some v) : d.entries.Perm ((k, v) :: (d.erase k).entries) := by
  have hnot : (k, v) ∉ (d.erase k).entries := fun hmem => by
    have := get?_eq_some_iff.2 hmem
    simp [get?_erase] at this
  refine (List.perm_ext_iff_of_nodup d.nodup_entries
    (List.nodup_cons.2 ⟨hnot, (d.erase k).nodup_entries⟩)).2 fun e => ?_
  obtain ⟨a, b⟩ := e
  rw [List.mem_cons, ← get?_eq_some_iff, ← get?_eq_some_iff, get?_erase, Prod.mk.injEq]
  by_cases ha : a = k
  · subst ha
    simp [h, eq_comm]
  · simp [ha]

theorem perm_set (d : Dict κ ν) (k : κ) (v : ν) : (d.set k v).entries.Perm ((k, v) :: (d.erase k).entries) := by
  have herase : ((d.set k v).erase k).entries.Perm (d.erase k).entries := by
    refine (List.perm_ext_iff_of_nodup (nodup_entries _) (nodup_entries _)).2 fun e => ?_
    rw [← get?_eq_some_iff, ← get?_eq_some_iff, get?_erase, get?_erase, get?_set]
    split <;> rfl
  exact (perm_cons_erase (get?_set_self d k v)).trans (herase.cons _)

theorem perm_values_erase (h : d.get? k = some v) : d.values.Perm (v :: (d.erase k).values) :=
  (perm_cons_erase h).map Prod.snd

theorem perm_values_set (d : Dict κ ν) (k : κ) (v : ν) : (d.set k v).values.Perm (v :: (d.erase k).values) :=
  (d.perm_set k v).map Prod.snd

theorem perm_keys_erase (h : d.get? k = some v) : d.keys.Perm (k :: (d.erase k).keys) :=
  (perm_cons_erase h).map Prod.fst

theorem perm_keys_set (d : Dict κ ν) (k : κ) (v : ν) : (d.set k v).keys.Perm (k :: (d.erase k).keys) :=
  (d.perm_set k v).map Prod.fst

theorem erase_of_none (h : d.get? k = none) : d.erase k = d := by
  refine Dict.ext (List.filter_eq_self.2 fun e he => ?_)
  have hne : e.1 ≠ k := fun heq => by
    rw [← heq, get?_eq_some_iff.2 he] at h
    cases h
  simpa using hne

/-- `dict(es)`: a later entry for a key overwrites an earlier one. -/
def ofList (es : List (κ × ν)) : Dict κ ν := es.foldl (fun d e => d.set e.1 e.2) empty

/-- Of the entries that are written for a key the last one stays. -/
theorem get?_foldl_set (es : List (κ × ν)) (d : Dict κ ν) (k : κ) :
    (es.foldl (fun d e => d.set e.1 e.2) d).get? k = (es.reverse.lookup k).or (d.get? k) := by
  induction es using List.reverseRecOn with
  | nil => rfl
  | append_singleton es e ih =>
    obtain ⟨a, b⟩ := e
    rw [List.foldl_append, List.foldl_cons, List.foldl_nil, get?_set, ih, List.reverse_append, List.reverse_singleton,
      List.singleton_append, List.lookup_cons]
    by_cases h : k = a
    · simp [h]
    · simp [h, beq_eq_false_iff_ne.mpr h]

theorem get?_foldl_set_of_not_mem (es : List (κ × ν)) {d : Dict κ ν} (hk : k ∉ es.map Prod.fst) :
    (es.foldl (fun d e => d.set e.1 e.2) d).get? k = d.get? k := by
  have hnone : es.reverse.lookup k = none := by
    refine List.lookup_eq_none_iff.mpr fun e he => bne_iff_ne.mpr fun heq => ?_
    exact hk (List.mem_map.mpr ⟨e, List.mem_reverse.mp he, heq.symm⟩)
  rw [get?_foldl_set, hnone, Option.none_or]

theorem get?_foldl_set_of_mem {es : List (κ × ν)} {d : Dict κ ν} (hnodup : (es.map Prod.fst).Nodup)
    (hmem : (k, v) ∈ es) : (es.foldl (fun d e => d.set e.1 e.2) d).get? k = some v := by
  have hsome : es.reverse.lookup k = some v :=
    (lookup_eq_some_iff (by simpa using hnodup)).mpr (List.mem_reverse.mpr hmem)
  rw [get?_foldl_set, hsome, Option.some_or]

theorem get?_ofList (es : List (κ × ν)) (k : κ) : (ofList es).get? k = es.reverse.lookup k := by
  rw [ofList, get?_foldl_set, get?_empty, Option.or_none]

theorem isSome_get?_ofList {es : List (κ × ν)} : ((ofList es).get? k).isSome ↔ k ∈ es.map Prod.fst := by
  simp only [get?_ofList, List.lookup_isSome_iff, List.mem_reverse, beq_iff_eq, List.mem_map, @eq_comm κ k]

theorem mem_of_get?_ofList {es} (h : (ofList es).get? k = some v) : (k, v) ∈ es := by
  rw [get?_ofList, List.lookup_eq_some_iff] at h
  obtain ⟨before, after, heq, -⟩ := h
  exact List.mem_reverse.mp (by simp [heq])

theorem set_eq_self_iff : d.set k v = d ↔ d.get? k = some v := by
  constructor
  · intro h
    rw [← h, get?_set_self]
  · have hself : ∀ es : List (κ × ν), es.lookup k = some v → setEntries k v es = es := by
      intro es
      induction es with
      | nil => exact fun h => (by cases h)
      | cons e es ih =>
        obtain ⟨a, b⟩ := e
        intro h
        rw [setEntries]
        split
        · rename_i ha
          subst ha
          rw [List.lookup_cons_self, Option.some.injEq] at h
          rw [h]
        · rename_i ha
          rw [List.lookup_cons, beq_eq_false_iff_ne.mpr (Ne.symm ha)] at h
          rw [ih h]
    exact fun h => Dict.ext (hself d.entries h)

theorem entries_set_of_none (v : ν) (h : k ∉ d.keys) : (d.set k v).entries = d.entries ++ [(k, v)] := by
  have happend : ∀ es : List (κ × ν), k ∉ es.map Prod.fst → setEntries k v es = es ++ [(k, v)] := by
    intro es
    induction es with
    | nil => exact fun _ => rfl
    | cons e es ih =>
      intro hk
      rw [List.map_cons, List.mem_cons, not_or] at hk
      rw [setEntries, if_neg (Ne.symm hk.1), ih hk.2, List.cons_append]
  exact happend d.entries h

theorem ofList_entries (d : Dict κ ν) : ofList d.entries = d := by
  have hfold : ∀ (es : List (κ × ν)) (d' : Dict κ ν), ((d'.entries ++ es).map Prod.fst).Nodup →
      (es.foldl (fun d e => d.set e.1 e.2) d').entries = d'.entries ++ es := by
    intro es
    induction es with
    | nil => exact fun d' _ => (List.append_nil _).symm
    | cons e es ih =>
      intro d' hnodup
      have hnew : e.1 ∉ d'.keys := by
        rw [List.map_append, List.nodup_append] at hnodup
        exact fun hmem => hnodup.2.2 _ hmem _ (by simp) rfl
      have hentries := entries_set_of_none e.2 hnew
      rw [List.foldl_cons, ih (d'.set e.1 e.2) (by rw [hentries]; simpa using hnodup), hentries]
      simp
  exact Dict.ext (hfold d.entries empty (by simpa [empty] using d.nodup))

/-! ## Reads and writes in a loop -/

/-- A loop of reads and writes: the value of each key in turn is computed from the one it has, or fails to be. -/
def updateAll {α ε : Type*} (next : α → Option ν → Except ε ν) : List (κ × α) → Dict κ ν → Except ε (Dict κ ν)
  | [], d => .ok d
  | (k, a) :: es, d =>
    match next a (d.get? k) with
    | .error e => .error e
    | .ok v => updateAll next es (d.set k v)

section

variable {α ε : Type*} {next : α → Option ν → Except ε ν} {es : List (κ × α)} {d d' : Dict κ ν}

theorem updateAll_cons_ok {a} (h : next a (d.get? k) = .ok v) :
    updateAll next ((k, a) :: es) d = updateAll next es (d.set k v) := by
  rw [updateAll, h]

theorem updateAll_cons_eq_ok {a} (h : updateAll next ((k, a) :: es) d = .ok d') :
    ∃ v, next a (d.get? k) = .ok v ∧ updateAll next es (d.set k v) = .ok d' := by
  rw [updateAll] at h
  cases hnext : next a (d.get? k) with
  | error e =>
    rw [hnext] at h
    cases h
  | ok v =>
    rw [hnext] at h
    exact ⟨v, rfl, h⟩

theorem get?_updateAll_of_not_mem (h : updateAll next es d = .ok d') (hk : k ∉ es.map Prod.fst) :
    d'.get? k = d.get? k := by
  induction es generalizing d with
  | nil =>
    cases h
    rfl
  | cons e es ih =>
    obtain ⟨k', a⟩ := e
    rw [List.map_cons, List.mem_cons, not_or] at hk
    obtain ⟨v, -, hrest⟩ := updateAll_cons_eq_ok h
    rw [ih hrest hk.2, get?_set_other d v hk.1]

theorem get?_updateAll (hnodup : (es.map Prod.fst).Nodup) (h : updateAll next es d = .ok d') :
    ∀ e ∈ es, ∃ v, next e.2 (d.get? e.1) = .ok v ∧ d'.get? e.1 = some v := by
  induction es generalizing d with
  | nil => exact List.forall_mem_nil _
  | cons e es ih =>
    obtain ⟨k, a⟩ := e
    obtain ⟨hnew, hnodup⟩ := List.nodup_cons.mp hnodup
    obtain ⟨v, hnext, hrest⟩ := updateAll_cons_eq_ok h
    refine List.forall_mem_cons.mpr ⟨⟨v, hnext, ?_⟩, fun e he => ?_⟩
    · rw [get?_updateAll_of_not_mem hrest hnew, get?_set_self]
    · obtain ⟨w, hw, hget⟩ := ih hnodup hrest e he
      have hne : e.1 ≠ k := fun heq => hnew (List.mem_map.mpr ⟨e, he, heq⟩)
      rw [get?_set_other d v hne] at hw
      exact ⟨w, hw, hget⟩

theorem updateAll_isOk_iff (hnodup : (es.map Prod.fst).Nodup) :
    (∃ d', updateAll next es d = .ok d') ↔ ∀ e ∈ es, ∃ v, next e.2 (d.get? e.1) = .ok v := by
  refine ⟨fun ⟨d', h⟩ e he => (get?_updateAll hnodup h e he).imp fun _ hv => hv.1, fun h => ?_⟩
  induction es generalizing d with
  | nil => exact ⟨d, rfl⟩
  | cons e es ih =>
    obtain ⟨k, a⟩ := e
    obtain ⟨hnew, hnodup⟩ := List.nodup_cons.mp hnodup
    obtain ⟨⟨v, hv⟩, hes⟩ := List.forall_mem_cons.mp h
    rw [updateAll_cons_ok hv]
    refine ih hnodup fun e he => ?_
    have hne : e.1 ≠ k := fun heq => hnew (List.mem_map.mpr ⟨e, he, heq⟩)
    rw [get?_set_other d v hne]
    exact hes e he

theorem updateAll_of_fixed (h : ∀ e ∈ es, ∃ v, d.get? e.1 = some v ∧ next e.2 (some v) = .ok v) :
    updateAll next es d = .ok d := by
  induction es with
  | nil => rfl
  | cons e es ih =>
    obtain ⟨k, a⟩ := e
    obtain ⟨⟨v, hget, hnext⟩, hes⟩ := List.forall_mem_cons.mp h
    dsimp only at hget hnext
    rw [← hget] at hnext
    rw [updateAll_cons_ok hnext, set_eq_self_iff.mpr hget, ih hes]

/-- **A second round of the loop changes nothing** exactly when it would write what the first wrote. -/
theorem updateAll_again_iff (hnodup : (es.map Prod.fst).Nodup) (h : updateAll next es d = .ok d') :
    updateAll next es d' = .ok d' ↔ ∀ e ∈ es, ∀ v, d'.get? e.1 = some v → next e.2 (some v) = .ok v := by
  constructor
  · intro hagain e he v hv
    obtain ⟨w, hw, hget⟩ := get?_updateAll hnodup hagain e he
    rw [hv] at hw hget
    cases hget
    exact hw
  · intro hfixed
    refine updateAll_of_fixed fun e he => ?_
    obtain ⟨v, -, hget⟩ := get?_updateAll hnodup h e he
    exact ⟨v, hget, hfixed e he v hget⟩

end

/-! ## Dictionaries of lists -/

/-- `d[k] += vs` on a `defaultdict(list)`. -/
def appendAt (d : Dict κ (List ν)) (k : κ) (vs : List ν) : Dict κ (List ν) := d.set k ((d.get? k).getD [] ++ vs)

theorem flatMap_setEntries_append (k : κ) (vs : List ν) : ∀ es : List (κ × List ν),
    ((setEntries k ((es.lookup k).getD [] ++ vs) es).flatMap fun e => e.2.map (e.1, ·)).Perm
      ((es.flatMap fun e => e.2.map (e.1, ·)) ++ vs.map (k, ·))
  | [] => by simp [setEntries]
  | (a, b) :: es => by
    by_cases h : a = k
    · subst h
      simp only [setEntries, List.lookup_cons_self, Option.getD_some, if_true, List.flatMap_cons, List.map_append,
        List.append_assoc]
      exact List.perm_append_comm.append_left _
    · have hb := beq_eq_false_iff_ne.2 (Ne.symm h)
      simp only [setEntries, List.lookup_cons, hb, h, if_false, List.flatMap_cons, List.append_assoc]
      exact (flatMap_setEntries_append k vs es).append_left _

theorem flatten_appendAt (d : Dict κ (List ν)) (k : κ) (vs : List ν) :
    (d.appendAt k vs).flatten.Perm (d.flatten ++ vs.map (k, ·)) :=
  flatMap_setEntries_append k vs d.entries

theorem get?_foldl_appendAt (f : ν → κ) (vs : List ν) (k : κ) :
    (vs.foldl (fun d v => d.appendAt (f v) [v]) empty).get? k =
      if vs.filter (f · = k) = [] then none else some (vs.filter (f · = k)) := by
  induction vs using List.reverseRecOn with
  | nil => rfl
  | append_singleton vs v ih =>
    rw [List.foldl_append, List.filter_append, List.filter_singleton]
    change (appendAt _ (f v) [v]).get? k = _
    generalize vs.foldl (fun d v => d.appendAt (f v) [v]) empty = d at ih
    rw [appendAt, get?_set]
    by_cases hk : k = f v
    · subst hk
      have hold : (d.get? (f v)).getD [] = vs.filter (f · = f v) := by
        rw [ih]
        split
        · next h => exact h.symm
        · rfl
      simp [hold]
    · simp only [hk, Ne.symm hk, if_false, ih, decide_false, cond_false, List.append_nil]

end Dict

end Lib
