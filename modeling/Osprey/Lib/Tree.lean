/-
Trees of lists and keyed entries with values at the leaves: what a JSON
document is once it is read. A leaf is found by the positions of the
children on the way to it, and what is passed on the way are its steps: the
key of an entry, or an item of a list.

Two trees have the same shape when they differ in the values of their
leaves only. A mask puts one value for those leaves and empty containers that
are to be hidden.
-/
import Mathlib.Data.List.Basic
import Mathlib.Data.Option.Basic

namespace Lib

/-- Nested lists and entries, with values in `α` at the leaves. -/
inductive Tree (κ α : Type)
  | leaf (value : α)
  | list (items : List (Tree κ α))
  | dict (entries : List (κ × Tree κ α))

/-- What is passed from a tree to one of its children. -/
inductive Step (κ : Type)
  | key (k : κ)
  | item
  deriving DecidableEq, Repr

def Step.keys {κ : Type} : List (Step κ) → List κ
  | [] => []
  | .key k :: steps => k :: keys steps
  | .item :: steps => keys steps

namespace Tree

variable {κ α β : Type}

@[elab_as_elim, induction_eliminator]
theorem ind {motive : Tree κ α → Prop} (leaf : ∀ value, motive (.leaf value))
    (list : ∀ items, (∀ t ∈ items, motive t) → motive (.list items))
    (dict : ∀ entries, (∀ e ∈ entries, motive e.2) → motive (.dict entries)) (t : Tree κ α) : motive t :=
  @Tree.rec κ α motive (fun items => ∀ t ∈ items, motive t) (fun entries => ∀ e ∈ entries, motive e.2)
    (fun e => motive e.2) leaf list dict (List.forall_mem_nil _)
    (fun _ _ ht hts => List.forall_mem_cons.mpr ⟨ht, hts⟩)
    (List.forall_mem_nil _) (fun _ _ he hes => List.forall_mem_cons.mpr ⟨he, hes⟩) (fun _ _ ht => ht) t

/-! ## Leaves -/

def children : Tree κ α → List (Step κ × Tree κ α)
  | leaf _ => []
  | list items => items.map fun t => (.item, t)
  | dict entries => entries.map fun e => (.key e.1, e.2)

@[simp] theorem children_leaf (value : α) : (leaf value : Tree κ α).children = [] := rfl

variable (items : List (Tree κ α))

@[simp] theorem children_list : (list items).children = items.map fun t => (.item, t) := rfl

variable (entries : List (κ × Tree κ α))

@[simp] theorem children_dict : (dict entries).children = entries.map fun e => (.key e.1, e.2) := rfl

/-- The leaf at a position: the steps to it and its value. -/
def at? : Tree κ α → List Nat → Option (List (Step κ) × α)
  | leaf value, [] => some ([], value)
  | _, [] => none
  | t, i :: pos => t.children[i]?.bind fun c => (c.2.at? pos).map fun l => (c.1 :: l.1, l.2)

@[simp] theorem at?_leaf_nil (value : α) : (leaf value : Tree κ α).at? [] = some ([], value) := rfl

@[simp] theorem at?_list_nil : (list items).at? [] = none := rfl

@[simp] theorem at?_dict_nil : (dict entries).at? [] = none := rfl

theorem at?_cons (t : Tree κ α) (i : Nat) (pos : List Nat) :
    t.at? (i :: pos) = t.children[i]?.bind fun c => (c.2.at? pos).map fun l => (c.1 :: l.1, l.2) := by
  rw [at?]

variable {t : Tree κ α} {steps : List (Step κ)} {pos : List Nat} {i : Nat} {value : α}

theorem at?_cons_eq_some :
    t.at? (i :: pos) = some (steps, value) ↔
      ∃ s child rest, t.children[i]? = some (s, child) ∧ child.at? pos = some (rest, value) ∧
        steps = s :: rest := by
  rw [at?_cons]
  constructor
  · intro h
    obtain ⟨⟨s, child⟩, hc, h⟩ := Option.bind_eq_some_iff.mp h
    obtain ⟨⟨rest, v⟩, hv, h⟩ := Option.map_eq_some_iff.mp h
    cases h
    exact ⟨s, child, rest, hc, hv, rfl⟩
  · rintro ⟨s, child, rest, hc, hv, rfl⟩
    simp [hc, hv]

theorem at?_nil_eq_some : t.at? [] = some (steps, value) ↔ t = leaf value ∧ steps = [] := by
  cases t with
  | leaf v => simp [and_comm, eq_comm]
  | list items => simp
  | dict entries => simp

/-! ## Shapes -/

mutual

def shape : Tree κ α → Tree κ Unit
  | leaf _ => leaf ()
  | list items => list (shapeItems items)
  | dict entries => dict (shapeEntries entries)

def shapeItems : List (Tree κ α) → List (Tree κ Unit)
  | [] => []
  | t :: items => t.shape :: shapeItems items

def shapeEntries : List (κ × Tree κ α) → List (κ × Tree κ Unit)
  | [] => []
  | (k, t) :: entries => (k, t.shape) :: shapeEntries entries

end

theorem shapeItems_eq_map : ∀ items : List (Tree κ α), shapeItems items = items.map shape
  | [] => rfl
  | t :: items => by rw [shapeItems, shapeItems_eq_map items, List.map_cons]

theorem shapeEntries_eq_map :
    ∀ entries : List (κ × Tree κ α), shapeEntries entries = entries.map fun e => (e.1, e.2.shape)
  | [] => rfl
  | (k, t) :: entries => by rw [shapeEntries, shapeEntries_eq_map entries, List.map_cons]

@[simp] theorem shape_leaf (value : α) : (leaf value : Tree κ α).shape = leaf () := rfl

@[simp] theorem shape_list : (list items).shape = list (items.map shape) := by
  rw [shape, shapeItems_eq_map]

@[simp] theorem shape_dict : (dict entries).shape = dict (entries.map fun e => (e.1, e.2.shape)) := by
  rw [shape, shapeEntries_eq_map]

theorem children_shape (t : Tree κ α) : t.shape.children = t.children.map fun c => (c.1, c.2.shape) := by
  cases t with
  | leaf value => rfl
  | list items => simp
  | dict entries => simp

theorem at?_shape (t : Tree κ α) (pos : List Nat) : t.shape.at? pos = (t.at? pos).map fun l => (l.1, ()) := by
  induction pos generalizing t with
  | nil => cases t <;> simp
  | cons i pos ih =>
    rw [at?_cons, at?_cons, children_shape, List.getElem?_map]
    cases t.children[i]? with
    | none => rfl
    | some c => simp [ih, Function.comp_def]

variable {u : Tree κ α} {v : α}

theorem exists_at?_of_shape_eq (hshape : t.shape = u.shape) (ht : t.at? pos = some (steps, value)) :
    ∃ w, u.at? pos = some (steps, w) := by
  have hu := u.at?_shape pos
  rw [← hshape, at?_shape, ht] at hu
  obtain ⟨⟨steps', w⟩, hw, h⟩ := Option.map_eq_some_iff.mp hu.symm
  cases h
  exact ⟨w, hw⟩

theorem shape_eq_leaf (h : (leaf v).shape = u.shape) : ∃ w, u = leaf w := by
  cases u with
  | leaf w => exact ⟨w, rfl⟩
  | list us => simp at h
  | dict us => simp at h

theorem shape_eq_list {ts : List (Tree κ α)} (h : (list ts).shape = u.shape) :
    ∃ us, u = list us ∧ ts.map shape = us.map shape := by
  cases u with
  | leaf w => simp at h
  | list us => exact ⟨us, rfl, by simpa using h⟩
  | dict us => simp at h

theorem shape_eq_dict {ts : List (κ × Tree κ α)} (h : (dict ts).shape = u.shape) :
    ∃ us, u = dict us ∧ (ts.map fun e => (e.1, e.2.shape)) = us.map fun e => (e.1, e.2.shape) := by
  cases u with
  | leaf w => simp at h
  | list us => simp at h
  | dict us => exact ⟨us, rfl, by simpa using h⟩

/-- Lists that look alike under `s` have one image under `f`, when elements that look alike have. -/
theorem map_eq_map_of_alike {γ δ ε : Type} {s : γ → δ} {f : γ → ε} {ts us : List γ} (halike : ts.map s = us.map s)
    (hf : ∀ (i : Nat) (t u : γ), ts[i]? = some t → us[i]? = some u → s t = s u → f t = f u) :
    ts.map f = us.map f := by
  refine List.ext_getElem? fun i => ?_
  have hi := congrArg (fun l => l[i]?) halike
  simp only [List.getElem?_map] at hi ⊢
  cases ht : ts[i]? with
  | none =>
    rw [ht, Option.map_none, eq_comm, Option.map_eq_none_iff] at hi
    rw [hi]
  | some t =>
    rw [ht, Option.map_some, eq_comm, Option.map_eq_some_iff] at hi
    obtain ⟨u, hu, hs⟩ := hi
    rw [hu, Option.map_some, Option.map_some, hf i t u ht hu hs.symm]

/-! ## Trees that agree on what is visible -/

/-- The trees have equal values at the leaves whose steps are visible. -/
def Agree (visible : List (Step κ) → Prop) (t u : Tree κ α) : Prop :=
  ∀ pos steps v w, t.at? pos = some (steps, v) → u.at? pos = some (steps, w) → visible steps → v = w

variable {visible : List (Step κ) → Prop}

theorem Agree.mono {visible'} (h : Agree visible t u)
    (himp : ∀ pos steps v, t.at? pos = some (steps, v) → visible' steps → visible steps) : Agree visible' t u :=
  fun pos steps v w ht hu hv => h pos steps v w ht hu (himp pos steps v ht hv)

theorem Agree.child (h : Agree visible t u)
    {s t' u'} (ht : t.children[i]? = some (s, t')) (hu : u.children[i]? = some (s, u')) :
    Agree (fun steps => visible (s :: steps)) t' u' := fun pos steps v w htv huw hvis =>
  h (i :: pos) (s :: steps) v w (at?_cons_eq_some.mpr ⟨s, t', steps, ht, htv, rfl⟩)
    (at?_cons_eq_some.mpr ⟨s, u', steps, hu, huw, rfl⟩) hvis

theorem Agree.item {ts us} (h : Agree visible (list ts) (list us)) (ht : ts[i]? = some t) (hu : us[i]? = some u) :
    Agree (fun steps => visible (.item :: steps)) t u := by
  refine h.child (i := i) ?_ ?_
  · simp [ht]
  · simp [hu]

theorem Agree.entry {ts us} (h : Agree visible (dict ts) (dict us)) {k} (ht : ts[i]? = some (k, t))
    (hu : us[i]? = some (k, u)) : Agree (fun steps => visible (.key k :: steps)) t u := by
  refine h.child (i := i) ?_ ?_
  · simp [ht]
  · simp [hu]

theorem Agree.eq (hshape : t.shape = u.shape) (h : Agree visible t u) (hall : ∀ steps, visible steps) : t = u := by
  induction t generalizing u visible with
  | leaf v =>
    obtain ⟨w, rfl⟩ := shape_eq_leaf hshape
    rw [h [] [] v w rfl rfl (hall [])]
  | list ts ih =>
    obtain ⟨us, rfl, halike⟩ := shape_eq_list hshape
    have hmap : ts.map id = us.map id := map_eq_map_of_alike halike fun i t u ht hu hs =>
      ih t (List.mem_of_getElem? ht) hs (h.item ht hu) fun steps => hall _
    rw [List.map_id, List.map_id] at hmap
    rw [hmap]
  | dict ts ih =>
    obtain ⟨us, rfl, halike⟩ := shape_eq_dict hshape
    have hmap : ts.map id = us.map id := map_eq_map_of_alike halike fun i t u ht hu hs => by
      obtain ⟨k, t⟩ := t
      obtain ⟨k', u⟩ := u
      obtain ⟨rfl, hs⟩ := Prod.mk.inj hs
      exact Prod.ext rfl (ih (k, t) (List.mem_of_getElem? ht) hs (h.entry ht hu) fun steps => hall _)
    rw [List.map_id, List.map_id] at hmap
    rw [hmap]

/-! ## Replacing one leaf -/

def set : Tree κ α → List Nat → α → Tree κ α
  | leaf _, [], value => leaf value
  | list items, i :: pos, value => list (items.modify i fun t => t.set pos value)
  | dict entries, i :: pos, value => dict (entries.modify i fun e => (e.1, e.2.set pos value))
  | t, _, _ => t

theorem map_modify_of_comm {γ δ : Type} {f g} {h : δ → δ} (hcomm : ∀ c, f (g c) = h (f c)) (i : Nat)
    (l : List γ) : (l.modify i g).map f = (l.map f).modify i h := by
  refine List.ext_getElem? fun j => ?_
  rw [List.getElem?_map, List.getElem?_modify, List.getElem?_modify, List.getElem?_map]
  cases l[j]? with
  | none => rfl
  | some c => by_cases hij : i = j <;> simp [hij, hcomm]

theorem children_set (t : Tree κ α) (i : Nat) (pos : List Nat) (value : α) :
    (t.set (i :: pos) value).children = t.children.modify i fun c => (c.1, c.2.set pos value) := by
  cases t with
  | leaf v => simp [set]
  | list items =>
    rw [set, children_list, children_list]
    refine map_modify_of_comm ?_ i items
    exact fun _ => rfl
  | dict entries =>
    rw [set, children_dict, children_dict]
    refine map_modify_of_comm ?_ i entries
    exact fun _ => rfl

theorem at?_set_self
    (h : t.at? pos = some (steps, v)) (value : α) : (t.set pos value).at? pos = some (steps, value) := by
  induction pos generalizing t steps with
  | nil =>
    obtain ⟨rfl, rfl⟩ := at?_nil_eq_some.mp h
    rfl
  | cons i pos ih =>
    obtain ⟨s, child, rest, hc, hv, rfl⟩ := at?_cons_eq_some.mp h
    refine at?_cons_eq_some.mpr ⟨s, child.set pos value, rest, ?_, ih hv, rfl⟩
    simp [children_set, hc]

theorem at?_set_of_ne {pos'} (hne : pos' ≠ pos) (t : Tree κ α) (value : α) :
    (t.set pos value).at? pos' = t.at? pos' := by
  induction pos generalizing t pos' with
  | nil =>
    obtain ⟨i, pos', rfl⟩ := List.exists_cons_of_ne_nil hne
    cases t <;> rfl
  | cons i pos ih =>
    cases pos' with
    | nil => cases t <;> rfl
    | cons j pos' =>
      rw [at?_cons, at?_cons, children_set, List.getElem?_modify]
      cases t.children[j]? with
      | none => rfl
      | some c =>
        by_cases hij : i = j
        · subst hij
          have hne' : pos' ≠ pos := fun h => hne (by rw [h])
          simp [ih hne']
        · simp [hij]

@[simp] theorem shape_set (t : Tree κ α) (pos : List Nat) (value : α) : (t.set pos value).shape = t.shape := by
  induction pos generalizing t with
  | nil => cases t <;> rfl
  | cons i pos ih =>
    cases t with
    | leaf v => rfl
    | list items =>
      have hid : (items.map shape).modify i id = items.map shape := List.modify_id i _
      rw [set, shape_list, shape_list, map_modify_of_comm (h := id) (fun t => ih t), hid]
    | dict entries =>
      have hid : (entries.map fun e => (e.1, e.2.shape)).modify i id = entries.map fun e => (e.1, e.2.shape) :=
        List.modify_id i _
      rw [set, shape_dict, shape_dict, map_modify_of_comm (h := id) (fun e => by simp [ih]), hid]

theorem agree_set (h : t.at? pos = some (steps, v)) (hvis : ¬visible steps) (a b : α) :
    Agree visible (t.set pos a) (t.set pos b) := by
  intro pos' steps' v' w' hv hw hvis'
  by_cases hpos : pos' = pos
  · subst hpos
    rw [at?_set_self h] at hv
    cases hv
    exact absurd hvis' hvis
  · rw [at?_set_of_ne hpos] at hv hw
    rw [hv] at hw
    cases hw
    rfl

/-! ## Nodes -/

/-- The node at a position, with the steps to it. -/
def node? : Tree κ α → List Nat → Option (List (Step κ) × Tree κ α)
  | t, [] => some ([], t)
  | t, i :: pos => t.children[i]?.bind fun c => (c.2.node? pos).map fun n => (c.1 :: n.1, n.2)

@[simp] theorem node?_nil (t : Tree κ α) : t.node? [] = some ([], t) := by
  rw [node?]

variable {e : Tree κ α}

theorem node?_cons_eq_some :
    t.node? (i :: pos) = some (steps, e) ↔
      ∃ s child rest, t.children[i]? = some (s, child) ∧ child.node? pos = some (rest, e) ∧ steps = s :: rest := by
  rw [node?]
  constructor
  · intro h
    obtain ⟨⟨s, child⟩, hc, h⟩ := Option.bind_eq_some_iff.mp h
    obtain ⟨⟨rest, e'⟩, he, h⟩ := Option.map_eq_some_iff.mp h
    cases h
    exact ⟨s, child, rest, hc, he, rfl⟩
  · rintro ⟨s, child, rest, hc, he, rfl⟩
    simp [hc, he]

theorem at?_eq_some_iff_node? : t.at? pos = some (steps, value) ↔ t.node? pos = some (steps, leaf value) := by
  induction pos generalizing t steps with
  | nil =>
    rw [at?_nil_eq_some, node?_nil, Option.some_inj, Prod.mk.injEq, and_comm, eq_comm (a := steps)]
  | cons i pos ih => simp only [at?_cons_eq_some, node?_cons_eq_some, ih]

theorem at?_eq_none_of_node?
    (h : t.node? pos = some (steps, e)) (hnot : ∀ value, e ≠ leaf value) : t.at? pos = none := by
  cases hleaf : t.at? pos with
  | none => rfl
  | some l =>
    rw [at?_eq_some_iff_node?.mp hleaf] at h
    cases h
    exact absurd rfl (hnot l.2)

/-- Entries have distinct keys, here and below. -/
inductive KeysDistinct : Tree κ α → Prop
  | leaf (value : α) : KeysDistinct (leaf value)
  | list {items : List (Tree κ α)} (items_distinct : ∀ t ∈ items, KeysDistinct t) : KeysDistinct (list items)
  | dict {entries : List (κ × Tree κ α)} (nodup : (entries.map Prod.fst).Nodup)
      (entries_distinct : ∀ e ∈ entries, KeysDistinct e.2) : KeysDistinct (dict entries)

/-! ## Masking -/

mutual

/-- The tree with `value` for every leaf, empty list and empty dictionary that is to be hidden. -/
def mask (hide : List (Step κ) → Tree κ α → Bool) (value : α) : Tree κ α → Tree κ α
  | leaf v => if hide [] (leaf v) then leaf value else leaf v
  | list [] => if hide [] (list []) then leaf value else list []
  | list (t :: items) => list (maskItems (fun steps => hide (.item :: steps)) value (t :: items))
  | dict [] => if hide [] (dict []) then leaf value else dict []
  | dict (e :: entries) => dict (maskEntries hide value (e :: entries))

def maskItems (hide : List (Step κ) → Tree κ α → Bool) (value : α) : List (Tree κ α) → List (Tree κ α)
  | [] => []
  | t :: items => t.mask hide value :: maskItems hide value items

def maskEntries (hide : List (Step κ) → Tree κ α → Bool) (value : α) :
    List (κ × Tree κ α) → List (κ × Tree κ α)
  | [] => []
  | (k, t) :: entries => (k, t.mask (fun steps => hide (.key k :: steps)) value) :: maskEntries hide value entries

end

section

variable {hide hide' : List (Step κ) → Tree κ α → Bool} {value : α}

theorem maskItems_eq_map : ∀ items : List (Tree κ α), maskItems hide value items = items.map (mask hide value)
  | [] => rfl
  | t :: items => by rw [maskItems, maskItems_eq_map items, List.map_cons]

theorem maskEntries_eq_map : ∀ entries : List (κ × Tree κ α),
    maskEntries hide value entries =
      entries.map fun e => (e.1, e.2.mask (fun steps => hide (.key e.1 :: steps)) value)
  | [] => rfl
  | (k, t) :: entries => by rw [maskEntries, maskEntries_eq_map entries, List.map_cons]

theorem mask_list {items} (hne : items ≠ []) :
    (list items).mask hide value = list (items.map (mask (fun steps => hide (.item :: steps)) value)) := by
  obtain ⟨t, items, rfl⟩ := List.exists_cons_of_ne_nil hne
  rw [mask, maskItems_eq_map]

theorem mask_dict {entries} (hne : entries ≠ []) :
    (dict entries).mask hide value =
      dict (entries.map fun e => (e.1, e.2.mask (fun steps => hide (.key e.1 :: steps)) value)) := by
  obtain ⟨e, entries, rfl⟩ := List.exists_cons_of_ne_nil hne
  rw [mask, maskEntries_eq_map]

theorem mask_end (hend : e.children = []) : e.mask hide value = if hide [] e then leaf value else e := by
  cases e with
  | leaf v => rw [mask]
  | list items =>
    obtain rfl : items = [] := by simpa using hend
    rw [mask]
  | dict entries =>
    obtain rfl : entries = [] := by simpa using hend
    rw [mask]

theorem children_mask (t : Tree κ α) : (t.mask hide value).children =
    t.children.map fun c => (c.1, c.2.mask (fun steps => hide (c.1 :: steps)) value) := by
  by_cases hend : t.children = []
  · rw [mask_end hend, hend]
    split
    · rfl
    · exact hend
  · cases t with
    | leaf v => exact absurd rfl hend
    | list items => simp [mask_list (fun h => hend (by rw [h]; rfl) : items ≠ [])]
    | dict entries => simp [mask_dict (fun h => hend (by rw [h]; rfl) : entries ≠ [])]

/-- Induction as a mask walks: a node without children is where it ends. -/
@[elab_as_elim]
theorem walk {motive : Tree κ α → Prop} (ends : ∀ e, e.children = [] → motive e)
    (list : ∀ items, items ≠ [] → (∀ t ∈ items, motive t) → motive (.list items))
    (dict : ∀ entries, entries ≠ [] → (∀ c ∈ entries, motive c.2) → motive (.dict entries)) (t : Tree κ α) :
    motive t := by
  induction t with
  | leaf v => exact ends _ rfl
  | list items ih =>
    by_cases hne : items = []
    · exact ends _ (by simp [hne])
    · exact list items hne ih
  | dict entries ih =>
    by_cases hne : entries = []
    · exact ends _ (by simp [hne])
    · exact dict entries hne ih

theorem mask_congr (h : ∀ pos steps e, t.node? pos = some (steps, e) → hide steps e = hide' steps e) :
    t.mask hide value = t.mask hide' value := by
  induction t using walk generalizing hide hide' with
  | ends e hend => rw [mask_end hend, mask_end hend, h [] [] _ (node?_nil _)]
  | list items hne ih =>
    rw [mask_list hne, mask_list hne]
    refine congrArg _ (List.map_congr_left fun t ht => ih t ht fun pos steps e he => ?_)
    obtain ⟨i, hi⟩ := List.getElem?_of_mem ht
    exact h (i :: pos) _ e (node?_cons_eq_some.mpr ⟨.item, t, steps, by simp [hi], he, rfl⟩)
  | dict entries hne ih =>
    rw [mask_dict hne, mask_dict hne]
    refine congrArg _ (List.map_congr_left fun c hc => Prod.ext rfl (ih c hc fun pos steps e he => ?_))
    obtain ⟨i, hi⟩ := List.getElem?_of_mem hc
    exact h (i :: pos) _ e (node?_cons_eq_some.mpr ⟨.key c.1, c.2, steps, by simp [hi], he, rfl⟩)

theorem mask_false (t : Tree κ α) : t.mask (fun _ _ => false) value = t := by
  induction t using walk with
  | ends e hend => rw [mask_end hend, if_neg Bool.false_ne_true]
  | list items hne ih => rw [mask_list hne, List.map_congr_left ih, List.map_id']
  | dict entries hne ih =>
    have hsame : ∀ c ∈ entries, (c.1, c.2.mask (fun _ _ => false) value) = c :=
      fun c hc => Prod.ext rfl (ih c hc)
    rw [mask_dict hne, List.map_congr_left hsame, List.map_id']

theorem mask_mask (t : Tree κ α) : (t.mask hide value).mask hide' value =
    t.mask (fun steps e => hide steps e || hide' steps e) value := by
  induction t using walk generalizing hide hide' with
  | ends e hend =>
    rw [mask_end hend, mask_end hend]
    cases hhide : hide [] e with
    | true => simp [mask]
    | false => simp [mask_end hend]
  | list items hne ih =>
    rw [mask_list hne, mask_list hne, mask_list (by simpa using hne), List.map_map]
    exact congrArg _ (List.map_congr_left fun t ht => ih t ht)
  | dict entries hne ih =>
    rw [mask_dict hne, mask_dict hne, mask_dict (by simpa using hne), List.map_map]
    exact congrArg _ (List.map_congr_left fun c hc => Prod.ext rfl (ih c hc))

theorem KeysDistinct.mask (h : t.KeysDistinct) : (t.mask hide value).KeysDistinct := by
  induction t using walk generalizing hide with
  | ends e hend =>
    rw [mask_end hend]
    split
    · exact .leaf value
    · exact h
  | list items hne ih =>
    obtain - | hitems | - := h
    rw [mask_list hne]
    refine .list fun t ht => ?_
    obtain ⟨t, hmem, rfl⟩ := List.mem_map.mp ht
    exact ih t hmem (hitems t hmem)
  | dict entries hne ih =>
    obtain - | - | ⟨hnodup, hentries⟩ := h
    rw [mask_dict hne]
    refine .dict (by simpa [Function.comp_def] using hnodup) fun c hc => ?_
    obtain ⟨c, hmem, rfl⟩ := List.mem_map.mp hc
    exact ih c hmem (hentries c hmem)

theorem node?_mask_of_end (h : t.node? pos = some (steps, e)) (hend : e.children = []) :
    (t.mask hide value).node? pos = some (steps, if hide steps e then leaf value else e) := by
  induction pos generalizing t steps hide with
  | nil =>
    cases h
    rw [node?_nil, mask_end hend]
  | cons i pos ih =>
    obtain ⟨s, child, rest, hc, he, rfl⟩ := node?_cons_eq_some.mp h
    exact node?_cons_eq_some.mpr ⟨s, _, rest, by rw [children_mask, List.getElem?_map, hc]; rfl, ih he, rfl⟩

theorem at?_mask (h : t.at? pos = some (steps, v)) :
    (t.mask hide value).at? pos = some (steps, if hide steps (leaf v) then value else v) := by
  rw [at?_eq_some_iff_node?, node?_mask_of_end (at?_eq_some_iff_node?.mp h) rfl]
  split <;> rfl

theorem node?_of_mask {w} (h : (t.mask hide value).node? pos = some (steps, leaf w)) :
    ∃ e, t.node? pos = some (steps, e) ∧ e.children = [] := by
  induction pos generalizing t steps hide with
  | nil =>
    rw [node?_nil] at h
    cases h' : t.mask hide value with
    | leaf _ =>
      rw [h'] at h
      cases h
      have hchildren : (t.mask hide value).children = _ := children_mask t
      rw [h', children_leaf, eq_comm, List.map_eq_nil_iff] at hchildren
      exact ⟨t, node?_nil t, hchildren⟩
    | list _ => rw [h'] at h; cases h
    | dict _ => rw [h'] at h; cases h
  | cons i pos ih =>
    obtain ⟨s, child, rest, hc, he, rfl⟩ := node?_cons_eq_some.mp h
    rw [children_mask, List.getElem?_map] at hc
    obtain ⟨⟨s, child⟩, hchild, hkt⟩ := Option.map_eq_some_iff.mp hc
    cases hkt
    obtain ⟨e, hnode, hend⟩ := ih he
    exact ⟨e, node?_cons_eq_some.mpr ⟨s, child, rest, hchild, hnode, rfl⟩, hend⟩

end

end Tree

end Lib
