/-
`DataCensorAbility`: which leaves of an event's JSON a user sees.

A user with `allow_specific` paths sees the leaves below those paths and
`[CENSORED]` elsewhere. The walk does not compare sequences of keys: it
spells the keys on the way as one dotted text (`DictPath.append`), reads that
text again at every level (`DictPath.copy`, which drops what stands before a
colon), and compares texts. `allowed` says what the paths mean as sequences
of keys, `revealed` what the walk shows; data leaks exactly where the two
differ.
-/
import Mathlib.Data.List.Infix
import Mathlib.Data.List.TakeWhile
import Mathlib.Data.Rat.Defs
import Osprey.Lib.Tree
import Osprey.UiApi.Abilities

namespace Osprey.DataCensor

open Lib Lib.Tree

/-! ## Text -/

/-- `text.split(c)`. -/
def split (c : Char) (text : String) : List String := (text.toList.splitOn c).map String.ofList

/-- `item.split(':', 1)`, where `':' in item`. -/
def splitColon (item : String) : Option (String × String) :=
  match item.toList.dropWhile (· != ':') with
  | [] => none
  | _ :: path => some (String.ofList (item.toList.takeWhile (· != ':')), String.ofList path)

/-! ## Paths -/

structure DictPath where
  actionName : Option String
  path : String
  isStarPath : Bool
  deriving DecidableEq, Repr

namespace DictPath

/-- `DictPath.__init__`. -/
def ofItem (item : String) : DictPath :=
  match splitColon item with
  | some (actionName, path) => ⟨some actionName, path, path == "*"⟩
  | none => ⟨none, item, item == "*"⟩

def hasNext (p : DictPath) : Bool := p.path.toList.length > 0

/-- `get_next`: the first name of the path, which is taken off. -/
def getNext (p : DictPath) : String × DictPath :=
  let next := (p.path.toList.splitOn '.').head?.getD []
  (String.ofList next, { p with path := String.ofList (p.path.toList.drop (next.length + 1)) })

def append (p : DictPath) (pathToAppend : String) : DictPath :=
  (split '.' pathToAppend).foldl (fun p path => { p with path := p.path ++ "." ++ path }) p

/-- `copy`: the path is read as an item again. -/
def copy (p : DictPath) : DictPath := ofItem p.path

def step (p : DictPath) : Step String → DictPath
  | .key k => p.copy.append k
  | .item => p.copy

end DictPath

/-! ## Items -/

def jsonPathValidator (item : String) : Except Exc String :=
  let (actionName, path) := match splitColon item with
    | some (actionName, path) => (actionName, path)
    | none => ("", item)
  let path? : Except Exc String :=
    if path.toList.contains '*' then
      if path ≠ "*" ∧ ¬".*".toList <:+ path.toList then
        .error ⟨.valueError, "'" ++ path ++ "' is not a valid path. Stars can only be used at the end of the path"⟩
      else if path ≠ "*" ∧ ".*".toList <:+ path.toList then
        .ok (String.ofList (path.toList.take (path.toList.length - 2)))
      else .ok path
    else if path = "" then
      .error ⟨.valueError, "'" ++ item ++ "' does not have a path. Example with a path: guild_joined:user.id"⟩
    else .ok path
  match path? with
  | .error e => .error e
  | .ok path =>
    if "$.".toList <+: path.toList then
      .error ⟨.valueError, "'" ++ path ++ "' is not a valid path. Valid paths cannot start with $."⟩
    else if ".".toList <:+ path.toList then
      .error ⟨.valueError, "'" ++ path ++ "' is not a valid path. Valid paths cannot end with ."⟩
    else if "..".toList <:+: path.toList then
      .error ⟨.valueError, "'" ++ path ++ "' is not a valid path. No fields within a path can be empty."⟩
    else if actionName ≠ "" ∧ actionName.toList.contains '.' then
      .error ⟨.valueError, "'" ++ actionName ++ "' is not a valid action name."⟩
    else if actionName ≠ "" then .ok (actionName ++ ":" ++ path)
    else .ok path

def featureNameValidator (item : String) : Except Exc String :=
  let (actionName, path) := match splitColon item with
    | some (actionName, path) => (actionName, path)
    | none => ("", item)
  if path = "" then
    .error ⟨.valueError, "'" ++ item ++
      "' does not have a feature name. Example with a feature name: guild_joined:UserId"⟩
  else if path.toList.contains '*' ∧ path ≠ "*" then
    .error ⟨.valueError, "'" ++ path ++ "' is not a valid feature name."⟩
  else if "$.".toList <+: path.toList then
    .error ⟨.valueError, "'" ++ path ++ "' is not a valid feature name. Feature names cannot start with $."⟩
  else if path.toList.contains '.' then
    .error ⟨.valueError, "'" ++ path ++ "' is not a valid feature name."⟩
  else if actionName ≠ "" ∧ actionName.toList.contains '.' then
    .error ⟨.valueError, "'" ++ actionName ++ "' is not a valid action name."⟩
  else if actionName ≠ "" then .ok (actionName ++ ":" ++ path)
  else .ok path

/-- The two subclasses of `DataCensorAbility`. -/
inductive CensorClass
  | canViewActionData
  | canViewFeatureData
  deriving DecidableEq, Repr

/-- The validator of the class's items. -/
def CensorClass.validator : CensorClass → String → Except Exc String
  | .canViewActionData => jsonPathValidator
  | .canViewFeatureData => featureNameValidator

/-- A `DataCensorAbility`: an ability whose items are what the validator of its class returned. -/
structure DataCensorAbility where
  cls : CensorClass
  ability : Ability String
  validItems : ∀ item ∈ ability.items, ∃ raw, cls.validator raw = .ok item

/-- `User.get_ability`, of the censor abilities of one class. -/
def getAbility (abilities : List DataCensorAbility) (cls : CensorClass) : Except Exc (Option DataCensorAbility) :=
  let ofClass := abilities.filter (·.cls = cls)
  if ofClass.isEmpty then .ok none
  else match h : Ability.merge (ofClass.map (·.ability)) with
    | .error e => .error e
    | .ok merged => .ok (some ⟨cls, merged, fun item hitem => by
        obtain ⟨a, ha, hin⟩ := Ability.mem_items_of_merge h hitem
        obtain ⟨b, hb, rfl⟩ := List.mem_map.mp ha
        have hcls : b.cls = cls := by simpa using (List.mem_filter.mp hb).2
        exact hcls ▸ b.validItems item hin⟩)

theorem getAbility_isOk (abilities : List DataCensorAbility) (cls : CensorClass) :
    ∃ ability, getAbility abilities cls = .ok ability := by
  unfold getAbility
  dsimp only
  split
  · exact ⟨none, rfl⟩
  · rename_i hne
    split
    · rename_i e he
      have hmap : ((abilities.filter (·.cls = cls)).map (·.ability)) ≠ [] := by
        rw [ne_eq, List.map_eq_nil_iff, ← List.isEmpty_iff]
        exact hne
      obtain ⟨merged, hmerged⟩ := Ability.merge_isOk hmap
      rw [hmerged] at he
      cases he
    · exact ⟨_, rfl⟩

/-- `_item_applies_to_action_name`. No action name and the empty one are both falsy. -/
def itemAppliesToActionName (item actionName : String) : Bool :=
  match (DictPath.ofItem item).actionName with
  | none => true
  | some name => name == "" || name == actionName

/-! ## Censoring -/

inductive Scalar
  | null
  | bool (b : Bool)
  | int (n : Int)
  | float (q : Rat)
  | str (s : String)
  deriving DecidableEq, Repr

abbrev Json := Tree String Scalar

/-- A JSON object: its entries, in order. The keys of a `dict` are distinct; nothing below needs it. -/
abbrev JsonObject := List (String × Json)

def censorText : Scalar := .str "[CENSORED]"

def excepted (exceptions : List DictPath) (currentPath : DictPath) : Bool :=
  exceptions.any fun e => currentPath.path == e.path

mutual

/-- `_recursively_censor_leafs`. A leaf is censored whether or not it is falsy, an empty container because it is. -/
def recursivelyCensorLeafs (exceptions : List DictPath) (currentPath : DictPath) (node : Json) : Json :=
  if excepted exceptions currentPath then node
  else match node with
    | .leaf _ => .leaf censorText
    | .list [] => .leaf censorText
    | .list (t :: items) => .list (censorItems exceptions currentPath (t :: items))
    | .dict [] => .leaf censorText
    | .dict (e :: entries) => .dict (censorEntries exceptions currentPath (e :: entries))

def censorItems (exceptions : List DictPath) (currentPath : DictPath) : List Json → List Json
  | [] => []
  | t :: items =>
    recursivelyCensorLeafs exceptions (currentPath.step .item) t :: censorItems exceptions currentPath items

def censorEntries (exceptions : List DictPath) (currentPath : DictPath) : JsonObject → JsonObject
  | [] => []
  | (k, t) :: entries =>
    (k, recursivelyCensorLeafs exceptions (currentPath.step (.key k)) t) ::
      censorEntries exceptions currentPath entries

end

def isStr : Json → Bool
  | .leaf (.str _) => true
  | _ => false

/-- `censor_leafs`: what becomes of `data[field]`. -/
def censorLeafs (exceptions : List DictPath) (field : String) (value : Json) : Json :=
  if field == "ActionName" && isStr value then value
  else recursivelyCensorLeafs exceptions (.ofItem field) value

/-- `censor_all_leafs`: the loop visits every key once and changes the value of that key alone. -/
def censorAllLeafs (data : JsonObject) (exceptions : List DictPath) : JsonObject :=
  if exceptions.any DictPath.isStarPath then data
  else data.map fun e => (e.1, censorLeafs exceptions e.1 e.2)

/-- `data[key] = value`, for a key that is present. -/
def replace (data : JsonObject) (key : String) (value : Json) : JsonObject :=
  data.map fun e => if e.1 = key then (e.1, value) else e

/-- An item of a list on the path that is no dictionary: it has no `keys` (an `AttributeError`) and no
`data[key]` (a `TypeError`). -/
def notADict (path : DictPath) : Except Exc Json :=
  .error (if path.isStarPath then ⟨.other, "keys"⟩ else ⟨.typeError, path.getNext.1⟩)

/-- `_censor_at_path`. Every call takes a name off the path, so `fuel` over its length is never used up. -/
def censorAtPath : Nat → Json → DictPath → Except Exc Json
  | 0, data, _ => .ok data
  | fuel + 1, data, path =>
    match data with
    | .leaf _ => notADict path
    | .list _ => notADict path
    | .dict entries =>
      if path.isStarPath then .ok (.dict (censorAllLeafs entries []))
      else
        let (key, path) := path.getNext
        match entries.lookup key with
        | none => .error ⟨.keyError, key⟩
        | some value =>
          if !path.hasNext then .ok (.dict (replace entries key (censorLeafs [] key value)))
          else match value with
            | .dict _ => do
              let value ← censorAtPath fuel value path
              .ok (.dict (replace entries key value))
            | .list items => do
              let items ← items.mapM fun item => censorAtPath fuel item path.copy
              .ok (.dict (replace entries key (.list items)))
            | .leaf _ => .ok (.dict entries)

def pathsFor (items : List String) (actionName : String) : List DictPath :=
  (items.filter (itemAppliesToActionName · actionName)).map .ofItem

def DataCensorAbility.censorData (a : DataCensorAbility) (data : JsonObject) (actionName : String) :
    Except Exc JsonObject := do
  let data ← match a.ability.allowAllExcept with
    | some (i :: items) =>
      (pathsFor (i :: items) actionName).foldlM (fun data path => do
        match ← censorAtPath (path.path.toList.length + 1) (.dict data) path with
        | .dict data => .ok data
        | _ => .ok data) data
    | _ => .ok data
  match a.ability.allowSpecific with
  | some (i :: items) => .ok (censorAllLeafs data (pathsFor (i :: items) actionName))
  | _ => .ok data

/-! ## What is allowed and what is revealed -/

/-- What the paths mean: a star allows every leaf, any other path the leaves whose sequence of keys is, or
extends, the sequence of names of the path. -/
def allowed (exceptions : List DictPath) (steps : List (Step String)) : Bool :=
  exceptions.any fun e => e.isStarPath || (split '.' e.path).isPrefixOf (Step.keys steps)

/-- The walk from `currentPath` along `steps` meets an exception. -/
def meets (exceptions : List DictPath) : DictPath → List (Step String) → Bool
  | currentPath, [] => excepted exceptions currentPath
  | currentPath, s :: steps => excepted exceptions currentPath || meets exceptions (currentPath.step s) steps

/-- A leaf of an object is shown: some path is a star, or the walk to the leaf meets an exception. -/
def revealed (exceptions : List DictPath) : List (Step String) → Bool
  | .key field :: steps => exceptions.any DictPath.isStarPath || meets exceptions (.ofItem field) steps
  | _ => false

/-- The steps lead to or below the top-level `ActionName`. -/
def underActionName (steps : List (Step String)) : Bool := steps.head? == some (.key "ActionName")

/-! ## The walk, leaf by leaf -/

theorem censorItems_eq_map (exceptions : List DictPath) (p : DictPath) : ∀ items : List Json,
    censorItems exceptions p items = items.map (recursivelyCensorLeafs exceptions (p.step .item))
  | [] => rfl
  | t :: items => by rw [censorItems, censorItems_eq_map exceptions p items, List.map_cons]

theorem censorEntries_eq_map (exceptions : List DictPath) (p : DictPath) : ∀ entries : JsonObject,
    censorEntries exceptions p entries =
      entries.map fun e => (e.1, recursivelyCensorLeafs exceptions (p.step (.key e.1)) e.2)
  | [] => rfl
  | (k, t) :: entries => by rw [censorEntries, censorEntries_eq_map exceptions p entries, List.map_cons]

section

variable {exceptions : List DictPath} {p : DictPath}

theorem recursivelyCensorLeafs_of_excepted (h : excepted exceptions p = true) (node : Json) :
    recursivelyCensorLeafs exceptions p node = node := by
  unfold recursivelyCensorLeafs
  exact if_pos h

theorem recursivelyCensorLeafs_leaf (h : excepted exceptions p = false) (v : Scalar) :
    recursivelyCensorLeafs exceptions p (.leaf v) = .leaf censorText := by
  simp [recursivelyCensorLeafs, h]

theorem recursivelyCensorLeafs_list (h : excepted exceptions p = false) (items : List Json) :
    recursivelyCensorLeafs exceptions p (.list items) =
      if items.map (recursivelyCensorLeafs exceptions (p.step .item)) = [] then .leaf censorText
      else .list (items.map (recursivelyCensorLeafs exceptions (p.step .item))) := by
  cases items with
  | nil => simp [recursivelyCensorLeafs, h]
  | cons t items => simp [recursivelyCensorLeafs, h, censorItems_eq_map]

theorem recursivelyCensorLeafs_dict (h : excepted exceptions p = false) (entries : JsonObject) :
    recursivelyCensorLeafs exceptions p (.dict entries) =
      if (entries.map fun e => (e.1, recursivelyCensorLeafs exceptions (p.step (.key e.1)) e.2)) = [] then
        .leaf censorText
      else .dict (entries.map fun e => (e.1, recursivelyCensorLeafs exceptions (p.step (.key e.1)) e.2)) := by
  cases entries with
  | nil => simp [recursivelyCensorLeafs, h]
  | cons e entries => simp [recursivelyCensorLeafs, h, censorEntries_eq_map]

theorem children_recursivelyCensorLeafs (h : excepted exceptions p = false) (node : Json) :
    (recursivelyCensorLeafs exceptions p node).children =
      node.children.map fun c => (c.1, recursivelyCensorLeafs exceptions (p.step c.1) c.2) := by
  cases node with
  | leaf v => simp [recursivelyCensorLeafs_leaf h]
  | list items => cases items <;> simp [recursivelyCensorLeafs_list h]
  | dict entries => cases entries <;> simp [recursivelyCensorLeafs_dict h]

end

variable {steps : List (Step String)} {pos : List Nat} {v : Scalar}

theorem at?_recursivelyCensorLeafs (exceptions : List DictPath) {node}
    (h : node.at? pos = some (steps, v)) (p : DictPath) :
    (recursivelyCensorLeafs exceptions p node).at? pos =
      some (steps, if meets exceptions p steps then v else censorText) := by
  induction pos generalizing node steps p with
  | nil =>
    obtain ⟨rfl, rfl⟩ := at?_nil_eq_some.mp h
    cases he : excepted exceptions p with
    | true => simp [recursivelyCensorLeafs_of_excepted he, meets, he]
    | false => simp [recursivelyCensorLeafs_leaf he, meets, he]
  | cons i pos ih =>
    obtain ⟨s, child, rest, hc, hv, rfl⟩ := at?_cons_eq_some.mp h
    cases he : excepted exceptions p with
    | true => simp [recursivelyCensorLeafs_of_excepted he, meets, he, h]
    | false =>
      refine at?_cons_eq_some.mpr ⟨s, recursivelyCensorLeafs exceptions (p.step s) child, rest, ?_, ?_, rfl⟩
      · simp [children_recursivelyCensorLeafs he, hc]
      · simp [ih hv, meets, he]

variable {exceptions : List DictPath} {p : DictPath}

theorem meets_of_excepted (h : excepted exceptions p = true) :
    ∀ steps, meets exceptions p steps = true
  | [] => h
  | _ :: _ => by simp [meets, h]

theorem meets_cons (h : excepted exceptions p = false) (s : Step String) (steps : List (Step String)) :
    meets exceptions p (s :: steps) = meets exceptions (p.step s) steps := by
  simp [meets, h]

theorem recursivelyCensorLeafs_congr {t u : Json}
    (hshape : t.shape = u.shape) (hagree : Agree (meets exceptions p · = true) t u) :
    recursivelyCensorLeafs exceptions p t = recursivelyCensorLeafs exceptions p u := by
  induction t using Tree.ind generalizing u p with
  | leaf v =>
    cases he : excepted exceptions p with
    | true => rw [hagree.eq hshape (meets_of_excepted he)]
    | false =>
      obtain ⟨w, rfl⟩ := shape_eq_leaf hshape
      rw [recursivelyCensorLeafs_leaf he, recursivelyCensorLeafs_leaf he]
  | list ts ih =>
    cases he : excepted exceptions p with
    | true => rw [hagree.eq hshape (meets_of_excepted he)]
    | false =>
      obtain ⟨us, rfl, halike⟩ := shape_eq_list hshape
      rw [recursivelyCensorLeafs_list he, recursivelyCensorLeafs_list he,
        map_eq_map_of_alike halike fun i t u ht hu hs => ih t (List.mem_of_getElem? ht) hs ?_]
      simpa only [meets_cons he] using hagree.item ht hu
  | dict ts ih =>
    cases he : excepted exceptions p with
    | true => rw [hagree.eq hshape (meets_of_excepted he)]
    | false =>
      obtain ⟨us, rfl, halike⟩ := shape_eq_dict hshape
      rw [recursivelyCensorLeafs_dict he, recursivelyCensorLeafs_dict he,
        map_eq_map_of_alike halike fun i t u ht hu hs => ?_]
      obtain ⟨k, t⟩ := t
      obtain ⟨k', u⟩ := u
      obtain ⟨rfl, hs⟩ := Prod.mk.inj hs
      have hentry := hagree.entry ht hu
      simp only [meets_cons he] at hentry
      exact Prod.ext rfl (ih (k, t) (List.mem_of_getElem? ht) hs hentry)

/-! ## Objects -/

theorem censorData_specific {a : DataCensorAbility} {items}
    (hitems : a.ability.allowSpecific = some items) (data : JsonObject) (actionName : String) :
    a.censorData data actionName = .ok (censorAllLeafs data (pathsFor items actionName)) := by
  obtain ⟨cls, ability, valid⟩ := a
  rcases ability.eq_all_or_specific_or_allExcept with rfl | ⟨items', hne, rfl⟩ | ⟨items', hne, rfl⟩
  · cases hitems
  · cases hitems
    obtain ⟨i, items, rfl⟩ := List.exists_cons_of_ne_nil hne
    rfl
  · cases hitems

variable {data : JsonObject}

/-- A leaf of the censored object: the one there was when it is revealed or the text of the top-level
`ActionName`, else the censor's text. -/
theorem at?_censorAllLeafs (exceptions : List DictPath) (h : (dict data).at? pos = some (steps, v)) :
    (dict (censorAllLeafs data exceptions)).at? pos =
      some (steps, if revealed exceptions steps || steps == [.key "ActionName"] && isStr (.leaf v) then v
        else censorText) := by
  cases pos with
  | nil => simp at h
  | cons i pos =>
    obtain ⟨s, child, rest, hc, hv, rfl⟩ := at?_cons_eq_some.mp h
    obtain ⟨⟨k, t⟩, hdata, hkt⟩ := Option.map_eq_some_iff.mp ((List.getElem?_map ..).symm.trans hc)
    cases hkt
    unfold censorAllLeafs
    by_cases hstar : exceptions.any DictPath.isStarPath = true
    · simp [hstar, revealed, h]
    · rw [if_neg hstar]
      refine at?_cons_eq_some.mpr ⟨.key k, censorLeafs exceptions k t, rest, by simp [hdata], ?_, rfl⟩
      unfold censorLeafs
      by_cases hname : (k == "ActionName" && isStr t) = true
      · obtain ⟨rfl, hstr⟩ : k = "ActionName" ∧ isStr t = true := by simpa using hname
        cases t with
        | leaf w =>
          cases pos with
          | nil =>
            obtain ⟨hw, rfl⟩ := at?_nil_eq_some.mp hv
            cases hw
            simp [hstr]
          | cons j pos => simp [at?_cons] at hv
        | list items => simp [isStr] at hstr
        | dict entries => simp [isStr] at hstr
      · have hnot : (Step.key k :: rest == [.key "ActionName"] && isStr (.leaf v)) = false := by
          cases pos with
          | nil =>
            obtain ⟨rfl, rfl⟩ := at?_nil_eq_some.mp hv
            simpa using hname
          | cons j pos =>
            obtain ⟨s', child', rest', -, -, rfl⟩ := at?_cons_eq_some.mp hv
            simp
        rw [if_neg hname, at?_recursivelyCensorLeafs exceptions hv, hnot]
        simp [revealed, hstar]

theorem exists_key_of_at? (h : (dict data).at? pos = some (steps, v)) : ∃ k rest, steps = .key k :: rest := by
  cases pos with
  | nil => simp at h
  | cons i pos =>
    obtain ⟨s, child, rest, hc, -, rfl⟩ := at?_cons_eq_some.mp h
    obtain ⟨⟨k, t⟩, -, hkt⟩ := Option.map_eq_some_iff.mp ((List.getElem?_map ..).symm.trans hc)
    cases hkt
    exact ⟨k, rest, rfl⟩

theorem censorAllLeafs_congr {d₁ d₂ : JsonObject} (hshape : (dict d₁).shape = (dict d₂).shape)
    (hagree : Agree (fun steps => underActionName steps = true ∨ revealed exceptions steps = true)
      (.dict d₁) (.dict d₂)) :
    censorAllLeafs d₁ exceptions = censorAllLeafs d₂ exceptions := by
  unfold censorAllLeafs
  by_cases hstar : exceptions.any DictPath.isStarPath = true
  · have hall : Agree (fun _ => True) (dict d₁) (.dict d₂) := hagree.mono fun pos steps v h _ => by
      obtain ⟨k, rest, rfl⟩ := exists_key_of_at? h
      exact .inr (by simp [revealed, hstar])
    cases hall.eq hshape fun _ => trivial
    rfl
  · rw [if_neg hstar, if_neg hstar]
    have halike : (d₁.map fun e => (e.1, e.2.shape)) = d₂.map fun e => (e.1, e.2.shape) := by
      simpa using hshape
    refine map_eq_map_of_alike halike fun i t u ht hu hs => ?_
    obtain ⟨k, t⟩ := t
    obtain ⟨k', u⟩ := u
    obtain ⟨rfl, hs⟩ := Prod.mk.inj hs
    have hentry := hagree.entry ht hu
    refine Prod.ext rfl ?_
    by_cases hname : k = "ActionName"
    · -- the whole value of `ActionName` is agreed on
      rw [hentry.eq hs fun steps => .inl (by simp [underActionName, hname])]
    · have hne : (k == "ActionName") = false := by simpa using hname
      simp only [censorLeafs, hne, Bool.false_and, Bool.false_eq_true, if_false]
      refine recursivelyCensorLeafs_congr hs (hentry.mono fun pos steps v _ hm => .inr ?_)
      simp [revealed, hm]

/-! ## When nothing leaks -/

/-- Two objects agree on the top-level `ActionName` and on every leaf that is allowed. -/
def AgreeOnAllowed (exceptions : List DictPath) (d₁ d₂ : JsonObject) : Prop :=
  Agree (fun steps => underActionName steps = true ∨ allowed exceptions steps = true) (.dict d₁) (.dict d₂)

/-- What censoring promises of the objects of the shape of `data`: the result depends on `ActionName` and the
allowed leaves only, and the allowed leaves are in it as they were. -/
structure LeaksNothing (a : DataCensorAbility) (items : List String) (actionName : String) (data : JsonObject) :
    Prop where
  nonInterfering : ∀ d₁ d₂ : JsonObject, (dict d₁).shape = (dict data).shape →
    (dict d₂).shape = (dict data).shape → AgreeOnAllowed (pathsFor items actionName) d₁ d₂ →
    a.censorData d₁ actionName = a.censorData d₂ actionName
  unchanged : ∀ d : JsonObject, (dict d).shape = (dict data).shape →
    ∀ pos steps v, (dict d).at? pos = some (steps, v) →
      allowed (pathsFor items actionName) steps = true →
      ∃ d', a.censorData d actionName = .ok d' ∧ (dict d').at? pos = some (steps, v)

/-- The texts spelled on the way to every leaf of `data` say what its keys say: a leaf is revealed exactly when
it is allowed (below `ActionName`, whenever it is allowed). -/
def SpelledAsMeant (exceptions : List DictPath) (data : JsonObject) : Prop :=
  ∀ pos steps v, (dict data).at? pos = some (steps, v) →
    (allowed exceptions steps = true → revealed exceptions steps = true) ∧
    (revealed exceptions steps = true → underActionName steps = true ∨ allowed exceptions steps = true)

theorem SpelledAsMeant.of_shape_eq {d : JsonObject}
    (h : SpelledAsMeant exceptions data) (hshape : (dict d).shape = (dict data).shape) :
    SpelledAsMeant exceptions d := fun pos steps _ hv =>
  have ⟨w, hw⟩ := exists_at?_of_shape_eq hshape hv
  h pos steps w hw

theorem exists_set (h : (dict data).at? pos = some (steps, v)) (w : Scalar) :
    ∃ d : JsonObject, dict d = (dict data).set pos w := by
  cases pos with
  | nil => simp at h
  | cons i pos => exact ⟨_, rfl⟩

/-- **Nothing leaks exactly where the spelled paths are the paths.** An ability that allows specific paths
keeps its promise on the objects of a shape if and only if, at every leaf, the text the walk spells meets an
allowed path exactly when the sequence of keys extends one. -/
theorem leaksNothing_iff {a : DataCensorAbility} {items : List String}
    (hitems : a.ability.allowSpecific = some items) (actionName : String) (data : JsonObject) :
    LeaksNothing a items actionName data ↔ SpelledAsMeant (pathsFor items actionName) data := by
  constructor
  · intro h pos steps v hv
    constructor
    · -- an allowed leaf that is not text is returned as it was, so it was not censored
      intro hallowed
      obtain ⟨d, hd⟩ := exists_set hv (.bool true)
      have hleaf : (dict d).at? pos = some (steps, .bool true) := hd ▸ at?_set_self hv _
      obtain ⟨d', hd', hsame⟩ := h.unchanged d (by rw [hd, shape_set]) pos steps _ hleaf hallowed
      rw [censorData_specific hitems] at hd'
      cases hd'
      rw [at?_censorAllLeafs _ hleaf] at hsame
      by_contra hnot
      simp [hnot, isStr, censorText] at hsame
    · -- a leaf that is revealed and not agreed on tells two objects apart
      intro hrevealed
      by_contra hnot
      obtain ⟨d₁, hd₁⟩ := exists_set hv (.bool true)
      obtain ⟨d₂, hd₂⟩ := exists_set hv (.bool false)
      have hagree : AgreeOnAllowed (pathsFor items actionName) d₁ d₂ := by
        rw [AgreeOnAllowed, hd₁, hd₂]
        exact agree_set hv hnot _ _
      have heq := h.nonInterfering d₁ d₂ (by rw [hd₁, shape_set]) (by rw [hd₂, shape_set]) hagree
      rw [censorData_specific hitems, censorData_specific hitems] at heq
      have hat := congrArg (fun d => (dict d).at? pos) (Except.ok.inj heq)
      rw [at?_censorAllLeafs _ (hd₁ ▸ at?_set_self hv _), at?_censorAllLeafs _ (hd₂ ▸ at?_set_self hv _)] at hat
      simp [hrevealed] at hat
  · intro h
    refine ⟨fun d₁ d₂ h₁ h₂ hagree => ?_, fun d hd pos steps v hv hallowed => ?_⟩
    · rw [censorData_specific hitems, censorData_specific hitems]
      refine congrArg _ (censorAllLeafs_congr (h₁.trans h₂.symm) (hagree.mono fun pos steps v hv hvis => ?_))
      rcases hvis with hname | hrevealed
      · exact .inl hname
      · exact (h.of_shape_eq h₁ pos steps v hv).2 hrevealed
    · refine ⟨_, censorData_specific hitems d actionName, ?_⟩
      rw [at?_censorAllLeafs _ hv, (h.of_shape_eq hd pos steps v hv).1 hallowed]
      simp

/-! ## Keys without separators -/

/-- The names joined with dots, as characters. -/
def dotted (names : List String) : List Char := ['.'].intercalate (names.map String.toList)

/-- A key that the walk cannot mistake: no dot, no colon. -/
def Plain (key : String) : Prop := '.' ∉ key.toList ∧ ':' ∉ key.toList

variable {names : List String}

theorem dotted_append (hne : names ≠ []) (name : String) :
    dotted (names ++ [name]) = dotted names ++ '.' :: name.toList := by
  induction names with
  | nil => exact absurd rfl hne
  | cons n names ih =>
    cases names with
    | nil => simp [dotted, List.intercalate_cons_cons]
    | cons n' names =>
      have ih := ih (by simp)
      simp only [dotted, List.cons_append, List.map_cons, List.intercalate_cons_cons] at ih ⊢
      rw [ih]
      simp

theorem foldl_append_path (parts : List (List Char)) (p : DictPath) :
    ((parts.map String.ofList).foldl (fun p path => { p with path := p.path ++ "." ++ path }) p).path.toList =
      p.path.toList ++ parts.flatMap fun part => '.' :: part := by
  induction parts generalizing p with
  | nil => simp
  | cons part parts ih => simp [ih]

theorem dot_cons_intercalate (part : List Char) (parts : List (List Char)) :
    '.' :: ['.'].intercalate (part :: parts) = (part :: parts).flatMap fun part => '.' :: part := by
  induction parts generalizing part with
  | nil => simp
  | cons part' parts ih =>
    rw [List.intercalate_cons_cons, List.flatMap_cons, ← ih part']
    simp

theorem DictPath.append_path (p : DictPath) (name : String) :
    (p.append name).path.toList = p.path.toList ++ '.' :: name.toList := by
  obtain ⟨part, parts, hparts⟩ := List.exists_cons_of_ne_nil (List.splitOn_ne_nil '.' name.toList)
  rw [append, split, foldl_append_path, hparts, ← dot_cons_intercalate, ← hparts, List.intercalate_splitOn]

theorem DictPath.ofItem_path_of_no_colon {item} (h : ':' ∉ item.toList) : (ofItem item).path = item := by
  have hsplit : splitColon item = none := by
    have hdrop : item.toList.dropWhile (· != ':') = [] := by
      rw [List.dropWhile_eq_nil_iff]
      intro c hc
      simpa using fun heq : c = ':' => h (heq ▸ hc)
    rw [splitColon, hdrop]
  rw [ofItem, hsplit]

theorem no_colon_dotted (h : ∀ n ∈ names, Plain n) : ':' ∉ dotted names := by
  induction names with
  | nil => simp [dotted]
  | cons n names ih =>
    cases names with
    | nil => simpa [dotted] using (h n (by simp)).2
    | cons n' names =>
      have ih := ih fun m hm => h m (by simp [hm])
      simp only [dotted, List.map_cons, List.intercalate_cons_cons] at ih ⊢
      simp only [List.mem_append, List.mem_singleton, not_or]
      exact ⟨⟨(h n (by simp)).2, by decide⟩, ih⟩

theorem toList_eq_dotted_iff (hne : names ≠ []) (h : ∀ n ∈ names, Plain n) (path : String) :
    path.toList = dotted names ↔ split '.' path = names := by
  have hid : ∀ parts : List (List Char), (parts.map String.ofList).map String.toList = parts := fun parts => by
    simp [Function.comp_def]
  constructor
  · intro hpath
    have hsplit : path.toList.splitOn '.' = names.map String.toList := by
      rw [hpath, dotted, List.splitOn_intercalate '.' _ (by simpa using hne)]
      intro part hpart
      obtain ⟨n, hn, rfl⟩ := List.mem_map.mp hpart
      exact (h n hn).1
    simp [split, hsplit, Function.comp_def]
  · rintro rfl
    rw [dotted, split, hid, List.intercalate_splitOn]

theorem excepted_iff (hp : p.path.toList = dotted names) :
    excepted exceptions p = true ↔ ∃ e ∈ exceptions, e.path.toList = dotted names := by
  simp only [excepted, List.any_eq_true, beq_iff_eq, ← String.toList_inj, hp]
  simp only [eq_comm]

theorem DictPath.step_path_of_plain (hne : names ≠ [])
    (hnames : ∀ n ∈ names, Plain n) (hp : p.path.toList = dotted names) (s : Step String) :
    (p.step s).path.toList = dotted (names ++ Step.keys [s]) := by
  have hcopy : p.copy.path = p.path := ofItem_path_of_no_colon (by rw [hp]; exact no_colon_dotted hnames)
  cases s with
  | key k => rw [step, append_path, hcopy, hp, Step.keys, Step.keys, dotted_append hne]
  | item => rw [step, hcopy, hp, Step.keys, Step.keys, List.append_nil]

theorem keys_cons (s : Step String) (steps : List (Step String)) :
    Step.keys (s :: steps) = Step.keys [s] ++ Step.keys steps := by
  cases s <;> rfl

/-- From a path that spells plain names, the walk meets an exception when one spells the names and then some of
the keys that follow. -/
theorem meets_iff_of_plain (hne : names ≠ []) (hnames : ∀ n ∈ names, Plain n) (hp : p.path.toList = dotted names)
    (hsteps : ∀ k ∈ Step.keys steps, Plain k) :
    meets exceptions p steps = true ↔
      ∃ e ∈ exceptions, ∃ more, more <+: Step.keys steps ∧ split '.' e.path = names ++ more := by
  induction steps generalizing p names with
  | nil => simp [meets, excepted_iff hp, toList_eq_dotted_iff hne hnames, Step.keys]
  | cons s steps ih =>
    rw [keys_cons] at hsteps ⊢
    have hnames' : ∀ n ∈ names ++ Step.keys [s], Plain n := fun n hn =>
      (List.mem_append.mp hn).elim (hnames n) fun h => hsteps n (List.mem_append_left _ h)
    have hrest := ih (List.append_ne_nil_of_left_ne_nil hne _) hnames' (p.step_path_of_plain hne hnames hp s)
      fun k hk => hsteps k (List.mem_append_right _ hk)
    rw [meets, Bool.or_eq_true, hrest, excepted_iff hp]
    simp only [toList_eq_dotted_iff hne hnames]
    constructor
    · rintro (⟨e, he, hpath⟩ | ⟨e, he, more, hmore, hpath⟩)
      · exact ⟨e, he, [], List.nil_prefix, by rw [hpath, List.append_nil]⟩
      · exact ⟨e, he, Step.keys [s] ++ more, (List.prefix_append_right_inj _).mpr hmore,
          by rw [hpath, List.append_assoc]⟩
    · rintro ⟨e, he, more, hmore, hpath⟩
      cases s with
      | item => exact .inr ⟨e, he, more, hmore, by simpa [Step.keys] using hpath⟩
      | key k =>
        cases more with
        | nil => exact .inl ⟨e, he, by rw [hpath, List.append_nil]⟩
        | cons k' more =>
          obtain ⟨hkey, hprefix⟩ := List.cons_prefix_cons.mp hmore
          subst hkey
          exact .inr ⟨e, he, more, hprefix, by simpa [Step.keys] using hpath⟩

theorem revealed_eq_allowed_of_plain {k} (hk : Plain k) (hsteps : ∀ k ∈ Step.keys steps, Plain k) :
    revealed exceptions (.key k :: steps) = allowed exceptions (.key k :: steps) := by
  have hp : (DictPath.ofItem k).path.toList = dotted [k] := by
    rw [DictPath.ofItem_path_of_no_colon hk.2]
    simp [dotted]
  have hmeets : meets exceptions (.ofItem k) steps = true ↔ _ :=
    meets_iff_of_plain (by simp) (by simpa using hk) hp hsteps
  rw [Bool.eq_iff_iff, revealed, allowed, Bool.or_eq_true, hmeets]
  simp only [List.any_eq_true, Bool.or_eq_true, List.isPrefixOf_iff_prefix, Step.keys]
  constructor
  · rintro (⟨e, he, hstar⟩ | ⟨e, he, more, hmore, hpath⟩)
    · exact ⟨e, he, .inl hstar⟩
    · exact ⟨e, he, .inr (by rw [hpath]; exact (List.prefix_append_right_inj [k]).mpr hmore)⟩
  · rintro ⟨e, he, hstar | hpath⟩
    · exact .inl ⟨e, he, hstar⟩
    · -- the names of a path are never none
      obtain ⟨name, more, hsplit⟩ : ∃ name more, split '.' e.path = name :: more :=
        List.exists_cons_of_ne_nil (by simp [split, List.splitOn_ne_nil])
      rw [hsplit] at hpath
      obtain ⟨rfl, hmore⟩ := List.cons_prefix_cons.mp hpath
      exact .inr ⟨e, he, more, hmore, hsplit⟩

/-- **Plain keys do not leak.** Where no key of the object has a dot or a colon, the walk reads every path as it
is meant, whatever the paths are. -/
theorem spelledAsMeant_of_plain
    (h : ∀ pos steps v, (dict data).at? pos = some (steps, v) → ∀ k ∈ Step.keys steps, Plain k)
    (exceptions : List DictPath) : SpelledAsMeant exceptions data := by
  intro pos steps v hv
  obtain ⟨k, rest, rfl⟩ := exists_key_of_at? hv
  have hplain := h pos _ v hv
  have heq : revealed exceptions (.key k :: rest) = allowed exceptions (.key k :: rest) :=
    revealed_eq_allowed_of_plain (hplain k List.mem_cons_self) fun k' hk' => hplain k' (List.mem_cons_of_mem _ hk')
  rw [heq]
  exact ⟨id, .inr⟩

/-! ## A key with a dot -/

/-- An ability that shows `user.id` and nothing else. -/
def viewUserId : DataCensorAbility where
  cls := .canViewActionData
  ability := .specific ["user.id"] (by simp)
  validItems := by
    intro item hitem
    obtain rfl : item = "user.id" := by simpa [Ability.items, Ability.specific] using hitem
    exact ⟨"user.id", by decide⟩

/-- An object with the one leaf `{"user": {"id": v}}`. -/
def nestedId (v : Scalar) : JsonObject := [("user", .dict [("id", .leaf v)])]

/-- An object with the one leaf `{"user.id": v}`. -/
def dottedId (v : Scalar) : JsonObject := [("user.id", .leaf v)]

theorem leaksNothing_nestedId :
    viewUserId.ability.allowSpecific = some ["user.id"] ∧
      LeaksNothing viewUserId ["user.id"] "guild_joined" (nestedId (.int 5)) := by
  refine ⟨rfl, (leaksNothing_iff rfl "guild_joined" (nestedId (.int 5))).mpr (spelledAsMeant_of_plain ?_ _)⟩
  intro pos steps v hv k hk
  have hk' : k = "user" ∨ k = "id" := by
    rcases pos with - | ⟨- | i, - | ⟨- | j, - | ⟨l, pos⟩⟩⟩ <;> simp [nestedId, at?_cons] at hv
    obtain ⟨rfl, -⟩ := hv
    simpa [Step.keys] using hk
  rcases hk' with rfl | rfl <;> exact ⟨by decide, by decide⟩

/-- The key `user.id` is not the keys `user`, `id`; the walk spells both alike and shows its value. -/
theorem dottedId_leaks :
    viewUserId.ability.allowSpecific = some ["user.id"] ∧
      (dict (dottedId (.int 5))).shape = (dict (dottedId (.int 6))).shape ∧
      AgreeOnAllowed (pathsFor ["user.id"] "guild_joined") (dottedId (.int 5)) (dottedId (.int 6)) ∧
      viewUserId.censorData (dottedId (.int 5)) "guild_joined" ≠
        viewUserId.censorData (dottedId (.int 6)) "guild_joined" := by
  have hleaf : (dict (dottedId (.int 5))).at? [0] = some ([.key "user.id"], .int 5) := rfl
  have hfive : viewUserId.censorData (dottedId (.int 5)) "guild_joined" = .ok (dottedId (.int 5)) := by rfl
  have hsix : viewUserId.censorData (dottedId (.int 6)) "guild_joined" = .ok (dottedId (.int 6)) := by rfl
  refine ⟨rfl, rfl, agree_set hleaf (by decide) (.int 5) (.int 6), ?_⟩
  rw [hfive, hsix]
  simp [dottedId]

end Osprey.DataCensor
