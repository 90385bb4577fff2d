/-
`DataCensorAbility.censor_data` with `allow_all_except`: every denied path is
followed into the data, and what lies at its end is censored.

The walk indexes the data with each name of the path, so that data without
the path raises (`Present` says when it does not), and a list sends the rest
of the path through `DictPath.copy`, which reads it as an item again.
`censors` says which ends of the data a path comes to, `denied` what the paths
mean; the promise of `censor_data` is kept exactly where every path is present
and the two agree. The paths are a set: the promise is over every order in
which they may be taken.
-/
import Osprey.Lib.Dict
import Osprey.Lib.Raise
import Osprey.UiApi.DataCensor

namespace Osprey.DataCensor

open Lib Lib.Tree

/-! ## What a path censors -/

/-- The path, read as `_censor_at_path` reads it, comes to the end `e` behind the steps: a leaf or an empty
container. The text of an `ActionName` is spared where it is the last field. -/
def censors : DictPath → List (Step String) → Json → Bool
  | _, [], _ => false
  | p, .item :: rest, e => censors p.copy rest e
  | p, .key k :: rest, e =>
    if p.isStarPath then !(k == "ActionName" && rest.isEmpty && isStr e)
    else k == p.getNext.1 &&
      if p.getNext.2.hasNext then censors p.getNext.2 rest e
      else !(k == "ActionName" && rest.isEmpty && isStr e)

/-- The walk along the path finds what it looks for. A star asks for a dictionary, and for one that is not
emptied before the star comes to it: `hit` says which empty containers are censored. -/
inductive Present : (List (Step String) → Bool) → DictPath → Json → Prop
  | star {hit : List (Step String) → Bool} {p : DictPath} {entries : JsonObject} (hstar : p.isStarPath = true)
      (hkept : entries = [] → hit [] = false) : Present hit p (.dict entries)
  | last {hit : List (Step String) → Bool} {p : DictPath} {entries : JsonObject} {value : Json}
      (hstar : p.isStarPath = false) (hvalue : entries.lookup p.getNext.1 = some value)
      (hlast : p.getNext.2.hasNext = false) : Present hit p (.dict entries)
  | leaf {hit : List (Step String) → Bool} {p : DictPath} {entries : JsonObject} {v : Scalar}
      (hstar : p.isStarPath = false) (hvalue : entries.lookup p.getNext.1 = some (.leaf v))
      (hnext : p.getNext.2.hasNext = true) : Present hit p (.dict entries)
  | dict {hit : List (Step String) → Bool} {p : DictPath} {entries below : JsonObject}
      (hstar : p.isStarPath = false) (hvalue : entries.lookup p.getNext.1 = some (.dict below))
      (hnext : p.getNext.2.hasNext = true)
      (hbelow : Present (fun steps => hit (.key p.getNext.1 :: steps)) p.getNext.2 (.dict below)) :
      Present hit p (.dict entries)
  | list {hit : List (Step String) → Bool} {p : DictPath} {entries : JsonObject} {items : List Json}
      (hstar : p.isStarPath = false) (hvalue : entries.lookup p.getNext.1 = some (.list items))
      (hnext : p.getNext.2.hasNext = true)
      (hitems : ∀ item ∈ items,
        Present (fun steps => hit (.key p.getNext.1 :: .item :: steps)) p.getNext.2.copy item) :
      Present hit p (.dict entries)

/-- What the paths mean: a star covers every leaf, any other path the leaves at or below it. -/
def covered (paths : List DictPath) (steps : List (Step String)) : Bool :=
  paths.any fun p => p.isStarPath || (split '.' p.path).isPrefixOf (Step.keys steps)

/-- What is covered is denied, but for the text of the top-level `ActionName`. -/
def denied (paths : List DictPath) (steps : List (Step String)) (e : Json) : Bool :=
  covered paths steps && !(steps == [.key "ActionName"] && isStr e)

/-- Some path comes to the end. -/
def censoredBy (paths : List DictPath) (steps : List (Step String)) (e : Json) : Bool :=
  paths.any fun p => censors p steps e

/-! ## The walk -/

section

variable {p : DictPath}

theorem length_getNext (h : p.getNext.2.hasNext = true) : p.getNext.2.path.toList.length < p.path.toList.length := by
  simp only [DictPath.hasNext, DictPath.getNext, String.toList_ofList, List.length_drop, gt_iff_lt,
    decide_eq_true_eq] at h ⊢
  omega

theorem length_copy (p : DictPath) : p.copy.path.toList.length ≤ p.path.toList.length := by
  unfold DictPath.copy DictPath.ofItem splitColon
  have hdrop := (List.dropWhile_suffix (l := p.path.toList) (· != ':')).length_le
  cases h : p.path.toList.dropWhile (· != ':') with
  | nil => simp
  | cons c path =>
    rw [h, List.length_cons] at hdrop
    simpa using Nat.le_of_succ_le hdrop

@[simp] theorem censors_nil (p : DictPath) (e : Json) : censors p [] e = false := rfl

theorem censors_star (hstar : p.isStarPath = true) (k : String) (rest : List (Step String)) (e : Json) :
    censors p (.key k :: rest) e = !(k == "ActionName" && rest.isEmpty && isStr e) := by
  rw [censors, if_pos hstar]

theorem censors_other (hstar : p.isStarPath = false) {k} (hk : k ≠ p.getNext.1)
    (rest : List (Step String)) (e : Json) : censors p (.key k :: rest) e = false := by
  rw [censors, if_neg (by simp [hstar]), beq_eq_false_iff_ne.mpr hk, Bool.false_and]

theorem censors_last (hstar : p.isStarPath = false) (hlast : p.getNext.2.hasNext = false)
    (rest : List (Step String)) (e : Json) :
    censors p (.key p.getNext.1 :: rest) e = !(p.getNext.1 == "ActionName" && rest.isEmpty && isStr e) := by
  rw [censors, if_neg (by simp [hstar]), if_neg (by simp [hlast]), beq_self_eq_true, Bool.true_and]

theorem censors_next (hstar : p.isStarPath = false) (hnext : p.getNext.2.hasNext = true) :
    (fun steps => censors p (.key p.getNext.1 :: steps)) = censors p.getNext.2 := by
  funext steps e
  rw [censors, if_neg (by simp [hstar]), if_pos hnext, beq_self_eq_true, Bool.true_and]

end

/-! ## Objects -/

section

variable {entries : JsonObject} {key : String} {value : Json}

theorem ne_nil_of_lookup (h : entries.lookup key = some value) : entries ≠ [] := by
  rintro rfl
  cases h

theorem lookup_map_snd (f : String → Json → Json) (key : String) : ∀ entries : JsonObject,
    (entries.map fun e => (e.1, f e.1 e.2)).lookup key = (entries.lookup key).map (f key)
  | [] => rfl
  | (k, t) :: entries => by
    rw [List.map_cons, List.lookup_cons, List.lookup_cons, lookup_map_snd f key entries]
    by_cases hk : key = k
    · subst hk
      simp
    · simp [beq_eq_false_iff_ne.mpr hk]

theorem eq_of_lookup (hnodup : (entries.map Prod.fst).Nodup) (hvalue : entries.lookup key = some value) :
    ∀ e ∈ entries, e.1 = key → e.2 = value := by
  rintro ⟨k, t⟩ he rfl
  have ht := (Dict.lookup_eq_some_iff hnodup).mpr he
  exact Option.some.inj (ht.symm.trans hvalue)

theorem replace_eq_map (hnodup : (entries.map Prod.fst).Nodup) (hvalue : entries.lookup key = some value)
    {f : String → Json → Json} (hother : ∀ k ≠ key, ∀ t, f k t = t) :
    replace entries key (f key value) = entries.map fun e => (e.1, f e.1 e.2) := by
  refine List.map_congr_left fun e he => ?_
  by_cases hk : e.1 = key
  · rw [if_pos hk, hk, eq_of_lookup hnodup hvalue e he hk]
  · rw [if_neg hk, hother e.1 hk]

end

/-! ## Censoring as a mask -/

theorem recursivelyCensorLeafs_eq_mask (p : DictPath) (node : Json) :
    recursivelyCensorLeafs [] p node = node.mask (fun _ _ => true) censorText := by
  induction node using Tree.walk generalizing p with
  | ends e hend =>
    rw [mask_end hend, if_pos rfl]
    cases e with
    | leaf v => rw [recursivelyCensorLeafs_leaf rfl]
    | list items => rw [recursivelyCensorLeafs_list rfl, if_pos (by simpa using hend)]
    | dict entries => rw [recursivelyCensorLeafs_dict rfl, if_pos (by simpa using hend)]
  | list items hne ih =>
    rw [recursivelyCensorLeafs_list rfl, mask_list hne, if_neg (by simpa using hne)]
    exact congrArg _ (List.map_congr_left fun t ht => ih t ht _)
  | dict entries hne ih =>
    rw [recursivelyCensorLeafs_dict rfl, mask_dict hne, if_neg (by simpa using hne)]
    exact congrArg _ (List.map_congr_left fun e he => Prod.ext rfl (ih e he _))

theorem censorLeafs_eq_mask (field : String) (value : Json) : censorLeafs [] field value =
    value.mask (fun rest e => !(field == "ActionName" && rest.isEmpty && isStr e)) censorText := by
  unfold censorLeafs
  by_cases hname : (field == "ActionName" && isStr value) = true
  · obtain ⟨hfield, hstr⟩ := Bool.and_eq_true_iff.mp hname
    have hend : value.children = [] := by
      cases value with
      | leaf v => rfl
      | list items => cases hstr
      | dict entries => cases hstr
    rw [if_pos hname, mask_end hend, if_neg (by simp [hfield, hstr])]
  · rw [if_neg hname, recursivelyCensorLeafs_eq_mask]
    refine mask_congr fun pos steps e he => ?_
    cases pos with
    | nil =>
      cases he
      simpa [imp_iff_not_or] using hname
    | cons i pos =>
      obtain ⟨s, child, rest, -, -, rfl⟩ := node?_cons_eq_some.mp he
      simp

variable {entries : JsonObject} {value : Json}

section

variable {p : DictPath}

theorem censorAllLeafs_eq_mask (hstar : p.isStarPath = true) (entries : JsonObject) :
    dict (censorAllLeafs entries []) = (dict entries).mask (censors p) censorText := by
  by_cases hne : entries = []
  · subst hne
    rw [mask_end rfl, censors_nil]
    rfl
  · rw [mask_dict hne, censorAllLeafs, if_neg (by simp)]
    refine congrArg _ (List.map_congr_left fun e _ => Prod.ext rfl ?_)
    rw [censorLeafs_eq_mask]
    exact mask_congr fun _ steps t _ => (censors_star hstar e.1 steps t).symm

theorem replace_eq_mask (hstar : p.isStarPath = false)
    (hnodup : (entries.map Prod.fst).Nodup) (hvalue : entries.lookup p.getNext.1 = some value) :
    dict (replace entries p.getNext.1
      (value.mask (fun steps => censors p (.key p.getNext.1 :: steps)) censorText)) =
      (dict entries).mask (censors p) censorText := by
  rw [mask_dict (ne_nil_of_lookup hvalue)]
  refine congrArg _ (replace_eq_map (f := fun k t => t.mask (fun steps => censors p (.key k :: steps)) censorText)
    hnodup hvalue fun k hk t => ?_)
  have hnone : (fun steps => censors p (.key k :: steps)) = fun _ _ => false := by
    funext steps e
    exact censors_other hstar hk steps e
  rw [hnone, mask_false]

theorem mask_last (hstar : p.isStarPath = false) (hlast : p.getNext.2.hasNext = false) (value : Json) :
    value.mask (fun steps => censors p (.key p.getNext.1 :: steps)) censorText =
      censorLeafs [] p.getNext.1 value := by
  rw [censorLeafs_eq_mask]
  exact mask_congr fun _ steps e _ => censors_last hstar hlast steps e

theorem mask_censors_leaf (p : DictPath) (v : Scalar) : (Tree.leaf v : Json).mask (censors p) censorText = .leaf v := by
  rw [mask_end rfl, censors_nil, if_neg Bool.false_ne_true]

theorem mask_censors_list (p : DictPath) (items : List Json) :
    (Tree.list items).mask (censors p) censorText = .list (items.map (mask (censors p.copy) censorText)) := by
  by_cases hne : items = []
  · subst hne
    rw [mask_end rfl, censors_nil, if_neg Bool.false_ne_true]
    rfl
  · rw [mask_list hne]
    rfl

end

/-! ## A present path is censored -/

section

variable {p : DictPath} {entries : JsonObject} {fuel : Nat}

theorem censorAtPath_star (hstar : p.isStarPath = true) (entries : JsonObject) (fuel : Nat) :
    censorAtPath (fuel + 1) (.dict entries) p = .ok (.dict (censorAllLeafs entries [])) := by
  rw [censorAtPath, if_pos hstar]

/-- The walk goes on below the next name of the path. -/
def censorBelow (fuel : Nat) (entries : JsonObject) (p : DictPath) : Json → Except Exc Json
  | .leaf _ => .ok (.dict entries)
  | .dict below => (censorAtPath fuel (.dict below) p.getNext.2).bind fun value =>
    .ok (.dict (replace entries p.getNext.1 value))
  | .list items => (items.mapM fun item => censorAtPath fuel item p.getNext.2.copy).bind fun items =>
    .ok (.dict (replace entries p.getNext.1 (.list items)))

variable (hstar : p.isStarPath = false) (hvalue : entries.lookup p.getNext.1 = some value)

include hstar hvalue

theorem censorAtPath_last (hlast : p.getNext.2.hasNext = false) (fuel : Nat) :
    censorAtPath (fuel + 1) (.dict entries) p =
      .ok (.dict (replace entries p.getNext.1 (censorLeafs [] p.getNext.1 value))) := by
  simp only [censorAtPath, hstar, Bool.false_eq_true, if_false, hvalue, hlast, Bool.not_false, if_true]

theorem censorAtPath_next (hnext : p.getNext.2.hasNext = true) (fuel : Nat) :
    censorAtPath (fuel + 1) (.dict entries) p = censorBelow fuel entries p value := by
  simp only [censorAtPath, hstar, Bool.false_eq_true, if_false, hvalue, hnext, Bool.not_true]
  cases value <;> rfl

end

theorem keysDistinct_of_lookup {key}
    (h : (dict entries).KeysDistinct) (hvalue : entries.lookup key = some value) : value.KeysDistinct := by
  cases h with
  | dict hnodup hentries => exact hentries _ ((Dict.lookup_eq_some_iff hnodup).mp hvalue)

theorem nodup_of_keysDistinct (h : (dict entries).KeysDistinct) : (entries.map Prod.fst).Nodup := by
  cases h with
  | dict hnodup _ => exact hnodup

variable {hit : List (Step String) → Bool} {p : DictPath} {t : Json}

/-- **Where the path is present, the walk masks what the path comes to.** -/
theorem Present.censorAtPath (h : Present hit p t)
    (hdistinct : t.KeysDistinct) {fuel : Nat} (hfuel : p.path.toList.length ≤ fuel) :
    censorAtPath (fuel + 1) t p = .ok (t.mask (censors p) censorText) := by
  induction h generalizing fuel with
  | star hstar hkept => rw [censorAtPath_star hstar, censorAllLeafs_eq_mask hstar]
  | last hstar hvalue hlast =>
    rw [censorAtPath_last hstar hvalue hlast, ← mask_last hstar hlast,
      replace_eq_mask hstar (nodup_of_keysDistinct hdistinct) hvalue]
  | leaf hstar hvalue hnext =>
    -- the leaf is written back as it is
    have hnodup := nodup_of_keysDistinct hdistinct
    have hsame := replace_eq_map (f := fun _ t => t) hnodup hvalue fun _ _ _ => rfl
    rw [censorAtPath_next hstar hvalue hnext, censorBelow, ← replace_eq_mask hstar hnodup hvalue,
      censors_next hstar hnext, mask_censors_leaf, hsame, List.map_id']
  | @dict hit p entries below hstar hvalue hnext _ ih =>
    have hshorter := Nat.lt_of_lt_of_le (length_getNext hnext) hfuel
    obtain ⟨fuel, rfl⟩ := Nat.exists_eq_add_one_of_ne_zero (Nat.ne_zero_of_lt hshorter)
    have hbelow := ih (keysDistinct_of_lookup hdistinct hvalue) (Nat.le_of_lt_succ hshorter)
    rw [censorAtPath_next hstar hvalue hnext, censorBelow, hbelow,
      ← replace_eq_mask hstar (nodup_of_keysDistinct hdistinct) hvalue, censors_next hstar hnext]
    rfl
  | @list hit p entries items hstar hvalue hnext _ ih =>
    have hshorter := Nat.lt_of_le_of_lt (length_copy _) (Nat.lt_of_lt_of_le (length_getNext hnext) hfuel)
    obtain ⟨fuel, rfl⟩ := Nat.exists_eq_add_one_of_ne_zero (Nat.ne_zero_of_lt hshorter)
    cases keysDistinct_of_lookup hdistinct hvalue with
    | list hitems =>
      have hwalk := mapM_ok fun item hitem => ih item hitem (hitems item hitem) (Nat.le_of_lt_succ hshorter)
      rw [censorAtPath_next hstar hvalue hnext, censorBelow, hwalk,
        ← replace_eq_mask hstar (nodup_of_keysDistinct hdistinct) hvalue, censors_next hstar hnext, mask_censors_list]
      rfl

theorem present_of_censorAtPath {r fuel} (hfuel : p.path.toList.length < fuel)
    (h : censorAtPath fuel t p = .ok r) : Present (fun _ => false) p t := by
  induction fuel generalizing p t r with
  | zero => exact absurd hfuel (Nat.not_lt_zero _)
  | succ fuel ih =>
    cases t with
    | leaf v => cases h
    | list items => cases h
    | dict entries =>
      cases hstar : p.isStarPath with
      | true => exact .star hstar fun _ => rfl
      | false =>
        cases hvalue : entries.lookup p.getNext.1 with
        | none => simp [censorAtPath, hstar, hvalue] at h
        | some value =>
          cases hnext : p.getNext.2.hasNext with
          | false => exact .last hstar hvalue hnext
          | true =>
            have hlength : p.getNext.2.path.toList.length < fuel :=
              Nat.lt_of_lt_of_le (length_getNext hnext) (Nat.le_of_lt_succ hfuel)
            cases value with
            | leaf v => exact .leaf hstar hvalue hnext
            | dict below =>
              rw [censorAtPath_next hstar hvalue hnext, censorBelow] at h
              cases hbelow : censorAtPath fuel (.dict below) p.getNext.2 with
              | error e => rw [hbelow] at h; cases h
              | ok r' => exact .dict hstar hvalue hnext (ih hlength hbelow)
            | list items =>
              rw [censorAtPath_next hstar hvalue hnext, censorBelow] at h
              cases hitems : items.mapM fun item => censorAtPath fuel item p.getNext.2.copy with
              | error e => rw [hitems] at h; cases h
              | ok items' =>
                refine .list hstar hvalue hnext fun item hitem => ?_
                obtain ⟨r', hr'⟩ := forall_of_mapM_ok hitems item hitem
                exact ih (Nat.lt_of_le_of_lt (length_copy _) hlength) hr'

/-! ## What is censored stays present -/

section

variable {hit : List (Step String) → Bool} {p : DictPath} {entries : JsonObject}

/-- What lies below the next name of the path. -/
def Present.Below (hit : List (Step String) → Bool) (p : DictPath) : Json → Prop
  | .leaf _ => True
  | .dict below => Present (fun steps => hit (.key p.getNext.1 :: steps)) p.getNext.2 (.dict below)
  | .list items => ∀ item ∈ items,
    Present (fun steps => hit (.key p.getNext.1 :: .item :: steps)) p.getNext.2.copy item

theorem Present.next (h : Present hit p (.dict entries)) (hstar : p.isStarPath = false) :
    ∃ value, entries.lookup p.getNext.1 = some value ∧ (p.getNext.2.hasNext = true → Below hit p value) := by
  cases h with
  | star hstar' _ => simp [hstar] at hstar'
  | last _ hvalue hlast => exact ⟨_, hvalue, fun hnext => by simp [hnext] at hlast⟩
  | leaf _ hvalue _ => exact ⟨_, hvalue, fun _ => trivial⟩
  | dict _ hvalue _ hbelow => exact ⟨_, hvalue, fun _ => hbelow⟩
  | list _ hvalue _ hitems => exact ⟨_, hvalue, fun _ => hitems⟩

theorem Present.ne_nil (h : Present hit p (.dict entries)) (hstar : p.isStarPath = false) : entries ≠ [] := by
  obtain ⟨value, hvalue, -⟩ := h.next hstar
  exact ne_nil_of_lookup hvalue

theorem Present.below_of_lookup (h : Present hit p (.dict entries)) (hstar : p.isStarPath = false)
    (hnext : p.getNext.2.hasNext = true) {value} (hvalue : entries.lookup p.getNext.1 = some value) :
    Below hit p value := by
  obtain ⟨value', hvalue', hbelow⟩ := h.next hstar
  cases hvalue.symm.trans hvalue'
  exact hbelow hnext

end

theorem lookup_mask (hide : List (Step String) → Json → Bool) {key} (hvalue : entries.lookup key = some value) :
    ∃ masked : JsonObject, (dict entries).mask hide censorText = .dict masked ∧
      masked.lookup key = some (value.mask (fun steps => hide (.key key :: steps)) censorText) := by
  refine ⟨_, mask_dict (ne_nil_of_lookup hvalue), ?_⟩
  rw [lookup_map_snd fun k t => t.mask (fun steps => hide (.key k :: steps)) censorText, hvalue]
  rfl

/-- A path that is present is so after any censoring that empties no more than is hit. -/
theorem Present.mask (h : Present hit p t)
    {hide : List (Step String) → Json → Bool} (hhit : ∀ steps, hide steps (.dict []) = true → hit steps = true) :
    Present hit p (t.mask hide censorText) := by
  induction h generalizing hide with
  | @star hit p entries hstar hkept =>
    by_cases hne : entries = []
    · subst hne
      have hnot : ¬hide [] (.dict []) = true := fun hh => Bool.false_ne_true ((hkept rfl).symm.trans (hhit [] hh))
      rw [mask_end rfl, if_neg hnot]
      exact .star hstar hkept
    · rw [mask_dict hne]
      exact .star hstar fun hnil => absurd (List.map_eq_nil_iff.mp hnil) hne
  | last hstar hvalue hlast =>
    obtain ⟨masked, hmasked, hlookup⟩ := lookup_mask hide hvalue
    rw [hmasked]
    exact .last hstar hlookup hlast
  | leaf hstar hvalue hnext =>
    obtain ⟨masked, hmasked, hlookup⟩ := lookup_mask hide hvalue
    rw [mask_end rfl] at hlookup
    rw [hmasked]
    split at hlookup
    · exact .leaf hstar hlookup hnext
    · exact .leaf hstar hlookup hnext
  | dict hstar hvalue hnext hbelow ih =>
    obtain ⟨masked, hmasked, hlookup⟩ := lookup_mask hide hvalue
    have hpresent := ih fun steps hh => hhit _ hh
    rw [mask_dict (hbelow.ne_nil hstar)] at hpresent hlookup
    rw [hmasked]
    exact .dict hstar hlookup hnext hpresent
  | @list hit p entries items hstar hvalue hnext _ ih =>
    obtain ⟨masked, hmasked, hlookup⟩ := lookup_mask hide hvalue
    rw [hmasked]
    by_cases hne : items = []
    · subst hne
      rw [mask_end rfl] at hlookup
      split at hlookup
      · exact .leaf hstar hlookup hnext
      · exact .list hstar hlookup hnext (List.forall_mem_nil _)
    · rw [mask_list hne] at hlookup
      refine .list hstar hlookup hnext fun item hitem => ?_
      obtain ⟨item, hmem, rfl⟩ := List.mem_map.mp hitem
      exact ih item hmem fun steps hh => hhit _ hh

theorem Present.of_masks {hit₀} (h : Present hit₀ p t) {masks : List (List (Step String) → Json → Bool)}
    (hmasks : ∀ hide ∈ masks, ∃ hit, Present hit p (t.mask hide censorText)) :
    Present (fun steps => masks.any fun hide => hide steps (.dict [])) p t := by
  induction h generalizing masks with
  | star hstar _ =>
    refine .star hstar fun hnil => List.any_eq_false.mpr fun hide hmem hhide => ?_
    obtain ⟨hit, hpresent⟩ := hmasks hide hmem
    rw [hnil, mask_end rfl, if_pos hhide] at hpresent
    cases hpresent
  | last hstar hvalue hlast => exact .last hstar hvalue hlast
  | leaf hstar hvalue hnext => exact .leaf hstar hvalue hnext
  | @dict _ p _ below hstar hvalue hnext hbelow ih =>
    have hmasks' : ∀ hide ∈ masks.map fun hide steps => hide (.key p.getNext.1 :: steps),
        ∃ hit, Present hit p.getNext.2 ((Tree.dict below).mask hide censorText) := by
      intro hide' hmem'
      obtain ⟨hide, hmem, rfl⟩ := List.mem_map.mp hmem'
      obtain ⟨hit, hpresent⟩ := hmasks hide hmem
      obtain ⟨masked, hmasked, hlookup⟩ := lookup_mask hide hvalue
      rw [mask_dict (hbelow.ne_nil hstar)] at hlookup ⊢
      rw [hmasked] at hpresent
      exact ⟨_, hpresent.below_of_lookup hstar hnext hlookup⟩
    have hrest := ih hmasks'
    simp only [List.any_map, Function.comp_def] at hrest
    exact .dict hstar hvalue hnext hrest
  | @list _ p _ items hstar hvalue hnext _ ih =>
    refine .list hstar hvalue hnext fun item hitem => ?_
    have hmasks' : ∀ hide ∈ masks.map fun hide steps => hide (.key p.getNext.1 :: .item :: steps),
        ∃ hit, Present hit p.getNext.2.copy (item.mask hide censorText) := by
      intro hide' hmem'
      obtain ⟨hide, hmem, rfl⟩ := List.mem_map.mp hmem'
      obtain ⟨hit, hpresent⟩ := hmasks hide hmem
      obtain ⟨masked, hmasked, hlookup⟩ := lookup_mask hide hvalue
      rw [mask_list (List.ne_nil_of_mem hitem)] at hlookup
      rw [hmasked] at hpresent
      exact ⟨_, hpresent.below_of_lookup hstar hnext hlookup _ (List.mem_map_of_mem hitem)⟩
    have hrest := ih item hitem hmasks'
    simpa only [List.any_map, Function.comp_def] using hrest

theorem Present.own (h : Present hit p t) : Present (censors p · (.dict [])) p t := by
  induction h with
  | star hstar _ => exact .star hstar fun _ => rfl
  | last hstar hvalue hlast => exact .last hstar hvalue hlast
  | leaf hstar hvalue hnext => exact .leaf hstar hvalue hnext
  | dict hstar hvalue hnext _ ih =>
    rw [← censors_next hstar hnext] at ih
    exact .dict hstar hvalue hnext ih
  | @list hit p entries items hstar hvalue hnext _ ih =>
    refine .list hstar hvalue hnext fun item hitem => ?_
    have hrest : ∀ steps, censors p (.key p.getNext.1 :: .item :: steps) = censors p.getNext.2.copy steps :=
      fun steps => congrFun (censors_next hstar hnext) (.item :: steps)
    simpa only [hrest] using ih item hitem

theorem Present.mask_self (h : Present hit p t) : ∃ hit', Present hit' p (t.mask (censors p) censorText) :=
  ⟨_, h.own.mask fun _ hh => hh⟩

/-! ## All the paths, in any order -/

/-- An object as `json.loads` gives it: the keys of every dictionary are distinct. -/
structure ParsedObject where
  entries : JsonObject
  distinct : (dict entries).KeysDistinct

/-- The loop of `censor_data` over the paths of `allow_all_except`. -/
def censorPaths (paths : List DictPath) (data : JsonObject) : Except Exc JsonObject :=
  paths.foldlM (fun data path => do
    match ← censorAtPath (path.path.toList.length + 1) (.dict data) path with
    | .dict data => .ok data
    | _ => .ok data) data

variable {items : List String}

theorem censorData_except {a : DataCensorAbility}
    (hitems : a.ability.allowAllExcept = some items) (data : JsonObject) (actionName : String) :
    a.censorData data actionName = censorPaths (pathsFor items actionName) data := by
  obtain ⟨cls, ability, valid⟩ := a
  rcases ability.eq_all_or_specific_or_allExcept with rfl | ⟨items', hne, rfl⟩ | ⟨items', hne, rfl⟩
  · cases hitems
  · cases hitems
  · cases hitems
    obtain ⟨i, items, rfl⟩ := List.exists_cons_of_ne_nil hne
    change (censorPaths (pathsFor (i :: items) actionName) data >>= fun data => .ok data) = _
    cases censorPaths (pathsFor (i :: items) actionName) data <;> rfl

def maskObject (hide : List (Step String) → Json → Bool) (data : JsonObject) : JsonObject :=
  data.map fun e => (e.1, e.2.mask (fun steps => hide (.key e.1 :: steps)) censorText)

theorem dict_maskObject {hide} (hroot : hide [] (.dict []) = false)
    (data : JsonObject) : dict (maskObject hide data) = (dict data).mask hide censorText := by
  by_cases hne : data = []
  · subst hne
    rw [mask_end rfl, hroot, if_neg Bool.false_ne_true]
    rfl
  · rw [mask_dict hne]
    rfl

theorem maskObject_maskObject (hide hide' : List (Step String) → Json → Bool) (data : JsonObject) :
    maskObject hide' (maskObject hide data) = maskObject (fun steps e => hide steps e || hide' steps e) data := by
  unfold maskObject
  rw [List.map_map]
  exact List.map_congr_left fun e _ => Prod.ext rfl (mask_mask _)

theorem maskObject_false (data : JsonObject) : maskObject (fun _ _ => false) data = data := by
  have hsame : ∀ e ∈ data, (e.1, e.2.mask (fun _ _ => false) censorText) = e :=
    fun e _ => Prod.ext rfl (mask_false e.2)
  rw [maskObject, List.map_congr_left hsame, List.map_id']

theorem censoredBy_nil (paths : List DictPath) (e : Json) : censoredBy paths [] e = false := by
  simp [censoredBy]

section

variable {hit : List (Step String) → Bool} {p : DictPath} {paths : List DictPath} {data : JsonObject}

theorem censorPaths_cons (h : Present hit p (.dict data)) (hdistinct : (dict data).KeysDistinct)
    (paths : List DictPath) :
    censorPaths (p :: paths) data = censorPaths paths (maskObject (censors p) data) := by
  rw [censorPaths, List.foldlM_cons, h.censorAtPath hdistinct (Nat.le_refl _),
    ← dict_maskObject (censors_nil p _)]
  rfl

theorem present_of_censorPaths_cons {r} (h : censorPaths (p :: paths) data = .ok r) :
    Present (fun _ => false) p (.dict data) := by
  rw [censorPaths, List.foldlM_cons] at h
  cases hwalk : censorAtPath (p.path.toList.length + 1) (.dict data) p with
  | error e => rw [hwalk] at h; cases h
  | ok t => exact present_of_censorAtPath (Nat.lt_succ_self _) hwalk

/-- **The loop masks what some path comes to**, when every path is present. -/
theorem censorPaths_of_present (hpresent : ∀ p ∈ paths, Present hit p (.dict data))
    (hhit : ∀ p ∈ paths, ∀ steps, censors p steps (.dict []) = true → hit steps = true)
    (hdistinct : (dict data).KeysDistinct) :
    censorPaths paths data = .ok (maskObject (censoredBy paths) data) := by
  induction paths generalizing data with
  | nil =>
    change Except.ok data = .ok (maskObject (fun _ _ => false) data)
    rw [maskObject_false]
  | cons p paths ih =>
    obtain ⟨hp, hpaths⟩ := List.forall_mem_cons.mp hpresent
    obtain ⟨hhitp, hhit⟩ := List.forall_mem_cons.mp hhit
    have hmask := dict_maskObject (censors_nil p _) data
    rw [censorPaths_cons hp hdistinct, ih (fun q hq => ?_) hhit (hmask ▸ hdistinct.mask), maskObject_maskObject]
    · rfl
    · rw [hmask]
      exact (hpaths q hq).mask hhitp

end

/-! ## When the promise is kept -/

/-- What `censor_data` promises of its result: a leaf that is denied is the censor's text, every other leaf is
unchanged, and a new leaf, which stands for an empty container, is the censor's text below a path. -/
structure CensorsExactly (paths : List DictPath) (data result : JsonObject) : Prop where
  leaves : ∀ pos steps v, (dict data).at? pos = some (steps, v) →
    (dict result).at? pos = some (steps, if denied paths steps (.leaf v) then censorText else v)
  fresh : ∀ pos steps w, (dict result).at? pos = some (steps, w) → (dict data).at? pos = none →
    w = censorText ∧ covered paths steps = true

/-- The paths come to no end of the data that is not denied, and to every leaf that is; the censor's text may
stay or be written again. -/
def ReadAsMeant (paths : List DictPath) (data : JsonObject) : Prop :=
  ∀ pos steps e, (dict data).node? pos = some (steps, e) → e.children = [] → e ≠ .leaf censorText →
    (censoredBy paths steps e = true → denied paths steps e = true) ∧
    (∀ v, e = .leaf v → denied paths steps e = true → censoredBy paths steps e = true)

theorem denied_of_not_leaf {paths e} (hnot : ∀ v, e ≠ .leaf v)
    (steps : List (Step String)) : denied paths steps e = covered paths steps := by
  have hstr : isStr e = false := by
    cases e with
    | leaf v => exact absurd rfl (hnot v)
    | list items => rfl
    | dict entries => rfl
  rw [denied, hstr, Bool.and_false, Bool.not_false, Bool.and_true]

theorem censorsExactly_iff (paths : List DictPath) (data : JsonObject) :
    CensorsExactly paths data (maskObject (censoredBy paths) data) ↔ ReadAsMeant paths data := by
  have hdict := dict_maskObject (censoredBy_nil paths _) data
  have hleaf : ∀ pos steps v, (dict data).at? pos = some (steps, v) →
      (dict (maskObject (censoredBy paths) data)).at? pos =
        some (steps, if censoredBy paths steps (.leaf v) then censorText else v) := by
    intro pos steps v hv
    rw [hdict]
    exact at?_mask hv
  constructor
  · intro h pos steps e he hend hne
    by_cases hisleaf : ∃ v, e = .leaf v
    · obtain ⟨v, rfl⟩ := hisleaf
      have hv : v ≠ censorText := fun heq => hne (by rw [heq])
      have hat := at?_eq_some_iff_node?.mpr he
      have hvalue : (if censoredBy paths steps (.leaf v) then censorText else v) =
          if denied paths steps (.leaf v) then censorText else v := by
        have hboth := (hleaf pos steps v hat).symm.trans (h.leaves pos steps v hat)
        simpa using hboth
      constructor
      · intro hc
        by_contra hd
        rw [if_pos hc, if_neg hd] at hvalue
        exact hv hvalue.symm
      · intro _ _ hd
        by_contra hc
        rw [if_neg hc, if_pos hd] at hvalue
        exact hv hvalue
    · have hnot : ∀ v, e ≠ .leaf v := fun v hv => hisleaf ⟨v, hv⟩
      refine ⟨fun hc => ?_, fun v hv => absurd hv (hnot v)⟩
      have hhidden : (dict (maskObject (censoredBy paths) data)).at? pos = some (steps, censorText) := by
        rw [hdict, at?_eq_some_iff_node?, node?_mask_of_end he hend, if_pos hc]
      rw [denied_of_not_leaf hnot]
      exact (h.fresh pos steps censorText hhidden (at?_eq_none_of_node? he hnot)).2
  · intro h
    refine ⟨fun pos steps v hv => ?_, fun pos steps w hw hnone => ?_⟩
    · rw [hleaf pos steps v hv]
      by_cases hcensored : v = censorText
      · rw [hcensored, ite_self, ite_self]
      · have hends := h pos steps _ (at?_eq_some_iff_node?.mp hv) rfl fun heq => hcensored (by cases heq; rfl)
        have hsame : censoredBy paths steps (.leaf v) = denied paths steps (.leaf v) :=
          Bool.eq_iff_iff.mpr ⟨hends.1, hends.2 v rfl⟩
        rw [hsame]
    · rw [hdict, at?_eq_some_iff_node?] at hw
      obtain ⟨e, he, hend⟩ := node?_of_mask hw
      have hnot : ∀ v, e ≠ .leaf v := by
        rintro v rfl
        rw [at?_eq_some_iff_node?.mpr he] at hnone
        cases hnone
      have hmask := (node?_mask_of_end he hend).symm.trans hw
      cases hc : censoredBy paths steps e with
      | false =>
        rw [hc, if_neg Bool.false_ne_true] at hmask
        exact absurd (Prod.mk.inj (Option.some.inj hmask)).2 (hnot w)
      | true =>
        rw [hc, if_pos rfl] at hmask
        cases hmask
        refine ⟨rfl, ?_⟩
        rw [← denied_of_not_leaf hnot]
        exact (h pos steps e he hend (hnot _)).1 hc

theorem perm_pathsFor {order} (h : order.Perm items) (actionName : String) :
    (pathsFor order actionName).Perm (pathsFor items actionName) := (h.filter _).map _

theorem censoredBy_perm {paths paths'} (h : paths'.Perm paths) :
    censoredBy paths' = censoredBy paths := by
  funext steps e
  rw [Bool.eq_iff_iff]
  simp only [censoredBy, List.any_eq_true, h.mem_iff]

theorem exists_reordered {a : DataCensorAbility} {order}
    (hitems : a.ability.allowAllExcept = some items) (hperm : order.Perm items) :
    ∃ b : DataCensorAbility, b.ability.allowAllExcept = some order := by
  have hne : order ≠ [] := by
    rintro rfl
    obtain ⟨cls, ability, valid⟩ := a
    rcases ability.eq_all_or_specific_or_allExcept with rfl | ⟨items', hne, rfl⟩ | ⟨items', hne, rfl⟩
    · cases hitems
    · cases hitems
    · cases hitems
      exact hne hperm.nil_eq.symm
  refine ⟨⟨a.cls, .allExcept order hne, fun item hitem => a.validItems item ?_⟩, rfl⟩
  have hmem : item ∈ order := by simpa [Ability.items, Ability.allExcept] using hitem
  rw [Ability.items, hitems]
  exact List.mem_append_right _ (hperm.mem_iff.mp hmem)

theorem pathsFor_cons {item actionName} (happlies : itemAppliesToActionName item actionName = true)
    (items : List String) : pathsFor (item :: items) actionName = .ofItem item :: pathsFor items actionName := by
  have hfilter : (item :: items).filter (itemAppliesToActionName · actionName) =
      item :: items.filter (itemAppliesToActionName · actionName) := List.filter_cons_of_pos happlies
  rw [pathsFor, hfilter]
  rfl

/-- **Censoring is total and exact where every denied path is present and read as it is meant.** Taken in any
order, the paths of an `allow_all_except` make `censor_data` return, with every denied leaf censored and every
other leaf unchanged, if and only if the walk finds every path that applies to the action in the data, and comes
to the denied leaves and no others. -/
theorem censor_exact_iff {a : DataCensorAbility} {items : List String}
    (hitems : a.ability.allowAllExcept = some items) (actionName : String) (data : ParsedObject) :
    (∀ (b : DataCensorAbility) (order : List String), b.ability.allowAllExcept = some order → order.Perm items →
      ∃ result, b.censorData data.entries actionName = .ok result ∧
        CensorsExactly (pathsFor items actionName) data.entries result) ↔
    (∀ p ∈ pathsFor items actionName,
      Present (censoredBy (pathsFor items actionName) · (.dict [])) p (.dict data.entries)) ∧
    ReadAsMeant (pathsFor items actionName) data.entries := by
  have hhit : ∀ p ∈ pathsFor items actionName, ∀ steps, censors p steps (.dict []) = true →
      censoredBy (pathsFor items actionName) steps (.dict []) = true :=
    fun p hp steps h => List.any_eq_true.mpr ⟨p, hp, h⟩
  constructor
  · intro h
    -- the loop comes to an end whatever item is taken first, and whatever item second
    have hloop : ∀ order : List String, order.Perm items →
        ∃ result, censorPaths (pathsFor order actionName) data.entries = .ok result := by
      intro order hperm
      obtain ⟨b, hb⟩ := exists_reordered hitems hperm
      obtain ⟨result, hresult, -⟩ := h b order hb hperm
      exact ⟨result, (censorData_except hb _ _).symm.trans hresult⟩
    have hfirst : ∀ p ∈ pathsFor items actionName, Present (fun _ => false) p (.dict data.entries) := by
      intro p hp
      obtain ⟨item, hmem, rfl⟩ := List.mem_map.mp hp
      obtain ⟨hitem, happlies⟩ := List.mem_filter.mp hmem
      obtain ⟨result, hresult⟩ := hloop _ (List.perm_cons_erase hitem).symm
      rw [pathsFor_cons happlies] at hresult
      exact present_of_censorPaths_cons hresult
    have hsecond : ∀ p ∈ pathsFor items actionName, ∀ q ∈ pathsFor items actionName,
        ∃ hit, Present hit p ((dict data.entries).mask (censors q) censorText) := by
      intro p hp q hq
      have hpresent := hfirst q hq
      obtain ⟨item, hmem, rfl⟩ := List.mem_map.mp hp
      obtain ⟨hitem, happlies⟩ := List.mem_filter.mp hmem
      obtain ⟨item', hmem', rfl⟩ := List.mem_map.mp hq
      obtain ⟨hitem', happlies'⟩ := List.mem_filter.mp hmem'
      by_cases hsame : item = item'
      · subst hsame
        exact hpresent.mask_self
      · have herase : item ∈ items.erase item' := (List.mem_erase_of_ne hsame).mpr hitem
        obtain ⟨result, hresult⟩ := hloop _
          (((List.perm_cons_erase hitem').trans ((List.perm_cons_erase herase).cons item')).symm)
        rw [pathsFor_cons happlies', pathsFor_cons happlies, censorPaths_cons hpresent data.distinct] at hresult
        rw [← dict_maskObject (censors_nil _ _)]
        exact ⟨_, present_of_censorPaths_cons hresult⟩
    have hpresent : ∀ p ∈ pathsFor items actionName,
        Present (censoredBy (pathsFor items actionName) · (.dict [])) p (.dict data.entries) := by
      intro p hp
      have hmasks : ∀ hide ∈ (pathsFor items actionName).map censors,
          ∃ hit, Present hit p ((dict data.entries).mask hide censorText) := by
        intro hide hhide
        obtain ⟨q, hq, rfl⟩ := List.mem_map.mp hhide
        exact hsecond p hp q hq
      have hall := (hfirst p hp).of_masks hmasks
      simp only [List.any_map, Function.comp_def] at hall
      exact hall
    refine ⟨hpresent, ?_⟩
    obtain ⟨result, hresult, hexact⟩ := h a items hitems (List.Perm.refl _)
    rw [censorData_except hitems, censorPaths_of_present hpresent hhit data.distinct] at hresult
    cases hresult
    exact (censorsExactly_iff _ _).mp hexact
  · rintro ⟨hpresent, hmeant⟩ b order hb hperm
    have hpaths := perm_pathsFor hperm actionName
    refine ⟨maskObject (censoredBy (pathsFor order actionName)) data.entries, ?_, ?_⟩
    · rw [censorData_except hb]
      exact censorPaths_of_present (fun p hp => hpresent p (hpaths.mem_iff.mp hp))
        (fun p hp => hhit p (hpaths.mem_iff.mp hp)) data.distinct
    · rw [censoredBy_perm hpaths]
      exact (censorsExactly_iff _ _).mpr hmeant

/-! ## Data without the path -/

theorem userId_valid : ∀ item ∈ (Ability.allExcept ["user.id"] (List.cons_ne_nil _ _)).items,
    ∃ raw, CensorClass.canViewActionData.validator raw = .ok item := by
  intro item hitem
  obtain rfl : item = "user.id" := by simpa [Ability.items, Ability.allExcept] using hitem
  exact ⟨"user.id", by decide⟩

/-- An ability that shows everything but `user.id`. -/
def hideUserId : DataCensorAbility where
  cls := .canViewActionData
  ability := .allExcept ["user.id"] (List.cons_ne_nil _ _)
  validItems := userId_valid

def withUserId : ParsedObject where
  entries := nestedId (.int 5)
  distinct := .dict (List.nodup_singleton _) <| List.forall_mem_singleton.mpr <|
    .dict (List.nodup_singleton _) <| List.forall_mem_singleton.mpr (.leaf _)

theorem censor_exact_withUserId :
    hideUserId.ability.allowAllExcept = some ["user.id"] ∧
      ∀ (b : DataCensorAbility) (order : List String), b.ability.allowAllExcept = some order →
        order.Perm ["user.id"] → ∃ result, b.censorData withUserId.entries "guild_joined" = .ok result ∧
          CensorsExactly (pathsFor ["user.id"] "guild_joined") withUserId.entries result := by
  have hpaths : pathsFor ["user.id"] "guild_joined" = [.ofItem "user.id"] := rfl
  refine ⟨rfl, (censor_exact_iff (a := hideUserId) rfl "guild_joined" withUserId).mpr ⟨?_, ?_⟩⟩
  · rw [hpaths]
    exact List.forall_mem_singleton.mpr (.dict rfl rfl rfl (.last rfl rfl rfl))
  · rw [hpaths]
    intro pos steps e he hend _
    -- the only end is the value of `id`
    have hsteps : steps = [.key "user", .key "id"] ∧ e = .leaf (.int 5) := by
      rcases pos with - | ⟨- | i, - | ⟨- | j, - | ⟨l, pos⟩⟩⟩ <;> simp [withUserId, nestedId, node?] at he
      · rw [← he.2] at hend
        simp at hend
      · rw [← he.2] at hend
        simp at hend
      · exact ⟨he.1.symm, he.2.symm⟩
    obtain ⟨rfl, rfl⟩ := hsteps
    exact ⟨fun _ => by decide, fun _ _ _ => by decide⟩

/-- **Data without the path raises.** `data[key]` is asked for whether or not the data has the key. -/
theorem missing_path_raises :
    hideUserId.ability.allowAllExcept = some ["user.id"] ∧
      hideUserId.censorData [("guild", .leaf (.int 5))] "guild_joined" = .error ⟨.keyError, "user"⟩ :=
  ⟨rfl, rfl⟩

end Osprey.DataCensor
