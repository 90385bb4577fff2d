/-
Abilities: what a user may see. An ability allows everything, a set of
items, or everything but a set of items; `Ability.ability_root_validator`
refuses every other combination, so an ability is built together with the
fact that it passed. A user with several abilities of one class has their
merge.
-/
import Mathlib.Data.List.Dedup
import Osprey.Engine.Basic

namespace Osprey

variable {ι : Type}

/-- `Ability.ability_root_validator`. Sets are lists of their elements. -/
def abilityRootValidator (allowAll : Option Bool) (allowSpecific allowAllExcept : Option (List ι)) :
    Except Exc Unit :=
  if allowAll.isNone && allowAllExcept.isNone && allowSpecific.isNone then
    .error ⟨.valueError, "`allow_all`, `allow_all_except`, and `allow_specific` cannot all be None"⟩
  else if allowAll == some false then
    .error ⟨.valueError, "`allow_all` can only be `true`"⟩
  else if allowAllExcept.any List.isEmpty then
    .error ⟨.valueError, "`allow_all_except` cannot be empty"⟩
  else if allowSpecific.any List.isEmpty then
    .error ⟨.valueError, "`allow_specific` cannot be empty"⟩
  else if allowSpecific.isSome && allowAllExcept.isSome then
    .error ⟨.valueError, "`allow_all_except` and `allow_specific` are both present within the same scope." ++
      " The two values are mutually exclusive."⟩
  else if allowSpecific.isSome && allowAll.isSome then
    .error ⟨.valueError, "`allow_all` is set to `true` but you have redundant additional `allow_specific`." ++
      " The two values are mutually exclusive."⟩
  else if allowAllExcept.isSome && allowAll.isSome then
    .error ⟨.valueError, "`allow_all` is set to `true` but you have redundant additional `allow_all_except`." ++
      " The two values are mutually exclusive."⟩
  else
    .ok ()

structure Ability (ι : Type) where
  allowAll : Option Bool
  allowSpecific : Option (List ι)
  allowAllExcept : Option (List ι)
  valid : abilityRootValidator allowAll allowSpecific allowAllExcept = .ok ()

namespace Ability

def all : Ability ι := ⟨some true, none, none, rfl⟩

def specific (items : List ι) (hne : items ≠ []) : Ability ι :=
  ⟨none, some items, none, by cases items with
    | nil => exact absurd rfl hne
    | cons i items => rfl⟩

def allExcept (items : List ι) (hne : items ≠ []) : Ability ι :=
  ⟨none, none, some items, by cases items with
    | nil => exact absurd rfl hne
    | cons i items => rfl⟩

/-- **Every ability is one of the three.** What passes the root validator allows all, specific items, or all
items but some, and no two of these. -/
theorem eq_all_or_specific_or_allExcept (a : Ability ι) :
    a = all ∨ (∃ items hne, a = specific items hne) ∨ ∃ items hne, a = allExcept items hne := by
  obtain ⟨allowAll, allowSpecific, allowAllExcept, valid⟩ := a
  rcases allowAll with - | (- | -) <;> rcases allowSpecific with - | (- | ⟨i, items⟩) <;>
    rcases allowAllExcept with - | (- | ⟨j, items'⟩) <;> try (simp [abilityRootValidator] at valid; done)
  · exact .inr (.inr ⟨j :: items', by simp, rfl⟩)
  · exact .inr (.inl ⟨i :: items, by simp, rfl⟩)
  · exact .inl rfl

def items (a : Ability ι) : List ι := a.allowSpecific.getD [] ++ a.allowAllExcept.getD []

/-- `item_is_allowed`. An absent or empty set is falsy. -/
def itemIsAllowed [BEq ι] (a : Ability ι) (item : ι) : Bool :=
  if a.allowAll == some true then true
  else match a.allowAllExcept, a.allowSpecific with
    | some (i :: items), _ => !(i :: items).contains item
    | _, some (i :: items) => (i :: items).contains item
    | _, _ => false

section

variable [DecidableEq ι]

@[simp] theorem itemIsAllowed_all (item : ι) : (all : Ability ι).itemIsAllowed item = true := rfl

@[simp] theorem itemIsAllowed_specific (items : List ι) (hne : items ≠ []) (item : ι) :
    (specific items hne).itemIsAllowed item = items.contains item := by
  cases items with
  | nil => exact absurd rfl hne
  | cons i items => rfl

@[simp] theorem itemIsAllowed_allExcept (items : List ι) (hne : items ≠ []) (item : ι) :
    (allExcept items hne).itemIsAllowed item = !items.contains item := by
  cases items with
  | nil => exact absurd rfl hne
  | cons i items => rfl

/-! ## Merging -/

def union (sets : List (Option (List ι))) : List ι := (sets.filterMap id).flatten.dedup

/-- `User._merge_abilities`. -/
def merge (abilityList : List (Ability ι)) : Except Exc (Ability ι) :=
  if abilityList.any (·.allowAll == some true) then .ok all
  else
    let allowAllExcept := union (abilityList.map allowAllExcept)
    let allowSpecific := union (abilityList.map allowSpecific)
    if allowAllExcept ≠ [] ∧ allowSpecific ≠ [] then
      let allowAllExcept := allowAllExcept.filter (!allowSpecific.contains ·)
      if hne : allowAllExcept ≠ [] then .ok (allExcept allowAllExcept hne) else .ok all
    else if hne : allowAllExcept ≠ [] then .ok (allExcept allowAllExcept hne)
    else if hne : allowSpecific ≠ [] then .ok (specific allowSpecific hne)
    else .error ⟨.assertionError, "An ability that was merged became completely empty. This should not occur."⟩

variable {item : ι}

theorem mem_union {sets} : item ∈ union sets ↔ ∃ items, some items ∈ sets ∧ item ∈ items := by
  simp [union, List.mem_dedup]

variable {abilityList : List (Ability ι)}

/-- The assertion at the end of a merge never fails: every ability contributes something. -/
theorem merge_isOk (hne : abilityList ≠ []) : ∃ merged, merge abilityList = .ok merged := by
  obtain ⟨a, rest, rfl⟩ := List.exists_cons_of_ne_nil hne
  have hsome : (a :: rest).any (·.allowAll == some true) = true ∨
      union ((a :: rest).map allowAllExcept) ≠ [] ∨ union ((a :: rest).map allowSpecific) ≠ [] := by
    rcases a.eq_all_or_specific_or_allExcept with rfl | ⟨items, hitems, rfl⟩ | ⟨items, hitems, rfl⟩
    · exact .inl rfl
    · obtain ⟨i, items, rfl⟩ := List.exists_cons_of_ne_nil hitems
      exact .inr (.inr (List.ne_nil_of_mem (mem_union.mpr ⟨i :: items, List.mem_cons_self, List.mem_cons_self⟩)))
    · obtain ⟨i, items, rfl⟩ := List.exists_cons_of_ne_nil hitems
      exact .inr (.inl (List.ne_nil_of_mem (mem_union.mpr ⟨i :: items, List.mem_cons_self, List.mem_cons_self⟩)))
  unfold merge
  split
  · exact ⟨_, rfl⟩
  · rename_i hall
    have hsome := hsome.resolve_left hall
    dsimp only
    split
    · split <;> exact ⟨_, rfl⟩
    · split
      · exact ⟨_, rfl⟩
      · split
        · exact ⟨_, rfl⟩
        · rename_i h₁ h₂
          exact absurd hsome (by rw [not_or]; exact ⟨h₁, h₂⟩)

variable {merged : Ability ι}

theorem mem_items_of_merge (h : merge abilityList = .ok merged) (hitem : item ∈ merged.items) :
    ∃ a ∈ abilityList, item ∈ a.items := by
  have hspecific : item ∈ union (abilityList.map allowSpecific) → ∃ a ∈ abilityList, item ∈ a.items := by
    intro hmem
    obtain ⟨items, hitems, hin⟩ := mem_union.mp hmem
    obtain ⟨a, ha, heq⟩ := List.mem_map.mp hitems
    exact ⟨a, ha, by simp [Ability.items, heq, hin]⟩
  have hexcept : item ∈ union (abilityList.map allowAllExcept) → ∃ a ∈ abilityList, item ∈ a.items := by
    intro hmem
    obtain ⟨items, hitems, hin⟩ := mem_union.mp hmem
    obtain ⟨a, ha, heq⟩ := List.mem_map.mp hitems
    exact ⟨a, ha, by simp [Ability.items, heq, hin]⟩
  have hitem' : item ∈ union (abilityList.map allowSpecific) ∨ item ∈ union (abilityList.map allowAllExcept) := by
    unfold merge at h
    dsimp only at h
    split at h
    · cases h
      simp [Ability.items, all] at hitem
    · split at h
      · split at h
        · cases h
          simp only [Ability.items, allExcept, Option.getD_none, Option.getD_some, List.nil_append] at hitem
          exact .inr (List.mem_of_mem_filter hitem)
        · cases h
          simp [Ability.items, all] at hitem
      · split at h
        · cases h
          exact .inr (by simpa [Ability.items, allExcept] using hitem)
        · split at h
          · cases h
            exact .inl (by simpa [Ability.items, specific] using hitem)
          · cases h
  exact hitem'.elim hspecific hexcept

/-- `User.get_ability`, of the abilities of the class. -/
def getAbility (abilities : List (Ability ι)) : Except Exc (Option (Ability ι)) :=
  if abilities.isEmpty then .ok none else (merge abilities).map some

/-! ## What a merge allows -/

def SomeAllowsAll (abilityList : List (Ability ι)) : Prop := ∃ a ∈ abilityList, a.allowAll = some true

def specificItems (abilityList : List (Ability ι)) : List ι := union (abilityList.map allowSpecific)

def exceptedItems (abilityList : List (Ability ι)) : List ι := union (abilityList.map allowAllExcept)

theorem mem_union_map {items?} :
    item ∈ union (abilityList.map items?) ↔ ∃ a ∈ abilityList, ∃ items, items? a = some items ∧ item ∈ items := by
  simp only [mem_union, List.mem_map]
  constructor
  · rintro ⟨items, ⟨a, ha, heq⟩, hitem⟩
    exact ⟨a, ha, items, heq, hitem⟩
  · rintro ⟨a, ha, items, heq, hitem⟩
    exact ⟨items, ⟨a, ha, heq⟩, hitem⟩

theorem mem_specificItems :
    item ∈ specificItems abilityList ↔ ∃ a ∈ abilityList, ∃ items, a.allowSpecific = some items ∧ item ∈ items :=
  mem_union_map

theorem mem_exceptedItems :
    item ∈ exceptedItems abilityList ↔ ∃ a ∈ abilityList, ∃ items, a.allowAllExcept = some items ∧ item ∈ items :=
  mem_union_map

/-- **What a merge allows**: everything if one ability does; the specific items; and, if some abilities have exceptions,
whatever is an exception of none of them. -/
theorem itemIsAllowed_merge (h : merge abilityList = .ok merged) (item : ι) :
    merged.itemIsAllowed item = true ↔ SomeAllowsAll abilityList ∨ item ∈ specificItems abilityList ∨
      exceptedItems abilityList ≠ [] ∧ item ∉ exceptedItems abilityList := by
  have hall : abilityList.any (·.allowAll == some true) = true ↔ SomeAllowsAll abilityList := by
    simp [SomeAllowsAll]
  unfold merge at h
  by_cases hsome : SomeAllowsAll abilityList
  · rw [if_pos (hall.2 hsome)] at h
    cases h
    simp [hsome]
  rw [if_neg (mt hall.1 hsome)] at h
  simp only [hsome, false_or]
  dsimp only at h
  rw [show union (abilityList.map allowAllExcept) = exceptedItems abilityList from rfl,
    show union (abilityList.map allowSpecific) = specificItems abilityList from rfl] at h
  by_cases hexcept : exceptedItems abilityList = []
  · rw [if_neg (fun hboth => hboth.1 hexcept), dif_neg (not_not.2 hexcept)] at h
    split at h
    · cases h
      simp [hexcept]
    · cases h
  by_cases hspecific : specificItems abilityList = []
  · rw [if_neg (fun hboth => hboth.2 hspecific), dif_pos hexcept] at h
    cases h
    simp [hexcept, hspecific]
  · rw [if_pos ⟨hexcept, hspecific⟩] at h
    -- An exception that is a specific item of another ability is dropped.
    have hmem : item ∈ (exceptedItems abilityList).filter (!(specificItems abilityList).contains ·) ↔
        item ∈ exceptedItems abilityList ∧ item ∉ specificItems abilityList := by simp
    have hgoal : ¬ item ∈ (exceptedItems abilityList).filter (!(specificItems abilityList).contains ·) ↔
        item ∈ specificItems abilityList ∨ exceptedItems abilityList ≠ [] ∧ item ∉ exceptedItems abilityList := by
      rw [hmem]
      tauto
    rw [← hgoal]
    split at h
    · cases h
      simp only [itemIsAllowed_allExcept, Bool.not_eq_true', List.contains_eq_mem, decide_eq_false_iff_not]
    · next hnil =>
      cases h
      rw [itemIsAllowed_all]
      exact iff_of_true rfl (by rw [not_not.1 hnil]; exact List.not_mem_nil)

theorem exists_allowed_of_merge (h : merge abilityList = .ok merged) (hitem : merged.itemIsAllowed item = true) :
    ∃ a ∈ abilityList, a.itemIsAllowed item = true := by
  rcases (itemIsAllowed_merge h item).1 hitem with ⟨a, ha, hall⟩ | hspecific | ⟨hne, hnot⟩
  · exact ⟨a, ha, by simp [itemIsAllowed, hall]⟩
  · obtain ⟨a, ha, items, heq, hin⟩ := mem_specificItems.1 hspecific
    refine ⟨a, ha, ?_⟩
    rcases a.eq_all_or_specific_or_allExcept with rfl | ⟨items', hitems, rfl⟩ | ⟨items', hitems, rfl⟩
    · rfl
    · cases heq
      simpa using hin
    · cases heq
  · obtain ⟨excepted, hexcepted⟩ := List.exists_mem_of_ne_nil _ hne
    obtain ⟨a, ha, items, heq, -⟩ := mem_exceptedItems.1 hexcepted
    refine ⟨a, ha, ?_⟩
    rcases a.eq_all_or_specific_or_allExcept with rfl | ⟨items', hitems, rfl⟩ | ⟨items', hitems, rfl⟩
    · rfl
    · cases heq
    · cases heq
      have hnotin : item ∉ items := fun hin => hnot (mem_exceptedItems.2 ⟨_, ha, items, rfl, hin⟩)
      simpa using hnotin

/-- The further ability takes nothing away: one of the list allows everything; or the further one has no exceptions; or
the list has none; or each of its exceptions is an item that the list names. -/
def GrantKeeps (abilityList : List (Ability ι)) (granted : Ability ι) : Prop :=
  SomeAllowsAll abilityList ∨ granted.allowAllExcept = none ∨ (∀ a ∈ abilityList, a.allowAllExcept = none) ∨
    ∀ item ∈ granted.allowAllExcept.getD [], ∃ a ∈ abilityList, item ∈ a.items

theorem exceptedItems_eq_nil : exceptedItems abilityList = [] ↔ ∀ a ∈ abilityList, a.allowAllExcept = none := by
  rw [List.eq_nil_iff_forall_not_mem]
  constructor
  · intro h a ha
    rcases a.eq_all_or_specific_or_allExcept with rfl | ⟨items, hitems, rfl⟩ | ⟨items, hitems, rfl⟩
    · rfl
    · rfl
    · obtain ⟨item, hitem⟩ := List.exists_mem_of_ne_nil _ hitems
      exact absurd (mem_exceptedItems.2 ⟨_, ha, items, rfl, hitem⟩) (h item)
  · intro h item hitem
    obtain ⟨a, ha, items, heq, -⟩ := mem_exceptedItems.1 hitem
    rw [h a ha] at heq
    cases heq

theorem mem_items_iff :
    (∃ a ∈ abilityList, item ∈ a.items) ↔ item ∈ specificItems abilityList ∨ item ∈ exceptedItems abilityList := by
  rw [mem_specificItems, mem_exceptedItems]
  constructor
  · rintro ⟨a, ha, hitem⟩
    rcases a.eq_all_or_specific_or_allExcept with rfl | ⟨items, hitems, rfl⟩ | ⟨items, hitems, rfl⟩
    · cases hitem
    · exact .inl ⟨_, ha, items, rfl, by simpa [Ability.items, specific] using hitem⟩
    · exact .inr ⟨_, ha, items, rfl, by simpa [Ability.items, allExcept] using hitem⟩
  · rintro (⟨a, ha, items, heq, hitem⟩ | ⟨a, ha, items, heq, hitem⟩)
    · exact ⟨a, ha, by simp [Ability.items, heq, hitem]⟩
    · exact ⟨a, ha, by simp [Ability.items, heq, hitem]⟩

section

variable {abilityList extended : List (Ability ι)} {granted : Ability ι}

omit [DecidableEq ι] in
theorem someAllowsAll_extended (h : extended.Perm (granted :: abilityList)) :
    SomeAllowsAll extended ↔ granted.allowAll = some true ∨ SomeAllowsAll abilityList := by
  simp [SomeAllowsAll, h.mem_iff]

theorem mem_specificItems_extended (h : extended.Perm (granted :: abilityList)) :
    item ∈ specificItems extended ↔ item ∈ granted.allowSpecific.getD [] ∨ item ∈ specificItems abilityList := by
  rw [mem_specificItems, mem_specificItems]
  simp only [h.mem_iff, List.mem_cons, exists_eq_or_imp]
  cases granted.allowSpecific <;> simp

theorem mem_exceptedItems_extended (h : extended.Perm (granted :: abilityList)) :
    item ∈ exceptedItems extended ↔ item ∈ granted.allowAllExcept.getD [] ∨ item ∈ exceptedItems abilityList := by
  rw [mem_exceptedItems, mem_exceptedItems]
  simp only [h.mem_iff, List.mem_cons, exists_eq_or_imp]
  cases granted.allowAllExcept <;> simp

/-- What is allowed stays allowed just if each of the further exceptions was allowed for another reason, or not at all. -/
theorem keeps_iff {merged'} (h : extended.Perm (granted :: abilityList))
    (hmerged : merge abilityList = .ok merged) (hmerged' : merge extended = .ok merged') :
    (∀ item, merged.itemIsAllowed item = true → merged'.itemIsAllowed item = true) ↔
      GrantKeeps abilityList granted := by
  simp only [itemIsAllowed_merge hmerged, itemIsAllowed_merge hmerged', someAllowsAll_extended h,
    mem_specificItems_extended h]
  unfold GrantKeeps
  by_cases hall : SomeAllowsAll abilityList
  · simp [hall]
  rcases granted.eq_all_or_specific_or_allExcept with rfl | ⟨items, hitems, rfl⟩ | ⟨items, hitems, rfl⟩
  · simp [all]
  · -- The exceptions are those of the list.
    have hexcept : ∀ item, item ∈ exceptedItems extended ↔ item ∈ exceptedItems abilityList := fun item => by
      have hextended : item ∈ exceptedItems extended ↔ _ := mem_exceptedItems_extended h
      simpa [specific] using hextended
    refine iff_of_true (fun item hitem => ?_) (.inr (.inl rfl))
    obtain hallows | hspecific | ⟨hne, hnot⟩ := hitem
    · exact absurd hallows hall
    · exact .inr (.inl (.inr hspecific))
    · obtain ⟨excepted, hmem⟩ := List.exists_mem_of_ne_nil _ hne
      exact .inr (.inr ⟨List.ne_nil_of_mem ((hexcept excepted).2 hmem), mt (hexcept item).1 hnot⟩)
  · have hexcept : ∀ item, item ∈ exceptedItems extended ↔ item ∈ items ∨ item ∈ exceptedItems abilityList :=
      fun item => mem_exceptedItems_extended h
    have hne : exceptedItems extended ≠ [] := by
      obtain ⟨excepted, hmem⟩ := List.exists_mem_of_ne_nil _ hitems
      exact List.ne_nil_of_mem ((hexcept excepted).2 (.inl hmem))
    rw [← exceptedItems_eq_nil]
    simp only [mem_items_iff, hall, hne, hexcept, false_or, or_false, allExcept, Option.getD_none, Option.getD_some,
      List.not_mem_nil, reduceCtorEq, ne_eq, not_false_eq_true, true_and]
    constructor
    · intro hkeeps
      by_contra hcon
      obtain ⟨hsome, hitem⟩ := not_or.1 hcon
      obtain ⟨item, hitem⟩ := not_forall.1 hitem
      obtain ⟨hin, hnamed⟩ := Classical.not_imp.1 hitem
      obtain ⟨hspecific, hexcepted⟩ := not_or.1 hnamed
      rcases hkeeps item (.inr ⟨hsome, hexcepted⟩) with hspecific' | hnot
      · exact hspecific hspecific'
      · exact hnot (.inl hin)
    · rintro (hnil | hnamed) item (hspecific | ⟨hsome, hnot⟩)
      · exact .inl hspecific
      · exact absurd hnil hsome
      · exact .inl hspecific
      · by_cases hin : item ∈ items
        · exact .inl ((hnamed item hin).resolve_right hnot)
        · exact .inr (not_or.2 ⟨hin, hnot⟩)

/-- **Granting an ability takes nothing away just if it excepts nothing new.** For every list of abilities of a class and
every further one: what the merge of the extended list allows includes what the merge of the list allows exactly under
the condition, and what the merge of the list allows, one of its abilities allows. -/
theorem merge_extended_keeps_iff (hne : abilityList ≠ []) (h : extended.Perm (granted :: abilityList)) :
    ∃ merged merged', merge abilityList = .ok merged ∧ merge extended = .ok merged' ∧
      ((∀ item, merged.itemIsAllowed item = true → merged'.itemIsAllowed item = true) ↔
        GrantKeeps abilityList granted) ∧
      ∀ item, merged.itemIsAllowed item = true → ∃ a ∈ abilityList, a.itemIsAllowed item = true := by
  obtain ⟨merged, hmerged⟩ := merge_isOk hne
  have hne' : extended ≠ [] := by
    rintro rfl
    exact absurd h.nil_eq (by simp)
  obtain ⟨merged', hmerged'⟩ := merge_isOk hne'
  exact ⟨merged, merged', hmerged, hmerged', keeps_iff h hmerged hmerged', fun _ => exists_allowed_of_merge hmerged⟩

end

/-- Two abilities, each with an exception: the second one adds nothing to what the first names. -/
theorem merge_extended_keeps_same :
    ∃ merged merged', merge [allExcept ["a"] (by simp)] = .ok merged ∧
      merge [allExcept ["a"] (by simp), allExcept ["a"] (by simp)] = .ok merged' ∧
      ((∀ item, merged.itemIsAllowed item = true → merged'.itemIsAllowed item = true) ↔
        GrantKeeps [allExcept ["a"] (by simp)] (allExcept ["a"] (by simp))) ∧
      ∀ item, merged.itemIsAllowed item = true →
        ∃ a ∈ [allExcept ["a"] (by simp)], a.itemIsAllowed item = true :=
  merge_extended_keeps_iff (by simp) (.refl _)

/-- A further ability with an exception of its own revokes what the first one allows. -/
theorem merge_extended_revokes :
    ∃ merged merged', merge [allExcept ["a"] (by simp)] = .ok merged ∧
      merge [allExcept ["a"] (by simp), allExcept ["b"] (by simp)] = .ok merged' ∧
      merged.itemIsAllowed "b" = true ∧ merged'.itemIsAllowed "b" = false :=
  ⟨_, _, rfl, rfl, by decide, by decide⟩

end

end Ability

end Osprey
