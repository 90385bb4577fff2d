/-
`LabelsProvider`: a request holds many mutations of one entity's labels.
Conflicting mutations of one label are resolved by the weight of their
status, the survivors of a label are merged into one desired state, and each
desired state is applied to the label's current state.

The main result is that rules cannot move what a human has set: automatic
mutations leave every unexpired manual label as it was and are all reported
as dropped, whenever the request returns. It returns on labels that satisfy
what the code asserts (`SoundReasons`), which every request keeps.
-/
import Osprey.Worker.Labels
import Osprey.Lib.Heaviest
import Osprey.Lib.Run

namespace Osprey.Labels

open Lib (Dict heaviest lost push mem_heaviest)

/-! ## Mutations -/

structure EntityLabelMutation where
  labelName : String := ""
  reasonName : String := ""
  status : LabelStatus := .added
  pending : Bool := false
  description : String := ""
  features : Dict String String := .empty
  expiresAt : Option Time := none
  deriving DecidableEq

/-- The property `EntityLabelMutation.reason`, created at `now`. -/
def EntityLabelMutation.reason (m : EntityLabelMutation) (now : Time) : LabelReason where
  pending := m.pending
  description := m.description
  features := m.features
  createdAt := some now
  expiresAt := m.expiresAt

def EntityLabelMutation.desiredState (m : EntityLabelMutation) (now : Time) : LabelStateInner :=
  ⟨m.status, Dict.empty.set m.reasonName (m.reason now)⟩

structure DroppedEntityLabelMutation where
  mutation : EntityLabelMutation
  reason : MutationDropReason
  deriving DecidableEq

structure EntityLabelMutationsResult where
  newEntityLabels : EntityLabels
  oldEntityLabels : EntityLabels
  labelsAdded : List String := []
  labelsRemoved : List String := []
  labelsUpdated : List String := []
  droppedMutations : List DroppedEntityLabelMutation := []

/-! ## Conflicts -/

/-- The mutations collected for one label: never none, since a label is
entered with its first mutation. -/
structure LabelMutations where
  first : EntityLabelMutation
  rest : List EntityLabelMutation := []

def LabelMutations.toList (ms : LabelMutations) : List EntityLabelMutation := ms.first :: ms.rest

/-- The two accumulators of `_get_mutations_by_label_name_and_drop_conflicts`. -/
structure Collected where
  byLabelName : Dict String LabelMutations := .empty
  dropped : List DroppedEntityLabelMutation := []

/-- One round of its loop. -/
def Collected.add (c : Collected) (mutation : EntityLabelMutation) : Collected :=
  if mutation.labelName = "" then { c with dropped := c.dropped ++ [⟨mutation, .invalidLabelName⟩] }
  else
    match c.byLabelName.get? mutation.labelName with
    | none => { c with byLabelName := c.byLabelName.set mutation.labelName ⟨mutation, []⟩ }
    | some ms =>
      if mutation.status.value > ms.first.status.value then
        { byLabelName := c.byLabelName.set mutation.labelName ⟨mutation, []⟩
          dropped := c.dropped ++ ms.toList.map (⟨·, .conflictingMutation⟩) }
      else if mutation.status.value < ms.first.status.value then
        { c with dropped := c.dropped ++ [⟨mutation, .conflictingMutation⟩] }
      else { c with byLabelName := c.byLabelName.set mutation.labelName ⟨ms.first, ms.rest ++ [mutation]⟩ }

def getMutationsByLabelNameAndDropConflicts (mutations : List EntityLabelMutation) : Collected :=
  mutations.foldl Collected.add {}

/-! ## Desired states -/

/-- The desired state of one label: the first mutation's, with the reasons of
the others merged in. -/
def LabelMutations.desiredState (ms : LabelMutations) (now : Time) : Except Exc LabelStateInner :=
  if ms.rest.all (·.status = ms.first.status) then do
    let desired := ms.first.desiredState now
    let reasons ← desired.reasons.insertAll (ms.rest.map fun m => (m.reasonName, m.reason now))
    return { desired with reasons := reasons }
  else .error ⟨.assertionError, "invariant: more than one unique label status AFTER dropping conflicts"⟩

/-- `_get_desired_states_by_label_name`, as the items of the dictionary it builds. -/
def getDesiredStatesByLabelName (now : Time) :
    List (String × LabelMutations) → Except Exc (List (String × LabelMutations × LabelStateInner))
  | [] => .ok []
  | (labelName, ms) :: rest => do
    let desired ← ms.desiredState now
    let others ← getDesiredStatesByLabelName now rest
    return (labelName, ms, desired) :: others

/-! ## Applying them -/

def EntityLabelMutationsResult.appendResult (r : EntityLabelMutationsResult) (labelName : String)
    (newStatus : LabelStatus) : EntityLabelMutationsResult :=
  match newStatus.effectiveLabelStatus with
  | .added => { r with labelsAdded := r.labelsAdded ++ [labelName] }
  | .removed => { r with labelsRemoved := r.labelsRemoved ++ [labelName] }
  | _ => r

/-- One round of the loop over the desired states. `ms` are the mutations the
desired state was made from. -/
def EntityLabelMutationsResult.applyDesired (r : EntityLabelMutationsResult) (now : Time) (labelName : String)
    (ms : LabelMutations) (desired : LabelStateInner) : Except Exc EntityLabelMutationsResult :=
  match r.newEntityLabels.labels.get? labelName with
  | none =>
    .ok ({ r with newEntityLabels := ⟨r.newEntityLabels.labels.set labelName (.fromInner desired)⟩ }.appendResult
      labelName desired.status)
  | some current => do
    let (next, dropReason) ← current.tryApplyDesiredState now desired
    let r := { r with newEntityLabels := ⟨r.newEntityLabels.labels.set labelName next⟩ }
    match dropReason with
    | some reason => return { r with droppedMutations := r.droppedMutations ++ ms.toList.map (⟨·, reason⟩) }
    | none =>
      if current.status = next.status then return { r with labelsUpdated := r.labelsUpdated ++ [labelName] }
      else return r.appendResult labelName next.status

def EntityLabelMutationsResult.applyAll (r : EntityLabelMutationsResult) (now : Time) :
    List (String × LabelMutations × LabelStateInner) → Except Exc EntityLabelMutationsResult
  | [] => .ok r
  | (labelName, ms, desired) :: rest => do
    let r' ← r.applyDesired now labelName ms desired
    EntityLabelMutationsResult.applyAll r' now rest

open EntityLabelMutationsResult (appendResult applyDesired applyAll)

def computeNewLabelsFromMutations (labels : EntityLabels) (now : Time) (mutations : List EntityLabelMutation) :
    Except Exc EntityLabelMutationsResult := do
  let collected := getMutationsByLabelNameAndDropConflicts mutations
  let desiredStates ← getDesiredStatesByLabelName now collected.byLabelName.entries
  applyAll
    { newEntityLabels := labels, oldEntityLabels := labels, droppedMutations := collected.dropped } now desiredStates

/-! ## Every mutation is kept or dropped -/

/-- The mutations of a label that survived the conflicts. -/
def Collected.survivors (c : Collected) (name : String) : List EntityLabelMutation :=
  match c.byLabelName.get? name with
  | none => []
  | some ms => ms.toList

def droppedFor (dropped : List DroppedEntityLabelMutation) (name : String) : List EntityLabelMutation :=
  (dropped.map (·.mutation)).filter (·.labelName = name)

theorem droppedFor_append (ds es : List DroppedEntityLabelMutation) (name : String) :
    droppedFor (ds ++ es) name = droppedFor ds name ++ droppedFor es name := by
  simp [droppedFor]

theorem droppedFor_map (ms : List EntityLabelMutation) {n} (h : ∀ m ∈ ms, m.labelName = n)
    (reason : MutationDropReason) (name : String) :
    droppedFor (ms.map (⟨·, reason⟩)) name = if n = name then ms else [] := by
  have hmap : (ms.map fun m => (⟨m, reason⟩ : DroppedEntityLabelMutation)).map (·.mutation) = ms := by
    simp [Function.comp_def]
  rw [droppedFor, hmap]
  split
  · next he => exact List.filter_eq_self.2 fun m hm => by simp [h m hm, he]
  · next he => exact List.filter_eq_nil_iff.2 fun m hm => by simp [h m hm, he]

theorem Collected.survivors_set (d : Dict String LabelMutations) (k : String) (b : LabelMutations)
    (ds es : List DroppedEntityLabelMutation) (name : String) :
    Collected.survivors ⟨d.set k b, ds⟩ name = if name = k then b.toList else Collected.survivors ⟨d, es⟩ name := by
  unfold Collected.survivors
  rw [Dict.get?_set]
  by_cases h : name = k <;> simp [h]

theorem Collected.add_spec (c : Collected) {m} (h : m.labelName ≠ "") :
    (c.add m).dropped = c.dropped ++
        (lost (·.status.value) (c.survivors m.labelName) m).map (⟨·, .conflictingMutation⟩) ∧
      ∀ name, (c.add m).survivors name = if name = m.labelName then
        push (·.status.value) (c.survivors name) m else c.survivors name := by
  have hset : ∀ b ds, b.toList = push (·.status.value) (c.survivors m.labelName) m → ∀ name,
      Collected.survivors ⟨c.byLabelName.set m.labelName b, ds⟩ name = if name = m.labelName then
        push (·.status.value) (c.survivors name) m else c.survivors name := by
    intro b ds hb name
    rw [survivors_set _ _ b ds c.dropped, hb]
    split
    · next heq => rw [heq]
    · rfl
  rw [Collected.add, if_neg h]
  cases hg : c.byLabelName.get? m.labelName with
  | none =>
    have hold : c.survivors m.labelName = [] := by rw [survivors, hg]
    exact ⟨by simp [hold, lost], hset _ _ (by rw [hold, push, LabelMutations.toList])⟩
  | some b =>
    have hold : c.survivors m.labelName = b.first :: b.rest := by
      rw [survivors, hg]
      rfl
    rw [hold] at hset ⊢
    simp only [lost, push] at hset ⊢
    split
    · next hgt =>
      have hle := Nat.not_le.mpr hgt
      exact ⟨by simp [hle, Nat.le_of_lt hgt, LabelMutations.toList],
        hset _ _ (by simp [hle, Nat.le_of_lt hgt, LabelMutations.toList])⟩
    · split
      · next hlt =>
        have hle := Nat.not_le.mpr hlt
        refine ⟨by simp [hle, Nat.le_of_lt hlt], fun name => ?_⟩
        change c.survivors name = _
        split
        · next heq => simp [heq, hold, hle, Nat.le_of_lt hlt]
        · rfl
      · next hge hle =>
        have heq : m.status.value = b.first.status.value := by omega
        exact ⟨by simp [heq], hset _ _ (by simp [heq, LabelMutations.toList])⟩

def strongest (mutations : List EntityLabelMutation) (name : String) : List EntityLabelMutation :=
  heaviest (·.status.value) (mutations.filter (·.labelName = name))

theorem strongest_append (ms : List EntityLabelMutation) (m : EntityLabelMutation) (name : String) :
    strongest (ms ++ [m]) name =
      if m.labelName = name then push (·.status.value) (strongest ms name) m else strongest ms name := by
  rw [strongest, List.filter_append, List.filter_singleton]
  split
  · next h => simp [h, strongest, Lib.heaviest_append]
  · next h => simp [h, strongest]

/-- **The mutations that survive the conflicts are the strongest of their label**, which has to have a name. -/
theorem survivors_eq (mutations : List EntityLabelMutation) (name : String) :
    (getMutationsByLabelNameAndDropConflicts mutations).survivors name =
      if name = "" then [] else strongest mutations name := by
  -- over the rounds of the loop, from its end
  induction mutations using List.reverseRecOn with
  | nil => exact (ite_self _).symm
  | append_singleton ms m ih =>
    rw [getMutationsByLabelNameAndDropConflicts, List.foldl_append, strongest_append]
    change (Collected.add (getMutationsByLabelNameAndDropConflicts ms) m).survivors name = _
    by_cases hm : m.labelName = ""
    · rw [Collected.add, if_pos hm, hm]
      refine Eq.trans ih (ite_congr rfl (fun _ => rfl) fun hname => ?_)
      rw [if_neg (Ne.symm hname)]
    · rw [(Collected.add_spec _ hm).2, ih]
      by_cases hn : name = m.labelName
      · simp [hn, hm]
      · simp [hn, Ne.symm hn]

theorem status_eq_of_strongest {mutations name m m'}
    (hm : m ∈ strongest mutations name) (hm' : m' ∈ strongest mutations name) : m.status = m'.status :=
  LabelStatus.value_inj (Nat.le_antisymm ((mem_heaviest.mp hm').2 m (mem_heaviest.mp hm).1)
    ((mem_heaviest.mp hm).2 m' (mem_heaviest.mp hm').1))

theorem labelName_of_strongest {mutations name m}
    (hm : m ∈ strongest mutations name) : m.labelName = name ∧ m ∈ mutations := by
  simpa [and_comm] using (mem_heaviest.mp hm).1

theorem status_eq_first {mutations name} {b : LabelMutations}
    (h : b.toList = strongest mutations name) : ∀ m ∈ b.toList, m.status = b.first.status :=
  fun _ hm => status_eq_of_strongest (h ▸ hm) (h ▸ List.mem_cons_self)

theorem toList_eq_strongest {mutations name b}
    (h : (getMutationsByLabelNameAndDropConflicts mutations).byLabelName.get? name = some b) :
    name ≠ "" ∧ b.toList = strongest mutations name := by
  have hsurvivors := survivors_eq mutations name
  rw [Collected.survivors, h] at hsurvivors
  by_cases hname : name = ""
  · rw [if_pos hname] at hsurvivors
    cases hsurvivors
  · rw [if_neg hname] at hsurvivors
    exact ⟨hname, hsurvivors⟩

theorem dropped_append_survivors_perm (mutations : List EntityLabelMutation) (name : String) :
    (droppedFor (getMutationsByLabelNameAndDropConflicts mutations).dropped name ++
      (getMutationsByLabelNameAndDropConflicts mutations).survivors name).Perm
        (mutations.filter (·.labelName = name)) := by
  induction mutations using List.reverseRecOn with
  | nil => exact List.Perm.refl _
  | append_singleton ms m ih =>
    have hsurvivors := survivors_eq ms
    rw [getMutationsByLabelNameAndDropConflicts, List.foldl_append, List.filter_append]
    change (droppedFor ((getMutationsByLabelNameAndDropConflicts ms).add m).dropped name ++
      ((getMutationsByLabelNameAndDropConflicts ms).add m).survivors name).Perm _
    generalize getMutationsByLabelNameAndDropConflicts ms = c at ih hsurvivors ⊢
    suffices hround : ∃ new, (c.add m).dropped = c.dropped ++ new ∧
        (droppedFor new name ++ (c.add m).survivors name).Perm
        (c.survivors name ++ [m].filter (·.labelName = name)) by
      obtain ⟨new, hnew, hround⟩ := hround
      refine List.Perm.trans ?_ (ih.append_right _)
      rw [hnew, droppedFor_append, List.append_assoc, List.append_assoc]
      exact hround.append_left _
    by_cases hm : m.labelName = ""
    · refine ⟨[⟨m, .invalidLabelName⟩], by rw [Collected.add, if_pos hm], ?_⟩
      rw [Collected.add, if_pos hm]
      exact List.perm_append_comm
    · obtain ⟨hdropped, hadd⟩ := c.add_spec hm
      refine ⟨_, hdropped, ?_⟩
      have hperm : (lost (·.status.value) (c.survivors m.labelName) m ++
          push (·.status.value) (c.survivors m.labelName) m).Perm (c.survivors m.labelName ++ [m]) :=
        Lib.lost_append_push _ _
      have hlost : ∀ m' ∈ lost (·.status.value) (c.survivors m.labelName) m, m'.labelName = m.labelName := by
        intro m' hm'
        rcases List.mem_append.mp (hperm.subset (List.mem_append_left _ hm')) with h | h
        · rw [hsurvivors, if_neg hm] at h
          exact (labelName_of_strongest h).1
        · rw [List.mem_singleton.mp h]
      rw [hadd, droppedFor_map _ hlost]
      by_cases hn : m.labelName = name
      · subst hn
        simpa using hperm
      · simp [hn, Ne.symm hn]

/-! ## Desired states -/

/-- The grace can be added to the date at which the mutation expires. -/
def EntityLabelMutation.Graced (m : EntityLabelMutation) : Prop := ∀ e, m.expiresAt = some e → Labels.Graced e

variable {now : Time}

theorem LabelMutations.desiredState_spec {ms : LabelMutations} {d} (h : ms.desiredState now = .ok d) :
    d.status = ms.first.status ∧ Reasoned (·.createdAt = some now) d.reasons ∧
      ((∀ m ∈ ms.toList, m.Graced) → SoundReasons d.reasons) := by
  unfold LabelMutations.desiredState at h
  split at h
  · obtain ⟨reasons, hmerge, h⟩ := bind_eq_ok.mp h
    cases h
    have hreasoned : ∀ {I}, Mergeable I → (∀ m ∈ ms.toList, I (m.reason now)) → Reasoned I reasons := by
      intro I hI hall
      obtain ⟨hfirst, hrest⟩ := List.forall_mem_cons.mp hall
      refine LabelReasons.insertAll_each hI hmerge (Dict.forall_set (fun _ _ h => nomatch h) hfirst)
        (List.forall_mem_map.mpr hrest) (.inr (entries_ne_nil_of_get? (Dict.get?_set_self ..)))
    exact ⟨rfl, hreasoned (fun _ _ _ h => h) fun _ _ => rfl,
      fun hgraced => hreasoned LabelReason.Sound.mergeable fun m hm => ⟨rfl, hgraced m hm⟩⟩
  · cases h

theorem LabelMutations.desiredState_ok {ms : LabelMutations} (hnow : Graced now)
    (h : ∀ m ∈ ms.toList, m.status = ms.first.status) : ∃ d, ms.desiredState now = .ok d := by
  have hall : ms.rest.all (·.status = ms.first.status) = true := by
    simp only [List.all_eq_true, decide_eq_true_eq]
    exact fun m hm => h m (List.mem_cons_of_mem _ hm)
  obtain ⟨rs, hrs⟩ : ∃ rs, (ms.first.desiredState now).reasons.insertAll
      (ms.rest.map fun m => (m.reasonName, m.reason now)) = .ok rs :=
    LabelReasons.insertAll_ok hnow (Dict.forall_set (fun _ _ h => nomatch h) rfl)
      (List.forall_mem_map.mpr fun _ _ => rfl)
  exact ⟨{ ms.first.desiredState now with reasons := rs }, by simp [LabelMutations.desiredState, hall, hrs]⟩

theorem getDesiredStatesByLabelName_spec : ∀ {es : List (String × LabelMutations)} {ds},
    getDesiredStatesByLabelName now es = .ok ds → ds.map (fun d => (d.1, d.2.1)) = es ∧
      ∀ d ∈ ds, d.2.1.desiredState now = .ok d.2.2
  | [], ds, h => by
    cases h
    exact ⟨rfl, fun _ h => nomatch h⟩
  | (name, ms) :: es, ds, h => by
    obtain ⟨d, hd, h⟩ := bind_eq_ok.mp h
    obtain ⟨ds', hds', h⟩ := bind_eq_ok.mp h
    cases h
    obtain ⟨hmap, hall⟩ := getDesiredStatesByLabelName_spec hds'
    exact ⟨by simp [hmap], List.forall_mem_cons.mpr ⟨hd, hall⟩⟩

theorem getDesiredStatesByLabelName_ok (hnow : Graced now) : ∀ {es : List (String × LabelMutations)},
    (∀ e ∈ es, ∀ m ∈ e.2.toList, m.status = e.2.first.status) → ∃ ds, getDesiredStatesByLabelName now es = .ok ds
  | [], _ => ⟨[], rfl⟩
  | (name, ms) :: es, h => by
    obtain ⟨hstatus, hes⟩ := List.forall_mem_cons.mp h
    obtain ⟨d, hd⟩ := LabelMutations.desiredState_ok hnow hstatus
    obtain ⟨ds, hds⟩ := getDesiredStatesByLabelName_ok hnow hes
    exact ⟨(name, ms, d) :: ds, by simp [getDesiredStatesByLabelName, hd, hds]⟩

/-! ## Applying a desired state -/

@[simp] theorem appendResult_newEntityLabels (r : EntityLabelMutationsResult) (name : String) (st : LabelStatus) :
    (r.appendResult name st).newEntityLabels = r.newEntityLabels := by
  unfold appendResult
  split <;> rfl

@[simp] theorem appendResult_droppedMutations (r : EntityLabelMutationsResult) (name : String) (st : LabelStatus) :
    (r.appendResult name st).droppedMutations = r.droppedMutations := by
  unfold appendResult
  split <;> rfl

section

variable {r r' : EntityLabelMutationsResult} {name : String} {ms : LabelMutations} {desired : LabelStateInner}

/-- What a round leaves behind: it writes one label, which is new or takes or refuses the desired state, and either
drops nothing or drops the label's mutations as a whole. -/
theorem applyDesired_spec (h : r.applyDesired now name ms desired = .ok r') :
    ∃ s dropped, r'.newEntityLabels = ⟨r.newEntityLabels.labels.set name s⟩ ∧
      r'.droppedMutations = r.droppedMutations ++ dropped ∧
      (dropped = [] ∨ ∃ reason, dropped = ms.toList.map (⟨·, reason⟩)) ∧
      (s = .fromInner desired ∨ ∃ current drop, r.newEntityLabels.labels.get? name = some current ∧
        current.tryApplyDesiredState now desired = .ok (s, drop)) := by
  unfold applyDesired at h
  split at h
  · cases h
    exact ⟨.fromInner desired, [], by simp, by simp, .inl rfl, .inl rfl⟩
  · next current hg =>
    obtain ⟨⟨next, drop⟩, hnext, h⟩ := bind_eq_ok.mp h
    cases drop with
    | some reason =>
      cases h
      exact ⟨next, _, rfl, rfl, .inr ⟨reason, rfl⟩, .inr ⟨current, _, hg, hnext⟩⟩
    | none =>
      dsimp only at h
      split at h
      · cases h
        exact ⟨next, [], rfl, by simp, .inl rfl, .inr ⟨current, _, hg, hnext⟩⟩
      · cases h
        exact ⟨next, [], by simp, by simp, .inl rfl, .inr ⟨current, _, hg, hnext⟩⟩

theorem applyDesired_ok (ms : LabelMutations) (hnow : Graced now)
    (hs : ∀ s, r.newEntityLabels.labels.get? name = some s → SoundReasons s.reasons)
    (hd : desired.reasons.Each (·.createdAt = some now)) : ∃ r', r.applyDesired now name ms desired = .ok r' := by
  unfold applyDesired
  cases hg : r.newEntityLabels.labels.get? name with
  | none => exact ⟨_, rfl⟩
  | some current =>
    obtain ⟨⟨next, drop⟩, hnext⟩ := LabelState.tryApplyDesiredState_ok hnow (hs current hg) hd
    simp only [hnext, ok_bind, pure_eq_ok]
    cases drop with
    | some reason => exact ⟨_, rfl⟩
    | none =>
      dsimp only
      split <;> exact ⟨_, rfl⟩

theorem applyDesired_manual {s} (ms : LabelMutations)
    (hg : r.newEntityLabels.labels.get? name = some s) (hman : s.status.isManual)
    (hexp : s.isExpired now = .ok false) (hauto : desired.status.isAutomatic) :
    r.applyDesired now name ms desired = .ok { r with
      newEntityLabels := ⟨r.newEntityLabels.labels.set name s⟩
      droppedMutations := r.droppedMutations ++ ms.toList.map (⟨·, .cannotOverrideManual⟩) } := by
  simp [applyDesired, hg, LabelState.tryApplyDesiredState_manual hexp hman hauto]

end

/-! ## All rounds -/

/-- A round for each desired state returns if the labels they name are sound; no round touches another's label. -/
theorem applyAll_ok (hnow : Graced now) : ∀ {ds : List (String × LabelMutations × LabelStateInner)}
    {r : EntityLabelMutationsResult}, (ds.map Prod.fst).Nodup →
    (∀ d ∈ ds, d.2.2.reasons.Each (·.createdAt = some now)) →
    (∀ d ∈ ds, ∀ s, r.newEntityLabels.labels.get? d.1 = some s → SoundReasons s.reasons) →
    ∃ r', r.applyAll now ds = .ok r'
  | [], r, _, _, _ => ⟨r, rfl⟩
  | (name, ms, d) :: ds, r, hnodup, hcreated, hsound => by
    obtain ⟨hnew, hnodup⟩ := List.nodup_cons.mp hnodup
    obtain ⟨hd, hcreated⟩ := List.forall_mem_cons.mp hcreated
    obtain ⟨hs, hsound⟩ := List.forall_mem_cons.mp hsound
    obtain ⟨r₁, h₁⟩ := applyDesired_ok ms hnow hs hd
    obtain ⟨_, _, hlabels, -⟩ := applyDesired_spec h₁
    have hsound₁ : ∀ d ∈ ds, ∀ s, r₁.newEntityLabels.labels.get? d.1 = some s → SoundReasons s.reasons := by
      intro d' hd' s hg
      have hne : d'.1 ≠ name := fun heq => hnew (List.mem_map.mpr ⟨d', hd', heq⟩)
      rw [hlabels, Dict.get?_set_other _ _ hne] at hg
      exact hsound d' hd' s hg
    obtain ⟨r₂, h₂⟩ := applyAll_ok hnow hnodup hcreated hsound₁
    exact ⟨r₂, by simp [applyAll, h₁, h₂]⟩

theorem applyAll_each {I} (hI : Mergeable I) : ∀ {ds} {r r' : EntityLabelMutationsResult}, r.applyAll now ds = .ok r' →
    (∀ d ∈ ds, Reasoned I d.2.2.reasons) → r.newEntityLabels.Each I → r'.newEntityLabels.Each I
  | [], r, r', h, _, hr => by
    cases h
    exact hr
  | (name, ms, d) :: ds, r, r', h, hds, hr => by
    obtain ⟨hd, hds⟩ := List.forall_mem_cons.mp hds
    obtain ⟨r₁, h₁, h⟩ := bind_eq_ok.mp h
    obtain ⟨s, _, hlabels, -, -, hs⟩ := applyDesired_spec h₁
    refine applyAll_each hI h hds (hlabels ▸ Dict.forall_set hr ?_)
    rcases hs with rfl | ⟨current, drop, hg, hnext⟩
    · exact hd
    · exact LabelState.tryApplyDesiredState_each hI hnext (hr name current hg).each hd

/-- Through all rounds, an unexpired manual label keeps its state and exactly
the mutations aimed at it are added to the report under its name. -/
theorem applyAll_manual {name : String} {s} (hman : s.status.isManual) (hexp : s.isExpired now = .ok false) : ∀ {ds}
    {r r' : EntityLabelMutationsResult}, (∀ d ∈ ds, d.2.2.status.isAutomatic) →
    (∀ d ∈ ds, ∀ m ∈ d.2.1.toList, m.labelName = d.1) → r.newEntityLabels.labels.get? name = some s →
    r.applyAll now ds = .ok r' → r'.newEntityLabels.labels.get? name = some s ∧
      droppedFor r'.droppedMutations name
        = droppedFor r.droppedMutations name ++ ds.flatMap fun d => if d.1 = name then d.2.1.toList else []
  | [], r, r', _, _, hg, h => by
    cases h
    exact ⟨hg, by simp⟩
  | (n, ms, d) :: ds, r, r', hauto, hnamed, hg, h => by
    obtain ⟨hd, hauto⟩ := List.forall_mem_cons.mp hauto
    obtain ⟨hn, hnamed⟩ := List.forall_mem_cons.mp hnamed
    obtain ⟨r₁, h₁, h⟩ := bind_eq_ok.mp h
    by_cases he : n = name
    · subst he
      rw [applyDesired_manual ms hg hman hexp hd] at h₁
      cases h₁
      obtain ⟨hg', hd'⟩ := applyAll_manual hman hexp hauto hnamed (Dict.get?_set_self ..) h
      refine ⟨hg', ?_⟩
      rw [hd', droppedFor_append, droppedFor_map _ hn]
      simp
    · obtain ⟨s₁, dropped, hlabels, hdrop, hshape, -⟩ := applyDesired_spec h₁
      have hg₁ : r₁.newEntityLabels.labels.get? name = some s := by
        rw [hlabels]
        simpa [Dict.get?_set, Ne.symm he] using hg
      have hnone : droppedFor dropped name = [] := by
        rcases hshape with rfl | ⟨reason, rfl⟩
        · rfl
        · rw [droppedFor_map _ hn, if_neg he]
      obtain ⟨hg', hd'⟩ := applyAll_manual hman hexp hauto hnamed hg₁ h
      refine ⟨hg', ?_⟩
      rw [hd', hdrop, droppedFor_append, hnone]
      simp [he]

/-! ## Whole requests -/

/-- The rounds of a request: one for each label it names, with the strongest of its mutations. -/
structure Rounds (now : Time) (mutations : List EntityLabelMutation)
    (ds : List (String × LabelMutations × LabelStateInner)) : Prop where
  compute : ∀ labels, computeNewLabelsFromMutations labels now mutations = applyAll
    { newEntityLabels := labels, oldEntityLabels := labels
      droppedMutations := (getMutationsByLabelNameAndDropConflicts mutations).dropped } now ds
  entries : ds.map (fun d => (d.1, d.2.1)) = (getMutationsByLabelNameAndDropConflicts mutations).byLabelName.entries
  desired : ∀ d ∈ ds, d.2.1.desiredState now = .ok d.2.2

section

variable {mutations : List EntityLabelMutation} {ds : List (String × LabelMutations × LabelStateInner)}

theorem rounds_of_desiredStates (h : getDesiredStatesByLabelName now
    (getMutationsByLabelNameAndDropConflicts mutations).byLabelName.entries = .ok ds) : Rounds now mutations ds := by
  obtain ⟨hmap, hall⟩ := getDesiredStatesByLabelName_spec h
  exact ⟨fun labels => by simp [computeNewLabelsFromMutations, h], hmap, hall⟩

theorem rounds_of_ok {labels r} (h : computeNewLabelsFromMutations labels now mutations = .ok r) :
    ∃ ds, Rounds now mutations ds := by
  obtain ⟨ds, hds, -⟩ := bind_eq_ok.mp h
  exact ⟨ds, rounds_of_desiredStates hds⟩

theorem exists_rounds (hnow : Graced now) (mutations : List EntityLabelMutation) : ∃ ds, Rounds now mutations ds := by
  have hstatus : ∀ e ∈ (getMutationsByLabelNameAndDropConflicts mutations).byLabelName.entries,
      ∀ m ∈ e.2.toList, m.status = e.2.first.status := fun e he =>
    status_eq_first (toList_eq_strongest (Dict.get?_eq_some_iff.mpr he)).2
  obtain ⟨ds, hds⟩ := getDesiredStatesByLabelName_ok hnow hstatus
  exact ⟨ds, rounds_of_desiredStates hds⟩

variable {d : String × LabelMutations × LabelStateInner}

theorem Rounds.eq_strongest (h : Rounds now mutations ds) (hd : d ∈ ds) :
    d.1 ≠ "" ∧ d.2.1.toList = strongest mutations d.1 := by
  have hentry : (d.1, d.2.1) ∈ (getMutationsByLabelNameAndDropConflicts mutations).byLabelName.entries :=
    h.entries ▸ List.mem_map_of_mem hd
  exact toList_eq_strongest (Dict.get?_eq_some_iff.mpr hentry)

theorem Rounds.labelName (h : Rounds now mutations ds) (hd : d ∈ ds) {m} (hm : m ∈ d.2.1.toList) :
    m.labelName = d.1 ∧ m ∈ mutations := labelName_of_strongest ((h.eq_strongest hd).2 ▸ hm)

theorem Rounds.keys (h : Rounds now mutations ds) :
    ds.map Prod.fst = (getMutationsByLabelNameAndDropConflicts mutations).byLabelName.keys := by
  have hfst := congrArg (List.map Prod.fst) h.entries
  rw [List.map_map] at hfst
  exact hfst

theorem Rounds.nodup (h : Rounds now mutations ds) : (ds.map Prod.fst).Nodup := h.keys ▸ Dict.nodup_keys _

end

/-- **A request returns if the labels that it names are sound.** -/
theorem computeNewLabels_ok {labels : EntityLabels} {mutations} (hnow : Graced now)
    (h : ∀ m ∈ mutations, ∀ s, labels.labels.get? m.labelName = some s → SoundReasons s.reasons) :
    ∃ r, computeNewLabelsFromMutations labels now mutations = .ok r := by
  obtain ⟨ds, hds⟩ := exists_rounds hnow mutations
  rw [hds.compute]
  refine applyAll_ok hnow hds.nodup (fun d hd => (LabelMutations.desiredState_spec (hds.desired d hd)).2.1.each)
    fun d hd s hg => ?_
  obtain ⟨hname, hmem⟩ := hds.labelName hd (List.mem_cons_self (a := d.2.1.first))
  exact h _ hmem s (hname ▸ hg)

/-- **A request leaves reasons where there were some**, and what merging keeps if its mutations have it. -/
theorem computeNewLabels_each {I} (hI : Mergeable I) {labels : EntityLabels} {mutations r}
    (hr : computeNewLabelsFromMutations labels now mutations = .ok r)
    (hd : ∀ ms d, LabelMutations.desiredState ms now = .ok d → (∀ m ∈ ms.toList, m ∈ mutations) → Reasoned I d.reasons)
    (h : labels.Each I) : r.newEntityLabels.Each I := by
  obtain ⟨ds, hds⟩ := rounds_of_ok hr
  rw [hds.compute] at hr
  exact applyAll_each hI hr
    (fun d hmem => hd d.2.1 d.2.2 (hds.desired d hmem) fun m hm => (hds.labelName hmem hm).2) h

theorem computeNewLabels_manual {labels mutations r} (hauto : ∀ m ∈ mutations, m.status.isAutomatic)
    (hr : computeNewLabelsFromMutations labels now mutations = .ok r) {name} {s : LabelState}
    (hs : labels.labels.get? name = some s) (hman : s.status.isManual) (hexp : s.isExpired now = .ok false) :
    r.newEntityLabels.labels.get? name = some s ∧
      (droppedFor r.droppedMutations name).Perm (mutations.filter (·.labelName = name)) := by
  obtain ⟨ds, hds⟩ := rounds_of_ok hr
  have hautomatic : ∀ d ∈ ds, d.2.2.status.isAutomatic := fun d hd => by
    rw [(LabelMutations.desiredState_spec (hds.desired d hd)).1]
    exact hauto _ (hds.labelName hd List.mem_cons_self).2
  have hflat : (ds.flatMap fun d => if d.1 = name then d.2.1.toList else [])
      = (getMutationsByLabelNameAndDropConflicts mutations).survivors name := by
    have hmap : (ds.flatMap fun d => if d.1 = name then d.2.1.toList else [])
        = (ds.map fun d => (d.1, d.2.1)).flatMap fun e => if e.1 = name then e.2.toList else [] := by
      rw [List.flatMap_map]
    rw [hmap, hds.entries, Dict.flatMap_entries_of_key LabelMutations.toList, Collected.survivors]
    cases (getMutationsByLabelNameAndDropConflicts mutations).byLabelName.get? name <;> rfl
  rw [hds.compute] at hr
  obtain ⟨hkeep, hdrop⟩ :=
    applyAll_manual hman hexp hautomatic (fun d hd m hm => (hds.labelName hd hm).1) hs hr
  refine ⟨hkeep, ?_⟩
  rw [hdrop, hflat]
  exact dropped_append_survivors_perm mutations name

/-- **Rules cannot move what a human has set.** Whenever a request of automatic mutations returns, every unexpired
manual label has the state it had, and the dropped mutations under its name are exactly the mutations aimed at it; and
if every state had a reason, every state of the result has one. It returns if the labels that the mutations name have
reasons, each with a creation time and no expiry in the last five seconds there are. -/
theorem automatic_mutations_keep_manual_labels (labels : EntityLabels) (now : Time)
    (mutations : List EntityLabelMutation) (hauto : ∀ m ∈ mutations, m.status.isAutomatic) :
    (∀ r, computeNewLabelsFromMutations labels now mutations = .ok r →
      (∀ name s, labels.labels.get? name = some s → s.status.isManual → s.isExpired now = .ok false →
        r.newEntityLabels.labels.get? name = some s ∧
          (droppedFor r.droppedMutations name).Perm (mutations.filter (·.labelName = name))) ∧
      ((∀ name s, labels.labels.get? name = some s → s.reasons.entries ≠ []) →
        ∀ name s, r.newEntityLabels.labels.get? name = some s →
          s.reasons.entries ≠ [] ∧ ∃ e, s.expiresAt = .ok e)) ∧
    (Graced now → (∀ m ∈ mutations, ∀ s, labels.labels.get? m.labelName = some s → SoundReasons s.reasons) →
      ∃ r, computeNewLabelsFromMutations labels now mutations = .ok r) := by
  refine ⟨fun r hr => ⟨fun name s hs hman hexp => computeNewLabels_manual hauto hr hs hman hexp, ?_⟩,
    computeNewLabels_ok⟩
  intro hne name s hs
  have heach : r.newEntityLabels.Each fun _ => True := computeNewLabels_each (fun _ _ _ _ => trivial) hr
    (fun _ _ hd _ => ⟨(LabelMutations.desiredState_spec hd).2.1.nonempty, fun _ _ _ => trivial⟩)
    fun name s hs => ⟨hne name s hs, fun _ _ _ => trivial⟩
  have hnonempty := (heach name s hs).nonempty
  exact ⟨hnonempty, _, if_neg hnonempty⟩

theorem automatic_mutations_keep_manual_ban :
    let ban : LabelState := ⟨.manuallyAdded, Dict.empty.set "review" { createdAt := some 0 }, []⟩
    let mutation : EntityLabelMutation := { labelName := "ban", reasonName := "rule", status := .removed }
    ∃ r, computeNewLabelsFromMutations ⟨Dict.empty.set "ban" ban⟩ 10 [mutation] = .ok r ∧
      r.newEntityLabels.labels.get? "ban" = some ban ∧ (droppedFor r.droppedMutations "ban").Perm [mutation] := by
  intro ban mutation
  obtain ⟨hreturned, hreturns⟩ :=
    automatic_mutations_keep_manual_labels ⟨Dict.empty.set "ban" ban⟩ 10 [mutation] (by decide)
  have hsound : SoundReasons ban.reasons := ⟨entries_ne_nil_of_get? (Dict.get?_set_self ..),
    Dict.forall_set (fun _ _ h => nomatch h) ⟨rfl, nofun⟩⟩
  obtain ⟨r, hr⟩ := hreturns (by decide) (by
    rintro _ hm _ hs
    cases List.mem_singleton.mp hm
    cases hs
    exact hsound)
  exact ⟨r, hr, (hreturned r hr).1 "ban" ban rfl rfl rfl⟩

/-- What the conditions are for. A state without reasons is handed on without them; a reason without a creation time,
or an expiry to which the grace cannot be added, makes a request raise before it reports that a manual label refused
its mutation. -/
theorem computeNewLabels_unsound :
    (∃ r s, computeNewLabelsFromMutations ⟨Dict.empty.set "spam" ⟨.added, .empty, []⟩⟩ 0 [] = .ok r ∧
      r.newEntityLabels.labels.get? "spam" = some s ∧ s.reasons.entries = []) ∧
    let request := fun reason : LabelReason =>
      let ban : LabelState := ⟨.manuallyAdded, Dict.empty.set "review" { createdAt := some 0 }, []⟩
      let spam : LabelState := ⟨.added, Dict.empty.set "rule" reason, []⟩
      computeNewLabelsFromMutations ⟨(Dict.empty.set "spam" spam).set "ban" ban⟩ 10
        [{ labelName := "spam", reasonName := "rule" }, { labelName := "ban", reasonName := "rule" }]
    request {} =
        .error ⟨.assertionError, "invariant: missing created_at on one of the following LabelReasons"⟩ ∧
      request { createdAt := some 0, expiresAt := some datetimeMax } =
        .error ⟨.overflowError, "date value out of range"⟩ :=
  ⟨⟨_, _, rfl, rfl, rfl⟩, rfl, rfl⟩

/-! ## Any number of requests -/

/-- A request at a time, as a step on the stored labels. -/
def Request (labels : EntityLabels) (request : Time × List EntityLabelMutation) (labels' : EntityLabels) : Prop :=
  ∃ r, computeNewLabelsFromMutations labels request.1 request.2 = .ok r ∧ r.newEntityLabels = labels'

theorem Request.sound {l b l'} (h : l.Sound) (hb : ∀ m ∈ b.2, m.Graced) (hr : Request l b l') : l'.Sound := by
  obtain ⟨r, hr, rfl⟩ := hr
  exact computeNewLabels_each LabelReason.Sound.mergeable hr
    (fun _ _ hd hms => (LabelMutations.desiredState_spec hd).2.2 fun m hm => hb m (hms m hm)) h

/-- **Sound labels stay sound over any sequence of requests** whose mutations expire before the last five seconds there
are, so none of them raises. -/
theorem requests_sound {l bs l'} (hrun : Lib.Run Request l bs l') (h : l.Sound)
    (hbs : ∀ b ∈ bs, ∀ m ∈ b.2, m.Graced) :
    l'.Sound ∧ ∀ b, Graced b.1 → ∃ l'', Request l' b l'' := by
  have hs : l'.Sound := hrun.invariant_of_labels (fun _ _ _ hb hI hr => hr.sound hI hb) hbs h
  refine ⟨hs, fun b hb => ?_⟩
  obtain ⟨r, hr⟩ := computeNewLabels_ok hb fun m _ s hs' => hs m.labelName s hs'
  exact ⟨_, r, hr, rfl⟩

/-- A ban with an end, and the attempts of a rule to lift it, before the end and after it. -/
theorem requests_sound_ban :
    let ban : Time × List EntityLabelMutation := (seconds 1,
      [{ labelName := "ban", reasonName := "review", status := .manuallyAdded, expiresAt := some (seconds 100) }])
    let lift : Int → Time × List EntityLabelMutation := fun t =>
      (seconds t, [{ labelName := "ban", reasonName := "rule", status := .removed }])
    ∃ l, Lib.Run Request {} [ban, lift 2, lift 200] l ∧ l.Sound := by
  intro ban lift
  have hlift : ∀ t, ∀ m ∈ (lift t).2, m.Graced := fun t => List.forall_mem_singleton.mpr nofun
  have hban : ∀ m ∈ ban.2, m.Graced := List.forall_mem_singleton.mpr (by rintro _ ⟨⟩; decide)
  have hrun : Lib.Run Request {} [ban, lift 2, lift 200] _ :=
    ((Lib.Run.nil.snoc ⟨_, rfl, rfl⟩).snoc ⟨_, rfl, rfl⟩).snoc ⟨_, rfl, rfl⟩
  have hall : ∀ b ∈ [ban, lift 2, lift 200], ∀ m ∈ b.2, m.Graced := List.forall_mem_cons.mpr
    ⟨hban, List.forall_mem_cons.mpr ⟨hlift 2, List.forall_mem_singleton.mpr (hlift 200)⟩⟩
  exact ⟨_, hrun, (requests_sound hrun (fun _ _ h => nomatch h) hall).1⟩

/-- **A manual label outlives every sequence of automatic requests** made before it expires. -/
theorem automatic_requests_keep_manual_label {l bs l'} (hrun : Lib.Run Request l bs l')
    {name s} (hs : l.labels.get? name = some s) (hman : s.status.isManual)
    (hauto : ∀ b ∈ bs, s.isExpired b.1 = .ok false ∧ ∀ m ∈ b.2, m.status.isAutomatic) :
    l'.labels.get? name = some s := by
  refine hrun.invariant_of_labels (I := fun l => l.labels.get? name = some s) ?_ hauto hs
  rintro l₁ b l₂ ⟨hexp, hb⟩ hg ⟨r, hr, rfl⟩
  exact (computeNewLabels_manual hb hr hg hman hexp).1

theorem automatic_request_keeps_ban :
    let ban : LabelState := ⟨.manuallyAdded, Dict.empty.set "review" { createdAt := some 0 }, []⟩
    let mutation : EntityLabelMutation := { labelName := "ban", reasonName := "rule" }
    ∃ l, Lib.Run Request ⟨Dict.empty.set "ban" ban⟩ [(10, [mutation])] l ∧ l.labels.get? "ban" = some ban := by
  intro ban mutation
  have hrun : Lib.Run Request ⟨Dict.empty.set "ban" ban⟩ [(10, [mutation])] _ := Lib.Run.nil.snoc ⟨_, rfl, rfl⟩
  exact ⟨_, hrun, automatic_requests_keep_manual_label hrun rfl rfl (by decide)⟩

end Osprey.Labels
