/-
Entity labels: the states a label can be in, the reasons for them, and the
transition `LabelState.try_apply_desired_state`.

A label state is expired when all its reasons are, with a grace of five
seconds. An unexpired manual state refuses automatic states; any other state
takes the desired one, which merges the reasons when the status is the same
and shifts the old state into the history when it is not. Two places assert
what nothing in the types enforces, that a state has at least one reason and
that the reasons that are merged have a creation time, and the grace cannot
be added to a date in the last five seconds of year 9999. `SoundReasons` is
what is needed: the transition does not raise on a sound state, and keeps it
sound.
-/
import Osprey.Engine.Basic
import Osprey.Lib.Dict

namespace Osprey.Labels

/-! ## Statuses and reasons -/

inductive MutationDropReason
  | conflictingMutation
  | cannotOverrideManual
  | invalidLabelName
  | invalidEntityId
  deriving DecidableEq, Repr

inductive LabelStatus
  | removed
  | added
  | manuallyRemoved
  | manuallyAdded
  deriving DecidableEq, Repr

/-- The weight of a status in a conflict. -/
def LabelStatus.value : LabelStatus → Nat
  | .removed => 0
  | .added => 1
  | .manuallyRemoved => 2
  | .manuallyAdded => 3

def LabelStatus.effectiveLabelStatus : LabelStatus → LabelStatus
  | .added | .manuallyAdded => .added
  | .removed | .manuallyRemoved => .removed

def LabelStatus.isManual : LabelStatus → Bool
  | .manuallyAdded | .manuallyRemoved => true
  | _ => false

def LabelStatus.isAutomatic (s : LabelStatus) : Bool := !s.isManual

theorem LabelStatus.value_inj {s t : LabelStatus} (h : s.value = t.value) : s = t := by
  cases s <;> cases t <;> first | rfl | exact absurd h (by decide)

structure LabelReason where
  pending : Bool := false
  description : String := ""
  features : Lib.Dict String String := .empty
  createdAt : Option Time := none
  expiresAt : Option Time := none
  deriving DecidableEq

abbrev LabelReasons := Lib.Dict String LabelReason

/-- `LabelReasons.insert_or_update`; the flag says whether the reason was taken. -/
def LabelReasons.insertOrUpdate (rs : LabelReasons) (reasonName : String) (reason : LabelReason) :
    Except Exc (LabelReasons × Bool) :=
  match rs.get? reasonName with
  | none => .ok (rs.set reasonName reason, true)
  | some current =>
    match current.createdAt, reason.createdAt with
    | some currentCreated, some created => do
      if currentCreated > (← addDelta created (seconds 5)) then return (rs, false)
      else return (rs.set reasonName { reason with createdAt := some currentCreated }, true)
    | _, _ => .error ⟨.assertionError, "invariant: missing created_at on one of the following LabelReasons"⟩

/-- The loop `for reason_name, reason in desired_state.reasons.items()`. -/
def LabelReasons.insertAll (rs : LabelReasons) : List (String × LabelReason) → Except Exc LabelReasons
  | [] => .ok rs
  | (reasonName, reason) :: rest => do
    let (rs', _) ← rs.insertOrUpdate reasonName reason
    LabelReasons.insertAll rs' rest

/-! ## Label states -/

structure LabelStateInner where
  status : LabelStatus
  reasons : LabelReasons
  deriving DecidableEq

structure LabelState where
  status : LabelStatus
  reasons : LabelReasons
  previousStates : List LabelStateInner := []
  deriving DecidableEq

def LabelState.fromInner (inner : LabelStateInner) : LabelState := ⟨inner.status, inner.reasons, []⟩

/-- The loop of `LabelState.expires_at`: `none` when a reason never expires. -/
def latestExpiry : List LabelReason → Time → Option Time
  | [], expiresAt => some expiresAt
  | r :: rs, expiresAt =>
    match r.expiresAt with
    | none => none
    | some e => latestExpiry rs (max e expiresAt)

def LabelState.expiresAt (s : LabelState) : Except Exc (Option Time) :=
  if s.reasons.entries = [] then
    .error ⟨.assertionError, "invariant: the label state did not have any associated reasons"⟩
  else .ok (latestExpiry s.reasons.values datetimeMin)

def LabelState.isExpired (s : LabelState) (now : Time) : Except Exc Bool := do
  match ← s.expiresAt with
  | none => return false
  | some e => return decide ((← addDelta e (seconds 5)) < now)

def LabelState.shiftCurrentStateToPreviousState (s : LabelState) : LabelState :=
  if s.reasons.entries = [] then s
  else { s with previousStates := ⟨s.status, s.reasons⟩ :: s.previousStates, reasons := .empty }

/-- The state that the reasons of a desired status are merged into. -/
def LabelState.base (s : LabelState) (status : LabelStatus) : LabelState :=
  if s.status ≠ status then { s.shiftCurrentStateToPreviousState with status := status } else s

/-- `LabelState.try_apply_desired_state`: the state afterwards, and the drop
reason when the state refused. -/
def LabelState.tryApplyDesiredState (s : LabelState) (now : Time) (desired : LabelStateInner) :
    Except Exc (LabelState × Option MutationDropReason) := do
  if ← s.isExpired now then
    let shifted := s.shiftCurrentStateToPreviousState
    return ({ shifted with status := desired.status, reasons := desired.reasons }, none)
  else if s.status.isManual && desired.status.isAutomatic then
    return (s, some .cannotOverrideManual)
  else
    let base := s.base desired.status
    let reasons ← base.reasons.insertAll desired.reasons.entries
    return ({ base with reasons := reasons }, none)

structure EntityLabels where
  labels : Lib.Dict String LabelState := .empty
  deriving DecidableEq

/-! ## Merging -/

theorem entries_ne_nil_of_get? {κ ν : Type*} [DecidableEq κ] {d : Lib.Dict κ ν} {k v} (h : d.get? k = some v) :
    d.entries ≠ [] := by
  intro he
  simp [Lib.Dict.get?, he] at h

def LabelReasons.Each (rs : LabelReasons) (I : LabelReason → Prop) : Prop := ∀ name r, rs.get? name = some r → I r

theorem LabelReasons.Each.of_mem {rs : LabelReasons} {I} (h : rs.Each I) : ∀ e ∈ rs.entries, I e.2 :=
  fun e he => h e.1 e.2 (Lib.Dict.get?_eq_some_iff.2 he)

/-- There are reasons, and each is as `I` says. -/
structure Reasoned (I : LabelReason → Prop) (rs : LabelReasons) : Prop where
  nonempty : rs.entries ≠ []
  each : rs.Each I

/-- A merge keeps it: a reason takes over the creation time of the one that it replaces. -/
def Mergeable (I : LabelReason → Prop) : Prop :=
  ∀ r current : LabelReason, I r → I current → I { r with createdAt := current.createdAt }

section

variable {I : LabelReason → Prop} (hI : Mergeable I)

include hI

theorem LabelReasons.insertOrUpdate_each {rs rs' : LabelReasons} {name r b}
    (h : rs.insertOrUpdate name r = .ok (rs', b)) (hrs : rs.Each I) (hr : I r) : Reasoned I rs' := by
  unfold LabelReasons.insertOrUpdate at h
  cases hg : rs.get? name with
  | none =>
    rw [hg] at h
    cases h
    exact ⟨entries_ne_nil_of_get? (rs.get?_set_self name r), Lib.Dict.forall_set hrs hr⟩
  | some current =>
    rw [hg] at h
    dsimp only at h
    split at h
    · next created _ hcurrent _ =>
      obtain ⟨_, -, h⟩ := bind_eq_ok.mp h
      split at h
      · cases h
        exact ⟨entries_ne_nil_of_get? hg, hrs⟩
      · cases h
        refine ⟨entries_ne_nil_of_get? (Lib.Dict.get?_set_self ..), Lib.Dict.forall_set hrs ?_⟩
        rw [← hcurrent]
        exact hI r current hr (hrs name current hg)
    · cases h

theorem LabelReasons.insertAll_each : ∀ {es : List (String × LabelReason)} {rs rs' : LabelReasons},
    rs.insertAll es = .ok rs' → rs.Each I → (∀ e ∈ es, I e.2) → es ≠ [] ∨ rs.entries ≠ [] → Reasoned I rs'
  | [], rs, rs', h, hrs, _, hne => by
    cases h
    exact ⟨hne.resolve_left fun h => h rfl, hrs⟩
  | (name, r) :: es, rs, rs', h, hrs, hes, _ => by
    obtain ⟨hr, hes⟩ := List.forall_mem_cons.mp hes
    obtain ⟨⟨rs₁, _⟩, h₁, h⟩ := bind_eq_ok.mp h
    have hrs₁ := LabelReasons.insertOrUpdate_each hI h₁ hrs hr
    exact LabelReasons.insertAll_each h hrs₁.each hes (.inr hrs₁.nonempty)

end

/-! ## Expiry -/

theorem latestExpiry_eq_none {rs : List LabelReason} {t} : latestExpiry rs t = none ↔ ∃ r ∈ rs, r.expiresAt = none := by
  induction rs generalizing t with
  | nil => simp [latestExpiry]
  | cons r rs ih => cases hr : r.expiresAt <;> simp [latestExpiry, hr, ih]

/-- If every reason expires, it is the latest of their dates. -/
theorem latestExpiry_eq_some {rs : List LabelReason} {t e} (h : latestExpiry rs t = some e) :
    t ≤ e ∧ (∀ r ∈ rs, ∃ x, r.expiresAt = some x ∧ x ≤ e) ∧ (e = t ∨ ∃ r ∈ rs, r.expiresAt = some e) := by
  induction rs generalizing t with
  | nil =>
    cases h
    simp
  | cons r rs ih =>
    rw [latestExpiry] at h
    split at h
    · cases h
    · next x hx =>
      obtain ⟨hle, hall, hmem⟩ := ih h
      obtain ⟨hxe, hte⟩ := Int.max_le.mp hle
      refine ⟨hte, List.forall_mem_cons.mpr ⟨⟨x, hx, hxe⟩, hall⟩, ?_⟩
      rcases hmem with rfl | ⟨r', hr', he⟩
      · rcases Int.le_total x t with hxt | htx
        · exact .inl (Int.max_eq_right hxt)
        · exact .inr ⟨r, List.mem_cons_self, hx.trans (congrArg some (Int.max_eq_left htx).symm)⟩
      · exact .inr ⟨r', List.mem_cons_of_mem r hr', he⟩

variable {s : LabelState}

theorem entries_ne_nil_of_isExpired {now b} (h : s.isExpired now = .ok b) : s.reasons.entries ≠ [] := by
  intro hnil
  rw [LabelState.isExpired, LabelState.expiresAt, if_pos hnil] at h
  cases h

/-! ## The invariant -/

/-- A date to which the grace can be added. -/
def Graced (t : Time) : Prop := datetimeMin ≤ t ∧ t + seconds 5 ≤ datetimeMax

instance (t : Time) : Decidable (Graced t) := inferInstanceAs (Decidable (_ ∧ _))

theorem Graced.addDelta_eq {t} (h : Graced t) : addDelta t (seconds 5) = .ok (t + seconds 5) := by
  have hgrace : (0 : Int) ≤ seconds 5 := by decide
  exact addDelta_eq_ok.mpr ⟨rfl, Int.le_trans h.1 (Int.le_add_of_nonneg_right hgrace), h.2⟩

/-- The reason has a creation time, and the grace can be added to the date at which it expires. -/
structure LabelReason.Sound (r : LabelReason) : Prop where
  dated : r.createdAt.isSome
  graced : ∀ e, r.expiresAt = some e → Graced e

theorem LabelReason.Sound.mergeable : Mergeable LabelReason.Sound := fun _ _ hr hcurrent => ⟨hcurrent.dated, hr.graced⟩

/-- What `expires_at`, `is_expired` and `insert_or_update` need of a state's reasons. -/
abbrev SoundReasons (rs : LabelReasons) : Prop := Reasoned LabelReason.Sound rs

/-- Every label has reasons, each as `I` says. -/
def EntityLabels.Each (I : LabelReason → Prop) (l : EntityLabels) : Prop :=
  ∀ name s, l.labels.get? name = some s → Reasoned I s.reasons

abbrev EntityLabels.Sound (l : EntityLabels) : Prop := l.Each LabelReason.Sound

theorem LabelReasons.insertAll_ok {now : Time} (hnow : Graced now) : ∀ {es : List (String × LabelReason)}
    {rs : LabelReasons}, rs.Each (·.createdAt.isSome) → (∀ e ∈ es, e.2.createdAt = some now) →
    ∃ rs', rs.insertAll es = .ok rs'
  | [], rs, _, _ => ⟨rs, rfl⟩
  | (name, r) :: es, rs, hrs, hes => by
    obtain ⟨hr, hes⟩ := List.forall_mem_cons.mp hes
    have hround : ∃ p, rs.insertOrUpdate name r = .ok p := by
      unfold LabelReasons.insertOrUpdate
      cases hg : rs.get? name with
      | none => exact ⟨_, rfl⟩
      | some current =>
        obtain ⟨created, hcreated⟩ := Option.isSome_iff_exists.1 (hrs name current hg)
        simp only [hcreated, show r.createdAt = some now from hr, hnow.addDelta_eq, ok_bind, pure_eq_ok]
        split <;> exact ⟨_, rfl⟩
    obtain ⟨⟨rs₁, b⟩, h₁⟩ := hround
    have hrs₁ := LabelReasons.insertOrUpdate_each (fun _ _ _ h => h) h₁ hrs (by rw [hr]; rfl)
    obtain ⟨rs₂, h₂⟩ := LabelReasons.insertAll_ok hnow hrs₁.each hes
    exact ⟨rs₂, by simp [LabelReasons.insertAll, h₁, h₂]⟩

/-! ## One transition -/

theorem LabelState.isExpired_ok (h : SoundReasons s.reasons) (now : Time) : ∃ b, s.isExpired now = .ok b := by
  unfold LabelState.isExpired LabelState.expiresAt
  rw [if_neg h.nonempty]
  cases hlatest : latestExpiry s.reasons.values datetimeMin with
  | none => exact ⟨false, rfl⟩
  | some e =>
    have hgraced : Graced e := by
      obtain ⟨-, -, rfl | ⟨r, hr, he⟩⟩ := latestExpiry_eq_some hlatest
      · decide
      · obtain ⟨entry, hentry, rfl⟩ := List.mem_map.mp hr
        exact (h.each.of_mem entry hentry).graced e he
    simp [hgraced.addDelta_eq]

/-- **An unexpired manual state refuses every automatic state and stays as it is.** -/
theorem LabelState.tryApplyDesiredState_manual {now desired}
    (hexp : s.isExpired now = .ok false) (hman : s.status.isManual) (hauto : desired.status.isAutomatic) :
    s.tryApplyDesiredState now desired = .ok (s, some .cannotOverrideManual) := by
  simp [LabelState.tryApplyDesiredState, hexp, hman, hauto]

theorem LabelReasons.Each.shift {I} (h : s.reasons.Each I) : s.shiftCurrentStateToPreviousState.reasons.Each I := by
  unfold LabelState.shiftCurrentStateToPreviousState
  split
  · exact h
  · exact fun _ _ h => nomatch h

theorem LabelReasons.Each.base {I} (h : s.reasons.Each I) (status : LabelStatus) : (s.base status).reasons.Each I := by
  unfold LabelState.base
  split
  · exact h.shift
  · exact h

/-- **A state that has taken or refused a desired one has reasons**, and they keep what merging keeps. -/
theorem LabelState.tryApplyDesiredState_each {I} (hI : Mergeable I) {s' now desired dropped}
    (h : s.tryApplyDesiredState now desired = .ok (s', dropped)) (hs : s.reasons.Each I)
    (hd : Reasoned I desired.reasons) : Reasoned I s'.reasons := by
  obtain ⟨expired, hexp, h⟩ := bind_eq_ok.mp h
  split at h
  · cases h
    exact hd
  · split at h
    · cases h
      exact ⟨entries_ne_nil_of_isExpired hexp, hs⟩
    · obtain ⟨reasons, hmerge, h⟩ := bind_eq_ok.mp h
      cases h
      exact LabelReasons.insertAll_each hI hmerge (hs.base desired.status) hd.each.of_mem (.inl hd.nonempty)

/-- **A sound state takes or refuses a desired state without raising.** -/
theorem LabelState.tryApplyDesiredState_ok {now desired} (hnow : Graced now) (hs : SoundReasons s.reasons)
    (hd : desired.reasons.Each (·.createdAt = some now)) : ∃ p, s.tryApplyDesiredState now desired = .ok p := by
  obtain ⟨b, hb⟩ := LabelState.isExpired_ok hs now
  unfold LabelState.tryApplyDesiredState
  simp only [hb, ok_bind, pure_eq_ok]
  split
  · exact ⟨_, rfl⟩
  · split
    · exact ⟨_, rfl⟩
    · have hdated : s.reasons.Each (·.createdAt.isSome) := fun name r hr => (hs.each name r hr).dated
      obtain ⟨rs, hrs⟩ := LabelReasons.insertAll_ok hnow (hdated.base desired.status) hd.of_mem
      exact ⟨_, bind_eq_ok.mpr ⟨rs, hrs, rfl⟩⟩

end Osprey.Labels
