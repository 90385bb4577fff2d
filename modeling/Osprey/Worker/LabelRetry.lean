/-
Retrying a label update. `apply_entity_label_mutations_with_retry` and the
output sink run the whole read-modify-write again when the confirmation of a
write is lost, so that the mutations are applied to labels that already have
them.

A request asks of each label a status and reasons, all created now
(`strongest`, `asked`). Merging a reason that is there already leaves it as it
is; but a state whose reasons have all expired is not merged into, it is
shifted into the history, and one that expires in the last five seconds there
are raises. So the second application repeats the first everywhere but on a
label that the first left in such a state, and the `expires_at` of a mutation
can do that.
-/
import Osprey.Worker.LabelsProvider

namespace Osprey.Labels

open Lib

/-! ## What a request asks of a label -/

def lastNamed (ms : List EntityLabelMutation) (reasonName : String) : Option EntityLabelMutation :=
  (ms.filter (·.reasonName = reasonName)).getLast?

/-- The last of a label's strongest mutations that has the reason name. -/
def asked (mutations : List EntityLabelMutation) (name : String) : String → Option EntityLabelMutation :=
  lastNamed (strongest mutations name)

variable {m : EntityLabelMutation} {name : String}

/-! ## Reasons -/

/-- What stands under a reason's name once the reason is put there. -/
def LabelReason.mergeInto (r : LabelReason) : Option LabelReason → Except Exc LabelReason
  | none => .ok r
  | some current =>
    match current.createdAt, r.createdAt with
    | some currentCreated, some created => do
      if currentCreated > (← addDelta created (seconds 5)) then return current
      else return { r with createdAt := some currentCreated }
    | _, _ => .error ⟨.assertionError, "invariant: missing created_at on one of the following LabelReasons"⟩

theorem insertAll_eq_updateAll : ∀ (es : List (String × LabelReason)) (rs : LabelReasons),
    rs.insertAll es = Dict.updateAll LabelReason.mergeInto es rs
  | [], rs => rfl
  | (name, r) :: es, rs => by
    rw [LabelReasons.insertAll, LabelReasons.insertOrUpdate, Dict.updateAll]
    cases hg : rs.get? name with
    | none => exact insertAll_eq_updateAll es _
    | some current =>
      dsimp only [LabelReason.mergeInto]
      cases current.createdAt with
      | none => rfl
      | some currentCreated =>
        cases r.createdAt with
        | none => rfl
        | some created =>
          dsimp only
          cases addDelta created (seconds 5) with
          | error e => rfl
          | ok t =>
            simp only [ok_bind, pure_eq_ok]
            split
            · -- the stored reason stays: it is as good as written again
              have hsame : Dict.set rs name current = rs := Dict.set_eq_self_iff.mpr hg
              simp only [ok_bind, hsame]
              exact insertAll_eq_updateAll es rs
            · exact insertAll_eq_updateAll es _

/-- A stored reason that is newer than `now` by more than the grace: a mutation of its name is discarded. -/
def Newer (now : Time) (r : LabelReason) : Prop := ∃ created, r.createdAt = some created ∧ created > now + seconds 5

variable {now : Time}

variable {r current : LabelReason}

theorem LabelReason.mergeInto_dated {created} (hnow : Graced now) (hr : r.createdAt = some now)
    (hc : current.createdAt = some created) : r.mergeInto (some current) =
      .ok (if created > now + seconds 5 then current else { r with createdAt := some created }) := by
  simp only [mergeInto, hc, hr, hnow.addDelta_eq, ok_bind, pure_eq_ok]
  split <;> rfl

theorem LabelReason.mergeInto_of_created (hnow : Graced now) (hr : r.createdAt = some now)
    (hc : current.createdAt = some now) : r.mergeInto (some current) = .ok r := by
  have hgrace : (0 : Int) ≤ seconds 5 := by decide
  have hnot : ¬now > now + seconds 5 := Int.not_lt.mpr (Int.le_add_of_nonneg_right hgrace)
  rw [mergeInto_dated hnow hr hc, if_neg hnot, ← hr]

variable {x : Option LabelReason}

/-- What a reason becomes: the stored one stays when it is newer, else it is replaced. -/
theorem LabelReason.mergeInto_cases {v} (hnow : Graced now) (hr : r.createdAt = some now) (h : r.mergeInto x = .ok v) :
    (x = some v ∧ Newer now v) ∨
      (v.expiresAt = r.expiresAt ∧ r.mergeInto (some v) = .ok v ∧
        ∀ current, x = some current → ¬Newer now current) := by
  cases x with
  | none =>
    cases h
    exact .inr ⟨rfl, mergeInto_of_created hnow hr hr, nofun⟩
  | some current =>
    cases hc : current.createdAt with
    | none => simp [mergeInto, hc] at h
    | some created =>
      rw [mergeInto_dated hnow hr hc] at h
      split at h
      · next hnewer =>
        cases h
        exact .inl ⟨rfl, created, hc, hnewer⟩
      · next hnot =>
        cases h
        refine .inr ⟨rfl, by rw [mergeInto_dated hnow hr rfl, if_neg hnot], ?_⟩
        rintro _ ⟨⟩ ⟨created', hcreated', hgt⟩
        cases hc.symm.trans hcreated'
        exact hnot hgt

theorem LabelReason.mergeInto_again {v} (hnow : Graced now) (hr : r.createdAt = some now)
    (h : r.mergeInto x = .ok v) : r.mergeInto (some v) = .ok v := by
  rcases mergeInto_cases hnow hr h with ⟨-, created, hc, hnewer⟩ | ⟨-, hagain, -⟩
  · rw [mergeInto_dated hnow hr hc, if_pos hnewer]
  · exact hagain

variable {rs rs' : LabelReasons}

theorem insertAll_again {es} (hnow : Graced now) (hnodup : (es.map Prod.fst).Nodup)
    (hcreated : ∀ e ∈ es, e.2.createdAt = some now)
    (h : rs.insertAll es = .ok rs') : rs'.insertAll es = .ok rs' := by
  rw [insertAll_eq_updateAll] at h ⊢
  refine (Dict.updateAll_again_iff hnodup h).mpr fun e he v hv => ?_
  obtain ⟨w, hw, hget⟩ := Dict.get?_updateAll hnodup h e he
  rw [hv] at hget
  cases hget
  exact LabelReason.mergeInto_again hnow (hcreated e he) hw

theorem insertAll_empty (rs : LabelReasons) : LabelReasons.insertAll .empty rs.entries = .ok rs := by
  have hfold : ∀ (es : List (String × LabelReason)) (d : LabelReasons), (es.map Prod.fst).Nodup →
      (∀ e ∈ es, d.get? e.1 = none) →
      Dict.updateAll LabelReason.mergeInto es d = .ok (es.foldl (fun d e => d.set e.1 e.2) d) := by
    intro es
    induction es with
    | nil => exact fun _ _ _ => rfl
    | cons e es ih =>
      obtain ⟨name, r⟩ := e
      intro d hnodup hnew
      obtain ⟨hname, hnodup⟩ := List.nodup_cons.mp hnodup
      obtain ⟨hnone, hnew⟩ := List.forall_mem_cons.mp hnew
      have hmerge : r.mergeInto (d.get? name) = .ok r := by
        dsimp only at hnone
        rw [hnone]
        rfl
      rw [Dict.updateAll_cons_ok hmerge, List.foldl_cons]
      refine ih _ hnodup fun e he => ?_
      have hne : e.1 ≠ name := fun heq => hname (List.mem_map.mpr ⟨e, he, heq⟩)
      rw [Dict.get?_set_other d r hne]
      exact hnew e he
  rw [insertAll_eq_updateAll, hfold _ _ rs.nodup fun _ _ => rfl]
  exact congrArg _ (Dict.ofList_entries rs)

/-! ## Expiry -/

def LabelReasons.Expiries (rs : LabelReasons) (x : Option Time) : Prop :=
  ∃ name r, rs.get? name = some r ∧ r.expiresAt = x

/-- With reasons of these `expires_at` a state is unexpired at `now`: one of them never expires, or one is not past and
the grace can be added to all. -/
def Unexpired (now : Time) (expiries : Option Time → Prop) : Prop :=
  expiries none ∨ (∃ e, expiries (some e) ∧ now ≤ max e datetimeMin + seconds 5) ∧
    ∀ e, expiries (some e) → e + seconds 5 ≤ datetimeMax

/-- All reasons expire, and the grace cannot be added to the latest. -/
def Overflows (expiries : Option Time → Prop) : Prop :=
  ¬expiries none ∧ ∃ e, expiries (some e) ∧ datetimeMax < e + seconds 5

theorem LabelReasons.expiries_iff {rs : LabelReasons} {x} : rs.Expiries x ↔ ∃ r ∈ rs.values, r.expiresAt = x := by
  constructor
  · rintro ⟨name, r, hr, rfl⟩
    exact ⟨r, List.mem_map.mpr ⟨(name, r), Dict.get?_eq_some_iff.mp hr, rfl⟩, rfl⟩
  · rintro ⟨r, hr, rfl⟩
    obtain ⟨e, he, rfl⟩ := List.mem_map.mp hr
    exact ⟨e.1, e.2, Dict.get?_eq_some_iff.mpr he, rfl⟩

/-- All reasons expire, and `e` is the latest of their dates and of the first date there is. -/
structure Latest (expiries : Option Time → Prop) (e : Time) : Prop where
  expire : ¬expiries none
  le : ∀ x, expiries (some x) → x ≤ e
  attained : ∃ x, expiries (some x) ∧ max x datetimeMin = e

section Latest

variable {expiries : Option Time → Prop} {e : Time}

theorem Latest.min_le (h : Latest expiries e) : datetimeMin ≤ e := by
  obtain ⟨x, -, rfl⟩ := h.attained
  exact Int.le_max_right _ _

theorem Latest.overflows_iff (h : Latest expiries e) : Overflows expiries ↔ datetimeMax < e + seconds 5 := by
  constructor
  · rintro ⟨-, x, hx, hlt⟩
    exact Int.lt_of_lt_of_le hlt (Int.add_le_add_right (h.le x hx) _)
  · intro hlt
    obtain ⟨x, hx, rfl⟩ := h.attained
    refine ⟨h.expire, x, hx, ?_⟩
    rcases Int.le_total x datetimeMin with hle | hle
    · rw [Int.max_eq_right hle] at hlt
      exact absurd hlt (by decide)
    · rwa [Int.max_eq_left hle] at hlt

theorem Latest.unexpired_iff (h : Latest expiries e) (now : Time) :
    Unexpired now expiries ↔ now ≤ e + seconds 5 ∧ e + seconds 5 ≤ datetimeMax := by
  constructor
  · rintro (hnever | ⟨⟨x, hx, hnow⟩, hbefore⟩)
    · exact absurd hnever h.expire
    · refine ⟨Int.le_trans hnow (Int.add_le_add_right (Int.max_le.mpr ⟨h.le x hx, h.min_le⟩) _), Int.not_lt.mp ?_⟩
      rw [← h.overflows_iff]
      rintro ⟨-, y, hy, hlt⟩
      exact absurd (hbefore y hy) (Int.not_le.mpr hlt)
  · rintro ⟨hnow, hrange⟩
    obtain ⟨x, hx, hmax⟩ := h.attained
    exact .inr ⟨⟨x, hx, hmax.symm ▸ hnow⟩, fun y hy => Int.le_trans (Int.add_le_add_right (h.le y hy) _) hrange⟩

end Latest

theorem LabelReasons.latest {rs : LabelReasons} (hne : rs.entries ≠ []) {e}
    (hlatest : latestExpiry rs.values datetimeMin = some e) : Latest rs.Expiries e := by
  obtain ⟨hmin, hall, hmem⟩ := latestExpiry_eq_some hlatest
  refine ⟨?_, fun x hx => ?_, ?_⟩
  · rw [LabelReasons.expiries_iff]
    rintro ⟨r, hr, hnever⟩
    obtain ⟨_, hx, -⟩ := hall r hr
    rw [hnever] at hx
    cases hx
  · obtain ⟨r, hr, hrx⟩ := LabelReasons.expiries_iff.mp hx
    obtain ⟨y, hy, hle⟩ := hall r hr
    cases hrx.symm.trans hy
    exact hle
  -- the latest is that of a reason, or all are before the first date there is
  · rcases hmem with rfl | ⟨r, hr, he⟩
    · obtain ⟨entry, hentry⟩ := List.exists_mem_of_ne_nil _ hne
      obtain ⟨x, hx, hle⟩ := hall entry.2 (List.mem_map_of_mem hentry)
      exact ⟨x, LabelReasons.expiries_iff.mpr ⟨_, List.mem_map_of_mem hentry, hx⟩, Int.max_eq_right hle⟩
    · exact ⟨e, LabelReasons.expiries_iff.mpr ⟨r, hr, he⟩, Int.max_eq_left hmin⟩

/-- What `is_expired` does, by the dates of the reasons. -/
theorem LabelState.isExpired_spec {s : LabelState} (hne : s.reasons.entries ≠ []) (now : Time) :
    (s.isExpired now = .ok false ↔ Unexpired now s.reasons.Expiries) ∧
      ((∃ b, s.isExpired now = .ok b) ↔ ¬Overflows s.reasons.Expiries) := by
  unfold isExpired expiresAt
  rw [if_neg hne]
  cases hlatest : latestExpiry s.reasons.values datetimeMin with
  | none =>
    have hnever := LabelReasons.expiries_iff.mpr (latestExpiry_eq_none.mp hlatest)
    exact ⟨iff_of_true rfl (.inl hnever), iff_of_true ⟨false, rfl⟩ fun h => h.1 hnever⟩
  | some e =>
    have h := LabelReasons.latest hne hlatest
    simp only [h.unexpired_iff, h.overflows_iff, ok_bind, pure_eq_ok, Int.not_lt]
    by_cases hrange : e + seconds 5 ≤ datetimeMax
    · have hgraced : Graced e := ⟨h.min_le, hrange⟩
      rw [hgraced.addDelta_eq, ok_bind, Except.ok.injEq, decide_eq_false_iff_not, Int.not_lt]
      exact ⟨(and_iff_left hrange).symm, iff_of_true ⟨_, rfl⟩ hrange⟩
    · have herror : addDelta e (seconds 5) = .error ⟨.overflowError, "date value out of range"⟩ :=
        if_neg fun h => hrange h.2
      rw [herror, error_bind]
      exact ⟨iff_of_false nofun fun h => hrange h.2, iff_of_false nofun hrange⟩

/-! ## One label, twice -/

def nextState (now : Time) (desired : LabelStateInner) : Option LabelState → Except Exc LabelState
  | none => .ok (.fromInner desired)
  | some s => (s.tryApplyDesiredState now desired).map Prod.fst

/-- A desired state as a request makes it: a status, and reasons created now. -/
structure Desires (now : Time) (desired : LabelStateInner) (status : LabelStatus)
    (asked : String → Option EntityLabelMutation) : Prop where
  status_eq : desired.status = status
  nonempty : desired.reasons.entries ≠ []
  reasons_eq : ∀ name, desired.reasons.get? name = (asked name).map (·.reason now)

section

variable {now : Time} {desired : LabelStateInner} {s : LabelState}

/-- The state is unexpired and manual, and the desired one is automatic. -/
def Blocks (now : Time) (status : LabelStatus) (s : LabelState) : Prop :=
  s.isExpired now = .ok false ∧ s.status.isManual = true ∧ status.isAutomatic = true

variable {status : LabelStatus}

theorem not_blocks_of_eq (h : s.status = status) : ¬Blocks now status s := by
  rintro ⟨-, hman, hauto⟩
  rw [← h, LabelStatus.isAutomatic, hman] at hauto
  cases hauto

/-- The state that takes the place of `s`, which goes into the history. -/
def replaced (desired : LabelStateInner) (s : LabelState) : LabelState :=
  ⟨desired.status, desired.reasons, ⟨s.status, s.reasons⟩ :: s.previousStates⟩

theorem shift_eq (h : s.reasons.entries ≠ []) : s.shiftCurrentStateToPreviousState =
    { s with previousStates := ⟨s.status, s.reasons⟩ :: s.previousStates, reasons := .empty } := by
  rw [LabelState.shiftCurrentStateToPreviousState, if_neg h]

variable {s₁ : LabelState}

theorem isExpired_of_nextState (h : nextState now desired (some s) = .ok s₁) : ∃ b, s.isExpired now = .ok b := by
  obtain ⟨_, h, -⟩ := map_eq_ok.mp h
  obtain ⟨b, hb, -⟩ := bind_eq_ok.mp h
  exact ⟨b, hb⟩

theorem nextState_expired (h : s.isExpired now = .ok true) :
    nextState now desired (some s) = .ok (replaced desired s) := by
  rw [nextState, LabelState.tryApplyDesiredState, h, shift_eq (entries_ne_nil_of_isExpired h)]
  rfl

theorem nextState_blocked (h : Blocks now desired.status s) : nextState now desired (some s) = .ok s := by
  obtain ⟨hexp, hman, hauto⟩ := h
  rw [nextState, LabelState.tryApplyDesiredState_manual hexp hman hauto]
  rfl

theorem nextState_unblocked (hexp : s.isExpired now = .ok false) (hblocks : ¬Blocks now desired.status s) :
    nextState now desired (some s) =
      ((s.base desired.status).reasons.insertAll desired.reasons.entries).map fun reasons =>
        { s.base desired.status with reasons := reasons } := by
  have hpass : (s.status.isManual && desired.status.isAutomatic) = false := by
    rw [Bool.eq_false_iff]
    exact fun h => hblocks ⟨hexp, Bool.and_eq_true_iff.mp h⟩
  rw [nextState, LabelState.tryApplyDesiredState, hexp]
  simp only [ok_bind, hpass, Bool.false_eq_true, if_false]
  cases LabelReasons.insertAll _ desired.reasons.entries <;> rfl

theorem nextState_other (hexp : s.isExpired now = .ok false) (hblocks : ¬Blocks now desired.status s)
    (hstatus : s.status ≠ desired.status) : nextState now desired (some s) = .ok (replaced desired s) := by
  rw [nextState_unblocked hexp hblocks, LabelState.base, if_pos hstatus, shift_eq (entries_ne_nil_of_isExpired hexp)]
  dsimp only
  rw [insertAll_empty]
  rfl

theorem nextState_same (hexp : s.isExpired now = .ok false) (hstatus : s.status = desired.status) :
    nextState now desired (some s) =
      (s.reasons.insertAll desired.reasons.entries).map fun reasons => { s with reasons := reasons } := by
  rw [nextState_unblocked hexp (not_blocks_of_eq hstatus), LabelState.base, if_neg (not_not.mpr hstatus)]

theorem Desires.created {asked}
    (h : Desires now desired status asked) : ∀ e ∈ desired.reasons.entries, e.2.createdAt = some now := by
  intro e he
  have hget := h.reasons_eq e.1
  rw [Dict.get?_eq_some_iff.mpr he] at hget
  obtain ⟨m, -, hm⟩ := Option.map_eq_some_iff.mp hget.symm
  rw [← hm]
  rfl

/-- The state gives way: it has expired, or it has another status and does not block. -/
def GivesWay (now : Time) (status : LabelStatus) (s : LabelState) : Prop :=
  s.isExpired now = .ok true ∨ s.isExpired now = .ok false ∧ ¬Blocks now status s ∧ s.status ≠ status

theorem nextState_givesWay (h : GivesWay now desired.status s) :
    nextState now desired (some s) = .ok (replaced desired s) := by
  rcases h with hexp | ⟨hexp, hblocks, hstatus⟩
  · exact nextState_expired hexp
  · exact nextState_other hexp hblocks hstatus

/-- What a label state does with a desired state, unless it raises: it gives way, blocks, or merges. -/
theorem givesWay_or_blocks_or_merges {now : Time} (status : LabelStatus) (hok : ∃ b, s.isExpired now = .ok b) :
    GivesWay now status s ∨ Blocks now status s ∨ s.isExpired now = .ok false ∧ s.status = status := by
  obtain ⟨b, hb⟩ := hok
  cases b with
  | true => exact .inl (.inl hb)
  | false =>
    by_cases hblocks : Blocks now status s
    · exact .inr (.inl hblocks)
    · by_cases hstatus : s.status = status
      · exact .inr (.inr ⟨hb, hstatus⟩)
      · exact .inl (.inr ⟨hb, hblocks, hstatus⟩)

/-- What a desired state makes of a label: a new state, one in the place of the old, the old one where it blocks,
or the old one with the reasons merged into its own. -/
inductive Applies (now : Time) (desired : LabelStateInner) : Option LabelState → LabelState → Prop
  | new : Applies now desired none (.fromInner desired)
  | replaces {s : LabelState} (h : GivesWay now desired.status s) : Applies now desired (some s) (replaced desired s)
  | blocked {s : LabelState} (h : Blocks now desired.status s) : Applies now desired (some s) s
  | merges {s : LabelState} {reasons : LabelReasons} (hexp : s.isExpired now = .ok false)
    (hstatus : s.status = desired.status) (h : s.reasons.insertAll desired.reasons.entries = .ok reasons) :
    Applies now desired (some s) { s with reasons }

theorem applies_of_nextState {x} (h : nextState now desired x = .ok s₁) :
    Applies now desired x s₁ := by
  cases x with
  | none =>
    cases h
    exact .new
  | some s =>
    rcases givesWay_or_blocks_or_merges desired.status (isExpired_of_nextState h)
      with hway | hblocks | ⟨hexp, hstatus⟩
    · rw [nextState_givesWay hway] at h
      cases h
      exact .replaces hway
    · rw [nextState_blocked hblocks] at h
      cases h
      exact .blocked hblocks
    · rw [nextState_same hexp hstatus, map_eq_ok] at h
      obtain ⟨reasons, hmerge, rfl⟩ := h
      exact .merges hexp hstatus hmerge

/-- **The second application repeats the first on a label exactly when that left it unexpired.** -/
theorem nextState_again_iff {asked} (hnow : Graced now)
    (hdesires : Desires now desired status asked) {x} (h : nextState now desired x = .ok s₁) :
    nextState now desired (some s₁) = .ok s₁ ↔ s₁.isExpired now = .ok false := by
  have hcreated := hdesires.created
  constructor
  · intro hagain
    obtain ⟨b, hb⟩ := isExpired_of_nextState hagain
    cases b with
    | false => exact hb
    | true =>
      -- the history has grown
      rw [nextState_expired hb] at hagain
      have hlength := congrArg (fun s : LabelState => s.previousStates.length) (Except.ok.inj hagain)
      simp [replaced] at hlength
  · intro hexp
    have hmerged : ∀ {rs : LabelReasons}, s₁.status = desired.status →
        rs.insertAll desired.reasons.entries = .ok s₁.reasons → nextState now desired (some s₁) = .ok s₁ := by
      intro rs hstatus hrs
      rw [nextState_same hexp hstatus, insertAll_again hnow desired.reasons.nodup hcreated hrs]
      rfl
    cases applies_of_nextState h with
    | new | replaces hway => exact hmerged rfl (insertAll_empty desired.reasons)
    | blocked hblocks => exact nextState_blocked hblocks
    | merges hexp' hstatus hmerge => exact hmerged hstatus hmerge

/-! ## What the first application leaves -/

def Asks (asked : String → Option EntityLabelMutation) (x : Option Time) : Prop :=
  ∃ name m, asked name = some m ∧ m.expiresAt = x

/-- The `expires_at` that a merge leaves: of a stored reason that is not written over, or of a mutation that is
taken. -/
def Merges (now : Time) (asked : String → Option EntityLabelMutation) (rs : LabelReasons) (x : Option Time) : Prop :=
  (∃ name r, rs.get? name = some r ∧ r.expiresAt = x ∧ (asked name = none ∨ Newer now r)) ∨
    ∃ name m, asked name = some m ∧ m.expiresAt = x ∧ ∀ r, rs.get? name = some r → ¬Newer now r

/-- A label that is unexpired after the request. -/
def Settles (now : Time) (status : LabelStatus) (asked : String → Option EntityLabelMutation) :
    Option LabelState → Prop
  | none => Unexpired now (Asks asked)
  | some s =>
    Blocks now status s ∨
    GivesWay now status s ∧ Unexpired now (Asks asked) ∨
    s.isExpired now = .ok false ∧ s.status = status ∧ Unexpired now (Merges now asked s.reasons)

/-- A label on which the request raises: a state without reasons, one that expires when the grace cannot be added, or
one it is merged into that has an undated reason of a name that is asked for. -/
def Raises (now : Time) (status : LabelStatus) (asked : String → Option EntityLabelMutation) :
    Option LabelState → Prop
  | none => False
  | some s =>
    s.reasons.entries = [] ∨ Overflows s.reasons.Expiries ∨
    s.isExpired now = .ok false ∧ s.status = status ∧
      ∃ name m r, asked name = some m ∧ s.reasons.get? name = some r ∧ r.createdAt = none

variable {status : LabelStatus} {asked : String → Option EntityLabelMutation}

theorem Desires.expiries_eq (h : Desires now desired status asked) : desired.reasons.Expiries = Asks asked := by
  funext x
  refine propext ⟨?_, ?_⟩
  · rintro ⟨name, r, hr, hx⟩
    rw [h.reasons_eq] at hr
    obtain ⟨m, hm, rfl⟩ := Option.map_eq_some_iff.mp hr
    exact ⟨name, m, hm, hx⟩
  · rintro ⟨name, m, hm, hx⟩
    exact ⟨name, m.reason now, by rw [h.reasons_eq, hm]; rfl, hx⟩

theorem Desires.get?_merged (h : Desires now desired status asked)
    (hmerge : rs.insertAll desired.reasons.entries = .ok rs') (hm : asked name = some m) :
    ∃ v, (m.reason now).mergeInto (rs.get? name) = .ok v ∧ rs'.get? name = some v := by
  rw [insertAll_eq_updateAll] at hmerge
  have hreason : desired.reasons.get? name = some (m.reason now) := by
    rw [h.reasons_eq, hm]
    rfl
  exact Dict.get?_updateAll desired.reasons.nodup hmerge _ (Dict.get?_eq_some_iff.mp hreason)

theorem Desires.get?_unmerged (h : Desires now desired status asked)
    (hmerge : rs.insertAll desired.reasons.entries = .ok rs') (hm : asked name = none) :
    rs'.get? name = rs.get? name := by
  rw [insertAll_eq_updateAll] at hmerge
  refine Dict.get?_updateAll_of_not_mem hmerge fun hmem => ?_
  obtain ⟨r, hr⟩ := Dict.mem_keys.mp hmem
  rw [h.reasons_eq, hm] at hr
  cases hr

theorem Desires.expiries_merged (h : Desires now desired status asked) (hnow : Graced now)
    (hmerge : rs.insertAll desired.reasons.entries = .ok rs') : rs'.Expiries = Merges now asked rs := by
  funext x
  refine propext ⟨?_, ?_⟩
  · rintro ⟨name, v, hv, hx⟩
    cases hm : asked name with
    | none => exact .inl ⟨name, v, (h.get?_unmerged hmerge hm).symm.trans hv, hx, .inl hm⟩
    | some m =>
      obtain ⟨w, hw, hget⟩ := h.get?_merged hmerge hm
      obtain rfl : w = v := Option.some.inj (hget.symm.trans hv)
      rcases LabelReason.mergeInto_cases hnow rfl hw with ⟨hstored, hnewer⟩ | ⟨hexpires, -, hnot⟩
      · exact .inl ⟨name, w, hstored, hx, .inr hnewer⟩
      · exact .inr ⟨name, m, hm, hexpires.symm.trans hx, hnot⟩
  · rintro (⟨name, r, hr, hx, hkept⟩ | ⟨name, m, hm, hx, hnot⟩)
    · cases hm : asked name with
      | none => exact ⟨name, r, (h.get?_unmerged hmerge hm).trans hr, hx⟩
      | some m =>
        have hnewer : Newer now r := hkept.resolve_left fun hnone => by rw [hm] at hnone; cases hnone
        obtain ⟨w, hw, hget⟩ := h.get?_merged hmerge hm
        rcases LabelReason.mergeInto_cases hnow rfl hw with ⟨hstored, -⟩ | ⟨-, -, hnot⟩
        · obtain rfl : r = w := Option.some.inj (hr.symm.trans hstored)
          exact ⟨name, r, hget, hx⟩
        · exact absurd hnewer (hnot r hr)
    · obtain ⟨w, hw, hget⟩ := h.get?_merged hmerge hm
      rcases LabelReason.mergeInto_cases hnow rfl hw with ⟨hstored, hnewer⟩ | ⟨hexpires, -⟩
      · exact absurd hnewer (hnot w hstored)
      · exact ⟨name, w, hget, hexpires.trans hx⟩

theorem not_givesWay_of_blocks (h : Blocks now status s) : ¬GivesWay now status s := by
  rintro (hexp | ⟨-, hnot, -⟩)
  · rw [h.1] at hexp
    cases hexp
  · exact hnot h

theorem not_givesWay_of_merges (hexp : s.isExpired now = .ok false) (hstatus : s.status = status) :
    ¬GivesWay now status s := by
  rintro (hexp' | ⟨-, -, hne⟩)
  · rw [hexp] at hexp'
    cases hexp'
  · exact hne hstatus

/-- **The first application leaves a label unexpired exactly when it settles.** -/
theorem Desires.settles_iff (h : Desires now desired status asked) (hnow : Graced now) {x : Option LabelState}
    (hnext : nextState now desired x = .ok s₁) : s₁.isExpired now = .ok false ↔ Settles now status asked x := by
  have hlasting : s₁.reasons = desired.reasons → (s₁.isExpired now = .ok false ↔ Unexpired now (Asks asked)) := by
    intro hreasons
    rw [(LabelState.isExpired_spec (hreasons ▸ h.nonempty) now).1, hreasons, h.expiries_eq]
  cases applies_of_nextState hnext with
  | new => exact hlasting rfl
  | replaces hway =>
    rw [h.status_eq] at hway
    rw [hlasting rfl]
    constructor
    · exact fun hasks => .inr (.inl ⟨hway, hasks⟩)
    · rintro (hblocks | ⟨-, hasks⟩ | ⟨hexp, hstatus, -⟩)
      · exact absurd hway (not_givesWay_of_blocks hblocks)
      · exact hasks
      · exact absurd hway (not_givesWay_of_merges hexp hstatus)
  | blocked hblocks =>
    rw [h.status_eq] at hblocks
    exact iff_of_true hblocks.1 (.inl hblocks)
  | @merges s reasons hexp hstatus hmerge =>
    rw [h.status_eq] at hstatus
    have hreasons : Reasoned (fun _ => True) reasons := LabelReasons.insertAll_each (fun _ _ _ _ => trivial) hmerge
      (fun _ _ _ => trivial) (fun _ _ => trivial) (.inl h.nonempty)
    rw [(LabelState.isExpired_spec hreasons.nonempty now).1, h.expiries_merged hnow hmerge]
    constructor
    · exact fun hlasts => .inr (.inr ⟨hexp, hstatus, hlasts⟩)
    · rintro (hblocks | ⟨hway, -⟩ | ⟨-, -, hlasts⟩)
      · exact absurd hblocks (not_blocks_of_eq hstatus)
      · exact absurd hway (not_givesWay_of_merges hexp hstatus)
      · exact hlasts

theorem mergeInto_isOk_iff (hnow : Graced now) :
    (∃ v, (m.reason now).mergeInto x = .ok v) ↔ ∀ r, x = some r → r.createdAt ≠ none := by
  cases x with
  | none => exact iff_of_true ⟨_, rfl⟩ fun r hr => by cases hr
  | some current =>
    cases hc : current.createdAt with
    | none => simp [LabelReason.mergeInto, hc]
    | some created => simp [LabelReason.mergeInto_dated (r := m.reason now) hnow rfl hc, hc]

theorem Desires.insertAll_isOk_iff (h : Desires now desired status asked) (hnow : Graced now) (rs : LabelReasons) :
    (∃ rs', rs.insertAll desired.reasons.entries = .ok rs') ↔
      ¬∃ name m r, asked name = some m ∧ rs.get? name = some r ∧ r.createdAt = none := by
  rw [insertAll_eq_updateAll, Dict.updateAll_isOk_iff desired.reasons.nodup]
  constructor
  · rintro hall ⟨name, m, r, hm, hr, hundated⟩
    have hreason : desired.reasons.get? name = some (m.reason now) := by
      rw [h.reasons_eq, hm]
      rfl
    exact (mergeInto_isOk_iff hnow).mp (hall _ (Dict.get?_eq_some_iff.mp hreason)) r hr hundated
  · intro hnot e he
    have hget := h.reasons_eq e.1
    rw [Dict.get?_eq_some_iff.mpr he] at hget
    obtain ⟨m, hm, hreason⟩ := Option.map_eq_some_iff.mp hget.symm
    rw [← hreason]
    exact (mergeInto_isOk_iff hnow).mpr fun r hr hundated => hnot ⟨e.1, m, r, hm, hr, hundated⟩

/-- A label takes a desired state without raising exactly when it is not one of those on which it raises. -/
theorem Desires.isOk_iff (h : Desires now desired status asked) (hnow : Graced now) (x : Option LabelState) :
    (∃ s₁, nextState now desired x = .ok s₁) ↔ ¬Raises now status asked x := by
  cases x with
  | none => exact iff_of_true ⟨_, rfl⟩ id
  | some s =>
    by_cases hok : ∃ b, s.isExpired now = .ok b
    · obtain ⟨b, hb⟩ := hok
      have hne := entries_ne_nil_of_isExpired hb
      have hraises : Raises now status asked (some s) ↔ s.isExpired now = .ok false ∧ s.status = status ∧
          ∃ name m r, asked name = some m ∧ s.reasons.get? name = some r ∧ r.createdAt = none :=
        (or_iff_right hne).trans (or_iff_right ((LabelState.isExpired_spec hne now).2.mp ⟨b, hb⟩))
      rw [hraises]
      rcases givesWay_or_blocks_or_merges status ⟨b, hb⟩ with hway | hblocks | ⟨hexp, hstatus⟩
      · refine iff_of_true ⟨_, nextState_givesWay (h.status_eq ▸ hway)⟩ ?_
        rintro ⟨hexp, hstatus, -⟩
        exact not_givesWay_of_merges hexp hstatus hway
      · refine iff_of_true ⟨_, nextState_blocked (h.status_eq ▸ hblocks)⟩ ?_
        rintro ⟨hexp, hstatus, -⟩
        exact not_blocks_of_eq hstatus hblocks
      · have hmerge : (∃ s₁, nextState now desired (some s) = .ok s₁) ↔
            ∃ rs, s.reasons.insertAll desired.reasons.entries = .ok rs := by
          simp [nextState_same hexp (hstatus.trans h.status_eq.symm), map_eq_ok]
        rw [hmerge, h.insertAll_isOk_iff hnow, and_iff_right hexp, and_iff_right hstatus]
    · refine iff_of_false (fun ⟨_, hnext⟩ => hok (isExpired_of_nextState hnext)) fun hnot => hnot ?_
      by_cases hne : s.reasons.entries = []
      · exact .inl hne
      · exact .inr (.inl (not_not.mp (mt (LabelState.isExpired_spec hne now).2.mpr hok)))

end

/-! ## Whole requests -/

theorem lastNamed_append (ms : List EntityLabelMutation) (m : EntityLabelMutation) (reasonName : String) :
    lastNamed (ms ++ [m]) reasonName = if reasonName = m.reasonName then some m else lastNamed ms reasonName := by
  rw [lastNamed, List.filter_append, List.filter_singleton]
  by_cases h : reasonName = m.reasonName
  · simp [h]
  · simp [h, Ne.symm h, lastNamed]

theorem insertAll_mutations (hnow : Graced now) (rest : List EntityLabelMutation) :
    ∀ (ms : List EntityLabelMutation) (rs : LabelReasons),
      (∀ name, rs.get? name = (lastNamed ms name).map (·.reason now)) →
      ∃ rs', rs.insertAll (rest.map fun m => (m.reasonName, m.reason now)) = .ok rs' ∧
        ∀ name, rs'.get? name = (lastNamed (ms ++ rest) name).map (·.reason now) := by
  induction rest with
  | nil => exact fun ms rs h => ⟨rs, rfl, by simpa using h⟩
  | cons m rest ih =>
    intro ms rs h
    have hmerge : (m.reason now).mergeInto (rs.get? m.reasonName) = .ok (m.reason now) := by
      rw [h]
      cases lastNamed ms m.reasonName with
      | none => rfl
      | some m' => exact LabelReason.mergeInto_of_created hnow rfl rfl
    have hset : ∀ name, (Dict.set rs m.reasonName (m.reason now)).get? name =
        (lastNamed (ms ++ [m]) name).map (·.reason now) := by
      intro name
      rw [Dict.get?_set, lastNamed_append, h]
      split <;> rfl
    obtain ⟨rs', hrs', hall⟩ := ih (ms ++ [m]) _ hset
    refine ⟨rs', ?_, by simpa using hall⟩
    rw [insertAll_eq_updateAll] at hrs' ⊢
    rw [List.map_cons, Dict.updateAll_cons_ok hmerge, hrs']

theorem LabelMutations.desiredState_desires {ms : LabelMutations} (hnow : Graced now)
    (h : ∀ m ∈ ms.toList, m.status = ms.first.status) :
    ∃ d, ms.desiredState now = .ok d ∧ Desires now d ms.first.status (lastNamed ms.toList) := by
  have hall : ms.rest.all (·.status = ms.first.status) = true := by
    simp only [List.all_eq_true, decide_eq_true_eq]
    exact fun m hm => h m (List.mem_cons_of_mem _ hm)
  have hfirst : ∀ name, ((ms.first.desiredState now).reasons).get? name =
      (lastNamed [ms.first] name).map (·.reason now) := by
    intro name
    have happend := lastNamed_append [] ms.first name
    rw [List.nil_append] at happend
    rw [EntityLabelMutation.desiredState, Dict.get?_set, happend]
    split <;> rfl
  obtain ⟨rs, hrs, hget⟩ := insertAll_mutations hnow ms.rest [ms.first] _ hfirst
  refine ⟨{ ms.first.desiredState now with reasons := rs }, ?_, rfl, ?_, hget⟩
  · simp [LabelMutations.desiredState, hall, hrs]
  · have hsome : (lastNamed ms.toList ms.first.reasonName).isSome := by
      simp [lastNamed, LabelMutations.toList]
    obtain ⟨m, hm⟩ := Option.isSome_iff_exists.mp hsome
    have hreason := hget ms.first.reasonName
    rw [show [ms.first] ++ ms.rest = ms.toList from rfl, hm] at hreason
    exact entries_ne_nil_of_get? hreason

theorem applyDesired_labels (r : EntityLabelMutationsResult) (now : Time) (name : String) (ms : LabelMutations)
    (desired : LabelStateInner) :
    (r.applyDesired now name ms desired).map (·.newEntityLabels.labels) =
      (nextState now desired (r.newEntityLabels.labels.get? name)).map (r.newEntityLabels.labels.set name) := by
  unfold EntityLabelMutationsResult.applyDesired
  cases hg : r.newEntityLabels.labels.get? name with
  | none => simp [nextState, Except.map]
  | some current =>
    dsimp only [nextState]
    cases current.tryApplyDesiredState now desired with
    | error e => rfl
    | ok p =>
      obtain ⟨next, dropReason⟩ := p
      cases dropReason with
      | some reason => rfl
      | none =>
        simp only [ok_bind, pure_eq_ok]
        split
        · rfl
        · simp [Except.map]

theorem applyAll_labels (now : Time) : ∀ (ds : List (String × LabelMutations × LabelStateInner))
    (r : EntityLabelMutationsResult), (r.applyAll now ds).map (·.newEntityLabels.labels) =
      Dict.updateAll (nextState now) (ds.map fun d => (d.1, d.2.2)) r.newEntityLabels.labels
  | [], r => rfl
  | (name, ms, desired) :: ds, r => by
    have hround := applyDesired_labels r now name ms desired
    rw [EntityLabelMutationsResult.applyAll, List.map_cons, Dict.updateAll]
    dsimp only
    cases hnext : nextState now desired (r.newEntityLabels.labels.get? name) with
    | error e =>
      rw [hnext] at hround
      cases hr : r.applyDesired now name ms desired with
      | error e' =>
        rw [hr] at hround
        cases hround
        rfl
      | ok r' =>
        rw [hr] at hround
        cases hround
    | ok s =>
      rw [hnext] at hround
      obtain ⟨r', hr', hlabels⟩ := map_eq_ok.mp hround
      have hrest := applyAll_labels now ds r'
      rw [hlabels] at hrest
      rw [hr']
      exact hrest

section

variable {mutations : List EntityLabelMutation} {ds : List (String × LabelMutations × LabelStateInner)}

theorem Rounds.named (h : Rounds now mutations ds) {name} (hname : name ≠ "")
    (hne : strongest mutations name ≠ []) : name ∈ ds.map Prod.fst := by
  have hsurvives := survivors_eq mutations name
  rw [if_neg hname, Collected.survivors] at hsurvives
  rw [h.keys, Dict.mem_keys]
  rw [← hsurvives] at hne
  cases hget : (getMutationsByLabelNameAndDropConflicts mutations).byLabelName.get? name with
  | none =>
    rw [hget] at hne
    exact absurd rfl hne
  | some b => exact ⟨b, rfl⟩

theorem Rounds.desires (h : Rounds now mutations ds) (hnow : Graced now)
    {d : String × LabelMutations × LabelStateInner} (hd : d ∈ ds) :
    Desires now d.2.2 d.2.2.status (asked mutations d.1) := by
  have hlist := (h.eq_strongest hd).2
  obtain ⟨d', hd', hdesires⟩ := LabelMutations.desiredState_desires hnow (status_eq_first hlist)
  cases (h.desired d hd).symm.trans hd'
  rw [hlist] at hdesires
  exact { hdesires with status_eq := rfl }

/-- The rounds are about the labels that have a strongest mutation, with its status. -/
theorem Rounds.forall_iff (h : Rounds now mutations ds) (P : String → LabelStatus → Prop) :
    (∀ name m, name ≠ "" → m ∈ strongest mutations name → P name m.status) ↔ ∀ d ∈ ds, P d.1 d.2.2.status := by
  have hfirst : ∀ d ∈ ds, d.2.1.first ∈ strongest mutations d.1 := fun d hd =>
    (h.eq_strongest hd).2 ▸ List.mem_cons_self
  have hstatus : ∀ d ∈ ds, d.2.2.status = d.2.1.first.status := fun d hd =>
    (LabelMutations.desiredState_spec (h.desired d hd)).1
  constructor
  · intro hall d hd
    rw [hstatus d hd]
    exact hall d.1 _ (h.eq_strongest hd).1 (hfirst d hd)
  · intro hall name m hname hm
    obtain ⟨d, hd, rfl⟩ := List.mem_map.mp (h.named hname (List.ne_nil_of_mem hm))
    rw [status_eq_of_strongest hm (hfirst d hd), ← hstatus d hd]
    exact hall d hd

end

/-- The desired states of a request, which read and write the labels they name, whatever the labels are. -/
theorem exists_desired (hnow : Graced now) (mutations : List EntityLabelMutation) :
    ∃ ds : List (String × LabelStateInner), (ds.map Prod.fst).Nodup ∧
      (∀ labels, (computeNewLabelsFromMutations labels now mutations).map (·.newEntityLabels.labels) =
        Dict.updateAll (nextState now) ds labels.labels) ∧
      (∀ e ∈ ds, Desires now e.2 e.2.status (asked mutations e.1)) ∧
      ∀ P : String → LabelStatus → Prop,
        (∀ name m, name ≠ "" → m ∈ strongest mutations name → P name m.status) ↔ ∀ e ∈ ds, P e.1 e.2.status := by
  obtain ⟨ds, hds⟩ := exists_rounds hnow mutations
  have hkeys : (ds.map fun d => (d.1, d.2.2)).map Prod.fst = ds.map Prod.fst := by simp
  refine ⟨ds.map fun d => (d.1, d.2.2), hkeys ▸ hds.nodup, fun labels => ?_, ?_, fun P => ?_⟩
  · rw [hds.compute, applyAll_labels]
  · exact List.forall_mem_map.mpr fun d hd => hds.desires hnow hd
  · rw [List.forall_mem_map]
    exact hds.forall_iff P

/-- The labels a request leaves. An exception leaves the transaction unwritten. -/
def applied (labels : EntityLabels) (now : Time) (mutations : List EntityLabelMutation) : Except Exc EntityLabels :=
  (computeNewLabelsFromMutations labels now mutations).map (·.newEntityLabels)

/-- **A retry is safe exactly where the request leaves no label expired.** Applying the mutations a second time
at the same time gives the labels the first application gave (or the same exception), if and only if the request
raises on some label, or every label it names is left unexpired. The time is not one of the last five seconds there
are. -/
theorem retry_same_iff (labels : EntityLabels) {now : Time} (hnow : Graced now)
    (mutations : List EntityLabelMutation) :
    ((applied labels now mutations).bind fun once => applied once now mutations) = applied labels now mutations ↔
      (∃ name m, name ≠ "" ∧ m ∈ strongest mutations name ∧
        Raises now m.status (asked mutations name) (labels.labels.get? name)) ∨
      ∀ name m, name ≠ "" → m ∈ strongest mutations name →
        Settles now m.status (asked mutations name) (labels.labels.get? name) := by
  obtain ⟨ds, hnodup, hupdates, hdesires, hforall⟩ := exists_desired hnow mutations
  have happlied : ∀ labels, applied labels now mutations =
      (Dict.updateAll (nextState now) ds labels.labels).map EntityLabels.mk := by
    intro labels
    rw [← hupdates, applied]
    cases computeNewLabelsFromMutations labels now mutations <;> rfl
  have hnone : (¬∃ name m, name ≠ "" ∧ m ∈ strongest mutations name ∧
      Raises now m.status (asked mutations name) (labels.labels.get? name)) ↔
      ∃ once, Dict.updateAll (nextState now) ds labels.labels = .ok once := by
    have hraises := hforall fun name status => ¬Raises now status (asked mutations name) (labels.labels.get? name)
    rw [Dict.updateAll_isOk_iff hnodup, forall₂_congr fun e he => (hdesires e he).isOk_iff hnow _, ← hraises]
    push Not
    rfl
  rw [happlied, hforall fun name status => Settles now status (asked mutations name) (labels.labels.get? name)]
  cases honce : Dict.updateAll (nextState now) ds labels.labels with
  | error e =>
    refine iff_of_true rfl (.inl ?_)
    by_contra h
    obtain ⟨once, hok⟩ := hnone.mp h
    rw [honce] at hok
    cases hok
  | ok once =>
    have hagain : ((Except.ok once).map EntityLabels.mk).bind (fun once => applied once now mutations) =
        (Except.ok once).map EntityLabels.mk ↔ Dict.updateAll (nextState now) ds once = .ok once := by
      change applied ⟨once⟩ now mutations = .ok ⟨once⟩ ↔ _
      simp [happlied, map_eq_ok]
    rw [hagain, Dict.updateAll_again_iff hnodup honce, or_iff_right (hnone.mpr ⟨once, honce⟩)]
    refine forall₂_congr fun e he => ?_
    obtain ⟨s, hs, hget⟩ := Dict.get?_updateAll hnodup honce e he
    rw [← (hdesires e he).settles_iff hnow hs, ← nextState_again_iff hnow (hdesires e he) hs, hget]
    exact ⟨fun h => h s rfl, fun h s' hs' => Option.some.inj hs' ▸ h⟩

theorem retry_same_of_spammer :
    let mutations : List EntityLabelMutation :=
      [{ labelName := "spammer", reasonName := "r" },
        { labelName := "spammer", reasonName := "s", expiresAt := some 0 }]
    ((applied {} 100000000 mutations).bind fun once => applied once 100000000 mutations) =
      applied {} 100000000 mutations := by
  intro mutations
  refine (retry_same_iff {} (by decide) mutations).mpr (.inr fun name m _ hm => .inl ?_)
  obtain rfl : "spammer" = name := by
    obtain ⟨hname, hmem⟩ := labelName_of_strongest hm
    rcases List.mem_pair.mp hmem with rfl | rfl <;> exact hname
  exact ⟨"r", _, rfl, rfl⟩

/-- **A mutation that has expired is applied twice.** The retry finds its own state expired and puts it into the
history; and one that expires in the last second there is makes the retry raise. -/
theorem expired_mutation_applied_twice :
    let mutations := fun expiresAt => [({ labelName := "spammer", reasonName := "r", expiresAt } : EntityLabelMutation)]
    (∃ once twice, applied {} 100000000 (mutations (some 0)) = .ok once ∧
      applied once 100000000 (mutations (some 0)) = .ok twice ∧ once ≠ twice) ∧
    ∃ once, applied {} 100000000 (mutations (some datetimeMax)) = .ok once ∧
      applied once 100000000 (mutations (some datetimeMax)) = .error ⟨.overflowError, "date value out of range"⟩ :=
  ⟨⟨_, _, rfl, rfl, by decide⟩, _, rfl, rfl⟩

end Osprey.Labels
