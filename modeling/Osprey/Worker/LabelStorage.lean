/-
Entity labels as they are stored: `serialize` writes the five nested classes as
a JSON document, and `deserialize` reads them back.

What is stored for an entity is an envelope, a document with the one key
`labels`. `EntityLabels.deserialize` also takes a document without the envelope,
and tells the two apart by that key. A label may have any name, `labels` as
well, but what `serialize` writes always has the envelope, so the test is only
ever made on it.

ISO timestamps are a parameter, with the assumption that they can be read back.
A value of a document is read at the type that the class declares; Python would
keep a value of another type as it is.
-/
import Osprey.Lib.JsonDoc
import Osprey.Lib.Raise
import Osprey.Worker.Labels

namespace Osprey.Labels

open Lib (JsonDoc)

/-! ## Times and values -/

/-- A `datetime`, with or without a timezone. -/
inductive Datetime
  | naive (t : Time)
  | aware (t : Time)
  deriving DecidableEq, Repr

def Datetime.guaranteeUtcTimezoneAwareness : Datetime → Time
  | naive t | aware t => t

/-- ISO timestamps of aware datetimes, and the text of a document in a message. -/
structure Format where
  isoformat : Time → String
  fromisoformat : String → Except Exc Datetime
  repr : JsonDoc → String
  fromisoformat_isoformat : ∀ t, fromisoformat (isoformat t) = .ok (.aware t)
  isoformat_ne_empty : ∀ t, isoformat t ≠ ""

/-- Timestamps that can be read back: a sign and as many strokes as microseconds. -/
instance : Nonempty Format := by
  refine ⟨⟨fun t => .ofList ((if 0 ≤ t then '+' else '-') :: List.replicate t.natAbs '|'), fun text =>
    match text.toList with
    | '+' :: strokes => .ok (.aware strokes.length)
    | '-' :: strokes => .ok (.aware (-strokes.length))
    | _ => .error ⟨.valueError, "Invalid isoformat string"⟩, fun _ => "", fun t => ?_, fun t => by simp⟩⟩
  by_cases ht : 0 ≤ t
  · simp only [ht, if_true, String.toList_ofList, List.length_replicate]
    rw [Int.natAbs_of_nonneg ht]
  · simp only [ht, if_false, String.toList_ofList, List.length_replicate]
    rw [Int.ofNat_natAbs_of_nonpos (Int.le_of_lt (Int.not_le.mp ht)), Int.neg_neg]

/-- `d[key]`. -/
def getItem (d : JsonDoc) (key : String) : Except Exc JsonDoc :=
  match d with
  | .dict entries => match entries.lookup key with
    | some value => .ok value
    | none => .error ⟨.keyError, key⟩
  | _ => .error ⟨.typeError, "not subscriptable"⟩

/-- `d.get(key)`. -/
def get? (d : JsonDoc) (key : String) : Except Exc (Option JsonDoc) :=
  match d with
  | .dict entries => .ok (entries.lookup key)
  | _ => .error ⟨.other, "no attribute 'get'"⟩

def items : JsonDoc → Except Exc (List (String × JsonDoc))
  | .dict entries => .ok entries
  | _ => .error ⟨.other, "no attribute 'items'"⟩

def hasKey (d : JsonDoc) (key : String) : Bool :=
  match d with
  | .dict entries => (entries.lookup key).isSome
  | _ => false

def asBool : JsonDoc → Except Exc Bool
  | .leaf (.bool b) => .ok b
  | _ => .error ⟨.typeError, "not a bool"⟩

def asStr : JsonDoc → Except Exc String
  | .leaf (.str s) => .ok s
  | _ => .error ⟨.typeError, "not a str"⟩

def asList : JsonDoc → Except Exc (List JsonDoc)
  | .list docs => .ok docs
  | _ => .error ⟨.typeError, "not a list"⟩

/-- `{k: read(v) for k, v in entries}`. -/
def readEntries {ν : Type} (read : String → JsonDoc → Except Exc ν) (entries : List (String × JsonDoc)) :
    Except Exc (Lib.Dict String ν) := do
  let entries ← entries.mapM fun e => do return (e.1, ← read e.1 e.2)
  return .ofList entries

/-- `raise TypeError(text, e)` for whatever was raised. -/
def wrapError {α : Type} (text : String) : Except Exc α → Except Exc α
  | .ok a => .ok a
  | .error _ => .error ⟨.typeError, text⟩

/-! ## The five classes -/

/-- `LabelStatus(value)`. -/
def LabelStatus.ofValue : JsonDoc → Except Exc LabelStatus
  | .leaf (.int 0) => .ok .removed
  | .leaf (.int 1) => .ok .added
  | .leaf (.int 2) => .ok .manuallyRemoved
  | .leaf (.int 3) => .ok .manuallyAdded
  | _ => .error ⟨.valueError, "is not a valid LabelStatus"⟩

variable (F : Format)

/-- `t.isoformat() if t else None`. -/
def writeTime : Option Time → JsonDoc
  | some t => .str (F.isoformat t)
  | none => .leaf .null

/-- `datetime.fromisoformat(d[key]) if d.get(key) else None`, as `__post_init__` leaves it. -/
def readTime (d : JsonDoc) (key : String) : Except Exc (Option Time) := do
  match ← get? d key with
  | some (.leaf (.str text)) =>
    if text = "" then return none
    else return some (← F.fromisoformat text).guaranteeUtcTimezoneAwareness
  | some (.leaf .null) | none => return none
  | some _ => .error ⟨.typeError, "fromisoformat: argument must be str"⟩

namespace LabelReason

def serialize (r : LabelReason) : JsonDoc := .dict [
  ("pending", .leaf (.bool r.pending)),
  ("description", JsonDoc.str r.description),
  ("features", .dict (r.features.entries.map fun e => (e.1, JsonDoc.str e.2))),
  ("created_at", writeTime F r.createdAt),
  ("expires_at", writeTime F r.expiresAt)]

def deserialize (d : JsonDoc) : Except Exc LabelReason := do
  let createdAt ← readTime F d "created_at"
  let expiresAt ← readTime F d "expires_at"
  let pending ← asBool ((← get? d "pending").getD (.leaf (.bool false)))
  let description ← asStr ((← get? d "description").getD (.str ""))
  let features ← readEntries (fun _ => asStr) (← items ((← get? d "features").getD (.dict [])))
  return { pending, description, features, createdAt, expiresAt }

end LabelReason

namespace LabelReasons

def serialize (rs : LabelReasons) : JsonDoc := .dict (rs.entries.map fun e => (e.1, e.2.serialize F))

def deserialize (d : JsonDoc) : Except Exc LabelReasons := do
  readEntries (fun reasonName reasonData =>
    wrapError ("could not create LabelReasons from dict: failed to deserialize " ++ reasonName)
      (LabelReason.deserialize F reasonData)) (← items d)

end LabelReasons

namespace LabelStateInner

def serialize (s : LabelStateInner) : JsonDoc :=
  .dict [("status", JsonDoc.int s.status.value), ("reasons", s.reasons.serialize F)]

def deserialize (d : JsonDoc) : Except Exc LabelStateInner :=
  wrapError ("could not create LabelStateInner from dict: " ++ F.repr d) do
    let status ← LabelStatus.ofValue (← getItem d "status")
    let reasons ← LabelReasons.deserialize F (← getItem d "reasons")
    return ⟨status, reasons⟩

end LabelStateInner

namespace LabelState

def serialize (s : LabelState) : JsonDoc := .dict [
  ("status", JsonDoc.int s.status.value),
  ("reasons", s.reasons.serialize F),
  ("previous_states", .list (s.previousStates.map (LabelStateInner.serialize F)))]

def deserialize (d : JsonDoc) : Except Exc LabelState :=
  wrapError ("could not create LabelState from dict: " ++ F.repr d) do
    let status ← LabelStatus.ofValue (← getItem d "status")
    let reasons ← LabelReasons.deserialize F (← getItem d "reasons")
    let previousStates ← (← asList ((← get? d "previous_states").getD (.list []))).mapM (LabelStateInner.deserialize F)
    return ⟨status, reasons, previousStates⟩

end LabelState

namespace EntityLabels

/-- The states by their names, without the envelope. -/
def serializeLabels (x : EntityLabels) : JsonDoc := .dict (x.labels.entries.map fun e => (e.1, e.2.serialize F))

def serialize (x : EntityLabels) : JsonDoc := .dict [("labels", x.serializeLabels F)]

def deserializeLabels (d : JsonDoc) : Except Exc EntityLabels :=
  wrapError ("could not create EntityLabels from dict: " ++ F.repr d ++ ";") do
    return ⟨← readEntries (fun _ => LabelState.deserialize F) (← items d)⟩

def deserialize (d : JsonDoc) : Except Exc EntityLabels := do
  if hasKey d "labels" then deserializeLabels F (← getItem d "labels") else deserializeLabels F d

end EntityLabels

/-! ## Reading back -/

theorem LabelStatus.ofValue_value (s : LabelStatus) : ofValue (JsonDoc.int s.value) = .ok s := by
  cases s <;> rfl

theorem readEntries_write {ν : Type} {read} (write : ν → JsonDoc)
    (h : ∀ k v, read k (write v) = .ok v) (d : Lib.Dict String ν) :
    readEntries read (d.entries.map fun e => (e.1, write e.2)) = .ok d := by
  have hread : (d.entries.map fun e => (e.1, write e.2)).mapM (fun e => do return (e.1, ← read e.1 e.2)) =
      .ok d.entries := by
    refine Lib.mapM_map_ok _ _ (fun e => ?_) d.entries
    simp only [h]
    rfl
  rw [readEntries, hread]
  show Except.ok (Lib.Dict.ofList d.entries) = .ok d
  rw [Lib.Dict.ofList_entries]

variable {F}

theorem readTime_write {d key t} (h : get? d key = .ok (some (writeTime F t))) : readTime F d key = .ok t := by
  rw [readTime, h]
  cases t with
  | none => rfl
  | some t =>
    show (if F.isoformat t = "" then Except.ok none
      else (F.fromisoformat (F.isoformat t) >>= fun dt => .ok (some dt.guaranteeUtcTimezoneAwareness))) = _
    rw [if_neg (F.isoformat_ne_empty t), F.fromisoformat_isoformat]
    rfl

theorem LabelReason.deserialize_serialize (r : LabelReason) : LabelReason.deserialize F (r.serialize F) = .ok r := by
  have hcreated : readTime F (r.serialize F) "created_at" = .ok r.createdAt := readTime_write rfl
  have hexpires : readTime F (r.serialize F) "expires_at" = .ok r.expiresAt := readTime_write rfl
  have hfeatures : readEntries (fun _ => asStr) (r.features.entries.map fun e => (e.1, JsonDoc.str e.2)) =
      .ok r.features := readEntries_write JsonDoc.str (fun _ _ => rfl) r.features
  rw [LabelReason.deserialize, hcreated, hexpires]
  show (readEntries (fun _ => asStr) (r.features.entries.map fun e => (e.1, JsonDoc.str e.2)) >>= fun features =>
    Except.ok { r with features }) = .ok r
  rw [hfeatures]
  rfl

theorem LabelReasons.deserialize_serialize (rs : LabelReasons) :
    LabelReasons.deserialize F (rs.serialize F) = .ok rs := by
  simp only [LabelReasons.deserialize, LabelReasons.serialize, items, ok_bind]
  refine readEntries_write (LabelReason.serialize F) (fun name r => ?_) rs
  rw [LabelReason.deserialize_serialize]
  rfl

theorem LabelStateInner.deserialize_serialize (s : LabelStateInner) :
    LabelStateInner.deserialize F (s.serialize F) = .ok s := by
  show wrapError _ (LabelStatus.ofValue (JsonDoc.int s.status.value) >>= fun status =>
    LabelReasons.deserialize F (s.reasons.serialize F) >>= fun reasons => .ok ⟨status, reasons⟩) = .ok s
  rw [LabelStatus.ofValue_value, LabelReasons.deserialize_serialize]
  rfl

theorem LabelState.deserialize_serialize (s : LabelState) : LabelState.deserialize F (s.serialize F) = .ok s := by
  show wrapError _ (LabelStatus.ofValue (JsonDoc.int s.status.value) >>= fun status =>
    LabelReasons.deserialize F (s.reasons.serialize F) >>= fun reasons =>
      (s.previousStates.map (LabelStateInner.serialize F)).mapM (LabelStateInner.deserialize F) >>= fun previous =>
        .ok ⟨status, reasons, previous⟩) = .ok s
  rw [LabelStatus.ofValue_value, LabelReasons.deserialize_serialize,
    Lib.mapM_map_ok _ _ LabelStateInner.deserialize_serialize]
  rfl

theorem EntityLabels.deserializeLabels_serializeLabels (x : EntityLabels) :
    deserializeLabels F (x.serializeLabels F) = .ok x := by
  show wrapError _ (readEntries (fun _ => LabelState.deserialize F)
    (x.labels.entries.map fun e => (e.1, e.2.serialize F)) >>= fun labels => .ok ⟨labels⟩) = .ok x
  rw [readEntries_write (LabelState.serialize F) fun _ => LabelState.deserialize_serialize]
  rfl

/-- **Labels survive storage.** Whatever the names, statuses, reasons and
histories of an entity's labels are, reading what was written gives them back:
every label under its name and in its place, with its status, its reasons and
its previous states in their order. -/
theorem EntityLabels.labels_survive_storage (x : EntityLabels) : deserialize F (x.serialize F) = .ok x :=
  deserializeLabels_serializeLabels x

end Osprey.Labels
