/-
The UDF `HasLabel`, run one call at a time and run in a batch.

A batch is executed by its first call's UDF instance on behalf of all the
others. `_execute` takes the label, the age and the manual flag from the
arguments it is given, but the status it compares with from `self`, and
`self` is the first instance. So a batch agrees with its calls executed one
by one exactly when no call whose answer depends on its status asks for
another status than the first one does.
-/
import Osprey.Engine.ExternalService
import Osprey.Engine.NodeExecution
import Osprey.Worker.Labels
import Mathlib.Data.List.Dedup

namespace Osprey.HasLabel

open Labels

/-! ## Arguments -/

inductive ManualType
  | yes
  | no
  | either
  deriving DecidableEq, Repr

def ManualType.get : Option Bool → ManualType
  | some true => .yes
  | some false => .no
  | none => .either

inductive SimpleStatus
  | added
  | removed
  deriving DecidableEq, Repr

/-- `_SimpleStatus(status_name)`; `none` when it raises `ValueError`. -/
def SimpleStatus.ofValue : String → Option SimpleStatus
  | "added" => some .added
  | "removed" => some .removed
  | _ => none

structure HasLabelArguments where
  entity : EntityT
  label : String
  manual : Option Bool := none
  status : String := "added"
  minLabelAge : Option TimeDelta := none
  errorOnEmpty : Bool := false

structure BatchableHasLabelArguments where
  entity : EntityT
  label : String
  manual : Option Bool
  status : String
  minLabelAge : Option TimeDelta
  desiredStatus : SimpleStatus
  errorOnEmpty : Bool

/-- A call node with its UDF instance. The constructor of the UDF reports an
error unless the status has one of the two values, so the instance of a
validated call has a desired status, and it is the one its argument names. -/
structure HasLabelCall where
  node : NodeId
  arguments : HasLabelArguments
  desiredStatus : SimpleStatus
  validated : SimpleStatus.ofValue arguments.status = some desiredStatus

def HasLabelCall.getBatchableArguments (c : HasLabelCall) : BatchableHasLabelArguments where
  entity := c.arguments.entity
  label := c.arguments.label
  manual := c.arguments.manual
  status := c.arguments.status
  minLabelAge := c.arguments.minLabelAge
  desiredStatus := c.desiredStatus
  errorOnEmpty := c.arguments.errorOnEmpty

/-! ## One label -/

def entityIdStr : EntityId → String
  | .str s => s
  | .int n => toString n

def emptyEntityText (entity : EntityT) (label : String) : String :=
  "Entity '" ++ entity.type ++ "/" ++ entityIdStr entity.id ++ "' has no labels. " ++
    "This may indicate the labels service failed to fetch data. " ++ "(Checked for label: '" ++ label ++ "')"

/-- The state of a label, unless all its reasons have expired. -/
def liveState (labels : EntityLabels) (label : String) (now : Time) : Option LabelState :=
  match labels.labels.get? label with
  | none => none
  | some s =>
    let allReasonsExpired := s.reasons.values.all fun r =>
      match r.expiresAt with
      | some e => e ≤ now
      | none => false
    if allReasonsExpired then none else some s

def actualStatus : LabelStatus → SimpleStatus
  | .added | .manuallyAdded => .added
  | .removed | .manuallyRemoved => .removed

def actualManual : LabelStatus → ManualType
  | .added | .removed => .no
  | .manuallyAdded | .manuallyRemoved => .yes

/-- `min(...)` of an iterable. -/
def pyMin : List Time → Except Exc Time
  | [] => .error ⟨.valueError, "min() arg is an empty sequence"⟩
  | t :: ts => .ok (ts.foldl min t)

/-- The creation time of the oldest reason that has one and has not expired. -/
def oldestNonExpired (s : LabelState) (now : Time) : Except Exc Time :=
  pyMin (s.reasons.values.filterMap fun r =>
    match r.createdAt with
    | none => none
    | some c =>
      match r.expiresAt with
      | none => some c
      | some e => if e > now then some c else none)

/-- Whether a label is old enough; without a `min_label_age` its age is not computed. -/
def oldEnough (s : LabelState) (now : Time) : Option TimeDelta → Except Exc Bool
  | none => .ok true
  | some desiredDelay => do return decide (now - (← oldestNonExpired s now) > desiredDelay)

/-- `HasLabel._execute`. -/
def HasLabelCall.executeWith (self : HasLabelCall) (arguments : BatchableHasLabelArguments)
    (labels : EntityLabels) (now : Time) : Except Exc Bool :=
  if arguments.errorOnEmpty ∧ labels.labels.entries = [] then
    .error ⟨.emptyEntity, emptyEntityText arguments.entity arguments.label⟩
  else
    let desiredManual := ManualType.get arguments.manual
    match liveState labels arguments.label now with
    | none => .ok (decide (self.desiredStatus = .removed ∧ desiredManual ≠ .yes))
    | some s => do
      let old ← oldEnough s now arguments.minLabelAge
      return decide (self.desiredStatus = actualStatus s.status ∧
        (desiredManual = .either ∨ desiredManual = actualManual s.status) ∧ old = true)

/-! ## Single calls and batches -/

def labelsProvider (readLabels : EntityT → Except Exc EntityLabels) :
    ExternalService.Service EntityT EntityLabels where
  getFromService := readLabels
  cacheTtl := some (seconds 60)

abbrev LabelsCache := ExternalService.Cache EntityT EntityLabels

/-- What the calls of one run share: the label store, and the current time. -/
structure LabelsContext where
  readLabels : EntityT → Except Exc EntityLabels
  now : Time

def LabelsContext.get (ctx : LabelsContext) (cache : LabelsCache) (entity : EntityT) :
    Except Exc EntityLabels × LabelsCache :=
  ExternalService.get (labelsProvider ctx.readLabels) ctx.now cache entity

def HasLabelCall.execute (self : HasLabelCall) (ctx : LabelsContext) (cache : LabelsCache) :
    Except Exc Bool × LabelsCache :=
  let (entityLabels, cache) := ctx.get cache self.arguments.entity
  (entityLabels.bind fun labels => self.executeWith self.getBatchableArguments labels ctx.now, cache)

def HasLabelCall.executeBatch (self : HasLabelCall) (ctx : LabelsContext) (cache : LabelsCache)
    (arguments : List BatchableHasLabelArguments) : Except Exc (List (Except Exc Bool)) :=
  match (arguments.map (·.entity)).dedup with
  | [entity] => do
    let labels ← (ctx.get cache entity).1
    return arguments.map fun args => self.executeWith args labels ctx.now
  | _ => .error ⟨.notImplementedError, ""⟩

/-- The calls of a batch: at least one, all about one entity. -/
structure EntityBatch where
  first : HasLabelCall
  rest : List HasLabelCall
  sameEntity : ∀ c ∈ rest, c.arguments.entity = first.arguments.entity

def EntityBatch.calls (b : EntityBatch) : List HasLabelCall := b.first :: b.rest

/-- The batch run by `_wrapped_batch_execution`. The return type of `HasLabel`
is not dynamic, so `check_result_type` passes every result on. -/
def EntityBatch.batched (b : EntityBatch) (ctx : LabelsContext) (cache : LabelsCache) : List (NodeResult Bool) :=
  (wrappedBatchExecution (fun _ v => .ok v) (b.calls.map (·.node))
    (b.first.executeBatch ctx cache (b.calls.map (·.getBatchableArguments)))).1

/-- Calls run one after the other by `_wrapped_execution`. -/
def runEach (ctx : LabelsContext) : LabelsCache → List HasLabelCall → List (NodeResult Bool)
  | _, [] => []
  | cache, c :: cs =>
    let (outcome, cache) := c.execute ctx cache
    (wrappedExecution c.node outcome).1 :: runEach ctx cache cs

/-! ## When the status of a call matters -/

/-- The call's answer is whether its status is the label's: the entity is not
refused as empty, the manual flag admits the label's state, and the label is
old enough. An absent or expired label counts as removed, not manually. -/
def StatusMatters (arguments : BatchableHasLabelArguments) (labels : EntityLabels) (now : Time) : Prop :=
  ¬ (arguments.errorOnEmpty ∧ labels.labels.entries = []) ∧
    match liveState labels arguments.label now with
    | none => ManualType.get arguments.manual ≠ .yes
    | some s =>
      (ManualType.get arguments.manual = .either ∨ ManualType.get arguments.manual = actualManual s.status) ∧
        oldEnough s now arguments.minLabelAge = .ok true

theorem executeWith_of_matters {args labels now} (h : StatusMatters args labels now) :
    ∃ status, ∀ self : HasLabelCall,
      self.executeWith args labels now = .ok (decide (self.desiredStatus = status)) := by
  obtain ⟨hempty, h⟩ := h
  cases hl : liveState labels args.label now with
  | none =>
    rw [hl] at h
    refine ⟨.removed, fun self => ?_⟩
    simp [HasLabelCall.executeWith, hempty, hl, h]
  | some s =>
    rw [hl] at h
    refine ⟨actualStatus s.status, fun self => ?_⟩
    simp [HasLabelCall.executeWith, hempty, hl, h.1, h.2]

theorem executeWith_of_not_matters {args labels now}
    (h : ¬ StatusMatters args labels now) (self other : HasLabelCall) :
    self.executeWith args labels now = other.executeWith args labels now := by
  unfold HasLabelCall.executeWith
  by_cases hempty : args.errorOnEmpty ∧ labels.labels.entries = []
  · simp only [if_pos hempty]
  · simp only [if_neg hempty]
    unfold StatusMatters at h
    cases hl : liveState labels args.label now with
    | none =>
      have hyes : ManualType.get args.manual = .yes := by simpa [hempty, hl] using h
      simp [hyes]
    | some s =>
      cases ho : oldEnough s now args.minLabelAge with
      | error e => simp [ho]
      | ok old =>
        -- the manual flag or the age already answers no
        have hno : ¬ ((ManualType.get args.manual = .either ∨ ManualType.get args.manual = actualManual s.status)
            ∧ old = true) := by
          rintro ⟨hm, rfl⟩
          exact h ⟨hempty, by rw [hl]; exact ⟨hm, ho⟩⟩
        simp only [ho, ok_bind, pure_eq_ok, hno, and_false]

/-- Two instances give one call the same node result exactly when its status
does not matter or they ask for the same. -/
theorem executeWith_agree_iff (self other : HasLabelCall) (args : BatchableHasLabelArguments)
    (labels : EntityLabels) (now : Time) (node : NodeId) :
    (wrappedExecution node (self.executeWith args labels now)).1
        = (wrappedExecution node (other.executeWith args labels now)).1 ↔
      (StatusMatters args labels now → self.desiredStatus = other.desiredStatus) := by
  by_cases h : StatusMatters args labels now
  · obtain ⟨status, heq⟩ := executeWith_of_matters h
    rw [heq, heq]
    simp only [wrappedExecution, NodeResult.ok.injEq, h, true_imp_iff]
    cases self.desiredStatus <;> cases other.desiredStatus <;> cases status <;> decide
  · simp [h, executeWith_of_not_matters h self other]

/-! ## Batches against single calls -/

theorem LabelsContext.get_again (ctx : LabelsContext) (cache : LabelsCache) (e : EntityT) :
    (ctx.get (ctx.get cache e).2 e).1 = (ctx.get cache e).1 :=
  ExternalService.get_again rfl ctx.now cache e

theorem runEach_eq (ctx : LabelsContext) (e : EntityT) : ∀ (cs : List HasLabelCall) (cache : LabelsCache),
    (∀ c ∈ cs, c.arguments.entity = e) →
    runEach ctx cache cs = cs.map fun c => (wrappedExecution c.node
      ((ctx.get cache e).1.bind fun labels => c.executeWith c.getBatchableArguments labels ctx.now)).1
  | [], _, _ => rfl
  | c :: cs, cache, h => by
    have hc : c.arguments.entity = e := h c (by simp)
    have ih := runEach_eq ctx e cs (ctx.get cache e).2 fun c hc => h c (by simp [hc])
    rw [LabelsContext.get_again] at ih
    simp only [runEach, HasLabelCall.execute, hc, ih, List.map_cons]

theorem EntityBatch.entity_eq (b : EntityBatch) : ∀ c ∈ b.calls, c.arguments.entity = b.first.arguments.entity := by
  intro c hc
  rcases List.mem_cons.1 hc with rfl | hc
  · rfl
  · exact b.sameEntity c hc

theorem dedup_eq_singleton {α : Type*} [DecidableEq α] {a} : ∀ {l : List α}, (∀ x ∈ l, x = a) → l ≠ [] →
    l.dedup = [a]
  | [x], h, _ => by simp [h x (by simp)]
  | x :: y :: l, h, _ => by
    obtain rfl := h x (by simp)
    rw [List.dedup_cons_of_mem (by simp [h y (by simp)])]
    exact dedup_eq_singleton (fun z hz => h z (by simp [hz])) (by simp)

theorem executeBatch_of_entity {arguments} {entity : EntityT}
    (h : ∀ args ∈ arguments, args.entity = entity) (hne : arguments ≠ []) (self : HasLabelCall) (ctx : LabelsContext)
    (cache : LabelsCache) : self.executeBatch ctx cache arguments =
      (ctx.get cache entity).1.map fun labels => arguments.map fun args => self.executeWith args labels ctx.now := by
  have hdedup : (arguments.map (·.entity)).dedup = [entity] := dedup_eq_singleton (by simpa using h) (by simpa using hne)
  simp only [HasLabelCall.executeBatch, hdedup]
  cases (ctx.get cache entity).1 <;> rfl

theorem EntityBatch.batched_eq (b : EntityBatch) (ctx : LabelsContext) (cache : LabelsCache) :
    b.batched ctx cache = b.calls.map fun c => (wrappedExecution c.node
      ((ctx.get cache b.first.arguments.entity).1.bind fun labels =>
        b.first.executeWith c.getBatchableArguments labels ctx.now)).1 := by
  rw [EntityBatch.batched, executeBatch_of_entity (List.forall_mem_map.mpr b.entity_eq) (by simp [EntityBatch.calls])]
  cases (ctx.get cache b.first.arguments.entity).1 with
  | error e => simp [wrappedBatchExecution, wrappedExecution, Except.bind, Except.map, Function.comp_def]
  | ok labels =>
    simp only [wrappedBatchExecution, Except.bind, Except.map, List.length_map, if_true, checkResults_fst, List.map_map]
    rw [List.zip_map', List.map_map]
    refine List.map_congr_left fun c _ => ?_
    simp only [Function.comp_apply]
    cases b.first.executeWith c.getBatchableArguments labels ctx.now <;> rfl

/-- **A batch agrees with its calls run one by one exactly when every call
whose status matters asks for the status the first call asks for**; when the
labels cannot be read, every call fails either way. -/
theorem EntityBatch.batched_eq_runEach_iff (b : EntityBatch) (ctx : LabelsContext) (cache : LabelsCache) :
    b.batched ctx cache = runEach ctx cache b.calls ↔
      ∀ labels, (ctx.get cache b.first.arguments.entity).1 = .ok labels →
        ∀ c ∈ b.rest, StatusMatters c.getBatchableArguments labels ctx.now →
          c.desiredStatus = b.first.desiredStatus := by
  rw [b.batched_eq, runEach_eq ctx _ b.calls cache b.entity_eq, List.map_inj_left]
  cases (ctx.get cache b.first.arguments.entity).1 with
  | error e => simp [wrappedExecution, Except.bind]
  | ok labels =>
    simp only [Except.bind, executeWith_agree_iff, Except.ok.injEq]
    constructor
    · rintro h _ rfl c hc hm
      exact (h c (List.mem_cons_of_mem _ hc) hm).symm
    · intro h c hc hm
      rcases List.mem_cons.1 hc with rfl | hc
      · rfl
      · exact (h labels rfl c hc hm).symm

/-- Two calls about one label in one batch: does the account have it, and has
it been removed. Alone the answers are yes and no; in the batch both are yes. -/
theorem batched_added_and_removed :
    let entity : EntityT := ⟨"User", .int 1⟩
    let spammer : LabelState := ⟨.added, Lib.Dict.empty.set "rule" { createdAt := some 0 }, []⟩
    let ctx : LabelsContext := ⟨fun _ => .ok ⟨Lib.Dict.empty.set "spammer" spammer⟩, 10⟩
    let batch : EntityBatch :=
      ⟨⟨0, { entity, label := "spammer", status := "added" }, .added, rfl⟩,
        [⟨1, { entity, label := "spammer", status := "removed" }, .removed, rfl⟩], by simp⟩
    batch.batched ctx .empty = [.ok true, .ok true] ∧ runEach ctx .empty batch.calls = [.ok true, .ok false] :=
  ⟨rfl, rfl⟩

/-! ## What a batch is about -/

def routingKey (entity : EntityT) : String := entity.type ++ "/" ++ entityIdStr entity.id

def HasLabelCall.getBatchRoutingKey (c : HasLabelCall) : String := routingKey c.getBatchableArguments.entity

/-- The batches that `_enqueue_batches` makes of ready calls: the groups under one key, but for those of one call. -/
def enqueueBatches (calls : List HasLabelCall) : List (List HasLabelCall) :=
  (calls.foldl (fun groups c => groups.appendAt c.getBatchRoutingKey [c]) Lib.Dict.empty).values.filter fun group =>
    ¬group.length < 2

theorem mem_enqueueBatches {calls group} : group ∈ enqueueBatches calls ↔
    2 ≤ group.length ∧ ∃ key, group = calls.filter (·.getBatchRoutingKey = key) := by
  have hgroup := Lib.Dict.get?_foldl_appendAt HasLabelCall.getBatchRoutingKey calls
  rw [enqueueBatches, List.mem_filter, Lib.Dict.values, List.mem_map]
  constructor
  · rintro ⟨⟨⟨key, _⟩, hmem, rfl⟩, hlen⟩
    have hget := hgroup key
    rw [Lib.Dict.get?_eq_some_iff.mpr hmem] at hget
    split at hget
    · cases hget
    · exact ⟨not_lt.mp (of_decide_eq_true hlen), key, Option.some.inj hget⟩
  · rintro ⟨hlen, key, hkey⟩
    have hget := hgroup key
    rw [← hkey, if_neg (by intro h; simp [h] at hlen)] at hget
    exact ⟨⟨(key, group), Lib.Dict.get?_eq_some_iff.mp hget, rfl⟩, decide_eq_true (not_lt.mpr hlen)⟩

/-- Two entities that the key takes for one: an `int` id and its text, or a type that goes on after a slash where the
other's id begins. -/
def Confused (e e' : EntityT) : Prop :=
  (e.type = e'.type ∧ e.id ≠ e'.id ∧ entityIdStr e.id = entityIdStr e'.id) ∨
    ∃ rest, e'.type = e.type ++ "/" ++ rest ∧ entityIdStr e.id = rest ++ "/" ++ entityIdStr e'.id

theorem slash_eq_slash_iff {t i t' i'} : t ++ "/" ++ i = t' ++ "/" ++ i' ↔ (t = t' ∧ i = i') ∨
    (∃ rest, t' = t ++ "/" ++ rest ∧ i = rest ++ "/" ++ i') ∨ ∃ rest, t = t' ++ "/" ++ rest ∧ i' = rest ++ "/" ++ i := by
  -- the longer of the two types begins with the other, and goes on with its slash
  have longer : ∀ {t i t' i' : String} {a : List Char}, t'.toList = t.toList ++ a →
      '/' :: i.toList = a ++ '/' :: i'.toList →
      (t = t' ∧ i = i') ∨ ∃ rest, t' = t ++ "/" ++ rest ∧ i = rest ++ "/" ++ i' := by
    intro t i t' i' a ht hi
    cases a with
    | nil => exact .inl ⟨String.ext (by simpa using ht.symm), String.ext (by simpa using hi)⟩
    | cons ch rest =>
      obtain ⟨rfl, hi⟩ := List.cons.inj hi
      exact .inr ⟨String.ofList rest, String.ext (by simpa using ht), String.ext (by simpa using hi)⟩
  constructor
  · intro h
    have h : t.toList ++ '/' :: i.toList = t'.toList ++ '/' :: i'.toList := by simpa using congrArg String.toList h
    rcases List.append_eq_append_iff.mp h with ⟨a, ht, hi⟩ | ⟨a, ht, hi⟩
    · exact (longer ht hi).imp_right .inl
    · rcases longer ht hi with ⟨rfl, rfl⟩ | h
      · exact .inl ⟨rfl, rfl⟩
      · exact .inr (.inr h)
  · rintro (⟨rfl, rfl⟩ | ⟨rest, rfl, rfl⟩ | ⟨rest, rfl, rfl⟩) <;> simp [String.append_assoc]

theorem routingKey_eq_iff {e e'} :
    routingKey e = routingKey e' ∧ e ≠ e' ↔ Confused e e' ∨ Confused e' e := by
  have hlonger : ∀ t rest : String, t ≠ t ++ "/" ++ rest := by
    intro t rest h
    have hlen := congrArg String.length h
    simp only [String.length_append] at hlen
    have hslash : ("/" : String).length = 1 := rfl
    omega
  obtain ⟨type, id⟩ := e
  obtain ⟨type', id'⟩ := e'
  rw [routingKey, routingKey, slash_eq_slash_iff, Confused, Confused, Ne, EntityT.mk.injEq, not_and]
  constructor
  · rintro ⟨⟨rfl, hid⟩ | h | h, hne⟩
    · exact .inl (.inl ⟨rfl, hne rfl, hid⟩)
    · exact .inl (.inr h)
    · exact .inr (.inr h)
  · rintro ((⟨rfl, hne, hid⟩ | h) | (⟨rfl, hne, hid⟩ | h))
    · exact ⟨.inl ⟨rfl, hid⟩, fun _ => hne⟩
    · exact ⟨.inr (.inl h), fun heq => absurd (heq.trans h.choose_spec.1) (hlonger _ _)⟩
    · exact ⟨.inl ⟨rfl, hid.symm⟩, fun _ => Ne.symm hne⟩
    · exact ⟨.inr (.inr h), fun heq => absurd (heq.symm.trans h.choose_spec.1) (hlonger _ _)⟩

/-- The batch answers for each of its calls, from the labels of one entity. -/
def AnswersFrom (group : List HasLabelCall) (entity : EntityT) : Prop :=
  ∀ (self : HasLabelCall) (ctx : LabelsContext) (cache : LabelsCache),
    self.executeBatch ctx cache (group.map (·.getBatchableArguments)) = (ctx.get cache entity).1.map fun labels =>
      group.map fun c => self.executeWith c.getBatchableArguments labels ctx.now

/-- **Every batch is about one entity, and is answered from its labels, exactly if no two of the ready calls have
entities that the routing key confuses.** -/
theorem batches_about_one_entity_iff (calls : List HasLabelCall) :
    (∀ group ∈ enqueueBatches calls, ∃ entity, (∀ c ∈ group, c.arguments.entity = entity) ∧ AnswersFrom group entity) ↔
      ∀ c ∈ calls, ∀ c' ∈ calls, ¬Confused c.arguments.entity c'.arguments.entity := by
  constructor
  · intro h c hc c' hc' hconfused
    obtain ⟨hkey, hne⟩ := routingKey_eq_iff.mpr (.inl hconfused)
    have hmem : ∀ x ∈ [c, c'], x ∈ calls.filter (·.getBatchRoutingKey = c.getBatchRoutingKey) := by
      simp [hc, hc', HasLabelCall.getBatchRoutingKey, HasLabelCall.getBatchableArguments, hkey]
    have hnodup : [c, c'].Nodup := by
      refine List.nodup_cons.mpr ⟨fun h => hne ?_, List.nodup_singleton _⟩
      rw [List.mem_singleton.mp h]
    obtain ⟨entity, hentity, -⟩ := h _ (mem_enqueueBatches.mpr ⟨hnodup.length_le_of_subset hmem, _, rfl⟩)
    exact hne ((hentity c (hmem c (by simp))).trans (hentity c' (hmem c' (by simp))).symm)
  · intro h group hgroup
    obtain ⟨hlen, key, rfl⟩ := mem_enqueueBatches.mp hgroup
    generalize hcalls : calls.filter (·.getBatchRoutingKey = key) = group at hlen
    cases group with
    | nil => simp at hlen
    | cons first rest =>
      have hmem : ∀ c ∈ first :: rest, c ∈ calls ∧ c.getBatchRoutingKey = key := fun c hc => by
        rw [← hcalls] at hc
        simpa using hc
      have hfirst := hmem first List.mem_cons_self
      have hentity : ∀ c ∈ first :: rest, c.arguments.entity = first.arguments.entity := by
        intro c hc
        by_contra hne
        obtain ⟨hc, hkey⟩ := hmem c hc
        exact (routingKey_eq_iff.mp ⟨hkey.trans hfirst.2.symm, hne⟩).elim (h c hc first hfirst.1) (h first hfirst.1 c hc)
      refine ⟨first.arguments.entity, hentity, fun self ctx cache => ?_⟩
      rw [executeBatch_of_entity (List.forall_mem_map.mpr hentity) (by simp)]
      simp only [List.map_map, Function.comp_def]

/-- **Calls about different entities in one batch**: the user whose id is the number 1 and the one whose id is its
text, and a guild and an account that share their slashes. Every call of such a batch fails. -/
theorem unlike_entities_batched :
    let call (n : NodeId) (entity : EntityT) : HasLabelCall := ⟨n, { entity, label := "spammer" }, .added, rfl⟩
    let batch := [call 0 ⟨"User", .int 1⟩, call 1 ⟨"User", .str "1"⟩]
    let batch' := [call 0 ⟨"Guild", .str "Account/7"⟩, call 1 ⟨"Guild/Account", .str "7"⟩]
    enqueueBatches batch = [batch] ∧ enqueueBatches batch' = [batch'] ∧
      ∀ (self : HasLabelCall) (ctx : LabelsContext) (cache : LabelsCache), ∀ b ∈ [batch, batch'],
        self.executeBatch ctx cache (b.map (·.getBatchableArguments)) = .error ⟨.notImplementedError, ""⟩ := by
  refine ⟨rfl, rfl, fun self ctx cache b hb => ?_⟩
  rcases List.mem_pair.mp hb with rfl | rfl <;> rfl

end Osprey.HasLabel
