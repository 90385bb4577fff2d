/-
The message ack queue of the streaming pull (`message_ack_queue`): the ack
ids that are held for messages not yet settled, the timers for the renewal of
their leases, and the acks and nacks that wait to be sent, cut into chunks.

Ack ids from the server are of any type. The ids that the queue gives out are
numbers that it counts up; instants and durations are numbers too.
-/
import Mathlib.Algebra.GroupWithZero.Nat
import Mathlib.Algebra.Order.BigOperators.Group.List
import Mathlib.Algebra.Order.Group.Nat
import Osprey.Lib.Dict

namespace Osprey.StreamingPull

open Lib (Dict)

variable {α : Type}

inductive AckOrNack (α : Type)
  | ack (ackId : α)
  | nack (ackId : α)
  deriving DecidableEq

def AckOrNack.ackId : AckOrNack α → α
  | ack ackId | nack ackId => ackId

def AckOrNack.map {β : Type} (f : α → β) : AckOrNack α → AckOrNack β
  | ack ackId => .ack (f ackId)
  | nack ackId => .nack (f ackId)

@[simp] theorem AckOrNack.ackId_map {β : Type} (f : α → β) (a : AckOrNack α) : (a.map f).ackId = f a.ackId := by
  cases a <;> rfl

/-! ## The delay queue -/

structure Timer where
  ackId : Nat
  expiresAt : Nat

abbrev DelayQueue := Dict Nat Timer

/-- How a delay queue picks the key of a new timer: one that is not in use. -/
structure Slab where
  vacant : List Nat → Nat
  vacant_not_mem : ∀ keys, vacant keys ∉ keys

def Slab.insertAt (slab : Slab) (queue : DelayQueue) (ackId expiresAt : Nat) : Nat × DelayQueue :=
  let key := slab.vacant queue.keys
  (key, queue.set key ⟨ackId, expiresAt⟩)

/-! ## The queue -/

structure MessageAckQueueItem (α : Type) where
  ackIdFromServer : α
  leaseDelayQueueKey : Nat
  enqueuedAt : Nat

structure MessageAckQueue (α : Type) where
  maxChunkSize : Nat
  pendingAckFlushInterval : Nat
  nextFlush : Nat
  currentChunk : List (AckOrNack α) := []
  fullChunks : List (List (AckOrNack α)) := []
  ackIdMapping : Dict Nat (MessageAckQueueItem α) := Dict.empty
  lastAckId : Nat := 0
  leaseRenewalDelayQueue : DelayQueue := Dict.empty

namespace MessageAckQueue

def new (maxChunkSize pendingAckFlushInterval now : Nat) : MessageAckQueue α :=
  { maxChunkSize := maxChunkSize
    pendingAckFlushInterval := pendingAckFlushInterval
    nextFlush := now + pendingAckFlushInterval }

def len (q : MessageAckQueue α) : Nat := q.currentChunk.length + q.fullChunks.length * q.maxChunkSize

def isEmpty (q : MessageAckQueue α) : Bool := q.currentChunk.isEmpty && q.fullChunks.isEmpty

def transformAndStoreAckId (slab : Slab) (q : MessageAckQueue α) (ackIdFromServer : α)
    (receivedAt leaseRenewAt : Nat) :
    Nat × MessageAckQueue α :=
  let nextAckId := q.lastAckId + 1
  let (key, delayQueue) := slab.insertAt q.leaseRenewalDelayQueue nextAckId leaseRenewAt
  (nextAckId,
    { q with
      lastAckId := nextAckId
      leaseRenewalDelayQueue := delayQueue
      ackIdMapping := q.ackIdMapping.set nextAckId ⟨ackIdFromServer, key, receivedAt⟩ })

def removeAckId (q : MessageAckQueue α) (ackId : Nat) : Option α × MessageAckQueue α :=
  match q.ackIdMapping.get? ackId with
  | none => (none, q)
  | some item =>
    (some item.ackIdFromServer,
      { q with
        ackIdMapping := q.ackIdMapping.erase ackId
        leaseRenewalDelayQueue := q.leaseRenewalDelayQueue.erase item.leaseDelayQueueKey })

def removeAckOrNack (q : MessageAckQueue α) (ackOrNack : AckOrNack Nat) :
    Option (AckOrNack α) × MessageAckQueue α :=
  let (ackIdFromServer, q) := q.removeAckId ackOrNack.ackId
  (ackIdFromServer.map fun a => ackOrNack.map fun _ => a, q)

def resetNextFlush (now : Nat) (q : MessageAckQueue α) : MessageAckQueue α :=
  { q with nextFlush := now + q.pendingAckFlushInterval }

/-- The end of `enqueue_ack_or_nack`: a chunk that is full goes to the full ones. -/
def pushAckOrNack (q : MessageAckQueue α) (ackOrNack : AckOrNack α) : MessageAckQueue α :=
  let currentChunk := q.currentChunk ++ [ackOrNack]
  if currentChunk.length = q.maxChunkSize then
    { q with currentChunk := [], fullChunks := q.fullChunks ++ [currentChunk] }
  else { q with currentChunk := currentChunk }

def enqueueAckOrNack (now : Nat) (q : MessageAckQueue α) (ackOrNack : AckOrNack Nat) : MessageAckQueue α :=
  match q.removeAckOrNack ackOrNack with
  | (none, q) => q
  | (some ackOrNack, q) => (if q.isEmpty then q.resetNextFlush now else q).pushAckOrNack ackOrNack

/-- `next_chunk`, polled at an instant: nothing while it is pending. -/
def nextChunk (now : Nat) (q : MessageAckQueue α) : Option (List (AckOrNack α)) × MessageAckQueue α :=
  if q.isEmpty then (none, q)
  else
    match q.fullChunks with
    | chunk :: chunks => (some chunk, { q with fullChunks := chunks })
    | [] => if now < q.nextFlush then (none, q) else (some q.currentChunk, { q with currentChunk := [] })

/-- One `poll_expired` that is ready: the timer that it gives, and the draw for its next expiry. -/
structure Poll where
  key : Nat
  draw : Nat

/-- `rng.gen_range((max / 2)..max)`. -/
def genRange (maxDelay draw : Nat) : Nat := maxDelay / 2 + draw % (maxDelay - maxDelay / 2)

/-- `collect_ack_ids_that_need_to_be_renewed`, on what the delay queue gives until it is pending. A timer of an
id that is not mapped is dropped. -/
def collectAckIdsThatNeedToBeRenewed (slab : Slab) (now maxLeaseRenewalDelay : Nat) :
    Nat → List Poll → MessageAckQueue α → List (Nat × α) × MessageAckQueue α
  | 0, _, q => ([], q)
  | _, [], q => ([], q)
  | room + 1, poll :: polls, q =>
    match q.leaseRenewalDelayQueue.get? poll.key with
    | none => ([], q)
    | some timer =>
      if now < timer.expiresAt then ([], q)
      else
        let delayQueue := q.leaseRenewalDelayQueue.erase poll.key
        match q.ackIdMapping.get? timer.ackId with
        | none =>
          collectAckIdsThatNeedToBeRenewed slab now maxLeaseRenewalDelay (room + 1) polls
            { q with leaseRenewalDelayQueue := delayQueue }
        | some item =>
          let (key, delayQueue) :=
            slab.insertAt delayQueue timer.ackId (now + genRange maxLeaseRenewalDelay poll.draw)
          let (renewed, q') := collectAckIdsThatNeedToBeRenewed slab now maxLeaseRenewalDelay room polls
            { q with
              leaseRenewalDelayQueue := delayQueue
              ackIdMapping := q.ackIdMapping.set timer.ackId { item with leaseDelayQueueKey := key } }
          ((now - item.enqueuedAt, item.ackIdFromServer) :: renewed, q')

/-! ## What the queue holds -/

def held (q : MessageAckQueue α) : List α := q.ackIdMapping.values.map (·.ackIdFromServer)

/-- The acks and nacks that wait, the oldest first. -/
def pending (q : MessageAckQueue α) : List (AckOrNack α) := q.fullChunks.flatten ++ q.currentChunk

/-- The chunks have their sizes, ids count up, and the timers are those of the mapped ids. -/
structure WellFormed (q : MessageAckQueue α) : Prop where
  positive : 1 ≤ q.maxChunkSize
  full : ∀ chunk ∈ q.fullChunks, chunk.length = q.maxChunkSize
  current : q.currentChunk.length < q.maxChunkSize
  counted : ∀ ackId, (q.ackIdMapping.get? ackId).isSome → ackId ≤ q.lastAckId
  leased : ∀ ackId item, q.ackIdMapping.get? ackId = some item →
    ∃ timer, q.leaseRenewalDelayQueue.get? item.leaseDelayQueueKey = some timer ∧ timer.ackId = ackId
  mapped : ∀ key timer, q.leaseRenewalDelayQueue.get? key = some timer →
    ∃ item, q.ackIdMapping.get? timer.ackId = some item ∧ item.leaseDelayQueueKey = key

section

variable {q : MessageAckQueue α}

theorem wellFormed_new {maxChunkSize} (h : 1 ≤ maxChunkSize) (interval now : Nat) :
    (new maxChunkSize interval now : MessageAckQueue α).WellFormed :=
  ⟨h, fun _ hmem => (by cases hmem), h, fun _ hmem => (by cases hmem), fun _ _ hget => (by cases hget),
    fun _ _ hget => (by cases hget)⟩

theorem isEmpty_iff : q.isEmpty ↔ q.currentChunk = [] ∧ q.fullChunks = [] := by
  simp [isEmpty]

theorem WellFormed.pending_eq_nil_iff (h : q.WellFormed) : q.pending = [] ↔ q.isEmpty := by
  rw [isEmpty_iff, pending, List.append_eq_nil_iff, and_comm]
  refine and_congr_right fun _ => ⟨fun hflatten => ?_, fun hnil => by simp [hnil]⟩
  cases hfull : q.fullChunks with
  | nil => rfl
  | cons chunk chunks =>
    have hlength := h.full chunk (by simp [hfull])
    have hpositive := h.positive
    rw [hfull, List.flatten_cons, List.append_eq_nil_iff] at hflatten
    rw [hflatten.1] at hlength
    simp only [List.length_nil] at hlength
    omega

theorem WellFormed.len_eq (h : q.WellFormed) : q.len = q.pending.length := by
  have hflatten : ∀ chunks : List (List (AckOrNack α)), (∀ chunk ∈ chunks, chunk.length = q.maxChunkSize) →
      chunks.flatten.length = chunks.length * q.maxChunkSize := by
    intro chunks
    induction chunks with
    | nil => simp
    | cons chunk chunks ih =>
      intro hall
      rw [List.flatten_cons, List.length_append, ih fun c hc => hall c (by simp [hc]), hall chunk (by simp),
        List.length_cons, Nat.succ_mul, Nat.add_comm]
  rw [len, pending, List.length_append, hflatten q.fullChunks h.full, Nat.add_comm]

theorem WellFormed.key_unique (h : q.WellFormed) {key key' timer timer'}
    (htimer : q.leaseRenewalDelayQueue.get? key = some timer)
    (htimer' : q.leaseRenewalDelayQueue.get? key' = some timer') (hid : timer'.ackId = timer.ackId) : key' = key := by
  obtain ⟨item, hitem, hkey⟩ := h.mapped key timer htimer
  obtain ⟨item', hitem', hkey'⟩ := h.mapped key' timer' htimer'
  rw [hid, hitem] at hitem'
  cases hitem'
  exact hkey'.symm.trans hkey

theorem WellFormed.timers (h : q.WellFormed) :
    (q.leaseRenewalDelayQueue.values.map (·.ackId)).Perm q.ackIdMapping.keys := by
  have hnodup : (q.leaseRenewalDelayQueue.values.map (·.ackId)).Nodup := by
    rw [Dict.values, List.map_map]
    refine List.Nodup.map_on (fun e he e' he' heq => ?_) q.leaseRenewalDelayQueue.nodup_entries
    have hget := Dict.get?_eq_some_iff.2 he
    have hget' := Dict.get?_eq_some_iff.2 he'
    have hkeys : e.1 = e'.1 := h.key_unique hget' hget heq
    rw [hkeys, hget'] at hget
    exact Prod.ext hkeys (Option.some.inj hget).symm
  refine (List.perm_ext_iff_of_nodup hnodup q.ackIdMapping.nodup_keys).2 fun ackId => ?_
  rw [Dict.mem_keys]
  constructor
  · intro hmem
    obtain ⟨timer, htimer, rfl⟩ := List.mem_map.1 hmem
    obtain ⟨e, he, rfl⟩ := List.mem_map.1 htimer
    obtain ⟨item, hitem, -⟩ := h.mapped _ _ (Dict.get?_eq_some_iff.2 he)
    exact ⟨item, hitem⟩
  · rintro ⟨item, hitem⟩
    obtain ⟨timer, htimer, rfl⟩ := h.leased ackId item hitem
    exact List.mem_map_of_mem (List.mem_map_of_mem (Dict.get?_eq_some_iff.1 htimer))

/-! ## The operations -/

theorem perm_held_set {mapping : Dict Nat (MessageAckQueueItem α)} {ackId item} :
    ((mapping.set ackId item).values.map (·.ackIdFromServer)).Perm
      (item.ackIdFromServer :: (mapping.erase ackId).values.map (·.ackIdFromServer)) :=
  ((mapping.perm_set ackId item).map Prod.snd).map _

theorem perm_held_erase {mapping : Dict Nat (MessageAckQueueItem α)} {ackId item}
    (hget : mapping.get? ackId = some item) :
    (mapping.values.map (·.ackIdFromServer)).Perm
      (item.ackIdFromServer :: (mapping.erase ackId).values.map (·.ackIdFromServer)) :=
  ((Dict.perm_cons_erase hget).map Prod.snd).map _

theorem WellFormed.get?_nextAckId (h : q.WellFormed) : q.ackIdMapping.get? (q.lastAckId + 1) = none := by
  by_contra hsome
  have := h.counted _ (Option.isSome_iff_ne_none.2 hsome)
  omega

theorem get?_vacant (slab : Slab) (queue : DelayQueue) : queue.get? (slab.vacant queue.keys) = none := by
  by_contra hsome
  exact slab.vacant_not_mem _ (Dict.isSome_get?.1 (Option.isSome_iff_ne_none.2 hsome))

section Store

variable (slab : Slab) (ackIdFromServer : α) (receivedAt leaseRenewAt : Nat)

theorem WellFormed.store (h : q.WellFormed) :
    (q.transformAndStoreAckId slab ackIdFromServer receivedAt leaseRenewAt).2.WellFormed := by
  refine { h with
    counted := fun ackId hsome => ?_
    leased := fun ackId item hitem => ?_
    mapped := fun key timer htimer => ?_ }
  · obtain ⟨item, hitem⟩ := Option.isSome_iff_exists.1 hsome
    rcases Dict.of_get?_set hitem with ⟨rfl, -⟩ | ⟨-, hitem⟩
    · exact Nat.le_refl _
    · exact Nat.le_succ_of_le (h.counted ackId (Option.isSome_of_eq_some hitem))
  · rcases Dict.of_get?_set hitem with ⟨rfl, rfl⟩ | ⟨-, hitem⟩
    · exact ⟨_, Dict.get?_set_self _ _ _, rfl⟩
    · obtain ⟨timer, htimer, hid⟩ := h.leased ackId item hitem
      exact ⟨timer, Dict.get?_set_of_new (get?_vacant slab _) htimer, hid⟩
  · rcases Dict.of_get?_set htimer with ⟨rfl, rfl⟩ | ⟨-, htimer⟩
    · exact ⟨_, Dict.get?_set_self _ _ _, rfl⟩
    · obtain ⟨item, hitem, hkey⟩ := h.mapped key timer htimer
      exact ⟨item, Dict.get?_set_of_new h.get?_nextAckId hitem, hkey⟩

theorem WellFormed.held_store (h : q.WellFormed) :
    (q.transformAndStoreAckId slab ackIdFromServer receivedAt leaseRenewAt).2.held.Perm
      (ackIdFromServer :: q.held) := by
  refine perm_held_set.trans ?_
  rw [Dict.erase_of_none h.get?_nextAckId]
  rfl

end Store

theorem removeAckId_cases (q : MessageAckQueue α) (ackId : Nat) :
    (q.ackIdMapping.get? ackId = none ∧ q.removeAckId ackId = (none, q)) ∨
      ∃ item, q.ackIdMapping.get? ackId = some item ∧
        q.removeAckId ackId = (some item.ackIdFromServer,
          { q with
            ackIdMapping := q.ackIdMapping.erase ackId
            leaseRenewalDelayQueue := q.leaseRenewalDelayQueue.erase item.leaseDelayQueueKey }) := by
  rw [removeAckId]
  cases hget : q.ackIdMapping.get? ackId with
  | none => exact .inl ⟨rfl, rfl⟩
  | some item => exact .inr ⟨item, rfl, rfl⟩

theorem WellFormed.remove (h : q.WellFormed) (ackId : Nat) : (q.removeAckId ackId).2.WellFormed := by
  rcases q.removeAckId_cases ackId with ⟨-, hremove⟩ | ⟨item, hitem, hremove⟩
  · rw [hremove]
    exact h
  · rw [hremove]
    obtain ⟨timer₀, htimer₀, hid₀⟩ := h.leased ackId item hitem
    refine { h with
      counted := fun ackId' hsome => ?_
      leased := fun ackId' item' hitem' => ?_
      mapped := fun key timer htimer => ?_ }
    · obtain ⟨item', hitem'⟩ := Option.isSome_iff_exists.1 hsome
      exact h.counted ackId' (Option.isSome_of_eq_some (Dict.of_get?_erase hitem').2)
    · obtain ⟨hne, hitem'⟩ := Dict.of_get?_erase hitem'
      obtain ⟨timer, htimer, hid⟩ := h.leased ackId' item' hitem'
      refine ⟨timer, (Dict.get?_erase_of_ne fun heq => ?_).trans htimer, hid⟩
      rw [heq, htimer₀] at htimer
      cases htimer
      exact hne (hid.symm.trans hid₀)
    · obtain ⟨hne, htimer⟩ := Dict.of_get?_erase htimer
      obtain ⟨item', hitem', hkey⟩ := h.mapped key timer htimer
      refine ⟨item', (Dict.get?_erase_of_ne fun heq => hne ?_).trans hitem', hkey⟩
      exact h.key_unique htimer₀ htimer (heq.trans hid₀.symm)

variable (q)

theorem held_remove (ackId : Nat) : q.held.Perm ((q.removeAckId ackId).1.toList ++ (q.removeAckId ackId).2.held) := by
  rcases q.removeAckId_cases ackId with ⟨-, hremove⟩ | ⟨item, hitem, hremove⟩
  · rw [hremove]
    exact .refl _
  · rw [hremove]
    exact perm_held_erase hitem

@[simp] theorem pending_remove (ackId : Nat) : (q.removeAckId ackId).2.pending = q.pending := by
  rcases q.removeAckId_cases ackId with ⟨-, hremove⟩ | ⟨item, -, hremove⟩
  · rw [hremove]
  · rw [hremove]
    rfl

variable (ackOrNack : AckOrNack α)

theorem pending_push : (q.pushAckOrNack ackOrNack).pending = q.pending ++ [ackOrNack] := by
  rw [pushAckOrNack]
  split <;> simp [pending]

theorem held_push : (q.pushAckOrNack ackOrNack).held = q.held := by
  rw [pushAckOrNack]
  split <;> rfl

theorem nextFlush_push : (q.pushAckOrNack ackOrNack).nextFlush = q.nextFlush := by
  rw [pushAckOrNack]
  split <;> rfl

variable {q}

theorem WellFormed.push (h : q.WellFormed) (ackOrNack : AckOrNack α) : (q.pushAckOrNack ackOrNack).WellFormed := by
  rw [pushAckOrNack]
  split
  · next hlength =>
    refine { h with full := fun chunk hmem => ?_, current := h.positive }
    rcases List.mem_append.1 hmem with hmem | hmem
    · exact h.full chunk hmem
    · rw [List.mem_singleton.1 hmem]
      exact hlength
  · next hlength =>
    refine ⟨h.positive, h.full, ?_, h.counted, h.leased, h.mapped⟩
    have hcurrent := h.current
    change (q.currentChunk ++ [ackOrNack]).length < q.maxChunkSize
    rw [List.length_append, List.length_singleton] at hlength ⊢
    omega

theorem WellFormed.resetNextFlush (h : q.WellFormed) (now : Nat) : (q.resetNextFlush now).WellFormed :=
  { h with }

def beforePush (now : Nat) (q : MessageAckQueue α) : MessageAckQueue α :=
  if q.isEmpty then q.resetNextFlush now else q

theorem enqueueAckOrNack_cases (now : Nat) (q : MessageAckQueue α) (ackOrNack : AckOrNack Nat) :
    (q.ackIdMapping.get? ackOrNack.ackId = none ∧ q.enqueueAckOrNack now ackOrNack = q) ∨
      ∃ item, q.ackIdMapping.get? ackOrNack.ackId = some item ∧
        q.enqueueAckOrNack now ackOrNack =
          (beforePush now (q.removeAckId ackOrNack.ackId).2).pushAckOrNack
            (ackOrNack.map fun _ => item.ackIdFromServer) := by
  rcases q.removeAckId_cases ackOrNack.ackId with ⟨hnone, hremove⟩ | ⟨item, hitem, hremove⟩
  · refine .inl ⟨hnone, ?_⟩
    simp [enqueueAckOrNack, removeAckOrNack, hremove]
  · refine .inr ⟨item, hitem, ?_⟩
    simp [enqueueAckOrNack, removeAckOrNack, hremove, beforePush]

theorem enqueueAckOrNack_of_mapped (now : Nat) {ackOrNack item}
    (hitem : q.ackIdMapping.get? ackOrNack.ackId = some item) :
    q.enqueueAckOrNack now ackOrNack =
      (beforePush now { q with
        ackIdMapping := q.ackIdMapping.erase ackOrNack.ackId
        leaseRenewalDelayQueue := q.leaseRenewalDelayQueue.erase item.leaseDelayQueueKey }).pushAckOrNack
        (ackOrNack.map fun _ => item.ackIdFromServer) := by
  rw [enqueueAckOrNack, removeAckOrNack, removeAckId, hitem]
  rfl

theorem pending_beforePush (now : Nat) (q : MessageAckQueue α) : (beforePush now q).pending = q.pending := by
  rw [beforePush]
  split <;> rfl

theorem pending_enqueue (now : Nat) {ackOrNack item} (hitem : q.ackIdMapping.get? ackOrNack.ackId = some item) :
    (q.enqueueAckOrNack now ackOrNack).pending = q.pending ++ [ackOrNack.map fun _ => item.ackIdFromServer] := by
  rw [enqueueAckOrNack_of_mapped now hitem, pending_push, pending_beforePush]
  rfl

theorem held_beforePush (now : Nat) (q : MessageAckQueue α) : (beforePush now q).held = q.held := by
  rw [beforePush]
  split <;> rfl

theorem WellFormed.beforePush (h : q.WellFormed) (now : Nat) : (beforePush now q).WellFormed := by
  rw [MessageAckQueue.beforePush]
  split
  · exact h.resetNextFlush now
  · exact h

theorem WellFormed.enqueue (h : q.WellFormed) (now : Nat) (ackOrNack : AckOrNack Nat) :
    (q.enqueueAckOrNack now ackOrNack).WellFormed := by
  rcases enqueueAckOrNack_cases now q ackOrNack with ⟨-, henqueue⟩ | ⟨item, -, henqueue⟩
  · rw [henqueue]
    exact h
  · rw [henqueue]
    exact ((h.remove _).beforePush now).push _

theorem WellFormed.nextChunk_cases (h : q.WellFormed) (now : Nat) :
    q.nextChunk now = (none, q) ∨
      ∃ chunk q', q.nextChunk now = (some chunk, q') ∧ chunk ≠ [] ∧ q.pending = chunk ++ q'.pending ∧
        q'.held = q.held ∧ q'.nextFlush = q.nextFlush ∧ q'.WellFormed ∧ q'.ackIdMapping = q.ackIdMapping ∧
        q'.maxChunkSize = q.maxChunkSize ∧ q'.pendingAckFlushInterval = q.pendingAckFlushInterval := by
  rw [nextChunk]
  split
  · exact .inl rfl
  · next hempty =>
    rw [isEmpty_iff] at hempty
    cases hfull : q.fullChunks with
    | cons chunk chunks =>
      refine .inr ⟨chunk, _, rfl, ?_, ?_, rfl, rfl, ?_, rfl, rfl, rfl⟩
      · have hlength := h.full chunk (by simp [hfull])
        have hpositive := h.positive
        rintro rfl
        simp only [List.length_nil] at hlength
        omega
      · simp [pending, hfull]
      · exact { h with full := fun c hc => h.full c (by simp [hfull, hc]) }
    | nil =>
      simp only
      split
      · exact .inl rfl
      · refine .inr ⟨q.currentChunk, _, rfl, fun hcurrent => hempty ⟨hcurrent, hfull⟩, ?_, rfl, rfl, ?_,
          rfl, rfl, rfl⟩
        · simp [pending, hfull]
        · exact { h with full := fun _ hmem => (by cases hmem), current := h.positive }

section Collect

variable (slab : Slab) (now maxLeaseRenewalDelay : Nat)

def renewed (q : MessageAckQueue α) (key : Nat) (timer : Timer) (item : MessageAckQueueItem α) (expiresAt : Nat) :
    MessageAckQueue α :=
  let delayQueue := q.leaseRenewalDelayQueue.erase key
  { q with
    leaseRenewalDelayQueue := (slab.insertAt delayQueue timer.ackId expiresAt).2
    ackIdMapping := q.ackIdMapping.set timer.ackId
      { item with leaseDelayQueueKey := (slab.insertAt delayQueue timer.ackId expiresAt).1 } }

variable {key : Nat} {timer : Timer} {item : MessageAckQueueItem α}

theorem WellFormed.renewed (h : q.WellFormed) (htimer : q.leaseRenewalDelayQueue.get? key = some timer)
    (hitem : q.ackIdMapping.get? timer.ackId = some item) (expiresAt : Nat) :
    (q.renewed slab key timer item expiresAt).WellFormed := by
  refine { h with
    counted := fun ackId hsome => ?_
    leased := fun ackId item' hitem' => ?_
    mapped := fun key' timer' htimer' => ?_ }
  · obtain ⟨item', hitem'⟩ := Option.isSome_iff_exists.1 hsome
    rcases Dict.of_get?_set hitem' with ⟨rfl, -⟩ | ⟨-, hitem'⟩
    · exact h.counted _ (Option.isSome_of_eq_some hitem)
    · exact h.counted _ (Option.isSome_of_eq_some hitem')
  · rcases Dict.of_get?_set hitem' with ⟨rfl, rfl⟩ | ⟨hne, hitem'⟩
    · exact ⟨_, Dict.get?_set_self _ _ _, rfl⟩
    · obtain ⟨t, ht, hid⟩ := h.leased ackId item' hitem'
      refine ⟨t, Dict.get?_set_of_new (get?_vacant slab _) ((Dict.get?_erase_of_ne fun heq => ?_).trans ht), hid⟩
      rw [heq, htimer] at ht
      cases ht
      exact hne hid.symm
  · rcases Dict.of_get?_set htimer' with ⟨rfl, rfl⟩ | ⟨-, htimer'⟩
    · exact ⟨_, Dict.get?_set_self _ _ _, rfl⟩
    · obtain ⟨hne, htimer'⟩ := Dict.of_get?_erase htimer'
      obtain ⟨item', hitem', hkey'⟩ := h.mapped key' timer' htimer'
      -- The key of the renewed id is the one that has expired.
      have hid : timer'.ackId ≠ timer.ackId := fun heq => hne (h.key_unique htimer htimer' heq)
      exact ⟨item', (Dict.get?_set_other _ _ hid).trans hitem', hkey'⟩

theorem held_renewed (hitem : q.ackIdMapping.get? timer.ackId = some item) (expiresAt : Nat) :
    (q.renewed slab key timer item expiresAt).held.Perm q.held :=
  perm_held_set.trans (perm_held_erase hitem).symm

/-- The part of a queue that a renewal of leases does not touch. -/
structure SameAcks (q q' : MessageAckQueue α) : Prop where
  held : q'.held.Perm q.held
  pending : q'.pending = q.pending
  nextFlush : q'.nextFlush = q.nextFlush
  interval : q'.pendingAckFlushInterval = q.pendingAckFlushInterval
  lastAckId : q'.lastAckId = q.lastAckId
  mapping : ∀ ackId, (q'.ackIdMapping.get? ackId).map (·.ackIdFromServer) =
    (q.ackIdMapping.get? ackId).map (·.ackIdFromServer)

theorem SameAcks.refl (q : MessageAckQueue α) : SameAcks q q := ⟨.refl _, rfl, rfl, rfl, rfl, fun _ => rfl⟩

theorem SameAcks.trans {q₁ q₂ q₃ : MessageAckQueue α} (h : SameAcks q₁ q₂) (h' : SameAcks q₂ q₃) : SameAcks q₁ q₃ :=
  ⟨h'.held.trans h.held, h'.pending.trans h.pending, h'.nextFlush.trans h.nextFlush, h'.interval.trans h.interval,
    h'.lastAckId.trans h.lastAckId, fun ackId => (h'.mapping ackId).trans (h.mapping ackId)⟩

theorem sameAcks_renewed (hitem : q.ackIdMapping.get? timer.ackId = some item) (expiresAt : Nat) :
    SameAcks q (q.renewed slab key timer item expiresAt) := by
  refine ⟨held_renewed slab hitem expiresAt, rfl, rfl, rfl, rfl, fun ackId => ?_⟩
  change ((q.ackIdMapping.set timer.ackId _).get? ackId).map _ = _
  rw [Dict.get?_set]
  split
  · next heq => rw [heq, hitem]; rfl
  · rfl

theorem WellFormed.collect : ∀ (polls : List Poll) (room : Nat) {q : MessageAckQueue α}, q.WellFormed →
    (q.collectAckIdsThatNeedToBeRenewed slab now maxLeaseRenewalDelay room polls).2.WellFormed ∧
      SameAcks q (q.collectAckIdsThatNeedToBeRenewed slab now maxLeaseRenewalDelay room polls).2
  | [], room, q, h => by
    cases room <;> exact ⟨h, .refl q⟩
  | poll :: polls, 0, q, h => ⟨h, .refl q⟩
  | poll :: polls, room + 1, q, h => by
    rw [collectAckIdsThatNeedToBeRenewed]
    split
    · exact ⟨h, .refl q⟩
    · next timer htimer =>
      split
      · exact ⟨h, .refl q⟩
      · obtain ⟨item, hitem, -⟩ := h.mapped poll.key timer htimer
        simp only [hitem]
        set expiresAt := now + genRange maxLeaseRenewalDelay poll.draw
        have hrenewed := h.renewed slab htimer hitem expiresAt
        obtain ⟨hwell, hsame⟩ := WellFormed.collect polls room hrenewed
        exact ⟨hwell, (sameAcks_renewed slab hitem expiresAt).trans hsame⟩

end Collect

end

end MessageAckQueue

/-! ## Runs -/

namespace AckQueue

/-- The queue and the clock, with what has become of the ids: those stored, those dispensed, chunk by chunk,
those removed, and when the acks and nacks that wait were enqueued, the oldest first. -/
structure State (α : Type) where
  queue : MessageAckQueue α
  now : Nat
  stored : List α := []
  dispensed : List (List (AckOrNack α)) := []
  removed : List α := []
  enqueueTimes : List Nat := []

def State.start (maxChunkSize pendingAckFlushInterval now : Nat) : State α :=
  { queue := .new maxChunkSize pendingAckFlushInterval now, now := now }

inductive Label (α : Type)
  | pass (duration : Nat)
  | store (ackIdFromServer : α) (receivedAt leaseRenewAt : Nat)
  | enqueue (ackOrNack : AckOrNack Nat)
  | remove (ackId : Nat)
  | collect (maxChunkSize maxLeaseRenewalDelay : Nat) (polls : List MessageAckQueue.Poll)
  | nextChunk

def State.step (slab : Slab) (s : State α) : Label α → State α
  | .pass duration => { s with now := s.now + duration }
  | .store ackIdFromServer receivedAt leaseRenewAt =>
    { s with
      queue := (s.queue.transformAndStoreAckId slab ackIdFromServer receivedAt leaseRenewAt).2
      stored := ackIdFromServer :: s.stored }
  | .enqueue ackOrNack =>
    { s with
      queue := s.queue.enqueueAckOrNack s.now ackOrNack
      enqueueTimes :=
        if (s.queue.ackIdMapping.get? ackOrNack.ackId).isSome then s.enqueueTimes ++ [s.now] else s.enqueueTimes }
  | .remove ackId =>
    let (removed, queue) := s.queue.removeAckId ackId
    { s with queue := queue, removed := removed.toList ++ s.removed }
  | .collect maxChunkSize maxLeaseRenewalDelay polls =>
    { s with
      queue :=
        (s.queue.collectAckIdsThatNeedToBeRenewed slab s.now maxLeaseRenewalDelay maxChunkSize polls).2 }
  | .nextChunk =>
    match s.queue.nextChunk s.now with
    | (none, queue) => { s with queue := queue }
    | (some chunk, queue) =>
      { s with
        queue := queue
        dispensed := s.dispensed ++ [chunk]
        enqueueTimes := s.enqueueTimes.drop chunk.length }

/-- Every stored id is in one place: held, waiting, dispensed or removed. -/
def Partition (s : State α) : Prop :=
  s.stored.Perm (s.queue.held ++ s.queue.pending.map (·.ackId) ++ s.dispensed.flatten.map (·.ackId) ++ s.removed)

/-- The next flush is no later than the flush interval after any ack or nack that waits was enqueued. -/
structure Flushes (s : State α) : Prop where
  length : s.enqueueTimes.length = s.queue.pending.length
  nextFlush : ∀ time ∈ s.enqueueTimes, s.queue.nextFlush ≤ time + s.queue.pendingAckFlushInterval

structure Inv (s : State α) : Prop where
  wellFormed : s.queue.WellFormed
  partition : Partition s
  nonempty : ∀ chunk ∈ s.dispensed, chunk ≠ []
  flushes : Flushes s
  past : ∀ time ∈ s.enqueueTimes, time ≤ s.now

variable {slab : Slab} {s : State α}

theorem Inv.store (h : Inv s) (ackIdFromServer : α) (receivedAt leaseRenewAt : Nat) :
    Inv (s.step slab (.store ackIdFromServer receivedAt leaseRenewAt)) := by
  refine ⟨h.wellFormed.store slab _ _ _, ?_, h.nonempty, ⟨h.flushes.length, h.flushes.nextFlush⟩, h.past⟩
  have hheld := h.wellFormed.held_store slab ackIdFromServer receivedAt leaseRenewAt
  exact (h.partition.cons ackIdFromServer).trans
    ((hheld.symm.append_right _).append_right _ |>.append_right _)

theorem Inv.remove (h : Inv s) (ackId : Nat) : Inv (s.step slab (.remove ackId)) := by
  have hheld := s.queue.held_remove ackId
  have hpending := s.queue.pending_remove ackId
  refine ⟨h.wellFormed.remove ackId, ?_, h.nonempty, ⟨?_, ?_⟩, h.past⟩
  · change s.stored.Perm ((s.queue.removeAckId ackId).2.held ++ (s.queue.removeAckId ackId).2.pending.map _ ++ _ ++
      ((s.queue.removeAckId ackId).1.toList ++ s.removed))
    rw [hpending]
    refine h.partition.trans (((hheld.append_right _).append_right _ |>.append_right _).trans ?_)
    simp only [List.append_assoc]
    refine List.perm_append_comm.trans ?_
    simp only [List.append_assoc]
    exact (List.perm_append_comm.append_left _).append_left _ |>.append_left _
  · exact h.flushes.length.trans (congrArg List.length hpending.symm)
  · change ∀ time ∈ s.enqueueTimes, (s.queue.removeAckId ackId).2.nextFlush ≤
      time + (s.queue.removeAckId ackId).2.pendingAckFlushInterval
    rcases s.queue.removeAckId_cases ackId with ⟨-, hremove⟩ | ⟨item, -, hremove⟩
    · rw [hremove]
      exact h.flushes.nextFlush
    · rw [hremove]
      exact h.flushes.nextFlush

/-- The deadline when an ack or nack is put to what waits: a new one if nothing does. -/
theorem nextFlush_enqueue {ackOrNack item} (hitem : s.queue.ackIdMapping.get? ackOrNack.ackId = some item) :
    (s.queue.enqueueAckOrNack s.now ackOrNack).nextFlush =
      (if s.queue.isEmpty then s.now + s.queue.pendingAckFlushInterval else s.queue.nextFlush) ∧
    (s.queue.enqueueAckOrNack s.now ackOrNack).pendingAckFlushInterval = s.queue.pendingAckFlushInterval := by
  rw [MessageAckQueue.enqueueAckOrNack_of_mapped s.now hitem, MessageAckQueue.nextFlush_push,
    MessageAckQueue.pushAckOrNack, MessageAckQueue.beforePush]
  have hempty : ({ s.queue with
      ackIdMapping := s.queue.ackIdMapping.erase ackOrNack.ackId
      leaseRenewalDelayQueue := s.queue.leaseRenewalDelayQueue.erase item.leaseDelayQueueKey } :
      MessageAckQueue α).isEmpty = s.queue.isEmpty := rfl
  rw [hempty]
  split <;> constructor <;> (try split) <;> rfl

theorem Inv.enqueue (h : Inv s) (ackOrNack : AckOrNack Nat) : Inv (s.step slab (.enqueue ackOrNack)) := by
  cases hitem : s.queue.ackIdMapping.get? ackOrNack.ackId with
  | none =>
    have hstep : s.step slab (.enqueue ackOrNack) = s := by
      rw [State.step, MessageAckQueue.enqueueAckOrNack, MessageAckQueue.removeAckOrNack, MessageAckQueue.removeAckId,
        hitem]
      rfl
    rw [hstep]
    exact h
  | some item =>
    obtain ⟨hnext, hinterval⟩ := nextFlush_enqueue hitem
    have hpending := MessageAckQueue.pending_enqueue s.now hitem
    have hheld : s.queue.held.Perm (item.ackIdFromServer :: (s.queue.enqueueAckOrNack s.now ackOrNack).held) := by
      rw [MessageAckQueue.enqueueAckOrNack_of_mapped s.now hitem, MessageAckQueue.held_push,
        MessageAckQueue.held_beforePush]
      exact MessageAckQueue.perm_held_erase hitem
    have hstep : s.step slab (.enqueue ackOrNack) =
        { s with
          queue := s.queue.enqueueAckOrNack s.now ackOrNack
          enqueueTimes := s.enqueueTimes ++ [s.now] } := by
      rw [State.step, hitem]
      rfl
    rw [hstep]
    refine ⟨h.wellFormed.enqueue s.now ackOrNack, ?_, h.nonempty, ⟨?_, fun time htime => ?_⟩,
      List.forall_mem_append.2 ⟨h.past, List.forall_mem_singleton.2 (Nat.le_refl _)⟩⟩
    · change s.stored.Perm ((s.queue.enqueueAckOrNack s.now ackOrNack).held ++
        (s.queue.enqueueAckOrNack s.now ackOrNack).pending.map _ ++ _ ++ _)
      rw [hpending, List.map_append, List.map_singleton, AckOrNack.ackId_map]
      refine h.partition.trans ((((hheld.append_right _).trans ?_).append_right _).append_right _)
      rw [List.cons_append, ← List.append_assoc]
      exact (List.perm_append_singleton _ _).symm
    · rw [hpending]
      simp [h.flushes.length]
    · change (s.queue.enqueueAckOrNack s.now ackOrNack).nextFlush ≤ time +
        (s.queue.enqueueAckOrNack s.now ackOrNack).pendingAckFlushInterval
      rw [hnext, hinterval]
      have hlength := h.flushes.length
      split
      · next hempty =>
        rw [← h.wellFormed.pending_eq_nil_iff] at hempty
        rw [hempty, List.length_nil, List.length_eq_zero_iff] at hlength
        rw [hlength] at htime
        exact Nat.le_of_eq (by rw [List.mem_singleton.1 htime])
      · next hempty =>
        rcases List.mem_append.1 htime with htime | htime
        · exact h.flushes.nextFlush time htime
        · -- Something waits already, and it was enqueued no later than now.
          rw [← h.wellFormed.pending_eq_nil_iff] at hempty
          have hne : s.enqueueTimes ≠ [] := fun hnil => by
            rw [hnil, List.length_nil] at hlength
            exact hempty (List.length_eq_zero_iff.1 hlength.symm)
          obtain ⟨time₀, htime₀⟩ := List.exists_mem_of_ne_nil _ hne
          have hflush := h.flushes.nextFlush time₀ htime₀
          have hpast := h.past time₀ htime₀
          rw [List.mem_singleton.1 htime]
          omega

theorem Inv.nextChunk (h : Inv s) : Inv (s.step slab .nextChunk) := by
  rcases h.wellFormed.nextChunk_cases s.now with
    hnone | ⟨chunk, queue, hsome, hne, hpending, hheld, hflush, hwell, -, -, hinterval⟩
  · have hstep : s.step slab .nextChunk = s := by rw [State.step, hnone]
    rw [hstep]
    exact h
  · have hstep : s.step slab .nextChunk =
        { s with
          queue := queue
          dispensed := s.dispensed ++ [chunk]
          enqueueTimes := s.enqueueTimes.drop chunk.length } := by
      rw [State.step, hsome]
    rw [hstep]
    refine ⟨hwell, ?_, fun c hc => ?_, ⟨?_, fun time htime => ?_⟩,
      fun time htime => h.past time (List.mem_of_mem_drop htime)⟩
    · change s.stored.Perm (queue.held ++ queue.pending.map _ ++ (s.dispensed ++ [chunk]).flatten.map _ ++ s.removed)
      refine h.partition.trans (List.Perm.append_right _ ?_)
      rw [hpending, hheld, List.flatten_append, List.flatten_singleton, List.map_append, List.map_append]
      simp only [List.append_assoc]
      refine List.Perm.append_left _ ?_
      refine List.perm_append_comm.trans ?_
      simp only [List.append_assoc]
      exact .refl _
    · rcases List.mem_append.1 hc with hc | hc
      · exact h.nonempty c hc
      · rw [List.mem_singleton.1 hc]
        exact hne
    · change (s.enqueueTimes.drop chunk.length).length = queue.pending.length
      rw [List.length_drop, h.flushes.length, hpending, List.length_append]
      omega
    · change queue.nextFlush ≤ time + queue.pendingAckFlushInterval
      rw [hflush, hinterval]
      exact h.flushes.nextFlush time (List.mem_of_mem_drop htime)

theorem Inv.collect (h : Inv s) (maxChunkSize maxLeaseRenewalDelay : Nat) (polls : List MessageAckQueue.Poll) :
    Inv (s.step slab (.collect maxChunkSize maxLeaseRenewalDelay polls)) := by
  obtain ⟨hwell, hsame⟩ :=
    MessageAckQueue.WellFormed.collect slab s.now maxLeaseRenewalDelay polls maxChunkSize h.wellFormed
  refine ⟨hwell, ?_, h.nonempty, ⟨?_, fun time htime => ?_⟩, h.past⟩
  · have hpartition := h.partition
    rw [Partition, ← hsame.pending] at hpartition
    exact hpartition.trans (((hsame.held.symm.append_right _).append_right _).append_right _)
  · exact h.flushes.length.trans (congrArg List.length hsame.pending.symm)
  · change (s.queue.collectAckIdsThatNeedToBeRenewed slab s.now maxLeaseRenewalDelay maxChunkSize polls).2.nextFlush ≤ _
    rw [hsame.nextFlush]
    refine Nat.le_trans (h.flushes.nextFlush time htime) (Nat.le_of_eq ?_)
    exact congrArg (time + ·) hsame.interval.symm

theorem Inv.step (h : Inv s) (label : Label α) : Inv (s.step slab label) := by
  cases label with
  | pass duration =>
    exact ⟨h.wellFormed, h.partition, h.nonempty, ⟨h.flushes.length, h.flushes.nextFlush⟩, fun time htime =>
      Nat.le_add_right_of_le (h.past time htime)⟩
  | store ackIdFromServer receivedAt leaseRenewAt => exact h.store ackIdFromServer receivedAt leaseRenewAt
  | enqueue ackOrNack => exact h.enqueue ackOrNack
  | remove ackId => exact h.remove ackId
  | collect maxChunkSize maxLeaseRenewalDelay polls => exact h.collect maxChunkSize maxLeaseRenewalDelay polls
  | nextChunk => exact h.nextChunk

theorem Inv.run (h : Inv s) (labels : List (Label α)) : Inv (labels.foldl (State.step slab) s) :=
  List.foldlRecOn labels _ h fun _ h label _ => h.step label

theorem Inv.start {maxChunkSize} (h : 1 ≤ maxChunkSize) (interval now : Nat) :
    Inv (State.start maxChunkSize interval now : State α) :=
  ⟨MessageAckQueue.wellFormed_new h interval now, .refl _, fun _ hmem => (by cases hmem),
    ⟨rfl, fun _ hmem => (by cases hmem)⟩, fun _ hmem => (by cases hmem)⟩

/-- **The queue conserves ack ids.** After every sequence of its operations: each stored id is held in the mapping,
waits in a chunk, has been dispensed or was removed, each occurrence once; the ids in the delay queue are those of the
mapping, and every mapped id has its timer under its key; every full chunk has `max_chunk_size` entries and the
current one fewer, and `len` counts them; no empty chunk has been dispensed; and the next flush is no later than the
flush interval after the enqueuing of anything that waits. -/
theorem ack_queue_conserves (slab : Slab) {maxChunkSize : Nat} (hpositive : 1 ≤ maxChunkSize)
    (pendingAckFlushInterval now : Nat) (labels : List (Label α)) :
    let s := labels.foldl (State.step slab) (State.start maxChunkSize pendingAckFlushInterval now)
    Partition s ∧
      (s.queue.leaseRenewalDelayQueue.values.map (·.ackId)).Perm s.queue.ackIdMapping.keys ∧
      (∀ ackId item, s.queue.ackIdMapping.get? ackId = some item → ∃ timer,
        s.queue.leaseRenewalDelayQueue.get? item.leaseDelayQueueKey = some timer ∧ timer.ackId = ackId) ∧
      (∀ chunk ∈ s.queue.fullChunks, chunk.length = s.queue.maxChunkSize) ∧
      s.queue.currentChunk.length < s.queue.maxChunkSize ∧
      s.queue.len = s.queue.pending.length ∧
      (∀ chunk ∈ s.dispensed, chunk ≠ []) ∧
      Flushes s := by
  intro s
  have hinv : Inv s := (Inv.start hpositive pendingAckFlushInterval now).run labels
  exact ⟨hinv.partition, hinv.wellFormed.timers, hinv.wellFormed.leased, hinv.wellFormed.full,
    hinv.wellFormed.current, hinv.wellFormed.len_eq, hinv.nonempty, hinv.flushes⟩

/-- Two ids are stored and acked, one of them twice and then nacked, and a full chunk is dispensed. -/
theorem ack_queue_conserves_repeated :
    let slab : Slab := ⟨fun keys => keys.sum + 1, fun keys hmem => by
      have := List.single_le_sum (fun _ _ => Nat.zero_le _) _ hmem
      omega⟩
    let labels : List (Label String) := [.store "a" 0 10, .store "b" 0 10, .enqueue (.ack 1), .enqueue (.ack 1),
      .enqueue (.nack 1), .enqueue (.ack 2), .nextChunk]
    let s := labels.foldl (State.step slab) (State.start 2 100 0)
    Partition s ∧ s.dispensed = [[.ack "a", .ack "b"]] := by
  intro slab labels s
  exact ⟨(ack_queue_conserves slab (by decide) 100 0 labels).1, by decide⟩

end AckQueue

end Osprey.StreamingPull
