/-
The main loop of the streaming pull manager (`StreamingPullManager::main_loop`)
with its handlers: acks and nacks from the handler's guards, responses and
failures of the channel, chunks of the ack queue, leases, background
requests, and the graceful stop.

One step of the loop is one turn: the check whether it is to end, the first
branch of the biased `select!` that is ready, and its handler. The handlers
take no time: time passes while no branch is ready. What the guards, the
server and the runtime do are steps of their own, between the turns.
-/
import Osprey.Coordinator.StreamingPullManager

namespace Osprey.StreamingPull.MainLoop

open Lib (Dict)

variable {α : Type}

/-! ## Requests and messages -/

/-- `FlowControl`, as its setters leave it. A manager for no messages at all does not come to be: `new` divides by
the size of its chunks. -/
structure FlowControl where
  maxMessages : Nat
  maxProcessingMessages : Nat
  minDurationPerLeaseExtension : Nat
  maxDurationPerLeaseExtension : Nat
  positive : 1 ≤ maxMessages
  minimum : 10 ≤ minDurationPerLeaseExtension
  ordered : minDurationPerLeaseExtension ≤ maxDurationPerLeaseExtension

def FlowControl.clampLeaseDuration (f : FlowControl) (leaseDurationSecs : Nat) : Nat :=
  max f.minDurationPerLeaseExtension (min leaseDurationSecs f.maxDurationPerLeaseExtension)

theorem FlowControl.clampLeaseDuration_ne_zero (f : FlowControl) (secs : Nat) : f.clampLeaseDuration secs ≠ 0 := by
  have := f.minimum
  rw [FlowControl.clampLeaseDuration]
  omega

/-- The order in which the drained queues of the ordering keys are gone through. -/
structure HashOrder where
  order : List (List Message) → List (List Message)
  perm : ∀ queues, (order queues).Perm queues

structure Config where
  flowControl : FlowControl
  slab : Slab
  hash : HashOrder

def ackIdsMaxBatchSize : Nat := 2500

inductive Request (α : Type)
  | acknowledge (ackIds : List α)
  | modifyAckDeadline (ackIds : List α) (ackDeadlineSeconds : Nat)

/-- What a request settles: an acknowledgement acks, a deadline of zero nacks, another deadline only renews. -/
def Request.outcomes : Request α → List (AckOrNack α)
  | .acknowledge ackIds => ackIds.map .ack
  | .modifyAckDeadline ackIds ackDeadlineSeconds => if ackDeadlineSeconds = 0 then ackIds.map .nack else []

inductive ManagerMessage
  | ackOrNack (verdict : AckOrNack Nat)
  | gracefulStop
  deriving DecidableEq

def ManagerMessage.verdict? : ManagerMessage → Option (AckOrNack Nat)
  | .ackOrNack verdict => some verdict
  | .gracefulStop => none

/-- What `next_message` gives: a response, or the end of the stream or an error. -/
inductive ChannelEvent (α : Type)
  | response (entries : List (ReceivedMessage α))
  | failed

/-! ## The state -/

/-- The manager's task. `channel` is what it has yet to read, or `none` once closed; `running` and `joinable` are the
background requests that run and those that have finished and are not joined. -/
structure State (α : Type) where
  manager : Manager α
  receiver : List ManagerMessage := []
  channel : Option (List (ChannelEvent α)) := some []
  stopRequested : Bool := false
  stopping : Bool := false
  running : List Nat := []
  joinable : Nat := 0
  spawned : Nat := 0
  now : Nat
  nextReport : Nat
  nextRenewal : Nat
  exited : Bool := false
  requests : List (Request α) := []
  handled : List (AckOrNack Nat) := []

namespace State

def start (config : Config) (now : Nat) : State α :=
  { manager :=
      { maxProcessingMessages := config.flowControl.maxProcessingMessages
        messageAckQueue := .new (min ackIdsMaxBatchSize config.flowControl.maxMessages) 100 now }
    now := now
    nextReport := now
    nextRenewal := now }

def settled (s : State α) : List (AckOrNack Nat) := s.handled ++ s.receiver.filterMap ManagerMessage.verdict?

/-- The messages that the handler has, with guards that have not sent their verdicts. -/
def outstanding (s : State α) : List Nat :=
  (s.manager.handed.map (·.ackId)).filter fun ackId => ackId ∉ s.settled.map (·.ackId)

def outcomes (s : State α) : List (AckOrNack α) := s.requests.flatMap Request.outcomes

/-! ## The handlers -/

/-- `perform_request_in_background_with_retries`: one task, whatever its attempts. -/
def perform (s : State α) (request : Request α) : State α :=
  { s with
    requests := s.requests ++ [request]
    running := s.running ++ [s.spawned]
    spawned := s.spawned + 1 }

/-- One turn of the loop of `handle_renew_leases`: the 99th percentile of the latencies in seconds, and what the
delay queue gives. -/
structure RenewalTurn where
  p99Secs : Nat
  polls : List MessageAckQueue.Poll

/-- `get_buffered_lease_renewal_duration`, in milliseconds. -/
def bufferedLeaseRenewalDuration (secs : Nat) : Nat := secs * 1000 - min (secs * 200) 5000

/-- `handle_renew_leases`: until a chunk is not full. -/
def handleRenewLeases (config : Config) : List RenewalTurn → State α → State α
  | [], s => s
  | turn :: turns, s =>
    let secs := config.flowControl.clampLeaseDuration turn.p99Secs
    let (chunk, messageAckQueue) := s.manager.messageAckQueue.collectAckIdsThatNeedToBeRenewed config.slab s.now
      (bufferedLeaseRenewalDuration secs) ackIdsMaxBatchSize turn.polls
    let s := { s with manager := { s.manager with messageAckQueue := messageAckQueue } }
    if chunk.isEmpty then s
    else
      let s := s.perform (.modifyAckDeadline (chunk.map Prod.snd) secs)
      if chunk.length = ackIdsMaxBatchSize then handleRenewLeases config turns s else s

def ack? : AckOrNack α → Option α
  | .ack ackId => some ackId
  | .nack _ => none

def nack? : AckOrNack α → Option α
  | .ack _ => none
  | .nack ackId => some ackId

/-- `flush_ack_or_nack_chunk`: a request for the acks and one for the nacks, if there are any. -/
def flushAckOrNackChunk (s : State α) (chunk : List (AckOrNack α)) : State α :=
  let ackIds := chunk.filterMap ack?
  let nackIds := chunk.filterMap nack?
  let s := if ackIds.isEmpty then s else s.perform (.acknowledge ackIds)
  if nackIds.isEmpty then s else s.perform (.modifyAckDeadline nackIds 0)

/-- The ack ids of the server that are mapped, taken from the queue. -/
def removeAckIds : List Nat → MessageAckQueue α → List α × MessageAckQueue α
  | [], q => ([], q)
  | ackId :: ackIds, q =>
    let (removed, q) := q.removeAckId ackId
    let (rest, q) := removeAckIds ackIds q
    (removed.toList ++ rest, q)

/-- One chunk of the messages that were on hold. -/
def nackOnHold (s : State α) (chunk : List Nat) : State α :=
  let (ackIds, messageAckQueue) := removeAckIds chunk s.manager.messageAckQueue
  let s := { s with manager := { s.manager with messageAckQueue := messageAckQueue } }
  if ackIds.isEmpty then s else s.perform (.modifyAckDeadline ackIds 0)

/-- `chunks`: there are no more chunks than elements. -/
def chunks {β : Type} (size : Nat) : Nat → List β → List (List β)
  | 0, _ => []
  | turns + 1, list => if list.isEmpty then [] else list.take size :: chunks size turns (list.drop size)

/-- `drain_and_collect_all_ack_ids`. The guards are marked, and send nothing when they are dropped. -/
def drainAndCollectAllAckIds (hash : HashOrder) (h : MessagesOnHold) : List Nat :=
  (h.readyMessages ++ (hash.order h.pendingOrderedMessages.values).flatten).map (·.ackId)

def handleGracefulStop (config : Config) (s : State α) : State α :=
  if s.stopping then s
  else
    let ackIds := drainAndCollectAllAckIds config.hash s.manager.messagesOnHold
    let s :=
      { s with
        channel := none
        manager := { s.manager with messagesOnHold := {}, drained := ackIds } }
    let s := (chunks ackIdsMaxBatchSize ackIds.length ackIds).foldl nackOnHold s
    { s with stopping := true }

def shouldStop (s : State α) : Bool :=
  s.stopping && s.manager.messagesInFlight.isEmpty && s.manager.messageAckQueue.isEmpty &&
    s.running.isEmpty && s.joinable == 0

/-! ## The turns of the loop -/

/-- The deadline of an interval of one second after a tick, with `MissedTickBehavior::Skip`. -/
def nextTick (deadline now : Nat) : Nat :=
  if deadline + 5 < now then now + 1000 - (now - deadline) % 1000 else deadline + 1000

inductive Branch (α : Type)
  | reportMetrics
  | renewLeases
  | managerMessage (message : ManagerMessage) (receiver : List ManagerMessage)
  | flushChunk (chunk : List (AckOrNack α)) (messageAckQueue : MessageAckQueue α)
  | channelEvent (event : ChannelEvent α) (channel : List (ChannelEvent α))
  | joinNext

/-- The biased `select!`: the first branch that is ready. -/
def select (s : State α) : Option (Branch α) :=
  if s.nextReport ≤ s.now then some .reportMetrics
  else if s.nextRenewal ≤ s.now then some .renewLeases
  else
    match s.receiver with
    | message :: receiver => some (.managerMessage message receiver)
    | [] =>
      match s.manager.messageAckQueue.nextChunk s.now with
      | (some chunk, messageAckQueue) => some (.flushChunk chunk messageAckQueue)
      | (none, _) =>
        match s.channel with
        | some (event :: channel) => some (.channelEvent event channel)
        | _ => if s.joinable = 0 then none else some .joinNext

def handle (config : Config) (turns : List RenewalTurn) (s : State α) : Branch α → State α
  | .reportMetrics => { s with nextReport := nextTick s.nextReport s.now }
  | .renewLeases => handleRenewLeases config turns { s with nextRenewal := nextTick s.nextRenewal s.now }
  | .managerMessage (.ackOrNack verdict) receiver =>
    { s with
      receiver := receiver
      manager := s.manager.handleAckOrNack s.now verdict
      handled := s.handled ++ [verdict] }
  | .managerMessage .gracefulStop receiver => handleGracefulStop config { s with receiver := receiver }
  | .flushChunk chunk messageAckQueue =>
    flushAckOrNackChunk { s with manager := { s.manager with messageAckQueue := messageAckQueue } } chunk
  | .channelEvent (.response entries) channel =>
    { s with
      channel := some channel
      manager := s.manager.handleStreamingPullResponse config.slab s.now entries }
  | .channelEvent .failed _ => { s with channel := some [] }
  | .joinNext => { s with joinable := s.joinable - 1 }

def iterate (config : Config) (turns : List RenewalTurn) (s : State α) : State α :=
  if s.exited then s
  else if s.shouldStop then { s with exited := true }
  else
    match s.select with
    | none => s
    | some branch => s.handle config turns branch

end State

/-! ## Runs -/

inductive Label (α : Type)
  /-- A guard of a message that the handler has sends its verdict: a nack if it is dropped. -/
  | settle (verdict : AckOrNack Nat)
  /-- The handle asks for the graceful stop; this consumes it. -/
  | requestStop
  /-- The server sends something on the channel, or the channel fails. -/
  | arrive (event : ChannelEvent α)
  /-- A background request ends, by an answer or after its last attempt. -/
  | complete (task : Nat)
  | pass (duration : Nat)
  | iterate (turns : List State.RenewalTurn)

def State.step (config : Config) (s : State α) : Label α → State α
  | .settle verdict =>
    if verdict.ackId ∈ s.outstanding then { s with receiver := s.receiver ++ [.ackOrNack verdict] } else s
  | .requestStop =>
    if s.stopRequested then s else { s with stopRequested := true, receiver := s.receiver ++ [.gracefulStop] }
  | .arrive event => { s with channel := s.channel.map (· ++ [event]) }
  | .complete task =>
    if task ∈ s.running then { s with running := s.running.erase task, joinable := s.joinable + 1 } else s
  | .pass duration => if s.select.isNone then { s with now := s.now + duration } else s
  | .iterate turns => s.iterate config turns

/-! ## What the manager accounts for -/

/-- Each received message is in one place, and the ack queue maps those that are held or in flight to the ack ids
of the server under which they were received. -/
structure Accounts (m : Manager α) : Prop extends m.Places where
  wellFormed : m.messageAckQueue.WellFormed
  mapped : m.messageAckQueue.ackIdMapping.keys.Perm
    (m.messagesOnHold.held.map (·.ackId) ++ m.messagesInFlight.messagesInFlight.keys)
  stored : ∀ ackId item, m.messageAckQueue.ackIdMapping.get? ackId = some item →
    m.stored.get? ackId = some item.ackIdFromServer
  known : ∀ ackId, (m.stored.get? ackId).isSome ↔ ackId ∈ m.received.map (·.ackId)

section

variable {m : Manager α}

theorem Accounts.receive (h : Accounts m) (slab : Slab) (now : Nat) (entry : ReceivedMessage α) :
    Accounts (m.receive slab now entry) := by
  rw [Manager.receive]
  cases entry.message with
  | none => exact h
  | some protoMessage =>
    have hfresh := h.wellFormed.get?_nextAckId
    set message : Message := ⟨m.messageAckQueue.lastAckId + 1, .new protoMessage entry.deliveryAttempt⟩ with hmessage
    refine ⟨h.toPlaces.push rfl rfl, h.wellFormed.store slab _ _ _, ?_, fun ackId item hitem => ?_, fun ackId => ?_⟩
    · change (m.messageAckQueue.ackIdMapping.set (m.messageAckQueue.lastAckId + 1) _).keys.Perm
        ((m.messagesOnHold.push message).held.map _ ++ m.messagesInFlight.messagesInFlight.keys)
      refine (Dict.perm_keys_set _ _ _).trans ?_
      rw [Dict.erase_of_none hfresh]
      refine (h.mapped.cons _).trans ?_
      have hheld := ((Manager.perm_held_push m.messagesOnHold message).map (·.ackId)).symm
      exact hheld.append_right m.messagesInFlight.messagesInFlight.keys
    · rcases Dict.of_get?_set hitem with ⟨rfl, rfl⟩ | ⟨hne, hitem⟩
      · exact Dict.get?_set_self _ _ _
      · exact (Dict.get?_set_other _ _ hne).trans (h.stored ackId item hitem)
    · change ((m.stored.set (m.messageAckQueue.lastAckId + 1) entry.ackId).get? ackId).isSome ↔
        ackId ∈ (m.received ++ [message]).map _
      rw [Dict.get?_set, List.map_append, List.mem_append, ← h.known ackId]
      split
      · next heq => simp [heq, hmessage]
      · next hne => simpa [hmessage] using fun heq => absurd heq hne

theorem Accounts.transformAndInsert (h : Accounts m) (slab : Slab) (now : Nat) (response : List (ReceivedMessage α)) :
    Accounts (m.transformAndInsertMessagesIntoMessagesOnHold slab now response) :=
  List.foldlRecOn response _ h fun _ h entry _ => h.receive slab now entry

theorem Accounts.dispatch (h : Accounts m) {message ready}
    (hready : m.messagesOnHold.readyMessages = message :: ready) : Accounts (m.dispatched message ready) :=
  ⟨h.toPlaces.dispatch hready, h.wellFormed, h.mapped.trans (h.perm_dispatched hready), h.stored, h.known⟩

structure Flushed (m m' : Manager α) : Prop where
  messageAckQueue : m'.messageAckQueue = m.messageAckQueue
  stored : m'.stored = m.stored
  finished : m'.finished = m.finished
  drained : m'.drained = m.drained
  handed : m.handed <+: m'.handed

theorem Accounts.flushReady : ∀ (turns : Nat) {m : Manager α}, Accounts m →
    Accounts (Manager.flushReady turns m) ∧ Flushed m (Manager.flushReady turns m)
  | 0, m, h => ⟨h, rfl, rfl, rfl, rfl, List.prefix_rfl⟩
  | turns + 1, m, h => by
    rw [Manager.flushReady]
    split
    · cases hready : m.messagesOnHold.readyMessages with
      | nil =>
        simp only [MessagesOnHold.popReady, hready]
        exact ⟨h, rfl, rfl, rfl, rfl, List.prefix_rfl⟩
      | cons message ready =>
        simp only [MessagesOnHold.popReady, hready]
        obtain ⟨haccounts, hflushed⟩ := Accounts.flushReady turns (h.dispatch hready)
        exact ⟨haccounts, hflushed.messageAckQueue, hflushed.stored, hflushed.finished, hflushed.drained,
          (List.prefix_append _ _).trans hflushed.handed⟩
    · exact ⟨h, rfl, rfl, rfl, rfl, List.prefix_rfl⟩

theorem flushReady_of_empty (h : m.messagesOnHold = {}) : m.tryFlushMessagesOnHoldBatch = m := by
  rw [Manager.tryFlushMessagesOnHoldBatch, h]
  rfl

structure Extended (m m' : Manager α) : Prop where
  pending : m'.messageAckQueue.pending = m.messageAckQueue.pending
  stored : ∀ ackId ∈ m.received.map (·.ackId), m'.stored.get? ackId = m.stored.get? ackId
  finished : m'.finished = m.finished
  drained : m'.drained = m.drained
  received : m.received <+: m'.received
  handed : m'.handed = m.handed

theorem Extended.refl (m : Manager α) : Extended m m := ⟨rfl, fun _ _ => rfl, rfl, rfl, List.prefix_rfl, rfl⟩

theorem Extended.trans {m m' m'' : Manager α} (h : Extended m m') (h' : Extended m' m'') : Extended m m'' where
  pending := h'.pending.trans h.pending
  stored ackId hmem := by
    have hmem' : ackId ∈ m'.received.map (·.ackId) := (h.received.map _).subset hmem
    rw [h'.stored ackId hmem', h.stored ackId hmem]
  finished := h'.finished.trans h.finished
  drained := h'.drained.trans h.drained
  received := h.received.trans h'.received
  handed := h'.handed.trans h.handed

theorem Accounts.extended_receive (h : Accounts m) (slab : Slab) (now : Nat) (entry : ReceivedMessage α) :
    Extended m (m.receive slab now entry) := by
  rw [Manager.receive]
  cases entry.message with
  | none => exact .refl m
  | some protoMessage =>
    refine ⟨rfl, fun ackId hmem => ?_, rfl, rfl, List.prefix_append _ _, rfl⟩
    obtain ⟨message, hmessage, rfl⟩ := List.mem_map.1 hmem
    refine Dict.get?_set_other _ _ fun heq => ?_
    have hle := h.counted message hmessage
    rw [heq] at hle
    exact absurd hle (Nat.not_succ_le_self _)

theorem Accounts.extended_transformAndInsert (h : Accounts m) (slab : Slab) (now : Nat)
    (response : List (ReceivedMessage α)) :
    Extended m (m.transformAndInsertMessagesIntoMessagesOnHold slab now response) := by
  rw [Manager.transformAndInsertMessagesIntoMessagesOnHold]
  induction response generalizing m with
  | nil => exact .refl m
  | cons entry response ih => exact (h.extended_receive slab now entry).trans (ih (h.receive slab now entry))

theorem ackIdMapping_enqueue {q : MessageAckQueue α} (now : Nat) {verdict item}
    (hitem : q.ackIdMapping.get? verdict.ackId = some item) :
    (q.enqueueAckOrNack now verdict).ackIdMapping = q.ackIdMapping.erase verdict.ackId := by
  rw [MessageAckQueue.enqueueAckOrNack_of_mapped now hitem, MessageAckQueue.pushAckOrNack, MessageAckQueue.beforePush]
  split <;> split <;> rfl

theorem Accounts.finish (h : Accounts m) (now : Nat) {verdict : AckOrNack Nat}
    (hmem : verdict.ackId ∈ m.messagesInFlight.messagesInFlight.keys) :
    ∃ ackIdFromServer,
      let m' :=
        Manager.finish { m with messageAckQueue := m.messageAckQueue.enqueueAckOrNack now verdict } verdict.ackId
      m.stored.get? verdict.ackId = some ackIdFromServer ∧ Accounts m' ∧
        m'.messageAckQueue.pending = m.messageAckQueue.pending ++ [verdict.map fun _ => ackIdFromServer] ∧
        m'.finished = m.finished ++ [verdict.ackId] ∧ m'.stored = m.stored ∧ m'.drained = m.drained ∧
        m'.handed = m.handed ∧ (m.messagesOnHold = {} → m'.messagesOnHold = {}) := by
  have hmapped : verdict.ackId ∈ m.messageAckQueue.ackIdMapping.keys :=
    h.mapped.mem_iff.2 (List.mem_append_right _ hmem)
  obtain ⟨item, hitem⟩ := Dict.mem_keys.1 hmapped
  obtain ⟨inFlight, hinFlight⟩ := Dict.mem_keys.1 hmem
  have hmapping := ackIdMapping_enqueue now hitem
  have hpending := MessageAckQueue.pending_enqueue now hitem
  have hlast := Manager.lastAckId_enqueue now m.messageAckQueue verdict
  have haccounts : ∀ messagesOnHold : MessagesOnHold, messagesOnHold.held.Perm m.messagesOnHold.held →
      Accounts { m with
        messageAckQueue := m.messageAckQueue.enqueueAckOrNack now verdict
        messagesInFlight := m.released verdict.ackId inFlight
        messagesOnHold := messagesOnHold
        finished := m.finished ++ [verdict.ackId] } := by
    intro messagesOnHold hheld
    refine ⟨(h.toPlaces.release hinFlight hheld).ackQueue hlast, h.wellFormed.enqueue now verdict, ?_, ?_, h.known⟩
    · change (m.messageAckQueue.enqueueAckOrNack now verdict).ackIdMapping.keys.Perm
        (messagesOnHold.held.map _ ++ (m.messagesInFlight.messagesInFlight.erase verdict.ackId).keys)
      rw [hmapping]
      refine List.Perm.cons_inv ((Dict.perm_keys_erase hitem).symm.trans (h.mapped.trans ?_))
      refine ((hheld.map _).symm.append (Dict.perm_keys_erase hinFlight)).trans ?_
      exact List.perm_middle
    · change ∀ ackId item, (m.messageAckQueue.enqueueAckOrNack now verdict).ackIdMapping.get? ackId = some item → _
      rw [hmapping]
      exact Dict.forall_erase h.stored
  refine ⟨item.ackIdFromServer, h.stored _ _ hitem, ?_⟩
  simp only [Manager.finish, MessagesInFlight.remove, hinFlight]
  cases hkey : inFlight.orderingKey with
  | none => exact ⟨haccounts _ (.refl _), hpending, rfl, rfl, rfl, rfl, fun hempty => hempty⟩
  | some key =>
    refine ⟨haccounts _ (Manager.perm_held_activateOrderingKey _ _), hpending, rfl, rfl, rfl, rfl, fun hempty => ?_⟩
    change m.messagesOnHold.activateOrderingKey key = _
    rw [hempty]
    rfl

end

/-! ## What the handlers of requests do -/

namespace State

/-- The state with another ack queue and other requests. -/
abbrev sent (s : State α) (messageAckQueue : MessageAckQueue α) (requests : List (Request α)) (running : List Nat)
    (spawned : Nat) : State α :=
  { s with
    manager := { s.manager with messageAckQueue := messageAckQueue }
    requests := requests
    running := running
    spawned := spawned }

theorem outcomes_perform (s : State α) (request : Request α) :
    (s.perform request).outcomes = s.outcomes ++ request.outcomes := by
  simp [outcomes, perform]

theorem handleRenewLeases_eq (config : Config) : ∀ (turns : List RenewalTurn) {s : State α},
    s.manager.messageAckQueue.WellFormed →
    ∃ messageAckQueue requests running spawned,
      s.handleRenewLeases config turns = s.sent messageAckQueue requests running spawned ∧
        messageAckQueue.WellFormed ∧ s.manager.messageAckQueue.SameAcks messageAckQueue ∧
        requests.flatMap Request.outcomes = s.outcomes
  | [], s, h => ⟨_, _, _, _, rfl, h, .refl _, rfl⟩
  | turn :: turns, s, h => by
    rw [handleRenewLeases]
    set secs := config.flowControl.clampLeaseDuration turn.p99Secs with hsecs
    obtain ⟨hwell, hsame⟩ := MessageAckQueue.WellFormed.collect config.slab s.now (bufferedLeaseRenewalDuration secs)
      turn.polls ackIdsMaxBatchSize h
    set collected := s.manager.messageAckQueue.collectAckIdsThatNeedToBeRenewed config.slab s.now
      (bufferedLeaseRenewalDuration secs) ackIdsMaxBatchSize turn.polls with hcollected
    have houtcomes : ∀ ackIds : List α,
        (s.requests ++ [Request.modifyAckDeadline ackIds secs]).flatMap Request.outcomes =
        s.outcomes := fun ackIds => by
      have hne := config.flowControl.clampLeaseDuration_ne_zero turn.p99Secs
      simp [outcomes, Request.outcomes, hsecs, hne]
    dsimp only
    split
    · exact ⟨_, _, _, _, rfl, hwell, hsame, rfl⟩
    · split
      · obtain ⟨q, requests, running, spawned, heq, hwell', hsame', houtcomes'⟩ :=
          handleRenewLeases_eq config turns
            (s := perform { s with manager := { s.manager with messageAckQueue := collected.2 } }
              (.modifyAckDeadline (collected.1.map Prod.snd) secs)) hwell
        exact ⟨q, requests, running, spawned, heq, hwell', hsame.trans hsame', houtcomes'.trans (houtcomes _)⟩
      · exact ⟨_, _, _, _, rfl, hwell, hsame, houtcomes _⟩

theorem perm_ack_nack (chunk : List (AckOrNack α)) :
    ((chunk.filterMap ack?).map AckOrNack.ack ++ (chunk.filterMap nack?).map AckOrNack.nack).Perm chunk := by
  induction chunk with
  | nil => exact .nil
  | cons verdict chunk ih =>
    cases verdict with
    | ack ackId => exact ih.cons _
    | nack ackId => exact List.perm_middle.trans (ih.cons _)

theorem flushAckOrNackChunk_eq (s : State α) (chunk : List (AckOrNack α)) :
    ∃ requests running spawned,
      s.flushAckOrNackChunk chunk = s.sent s.manager.messageAckQueue requests running spawned ∧
        (requests.flatMap Request.outcomes).Perm (s.outcomes ++ chunk) := by
  refine ⟨(s.flushAckOrNackChunk chunk).requests, (s.flushAckOrNackChunk chunk).running,
    (s.flushAckOrNackChunk chunk).spawned, ?_, ?_⟩
  · rw [flushAckOrNackChunk]
    split <;> split <;> rfl
  · refine List.Perm.trans (List.Perm.of_eq ?_) ((perm_ack_nack chunk).append_left s.outcomes)
    change (s.flushAckOrNackChunk chunk).outcomes = _
    rw [flushAckOrNackChunk]
    split
    · next hack =>
      rw [List.isEmpty_iff.1 hack]
      split
      · next hnack => simp [List.isEmpty_iff.1 hnack]
      · simp [outcomes_perform, Request.outcomes]
    · split
      · next hnack => simp [List.isEmpty_iff.1 hnack, outcomes_perform, Request.outcomes]
      · simp [outcomes_perform, Request.outcomes]

/-! ## The drain -/

/-- From the queue `q₀`, ids were taken with the ack ids of the server that `stored` has for them; those of `rest`
are left. -/
structure Drawn (stored : Dict Nat α) (q₀ : MessageAckQueue α) (rest : List Nat) (q : MessageAckQueue α) : Prop where
  wellFormed : q.WellFormed
  pending : q.pending = q₀.pending
  lastAckId : q.lastAckId = q₀.lastAckId
  mapped : q.ackIdMapping.keys.Perm rest
  stored : ∀ id item, q.ackIdMapping.get? id = some item → stored.get? id = some item.ackIdFromServer

section Drain

variable {stored : Dict Nat α} {q₀ q : MessageAckQueue α} {rest : List Nat}

theorem Drawn.removeAckId {id} (h : Drawn stored q₀ (id :: rest) q) :
    Drawn stored q₀ rest (q.removeAckId id).2 ∧ (q.removeAckId id).1 = stored.get? id := by
  obtain ⟨item, hitem⟩ := Dict.mem_keys.1 (h.mapped.mem_iff.2 List.mem_cons_self)
  have hwell := h.wellFormed.remove id
  rw [MessageAckQueue.removeAckId, hitem] at hwell ⊢
  have hmapped := (Dict.perm_keys_erase hitem).symm.trans h.mapped
  exact ⟨⟨hwell, h.pending, h.lastAckId, hmapped.cons_inv, Dict.forall_erase h.stored⟩, (h.stored id item hitem).symm⟩

theorem Drawn.removeAckIds : ∀ (ids : List Nat) {q}, Drawn stored q₀ (ids ++ rest) q →
    Drawn stored q₀ rest (removeAckIds ids q).2 ∧ (removeAckIds ids q).1 = ids.filterMap stored.get?
  | [], _, h => ⟨h, rfl⟩
  | id :: ids, q, h => by
    obtain ⟨hfirst, heq⟩ := h.removeAckId
    obtain ⟨hrest, heq'⟩ := Drawn.removeAckIds ids hfirst
    refine ⟨hrest, ?_⟩
    change (q.removeAckId id).1.toList ++ (State.removeAckIds ids (q.removeAckId id).2).1 = _
    rw [heq, heq', List.filterMap_cons]
    cases stored.get? id <;> rfl

theorem nackOnHold_eq {s : State α} {ids} (h : Drawn stored q₀ (ids ++ rest) s.manager.messageAckQueue) :
    ∃ q requests running spawned, s.nackOnHold ids = s.sent q requests running spawned ∧ Drawn stored q₀ rest q ∧
      requests.flatMap Request.outcomes = s.outcomes ++ (ids.filterMap stored.get?).map .nack := by
  obtain ⟨hdrawn, heq⟩ := h.removeAckIds
  rw [nackOnHold, ← heq]
  dsimp only
  split
  · next hempty =>
    refine ⟨_, _, _, _, rfl, hdrawn, ?_⟩
    rw [List.isEmpty_iff.1 hempty, List.map_nil, List.append_nil]
    rfl
  · refine ⟨_, _, _, _, rfl, hdrawn, ?_⟩
    exact (outcomes_perform s (.modifyAckDeadline (removeAckIds ids s.manager.messageAckQueue).1 0))

theorem nackOnHold_foldl : ∀ (chunks : List (List Nat)) {s : State α},
    Drawn stored q₀ (chunks.flatten ++ rest) s.manager.messageAckQueue →
    ∃ q requests running spawned, chunks.foldl nackOnHold s = s.sent q requests running spawned ∧
      Drawn stored q₀ rest q ∧
      requests.flatMap Request.outcomes = s.outcomes ++ (chunks.flatten.filterMap stored.get?).map .nack
  | [], s, h => ⟨_, _, _, _, rfl, h, by simp [outcomes]⟩
  | chunk :: chunks, s, h => by
    rw [List.flatten_cons, List.append_assoc] at h
    obtain ⟨q, requests, running, spawned, heq, hdrawn, houtcomes⟩ := nackOnHold_eq h
    obtain ⟨q', requests', running', spawned', heq', hdrawn', houtcomes'⟩ :=
      nackOnHold_foldl chunks (s := s.sent q requests running spawned) hdrawn
    refine ⟨q', requests', running', spawned', ?_, hdrawn', ?_⟩
    · rw [List.foldl_cons, heq, heq']
    · rw [houtcomes', List.flatten_cons, List.filterMap_append, List.map_append, ← List.append_assoc]
      exact congrArg (· ++ _) houtcomes

end Drain

theorem flatten_chunks {β : Type} {size} (hsize : 1 ≤ size) : ∀ (turns : Nat) (list : List β),
    list.length ≤ turns → (chunks size turns list).flatten = list
  | 0, list, hle => by
    rw [List.length_eq_zero_iff.1 (Nat.le_zero.1 hle)]
    rfl
  | turns + 1, list, hle => by
    rw [chunks]
    split
    · next hempty =>
      rw [List.isEmpty_iff.1 hempty]
      rfl
    · next hne =>
      have hlength : (list.drop size).length ≤ turns := by
        rw [List.length_drop]
        omega
      rw [List.flatten_cons, flatten_chunks hsize turns _ hlength, List.take_append_drop]

theorem perm_drain (hash : HashOrder) (h : MessagesOnHold) :
    (drainAndCollectAllAckIds hash h).Perm (h.held.map (·.ackId)) := by
  refine List.Perm.map _ (List.Perm.append_left _ ?_)
  exact (hash.perm _).flatten

end State

/-! ## The invariant of the loop -/

def forServer (stored : Dict Nat α) (verdict : AckOrNack Nat) : Option (AckOrNack α) :=
  (stored.get? verdict.ackId).map fun ackIdFromServer => verdict.map fun _ => ackIdFromServer

/-- The verdicts that the loop has dealt with: those of the guards, and the nacks of a graceful stop. -/
def State.verdicts (s : State α) : List (AckOrNack Nat) := s.handled ++ s.manager.drained.map .nack

structure Inv (s : State α) : Prop where
  accounts : Accounts s.manager
  undrained : s.stopping = false → s.manager.drained = []
  stopped : s.stopping = true → s.manager.messagesOnHold = {} ∧ s.channel = none
  requested : s.stopRequested = true ↔ ManagerMessage.gracefulStop ∈ s.receiver ∨ s.stopping = true
  finished : s.manager.finished = s.handled.map (·.ackId)
  nodup : (s.settled.map (·.ackId)).Nodup
  handed : ∀ ackId ∈ s.settled.map (·.ackId), ackId ∈ s.manager.handed.map (·.ackId)
  outcomes : (s.outcomes ++ s.manager.messageAckQueue.pending).Perm
    (s.verdicts.filterMap (forServer s.manager.stored))
  exited : s.exited = true → s.shouldStop = true

section

variable {s : State α}

theorem Inv.start (config : Config) (now : Nat) : Inv (State.start config now : State α) where
  accounts :=
    { counted := fun _ hmem => (by cases hmem)
      nodup := .nil
      partition := .nil
      handed := .nil
      wellFormed := MessageAckQueue.wellFormed_new (by
        have := config.flowControl.positive
        rw [ackIdsMaxBatchSize]
        omega) _ _
      mapped := .nil
      stored := fun _ _ hget => (by cases hget)
      known := fun _ => ⟨fun hsome => (by cases hsome), fun hmem => (by cases hmem)⟩ }
  undrained := fun _ => rfl
  stopped := fun hstop => (by cases hstop)
  requested := by simp [State.start]
  finished := rfl
  nodup := .nil
  handed := fun _ hmem => (by cases hmem)
  outcomes := .nil
  exited := fun hexit => (by cases hexit)

/-- The ids of the verdicts that the loop has yet to read. -/
abbrev State.unread (s : State α) : List Nat := (s.receiver.filterMap ManagerMessage.verdict?).map (·.ackId)

theorem State.settled_ids (s : State α) : s.settled.map (·.ackId) = s.handled.map (·.ackId) ++ s.unread := by
  rw [State.settled, List.map_append]

variable {ackId : Nat}

theorem Inv.mem_in_flight (h : Inv s) : ackId ∈ s.manager.messagesInFlight.messagesInFlight.keys ↔
    ackId ∈ s.manager.handed.map (·.ackId) ∧ ackId ∉ s.handled.map (·.ackId) := by
  have hhanded := h.accounts.toPlaces.handed
  have hnodup := h.accounts.partition.nodup_iff.1 h.accounts.nodup
  rw [h.finished] at hhanded hnodup
  have hdisjoint := List.disjoint_of_nodup_append ((List.nodup_append.1 hnodup).1)
  rw [hhanded.mem_iff, List.mem_append]
  constructor
  · exact fun hmem => ⟨.inl hmem, fun hmem' => hdisjoint (List.mem_append_right _ hmem) hmem'⟩
  · exact fun hmem => hmem.1.resolve_right hmem.2

theorem Inv.mem_outstanding (h : Inv s) : ackId ∈ s.outstanding ↔
    ackId ∈ s.manager.messagesInFlight.messagesInFlight.keys ∧ ackId ∉ s.unread := by
  rw [State.outstanding, List.mem_filter, h.mem_in_flight, State.settled_ids]
  simp only [List.mem_append, decide_eq_true_eq, not_or, and_assoc]

theorem Inv.unread_in_flight (h : Inv s) (hmem : ackId ∈ s.unread) :
    ackId ∈ s.manager.messagesInFlight.messagesInFlight.keys := by
  have hnodup := h.nodup
  have hhanded := h.handed ackId
  rw [State.settled_ids] at hnodup hhanded
  exact h.mem_in_flight.2 ⟨hhanded (List.mem_append_right _ hmem),
    fun hmem' => List.disjoint_of_nodup_append hnodup hmem' hmem⟩

/-! ## The steps -/

theorem not_exited {P : Prop} (hexit : s.exited = false) (h : s.exited = true) : P := by
  rw [hexit] at h
  cases h

theorem Inv.tryFlush (h : Inv s) (hexit : s.exited = false) :
    Inv { s with manager := s.manager.tryFlushMessagesOnHoldBatch } := by
  obtain ⟨haccounts, hflushed⟩ := Accounts.flushReady s.manager.messagesOnHold.readyMessages.length h.accounts
  rw [Manager.tryFlushMessagesOnHoldBatch]
  refine { h with
    accounts := haccounts
    undrained := fun hstop => hflushed.drained.trans (h.undrained hstop)
    stopped := fun hstop => ?_
    finished := hflushed.finished.trans h.finished
    handed := fun ackId hmem => (hflushed.handed.map _).subset (h.handed ackId hmem)
    outcomes := ?_
    exited := not_exited hexit }
  · have heq := flushReady_of_empty (h.stopped hstop).1
    rw [Manager.tryFlushMessagesOnHoldBatch] at heq
    rw [heq]
    exact h.stopped hstop
  · rw [State.verdicts, hflushed.messageAckQueue, hflushed.drained, hflushed.stored]
    exact h.outcomes

variable {verdict : AckOrNack Nat}

theorem Inv.settle (h : Inv s) (hmem : verdict.ackId ∈ s.outstanding) :
    Inv { s with receiver := s.receiver ++ [.ackOrNack verdict] } := by
  have hsettled : ({ s with receiver := s.receiver ++ [.ackOrNack verdict] } : State α).settled.map (·.ackId) =
      s.settled.map (·.ackId) ++ [verdict.ackId] := by
    simp [State.settled, ManagerMessage.verdict?]
  rw [State.outstanding, List.mem_filter, decide_eq_true_eq] at hmem
  refine { h with requested := ?_, nodup := ?_, handed := fun ackId hid => ?_ }
  · simpa using h.requested
  · rw [hsettled, List.nodup_append]
    exact ⟨h.nodup, List.nodup_singleton _, fun a ha b hb hab => hmem.2 (by
      rw [List.mem_singleton] at hb
      rwa [hab, hb] at ha)⟩
  · rw [hsettled] at hid
    rcases List.mem_append.1 hid with hid | hid
    · exact h.handed ackId hid
    · rw [List.mem_singleton.1 hid]
      exact hmem.1

theorem Inv.requestStop (h : Inv s) :
    Inv { s with stopRequested := true, receiver := s.receiver ++ [.gracefulStop] } := by
  have hsettled : ({ s with stopRequested := true, receiver := s.receiver ++ [.gracefulStop] } : State α).settled =
      s.settled := by
    simp [State.settled, ManagerMessage.verdict?]
  refine { h with requested := by simp, nodup := ?_, handed := ?_ }
  · rw [hsettled]
    exact h.nodup
  · rw [hsettled]
    exact h.handed

theorem Inv.ackOrNack (h : Inv s) (hexit : s.exited = false)
    {receiver} (hreceiver : s.receiver = .ackOrNack verdict :: receiver) :
    Inv { s with
      receiver := receiver
      manager := s.manager.handleAckOrNack s.now verdict
      handled := s.handled ++ [verdict] } := by
  have hflight : verdict.ackId ∈ s.manager.messagesInFlight.messagesInFlight.keys :=
    h.unread_in_flight (by simp [State.unread, hreceiver, ManagerMessage.verdict?])
  obtain ⟨ackIdFromServer, hstored, haccounts, hpending, hfinished, hstored', hdrained, hhanded, hempty⟩ :=
    h.accounts.finish s.now hflight
  have hsettled : s.handled ++ [verdict] ++ receiver.filterMap ManagerMessage.verdict? = s.settled := by
    simp [State.settled, hreceiver, ManagerMessage.verdict?]
  refine Inv.tryFlush (s := { s with
    receiver := receiver
    manager := Manager.finish { s.manager with
      messageAckQueue := s.manager.messageAckQueue.enqueueAckOrNack s.now verdict } verdict.ackId
    handled := s.handled ++ [verdict] }) ⟨haccounts, fun hstop => ?_, fun hstop => ?_, ?_, ?_, ?_, ?_, ?_, ?_⟩ hexit
  · exact hdrained.trans (h.undrained hstop)
  · exact (h.stopped hstop).imp_left hempty
  · simpa [hreceiver] using h.requested
  · rw [hfinished, h.finished, List.map_append]
    rfl
  · rw [State.settled, hsettled]
    exact h.nodup
  · rw [State.settled, hsettled, hhanded]
    exact h.handed
  · change (s.outcomes ++ _).Perm _
    have hserver : forServer s.manager.stored verdict = some (verdict.map fun _ => ackIdFromServer) := by
      rw [forServer, hstored]
      rfl
    have houtcomes := h.outcomes
    rw [State.verdicts, List.filterMap_append] at houtcomes
    rw [State.verdicts, hpending, hdrained, hstored', ← List.append_assoc, List.filterMap_append,
      List.filterMap_append, List.filterMap_cons, hserver, List.filterMap_nil,
      List.append_assoc _ _ (List.filterMap _ _)]
    refine (List.perm_append_singleton _ _).trans ((houtcomes.cons _).trans ?_)
    exact List.perm_middle.symm
  · exact not_exited hexit

variable {q : MessageAckQueue α}

theorem perm_keys_of_sameAcks {q'} (h : q.SameAcks q') :
    q'.ackIdMapping.keys.Perm q.ackIdMapping.keys := by
  refine (List.perm_ext_iff_of_nodup q'.ackIdMapping.nodup_keys q.ackIdMapping.nodup_keys).2 fun ackId => ?_
  rw [← Dict.isSome_get?, ← Dict.isSome_get?]
  have hmapping := congrArg Option.isSome (h.mapping ackId)
  rw [Option.isSome_map, Option.isSome_map] at hmapping
  rw [hmapping]

theorem Inv.sent (h : Inv s) (hexit : s.exited = false) {requests running spawned}
    (haccounts : Accounts { s.manager with messageAckQueue := q })
    (houtcomes : (requests.flatMap Request.outcomes ++ q.pending).Perm
      (s.outcomes ++ s.manager.messageAckQueue.pending)) :
    Inv (s.sent q requests running spawned) :=
  { h with accounts := haccounts, outcomes := houtcomes.trans h.outcomes, exited := not_exited hexit }

theorem Accounts.sameAcks {m} (h : Accounts m) (hwell : q.WellFormed)
    (hsame : m.messageAckQueue.SameAcks q) : Accounts { m with messageAckQueue := q } := by
  refine ⟨h.toPlaces.ackQueue hsame.lastAckId, hwell, (perm_keys_of_sameAcks hsame).trans h.mapped,
    fun ackId item hitem => ?_, h.known⟩
  have hmapping := hsame.mapping ackId
  change q.ackIdMapping.get? ackId = some item at hitem
  rw [hitem, Option.map_some, eq_comm, Option.map_eq_some_iff] at hmapping
  obtain ⟨item', hitem', heq⟩ := hmapping
  rw [← heq]
  exact h.stored ackId item' hitem'

theorem Inv.renewLeases (h : Inv s) (hexit : s.exited = false) (config : Config) (turns : List State.RenewalTurn)
    (nextRenewal : Nat) : Inv (State.handleRenewLeases config turns { s with nextRenewal := nextRenewal }) := by
  have h' : Inv { s with nextRenewal := nextRenewal } := { h with }
  obtain ⟨q, requests, running, spawned, heq, hwell, hsame, houtcomes⟩ :=
    State.handleRenewLeases_eq config turns h'.accounts.wellFormed
  rw [heq]
  refine h'.sent hexit (h'.accounts.sameAcks hwell hsame) ?_
  rw [houtcomes, hsame.pending]

theorem Inv.flushChunk (h : Inv s) (hexit : s.exited = false) {chunk}
    (hchunk : s.manager.messageAckQueue.nextChunk s.now = (some chunk, q)) :
    Inv (State.flushAckOrNackChunk { s with manager := { s.manager with messageAckQueue := q } } chunk) := by
  rcases h.accounts.wellFormed.nextChunk_cases s.now with hnone |
    ⟨chunk', q', hsome, -, hpending, -, -, hwell, hmapping, -⟩
  · rw [hnone] at hchunk
    cases hchunk
  rw [hchunk] at hsome
  cases hsome
  obtain ⟨requests, running, spawned, heq, houtcomes⟩ := State.flushAckOrNackChunk_eq
    { s with manager := { s.manager with messageAckQueue := q } } chunk
  rw [heq]
  have hlast : q.lastAckId = s.manager.messageAckQueue.lastAckId := by
    have := Manager.lastAckId_nextChunk s.now s.manager.messageAckQueue
    rwa [hchunk] at this
  refine h.sent hexit ⟨h.accounts.toPlaces.ackQueue hlast, hwell, ?_, ?_, h.accounts.known⟩ ?_
  · change q.ackIdMapping.keys.Perm _
    rw [hmapping]
    exact h.accounts.mapped
  · change ∀ ackId item, q.ackIdMapping.get? ackId = some item → _
    rw [hmapping]
    exact h.accounts.stored
  · rw [hpending, ← List.append_assoc]
    exact houtcomes.append_right _

theorem forServer_congr {stored stored' : Dict Nat α} {verdicts : List (AckOrNack Nat)}
    (h : ∀ verdict ∈ verdicts, stored'.get? verdict.ackId = stored.get? verdict.ackId) :
    verdicts.filterMap (forServer stored') = verdicts.filterMap (forServer stored) :=
  List.filterMap_congr fun verdict hmem => by rw [forServer, forServer, h verdict hmem]

theorem Inv.mem_received (h : Inv s) (hmem : verdict ∈ s.verdicts) :
    verdict.ackId ∈ s.manager.received.map (·.ackId) := by
  refine h.accounts.partition.mem_iff.2 ?_
  rw [h.finished]
  rcases List.mem_append.1 hmem with hmem | hmem
  · exact List.mem_append_left _ (List.mem_append_right _ (List.mem_map_of_mem hmem))
  · obtain ⟨ackId, hid, rfl⟩ := List.mem_map.1 hmem
    exact List.mem_append_right _ hid

theorem Inv.response (h : Inv s) (hexit : s.exited = false) (slab : Slab) (entries : List (ReceivedMessage α))
    {event : ChannelEvent α} {channel : List (ChannelEvent α)} (hchannel : s.channel = some (event :: channel)) :
    Inv { s with
      channel := some channel
      manager := s.manager.handleStreamingPullResponse slab s.now entries } := by
  have hstop : s.stopping = true → False := fun hstop => by
    rw [(h.stopped hstop).2] at hchannel
    cases hchannel
  have haccounts := h.accounts.transformAndInsert slab s.now entries
  have hextended := h.accounts.extended_transformAndInsert slab s.now entries
  refine Inv.tryFlush (s := { s with
    channel := some channel
    manager := s.manager.transformAndInsertMessagesIntoMessagesOnHold slab s.now entries })
    { h with
      accounts := haccounts
      undrained := fun hstop' => hextended.drained.trans (h.undrained hstop')
      stopped := fun hstop' => (hstop hstop').elim
      finished := hextended.finished.trans h.finished
      handed := fun ackId hmem => by rw [hextended.handed]; exact h.handed ackId hmem
      outcomes := ?_
      exited := not_exited hexit } hexit
  rw [State.verdicts, hextended.pending, hextended.drained]
  refine h.outcomes.trans (List.Perm.of_eq (forServer_congr fun verdict hmem => ?_).symm)
  exact hextended.stored verdict.ackId (h.mem_received hmem)

theorem filterMap_forServer_nack (stored : Dict Nat α) (ids : List Nat) :
    (ids.map AckOrNack.nack).filterMap (forServer stored) = (ids.filterMap stored.get?).map .nack := by
  rw [List.filterMap_map, List.map_filterMap]
  rfl

theorem Inv.gracefulStop (h : Inv s) (hexit : s.exited = false) (config : Config) {receiver}
    (hreceiver : s.receiver = .gracefulStop :: receiver) :
    Inv (State.handleGracefulStop config { s with receiver := receiver }) := by
  have hsettled : ({ s with receiver := receiver } : State α).settled = s.settled := by
    rw [State.settled, State.settled, hreceiver]
    rfl
  have hnodup : (({ s with receiver := receiver } : State α).settled.map (·.ackId)).Nodup := by
    rw [hsettled]
    exact h.nodup
  have hhanded : ∀ ackId ∈ ({ s with receiver := receiver } : State α).settled.map (·.ackId),
      ackId ∈ s.manager.handed.map (·.ackId) := by
    rw [hsettled]
    exact h.handed
  have hrequested : s.stopRequested = true :=
    h.requested.2 (.inl (by rw [hreceiver]; exact List.mem_cons_self))
  rw [State.handleGracefulStop]
  split
  · next hstop =>
    exact { h with requested := ⟨fun _ => .inr hstop, fun _ => hrequested⟩, nodup := hnodup, handed := hhanded }
  · next hstop =>
    have hundrained := h.undrained (by simpa using hstop)
    set ids := State.drainAndCollectAllAckIds config.hash s.manager.messagesOnHold with hids
    have hheld : ids.Perm (s.manager.messagesOnHold.held.map (·.ackId)) := State.perm_drain config.hash _
    have hpartition := h.accounts.partition
    have hflatten : (State.chunks ackIdsMaxBatchSize ids.length ids).flatten = ids :=
      State.flatten_chunks (by decide) ids.length ids (Nat.le_refl _)
    have hmapped := h.accounts.mapped.trans (hheld.symm.append_right _)
    rw [← hflatten] at hmapped
    obtain ⟨q, requests, running, spawned, heq, hdrawn, houtcomes⟩ :=
      State.nackOnHold_foldl (State.chunks ackIdsMaxBatchSize ids.length ids)
        (s := { s with
          receiver := receiver
          channel := none
          manager := { s.manager with messagesOnHold := {}, drained := ids } })
        ⟨h.accounts.wellFormed, rfl, rfl, hmapped, h.accounts.stored⟩
    rw [hflatten] at houtcomes
    dsimp only
    rw [heq]
    refine ⟨⟨⟨?_, h.accounts.nodup, ?_, h.accounts.toPlaces.handed⟩, hdrawn.wellFormed, hdrawn.mapped,
      hdrawn.stored, h.accounts.known⟩, fun hstop' => (by cases hstop'), fun _ => ⟨rfl, rfl⟩,
      ⟨fun _ => .inr rfl, fun _ => hrequested⟩, h.finished, hnodup, hhanded, ?_, not_exited hexit⟩
    · change ∀ message ∈ s.manager.received, message.ackId ≤ q.lastAckId
      rw [hdrawn.lastAckId]
      exact h.accounts.counted
    · change (s.manager.received.map _).Perm ([] ++ s.manager.messagesInFlight.messagesInFlight.keys ++
        s.manager.finished ++ ids)
      rw [hundrained, List.append_nil, List.append_assoc] at hpartition
      rw [List.nil_append]
      exact hpartition.trans ((hheld.symm.append_right _).trans List.perm_append_comm)
    · change (requests.flatMap Request.outcomes ++ q.pending).Perm
        ((s.handled ++ ids.map AckOrNack.nack).filterMap (forServer s.manager.stored))
      have houtcomes' := h.outcomes
      rw [State.verdicts, hundrained, List.map_nil, List.append_nil] at houtcomes'
      rw [houtcomes, hdrawn.pending, List.filterMap_append, filterMap_forServer_nack, List.append_assoc]
      refine (List.perm_append_comm.append_left s.outcomes).trans ?_
      rw [← List.append_assoc]
      exact houtcomes'.append_right _

/-! ## What a step can do -/

namespace State

/-- What the choice of a branch says of the state. -/
def Ready (s : State α) : Branch α → Prop
  | .reportMetrics => s.nextReport ≤ s.now
  | .renewLeases => s.nextRenewal ≤ s.now
  | .managerMessage message receiver => s.receiver = message :: receiver
  | .flushChunk chunk q => s.receiver = [] ∧ s.manager.messageAckQueue.nextChunk s.now = (some chunk, q)
  | .channelEvent event channel => s.receiver = [] ∧ s.channel = some (event :: channel)
  | .joinNext => s.receiver = [] ∧ s.joinable ≠ 0

structure Idle (s : State α) : Prop where
  receiver : s.receiver = []
  chunk : (s.manager.messageAckQueue.nextChunk s.now).1 = none
  joinable : s.joinable = 0

theorem select_spec (s : State α) :
    (∀ branch, s.select = some branch → s.Ready branch) ∧ (s.select = none → s.Idle) := by
  have hsome : ∀ {branch : Branch α}, s.Ready branch →
      (∀ branch', some branch = some branch' → s.Ready branch') ∧ (some branch = none → s.Idle) := by
    intro branch hready
    exact ⟨fun branch' heq => (by cases heq; exact hready), fun heq => by cases heq⟩
  rw [select]
  split
  · next hdue => exact hsome hdue
  split
  · next hdue => exact hsome hdue
  cases hreceiver : s.receiver with
  | cons message receiver => exact hsome hreceiver
  | nil =>
    rcases hchunk : s.manager.messageAckQueue.nextChunk s.now with ⟨_ | chunk, q⟩
    · dsimp only
      split
      · next event channel hchannel => exact hsome ⟨hreceiver, hchannel⟩
      · split
        · next hjoinable => exact ⟨fun _ heq => (by cases heq), fun _ => ⟨hreceiver, by rw [hchunk], hjoinable⟩⟩
        · next hjoinable => exact hsome ⟨hreceiver, hjoinable⟩
    · exact hsome ⟨hreceiver, hchunk⟩

end State

/-- The two kinds of steps that must recur: turns of the loop, and time. -/
def recurs : Bool → Label α → Prop
  | true, .iterate _ => True
  | false, .pass duration => 1 ≤ duration
  | _, _ => False

inductive Step (config : Config) (s : State α) : Label α → State α → Prop
  | settle {verdict : AckOrNack Nat} (h : verdict.ackId ∈ s.outstanding) :
    Step config s (.settle verdict) { s with receiver := s.receiver ++ [.ackOrNack verdict] }
  | requestStop (h : s.stopRequested = false) :
    Step config s .requestStop { s with stopRequested := true, receiver := s.receiver ++ [.gracefulStop] }
  | arrive (event : ChannelEvent α) : Step config s (.arrive event) { s with channel := s.channel.map (· ++ [event]) }
  | complete {task : Nat} (h : task ∈ s.running) :
    Step config s (.complete task) { s with running := s.running.erase task, joinable := s.joinable + 1 }
  | pass (duration : Nat) (h : s.select = none) : Step config s (.pass duration) { s with now := s.now + duration }
  | exit (turns : List State.RenewalTurn) (h : s.shouldStop = true) :
    Step config s (.iterate turns) { s with exited := true }
  | turn (turns : List State.RenewalTurn) (branch : State.Branch α) (hexit : s.exited = false)
    (hgo : s.shouldStop = false) (hselect : s.select = some branch) :
    Step config s (.iterate turns) (s.handle config turns branch)
  | stay {label : Label α} (hpass : recurs false label → s.select ≠ none)
    (hiterate : recurs true label → s.exited = true ∨ s.shouldStop = false ∧ s.select = none) :
    Step config s label s

theorem State.steps (config : Config) (s : State α) (label : Label α) : Step config s label (s.step config label) := by
  cases label with
  | settle verdict =>
    rw [State.step]
    split
    · next hmem => exact .settle hmem
    · exact .stay (fun hrec => hrec.elim) fun hrec => hrec.elim
  | requestStop =>
    rw [State.step]
    split
    · exact .stay (fun hrec => hrec.elim) fun hrec => hrec.elim
    · next hrequested => exact .requestStop (by simpa using hrequested)
  | arrive event => exact .arrive event
  | complete task =>
    rw [State.step]
    split
    · next hmem => exact .complete hmem
    · exact .stay (fun hrec => hrec.elim) fun hrec => hrec.elim
  | pass duration =>
    rw [State.step]
    split
    · next hnone => exact .pass duration (Option.isNone_iff_eq_none.1 hnone)
    · next hsome => exact .stay (fun _ hnone => hsome (Option.isNone_iff_eq_none.2 hnone)) fun hrec => hrec.elim
  | iterate turns =>
    rw [State.step, State.iterate]
    split
    · next hexit => exact .stay (fun hrec => hrec.elim) fun _ => .inl hexit
    split
    · next hstop => exact .exit turns hstop
    next hexit hgo =>
    cases hselect : s.select with
    | none => exact .stay (fun hrec => hrec.elim) fun _ => .inr ⟨by simpa using hgo, hselect⟩
    | some branch => exact .turn turns branch (by simpa using hexit) (by simpa using hgo) hselect

variable {config : Config} {label : Label α} {s' : State α}

theorem Inv.handle (h : Inv s) (hexit : s.exited = false) (turns : List State.RenewalTurn) {branch}
    (hselect : s.select = some branch) : Inv (s.handle config turns branch) := by
  have hready := s.select_spec.1 branch hselect
  cases branch with
  | reportMetrics => exact { h with }
  | renewLeases => exact h.renewLeases hexit config turns _
  | managerMessage message receiver =>
    cases message with
    | ackOrNack verdict => exact h.ackOrNack hexit hready
    | gracefulStop => exact h.gracefulStop hexit config hready
  | flushChunk chunk q => exact h.flushChunk hexit hready.2
  | channelEvent event channel =>
    cases event with
    | response entries => exact h.response hexit config.slab entries hready.2
    | failed =>
      refine { h with stopped := fun hstop => ?_ }
      have hchannel := hready.2
      rw [(h.stopped hstop).2] at hchannel
      cases hchannel
  | joinNext => exact { h with exited := not_exited hexit }

theorem Inv.step (h : Inv s) (hstep : Step config s label s') : Inv s' := by
  cases hstep with
  | settle hmem => exact h.settle hmem
  | requestStop _ => exact h.requestStop
  | arrive event =>
    refine { h with stopped := fun hstop => ?_ }
    obtain ⟨hhold, hchannel⟩ := h.stopped hstop
    refine ⟨hhold, ?_⟩
    change s.channel.map _ = none
    rw [hchannel, Option.map_none]
  | complete hmem =>
    refine { h with exited := fun hexit => ?_ }
    have hshould := h.exited hexit
    simp only [State.shouldStop, Bool.and_eq_true, List.isEmpty_iff] at hshould
    rw [hshould.1.2] at hmem
    cases hmem
  | pass _ _ => exact { h with }
  | exit _ hstop => exact { h with exited := fun _ => hstop }
  | turn turns branch hexit _ hselect => exact h.handle hexit turns hselect
  | stay _ _ => exact h

theorem Inv.run (h : Inv s) (config : Config) (labels : List (Label α)) : Inv (labels.foldl (State.step config) s) :=
  List.foldlRecOn labels _ h fun s h label _ => h.step (s.steps config label)

end

end Osprey.StreamingPull.MainLoop
