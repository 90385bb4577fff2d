/-
The streaming pull manager, up to a graceful stop: messages that the server
sends are stored with the ack queue, held until there is room for them and
until the message before them under the same ordering key is done, and handed
to the handler.

An ordering key has a queue, even an empty one, exactly as long as one of its
messages is ready or in flight. That and the limit on the messages in flight
are what the three structures keep together; the lists of what was received,
handed on and finished are carried along to state it.
-/
import Osprey.Coordinator.MessageAckQueue

namespace Osprey.StreamingPull

open Lib (Dict)

variable {α : Type}

/-! ## Messages -/

structure PubsubMessage where
  data : List UInt8
  orderingKey : String
  attributes : List (String × String)
  messageId : String

structure ReceivedMessage (α : Type) where
  ackId : α
  message : Option PubsubMessage
  deliveryAttempt : Nat := 0

structure DetachedMessage where
  data : List UInt8
  orderingKey : Option String
  attributes : List (String × String)
  messageId : String
  deliveryAttempt : Nat
  size : Nat

def DetachedMessage.new (m : PubsubMessage) (deliveryAttempt : Nat) : DetachedMessage where
  size := m.data.length + m.messageId.utf8ByteSize + m.orderingKey.utf8ByteSize +
    (m.attributes.map fun (k, v) => k.utf8ByteSize + v.utf8ByteSize).sum
  data := m.data
  orderingKey := if m.orderingKey = "" then none else some m.orderingKey
  attributes := m.attributes
  messageId := m.messageId
  deliveryAttempt := deliveryAttempt

/-- A message with the id that its guard acks or nacks. -/
structure Message where
  ackId : Nat
  innerMessage : DetachedMessage

def Message.orderingKey (m : Message) : Option String := m.innerMessage.orderingKey

def Message.size (m : Message) : Nat := m.innerMessage.size

def keyed (key : String) (m : Message) : Bool := m.orderingKey = some key

/-! ## Messages on hold -/

structure MessagesOnHold where
  len : Nat := 0
  sizeInBytes : Nat := 0
  readyMessages : List Message := []
  pendingOrderedMessages : Dict String (List Message) := Dict.empty

namespace MessagesOnHold

/-- `push`: behind the queue of its key, or ready, with an empty queue for its key. -/
def push (h : MessagesOnHold) (m : Message) : MessagesOnHold :=
  let h := { h with len := h.len + 1, sizeInBytes := h.sizeInBytes + m.size }
  match m.orderingKey with
  | none => { h with readyMessages := h.readyMessages ++ [m] }
  | some key =>
    match h.pendingOrderedMessages.get? key with
    | some queue => { h with pendingOrderedMessages := h.pendingOrderedMessages.set key (queue ++ [m]) }
    | none =>
      { h with
        readyMessages := h.readyMessages ++ [m]
        pendingOrderedMessages := h.pendingOrderedMessages.set key [] }

def popReady (h : MessagesOnHold) : Option (Message × MessagesOnHold) :=
  match h.readyMessages with
  | [] => none
  | m :: ready =>
    some (m, { h with len := h.len - 1, sizeInBytes := h.sizeInBytes - m.size, readyMessages := ready })

/-- `activate_ordering_key`: the next message of the key becomes the first that is ready; without one the key
loses its queue. -/
def activateOrderingKey (h : MessagesOnHold) (key : String) : MessagesOnHold :=
  match h.pendingOrderedMessages.get? key with
  | none => h
  | some (m :: queue) =>
    { h with
      readyMessages := m :: h.readyMessages
      pendingOrderedMessages := h.pendingOrderedMessages.set key queue }
  | some [] => { h with pendingOrderedMessages := h.pendingOrderedMessages.erase key }

def queued (h : MessagesOnHold) : List Message := h.pendingOrderedMessages.values.flatten

def held (h : MessagesOnHold) : List Message := h.readyMessages ++ h.queued

def queueOf (h : MessagesOnHold) (key : String) : List Message := (h.pendingOrderedMessages.get? key).getD []

end MessagesOnHold

/-! ## Messages in flight -/

structure MessageInFlight where
  orderingKey : Option String
  sizeInBytes : Nat

structure MessagesInFlight where
  messagesInFlight : Dict Nat MessageInFlight := Dict.empty
  bytesInFlight : Nat := 0

namespace MessagesInFlight

def len (f : MessagesInFlight) : Nat := f.messagesInFlight.keys.length

def isEmpty (f : MessagesInFlight) : Bool := f.messagesInFlight.entries.isEmpty

def remove (f : MessagesInFlight) (ackId : Nat) : Option (Option String) × MessagesInFlight :=
  match f.messagesInFlight.get? ackId with
  | none => (none, f)
  | some removed =>
    (some removed.orderingKey, ⟨f.messagesInFlight.erase ackId, f.bytesInFlight - removed.sizeInBytes⟩)

def insert (f : MessagesInFlight) (m : Message) : MessagesInFlight :=
  let bytesInFlight :=
    match f.messagesInFlight.get? m.ackId with
    | some prevInFlight => f.bytesInFlight - prevInFlight.sizeInBytes
    | none => f.bytesInFlight
  ⟨f.messagesInFlight.set m.ackId ⟨m.orderingKey, m.size⟩, bytesInFlight + m.size⟩

def countOf (f : MessagesInFlight) (key : String) : Nat :=
  f.messagesInFlight.values.countP fun m => m.orderingKey = some key

end MessagesInFlight

/-! ## The manager -/

/-- `StreamingPullManagerState`, with what has been received (and under which ack ids of the server), handed to
the handler, finished, and taken from hold by a graceful stop. -/
structure Manager (α : Type) where
  maxProcessingMessages : Nat
  messageAckQueue : MessageAckQueue α
  messagesOnHold : MessagesOnHold := {}
  messagesInFlight : MessagesInFlight := {}
  received : List Message := []
  stored : Dict Nat α := Dict.empty
  handed : List Message := []
  finished : List Nat := []
  drained : List Nat := []

namespace Manager

/-- How long a lease is left before it is first renewed: one second. -/
def leaseRenewDelay : Nat := 1000

/-- An entry of a response; one without a message is skipped. -/
def receive (slab : Slab) (now : Nat) (m : Manager α) (entry : ReceivedMessage α) : Manager α :=
  match entry.message with
  | none => m
  | some protoMessage =>
    let (ackId, messageAckQueue) :=
      m.messageAckQueue.transformAndStoreAckId slab entry.ackId now (now + leaseRenewDelay)
    let message := ⟨ackId, .new protoMessage entry.deliveryAttempt⟩
    { m with
      messageAckQueue := messageAckQueue
      messagesOnHold := m.messagesOnHold.push message
      received := m.received ++ [message]
      stored := m.stored.set ackId entry.ackId }

def transformAndInsertMessagesIntoMessagesOnHold (slab : Slab) (now : Nat) (m : Manager α)
    (response : List (ReceivedMessage α)) : Manager α :=
  response.foldl (receive slab now) m

/-- The loop of `try_flush_messages_on_hold_batch`. -/
def flushReady : Nat → Manager α → Manager α
  | 0, m => m
  | turns + 1, m =>
    if m.messagesInFlight.len < m.maxProcessingMessages then
      match m.messagesOnHold.popReady with
      | none => m
      | some (message, messagesOnHold) =>
        flushReady turns
          { m with
            messagesOnHold := messagesOnHold
            messagesInFlight := m.messagesInFlight.insert message
            handed := m.handed ++ [message] }
    else m

/-- Each turn of the loop takes a message that is ready, so there are no more turns than those. -/
def tryFlushMessagesOnHoldBatch (m : Manager α) : Manager α := flushReady m.messagesOnHold.readyMessages.length m

def handleStreamingPullResponse (slab : Slab) (now : Nat) (m : Manager α) (response : List (ReceivedMessage α)) :
    Manager α :=
  (m.transformAndInsertMessagesIntoMessagesOnHold slab now response).tryFlushMessagesOnHoldBatch

/-- The part of `handle_ack_or_nack` that ends with the activation of the next message of the key. -/
def finish (m : Manager α) (ackId : Nat) : Manager α :=
  match m.messagesInFlight.remove ackId with
  | (none, _) => m
  | (some none, messagesInFlight) =>
    { m with messagesInFlight := messagesInFlight, finished := m.finished ++ [ackId] }
  | (some (some orderingKey), messagesInFlight) =>
    { m with
      messagesInFlight := messagesInFlight
      messagesOnHold := m.messagesOnHold.activateOrderingKey orderingKey
      finished := m.finished ++ [ackId] }

def handleAckOrNack (now : Nat) (m : Manager α) (ackOrNack : AckOrNack Nat) : Manager α :=
  let m := { m with messageAckQueue := m.messageAckQueue.enqueueAckOrNack now ackOrNack }
  (m.finish ackOrNack.ackId).tryFlushMessagesOnHoldBatch

/-- The messages of a response's entries, with the ack ids of the server. -/
def messagesOf (entries : List (ReceivedMessage α)) : List (Option α × DetachedMessage) :=
  entries.filterMap fun entry => entry.message.map fun message => (some entry.ackId, .new message entry.deliveryAttempt)

/-- What has been received, likewise. -/
def delivered (m : Manager α) : List (Option α × DetachedMessage) :=
  m.received.map fun message => (m.stored.get? message.ackId, message.innerMessage)

end Manager

/-! ## The invariant -/

namespace Manager

/-- Where the received messages are: each in one place. -/
structure Places (m : Manager α) : Prop where
  counted : ∀ message ∈ m.received, message.ackId ≤ m.messageAckQueue.lastAckId
  nodup : (m.received.map (·.ackId)).Nodup
  partition : (m.received.map (·.ackId)).Perm
    (m.messagesOnHold.held.map (·.ackId) ++ m.messagesInFlight.messagesInFlight.keys ++ m.finished ++ m.drained)
  handed : (m.handed.map (·.ackId)).Perm (m.messagesInFlight.messagesInFlight.keys ++ m.finished)

/-- What the manager keeps between the parts of its handlers, before a graceful stop. -/
structure Inv (m : Manager α) : Prop extends Places m where
  undrained : m.drained = []
  order : ∀ key, m.received.filter (keyed key) =
    m.handed.filter (keyed key) ++ m.messagesOnHold.readyMessages.filter (keyed key) ++ m.messagesOnHold.queueOf key
  marker : ∀ key, m.messagesOnHold.readyMessages.countP (keyed key) + m.messagesInFlight.countOf key =
    if (m.messagesOnHold.pendingOrderedMessages.get? key).isSome then 1 else 0
  queued : ∀ key queue, m.messagesOnHold.pendingOrderedMessages.get? key = some queue →
    ∀ message ∈ queue, message.orderingKey = some key
  len : m.messagesOnHold.len = m.messagesOnHold.held.length
  size : m.messagesOnHold.sizeInBytes = (m.messagesOnHold.held.map (·.size)).sum
  limit : m.messagesInFlight.len ≤ m.maxProcessingMessages

section

variable {m : Manager α}

theorem perm_flatten_set (d : Dict String (List Message)) (key : String) (queue : List Message) :
    (d.set key queue).values.flatten.Perm (queue ++ (d.erase key).values.flatten) :=
  (d.perm_values_set key queue).flatten

variable {queue : List Message} {key : String}

theorem perm_flatten_erase {d : Dict String (List Message)}
    (h : d.get? key = some queue) : d.values.flatten.Perm (queue ++ (d.erase key).values.flatten) :=
  (Dict.perm_values_erase h).flatten

/-- What `push` does: the message goes to the ready ones, and its key gets a queue; or it goes behind the queue
that its key has. -/
theorem push_cases (h : MessagesOnHold) (message : Message) :
    (message.orderingKey = none ∧ (h.push message).readyMessages = h.readyMessages ++ [message] ∧
      (h.push message).pendingOrderedMessages = h.pendingOrderedMessages) ∨
    (∃ key, message.orderingKey = some key ∧ h.pendingOrderedMessages.get? key = none ∧
      (h.push message).readyMessages = h.readyMessages ++ [message] ∧
      (h.push message).pendingOrderedMessages = h.pendingOrderedMessages.set key []) ∨
    ∃ key queue, message.orderingKey = some key ∧ h.pendingOrderedMessages.get? key = some queue ∧
      (h.push message).readyMessages = h.readyMessages ∧
      (h.push message).pendingOrderedMessages = h.pendingOrderedMessages.set key (queue ++ [message]) := by
  rw [MessagesOnHold.push]
  cases hkey : message.orderingKey with
  | none => exact .inl ⟨rfl, rfl, rfl⟩
  | some key =>
    cases hqueue : h.pendingOrderedMessages.get? key with
    | none => exact .inr (.inl ⟨key, rfl, hqueue, by simp [hqueue], by simp [hqueue]⟩)
    | some queue => exact .inr (.inr ⟨key, queue, rfl, hqueue, by simp [hqueue], by simp [hqueue]⟩)

theorem perm_held_push (h : MessagesOnHold) (message : Message) : (h.push message).held.Perm (message :: h.held) := by
  have hready : (h.readyMessages ++ [message] ++ h.queued).Perm (message :: h.held) := by
    rw [MessagesOnHold.held, List.append_assoc]
    exact List.perm_middle
  rw [MessagesOnHold.held, MessagesOnHold.queued]
  rcases push_cases h message with ⟨-, hr, hp⟩ | ⟨key, -, hqueue, hr, hp⟩ | ⟨key, queue, -, hqueue, hr, hp⟩
  · rw [hr, hp]
    exact hready
  · rw [hr, hp]
    refine List.Perm.trans (List.Perm.append_left _ ?_) hready
    refine (perm_flatten_set h.pendingOrderedMessages key []).trans ?_
    rw [List.nil_append, Dict.erase_of_none hqueue]
    exact .refl _
  · rw [hr, hp]
    refine List.Perm.trans (List.Perm.append_left _ ?_) List.perm_middle
    refine (perm_flatten_set h.pendingOrderedMessages key (queue ++ [message])).trans ?_
    rw [List.append_assoc]
    exact List.perm_middle.trans ((perm_flatten_erase hqueue).symm.cons message)

variable {message : Message}

theorem keyed_iff : keyed key message ↔ message.orderingKey = some key := by
  rw [keyed, decide_eq_true_eq]

theorem not_keyed {key'} (h : message.orderingKey = some key') (hne : key ≠ key') :
    keyed key message = false := by
  simpa [keyed, h] using Ne.symm hne

theorem order_push (h : MessagesOnHold) (message : Message) (key : String) :
    (h.push message).readyMessages.filter (keyed key) ++ (h.push message).queueOf key =
      h.readyMessages.filter (keyed key) ++ (h.queueOf key ++ [message].filter (keyed key)) := by
  rw [MessagesOnHold.queueOf, MessagesOnHold.queueOf]
  rcases push_cases h message with ⟨hkey, hr, hp⟩ | ⟨key', hkey, hqueue, hr, hp⟩ | ⟨key', queue, hkey, hqueue, hr, hp⟩
  · have hnot : keyed key message = false := by simp [keyed, hkey]
    simp [hr, hp, hnot]
  · rw [hr, hp, Dict.get?_set, List.filter_append]
    split
    · next heq => simp [heq, hqueue]
    · next hne => simp [not_keyed hkey hne]
  · rw [hr, hp, Dict.get?_set]
    split
    · next heq => simp [heq, hqueue, keyed_iff.2 hkey]
    · next hne => simp [not_keyed hkey hne]

theorem marker_push (h : MessagesOnHold) (message : Message) (key : String) {count}
    (hmarker : h.readyMessages.countP (keyed key) + count =
      if (h.pendingOrderedMessages.get? key).isSome then 1 else 0) :
    (h.push message).readyMessages.countP (keyed key) + count =
      if ((h.push message).pendingOrderedMessages.get? key).isSome then 1 else 0 := by
  rcases push_cases h message with ⟨hkey, hr, hp⟩ | ⟨key', hkey, hqueue, hr, hp⟩ | ⟨key', queue, hkey, hqueue, hr, hp⟩
  · have hnot : keyed key message = false := by simp [keyed, hkey]
    simpa [hr, hp, hnot] using hmarker
  · rw [hr, hp, List.countP_append, Dict.get?_set]
    by_cases heq : key = key'
    · subst heq
      rw [hqueue] at hmarker
      simp only [Option.isSome_none, Bool.false_eq_true, if_false] at hmarker
      simp [keyed_iff.2 hkey]
      omega
    · simpa [heq, not_keyed hkey heq] using hmarker
  · rw [hr, hp, Dict.get?_set]
    by_cases heq : key = key'
    · subst heq
      simpa [hqueue] using hmarker
    · simpa [heq] using hmarker

variable {h : MessagesOnHold}

theorem queued_push (hqueued : ∀ key queue, h.pendingOrderedMessages.get? key = some queue →
      ∀ message ∈ queue, message.orderingKey = some key) :
    ∀ key queue, (h.push message).pendingOrderedMessages.get? key = some queue →
      ∀ message ∈ queue, message.orderingKey = some key := by
  rcases push_cases h message with ⟨-, -, hp⟩ | ⟨key', -, -, -, hp⟩ | ⟨key', queue', hkey, hqueue, -, hp⟩
  · rw [hp]
    exact hqueued
  · rw [hp]
    exact Dict.forall_set hqueued (List.forall_mem_nil _)
  · rw [hp]
    have hqueue' := List.forall_mem_append.2 ⟨hqueued key' queue' hqueue, List.forall_mem_singleton.2 hkey⟩
    exact Dict.forall_set hqueued hqueue'

theorem len_push (h : MessagesOnHold) (message : Message) : (h.push message).len = h.len + 1 := by
  rw [MessagesOnHold.push]
  split
  · rfl
  · split <;> rfl

theorem sizeInBytes_push (h : MessagesOnHold) (message : Message) :
    (h.push message).sizeInBytes = h.sizeInBytes + message.size := by
  rw [MessagesOnHold.push]
  split
  · rfl
  · split <;> rfl

/-- A message is received under the next id. -/
abbrev pushed (m : Manager α) (message : Message) (messageAckQueue : MessageAckQueue α) (stored : Dict Nat α) :
    Manager α :=
  { m with
    messageAckQueue := messageAckQueue
    messagesOnHold := m.messagesOnHold.push message
    received := m.received ++ [message]
    stored := stored }

section Push

variable {message : Message} {messageAckQueue : MessageAckQueue α} {stored : Dict Nat α}

theorem Places.push (h : Places m) (hid : message.ackId = m.messageAckQueue.lastAckId + 1)
    (hlast : messageAckQueue.lastAckId = m.messageAckQueue.lastAckId + 1) :
    Places (m.pushed message messageAckQueue stored) := by
  have hheld := perm_held_push m.messagesOnHold message
  refine ⟨fun message' hmem => ?_, ?_, ?_, h.handed⟩
  · change message'.ackId ≤ messageAckQueue.lastAckId
    rw [hlast]
    rcases List.mem_append.1 hmem with hmem | hmem
    · exact Nat.le_succ_of_le (h.counted message' hmem)
    · rw [List.mem_singleton.1 hmem, hid]
  · rw [List.map_append, List.map_singleton, List.nodup_append]
    refine ⟨h.nodup, List.nodup_singleton _, fun a ha b hb => ?_⟩
    obtain ⟨message', hmem, rfl⟩ := List.mem_map.1 ha
    have hle := h.counted message' hmem
    rw [List.mem_singleton.1 hb, hid]
    omega
  · change ((m.received ++ [message]).map _).Perm ((m.messagesOnHold.push message).held.map _ ++ _ ++ _ ++ _)
    rw [List.map_append, List.map_singleton]
    refine (List.perm_append_singleton _ _).trans ((h.partition.cons message.ackId).trans ?_)
    exact (((hheld.map _).symm.append_right _).append_right _).append_right _

theorem Inv.push (h : Inv m) (hid : message.ackId = m.messageAckQueue.lastAckId + 1)
    (hlast : messageAckQueue.lastAckId = m.messageAckQueue.lastAckId + 1) :
    Inv (m.pushed message messageAckQueue stored) := by
  have hheld := perm_held_push m.messagesOnHold message
  refine ⟨h.toPlaces.push hid hlast, h.undrained, fun key => ?_, fun key => marker_push _ _ _ (h.marker key),
    queued_push h.queued, ?_, ?_, h.limit⟩
  · change (m.received ++ [message]).filter (keyed key) = m.handed.filter (keyed key) ++
      (m.messagesOnHold.push message).readyMessages.filter (keyed key) ++ (m.messagesOnHold.push message).queueOf key
    rw [List.filter_append, h.order key]
    simp only [List.append_assoc]
    rw [order_push]
  · change (m.messagesOnHold.push message).len = (m.messagesOnHold.push message).held.length
    rw [len_push, hheld.length_eq, h.len, List.length_cons]
  · change (m.messagesOnHold.push message).sizeInBytes = ((m.messagesOnHold.push message).held.map _).sum
    rw [sizeInBytes_push, (hheld.map _).sum_eq, h.size, List.map_cons, List.sum_cons, Nat.add_comm]

end Push

theorem Inv.receive (h : Inv m) (slab : Slab) (now : Nat) (entry : ReceivedMessage α) :
    Inv (m.receive slab now entry) := by
  rw [Manager.receive]
  cases entry.message with
  | none => exact h
  | some protoMessage => exact h.push rfl rfl

theorem Inv.transformAndInsert (h : Inv m) (slab : Slab) (now : Nat) (response : List (ReceivedMessage α)) :
    Inv (m.transformAndInsertMessagesIntoMessagesOnHold slab now response) :=
  List.foldlRecOn response _ h fun _ h entry _ => h.receive slab now entry

variable {f : MessagesInFlight}

theorem perm_keys_insert (hnew : f.messagesInFlight.get? message.ackId = none) :
    (f.insert message).messagesInFlight.keys.Perm (message.ackId :: f.messagesInFlight.keys) := by
  refine (Dict.perm_keys_set f.messagesInFlight message.ackId _).trans ?_
  rw [Dict.erase_of_none hnew]

theorem countOf_insert (hnew : f.messagesInFlight.get? message.ackId = none) (key : String) :
    (f.insert message).countOf key = f.countOf key + if keyed key message then 1 else 0 := by
  have hperm := Dict.perm_values_set f.messagesInFlight message.ackId ⟨message.orderingKey, message.size⟩
  rw [Dict.erase_of_none hnew] at hperm
  refine (hperm.countP_eq _).trans ?_
  rw [List.countP_cons, keyed]
  rfl

variable {item : MessageInFlight} {ackId : Nat}

theorem countOf_erase (hitem : f.messagesInFlight.get? ackId = some item) (key : String) (bytesInFlight : Nat) :
    f.countOf key = MessagesInFlight.countOf ⟨f.messagesInFlight.erase ackId, bytesInFlight⟩ key +
      if item.orderingKey = some key then 1 else 0 := by
  refine ((Dict.perm_values_erase hitem).countP_eq _).trans ?_
  rw [List.countP_cons]
  simp only [decide_eq_true_eq]
  rfl

/-- A message that is ready is handed on. -/
abbrev dispatched (m : Manager α) (message : Message) (ready : List Message) : Manager α :=
  { m with
    messagesOnHold :=
      { m.messagesOnHold with
        len := m.messagesOnHold.len - 1
        sizeInBytes := m.messagesOnHold.sizeInBytes - message.size
        readyMessages := ready }
    messagesInFlight := m.messagesInFlight.insert message
    handed := m.handed ++ [message] }

section Dispatch

variable {message : Message} {ready : List Message} (hready : m.messagesOnHold.readyMessages = message :: ready)

include hready

theorem held_of_ready : m.messagesOnHold.held = message :: (ready ++ m.messagesOnHold.queued) := by
  rw [MessagesOnHold.held, hready, List.cons_append]

theorem Places.not_in_flight (h : Places m) : m.messagesInFlight.messagesInFlight.get? message.ackId = none := by
  have hnodup := h.partition.nodup_iff.1 h.nodup
  rw [held_of_ready hready, List.append_assoc, List.append_assoc, List.map_cons, List.cons_append,
    List.nodup_cons] at hnodup
  by_contra hsome
  have hmem := Dict.isSome_get?.1 (Option.isSome_iff_ne_none.2 hsome)
  exact hnodup.1 (List.mem_append_right _ (List.mem_append_left _ hmem))

theorem Places.perm_dispatched (h : Places m) :
    (m.messagesOnHold.held.map (·.ackId) ++ m.messagesInFlight.messagesInFlight.keys).Perm
      ((m.dispatched message ready).messagesOnHold.held.map (·.ackId) ++
        (m.dispatched message ready).messagesInFlight.messagesInFlight.keys) := by
  rw [held_of_ready hready]
  change (message.ackId :: (ready ++ m.messagesOnHold.queued).map _ ++ _).Perm
    ((ready ++ m.messagesOnHold.queued).map _ ++ (m.messagesInFlight.insert message).messagesInFlight.keys)
  exact List.perm_middle.symm.trans ((perm_keys_insert (h.not_in_flight hready)).symm.append_left _)

theorem Places.dispatch (h : Places m) : Places (m.dispatched message ready) := by
  refine ⟨h.counted, h.nodup, ?_, ?_⟩
  · exact h.partition.trans (((h.perm_dispatched hready).append_right _).append_right _)
  · change ((m.handed ++ [message]).map _).Perm ((m.messagesInFlight.insert message).messagesInFlight.keys ++ _)
    rw [List.map_append, List.map_singleton]
    exact (List.perm_append_singleton _ _).trans
      ((h.handed.cons message.ackId).trans ((perm_keys_insert (h.not_in_flight hready)).symm.append_right m.finished))

theorem Inv.dispatch (h : Inv m) (hlimit : m.messagesInFlight.len < m.maxProcessingMessages) :
    Inv (m.dispatched message ready) := by
  have hheld := held_of_ready hready
  have hnew := h.not_in_flight hready
  refine ⟨h.toPlaces.dispatch hready, h.undrained, fun key => ?_, fun key => ?_, h.queued, ?_, ?_, ?_⟩
  · change m.received.filter (keyed key) = (m.handed ++ [message]).filter (keyed key) ++ ready.filter (keyed key) ++
      m.messagesOnHold.queueOf key
    rw [h.order key, hready, ← List.singleton_append, List.filter_append, List.filter_append]
    simp only [List.append_assoc]
  · change ready.countP (keyed key) + (m.messagesInFlight.insert message).countOf key = _
    have hmarker := h.marker key
    rw [hready, List.countP_cons] at hmarker
    rw [countOf_insert hnew, ← hmarker]
    omega
  · change m.messagesOnHold.len - 1 = (ready ++ m.messagesOnHold.queued).length
    rw [h.len, hheld, List.length_cons, Nat.add_sub_cancel]
  · change m.messagesOnHold.sizeInBytes - message.size = ((ready ++ m.messagesOnHold.queued).map _).sum
    rw [h.size, hheld, List.map_cons, List.sum_cons, Nat.add_sub_cancel_left]
  · change (m.messagesInFlight.insert message).messagesInFlight.keys.length ≤ m.maxProcessingMessages
    rw [(perm_keys_insert hnew).length_eq, List.length_cons]
    exact hlimit

end Dispatch

theorem Inv.flushReady : ∀ (turns : Nat) {m : Manager α}, Inv m → m.messagesOnHold.readyMessages.length ≤ turns →
    Inv (flushReady turns m) ∧ ((flushReady turns m).messagesOnHold.readyMessages ≠ [] →
      (flushReady turns m).messagesInFlight.len = (flushReady turns m).maxProcessingMessages)
  | 0, m, h, hturns => by
    refine ⟨h, fun hne => absurd (List.length_eq_zero_iff.1 (Nat.le_zero.1 hturns)) hne⟩
  | turns + 1, m, h, hturns => by
    rw [Manager.flushReady]
    split
    · next hlimit =>
      cases hready : m.messagesOnHold.readyMessages with
      | nil =>
        simp only [MessagesOnHold.popReady, hready]
        exact ⟨h, fun hne => absurd rfl hne⟩
      | cons message ready =>
        simp only [MessagesOnHold.popReady, hready]
        rw [hready, List.length_cons] at hturns
        exact Inv.flushReady turns (Inv.dispatch hready h hlimit) (Nat.le_of_succ_le_succ hturns)
    · next hlimit => exact ⟨h, fun _ => Nat.le_antisymm h.limit (Nat.le_of_not_lt hlimit)⟩

theorem len_activate (h : MessagesOnHold) (key : String) : (h.activateOrderingKey key).len = h.len := by
  rw [MessagesOnHold.activateOrderingKey]
  split <;> rfl

theorem sizeInBytes_activate (h : MessagesOnHold) (key : String) :
    (h.activateOrderingKey key).sizeInBytes = h.sizeInBytes := by
  rw [MessagesOnHold.activateOrderingKey]
  split <;> rfl

section Activate

variable (hqueue : h.pendingOrderedMessages.get? key = some queue)

include hqueue

theorem activate_cases :
    (queue = [] ∧ (h.activateOrderingKey key).readyMessages = h.readyMessages ∧
      (h.activateOrderingKey key).pendingOrderedMessages = h.pendingOrderedMessages.erase key) ∨
    ∃ message rest, queue = message :: rest ∧
      (h.activateOrderingKey key).readyMessages = message :: h.readyMessages ∧
      (h.activateOrderingKey key).pendingOrderedMessages = h.pendingOrderedMessages.set key rest := by
  rw [MessagesOnHold.activateOrderingKey, hqueue]
  cases queue with
  | nil => exact .inl ⟨rfl, rfl, rfl⟩
  | cons message rest => exact .inr ⟨message, rest, rfl, rfl, rfl⟩

theorem queued_activate (hqueued : ∀ key queue, h.pendingOrderedMessages.get? key = some queue →
      ∀ message ∈ queue, message.orderingKey = some key) :
    ∀ key' queue, (h.activateOrderingKey key).pendingOrderedMessages.get? key' = some queue →
      ∀ message ∈ queue, message.orderingKey = some key' := by
  rcases activate_cases hqueue with ⟨-, -, hp⟩ | ⟨message, rest, rfl, -, hp⟩
  · rw [hp]
    exact Dict.forall_erase hqueued
  · rw [hp]
    exact Dict.forall_set hqueued (List.forall_mem_cons.1 (hqueued key _ hqueue)).2

variable (hkeyed : ∀ message ∈ queue, message.orderingKey = some key)

include hkeyed

theorem order_activate (hnone : h.readyMessages.filter (keyed key) = []) (key' : String) :
    (h.activateOrderingKey key).readyMessages.filter (keyed key') ++ (h.activateOrderingKey key).queueOf key' =
      h.readyMessages.filter (keyed key') ++ h.queueOf key' := by
  rw [MessagesOnHold.queueOf, MessagesOnHold.queueOf]
  rcases activate_cases hqueue with ⟨rfl, hr, hp⟩ | ⟨message, rest, rfl, hr, hp⟩
  · rw [hr, hp, Dict.get?_erase]
    split
    · next heq => rw [heq, hqueue]; rfl
    · rfl
  · have hmessage := hkeyed message (by simp)
    rw [hr, hp, Dict.get?_set]
    by_cases heq : key' = key
    · subst heq
      simp [keyed_iff.2 hmessage, hnone, hqueue]
    · simp [heq, not_keyed hmessage heq]

/-- The one message of the key that was ready or in flight is replaced by the next, or the key loses its queue. -/
theorem marker_activate (hnone : h.readyMessages.countP (keyed key) = 0) (key' : String) {count}
    (hmarker : h.readyMessages.countP (keyed key') + (count + if key' = key then 1 else 0) =
      if (h.pendingOrderedMessages.get? key').isSome then 1 else 0) :
    (h.activateOrderingKey key).readyMessages.countP (keyed key') + count =
      if ((h.activateOrderingKey key).pendingOrderedMessages.get? key').isSome then 1 else 0 := by
  by_cases heq : key' = key
  · subst heq
    rw [hqueue, hnone, if_pos rfl, Option.isSome_some, if_pos rfl] at hmarker
    rcases activate_cases hqueue with ⟨-, hr, hp⟩ | ⟨message, rest, rfl, hr, hp⟩
    · rw [hr, hp, hnone, Dict.get?_erase, if_pos rfl]
      simpa using hmarker
    · rw [hr, hp, Dict.get?_set, if_pos rfl, List.countP_cons, if_pos (keyed_iff.2 (hkeyed message (by simp))), hnone]
      simpa using hmarker
  · rw [if_neg heq, Nat.add_zero] at hmarker
    rcases activate_cases hqueue with ⟨-, hr, hp⟩ | ⟨message, rest, rfl, hr, hp⟩
    · rwa [hr, hp, Dict.get?_erase, if_neg heq]
    · have hnot := not_keyed (hkeyed message (by simp)) heq
      rwa [hr, hp, Dict.get?_set, if_neg heq, List.countP_cons_of_neg (by simp [hnot])]

end Activate

theorem perm_held_activateOrderingKey (h : MessagesOnHold) (key : String) :
    (h.activateOrderingKey key).held.Perm h.held := by
  cases hqueue : h.pendingOrderedMessages.get? key with
  | none => rw [MessagesOnHold.activateOrderingKey, hqueue]
  | some queue =>
    refine List.Perm.trans ?_ ((perm_flatten_erase hqueue).symm.append_left h.readyMessages)
    rw [MessagesOnHold.held, MessagesOnHold.queued]
    rcases activate_cases hqueue with ⟨hnil, hr, hp⟩ | ⟨message, rest, hcons, hr, hp⟩
    · rw [hr, hp, hnil, List.nil_append]
    · rw [hr, hp, hcons]
      refine ((perm_flatten_set h.pendingOrderedMessages key rest).append_left _).trans ?_
      rw [List.cons_append, List.cons_append]
      exact List.perm_middle.symm

section Release

variable (hitem : m.messagesInFlight.messagesInFlight.get? ackId = some item)

include hitem

/-- What is left in flight without one of the messages. -/
abbrev released (m : Manager α) (ackId : Nat) (item : MessageInFlight) : MessagesInFlight :=
  ⟨m.messagesInFlight.messagesInFlight.erase ackId, m.messagesInFlight.bytesInFlight - item.sizeInBytes⟩

theorem perm_released (finished : List Nat) :
    (m.messagesInFlight.messagesInFlight.keys ++ finished).Perm
      ((m.released ackId item).messagesInFlight.keys ++ (finished ++ [ackId])) := by
  refine ((Dict.perm_keys_erase hitem).append_right finished).trans ?_
  rw [← List.append_assoc]
  exact (List.perm_append_singleton _ _).symm

theorem Inv.released_limit (h : Inv m) : (m.released ackId item).len ≤ m.maxProcessingMessages := by
  have hlimit := h.limit
  rw [MessagesInFlight.len, (Dict.perm_keys_erase hitem).length_eq, List.length_cons] at hlimit
  exact Nat.le_of_succ_le hlimit

theorem Places.release (h : Places m) {messagesOnHold} (hheld : messagesOnHold.held.Perm m.messagesOnHold.held) :
    Places { m with
      messagesInFlight := m.released ackId item
      messagesOnHold := messagesOnHold
      finished := m.finished ++ [ackId] } := by
  refine ⟨h.counted, h.nodup, h.partition.trans ?_, h.handed.trans (perm_released hitem _)⟩
  change List.Perm _ (messagesOnHold.held.map _ ++ (m.released ackId item).messagesInFlight.keys ++
    (m.finished ++ [ackId]) ++ m.drained)
  refine List.Perm.append_right _ ?_
  rw [List.append_assoc, List.append_assoc]
  exact (hheld.map _).symm.append (perm_released hitem m.finished)

/-- The message in flight is the only one of its key that is ready or in flight, and the key has a queue. -/
theorem Inv.only_in_flight (h : Inv m) (hkey : item.orderingKey = some key) :
    (∃ queue, m.messagesOnHold.pendingOrderedMessages.get? key = some queue) ∧
      m.messagesOnHold.readyMessages.countP (keyed key) = 0 := by
  have hmarker := h.marker key
  rw [countOf_erase hitem key (m.messagesInFlight.bytesInFlight - item.sizeInBytes), if_pos hkey] at hmarker
  split at hmarker
  · next hsome => exact ⟨Option.isSome_iff_exists.1 hsome, by omega⟩
  · omega

theorem Inv.activate (h : Inv m) (hkey : item.orderingKey = some key) :
    Inv { m with
      messagesInFlight := m.released ackId item
      messagesOnHold := m.messagesOnHold.activateOrderingKey key
      finished := m.finished ++ [ackId] } := by
  obtain ⟨⟨queue, hqueue⟩, hzero⟩ := h.only_in_flight hitem hkey
  have hheld := perm_held_activateOrderingKey m.messagesOnHold key
  have hkeyed := h.queued key queue hqueue
  have hnone : m.messagesOnHold.readyMessages.filter (keyed key) = [] := by
    rw [← List.length_eq_zero_iff, ← List.countP_eq_length_filter, hzero]
  refine ⟨h.toPlaces.release hitem hheld, h.undrained, fun key' => ?_, fun key' => ?_,
    queued_activate hqueue h.queued, ?_, ?_, h.released_limit hitem⟩
  · rw [h.order key', List.append_assoc, List.append_assoc]
    exact congrArg _ (order_activate hqueue hkeyed hnone key').symm
  · have hmarker := h.marker key'
    rw [countOf_erase hitem key' (m.messagesInFlight.bytesInFlight - item.sizeInBytes), hkey] at hmarker
    refine marker_activate hqueue hkeyed hzero key' ?_
    simpa only [Option.some.injEq, eq_comm (a := key)] using hmarker
  · exact (len_activate _ _).trans (h.len.trans hheld.length_eq.symm)
  · exact (sizeInBytes_activate _ _).trans (h.size.trans (hheld.map _).sum_eq.symm)

theorem Inv.release (h : Inv m) (hkey : item.orderingKey = none) :
    Inv { m with messagesInFlight := m.released ackId item, finished := m.finished ++ [ackId] } := by
  refine ⟨h.toPlaces.release hitem (.refl _), h.undrained, h.order, fun key => ?_, h.queued, h.len, h.size,
    h.released_limit hitem⟩
  have hmarker := h.marker key
  rw [countOf_erase hitem key (m.messagesInFlight.bytesInFlight - item.sizeInBytes), hkey] at hmarker
  simpa using hmarker

end Release

theorem Inv.finish (h : Inv m) (ackId : Nat) : Inv (m.finish ackId) := by
  rw [Manager.finish, MessagesInFlight.remove]
  cases hitem : m.messagesInFlight.messagesInFlight.get? ackId with
  | none => exact h
  | some item =>
    cases hkey : item.orderingKey with
    | none => simpa only [hkey] using h.release hitem hkey
    | some key => simpa only [hkey] using h.activate hitem hkey

theorem Places.ackQueue (h : Places m) {messageAckQueue}
    (hlast : messageAckQueue.lastAckId = m.messageAckQueue.lastAckId) :
    Places { m with messageAckQueue := messageAckQueue } :=
  { h with counted := fun message hmem => hlast ▸ h.counted message hmem }

theorem Inv.ackQueue (h : Inv m) {messageAckQueue} (hlast : messageAckQueue.lastAckId = m.messageAckQueue.lastAckId) :
    Inv { m with messageAckQueue := messageAckQueue } :=
  { h with toPlaces := h.toPlaces.ackQueue hlast }

theorem lastAckId_enqueue (now : Nat) (q : MessageAckQueue α) (ackOrNack : AckOrNack Nat) :
    (q.enqueueAckOrNack now ackOrNack).lastAckId = q.lastAckId := by
  have hremove : (q.removeAckId ackOrNack.ackId).2.lastAckId = q.lastAckId := by
    rcases q.removeAckId_cases ackOrNack.ackId with ⟨-, heq⟩ | ⟨item, -, heq⟩ <;> rw [heq]
  rcases MessageAckQueue.enqueueAckOrNack_cases now q ackOrNack with ⟨-, heq⟩ | ⟨item, -, heq⟩
  · rw [heq]
  · rw [heq, MessageAckQueue.pushAckOrNack, MessageAckQueue.beforePush, ← hremove]
    split <;> split <;> rfl

theorem lastAckId_nextChunk (now : Nat) (q : MessageAckQueue α) : (q.nextChunk now).2.lastAckId = q.lastAckId := by
  rw [MessageAckQueue.nextChunk]
  split
  · rfl
  · split
    · rfl
    · split <;> rfl

theorem lastAckId_collect (slab : Slab) (now maxDelay : Nat) (polls : List MessageAckQueue.Poll) (room : Nat)
    (q : MessageAckQueue α) :
    (q.collectAckIdsThatNeedToBeRenewed slab now maxDelay room polls).2.lastAckId = q.lastAckId := by
  fun_induction MessageAckQueue.collectAckIdsThatNeedToBeRenewed slab now maxDelay room polls q with
  | case5 _ _ _ _ _ _ _ _ _ ih => exact ih
  | case6 _ _ _ _ _ _ _ _ _ _ _ _ _ _ _ hrest ih =>
    rw [hrest] at ih
    exact ih
  | _ => rfl

theorem delivered_transformAndInsert (slab : Slab) (now : Nat) (response : List (ReceivedMessage α))
    (hcounted : ∀ message ∈ m.received, message.ackId ≤ m.messageAckQueue.lastAckId) :
    (m.transformAndInsertMessagesIntoMessagesOnHold slab now response).delivered =
      m.delivered ++ messagesOf response := by
  rw [transformAndInsertMessagesIntoMessagesOnHold]
  induction response generalizing m with
  | nil => exact (List.append_nil _).symm
  | cons entry response ih =>
    rw [List.foldl_cons, messagesOf, List.filterMap_cons]
    cases hentry : entry.message with
    | none =>
      rw [receive, hentry]
      exact ih hcounted
    | some protoMessage =>
      have hreceive : (m.receive slab now entry).delivered =
          m.delivered ++ [(some entry.ackId, .new protoMessage entry.deliveryAttempt)] := by
        rw [receive, hentry, delivered, delivered, List.map_append, List.map_singleton, Dict.get?_set_self]
        refine congrArg (· ++ _) (List.map_congr_left fun message hmem => ?_)
        have hne := Nat.ne_of_lt (Nat.lt_succ_of_le (hcounted message hmem))
        exact congrArg (·, _) (Dict.get?_set_other _ _ hne)
      rw [ih, hreceive, List.append_assoc]
      · rfl
      · rw [receive, hentry]
        intro message hmem
        rcases List.mem_append.1 hmem with hmem | hmem
        · exact Nat.le_succ_of_le (hcounted message hmem)
        · rw [List.mem_singleton.1 hmem]
          exact Nat.le_refl _

theorem delivered_flushReady (turns : Nat) (m : Manager α) : (flushReady turns m).delivered = m.delivered := by
  fun_induction flushReady turns m with
  | case3 _ _ _ _ _ _ ih => exact ih
  | _ => rfl

theorem delivered_finish (m : Manager α) (ackId : Nat) : (m.finish ackId).delivered = m.delivered := by
  rw [Manager.finish]
  split <;> rfl

/-- A message is ready only if the limit is reached. -/
def Saturated (m : Manager α) : Prop :=
  m.messagesOnHold.readyMessages ≠ [] → m.messagesInFlight.len = m.maxProcessingMessages

theorem Inv.tryFlush (h : Inv m) : Inv m.tryFlushMessagesOnHoldBatch ∧ Saturated m.tryFlushMessagesOnHoldBatch :=
  Inv.flushReady _ h (Nat.le_refl _)

theorem Inv.handleStreamingPullResponse (h : Inv m) (slab : Slab) (now : Nat) (response : List (ReceivedMessage α)) :
    Inv (m.handleStreamingPullResponse slab now response) ∧
      Saturated (m.handleStreamingPullResponse slab now response) :=
  (h.transformAndInsert slab now response).tryFlush

theorem Inv.handleAckOrNack (h : Inv m) (now : Nat) (ackOrNack : AckOrNack Nat) :
    Inv (m.handleAckOrNack now ackOrNack) ∧ Saturated (m.handleAckOrNack now ackOrNack) :=
  ((h.ackQueue (lastAckId_enqueue now _ ackOrNack)).finish ackOrNack.ackId).tryFlush

end

/-! ## Runs -/

structure State (α : Type) where
  manager : Manager α
  now : Nat

def State.start (maxProcessingMessages maxChunkSize pendingAckFlushInterval now : Nat) : State α :=
  { manager :=
      { maxProcessingMessages := maxProcessingMessages
        messageAckQueue := .new maxChunkSize pendingAckFlushInterval now }
    now := now }

/-- What the loop does before a graceful stop: the two handlers, and the flush of a chunk and the renewal of
leases, which only touch the ack queue. -/
inductive Label (α : Type)
  | pass (duration : Nat)
  | response (entries : List (ReceivedMessage α))
  | ackOrNack (ackOrNack : AckOrNack Nat)
  | flushChunk
  | renewLeases (room maxLeaseRenewalDelay : Nat) (polls : List MessageAckQueue.Poll)

def State.step (slab : Slab) (s : State α) : Label α → State α
  | .pass duration => { s with now := s.now + duration }
  | .response entries => { s with manager := s.manager.handleStreamingPullResponse slab s.now entries }
  | .ackOrNack ackOrNack => { s with manager := s.manager.handleAckOrNack s.now ackOrNack }
  | .flushChunk =>
    { s with manager := { s.manager with messageAckQueue := (s.manager.messageAckQueue.nextChunk s.now).2 } }
  | .renewLeases room maxLeaseRenewalDelay polls =>
    { s with
      manager :=
        { s.manager with
          messageAckQueue := (s.manager.messageAckQueue.collectAckIdsThatNeedToBeRenewed slab s.now
            maxLeaseRenewalDelay room polls).2 } }

theorem Inv.start (maxProcessingMessages maxChunkSize pendingAckFlushInterval now : Nat) :
    Inv (State.start maxProcessingMessages maxChunkSize pendingAckFlushInterval now : State α).manager where
  counted := fun _ hmem => (by cases hmem)
  nodup := .nil
  partition := .nil
  handed := .nil
  undrained := rfl
  order := fun _ => rfl
  marker := fun _ => rfl
  queued := fun _ _ hget => (by cases hget)
  len := rfl
  size := rfl
  limit := Nat.zero_le _

theorem Inv.step (slab : Slab) {s : State α} (h : Inv s.manager ∧ Saturated s.manager) (label : Label α) :
    Inv (s.step slab label).manager ∧ Saturated (s.step slab label).manager := by
  cases label with
  | pass duration => exact h
  | response entries => exact h.1.handleStreamingPullResponse slab s.now entries
  | ackOrNack ackOrNack => exact h.1.handleAckOrNack s.now ackOrNack
  | flushChunk => exact ⟨h.1.ackQueue (lastAckId_nextChunk s.now _), h.2⟩
  | renewLeases room maxDelay polls => exact ⟨h.1.ackQueue (lastAckId_collect slab s.now maxDelay polls room _), h.2⟩

theorem maxProcessingMessages_flushReady (turns : Nat) (m : Manager α) :
    (flushReady turns m).maxProcessingMessages = m.maxProcessingMessages := by
  fun_induction flushReady turns m with
  | case3 _ _ _ _ _ _ ih => exact ih
  | _ => rfl

theorem maxProcessingMessages_transformAndInsert (slab : Slab) (now : Nat) (response : List (ReceivedMessage α)) :
    ∀ m : Manager α, (m.transformAndInsertMessagesIntoMessagesOnHold slab now response).maxProcessingMessages =
      m.maxProcessingMessages := by
  induction response with
  | nil => exact fun _ => rfl
  | cons entry response ih =>
    intro m
    refine (ih (m.receive slab now entry)).trans ?_
    rw [Manager.receive]
    split <;> rfl

theorem maxProcessingMessages_finish (m : Manager α) (ackId : Nat) :
    (m.finish ackId).maxProcessingMessages = m.maxProcessingMessages := by
  rw [Manager.finish]
  split <;> rfl

theorem maxProcessingMessages_step (slab : Slab) (s : State α) (label : Label α) :
    (s.step slab label).manager.maxProcessingMessages = s.manager.maxProcessingMessages := by
  cases label with
  | response entries =>
    exact (maxProcessingMessages_flushReady _ _).trans (maxProcessingMessages_transformAndInsert slab s.now entries _)
  | ackOrNack ackOrNack =>
    exact (maxProcessingMessages_flushReady _ _).trans (maxProcessingMessages_finish _ _)
  | _ => rfl

def Label.messages : Label α → List (Option α × DetachedMessage)
  | .response entries => messagesOf entries
  | _ => []

theorem Inv.delivered_step {s : State α} (h : Inv s.manager) (slab : Slab) (label : Label α) :
    (s.step slab label).manager.delivered = s.manager.delivered ++ label.messages := by
  cases label with
  | response entries =>
    exact (delivered_flushReady _ _).trans (delivered_transformAndInsert slab s.now entries h.counted)
  | ackOrNack ackOrNack =>
    exact (delivered_flushReady _ _).trans ((delivered_finish _ _).trans (List.append_nil _).symm)
  | _ => exact (List.append_nil _).symm

theorem Inv.run (slab : Slab) (labels : List (Label α)) : ∀ {s : State α}, Inv s.manager ∧ Saturated s.manager →
    let s' := labels.foldl (State.step slab) s
    (Inv s'.manager ∧ Saturated s'.manager) ∧
      s'.manager.maxProcessingMessages = s.manager.maxProcessingMessages ∧
      s'.manager.delivered = s.manager.delivered ++ labels.flatMap Label.messages := by
  induction labels with
  | nil => exact fun h => ⟨h, rfl, (List.append_nil _).symm⟩
  | cons label labels ih =>
    intro s h
    obtain ⟨hinv, hmax, hdelivered⟩ := ih (Inv.step slab h label)
    refine ⟨hinv, hmax.trans (maxProcessingMessages_step slab s label), hdelivered.trans ?_⟩
    rw [h.1.delivered_step, List.append_assoc, List.flatMap_cons]

theorem Inv.handed_in_order {m : Manager α} (h : Inv m) (key : String) :
    m.handed.filter (keyed key) <+: m.received.filter (keyed key) := by
  rw [h.order key, List.append_assoc]
  exact List.prefix_append _ _

theorem Inv.at_most_one {m : Manager α} (h : Inv m) (key : String) :
    m.messagesOnHold.readyMessages.countP (keyed key) + m.messagesInFlight.countOf key ≤ 1 := by
  rw [h.marker key]
  split
  · exact Nat.le_refl 1
  · exact Nat.zero_le 1

/-- **Ordered, bounded and lossless dispatch.** After any sequence of responses and of acks and nacks, whichever
ids these name, and of the steps in between: what was received is what the responses had, in their order; no more than
the limit is in flight; of each key one message at most is ready or in flight, and its messages were handed on in the
order in which they were received; what was handed on is in flight or finished; every message received is in just one
of the four places, with its key's queue if it is pending; something is ready only if the limit is reached; and the
counts of what is held are true. -/
theorem dispatch_ordered_bounded_lossless (slab : Slab)
    (maxProcessingMessages maxChunkSize pendingAckFlushInterval now : Nat) (labels : List (Label α)) :
    let m := (labels.foldl (State.step slab)
      (State.start maxProcessingMessages maxChunkSize pendingAckFlushInterval now)).manager
    m.delivered = labels.flatMap Label.messages ∧
    m.messagesInFlight.len ≤ maxProcessingMessages ∧
    (∀ key, m.messagesOnHold.readyMessages.countP (keyed key) + m.messagesInFlight.countOf key ≤ 1) ∧
    (∀ key, m.handed.filter (keyed key) <+: m.received.filter (keyed key)) ∧
    (m.handed.map (·.ackId)).Perm (m.messagesInFlight.messagesInFlight.keys ++ m.finished) ∧
    (m.received.map (·.ackId)).Nodup ∧
    (m.received.map (·.ackId)).Perm (m.messagesOnHold.readyMessages.map (·.ackId) ++
      m.messagesOnHold.queued.map (·.ackId) ++ m.messagesInFlight.messagesInFlight.keys ++ m.finished) ∧
    (∀ key queue, m.messagesOnHold.pendingOrderedMessages.get? key = some queue →
      ∀ message ∈ queue, message.orderingKey = some key) ∧
    (m.messagesOnHold.readyMessages ≠ [] → m.messagesInFlight.len = maxProcessingMessages) ∧
    m.messagesOnHold.len = m.messagesOnHold.held.length ∧
    m.messagesOnHold.sizeInBytes = (m.messagesOnHold.held.map (·.size)).sum := by
  intro m
  obtain ⟨⟨h, hsaturated⟩, hmax, hdelivered⟩ := Inv.run slab labels
    (⟨Inv.start maxProcessingMessages maxChunkSize pendingAckFlushInterval now, fun hne => absurd rfl hne⟩ :
      Inv (State.start maxProcessingMessages maxChunkSize pendingAckFlushInterval now : State α).manager ∧ _)
  have hmax : m.maxProcessingMessages = maxProcessingMessages := hmax
  refine ⟨hdelivered, hmax ▸ h.limit, h.at_most_one, h.handed_in_order, h.handed, h.nodup, ?_, h.queued,
    hmax ▸ hsaturated, h.len, h.size⟩
  have hpartition := h.partition
  rw [h.undrained, List.append_nil] at hpartition
  rw [← List.map_append]
  exact hpartition

end Manager

end Osprey.StreamingPull
