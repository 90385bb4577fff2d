/-
The Kafka consumer of the coordinator: `start_kafka_consumer` takes one message
at a time, decodes it, puts it on the priority queue, waits for its ack or
nack, and commits.

A consumer has a position in each partition, after the last message delivered
from it, and a restarted consumer begins at the committed offsets. `ack` ignores
the message it is given and commits the position in every partition; `nack`
does nothing. So what is committed passes every message delivered so far,
acked or not, and ingestion is at least once exactly as long as no message
that was not acked comes before one whose ack commits.
-/
import Mathlib.Data.List.Pairwise
import Osprey.Engine.Basic
import Osprey.Lib.Dict

namespace Osprey.Kafka

open Lib (Dict)

/-! ## Messages -/

structure Timestamp where
  seconds : Int
  nanos : Int
  deriving DecidableEq, Repr

/-- What `receive` reads of the client library's message. A header whose value is missing or is not
UTF-8 has no `value`. -/
structure RawMessage where
  partition : Nat
  offset : Nat
  payload : Option (List UInt8) := none
  headers : Option (List (String × Option String)) := none
  timestampMillis : Option Int := none

structure KafkaMessage where
  data : List UInt8
  attributes : Dict String String
  timestamp : Timestamp
  id : String

/-- `receive`, when the library has delivered a message; `now` is the clock in milliseconds. -/
def receive (msg : RawMessage) (now : Int) : KafkaMessage :=
  let timestampMillis := msg.timestampMillis.getD now
  { data := msg.payload.getD []
    attributes := (msg.headers.getD []).foldl (fun attrs (key, value) => attrs.set key (value.getD "")) Dict.empty
    timestamp := ⟨timestampMillis.tdiv 1000, timestampMillis.tmod 1000 * 1000000⟩
    id := s!"kafka-{msg.partition}-{msg.offset}" }

/-- What the two decoders answer for a message: an action, or an error of the format or of the
snowflake service. -/
structure Decoders (A : Type) where
  decodeProtoMessage : List UInt8 → Nat → Timestamp → Except Exc A
  decodeMsgpackJsonMessage : List UInt8 → Nat → Timestamp → Except Exc A

def Decoders.decode {A : Type} (d : Decoders A) (message : KafkaMessage) (ackId : Nat) : Except Exc A :=
  match message.attributes.get? "encoding" with
  | some "proto" => d.decodeProtoMessage message.data ackId message.timestamp
  | _ => d.decodeMsgpackJsonMessage message.data ackId message.timestamp

/-! ## The consumer -/

/-- What of the client library the code relies on: in each partition the position after the last
delivered message, and at the broker the committed offset. -/
structure KafkaConsumer where
  position : Nat → Option Nat := fun _ => none
  committed : Nat → Option Nat := fun _ => none

def KafkaConsumer.deliver (c : KafkaConsumer) (msg : RawMessage) : KafkaConsumer :=
  { c with position := Function.update c.position msg.partition (some (msg.offset + 1)) }

/-- `commit_consumer_state`: the position in every partition that has one. -/
def KafkaConsumer.commitConsumerState (c : KafkaConsumer) : KafkaConsumer :=
  { c with committed := fun p => (c.position p).or (c.committed p) }

/-- `ack`; the commit may fail, at once or later, and then nothing is committed. -/
def KafkaConsumer.ack (c : KafkaConsumer) (_message : KafkaMessage) (commits : Bool) : KafkaConsumer :=
  if commits then c.commitConsumerState else c

def KafkaConsumer.nack (c : KafkaConsumer) (_message : KafkaMessage) : KafkaConsumer := c

/-! ## The loop -/

/-- How `timeout(max_time_to_send_to_async_queue, send_async(..))` ends. -/
inductive SendResult
  | sent
  | sendError
  | timedOut
  deriving DecidableEq, Repr

/-- How `timeout(max_acking_receiver_wait_time, acking_receiver)` ends. -/
inductive AckResult
  | ack
  | nack
  | senderDropped
  | timedOut
  deriving DecidableEq, Repr

/-- One delivered message with what the rest of the system answers while it is handled. -/
structure Delivery (A : Type) where
  msg : RawMessage
  now : Int := 0
  ackId : Nat := 0
  decoders : Decoders A
  send : SendResult
  reply : AckResult
  /-- Whether a commit made for this message goes through. -/
  commits : Bool := true

variable {A : Type}

/-- The message is acked: it could be decoded and sent, and its acker answered with an ack. -/
def Delivery.acked (d : Delivery A) : Bool :=
  match d.decoders.decode (receive d.msg d.now) d.ackId with
  | .error _ => false
  | .ok _ => d.send = .sent && d.reply = .ack

/-- What happens to the consumer when a delivered message is handled: the body of the loop. -/
def handle (c : KafkaConsumer) (d : Delivery A) : KafkaConsumer :=
  let message := receive d.msg d.now
  match d.decoders.decode message d.ackId with
  | .error _ => c.nack message
  | .ok _ =>
    match d.send with
    | .sendError | .timedOut => c.nack message
    | .sent =>
      match d.reply with
      | .ack => c.ack message d.commits
      | .nack | .senderDropped | .timedOut => c.nack message

inductive Received (A : Type)
  | error (e : Exc)
  | message (d : Delivery A)

def Received.delivery? : Received A → Option (Delivery A)
  | .error _ => none
  | .message d => some d

def turn (c : KafkaConsumer) : Received A → KafkaConsumer
  | .error _ => c
  | .message d => handle (c.deliver d.msg) d

/-- `start_kafka_consumer` up to some point of its loop. -/
def startKafkaConsumer (c : KafkaConsumer) (received : List (Received A)) : KafkaConsumer := received.foldl turn c

/-! ## One turn -/

def Delivery.committing (d : Delivery A) : Bool := d.acked && d.commits

/-- A turn commits all positions when the message is acked and the commit goes through, and
otherwise only the position moves. -/
theorem turn_message (c : KafkaConsumer) (d : Delivery A) :
    turn c (.message d) =
      if d.committing then (c.deliver d.msg).commitConsumerState else c.deliver d.msg := by
  cases hdecode : d.decoders.decode (receive d.msg d.now) d.ackId with
  | error e => simp [turn, handle, Delivery.committing, Delivery.acked, KafkaConsumer.nack, hdecode]
  | ok action =>
    cases hsend : d.send <;> cases hreply : d.reply <;>
      simp [turn, handle, Delivery.committing, Delivery.acked, KafkaConsumer.nack, KafkaConsumer.ack, hdecode, hsend,
        hreply]

@[simp] theorem turn_position (c : KafkaConsumer) (d : Delivery A) :
    (turn c (.message d)).position = Function.update c.position d.msg.partition (some (d.msg.offset + 1)) := by
  rw [turn_message]
  split <;> rfl

variable {c : KafkaConsumer} {d : Delivery A}

theorem turn_committed_of_committing (h : d.committing = true) (p : Nat) :
    (turn c (.message d)).committed p = ((turn c (.message d)).position p).or (c.committed p) := by
  rw [turn_position, turn_message, if_pos h]
  rfl

theorem turn_committed_of_not_committing (h : ¬ d.committing = true) :
    (turn c (.message d)).committed = c.committed := by
  rw [turn_message, if_neg h]
  rfl

/-! ## A session -/

def deliveries (received : List (Received A)) : List (Delivery A) := received.filterMap Received.delivery?

/-- A consumer from its start at the committed offsets. The broker hands out the messages of a
partition in the order of their offsets, beginning at the committed one. -/
structure Session (A : Type) where
  committed : Nat → Option Nat
  received : List (Received A)
  fromCommitted : ∀ d ∈ deliveries received, ∀ o, committed d.msg.partition = some o → o ≤ d.msg.offset
  inOrder : (deliveries received).Pairwise fun d d' =>
    d.msg.partition = d'.msg.partition → d.msg.offset < d'.msg.offset

def Session.consumer (s : Session A) (n : Nat) : KafkaConsumer :=
  startKafkaConsumer { committed := s.committed } (s.received.take n)

/-- A consumer that is restarted now delivers the message again: it begins at the committed offset
of the partition, or at its earliest message. -/
def KafkaConsumer.restartDelivers (c : KafkaConsumer) (msg : RawMessage) : Prop :=
  ∀ o, c.committed msg.partition = some o → o ≤ msg.offset

/-- At every time, the committed offsets have not passed a delivered message that was not acked. -/
def Session.AtLeastOnce (s : Session A) : Prop :=
  ∀ n, ∀ d ∈ deliveries (s.received.take n), d.acked = false → (s.consumer n).restartDelivers d.msg

/-- No message that was not acked comes before one whose ack commits. -/
def Session.NoCommitAfterUnacked (s : Session A) : Prop :=
  (deliveries s.received).Pairwise fun d d' => d'.committing = true → d.acked = true

/-! ## What a run of the loop does -/

theorem startKafkaConsumer_concat (c : KafkaConsumer) (l : List (Received A)) (r : Received A) :
    startKafkaConsumer c (l ++ [r]) = turn (startKafkaConsumer c l) r := by
  simp [startKafkaConsumer]

@[simp] theorem deliveries_append (l l' : List (Received A)) :
    deliveries (l ++ l') = deliveries l ++ deliveries l' := by
  simp [deliveries]

@[simp] theorem deliveries_error (e : Exc) : deliveries [(.error e : Received A)] = [] := rfl

@[simp] theorem deliveries_message (d : Delivery A) : deliveries [.message d] = [d] := rfl

theorem le_of_committed {p bound} (hpos : c.position p = none)
    (hstart : ∀ o, c.committed p = some o → o ≤ bound) (l : List (Received A))
    (hl : ∀ d ∈ deliveries l, d.msg.partition = p → d.msg.offset < bound) :
    (∀ o, (startKafkaConsumer c l).position p = some o → o ≤ bound) ∧
      ∀ o, (startKafkaConsumer c l).committed p = some o → o ≤ bound := by
  induction l using List.reverseRecOn with
  | nil =>
    refine ⟨?_, hstart⟩
    intro o ho
    rw [startKafkaConsumer, List.foldl_nil, hpos] at ho
    cases ho
  | append_singleton l r ih =>
    obtain ⟨ihpos, ihcom⟩ := ih fun d hd => hl d (by simp [hd])
    rw [startKafkaConsumer_concat]
    cases r with
    | error e => exact ⟨ihpos, ihcom⟩
    | message d =>
      have hpos' : ∀ o, (turn (startKafkaConsumer c l) (.message d)).position p = some o → o ≤ bound := by
        intro o ho
        rw [turn_position, Function.update_apply] at ho
        split at ho
        · next heq =>
          cases ho
          exact hl d (by simp) heq.symm
        · exact ihpos o ho
      refine ⟨hpos', ?_⟩
      intro o ho
      by_cases hc : d.committing = true
      · rw [turn_committed_of_committing hc, Option.or_eq_some_iff] at ho
        rcases ho with ho | ⟨-, ho⟩
        · exact hpos' o ho
        · exact ihcom o ho
      · rw [turn_committed_of_not_committing hc] at ho
        exact ihcom o ho

theorem lt_position (c : KafkaConsumer) (l : List (Received A))
    (hl : (deliveries l).Pairwise fun d d' => d.msg.partition = d'.msg.partition → d.msg.offset < d'.msg.offset)
    (hd : d ∈ deliveries l) :
    ∃ o, (startKafkaConsumer c l).position d.msg.partition = some o ∧ d.msg.offset < o := by
  induction l using List.reverseRecOn with
  | nil => cases hd
  | append_singleton l r ih =>
    rw [startKafkaConsumer_concat]
    cases r with
    | error e => exact ih (by simpa using hl) (by simpa using hd)
    | message d' =>
      rw [deliveries_append, deliveries_message, List.pairwise_append] at hl
      obtain ⟨hl, -, hlast⟩ := hl
      rw [turn_position, Function.update_apply]
      split
      · next heq =>
        refine ⟨_, rfl, ?_⟩
        rw [deliveries_append, deliveries_message, List.mem_append, List.mem_singleton] at hd
        rcases hd with hd | rfl
        · have := hlast d hd d' (by simp) heq
          omega
        · omega
      · next hne =>
        rw [deliveries_append, deliveries_message, List.mem_append, List.mem_singleton] at hd
        rcases hd with hd | rfl
        · exact ih hl hd
        · exact absurd rfl hne

theorem committed_of_not_committing (c : KafkaConsumer) (l : List (Received A))
    (hl : ∀ d ∈ deliveries l, ¬ d.committing = true) : (startKafkaConsumer c l).committed = c.committed := by
  induction l using List.reverseRecOn with
  | nil => rfl
  | append_singleton l r ih =>
    have ih' := ih fun d hd => hl d (by simp [hd])
    rw [startKafkaConsumer_concat]
    cases r with
    | error e => exact ih'
    | message d => rw [turn_committed_of_not_committing (hl d (by simp)), ih']

/-! ## At least once -/

theorem exists_split_of_mem : ∀ {l} {d : Delivery A}, d ∈ deliveries l →
    ∃ before after, l = before ++ .message d :: after
  | r :: l, d, hd => by
    cases r with
    | error e =>
      obtain ⟨before, after, rfl⟩ := exists_split_of_mem (l := l) hd
      exact ⟨.error e :: before, after, rfl⟩
    | message d' =>
      rcases List.mem_cons.mp hd with rfl | hd
      · exact ⟨[], l, rfl⟩
      · obtain ⟨before, after, rfl⟩ := exists_split_of_mem hd
        exact ⟨.message d' :: before, after, rfl⟩

theorem pairwise_deliveries {R} (l : List (Received A))
    (h : ∀ before d' after, l = before ++ .message d' :: after → ∀ d ∈ deliveries before, R d d') :
    (deliveries l).Pairwise R := by
  induction l using List.reverseRecOn with
  | nil => exact List.Pairwise.nil
  | append_singleton l r ih =>
    have hl : (deliveries l).Pairwise R := ih fun before d' after heq =>
      h before d' (after ++ [r]) (by rw [heq]; simp)
    cases r with
    | error e => simpa using hl
    | message d' =>
      rw [deliveries_append, deliveries_message, List.pairwise_append]
      refine ⟨hl, List.pairwise_singleton _ _, ?_⟩
      intro d hd e he
      rw [List.mem_singleton.mp he]
      exact h l d' [] rfl d hd

theorem Session.take (s : Session A) {l l'} (h : s.received = l ++ l') :
    (∀ d ∈ deliveries l, ∀ o, s.committed d.msg.partition = some o → o ≤ d.msg.offset) ∧
      (deliveries l).Pairwise fun d d' => d.msg.partition = d'.msg.partition → d.msg.offset < d'.msg.offset := by
  have hfrom := s.fromCommitted
  have horder := s.inOrder
  rw [h, deliveries_append] at hfrom horder
  exact ⟨fun d hd => hfrom d (List.mem_append_left _ hd), (List.pairwise_append.mp horder).1⟩

variable {s : Session A}

theorem Session.consumer_of_take {l n} (h : s.received.take n = l) :
    s.consumer n = startKafkaConsumer { committed := s.committed } l := by
  rw [Session.consumer, h]

theorem Session.AtLeastOnce.noCommitAfterUnacked (h : s.AtLeastOnce) : s.NoCommitAfterUnacked := by
  refine pairwise_deliveries _ fun before d' after heq d hd hcommits => ?_
  cases hacked : d.acked with
  | true => rfl
  | false =>
    have hsplit : s.received = (before ++ [.message d']) ++ after := by rw [heq]; simp
    have htake : s.received.take (before.length + 1) = before ++ [.message d'] := by
      rw [hsplit]
      exact List.take_left' (by simp)
    have hmem : d ∈ deliveries (before ++ [.message d']) := by simp [hd]
    obtain ⟨o, hpos, hlt⟩ := lt_position { committed := s.committed } _ (s.take hsplit).2 hmem
    have hle := h (before.length + 1) d (by rw [htake]; exact hmem) hacked o
    rw [Session.consumer_of_take htake] at hle
    have hcom : (startKafkaConsumer { committed := s.committed } (before ++ [.message d'])).committed d.msg.partition
        = some o := by
      rw [startKafkaConsumer_concat] at hpos ⊢
      rw [turn_committed_of_committing hcommits, hpos]
      rfl
    have := hle hcom
    omega

/-- After a message that is not acked nothing commits, and what was committed before has not passed
it. -/
theorem Session.NoCommitAfterUnacked.atLeastOnce (h : s.NoCommitAfterUnacked) : s.AtLeastOnce := by
  intro n d hd hacked
  obtain ⟨before, after, htake⟩ := exists_split_of_mem hd
  obtain ⟨rest, hrest⟩ : ∃ rest, s.received = (before ++ .message d :: after) ++ rest :=
    ⟨s.received.drop n, by rw [← htake, List.take_append_drop]⟩
  have hsplit : s.received = (before ++ [.message d]) ++ (after ++ rest) := by rw [hrest]; simp
  -- nothing commits from the message on
  have hnone : ∀ d' ∈ deliveries (.message d :: after), ¬ d'.committing = true := by
    intro d' hd' hcommits
    rcases List.mem_cons.mp hd' with rfl | hd'
    · rw [Delivery.committing, hacked] at hcommits
      cases hcommits
    · have hpair := h
      rw [Session.NoCommitAfterUnacked, hsplit, deliveries_append, List.pairwise_append] at hpair
      have := hpair.2.2 d (by simp) d' (by rw [deliveries_append]; exact List.mem_append_left _ hd') hcommits
      rw [hacked] at this
      cases this
  -- and what was committed before is at or before the message
  obtain ⟨hfrom, horder⟩ := s.take hsplit
  rw [deliveries_append, deliveries_message, List.pairwise_append] at horder
  have hbound := (le_of_committed (c := { committed := s.committed }) rfl (hfrom d (by simp)) before
    fun d' hd' hp => horder.2.2 d' hd' d (by simp) hp).2
  intro o ho
  rw [Session.consumer_of_take htake, startKafkaConsumer, List.foldl_append] at ho
  have := committed_of_not_committing (startKafkaConsumer { committed := s.committed } before) _ hnone
  rw [startKafkaConsumer, startKafkaConsumer] at this
  rw [this] at ho
  exact hbound o ho

/-- **At least once**: over every sequence of messages and every outcome of each, a restarted consumer
is always given every message again that was not acked, if and only if no message that was not acked
comes before one, in any partition, whose ack commits. -/
theorem atLeastOnce_iff (s : Session A) : s.AtLeastOnce ↔ s.NoCommitAfterUnacked :=
  ⟨fun h => h.noCommitAfterUnacked, fun h => h.atLeastOnce⟩

def decodeAll : Decoders Unit := ⟨fun _ _ _ => .ok (), fun _ _ _ => .ok ()⟩

/-- Message 7 of partition 0 is nacked, then message 8 is acked. -/
def nackThenAck : Session Unit where
  committed _ := none
  received :=
    [.message { msg := { partition := 0, offset := 7 }, decoders := decodeAll, send := .sent, reply := .nack },
      .message { msg := { partition := 0, offset := 8 }, decoders := decodeAll, send := .sent, reply := .ack }]
  fromCommitted := by intro d hd o ho; cases ho
  inOrder := by simp [deliveries, Received.delivery?]

/-- The committed offset 9 passes the nacked message: a restart does not deliver it again. -/
theorem nackThenAck_loses : ¬ nackThenAck.AtLeastOnce := by
  intro h
  have := h 2 _ (List.mem_cons_self ..) rfl 9 rfl
  revert this
  decide

end Osprey.Kafka
