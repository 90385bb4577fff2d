/-
The subscribers of a watched key (`etcd_watcherd`): the loop that follows the
key, the subscriptions it sends its events to, and the consumers that read
them.

A subscription is a bounded channel. One that is full when an event is sent
is dropped in the middle of the batch; its consumer still reads what was
queued, and then takes out a new subscription, which begins with a full sync.
The loop holds the lock of the subscriptions while it sends a batch, so that
none is created or removed meanwhile, but a consumer reads its channel
without the lock: a step of the system is one send, one reading, or what is
done at once under the lock.
-/
import Osprey.Lib.Run

namespace Osprey.EtcdWatcherd

open Lib (Along)

variable {E V : Type}

/-! ## The watcher loop -/

/-- `WatchEvents`, with what a consumer makes of its value when it sees an event. -/
structure WatchEvents (E V : Type) where
  maxBacklogSize : Nat
  fullSyncEvent : V → E
  apply : V → E → V
  apply_fullSyncEvent : ∀ v w, apply v (fullSyncEvent w) = w

structure WatchState (V : Type) where
  currentValue : V
  waitIndex : Nat

inductive WatchResult (E V : Type)
  | success (events : List E) (state : WatchState V)
  | timeout
  | resetWatcher

inductive WatchLoopState (V : Type)
  | continueWatching (state : WatchState V)
  | resetWatcher (state : WatchState V)

def WatchLoopState.watchState : WatchLoopState V → WatchState V
  | continueWatching state | resetWatcher state => state

/-- `run_loop_once`, by what `continue_watching` or `reset_watcher` answers: nothing if it fails. -/
def runLoopOnce (s : WatchLoopState V) : Option (WatchResult E V) → WatchLoopState V × List E
  | none => (s, [])
  | some (.success events state) => (.continueWatching state, events)
  | some .timeout => (.continueWatching s.watchState, [])
  | some .resetWatcher => (.resetWatcher s.watchState, [])

/-! ## Subscriptions and consumers -/

/-- A `WatcherEvents`, with the events its `next` has returned. -/
structure Consumer (E : Type) where
  subscriptionId : Nat
  initialEvent : Option E
  seen : List E := []

/-- `WatcherInner`, the channels of its subscriptions, the loop and the consumers. -/
structure State (E V : Type) where
  currentValue : V
  nextSubscriptionId : Nat := 0
  /-- The subscriptions that have a sender. -/
  watchers : List Nat := []
  /-- What is queued in the channel of a subscription. -/
  backlog : Nat → List E := fun _ => []
  /-- What the batch under way has still to send to a subscription. -/
  unsent : Nat → List E := fun _ => []
  loopState : WatchLoopState V
  consumers : Nat → Option (Consumer E) := fun _ => none

def State.start (state : WatchState V) : State E V :=
  { currentValue := state.currentValue, loopState := .continueWatching state }

inductive Label (E V : Type)
  /-- The loop goes round, up to `update_subscribers`, which takes the lock. -/
  | loop (outcome : Option (WatchResult E V))
  /-- `update_subscribers` sends an event to one subscription. -/
  | send (id : Nat)
  /-- `WatchHandle::events`, for a consumer that there is not yet. -/
  | events (c : Nat)
  /-- `WatcherEvents::next`, or `initial_event`, which returns the same event. -/
  | next (c : Nat)
  | drop (c : Nat)

variable (W : WatchEvents E V)

/-- `update_subscribers` is sending a batch, and holds the lock. -/
def State.sending (s : State E V) : Bool := s.watchers.any fun id => !(s.unsent id).isEmpty

/-- `update_subscribers`, of which the sending is yet to come. -/
def State.updateSubscribers (s : State E V) (events : List E) (currentValue : V) : State E V :=
  { s with currentValue := currentValue, unsent := fun _ => events }

def State.removeSubscription (s : State E V) (id : Nat) : State E V :=
  { s with watchers := s.watchers.filter (· ≠ id) }

/-- `try_send`; a subscription whose channel is full is dropped. An event goes to all subscriptions, in any order,
before the next one does. -/
def State.send (s : State E V) (id : Nat) : State E V :=
  if id ∈ s.watchers ∧ ∀ id' ∈ s.watchers, (s.unsent id').length ≤ (s.unsent id).length then
    match s.unsent id with
    | [] => s
    | event :: rest =>
      if (s.backlog id).length < W.maxBacklogSize then
        { s with
          backlog := Function.update s.backlog id (s.backlog id ++ [event])
          unsent := Function.update s.unsent id rest }
      else s.removeSubscription id
  else s

/-- `create_subscription_impl`, without the full sync that goes with it. -/
def State.createSubscription (s : State E V) : State E V :=
  { s with
    nextSubscriptionId := s.nextSubscriptionId + 1
    watchers := s.watchers ++ [s.nextSubscriptionId]
    backlog := Function.update s.backlog s.nextSubscriptionId []
    unsent := Function.update s.unsent s.nextSubscriptionId [] }

def State.setConsumer (s : State E V) (c : Nat) (consumer : Option (Consumer E)) : State E V :=
  { s with consumers := Function.update s.consumers c consumer }

/-- What `next` returns without waiting for the loop. -/
def State.available (s : State E V) (consumer : Consumer E) : Option E :=
  match consumer.initialEvent, s.backlog consumer.subscriptionId with
  | some event, _ => some event
  | none, event :: _ => some event
  | none, [] => if consumer.subscriptionId ∈ s.watchers then none else some (W.fullSyncEvent s.currentValue)

/-- `WatcherEvents::next`; it waits if there is nothing. -/
def State.nextEvent (s : State E V) (c : Nat) (consumer : Consumer E) : State E V :=
  match consumer.initialEvent, s.backlog consumer.subscriptionId with
  | some event, _ => s.setConsumer c (some { consumer with initialEvent := none, seen := consumer.seen ++ [event] })
  | none, event :: rest =>
    { s with backlog := Function.update s.backlog consumer.subscriptionId rest }.setConsumer c
      (some { consumer with seen := consumer.seen ++ [event] })
  | none, [] =>
    if consumer.subscriptionId ∈ s.watchers ∨ s.sending then s
    else
      -- `recreate_subscription`.
      (s.removeSubscription consumer.subscriptionId).createSubscription.setConsumer c
        (some ⟨s.nextSubscriptionId, none, consumer.seen ++ [W.fullSyncEvent s.currentValue]⟩)

/-- One step. A label that does not fit the state does nothing. -/
def State.step (s : State E V) : Label E V → State E V
  | .loop outcome =>
    if s.sending then s
    else
      let (loopState, events) := runLoopOnce s.loopState outcome
      { s with loopState := loopState }.updateSubscribers events loopState.watchState.currentValue
  | .send id => s.send W id
  | .events c => match s.consumers c, s.sending with
    | none, false => s.createSubscription.setConsumer c
        (some ⟨s.nextSubscriptionId, some (W.fullSyncEvent s.currentValue), []⟩)
    | _, _ => s
  | .next c => match s.consumers c with
    | none => s
    | some consumer => s.nextEvent W c consumer
  | .drop c => match s.consumers c, s.sending with
    | some consumer, false => (s.removeSubscription consumer.subscriptionId).setConsumer c none
    | _, _ => s

/-- The events of an update transform the value before it into the value after it. -/
def Transforms (s : State E V) : Label E V → Prop
  | .loop (some (.success events state)) =>
    events.foldl W.apply s.loopState.watchState.currentValue = state.currentValue
  | _ => True

/-! ## The invariant -/

/-- The events that a consumer has seen and those that it will see without a new subscription, unless it is cut off. -/
def State.pending (s : State E V) (consumer : Consumer E) : List E :=
  consumer.seen ++ consumer.initialEvent.toList ++ s.backlog consumer.subscriptionId ++ s.unsent consumer.subscriptionId

/-- A consumer whose subscription is there will have the value when it has read all that is queued and will be. -/
structure Inv (v₀ : V) (s : State E V) : Prop where
  loopValue : s.loopState.watchState.currentValue = s.currentValue
  issued : ∀ id ∈ s.watchers, id < s.nextSubscriptionId
  owned : ∀ c consumer, s.consumers c = some consumer → consumer.subscriptionId < s.nextSubscriptionId
  distinct : ∀ c c' consumer consumer', s.consumers c = some consumer → s.consumers c' = some consumer' →
    consumer.subscriptionId = consumer'.subscriptionId → c = c'
  view : ∀ c consumer, s.consumers c = some consumer → consumer.subscriptionId ∈ s.watchers →
    (s.pending consumer).foldl W.apply v₀ = s.currentValue

variable {W} {v₀ : V} {s : State E V}

theorem inv_start (state : WatchState V) : Inv W v₀ (State.start state) :=
  ⟨rfl, fun _ h => (by cases h), fun _ _ h => (by cases h), fun _ _ _ _ h => (by cases h),
    fun _ _ h => (by cases h)⟩

theorem unsent_of_not_sending (h : s.sending = false) {id} (hid : id ∈ s.watchers) : s.unsent id = [] := by
  simpa using List.any_eq_false.mp h id hid

theorem Inv.update (h : Inv W v₀ s) (hfree : s.sending = false) {loopState events}
    (hevents : events.foldl W.apply s.currentValue = loopState.watchState.currentValue) :
    Inv W v₀ ({ s with loopState := loopState }.updateSubscribers events loopState.watchState.currentValue) := by
  refine ⟨rfl, h.issued, h.owned, h.distinct, fun c consumer hc hid => ?_⟩
  have hview := h.view c consumer hc hid
  rw [State.pending, unsent_of_not_sending hfree hid, List.append_nil] at hview
  have hbatch : (consumer.seen ++ consumer.initialEvent.toList ++ s.backlog consumer.subscriptionId ++ events).foldl
      W.apply v₀ = loopState.watchState.currentValue := by
    rw [List.foldl_append, hview, hevents]
  exact hbatch

theorem Inv.loop (h : Inv W v₀ s) (outcome : Option (WatchResult E V))
    (htransforms : Transforms W s (.loop outcome)) :
    Inv W v₀ (s.step W (.loop outcome)) := by
  rw [State.step]
  split
  · exact h
  · next hfree =>
    refine h.update (by simpa using hfree) ?_
    rw [← h.loopValue]
    match outcome with
    | none | some .timeout | some .resetWatcher => rfl
    | some (.success events state) => exact htransforms

theorem Inv.removeSubscription (h : Inv W v₀ s) (id : Nat) : Inv W v₀ (s.removeSubscription id) :=
  ⟨h.loopValue, fun id' hid => h.issued id' (List.mem_filter.mp hid).1, h.owned, h.distinct,
    fun c consumer hc hid => h.view c consumer hc (List.mem_filter.mp hid).1⟩

theorem Inv.send (h : Inv W v₀ s) (id : Nat) : Inv W v₀ (s.send W id) := by
  unfold State.send
  split
  · split
    · exact h
    · next event rest hunsent =>
      split
      · refine ⟨h.loopValue, h.issued, h.owned, h.distinct, fun c consumer hc hid => ?_⟩
        have hview := h.view c consumer hc hid
        unfold State.pending at hview ⊢
        by_cases heq : consumer.subscriptionId = id
        · subst heq
          simpa [hunsent] using hview
        · simpa [Function.update_of_ne heq] using hview
      · exact h.removeSubscription id
  · exact h

theorem consumers_setConsumer {c c' x consumer'} (h : (s.setConsumer c x).consumers c' = some consumer') :
    (c' = c ∧ x = some consumer') ∨ (c' ≠ c ∧ s.consumers c' = some consumer') := by
  change Function.update s.consumers c x c' = some consumer' at h
  by_cases hne : c' = c
  · subst hne
    rw [Function.update_self] at h
    exact .inl ⟨rfl, h⟩
  · rw [Function.update_of_ne hne] at h
    exact .inr ⟨hne, h⟩

/-- A new subscription, and the consumer that reads it, whose value is then up to date. -/
theorem Inv.create (h : Inv W v₀ s) (c : Nat) {consumer} (hid : consumer.subscriptionId = s.nextSubscriptionId)
    (hview : (consumer.seen ++ consumer.initialEvent.toList).foldl W.apply v₀ = s.currentValue) :
    Inv W v₀ (s.createSubscription.setConsumer c (some consumer)) := by
  refine ⟨h.loopValue, ?_, ?_, ?_, ?_⟩
  · intro id hmem
    rcases List.mem_append.mp hmem with hmem | hmem
    · exact Nat.lt_succ_of_lt (h.issued id hmem)
    · rw [List.mem_singleton.mp hmem]
      exact Nat.lt_succ_self _
  · intro c' consumer' hc'
    rcases consumers_setConsumer hc' with ⟨-, heq⟩ | ⟨-, hc'⟩
    · cases heq
      rw [hid]
      exact Nat.lt_succ_self _
    · exact Nat.lt_succ_of_lt (h.owned c' consumer' hc')
  · intro c₁ c₂ consumer₁ consumer₂ hc₁ hc₂ heq
    rcases consumers_setConsumer hc₁ with ⟨hself₁, heq₁⟩ | ⟨-, hold₁⟩
    · rcases consumers_setConsumer hc₂ with ⟨hself₂, -⟩ | ⟨-, hold₂⟩
      · rw [hself₁, hself₂]
      · cases heq₁
        have hlt := h.owned c₂ consumer₂ hold₂
        omega
    · rcases consumers_setConsumer hc₂ with ⟨-, heq₂⟩ | ⟨-, hold₂⟩
      · cases heq₂
        have hlt := h.owned c₁ consumer₁ hold₁
        omega
      · exact h.distinct c₁ c₂ consumer₁ consumer₂ hold₁ hold₂ heq
  · intro c' consumer' hc' hmem
    rcases consumers_setConsumer hc' with ⟨-, heq⟩ | ⟨-, hc'⟩
    · cases heq
      simpa [State.pending, State.setConsumer, State.createSubscription, hid] using hview
    · have hne : consumer'.subscriptionId ≠ s.nextSubscriptionId := Nat.ne_of_lt (h.owned c' consumer' hc')
      have hmem' : consumer'.subscriptionId ∈ s.watchers :=
        (List.mem_append.mp hmem).resolve_right fun hlast => hne (List.mem_singleton.mp hlast)
      have hview' := h.view c' consumer' hc' hmem'
      unfold State.pending at hview' ⊢
      simpa [State.setConsumer, State.createSubscription, hne] using hview'

theorem Inv.dropConsumer (h : Inv W v₀ s) (c : Nat) : Inv W v₀ (s.setConsumer c none) := by
  have hold : ∀ {c' consumer'}, (s.setConsumer c none).consumers c' = some consumer' →
    s.consumers c' = some consumer' := by
    intro c' consumer' hc'
    rcases consumers_setConsumer hc' with ⟨-, heq⟩ | ⟨-, hc'⟩
    · cases heq
    · exact hc'
  exact ⟨h.loopValue, h.issued, fun c' consumer' hc' => h.owned c' consumer' (hold hc'),
    fun c₁ c₂ consumer₁ consumer₂ h₁ h₂ => h.distinct c₁ c₂ consumer₁ consumer₂ (hold h₁) (hold h₂),
    fun c' consumer' hc' => h.view c' consumer' (hold hc')⟩

theorem Inv.read (h : Inv W v₀ s) {c consumer} (hc : s.consumers c = some consumer)
    (consumer' : Consumer E) (rest : List E) (hid : consumer'.subscriptionId = consumer.subscriptionId)
    (hpending : consumer'.seen ++ consumer'.initialEvent.toList ++ rest =
      consumer.seen ++ consumer.initialEvent.toList ++ s.backlog consumer.subscriptionId) :
    Inv W v₀ ({ s with backlog := Function.update s.backlog consumer.subscriptionId rest }.setConsumer c
      (some consumer')) := by
  refine ⟨h.loopValue, h.issued, ?_, ?_, ?_⟩
  · intro c₁ consumer₁ h₁
    rcases consumers_setConsumer h₁ with ⟨-, heq⟩ | ⟨-, h₁⟩
    · cases heq
      rw [hid]
      exact h.owned c consumer hc
    · exact h.owned c₁ consumer₁ h₁
  · intro c₁ c₂ consumer₁ consumer₂ h₁ h₂ heq
    rcases consumers_setConsumer h₁ with ⟨hself₁, heq₁⟩ | ⟨-, hold₁⟩
    · rcases consumers_setConsumer h₂ with ⟨hself₂, -⟩ | ⟨-, hold₂⟩
      · rw [hself₁, hself₂]
      · cases heq₁
        rw [hself₁]
        exact h.distinct c c₂ consumer consumer₂ hc hold₂ (hid.symm.trans heq)
    · rcases consumers_setConsumer h₂ with ⟨hself₂, heq₂⟩ | ⟨-, hold₂⟩
      · cases heq₂
        rw [hself₂]
        exact h.distinct c₁ c consumer₁ consumer hold₁ hc (heq.trans hid)
      · exact h.distinct c₁ c₂ consumer₁ consumer₂ hold₁ hold₂ heq
  · intro c₁ consumer₁ h₁ hmem
    rcases consumers_setConsumer h₁ with ⟨-, heq⟩ | ⟨hne, h₁⟩
    · cases heq
      have hview := h.view c consumer hc (by rw [← hid]; exact hmem)
      change (consumer'.seen ++ consumer'.initialEvent.toList ++ Function.update s.backlog consumer.subscriptionId rest
        consumer'.subscriptionId ++ s.unsent consumer'.subscriptionId).foldl W.apply v₀ = _
      rw [hid, Function.update_self, hpending]
      exact hview
    · have hdiff : consumer₁.subscriptionId ≠ consumer.subscriptionId := fun heq =>
        hne (h.distinct c₁ c consumer₁ consumer h₁ hc heq)
      change (consumer₁.seen ++ consumer₁.initialEvent.toList ++ Function.update s.backlog consumer.subscriptionId rest
        consumer₁.subscriptionId ++ s.unsent consumer₁.subscriptionId).foldl W.apply v₀ = _
      rw [Function.update_of_ne hdiff]
      exact h.view c₁ consumer₁ h₁ hmem

theorem Inv.nextEvent (h : Inv W v₀ s) {c consumer} (hc : s.consumers c = some consumer) :
    Inv W v₀ (s.nextEvent W c consumer) := by
  unfold State.nextEvent
  split
  · next event hinitial =>
    have hread := h.read hc { consumer with initialEvent := none, seen := consumer.seen ++ [event] }
      (s.backlog consumer.subscriptionId) rfl (by simp [hinitial])
    rwa [Function.update_eq_self] at hread
  · next event rest hinitial hbacklog =>
    exact h.read hc _ rest rfl (by simp [hinitial, hbacklog])
  · split
    · exact h
    · refine (h.removeSubscription consumer.subscriptionId).create c rfl ?_
      rw [Option.toList_none, List.append_nil, List.foldl_append]
      exact W.apply_fullSyncEvent _ _

theorem Inv.step (h : Inv W v₀ s) (label : Label E V) (htransforms : Transforms W s label) :
    Inv W v₀ (s.step W label) := by
  cases label with
  | loop outcome => exact h.loop outcome htransforms
  | send id => exact h.send id
  | events c =>
    rw [State.step]
    split
    · exact h.create c rfl (W.apply_fullSyncEvent _ _)
    · exact h
  | next c =>
    rw [State.step]
    split
    · exact h
    · next consumer hc => exact h.nextEvent hc
  | drop c =>
    rw [State.step]
    split
    · next consumer _ _ => exact (h.removeSubscription consumer.subscriptionId).dropConsumer c
    · exact h

/-- A consumer for which nothing is left to read lacks what the batch under way has still to send to it. -/
theorem Inv.seen_unsent_eq (h : Inv W v₀ s) {c consumer} (hc : s.consumers c = some consumer)
    (hall : s.available W consumer = none) :
    consumer.subscriptionId ∈ s.watchers ∧
      (consumer.seen ++ s.unsent consumer.subscriptionId).foldl W.apply v₀ = s.currentValue := by
  unfold State.available at hall
  split at hall
  · cases hall
  · cases hall
  · next hinitial hbacklog =>
    split at hall
    · next hmem =>
      have hview := h.view c consumer hc hmem
      rw [State.pending, hinitial, hbacklog, Option.toList_none, List.append_nil, List.append_nil] at hview
      exact ⟨hmem, hview⟩
    · cases hall

theorem Inv.seen_eq (h : Inv W v₀ s) (hfree : s.sending = false) {c consumer} (hc : s.consumers c = some consumer)
    (hall : s.available W consumer = none) : consumer.seen.foldl W.apply v₀ = s.currentValue := by
  obtain ⟨hmem, hview⟩ := h.seen_unsent_eq hc hall
  rwa [unsent_of_not_sending hfree hmem, List.append_nil] at hview

/-- **Subscribers converge.** Along every run of the loop, of its sends and of consumers that come, read, fall behind
and go, in which the events of each update transform the value before it into the value after it: a consumer for
which nothing is left to read lacks only what the batch under way has still to send to it, and has, if there is none,
the current value by the events it has seen. -/
theorem subscribers_converge (W : WatchEvents E V) (v₀ : V) (state : WatchState V) (labels : List (Label E V))
    (htransforms : Along (State.step W) (Transforms W) (State.start state) labels) {s : State E V}
    (hs : labels.foldl (State.step W) (State.start state) = s) {c : Nat} {consumer : Consumer E}
    (hc : s.consumers c = some consumer) (hall : s.available W consumer = none) :
    (consumer.seen ++ s.unsent consumer.subscriptionId).foldl W.apply v₀ = s.currentValue ∧
      (s.sending = false → consumer.seen.foldl W.apply v₀ = s.currentValue) := by
  obtain ⟨-, hinv⟩ := Along.invariant (Q := fun _ _ => True) (I := Inv W v₀)
    (fun s label h ht => ⟨trivial, h.step label ht⟩) htransforms (inv_start state)
  rw [hs] at hinv
  exact ⟨(hinv.seen_unsent_eq hc hall).2, fun hfree => hinv.seen_eq hfree hc hall⟩

/-- Values that are synced as a whole, with room for one event. -/
def wholeSyncs : WatchEvents Nat Nat := ⟨1, id, fun _ event => event, fun _ _ => rfl⟩

/-- A consumer that reads between two sends of a batch of three events, and is cut off by the last. -/
def overflowing : List (Label Nat Nat) :=
  [.events 0, .next 0, .loop (some (.success [1, 2, 3] ⟨3, 7⟩)), .send 0, .next 0, .send 0, .send 0, .next 0, .next 0]

theorem subscribers_converge_overflowing :
    let s := overflowing.foldl (State.step wholeSyncs) (State.start ⟨0, 5⟩)
    s.watchers = [1] ∧ s.sending = false ∧ [0, 1, 2, 3].foldl wholeSyncs.apply 9 = s.currentValue := by
  intro s
  have hc : s.consumers 0 = some ⟨1, none, [0, 1, 2, 3]⟩ := rfl
  exact ⟨rfl, rfl, (subscribers_converge wholeSyncs 9 ⟨0, 5⟩ overflowing
    ⟨trivial, trivial, rfl, trivial, trivial, trivial, trivial, trivial, trivial, trivial⟩ rfl hc rfl).2 rfl⟩

theorem loopState_step {label} (h : ∀ outcome, label ≠ .loop outcome) : (s.step W label).loopState = s.loopState := by
  cases label with
  | loop outcome => exact absurd rfl (h outcome)
  | send id =>
    rw [State.step]
    unfold State.send
    repeat' split
    all_goals rfl
  | events c | drop c =>
    rw [State.step]
    split <;> rfl
  | next c =>
    rw [State.step]
    split
    · rfl
    · unfold State.nextEvent
      repeat' split
      all_goals rfl

end Osprey.EtcdWatcherd
