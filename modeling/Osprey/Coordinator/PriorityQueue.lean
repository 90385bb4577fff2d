/-
The coordinator's priority queue: a channel for synchronous and one for
asynchronous actions, any number of callers of `recv`, and the shutdown, which
nacks what is queued asynchronously and later closes both channels.

The parties run on several threads, so a step of the system is one operation on
one channel: `recv` polls the synchronous channel and then the asynchronous one,
and other parties may move in between; `close` closes the synchronous channel
and then the other. A `recv` that finds the synchronous channel closed and empty
returns an error without a look at the asynchronous one, so what is queued there
when the queue is closed is lost.
-/
import Mathlib.Algebra.Order.BigOperators.Group.Finset
import Mathlib.Algebra.BigOperators.Fin
import Osprey.Lib.Channel
import Osprey.Lib.Run

namespace Osprey.PriorityQueue

open Lib (Channel Along)

/-! ## The queue and its users -/

/-- An `AckableAction`: which action it is, and how often it was sent. -/
structure AckableAction where
  action : Nat
  localRetryCount : Nat := 0
  deriving DecidableEq, Repr

def AckableAction.incrementRetryCount (a : AckableAction) : AckableAction :=
  { a with localRetryCount := a.localRetryCount + 1 }

inductive Priority
  | sync
  | async
  deriving DecidableEq, Repr

inductive Receiver
  /-- Not in a call. -/
  | idle
  /-- About to poll the synchronous channel, at the head of the loop or woken in the `select!`. -/
  | polling
  /-- The synchronous channel had nothing; about to poll the asynchronous one. -/
  | polledSync
  /-- The asynchronous channel is closed; in `self.sync_receiver.recv().await`. -/
  | awaitingSync
  /-- An action was taken from a channel; about to look whether its acking receiver is gone. -/
  | holding (priority : Priority) (a : AckableAction)
  /-- `recv` returned an error, and is not called again. -/
  | ended
  deriving DecidableEq

/-- The queue, `k` callers of `recv`, and what has become of the actions. -/
structure State (k : Nat) where
  sync : Channel AckableAction := {}
  async : Channel AckableAction := {}
  receivers : Fin k → Receiver := fun _ => .idle
  /-- The actions whose acking receiver is gone. -/
  gone : List Nat := []
  /-- How many calls of `close` are between closing one channel and the other. -/
  closing : Nat := 0
  accepted : List AckableAction := []
  returned : List AckableAction := []
  nacked : List AckableAction := []
  skipped : List AckableAction := []

inductive Label (k : Nat)
  | sendSync (a : AckableAction)
  | sendAsync (a : AckableAction)
  | closeSync
  | closeAsync
  /-- One turn of the loop of `nack_all_async`. -/
  | nackAsync
  | dropAckingReceiver (action : Nat)
  /-- A caller of `recv` goes on to its next operation on a channel, or calls it again. -/
  | advance (i : Fin k)
  deriving DecidableEq

variable {k : Nat}

def State.setReceiver (s : State k) (i : Fin k) (r : Receiver) : State k :=
  { s with receivers := Function.update s.receivers i r }

/-- The first synchronous action goes to a receiver. -/
def State.takeSync (s : State k) (i : Fin k) (a : AckableAction) : State k :=
  { s with sync := s.sync.pop }.setReceiver i (.holding .sync a)

def State.takeAsync (s : State k) (i : Fin k) (a : AckableAction) : State k :=
  { s with async := s.async.pop }.setReceiver i (.holding .async a)

/-- `send` with `Priority::Sync`; a closed channel refuses the action. -/
def State.sendSync (s : State k) (a : AckableAction) : State k :=
  let a := a.incrementRetryCount
  { s with
    sync := s.sync.send a
    accepted := if s.sync.closed then s.accepted else s.accepted ++ [a] }

def State.sendAsync (s : State k) (a : AckableAction) : State k :=
  let a := a.incrementRetryCount
  { s with
    async := s.async.send a
    accepted := if s.async.closed then s.accepted else s.accepted ++ [a] }

def State.closeSync (s : State k) : State k := { s with sync := s.sync.close, closing := s.closing + 1 }

def State.closeAsync (s : State k) : State k :=
  if s.closing = 0 then s else { s with async := s.async.close, closing := s.closing - 1 }

/-- `nack_all_async`, one `try_recv`. -/
def State.nackAsync (s : State k) : State k :=
  match s.async.tryRecv with
  | .item a => { s with async := s.async.pop, nacked := s.nacked ++ [a] }
  | .empty | .closed => s

/-- `recv`, the caller's next operation. -/
def State.advance (s : State k) (i : Fin k) : State k :=
  match s.receivers i with
  | .idle => s.setReceiver i .polling
  | .polling =>
    match s.sync.tryRecv with
    | .item a => s.takeSync i a
    | .closed => s.setReceiver i .ended
    | .empty => s.setReceiver i .polledSync
  | .polledSync =>
    match s.async.tryRecv with
    | .item a => s.takeAsync i a
    | .closed => s.setReceiver i .awaitingSync
    | .empty => s.setReceiver i .polling
  | .awaitingSync =>
    match s.sync.tryRecv with
    | .item a => s.takeSync i a
    | .closed => s.setReceiver i .ended
    | .empty => s
  | .holding _ a =>
    if a.action ∈ s.gone then { s with skipped := s.skipped ++ [a] }.setReceiver i .polling
    else { s with returned := s.returned ++ [a] }.setReceiver i .idle
  | .ended => s

def next (s : State k) : Label k → State k
  | .sendSync a => s.sendSync a
  | .sendAsync a => s.sendAsync a
  | .closeSync => s.closeSync
  | .closeAsync => s.closeAsync
  | .nackAsync => s.nackAsync
  | .dropAckingReceiver action => { s with gone := action :: s.gone }
  | .advance i => s.advance i

/-- The state after the steps of a run, from an empty queue that nobody reads. -/
def run (k : Nat) (labels : List (Label k)) : State k := labels.foldl next {}

/-! ## What a caller's step can do -/

/-- The steps of a caller of `recv`, each with what it found. -/
inductive Advance (s : State k) (i : Fin k) : State k → Prop
  | call (h : s.receivers i = .idle) : Advance s i (s.setReceiver i .polling)
  | takeSync {a : AckableAction} (h : s.receivers i = .polling ∨ s.receivers i = .awaitingSync)
      (hqueue : s.sync.queue = a :: s.sync.pop.queue) : Advance s i (s.takeSync i a)
  | err (h : s.receivers i = .polling ∨ s.receivers i = .awaitingSync) (hsync : s.sync.Exhausted) :
      Advance s i (s.setReceiver i .ended)
  | syncEmpty (h : s.receivers i = .polling) (hopen : s.sync.closed = false) (hqueue : s.sync.queue = []) :
      Advance s i (s.setReceiver i .polledSync)
  | takeAsync {a : AckableAction} (h : s.receivers i = .polledSync)
    (hqueue : s.async.queue = a :: s.async.pop.queue) :
      Advance s i (s.takeAsync i a)
  | asyncClosed (h : s.receivers i = .polledSync) (hasync : s.async.Exhausted) :
      Advance s i (s.setReceiver i .awaitingSync)
  | asyncEmpty (h : s.receivers i = .polledSync) (hopen : s.async.closed = false) :
      Advance s i (s.setReceiver i .polling)
  | waiting (h : s.receivers i = .awaitingSync) (hopen : s.sync.closed = false) : Advance s i s
  | skip {priority : Priority} {a : AckableAction} (h : s.receivers i = .holding priority a) :
      Advance s i ({ s with skipped := s.skipped ++ [a] }.setReceiver i .polling)
  | ret {priority : Priority} {a : AckableAction} (h : s.receivers i = .holding priority a) :
      Advance s i ({ s with returned := s.returned ++ [a] }.setReceiver i .idle)
  | done (h : s.receivers i = .ended) : Advance s i s

theorem advance_cases (s : State k) (i : Fin k) : Advance s i (s.advance i) := by
  unfold State.advance
  split
  · next h => exact .call h
  · next h =>
    split
    · next hrecv => exact .takeSync (.inl h) (Channel.tryRecv_eq_item hrecv)
    · next hrecv => exact .err (.inl h) (Channel.tryRecv_eq_closed hrecv)
    · next hrecv =>
      obtain ⟨hopen, hqueue⟩ := Channel.tryRecv_eq_empty hrecv
      exact .syncEmpty h hopen hqueue
  · next h =>
    split
    · next hrecv => exact .takeAsync h (Channel.tryRecv_eq_item hrecv)
    · next hrecv => exact .asyncClosed h (Channel.tryRecv_eq_closed hrecv)
    · next hrecv => exact .asyncEmpty h (Channel.tryRecv_eq_empty hrecv).1
  · next h =>
    split
    · next hrecv => exact .takeSync (.inr h) (Channel.tryRecv_eq_item hrecv)
    · next hrecv => exact .err (.inr h) (Channel.tryRecv_eq_closed hrecv)
    · next hrecv => exact .waiting h (Channel.tryRecv_eq_empty hrecv).1
  · next h =>
    split
    · exact .skip h
    · exact .ret h
  · next h => exact .done h

theorem nackAsync_cases (s : State k) :
    s.nackAsync = s ∨ ∃ a, s.async.queue = a :: s.async.pop.queue ∧
      s.nackAsync = { s with async := s.async.pop, nacked := s.nacked ++ [a] } := by
  unfold State.nackAsync
  split
  · next a hrecv => exact .inr ⟨a, Channel.tryRecv_eq_item hrecv, rfl⟩
  · exact .inl rfl
  · exact .inl rfl

variable {s : State k}

theorem sendSync_of_closed (h : s.sync.closed = true) (a : AckableAction) : s.sendSync a = s := by
  simp only [State.sendSync, Channel.send_of_closed h, h, if_true]

theorem sendSync_of_open (h : ¬ s.sync.closed = true) (a : AckableAction) :
    s.sendSync a = { s with
      sync := { s.sync with queue := s.sync.queue ++ [a.incrementRetryCount] }
      accepted := s.accepted ++ [a.incrementRetryCount] } := by
  simp only [State.sendSync, Channel.send_of_open h, if_neg h]

theorem sendAsync_of_closed (h : s.async.closed = true) (a : AckableAction) : s.sendAsync a = s := by
  simp only [State.sendAsync, Channel.send_of_closed h, h, if_true]

theorem sendAsync_of_open (h : ¬ s.async.closed = true) (a : AckableAction) :
    s.sendAsync a = { s with
      async := { s.async with queue := s.async.queue ++ [a.incrementRetryCount] }
      accepted := s.accepted ++ [a.incrementRetryCount] } := by
  simp only [State.sendAsync, Channel.send_of_open h, if_neg h]

@[simp] theorem setReceiver_receivers (s : State k) (i j : Fin k) (r : Receiver) :
    (s.setReceiver i r).receivers j = if j = i then r else s.receivers j := by
  simp [State.setReceiver, Function.update_apply]

theorem sum_setReceiver (f : Receiver → Nat) (s : State k) (i : Fin k) (r : Receiver) :
    ∑ j, f ((s.setReceiver i r).receivers j) + f (s.receivers i) = ∑ j, f (s.receivers j) + f r := by
  have hrest : ∑ j ∈ Finset.univ.erase i, f ((s.setReceiver i r).receivers j) =
      ∑ j ∈ Finset.univ.erase i, f (s.receivers j) := by
    refine Finset.sum_congr rfl fun j hj => ?_
    rw [setReceiver_receivers, if_neg (Finset.ne_of_mem_erase hj)]
  have hset := Finset.add_sum_erase Finset.univ (fun j => f ((s.setReceiver i r).receivers j)) (Finset.mem_univ i)
  have hold := Finset.add_sum_erase Finset.univ (fun j => f (s.receivers j)) (Finset.mem_univ i)
  simp only [setReceiver_receivers, if_true] at hset hrest ⊢
  omega

/-! ## Nothing is lost or doubled on the way -/

/-- The action a receiver has taken and not yet returned or skipped. -/
def Receiver.held : Receiver → List AckableAction
  | .holding _ a => [a]
  | _ => []

def State.held (s : State k) : List AckableAction := (List.finRange k).flatMap fun i => (s.receivers i).held

/-- Every accepted action is in one place. -/
def Balanced (s : State k) : Prop :=
  s.accepted.Perm (s.sync.queue ++ s.async.queue ++ s.held ++ s.returned ++ s.nacked ++ s.skipped)

theorem balanced_iff (s : State k) : Balanced s ↔ ∀ a, s.accepted.count a = s.sync.queue.count a +
    s.async.queue.count a + ∑ i, (s.receivers i).held.count a + s.returned.count a + s.nacked.count a +
    s.skipped.count a := by
  have hheld : ∀ a, s.held.count a = ∑ i, (s.receivers i).held.count a := by
    intro a
    rw [State.held, List.count_flatMap, Fin.sum_univ_def]
    rfl
  rw [Balanced, List.perm_iff_count]
  refine forall_congr' fun a => ?_
  simp only [List.count_append, hheld]

variable {i : Fin k} {r : Receiver} {s₁ : State k}

/-- A receiver is set, and the actions are moved so that each of them is still somewhere. -/
theorem Balanced.setReceiver (h : Balanced s)
    (haccepted : s₁.accepted = s.accepted) (hreceivers : s₁.receivers = s.receivers)
    (hmoved : ∀ a, s₁.sync.queue.count a + s₁.async.queue.count a + r.held.count a + s₁.returned.count a +
        s₁.nacked.count a + s₁.skipped.count a =
      s.sync.queue.count a + s.async.queue.count a + (s.receivers i).held.count a + s.returned.count a +
        s.nacked.count a + s.skipped.count a) :
    Balanced (s₁.setReceiver i r) := by
  rw [balanced_iff] at h ⊢
  intro a
  have ha := h a
  have hm := hmoved a
  have hsum := sum_setReceiver (fun r => r.held.count a) s₁ i r
  rw [hreceivers] at hsum
  rw [← haccepted] at ha
  show s₁.accepted.count a = s₁.sync.queue.count a + s₁.async.queue.count a +
    ∑ j, ((s₁.setReceiver i r).receivers j).held.count a + s₁.returned.count a + s₁.nacked.count a + s₁.skipped.count a
  omega

theorem balanced_advance (h : Balanced s) (i : Fin k) : Balanced (s.advance i) := by
  have hstep := advance_cases s i
  generalize s.advance i = s' at hstep ⊢
  cases hstep with
  | call hr | syncEmpty hr | asyncClosed hr | asyncEmpty hr => exact h.setReceiver rfl rfl fun a => by rw [hr]; rfl
  | takeSync hr hqueue =>
    refine h.setReceiver rfl rfl fun a => ?_
    rw [hqueue]
    rcases hr with hr | hr <;> simp only [hr, Receiver.held, List.count_cons, List.count_nil] <;> omega
  | err hr => exact h.setReceiver rfl rfl fun a => by rcases hr with hr | hr <;> rw [hr] <;> rfl
  | takeAsync hr hqueue =>
    refine h.setReceiver rfl rfl fun a => ?_
    rw [hqueue]
    simp only [hr, Receiver.held, List.count_cons, List.count_nil]
    omega
  | waiting hr | done hr => exact h
  | skip hr | ret hr =>
    refine h.setReceiver rfl rfl fun a => ?_
    simp only [hr, Receiver.held, List.count_append, List.count_nil]
    omega

theorem balanced_next (h : Balanced s) (label : Label k) : Balanced (next s label) := by
  cases label with
  | sendSync a =>
    simp only [next]
    by_cases hclosed : s.sync.closed = true
    · rw [sendSync_of_closed hclosed]
      exact h
    · rw [sendSync_of_open hclosed]
      rw [balanced_iff] at h ⊢
      intro b
      have hb := h b
      simp only [List.count_append]
      omega
  | sendAsync a =>
    simp only [next]
    by_cases hclosed : s.async.closed = true
    · rw [sendAsync_of_closed hclosed]
      exact h
    · rw [sendAsync_of_open hclosed]
      rw [balanced_iff] at h ⊢
      intro b
      have hb := h b
      simp only [List.count_append]
      omega
  | closeSync => exact h
  | closeAsync =>
    simp only [next, State.closeAsync]
    split
    · exact h
    · exact h
  | nackAsync =>
    simp only [next]
    rcases nackAsync_cases s with heq | ⟨a, hqueue, heq⟩
    · rw [heq]
      exact h
    · rw [balanced_iff] at h
      rw [heq, balanced_iff]
      intro b
      have hb := h b
      rw [hqueue] at hb
      simp only [List.count_append, List.count_cons, List.count_nil] at hb ⊢
      omega
  | dropAckingReceiver action => exact h
  | advance i => exact balanced_advance h i

/-- **Nothing is lost or doubled on the way**: whatever the interleaving, every accepted action is
queued, held by one receiver, returned, nacked or skipped, and only one of these. -/
theorem run_balanced (labels : List (Label k)) : Balanced (run k labels) := by
  refine List.foldlRecOn labels next ?_ fun s h label _ => balanced_next h label
  simp [Balanced, State.held, Receiver.held]

/-! ## What is asked of a run -/

/-- If `recv` returns an error in the step, both channels are closed and empty. -/
def ErrJustified (s : State k) : Label k → Prop
  | .advance i => s.receivers i ≠ .ended → (s.advance i).receivers i = .ended → s.sync.Exhausted ∧ s.async.Exhausted
  | _ => True

instance (s : State k) : (label : Label k) → Decidable (ErrJustified s label)
  | .advance i => inferInstanceAs (Decidable (s.receivers i ≠ .ended → (s.advance i).receivers i = .ended →
      s.sync.Exhausted ∧ s.async.Exhausted))
  | .sendSync _ | .sendAsync _ | .closeSync | .closeAsync | .nackAsync | .dropAckingReceiver _ => .isTrue trivial

/-- If `recv` returns an asynchronous action in the step, no synchronous one is queued. -/
def SyncFirst (s : State k) : Label k → Prop
  | .advance i => ∀ a, s.receivers i = .holding .async a → (s.advance i).receivers i = .idle → s.sync.queue = []
  | _ => True

/-- The receiver found no synchronous action and has not returned yet. -/
def Receiver.pastSync : Receiver → Bool
  | .polledSync | .holding .async _ => true
  | _ => false

/-- The synchronous channel is closed and the other is not: a `close` is between its two halves. -/
def State.HalfClosed (s : State k) : Prop := s.sync.closed = true ∧ s.async.closed = false

instance (s : State k) : Decidable s.HalfClosed := instDecidableAnd

/-- When the queue is used without loss: it is closed with no asynchronous action queued; while it is
half closed no asynchronous action is sent and no `recv` polls; and no synchronous action is sent
between a receiver's look at the synchronous channel and its return. -/
def Careful (s : State k) : Label k → Prop
  | .closeSync => s.async.queue = []
  | .sendAsync _ => ¬ s.HalfClosed
  | .advance i => s.receivers i = .polling → ¬ s.HalfClosed
  | .sendSync _ => s.sync.closed = false → ∀ i, (s.receivers i).pastSync = false
  | _ => True

instance (s : State k) : (label : Label k) → Decidable (Careful s label)
  | .closeSync => inferInstanceAs (Decidable (s.async.queue = []))
  | .sendAsync _ => inferInstanceAs (Decidable (¬ s.HalfClosed))
  | .advance i => inferInstanceAs (Decidable (s.receivers i = .polling → ¬ s.HalfClosed))
  | .sendSync _ => inferInstanceAs (Decidable (s.sync.closed = false → ∀ i, (s.receivers i).pastSync = false))
  | .closeAsync | .nackAsync | .dropAckingReceiver _ => .isTrue trivial

structure Inv (s : State k) : Prop where
  /-- Once the synchronous channel is closed nothing is queued in the other. -/
  async : s.sync.closed = true → s.async.queue = []
  pastSync : ∀ i, (s.receivers i).pastSync = true → s.sync.queue = []
  awaiting : ∀ i, s.receivers i = .awaitingSync → s.async.Exhausted
  ended : ∀ i, s.receivers i = .ended → s.sync.Exhausted ∧ s.async.Exhausted

theorem inv_init : Inv ({} : State k) := by
  refine ⟨by simp, ?_, by simp, by simp⟩
  intro i h
  rfl

theorem Inv.setReceiver (h : Inv s) (hreceivers : s₁.receivers = s.receivers)
    (hsyncClosed : s₁.sync.closed = s.sync.closed) (hsync : s.sync.queue = [] → s₁.sync.queue = [])
    (hasyncClosed : s₁.async.closed = s.async.closed) (hasync : s.async.queue = [] → s₁.async.queue = [])
    (hpast : r.pastSync = true → s.sync.queue = []) (hawaiting : r = .awaitingSync → s.async.Exhausted)
    (hended : r = .ended → s.sync.Exhausted ∧ s.async.Exhausted) : Inv (s₁.setReceiver i r) := by
  have hsyncEx : s.sync.Exhausted → s₁.sync.Exhausted := fun hex => ⟨hsyncClosed.trans hex.1, hsync hex.2⟩
  have hasyncEx : s.async.Exhausted → s₁.async.Exhausted := fun hex => ⟨hasyncClosed.trans hex.1, hasync hex.2⟩
  refine ⟨fun hclosed => hasync (h.async (hsyncClosed.symm.trans hclosed)), ?_, ?_, ?_⟩
  · intro j hj
    rw [setReceiver_receivers, hreceivers] at hj
    split at hj
    · exact hsync (hpast hj)
    · exact hsync (h.pastSync j hj)
  · intro j hj
    rw [setReceiver_receivers, hreceivers] at hj
    split at hj
    · exact hasyncEx (hawaiting hj)
    · exact hasyncEx (h.awaiting j hj)
  · intro j hj
    rw [setReceiver_receivers, hreceivers] at hj
    split at hj
    · exact (hended hj).imp hsyncEx hasyncEx
    · exact (h.ended j hj).imp hsyncEx hasyncEx

/-- A careful step of a receiver: what it keeps, when it returns an error, and what it returns. -/
theorem Inv.advance (h : Inv s) (hcareful : s.receivers i = .polling → ¬ s.HalfClosed) :
    Inv (s.advance i) ∧ ErrJustified s (.advance i) ∧ SyncFirst s (.advance i) := by
  have hfirst : SyncFirst s (.advance i) := fun a hr _ => h.pastSync i (by rw [hr]; rfl)
  have herr : (s.receivers i = .polling ∨ s.receivers i = .awaitingSync) → s.sync.Exhausted →
      s.sync.Exhausted ∧ s.async.Exhausted := by
    rintro (hr | hr) hex
    · refine ⟨hex, ?_, h.async hex.1⟩
      by_contra hopen
      exact hcareful hr ⟨hex.1, by simpa using hopen⟩
    · exact ⟨hex, h.awaiting i hr⟩
  simp only [ErrJustified]
  have hstep := advance_cases s i
  refine and_left_comm.mpr ⟨?_, ?_, hfirst⟩
  · generalize s.advance i = s' at hstep ⊢
    intro hne hended
    cases hstep with
    | err hr hex => exact herr hr hex
    | waiting hr | done hr => exact absurd hended hne
    | takeSync | takeAsync => simp [State.takeSync, State.takeAsync] at hended
    | _ => simp at hended
  · generalize s.advance i = s' at hstep ⊢
    cases hstep with
    | waiting hr | done hr => exact h
    | takeSync hr hqueue =>
      exact h.setReceiver rfl rfl Channel.pop_queue_of_empty rfl id (by simp [Receiver.pastSync]) (by simp) (by simp)
    | takeAsync hr hqueue =>
      refine h.setReceiver rfl rfl id rfl Channel.pop_queue_of_empty ?_ (by simp) (by simp)
      exact fun _ => h.pastSync i (by rw [hr]; rfl)
    | err hr hex =>
      exact h.setReceiver rfl rfl id rfl id (by simp [Receiver.pastSync]) (by simp) fun _ => herr hr hex
    | syncEmpty hr hopen hqueue => exact h.setReceiver rfl rfl id rfl id (fun _ => hqueue) (by simp) (by simp)
    | asyncClosed hr hex =>
      exact h.setReceiver rfl rfl id rfl id (by simp [Receiver.pastSync]) (fun _ => hex) (by simp)
    | call hr | asyncEmpty hr hopen | skip hr | ret hr =>
      exact h.setReceiver rfl rfl id rfl id (by simp [Receiver.pastSync]) (by simp) (by simp)

/-- **A careful step** keeps the invariant; an error it returns is justified and synchronous actions
go first. -/
theorem Inv.next (h : Inv s) {label} (hcareful : Careful s label) :
    (ErrJustified s label ∧ SyncFirst s label) ∧ Inv (next s label) := by
  cases label with
  | advance i =>
    obtain ⟨h', herr, hfirst⟩ := h.advance hcareful
    exact ⟨⟨herr, hfirst⟩, h'⟩
  | sendSync a =>
    refine ⟨⟨trivial, trivial⟩, ?_⟩
    simp only [PriorityQueue.next]
    by_cases hclosed : s.sync.closed = true
    · rw [sendSync_of_closed hclosed]
      exact h
    · rw [sendSync_of_open hclosed]
      refine ⟨h.async, ?_, h.awaiting, ?_⟩
      · intro i hi
        have := hcareful (by simpa using hclosed) i
        exact absurd hi (by simp [this])
      · intro i hi
        exact absurd (h.ended i hi).1.1 hclosed
  | sendAsync a =>
    refine ⟨⟨trivial, trivial⟩, ?_⟩
    simp only [PriorityQueue.next]
    by_cases hclosed : s.async.closed = true
    · rw [sendAsync_of_closed hclosed]
      exact h
    · rw [sendAsync_of_open hclosed]
      refine ⟨?_, h.pastSync, ?_, ?_⟩
      · intro hsync
        exact absurd ⟨hsync, by simpa using hclosed⟩ hcareful
      · intro i hi
        exact absurd (h.awaiting i hi).1 hclosed
      · intro i hi
        exact absurd (h.ended i hi).2.1 hclosed
  | closeSync =>
    refine ⟨⟨trivial, trivial⟩, fun _ => hcareful, h.pastSync, h.awaiting, ?_⟩
    intro i hi
    exact ⟨(h.ended i hi).1.close, (h.ended i hi).2⟩
  | closeAsync =>
    refine ⟨⟨trivial, trivial⟩, ?_⟩
    simp only [PriorityQueue.next, State.closeAsync]
    split
    · exact h
    · refine ⟨h.async, h.pastSync, fun i hi => (h.awaiting i hi).close, ?_⟩
      intro i hi
      exact ⟨(h.ended i hi).1, (h.ended i hi).2.close⟩
  | nackAsync =>
    refine ⟨⟨trivial, trivial⟩, ?_⟩
    simp only [PriorityQueue.next]
    rcases nackAsync_cases s with heq | ⟨a, hqueue, heq⟩
    · rw [heq]
      exact h
    · rw [heq]
      have hpop : s.async.Exhausted → s.async.pop.Exhausted := fun hex => ⟨hex.1, Channel.pop_queue_of_empty hex.2⟩
      refine ⟨fun hclosed => Channel.pop_queue_of_empty (h.async hclosed), h.pastSync,
        fun i hi => hpop (h.awaiting i hi), ?_⟩
      intro i hi
      exact ⟨(h.ended i hi).1, hpop (h.ended i hi).2⟩
  | dropAckingReceiver action => exact ⟨⟨trivial, trivial⟩, h.async, h.pastSync, h.awaiting, h.ended⟩

/-! ## Every receiver comes to its end -/

/-- How far a receiver that finds the channels closed is from its end, not counting actions it takes. -/
def Receiver.rank : Receiver → Nat
  | .ended => 0
  | .awaitingSync => 1
  | .polledSync => 2
  | .polling => 3
  | .idle => 4
  | .holding _ _ => 5

/-- A bound on the steps the receivers have left once both channels are closed. -/
def State.left (s : State k) : Nat :=
  5 * (s.sync.queue.length + s.async.queue.length) + ∑ i, (s.receivers i).rank

def State.BothClosed (s : State k) : Prop := s.sync.closed = true ∧ s.async.closed = true

/-- Setting a receiver changes what is left by the ranks, and by the items that were taken. -/
theorem left_setReceiver (hreceivers : s₁.receivers = s.receivers)
    {t} (htaken : s₁.sync.queue.length + s₁.async.queue.length + t =
      s.sync.queue.length + s.async.queue.length) (hlt : r.rank < (s.receivers i).rank + 5 * t) :
    (s₁.setReceiver i r).left < s.left := by
  have hsum := sum_setReceiver Receiver.rank s₁ i r
  rw [hreceivers] at hsum
  show 5 * (s₁.sync.queue.length + s₁.async.queue.length) + ∑ j, ((s₁.setReceiver i r).receivers j).rank <
    5 * (s.sync.queue.length + s.async.queue.length) + ∑ j, (s.receivers j).rank
  omega

theorem advance_left (hclosed : s.BothClosed) (hne : s.receivers i ≠ .ended) : (s.advance i).left < s.left := by
  have hstep := advance_cases s i
  generalize s.advance i = s' at hstep ⊢
  cases hstep with
  | done hr => exact absurd hr hne
  | waiting hr hopen => exact absurd hclosed.1 (by simp [hopen])
  | syncEmpty hr hopen => exact absurd hclosed.1 (by simp [hopen])
  | asyncEmpty hr hopen => exact absurd hclosed.2 (by simp [hopen])
  | takeSync hr hqueue =>
    refine left_setReceiver (s := s) (t := 1) rfl ?_ ?_
    · rw [hqueue, List.length_cons]
      show s.sync.pop.queue.length + s.async.queue.length + 1 = _
      omega
    · rcases hr with hr | hr <;> simp [hr, Receiver.rank]
  | takeAsync hr hqueue =>
    refine left_setReceiver (s := s) (t := 1) rfl ?_ (by simp [hr, Receiver.rank])
    rw [hqueue, List.length_cons]
    show s.sync.queue.length + s.async.pop.queue.length + 1 = _
    omega
  | err hr => exact left_setReceiver (t := 0) rfl rfl (by rcases hr with hr | hr <;> rw [hr] <;> decide)
  | call hr | asyncClosed hr => exact left_setReceiver (t := 0) rfl rfl (by rw [hr]; decide)
  | skip hr | ret hr => exact left_setReceiver (s := s) (t := 0) rfl rfl (by simp [hr, Receiver.rank])

/-- 1 for the step of a receiver that has not ended. -/
def moves (s : State k) : Label k → Nat
  | .advance i => if s.receivers i = .ended then 0 else 1
  | _ => 0

theorem next_left (hclosed : s.BothClosed) (label : Label k) :
    (next s label).BothClosed ∧ moves s label + (next s label).left ≤ s.left := by
  cases label with
  | sendSync a =>
    simp only [next, moves, sendSync_of_closed hclosed.1]
    exact ⟨hclosed, by omega⟩
  | sendAsync a =>
    simp only [next, moves, sendAsync_of_closed hclosed.2]
    exact ⟨hclosed, by omega⟩
  | closeSync => exact ⟨⟨rfl, hclosed.2⟩, (Nat.zero_add _).le⟩
  | closeAsync =>
    simp only [next, moves, State.closeAsync]
    split
    · exact ⟨hclosed, by omega⟩
    · exact ⟨⟨hclosed.1, rfl⟩, (Nat.zero_add _).le⟩
  | nackAsync =>
    simp only [next, moves]
    rcases nackAsync_cases s with heq | ⟨a, hqueue, heq⟩
    · rw [heq]
      exact ⟨hclosed, by omega⟩
    · rw [heq]
      refine ⟨hclosed, ?_⟩
      simp only [State.left]
      rw [hqueue, List.length_cons]
      omega
  | dropAckingReceiver action => exact ⟨hclosed, (Nat.zero_add _).le⟩
  | advance i =>
    refine ⟨?_, ?_⟩
    · have hstep := advance_cases s i
      simp only [next]
      generalize s.advance i = s' at hstep ⊢
      cases hstep <;> exact hclosed
    · simp only [next, moves]
      split
      · next hended =>
        have : s.advance i = s := by simp [State.advance, hended]
        rw [this]
        omega
      · next hne =>
        have := advance_left hclosed hne
        omega

/-- How many steps of a run are steps of receivers that have not ended. -/
def advances (s : State k) : List (Label k) → Nat
  | [] => 0
  | label :: more => moves s label + advances (next s label) more

theorem advances_le : ∀ (more : List (Label k)) {s}, s.BothClosed →
    advances s more + (more.foldl next s).left ≤ s.left
  | [], _, _ => (Nat.zero_add _).le
  | label :: more, s, hclosed => by
    obtain ⟨hclosed', hle⟩ := next_left hclosed label
    have := advances_le more hclosed'
    simp only [advances, List.foldl_cons]
    omega

/-! ## Shutdown -/

theorem Balanced.of_ended (h : Balanced s) (hk : 0 < k) (hinv : Inv s)
    (hended : ∀ i, s.receivers i = .ended) : s.accepted.Perm (s.returned ++ s.nacked ++ s.skipped) := by
  obtain ⟨hsync, hasync⟩ := hinv.ended ⟨0, hk⟩ (hended _)
  have hheld : s.held = [] := by simp [State.held, hended, Receiver.held]
  rw [Balanced, hsync.2, hasync.2, hheld] at h
  exact h

/-- **The queue loses nothing when it is used carefully.** In every run whose steps are careful, with
any number of receivers: `recv` returns an error only when both channels are closed and empty, and no
asynchronous action while a synchronous one is queued; every accepted action is in one place; once both
channels are closed the receivers come to their ends within a bounded number of their steps; and when
they have, every accepted action was returned once, nacked or skipped. -/
theorem careful_run_loses_nothing {labels : List (Label k)} (h : Along next Careful {} labels) :
    Along next (fun s label => ErrJustified s label ∧ SyncFirst s label) {} labels ∧
      Balanced (run k labels) ∧
      ((run k labels).BothClosed → ∀ more, advances (run k labels) more ≤ (run k labels).left) ∧
      (0 < k → (∀ i, (run k labels).receivers i = .ended) →
        (run k labels).accepted.Perm ((run k labels).returned ++ (run k labels).nacked ++
          (run k labels).skipped)) := by
  obtain ⟨hsteps, hinv⟩ := h.invariant (fun s label hs hcareful => hs.next hcareful) inv_init
  refine ⟨hsteps, run_balanced labels, ?_, ?_⟩
  · intro hclosed more
    have := advances_le more hclosed
    omega
  · intro hk hended
    exact (run_balanced labels).of_ended hk hinv hended

/-- One receiver, four actions: one returned of either priority, one skipped, one nacked. -/
def carefulLabels : List (Label 1) :=
  [.sendAsync ⟨1, 0⟩, .sendSync ⟨2, 0⟩, .sendAsync ⟨3, 0⟩, .dropAckingReceiver 3] ++
    List.replicate 11 (.advance 0) ++ [.sendAsync ⟨4, 0⟩, .nackAsync, .closeSync, .closeAsync] ++
    List.replicate 2 (.advance 0)

theorem carefulLabels_lose_nothing :
    (run 1 carefulLabels).receivers 0 = .ended ∧
      (run 1 carefulLabels).accepted.Perm ([⟨2, 1⟩, ⟨1, 1⟩] ++ [⟨4, 1⟩] ++ [⟨3, 1⟩]) := by
  have hcareful : Along next Careful {} carefulLabels := by decide
  have hended : (run 1 carefulLabels).receivers 0 = .ended := by decide
  refine ⟨hended, (careful_run_loses_nothing hcareful).2.2.2 (by decide) fun i => ?_⟩
  rw [Subsingleton.elim i 0]
  exact hended

/-- An asynchronous action is queued when the queue is closed. -/
def closeWithAsyncQueued : List (Label 1) :=
  [.sendAsync ⟨1, 0⟩, .closeSync, .closeAsync, .advance 0, .advance 0]

/-- `recv` returns an error with the action still queued, and the action is neither returned nor nacked
nor skipped. -/
theorem close_loses_queued_async :
    ¬ Along next ErrJustified {} closeWithAsyncQueued ∧
      (run 1 closeWithAsyncQueued).receivers 0 = .ended ∧ (run 1 closeWithAsyncQueued).accepted = [⟨1, 1⟩] ∧
      (run 1 closeWithAsyncQueued).returned = [] ∧ (run 1 closeWithAsyncQueued).nacked = [] ∧
      (run 1 closeWithAsyncQueued).skipped = [] := by
  decide

end Osprey.PriorityQueue
