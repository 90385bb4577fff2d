/-
One stream between a worker and the coordinator: the worker's side is
`OspreyCoordinatorInputStream` over `OspreyCoordinatorBiDirectionalStream`,
the coordinator's the task of `osprey_bidirectional_stream`.

The worker puts its requests into a queue that an iterator reads until it
meets the stop signal; what is put later is never sent. The coordinator
matches answers by their position only. Messages may be lost and either side
may see an error or the end of the stream at any time.

What keeps the two in step is that there is one token between them: a request
on its way, the coordinator at work on it, an action on its way, or the worker
at work on that.
-/
import Mathlib.Data.List.Perm.Basic

namespace Osprey.BidirectionalStream

variable {ν : Type}

/-! ## Messages -/

inductive Answer (ν : Type)
  | ack (verdicts : Option ν)
  | nack
  deriving DecidableEq

/-- The message `AckOrNack`; a field of a message may be missing. -/
structure AckOrNack (ν : Type) where
  ackId : Nat
  ackOrNack : Option (Answer ν)

inductive ActionRequest (ν : Type)
  | initial
  | ackOrNack (ackOrNack : AckOrNack ν)

inductive Request (ν : Type)
  | actionRequest (actionRequest : Option (ActionRequest ν))
  | disconnect (ackOrNack : Option (AckOrNack ν))

abbrev Message (ν : Type) := Option (Request ν)

/-- An action, known by its place among those that the coordinator took from the queue. -/
structure Action where
  serial : Nat
  ackId : Nat

/-! ## The coordinator -/

/-- `ClientState`: the acker of an outstanding action is known by the action's place. -/
inductive ClientState
  | noOutstandingAction
  | outstandingAction (acker : Nat)
  deriving DecidableEq

def ClientState.ackers : ClientState → List Nat
  | .noOutstandingAction => []
  | .outstandingAction acker => [acker]

inductive StreamError
  | missingRequest
  | missingActionRequest
  | missingAckOrNack
  | initialWhileOutstanding
  | ackOrNackWithNoOutstanding
  deriving DecidableEq

/-- `handle_action_request`: the acker that it resolves, if any, and its answer. -/
def handleActionRequest : ActionRequest ν → ClientState → Except StreamError (Option (Nat × Answer ν))
  | .initial, .noOutstandingAction => .ok none
  | .initial, .outstandingAction _ => .error .initialWhileOutstanding
  | .ackOrNack _, .noOutstandingAction => .error .ackOrNackWithNoOutstanding
  | .ackOrNack ackOrNack, .outstandingAction acker =>
    match ackOrNack.ackOrNack with
    | none => .error .missingAckOrNack
    | some answer => .ok (some (acker, answer))

/-- What becomes of a request: an action is awaited, or the client has disconnected; with the acker that is
resolved. -/
inductive Directive (ν : Type)
  | awaitAction (resolved : Option (Nat × Answer ν))
  | clientRequestedDisconnect (resolved : Option (Nat × Answer ν))

/-- `handle_request`, up to where it awaits an action. -/
def handleRequest (request : Message ν) (clientState : ClientState) : Except StreamError (Directive ν) :=
  match request with
  | none => .error .missingRequest
  | some (.actionRequest none) => .error .missingActionRequest
  | some (.actionRequest (some actionRequest)) =>
    (handleActionRequest actionRequest clientState).map .awaitAction
  | some (.disconnect none) => .error .missingAckOrNack
  | some (.disconnect (some ackOrNack)) =>
    match ackOrNack.ackOrNack with
    | none => .error .missingAckOrNack
    | some answer =>
      match clientState with
      | .outstandingAction acker => .ok (.clientRequestedDisconnect (some (acker, answer)))
      | .noOutstandingAction => .ok (.clientRequestedDisconnect none)

/-- Where the stream task is: it reads the next request, awaits an action from the priority queue, sends one, or has
ended. -/
inductive Coordinator
  | receiving (clientState : ClientState)
  | awaiting
  | sending (action : Action)
  | ended

def Coordinator.ackers : Coordinator → List Nat
  | .receiving clientState => clientState.ackers
  | .awaiting => []
  | .sending action => [action.serial]
  | .ended => []

/-! ## The worker -/

/-- Where the worker is: before its initial request, waiting for an action, after it has yielded an action to the
sink, waiting until it may resume, or done with the stream. -/
inductive Worker
  | starting
  | waiting
  | yielded (action : Action)
  | paused (action : Action)
  | done

inductive Outgoing (ν : Type)
  | request (request : Message ν)
  | stopStreamingSignal

inductive Incoming
  | action (received : Action)
  | error

def Incoming.action? : Incoming → Option Action
  | .action received => some received
  | .error => none

/-! ## The stream -/

/-- Both sides and what is between them, with what has happened: how many actions were taken from the queue, which
the worker received, the answers it produced, the ackers that were resolved and those that were dropped, and whether
the worker has put a disconnect. `iterating` holds until the iterator meets the stop signal. -/
structure State (ν : Type) where
  worker : Worker := .starting
  shouldRun : Bool := true
  outgoing : List (Outgoing ν) := []
  iterating : Bool := true
  toCoordinator : List (Message ν) := []
  coordinator : Coordinator := .receiving .noOutstandingAction
  toWorker : List Incoming := []
  taken : Nat := 0
  received : List Nat := []
  produced : List (Nat × Answer ν) := []
  resolved : List (Nat × Answer ν) := []
  dropped : List Nat := []
  disconnected : Bool := false

namespace State

def start : State ν := {}

def sendAckOrNack (s : State ν) (action : Action) (answer : Answer ν) : State ν :=
  { s with
    outgoing := s.outgoing ++ [.request (some (.actionRequest (some (.ackOrNack ⟨action.ackId, some answer⟩))))]
    produced := s.produced ++ [(action.serial, answer)] }

def sendGracefulDisconnect (s : State ν) (action : Action) (answer : Answer ν) : State ν :=
  { s with
    outgoing := s.outgoing ++
      [.request (some (.disconnect (some ⟨action.ackId, some answer⟩))), .stopStreamingSignal]
    produced := s.produced ++ [(action.serial, answer)]
    disconnected := true }

/-- The last two checks of the loop of `_gen`: the uptime, else an ack. -/
def sendByUptime (s : State ν) (action : Action) (expired : Bool) (verdicts : Option ν) : State ν :=
  if expired then s.sendGracefulDisconnect action (.ack verdicts) else s.sendAckOrNack action (.ack verdicts)

def resolve (s : State ν) (resolved : Option (Nat × Answer ν)) : State ν :=
  { s with resolved := s.resolved ++ resolved.toList }

def endTask (s : State ν) : State ν :=
  { s with coordinator := .ended, dropped := s.dropped ++ s.coordinator.ackers }

def handleMessage (s : State ν) (clientState : ClientState) (request : Message ν) : State ν :=
  match handleRequest request clientState with
  | .error _ => s.endTask
  | .ok (.awaitAction resolved) => { s.resolve resolved with coordinator := .awaiting }
  | .ok (.clientRequestedDisconnect resolved) => { s.resolve resolved with coordinator := .ended }

end State

inductive Label (ν : Type)
  /-- The worker sends its initial request. -/
  | start
  /-- The worker takes what its stream gives next; an action may be undecodable. -/
  | receive (decoded : Bool)
  /-- The sink is done with the action. -/
  | finish (softShutdown shouldPause expired : Bool) (verdicts : Option ν)
  /-- The input stream may resume. -/
  | resume (expired : Bool) (verdicts : Option ν)
  /-- The worker's stream ends, or the worker is stopped. -/
  | abandon
  /-- The iterator reads the queue of outgoing requests. -/
  | transmit
  | loseRequest
  | loseAction
  /-- The task reads the next request. -/
  | request
  /-- The task's stream gives an error: a broken pipe, or one that it sends on, if the response is not dropped. -/
  | streamError (brokenPipe sent : Bool)
  | streamEnd
  /-- An action comes from the priority queue. -/
  | take (ackId : Nat)
  /-- An action comes whose acker nobody waits for: the queue drops it and goes on. -/
  | skip
  | timeout
  | send
  /-- The response was dropped. -/
  | sendFails

def State.step (s : State ν) : Label ν → State ν
  | .start =>
    match s.worker with
    | .starting =>
      { s with worker := .waiting, outgoing := s.outgoing ++ [.request (some (.actionRequest (some .initial)))] }
    | _ => s
  | .receive decoded =>
    match s.worker, s.toWorker with
    | .waiting, .action action :: toWorker =>
      let s := { s with toWorker := toWorker, received := s.received ++ [action.serial] }
      if decoded then { s with worker := .yielded action } else s.sendAckOrNack action .nack
    | .waiting, .error :: toWorker => { s with worker := .done, toWorker := toWorker }
    | _, _ => s
  | .finish softShutdown shouldPause expired verdicts =>
    match s.worker with
    | .yielded action =>
      if softShutdown then
        { s.sendGracefulDisconnect action (.ack verdicts) with worker := .waiting, shouldRun := false }
      else if shouldPause then { s.sendGracefulDisconnect action (.ack verdicts) with worker := .paused action }
      else { s.sendByUptime action expired verdicts with worker := .waiting }
    | _ => s
  | .resume expired verdicts =>
    match s.worker with
    | .paused action => { s.sendByUptime action expired verdicts with worker := .waiting }
    | _ => s
  | .abandon => { s with worker := .done }
  | .transmit =>
    if s.iterating then
      match s.outgoing with
      | [] => s
      | .request request :: outgoing => { s with outgoing := outgoing, toCoordinator := s.toCoordinator ++ [request] }
      | .stopStreamingSignal :: outgoing => { s with outgoing := outgoing, iterating := false }
    else s
  | .loseRequest => { s with toCoordinator := s.toCoordinator.tail }
  | .loseAction => { s with toWorker := s.toWorker.tail }
  | .request =>
    match s.coordinator, s.toCoordinator with
    | .receiving clientState, request :: toCoordinator =>
      { s with toCoordinator := toCoordinator }.handleMessage clientState request
    | _, _ => s
  | .streamError brokenPipe sent =>
    match s.coordinator with
    | .receiving _ =>
      if brokenPipe then s.endTask
      else if sent then { s with toWorker := s.toWorker ++ [.error] }
      else s.endTask
    | _ => s
  | .streamEnd =>
    match s.coordinator with
    | .receiving _ => s.endTask
    | _ => s
  | .take ackId =>
    match s.coordinator with
    | .awaiting => { s with coordinator := .sending ⟨s.taken, ackId⟩, taken := s.taken + 1 }
    | _ => s
  | .skip =>
    match s.coordinator with
    | .awaiting => { s with taken := s.taken + 1, dropped := s.dropped ++ [s.taken] }
    | _ => s
  | .timeout =>
    match s.coordinator with
    | .awaiting => s.endTask
    | _ => s
  | .send =>
    match s.coordinator with
    | .sending action =>
      { s with
        toWorker := s.toWorker ++ [.action action]
        coordinator := .receiving (.outstandingAction action.serial) }
    | _ => s
  | .sendFails =>
    match s.coordinator with
    | .sending _ => s.endTask
    | _ => s

/-! ## The token -/

/-- The requests that the iterator reads before a stop signal. -/
def beforeStop : List (Outgoing ν) → List (Message ν)
  | [] => []
  | .stopStreamingSignal :: _ => []
  | .request request :: outgoing => request :: beforeStop outgoing

def Outgoing.isStop : Outgoing ν → Bool
  | .stopStreamingSignal => true
  | .request _ => false

namespace State

def coming (s : State ν) : List (Message ν) := s.toCoordinator ++ if s.iterating then beforeStop s.outgoing else []

/-- What the worker puts now is never sent. -/
def stopped (s : State ν) : Bool := !s.iterating || s.outgoing.any Outgoing.isStop

def actions (s : State ν) : List Action := s.toWorker.filterMap Incoming.action?

end State

def Worker.idle : Worker → Prop
  | .starting => False
  | .yielded _ => False
  | _ => True

theorem Worker.idle_waiting : Worker.waiting.idle := trivial

theorem Worker.idle_paused (action : Action) : (Worker.paused action).idle := trivial

def Coordinator.holds (clientState : ClientState) (c : Coordinator) : Prop :=
  c = .ended ∨ c = .receiving clientState

inductive Answers : Message ν → Answer ν → Bool → Prop
  | ackOrNack (ackId : Nat) (answer : Answer ν) :
      Answers (some (.actionRequest (some (.ackOrNack ⟨ackId, some answer⟩)))) answer false
  | disconnect (ackId : Nat) (answer : Answer ν) (disconnected : Bool) :
      Answers (some (.disconnect (some ⟨ackId, some answer⟩))) answer disconnected

theorem Answers.cases {request} {answer : Answer ν} {disconnected} (h : Answers request answer disconnected) :
    (∃ ackId, disconnected = false ∧
      request = some (.actionRequest (some (.ackOrNack ⟨ackId, some answer⟩)))) ∨
    ∃ ackId, request = some (.disconnect (some ⟨ackId, some answer⟩)) := by
  cases h with
  | ackOrNack ackId => exact .inl ⟨ackId, rfl, rfl⟩
  | disconnect ackId => exact .inr ⟨ackId, rfl⟩

/-- Where the token is. The worker has put a disconnect only if that is what comes, or nothing does. -/
inductive Token : Worker → List (Message ν) → List Action → Bool → Coordinator → List (Nat × Answer ν) → Prop
  | starting {coordinator produced} : coordinator.holds .noOutstandingAction →
      Token .starting [] [] false coordinator produced
  | initial {worker coordinator produced} : worker.idle → coordinator.holds .noOutstandingAction →
      Token worker [some (.actionRequest (some .initial))] [] false coordinator produced
  | answered {worker request answer disconnected acker coordinator produced} : worker.idle →
      coordinator.holds (.outstandingAction acker) → Answers request answer disconnected →
      (acker, answer) ∈ produced → Token worker [request] [] disconnected coordinator produced
  | sent {worker action coordinator produced} : worker.idle →
      coordinator.holds (.outstandingAction action.serial) → Token worker [] [action] false coordinator produced
  | handling {action coordinator produced} : coordinator.holds (.outstandingAction action.serial) →
      Token (.yielded action) [] [] false coordinator produced
  | awaiting {worker produced} : worker.idle → Token worker [] [] false .awaiting produced
  | sending {worker action produced} : worker.idle → Token worker [] [] false (.sending action) produced
  | lost {worker disconnected coordinator produced} (clientState : ClientState) : worker.idle →
      coordinator.holds clientState → Token worker [] [] disconnected coordinator produced

def State.token (s : State ν) : Prop := Token s.worker s.coming s.actions s.disconnected s.coordinator s.produced

structure Inv (s : State ν) : Prop where
  token : s.token
  paused : ∀ action, s.worker = .paused action → s.stopped = true ∧ s.disconnected = true
  accounted : (List.range s.taken).Perm (s.resolved.map Prod.fst ++ s.dropped ++ s.coordinator.ackers)
  answers : ∀ e ∈ s.resolved, e ∈ s.produced

/-! ## What comes to the coordinator -/

theorem beforeStop_append (outgoing items : List (Outgoing ν)) : beforeStop (outgoing ++ items) =
    if outgoing.any Outgoing.isStop then beforeStop outgoing else beforeStop outgoing ++ beforeStop items := by
  induction outgoing with
  | nil => rfl
  | cons item outgoing ih =>
    cases item with
    | stopStreamingSignal => rfl
    | request request =>
      simp only [List.cons_append, beforeStop, ih, List.any_cons, Outgoing.isStop, Bool.false_or]
      split <;> rfl

variable {worker : Worker}

section

variable {s : State ν}

theorem State.coming_put (items : List (Outgoing ν)) (produced : List (Nat × Answer ν)) (disconnected : Bool)
    (worker : Worker) :
    ({ s with
      outgoing := s.outgoing ++ items, produced := produced, disconnected := disconnected,
      worker := worker } : State ν).coming =
      if s.stopped then s.coming else s.coming ++ beforeStop items := by
  rw [coming, coming, stopped, beforeStop_append]
  by_cases hiterating : s.iterating = true
  · by_cases hstop : s.outgoing.any Outgoing.isStop = true
    · simp only [hiterating, hstop, if_true, Bool.or_true]
    · simp only [hiterating, hstop, if_true, Bool.not_true, Bool.or_false, Bool.false_eq_true, if_false,
        List.append_assoc]
  · simp only [hiterating, Bool.false_eq_true, if_false, Bool.not_false, Bool.true_or, if_true]

/-! ## Moves of the token -/

variable {worker worker' : Worker} {coming : List (Message ν)} {actions : List Action} {disconnected : Bool}
  {coordinator : Coordinator} {produced produced' : List (Nat × Answer ν)}

section

variable (h : Token worker coming actions disconnected coordinator produced)

include h

theorem Token.produce (hsub : ∀ e ∈ produced, e ∈ produced') :
    Token worker coming actions disconnected coordinator produced' := by
  cases h with
  | answered hidle hholds hanswers hmem => exact .answered hidle hholds hanswers (hsub _ hmem)
  | _ => constructor <;> assumption

theorem Token.idle (hidle : worker.idle) (hidle' : worker'.idle) :
    Token worker' coming actions disconnected coordinator produced := by
  cases h with
  | starting | handling => exact hidle.elim
  | answered _ hholds hanswers hmem => exact .answered hidle' hholds hanswers hmem
  | _ => constructor <;> assumption

theorem Token.abandon : Token .done coming actions disconnected coordinator produced := by
  cases h with
  | starting hholds | handling hholds => exact .lost _ trivial hholds
  | initial hidle | sent hidle | awaiting hidle | sending hidle | lost _ hidle =>
    exact Token.idle (by constructor <;> assumption) hidle trivial
  | answered hidle hholds hanswers hmem => exact .answered trivial hholds hanswers hmem

theorem Token.ended : Token worker coming actions disconnected .ended produced := by
  cases h with
  | starting => exact .starting (.inl rfl)
  | initial hidle => exact .initial hidle (.inl rfl)
  | answered hidle _ hanswers hmem => exact .answered hidle (.inl rfl) hanswers hmem
  | sent hidle => exact .sent hidle (.inl rfl)
  | handling => exact .handling (.inl rfl)
  | awaiting hidle | sending hidle | lost _ hidle => exact .lost .noOutstandingAction hidle (.inl rfl)

theorem Token.loseRequest : Token worker coming.tail actions disconnected coordinator produced := by
  cases h with
  | initial hidle hholds | answered hidle hholds => exact .lost _ hidle hholds
  | _ => constructor <;> assumption

theorem Token.loseAction : Token worker coming actions.tail disconnected coordinator produced := by
  cases h with
  | sent hidle hholds => exact .lost _ hidle hholds
  | answered hidle hholds hanswers hmem => exact .answered hidle hholds hanswers hmem
  | _ => constructor <;> assumption

end

/-! ## Where the token is -/

variable {clientState : ClientState}

theorem not_holds_awaiting : ¬ Coordinator.awaiting.holds clientState := by
  rintro (h | h) <;> cases h

variable {action : Action}

theorem not_holds_sending : ¬ (Coordinator.sending action).holds clientState := by
  rintro (h | h) <;> cases h

theorem Token.starting_inv (h : Token worker coming actions disconnected coordinator produced)
    (hworker : worker = .starting) :
    coming = [] ∧ actions = [] ∧ disconnected = false ∧ coordinator.holds .noOutstandingAction := by
  subst hworker
  cases h with
  | starting hholds => exact ⟨rfl, rfl, rfl, hholds⟩
  | initial hidle | answered hidle | sent hidle | awaiting hidle | sending hidle | lost _ hidle => exact hidle.elim

theorem Token.yielded_inv (h : Token worker coming actions disconnected coordinator produced)
    (hworker : worker = .yielded action) :
    coming = [] ∧ actions = [] ∧ disconnected = false ∧ coordinator.holds (.outstandingAction action.serial) := by
  subst hworker
  cases h with
  | handling hholds => exact ⟨rfl, rfl, rfl, hholds⟩
  | initial hidle | answered hidle | sent hidle | awaiting hidle | sending hidle | lost _ hidle => exact hidle.elim

theorem Token.action_inv (h : Token worker coming (action :: actions) disconnected coordinator produced) :
    coming = [] ∧ actions = [] ∧ disconnected = false ∧ worker.idle ∧
      coordinator.holds (.outstandingAction action.serial) := by
  cases h with
  | sent hidle hholds => exact ⟨rfl, rfl, rfl, hidle, hholds⟩

theorem Token.request_inv {request}
    (h : Token worker (request :: coming) actions disconnected (.receiving clientState) produced) :
    coming = [] ∧ actions = [] ∧ worker.idle ∧
      (request = some (.actionRequest (some .initial)) ∧ disconnected = false ∧ clientState = .noOutstandingAction ∨
        ∃ acker answer, clientState = .outstandingAction acker ∧ Answers request answer disconnected ∧
          (acker, answer) ∈ produced) := by
  cases h with
  | initial hidle hholds =>
    refine ⟨rfl, rfl, hidle, .inl ⟨rfl, rfl, ?_⟩⟩
    rcases hholds with hholds | hholds <;> cases hholds
    rfl
  | answered hidle hholds hanswers hmem =>
    refine ⟨rfl, rfl, hidle, .inr ⟨_, _, ?_, hanswers, hmem⟩⟩
    rcases hholds with hholds | hholds <;> cases hholds
    rfl

theorem Token.task_inv (h : Token worker coming actions disconnected coordinator produced)
    (hcoordinator : ∀ clientState, ¬ coordinator.holds clientState) :
    coming = [] ∧ actions = [] ∧ disconnected = false ∧ worker.idle := by
  cases h with
  | awaiting hidle | sending hidle => exact ⟨rfl, rfl, rfl, hidle⟩
  | starting hholds | handling hholds | initial _ hholds | answered _ hholds | sent _ hholds | lost _ _ hholds =>
    exact absurd hholds (hcoordinator _)

/-! ## The worker's steps -/

theorem Token.reply {request answer acker} (hidle : worker.idle)
    (hholds : coordinator.holds (.outstandingAction acker)) (hanswers : Answers request answer disconnected)
    (hmem : (acker, answer) ∈ produced) (stopped : Bool) :
    Token worker (if stopped then [] else [request]) [] disconnected coordinator produced := by
  cases stopped with
  | true => exact .lost _ hidle hholds
  | false => exact .answered hidle hholds hanswers hmem

theorem Inv.put (h : Inv s) (items : List (Outgoing ν)) {shouldRun} (hsub : ∀ e ∈ s.produced, e ∈ produced)
    (hpaused : ∀ action, worker = .paused action → items.any Outgoing.isStop = true ∧ disconnected = true)
    (htoken : Token worker (if s.stopped then s.coming else s.coming ++ beforeStop items) s.actions disconnected
      s.coordinator produced) :
    Inv { s with
      outgoing := s.outgoing ++ items, produced := produced, disconnected := disconnected, worker := worker,
      shouldRun := shouldRun } := by
  refine ⟨?_, fun action haction => (hpaused action haction).imp_left fun hstop => ?_, h.accounted,
    fun e hmem => hsub e (h.answers e hmem)⟩
  · rw [← s.coming_put items produced disconnected worker] at htoken
    exact htoken
  · rw [State.stopped, List.any_append, hstop, Bool.or_true, Bool.or_true]

theorem Inv.initial (h : Inv s) (hworker : s.worker = .starting) :
    Inv { s with
      worker := .waiting, outgoing := s.outgoing ++ [.request (some (.actionRequest (some .initial)))] } := by
  obtain ⟨hcoming, hactions, hdisconnected, hholds⟩ := h.token.starting_inv hworker
  refine h.put _ (fun _ => id) (fun action hpaused => (by cases hpaused)) ?_
  rw [hcoming, hactions, hdisconnected]
  cases s.stopped with
  | true => exact .lost _ trivial hholds
  | false => exact .initial trivial hholds

section Answer

variable {action : Action} (hcoming : s.coming = []) (hactions : s.actions = [])
  (hholds : s.coordinator.holds (.outstandingAction action.serial)) (answer : Answer ν)

include hcoming hactions hholds

theorem Inv.sendAckOrNack (h : Inv s) (hdisconnected : s.disconnected = false) :
    Inv { s.sendAckOrNack action answer with worker := .waiting } := by
  rw [State.sendAckOrNack]
  refine h.put _ (fun _ => List.mem_append_left _) (fun action' hpaused => (by cases hpaused)) ?_
  rw [hcoming, hactions, hdisconnected]
  exact .reply Worker.idle_waiting hholds (.ackOrNack _ _) (by simp) _

theorem Inv.sendGracefulDisconnect (h : Inv s) (hidle : worker.idle) (shouldRun : Bool) :
    Inv { s.sendGracefulDisconnect action answer with worker := worker, shouldRun := shouldRun } := by
  rw [State.sendGracefulDisconnect]
  refine h.put _ (fun _ => List.mem_append_left _) (fun action' _ => ⟨rfl, rfl⟩) ?_
  rw [hcoming, hactions]
  exact .reply hidle hholds (.disconnect _ _ _) (by simp) _

end Answer

theorem Inv.resume (h : Inv s) (hworker : s.worker = .paused action) (expired : Bool) (verdicts : Option ν) :
    Inv { s.sendByUptime action expired verdicts with worker := .waiting } := by
  obtain ⟨hstopped, hdisconnected⟩ := h.paused action hworker
  have hput : ∀ (items : List (Outgoing ν)) {disconnected : Bool}, disconnected = s.disconnected → Inv { s with
      outgoing := s.outgoing ++ items
      produced := s.produced ++ [(action.serial, .ack verdicts)]
      disconnected := disconnected
      worker := .waiting } := by
    rintro items _ rfl
    refine h.put items (fun _ => List.mem_append_left _) (fun action' hpaused => (by cases hpaused)) ?_
    have htoken := h.token
    rw [State.token, hworker] at htoken
    rw [if_pos hstopped]
    exact (htoken.idle (Worker.idle_paused action) Worker.idle_waiting).produce fun _ => List.mem_append_left _
  rw [State.sendByUptime]
  split
  · exact hput _ hdisconnected.symm
  · exact hput _ rfl

section

variable {toWorker : List Incoming} (htoWorker : s.toWorker = .action action :: toWorker)

include htoWorker

theorem Inv.action_inv (h : Inv s) :
    s.coming = [] ∧ toWorker.filterMap Incoming.action? = [] ∧ s.disconnected = false ∧
      s.coordinator.holds (.outstandingAction action.serial) := by
  have htoken := h.token
  rw [State.token, State.actions, htoWorker] at htoken
  obtain ⟨hcoming, hnil, hdisconnected, -, hholds⟩ := htoken.action_inv
  exact ⟨hcoming, hnil, hdisconnected, hholds⟩

theorem Inv.receive (h : Inv s) :
    Inv { s with toWorker := toWorker, received := s.received ++ [action.serial], worker := .yielded action } := by
  obtain ⟨hcoming, hnil, hdisconnected, hholds⟩ := h.action_inv htoWorker
  refine ⟨?_, fun action' hpaused => (by cases hpaused), h.accounted, h.answers⟩
  change Token (.yielded action) s.coming (toWorker.filterMap Incoming.action?) s.disconnected s.coordinator s.produced
  rw [hcoming, hnil, hdisconnected]
  exact .handling hholds

theorem Inv.refuse (h : Inv s) (hworker : s.worker = .waiting) :
    Inv (State.sendAckOrNack { s with toWorker := toWorker, received := s.received ++ [action.serial] } action .nack) := by
  obtain ⟨hcoming, hnil, hdisconnected, hholds⟩ := h.action_inv htoWorker
  have htoken := h.token.loseAction
  rw [State.actions, htoWorker] at htoken
  have hsend := Inv.sendAckOrNack (s := { s with toWorker := toWorker, received := s.received ++ [action.serial] })
    hcoming hnil hholds .nack ⟨htoken, h.paused, h.accounted, h.answers⟩ hdisconnected
  rw [← hworker] at hsend
  exact hsend

end

/-! ## The network -/

theorem Inv.transmit (h : Inv s) {toCoordinator : List (Message ν)} {outgoing : List (Outgoing ν)} {iterating : Bool}
    (hcoming : toCoordinator ++ (if iterating then beforeStop outgoing else []) = s.coming)
    (hstopped : s.stopped = true → (!iterating || outgoing.any Outgoing.isStop) = true) :
    Inv { s with toCoordinator := toCoordinator, outgoing := outgoing, iterating := iterating } := by
  refine ⟨?_, fun action hpaused => ?_, h.accounted, h.answers⟩
  · rw [State.token, State.coming, hcoming]
    exact h.token
  · exact (h.paused action hpaused).imp_left hstopped

theorem Inv.loseRequest (h : Inv s) : Inv { s with toCoordinator := s.toCoordinator.tail } := by
  refine ⟨?_, h.paused, h.accounted, h.answers⟩
  cases htoCoordinator : s.toCoordinator with
  | nil => simpa [State.token, State.coming, State.actions, htoCoordinator] using h.token
  | cons => simpa [State.token, State.coming, State.actions, htoCoordinator] using h.token.loseRequest

theorem Inv.loseAction (h : Inv s) : Inv { s with toWorker := s.toWorker.tail } := by
  refine ⟨?_, h.paused, h.accounted, h.answers⟩
  rcases htoWorker : s.toWorker with _ | ⟨action | _, toWorker⟩
  · simpa [State.token, State.coming, State.actions, htoWorker] using h.token
  · simpa [State.token, State.coming, State.actions, htoWorker, Incoming.action?] using h.token.loseAction
  · simpa [State.token, State.coming, State.actions, htoWorker, List.filterMap_cons, Incoming.action?] using h.token

/-! ## The task's steps -/

theorem Inv.endTask (h : Inv s) : Inv s.endTask := by
  refine ⟨h.token.ended, h.paused, ?_, h.answers⟩
  change (List.range s.taken).Perm (s.resolved.map Prod.fst ++ (s.dropped ++ s.coordinator.ackers) ++ [])
  rw [List.append_nil, ← List.append_assoc]
  exact h.accounted

theorem Inv.request (h : Inv s) {request} {toCoordinator : List (Message ν)}
    (hcoordinator : s.coordinator = .receiving clientState)
    (htoCoordinator : s.toCoordinator = request :: toCoordinator) :
    Inv (State.handleMessage { s with toCoordinator := toCoordinator } clientState request) := by
  set coming := toCoordinator ++ if s.iterating then beforeStop s.outgoing else [] with hrest
  have hcoming : s.coming = request :: coming := by
    rw [State.coming, htoCoordinator, List.cons_append]
  have htoken := h.token
  have haccounted := h.accounted
  rw [State.token, hcoming, hcoordinator] at htoken
  rw [hcoordinator] at haccounted
  obtain ⟨hnil, hactions, hidle, hcase⟩ := htoken.request_inv
  have hawaiting : s.disconnected = false → Token s.worker coming s.actions s.disconnected .awaiting s.produced := by
    intro hdisconnected
    rw [hnil, hactions, hdisconnected]
    exact .awaiting hidle
  rcases hcase with ⟨rfl, hdisconnected, rfl⟩ | ⟨acker, answer, rfl, hanswers, hmem⟩
  · -- The initial request: no acker to resolve.
    refine ⟨hawaiting hdisconnected, h.paused, ?_, ?_⟩
    · change (List.range s.taken).Perm ((s.resolved ++ []).map Prod.fst ++ s.dropped ++ [])
      rw [List.append_nil s.resolved]
      exact haccounted
    · change ∀ e ∈ s.resolved ++ [], e ∈ s.produced
      rw [List.append_nil]
      exact h.answers
  · have hperm : (List.range s.taken).Perm ((s.resolved ++ [(acker, answer)]).map Prod.fst ++ s.dropped ++ []) := by
      refine haccounted.trans ?_
      change (s.resolved.map Prod.fst ++ s.dropped ++ [acker]).Perm _
      rw [List.append_nil, List.map_append, List.append_assoc, List.append_assoc]
      exact List.perm_append_comm.append_left _
    have hresolved : ∀ e ∈ s.resolved ++ [(acker, answer)], e ∈ s.produced := by
      simpa [or_imp, forall_and, hmem] using h.answers
    rcases hanswers.cases with ⟨ackId, hdisconnected, rfl⟩ | ⟨ackId, rfl⟩
    · exact ⟨hawaiting hdisconnected, h.paused, hperm, hresolved⟩
    · refine ⟨?_, h.paused, hperm, hresolved⟩
      change Token s.worker coming s.actions s.disconnected .ended s.produced
      rw [hnil, hactions]
      exact .lost .noOutstandingAction hidle (.inl rfl)

theorem Inv.take (h : Inv s) (hcoordinator : s.coordinator = .awaiting) (ackId : Nat) :
    Inv { s with coordinator := .sending ⟨s.taken, ackId⟩, taken := s.taken + 1 } := by
  obtain ⟨hcoming, hactions, hdisconnected, hidle⟩ := h.token.task_inv fun _ => hcoordinator ▸ not_holds_awaiting
  have haccounted := h.accounted
  rw [hcoordinator] at haccounted
  refine ⟨?_, h.paused, ?_, h.answers⟩
  · change Token s.worker s.coming s.actions s.disconnected (.sending _) s.produced
    rw [hcoming, hactions, hdisconnected]
    exact .sending hidle
  · change (List.range (s.taken + 1)).Perm (s.resolved.map Prod.fst ++ s.dropped ++ [s.taken])
    rw [List.range_succ]
    exact (haccounted.trans (List.Perm.of_eq (List.append_nil _))).append_right _

theorem Inv.skip (h : Inv s) (hcoordinator : s.coordinator = .awaiting) :
    Inv { s with taken := s.taken + 1, dropped := s.dropped ++ [s.taken] } := by
  have haccounted := h.accounted
  rw [hcoordinator] at haccounted
  refine ⟨h.token, h.paused, ?_, h.answers⟩
  change (List.range (s.taken + 1)).Perm (s.resolved.map Prod.fst ++
    (s.dropped ++ [s.taken]) ++ s.coordinator.ackers)
  rw [List.range_succ, hcoordinator, ← List.append_assoc]
  exact ((haccounted.trans (List.Perm.of_eq (List.append_nil _))).append_right _).trans
    (List.Perm.of_eq (List.append_nil _).symm)

theorem Inv.send (h : Inv s) (hcoordinator : s.coordinator = .sending action) :
    Inv { s with
      toWorker := s.toWorker ++ [.action action], coordinator := .receiving (.outstandingAction action.serial) } := by
  obtain ⟨hcoming, hactions, hdisconnected, hidle⟩ := h.token.task_inv fun _ => hcoordinator ▸ not_holds_sending
  have haccounted := h.accounted
  rw [hcoordinator] at haccounted
  refine ⟨?_, h.paused, haccounted, h.answers⟩
  have hactions' : (s.toWorker ++ [Incoming.action action]).filterMap Incoming.action? = [action] := by
    rw [List.filterMap_append]
    change s.actions ++ _ = _
    rw [hactions]
    rfl
  change Token s.worker s.coming ((s.toWorker ++ [Incoming.action action]).filterMap Incoming.action?) s.disconnected
    (.receiving (.outstandingAction action.serial)) s.produced
  rw [hcoming, hactions', hdisconnected]
  exact .sent hidle (.inr rfl)

theorem Inv.step (h : Inv s) (label : Label ν) : Inv (s.step label) := by
  fun_cases State.step s label with
  | case1 hworker => exact h.initial hworker
  | case3 action toWorker htoWorker => exact h.receive htoWorker
  | case4 decoded action toWorker htoWorker hworker => exact h.refuse htoWorker hworker
  | case5 decoded toWorker htoWorker =>
    refine ⟨?_, fun action hpaused => (by cases hpaused), h.accounted, h.answers⟩
    simpa [State.token, State.coming, State.actions, htoWorker, List.filterMap_cons, Incoming.action?] using
      h.token.abandon
  | case7 shouldPause expired verdicts action hworker =>
    obtain ⟨hcoming, hactions, -, hholds⟩ := h.token.yielded_inv hworker
    exact h.sendGracefulDisconnect hcoming hactions hholds _ Worker.idle_waiting false
  | case8 softShutdown expired verdicts action hworker =>
    obtain ⟨hcoming, hactions, -, hholds⟩ := h.token.yielded_inv hworker
    exact h.sendGracefulDisconnect hcoming hactions hholds _ (Worker.idle_paused action) s.shouldRun
  | case9 softShutdown shouldPause expired verdicts action hworker =>
    obtain ⟨hcoming, hactions, hdisconnected, hholds⟩ := h.token.yielded_inv hworker
    cases expired with
    | true => exact h.sendGracefulDisconnect hcoming hactions hholds _ Worker.idle_waiting s.shouldRun
    | false => exact h.sendAckOrNack hcoming hactions hholds _ hdisconnected
  | case11 expired verdicts action hworker => exact h.resume hworker expired verdicts
  | case13 => exact ⟨h.token.abandon, fun action hpaused => (by cases hpaused), h.accounted, h.answers⟩
  | case15 hiterating request outgoing houtgoing =>
    exact h.transmit (by simp [State.coming, hiterating, houtgoing, beforeStop])
      (by simp [State.stopped, houtgoing, Outgoing.isStop])
  | case16 hiterating outgoing houtgoing =>
    exact h.transmit (by simp [State.coming, hiterating, houtgoing, beforeStop]) (by simp)
  | case18 => exact h.loseRequest
  | case19 => exact h.loseAction
  | case20 clientState request toCoordinator htoCoordinator hcoordinator => exact h.request hcoordinator htoCoordinator
  | case23 =>
    refine ⟨?_, h.paused, h.accounted, h.answers⟩
    simpa [State.token, State.coming, State.actions, List.filterMap_cons, Incoming.action?] using h.token
  | case28 ackId hcoordinator => exact h.take hcoordinator ackId
  | case30 hcoordinator => exact h.skip hcoordinator
  | case34 action hcoordinator => exact h.send hcoordinator
  | case22 | case24 | case26 | case32 | case36 => exact h.endTask
  | _ => exact h

theorem Inv.start : Inv (State.start : State ν) :=
  ⟨.starting (.inr rfl), fun _ hpaused => (by cases hpaused), .nil, fun _ hmem => (by cases hmem)⟩

theorem Inv.run (h : Inv s) (labels : List (Label ν)) : Inv (labels.foldl State.step s) :=
  List.foldlRecOn labels _ h fun _ h label _ => h.step label

/-! ## After a disconnect -/

/-- Once the worker has put a disconnect, nothing is on its way to it, and the task takes nothing. -/
theorem Token.disconnected_inv (h : Token worker coming actions true coordinator produced) :
    actions = [] ∧ coordinator ≠ .awaiting ∧ ∀ action, worker ≠ .yielded action := by
  cases h with
  | answered hidle hholds | lost _ hidle hholds =>
    refine ⟨rfl, fun heq => not_holds_awaiting (heq ▸ hholds), ?_⟩
    rintro action rfl
    exact hidle

theorem Inv.step_disconnected (h : Inv s) (hdisconnected : s.disconnected = true) (label : Label ν) :
    (s.step label).disconnected = true ∧ (s.step label).taken = s.taken ∧ (s.step label).received = s.received := by
  have htoken := h.token
  rw [State.token, hdisconnected] at htoken
  obtain ⟨hactions, hawaiting, hyielded⟩ := htoken.disconnected_inv
  have hkeep : s.disconnected = true ∧ s.taken = s.taken ∧ s.received = s.received := ⟨hdisconnected, rfl, rfl⟩
  fun_cases State.step s label with
  | case3 action toWorker htoWorker | case4 _ action toWorker htoWorker =>
    rw [State.actions, htoWorker] at hactions
    cases hactions
  | case7 _ _ _ action hworker | case8 _ _ _ action hworker | case9 _ _ _ _ action hworker =>
    exact absurd hworker (hyielded action)
  | case11 expired =>
    cases expired with
    | true => exact ⟨rfl, rfl, rfl⟩
    | false => exact hkeep
  | case20 =>
    rw [State.handleMessage]
    split <;> exact hkeep
  | case28 _ hcoordinator | case30 hcoordinator => exact absurd hcoordinator hawaiting
  | _ => exact hkeep

theorem Inv.run_disconnected (h : Inv s) (hdisconnected : s.disconnected = true) (labels : List (Label ν)) :
    (labels.foldl State.step s).taken = s.taken ∧ (labels.foldl State.step s).received = s.received := by
  induction labels generalizing s with
  | nil => exact ⟨rfl, rfl⟩
  | cons label labels ih =>
    obtain ⟨hdisconnected', htaken, hreceived⟩ := h.step_disconnected hdisconnected label
    obtain ⟨htaken', hreceived'⟩ := ih (h.step label) hdisconnected'
    exact ⟨htaken'.trans htaken, hreceived'.trans hreceived⟩

end

/-! ## The result -/

def Worker.inHand : Worker → List Action
  | .yielded action => [action]
  | _ => []

/-- The actions in the worker's hands or on their way to it. -/
def State.withWorker (s : State ν) : List Action := s.actions ++ s.worker.inHand

theorem length_ackers_le (c : Coordinator) : c.ackers.length ≤ 1 := by
  rcases c with (_ | _) | _ | _ | _ <;> simp [Coordinator.ackers, ClientState.ackers]

theorem Worker.inHand_of_idle (h : worker.idle) : worker.inHand = [] := by
  cases worker with
  | yielded action => exact h.elim
  | _ => rfl

theorem Token.length_withWorker {coming actions disconnected coordinator} {produced : List (Nat × Answer ν)}
    (h : Token worker coming actions disconnected coordinator produced) :
    (actions ++ worker.inHand).length ≤ 1 := by
  cases h with
  | starting | handling => simp [Worker.inHand]
  | initial hidle | answered hidle | sent hidle | awaiting hidle | sending hidle | lost _ hidle =>
    simp [Worker.inHand_of_idle hidle]

/-- **Worker and coordinator stay in lock-step.** After every sequence of steps of the two sides and the network
between them: every action taken from the queue is resolved, or its acker was dropped, or it is the one that the
task holds, each action once, and when the task has ended it holds none; at most one action is with the worker or
on its way there; each resolved acker got an answer that the worker had produced for that action; and once the
worker has put a disconnect, no further action is taken from the queue, and none reaches the worker. -/
theorem stream_in_lock_step (labels : List (Label ν)) :
    let s := labels.foldl State.step (State.start : State ν)
    (List.range s.taken).Perm (s.resolved.map Prod.fst ++ s.dropped ++ s.coordinator.ackers) ∧
    s.coordinator.ackers.length ≤ 1 ∧ (s.coordinator = .ended → s.coordinator.ackers = []) ∧
    s.withWorker.length ≤ 1 ∧
    (s.resolved.map Prod.fst).Nodup ∧ (∀ e ∈ s.resolved, e ∈ s.produced) ∧
    (s.disconnected = true → ∀ more : List (Label ν),
      (more.foldl State.step s).taken = s.taken ∧ (more.foldl State.step s).received = s.received) := by
  intro s
  have h : Inv s := Inv.start.run labels
  have hnodup := h.accounted.nodup_iff.1 List.nodup_range
  rw [List.append_assoc] at hnodup
  refine ⟨h.accounted, length_ackers_le _, fun hended => by rw [hended]; rfl, Token.length_withWorker h.token,
    (List.nodup_append.1 hnodup).1, h.answers, fun hdisconnected more => h.run_disconnected hdisconnected more⟩

end Osprey.BidirectionalStream
