/-
The graceful stop of the streaming pull manager: after it nothing is handed
to the handler, every received message is settled by just one request, and
the loop ends.

That it ends is shown for fair runs: the loop gets its turns, time goes on,
the guards send their verdicts at some time, and the background requests
end. The way there has five stages, each by one rule of liveness. The
request is read; the handler's messages are settled; the verdicts are read;
the chunks are flushed; the requests end and are joined.
-/
import Mathlib.Data.Prod.Lex
import Osprey.Lib.Fairness
import Osprey.Coordinator.MainLoop

namespace Osprey.StreamingPull.MainLoop

open Lib (Dict states LeadsTo Stable leadsTo_of_rank leadsTo_empty)

variable {α : Type} {s : State α}

/-! ## Steps after the stop -/

theorem lt_nextTick {deadline now} (h : deadline ≤ now) : now < State.nextTick deadline now := by
  rw [State.nextTick]
  split <;> omega

def State.due (s : State α) : Nat := (if s.nextReport ≤ s.now then 1 else 0) + if s.nextRenewal ≤ s.now then 1 else 0

theorem State.due_report (h : s.nextReport ≤ s.now) :
    ({ s with nextReport := nextTick s.nextReport s.now } : State α).due < s.due := by
  simp only [due]
  rw [if_neg (Nat.not_le_of_lt (lt_nextTick h)), if_pos h]
  omega

theorem State.due_renewal (h : s.nextRenewal ≤ s.now) :
    ({ s with nextRenewal := nextTick s.nextRenewal s.now } : State α).due < s.due := by
  simp only [due]
  rw [if_neg (Nat.not_le_of_lt (lt_nextTick h)), if_pos h]
  omega

theorem Inv.handle_renewLeases (h : Inv s) (config : Config) (turns : List State.RenewalTurn) :
    ∃ q requests running spawned, s.handle config turns .renewLeases =
      ({ s with nextRenewal := State.nextTick s.nextRenewal s.now } : State α).sent q requests running spawned := by
  obtain ⟨q, requests, running, spawned, heq, -⟩ := State.handleRenewLeases_eq config turns
    (s := { s with nextRenewal := State.nextTick s.nextRenewal s.now }) h.accounts.wellFormed
  exact ⟨q, requests, running, spawned, heq⟩

theorem handle_flushChunk (s : State α) (config : Config) (turns : List State.RenewalTurn) (chunk : List (AckOrNack α))
    (q : MessageAckQueue α) :
    ∃ requests running spawned, s.handle config turns (.flushChunk chunk q) = s.sent q requests running spawned := by
  obtain ⟨requests, running, spawned, heq, -⟩ := State.flushAckOrNackChunk_eq
    { s with manager := { s.manager with messageAckQueue := q } } chunk
  exact ⟨requests, running, spawned, heq⟩

theorem handle_gracefulStop_of_stopping (h : s.stopping = true) (config : Config) (turns : List State.RenewalTurn)
    (receiver : List ManagerMessage) :
    s.handle config turns (.managerMessage .gracefulStop receiver) = { s with receiver } := if_pos h

theorem Inv.handed_ackOrNack (h : Inv s) (hstop : s.stopping = true) {verdict receiver}
    (hreceiver : s.receiver = .ackOrNack verdict :: receiver) :
    (s.manager.handleAckOrNack s.now verdict).handed = s.manager.handed := by
  have hunread : verdict.ackId ∈ s.unread := by
    rw [State.unread, hreceiver]
    exact List.mem_cons_self
  obtain ⟨-, -, -, -, -, -, -, hhanded, hempty⟩ := h.accounts.finish s.now (h.unread_in_flight hunread)
  rw [Manager.handleAckOrNack, flushReady_of_empty (hempty (h.stopped hstop).1), hhanded]

theorem Inv.not_requestStop {P : Prop} (h : Inv s)
    (hstop : ManagerMessage.gracefulStop ∈ s.receiver ∨ s.stopping = true)
    (hrequested : s.stopRequested = false) : P := by
  rw [h.requested.2 hstop] at hrequested
  cases hrequested

theorem Inv.not_channelEvent {P : Prop} {event channel} (h : Inv s)
    (hstop : s.stopping = true) (hready : s.Ready (.channelEvent event channel)) : P := by
  have hchannel := hready.2
  rw [(h.stopped hstop).2] at hchannel
  cases hchannel

section

variable {config : Config} {label : Label α} {s' : State α}

/-- **After the stop.** No step hands on a message or takes back a verdict. -/
theorem Inv.step_stopping (h : Inv s) (hstop : s.stopping = true) (hstep : Step config s label s') :
    s'.stopping = true ∧ s'.manager.handed = s.manager.handed ∧ ∀ verdict ∈ s.settled, verdict ∈ s'.settled := by
  cases hstep with
  | settle _ =>
    refine ⟨hstop, rfl, fun verdict' hmem => ?_⟩
    rw [State.settled, List.filterMap_append, ← List.append_assoc]
    exact List.mem_append_left _ hmem
  | requestStop hrequested => exact h.not_requestStop (.inr hstop) hrequested
  | arrive _ | complete _ | pass _ _ | exit _ _ | stay _ _ => exact ⟨hstop, rfl, fun _ hmem => hmem⟩
  | turn turns branch _ _ hselect =>
    have hready := s.select_spec.1 branch hselect
    cases branch with
    | reportMetrics | joinNext => exact ⟨hstop, rfl, fun _ hmem => hmem⟩
    | renewLeases =>
      obtain ⟨q, requests, running, spawned, heq⟩ := h.handle_renewLeases config turns
      rw [heq]
      exact ⟨hstop, rfl, fun _ hmem => hmem⟩
    | managerMessage message receiver =>
      cases message with
      | ackOrNack verdict =>
        refine ⟨hstop, h.handed_ackOrNack hstop hready, fun verdict' hmem => ?_⟩
        rw [State.settled, hready] at hmem
        change verdict' ∈ s.handled ++ [verdict] ++ receiver.filterMap ManagerMessage.verdict?
        simpa [ManagerMessage.verdict?] using hmem
      | gracefulStop =>
        rw [handle_gracefulStop_of_stopping hstop]
        refine ⟨hstop, rfl, fun verdict' hmem => ?_⟩
        rw [State.settled, hready] at hmem
        exact hmem
    | flushChunk chunk q =>
      obtain ⟨requests, running, spawned, heq⟩ := handle_flushChunk s config turns chunk q
      rw [heq]
      exact ⟨hstop, rfl, fun _ hmem => hmem⟩
    | channelEvent event channel => exact h.not_channelEvent hstop hready

theorem Inv.outstanding_step (h : Inv s) (hstop : s.stopping = true) (hstep : Step config s label s') :
    ∀ ackId ∈ s'.outstanding, ackId ∈ s.outstanding := by
  obtain ⟨-, hhanded, hsettled⟩ := h.step_stopping hstop hstep
  intro ackId hmem
  rw [State.outstanding, hhanded, List.mem_filter, decide_eq_true_eq] at hmem
  rw [State.outstanding, List.mem_filter, decide_eq_true_eq]
  refine ⟨hmem.1, fun hmem' => hmem.2 ?_⟩
  obtain ⟨verdict, hverdict, rfl⟩ := List.mem_map.1 hmem'
  exact List.mem_map_of_mem (hsettled verdict hverdict)

theorem Inv.run_stopping (h : Inv s) (hstop : s.stopping = true) (config : Config) (labels : List (Label α)) :
    (labels.foldl (State.step config) s).manager.handed = s.manager.handed := by
  induction labels generalizing s with
  | nil => rfl
  | cons label labels ih =>
    have hstep := s.steps config label
    obtain ⟨hstop', hhanded, -⟩ := h.step_stopping hstop hstep
    exact (ih (h.step hstep) hstop').trans hhanded

/-! ## The request is read -/

/-- The verdicts before the request, and the ticks that are due. -/
def State.beforeStop (s : State α) : Nat := s.receiver.idxOf .gracefulStop + s.due

theorem Inv.toward_stop (h : Inv s) (hmem : ManagerMessage.gracefulStop ∈ s.receiver) (hstop : s.stopping = false)
    (hstep : Step config s label s') :
    s'.stopping = true ∨ (ManagerMessage.gracefulStop ∈ s'.receiver ∧ s'.stopping = false) ∧
      (s'.beforeStop < s.beforeStop ∨ s'.beforeStop = s.beforeStop ∧ ¬ recurs true label) := by
  have hbusy : s.select ≠ none := fun hnone => List.ne_nil_of_mem hmem (s.select_spec.2 hnone).receiver
  have hgo : s.shouldStop ≠ true := by simp [State.shouldStop, hstop]
  cases hstep with
  | settle _ =>
    refine .inr ⟨⟨List.mem_append_left _ hmem, hstop⟩, .inr ⟨?_, fun hrec => hrec⟩⟩
    change (s.receiver ++ [_]).idxOf _ + _ = _
    rw [List.idxOf_append_of_mem hmem]
    rfl
  | requestStop hrequested => exact h.not_requestStop (.inl hmem) hrequested
  | arrive _ | complete _ => exact .inr ⟨⟨hmem, hstop⟩, .inr ⟨rfl, fun hrec => hrec⟩⟩
  | pass _ hnone => exact absurd hnone hbusy
  | exit _ hshould => exact absurd hshould hgo
  | stay _ hiterate =>
    refine .inr ⟨⟨hmem, hstop⟩, .inr ⟨rfl, fun hrec => ?_⟩⟩
    exact (hiterate hrec).elim (fun hexit => hgo (h.exited hexit)) fun hidle => hbusy hidle.2
  | turn turns branch _ _ hselect =>
    have hready := s.select_spec.1 branch hselect
    cases branch with
    | reportMetrics => exact .inr ⟨⟨hmem, hstop⟩, .inl (Nat.add_lt_add_left (State.due_report hready) _)⟩
    | renewLeases =>
      obtain ⟨q, requests, running, spawned, heq⟩ := h.handle_renewLeases config turns
      rw [heq]
      exact .inr ⟨⟨hmem, hstop⟩, .inl (Nat.add_lt_add_left (State.due_renewal hready) _)⟩
    | managerMessage message receiver =>
      rw [show s.receiver = message :: receiver from hready] at hmem
      cases message with
      | ackOrNack verdict =>
        have hmem' : ManagerMessage.gracefulStop ∈ receiver := by simpa using hmem
        refine .inr ⟨⟨hmem', hstop⟩, .inl ?_⟩
        change receiver.idxOf _ + s.due < s.receiver.idxOf _ + s.due
        rw [hready, List.idxOf_cons_ne _ (fun heq => (by cases heq))]
        omega
      | gracefulStop =>
        refine .inl ?_
        rw [State.handle, State.handleGracefulStop]
        split
        · next hstop' => exact hstop'
        · rfl
    | flushChunk _ _ | channelEvent _ _ | joinNext => exact absurd hready.1 (List.ne_nil_of_mem hmem)

/-! ## The verdicts are read -/

def State.beforeRead (s : State α) : Nat := s.receiver.length + s.due

theorem Inv.toward_read (h : Inv s) (hstop : s.stopping = true) (hout : s.outstanding = [])
    (hstep : Step config s label s') :
    s'.exited = true ∨ s'.receiver = [] ∨ s'.beforeRead < s.beforeRead ∨
      s'.beforeRead = s.beforeRead ∧ ¬ recurs true label := by
  cases hstep with
  | settle hmem =>
    rw [hout] at hmem
    cases hmem
  | requestStop hrequested => exact h.not_requestStop (.inr hstop) hrequested
  | arrive _ | complete _ => exact .inr (.inr (.inr ⟨rfl, fun hrec => hrec⟩))
  -- Time passes only when there is nothing to be read.
  | pass _ hnone => exact .inr (.inl (s.select_spec.2 hnone).receiver)
  | exit _ _ => exact .inl rfl
  | stay _ hiterate =>
    by_cases hrec : recurs true label
    · exact (hiterate hrec).imp id fun hidle => .inl (s.select_spec.2 hidle.2).receiver
    · exact .inr (.inr (.inr ⟨rfl, hrec⟩))
  | turn turns branch _ _ hselect =>
    have hready := s.select_spec.1 branch hselect
    cases branch with
    | reportMetrics => exact .inr (.inr (.inl (Nat.add_lt_add_left (State.due_report hready) _)))
    | renewLeases =>
      obtain ⟨q, requests, running, spawned, heq⟩ := h.handle_renewLeases config turns
      rw [heq]
      exact .inr (.inr (.inl (Nat.add_lt_add_left (State.due_renewal hready) _)))
    | managerMessage message receiver =>
      refine .inr (.inr (.inl ?_))
      have hlength : receiver.length + s.due < s.beforeRead := by
        rw [State.beforeRead, show s.receiver = message :: receiver from hready, List.length_cons]
        omega
      cases message with
      | ackOrNack verdict => exact hlength
      | gracefulStop =>
        rw [handle_gracefulStop_of_stopping hstop]
        exact hlength
    | flushChunk chunk q =>
      obtain ⟨requests, running, spawned, heq⟩ := handle_flushChunk s config turns chunk q
      rw [heq]
      exact .inr (.inl hready.1)
    | channelEvent event channel => exact h.not_channelEvent hstop hready
    | joinNext => exact .inr (.inl hready.1)

/-! ## The chunks are flushed -/

structure State.Quiet (s : State α) : Prop where
  stopping : s.stopping = true
  outstanding : s.outstanding = []
  receiver : s.receiver = []

theorem Inv.in_flight_empty (h : Inv s) (hquiet : s.Quiet) : s.manager.messagesInFlight.messagesInFlight.keys = [] := by
  refine List.eq_nil_iff_forall_not_mem.2 fun ackId hmem => ?_
  have hunread : s.unread = [] := by rw [State.unread, hquiet.receiver]; rfl
  have hout := h.mem_outstanding.2 ⟨hmem, by rw [hunread]; exact List.not_mem_nil⟩
  rw [hquiet.outstanding] at hout
  cases hout

theorem Inv.no_timers (h : Inv s) (hquiet : s.Quiet) (key : Nat) :
    s.manager.messageAckQueue.leaseRenewalDelayQueue.get? key = none := by
  have hmapped := h.accounts.mapped
  rw [h.in_flight_empty hquiet, (h.stopped hquiet.stopping).1] at hmapped
  by_contra hsome
  obtain ⟨timer, htimer⟩ := Option.ne_none_iff_exists'.1 hsome
  obtain ⟨item, hitem, -⟩ := h.accounts.wellFormed.mapped key timer htimer
  have hmem := hmapped.mem_iff.1 (Dict.mem_keys.2 ⟨item, hitem⟩)
  cases hmem

theorem collect_of_no_timers {q : MessageAckQueue α} (h : ∀ key, q.leaseRenewalDelayQueue.get? key = none)
    (slab : Slab) (now maxDelay room : Nat) (polls : List MessageAckQueue.Poll) :
    q.collectAckIdsThatNeedToBeRenewed slab now maxDelay room polls = ([], q) := by
  cases room with
  | zero => cases polls <;> rfl
  | succ room =>
    cases polls with
    | nil => rfl
    | cons poll polls => rw [MessageAckQueue.collectAckIdsThatNeedToBeRenewed, h poll.key]

theorem handleRenewLeases_of_no_timers (h : ∀ key, s.manager.messageAckQueue.leaseRenewalDelayQueue.get? key = none)
    (config : Config) (turns : List State.RenewalTurn) : s.handleRenewLeases config turns = s := by
  cases turns with
  | nil => rfl
  | cons turn turns => simp [State.handleRenewLeases, collect_of_no_timers h]

inductive QuietStep (s : State α) (label : Label α) : State α → Prop
  | exit {s' : State α} (h : s'.exited = true) : QuietStep s label s'
  | stay (hpass : recurs false label → s.select ≠ none)
    (hiterate : recurs true label → s.exited = true ∨ s.shouldStop = false ∧ s.select = none) : QuietStep s label s
  | complete {task : Nat} (h : task ∈ s.running) :
    QuietStep s label { s with running := s.running.erase task, joinable := s.joinable + 1 }
  | pass (duration : Nat) (hidle : s.select = none) (hpass : recurs false label → 1 ≤ duration)
    (hiterate : ¬ recurs true label) : QuietStep s label { s with now := s.now + duration }
  | report (hdue : s.nextReport ≤ s.now) :
    QuietStep s label { s with nextReport := State.nextTick s.nextReport s.now }
  | renew (hdue : s.nextRenewal ≤ s.now) :
    QuietStep s label { s with nextRenewal := State.nextTick s.nextRenewal s.now }
  | flush {chunk : List (AckOrNack α)} {q : MessageAckQueue α} (requests : List (Request α)) (running : List Nat)
    (spawned : Nat) (hchunk : s.manager.messageAckQueue.nextChunk s.now = (some chunk, q)) :
    QuietStep s label (s.sent q requests running spawned)
  | join (h : s.joinable ≠ 0) : QuietStep s label { s with joinable := s.joinable - 1 }

theorem Inv.quiet_cases (h : Inv s) (hquiet : s.Quiet) (hstep : Step config s label s') : QuietStep s label s' := by
  cases hstep with
  | settle hmem =>
    rw [hquiet.outstanding] at hmem
    cases hmem
  | requestStop hrequested => exact h.not_requestStop (.inr hquiet.stopping) hrequested
  | arrive event =>
    have hchannel := (h.stopped hquiet.stopping).2
    rw [hchannel, Option.map_none, ← hchannel]
    exact .stay (fun hrec => hrec.elim) fun hrec => hrec.elim
  | complete hmem => exact .complete hmem
  | pass duration hnone => exact .pass duration hnone (fun hrec => hrec) fun hrec => hrec
  | exit _ _ => exact .exit rfl
  | stay hpass hiterate => exact .stay hpass hiterate
  | turn turns branch _ _ hselect =>
    have hready := s.select_spec.1 branch hselect
    cases branch with
    | reportMetrics => exact .report hready
    | renewLeases =>
      have heq := handleRenewLeases_of_no_timers (s := { s with nextRenewal := State.nextTick s.nextRenewal s.now })
        (h.no_timers hquiet) config turns
      rw [State.handle, heq]
      exact .renew hready
    | managerMessage message receiver => cases hquiet.receiver.symm.trans hready
    | flushChunk chunk q =>
      obtain ⟨requests, running, spawned, heq⟩ := handle_flushChunk s config turns chunk q
      rw [heq]
      exact .flush requests running spawned hready.2
    | channelEvent event channel => exact h.not_channelEvent hquiet.stopping hready
    | joinNext => exact .join hready.2

theorem Inv.quiet_step (h : Inv s) (hquiet : s.Quiet) (hstep : Step config s label s') :
    s'.exited = true ∨ s'.Quiet := by
  cases h.quiet_cases hquiet hstep with
  | exit hexit => exact .inl hexit
  | _ => exact .inr ⟨hquiet.stopping, hquiet.outstanding, hquiet.receiver⟩

def chunkCount (q : MessageAckQueue α) : Nat := q.fullChunks.length + if q.currentChunk = [] then 0 else 1

theorem chunkCount_nextChunk {q q' now} {chunk : List (AckOrNack α)}
    (h : q.nextChunk now = (some chunk, q')) : chunkCount q' < chunkCount q := by
  rw [MessageAckQueue.nextChunk] at h
  split at h
  · cases h
  · next hempty =>
    rw [MessageAckQueue.isEmpty_iff] at hempty
    cases hfull : q.fullChunks with
    | cons chunk' chunks =>
      rw [hfull] at h
      cases h
      simp only [chunkCount, hfull, List.length_cons]
      omega
    | nil =>
      rw [hfull] at h
      simp only at h
      split at h
      · cases h
      · have hcurrent : q.currentChunk ≠ [] := fun hnil => hempty ⟨hnil, hfull⟩
        cases h
        simp [chunkCount, hfull, hcurrent]

theorem lt_nextFlush {q : MessageAckQueue α} {now} (h : (q.nextChunk now).1 = none) (hempty : q.isEmpty = false) :
    now < q.nextFlush := by
  rw [MessageAckQueue.nextChunk, hempty] at h
  simp only [Bool.false_eq_true, if_false] at h
  split at h
  · cases h
  · split at h
    · next hlt => exact hlt
    · cases h

/-- The requests that run or are to be joined, and the ticks that are due. -/
def State.work (s : State α) : Nat := 2 * s.running.length + s.joinable + s.due

/-- How far a quiet state is from having flushed all chunks. -/
def State.beforeFlushed (s : State α) : ℕ ×ₗ ℕ ×ₗ ℕ :=
  toLex (chunkCount s.manager.messageAckQueue,
    toLex (s.manager.messageAckQueue.nextFlush - s.now, s.work))

theorem State.beforeFlushed_lt (hqueue : s'.manager.messageAckQueue = s.manager.messageAckQueue)
    (hnow : s'.now = s.now) (h : s'.work < s.work) : s'.beforeFlushed < s.beforeFlushed := by
  rw [beforeFlushed, hqueue, hnow]
  exact Prod.Lex.toLex_lt_toLex.2 (.inr ⟨rfl, Prod.Lex.toLex_lt_toLex.2 (.inr ⟨rfl, h⟩)⟩)

/-- Time, if nothing is ready. -/
def State.helpful (s : State α) : Bool := s.select.isSome

theorem Inv.toward_flushed (h : Inv s) (hquiet : s.Quiet) (hempty : s.manager.messageAckQueue.isEmpty = false)
    (hstep : Step config s label s') :
    s'.exited = true ∨ s'.beforeFlushed < s.beforeFlushed ∨
      s'.beforeFlushed = s.beforeFlushed ∧ s'.helpful = s.helpful ∧ ¬ recurs s.helpful label := by
  cases h.quiet_cases hquiet hstep with
  | exit hexit => exact .inl hexit
  | stay hpass hiterate =>
    cases hselect : s.select with
    | none =>
      refine .inr (.inr ⟨rfl, rfl, fun hrec => ?_⟩)
      rw [State.helpful, hselect] at hrec
      exact hpass hrec hselect
    | some branch =>
      by_cases hexit : s.exited = true
      · exact .inl hexit
      refine .inr (.inr ⟨rfl, rfl, fun hrec => ?_⟩)
      rw [State.helpful, hselect] at hrec
      cases hselect.symm.trans ((hiterate hrec).resolve_left hexit).2
  | complete hmem =>
    refine .inr (.inl (State.beforeFlushed_lt rfl rfl ?_))
    have hlength := List.length_erase_of_mem hmem
    have hpos := List.length_pos_of_mem hmem
    change 2 * (s.running.erase _).length + (s.joinable + 1) + s.due < 2 * s.running.length + s.joinable + s.due
    omega
  | pass duration hidle hpass hiterate =>
    have hlt := lt_nextFlush (s.select_spec.2 hidle).chunk hempty
    by_cases hzero : duration = 0
    · subst hzero
      refine .inr (.inr ⟨rfl, rfl, fun hrec => ?_⟩)
      rw [State.helpful, hidle] at hrec
      exact absurd (hpass hrec) (by decide)
    · refine .inr (.inl (Prod.Lex.toLex_lt_toLex.2 (.inr ⟨rfl, Prod.Lex.toLex_lt_toLex.2 (.inl ?_)⟩)))
      change s.manager.messageAckQueue.nextFlush - (s.now + duration) < s.manager.messageAckQueue.nextFlush - s.now
      omega
  | report hdue => exact .inr (.inl (State.beforeFlushed_lt rfl rfl (Nat.add_lt_add_left (State.due_report hdue) _)))
  | renew hdue => exact .inr (.inl (State.beforeFlushed_lt rfl rfl (Nat.add_lt_add_left (State.due_renewal hdue) _)))
  | flush _ _ _ hchunk => exact .inr (.inl (Prod.Lex.toLex_lt_toLex.2 (.inl (chunkCount_nextChunk hchunk))))
  | join hjoinable =>
    refine .inr (.inl (State.beforeFlushed_lt rfl rfl ?_))
    change 2 * s.running.length + (s.joinable - 1) + s.due < 2 * s.running.length + s.joinable + s.due
    omega

/-! ## The requests end and are joined -/

structure State.Flushed (s : State α) : Prop extends s.Quiet where
  flushed : s.manager.messageAckQueue.isEmpty = true

theorem not_chunk_of_isEmpty {P : Prop} {q q' : MessageAckQueue α} {now chunk}
    (h : q.isEmpty = true) (hchunk : q.nextChunk now = (some chunk, q')) : P := by
  rw [MessageAckQueue.nextChunk, if_pos h] at hchunk
  cases hchunk

theorem Inv.flushed_step (h : Inv s) (hflushed : s.Flushed) (hstep : Step config s label s') :
    s'.exited = true ∨ s'.Flushed ∧ ∀ task ∈ s'.running, task ∈ s.running := by
  rcases h.quiet_step hflushed.toQuiet hstep with hexit | hquiet'
  · exact .inl hexit
  cases h.quiet_cases hflushed.toQuiet hstep with
  | exit hexit => exact .inl hexit
  | complete _ => exact .inr ⟨⟨hquiet', hflushed.flushed⟩, fun _ hmem => List.mem_of_mem_erase hmem⟩
  | flush _ _ _ hchunk => exact not_chunk_of_isEmpty hflushed.flushed hchunk
  | _ => exact .inr ⟨⟨hquiet', hflushed.flushed⟩, fun _ hmem => hmem⟩

def State.beforeExit (s : State α) : Nat := if s.joinable = 0 then 0 else s.joinable + s.due

theorem Inv.shouldStop_of_joined (h : Inv s) (hflushed : s.Flushed) (hrunning : s.running = [])
    (hjoinable : s.joinable = 0) : s.shouldStop = true := by
  have hflight : s.manager.messagesInFlight.isEmpty = true := by
    rw [MessagesInFlight.isEmpty, List.isEmpty_iff]
    exact List.map_eq_nil_iff.1 (h.in_flight_empty hflushed.toQuiet)
  rw [State.shouldStop, hflushed.stopping, hflight, hflushed.flushed, hrunning, hjoinable]
  rfl

theorem Inv.toward_exit (h : Inv s) (hflushed : s.Flushed) (hrunning : s.running = [])
    (hstep : Step config s label s') :
    s'.exited = true ∨ s'.beforeExit < s.beforeExit ∨ s'.beforeExit = s.beforeExit ∧ ¬ recurs true label := by
  by_cases hzero : s.joinable = 0
  · have hshould := h.shouldStop_of_joined hflushed hrunning hzero
    have hbefore : s.beforeExit = 0 := if_pos hzero
    cases hstep with
    | exit _ _ => exact .inl rfl
    | turn _ _ _ hgo _ => cases hshould.symm.trans hgo
    | complete hmem =>
      rw [hrunning] at hmem
      cases hmem
    | stay _ hiterate =>
      by_cases hrec : recurs true label
      · refine .inl ((hiterate hrec).resolve_right fun hidle => ?_)
        cases hshould.symm.trans hidle.1
      · exact .inr (.inr ⟨rfl, hrec⟩)
    | _ => exact .inr (.inr ⟨(if_pos hzero).trans hbefore.symm, fun hrec => hrec⟩)
  · have hbefore : s.beforeExit = s.joinable + s.due := if_neg hzero
    cases h.quiet_cases hflushed.toQuiet hstep with
    | exit hexit => exact .inl hexit
    | stay _ hiterate =>
      by_cases hexit : s.exited = true
      · exact .inl hexit
      refine .inr (.inr ⟨rfl, fun hrec => hzero ?_⟩)
      exact (s.select_spec.2 ((hiterate hrec).resolve_left hexit).2).joinable
    | complete hmem =>
      rw [hrunning] at hmem
      cases hmem
    | pass _ hidle _ _ => exact absurd (s.select_spec.2 hidle).joinable hzero
    | report hdue =>
      refine .inr (.inl ?_)
      rw [hbefore, State.beforeExit, if_neg hzero]
      exact Nat.add_lt_add_left (State.due_report hdue) _
    | renew hdue =>
      refine .inr (.inl ?_)
      rw [hbefore, State.beforeExit, if_neg hzero]
      exact Nat.add_lt_add_left (State.due_renewal hdue) _
    | flush _ _ _ hchunk => exact not_chunk_of_isEmpty hflushed.flushed hchunk
    | join _ =>
      refine .inr (.inl ?_)
      rw [hbefore, State.beforeExit]
      change (if s.joinable - 1 = 0 then 0 else s.joinable - 1 + s.due) < _
      split <;> omega

end

/-! ## Fair runs -/

abbrev exec (config : Config) (now : Nat) (labels : Nat → Label α) : Nat → State α :=
  states (State.step config) (State.start config now) labels

/-- The loop gets its turns and time goes on; every message that the handler has is settled or dropped at some
time, and every background request ends at some time. -/
structure Fair (config : Config) (now : Nat) (labels : Nat → Label α) : Prop where
  iterates : ∀ n, ∃ m, n ≤ m ∧ ∃ turns, labels m = .iterate turns
  passes : ∀ n, ∃ m, n ≤ m ∧ ∃ duration, 1 ≤ duration ∧ labels m = .pass duration
  settles : ∀ n, ∀ ackId ∈ (exec config now labels n).outstanding,
    ∃ m, n ≤ m ∧ ackId ∉ (exec config now labels m).outstanding
  completes : ∀ n, ∀ task ∈ (exec config now labels n).running,
    ∃ m, n ≤ m ∧ task ∉ (exec config now labels m).running

section

variable {config : Config} {now : Nat} {labels : Nat → Label α}

theorem exec_steps (n : Nat) : Step config (exec config now labels n) (labels n) (exec config now labels (n + 1)) :=
  State.steps config _ _

theorem Inv.exec (n : Nat) : Inv (exec config now labels n) := by
  induction n with
  | zero => exact Inv.start config now
  | succ n ih => exact ih.step (exec_steps n)

theorem exited_step {s s'} {label : Label α} (h : s.exited = true) (hstep : Step config s label s') :
    s'.exited = true := by
  cases hstep with
  | exit _ _ => rfl
  | turn _ _ hexit _ _ => exact not_exited hexit h
  | _ => exact h

theorem Inv.at_exit {s : State α} (h : Inv s) (hexit : s.exited = true) : s.stopping = true ∧
    s.manager.messagesInFlight.messagesInFlight.keys = [] ∧ s.manager.messageAckQueue.isEmpty = true ∧
    s.running = [] ∧ s.joinable = 0 := by
  have hshould := h.exited hexit
  simp only [State.shouldStop, MessagesInFlight.isEmpty, Bool.and_eq_true, List.isEmpty_iff, beq_iff_eq] at hshould
  obtain ⟨⟨⟨⟨hstop, hflight⟩, hempty⟩, hrunning⟩, hjoinable⟩ := hshould
  exact ⟨hstop, by rw [Dict.keys, hflight]; rfl, hempty, hrunning, hjoinable⟩

variable (h : Fair config now labels)

include h

theorem Fair.recurs (i : Bool) (n : Nat) : ∃ m, n ≤ m ∧ MainLoop.recurs i (labels m) := by
  cases i with
  | true =>
    obtain ⟨m, hm, turns, hlabel⟩ := h.iterates n
    exact ⟨m, hm, by rw [hlabel]; trivial⟩
  | false =>
    obtain ⟨m, hm, duration, hduration, hlabel⟩ := h.passes n
    exact ⟨m, hm, by rw [hlabel]; exact hduration⟩

theorem Fair.reads_request : LeadsTo (exec config now labels)
    (fun s => ManagerMessage.gracefulStop ∈ s.receiver ∧ s.stopping = false) fun s => s.stopping = true := by
  refine leadsTo_of_rank h.recurs State.beforeStop (fun _ => true) fun n hP => ?_
  rcases (Inv.exec n).toward_stop hP.1 hP.2 (exec_steps n) with hstop | ⟨hP', hlt | ⟨heq, hnot⟩⟩
  · exact .inl hstop
  · exact .inr ⟨hP', .inl hlt⟩
  · exact .inr ⟨hP', .inr ⟨heq, rfl, hnot⟩⟩

theorem Fair.settles_all : LeadsTo (exec config now labels)
    (fun s => s.stopping = true) fun s => s.stopping = true ∧ s.outstanding = [] :=
  leadsTo_empty (fun n hstop => ((Inv.exec n).step_stopping hstop (exec_steps n)).1) State.outstanding
    (fun n hstop => (Inv.exec n).outstanding_step hstop (exec_steps n)) h.settles

theorem Fair.reads_verdicts : LeadsTo (exec config now labels)
    (fun s => s.stopping = true ∧ s.outstanding = []) fun s => s.exited = true ∨ s.Quiet := by
  refine leadsTo_of_rank h.recurs State.beforeRead (fun _ => true) fun n hP => ?_
  have hstop := ((Inv.exec n).step_stopping hP.1 (exec_steps n)).1
  have hout := (Inv.exec n).outstanding_step hP.1 (exec_steps n)
  rw [hP.2] at hout
  have hP' := And.intro hstop (List.eq_nil_of_subset_nil hout)
  rcases (Inv.exec n).toward_read hP.1 hP.2 (exec_steps n) with hexit | hnil | hlt | ⟨heq, hnot⟩
  · exact .inl (.inl hexit)
  · exact .inl (.inr ⟨hP'.1, hP'.2, hnil⟩)
  · exact .inr ⟨hP', .inl hlt⟩
  · exact .inr ⟨hP', .inr ⟨heq, rfl, hnot⟩⟩

theorem Fair.flushes : LeadsTo (exec config now labels) State.Quiet
    fun s => s.exited = true ∨ s.Flushed := by
  have hunflushed : LeadsTo (exec config now labels)
      (fun s => s.Quiet ∧ s.manager.messageAckQueue.isEmpty = false) fun s => s.exited = true ∨ s.Flushed := by
    refine leadsTo_of_rank h.recurs State.beforeFlushed State.helpful fun n hP => ?_
    rcases (Inv.exec n).quiet_step hP.1 (exec_steps n) with hexit | hquiet
    · exact .inl (.inl hexit)
    by_cases hempty : (exec config now labels (n + 1)).manager.messageAckQueue.isEmpty = true
    · exact .inl (.inr ⟨hquiet, hempty⟩)
    · rcases (Inv.exec n).toward_flushed hP.1 hP.2 (exec_steps n) with hexit | hrank
      · exact .inl (.inl hexit)
      · exact .inr ⟨⟨hquiet, Bool.not_eq_true _ ▸ hempty⟩, hrank⟩
  intro n hquiet
  by_cases hempty : (exec config now labels n).manager.messageAckQueue.isEmpty = true
  · exact ⟨n, Nat.le_refl n, .inr ⟨hquiet, hempty⟩⟩
  · exact hunflushed n ⟨hquiet, Bool.not_eq_true _ ▸ hempty⟩

theorem Fair.completes_all : LeadsTo (exec config now labels)
    (fun s => s.exited = true ∨ s.Flushed) fun s => (s.exited = true ∨ s.Flushed) ∧ s.running = [] := by
  refine leadsTo_empty (fun n hP => ?_) State.running (fun n hP => ?_) h.completes
  · rcases hP with hexit | hflushed
    · exact .inl (exited_step hexit (exec_steps n))
    · exact ((Inv.exec n).flushed_step hflushed (exec_steps n)).imp id And.left
  · have hnone : (exec config now labels (n + 1)).exited = true →
        ∀ task ∈ (exec config now labels (n + 1)).running, task ∈ (exec config now labels n).running := by
      intro hexit task hmem
      rw [((Inv.exec (n + 1)).at_exit hexit).2.2.2.1] at hmem
      cases hmem
    rcases hP with hexit | hflushed
    · exact hnone (exited_step hexit (exec_steps n))
    · rcases (Inv.exec n).flushed_step hflushed (exec_steps n) with hexit | ⟨-, hrunning⟩
      · exact hnone hexit
      · exact hrunning

theorem Fair.exits : LeadsTo (exec config now labels)
    (fun s => (s.exited = true ∨ s.Flushed) ∧ s.running = []) fun s => s.exited = true := by
  have hflushed : LeadsTo (exec config now labels)
      (fun s => s.Flushed ∧ s.running = []) fun s => s.exited = true := by
    refine leadsTo_of_rank h.recurs State.beforeExit (fun _ => true) fun n hP => ?_
    rcases (Inv.exec n).flushed_step hP.1 (exec_steps n) with hexit | ⟨hflushed, hrunning⟩
    · exact .inl hexit
    rw [hP.2] at hrunning
    have hrunning' := List.eq_nil_of_subset_nil hrunning
    rcases (Inv.exec n).toward_exit hP.1 hP.2 (exec_steps n) with hexit | hlt | ⟨heq, hnot⟩
    · exact .inl hexit
    · exact .inr ⟨⟨hflushed, hrunning'⟩, .inl hlt⟩
    · exact .inr ⟨⟨hflushed, hrunning'⟩, .inr ⟨heq, rfl, hnot⟩⟩
  rintro n ⟨hexit | hflushed', hrunning⟩
  · exact ⟨n, Nat.le_refl n, hexit⟩
  · exact hflushed n ⟨hflushed', hrunning⟩

theorem Fair.stops {n} (hlabel : labels n = .requestStop) :
    ∃ m, (exec config now labels m).exited = true := by
  have hrequested : (exec config now labels (n + 1)).stopRequested = true := by
    change (State.step config (exec config now labels n) (labels n)).stopRequested = true
    rw [hlabel, State.step]
    split
    · next hrequested => exact hrequested
    · rfl
  have hstop : ∃ m, (exec config now labels m).stopping = true := by
    rcases (Inv.exec (n + 1)).requested.1 hrequested with hmem | hstop
    · cases hstop : (exec config now labels (n + 1)).stopping with
      | true => exact ⟨n + 1, hstop⟩
      | false =>
        obtain ⟨m, -, hstop'⟩ := h.reads_request (n + 1) ⟨hmem, hstop⟩
        exact ⟨m, hstop'⟩
    · exact ⟨n + 1, hstop⟩
  obtain ⟨m, hm⟩ := hstop
  have hchain := h.settles_all.trans (h.reads_verdicts.trans
    (h.flushes.or_left.trans (h.completes_all.trans h.exits)))
  obtain ⟨k, -, hexit⟩ := hchain m hm
  exact ⟨k, hexit⟩

end

/-! ## What the server sent -/

def ChannelEvent.messages : ChannelEvent α → List (Option α × DetachedMessage)
  | .response entries => Manager.messagesOf entries
  | .failed => []

def Label.arrived : Label α → List (ChannelEvent α)
  | .arrive event => [event]
  | _ => []

/-- What was received, and then what the channel has. -/
def State.incoming (s : State α) : List (Option α × DetachedMessage) :=
  s.manager.delivered ++ (s.channel.getD []).flatMap ChannelEvent.messages

/-- Nothing was received that did not arrive, and a channel that is open has only lost what a failure took. -/
structure Sent (arrived : List (ChannelEvent α)) (s : State α) : Prop where
  sublist : s.incoming.Sublist (arrived.flatMap ChannelEvent.messages)
  all : s.channel ≠ none → .failed ∉ arrived →
    .failed ∉ s.channel.getD [] ∧ s.incoming = arrived.flatMap ChannelEvent.messages

section Sent

variable {arrived : List (ChannelEvent α)} {config : Config} {s' : State α}

theorem Sent.delivered_sublist (h : Sent arrived s) :
    s.manager.delivered.Sublist (arrived.flatMap ChannelEvent.messages) :=
  (List.sublist_append_left _ _).trans h.sublist

theorem Sent.frame (h : Sent arrived s) (hdelivered : s'.manager.delivered = s.manager.delivered)
    (hchannel : s'.channel = s.channel) : Sent arrived s' := by
  have hincoming : s'.incoming = s.incoming := by rw [State.incoming, State.incoming, hdelivered, hchannel]
  exact ⟨hincoming ▸ h.sublist, by rw [hchannel, hincoming]; exact h.all⟩

theorem Sent.close (h : Sent arrived s) (hdelivered : s'.manager.delivered = s.manager.delivered)
    (hchannel : s'.channel = none) : Sent arrived s' := by
  refine ⟨?_, fun hopen => absurd hchannel hopen⟩
  rw [State.incoming, hdelivered, hchannel]
  simpa using h.delivered_sublist

theorem Sent.gracefulStop (h : Sent arrived s) (config : Config) (receiver : List ManagerMessage) :
    Sent arrived (State.handleGracefulStop config { s with receiver }) := by
  rw [State.handleGracefulStop]
  split
  · exact h.frame rfl rfl
  · dsimp only
    generalize State.chunks _ _ _ = chunks
    have hclosed : ∀ s' : State α, s'.manager.delivered = s.manager.delivered ∧ s'.channel = none →
        Sent arrived { chunks.foldl State.nackOnHold s' with stopping := true } := by
      induction chunks with
      | nil => exact fun s' hs' => h.close hs'.1 hs'.2
      | cons chunk chunks ih =>
        refine fun s' hs' => ih _ ?_
        rw [State.nackOnHold]
        dsimp only
        split <;> exact hs'
    exact hclosed _ ⟨rfl, rfl⟩

theorem Sent.response (h : Sent arrived s) (hi : Inv s) (slab : Slab) {entries channel}
    (hchannel : s.channel = some (.response entries :: channel)) :
    Sent arrived { s with
      channel := some channel
      manager := s.manager.handleStreamingPullResponse slab s.now entries } := by
  have hincoming : ({ s with
      channel := some channel
      manager := s.manager.handleStreamingPullResponse slab s.now entries } : State α).incoming = s.incoming := by
    rw [State.incoming, State.incoming, hchannel]
    change (Manager.flushReady _ _).delivered ++ _ = _
    rw [Manager.delivered_flushReady, Manager.delivered_transformAndInsert slab s.now entries hi.accounts.counted,
      List.append_assoc]
    rfl
  refine ⟨hincoming ▸ h.sublist, fun _ hfailed => ?_⟩
  obtain ⟨hnone, hall⟩ := h.all (by simp [hchannel]) hfailed
  rw [hchannel] at hnone
  exact ⟨List.not_mem_of_not_mem_cons hnone, hincoming.trans hall⟩

theorem Sent.handle (h : Sent arrived s) (hi : Inv s) (turns : List State.RenewalTurn) {branch}
    (hselect : s.select = some branch) : Sent arrived (s.handle config turns branch) := by
  have hready := s.select_spec.1 branch hselect
  cases branch with
  | reportMetrics | joinNext => exact h.frame rfl rfl
  | renewLeases =>
    obtain ⟨q, requests, running, spawned, heq⟩ := hi.handle_renewLeases config turns
    rw [heq]
    exact h.frame rfl rfl
  | managerMessage message receiver =>
    cases message with
    | ackOrNack verdict =>
      exact h.frame ((Manager.delivered_flushReady _ _).trans (Manager.delivered_finish _ _)) rfl
    | gracefulStop => exact h.gracefulStop config receiver
  | flushChunk chunk q =>
    obtain ⟨requests, running, spawned, heq⟩ := handle_flushChunk s config turns chunk q
    rw [heq]
    exact h.frame rfl rfl
  | channelEvent event channel =>
    cases event with
    | response entries => exact h.response hi config.slab hready.2
    | failed =>
      refine ⟨by simpa [State.incoming, State.handle] using h.delivered_sublist, fun _ hfailed => ?_⟩
      have hnone := (h.all (by simp [hready.2]) hfailed).1
      rw [hready.2] at hnone
      exact absurd List.mem_cons_self hnone

theorem Sent.arrive (h : Sent arrived s) (event : ChannelEvent α) :
    Sent (arrived ++ [event]) { s with channel := s.channel.map (· ++ [event]) } := by
  cases hchannel : s.channel with
  | none =>
    refine ⟨?_, fun hopen => absurd rfl hopen⟩
    have hincoming : ({ s with channel := none } : State α).incoming = s.manager.delivered := List.append_nil _
    rw [Option.map_none, hincoming, List.flatMap_append]
    exact h.delivered_sublist.trans (List.sublist_append_left _ _)
  | some channel =>
    have hincoming : ({ s with channel := some (channel ++ [event]) } : State α).incoming =
        s.incoming ++ [event].flatMap ChannelEvent.messages := by
      simp only [State.incoming, hchannel, Option.getD_some, List.flatMap_append, List.append_assoc]
    rw [Option.map_some]
    refine ⟨?_, fun _ hfailed => ?_⟩
    · rw [hincoming, List.flatMap_append]
      exact h.sublist.append_right _
    · rw [List.mem_append, not_or] at hfailed
      obtain ⟨hnone, hall⟩ := h.all (by simp [hchannel]) hfailed.1
      rw [hchannel] at hnone
      rw [hincoming, hall, List.flatMap_append]
      exact ⟨fun hmem => (List.mem_append.1 hmem).elim hnone hfailed.2, rfl⟩

theorem Sent.step (h : Sent arrived s) (hi : Inv s) (label : Label α) :
    Sent (arrived ++ label.arrived) (s.step config label) := by
  cases label with
  | arrive event => exact h.arrive event
  | iterate turns =>
    simp only [Label.arrived, List.append_nil, State.step, State.iterate]
    split
    · exact h
    split
    · exact h.frame rfl rfl
    split
    · exact h
    · next hselect => exact h.handle hi turns hselect
  | _ =>
    simp only [Label.arrived, List.append_nil, State.step]
    split <;> exact h.frame rfl rfl

theorem Sent.run (config : Config) (now : Nat) (labels : List (Label α)) :
    Sent (labels.flatMap Label.arrived) (labels.foldl (State.step config) (State.start config now)) := by
  induction labels using List.reverseRecOn with
  | nil => exact ⟨.slnil, fun _ _ => ⟨List.not_mem_nil, rfl⟩⟩
  | append_singleton labels label ih =>
    rw [List.flatMap_append, List.flatMap_singleton, List.foldl_concat]
    exact ih.step ((Inv.start config now).run config labels) label

end Sent

/-! ## The result -/

/-- At the end, the verdicts that the guards have sent are those that the loop has dealt with. -/
theorem Inv.settled_at_exit {s : State α} (h : Inv s) (hexit : s.exited = true) : s.settled = s.handled := by
  have hsubset : s.unread ⊆ s.manager.messagesInFlight.messagesInFlight.keys := fun _ hmem => h.unread_in_flight hmem
  rw [(h.at_exit hexit).2.1] at hsubset
  rw [State.settled, List.map_eq_nil_iff.1 (List.eq_nil_of_subset_nil hsubset), List.append_nil]

/-- **A graceful stop settles every message once, and ends.** In every run, what was received came from the server,
and as long as the channel is open and has not failed, all that arrived is received or still in it. Once a stop is
under way nothing more is handed to the handler. The loop ends only when it is, with nothing in flight, no chunk
pending and no background request. At that point each message received has had one verdict: that of its guard if it had
been handed on, and a nack if it was on hold; and the acknowledgements and the modifications to a deadline of zero that
were requested are just these verdicts, on the ack ids of the server. And in every fair run in which a stop is
requested, the loop ends. -/
theorem graceful_stop_settles_and_ends (config : Config) (now : Nat) :
    (∀ labels : List (Label α),
      let s := labels.foldl (State.step config) (State.start config now)
      let arrived := labels.flatMap Label.arrived
      s.manager.delivered.Sublist (arrived.flatMap ChannelEvent.messages) ∧
      (s.channel ≠ none → .failed ∉ arrived → s.incoming = arrived.flatMap ChannelEvent.messages) ∧
      (s.stopping = true → ∀ more : List (Label α),
        (more.foldl (State.step config) s).manager.handed = s.manager.handed) ∧
      (s.exited = true → s.stopping = true ∧ s.manager.messagesInFlight.messagesInFlight.keys = [] ∧
        s.manager.messageAckQueue.isEmpty = true ∧ s.running = [] ∧ s.joinable = 0) ∧
      (s.exited = true →
        (s.manager.received.map (·.ackId)).Nodup ∧
        (s.manager.received.map (·.ackId)).Perm (s.settled.map (·.ackId) ++ s.manager.drained) ∧
        (s.manager.handed.map (·.ackId)).Perm (s.settled.map (·.ackId)) ∧
        (∀ message ∈ s.manager.received, (s.manager.stored.get? message.ackId).isSome) ∧
        s.outcomes.Perm ((s.settled ++ s.manager.drained.map AckOrNack.nack).filterMap
          (forServer s.manager.stored)))) ∧
    (∀ labels : Nat → Label α, Fair config now labels → (∃ n, labels n = .requestStop) →
      ∃ n, (exec config now labels n).exited = true) := by
  refine ⟨fun labels => ?_, fun labels hfair ⟨n, hlabel⟩ => hfair.stops hlabel⟩
  intro s arrived
  have h : Inv s := (Inv.start config now).run config labels
  have hsent : Sent arrived s := .run config now labels
  refine ⟨hsent.delivered_sublist, fun hopen hfailed => (hsent.all hopen hfailed).2,
    fun hstop more => h.run_stopping hstop config more, h.at_exit, fun hexit => ?_⟩
  obtain ⟨hstop, hflight, hempty, -, -⟩ := h.at_exit hexit
  have hpending := h.accounts.wellFormed.pending_eq_nil_iff.2 hempty
  have hpartition := h.accounts.partition
  have hhanded := h.accounts.toPlaces.handed
  rw [hflight, h.finished, (h.stopped hstop).1] at hpartition
  rw [hflight, h.finished, List.nil_append] at hhanded
  rw [h.settled_at_exit hexit]
  refine ⟨h.accounts.nodup, hpartition, hhanded, fun message hmem => ?_, ?_⟩
  · exact (h.accounts.known _).2 (List.mem_map_of_mem hmem)
  · have houtcomes := h.outcomes
    rw [hpending, List.append_nil] at houtcomes
    exact houtcomes

/-! ## A run -/

namespace TwoMessages

theorem sum_succ_notMem (keys : List Nat) : keys.sum + 1 ∉ keys := by
  intro hmem
  have hle := List.single_le_sum (fun _ _ => Nat.zero_le _) _ hmem
  omega

/-- One message at a time, and the first vacant key after those in use. -/
def config : Config where
  flowControl := ⟨1000, 1, 10, 600, by decide, by decide, by decide⟩
  slab := ⟨fun keys => keys.sum + 1, sum_succ_notMem⟩
  hash := ⟨id, fun _ => .refl _⟩

/-- Two messages are received and the first is handed on; the stop nacks the second; the first is acked, its chunk is
flushed, and both requests end. -/
def start : List (Label String) :=
  [.arrive (.response [⟨"a", some ⟨[], "", [], "1"⟩, 0⟩, ⟨"b", some ⟨[], "", [], "2"⟩, 0⟩]),
    .iterate [], .iterate [], .iterate [], .requestStop, .iterate [], .settle (.ack 1), .iterate [], .complete 0,
    .iterate [], .pass 100, .iterate [], .complete 1, .iterate [], .iterate []]

/-- From then on turns and time alternate. -/
def labels (n : Nat) : Label String := start.getD n (if n % 2 = 0 then .iterate [] else .pass 1)

theorem fair : Fair config 0 labels := by
  have htail : ∀ n, 15 ≤ n → labels n = if n % 2 = 0 then .iterate [] else .pass 1 := fun n hn => by
    rw [labels, List.getD_eq_getElem?_getD, List.getElem?_eq_none hn, Option.getD_none]
  have hexit : ∀ n, 15 ≤ n → (exec config 0 labels n).exited = true := by
    intro n hn
    have h₁₅ : (exec config 0 labels 15).exited = true := by decide
    have hstable : Stable (exec config 0 labels) fun s => s.exited = true :=
      fun n hexit => exited_step hexit (exec_steps n)
    exact hstable.le hn h₁₅
  refine ⟨fun n => ⟨2 * (n + 15), by omega, [], ?_⟩, fun n => ⟨2 * (n + 15) + 1, by omega, 1, Nat.le_refl 1, ?_⟩,
    fun n ackId _ => ⟨n + 15, by omega, fun hmem => ?_⟩, fun n task _ => ⟨n + 15, by omega, fun hmem => ?_⟩⟩
  · rw [htail _ (by omega), if_pos (by omega)]
  · rw [htail _ (by omega), if_neg (by omega)]
  · have hmem' := ((Inv.exec (n + 15)).mem_outstanding.1 hmem).1
    rw [((Inv.exec (n + 15)).at_exit (hexit _ (by omega))).2.1] at hmem'
    cases hmem'
  · rw [((Inv.exec (n + 15)).at_exit (hexit _ (by omega))).2.2.2.1] at hmem
    cases hmem

theorem graceful_stop_settles_and_ends_twoMessages :
    (∃ n, (exec config 0 labels n).exited = true) ∧
      (start.foldl (State.step config) (State.start config 0)).outcomes = [.nack "b", .ack "a"] :=
  ⟨(graceful_stop_settles_and_ends config 0).2 labels fair ⟨4, rfl⟩, by decide⟩

end TwoMessages

end Osprey.StreamingPull.MainLoop
