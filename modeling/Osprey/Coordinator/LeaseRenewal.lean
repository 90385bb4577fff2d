/-
The leases of the messages that the manager holds: each is extended again before
it ends.

A lease is extended when the timer of its message has expired and a tick of the
renewals is handled. The timer was set for less than the duration of the lease,
with a buffer of two seconds at least, and no tick leaves an expired timer
behind. So a timer has expired after the tick before, and the extension comes
less than a second after the expiry.

The latencies that the duration is computed from are arbitrary. Of the delay
queue it is assumed that it gives a timer as long as one has expired.
-/
import Osprey.Coordinator.GracefulStop
import Osprey.Lib.Run

namespace Osprey.StreamingPull.MainLoop

open Lib (Dict)
open MessageAckQueue (Poll genRange)
open State (RenewalTurn bufferedLeaseRenewalDuration)

variable {α : Type}

/-! ## Extensions -/

def NoneExpired (now : Nat) (q : MessageAckQueue α) : Prop :=
  ∀ key timer, q.leaseRenewalDelayQueue.get? key = some timer → now < timer.expiresAt

/-- The ids whose leases one call of `collect_ack_ids_that_need_to_be_renewed` renews, with the queue afterwards;
`none` if the polls are not those of a delay queue, which is pending only if no timer has expired. -/
def polled (slab : Slab) (now maxDelay : Nat) :
    Nat → List Poll → MessageAckQueue α → Option (List Nat × MessageAckQueue α)
  | 0, _, q => some ([], q)
  | _ + 1, [], q => if q.leaseRenewalDelayQueue.values.all (now < ·.expiresAt) then some ([], q) else none
  | room + 1, poll :: polls, q =>
    (q.leaseRenewalDelayQueue.get? poll.key).bind fun timer =>
      if now < timer.expiresAt then none
      else (q.ackIdMapping.get? timer.ackId).bind fun item =>
        let q := q.renewed slab poll.key timer item (now + genRange maxDelay poll.draw)
        (polled slab now maxDelay room polls q).map fun r => (timer.ackId :: r.1, r.2)

/-- The extensions of `handle_renew_leases`: the ids with the seconds that are asked for, and the queue afterwards. The
loop goes on until a chunk is not full. -/
def renewals (config : Config) (now : Nat) :
    List RenewalTurn → MessageAckQueue α → Option (List (Nat × Nat) × MessageAckQueue α)
  | [], _ => none
  | turn :: turns, q =>
    let secs := config.flowControl.clampLeaseDuration turn.p99Secs
    (polled config.slab now (bufferedLeaseRenewalDuration secs) ackIdsMaxBatchSize turn.polls q).bind fun chunk =>
      if chunk.1.length = ackIdsMaxBatchSize then
        (renewals config now turns chunk.2).map fun r => (chunk.1.map (·, secs) ++ r.1, r.2)
      else some (chunk.1.map (·, secs), chunk.2)

/-- The loop handles a tick of the renewals in this step. -/
def State.renewing (s : State α) : Label α → Option (List RenewalTurn)
  | .iterate turns =>
    if s.exited || s.shouldStop then none
    else match s.select with
      | some .renewLeases => some turns
      | _ => none
  | _ => none

def State.extended (config : Config) (s : State α) (label : Label α) : List (Nat × Nat) :=
  (((s.renewing label).bind (renewals config s.now · s.manager.messageAckQueue)).map Prod.fst).getD []

/-- The ack ids of the server whose leases a request extends, and the seconds. A deadline of zero is a nack. -/
def Request.extensions : Request α → List (α × Nat)
  | .acknowledge _ => []
  | .modifyAckDeadline ackIds secs => if secs = 0 then [] else ackIds.map (·, secs)

def State.asked (s : State α) : List (α × Nat) := s.requests.flatMap Request.extensions

def onServer (q : MessageAckQueue α) (extensions : List (Nat × Nat)) : List (Option (α × Nat)) :=
  extensions.map fun e => (q.ackIdMapping.get? e.1).map (·.ackIdFromServer, e.2)

structure Lease where
  at_ : Nat
  secs : Nat
  deriving DecidableEq

def extend (now : Nat) (leases : Nat → Option Lease) (extensions : List (Nat × Nat)) : Nat → Option Lease :=
  extensions.foldl (fun leases e => Function.update leases e.1 (some ⟨now, e.2⟩)) leases

/-- The manager, with the last extension of each message and the time of the last tick. -/
structure Watch (α : Type) where
  state : State α
  leases : Nat → Option Lease := fun _ => none
  lastTick : Nat

namespace Watch

def start (config : Config) (now : Nat) : Watch α := { state := .start config now, lastTick := now }

def next (config : Config) (w : Watch α) (label : Label α) : Watch α :=
  { state := w.state.step config label
    leases := extend w.state.now w.leases (w.state.extended config label)
    lastTick := if (w.state.renewing label).isSome then w.state.now else w.lastTick }

/-- A tick is handled within a second after the one before, on what a delay queue gives. -/
def onTime (config : Config) (w : Watch α) (label : Label α) : Bool :=
  (w.state.renewing label).all fun turns =>
    w.state.now ≤ w.lastTick + 1000 && (renewals config w.state.now turns w.state.manager.messageAckQueue).isSome

/-- The extensions of a step are those that it asks the server for, and whatever lease is extended, the one before has
not ended. -/
def NoLapse (config : Config) (w : Watch α) (label : Label α) : Prop :=
  (w.state.step config label).asked.map some =
      w.state.asked.map some ++ onServer w.state.manager.messageAckQueue (w.state.extended config label) ∧
  ∀ e ∈ w.state.extended config label, 10 ≤ e.2 ∧ e.2 ≤ config.flowControl.maxDurationPerLeaseExtension ∧
    ∀ lease, w.leases e.1 = some lease → w.state.now < lease.at_ + lease.secs * 1000

end Watch

/-! ## Timers that are not renewed -/

/-- A part of a step that renews no lease: timers are dropped, and new ones are of new ids. -/
structure Kept (now : Nat) (q q' : MessageAckQueue α) : Prop where
  last : q.lastAckId ≤ q'.lastAckId
  timers : ∀ key timer, q'.leaseRenewalDelayQueue.get? key = some timer →
    q.leaseRenewalDelayQueue.get? key = some timer ∨ now < timer.expiresAt ∧ q.lastAckId < timer.ackId

section

variable {now : Nat} {q q' q'' : MessageAckQueue α}

theorem Kept.of_eq (hlast : q'.lastAckId = q.lastAckId)
    (htimers : q'.leaseRenewalDelayQueue = q.leaseRenewalDelayQueue) : Kept now q q' :=
  ⟨hlast.ge, fun key timer h => .inl (by rw [← htimers]; exact h)⟩

theorem Kept.trans (h : Kept now q q') (h' : Kept now q' q'') : Kept now q q'' := by
  refine ⟨h.last.trans h'.last, fun key timer htimer => ?_⟩
  rcases h'.timers key timer htimer with hold | ⟨hnow, hlast⟩
  · exact h.timers key timer hold
  · exact .inr ⟨hnow, lt_of_le_of_lt h.last hlast⟩

theorem kept_removeAckId (ackId : Nat) : Kept now q (q.removeAckId ackId).2 := by
  rcases q.removeAckId_cases ackId with ⟨-, hremove⟩ | ⟨item, -, hremove⟩
  · rw [hremove]
    exact .of_eq rfl rfl
  · rw [hremove]
    exact ⟨le_rfl, fun key timer htimer => .inl (Dict.of_get?_erase htimer).2⟩

theorem kept_enqueue (at_ : Nat) (verdict : AckOrNack Nat) : Kept now q (q.enqueueAckOrNack at_ verdict) := by
  rcases MessageAckQueue.enqueueAckOrNack_cases at_ q verdict with ⟨-, henqueue⟩ | ⟨item, -, henqueue⟩
  · rw [henqueue]
    exact .of_eq rfl rfl
  · rw [henqueue]
    refine (kept_removeAckId verdict.ackId).trans ?_
    rw [MessageAckQueue.pushAckOrNack, MessageAckQueue.beforePush]
    split <;> split <;> exact .of_eq rfl rfl

theorem kept_removeAckIds : ∀ (ids : List Nat) {q : MessageAckQueue α}, Kept now q (State.removeAckIds ids q).2
  | [], _ => .of_eq rfl rfl
  | id :: ids, _ => (kept_removeAckId id).trans (kept_removeAckIds ids)

theorem kept_receive (slab : Slab) (m : Manager α) (entry : ReceivedMessage α) :
    Kept now m.messageAckQueue (m.receive slab now entry).messageAckQueue := by
  rw [Manager.receive]
  cases entry.message with
  | none => exact .of_eq rfl rfl
  | some protoMessage =>
    refine ⟨Nat.le_succ _, fun key timer htimer => ?_⟩
    rcases Dict.of_get?_set htimer with ⟨-, rfl⟩ | ⟨-, htimer⟩
    · exact .inr ⟨Nat.lt_add_of_pos_right (by decide), Nat.lt_succ_self _⟩
    · exact .inl htimer

theorem messageAckQueue_flushReady (turns : Nat) (m : Manager α) :
    (Manager.flushReady turns m).messageAckQueue = m.messageAckQueue := by
  fun_induction Manager.flushReady turns m with
  | case3 _ _ _ _ _ _ ih => exact ih
  | _ => rfl

theorem messageAckQueue_finish (m : Manager α) (ackId : Nat) :
    (m.finish ackId).messageAckQueue = m.messageAckQueue := by
  rw [Manager.finish]
  split <;> rfl

theorem kept_response (slab : Slab) (entries : List (ReceivedMessage α)) : ∀ m : Manager α,
    Kept now m.messageAckQueue (m.handleStreamingPullResponse slab now entries).messageAckQueue := by
  intro m
  rw [Manager.handleStreamingPullResponse, Manager.tryFlushMessagesOnHoldBatch, messageAckQueue_flushReady,
    Manager.transformAndInsertMessagesIntoMessagesOnHold]
  induction entries generalizing m with
  | nil => exact .of_eq rfl rfl
  | cons entry entries ih => exact (kept_receive slab m entry).trans (ih _)

theorem asked_perform (s : State α) {request} (h : request.extensions = []) :
    (s.perform request).asked = s.asked := by
  simp [State.perform, State.asked, h]

theorem kept_nackOnHold : ∀ (chunks : List (List Nat)) (s : State α),
    Kept now s.manager.messageAckQueue (chunks.foldl State.nackOnHold s).manager.messageAckQueue ∧
      (chunks.foldl State.nackOnHold s).now = s.now ∧ (chunks.foldl State.nackOnHold s).asked = s.asked
  | [], _ => ⟨.of_eq rfl rfl, rfl, rfl⟩
  | chunk :: chunks, s => by
    have hchunk : Kept now s.manager.messageAckQueue (s.nackOnHold chunk).manager.messageAckQueue ∧
        (s.nackOnHold chunk).now = s.now ∧ (s.nackOnHold chunk).asked = s.asked := by
      rw [State.nackOnHold]
      dsimp only
      split
      · exact ⟨kept_removeAckIds chunk, rfl, rfl⟩
      · exact ⟨kept_removeAckIds chunk, rfl, asked_perform _ rfl⟩
    obtain ⟨hkept, hnow, hasked⟩ := kept_nackOnHold chunks (s.nackOnHold chunk)
    exact ⟨hchunk.1.trans hkept, hnow.trans hchunk.2.1, hasked.trans hchunk.2.2⟩

theorem kept_gracefulStop (config : Config) (s : State α) :
    Kept now s.manager.messageAckQueue (s.handleGracefulStop config).manager.messageAckQueue ∧
      (s.handleGracefulStop config).now = s.now ∧ (s.handleGracefulStop config).asked = s.asked := by
  rw [State.handleGracefulStop]
  split
  · exact ⟨.of_eq rfl rfl, rfl, rfl⟩
  · set ackIds := State.drainAndCollectAllAckIds config.hash s.manager.messagesOnHold
    exact kept_nackOnHold (State.chunks ackIdsMaxBatchSize ackIds.length ackIds)
      { s with channel := none, manager := { s.manager with messagesOnHold := {}, drained := ackIds } }

theorem asked_flushAckOrNackChunk (s : State α) (chunk : List (AckOrNack α)) :
    (s.flushAckOrNackChunk chunk).asked = s.asked := by
  rw [State.flushAckOrNackChunk]
  split
  · split
    · rfl
    · exact asked_perform s rfl
  · split
    · exact asked_perform s rfl
    · exact (asked_perform _ rfl).trans (asked_perform s rfl)

theorem kept_nextChunk (at_ : Nat) : Kept now q (q.nextChunk at_).2 := by
  refine .of_eq (Manager.lastAckId_nextChunk at_ q) ?_
  rw [MessageAckQueue.nextChunk]
  split
  · rfl
  · split
    · rfl
    · split <;> rfl

end

variable {s : State α}

theorem kept_step {config label s'} (h : s.renewing label = none) (hstep : Step config s label s') :
    Kept s.now s.manager.messageAckQueue s'.manager.messageAckQueue ∧ s.now ≤ s'.now ∧ s'.asked = s.asked := by
  have hsame : Kept s.now s.manager.messageAckQueue s.manager.messageAckQueue := .of_eq rfl rfl
  cases hstep with
  | pass duration _ => exact ⟨hsame, Nat.le_add_right _ _, rfl⟩
  | turn turns branch hexit hgo hselect =>
    have hready := s.select_spec.1 branch hselect
    cases branch with
    | reportMetrics | joinNext => exact ⟨hsame, le_rfl, rfl⟩
    | renewLeases => simp [State.renewing, hexit, hgo, hselect] at h
    | managerMessage message receiver =>
      cases message with
      | ackOrNack verdict =>
        refine ⟨?_, le_rfl, rfl⟩
        change Kept s.now _ (s.manager.handleAckOrNack s.now verdict).messageAckQueue
        rw [Manager.handleAckOrNack, Manager.tryFlushMessagesOnHoldBatch, messageAckQueue_flushReady,
          messageAckQueue_finish]
        exact kept_enqueue s.now verdict
      | gracefulStop => exact (kept_gracefulStop config { s with receiver }).imp_right fun h => ⟨h.1.ge, h.2⟩
    | flushChunk chunk q =>
      have hkept : Kept s.now s.manager.messageAckQueue (s.manager.messageAckQueue.nextChunk s.now).2 :=
        kept_nextChunk s.now
      rw [hready.2] at hkept
      refine and_assoc.1 ⟨?_, asked_flushAckOrNackChunk _ chunk⟩
      obtain ⟨requests, running, spawned, heq⟩ := handle_flushChunk s config turns chunk q
      rw [heq]
      exact ⟨hkept, le_rfl⟩
    | channelEvent event channel =>
      cases event with
      | response entries => exact ⟨kept_response config.slab entries s.manager, le_rfl, rfl⟩
      | failed => exact ⟨hsame, le_rfl, rfl⟩
  | _ => exact ⟨hsame, le_rfl, rfl⟩

/-! ## Timers that are renewed -/

/-- The timers are set for less than the leases of their messages last. -/
def Covered (leases : Nat → Option Lease) (q : MessageAckQueue α) : Prop :=
  ∀ key timer, q.leaseRenewalDelayQueue.get? key = some timer → ∀ lease, leases timer.ackId = some lease →
    timer.expiresAt < lease.at_ + bufferedLeaseRenewalDuration lease.secs

def Expired (now : Nat) (q : MessageAckQueue α) (id : Nat) : Prop :=
  ∃ key timer, q.leaseRenewalDelayQueue.get? key = some timer ∧ timer.ackId = id ∧ timer.expiresAt ≤ now

theorem le_bufferedLeaseRenewalDuration {secs} (h : 10 ≤ secs) :
    8000 ≤ bufferedLeaseRenewalDuration secs ∧ bufferedLeaseRenewalDuration secs + 2000 ≤ secs * 1000 := by
  rw [bufferedLeaseRenewalDuration]
  omega

theorem genRange_mem {secs} (h : 10 ≤ secs) (draw : Nat) :
    0 < genRange (bufferedLeaseRenewalDuration secs) draw ∧
      genRange (bufferedLeaseRenewalDuration secs) draw < bufferedLeaseRenewalDuration secs := by
  have hle := (le_bufferedLeaseRenewalDuration h).1
  set maxDelay := bufferedLeaseRenewalDuration secs
  have hmod := Nat.mod_lt draw (show 0 < maxDelay - maxDelay / 2 by omega)
  rw [genRange]
  omega

section

variable {slab : Slab} {q : MessageAckQueue α} {key : Nat} {timer : Timer} {item : MessageAckQueueItem α}

theorem timers_renewed (h : q.WellFormed) (htimer : q.leaseRenewalDelayQueue.get? key = some timer)
    {expiresAt key' timer'}
    (htimer' : (q.renewed slab key timer item expiresAt).leaseRenewalDelayQueue.get? key' = some timer') :
    timer' = ⟨timer.ackId, expiresAt⟩ ∨
      q.leaseRenewalDelayQueue.get? key' = some timer' ∧ timer'.ackId ≠ timer.ackId := by
  rcases Dict.of_get?_set htimer' with ⟨-, rfl⟩ | ⟨-, htimer'⟩
  · exact .inl rfl
  · obtain ⟨hne, htimer'⟩ := Dict.of_get?_erase htimer'
    exact .inr ⟨htimer', fun heq => hne (h.key_unique htimer htimer' heq)⟩

/-- What the renewals of a queue do to its timers, for leases of so many seconds. -/
structure Renewed (now : Nat) (q : MessageAckQueue α) (extensions : List (Nat × Nat)) (q' : MessageAckQueue α) :
    Prop where
  wellFormed : q'.WellFormed
  last : q'.lastAckId = q.lastAckId
  expired : ∀ e ∈ extensions, Expired now q e.1
  covered : ∀ leases, Covered leases q → Covered (extend now leases extensions) q'

theorem Renewed.nil {now} (h : q.WellFormed) : Renewed now q [] q :=
  ⟨h, rfl, fun _ he => (by cases he), fun _ hcovered => hcovered⟩

/-- A timer that is set is later than now, so that what expires after it has expired before. -/
theorem Renewed.append {now q' q'' es es'} (h : Renewed now q es q')
    (hold : ∀ id, Expired now q' id → Expired now q id) (h' : Renewed now q' es' q'') :
    Renewed now q (es ++ es') q'' := by
  refine ⟨h'.wellFormed, h'.last.trans h.last, fun e he => ?_, fun leases hcovered => ?_⟩
  · rcases List.mem_append.1 he with he | he
    · exact h.expired e he
    · exact hold _ (h'.expired e he)
  · rw [extend, List.foldl_append]
    exact h'.covered _ (h.covered leases hcovered)

theorem renewed_one {now secs} (h : q.WellFormed) (htimer : q.leaseRenewalDelayQueue.get? key = some timer)
    (hexpired : timer.expiresAt ≤ now) (hitem : q.ackIdMapping.get? timer.ackId = some item) {expiresAt}
    (hlt : expiresAt < now + bufferedLeaseRenewalDuration secs) :
    Renewed now q [(timer.ackId, secs)] (q.renewed slab key timer item expiresAt) := by
  refine ⟨h.renewed slab htimer hitem expiresAt, rfl, fun e he => ?_, fun leases hcovered key' timer' htimer' => ?_⟩
  · rw [List.mem_singleton.1 he]
    exact ⟨key, timer, htimer, rfl, hexpired⟩
  · intro lease hlease
    change Function.update leases timer.ackId (some ⟨now, secs⟩) timer'.ackId = some lease at hlease
    rcases timers_renewed h htimer htimer' with heq | ⟨hold, hne⟩
    · subst heq
      rw [Function.update_self] at hlease
      cases hlease
      exact hlt
    · rw [Function.update_of_ne hne] at hlease
      exact hcovered key' timer' hold lease hlease

theorem Expired.of_renewed {now expiresAt id} (h : q.WellFormed)
    (htimer : q.leaseRenewalDelayQueue.get? key = some timer) (hlt : now < expiresAt)
    (hid : Expired now (q.renewed slab key timer item expiresAt) id) : Expired now q id := by
  obtain ⟨key', timer', htimer', hackId, hle⟩ := hid
  rcases timers_renewed h htimer htimer' with heq | ⟨hold, -⟩
  · subst heq
    exact absurd hle (Nat.not_le_of_lt hlt)
  · exact ⟨key', timer', hold, hackId, hle⟩

end

/-- A call of `collect_ack_ids_that_need_to_be_renewed`: it leaves no expired timer unless its chunk is full. -/
theorem renewed_polled {slab now secs} (hsecs : 10 ≤ secs) : ∀ (room : Nat) (polls : List Poll)
    {q ids} {q' : MessageAckQueue α}, q.WellFormed →
    polled slab now (bufferedLeaseRenewalDuration secs) room polls q = some (ids, q') →
    Renewed now q (ids.map (·, secs)) q' ∧ (∀ id, Expired now q' id → Expired now q id) ∧
      (ids.length ≠ room → NoneExpired now q') ∧
      (q.collectAckIdsThatNeedToBeRenewed slab now (bufferedLeaseRenewalDuration secs) room polls).2 = q' ∧
      (q.collectAckIdsThatNeedToBeRenewed slab now (bufferedLeaseRenewalDuration secs) room polls).1.map (some ·.2) =
        ids.map fun id => (q.ackIdMapping.get? id).map (·.ackIdFromServer)
  | 0, polls, q, ids, q', h, hpolled => by
    cases hpolled
    exact ⟨.nil h, fun _ => id, fun hne => absurd rfl hne, by cases polls <;> rfl, by cases polls <;> rfl⟩
  | room + 1, [], q, ids, q', h, hpolled => by
    rw [polled] at hpolled
    split at hpolled
    next hall =>
      cases hpolled
      refine ⟨.nil h, fun _ => id, fun _ key timer htimer => ?_, rfl, rfl⟩
      have hmem : timer ∈ q.leaseRenewalDelayQueue.values :=
        List.mem_map_of_mem (Dict.get?_eq_some_iff.1 htimer)
      exact of_decide_eq_true (List.all_eq_true.1 hall timer hmem)
    next => cases hpolled
  | room + 1, poll :: polls, q, ids, q', h, hpolled => by
    rw [polled] at hpolled
    rw [MessageAckQueue.collectAckIdsThatNeedToBeRenewed]
    cases htimer : q.leaseRenewalDelayQueue.get? poll.key with
    | none =>
      rw [htimer] at hpolled
      cases hpolled
    | some timer =>
      rw [htimer, Option.bind_some] at hpolled
      split at hpolled
      · cases hpolled
      next hexpired =>
      obtain ⟨item, hitem, -⟩ := h.mapped poll.key timer htimer
      rw [hitem, Option.bind_some, Option.map_eq_some_iff] at hpolled
      obtain ⟨⟨ids', q''⟩, hrest, heq⟩ := hpolled
      cases heq
      set expiresAt := now + genRange (bufferedLeaseRenewalDuration secs) poll.draw with hexpiresAt
      have hlt : expiresAt < now + bufferedLeaseRenewalDuration secs :=
        Nat.add_lt_add_left (genRange_mem hsecs poll.draw).2 _
      have hnow : now < expiresAt := Nat.lt_add_of_pos_right (genRange_mem hsecs poll.draw).1
      have hold : ∀ id, Expired now (q.renewed slab poll.key timer item expiresAt) id → Expired now q id :=
        fun _ => Expired.of_renewed h htimer hnow
      obtain ⟨hrenewed, hexpired', hnone, hqueue, hchunk⟩ :=
        renewed_polled hsecs room polls (h.renewed slab htimer hitem expiresAt) hrest
      have hsame : q.SameAcks (q.renewed slab poll.key timer item expiresAt) :=
        MessageAckQueue.sameAcks_renewed slab hitem expiresAt
      rw [funext hsame.mapping] at hchunk
      simp only [hexpired, if_false, hitem]
      refine ⟨(renewed_one h htimer (Nat.le_of_not_lt hexpired) hitem hlt).append hold hrenewed,
        fun id hid => hold id (hexpired' id hid), fun hne => hnone fun heq => hne (congrArg (· + 1) heq), hqueue, ?_⟩
      rw [List.map_cons, List.map_cons, hitem, Option.map_some]
      exact congrArg (_ :: ·) hchunk

theorem renewed_renewals (config : Config) : ∀ (turns : List RenewalTurn) {s : State α}
    {extensions q'}, s.manager.messageAckQueue.WellFormed →
    renewals config s.now turns s.manager.messageAckQueue = some (extensions, q') →
    Renewed s.now s.manager.messageAckQueue extensions q' ∧ NoneExpired s.now q' ∧
      (∀ e ∈ extensions, 10 ≤ e.2 ∧ e.2 ≤ config.flowControl.maxDurationPerLeaseExtension) ∧
      (s.handleRenewLeases config turns).manager.messageAckQueue = q' ∧
      (s.handleRenewLeases config turns).asked.map some =
        s.asked.map some ++ onServer s.manager.messageAckQueue extensions
  | [], s, extensions, q', h, hrenewals => by cases hrenewals
  | turn :: turns, s, extensions, q', h, hrenewals => by
    rw [renewals, Option.bind_eq_some_iff] at hrenewals
    obtain ⟨⟨ids, q₁⟩, hpolled, hrenewals⟩ := hrenewals
    rw [State.handleRenewLeases]
    set secs := config.flowControl.clampLeaseDuration turn.p99Secs with hsecs
    have hbounds : 10 ≤ secs ∧ secs ≤ config.flowControl.maxDurationPerLeaseExtension := by
      have hminimum := config.flowControl.minimum
      have hordered := config.flowControl.ordered
      rw [hsecs, FlowControl.clampLeaseDuration]
      omega
    obtain ⟨hrenewed, hexpired, hnone, hqueue, hchunk⟩ := renewed_polled hbounds.1 _ _ h hpolled
    set collected := s.manager.messageAckQueue.collectAckIdsThatNeedToBeRenewed config.slab s.now
      (bufferedLeaseRenewalDuration secs) ackIdsMaxBatchSize turn.polls with hcollected
    have hlength : collected.1.length = ids.length := by simpa using congrArg List.length hchunk
    have hsecs : ∀ e ∈ ids.map (·, secs), 10 ≤ e.2 ∧ e.2 ≤ config.flowControl.maxDurationPerLeaseExtension := by
      intro e he
      obtain ⟨id, -, heq⟩ := List.mem_map.1 he
      rw [← heq]
      exact hbounds
    have hasked : (State.perform { s with manager := { s.manager with messageAckQueue := q₁ } }
        (.modifyAckDeadline (collected.1.map Prod.snd) secs)).asked.map some =
        s.asked.map some ++ onServer s.manager.messageAckQueue (ids.map (·, secs)) := by
      have hne : secs ≠ 0 := by omega
      have hserver := congrArg (List.map (Option.map (·, secs))) hchunk
      simpa [State.asked, State.perform, Request.extensions, onServer, hne, Function.comp_def] using hserver
    dsimp only
    split at hrenewals
    next hfull =>
      rw [Option.map_eq_some_iff] at hrenewals
      obtain ⟨⟨rest, q₂⟩, hrest, heq⟩ := hrenewals
      cases heq
      have hne : ¬ collected.1.isEmpty = true := by
        rw [List.isEmpty_iff_length_eq_zero, hlength, hfull]
        decide
      rw [if_neg hne, if_pos (hlength.trans hfull), hqueue]
      have hsame := (MessageAckQueue.WellFormed.collect config.slab s.now (bufferedLeaseRenewalDuration secs) turn.polls
        ackIdsMaxBatchSize h).2
      rw [← hcollected, hqueue] at hsame
      have hserver : onServer q₁ rest = onServer s.manager.messageAckQueue rest := by
        refine List.map_congr_left fun e _ => ?_
        have hmapping := congrArg (Option.map (·, e.2)) (hsame.mapping e.1)
        rwa [Option.map_map, Option.map_map] at hmapping
      obtain ⟨hrenewed', hnone', hsecs', hqueue', hasked'⟩ := renewed_renewals config turns
        (s := State.perform { s with manager := { s.manager with messageAckQueue := q₁ } }
          (.modifyAckDeadline (collected.1.map Prod.snd) secs)) hrenewed.wellFormed hrest
      refine ⟨hrenewed.append hexpired hrenewed', hnone', fun e he => ?_, hqueue', ?_⟩
      · rcases List.mem_append.1 he with he | he
        · exact hsecs e he
        · exact hsecs' e he
      · change _ = _ ++ onServer q₁ rest at hasked'
        rw [hasked', hasked, hserver, onServer, onServer, onServer, List.map_append, List.append_assoc]
    next hpart =>
      cases hrenewals
      refine ⟨hrenewed, hnone hpart, hsecs, ?_⟩
      rw [hqueue]
      split
      next hnil =>
        rw [List.isEmpty_iff_length_eq_zero, hlength, List.length_eq_zero_iff] at hnil
        rw [hnil]
        exact ⟨rfl, (List.append_nil _).symm⟩
      next =>
        rw [if_neg fun hfull => hpart (hlength.symm.trans hfull)]
        exact ⟨rfl, hasked⟩

/-! ## Runs -/

theorem State.step_of_renewing (config : Config) {label turns} (h : s.renewing label = some turns) :
    ∃ nextRenewal, s.step config label = State.handleRenewLeases config turns { s with nextRenewal } := by
  cases label with
  | iterate turns' =>
    rw [renewing] at h
    split at h
    · cases h
    next hrun =>
      rw [Bool.or_eq_true, not_or] at hrun
      split at h
      next hselect =>
        cases h
        refine ⟨nextTick s.nextRenewal s.now, ?_⟩
        rw [step, iterate, if_neg hrun.1, if_neg hrun.2, hselect]
        rfl
      next => cases h
  | _ => cases h

theorem extend_cases {now id lease} : ∀ (extensions : List (Nat × Nat)) {leases},
    extend now leases extensions id = some lease →
      leases id = some lease ∨ ∃ e ∈ extensions, e.1 = id ∧ lease = ⟨now, e.2⟩
  | [], leases, h => .inl h
  | e :: extensions, leases, h => by
    rcases extend_cases extensions h with hold | ⟨e', he', heq⟩
    · change Function.update leases e.1 (some ⟨now, e.2⟩) id = some lease at hold
      by_cases hid : id = e.1
      · subst hid
        rw [Function.update_self] at hold
        exact .inr ⟨e, List.mem_cons_self, rfl, (Option.some.inj hold).symm⟩
      · rw [Function.update_of_ne hid] at hold
        exact .inl hold
    · exact .inr ⟨e', List.mem_cons_of_mem _ he', heq⟩

namespace Watch

/-- What holds between the steps: since the last tick no timer has expired, and the timers are set for less than the
leases last. -/
structure Leased (w : Watch α) : Prop where
  inv : Inv w.state
  tick : w.lastTick ≤ w.state.now
  timers : NoneExpired w.lastTick w.state.manager.messageAckQueue
  covered : Covered w.leases w.state.manager.messageAckQueue
  known : ∀ id lease, w.leases id = some lease → id ≤ w.state.manager.messageAckQueue.lastAckId ∧ 10 ≤ lease.secs

theorem leased_start (config : Config) (now : Nat) : (start config now : Watch α).Leased :=
  ⟨.start config now, le_rfl, fun _ _ h => (by cases h), fun _ _ h => (by cases h), fun _ _ h => (by cases h)⟩

variable {w : Watch α} {config : Config} {label : Label α}

theorem Leased.of_not_renewing (h : w.Leased) (hrenewing : w.state.renewing label = none) :
    (w.next config label).Leased := by
  have hstep := w.state.steps config label
  obtain ⟨hkept, hnow, -⟩ := kept_step hrenewing hstep
  have hleases : (w.next config label).leases = w.leases := by
    simp only [next, State.extended, hrenewing]
    rfl
  have htick : (w.next config label).lastTick = w.lastTick := by simp only [next, hrenewing]; rfl
  refine ⟨h.inv.step hstep, ?_, ?_, ?_, ?_⟩
  · rw [htick]
    exact h.tick.trans hnow
  · rw [htick]
    intro key timer htimer
    rcases hkept.timers key timer htimer with hold | ⟨hlt, -⟩
    · exact h.timers key timer hold
    · exact lt_of_le_of_lt h.tick hlt
  · rw [hleases]
    intro key timer htimer lease hlease
    rcases hkept.timers key timer htimer with hold | ⟨-, hnew⟩
    · exact h.covered key timer hold lease hlease
    · exact absurd (h.known _ _ hlease).1 (Nat.not_le_of_lt hnew)
  · rw [hleases]
    exact fun id lease hlease => (h.known id lease hlease).imp_left fun hle => hle.trans hkept.last

theorem Leased.of_renewing (h : w.Leased) {turns : List RenewalTurn} (hrenewing : w.state.renewing label = some turns)
    (hontime : w.onTime config label) : w.NoLapse config label ∧ (w.next config label).Leased := by
  rw [onTime, hrenewing, Option.all_some, Bool.and_eq_true, decide_eq_true_eq] at hontime
  obtain ⟨hsecond, hsome⟩ := hontime
  obtain ⟨⟨extensions, q'⟩, hrenewals⟩ := Option.isSome_iff_exists.1 hsome
  obtain ⟨nextRenewal, hstep⟩ := State.step_of_renewing config hrenewing
  have hwell := h.inv.accounts.wellFormed
  obtain ⟨hrenewed, hnone, hsecs, hqueue, hasked⟩ :=
    renewed_renewals config turns (s := { w.state with nextRenewal }) hwell hrenewals
  obtain ⟨q'', requests, running, spawned, heq, -⟩ :=
    State.handleRenewLeases_eq config turns (s := { w.state with nextRenewal }) hwell
  have hextended : w.state.extended config label = extensions := by
    simp only [State.extended, hrenewing, Option.bind_some, hrenewals]
    rfl
  have hmanager : (w.next config label).state.manager.messageAckQueue = q' := by
    rw [← hqueue]
    exact congrArg (fun s : State α => s.manager.messageAckQueue) hstep
  have hnow : (w.next config label).state.now = w.state.now := by
    change (w.state.step config label).now = _
    rw [hstep, heq]
  have hleases : (w.next config label).leases = extend w.state.now w.leases extensions := by
    simp only [next, hextended]
  have htick : (w.next config label).lastTick = w.state.now := by simp only [next, hrenewing]; rfl
  refine ⟨?_, h.inv.step (w.state.steps config label), ?_, ?_, ?_, ?_⟩
  · rw [NoLapse, hextended, hstep]
    refine ⟨hasked, fun e he => ?_⟩
    refine ⟨(hsecs e he).1, (hsecs e he).2, fun lease hlease => ?_⟩
    obtain ⟨key, timer, htimer, hid, hle⟩ := hrenewed.expired e he
    rw [← hid] at hlease
    -- The timer has expired after the tick before, and was set for less than the lease lasts.
    have hafter := h.timers key timer htimer
    have hcovered := h.covered key timer htimer lease hlease
    have hbuffer := (le_bufferedLeaseRenewalDuration (h.known _ _ hlease).2).2
    omega
  · rw [htick, hnow]
  · rw [htick, hmanager]
    exact hnone
  · rw [hleases, hmanager]
    exact hrenewed.covered w.leases h.covered
  · rw [hleases, hmanager, hrenewed.last]
    intro id lease hlease
    rcases extend_cases extensions hlease with hold | ⟨e, he, hid, hlease⟩
    · exact h.known id lease hold
    · obtain ⟨key, timer, htimer, hackId, -⟩ := hrenewed.expired e he
      obtain ⟨item, hitem, -⟩ := hwell.mapped key timer htimer
      rw [← hid, ← hackId, hlease]
      exact ⟨hwell.counted _ (Option.isSome_of_eq_some hitem), (hsecs e he).1⟩

end Watch

/-- **No lease lapses.** Whatever latencies are observed and whatever the bounds of the flow control, if every tick is
handled within a second after the one before, a lease is extended before the last extension of it ends. -/
theorem no_lease_lapses (config : Config) (now : Nat) (labels : List (Label α))
    (h : Lib.Along (Watch.next config) (fun w label => w.onTime config label) (Watch.start config now) labels) :
    Lib.Along (Watch.next config) (Watch.NoLapse config) (Watch.start config now) labels := by
  refine (Lib.Along.invariant (I := Watch.Leased) ?_ h (Watch.leased_start config now)).1
  intro w label hw hontime
  cases hrenewing : w.state.renewing label with
  | some turns => exact hw.of_renewing hrenewing hontime
  | none =>
    refine ⟨?_, hw.of_not_renewing hrenewing⟩
    rw [Watch.NoLapse, State.extended, hrenewing, (kept_step hrenewing (w.state.steps config label)).2.2]
    exact ⟨(List.append_nil _).symm, fun e he => (by cases he)⟩

/-- A message is received, and its lease is extended after one second and, by a timer of four seconds, after five. -/
def oneMessage : List (Label String) :=
  let tick (polls : List Poll) : List (Label String) := [.iterate [], .iterate [⟨0, polls⟩]]
  .arrive (.response [⟨"a", some ⟨[], "", [], "1"⟩, 0⟩]) :: tick [] ++ [.iterate [], .pass 1000] ++ tick [⟨1, 0⟩] ++
    [.pass 1000] ++ tick [] ++ [.pass 1000] ++ tick [] ++ [.pass 1000] ++ tick [] ++ [.pass 1000, .iterate []]

theorem no_lease_lapses_oneMessage :
    let w := oneMessage.foldl (Watch.next TwoMessages.config) (Watch.start TwoMessages.config 0)
    w.leases 1 = some ⟨1000, 10⟩ ∧
      w.state.extended TwoMessages.config (.iterate [⟨0, [⟨1, 0⟩]⟩]) = [(1, 10)] ∧ w.state.now = 5000 ∧
      Lib.Along (Watch.next TwoMessages.config) (Watch.NoLapse TwoMessages.config) (Watch.start TwoMessages.config 0)
        (oneMessage ++ [.iterate [⟨0, [⟨1, 0⟩]⟩]]) :=
  ⟨by decide +kernel, by decide +kernel, by decide +kernel, no_lease_lapses TwoMessages.config 0 _ (by decide +kernel)⟩

end Osprey.StreamingPull.MainLoop
