/-
The attempts of a bulk label task. `claim` counts an attempt before `run` looks
at the count, and `run` gives the task up as soon as the count has reached
`MAX_ATTEMPTS`: the last attempt is counted and not made. The test of the count
after an exception, which would give a task up after its last attempt, is never
true of a worker that is alone at the task.

The runs are those in which one worker after another has the task and the
processing always raises something that may be retried. `_process_task` is begun
`MAX_ATTEMPTS - 1` times before the task is given up, and until then the task can
be claimed again.
-/
import Osprey.Worker.BulkLabelTask

namespace Osprey.BulkLabel

/-- The workers take turns at the task, and its processing always fails with an exception that may be retried. -/
def Retryable (maxAttempts excludedCount : Nat) (s : State) : Event → Prop
  | .claim .. => ∀ w, s.workers w = none
  | .complete .. | .crash .. => False
  | .raise _ unretryable _ _ => unretryable = false
  -- `UnretryableTaskException` is not raised.
  | .collect w entityIds now =>
    s.workers w ≠ none → (next maxAttempts excludedCount s (.collect w entityIds now)).workers w ≠ none
  | _ => True

/-- The copy is what is stored, but for columns other than the status. -/
structure Copy.Current (row : Row) (c : Copy) : Prop where
  loaded : ∀ r, c.loaded = some r → r = row
  status : c.pending.taskStatus = none

/-- The attempts that were begun when a worker is at a phase: the one that was counted last may be still to begin. -/
def Phase.Begun (maxAttempts attempts processed : Nat) : Phase → Prop
  | .claimed => processed + 1 = attempts ∧ attempts ≤ maxAttempts
  | .sending => False
  | _ => processed = attempts ∧ attempts < maxAttempts

/-- The worker `w` is alone at the task. -/
structure Attempting (maxAttempts : Nat) (s : State) (w : WorkerId) (worker : Worker) : Prop where
  workers : s.workers = Function.update (fun _ => none) w (some worker)
  copy : worker.copy.Current s.row
  status : s.row.taskStatus = .collecting ∨ s.row.taskStatus = .labelling
  begun : worker.phase.Begun maxAttempts s.row.attempts s.processed

/-- Nobody is at the task. -/
structure Waiting (maxAttempts : Nat) (s : State) : Prop where
  workers : s.workers = fun _ => none
  status : s.row.taskStatus = .queued ∨ s.row.taskStatus = .retrying
  begun : s.processed = s.row.attempts
  lt : s.row.attempts < maxAttempts

structure GivenUp (maxAttempts : Nat) (s : State) : Prop where
  workers : s.workers = fun _ => none
  status : s.row.taskStatus = .failed
  begun : s.processed + 1 = maxAttempts
  attempts : s.row.attempts = maxAttempts

/-- The states of a run in which the workers take turns and fail. -/
inductive Sequential (maxAttempts : Nat) (s : State) : Prop
  | waiting (h : Waiting maxAttempts s)
  | attempting (w : WorkerId) (worker : Worker) (h : Attempting maxAttempts s w worker)
  | givenUp (h : GivenUp maxAttempts s)

variable {maxAttempts excludedCount : Nat} {s : State} {row : Row} {c : Copy} {w : WorkerId}

/-! ## Copies -/

theorem Copy.Current.empty : Copy.Current row {} := ⟨nofun, rfl⟩

theorem Copy.Current.load (h : c.Current row) : (c.load row).Current row := by
  refine ⟨fun r hr => ?_, h.status⟩
  cases hloaded : c.loaded with
  | none =>
    simp only [Copy.load, hloaded, Option.getD_none, Option.some.injEq] at hr
    exact hr.symm
  | some r' =>
    simp only [Copy.load, hloaded, Option.getD_some, Option.some.injEq] at hr
    exact hr ▸ h.loaded r' hloaded

theorem Copy.Current.getD (h : c.Current row) : c.loaded.getD row = row := by
  cases hloaded : c.loaded with
  | none => rfl
  | some r => exact h.loaded r hloaded

theorem Copy.Current.attempts (h : c.Current row) : (c.read row).attempts = row.attempts := by
  show (c.loaded.getD row).attempts = row.attempts
  rw [h.getD]

theorem Copy.Current.taskStatus (h : c.Current row) : (c.read row).taskStatus = row.taskStatus := by
  show c.pending.taskStatus.getD (c.loaded.getD row).taskStatus = row.taskStatus
  rw [h.status, h.getD]
  rfl

theorem Copy.Current.set (h : c.Current row) {new} (hnew : new.taskStatus = none) :
    (c.set new).Current row := by
  refine ⟨h.loaded, ?_⟩
  show setColumn (c.loaded.map Row.taskStatus) c.pending.taskStatus new.taskStatus = none
  rw [hnew]
  exact h.status

theorem Copy.Current.commit_set (h : c.Current row) {new status}
    (hnew : new.taskStatus = some status) : ((c.set new).commit row).taskStatus = status := by
  show (setColumn (c.loaded.map Row.taskStatus) c.pending.taskStatus new.taskStatus).getD row.taskStatus = status
  rw [hnew]
  show (if c.loaded.map Row.taskStatus = some status then none else some status).getD row.taskStatus = status
  split
  next hsame =>
    obtain ⟨r, hr, hstatus⟩ := Option.map_eq_some_iff.mp hsame
    exact h.loaded r hr ▸ hstatus
  next => rfl

/-! ## Steps -/

theorem begun_phaseAt {entityIds index stop attempts processed} (h : processed = attempts ∧ attempts < maxAttempts) :
    (State.phaseAt entityIds index stop).Begun maxAttempts attempts processed := by
  unfold State.phaseAt
  split
  · exact h
  · exact h

section

variable {phase : Phase} (h : Attempting maxAttempts s w ⟨phase, c⟩)
include h

theorem Attempting.self : s.workers w = some ⟨phase, c⟩ := by
  rw [h.workers, Function.update_self]

theorem Attempting.setWorker (worker : Option Worker) :
    Function.update s.workers w worker = Function.update (fun _ => none) w worker := by
  rw [h.workers, Function.update_idem]

theorem Attempting.leave : Function.update s.workers w none = fun _ => none := by
  rw [h.setWorker, Function.update_eq_self]

theorem Attempting.move {phase' c' labelled processed} (hc : c'.Current s.row)
    (hbegun : phase'.Begun maxAttempts s.row.attempts processed) :
    Attempting maxAttempts ({ s with labelled, processed }.setWorker w (some ⟨phase', c'⟩)) w ⟨phase', c'⟩ :=
  ⟨h.setWorker _, hc, h.status, hbegun⟩

theorem Attempting.heartbeat {phase'} (collecting : Bool) (count : Nat) (now : Time) (claimUntilSeconds : Nat)
    (hbegun : phase'.Begun maxAttempts s.row.attempts s.processed) :
    Attempting maxAttempts ({ s with row := c.heartbeat s.row collecting count now claimUntilSeconds }.setWorker w
      (some ⟨phase', {}⟩)) w ⟨phase', {}⟩ := by
  refine ⟨h.setWorker _, .empty, ?_, hbegun⟩
  have hstatus : (c.heartbeat s.row collecting count now claimUntilSeconds).taskStatus = _ := h.copy.load.commit_set rfl
  show (c.heartbeat s.row collecting count now claimUntilSeconds).taskStatus = .collecting ∨
    (c.heartbeat s.row collecting count now claimUntilSeconds).taskStatus = .labelling
  rw [hstatus]
  cases collecting with
  | true => exact .inl rfl
  | false => exact .inr rfl

theorem Attempting.fail (hbegun : s.processed = s.row.attempts ∧ s.row.attempts < maxAttempts) {c'}
    (hc : c'.Current s.row) (repr : String) (now : Time) :
    Waiting maxAttempts (s.fail maxAttempts w c' false repr now) := by
  have hattempts : ¬maxAttempts ≤ ((c'.load s.row).read s.row).attempts := by
    rw [hc.load.attempts]
    omega
  have hstatus : (if (false || decide (maxAttempts ≤ ((c'.load s.row).read s.row).attempts)) = true then
      TaskStatus.failed else .retrying) = .retrying := by
    rw [decide_eq_false hattempts]
    rfl
  refine ⟨h.leave, .inr ?_, hbegun.1, hbegun.2⟩
  exact (hc.load.commit_set rfl).trans hstatus

theorem Attempting.startLabelling (hphase : phase = .collecting) {entityIds now}
    (hpresent : (s.startLabelling maxAttempts excludedCount w c entityIds now).workers w ≠ none) :
    ∃ worker, Attempting maxAttempts (s.startLabelling maxAttempts excludedCount w c entityIds now) w worker := by
  have hbegun := h.begun
  subst hphase
  have hcurrent : (c.setTotal s.row entityIds.card).Current s.row := by
    unfold Copy.setTotal
    split
    · exact h.copy.load.set rfl
    · exact h.copy.load
  obtain ⟨copy, hcopy, hbegin | hfail⟩ := State.startLabelling_cases hcurrent fun copy expected hc => hc.set rfl
  · rw [hbegin]
    exact ⟨_, h.move hcopy (begun_phaseAt hbegun)⟩
  · have hgone : (s.fail maxAttempts w copy true "UnretryableTaskException" now).workers w = none := by
      show Function.update s.workers w none w = none
      exact Function.update_self ..
    rw [hfail] at hpresent
    exact absurd hgone hpresent

end

theorem Waiting.claim (h : Waiting maxAttempts s) (w : WorkerId) (now : Time) (retryJitter lockJitter : Rat) :
    Sequential maxAttempts (next maxAttempts excludedCount s (.claim w now retryJitter lockJitter)) := by
  have hw : s.workers w = none := congrFun h.workers w
  simp only [next, hw, Row.claim]
  split
  next => exact .waiting h
  next row hrow =>
    split at hrow
    · cases hrow
      refine .attempting w ⟨.claimed, {}⟩ ⟨?_, .empty, .inl rfl, ?_, h.lt⟩
      · show Function.update s.workers w _ = _
        rw [h.workers]
      · exact congrArg (· + 1) h.begun
    · cases hrow

theorem GivenUp.claim (h : GivenUp maxAttempts s) (w : WorkerId) (now : Time) (retryJitter lockJitter : Rat) :
    next maxAttempts excludedCount s (.claim w now retryJitter lockJitter) = s := by
  have hw : s.workers w = none := congrFun h.workers w
  have hclaimable : s.row.claimable maxAttempts now retryJitter = false := by
    simp [Row.claimable, h.status, TaskStatus.isNonFinal, TaskStatus.isFinal]
  simp only [next, hw, Row.claim, hclaimable]
  rfl

theorem Attempting.next {worker} (h : Attempting maxAttempts s w worker) {event}
    (hevent : Retryable maxAttempts excludedCount s event) (hworker : event.worker = w) :
    Sequential maxAttempts (next maxAttempts excludedCount s event) := by
  subst hworker
  obtain ⟨phase, c⟩ := worker
  have hself := h.self
  fun_cases BulkLabel.next maxAttempts excludedCount s event with
  | case1 w | case2 w | case3 w => cases (hevent w).symm.trans hself
  | case5 w worker hw =>
    cases hw.symm.trans hself
    exact .attempting w _ (h.move h.copy.load h.begun)
  | case6 w now copy hw _ hmax =>
    -- `run` looks at the count: the last attempt is not made
    cases hw.symm.trans hself
    obtain ⟨hbegun, hle⟩ := h.begun
    have hattempts : s.row.attempts = maxAttempts := le_antisymm hle (h.copy.load.attempts ▸ hmax.1)
    exact .givenUp ⟨h.leave, h.copy.load.commit_set rfl, hbegun.trans hattempts, hattempts⟩
  | case7 w now copy hw _ hmax =>
    cases hw.symm.trans hself
    have hnonFinal : s.row.taskStatus.isNonFinal = true := by
      rcases h.status with hs | hs <;> rw [hs] <;> rfl
    rw [h.copy.load.attempts, h.copy.load.taskStatus, hnonFinal, and_iff_left rfl] at hmax
    exact .attempting w _ (h.move h.copy.load ⟨h.begun.1, not_le.mp hmax⟩)
  | case9 w newEntityCount now claimUntilSeconds copy hw =>
    cases hw.symm.trans hself
    exact .attempting w _ (h.heartbeat true newEntityCount now claimUntilSeconds h.begun)
  | case11 w entityIds now copy hw =>
    cases hw.symm.trans hself
    have hpresent := hevent (by rw [hw]; exact Option.some_ne_none _)
    simp only [BulkLabel.next, hw] at hpresent
    obtain ⟨worker, hworker⟩ := h.startLabelling rfl hpresent
    exact .attempting w worker hworker
  | case13 w now entityIds index stop copy hw =>
    cases hw.symm.trans hself
    exact .waiting (h.fail h.begun h.copy _ now)
  | case14 w now entityIds index stop copy hw =>
    cases hw.symm.trans hself
    exact .attempting w _ (h.move h.copy h.begun)
  | case16 w now entityIds index stop copy hw | case21 w now copy hw =>
    cases hw.symm.trans hself
    exact .attempting w _ (h.heartbeat false _ now baseDelaySeconds h.begun)
  | case18 w now entityIds index stop copy hw =>
    cases hw.symm.trans hself
    exact .attempting w _ (h.heartbeat false _ now baseDelaySeconds (begun_phaseAt h.begun))
  | case19 w now heartbeat entityIds index stop copy hw =>
    cases hw.symm.trans hself
    exact .attempting w _ (h.move h.copy (begun_phaseAt h.begun))
  | case25 w copy hw =>
    cases hw.symm.trans hself
    exact h.begun.elim
  | case27 w unretryable repr now worker hw htry =>
    cases hw.symm.trans hself
    cases hevent
    refine .waiting (h.fail ?_ h.copy repr now)
    have hbegun := h.begun
    cases phase with
    | claimed => cases htry
    | sending => exact hbegun.elim
    | collecting | labelling | labelled | finished | completing => exact hbegun
  | case23 | case24 | case30 => exact hevent.elim
  | _ => exact .attempting _ _ h

theorem Sequential.next (h : Sequential maxAttempts s) {event}
    (hevent : Retryable maxAttempts excludedCount s event) :
    Sequential maxAttempts (next maxAttempts excludedCount s event) := by
  by_cases hclaim : ∃ w now retryJitter lockJitter, event = .claim w now retryJitter lockJitter
  · obtain ⟨w, now, retryJitter, lockJitter, rfl⟩ := hclaim
    cases h with
    | waiting h => exact h.claim w now retryJitter lockJitter
    | givenUp h =>
      rw [h.claim]
      exact .givenUp h
    | attempting w' worker h =>
      have hpresent : s.workers w' = some worker := h.self
      rw [hevent w'] at hpresent
      cases hpresent
  · push Not at hclaim
    cases h with
    | waiting h =>
      rw [next_of_absent hclaim (congrFun h.workers _)]
      exact .waiting h
    | givenUp h =>
      rw [next_of_absent hclaim (congrFun h.workers _)]
      exact .givenUp h
    | attempting w worker h =>
      by_cases hworker : event.worker = w
      · exact h.next hevent hworker
      · rw [next_of_absent hclaim ((congrFun h.workers _).trans (Function.update_of_ne hworker _ _))]
        exact .attempting w worker h

/-- A row can be claimed from some time on, whatever is drawn for the delay. -/
def Row.ClaimableLater (maxAttempts : Nat) (row : Row) : Prop :=
  ∃ earliest, ∀ now ≥ earliest, ∀ retryJitter ≤ 2, row.claimable maxAttempts now retryJitter = true

theorem calculateLockSeconds_mono (attempts : Nat) {jitter jitter'} (h : jitter ≤ jitter') :
    calculateLockSeconds attempts jitter ≤ calculateLockSeconds attempts jitter' := by
  unfold calculateLockSeconds
  gcongr

theorem Waiting.claimableLater (h : Waiting maxAttempts s) : s.row.ClaimableLater maxAttempts := by
  let delay := ⌈calculateLockSeconds s.row.attempts 2⌉
  refine ⟨max (s.row.claimUntil + 1) (s.row.updatedAt + delay + 1), fun now hnow retryJitter hjitter => ?_⟩
  have hclaim : s.row.claimUntil < now := Int.lt_of_add_one_le (le_trans (le_max_left _ _) hnow)
  have hdelay : delay < now - s.row.updatedAt :=
    Int.lt_sub_left_of_add_lt (Int.lt_of_add_one_le (le_trans (le_max_right _ _) hnow))
  have hnonFinal : s.row.taskStatus.isNonFinal = true := by
    rcases h.status with hs | hs <;> rw [hs] <;> rfl
  have hretry : calculateLockSeconds s.row.attempts retryJitter < ((now - s.row.updatedAt : Int) : Rat) :=
    calc calculateLockSeconds s.row.attempts retryJitter
        ≤ calculateLockSeconds s.row.attempts 2 := calculateLockSeconds_mono _ hjitter
      _ ≤ (delay : Rat) := Int.le_ceil _
      _ < ((now - s.row.updatedAt : Int) : Rat) := by exact_mod_cast hdelay
  simp only [Row.claimable, Bool.and_eq_true, Bool.or_eq_true, decide_eq_true_eq]
  refine ⟨⟨⟨hclaim, hnonFinal⟩, h.lt.le⟩, ?_⟩
  by_cases hstatus : s.row.taskStatus = .retrying
  · refine .inl ⟨hstatus, ?_⟩
    push_cast at hretry
    exact hretry
  · exact .inr hstatus

theorem sequential_of_along (hmax : 0 < maxAttempts) {expectedTotalEntitiesToLabel now events}
    (hevents : Lib.Along (next maxAttempts excludedCount) (Retryable maxAttempts excludedCount)
      { row := Row.enqueue expectedTotalEntitiesToLabel now } events) :
    Sequential maxAttempts
      (run maxAttempts excludedCount { row := Row.enqueue expectedTotalEntitiesToLabel now } events) := by
  have hstart : Sequential maxAttempts { row := Row.enqueue expectedTotalEntitiesToLabel now } :=
    .waiting ⟨rfl, .inl rfl, rfl, hmax⟩
  have hstep : ∀ s event, Sequential maxAttempts s → Retryable maxAttempts excludedCount s event →
      True ∧ Sequential maxAttempts (next maxAttempts excludedCount s event) :=
    fun s event hs he => ⟨trivial, hs.next he⟩
  exact (Lib.Along.invariant hstep hevents hstart).2

theorem Sequential.nobody (h : Sequential maxAttempts s) (hretrying : s.row.taskStatus = .retrying) (w : WorkerId) :
    s.workers w = none := by
  cases h with
  | waiting h => exact congrFun h.workers w
  | givenUp h => exact congrFun h.workers w
  | attempting w' worker h => rcases h.status with hs | hs <;> rw [hs] at hretrying <;> cases hretrying

/-- Where the workers take turns and the processing always fails with an exception that may be retried: the task is
given up after `MAX_ATTEMPTS - 1` attempts, and whenever nobody is at it, it was given up with its last claim or can be
claimed from some time on. -/
theorem failing_task_attempts (maxAttempts excludedCount : Nat) (hmax : 0 < maxAttempts)
    (expectedTotalEntitiesToLabel : Int) (now : Time) (events : List Event)
    (hevents : Lib.Along (next maxAttempts excludedCount) (Retryable maxAttempts excludedCount)
      { row := Row.enqueue expectedTotalEntitiesToLabel now } events) :
    let s := run maxAttempts excludedCount { row := Row.enqueue expectedTotalEntitiesToLabel now } events
    (s.row.taskStatus = .failed → s.processed + 1 = maxAttempts) ∧
      ((∀ w, s.workers w = none) →
        s.row.taskStatus = .failed ∧ s.row.attempts = maxAttempts ∨
        s.row.taskStatus.isNonFinal = true ∧ s.row.attempts < maxAttempts ∧ s.row.ClaimableLater maxAttempts) := by
  intro s
  have hs : Sequential maxAttempts s := sequential_of_along hmax hevents
  cases hs with
  | waiting h =>
    refine ⟨fun hfailed => ?_, fun _ => .inr ⟨?_, h.lt, h.claimableLater⟩⟩
    · rcases h.status with hs | hs <;> rw [hs] at hfailed <;> cases hfailed
    · rcases h.status with hs | hs <;> rw [hs] <;> rfl
  | attempting w worker h =>
    refine ⟨fun hfailed => ?_, fun hnobody => ?_⟩
    · rcases h.status with hs | hs <;> rw [hs] at hfailed <;> cases hfailed
    · have hpresent : s.workers w = some worker := h.self
      rw [hnobody w] at hpresent
      cases hpresent
  | givenUp h => exact ⟨fun _ => h.begun, fun _ => .inl ⟨h.status, h.attempts⟩⟩

def twoFailures : List Event :=
  [.claim 0 (seconds 1) 1 1, .begin 0 (seconds 2), .raise 0 false "Exception('fake')" (seconds 3),
    .claim 0 (seconds 1000) 1 1, .begin 0 (seconds 1001), .raise 0 false "Exception('fake')" (seconds 1002)]

/-- With three attempts allowed, the third claim gives the task up. -/
def threeClaims : List Event :=
  twoFailures ++ [.claim 0 (seconds 2000) 1 1, .begin 0 (seconds 2001)]

theorem threeClaims_along : Lib.Along (next 3 0) (Retryable 3 0) { row := Row.enqueue 0 0 } threeClaims := by
  have hfirst : ∀ w, (run 3 0 { row := Row.enqueue 0 0 } (twoFailures.take 3)).workers w = none := by
    intro w
    cases w <;> rfl
  have htwo : Lib.Along (next 3 0) (Retryable 3 0) { row := Row.enqueue 0 0 } twoFailures :=
    ⟨fun _ => rfl, trivial, rfl, hfirst, trivial, rfl, trivial⟩
  -- The third claim is one of a task that waits, because it is retrying.
  have hretrying : (run 3 0 { row := Row.enqueue 0 0 } twoFailures).row.taskStatus = .retrying := by decide +kernel
  have hnobody := (sequential_of_along (by decide) htwo).nobody hretrying
  exact ⟨fun _ => rfl, trivial, rfl, hfirst, trivial, rfl, hnobody, trivial, trivial⟩

theorem failing_task_attempts_three :
    (run 3 0 { row := Row.enqueue 0 0 } threeClaims).row.taskStatus = .failed ∧
      (run 3 0 { row := Row.enqueue 0 0 } threeClaims).processed + 1 = 3 := by
  have hfailed : (run 3 0 { row := Row.enqueue 0 0 } threeClaims).row.taskStatus = .failed := by decide +kernel
  exact ⟨hfailed, (failing_task_attempts 3 0 (by decide) 0 0 threeClaims threeClaims_along).1 hfailed⟩

/-- The third attempt was never made. -/
theorem third_attempt_not_made :
    Lib.Along (next 3 0) (Retryable 3 0) { row := Row.enqueue 0 0 } threeClaims ∧
      (run 3 0 { row := Row.enqueue 0 0 } threeClaims).row.taskStatus = .failed ∧
      (run 3 0 { row := Row.enqueue 0 0 } threeClaims).processed = 2 :=
  ⟨threeClaims_along, by decide +kernel, by decide +kernel⟩

end Osprey.BulkLabel
