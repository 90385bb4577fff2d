/-
The announce task of a service announcer (`discovery::announcer`), from its
start to its end, and when a stop takes effect.

One step of the task is the completion of what it awaits: a request to etcd,
the wait for a free key, or the `select!` at the end of the loop. Etcd's
answers are given in advance, in order, for each kind of request; the pauses
of the backoff end and are left out. The signals are sent between the steps.

A stop is seen at the `select!` only, and only once. So it takes effect just
if the task gets there and one of the three attempts to unregister succeeds.
-/
import Mathlib.Logic.Function.Iterate
import Mathlib.Data.List.Induction

namespace Osprey.Discovery.Announcer

/-! ## What the task meets -/

inductive Outcome
  | ok
  | ioError
  | keyNotFound
  | otherError
  deriving DecidableEq

inductive GetOutcome
  | node (hasValue : Bool)
  | keyNotFound
  | otherError
  deriving DecidableEq

def GetOutcome.free : GetOutcome → Bool
  | .node hasValue => !hasValue
  | .keyNotFound => true
  | .otherError => false

/-- `wait_for_free_key`, on the answers that come before its timeout. -/
def waitForFreeKey (gets : List GetOutcome) : Bool := gets.any GetOutcome.free

inductive Branch
  | delay
  | stop
  | drain
  deriving DecidableEq

/-- The branches in the order in which a poll tries them, from the one that it drew. -/
def Branch.order : Branch → List Branch
  | .delay => [.delay, .stop, .drain]
  | .stop => [.stop, .drain, .delay]
  | .drain => [.drain, .delay, .stop]

/-- Etcd's answers to the requests of each kind; for each `select!` the branch that its last poll draws, and whether
its delay is over by then if it had to wait. -/
structure World where
  refresh : Nat → Outcome
  gets : Nat → List GetOutcome
  register : Nat → Outcome
  unregister : Nat → Outcome
  draw : Nat → Branch
  elapsed : Nat → Bool

/-! ## The task -/

/-- A oneshot channel and its fused receiver. -/
inductive Signal
  | idle
  | sent
  | received
  deriving DecidableEq

/-- What the task awaits. A `select!` is blocked if it was already waiting when a signal came: only then can its delay
be over as well. -/
inductive Phase
  | refreshing
  | waitingForFreeKey
  | registering
  | selecting (blocked : Bool)
  | unregistering (attempt : Nat)
  | returned
  deriving DecidableEq

def Phase.signalled : Phase → Phase
  | .selecting _ => .selecting true
  | phase => phase

inductive Request
  | refresh
  | get
  | register
  | unregister
  deriving DecidableEq

def shutdownRetryAttempts : Nat := 3

/-- The task: its variables and its channels, what it awaits, how many answers of each kind it has had, and the
requests that it has issued. -/
structure Task where
  refresh : Bool
  draining : Bool
  stop : Signal
  drain : Signal
  phase : Phase
  refreshed : Nat
  waited : Nat
  registered : Nat
  unregistered : Nat
  selected : Nat
  log : List Request
  deriving DecidableEq

namespace Task

/-- What the head of the loop awaits first, and the request that it issues. `waits` says whether the configuration
has a `wait_for_free_key_timeout`. -/
def head (waits : Bool) (t : Task) : Phase × Request :=
  if t.refresh then (.refreshing, .refresh)
  else if !t.draining && waits then (.waitingForFreeKey, .get)
  else (.registering, .register)

def loopHead (waits : Bool) (t : Task) : Task :=
  { t with phase := (t.head waits).1, log := t.log ++ [(t.head waits).2] }

def start (waits draining : Bool) : Task :=
  loopHead waits ⟨false, draining, .idle, .idle, .registering, 0, 0, 0, 0, 0, []⟩

def onRefreshed (waits : Bool) (t : Task) : Outcome → Task
  | .ok => { t with phase := .selecting false }
  -- The retry does not pass the `select!`.
  | .ioError => t.loopHead waits
  | .keyNotFound | .otherError => { t with refresh := false }.loopHead waits

def onWaited (waits : Bool) (t : Task) (gets : List GetOutcome) : Task :=
  if waitForFreeKey gets then { t with phase := .registering, log := t.log ++ [.register] } else t.loopHead waits

def onRegistered (t : Task) (answer : Outcome) : Task :=
  { t with phase := .selecting false, refresh := if answer = .ok then true else t.refresh }

/-- Whether a branch is ready at the last poll of a `select!`. -/
def ready (t : Task) (blocked elapsed : Bool) : Branch → Bool
  | .delay => blocked && elapsed
  | .stop => t.stop == .sent
  | .drain => t.drain == .sent

/-- The branch that the `select!` takes: the first that is ready in the order of the poll, and else, in the end, the
delay. -/
def select (t : Task) (blocked elapsed : Bool) (draw : Branch) : Branch :=
  (draw.order.find? (t.ready blocked elapsed)).getD .delay

def onSelected (waits : Bool) (t : Task) : Branch → Task
  | .delay => t.loopHead waits
  | .stop => { t with stop := .received, phase := .unregistering 0, log := t.log ++ [.unregister] }
  | .drain => { t with drain := .received, draining := true, refresh := false }.loopHead waits

def onUnregistered (waits : Bool) (t : Task) (attempt : Nat) (answer : Outcome) : Task :=
  if answer = .ok then { t with phase := .returned }
  else if attempt + 1 < shutdownRetryAttempts then
    { t with phase := .unregistering (attempt + 1), log := t.log ++ [.unregister] }
  else t.loopHead waits

/-- `announce`, from one await to the next. -/
def step (waits : Bool) (world : World) (t : Task) : Task :=
  match t.phase with
  | .refreshing => { t with refreshed := t.refreshed + 1 }.onRefreshed waits (world.refresh t.refreshed)
  | .waitingForFreeKey => { t with waited := t.waited + 1 }.onWaited waits (world.gets t.waited)
  | .registering => { t with registered := t.registered + 1 }.onRegistered (world.register t.registered)
  | .selecting blocked =>
    { t with selected := t.selected + 1 }.onSelected waits
      (t.select blocked (world.elapsed t.selected) (world.draw t.selected))
  | .unregistering attempt =>
    { t with unregistered := t.unregistered + 1 }.onUnregistered waits attempt (world.unregister t.unregistered)
  | .returned => t

def markAsDraining (t : Task) : Task :=
  if t.drain = .idle then { t with drain := .sent, phase := t.phase.signalled } else t

/-- `stop` and `drop`: the signal is sent, and the sender of the drain signal is dropped with the announcer, which the
receiver of that signal sees as a signal too. -/
def sendStop (t : Task) : Task :=
  { t with stop := .sent, drain := if t.drain = .idle then .sent else t.drain, phase := t.phase.signalled }

end Task

/-- What happens before the stop. -/
inductive Label
  | step
  | markAsDraining

def Task.apply (waits : Bool) (world : World) (t : Task) : Label → Task
  | .step => t.step waits world
  | .markAsDraining => t.markAsDraining

/-! ## What a stop is for, and what it needs -/

/-- After the first request to unregister, none to register or to refresh is issued. -/
def QuietAfterUnregister (log : List Request) : Prop :=
  ∀ before after, log = before ++ .unregister :: after → .register ∉ after ∧ .refresh ∉ after

def Terminates (waits : Bool) (world : World) (t : Task) : Prop :=
  ∃ n, ((Task.step waits world)^[n] t).phase = .returned

def TakesEffect (waits : Bool) (world : World) (t : Task) : Prop :=
  Terminates waits world t ∧ ∀ n, QuietAfterUnregister ((Task.step waits world)^[n] t).log

def Unregisters (world : World) (attempts unregistered : Nat) : Prop :=
  ∃ k < attempts, world.unregister (unregistered + k) = .ok

/-- One of the waits from the given one on finds the key free. -/
def BecomesFree (world : World) (waited : Nat) : Prop := ∃ k, waitForFreeKey (world.gets (waited + k)) = true

/-- The refreshes do not fail with I/O errors for ever; and if the first that does not fail so is not successful, a
registration that waits for its key finds it free at some time. -/
def RefreshEnds (waits : Bool) (world : World) (t : Task) : Prop :=
  ∃ k, (∀ j < k, world.refresh (t.refreshed + j) = .ioError) ∧
    (world.refresh (t.refreshed + k) = .ok ∨
      world.refresh (t.refreshed + k) ≠ .ioError ∧ ((!t.draining && waits) = true → BecomesFree world t.waited))

def RoundEnds (waits : Bool) (world : World) (t : Task) : Prop :=
  if t.refresh then RefreshEnds waits world t else (!t.draining && waits) = true → BecomesFree world t.waited

/-- The delay of a blocked `select!` is over too when the signal comes, and is drawn first. -/
def DelayFirst (world : World) (t : Task) : Prop :=
  world.elapsed t.selected = true ∧
    (world.draw t.selected = .delay ∨ world.draw t.selected = .drain ∧ t.drain ≠ .sent)

def ReachesSelect (waits : Bool) (world : World) (t : Task) : Prop :=
  match t.phase with
  | .refreshing => RefreshEnds waits world t
  | .waitingForFreeKey => BecomesFree world t.waited
  | .selecting true => DelayFirst world t → RoundEnds waits world t
  | _ => True

/-! ## In the loop -/

/-- The task is in its loop and has not begun to unregister, or no longer does. -/
def InLoop (waits : Bool) (t : Task) : Prop :=
  match t.phase with
  | .refreshing => t.refresh = true
  | .waitingForFreeKey => t.refresh = false ∧ (!t.draining && waits) = true
  | .registering | .selecting _ => True
  | .unregistering _ | .returned => False

variable {waits : Bool} {world : World} {t : Task}

theorem Task.head_cases (waits : Bool) (t : Task) :
    (t.refresh = true ∧ t.head waits = (.refreshing, .refresh)) ∨
    (t.refresh = false ∧ (!t.draining && waits) = true ∧ t.head waits = (.waitingForFreeKey, .get)) ∨
    (t.refresh = false ∧ (!t.draining && waits) = false ∧ t.head waits = (.registering, .register)) := by
  unfold Task.head
  cases t.refresh <;> cases !t.draining && waits <;> simp

theorem inLoop_loopHead (waits : Bool) (t : Task) : InLoop waits (t.loopHead waits) := by
  rcases t.head_cases waits with ⟨h, hh⟩ | ⟨h, hw, hh⟩ | ⟨_, _, hh⟩
  · simp [InLoop, Task.loopHead, hh, h]
  · simp [InLoop, Task.loopHead, hh, h, hw]
  · simp [InLoop, Task.loopHead, hh]

theorem unregister_notMem_loopHead (h : .unregister ∉ t.log) : .unregister ∉ (t.loopHead waits).log := by
  rcases t.head_cases waits with ⟨_, hh⟩ | ⟨_, _, hh⟩ | ⟨_, _, hh⟩ <;> simp [Task.loopHead, hh, h]

variable {s : Task}

theorem loopHead_stays (hs : s.stop = t.stop) (hl : s.log = t.log) :
    InLoop waits (s.loopHead waits) ∧ (s.loopHead waits).stop = t.stop ∧
      (.unregister ∉ t.log → .unregister ∉ (s.loopHead waits).log) :=
  ⟨inLoop_loopHead .., hs, fun h => unregister_notMem_loopHead (hl ▸ h)⟩

theorem InLoop.signalled (h : InLoop waits t) (hr : s.refresh = t.refresh) (hd : s.draining = t.draining)
    (hp : s.phase = t.phase.signalled) : InLoop waits s := by
  unfold InLoop at h ⊢
  rw [hp, hr, hd]
  cases hphase : t.phase <;> simp_all [Phase.signalled]

variable {blocked elapsed : Bool} {draw : Branch}

theorem Task.ready_of_select {branch} (h : t.select blocked elapsed draw = branch) (hne : branch ≠ .delay) :
    t.ready blocked elapsed branch = true := by
  unfold Task.select at h
  cases hf : draw.order.find? (t.ready blocked elapsed) with
  | none => simp [hf, hne.symm] at h
  | some b =>
    obtain rfl : b = branch := by simpa [hf] using h
    exact List.find?_some hf

/-- **A task that no stop is sent to stays in its loop.** -/
theorem InLoop.step (h : InLoop waits t) (hs : t.stop ≠ .sent) (world : World) :
    InLoop waits (t.step waits world) ∧ (t.step waits world).stop = t.stop ∧
      (.unregister ∉ t.log → .unregister ∉ (t.step waits world).log) := by
  unfold Task.step
  cases hp : t.phase with
  | refreshing =>
    cases world.refresh t.refreshed with
    | ok => exact ⟨trivial, rfl, id⟩
    | ioError | keyNotFound | otherError => exact loopHead_stays rfl rfl
  | waitingForFreeKey =>
    dsimp only [Task.onWaited]
    split
    · exact ⟨trivial, rfl, fun hl => by simpa using hl⟩
    · exact loopHead_stays rfl rfl
  | registering => exact ⟨trivial, rfl, id⟩
  | selecting blocked =>
    dsimp only
    cases hb : t.select blocked (world.elapsed t.selected) (world.draw t.selected) with
    | stop => exact absurd (Task.ready_of_select hb (by decide)) (by simp [Task.ready, hs])
    | delay | drain => exact loopHead_stays rfl rfl
  | unregistering | returned => simp [InLoop, hp] at h

theorem inLoop_run (waits draining : Bool) (world : World) (labels : List Label) :
    let t := labels.foldl (Task.apply waits world) (Task.start waits draining)
    InLoop waits t ∧ t.stop ≠ .sent ∧ .unregister ∉ t.log := by
  induction labels using List.reverseRecOn with
  | nil => exact ⟨inLoop_loopHead .., by simp [Task.start, Task.loopHead], unregister_notMem_loopHead (by simp)⟩
  | append_singleton labels label ih =>
    obtain ⟨hin, hstop, hlog⟩ := ih
    simp only [List.foldl_append, List.foldl_cons, List.foldl_nil]
    cases label with
    | step =>
      obtain ⟨hin', hstop', hlog'⟩ := hin.step hstop world
      exact ⟨hin', by rw [Task.apply, hstop']; exact hstop, hlog' hlog⟩
    | markAsDraining =>
      dsimp only [Task.apply, Task.markAsDraining]
      split
      · exact ⟨hin.signalled rfl rfl rfl, hstop, hlog⟩
      · exact ⟨hin, hstop, hlog⟩

/-! ## One step at a time -/

theorem terminates_step : Terminates waits world t ↔ Terminates waits world (t.step waits world) := by
  constructor
  · rintro ⟨_ | n, hn⟩
    · refine ⟨0, ?_⟩
      simp only [Function.iterate_zero, id] at hn ⊢
      rw [Task.step, hn]
      exact hn
    · exact ⟨n, hn⟩
  · rintro ⟨n, hn⟩
    exact ⟨n + 1, hn⟩

theorem takesEffect_step (h : QuietAfterUnregister t.log) :
    TakesEffect waits world t ↔ TakesEffect waits world (t.step waits world) := by
  refine and_congr terminates_step ⟨fun hq n => hq (n + 1), fun hq n => ?_⟩
  cases n with
  | zero => exact h
  | succ n => exact hq n

theorem quiet_of_notMem {log} (h : .unregister ∉ log) : QuietAfterUnregister log := by
  rintro before after rfl
  simp at h

theorem not_terminates_of_received (h : InLoop waits t) (hs : t.stop = .received) : ¬ Terminates waits world t := by
  rintro ⟨n, hn⟩
  induction n generalizing t with
  | zero => simp [InLoop, show t.phase = .returned from hn] at h
  | succ n ih =>
    obtain ⟨hin, hstop, _⟩ := h.step (by simp [hs]) world
    exact ih hin (hstop.trans hs) hn

theorem quiet_snoc {log} (h : QuietAfterUnregister log) :
    QuietAfterUnregister (log ++ [.unregister]) := by
  intro before after he
  rcases List.eq_nil_or_concat after with rfl | ⟨rest, last, rfl⟩
  · simp
  · rw [List.concat_eq_append, ← List.cons_append, ← List.append_assoc] at he
    obtain ⟨hlog, hlast⟩ := List.append_inj' he rfl
    obtain rfl : .unregister = last := by simpa using hlast
    simpa using h before rest hlog

theorem step_returned (h : t.phase = .returned) : t.step waits world = t := by simp [Task.step, h]

theorem takesEffect_of_returned (h : t.phase = .returned) (hq : QuietAfterUnregister t.log) :
    TakesEffect waits world t := by
  refine ⟨⟨0, h⟩, fun n => ?_⟩
  rw [Function.iterate_fixed (step_returned h)]
  exact hq

/-! ## To unregister -/

theorem unregisters_succ {attempts unregistered} :
    Unregisters world (attempts + 1) unregistered ↔
      world.unregister unregistered = .ok ∨ Unregisters world attempts (unregistered + 1) := by
  constructor
  · rintro ⟨_ | k, hk, hok⟩
    · exact .inl hok
    · exact .inr ⟨k, by omega, by rwa [Nat.add_right_comm, Nat.add_assoc]⟩
  · rintro (hok | ⟨k, hk, hok⟩)
    · exact ⟨0, by omega, hok⟩
    · exact ⟨k + 1, by omega, by rwa [← Nat.add_assoc, Nat.add_right_comm]⟩

/-- **The attempts to unregister end the task if one succeeds; if none does, the task is back in its loop and the
signal is lost.** -/
theorem takesEffect_unregistering {attempts attempt} (ha : attempts + attempt = shutdownRetryAttempts)
    (hlt : attempt < shutdownRetryAttempts) (hp : t.phase = .unregistering attempt) (hs : t.stop = .received)
    (hq : QuietAfterUnregister t.log) :
    TakesEffect waits world t ↔ Unregisters world attempts t.unregistered := by
  induction attempts generalizing t attempt with
  | zero => omega
  | succ attempts ih =>
    rw [takesEffect_step hq, unregisters_succ]
    simp only [Task.step, hp, Task.onUnregistered]
    by_cases hok : world.unregister t.unregistered = .ok
    · simp only [hok, if_true, true_or, iff_true]
      exact takesEffect_of_returned rfl hq
    simp only [hok, if_false, false_or]
    by_cases hnext : attempt + 1 < shutdownRetryAttempts
    · rw [if_pos hnext]
      exact ih (by omega) hnext rfl hs (quiet_snoc hq)
    · -- The last attempt has failed.
      rw [if_neg hnext]
      obtain rfl : attempts = 0 := by omega
      refine iff_of_false (fun h => absurd h.1 (not_terminates_of_received (inLoop_loopHead ..) hs)) ?_
      rintro ⟨k, hk, _⟩
      omega

/-! ## From a signal to the `select!` that sees it -/

/-- A stop has been sent and not been seen. -/
structure Signalled (t : Task) : Prop where
  sent : t.stop = .sent
  fresh : .unregister ∉ t.log

theorem Signalled.quiet (h : Signalled t) : QuietAfterUnregister t.log := quiet_of_notMem h.fresh

theorem Signalled.loopHead (h : Signalled t) (hs : s.stop = t.stop) (hl : s.log = t.log) :
    Signalled (s.loopHead waits) :=
  ⟨hs.trans h.sent, unregister_notMem_loopHead (hl ▸ h.fresh)⟩

theorem Task.select_eq_delay (hs : t.stop = .sent) :
    t.select blocked elapsed draw = .delay ↔
      blocked = true ∧ elapsed = true ∧ (draw = .delay ∨ draw = .drain ∧ t.drain ≠ .sent) := by
  cases draw <;> cases blocked <;> cases elapsed <;> cases hd : t.drain <;>
    simp [Task.select, Branch.order, Task.ready, hs, hd]

theorem takesEffect_of_stop (h : Signalled t) (hp : t.phase = .selecting blocked)
    (hb : t.select blocked (world.elapsed t.selected) (world.draw t.selected) = .stop) :
    TakesEffect waits world t ↔ Unregisters world shutdownRetryAttempts t.unregistered := by
  rw [takesEffect_step h.quiet]
  simp only [Task.step, hp, hb, Task.onSelected]
  exact takesEffect_unregistering rfl (by decide) rfl rfl (quiet_snoc h.quiet)

theorem takesEffect_drained (h : Signalled t) (hp : t.phase = .registering) (hd : t.drain ≠ .sent) :
    TakesEffect waits world t ↔ Unregisters world shutdownRetryAttempts t.unregistered := by
  rw [takesEffect_step h.quiet]
  simp only [Task.step, hp, Task.onRegistered]
  refine takesEffect_of_stop ⟨h.sent, h.fresh⟩ rfl ?_
  generalize hb : Task.select _ _ _ _ = branch
  cases branch with
  | stop => rfl
  | delay => exact absurd ((Task.select_eq_delay h.sent).1 hb).1 (by simp)
  | drain => exact absurd (Task.ready_of_select hb (by decide)) (by simp [Task.ready, hd])

theorem takesEffect_selecting (h : Signalled t) (hp : t.phase = .selecting blocked)
    (hb : t.select blocked (world.elapsed t.selected) (world.draw t.selected) ≠ .delay) :
    TakesEffect waits world t ↔ Unregisters world shutdownRetryAttempts t.unregistered := by
  generalize hbranch : t.select blocked (world.elapsed t.selected) (world.draw t.selected) = branch at hb
  cases branch with
  | delay => exact absurd rfl hb
  | stop => exact takesEffect_of_stop h hp hbranch
  | drain =>
    rw [takesEffect_step h.quiet]
    simp only [Task.step, hp, hbranch, Task.onSelected]
    exact takesEffect_drained (h.loopHead rfl rfl) (by simp [Task.loopHead, Task.head]) (by simp [Task.loopHead])

theorem takesEffect_unblocked (h : Signalled t) (hp : t.phase = .selecting false) :
    TakesEffect waits world t ↔ Unregisters world shutdownRetryAttempts t.unregistered :=
  takesEffect_selecting h hp fun hb => absurd ((Task.select_eq_delay h.sent).1 hb).1 (by simp)

theorem takesEffect_registering (h : Signalled t) (hp : t.phase = .registering) :
    TakesEffect waits world t ↔ Unregisters world shutdownRetryAttempts t.unregistered := by
  rw [takesEffect_step h.quiet]
  simp only [Task.step, hp, Task.onRegistered]
  exact takesEffect_unblocked ⟨h.sent, h.fresh⟩ rfl

/-! ## The waits before the `select!` -/

theorem step_waiting (hp : t.phase = .waitingForFreeKey) (hin : InLoop waits t) :
    t.step waits world =
      if waitForFreeKey (world.gets t.waited) then
        { t with waited := t.waited + 1, phase := .registering, log := t.log ++ [.register] }
      else { t with waited := t.waited + 1, phase := .waitingForFreeKey, log := t.log ++ [.get] } := by
  obtain ⟨hr, hw⟩ : t.refresh = false ∧ (!t.draining && waits) = true := by simpa [InLoop, hp] using hin
  simp [Task.step, hp, Task.onWaited, Task.loopHead, Task.head, hr, hw]

theorem not_terminates_waiting (hp : t.phase = .waitingForFreeKey) (hin : InLoop waits t)
    (hfree : ¬ BecomesFree world t.waited) : ¬ Terminates waits world t := by
  rintro ⟨n, hn⟩
  induction n generalizing t with
  | zero => simp [hp] at hn
  | succ n ih =>
    have hnow : ¬waitForFreeKey (world.gets t.waited) = true := fun hnow => hfree ⟨0, hnow⟩
    rw [Function.iterate_succ_apply, step_waiting hp hin, if_neg hnow] at hn
    refine ih rfl (by simpa [InLoop, hp] using hin) ?_ hn
    rintro ⟨k, hk⟩
    exact hfree ⟨k + 1, by rwa [← Nat.add_assoc, Nat.add_right_comm]⟩

/-- **A task that waits for its key gets to the `select!` just if the key is free at some time.** -/
theorem takesEffect_waiting (h : Signalled t) (hp : t.phase = .waitingForFreeKey) (hin : InLoop waits t) :
    TakesEffect waits world t ↔
      BecomesFree world t.waited ∧ Unregisters world shutdownRetryAttempts t.unregistered := by
  by_cases hfree : BecomesFree world t.waited
  · rw [and_iff_right hfree]
    obtain ⟨k, hk⟩ := hfree
    induction k generalizing t with
    | zero =>
      rw [Nat.add_zero] at hk
      rw [takesEffect_step h.quiet, step_waiting hp hin, if_pos hk]
      exact takesEffect_registering ⟨h.sent, by simpa using h.fresh⟩ rfl
    | succ k ih =>
      rw [takesEffect_step h.quiet, step_waiting hp hin]
      split
      · exact takesEffect_registering ⟨h.sent, by simpa using h.fresh⟩ rfl
      · refine ih ⟨h.sent, by simpa using h.fresh⟩ rfl (by simpa [InLoop, hp] using hin) ?_
        rwa [Nat.add_right_comm, Nat.add_assoc]
  · exact iff_of_false (fun he => not_terminates_waiting hp hin hfree he.1) fun he => hfree he.1

theorem takesEffect_head (h : Signalled t) (hr : t.refresh = false) :
    TakesEffect waits world (t.loopHead waits) ↔
      ((!t.draining && waits) = true → BecomesFree world t.waited) ∧
        Unregisters world shutdownRetryAttempts t.unregistered := by
  have hloop : Signalled (t.loopHead waits) := h.loopHead rfl rfl
  rcases t.head_cases waits with ⟨hr', _⟩ | ⟨_, hw, hh⟩ | ⟨_, hw, hh⟩
  · simp [hr] at hr'
  · simp only [hw, true_imp_iff]
    exact takesEffect_waiting hloop (by rw [Task.loopHead, hh]) (inLoop_loopHead ..)
  · simp only [hw, Bool.false_eq_true, false_imp_iff, true_and]
    exact takesEffect_registering hloop (by rw [Task.loopHead, hh])

theorem refreshEnds_ok (he : world.refresh t.refreshed = .ok) : RefreshEnds waits world t :=
  ⟨0, by simp, .inl he⟩

theorem refreshEnds_failed (hok : world.refresh t.refreshed ≠ .ok) (hio : world.refresh t.refreshed ≠ .ioError) :
    RefreshEnds waits world t ↔ ((!t.draining && waits) = true → BecomesFree world t.waited) := by
  constructor
  · rintro ⟨_ | k, hj, hk⟩
    · exact (hk.resolve_left hok).2
    · exact absurd (hj 0 (by omega)) hio
  · exact fun h => ⟨0, by simp, .inr ⟨hio, h⟩⟩

def Task.refreshAgain (t : Task) : Task := { t with refreshed := t.refreshed + 1, log := t.log ++ [.refresh] }

theorem step_ioError (hp : t.phase = .refreshing) (hr : t.refresh = true)
    (he : world.refresh t.refreshed = .ioError) :
    t.step waits world = t.refreshAgain := by
  simp [Task.step, hp, he, Task.onRefreshed, Task.loopHead, Task.head, hr, Task.refreshAgain]

theorem refreshEnds_ioError (he : world.refresh t.refreshed = .ioError) :
    RefreshEnds waits world t ↔ RefreshEnds waits world t.refreshAgain := by
  unfold RefreshEnds Task.refreshAgain
  constructor
  · rintro ⟨_ | k, hio, hk⟩
    · simp [he] at hk
    · simp only [Nat.add_right_comm _ 1, Nat.add_assoc]
      exact ⟨k, fun j hj => hio (j + 1) (by omega), hk⟩
  · rintro ⟨k, hio, hk⟩
    simp only [Nat.add_right_comm _ 1, Nat.add_assoc] at hio hk
    refine ⟨k + 1, fun j hj => ?_, hk⟩
    cases j with
    | zero => exact he
    | succ j => exact hio j (by omega)

theorem not_terminates_refreshing (hp : t.phase = .refreshing) (hr : t.refresh = true)
    (hio : ∀ k, world.refresh (t.refreshed + k) = .ioError) : ¬ Terminates waits world t := by
  rintro ⟨n, hn⟩
  induction n generalizing t with
  | zero => simp [hp] at hn
  | succ n ih =>
    rw [Function.iterate_succ_apply, step_ioError hp hr (hio 0)] at hn
    refine ih (t := t.refreshAgain) hp hr (fun k => ?_) hn
    rw [Task.refreshAgain, Nat.add_assoc, Nat.add_comm 1]
    exact hio (k + 1)

theorem takesEffect_refreshed (h : Signalled t) (hp : t.phase = .refreshing)
    (hio : world.refresh t.refreshed ≠ .ioError) :
    TakesEffect waits world t ↔
      RefreshEnds waits world t ∧ Unregisters world shutdownRetryAttempts t.unregistered := by
  rw [takesEffect_step h.quiet]
  by_cases hok : world.refresh t.refreshed = .ok
  · rw [and_iff_right (refreshEnds_ok hok)]
    simp only [Task.step, hp, hok, Task.onRefreshed]
    exact takesEffect_unblocked ⟨h.sent, h.fresh⟩ rfl
  · rw [refreshEnds_failed hok hio]
    cases he : world.refresh t.refreshed with
    | ok => exact absurd he hok
    | ioError => exact absurd he hio
    | keyNotFound | otherError =>
      simp only [Task.step, hp, he, Task.onRefreshed]
      exact takesEffect_head ⟨h.sent, h.fresh⟩ rfl

/-- **A task that refreshes gets to the `select!` just if the refreshes end.** -/
theorem takesEffect_refreshing (h : Signalled t) (hp : t.phase = .refreshing) (hr : t.refresh = true) :
    TakesEffect waits world t ↔
      RefreshEnds waits world t ∧ Unregisters world shutdownRetryAttempts t.unregistered := by
  by_cases hio : ∀ k, world.refresh (t.refreshed + k) = .ioError
  · refine iff_of_false (fun he => not_terminates_refreshing hp hr hio he.1) ?_
    rintro ⟨⟨k, _, hk⟩, _⟩
    simp [hio k] at hk
  · obtain ⟨k, hk⟩ := not_forall.1 hio
    clear hio
    -- By induction on the refreshes that are left before one that is not an I/O error.
    induction k generalizing t with
    | zero => exact takesEffect_refreshed h hp hk
    | succ k ih =>
      by_cases he : world.refresh t.refreshed = .ioError
      · rw [takesEffect_step h.quiet, step_ioError hp hr he, refreshEnds_ioError he]
        refine ih (t := t.refreshAgain) ⟨h.sent, by simpa [Task.refreshAgain] using h.fresh⟩ hp hr ?_
        rwa [Task.refreshAgain, Nat.add_right_comm, Nat.add_assoc]
      · exact takesEffect_refreshed h hp he

theorem takesEffect_loopHead (h : Signalled t) :
    TakesEffect waits world (t.loopHead waits) ↔
      RoundEnds waits world t ∧ Unregisters world shutdownRetryAttempts t.unregistered := by
  unfold RoundEnds
  cases hr : t.refresh with
  | false => simpa using takesEffect_head h hr
  | true =>
    have hhead : t.head waits = (.refreshing, .refresh) := by simp [Task.head, hr]
    simp only [if_true]
    exact takesEffect_refreshing (h.loopHead rfl rfl) (by rw [Task.loopHead, hhead]) hr

/-! ## When a stop takes effect -/

theorem takesEffect_iff (h : Signalled t) (hin : InLoop waits t) :
    TakesEffect waits world t ↔
      ReachesSelect waits world t ∧ Unregisters world shutdownRetryAttempts t.unregistered := by
  unfold ReachesSelect
  cases hp : t.phase with
  | refreshing => exact takesEffect_refreshing h hp (by simpa [InLoop, hp] using hin)
  | waitingForFreeKey => exact takesEffect_waiting h hp hin
  | registering => simpa using takesEffect_registering h hp
  | selecting blocked =>
    by_cases hb : t.select blocked (world.elapsed t.selected) (world.draw t.selected) = .delay
    · obtain ⟨rfl, hdelay⟩ := (Task.select_eq_delay h.sent).1 hb
      have hfirst : DelayFirst world t := hdelay
      simp only [hfirst, true_imp_iff]
      rw [takesEffect_step h.quiet]
      simp only [Task.step, hp, hb, Task.onSelected]
      exact takesEffect_loopHead (t := { t with selected := t.selected + 1 }) ⟨h.sent, h.fresh⟩
    · rw [takesEffect_selecting h hp hb, iff_and_self]
      intro _
      cases blocked with
      | false => trivial
      | true => exact fun hfirst => absurd ((Task.select_eq_delay h.sent).2 ⟨rfl, hfirst⟩) hb
  | unregistering | returned => simp [InLoop, hp] at hin

/-- **When a stop takes effect.** Whatever the configuration, etcd's answers and the branches of the `select!`s,
and whenever the announcer is marked as draining and stopped or dropped: the task ends, and neither registers nor
refreshes after it began to unregister, if and only if it comes to a `select!` after the stop and one of the three
attempts to unregister there succeeds. -/
theorem stop_takes_effect_iff (waits draining : Bool) (world : World) (labels : List Label) :
    let t := (labels.foldl (Task.apply waits world) (Task.start waits draining)).sendStop
    TakesEffect waits world t ↔
      ReachesSelect waits world t ∧ Unregisters world shutdownRetryAttempts t.unregistered := by
  obtain ⟨hin, _, hlog⟩ := inLoop_run waits draining world labels
  exact takesEffect_iff ⟨rfl, hlog⟩ (hin.signalled rfl rfl rfl)

def refusing : World where
  refresh _ := .ok
  gets _ := []
  register _ := .ok
  unregister _ := .otherError
  draw _ := .stop
  elapsed _ := false

/-- Etcd cannot be reached once the service is registered. -/
def cutOff : World where
  refresh _ := .ioError
  gets _ := []
  register _ := .ok
  unregister _ := .ok
  draw _ := .stop
  elapsed _ := false

def stoppedAfter (world : World) (labels : List Label) : Task :=
  (labels.foldl (Task.apply false world) (Task.start false false)).sendStop

/-- A stop that is not heard, since the refreshes fail, and one that is heard and lost: there the task refreshes
the key that it failed to remove. -/
theorem stop_lost :
    ¬ Terminates false cutOff (stoppedAfter cutOff [.step, .step]) ∧
    ¬ Terminates false refusing (stoppedAfter refusing [.step]) ∧
    ¬ QuietAfterUnregister ((Task.step false refusing)^[4] (stoppedAfter refusing [.step])).log := by
  refine ⟨not_terminates_refreshing rfl rfl fun _ => rfl, ?_, fun hquiet => ?_⟩
  · rw [terminates_step, terminates_step, terminates_step, terminates_step]
    exact not_terminates_of_received rfl rfl
  · have hafter := hquiet [.register] [.unregister, .unregister, .refresh] (by decide)
    exact hafter.2 (by decide)

end Osprey.Discovery.Announcer
