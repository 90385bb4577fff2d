/-
`MultiOutputSink` (`sinks/sink/output_sink.py`): a result is pushed to every
sink that has work for it, with retries of each sink's own.

What a push raises is caught and recorded; what `will_do_work` raises is not.
-/
import Mathlib.Data.List.Basic

namespace Osprey.MultiOutputSink

/-- What a sink's code may raise. A `gevent.Timeout` is no `Exception`. -/
inductive Raised
  | exception
  | timeout
  deriving DecidableEq, Repr

/-- A sink and a result: whether it has work, and how its attempts to push end, numbered from one. -/
structure Sink where
  maxRetries : Int
  willDoWork : Except Raised Bool
  push : Nat → Except Raised Unit

/-- The retries of `_create_push_with_retry`: the last attempt, and what comes of it. Tenacity tries again after an
`Exception`, up to `stop_after_attempt`, and raises anything else at once. -/
def pushWithRetry (sink : Sink) (attempt : Nat) : Nat × Except Raised Unit :=
  match sink.push attempt with
  | .error .exception =>
    if sink.maxRetries + 1 ≤ attempt then (attempt, .error .exception) else pushWithRetry sink (attempt + 1)
  | result => (attempt, result)
termination_by (sink.maxRetries + 1 - attempt).toNat

/-- `push`: how often `push` of each sink is called, as far as the loop gets, and what is raised. -/
def push : List Sink → List Nat × Except Raised Unit
  | [] => ([], .ok ())
  | sink :: sinks =>
    match sink.willDoWork with
    | .error e => ([], .error e)
    | .ok work =>
      -- an `Exception` and a timeout are both caught
      let calls := if work then (pushWithRetry sink 1).1 else 0
      (calls :: (push sinks).1, (push sinks).2)

/-- The last attempt is the first that does not raise an `Exception`, or the one at which the retries are used up. -/
theorem pushWithRetry_eq {sink : Sink} {attempt k} (hk : attempt ≤ k)
    (hfail : ∀ j, attempt ≤ j → j < k → sink.push j = .error .exception ∧ (j : Int) < sink.maxRetries + 1)
    (hlast : sink.push k ≠ .error .exception ∨ sink.maxRetries + 1 ≤ k) :
    pushWithRetry sink attempt = (k, sink.push k) := by
  fun_induction pushWithRetry sink attempt with
  | case1 attempt he hstop =>
    obtain rfl : attempt = k := by
      by_contra hne
      have := (hfail attempt (Nat.le_refl _) (by omega)).2
      omega
    rw [he]
  | case2 attempt he hgo ih =>
    have hne : attempt ≠ k := by
      rintro rfl
      simp [he, hgo] at hlast
    exact ih (by omega) fun j hj => hfail j (by omega)
  | case3 attempt he =>
    obtain rfl : attempt = k := by
      by_contra hne
      exact he (hfail attempt (Nat.le_refl _) (by omega)).1
    rfl

/-- Every attempt that a sink is granted raises an `Exception`. -/
def Sink.KeepsFailing (sink : Sink) : Prop :=
  ∀ n : Nat, 1 ≤ n → n ≤ max 1 (sink.maxRetries + 1) → sink.push n = .error .exception

/-- The first attempt that raises no `Exception`, but succeeds or times out, is the one numbered `k`. -/
structure Sink.EndsAt (sink : Sink) (k : Nat) : Prop where
  one_le : 1 ≤ k
  granted : k ≤ max 1 (sink.maxRetries + 1)
  fail : ∀ j, 1 ≤ j → j < k → sink.push j = .error .exception
  ends : sink.push k ≠ .error .exception

theorem Sink.KeepsFailing.calls {sink : Sink} (h : sink.KeepsFailing) :
    (pushWithRetry sink 1).1 = max 1 (sink.maxRetries + 1) := by
  obtain ⟨k, hk⟩ := Int.eq_ofNat_of_zero_le (show 0 ≤ max 1 (sink.maxRetries + 1) by omega)
  rw [pushWithRetry_eq (k := k) (by omega) (fun j hj hjk => ⟨h j hj (by omega), by omega⟩) (.inr (by omega)), hk]

theorem Sink.EndsAt.calls {sink : Sink} {k} (h : sink.EndsAt k) : (pushWithRetry sink 1).1 = k := by
  have hgranted := h.granted
  rw [pushWithRetry_eq h.one_le (fun j hj hjk => ⟨h.fail j hj hjk, by omega⟩) (.inl h.ends)]

/-- Nothing is raised, and `push` of every sink with work is called: once more than it retries if it keeps failing,
else up to the attempt that ends. -/
def Isolated (sinks : List Sink) : Prop :=
  (push sinks).2 = .ok () ∧
    ∀ (i : Nat) (sink : Sink), sinks[i]? = some sink → sink.willDoWork = .ok true →
      ∃ calls, (push sinks).1[i]? = some calls ∧ 0 < calls ∧
        (sink.KeepsFailing → calls = sink.maxRetries + 1) ∧ ∀ k, sink.EndsAt k → calls = k

theorem push_spec {sinks} (h : ∀ sink ∈ sinks, ∃ work, sink.willDoWork = .ok work) :
    (push sinks).2 = .ok () ∧ ∀ (i : Nat) (sink : Sink), sinks[i]? = some sink → sink.willDoWork = .ok true →
      (push sinks).1[i]? = some (pushWithRetry sink 1).1 := by
  induction sinks with
  | nil => simp [push]
  | cons sink sinks ih =>
    rw [List.forall_mem_cons] at h
    obtain ⟨work, hwork⟩ := h.1
    simp only [push, hwork]
    refine ⟨(ih h.2).1, fun i => ?_⟩
    cases i with
    | zero => simp +contextual [hwork]
    | succ i => exact (ih h.2).2 i

theorem le_pushWithRetry (sink : Sink) (attempt : Nat) : attempt ≤ (pushWithRetry sink attempt).1 := by
  fun_induction pushWithRetry sink attempt with
  | case1 | case3 => exact Nat.le_refl _
  | case2 attempt _ _ ih => omega

theorem willDoWork_of_push {sinks} (h : (push sinks).2 = .ok ()) :
    ∀ sink ∈ sinks, ∃ work, sink.willDoWork = .ok work := by
  induction sinks with
  | nil => simp
  | cons sink sinks ih =>
    unfold push at h
    split at h
    · cases h
    · rename_i work hwork
      exact List.forall_mem_cons.mpr ⟨⟨work, hwork⟩, ih h⟩

/-- **When output sinks are isolated.** No sink keeps the result from another, and each is called as often as its
attempts ask for, exactly if no `will_do_work` raises and no sink that keeps failing has a negative `max_retries`. -/
theorem sinks_isolated_iff (sinks : List Sink) :
    Isolated sinks ↔ (∀ sink ∈ sinks, ∃ work, sink.willDoWork = .ok work) ∧
      ∀ sink ∈ sinks, sink.willDoWork = .ok true → sink.KeepsFailing → 0 ≤ sink.maxRetries := by
  constructor
  · rintro ⟨hok, hsinks⟩
    refine ⟨willDoWork_of_push hok, fun sink hmem hwork hfail => ?_⟩
    obtain ⟨i, hi⟩ := List.mem_iff_getElem?.mp hmem
    obtain ⟨calls, -, hpos, hcalls, -⟩ := hsinks i sink hi hwork
    have := hcalls hfail
    omega
  · rintro ⟨hworks, hretries⟩
    obtain ⟨hok, hcalls⟩ := push_spec hworks
    refine ⟨hok, fun i sink hi hwork => ⟨_, hcalls i sink hi hwork, le_pushWithRetry sink 1, ?_, fun k hk => hk.calls⟩⟩
    intro hfail
    have hnonneg := hretries sink (List.mem_of_getElem? hi) hwork hfail
    rw [hfail.calls]
    omega

/-- A sink that cannot tell whether it has work keeps the result from the one behind it. -/
theorem raising_sink_not_isolated :
    push [⟨0, .error .exception, fun _ => .ok ()⟩, ⟨0, .ok true, fun _ => .ok ()⟩] = ([], .error .exception) := rfl

end Osprey.MultiOutputSink
