/-
A run of the executor can always be completed, and what holds of it then:
every chain of every source that was enqueued was executed once, after what
it depends on, and has a value.
-/
import Mathlib.Data.Prod.Lex
import Mathlib.Data.Fintype.Card
import Osprey.Engine.ExecutorRun

namespace Osprey.Executor

open NodeInfos (IsDone)

variable {g : ExecutionGraph} {V : Type}

section

variable {cfg : Config V} {s s' : State g V}

/-! ## Something can always be done -/

theorem isRunning_iff {n} {gl : Greenlet n V} : gl.isRunning = true ↔ gl.status = .running := by
  unfold Greenlet.isRunning
  cases gl.status <;> simp

variable {gl : Greenlet g.size V} {gls rest : List (Greenlet g.size V)}

theorem startGreenlet_ne {ctx : ExecutionContext g V} (hgls : gls = gl :: rest) (hstatus : gl.status = .spawned) :
    (startGreenlet gl.id gls ctx).2 ≠ gls := by
  intro heq
  have hgl := congrArg (List.map Greenlet.status) heq
  simp [hgls, startGreenlet, Greenlet.isSpawned, Greenlet.start, hstatus] at hgl

theorem finishGreenlet_ne {execution} (hgls : gls = gl :: rest) (hstatus : gl.status = .running) :
    (finishGreenlet gl.id execution gls).1 ≠ gls := by
  intro heq
  have hgl := congrArg (List.map Greenlet.status) heq
  simp [hgls, finishGreenlet, isRunning_iff, Greenlet.finish, hstatus] at hgl

/-- The first greenlet of a list can start or finish, unless it is ready. -/
theorem moves_or_ready {start finish : Label V} (hstart : Goes cfg s start) (hfinish : Goes cfg s finish)
    (hspawned : gl.status = .spawned → next cfg s start ≠ .ok s)
    (hrunning : gl.status = .running → next cfg s finish ≠ .ok s) :
    Moves cfg s start ∨ Moves cfg s finish ∨ gl.ready = true := by
  cases hstatus : gl.status with
  | spawned => exact .inl (hstart.resolve_left (hspawned hstatus))
  | running => exact .inr (.inl (hfinish.resolve_left (hrunning hstatus)))
  | finished results => exact .inr (.inr (by simp [Greenlet.ready, hstatus]))

theorem Inv.singlet_moves (h : Inv cfg s) (hsinglets : s.inProgressAsyncSinglets = gl :: rest)
    (outcome : Except Exc V) :
    Moves cfg s (.startSinglet gl.id) ∨ Moves cfg s (.finishSinglet gl.id outcome) ∨ gl.ready = true := by
  refine moves_or_ready (h.startSinglet gl.id) (h.finishSinglet gl.id outcome) (fun hstatus heq => ?_)
    fun hstatus heq => ?_
  · exact startGreenlet_ne hsinglets hstatus (congrArg State.inProgressAsyncSinglets (Except.ok.inj heq))
  · exact finishGreenlet_ne hsinglets hstatus (congrArg State.inProgressAsyncSinglets (Except.ok.inj heq))

theorem Inv.batch_moves (h : Inv cfg s) (hbatches : s.inProgressAsyncBatches = gl :: rest)
    (outcome : Except Exc (List (Except Exc V))) :
    Moves cfg s (.startBatch gl.id) ∨ Moves cfg s (.finishBatch gl.id outcome) ∨ gl.ready = true := by
  refine moves_or_ready (h.startBatch gl.id) (h.finishBatch gl.id outcome) (fun hstatus heq => ?_) fun hstatus heq => ?_
  · exact startGreenlet_ne hbatches hstatus (congrArg State.inProgressAsyncBatches (Except.ok.inj heq))
  · exact finishGreenlet_ne hbatches hstatus (congrArg State.inProgressAsyncBatches (Except.ok.inj heq))

/-- **No deadlock**: until the loop exits, some step brings the run closer to its end. -/
theorem Inv.exists_moves (h : Inv cfg s) (hphase : s.phase ≠ .exited) : ∃ label, Moves cfg s label := by
  let failure : Exc := ⟨.other, ""⟩
  cases hp : s.phase with
  | exited => exact absurd hp hphase
  | top readySync readyAsync => exact ⟨_, h.loop_moves hp fun _ => .error failure⟩
  | syncLoop readySync =>
    cases readySync with
    | nil => exact ⟨_, h.getReady_moves hp⟩
    | cons c readySync => exact ⟨_, h.executeSync_moves hp⟩
  | executing c readySync => exact ⟨_, h.finishSync_moves hp (.error failure)⟩
  | waiting finished =>
    cases hs : s.inProgressAsyncSinglets with
    | cons gl rest =>
      rcases h.singlet_moves hs (.error failure) with hm | hm | hready
      · exact ⟨_, hm⟩
      · exact ⟨_, hm⟩
      · have hm : Moves cfg s (.wake gl.id) := h.wake_singlet_moves hp (by simp [hs]) (by simp [hs, hready])
        exact ⟨_, hm⟩
    | nil =>
      have hne := (h.busy (.inr ⟨finished, hp⟩)).resolve_left fun hne => hne hs
      obtain ⟨gl, rest, hb⟩ := List.exists_cons_of_ne_nil hne
      rcases h.batch_moves hb (.error failure) with hm | hm | hready
      · exact ⟨_, hm⟩
      · exact ⟨_, hm⟩
      · have hm : Moves cfg s (.wake gl.id) := h.wake_batch_moves hp (by simp [hs]) (by simp [hb, hready])
        exact ⟨_, hm⟩

/-! ## A run can be completed -/

theorem Inv.passed_le (h : Inv cfg s) : s.passed ≤ g.size := by
  have hnodup : (s.pending ++ s.running ++ resolutions s.context.trace).Nodup := by
    refine List.nodup_append.mpr ⟨h.inUse.nodup, h.inUse.resolvedOnce, ?_⟩
    rintro c hc d hd rfl
    exact ((h.inUse.out c).mpr hc).not_done ((h.inUse.resolved c).mp hd)
  have hcard := hnodup.length_le_card
  simp only [List.length_append, Fintype.card_fin] at hcard
  exact hcard

/-- What is left: chains to resolve, chains to pass out, steps of greenlets, and of the main greenlet. -/
def State.left (s : State g V) : Nat ×ₗ Nat ×ₗ Nat ×ₗ Nat :=
  toLex (g.size - s.done, toLex (g.size - s.passed, toLex (s.work, s.phase.rank)))

theorem Advances.left_lt (hadv : Advances s s') (h' : Inv cfg s') : s'.left < s.left := by
  have hpassed := h'.passed_le
  have hdone : s'.done ≤ s'.passed := Nat.le_add_left _ _
  simp only [State.left, Prod.Lex.toLex_lt_toLex]
  rcases hadv with hlt | ⟨hd, hlt | ⟨hp, hlt | ⟨hw, hlt⟩⟩⟩
  · exact .inl (by omega)
  · exact .inr ⟨by rw [hd], .inl (by omega)⟩
  · exact .inr ⟨by rw [hd], .inr ⟨by rw [hp], .inl hlt⟩⟩
  · exact .inr ⟨by rw [hd], .inr ⟨by rw [hp], .inr ⟨hw, hlt⟩⟩⟩

theorem Inv.exists_exited (h : Inv cfg s) :
    ∃ (labels : List (Label V)) (s' : State g V),
      labels.foldlM (Executor.next cfg) s = .ok s' ∧ Inv cfg s' ∧ s'.phase = .exited := by
  induction hl : s.left using WellFoundedLT.induction generalizing s with
  | ind l ih =>
    subst hl
    by_cases hphase : s.phase = .exited
    · exact ⟨[], s, rfl, h, hphase⟩
    · obtain ⟨label, s₁, hs₁, h₁, hadv⟩ := h.exists_moves hphase
      obtain ⟨labels, s', hs', h', hexit⟩ := ih s₁.left (hadv.left_lt h₁) h₁ rfl
      exact ⟨label :: labels, s', by rw [List.foldlM_cons, hs₁]; exact hs', h', hexit⟩

end

/-! ## What an execution does -/

theorem run_append (cfg : Config V) (g : ExecutionGraph) (labels more : List (Label V)) :
    run cfg g (labels ++ more) = (run cfg g labels >>= fun s => more.foldlM (next cfg) s) := by
  simp only [run, List.foldlM_append, bind_assoc]

/-- **Every chain once, in order, and none lost.** Along every run of `execute`, whatever the chains
return or enqueue and in whatever order greenlets finish: nothing raises; no chain is executed or
resolved twice; a chain is executed after every chain it depends on is resolved; when the loop has
exited, the chains executed and resolved are exactly those enqueued, and each has a value. And from
wherever the run has got to, the loop can get to its exit. -/
theorem execute_each_chain_once (cfg : Config V) (g : ExecutionGraph) (labels : List (Label V)) :
    ∃ s, run cfg g labels = .ok s ∧
      (executions s.context.trace).Nodup ∧ (resolutions s.context.trace).Nodup ∧
      ExecutionContext.Ordered g s.context.trace ∧
      (s.phase = .exited → ∀ c, (c ∈ executions s.context.trace ↔ s.context.Enqueued c) ∧
        (c ∈ resolutions s.context.trace ↔ s.context.Enqueued c) ∧
        (s.context.Enqueued c → (s.context.resolvedNodeValues.get? c).isSome = true)) ∧
      ∃ more s', run cfg g (labels ++ more) = .ok s' ∧ s'.phase = .exited := by
  obtain ⟨s, hs, h⟩ := run_inv cfg g labels
  refine ⟨s, hs, h.inUse.executedOnce, h.inUse.resolvedOnce, h.inUse.ordered, ?_, ?_⟩
  · intro hexit c
    obtain ⟨hsinglets, hbatches, hready⟩ := h.exited hexit
    have hinUse : s.context.InUse [] [] := by
      have := h.inUse
      rw [State.pending, State.running, hexit, hsinglets, hbatches] at this
      exact this
    have hdone : IsDone s.context.dependencyDag.node2info c ↔ s.context.Enqueued c :=
      ⟨fun hd => (hinUse.enqueued c).mp hd.known, fun hc => hinUse.all_done hready hc⟩
    exact ⟨by simpa [hdone] using hinUse.executed c, by rw [hinUse.resolved, hdone],
      fun hc => hinUse.value c (hdone.mpr hc)⟩
  · obtain ⟨more, s', hs', -, hexit⟩ := h.exists_exited
    exact ⟨more, s', by rw [run_append, hs]; exact hs', hexit⟩

end Osprey.Executor
