/-
Runs of the executor. Every step keeps that the chains in the executor's
hands are exactly those passed out and not resolved, each of them in one
place. From that a run never raises, executes no chain twice, executes none
before what it depends on is resolved, and forgets none; and every step
brings it closer to its end.
-/
import Osprey.Engine.ExecutorSteps

namespace Osprey.Executor

open Lib (Dict)

variable {g : ExecutionGraph} {V : Type}

/-! ## The invariant -/

/-- The context agrees with the chains in the executor's hands. -/
structure Core (s : State g V) : Prop where
  inUse : s.context.InUse s.pending s.running
  singlets : WellFinished s.inProgressAsyncSinglets
  batches : WellFinished s.inProgressAsyncBatches
  nonempty : ∀ gl ∈ s.inProgressAsyncSinglets ++ s.inProgressAsyncBatches, gl.chains ≠ []

structure Inv (cfg : Config V) (s : State g V) : Prop extends Core s where
  exited : s.phase = .exited → s.inProgressAsyncSinglets = [] ∧ s.inProgressAsyncBatches = [] ∧
    s.context.dependencyDag.readyNodes = []
  /-- When there is nothing to do but wait, there is something to wait for. -/
  busy : s.phase = .top [] [] ∨ (∃ finished, s.phase = .waiting finished) →
    s.inProgressAsyncSinglets ≠ [] ∨ s.inProgressAsyncBatches ≠ []
  noPool : cfg.allowAsync = false → ∀ readySync readyAsync, s.phase = .top readySync readyAsync → readyAsync = []

/-! ## Progress -/

def State.done (s : State g V) : Nat := doneCount s.context

def State.passed (s : State g V) : Nat := s.pending.length + s.running.length + s.done

/-- The steps that the greenlets, and the asynchronous chains about to get one, have before them. -/
def State.work (s : State g V) : Nat :=
  workOf s.inProgressAsyncSinglets + workOf s.inProgressAsyncBatches + 3 * match s.phase with
    | .top _ readyAsync => readyAsync.length
    | _ => 0

/-- How far the main greenlet is from the point where a chain is resolved or it waits. -/
def Phase.rank {n : Nat} : Phase n → Nat
  | top readySync readyAsync => if readySync.isEmpty && readyAsync.isEmpty then 1 else 5
  | syncLoop readySync => if readySync.isEmpty then 2 else 4
  | executing .. => 3
  | waiting _ | exited => 0

/-- A chain more is resolved, or passed out, or a greenlet has moved, or the main greenlet. -/
def Advances (s s' : State g V) : Prop :=
  s.done < s'.done ∨ s'.done = s.done ∧ (s.passed < s'.passed ∨ s'.passed = s.passed ∧
    (s'.work < s.work ∨ s'.work = s.work ∧ s'.phase.rank < s.phase.rank))

/-! ## Parts of a step, on states -/

structure Handled (pickSinglet pickBatch : Nat → Bool) (s s' : State g V) : Prop where
  core : Core s'
  phase : s'.phase = s.phase
  le : s.done ≤ s'.done
  passed : s'.passed = s.passed
  work : s'.work = s.work
  ltSinglet : ∀ gl ∈ s.inProgressAsyncSinglets, pickSinglet gl.id = true → gl.ready = true → s.done < s'.done
  ltBatch : ∀ gl ∈ s.inProgressAsyncBatches, pickBatch gl.id = true → gl.ready = true → s.done < s'.done

theorem handleFinished_spec {s : State g V} (h : Core s) (pickSinglet pickBatch : Nat → Bool) :
    ∃ s', handleFinished s pickSinglet pickBatch = .ok s' ∧ Handled pickSinglet pickBatch s s' := by
  have hsinglets : s.context.InUse s.pending
      (runningOf s.inProgressAsyncSinglets ++ (runningOf s.inProgressAsyncBatches ++ s.phase.running)) := by
    refine h.inUse.perm (.refl _) (List.perm_iff_count.mpr fun a => ?_)
    simp only [State.running, List.count_append]
    omega
  obtain ⟨ctx₁, singlets, hpop₁, hp₁⟩ := popFinished_inUse pickSinglet _ h.singlets hsinglets
  have hbatches : ctx₁.InUse s.pending
      (runningOf s.inProgressAsyncBatches ++ (runningOf singlets ++ s.phase.running)) := by
    refine hp₁.inUse.perm (.refl _) (List.perm_iff_count.mpr fun a => ?_)
    simp only [List.count_append]
    omega
  obtain ⟨ctx₂, batches, hpop₂, hp₂⟩ := popFinished_inUse pickBatch _ h.batches hbatches
  have hle₁ := hp₁.le
  have hle₂ := hp₂.le
  refine ⟨{ s with context := ctx₂, inProgressAsyncSinglets := singlets, inProgressAsyncBatches := batches }, ?_, ?_⟩
  · simp only [handleFinished, hpop₁, hpop₂, ok_bind]
    rfl
  refine ⟨⟨?_, hp₁.finished, hp₂.finished, ?_⟩, rfl, Nat.le_trans hle₁ hle₂, ?_, ?_, ?_, ?_⟩
  · have hrun : (runningOf batches ++ (runningOf singlets ++ s.phase.running)).Perm
        (s.phase.running ++ (runningOf singlets ++ runningOf batches)) := by
      refine List.perm_iff_count.mpr fun a => ?_
      simp only [List.count_append]
      omega
    simpa only [State.pending, State.running, hp₁.pendingOf, hp₂.pendingOf] using hp₂.inUse.perm (.refl _) hrun
  · intro gl hmem
    refine h.nonempty gl ?_
    rcases List.mem_append.mp hmem with hmem | hmem
    · exact List.mem_append_left _ (hp₁.sublist.subset hmem)
    · exact List.mem_append_right _ (hp₂.sublist.subset hmem)
  · have hc₁ := hp₁.count
    have hc₂ := hp₂.count
    simp only [State.passed, State.pending, State.running, State.done, List.length_append, hp₁.pendingOf,
      hp₂.pendingOf]
    omega
  · simp only [State.work, hp₁.work, hp₂.work]
  · intro gl hmem hpick hready
    exact Nat.lt_of_lt_of_le (hp₁.lt gl hmem hpick hready (h.nonempty gl (List.mem_append_left _ hmem))) hle₂
  · intro gl hmem hpick hready
    exact Nat.lt_of_le_of_lt hle₁ (hp₂.lt gl hmem hpick hready (h.nonempty gl (List.mem_append_right _ hmem)))

/-- What `_enqueue_batches` and the loop after it do to a state whose ready chains are given: the
asynchronous ones get greenlets, the others are left to the loop over them. -/
structure EnqueuedAsync (readySync readyAsync : List (Fin g.size)) (s s' : State g V) : Prop where
  core : Core { s' with phase := .syncLoop readySync }
  le : s.done ≤ s'.done
  passed : State.passed { s' with phase := .syncLoop readySync } = s.passed
  work : workOf s'.inProgressAsyncSinglets + workOf s'.inProgressAsyncBatches
    ≤ workOf s.inProgressAsyncSinglets + workOf s.inProgressAsyncBatches + 2 * readyAsync.length

theorem flatten_map_singleton {α : Type} (l : List α) : (l.map ([·])).flatten = l := by
  rw [← List.flatMap_def, List.flatMap_singleton']

theorem length_le_length_flatten {α : Type} : ∀ (ls : List (List α)),
    (∀ l ∈ ls, l ≠ []) → ls.length ≤ ls.flatten.length
  | [], _ => le_rfl
  | l :: ls, h => by
    have hl := List.length_pos_iff.mpr (h l (by simp))
    have hls := length_le_length_flatten ls fun l' hl' => h l' (by simp [hl'])
    simp only [List.length_cons, List.flatten_cons, List.length_append]
    omega

theorem batches_ne_nil {b : Batching g V} : ∀ chains ∈ b.batches, chains ≠ [] := by
  rintro chains hmem rfl
  simp [Batching.batches] at hmem

variable {readySync readyAsync : List (Fin g.size)}

theorem enqueueAsync_spec {s : State g V} (h : Core s)
    (hphase : s.phase = .top readySync readyAsync) (routingKey : Nat → Except Exc String) :
    ∃ s', enqueueAsync s routingKey readyAsync = .ok s' ∧ EnqueuedAsync readySync readyAsync s s' := by
  have hpend : s.pending = readySync ++ readyAsync ++
      (pendingOf s.inProgressAsyncSinglets ++ pendingOf s.inProgressAsyncBatches) := by
    rw [State.pending, hphase]
    rfl
  have hrun : s.running = runningOf s.inProgressAsyncSinglets ++ runningOf s.inProgressAsyncBatches := by
    rw [State.running, hphase]
    rfl
  have hinUse := h.inUse
  rw [hpend, hrun] at hinUse
  have hnodup : readyAsync.Nodup := by
    have := hinUse.nodup
    simp only [List.nodup_append] at this
    exact this.1.1.2.1
  have haside : s.context.InUse
      (readyAsync ++ (readySync ++ (pendingOf s.inProgressAsyncSinglets ++ pendingOf s.inProgressAsyncBatches)))
      (runningOf s.inProgressAsyncSinglets ++ runningOf s.inProgressAsyncBatches) := by
    refine hinUse.perm (List.perm_iff_count.mpr fun a => ?_) (.refl _)
    simp only [List.count_append]
    omega
  obtain ⟨b, hb, hgroup⟩ := groupBatches_spec routingKey readyAsync
    ⟨s.context, s.errorInfos, Dict.empty, []⟩ haside
  have hkept := batches_append_remaining routingKey hnodup rfl rfl hgroup
  have hcount : doneCount b.context = s.done + _ := hgroup.count
  have hlen := List.length_eq_length_filter_add (l := readyAsync) (argumentsFail routingKey)
  have hkeptLen := hkept.length_eq
  have hbatchLen := length_le_length_flatten b.batches batches_ne_nil
  refine ⟨_, by rw [enqueueAsync, hb]; rfl, ⟨?_, ?_, ?_, ?_⟩, ?_, ?_, ?_⟩
  · simp only [State.pending, State.running, Phase.pending, Phase.running, pendingOf_append, runningOf_append,
      pendingOf_spawn, runningOf_spawn, flatten_map_singleton, List.append_nil, List.nil_append]
    refine hgroup.inUse.perm (List.perm_iff_count.mpr fun a => ?_) (.refl _)
    have := hkept.count_eq a
    simp only [List.count_append] at this ⊢
    omega
  · exact h.singlets.append (wellFinished_spawn _ _)
  · exact h.batches.append (wellFinished_spawn _ _)
  · intro gl hmem
    simp only [List.mem_append] at hmem
    rcases hmem with (hmem | hmem) | (hmem | hmem)
    · exact h.nonempty gl (List.mem_append_left _ hmem)
    · obtain ⟨c, -, hc⟩ := List.mem_map.mp (isSpawned_of_mem_spawn hmem).2
      rw [← hc]
      simp
    · exact h.nonempty gl (List.mem_append_right _ hmem)
    · exact batches_ne_nil _ (isSpawned_of_mem_spawn hmem).2
  · simp only [State.done] at hcount ⊢
    omega
  · rw [State.passed, State.passed, hpend, hrun]
    simp only [State.pending, State.running, State.done, Phase.pending, Phase.running, pendingOf_append,
      runningOf_append, pendingOf_spawn, runningOf_spawn, flatten_map_singleton, List.append_nil, List.nil_append,
      List.length_append] at hcount hkeptLen ⊢
    omega
  · simp only [workOf_append, workOf_spawn, List.length_map]
    simp only [List.length_append] at hkeptLen
    omega

/-! ## Steps -/

/-- The step does not raise, keeps the invariant, and brings the run closer to its end. -/
def Moves (cfg : Config V) (s : State g V) (label : Label V) : Prop :=
  ∃ s', next cfg s label = .ok s' ∧ Inv cfg s' ∧ Advances s s'

/-- The step changes nothing, or brings the run closer to its end. -/
def Goes (cfg : Config V) (s : State g V) (label : Label V) : Prop := next cfg s label = .ok s ∨ Moves cfg s label

section

variable {cfg : Config V} {s : State g V}

theorem Core.inv_syncLoop (h : Core s) (hphase : s.phase = .syncLoop readySync) :
    Inv cfg s where
  toCore := h
  exited heq := by simp [hphase] at heq
  busy heq := by simp [hphase] at heq
  noPool _ _ _ heq := by simp [hphase] at heq

theorem Inv.waits (h : Inv cfg s) (hphase : s.phase = .top [] []) (finished : List Nat) :
    Inv cfg { s with phase := .waiting finished } ∧ Advances s { s with phase := .waiting finished } := by
  have hinUse := h.inUse
  rw [State.pending, State.running, hphase] at hinUse
  refine ⟨⟨⟨hinUse, h.singlets, h.batches, h.nonempty⟩, nofun, fun _ => h.busy (.inl hphase), nofun⟩, ?_⟩
  refine .inr ⟨rfl, .inr ⟨?_, .inr ⟨?_, ?_⟩⟩⟩
  · simp [State.passed, State.pending, State.running, State.done, hphase, Phase.pending, Phase.running]
  · simp [State.work, hphase]
  · simp [hphase, Phase.rank]

theorem Inv.round (h : Inv cfg s)
    (hphase : s.phase = .top readySync readyAsync) (hready : (readySync.isEmpty && readyAsync.isEmpty) = false)
    (routingKey : Nat → Except Exc String) :
    ∃ s', round cfg s routingKey readySync readyAsync = .ok s' ∧ Inv cfg s' ∧ Advances s s' := by
  obtain ⟨s₁, hs₁, hh⟩ := handleFinished_spec h.toCore (fun _ => true) (fun _ => true)
  have hphase₁ : s₁.phase = .top readySync readyAsync := hh.phase.trans hphase
  obtain ⟨s₂, hs₂, he⟩ : ∃ s₂, enqueueReady cfg s₁ routingKey readyAsync = .ok s₂ ∧
      EnqueuedAsync readySync readyAsync s₁ s₂ := by
    unfold enqueueReady
    cases hasync : cfg.allowAsync with
    | true => exact enqueueAsync_spec hh.core hphase₁ routingKey
    | false =>
      obtain rfl := h.noPool hasync readySync readyAsync hphase
      have hc := hh.core.inUse
      rw [State.pending, State.running, hphase₁, Phase.pending, List.append_nil] at hc
      refine ⟨s₁, rfl, ⟨hc, hh.core.singlets, hh.core.batches, hh.core.nonempty⟩, le_rfl, ?_, le_rfl⟩
      simp [State.passed, State.pending, State.running, State.done, hphase₁, Phase.pending, Phase.running]
  refine ⟨{ s₂ with phase := .syncLoop readySync }, ?_, he.core.inv_syncLoop rfl, ?_⟩
  · simp only [Executor.round, hs₁, ok_bind, hs₂]
    rfl
  · rcases (hh.le.trans he.le).lt_or_eq with hlt | heq
    · exact .inl hlt
    · refine .inr ⟨heq.symm, .inr ⟨he.passed.trans hh.passed, ?_⟩⟩
      have hwork := he.work
      have hwork₁ := hh.work
      simp only [State.work, hphase, hphase₁] at hwork₁
      cases readyAsync with
      | cons c cs =>
        left
        simp only [State.work, hphase, List.length_cons] at hwork hwork₁ ⊢
        omega
      | nil =>
        -- Only synchronous chains: the greenlets are the same, and the main greenlet has moved.
        have hle : State.work { s₂ with phase := .syncLoop readySync } ≤ s.work := by
          simp only [State.work, hphase, List.length_nil] at hwork hwork₁ ⊢
          omega
        have hrank : Phase.rank (.syncLoop readySync) < s.phase.rank := by
          have hne : readySync.isEmpty = false := by simpa using hready
          simp [hphase, Phase.rank, hne]
        exact hle.lt_or_eq.imp id fun heq => ⟨heq, hrank⟩

theorem Inv.loop_moves (h : Inv cfg s)
    (hphase : s.phase = .top readySync readyAsync) (routingKey : Nat → Except Exc String) :
    Moves cfg s (.loop routingKey) := by
  cases hempty : readySync.isEmpty && readyAsync.isEmpty with
  | true =>
    obtain ⟨rfl, rfl⟩ : readySync = [] ∧ readyAsync = [] := by simpa using hempty
    obtain ⟨hinv, hadv⟩ := h.waits hphase ((s.inProgressAsyncBatches.filter Greenlet.ready).map Greenlet.id)
    exact ⟨_, by rw [next, hphase]; rfl, hinv, hadv⟩
  | false =>
    obtain ⟨s', hs', hinv, hadv⟩ := h.round hphase hempty routingKey
    refine ⟨s', ?_, hinv, hadv⟩
    rw [next, hphase]
    simpa only [hempty, Bool.false_eq_true, if_false] using hs'

theorem Inv.loop (h : Inv cfg s) (routingKey : Nat → Except Exc String) : Goes cfg s (.loop routingKey) := by
  cases hphase : s.phase with
  | top readySync readyAsync => exact .inr (h.loop_moves hphase routingKey)
  | _ => exact .inl (by rw [next, hphase])

variable {finished : List Nat}

variable (cfg) in
theorem Handled.goes {pickSinglet pickBatch s₁} (h : Handled pickSinglet pickBatch s s₁)
    (hphase : s.phase = .waiting finished) (hlt : s.done < s₁.done) :
    Inv cfg { s₁ with phase := .syncLoop [] } ∧ Advances s { s₁ with phase := .syncLoop [] } := by
  have hc := h.core.inUse
  rw [State.pending, State.running, h.phase, hphase] at hc
  have hcore : Core { s₁ with phase := .syncLoop [] } := ⟨hc, h.core.singlets, h.core.batches, h.core.nonempty⟩
  exact ⟨hcore.inv_syncLoop rfl, .inl hlt⟩

theorem Inv.wake_batch_moves (h : Inv cfg s) (hphase : s.phase = .waiting finished)
    (hsinglets : s.inProgressAsyncSinglets.isEmpty = true) {id : Nat}
    (hfound : (s.inProgressAsyncBatches.any fun gl => gl.id = id && gl.ready) = true) : Moves cfg s (.wake id) := by
  obtain ⟨gl, hmem, hgl⟩ := List.any_eq_true.mp hfound
  simp only [Bool.and_eq_true] at hgl
  obtain ⟨s₁, hs₁, hh⟩ := handleFinished_spec h.toCore (fun _ => false) (· = id)
  obtain ⟨hinv, hadv⟩ := hh.goes cfg hphase (hh.ltBatch gl hmem hgl.1 hgl.2)
  refine ⟨_, ?_, hinv, hadv⟩
  simp only [next, hphase, hsinglets, hfound, if_true, hs₁, ok_bind]
  rfl

theorem Inv.wake_singlet_moves (h : Inv cfg s) (hphase : s.phase = .waiting finished)
    (hsinglets : s.inProgressAsyncSinglets.isEmpty = false) {id : Nat}
    (hfound : (s.inProgressAsyncSinglets.any fun gl => gl.id = id && gl.ready) = true) : Moves cfg s (.wake id) := by
  obtain ⟨gl, hmem, hgl⟩ := List.any_eq_true.mp hfound
  simp only [Bool.and_eq_true] at hgl
  obtain ⟨s₁, hs₁, hh⟩ := handleFinished_spec h.toCore (· = id) (· ∈ finished)
  obtain ⟨hinv, hadv⟩ := hh.goes cfg hphase (hh.ltSinglet gl hmem hgl.1 hgl.2)
  refine ⟨_, ?_, hinv, hadv⟩
  simp only [next, hphase, hsinglets, hfound, if_true, Bool.false_eq_true, if_false, hs₁, ok_bind]
  rfl

theorem Inv.wake (h : Inv cfg s) (id : Nat) : Goes cfg s (.wake id) := by
  cases hphase : s.phase with
  | waiting finished =>
    cases hsinglets : s.inProgressAsyncSinglets.isEmpty with
    | true =>
      cases hfound : s.inProgressAsyncBatches.any fun gl => gl.id = id && gl.ready with
      | false => exact .inl (by simp only [next, hphase, hsinglets, hfound]; rfl)
      | true => exact .inr (h.wake_batch_moves hphase hsinglets hfound)
    | false =>
      cases hfound : s.inProgressAsyncSinglets.any fun gl => gl.id = id && gl.ready with
      | false => exact .inl (by simp only [next, hphase, hsinglets, hfound]; rfl)
      | true => exact .inr (h.wake_singlet_moves hphase hsinglets hfound)
  | _ => exact .inl (by rw [next, hphase])

theorem Inv.executeSync_moves (h : Inv cfg s) {c}
    (hphase : s.phase = .syncLoop (c :: readySync)) : Moves cfg s .executeSync := by
  have hinUse := h.inUse
  rw [State.pending, State.running, hphase] at hinUse
  have hexec : (s.context.log (.started c)).InUse
      (readySync ++ (pendingOf s.inProgressAsyncSinglets ++ pendingOf s.inProgressAsyncBatches))
      (c :: (runningOf s.inProgressAsyncSinglets ++ runningOf s.inProgressAsyncBatches)) := hinUse.execute rfl
  refine ⟨{ s with context := s.context.log (.started c), phase := .executing c readySync },
    by rw [next, hphase], ⟨⟨hexec, h.singlets, h.batches, h.nonempty⟩, nofun, ?_, nofun⟩, ?_⟩
  · rintro (heq | ⟨_, heq⟩) <;> cases heq
  · refine .inr ⟨rfl, .inr ⟨?_, .inr ⟨?_, ?_⟩⟩⟩
    · simp only [State.passed, State.pending, State.running, State.done, hphase, Phase.pending, Phase.running,
        List.cons_append, List.nil_append, List.length_cons]
      rw [show doneCount (s.context.log (.started c)) = doneCount s.context from rfl]
      omega
    · simp [State.work, hphase]
    · simp [hphase, Phase.rank]

theorem Inv.executeSync (h : Inv cfg s) : Goes cfg s .executeSync := by
  cases hphase : s.phase with
  | syncLoop readySync =>
    cases readySync with
    | nil => exact .inl (by rw [next, hphase])
    | cons c readySync => exact .inr (h.executeSync_moves hphase)
  | _ => exact .inl (by rw [next, hphase])

theorem Inv.finishSync_moves (h : Inv cfg s) {c}
    (hphase : s.phase = .executing c readySync) (outcome : Except Exc V) : Moves cfg s (.finishSync outcome) := by
  have hinUse := h.inUse
  rw [State.pending, State.running, hphase] at hinUse
  obtain ⟨ctx, hset, hctx, htrace⟩ := hinUse.setResolvedValue (wrappedExecution c.val outcome).1
  have hcore : Core { s with
      context := ctx
      errorInfos := s.errorInfos ++ (wrappedExecution c.val outcome).2
      phase := .syncLoop readySync } := ⟨hctx, h.singlets, h.batches, h.nonempty⟩
  have hlt : doneCount s.context < doneCount ctx := by
    rw [doneCount, doneCount, htrace]
    simp
  refine ⟨_, ?_, hcore.inv_syncLoop rfl, .inl hlt⟩
  simp only [next, hphase, hset, ok_bind]
  rfl

theorem Inv.finishSync (h : Inv cfg s) (outcome : Except Exc V) : Goes cfg s (.finishSync outcome) := by
  cases hphase : s.phase with
  | executing c readySync => exact .inr (h.finishSync_moves hphase outcome)
  | _ => exact .inl (by rw [next, hphase])

theorem getReadySyncAndAsync_spec (allowAsync : Bool) {ctx : ExecutionContext g V} {pending running}
    (h : ctx.InUse pending running) :
    ∃ readySync readyAsync ctx', getReadySyncAndAsync allowAsync ctx = .ok (readySync, readyAsync, ctx') ∧
      ctx'.InUse (readySync ++ readyAsync ++ pending) running ∧ ctx'.dependencyDag.readyNodes = [] ∧
      doneCount ctx' = doneCount ctx ∧ (allowAsync = false → readyAsync = []) := by
  obtain ⟨ready, ctx', hready, hctx, hempty, htrace⟩ := h.getReadyToExecute
  refine ⟨_, _, ctx', by simp only [getReadySyncAndAsync, hready, ok_bind]; rfl, ?_, hempty,
    by rw [doneCount, doneCount, htrace], ?_⟩
  · refine hctx.perm (List.Perm.append_right _ ?_) (.refl _)
    have := List.filter_append_perm (fun c => !((g.executor c).executeAsync && allowAsync)) ready
    simpa using this.symm
  · rintro rfl
    simp

theorem Inv.getReady_moves (h : Inv cfg s) (hphase : s.phase = .syncLoop []) : Moves cfg s .getReady := by
  have hinUse := h.inUse
  rw [State.pending, State.running, hphase] at hinUse
  obtain ⟨readySync, readyAsync, ctx, hready, hctx, hnodes, hdone, hpool⟩ :=
    getReadySyncAndAsync_spec cfg.allowAsync hinUse
  cases hexits : readySync.isEmpty && readyAsync.isEmpty && s.inProgressAsyncSinglets.isEmpty &&
      s.inProgressAsyncBatches.isEmpty with
  | true =>
    obtain ⟨⟨⟨rfl, rfl⟩, hsinglets⟩, hbatches⟩ : ((readySync = [] ∧ readyAsync = []) ∧
        s.inProgressAsyncSinglets = []) ∧ s.inProgressAsyncBatches = [] := by simpa using hexits
    refine ⟨{ s with context := ctx, phase := .exited }, ?_, ⟨⟨hctx, h.singlets, h.batches, h.nonempty⟩,
      fun _ => ⟨hsinglets, hbatches, hnodes⟩, ?_, fun _ _ _ heq => by cases heq⟩,
        .inr ⟨hdone, .inr ⟨?_, .inr ⟨?_, ?_⟩⟩⟩⟩
    · simp only [next, hphase, hready, ok_bind, hexits]
      rfl
    · rintro (heq | ⟨_, heq⟩) <;> cases heq
    · simp [State.passed, State.pending, State.running, State.done, hphase, Phase.pending, Phase.running, hdone]
    · simp [State.work, hphase]
    · simp [hphase, Phase.rank]
  | false =>
    refine ⟨{ s with context := ctx, phase := .top readySync readyAsync }, ?_,
      ⟨⟨hctx, h.singlets, h.batches, h.nonempty⟩, fun heq => (by cases heq), ?_, ?_⟩, .inr ⟨hdone, ?_⟩⟩
    · simp only [next, hphase, hready, ok_bind, hexits]
      rfl
    · rintro (heq | ⟨_, heq⟩)
      · cases heq
        by_contra hno
        simp_all
      · cases heq
    · intro hasync _ _ heq
      cases heq
      exact hpool hasync
    · by_cases hany : readySync ++ readyAsync = []
      · obtain ⟨rfl, rfl⟩ := List.append_eq_nil_iff.mp hany
        refine .inr ⟨?_, .inr ⟨?_, ?_⟩⟩
        · simp [State.passed, State.pending, State.running, State.done, hphase, Phase.pending, Phase.running, hdone]
        · simp [State.work, hphase]
        · simp [hphase, Phase.rank]
      · left
        have := List.length_pos_iff.mpr hany
        simp only [State.passed, State.pending, State.running, State.done, hphase, Phase.pending, Phase.running,
          hdone, List.length_append, List.length_nil] at this ⊢
        omega

theorem Inv.getReady (h : Inv cfg s) : Goes cfg s .getReady := by
  cases hphase : s.phase with
  | syncLoop readySync =>
    cases readySync with
    | nil => exact .inr (h.getReady_moves hphase)
    | cons c readySync => exact .inl (by rw [next, hphase])
  | _ => exact .inl (by rw [next, hphase])

theorem chains_ne_nil_of_map {gls gls' : List (Greenlet g.size V)}
    (heq : gls'.map Greenlet.chains = gls.map Greenlet.chains) (h : ∀ gl ∈ gls, gl.chains ≠ []) :
    ∀ gl ∈ gls', gl.chains ≠ [] := by
  intro gl hgl
  have hmem : gl.chains ∈ gls.map Greenlet.chains := heq ▸ List.mem_map_of_mem hgl
  obtain ⟨gl', hgl', hchains⟩ := List.mem_map.mp hmem
  rw [← hchains]
  exact h gl' hgl'

theorem eq_nil_iff_of_map {gls gls' : List (Greenlet g.size V)}
    (heq : gls'.map Greenlet.chains = gls.map Greenlet.chains) : gls' = [] ↔ gls = [] := by
  rw [← List.map_eq_nil_iff (f := Greenlet.chains), heq, List.map_eq_nil_iff]

/-- Greenlets that move on and stay in progress keep the invariant if the context agrees with them. -/
theorem Inv.of_greenlets (h : Inv cfg s) {ctx} (errorInfos : List NodeErrorInfo) {singlets batches}
    (hinUse : ctx.InUse (s.phase.pending ++ (pendingOf singlets ++ pendingOf batches))
      (s.phase.running ++ (runningOf singlets ++ runningOf batches)))
    (hfinS : WellFinished singlets) (hfinB : WellFinished batches)
    (hsinglets : singlets.map Greenlet.chains = s.inProgressAsyncSinglets.map Greenlet.chains)
    (hbatches : batches.map Greenlet.chains = s.inProgressAsyncBatches.map Greenlet.chains)
    (hdag : ctx.dependencyDag = s.context.dependencyDag) :
    Inv cfg { s with
      context := ctx, errorInfos := errorInfos, inProgressAsyncSinglets := singlets,
      inProgressAsyncBatches := batches } where
  inUse := hinUse
  singlets := hfinS
  batches := hfinB
  nonempty := chains_ne_nil_of_map (by simp [hsinglets, hbatches]) h.nonempty
  exited heq := by
    obtain ⟨hs, hb, hready⟩ := h.exited heq
    exact ⟨(eq_nil_iff_of_map hsinglets).mpr hs, (eq_nil_iff_of_map hbatches).mpr hb, by rw [hdag]; exact hready⟩
  busy heq := (h.busy heq).imp (fun hne hnil => hne ((eq_nil_iff_of_map hsinglets).mp hnil))
    fun hne hnil => hne ((eq_nil_iff_of_map hbatches).mp hnil)
  noPool := h.noPool

theorem Inv.startSinglet (h : Inv cfg s) (id : Nat) : Goes cfg s (.startSinglet id) := by
  have hinUse : s.context.InUse
      (pendingOf s.inProgressAsyncSinglets ++ (s.phase.pending ++ pendingOf s.inProgressAsyncBatches))
      (runningOf s.inProgressAsyncSinglets ++ (s.phase.running ++ runningOf s.inProgressAsyncBatches)) :=
    h.inUse.perm (List.perm_append_comm_assoc _ _ _) (List.perm_append_comm_assoc _ _ _)
  rcases startGreenlet_spec id s.inProgressAsyncSinglets hinUse with heq | hs
  · exact .inl (by simp only [next, heq])
  · refine .inr ⟨_, rfl, h.of_greenlets s.errorInfos (hs.inUse.perm (List.perm_append_comm_assoc _ _ _)
      (List.perm_append_comm_assoc _ _ _)) (hs.finished h.singlets) h.batches hs.chains rfl hs.dag, ?_⟩
    refine .inr ⟨hs.count, .inr ⟨?_, .inl ?_⟩⟩
    · have := hs.passed
      have hcount := hs.count
      simp only [State.passed, State.pending, State.running, State.done, List.length_append]
      omega
    · have := hs.work
      simp only [State.work]
      omega

theorem Inv.startBatch (h : Inv cfg s) (id : Nat) : Goes cfg s (.startBatch id) := by
  have hswap : ∀ (a b c : List (Fin g.size)), (a ++ (b ++ c)).Perm (c ++ (a ++ b)) := by
    intro a b c
    refine List.perm_iff_count.mpr fun x => ?_
    simp only [List.count_append]
    omega
  rcases startGreenlet_spec id s.inProgressAsyncBatches (h.inUse.perm (hswap _ _ _) (hswap _ _ _)) with heq | hs
  · exact .inl (by simp only [next, heq])
  · refine .inr ⟨_, rfl, h.of_greenlets s.errorInfos (hs.inUse.perm (hswap _ _ _).symm (hswap _ _ _).symm) h.singlets
      (hs.finished h.batches) rfl hs.chains hs.dag, ?_⟩
    refine .inr ⟨hs.count, .inr ⟨?_, .inl ?_⟩⟩
    · have := hs.passed
      have hcount := hs.count
      simp only [State.passed, State.pending, State.running, State.done, List.length_append]
      omega
    · have := hs.work
      simp only [State.work]
      omega

theorem Inv.finishSinglet (h : Inv cfg s) (id : Nat) (outcome : Except Exc V) :
    Goes cfg s (.finishSinglet id outcome) := by
  have hlen : ∀ chains : List (Fin g.size), (chains.map fun c => (wrappedExecution c.val outcome).1).length
      = chains.length := fun chains => List.length_map _
  rcases finishGreenlet_spec id (fun chains => (chains.map fun c => (wrappedExecution c.val outcome).1,
    chains.flatMap fun c => (wrappedExecution c.val outcome).2)) hlen s.inProgressAsyncSinglets with heq | hf
  · exact .inl (by simp only [next, heq, List.append_nil])
  · refine .inr ⟨_, rfl, h.of_greenlets _ ?_ (hf.finished h.singlets) h.batches hf.chains rfl rfl, ?_⟩
    · rw [hf.pendingOf, hf.runningOf]
      exact h.inUse
    · refine .inr ⟨rfl, .inr ⟨?_, .inl ?_⟩⟩
      · simp only [State.passed, State.pending, State.running, State.done, hf.pendingOf, hf.runningOf]
      · have := hf.work
        simp only [State.work]
        omega

theorem Inv.finishBatch (h : Inv cfg s) (id : Nat) (outcome : Except Exc (List (Except Exc V))) :
    Goes cfg s (.finishBatch id outcome) := by
  have hlen : ∀ chains : List (Fin g.size),
      (wrappedBatchExecution cfg.checkResultType (chains.map Fin.val) outcome).1.length = chains.length :=
    fun chains => by rw [wrappedBatchExecution_length, List.length_map]
  rcases finishGreenlet_spec id _ hlen s.inProgressAsyncBatches with heq | hf
  · exact .inl (by simp only [next, heq, List.append_nil])
  · refine .inr ⟨_, rfl, h.of_greenlets _ ?_ h.singlets (hf.finished h.batches) rfl hf.chains rfl, ?_⟩
    · rw [hf.pendingOf, hf.runningOf]
      exact h.inUse
    · refine .inr ⟨rfl, .inr ⟨?_, .inl ?_⟩⟩
      · simp only [State.passed, State.pending, State.running, State.done, hf.pendingOf, hf.runningOf]
      · have := hf.work
        simp only [State.work]
        omega

theorem Inv.enqueue (h : Inv cfg s) (source : String) :
    ∃ s', next cfg s (.enqueue source) = .ok s' ∧ Inv cfg s' ∧
      s'.done = s.done ∧ s'.passed = s.passed ∧ s'.work = s.work ∧ s'.phase = s.phase := by
  cases hcan : s.executing && (g.statementChains source).isSome with
  | false => exact ⟨s, by simp only [next, hcan]; rfl, h, rfl, rfl, rfl, rfl⟩
  | true =>
    obtain ⟨hexec, hsource⟩ := Bool.and_eq_true_iff.mp hcan
    obtain ⟨ctx, henq, hctx, htrace⟩ := h.inUse.enqueueSource hsource
    have hdone : doneCount ctx = doneCount s.context := by rw [doneCount, doneCount, htrace, resolutions_enqueued]
    refine ⟨{ s with context := ctx }, ?_, ⟨⟨hctx, h.singlets, h.batches, h.nonempty⟩, ?_, h.busy, h.noPool⟩,
      hdone, ?_, rfl, rfl⟩
    · simp only [next, hcan, henq, ok_bind]
      rfl
    · -- After the loop no chain is being executed.
      intro heq
      obtain ⟨hs, hb, -⟩ := h.exited heq
      have hphase : s.phase = .exited := heq
      simp [State.executing, hs, hb, hphase] at hexec
    · simp only [State.passed, State.done, hdone]
      rfl

/-- **Every step keeps the invariant**, and none raises. -/
theorem Inv.next (h : Inv cfg s) (label : Label V) : ∃ s', next cfg s label = .ok s' ∧ Inv cfg s' := by
  have goes : ∀ {label}, Goes cfg s label → ∃ s', Executor.next cfg s label = .ok s' ∧ Inv cfg s' :=
    fun hgoes => hgoes.elim (fun heq => ⟨s, heq, h⟩) fun ⟨s', hs', hinv, _⟩ => ⟨s', hs', hinv⟩
  cases label with
  | loop routingKey => exact goes (h.loop routingKey)
  | wake id => exact goes (h.wake id)
  | executeSync => exact goes h.executeSync
  | finishSync outcome => exact goes (h.finishSync outcome)
  | getReady => exact goes h.getReady
  | startSinglet id => exact goes (h.startSinglet id)
  | startBatch id => exact goes (h.startBatch id)
  | finishSinglet id outcome => exact goes (h.finishSinglet id outcome)
  | finishBatch id outcome => exact goes (h.finishBatch id outcome)
  | enqueue source =>
    obtain ⟨s', hs', hinv, -⟩ := h.enqueue source
    exact ⟨s', hs', hinv⟩

theorem Inv.run (h : Inv cfg s) (labels : List (Label V)) :
    ∃ s', labels.foldlM (Executor.next cfg) s = .ok s' ∧ Inv cfg s' := by
  induction labels generalizing s with
  | nil => exact ⟨s, rfl, h⟩
  | cons label labels ih =>
    obtain ⟨s₁, hs₁, h₁⟩ := h.next label
    obtain ⟨s', hs', h'⟩ := ih h₁
    exact ⟨s', by rw [List.foldlM_cons, hs₁]; exact hs', h'⟩

end

theorem run_inv (cfg : Config V) (g : ExecutionGraph) (labels : List (Label V)) :
    ∃ s, run cfg g labels = .ok s ∧ Inv cfg s := by
  obtain ⟨ctx, hnew, hctx, -⟩ := ExecutionContext.new_inUse g V
  have hcore : Core ({ context := ctx } : State g V) := ⟨hctx, nofun, nofun, nofun⟩
  have hinv : Inv cfg ({ context := ctx } : State g V) := hcore.inv_syncLoop rfl
  obtain ⟨s, hs, h⟩ := hinv.run labels
  exact ⟨s, by rw [run, hnew]; exact hs, h⟩

end Osprey.Executor
