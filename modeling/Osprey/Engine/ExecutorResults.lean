/-
Where results come from. A result is in the hands of the executor from the
moment an execution ends, in a finished greenlet first and then among the
resolved values. A step makes no other result than those of the executions
that end in it, and enqueues no source unless its label says so.
-/
import Osprey.Engine.ExecutorSteps

namespace Osprey.Executor

open Lib (Dict)

variable {g : ExecutionGraph} {V : Type}

/-! ## Results -/

/-- The results a greenlet has for its chains. -/
def Greenlet.results {n : Nat} (gl : Greenlet n V) : List (Fin n × NodeResult V) := match gl.status with
  | .finished results => gl.chains.zip results
  | _ => []

def State.greenlets (s : State g V) : List (Greenlet g.size V) :=
  s.inProgressAsyncSinglets ++ s.inProgressAsyncBatches

/-- The executor has a result for the chain, resolved or in a finished greenlet. -/
def State.HasResult (s : State g V) (c : Fin g.size) (r : NodeResult V) : Prop :=
  s.context.resolvedNodeValues.get? c = some r ∨ (c, r) ∈ s.greenlets.flatMap Greenlet.results

/-- The executions that end in a step, each with its result. A chain whose batchable arguments cannot
be resolved ends there. -/
def finishing (cfg : Config V) (s : State g V) : Label V → List (Fin g.size × NodeResult V)
  | .loop routingKey => match s.phase with
    | .top _ readyAsync => (readyAsync.filter (argumentsFail routingKey)).map (·, .err)
    | _ => []
  | .finishSync outcome => match s.phase with
    | .executing chain _ => [(chain, (wrappedExecution chain.val outcome).1)]
    | _ => []
  | .finishSinglet id outcome => match s.inProgressAsyncSinglets.find? fun gl => gl.id = id && gl.isRunning with
    | some gl => gl.chains.zip (gl.chains.map fun c => (wrappedExecution c.val outcome).1)
    | none => []
  | .finishBatch id outcome => match s.inProgressAsyncBatches.find? fun gl => gl.id = id && gl.isRunning with
    | some gl => gl.chains.zip (wrappedBatchExecution cfg.checkResultType (gl.chains.map Fin.val) outcome).1
    | none => []
  | .wake _ | .executeSync | .getReady | .startSinglet _ | .startBatch _ | .enqueue _ => []

/-! ## What the calls of the executor do to the context -/

/-- From the one context to the other `settled` was stored at most, and no source enqueued. -/
structure Settles (settled : List (Fin g.size × NodeResult V)) (ctx ctx' : ExecutionContext g V) : Prop where
  values : ∀ c r, ctx'.resolvedNodeValues.get? c = some r → ctx.resolvedNodeValues.get? c = some r ∨ (c, r) ∈ settled
  trace : ctx.trace ⊆ ctx'.trace
  enqueued : ∀ source, .enqueued source ∈ ctx'.trace → .enqueued source ∈ ctx.trace

section

variable {ctx ctx₁ ctx' : ExecutionContext g V} {settled settled' : List (Fin g.size × NodeResult V)}

theorem Settles.refl (ctx : ExecutionContext g V) : Settles [] ctx ctx :=
  ⟨fun _ _ => .inl, List.Subset.refl _, fun _ => id⟩

theorem Settles.trans (h : Settles settled ctx ctx₁) (h' : Settles settled' ctx₁ ctx') :
    Settles (settled ++ settled') ctx ctx' where
  values c r hr := by
    rcases h'.values c r hr with hr | hr
    · exact (h.values c r hr).imp_right (List.mem_append_left _)
    · exact .inr (List.mem_append_right _ hr)
  trace := List.Subset.trans h.trace h'.trace
  enqueued source hs := h.enqueued source (h'.enqueued source hs)

theorem Settles.mono (h : Settles settled ctx ctx') (hsub : settled ⊆ settled') : Settles settled' ctx ctx' where
  values c r hr := (h.values c r hr).imp_right (hsub ·)
  trace := h.trace
  enqueued := h.enqueued

theorem settles_log {event c} (hevent : event.executes? = some c) :
    Settles [] ctx (ctx.log event) where
  values _ _ := .inl
  trace := List.subset_cons_self _ _
  enqueued source hs := by
    refine (List.mem_cons.mp hs).resolve_left ?_
    rintro rfl
    cases hevent

theorem settles_setResolvedValue {c r} (h : ctx.setResolvedValue c r = .ok ctx') :
    Settles [(c, r)] ctx ctx' := by
  obtain ⟨dag, -, h⟩ := bind_eq_ok.mp h
  cases h
  refine ⟨?_, List.subset_cons_self _ _, ?_⟩
  · intro c' r' hr'
    rcases Dict.of_get?_set hr' with ⟨rfl, rfl⟩ | ⟨-, hr'⟩
    · exact .inr (by simp)
    · exact .inl hr'
  · intro source hs
    exact (List.mem_cons.mp hs).resolve_left (by simp)

theorem settles_setResolvedValues : ∀ (cs : List (Fin g.size)) (results : List (NodeResult V))
    {ctx ctx'}, setResolvedValues ctx cs results = .ok ctx' → Settles (cs.zip results) ctx ctx'
  | [], results, ctx, ctx', h => by
    cases h
    exact .refl ctx
  | c :: cs, [], ctx, ctx', h => by cases h
  | c :: cs, r :: results, ctx, ctx', h => by
    obtain ⟨ctx₁, hset, hrest⟩ := bind_eq_ok.mp h
    exact (settles_setResolvedValue hset).trans (settles_setResolvedValues cs results hrest)

theorem settles_logStarted (cs : List (Fin g.size)) (ctx : ExecutionContext g V) :
    Settles [] ctx (logStarted ctx cs) := by
  induction cs generalizing ctx with
  | nil => exact .refl ctx
  | cons c cs ih =>
    have hc : Settles [] ctx (ctx.log (.started c)) := settles_log rfl
    exact hc.trans (ih _)

theorem settles_getReadyToExecute {ready} (h : ctx.getReadyToExecute = .ok (ready, ctx')) :
    Settles [] ctx ctx' := by
  obtain ⟨⟨readyNodeids, dag⟩, -, h⟩ := bind_eq_ok.mp h
  obtain ⟨ready', -, h⟩ := bind_eq_ok.mp h
  cases h
  exact ⟨fun _ _ => .inl, List.Subset.refl _, fun _ => id⟩

variable {readyAsync : List (Fin g.size)}

theorem settles_getReadySyncAndAsync {allowAsync readySync}
    (h : getReadySyncAndAsync allowAsync ctx = .ok (readySync, readyAsync, ctx')) : Settles [] ctx ctx' := by
  obtain ⟨⟨ready, ctx₁⟩, hready, h⟩ := bind_eq_ok.mp h
  cases h
  exact settles_getReadyToExecute hready

theorem settles_popFinished {pick} : ∀ {gls gls'} {ctx ctx' : ExecutionContext g V},
    popFinished pick gls ctx = .ok (ctx', gls') → Settles (gls.flatMap Greenlet.results) ctx ctx' ∧ gls' ⊆ gls
  | [], gls', ctx, ctx', h => by
    cases h
    exact ⟨.refl ctx, List.Subset.refl _⟩
  | gl :: gls, gls', ctx, ctx', h => by
    -- A greenlet that stays in the list.
    have hkeep : (popFinished pick gls ctx >>= fun r => pure (r.1, gl :: r.2)) = .ok (ctx', gls') →
        Settles ((gl :: gls).flatMap Greenlet.results) ctx ctx' ∧ gls' ⊆ gl :: gls := by
      intro h
      obtain ⟨⟨ctx₁, kept⟩, hpop, h⟩ := bind_eq_ok.mp h
      cases h
      obtain ⟨hset, hsub⟩ := settles_popFinished hpop
      exact ⟨hset.mono (List.subset_append_right _ _), List.cons_subset_cons gl hsub⟩
    rw [popFinished] at h
    split at h
    · next results hstatus =>
      split at h
      · obtain ⟨ctx₁, hset, hpop⟩ := bind_eq_ok.mp h
        obtain ⟨hrest, hsub⟩ := settles_popFinished hpop
        have hresults : gl.results = gl.chains.zip results := by rw [Greenlet.results, hstatus]
        rw [List.flatMap_cons, hresults]
        exact ⟨(settles_setResolvedValues _ _ hset).trans hrest, List.Subset.trans hsub (List.subset_cons_self _ _)⟩
      · exact hkeep h
    · exact hkeep h

theorem settles_startGreenlet (id : Nat) : ∀ (gls : List (Greenlet g.size V)) (ctx : ExecutionContext g V),
    Settles [] ctx (startGreenlet id gls ctx).1 ∧
      (startGreenlet id gls ctx).2.flatMap Greenlet.results ⊆ gls.flatMap Greenlet.results
  | [], ctx => ⟨.refl ctx, List.Subset.refl _⟩
  | gl :: gls, ctx => by
    rw [startGreenlet]
    split
    · exact ⟨settles_logStarted gl.chains ctx, List.subset_append_right _ _⟩
    · obtain ⟨hset, hsub⟩ := settles_startGreenlet id gls ctx
      exact ⟨hset, List.append_subset.mpr ⟨List.subset_append_left _ _,
        List.Subset.trans hsub (List.subset_append_right _ _)⟩⟩

theorem results_finishGreenlet (id : Nat) (execution : List (Fin g.size) → List (NodeResult V) × List NodeErrorInfo) :
    ∀ gls : List (Greenlet g.size V), (finishGreenlet id execution gls).1.flatMap Greenlet.results ⊆
      gls.flatMap Greenlet.results ++ match gls.find? fun gl => gl.id = id && gl.isRunning with
        | some gl => gl.chains.zip (execution gl.chains).1
        | none => []
  | [] => List.Subset.refl _
  | gl :: gls => by
    rw [finishGreenlet]
    by_cases hgl : gl.id = id ∧ gl.isRunning
    · have hfind : (gl :: gls).find? (fun gl => gl.id = id && gl.isRunning) = some gl := by simp [hgl.1, hgl.2]
      rw [if_pos hgl, hfind]
      intro p hp
      rcases List.mem_append.mp hp with hp | hp
      · exact List.mem_append_right _ hp
      · exact List.mem_append_left _ (List.mem_append_right _ hp)
    · have hfind : (gl :: gls).find? (fun gl => gl.id = id && gl.isRunning) =
          gls.find? (fun gl => gl.id = id && gl.isRunning) := by
        rw [List.find?_cons_of_neg]
        simpa using hgl
      rw [if_neg hgl, hfind]
      intro p hp
      rcases List.mem_append.mp hp with hp | hp
      · exact List.mem_append_left _ (List.mem_append_left _ hp)
      · rcases List.mem_append.mp (results_finishGreenlet id execution gls hp) with hp | hp
        · exact List.mem_append_left _ (List.mem_append_right _ hp)
        · exact List.mem_append_right _ hp

theorem results_spawn (first : Nat) (tasks : List (List (Fin g.size))) :
    (spawn first tasks : List (Greenlet g.size V)).flatMap Greenlet.results = [] := by
  refine List.flatMap_eq_nil_iff.mpr ?_
  intro gl hgl
  obtain ⟨task, -, rfl⟩ := List.mem_map.mp hgl
  rfl

variable {routingKey : Nat → Except Exc String}

theorem settles_groupBatches :
    ∀ {cs} {b b' : Batching g V},
    groupBatches routingKey cs b = .ok b' →
    Settles ((cs.filter (argumentsFail routingKey)).map (·, .err)) b.context b'.context
  | [], b, b', h => by
    cases h
    exact .refl _
  | c :: cs, b, b', h => by
    rw [groupBatches] at h
    have hsub : (cs.filter (argumentsFail routingKey)).map (·, NodeResult.err (V := V)) ⊆
        ((c :: cs).filter (argumentsFail routingKey)).map (·, .err) :=
      (((List.sublist_cons_self c cs).filter _).map _).subset
    split at h
    · exact (settles_groupBatches h).mono hsub
    · next batchType htype =>
      split at h
      · exact (settles_groupBatches (b := { b with batchChains := _ }) h).mono hsub
      · next e hkey =>
        obtain ⟨ctx₁, hset, h⟩ := bind_eq_ok.mp h
        have hfail : argumentsFail routingKey c = true := by simp [argumentsFail, htype, hkey]
        have hlog : Settles [] b.context (b.context.log (.argumentsFailed c)) := settles_log rfl
        rw [List.filter_cons_of_pos hfail, List.map_cons]
        exact (hlog.trans (settles_setResolvedValue hset)).trans (settles_groupBatches h)

/-! ## What a step does -/

/-- A part of a step: from the one state to the other no results came in but `finished`, and no source
was enqueued. -/
structure Produces (finished : List (Fin g.size × NodeResult V)) (s s' : State g V) : Prop where
  results : ∀ c r, s'.HasResult c r → s.HasResult c r ∨ (c, r) ∈ finished
  trace : s.context.trace ⊆ s'.context.trace
  enqueued : ∀ source, .enqueued source ∈ s'.context.trace → .enqueued source ∈ s.context.trace

variable {s s₁ s' : State g V} {finished finished' : List (Fin g.size × NodeResult V)}

theorem Produces.trans (h : Produces finished s s₁) (h' : Produces finished' s₁ s') :
    Produces (finished ++ finished') s s' where
  results c r hr := by
    rcases h'.results c r hr with hr | hr
    · exact (h.results c r hr).imp_right (List.mem_append_left _)
    · exact .inr (List.mem_append_right _ hr)
  trace := List.Subset.trans h.trace h'.trace
  enqueued source hs := h.enqueued source (h'.enqueued source hs)

/-- A step that stores what it settles, where that and the results of the greenlets were there before
or are `finished`. -/
theorem produces_of_settles {settled} (h : Settles settled s.context s'.context)
    (hsettled : settled ⊆ s.greenlets.flatMap Greenlet.results ++ finished)
    (hgreenlets : s'.greenlets.flatMap Greenlet.results ⊆ s.greenlets.flatMap Greenlet.results ++ finished) :
    Produces finished s s' where
  results c r hr := by
    have hgive : (c, r) ∈ s.greenlets.flatMap Greenlet.results ++ finished → s.HasResult c r ∨ (c, r) ∈ finished :=
      fun hmem => (List.mem_append.mp hmem).imp_left .inr
    rcases hr with hr | hr
    · rcases h.values c r hr with hr | hr
      · exact .inl (.inl hr)
      · exact hgive (hsettled hr)
    · exact hgive (hgreenlets hr)
  trace := h.trace
  enqueued := h.enqueued

theorem results_subset {gls gls' : List (Greenlet g.size V)} (h : gls' ⊆ gls) :
    gls'.flatMap Greenlet.results ⊆ gls.flatMap Greenlet.results := by
  intro p hp
  obtain ⟨gl, hgl, hp⟩ := List.mem_flatMap.mp hp
  exact List.mem_flatMap.mpr ⟨gl, h hgl, hp⟩

theorem produces_handleFinished {pickSinglet pickBatch : Nat → Bool}
    (h : handleFinished s pickSinglet pickBatch = .ok s') : Produces [] s s' := by
  obtain ⟨⟨ctx₁, singlets⟩, hsinglets, h⟩ := bind_eq_ok.mp h
  obtain ⟨⟨ctx₂, batches⟩, hbatches, h⟩ := bind_eq_ok.mp h
  cases h
  obtain ⟨hset₁, hsub₁⟩ := settles_popFinished hsinglets
  obtain ⟨hset₂, hsub₂⟩ := settles_popFinished hbatches
  refine produces_of_settles (hset₁.trans hset₂) ?_ ?_
  · simp [State.greenlets]
  · rw [List.append_nil]
    refine results_subset (List.append_subset.mpr ⟨?_, ?_⟩)
    · exact List.Subset.trans hsub₁ (List.subset_append_left _ _)
    · exact List.Subset.trans hsub₂ (List.subset_append_right _ _)

variable {cfg : Config V}

theorem produces_enqueueReady (h : enqueueReady cfg s routingKey readyAsync = .ok s') :
    Produces ((readyAsync.filter (argumentsFail routingKey)).map (·, .err)) s s' := by
  unfold enqueueReady at h
  split at h
  · obtain ⟨b, hb, h⟩ := bind_eq_ok.mp h
    cases h
    refine produces_of_settles (settles_groupBatches hb) (List.subset_append_right _ _) ?_
    have hnew : ∀ (gls gls' : List (Greenlet g.size V)) (first first' : Nat)
      (tasks tasks' : List (List (Fin g.size))),
        ((gls ++ spawn first tasks) ++ (gls' ++ spawn first' tasks')).flatMap Greenlet.results =
          (gls ++ gls').flatMap Greenlet.results := by
      intro gls gls' first first' tasks tasks'
      simp only [List.flatMap_append, results_spawn, List.append_nil]
    simp only [State.greenlets, hnew]
    exact List.subset_append_left _ _
  · cases h
    exact produces_of_settles (.refl _) (by simp) (List.subset_append_left _ _)

theorem Produces.of_phase (h : Produces finished s s') (phase : Phase g.size) :
    Produces finished s { s' with phase := phase } := ⟨h.results, h.trace, h.enqueued⟩

theorem produces_round {readySync} (h : round cfg s routingKey readySync readyAsync = .ok s') :
    Produces ((readyAsync.filter (argumentsFail routingKey)).map (·, .err)) s s' := by
  obtain ⟨s₁, hhandle, h⟩ := bind_eq_ok.mp h
  obtain ⟨s₂, henqueue, h⟩ := bind_eq_ok.mp h
  cases h
  exact ((produces_handleFinished hhandle).trans (produces_enqueueReady henqueue)).of_phase _

theorem Produces.refl (s : State g V) (finished : List (Fin g.size × NodeResult V)) : Produces finished s s :=
  ⟨fun _ _ => .inl, List.Subset.refl _, fun _ => id⟩

theorem singlets_subset {singlets singlets' batches : List (Greenlet g.size V)}
    (h : singlets'.flatMap Greenlet.results ⊆ singlets.flatMap Greenlet.results ++ finished) :
    (singlets' ++ batches).flatMap Greenlet.results ⊆ (singlets ++ batches).flatMap Greenlet.results ++ finished := by
  rw [List.flatMap_append, List.flatMap_append]
  refine List.append_subset.mpr ⟨fun p hp => ?_, fun p hp => by simp [hp]⟩
  rcases List.mem_append.mp (h hp) with hp | hp <;> simp [hp]

theorem batches_subset {singlets batches batches' : List (Greenlet g.size V)}
    (h : batches'.flatMap Greenlet.results ⊆ batches.flatMap Greenlet.results ++ finished) :
    (singlets ++ batches').flatMap Greenlet.results ⊆ (singlets ++ batches).flatMap Greenlet.results ++ finished := by
  rw [List.flatMap_append, List.flatMap_append, List.append_assoc]
  exact List.append_subset.mpr ⟨List.subset_append_left _ _, List.Subset.trans h (List.subset_append_right _ _)⟩

/-- **Results come from executions that end**: a step that is no `enqueue` brings in no result but those
of the executions that end in it, and enqueues nothing. -/
theorem next_produces {label : Label V} (hlabel : ∀ source, label ≠ .enqueue source)
    (h : next cfg s label = .ok s') : Produces (finishing cfg s label) s s' := by
  cases label with
  | loop routingKey =>
    rw [next] at h
    split at h
    · next readySync readyAsync hphase =>
      rw [finishing, hphase]
      split at h
      · cases h
        exact (Produces.refl s _).of_phase _
      · exact produces_round h
    · cases h
      exact .refl s _
  | wake id =>
    rw [next] at h
    split at h
    · split at h
      · split at h
        · obtain ⟨s₁, hhandle, h⟩ := bind_eq_ok.mp h
          cases h
          exact (produces_handleFinished hhandle).of_phase _
        · cases h
          exact .refl s _
      · split at h
        · obtain ⟨s₁, hhandle, h⟩ := bind_eq_ok.mp h
          cases h
          exact (produces_handleFinished hhandle).of_phase _
        · cases h
          exact .refl s _
    · cases h
      exact .refl s _
  | executeSync =>
    rw [next] at h
    split at h
    · cases h
      exact produces_of_settles (settles_log rfl) (by simp) (List.subset_append_left _ _)
    · cases h
      exact .refl s _
  | finishSync outcome =>
    rw [next] at h
    split at h
    · next chain readySync hphase =>
      rw [finishing, hphase]
      obtain ⟨ctx, hset, h⟩ := bind_eq_ok.mp h
      cases h
      exact produces_of_settles (settles_setResolvedValue hset) (List.subset_append_right _ _)
        (List.subset_append_left _ _)
    · cases h
      exact .refl s _
  | getReady =>
    rw [next] at h
    split at h
    · obtain ⟨⟨readySync, readyAsync, ctx⟩, hready, h⟩ := bind_eq_ok.mp h
      cases h
      exact produces_of_settles (settles_getReadySyncAndAsync hready) (by simp) (List.subset_append_left _ _)
    · cases h
      exact .refl s _
  | startSinglet id =>
    obtain ⟨hset, hsub⟩ := settles_startGreenlet id s.inProgressAsyncSinglets s.context
    cases h
    exact produces_of_settles hset (by simp) (singlets_subset (by simpa [finishing] using hsub))
  | startBatch id =>
    obtain ⟨hset, hsub⟩ := settles_startGreenlet id s.inProgressAsyncBatches s.context
    cases h
    exact produces_of_settles hset (by simp) (batches_subset (by simpa [finishing] using hsub))
  | finishSinglet id outcome =>
    have hsub := results_finishGreenlet id (fun chains => (chains.map fun c => (wrappedExecution c.val outcome).1,
      chains.flatMap fun c => (wrappedExecution c.val outcome).2)) s.inProgressAsyncSinglets
    cases h
    refine produces_of_settles (.refl _) (by simp) (singlets_subset ?_)
    rw [finishing]
    split <;> next hfind => simpa [hfind] using hsub
  | finishBatch id outcome =>
    have hsub := results_finishGreenlet id
      (fun chains => wrappedBatchExecution cfg.checkResultType (chains.map Fin.val) outcome) s.inProgressAsyncBatches
    cases h
    refine produces_of_settles (.refl _) (by simp) (batches_subset ?_)
    rw [finishing]
    split <;> next hfind => simpa [hfind] using hsub
  | enqueue source => exact absurd rfl (hlabel source)

end

end Osprey.Executor
