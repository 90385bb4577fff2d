/-
The chains in the executor's hands: those passed out and not resolved, some
of them executed already. What each part of a step does to them, and to the
work that is left.
-/
import Mathlib.Data.List.Flatten
import Osprey.Engine.Executor

namespace Osprey.Executor

open Lib (Dict)

variable {g : ExecutionGraph} {V : Type}

/-! ## The chains in the executor's hands -/

def pendingOf {n : Nat} (gls : List (Greenlet n V)) : List (Fin n) :=
  (gls.filter Greenlet.isSpawned).flatMap Greenlet.chains

def runningOf {n : Nat} (gls : List (Greenlet n V)) : List (Fin n) :=
  (gls.filter fun gl => !gl.isSpawned).flatMap Greenlet.chains

def Phase.pending {n : Nat} : Phase n → List (Fin n)
  | top readySync readyAsync => readySync ++ readyAsync
  | syncLoop readySync | executing _ readySync => readySync
  | waiting _ | exited => []

def Phase.running {n : Nat} : Phase n → List (Fin n)
  | executing chain _ => [chain]
  | top .. | syncLoop _ | waiting _ | exited => []

/-- Passed out, not executed yet. -/
def State.pending (s : State g V) : List (Fin g.size) :=
  s.phase.pending ++ (pendingOf s.inProgressAsyncSinglets ++ pendingOf s.inProgressAsyncBatches)

/-- Executed, not resolved yet. -/
def State.running (s : State g V) : List (Fin g.size) :=
  s.phase.running ++ (runningOf s.inProgressAsyncSinglets ++ runningOf s.inProgressAsyncBatches)

/-- A greenlet that has finished has a result for each of its chains. -/
def WellFinished {n : Nat} (gls : List (Greenlet n V)) : Prop :=
  ∀ gl ∈ gls, ∀ results, gl.status = .finished results → results.length = gl.chains.length

section

variable {n : Nat} {gl : Greenlet n V} {gls : List (Greenlet n V)}

theorem pendingOf_cons (gl : Greenlet n V) (gls : List (Greenlet n V)) :
    pendingOf (gl :: gls) = (if gl.isSpawned then gl.chains else []) ++ pendingOf gls := by
  cases h : gl.isSpawned <;> simp [pendingOf, h]

theorem runningOf_cons (gl : Greenlet n V) (gls : List (Greenlet n V)) :
    runningOf (gl :: gls) = (if gl.isSpawned then [] else gl.chains) ++ runningOf gls := by
  cases h : gl.isSpawned <;> simp [runningOf, h]

@[simp] theorem pendingOf_append (gls gls' : List (Greenlet n V)) :
    pendingOf (gls ++ gls') = pendingOf gls ++ pendingOf gls' := by simp [pendingOf]

@[simp] theorem runningOf_append (gls gls' : List (Greenlet n V)) :
    runningOf (gls ++ gls') = runningOf gls ++ runningOf gls' := by simp [runningOf]

theorem WellFinished.tail (h : WellFinished (gl :: gls)) : WellFinished gls :=
  fun gl' hmem => h gl' (by simp [hmem])

theorem WellFinished.head (h : WellFinished (gl :: gls)) {results}
    (hstatus : gl.status = .finished results) : results.length = gl.chains.length :=
  h gl (by simp) results hstatus

theorem wellFinished_cons (hgl : ∀ results, gl.status = .finished results → results.length = gl.chains.length)
    (h : WellFinished gls) : WellFinished (gl :: gls) := by
  intro gl' hmem
  rcases List.mem_cons.mp hmem with rfl | hmem
  · exact hgl
  · exact h gl' hmem

end

def Greenlet.work {n : Nat} (gl : Greenlet n V) : Nat := match gl.status with
  | .spawned => 2
  | .running => 1
  | .finished _ => 0

def workOf {n : Nat} (gls : List (Greenlet n V)) : Nat := (gls.map Greenlet.work).sum

@[simp] theorem workOf_cons {n} (gl : Greenlet n V) (gls : List (Greenlet n V)) :
    workOf (gl :: gls) = gl.work + workOf gls := by simp [workOf]

/-! ## What the parts of a step do -/

def doneCount (ctx : ExecutionContext g V) : Nat := (resolutions ctx.trace).length

section

variable {ctx : ExecutionContext g V} {pending running : List (Fin g.size)}

theorem logStarted_inUse (cs : List (Fin g.size)) (h : ctx.InUse (cs ++ pending) running) :
    (logStarted ctx cs).InUse pending (cs ++ running) ∧ doneCount (logStarted ctx cs) = doneCount ctx ∧
      (logStarted ctx cs).dependencyDag = ctx.dependencyDag := by
  induction cs generalizing ctx running with
  | nil => exact ⟨h, rfl, rfl⟩
  | cons c cs ih =>
    have h₁ : (ctx.log (.started c)).InUse (cs ++ pending) (c :: running) := h.execute rfl
    obtain ⟨h', hcount, hdag⟩ := ih h₁
    exact ⟨h'.perm (.refl _) List.perm_middle, hcount, hdag⟩

theorem setResolvedValues_inUse (cs : List (Fin g.size)) (results : List (NodeResult V))
    (hlen : results.length = cs.length) (h : ctx.InUse pending (cs ++ running)) :
    ∃ ctx', setResolvedValues ctx cs results = .ok ctx' ∧ ctx'.InUse pending running ∧
      doneCount ctx' = doneCount ctx + cs.length := by
  induction cs generalizing ctx results with
  | nil => exact ⟨ctx, rfl, h, rfl⟩
  | cons c cs ih =>
    cases results with
    | nil => simp at hlen
    | cons r results =>
      obtain ⟨ctx₁, hset, h₁, htrace⟩ := h.setResolvedValue r
      obtain ⟨ctx', hrest, h', hcount⟩ := ih results (by simpa using hlen) h₁
      refine ⟨ctx', by rw [setResolvedValues, hset]; exact hrest, h', ?_⟩
      rw [hcount, doneCount, htrace]
      simp [doneCount]
      omega

/-- What popping finished greenlets does: it resolves what they executed, and leaves the others. -/
structure Popped (pick : Nat → Bool) (pending running : List (Fin g.size)) (ctx ctx' : ExecutionContext g V)
    (gls gls' : List (Greenlet g.size V)) : Prop where
  inUse : ctx'.InUse pending (runningOf gls' ++ running)
  pendingOf : pendingOf gls' = pendingOf gls
  finished : WellFinished gls'
  sublist : gls'.Sublist gls
  count : doneCount ctx' + (runningOf gls').length = doneCount ctx + (runningOf gls).length
  work : workOf gls' = workOf gls
  le : doneCount ctx ≤ doneCount ctx'
  lt : ∀ gl ∈ gls, pick gl.id = true → gl.ready = true → gl.chains ≠ [] → doneCount ctx < doneCount ctx'

theorem runningOf_cons_perm (gl : Greenlet g.size V) (gls : List (Greenlet g.size V)) (running : List (Fin g.size)) :
    (runningOf (gl :: gls) ++ running).Perm
      (runningOf gls ++ ((if gl.isSpawned then [] else gl.chains) ++ running)) := by
  rw [runningOf_cons, List.append_assoc]
  exact List.perm_append_comm_assoc _ _ _

theorem Popped.keep {pick : Nat → Bool} {ctx' : ExecutionContext g V} {gl : Greenlet g.size V}
    {gls gls' : List (Greenlet g.size V)} (hpick : pick gl.id = true → gl.ready = false)
    (hgl : ∀ results, gl.status = .finished results → results.length = gl.chains.length)
    (h : Popped pick pending ((if gl.isSpawned then [] else gl.chains) ++ running) ctx ctx' gls gls') :
    Popped pick pending running ctx ctx' (gl :: gls) (gl :: gls') where
  inUse := h.inUse.perm (.refl _) (runningOf_cons_perm gl gls' running).symm
  pendingOf := by rw [pendingOf_cons, pendingOf_cons, h.pendingOf]
  finished := wellFinished_cons hgl h.finished
  sublist := h.sublist.cons_cons gl
  count := by
    have := h.count
    simp only [runningOf_cons, List.length_append]
    omega
  work := by rw [workOf_cons, workOf_cons, h.work]
  le := h.le
  lt gl' hmem hp hr hc := by
    rcases List.mem_cons.mp hmem with rfl | hmem
    · rw [hpick hp] at hr
      cases hr
    · exact h.lt gl' hmem hp hr hc

theorem popFinished_inUse (pick : Nat → Bool) (gls : List (Greenlet g.size V)) (hfin : WellFinished gls)
    (h : ctx.InUse pending (runningOf gls ++ running)) :
    ∃ ctx' gls', popFinished pick gls ctx = .ok (ctx', gls') ∧ Popped pick pending running ctx ctx' gls gls' := by
  induction gls generalizing ctx running with
  | nil => exact ⟨ctx, [], rfl, h, rfl, hfin, .slnil, rfl, rfl, le_rfl, nofun⟩
  | cons gl gls ih =>
    obtain ⟨ctx₁, gls₁, hpop, hpopped⟩ := ih hfin.tail (h.perm (.refl _) (runningOf_cons_perm gl gls running))
    have hkeep := fun hpick => hpopped.keep hpick fun results => hfin.head
    cases hstatus : gl.status with
    | spawned | running =>
      refine ⟨ctx₁, gl :: gls₁, ?_, hkeep fun _ => by simp [Greenlet.ready, hstatus]⟩
      rw [popFinished, hstatus]
      simp only [hpop]
      rfl
    | finished results =>
      by_cases hpick : pick gl.id = true
      · have hspawned : gl.isSpawned = false := by simp [Greenlet.isSpawned, hstatus]
        have hrun : runningOf (gl :: gls) = gl.chains ++ runningOf gls := by rw [runningOf_cons, hspawned]; rfl
        rw [hrun, List.append_assoc] at h
        obtain ⟨ctx₂, hset, h₂, hcount₂⟩ := setResolvedValues_inUse gl.chains results (hfin.head hstatus) h
        obtain ⟨ctx', gls', hpop', hp⟩ := ih hfin.tail h₂
        have hle := hp.le
        refine ⟨ctx', gls', ?_, hp.inUse, ?_, hp.finished, hp.sublist.cons gl, ?_, ?_, by omega, ?_⟩
        · rw [popFinished, hstatus]
          simp only [hpick, if_true, hset]
          exact hpop'
        · rw [pendingOf_cons, hspawned, hp.pendingOf]
          rfl
        · have := hp.count
          rw [hrun, List.length_append]
          omega
        · have hwork : gl.work = 0 := by simp [Greenlet.work, hstatus]
          rw [workOf_cons, hwork, hp.work]
          omega
        · intro gl' hmem hpk hr hc
          rcases List.mem_cons.mp hmem with rfl | hmem
          · have := List.length_pos_iff.mpr hc
            omega
          · have := hp.lt gl' hmem hpk hr hc
            omega
      · refine ⟨ctx₁, gl :: gls₁, ?_, hkeep fun h => absurd h hpick⟩
        rw [popFinished, hstatus]
        simp only [hpick, if_false, Bool.false_eq_true, hpop]
        rfl

/-! ### Greenlets that move on -/

structure Started (pending running : List (Fin g.size)) (ctx ctx' : ExecutionContext g V)
    (gls gls' : List (Greenlet g.size V)) : Prop where
  inUse : ctx'.InUse (pendingOf gls' ++ pending) (runningOf gls' ++ running)
  finished : WellFinished gls → WellFinished gls'
  count : doneCount ctx' = doneCount ctx
  passed : (pendingOf gls').length + (runningOf gls').length = (pendingOf gls).length + (runningOf gls).length
  chains : gls'.map Greenlet.chains = gls.map Greenlet.chains
  dag : ctx'.dependencyDag = ctx.dependencyDag
  work : workOf gls' + 1 = workOf gls

theorem pendingOf_cons_perm (gl : Greenlet g.size V) (gls : List (Greenlet g.size V)) (pending : List (Fin g.size)) :
    (pendingOf (gl :: gls) ++ pending).Perm
      (pendingOf gls ++ ((if gl.isSpawned then gl.chains else []) ++ pending)) := by
  rw [pendingOf_cons, List.append_assoc]
  exact List.perm_append_comm_assoc _ _ _

theorem startGreenlet_spec (id : Nat) (gls : List (Greenlet g.size V))
    (h : ctx.InUse (pendingOf gls ++ pending) (runningOf gls ++ running)) :
    startGreenlet id gls ctx = (ctx, gls) ∨
      Started pending running ctx (startGreenlet id gls ctx).1 gls (startGreenlet id gls ctx).2 := by
  induction gls generalizing pending running with
  | nil => exact .inl rfl
  | cons gl gls ih =>
    by_cases hgl : gl.id = id ∧ gl.isSpawned = true
    · right
      have hrun : gl.start.isSpawned = false := rfl
      rw [startGreenlet, if_pos hgl]
      rw [pendingOf_cons, runningOf_cons, hgl.2, if_pos rfl, if_pos rfl, List.append_assoc] at h
      obtain ⟨h', hcount, hdag⟩ := logStarted_inUse gl.chains h
      refine ⟨?_, fun hfin => wellFinished_cons nofun hfin.tail, hcount, ?_, rfl, hdag, ?_⟩
      · rw [pendingOf_cons, runningOf_cons, hrun]
        simpa [Greenlet.start] using h'
      · simp only [pendingOf_cons, runningOf_cons, hrun, hgl.2]
        simp [Greenlet.start]
        omega
      · have hwork : gl.work = 2 := by
          have := hgl.2
          unfold Greenlet.isSpawned at this
          unfold Greenlet.work
          split at this
          · next hs => rw [hs]
          · cases this
        have hwork' : gl.start.work = 1 := rfl
        rw [workOf_cons, workOf_cons, hwork, hwork']
        omega
    · rw [startGreenlet, if_neg hgl]
      have hperm := h.perm (pendingOf_cons_perm gl gls pending) (runningOf_cons_perm gl gls running)
      rcases ih hperm with heq | hs
      · left
        rw [heq]
      · right
        refine ⟨?_, ?_, hs.count, ?_, ?_, hs.dag, ?_⟩
        · exact hs.inUse.perm (pendingOf_cons_perm gl _ pending).symm (runningOf_cons_perm gl _ running).symm
        · exact fun hfin => wellFinished_cons (fun results => hfin.head) (hs.finished hfin.tail)
        · have := hs.passed
          simp only [pendingOf_cons, runningOf_cons, List.length_append]
          omega
        · simp [hs.chains]
        · have := hs.work
          simp only [workOf_cons]
          omega

/-- What the end of a greenlet does: its chains wait for the main greenlet. -/
structure Finished {n : Nat} (gls gls' : List (Greenlet n V)) : Prop where
  pendingOf : pendingOf gls' = pendingOf gls
  runningOf : runningOf gls' = runningOf gls
  finished : WellFinished gls → WellFinished gls'
  chains : gls'.map Greenlet.chains = gls.map Greenlet.chains
  work : workOf gls' + 1 = workOf gls

theorem finishGreenlet_spec (id : Nat) (execution : List (Fin g.size) → List (NodeResult V) × List NodeErrorInfo)
    (hlen : ∀ chains, (execution chains).1.length = chains.length) (gls : List (Greenlet g.size V)) :
    finishGreenlet id execution gls = (gls, []) ∨ Finished gls (finishGreenlet id execution gls).1 := by
  induction gls with
  | nil => exact .inl rfl
  | cons gl gls ih =>
    by_cases hgl : gl.id = id ∧ gl.isRunning = true
    · right
      have hstatus : gl.status = .running := by
        have := hgl.2
        unfold Greenlet.isRunning at this
        split at this
        · next hs => exact hs
        · cases this
      have hspawned : gl.isSpawned = false := by simp [Greenlet.isSpawned, hstatus]
      have hspawned' : (gl.finish (execution gl.chains).1).isSpawned = false := rfl
      rw [finishGreenlet, if_pos hgl]
      refine ⟨?_, ?_, fun hfin => wellFinished_cons ?_ hfin.tail, rfl, ?_⟩
      · rw [pendingOf_cons, pendingOf_cons, hspawned, hspawned']
        rfl
      · rw [runningOf_cons, runningOf_cons, hspawned, hspawned']
        rfl
      · intro results hres
        cases hres
        exact hlen gl.chains
      · simp only [workOf_cons, Greenlet.work, hstatus, Greenlet.finish]
        omega
    · rw [finishGreenlet, if_neg hgl]
      rcases ih with heq | hf
      · left
        rw [heq]
      · right
        refine ⟨?_, ?_, ?_, ?_, ?_⟩
        · rw [pendingOf_cons, pendingOf_cons, hf.pendingOf]
        · rw [runningOf_cons, runningOf_cons, hf.runningOf]
        · exact fun hfin => wellFinished_cons (fun results => hfin.head) (hf.finished hfin.tail)
        · simp [hf.chains]
        · have := hf.work
          simp only [workOf_cons]
          omega

/-! ### Batches -/

def argumentsFail (routingKey : Nat → Except Exc String) (c : Fin g.size) : Bool :=
  (g.executor c).batchType.isSome && match routingKey c with
    | .ok _ => false
    | .error _ => true

def isGrouped (routingKey : Nat → Except Exc String) (c : Fin g.size) : Bool :=
  (g.executor c).batchType.isSome && match routingKey c with
    | .ok _ => true
    | .error _ => false

theorem argumentsFail_of_isGrouped {routingKey} {c : Fin g.size}
    (h : isGrouped routingKey c = true) : argumentsFail routingKey c = false := by
  unfold isGrouped at h
  unfold argumentsFail
  cases hk : routingKey c with
  | ok key => simp
  | error e => simp [hk] at h

/-- What the first loop of `_enqueue_batches` does with the chains `cs`. -/
structure Grouped (routingKey : Nat → Except Exc String) (pending running cs : List (Fin g.size))
    (b b' : Batching g V) : Prop where
  inUse : b'.context.InUse (cs.filter (fun c => !argumentsFail routingKey c) ++ pending) running
  removed : b'.chainsToRemove = b.chainsToRemove ++ cs.filter (argumentsFail routingKey)
  groups : (b'.batchChains.values.flatten).Perm (b.batchChains.values.flatten ++ cs.filter (isGrouped routingKey))
  count : doneCount b'.context = doneCount b.context + (cs.filter (argumentsFail routingKey)).length

theorem groupBatches_spec (routingKey : Nat → Except Exc String) (cs : List (Fin g.size)) (b : Batching g V)
    (h : b.context.InUse (cs ++ pending) running) :
    ∃ b', groupBatches routingKey cs b = .ok b' ∧ Grouped routingKey pending running cs b b' := by
  induction cs generalizing b pending with
  | nil => exact ⟨b, rfl, h, by simp, by simp, rfl⟩
  | cons c cs ih =>
    -- A chain that stays pending is put aside while the rest is handled.
    have haside : b.context.InUse (cs ++ (c :: pending)) running := h.perm List.perm_middle.symm (.refl _)
    have hback : ∀ l : List (Fin g.size), (l ++ (c :: pending)).Perm (c :: l ++ pending) := fun l => List.perm_middle
    cases htype : (g.executor c).batchType with
    | none =>
      have hfail : argumentsFail routingKey c = false := by simp [argumentsFail, htype]
      have hgroup : isGrouped routingKey c = false := by simp [isGrouped, htype]
      obtain ⟨b', hb', hg⟩ := ih b haside
      refine ⟨b', by rw [groupBatches, htype]; exact hb', ?_⟩
      refine ⟨?_, ?_, ?_, ?_⟩
      · simpa [hfail] using hg.inUse.perm (hback _) (.refl _)
      · simpa [hfail] using hg.removed
      · simpa [hgroup] using hg.groups
      · simpa [hfail] using hg.count
    | some batchType =>
      cases hkey : routingKey c with
      | ok key =>
        have hfail : argumentsFail routingKey c = false := by simp [argumentsFail, hkey]
        have hgroup : isGrouped routingKey c = true := by simp [isGrouped, htype, hkey]
        obtain ⟨b', hb', hg⟩ := ih { b with batchChains := b.batchChains.appendAt (batchType, key) [c] } haside
        refine ⟨b', by rw [groupBatches, htype]; simp only [hkey]; exact hb', ?_⟩
        refine ⟨?_, ?_, ?_, ?_⟩
        · simpa [hfail] using hg.inUse.perm (hback _) (.refl _)
        · simpa [hfail] using hg.removed
        · have happend := (b.batchChains.flatten_appendAt (batchType, key) [c]).map Prod.snd
          rw [List.map_append, Dict.map_snd_flatten, Dict.map_snd_flatten] at happend
          refine hg.groups.trans ((happend.append_right _).trans ?_)
          simp [hgroup]
        · simpa [hfail] using hg.count
      | error e =>
        have hfail : argumentsFail routingKey c = true := by simp [argumentsFail, htype, hkey]
        have hgroup : isGrouped routingKey c = false := by simp [isGrouped, hkey]
        have hexec : (b.context.log (.argumentsFailed c)).InUse (cs ++ pending) (c :: running) := h.execute rfl
        obtain ⟨ctx, hset, hctx, htrace⟩ := hexec.setResolvedValue .err
        obtain ⟨b', hb', hg⟩ := ih { b with
          context := ctx
          errorInfos := b.errorInfos ++ errorInfo e c
          chainsToRemove := b.chainsToRemove ++ [c] } hctx
        have hcount : doneCount ctx = doneCount b.context + 1 := by
          rw [doneCount, htrace]
          rfl
        refine ⟨b', ?_, ?_⟩
        · rw [groupBatches, htype]
          simp only [hkey, hset]
          exact hb'
        · refine ⟨?_, ?_, ?_, ?_⟩
          · simpa [hfail] using hg.inUse
          · simpa [hfail] using hg.removed
          · simpa [hgroup] using hg.groups
          · have := hg.count
            simp only [hcount] at this
            simp [hfail]
            omega

theorem isSpawned_of_mem_spawn {first tasks} {gl : Greenlet g.size V}
    (h : gl ∈ spawn first tasks) : gl.isSpawned = true ∧ gl.chains ∈ tasks := by
  obtain ⟨⟨chains, i⟩, hmem, rfl⟩ := List.mem_map.mp h
  exact ⟨rfl, (List.mem_zipIdx' hmem).2 ▸ List.getElem_mem _⟩

variable (first : Nat) (tasks : List (List (Fin g.size)))

theorem map_chains_spawn : (spawn first tasks : List (Greenlet g.size V)).map Greenlet.chains = tasks := by
  simp [spawn, Function.comp_def, List.zipIdx_map_fst]

theorem pendingOf_spawn : pendingOf (spawn first tasks : List (Greenlet g.size V)) = tasks.flatten := by
  have hall : (spawn first tasks : List (Greenlet g.size V)).filter Greenlet.isSpawned = spawn first tasks :=
    List.filter_eq_self.mpr fun gl hgl => (isSpawned_of_mem_spawn hgl).1
  rw [pendingOf, hall, List.flatMap_def, map_chains_spawn]

theorem runningOf_spawn : runningOf (spawn first tasks : List (Greenlet g.size V)) = [] := by
  have hnone : (spawn first tasks : List (Greenlet g.size V)).filter (fun gl => !gl.isSpawned) = [] :=
    List.filter_eq_nil_iff.mpr fun gl hgl => by simp [(isSpawned_of_mem_spawn hgl).1]
  rw [runningOf, hnone]
  rfl

theorem workOf_spawn : workOf (spawn first tasks : List (Greenlet g.size V)) = 2 * tasks.length := by
  have hwork : ∀ gl ∈ (spawn first tasks : List (Greenlet g.size V)), gl.work = 2 := by
    intro gl hgl
    obtain ⟨⟨chains, i⟩, -, rfl⟩ := List.mem_map.mp hgl
    rfl
  have hlen : (spawn first tasks : List (Greenlet g.size V)).length = tasks.length := by simp [spawn]
  rw [workOf, List.map_congr_left hwork, List.map_const', List.sum_replicate_nat, hlen, mul_comm]

@[simp] theorem workOf_append {n} (gls gls' : List (Greenlet n V)) :
    workOf (gls ++ gls') = workOf gls + workOf gls' := by simp [workOf]

theorem WellFinished.append {n} {gls gls' : List (Greenlet n V)} (h : WellFinished gls)
    (h' : WellFinished gls') : WellFinished (gls ++ gls') := by
  intro gl hmem
  exact (List.mem_append.mp hmem).elim (h gl) (h' gl)

theorem wellFinished_spawn : WellFinished (spawn first tasks : List (Greenlet g.size V)) := by
  intro gl hmem results hres
  have := (isSpawned_of_mem_spawn hmem).1
  simp [Greenlet.isSpawned, hres] at this

theorem batches_append_remaining (routingKey : Nat → Except Exc String) {cs} (hnodup : cs.Nodup)
    {b b' : Batching g V} (hb : b.batchChains = Dict.empty) (hremove : b.chainsToRemove = [])
    (h : Grouped routingKey pending running cs b b') :
    (b'.batches.flatten ++ cs.filter fun c => !(b'.chainsToRemove ++ b'.batches.flatten).contains c).Perm
      (cs.filter fun c => !argumentsFail routingKey c) := by
  have hgroups : (b'.batchChains.values.flatten).Perm (cs.filter (isGrouped routingKey)) := by
    have := h.groups
    rwa [hb] at this
  have hsub : b'.batches.flatten.Sublist b'.batchChains.values.flatten := List.filter_sublist.flatten
  have hbnodup : b'.batches.flatten.Nodup := hsub.nodup (hgroups.nodup_iff.mpr (hnodup.filter _))
  have hmem : ∀ c ∈ b'.batches.flatten, c ∈ cs ∧ isGrouped routingKey c = true :=
    fun c hc => List.mem_filter.mp (hgroups.mem_iff.mp (hsub.subset hc))
  have hremoved : ∀ c, c ∈ b'.chainsToRemove ↔ c ∈ cs ∧ argumentsFail routingKey c = true := by
    intro c
    rw [h.removed, hremove, List.nil_append, List.mem_filter]
  refine (List.perm_ext_iff_of_nodup ?_ (hnodup.filter _)).mpr ?_
  · refine List.nodup_append.mpr ⟨hbnodup, hnodup.filter _, ?_⟩
    rintro c hc d hd rfl
    simp only [List.mem_filter, List.contains_eq_mem, List.mem_append, Bool.not_eq_true', decide_eq_false_iff_not,
      not_or] at hd
    exact hd.2.2 hc
  · intro c
    simp only [List.mem_append, List.mem_filter, List.contains_eq_mem, decide_eq_false_iff_not, hremoved,
      Bool.not_eq_true', not_or]
    constructor
    · rintro (hc | ⟨hc, hno, -⟩)
      · exact ⟨(hmem c hc).1, argumentsFail_of_isGrouped (hmem c hc).2⟩
      · exact ⟨hc, by simpa [hc] using hno⟩
    · rintro ⟨hc, hno⟩
      by_cases hbc : c ∈ b'.batches.flatten
      · exact .inl hbc
      · exact .inr ⟨hc, by simp [hno], hbc⟩

end

end Osprey.Executor
