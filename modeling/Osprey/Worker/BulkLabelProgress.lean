/-
The progress of a bulk label task: the entities below `entities_labeled` in the
sorted list of ids have been labelled, whoever wrote the number, and all of them
have when the task is complete.

That is so although the number may go down and stale workers write it. A number
that was right stays right, since labels are not taken away again, and a worker
writes only what it has read or what it has labelled up to. It needs that all
attempts collect the same ids: the number is a place in their sorted list.
-/
import Osprey.Worker.BulkLabelTask

namespace Osprey.BulkLabel

/-- Every attempt collects the ids `S`. -/
def Collects (S : Finset String) : Event → Prop
  | .collect _ entityIds _ => entityIds = S
  | _ => True

section

variable (S : Finset String)

/-- The ids before a place in the sorted list are labelled, and there is such a place. -/
structure LabelledUpTo (labelled : List String) (count : Nat) : Prop where
  le : count ≤ S.card
  mem : ∀ i id, i < count → (State.sorted S)[i]? = some id → id ∈ labelled

structure RowOk (labelled : List String) (row : Row) : Prop where
  progress : LabelledUpTo S labelled row.entitiesLabeled
  total : row.totalEntitiesToLabel = none ∨ row.totalEntitiesToLabel = some S.card
  complete : row.taskStatus = .complete → LabelledUpTo S labelled S.card

structure ChangesOk (labelled : List String) (c : Changes) : Prop where
  progress : ∀ count, c.entitiesLabeled = some count → LabelledUpTo S labelled count
  total : ∀ total, c.totalEntitiesToLabel = some total → total = some S.card
  complete : c.taskStatus = some .complete → LabelledUpTo S labelled S.card

/-- What a worker has loaded was stored once, and what it has set may be stored. -/
structure CopyOk (labelled : List String) (row : Row) (c : Copy) : Prop where
  loaded : ∀ r, c.loaded = some r → RowOk S labelled r
  pending : ChangesOk S labelled c.pending
  total : ∀ r, c.loaded = some r → r.totalEntitiesToLabel = some S.card → row.totalEntitiesToLabel = some S.card

/-- The worker reads the number of ids as the total, now and later. -/
def KnowsTotal (row : Row) (c : Copy) : Prop :=
  c.pending.totalEntitiesToLabel = some (some S.card) ∨
    row.totalEntitiesToLabel = some S.card ∧ ∀ r, c.loaded = some r → r.totalEntitiesToLabel = some S.card

/-- Where a worker is, all that it has passed is labelled. -/
def PhaseOk (labelled : List String) (row : Row) (c : Copy) : Phase → Prop
  | .claimed | .collecting | .sending => True
  | .labelling entityIds index stop =>
    entityIds = State.sorted S ∧ stop = S.card ∧ index < S.card ∧ LabelledUpTo S labelled index ∧
      KnowsTotal S row c
  | .labelled entityIds index stop =>
    entityIds = State.sorted S ∧ stop = S.card ∧ index < S.card ∧ LabelledUpTo S labelled (index + 1) ∧
      KnowsTotal S row c
  | .finished => LabelledUpTo S labelled S.card ∧ KnowsTotal S row c
  | .completing => LabelledUpTo S labelled S.card

structure WorkerOk (labelled : List String) (row : Row) (worker : Worker) : Prop where
  copy : CopyOk S labelled row worker.copy
  phase : PhaseOk S labelled row worker.copy worker.phase

structure Inv (s : State) : Prop where
  row : RowOk S s.labelled s.row
  workers : ∀ w worker, s.workers w = some worker → WorkerOk S s.labelled s.row worker

end

variable {S : Finset String} {labelled labelled' : List String} {row row' : Row} {c : Copy}

/-! ## More labels, another row -/

variable {count : Nat}

theorem LabelledUpTo.mono (h : LabelledUpTo S labelled count) (hsub : labelled ⊆ labelled') :
    LabelledUpTo S labelled' count :=
  ⟨h.le, fun i id hi hid => hsub (h.mem i id hi hid)⟩

theorem RowOk.mono (h : RowOk S labelled row) (hsub : labelled ⊆ labelled') : RowOk S labelled' row :=
  ⟨h.progress.mono hsub, h.total, fun hs => (h.complete hs).mono hsub⟩

variable {changes : Changes}

theorem ChangesOk.mono (h : ChangesOk S labelled changes) (hsub : labelled ⊆ labelled') :
    ChangesOk S labelled' changes :=
  ⟨fun count hc => (h.progress count hc).mono hsub, h.total, fun hs => (h.complete hs).mono hsub⟩

section

variable (hsub : labelled ⊆ labelled')
  (hkept : row.totalEntitiesToLabel = some S.card → row'.totalEntitiesToLabel = some S.card)
include hsub hkept

theorem CopyOk.mono (h : CopyOk S labelled row c) : CopyOk S labelled' row' c :=
  ⟨fun r hr => (h.loaded r hr).mono hsub, h.pending.mono hsub, fun r hr ht => hkept (h.total r hr ht)⟩

theorem WorkerOk.mono {worker} (h : WorkerOk S labelled row worker) : WorkerOk S labelled' row' worker := by
  refine ⟨h.copy.mono hsub hkept, ?_⟩
  have hknows : KnowsTotal S row worker.copy → KnowsTotal S row' worker.copy :=
    Or.imp_right fun hk => ⟨hkept hk.1, hk.2⟩
  have hphase := h.phase
  revert hphase
  cases worker.phase with
  | claimed | collecting | sending => exact id
  | labelling entityIds index stop | labelled entityIds index stop =>
    intro ⟨hids, hstop, hindex, hlabelled, htotal⟩
    exact ⟨hids, hstop, hindex, hlabelled.mono hsub, hknows htotal⟩
  | finished => exact fun hf => ⟨hf.1.mono hsub, hknows hf.2⟩
  | completing => exact fun hf => LabelledUpTo.mono hf hsub

end

variable {s : State}

theorem Inv.update (hi : Inv S s) {w worker processed} (hrow : RowOk S labelled' row') (hsub : s.labelled ⊆ labelled')
    (hkept : s.row.totalEntitiesToLabel = some S.card → row'.totalEntitiesToLabel = some S.card)
    (hworker : ∀ x, worker = some x → WorkerOk S labelled' row' x) :
    Inv S ⟨row', Function.update s.workers w worker, labelled', processed⟩ := by
  refine ⟨hrow, fun w' x hx => ?_⟩
  by_cases hw : w' = w
  · subst hw
    exact hworker x ((Function.update_self w' worker s.workers).symm.trans hx)
  · have hx : s.workers w' = some x := (Function.update_of_ne hw worker s.workers).symm.trans hx
    exact (hi.workers w' x hx).mono hsub hkept

theorem Inv.updateWorker (hi : Inv S s) {w worker}
    (hworker : ∀ x, worker = some x → WorkerOk S s.labelled s.row x) : Inv S (s.setWorker w worker) :=
  hi.update hi.row (List.Subset.refl _) id hworker

/-! ## Copies -/

theorem copyOk_empty : CopyOk S labelled row {} := ⟨nofun, ⟨nofun, nofun, nofun⟩, nofun⟩

theorem RowOk.write (h : RowOk S labelled row) (hc : ChangesOk S labelled changes) :
    RowOk S labelled (changes.write row) := by
  refine ⟨?_, ?_, ?_⟩
  · show LabelledUpTo S labelled (changes.entitiesLabeled.getD row.entitiesLabeled)
    cases hlabeled : changes.entitiesLabeled with
    | none => exact h.progress
    | some count => exact hc.progress count hlabeled
  · show changes.totalEntitiesToLabel.getD row.totalEntitiesToLabel = none ∨
      changes.totalEntitiesToLabel.getD row.totalEntitiesToLabel = some S.card
    cases htotal : changes.totalEntitiesToLabel with
    | none => exact h.total
    | some total => exact .inr (hc.total total htotal)
  · show changes.taskStatus.getD row.taskStatus = .complete → _
    cases hstatus : changes.taskStatus with
    | none => exact h.complete
    | some status =>
      intro hs
      exact hc.complete (by rw [hstatus]; exact congrArg some hs)

theorem ChangesOk.kept (hc : ChangesOk S labelled changes)
    (h : row.totalEntitiesToLabel = some S.card) : (changes.write row).totalEntitiesToLabel = some S.card := by
  show changes.totalEntitiesToLabel.getD row.totalEntitiesToLabel = some S.card
  cases htotal : changes.totalEntitiesToLabel with
  | none => exact h
  | some total => exact hc.total total htotal

theorem CopyOk.load (h : CopyOk S labelled row c) (hrow : RowOk S labelled row) :
    CopyOk S labelled row (c.load row) := by
  refine ⟨fun r hr => ?_, h.pending, fun r hr ht => ?_⟩
  · cases hloaded : c.loaded with
    | none =>
      simp only [Copy.load, hloaded, Option.getD_none, Option.some.injEq] at hr
      exact hr ▸ hrow
    | some r' =>
      simp only [Copy.load, hloaded, Option.getD_some, Option.some.injEq] at hr
      exact hr ▸ h.loaded r' hloaded
  · cases hloaded : c.loaded with
    | none =>
      simp only [Copy.load, hloaded, Option.getD_none, Option.some.injEq] at hr
      rw [hr]
      exact ht
    | some r' =>
      simp only [Copy.load, hloaded, Option.getD_some, Option.some.injEq] at hr
      exact h.total r' hloaded (hr ▸ ht)

theorem CopyOk.read (h : CopyOk S labelled row c) (hrow : RowOk S labelled row) : RowOk S labelled (c.read row) := by
  refine RowOk.write ?_ h.pending
  cases hloaded : c.loaded with
  | none => exact hrow
  | some r => exact h.loaded r hloaded

theorem setColumn_cases {α : Type} [DecidableEq α] {loaded pending new} {v : α}
    (h : setColumn loaded pending new = some v) : pending = some v ∨ new = some v := by
  unfold setColumn at h
  split at h
  · exact .inl h
  · split at h
    · cases h
    · exact .inr h

theorem CopyOk.set (h : CopyOk S labelled row c) {new : Changes} (hnew : ChangesOk S labelled new) :
    CopyOk S labelled row (c.set new) := by
  refine ⟨h.loaded, ⟨fun count hc => ?_, fun total ht => ?_, fun hs => ?_⟩, h.total⟩
  · rcases setColumn_cases hc with hc | hc
    · exact h.pending.progress count hc
    · exact hnew.progress count hc
  · rcases setColumn_cases ht with ht | ht
    · exact h.pending.total total ht
    · exact hnew.total total ht
  · rcases setColumn_cases hs with hs | hs
    · exact h.pending.complete hs
    · exact hnew.complete hs

theorem heartbeatChanges_ok {collecting}
    (hcount : collecting = false → LabelledUpTo S labelled count) (now : Time) (claimUntilSeconds : Nat) :
    ChangesOk S labelled (Copy.heartbeatChanges collecting count now claimUntilSeconds) := by
  refine ⟨fun count' hc => ?_, nofun, fun hs => ?_⟩
  · cases collecting with
    | true => cases hc
    | false =>
      cases hc
      exact hcount rfl
  · cases collecting <;> cases hs

theorem releaseChanges_ok {status} (hstatus : status = .complete → LabelledUpTo S labelled S.card)
    (result : Option String) (now : Time) :
    ChangesOk S labelled { taskStatus := some status, result := some result, updatedAt := some now } :=
  ⟨nofun, nofun, fun hs => hstatus (Option.some.inj hs)⟩

/-! ## The total -/

theorem KnowsTotal.read (h : KnowsTotal S row c) (hc : CopyOk S labelled row c) :
    (c.read row).totalEntitiesToLabel = some S.card := by
  show c.pending.totalEntitiesToLabel.getD (c.loaded.getD row).totalEntitiesToLabel = some S.card
  cases hpending : c.pending.totalEntitiesToLabel with
  | some total => exact hc.pending.total total hpending
  | none =>
    rcases h with h | ⟨htotal, hloaded⟩
    · rw [hpending] at h
      cases h
    · cases hl : c.loaded with
      | none => exact htotal
      | some r => exact hloaded r hl

theorem KnowsTotal.commit (h : KnowsTotal S row c) (hc : CopyOk S labelled row c) :
    (c.commit row).totalEntitiesToLabel = some S.card := by
  rcases h with hpending | ⟨htotal, _⟩
  · show c.pending.totalEntitiesToLabel.getD row.totalEntitiesToLabel = some S.card
    rw [hpending]
    rfl
  · exact hc.pending.kept htotal

theorem KnowsTotal.load (h : KnowsTotal S row c) : KnowsTotal S row (c.load row) := by
  refine h.imp_right fun ⟨htotal, hloaded⟩ => ⟨htotal, fun r hr => ?_⟩
  cases hl : c.loaded with
  | none =>
    simp only [Copy.load, hl, Option.getD_none, Option.some.injEq] at hr
    exact hr ▸ htotal
  | some r' =>
    simp only [Copy.load, hl, Option.getD_some, Option.some.injEq] at hr
    exact hr ▸ hloaded r' hl

theorem KnowsTotal.set (h : KnowsTotal S row c) {new} (hnew : new.totalEntitiesToLabel = none) :
    KnowsTotal S row (c.set new) := by
  refine h.imp_left fun hpending => ?_
  show setColumn _ c.pending.totalEntitiesToLabel new.totalEntitiesToLabel = some (some S.card)
  rw [hnew]
  exact hpending

theorem knowsTotal_empty (h : row.totalEntitiesToLabel = some S.card) : KnowsTotal S row {} :=
  .inr ⟨h, nofun⟩

theorem KnowsTotal.heartbeat (h : KnowsTotal S row c) (hc : CopyOk S labelled row c) (hrow : RowOk S labelled row)
    (hcount : LabelledUpTo S labelled count) (now : Time) (claimUntilSeconds : Nat) :
    KnowsTotal S (c.heartbeat row false count now claimUntilSeconds) {} :=
  knowsTotal_empty ((h.load.set rfl).commit
    ((hc.load hrow).set (heartbeatChanges_ok (fun _ => hcount) now claimUntilSeconds)))

theorem knowsTotal_of_read (hc : CopyOk S labelled row c) (hrow : RowOk S labelled row)
    (h : (c.read row).totalEntitiesToLabel.getD 0 ≠ 0) : KnowsTotal S row (c.load row) := by
  have hread : (c.read row).totalEntitiesToLabel = some S.card := by
    refine (hc.read hrow).total.resolve_left fun hnone => h ?_
    rw [hnone]
    rfl
  cases hpending : c.pending.totalEntitiesToLabel with
  | some total => exact .inl (hpending.trans (congrArg some (hc.pending.total total hpending)))
  | none =>
    have hloaded : (c.loaded.getD row).totalEntitiesToLabel = some S.card := by
      simp only [Copy.read, Changes.write, hpending, Option.getD_none] at hread
      exact hread
    refine .inr ⟨(hc.load hrow).total _ rfl hloaded, fun r hr => ?_⟩
    rw [← Option.some.inj hr]
    exact hloaded

theorem knowsTotal_of_set (hc : CopyOk S labelled row c) :
    KnowsTotal S row (c.set { totalEntitiesToLabel := some (some S.card) }) := by
  by_cases hloaded : c.loaded.map Row.totalEntitiesToLabel = some (some S.card)
  · obtain ⟨r, hr, htotal⟩ := Option.map_eq_some_iff.mp hloaded
    refine .inr ⟨hc.total r hr htotal, fun r' hr' => ?_⟩
    have hsame : r = r' := Option.some.inj (hr.symm.trans hr')
    exact hsame ▸ htotal
  · exact .inl (if_neg hloaded)

theorem CopyOk.setTotal (hc : CopyOk S labelled row c) (hrow : RowOk S labelled row) :
    CopyOk S labelled row (c.setTotal row S.card) ∧ KnowsTotal S row (c.setTotal row S.card) := by
  have hload := hc.load hrow
  unfold Copy.setTotal
  split
  next => exact ⟨hload.set ⟨nofun, fun total ht => (Option.some.inj ht).symm, nofun⟩, knowsTotal_of_set hload⟩
  next hne => exact ⟨hload, knowsTotal_of_read hc hrow hne⟩

/-! ## Steps -/

theorem phaseAt_ok {index} (h : LabelledUpTo S labelled index) (htotal : KnowsTotal S row c) :
    PhaseOk S labelled row c (State.phaseAt (State.sorted S) index S.card) := by
  unfold State.phaseAt
  split
  next hindex => exact ⟨rfl, rfl, hindex, h, htotal⟩
  next hindex =>
    have hend : index = S.card := le_antisymm h.le (not_lt.mp hindex)
    exact ⟨hend ▸ h, htotal⟩

section

variable {s : State} (hi : Inv S s) {w : WorkerId}
include hi

/-- A step in which a worker commits: the row is written, and the worker goes on with nothing loaded. -/
theorem Inv.commit (hc : CopyOk S s.labelled s.row c) (phase : Option Phase)
    (hphase : ∀ x, phase = some x → PhaseOk S s.labelled (c.commit s.row) {} x) :
    Inv S ({ s with row := c.commit s.row }.setWorker w (phase.map fun x => ⟨x, {}⟩)) := by
  refine hi.update (hi.row.write hc.pending) (List.Subset.refl _) hc.pending.kept fun worker hworker => ?_
  cases phase with
  | none => cases hworker
  | some x =>
    cases hworker
    exact ⟨copyOk_empty, hphase x rfl⟩

theorem Inv.release (hc : CopyOk S s.labelled s.row c) {status}
    (hstatus : status = .complete → LabelledUpTo S s.labelled S.card) (result : Option String) (now : Time)
    (phase : Option Phase) (hphase : ∀ x, phase = some x → x = .sending) :
    Inv S ({ s with row := c.release s.row status result now }.setWorker w (phase.map fun x => ⟨x, {}⟩)) := by
  refine hi.commit (hc.set (releaseChanges_ok hstatus result now)) phase fun x hx => ?_
  rw [hphase x hx]
  trivial

theorem Inv.heartbeat (hc : CopyOk S s.labelled s.row c) {collecting}
    (hcount : collecting = false → LabelledUpTo S s.labelled count) {now claimUntilSeconds phase}
    (hphase : PhaseOk S s.labelled (c.heartbeat s.row collecting count now claimUntilSeconds) {} phase) :
    Inv S ({ s with row := c.heartbeat s.row collecting count now claimUntilSeconds }.setWorker w
      (some ⟨phase, {}⟩)) :=
  hi.commit ((hc.load hi.row).set (heartbeatChanges_ok hcount now claimUntilSeconds)) (some phase)
    fun _ hx => Option.some.inj hx ▸ hphase

theorem Inv.fail (hc : CopyOk S s.labelled s.row c) (maxAttempts : Nat) (unretryable : Bool) (repr : String)
    (now : Time) : Inv S (s.fail maxAttempts w c unretryable repr now) := by
  refine hi.release (hc.load hi.row) (fun hs => ?_) (some repr) now none nofun
  split at hs <;> cases hs

theorem Inv.leave : Inv S (s.setWorker w none) := by
  refine hi.updateWorker fun worker hworker => ?_
  cases hworker

theorem Inv.claim {maxAttempts now retryJitter lockJitter}
    (hclaim : s.row.claim maxAttempts now retryJitter lockJitter = some row) :
    Inv S ({ s with row }.setWorker w (some ⟨.claimed, {}⟩)) := by
  unfold Row.claim at hclaim
  split at hclaim
  · cases hclaim
    refine hi.update ⟨hi.row.progress, hi.row.total, nofun⟩ (List.Subset.refl _) id fun worker hworker => ?_
    cases hworker
    exact ⟨copyOk_empty, trivial⟩
  · cases hclaim

theorem Inv.load {worker} (hw : s.workers w = some worker) :
    Inv S (s.setWorker w (some { worker with copy := worker.copy.load s.row })) := by
  have hworker := hi.workers w worker hw
  refine hi.updateWorker fun x hx => ?_
  cases hx
  refine ⟨hworker.copy.load hi.row, ?_⟩
  have hphase := hworker.phase
  revert hphase
  show PhaseOk S s.labelled s.row worker.copy worker.phase →
    PhaseOk S s.labelled s.row (worker.copy.load s.row) worker.phase
  cases worker.phase with
  | claimed | collecting | sending | completing => exact id
  | labelling entityIds index stop | labelled entityIds index stop =>
    intro ⟨hids, hstop, hindex, hlabelled, htotal⟩
    exact ⟨hids, hstop, hindex, hlabelled, htotal.load⟩
  | finished => exact fun hf => ⟨hf.1, hf.2.load⟩

theorem Inv.startLabelling (hc : CopyOk S s.labelled s.row c) (maxAttempts excludedCount : Nat) (now : Time) :
    Inv S (s.startLabelling maxAttempts excludedCount w c S now) := by
  have hset : ∀ copy expected, CopyOk S s.labelled s.row copy ∧ KnowsTotal S s.row copy →
      CopyOk S s.labelled s.row (copy.set { expectedTotalEntitiesToLabel := some expected }) ∧
        KnowsTotal S s.row (copy.set { expectedTotalEntitiesToLabel := some expected }) :=
    fun copy expected h => ⟨h.1.set ⟨nofun, nofun, nofun⟩, h.2.set rfl⟩
  obtain ⟨copy, ⟨hcopy, htotal⟩, hbegin | hfail⟩ := State.startLabelling_cases (hc.setTotal hi.row) hset
  · rw [hbegin, htotal.read hcopy]
    refine hi.updateWorker fun worker hworker => ?_
    cases hworker
    exact ⟨hcopy, phaseAt_ok (hcopy.read hi.row).progress htotal⟩
  · rw [hfail]
    exact hi.fail hcopy maxAttempts true _ now

theorem Inv.label {worker} (hw : s.workers w = some worker) {entityIds index stop}
    (hphase : worker.phase = .labelling entityIds index stop) {entityId} (hid : entityIds[index]? = some entityId) :
    Inv S ({ s with labelled := entityId :: s.labelled }.setWorker w
      (some ⟨.labelled entityIds index stop, worker.copy⟩)) := by
  have hworker := hi.workers w worker hw
  have hok := hworker.phase
  rw [hphase] at hok
  obtain ⟨hids, hstop, hindex, hlabelled, htotal⟩ := hok
  have hsub : s.labelled ⊆ entityId :: s.labelled := List.subset_cons_self _ _
  refine hi.update (hi.row.mono hsub) hsub id fun x hx => ?_
  cases hx
  refine ⟨hworker.copy.mono hsub id, hids, hstop, hindex, ⟨hindex, fun i id hi' hid' => ?_⟩, htotal⟩
  rcases Nat.lt_succ_iff_lt_or_eq.mp hi' with hlt | heq
  · exact List.mem_cons_of_mem _ (hlabelled.mem i id hlt hid')
  · rw [heq, ← hids, hid] at hid'
    exact Option.some.inj hid' ▸ List.mem_cons_self

end

theorem Inv.next (hi : Inv S s) (maxAttempts excludedCount : Nat) {event}
    (hevent : Collects S event) : Inv S (next maxAttempts excludedCount s event) := by
  fun_cases BulkLabel.next maxAttempts excludedCount s event with
  | case3 w now retryJitter lockJitter hw row hclaim => exact hi.claim hclaim
  | case5 w worker hw => exact hi.load hw
  | case6 w now copy hw =>
    refine hi.release ((hi.workers w _ hw).copy.load hi.row) (fun hs => TaskStatus.noConfusion hs) none now none ?_
    intro _ hx
    cases hx
  | case7 w now copy hw =>
    refine hi.update hi.row (List.Subset.refl _) id fun worker hworker => ?_
    cases hworker
    exact ⟨(hi.workers w _ hw).copy.load hi.row, trivial⟩
  | case9 w newEntityCount now claimUntilSeconds copy hw =>
    exact hi.heartbeat (hi.workers w _ hw).copy (fun hcollecting => Bool.noConfusion hcollecting) trivial
  | case11 w entityIds now copy hw =>
    cases hevent
    exact hi.startLabelling (hi.workers w _ hw).copy maxAttempts excludedCount now
  | case13 w now entityIds index stop copy hw => exact hi.fail (hi.workers w _ hw).copy maxAttempts false _ now
  | case14 w now entityIds index stop copy hw entityId hid => exact hi.label hw rfl hid
  | case16 w now entityIds index stop copy hw =>
    have hcopy := (hi.workers w _ hw).copy
    obtain ⟨hids, hstop, hindex, hlabelled, htotal⟩ := (hi.workers w _ hw).phase
    have hcount := (hcopy.read hi.row).progress
    exact hi.heartbeat hcopy (fun _ => hcount)
      ⟨hids, hstop, hindex, hlabelled, htotal.heartbeat hcopy hi.row hcount now baseDelaySeconds⟩
  | case18 w now entityIds index stop copy hw =>
    have hcopy := (hi.workers w _ hw).copy
    obtain ⟨rfl, rfl, hindex, hlabelled, htotal⟩ := (hi.workers w _ hw).phase
    exact hi.heartbeat hcopy (fun _ => hlabelled)
      (phaseAt_ok hlabelled (htotal.heartbeat hcopy hi.row hlabelled now baseDelaySeconds))
  | case19 w now heartbeat entityIds index stop copy hw =>
    obtain ⟨rfl, rfl, hindex, hlabelled, htotal⟩ := (hi.workers w _ hw).phase
    refine hi.updateWorker fun worker hworker => ?_
    cases hworker
    exact ⟨(hi.workers w _ hw).copy, phaseAt_ok hlabelled htotal⟩
  | case21 w now copy hw total =>
    have hcopy := (hi.workers w _ hw).copy
    obtain ⟨hlabelled, htotal⟩ := (hi.workers w _ hw).phase
    have hall : total = S.card := by simp only [total, htotal.read hcopy, Option.getD_some]
    rw [hall]
    exact hi.heartbeat hcopy (fun _ => hlabelled) hlabelled
  | case23 w now copy hw =>
    refine hi.release (hi.workers w _ hw).copy (fun _ => (hi.workers w _ hw).phase) none now (some .sending) ?_
    intro x hx
    exact (Option.some.inj hx).symm
  | case27 w unretryable repr now worker hw =>
    exact hi.fail (hi.workers w _ hw).copy maxAttempts unretryable repr now
  | case25 | case30 => exact hi.leave
  | _ => exact hi

theorem Inv.run (hi : Inv S s) (maxAttempts excludedCount : Nat) (events : List Event)
    (hevents : ∀ event ∈ events, Collects S event) : Inv S (run maxAttempts excludedCount s events) :=
  List.foldlRecOn events _ hi fun _ hi event hevent => hi.next maxAttempts excludedCount (hevents event hevent)

theorem inv_enqueue (expectedTotalEntitiesToLabel : Int) (now : Time) :
    Inv S { row := Row.enqueue expectedTotalEntitiesToLabel now } := by
  refine ⟨⟨⟨Nat.zero_le _, ?_⟩, .inl rfl, ?_⟩, ?_⟩
  · intro i id hi
    exact absurd hi (Nat.not_lt_zero i)
  · intro hs
    cases hs
  · intro w worker hw
    cases hw

/-- The progress that is stored is true, no worker is at an index that is out of range, and a complete task has
labelled everybody, if all attempts collect the same ids. -/
theorem labels_everybody (maxAttempts excludedCount : Nat) (expectedTotalEntitiesToLabel : Int) (now : Time)
    (S : Finset String) (events : List Event) (hevents : ∀ event ∈ events, Collects S event) :
    let s := run maxAttempts excludedCount { row := Row.enqueue expectedTotalEntitiesToLabel now } events
    (∀ i < s.row.entitiesLabeled, ∃ id, (S.sort (· ≤ ·))[i]? = some id ∧ id ∈ s.labelled) ∧
      (∀ w entityIds index stop copy, s.workers w = some ⟨.labelling entityIds index stop, copy⟩ →
        index < entityIds.length) ∧
      (s.row.taskStatus = .complete → ∀ id ∈ S, id ∈ s.labelled) := by
  intro s
  have hi : Inv S s := (inv_enqueue expectedTotalEntitiesToLabel now).run maxAttempts excludedCount events hevents
  have hlength : (State.sorted S).length = S.card := Finset.length_sort _
  refine ⟨fun i hlt => ?_, fun w entityIds index stop copy hw => ?_, fun hstatus id hid => ?_⟩
  · have hbound : i < (State.sorted S).length := hlength ▸ lt_of_lt_of_le hlt hi.row.progress.le
    have hget := List.getElem?_eq_getElem hbound
    exact ⟨_, hget, hi.row.progress.mem i _ hlt hget⟩
  · obtain ⟨hids, -, hindex, -⟩ := (hi.workers w _ hw).phase
    rw [hids, hlength]
    exact hindex
  · obtain ⟨i, hget⟩ := List.mem_iff_getElem?.mp ((Finset.mem_sort (· ≤ ·)).mpr hid)
    have hbound : i < S.card := hlength ▸ (List.getElem?_eq_some_iff.mp hget).1
    exact (hi.row.complete hstatus).mem i id hbound hget

/-- The lock of the first worker runs out while it labels, the second begins again at the first id, and the first
worker completes the task. -/
def overlappingAttempts : List Event :=
  [.claim 0 1 1 1, .begin 0 2, .heartbeatCollecting 0 2 3 baseDelaySeconds, .collect 0 {"1", "2"} 4,
    .claim 1 200000000 1 1, .begin 1 200000001, .collect 1 {"1", "2"} 200000002, .label 0 200000003,
    .label 1 200000004, .next 0 200000005 true, .label 0 200000006, .next 0 200000007 true, .finish 0 200000008,
    .complete 0 200000009]

theorem labels_everybody_overlapping :
    let s := run 3 0 { row := Row.enqueue 2 0 } overlappingAttempts
    (∀ event ∈ overlappingAttempts, Collects {"1", "2"} event) ∧ (s.workers 1).isSome ∧
      s.row.taskStatus = .complete ∧ "1" ∈ s.labelled ∧ "2" ∈ s.labelled := by
  have hevents : ∀ event ∈ overlappingAttempts, Collects {"1", "2"} event := by simp [overlappingAttempts, Collects]
  have hsorted : State.sorted {"1", "2"} = ["1", "2"] :=
    (List.toFinset_sort (l := ["1", "2"]) (· ≤ ·) (by decide)).mpr (by decide)
  -- The sorted list is looked into only when an id is labelled.
  let collect (s : State) (w : WorkerId) : State := s.setWorker w (some ⟨.labelling (State.sorted {"1", "2"}) 0 2,
    { loaded := some s.row, pending := { totalEntitiesToLabel := some (some 2) } }⟩)
  have hrun : run 3 0 { row := Row.enqueue 2 0 } overlappingAttempts =
      run 3 0 (collect (run 3 0 (collect (run 3 0 { row := Row.enqueue 2 0 } (overlappingAttempts.take 3)) 0)
        ((overlappingAttempts.drop 4).take 2)) 1) (overlappingAttempts.drop 7) := rfl
  simp only [collect, hsorted] at hrun
  have hend : let s := run 3 0 { row := Row.enqueue 2 0 } overlappingAttempts
      (s.workers 1).isSome ∧ s.row.taskStatus = .complete := by
    rw [hrun]
    decide +kernel
  have h := (labels_everybody 3 0 2 0 {"1", "2"} overlappingAttempts hevents).2.2 hend.2
  exact ⟨hevents, hend.1, hend.2, h "1" (by simp), h "2" (by simp)⟩

end Osprey.BulkLabel
