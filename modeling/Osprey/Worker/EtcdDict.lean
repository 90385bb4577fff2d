/-
A value under one etcd key that several processes change with compare-and-swap
(`EtcdDict`, `EtcdSet`), and the copy that one of them keeps with a watcher.

The commits under the key are versions. Each update reads a version, applies its
updater and swaps the result in if the version is still the current one. The copy
is written from two sides: by the watcher, one version after another or, after it
has lost its place, at the version that is read anew; and by the process's own
updates, when the answer to their `set` has come. Nothing orders the two. The
answer to an early commit may come when the watcher has gone past it.

Requests may be answered by a peer that lags behind, and may fail after they took
effect.
-/
import Mathlib.Data.Finset.Basic
import Osprey.Engine.Basic
import Osprey.Lib.Dict
import Osprey.Lib.Run

namespace Osprey.EtcdDict

/-! ## Updates -/

/-- How the value is written as a text, and the value without a key. -/
structure Serializer (D T : Type*) where
  empty : D
  dumps : D → T
  loads : T → D
  loads_dumps : ∀ d, loads (dumps d) = d

/-- A call of `_cas_atomic_update`: the process, and the updater, which changes what it is given and may return a value
in its place. -/
structure Update (D : Type*) where
  process : Nat
  updater : D → Except Exc (D × Option D)

/-- `updater(new_dict)`, and what it returned if it did. -/
def Update.apply {D : Type*} (u : Update D) (d : D) : Except Exc D :=
  (u.updater d).map fun p => p.2.getD p.1

section

variable {κ ν : Type*} [DecidableEq κ]

/-- `EtcdDict.__setitem__`. -/
def setItem (process : Nat) (key : κ) (value : ν) : Update (Lib.Dict κ ν) :=
  ⟨process, fun d => .ok (d.set key value, some (d.set key value))⟩

/-- `EtcdDict.__delitem__`. -/
def delItem (process : Nat) (key : κ) : Update (Lib.Dict κ ν) :=
  ⟨process, fun d =>
    if key ∈ d.keys then .ok (d.erase key, some (d.erase key)) else .error ⟨.keyError, ""⟩⟩

/-- `EtcdDict.replace_with`; `clear` replaces with nothing. -/
def replaceWith (process : Nat) (new : Lib.Dict κ ν) : Update (Lib.Dict κ ν) := ⟨process, fun d => .ok (d, some new)⟩

def clear (process : Nat) : Update (Lib.Dict κ ν) := replaceWith process .empty

/-- `EtcdSet.add`, which changes the set in place. -/
def add (process : Nat) (item : κ) : Update (Finset κ) := ⟨process, fun s => .ok (insert item s, none)⟩

/-- `EtcdSet.discard`. -/
def discard (process : Nat) (item : κ) : Update (Finset κ) := ⟨process, fun s => .ok (s.erase item, none)⟩

/-- `EtcdSet.clear`. -/
def clearSet (process : Nat) : Update (Finset κ) := ⟨process, fun _ => .ok (∅, none)⟩

/-- `EtcdSet.update`. -/
def updateSet (process : Nat) (updaterFn : Finset κ → Except Exc (Finset κ)) : Update (Finset κ) :=
  ⟨process, fun s => (updaterFn s).map fun new => (s, some new)⟩

end

/-! ## States -/

abbrev UpdateId := Nat

inductive Phase (D : Type*)
  | idle
  /-- At the beginning of its loop. -/
  | reading
  /-- About to set the new value, with the version it has read, or `prev_exist` as false. -/
  | setting (prevIndex : Option Nat) (new : D)
  /-- The new value is the version, and the answer is on its way. -/
  | committed (version : Nat) (new : D)
  | returned
  | raised
  deriving DecidableEq

/-- The versions after the first, with the updates that made them; the calls; the watcher; and the copy. -/
structure State (D T : Type*) where
  texts : List T := []
  log : List UpdateId := []
  phase : UpdateId → Phase D := fun _ => .idle
  /-- The version up to which the watcher has come; `none` before it has read one. -/
  index : Option Nat := none
  /-- `_prev_event` of the mux: `none` inside is `FullSyncOneNoKey`. -/
  prevEvent : Option (Option T) := none
  /-- The version that the watcher has read anew and not handled yet. -/
  syncing : Option Nat := none
  dict : D

inductive Event
  | call (u : UpdateId)
  /-- `self._client.get`, answered with a version. -/
  | get (u : UpdateId) (version : Nat)
  /-- `self._client.set` takes effect or is refused. -/
  | set (u : UpdateId)
  /-- The answer to a `set` that took effect. -/
  | answer (u : UpdateId)
  /-- A request times out or fails in some other way. -/
  | fail (u : UpdateId)
  /-- The watcher reads the key anew. -/
  | syncGet (version : Nat)
  /-- It handles what it has read. -/
  | sync
  /-- It handles the next version. -/
  | wait
  /-- It is stopped and started again. -/
  | restart
  deriving DecidableEq

section

variable {D T : Type*} (serializer : Serializer D T) (initial : Option T) (updates : UpdateId → Update D)

namespace State

/-- The text of a version; the first may be missing. -/
def textAt (s : State D T) : Nat → Option T
  | 0 => initial
  | k + 1 => s.texts[k]?

def version (s : State D T) : Nat := s.texts.length

def valueAt (s : State D T) (k : Nat) : D := (s.textAt initial k).elim serializer.empty serializer.loads

def stored (s : State D T) : D := s.valueAt serializer initial s.version

def goTo (s : State D T) (u : UpdateId) (phase : Phase D) : State D T :=
  { s with phase := Function.update s.phase u phase }

def commit (s : State D T) (u : UpdateId) (new : D) : State D T :=
  { s with texts := s.texts ++ [serializer.dumps new], log := s.log ++ [u] }.goTo u (.committed (s.version + 1) new)

/-- The watcher's mux drops an event that equals the one before; otherwise `_handle_event` writes the copy. -/
def observe [DecidableEq T] (s : State D T) (k : Nat) : State D T :=
  if s.prevEvent = some (s.textAt initial k) then s
  else { s with prevEvent := some (s.textAt initial k), dict := s.valueAt serializer initial k }

end State

def watchingProcess : Nat := 0

def next [DecidableEq T] (s : State D T) : Event → State D T
  | .call u => match s.phase u with
    | .idle => s.goTo u .reading
    | _ => s
  | .get u k => match s.phase u with
    | .reading =>
      if s.version < k then s
      else match (updates u).apply (s.valueAt serializer initial k) with
        | .error _ => s.goTo u .raised
        | .ok new => s.goTo u (.setting (if (s.textAt initial k).isSome then some k else none) new)
    | _ => s
  | .set u => match s.phase u with
    | .setting (some k) new =>
      if k = s.version then s.commit serializer u new
      -- `CompareFailedError`: once more, after a pause.
      else s.goTo u .reading
    | .setting none new =>
      if (s.textAt initial s.version).isNone then s.commit serializer u new
      -- `NodeExistsError`, which is no `CompareFailedError`.
      else s.goTo u .raised
    | _ => s
  | .answer u => match s.phase u with
    | .committed _ new =>
      if (updates u).process = watchingProcess then { s with dict := new }.goTo u .returned else s.goTo u .returned
    | _ => s
  | .fail u => match s.phase u with
    | .reading | .setting .. | .committed .. => s.goTo u .raised
    | _ => s
  | .syncGet k => if s.syncing = none ∧ k ≤ s.version then { s with syncing := some k } else s
  | .sync => match s.syncing with
    | some k => { s.observe serializer initial k with index := some k, syncing := none }
    | none => s
  | .wait => match s.index, s.syncing with
    | some i, none =>
      if i < s.version then { s.observe serializer initial (i + 1) with index := some (i + 1) } else s
    | _, _ => s
  | .restart => { s with index := none, prevEvent := none, syncing := none }

/-- Nothing is loaded, and nobody has called. -/
def start : State D T := { dict := serializer.empty }

def run [DecidableEq T] (events : List Event) : State D T :=
  events.foldl (next serializer initial updates) (start serializer)

/-- All updates have returned or raised, and the watcher has handled all versions. -/
structure State.Quiet (s : State D T) : Prop where
  updates : ∀ u, s.phase u = .idle ∨ s.phase u = .returned ∨ s.phase u = .raised
  index : s.index = some s.version
  syncing : s.syncing = none

/-- The copy is not put back: an own update does not return after the watcher has gone past its version, and a version
that is read anew and dropped by the mux is what the copy holds. -/
def Ordered (s : State D T) : Event → Prop
  | .answer u => (updates u).process = watchingProcess →
    ∀ k new i, s.phase u = .committed k new → s.index = some i → i ≤ k
  | .sync => ∀ k, s.syncing = some k → s.prevEvent = some (s.textAt initial k) → s.dict = s.valueAt serializer initial k
  | _ => True

/-! ## The versions -/

/-- What holds of a call at a phase: whether it has made a version, and from what the value it is to set is made. A call
that raised may have made one. -/
def PhaseOk (s : State D T) (u : UpdateId) : Phase D → Prop
  | .idle | .reading => u ∉ s.log
  | .setting (some k) new =>
    u ∉ s.log ∧ k ≤ s.version ∧ (updates u).apply (s.valueAt serializer initial k) = .ok new
  | .setting none new => u ∉ s.log ∧ (updates u).apply serializer.empty = .ok new
  | .committed k new => u ∈ s.log ∧ k ≤ s.version ∧ s.valueAt serializer initial k = new
  | .returned => u ∈ s.log
  | .raised => True

/-- The versions come from the updates of the log one after another. -/
structure Logged (s : State D T) : Prop where
  fold : s.log.foldlM (fun d u => (updates u).apply d) (initial.elim serializer.empty serializer.loads) =
    .ok (s.stored serializer initial)
  nodup : s.log.Nodup
  phases : ∀ u, PhaseOk serializer initial updates s u (s.phase u)

end

variable {D T : Type*} {serializer : Serializer D T} {initial : Option T} {updates : UpdateId → Update D}
  {s s' : State D T}

theorem valueAt_congr (h : s'.texts = s.texts) (k : Nat) :
    s'.valueAt serializer initial k = s.valueAt serializer initial k := by
  unfold State.valueAt
  cases k with
  | zero => rfl
  | succ k => rw [State.textAt, State.textAt, h]

variable (u : UpdateId)

theorem textAt_commit (new : D) {k} (h : k ≤ s.version) :
    (s.commit serializer u new).textAt initial k = s.textAt initial k := by
  cases k with
  | zero => rfl
  | succ k => exact List.getElem?_append_left h

theorem valueAt_commit (new : D) {k} (h : k ≤ s.version) :
    (s.commit serializer u new).valueAt serializer initial k = s.valueAt serializer initial k := by
  unfold State.valueAt
  rw [textAt_commit u new h]

theorem version_commit (new : D) : (s.commit serializer u new).version = s.version + 1 :=
  List.length_append

theorem valueAt_commit_new (new : D) :
    (s.commit serializer u new).valueAt serializer initial (s.version + 1) = new := by
  have htext : (s.commit serializer u new).textAt initial (s.version + 1) = some (serializer.dumps new) :=
    List.getElem?_concat_length
  rw [State.valueAt, htext]
  exact serializer.loads_dumps new

theorem stored_commit (new : D) : (s.commit serializer u new).stored serializer initial = new := by
  rw [State.stored, version_commit, valueAt_commit_new]

theorem PhaseOk.congr {u phase} (h : PhaseOk serializer initial updates s u phase)
    (htexts : s'.texts = s.texts) (hlog : s'.log = s.log) : PhaseOk serializer initial updates s' u phase := by
  have hversion : s'.version = s.version := congrArg List.length htexts
  unfold PhaseOk at h ⊢
  simp only [hlog, hversion, valueAt_congr htexts]
  exact h

theorem stored_congr (h : s'.texts = s.texts) : s'.stored serializer initial = s.stored serializer initial := by
  have hversion : s'.version = s.version := congrArg List.length h
  rw [State.stored, State.stored, hversion, valueAt_congr h]

theorem Logged.move (h : Logged serializer initial updates s) {u} (phase : Phase D)
    (hphase : PhaseOk serializer initial updates s u phase) (htexts : s'.texts = s.texts) (hlog : s'.log = s.log)
    (hphases : s'.phase = Function.update s.phase u phase) : Logged serializer initial updates s' := by
  refine ⟨by rw [hlog, stored_congr htexts]; exact h.fold, hlog ▸ h.nodup, fun u' => ?_⟩
  rw [hphases]
  by_cases hu : u' = u
  · subst hu
    rw [Function.update_self]
    exact hphase.congr htexts hlog
  · rw [Function.update_of_ne hu]
    exact (h.phases u').congr htexts hlog

theorem Logged.same (h : Logged serializer initial updates s) (htexts : s'.texts = s.texts) (hlog : s'.log = s.log)
    (hphases : s'.phase = s.phase) : Logged serializer initial updates s' :=
  h.move _ (h.phases 0) htexts hlog (by rw [hphases, Function.update_eq_self])

theorem PhaseOk.commit {u u' phase} (h : PhaseOk serializer initial updates s u' phase)
    (hne : u' ≠ u) (new : D) : PhaseOk serializer initial updates (s.commit serializer u new) u' phase := by
  have hlog : u' ∈ (s.commit serializer u new).log ↔ u' ∈ s.log := by
    show u' ∈ s.log ++ [u] ↔ u' ∈ s.log
    simp [hne]
  have hle : ∀ k, k ≤ s.version → k ≤ (s.commit serializer u new).version := by
    intro k hk
    rw [version_commit]
    omega
  match phase with
  | .idle | .reading => exact fun hu => h (hlog.mp hu)
  | .setting (some k) new' =>
    obtain ⟨hu, hk, happly⟩ := h
    refine ⟨fun hu' => hu (hlog.mp hu'), hle k hk, ?_⟩
    rw [valueAt_commit u new hk]
    exact happly
  | .setting none new' => exact ⟨fun hu' => h.1 (hlog.mp hu'), h.2⟩
  | .committed k new' =>
    obtain ⟨hu, hk, hvalue⟩ := h
    refine ⟨hlog.mpr hu, hle k hk, ?_⟩
    rw [valueAt_commit u new hk]
    exact hvalue
  | .returned => exact hlog.mpr h
  | .raised => trivial

theorem Logged.commit (h : Logged serializer initial updates s) {u new} (hu : u ∉ s.log)
    (happly : (updates u).apply (s.stored serializer initial) = .ok new) :
    Logged serializer initial updates (s.commit serializer u new) := by
  refine ⟨?_, ?_, fun u' => ?_⟩
  · rw [stored_commit]
    show (s.log ++ [u]).foldlM _ _ = _
    rw [List.foldlM_append, h.fold]
    show [u].foldlM (fun d u => (updates u).apply d) (s.stored serializer initial) = .ok new
    rw [List.foldlM_cons, happly]
    rfl
  · exact List.nodup_append.mpr ⟨h.nodup, List.nodup_singleton u, fun a ha b hb heq => hu (by
      rw [← List.mem_singleton.mp hb, ← heq]
      exact ha)⟩
  · by_cases heq : u' = u
    · subst heq
      have hphase : (s.commit serializer u' new).phase u' = .committed (s.version + 1) new := Function.update_self ..
      rw [hphase]
      exact ⟨List.mem_append_right _ List.mem_cons_self, (version_commit u' new).ge, valueAt_commit_new u' new⟩
    · have hphase : (s.commit serializer u new).phase u' = s.phase u' := Function.update_of_ne heq ..
      rw [hphase]
      exact (h.phases u').commit heq new

theorem logged_start : Logged serializer initial updates (start serializer) :=
  ⟨rfl, List.nodup_nil, fun _ => List.not_mem_nil⟩

section

theorem Logged.phase (h : Logged serializer initial updates s) {u phase}
    (hp : s.phase u = phase) : PhaseOk serializer initial updates s u phase := hp ▸ h.phases u

variable [DecidableEq T]

@[simp] theorem texts_observe (k : Nat) : (s.observe serializer initial k).texts = s.texts := by
  unfold State.observe
  split <;> rfl

@[simp] theorem log_observe (k : Nat) : (s.observe serializer initial k).log = s.log := by
  unfold State.observe
  split <;> rfl

@[simp] theorem phase_observe (k : Nat) : (s.observe serializer initial k).phase = s.phase := by
  unfold State.observe
  split <;> rfl

@[simp] theorem syncing_observe (k : Nat) : (s.observe serializer initial k).syncing = s.syncing := by
  unfold State.observe
  split <;> rfl

theorem Logged.next (h : Logged serializer initial updates s) (event : Event) :
    Logged serializer initial updates (next serializer initial updates s event) := by
  fun_cases EtcdDict.next serializer initial updates s event with
  | case1 u hp =>
    have hu : u ∉ s.log := h.phase hp
    exact h.move .reading hu rfl rfl rfl
  | case5 u k hp hk new happly =>
    have hu : u ∉ s.log := h.phase hp
    refine h.move _ ?_ rfl rfl rfl
    cases htext : s.textAt initial k with
    | some text => exact ⟨hu, not_lt.mp hk, happly⟩
    | none =>
      rw [State.valueAt, htext] at happly
      exact ⟨hu, happly⟩
  | case7 u new hp =>
    obtain ⟨hu, -, happly⟩ := h.phase hp
    exact h.commit hu happly
  | case8 u k new hp => exact h.move .reading (h.phase hp).1 rfl rfl rfl
  | case9 u new hp hnone =>
    obtain ⟨hu, happly⟩ := h.phase hp
    refine h.commit hu ?_
    rw [State.stored, State.valueAt, Option.isNone_iff_eq_none.mp hnone]
    exact happly
  | case12 u k new hp | case13 u k new hp => exact h.move .returned (h.phase hp).1 rfl rfl rfl
  | case4 | case10 | case15 | case16 | case17 => exact h.move .raised trivial rfl rfl rfl
  | case21 | case23 => exact h.same (texts_observe _) (log_observe _) (phase_observe _)
  | case19 | case26 => exact h.same rfl rfl rfl
  | _ => exact h

end

/-! ## The copy -/

/-- The copy is at least as new as what the watcher has come to. -/
structure Watched (serializer : Serializer D T) (initial : Option T) (s : State D T) : Prop where
  started : s.index = none → s.prevEvent = none
  index : ∀ i, s.index = some i → i ≤ s.version ∧ s.prevEvent = some (s.textAt initial i) ∧
    ∃ k, i ≤ k ∧ k ≤ s.version ∧ s.dict = s.valueAt serializer initial k
  syncing : ∀ k, s.syncing = some k → k ≤ s.version

theorem Watched.goTo (h : Watched serializer initial s) (u : UpdateId) (phase : Phase D) :
    Watched serializer initial (s.goTo u phase) := ⟨h.started, h.index, h.syncing⟩

theorem Watched.commit (h : Watched serializer initial s) (u : UpdateId) (new : D) :
    Watched serializer initial (s.commit serializer u new) := by
  refine ⟨h.started, fun i hi => ?_, fun k hk => ?_⟩
  · obtain ⟨hle, hprev, k, hik, hk, hdict⟩ := h.index i hi
    rw [version_commit, textAt_commit u new hle]
    refine ⟨by omega, hprev, k, hik, by omega, ?_⟩
    rw [valueAt_commit u new hk]
    exact hdict
  · have hle := h.syncing k hk
    rw [version_commit]
    omega

theorem watched_start : Watched serializer initial (start serializer) := ⟨fun _ => rfl, nofun, nofun⟩

section

variable [DecidableEq T]

theorem watched_observe {k} (hk : k ≤ s.version) (hdropped : s.prevEvent = some (s.textAt initial k) →
      ∃ j, k ≤ j ∧ j ≤ s.version ∧ s.dict = s.valueAt serializer initial j) {syncing}
    (hsyncing : ∀ j, syncing = some j → j ≤ s.version) :
    Watched serializer initial { s.observe serializer initial k with index := some k, syncing } := by
  unfold State.observe
  split
  next hprev =>
    refine ⟨nofun, fun i hi => ?_, hsyncing⟩
    cases hi
    exact ⟨hk, hprev, hdropped hprev⟩
  next =>
    refine ⟨nofun, fun i hi => ?_, hsyncing⟩
    cases hi
    exact ⟨hk, rfl, k, le_rfl, hk, rfl⟩

theorem Watched.next (h : Watched serializer initial s) (hlogged : Logged serializer initial updates s) {event}
    (hordered : Ordered serializer initial updates s event) :
    Watched serializer initial (next serializer initial updates s event) := by
  fun_cases EtcdDict.next serializer initial updates s event with
  | case7 | case9 => exact h.commit _ _
  | case12 u k new hp hown =>
    obtain ⟨-, hk, hvalue⟩ := hlogged.phase hp
    refine ⟨h.started, fun i hi => ?_, h.syncing⟩
    obtain ⟨hle, hprev, -⟩ := h.index i hi
    exact ⟨hle, hprev, k, hordered hown k new i hp hi, hk, hvalue.symm⟩
  | case19 k hk =>
    refine ⟨h.started, h.index, fun j hj => ?_⟩
    cases hj
    exact hk.2
  | case21 k hk =>
    have hle := h.syncing k hk
    exact watched_observe hle (fun hprev => ⟨k, le_rfl, hle, hordered k hk hprev⟩) fun _ hj => by cases hj
  | case23 i hsyncing hi hlt =>
    obtain ⟨-, hprev, k, hik, hk, hdict⟩ := h.index i hi
    have hkept : ∀ j, (s.observe serializer initial (i + 1)).syncing = some j → j ≤ s.version := by
      rw [syncing_observe]
      exact h.syncing
    refine watched_observe hlt (fun hsame => ?_) hkept
    -- The mux drops a version with the text of the one before.
    have htext : s.textAt initial i = s.textAt initial (i + 1) := Option.some.inj (hprev.symm.trans hsame)
    rcases Nat.eq_or_lt_of_le hik with heq | hlt'
    · refine ⟨i + 1, le_rfl, hlt, hdict.trans ?_⟩
      rw [← heq, State.valueAt, State.valueAt, htext]
    · exact ⟨k, hlt', hk, hdict⟩
  | case26 => exact ⟨fun _ => rfl, fun _ hi => (by cases hi), fun _ hk => (by cases hk)⟩
  | case1 | case4 | case5 | case8 | case10 | case13 | case15 | case16 | case17 => exact h.goTo _ _
  | _ => exact h

variable (serializer initial updates)

theorem logged_run (events : List Event) :
    Logged serializer initial updates (run serializer initial updates events) :=
  List.foldlRecOn events _ logged_start fun _ h event _ => h.next event

/-- The stored value is what the committed updates make one after another, each of them once, the updates that have
returned among them. And if no own update returns after the watcher has gone past its version, and no version that is
read anew is dropped while the copy differs, then the copy is the stored value once everything is done. -/
theorem copy_not_stale (events : List Event) :
    let s := run serializer initial updates events
    (∃ order : List UpdateId, order.Nodup ∧ (∀ u, s.phase u = .returned → u ∈ order) ∧
      (∀ u ∈ order, (∃ k new, s.phase u = .committed k new) ∨ s.phase u = .returned ∨ s.phase u = .raised) ∧
      order.foldlM (fun d u => (updates u).apply d) (initial.elim serializer.empty serializer.loads) =
        .ok (s.stored serializer initial)) ∧
    (Lib.Along (next serializer initial updates) (Ordered serializer initial updates) (start serializer) events →
      s.Quiet → s.dict = s.stored serializer initial) := by
  intro s
  have hlogged : Logged serializer initial updates s := logged_run serializer initial updates events
  refine ⟨⟨s.log, hlogged.nodup, fun u hu => ?_, fun u hu => ?_, hlogged.fold⟩, fun hordered hquiet => ?_⟩
  · exact hlogged.phase hu
  · have hphase := hlogged.phases u
    revert hphase
    cases s.phase u with
    | idle | reading => exact fun hphase => absurd hu hphase
    | setting prevIndex new =>
      cases prevIndex with
      | none => exact fun hphase => absurd hu hphase.1
      | some k => exact fun hphase => absurd hu hphase.1
    | committed k new => exact fun _ => .inl ⟨k, new, rfl⟩
    | returned => exact fun _ => .inr (.inl rfl)
    | raised => exact fun _ => .inr (.inr rfl)
  · have hstep : ∀ s event, (Logged serializer initial updates s ∧ Watched serializer initial s) →
        Ordered serializer initial updates s event → True ∧
          (Logged serializer initial updates (next serializer initial updates s event) ∧
            Watched serializer initial (next serializer initial updates s event)) :=
      fun s event h he => ⟨trivial, h.1.next event, h.2.next h.1 he⟩
    have hwatched : Watched serializer initial s :=
      (Lib.Along.invariant hstep hordered ⟨logged_start, watched_start⟩).2.2
    -- The watcher is at the last version, so that no other one is as new.
    obtain ⟨-, -, k, hk, hle, hdict⟩ := hwatched.index _ hquiet.index
    rw [hdict, le_antisymm hle hk]
    rfl

end

/-! ## The copy goes stale -/

def plain : Serializer (Lib.Dict String String) (Lib.Dict String String) := ⟨.empty, id, id, fun _ => rfl⟩

/-- Update 0 is the watching process's, and the others are another's. -/
def twoWriters : UpdateId → Update (Lib.Dict String String)
  | 0 => setItem 0 "a" "1"
  | _ => replaceWith 1 .empty

/-- An own update, after which the watcher handles its version. -/
def ownUpdate : List Event := [.syncGet 0, .sync, .call 0, .get 0 0, .set 0, .answer 0, .wait]

theorem ownUpdate_ordered :
    Lib.Along (next plain none twoWriters) (Ordered plain none twoWriters) (start plain) ownUpdate := by
  refine ⟨trivial, fun k _ hprev => ?_, trivial, trivial, trivial, fun _ k new i hphase hindex => ?_, trivial, trivial⟩
  · cases hprev
  · cases hindex
    exact Nat.zero_le k

theorem ownUpdate_quiet : (run plain none twoWriters ownUpdate).Quiet := by
  refine ⟨fun u => ?_, by decide +kernel, by decide +kernel⟩
  cases u with
  | zero => exact .inr (.inl rfl)
  | succ u => exact .inl rfl

theorem copy_not_stale_own_update :
    (run plain none twoWriters ownUpdate).dict = (run plain none twoWriters ownUpdate).stored plain none :=
  (copy_not_stale plain none twoWriters ownUpdate).2 ownUpdate_ordered ownUpdate_quiet

/-- The watcher has gone past the version of update 0 when the answer comes. -/
def lateAnswer : List Event :=
  [.syncGet 0, .sync, .call 0, .get 0 0, .set 0, .call 1, .get 1 1, .set 1, .wait, .wait, .answer 0, .answer 1]

/-- The watcher has lost its place, and reads the text again that it read last. -/
def readAnew : List Event :=
  [.syncGet 0, .sync, .call 0, .get 0 0, .set 0, .answer 0, .call 1, .get 1 1, .set 1, .answer 1, .syncGet 2, .sync]

/-- Two processes create the key, and one of them is refused. -/
def createdTwice : List Event := [.call 0, .get 0 0, .call 1, .get 1 0, .set 0, .set 1, .answer 0]

/-- In two runs the copy is not the stored value when everything is done, and in a third an update is not applied. -/
theorem copy_goes_stale :
    ((run plain none twoWriters lateAnswer).Quiet ∧
      (run plain none twoWriters lateAnswer).dict ≠ (run plain none twoWriters lateAnswer).stored plain none) ∧
    ((run plain (some .empty) twoWriters readAnew).Quiet ∧
      (run plain (some .empty) twoWriters readAnew).dict ≠
        (run plain (some .empty) twoWriters readAnew).stored plain (some .empty)) ∧
    (run plain none twoWriters createdTwice).phase 1 = .raised := by
  refine ⟨⟨⟨fun u => ?_, by decide +kernel, by decide +kernel⟩, by decide +kernel⟩,
    ⟨⟨fun u => ?_, by decide +kernel, by decide +kernel⟩, by decide +kernel⟩, by decide +kernel⟩
  · match u with
    | 0 => exact .inr (.inl rfl)
    | 1 => exact .inr (.inl rfl)
    | u + 2 => exact .inl rfl
  · match u with
    | 0 => exact .inr (.inl rfl)
    | 1 => exact .inr (.inl rfl)
    | u + 2 => exact .inl rfl

end Osprey.EtcdDict
