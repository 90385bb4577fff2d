/-
Code that changes a state and may raise, where what was changed before an
exception stays changed: `ExceptT` over `StateM`, with the rules by which a
run is followed step by step; and a list on which every element is computed by
code that may raise.
-/
import Mathlib.Init

namespace Lib

/-- Code over a state `σ` that may raise an `ε`. -/
abbrev Raise (ε σ : Type) := ExceptT ε (StateM σ)

namespace Raise

variable {ε σ α β : Type} (s : σ)

/-- A result that leaves the state as it is. -/
def result (x : Except ε α) : Raise ε σ α := ExceptT.mk (pure x)

@[simp] theorem run_result (x : Except ε α) : (result x : Raise ε σ α).run s = (x, s) := rfl

@[simp] theorem run_get : (get : Raise ε σ σ).run s = (.ok s, s) := rfl

@[simp] theorem run_modify (f : σ → σ) : (modify f : Raise ε σ PUnit).run s = (.ok ⟨⟩, f s) := rfl

variable {s} {s' : σ}

theorem run_bind_eq (x : Raise ε σ α) (f : α → Raise ε σ β) :
    (x >>= f).run s = (ExceptT.bindCont f (x.run s).1 : StateM σ (Except ε β)) (x.run s).2 := rfl

theorem run_bind_ok {x : Raise ε σ α} {a : α} (h : x.run s = (.ok a, s')) (f : α → Raise ε σ β) :
    (x >>= f).run s = (f a).run s' := by
  rw [run_bind_eq, h]
  rfl

theorem run_bind_error {x : Raise ε σ α} {e : ε} (h : x.run s = (.error e, s')) (f : α → Raise ε σ β) :
    (x >>= f).run s = (.error e, s') := by
  rw [run_bind_eq, h]
  rfl

/-- What the handler of a `tryCatch` makes of an outcome. -/
def handled (f : ε → Raise ε σ α) : Except ε α → StateM σ (Except ε α)
  | .ok a => pure (.ok a)
  | .error e => (f e).run

theorem run_tryCatch_eq (x : Raise ε σ α) (f : ε → Raise ε σ α) :
    (tryCatch x f : Raise ε σ α).run s = handled f (x.run s).1 (x.run s).2 := by
  change (match (x.run s).1 with
    | .ok a => pure (.ok a)
    | .error e => (f e).run : StateM σ (Except ε α)) (x.run s).2 = _
  cases (x.run s).1 <;> rfl

theorem run_tryCatch_ok {x : Raise ε σ α} {a : α} (h : x.run s = (.ok a, s')) (f : ε → Raise ε σ α) :
    (tryCatch x f : Raise ε σ α).run s = (.ok a, s') := by
  rw [run_tryCatch_eq, h]
  rfl

theorem run_tryCatch_error {x : Raise ε σ α} {e : ε} (h : x.run s = (.error e, s')) (f : ε → Raise ε σ α) :
    (tryCatch x f : Raise ε σ α).run s = (f e).run s' := by
  rw [run_tryCatch_eq, h]
  rfl

theorem run_forM_result (calls : List α) (f : α → Except ε PUnit) (s : σ) :
    ∃ r, (calls.forM fun call => result (f call) : Raise ε σ PUnit).run s = (r, s) ∧
      (r = .ok ⟨⟩ ↔ ∀ call ∈ calls, f call = .ok ⟨⟩) := by
  induction calls with
  | nil => exact ⟨.ok ⟨⟩, rfl, by simp⟩
  | cons call calls ih =>
    obtain ⟨r, hr, hiff⟩ := ih
    cases hcall : f call with
    | error e =>
      refine ⟨.error e, ?_, by simp [hcall]⟩
      exact run_bind_error (by rw [run_result, hcall]) _
    | ok u =>
      refine ⟨r, ?_, by simp [hcall, hiff]⟩
      exact (run_bind_ok (by rw [run_result, hcall]) _).trans hr

end Raise

/-! ## Lists of results -/

section

variable {ε α β δ : Type}

theorem mapM_cons_eq_some {f : α → Option β} {x : α} {xs : List α} {ys : List β} :
    (x :: xs).mapM f = some ys ↔ ∃ y, f x = some y ∧ ∃ ys', xs.mapM f = some ys' ∧ y :: ys' = ys := by
  simp [Option.bind_eq_some_iff]

theorem exists_mapM_eq_some_iff {f : α → Option β} {xs : List α} : (∃ ys, xs.mapM f = some ys) ↔
    ∀ x ∈ xs, ∃ y, f x = some y := by
  induction xs with
  | nil => simp
  | cons x xs ih =>
    rw [List.forall_mem_cons, ← ih]
    simp only [mapM_cons_eq_some]
    exact ⟨fun ⟨_, y, hx, ys, hxs, _⟩ => ⟨⟨y, hx⟩, ys, hxs⟩, fun ⟨⟨y, hx⟩, ys, hxs⟩ => ⟨_, y, hx, ys, hxs, rfl⟩⟩

/-- Reading back what was written, where what has not the property fails. -/
theorem mapM_of_mapM_write {m : Type → Type} [Monad m] [LawfulMonad m] (fail : {γ : Type} → m γ)
    (hfail : ∀ {γ γ' : Type} (g : γ → m γ'), fail >>= g = fail) (p : α → Prop) [DecidablePred p] (value : α → β)
    {write : α → Option δ} {read : δ → m β}
    (h : ∀ {x d}, write x = some d → read d = if p x then pure (value x) else fail) :
    ∀ {xs : List α} {ds}, xs.mapM write = some ds → ds.mapM read = if ∀ x ∈ xs, p x then pure (xs.map value) else fail
  | [], ds, hds => by
    cases hds
    simp
  | x :: xs, ds, hds => by
    obtain ⟨d, hd, ds, hds', rfl⟩ := mapM_cons_eq_some.mp hds
    have hrest := mapM_of_mapM_write fail hfail p value h hds'
    rw [List.mapM_cons, h hd, hrest]
    by_cases hx : p x
    · rw [if_pos hx, pure_bind]
      by_cases hxs : ∀ y ∈ xs, p y
      · rw [if_pos hxs, if_pos (List.forall_mem_cons.mpr ⟨hx, hxs⟩), pure_bind]
        rfl
      · rw [if_neg hxs, if_neg (mt (fun h => (List.forall_mem_cons.mp h).2) hxs), hfail]
    · rw [if_neg hx, if_neg (mt (fun h => (List.forall_mem_cons.mp h).1) hx), hfail]

variable {f : α → Except ε β} {x : α} {xs : List α} {ys : List β}

theorem mapM_cons_eq_ok :
    (x :: xs).mapM f = .ok ys ↔ ∃ y ys', f x = .ok y ∧ xs.mapM f = .ok ys' ∧ y :: ys' = ys := by
  rw [List.mapM_cons]
  cases f x <;> cases xs.mapM f <;> simp [bind, Except.bind, pure, Except.pure]

theorem mapM_ok {g} (h : ∀ x ∈ xs, f x = .ok (g x)) : xs.mapM f = .ok (xs.map g) := by
  induction xs with
  | nil => rfl
  | cons x xs ih =>
    obtain ⟨hx, hxs⟩ := List.forall_mem_cons.mp h
    rw [List.mapM_cons, hx, ih hxs]
    rfl

theorem mapM_map_ok (read : δ → Except ε α) (write : α → δ) (h : ∀ x, read (write x) = .ok x) (xs : List α) :
    (xs.map write).mapM read = .ok xs := by
  have hmap : xs.mapM (read ∘ write) = .ok (xs.map id) := mapM_ok fun x _ => h x
  rw [List.mapM_map, hmap, List.map_id]

theorem forall_of_mapM_ok (h : xs.mapM f = .ok ys) : ∀ x ∈ xs, ∃ y, f x = .ok y := by
  induction xs generalizing ys with
  | nil => exact List.forall_mem_nil _
  | cons x xs ih =>
    obtain ⟨y, ys', hx, hxs, -⟩ := mapM_cons_eq_ok.mp h
    exact List.forall_mem_cons.mpr ⟨⟨y, hx⟩, ih hxs⟩

theorem exists_mapM_ok_iff : (∃ ys, xs.mapM f = .ok ys) ↔ ∀ x ∈ xs, ∃ y, f x = .ok y := by
  refine ⟨fun ⟨ys, h⟩ => forall_of_mapM_ok h, fun h => ?_⟩
  induction xs with
  | nil => exact ⟨[], rfl⟩
  | cons x xs ih =>
    obtain ⟨⟨y, hx⟩, hxs⟩ := List.forall_mem_cons.mp h
    obtain ⟨ys, hys⟩ := ih hxs
    exact ⟨y :: ys, mapM_cons_eq_ok.mpr ⟨y, ys, hx, hys, rfl⟩⟩

theorem mem_of_mapM_ok (h : xs.mapM f = .ok ys) {y} : y ∈ ys ↔ ∃ x ∈ xs, f x = .ok y := by
  induction xs generalizing ys with
  | nil =>
    cases h
    simp
  | cons x xs ih =>
    obtain ⟨y', ys', hx, hxs, rfl⟩ := mapM_cons_eq_ok.mp h
    rw [List.mem_cons, ih hxs]
    simp only [List.mem_cons, exists_eq_or_imp, hx, Except.ok.injEq]
    rw [eq_comm]

end

end Lib
