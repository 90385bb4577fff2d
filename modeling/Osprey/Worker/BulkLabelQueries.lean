/-
The queries by which a bulk label task collects its entities
(`BulkLabelSink._build_top_n_queries`): one for the whole interval, or, for a
long interval without a limit, one for every six hours.

The split counts in whole seconds from a truncated start to a truncated end,
while the last query ends with the interval; the main result says what is lost
or added at the two ends. Timestamps are numbers of any ordered field, as the
seconds that are given to `datetime.fromtimestamp`.
-/
import Mathlib.Data.Rat.Floor

namespace Osprey.BulkLabel

variable {K : Type*} [Field K] [LinearOrder K] [IsStrictOrderedRing K] [FloorRing K]

/-- `NO_LIMIT_TOP_N_QUERY_TIME_DELTA_MAX`, in seconds. -/
abbrev noLimitTopNQueryTimeDeltaMax : Int := 60 * 60 * 6

/-- The fields of a task and its query that the split reads. -/
structure QueryTask (K : Type*) where
  dimension : String
  noLimit : Bool
  start : K
  stop : K

structure TopNDruidQuery (K : Type*) where
  dimension : String
  limit : Nat
  start : K
  stop : K
  deriving DecidableEq

/-- `int`: the fraction is dropped. -/
def int (x : K) : Int := if 0 ≤ x then ⌊x⌋ else ⌈x⌉

/-- How many numbers `range(start, stop, step)` has. -/
def rangeLength (start stop step : Int) : Nat := ((stop - start + (step - 1)) / step).toNat

def range (start stop step : Int) : List Int :=
  (List.range (rangeLength start stop step)).map fun (i : Nat) => start + step * (i : Int)

def buildTopNQueries (task : QueryTask K) : List (TopNDruidQuery K) :=
  let limit := if task.noLimit then 20000000 else 100000
  if task.noLimit ∧ noLimitTopNQueryTimeDeltaMax < task.stop - task.start then
    (range (int task.start) (int task.stop) noLimitTopNQueryTimeDeltaMax).map fun (nextStart : Int) =>
      ⟨task.dimension, limit, nextStart, min (nextStart + noLimitTopNQueryTimeDeltaMax : Int) task.stop⟩
  else [⟨task.dimension, limit, task.start, task.stop⟩]

/-! ## The parts of a long interval -/

theorem lt_int_add_one (x : K) : x < int x + 1 := by
  unfold int
  split
  · exact Int.lt_floor_add_one x
  · exact (Int.le_ceil x).trans_lt (lt_add_one _)

theorem int_sub_one_lt (x : K) : (int x : K) - 1 < x := by
  unfold int
  split
  · exact (sub_one_lt _).trans_le (Int.floor_le x)
  · linarith [Int.ceil_lt_add_one x]

theorem rangeLength_spec {a b} (hab : a < b) :
    0 < rangeLength a b 21600 ∧ b ≤ a + 21600 * rangeLength a b 21600 ∧
      (∀ i < rangeLength a b 21600, a + 21600 * i < b) ∧ (a + 21600 * rangeLength a b 21600 = b ↔ 21600 ∣ b - a) := by
  unfold rangeLength
  refine ⟨by omega, by omega, fun i hi => by omega, by omega⟩

theorem covered_iff {a stop t} {n : Nat} (h : ∀ i < n, ((a + 21600 * i : Int) : K) < stop) :
    (∃ i < n, ((a + 21600 * i : Int) : K) ≤ t ∧ t < min ((a + 21600 * i + 21600 : Int) : K) stop) ↔
      (a : K) ≤ t ∧ t < min ((a + 21600 * n : Int) : K) stop := by
  induction n with
  | zero => simpa using fun hle hlt => absurd hlt hle.not_gt
  | succ n ih =>
    have hn := h n (Nat.lt_succ_self n)
    have hnext : ((a + 21600 * (n + 1 : Nat) : Int) : K) = ((a + 21600 * n + 21600 : Int) : K) := by
      push_cast
      ring
    have hstart : (a : K) ≤ ((a + 21600 * n : Int) : K) := by exact_mod_cast (by omega : a ≤ a + 21600 * n)
    have hgrow : ((a + 21600 * n : Int) : K) ≤ ((a + 21600 * n + 21600 : Int) : K) := by
      exact_mod_cast (by omega : a + 21600 * (n : Int) ≤ a + 21600 * n + 21600)
    rw [Nat.exists_lt_succ_right, ih fun i hi => h i (Nat.lt_succ_of_lt hi), hnext, min_eq_left hn.le]
    constructor
    · rintro (⟨hlow, hhigh⟩ | ⟨hlow, hhigh⟩)
      · exact ⟨hlow, hhigh.trans_le (le_min hgrow hn.le)⟩
      · exact ⟨hstart.trans hlow, hhigh⟩
    · rintro ⟨hlow, hhigh⟩
      rcases lt_or_ge t ((a + 21600 * n : Int) : K) with hlt | hge
      · exact .inl ⟨hlow, hlt⟩
      · exact .inr ⟨hge, hhigh⟩

def part (task : QueryTask K) (i : Nat) : TopNDruidQuery K where
  dimension := task.dimension
  limit := 20000000
  start := ((int task.start + 21600 * i : Int) : K)
  stop := min ((int task.start + 21600 * i + 21600 : Int) : K) task.stop

/-- **What the queries of a task without a limit cover.** No interval is empty or longer than six hours, and each begins
where the one before ends. Together they are the task's interval exactly if it is not split, or if it begins at a whole
second and its end is not one of the cuts with a fraction dropped. -/
theorem queries_cover_iff (task : QueryTask K) (hnoLimit : task.noLimit = true) (hlt : task.start < task.stop) :
    let queries := buildTopNQueries task
    (∀ q ∈ queries, q.start < q.stop ∧ q.stop ≤ q.start + noLimitTopNQueryTimeDeltaMax) ∧
    (∀ i q q', queries[i]? = some q → queries[i + 1]? = some q' → q.stop = q'.start) ∧
    queries.Pairwise (fun q q' => q.stop ≤ q'.start) ∧
    ((∀ t, (∃ q ∈ queries, t ∈ Set.Ico q.start q.stop) ↔ t ∈ Set.Ico task.start task.stop) ↔
      task.stop - task.start ≤ noLimitTopNQueryTimeDeltaMax ∨ (int task.start = task.start ∧
        (task.stop ≤ int task.stop ∨ ¬ noLimitTopNQueryTimeDeltaMax ∣ int task.stop - int task.start))) := by
  have hmax : noLimitTopNQueryTimeDeltaMax = 21600 := rfl
  rw [hmax]
  by_cases hsplit : ((21600 : Int) : K) < task.stop - task.start
  · have hstart := int_sub_one_lt task.start
    have hstop := lt_int_add_one task.stop
    have hstop' := int_sub_one_lt task.stop
    have hab : int task.start < int task.stop := by
      push_cast at hsplit
      exact_mod_cast (by linarith : (int task.start : K) < int task.stop)
    obtain ⟨hpos, hend, hbegin, hcut⟩ := rangeLength_spec hab
    set n := rangeLength (int task.start) (int task.stop) 21600 with hn
    have hqueries : buildTopNQueries task = (List.range n).map (part task) := by
      rw [buildTopNQueries, if_pos ⟨hnoLimit, hsplit⟩, hnoLimit, range, List.map_map]
      rfl
    have hbefore : ∀ i < n, ((int task.start + 21600 * i : Int) : K) < task.stop := by
      intro i hi
      have hle : ((int task.start + 21600 * i : Int) : K) ≤ ((int task.stop - 1 : Int) : K) := by
        exact_mod_cast Int.le_sub_one_of_lt (hbegin i hi)
      push_cast at hle ⊢
      linarith
    rw [hqueries]
    refine ⟨fun q hq => ?_, fun i q q' hq hq' => ?_, ?_, ?_⟩
    · obtain ⟨i, hi, rfl⟩ := List.mem_map.mp hq
      refine ⟨lt_min (Int.cast_lt.mpr (by omega)) (hbefore i (List.mem_range.mp hi)), (min_le_left _ _).trans ?_⟩
      rw [part, Int.cast_add _ 21600]
    · obtain ⟨_, rfl⟩ := List.getElem?_eq_some_iff.mp hq
      obtain ⟨hi, rfl⟩ := List.getElem?_eq_some_iff.mp hq'
      have hnext := hbefore (i + 1) (by simpa using hi)
      have hsame : int task.start + 21600 * ((i + 1 : Nat) : Int) = int task.start + 21600 * i + 21600 := by omega
      simp only [List.getElem_map, List.getElem_range, part, hsame] at hnext ⊢
      exact min_eq_left hnext.le
    · rw [List.pairwise_map]
      refine List.pairwise_lt_range.imp fun {i j} hij => (min_le_left _ _).trans (Int.cast_le.mpr ?_)
      omega
    · have hcovered : ∀ t, (∃ q ∈ (List.range n).map (part task), t ∈ Set.Ico q.start q.stop) ↔
          t ∈ Set.Ico (int task.start : K) (min (int task.start + 21600 * n : Int) task.stop) := by
        intro t
        simp only [List.mem_map, List.mem_range, exists_exists_and_eq_and, Set.mem_Ico]
        exact covered_iff hbefore
      have hnonempty : (int task.start : K) < min ((int task.start + 21600 * n : Int) : K) task.stop := by
        have := hbefore 0 hpos
        refine lt_min (Int.cast_lt.mpr (by omega)) (by simpa using this)
      simp only [hcovered]
      rw [← Set.ext_iff, Set.Subset.antisymm_iff, Set.Ico_subset_Ico_iff hnonempty, Set.Ico_subset_Ico_iff hlt,
        or_iff_right (not_le.mpr hsplit), ← hcut]
      have hlast : task.stop ≤ ((int task.start + 21600 * n : Int) : K) ↔
          task.stop ≤ int task.stop ∨ ¬ int task.start + 21600 * (n : Int) = int task.stop := by
        constructor
        · intro hle
          by_cases heq : int task.start + 21600 * (n : Int) = int task.stop
          · exact .inl (heq ▸ hle)
          · exact .inr heq
        · rintro (hle | hne)
          · exact hle.trans (Int.cast_le.mpr hend)
          · have hsucc : ((int task.stop + 1 : Int) : K) ≤ ((int task.start + 21600 * n : Int) : K) :=
              Int.cast_le.mpr (by omega)
            push_cast at hsucc ⊢
            linarith
      rw [← hlast, le_min_iff, le_antisymm_iff]
      simp only [min_le_right, le_refl, and_true]
      tauto
  · have hone : buildTopNQueries task = [⟨task.dimension, 20000000, task.start, task.stop⟩] := by
      rw [buildTopNQueries, if_neg fun h => hsplit h.2, hnoLimit]
      rfl
    have hshort : task.stop - task.start ≤ ((21600 : Int) : K) := not_lt.mp hsplit
    rw [hone]
    refine ⟨?_, fun i q q' _ hq' => (by simp at hq'), List.pairwise_singleton _ _, iff_of_true (by simp) (.inl hshort)⟩
    simp only [List.forall_mem_singleton]
    push_cast at hshort ⊢
    exact ⟨hlt, by linarith⟩

theorem queries_cover_seven_hours :
    ∃ q ∈ buildTopNQueries (⟨"UserId", true, 0, 25200⟩ : QueryTask Rat), 25199 ∈ Set.Ico q.start q.stop :=
  ((queries_cover_iff (⟨"UserId", true, 0, 25200⟩ : QueryTask Rat) rfl (by norm_num)).2.2.2.mpr
    (.inr ⟨by decide +kernel, .inl (by decide +kernel)⟩) 25199).mpr ⟨by norm_num, by norm_num⟩

/-- Twelve hours from half past a second on: half a second is added before them, and the last one is lost. -/
theorem queries_shifted :
    buildTopNQueries (⟨"UserId", true, 1 / 2, 43201 / 2 + 21600⟩ : QueryTask Rat) =
      [⟨"UserId", 20000000, 0, 21600⟩, ⟨"UserId", 20000000, 21600, 43200⟩] := by
  decide +kernel

end Osprey.BulkLabel
