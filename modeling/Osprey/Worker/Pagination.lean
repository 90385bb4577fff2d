/-
`PaginatedScanDruidQuery`: reading events page by page.

A query asks for one row more than the page holds. If the extra row comes, it
is taken off the page, and its timestamp becomes the cursor of the next page:
cut to whole seconds, it is the next query's start when the order is
ascending and its end when the order is descending. Intervals contain their
start and not their end, so

* descending, the row that was taken off is in no later page;
* ascending, the rows of the page that lie in its second come again.

`visitsEachOnce_iff` says exactly when following the cursor nevertheless
visits every event once.
-/
import Osprey.Engine.Basic
import Osprey.Lib.Encoding
import Mathlib.Data.List.Sort

namespace Osprey.Pagination

open Lib.Encoding

/-! ## The query -/

/-- A row of the event store: the columns `__action_id` and `__time`, the
latter in milliseconds since the epoch. -/
structure Event where
  actionId : Int
  time : Int
  deriving DecidableEq, Repr

def Event.instant (e : Event) : Time := e.time * 1000

inductive Ordering
  | ascending
  | descending
  deriving DecidableEq, Repr

structure PaginatedScanResult where
  actionIds : List Int
  nextPage : Option (List Char)
  deriving DecidableEq, Repr

structure PaginatedScanDruidQuery where
  start : Time
  end_ : Time
  limit : Nat := 100
  nextPage : Option (List Char) := none
  order : Ordering := .descending

/-- `base64.b64encode(str(timestamp).encode('utf-8')).decode('utf-8')`. -/
def encodeCursor (timestamp : Int) : List Char := encode (intBytes timestamp)

/-- `int(base64.b64decode(next_page.encode('utf-8')))`. -/
def decodeCursor (cursor : List Char) : Except Exc Int :=
  match (decode cursor).bind parseInt with
  | some n => .ok n
  | none => .error ⟨.valueError, "invalid literal for int() with base 10"⟩

/-- `datetime.fromtimestamp(date_in_milliseconds // 1000, tz=timezone.utc)`. -/
def paginationDatetime (milliseconds : Int) : Time := seconds (milliseconds / 1000)

/-- The interval a page is read from: the query's, with the cursor in place of
its start or its end. -/
def PaginatedScanDruidQuery.interval (q : PaginatedScanDruidQuery) : Except Exc (Time × Time) :=
  match q.nextPage with
  | none => .ok (q.start, q.end_)
  | some cursor => do
    let pagination := paginationDatetime (← decodeCursor cursor)
    match q.order with
    | .ascending => return (pagination, q.end_)
    | .descending => return (q.start, pagination)

/-- What a scan answers: the rows of an interval, up to a limit, by segments. -/
abbrev Druid := Time → Time → Nat → List (List Event)

/-- `_query_with_filter` for a scan. -/
def queryWithFilter (druid : Druid) (start end_ : Time) (limit : Nat) : Except Exc (List (List Event)) :=
  if start > end_ then .error ⟨.valueError, "Start date must be before end date"⟩ else .ok (druid start end_ limit)

/-- The page made of the rows: the row past the limit is taken off and
becomes the cursor. -/
def makePage (limit : Nat) (events : List Event) : PaginatedScanResult :=
  if events.length = limit + 1 then
    ⟨events.dropLast.map (·.actionId), events.getLast?.map fun e => encodeCursor e.time⟩
  else ⟨events.map (·.actionId), none⟩

def PaginatedScanDruidQuery.execute (q : PaginatedScanDruidQuery) (druid : Druid) :
    Except Exc PaginatedScanResult := do
  let (start, end_) ← q.interval
  let results ← queryWithFilter druid start end_ (q.limit + 1)
  if results = [] then return ⟨[], none⟩
  return makePage q.limit results.flatten

/-- Issuing the query and then again with each cursor it returns, until it
returns none; `druid i` answers the `i`-th query. `none` when the pages have
not ended after `fuel` of them. -/
def follow (druid : Nat → Druid) (q : PaginatedScanDruidQuery) :
    Nat → Nat → Option (List Char) → Option (Except Exc (List Int))
  | 0, _, _ => none
  | fuel + 1, i, cursor =>
    match { q with nextPage := cursor }.execute (druid i) with
    | .error e => some (.error e)
    | .ok page =>
      match page.nextPage with
      | none => some (.ok page.actionIds)
      | some cursor' => (follow druid q fuel (i + 1) (some cursor')).map (·.map (page.actionIds ++ ·))

/-! ## The event store -/

def Ordering.le : Ordering → Event → Event → Prop
  | .ascending => fun a b => a.time ≤ b.time
  | .descending => fun a b => b.time ≤ a.time

def within (events : List Event) (start end_ : Time) : List Event :=
  events.filter fun e => start ≤ e.instant ∧ e.instant < end_

/-- A store that answers every scan with the first rows of its interval in
the requested order; rows of one timestamp may come in any order, and in
another one each time. -/
def Serves (druid : Nat → Druid) (order : Ordering) (events : List Event) : Prop :=
  ∀ i start end_ limit, ∃ rows : List Event, rows.Perm (within events start end_) ∧ rows.Pairwise order.le ∧
    (druid i start end_ limit).flatten = rows.take limit

/-- Following the cursor ends, and visits every event exactly once. -/
def VisitsEachOnce (druid : Nat → Druid) (q : PaginatedScanDruidQuery) (events : List Event) : Prop :=
  ∃ fuel ids, follow druid q fuel 0 none = some (.ok ids) ∧ ids.Perm (events.map (·.actionId))

instance (order : Ordering) : DecidableRel order.le := fun a b =>
  match order with
  | .ascending => inferInstanceAs (Decidable (a.time ≤ b.time))
  | .descending => inferInstanceAs (Decidable (b.time ≤ a.time))

instance (order : Ordering) : Std.Total order.le := ⟨fun a b => by cases order <;> exact le_total _ _⟩

instance (order : Ordering) : IsTrans Event order.le := ⟨fun a b c h h' => by
  cases order with
  | ascending => exact le_trans h h'
  | descending => exact le_trans (α := Int) h' h⟩

def sortedStore (order : Ordering) (events : List Event) : Druid := fun start end_ limit =>
  [((within events start end_).insertionSort order.le).take limit]

theorem sortedStore_serves (order : Ordering) (events : List Event) :
    Serves (fun _ => sortedStore order events) order events := fun _ _ _ _ =>
  ⟨_, List.perm_insertionSort _ _, List.pairwise_insertionSort _ _, by simp [sortedStore]⟩

/-! ## One page -/

theorem decodeCursor_encodeCursor (t : Int) : decodeCursor (encodeCursor t) = .ok t := by
  simp [decodeCursor, encodeCursor, decode_encode, parseInt_intBytes]

/-- The interval of the page after the timestamp `cursor`, or of the first page. -/
def PaginatedScanDruidQuery.bounds (q : PaginatedScanDruidQuery) : Option Int → Time × Time
  | none => (q.start, q.end_)
  | some t =>
    match q.order with
    | .ascending => (paginationDatetime t, q.end_)
    | .descending => (q.start, paginationDatetime t)

theorem interval_encodeCursor (q : PaginatedScanDruidQuery) (cursor : Option Int) :
    { q with nextPage := cursor.map encodeCursor }.interval = .ok (q.bounds cursor) := by
  cases cursor with
  | none => rfl
  | some t =>
    simp only [PaginatedScanDruidQuery.interval, Option.map_some, decodeCursor_encodeCursor, ok_bind,
      PaginatedScanDruidQuery.bounds]
    cases q.order <;> rfl

def PaginatedScanDruidQuery.rows (q : PaginatedScanDruidQuery) (events : List Event) (cursor : Option Int) :
    List Event :=
  within events (q.bounds cursor).1 (q.bounds cursor).2

variable {limit : Nat}

theorem makePage_take {rows : List Event} :
    makePage limit (rows.take (limit + 1)) =
      if h : limit < rows.length then
        ⟨(rows.take limit).map (·.actionId), some (encodeCursor (rows.get ⟨limit, h⟩).time)⟩
      else ⟨rows.map (·.actionId), none⟩ := by
  unfold makePage
  by_cases h : limit < rows.length
  · have hlen : (rows.take (limit + 1)).length = limit + 1 := by simp; omega
    have hsplit : rows.take (limit + 1) = rows.take limit ++ [rows.get ⟨limit, h⟩] := by simp
    rw [if_pos hlen, dif_pos h, hsplit]
    simp only [List.dropLast_concat, List.getLast?_concat, Option.map_some]
  · rw [dif_neg h, List.take_of_length_le (by omega), if_neg (by omega)]

variable {q : PaginatedScanDruidQuery} {events : List Event}

/-- **One query.** When its interval is not reversed, a page holds the first
`limit` rows of some order the store may answer in, and the timestamp of the
row after them is the cursor. -/
theorem execute_page {druid} (hserves : Serves druid q.order events) (i : Nat) (cursor : Option Int)
    (hle : (q.bounds cursor).1 ≤ (q.bounds cursor).2) :
    ∃ rows : List Event, rows.Perm (q.rows events cursor) ∧ rows.Pairwise q.order.le ∧
      { q with nextPage := cursor.map encodeCursor }.execute (druid i) =
        .ok (makePage q.limit (rows.take (q.limit + 1))) := by
  obtain ⟨rows, hperm, hsorted, hrows⟩ := hserves i (q.bounds cursor).1 (q.bounds cursor).2 (q.limit + 1)
  refine ⟨rows, hperm, hsorted, ?_⟩
  unfold PaginatedScanDruidQuery.execute queryWithFilter
  rw [interval_encodeCursor]
  simp only [ok_bind, pure_eq_ok, if_neg (not_lt.2 hle), gt_iff_lt]
  split
  · next hnil =>
    rw [hnil] at hrows
    rw [← hrows]
    rfl
  · rw [hrows]

variable {cursor : Option Int}

theorem execute_reversed (druid : Druid) (hlt : (q.bounds cursor).2 < (q.bounds cursor).1) :
    ∃ e, { q with nextPage := cursor.map encodeCursor }.execute druid = .error e := by
  unfold PaginatedScanDruidQuery.execute queryWithFilter
  rw [interval_encodeCursor]
  refine ⟨⟨.valueError, "Start date must be before end date"⟩, ?_⟩
  simp [hlt]

/-- **What following the cursor does next**: it stops at a short page, and
otherwise goes on from the timestamp of the row after the page. -/
theorem follow_succ {druid : Nat → Druid} (hserves : Serves druid q.order events) (i : Nat) (cursor : Option Int)
    (hle : (q.bounds cursor).1 ≤ (q.bounds cursor).2) :
    ∃ rows : List Event, rows.Perm (q.rows events cursor) ∧ rows.Pairwise q.order.le ∧
      ∀ fuel, follow druid q (fuel + 1) i (cursor.map encodeCursor) =
        if h : q.limit < rows.length then
          (follow druid q fuel (i + 1) ((some (rows.get ⟨q.limit, h⟩).time).map encodeCursor)).map
            (·.map ((rows.take q.limit).map (·.actionId) ++ ·))
        else some (.ok (rows.map (·.actionId))) := by
  obtain ⟨rows, hperm, hsorted, hexec⟩ := execute_page hserves i cursor hle
  refine ⟨rows, hperm, hsorted, fun fuel => ?_⟩
  rw [follow, hexec, makePage_take]
  by_cases h : q.limit < rows.length
  · simp [h]
  · simp [h]

/-! ## Cursors and whole seconds -/

def second (milliseconds : Int) : Int := milliseconds / 1000

theorem paginationDatetime_le {t} {e : Event} : paginationDatetime t ≤ e.instant ↔ second t ≤ second e.time := by
  change t / 1000 * 1000000 ≤ e.time * 1000 ↔ t / 1000 ≤ e.time / 1000
  omega

theorem paginationDatetime_le_instant (e : Event) : paginationDatetime e.time ≤ e.instant :=
  paginationDatetime_le.2 le_rfl

def sortedTimes (events : List Event) : List Int := (events.map (·.time)).insertionSort (· ≤ ·)

theorem map_time_eq_sortedTimes {rows : List Event} (hperm : rows.Perm events)
    (hsorted : rows.Pairwise Ordering.ascending.le) : rows.map (·.time) = sortedTimes events :=
  List.Perm.eq_of_pairwise' (List.pairwise_map.2 hsorted) (List.pairwise_insertionSort (· ≤ ·) _)
    ((hperm.map _).trans (List.perm_insertionSort (· ≤ ·) _).symm)

/-- Every page boundary lies between two seconds: in ascending order, the
last row of a page and the row after it are not of one second. -/
def CutsBetweenSeconds (limit : Nat) (times : List Int) : Prop :=
  ∀ k a b, 1 ≤ k → times[k * limit - 1]? = some a → times[k * limit]? = some b → second a < second b

theorem cutsBetweenSeconds_short {times} (h : times.length ≤ limit) : CutsBetweenSeconds limit times := by
  intro k a b hk _ hb
  have hlt := (List.getElem?_eq_some_iff.1 hb).1
  have := Nat.le_mul_of_pos_left limit hk
  omega

theorem cutsBetweenSeconds_cons (hlimit : 1 ≤ limit) (times : List Int) :
    CutsBetweenSeconds limit times ↔
      (∀ a b, times[limit - 1]? = some a → times[limit]? = some b → second a < second b) ∧
        CutsBetweenSeconds limit (times.drop limit) := by
  have shift : ∀ k, 1 ≤ k → limit + (k * limit - 1) = (k + 1) * limit - 1 ∧ limit + k * limit = (k + 1) * limit := by
    intro k hk
    have := Nat.le_mul_of_pos_left limit hk
    rw [Nat.add_mul]
    omega
  constructor
  · refine fun h => ⟨fun a b ha hb => h 1 a b le_rfl (by simpa using ha) (by simpa using hb), ?_⟩
    intro k a b hk ha hb
    rw [List.getElem?_drop, (shift k hk).1] at ha
    rw [List.getElem?_drop, (shift k hk).2] at hb
    exact h (k + 1) a b (by omega) ha hb
  · rintro ⟨hfirst, hrest⟩ k a b hk ha hb
    obtain ⟨k, rfl⟩ : ∃ k', k = k' + 1 := ⟨k - 1, by omega⟩
    rcases Nat.eq_zero_or_pos k with rfl | hk'
    · exact hfirst a b (by simpa using ha) (by simpa using hb)
    · refine hrest k a b hk' ?_ ?_
      · rw [List.getElem?_drop, (shift k hk').1]; exact ha
      · rw [List.getElem?_drop, (shift k hk').2]; exact hb

section Ascending

variable {druid : Nat → Druid} {q : PaginatedScanDruidQuery} {events rows : List Event}

/-- A cursor that some event of the store has put there. -/
def FromStore (events : List Event) (cursor : Option Int) : Prop := ∀ t ∈ cursor, ∃ e ∈ events, e.time = t

theorem FromStore.row (hperm : rows.Perm (q.rows events cursor)) {n}
    (h : n < rows.length) : FromStore events (some (rows.get ⟨n, h⟩).time) := by
  rintro _ ⟨⟩
  have hmem : rows.get ⟨n, h⟩ ∈ q.rows events cursor := hperm.mem_iff.1 (List.get_mem _ _)
  exact ⟨_, (List.mem_filter.1 hmem).1, rfl⟩

theorem le_of_mem_drop (hsorted : rows.Pairwise Ordering.ascending.le) {n}
    (h : n < rows.length) : ∀ e ∈ rows.drop n, (rows.get ⟨n, h⟩).time ≤ e.time := by
  rw [List.drop_eq_getElem_cons h]
  have hd := hsorted.drop (i := n)
  rw [List.drop_eq_getElem_cons h] at hd
  intro e he
  rcases List.mem_cons.1 he with rfl | he
  · exact le_rfl
  · exact (List.pairwise_cons.1 hd).1 e he

theorem repeated_eq_nil_iff (hlimit : 1 ≤ limit) (hsorted : rows.Pairwise Ordering.ascending.le)
    (h : limit < rows.length) :
    (rows.take limit).filter (fun e => second (rows.get ⟨limit, h⟩).time ≤ second e.time) = [] ↔
      ∀ a b, (rows.map (·.time))[limit - 1]? = some a → (rows.map (·.time))[limit]? = some b →
        second a < second b := by
  have hlast : limit - 1 < rows.length := by omega
  have ha : (rows.map (·.time))[limit - 1]? = some rows[limit - 1].time := by simp [hlast]
  have hb : (rows.map (·.time))[limit]? = some rows[limit].time := by simp [h]
  rw [ha, hb]
  simp only [Option.some.injEq, List.filter_eq_nil_iff, decide_eq_true_eq, not_le, List.get_eq_getElem]
  constructor
  · rintro hno _ _ rfl rfl
    refine hno _ ?_
    rw [List.mem_take_iff_getElem]
    exact ⟨limit - 1, by omega, rfl⟩
  · intro hcut e he
    -- a row of the page is not later than its last one
    obtain ⟨j, hj, rfl⟩ := List.mem_take_iff_getElem.1 he
    refine lt_of_le_of_lt (Int.ediv_le_ediv (by decide) ?_) (hcut _ _ rfl rfl)
    rcases Nat.lt_or_ge j (limit - 1) with hlt | hge
    · exact List.pairwise_iff_getElem.1 hsorted j (limit - 1) (by omega) hlast hlt
    · have : j = limit - 1 := by omega
      subst this
      exact le_rfl

variable (horder : q.order = .ascending) (hin : ∀ e ∈ events, q.start ≤ e.instant ∧ e.instant < q.end_)

include horder hin

theorem rows_ascending (cursor : Option Int) :
    q.rows events cursor = events.filter fun e => ∀ t ∈ cursor, second t ≤ second e.time := by
  unfold PaginatedScanDruidQuery.rows within
  refine List.filter_congr fun e he => ?_
  cases cursor with
  | none => simp [PaginatedScanDruidQuery.bounds, hin e he]
  | some t => simp [PaginatedScanDruidQuery.bounds, horder, paginationDatetime_le, (hin e he).2]

theorem bounds_le_ascending (hle : q.start ≤ q.end_) (hc : FromStore events cursor) :
    (q.bounds cursor).1 ≤ (q.bounds cursor).2 := by
  cases cursor with
  | none => exact hle
  | some t =>
    obtain ⟨e, he, rfl⟩ := hc t rfl
    simp only [PaginatedScanDruidQuery.bounds, horder]
    exact (paginationDatetime_le_instant e).trans (hin e he).2.le

/-- The next page is read from the rows after this one, and from the rows of
this one that lie in the second of the cursor. -/
theorem rows_after_ascending (hperm : rows.Perm (q.rows events cursor))
    (hsorted : rows.Pairwise Ordering.ascending.le) (h : q.limit < rows.length) :
    (q.rows events (some (rows.get ⟨q.limit, h⟩).time)).Perm
      ((rows.take q.limit).filter (fun e => second (rows.get ⟨q.limit, h⟩).time ≤ second e.time)
        ++ rows.drop q.limit) := by
  set t := (rows.get ⟨q.limit, h⟩).time with ht
  have hmem : rows.get ⟨q.limit, h⟩ ∈ q.rows events cursor := hperm.mem_iff.1 (List.get_mem _ _)
  rw [rows_ascending horder hin, List.mem_filter] at hmem
  have hkeep : q.rows events (some t) = (q.rows events cursor).filter fun e => second t ≤ second e.time := by
    rw [rows_ascending horder hin, rows_ascending horder hin, List.filter_filter]
    refine List.filter_congr fun e _ => ?_
    simp only [Option.mem_def, Option.some.injEq, forall_eq', ← Bool.decide_and]
    refine decide_eq_decide.2 ⟨fun hs => ⟨hs, fun t' ht' => ?_⟩, fun hs => hs.1⟩
    exact (decide_eq_true_iff.1 hmem.2 t' ht').trans hs
  have hdrop : (rows.drop q.limit).filter (fun e => second t ≤ second e.time) = rows.drop q.limit :=
    List.filter_eq_self.2 fun e he => decide_eq_true (Int.ediv_le_ediv (by decide) (le_of_mem_drop hsorted h e he))
  rw [hkeep]
  refine (hperm.symm.filter _).trans (List.Perm.of_eq ?_)
  conv_lhs => rw [← List.take_append_drop q.limit rows]
  rw [List.filter_append, hdrop]

theorem rows_after_cut (hlimit : 1 ≤ q.limit) (hperm : rows.Perm (q.rows events cursor))
    (hsorted : rows.Pairwise Ordering.ascending.le) (h : q.limit < rows.length) (hnone : (rows.take q.limit).filter
      (fun e => second (rows.get ⟨q.limit, h⟩).time ≤ second e.time) = []) :
    (rows.drop q.limit).Perm (q.rows events (some (rows.get ⟨q.limit, h⟩).time)) ∧
      CutsBetweenSeconds q.limit (sortedTimes (q.rows events cursor)) =
        CutsBetweenSeconds q.limit (sortedTimes (q.rows events (some (rows.get ⟨q.limit, h⟩).time))) := by
  have hnext := (rows_after_ascending horder hin hperm hsorted h).symm
  rw [hnone, List.nil_append] at hnext
  refine ⟨hnext, propext ?_⟩
  rw [← map_time_eq_sortedTimes hperm hsorted, ← map_time_eq_sortedTimes hnext hsorted.drop,
    cutsBetweenSeconds_cons hlimit, List.map_drop]
  exact and_iff_right ((repeated_eq_nil_iff hlimit hsorted h).1 hnone)

/-- Boundaries between seconds are enough: the pages end, and together are the rows. -/
theorem follow_ascending_of_cuts (hlimit : 1 ≤ q.limit) (hle : q.start ≤ q.end_)
    (hserves : Serves druid q.order events) (i : Nat) (cursor : Option Int) (hc : FromStore events cursor)
    (hcut : CutsBetweenSeconds q.limit (sortedTimes (q.rows events cursor))) :
    ∃ fuel ids, follow druid q fuel i (cursor.map encodeCursor) = some (.ok ids) ∧
      ids.Perm ((q.rows events cursor).map (·.actionId)) := by
  -- every page takes at least one row off the rows that are left
  induction hn : (q.rows events cursor).length using Nat.strong_induction_on generalizing i cursor with
  | h n ih =>
    obtain ⟨rows, hperm, hsorted, hfollow⟩ := follow_succ hserves i cursor (bounds_le_ascending horder hin hle hc)
    have hlen := hperm.length_eq
    by_cases h : q.limit < rows.length
    · rw [horder] at hsorted
      have hfirst := hcut
      rw [← map_time_eq_sortedTimes hperm hsorted, cutsBetweenSeconds_cons hlimit] at hfirst
      obtain ⟨hnext, hcut'⟩ := rows_after_cut horder hin hlimit hperm hsorted h
        ((repeated_eq_nil_iff hlimit hsorted h).2 hfirst.1)
      have hlen' := hnext.length_eq
      rw [List.length_drop] at hlen'
      obtain ⟨fuel, ids, hids, hids'⟩ := ih _ (by omega) (i + 1) _ (FromStore.row hperm h) (hcut' ▸ hcut) rfl
      refine ⟨fuel + 1, (rows.take q.limit).map (·.actionId) ++ ids, ?_, ?_⟩
      · rw [hfollow, dif_pos h, hids]
        rfl
      · refine (hids'.append_left _).trans ?_
        refine ((hnext.symm.map _).append_left _).trans ?_
        rw [← List.map_append, List.take_append_drop]
        exact hperm.map _
    · have hf := hfollow 0
      rw [dif_neg h] at hf
      exact ⟨1, _, hf, hperm.map _⟩

/-- And they are needed: pages that end give every row at least once, and each
only once if all boundaries lie between seconds. -/
theorem follow_ascending_length (hlimit : 1 ≤ q.limit) (hle : q.start ≤ q.end_)
    (hserves : Serves druid q.order events) {fuel i : Nat} {ids} (hc : FromStore events cursor)
    (hfollow : follow druid q fuel i (cursor.map encodeCursor) = some (.ok ids)) :
    (q.rows events cursor).length ≤ ids.length ∧
      (ids.length = (q.rows events cursor).length →
        CutsBetweenSeconds q.limit (sortedTimes (q.rows events cursor))) := by
  induction fuel generalizing i cursor ids with
  | zero => cases hfollow
  | succ fuel ih =>
    obtain ⟨rows, hperm, hsorted, hstep⟩ := follow_succ hserves i cursor (bounds_le_ascending horder hin hle hc)
    rw [horder] at hsorted
    have hlen := hperm.length_eq
    rw [hstep] at hfollow
    by_cases h : q.limit < rows.length
    · rw [dif_pos h] at hfollow
      obtain ⟨r, hr, hmap⟩ := Option.map_eq_some_iff.1 hfollow
      cases r with
      | error e => cases hmap
      | ok rest =>
        cases hmap
        obtain ⟨hge, hcut⟩ := ih (FromStore.row hperm h) hr
        have hnext := (rows_after_ascending horder hin hperm hsorted h).length_eq
        simp only [List.length_append, List.length_drop, List.length_map, List.length_take] at hnext ⊢
        refine ⟨by omega, fun heq => ?_⟩
        have hnone := List.length_eq_zero_iff.1 (by omega : ((rows.take q.limit).filter
          (fun e => second (rows.get ⟨q.limit, h⟩).time ≤ second e.time)).length = 0)
        rw [(rows_after_cut horder hin hlimit hperm hsorted h hnone).2]
        exact hcut (by omega)
    · rw [dif_neg h] at hfollow
      cases hfollow
      refine ⟨by simp [hlen], fun _ => cutsBetweenSeconds_short ?_⟩
      rw [← map_time_eq_sortedTimes hperm hsorted, List.length_map]
      omega

end Ascending

section Descending

variable {druid : Nat → Druid} {q : PaginatedScanDruidQuery} {events : List Event}

theorem ge_of_mem_take {rows : List Event} (hsorted : rows.Pairwise Ordering.descending.le) {n}
    (h : n < rows.length) : ∀ e ∈ rows.take (n + 1), (rows.get ⟨n, h⟩).time ≤ e.time := by
  intro e he
  obtain ⟨j, hj, rfl⟩ := List.mem_take_iff_getElem.1 he
  rcases Nat.lt_or_ge j n with hlt | hge
  · exact List.pairwise_iff_getElem.1 hsorted j n (by omega) h hlt
  · have : j = n := by omega
    subst this
    exact le_rfl

theorem rows_after_descending (horder : q.order = .descending) {rows : List Event}
    (hperm : rows.Perm (q.rows events cursor)) (hsorted : rows.Pairwise Ordering.descending.le)
    (h : q.limit < rows.length) :
    (q.rows events (some (rows.get ⟨q.limit, h⟩).time)).length + (q.limit + 1) ≤ rows.length := by
  set e₀ := rows.get ⟨q.limit, h⟩ with he₀
  have hmem : e₀ ∈ q.rows events cursor := hperm.mem_iff.1 (List.get_mem _ _)
  have hend : paginationDatetime e₀.time ≤ (q.bounds cursor).2 := by
    have := (of_decide_eq_true (List.mem_filter.1 hmem).2).2
    exact (paginationDatetime_le_instant e₀).trans this.le
  have hstart : (q.bounds cursor).1 = q.start := by
    cases cursor <;> simp [PaginatedScanDruidQuery.bounds, horder]
  have hnext : q.bounds (some e₀.time) = (q.start, paginationDatetime e₀.time) := by
    simp [PaginatedScanDruidQuery.bounds, horder]
  have hkeep : q.rows events (some e₀.time)
      = (q.rows events cursor).filter fun e => e.instant < paginationDatetime e₀.time := by
    simp only [PaginatedScanDruidQuery.rows, within, List.filter_filter, hstart, hnext]
    refine List.filter_congr fun e _ => ?_
    simp only [← Bool.decide_and]
    refine decide_eq_decide.2 ⟨fun hs => ⟨hs.2, hs.1, hs.2.trans_le hend⟩, fun hs => ⟨hs.2.1, hs.1⟩⟩
  have hgone : (rows.take (q.limit + 1)).filter (fun e => e.instant < paginationDatetime e₀.time) = [] := by
    refine List.filter_eq_nil_iff.2 fun e he => ?_
    have hle : second e₀.time ≤ second e.time := Int.ediv_le_ediv (by decide) (ge_of_mem_take hsorted h e he)
    simpa using paginationDatetime_le.2 hle
  have hlen : (q.rows events (some e₀.time)).length
      = ((rows.drop (q.limit + 1)).filter fun e => e.instant < paginationDatetime e₀.time).length := by
    rw [hkeep, ← (hperm.filter _).length_eq]
    conv_lhs => rw [← List.take_append_drop (q.limit + 1) rows]
    rw [List.filter_append, hgone, List.nil_append]
  have hdrop := List.length_filter_le (fun e => decide (e.instant < paginationDatetime e₀.time))
    (rows.drop (q.limit + 1))
  rw [List.length_drop] at hdrop
  omega

/-- Pages that end never give more rows than there are, and fewer as soon as there is a second page. -/
theorem follow_descending_length (horder : q.order = .descending) (hserves : Serves druid q.order events)
    {fuel i} (cursor : Option Int) {ids}
    (hfollow : follow druid q fuel i (cursor.map encodeCursor) = some (.ok ids)) :
    ids.length ≤ (q.rows events cursor).length ∧
      (q.limit < (q.rows events cursor).length → ids.length < (q.rows events cursor).length) := by
  induction fuel generalizing i cursor ids with
  | zero => cases hfollow
  | succ fuel ih =>
    have hle : (q.bounds cursor).1 ≤ (q.bounds cursor).2 := by
      by_contra hlt
      obtain ⟨e, he⟩ := execute_reversed (druid i) (not_le.1 hlt)
      simp [follow, he] at hfollow
    obtain ⟨rows, hperm, hsorted, hstep⟩ := follow_succ hserves i cursor hle
    rw [horder] at hsorted
    have hlen := hperm.length_eq
    rw [hstep] at hfollow
    by_cases h : q.limit < rows.length
    · rw [dif_pos h] at hfollow
      obtain ⟨r, hr, hmap⟩ := Option.map_eq_some_iff.1 hfollow
      cases r with
      | error e => cases hmap
      | ok rest =>
        cases hmap
        have hrest := (ih _ hr).1
        have hnext := rows_after_descending horder hperm hsorted h
        simp only [List.length_append, List.length_map, List.length_take]
        omega
    · rw [dif_neg h] at hfollow
      cases hfollow
      simp only [List.length_map]
      omega

end Descending

/-! ## Following the cursor -/

theorem rows_none (hin : ∀ e ∈ events, q.start ≤ e.instant ∧ e.instant < q.end_) : q.rows events none = events :=
  List.filter_eq_self.2 fun e he => decide_eq_true (hin e he)

/-- When the pages visit every event once. -/
def PageByPage (q : PaginatedScanDruidQuery) (events : List Event) : Prop :=
  match q.order with
  | .ascending => CutsBetweenSeconds q.limit (sortedTimes events)
  | .descending => events.length ≤ q.limit

/-- **Following the cursor visits every event once exactly when** the order is
ascending and no page boundary falls inside a second, or the order is
descending and there is only one page. This holds for every store that
answers a scan with the first rows of its interval, whatever order it gives
the rows of one timestamp in. -/
theorem visitsEachOnce_iff {druid : Nat → Druid} {q : PaginatedScanDruidQuery} {events : List Event}
    (hlimit : 1 ≤ q.limit) (hle : q.start ≤ q.end_)
    (hin : ∀ e ∈ events, q.start ≤ e.instant ∧ e.instant < q.end_) (hserves : Serves druid q.order events) :
    VisitsEachOnce druid q events ↔ PageByPage q events := by
  have hrows := rows_none hin
  have hnone : FromStore events none := fun _ h => nomatch h
  unfold PageByPage
  cases horder : q.order with
  | ascending =>
    constructor
    · rintro ⟨fuel, ids, hfollow, hperm⟩
      have hlen := hperm.length_eq
      rw [List.length_map] at hlen
      have := (follow_ascending_length horder hin hlimit hle hserves hnone hfollow).2 (by rw [hrows, hlen])
      rwa [hrows] at this
    · intro hcut
      have := follow_ascending_of_cuts horder hin hlimit hle hserves 0 none hnone (by rwa [hrows])
      rwa [hrows] at this
  | descending =>
    constructor
    · rintro ⟨fuel, ids, hfollow, hperm⟩
      have hlen := hperm.length_eq
      rw [List.length_map] at hlen
      have := (follow_descending_length horder hserves none hfollow).2
      rw [hrows] at this
      by_contra hlt
      exact absurd (this (not_le.1 hlt)) (by omega)
    · intro hone
      obtain ⟨rows, hperm, -, hstep⟩ := follow_succ hserves 0 none hle
      rw [hrows] at hperm
      have hlen := hperm.length_eq
      have hf := hstep 0
      rw [dif_neg (by omega)] at hf
      exact ⟨1, _, hf, hperm.map _⟩

/-- Three events in different seconds, read in ascending order by pages of two. -/
theorem visitsEachOnce_three_seconds :
    let events : List Event := [⟨1, 1000⟩, ⟨2, 2500⟩, ⟨3, 3500⟩]
    let q : PaginatedScanDruidQuery := { start := 0, end_ := seconds 10, limit := 2, order := .ascending }
    VisitsEachOnce (fun _ => sortedStore .ascending events) q events := by
  intro events q
  refine (visitsEachOnce_iff (by decide) (by decide) (by decide) (sortedStore_serves .ascending events)).2 ?_
  change CutsBetweenSeconds 2 (sortedTimes events)
  rw [cutsBetweenSeconds_cons (by decide)]
  refine ⟨?_, cutsBetweenSeconds_short (by decide)⟩
  rintro _ _ ⟨⟩ ⟨⟩
  decide

/-- In descending order the event after the first page is lost; in ascending
order an event in the second of the cursor comes twice. -/
theorem follow_loses_and_repeats :
    let events : List Event := [⟨1, 1000⟩, ⟨2, 2000⟩, ⟨3, 2500⟩]
    let q (order : Ordering) : PaginatedScanDruidQuery := { start := 0, end_ := seconds 10, limit := 2, order }
    follow (fun _ => sortedStore .descending events) (q .descending) 3 0 none = some (.ok [3, 2]) ∧
      follow (fun _ => sortedStore .ascending events) (q .ascending) 3 0 none = some (.ok [1, 2, 2, 3]) := by
  decide

end Osprey.Pagination
