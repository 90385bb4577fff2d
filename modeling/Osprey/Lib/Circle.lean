/-
Points on a circle, in a list sorted by their positions: which point is the
next one above a position, what a binary search for a position gives, and
the values met going round from an index, each where it is met first.
-/
import Mathlib.Data.List.Rotate
import Mathlib.Order.Lattice

namespace Lib.Circle

/-! ## The next point -/

section Next

variable {α β : Type*} [LinearOrder α] {pos : β → α} {h i j : α} {s t : List β} {x y : β}

/-- Going up from just above `h`, and round, `i` is met no later than `j`. -/
def Met (h i j : α) : Prop := if h < j then h < i ∧ i ≤ j else h < i ∨ i ≤ j

theorem Met.antisymm (hij : Met h i j) (hji : Met h j i) : i = j := by
  unfold Met at hij hji
  split at hij
  · rw [if_pos hij.1] at hji
    exact le_antisymm hij.2 hji.2
  · rename_i hj
    rcases hij with hi | hij
    · rw [if_pos hi] at hji
      exact absurd hji.1 hj
    · rw [if_neg (fun hi => hj (hi.trans_le hij))] at hji
      exact le_antisymm hij (hji.resolve_left hj)

/-- `x` is the point of `s` met first going up from just above `h`. -/
def IsNext (pos : β → α) (h : α) (s : List β) (x : β) : Prop := x ∈ s ∧ ∀ y ∈ s, Met h (pos x) (pos y)

/-- Where no two points share a position, the next point of `t` is that of each part of `t` it belongs to. -/
theorem IsNext.eq_of_subset (ht : (t.map pos).Nodup) (hsub : s ⊆ t) (hx : IsNext pos h s x)
    (hy : IsNext pos h t y) (hys : y ∈ s) : y = x :=
  List.inj_on_of_nodup_map ht hy.1 (hsub hx.1) ((hy.2 x (hsub hx.1)).antisymm (hx.2 y hys))

theorem pos_le_of_getElem? (hs : s.Pairwise fun a b => pos a ≤ pos b) {m n : ℕ} (hmn : m ≤ n)
    (hx : s[m]? = some x) (hy : s[n]? = some y) : pos x ≤ pos y := by
  obtain ⟨hm, rfl⟩ := List.getElem?_eq_some_iff.mp hx
  obtain ⟨hn, rfl⟩ := List.getElem?_eq_some_iff.mp hy
  rcases Nat.lt_or_eq_of_le hmn with hlt | rfl
  · exact List.pairwise_iff_getElem.mp hs m n hm hn hlt
  · exact le_rfl

/-- In a sorted list cut where the positions pass `h`, the next point is the first one after the cut, or the first
of all. -/
theorem isNext_of_cut (hs : s.Pairwise fun a b => pos a ≤ pos b) {k : ℕ}
    (hcut : ∀ n y, s[n]? = some y → (h < pos y ↔ k ≤ n)) (hx : s[if s.length ≤ k then 0 else k]? = some x) :
    IsNext pos h s x := by
  refine ⟨List.mem_of_getElem? hx, fun y hy => ?_⟩
  obtain ⟨n, hn⟩ := List.getElem?_of_mem hy
  have hlen : n < s.length := (List.getElem?_eq_some_iff.mp hn).1
  split at hx
  · rename_i hk
    rw [Met, if_neg (mt (hcut n y hn).mp (by omega))]
    exact .inr (pos_le_of_getElem? hs n.zero_le hx hn)
  · have hhx : h < pos x := (hcut k x hx).mpr le_rfl
    unfold Met
    split
    · rename_i hhy
      exact ⟨hhx, pos_le_of_getElem? hs ((hcut n y hn).mp hhy) hx hn⟩
    · exact .inl hhx

end Next

/-! ## Binary search -/

/-- A binary search over sorted positions: it finds some place of the key, or the place to put it. Which one of
several equal positions it finds is its own affair. -/
structure BinarySearch where
  search : List ℕ → ℕ → Except ℕ ℕ
  found : ∀ {l : List ℕ} {key i : ℕ}, l.Pairwise (· ≤ ·) → search l key = .ok i → l[i]? = some key
  missing : ∀ {l : List ℕ} {key i : ℕ}, l.Pairwise (· ≤ ·) → search l key = .error i →
    i ≤ l.length ∧ ∀ n p, l[n]? = some p → if n < i then p < key else key < p

/-- The place of the first position that is at or above the key. -/
def lowerBound (l : List ℕ) (key : ℕ) : ℕ := l.countP (· < key)

section LowerBound

variable {l : List ℕ} {key i n p : ℕ}

theorem lowerBound_le_length (l : List ℕ) (key : ℕ) : lowerBound l key ≤ l.length := List.countP_le_length

theorem lt_iff_lt_lowerBound (hl : l.Pairwise (· ≤ ·)) (hn : l[n]? = some p) (key : ℕ) :
    p < key ↔ n < lowerBound l key := by
  induction l generalizing n with
  | nil => cases hn
  | cons a l ih =>
    have hl' := List.pairwise_cons.mp hl
    by_cases ha : a < key
    · rw [lowerBound, List.countP_cons_of_pos (by simpa using ha)]
      cases n with
      | zero =>
        obtain rfl : a = p := by simpa using hn
        simp [ha]
      | succ n => simpa [lowerBound] using ih hl'.2 (by simpa using hn)
    · have hall : ∀ b ∈ a :: l, ¬ b < key := by
        intro b hb hbk
        rcases List.mem_cons.mp hb with rfl | hb
        · exact ha hbk
        · exact ha ((hl'.1 b hb).trans_lt hbk)
      rw [lowerBound, List.countP_eq_zero.mpr (fun b hb => by simpa using hall b hb)]
      simpa using hall p (List.mem_of_getElem? hn)

theorem BinarySearch.missing_eq (B : BinarySearch) (hl : l.Pairwise (· ≤ ·)) (hi : B.search l key = .error i) :
    i = lowerBound l key := by
  obtain ⟨hlen, hcut⟩ := B.missing hl hi
  have hbound := lowerBound_le_length l key
  rcases Nat.lt_trichotomy i (lowerBound l key) with hlt | heq | hgt
  · have hget : l[i]? = some l[i] := List.getElem?_eq_getElem (by omega)
    have h := hcut i _ hget
    rw [if_neg (lt_irrefl i)] at h
    exact absurd ((lt_iff_lt_lowerBound hl hget key).mpr hlt) h.not_gt
  · exact heq
  · have hget : l[lowerBound l key]? = some l[lowerBound l key] := List.getElem?_eq_getElem (by omega)
    have h := hcut _ _ hget
    rw [if_pos hgt] at h
    exact absurd ((lt_iff_lt_lowerBound hl hget key).mp h) (lt_irrefl _)

theorem key_lt_of_missing (B : BinarySearch) (hl : l.Pairwise (· ≤ ·)) (hi : B.search l key = .error i)
    (hn : l[n]? = some p) : key < p ↔ i ≤ n := by
  have h := (B.missing hl hi).2 n p hn
  split at h <;> omega

theorem le_of_getElem? (hl : l.Pairwise (· ≤ ·)) {m q : ℕ} (hmn : m ≤ n) (hm : l[m]? = some q)
    (hn : l[n]? = some p) : q ≤ p := by
  have hsorted : l.Pairwise fun a b => id a ≤ id b := hl
  exact pos_le_of_getElem? hsorted hmn hm hn

/-- Where no two positions are equal, those above a key that is found are those after it. -/
theorem key_lt_of_found (hl : l.Pairwise (· ≤ ·)) (hnodup : l.Nodup) (hi : l[i]? = some key) (hn : l[n]? = some p) :
    key < p ↔ i + 1 ≤ n := by
  constructor
  · intro hlt
    by_contra hle
    exact absurd (le_of_getElem? hl (by omega) hn hi) hlt.not_ge
  · intro hin
    refine lt_of_le_of_ne (le_of_getElem? hl (by omega) hi hn) ?_
    rintro rfl
    obtain ⟨hi', hkey⟩ := List.getElem?_eq_some_iff.mp hi
    obtain ⟨hn', hkey'⟩ := List.getElem?_eq_some_iff.mp hn
    have : i = n := (hnodup.getElem_inj_iff).mp (hkey.trans hkey'.symm)
    omega

theorem lowerBound_le_of_found (hl : l.Pairwise (· ≤ ·)) (hn : l[n]? = some key) : lowerBound l key ≤ n :=
  Nat.le_of_not_lt (mt (lt_iff_lt_lowerBound hl hn key).mpr (lt_irrefl key))

theorem getElem?_of_lowerBound_le (hl : l.Pairwise (· ≤ ·)) (hi : l[i]? = some key) (hbound : lowerBound l key ≤ n)
    (hni : n ≤ i) : l[n]? = some key := by
  have hlen := (List.getElem?_eq_some_iff.mp hi).1
  have hget : l[n]? = some l[n] := List.getElem?_eq_getElem (by omega)
  have hle := le_of_getElem? hl hni hget hi
  have hge := mt (lt_iff_lt_lowerBound hl hget key).mp (by omega)
  rw [hget, Option.some.injEq]
  omega

end LowerBound

/-- The search that counts the positions below the key. -/
def linear : BinarySearch where
  search l key := if l[lowerBound l key]? = some key then .ok (lowerBound l key) else .error (lowerBound l key)
  found := by
    intro l key i _ h
    split at h
    · obtain rfl := Except.ok.inj h
      assumption
    · cases h
  missing := by
    intro l key i hl h
    split at h
    · cases h
    · rename_i hne
      obtain rfl := Except.error.inj h
      refine ⟨lowerBound_le_length l key, fun n p hn => ?_⟩
      have hlt := lt_iff_lt_lowerBound hl hn key
      split
      · rename_i h
        exact hlt.mpr h
      · rename_i h
        refine lt_of_le_of_ne (Nat.le_of_not_lt (mt hlt.mp h)) ?_
        rintro rfl
        exact hne (getElem?_of_lowerBound_le hl hn le_rfl (by omega))

/-- A search that finds the key of a list at the place it is told. -/
def BinarySearch.toFind (B : BinarySearch) (l : List ℕ) (key i : ℕ) (hi : l[i]? = some key) : BinarySearch where
  search l' key' := if l' = l ∧ key' = key then .ok i else B.search l' key'
  found := by
    intro l' key' i' hl h
    split at h
    · rename_i heq
      obtain ⟨rfl, rfl⟩ := heq
      exact Except.ok.inj h ▸ hi
    · exact B.found hl h
  missing := by
    intro l' key' i' hl h
    split at h
    · cases h
    · exact B.missing hl h

theorem BinarySearch.toFind_search (B : BinarySearch) {l key i} (hi : l[i]? = some key) :
    (B.toFind l key i hi).search l key = .ok i :=
  if_pos ⟨rfl, rfl⟩

/-! ## First occurrences -/

section FirstOccurrences

variable {α : Type*} [DecidableEq α] {a : α} {l : List α}

theorem eraseDups_concat (l : List α) (a : α) :
    (l ++ [a]).eraseDups = if a ∈ l then l.eraseDups else l.eraseDups ++ [a] := by
  rw [List.eraseDups_append]
  split
  · rename_i h
    simp [List.removeAll, h]
  · rename_i h
    simp [List.removeAll, h, List.eraseDups_cons]

theorem nodup_eraseDups (l : List α) : l.eraseDups.Nodup := by
  induction l using List.reverseRecOn with
  | nil => simp
  | append_singleton l a ih =>
    rw [eraseDups_concat]
    split
    · exact ih
    · rename_i h
      rw [← List.mem_eraseDups] at h
      simpa using ih.concat h

theorem head?_eraseDups (l : List α) : l.eraseDups.head? = l.head? := by
  cases l with
  | nil => rfl
  | cons a l => rw [List.eraseDups_cons, List.head?_cons, List.head?_cons]

theorem eraseDups_take_isPrefix (l : List α) (k : ℕ) : (l.take k).eraseDups <+: l.eraseDups := by
  conv_rhs => rw [← List.take_append_drop k l, List.eraseDups_append]
  exact List.prefix_append _ _

theorem length_eraseDups_of_mem_iff {l l' : List α} (h : ∀ a, a ∈ l ↔ a ∈ l') :
    l.eraseDups.length = l'.eraseDups.length :=
  ((List.perm_ext_iff_of_nodup (nodup_eraseDups l) (nodup_eraseDups l')).mpr
    (fun a => by simpa using h a)).length_eq

/-- A value met again at the next place of the circle is met first from both places in the same order. -/
theorem eraseDups_rotate_succ {i} (h : (l.rotate i).head? = (l.rotate (i + 1)).head?) :
    (l.rotate (i + 1)).eraseDups = (l.rotate i).eraseDups := by
  rw [← List.rotate_rotate] at h ⊢
  generalize l.rotate i = m at h ⊢
  match m with
  | [] => rfl
  | [a] => simp
  | a :: b :: m =>
    obtain rfl : a = b := by simpa using h
    have hmem : a ∈ a :: m := List.mem_cons_self
    calc ((a :: a :: m).rotate 1).eraseDups = ((a :: m) ++ [a]).eraseDups := rfl
      _ = (a :: m).eraseDups := by rw [eraseDups_concat, if_pos hmem]
      _ = (a :: a :: m).eraseDups := by simp [List.eraseDups_cons]

end FirstOccurrences

end Lib.Circle
