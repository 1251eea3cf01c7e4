import Mathlib.Algebra.Order.BigOperators.Group.List
import Mathlib.Algebra.Order.Ring.Nat
import Mathlib.Algebra.Order.Ring.Rat
import Mathlib.Data.List.Nodup
import Mathlib.Data.List.Perm.Subperm

/-!
A database table as a list of rows with distinct primary keys. `insert` is an
INSERT that fails on a used key, `updateWhere` an UPDATE ... WHERE, `deleteWhere` a
DELETE ... WHERE, and `IsSelection` says which key lists a SELECT ... WHERE ... ORDER BY
... LIMIT may return: ties of the order are broken in any way.
-/
namespace Taas.Sql

structure Table (K R : Type*) where
  rows : List (K × R)
  nodup : (rows.map Prod.fst).Nodup
  deriving DecidableEq

variable {K R : Type*} [DecidableEq K]

namespace Table

def empty : Table K R := ⟨[], List.nodup_nil⟩

def get? (t : Table K R) (k : K) : Option R := t.rows.lookup k

def insert (t : Table K R) (k : K) (r : R) : Option (Table K R) :=
  if h : k ∈ t.rows.map Prod.fst then none
  else some ⟨(k, r) :: t.rows, by simpa using ⟨by simpa using h, t.nodup⟩⟩

def updateWhere (t : Table K R) (p : K → R → Bool) (f : R → R) : Table K R where
  rows := t.rows.map fun x => (x.1, if p x.1 x.2 then f x.2 else x.2)
  nodup := by simpa [Function.comp_def] using t.nodup

def deleteWhere (t : Table K R) (p : K → R → Bool) : Table K R where
  rows := t.rows.filter fun x => !p x.1 x.2
  nodup := t.nodup.sublist (List.filter_sublist.map Prod.fst)

/-- The rows that a session has loaded after a SELECT of the keys `ks`. -/
def rowsOf (t : Table K R) (ks : List K) : List (K × R) :=
  ks.filterMap fun k => (t.get? k).map fun r => (k, r)

/-- The number of rows an UPDATE with this filter touches. -/
def countWhere (t : Table K R) (p : K → R → Bool) : ℕ :=
  t.rows.countP fun x => p x.1 x.2

/-- The sum of a measure over the rows. -/
def total (t : Table K R) (μ : K → R → ℕ) : ℕ := (t.rows.map fun x => μ x.1 x.2).sum

theorem mem_rows_iff (t : Table K R) (k : K) (r : R) :
    (k, r) ∈ t.rows ↔ t.get? k = some r := by
  unfold get?
  obtain ⟨l, hl⟩ := t
  simp only
  induction l with
  | nil => simp
  | cons x l ih =>
    obtain ⟨j, q⟩ := x
    simp only [List.map_cons, List.nodup_cons] at hl
    by_cases hk : k = j
    · subst hk
      have hnot : (k, r) ∉ l := fun hm => hl.1 (List.mem_map.mpr ⟨_, hm, rfl⟩)
      simp [hnot, eq_comm]
    · have hb : (k == j) = false := by simpa using hk
      simp [List.lookup_cons, hb, hk, ih hl.2]

theorem get?_updateWhere (t : Table K R) (p : K → R → Bool) (f : R → R) (k : K) :
    (t.updateWhere p f).get? k = (t.get? k).map fun r => if p k r then f r else r := by
  unfold get? updateWhere
  obtain ⟨l, hl⟩ := t
  simp only
  clear hl
  induction l with
  | nil => rfl
  | cons x l ih =>
    obtain ⟨j, q⟩ := x
    by_cases hk : k = j
    · subst hk
      simp
    · have hb : (k == j) = false := by simpa using hk
      simpa [List.lookup_cons, hb] using ih

theorem get?_deleteWhere (t : Table K R) (p : K → R → Bool) (k : K) :
    (t.deleteWhere p).get? k = (t.get? k).filter fun r => !p k r := by
  refine Option.ext fun r => ?_
  rw [← mem_rows_iff, Option.filter_eq_some_iff, ← mem_rows_iff]
  simp [deleteWhere]

theorem get?_empty (k : K) : (empty : Table K R).get? k = none := rfl

/-- A successful insert needs a new key and changes that key only. -/
theorem insert_eq_some {t t' : Table K R} {k : K} {r : R} (h : t.insert k r = some t') :
    t.get? k = none ∧ ∀ j, t'.get? j = if j = k then some r else t.get? j := by
  unfold insert at h
  split at h
  · cases h
  · rename_i hk
    obtain rfl := Option.some.inj h
    constructor
    · cases hg : t.get? k with
      | none => rfl
      | some q =>
        have hm := (t.mem_rows_iff k q).mpr hg
        exact absurd (List.mem_map.mpr ⟨_, hm, rfl⟩) hk
    · intro j
      by_cases hj : j = k
      · subst hj
        simp [get?]
      · have hb : (j == k) = false := by simpa using hj
        simp [get?, List.lookup_cons, hb, hj]

theorem mem_rowsOf {t : Table K R} {ks : List K} {k : K} {r : R} (hk : k ∈ ks)
    (hg : t.get? k = some r) : k ∈ (t.rowsOf ks).map Prod.fst := by
  refine List.mem_map.mpr ⟨(k, r), List.mem_filterMap.mpr ⟨k, hk, ?_⟩, rfl⟩
  rw [hg]
  rfl

/-- What a session has loaded is in the table. -/
theorem get?_of_mem_rowsOf {t : Table K R} {ks : List K} {x : K × R} (h : x ∈ t.rowsOf ks) :
    x.1 ∈ ks ∧ t.get? x.1 = some x.2 := by
  obtain ⟨k, hk, hx⟩ := List.mem_filterMap.mp h
  obtain ⟨r, hr, rfl⟩ := Option.map_eq_some_iff.mp hx
  exact ⟨hk, hr⟩

omit [DecidableEq K] in
theorem keys_updateWhere (t : Table K R) (p : K → R → Bool) (f : R → R) :
    (t.updateWhere p f).rows.map Prod.fst = t.rows.map Prod.fst := by
  simp [updateWhere, Function.comp_def]

theorem total_eq (t : Table K R) (μ : K → R → ℕ) :
    t.total μ = ((t.rows.map Prod.fst).map fun k => (t.get? k).elim 0 (μ k)).sum := by
  unfold total
  rw [List.map_map]
  congr 1
  apply List.map_congr_left
  rintro ⟨k, r⟩ hr
  have hget := (t.mem_rows_iff k r).mp hr
  simp [hget]

/-- A total goes down with the measure of one row when no other goes up. -/
theorem total_lt {t t' : Table K R} {μ ν : K → R → ℕ}
    (hkeys : t'.rows.map Prod.fst = t.rows.map Prod.fst)
    (hle : ∀ k r r', t.get? k = some r → t'.get? k = some r' → ν k r' ≤ μ k r)
    (hlt : ∃ k r r', t.get? k = some r ∧ t'.get? k = some r' ∧ ν k r' < μ k r) :
    t'.total ν < t.total μ := by
  rw [total_eq, total_eq, hkeys]
  have hmem : ∀ k ∈ t.rows.map Prod.fst, ∃ r r', t.get? k = some r ∧ t'.get? k = some r' := by
    intro k hk
    have hk' := hk
    rw [← hkeys] at hk'
    obtain ⟨⟨_, r⟩, hr, rfl⟩ := List.mem_map.mp hk
    obtain ⟨⟨j, r'⟩, hr', hj⟩ := List.mem_map.mp hk'
    obtain rfl : j = _ := hj
    exact ⟨r, r', (t.mem_rows_iff _ r).mp hr, (t'.mem_rows_iff _ r').mp hr'⟩
  apply List.sum_lt_sum
  · intro k hk
    obtain ⟨r, r', hr, hr'⟩ := hmem k hk
    rw [hr, hr']
    exact hle k r r' hr hr'
  · obtain ⟨k, r, r', hr, hr', h⟩ := hlt
    refine ⟨k, List.mem_map.mpr ⟨(k, r), (t.mem_rows_iff k r).mpr hr, rfl⟩, ?_⟩
    rw [hr, hr']
    exact h

theorem rowsOf_keys_sublist (t : Table K R) (ks : List K) :
    ((t.rowsOf ks).map Prod.fst).Sublist ks := by
  induction ks with
  | nil => exact List.Sublist.refl _
  | cons k ks ih =>
    unfold rowsOf at ih ⊢
    cases hg : t.get? k with
    | none => simpa [hg] using ih.cons k
    | some r => simpa [hg] using ih

/-- A session that selects existing rows loads one row for each key. -/
theorem rowsOf_keys {t : Table K R} {ks : List K} (h : ∀ k ∈ ks, ∃ r, t.get? k = some r) :
    (t.rowsOf ks).map Prod.fst = ks := by
  induction ks with
  | nil => rfl
  | cons k ks ih =>
    obtain ⟨r, hr⟩ := h k List.mem_cons_self
    have hrest := ih fun j hj => h j (List.mem_cons_of_mem k hj)
    unfold rowsOf at hrest ⊢
    simpa [hr] using hrest

end Table

/-- The key lists a SELECT with filter `p`, order `key` and limit `limit` may return. -/
structure IsSelection {O : Type*} [LE O] (t : Table K R) (p : R → Bool) (key : R → O)
    (limit : ℕ) (ks : List K) : Prop where
  nodup : ks.Nodup
  matching : ∀ k ∈ ks, (t.get? k).any p = true
  sorted : ks.Pairwise fun j k => ∀ q ∈ t.get? j, ∀ r ∈ t.get? k, key q ≤ key r
  bounded : ks.length ≤ limit
  full : ∀ x ∈ t.rows, p x.2 = true → x.1 ∉ ks →
    ks.length = limit ∧ ∀ j ∈ ks, ∀ q ∈ t.get? j, key q ≤ key x.2

instance {O : Type*} [LE O] [DecidableLE O] (t : Table K R) (p : R → Bool) (key : R → O)
    (limit : ℕ) (ks : List K) : Decidable (IsSelection t p key limit ks) :=
  decidable_of_iff
    (ks.Nodup ∧ (∀ k ∈ ks, (t.get? k).any p = true) ∧
      (ks.Pairwise fun j k => ∀ q ∈ t.get? j, ∀ r ∈ t.get? k, key q ≤ key r) ∧
      ks.length ≤ limit ∧
      ∀ x ∈ t.rows, p x.2 = true → x.1 ∉ ks →
        ks.length = limit ∧ ∀ j ∈ ks, ∀ q ∈ t.get? j, key q ≤ key x.2)
    ⟨fun h => ⟨h.1, h.2.1, h.2.2.1, h.2.2.2.1, h.2.2.2.2⟩,
      fun h => ⟨h.nodup, h.matching, h.sorted, h.bounded, h.full⟩⟩

namespace IsSelection

variable {O : Type*} [LE O] {t : Table K R} {p : R → Bool} {key : R → O} {limit : ℕ} {ks : List K}

theorem exists_row (h : IsSelection t p key limit ks) {k : K} (hk : k ∈ ks) :
    ∃ r, t.get? k = some r ∧ p r = true := by
  have hany := h.matching k hk
  cases hg : t.get? k with
  | none => simp [hg] at hany
  | some r => exact ⟨r, rfl, by simpa [hg] using hany⟩

/-- A limit above the number of rows returns every matching row. -/
theorem mem_of_large_limit (h : IsSelection t p key limit ks) (hlimit : t.rows.length < limit)
    {k : K} {r : R} (hg : t.get? k = some r) (hp : p r = true) : k ∈ ks := by
  by_contra hnot
  obtain ⟨hlen, -⟩ := h.full (k, r) ((t.mem_rows_iff k r).mpr hg) hp hnot
  have hsub : ks ⊆ t.rows.map Prod.fst := by
    intro j hj
    obtain ⟨q, hq, -⟩ := h.exists_row hj
    exact List.mem_map.mpr ⟨_, (t.mem_rows_iff j q).mpr hq, rfl⟩
  have hle := (List.subperm_of_subset h.nodup hsub).length_le
  rw [List.length_map] at hle
  omega

end IsSelection

/-- Every SELECT has an answer. -/
theorem exists_selection {O : Type*} [LinearOrder O] (t : Table K R) (p : R → Bool) (key : R → O)
    (limit : ℕ) : ∃ ks, IsSelection t p key limit ks := by
  let le : K × R → K × R → Bool := fun x y => key x.2 ≤ key y.2
  let l := (t.rows.filter fun x => p x.2).mergeSort le
  have hmem : ∀ x, x ∈ l ↔ x ∈ t.rows ∧ p x.2 = true := by
    intro x
    simp [l, List.mem_mergeSort, List.mem_filter]
  have hsorted : l.Pairwise fun x y => key x.2 ≤ key y.2 := by
    have htrans : ∀ x y z, le x y → le y z → le x z := by
      intro x y z hxy hyz
      simp only [le, decide_eq_true_eq] at *
      exact le_trans hxy hyz
    have htotal : ∀ x y, (le x y || le y x) = true := by
      intro x y
      simp only [le, Bool.or_eq_true, decide_eq_true_eq]
      exact le_total _ _
    simpa [le] using List.pairwise_mergeSort htrans htotal (t.rows.filter fun x => p x.2)
  have hnodup : (l.map Prod.fst).Nodup := by
    have hperm := (List.mergeSort_perm (t.rows.filter fun x => p x.2) le).map Prod.fst
    rw [hperm.nodup_iff]
    exact t.nodup.sublist (List.filter_sublist.map Prod.fst)
  have hget : ∀ x ∈ l, t.get? x.1 = some x.2 := fun x hx =>
    (t.mem_rows_iff x.1 x.2).mp ((hmem x).mp hx).1
  refine ⟨(l.take limit).map Prod.fst, ?_, ?_, ?_, ?_, ?_⟩
  · exact hnodup.sublist ((List.take_sublist limit l).map Prod.fst)
  · intro k hk
    obtain ⟨x, hx, rfl⟩ := List.mem_map.mp hk
    have hxl := List.mem_of_mem_take hx
    simp [hget x hxl, ((hmem x).mp hxl).2]
  · rw [List.pairwise_map]
    refine ((hsorted.sublist (List.take_sublist limit l)).imp_of_mem ?_)
    intro x y hx hy hxy q hq r hr
    rw [hget x (List.mem_of_mem_take hx)] at hq
    rw [hget y (List.mem_of_mem_take hy)] at hr
    cases hq
    cases hr
    exact hxy
  · rw [List.length_map]
    exact List.length_take_le _ _
  · intro x hx hpx hnot
    have hxl : x ∈ l := (hmem x).mpr ⟨hx, hpx⟩
    rw [← List.take_append_drop limit l] at hxl
    have hdrop : x ∈ l.drop limit := by
      rcases List.mem_append.mp hxl with h | h
      · exact absurd (List.mem_map_of_mem h) hnot
      · exact h
    have hlen := List.length_pos_of_mem hdrop
    rw [List.length_drop] at hlen
    refine ⟨by simp; omega, ?_⟩
    intro j hj q hq
    obtain ⟨y, hy, rfl⟩ := List.mem_map.mp hj
    rw [hget y (List.mem_of_mem_take hy)] at hq
    cases hq
    rw [← List.take_append_drop limit l, List.pairwise_append] at hsorted
    exact hsorted.2.2 y hy x hdrop

end Taas.Sql
