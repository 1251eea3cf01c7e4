import Mathlib.Data.List.Sort
import Mathlib.Data.List.Nodup

/-!
The orders in which rows may come back when they are sorted by a key: ties are broken in any way,
and anew each time. Pages that are cut from such orders make up the rows exactly when no tie lies
across a cut.
-/
namespace Taas.Arrangements

variable {α O : Type*} [LinearOrder O] {key : α → O} {rows l : List α} {b : ℕ} {v : O}

/-- The list has the rows in an order of their keys. -/
structure Arranged (key : α → O) (rows l : List α) : Prop where
  perm : l.Perm rows
  sorted : l.Pairwise fun x y => key x ≤ key y

/-- Rows with this key stand on both sides of a cut after `b` rows. -/
def Straddles (key : α → O) (rows : List α) (b : ℕ) (v : O) : Prop :=
  rows.countP (fun x => key x < v) < b ∧ b < rows.countP fun x => key x ≤ v

instance (key : α → O) (rows : List α) (b : ℕ) (v : O) : Decidable (Straddles key rows b v) :=
  inferInstanceAs (Decidable (_ ∧ _))

/-- The page `k` of `n` rows. -/
def page (l : List α) (n k : ℕ) : List α := (l.drop (k * n)).take n

theorem key_trans (key : α → O) (x y z : α) (hxy : decide (key x ≤ key y) = true)
    (hyz : decide (key y ≤ key z) = true) : decide (key x ≤ key z) = true := by
  simp only [decide_eq_true_eq] at *
  exact hxy.trans hyz

theorem key_total (key : α → O) (x y : α) :
    (decide (key x ≤ key y) || decide (key y ≤ key x)) = true := by
  simpa using le_total _ _

theorem exists_arranged (key : α → O) (rows : List α) : ∃ l, Arranged key rows l :=
  ⟨rows.mergeSort fun x y => key x ≤ key y, List.mergeSort_perm rows _,
    by simpa using List.pairwise_mergeSort (key_trans key) (key_total key) rows⟩

/-- In an order of the keys, the rows of a lower part of the keys come first. -/
theorem filter_append_filter {p : α → Bool} (hsorted : l.Pairwise fun x y => key x ≤ key y)
    (hp : ∀ x y, key x ≤ key y → p y = true → p x = true) :
    l = l.filter p ++ l.filter fun x => !p x := by
  induction l with
  | nil => rfl
  | cons x l ih =>
    obtain ⟨hx, hl⟩ := List.pairwise_cons.mp hsorted
    cases hpx : p x with
    | true => simpa [hpx] using ih hl
    | false =>
      have hnone : l.filter p = [] := by
        rw [List.filter_eq_nil_iff]
        intro y hy hpy
        rw [hp x y (hx y hy) hpy] at hpx
        cases hpx
      have hrest := ih hl
      rw [hnone, List.nil_append] at hrest
      simp [hpx, hnone, ← hrest]

namespace Arranged

theorem eq_append (h : Arranged key rows l) {p : α → Bool}
    (hp : ∀ x y, key x ≤ key y → p y = true → p x = true) :
    l.take (rows.countP p) = l.filter p ∧
      l.drop (rows.countP p) = l.filter fun x => !p x := by
  have hlength : rows.countP p = (l.filter p).length := by
    rw [← h.perm.countP_eq, List.countP_eq_length_filter]
  have heq := filter_append_filter h.sorted hp
  constructor
  · conv_lhs => rw [heq, hlength]
    exact List.take_left
  · conv_lhs => rw [heq, hlength]
    exact List.drop_left

theorem mem_take_le (h : Arranged key rows l) {x : α} :
    x ∈ l.take (rows.countP fun y => key y ≤ v) ↔ x ∈ rows ∧ key x ≤ v := by
  have htake := (h.eq_append (p := fun y => key y ≤ v) fun x y hxy hy => by
    simp only [decide_eq_true_eq] at *
    exact hxy.trans hy).1
  rw [htake, List.mem_filter, h.perm.mem_iff, decide_eq_true_eq]

theorem below (v : O) (x y : α) (hxy : key x ≤ key y) (hy : decide (key y < v) = true) :
    decide (key x < v) = true := by
  simp only [decide_eq_true_eq] at *
  exact hxy.trans_lt hy

theorem mem_take_lt (h : Arranged key rows l) {x : α} :
    x ∈ l.take (rows.countP fun y => key y < v) ↔ x ∈ rows ∧ key x < v := by
  rw [(h.eq_append (below v)).1, List.mem_filter, h.perm.mem_iff, decide_eq_true_eq]

theorem le_of_mem_drop (h : Arranged key rows l) {x : α}
    (hx : x ∈ l.drop (rows.countP fun y => key y < v)) : v ≤ key x := by
  rw [(h.eq_append (below v)).2, List.mem_filter] at hx
  simpa using hx.2

/-- Before a cut that no tie lies across are the rows with the lower keys. -/
theorem mem_take_iff (h : Arranged key rows l) (hb : ∀ v, ¬Straddles key rows b v) {x : α} :
    x ∈ l.take b ↔ x ∈ rows ∧ (rows.countP fun y => key y ≤ key x) ≤ b := by
  constructor
  · intro hx
    have hmem : x ∈ rows := h.perm.mem_iff.mp (List.mem_of_mem_take hx)
    have hlt : (rows.countP fun y => key y < key x) < b := by
      by_contra hle
      have htake := List.take_subset_take_left l (Nat.le_of_not_lt hle) hx
      exact lt_irrefl _ (h.mem_take_lt.mp htake).2
    exact ⟨hmem, Nat.le_of_not_lt fun hcut => hb (key x) ⟨hlt, hcut⟩⟩
  · rintro ⟨hmem, hle⟩
    exact List.take_subset_take_left l hle (h.mem_take_le.mpr ⟨hmem, le_rfl⟩)

theorem key_getElem (h : Arranged key rows l) {i : ℕ} (hi : i < l.length)
    (hlt : (rows.countP fun x => key x < v) ≤ i) (hle : i < rows.countP fun x => key x ≤ v) :
    key l[i] = v := by
  refine le_antisymm ?_ ?_
  · exact (h.mem_take_le.mp (List.mem_take_iff_getElem.mpr ⟨i, by omega, rfl⟩)).2
  · refine h.le_of_mem_drop (List.mem_drop_iff_getElem.mpr
      ⟨i - rows.countP fun x => key x < v, by omega, ?_⟩)
    congr 1
    omega

theorem exists_swap (h : Arranged key rows l) (hb : Straddles key rows b v) :
    ∃ (before after : List α) (x y : α), Arranged key rows (before ++ x :: y :: after) ∧
      Arranged key rows (before ++ y :: x :: after) ∧ before.length + 1 = b := by
  obtain ⟨hlt, hle⟩ := hb
  have hlength : b < l.length := hle.trans_le (h.perm.length_eq ▸ List.countP_le_length)
  have hx : key l[b - 1] = v := h.key_getElem (by omega) (by omega) (by omega)
  have hy : key l[b] = v := h.key_getElem hlength hlt.le hle
  have heq : l = l.take (b - 1) ++ l[b - 1] :: l[b] :: l.drop (b + 1) := by
    conv_lhs => rw [← List.take_append_drop (b - 1) l]
    rw [List.drop_eq_getElem_cons (by omega)]
    have hnext : b - 1 + 1 = b := by omega
    simp only [hnext]
    rw [List.drop_eq_getElem_cons hlength]
  generalize l[b - 1] = x at *
  generalize l[b] = y at *
  rw [heq] at h
  refine ⟨_, _, x, y, h, ⟨?_, ?_⟩, by rw [List.length_take]; omega⟩
  · exact ((List.Perm.swap x y _).append_left _).trans h.perm
  · have hkeys : (l.take (b - 1) ++ y :: x :: l.drop (b + 1)).map key =
        (l.take (b - 1) ++ x :: y :: l.drop (b + 1)).map key := by
      simp only [List.map_append, List.map_cons, hx, hy]
    have hsorted := List.pairwise_map.mpr h.sorted
    rw [← hkeys] at hsorted
    exact List.pairwise_map.mp hsorted

end Arranged

theorem mem_page_iff (hl : l.Nodup) (n k : ℕ) {x : α} :
    x ∈ page l n k ↔ x ∈ l.take ((k + 1) * n) ∧ x ∉ l.take (k * n) := by
  have hcut : (k + 1) * n = k * n + n := by rw [Nat.succ_mul]
  have hnodup : (l.take (k * n) ++ (l.drop (k * n)).take n).Nodup := by
    rw [← List.take_add]
    exact hl.sublist (List.take_sublist _ _)
  rw [hcut, List.take_add, List.mem_append, page]
  constructor
  · intro hx
    exact ⟨.inr hx, fun hbefore => (List.disjoint_of_nodup_append hnodup) hbefore hx⟩
  · rintro ⟨hx | hx, hnot⟩
    · exact absurd hx hnot
    · exact hx

theorem mem_page_of_getElem? {n k i : ℕ} {x : α} (hx : l[i]? = some x) (hle : k * n ≤ i)
    (hlt : i < k * n + n) : x ∈ page l n k := by
  refine List.mem_of_getElem? (i := i - k * n) ?_
  rw [page, List.getElem?_take_of_lt (by omega), List.getElem?_drop, Nat.add_sub_cancel' hle]
  exact hx

/-- Pages from orders that may differ have each row once exactly when no tie lies across a cut
between two pages. -/
theorem pages_partition_iff (hrows : rows.Nodup) {n : ℕ} (hn : 0 < n) :
    (∀ orders : ℕ → List α, (∀ k, Arranged key rows (orders k)) →
      ∀ x ∈ rows, ∃! k, x ∈ page (orders k) n k) ↔
      ∀ k v, ¬Straddles key rows ((k + 1) * n) v := by
  obtain ⟨l, hl⟩ := exists_arranged key rows
  have hnodup : ∀ {l'}, Arranged key rows l' → l'.Nodup := fun h => h.perm.nodup_iff.mpr hrows
  constructor
  · intro h k v hb
    obtain ⟨before, after, x, y, hx, hy, hlength⟩ := hl.exists_swap hb
    let orders : ℕ → List α := fun j =>
      if j = k then before ++ x :: y :: after else before ++ y :: x :: after
    have horders : ∀ j, Arranged key rows (orders j) := by
      intro j
      by_cases hj : j = k
      · simpa only [orders, hj, if_true] using hx
      · simpa only [orders, hj, if_false] using hy
    have hnext : (k + 1) * n = k * n + n := Nat.succ_mul k n
    have hfirst : x ∈ page (orders k) n k := by
      refine mem_page_of_getElem? (i := before.length) ?_ (by omega) (by omega)
      simp [orders]
    have hsecond : x ∈ page (orders (k + 1)) n (k + 1) := by
      refine mem_page_of_getElem? (i := before.length + 1) ?_ (by omega) (by omega)
      simp [orders]
    have hsame := (h orders horders x (hx.perm.mem_iff.mp (by simp))).unique hfirst hsecond
    omega
  · intro hcuts orders horders x hx
    have hclean : ∀ k v, ¬Straddles key rows (k * n) v := by
      rintro (_ | k) v
      · rintro ⟨hlt, -⟩
        omega
      · exact hcuts k v
    let c := rows.countP fun y => key y ≤ key x
    have hpos : 0 < c := List.countP_pos_iff.mpr ⟨x, hx, by simp⟩
    have hpage : ∀ k, x ∈ page (orders k) n k ↔ (c - 1) / n = k := by
      intro k
      rw [mem_page_iff (hnodup (horders k)), (horders k).mem_take_iff (hclean (k + 1)),
        (horders k).mem_take_iff (hclean k), Nat.div_eq_iff hn, Nat.succ_mul]
      simp only [hx, true_and, c]
      omega
    exact ⟨(c - 1) / n, (hpage _).mpr rfl, fun k hk => ((hpage k).mp hk).symm⟩

/-- The first row with a property in a stable sort has the least key of all those with the property,
and stands before the others with that key. -/
theorem find?_mergeSort (key : α → O) (p : α → Bool) (rows : List α) (x : α) :
    (rows.mergeSort fun x y => key x ≤ key y).find? p = some x ↔
      ∃ before after, rows = before ++ x :: after ∧ p x = true ∧
        (∀ y ∈ before, p y = true → key x < key y) ∧ ∀ y ∈ after, p y = true → key x ≤ key y := by
  induction rows generalizing x with
  | nil => simp
  | cons a rows ih =>
    obtain ⟨l₁, l₂, hcons, hrows, hbefore⟩ :=
      List.mergeSort_cons (key_trans key) (key_total key) a rows
    have hlt : ∀ y ∈ l₁, key y < key a := by simpa using hbefore
    have hmem : ∀ y, y ∈ rows ↔ y ∈ l₁ ∨ y ∈ l₂ := fun y => by
      rw [← List.mem_append, ← hrows, List.mem_mergeSort]
    have hsorted : ∀ y ∈ l₂, key a ≤ key y := by
      have h := List.pairwise_mergeSort (key_trans key) (key_total key) (a :: rows)
      rw [hcons] at h
      simpa using (List.pairwise_cons.mp (List.pairwise_append.mp h).2.1).1
    rw [hrows] at ih
    rw [hcons, List.find?_append]
    rw [List.find?_append] at ih
    constructor
    · intro hfind
      cases hfirst : l₁.find? p with
      | some b =>
        obtain rfl : b = x := by simpa [hfirst] using hfind
        obtain ⟨before, after, rfl, hp, hless, hle⟩ := (ih b).mp (by simp [hfirst])
        refine ⟨a :: before, after, rfl, hp, fun y hy hpy => ?_, hle⟩
        rcases List.mem_cons.mp hy with rfl | hy
        · exact hlt b (List.mem_of_find?_eq_some hfirst)
        · exact hless y hy hpy
      | none =>
        simp only [hfirst, Option.none_or] at hfind
        rcases hpa : p a with _ | _
        · obtain ⟨before, after, rfl, hp, hless, hle⟩ := (ih x).mp (by
            simpa [hfirst, hpa] using hfind)
          refine ⟨a :: before, after, rfl, hp, fun y hy hpy => ?_, hle⟩
          rcases List.mem_cons.mp hy with rfl | hy
          · rw [hpa] at hpy
            cases hpy
          · exact hless y hy hpy
        · obtain rfl : a = x := by simpa [hpa] using hfind
          refine ⟨[], rows, rfl, hpa, by simp, fun y hy hpy => ?_⟩
          rcases (hmem y).mp hy with hy | hy
          · exact absurd hpy (List.find?_eq_none.mp hfirst y hy)
          · exact hsorted y hy
    · rintro ⟨before, after, heq, hp, hless, hle⟩
      cases before with
      | nil =>
        obtain ⟨rfl, rfl⟩ : a = x ∧ rows = after := by simpa using heq
        have hfirst : l₁.find? p = none := by
          refine List.find?_eq_none.mpr fun y hy hpy => ?_
          exact absurd (hle y ((hmem y).mpr (.inl hy)) hpy) (not_le.mpr (hlt y hy))
        simp [hfirst, hp]
      | cons b before =>
        obtain ⟨rfl, rfl⟩ : a = b ∧ rows = before ++ x :: after := by simpa using heq
        have hrest := (ih x).mpr ⟨before, after, rfl, hp,
          fun y hy => hless y (List.mem_cons_of_mem _ hy), hle⟩
        cases hfirst : l₁.find? p with
        | some c => simpa [hfirst] using hrest
        | none =>
          have hx : l₂.find? p = some x := by simpa [hfirst] using hrest
          have hle' := hsorted x (List.mem_of_find?_eq_some hx)
          have hpa : p a = false := by
            by_contra hpa
            exact absurd (hless a (by simp) (by simpa using hpa)) (not_lt.mpr hle')
          simp [hpa, hx]

end Taas.Arrangements
