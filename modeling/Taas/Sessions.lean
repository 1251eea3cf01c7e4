import Taas.Sql

/-!
The objects that ORM sessions hold. A SELECT returns the object of its session, where that has one,
and not the row; an UPDATE changes the objects of its own session.
-/
namespace Taas.Sql

variable {S K R : Type*} [DecidableEq S] [DecidableEq K]

abbrev Objects (S K R : Type*) := List ((S × K) × R)

namespace Objects

def get? (o : Objects S K R) (s : S) (k : K) : Option R := o.lookup (s, k)

/-- The objects after a SELECT of these keys by the session. Those it has stay as they are. -/
def load (s : S) (ks : List K) (t : Table K R) (o : Objects S K R) : Objects S K R :=
  o ++ (t.rowsOf ks).map fun x => ((s, x.1), x.2)

def updateWhere (s : S) (p : K → R → Bool) (f : R → R) (o : Objects S K R) : Objects S K R :=
  o.map fun x => (x.1, if x.1.1 = s ∧ p x.1.2 x.2 then f x.2 else x.2)

theorem lookup_rowsOf (s s' : S) (ks : List K) (t : Table K R) (k : K) :
    ((t.rowsOf ks).map fun x => ((s, x.1), x.2)).lookup (s', k) =
      if s' = s ∧ k ∈ ks then t.get? k else none := by
  induction ks with
  | nil => simp [Table.rowsOf]
  | cons j ks ih =>
    unfold Table.rowsOf at ih ⊢
    by_cases hk : s' = s ∧ k = j
    · obtain ⟨rfl, rfl⟩ := hk
      cases hg : t.get? k with
      | none => simpa [hg] using ih
      | some r => simp [hg]
    · have hmem : s' = s ∧ k ∈ j :: ks ↔ s' = s ∧ k ∈ ks := by
        rw [List.mem_cons, and_or_left]
        exact or_iff_right hk
      have hb : ((s', k) == (s, j)) = false := by simpa using hk
      simp only [hmem]
      cases hg : t.get? j with
      | none => simpa [hg] using ih
      | some r => simpa [hg, List.lookup_cons, hb] using ih

theorem get?_load (s s' : S) (ks : List K) (t : Table K R) (o : Objects S K R) (k : K) :
    (o.load s ks t).get? s' k =
      (o.get? s' k).or (if s' = s ∧ k ∈ ks then t.get? k else none) := by
  unfold get? load
  rw [List.lookup_append, lookup_rowsOf]

theorem get?_updateWhere (s s' : S) (p : K → R → Bool) (f : R → R) (o : Objects S K R) (k : K) :
    (o.updateWhere s p f).get? s' k =
      (o.get? s' k).map fun r => if s' = s ∧ p k r then f r else r := by
  unfold get? updateWhere
  induction o with
  | nil => rfl
  | cons x o ih =>
    obtain ⟨⟨z, j⟩, q⟩ := x
    by_cases hk : (s', k) = (z, j)
    · obtain ⟨rfl, rfl⟩ := Prod.mk.inj hk
      simp
    · have hb : ((s', k) == (z, j)) = false := by simpa using hk
      simpa [List.lookup_cons, hb] using ih

variable {s s' : S} {ks : List K} {t t' : Table K R} {o : Objects S K R} {k : K} {r : R}

theorem of_get?_load (h : (o.load s ks t).get? s' k = some r) :
    o.get? s' k = some r ∨ t.get? k = some r := by
  rw [get?_load, Option.or_eq_some_iff] at h
  refine h.imp_right fun hrow => ?_
  have hsome := hrow.2
  split at hsome
  · exact hsome
  · cases hsome

theorem of_get?_updateWhere {p : K → R → Bool} {f : R → R}
    (h : (o.updateWhere s p f).get? s' k = some r) :
    ∃ q, o.get? s' k = some q ∧ (r = q ∨ r = f q) := by
  rw [get?_updateWhere] at h
  obtain ⟨q, hq, rfl⟩ := Option.map_eq_some_iff.mp h
  refine ⟨q, hq, ?_⟩
  split
  · exact Or.inr rfl
  · exact Or.inl rfl

/-- Every object has a row, with the same `f`. -/
def Agree {V : Type*} (f : R → V) (t : Table K R) (o : Objects S K R) : Prop :=
  ∀ s k r, o.get? s k = some r → ∃ row, t.get? k = some row ∧ f r = f row

section

variable {V : Type*} {f : R → V}

theorem Agree.ofRows (h : o.Agree f t)
    (hrows : ∀ k row, t.get? k = some row → ∃ row', t'.get? k = some row' ∧ f row' = f row) :
    o.Agree f t' := by
  intro s k r hr
  obtain ⟨row, hrow, heq⟩ := h s k r hr
  obtain ⟨row', hrow', hsame⟩ := hrows k row hrow
  exact ⟨row', hrow', heq.trans hsame.symm⟩

theorem Agree.load (h : o.Agree f t') (s : S) (ks : List K)
    (hrows : ∀ k row, t.get? k = some row → ∃ row', t'.get? k = some row' ∧ f row' = f row) :
    (o.load s ks t).Agree f t' := by
  intro s' k r hr
  rcases of_get?_load hr with hr | hrow
  · exact h s' k r hr
  · obtain ⟨row', hrow', hsame⟩ := hrows k r hrow
    exact ⟨row', hrow', hsame.symm⟩

theorem Agree.updateWhere (h : o.Agree f t) (s : S) (p : K → R → Bool) {g : R → R}
    (hg : ∀ r, f (g r) = f r) : (o.updateWhere s p g).Agree f t := by
  intro s' k r hr
  obtain ⟨q, hq, hcase⟩ := of_get?_updateWhere hr
  obtain ⟨row, hrow, heq⟩ := h s' k q hq
  refine ⟨row, hrow, ?_⟩
  rcases hcase with rfl | rfl
  · exact heq
  · exact (hg q).trans heq

end

end Objects

end Taas.Sql
