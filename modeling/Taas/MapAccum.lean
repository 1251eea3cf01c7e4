import Mathlib.Data.List.Forall2

/-!
Loops over a list that thread a state and may fail. The rules carry what one turn does to the
whole loop: success, agreement of two loop bodies, and an invariant of an accumulator that the
results are folded into.
-/
namespace Taas.MapAccum

variable {α β γ σ : Type}

/-- The results of the turns in order, and the last state. -/
def mapAccum (f : α → σ → Option (β × σ)) : List α → σ → Option (List β × σ)
  | [], s => some ([], s)
  | x :: l, s =>
    (f x s).bind fun r => (mapAccum f l r.2).map fun rs => (r.1 :: rs.1, rs.2)

variable {f g : α → σ → Option (β × σ)} {l : List α} {s s' : σ} {ys : List β}

theorem mapAccum_cons_eq_some {x : α} (h : mapAccum f (x :: l) s = some (ys, s')) :
    ∃ y t zs, f x s = some (y, t) ∧ mapAccum f l t = some (zs, s') ∧ ys = y :: zs := by
  simp only [mapAccum, Option.bind_eq_some_iff, Option.map_eq_some_iff, Prod.exists,
    Prod.mk.injEq] at h
  obtain ⟨y, t, hy, zs, u, hzs, rfl, rfl⟩ := h
  exact ⟨y, t, zs, hy, hzs, rfl⟩

/-- A loop succeeds when every turn succeeds and keeps what the next one needs. -/
theorem mapAccum_succeeds {I : σ → Prop}
    (h : ∀ x ∈ l, ∀ s, I s → ∃ y s', f x s = some (y, s') ∧ I s') (hs : I s) :
    ∃ ys s', mapAccum f l s = some (ys, s') ∧ I s' := by
  induction l generalizing s with
  | nil => exact ⟨[], s, rfl, hs⟩
  | cons x l ih =>
    obtain ⟨y, t, hy, ht⟩ := h x List.mem_cons_self s hs
    obtain ⟨zs, u, hzs, hu⟩ := ih (fun x' hx' => h x' (List.mem_cons_of_mem x hx')) ht
    refine ⟨y :: zs, u, ?_, hu⟩
    simp [mapAccum, hy, hzs]

theorem mapAccum_mono (h : ∀ x ∈ l, ∀ s r, f x s = some r → g x s = some r) {r : List β × σ}
    (hr : mapAccum f l s = some r) : mapAccum g l s = some r := by
  induction l generalizing s r with
  | nil => exact hr
  | cons x l ih =>
    obtain ⟨ys, s'⟩ := r
    obtain ⟨y, t, zs, hy, hzs, rfl⟩ := mapAccum_cons_eq_some hr
    have hg := h x List.mem_cons_self s _ hy
    have hrest := ih (fun x' hx' => h x' (List.mem_cons_of_mem x hx')) hzs
    simp [mapAccum, hg, hrest]

theorem mapAccum_map {k : α → σ → Option (γ × σ)} {e : γ → β}
    (h : ∀ x ∈ l, ∀ s, f x s = (k x s).map fun r => (e r.1, r.2)) :
    mapAccum f l s = (mapAccum k l s).map fun r => (r.1.map e, r.2) := by
  induction l generalizing s with
  | nil => rfl
  | cons x l ih =>
    have hx := h x List.mem_cons_self s
    have hrest := fun s => ih (s := s) fun x' hx' => h x' (List.mem_cons_of_mem x hx')
    cases hk : k x s with
    | none => simp [mapAccum, hx, hk]
    | some r =>
      simp only [mapAccum, hx, hk, Option.map_some, Option.bind_some, hrest]
      cases mapAccum k l r.2 <;> rfl

/-- What every turn keeps of the folded results and the state, the loop keeps. -/
theorem mapAccum_invariant {R : γ → σ → Prop} {add : γ → β → γ}
    (h : ∀ x ∈ l, ∀ acc s y s', R acc s → f x s = some (y, s') → R (add acc y) s') {acc : γ}
    (hacc : R acc s) (hys : mapAccum f l s = some (ys, s')) : R (ys.foldl add acc) s' := by
  induction l generalizing s acc ys with
  | nil =>
    obtain ⟨rfl, rfl⟩ : [] = ys ∧ s = s' := by simpa [mapAccum] using hys
    exact hacc
  | cons x l ih =>
    obtain ⟨y, t, zs, hy, hzs, rfl⟩ := mapAccum_cons_eq_some hys
    have hstep := h x List.mem_cons_self acc s y t hacc hy
    rw [List.foldl_cons]
    exact ih (fun x' hx' => h x' (List.mem_cons_of_mem x hx')) hstep hzs

theorem mapAccum_collects {R : List β → σ → Prop}
    (h : ∀ x ∈ l, ∀ zs s y s', R zs s → f x s = some (y, s') → R (zs ++ [y]) s') (hs : R [] s)
    (hys : mapAccum f l s = some (ys, s')) : R ys s' := by
  have hfold : ys.foldl (fun zs y => zs ++ [y]) [] = ys := by
    rw [List.foldl_append_eq_append, ← List.flatMap_def, List.flatMap_singleton', List.nil_append]
  have hinvariant := mapAccum_invariant h hs hys
  rwa [hfold] at hinvariant

/-- Every result with a state after it that the last state is above. -/
theorem mapAccum_forall₂ {le : σ → σ → Prop} (hrefl : ∀ s, le s s)
    (htrans : ∀ s t u, le s t → le t u → le s u)
    (h : ∀ x ∈ l, ∀ s y s', f x s = some (y, s') → le s s')
    (hys : mapAccum f l s = some (ys, s')) :
    le s s' ∧ List.Forall₂ (fun x y => ∃ t t', f x t = some (y, t') ∧ le t' s') l ys := by
  induction l generalizing s ys with
  | nil =>
    obtain ⟨rfl, rfl⟩ : [] = ys ∧ s = s' := by simpa [mapAccum] using hys
    exact ⟨hrefl s, List.Forall₂.nil⟩
  | cons x l ih =>
    obtain ⟨y, t, zs, hy, hzs, rfl⟩ := mapAccum_cons_eq_some hys
    obtain ⟨hle, hrest⟩ := ih (fun x' hx' => h x' (List.mem_cons_of_mem x hx')) hzs
    have hfirst := h x List.mem_cons_self s y t hy
    exact ⟨htrans _ _ _ hfirst hle, List.Forall₂.cons ⟨s, t, hy, hle⟩ hrest⟩

end Taas.MapAccum
