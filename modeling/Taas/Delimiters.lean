import Mathlib.Data.List.Infix

/-!
Two lists joined by a delimiter. The join tells where it was made when the delimiter does not occur
in the parts and does not overlap itself.
-/
namespace Taas.Delimiters

variable {α : Type*} {s t h h' e e' : List α}

/-- `s` begins and ends with its shorter part `t`. -/
structure Border (t s : List α) : Prop where
  isPrefix : t <+: s
  isSuffix : t <:+ s
  nonempty : t ≠ []
  shorter : t.length < s.length

def Unbordered (s : List α) : Prop := ∀ t, ¬ Border t s

/-- The join at the later place would leave a border or an occurrence before it. -/
theorem eq_nil_of_join {w : List α} (hs : Unbordered s) (hw : ¬ s <:+: h ++ w)
    (h' : s ++ e = w ++ (s ++ e')) : w = [] := by
  rcases List.append_eq_append_iff.mp h' with ⟨u, hu, -⟩ | ⟨t, ht, hjoin⟩
  · rw [hu] at hw
    exact absurd ⟨h, u, by simp⟩ hw
  · by_contra hne
    have hlength := congrArg List.length ht
    have hpos := List.length_pos_iff.mpr hne
    rw [List.length_append] at hlength
    by_cases hnil : t = []
    · rw [hnil, List.append_nil] at ht
      rw [← ht] at hw
      exact hw ⟨h, [], by simp⟩
    · have hshort : t <+: s := by
        have hleft : t <+: s ++ e' := ⟨e, hjoin.symm⟩
        exact List.prefix_of_prefix_length_le hleft (List.prefix_append s e') (by omega)
      exact hs t ⟨hshort, ⟨w, ht.symm⟩, hnil, by omega⟩

theorem join_inj (hs : Unbordered s) (hh : ¬ s <:+: h) (hh' : ¬ s <:+: h')
    (hjoin : h ++ s ++ e = h' ++ s ++ e') : h = h' ∧ e = e' := by
  rw [List.append_assoc, List.append_assoc] at hjoin
  rcases List.append_eq_append_iff.mp hjoin with ⟨w, rfl, hrest⟩ | ⟨w, rfl, hrest⟩
  · obtain rfl := eq_nil_of_join hs hh' hrest
    exact ⟨by simp, by simpa using hrest⟩
  · obtain rfl := eq_nil_of_join hs hh hrest
    exact ⟨by simp, by simpa using hrest.symm⟩

theorem Border.joins (h : Border t s) : ∃ u v : List α, u ≠ [] ∧ ¬ s <:+: u ∧ ¬ s <:+: v ∧
    ¬ s <:+: [] ∧ u ++ s ++ [] = [] ++ s ++ v := by
  obtain ⟨v, hv⟩ := h.isPrefix
  obtain ⟨u, hu⟩ := h.isSuffix
  have hpos := List.length_pos_iff.mpr h.nonempty
  have hshorter := h.shorter
  have hlv := congrArg List.length hv
  have hlu := congrArg List.length hu
  rw [List.length_append] at hlv hlu
  have hshort : ∀ l : List α, l.length < s.length → ¬ s <:+: l := by
    intro l hl hin
    have hle := hin.length_le
    omega
  refine ⟨u, v, ?_, hshort u (by omega), hshort v (by omega), hshort [] (by simp; omega), ?_⟩
  · rintro rfl
    rw [List.length_nil] at hlu
    omega
  · rw [List.append_nil, List.nil_append]
    calc u ++ s = u ++ (t ++ v) := by rw [hv]
      _ = s ++ v := by rw [← List.append_assoc, hu]

end Taas.Delimiters
