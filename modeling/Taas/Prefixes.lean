import Mathlib.Data.List.Infix

/-!
Search through the prefixes of a list, shortest first. A loop that adds one item at
a time, evaluates what it holds and stops as soon as the value is accepted returns
the value of the shortest accepted prefix, or of the whole list when none is.
-/
namespace Taas.Prefixes

variable {α β ε : Type*} {P : List α → Prop} {xs ys zs : List α}

/-- `ys` is the shortest nonempty prefix of `xs` with the property `P`. -/
structure Shortest (P : List α → Prop) (xs ys : List α) : Prop where
  isPrefix : ys <+: xs
  nonempty : ys ≠ []
  holds : P ys
  least : ∀ zs, zs <+: xs → zs ≠ [] → P zs → ys.length ≤ zs.length

/-- No nonempty prefix of `xs` has the property `P`. -/
def Lacks (P : List α → Prop) (xs : List α) : Prop :=
  ∀ ys, ys <+: xs → ys ≠ [] → ¬ P ys

theorem lacks_nil : Lacks P [] := by
  intro ys hys hne
  exact absurd (List.prefix_nil.mp hys) hne

theorem lacks_concat {x : α} (h : Lacks P xs) (hx : ¬ P (xs ++ [x])) :
    Lacks P (xs ++ [x]) := by
  intro ys hys hne
  rcases List.prefix_concat_iff.mp hys with rfl | hys
  · exact hx
  · exact h ys hys hne

/-- The first extension to have the property is the shortest prefix with it. -/
theorem shortest_of_lacks {x : α} {rest : List α} (h : Lacks P xs) (hx : P (xs ++ [x])) :
    Shortest P (xs ++ x :: rest) (xs ++ [x]) := by
  refine ⟨⟨rest, by simp⟩, by simp, hx, ?_⟩
  intro zs hzs hne hz
  by_contra hlt
  have hlen : zs.length ≤ xs.length := by
    simp only [List.length_append, List.length_singleton] at hlt
    omega
  have hzxs : zs <+: xs := List.prefix_of_prefix_length_le hzs ⟨x :: rest, rfl⟩ hlen
  exact h zs hzxs hne hz

theorem Shortest.unique (hy : Shortest P xs ys) (hz : Shortest P xs zs) : ys = zs := by
  have hle := hy.least zs hz.isPrefix hz.nonempty hz.holds
  have hge := hz.least ys hy.isPrefix hy.nonempty hy.holds
  exact (List.prefix_of_prefix_length_le hy.isPrefix hz.isPrefix hle).eq_of_length_le hge

/-- Evaluate `selected` with one item of `rest` after the other added to it, up to the
first value that is accepted. -/
def grow (eval : List α → Except ε β) (accept : List α → β → Bool) :
    List α → List α → β → Except ε β
  | _, [], result => pure result
  | selected, x :: rest, _ => do
    let result ← eval (selected ++ [x])
    if accept (selected ++ [x]) result then
      pure result
    else
      grow eval accept (selected ++ [x]) rest result

variable (eval : List α → Except ε β) (accept : List α → β → Bool)

theorem grow_cons {selected rest : List α} {x : α} {result r : β}
    (hr : eval (selected ++ [x]) = .ok r) :
    grow eval accept selected (x :: rest) result =
      if accept (selected ++ [x]) r then .ok r else grow eval accept (selected ++ [x]) rest r := by
  rw [grow, hr]
  rfl

/-- The evaluation of `ys` succeeds with an accepted value. -/
def Accepted (ys : List α) : Prop := ∃ r, eval ys = .ok r ∧ accept ys r = true

/-- What a search through the prefixes of `xs` finds. -/
def Found (xs : List α) (r : β) : Prop :=
  (∃ ys, Shortest (Accepted eval accept) xs ys ∧ eval ys = .ok r) ∨
    (Lacks (Accepted eval accept) xs ∧ eval xs = .ok r)

variable {eval accept}

/-- The loop, entered with `selected` searched and none of its prefixes accepted. -/
theorem grow_found {selected rest : List α} {result : β}
    (htotal : ∀ ys, ys <+: selected ++ rest → ys ≠ [] → ∃ r, eval ys = .ok r)
    (hlacks : Lacks (Accepted eval accept) selected)
    (hresult : rest = [] → eval selected = .ok result) :
    ∃ r, grow eval accept selected rest result = .ok r ∧
      Found eval accept (selected ++ rest) r := by
  induction rest generalizing selected result with
  | nil => exact ⟨result, rfl, Or.inr ⟨by simpa using hlacks, by simpa using hresult rfl⟩⟩
  | cons x rest ih =>
    have happend : selected ++ x :: rest = (selected ++ [x]) ++ rest := by simp
    obtain ⟨r, hr⟩ := htotal (selected ++ [x]) ⟨rest, by simp⟩ (by simp)
    rw [grow_cons eval accept hr]
    cases haccept : accept (selected ++ [x]) r with
    | true =>
      have hshort : Shortest (Accepted eval accept) (selected ++ x :: rest) (selected ++ [x]) :=
        shortest_of_lacks hlacks ⟨r, hr, haccept⟩
      exact ⟨r, if_pos rfl, Or.inl ⟨selected ++ [x], hshort, hr⟩⟩
    | false =>
      have hnot : ¬ Accepted eval accept (selected ++ [x]) := by
        rintro ⟨r', hr', hacc⟩
        cases hr.symm.trans hr'
        simp [haccept] at hacc
      rw [happend] at htotal ⊢
      rw [if_neg Bool.false_ne_true]
      exact ih htotal (lacks_concat hlacks hnot) (fun _ => hr)

end Taas.Prefixes
