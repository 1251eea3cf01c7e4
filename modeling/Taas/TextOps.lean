import Mathlib.Data.List.DropRight
import Mathlib.Data.List.Infix

/-!
Operations on texts, as lists: stripping both ends, splitting at blanks, and replacing a pair of
elements by one.
-/
namespace Taas.TextOps

variable {α : Type*} {p : α → Bool} {l r s m : List α}

/-- The list without the elements at its ends that satisfy `p`. -/
def strip (p : α → Bool) (s : List α) : List α := (s.dropWhile p).rdropWhile p

theorem rdropWhile_append (hr : ∀ c ∈ r, p c = true) :
    (s ++ r).rdropWhile p = s.rdropWhile p := by
  have hrev : ∀ c ∈ r.reverse, p c = true := by simpa using hr
  simp only [List.rdropWhile, List.reverse_append, List.dropWhile_append_of_pos hrev]

/-- What stands around a list and satisfies `p` is stripped off. -/
theorem strip_append (hl : ∀ c ∈ l, p c = true) (hr : ∀ c ∈ r, p c = true) :
    strip p (l ++ s ++ r) = strip p s := by
  have hnil : r.dropWhile p = [] := List.dropWhile_eq_nil_iff.mpr hr
  simp only [strip, List.append_assoc, List.dropWhile_append_of_pos hl, List.dropWhile_append, hnil]
  split
  · rename_i hs
    simp [List.isEmpty_iff.mp hs]
  · exact rdropWhile_append hr

theorem exists_strip (p : α → Bool) (s : List α) :
    ∃ l r, (∀ c ∈ l, p c = true) ∧ (∀ c ∈ r, p c = true) ∧ s = l ++ strip p s ++ r := by
  refine ⟨s.takeWhile p, (s.dropWhile p).rtakeWhile p, ?_, ?_, ?_⟩
  · intro c hc
    exact List.mem_takeWhile_imp hc
  · intro c hc
    exact List.mem_rtakeWhile_imp hc
  · rw [List.append_assoc, strip, List.rdropWhile_append_rtakeWhile,
      List.takeWhile_append_dropWhile]

@[simp] theorem strip_strip (p : α → Bool) (s : List α) : strip p (strip p s) = strip p s := by
  obtain ⟨l, r, hl, hr, hs⟩ := exists_strip p s
  have h := strip_append (s := strip p s) hl hr
  rw [← hs] at h
  exact h.symm

theorem dropWhile_append_of_head (hne : m ≠ []) (hhead : p (m.head hne) = false) :
    (s ++ m).dropWhile p = s.dropWhile p ++ m := by
  have hkeep : m.dropWhile p = m := by
    cases m with
    | nil => exact absurd rfl hne
    | cons c m => simpa using hhead
  rw [List.dropWhile_append, hkeep]
  split
  · rename_i hs
    simp [List.isEmpty_iff.mp hs]
  · rfl

theorem rdropWhile_append_of_last (hne : m ≠ []) (hlast : p (m.getLast hne) = false) :
    (m ++ s).rdropWhile p = m ++ s.rdropWhile p := by
  have hne' : m.reverse ≠ [] := by simpa using hne
  have hhead : p (m.reverse.head hne') = false := by simpa using hlast
  simp [List.rdropWhile, dropWhile_append_of_head hne' hhead]

/-- A part that neither begins nor ends with an element to strip off stays. -/
theorem infix_strip (hm : m <:+: s) (hne : m ≠ []) (hhead : p (m.head hne) = false)
    (hlast : p (m.getLast hne) = false) : m <:+: strip p s := by
  obtain ⟨a, b, rfl⟩ := hm
  have hne' : m ++ b ≠ [] := by simp [hne]
  have hhead' : p ((m ++ b).head hne') = false := by simpa [List.head_append, hne] using hhead
  refine ⟨a.dropWhile p, b.rdropWhile p, ?_⟩
  have hne'' : a.dropWhile p ++ m ≠ [] := by simp [hne]
  have hlast' : p ((a.dropWhile p ++ m).getLast hne'') = false := by
    simpa [List.getLast_append_of_ne_nil, hne] using hlast
  rw [strip, List.append_assoc a, dropWhile_append_of_head hne' hhead', ← List.append_assoc,
    rdropWhile_append_of_last hne'' hlast']

/-- A stripped list with a last element ends in one that does not satisfy `p`. -/
theorem strip_last (hs : strip p s ≠ []) :
    ∃ init c, strip p s = init ++ [c] ∧ p c = false := by
  refine ⟨(strip p s).dropLast, (strip p s).getLast hs, ?_, ?_⟩
  · exact (List.dropLast_append_getLast hs).symm
  · exact eq_false_of_ne_true (List.rdropWhile_last_not p (s.dropWhile p) hs)

/-- The runs of elements that do not satisfy `p`. -/
def split (p : α → Bool) (s : List α) : List (List α) := (s.splitOnP p).filter (!·.isEmpty)

theorem flatten_filter_nonempty (ls : List (List α)) :
    (ls.filter (!·.isEmpty)).flatten = ls.flatten := by
  induction ls with
  | nil => rfl
  | cons l ls ih => cases l <;> simp [ih]

theorem flatten_split (p : α → Bool) (s : List α) :
    (split p s).flatten = s.filter (!p ·) := by
  rw [split, flatten_filter_nonempty]
  induction s with
  | nil => rfl
  | cons c s ih =>
    rw [List.splitOnP_cons_eq_if_modifyHead]
    cases hs : s.splitOnP p with
    | nil => exact absurd hs (List.splitOnP_ne_nil p s)
    | cons l ls =>
      rw [hs] at ih
      cases hc : p c <;> simp [hc, ← ih]

theorem split_append_cons {c : α} (hc : p c = true) (s m : List α) :
    split p (s ++ c :: m) = split p s ++ split p m := by
  simp only [split, List.splitOnP_append_cons s m hc, List.filter_append]

theorem split_nil (p : α → Bool) : split p [] = [] := rfl

theorem split_append_left (hl : ∀ c ∈ l, p c = true) : split p (l ++ s) = split p s := by
  induction l with
  | nil => rfl
  | cons c l ih =>
    have hcons := split_append_cons (hl c (by simp)) [] (l ++ s)
    rw [split_nil, List.nil_append, List.nil_append] at hcons
    rw [List.cons_append, hcons]
    exact ih fun c hc => hl c (List.mem_cons_of_mem _ hc)

/-- What stands at the ends and is split at may be stripped off before. -/
theorem split_strip (p : α → Bool) (s : List α) : split p (strip p s) = split p s := by
  obtain ⟨l, r, hl, hr, hs⟩ := exists_strip p s
  have hright : split p (strip p s ++ r) = split p (strip p s) := by
    cases r with
    | nil => rw [List.append_nil]
    | cons c r =>
      have hrest := split_append_left (s := []) fun c hc => hr c (List.mem_cons_of_mem _ hc)
      rw [List.append_nil, split_nil] at hrest
      rw [split_append_cons (hr c (by simp)), hrest, List.append_nil]
  conv_rhs => rw [hs, List.append_assoc, split_append_left hl, hright]

theorem not_mem_of_mem_splitOn [BEq α] [LawfulBEq α] {x : α} (h : m ∈ s.splitOn x) : x ∉ m := by
  induction s generalizing m with
  | nil =>
    obtain rfl : m = [] := by simpa using h
    exact List.not_mem_nil
  | cons y s ih =>
    rw [List.splitOn_cons_eq_if_modifyHead] at h
    split at h
    · rcases List.mem_cons.mp h with rfl | h
      · exact List.not_mem_nil
      · exact ih h
    · rename_i hy
      cases hs : s.splitOn x with
      | nil => exact absurd hs (List.splitOn_ne_nil _ _)
      | cons first rest =>
        rw [hs] at h ih
        rcases List.mem_cons.mp h with rfl | h
        · simp only [List.mem_cons, not_or]
          exact ⟨fun heq => hy (by simp [heq]), ih (by simp)⟩
        · exact ih (by simp [h])

variable [DecidableEq α] {a b c : α}

/-- Every `a` that a `b` follows becomes, with it, a `c`, from left to right. -/
def replacePair (a b c : α) : List α → List α
  | [] => []
  | [x] => [x]
  | x :: y :: s =>
    if x = a ∧ y = b then c :: replacePair a b c s else x :: replacePair a b c (y :: s)

/-- Every `c` becomes an `a` and a `b`. -/
def expand (a b c : α) (s : List α) : List α := s.flatMap fun x => if x = c then [a, b] else [x]

theorem replacePair_pair (s : List α) :
    replacePair a b c (a :: b :: s) = c :: replacePair a b c s := by
  simp [replacePair]

theorem replacePair_cons {x : α} (h : x ≠ a ∨ s.head? ≠ some b) :
    replacePair a b c (x :: s) = x :: replacePair a b c s := by
  cases s with
  | nil => rfl
  | cons y s =>
    have hxy : ¬(x = a ∧ y = b) := by
      intro heq
      simp [heq.1, heq.2] at h
    simp only [replacePair, if_neg hxy]

theorem replacePair_append (h : s.getLast? ≠ some a ∨ m.head? ≠ some b) :
    replacePair a b c (s ++ m) = replacePair a b c s ++ replacePair a b c m := by
  fun_induction replacePair a b c s with
  | case1 => rfl
  | case2 x =>
    simp only [List.getLast?_singleton, ne_eq, Option.some.injEq] at h
    rw [List.singleton_append, replacePair_cons h]
    rfl
  | case3 x y s hxy ih =>
    obtain ⟨rfl, rfl⟩ := hxy
    have hs : s.getLast? ≠ some x ∨ m.head? ≠ some y :=
      h.imp_left fun hlast hx => hlast (by simp [List.getLast?_cons, hx])
    simp only [List.cons_append, replacePair_pair, ih hs]
  | case4 x y s hxy ih =>
    have hs : (y :: s).getLast? ≠ some a ∨ m.head? ≠ some b :=
      h.imp_left fun hlast hx => hlast (by simpa [List.getLast?_cons] using hx)
    have hnext : x ≠ a ∨ (y :: s).head? ≠ some b := by
      by_cases hx : x = a
      · exact .inr (by simpa using fun hy => hxy ⟨hx, hy⟩)
      · exact .inl hx
    have hnext' : x ≠ a ∨ (y :: s ++ m).head? ≠ some b := by simpa using hnext
    rw [List.cons_append, replacePair_cons hnext', ih hs]
    rfl

theorem replacePair_of_not_mem (h : a ∉ s) : replacePair a b c s = s := by
  induction s with
  | nil => rfl
  | cons x s ih =>
    have hx : x ≠ a := fun hx => h (by simp [hx])
    rw [replacePair_cons (.inl hx), ih fun hs => h (List.mem_cons_of_mem x hs)]

/-- A part without an `a` whose first element is no `b` stays. -/
theorem infix_replacePair (hm : m <:+: s) (ha : a ∉ m) (hb : m.head? ≠ some b) :
    m <:+: replacePair a b c s := by
  cases m with
  | nil => exact List.nil_infix
  | cons x m =>
    obtain ⟨l, r, rfl⟩ := hm
    have hlast : (x :: m).getLast? ≠ some a := fun hx => ha (List.mem_of_getLast? hx)
    refine ⟨replacePair a b c l, replacePair a b c r, ?_⟩
    rw [List.append_assoc l, replacePair_append (.inr (by simpa using hb)),
      replacePair_append (.inl hlast), replacePair_of_not_mem ha, List.append_assoc]

omit [DecidableEq α] in
theorem pair_infix_cons {x : α} :
    [a, b] <:+: x :: s ↔ (a = x ∧ s.head? = some b) ∨ [a, b] <:+: s := by
  have hsingle : [b] <+: s ↔ s.head? = some b := by
    cases s with
    | nil => simp
    | cons y s => simp [List.cons_prefix_cons, eq_comm (a := b)]
  rw [List.infix_cons_iff, List.cons_prefix_cons, hsingle]

/-- No pair is left, and none comes about. -/
theorem not_infix_replacePair (hca : c ≠ a) (hcb : c ≠ b) (s : List α) :
    ¬[a, b] <:+: replacePair a b c s := by
  have hhead (s : List α) (h : (replacePair a b c s).head? = some b) : s.head? = some b := by
    fun_cases replacePair a b c s with
    | case1 => exact h
    | case2 x => exact h
    | case3 x y s hxy =>
      obtain ⟨rfl, rfl⟩ := hxy
      rw [replacePair_pair] at h
      exact absurd (Option.some.inj h) hcb
    | case4 x y s hxy =>
      simpa [replacePair, hxy] using h
  fun_induction replacePair a b c s with
  | case1 => simp
  | case2 x => simp [pair_infix_cons]
  | case3 x y s hxy ih =>
    rw [pair_infix_cons]
    intro h
    cases h with
    | inl h => exact hca h.1.symm
    | inr h => exact ih h
  | case4 x y s hxy ih =>
    rw [pair_infix_cons]
    intro h
    cases h with
    | inl h =>
      have hy : y = b := by simpa using hhead _ h.2
      exact hxy ⟨h.1.symm, hy⟩
    | inr h => exact ih h

theorem replacePair_of_no_pair (h : ¬[a, b] <:+: s) : replacePair a b c s = s := by
  fun_induction replacePair a b c s with
  | case1 => rfl
  | case2 x => rfl
  | case3 x y s hxy ih =>
    obtain ⟨rfl, rfl⟩ := hxy
    exact absurd ⟨[], s, rfl⟩ h
  | case4 x y s hxy ih => rw [ih fun hs => h (hs.trans (List.suffix_cons x _).isInfix)]

theorem expand_append : expand a b c (s ++ m) = expand a b c s ++ expand a b c m := by
  simp [expand]

theorem expand_of_not_mem (h : c ∉ s) : expand a b c s = s := by
  induction s with
  | nil => rfl
  | cons x s ih =>
    have hx : x ≠ c := fun hx => h (by simp [hx])
    have hs := ih fun hs => h (List.mem_cons_of_mem x hs)
    rw [expand, List.flatMap_cons, if_neg hx]
    exact congrArg (x :: ·) hs

theorem expand_cons_ne {x : α} (h : x ≠ c) : expand a b c (x :: s) = x :: expand a b c s := by
  simp [expand, h]

theorem expand_cons_self : expand a b c (c :: s) = a :: b :: expand a b c s := by
  simp [expand]

/-- Expanding and replacing gives what replacing alone gives. -/
theorem replacePair_expand (hab : a ≠ b) (hca : c ≠ a) (hcb : c ≠ b) (s : List α) :
    replacePair a b c (expand a b c s) = replacePair a b c s := by
  have hhead (s : List α) (h : s.head? ≠ some b) : (expand a b c s).head? ≠ some b := by
    cases s with
    | nil => exact h
    | cons x s =>
      by_cases hx : x = c
      · subst hx
        simpa [expand_cons_self] using hab
      · simpa [expand_cons_ne hx] using h
  have hcons (x : α) (s : List α) (hnext : x ≠ a ∨ s.head? ≠ some b)
      (ih : replacePair a b c (expand a b c s) = replacePair a b c s) :
      replacePair a b c (expand a b c (x :: s)) = x :: replacePair a b c s := by
    by_cases hx : x = c
    · subst hx
      rw [expand_cons_self, replacePair_pair, ih]
    · rw [expand_cons_ne hx, replacePair_cons (hnext.imp_right (hhead s)), ih]
  fun_induction replacePair a b c s with
  | case1 => rfl
  | case2 x => exact hcons x [] (.inr (by simp)) rfl
  | case3 x y s hxy ih =>
    obtain ⟨rfl, rfl⟩ := hxy
    rw [expand_cons_ne hca.symm, expand_cons_ne hcb.symm, replacePair_pair, ih]
  | case4 x y s hxy ih =>
    apply hcons x (y :: s) _ ih
    by_cases hx : x = a
    · exact .inr (by simpa using fun hy => hxy ⟨hx, hy⟩)
    · exact .inl hx

/-- Stripping before replacing makes no difference to stripping after it. -/
theorem strip_replacePair_strip (ha : p a = false) (hb : p b = false) (s : List α) :
    strip p (replacePair a b c (strip p s)) = strip p (replacePair a b c s) := by
  obtain ⟨l, r, hl, hr, hs⟩ := exists_strip p s
  have hnot (t : List α) (ht : ∀ x ∈ t, p x = true) : a ∉ t := by
    intro hmem
    have := ht a hmem
    simp [ha] at this
  have hlast : l.getLast? ≠ some a := fun h => hnot l hl (List.mem_of_getLast? h)
  have hfirst : r.head? ≠ some b := by
    intro h
    have := hr b (List.mem_of_head? h)
    simp [hb] at this
  have hreplace : replacePair a b c s = l ++ replacePair a b c (strip p s) ++ r := by
    conv_lhs => rw [hs]
    rw [List.append_assoc, replacePair_append (.inl hlast), replacePair_append (.inr hfirst),
      replacePair_of_not_mem (hnot l hl), replacePair_of_not_mem (hnot r hr), List.append_assoc]
  rw [hreplace, strip_append hl hr]

end Taas.TextOps
