import Mathlib.Algebra.Order.Ring.Rat
import Mathlib.Data.Fintype.BigOperators

/-!
Labelled transition systems whose labels resolve every choice of a step. A path
carries the list of its labels, so counting, ordering and "never again" are
statements about lists. A condition may read the labels taken so far, the state
before the step and the label; `free` is the condition that asks nothing.
-/
namespace Taas.Transition

/-- `next s a = none` when the step `a` is not possible in `s`. -/
structure System (S A : Type*) where
  init : S → Prop
  next : S → A → Option S

/-- A condition on one step: the labels before it, the state before it, its label. -/
abbrev Condition (S A : Type*) := List A → S → A → Prop

def free {S A : Type*} : Condition S A := fun _ _ _ => True

variable {S A : Type*} (M : System S A)

/-- `Path M ok past s as t`: from `s`, entered after `past`, the labels `as` lead to
`t` and every step meets `ok`. -/
inductive Path (ok : Condition S A) (past : List A) (s : S) : List A → S → Prop
  | nil : Path ok past s [] s
  | snoc {t u : S} {as : List A} {a : A} :
      Path ok past s as t → ok (past ++ as) t a → M.next t a = some u →
      Path ok past s (as ++ [a]) u

/-- The paths that begin in an initial state. -/
def Trace (ok : Condition S A) (as : List A) (s : S) : Prop :=
  ∃ s₀, M.init s₀ ∧ Path M ok [] s₀ as s

variable {M} {ok : Condition S A} {past as bs : List A} {s t u : S} {a : A}

namespace Path

theorem single (hok : ok past s a) (h : M.next s a = some t) : Path M ok past s [a] t := by
  have hok' : ok (past ++ []) s a := by simpa using hok
  exact snoc nil hok' h

theorem append (hp : Path M ok past s as t) (hq : Path M ok (past ++ as) t bs u) :
    Path M ok past s (as ++ bs) u := by
  induction hq with
  | nil => simpa using hp
  | snoc _ hok hstep ih =>
    rw [← List.append_assoc]
    exact snoc ih (by simpa [List.append_assoc] using hok) hstep

/-- A path under one condition is a path under another that its labels meet. -/
theorem mono {ok' : Condition S A} (h : Path M ok past s as t)
    (hok : ∀ l x, ∀ b ∈ as, ok l x b → ok' l x b) : Path M ok' past s as t := by
  induction h with
  | nil => exact nil
  | snoc _ hstep hnext ih =>
    refine snoc (ih fun l x b hb => hok l x b (List.mem_append_left _ hb)) ?_ hnext
    exact hok _ _ _ (by simp) hstep

/-- A property that every step keeps holds at the end of a path when it holds at its start. -/
theorem preserves {P : S → Prop}
    (hstep : ∀ l x b y, P x → ok l x b → M.next x b = some y → P y)
    (h : Path M ok past s as t) (hs : P s) : P t := by
  induction h with
  | nil => exact hs
  | snoc _ hok hnext ih => exact hstep _ _ _ _ ih hok hnext

/-- From a state where every step towards the goal brings a measure down, a path leads to the
goal. -/
theorem exists_of_measure {P goal : S → Prop} (μ : S → ℕ)
    (hstep : ∀ l x, P x → ¬ goal x → ∃ b y, ok l x b ∧ M.next x b = some y ∧ P y ∧ μ y < μ x)
    (past : List A) (hs : P s) : ∃ as t, Path M ok past s as t ∧ goal t ∧ P t := by
  induction hn : μ s using Nat.strong_induction_on generalizing s past with
  | h n ih =>
    by_cases hgoal : goal s
    · exact ⟨[], s, nil, hgoal, hs⟩
    obtain ⟨b, y, hok, hnext, hy, hlt⟩ := hstep past s hs hgoal
    obtain ⟨as, t, hpath, ht, hPt⟩ := ih (μ y) (hn ▸ hlt) (past ++ [b]) hy rfl
    exact ⟨[b] ++ as, t, (single hok hnext).append hpath, ht, hPt⟩

end Path

namespace Trace

theorem extend (h : Trace M ok as s) (hp : Path M ok as s bs t) :
    Trace M ok (as ++ bs) t := by
  obtain ⟨s₀, h₀, h⟩ := h
  exact ⟨s₀, h₀, h.append (by simpa using hp)⟩

theorem snoc (h : Trace M ok as s) (hok : ok as s a) (hstep : M.next s a = some t) :
    Trace M ok (as ++ [a]) t :=
  h.extend (Path.single hok hstep)

/-- The invariant rule, for invariants that also read the labels taken so far. -/
theorem induct {I : List A → S → Prop} (hinit : ∀ s, M.init s → I [] s)
    (hstep : ∀ as s a t, Trace M ok as s → I as s → ok as s a → M.next s a = some t →
      I (as ++ [a]) t) :
    ∀ as s, Trace M ok as s → I as s := by
  rintro as s ⟨s₀, h₀, h⟩
  induction h with
  | nil => exact hinit s₀ h₀
  | snoc hp hok hnext ih =>
    exact hstep _ _ _ _ ⟨s₀, h₀, hp⟩ ih (by simpa using hok) hnext

theorem invariant {P : S → Prop} (hinit : ∀ s, M.init s → P s)
    (hstep : ∀ s a t, P s → M.next s a = some t → P t) (h : Trace M ok as s) : P s :=
  induct (I := fun _ x => P x) hinit
    (fun _ s a t _ hs _ hnext => hstep s a t hs hnext) as s h

/-- Where a step leads to the property exactly when it starts there and meets the condition, the
traces under the condition are those that end in the property. -/
theorem iff_of_step {P : S → Prop} (hinit : ∀ s, M.init s → P s)
    (hstep : ∀ as s a t, Trace M free as s → M.next s a = some t → (P t ↔ P s ∧ ok as s a)) :
    Trace M ok as s ↔ Trace M free as s ∧ P s := by
  constructor
  · refine induct (I := fun as s => Trace M free as s ∧ P s) ?_ ?_ as s
    · intro s hs
      exact ⟨⟨s, hs, .nil⟩, hinit s hs⟩
    · intro as s a t _ ih hok hnext
      exact ⟨ih.1.snoc trivial hnext, (hstep as s a t ih.1 hnext).mpr ⟨ih.2, hok⟩⟩
  · rintro ⟨h, hP⟩
    refine induct (I := fun as s => P s → Trace M ok as s) ?_ ?_ as s h hP
    · intro s hs _
      exact ⟨s, hs, .nil⟩
    · intro as s a t htrace ih _ hnext hP
      obtain ⟨hbefore, hok⟩ := (hstep as s a t htrace hnext).mp hP
      exact (ih hbefore).snoc hok hnext

end Trace

section

variable {T : Type*} {N : System T A} {R : S → T → Prop}

/-- The labels of a path are those of a path of another system which each step simulates. -/
theorem Path.simulates {x : T}
    (hstep : ∀ l s x a s', R s x → ok l s a → M.next s a = some s' →
      ∃ x', N.next x a = some x' ∧ R s' x')
    (h : Path M ok past s as t) (hs : R s x) : ∃ y, Path N free past x as y ∧ R t y := by
  induction h with
  | nil => exact ⟨x, .nil, hs⟩
  | snoc _ hok hnext ih =>
    obtain ⟨y, hy, hR⟩ := ih
    obtain ⟨z, hz, hR'⟩ := hstep _ _ _ _ _ hR hok hnext
    exact ⟨z, hy.snoc trivial hz, hR'⟩

theorem Trace.simulates (hinit : ∀ s, M.init s → ∃ x, N.init x ∧ R s x)
    (hstep : ∀ l s x a s', R s x → ok l s a → M.next s a = some s' →
      ∃ x', N.next x a = some x' ∧ R s' x')
    (h : Trace M ok as s) : ∃ x, Trace N free as x ∧ R s x := by
  obtain ⟨s₀, h₀, hp⟩ := h
  obtain ⟨x₀, hx₀, hR⟩ := hinit s₀ h₀
  obtain ⟨x, hx, hR'⟩ := hp.simulates hstep hR
  exact ⟨x, ⟨x₀, hx₀, hx⟩, hR'⟩

end

/-- The system with a list of what its steps emit, as the state before and the label say. -/
def System.recording {S A E : Type*} (M : System S A) (emit : S → A → List E) :
    System (S × List E) A where
  init x := M.init x.1 ∧ x.2 = []
  next x a := (M.next x.1 a).map fun t => (t, x.2 ++ emit x.1 a)

/-- A condition that does not look at the record. -/
def Condition.ignoring {S A : Type*} (ok : Condition S A) (E : Type*) : Condition (S × List E) A :=
  fun past x a => ok past x.1 a

instance {E : Type*} [h : ∀ l x b, Decidable (ok l x b)] (l : List A) (x : S × List E) (b : A) :
    Decidable (Condition.ignoring ok E l x b) :=
  h l x.1 b

theorem recording_next {E : Type*} {emit : S → A → List E} {x y : S × List E}
    (h : (M.recording emit).next x a = some y) :
    M.next x.1 a = some y.1 ∧ y.2 = x.2 ++ emit x.1 a := by
  obtain ⟨t, ht, rfl⟩ := Option.map_eq_some_iff.mp h
  exact ⟨ht, rfl⟩

instance {l : List A} : Decidable (free l s a) := isTrue trivial

/-- Take the labels one after the other, checking the condition at each step. -/
def replay (M : System S A) (ok : Condition S A) [∀ l x b, Decidable (ok l x b)] :
    List A → List A → S → Option S
  | _, [], s => some s
  | past, a :: as, s =>
    if ok past s a then (M.next s a).bind (replay M ok (past ++ [a]) as) else none

theorem replay_path [∀ l x b, Decidable (ok l x b)]
    (h : replay M ok past as s = some t) : Path M ok past s as t := by
  induction as generalizing s past with
  | nil =>
    obtain rfl : s = t := by simpa [replay] using h
    exact Path.nil
  | cons a as ih =>
    simp only [replay, Option.ite_none_right_eq_some] at h
    obtain ⟨hok, h⟩ := h
    obtain ⟨u, hstep, hrest⟩ := Option.bind_eq_some_iff.mp h
    exact (Path.single hok hstep).append (ih hrest)

theorem trace_of_replay [∀ l x b, Decidable (ok l x b)] (hs : M.init s)
    (h : replay M ok [] as s = some t) : Trace M ok as t :=
  ⟨s, hs, replay_path h⟩

/-- Replacing one party's state moves the total by the change of its measure. -/
theorem sum_update {ι α : Type*} [Fintype ι] [DecidableEq ι] (f : ι → α) (i : ι) (b : α)
    (μ : α → ℕ) :
    (∑ x, μ (Function.update f i b x)) + μ (f i) = (∑ x, μ (f x)) + μ b := by
  have hsplit : ∀ g : ι → α, ∑ x, μ (g x) = μ (g i) + ∑ x ∈ Finset.univ.erase i, μ (g x) :=
    fun g => (Finset.add_sum_erase _ _ (Finset.mem_univ i)).symm
  have hrest : ∑ x ∈ Finset.univ.erase i, μ (Function.update f i b x) =
      ∑ x ∈ Finset.univ.erase i, μ (f x) := by
    refine Finset.sum_congr rfl fun x hx => ?_
    rw [Function.update_of_ne (Finset.ne_of_mem_erase hx)]
  rw [hsplit (Function.update f i b), hsplit f, hrest, Function.update_self]
  omega

end Taas.Transition
