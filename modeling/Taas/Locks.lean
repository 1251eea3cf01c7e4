import Mathlib.Data.List.Basic
import Mathlib.Data.Nat.Basic

/-!
Locks that are held by at most one thread, and that a thread does not enter twice. `Accounted`
relates the holder of each lock to the places where the threads stand. Where each thread waits only
below the locks that it holds, some thread is never kept waiting.
-/
namespace Taas.Locks

variable {T L : Type*} {holder : L → Option T} {held : T → List L} {t u : T} {l : L}

/-- Each thread waits only for locks that rank below all those that it holds. -/
def Ordered (rank : L → ℕ) (holder : L → Option T) (awaits : T → Option L) : Prop :=
  ∀ t l m, awaits t = some l → holder m = some t → rank l < rank m

/-- Of a thread and the holders of the locks, one waits for no lock that is held. -/
theorem Ordered.exists_unblocked {rank : L → ℕ} {awaits : T → Option L}
    (h : Ordered rank holder awaits) (t : T) :
    ∃ u, (u = t ∨ ∃ l, holder l = some u) ∧ ∀ l, awaits u = some l → holder l = none := by
  -- the holders that keep each other waiting go down in rank
  have hdown : ∀ n l u, rank l = n → holder l = some u →
      ∃ v, (∃ m, holder m = some v) ∧ ∀ m, awaits v = some m → holder m = none := by
    intro n
    induction n using Nat.strong_induction_on with
    | h n ih =>
      intro l u hn hu
      by_cases hwaits : ∃ m v, awaits u = some m ∧ holder m = some v
      · obtain ⟨m, v, hm, hv⟩ := hwaits
        exact ih (rank m) (hn ▸ h u m l hm hu) m v rfl hv
      · refine ⟨u, ⟨l, hu⟩, fun m hm => ?_⟩
        by_contra hheld
        obtain ⟨v, hv⟩ := Option.ne_none_iff_exists'.mp hheld
        exact hwaits ⟨m, v, hm, hv⟩
  by_cases hwaits : ∃ l u, awaits t = some l ∧ holder l = some u
  · obtain ⟨l, u, -, hu⟩ := hwaits
    obtain ⟨v, hv, hfree⟩ := hdown (rank l) l u rfl hu
    exact ⟨v, .inr hv, hfree⟩
  · refine ⟨t, .inl rfl, fun l hl => ?_⟩
    by_contra hheld
    obtain ⟨u, hu⟩ := Option.ne_none_iff_exists'.mp hheld
    exact hwaits ⟨l, u, hl, hu⟩

variable [DecidableEq T] [DecidableEq L]

/-- Each lock stands once in the list of the thread that holds it, and in no other list. -/
def Accounted (holder : L → Option T) (held : T → List L) : Prop :=
  ∀ t l, (held t).count l = if holder l = some t then 1 else 0

theorem accounted_free : Accounted (fun _ => none) fun _ : T => ([] : List L) :=
  fun _ _ => rfl

namespace Accounted

theorem mem_iff (h : Accounted holder held) : l ∈ held t ↔ holder l = some t := by
  rw [← List.count_pos_iff, h t l]
  split <;> simp_all

theorem unique (h : Accounted holder held) (ht : l ∈ held t) (hu : l ∈ held u) : t = u :=
  Option.some.inj ((h.mem_iff.mp ht).symm.trans (h.mem_iff.mp hu))

theorem acquire (h : Accounted holder held) (hfree : holder l = none) :
    Accounted (Function.update holder l (some t)) (Function.update held t (l :: held t)) := by
  intro u m
  have hu := h u m
  by_cases hm : m = l
  · subst hm
    simp only [hfree, reduceCtorEq, if_false] at hu
    by_cases hut : u = t
    · subst hut
      simp [hu]
    · simp [hut, hu, Ne.symm hut]
  · by_cases hut : u = t
    · subst hut
      simp [hm, hu, Ne.symm hm]
    · simp [hm, hut, hu]

theorem release {rest : List L} (h : Accounted holder held) (hheld : held t = l :: rest) :
    Accounted (Function.update holder l none) (Function.update held t rest) := by
  intro u m
  have hu := h u m
  by_cases hut : u = t
  · subst hut
    rw [hheld] at hu
    by_cases hm : m = l
    · subst hm
      have hholder : holder m = some u := h.mem_iff.mp (by simp [hheld])
      simpa [hholder] using hu
    · simpa [hm, Ne.symm hm] using hu
  · by_cases hm : m = l
    · subst hm
      have hholder : holder m = some t := h.mem_iff.mp (by simp [hheld])
      simpa [hut, hholder, Ne.symm hut] using hu
    · simpa [hm, hut] using hu

end Accounted

end Taas.Locks
