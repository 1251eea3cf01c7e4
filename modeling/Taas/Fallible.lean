import Mathlib.Data.List.Basic

/-!
Computations that may fail. A computation that succeeds has succeeded in every part, and a
loop that succeeds keeps what each of its turns keeps.
-/
namespace Taas.Fallible

variable {α β σ ε : Type}

theorem map_ok {x : Except ε α} {f : α → β} {b : β} (h : x.map f = .ok b) :
    ∃ a, x = .ok a ∧ f a = b := by
  cases x with
  | error e => cases h
  | ok a => exact ⟨a, rfl, Except.ok.inj h⟩

theorem bind_ok {x : Except ε α} {f : α → Except ε β} {b : β} (h : (x >>= f) = .ok b) :
    ∃ a, x = .ok a ∧ f a = .ok b := by
  cases x with
  | error e => cases h
  | ok a => exact ⟨a, rfl, h⟩

variable {f : σ → α → Except ε σ} {P : List α → σ → Prop}

/-- What every turn keeps, from the items that are done to one more, holds at the end. -/
theorem foldlM_ok (hstep : ∀ done x s s', P done s → f s x = .ok s' → P (done ++ [x]) s')
    (done : List α) {xs : List α} {s t : σ} (hs : P done s) (h : xs.foldlM f s = .ok t) :
    P (done ++ xs) t := by
  induction xs generalizing done s with
  | nil =>
    cases h
    simpa using hs
  | cons x xs ih =>
    rw [List.foldlM_cons] at h
    obtain ⟨s', hx, hrest⟩ := bind_ok h
    have hnext := ih (done ++ [x]) (hstep done x s s' hs hx) hrest
    rwa [List.append_assoc] at hnext

end Taas.Fallible
