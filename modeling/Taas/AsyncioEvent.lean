import Taas.Asyncio

/-!
`asyncio.Event` as its methods run between two suspensions of a task. A caller that waits has a
future in the deque, from its suspension until its task runs again.
-/
namespace Taas.Asyncio

structure Event (C : Type) where
  value : Bool := false
  waiters : List (C × Waiter) := []
  deriving DecidableEq

namespace Event

variable {C : Type}

/-- `set`. The futures that are done stay as they are. -/
def set (e : Event C) : Event C :=
  if e.value then e
  else {
    value := true
    waiters := e.waiters.map fun x => (x.1, if x.2 = .pending then .granted else x.2) }

def clear (e : Event C) : Event C := { e with value := false }

/-- `wait` on an event that is not set, up to its suspension. -/
def enqueue (c : C) (e : Event C) : Event C :=
  { e with waiters := e.waiters ++ [(c, .pending)] }

variable [DecidableEq C]

def future (e : Event C) (c : C) : Option Waiter := e.waiters.lookup c

/-- `Task.cancel` on a waiting caller cancels its future unless that is done. -/
def cancel (c : C) (e : Event C) : Event C :=
  { e with
    waiters := e.waiters.map fun x =>
      (x.1, if x.1 = c ∧ x.2 = .pending then .cancelled else x.2) }

/-- The `finally` of `wait`. -/
def leave (c : C) (e : Event C) : Event C :=
  { e with waiters := e.waiters.filter fun x => x.1 ≠ c }

variable {e : Event C} {c d : C}

theorem lookup_map_snd (f : C → Waiter → Waiter) (l : List (C × Waiter)) (d : C) :
    (l.map fun x => (x.1, f x.1 x.2)).lookup d = (l.lookup d).map (f d) := by
  induction l with
  | nil => rfl
  | cons x l ih =>
    obtain ⟨c, w⟩ := x
    rw [List.map_cons, List.lookup_cons, List.lookup_cons]
    by_cases h : d = c
    · subst h
      simp
    · have hb : (d == c) = false := by simpa using h
      simpa [hb] using ih

theorem future_set (e : Event C) (d : C) :
    e.set.future d = if e.value then e.future d
      else (e.future d).map fun x => if x = .pending then .granted else x := by
  unfold set
  split
  · rfl
  · exact lookup_map_snd (fun _ x => if x = .pending then .granted else x) e.waiters d

theorem future_cancel (c : C) (e : Event C) (d : C) :
    (e.cancel c).future d =
      (e.future d).map fun x => if d = c ∧ x = .pending then .cancelled else x :=
  lookup_map_snd (fun i x => if i = c ∧ x = .pending then .cancelled else x) e.waiters d

theorem future_enqueue (h : e.future c = none) (d : C) :
    (e.enqueue c).future d = if d = c then some .pending else e.future d := by
  unfold future enqueue at *
  by_cases hd : d = c
  · subst hd
    rw [List.lookup_append, h]
    simp
  · have hb : (d == c) = false := by simpa using hd
    rw [List.lookup_append, List.lookup_cons, hb, if_neg hd]
    simp

theorem future_leave (c : C) (e : Event C) (d : C) :
    (e.leave c).future d = if d = c then none else e.future d := by
  unfold future leave
  induction e.waiters with
  | nil => simp
  | cons x l ih =>
    obtain ⟨i, w⟩ := x
    by_cases hi : i = c
    · subst hi
      rw [List.filter_cons_of_neg (by simp), ih]
      split
      · rfl
      · rename_i hd
        have hb : (d == i) = false := by simpa using hd
        rw [List.lookup_cons, hb]
    · rw [List.filter_cons_of_pos (by simpa using hi), List.lookup_cons, List.lookup_cons]
      by_cases hd : d = i
      · subst hd
        simp [hi]
      · have hb : (d == i) = false := by simpa using hd
        simpa [hb] using ih

omit [DecidableEq C] in
theorem value_set (e : Event C) : e.set.value = true := by
  unfold set
  split
  · assumption
  · rfl

/-- Nobody waits for an event that is set. -/
def Settled (e : Event C) : Prop := e.value = true → ∀ c, e.future c ≠ some .pending

theorem Settled.set (h : e.Settled) : e.set.Settled := by
  intro _ c
  rw [future_set]
  split
  · exact h ‹_› c
  · intro hpending
    obtain ⟨x, _, hx⟩ := Option.map_eq_some_iff.mp hpending
    split at hx
    · cases hx
    · contradiction

theorem Settled.clear : e.clear.Settled := by
  intro h
  cases h

theorem Settled.cancel (h : e.Settled) (c : C) : (e.cancel c).Settled := by
  intro hvalue d
  rw [future_cancel]
  intro hpending
  obtain ⟨x, hx, hcase⟩ := Option.map_eq_some_iff.mp hpending
  split at hcase
  · cases hcase
  · subst hcase
    exact h hvalue d hx

theorem Settled.leave (h : e.Settled) (c : C) : (e.leave c).Settled := by
  intro hvalue d
  rw [future_leave]
  split
  · simp
  · exact h hvalue d

end Event

end Taas.Asyncio
