import Mathlib.Data.List.Basic
import Mathlib.Algebra.BigOperators.Group.List.Basic

/-!
`asyncio.Semaphore` as its methods run between two suspensions of a task. The future of a
caller that waits is pending until a release grants it a slot or its task is cancelled; it
stays in the deque until the task runs again. A slot is free, granted to a future, or held:
the lemmas count the first two.
-/
namespace Taas.Asyncio

inductive Waiter
  | pending
  | granted
  | cancelled
  deriving DecidableEq, Repr

structure Semaphore (C : Type) where
  value : ℕ
  /-- The futures of the waiting callers, the oldest first. -/
  waiters : List (C × Waiter) := []
  deriving DecidableEq

variable {C : Type}

/-- Grant the oldest pending future, if there is one. -/
def grantFirst : List (C × Waiter) → Option (List (C × Waiter))
  | [] => none
  | (c, .pending) :: l => some ((c, .granted) :: l)
  | (c, .granted) :: l => (grantFirst l).map ((c, .granted) :: ·)
  | (c, .cancelled) :: l => (grantFirst l).map ((c, .cancelled) :: ·)

namespace Semaphore

def locked (s : Semaphore C) : Bool := s.value = 0 ∨ ∃ x ∈ s.waiters, x.2 ≠ .cancelled

/-- `_wake_up_next`; `none` when nobody can be woken. -/
def wakeUpNext (s : Semaphore C) : Option (Semaphore C) :=
  (grantFirst s.waiters).map fun l => { value := s.value - 1, waiters := l }

/-- `while self._value > 0`: each turn takes one from the value, which bounds the loop. -/
def wakeWhile : ℕ → Semaphore C → Semaphore C
  | 0, s => s
  | n + 1, s =>
    match s.wakeUpNext with
    | none => s
    | some s => wakeWhile n s

def release (s : Semaphore C) : Semaphore C :=
  let s := { s with value := s.value + 1 }
  s.wakeUpNext.getD s

/-- `acquire` when the semaphore is not locked. -/
def take (s : Semaphore C) : Semaphore C := { s with value := s.value - 1 }

/-- `acquire` when the semaphore is locked, up to its suspension. -/
def enqueue (c : C) (s : Semaphore C) : Semaphore C :=
  { s with waiters := s.waiters ++ [(c, .pending)] }

variable [DecidableEq C]

def future (s : Semaphore C) (c : C) : Option Waiter := s.waiters.lookup c

/-- `Task.cancel` on a waiting caller cancels its future unless that is done. -/
def cancel (c : C) (s : Semaphore C) : Semaphore C :=
  { s with
    waiters := s.waiters.map fun x => if x.1 = c ∧ x.2 = .pending then (c, .cancelled) else x }

/-- The rest of `acquire` when the task of `c` runs again: with a result or, when
`interrupted`, with a `CancelledError`, which gives back a slot that was granted. -/
def resume (c : C) (interrupted : Bool) (s : Semaphore C) : Semaphore C :=
  let back := if interrupted ∧ s.future c = some .granted then 1 else 0
  let s := { value := s.value + back, waiters := s.waiters.filter fun x => x.1 ≠ c }
  wakeWhile s.value s

end Semaphore

/-- The futures that were granted a slot and whose tasks have not run since. -/
def grants (l : List (C × Waiter)) : ℕ := l.countP fun x => x.2 = .granted

/-- The free slots and the granted ones. -/
def Semaphore.slots (s : Semaphore C) : ℕ := s.value + grants s.waiters

/-- The callers that wait. -/
def Semaphore.callers (s : Semaphore C) : List C := s.waiters.map Prod.fst

variable {s t : Semaphore C} {l m : List (C × Waiter)} {c : C}

theorem grantFirst_grants (h : grantFirst l = some m) : grants m = grants l + 1 := by
  induction l generalizing m with
  | nil => cases h
  | cons x l ih =>
    obtain ⟨c, w⟩ := x
    cases w with
    | pending =>
      obtain rfl := Option.some.inj h
      simp [grants]
    | granted =>
      obtain ⟨m', hm, rfl⟩ := Option.map_eq_some_iff.mp h
      have := ih hm
      simp only [grants, List.countP_cons] at this ⊢
      omega
    | cancelled =>
      obtain ⟨m', hm, rfl⟩ := Option.map_eq_some_iff.mp h
      have := ih hm
      simp only [grants, List.countP_cons] at this ⊢
      omega

theorem grantFirst_callers (h : grantFirst l = some m) : m.map Prod.fst = l.map Prod.fst := by
  induction l generalizing m with
  | nil => cases h
  | cons x l ih =>
    obtain ⟨c, w⟩ := x
    cases w with
    | pending =>
      obtain rfl := Option.some.inj h
      rfl
    | granted =>
      obtain ⟨m', hm, rfl⟩ := Option.map_eq_some_iff.mp h
      simp [ih hm]
    | cancelled =>
      obtain ⟨m', hm, rfl⟩ := Option.map_eq_some_iff.mp h
      simp [ih hm]

namespace Semaphore

theorem wakeUpNext_slots (hv : 0 < s.value) (h : s.wakeUpNext = some t) :
    t.slots = s.slots ∧ t.value + 1 = s.value ∧ t.callers = s.callers := by
  obtain ⟨l, hl, rfl⟩ := Option.map_eq_some_iff.mp h
  refine ⟨?_, ?_, grantFirst_callers hl⟩
  · have := grantFirst_grants hl
    simp only [slots]
    omega
  · simp only
    omega

theorem wakeWhile_slots (n : ℕ) (s : Semaphore C) (h : n ≤ s.value) :
    (wakeWhile n s).slots = s.slots ∧ (wakeWhile n s).callers = s.callers := by
  induction n generalizing s with
  | zero => exact ⟨rfl, rfl⟩
  | succ n ih =>
    unfold wakeWhile
    cases hw : s.wakeUpNext with
    | none => exact ⟨rfl, rfl⟩
    | some t =>
      obtain ⟨hslots, hvalue, hcallers⟩ := wakeUpNext_slots (by omega) hw
      obtain ⟨h1, h2⟩ := ih t (by omega)
      exact ⟨h1.trans hslots, h2.trans hcallers⟩

theorem release_slots (s : Semaphore C) :
    s.release.slots = s.slots + 1 ∧ s.release.callers = s.callers := by
  have hplus : ({ s with value := s.value + 1 } : Semaphore C).slots = s.slots + 1 := by
    simp only [slots]
    omega
  cases hw : ({ s with value := s.value + 1 } : Semaphore C).wakeUpNext with
  | none =>
    have hr : s.release = { s with value := s.value + 1 } := by simp [release, hw]
    rw [hr]
    exact ⟨hplus, rfl⟩
  | some t =>
    have hr : s.release = t := by simp [release, hw]
    obtain ⟨hslots, _, hcallers⟩ := wakeUpNext_slots (Nat.succ_pos _) hw
    rw [hr]
    exact ⟨hslots.trans hplus, hcallers⟩

theorem take_slots (h : s.locked = false) : s.take.slots + 1 = s.slots := by
  simp only [locked, decide_eq_false_iff_not, not_or] at h
  have := Nat.pos_of_ne_zero h.1
  simp only [take, slots]
  omega

theorem enqueue_slots (c : C) (s : Semaphore C) :
    (s.enqueue c).slots = s.slots ∧ (s.enqueue c).callers = s.callers ++ [c] := by
  simp [enqueue, slots, callers, grants]

variable [DecidableEq C]

theorem cancel_slots (c : C) (s : Semaphore C) :
    (s.cancel c).slots = s.slots ∧ (s.cancel c).callers = s.callers := by
  constructor
  · simp only [cancel, slots, grants, List.countP_map]
    congr 1
    apply List.countP_congr
    intro x _
    by_cases hx : x.1 = c ∧ x.2 = .pending
    · simp [hx]
    · simp [hx]
  · simp only [cancel, callers, List.map_map]
    apply List.map_congr_left
    intro x _
    by_cases hx : x.1 = c ∧ x.2 = .pending
    · simp [hx]
    · simp [hx]

theorem exists_future (h : c ∈ s.callers) : ∃ w, s.future c = some w := by
  obtain ⟨x, hx, rfl⟩ := List.mem_map.mp h
  cases hw : s.waiters.lookup x.1 with
  | none =>
    have hnone := List.lookup_eq_none_iff.mp hw x hx
    simp at hnone
  | some w => exact ⟨w, hw⟩

/-- Without the future of `c` there is one grant less when that was granted. -/
theorem grants_filter {l : List (C × Waiter)} (h : (l.map Prod.fst).Nodup) (c : C) :
    grants (l.filter fun x => x.1 ≠ c) + (if l.lookup c = some .granted then 1 else 0) =
      grants l := by
  induction l with
  | nil => rfl
  | cons x l ih =>
    obtain ⟨d, w⟩ := x
    simp only [List.map_cons, List.nodup_cons] at h
    have hrest := ih h.2
    by_cases hd : d = c
    · subst hd
      have hsame : l.filter (fun x => x.1 ≠ d) = l := by
        rw [List.filter_eq_self]
        intro x hx
        have hne : x.1 ≠ d := by
          rintro rfl
          exact h.1 (List.mem_map_of_mem hx)
        simpa using hne
      have hdrop : ((d, w) :: l).filter (fun x => x.1 ≠ d) = l := by
        rw [List.filter_cons_of_neg (by simp), hsame]
      rw [hdrop, List.lookup_cons_self]
      simp only [grants, List.countP_cons, Option.some.injEq, decide_eq_true_eq]
    · have hlookup : ((d, w) :: l).lookup c = l.lookup c := by
        have hb : (c == d) = false := by simpa using fun h => hd h.symm
        simp [List.lookup_cons, hb]
      have hkeep : ((d, w) :: l).filter (fun x => x.1 ≠ c) =
          (d, w) :: l.filter (fun x => x.1 ≠ c) := List.filter_cons_of_pos (by simpa using hd)
      rw [hlookup, hkeep]
      simp only [grants, List.countP_cons] at hrest ⊢
      omega

/-- A caller that runs again keeps the slot that it was granted, unless it is interrupted. -/
theorem resume_slots (h : s.callers.Nodup) (c : C) (interrupted : Bool) :
    (s.resume c interrupted).slots +
        (if ¬ interrupted ∧ s.future c = some .granted then 1 else 0) = s.slots ∧
      (s.resume c interrupted).callers = s.callers.filter fun d => d ≠ c := by
  have hgrants := grants_filter h c
  obtain ⟨h1, h2⟩ := wakeWhile_slots _
    ({ value := s.value + if interrupted ∧ s.future c = some .granted then 1 else 0
       waiters := s.waiters.filter fun x => x.1 ≠ c } : Semaphore C) (Nat.le_refl _)
  constructor
  · show (wakeWhile _ _).slots + _ = _
    rw [h1]
    simp only [slots, future] at hgrants ⊢
    cases interrupted <;> simp at hgrants ⊢ <;> omega
  · show (wakeWhile _ _).callers = _
    rw [h2]
    simp only [callers, List.filter_map]
    rfl

end Semaphore

end Taas.Asyncio
