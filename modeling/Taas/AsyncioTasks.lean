import Mathlib.Data.Fintype.Basic

/-!
Tasks of `asyncio`, their cancellation, and `gather`. A task whose cancellation is asked for ends
when it likes, and how it likes.
-/
namespace Taas.Asyncio

inductive Outcome
  | returned
  /-- It has raised, or was cancelled. -/
  | failed
  deriving DecidableEq

structure TaskState where
  outcome : Option Outcome := none
  asked : Bool := false
  deriving DecidableEq

namespace TaskState

variable {x : TaskState} {o : Outcome}

def done (x : TaskState) : Bool := x.outcome.isSome

def cancel (x : TaskState) : TaskState := if x.done then x else { x with asked := true }

def finish (x : TaskState) (o : Outcome) : TaskState := { x with outcome := some o }

@[simp] theorem outcome_cancel (x : TaskState) : x.cancel.outcome = x.outcome := by
  unfold cancel
  split <;> rfl

@[simp] theorem done_cancel (x : TaskState) : x.cancel.done = x.done := by
  simp [done]

@[simp] theorem done_finish (x : TaskState) (o : Outcome) : (x.finish o).done = true := rfl

/-- It is done, or knows that it should be. -/
def told (x : TaskState) : Bool := x.done || x.asked

theorem told_cancel (x : TaskState) : x.cancel.told = true := by
  unfold cancel
  split
  · simpa [told] using Or.inl ‹x.done = true›
  · simp [told]

theorem told_finish (x : TaskState) (o : Outcome) : (x.finish o).told = true := rfl

theorem asked_of_told (h : x.told = true) (hdone : x.done = false) : x.asked = true := by
  simpa [told, hdone] using h

/-- What a task can have become. -/
structure Le (x y : TaskState) : Prop where
  outcome : ∀ o, x.outcome = some o → y.outcome = some o
  told : x.told = true → y.told = true

theorem Le.done {y : TaskState} (h : Le x y) (hx : x.done = true) : y.done = true := by
  obtain ⟨o, ho⟩ := Option.isSome_iff_exists.mp hx
  simp [TaskState.done, h.outcome o ho]

theorem Le.refl (x : TaskState) : Le x x := ⟨fun _ ho => ho, id⟩

theorem le_cancel (x : TaskState) : Le x x.cancel :=
  ⟨fun o ho => by rw [outcome_cancel, ho], fun _ => told_cancel x⟩

theorem le_finish (h : x.done = false) (o : Outcome) : Le x (x.finish o) :=
  ⟨fun o' ho' => by simp [done, ho'] at h, fun _ => told_finish x o⟩

/-- How often it can still end. -/
def left (x : TaskState) : ℕ := if x.done then 0 else 1

theorem Le.left {y : TaskState} (h : Le x y) : y.left ≤ x.left := by
  unfold TaskState.left
  split
  · exact Nat.zero_le _
  · rename_i hy
    rw [if_neg fun hx => hy (h.done hx)]

theorem left_finish_lt (h : x.done = false) (o : Outcome) : (x.finish o).left < x.left := by
  simp [left, h]

end TaskState

variable {ι : Type*} [Fintype ι] {tasks tasks' : ι → TaskState} {cancelled : Bool}

/-- The future of `gather(*tasks)`: it fails with the first task that fails, or where it is itself
cancelled when all have ended. -/
def gather (tasks : ι → TaskState) (cancelled : Bool) : Option Outcome :=
  if ∃ i, (tasks i).outcome = some .failed then some .failed
  else if ∀ i, (tasks i).done then some (if cancelled then .failed else .returned)
  else none

theorem exists_pending (h : gather tasks cancelled = none) : ∃ i, (tasks i).done = false := by
  unfold gather at h
  split at h
  · cases h
  · split at h
    · cases h
    · rename_i hall
      obtain ⟨i, hi⟩ := not_forall.mp hall
      exact ⟨i, by simpa using hi⟩

/-- The future stays done while tasks end and are cancelled. -/
theorem gather_mono {cancelled' : Bool} (hle : ∀ i, (tasks i).Le (tasks' i))
    (h : (gather tasks cancelled).isSome) : (gather tasks' cancelled').isSome := by
  unfold gather at h ⊢
  split at h
  · rename_i hfailed
    obtain ⟨i, hi⟩ := hfailed
    rw [if_pos ⟨i, (hle i).outcome _ hi⟩]
    rfl
  · split at h
    · rename_i hall
      split
      · rfl
      · rw [if_pos fun i => (hle i).done (hall i)]
        rfl
    · cases h

end Taas.Asyncio
