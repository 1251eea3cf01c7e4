import Mathlib.Data.Finset.Card
import Taas.Transition

/-!
The tasks of `_run_consuming`. `processing_tasks` names one set object after the other: the
`pending` of `asyncio.wait` takes the place of the set that was waited for, while the done-callback
of a task discards it from the set that it was added to. A step of the loop goes from one
suspension to the next.
-/
namespace Taas.ConsumerTasks

open Transition

/-- How a task ended. -/
inductive Outcome
  | returned
  | raised
  | cancelled
  deriving DecidableEq

/-- A task, and the set that its done-callback is bound to. -/
structure Task where
  boundTo : ℕ
  outcome : Option Outcome := none
  discarded : Bool := false

/-- Where the loop is suspended: not running, at `async for`, in `_process_message` without a
task, or in `asyncio.wait` on a copy of the set, with a message in hand. -/
inductive Loop
  | idle
  | receiving
  | handling
  | waiting (fs : Finset ℕ)
  deriving DecidableEq

/-- Tasks and set objects are numbered as they are made. -/
structure Consumption where
  task : ℕ → Task := fun _ => { boundTo := 0 }
  created : ℕ := 0
  sets : ℕ → Finset ℕ := fun _ => ∅
  made : ℕ := 1
  processingTasks : ℕ := 0
  loop : Loop := .idle
  running : Bool := true
  /-- The tasks on which `_do_stop` has called `cancel`, and those that its `gather` awaits. -/
  cancelRequested : Finset ℕ := ∅
  gathered : Finset ℕ := ∅

inductive Act
  | start
  | receive
  | handled (raises : Bool)
  | finish (i : ℕ) (outcome : Outcome)
  | discard (i : ℕ)
  | resume
  | interrupt
  | stop

namespace Consumption

/-- The members of `self.processing_tasks`. -/
def members (s : Consumption) : Finset ℕ := s.sets s.processingTasks

/-- The unfinished tasks. -/
def live (s : Consumption) : Finset ℕ :=
  (Finset.range s.created).filter fun i => (s.task i).outcome = none

/-- `create_task`, `add` and `add_done_callback`. -/
def spawn (s : Consumption) : Consumption :=
  { s with
    task := Function.update s.task s.created { boundTo := s.processingTasks }
    created := s.created + 1
    sets := Function.update s.sets s.processingTasks (insert s.created s.members)
    loop := .receiving }

/-- The loop with a message in hand, from the condition of its `while` on. -/
def throttle (maxWorkers : ℤ) (s : Consumption) : Consumption :=
  if maxWorkers ≤ s.members.card then { s with loop := .waiting s.members } else s.spawn

/-- `self.processing_tasks = pending`, for a wait on `fs`. -/
def replace (fs : Finset ℕ) (s : Consumption) : Consumption :=
  { s with
    sets := Function.update s.sets s.made (fs.filter fun i => i ∈ s.live)
    made := s.made + 1
    processingTasks := s.made }

def finish (i : ℕ) (outcome : Outcome) (s : Consumption) : Consumption :=
  { s with task := Function.update s.task i { s.task i with outcome := some outcome } }

/-- The done-callback. -/
def discard (i : ℕ) (s : Consumption) : Consumption :=
  { s with
    task := Function.update s.task i { s.task i with discarded := true }
    sets := Function.update s.sets (s.task i).boundTo ((s.sets (s.task i).boundTo).erase i) }

end Consumption

open Consumption

def next (maxWorkers : ℤ) (s : Consumption) : Act → Option Consumption
  | .start => if s.loop = .idle then some { s with loop := .receiving } else none
  | .receive =>
    if s.loop = .receiving then
      if s.running = false then some { s with loop := .idle }
      else if maxWorkers ≤ 1 then some { s with loop := .handling }
      else some (s.throttle maxWorkers)
    else none
  | .handled raises =>
    if s.loop = .handling then some { s with loop := if raises then .idle else .receiving }
    else none
  | .finish i outcome => if i ∈ s.live then some (s.finish i outcome) else none
  | .discard i =>
    if i < s.created ∧ (s.task i).outcome ≠ none ∧ (s.task i).discarded = false then
      some (s.discard i)
    else none
  | .resume =>
    match s.loop with
    | .waiting fs =>
      if ∃ i ∈ fs, i ∉ s.live then
        -- `exception()` of a cancelled task raises the `CancelledError`
        if ∃ i ∈ fs, (s.task i).outcome = some .cancelled then
          some { s.replace fs with loop := .idle }
        else some ((s.replace fs).throttle maxWorkers)
      else none
    | _ => none
  -- the loop is cancelled, or the consumer raises or ends
  | .interrupt => if s.loop = .idle then none else some { s with loop := .idle }
  | .stop =>
    some { s with
      running := false
      cancelRequested := s.cancelRequested ∪ s.members.filter fun i => i ∈ s.live
      gathered := s.members }

/-- The consumption with `max_workers`, before any message. -/
def consumer (maxWorkers : ℤ) : System Consumption Act where
  init s := s = {}
  next := next maxWorkers

/-- At most `max_workers` tasks are unfinished, all of them in `processing_tasks`, and a shutdown
cancels and awaits them all. -/
structure Bounded (maxWorkers : ℤ) (s : Consumption) : Prop where
  atMost : (s.live.card : ℤ) ≤ maxWorkers
  tracked : ∀ i ∈ s.live, i ∈ s.members
  shutdown : ∀ s', next maxWorkers s .stop = some s' →
    ∀ i ∈ s.live, i ∈ s'.cancelRequested ∧ i ∈ s'.gathered

variable {maxWorkers : ℤ} {s s' : Consumption} {a : Act} {fs : Finset ℕ} {i : ℕ}

theorem mem_live : i ∈ s.live ↔ i < s.created ∧ (s.task i).outcome = none := by
  simp [live]

theorem members_spawn (s : Consumption) : s.spawn.members = insert s.created s.members := by
  simp [spawn, members]

theorem live_spawn (s : Consumption) : s.spawn.live = insert s.created s.live := by
  ext i
  rw [Finset.mem_insert, mem_live, mem_live]
  by_cases h : i = s.created
  · subst h
    simp [spawn]
  · simp only [spawn, Function.update_of_ne h, h, false_or]
    refine and_congr_left fun _ => ?_
    omega

@[simp] theorem members_replace (fs : Finset ℕ) (s : Consumption) :
    (s.replace fs).members = fs.filter fun i => i ∈ s.live := by
  simp [replace, members]

@[simp] theorem live_replace (fs : Finset ℕ) (s : Consumption) :
    (s.replace fs).live = s.live := rfl

theorem live_finish_subset (i : ℕ) (outcome : Outcome) (s : Consumption) :
    (s.finish i outcome).live ⊆ s.live := by
  intro j hj
  rw [mem_live] at hj ⊢
  refine ⟨hj.1, ?_⟩
  by_cases hji : j = i
  · subst hji
    simp [finish] at hj
  · simpa [finish, Function.update_of_ne hji] using hj.2

@[simp] theorem live_discard (i : ℕ) (s : Consumption) : (s.discard i).live = s.live := by
  ext j
  rw [mem_live, mem_live]
  by_cases hji : j = i
  · subst hji
    simp [Consumption.discard]
  · simp [Consumption.discard, Function.update_of_ne hji]

/-- The callback may be bound to the present set or to an earlier one. -/
theorem members_discard (i : ℕ) (s : Consumption) :
    (s.discard i).members = s.members.erase i ∨ (s.discard i).members = s.members := by
  by_cases hset : s.processingTasks = (s.task i).boundTo
  · exact Or.inl (by simp [Consumption.discard, members, hset])
  · exact Or.inr (by simp [Consumption.discard, members, Function.update_of_ne hset])

/-- The unfinished tasks are in the set, which is no larger than `max_workers`, and in the copy
that the loop waits for. -/
structure Good (maxWorkers : ℤ) (s : Consumption) : Prop where
  tracked : s.live ⊆ s.members
  small : (s.members.card : ℤ) ≤ maxWorkers
  waiting : ∀ fs, s.loop = .waiting fs → s.live ⊆ fs ∧ (fs.card : ℤ) ≤ maxWorkers

theorem Good.setLoop (h : Good maxWorkers s) {loop : Loop} (hloop : ∀ fs, loop ≠ .waiting fs) :
    Good maxWorkers { s with loop := loop } :=
  ⟨h.tracked, h.small, fun fs heq => absurd heq (hloop fs)⟩

theorem Good.shrink (h : Good maxWorkers s) (hlive : s'.live ⊆ s.live)
    (hmembers : s'.members ⊆ s.members) (htracked : s'.live ⊆ s'.members)
    (hloop : s'.loop = s.loop) : Good maxWorkers s' where
  tracked := htracked
  small := by
    have hcard := Finset.card_le_card hmembers
    have hsmall := h.small
    omega
  waiting fs heq := by
    obtain ⟨hfs, hcard⟩ := h.waiting fs (hloop ▸ heq)
    exact ⟨hlive.trans hfs, hcard⟩

theorem good_throttle (htracked : s.live ⊆ s.members) (hsmall : (s.members.card : ℤ) ≤ maxWorkers) :
    Good maxWorkers (s.throttle maxWorkers) := by
  unfold throttle
  split
  · refine ⟨htracked, hsmall, fun fs heq => ?_⟩
    obtain rfl : s.members = fs := Loop.waiting.inj heq
    exact ⟨htracked, hsmall⟩
  · rename_i hroom
    constructor
    · rw [live_spawn, members_spawn]
      exact Finset.insert_subset_insert _ htracked
    · rw [members_spawn]
      have hcard := Finset.card_insert_le s.created s.members
      omega
    · intro fs heq
      cases heq

theorem good_replace (h : Good maxWorkers s) (hloop : s.loop = .waiting fs) :
    (s.replace fs).live ⊆ (s.replace fs).members ∧
      ((s.replace fs).members.card : ℤ) ≤ maxWorkers := by
  obtain ⟨hfs, hcard⟩ := h.waiting fs hloop
  rw [members_replace, live_replace]
  constructor
  · intro i hi
    exact Finset.mem_filter.mpr ⟨hfs hi, hi⟩
  · have hle := Finset.card_filter_le fs fun i => i ∈ s.live
    omega

theorem good_step (hmax : 1 < maxWorkers) (h : Good maxWorkers s)
    (hstep : next maxWorkers s a = some s') : Good maxWorkers s' := by
  cases a with
  | start =>
    simp only [next, Option.ite_none_right_eq_some, Option.some.injEq] at hstep
    obtain ⟨-, rfl⟩ := hstep
    exact h.setLoop (by simp)
  | receive =>
    simp only [next, Option.ite_none_right_eq_some] at hstep
    obtain ⟨-, hstep⟩ := hstep
    split at hstep
    · obtain rfl := Option.some.inj hstep
      exact h.setLoop (by simp)
    · split at hstep
      · omega
      · obtain rfl := Option.some.inj hstep
        exact good_throttle h.tracked h.small
  | handled raises =>
    simp only [next, Option.ite_none_right_eq_some, Option.some.injEq] at hstep
    obtain ⟨-, rfl⟩ := hstep
    refine h.setLoop fun fs => ?_
    split <;> simp
  | finish i outcome =>
    simp only [next, Option.ite_none_right_eq_some, Option.some.injEq] at hstep
    obtain ⟨-, rfl⟩ := hstep
    have hlive := live_finish_subset i outcome s
    exact h.shrink hlive subset_rfl (hlive.trans h.tracked) rfl
  | discard i =>
    simp only [next, Option.ite_none_right_eq_some, Option.some.injEq] at hstep
    obtain ⟨⟨-, hfinished, -⟩, rfl⟩ := hstep
    have hnot : i ∉ s.live := fun hi => hfinished (mem_live.mp hi).2
    rcases members_discard i s with heq | heq
    · refine h.shrink (live_discard i s).subset ?_ ?_ rfl
      · rw [heq]
        exact Finset.erase_subset i s.members
      · rw [heq, live_discard]
        exact Finset.subset_erase.mpr ⟨h.tracked, hnot⟩
    · refine h.shrink (live_discard i s).subset heq.subset ?_ rfl
      rw [heq, live_discard]
      exact h.tracked
  | resume =>
    simp only [next] at hstep
    split at hstep
    · rename_i fs hloop
      obtain ⟨htracked, hsmall⟩ := good_replace h hloop
      simp only [Option.ite_none_right_eq_some] at hstep
      obtain ⟨-, hstep⟩ := hstep
      split at hstep
      · obtain rfl := Option.some.inj hstep
        exact ⟨htracked, hsmall, fun fs heq => by cases heq⟩
      · obtain rfl := Option.some.inj hstep
        exact good_throttle htracked hsmall
    · cases hstep
  | interrupt =>
    simp only [next] at hstep
    split at hstep
    · cases hstep
    · obtain rfl := Option.some.inj hstep
      exact h.setLoop (by simp)
  | stop =>
    obtain rfl := Option.some.inj hstep
    exact h.shrink subset_rfl subset_rfl h.tracked rfl

theorem good_of_trace {as : List Act} (hmax : 1 < maxWorkers)
    (h : Trace (consumer maxWorkers) free as s) : Good maxWorkers s := by
  refine Trace.invariant (M := consumer maxWorkers) (P := Good maxWorkers) ?_
    (fun _ _ _ hs hstep => good_step hmax hs hstep) h
  rintro s rfl
  refine ⟨?_, ?_, fun fs heq => by cases heq⟩
  · simp [live]
  · simp only [members, Finset.card_empty]
    omega

/-- In every run with several workers the tasks are bounded and tracked. -/
theorem tasks_bounded {as : List Act} (hmax : 1 < maxWorkers)
    (h : Trace (consumer maxWorkers) free as s) : Bounded maxWorkers s := by
  have hgood := good_of_trace hmax h
  refine ⟨?_, fun i hi => hgood.tracked hi, ?_⟩
  · have hcard := Finset.card_le_card hgood.tracked
    have hsmall := hgood.small
    omega
  · intro s' hstep i hi
    obtain rfl := Option.some.inj hstep
    refine ⟨Finset.mem_union_right _ (Finset.mem_filter.mpr ⟨hgood.tracked hi, hi⟩), ?_⟩
    exact hgood.tracked hi

/-- The first task ends while the loop waits; the second one stays in the set that replaces the
one its callback is bound to. -/
theorem tasks_bounded_two : ∃ s, Trace (consumer 2) free
      [.start, .receive, .receive, .receive, .finish 0 .returned, .resume, .finish 1 .raised,
        .discard 1] s ∧
    s.live = {2} ∧ s.members = {1, 2} ∧ Bounded 2 s := by
  have h : (replay (consumer 2) free []
      [.start, .receive, .receive, .receive, .finish 0 .returned, .resume, .finish 1 .raised,
        .discard 1] {}).map (fun s => (s.live, s.members)) = some ({2}, {1, 2}) := by
    decide +kernel
  obtain ⟨s, hrun, hs⟩ := Option.map_eq_some_iff.mp h
  obtain ⟨hlive, hmembers⟩ := Prod.mk.inj hs
  have htrace := trace_of_replay (M := consumer 2) rfl hrun
  exact ⟨s, htrace, hlive, hmembers, tasks_bounded (by decide) htrace⟩

end Taas.ConsumerTasks
