import Mathlib.Algebra.BigOperators.Group.Finset.Basic
import Mathlib.Algebra.Order.BigOperators.Group.Finset
import Taas.AsyncioTasks
import Taas.Transition

/-!
The life cycle of a worker. Its main task waits for the worker tasks, some of which run a poller
that has loops of its own, and shuts down when one fails, when all have ended or on a signal: it
stops the pollers, cancels its tasks, and stops the messaging service and the health server. Tasks
end while it waits.
-/
namespace Taas.Workers

open Asyncio Transition

/-- The worker tasks `J` and the loops `L` of the pollers that some of them run. -/
structure Layout (J L : Type) where
  healthCheckEnabled : Bool
  pollers : List J
  owner : L → J
  nodup : pollers.Nodup
  owned : ∀ l, owner l ∈ pollers

/-- What `main` waits for. -/
inductive Point (J : Type)
  | startingServer
  | working
  /-- `stop` of a poller waits for the loops. Other pollers are to be stopped then. -/
  | stoppingPoller (poller : J) (rest : List J)
  | awaitingTasks
  | stoppingMessaging
  | stoppingServer
  | awaitingHealth
  | ended
  /-- The second signal ends the process at once. -/
  | killed
  deriving DecidableEq

/-- `polling` has the flags `_running` of the pollers. `stops` counts the calls of
`messaging_service.stop`. -/
structure State (J L : Type) where
  point : Point J
  /-- `start` has come to its `try`, and calls `shutdown` itself. -/
  inStart : Bool := false
  running : Bool := true
  shutdownRequested : Bool := false
  job : J → TaskState := fun _ => {}
  loop : L → TaskState := fun _ => {}
  polling : J → Bool := fun _ => true
  health : TaskState := {}
  stops : ℕ := 0

inductive Act (J L : Type)
  | signal
  | jobEnds (j : J) (outcome : Outcome)
  | loopEnds (l : L) (outcome : Outcome)
  | healthEnds (outcome : Outcome)
  /-- `main` goes on. What it has waited for outside the worker has returned, or has raised. -/
  | resume (ok : Bool)
  deriving DecidableEq

variable {J L : Type} [DecidableEq J] [DecidableEq L] [Fintype J] [Fintype L]

/-- The future that `run` of a poller waits for. -/
def runGather (c : Layout J L) (s : State J L) (j : J) : Option Outcome :=
  gather (fun l : {l // c.owner l = j} => s.loop l) (s.job j).asked

def State.allDone (s : State J L) : Prop := (∀ j, (s.job j).done) ∧ s.health.done

instance (s : State J L) : Decidable s.allDone := inferInstanceAs (Decidable (_ ∧ _))

/-- Cancel the tasks of `_owned_pending_tasks`. A `run` that waits for loops hands that on to
them. -/
def cancelOwned (c : Layout J L) (s : State J L) : State J L :=
  { s with
    job := fun j => (s.job j).cancel
    loop := fun l =>
      if (s.job (c.owner l)).done = false ∧ runGather c s (c.owner l) = none then (s.loop l).cancel
      else s.loop l
    health := s.health.cancel }

def endOfMain (s : State J L) : State J L :=
  if s.health.done then { s with point := .ended }
  else { s with health := s.health.cancel, point := .awaitingHealth }

/-- After `shutdown`, which raised or not. One that `main` has called itself ends it when it
raises. -/
def afterShutdown (s : State J L) (raised : Bool) : State J L :=
  if s.inStart || !raised then endOfMain s else { s with point := .ended }

def stopMessaging (s : State J L) : State J L :=
  { s with stops := s.stops + 1, point := .stoppingMessaging }

/-- `shutdown` of the base class. -/
def baseShutdown (c : Layout J L) (s : State J L) : State J L :=
  if s.running then
    if s.allDone then stopMessaging { s with running := false }
    else { cancelOwned c { s with running := false } with point := .awaitingTasks }
  else afterShutdown s false

/-- Stop the pollers, and then the worker. -/
def stopPollers (c : Layout J L) (s : State J L) : List J → State J L
  | [] => baseShutdown c s
  | j :: rest =>
    if s.polling j then
      { s with
        polling := Function.update s.polling j false
        loop := fun l => if c.owner l = j then (s.loop l).cancel else s.loop l
        point := .stoppingPoller j rest }
    else stopPollers c s rest

def shutdown (c : Layout J L) (s : State J L) : State J L := stopPollers c s c.pollers

def resume (c : Layout J L) (s : State J L) (ok : Bool) : Option (State J L) :=
  match s.point with
  | .startingServer => some (if ok then { s with point := .working } else shutdown c s)
  | .working =>
    if (gather s.job false).isSome then some (shutdown c { s with inStart := true }) else none
  | .stoppingPoller j rest =>
    if ∀ l, c.owner l = j → (s.loop l).done then some (stopPollers c s rest) else none
  -- a timeout also waits until all have ended
  | .awaitingTasks => if s.allDone then some (stopMessaging s) else none
  | .stoppingMessaging =>
    some (if !ok then afterShutdown s true
      else if c.healthCheckEnabled then { s with point := .stoppingServer }
      else afterShutdown s false)
  | .stoppingServer => some (afterShutdown s !ok)
  | .awaitingHealth => if s.health.done then some { s with point := .ended } else none
  | .ended | .killed => none

def handleShutdown (c : Layout J L) (s : State J L) : State J L :=
  if s.shutdownRequested then { s with point := .killed }
  else if s.running then cancelOwned c { s with shutdownRequested := true }
  else { s with shutdownRequested := true }

/-- A worker whose tasks have begun, when `main` first waits. Without a task it raises
`No workers enabled!` before that. -/
def begun (c : Layout J L) : State J L :=
  { point :=
      if Fintype.card J = 0 then .ended
      else if c.healthCheckEnabled then .startingServer else .working }

def workers (c : Layout J L) : System (State J L) (Act J L) where
  init s := s = begun c
  next s act :=
    if s.point = .killed then none
    else
      match act with
      | .signal => if s.point = .ended then none else some (handleShutdown c s)
      | .jobEnds j outcome =>
        if (s.job j).done = false ∧ (j ∈ c.pollers → runGather c s j = some outcome) then
          some { s with job := Function.update s.job j ((s.job j).finish outcome) }
        else none
      | .loopEnds l outcome =>
        if (s.loop l).done = false then
          some { s with loop := Function.update s.loop l ((s.loop l).finish outcome) }
        else none
      | .healthEnds outcome =>
        if s.health.done = false then some { s with health := s.health.finish outcome } else none
      | .resume ok => resume c s ok

/-- No task of the worker runs any more. -/
def State.Quiet (s : State J L) : Prop := s.allDone ∧ ∀ l, (s.loop l).done

/-- The messaging service is stopped at most once, when no task of the worker runs any more, and it
has been stopped when a worker with tasks has ended. -/
structure Orderly (s : State J L) : Prop where
  once : s.stops ≤ 1
  last : 0 < s.stops → s.Quiet
  atEnd : s.point = .ended → IsEmpty J ∨ s.stops = 1

variable {c : Layout J L} {s s' : State J L} {act : Act J L} {j : J}

/-- The pending job knows that it should end, or its loops do that it waits for. -/
structure Told (c : Layout J L) (s : State J L) (j : J) : Prop where
  job : (s.job j).told
  loops : (s.job j).done = false → runGather c s j = none → ∀ l, c.owner l = j → (s.loop l).told

/-- What the tasks can have become. -/
structure Later (s s' : State J L) : Prop where
  job : ∀ j, (s.job j).Le (s'.job j)
  loop : ∀ l, (s.loop l).Le (s'.loop l)
  health : s.health.Le s'.health

/-- What changes while `main` waits. -/
structure Frame (s s' : State J L) : Prop extends Later s s' where
  point : s'.point = s.point
  inStart : s'.inStart = s.inStart
  running : s'.running = s.running
  shutdownRequested : s'.shutdownRequested = s.shutdownRequested
  polling : s'.polling = s.polling
  stops : s'.stops = s.stops

namespace Frame

omit [DecidableEq J] [DecidableEq L] [Fintype J] [Fintype L]

theorem quiet (h : Frame s s') (hs : s.Quiet) : s'.Quiet :=
  ⟨⟨fun j => (h.job j).done (hs.1.1 j), h.health.done hs.1.2⟩,
    fun l => (h.loop l).done (hs.2 l)⟩

variable [DecidableEq J] [Fintype L]

theorem runGather_none (h : Frame s s') (hnone : runGather c s' j = none) :
    runGather c s j = none := by
  cases hs : runGather c s j with
  | none => rfl
  | some o =>
    have hsome : (runGather c s' j).isSome :=
      gather_mono (fun l => h.loop l) (Option.isSome_iff_exists.mpr ⟨o, hs⟩)
    rw [hnone] at hsome
    cases hsome

theorem told (h : Frame s s') (hs : Told c s j) : Told c s' j where
  job := (h.job j).told hs.job
  loops hpending hnone l hl := by
    have hpending' : (s.job j).done = false := by
      by_contra hdone
      rw [(h.job j).done (by simpa using hdone)] at hpending
      cases hpending
    exact (h.loop l).told (hs.loops hpending' (h.runGather_none hnone) l hl)

end Frame

omit [DecidableEq L] [Fintype J] in
theorem frame_cancelOwned (c : Layout J L) (s : State J L) : Frame s (cancelOwned c s) where
  point := rfl
  inStart := rfl
  running := rfl
  shutdownRequested := rfl
  polling := rfl
  stops := rfl
  job j := (s.job j).le_cancel
  loop l := by
    simp only [cancelOwned]
    split
    · exact (s.loop l).le_cancel
    · exact TaskState.Le.refl _
  health := s.health.le_cancel

omit [DecidableEq L] [Fintype J] in
theorem told_cancelOwned (c : Layout J L) (s : State J L) (j : J) : Told c (cancelOwned c s) j where
  job := (s.job j).told_cancel
  loops hpending hnone l hl := by
    subst hl
    have hpending' : (s.job (c.owner l)).done = false := by
      simpa [cancelOwned] using hpending
    have hnone' := (frame_cancelOwned c s).runGather_none hnone
    simp only [cancelOwned, if_pos (And.intro hpending' hnone')]
    exact (s.loop l).told_cancel

/-- What holds where `main` waits. -/
def Good (c : Layout J L) (s : State J L) : Prop :=
  match s.point with
  | .startingServer | .working => s.stops = 0 ∧ s.running ∧ (∀ j ∈ c.pollers, s.polling j) ∧
      (s.shutdownRequested → ∀ j, Told c s j)
  | .stoppingPoller j rest => s.stops = 0 ∧ s.running ∧ (j :: rest).Nodup ∧
      (∀ i ∈ rest, s.polling i) ∧ (∀ l, c.owner l ∉ j :: rest → (s.loop l).done) ∧
      ∀ l, c.owner l = j → (s.loop l).told
  | .awaitingTasks => s.stops = 0 ∧ s.running = false ∧ (∀ l, (s.loop l).done) ∧
      (∀ j, Told c s j) ∧ s.health.told
  | .stoppingMessaging | .stoppingServer | .awaitingHealth =>
    s.stops = 1 ∧ s.running = false ∧ s.Quiet
  | .ended => IsEmpty J ∧ s.stops = 0 ∨ s.stops = 1 ∧ s.running = false ∧ s.Quiet
  | .killed => s.stops ≤ 1 ∧ (0 < s.stops → s.Quiet)

omit [DecidableEq L] [Fintype J] in
theorem Good.frame (h : Good c s) (hf : Frame s s') : Good c s' := by
  unfold Good at h ⊢
  rw [hf.point, hf.stops, hf.running, hf.polling, hf.shutdownRequested]
  cases hpoint : s.point with
  | startingServer =>
    simp only [hpoint] at h
    exact ⟨h.1, h.2.1, h.2.2.1, fun hreq j => hf.told (h.2.2.2 hreq j)⟩
  | working =>
    simp only [hpoint] at h
    exact ⟨h.1, h.2.1, h.2.2.1, fun hreq j => hf.told (h.2.2.2 hreq j)⟩
  | stoppingPoller j rest =>
    simp only [hpoint] at h
    obtain ⟨hstops, hrunning, hnodup, hpolling, hdone, htold⟩ := h
    exact ⟨hstops, hrunning, hnodup, hpolling, fun l hl => (hf.loop l).done (hdone l hl),
      fun l hl => (hf.loop l).told (htold l hl)⟩
  | awaitingTasks =>
    simp only [hpoint] at h
    obtain ⟨hstops, hrunning, hdone, htold, hhealth⟩ := h
    exact ⟨hstops, hrunning, fun l => (hf.loop l).done (hdone l), fun j => hf.told (htold j),
      hf.health.told hhealth⟩
  | stoppingMessaging =>
    simp only [hpoint] at h
    exact ⟨h.1, h.2.1, hf.quiet h.2.2⟩
  | stoppingServer =>
    simp only [hpoint] at h
    exact ⟨h.1, h.2.1, hf.quiet h.2.2⟩
  | awaitingHealth =>
    simp only [hpoint] at h
    exact ⟨h.1, h.2.1, hf.quiet h.2.2⟩
  | ended =>
    simp only [hpoint] at h
    exact h.imp_right fun hover => ⟨hover.1, hover.2.1, hf.quiet hover.2.2⟩
  | killed =>
    simp only [hpoint] at h
    exact ⟨h.1, fun hpos => hf.quiet (h.2 hpos)⟩

omit [DecidableEq L] [Fintype J] in
theorem Told.move (h : Told c s j) (p : Point J) (b : Bool) :
    Told c { s with point := p, shutdownRequested := b } j :=
  ⟨h.job, h.loops⟩

omit [DecidableEq L] in
theorem good_baseShutdown (hstops : s.stops = 0) (hrunning : s.running = true)
    (hloops : ∀ l, (s.loop l).done) : Good c (baseShutdown c s) := by
  unfold baseShutdown
  rw [if_pos hrunning]
  split
  · rename_i hall
    simp only [Good, stopMessaging]
    exact ⟨by rw [hstops], trivial, hall, hloops⟩
  · have hf := frame_cancelOwned c { s with running := false }
    simp only [Good]
    exact ⟨hstops, hf.running, fun l => (hf.loop l).done (hloops l),
      fun j => (told_cancelOwned c { s with running := false } j).move _ _, s.health.told_cancel⟩

omit [DecidableEq L] in
theorem good_stopPollers {rest : List J} (hstops : s.stops = 0) (hrunning : s.running = true)
    (hnodup : rest.Nodup) (hpolling : ∀ i ∈ rest, s.polling i = true)
    (hloops : ∀ l, c.owner l ∉ rest → (s.loop l).done = true) :
    Good c (stopPollers c s rest) := by
  cases rest with
  | nil => exact good_baseShutdown hstops hrunning fun l => hloops l List.not_mem_nil
  | cons j rest =>
    rw [stopPollers, if_pos (hpolling j List.mem_cons_self)]
    simp only [Good]
    refine ⟨hstops, hrunning, hnodup, fun i hi => ?_, fun l hl => ?_, fun l hl => ?_⟩
    · have hne : i ≠ j := fun heq => (List.nodup_cons.mp hnodup).1 (heq ▸ hi)
      rw [Function.update_of_ne hne]
      exact hpolling i (List.mem_cons_of_mem j hi)
    · have hne : c.owner l ≠ j := fun heq => hl (heq ▸ List.mem_cons_self)
      rw [if_neg hne]
      exact hloops l hl
    · rw [if_pos hl]
      exact (s.loop l).told_cancel

omit [DecidableEq L] in
theorem good_shutdown (hstops : s.stops = 0) (hrunning : s.running = true)
    (hpolling : ∀ j ∈ c.pollers, s.polling j = true) : Good c (shutdown c s) :=
  good_stopPollers hstops hrunning c.nodup hpolling fun l hl => absurd (c.owned l) hl

omit [DecidableEq L] [Fintype J] in
theorem good_afterShutdown (hstops : s.stops = 1) (hrunning : s.running = false) (hquiet : s.Quiet)
    (raised : Bool) : Good c (afterShutdown s raised) := by
  unfold afterShutdown
  split
  · rw [endOfMain, if_pos hquiet.1.2]
    exact Or.inr ⟨hstops, hrunning, hquiet⟩
  · exact Or.inr ⟨hstops, hrunning, hquiet⟩

omit [DecidableEq L] in
theorem Good.resume {ok : Bool} (h : Good c s) (hnext : resume c s ok = some s') : Good c s' := by
  unfold Good at h
  unfold Workers.resume at hnext
  cases hpoint : s.point with
  | startingServer =>
    simp only [hpoint, Option.some.injEq] at h hnext
    obtain ⟨hstops, hrunning, hpolling, htold⟩ := h
    subst hnext
    split
    · exact ⟨hstops, hrunning, hpolling, fun hreq j => (htold hreq j).move _ _⟩
    · exact good_shutdown hstops hrunning hpolling
  | working =>
    simp only [hpoint, Option.ite_none_right_eq_some, Option.some.injEq] at h hnext
    obtain ⟨hstops, hrunning, hpolling, -⟩ := h
    obtain ⟨-, rfl⟩ := hnext
    exact good_shutdown hstops hrunning hpolling
  | stoppingPoller j rest =>
    simp only [hpoint, Option.ite_none_right_eq_some, Option.some.injEq] at h hnext
    obtain ⟨hstops, hrunning, hnodup, hpolling, hloops, -⟩ := h
    obtain ⟨hdone, rfl⟩ := hnext
    refine good_stopPollers hstops hrunning hnodup.of_cons hpolling fun l hl => ?_
    by_cases hj : c.owner l = j
    · exact hdone l hj
    · exact hloops l fun hmem => (List.mem_cons.mp hmem).elim hj hl
  | awaitingTasks =>
    simp only [hpoint, Option.ite_none_right_eq_some, Option.some.injEq] at h hnext
    obtain ⟨hstops, hrunning, hloops, -, -⟩ := h
    obtain ⟨hall, rfl⟩ := hnext
    exact ⟨by rw [stopMessaging, hstops], hrunning, hall, hloops⟩
  | stoppingMessaging =>
    simp only [hpoint, Option.some.injEq] at h hnext
    subst hnext
    split
    · exact good_afterShutdown h.1 h.2.1 h.2.2 true
    · split
      · exact h
      · exact good_afterShutdown h.1 h.2.1 h.2.2 false
  | stoppingServer =>
    simp only [hpoint, Option.some.injEq] at h hnext
    subst hnext
    exact good_afterShutdown h.1 h.2.1 h.2.2 (!ok)
  | awaitingHealth =>
    simp only [hpoint, Option.ite_none_right_eq_some, Option.some.injEq] at h hnext
    obtain ⟨-, rfl⟩ := hnext
    exact Or.inr h
  | ended => simp [hpoint] at hnext
  | killed => simp [hpoint] at hnext

omit [DecidableEq L] [Fintype J] in
theorem Good.kill (h : Good c s) : s.stops ≤ 1 ∧ (0 < s.stops → s.Quiet) := by
  unfold Good at h
  cases hpoint : s.point with
  | startingServer | working | stoppingPoller | awaitingTasks =>
    simp only [hpoint] at h
    exact ⟨by omega, fun hpos => by omega⟩
  | stoppingMessaging | stoppingServer | awaitingHealth =>
    simp only [hpoint] at h
    exact ⟨h.1.le, fun _ => h.2.2⟩
  | ended =>
    simp only [hpoint] at h
    rcases h with ⟨-, hstops⟩ | ⟨hstops, -, hquiet⟩
    · exact ⟨by omega, fun hpos => by omega⟩
    · exact ⟨hstops.le, fun _ => hquiet⟩
  | killed =>
    simp only [hpoint] at h
    exact h

omit [DecidableEq L] [Fintype J] in
theorem Good.request (h : Good c s) (htold : s.running = true → ∀ j, Told c s j) :
    Good c { s with shutdownRequested := true } := by
  unfold Good at h ⊢
  cases hpoint : s.point with
  | startingServer | working =>
    simp only [hpoint] at h
    exact ⟨h.1, h.2.1, h.2.2.1, fun _ j => (htold h.2.1 j).move _ _⟩
  | stoppingPoller | stoppingMessaging | stoppingServer | awaitingHealth | ended | killed =>
    simp only [hpoint] at h
    exact h
  | awaitingTasks =>
    simp only [hpoint] at h
    obtain ⟨hstops, hrunning, hloops, htold, hhealth⟩ := h
    exact ⟨hstops, hrunning, hloops, fun j => (htold j).move _ _, hhealth⟩

omit [DecidableEq L] [Fintype J] in
theorem Good.signal (h : Good c s) : Good c (handleShutdown c s) := by
  unfold handleShutdown
  split
  · exact h.kill
  · split
    · exact (h.frame (frame_cancelOwned c s)).request fun _ => told_cancelOwned c s
    · rename_i hrunning
      exact h.request fun hrun => absurd hrun hrunning

omit [DecidableEq L] [Fintype J] [Fintype L] in
theorem frame_jobEnds (hpending : (s.job j).done = false) (o : Outcome) :
    Frame s { s with job := Function.update s.job j ((s.job j).finish o) } where
  point := rfl
  inStart := rfl
  running := rfl
  shutdownRequested := rfl
  polling := rfl
  stops := rfl
  job i := by
    rcases eq_or_ne i j with rfl | hne
    · simpa using TaskState.le_finish hpending o
    · simpa [hne] using TaskState.Le.refl _
  loop _ := TaskState.Le.refl _
  health := TaskState.Le.refl _

omit [DecidableEq J] [Fintype J] [Fintype L] in
theorem frame_loopEnds {l : L} (hpending : (s.loop l).done = false) (o : Outcome) :
    Frame s { s with loop := Function.update s.loop l ((s.loop l).finish o) } where
  point := rfl
  inStart := rfl
  running := rfl
  shutdownRequested := rfl
  polling := rfl
  stops := rfl
  job _ := TaskState.Le.refl _
  loop i := by
    rcases eq_or_ne i l with rfl | hne
    · simpa using TaskState.le_finish hpending o
    · simpa [hne] using TaskState.Le.refl _
  health := TaskState.Le.refl _

omit [DecidableEq J] [DecidableEq L] [Fintype J] [Fintype L] in
theorem frame_healthEnds (hpending : s.health.done = false) (o : Outcome) :
    Frame s { s with health := s.health.finish o } where
  point := rfl
  inStart := rfl
  running := rfl
  shutdownRequested := rfl
  polling := rfl
  stops := rfl
  job _ := TaskState.Le.refl _
  loop _ := TaskState.Le.refl _
  health := TaskState.le_finish hpending o

/-- How many tasks have not ended. -/
def State.pending (s : State J L) : ℕ :=
  (∑ j, (s.job j).left) + (∑ l, (s.loop l).left) + s.health.left

omit [DecidableEq L] in
theorem pending_jobEnds (hpending : (s.job j).done = false) (o : Outcome) :
    State.pending { s with job := Function.update s.job j ((s.job j).finish o) } < s.pending := by
  have hsum := sum_update s.job j ((s.job j).finish o) TaskState.left
  have hlt := TaskState.left_finish_lt hpending o
  simp only [State.pending]
  omega

omit [DecidableEq J] in
theorem pending_loopEnds {l : L} (hpending : (s.loop l).done = false) (o : Outcome) :
    State.pending { s with loop := Function.update s.loop l ((s.loop l).finish o) } <
      s.pending := by
  have hsum := sum_update s.loop l ((s.loop l).finish o) TaskState.left
  have hlt := TaskState.left_finish_lt hpending o
  simp only [State.pending]
  omega

omit [DecidableEq J] [DecidableEq L] in
theorem pending_healthEnds (hpending : s.health.done = false) (o : Outcome) :
    State.pending { s with health := s.health.finish o } < s.pending := by
  have hlt := TaskState.left_finish_lt hpending o
  simp only [State.pending]
  omega

/-- A step of the process. -/
inductive Move (c : Layout J L) (s : State J L) : Act J L → State J L → Prop
  | signal : s.point ≠ .ended → Move c s .signal (handleShutdown c s)
  | ends (act : Act J L) (s' : State J L) :
      Frame s s' → s'.pending < s.pending → Move c s act s'
  | resume (ok : Bool) (s' : State J L) :
      Workers.resume c s ok = some s' → Move c s (.resume ok) s'

theorem move_of_next (h : (workers c).next s act = some s') : Move c s act s' := by
  simp only [workers, Option.ite_none_left_eq_some] at h
  obtain ⟨-, h⟩ := h
  cases act with
  | signal =>
    simp only [Option.ite_none_left_eq_some, Option.some.injEq] at h
    obtain ⟨hover, rfl⟩ := h
    exact .signal hover
  | jobEnds j o =>
    simp only [Option.ite_none_right_eq_some, Option.some.injEq] at h
    obtain ⟨hpending, rfl⟩ := h
    exact .ends _ _ (frame_jobEnds hpending.1 o) (pending_jobEnds hpending.1 o)
  | loopEnds l o =>
    simp only [Option.ite_none_right_eq_some, Option.some.injEq] at h
    obtain ⟨hpending, rfl⟩ := h
    exact .ends _ _ (frame_loopEnds hpending o) (pending_loopEnds hpending o)
  | healthEnds o =>
    simp only [Option.ite_none_right_eq_some, Option.some.injEq] at h
    obtain ⟨hpending, rfl⟩ := h
    exact .ends _ _ (frame_healthEnds hpending o) (pending_healthEnds hpending o)
  | resume ok => exact .resume ok s' h

omit [DecidableEq L] in
theorem Good.move (h : Good c s) (hmove : Move c s act s') : Good c s' := by
  cases hmove with
  | signal hover => exact h.signal
  | ends act s' hf _ => exact h.frame hf
  | resume ok s' hnext => exact h.resume hnext

theorem good_of_trace {acts : List (Act J L)} (h : Trace (workers c) free acts s) : Good c s := by
  refine h.invariant (P := Good c) ?_ fun s act s' hs hnext => hs.move (move_of_next hnext)
  rintro s rfl
  by_cases hcard : Fintype.card J = 0
  · have hempty : IsEmpty J := Fintype.card_eq_zero_iff.mp hcard
    simp [Good, begun, hempty]
  · cases henabled : c.healthCheckEnabled <;> simp [Good, begun, henabled, hcard]

/-- A worker with two pollers of two loops each. -/
def outboxWorker : Layout Bool (Bool × Bool) where
  healthCheckEnabled := true
  pollers := [false, true]
  owner l := l.1
  nodup := by decide
  owned := by decide

/-- A loop fails and with it its poller. The signal comes while the other poller is stopped. -/
def failedLoop : List (Act Bool (Bool × Bool)) :=
  [.resume true, .loopEnds (false, false) .failed, .jobEnds false .failed, .resume true,
    .loopEnds (false, true) .returned, .resume true, .loopEnds (true, false) .failed, .signal,
    .loopEnds (true, true) .returned, .resume true, .jobEnds true .failed, .healthEnds .failed,
    .resume true, .resume false]

/-- `main` shuts down, or has. -/
def Point.shutting : Point J → Bool
  | .startingServer | .working | .killed => false
  | .stoppingPoller _ _ | .awaitingTasks | .stoppingMessaging | .stoppingServer
  | .awaitingHealth | .ended => true

/-- How often `main` goes on before its end. -/
def Point.rank (c : Layout J L) : Point J → ℕ
  | .startingServer => c.pollers.length + 6
  | .working => c.pollers.length + 5
  | .stoppingPoller _ rest => rest.length + 5
  | .awaitingTasks => 4
  | .stoppingMessaging => 3
  | .stoppingServer => 2
  | .awaitingHealth => 1
  | .ended | .killed => 0

/-- A signal has come, a worker task has failed or all have ended, or `main` shuts down. -/
def State.Doomed (s : State J L) : Prop :=
  s.point.shutting ∨ (s.point = .startingServer ∨ s.point = .working) ∧
    (s.shutdownRequested ∨ (gather s.job false).isSome)

/-- What comes by itself: a task ends when it has been asked to, the `run` of a poller when what it
waits for is done, and `main` goes on. -/
def Due (c : Layout J L) (s : State J L) : Act J L → Prop
  | .signal => False
  | .jobEnds j _ => (s.job j).asked ∨ j ∈ c.pollers
  | .loopEnds l _ => (s.loop l).asked
  | .healthEnds _ => s.health.asked
  | .resume _ => True

/-- No further signal comes. -/
def noSignal : Condition (State J L) (Act J L) := fun _ _ act => act ≠ .signal

instance {l : List (Act J L)} : Decidable (noSignal l s act) :=
  inferInstanceAs (Decidable (act ≠ .signal))

def State.left (c : Layout J L) (s : State J L) : ℕ := s.pending + s.point.rank c

/-- `main` shuts down, at most `n` waits before its end. -/
structure Descends (c : Layout J L) (s s' : State J L) (n : ℕ) : Prop extends Later s s' where
  rank : s'.point.rank c ≤ n
  shutting : s'.point.shutting

omit [DecidableEq J] [DecidableEq L] [Fintype J] [Fintype L] in
theorem Later.of_eq (hjob : s'.job = s.job) (hloop : s'.loop = s.loop)
    (hhealth : s'.health = s.health) : Later s s' :=
  ⟨fun _ => hjob ▸ TaskState.Le.refl _, fun _ => hloop ▸ TaskState.Le.refl _,
    hhealth ▸ TaskState.Le.refl _⟩

omit [DecidableEq J] [DecidableEq L] in
theorem Later.pending (h : Later s s') : s'.pending ≤ s.pending := by
  have hjob : ∑ j, (s'.job j).left ≤ ∑ j, (s.job j).left :=
    Finset.sum_le_sum fun j _ => (h.job j).left
  have hloop : ∑ l, (s'.loop l).left ≤ ∑ l, (s.loop l).left :=
    Finset.sum_le_sum fun l _ => (h.loop l).left
  have hhealth := h.health.left
  unfold State.pending
  omega

omit [DecidableEq J] [DecidableEq L] [Fintype J] [Fintype L] in
theorem descends_afterShutdown (c : Layout J L) (s : State J L) (raised : Bool) :
    Descends c s (afterShutdown s raised) 1 := by
  unfold afterShutdown
  split
  · unfold endOfMain
    split
    · exact ⟨Later.of_eq rfl rfl rfl, Nat.zero_le _, rfl⟩
    · exact ⟨⟨fun _ => TaskState.Le.refl _, fun _ => TaskState.Le.refl _, s.health.le_cancel⟩,
        le_rfl, rfl⟩
  · exact ⟨Later.of_eq rfl rfl rfl, Nat.zero_le _, rfl⟩

omit [DecidableEq L] in
theorem descends_baseShutdown (c : Layout J L) (s : State J L) :
    Descends c s (baseShutdown c s) 4 := by
  unfold baseShutdown
  split
  · split
    · exact ⟨Later.of_eq rfl rfl rfl, Nat.le_succ 3, rfl⟩
    · have hf := frame_cancelOwned c { s with running := false }
      exact ⟨⟨hf.job, hf.loop, hf.health⟩, le_rfl, rfl⟩
  · have h := descends_afterShutdown c s false
    exact ⟨h.toLater, h.rank.trans (by decide), h.shutting⟩

omit [DecidableEq L] in
theorem descends_stopPollers (c : Layout J L) (s : State J L) (rest : List J) :
    Descends c s (stopPollers c s rest) (rest.length + 4) := by
  induction rest with
  | nil => exact descends_baseShutdown c s
  | cons j rest ih =>
    rw [stopPollers]
    split
    · refine ⟨⟨fun _ => TaskState.Le.refl _, fun l => ?_, TaskState.Le.refl _⟩, ?_, rfl⟩
      · simp only
        split
        · exact (s.loop l).le_cancel
        · exact TaskState.Le.refl _
      · simp only [Point.rank, List.length_cons]
        omega
    · have hle : rest.length + 4 ≤ (j :: rest).length + 4 := by simp
      exact ⟨ih.toLater, ih.rank.trans hle, ih.shutting⟩

omit [DecidableEq L] in
theorem resume_descends {ok : Bool} (h : resume c s ok = some s') :
    Later s s' ∧ s'.point.rank c < s.point.rank c ∧
      (s'.point.shutting ∨ s.point = .startingServer ∧ s' = { s with point := .working }) := by
  have hdown : ∀ {n : ℕ} {t : State J L} {p : Point J}, Descends c s t n → n < p.rank c →
      Later s t ∧ t.point.rank c < p.rank c ∧
        (t.point.shutting ∨ p = .startingServer ∧ t = { s with point := .working }) :=
    fun ht hn => ⟨ht.toLater, ht.rank.trans_lt hn, Or.inl ht.shutting⟩
  unfold resume at h
  cases hpoint : s.point with
  | startingServer =>
    simp only [hpoint, Option.some.injEq] at h
    subst h
    split
    · exact ⟨Later.of_eq rfl rfl rfl, by simp [Point.rank], Or.inr ⟨rfl, rfl⟩⟩
    · exact hdown (descends_stopPollers c s c.pollers) (by simp [Point.rank])
  | working =>
    simp only [hpoint, Option.ite_none_right_eq_some, Option.some.injEq] at h
    obtain ⟨-, rfl⟩ := h
    have hstop := descends_stopPollers c { s with point := .working, inStart := true } c.pollers
    exact hdown ⟨⟨hstop.job, hstop.loop, hstop.health⟩, hstop.rank, hstop.shutting⟩
      (by simp [Point.rank])
  | stoppingPoller j rest =>
    simp only [hpoint, Option.ite_none_right_eq_some, Option.some.injEq] at h
    obtain ⟨-, rfl⟩ := h
    exact hdown (descends_stopPollers c s rest) (by simp [Point.rank])
  | awaitingTasks =>
    simp only [hpoint, Option.ite_none_right_eq_some, Option.some.injEq] at h
    obtain ⟨-, rfl⟩ := h
    exact ⟨Later.of_eq rfl rfl rfl, by simp [stopMessaging, Point.rank], Or.inl rfl⟩
  | stoppingMessaging =>
    simp only [hpoint, Option.some.injEq] at h
    subst h
    split
    · exact hdown (descends_afterShutdown c s true) (by simp [Point.rank])
    · split
      · exact ⟨Later.of_eq rfl rfl rfl, by simp [Point.rank], Or.inl rfl⟩
      · exact hdown (descends_afterShutdown c s false) (by simp [Point.rank])
  | stoppingServer =>
    simp only [hpoint, Option.some.injEq] at h
    subst h
    exact hdown (descends_afterShutdown c s (!ok)) (by simp [Point.rank])
  | awaitingHealth =>
    simp only [hpoint, Option.ite_none_right_eq_some, Option.some.injEq] at h
    obtain ⟨-, rfl⟩ := h
    exact ⟨Later.of_eq rfl rfl rfl, by simp [Point.rank], Or.inl rfl⟩
  | ended => simp [hpoint] at h
  | killed => simp [hpoint] at h

omit [DecidableEq J] [DecidableEq L] [Fintype L] in
theorem Frame.doomed (hf : Frame s s') (h : s.Doomed) : s'.Doomed := by
  unfold State.Doomed at h ⊢
  rw [hf.point, hf.shutdownRequested]
  exact h.imp_right fun hwait => ⟨hwait.1, hwait.2.imp_right (gather_mono hf.job)⟩

omit [DecidableEq L] in
theorem doomed_resume {ok : Bool} (h : s.Doomed) (hnext : resume c s ok = some s') :
    s'.Doomed := by
  obtain ⟨-, -, hshutting | ⟨hpoint, rfl⟩⟩ := resume_descends hnext
  · exact Or.inl hshutting
  · have hwait : ¬s.point.shutting = true := by simp [hpoint, Point.shutting]
    exact Or.inr ⟨Or.inr rfl, (h.resolve_left hwait).2⟩

omit [DecidableEq L] in
/-- Without a signal every step brings the worker nearer to its end, and it stays doomed. -/
theorem doomed_move (h : s.Doomed) (hsignal : act ≠ .signal) (hmove : Move c s act s') :
    s'.Doomed ∧ s'.left c < s.left c := by
  unfold State.left
  cases hmove with
  | signal => exact absurd rfl hsignal
  | ends act s' hf hpending =>
    rw [hf.point]
    exact ⟨hf.doomed h, by omega⟩
  | resume ok s' hnext =>
    obtain ⟨hlater, hrank, -⟩ := resume_descends hnext
    have hpending := hlater.pending
    exact ⟨doomed_resume h hnext, by omega⟩

/-- Something that comes by itself can come. -/
def State.Goes (c : Layout J L) (s : State J L) : Prop :=
  ∃ act, Due c s act ∧ ((workers c).next s act).isSome

theorem goes_resume (h : (resume c s true).isSome) : s.Goes c := by
  refine ⟨.resume true, trivial, ?_⟩
  have hpoint : s.point ≠ .killed := by
    intro hkilled
    simp [resume, hkilled] at h
  simpa [workers, hpoint] using h

theorem goes_loop {l : L} (hpoint : s.point ≠ .killed) (hpending : (s.loop l).done = false)
    (htold : (s.loop l).told = true) : s.Goes c := by
  refine ⟨.loopEnds l .returned, TaskState.asked_of_told htold hpending, ?_⟩
  simp [workers, hpoint, hpending]

/-- A task that is to end ends, or one of the loops that it waits for does. -/
theorem goes_job (hpoint : s.point ≠ .killed) (hpending : (s.job j).done = false)
    (htold : Told c s j) : s.Goes c := by
  by_cases hpoller : j ∈ c.pollers
  · cases hrun : runGather c s j with
    | some o => exact ⟨.jobEnds j o, Or.inr hpoller, by simp [workers, hpoint, hpending, hrun]⟩
    | none =>
      obtain ⟨⟨l, hl⟩, hloop⟩ := exists_pending hrun
      exact goes_loop hpoint hloop (htold.loops hpending hrun l hl)
  · refine ⟨.jobEnds j .returned, Or.inl (TaskState.asked_of_told htold.job hpending), ?_⟩
    simp [workers, hpoint, hpending, hpoller]

theorem goes_health (hpoint : s.point ≠ .killed) (hpending : s.health.done = false)
    (htold : s.health.told = true) : s.Goes c := by
  refine ⟨.healthEnds .returned, TaskState.asked_of_told htold hpending, ?_⟩
  simp [workers, hpoint, hpending]

theorem Good.goes (h : Good c s) (hdoomed : s.Doomed) (hover : s.point ≠ .ended) : s.Goes c := by
  unfold Good at h
  cases hpoint : s.point with
  | startingServer => exact goes_resume (by simp [Workers.resume, hpoint])
  | working =>
    simp only [hpoint] at h
    cases hgather : gather s.job false with
    | some o => exact goes_resume (by simp [Workers.resume, hpoint, hgather])
    | none =>
      obtain ⟨j, hpending⟩ := exists_pending hgather
      have hrequested : s.shutdownRequested = true := by
        simpa [State.Doomed, hpoint, Point.shutting, hgather] using hdoomed
      exact goes_job (by simp [hpoint]) hpending (h.2.2.2 hrequested j)
  | stoppingPoller j rest =>
    simp only [hpoint] at h
    by_cases hall : ∀ l, c.owner l = j → (s.loop l).done
    · exact goes_resume (by simpa [Workers.resume, hpoint] using hall)
    · obtain ⟨l, hl⟩ := not_forall.mp hall
      obtain ⟨hl, hpending⟩ := Classical.not_imp.mp hl
      exact goes_loop (by simp [hpoint]) (by simpa using hpending) (h.2.2.2.2.2 l hl)
  | awaitingTasks =>
    simp only [hpoint] at h
    obtain ⟨-, -, -, htold, hhealth⟩ := h
    by_cases hall : s.allDone
    · exact goes_resume (by simp [Workers.resume, hpoint, hall])
    · rcases not_and_or.mp hall with hjobs | hdone
      · obtain ⟨j, hpending⟩ := not_forall.mp hjobs
        exact goes_job (by simp [hpoint]) (by simpa using hpending) (htold j)
      · exact goes_health (by simp [hpoint]) (by simpa using hdone) hhealth
  | stoppingMessaging => exact goes_resume (by simp [Workers.resume, hpoint])
  | stoppingServer => exact goes_resume (by simp [Workers.resume, hpoint])
  | awaitingHealth =>
    simp only [hpoint] at h
    exact goes_resume (by simp [Workers.resume, hpoint, h.2.2.1.2])
  | ended => exact absurd hpoint hover
  | killed => simp [State.Doomed, hpoint, Point.shutting] at hdoomed

theorem left_of_path {past acts : List (Act J L)} (hdoomed : s.Doomed)
    (h : Path (workers c) noSignal past s acts s') :
    s'.Doomed ∧ acts.length + s'.left c ≤ s.left c := by
  induction h with
  | nil => exact ⟨hdoomed, by simp⟩
  | snoc hpath hsignal hnext ih =>
    obtain ⟨hdoomed', hlt⟩ := doomed_move ih.1 hsignal (move_of_next hnext)
    refine ⟨hdoomed', ?_⟩
    simp only [List.length_append, List.length_singleton]
    omega

/-- After a signal or the failure of a task the worker ends without another signal. In whatever
order its tasks end and `main` goes on, that is at most `State.left` steps, and before the end of
`main` a step is due: a task that was asked to ends, the `run` of a poller whose loops have ended
does, or `main` goes on. -/
theorem worker_ends {past acts : List (Act J L)} (h : Trace (workers c) free past s)
    (hdoomed : s.Doomed) (hpath : Path (workers c) noSignal past s acts s') :
    acts.length ≤ s.left c ∧ (s'.point = .ended ∨ s'.Goes c) := by
  obtain ⟨hdoomed', hlength⟩ := left_of_path hdoomed hpath
  have hgood := good_of_trace (h.extend (hpath.mono fun _ _ _ _ _ => trivial))
  refine ⟨by omega, ?_⟩
  by_cases hover : s'.point = .ended
  · exact Or.inl hover
  · exact Or.inr (hgood.goes hdoomed' hover)

/-- A poller ends after a signal, and the first one is stopped. -/
theorem worker_ends_signalled :
    ∃ s s', replay (workers outboxWorker) free [] [.resume true, .signal] (begun outboxWorker) =
        some s ∧
      replay (workers outboxWorker) noSignal [.resume true, .signal]
        [.loopEnds (true, false) .failed, .jobEnds true .failed, .resume true] s = some s' ∧
      s'.point = .stoppingPoller false [true] ∧ 3 ≤ s.left outboxWorker ∧
      (s'.point = .ended ∨ s'.Goes outboxWorker) := by
  have h : ((replay (workers outboxWorker) free [] [.resume true, .signal]
      (begun outboxWorker)).bind fun s => (replay (workers outboxWorker) noSignal
        [.resume true, .signal]
        [.loopEnds (true, false) .failed, .jobEnds true .failed, .resume true] s).map
          fun s' => (s.point, s.shutdownRequested, s'.point)) =
      some (.working, true, .stoppingPoller false [true]) := by decide +kernel
  obtain ⟨s, hs, h⟩ := Option.bind_eq_some_iff.mp h
  obtain ⟨s', hs', h⟩ := Option.map_eq_some_iff.mp h
  simp only [Prod.mk.injEq] at h
  obtain ⟨hpoint, hrequested, hpoint'⟩ := h
  exact ⟨s, s', hs, hs', hpoint', worker_ends (trace_of_replay rfl hs)
    (Or.inr ⟨Or.inr hpoint, Or.inl hrequested⟩) (replay_path hs')⟩

end Taas.Workers
