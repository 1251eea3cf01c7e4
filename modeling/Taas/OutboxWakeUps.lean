import Mathlib.Algebra.Order.Floor.Ring
import Mathlib.Data.Rat.Floor
import Taas.AsyncioEvent
import Taas.Transition

/-!
The workers of the outbox poller and the event that wakes them. A worker polls, and then polls
again, or sleeps in `wait_for(event.wait(), seconds)` until it is woken or the time is up. Between
its resumption and its next poll a worker is not suspended, so that a step of it ends with the
start of a poll or with a sleep.
-/
namespace Taas.OutboxWakeUps

open Asyncio Transition

/-- The fields of `OutboxConfig` that decide on the drain mode. -/
structure Config where
  batchSize : ℕ := 100
  drainThresholdRatio : ℚ := 1

/-- `max(1, int(batch_size * drain_threshold_ratio))`. -/
def Config.drainThreshold (c : Config) : ℤ := max 1 ⌊c.batchSize * c.drainThresholdRatio⌋

/-- Where a worker is. One that sleeps has `expired` when its timer has fired and its task is
cancelled for that. -/
inductive Phase
  | staggered
  | polling
  | sleeping (expired : Bool)
  deriving DecidableEq

structure Poller (n : ℕ) where
  event : Event (Fin n) := {}
  worker : Fin n → Phase := fun _ => .staggered
  deriving DecidableEq

inductive Act (n : ℕ)
  | wake
  | staggerEnds (w : Fin n)
  /-- `_poll_and_publish` returns, and `_compute_next_sleep` has computed the seconds. -/
  | pollReturns (w : Fin n) (fetched : ℕ) (seconds : ℚ)
  | timerFires (w : Fin n)
  | resume (w : Fin n)

/-- The worker whose task runs. -/
def Act.worker {n : ℕ} : Act n → Option (Fin n)
  | .staggerEnds w | .pollReturns w _ _ | .resume w => some w
  | .wake | .timerFires _ => none

/-- What happens in a run: a call of `wake`, the start of a poll, and of a sleep a worker is
suspended in, and the end of a full sleep. -/
inductive Mark (n : ℕ)
  | woken
  | pollStarted (w : Fin n)
  | sleepStarted (w : Fin n)
  | sleptFull (w : Fin n)
  deriving DecidableEq

variable {n : ℕ}

def Poller.setWorker (s : Poller n) (w : Fin n) (x : Phase) : Poller n :=
  { s with worker := Function.update s.worker w x }

/-- The loop after a poll: drain mode, `_sleep_or_wake` without a sleep, a sleep that the event
ends at once, or a sleep. -/
def afterPoll (config : Config) (s : Poller n) (w : Fin n) (fetched : ℕ) (seconds : ℚ) :
    Poller n × List (Mark n) :=
  if config.drainThreshold ≤ fetched then (s, [.pollStarted w])
  else if seconds ≤ 0 then (s, [.pollStarted w])
  else if s.event.value then ({ s with event := s.event.clear }, [.pollStarted w])
  else ({ s.setWorker w (.sleeping false) with event := s.event.enqueue w }, [.sleepStarted w])

/-- A step and what happens in it. -/
def react (config : Config) (s : Poller n) : Act n → Option (Poller n × List (Mark n))
  | .wake => some ({ s with event := s.event.set }, [.woken])
  | .staggerEnds w =>
    if s.worker w = .staggered then some (s.setWorker w .polling, [.pollStarted w]) else none
  | .pollReturns w fetched seconds =>
    if s.worker w = .polling then some (afterPoll config s w fetched seconds) else none
  | .timerFires w =>
    if s.worker w = .sleeping false then
      some ({ s.setWorker w (.sleeping true) with event := s.event.cancel w }, [])
    else none
  | .resume w =>
    match s.worker w, s.event.future w with
    | .sleeping false, some .granted =>
      some ({ s.setWorker w .polling with event := (s.event.leave w).clear }, [.pollStarted w])
    -- `wait_for` turns the cancellation into a `TimeoutError`, also when the future was granted
    | .sleeping true, some .granted | .sleeping true, some .cancelled =>
      some ({ s.setWorker w .polling with event := s.event.leave w },
        [.sleptFull w, .pollStarted w])
    | _, _ => none

/-- The poller with what has happened so far. -/
def pollers (n : ℕ) (config : Config) : System (Poller n × List (Mark n)) (Act n) where
  init x := x = ({}, [])
  next x a := (react config x.1 a).map fun y => (y.1, x.2 ++ y.2)

/-- A wake after which no poll has started. -/
def Owed (log : List (Mark n)) : Prop :=
  ∃ before after, log = before ++ .woken :: after ∧ ∀ w, .pollStarted w ∉ after

/-- Between a wake and the end of a full sleep that started after it a poll starts. While it has
not, every worker has a step to take, and the first of these steps starts it. -/
structure NoLostWakeUp (config : Config) (x : Poller n × List (Mark n)) : Prop where
  beforeFullSleep : ∀ before after slept later w,
    x.2 = before ++ .woken :: (after ++ .sleepStarted w :: (slept ++ .sleptFull w :: later)) →
    ∃ v, .pollStarted v ∈ after ++ slept
  ready : Owed x.2 → ∀ w, ∃ a y, a.worker = some w ∧ react config x.1 a = some y
  starts : Owed x.2 → ∀ w a y, a.worker = some w → react config x.1 a = some y →
    .pollStarted w ∈ y.2

variable {config : Config} {s : Poller n} {a : Act n} {w : Fin n} {log : List (Mark n)}
  {y : Poller n × List (Mark n)}

theorem react_cases (h : react config s a = some y) :
    (a = .wake ∧ y = ({ s with event := s.event.set }, [.woken])) ∨
    (∃ w, a = .staggerEnds w ∧ s.worker w = .staggered ∧
      y = (s.setWorker w .polling, [.pollStarted w])) ∨
    (∃ w fetched seconds, a = .pollReturns w fetched seconds ∧ s.worker w = .polling ∧
      (y = (s, [.pollStarted w]) ∨
        y = ({ s with event := s.event.clear }, [.pollStarted w]) ∨
        s.event.value = false ∧
          y = ({ s.setWorker w (.sleeping false) with event := s.event.enqueue w },
            [.sleepStarted w]))) ∨
    (∃ w, a = .timerFires w ∧ s.worker w = .sleeping false ∧
      y = ({ s.setWorker w (.sleeping true) with event := s.event.cancel w }, [])) ∨
    (∃ w, a = .resume w ∧ s.worker w = .sleeping false ∧
      y = ({ s.setWorker w .polling with event := (s.event.leave w).clear }, [.pollStarted w])) ∨
    (∃ w, a = .resume w ∧ s.worker w = .sleeping true ∧
      y = ({ s.setWorker w .polling with event := s.event.leave w },
        [.sleptFull w, .pollStarted w])) := by
  cases a with
  | wake => exact Or.inl ⟨rfl, (Option.some.inj h).symm⟩
  | staggerEnds w =>
    simp only [react, Option.ite_none_right_eq_some, Option.some.injEq] at h
    exact Or.inr (Or.inl ⟨w, rfl, h.1, h.2.symm⟩)
  | pollReturns w fetched seconds =>
    simp only [react, Option.ite_none_right_eq_some, Option.some.injEq] at h
    obtain ⟨hpolling, rfl⟩ := h
    refine Or.inr (Or.inr (Or.inl ⟨w, fetched, seconds, rfl, hpolling, ?_⟩))
    unfold afterPoll
    split
    · exact Or.inl rfl
    · split
      · exact Or.inl rfl
      · split
        · exact Or.inr (Or.inl rfl)
        · exact Or.inr (Or.inr ⟨by simpa using ‹¬ s.event.value = true›, rfl⟩)
  | timerFires w =>
    simp only [react, Option.ite_none_right_eq_some, Option.some.injEq] at h
    exact Or.inr (Or.inr (Or.inr (Or.inl ⟨w, rfl, h.1, h.2.symm⟩)))
  | resume w =>
    simp only [react] at h
    split at h
    · exact Or.inr (Or.inr (Or.inr (Or.inr (Or.inl
        ⟨w, rfl, ‹_›, (Option.some.inj h).symm⟩))))
    · exact Or.inr (Or.inr (Or.inr (Or.inr (Or.inr
        ⟨w, rfl, ‹_›, (Option.some.inj h).symm⟩))))
    · exact Or.inr (Or.inr (Or.inr (Or.inr (Or.inr
        ⟨w, rfl, ‹_›, (Option.some.inj h).symm⟩))))
    · cases h

@[simp] theorem setWorker_self (s : Poller n) (w : Fin n) (x : Phase) :
    (s.setWorker w x).worker w = x := by
  simp [Poller.setWorker]

theorem setWorker_of_ne {v : Fin n} (h : v ≠ w) (x : Phase) :
    (s.setWorker w x).worker v = s.worker v := by
  simp [Poller.setWorker, h]

/-- The future of a worker, as its phase has it. -/
def Phase.Fits : Phase → Option Waiter → Prop
  | .staggered, f | .polling, f => f = none
  | .sleeping false, f => f = some .pending ∨ f = some .granted
  | .sleeping true, f => f = some .granted ∨ f = some .cancelled

/-- While a wake is owed a poll the event is set, and no sleep has started before that poll. -/
structure Good (x : Poller n × List (Mark n)) : Prop where
  futures : ∀ w, (x.1.worker w).Fits (x.1.event.future w)
  settled : x.1.event.Settled
  set : Owed x.2 → x.1.event.value = true
  sleeps : ∀ before after w, x.2 = before ++ .sleepStarted w :: after → ¬ Owed before

theorem not_owed_concat (log : List (Mark n)) (w : Fin n) :
    ¬ Owed (log ++ [.pollStarted w]) := by
  rintro ⟨before, after, heq, hnone⟩
  rcases List.eq_nil_or_concat after with rfl | ⟨after, m, rfl⟩
  · have hlast := (List.append_inj' heq rfl).2
    simp at hlast
  · have hsnoc : log ++ [.pollStarted w] = (before ++ .woken :: after) ++ [m] := by
      rw [heq]
      simp
    obtain rfl : Mark.pollStarted w = m := by simpa using (List.append_inj' hsnoc rfl).2
    exact hnone w (by simp)

theorem owed_of_concat {m : Mark n} (h : Owed (log ++ [m])) (hm : m ≠ .woken) : Owed log := by
  obtain ⟨before, after, heq, hnone⟩ := h
  rcases List.eq_nil_or_concat after with rfl | ⟨after, m', rfl⟩
  · have hlast := (List.append_inj' heq rfl).2
    simp only [List.cons.injEq, and_true] at hlast
    exact absurd hlast hm
  · have hsnoc : log ++ [m] = (before ++ .woken :: after) ++ [m'] := by
      rw [heq]
      simp
    exact ⟨before, after, (List.append_inj' hsnoc rfl).1, fun w hw => hnone w (by simp [hw])⟩

theorem sleep_concat {m : Mark n} {before after : List (Mark n)}
    (h : log ++ [m] = before ++ .sleepStarted w :: after) :
    (∃ after', log = before ++ .sleepStarted w :: after') ∨ m = .sleepStarted w ∧ log = before := by
  rcases List.eq_nil_or_concat after with rfl | ⟨after, m', rfl⟩
  · obtain ⟨hlog, hm⟩ := List.append_inj' h rfl
    exact Or.inr ⟨by simpa using hm, hlog⟩
  · have hsnoc : log ++ [m] = (before ++ .sleepStarted w :: after) ++ [m'] := by
      rw [h]
      simp
    exact Or.inl ⟨after, (List.append_inj' hsnoc rfl).1⟩

/-- A worker and its future change together, the others keep theirs. -/
theorem fits_setWorker {event : Event (Fin n)} {x : Phase}
    (h : ∀ v, (s.worker v).Fits (s.event.future v)) (hw : x.Fits (event.future w))
    (hother : ∀ v, v ≠ w → event.future v = s.event.future v) (v : Fin n) :
    ((s.setWorker w x).worker v).Fits (event.future v) := by
  by_cases hvw : v = w
  · subst hvw
    rwa [setWorker_self]
  · rw [setWorker_of_ne hvw, hother v hvw]
    exact h v

theorem fits_set {event : Event (Fin n)} {x : Phase} (h : x.Fits (event.future w)) :
    x.Fits (event.set.future w) := by
  rw [Event.future_set]
  split
  · exact h
  · cases x with
    | staggered =>
      rw [show event.future w = none from h]
      rfl
    | polling =>
      rw [show event.future w = none from h]
      rfl
    | sleeping expired =>
      cases expired with
      | false => exact Or.inr (by rcases h with h | h <;> simp [h])
      | true =>
        rcases h with h | h
        · exact Or.inl (by simp [h])
        · exact Or.inr (by simp [h])

theorem good_poll (marks : List (Mark n)) (h : Good (s, log)) {t : Poller n}
    (hfutures : ∀ v, (t.worker v).Fits (t.event.future v)) (hsettled : t.event.Settled)
    (hmarks : ∀ v, .sleepStarted v ∉ marks) :
    Good (t, log ++ (marks ++ [.pollStarted w])) where
  futures := hfutures
  settled := hsettled
  set howed := by
    rw [← List.append_assoc] at howed
    exact absurd howed (not_owed_concat _ w)
  sleeps before after v heq := by
    have hlog : ∃ after', log = before ++ .sleepStarted v :: after' := by
      rcases List.append_eq_append_iff.mp heq with ⟨mid, hbefore, hrest⟩ | ⟨mid, hlog, hrest⟩
      · have hmem : .sleepStarted v ∈ marks ++ [.pollStarted w] := by
          rw [hrest]
          simp
        simp [hmarks v] at hmem
      · cases mid with
        | nil =>
          have hmem : .sleepStarted v ∈ marks ++ [.pollStarted w] := by
            rw [← List.nil_append (marks ++ _), ← hrest]
            simp
          simp [hmarks v] at hmem
        | cons m mid =>
          obtain ⟨rfl, -⟩ : Mark.sleepStarted v = m ∧ _ := by simpa using hrest
          exact ⟨mid, hlog⟩
    obtain ⟨after', hlog⟩ := hlog
    exact h.sleeps before after' v hlog

theorem good_step (h : Good (s, log)) (hstep : react config s a = some y) :
    Good (y.1, log ++ y.2) := by
  have hfutures := h.futures
  rcases react_cases hstep with ⟨rfl, rfl⟩ | ⟨w, rfl, hw, rfl⟩ | ⟨w, _, _, rfl, hw, hcases⟩ |
      ⟨w, rfl, hw, rfl⟩ | ⟨w, rfl, hw, rfl⟩ | ⟨w, rfl, hw, rfl⟩
  · refine ⟨fun v => fits_set (hfutures v), h.settled.set, fun _ => s.event.value_set, ?_⟩
    intro before after v heq
    rcases sleep_concat heq with ⟨after', hlog⟩ | ⟨hm, -⟩
    · exact h.sleeps before after' v hlog
    · cases hm
  · refine good_poll [] h (fits_setWorker hfutures ?_ fun _ _ => rfl) h.settled (by simp)
    have hfits := hfutures w
    rw [hw] at hfits
    exact hfits
  · rcases hcases with rfl | rfl | ⟨hvalue, rfl⟩
    · exact good_poll [] h hfutures h.settled (by simp)
    · exact good_poll [] h hfutures Event.Settled.clear (by simp)
    · have hnone : s.event.future w = none := by
        have hfits := hfutures w
        rwa [hw] at hfits
      refine ⟨fits_setWorker hfutures ?_ ?_, ?_, ?_, ?_⟩
      · rw [Event.future_enqueue hnone, if_pos rfl]
        exact Or.inl rfl
      · intro v hvw
        rw [Event.future_enqueue hnone, if_neg hvw]
      · intro hset
        exact absurd hset (by simp [Event.enqueue, hvalue])
      · intro howed
        have hset := h.set (owed_of_concat howed (by simp))
        simp [hvalue] at hset
      · intro before after v heq
        rcases sleep_concat heq with ⟨after', hlog⟩ | ⟨-, rfl⟩
        · exact h.sleeps before after' v hlog
        · intro howed
          have hset := h.set howed
          simp [hvalue] at hset
  · refine ⟨fits_setWorker hfutures ?_ ?_, h.settled.cancel w, ?_, ?_⟩
    · rw [Event.future_cancel]
      have hfits := hfutures w
      rw [hw] at hfits
      rcases hfits with hf | hf
      · exact Or.inr (by simp [show s.event.future w = some .pending from hf])
      · exact Or.inl (by simp [show s.event.future w = some .granted from hf])
    · intro v hvw
      rw [Event.future_cancel]
      simp [hvw]
    · intro howed
      exact h.set (by simpa using howed)
    · intro before after v heq
      exact h.sleeps before after v (by simpa using heq)
  · refine good_poll [] h (fits_setWorker hfutures ?_ ?_) Event.Settled.clear (by simp)
    · show (s.event.leave w).future w = none
      simp [Event.future_leave]
    · intro v hvw
      show (s.event.leave w).future v = _
      simp [Event.future_leave, hvw]
  · refine good_poll [.sleptFull w] h (fits_setWorker hfutures ?_ ?_)
      (h.settled.leave w) (by simp)
    · show (s.event.leave w).future w = none
      simp [Event.future_leave]
    · intro v hvw
      simp [Event.future_leave, hvw]

theorem good_of_trace {as : List (Act n)} (h : Trace (pollers n config) free as y) : Good y := by
  refine Trace.invariant (M := pollers n config) (P := Good) ?_ ?_ h
  · rintro x rfl
    refine ⟨fun _ => rfl, ?_, ?_, ?_⟩
    · intro hset
      cases hset
    · rintro ⟨before, after, heq, -⟩
      simp at heq
    · intro before after w heq
      simp at heq
  · intro x a t hx hstep
    obtain ⟨z, hz, rfl⟩ := Option.map_eq_some_iff.mp hstep
    exact good_step hx hz

/-- In every run of the workers no wake-up is lost. -/
theorem no_lost_wake_up {as : List (Act n)} {x : Poller n × List (Mark n)}
    (h : Trace (pollers n config) free as x) : NoLostWakeUp config x := by
  have hgood := good_of_trace h
  constructor
  · intro before after slept later w heq
    have hnot := hgood.sleeps (before ++ .woken :: after) (slept ++ .sleptFull w :: later) w
      (by simpa using heq)
    by_contra hnone
    apply hnot
    exact ⟨before, after, rfl, fun v hv => hnone ⟨v, List.mem_append_left _ hv⟩⟩
  · intro howed w
    have hset := hgood.set howed
    have hfits := hgood.futures w
    match hw : x.1.worker w with
    | .staggered => exact ⟨.staggerEnds w, _, rfl, if_pos hw⟩
    | .polling => exact ⟨.pollReturns w 0 0, _, rfl, if_pos hw⟩
    | .sleeping false =>
      rw [hw] at hfits
      rcases hfits with hf | hf
      · exact absurd hf (hgood.settled hset w)
      · exact ⟨.resume w, _, rfl, by simp only [react, hw, hf]; rfl⟩
    | .sleeping true =>
      rw [hw] at hfits
      rcases hfits with hf | hf
      · exact ⟨.resume w, _, rfl, by simp only [react, hw, hf]; rfl⟩
      · exact ⟨.resume w, _, rfl, by simp only [react, hw, hf]; rfl⟩
  · intro howed w a z ha hstep
    have hset := hgood.set howed
    rcases react_cases hstep with ⟨rfl, rfl⟩ | ⟨v, rfl, -, rfl⟩ | ⟨v, _, _, rfl, -, hcases⟩ |
        ⟨v, rfl, -, rfl⟩ | ⟨v, rfl, -, rfl⟩ | ⟨v, rfl, -, rfl⟩
    · cases ha
    · cases ha
      simp
    · cases ha
      rcases hcases with rfl | rfl | ⟨hvalue, -⟩
      · simp
      · simp
      · simp [hset] at hvalue
    · cases ha
    · cases ha
      simp
    · cases ha
      simp

/-- A wake while both workers poll: the first one polls again, the second one sleeps after that. -/
theorem no_lost_wake_up_polling : ∃ x : Poller 2 × List (Mark 2),
    Trace (pollers 2 {}) free [.staggerEnds 0, .staggerEnds 1, .wake, .pollReturns 0 0 5,
      .pollReturns 1 0 5, .timerFires 1, .resume 1] x ∧
    x.2 = [.pollStarted 0, .pollStarted 1, .woken, .pollStarted 0, .sleepStarted 1, .sleptFull 1,
      .pollStarted 1] ∧
    NoLostWakeUp {} x := by
  have h : (replay (pollers 2 {}) free [] [.staggerEnds 0, .staggerEnds 1, .wake,
      .pollReturns 0 0 5, .pollReturns 1 0 5, .timerFires 1, .resume 1] ({}, [])).map Prod.snd =
      some [.pollStarted 0, .pollStarted 1, .woken, .pollStarted 0, .sleepStarted 1, .sleptFull 1,
        .pollStarted 1] := by
    decide +kernel
  obtain ⟨x, hrun, hx⟩ := Option.map_eq_some_iff.mp h
  have htrace := trace_of_replay (M := pollers 2 {}) rfl hrun
  exact ⟨x, htrace, hx, no_lost_wake_up htrace⟩

end Taas.OutboxWakeUps
