import Taas.CircuitBreaker
import Taas.Transition

/-!
Concurrent `call()`s through one breaker without a repository. A call enters
through `_before_call` and, if admitted, leaves at any later step through
`_on_success` or `_on_failure`; the clock never goes back. `periods`,
`periodSuccesses` and the period tag of a call are ghosts: they record which
HALF_OPEN period admitted a call and how many calls of the current period
succeeded, and no handler reads them.
-/
namespace Taas.BreakerCalls

open CircuitBreaker CircuitBreakerService Transition

/-- A running call; `probe = some k` when the k-th HALF_OPEN period admitted it. -/
structure Call where
  id : ℕ
  probe : Option ℕ
  deriving DecidableEq

structure World where
  service : CircuitBreakerService
  clock : ℚ
  running : List Call
  periods : ℕ := 0
  periodSuccesses : ℕ := 0
  deriving DecidableEq

inductive Act
  | enter (now : ℚ) (id : ℕ)
  | succeed (now : ℚ) (c : Call)
  | fail (now : ℚ) (c : Call)
  deriving DecidableEq

namespace World

/-- `_before_call`, and the handler's start when it does not raise. -/
def enter (cfg : CircuitBreakerConfig) (now : ℚ) (id : ℕ) (w : World) : World :=
  let result := w.service.beforeCall cfg now
  let begins : Bool := w.service.snapshot.state ≠ .halfOpen ∧ result.1.snapshot.state = .halfOpen
  let periods := if begins then w.periods + 1 else w.periods
  { service := result.1
    clock := now
    periods := periods
    periodSuccesses := if begins then 0 else w.periodSuccesses
    running := match result.2 with
      | .ok _ =>
        { id := id, probe := if result.1.snapshot.state = .halfOpen then some periods else none }
          :: w.running
      | .error _ => w.running }

def succeed (cfg : CircuitBreakerConfig) (now : ℚ) (c : Call) (w : World) : World :=
  { w with
    service := w.service.onSuccess cfg
    clock := now
    running := w.running.erase c
    periodSuccesses :=
      if w.service.snapshot.state = .halfOpen ∧ c.probe = some w.periods
      then w.periodSuccesses + 1 else w.periodSuccesses }

def fail (cfg : CircuitBreakerConfig) (now : ℚ) (c : Call) (w : World) : World :=
  { w with
    service := w.service.onFailure cfg now
    clock := now
    running := w.running.erase c }

/-- The call `id` was let through by the step to this state. -/
def Admitted (w : World) (id : ℕ) : Prop := ∃ c ∈ w.running, c.id = id

instance (w : World) (id : ℕ) : Decidable (w.Admitted id) := by
  unfold Admitted
  infer_instance

end World

def next (cfg : CircuitBreakerConfig) (w : World) : Act → Option World
  | .enter now id =>
    if w.clock ≤ now ∧ ¬ w.Admitted id then some (w.enter cfg now id) else none
  | .succeed now c =>
    if w.clock ≤ now ∧ c ∈ w.running then some (w.succeed cfg now c) else none
  | .fail now c =>
    if w.clock ≤ now ∧ c ∈ w.running then some (w.fail cfg now c) else none

/-- All interleavings of calls through a fresh breaker. -/
def calls (cfg : CircuitBreakerConfig) (name : String) : System World Act where
  init w := w.service = CircuitBreakerService.init name ∧ w.running = [] ∧
    w.periods = 0 ∧ w.periodSuccesses = 0
  next := next cfg

variable {cfg : CircuitBreakerConfig} {name : String} {w w' : World} {a : Act}
variable {ok : Condition World Act} {as : List Act} {now : ℚ} {id : ℕ} {c : Call}

theorem next_cases (h : next cfg w a = some w') :
    (∃ now id, a = .enter now id ∧ w.clock ≤ now ∧ w' = w.enter cfg now id) ∨
    (∃ now c, a = .succeed now c ∧ w.clock ≤ now ∧ c ∈ w.running ∧ w' = w.succeed cfg now c) ∨
    (∃ now c, a = .fail now c ∧ w.clock ≤ now ∧ c ∈ w.running ∧ w' = w.fail cfg now c) := by
  cases a with
  | enter now id =>
    simp only [next, Option.ite_none_right_eq_some, Option.some.injEq] at h
    exact Or.inl ⟨now, id, rfl, h.1.1, h.2.symm⟩
  | succeed now c =>
    simp only [next, Option.ite_none_right_eq_some, Option.some.injEq] at h
    exact Or.inr (Or.inl ⟨now, c, rfl, h.1.1, h.1.2, h.2.symm⟩)
  | fail now c =>
    simp only [next, Option.ite_none_right_eq_some, Option.some.injEq] at h
    exact Or.inr (Or.inr ⟨now, c, rfl, h.1.1, h.1.2, h.2.symm⟩)

/-- Entering is refused without a change, lets a call through outside HALF_OPEN, takes
a probe slot, or begins a HALF_OPEN period and then takes its first slot if it has one. -/
theorem enter_cases (cfg : CircuitBreakerConfig) (now : ℚ) (id : ℕ) (w : World) :
    (w.service.snapshot.state = .opened ∧
      (∀ t, w.service.snapshot.openedAt = some t → now - t < cfg.recoveryTimeoutSeconds) ∧
      w.enter cfg now id = { w with clock := now }) ∨
    (w.service.snapshot.state = .closed ∧
      w.enter cfg now id = { w with clock := now, running := ⟨id, none⟩ :: w.running }) ∨
    (w.service.snapshot.state = .halfOpen ∧
      cfg.halfOpenMaxCalls ≤ w.service.halfOpenInFlight ∧
      w.enter cfg now id = { w with clock := now }) ∨
    (w.service.snapshot.state = .halfOpen ∧
      w.service.halfOpenInFlight < cfg.halfOpenMaxCalls ∧
      w.enter cfg now id = { w with
        service := { w.service with halfOpenInFlight := w.service.halfOpenInFlight + 1 }
        clock := now
        running := ⟨id, some w.periods⟩ :: w.running }) ∨
    (∃ t, w.service.snapshot.state = .opened ∧ w.service.snapshot.openedAt = some t ∧
      cfg.recoveryTimeoutSeconds ≤ now - t ∧
      ∃ inFlight admitted, w.enter cfg now id = {
        service := { w.service with
          snapshot := { name := w.service.name, state := .halfOpen, openedAt := some t }
          halfOpenInFlight := inFlight }
        clock := now
        running := admitted ++ w.running
        periods := w.periods + 1
        periodSuccesses := 0 } ∧
        ((cfg.halfOpenMaxCalls ≤ 0 ∧ inFlight = 0 ∧ admitted = []) ∨
          (0 < cfg.halfOpenMaxCalls ∧ inFlight = 1 ∧
            admitted = [⟨id, some (w.periods + 1)⟩]))) := by
  rcases checkOpen_cases cfg now w.service with
    ⟨e, he, hs, ht⟩ | ⟨he, hs⟩ | ⟨t, hs, ht, hw, he⟩
  · refine Or.inl ⟨hs, fun t h => (ht t h).2, ?_⟩
    simp [World.enter, beforeCall, he]
  · rcases takeSlot_cases cfg w.service with ⟨ha, hn⟩ | ⟨ha, hh, hlt⟩ | ⟨ha, hh, hle⟩
    · have hc : w.service.snapshot.state = .closed := by
        cases hst : w.service.snapshot.state with
        | closed => rfl
        | opened => exact absurd hst hs
        | halfOpen => exact absurd hst hn
      refine Or.inr (Or.inl ⟨hc, ?_⟩)
      simp [World.enter, beforeCall, he, ha, hc]
    · refine Or.inr (Or.inr (Or.inr (Or.inl ⟨hh, hlt, ?_⟩)))
      simp [World.enter, beforeCall, he, ha, hh]
    · refine Or.inr (Or.inr (Or.inl ⟨hh, hle, ?_⟩))
      simp [World.enter, beforeCall, he, ha, hh]
  · refine Or.inr (Or.inr (Or.inr (Or.inr ⟨t, hs, ht, hw, ?_⟩)))
    by_cases hm : cfg.halfOpenMaxCalls ≤ 0
    · refine ⟨0, [], ?_, Or.inl ⟨hm, rfl, rfl⟩⟩
      simp [World.enter, beforeCall, he, takeSlot, hm, hs]
    · refine ⟨1, [⟨id, some (w.periods + 1)⟩], ?_, Or.inr ⟨not_le.mp hm, rfl, rfl⟩⟩
      simp [World.enter, beforeCall, he, takeSlot, hm, hs]

/-- What every reachable breaker state satisfies. -/
structure StateInvariant (cfg : CircuitBreakerConfig) (w : World) : Prop where
  opened : w.service.snapshot.state = .opened → ∃ t, w.service.snapshot.openedAt = some t
  closed : w.service.snapshot.state = .closed →
    0 ≤ w.service.snapshot.failureCount ∧
      w.service.snapshot.failureCount < cfg.failureThreshold
  halfOpen : w.service.snapshot.state = .halfOpen →
    (0 ≤ w.service.snapshot.successCount ∧
      w.service.snapshot.successCount < cfg.successThreshold) ∧
    0 ≤ w.service.halfOpenInFlight ∧
      w.service.halfOpenInFlight ≤ min cfg.halfOpenMaxCalls w.running.length

/-- The limits that a usable configuration sets. -/
structure Usable (cfg : CircuitBreakerConfig) : Prop where
  failureThreshold : 1 ≤ cfg.failureThreshold
  halfOpenMaxCalls : 1 ≤ cfg.halfOpenMaxCalls
  successThreshold : 1 ≤ cfg.successThreshold

theorem length_erase_of_running (hc : c ∈ w.running) :
    ((w.running.erase c).length : ℤ) = w.running.length - 1 ∧ 0 < (w.running.length : ℤ) := by
  have hpos := List.length_pos_of_mem hc
  rw [List.length_erase_of_mem hc]
  omega

theorem enter_invariant (hu : Usable cfg) (hi : StateInvariant cfg w) :
    StateInvariant cfg (w.enter cfg now id) := by
  rcases enter_cases cfg now id w with ⟨_, _, he⟩ | ⟨hs, he⟩ | ⟨_, _, he⟩ | ⟨hs, hlt, he⟩ |
      ⟨t, _, _, _, inFlight, admitted, he, hslot⟩
  · rw [he]
    exact ⟨hi.opened, hi.closed, hi.halfOpen⟩
  · rw [he]
    refine ⟨hi.opened, hi.closed, fun h => ?_⟩
    simp [hs] at h
  · rw [he]
    exact ⟨hi.opened, hi.closed, hi.halfOpen⟩
  · rw [he]
    refine ⟨fun h => ?_, fun h => ?_, fun _ => ?_⟩
    · simp [hs] at h
    · simp [hs] at h
    · obtain ⟨hsucc, h0, hle⟩ := hi.halfOpen hs
      refine ⟨hsucc, ?_, ?_⟩
      · show 0 ≤ w.service.halfOpenInFlight + 1
        omega
      · simp only [List.length_cons, Nat.cast_add, Nat.cast_one]
        omega
  · have hst := hu.successThreshold
    have hm := hu.halfOpenMaxCalls
    rw [he]
    refine ⟨fun h => ?_, fun h => ?_, fun _ => ⟨?_, ?_⟩⟩
    · simp at h
    · simp at h
    · exact ⟨le_refl 0, by show (0 : ℤ) < cfg.successThreshold; omega⟩
    · rcases hslot with ⟨hle, -, -⟩ | ⟨hpos, rfl, rfl⟩
      · omega
      · refine ⟨zero_le_one, ?_⟩
        simp only [List.cons_append, List.nil_append, List.length_cons, Nat.cast_add, Nat.cast_one]
        omega

theorem succeed_invariant (hu : Usable cfg) (hi : StateInvariant cfg w) (hc : c ∈ w.running) :
    StateInvariant cfg (w.succeed cfg now c) := by
  obtain ⟨hlen, hpos⟩ := length_erase_of_running hc
  have hft := hu.failureThreshold
  unfold World.succeed
  rcases onSuccess_cases cfg w.service with ⟨hs, _, he⟩ | ⟨hs, hlt, he⟩ | ⟨hs, he⟩ | ⟨hs, he⟩
  · rw [he]
    refine ⟨fun h => ?_, fun _ => ?_, fun h => ?_⟩
    · simp at h
    · exact ⟨le_refl 0, by show (0 : ℤ) < cfg.failureThreshold; omega⟩
    · simp at h
  · obtain ⟨hsucc, h0, hle⟩ := hi.halfOpen hs
    rw [he]
    refine ⟨fun h => ?_, fun h => ?_, fun _ => ⟨?_, ?_⟩⟩
    · simp [hs] at h
    · simp [hs] at h
    · exact ⟨by show (0 : ℤ) ≤ w.service.snapshot.successCount + 1; omega, hlt⟩
    · refine ⟨le_max_right _ _, ?_⟩
      show max (w.service.halfOpenInFlight - 1) 0 ≤
        min cfg.halfOpenMaxCalls ((w.running.erase c).length : ℤ)
      rw [hlen]
      omega
  · rw [he]
    refine ⟨fun h => ?_, fun _ => ?_, fun h => ?_⟩
    · simp [hs] at h
    · exact ⟨le_refl 0, by show (0 : ℤ) < cfg.failureThreshold; omega⟩
    · simp [hs] at h
  · rw [he]
    refine ⟨hi.opened, hi.closed, fun h => ?_⟩
    simp [hs] at h

theorem fail_invariant (hi : StateInvariant cfg w) :
    StateInvariant cfg (w.fail cfg now c) := by
  unfold World.fail
  rcases onFailure_cases cfg now w.service with ⟨_, he⟩ | ⟨hs, hlt, he⟩
  · rw [he]
    refine ⟨fun _ => ⟨now, rfl⟩, fun h => ?_, fun h => ?_⟩
    · simp [trip] at h
    · simp [trip] at h
  · rw [he]
    refine ⟨hi.opened, fun h => ?_, fun h => absurd h hs⟩
    obtain ⟨h0, -⟩ := hi.closed h
    exact ⟨by show (0 : ℤ) ≤ w.service.snapshot.failureCount + 1; omega, hlt⟩

theorem reachable_invariant (hu : Usable cfg) (h : Trace (calls cfg name) ok as w) :
    StateInvariant cfg w := by
  refine Trace.invariant (M := calls cfg name) ?_ ?_ h
  · rintro w ⟨hs, _, _⟩
    have hft := hu.failureThreshold
    refine ⟨fun h => ?_, fun _ => ?_, fun h => ?_⟩
    · simp [hs, CircuitBreakerService.init] at h
    · simp only [hs, CircuitBreakerService.init]
      omega
    · simp [hs, CircuitBreakerService.init] at h
  · intro w a w' hi hstep
    rcases next_cases hstep with ⟨_, _, rfl, _, rfl⟩ | ⟨_, _, rfl, _, hc, rfl⟩ |
        ⟨_, _, rfl, _, hc, rfl⟩
    · exact enter_invariant hu hi
    · exact succeed_invariant hu hi hc
    · exact fail_invariant hi

theorem takeSlot_no_assertion (cfg : CircuitBreakerConfig) (b : CircuitBreakerService) :
    (b.takeSlot cfg).2 ≠ .error .assertion := by
  rcases takeSlot_cases cfg b with ⟨ha, _⟩ | ⟨ha, _⟩ | ⟨ha, _⟩ <;> simp [ha]

/-- The `assert` of `_before_call` holds whenever OPEN carries its time. -/
theorem beforeCall_no_assertion (now : ℚ)
    (ho : w.service.snapshot.state = .opened → ∃ t, w.service.snapshot.openedAt = some t) :
    (w.service.beforeCall cfg now).2 ≠ .error .assertion := by
  unfold beforeCall
  rcases checkOpen_cases cfg now w.service with ⟨e, he, hs, ht⟩ | ⟨he, _⟩ | ⟨t, _, _, _, he⟩
  · obtain ⟨t, htt⟩ := ho hs
    obtain ⟨rfl, -⟩ := ht t htt
    simp [he]
  · rw [he]
    exact takeSlot_no_assertion cfg w.service
  · rw [he]
    exact takeSlot_no_assertion cfg _

/-- A breaker nobody is calling admits the next call once the window has passed. -/
theorem idle_admits (hu : Usable cfg) (hi : StateInvariant cfg w) (hidle : w.running = [])
    (hwin : ∀ t, w.service.snapshot.openedAt = some t →
      cfg.recoveryTimeoutSeconds ≤ now - t) :
    (w.enter cfg now id).Admitted id := by
  have hm := hu.halfOpenMaxCalls
  rcases enter_cases cfg now id w with ⟨hs, hlt, _⟩ | ⟨_, he⟩ | ⟨hs, hle, _⟩ | ⟨_, _, he⟩ |
      ⟨t, _, _, _, inFlight, admitted, he, hslot⟩
  · obtain ⟨t, ht⟩ := hi.opened hs
    exact absurd (hlt t ht) (not_lt.mpr (hwin t ht))
  · rw [he]
    exact ⟨_, List.mem_cons_self, rfl⟩
  · have hzero := (hi.halfOpen hs).2
    simp only [hidle, List.length_nil, Nat.cast_zero] at hzero
    omega
  · rw [he]
    exact ⟨_, List.mem_cons_self, rfl⟩
  · rcases hslot with ⟨hle, -, -⟩ | ⟨_, -, rfl⟩
    · omega
    · rw [he]
      exact ⟨_, List.mem_cons_self, rfl⟩

/-- Every reachable state satisfies the invariant, the `assert` never fires, and when no
call runs and the recovery window has passed the next call is admitted. -/
theorem breaker_state_sound (hu : Usable cfg) (h : Trace (calls cfg name) free as w) :
    StateInvariant cfg w ∧
    (∀ now, (w.service.beforeCall cfg now).2 ≠ .error .assertion) ∧
    (w.running = [] → ∀ now id, w.clock ≤ now →
      (∀ t, w.service.snapshot.openedAt = some t → cfg.recoveryTimeoutSeconds ≤ now - t) →
      ∃ w', next cfg w (.enter now id) = some w' ∧ w'.Admitted id) := by
  have hi := reachable_invariant hu h
  refine ⟨hi, fun now => beforeCall_no_assertion now hi.opened, ?_⟩
  intro hidle now id hclock hwin
  refine ⟨w.enter cfg now id, ?_, idle_admits hu hi hidle hwin⟩
  simp [next, hclock, World.Admitted, hidle]

/-- A breaker with threshold 1 that tripped at 1 and is being probed at 31. -/
theorem breaker_state_sound_probed :
    ∃ w, Trace (calls { failureThreshold := 1 } "db") free
        [.enter 0 0, .fail 1 ⟨0, none⟩, .enter 31 1] w ∧
      w.service.snapshot.state = .halfOpen ∧ StateInvariant { failureThreshold := 1 } w := by
  have h : replay (calls { failureThreshold := 1 } "db") free []
      [.enter 0 0, .fail 1 ⟨0, none⟩, .enter 31 1]
      { service := CircuitBreakerService.init "db", clock := 0, running := [] } =
      some { service := ⟨"db", { name := "db", state := .halfOpen, openedAt := some 1 }, 1⟩
             clock := 31, running := [⟨1, some 1⟩], periods := 1 } := by decide +kernel
  have ht := trace_of_replay (M := calls { failureThreshold := 1 } "db")
    ⟨rfl, rfl, rfl, rfl⟩ h
  exact ⟨_, ht, rfl, (breaker_state_sound ⟨by decide, by decide, by decide⟩ ht).1⟩

end Taas.BreakerCalls
