import Mathlib.Algebra.Order.Ring.Rat
import Mathlib.Tactic.Linarith

/-!
The circuit breaker service: its snapshot, its half-open counter and the three
handlers a guarded call runs. Each handler runs under the service's lock; without
a repository nothing in it suspends, so it is one step. `checkOpen` and `takeSlot`
are the two halves of `_before_call`, cut at the `_persist` between them.
Clock readings and timeouts are exact rationals.
-/
namespace Taas.CircuitBreaker

/-- `opened` is OPEN. -/
inductive CircuitState
  | closed
  | opened
  | halfOpen
  deriving DecidableEq, Repr

structure CircuitBreakerSnapshot where
  name : String
  state : CircuitState
  failureCount : ℤ := 0
  successCount : ℤ := 0
  openedAt : Option ℚ := none
  deriving DecidableEq

structure CircuitBreakerConfig where
  failureThreshold : ℤ := 5
  recoveryTimeoutSeconds : ℚ := 30
  halfOpenMaxCalls : ℤ := 1
  successThreshold : ℤ := 1

/-- What `_before_call` raises: `CircuitOpenError` with the breaker's name, or the
failed `assert` on a missing `opened_at`. -/
inductive BreakerError
  | circuitOpen (name : String)
  | assertion
  deriving DecidableEq

structure CircuitBreakerService where
  name : String
  snapshot : CircuitBreakerSnapshot
  halfOpenInFlight : ℤ
  deriving DecidableEq

namespace CircuitBreakerService

def init (name : String) : CircuitBreakerService where
  name := name
  snapshot := { name := name, state := .closed }
  halfOpenInFlight := 0

def refresh (stored : Option CircuitBreakerSnapshot) (b : CircuitBreakerService) :
    CircuitBreakerService :=
  match stored with
  | none => b
  | some snap => { b with snapshot := snap }

/-- The OPEN branch of `_before_call`. The flag says that `_persist` follows. -/
def checkOpen (cfg : CircuitBreakerConfig) (now : ℚ) (b : CircuitBreakerService) :
    Except BreakerError (CircuitBreakerService × Bool) :=
  if b.snapshot.state = .opened then
    match b.snapshot.openedAt with
    | none => .error .assertion
    | some openedAt =>
      if now - openedAt < cfg.recoveryTimeoutSeconds then .error (.circuitOpen b.name)
      else .ok ({ b with
        snapshot := { name := b.name, state := .halfOpen, openedAt := some openedAt }
        halfOpenInFlight := 0 }, true)
  else .ok (b, false)

/-- The HALF_OPEN branch of `_before_call`: take a probe slot or raise. -/
def takeSlot (cfg : CircuitBreakerConfig) (b : CircuitBreakerService) :
    CircuitBreakerService × Except BreakerError Unit :=
  if b.snapshot.state = .halfOpen then
    if b.halfOpenInFlight ≥ cfg.halfOpenMaxCalls then (b, .error (.circuitOpen b.name))
    else ({ b with halfOpenInFlight := b.halfOpenInFlight + 1 }, .ok ())
  else (b, .ok ())

/-- `_before_call` of a service without a repository. -/
def beforeCall (cfg : CircuitBreakerConfig) (now : ℚ) (b : CircuitBreakerService) :
    CircuitBreakerService × Except BreakerError Unit :=
  match b.checkOpen cfg now with
  | .error e => (b, .error e)
  | .ok (b', _) => b'.takeSlot cfg

/-- `_open`. -/
def trip (now : ℚ) (b : CircuitBreakerService) : CircuitBreakerService :=
  { b with
    snapshot := { name := b.name, state := .opened, openedAt := some now }
    halfOpenInFlight := 0 }

def onSuccess (cfg : CircuitBreakerConfig) (b : CircuitBreakerService) :
    CircuitBreakerService :=
  let snap := b.snapshot
  if snap.state = .halfOpen then
    let inFlight := max (b.halfOpenInFlight - 1) 0
    let successes := snap.successCount + 1
    if successes ≥ cfg.successThreshold then
      { b with snapshot := { name := b.name, state := .closed }, halfOpenInFlight := inFlight }
    else
      { b with snapshot := { snap with successCount := successes }, halfOpenInFlight := inFlight }
  else if snap.state = .closed ∧ snap.failureCount ≠ 0 then
    { b with snapshot := { snap with failureCount := 0 } }
  else b

/-- The `else` branch counts failures in CLOSED and in OPEN alike. -/
def onFailure (cfg : CircuitBreakerConfig) (now : ℚ) (b : CircuitBreakerService) :
    CircuitBreakerService :=
  let snap := b.snapshot
  if snap.state = .halfOpen then
    trip now { b with halfOpenInFlight := max (b.halfOpenInFlight - 1) 0 }
  else
    let failures := snap.failureCount + 1
    if failures ≥ cfg.failureThreshold then trip now b
    else { b with snapshot := { snap with failureCount := failures } }

end CircuitBreakerService

open CircuitBreakerService

variable {cfg : CircuitBreakerConfig} {now : ℚ} {b b' : CircuitBreakerService}

/-- A failing OPEN check leaves the breaker OPEN; a passing one either changes nothing
outside OPEN or begins a HALF_OPEN period after the window. -/
theorem checkOpen_cases (cfg : CircuitBreakerConfig) (now : ℚ) (b : CircuitBreakerService) :
    (∃ e, b.checkOpen cfg now = .error e ∧ b.snapshot.state = .opened ∧
      ∀ t, b.snapshot.openedAt = some t →
        e = .circuitOpen b.name ∧ now - t < cfg.recoveryTimeoutSeconds) ∨
    (b.checkOpen cfg now = .ok (b, false) ∧ b.snapshot.state ≠ .opened) ∨
    (∃ t, b.snapshot.state = .opened ∧ b.snapshot.openedAt = some t ∧
      cfg.recoveryTimeoutSeconds ≤ now - t ∧
      b.checkOpen cfg now = .ok ({ b with
        snapshot := { name := b.name, state := .halfOpen, openedAt := some t }
        halfOpenInFlight := 0 }, true)) := by
  unfold checkOpen
  by_cases hs : b.snapshot.state = .opened
  · cases ht : b.snapshot.openedAt with
    | none =>
      refine Or.inl ⟨.assertion, by simp [hs], hs, ?_⟩
      intro t htt
      cases htt
    | some t =>
      by_cases hw : now - t < cfg.recoveryTimeoutSeconds
      · refine Or.inl ⟨.circuitOpen b.name, by simp [hs, hw], hs, ?_⟩
        rintro u hu
        cases hu
        exact ⟨rfl, hw⟩
      · exact Or.inr (Or.inr ⟨t, hs, rfl, not_lt.mp hw, by simp [hs, hw]⟩)
  · exact Or.inr (Or.inl ⟨by simp [hs], hs⟩)

theorem takeSlot_cases (cfg : CircuitBreakerConfig) (b : CircuitBreakerService) :
    (b.takeSlot cfg = (b, .ok ()) ∧ b.snapshot.state ≠ .halfOpen) ∨
    (b.takeSlot cfg = ({ b with halfOpenInFlight := b.halfOpenInFlight + 1 }, .ok ()) ∧
      b.snapshot.state = .halfOpen ∧ b.halfOpenInFlight < cfg.halfOpenMaxCalls) ∨
    (b.takeSlot cfg = (b, .error (.circuitOpen b.name)) ∧
      b.snapshot.state = .halfOpen ∧ cfg.halfOpenMaxCalls ≤ b.halfOpenInFlight) := by
  unfold takeSlot
  by_cases hs : b.snapshot.state = .halfOpen
  · by_cases hf : b.halfOpenInFlight ≥ cfg.halfOpenMaxCalls
    · exact Or.inr (Or.inr ⟨by simp [hs, hf], hs, hf⟩)
    · exact Or.inr (Or.inl ⟨by simp [hs, hf], hs, not_le.mp hf⟩)
  · exact Or.inl ⟨by simp [hs], hs⟩

theorem onSuccess_cases (cfg : CircuitBreakerConfig) (b : CircuitBreakerService) :
    (b.snapshot.state = .halfOpen ∧ cfg.successThreshold ≤ b.snapshot.successCount + 1 ∧
      b.onSuccess cfg = { b with
        snapshot := { name := b.name, state := .closed }
        halfOpenInFlight := max (b.halfOpenInFlight - 1) 0 }) ∨
    (b.snapshot.state = .halfOpen ∧ b.snapshot.successCount + 1 < cfg.successThreshold ∧
      b.onSuccess cfg = { b with
        snapshot := { b.snapshot with successCount := b.snapshot.successCount + 1 }
        halfOpenInFlight := max (b.halfOpenInFlight - 1) 0 }) ∨
    (b.snapshot.state = .closed ∧
      b.onSuccess cfg = { b with snapshot := { b.snapshot with failureCount := 0 } }) ∨
    (b.snapshot.state = .opened ∧ b.onSuccess cfg = b) := by
  unfold onSuccess
  cases hs : b.snapshot.state with
  | halfOpen =>
    by_cases ht : b.snapshot.successCount + 1 ≥ cfg.successThreshold
    · exact Or.inl ⟨rfl, ht, by simp [hs, ht]⟩
    · exact Or.inr (Or.inl ⟨rfl, not_le.mp ht, by simp [hs, ht]⟩)
  | closed =>
    refine Or.inr (Or.inr (Or.inl ⟨rfl, ?_⟩))
    by_cases hf : b.snapshot.failureCount = 0
    · obtain ⟨name, snap, inFlight⟩ := b
      obtain ⟨n, st, f, s, o⟩ := snap
      simp_all
    · simp [hs, hf]
  | opened => exact Or.inr (Or.inr (Or.inr ⟨rfl, by simp [hs]⟩))

theorem onFailure_cases (cfg : CircuitBreakerConfig) (now : ℚ) (b : CircuitBreakerService) :
    ((b.snapshot.state = .halfOpen ∨ cfg.failureThreshold ≤ b.snapshot.failureCount + 1) ∧
      b.onFailure cfg now = b.trip now) ∨
    (b.snapshot.state ≠ .halfOpen ∧ b.snapshot.failureCount + 1 < cfg.failureThreshold ∧
      b.onFailure cfg now = { b with
        snapshot := { b.snapshot with failureCount := b.snapshot.failureCount + 1 } }) := by
  unfold onFailure
  by_cases hs : b.snapshot.state = .halfOpen
  · exact Or.inl ⟨Or.inl hs, by simp [hs, trip]⟩
  · by_cases ht : b.snapshot.failureCount + 1 ≥ cfg.failureThreshold
    · exact Or.inl ⟨Or.inr ht, by simp [hs, ht]⟩
    · exact Or.inr ⟨hs, not_le.mp ht, by simp [hs, ht]⟩

end Taas.CircuitBreaker
