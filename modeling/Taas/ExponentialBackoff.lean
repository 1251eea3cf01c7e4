import Mathlib.Algebra.Order.BigOperators.Group.List
import Mathlib.Tactic.Linarith
import Mathlib.Tactic.Positivity
import Taas.RetryLoop

/-!
`ExponentialBackoffRetry`: the loops of `execute` and `execute_async` and the delays between their
calls. Times are rational numbers of seconds. A draw is what `random.uniform(0, 0.5)` returns.
-/
namespace Taas.ExponentialBackoff

open RetryLoop

variable {E V : Type}

structure Exceptions (E : Type) where
  isException : E → Bool
  isCancelledError : E → Bool
  cancelled_not_exception : ∀ e, isCancelledError e = true → isException e = false

structure Args where
  maxAttempts : ℤ := 3
  initialDelay : ℚ := 1
  maxDelay : ℚ := 60
  exponentialBase : ℚ := 2
  jitter : Bool := true

/-- A `ValueError` of the constructor, with the values that its message quotes. -/
inductive ValueError
  | maxAttempts (got : ℤ)
  | initialDelay (got : ℚ)
  | maxDelay (got initialDelay : ℚ)
  | exponentialBase (got : ℚ)
  deriving DecidableEq

/-- A policy that the constructor accepts. -/
structure ExponentialBackoffRetry where
  maxAttempts : ℤ
  initialDelay : ℚ
  maxDelay : ℚ
  exponentialBase : ℚ
  jitter : Bool
  maxAttempts_pos : 1 ≤ maxAttempts
  initialDelay_pos : 0 < initialDelay
  initialDelay_le : initialDelay ≤ maxDelay
  one_le_base : 1 ≤ exponentialBase
  deriving DecidableEq

def ExponentialBackoffRetry.init (args : Args) : Except ValueError ExponentialBackoffRetry :=
  if h₁ : args.maxAttempts < 1 then .error (.maxAttempts args.maxAttempts)
  else if h₂ : args.initialDelay ≤ 0 then .error (.initialDelay args.initialDelay)
  else if h₃ : args.maxDelay < args.initialDelay then
    .error (.maxDelay args.maxDelay args.initialDelay)
  else if h₄ : args.exponentialBase < 1 then .error (.exponentialBase args.exponentialBase)
  else .ok {
    maxAttempts := args.maxAttempts
    initialDelay := args.initialDelay
    maxDelay := args.maxDelay
    exponentialBase := args.exponentialBase
    jitter := args.jitter
    maxAttempts_pos := by omega
    initialDelay_pos := not_le.mp h₂
    initialDelay_le := not_lt.mp h₃
    one_le_base := not_lt.mp h₄ }

structure Draws where
  draw : ℕ → ℚ
  nonneg : ∀ n, 0 ≤ draw n
  le_half : ∀ n, draw n ≤ 1 / 2

/-- A predicate `should_retry`, and whether it is true as an object. -/
structure Predicate (E : Type) where
  truthy : Bool := true
  accepts : E → Bool

namespace ExponentialBackoffRetry

variable (p : ExponentialBackoffRetry)

def cappedDelay (attempt : ℕ) : ℚ :=
  min (p.initialDelay * p.exponentialBase ^ attempt) p.maxDelay

/-- `get_next_delay`, with the draw that it takes when there is jitter. -/
def getNextDelay (uniform : ℚ) (attempt : ℕ) : ℚ :=
  let delay := p.cappedDelay attempt
  if p.jitter then delay + delay * uniform else delay

variable (M : Exceptions E) (shouldRetry : Option (Predicate E)) (outcomes : ℕ → Except E V)
  (draws : Draws)

/-- The loop of `execute`: `except Exception`, and `if should_retry and not should_retry(e)`. -/
def syncLoop : Loop E where
  maxAttempts := p.maxAttempts
  caught := M.isException
  accepted e := !shouldRetry.any fun f => f.truthy && !f.accepts e
  delay n := p.getNextDelay (draws.draw n) n

/-- The loop of `execute_async`: a `CancelledError` is raised again, and the predicate is asked
when it is not None. -/
def asyncLoop : Loop E where
  maxAttempts := p.maxAttempts
  caught e := !M.isCancelledError e && M.isException e
  accepted e := !shouldRetry.any fun f => !f.accepts e
  delay n := p.getNextDelay (draws.draw n) n

def execute : Run V E := (p.syncLoop M shouldRetry draws).run outcomes fun _ => none

def executeAsync : Run V E := (p.asyncLoop M shouldRetry draws).run outcomes fun _ => none

end ExponentialBackoffRetry

/-- The run keeps to the number of calls and waits between them only, each time and all in all no
longer than it may. -/
structure Bounded (p : ExponentialBackoffRetry) (r : Run V E) : Prop where
  atMost : (r.calls : ℤ) ≤ p.maxAttempts
  between : r.WaitsBetweenCalls
  each : ∀ delay ∈ r.waits, delay ≤ p.maxDelay
  total : r.waits.sum ≤ (p.maxAttempts - 1) * p.maxDelay

/-- The waits of the policy stay below its maximum with any jitter, the longest one included. -/
def JitterFits (p : ExponentialBackoffRetry) : Prop :=
  p.jitter = false ∨ p.maxAttempts = 1 ∨
    p.initialDelay * p.exponentialBase ^ (p.maxAttempts - 2).toNat * (3 / 2) ≤ p.maxDelay

variable {p : ExponentialBackoffRetry} {draws : Draws}

theorem cappedDelay_nonneg (p : ExponentialBackoffRetry) (n : ℕ) : 0 ≤ p.cappedDelay n := by
  have hpos := p.initialDelay_pos
  have hbase := p.one_le_base
  have hmax := p.initialDelay_le
  exact le_min (by positivity) (by linarith)

/-- With any draw, the delay between two calls is in its bound when the jitter fits. -/
theorem getNextDelay_le (h : JitterFits p) {n : ℕ} (hn : (n : ℤ) + 1 < p.maxAttempts) :
    p.getNextDelay (draws.draw n) n ≤ p.maxDelay := by
  have hcap : p.cappedDelay n ≤ p.maxDelay := min_le_right _ _
  unfold ExponentialBackoffRetry.getNextDelay
  split
  · rename_i hjitter
    rcases h with hno | hone | hfits
    · simp [hno] at hjitter
    · omega
    · have hscale : 0 ≤ p.initialDelay := p.initialDelay_pos.le
      have hgrowth : p.exponentialBase ^ n ≤ p.exponentialBase ^ (p.maxAttempts - 2).toNat :=
        pow_le_pow_right₀ p.one_le_base (by omega)
      have hdraw := mul_le_mul_of_nonneg_left (draws.le_half n) (cappedDelay_nonneg p n)
      calc p.cappedDelay n + p.cappedDelay n * draws.draw n
          ≤ p.cappedDelay n * (3 / 2) := by linarith
        _ ≤ p.initialDelay * p.exponentialBase ^ n * (3 / 2) :=
          mul_le_mul_of_nonneg_right (min_le_left _ _) (by norm_num)
        _ ≤ p.initialDelay * p.exponentialBase ^ (p.maxAttempts - 2).toNat * (3 / 2) :=
          mul_le_mul_of_nonneg_right (mul_le_mul_of_nonneg_left hgrowth hscale) (by norm_num)
        _ ≤ p.maxDelay := hfits
  · exact hcap

theorem lt_getNextDelay (h : ¬ JitterFits p)
    (hdraw : draws.draw (p.maxAttempts - 2).toNat = 1 / 2) :
    p.maxDelay <
      p.getNextDelay (draws.draw (p.maxAttempts - 2).toNat) (p.maxAttempts - 2).toNat := by
  unfold JitterFits at h
  push Not at h
  obtain ⟨hjitter, -, hlong⟩ := h
  have hpos := p.initialDelay_pos
  have hmax := p.initialDelay_le
  rw [ExponentialBackoffRetry.getNextDelay, if_pos (by simpa using hjitter), hdraw]
  rcases le_total (p.initialDelay * p.exponentialBase ^ (p.maxAttempts - 2).toNat) p.maxDelay with
      hle | hle
  · rw [ExponentialBackoffRetry.cappedDelay, min_eq_left hle]
    linarith
  · rw [ExponentialBackoffRetry.cappedDelay, min_eq_right hle]
    linarith

theorem bounded_run {l : Loop E} (outcomes : ℕ → Except E V) (h : JitterFits p)
    (hattempts : l.maxAttempts = p.maxAttempts)
    (hdelay : ∀ n, l.delay n = p.getNextDelay (draws.draw n) n) :
    Bounded p (l.run outcomes fun _ => none) := by
  have hpos := p.maxAttempts_pos
  obtain ⟨n, tail, hfollows⟩ : ∃ n tail, l.Follows outcomes (fun _ => none) 0 n
      (l.run outcomes fun _ => none) tail :=
    Loop.run_follows (hattempts ▸ hpos)
  obtain rfl := hfollows.tail_eq_nil fun _ => rfl
  obtain ⟨k, hk, hwaits⟩ := hfollows.waits
  have hlt := hfollows.lt
  have hcalls := hfollows.calls
  rw [hattempts] at hk hlt
  have heach : ∀ delay ∈ (l.run outcomes fun _ => none).waits, delay ≤ p.maxDelay := by
    intro delay hmem
    rw [hwaits] at hmem
    obtain ⟨j, hj, rfl⟩ := List.mem_map.mp hmem
    rw [hdelay]
    have hjk := List.mem_range.mp hj
    exact getNextDelay_le h (by omega)
  refine ⟨by omega, hfollows.waitsBetweenCalls, heach, ?_⟩
  have hsum := List.sum_le_card_nsmul _ _ heach
  have hlength : (l.run outcomes fun _ => none).waits.length = k := by simp [hwaits]
  have hcount : (k : ℚ) ≤ p.maxAttempts - 1 := by
    have hle : (k : ℤ) ≤ p.maxAttempts - 1 := by omega
    exact_mod_cast hle
  have hmax : 0 ≤ p.maxDelay := p.initialDelay_pos.le.trans p.initialDelay_le
  rw [hlength, nsmul_eq_mul] at hsum
  exact hsum.trans (mul_le_mul_of_nonneg_right hcount hmax)

theorem mem_waits_of_failing {l : Loop E} {outcomes : ℕ → Except E V} {e : E}
    (hattempts : 2 ≤ l.maxAttempts) (hdelays : ∀ n, l.overflows n = false)
    (hfails : ∀ n, outcomes n = .error e) (he : l.Retried e) :
    l.delay (l.maxAttempts - 2).toNat ∈ (l.run outcomes fun _ => none).waits := by
  obtain ⟨n, tail, hfollows⟩ : ∃ n tail, l.Follows outcomes (fun _ => none) 0 n
      (l.run outcomes fun _ => none) tail :=
    Loop.run_follows (by omega)
  have hlast : (n : ℤ) + 1 = l.maxAttempts := by
    have hends := hfollows.ends
    generalize (l.run outcomes fun _ => none).outcome = outcome at hends
    cases hends with
    | returned hv => simp [hfails] at hv
    | uncaught he' hcaught =>
      obtain rfl : e = _ := by simpa [hfails] using he'
      simp [he.1] at hcaught
    | rejected he' _ haccepted =>
      obtain rfl : e = _ := by simpa [hfails] using he'
      simp [he.2] at haccepted
    | exhausted _ _ hlast => exact hlast
    | overflowed _ _ _ hoverflows => simp [hdelays] at hoverflows
    | interrupted _ _ _ _ hc => cases hc
  rw [hfollows.waits_eq]
  refine List.mem_append_left _ (List.mem_map_of_mem (List.mem_range.mpr ?_))
  omega

/-- Whatever fails, is retried and is drawn, the runs of a policy keep their bounds exactly when
its jitter fits. -/
theorem total_wait_iff (p : ExponentialBackoffRetry) :
    (∀ (E V : Type) (M : Exceptions E) (shouldRetry : Option (Predicate E))
      (outcomes : ℕ → Except E V) (draws : Draws),
      Bounded p (p.execute M shouldRetry outcomes draws) ∧
        Bounded p (p.executeAsync M shouldRetry outcomes draws)) ↔ JitterFits p := by
  constructor
  · intro h
    by_contra hnot
    let M : Exceptions Unit :=
      { isException := fun _ => true, isCancelledError := fun _ => false,
        cancelled_not_exception := by simp }
    let draws : Draws :=
      { draw := fun _ => 1 / 2, nonneg := fun _ => by norm_num, le_half := fun _ => le_rfl }
    have hpos := p.maxAttempts_pos
    have hattempts : 2 ≤ p.maxAttempts := by
      have hone : p.maxAttempts ≠ 1 := fun hone => hnot (Or.inr (Or.inl hone))
      omega
    obtain ⟨hbounded, -⟩ := h Unit Unit M none (fun _ => .error ()) draws
    have hmem := mem_waits_of_failing (l := p.syncLoop M none draws) (V := Unit) (e := ()) hattempts
      (fun _ => rfl) (fun _ => rfl) ⟨rfl, rfl⟩
    exact absurd (hbounded.each _ hmem) (not_le.mpr (lt_getNextDelay hnot rfl))
  · intro h E V M shouldRetry outcomes draws
    exact ⟨bounded_run outcomes h rfl fun _ => rfl, bounded_run outcomes h rfl fun _ => rfl⟩

def oneMinute : ExponentialBackoffRetry where
  maxAttempts := 2
  initialDelay := 60
  maxDelay := 60
  exponentialBase := 3
  jitter := true
  maxAttempts_pos := by decide
  initialDelay_pos := by decide
  initialDelay_le := by decide
  one_le_base := by decide

def timeouts : Exceptions Unit where
  isException _ := true
  isCancelledError _ := false
  cancelled_not_exception _ h := nomatch h

def quarter : Draws where
  draw _ := 1 / 4
  nonneg _ := by norm_num
  le_half _ := by norm_num

/-- The wait between the two calls is a minute and a quarter of one. -/
theorem jitter_exceeds_max :
    ExponentialBackoffRetry.init { maxAttempts := 2, initialDelay := 60, exponentialBase := 3 } =
      .ok oneMinute ∧
    (oneMinute.execute timeouts none (fun _ => .error ()) quarter : Run Unit Unit).events =
      [.call, .wait 75, .call] ∧
    ¬ ∀ (p : ExponentialBackoffRetry) (E V : Type) (M : Exceptions E)
      (shouldRetry : Option (Predicate E)) (outcomes : ℕ → Except E V) (draws : Draws),
      Bounded p (p.execute M shouldRetry outcomes draws) ∧
        Bounded p (p.executeAsync M shouldRetry outcomes draws) := by
  have hevents : (oneMinute.execute timeouts none (fun _ => .error ()) quarter :
      Run Unit Unit).events = [.call, .wait 75, .call] := by
    decide +kernel
  refine ⟨rfl, hevents, fun h => ?_⟩
  obtain ⟨hbounded, -⟩ := h oneMinute Unit Unit timeouts none (fun _ => .error ()) quarter
  have hwait := hbounded.each 75 (by simp [Run.waits, hevents, Event.delay?])
  norm_num [oneMinute] at hwait

end Taas.ExponentialBackoff
