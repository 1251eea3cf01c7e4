import Taas.RetryLoop
import Taas.RetryTenacity

/-!
The loop of `TenacityRetry.execute_async` with its waits, which a cancellation may end, and what
follows the loop. Without a cancelled wait it is the loop of `Taas.RetryTenacity`.
-/
namespace Taas.TenacityAsync

open RetryLoop
open RetryTenacity hiding Run
open TenacityRetry (Retryable)

variable {E K V : Type}

/-- The exceptions with the class `asyncio.CancelledError`. -/
structure AsyncExceptions (E K : Type) extends Exceptions E K where
  cancelledError : K
  cancelled_not_exception : ∀ e, isInstance e cancelledError = true →
    isInstance e exception = false

variable (p : TenacityRetry K) (M : AsyncExceptions E K) (shouldRetry : Option (E → Bool))

/-- `except asyncio.CancelledError: raise`, then `except Exception`; `should_retry` is asked when
it is not None. The handler does not catch what `get_next_delay` raises. -/
def asyncLoop : Loop E where
  maxAttempts := p.maxAttempts
  caught e := !M.isInstance e M.cancelledError && M.isInstance e M.exception
  accepted e := !shouldRetry.any fun shouldRetry => !shouldRetry e
  delay := p.exactDelay
  overflows n := !decide (p.HasDelay n)

/-- `execute_async`, for the outcomes of the calls and what `asyncio.sleep` raises after an
attempt. -/
def executeAsync (outcomes : ℕ → Except E V) (thrown : ℕ → Option E) : Run V E :=
  (asyncLoop p M shouldRetry).run outcomes thrown

/-- How `execute_async` ends with the call for attempt `n`. -/
inductive Stops (outcomes : ℕ → Except E V) (thrown : ℕ → Option E) (n : ℕ) : End V E → Prop
  | success {v : V} : outcomes n = .ok v → Stops outcomes thrown n (.returned v)
  | cancelled {e : E} : outcomes n = .error e → M.isInstance e M.cancelledError = true →
      Stops outcomes thrown n (.raised e)
  | notAnException {e : E} : outcomes n = .error e → M.isInstance e M.exception = false →
      Stops outcomes thrown n (.raised e)
  | rejected {e : E} {f : E → Bool} : outcomes n = .error e → shouldRetry = some f → f e = false →
      Stops outcomes thrown n (.raised e)
  | exhausted {e : E} : outcomes n = .error e → (n : ℤ) + 1 = p.maxAttempts →
      Stops outcomes thrown n (.raised e)
  | cancelledWait {e c : E} : outcomes n = .error e → thrown n = some c →
      Stops outcomes thrown n (.raised c)

/-- The calls up to the last one fail with exceptions that are retried after a full wait, the last
one ends the run with its own value or exception or in the wait after it, and the delays grow up
to their bound. -/
structure Correct (outcomes : ℕ → Except E V) (thrown : ℕ → Option E) (r : Run V E) : Prop where
  called : 1 ≤ r.calls
  atMost : (r.calls : ℤ) ≤ p.maxAttempts
  goesOn : ∀ j, j + 1 < r.calls →
    (∃ e, outcomes j = .error e ∧ Retryable M.toExceptions shouldRetry e) ∧ thrown j = none
  stops : Stops p M shouldRetry outcomes thrown (r.calls - 1) r.outcome
  noRuntimeError : r.outcome ≠ .fellThrough
  nondecreasing : r.waits.Pairwise (· ≤ ·)
  capped : ∀ delay ∈ r.waits, delay ≤ p.maxDelay

/-- The call for attempt `n` is made and is not the last one, and it fails with an exception that
is retried, as the calls before it do. -/
structure Awaited (outcomes : ℕ → Except E V) (thrown : ℕ → Option E) (n : ℕ) : Prop where
  notLast : (n : ℤ) + 1 < p.maxAttempts
  fails : ∀ j ≤ n, ∃ e, outcomes j = .error e ∧ Retryable M.toExceptions shouldRetry e
  waits : ∀ j < n, thrown j = none

variable {p M shouldRetry} {outcomes : ℕ → Except E V} {thrown : ℕ → Option E} {e : E} {n : ℕ}

theorem retried_iff :
    (asyncLoop p M shouldRetry).Retried e ↔ Retryable M.toExceptions shouldRetry e := by
  have hcancelled := M.cancelled_not_exception e
  unfold Loop.Retried asyncLoop Retryable
  simp only [Bool.and_eq_true, Bool.not_eq_true']
  refine and_congr ?_ ?_
  · constructor
    · exact fun h => h.2
    · intro h
      refine ⟨?_, h⟩
      by_contra hyes
      simp [hcancelled (by simpa using hyes)] at h
  · cases shouldRetry <;> simp

theorem overflows_iff : (asyncLoop p M shouldRetry).overflows n = true ↔ ¬ p.HasDelay n := by
  simp [asyncLoop]

theorem stops_of_ends {outcome : End V E} {tail : List Event}
    (h : (asyncLoop p M shouldRetry).Ends outcomes thrown n outcome tail)
    (hdelay : outcome ≠ .overflowError) :
    Stops p M shouldRetry outcomes thrown n outcome := by
  cases h with
  | returned hv => exact .success hv
  | uncaught he hcaught =>
    simp only [asyncLoop, Bool.and_eq_false_iff, Bool.not_eq_false'] at hcaught
    rcases hcaught with hcancelled | hno
    · exact .cancelled he hcancelled
    · exact .notAnException he hno
  | rejected he _ haccepted =>
    cases hpredicate : shouldRetry with
    | none => simp [asyncLoop, hpredicate] at haccepted
    | some f => exact .rejected he rfl (by simpa [asyncLoop, hpredicate] using haccepted)
  | exhausted he _ hlast => exact .exhausted he hlast
  | overflowed => exact absurd rfl hdelay
  | interrupted he _ _ _ hc => exact .cancelledWait he hc

/-- The calls, delays and outcome of a run of the loop without waits that end early. -/
def Shows (r : Run V E) (s : RetryTenacity.Run V E) : Prop :=
  r.calls = s.calls ∧ r.waits = s.delays ∧
    r.outcome = match s.outcome with
      | .returned v => .returned v
      | .raised e => .raised e
      | .overflowError => .overflowError

theorem Shows.after {r : Run V E} {s : RetryTenacity.Run V E} (h : Shows r s) (delay : ℚ) :
    Shows (r.after [.call, .wait delay]) (s.after delay) := by
  obtain ⟨hcalls, hwaits, houtcome⟩ := h
  refine ⟨?_, ?_, houtcome⟩
  · rw [RetryTenacity.Run.after, ← hcalls]
    simp [RetryLoop.Run.calls, RetryLoop.Run.after]
  · rw [RetryTenacity.Run.after, ← hwaits]
    rfl

theorem ends_shows {outcome : End V E} {tail : List Event}
    (h : (asyncLoop p M shouldRetry).Ends outcomes (fun _ => none) n outcome tail) :
    Shows { events := .call :: tail, outcome := outcome }
      (p.attempts M.toExceptions shouldRetry outcomes n) := by
  have hraises : ∀ {e}, outcomes n = .error e → ¬ (asyncLoop p M shouldRetry).Retried e →
      p.attempts M.toExceptions shouldRetry outcomes n = .last (.raised e) :=
    fun he hnot => attempts_raises he (mt retried_iff.mpr hnot)
  cases h with
  | returned hv =>
    rw [attempts_ok hv]
    exact ⟨rfl, rfl, rfl⟩
  | uncaught he hcaught =>
    rw [hraises he fun hr => by simp [hr.1] at hcaught]
    exact ⟨rfl, rfl, rfl⟩
  | rejected he _ haccepted =>
    rw [hraises he fun hr => by simp [hr.2] at haccepted]
    exact ⟨rfl, rfl, rfl⟩
  | exhausted he _ hlast =>
    rw [attempts_last he (le_of_eq hlast.symm)]
    exact ⟨rfl, rfl, rfl⟩
  | overflowed he hr hlt hoverflows =>
    have hnone : p.getNextDelay n = none := by
      simp [TenacityRetry.getNextDelay, overflows_iff.mp hoverflows]
    rw [attempts_retries he hlt (retried_iff.mp hr), hnone]
    exact ⟨rfl, rfl, rfl⟩
  | interrupted _ _ _ _ hc => cases hc

theorem loop_shows (m first : ℕ) (hm : p.maxAttempts = first + m + 1) (lastException : Option E) :
    Shows ((asyncLoop p M shouldRetry).loop outcomes (fun _ => none) (List.range' first (m + 1))
      lastException) (p.attempts M.toExceptions shouldRetry outcomes first) := by
  induction m generalizing first lastException with
  | zero =>
    have hlt : (first : ℤ) < (asyncLoop p M shouldRetry).maxAttempts := by
      show (first : ℤ) < p.maxAttempts
      omega
    rw [List.range'_succ]
    rcases Loop.loop_cases hlt (List.range' (first + 1) 0) lastException with
        ⟨outcome, tail, hends, heq⟩ | ⟨_, _, _, _, _, hnext, _⟩
    · rw [heq]
      exact ends_shows hends
    · have hnext' : (first : ℤ) + 1 < p.maxAttempts := hnext
      omega
  | succ m ih =>
    have hlt : (first : ℤ) < (asyncLoop p M shouldRetry).maxAttempts := by
      show (first : ℤ) < p.maxAttempts
      omega
    rw [List.range'_succ]
    rcases Loop.loop_cases hlt (List.range' (first + 1) (m + 1)) lastException with
        ⟨outcome, tail, hends, heq⟩ | ⟨e, hfails, he, hdelay, -, hnext, heq⟩
    · rw [heq]
      exact ends_shows hends
    · have hsome : p.getNextDelay first = some (p.exactDelay first) := by
        rw [TenacityRetry.getNextDelay, if_pos]
        simpa [asyncLoop] using hdelay
      rw [heq, attempts_retries hfails hnext (retried_iff.mp he), hsome]
      exact (ih (first + 1) (by push_cast; omega) (some e)).after (p.exactDelay first)

/-- Without cancelled waits `execute_async` is the loop of `Taas.RetryTenacity`. -/
theorem executeAsync_shows (p : TenacityRetry K) (M : AsyncExceptions E K)
    (shouldRetry : Option (E → Bool)) (outcomes : ℕ → Except E V) :
    Shows (executeAsync p M shouldRetry outcomes fun _ => none)
      (p.executeAsync M.toExceptions shouldRetry outcomes) := by
  have hpos := p.maxAttempts_pos
  have hm : p.maxAttempts.toNat = (p.maxAttempts - 1).toNat + 1 := by omega
  have hrange : List.range (asyncLoop p M shouldRetry).maxAttempts.toNat =
      List.range' 0 ((p.maxAttempts - 1).toNat + 1) := by
    rw [← hm, ← List.range_eq_range']
    rfl
  rw [executeAsync, Loop.run, hrange]
  exact loop_shows (p.maxAttempts - 1).toNat 0 (by push_cast; omega) none

theorem exactDelay_mono (hmultiplier : 0 < p.exponentialMultiplier) :
    Monotone p.exactDelay := by
  refine monotone_nat_of_le_succ fun attempt => ?_
  unfold TenacityRetry.exactDelay
  split
  · have hpos := p.initialDelay_pos
    have hbase := p.one_le_base
    have hgrowth : p.exponentialBase ^ attempt ≤ p.exponentialBase ^ (attempt + 1) :=
      pow_le_pow_right₀ hbase (Nat.le_succ attempt)
    have hscale : 0 ≤ p.initialDelay * p.exponentialMultiplier := by positivity
    exact min_le_min_right _ (mul_le_mul_of_nonneg_left hgrowth hscale)
  · exact le_rfl

theorem exactDelay_le (attempt : ℕ) : p.exactDelay attempt ≤ p.maxDelay := by
  unfold TenacityRetry.exactDelay
  split
  · exact min_le_right _ _
  · exact p.initialDelay_le

theorem follows_executeAsync (p : TenacityRetry K) (M : AsyncExceptions E K)
    (shouldRetry : Option (E → Bool)) (outcomes : ℕ → Except E V) (thrown : ℕ → Option E) :
    ∃ n tail, (asyncLoop p M shouldRetry).Follows outcomes thrown 0 n
      (executeAsync p M shouldRetry outcomes thrown) tail :=
  Loop.run_follows p.maxAttempts_pos

/-- A run in which a failure is retried whose delay is no float ends with the OverflowError. -/
theorem Awaited.ends {m : ℕ} {r : Run V E} {tail : List Event}
    (ha : Awaited p M shouldRetry outcomes thrown n) (hno : ¬ p.HasDelay n)
    (h : (asyncLoop p M shouldRetry).Follows outcomes thrown 0 m r tail) :
    r.outcome = .overflowError := by
  have hle : m ≤ n := by
    by_contra hlt
    obtain ⟨-, hdelay, -⟩ := h.before n (Nat.zero_le n) (not_le.mp hlt)
    rw [overflows_iff.mpr hno] at hdelay
    cases hdelay
  obtain ⟨e, he, hretried⟩ := ha.fails m hle
  have hends := h.ends
  have hnext := ha.notLast
  generalize r.outcome = outcome at hends
  cases hends with
  | overflowed => rfl
  | returned hv => simp [he] at hv
  | uncaught he' hcaught =>
    obtain rfl : e = _ := by simpa [he] using he'
    simp [(retried_iff.mpr hretried).1] at hcaught
  | rejected he' _ haccepted =>
    obtain rfl : e = _ := by simpa [he] using he'
    simp [(retried_iff.mpr hretried).2] at haccepted
  | exhausted _ _ hlast =>
    have hlast' : (m : ℤ) + 1 = p.maxAttempts := hlast
    omega
  | interrupted _ _ _ hdelay hc =>
    rcases Nat.lt_or_eq_of_le hle with hlt | rfl
    · simp [ha.waits m hlt] at hc
    · rw [overflows_iff.mpr hno] at hdelay
      cases hdelay

theorem correct_of_ne (hmultiplier : 0 < p.exponentialMultiplier)
    (hdelays : (executeAsync p M shouldRetry outcomes thrown).outcome ≠ .overflowError) :
    Correct p M shouldRetry outcomes thrown (executeAsync p M shouldRetry outcomes thrown) := by
  obtain ⟨n, tail, h⟩ := follows_executeAsync p M shouldRetry outcomes thrown
  have hcalls := h.calls
  have hlt : (n : ℤ) < p.maxAttempts := h.lt
  have hlast : (executeAsync p M shouldRetry outcomes thrown).calls - 1 = n := by omega
  have hstops := stops_of_ends h.ends hdelays
  obtain ⟨k, -, hwaits⟩ := h.waits
  refine ⟨by omega, by omega, fun j hj => ?_, hlast ▸ hstops, fun hfell => ?_, ?_, ?_⟩
  · obtain ⟨⟨e, he, hretried⟩, -, hwait⟩ := h.before j (Nat.zero_le j) (by omega)
    exact ⟨⟨e, he, retried_iff.mp hretried⟩, hwait⟩
  · rw [hfell] at hstops
    cases hstops
  · rw [hwaits, List.pairwise_map]
    refine List.pairwise_lt_range.imp fun hij => ?_
    exact exactDelay_mono hmultiplier hij.le
  · intro delay hdelay
    rw [hwaits] at hdelay
    obtain ⟨attempt, -, rfl⟩ := List.mem_map.mp hdelay
    exact exactDelay_le attempt

/-- A run of `execute_async` is correct exactly when `get_next_delay` has a delay for every
failure that is retried. -/
theorem execute_async_correct_iff (p : TenacityRetry K)
    (hmultiplier : 0 < p.exponentialMultiplier) (M : AsyncExceptions E K)
    (shouldRetry : Option (E → Bool)) (outcomes : ℕ → Except E V) (thrown : ℕ → Option E) :
    Correct p M shouldRetry outcomes thrown (executeAsync p M shouldRetry outcomes thrown) ↔
      ∀ n, Awaited p M shouldRetry outcomes thrown n → p.HasDelay n := by
  obtain ⟨m, tail, h⟩ := follows_executeAsync p M shouldRetry outcomes thrown
  constructor
  · intro hcorrect n ha
    by_contra hno
    have hstops := hcorrect.stops
    rw [ha.ends hno h] at hstops
    cases hstops
  · intro hdelays
    refine correct_of_ne hmultiplier fun hoverflow => ?_
    have hends := h.ends
    rw [hoverflow] at hends
    cases hends with
    | overflowed he hretried hnext hoverflows =>
      refine overflows_iff.mp hoverflows (hdelays m ⟨hnext, fun j hj => ?_, fun j hj => ?_⟩)
      · rcases Nat.lt_or_eq_of_le hj with hlt | rfl
        · obtain ⟨⟨e, he, hretried⟩, -⟩ := h.before j (Nat.zero_le j) hlt
          exact ⟨e, he, retried_iff.mp hretried⟩
        · exact ⟨_, he, retried_iff.mp hretried⟩
      · exact (h.before j (Nat.zero_le j) hj).2.2

inductive Failure | timeout | cancelled deriving DecidableEq
inductive FailureClass | exception | cancelledError deriving DecidableEq

def failures : AsyncExceptions Failure FailureClass where
  isInstance e k := match e, k with
    | .timeout, .exception => true
    | .cancelled, .cancelledError => true
    | _, _ => false
  exception := .exception
  interrupt _ := false
  tryAgain _ := false
  lastAttempt _ := none
  cancelledError := .cancelledError
  interrupt_not_exception _ h := nomatch h
  tryAgain_exception _ h := nomatch h
  cancelled_not_exception e h := by
    cases e with
    | timeout => cases h
    | cancelled => rfl

def threeAttempts : TenacityRetry FailureClass where
  maxAttempts := 3
  initialDelay := 1
  maxDelay := 60
  exponentialBase := 2
  waitStrategy := "exponential"
  exponentialMultiplier := 1
  retryOnExceptions := [.exception]
  maxAttempts_pos := by decide
  initialDelay_pos := by decide
  initialDelay_le := by decide
  one_le_base := by decide
  strategy := Or.inl rfl

example : TenacityRetry.init FailureClass.exception {} = .ok threeAttempts := rfl

/-- The second wait is cancelled. -/
theorem execute_async_correct_cancelled :
    (executeAsync threeAttempts failures none (fun _ => .error .timeout)
      (fun n => if n = 1 then some .cancelled else none) : Run ℕ Failure) =
        { events := [.call, .wait 1, .call, .wait 2], outcome := .raised .cancelled } ∧
    Correct threeAttempts failures none (fun _ => .error .timeout)
      (fun n => if n = 1 then some .cancelled else none)
      (executeAsync threeAttempts failures none (fun _ => .error .timeout)
        (fun n => if n = 1 then some .cancelled else none) : Run ℕ Failure) := by
  have hdelays : ∀ n : ℕ, (n : ℤ) + 1 < 3 → threeAttempts.HasDelay n := by
    intro n hn
    have hcases : n = 0 ∨ n = 1 := by omega
    rcases hcases with rfl | rfl
    · decide +kernel
    · decide +kernel
  refine ⟨by decide +kernel, ?_⟩
  exact (execute_async_correct_iff threeAttempts (by decide) failures none _ _).mpr
    fun n ha => hdelays n ha.notLast

/-- Four attempts with a base whose square is no float. -/
def hugeBase : TenacityRetry FailureClass where
  maxAttempts := 4
  initialDelay := 1
  maxDelay := 60
  exponentialBase := 10 ^ 155
  waitStrategy := "exponential"
  exponentialMultiplier := 1
  retryOnExceptions := [.exception]
  maxAttempts_pos := by decide
  initialDelay_pos := by decide
  initialDelay_le := by decide
  one_le_base := by decide +kernel
  strategy := Or.inl rfl

/-- A function that always fails is called three times of four, and what is raised is not its
exception. -/
theorem delay_overflows :
    TenacityRetry.init FailureClass.exception
      { maxAttempts := 4, exponentialBase := 10 ^ 155 } = .ok hugeBase ∧
    (executeAsync hugeBase failures none (fun _ => .error .timeout) (fun _ => none) :
      Run ℕ Failure) =
        { events := [.call, .wait 1, .call, .wait 60, .call], outcome := .overflowError } ∧
    ¬ ∀ (p : TenacityRetry FailureClass), 0 < p.exponentialMultiplier →
      ∀ (outcomes : ℕ → Except Failure ℕ) (thrown : ℕ → Option Failure),
        Correct p failures none outcomes thrown (executeAsync p failures none outcomes thrown) := by
  have hrun : (executeAsync hugeBase failures none (fun _ => .error .timeout) (fun _ => none) :
      Run ℕ Failure) =
        { events := [.call, .wait 1, .call, .wait 60, .call], outcome := .overflowError } := by
    decide +kernel
  refine ⟨?_, hrun, fun h => ?_⟩
  · rfl
  · have hstops := (h hugeBase (by decide) (fun _ => .error .timeout) fun _ => none).stops
    rw [hrun] at hstops
    cases hstops

end Taas.TenacityAsync
