import Mathlib.Algebra.Order.Ring.Rat
import Mathlib.Tactic.Linarith
import Mathlib.Tactic.Ring

/-!
`TenacityRetry`: the retry loop of tenacity behind `execute`, and the hand-written loop of
`execute_async`. Times are rational numbers of seconds; arithmetic is exact, but a power that is
no float raises OverflowError, as that of floats does. A function is given by the outcomes of its
calls; a run is the number of calls, the delays between them and the final outcome.
-/
namespace Taas.RetryTenacity

variable {E K V : Type}

/-- Exceptions `E` and exception classes `K`, as far as the loops look at them. -/
structure Exceptions (E K : Type) where
  isInstance : E → K → Bool
  /-- The class `Exception`. -/
  exception : K
  /-- A `KeyboardInterrupt` or a `SystemExit`. -/
  interrupt : E → Bool
  /-- A `tenacity.TryAgain`. -/
  tryAgain : E → Bool
  /-- For a `tenacity.RetryError` whose last attempt failed, the exception of that attempt. -/
  lastAttempt : E → Option E
  interrupt_not_exception : ∀ e, interrupt e = true → isInstance e exception = false
  tryAgain_exception : ∀ e, tryAgain e = true → isInstance e exception = true

structure Args (K : Type) where
  maxAttempts : ℤ := 3
  initialDelay : ℚ := 1
  maxDelay : ℚ := 60
  exponentialBase : ℚ := 2
  waitStrategy : String := "exponential"
  exponentialMultiplier : ℚ := 1
  retryOnExceptions : Option (List K) := none

/-- A `ValueError` of the constructor, with the values that its message quotes. -/
inductive ValueError
  | maxAttempts (got : ℤ)
  | initialDelay (got : ℚ)
  | maxDelay (got initialDelay : ℚ)
  | exponentialBase (got : ℚ)
  | waitStrategy (got : String)
  deriving DecidableEq

/-- A policy that the constructor accepts. -/
structure TenacityRetry (K : Type) where
  maxAttempts : ℤ
  initialDelay : ℚ
  maxDelay : ℚ
  exponentialBase : ℚ
  waitStrategy : String
  exponentialMultiplier : ℚ
  retryOnExceptions : List K
  maxAttempts_pos : 1 ≤ maxAttempts
  initialDelay_pos : 0 < initialDelay
  initialDelay_le : initialDelay ≤ maxDelay
  one_le_base : 1 ≤ exponentialBase
  strategy : waitStrategy = "exponential" ∨ waitStrategy = "fixed"

/-- `retry_on_exceptions or (Exception,)`. -/
def retryOnOrDefault (exception : K) : Option (List K) → List K
  | none | some [] => [exception]
  | some classes => classes

def TenacityRetry.init (exception : K) (args : Args K) : Except ValueError (TenacityRetry K) :=
  if h₁ : args.maxAttempts < 1 then .error (.maxAttempts args.maxAttempts)
  else if h₂ : args.initialDelay ≤ 0 then .error (.initialDelay args.initialDelay)
  else if h₃ : args.maxDelay < args.initialDelay then
    .error (.maxDelay args.maxDelay args.initialDelay)
  else if h₄ : args.exponentialBase < 1 then .error (.exponentialBase args.exponentialBase)
  else if h₅ : args.waitStrategy ∉ ["exponential", "fixed"] then
    .error (.waitStrategy args.waitStrategy)
  else .ok {
    maxAttempts := args.maxAttempts
    initialDelay := args.initialDelay
    maxDelay := args.maxDelay
    exponentialBase := args.exponentialBase
    waitStrategy := args.waitStrategy
    exponentialMultiplier := args.exponentialMultiplier
    retryOnExceptions := retryOnOrDefault exception args.retryOnExceptions
    maxAttempts_pos := by omega
    initialDelay_pos := not_le.mp h₂
    initialDelay_le := not_lt.mp h₃
    one_le_base := not_lt.mp h₄
    strategy := by simpa [or_iff_not_imp_left] using h₅ }

/-- The arguments that the constructor accepts, and what it stores of them. -/
theorem init_ok (exception : K) (args : Args K) (h₁ : 1 ≤ args.maxAttempts)
    (h₂ : 0 < args.initialDelay) (h₃ : args.initialDelay ≤ args.maxDelay)
    (h₄ : 1 ≤ args.exponentialBase) (h₅ : args.waitStrategy ∈ ["exponential", "fixed"]) :
    ∃ p, TenacityRetry.init exception args = .ok p ∧ p.maxAttempts = args.maxAttempts ∧
      p.initialDelay = args.initialDelay ∧ p.maxDelay = args.maxDelay ∧
      p.exponentialBase = args.exponentialBase ∧ p.waitStrategy = args.waitStrategy ∧
      p.exponentialMultiplier = args.exponentialMultiplier ∧
      p.retryOnExceptions = retryOnOrDefault exception args.retryOnExceptions := by
  unfold TenacityRetry.init
  rw [dif_neg (by omega), dif_neg (not_le.mpr h₂), dif_neg (not_lt.mpr h₃),
    dif_neg (not_lt.mpr h₄), dif_neg (not_not.mpr h₅)]
  exact ⟨_, rfl, rfl, rfl, rfl, rfl, rfl, rfl, rfl⟩

/-- A run returns a value or raises an exception of the function, or the OverflowError of a power
after a call. -/
inductive Outcome (V E : Type)
  | returned (v : V)
  | raised (e : E)
  | overflowError
  deriving DecidableEq

structure Run (V E : Type) where
  calls : ℕ
  delays : List ℚ
  outcome : Outcome V E
  deriving DecidableEq

def Run.last (outcome : Outcome V E) : Run V E where
  calls := 1
  delays := []
  outcome := outcome

def Run.after (delay : ℚ) (r : Run V E) : Run V E where
  calls := r.calls + 1
  delays := delay :: r.delays
  outcome := r.outcome

/-- `except RetryError as e: e.reraise()`, when the last attempt of `e` failed. -/
def Run.reraise (M : Exceptions E K) (r : Run V E) : Run V E :=
  match r.outcome with
  | .returned _ | .overflowError => r
  | .raised e => { r with outcome := .raised ((M.lastAttempt e).getD e) }

/-- What rounds to a float: numbers below the middle between the largest float and the next power
of two. -/
def IsFloat (x : ℚ) : Prop := x < 2 ^ 1024 - 2 ^ 970

instance (x : ℚ) : Decidable (IsFloat x) := by
  unfold IsFloat
  infer_instance

namespace TenacityRetry

/-- tenacity's `wait_exponential` after attempt number `n`, which catches the OverflowError. -/
def waitExponential (multiplier min max expBase : ℚ) (n : ℕ) : ℚ :=
  if IsFloat (expBase ^ (n - 1)) then
    Max.max (Max.max 0 min) (Min.min (multiplier * expBase ^ (n - 1)) max)
  else max

/-- `_create_wait_strategy`: the wait after attempt number `n`. -/
def createWaitStrategy (p : TenacityRetry K) (n : ℕ) : ℚ :=
  if p.waitStrategy = "exponential" then
    waitExponential p.exponentialMultiplier p.initialDelay p.maxDelay p.exponentialBase n
  else p.initialDelay

/-- `_create_retry_condition`, for an attempt that raised. -/
def createRetryCondition (p : TenacityRetry K) (M : Exceptions E K)
    (shouldRetry : Option (E → Bool)) (e : E) : Bool :=
  match shouldRetry with
  | some shouldRetry => if M.interrupt e then false else shouldRetry e
  | none => p.retryOnExceptions.any (M.isInstance e)

variable (p : TenacityRetry K) (M : Exceptions E K) (shouldRetry : Option (E → Bool))
  (outcomes : ℕ → Except E V)

/-- tenacity's `Retrying.__call__` with `reraise`, from attempt number `n` on. `TryAgain` is
retried whatever the condition says; the stop condition is read after the retry condition. -/
def retrying (n : ℕ) : Run V E :=
  match outcomes (n - 1) with
  | .ok v => .last (.returned v)
  | .error e =>
    if M.tryAgain e || p.createRetryCondition M shouldRetry e then
      if p.maxAttempts ≤ n then .last (.raised e)
      else (retrying (n + 1)).after (p.createWaitStrategy n)
    else .last (.raised e)
  termination_by (p.maxAttempts - n).toNat

/-- `execute`: of a `RetryError`, the exception of its last attempt is raised. -/
def execute : Run V E := (p.retrying M shouldRetry outcomes 1).reraise M

/-- The delay of `get_next_delay` over exact arithmetic. -/
def exactDelay (attempt : ℕ) : ℚ :=
  if p.waitStrategy = "exponential" then
    let delay := p.initialDelay * p.exponentialMultiplier * p.exponentialBase ^ attempt
    min delay p.maxDelay
  else p.initialDelay

def HasDelay (attempt : ℕ) : Prop :=
  p.waitStrategy = "exponential" → IsFloat (p.exponentialBase ^ attempt)

instance (attempt : ℕ) : Decidable (p.HasDelay attempt) := by
  unfold HasDelay
  infer_instance

/-- `get_next_delay`; none is an OverflowError. -/
def getNextDelay (attempt : ℕ) : Option ℚ :=
  if p.HasDelay attempt then some (p.exactDelay attempt) else none

/-- The loop of `execute_async` from `attempt` on. An exception that is no `Exception`, such
as a `CancelledError`, leaves it, and so does what `get_next_delay` raises in the handler. The last
attempt returns or raises, so nothing after the loop is reached. -/
def attempts (attempt : ℕ) : Run V E :=
  match outcomes attempt with
  | .ok v => .last (.returned v)
  | .error e =>
    if M.isInstance e M.exception then
      if shouldRetry.any fun shouldRetry => !shouldRetry e then .last (.raised e)
      else if p.maxAttempts ≤ attempt + 1 then .last (.raised e)
      else
        match p.getNextDelay attempt with
        | some delay => (attempts (attempt + 1)).after delay
        | none => .last .overflowError
    else .last (.raised e)
  termination_by (p.maxAttempts - attempt).toNat

def executeAsync : Run V E := p.attempts M shouldRetry outcomes 0

def Retryable (M : Exceptions E K) (shouldRetry : Option (E → Bool)) (e : E) : Prop :=
  M.isInstance e M.exception = true ∧ ∀ f, shouldRetry = some f → f e = true

/-- The exception is retried by both loops or by neither: with a predicate, a `TryAgain` is
accepted by it and an exception that is no `Exception` is not; without one, the exceptions to
retry on and `TryAgain` are what the exception is, or it is no `Exception`. -/
def Alike (e : E) : Prop :=
  match shouldRetry with
  | some f =>
    if M.isInstance e M.exception then M.tryAgain e = true → f e = true
    else M.interrupt e = false → f e = false
  | none =>
    M.isInstance e M.exception = true ↔
      M.tryAgain e = true ∨ ∃ k ∈ p.retryOnExceptions, M.isInstance e k = true

/-- The exception is no `RetryError` with the exception of a failed attempt. -/
def Unwrapped (e : E) : Prop := ∀ inner, M.lastAttempt e = some inner → inner = e

/-- The delay after the attempt is the same in both loops. -/
def DelaysAgree (attempt : ℕ) : Prop :=
  p.waitStrategy = "exponential" →
    let x := p.exponentialMultiplier * p.exponentialBase ^ attempt
    IsFloat (p.exponentialBase ^ attempt) ∧ 1 ≤ x ∧
      (p.initialDelay = 1 ∨ p.initialDelay = p.maxDelay ∨ x = 1 ∧ 1 ≤ p.initialDelay ∨
        p.maxDelay ≤ x ∧ p.maxDelay ≤ p.initialDelay * x)

/-- The loops go on alike after `attempt` has raised the exception. -/
def Agrees (attempt : ℕ) (e : E) : Prop :=
  if (attempt : ℤ) + 1 < p.maxAttempts then
    p.Alike M shouldRetry e ∧ (Retryable M shouldRetry e → p.DelaysAgree attempt) ∧
      (¬ Retryable M shouldRetry e → Unwrapped M e)
  else Unwrapped M e

/-- The attempts from `first` up to `attempt` raise exceptions that are retried. -/
def Reached (first attempt : ℕ) : Prop :=
  ∀ j, first ≤ j → j < attempt → ∃ e, outcomes j = .error e ∧ Retryable M shouldRetry e

end TenacityRetry

/-- The two delay formulas, for `x = multiplier * base ^ attempt`. -/
theorem delay_eq_iff {i m x : ℚ} (hi : 0 < i) (hm : i ≤ m) :
    max (max 0 i) (min x m) = min (i * x) m ↔
      1 ≤ x ∧ (i = 1 ∨ i = m ∨ x = 1 ∧ 1 ≤ i ∨ m ≤ x ∧ m ≤ i * x) := by
  rw [max_eq_right hi.le]
  constructor
  · intro h
    have hx : 1 ≤ x := by
      by_contra hlt
      have hsmall : i * x < i := mul_lt_of_lt_one_right hi (not_le.mp hlt)
      have hle : i ≤ i * x := (le_max_left i _).trans (h.le.trans (min_le_left _ _))
      exact absurd hle (not_le.mpr hsmall)
    refine ⟨hx, ?_⟩
    by_cases hcap : m ≤ i * x
    · rw [min_eq_right hcap] at h
      by_cases hmx : m ≤ x
      · exact Or.inr (Or.inr (Or.inr ⟨hmx, hcap⟩))
      · rw [min_eq_left (not_le.mp hmx).le] at h
        rcases max_choice i x with hmax | hmax
        · exact Or.inr (Or.inl (hmax.symm.trans h))
        · exact absurd (hmax.symm.trans h).ge hmx
    · rw [min_eq_left (not_le.mp hcap).le] at h
      have hxm : x ≤ m := by
        by_contra hmx
        have hm' : m ≤ max i (min x m) := by
          rw [min_eq_right (not_le.mp hmx).le]
          exact le_max_right i m
        exact hcap (h ▸ hm')
      rw [min_eq_left hxm] at h
      rcases max_cases i x with ⟨hmax, hxi⟩ | ⟨hmax, -⟩
      · have hone : i * 1 = i * x := (mul_one i).trans (hmax.symm.trans h)
        have hx1 : x = 1 := (mul_left_cancel₀ hi.ne' hone).symm
        exact Or.inr (Or.inr (Or.inl ⟨hx1, hx1 ▸ hxi⟩))
      · have hone : 1 * x = i * x := (one_mul x).trans (hmax.symm.trans h)
        exact Or.inl (mul_right_cancel₀ (by positivity) hone).symm
  · rintro ⟨hx, hcase⟩
    have hix : i ≤ i * x := le_mul_of_one_le_right hi.le hx
    rcases hcase with rfl | rfl | ⟨rfl, hone⟩ | ⟨hmx, hcap⟩
    · rw [one_mul, max_eq_right (le_min hx hm)]
    · rw [min_eq_right hix, max_eq_left (min_le_right x i)]
    · rw [mul_one, min_eq_left hm, max_eq_left ((min_le_left 1 m).trans hone)]
    · rw [min_eq_right hmx, min_eq_right hcap, max_eq_right hm]

variable {p : TenacityRetry K} {M : Exceptions E K} {shouldRetry : Option (E → Bool)}
  {outcomes : ℕ → Except E V} {e : E}

open TenacityRetry

theorem wait_eq_iff (attempt : ℕ) :
    p.getNextDelay attempt = some (p.createWaitStrategy (attempt + 1)) ↔
      p.DelaysAgree attempt := by
  unfold createWaitStrategy getNextDelay HasDelay exactDelay DelaysAgree
  by_cases hs : p.waitStrategy = "exponential"
  · by_cases hfloat : IsFloat (p.exponentialBase ^ attempt)
    · simp only [hs, hfloat, if_true, true_implies, true_and, waitExponential, Nat.add_sub_cancel,
        mul_assoc, Option.some.injEq]
      exact eq_comm.trans (delay_eq_iff p.initialDelay_pos p.initialDelay_le)
    · simp [hs, hfloat]
  · simp [hs]

theorem alike_iff : p.Alike M shouldRetry e ↔
    ((M.tryAgain e || p.createRetryCondition M shouldRetry e) = true ↔
      Retryable M shouldRetry e) := by
  have hagain := M.tryAgain_exception e
  have hinterrupt := M.interrupt_not_exception e
  unfold Alike createRetryCondition Retryable
  cases shouldRetry with
  | none =>
    simp only [Bool.or_eq_true, List.any_eq_true, reduceCtorEq, false_implies, implies_true,
      and_true]
    exact iff_comm
  | some f =>
    cases hexception : M.isInstance e M.exception with
    | true =>
      have hno : M.interrupt e = false := by
        by_contra hyes
        simp [hinterrupt (by simpa using hyes)] at hexception
      cases f e <;> simp [hno]
    | false =>
      have hno : M.tryAgain e = false := by
        by_contra hyes
        simp [hagain (by simpa using hyes)] at hexception
      cases M.interrupt e <;> simp [hno]

@[simp] theorem reraise_after (d : ℚ) (r : Run V E) :
    (r.after d).reraise M = (r.reraise M).after d := by
  obtain ⟨calls, delays, outcome⟩ := r
  cases outcome <;> rfl

theorem after_inj {d d' : ℚ} {r r' : Run V E} : r.after d = r'.after d' ↔ d = d' ∧ r = r' := by
  obtain ⟨calls, delays, outcome⟩ := r
  obtain ⟨calls', delays', outcome'⟩ := r'
  simp only [Run.after, Run.mk.injEq, Nat.add_right_cancel_iff, List.cons.injEq]
  constructor
  · rintro ⟨hcalls, ⟨hd, hdelays⟩, houtcome⟩
    exact ⟨hd, hcalls, hdelays, houtcome⟩
  · rintro ⟨hd, hcalls, hdelays, houtcome⟩
    exact ⟨hcalls, ⟨hd, hdelays⟩, houtcome⟩

theorem ne_after {r : Run V E} (hr : r.delays = []) (d : ℚ) (r' : Run V E) : r ≠ r'.after d := by
  rintro rfl
  cases hr

theorem reraise_last_iff : (Run.last (.raised e) : Run V E).reraise M = .last (.raised e) ↔
    Unwrapped M e := by
  simp only [Run.reraise, Run.last, Run.mk.injEq, Outcome.raised.injEq, true_and, Unwrapped]
  cases M.lastAttempt e with
  | none => simp
  | some inner => simp

theorem retrying_ok {n : ℕ} {v : V} (h : outcomes n = .ok v) :
    p.retrying M shouldRetry outcomes (n + 1) = .last (.returned v) := by
  rw [retrying, Nat.add_sub_cancel, h]

theorem attempts_ok {n : ℕ} {v : V} (h : outcomes n = .ok v) :
    p.attempts M shouldRetry outcomes n = .last (.returned v) := by
  rw [attempts, h]

theorem retrying_last {n : ℕ} (h : outcomes n = .error e) (hlast : p.maxAttempts ≤ n + 1) :
    p.retrying M shouldRetry outcomes (n + 1) = .last (.raised e) := by
  rw [retrying, Nat.add_sub_cancel, h]
  simp [hlast]

theorem attempts_last {n : ℕ} (h : outcomes n = .error e) (hlast : p.maxAttempts ≤ n + 1) :
    p.attempts M shouldRetry outcomes n = .last (.raised e) := by
  rw [attempts, h]
  simp [hlast]

theorem retrying_retries {n : ℕ} (h : outcomes n = .error e)
    (hnext : (n : ℤ) + 1 < p.maxAttempts)
    (hr : (M.tryAgain e || p.createRetryCondition M shouldRetry e) = true) :
    p.retrying M shouldRetry outcomes (n + 1) =
      (p.retrying M shouldRetry outcomes (n + 2)).after (p.createWaitStrategy (n + 1)) := by
  have hnot : ¬ p.maxAttempts ≤ ((n + 1 : ℕ) : ℤ) := by omega
  rw [retrying, Nat.add_sub_cancel, h]
  simp only [hr, if_true, if_neg hnot]

theorem retrying_raises {n : ℕ} (h : outcomes n = .error e)
    (hr : (M.tryAgain e || p.createRetryCondition M shouldRetry e) ≠ true) :
    p.retrying M shouldRetry outcomes (n + 1) = .last (.raised e) := by
  rw [retrying, Nat.add_sub_cancel, h]
  simp only [if_neg hr]

theorem attempts_retries {n : ℕ} (h : outcomes n = .error e)
    (hnext : (n : ℤ) + 1 < p.maxAttempts) (hr : Retryable M shouldRetry e) :
    p.attempts M shouldRetry outcomes n =
      match p.getNextDelay n with
      | some delay => (p.attempts M shouldRetry outcomes (n + 1)).after delay
      | none => .last .overflowError := by
  have hnot : ¬ p.maxAttempts ≤ (n : ℤ) + 1 := by omega
  have haccepts : (shouldRetry.any fun f => !f e) = false := by
    cases shouldRetry with
    | none => rfl
    | some f => simp [hr.2 f rfl]
  rw [attempts, h]
  simp only [hr.1, haccepts, if_true, Bool.false_eq_true, if_false, if_neg hnot]

theorem attempts_raises {n : ℕ} (h : outcomes n = .error e) (hr : ¬ Retryable M shouldRetry e) :
    p.attempts M shouldRetry outcomes n = .last (.raised e) := by
  rw [attempts, h]
  cases hexception : M.isInstance e M.exception with
  | false => simp [hexception]
  | true =>
    cases shouldRetry with
    | none => exact absurd ⟨hexception, by simp⟩ hr
    | some f =>
      cases hf : f e with
      | false => simp [hexception, hf]
      | true => exact absurd ⟨hexception, by simp [hf]⟩ hr

/-- One attempt before the others: if it is retried, the others are reached from the next. -/
theorem reached_split {P : ℕ → E → Prop} {n : ℕ} (hn : (n : ℤ) < p.maxAttempts) :
    (∀ m e, n ≤ m → (m : ℤ) < p.maxAttempts → Reached M shouldRetry outcomes n m →
      outcomes m = .error e → P m e) ↔
    (∀ e, outcomes n = .error e → P n e) ∧
      ((∃ e, outcomes n = .error e ∧ Retryable M shouldRetry e) →
        ∀ m e, n + 1 ≤ m → (m : ℤ) < p.maxAttempts → Reached M shouldRetry outcomes (n + 1) m →
          outcomes m = .error e → P m e) := by
  constructor
  · intro h
    refine ⟨fun e he => h n e le_rfl hn (fun j hj hlt => absurd hlt (by omega)) he, ?_⟩
    intro hretried m e hm hlt hreached he
    refine h m e (by omega) hlt ?_ he
    intro j hj hjm
    by_cases hjn : j = n
    · exact hjn ▸ hretried
    · exact hreached j (by omega) hjm
  · rintro ⟨hfirst, hrest⟩ m e hm hlt hreached he
    by_cases hmn : m = n
    · subst hmn
      exact hfirst e he
    · exact hrest (hreached n le_rfl (by omega)) m e (by omega) hlt
        (fun j hj hjm => hreached j (by omega) hjm) he

theorem agree_last {n : ℕ} (hlast : p.maxAttempts ≤ n + 1) :
    (p.retrying M shouldRetry outcomes (n + 1)).reraise M =
      p.attempts M shouldRetry outcomes n ↔
    ∀ e, outcomes n = .error e → p.Agrees M shouldRetry n e := by
  cases h : outcomes n with
  | ok v => simp [retrying_ok h, attempts_ok h, Run.reraise, Run.last]
  | error e =>
    have hnot : ¬ (n : ℤ) + 1 < p.maxAttempts := by omega
    rw [retrying_last h hlast, attempts_last h hlast, reraise_last_iff]
    simp [Agrees, hnot]

/-- One attempt of both loops: it agrees, and after a retry the rest does. -/
theorem agree_step {n : ℕ} (hnext : (n : ℤ) + 1 < p.maxAttempts) :
    (p.retrying M shouldRetry outcomes (n + 1)).reraise M =
      p.attempts M shouldRetry outcomes n ↔
    (∀ e, outcomes n = .error e → p.Agrees M shouldRetry n e) ∧
      ((∃ e, outcomes n = .error e ∧ Retryable M shouldRetry e) →
        (p.retrying M shouldRetry outcomes (n + 2)).reraise M =
          p.attempts M shouldRetry outcomes (n + 1)) := by
  cases h : outcomes n with
  | ok v => simp [retrying_ok h, attempts_ok h, Run.reraise, Run.last]
  | error e =>
    simp only [Except.error.injEq, forall_eq', exists_eq_left', Agrees, if_pos hnext, alike_iff]
    by_cases hsync : (M.tryAgain e || p.createRetryCondition M shouldRetry e) = true <;>
      by_cases hasync : Retryable M shouldRetry e
    · rw [retrying_retries h hnext hsync, attempts_retries h hnext hasync, reraise_after,
        ← wait_eq_iff]
      cases p.getNextDelay n with
      | none => exact iff_of_false (ne_after rfl _ _).symm (by simp [hasync])
      | some delay =>
        rw [after_inj, Option.some.injEq, @eq_comm _ delay]
        simp [hsync, hasync]
    · rw [retrying_retries h hnext hsync, attempts_raises h hasync, reraise_after]
      exact iff_of_false (ne_after rfl _ _).symm (by simp [hsync, hasync])
    · rw [retrying_raises h hsync, attempts_retries h hnext hasync]
      refine iff_of_false ?_ (by simp [hsync, hasync])
      cases p.getNextDelay n with
      | none => simp [Run.reraise, Run.last]
      | some delay => exact ne_after rfl _ _
    · rw [retrying_raises h hsync, attempts_raises h hasync, reraise_last_iff]
      simp [hsync, hasync]

theorem agree_from (d n : ℕ) (hd : p.maxAttempts = n + 1 + d) :
    (p.retrying M shouldRetry outcomes (n + 1)).reraise M =
      p.attempts M shouldRetry outcomes n ↔
    ∀ m e, n ≤ m → (m : ℤ) < p.maxAttempts → Reached M shouldRetry outcomes n m →
      outcomes m = .error e → p.Agrees M shouldRetry m e := by
  induction d generalizing n with
  | zero =>
    rw [reached_split (by omega), agree_last (by omega)]
    refine (and_iff_left ?_).symm
    intro _ m e hm hlt
    omega
  | succ d ih =>
    rw [reached_split (by omega), agree_step (by omega), ih (n + 1) (by push_cast; omega)]

/-- The two paths make the same calls with the same delays and the same end exactly when
every attempt that is reached goes on alike in both. -/
theorem execute_agrees_iff (p : TenacityRetry K) (M : Exceptions E K)
    (shouldRetry : Option (E → Bool)) (outcomes : ℕ → Except E V) :
    p.execute M shouldRetry outcomes = p.executeAsync M shouldRetry outcomes ↔
      ∀ (n : ℕ) e, (n : ℤ) < p.maxAttempts → Reached M shouldRetry outcomes 0 n →
        outcomes n = .error e → p.Agrees M shouldRetry n e := by
  have hpos := p.maxAttempts_pos
  have h : (p.retrying M shouldRetry outcomes (0 + 1)).reraise M =
      p.attempts M shouldRetry outcomes 0 ↔ _ :=
    agree_from (p.maxAttempts - 1).toNat 0 (by omega)
  simpa only [execute, executeAsync, Nat.zero_le, true_implies] using h

inductive Cls | exception | timeoutError | valueError deriving DecidableEq
inductive Raised | timeout | value deriving DecidableEq

def builtins : Exceptions Raised Cls where
  isInstance e k := match e, k with
    | _, .exception => true
    | .timeout, .timeoutError => true
    | .value, .valueError => true
    | _, _ => false
  exception := .exception
  interrupt _ := false
  tryAgain _ := false
  lastAttempt _ := none
  interrupt_not_exception _ h := nomatch h
  tryAgain_exception _ h := nomatch h

/-- `execute` does not retry a `ValueError` that `retry_on_exceptions` leaves out, and
`execute_async` does. With an initial delay of two seconds, they wait two and two seconds
against two and four. With a base whose square is no float, `execute` makes its fourth call and
`execute_async` raises OverflowError after the third. -/
theorem sync_async_disagree :
    (∃ p, TenacityRetry.init Cls.exception { retryOnExceptions := some [.timeoutError] } = .ok p ∧
      p.execute builtins none (fun n => if n = 0 then .error .value else .ok 7) ≠
        p.executeAsync builtins none fun n => if n = 0 then .error .value else .ok 7) ∧
    (∃ p, TenacityRetry.init Cls.exception { initialDelay := 2 } = .ok p ∧
      (p.execute builtins none fun _ => .error .timeout : Run ℕ Raised) ≠
        p.executeAsync builtins none fun _ => .error .timeout) ∧
    ∃ p, TenacityRetry.init Cls.exception { maxAttempts := 4, exponentialBase := 10 ^ 155 } =
        .ok p ∧
      (p.execute builtins none fun _ => .error .timeout : Run ℕ Raised) ≠
        p.executeAsync builtins none fun _ => .error .timeout := by
  have hretryable : ∀ e, Retryable builtins none e := fun e => ⟨by cases e <;> rfl, by simp⟩
  refine ⟨?_, ?_, ?_⟩
  · obtain ⟨p, hp, hattempts, -, -, -, -, -, hclasses⟩ := init_ok Cls.exception
      { retryOnExceptions := some [.timeoutError] } (by norm_num) (by norm_num) (by norm_num)
      (by norm_num) (by simp)
    refine ⟨p, hp, fun heq => ?_⟩
    have hagrees := (agree_from 2 0 (by simp [hattempts])).mp heq 0 .value le_rfl
      (by simp [hattempts]) (fun j _ hj => absurd hj (by omega)) rfl
    rw [Agrees, if_pos (by simp [hattempts])] at hagrees
    simp [Alike, builtins, hclasses, retryOnOrDefault] at hagrees
  · obtain ⟨p, hp, hattempts, hinitial, hmax, hbase, hstrategy, hmultiplier, -⟩ :=
      init_ok Cls.exception { initialDelay := 2 } (by norm_num) (by norm_num) (by norm_num)
        (by norm_num) (by simp)
    refine ⟨p, hp, fun heq => ?_⟩
    have hagrees := (agree_from 2 0 (by simp [hattempts])).mp heq 1 .timeout (by omega)
      (by simp [hattempts]) (fun j _ _ => ⟨.timeout, rfl, hretryable .timeout⟩) rfl
    rw [Agrees, if_pos (by simp [hattempts])] at hagrees
    have hdelays := hagrees.2.1 (hretryable .timeout) hstrategy
    simp only [hinitial, hmax, hbase, hmultiplier] at hdelays
    norm_num at hdelays
  · obtain ⟨p, hp, hattempts, -, -, hbase, hstrategy, -, -⟩ :=
      init_ok Cls.exception { maxAttempts := 4, exponentialBase := 10 ^ 155 } (by norm_num)
        (by norm_num) (by norm_num) (by norm_num) (by simp)
    refine ⟨p, hp, fun heq => ?_⟩
    have hagrees := (agree_from 3 0 (by simp [hattempts])).mp heq 2 .timeout (by omega)
      (by simp [hattempts]) (fun j _ _ => ⟨.timeout, rfl, hretryable .timeout⟩) rfl
    rw [Agrees, if_pos (by simp [hattempts])] at hagrees
    have hfloat := (hagrees.2.1 (hretryable .timeout) hstrategy).1
    rw [hbase] at hfloat
    exact absurd hfloat (by decide +kernel)

end Taas.RetryTenacity
