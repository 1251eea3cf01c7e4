import Mathlib.Algebra.Order.Ring.Cast
import Mathlib.Algebra.Order.Ring.Rat

/-!
The poll intervals of the outbox poller: the checks of `OutboxConfig.__post_init__`, and what
`_compute_next_sleep` makes of one poll after the other. Intervals are rational numbers of
milliseconds; the result of `random.uniform` is any number of its range.
-/
namespace Taas.PollIntervals

structure Args where
  pollStrategy : String := "fixed"
  fixedPollIntervalMs : ℤ := 3000
  minPollIntervalMs : ℤ := 100
  maxPollIntervalMs : ℤ := 20000
  initialPollIntervalMs : ℤ := 5000
  backoffGrowthFactor : ℚ := 3
  batchSize : ℤ := 100
  concurrentWorkers : ℤ := 1

/-- A `ValueError` of `__post_init__`, with the values that its message quotes, and the
`AttributeError` of an assignment. -/
inductive ConfigError
  | minPollInterval (got maxPollIntervalMs : ℤ)
  | batchSize (got : ℤ)
  | concurrentWorkers (got : ℤ)
  | pollStrategy (got : String)
  | fixedPollInterval (got : ℤ)
  | backoffGrowthFactor (got : ℚ)
  | immutable
  deriving DecidableEq

structure OutboxConfig where
  pollStrategy : String
  fixedPollIntervalMs : ℤ
  minPollIntervalMs : ℤ
  maxPollIntervalMs : ℤ
  initialPollIntervalMs : ℤ
  backoffGrowthFactor : ℚ
  batchSize : ℤ
  concurrentWorkers : ℤ
  min_le_max : minPollIntervalMs ≤ maxPollIntervalMs
  batchSize_pos : 1 ≤ batchSize
  workers_pos : 1 ≤ concurrentWorkers
  strategy : pollStrategy ∈ ["fixed", "adaptive", "notify"]
  fixed_pos : 1 ≤ fixedPollIntervalMs
  one_lt_growth : 1 < backoffGrowthFactor

/-- The constructor. Both assignments of `__post_init__` raise, because the Struct is frozen. -/
def OutboxConfig.init (args : Args) : Except ConfigError OutboxConfig :=
  if h₁ : args.maxPollIntervalMs < args.minPollIntervalMs then
    .error (.minPollInterval args.minPollIntervalMs args.maxPollIntervalMs)
  else if args.initialPollIntervalMs < args.minPollIntervalMs then .error .immutable
  else if args.maxPollIntervalMs < args.initialPollIntervalMs then .error .immutable
  else if h₂ : args.batchSize < 1 then .error (.batchSize args.batchSize)
  else if h₃ : args.concurrentWorkers < 1 then .error (.concurrentWorkers args.concurrentWorkers)
  else if h₄ : args.pollStrategy ∉ ["fixed", "adaptive", "notify"] then
    .error (.pollStrategy args.pollStrategy)
  else if h₅ : args.fixedPollIntervalMs < 1 then
    .error (.fixedPollInterval args.fixedPollIntervalMs)
  else if h₆ : args.backoffGrowthFactor ≤ 1 then
    .error (.backoffGrowthFactor args.backoffGrowthFactor)
  else .ok {
    pollStrategy := args.pollStrategy
    fixedPollIntervalMs := args.fixedPollIntervalMs
    minPollIntervalMs := args.minPollIntervalMs
    maxPollIntervalMs := args.maxPollIntervalMs
    initialPollIntervalMs := args.initialPollIntervalMs
    backoffGrowthFactor := args.backoffGrowthFactor
    batchSize := args.batchSize
    concurrentWorkers := args.concurrentWorkers
    min_le_max := not_lt.mp h₁
    batchSize_pos := not_lt.mp h₂
    workers_pos := not_lt.mp h₃
    strategy := not_not.mp h₄
    fixed_pos := not_lt.mp h₅
    one_lt_growth := not_le.mp h₆ }

/-- `_compute_next_sleep` after a poll that fetched so many events. The interval that it returns
is the current one for the next call. -/
def OutboxConfig.computeNextSleep (c : OutboxConfig) (uniform : ℚ → ℚ → ℚ) (fetched : ℕ)
    (currentIntervalMs : ℚ) : ℚ :=
  if c.pollStrategy = "fixed" then c.fixedPollIntervalMs
  else if fetched > 0 then c.minPollIntervalMs
  else
    let upper := min (c.maxPollIntervalMs : ℚ) (currentIntervalMs * c.backoffGrowthFactor)
    let lower : ℚ := c.minPollIntervalMs
    let upper := if upper < lower then lower else upper
    uniform lower upper

structure Poll where
  fetched : ℕ
  uniform : ℚ → ℚ → ℚ
  inRange : ∀ a b, a ≤ b → a ≤ uniform a b ∧ uniform a b ≤ b

def OutboxConfig.intervals (c : OutboxConfig) : List Poll → ℚ → List ℚ
  | [], _ => []
  | poll :: polls, currentIntervalMs =>
    let next := c.computeNextSleep poll.uniform poll.fetched currentIntervalMs
    next :: c.intervals polls next

structure Args.Valid (args : Args) : Prop where
  batchSize : 1 ≤ args.batchSize
  concurrentWorkers : 1 ≤ args.concurrentWorkers
  pollStrategy : args.pollStrategy ∈ ["fixed", "adaptive", "notify"]
  fixedPollIntervalMs : 1 ≤ args.fixedPollIntervalMs
  backoffGrowthFactor : 1 < args.backoffGrowthFactor

/-- The initial interval is clamped into the range, and all intervals stay in it. -/
structure KeepsRange (args : Args) (c : OutboxConfig) : Prop where
  range : c.minPollIntervalMs = args.minPollIntervalMs ∧
    c.maxPollIntervalMs = args.maxPollIntervalMs
  clamped : c.initialPollIntervalMs =
    max args.minPollIntervalMs (min args.initialPollIntervalMs args.maxPollIntervalMs)
  intervals : args.pollStrategy = "adaptive" ∨ args.pollStrategy = "notify" →
    ∀ polls, ∀ x ∈ c.intervals polls c.initialPollIntervalMs,
      (args.minPollIntervalMs : ℚ) ≤ x ∧ x ≤ args.maxPollIntervalMs

variable {args : Args} {c : OutboxConfig}

theorem upper_bounds (c : OutboxConfig) (x : ℚ) :
    (c.minPollIntervalMs : ℚ) ≤ (if x < c.minPollIntervalMs then (c.minPollIntervalMs : ℚ) else x) ∧
      (x ≤ c.maxPollIntervalMs →
        (if x < c.minPollIntervalMs then (c.minPollIntervalMs : ℚ) else x) ≤
          c.maxPollIntervalMs) := by
  split
  · exact ⟨le_rfl, fun _ => Int.cast_le.mpr c.min_le_max⟩
  · exact ⟨not_lt.mp ‹_›, id⟩

theorem computeNextSleep_mem (h : c.pollStrategy ≠ "fixed") (poll : Poll) (current : ℚ) :
    (c.minPollIntervalMs : ℚ) ≤ c.computeNextSleep poll.uniform poll.fetched current ∧
      c.computeNextSleep poll.uniform poll.fetched current ≤ c.maxPollIntervalMs := by
  have hrange : (c.minPollIntervalMs : ℚ) ≤ c.maxPollIntervalMs := Int.cast_le.mpr c.min_le_max
  rw [OutboxConfig.computeNextSleep, if_neg h]
  split
  · exact ⟨le_rfl, hrange⟩
  · obtain ⟨hlower, hupper⟩ := upper_bounds c
      (min (c.maxPollIntervalMs : ℚ) (current * c.backoffGrowthFactor))
    obtain ⟨hleft, hright⟩ := poll.inRange _ _ hlower
    exact ⟨hleft, hright.trans (hupper (min_le_left _ _))⟩

theorem intervals_mem (h : c.pollStrategy ≠ "fixed") (polls : List Poll) (current : ℚ) :
    ∀ x ∈ c.intervals polls current,
      (c.minPollIntervalMs : ℚ) ≤ x ∧ x ≤ c.maxPollIntervalMs := by
  induction polls generalizing current with
  | nil =>
    intro x hx
    cases hx
  | cons poll polls ih =>
    intro x hx
    rcases List.mem_cons.mp hx with rfl | hx
    · exact computeNextSleep_mem h poll current
    · exact ih _ x hx

theorem init_ok (hvalid : args.Valid) (hmin : args.minPollIntervalMs ≤ args.initialPollIntervalMs)
    (hmax : args.initialPollIntervalMs ≤ args.maxPollIntervalMs) :
    ∃ c, OutboxConfig.init args = .ok c ∧ c.pollStrategy = args.pollStrategy ∧
      c.minPollIntervalMs = args.minPollIntervalMs ∧
      c.maxPollIntervalMs = args.maxPollIntervalMs ∧
      c.initialPollIntervalMs = args.initialPollIntervalMs := by
  unfold OutboxConfig.init
  rw [dif_neg (by omega), if_neg (by omega), if_neg (by omega),
    dif_neg (not_lt.mpr hvalid.batchSize), dif_neg (not_lt.mpr hvalid.concurrentWorkers),
    dif_neg (not_not.mpr hvalid.pollStrategy), dif_neg (not_lt.mpr hvalid.fixedPollIntervalMs),
    dif_neg (not_le.mpr hvalid.backoffGrowthFactor)]
  exact ⟨_, rfl, rfl, rfl, rfl, rfl⟩

theorem init_immutable (hrange : args.minPollIntervalMs ≤ args.maxPollIntervalMs)
    (hout : ¬ (args.minPollIntervalMs ≤ args.initialPollIntervalMs ∧
      args.initialPollIntervalMs ≤ args.maxPollIntervalMs)) :
    OutboxConfig.init args = .error .immutable := by
  unfold OutboxConfig.init
  rw [dif_neg (by omega)]
  by_cases hmin : args.initialPollIntervalMs < args.minPollIntervalMs
  · rw [if_pos hmin]
  · rw [if_neg hmin, if_pos (by omega)]

/-- A configuration keeps the range exactly when its initial interval is in it. -/
theorem poll_range_iff (args : Args) (hrange : args.minPollIntervalMs ≤ args.maxPollIntervalMs)
    (hvalid : args.Valid) :
    (∃ c, OutboxConfig.init args = .ok c ∧ KeepsRange args c) ↔
      args.minPollIntervalMs ≤ args.initialPollIntervalMs ∧
        args.initialPollIntervalMs ≤ args.maxPollIntervalMs := by
  constructor
  · rintro ⟨c, hc, -⟩
    by_contra hout
    rw [init_immutable hrange hout] at hc
    cases hc
  · rintro ⟨hmin, hmax⟩
    obtain ⟨c, hc, hstrategy, hcmin, hcmax, hinitial⟩ := init_ok hvalid hmin hmax
    refine ⟨c, hc, ⟨hcmin, hcmax⟩, by omega, fun hadaptive polls => ?_⟩
    have hfixed : c.pollStrategy ≠ "fixed" := by
      rw [hstrategy]
      rcases hadaptive with h | h <;> simp [h]
    rw [← hcmin, ← hcmax]
    exact intervals_mem hfixed polls _

theorem poll_range_default :
    ∃ c, OutboxConfig.init { pollStrategy := "adaptive" } = .ok c ∧
      KeepsRange { pollStrategy := "adaptive" } c :=
  (poll_range_iff { pollStrategy := "adaptive" } (by decide)
    ⟨by decide, by decide, by decide, by decide, by decide⟩).mpr ⟨by decide, by decide⟩

/-- A minimum of six seconds is above the default of the initial interval. -/
theorem clamping_raises :
    OutboxConfig.init { pollStrategy := "adaptive", minPollIntervalMs := 6000 } =
      .error .immutable ∧
    ¬ ∀ args : Args, args.minPollIntervalMs ≤ args.maxPollIntervalMs → args.Valid →
      ∃ c, OutboxConfig.init args = .ok c ∧ KeepsRange args c := by
  have hraises : OutboxConfig.init { pollStrategy := "adaptive", minPollIntervalMs := 6000 } =
      .error .immutable := init_immutable (by decide) (by decide)
  refine ⟨hraises, fun h => ?_⟩
  obtain ⟨c, hc, -⟩ := h { pollStrategy := "adaptive", minPollIntervalMs := 6000 } (by decide)
    ⟨by decide, by decide, by decide, by decide, by decide⟩
  rw [hraises] at hc
  cases hc

end Taas.PollIntervals
