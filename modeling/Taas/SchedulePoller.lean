import Taas.Schedule
import Taas.Transition

/-!
Scheduler workers on one table. A worker claims a batch and fires its jobs one after the
other: it dispatches a job and then marks the outcome. When the recurrence or a
repository call raises, or the worker crashes, the rest of the batch is lost. The
maintenance loop resets stale jobs, and callers create and cancel jobs at any time.
-/
namespace Taas.SchedulePoller

open Python Sql Schedule Transition

variable {J : Type} {n : ℕ}

/-- The jobs that a worker has claimed and not dispatched yet, and the job whose dispatch
it awaits, as its session has loaded them. -/
structure Worker (J : Type) where
  batch : List (String × ScheduledJob J) := []
  firing : Option (String × ScheduledJob J) := none
  deriving DecidableEq

structure Scheduler (J : Type) (n : ℕ) where
  clock : ℤ
  table : JobTable J
  worker : Fin n → Worker J := fun _ => {}
  deriving DecidableEq

inductive Act (J : Type) (n : ℕ)
  | create (id : String) (m : NewJob J)
  | fetch (now : ℤ) (w : Fin n) (ids : List String)
  | dispatch (w : Fin n)
  | dispatchReturns (now : ℤ) (w : Fin n)
  | dispatchRaises (now : ℤ) (w : Fin n) (error : String)
  | abandon (w : Fin n)
  | cancel (id : String)
  | resetStale (now : ℤ)

def Scheduler.setWorker (s : Scheduler J n) (w : Fin n) (x : Worker J) : Scheduler J n :=
  { s with worker := Function.update s.worker w x }

/-- The next occurrence of a job, from the one that was fired. -/
def nextRunOf (cronNext : String → ℤ → Except String ℤ) (job : ScheduledJob J) :
    Except String (Option ℤ) :=
  computeNextRun cronNext job.kind job.nextRunAt job.intervalSeconds job.cronExpr

def next (cronNext : String → ℤ → Except String ℤ) (config : ScheduleConfig)
    (s : Scheduler J n) : Act J n → Option (Scheduler J n)
  | .create id m => (s.table.insert id (m.job config)).map fun t => { s with table := t }
  | .fetch now w ids =>
    if s.clock ≤ now ∧ (s.worker w).batch = [] ∧ (s.worker w).firing = none ∧
        FetchesDue config (some config.batchSize) now s.table ids then
      some { s.setWorker w { batch := (fetchDueBatch now ids s.table).rowsOf ids } with
        clock := now
        table := fetchDueBatch now ids s.table }
    else none
  | .dispatch w =>
    match (s.worker w).batch, (s.worker w).firing with
    | job :: batch, none => some (s.setWorker w { batch := batch, firing := some job })
    | _, _ => none
  | .dispatchReturns now w =>
    match (s.worker w).firing with
    | some job =>
      if s.clock ≤ now then
        match nextRunOf cronNext job.2 with
        | .ok nextRun =>
          some { s.setWorker w { s.worker w with firing := none } with
            clock := now
            table := markSucceeded now job.1 job.2 nextRun s.table }
        | .error _ => some { s.setWorker w {} with clock := now }
      else none
    | none => none
  | .dispatchRaises now w error =>
    match (s.worker w).firing with
    | some job =>
      if s.clock ≤ now then
        some { s.setWorker w { s.worker w with firing := none } with
          clock := now
          table := markFailed config now job.1 job.2 error none s.table }
      else none
    | none => none
  | .abandon w => some (s.setWorker w {})
  | .cancel id => some { s with table := Schedule.cancel id s.table }
  | .resetStale now =>
    if s.clock ≤ now then
      some { s with clock := now, table := (resetStaleRunning config none now s.table).1 }
    else none

/-- `n` workers, the maintenance loop and callers on a table that is empty at first. -/
def scheduler (J : Type) (n : ℕ) (cronNext : String → ℤ → Except String ℤ)
    (config : ScheduleConfig) : System (Scheduler J n) (Act J n) where
  init s := s = { clock := s.clock, table := Table.empty }
  next := next cronNext config

theorem init_scheduler (cronNext : String → ℤ → Except String ℤ) (config : ScheduleConfig)
    (clock : ℤ) : (scheduler J n cronNext config).init { clock := clock, table := Table.empty } :=
  rfl

variable {cronNext : String → ℤ → Except String ℤ} {config : ScheduleConfig}
variable {s s' : Scheduler J n} {a : Act J n}

theorem next_cases (h : next cronNext config s a = some s') :
    (∃ id m t, a = .create id m ∧ s.table.insert id (m.job config) = some t ∧
      s' = { s with table := t }) ∨
    (∃ now w ids, a = .fetch now w ids ∧ s.clock ≤ now ∧ (s.worker w).batch = [] ∧
      (s.worker w).firing = none ∧ FetchesDue config (some config.batchSize) now s.table ids ∧
      s' = { s.setWorker w { batch := (fetchDueBatch now ids s.table).rowsOf ids } with
        clock := now
        table := fetchDueBatch now ids s.table }) ∨
    (∃ w job batch, a = .dispatch w ∧ (s.worker w).batch = job :: batch ∧
      (s.worker w).firing = none ∧ s' = s.setWorker w { batch := batch, firing := some job }) ∨
    (∃ now w job nextRun, a = .dispatchReturns now w ∧ s.clock ≤ now ∧
      (s.worker w).firing = some job ∧ nextRunOf cronNext job.2 = .ok nextRun ∧
      s' = { s.setWorker w { s.worker w with firing := none } with
        clock := now
        table := markSucceeded now job.1 job.2 nextRun s.table }) ∨
    (∃ now w job e, a = .dispatchReturns now w ∧ s.clock ≤ now ∧
      (s.worker w).firing = some job ∧ nextRunOf cronNext job.2 = .error e ∧
      s' = { s.setWorker w {} with clock := now }) ∨
    (∃ now w error job, a = .dispatchRaises now w error ∧ s.clock ≤ now ∧
      (s.worker w).firing = some job ∧
      s' = { s.setWorker w { s.worker w with firing := none } with
        clock := now
        table := markFailed config now job.1 job.2 error none s.table }) ∨
    (∃ w, a = .abandon w ∧ s' = s.setWorker w {}) ∨
    (∃ id, a = .cancel id ∧ s' = { s with table := Schedule.cancel id s.table }) ∨
    (∃ now, a = .resetStale now ∧ s.clock ≤ now ∧
      s' = { s with clock := now, table := (resetStaleRunning config none now s.table).1 }) := by
  cases a with
  | create id m =>
    obtain ⟨t, ht, rfl⟩ := Option.map_eq_some_iff.mp h
    exact Or.inl ⟨id, m, t, rfl, ht, rfl⟩
  | fetch now w ids =>
    simp only [next, Option.ite_none_right_eq_some, Option.some.injEq] at h
    obtain ⟨⟨h1, h2, h3, h4⟩, rfl⟩ := h
    exact Or.inr (Or.inl ⟨now, w, ids, rfl, h1, h2, h3, h4, rfl⟩)
  | dispatch w =>
    simp only [next] at h
    split at h
    · rename_i job batch hb hf
      exact Or.inr (Or.inr (Or.inl ⟨w, job, batch, rfl, hb, hf, (Option.some.inj h).symm⟩))
    · cases h
  | dispatchReturns now w =>
    simp only [next] at h
    split at h
    · rename_i job hf
      simp only [Option.ite_none_right_eq_some] at h
      obtain ⟨hclock, h⟩ := h
      split at h
      · rename_i nextRun hn
        exact Or.inr (Or.inr (Or.inr (Or.inl
          ⟨now, w, job, nextRun, rfl, hclock, hf, hn, (Option.some.inj h).symm⟩)))
      · rename_i e hn
        exact Or.inr (Or.inr (Or.inr (Or.inr (Or.inl
          ⟨now, w, job, e, rfl, hclock, hf, hn, (Option.some.inj h).symm⟩))))
    · cases h
  | dispatchRaises now w error =>
    simp only [next] at h
    split at h
    · rename_i job hf
      simp only [Option.ite_none_right_eq_some, Option.some.injEq] at h
      exact Or.inr (Or.inr (Or.inr (Or.inr (Or.inr (Or.inl
        ⟨now, w, error, job, rfl, h.1, hf, h.2.symm⟩)))))
    · cases h
  | abandon w =>
    exact Or.inr (Or.inr (Or.inr (Or.inr (Or.inr (Or.inr (Or.inl
      ⟨w, rfl, (Option.some.inj h).symm⟩))))))
  | cancel id =>
    exact Or.inr (Or.inr (Or.inr (Or.inr (Or.inr (Or.inr (Or.inr (Or.inl
      ⟨id, rfl, (Option.some.inj h).symm⟩)))))))
  | resetStale now =>
    simp only [next, Option.ite_none_right_eq_some, Option.some.injEq] at h
    exact Or.inr (Or.inr (Or.inr (Or.inr (Or.inr (Or.inr (Or.inr (Or.inr
      ⟨now, rfl, h.1, h.2.symm⟩)))))))

theorem table_dispatchReturns {now : ℤ} {w : Fin n} {job : String × ScheduledJob J}
    {nextRun : Option ℤ} (h : next cronNext config s (.dispatchReturns now w) = some s')
    (hf : (s.worker w).firing = some job) (hn : nextRunOf cronNext job.2 = .ok nextRun) :
    s'.table = markSucceeded now job.1 job.2 nextRun s.table := by
  simp only [next, hf, hn, Option.ite_none_right_eq_some, Option.some.injEq] at h
  rw [← h.2]

theorem table_dispatchRaises {now : ℤ} {w : Fin n} {error : String}
    {job : String × ScheduledJob J}
    (h : next cronNext config s (.dispatchRaises now w error) = some s')
    (hf : (s.worker w).firing = some job) :
    s'.table = markFailed config now job.1 job.2 error none s.table := by
  simp only [next, hf, Option.ite_none_right_eq_some, Option.some.injEq] at h
  rw [← h.2]

end Taas.SchedulePoller
