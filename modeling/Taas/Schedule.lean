import Taas.Python
import Taas.Sql

/-!
The scheduled-job table, the repository calls on it and the recurrence arithmetic. Each
call is one atomic step at one clock reading. The sessions keep loaded objects
(`expire_on_commit` is off), so `mark_succeeded` and `mark_failed` read the job as the
worker's session claimed it. croniter is the parameter `cronNext`.
-/
namespace Taas.Schedule

open Python Sql

variable {J : Type}

inductive ScheduleJobKind
  | once
  | interval
  | cron
  deriving DecidableEq, Repr

inductive ScheduleJobStatus
  | scheduled
  | running
  | done
  | failed
  | cancelled
  deriving DecidableEq, Repr

/-- `TERMINAL_SCHEDULE_STATES`. -/
def ScheduleJobStatus.terminal : ScheduleJobStatus → Bool
  | .done | .failed | .cancelled => true
  | .scheduled | .running => false

structure ScheduleConfig where
  batchSize : ℕ := 100
  maxRetries : ℤ := 3
  /-- `retry_backoff_seconds`, as the microseconds of its `timedelta`. -/
  retryBackoff : ℤ := 30000000
  claimTimeoutSeconds : ℤ := 300

/-- A row, with JSON values of type `J`. -/
structure ScheduledJob (J : Type) where
  jobName : String
  kind : ScheduleJobKind
  cronExpr : Option String := none
  intervalSeconds : Option ℤ := none
  channel : Option String := none
  eventType : Option String := none
  orderingKey : Option String := none
  payload : J
  headers : J
  nextRunAt : ℤ
  lastRunAt : Option ℤ := none
  claimedAt : Option ℤ := none
  status : ScheduleJobStatus := .scheduled
  runCount : ℤ := 0
  maxRuns : Option ℤ := none
  attempts : ℤ := 0
  maxRetries : ℤ
  lastError : Option String := none
  deriving DecidableEq

abbrev JobTable (J : Type) := Table String (ScheduledJob J)

structure NewJob (J : Type) where
  jobName : String
  kind : ScheduleJobKind
  nextRunAt : ℤ
  intervalSeconds : Option ℤ := none
  cronExpr : Option String := none
  maxRuns : Option ℤ := none
  channel : Option String := none
  eventType : Option String := none
  payload : J
  orderingKey : Option String := none
  headers : J
  maxRetries : Option ℤ := none

/-- `_create`. -/
def NewJob.job (config : ScheduleConfig) (m : NewJob J) : ScheduledJob J where
  jobName := m.jobName
  kind := m.kind
  cronExpr := m.cronExpr
  intervalSeconds := m.intervalSeconds
  channel := m.channel
  eventType := m.eventType
  orderingKey := m.orderingKey
  payload := m.payload
  headers := m.headers
  nextRunAt := m.nextRunAt
  status := .scheduled
  runCount := 0
  maxRuns := m.maxRuns
  attempts := 0
  maxRetries := m.maxRetries.getD config.maxRetries

structure IntervalRequest (J : Type) where
  jobName : String
  intervalSeconds : ℤ
  startAt : Option ℤ := none
  maxRuns : Option ℤ := none
  channel : Option String := none
  eventType : Option String := none
  payload : J
  orderingKey : Option String := none
  headers : J
  maxRetries : Option ℤ := none

/-- `schedule_interval`, up to its call of `_create`; an error is the text of the exception. -/
def scheduleInterval (now : ℤ) (r : IntervalRequest J) : Except String (NewJob J) :=
  if r.intervalSeconds ≤ 0 then .error "interval_seconds must be positive"
  else .ok {
    jobName := r.jobName
    kind := .interval
    nextRunAt := r.startAt.getD (now + seconds r.intervalSeconds)
    intervalSeconds := some r.intervalSeconds
    maxRuns := r.maxRuns
    channel := r.channel
    eventType := r.eventType
    payload := r.payload
    orderingKey := r.orderingKey
    headers := r.headers
    maxRetries := r.maxRetries }

structure CronRequest (J : Type) where
  jobName : String
  cronExpr : String
  maxRuns : Option ℤ := none
  channel : Option String := none
  eventType : Option String := none
  payload : J
  orderingKey : Option String := none
  headers : J
  maxRetries : Option ℤ := none

/-- `schedule_cron`, up to its call of `_create`; an error is the text of the exception. -/
def scheduleCron (cronNext : String → ℤ → Except String ℤ) (now : ℤ) (r : CronRequest J) :
    Except String (NewJob J) :=
  (cronNext r.cronExpr now).map fun first => {
    jobName := r.jobName
    kind := .cron
    nextRunAt := first
    cronExpr := some r.cronExpr
    maxRuns := r.maxRuns
    channel := r.channel
    eventType := r.eventType
    payload := r.payload
    orderingKey := r.orderingKey
    headers := r.headers
    maxRetries := r.maxRetries }

/-- `compute_next_run`; an error is the text of the exception. -/
def computeNextRun (cronNext : String → ℤ → Except String ℤ) (kind : ScheduleJobKind)
    (fromTime : ℤ) (intervalSeconds : Option ℤ) (cronExpr : Option String) :
    Except String (Option ℤ) :=
  match kind with
  | .once => .ok none
  | .interval =>
    match intervalSeconds with
    | some interval =>
      if interval ≤ 0 then .error "INTERVAL job requires a positive interval_seconds"
      else .ok (some (fromTime + seconds interval))
    | none => .error "INTERVAL job requires a positive interval_seconds"
  | .cron =>
    match cronExpr with
    | some expr =>
      if expr = "" then .error "CRON job requires a cron_expr"
      else (cronNext expr fromTime).map some
    | none => .error "CRON job requires a cron_expr"

def active (job : ScheduledJob J) : Bool := job.status = .scheduled ∨ job.status = .running

/-- `exists_active`: `get_active_by_name` finds a row. -/
def existsActive (jobName : String) (t : JobTable J) : Bool :=
  t.rows.any fun x => x.2.jobName = jobName ∧ active x.2

def due (now : ℤ) (job : ScheduledJob J) : Bool :=
  job.status = .scheduled ∧ job.nextRunAt ≤ now

/-- The filter of `reset_stale_running`; a missing `claimed_at` compares as unknown. -/
def staleRunning (config : ScheduleConfig) (timeoutSeconds : Option ℤ) (now : ℤ)
    (job : ScheduledJob J) : Bool :=
  job.status = .running ∧ job.claimedAt.any fun claimedAt =>
    claimedAt < now - seconds (orDefault timeoutSeconds config.claimTimeoutSeconds)

/-- The ids that `fetch_due_batch` may select. -/
def FetchesDue (config : ScheduleConfig) (batchSize : Option ℕ) (now : ℤ) (t : JobTable J)
    (ids : List String) : Prop :=
  IsSelection t (due now) ScheduledJob.nextRunAt (orDefault batchSize config.batchSize) ids

instance (config : ScheduleConfig) (batchSize : Option ℕ) (now : ℤ) (t : JobTable J)
    (ids : List String) : Decidable (FetchesDue config batchSize now t ids) := by
  unfold FetchesDue
  infer_instance

def fetchDueBatch (now : ℤ) (ids : List String) (t : JobTable J) : JobTable J :=
  t.updateWhere (fun id _ => id ∈ ids) fun job =>
    { job with status := .running, claimedAt := some now }

/-- `get` in a session that has loaded `loaded` under this id. -/
def get (id : String) (loaded : ScheduledJob J) (t : JobTable J) : Option (ScheduledJob J) :=
  (t.get? id).map fun _ => loaded

/-- A fire after which the job is over: no next occurrence, or the cap on fires reached. -/
def lastFire (job : ScheduledJob J) (nextRunAt : Option ℤ) : Bool :=
  nextRunAt = none ∨ job.maxRuns.any fun maxRuns => maxRuns ≤ job.runCount + 1

def afterSuccess (now : ℤ) (job : ScheduledJob J) (nextRunAt : Option ℤ) (row : ScheduledJob J) :
    ScheduledJob J :=
  { row with
    status := if lastFire job nextRunAt then .done else .scheduled
    nextRunAt := if lastFire job nextRunAt then job.nextRunAt else nextRunAt.getD job.nextRunAt
    lastRunAt := some now
    claimedAt := none
    runCount := job.runCount + 1
    attempts := 0
    lastError := none }

/-- A missing job is logged and left alone. -/
def markSucceeded (now : ℤ) (id : String) (loaded : ScheduledJob J) (nextRunAt : Option ℤ)
    (t : JobTable J) : JobTable J :=
  match get id loaded t with
  | none => t
  | some job => t.updateWhere (fun j _ => j = id) (afterSuccess now job nextRunAt)

def exhausted (job : ScheduledJob J) : Bool := job.maxRetries ≤ job.attempts + 1

def afterFailure (config : ScheduleConfig) (now : ℤ) (job : ScheduledJob J) (error : String)
    (nextRunAt : Option ℤ) (row : ScheduledJob J) : ScheduledJob J :=
  { row with
    status := if exhausted job then .failed else .scheduled
    nextRunAt :=
      if exhausted job then job.nextRunAt else nextRunAt.getD (now + config.retryBackoff)
    claimedAt := none
    attempts := job.attempts + 1
    lastError := some (prefixOf 1000 error) }

/-- A missing job is logged and left alone. -/
def markFailed (config : ScheduleConfig) (now : ℤ) (id : String) (loaded : ScheduledJob J)
    (error : String) (nextRunAt : Option ℤ) (t : JobTable J) : JobTable J :=
  match get id loaded t with
  | none => t
  | some job => t.updateWhere (fun j _ => j = id) (afterFailure config now job error nextRunAt)

def cancel (id : String) (t : JobTable J) : JobTable J :=
  t.updateWhere (fun j job => j = id ∧ (job.status = .scheduled ∨ job.status = .running)) fun job =>
    { job with status := .cancelled, claimedAt := none }

/-- The table after the reset and the number of jobs reset. -/
def resetStaleRunning (config : ScheduleConfig) (timeoutSeconds : Option ℤ) (now : ℤ)
    (t : JobTable J) : JobTable J × ℕ :=
  (t.updateWhere (fun _ job => staleRunning config timeoutSeconds now job) fun job =>
      { job with status := .scheduled, claimedAt := none },
    t.countWhere fun _ job => staleRunning config timeoutSeconds now job)

variable {config : ScheduleConfig} {t : JobTable J} {now : ℤ} {id j : String}
variable {ids : List String} {batchSize : Option ℕ} {job loaded : ScheduledJob J}

theorem get?_fetchDueBatch (now : ℤ) (ids : List String) (t : JobTable J) (j : String) :
    (fetchDueBatch now ids t).get? j = (t.get? j).map fun job =>
      if j ∈ ids then { job with status := .running, claimedAt := some now } else job := by
  simp [fetchDueBatch, Table.get?_updateWhere]

/-- An UPDATE of one id, from the job that the session has loaded. -/
theorem get?_updateLoaded (id : String) (loaded : ScheduledJob J)
    (f : ScheduledJob J → ScheduledJob J → ScheduledJob J) (t : JobTable J) (j : String) :
    (match get id loaded t with
      | none => t
      | some job => t.updateWhere (fun j _ => j = id) (f job)).get? j =
      (t.get? j).map fun row => if j = id then f loaded row else row := by
  unfold get
  cases hid : t.get? id with
  | none =>
    by_cases hj : j = id
    · subst hj
      simp [hid]
    · simp [hj]
  | some row =>
    by_cases hj : j = id
    · subst hj
      simp [Table.get?_updateWhere, hid]
    · simp [Table.get?_updateWhere, hj]

theorem get?_markSucceeded (now : ℤ) (id : String) (loaded : ScheduledJob J)
    (nextRunAt : Option ℤ) (t : JobTable J) (j : String) :
    (markSucceeded now id loaded nextRunAt t).get? j = (t.get? j).map fun row =>
      if j = id then afterSuccess now loaded nextRunAt row else row :=
  get?_updateLoaded id loaded (fun job => afterSuccess now job nextRunAt) t j

theorem keys_markSucceeded (now : ℤ) (id : String) (loaded : ScheduledJob J)
    (nextRunAt : Option ℤ) (t : JobTable J) :
    (markSucceeded now id loaded nextRunAt t).rows.map Prod.fst = t.rows.map Prod.fst := by
  unfold markSucceeded
  split
  · rfl
  · exact Table.keys_updateWhere _ _ _

theorem get?_markFailed (config : ScheduleConfig) (now : ℤ) (id : String)
    (loaded : ScheduledJob J) (error : String) (nextRunAt : Option ℤ) (t : JobTable J)
    (j : String) :
    (markFailed config now id loaded error nextRunAt t).get? j = (t.get? j).map fun row =>
      if j = id then afterFailure config now loaded error nextRunAt row else row :=
  get?_updateLoaded id loaded (fun job => afterFailure config now job error nextRunAt) t j

theorem get?_cancel (id : String) (t : JobTable J) (j : String) :
    (cancel id t).get? j = (t.get? j).map fun job =>
      if j = id ∧ (job.status = .scheduled ∨ job.status = .running) then
        { job with status := .cancelled, claimedAt := none }
      else job := by
  simp [cancel, Table.get?_updateWhere]

theorem get?_resetStaleRunning (config : ScheduleConfig) (timeoutSeconds : Option ℤ) (now : ℤ)
    (t : JobTable J) (j : String) :
    (resetStaleRunning config timeoutSeconds now t).1.get? j = (t.get? j).map fun job =>
      if staleRunning config timeoutSeconds now job then
        { job with status := .scheduled, claimedAt := none }
      else job := by
  simp [resetStaleRunning, Table.get?_updateWhere]

theorem existsActive_iff {jobName : String} :
    existsActive jobName t = true ↔
      ∃ id job, t.get? id = some job ∧ job.jobName = jobName ∧ active job = true := by
  unfold existsActive
  rw [List.any_eq_true]
  constructor
  · intro h
    obtain ⟨⟨id, job⟩, hmem, hjob⟩ := h
    exact ⟨id, job, (t.mem_rows_iff id job).mp hmem, by simpa using hjob⟩
  · intro h
    obtain ⟨id, job, hget, hjob⟩ := h
    exact ⟨(id, job), (t.mem_rows_iff id job).mpr hget, by simpa using hjob⟩

theorem active_iff (job : ScheduledJob J) : active job = true ↔ job.status.terminal = false := by
  unfold active
  cases job.status <;> simp [ScheduleJobStatus.terminal]

theorem FetchesDue.row (h : FetchesDue config batchSize now t ids) (hid : id ∈ ids) :
    ∃ job, t.get? id = some job ∧ job.status = .scheduled ∧ job.nextRunAt ≤ now := by
  obtain ⟨job, hjob, hd⟩ := IsSelection.exists_row h hid
  exact ⟨job, hjob, by simpa [due] using hd⟩

end Taas.Schedule
