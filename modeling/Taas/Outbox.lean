import Taas.Python
import Taas.Sql

/-!
The outbox table and the repository calls on it. Each call is one atomic step at one
clock reading. A SELECT may break ties of its order in any way, so a fetch is given the
ids that it selects; `mark_failed` counts from the object that its session holds. With atomic
calls no row is ever locked by another transaction, and `use_skip_locked` changes nothing.
-/
namespace Taas.Outbox

open Python Sql

variable {J : Type}

inductive OutboxStatus
  | pending
  | processing
  | published
  | failed
  | deadLetter
  deriving DecidableEq, Repr

structure OutboxConfig where
  batchSize : ℕ := 100
  maxRetries : ℤ := 3
  processingTimeoutSeconds : ℤ := 30
  enableMetrics : Bool := true

/-- A row, with JSON values of type `J`. -/
structure OutboxEvent (J : Type) where
  eventType : String
  channel : String
  orderingKey : Option String
  payload : J
  headers : J
  status : OutboxStatus
  retryCount : ℤ
  maxRetries : ℤ
  lastError : Option String := none
  createdAt : ℤ
  updatedAt : ℤ
  processedAt : Option ℤ := none
  deriving DecidableEq

abbrev OutboxTable (J : Type) := Table String (OutboxEvent J)

/-- The arguments of `save_raw_message`. -/
structure RawMessage (J : Type) where
  channel : String
  payload : J
  eventType : String
  orderingKey : Option String := none
  headers : J
  maxRetries : Option ℤ := none

/-- The row that `OutboxService` builds, stamped at `created`. -/
def RawMessage.event (config : OutboxConfig) (created : ℤ) (m : RawMessage J) : OutboxEvent J where
  eventType := m.eventType
  channel := m.channel
  orderingKey := m.orderingKey
  payload := m.payload
  headers := m.headers
  status := .pending
  retryCount := 0
  maxRetries := orDefault m.maxRetries config.maxRetries
  createdAt := created
  updatedAt := created

/-- The filter of `fetch_pending_batch`. -/
def claimable (now : ℤ) (e : OutboxEvent J) : Bool :=
  e.status = .pending ∧ e.retryCount < e.maxRetries ∧ now - days 7 ≤ e.createdAt

/-- The filter of `reset_stale_processing`. -/
def stale (config : OutboxConfig) (timeoutSeconds : Option ℤ) (now : ℤ) (e : OutboxEvent J) :
    Bool :=
  e.status = .processing ∧
    e.updatedAt < now - seconds (orDefault timeoutSeconds config.processingTimeoutSeconds)

/-- The ids that `fetch_pending_batch` may select. -/
def Fetches (config : OutboxConfig) (batchSize : Option ℕ) (now : ℤ) (t : OutboxTable J)
    (ids : List String) : Prop :=
  IsSelection t (claimable now) OutboxEvent.createdAt (orDefault batchSize config.batchSize) ids

instance (config : OutboxConfig) (batchSize : Option ℕ) (now : ℤ) (t : OutboxTable J)
    (ids : List String) : Decidable (Fetches config batchSize now t ids) := by
  unfold Fetches
  infer_instance

def fetchPendingBatch (now : ℤ) (ids : List String) (t : OutboxTable J) : OutboxTable J :=
  t.updateWhere (fun id _ => id ∈ ids) fun e => { e with status := .processing, updatedAt := now }

def markPublished (now : ℤ) (id : String) (t : OutboxTable J) : OutboxTable J :=
  t.updateWhere (fun j _ => j = id) fun e =>
    { e with status := .published, processedAt := some now, updatedAt := now }

/-- The SELECT of `mark_failed` in a session that holds the object `loaded` under the id, if any. -/
def select (id : String) (loaded : Option (OutboxEvent J)) (t : OutboxTable J) :
    Option (OutboxEvent J) :=
  (t.get? id).map fun row => loaded.getD row

/-- A missing event is logged and left alone. -/
def markFailed (now : ℤ) (id : String) (error : String) (loaded : Option (OutboxEvent J))
    (t : OutboxTable J) : OutboxTable J :=
  match select id loaded t with
  | none => t
  | some event =>
    let newRetryCount := event.retryCount + 1
    let newStatus := if newRetryCount ≥ event.maxRetries then .deadLetter else .failed
    t.updateWhere (fun j _ => j = id) fun e =>
      { e with
        status := newStatus
        retryCount := newRetryCount
        lastError := some (prefixOf 1000 error)
        updatedAt := now }

/-- The table after the reset and the number of events reset. -/
def resetStaleProcessing (config : OutboxConfig) (timeoutSeconds : Option ℤ) (now : ℤ)
    (t : OutboxTable J) : OutboxTable J × ℕ :=
  (t.updateWhere (fun _ e => stale config timeoutSeconds now e) fun e =>
      { e with status := .pending, updatedAt := now },
    t.countWhere fun _ e => stale config timeoutSeconds now e)

variable {config : OutboxConfig} {t t' : OutboxTable J} {now : ℤ} {id j : String}
variable {ids : List String} {batchSize : Option ℕ} {timeoutSeconds : Option ℤ} {e : OutboxEvent J}

/-- A row after a failure that counts from `event`. -/
def afterFailure (now : ℤ) (error : String) (event row : OutboxEvent J) : OutboxEvent J :=
  { row with
    status := if event.retryCount + 1 ≥ event.maxRetries then .deadLetter else .failed
    retryCount := event.retryCount + 1
    lastError := some (prefixOf 1000 error)
    updatedAt := now }

theorem get?_fetchPendingBatch (now : ℤ) (ids : List String) (t : OutboxTable J) (j : String) :
    (fetchPendingBatch now ids t).get? j = (t.get? j).map fun e =>
      if j ∈ ids then { e with status := .processing, updatedAt := now } else e := by
  simp [fetchPendingBatch, Table.get?_updateWhere]

theorem get?_markPublished (now : ℤ) (id : String) (t : OutboxTable J) (j : String) :
    (markPublished now id t).get? j = (t.get? j).map fun e =>
      if j = id then { e with status := .published, processedAt := some now, updatedAt := now }
      else e := by
  simp [markPublished, Table.get?_updateWhere]

theorem get?_resetStaleProcessing (config : OutboxConfig) (timeoutSeconds : Option ℤ) (now : ℤ)
    (t : OutboxTable J) (j : String) :
    (resetStaleProcessing config timeoutSeconds now t).1.get? j = (t.get? j).map fun e =>
      if stale config timeoutSeconds now e then { e with status := .pending, updatedAt := now }
      else e := by
  simp [resetStaleProcessing, Table.get?_updateWhere]

/-- A failed event keeps its cap, counts one more retry than the object of the session, and is dead
once that reaches the cap. -/
theorem get?_markFailed (now : ℤ) (id error : String) (loaded : Option (OutboxEvent J))
    (t : OutboxTable J) (j : String) :
    (markFailed now id error loaded t).get? j = (t.get? j).map fun row =>
      if j = id then afterFailure now error (loaded.getD row) row else row := by
  unfold markFailed select afterFailure
  cases hid : t.get? id with
  | none =>
    by_cases hj : j = id
    · subst hj
      simp [hid]
    · simp [hj]
  | some event =>
    by_cases hj : j = id
    · subst hj
      simp [Table.get?_updateWhere, hid]
    · simp [Table.get?_updateWhere, hj]

theorem Fetches.row (h : Fetches config batchSize now t ids) (hid : id ∈ ids) :
    ∃ e, t.get? id = some e ∧ e.status = .pending ∧ e.retryCount < e.maxRetries ∧
      now - days 7 ≤ e.createdAt := by
  obtain ⟨e, he, hc⟩ := IsSelection.exists_row h hid
  exact ⟨e, he, by simpa [claimable] using hc⟩

end Taas.Outbox
