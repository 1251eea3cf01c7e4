import Taas.Python
import Taas.Sql
import Taas.Transition

/-!
The idempotency guard. Each worker runs one guard in a database transaction of its own,
under read committed: it sees the committed keys only, and an insert waits for another
transaction that has inserted the same key. The body, the insert and the end of the
transaction are separate steps; a statement may raise, and a crash is a rollback. SQLAlchemy
compiles an INSERT only if the table has all columns that it names, so the guards depend on the
columns of the table. `log` is a ghost with the committed runs and the cleanups, the latest first.
-/
namespace Taas.Idempotency

open Python Sql Transition

variable {n : ℕ}

structure IdempotencyConfig where
  keySeparator : String := ":"
  ttlDays : ℤ := 30
  cleanupBatchSize : ℕ := 500
  strictMode : Bool := false

/-- A row of `processed_events`, under its `idempotency_key`. -/
structure ProcessedEvent where
  eventId : String
  eventType : String
  handlerName : String
  sagaId : Option String := none
  correlationId : Option String := none
  /-- `NOW()`, the time at which the transaction began. -/
  createdAt : ℤ
  deriving DecidableEq

/-- The arguments of `guard`. -/
structure GuardCall where
  eventId : String
  handlerName : String
  eventType : String := ""
  correlationId : Option String := none
  sagaId : Option String := none
  raiseOnDuplicate : Bool := false
  deriving DecidableEq

def buildKey (config : IdempotencyConfig) (eventId handlerName : String) : String :=
  handlerName ++ config.keySeparator ++ eventId

def GuardCall.key (config : IdempotencyConfig) (call : GuardCall) : String :=
  buildKey config call.eventId call.handlerName

/-- The values that `mark_processed` inserts. -/
def GuardCall.row (call : GuardCall) (began : ℤ) : ProcessedEvent where
  eventId := call.eventId
  eventType := call.eventType
  handlerName := call.handlerName
  sagaId := call.sagaId
  correlationId := call.correlationId
  createdAt := began

/-- The columns of `ProcessedEventTable`; `UUIDv7Base` gives it the first two. -/
def processedEventColumns : List String :=
  ["id", "sa_orm_sentinel", "idempotency_key", "event_id", "event_type", "handler_name", "saga_id",
    "correlation_id", "extra_metadata", "created_at"]

/-- The columns that the INSERT of `mark_processed` names. -/
def insertColumns : List String :=
  ["idempotency_key", "event_id", "event_type", "handler_name", "saga_id", "correlation_id",
    "tenant_id", "extra_metadata"]

def insertCompiles (columns : List String) : Bool := insertColumns.all fun c => c ∈ columns

abbrev KeyTable := Table String ProcessedEvent

/-- `is_processed`, on what is committed. -/
def isProcessed (key : String) (t : KeyTable) : Bool := (t.get? key).isSome

/-- The filter of `cleanup_expired`. -/
def expired (config : IdempotencyConfig) (ttlDays : Option ℤ) (now : ℤ) (row : ProcessedEvent) :
    Bool :=
  row.createdAt < now - days (ttlDays.getD config.ttlDays)

/-- Where a guard and its transaction are. -/
inductive Phase
  | idle
  /-- The guard yielded True and the body runs. -/
  | body
  /-- The guard yielded False. -/
  | skipped
  /-- The guard ended after its body; `inserted` is the answer of `mark_processed`. -/
  | marked (inserted : Bool)
  /-- The guard ended with an exception: of the body, of a statement or of the guard. -/
  | raised
  deriving DecidableEq

structure Worker where
  phase : Phase := .idle
  call : GuardCall := { eventId := "", handlerName := "" }
  began : ℤ := 0
  deriving DecidableEq

inductive Entry
  | committed (call : GuardCall) (phase : Phase)
  | cleaned (keys : List String)
  deriving DecidableEq

structure Guards (n : ℕ) where
  clock : ℤ
  table : KeyTable
  worker : Fin n → Worker := fun _ => {}
  log : List Entry := []
  deriving DecidableEq

inductive Act (n : ℕ)
  | enter (now began : ℤ) (w : Fin n) (call : GuardCall)
  | mark (w : Fin n)
  | raises (w : Fin n)
  | commit (w : Fin n)
  | rollback (w : Fin n)
  | cleanup (now : ℤ) (ttlDays : Option ℤ) (batchSize : Option ℕ) (keys : List String)

def Guards.setWorker (s : Guards n) (w : Fin n) (x : Worker) : Guards n :=
  { s with worker := Function.update s.worker w x }

/-- What the entry of the guard decides. -/
def entryPhase (config : IdempotencyConfig) (call : GuardCall) (t : KeyTable) : Phase :=
  if isProcessed (call.key config) t then
    if call.raiseOnDuplicate ∨ config.strictMode then .raised else .skipped
  else .body

/-- What `mark_processed` decides. -/
def markPhase (columns : List String) (key : String) (t : KeyTable) : Phase :=
  if insertCompiles columns then .marked (!isProcessed key t) else .raised

/-- Another transaction has inserted the key and is still open. -/
def Awaited (config : IdempotencyConfig) (s : Guards n) (w : Fin n) : Prop :=
  ∃ v, v ≠ w ∧ (s.worker v).phase = .marked true ∧
    (s.worker v).call.key config = (s.worker w).call.key config

instance (config : IdempotencyConfig) (s : Guards n) (w : Fin n) :
    Decidable (Awaited config s w) := by
  unfold Awaited
  infer_instance

def next (config : IdempotencyConfig) (columns : List String) (s : Guards n) :
    Act n → Option (Guards n)
  | .enter now began w call =>
    if s.clock ≤ now ∧ began ≤ now ∧ (s.worker w).phase = .idle then
      some { s.setWorker w
        { phase := entryPhase config call s.table, call := call, began := began } with
        clock := now }
    else none
  | .mark w =>
    if (s.worker w).phase = .body ∧ (insertCompiles columns → ¬ Awaited config s w) then
      some (s.setWorker w { s.worker w with
        phase := markPhase columns ((s.worker w).call.key config) s.table })
    else none
  | .raises w =>
    if (s.worker w).phase = .body then
      some (s.setWorker w { s.worker w with phase := .raised })
    else none
  | .commit w =>
    match (s.worker w).phase with
    | .idle | .body => none
    | .marked true =>
      (s.table.insert ((s.worker w).call.key config)
        ((s.worker w).call.row (s.worker w).began)).map fun t =>
          { s.setWorker w {} with
            table := t
            log := .committed (s.worker w).call (.marked true) :: s.log }
    | phase =>
      some { s.setWorker w {} with log := .committed (s.worker w).call phase :: s.log }
  | .rollback w => some (s.setWorker w {})
  | .cleanup now ttlDays batchSize keys =>
    if s.clock ≤ now ∧ IsSelection s.table (expired config ttlDays now) ProcessedEvent.createdAt
        (batchSize.getD config.cleanupBatchSize) keys then
      some { s with
        clock := now
        table := s.table.deleteWhere fun key _ => key ∈ keys
        log := .cleaned keys :: s.log }
    else none

/-- `n` workers on a table with the columns `columns` that is empty at first. -/
def guards (n : ℕ) (config : IdempotencyConfig) (columns : List String) :
    System (Guards n) (Act n) where
  init s := s = { clock := s.clock, table := Table.empty }
  next := next config columns

theorem init_guards (config : IdempotencyConfig) (columns : List String) (clock : ℤ) :
    (guards n config columns).init { clock := clock, table := Table.empty } :=
  rfl

variable {config : IdempotencyConfig} {columns : List String} {s s' : Guards n} {a : Act n}

theorem next_cases (h : next config columns s a = some s') :
    (∃ now began w call, a = .enter now began w call ∧ (s.worker w).phase = .idle ∧
      s' = { s.setWorker w
        { phase := entryPhase config call s.table, call := call, began := began } with
        clock := now }) ∨
    (∃ w, a = .mark w ∧ (s.worker w).phase = .body ∧
      (insertCompiles columns → ¬ Awaited config s w) ∧
      s' = s.setWorker w { s.worker w with
        phase := markPhase columns ((s.worker w).call.key config) s.table }) ∨
    (∃ w, a = .raises w ∧ (s.worker w).phase = .body ∧
      s' = s.setWorker w { s.worker w with phase := .raised }) ∨
    (∃ w t, a = .commit w ∧ (s.worker w).phase = .marked true ∧
      s.table.insert ((s.worker w).call.key config)
        ((s.worker w).call.row (s.worker w).began) = some t ∧
      s' = { s.setWorker w {} with
        table := t
        log := .committed (s.worker w).call (.marked true) :: s.log }) ∨
    (∃ w, a = .commit w ∧ (s.worker w).phase ≠ .idle ∧ (s.worker w).phase ≠ .body ∧
      (s.worker w).phase ≠ .marked true ∧
      s' = { s.setWorker w {} with
        log := .committed (s.worker w).call (s.worker w).phase :: s.log }) ∨
    (∃ w, a = .rollback w ∧ s' = s.setWorker w {}) ∨
    (∃ now ttlDays batchSize keys, a = .cleanup now ttlDays batchSize keys ∧
      s' = { s with
        clock := now
        table := s.table.deleteWhere fun key _ => key ∈ keys
        log := .cleaned keys :: s.log }) := by
  cases a with
  | enter now began w call =>
    simp only [next, Option.ite_none_right_eq_some, Option.some.injEq] at h
    exact Or.inl ⟨now, began, w, call, rfl, h.1.2.2, h.2.symm⟩
  | mark w =>
    simp only [next, Option.ite_none_right_eq_some, Option.some.injEq] at h
    exact Or.inr (Or.inl ⟨w, rfl, h.1.1, h.1.2, h.2.symm⟩)
  | raises w =>
    simp only [next, Option.ite_none_right_eq_some, Option.some.injEq] at h
    exact Or.inr (Or.inr (Or.inl ⟨w, rfl, h.1, h.2.symm⟩))
  | commit w =>
    simp only [next] at h
    split at h
    · cases h
    · cases h
    · rename_i hphase
      obtain ⟨t, ht, rfl⟩ := Option.map_eq_some_iff.mp h
      exact Or.inr (Or.inr (Or.inr (Or.inl ⟨w, t, rfl, hphase, ht, rfl⟩)))
    · rename_i hidle hbody hmarked
      obtain rfl := Option.some.inj h
      exact Or.inr (Or.inr (Or.inr (Or.inr (Or.inl
        ⟨w, rfl, hidle, hbody, hmarked, rfl⟩))))
  | rollback w =>
    exact Or.inr (Or.inr (Or.inr (Or.inr (Or.inr (Or.inl ⟨w, rfl, (Option.some.inj h).symm⟩)))))
  | cleanup now ttlDays batchSize keys =>
    simp only [next, Option.ite_none_right_eq_some, Option.some.injEq] at h
    exact Or.inr (Or.inr (Or.inr (Or.inr (Or.inr (Or.inr
      ⟨now, ttlDays, batchSize, keys, rfl, h.2.symm⟩)))))

end Taas.Idempotency
