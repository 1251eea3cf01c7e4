import Taas.Python
import Taas.Sessions
import Taas.Transition

/-!
The dead letter queue: its table, the repository calls on it, and any number of workers and
operators who make them. Each call is one atomic step in a session of the caller. A worker holds
a row from the claim that returned it until its own mark of that row; a worker that stops takes no
more steps and holds nothing. The marks look at the id alone, and `mark_failed` counts from the
object of its session.
-/
namespace Taas.Dlq

open Python Sql Transition

variable {J W S : Type} [DecidableEq W] [DecidableEq S]

inductive DLQStatus
  | pending
  | approved
  | cancelled
  | processing
  | resolved
  | failed
  | abandoned
  | archived
  deriving DecidableEq, Repr

structure DeadLetterConfig where
  batchSize : ℕ := 50
  maxRetries : ℤ := 3

/-- A row, with JSON values of type `J`. -/
structure DLQEvent (J : Type) where
  eventId : String
  eventType : String
  handlerName : String
  sourceDestination : Option String
  payload : J
  headers : J
  status : DLQStatus
  retryCount : ℤ
  maxRetries : ℤ
  originalError : String
  lastError : Option String := none
  correlationId : Option String
  userId : Option String
  tenantId : Option ℤ
  failedAt : ℤ
  createdAt : ℤ
  updatedAt : ℤ
  processedAt : Option ℤ := none
  deriving DecidableEq

abbrev DLQTable (J : Type) := Table String (DLQEvent J)

/-- The arguments of `save_event`. -/
structure FailedEvent (J : Type) where
  eventId : String
  eventType : String
  handlerName : String
  payload : J
  error : String
  sourceDestination : Option String := none
  headers : J
  maxRetries : Option ℤ := none
  correlationId : Option String := none
  userId : Option String := none
  tenantId : Option ℤ := none

/-- The row that `DLQService.save_event` builds at `now`. -/
def FailedEvent.row (config : DeadLetterConfig) (now : ℤ) (m : FailedEvent J) : DLQEvent J where
  eventId := m.eventId
  eventType := m.eventType
  handlerName := m.handlerName
  sourceDestination := m.sourceDestination
  payload := m.payload
  headers := m.headers
  status := .pending
  retryCount := 0
  maxRetries := orDefault m.maxRetries config.maxRetries
  originalError := m.error
  correlationId := m.correlationId
  userId := m.userId
  tenantId := m.tenantId
  failedAt := now
  createdAt := now
  updatedAt := now

/-- The filter of `fetch_pending_batch`. -/
def claimable (e : DLQEvent J) : Bool := e.status = .pending ∧ e.retryCount < e.maxRetries

/-- The ids that `fetch_pending_batch` may select. -/
def Fetches (config : DeadLetterConfig) (batchSize : Option ℕ) (t : DLQTable J)
    (ids : List String) : Prop :=
  IsSelection t claimable DLQEvent.createdAt (orDefault batchSize config.batchSize) ids

instance (config : DeadLetterConfig) (batchSize : Option ℕ) (t : DLQTable J)
    (ids : List String) : Decidable (Fetches config batchSize t ids) := by
  unfold Fetches
  infer_instance

def fetchPendingBatch (now : ℤ) (ids : List String) (t : DLQTable J) : DLQTable J :=
  t.updateWhere (fun id _ => id ∈ ids) fun e => { e with status := .processing, updatedAt := now }

def markResolved (now : ℤ) (id : String) (t : DLQTable J) : DLQTable J :=
  t.updateWhere (fun j _ => j = id) fun e =>
    { e with status := .resolved, processedAt := some now, updatedAt := now }

/-- `get` in a session that holds the object `loaded` under the id, if any. -/
def get (id : String) (loaded : Option (DLQEvent J)) (t : DLQTable J) : Option (DLQEvent J) :=
  (t.get? id).map fun row => loaded.getD row

/-- A missing event is logged and left alone. -/
def markFailed (now : ℤ) (id error : String) (loaded : Option (DLQEvent J)) (t : DLQTable J) :
    DLQTable J :=
  match get id loaded t with
  | none => t
  | some event =>
    let newRetryCount := event.retryCount + 1
    let exhausted : Bool := newRetryCount ≥ event.maxRetries
    let newStatus := if exhausted then .abandoned else .pending
    t.updateWhere (fun j _ => j = id) fun e =>
      { e with
        status := newStatus
        retryCount := newRetryCount
        lastError := some (prefixOf 1000 error)
        updatedAt := now }

def markAbandoned (now : ℤ) (id : String) (t : DLQTable J) : DLQTable J :=
  t.updateWhere (fun j _ => j = id) fun e => { e with status := .abandoned, updatedAt := now }

/-- The marks that end the work on a row. -/
inductive Mark
  | resolved
  | failed (error : String)
  | abandoned
  deriving DecidableEq

def Mark.apply (now : ℤ) (id : String) (loaded : Option (DLQEvent J)) :
    Mark → DLQTable J → DLQTable J
  | .resolved => markResolved now id
  | .failed error => markFailed now id error loaded
  | .abandoned => markAbandoned now id

/-- The row after a mark of it by a session for which `event` is under its id. -/
def Mark.of (now : ℤ) (event row : DLQEvent J) : Mark → DLQEvent J
  | .resolved => { row with status := .resolved, processedAt := some now, updatedAt := now }
  | .failed error =>
    { row with
      status := if event.retryCount + 1 ≥ event.maxRetries then .abandoned else .pending
      retryCount := event.retryCount + 1
      lastError := some (prefixOf 1000 error)
      updatedAt := now }
  | .abandoned => { row with status := .abandoned, updatedAt := now }

structure Queue (J W S : Type) where
  table : DLQTable J
  /-- The rows that live workers hold. -/
  held : List (W × String) := []
  stopped : List W := []
  objects : Objects S String (DLQEvent J) := []
  deriving DecidableEq

/-- `caller` is `none` for an operator. -/
inductive Act (J W S : Type)
  | save (now : ℤ) (session : S) (id : String) (m : FailedEvent J)
  | fetch (now : ℤ) (w : W) (session : S) (batchSize : Option ℕ) (ids : List String)
  | mark (now : ℤ) (caller : Option W) (session : S) (id : String) (mark : Mark)
  | stop (w : W)

def next (config : DeadLetterConfig) (s : Queue J W S) : Act J W S → Option (Queue J W S)
  | .save now session id m =>
    (s.table.insert id (m.row config now)).map fun t =>
      { s with table := t, objects := s.objects.load session [id] t }
  | .fetch now w session batchSize ids =>
    if w ∉ s.stopped ∧ Fetches config batchSize s.table ids then
      some { s with
        table := fetchPendingBatch now ids s.table
        held := ids.map (fun id => (w, id)) ++ s.held
        objects := (s.objects.load session ids s.table).updateWhere session
          (fun id _ => id ∈ ids) fun e => { e with status := .processing, updatedAt := now } }
    else none
  | .mark now caller session id mark =>
    if ∀ w ∈ caller, w ∉ s.stopped then
      some { s with
        table := mark.apply now id (s.objects.get? session id) s.table
        held := s.held.filter fun x => !(some x.1 = caller ∧ x.2 = id)
        objects := s.objects.updateWhere session (fun j _ => j = id) fun e => mark.of now e e }
    else none
  | .stop w => some { s with held := s.held.filter fun x => x.1 ≠ w, stopped := w :: s.stopped }

/-- Workers `W` and operators with sessions `S` on a table that is empty at first. -/
def queue (J W S : Type) [DecidableEq W] [DecidableEq S] (config : DeadLetterConfig) :
    System (Queue J W S) (Act J W S) where
  init s := s = { table := Table.empty }
  next := next config

theorem init_queue (config : DeadLetterConfig) :
    (queue J W S config).init { table := Table.empty } :=
  rfl

variable {config : DeadLetterConfig} {s s' : Queue J W S} {a : Act J W S} {t : DLQTable J}
variable {now : ℤ} {id : String} {ids : List String} {batchSize : Option ℕ} {e : DLQEvent J}
variable {session : S} {loaded : Option (DLQEvent J)}

theorem get?_fetchPendingBatch (now : ℤ) (ids : List String) (t : DLQTable J) (j : String) :
    (fetchPendingBatch now ids t).get? j = (t.get? j).map fun e =>
      if j ∈ ids then { e with status := .processing, updatedAt := now } else e := by
  simp [fetchPendingBatch, Table.get?_updateWhere]

@[simp] theorem maxRetries_of (now : ℤ) (event row : DLQEvent J) (m : Mark) :
    (m.of now event row).maxRetries = row.maxRetries := by
  cases m <;> rfl

theorem get?_mark (now : ℤ) (id : String) (loaded : Option (DLQEvent J)) (m : Mark)
    (t : DLQTable J) (j : String) :
    (m.apply now id loaded t).get? j =
      (t.get? j).map fun row => if j = id then m.of now (loaded.getD row) row else row := by
  cases m with
  | resolved => simp [Mark.apply, Mark.of, markResolved, Table.get?_updateWhere]
  | abandoned => simp [Mark.apply, Mark.of, markAbandoned, Table.get?_updateWhere]
  | failed error =>
    show (markFailed now id error loaded t).get? j = _
    unfold markFailed get Mark.of
    cases hid : t.get? id with
    | none =>
      by_cases hj : j = id
      · subst hj
        simp [hid]
      · simp [hj]
    | some event =>
      by_cases hj : j = id
      · subst hj
        simp [Table.get?_updateWhere, hid]
      · simp [Table.get?_updateWhere, hj]

theorem Fetches.row (h : Fetches config batchSize t ids) (hid : id ∈ ids) :
    ∃ e, t.get? id = some e ∧ e.status = .pending ∧ e.retryCount < e.maxRetries := by
  obtain ⟨e, he, hc⟩ := IsSelection.exists_row h hid
  exact ⟨e, he, by simpa [claimable] using hc⟩

theorem next_cases (h : next config s a = some s') :
    (∃ now session id m t, a = .save now session id m ∧
      s.table.insert id (m.row config now) = some t ∧
      s' = { s with table := t, objects := s.objects.load session [id] t }) ∨
    (∃ now w session batchSize ids, a = .fetch now w session batchSize ids ∧ w ∉ s.stopped ∧
      Fetches config batchSize s.table ids ∧
      s' = { s with
        table := fetchPendingBatch now ids s.table
        held := ids.map (fun id => (w, id)) ++ s.held
        objects := (s.objects.load session ids s.table).updateWhere session
          (fun id _ => id ∈ ids) fun e => { e with status := .processing, updatedAt := now } }) ∨
    (∃ now caller session id mark, a = .mark now caller session id mark ∧
      s' = { s with
        table := mark.apply now id (s.objects.get? session id) s.table
        held := s.held.filter fun x => !(some x.1 = caller ∧ x.2 = id)
        objects := s.objects.updateWhere session (fun j _ => j = id) fun e => mark.of now e e }) ∨
    (∃ w, a = .stop w ∧
      s' = { s with held := s.held.filter fun x => x.1 ≠ w, stopped := w :: s.stopped }) := by
  cases a with
  | save now session id m =>
    obtain ⟨t, ht, rfl⟩ := Option.map_eq_some_iff.mp h
    exact Or.inl ⟨now, session, id, m, t, rfl, ht, rfl⟩
  | fetch now w session batchSize ids =>
    simp only [next, Option.ite_none_right_eq_some, Option.some.injEq] at h
    exact Or.inr (Or.inl ⟨now, w, session, batchSize, ids, rfl, h.1.1, h.1.2, h.2.symm⟩)
  | mark now caller session id mark =>
    simp only [next, Option.ite_none_right_eq_some, Option.some.injEq] at h
    exact Or.inr (Or.inr (Or.inl ⟨now, caller, session, id, mark, rfl, h.2.symm⟩))
  | stop w =>
    exact Or.inr (Or.inr (Or.inr ⟨w, rfl, (Option.some.inj h).symm⟩))

/-- The object of a session, or the row where it has none. -/
def seen (s : Queue J W S) (session : S) (id : String) (row : DLQEvent J) : DLQEvent J :=
  (s.objects.get? session id).getD row

/-- What one step does to the row `e` under `id`. -/
inductive RowStep (s : Queue J W S) (id : String) (e : DLQEvent J) : Act J W S → DLQEvent J → Prop
  | saved {now : ℤ} {session : S} {j : String} {m : FailedEvent J} :
      RowStep s id e (.save now session j m) e
  | claimed {now : ℤ} {w : W} {session : S} {batchSize : Option ℕ} {ids : List String}
      (hid : id ∈ ids) (hstatus : e.status = .pending) (hleft : e.retryCount < e.maxRetries) :
      RowStep s id e (.fetch now w session batchSize ids)
        { e with status := .processing, updatedAt := now }
  | passed {now : ℤ} {w : W} {session : S} {batchSize : Option ℕ} {ids : List String}
      (hid : id ∉ ids) : RowStep s id e (.fetch now w session batchSize ids) e
  | marked {now : ℤ} {caller : Option W} {session : S} {m : Mark} :
      RowStep s id e (.mark now caller session id m) (m.of now (seen s session id e) e)
  | unmarked {now : ℤ} {caller : Option W} {session : S} {j : String} {m : Mark} (hj : id ≠ j) :
      RowStep s id e (.mark now caller session j m) e
  | stopped {w : W} : RowStep s id e (.stop w) e

theorem exists_rowStep (hstep : next config s a = some s') (hid : s.table.get? id = some e) :
    ∃ e', s'.table.get? id = some e' ∧ RowStep s id e a e' := by
  rcases next_cases hstep with ⟨now, session, j, m, t, rfl, ht, rfl⟩ |
      ⟨now, w, session, batchSize, ids, rfl, _, hids, rfl⟩ |
      ⟨now, caller, session, j, m, rfl, rfl⟩ | ⟨w, rfl, rfl⟩
  · obtain ⟨hnew, hget⟩ := Table.insert_eq_some ht
    have hne : id ≠ j := by
      rintro rfl
      simp [hnew] at hid
    exact ⟨e, by rw [hget id, if_neg hne, hid], RowStep.saved⟩
  · by_cases hmem : id ∈ ids
    · obtain ⟨row, hrow, hs, hleft⟩ := hids.row hmem
      obtain rfl : e = row := by simpa [hid] using hrow
      exact ⟨_, by simp [get?_fetchPendingBatch, hid, hmem], RowStep.claimed hmem hs hleft⟩
    · exact ⟨e, by simp [get?_fetchPendingBatch, hid, hmem], RowStep.passed hmem⟩
  · by_cases hj : id = j
    · subst hj
      exact ⟨m.of now (seen s session id e) e, by simp [get?_mark, hid, seen], RowStep.marked⟩
    · exact ⟨e, by simp [get?_mark, hid, hj], RowStep.unmarked hj⟩
  · exact ⟨e, hid, RowStep.stopped⟩

/-- An object has the cap of its row. -/
def CapsKept (s : Queue J W S) : Prop := s.objects.Agree DLQEvent.maxRetries s.table

omit [DecidableEq W] in
theorem CapsKept.seen (h : CapsKept s) (hid : s.table.get? id = some e) :
    (seen s session id e).maxRetries = e.maxRetries := by
  unfold Dlq.seen
  cases hobj : s.objects.get? session id with
  | none => rfl
  | some event =>
    obtain ⟨e', he', hcap⟩ := h session id event hobj
    obtain rfl : e = e' := by simpa [hid] using he'
    exact hcap

omit [DecidableEq W] in
theorem RowStep.maxRetries {e' : DLQEvent J} (h : RowStep s id e a e') :
    e'.maxRetries = e.maxRetries := by
  cases h with
  | @marked now caller session m => exact maxRetries_of now _ e m
  | _ => rfl

theorem capsKept_step (h : CapsKept s) (hstep : next config s a = some s') : CapsKept s' := by
  have hrows : ∀ id e, s.table.get? id = some e →
      ∃ e', s'.table.get? id = some e' ∧ e'.maxRetries = e.maxRetries := by
    intro id e he
    obtain ⟨e', he', hcase⟩ := exists_rowStep hstep he
    exact ⟨e', he', hcase.maxRetries⟩
  have hold : s.objects.Agree DLQEvent.maxRetries s'.table := h.ofRows hrows
  unfold CapsKept
  rcases next_cases hstep with ⟨now, session, j, m, t, rfl, ht, rfl⟩ |
      ⟨now, w, session, batchSize, ids, rfl, _, hids, rfl⟩ |
      ⟨now, caller, session, j, m, rfl, rfl⟩ | ⟨w, rfl, rfl⟩
  · exact hold.load session [j] fun id e he => ⟨e, he, rfl⟩
  · dsimp only
    refine (hold.load session ids hrows).updateWhere session _ fun event => ?_
    rfl
  · dsimp only
    refine hold.updateWhere session _ fun event => ?_
    exact maxRetries_of now event event m
  · exact hold

theorem capsKept_run {ok : Condition (Queue J W S) (Act J W S)} {as : List (Act J W S)}
    (h : Trace (queue J W S config) ok as s) : CapsKept s := by
  refine h.invariant ?_ fun s a s' => capsKept_step
  rintro s rfl session id event hevent
  cases hevent

end Taas.Dlq
