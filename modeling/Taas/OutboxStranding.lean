import Taas.Outbox
import Taas.Transition

/-!
Which outbox rows the two queries of the repository reach. The repository calls happen
in any order at a clock that only moves forward; a worker that stops takes no more
steps. A row that is waiting or being processed is reached by the claim query or by
the stale reset for a week after its creation. The claim query leaves older rows out.
-/
namespace Taas.OutboxStranding

open Python Sql Outbox Transition

variable {J : Type}

structure Store (J : Type) where
  clock : ℤ
  table : OutboxTable J
  deriving DecidableEq

/-- `loaded` is the object, whatever it is, that the session of a `mark_failed` holds. -/
inductive Act (J : Type)
  | save (now created : ℤ) (id : String) (m : RawMessage J)
  | fetch (now : ℤ) (batchSize : Option ℕ) (ids : List String)
  | markPublished (now : ℤ) (id : String)
  | markFailed (now : ℤ) (id error : String) (loaded : Option (OutboxEvent J))
  | resetStale (now : ℤ) (timeoutSeconds : Option ℤ)

def next (config : OutboxConfig) (s : Store J) : Act J → Option (Store J)
  | .save now created id m =>
    if s.clock ≤ now ∧ created ≤ now then
      (s.table.insert id (m.event config created)).map fun t => { clock := now, table := t }
    else none
  | .fetch now batchSize ids =>
    if s.clock ≤ now ∧ Fetches config batchSize now s.table ids then
      some { clock := now, table := fetchPendingBatch now ids s.table }
    else none
  | .markPublished now id =>
    if s.clock ≤ now then some { clock := now, table := markPublished now id s.table } else none
  | .markFailed now id error loaded =>
    if s.clock ≤ now then some { clock := now, table := markFailed now id error loaded s.table }
    else none
  | .resetStale now timeoutSeconds =>
    if s.clock ≤ now then
      some { clock := now, table := (resetStaleProcessing config timeoutSeconds now s.table).1 }
    else none

def repository (J : Type) (config : OutboxConfig) : System (Store J) (Act J) where
  init s := s.table = Table.empty
  next := next config

theorem init_repository (config : OutboxConfig) (clock : ℤ) :
    (repository J config).init ⟨clock, Table.empty⟩ :=
  rfl

/-- A fetch at `now` with a large enough batch size has an answer, and it has `id` in it. -/
def SelectedAt (config : OutboxConfig) (now : ℤ) (t : OutboxTable J) (id : String) : Prop :=
  ∀ batchSize, t.rows.length < batchSize → (∃ ids, Fetches config (some batchSize) now t ids) ∧
    ∀ ids, Fetches config (some batchSize) now t ids → id ∈ ids

/-- The row `e` is waiting and selected at every later time that `horizon` allows, or it is
being processed and a stale reset after the processing timeout makes it such a row. -/
def Reached (config : OutboxConfig) (horizon : ℤ → Prop) (s : Store J) (id : String)
    (e : OutboxEvent J) : Prop :=
  (e.status = .pending ∧ ∀ now, s.clock ≤ now → horizon now → SelectedAt config now s.table id) ∨
  (e.status = .processing ∧ e.updatedAt ≤ s.clock ∧ ∀ now, s.clock ≤ now →
    e.updatedAt + seconds config.processingTimeoutSeconds < now →
    ∃ e', (resetStaleProcessing config none now s.table).1.get? id = some e' ∧
      e'.status = .pending ∧ e'.retryCount < e'.maxRetries ∧ ∀ later, now ≤ later →
        horizon later → SelectedAt config later (resetStaleProcessing config none now s.table).1 id)

/-- Every row that is neither published nor dead and has retries left is reached. -/
def NoneStranded (config : OutboxConfig) (s : Store J) : Prop :=
  ∀ id e, s.table.get? id = some e → e.status ≠ .published → e.status ≠ .deadLetter →
    e.retryCount < e.maxRetries → Reached config (fun _ => True) s id e

/-- Every row that has not come to an end or failed is reached up to a week after its creation. -/
def ReachedForAWeek (config : OutboxConfig) (s : Store J) : Prop :=
  ∀ id e, s.table.get? id = some e → e.status ≠ .published → e.status ≠ .deadLetter →
    e.status ≠ .failed → e.retryCount < e.maxRetries →
    Reached config (fun now => now ≤ e.createdAt + days 7) s id e

variable {config : OutboxConfig} {s s' : Store J} {a : Act J} {as : List (Act J)}
variable {ok : Condition (Store J) (Act J)} {t : OutboxTable J} {now : ℤ} {id : String}
variable {e : OutboxEvent J}

theorem next_cases (h : next config s a = some s') :
    (∃ now created id m, a = .save now created id m ∧ s.clock ≤ now ∧ created ≤ now ∧
      s.table.insert id (m.event config created) = some s'.table ∧ s'.clock = now) ∨
    (∃ now batchSize ids, a = .fetch now batchSize ids ∧ s.clock ≤ now ∧
      Fetches config batchSize now s.table ids ∧
      s' = ⟨now, fetchPendingBatch now ids s.table⟩) ∨
    (∃ now id, a = .markPublished now id ∧ s.clock ≤ now ∧
      s' = ⟨now, markPublished now id s.table⟩) ∨
    (∃ now id error loaded, a = .markFailed now id error loaded ∧ s.clock ≤ now ∧
      s' = ⟨now, markFailed now id error loaded s.table⟩) ∨
    (∃ now timeoutSeconds, a = .resetStale now timeoutSeconds ∧ s.clock ≤ now ∧
      s' = ⟨now, (resetStaleProcessing config timeoutSeconds now s.table).1⟩) := by
  cases a with
  | save now created id m =>
    simp only [next, Option.ite_none_right_eq_some, Option.map_eq_some_iff] at h
    obtain ⟨⟨h1, h2⟩, t, ht, rfl⟩ := h
    exact Or.inl ⟨now, created, id, m, rfl, h1, h2, ht, rfl⟩
  | fetch now batchSize ids =>
    simp only [next, Option.ite_none_right_eq_some, Option.some.injEq] at h
    exact Or.inr (Or.inl ⟨now, batchSize, ids, rfl, h.1.1, h.1.2, h.2.symm⟩)
  | markPublished now id =>
    simp only [next, Option.ite_none_right_eq_some, Option.some.injEq] at h
    exact Or.inr (Or.inr (Or.inl ⟨now, id, rfl, h.1, h.2.symm⟩))
  | markFailed now id error loaded =>
    simp only [next, Option.ite_none_right_eq_some, Option.some.injEq] at h
    exact Or.inr (Or.inr (Or.inr (Or.inl ⟨now, id, error, loaded, rfl, h.1, h.2.symm⟩)))
  | resetStale now timeoutSeconds =>
    simp only [next, Option.ite_none_right_eq_some, Option.some.injEq] at h
    exact Or.inr (Or.inr (Or.inr (Or.inr ⟨now, timeoutSeconds, rfl, h.1, h.2.symm⟩)))

/-- No row was updated in the future. -/
def UpdatedInPast (s : Store J) : Prop :=
  ∀ id e, s.table.get? id = some e → e.updatedAt ≤ s.clock

theorem updatedInPast_of_map (hi : UpdatedInPast s) (hclock : s.clock ≤ now)
    {f : String → OutboxEvent J → OutboxEvent J}
    (hf : ∀ j e, (f j e).updatedAt = now ∨ (f j e).updatedAt = e.updatedAt)
    (ht : ∀ j, t.get? j = (s.table.get? j).map (f j)) : UpdatedInPast ⟨now, t⟩ := by
  intro j e' he'
  rw [ht j] at he'
  obtain ⟨e, he, rfl⟩ := Option.map_eq_some_iff.mp he'
  show (f j e).updatedAt ≤ now
  rcases hf j e with h | h
  · rw [h]
  · rw [h]
    exact (hi j e he).trans hclock

theorem updatedInPast_step (hi : UpdatedInPast s) (hstep : next config s a = some s') :
    UpdatedInPast s' := by
  rcases next_cases hstep with ⟨now, created, id, m, rfl, hc, hcr, ht, hs⟩ |
      ⟨now, _, ids, rfl, hc, _, rfl⟩ | ⟨now, id, rfl, hc, rfl⟩ |
      ⟨now, id, error, loaded, rfl, hc, rfl⟩ | ⟨now, timeoutSeconds, rfl, hc, rfl⟩
  · intro j e he
    rw [(Table.insert_eq_some ht).2 j] at he
    rw [hs]
    split at he
    · obtain rfl := Option.some.inj he
      exact hcr
    · exact (hi j e he).trans hc
  · exact updatedInPast_of_map hi hc (fun j e => by split <;> simp)
      (get?_fetchPendingBatch now ids s.table)
  · exact updatedInPast_of_map hi hc (fun j e => by split <;> simp)
      (get?_markPublished now id s.table)
  · exact updatedInPast_of_map hi hc (fun j e => by split <;> simp [afterFailure])
      (get?_markFailed now id error loaded s.table)
  · exact updatedInPast_of_map hi hc (fun j e => by split <;> simp)
      (get?_resetStaleProcessing config timeoutSeconds now s.table)

theorem selectedAt_of_claimable (hid : t.get? id = some e) (hc : claimable now e = true) :
    SelectedAt config now t id := by
  intro batchSize hlarge
  have hb : orDefault (some batchSize) config.batchSize = batchSize := by
    have : batchSize ≠ 0 := by omega
    simp [orDefault, this]
  refine ⟨exists_selection t (claimable now) OutboxEvent.createdAt _, fun ids hids => ?_⟩
  refine IsSelection.mem_of_large_limit hids ?_ hid hc
  rw [hb]
  exact hlarge

theorem claimable_of_pending (hs : e.status = .pending) (hr : e.retryCount < e.maxRetries)
    (hnow : now ≤ e.createdAt + days 7) : claimable now e = true := by
  have : now - days 7 ≤ e.createdAt := by omega
  simp [claimable, hs, hr, this]

/-- In every reachable state, each row that is waiting or being processed and has retries
left is reached until a week after its creation. -/
theorem rows_reached_for_a_week (h : Trace (repository J config) free as s) :
    ReachedForAWeek config s := by
  have hpast : UpdatedInPast s := by
    refine Trace.invariant (M := repository J config) ?_ (fun s a s' => updatedInPast_step) h
    rintro s hinit id e he
    have : s.table = Table.empty := hinit
    simp [this, Table.get?_empty] at he
  intro id e he hp hd hf hr
  cases hs : e.status with
  | pending =>
    refine Or.inl ⟨hs, fun now _ hnow => ?_⟩
    exact selectedAt_of_claimable he (claimable_of_pending hs hr hnow)
  | processing =>
    refine Or.inr ⟨hs, hpast id e he, fun now _ hlate => ?_⟩
    have hstale : stale config none now e = true := by
      have : e.updatedAt < now - seconds config.processingTimeoutSeconds := by omega
      simp [stale, hs, orDefault, this]
    have hreset : (resetStaleProcessing config none now s.table).1.get? id =
        some { e with status := .pending, updatedAt := now } := by
      simp [get?_resetStaleProcessing, he, hstale]
    refine ⟨_, hreset, rfl, hr, fun later _ hlater => ?_⟩
    exact selectedAt_of_claimable hreset (claimable_of_pending rfl hr hlater)
  | published => exact absurd hs hp
  | failed => exact absurd hs hf
  | deadLetter => exact absurd hs hd

def message : RawMessage Unit where
  channel := "orders"
  payload := ()
  eventType := "OrderPlaced"
  headers := ()

def saved : Store Unit where
  clock := 0
  table := ⟨[("a", message.event {} 0)], by simp⟩

def claimed : Store Unit where
  clock := 1
  table := ⟨[("a", { message.event {} 0 with status := .processing, updatedAt := 1 })], by simp⟩

theorem rows_reached_for_a_week_claimed :
    Trace (repository Unit {}) free [.save 0 0 "a" message, .fetch 1 none ["a"]] claimed ∧
      ReachedForAWeek {} claimed := by
  have hrun : replay (repository Unit {}) free []
      [.save 0 0 "a" message, .fetch 1 none ["a"]] ⟨0, Table.empty⟩ = some claimed := by decide
  have ht := trace_of_replay (init_repository _ _) hrun
  exact ⟨ht, rows_reached_for_a_week ht⟩

def failedOnce : Store Unit where
  clock := 2
  table := ⟨[("a", { message.event {} 0 with
    status := .failed, retryCount := 1, lastError := some "TimeoutError", updatedAt := 2 })],
    by simp⟩

/-- A row that is still waiting eight days after its creation is no longer selected, and a
row that failed once is neither waiting nor being processed although it has retries left. -/
theorem old_or_failed_row_is_stranded :
    (¬ ∀ (config : OutboxConfig) (as : List (Act Unit)) (s : Store Unit),
      Trace (repository Unit config) free as s → NoneStranded config s) ∧
    (∃ (as : List (Act Unit)) (s : Store Unit) (e : OutboxEvent Unit),
      Trace (repository Unit {}) free as s ∧ s.table.get? "a" = some e ∧
      e.status = .failed ∧ e.retryCount < e.maxRetries ∧ ¬ NoneStranded {} s) := by
  constructor
  · intro hclaim
    have hrun : replay (repository Unit {}) free [] [.save 0 0 "a" message]
        ⟨0, Table.empty⟩ = some saved := by decide
    rcases hclaim _ _ _ (trace_of_replay (init_repository _ _) hrun) "a" (message.event {} 0)
        rfl (by decide) (by decide) (by decide) with ⟨_, hsel⟩ | ⟨hs, _⟩
    · obtain ⟨⟨ids, hids⟩, hmem⟩ := hsel (days 8) (by decide) trivial 2 (by decide)
      obtain ⟨e, he, _, _, hage⟩ := hids.row (hmem ids hids)
      obtain rfl : message.event {} 0 = e := by simpa [saved, Table.get?] using he
      exact absurd hage (by decide)
    · exact absurd hs (by decide)
  · have hrun : replay (repository Unit {}) free []
        [.save 0 0 "a" message, .fetch 1 none ["a"], .markFailed 2 "a" "TimeoutError" none]
        ⟨0, Table.empty⟩ = some failedOnce := by decide
    refine ⟨_, failedOnce, _, trace_of_replay (init_repository _ _) hrun, rfl, rfl,
      by decide, fun hns => ?_⟩
    rcases hns "a" _ rfl (by decide) (by decide) (by decide) with ⟨hs, _⟩ | ⟨hs, _⟩ <;>
      exact absurd hs (by decide)

end Taas.OutboxStranding
