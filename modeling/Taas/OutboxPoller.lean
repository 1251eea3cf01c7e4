import Taas.Outbox
import Taas.Transition

/-!
Outbox pollers on one table. A worker claims a batch, hands its events to the publisher
one after the other and marks each as published when its publish returns; when a publish
raises it only records metrics, since the call of `mark_failed` is commented out. A
crash loses the batch. The maintenance loop resets stale rows. `handed`, `claims` and
`failures` are ghosts.
-/
namespace Taas.OutboxPoller

open Python Sql Outbox Transition

variable {J : Type} {n : ℕ}

/-- The events that a worker has claimed and not handed over yet, and the event whose
publish it awaits. -/
structure Worker (J : Type) where
  batch : List (String × OutboxEvent J) := []
  publishing : Option (String × OutboxEvent J) := none
  deriving DecidableEq

structure Poller (J : Type) (n : ℕ) where
  clock : ℤ
  table : OutboxTable J
  worker : Fin n → Worker J := fun _ => {}
  /-- The events that `record_publish` counted as moved to the DLQ. -/
  movedToDlq : List String := []
  handed : List String := []
  claims : List String := []
  failures : List String := []
  deriving DecidableEq

inductive Act (J : Type) (n : ℕ)
  | save (now created : ℤ) (id : String) (m : RawMessage J)
  | fetch (now : ℤ) (w : Fin n) (ids : List String)
  | handOff (w : Fin n)
  | publishReturns (now : ℤ) (w : Fin n)
  | publishRaises (w : Fin n)
  | crash (w : Fin n)
  | resetStale (now : ℤ)

def Poller.setWorker (s : Poller J n) (w : Fin n) (x : Worker J) : Poller J n :=
  { s with worker := Function.update s.worker w x }

@[simp] theorem setWorker_self (s : Poller J n) (w : Fin n) (x : Worker J) :
    (s.setWorker w x).worker w = x := by
  simp [Poller.setWorker]

theorem setWorker_of_ne {v w : Fin n} (h : v ≠ w) (s : Poller J n) (x : Worker J) :
    (s.setWorker w x).worker v = s.worker v := by
  simp [Poller.setWorker, h]

def next (config : OutboxConfig) (s : Poller J n) : Act J n → Option (Poller J n)
  | .save now created id m =>
    if s.clock ≤ now ∧ created ≤ now then
      (s.table.insert id (m.event config created)).map fun t => { s with clock := now, table := t }
    else none
  | .fetch now w ids =>
    if s.clock ≤ now ∧ (s.worker w).batch = [] ∧ (s.worker w).publishing = none ∧
        Fetches config (some config.batchSize) now s.table ids then
      some { s.setWorker w { batch := (fetchPendingBatch now ids s.table).rowsOf ids } with
        clock := now
        table := fetchPendingBatch now ids s.table
        claims := ids ++ s.claims }
    else none
  | .handOff w =>
    match (s.worker w).batch, (s.worker w).publishing with
    | event :: batch, none =>
      some { s.setWorker w { batch := batch, publishing := some event } with
        handed := event.1 :: s.handed }
    | _, _ => none
  | .publishReturns now w =>
    match (s.worker w).publishing with
    | some event =>
      if s.clock ≤ now then
        some { s.setWorker w { s.worker w with publishing := none } with
          clock := now
          table := markPublished now event.1 s.table }
      else none
    | none => none
  | .publishRaises w =>
    match (s.worker w).publishing with
    | some event =>
      let movedToDlq : Bool := event.2.retryCount + 1 ≥ event.2.maxRetries
      some { s.setWorker w { s.worker w with publishing := none } with
        movedToDlq :=
          if config.enableMetrics ∧ movedToDlq then event.1 :: s.movedToDlq else s.movedToDlq
        failures := event.1 :: s.failures }
    | none => none
  | .crash w => some (s.setWorker w {})
  | .resetStale now =>
    if s.clock ≤ now then
      some { s with clock := now, table := (resetStaleProcessing config none now s.table).1 }
    else none

/-- `n` workers and the maintenance loop on a table that is empty at first. -/
def pollers (J : Type) (n : ℕ) (config : OutboxConfig) : System (Poller J n) (Act J n) where
  init s := s = { clock := s.clock, table := Table.empty }
  next := next config

theorem init_pollers (config : OutboxConfig) (clock : ℤ) :
    (pollers J n config).init { clock := clock, table := Table.empty } :=
  rfl

variable {config : OutboxConfig} {s s' : Poller J n} {a : Act J n} {id : String}
variable {ids : List String} {now : ℤ} {w : Fin n} {t : OutboxTable J}

theorem next_cases (h : next config s a = some s') :
    (∃ now created id m t, a = .save now created id m ∧ s.clock ≤ now ∧ created ≤ now ∧
      s.table.insert id (m.event config created) = some t ∧
      s' = { s with clock := now, table := t }) ∨
    (∃ now w ids, a = .fetch now w ids ∧ s.clock ≤ now ∧ (s.worker w).batch = [] ∧
      (s.worker w).publishing = none ∧ Fetches config (some config.batchSize) now s.table ids ∧
      s' = { s.setWorker w { batch := (fetchPendingBatch now ids s.table).rowsOf ids } with
        clock := now
        table := fetchPendingBatch now ids s.table
        claims := ids ++ s.claims }) ∨
    (∃ w event batch, a = .handOff w ∧ (s.worker w).batch = event :: batch ∧
      (s.worker w).publishing = none ∧
      s' = { s.setWorker w { batch := batch, publishing := some event } with
        handed := event.1 :: s.handed }) ∨
    (∃ now w event, a = .publishReturns now w ∧ s.clock ≤ now ∧
      (s.worker w).publishing = some event ∧
      s' = { s.setWorker w { s.worker w with publishing := none } with
        clock := now
        table := markPublished now event.1 s.table }) ∨
    (∃ w event movedToDlq, a = .publishRaises w ∧ (s.worker w).publishing = some event ∧
      s' = { s.setWorker w { s.worker w with publishing := none } with
        movedToDlq := movedToDlq
        failures := event.1 :: s.failures }) ∨
    (∃ w, a = .crash w ∧ s' = s.setWorker w {}) ∨
    (∃ now, a = .resetStale now ∧ s.clock ≤ now ∧
      s' = { s with clock := now, table := (resetStaleProcessing config none now s.table).1 }) := by
  cases a with
  | save now created id m =>
    simp only [next, Option.ite_none_right_eq_some, Option.map_eq_some_iff] at h
    obtain ⟨⟨h1, h2⟩, t, ht, rfl⟩ := h
    exact Or.inl ⟨now, created, id, m, t, rfl, h1, h2, ht, rfl⟩
  | fetch now w ids =>
    simp only [next, Option.ite_none_right_eq_some, Option.some.injEq] at h
    obtain ⟨⟨h1, h2, h3, h4⟩, rfl⟩ := h
    exact Or.inr (Or.inl ⟨now, w, ids, rfl, h1, h2, h3, h4, rfl⟩)
  | handOff w =>
    simp only [next] at h
    split at h
    · rename_i event batch hb hp
      exact Or.inr (Or.inr (Or.inl ⟨w, event, batch, rfl, hb, hp, (Option.some.inj h).symm⟩))
    · cases h
  | publishReturns now w =>
    simp only [next] at h
    split at h
    · rename_i event hp
      simp only [Option.ite_none_right_eq_some, Option.some.injEq] at h
      exact Or.inr (Or.inr (Or.inr (Or.inl ⟨now, w, event, rfl, h.1, hp, h.2.symm⟩)))
    · cases h
  | publishRaises w =>
    simp only [next] at h
    split at h
    · rename_i event hp
      exact Or.inr (Or.inr (Or.inr (Or.inr (Or.inl
        ⟨w, event, _, rfl, hp, (Option.some.inj h).symm⟩))))
    · cases h
  | crash w =>
    exact Or.inr (Or.inr (Or.inr (Or.inr (Or.inr (Or.inl ⟨w, rfl, (Option.some.inj h).symm⟩)))))
  | resetStale now =>
    simp only [next, Option.ite_none_right_eq_some, Option.some.injEq] at h
    exact Or.inr (Or.inr (Or.inr (Or.inr (Or.inr (Or.inr ⟨now, rfl, h.1, h.2.symm⟩)))))

/-- How often `id` waits in a worker's batch. -/
def waiting (id : String) (x : Worker J) : ℕ := (x.batch.map Prod.fst).count id

/-- The hand-offs of `id` that were made or that a batch still holds. -/
def handOffs (s : Poller J n) (id : String) : ℕ :=
  s.handed.count id + ∑ w, waiting id (s.worker w)

/-- The ids that the step claims. -/
def Act.claimed : Act J n → List String
  | .fetch _ _ ids => ids
  | _ => []

theorem waiting_setWorker (id : String) (s : Poller J n) (w : Fin n) (x : Worker J) :
    (∑ v, waiting id ((s.setWorker w x).worker v)) + waiting id (s.worker w) =
      (∑ v, waiting id (s.worker v)) + waiting id x :=
  sum_update s.worker w x (waiting id)

theorem claims_step (hstep : next config s a = some s') : s'.claims = a.claimed ++ s.claims := by
  rcases next_cases hstep with ⟨now, created, j, m, t, rfl, _, _, _, rfl⟩ |
      ⟨now, w, ids, rfl, _, _, _, _, rfl⟩ | ⟨w, event, batch, rfl, _, _, rfl⟩ |
      ⟨now, w, event, rfl, _, _, rfl⟩ | ⟨w, event, moved, rfl, _, rfl⟩ | ⟨w, rfl, rfl⟩ |
      ⟨now, rfl, _, rfl⟩ <;>
    rfl

/-- Only a claim brings new hand-offs. -/
theorem handOffs_step (hstep : next config s a = some s') (id : String) :
    handOffs s' id ≤ handOffs s id + a.claimed.count id := by
  unfold handOffs
  rcases next_cases hstep with ⟨now, created, j, m, t, rfl, _, _, _, rfl⟩ |
      ⟨now, w, ids, rfl, _, hb, _, _, rfl⟩ | ⟨w, event, batch, rfl, hb, _, rfl⟩ |
      ⟨now, w, event, rfl, _, _, rfl⟩ | ⟨w, event, moved, rfl, _, rfl⟩ | ⟨w, rfl, rfl⟩ |
      ⟨now, rfl, _, rfl⟩
  · exact Nat.le_add_right _ _
  · have hsum := waiting_setWorker id s w
      { batch := (fetchPendingBatch now ids s.table).rowsOf ids }
    have hnew : waiting id { batch := (fetchPendingBatch now ids s.table).rowsOf ids } ≤
        ids.count id :=
      (Table.rowsOf_keys_sublist _ ids).count_le id
    have hold : waiting id (s.worker w) = 0 := by simp [waiting, hb]
    show s.handed.count id + ∑ v, waiting id ((s.setWorker w _).worker v) ≤
      s.handed.count id + ∑ v, waiting id (s.worker v) + ids.count id
    omega
  · have hsum := waiting_setWorker id s w { batch := batch, publishing := some event }
    have hmove : waiting id (s.worker w) =
        waiting id { batch := batch, publishing := some event } +
          if event.1 == id then 1 else 0 := by
      simp only [waiting, hb, List.map_cons, List.count_cons]
    show (event.1 :: s.handed).count id + ∑ v, waiting id ((s.setWorker w _).worker v) ≤
      s.handed.count id + ∑ v, waiting id (s.worker v) + 0
    rw [List.count_cons]
    omega
  · have hsum := waiting_setWorker id s w { s.worker w with publishing := none }
    have hsame : waiting id { s.worker w with publishing := none } = waiting id (s.worker w) := rfl
    show s.handed.count id + ∑ v, waiting id ((s.setWorker w _).worker v) ≤
      s.handed.count id + ∑ v, waiting id (s.worker v) + 0
    omega
  · have hsum := waiting_setWorker id s w { s.worker w with publishing := none }
    have hsame : waiting id { s.worker w with publishing := none } = waiting id (s.worker w) := rfl
    show s.handed.count id + ∑ v, waiting id ((s.setWorker w _).worker v) ≤
      s.handed.count id + ∑ v, waiting id (s.worker v) + 0
    omega
  · have hsum := waiting_setWorker id s w {}
    have hzero : waiting id ({} : Worker J) = 0 := rfl
    show s.handed.count id + ∑ v, waiting id ((s.setWorker w {}).worker v) ≤
      s.handed.count id + ∑ v, waiting id (s.worker v) + 0
    omega
  · exact Nat.le_add_right _ _

@[simp] theorem handOffs_init (clock : ℤ) (id : String) :
    handOffs ({ clock := clock, table := Table.empty } : Poller J n) id = 0 := by
  simp [handOffs, waiting]

theorem handed_le_handOffs (s : Poller J n) (id : String) : s.handed.count id ≤ handOffs s id :=
  Nat.le_add_right _ _

/-- In every run, an event is handed over at most as often as it was claimed. -/
theorem handed_le_claims {ok : Condition (Poller J n) (Act J n)} {as : List (Act J n)}
    (h : Trace (pollers J n config) ok as s) (id : String) :
    s.handed.count id ≤ s.claims.count id := by
  have hi : handOffs s id ≤ s.claims.count id := by
    refine Trace.invariant (M := pollers J n config)
      (P := fun s => handOffs s id ≤ s.claims.count id) ?_ ?_ h
    · intro s hs
      have hinit : s = { clock := s.clock, table := Table.empty } := hs
      rw [hinit, handOffs_init]
      exact Nat.zero_le _
    · intro s a s' hi hstep
      have hle := handOffs_step hstep id
      rw [claims_step hstep, List.count_append]
      omega
  exact (handed_le_handOffs s id).trans hi

end Taas.OutboxPoller
