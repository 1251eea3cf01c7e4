import Taas.OutboxPoller

/-!
The lease on a claimed outbox row. It is stamped once, when the batch is claimed, and the
stale reset gives the row to the next claim after the processing timeout, whether its
worker has stopped or is only slow. As long as no row is reset that a worker still holds,
every row is claimed once and handed to the publisher once.
-/
namespace Taas.OutboxLease

open Sql Outbox Transition OutboxPoller

variable {J : Type} {n : ℕ}

/-- The worker has claimed `id` and not yet marked it as published. -/
def Holds (id : String) (x : Worker J) : Prop :=
  id ∈ x.batch.map Prod.fst ∨ ∃ event ∈ x.publishing, event.1 = id

instance (id : String) (x : Worker J) : Decidable (Holds id x) := by
  unfold Holds
  infer_instance

/-- Each row is handed over at most once, and no row that a worker holds is claimed. -/
def HandedOnce (config : OutboxConfig) (s : Poller J n) : Prop :=
  ∀ id, s.handed.count id ≤ 1 ∧ ∀ w, Holds id (s.worker w) →
    ∀ now v ids s', next config s (.fetch now v ids) = some s' → id ∉ ids

/-- No worker crashes and every publish succeeds. -/
def CrashFree : Condition (Poller J n) (Act J n) := fun _ _ a =>
  match a with
  | .publishRaises _ | .crash _ => False
  | _ => True

/-- In addition, no row that a worker holds is stale when the reset runs. -/
def LeaseKept (config : OutboxConfig) : Condition (Poller J n) (Act J n) := fun as s a =>
  CrashFree as s a ∧ match a with
  | .resetStale now => ∀ w, ∀ event ∈ (s.worker w).batch ++ (s.worker w).publishing.toList,
      ∀ e ∈ s.table.get? event.1, stale config none now e = false
  | _ => True

instance (as : List (Act J n)) (s : Poller J n) (a : Act J n) : Decidable (CrashFree as s a) :=
  match a with
  | .save _ _ _ _ | .fetch _ _ _ | .handOff _ | .publishReturns _ _ | .publishRaises _
  | .crash _ | .resetStale _ => by unfold CrashFree; infer_instance

instance (config : OutboxConfig) (as : List (Act J n)) (s : Poller J n) (a : Act J n) :
    Decidable (LeaseKept config as s a) :=
  match a with
  | .save _ _ _ _ | .fetch _ _ _ | .handOff _ | .publishReturns _ _ | .publishRaises _
  | .crash _ | .resetStale _ => by unfold LeaseKept; infer_instance

/-- A row is claimed once, and then held until it is published. -/
structure Leased (s : Poller J n) : Prop where
  processing : ∀ id e, s.table.get? id = some e → e.status = .processing →
    ∃ w, Holds id (s.worker w)
  pending : ∀ id e, s.table.get? id = some e → e.status = .pending → s.claims.count id = 0
  fresh : ∀ id, s.table.get? id = none → s.claims.count id = 0
  once : ∀ id, s.claims.count id ≤ 1
  held : ∀ w id, Holds id (s.worker w) → 1 ≤ s.claims.count id

variable {config : OutboxConfig} {s s' : Poller J n} {a : Act J n} {as : List (Act J n)}
variable {t : OutboxTable J} {now : ℤ} {id : String} {ids : List String} {w : Fin n}

theorem not_holds_idle {x : Worker J} (hb : x.batch = []) (hp : x.publishing = none) :
    ¬ Holds id x := by
  simp [Holds, hb, hp]

theorem holds_iff_mem {x : Worker J} :
    Holds id x ↔ ∃ event ∈ x.batch ++ x.publishing.toList, event.1 = id := by
  simp only [Holds, List.mem_map, List.mem_append, Option.mem_toList]
  constructor
  · rintro (⟨event, hb, rfl⟩ | ⟨event, hp, rfl⟩)
    · exact ⟨event, Or.inl hb, rfl⟩
    · exact ⟨event, Or.inr hp, rfl⟩
  · rintro ⟨event, hb | hp, rfl⟩
    · exact Or.inl ⟨event, hb, rfl⟩
    · exact Or.inr ⟨event, hp, rfl⟩

theorem holds_setWorker (x : Worker J) (v : Fin n) :
    Holds id ((s.setWorker w x).worker v) ↔
      if v = w then Holds id x else Holds id (s.worker v) := by
  by_cases hvw : v = w
  · subst hvw
    rw [setWorker_self, if_pos rfl]
  · rw [setWorker_of_ne hvw, if_neg hvw]

theorem holds_batch {batch : List (String × OutboxEvent J)} :
    Holds id { batch := batch } ↔ id ∈ batch.map Prod.fst := by
  simp [Holds]

theorem leased_save {created : ℤ} {m : RawMessage J} (hi : Leased s)
    (ht : s.table.insert id (m.event config created) = some t) :
    Leased { s with clock := now, table := t } := by
  obtain ⟨hnew, hget⟩ := Table.insert_eq_some ht
  refine ⟨fun j e he hs => ?_, fun j e he hs => ?_, fun j hj => ?_, hi.once, hi.held⟩
  · change t.get? j = some e at he
    rw [hget j] at he
    split at he
    · obtain rfl := Option.some.inj he
      cases hs
    · exact hi.processing j e he hs
  · change t.get? j = some e at he
    rw [hget j] at he
    split at he
    · rename_i hj
      subst hj
      exact hi.fresh _ hnew
    · exact hi.pending j e he hs
  · change t.get? j = none at hj
    rw [hget j] at hj
    split at hj
    · cases hj
    · exact hi.fresh j hj

theorem leased_fetch (hi : Leased s) (hb : (s.worker w).batch = [])
    (hp : (s.worker w).publishing = none)
    (hids : Fetches config (some config.batchSize) now s.table ids) :
    Leased { s.setWorker w { batch := (fetchPendingBatch now ids s.table).rowsOf ids } with
      clock := now
      table := fetchPendingBatch now ids s.table
      claims := ids ++ s.claims } := by
  have hcount : ∀ j, (ids ++ s.claims).count j =
      (if j ∈ ids then 1 else 0) + s.claims.count j := by
    intro j
    rw [List.count_append]
    split
    · rename_i hj
      rw [List.count_eq_one_of_mem hids.nodup hj]
    · rename_i hj
      rw [List.count_eq_zero_of_not_mem hj]
  refine ⟨fun j e' he' hs => ?_, fun j e' he' hs => ?_, fun j hj => ?_, fun j => ?_,
    fun v j hv => ?_⟩
  · change (fetchPendingBatch now ids s.table).get? j = some e' at he'
    by_cases hj : j ∈ ids
    · refine ⟨w, (holds_setWorker _ w).mpr ?_⟩
      rw [if_pos rfl, holds_batch]
      exact Table.mem_rowsOf hj he'
    · rw [get?_fetchPendingBatch] at he'
      obtain ⟨e, he, rfl⟩ := Option.map_eq_some_iff.mp he'
      simp only [hj, if_false] at hs
      obtain ⟨v, hv⟩ := hi.processing j e he hs
      have hvw : v ≠ w := by
        rintro rfl
        exact not_holds_idle hb hp hv
      refine ⟨v, (holds_setWorker _ v).mpr ?_⟩
      rwa [if_neg hvw]
  · change (fetchPendingBatch now ids s.table).get? j = some e' at he'
    rw [get?_fetchPendingBatch] at he'
    obtain ⟨e, he, rfl⟩ := Option.map_eq_some_iff.mp he'
    by_cases hj : j ∈ ids
    · simp [hj] at hs
    · simp only [hj, if_false] at hs
      show (ids ++ s.claims).count j = 0
      simp [hcount, hj, hi.pending j e he hs]
  · change (fetchPendingBatch now ids s.table).get? j = none at hj
    rw [get?_fetchPendingBatch, Option.map_eq_none_iff] at hj
    have hnot : j ∉ ids := by
      intro hjm
      obtain ⟨e, he, _⟩ := hids.row hjm
      simp [hj] at he
    show (ids ++ s.claims).count j = 0
    simp [hcount, hnot, hi.fresh j hj]
  · show (ids ++ s.claims).count j ≤ 1
    rw [hcount]
    split
    · rename_i hj
      -- a selected row is PENDING, so it was never claimed before
      obtain ⟨e, he, hs, _⟩ := hids.row hj
      rw [hi.pending j e he hs]
    · rw [Nat.zero_add]
      exact hi.once j
  · show 1 ≤ (ids ++ s.claims).count j
    rw [hcount]
    have hv := (holds_setWorker _ v).mp hv
    split at hv
    · have hmem := (Table.rowsOf_keys_sublist _ ids).subset (holds_batch.mp hv)
      simp [hmem]
    · have hle := hi.held v j hv
      omega

theorem leased_handOff {event : String × OutboxEvent J} {batch : List (String × OutboxEvent J)}
    (hi : Leased s) (hb : (s.worker w).batch = event :: batch)
    (hp : (s.worker w).publishing = none) :
    Leased { s.setWorker w { batch := batch, publishing := some event } with
      handed := event.1 :: s.handed } := by
  have hholds : ∀ v j,
      Holds j ((s.setWorker w { batch := batch, publishing := some event }).worker v) ↔
        Holds j (s.worker v) := by
    intro v j
    rw [holds_setWorker]
    split
    · rename_i hvw
      simp only [hvw, Holds, hb, hp, List.map_cons, List.mem_cons]
      simp [or_comm, eq_comm]
    · rfl
  refine ⟨fun j e he hs => ?_, hi.pending, hi.fresh, hi.once, fun v j hv => ?_⟩
  · obtain ⟨v, hv⟩ := hi.processing j e he hs
    exact ⟨v, (hholds v j).mpr hv⟩
  · exact hi.held v j ((hholds v j).mp hv)

theorem leased_publishReturns {event : String × OutboxEvent J} (hi : Leased s)
    (hp : (s.worker w).publishing = some event) :
    Leased { s.setWorker w { s.worker w with publishing := none } with
      clock := now
      table := markPublished now event.1 s.table } := by
  refine ⟨fun j e' he' hs => ?_, fun j e' he' hs => ?_, fun j hj => ?_, hi.once, fun v j hv => ?_⟩
  · change (markPublished now event.1 s.table).get? j = some e' at he'
    rw [get?_markPublished] at he'
    obtain ⟨e, he, rfl⟩ := Option.map_eq_some_iff.mp he'
    by_cases hj : j = event.1
    · simp [hj] at hs
    · simp only [hj, if_false] at hs
      obtain ⟨v, hv⟩ := hi.processing j e he hs
      refine ⟨v, (holds_setWorker _ v).mpr ?_⟩
      split
      · rename_i hvw
        subst hvw
        rcases hv with hmem | ⟨event', hmem, hevent⟩
        · exact Or.inl hmem
        · obtain rfl : event = event' := by simpa [hp] using hmem
          exact absurd hevent.symm hj
      · exact hv
  · change (markPublished now event.1 s.table).get? j = some e' at he'
    rw [get?_markPublished] at he'
    obtain ⟨e, he, rfl⟩ := Option.map_eq_some_iff.mp he'
    by_cases hj : j = event.1
    · simp [hj] at hs
    · simp only [hj, if_false] at hs
      exact hi.pending j e he hs
  · change (markPublished now event.1 s.table).get? j = none at hj
    rw [get?_markPublished, Option.map_eq_none_iff] at hj
    exact hi.fresh j hj
  · have hv := (holds_setWorker _ v).mp hv
    split at hv
    · rename_i hvw
      subst hvw
      rcases hv with hmem | ⟨event', hmem, _⟩
      · exact hi.held v j (Or.inl hmem)
      · cases hmem
    · exact hi.held v j hv

/-- A reset that spares the rows in hand changes no row. -/
theorem leased_reset (hi : Leased s)
    (hok : ∀ w, ∀ event ∈ (s.worker w).batch ++ (s.worker w).publishing.toList,
      ∀ e ∈ s.table.get? event.1, stale config none now e = false) :
    Leased { s with clock := now, table := (resetStaleProcessing config none now s.table).1 } := by
  have hsame : ∀ j, (resetStaleProcessing config none now s.table).1.get? j = s.table.get? j := by
    intro j
    rw [get?_resetStaleProcessing]
    cases he : s.table.get? j with
    | none => rfl
    | some e =>
      by_cases hstale : stale config none now e = true
      · have hs : e.status = .processing := by
          simp only [stale, decide_eq_true_eq] at hstale
          exact hstale.1
        obtain ⟨w, hw⟩ := hi.processing j e he hs
        obtain ⟨event, hmem, rfl⟩ := holds_iff_mem.mp hw
        have := hok w event hmem e he
        simp [this] at hstale
      · simp [hstale]
  refine ⟨fun j e he hs => ?_, fun j e he hs => ?_, fun j hj => ?_, hi.once, hi.held⟩
  · exact hi.processing j e ((hsame j).symm.trans he) hs
  · exact hi.pending j e ((hsame j).symm.trans he) hs
  · exact hi.fresh j ((hsame j).symm.trans hj)

theorem leased_step (hi : Leased s) (hok : LeaseKept config as s a)
    (hstep : next config s a = some s') : Leased s' := by
  obtain ⟨hcrash, hlease⟩ := hok
  rcases next_cases hstep with ⟨now, created, j, m, t, rfl, _, _, ht, rfl⟩ |
      ⟨now, w, ids, rfl, _, hb, hp, hids, rfl⟩ | ⟨w, event, batch, rfl, hb, hp, rfl⟩ |
      ⟨now, w, event, rfl, _, hp, rfl⟩ | ⟨w, event, moved, rfl, _, rfl⟩ | ⟨w, rfl, rfl⟩ |
      ⟨now, rfl, _, rfl⟩
  · exact leased_save hi ht
  · exact leased_fetch hi hb hp hids
  · exact leased_handOff hi hb hp
  · exact leased_publishReturns hi hp
  · exact absurd hcrash id
  · exact absurd hcrash id
  · exact leased_reset hi hlease

/-- While no row is reset that a worker holds, each row is handed over at most once and no
row is claimed again before it is marked as published. -/
theorem handed_once (h : Trace (pollers J n config) (LeaseKept config) as s) :
    HandedOnce config s := by
  have hi : Leased s := by
    refine Trace.induct (M := pollers J n config) (I := fun _ s => Leased s) ?_ ?_ as s h
    · intro s hs
      have hinit : s = { clock := s.clock, table := Table.empty } := hs
      rw [hinit]
      refine ⟨fun id e he => ?_, fun id e he => ?_, fun _ _ => rfl, fun _ => by simp,
        fun w id hw => ?_⟩
      · simp [Table.get?_empty] at he
      · simp [Table.get?_empty] at he
      · exact absurd hw (not_holds_idle rfl rfl)
    · intro _ s a s' _ hi hok hstep
      exact leased_step hi hok hstep
  intro id
  refine ⟨(handed_le_claims h id).trans (hi.once id), fun w hw now v ids s' hstep hid => ?_⟩
  rcases next_cases hstep with ⟨_, _, _, _, _, hact, _⟩ | ⟨now', v', ids', hact, _, _, _, hids, _⟩ |
      ⟨_, _, _, hact, _⟩ | ⟨_, _, _, hact, _⟩ | ⟨_, _, _, hact, _⟩ | ⟨_, hact, _⟩ | ⟨_, hact, _⟩
  case inr.inl =>
    obtain ⟨rfl, rfl, rfl⟩ : now = now' ∧ v = v' ∧ ids = ids' := by simpa using hact
    obtain ⟨e, he, hs, _⟩ := hids.row hid
    have := hi.held w id hw
    have := hi.pending id e he hs
    omega
  all_goals simp at hact

def message : RawMessage Unit where
  channel := "orders"
  payload := ()
  eventType := "OrderPlaced"
  headers := ()

/-- Two workers each publish one of two rows while the reset runs. -/
def sharedRun : List (Act Unit 2) :=
  [.save 0 0 "a" message, .save 0 0 "b" message, .fetch 1 0 ["a"], .fetch 1 1 ["b"],
    .handOff 0, .handOff 1, .resetStale 2, .publishReturns 3 0]

theorem handed_once_shared :
    ∃ s, Trace (pollers Unit 2 { batchSize := 1 }) (LeaseKept { batchSize := 1 }) sharedRun s ∧
      s.handed = ["b", "a"] ∧ HandedOnce { batchSize := 1 } s := by
  have h : (replay (pollers Unit 2 { batchSize := 1 }) (LeaseKept { batchSize := 1 }) []
      sharedRun { clock := 0, table := Table.empty }).map Poller.handed = some ["b", "a"] := by
    decide
  obtain ⟨s, hrun, hhanded⟩ := Option.map_eq_some_iff.mp h
  have ht := trace_of_replay (init_pollers _ 0) hrun
  exact ⟨s, ht, hhanded, handed_once ht⟩

/-- Worker 0 has handed its row over and its publish takes more than the processing
timeout; after the reset worker 1 claims the row and hands it over again. -/
theorem slow_publish_is_repeated :
    ¬ ∀ (config : OutboxConfig) (as : List (Act Unit 2)) (s : Poller Unit 2),
      Trace (pollers Unit 2 config) CrashFree as s → HandedOnce config s := by
  intro hclaim
  have h : (replay (pollers Unit 2 {}) CrashFree []
      [.save 0 0 "a" message, .fetch 1 0 ["a"], .handOff 0, .resetStale 30000002,
        .fetch 30000003 1 ["a"], .handOff 1]
      { clock := 0, table := Table.empty }).map Poller.handed = some ["a", "a"] := by
    decide +kernel
  obtain ⟨s, hrun, hhanded⟩ := Option.map_eq_some_iff.mp h
  have honce := (hclaim {} _ s (trace_of_replay (init_pollers _ 0) hrun) "a").1
  rw [hhanded] at honce
  exact absurd honce (by decide)

end Taas.OutboxLease
