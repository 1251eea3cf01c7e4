import Taas.OutboxPoller

/-!
The retry bound of the outbox. A publish that raises leaves `retry_count` as it is, and a stale
reset puts the row back without counting either. So the hand-offs of a row are bounded by the resets
that put it back, and what the contract says of failures holds just as long as it says nothing:
nothing is counted, and no row becomes DEAD_LETTER.
-/
namespace Taas.OutboxRetries

open Sql Outbox Transition OutboxPoller

variable {J : Type} {n : ℕ}

def Bounded (s : Poller J n) (id : String) (e : OutboxEvent J) : Prop :=
  s.handed.count id ≤ e.maxRetries.toNat

def Counted (s : Poller J n) (id : String) (e : OutboxEvent J) : Prop :=
  e.retryCount = s.failures.count id

/-- After `max_retries` failures the row is dead and never claimed again. -/
def Exhausted (config : OutboxConfig) (as : List (Act J n)) (s : Poller J n) (id : String)
    (e : OutboxEvent J) : Prop :=
  1 ≤ s.failures.count id → e.maxRetries ≤ s.failures.count id → e.status = .deadLetter ∧
    ∀ bs x now w ids y, Path (pollers J n config) free as s bs x →
      next config x (.fetch now w ids) = some y → id ∉ ids

def MovedTruly (s : Poller J n) (id : String) (e : OutboxEvent J) : Prop :=
  id ∈ s.movedToDlq → e.status = .deadLetter

/-- The retry contract of the row `e` under `id`, in the state `s` that the labels `as` lead to. -/
structure RowContract (config : OutboxConfig) (as : List (Act J n)) (s : Poller J n) (id : String)
    (e : OutboxEvent J) : Prop where
  bounded : Bounded s id e
  counted : Counted s id e
  exhausted : Exhausted config as s id e
  moved : MovedTruly s id e

def RetryContract (config : OutboxConfig) (as : List (Act J n)) (s : Poller J n) : Prop :=
  ∀ id e, s.table.get? id = some e → RowContract config as s id e

/-- The rows that a step puts back to PENDING. -/
def putBack (config : OutboxConfig) (s : Poller J n) : Act J n → List String
  | .resetStale now => (s.table.rows.filter fun x => stale config none now x.2).map Prod.fst
  | _ => []

/-- The pollers, with a record of the rows that the stale resets have put back. -/
def recorded (J : Type) (n : ℕ) (config : OutboxConfig) :
    System (Poller J n × List String) (Act J n) :=
  (pollers J n config).recording (putBack config)

/-- What is known of a row. A row that waits has been put back once for each of its hand-offs, and
another row once less. -/
structure RowKnown (config : OutboxConfig) (s : Poller J n) (resets : List String) (id : String)
    (e : OutboxEvent J) : Prop where
  retryCount : e.retryCount = 0
  alive : e.status ≠ .deadLetter
  handOffs : OutboxPoller.handOffs s id ≤ resets.count id + 1
  waiting : e.status = .pending → OutboxPoller.handOffs s id ≤ resets.count id
  positive : 0 < OutboxPoller.handOffs s id → 0 < e.maxRetries
  moved : id ∈ s.movedToDlq ↔ config.enableMetrics ∧ id ∈ s.failures ∧ e.maxRetries ≤ 1

structure Known (config : OutboxConfig) (s : Poller J n) (resets : List String) : Prop where
  fresh : ∀ id, s.table.get? id = none →
    OutboxPoller.handOffs s id = 0 ∧ id ∉ s.failures ∧ id ∉ s.movedToDlq
  rows : ∀ id e, s.table.get? id = some e → RowKnown config s resets id e
  loaded : ∀ w, ∀ event ∈ (s.worker w).batch ++ (s.worker w).publishing.toList,
    ∃ e, s.table.get? event.1 = some e ∧ event.2.retryCount = 0 ∧
      event.2.maxRetries = e.maxRetries

variable {config : OutboxConfig} {s s' : Poller J n} {a : Act J n} {as : List (Act J n)}
variable {resets resets' : List String} {id : String} {e : OutboxEvent J} {now : ℤ} {w : Fin n}

theorem Known.ofMap (hi : Known config s resets) {f : String → OutboxEvent J → OutboxEvent J}
    (htable : ∀ j, s'.table.get? j = (s.table.get? j).map (f j))
    (hf : ∀ j e, s.table.get? j = some e →
      (f j e).retryCount = e.retryCount ∧ (f j e).maxRetries = e.maxRetries ∧
        (f j e).status ≠ .deadLetter ∧
        ((f j e).status = .pending → e.status = .pending ∨ resets.count j < resets'.count j))
    (hresets : ∀ j, resets.count j ≤ resets'.count j)
    (hle : ∀ j, OutboxPoller.handOffs s' j ≤ OutboxPoller.handOffs s j)
    (hfailures : s'.failures = s.failures) (hmoved : s'.movedToDlq = s.movedToDlq)
    (hloaded : ∀ w, ∀ event ∈ (s'.worker w).batch ++ (s'.worker w).publishing.toList,
      event ∈ (s.worker w).batch ++ (s.worker w).publishing.toList) : Known config s' resets' := by
  refine ⟨fun j hj => ?_, fun j e' hj => ?_, fun w event hevent => ?_⟩
  · rw [htable] at hj
    obtain ⟨hzero, hnot⟩ := hi.fresh j (Option.map_eq_none_iff.mp hj)
    have := hle j
    rw [hfailures, hmoved]
    exact ⟨by omega, hnot⟩
  · rw [htable] at hj
    obtain ⟨e, he, rfl⟩ := Option.map_eq_some_iff.mp hj
    obtain ⟨hcount, hcap, halive, hpending⟩ := hf j e he
    have hrow := hi.rows j e he
    have hj := hle j
    have hr := hresets j
    refine ⟨hcount.trans hrow.retryCount, halive, ?_, fun hs => ?_, fun hpos => ?_, ?_⟩
    · exact (hj.trans hrow.handOffs).trans (by omega)
    · rcases hpending hs with hs | hmore
      · exact (hj.trans (hrow.waiting hs)).trans hr
      · have := hrow.handOffs
        omega
    · rw [hcap]
      exact hrow.positive (by omega)
    · rw [hcap, hfailures, hmoved]
      exact hrow.moved
  · obtain ⟨e, he, hcount, hcap⟩ := hi.loaded w event (hloaded w event hevent)
    refine ⟨f event.1 e, by rw [htable, he, Option.map_some], hcount, ?_⟩
    rw [hcap, (hf event.1 e he).2.1]

theorem known_save {created : ℤ} {m : RawMessage J} {t : OutboxTable J} (hi : Known config s resets)
    (ht : s.table.insert id (m.event config created) = some t) :
    Known config { s with clock := now, table := t } resets := by
  obtain ⟨hnew, hget⟩ := Table.insert_eq_some ht
  obtain ⟨hzero, hfailures, hmoved⟩ := hi.fresh id hnew
  have hold : ∀ {j : String} {e : OutboxEvent J}, s.table.get? j = some e → t.get? j = some e := by
    intro j e he
    have hne : j ≠ id := by
      rintro rfl
      simp [hnew] at he
    rw [hget, if_neg hne, he]
  refine ⟨fun j hj => ?_, fun j e he => ?_, fun w event hevent => ?_⟩
  · change t.get? j = none at hj
    rw [hget j] at hj
    split at hj
    · cases hj
    · exact hi.fresh j hj
  · change t.get? j = some e at he
    rw [hget j] at he
    split at he
    · rename_i hj
      subst hj
      obtain rfl := Option.some.inj he
      refine ⟨rfl, by simp [RawMessage.event], ?_, fun _ => ?_, fun hpos => ?_, ?_⟩
      · show OutboxPoller.handOffs s j ≤ _
        omega
      · show OutboxPoller.handOffs s j ≤ _
        omega
      · change 0 < OutboxPoller.handOffs s j at hpos
        omega
      · exact iff_of_false hmoved fun hall => hfailures hall.2.1
    · obtain ⟨h1, h2, h3, h4, h5, h6⟩ := hi.rows j e he
      exact ⟨h1, h2, h3, h4, h5, h6⟩
  · obtain ⟨e, he, hevent⟩ := hi.loaded w event hevent
    exact ⟨e, hold he, hevent⟩

theorem known_fetch {ids : List String} (hi : Known config s resets)
    (hids : Fetches config (some config.batchSize) now s.table ids)
    (hstep : next config s (.fetch now w ids) = some s')
    (hs : s' = { s.setWorker w { batch := (fetchPendingBatch now ids s.table).rowsOf ids } with
      clock := now
      table := fetchPendingBatch now ids s.table
      claims := ids ++ s.claims }) : Known config s' resets := by
  have hle : ∀ j, OutboxPoller.handOffs s' j ≤ OutboxPoller.handOffs s j + ids.count j :=
    handOffs_step hstep
  have hget : ∀ j, s'.table.get? j = (s.table.get? j).map fun e =>
      if j ∈ ids then { e with status := .processing, updatedAt := now } else e := by
    rw [hs]
    exact get?_fetchPendingBatch now ids s.table
  have hfailures : s'.failures = s.failures := by rw [hs]; rfl
  have hmoved : s'.movedToDlq = s.movedToDlq := by rw [hs]; rfl
  refine ⟨fun j hj => ?_, fun j e' he' => ?_, fun v event hevent => ?_⟩
  · rw [hget, Option.map_eq_none_iff] at hj
    have hnot : j ∉ ids := by
      intro hmem
      obtain ⟨e, he, _⟩ := hids.row hmem
      simp [hj] at he
    obtain ⟨hzero, hrest⟩ := hi.fresh j hj
    have hj' := hle j
    have hnone : ids.count j = 0 := List.count_eq_zero_of_not_mem hnot
    rw [hfailures, hmoved]
    exact ⟨by omega, hrest⟩
  · rw [hget] at he'
    obtain ⟨e, he, rfl⟩ := Option.map_eq_some_iff.mp he'
    obtain ⟨hcount, halive, hoffs, hwaiting, hpositive, hrecorded⟩ := hi.rows j e he
    have hj := hle j
    by_cases hmem : j ∈ ids
    · obtain ⟨row, hrow, hs, hleft, _⟩ := hids.row hmem
      obtain rfl : e = row := by simpa [he] using hrow
      have hone : ids.count j = 1 := List.count_eq_one_of_mem hids.nodup hmem
      have hwait := hwaiting hs
      simp only [hmem, if_true]
      refine ⟨hcount, by simp, ?_, fun hs' => ?_, fun _ => ?_, ?_⟩
      · exact hj.trans (by omega)
      · cases hs'
      · show 0 < e.maxRetries
        omega
      · rw [hfailures, hmoved]
        exact hrecorded
    · have hnone : ids.count j = 0 := List.count_eq_zero_of_not_mem hmem
      simp only [hmem, if_false]
      refine ⟨hcount, halive, ?_, fun hs => ?_, fun hpos => hpositive (by omega), ?_⟩
      · exact hj.trans (by omega)
      · exact hj.trans (by have := hwaiting hs; omega)
      · rw [hfailures, hmoved]
        exact hrecorded
  · by_cases hv : v = w
    · subst hv
      have hmem : event ∈ (fetchPendingBatch now ids s.table).rowsOf ids := by
        simpa [hs] using hevent
      obtain ⟨_, hrow⟩ := Table.get?_of_mem_rowsOf hmem
      obtain ⟨e, he, heq⟩ := Option.map_eq_some_iff.mp
        ((get?_fetchPendingBatch now ids s.table event.1).symm.trans hrow)
      refine ⟨event.2, by rw [hs]; exact hrow, ?_, rfl⟩
      have hcount := (hi.rows event.1 e he).retryCount
      rw [← heq]
      split <;> exact hcount
    · have hmem : event ∈ (s.worker v).batch ++ (s.worker v).publishing.toList := by
        simpa [hs, Poller.setWorker, hv] using hevent
      obtain ⟨e, he, hcount, hcap⟩ := hi.loaded v event hmem
      refine ⟨_, by rw [hget, he, Option.map_some], hcount, ?_⟩
      split <;> exact hcap

theorem known_raise {event : String × OutboxEvent J} (hi : Known config s resets)
    (hpublishing : (s.worker w).publishing = some event)
    (hstep : next config s (.publishRaises w) = some s') : Known config s' resets := by
  have hle : ∀ j, OutboxPoller.handOffs s' j ≤ OutboxPoller.handOffs s j := handOffs_step hstep
  simp only [next, hpublishing, Option.some.injEq] at hstep
  have htable : s'.table = s.table := by rw [← hstep]; rfl
  have hfailures : s'.failures = event.1 :: s.failures := by rw [← hstep]
  have hmoved : s'.movedToDlq = if config.enableMetrics = true ∧
      decide (event.2.retryCount + 1 ≥ event.2.maxRetries) = true
      then event.1 :: s.movedToDlq else s.movedToDlq := by rw [← hstep]
  obtain ⟨row, hrow, hcount, hcap⟩ := hi.loaded w event (by simp [hpublishing])
  refine ⟨fun j hj => ?_, fun j e he => ?_, fun v old hold => ?_⟩
  · rw [htable] at hj
    obtain ⟨hzero, hnot, hnever⟩ := hi.fresh j hj
    have hne : j ≠ event.1 := by
      rintro rfl
      simp [hrow] at hj
    have hj' := hle j
    refine ⟨by omega, by simp [hfailures, hne, hnot], ?_⟩
    rw [hmoved]
    split <;> simp [hne, hnever]
  · rw [htable] at he
    obtain ⟨h1, h2, h3, h4, h5, h6⟩ := hi.rows j e he
    have hj := hle j
    refine ⟨h1, h2, hj.trans h3, fun hs => hj.trans (h4 hs), fun hpos => h5 (by omega), ?_⟩
    by_cases hne : j = event.1
    · subst hne
      obtain rfl : e = row := by simpa [he] using hrow
      rw [hmoved, hfailures]
      by_cases hall : config.enableMetrics = true ∧
          decide (event.2.retryCount + 1 ≥ event.2.maxRetries) = true
      · rw [if_pos hall]
        have hone : e.maxRetries ≤ 1 := by
          have := of_decide_eq_true hall.2
          omega
        simp [hall.1, hone]
      · rw [if_neg hall, h6]
        refine and_congr_right fun hmetrics => ?_
        have hmore : ¬ e.maxRetries ≤ 1 := fun hone =>
          hall ⟨hmetrics, decide_eq_true (by omega)⟩
        simp [hmore]
    · rw [hmoved, hfailures]
      have hsame : j ∈ event.1 :: s.failures ↔ j ∈ s.failures := by simp [hne]
      rw [hsame, ← h6]
      split <;> simp [hne]
  · refine (hi.loaded v old ?_).imp fun e he => ⟨by rw [htable]; exact he.1, he.2⟩
    by_cases hv : v = w
    · subst hv
      have hbatch : old ∈ (s.worker v).batch := by simpa [← hstep] using hold
      exact List.mem_append_left _ hbatch
    · simpa [← hstep, Poller.setWorker, hv] using hold

theorem count_putBack {e : OutboxEvent J} (he : s.table.get? id = some e)
    (hstale : stale config none now e = true) :
    0 < (putBack config s (.resetStale now)).count id := by
  refine List.count_pos_iff.mpr (List.mem_map.mpr ⟨(id, e), List.mem_filter.mpr ⟨?_, hstale⟩, rfl⟩)
  exact (s.table.mem_rows_iff id e).mpr he

theorem known_step {x y : Poller J n × List String} (hi : Known config x.1 x.2)
    (hstep : (recorded J n config).next x a = some y) : Known config y.1 y.2 := by
  obtain ⟨hnext, hrecord⟩ := recording_next hstep
  obtain ⟨s, resets⟩ := x
  obtain ⟨s', resets'⟩ := y
  dsimp only at hi hnext hrecord ⊢
  have hle := handOffs_step hnext
  have hkept (hnone : putBack config s a = []) : resets' = resets := by
    rw [hrecord, hnone, List.append_nil]
  have hsame : ∀ j e, s.table.get? j = some e → e.retryCount = e.retryCount ∧
      e.maxRetries = e.maxRetries ∧ e.status ≠ .deadLetter ∧
      (e.status = .pending → e.status = .pending ∨ resets.count j < resets.count j) :=
    fun j e he => ⟨rfl, rfl, (hi.rows j e he).alive, Or.inl⟩
  rcases next_cases hnext with ⟨now, created, j, m, t, rfl, _, _, ht, rfl⟩ |
      ⟨now, w, ids, rfl, _, _, _, hids, hs⟩ | ⟨w, event, batch, rfl, hbatch, _, rfl⟩ |
      ⟨now, w, event, rfl, _, _, rfl⟩ | ⟨w, event, moved, rfl, hpublishing, hs⟩ | ⟨w, rfl, rfl⟩ |
      ⟨now, rfl, _, rfl⟩
  · obtain rfl := hkept rfl
    exact known_save hi ht
  · obtain rfl := hkept rfl
    exact known_fetch hi hids hnext hs
  · obtain rfl := hkept rfl
    refine hi.ofMap (fun _ => Option.map_id'.symm) hsame (fun _ => le_rfl) hle rfl rfl
      fun v old hold => ?_
    by_cases hv : v = w
    · subst hv
      exact List.mem_append_left _ (by simpa [hbatch, or_comm] using hold)
    · simpa [Poller.setWorker, hv] using hold
  · obtain rfl := hkept rfl
    refine hi.ofMap (get?_markPublished now event.1 s.table) (fun j e he => ?_) (fun _ => le_rfl)
      hle rfl rfl fun v old hold => ?_
    · split
      · exact ⟨rfl, rfl, by simp, fun hs => by cases hs⟩
      · exact hsame j e he
    · by_cases hv : v = w
      · subst hv
        exact List.mem_append_left _ (by simpa using hold)
      · simpa [Poller.setWorker, hv] using hold
  · obtain rfl := hkept rfl
    exact known_raise hi hpublishing hnext
  · obtain rfl := hkept rfl
    refine hi.ofMap (fun _ => Option.map_id'.symm) hsame (fun _ => le_rfl) hle rfl rfl
      fun v old hold => ?_
    by_cases hv : v = w
    · subst hv
      simp at hold
    · simpa [Poller.setWorker, hv] using hold
  · refine hi.ofMap (get?_resetStaleProcessing config none now s.table) (fun j e he => ?_)
      (fun j => ?_) hle rfl rfl fun v old hold => hold
    · split
      · rename_i hstale
        have hpos := count_putBack he hstale
        refine ⟨rfl, rfl, by simp, fun _ => Or.inr ?_⟩
        rw [hrecord, List.count_append]
        omega
      · exact ⟨rfl, rfl, (hi.rows j e he).alive, Or.inl⟩
    · rw [hrecord, List.count_append]
      omega

theorem known_run {x : Poller J n × List String} (h : Trace (recorded J n config) free as x) :
    Known config x.1 x.2 := by
  refine h.invariant (P := fun x => Known config x.1 x.2) ?_ fun x a y => known_step
  rintro ⟨s, resets⟩ ⟨hs, rfl⟩
  have hinit : s = { clock := s.clock, table := Table.empty } := hs
  rw [hinit]
  refine ⟨fun id _ => ⟨handOffs_init s.clock id, by simp, by simp⟩, fun id e he => ?_,
    fun w event hevent => by simp at hevent⟩
  cases he

/-- In every run, whatever raises or crashes: a row that stale resets have put back fewer than
`max_retries` times was not handed over more often; its failures are counted only if it has none; it
never becomes dead, and so is recorded as moved to the DLQ truly only if it is not recorded. A row
that was not put back too often keeps the whole contract just if no publish of it has raised. -/
theorem retry_contract {x : Poller J n × List String} (h : Trace (recorded J n config) free as x)
    (hid : x.1.table.get? id = some e) :
    ((x.2.count id : ℤ) < e.maxRetries → Bounded x.1 id e) ∧
    (Counted x.1 id e ↔ id ∉ x.1.failures) ∧
    (Exhausted config as x.1 id e ↔
      id ∉ x.1.failures ∨ (x.1.failures.count id : ℤ) < e.maxRetries) ∧
    (MovedTruly x.1 id e ↔ id ∉ x.1.failures ∨ config.enableMetrics = false ∨ 1 < e.maxRetries) ∧
    ((x.2.count id : ℤ) < e.maxRetries → (RowContract config as x.1 id e ↔ id ∉ x.1.failures)) := by
  have hrow := (known_run h).rows id e hid
  have hbounded : (x.2.count id : ℤ) < e.maxRetries → Bounded x.1 id e := by
    intro hresets
    have hoffs := hrow.handOffs
    have hhanded := handed_le_handOffs x.1 id
    show x.1.handed.count id ≤ e.maxRetries.toNat
    omega
  have hcounted : Counted x.1 id e ↔ id ∉ x.1.failures := by
    rw [← List.count_eq_zero, Counted, hrow.retryCount]
    omega
  have hexhausted : Exhausted config as x.1 id e ↔
      id ∉ x.1.failures ∨ (x.1.failures.count id : ℤ) < e.maxRetries := by
    rw [← List.count_eq_zero]
    constructor
    · intro hdead
      by_contra hnot
      obtain ⟨hsome, hmax⟩ := not_or.mp hnot
      exact hrow.alive (hdead (Nat.one_le_iff_ne_zero.mpr hsome) (not_lt.mp hmax)).1
    · rintro (hzero | hless) hone hmax <;> omega
  have hmoved : MovedTruly x.1 id e ↔
      id ∉ x.1.failures ∨ config.enableMetrics = false ∨ 1 < e.maxRetries := by
    have hnever : MovedTruly x.1 id e ↔ id ∉ x.1.movedToDlq :=
      ⟨fun htruly hmem => hrow.alive (htruly hmem), fun hnot hmem => absurd hmem hnot⟩
    rw [hnever, hrow.moved]
    simp only [not_and_or, not_le, Bool.not_eq_true]
    tauto
  refine ⟨hbounded, hcounted, hexhausted, hmoved, fun hresets => ?_⟩
  refine ⟨fun hcontract => hcounted.mp hcontract.counted, fun hnone => ?_⟩
  exact ⟨hbounded hresets, hcounted.mpr hnone, hexhausted.mpr (Or.inl hnone),
    hmoved.mpr (Or.inl hnone)⟩

/-- A message that may be tried `maxRetries` times. -/
def message (maxRetries : ℤ) : RawMessage Unit where
  channel := "orders"
  payload := ()
  eventType := "OrderPlaced"
  headers := ()
  maxRetries := some maxRetries

/-- The row of the message, with a status and the time of its last update. -/
def row (maxRetries : ℤ) (status : OutboxStatus) (updatedAt : ℤ) : OutboxEvent Unit :=
  { (message maxRetries).event {} 0 with status := status, updatedAt := updatedAt }

theorem init_recorded (config : OutboxConfig) (clock : ℤ) :
    (recorded J n config).init ({ clock := clock, table := Table.empty }, []) :=
  ⟨init_pollers config clock, rfl⟩

/-- The first publish of the message raises; a stale reset puts the row back and the second publish
returns. The row was not handed over too often, but its failure is not counted. -/
theorem retry_contract_putBack :
    ∃ x e, Trace (recorded Unit 1 {}) free
        [.save 0 0 "a" (message 2), .fetch 1 0 ["a"], .handOff 0, .publishRaises 0,
          .resetStale 30000002, .fetch 30000003 0 ["a"], .handOff 0, .publishReturns 30000004 0] x ∧
      x.1.table.get? "a" = some e ∧ Bounded x.1 "a" e ∧ ¬ Counted x.1 "a" e := by
  have h : (replay (recorded Unit 1 {}) free []
      [.save 0 0 "a" (message 2), .fetch 1 0 ["a"], .handOff 0, .publishRaises 0,
        .resetStale 30000002, .fetch 30000003 0 ["a"], .handOff 0, .publishReturns 30000004 0]
      ({ clock := 0, table := Table.empty }, [])).map
      (fun x => (x.1.failures, x.2, (x.1.table.get? "a").map OutboxEvent.maxRetries)) =
      some (["a"], ["a"], some 2) := by decide +kernel
  obtain ⟨x, hrun, hx⟩ := Option.map_eq_some_iff.mp h
  simp only [Prod.mk.injEq] at hx
  obtain ⟨hfailures, hresets, hrow⟩ := hx
  obtain ⟨e, he, hmax⟩ := Option.map_eq_some_iff.mp hrow
  have ht := trace_of_replay (init_recorded {} 0) hrun
  have hcontract := retry_contract ht he
  refine ⟨x, e, ht, he, hcontract.1 ?_, fun hcounted => ?_⟩
  · rw [hresets, hmax]
    decide
  · exact hcontract.2.1.mp hcounted (by simp [hfailures])

/-- Two publishes of a message that may be tried once raise. It has been handed over twice, its row
is still PROCESSING without a retry counted, and it is recorded as moved to the DLQ. -/
theorem poison_event_cycles :
    ¬ ∀ (config : OutboxConfig) (as : List (Act Unit 1)) (s : Poller Unit 1),
      Trace (pollers Unit 1 config) free as s → RetryContract config as s := by
  intro hclaim
  have h : (replay (pollers Unit 1 {}) free []
      [.save 0 0 "a" (message 1), .fetch 1 0 ["a"], .handOff 0, .publishRaises 0,
        .resetStale 30000002, .fetch 30000003 0 ["a"], .handOff 0, .publishRaises 0]
      { clock := 0, table := Table.empty }).map
      (fun s => (s.handed, s.movedToDlq, s.table.get? "a")) =
      some (["a", "a"], ["a", "a"], some (row 1 .processing 30000003)) := by decide +kernel
  obtain ⟨s, hrun, hs⟩ := Option.map_eq_some_iff.mp h
  simp only [Prod.mk.injEq] at hs
  obtain ⟨hhanded, hmoved, hrow⟩ := hs
  have hcontract := hclaim {} _ s (trace_of_replay (init_pollers {} 0) hrun)
  have hbound : s.handed.count "a" ≤ 1 := (hcontract "a" _ hrow).bounded
  rw [hhanded] at hbound
  exact absurd hbound (by decide)

end Taas.OutboxRetries
