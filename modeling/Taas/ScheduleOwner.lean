import Taas.SchedulePoller

/-!
Who owns a claimed job. A claim stamps the whole batch once, and the jobs are dispatched
one after the other, so a slow dispatch lets the stale reset hand a job to the next
claim while its worker still holds it. As long as no job is reset that a worker holds,
each job has one owner and the owner's copy of it stays true to the row.
-/
namespace Taas.ScheduleOwner

open Python Sql Schedule Transition SchedulePoller

variable {J : Type} {n : ℕ}

/-- The jobs that a worker has claimed and not marked yet. -/
def held (x : Worker J) : List (String × ScheduledJob J) := x.batch ++ x.firing.toList

/-- The row is still the job that was loaded, up to its status and the time of the claim. -/
def Agrees (row job : ScheduledJob J) : Prop :=
  { row with status := job.status, claimedAt := job.claimedAt } = job

/-- No job is reset that a worker holds. -/
def SparesHeld (config : ScheduleConfig) : Condition (Scheduler J n) (Act J n) := fun _ s a =>
  match a with
  | .resetStale now => ∀ w, ∀ job ∈ held (s.worker w), ∀ row ∈ s.table.get? job.1,
      staleRunning config none now row = false
  | _ => True

instance (config : ScheduleConfig) (as : List (Act J n)) (s : Scheduler J n) (a : Act J n) :
    Decidable (SparesHeld config as s a) :=
  match a with
  | .create _ _ | .fetch _ _ _ | .dispatch _ | .dispatchReturns _ _ | .dispatchRaises _ _ _
  | .abandon _ | .cancel _ | .resetStale _ => by unfold SparesHeld; infer_instance

/-- Every job has at most one owner, whose copy agrees with the row. -/
structure Owned (s : Scheduler J n) : Prop where
  single : ∀ v w, ∀ i ∈ held (s.worker v), ∀ j ∈ held (s.worker w), i.1 = j.1 → v = w
  nodup : ∀ w, ((held (s.worker w)).map Prod.fst).Nodup
  claimed : ∀ w, ∀ job ∈ held (s.worker w), ∃ row, s.table.get? job.1 = some row ∧
    (row.status = .running ∨ row.status = .cancelled) ∧ Agrees row job.2

variable {cronNext : String → ℤ → Except String ℤ} {config : ScheduleConfig}
variable {s s' : Scheduler J n} {a : Act J n} {as : List (Act J n)} {w v : Fin n}
variable {x : Worker J} {job : String × ScheduledJob J} {row : ScheduledJob J}

@[simp] theorem setWorker_self : (s.setWorker w x).worker w = x := by
  simp [Scheduler.setWorker]

theorem setWorker_of_ne (h : v ≠ w) : (s.setWorker w x).worker v = s.worker v := by
  simp [Scheduler.setWorker, h]

theorem held_setWorker (x : Worker J) (v : Fin n) :
    held ((s.setWorker w x).worker v) = if v = w then held x else held (s.worker v) := by
  by_cases hvw : v = w
  · subst hvw
    rw [setWorker_self, if_pos rfl]
  · rw [setWorker_of_ne hvw, if_neg hvw]

theorem held_batch (batch : List (String × ScheduledJob J)) : held { batch := batch } = batch :=
  List.append_nil batch

/-- A dispatch takes a job from the batch, and the worker still holds it. -/
theorem held_dispatch {batch : List (String × ScheduledJob J)}
    (hb : (s.worker w).batch = job :: batch) (hf : (s.worker w).firing = none) (v : Fin n) :
    (held ((s.setWorker w { batch := batch, firing := some job }).worker v)).Perm
      (held (s.worker v)) := by
  by_cases hvw : v = w
  · subst hvw
    have hbefore : held (s.worker v) = job :: batch := by simp [held, hb, hf]
    rw [setWorker_self, hbefore]
    exact List.perm_append_singleton job batch
  · rw [setWorker_of_ne hvw]

theorem held_idle {x : Worker J} (hb : x.batch = []) (hf : x.firing = none) : held x = [] := by
  simp [held, hb, hf]

theorem mem_held_of_firing {x : Worker J} (h : x.firing = some job) : job ∈ held x := by
  simp [held, h]

theorem mem_held_of_batch {x : Worker J} (h : job ∈ x.batch) : job ∈ held x :=
  List.mem_append_left _ h

theorem mem_held_of_setWorker (hx : ∀ i ∈ held x, i ∈ held (s.worker w))
    (hjob : job ∈ held ((s.setWorker w x).worker v)) : job ∈ held (s.worker v) := by
  rw [held_setWorker] at hjob
  split at hjob
  · rename_i hvw
    exact hvw ▸ hx job hjob
  · exact hjob

/-- A worker holds what it held before, or rows that it has just claimed. -/
theorem held_cases (hstep : next cronNext config s a = some s') (hjob : job ∈ held (s'.worker v)) :
    job ∈ held (s.worker v) ∨
      ∃ now ids row, a = .fetch now v ids ∧ s.table.get? job.1 = some row ∧
        row.status = .scheduled ∧ row.nextRunAt ≤ now ∧
        job.2 = { row with status := .running, claimedAt := some now } := by
  have hrelease : ∀ w, ∀ i ∈ held { s.worker w with firing := none }, i ∈ held (s.worker w) := by
    intro w i hi
    exact mem_held_of_batch (by simpa [held] using hi)
  have hdrop : ∀ w, ∀ i ∈ held ({} : Worker J), i ∈ held (s.worker w) := by
    intro w i hi
    simp [held] at hi
  rcases next_cases hstep with ⟨_, _, _, rfl, _, rfl⟩ | ⟨now, w, ids, rfl, _, _, _, hids, rfl⟩ |
      ⟨w, i, batch, rfl, hb, hf, rfl⟩ | ⟨_, w, _, _, rfl, _, _, _, rfl⟩ |
      ⟨_, w, _, _, rfl, _, _, _, rfl⟩ | ⟨_, w, _, _, rfl, _, _, rfl⟩ | ⟨w, rfl, rfl⟩ |
      ⟨_, rfl, rfl⟩ | ⟨_, rfl, _, rfl⟩
  · exact Or.inl hjob
  · by_cases hvw : v = w
    · subst hvw
      change job ∈ held ((s.setWorker v _).worker v) at hjob
      rw [setWorker_self] at hjob
      obtain ⟨hmem, hget⟩ := Table.get?_of_mem_rowsOf (show job ∈ _ by simpa [held] using hjob)
      obtain ⟨row, hrow, hs, hdue⟩ := hids.row hmem
      rw [get?_fetchDueBatch, hrow, Option.map_some, if_pos hmem, Option.some.injEq] at hget
      exact Or.inr ⟨now, ids, row, rfl, hrow, hs, hdue, hget.symm⟩
    · change job ∈ held ((s.setWorker w _).worker v) at hjob
      rw [setWorker_of_ne hvw] at hjob
      exact Or.inl hjob
  · exact Or.inl ((held_dispatch hb hf v).mem_iff.mp hjob)
  · exact Or.inl (mem_held_of_setWorker (hrelease w) hjob)
  · exact Or.inl (mem_held_of_setWorker (hdrop w) hjob)
  · exact Or.inl (mem_held_of_setWorker (hrelease w) hjob)
  · exact Or.inl (mem_held_of_setWorker (hdrop w) hjob)
  · exact Or.inl hjob
  · exact Or.inl hjob

namespace Agrees

variable {loaded : ScheduledJob J}

theorem refl (job : ScheduledJob J) : Agrees job job := rfl

theorem runCount (h : Agrees row loaded) : loaded.runCount = row.runCount := by rw [← h]

theorem maxRuns (h : Agrees row loaded) : loaded.maxRuns = row.maxRuns := by rw [← h]

theorem attempts (h : Agrees row loaded) : loaded.attempts = row.attempts := by rw [← h]

theorem maxRetries (h : Agrees row loaded) : loaded.maxRetries = row.maxRetries := by rw [← h]

theorem nextRunAt (h : Agrees row loaded) : loaded.nextRunAt = row.nextRunAt := by rw [← h]

theorem kind (h : Agrees row loaded) : loaded.kind = row.kind := by rw [← h]

theorem intervalSeconds (h : Agrees row loaded) :
    loaded.intervalSeconds = row.intervalSeconds := by rw [← h]

theorem cronExpr (h : Agrees row loaded) : loaded.cronExpr = row.cronExpr := by rw [← h]

end Agrees

/-- A step after which the workers hold nothing new and that keeps the rows they hold. -/
theorem Owned.mono (hi : Owned s) (hmem : ∀ w, ∀ job ∈ held (s'.worker w), job ∈ held (s.worker w))
    (hnodup : ∀ w, ((held (s'.worker w)).map Prod.fst).Nodup)
    (hrow : ∀ w, ∀ job ∈ held (s'.worker w), ∀ row, s.table.get? job.1 = some row →
      row.status = .running ∨ row.status = .cancelled → Agrees row job.2 →
      ∃ row', s'.table.get? job.1 = some row' ∧
        (row'.status = .running ∨ row'.status = .cancelled) ∧ Agrees row' job.2) :
    Owned s' where
  single v w i hiv j hjw hij := hi.single v w i (hmem v i hiv) j (hmem w j hjw) hij
  nodup := hnodup
  claimed w job hjob := by
    obtain ⟨row, hget, hstatus, hagrees⟩ := hi.claimed w job (hmem w job hjob)
    exact hrow w job hjob row hget hstatus hagrees

theorem not_held_after_release {i : String × ScheduledJob J} (ho : Owned s)
    (hf : (s.worker w).firing = some job)
    (hheld : i ∈ held ((s.setWorker w { s.worker w with firing := none }).worker v)) :
    i ∈ held (s.worker v) ∧ i.1 ≠ job.1 := by
  by_cases hvw : v = w
  · subst hvw
    rw [setWorker_self] at hheld
    have hmem : i ∈ (s.worker v).batch := by simpa [held] using hheld
    have hnodup := ho.nodup v
    have hbatch : held (s.worker v) = (s.worker v).batch ++ [job] := by simp [held, hf]
    rw [hbatch, List.map_append, List.nodup_append] at hnodup
    exact ⟨mem_held_of_batch hmem, hnodup.2.2 _ (List.mem_map_of_mem hmem) _ (by simp)⟩
  · rw [setWorker_of_ne hvw] at hheld
    refine ⟨hheld, fun heq => hvw ?_⟩
    exact ho.single v w i hheld job (mem_held_of_firing hf) heq

theorem owned_release {t : JobTable J} {f : ScheduledJob J → ScheduledJob J} {clock : ℤ}
    (hi : Owned s) (hf : (s.worker w).firing = some job)
    (hget : ∀ j, t.get? j = (s.table.get? j).map fun row => if j = job.1 then f row else row) :
    Owned { s.setWorker w { s.worker w with firing := none } with clock := clock, table := t } := by
  refine hi.mono (fun v j hj => (not_held_after_release hi hf hj).1) (fun v => ?_)
    fun v j hj row hrow hstatus hag => ?_
  · show ((held ((s.setWorker w _).worker v)).map Prod.fst).Nodup
    rw [held_setWorker]
    split
    · have hnodup := hi.nodup w
      have hbatch : held (s.worker w) = (s.worker w).batch ++ [job] := by simp [held, hf]
      rw [hbatch, List.map_append, List.nodup_append] at hnodup
      exact (held_batch (s.worker w).batch).symm ▸ hnodup.1
    · exact hi.nodup v
  · refine ⟨row, ?_, hstatus, hag⟩
    show t.get? j.1 = some row
    rw [hget, hrow, Option.map_some, if_neg (not_held_after_release hi hf hj).2]

theorem owned_drop (clock : ℤ) (hi : Owned s) :
    Owned { s.setWorker w {} with clock := clock } := by
  refine hi.mono (fun v j hj => mem_held_of_setWorker (fun i hmem => ?_) hj) (fun v => ?_)
    fun v j hj row hrow hstatus hag => ⟨row, hrow, hstatus, hag⟩
  · simp [held] at hmem
  · show ((held ((s.setWorker w {}).worker v)).map Prod.fst).Nodup
    rw [held_setWorker]
    split
    · simp [held]
    · exact hi.nodup v

theorem owned_table {t : JobTable J} {clock : ℤ} (hi : Owned s)
    (hrow : ∀ w, ∀ job ∈ held (s.worker w), ∀ row, s.table.get? job.1 = some row →
      row.status = .running ∨ row.status = .cancelled →
      ∃ row', t.get? job.1 = some row' ∧ (row'.status = .running ∨ row'.status = .cancelled) ∧
        (Agrees row job.2 → Agrees row' job.2)) :
    Owned { s with clock := clock, table := t } := by
  refine hi.mono (fun _ _ hj => hj) hi.nodup fun v j hj row hget hstatus hag => ?_
  obtain ⟨row', hget', hstatus', hag'⟩ := hrow v j hj row hget hstatus
  exact ⟨row', hget', hstatus', hag' hag⟩

theorem owned_fetch {now : ℤ} {ids : List String} (hi : Owned s)
    (hids : FetchesDue config (some config.batchSize) now s.table ids) :
    Owned { s.setWorker w { batch := (fetchDueBatch now ids s.table).rowsOf ids } with
      clock := now
      table := fetchDueBatch now ids s.table } := by
  let batch := (fetchDueBatch now ids s.table).rowsOf ids
  have hheld : ∀ v, held ((s.setWorker w { batch := batch }).worker v) =
      if v = w then batch else held (s.worker v) := by
    intro v
    rw [held_setWorker, held_batch]
  -- what another worker holds is not SCHEDULED, so it is not selected
  have hnot : ∀ v, ∀ j ∈ held (s.worker v), j.1 ∉ ids := by
    intro v j hj hmem
    obtain ⟨row, hrow, hstatus, -⟩ := hi.claimed v j hj
    obtain ⟨row', hrow', hs, -⟩ := hids.row hmem
    obtain rfl : row = row' := by simpa [hrow] using hrow'
    rcases hstatus with h | h <;> simp [h] at hs
  have hsel : ∀ j ∈ batch, j.1 ∈ ids := fun j hj => (Table.get?_of_mem_rowsOf hj).1
  constructor
  · intro u v i hiu j hjv hij
    change i ∈ held ((s.setWorker w { batch := batch }).worker u) at hiu
    change j ∈ held ((s.setWorker w { batch := batch }).worker v) at hjv
    rw [hheld] at hiu hjv
    by_cases hu : u = w <;> by_cases hv : v = w
    · rw [hu, hv]
    · rw [if_pos hu] at hiu
      rw [if_neg hv] at hjv
      exact absurd (hij ▸ hsel i hiu) (hnot v j hjv)
    · rw [if_neg hu] at hiu
      rw [if_pos hv] at hjv
      exact absurd (hij ▸ hsel j hjv) (hnot u i hiu)
    · rw [if_neg hu] at hiu
      rw [if_neg hv] at hjv
      exact hi.single u v i hiu j hjv hij
  · intro v
    show ((held ((s.setWorker w { batch := batch }).worker v)).map Prod.fst).Nodup
    rw [hheld]
    split
    · exact hids.nodup.sublist (Table.rowsOf_keys_sublist _ ids)
    · exact hi.nodup v
  · intro v j hj
    change j ∈ held ((s.setWorker w { batch := batch }).worker v) at hj
    show ∃ row, (fetchDueBatch now ids s.table).get? j.1 = some row ∧ _
    rw [hheld] at hj
    by_cases hv : v = w
    · rw [if_pos hv] at hj
      obtain ⟨hmem, hget⟩ := Table.get?_of_mem_rowsOf hj
      refine ⟨j.2, hget, Or.inl ?_, Agrees.refl j.2⟩
      rw [get?_fetchDueBatch] at hget
      obtain ⟨row, -, hrow⟩ := Option.map_eq_some_iff.mp hget
      rw [if_pos hmem] at hrow
      rw [← hrow]
    · rw [if_neg hv] at hj
      obtain ⟨row, hrow, hstatus, hag⟩ := hi.claimed v j hj
      refine ⟨row, ?_, hstatus, hag⟩
      rw [get?_fetchDueBatch, hrow, Option.map_some, if_neg (hnot v j hj)]

theorem owned_dispatch {batch : List (String × ScheduledJob J)} (hi : Owned s)
    (hb : (s.worker w).batch = job :: batch) (hf : (s.worker w).firing = none) :
    Owned (s.setWorker w { batch := batch, firing := some job }) := by
  refine hi.mono (fun v j hj => (held_dispatch hb hf v).mem_iff.mp hj) (fun v => ?_)
    fun v j hj row hrow hstatus hag => ⟨row, hrow, hstatus, hag⟩
  exact ((held_dispatch hb hf v).map Prod.fst).nodup_iff.mpr (hi.nodup v)

theorem owned_step (hi : Owned s) (hok : SparesHeld config as s a)
    (hstep : next cronNext config s a = some s') : Owned s' := by
  rcases next_cases hstep with ⟨id, m, t, rfl, ht, rfl⟩ | ⟨now, w, ids, rfl, _, hb, hf, hids, rfl⟩ |
      ⟨w, job, batch, rfl, hb, hf, rfl⟩ | ⟨now, w, job, nextRun, rfl, _, hf, _, rfl⟩ |
      ⟨now, w, job, e, rfl, _, _, _, rfl⟩ | ⟨now, w, error, job, rfl, _, hf, rfl⟩ |
      ⟨w, rfl, rfl⟩ | ⟨id, rfl, rfl⟩ | ⟨now, rfl, _, rfl⟩
  · obtain ⟨hnew, hget⟩ := Table.insert_eq_some ht
    refine owned_table hi fun v j _ row hrow hstatus => ⟨row, ?_, hstatus, fun hag => hag⟩
    have hne : j.1 ≠ id := by
      intro heq
      rw [heq, hnew] at hrow
      cases hrow
    rw [hget, if_neg hne, hrow]
  · exact owned_fetch hi hids
  · exact owned_dispatch hi hb hf
  · exact owned_release hi hf (get?_markSucceeded now job.1 job.2 nextRun s.table)
  · exact owned_drop now hi
  · exact owned_release hi hf (get?_markFailed config now job.1 job.2 error none s.table)
  · exact owned_drop s.clock hi
  · refine owned_table hi fun v j _ row hrow hstatus => ?_
    rw [get?_cancel, hrow, Option.map_some]
    refine ⟨_, rfl, ?_, ?_⟩
    · split
      · exact Or.inr rfl
      · exact hstatus
    · intro hag
      split <;> exact hag
  · refine owned_table hi fun v j hj row hrow hstatus => ⟨row, ?_, hstatus, fun hag => hag⟩
    rw [get?_resetStaleRunning, hrow, Option.map_some, hok v j hj row hrow]
    rfl

theorem owned_init (clock : ℤ) :
    Owned ({ clock := clock, table := Table.empty } : Scheduler J n) := by
  constructor
  · intro v w i hi
    simp [held] at hi
  · intro w
    simp [held]
  · intro w job hjob
    simp [held] at hjob

/-- A job that may be dispatched: SCHEDULED, RUNNING or in the hands of a worker. -/
def Live (s : Scheduler J n) (id : String) (row : ScheduledJob J) : Prop :=
  row.status = .scheduled ∨ row.status = .running ∨
    ∃ w, ∃ job ∈ held (s.worker w), job.1 = id

/-- The rows keep all but their status and the time of the claim, and no job becomes live. -/
structure Unmarked (s s' : Scheduler J n) : Prop where
  missing : ∀ id, s'.table.get? id = none → s.table.get? id = none
  row : ∀ id row', s'.table.get? id = some row' → ∃ row, s.table.get? id = some row ∧
    Agrees row row' ∧ (Live s' id row' → Live s id row)

theorem unmarked_fetch {now : ℤ} {ids : List String}
    (hids : FetchesDue config (some config.batchSize) now s.table ids) :
    Unmarked s { s.setWorker w { batch := (fetchDueBatch now ids s.table).rowsOf ids } with
      clock := now
      table := fetchDueBatch now ids s.table } := by
  constructor
  · intro id h
    change (fetchDueBatch now ids s.table).get? id = none at h
    rwa [get?_fetchDueBatch, Option.map_eq_none_iff] at h
  · intro id row' h
    change (fetchDueBatch now ids s.table).get? id = some row' at h
    rw [get?_fetchDueBatch] at h
    obtain ⟨row, hrow, rfl⟩ := Option.map_eq_some_iff.mp h
    by_cases hid : id ∈ ids
    · obtain ⟨row'', hrow'', hs, -⟩ := hids.row hid
      obtain rfl : row = row'' := by simpa [hrow] using hrow''
      rw [if_pos hid]
      exact ⟨row, hrow, rfl, fun _ => Or.inl hs⟩
    · rw [if_neg hid]
      refine ⟨row, hrow, rfl, ?_⟩
      rintro (hl | hl | ⟨v, job, hjob, rfl⟩)
      · exact Or.inl hl
      · exact Or.inr (Or.inl hl)
      · by_cases hvw : v = w
        · subst hvw
          have hmem : job ∈ (fetchDueBatch now ids s.table).rowsOf ids := by
            simpa [held] using hjob
          exact absurd (Table.get?_of_mem_rowsOf hmem).1 hid
        · refine Or.inr (Or.inr ⟨v, job, ?_, rfl⟩)
          change job ∈ held ((s.setWorker w _).worker v) at hjob
          rwa [setWorker_of_ne hvw] at hjob

theorem unmarked_dispatch {batch : List (String × ScheduledJob J)}
    (hb : (s.worker w).batch = job :: batch) (hf : (s.worker w).firing = none) :
    Unmarked s (s.setWorker w { batch := batch, firing := some job }) := by
  constructor
  · exact fun _ h => h
  · intro id row h
    refine ⟨row, h, rfl, ?_⟩
    rintro (hl | hl | ⟨v, i, hiv, rfl⟩)
    · exact Or.inl hl
    · exact Or.inr (Or.inl hl)
    · exact Or.inr (Or.inr ⟨v, i, (held_dispatch hb hf v).mem_iff.mp hiv, rfl⟩)

theorem unmarked_cancel (id : String) :
    Unmarked s { s with table := Schedule.cancel id s.table } := by
  constructor
  · intro j h
    change (Schedule.cancel id s.table).get? j = none at h
    rwa [get?_cancel, Option.map_eq_none_iff] at h
  · intro j row' h
    change (Schedule.cancel id s.table).get? j = some row' at h
    rw [get?_cancel] at h
    obtain ⟨row, hrow, rfl⟩ := Option.map_eq_some_iff.mp h
    refine ⟨row, hrow, ?_, ?_⟩
    · split <;> rfl
    · split
      · rintro (hl | hl | hl)
        · simp at hl
        · simp at hl
        · exact Or.inr (Or.inr hl)
      · exact fun hl => hl

theorem unmarked_reset (now : ℤ) : Unmarked s
    { s with clock := now, table := (resetStaleRunning config none now s.table).1 } := by
  constructor
  · intro j h
    change (resetStaleRunning config none now s.table).1.get? j = none at h
    rwa [get?_resetStaleRunning, Option.map_eq_none_iff] at h
  · intro j row' h
    change (resetStaleRunning config none now s.table).1.get? j = some row' at h
    rw [get?_resetStaleRunning] at h
    obtain ⟨row, hrow, rfl⟩ := Option.map_eq_some_iff.mp h
    refine ⟨row, hrow, ?_, ?_⟩
    · split <;> rfl
    · split
      · rename_i hstale
        simp only [staleRunning, decide_eq_true_eq] at hstale
        exact fun _ => Or.inr (Or.inl hstale.1)
      · exact fun hl => hl

/-- A worker awaits the dispatch of the job. -/
def Firing (s : Scheduler J n) (id : String) : Prop :=
  ∃ w, ∃ job, (s.worker w).firing = some job ∧ job.1 = id

theorem not_firing_of_missing {id : String} (ho : Owned s) (hnew : s.table.get? id = none) :
    ¬ Firing s id := by
  rintro ⟨w, job, hf, rfl⟩
  obtain ⟨row, hrow, -⟩ := ho.claimed w job (mem_held_of_firing hf)
  simp [hnew] at hrow

theorem firing_fetch (batch : List (String × ScheduledJob J)) (clock : ℤ) (t : JobTable J)
    (hf : (s.worker w).firing = none) (id : String) :
    Firing { s.setWorker w { batch := batch } with clock := clock, table := t } id ↔
      Firing s id := by
  have hsame : ∀ v, ((s.setWorker w { batch := batch }).worker v).firing = (s.worker v).firing := by
    intro v
    by_cases hv : v = w
    · subst hv
      rw [setWorker_self, hf]
    · rw [setWorker_of_ne hv]
  show (∃ v, ∃ job, ((s.setWorker w _).worker v).firing = some job ∧ job.1 = id) ↔ _
  simp only [hsame]
  rfl

theorem not_firing_of_batch {batch : List (String × ScheduledJob J)} (ho : Owned s)
    (hb : (s.worker w).batch = job :: batch) (hf : (s.worker w).firing = none) :
    ¬ Firing s job.1 := by
  rintro ⟨v, j, hj, heq⟩
  have hmem : job ∈ held (s.worker w) := mem_held_of_batch (by simp [hb])
  obtain rfl := ho.single v w j (mem_held_of_firing hj) job hmem heq
  simp [hf] at hj

theorem firing_dispatch (job : String × ScheduledJob J) (batch : List (String × ScheduledJob J))
    (hf : (s.worker w).firing = none) (id : String) (hne : id ≠ job.1) :
    Firing (s.setWorker w { batch := batch, firing := some job }) id ↔ Firing s id := by
  constructor
  · rintro ⟨v, j, hj, rfl⟩
    by_cases hv : v = w
    · subst hv
      simp only [setWorker_self, Option.some.injEq] at hj
      exact absurd (by rw [hj]) hne
    · rw [setWorker_of_ne hv] at hj
      exact ⟨v, j, hj, rfl⟩
  · rintro ⟨v, j, hj, rfl⟩
    have hv : v ≠ w := by
      rintro rfl
      simp [hf] at hj
    exact ⟨v, j, by rw [setWorker_of_ne hv, hj], rfl⟩

theorem firing_release (clock : ℤ) (t : JobTable J) (ho : Owned s)
    (hf : (s.worker w).firing = some job) (id : String) :
    Firing { s.setWorker w { s.worker w with firing := none } with
      clock := clock, table := t } id ↔ id ≠ job.1 ∧ Firing s id := by
  constructor
  · rintro ⟨v, j, hj, rfl⟩
    obtain ⟨-, hne⟩ := not_held_after_release ho hf (mem_held_of_firing hj)
    have hv : v ≠ w := by
      rintro rfl
      simp [Scheduler.setWorker] at hj
    change ((s.setWorker w _).worker v).firing = some j at hj
    rw [setWorker_of_ne hv] at hj
    exact ⟨hne, v, j, hj, rfl⟩
  · rintro ⟨hne, v, j, hj, rfl⟩
    have hv : v ≠ w := by
      rintro rfl
      obtain rfl : job = j := by simpa [hf] using hj
      exact hne rfl
    refine ⟨v, j, ?_, rfl⟩
    show ((s.setWorker w _).worker v).firing = some j
    rw [setWorker_of_ne hv, hj]

/-- A job that is live after a release was live before, and is not the one let go of unless
its row is SCHEDULED or RUNNING. -/
theorem live_after_release {t : JobTable J} {clock : ℤ} {id : String} {row' : ScheduledJob J}
    (ho : Owned s) (hf : (s.worker w).firing = some job)
    (hlive : Live { s.setWorker w { s.worker w with firing := none } with
      clock := clock, table := t } id row') :
    row'.status = .scheduled ∨ row'.status = .running ∨
      (id ≠ job.1 ∧ ∃ v, ∃ i ∈ held (s.worker v), i.1 = id) := by
  rcases hlive with h | h | ⟨v, i, hiv, rfl⟩
  · exact Or.inl h
  · exact Or.inr (Or.inl h)
  · obtain ⟨hmem, hne⟩ := not_held_after_release ho hf hiv
    exact Or.inr (Or.inr ⟨hne, v, i, hmem, rfl⟩)

/-- The job whose dispatch returns in this step. -/
def succeeded (s : Scheduler J n) : Act J n → List String
  | .dispatchReturns _ w => ((s.worker w).firing.map Prod.fst).toList
  | _ => []

/-- The scheduler with the ids of the dispatches that returned. -/
abbrev ownerRuns (J : Type) (n : ℕ) (cronNext : String → ℤ → Except String ℤ)
    (config : ScheduleConfig) : System (Scheduler J n × List String) (Act J n) :=
  (scheduler J n cronNext config).recording succeeded

/-- No two workers dispatch one occurrence of a job at a time, and no job is dispatched
successfully more often than its cap. -/
def SingleOwner (x : Scheduler J n × List String) : Prop :=
  (∀ v w i j, (x.1.worker v).firing = some i → (x.1.worker w).firing = some j → i.1 = j.1 →
    i.2.nextRunAt = j.2.nextRunAt → v = w) ∧
  ∀ id row m, x.1.table.get? id = some row → row.maxRuns = some m → 1 ≤ m → x.2.count id ≤ m

/-- No worker crashes and no repository call raises. -/
def CrashFree : Condition (Scheduler J n) (Act J n) := fun _ _ a =>
  match a with
  | .abandon _ => False
  | _ => True

/-- In addition, no job is reset that a worker holds, and the next occurrence of a job that
was dispatched can be computed. -/
def OwnershipKept (cronNext : String → ℤ → Except String ℤ) (config : ScheduleConfig) :
    Condition (Scheduler J n) (Act J n) := fun as s a =>
  CrashFree as s a ∧ SparesHeld config as s a ∧ match a with
  | .dispatchReturns _ w => ∀ job ∈ (s.worker w).firing, (nextRunOf cronNext job.2).isOk
  | _ => True

instance (as : List (Act J n)) (s : Scheduler J n) (a : Act J n) : Decidable (CrashFree as s a) :=
  match a with
  | .create _ _ | .fetch _ _ _ | .dispatch _ | .dispatchReturns _ _ | .dispatchRaises _ _ _
  | .abandon _ | .cancel _ | .resetStale _ => by unfold CrashFree; infer_instance

instance (cronNext : String → ℤ → Except String ℤ) (config : ScheduleConfig) (as : List (Act J n))
    (s : Scheduler J n) (a : Act J n) : Decidable (OwnershipKept cronNext config as s a) :=
  match a with
  | .create _ _ | .fetch _ _ _ | .dispatch _ | .dispatchReturns _ _ | .dispatchRaises _ _ _
  | .abandon _ | .cancel _ | .resetStale _ => by unfold OwnershipKept; infer_instance

/-- The run count of a row is its number of successes, below the cap as long as it is live. -/
structure Capped (s : Scheduler J n) (done : List String) : Prop where
  fresh : ∀ id, s.table.get? id = none → done.count id = 0
  count : ∀ id row, s.table.get? id = some row → (done.count id : ℤ) = row.runCount
  cap : ∀ id row m, s.table.get? id = some row → row.maxRuns = some m → 1 ≤ m →
    row.runCount ≤ m ∧ (Live s id row → row.runCount < m)

variable {done : List String}

theorem Capped.mono (hi : Capped s done)
    (hnone : ∀ id, s'.table.get? id = none → s.table.get? id = none)
    (hrow : ∀ id row', s'.table.get? id = some row' → ∃ row, s.table.get? id = some row ∧
      row'.runCount = row.runCount ∧ row'.maxRuns = row.maxRuns ∧
      (Live s' id row' → Live s id row)) :
    Capped s' done where
  fresh id h := hi.fresh id (hnone id h)
  count id row' h := by
    obtain ⟨row, hget, hcount, -, -⟩ := hrow id row' h
    rw [hcount]
    exact hi.count id row hget
  cap id row' m h hm hpos := by
    obtain ⟨row, hget, hcount, hmax, hlive⟩ := hrow id row' h
    obtain ⟨hle, hlt⟩ := hi.cap id row m hget (hmax ▸ hm) hpos
    rw [hcount]
    exact ⟨hle, fun hl => hlt (hlive hl)⟩

theorem Capped.unmarked (hi : Capped s done) (hs : Unmarked s s') : Capped s' done := by
  refine hi.mono hs.missing fun id row' h => ?_
  obtain ⟨row, hrow, hag, hlive⟩ := hs.row id row' h
  exact ⟨row, hrow, hag.runCount, hag.maxRuns, hlive⟩

theorem capped_create {id : String} {m : NewJob J} {t : JobTable J} (hi : Capped s done)
    (ht : s.table.insert id (m.job config) = some t) : Capped { s with table := t } done := by
  obtain ⟨hnew, hget⟩ := Table.insert_eq_some ht
  constructor
  · intro j hj
    change t.get? j = none at hj
    rw [hget] at hj
    split at hj
    · cases hj
    · exact hi.fresh j hj
  · intro j row hj
    change t.get? j = some row at hj
    rw [hget] at hj
    split at hj
    · rename_i hid
      obtain rfl := Option.some.inj hj
      rw [hid, hi.fresh id hnew]
      rfl
    · exact hi.count j row hj
  · intro j row cap hj hcap hpos
    change t.get? j = some row at hj
    rw [hget] at hj
    split at hj
    · obtain rfl := Option.some.inj hj
      show (0 : ℤ) ≤ cap ∧ (_ → (0 : ℤ) < cap)
      exact ⟨by omega, fun _ => by omega⟩
    · exact hi.cap j row cap hj hcap hpos

theorem capped_dispatchReturns {now : ℤ} {nextRun : Option ℤ} (hi : Capped s done) (ho : Owned s)
    (hf : (s.worker w).firing = some job) :
    Capped { s.setWorker w { s.worker w with firing := none } with
      clock := now
      table := markSucceeded now job.1 job.2 nextRun s.table } (done ++ [job.1]) := by
  obtain ⟨old, hold, -, hag⟩ := ho.claimed w job (mem_held_of_firing hf)
  constructor
  · intro id hid
    change (markSucceeded now job.1 job.2 nextRun s.table).get? id = none at hid
    rw [get?_markSucceeded, Option.map_eq_none_iff] at hid
    have hne : id ≠ job.1 := by
      rintro rfl
      simp [hold] at hid
    rw [List.count_append, hi.fresh id hid, List.count_singleton]
    simp [Ne.symm hne]
  · intro id row' hid
    change (markSucceeded now job.1 job.2 nextRun s.table).get? id = some row' at hid
    rw [get?_markSucceeded] at hid
    obtain ⟨row, hrow, rfl⟩ := Option.map_eq_some_iff.mp hid
    have hcount := hi.count id row hrow
    by_cases hj : id = job.1
    · subst hj
      obtain rfl : old = row := by simpa [hold] using hrow
      rw [if_pos rfl, List.count_append, List.count_singleton_self]
      show _ = job.2.runCount + 1
      rw [hag.runCount, ← hcount]
      rfl
    · rw [if_neg hj, List.count_append, List.count_singleton]
      simp [Ne.symm hj, hcount]
  · intro id row' m hid hm hpos
    change (markSucceeded now job.1 job.2 nextRun s.table).get? id = some row' at hid
    rw [get?_markSucceeded] at hid
    obtain ⟨row, hrow, rfl⟩ := Option.map_eq_some_iff.mp hid
    by_cases hj : id = job.1
    · subst hj
      obtain rfl : old = row := by simpa [hold] using hrow
      rw [if_pos rfl] at hm ⊢
      have hheld : Live s job.1 old := Or.inr (Or.inr ⟨w, job, mem_held_of_firing hf, rfl⟩)
      have hlt := (hi.cap job.1 old m hold hm hpos).2 hheld
      have hmax : job.2.maxRuns = some m := hag.maxRuns.trans hm
      refine ⟨?_, fun hl => ?_⟩
      · show job.2.runCount + 1 ≤ m
        rw [hag.runCount]
        omega
      · -- a job that goes on has not reached its cap
        have hon : lastFire job.2 nextRun = false := by
          rcases live_after_release ho hf hl with h | h | ⟨hne, -⟩
          · by_contra hlast
            simp [afterSuccess, hlast] at h
          · by_contra hlast
            simp only [afterSuccess] at h
            split at h <;> simp at h
          · exact absurd rfl hne
        simp only [lastFire, hmax, decide_eq_false_iff_not, not_or] at hon
        show job.2.runCount + 1 < m
        simpa using hon.2
    · rw [if_neg hj] at hm ⊢
      obtain ⟨hle, hlt⟩ := hi.cap id row m hrow hm hpos
      refine ⟨hle, fun hl => hlt ?_⟩
      rcases live_after_release ho hf hl with h | h | ⟨-, h⟩
      · exact Or.inl h
      · exact Or.inr (Or.inl h)
      · exact Or.inr (Or.inr h)

theorem capped_step (hi : Capped s done) (ho : Owned s)
    (hok : OwnershipKept cronNext config as s a) (hstep : next cronNext config s a = some s') :
    Capped s' (done ++ succeeded s a) := by
  obtain ⟨hcrash, -, hrecurs⟩ := hok
  rcases next_cases hstep with ⟨id, m, t, rfl, ht, rfl⟩ | ⟨now, w, ids, rfl, _, hb, hf, hids, rfl⟩ |
      ⟨w, job, batch, rfl, hb, hf, rfl⟩ | ⟨now, w, job, nextRun, rfl, _, hf, _, rfl⟩ |
      ⟨now, w, job, e, rfl, _, hf, he, rfl⟩ | ⟨now, w, error, job, rfl, _, hf, rfl⟩ |
      ⟨w, rfl, rfl⟩ | ⟨id, rfl, rfl⟩ | ⟨now, rfl, _, rfl⟩
  case inr.inr.inr.inl =>
    simp only [succeeded, hf, Option.map_some, Option.toList_some]
    exact capped_dispatchReturns hi ho hf
  case inr.inr.inr.inr.inl =>
    have := hrecurs job hf
    simp [he, Except.isOk, Except.toBool] at this
  case inr.inr.inr.inr.inr.inr.inl => exact absurd hcrash id
  all_goals
    show Capped _ (done ++ [])
    rw [List.append_nil]
  · exact capped_create hi ht
  · exact hi.unmarked (unmarked_fetch hids)
  · exact hi.unmarked (unmarked_dispatch hb hf)
  · refine hi.mono (fun id h => ?_) fun id row' h => ?_
    · change (Schedule.markFailed config now job.1 job.2 error none s.table).get? id = none at h
      rwa [get?_markFailed, Option.map_eq_none_iff] at h
    · change
        (Schedule.markFailed config now job.1 job.2 error none s.table).get? id = some row' at h
      rw [get?_markFailed] at h
      obtain ⟨row, hrow, rfl⟩ := Option.map_eq_some_iff.mp h
      by_cases hid : id = job.1
      · subst hid
        rw [if_pos rfl]
        exact ⟨row, hrow, rfl, rfl,
          fun _ => Or.inr (Or.inr ⟨w, job, mem_held_of_firing hf, rfl⟩)⟩
      · rw [if_neg hid]
        refine ⟨row, hrow, rfl, rfl, fun hl => ?_⟩
        rcases live_after_release ho hf hl with h | h | ⟨-, h⟩
        · exact Or.inl h
        · exact Or.inr (Or.inl h)
        · exact Or.inr (Or.inr h)
  · exact hi.unmarked (unmarked_cancel id)
  · exact hi.unmarked (unmarked_reset now)

/-- While no job is reset that a worker holds and every next occurrence can be computed, a
job has one owner and its fires stay within its cap. -/
theorem single_owner {x : Scheduler J n × List String}
    (h : Trace (ownerRuns J n cronNext config)
      (Condition.ignoring (OwnershipKept cronNext config) String) as x) : SingleOwner x := by
  have hi : Owned x.1 ∧ Capped x.1 x.2 := by
    refine Trace.induct (M := ownerRuns J n cronNext config)
      (I := fun _ x => Owned x.1 ∧ Capped x.1 x.2) ?_ ?_ as x h
    · rintro ⟨s, done⟩ ⟨hs, hdone⟩
      have hinit : s = { clock := s.clock, table := Table.empty } := hs
      simp only at hdone
      subst hdone
      rw [hinit]
      refine ⟨owned_init _, ⟨fun _ _ => rfl, fun id row hid => ?_, fun id row m hid => ?_⟩⟩
      · simp [Table.get?_empty] at hid
      · simp [Table.get?_empty] at hid
    · rintro as x a y _ ⟨ho, hc⟩ hok hstep
      obtain ⟨hnext, hrecord⟩ := recording_next hstep
      rw [hrecord]
      exact ⟨owned_step ho hok.2.1 hnext, capped_step hc ho hok hnext⟩
  obtain ⟨ho, hc⟩ := hi
  constructor
  · intro v w i j hv hw hij _
    exact ho.single v w i (mem_held_of_firing hv) j (mem_held_of_firing hw) hij
  · intro id row m hid hm hpos
    rw [hc.count id row hid]
    exact (hc.cap id row m hid hm hpos).1

/-- An hourly job that fires at most once. -/
def onlyOnce : NewJob Unit where
  jobName := "reconcile"
  kind := .interval
  nextRunAt := 0
  intervalSeconds := some 3600
  maxRuns := some 1
  payload := ()
  headers := ()

def noCron : String → ℤ → Except String ℤ := fun _ _ => .error "CroniterBadCronError"

theorem single_owner_once : ∃ x, Trace (ownerRuns Unit 2 noCron {})
      (Condition.ignoring (OwnershipKept noCron {}) String)
      [.create "a" onlyOnce, .fetch 1 0 ["a"], .dispatch 0, .resetStale 2, .dispatchReturns 3 0] x ∧
    x.2 = ["a"] ∧ SingleOwner x := by
  have h : (replay (ownerRuns Unit 2 noCron {})
      (Condition.ignoring (OwnershipKept noCron {}) String) []
      [.create "a" onlyOnce, .fetch 1 0 ["a"], .dispatch 0, .resetStale 2, .dispatchReturns 3 0]
      ({ clock := 0, table := Table.empty }, [])).map Prod.snd = some ["a"] := by
    decide +kernel
  obtain ⟨x, hrun, hx⟩ := Option.map_eq_some_iff.mp h
  have hinit : (ownerRuns Unit 2 noCron {}).init ({ clock := 0, table := Table.empty }, []) :=
    ⟨init_scheduler noCron {} 0, rfl⟩
  have htrace := trace_of_replay hinit hrun
  exact ⟨x, htrace, hx, single_owner htrace⟩

/-- Worker 0 dispatches a job for more than the claim timeout; after the reset worker 1
claims and dispatches it as well. -/
theorem slow_dispatch_loses_job :
    ¬ ∀ (cronNext : String → ℤ → Except String ℤ) (config : ScheduleConfig)
      (as : List (Act Unit 2)) (x : Scheduler Unit 2 × List String),
      Trace (ownerRuns Unit 2 cronNext config) (Condition.ignoring CrashFree String) as x →
      SingleOwner x := by
  intro hclaim
  have h : (replay (ownerRuns Unit 2 noCron {}) (Condition.ignoring CrashFree String) []
      [.create "a" onlyOnce, .fetch 1 0 ["a"], .dispatch 0, .resetStale 300000002,
        .fetch 300000003 1 ["a"], .dispatch 1]
      ({ clock := 0, table := Table.empty }, [])).map
        (fun x => [x.1.worker 0, x.1.worker 1].map fun worker =>
          worker.firing.map fun job => (job.1, job.2.nextRunAt)) =
      some [some ("a", 0), some ("a", 0)] := by
    decide +kernel
  obtain ⟨x, hrun, hx⟩ := Option.map_eq_some_iff.mp h
  simp only [List.map_cons, List.map_nil, List.cons.injEq, and_true,
    Option.map_eq_some_iff, Prod.mk.injEq] at hx
  obtain ⟨⟨i, hi, hia, hin⟩, ⟨j, hj, hja, hjn⟩⟩ := hx
  have hinit : (ownerRuns Unit 2 noCron {}).init ({ clock := 0, table := Table.empty }, []) :=
    ⟨init_scheduler noCron {} 0, rfl⟩
  obtain ⟨hone, -⟩ := hclaim _ _ _ x (trace_of_replay hinit hrun)
  exact absurd (hone 0 1 i j hi hj (hia.trans hja.symm) (hin.trans hjn.symm)) (by decide)

end Taas.ScheduleOwner
