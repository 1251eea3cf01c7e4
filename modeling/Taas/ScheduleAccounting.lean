import Taas.ScheduleOwner

/-!
What becomes of a dispatch. The handler in `_fire` covers the dispatch itself; an error of
the recurrence or of a mark unwinds the loop over the batch, and the rows stay RUNNING
until the stale reset makes them due again. Without such errors each dispatch ends in a
mark, an occurrence uses up one attempt a dispatch, and every claimed job is dispatched.
-/
namespace Taas.ScheduleAccounting

open Python Sql Schedule Transition SchedulePoller ScheduleOwner

variable {J : Type} {n : ℕ}

abbrev Occurrence := String × ℤ

/-- The occurrence whose dispatch begins in this step. -/
def dispatched (s : Scheduler J n) : Act J n → List Occurrence
  | .dispatch w => ((s.worker w).batch.head?.map fun job => (job.1, job.2.runCount)).toList
  | _ => []

/-- The scheduler with the occurrences in the order of their dispatches. -/
abbrev dispatchRuns (J : Type) (n : ℕ) (cronNext : String → ℤ → Except String ℤ)
    (config : ScheduleConfig) : System (Scheduler J n × List Occurrence) (Act J n) :=
  (scheduler J n cronNext config).recording dispatched

/-- The row after has one more success or one more failed attempt. -/
def Incremented (row row' : ScheduledJob J) : Prop :=
  row'.runCount = row.runCount + 1 ∨ row'.attempts = row.attempts + 1

/-- A dispatch that ends is counted in its row, an occurrence is dispatched no more often
than its retries allow, and a claimed batch only changes by the dispatch of its head. -/
structure Accounted (cronNext : String → ℤ → Except String ℤ) (config : ScheduleConfig)
    (ok : Condition (Scheduler J n) (Act J n)) (as : List (Act J n))
    (x : Scheduler J n × List Occurrence) : Prop where
  followed : ∀ a t w job, ok as x.1 a → next cronNext config x.1 a = some t →
    (x.1.worker w).firing = some job → (t.worker w).firing ≠ some job →
    ∃ row row', x.1.table.get? job.1 = some row ∧ t.table.get? job.1 = some row' ∧
      Incremented row row'
  bounded : ∀ id row k, x.1.table.get? id = some row →
    (x.2.count (id, k) : ℤ) ≤ max 1 row.maxRetries
  remaining : ∀ a t w job batch, ok as x.1 a → next cronNext config x.1 a = some t →
    (x.1.worker w).batch = job :: batch → (t.worker w).batch = job :: batch ∨
      (t.worker w).batch = batch ∧ (t.worker w).firing = some job

variable {cronNext : String → ℤ → Except String ℤ} {config : ScheduleConfig}
variable {s s' : Scheduler J n} {a : Act J n} {as : List (Act J n)} {w v : Fin n}
variable {job : String × ScheduledJob J} {row : ScheduledJob J} {done : List Occurrence}
variable {id : String} {k : ℤ}

theorem worker_cases (hstep : next cronNext config s a = some s') (w : Fin n) :
    s'.worker w = s.worker w ∨
    (∃ now ids, a = .fetch now w ids ∧ (s.worker w).batch = [] ∧ (s.worker w).firing = none) ∨
    (∃ job batch, a = .dispatch w ∧ (s.worker w).batch = job :: batch ∧
      (s.worker w).firing = none ∧ s'.worker w = { batch := batch, firing := some job }) ∨
    (∃ now job nextRun, a = .dispatchReturns now w ∧ (s.worker w).firing = some job ∧
      s'.worker w = { s.worker w with firing := none } ∧
      s'.table = markSucceeded now job.1 job.2 nextRun s.table) ∨
    (∃ now job e, a = .dispatchReturns now w ∧ (s.worker w).firing = some job ∧
      nextRunOf cronNext job.2 = .error e) ∨
    (∃ now error job, a = .dispatchRaises now w error ∧ (s.worker w).firing = some job ∧
      s'.worker w = { s.worker w with firing := none } ∧
      s'.table = markFailed config now job.1 job.2 error none s.table) ∨
    a = .abandon w := by
  rcases next_cases hstep with ⟨id, m, t, rfl, ht, rfl⟩ | ⟨now, v, ids, rfl, _, hb, hf, hids, rfl⟩ |
      ⟨v, job, batch, rfl, hb, hf, rfl⟩ | ⟨now, v, job, nextRun, rfl, _, hf, _, rfl⟩ |
      ⟨now, v, job, e, rfl, _, hf, he, rfl⟩ | ⟨now, v, error, job, rfl, _, hf, rfl⟩ |
      ⟨v, rfl, rfl⟩ | ⟨id, rfl, rfl⟩ | ⟨now, rfl, _, rfl⟩
  · exact Or.inl rfl
  · by_cases hv : w = v
    · subst hv
      exact Or.inr (Or.inl ⟨now, ids, rfl, hb, hf⟩)
    · exact Or.inl (setWorker_of_ne hv)
  · by_cases hv : w = v
    · subst hv
      exact Or.inr (Or.inr (Or.inl ⟨job, batch, rfl, hb, hf, setWorker_self⟩))
    · exact Or.inl (setWorker_of_ne hv)
  · by_cases hv : w = v
    · subst hv
      exact Or.inr (Or.inr (Or.inr (Or.inl ⟨now, job, nextRun, rfl, hf, setWorker_self, rfl⟩)))
    · exact Or.inl (setWorker_of_ne hv)
  · by_cases hv : w = v
    · subst hv
      exact Or.inr (Or.inr (Or.inr (Or.inr (Or.inl ⟨now, job, e, rfl, hf, he⟩))))
    · exact Or.inl (setWorker_of_ne hv)
  · by_cases hv : w = v
    · subst hv
      exact Or.inr (Or.inr (Or.inr (Or.inr (Or.inr (Or.inl
        ⟨now, error, job, rfl, hf, setWorker_self, rfl⟩)))))
    · exact Or.inl (setWorker_of_ne hv)
  · by_cases hv : w = v
    · subst hv
      exact Or.inr (Or.inr (Or.inr (Or.inr (Or.inr (Or.inr rfl)))))
    · exact Or.inl (setWorker_of_ne hv)
  · exact Or.inl rfl
  · exact Or.inl rfl

theorem nextRunOf_ne_error {now : ℤ} {e : String}
    (hok : OwnershipKept cronNext config as s (.dispatchReturns now w))
    (hf : (s.worker w).firing = some job) : nextRunOf cronNext job.2 ≠ .error e := by
  intro he
  have h := hok.2.2 job hf
  simp [he, Except.isOk, Except.toBool] at h

theorem incremented_of_end (ho : Owned s) (hok : OwnershipKept cronNext config as s a)
    (hstep : next cronNext config s a = some s') (hf : (s.worker w).firing = some job)
    (hend : (s'.worker w).firing ≠ some job) :
    ∃ row row', s.table.get? job.1 = some row ∧ s'.table.get? job.1 = some row' ∧
      Incremented row row' := by
  obtain ⟨row, hrow, -, hag⟩ := ho.claimed w job (mem_held_of_firing hf)
  rcases worker_cases hstep w with h | ⟨_, _, _, _, h⟩ | ⟨_, _, _, _, h, _⟩ |
      ⟨now, j, nextRun, _, h, _, ht⟩ | ⟨now, j, e, rfl, h, he⟩ | ⟨now, error, j, _, h, _, ht⟩ | rfl
  · rw [h] at hend
    exact absurd hf hend
  · simp [hf] at h
  · simp [hf] at h
  · obtain rfl : job = j := by simpa [hf] using h
    refine ⟨row, afterSuccess now job.2 nextRun row, hrow, ?_, Or.inl ?_⟩
    · rw [ht, get?_markSucceeded, hrow, Option.map_some, if_pos rfl]
    · show job.2.runCount + 1 = _
      rw [hag.runCount]
  · exact absurd he (nextRunOf_ne_error hok h)
  · obtain rfl : job = j := by simpa [hf] using h
    refine ⟨row, afterFailure config now job.2 error none row, hrow, ?_, Or.inr ?_⟩
    · rw [ht, get?_markFailed, hrow, Option.map_some, if_pos rfl]
    · show job.2.attempts + 1 = _
      rw [hag.attempts]
  · exact absurd hok.1 id

theorem batch_of_step (hok : OwnershipKept cronNext config as s a)
    (hstep : next cronNext config s a = some s') {batch : List (String × ScheduledJob J)}
    (hb : (s.worker w).batch = job :: batch) : (s'.worker w).batch = job :: batch ∨
      (s'.worker w).batch = batch ∧ (s'.worker w).firing = some job := by
  rcases worker_cases hstep w with h | ⟨_, _, _, h, _⟩ | ⟨j, rest, _, h, _, hw⟩ |
      ⟨_, j, _, _, _, hw, _⟩ | ⟨now, j, e, rfl, h, he⟩ | ⟨_, _, j, _, _, hw, _⟩ | rfl
  · rw [h]
    exact Or.inl hb
  · simp [hb] at h
  · obtain ⟨rfl, rfl⟩ : job = j ∧ batch = rest := by simpa [hb] using h
    rw [hw]
    exact Or.inr ⟨rfl, rfl⟩
  · rw [hw]
    exact Or.inl hb
  · exact absurd he (nextRunOf_ne_error hok h)
  · rw [hw]
    exact Or.inl hb
  · exact absurd hok.1 id

/-- The present occurrence of a row was dispatched once for every attempt, and once more
while a dispatch is awaited; a live row has an attempt left. -/
structure Attempted (s : Scheduler J n) (done : List Occurrence) : Prop where
  fresh : ∀ id k, s.table.get? id = none → done.count (id, k) = 0
  future : ∀ id row k, s.table.get? id = some row → row.runCount < k → done.count (id, k) = 0
  firing : ∀ id row, s.table.get? id = some row → Firing s id →
    (done.count (id, row.runCount) : ℤ) = row.attempts + 1
  waiting : ∀ id row, s.table.get? id = some row → ¬ Firing s id →
    (done.count (id, row.runCount) : ℤ) = row.attempts
  bound : ∀ id row k, s.table.get? id = some row → (done.count (id, k) : ℤ) ≤ max 1 row.maxRetries
  left : ∀ id row, s.table.get? id = some row → Live s id row → row.attempts < max 1 row.maxRetries

theorem count_concat_self (o : Occurrence) : (done ++ [o]).count o = done.count o + 1 := by
  rw [List.count_append, List.count_singleton_self]

theorem count_concat_of_ne {o p : Occurrence} (h : o ≠ p) :
    (done ++ [o]).count p = done.count p := by
  rw [List.count_append, List.count_singleton]
  simp [h]

theorem Attempted.unmarked (hi : Attempted s done) (hs : Unmarked s s')
    (hf : ∀ id, Firing s' id ↔ Firing s id) : Attempted s' done where
  fresh id k h := hi.fresh id k (hs.missing id h)
  future id row' k h hk := by
    obtain ⟨row, hrow, hag, -⟩ := hs.row id row' h
    rw [hag.runCount] at hk
    exact hi.future id row k hrow hk
  firing id row' h hfire := by
    obtain ⟨row, hrow, hag, -⟩ := hs.row id row' h
    rw [hag.runCount, hag.attempts]
    exact hi.firing id row hrow ((hf id).mp hfire)
  waiting id row' h hfire := by
    obtain ⟨row, hrow, hag, -⟩ := hs.row id row' h
    rw [hag.runCount, hag.attempts]
    apply hi.waiting id row hrow
    rwa [← hf id]
  bound id row' k h := by
    obtain ⟨row, hrow, hag, -⟩ := hs.row id row' h
    rw [hag.maxRetries]
    exact hi.bound id row k hrow
  left id row' h hl := by
    obtain ⟨row, hrow, hag, hlive⟩ := hs.row id row' h
    rw [hag.attempts, hag.maxRetries]
    exact hi.left id row hrow (hlive hl)

theorem attempted_create {i : String} {m : NewJob J} {t : JobTable J} (ho : Owned s)
    (hi : Attempted s done) (ht : s.table.insert i (m.job config) = some t) :
    Attempted { s with table := t } done := by
  obtain ⟨hnew, hget⟩ := Table.insert_eq_some ht
  have hidle := not_firing_of_missing ho hnew
  -- the new row has no dispatches, the others are as they were
  have hrows : ∀ id row, t.get? id = some row →
      (id = i ∧ row = m.job config) ∨ (id ≠ i ∧ s.table.get? id = some row) := by
    intro id row h
    rw [hget] at h
    split at h
    · rename_i heq
      exact Or.inl ⟨heq, (Option.some.inj h).symm⟩
    · rename_i hne
      exact Or.inr ⟨hne, h⟩
  constructor
  · intro id k h
    change t.get? id = none at h
    rw [hget] at h
    split at h
    · cases h
    · exact hi.fresh id k h
  · intro id row k h hk
    rcases hrows id row h with ⟨rfl, rfl⟩ | ⟨-, hrow⟩
    · exact hi.fresh id k hnew
    · exact hi.future id row k hrow hk
  · intro id row h hf
    rcases hrows id row h with ⟨rfl, rfl⟩ | ⟨-, hrow⟩
    · exact absurd hf hidle
    · exact hi.firing id row hrow hf
  · intro id row h hf
    rcases hrows id row h with ⟨rfl, rfl⟩ | ⟨-, hrow⟩
    · rw [hi.fresh id _ hnew]
      rfl
    · exact hi.waiting id row hrow hf
  · intro id row k h
    rcases hrows id row h with ⟨rfl, rfl⟩ | ⟨-, hrow⟩
    · rw [hi.fresh id k hnew]
      omega
    · exact hi.bound id row k hrow
  · intro id row h hl
    rcases hrows id row h with ⟨rfl, rfl⟩ | ⟨-, hrow⟩
    · show (0 : ℤ) < _
      omega
    · exact hi.left id row hrow hl

theorem attempted_dispatch {batch : List (String × ScheduledJob J)} (ho : Owned s)
    (hi : Attempted s done) (hb : (s.worker w).batch = job :: batch)
    (hf : (s.worker w).firing = none) :
    Attempted (s.setWorker w { batch := batch, firing := some job })
      (done ++ [(job.1, job.2.runCount)]) := by
  have hmem : job ∈ held (s.worker w) := mem_held_of_batch (by simp [hb])
  obtain ⟨old, hold, -, hag⟩ := ho.claimed w job hmem
  have hun := unmarked_dispatch hb hf
  have hidle := not_firing_of_batch ho hb hf
  have hfiring := firing_dispatch job batch hf
  have hself : (done.count (job.1, old.runCount) : ℤ) = old.attempts := hi.waiting _ _ hold hidle
  have hleft := hi.left _ _ hold (Or.inr (Or.inr ⟨w, job, hmem, rfl⟩))
  rw [hag.runCount]
  constructor
  · intro id k h
    change s.table.get? id = none at h
    have hne : (job.1, old.runCount) ≠ (id, k) := by
      rintro ⟨rfl, rfl⟩
      simp [hold] at h
    rw [count_concat_of_ne hne]
    exact hi.fresh id k h
  · intro id row k h hk
    change s.table.get? id = some row at h
    have hne : (job.1, old.runCount) ≠ (id, k) := by
      rintro ⟨rfl, rfl⟩
      obtain rfl : old = row := by simpa [hold] using h
      omega
    rw [count_concat_of_ne hne]
    exact hi.future id row k h hk
  · intro id row h hfire
    change s.table.get? id = some row at h
    by_cases hid : id = job.1
    · subst hid
      obtain rfl : old = row := by simpa [hold] using h
      rw [count_concat_self]
      omega
    · rw [count_concat_of_ne (by simp [Ne.symm hid])]
      exact hi.firing id row h ((hfiring id hid).mp hfire)
  · intro id row h hfire
    change s.table.get? id = some row at h
    have hid : id ≠ job.1 := by
      rintro rfl
      exact hfire ⟨w, job, by simp, rfl⟩
    rw [count_concat_of_ne (by simp [Ne.symm hid])]
    apply hi.waiting id row h
    rwa [← hfiring id hid]
  · intro id row k h
    change s.table.get? id = some row at h
    by_cases heq : (job.1, old.runCount) = (id, k)
    · obtain ⟨rfl, rfl⟩ := Prod.mk.inj heq
      obtain rfl : old = row := by simpa [hold] using h
      rw [count_concat_self]
      omega
    · rw [count_concat_of_ne heq]
      exact hi.bound id row k h
  · intro id row h hl
    obtain ⟨row', hrow', hag', hlive⟩ := hun.row id row h
    rw [hag'.attempts, hag'.maxRetries]
    exact hi.left id row' hrow' (hlive hl)

/-- The end of a dispatch, with a mark that starts the next occurrence or uses up an
attempt of the present one. -/
theorem attempted_release {t : JobTable J} {f : ScheduledJob J → ScheduledJob J} {clock : ℤ}
    (ho : Owned s) (hi : Attempted s done) (hf : (s.worker w).firing = some job)
    (hget : ∀ j, t.get? j = (s.table.get? j).map fun row => if j = job.1 then f row else row)
    (hmax : ∀ row, (f row).maxRetries = row.maxRetries)
    (hmark : ∀ row, s.table.get? job.1 = some row →
      ((f row).runCount = row.runCount + 1 ∧ (f row).attempts = 0) ∨
      ((f row).runCount = row.runCount ∧ (f row).attempts = row.attempts + 1 ∧
        ((f row).status = .scheduled ∨ (f row).status = .running →
          row.attempts + 1 < row.maxRetries))) :
    Attempted { s.setWorker w { s.worker w with firing := none } with clock := clock, table := t }
      done := by
  obtain ⟨old, hold, -, -⟩ := ho.claimed w job (mem_held_of_firing hf)
  have hcount := hi.firing _ _ hold ⟨w, job, hf, rfl⟩
  have hfiring := firing_release clock t ho hf
  have hrows : ∀ id row', t.get? id = some row' →
      (id = job.1 ∧ row' = f old) ∨ (id ≠ job.1 ∧ s.table.get? id = some row') := by
    intro id row' h
    rw [hget] at h
    obtain ⟨row, hrow, rfl⟩ := Option.map_eq_some_iff.mp h
    by_cases hid : id = job.1
    · subst hid
      obtain rfl : old = row := by simpa [hold] using hrow
      exact Or.inl ⟨rfl, by rw [if_pos rfl]⟩
    · rw [if_neg hid]
      exact Or.inr ⟨hid, hrow⟩
  constructor
  · intro id k h
    change t.get? id = none at h
    rw [hget, Option.map_eq_none_iff] at h
    exact hi.fresh id k h
  · intro id row' k h hk
    rcases hrows id row' h with ⟨rfl, rfl⟩ | ⟨-, hrow⟩
    · apply hi.future _ _ k hold
      rcases hmark old hold with ⟨hruns, -⟩ | ⟨hruns, -⟩ <;> omega
    · exact hi.future id row' k hrow hk
  · intro id row' h hfire
    obtain ⟨hne, hfire⟩ := (hfiring id).mp hfire
    rcases hrows id row' h with ⟨rfl, -⟩ | ⟨-, hrow⟩
    · exact absurd rfl hne
    · exact hi.firing id row' hrow hfire
  · intro id row' h hfire
    rcases hrows id row' h with ⟨rfl, rfl⟩ | ⟨hne, hrow⟩
    · rcases hmark old hold with ⟨hruns, hattempts⟩ | ⟨hruns, hattempts, -⟩
      · rw [hruns, hattempts, hi.future _ _ _ hold (by omega)]
        rfl
      · rw [hruns, hattempts, hcount]
    · apply hi.waiting id row' hrow
      intro hfire'
      exact hfire ((hfiring id).mpr ⟨hne, hfire'⟩)
  · intro id row' k h
    rcases hrows id row' h with ⟨rfl, rfl⟩ | ⟨-, hrow⟩
    · rw [hmax]
      exact hi.bound _ _ k hold
    · exact hi.bound id row' k hrow
  · intro id row' h hl
    have hlive := live_after_release ho hf hl
    rcases hrows id row' h with ⟨rfl, rfl⟩ | ⟨-, hrow⟩
    · have hstatus : (f old).status = .scheduled ∨ (f old).status = .running := by
        rcases hlive with h | h | ⟨hne, -⟩
        · exact Or.inl h
        · exact Or.inr h
        · exact absurd rfl hne
      rw [hmax]
      rcases hmark old hold with ⟨-, hattempts⟩ | ⟨-, hattempts, hleft⟩
      · omega
      · have := hleft hstatus
        omega
    · apply hi.left id row' hrow
      rcases hlive with h | h | ⟨-, h⟩
      · exact Or.inl h
      · exact Or.inr (Or.inl h)
      · exact Or.inr (Or.inr h)

theorem attempted_step (ho : Owned s) (hi : Attempted s done)
    (hok : OwnershipKept cronNext config as s a) (hstep : next cronNext config s a = some s') :
    Attempted s' (done ++ dispatched s a) := by
  rcases next_cases hstep with ⟨i, m, t, rfl, ht, rfl⟩ | ⟨now, w, ids, rfl, _, hb, hf, hids, rfl⟩ |
      ⟨w, job, batch, rfl, hb, hf, rfl⟩ | ⟨now, w, job, nextRun, rfl, _, hf, _, rfl⟩ |
      ⟨now, w, job, e, rfl, _, hf, he, rfl⟩ | ⟨now, w, error, job, rfl, _, hf, rfl⟩ |
      ⟨w, rfl, rfl⟩ | ⟨i, rfl, rfl⟩ | ⟨now, rfl, _, rfl⟩
  case inr.inr.inl =>
    simp only [dispatched, hb, List.head?_cons, Option.map_some, Option.toList_some]
    exact attempted_dispatch ho hi hb hf
  case inr.inr.inr.inr.inl => exact absurd he (nextRunOf_ne_error hok hf)
  case inr.inr.inr.inr.inr.inr.inl => exact absurd hok.1 id
  all_goals
    show Attempted _ (done ++ [])
    rw [List.append_nil]
  · exact attempted_create ho hi ht
  · exact hi.unmarked (unmarked_fetch hids) (firing_fetch _ _ _ hf)
  · refine attempted_release ho hi hf (get?_markSucceeded now job.1 job.2 nextRun s.table)
      (fun _ => rfl) fun row hrow => ?_
    obtain ⟨old, hold, -, hag⟩ := ho.claimed w job (mem_held_of_firing hf)
    obtain rfl : old = row := by simpa [hold] using hrow
    left
    constructor
    · show job.2.runCount + 1 = _
      rw [hag.runCount]
    · rfl
  · refine attempted_release ho hi hf (get?_markFailed config now job.1 job.2 error none s.table)
      (fun _ => rfl) fun row hrow => ?_
    obtain ⟨old, hold, -, hag⟩ := ho.claimed w job (mem_held_of_firing hf)
    obtain rfl : old = row := by simpa [hold] using hrow
    right
    refine ⟨rfl, ?_, fun hstatus => ?_⟩
    · show job.2.attempts + 1 = _
      rw [hag.attempts]
    · -- a row that goes on has not used up its retries
      have hon : exhausted job.2 = false := by
        by_contra hlast
        rw [Bool.not_eq_false] at hlast
        simp [afterFailure, hlast] at hstatus
      rw [← hag.attempts, ← hag.maxRetries]
      simpa [exhausted] using hon
  · exact hi.unmarked (unmarked_cancel i) fun _ => Iff.rfl
  · exact hi.unmarked (unmarked_reset now) fun _ => Iff.rfl

/-- While no job is reset that a worker holds, every next occurrence can be computed and no
repository call raises, every dispatch is accounted for. -/
theorem dispatches_accounted {x : Scheduler J n × List Occurrence}
    (h : Trace (dispatchRuns J n cronNext config)
      (Condition.ignoring (OwnershipKept cronNext config) Occurrence) as x) :
    Accounted cronNext config (OwnershipKept cronNext config) as x := by
  have hi : Owned x.1 ∧ Attempted x.1 x.2 := by
    refine Trace.induct (M := dispatchRuns J n cronNext config)
      (I := fun _ x => Owned x.1 ∧ Attempted x.1 x.2) ?_ ?_ as x h
    · rintro ⟨s, done⟩ ⟨hs, hdone⟩
      have hinit : s = { clock := s.clock, table := Table.empty } := hs
      simp only at hdone
      subst hdone
      rw [hinit]
      refine ⟨owned_init _, ?_⟩
      constructor <;> simp [Table.get?_empty]
    · rintro as x a y _ ⟨ho, hc⟩ hok hstep
      obtain ⟨hnext, hrecord⟩ := recording_next hstep
      rw [hrecord]
      exact ⟨owned_step ho hok.2.1 hnext, attempted_step ho hc hok hnext⟩
  obtain ⟨ho, ha⟩ := hi
  constructor
  · intro a t w job hok hstep hf hend
    exact incremented_of_end ho hok hstep hf hend
  · exact ha.bound
  · intro a t w job batch hok hstep hb
    exact batch_of_step hok hstep hb

def retriedOnce : NewJob Unit where
  jobName := "reconcile"
  kind := .once
  nextRunAt := 0
  payload := ()
  headers := ()
  maxRetries := some 2

def lastYear : NewJob Unit where
  jobName := "report"
  kind := .cron
  nextRunAt := 0
  cronExpr := some "0 0 1 1 * 0 2030"
  payload := ()
  headers := ()
  maxRetries := some 1

def onlyAtZero : String → ℤ → Except String ℤ := fun _ after =>
  if after < 0 then .ok 0 else .error "failed to find next date"

theorem dispatches_accounted_retried : ∃ x, Trace (dispatchRuns Unit 1 onlyAtZero {})
      (Condition.ignoring (OwnershipKept onlyAtZero {}) Occurrence)
      [.create "a" retriedOnce, .fetch 1 0 ["a"], .dispatch 0, .dispatchRaises 2 0 "RuntimeError: ",
        .fetch 30000002 0 ["a"], .dispatch 0, .dispatchReturns 30000003 0] x ∧
    x.2 = [("a", 0), ("a", 0)] ∧
    Accounted onlyAtZero {} (OwnershipKept onlyAtZero {})
      [.create "a" retriedOnce, .fetch 1 0 ["a"], .dispatch 0, .dispatchRaises 2 0 "RuntimeError: ",
        .fetch 30000002 0 ["a"], .dispatch 0, .dispatchReturns 30000003 0] x := by
  have h : (replay (dispatchRuns Unit 1 onlyAtZero {})
      (Condition.ignoring (OwnershipKept onlyAtZero {}) Occurrence) []
      [.create "a" retriedOnce, .fetch 1 0 ["a"], .dispatch 0, .dispatchRaises 2 0 "RuntimeError: ",
        .fetch 30000002 0 ["a"], .dispatch 0, .dispatchReturns 30000003 0]
      ({ clock := -1, table := Table.empty }, [])).map Prod.snd = some [("a", 0), ("a", 0)] := by
    decide +kernel
  obtain ⟨x, hrun, hx⟩ := Option.map_eq_some_iff.mp h
  have hinit : (dispatchRuns Unit 1 onlyAtZero {}).init
      ({ clock := -1, table := Table.empty }, []) :=
    ⟨init_scheduler onlyAtZero {} (-1), rfl⟩
  have htrace := trace_of_replay hinit hrun
  exact ⟨x, htrace, hx, dispatches_accounted htrace⟩

/-- The recurrence of the first job of a batch raises after its dispatch: the second job is
not dispatched, and after the reset the first one is dispatched a second time. -/
theorem recurrence_error_repeats_dispatch :
    ¬ ∀ (cronNext : String → ℤ → Except String ℤ) (config : ScheduleConfig)
      (as : List (Act Unit 1)) (x : Scheduler Unit 1 × List Occurrence),
      Trace (dispatchRuns Unit 1 cronNext config) (Condition.ignoring CrashFree Occurrence) as x →
      Accounted cronNext config CrashFree as x := by
  intro hclaim
  have h : (replay (dispatchRuns Unit 1 onlyAtZero {}) (Condition.ignoring CrashFree Occurrence) []
      [.create "a" lastYear, .create "b" retriedOnce, .fetch 1 0 ["a", "b"], .dispatch 0,
        .dispatchReturns 2 0, .resetStale 300000002, .fetch 300000003 0 ["a", "b"], .dispatch 0]
      ({ clock := -1, table := Table.empty }, [])).map
        (fun x => (x.2, (x.1.table.get? "a").map ScheduledJob.maxRetries)) =
      some ([("a", 0), ("a", 0)], some 1) := by
    decide +kernel
  obtain ⟨x, hrun, hx⟩ := Option.map_eq_some_iff.mp h
  obtain ⟨hdone, hmax⟩ := Prod.mk.inj hx
  obtain ⟨row, hrow, hretries⟩ := Option.map_eq_some_iff.mp hmax
  have hinit : (dispatchRuns Unit 1 onlyAtZero {}).init
      ({ clock := -1, table := Table.empty }, []) :=
    ⟨init_scheduler onlyAtZero {} (-1), rfl⟩
  have hbound := (hclaim _ _ _ x (trace_of_replay hinit hrun)).bounded "a" row 0 hrow
  rw [hdone, hretries] at hbound
  exact absurd hbound (by decide)

end Taas.ScheduleAccounting
