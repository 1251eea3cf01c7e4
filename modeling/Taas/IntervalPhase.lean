import Mathlib.Algebra.Ring.Divisibility.Basic
import Taas.ScheduleOwner

/-!
The phase of interval jobs. A success moves `next_run_at` by the interval, from the time that the
occurrence was due. A failure sets it to the time of the failure and the backoff, and the success
of the retry then moves on from there.
-/
namespace Taas.IntervalPhase

open Python Sql Schedule Transition SchedulePoller ScheduleOwner

variable {J : Type} {n : ℕ}

/-- What is known of a dispatch that ended: a failure within the retry budget and its time, or a
success, the time it was due and the attempts before it, and the `next_run_at` set after it. -/
inductive Outcome
  | retried (id : String) (failedAt : ℤ)
  | succeeded (id : String) (dueAt attempts nextRunAt : ℤ)
  deriving DecidableEq

def outcomes (cronNext : String → ℤ → Except String ℤ) (s : Scheduler J n) :
    Act J n → List Outcome
  | .dispatchReturns now w =>
    match (s.worker w).firing with
    | some job =>
      match nextRunOf cronNext job.2 with
      | .ok nextRun =>
        [.succeeded job.1 job.2.nextRunAt job.2.attempts
          (afterSuccess now job.2 nextRun job.2).nextRunAt]
      | .error _ => []
    | none => []
  | .dispatchRaises now w _ =>
    match (s.worker w).firing with
    | some job => if exhausted job.2 then [] else [.retried job.1 now]
    | none => []
  | _ => []

abbrev outcomeRuns (J : Type) (n : ℕ) (cronNext : String → ℤ → Except String ℤ)
    (config : ScheduleConfig) : System (Scheduler J n × List Outcome) (Act J n) :=
  (scheduler J n cronNext config).recording (outcomes cronNext)

def IntervalJob (as : List (Act J n)) (id : String) (m : NewJob J) (interval : ℤ) : Prop :=
  Act.create id m ∈ as ∧ m.kind = .interval ∧ m.intervalSeconds = some interval

/-- Whole intervals lie between the first run and the time. -/
def OnPhase (m : NewJob J) (interval time : ℤ) : Prop := seconds interval ∣ time - m.nextRunAt

/-- Every `next_run_at` that is set after a success is on the phase of its job. -/
def PhaseKept (as : List (Act J n)) (log : List Outcome) : Prop :=
  ∀ id m interval, IntervalJob as id m interval → ∀ dueAt attempts nextRunAt,
    .succeeded id dueAt attempts nextRunAt ∈ log → OnPhase m interval nextRunAt

/-- Every failure whose retry succeeds lies its backoff before a time on the phase of its job. -/
def RetriesOnPhase (config : ScheduleConfig) (as : List (Act J n)) (log : List Outcome) : Prop :=
  ∀ id m interval, IntervalJob as id m interval → ∀ failedAt, .retried id failedAt ∈ log →
    (∃ attempts nextRunAt, 0 < attempts ∧
      .succeeded id (failedAt + config.retryBackoff) attempts nextRunAt ∈ log) →
    OnPhase m interval (failedAt + config.retryBackoff)

variable {cronNext : String → ℤ → Except String ℤ} {config : ScheduleConfig}
variable {s s' : Scheduler J n} {a : Act J n} {as bs : List (Act J n)} {w v : Fin n}
variable {id : String} {m : NewJob J} {interval now : ℤ} {row row' job : ScheduledJob J}
variable {log log' : List Outcome} {nextRun : Option ℤ}

theorem RetriesOnPhase.mono (h : RetriesOnPhase config bs log') (has : ∀ b ∈ as, b ∈ bs)
    (hlog : ∀ o ∈ log, o ∈ log') : RetriesOnPhase config as log := by
  intro id m interval hjob failedAt hfailed hsucceeded
  obtain ⟨attempts, nextRunAt, hpos, hmem⟩ := hsucceeded
  exact h id m interval ⟨has _ hjob.1, hjob.2⟩ failedAt (hlog _ hfailed)
    ⟨attempts, nextRunAt, hpos, hlog _ hmem⟩

theorem row_cases (hstep : next cronNext config s a = some s')
    (hrow : s'.table.get? id = some row') :
    (∃ m, a = .create id m ∧ s.table.get? id = none ∧ row' = m.job config) ∨
    ∃ row, s.table.get? id = some row ∧
      (row' = row ∨
        (∃ status claimedAt, row.status ≠ .failed ∧
          row' = { row with status := status, claimedAt := claimedAt }) ∨
        (∃ now w job nextRun, a = .dispatchReturns now w ∧ (s.worker w).firing = some (id, job) ∧
          nextRunOf cronNext job = .ok nextRun ∧ row' = afterSuccess now job nextRun row) ∨
        ∃ now w error job, a = .dispatchRaises now w error ∧
          (s.worker w).firing = some (id, job) ∧
          row' = afterFailure config now job error none row) := by
  rcases next_cases hstep with ⟨i, m, t, rfl, ht, rfl⟩ | ⟨now, w, ids, rfl, _, hb, hf, hids, rfl⟩ |
      ⟨w, job, batch, rfl, hb, hf, rfl⟩ | ⟨now, w, ⟨i, job⟩, nextRun, rfl, _, hf, hn, rfl⟩ |
      ⟨now, w, job, e, rfl, _, hf, he, rfl⟩ | ⟨now, w, error, ⟨i, job⟩, rfl, _, hf, rfl⟩ |
      ⟨w, rfl, rfl⟩ | ⟨i, rfl, rfl⟩ | ⟨now, rfl, _, rfl⟩
  · obtain ⟨hnew, hget⟩ := Table.insert_eq_some ht
    change t.get? id = some row' at hrow
    rw [hget] at hrow
    by_cases hid : id = i
    · subst hid
      rw [if_pos rfl, Option.some.injEq] at hrow
      exact Or.inl ⟨m, rfl, hnew, hrow.symm⟩
    · rw [if_neg hid] at hrow
      exact Or.inr ⟨row', hrow, Or.inl rfl⟩
  · change (fetchDueBatch now ids s.table).get? id = some row' at hrow
    rw [get?_fetchDueBatch] at hrow
    obtain ⟨row, hget, rfl⟩ := Option.map_eq_some_iff.mp hrow
    refine Or.inr ⟨row, hget, ?_⟩
    by_cases hid : id ∈ ids
    · obtain ⟨row'', hget', hs, -⟩ := hids.row hid
      obtain rfl : row = row'' := by simpa [hget] using hget'
      rw [if_pos hid]
      exact Or.inr (Or.inl ⟨_, _, by simp [hs], rfl⟩)
    · rw [if_neg hid]
      exact Or.inl rfl
  · exact Or.inr ⟨row', hrow, Or.inl rfl⟩
  · change (markSucceeded now i job nextRun s.table).get? id = some row' at hrow
    rw [get?_markSucceeded] at hrow
    obtain ⟨row, hget, rfl⟩ := Option.map_eq_some_iff.mp hrow
    refine Or.inr ⟨row, hget, ?_⟩
    by_cases hid : id = i
    · subst hid
      rw [if_pos rfl]
      exact Or.inr (Or.inr (Or.inl ⟨now, w, job, nextRun, rfl, hf, hn, rfl⟩))
    · rw [if_neg hid]
      exact Or.inl rfl
  · exact Or.inr ⟨row', hrow, Or.inl rfl⟩
  · change (markFailed config now i job error none s.table).get? id = some row' at hrow
    rw [get?_markFailed] at hrow
    obtain ⟨row, hget, rfl⟩ := Option.map_eq_some_iff.mp hrow
    refine Or.inr ⟨row, hget, ?_⟩
    by_cases hid : id = i
    · subst hid
      rw [if_pos rfl]
      exact Or.inr (Or.inr (Or.inr ⟨now, w, error, job, rfl, hf, rfl⟩))
    · rw [if_neg hid]
      exact Or.inl rfl
  · exact Or.inr ⟨row', hrow, Or.inl rfl⟩
  · change (Schedule.cancel i s.table).get? id = some row' at hrow
    rw [get?_cancel] at hrow
    obtain ⟨row, hget, rfl⟩ := Option.map_eq_some_iff.mp hrow
    refine Or.inr ⟨row, hget, ?_⟩
    split
    · rename_i hcancel
      exact Or.inr (Or.inl ⟨_, _, by rcases hcancel.2 with h | h <;> simp [h], rfl⟩)
    · exact Or.inl rfl
  · change (resetStaleRunning config none now s.table).1.get? id = some row' at hrow
    rw [get?_resetStaleRunning] at hrow
    obtain ⟨row, hget, rfl⟩ := Option.map_eq_some_iff.mp hrow
    refine Or.inr ⟨row, hget, ?_⟩
    split
    · rename_i hstale
      simp only [staleRunning, decide_eq_true_eq] at hstale
      exact Or.inr (Or.inl ⟨_, _, by simp [hstale.1], rfl⟩)
    · exact Or.inl rfl

theorem row_stays (hstep : next cronNext config s a = some s') (hrow : s.table.get? id = some row) :
    ∃ row', s'.table.get? id = some row' := by
  rcases next_cases hstep with ⟨i, m, t, rfl, ht, rfl⟩ | ⟨_, _, _, _, _, _, _, _, rfl⟩ |
      ⟨_, _, _, _, _, _, rfl⟩ | ⟨now, _, job, nextRun, _, _, _, _, rfl⟩ |
      ⟨_, _, _, _, _, _, _, _, rfl⟩ | ⟨now, _, error, job, _, _, _, rfl⟩ | ⟨_, _, rfl⟩ |
      ⟨_, _, rfl⟩ | ⟨_, _, _, rfl⟩
  · obtain ⟨hnew, hget⟩ := Table.insert_eq_some ht
    have hne : id ≠ i := by
      rintro rfl
      simp [hrow] at hnew
    exact ⟨row, by simp [hget, hne, hrow]⟩
  · exact ⟨_, by simp [get?_fetchDueBatch, hrow]; rfl⟩
  · exact ⟨row, hrow⟩
  · exact ⟨_, by simp [get?_markSucceeded, hrow]; rfl⟩
  · exact ⟨row, hrow⟩
  · exact ⟨_, by simp [get?_markFailed, hrow]; rfl⟩
  · exact ⟨row, hrow⟩
  · exact ⟨_, by simp [get?_cancel, hrow]; rfl⟩
  · exact ⟨_, by simp [get?_resetStaleRunning, hrow]; rfl⟩

theorem outcome_cases {o : Outcome} (ho : o ∈ outcomes cronNext s a) :
    (∃ now w error i job, a = .dispatchRaises now w error ∧ (s.worker w).firing = some (i, job) ∧
      exhausted job = false ∧ o = .retried i now) ∨
    ∃ now w i job nextRun, a = .dispatchReturns now w ∧ (s.worker w).firing = some (i, job) ∧
      nextRunOf cronNext job = .ok nextRun ∧
      o = .succeeded i job.nextRunAt job.attempts (afterSuccess now job nextRun job).nextRunAt := by
  cases a with
  | dispatchReturns now w =>
    simp only [outcomes] at ho
    split at ho
    · rename_i job hf
      split at ho
      · rename_i nextRun hn
        exact Or.inr ⟨now, w, job.1, job.2, nextRun, rfl, hf, hn, by simpa using ho⟩
      · cases ho
    · cases ho
  | dispatchRaises now w error =>
    simp only [outcomes] at ho
    split at ho
    · rename_i job hf
      split at ho
      · cases ho
      · rename_i hleft
        exact Or.inl ⟨now, w, error, job.1, job.2, rfl, hf, by simpa using hleft,
          by simpa using ho⟩
    · cases ho
  | _ => cases ho

/-- A row or a loaded copy of an interval job. Unless it has failed for good, it is due on the
phase, or at the time of a retry. -/
structure Timed (config : ScheduleConfig) (as : List (Act J n)) (log : List Outcome) (id : String)
    (m : NewJob J) (interval : ℤ) (job : ScheduledJob J) : Prop where
  kind : job.kind = .interval
  intervalSeconds : job.intervalSeconds = some interval
  attempts : 0 ≤ job.attempts
  fresh : job.status ≠ .failed → job.attempts = 0 → RetriesOnPhase config as log →
    OnPhase m interval job.nextRunAt
  retried : job.status ≠ .failed → 0 < job.attempts →
    ∃ failedAt, .retried id failedAt ∈ log ∧ job.nextRunAt = failedAt + config.retryBackoff

theorem Timed.mono (h : Timed config as log id m interval job) (has : ∀ b ∈ as, b ∈ bs)
    (hlog : ∀ o ∈ log, o ∈ log') : Timed config bs log' id m interval job where
  kind := h.kind
  intervalSeconds := h.intervalSeconds
  attempts := h.attempts
  fresh hs hattempts hphase := h.fresh hs hattempts (hphase.mono has hlog)
  retried hs hattempts := by
    obtain ⟨failedAt, hmem, heq⟩ := h.retried hs hattempts
    exact ⟨failedAt, hlog _ hmem, heq⟩

theorem Timed.restatus (h : Timed config as log id m interval job) (hs : job.status ≠ .failed)
    (status : ScheduleJobStatus) (claimedAt : Option ℤ) :
    Timed config as log id m interval { job with status := status, claimedAt := claimedAt } where
  kind := h.kind
  intervalSeconds := h.intervalSeconds
  attempts := h.attempts
  fresh _ := h.fresh hs
  retried _ := h.retried hs

theorem timed_create (hjob : m.kind = .interval ∧ m.intervalSeconds = some interval) :
    Timed config as log id m interval (m.job config) where
  kind := hjob.1
  intervalSeconds := hjob.2
  attempts := le_rfl
  fresh _ _ _ := by
    show seconds interval ∣ m.nextRunAt - m.nextRunAt
    simp
  retried _ hattempts := absurd hattempts (lt_irrefl 0)

/-- A success sets a whole number of intervals after the time it was due. -/
theorem dvd_afterSuccess (hkind : job.kind = .interval)
    (hinterval : job.intervalSeconds = some interval) (hn : nextRunOf cronNext job = .ok nextRun) :
    seconds interval ∣ (afterSuccess now job nextRun row).nextRunAt - job.nextRunAt := by
  have hnext : nextRun = some (job.nextRunAt + seconds interval) := by
    rw [nextRunOf, hkind, hinterval] at hn
    simp only [computeNextRun] at hn
    split at hn
    · cases hn
    · exact (Except.ok.inj hn).symm
  unfold afterSuccess
  split
  · simp
  · simp [hnext]

theorem Timed.due (h : Timed config as log id m interval job) (hs : job.status ≠ .failed)
    (hjob : IntervalJob bs id m interval) (has : ∀ b ∈ as, b ∈ bs) (hlog : ∀ o ∈ log, o ∈ log')
    {nextRunAt : ℤ} (hmem : .succeeded id job.nextRunAt job.attempts nextRunAt ∈ log')
    (hphase : RetriesOnPhase config bs log') : OnPhase m interval job.nextRunAt := by
  rcases h.attempts.eq_or_lt with hzero | hpos
  · exact h.fresh hs hzero.symm (hphase.mono has hlog)
  · obtain ⟨failedAt, hfailed, heq⟩ := h.retried hs hpos
    rw [heq] at hmem ⊢
    exact hphase id m interval hjob failedAt (hlog _ hfailed) ⟨_, _, hpos, hmem⟩

theorem Timed.afterSuccess (hrow : Timed config as log id m interval row)
    (hdue : RetriesOnPhase config as log → OnPhase m interval job.nextRunAt)
    (hdvd : seconds interval ∣ (afterSuccess now job nextRun row).nextRunAt - job.nextRunAt) :
    Timed config as log id m interval (afterSuccess now job nextRun row) where
  kind := hrow.kind
  intervalSeconds := hrow.intervalSeconds
  attempts := le_rfl
  fresh _ _ hphase := by
    simpa [OnPhase] using dvd_add hdvd (hdue hphase)
  retried _ hattempts := absurd hattempts (lt_irrefl 0)

theorem Timed.afterFailure {error : String} (hrow : Timed config as log id m interval row)
    (hattempts : 0 ≤ job.attempts) (hlog : exhausted job = false → .retried id now ∈ log) :
    Timed config as log id m interval (afterFailure config now job error none row) where
  kind := hrow.kind
  intervalSeconds := hrow.intervalSeconds
  attempts := by
    show 0 ≤ job.attempts + 1
    omega
  fresh _ hzero := by
    have hzero' : job.attempts + 1 = 0 := hzero
    omega
  retried hs _ := by
    have hleft : exhausted job = false := by
      by_contra h
      exact hs (if_pos (by simpa using h))
    exact ⟨now, hlog hleft, if_neg (by simp [hleft])⟩

structure Phased (config : ScheduleConfig) (as : List (Act J n))
    (x : Scheduler J n × List Outcome) : Prop where
  created : ∀ id m, .create id m ∈ as → ∃ row, x.1.table.get? id = some row
  claimed : ∀ w, ∀ i ∈ held (x.1.worker w),
    i.2.status ≠ .failed ∧ ∃ row, x.1.table.get? i.1 = some row
  recorded : ∀ id dueAt attempts nextRunAt, .succeeded id dueAt attempts nextRunAt ∈ x.2 →
    ∃ row, x.1.table.get? id = some row
  rows : ∀ id m interval, IntervalJob as id m interval → ∀ row, x.1.table.get? id = some row →
    Timed config as x.2 id m interval row
  copies : ∀ id m interval, IntervalJob as id m interval → ∀ w job,
    (id, job) ∈ held (x.1.worker w) → Timed config as x.2 id m interval job
  successes : ∀ id m interval, IntervalJob as id m interval → ∀ dueAt attempts nextRunAt,
    .succeeded id dueAt attempts nextRunAt ∈ x.2 → seconds interval ∣ nextRunAt - dueAt ∧
      (RetriesOnPhase config as x.2 → OnPhase m interval dueAt)

theorem phased_init (clock : ℤ) :
    Phased config [] (({ clock := clock, table := Table.empty } : Scheduler J n), []) where
  created _ _ h := by cases h
  claimed w i hi := by simp [held] at hi
  recorded _ _ _ _ h := by cases h
  rows _ _ _ h := by cases h.1
  copies _ _ _ h := by cases h.1
  successes _ _ _ h := by cases h.1

/-- A job of the run is the one that this step creates, or an earlier one that is not created
again. -/
theorem intervalJob_cases (hstep : next cronNext config s a = some s')
    (hjob : IntervalJob (as ++ [a]) id m interval) :
    IntervalJob as id m interval ∨ a = .create id m ∧ s.table.get? id = none := by
  obtain ⟨hmem, hkind⟩ := hjob
  rcases List.mem_append.mp hmem with hmem | hmem
  · exact Or.inl ⟨hmem, hkind⟩
  · obtain rfl : Act.create id m = a := by simpa using hmem
    obtain ⟨t, ht, -⟩ := Option.map_eq_some_iff.mp hstep
    exact Or.inr ⟨rfl, (Table.insert_eq_some ht).1⟩

theorem outcome_step (h : Phased config as (s, log)) (hjob : IntervalJob as id m interval)
    {dueAt attempts nextRunAt : ℤ}
    (hmem : .succeeded id dueAt attempts nextRunAt ∈ outcomes cronNext s a) :
    seconds interval ∣ nextRunAt - dueAt ∧
      (RetriesOnPhase config (as ++ [a]) (log ++ outcomes cronNext s a) →
        OnPhase m interval dueAt) := by
  rcases outcome_cases hmem with ⟨_, _, _, _, _, _, _, _, heq⟩ |
      ⟨now, w, i, job, nextRun, _, hf, hn, heq⟩
  · cases heq
  · cases heq
    have hheld := mem_held_of_firing hf
    have hcopy := h.copies id m interval hjob w job hheld
    refine ⟨dvd_afterSuccess hcopy.kind hcopy.intervalSeconds hn, fun hphase => ?_⟩
    exact hcopy.due (h.claimed w _ hheld).1 ⟨List.mem_append_left _ hjob.1, hjob.2⟩
      (fun _ => List.mem_append_left _) (fun _ => List.mem_append_left _)
      (List.mem_append_right _ hmem) hphase

theorem timed_step (h : Phased config as (s, log)) (hstep : next cronNext config s a = some s')
    (hjob : IntervalJob as id m interval) (hrow' : s'.table.get? id = some row') :
    Timed config (as ++ [a]) (log ++ outcomes cronNext s a) id m interval row' := by
  have hmono : ∀ {job}, Timed config as log id m interval job →
      Timed config (as ++ [a]) (log ++ outcomes cronNext s a) id m interval job :=
    fun ht => ht.mono (fun _ => List.mem_append_left _) (fun _ => List.mem_append_left _)
  obtain ⟨old, hold⟩ := h.created id m hjob.1
  rcases row_cases hstep hrow' with ⟨_, _, hnew, _⟩ | ⟨row, hrow, hcases⟩
  · simp [hold] at hnew
  have ht := h.rows id m interval hjob row hrow
  rcases hcases with rfl | ⟨status, claimedAt, hs, rfl⟩ | ⟨now, w, job, nextRun, rfl, hf, hn, rfl⟩ |
      ⟨now, w, error, job, rfl, hf, rfl⟩
  · exact hmono ht
  · exact (hmono ht).restatus hs status claimedAt
  · have hcopy := h.copies id m interval hjob w job (mem_held_of_firing hf)
    have hdvd : seconds interval ∣ (afterSuccess now job nextRun row).nextRunAt - job.nextRunAt :=
      dvd_afterSuccess hcopy.kind hcopy.intervalSeconds hn
    have hmem : .succeeded id job.nextRunAt job.attempts
        (afterSuccess now job nextRun job).nextRunAt ∈
        outcomes cronNext s (.dispatchReturns now w) := by
      simp [outcomes, hf, hn]
    exact (hmono ht).afterSuccess (outcome_step h hjob hmem).2 hdvd
  · have hcopy := h.copies id m interval hjob w job (mem_held_of_firing hf)
    refine (hmono ht).afterFailure hcopy.attempts fun hleft => List.mem_append_right _ ?_
    simp [outcomes, hf, hleft]

theorem phased_step (h : Phased config as (s, log)) (hstep : next cronNext config s a = some s') :
    Phased config (as ++ [a]) (s', log ++ outcomes cronNext s a) := by
  have hstays : ∀ {id row}, s.table.get? id = some row → ∃ row', s'.table.get? id = some row' :=
    fun hrow => row_stays hstep hrow
  have hknown : ∀ w, ∀ i ∈ held (s'.worker w),
      i.2.status ≠ .failed ∧ ∃ row, s.table.get? i.1 = some row := by
    intro w i hi
    rcases held_cases hstep hi with hi | ⟨now, ids, row, rfl, hrow, -, -, heq⟩
    · exact h.claimed w i hi
    · exact ⟨by simp [heq], row, hrow⟩
  have hrecorded : ∀ id dueAt attempts nextRunAt,
      .succeeded id dueAt attempts nextRunAt ∈ log ++ outcomes cronNext s a →
      ∃ row, s.table.get? id = some row := by
    intro id dueAt attempts nextRunAt hmem
    rcases List.mem_append.mp hmem with hmem | hmem
    · exact h.recorded id dueAt attempts nextRunAt hmem
    · rcases outcome_cases hmem with ⟨_, _, _, _, _, _, _, _, heq⟩ |
          ⟨_, w, i, job, _, _, hf, _, heq⟩
      · cases heq
      · cases heq
        exact (h.claimed w _ (mem_held_of_firing hf)).2
  constructor
  · intro id m hmem
    rcases List.mem_append.mp hmem with hmem | hmem
    · obtain ⟨row, hrow⟩ := h.created id m hmem
      exact hstays hrow
    · obtain rfl : Act.create id m = a := by simpa using hmem
      obtain ⟨t, ht, rfl⟩ := Option.map_eq_some_iff.mp hstep
      exact ⟨m.job config, by simp [(Table.insert_eq_some ht).2]⟩
  · intro w i hi
    obtain ⟨hs, row, hrow⟩ := hknown w i hi
    exact ⟨hs, hstays hrow⟩
  · intro id dueAt attempts nextRunAt hmem
    obtain ⟨row, hrow⟩ := hrecorded id dueAt attempts nextRunAt hmem
    exact hstays hrow
  · intro id m interval hjob row' hrow'
    rcases intervalJob_cases hstep hjob with hold | ⟨rfl, hnew⟩
    · exact timed_step h hstep hold hrow'
    · rcases row_cases hstep hrow' with ⟨m', heq, -, rfl⟩ | ⟨row, hrow, -⟩
      · cases heq
        exact timed_create hjob.2
      · simp [hnew] at hrow
  · intro id m interval hjob w job hheld
    rcases intervalJob_cases hstep hjob with hold | ⟨rfl, hnew⟩
    · have hmono : ∀ {job}, Timed config as log id m interval job →
          Timed config (as ++ [a]) (log ++ outcomes cronNext s a) id m interval job :=
        fun ht => ht.mono (fun _ => List.mem_append_left _) (fun _ => List.mem_append_left _)
      rcases held_cases hstep hheld with hheld | ⟨now, ids, row, rfl, hrow, hs, -, heq⟩
      · exact hmono (h.copies id m interval hold w job hheld)
      · obtain rfl : job = _ := heq
        exact (hmono (h.rows id m interval hold row hrow)).restatus (by simp [hs]) _ _
    · obtain ⟨-, row, hrow⟩ := hknown w _ hheld
      simp [hnew] at hrow
  · intro id m interval hjob dueAt attempts nextRunAt hmem
    rcases intervalJob_cases hstep hjob with hold | ⟨rfl, hnew⟩
    · rcases List.mem_append.mp hmem with hmem | hmem
      · obtain ⟨hdvd, hdue⟩ := h.successes id m interval hold dueAt attempts nextRunAt hmem
        refine ⟨hdvd, fun hphase => hdue ?_⟩
        exact hphase.mono (fun _ => List.mem_append_left _) (fun _ => List.mem_append_left _)
      · exact outcome_step h hold hmem
    · obtain ⟨row, hrow⟩ := hrecorded id dueAt attempts nextRunAt hmem
      simp [hnew] at hrow

theorem phased_of_trace {x : Scheduler J n × List Outcome}
    (h : Trace (outcomeRuns J n cronNext config) free as x) : Phased config as x := by
  refine Trace.induct (M := outcomeRuns J n cronNext config) (I := Phased config) ?_ ?_ as x h
  · intro x hx
    obtain ⟨hinit, hlog⟩ := hx
    have hs : x.1 = { clock := x.1.clock, table := Table.empty } := hinit
    have hx : x = ({ clock := x.1.clock, table := Table.empty }, []) := Prod.ext hs hlog
    rw [hx]
    exact phased_init _
  · intro as x a y _ hx _ hstep
    obtain ⟨hnext, hlog⟩ := recording_next hstep
    have hy : y = (y.1, x.2 ++ outcomes cronNext x.1 a) := Prod.ext rfl hlog
    rw [hy]
    exact phased_step hx hnext

/-- A run keeps the phase of its interval jobs exactly when its retries that succeed are on it. -/
theorem interval_phase_iff {x : Scheduler J n × List Outcome}
    (h : Trace (outcomeRuns J n cronNext config) free as x) :
    PhaseKept as x.2 ↔ RetriesOnPhase config as x.2 := by
  have hphased := phased_of_trace h
  constructor
  · intro hkept id m interval hjob failedAt _ hretry
    obtain ⟨attempts, nextRunAt, -, hmem⟩ := hretry
    obtain ⟨hdvd, -⟩ := hphased.successes id m interval hjob _ _ _ hmem
    have hnext := hkept id m interval hjob _ _ _ hmem
    simpa [OnPhase] using dvd_sub hnext hdvd
  · intro hphase id m interval hjob dueAt attempts nextRunAt hmem
    obtain ⟨hdvd, hdue⟩ := hphased.successes id m interval hjob _ _ _ hmem
    simpa [OnPhase] using dvd_add hdvd (hdue hphase)

def everyMinute : NewJob Unit where
  jobName := "reconcile"
  kind := .interval
  nextRunAt := 0
  intervalSeconds := some 60
  payload := ()
  headers := ()

def retriedAt (w : Fin 1) (failedAt : ℤ) : List (Act Unit 1) :=
  [.create "a" everyMinute, .fetch 0 w ["a"], .dispatch w,
    .dispatchRaises failedAt w "RuntimeError: ", .fetch (failedAt + 30000000) w ["a"], .dispatch w,
    .dispatchReturns (failedAt + 30000000) w]

/-- A failure after 30 seconds is retried with the next minute. -/
theorem interval_phase_half_minute : ∃ x,
    Trace (outcomeRuns Unit 1 noCron {}) free (retriedAt 0 30000000) x ∧
    x.2 = [.retried "a" 30000000, .succeeded "a" 60000000 1 120000000] ∧
    (PhaseKept (retriedAt 0 30000000) x.2 ↔ RetriesOnPhase {} (retriedAt 0 30000000) x.2) := by
  have h : (replay (outcomeRuns Unit 1 noCron {}) free [] (retriedAt 0 30000000)
      ({ clock := 0, table := Table.empty }, [])).map Prod.snd =
      some [.retried "a" 30000000, .succeeded "a" 60000000 1 120000000] := by
    decide +kernel
  obtain ⟨x, hrun, hx⟩ := Option.map_eq_some_iff.mp h
  have hinit : (outcomeRuns Unit 1 noCron {}).init ({ clock := 0, table := Table.empty }, []) :=
    ⟨init_scheduler noCron {} 0, rfl⟩
  have htrace := trace_of_replay hinit hrun
  exact ⟨x, htrace, hx, interval_phase_iff htrace⟩

/-- A failure at once is retried after 30 seconds, and the job then runs at the half minutes. -/
theorem retry_shifts_phase :
    ¬ ∀ (cronNext : String → ℤ → Except String ℤ) (config : ScheduleConfig)
      (as : List (Act Unit 1)) (x : Scheduler Unit 1 × List Outcome),
      Trace (outcomeRuns Unit 1 cronNext config) free as x → PhaseKept as x.2 := by
  intro hclaim
  have h : (replay (outcomeRuns Unit 1 noCron {}) free [] (retriedAt 0 0)
      ({ clock := 0, table := Table.empty }, [])).map Prod.snd =
      some [.retried "a" 0, .succeeded "a" 30000000 1 90000000] := by
    decide +kernel
  obtain ⟨x, hrun, hx⟩ := Option.map_eq_some_iff.mp h
  have hinit : (outcomeRuns Unit 1 noCron {}).init ({ clock := 0, table := Table.empty }, []) :=
    ⟨init_scheduler noCron {} 0, rfl⟩
  have hkept := hclaim _ _ _ x (trace_of_replay hinit hrun)
  have hjob : IntervalJob (retriedAt 0 0) "a" everyMinute 60 := ⟨by simp [retriedAt], rfl, rfl⟩
  have hphase := hkept "a" everyMinute 60 hjob 30000000 1 90000000 (by simp [hx])
  have hnot : ¬ OnPhase everyMinute 60 90000000 := by
    unfold OnPhase
    decide
  exact hnot hphase

end Taas.IntervalPhase
