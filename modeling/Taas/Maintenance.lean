import Taas.SchedulePoller

/-!
Processes that define the outbox maintenance job when they start, beside the scheduler's
workers. Each process looks for an active job and inserts one in the same transaction. The
transactions run under READ COMMITTED and the table has no unique index on the name, so a
look-up sees what is committed, and an insert is seen once its own transaction commits.
-/
namespace Taas.Maintenance

open Python Sql Schedule Transition SchedulePoller

variable {P : Type} [DecidableEq P] {n : ℕ}

def outboxMaintenanceJob : String := "outbox_maintenance"

def defaultMaintenanceCron : String := "0 2 * * *"

def testMaintenanceCron : String := "*/5 * * * *"

/-- JSON objects with integer values. -/
abbrev Payload := List (String × ℤ)

/-- What a process reads from its environment variables. -/
structure Env where
  maintenanceEnabled : Bool := true
  maintenanceTestMode : Bool := false
  maintenanceCron : String := defaultMaintenanceCron
  outboxPartitionLookaheadWeeks : ℤ := 4
  outboxPartitionRetentionWeeks : ℤ := 12
  deriving DecidableEq

def maintenanceCron (env : Env) : String :=
  if env.maintenanceTestMode then testMaintenanceCron else env.maintenanceCron

def maintenancePayload (env : Env) : Payload :=
  [("lookahead_weeks", env.outboxPartitionLookaheadWeeks),
    ("retention_weeks", env.outboxPartitionRetentionWeeks)]

/-- Where a process is in `define_maintenance_jobs`. `absent` follows a look-up that found no
active job; in `inserted` the new row is flushed and not committed. -/
inductive Phase
  | idle
  | probed (env : Env)
  | absent (env : Env)
  | inserted (id : String) (m : NewJob Payload)

structure Startup (P : Type) (n : ℕ) where
  scheduler : Scheduler Payload n
  process : P → Phase := fun _ => .idle

/-- A start, which may be a restart, with the result of the `is_available` probe; the steps of
a process after it; its end at any point; and a step of the scheduler. -/
inductive Act (P : Type) (n : ℕ)
  | start (q : P) (env : Env) (available : Bool)
  | lookUp (q : P)
  | insert (now : ℤ) (q : P) (id : String)
  | commit (q : P)
  | stop (q : P)
  | poller (a : SchedulePoller.Act Payload n)

def Startup.setPhase (s : Startup P n) (q : P) (x : Phase) : Startup P n :=
  { s with process := Function.update s.process q x }

/-- The request that `define_maintenance_jobs` sends to `schedule_cron`. -/
def maintenanceRequest (env : Env) : CronRequest Payload where
  jobName := outboxMaintenanceJob
  cronExpr := maintenanceCron env
  payload := maintenancePayload env
  headers := []

/-- A process that stops or raises rolls its transaction back. No other caller creates jobs. -/
def next (cronNext : String → ℤ → Except String ℤ) (config : ScheduleConfig)
    (s : Startup P n) : Act P n → Option (Startup P n)
  | .start q env available =>
    some (s.setPhase q (if env.maintenanceEnabled ∧ available then .probed env else .idle))
  | .lookUp q =>
    match s.process q with
    | .probed env =>
      some (s.setPhase q
        (if existsActive outboxMaintenanceJob s.scheduler.table then .idle else .absent env))
    | _ => none
  | .insert now q id =>
    match s.process q with
    | .absent env =>
      if s.scheduler.clock ≤ now then
        match scheduleCron cronNext now (maintenanceRequest env) with
        | .ok m => some { s.setPhase q (.inserted id m) with
            scheduler := { s.scheduler with clock := now } }
        | .error _ => some { s.setPhase q .idle with
            scheduler := { s.scheduler with clock := now } }
      else none
    | _ => none
  | .commit q =>
    match s.process q with
    | .inserted id m => (s.scheduler.table.insert id (m.job config)).map fun t =>
        { s.setPhase q .idle with scheduler := { s.scheduler with table := t } }
    | _ => none
  | .stop q => some (s.setPhase q .idle)
  | .poller (.create _ _) => none
  | .poller a => (SchedulePoller.next cronNext config s.scheduler a).map fun x =>
      { s with scheduler := x }

/-- Any number of processes and `n` workers on a table that is empty at first. -/
def maintenance (P : Type) [DecidableEq P] (n : ℕ) (cronNext : String → ℤ → Except String ℤ)
    (config : ScheduleConfig) : System (Startup P n) (Act P n) where
  init s := s = { scheduler := { clock := s.scheduler.clock, table := Table.empty } }
  next := next cronNext config

/-- At most one job of each name is SCHEDULED or RUNNING. -/
def UniqueActive (t : JobTable Payload) : Prop :=
  ∀ id id' job job', t.get? id = some job → t.get? id' = some job' → active job →
    active job' → job.jobName = job'.jobName → id = id'

/-- No job of the name has become active between a process's look-up and its commit, and a
mark that brings a finished job back to SCHEDULED finds no active job of its name. -/
def Unraced (cronNext : String → ℤ → Except String ℤ) : Condition (Startup P n) (Act P n) :=
  fun _ s a =>
    match a with
    | .commit q =>
      match s.process q with
      | .inserted _ m => existsActive m.jobName s.scheduler.table = false
      | _ => True
    | .poller (.dispatchReturns _ w) => ∀ job ∈ (s.scheduler.worker w).firing,
        ∀ row ∈ s.scheduler.table.get? job.1, row.status.terminal →
        match nextRunOf cronNext job.2 with
        | .ok nextRun => lastFire job.2 nextRun ∨ existsActive row.jobName s.scheduler.table = false
        | .error _ => True
    | .poller (.dispatchRaises _ w _) => ∀ job ∈ (s.scheduler.worker w).firing,
        ∀ row ∈ s.scheduler.table.get? job.1, row.status.terminal →
        exhausted job.2 ∨ existsActive row.jobName s.scheduler.table = false
    | _ => True

instance (cronNext : String → ℤ → Except String ℤ) (as : List (Act P n)) (s : Startup P n)
    (a : Act P n) : Decidable (Unraced cronNext as s a) := by
  unfold Unraced
  split
  · split <;> infer_instance
  · have (job : String × ScheduledJob Payload) (row : ScheduledJob Payload) : Decidable
        (match nextRunOf cronNext job.2 with
        | .ok nextRun => lastFire job.2 nextRun = true ∨
            existsActive row.jobName s.scheduler.table = false
        | .error _ => True) := by
      split <;> infer_instance
    infer_instance
  · infer_instance
  · infer_instance

variable {cronNext : String → ℤ → Except String ℤ} {config : ScheduleConfig}
variable {s s' : Startup P n} {a : Act P n} {as : List (Act P n)}
variable {t t' : JobTable Payload} {id : String} {job : ScheduledJob Payload}

theorem init_maintenance (cronNext : String → ℤ → Except String ℤ) (config : ScheduleConfig)
    (clock : ℤ) : (maintenance P n cronNext config).init
      { scheduler := { clock := clock, table := Table.empty } } :=
  rfl

/-- A step inserts the row of a process, is a step of the scheduler, or leaves the table. -/
theorem next_cases (h : next cronNext config s a = some s') :
    (∃ q id m t, a = .commit q ∧ s.process q = .inserted id m ∧
      s.scheduler.table.insert id (m.job config) = some t ∧ s'.scheduler.table = t) ∨
    (∃ b, a = .poller b ∧ (∀ id m, b ≠ .create id m) ∧
      SchedulePoller.next cronNext config s.scheduler b = some s'.scheduler) ∨
    (∀ q, a ≠ .commit q) ∧ (∀ b, a ≠ .poller b) ∧ s'.scheduler.table = s.scheduler.table := by
  cases a with
  | start q env available =>
    obtain rfl := Option.some.inj h
    exact Or.inr (Or.inr ⟨by simp, by simp, rfl⟩)
  | lookUp q =>
    simp only [next] at h
    split at h
    · obtain rfl := Option.some.inj h
      exact Or.inr (Or.inr ⟨by simp, by simp, rfl⟩)
    · cases h
  | insert now q id =>
    simp only [next] at h
    split at h
    · simp only [Option.ite_none_right_eq_some] at h
      obtain ⟨_, h⟩ := h
      split at h <;> obtain rfl := Option.some.inj h <;>
        exact Or.inr (Or.inr ⟨by simp, by simp, rfl⟩)
    · cases h
  | commit q =>
    simp only [next] at h
    split at h
    · rename_i id m hq
      obtain ⟨t, ht, rfl⟩ := Option.map_eq_some_iff.mp h
      exact Or.inl ⟨q, id, m, t, rfl, hq, ht, rfl⟩
    · cases h
  | stop q =>
    obtain rfl := Option.some.inj h
    exact Or.inr (Or.inr ⟨by simp, by simp, rfl⟩)
  | poller b =>
    have hb : ∀ id m, b ≠ .create id m := by
      intro id m hb
      subst hb
      cases h
    have hmap : (SchedulePoller.next cronNext config s.scheduler b).map
        (fun x => { s with scheduler := x }) = some s' := by
      cases b with
      | create id m => exact absurd rfl (hb id m)
      | _ => exact h
    obtain ⟨x, hx, rfl⟩ := Option.map_eq_some_iff.mp hmap
    exact Or.inr (Or.inl ⟨b, rfl, hb, hx⟩)

/-- What a step does to the rows: every active row was active under its name before, except
for the row `k`, whose name no active row had. -/
def OneJoins (k : String) (t t' : JobTable Payload) : Prop :=
  ∀ id job', t'.get? id = some job' → active job' →
    (∃ job, t.get? id = some job ∧ active job ∧ job.jobName = job'.jobName) ∨
    id = k ∧ existsActive job'.jobName t = false

theorem unique_of_oneJoins {k : String} (hu : UniqueActive t) (h : OneJoins k t t') :
    UniqueActive t' := by
  have hnew : ∀ {id job name}, t.get? id = some job → active job → job.jobName = name →
      existsActive name t ≠ false := by
    intro id job name hid hactive hname
    rw [existsActive_iff.mpr ⟨id, job, hid, hname, hactive⟩]
    simp
  intro id id' job job' hid hid' hactive hactive' hname
  rcases h id job hid hactive with ⟨r, hr, hra, hrn⟩ | ⟨hk, hnone⟩
  · rcases h id' job' hid' hactive' with ⟨r', hr', hra', hrn'⟩ | ⟨_, hnone'⟩
    · exact hu id id' r r' hr hr' hra hra' ((hrn.trans hname).trans hrn'.symm)
    · exact absurd hnone' (hnew hr hra (hrn.trans hname))
  · rcases h id' job' hid' hactive' with ⟨r', hr', hra', hrn'⟩ | ⟨hk', _⟩
    · exact absurd hnone (hnew hr' hra' (hrn'.trans hname.symm))
    · exact hk.trans hk'.symm

/-- An UPDATE that keeps the names, when an active row of the result was active before. -/
theorem oneJoins_of_map {k : String} {f : String → ScheduledJob Payload → ScheduledJob Payload}
    (hget : ∀ id, t'.get? id = (t.get? id).map (f id))
    (hname : ∀ id job, (f id job).jobName = job.jobName)
    (hactive : ∀ id job, t.get? id = some job → active (f id job) →
      active job ∨ id = k ∧ existsActive job.jobName t = false) : OneJoins k t t' := by
  intro id job' hid ha
  rw [hget id] at hid
  obtain ⟨job, hjob, rfl⟩ := Option.map_eq_some_iff.mp hid
  rw [hname id job]
  rcases hactive id job hjob ha with h | h
  · exact Or.inl ⟨job, hjob, h, rfl⟩
  · exact Or.inr h

theorem oneJoins_update {k : String} {f : ScheduledJob Payload → ScheduledJob Payload}
    (hget : ∀ id, t'.get? id = (t.get? id).map fun r => if id = k then f r else r)
    (hname : ∀ r, (f r).jobName = r.jobName)
    (hrow : ∀ r, t.get? k = some r → r.status.terminal = true → active (f r) →
      existsActive r.jobName t = false) : OneJoins k t t' := by
  apply oneJoins_of_map hget
  · intro id r
    split
    · exact hname r
    · rfl
  · intro id r hid hactive
    by_cases hk : id = k
    · rw [hk] at hid
      rw [if_pos hk] at hactive
      cases hterm : r.status.terminal with
      | false => exact Or.inl ((active_iff r).mpr hterm)
      | true => exact Or.inr ⟨hk, hrow r hid hterm hactive⟩
    · rw [if_neg hk] at hactive
      exact Or.inl hactive

theorem oneJoins_of_same (k : String) (h : t' = t) : OneJoins k t t' := by
  subst h
  intro id job hid hactive
  exact Or.inl ⟨job, hid, hactive, rfl⟩

theorem oneJoins_insert (ht : t.insert id job = some t')
    (hnone : existsActive job.jobName t = false) : OneJoins id t t' := by
  intro j job' hj hactive
  rw [(Table.insert_eq_some ht).2 j] at hj
  split at hj
  · rename_i hid
    obtain rfl := Option.some.inj hj
    exact Or.inr ⟨hid, hnone⟩
  · exact Or.inl ⟨job', hj, hactive, rfl⟩

omit [DecidableEq P] in
theorem oneJoins_poller {b : SchedulePoller.Act Payload n} {x : Scheduler Payload n}
    (hb : ∀ id m, b ≠ .create id m) (hok : Unraced cronNext as s (.poller b))
    (hstep : SchedulePoller.next cronNext config s.scheduler b = some x) :
    ∃ k, OneJoins k s.scheduler.table x.table := by
  rcases SchedulePoller.next_cases hstep with ⟨j, m, t, rfl, _⟩ |
      ⟨now, w, ids, rfl, _, _, _, hids, rfl⟩ | ⟨w, event, batch, rfl, _, _, rfl⟩ |
      ⟨now, w, fired, nextRun, rfl, _, hf, hn, rfl⟩ | ⟨now, w, fired, e, rfl, _, _, _, rfl⟩ |
      ⟨now, w, error, fired, rfl, _, hf, rfl⟩ | ⟨w, rfl, rfl⟩ | ⟨j, rfl, rfl⟩ | ⟨now, rfl, _, rfl⟩
  · exact absurd rfl (hb j m)
  · refine ⟨"", oneJoins_of_map (get?_fetchDueBatch now ids s.scheduler.table) ?_ ?_⟩
    · intro id job
      split <;> rfl
    · intro id job hid hactive
      left
      by_cases hmem : id ∈ ids
      · obtain ⟨row, hrow, hs, _⟩ := hids.row hmem
        obtain rfl : job = row := by simpa [hid] using hrow
        simp [active, hs]
      · simpa [hmem] using hactive
  · exact ⟨"", oneJoins_of_same "" rfl⟩
  · refine ⟨fired.1, oneJoins_update
      (get?_markSucceeded now fired.1 fired.2 nextRun s.scheduler.table) (fun _ => rfl) ?_⟩
    intro row hrow hterm hactive
    have hcond := hok fired hf row hrow hterm
    rw [hn] at hcond
    rcases hcond with hlast | hnone
    · simp [afterSuccess, hlast, active] at hactive
    · exact hnone
  · exact ⟨"", oneJoins_of_same "" rfl⟩
  · refine ⟨fired.1, oneJoins_update
      (get?_markFailed config now fired.1 fired.2 error none s.scheduler.table) (fun _ => rfl) ?_⟩
    intro row hrow hterm hactive
    rcases hok fired hf row hrow hterm with hlast | hnone
    · simp [afterFailure, hlast, active] at hactive
    · exact hnone
  · exact ⟨"", oneJoins_of_same "" rfl⟩
  · refine ⟨"", oneJoins_of_map (get?_cancel j s.scheduler.table) ?_ ?_⟩
    · intro id job
      split <;> rfl
    · intro id job hid hactive
      left
      split at hactive
      · simp [active] at hactive
      · exact hactive
  · refine ⟨"", oneJoins_of_map (get?_resetStaleRunning config none now s.scheduler.table) ?_ ?_⟩
    · intro id job
      split <;> rfl
    · intro id job hid hactive
      left
      split at hactive
      · rename_i hstale
        simp only [staleRunning, decide_eq_true_eq] at hstale
        simp [active, hstale.1]
      · exact hactive

theorem unique_step (hu : UniqueActive s.scheduler.table) (hok : Unraced cronNext as s a)
    (hstep : next cronNext config s a = some s') : UniqueActive s'.scheduler.table := by
  rcases next_cases hstep with ⟨q, id, m, t, rfl, hq, ht, hs⟩ | ⟨b, rfl, hb, hx⟩ | ⟨_, _, hs⟩
  · have hnone : existsActive m.jobName s.scheduler.table = false := by
      simpa [Unraced, hq] using hok
    rw [hs]
    exact unique_of_oneJoins hu (oneJoins_insert ht hnone)
  · obtain ⟨k, hk⟩ := oneJoins_poller hb hok hx
    exact unique_of_oneJoins hu hk
  · rw [hs]
    exact hu

/-- A row that becomes active while another active row has its name. -/
theorem not_unique_of_joins {k : String} (hactive : active job) (hnew : t'.get? k = some job)
    (hexists : existsActive job.jobName t = true) (hk : ∀ r, t.get? k = some r → ¬ active r)
    (hkept : ∀ id, id ≠ k → t'.get? id = t.get? id) : ¬ UniqueActive t' := by
  obtain ⟨id, r, hr, hname, hra⟩ := existsActive_iff.mp hexists
  have hne : id ≠ k := by
    intro hid
    subst hid
    exact hk r hr hra
  intro hu
  have hr' : t'.get? id = some r := by rw [hkept id hne, hr]
  exact hne (hu id k r job hr' hnew hra hactive hname)

theorem not_unique_of_revived {k : String} {row : ScheduledJob Payload}
    {f : ScheduledJob Payload → ScheduledJob Payload}
    (hget : ∀ id, t'.get? id = (t.get? id).map fun r => if id = k then f r else r)
    (hrow : t.get? k = some row) (hterm : row.status.terminal)
    (hname : (f row).jobName = row.jobName)
    (hactive : active (f row)) (hexists : existsActive row.jobName t = true) :
    ¬ UniqueActive t' := by
  refine not_unique_of_joins (k := k) hactive ?_ (by rwa [hname]) ?_ ?_
  · rw [hget k, hrow]
    simp
  · intro r hr ha
    obtain rfl : row = r := by simpa [hrow] using hr
    rw [active_iff, hterm] at ha
    cases ha
  · intro id hid
    rw [hget id]
    simp [hid]

/-- Every step that does not meet the condition leaves two active jobs of one name. -/
theorem race_breaks_unique (hrace : ¬ Unraced cronNext as s a)
    (hstep : next cronNext config s a = some s') : ¬ UniqueActive s'.scheduler.table := by
  cases a with
  | commit q =>
    rcases next_cases hstep with ⟨q', id, m, t, hq', hq, ht, hs⟩ | ⟨b, hb, _⟩ | ⟨hnot, _⟩
    · obtain rfl : q = q' := Act.commit.inj hq'
      have hexists : existsActive m.jobName s.scheduler.table = true := by
        simpa [Unraced, hq] using hrace
      obtain ⟨hnew, hget⟩ := Table.insert_eq_some ht
      rw [hs]
      have hactive : active (m.job config) := rfl
      refine not_unique_of_joins hactive ?_ hexists ?_ ?_ (k := id)
      · simp [hget]
      · intro r hr
        simp [hnew] at hr
      · intro j hj
        rw [hget, if_neg hj]
    · cases hb
    · exact absurd rfl (hnot q)
  | poller b =>
    obtain ⟨b', hb', _, hx⟩ : ∃ b', Act.poller b = Act.poller (P := P) b' ∧
        (∀ id m, b' ≠ .create id m) ∧
        SchedulePoller.next cronNext config s.scheduler b' = some s'.scheduler := by
      rcases next_cases hstep with ⟨_, _, _, _, h, _⟩ | h | ⟨_, hnot, _⟩
      · cases h
      · exact h
      · exact absurd rfl (hnot b)
    obtain rfl := Act.poller.inj hb'
    cases b with
    | dispatchReturns now w =>
      simp only [Unraced, not_forall] at hrace
      obtain ⟨fired, hf, row, hrow, hterm, hnot⟩ := hrace
      cases hn : nextRunOf cronNext fired.2 with
      | error e => simp [hn] at hnot
      | ok nextRun =>
        simp only [hn, not_or, Bool.not_eq_true, Bool.not_eq_false] at hnot
        rw [table_dispatchReturns hx hf hn]
        refine not_unique_of_revived (get?_markSucceeded now fired.1 fired.2 nextRun _) hrow hterm
          rfl ?_ hnot.2
        simp [active, afterSuccess, hnot.1]
    | dispatchRaises now w error =>
      simp only [Unraced, not_forall, not_or] at hrace
      obtain ⟨fired, hf, row, hrow, hterm, hleft, hexists⟩ := hrace
      rw [table_dispatchRaises hx hf]
      refine not_unique_of_revived (get?_markFailed config now fired.1 fired.2 error none _) hrow
        hterm rfl ?_ (by simpa using hexists)
      simp [active, afterFailure, hleft]
    | _ => exact absurd trivial hrace
  | _ => exact absurd trivial hrace

/-- In every run without a race, at most one job of each name is ever active. -/
theorem at_most_one_active (h : Trace (maintenance P n cronNext config) (Unraced cronNext) as s) :
    UniqueActive s.scheduler.table := by
  refine Trace.induct (M := maintenance P n cronNext config)
    (I := fun _ s => UniqueActive s.scheduler.table) ?_
    (fun _ s a t _ hu hok hstep => unique_step hu hok hstep) as s h
  intro s hinit
  have hs : s = { scheduler := { clock := s.scheduler.clock, table := Table.empty } } := hinit
  rw [hs]
  intro id id' job job' hid
  simp [Table.get?_empty] at hid

def nightly (_ : String) (now : ℤ) : Except String ℤ :=
  .ok ((now - 7200000000) / 86400000000 * 86400000000 + 86400000000 + 7200000000)

/-- A process defines the job; a worker runs it; the process starts again and finds the job. -/
theorem at_most_one_active_restart :
    let as : List (Act Bool 1) := [.start false {} true, .lookUp false, .insert 0 false "a",
      .start true {} true, .commit false, .lookUp true, .poller (.fetch 7200000001 0 ["a"]),
      .poller (.dispatch 0), .start false {} true, .lookUp false,
      .poller (.dispatchReturns 7200000002 0)]
    ∃ s, Trace (maintenance Bool 1 nightly {}) (Unraced nightly) as s ∧
      UniqueActive s.scheduler.table := by
  intro as
  have h : ((replay (maintenance Bool 1 nightly {}) (Unraced nightly) [] as
      { scheduler := { clock := 0, table := Table.empty } }).map fun s =>
        s.scheduler.table.rows.length) = some 1 := by
    decide +kernel
  obtain ⟨s, hrun, _⟩ := Option.map_eq_some_iff.mp h
  have ht := trace_of_replay (init_maintenance nightly {} 0) hrun
  exact ⟨s, ht, at_most_one_active ht⟩

theorem exists_not_unique (config : ScheduleConfig) (as : List (Act Bool n))
    (h : (replay (maintenance Bool n nightly config) free [] as
      { scheduler := { clock := 0, table := Table.empty } }).map (fun s =>
        ["a", "b"].map fun id => (s.scheduler.table.get? id).map fun job =>
          (job.jobName, active job)) =
      some [some (outboxMaintenanceJob, true), some (outboxMaintenanceJob, true)]) :
    ∃ s, Trace (maintenance Bool n nightly config) free as s ∧
      ¬ UniqueActive s.scheduler.table := by
  obtain ⟨s, hrun, hs⟩ := Option.map_eq_some_iff.mp h
  refine ⟨s, trace_of_replay (init_maintenance nightly config 0) hrun, fun hu => ?_⟩
  simp only [List.map_cons, List.map_nil, List.cons.injEq, Option.map_eq_some_iff,
    Prod.mk.injEq] at hs
  obtain ⟨⟨x, hx, hxname, hxactive⟩, ⟨y, hy, hyname, hyactive⟩, _⟩ := hs
  have hsame := hu "a" "b" x y hx hy hxactive hyactive (hxname.trans hyname.symm)
  simp at hsame

/-- Two processes look before either commits. Also, after a start at which the job has failed
for one worker, the late success of another brings the failed job back. -/
theorem two_active_jobs :
    (¬ ∀ (cronNext : String → ℤ → Except String ℤ) (config : ScheduleConfig)
      (as : List (Act Bool 1)) (s : Startup Bool 1),
      Trace (maintenance Bool 1 cronNext config) free as s → UniqueActive s.scheduler.table) ∧
    ∃ s, Trace (maintenance Bool 2 nightly { maxRetries := 1 }) free
      [.start false {} true, .lookUp false, .insert 0 false "a", .commit false,
        .poller (.fetch 7200000001 0 ["a"]), .poller (.dispatch 0),
        .poller (.resetStale 7600000001), .poller (.fetch 7600000002 1 ["a"]),
        .poller (.dispatch 1), .poller (.dispatchRaises 7600000003 1 "timeout"),
        .start true {} true, .lookUp true, .insert 7600000004 true "b", .commit true,
        .poller (.dispatchReturns 7600000005 0)] s ∧
      ¬ UniqueActive s.scheduler.table := by
  constructor
  · intro hclaim
    obtain ⟨s, ht, hnot⟩ := exists_not_unique (n := 1) {}
      [.start false {} true, .start true {} true, .lookUp false, .lookUp true,
        .insert 0 false "a", .insert 0 true "b", .commit false, .commit true] (by decide +kernel)
    exact hnot (hclaim _ _ _ s ht)
  · exact exists_not_unique _ _ (by decide +kernel)

end Taas.Maintenance
