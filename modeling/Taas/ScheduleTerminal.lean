import Taas.SchedulePoller

/-!
Whether DONE, FAILED and CANCELLED are final. The claim query, the cancellation and the
stale reset look at the status first. The two marks look at the id alone, so a dispatch
that ends after its job has come to an end writes over that end. When no dispatch ends
so late, except to write the same status again, the three states are absorbing.
-/
namespace Taas.ScheduleTerminal

open Sql Schedule Transition SchedulePoller

variable {J : Type} {n : ℕ}

/-- In the runs that follow `s`, a job in a terminal state keeps its status and is not
claimed. -/
def TerminalAbsorbing (cronNext : String → ℤ → Except String ℤ) (config : ScheduleConfig)
    (ok : Condition (Scheduler J n) (Act J n)) (as : List (Act J n)) (s : Scheduler J n) : Prop :=
  ∀ id job, s.table.get? id = some job → job.status.terminal →
    ∀ bs x, Path (scheduler J n cronNext config) ok as s bs x →
      (∃ job', x.table.get? id = some job' ∧ job'.status = job.status) ∧
      ∀ now w ids, Act.fetch now w ids ∈ bs → id ∉ ids

/-- A dispatch whose job has come to an end meanwhile ends with the same outcome: a last
fire of a DONE job, or a failure of a FAILED job that exhausts its retries. -/
def NoLateMark (cronNext : String → ℤ → Except String ℤ) :
    Condition (Scheduler J n) (Act J n) := fun _ s a =>
  match a with
  | .dispatchReturns _ w => ∀ job ∈ (s.worker w).firing, ∀ row ∈ s.table.get? job.1,
      row.status.terminal →
      match nextRunOf cronNext job.2 with
      | .ok nextRun => row.status = .done ∧ lastFire job.2 nextRun
      | .error _ => True
  | .dispatchRaises _ w _ => ∀ job ∈ (s.worker w).firing, ∀ row ∈ s.table.get? job.1,
      row.status.terminal → row.status = .failed ∧ exhausted job.2
  | _ => True

instance (cronNext : String → ℤ → Except String ℤ) (as : List (Act J n)) (s : Scheduler J n)
    (a : Act J n) : Decidable (NoLateMark cronNext as s a) := by
  unfold NoLateMark
  split
  · have (job : String × ScheduledJob J) (row : ScheduledJob J) : Decidable
        (match nextRunOf cronNext job.2 with
        | .ok nextRun => row.status = .done ∧ lastFire job.2 nextRun = true
        | .error _ => True) := by
      split <;> infer_instance
    infer_instance
  · infer_instance
  · infer_instance

variable {cronNext : String → ℤ → Except String ℤ} {config : ScheduleConfig}
variable {s s' : Scheduler J n} {a : Act J n} {as : List (Act J n)} {id : String}
variable {job : ScheduledJob J}

theorem status_of_map {t t' : JobTable J} {f : ScheduledJob J → ScheduledJob J}
    (hget : t'.get? id = (t.get? id).map f) (hid : t.get? id = some job)
    (hf : (f job).status = job.status) :
    ∃ job', t'.get? id = some job' ∧ job'.status = job.status := by
  refine ⟨f job, ?_, hf⟩
  rw [hget, hid]
  rfl

theorem terminal_step (hid : s.table.get? id = some job) (hterm : job.status.terminal)
    (hok : NoLateMark cronNext as s a) (hstep : next cronNext config s a = some s') :
    (∃ job', s'.table.get? id = some job' ∧ job'.status = job.status) ∧
      ∀ now w ids, a = .fetch now w ids → id ∉ ids := by
  rcases next_cases hstep with ⟨j, m, t, rfl, ht, rfl⟩ | ⟨now, w, ids, rfl, _, _, _, hids, rfl⟩ |
      ⟨w, event, batch, rfl, _, _, rfl⟩ | ⟨now, w, fired, nextRun, rfl, _, hf, hn, rfl⟩ |
      ⟨now, w, fired, e, rfl, _, _, _, rfl⟩ | ⟨now, w, error, fired, rfl, _, hf, rfl⟩ |
      ⟨w, rfl, rfl⟩ | ⟨j, rfl, rfl⟩ | ⟨now, rfl, _, rfl⟩
  case inr.inl =>
    have hnot : id ∉ ids := by
      intro hmem
      obtain ⟨row, hrow, hs, _⟩ := hids.row hmem
      obtain rfl : job = row := by simpa [hid] using hrow
      simp [hs, ScheduleJobStatus.terminal] at hterm
    refine ⟨status_of_map (get?_fetchDueBatch now ids s.table id) hid ?_, ?_⟩
    · simp [hnot]
    · intro now' w' ids' hact
      simp only [Act.fetch.injEq] at hact
      obtain ⟨-, -, rfl⟩ := hact
      exact hnot
  all_goals refine ⟨?_, fun _ _ _ hact => by simp at hact⟩
  · obtain ⟨hnew, hget⟩ := Table.insert_eq_some ht
    refine ⟨job, ?_, rfl⟩
    have hne : id ≠ j := by
      rintro rfl
      simp [hnew] at hid
    rw [hget id, if_neg hne, hid]
  · exact ⟨job, hid, rfl⟩
  · refine status_of_map (get?_markSucceeded now fired.1 fired.2 nextRun s.table id) hid ?_
    by_cases hj : id = fired.1
    · -- the mark of this job writes DONE over DONE
      subst hj
      have hsame := hok fired hf job hid hterm
      rw [hn] at hsame
      simp [afterSuccess, hsame.1, hsame.2]
    · simp [hj]
  · exact ⟨job, hid, rfl⟩
  · refine status_of_map (get?_markFailed config now fired.1 fired.2 error none s.table id) hid ?_
    by_cases hj : id = fired.1
    · subst hj
      have hsame := hok fired hf job hid hterm
      simp [afterFailure, hsame.1, hsame.2]
    · simp [hj]
  · exact ⟨job, hid, rfl⟩
  · refine status_of_map (get?_cancel j s.table id) hid ?_
    have hs : ¬ (job.status = .scheduled ∨ job.status = .running) := by
      rintro (hs | hs) <;> simp [hs, ScheduleJobStatus.terminal] at hterm
    simp [hs]
  · refine status_of_map (get?_resetStaleRunning config none now s.table id) hid ?_
    have hs : staleRunning config none now job = false := by
      have hne : job.status ≠ .running := by
        intro hs
        simp [hs, ScheduleJobStatus.terminal] at hterm
      simp [staleRunning, hne]
    simp [hs]

/-- Every step that does not meet the condition changes a terminal status. -/
theorem late_mark_changes_status (hlate : ¬ NoLateMark cronNext as s a)
    (hstep : next cronNext config s a = some s') :
    ∃ id job job', s.table.get? id = some job ∧ job.status.terminal ∧
      s'.table.get? id = some job' ∧ job'.status ≠ job.status := by
  cases a with
  | dispatchReturns now w =>
    simp only [NoLateMark, not_forall] at hlate
    obtain ⟨fired, hf, row, hrow, hterm, hdiff⟩ := hlate
    cases hn : nextRunOf cronNext fired.2 with
    | error e =>
      rw [hn] at hdiff
      exact absurd trivial hdiff
    | ok nextRun =>
      rw [hn] at hdiff
      refine ⟨fired.1, row, afterSuccess now fired.2 nextRun row, hrow, hterm, ?_, ?_⟩
      · rw [table_dispatchReturns hstep hf hn, get?_markSucceeded, Option.mem_def.mp hrow]
        simp
      · intro hsame
        by_cases hl : lastFire fired.2 nextRun = true
        · simp only [afterSuccess, hl, if_true] at hsame
          exact hdiff ⟨hsame.symm, hl⟩
        · simp only [afterSuccess, hl] at hsame
          simp [← hsame, ScheduleJobStatus.terminal] at hterm
  | dispatchRaises now w error =>
    simp only [NoLateMark, not_forall] at hlate
    obtain ⟨fired, hf, row, hrow, hterm, hdiff⟩ := hlate
    refine ⟨fired.1, row, afterFailure config now fired.2 error none row, hrow, hterm, ?_, ?_⟩
    · rw [table_dispatchRaises hstep hf, get?_markFailed, Option.mem_def.mp hrow]
      simp
    · intro hsame
      by_cases hl : exhausted fired.2 = true
      · simp only [afterFailure, hl, if_true] at hsame
        exact hdiff ⟨hsame.symm, hl⟩
      · simp only [afterFailure, hl] at hsame
        simp [← hsame, ScheduleJobStatus.terminal] at hterm
  | create id m => exact absurd trivial hlate
  | fetch now w ids => exact absurd trivial hlate
  | dispatch w => exact absurd trivial hlate
  | abandon w => exact absurd trivial hlate
  | cancel id => exact absurd trivial hlate
  | resetStale now => exact absurd trivial hlate

/-- When no dispatch ends late with another outcome, DONE, FAILED and CANCELLED are final. -/
theorem terminal_absorbing (s : Scheduler J n) (as : List (Act J n)) :
    TerminalAbsorbing cronNext config (NoLateMark cronNext) as s := by
  intro id job hid hterm bs x hp
  induction hp with
  | nil => exact ⟨⟨job, hid, rfl⟩, fun _ _ _ hmem => by simp at hmem⟩
  | @snoc t u bs a _ hok hstep ih =>
    obtain ⟨⟨job', hid', hs'⟩, hnever⟩ := ih
    obtain ⟨⟨job'', hid'', hs''⟩, hnot⟩ := terminal_step hid' (by rwa [hs']) hok hstep
    refine ⟨⟨job'', hid'', hs''.trans hs'⟩, fun now w ids hmem => ?_⟩
    rcases List.mem_append.mp hmem with hmem | hmem
    · exact hnever now w ids hmem
    · exact hnot now w ids (List.mem_singleton.mp hmem).symm

def hourly : NewJob Unit where
  jobName := "reconcile"
  kind := .interval
  nextRunAt := 0
  intervalSeconds := some 3600
  payload := ()
  headers := ()

/-- A job is cancelled while its dispatch is in progress; the success puts it back to
SCHEDULED and the next claim returns it. -/
theorem cancelled_job_runs_again :
    ¬ ∀ (cronNext : String → ℤ → Except String ℤ) (config : ScheduleConfig)
      (as : List (Act Unit 1)) (s : Scheduler Unit 1),
      Trace (scheduler Unit 1 cronNext config) free as s →
      TerminalAbsorbing cronNext config free as s := by
  intro hclaim
  have h : ((replay (scheduler Unit 1 (fun _ _ => .error "") {}) free []
      [.create "a" hourly, .fetch 1 0 ["a"], .dispatch 0, .cancel "a"]
      { clock := 0, table := Table.empty }).bind fun s =>
        (replay (scheduler Unit 1 (fun _ _ => .error "") {}) free
          [.create "a" hourly, .fetch 1 0 ["a"], .dispatch 0, .cancel "a"]
          [.dispatchReturns 2 0, .fetch 3600000000 0 ["a"]] s).map fun x =>
            (s.table.get? "a").map ScheduledJob.status) = some (some .cancelled) := by
    decide +kernel
  obtain ⟨s, hrun, h⟩ := Option.bind_eq_some_iff.mp h
  obtain ⟨x, hlater, h⟩ := Option.map_eq_some_iff.mp h
  obtain ⟨job, hid, hs⟩ := Option.map_eq_some_iff.mp h
  have habs := hclaim _ _ _ s (trace_of_replay (init_scheduler _ _ 0) hrun) "a" job hid
    (by rw [hs]; rfl) _ x (replay_path hlater)
  exact habs.2 3600000000 0 ["a"] (by simp) (by simp)

end Taas.ScheduleTerminal
