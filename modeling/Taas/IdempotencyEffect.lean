import Taas.IdempotencyKeys

/-!
How often the effect of a guarded body is committed. The INSERT of `mark_processed` names a column
that `ProcessedEventTable` does not declare, so it raises before it reaches the database: no guard
that yields True ends cleanly, and no effect is committed. On a table with that column two guards
that both found no key run their bodies at the same time, and the one whose insert is skipped only
logs the race and ends cleanly; the effect is then committed once as long as no such loser commits.
-/
namespace Taas.Idempotency

open Python Sql Transition

variable {n : ℕ}

/-- The commits since the last cleanup of runs whose guard yielded True and ended cleanly:
each of them commits the effect of its body. -/
def effects (config : IdempotencyConfig) (key : String) (log : List Entry) : ℕ :=
  (since config key log).countP fun run => run.2 = .marked true ∨ run.2 = .marked false

def EffectOnce (config : IdempotencyConfig) (s : Guards n) : Prop :=
  ∀ key, effects config key s.log ≤ 1

/-- A transaction is committed only after a clean exit from its guard. -/
def CleanExit : Condition (Guards n) (Act n) := fun _ s a =>
  match a with
  | .commit w => (s.worker w).phase ≠ .raised
  | _ => True

/-- In addition, no transaction commits whose insert was skipped. -/
def NoLoserCommits : Condition (Guards n) (Act n) := fun as s a =>
  CleanExit as s a ∧ match a with
  | .commit w => (s.worker w).phase ≠ .marked false
  | _ => True

instance (as : List (Act n)) (s : Guards n) (a : Act n) : Decidable (CleanExit as s a) :=
  match a with
  | .enter _ _ _ _ | .mark _ | .raises _ | .commit _ | .rollback _ | .cleanup _ _ _ _ => by
    unfold CleanExit; infer_instance

instance (as : List (Act n)) (s : Guards n) (a : Act n) : Decidable (NoLoserCommits as s a) :=
  match a with
  | .enter _ _ _ _ | .mark _ | .raises _ | .commit _ | .rollback _ | .cleanup _ _ _ _ => by
    unfold NoLoserCommits; infer_instance

variable {config : IdempotencyConfig} {columns : List String} {s s' : Guards n} {a : Act n}
variable {as : List (Act n)}

/-- No run that lost its insert is among the committed ones. -/
def NoLoser (s : Guards n) : Prop := ∀ call, Entry.committed call (.marked false) ∉ s.log

theorem effects_eq_wins (h : NoLoser s) (key : String) :
    effects config key s.log = wins config key s.log := by
  apply List.countP_congr
  intro run hrun
  have hmem := (mem_since hrun).1
  have hne : run.2 ≠ .marked false := by
    intro hphase
    rw [hphase] at hmem
    exact h run.1 hmem
  simp [hne]

theorem noLoser_step (h : NoLoser s) (hok : NoLoserCommits as s a)
    (hstep : next config columns s a = some s') : NoLoser s' := by
  have hcons : ∀ entry, (∀ call, entry ≠ Entry.committed call (.marked false)) →
      ∀ call, Entry.committed call (.marked false) ∉ entry :: s.log := by
    intro entry hne call hmem
    rcases List.mem_cons.mp hmem with heq | hmem
    · exact hne call heq.symm
    · exact h call hmem
  rcases next_cases hstep with ⟨now, began, w, call, rfl, _, rfl⟩ | ⟨w, rfl, _, _, rfl⟩ |
      ⟨w, rfl, _, rfl⟩ | ⟨w, t, rfl, _, _, rfl⟩ | ⟨w, rfl, _, _, _, rfl⟩ | ⟨w, rfl, rfl⟩ |
      ⟨now, ttlDays, batchSize, keys, rfl, rfl⟩
  · exact h
  · exact h
  · exact h
  · exact hcons _ (by simp)
  · apply hcons
    intro call heq
    simp only [Entry.committed.injEq] at heq
    exact hok.2 heq.2
  · exact h
  · exact hcons _ (by simp)

/-- On any table, while no loser of an insert commits, the effect is committed at most once between
two cleanups of the key. -/
theorem effectOnce_of_noLoserCommits (h : Trace (guards n config columns) NoLoserCommits as s) :
    EffectOnce config s := by
  have hlosers : NoLoser s := by
    refine Trace.induct (M := guards n config columns) (I := fun _ s => NoLoser s) ?_ ?_ as s h
    · intro s hs call
      have hinit : s = { clock := s.clock, table := Table.empty } := hs
      rw [hinit]
      simp
    · intro _ s a s' _ hi hok hstep
      exact noLoser_step hi hok hstep
  intro key
  rw [effects_eq_wins hlosers, (inv_of_trace h).wins key]
  split <;> omega

/-- No guard has ended after its body. -/
def NoneMarked (s : Guards n) : Prop := ∀ w inserted, (s.worker w).phase ≠ .marked inserted

theorem NoneMarked.setWorker (h : NoneMarked s) {w : Fin n} {x : Worker}
    (hx : ∀ inserted, x.phase ≠ .marked inserted) : NoneMarked (s.setWorker w x) := by
  intro v inserted
  by_cases hv : v = w
  · subst hv
    rw [setWorker_self]
    exact hx inserted
  · rw [setWorker_of_ne hv]
    exact h v inserted

theorem noneMarked_step (hcolumns : insertCompiles columns = false) (h : NoneMarked s)
    (hstep : next config columns s a = some s') : NoneMarked s' := by
  rcases next_cases hstep with ⟨now, began, w, call, rfl, _, rfl⟩ | ⟨w, rfl, _, _, rfl⟩ |
      ⟨w, rfl, _, rfl⟩ | ⟨w, t, rfl, hw, _, rfl⟩ | ⟨w, rfl, _, _, _, rfl⟩ | ⟨w, rfl, rfl⟩ |
      ⟨now, ttlDays, batchSize, keys, rfl, rfl⟩
  · refine h.setWorker fun inserted => ?_
    show entryPhase config call s.table ≠ _
    unfold entryPhase
    split
    · split <;> simp
    · simp
  · exact h.setWorker fun inserted => by simp [markPhase, hcolumns]
  · exact h.setWorker fun inserted => by simp
  · exact absurd hw (h w true)
  · exact h.setWorker fun inserted => by simp
  · exact h.setWorker fun inserted => by simp
  · exact h

/-- In every run of the guards on `ProcessedEventTable`, the effect is committed at most once
between two cleanups of the key: no guard that yields True ends cleanly. -/
theorem effect_once (h : Trace (guards n config processedEventColumns) CleanExit as s) :
    EffectOnce config s := by
  have hcolumns : insertCompiles processedEventColumns = false := by decide
  have hrun : NoneMarked s ∧ Trace (guards n config processedEventColumns) NoLoserCommits as s := by
    refine Trace.induct (M := guards n config processedEventColumns)
      (I := fun as s => NoneMarked s ∧
        Trace (guards n config processedEventColumns) NoLoserCommits as s) ?_ ?_ as s h
    · intro s hs
      have hinit : s = { clock := s.clock, table := Table.empty } := hs
      refine ⟨?_, s, hs, .nil⟩
      rw [hinit]
      intro w inserted
      simp
    · rintro as s a s' - ⟨hnone, htrace⟩ hok hnext
      refine ⟨noneMarked_step hcolumns hnone hnext, htrace.snoc ⟨hok, ?_⟩ hnext⟩
      cases a with
      | commit w => exact hnone w false
      | _ => trivial
  exact effectOnce_of_noLoserCommits hrun.2

/-- Two guards overlap and both find no key; both inserts raise, and both transactions roll back. -/
theorem effect_once_overlap : ∃ s, Trace (guards 2 {} processedEventColumns) CleanExit
      [.enter 0 0 0 placed, .enter 0 0 1 placed, .mark 0, .mark 1, .rollback 0, .rollback 1] s ∧
    EffectOnce {} s := by
  have h : (replay (guards 2 {} processedEventColumns) CleanExit []
      [.enter 0 0 0 placed, .enter 0 0 1 placed, .mark 0, .mark 1, .rollback 0, .rollback 1]
      { clock := 0, table := Table.empty }).isSome = true := by
    decide
  obtain ⟨s, hrun⟩ := Option.isSome_iff_exists.mp h
  have htrace := trace_of_replay (init_guards _ _ 0) hrun
  exact ⟨s, htrace, effect_once htrace⟩

end Taas.Idempotency
