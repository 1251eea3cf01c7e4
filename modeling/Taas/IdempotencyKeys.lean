import Taas.Idempotency

/-!
What a committed key says about the guards. A key is in the table exactly when one run
whose insert succeeded has committed since the last cleanup of the key: an insert that
finds no key and waits for nobody has the key to itself until its transaction ends.
-/
namespace Taas.Idempotency

open Python Sql Transition

variable {n : ℕ}

/-- The committed runs for a key since its last cleanup. -/
def since (config : IdempotencyConfig) (key : String) : List Entry → List (GuardCall × Phase)
  | [] => []
  | .cleaned keys :: log => if key ∈ keys then [] else since config key log
  | .committed call phase :: log =>
    if call.key config = key then (call, phase) :: since config key log else since config key log

/-- How many of them saw their insert succeed. -/
def wins (config : IdempotencyConfig) (key : String) (log : List Entry) : ℕ :=
  (since config key log).countP fun run => run.2 = .marked true

/-- The soundness of the keys in a state that the run `as` leads to. -/
structure KeySound (config : IdempotencyConfig) (columns : List String) (as : List (Act n))
    (s : Guards n) : Prop where
  /-- Behind a key stands a committed run that completed its body. -/
  completed : ∀ key, isProcessed key s.table →
    ∃ call inserted, (call, Phase.marked inserted) ∈ since config key s.log
  once : ∀ key, wins config key s.log ≤ 1
  present : ∀ key, isProcessed key s.table → wins config key s.log = 1
  /-- Unless another run completed, a guard yields True. -/
  fresh : ∀ now began w call s', next config columns s (.enter now began w call) = some s' →
    (∀ run ∈ since config (call.key config) s.log, ∀ inserted, run.2 ≠ .marked inserted) →
    (s'.worker w).phase = .body
  /-- Until the key is cleaned up, every later guard yields False or raises. -/
  later : ∀ key, isProcessed key s.table → ∀ bs x, Path (guards n config columns) free as s bs x →
    (∀ now ttlDays batchSize keys, Act.cleanup now ttlDays batchSize keys ∈ bs → key ∉ keys) →
    ∀ now began w call y, call.key config = key →
      next config columns x (.enter now began w call) = some y →
      (y.worker w).phase = if call.raiseOnDuplicate ∨ config.strictMode then .raised else .skipped
  /-- A run that was skipped or raised inserts nothing before it ends. -/
  inserts : ∀ a s', next config columns s a = some s' → ∀ w,
    (s.worker w).phase = .skipped ∨ (s.worker w).phase = .raised →
    (s'.worker w = s.worker w ∨ (s'.worker w).phase = .idle) ∧ (a = .commit w → s'.table = s.table)

variable {config : IdempotencyConfig} {columns : List String} {s s' : Guards n} {a : Act n}
variable {as bs : List (Act n)} {w v : Fin n} {key : String} {x : Worker} {log : List Entry}
variable {call : GuardCall} {phase : Phase}

@[simp] theorem setWorker_self : (s.setWorker w x).worker w = x := by
  simp [Guards.setWorker]

theorem setWorker_of_ne (h : v ≠ w) : (s.setWorker w x).worker v = s.worker v := by
  simp [Guards.setWorker, h]

@[simp] theorem setWorker_table : (s.setWorker w x).table = s.table := rfl

@[simp] theorem setWorker_log : (s.setWorker w x).log = s.log := rfl

theorem wins_committed : wins config key (.committed call phase :: log) =
    wins config key log + if call.key config = key ∧ phase = .marked true then 1 else 0 := by
  by_cases hk : call.key config = key
  · simp [wins, since, hk, List.countP_cons]
  · simp [wins, since, hk]

theorem wins_cleaned {keys : List String} : wins config key (.cleaned keys :: log) =
    if key ∈ keys then 0 else wins config key log := by
  by_cases hk : key ∈ keys <;> simp [wins, since, hk]

theorem isProcessed_insert {t t' : KeyTable} {row : ProcessedEvent} {j : String}
    (h : t.insert j row = some t') :
    isProcessed key t' = (isProcessed key t || decide (key = j)) := by
  obtain ⟨-, hget⟩ := Table.insert_eq_some h
  by_cases hk : key = j <;> simp [isProcessed, hget, hk]

theorem isProcessed_delete {t : KeyTable} {keys : List String} :
    isProcessed key (t.deleteWhere fun k _ => k ∈ keys) =
      (isProcessed key t && !decide (key ∈ keys)) := by
  unfold isProcessed
  rw [Table.get?_deleteWhere]
  cases t.get? key <;> by_cases hk : key ∈ keys <;> simp [hk]

/-- A key is in the table exactly when one insert of it has been committed since its last
cleanup; an insert that is not committed yet has its key to itself. -/
structure Inv (config : IdempotencyConfig) (s : Guards n) : Prop where
  wins : ∀ key, wins config key s.log = if isProcessed key s.table then 1 else 0
  absent : ∀ w, (s.worker w).phase = .marked true →
    isProcessed ((s.worker w).call.key config) s.table = false
  alone : ∀ v w, (s.worker v).phase = .marked true → (s.worker w).phase = .marked true →
    (s.worker v).call.key config = (s.worker w).call.key config → v = w

/-- A step of one worker that inserts nothing and keeps the table. -/
theorem Inv.setWorker (hi : Inv config s) (hx : x.phase ≠ .marked true) :
    Inv config (s.setWorker w x) := by
  have hother : ∀ v, ((s.setWorker w x).worker v).phase = .marked true →
      (s.setWorker w x).worker v = s.worker v := by
    intro v hv
    by_cases hvw : v = w
    · subst hvw
      rw [setWorker_self] at hv
      exact absurd hv hx
    · exact setWorker_of_ne hvw
  constructor
  · exact hi.wins
  · intro v hv
    have hsame := hother v hv
    rw [hsame] at hv ⊢
    exact hi.absent v hv
  · intro u v hu hv hkey
    have hsameu := hother u hu
    have hsamev := hother v hv
    rw [hsameu] at hu hkey
    rw [hsamev] at hv hkey
    exact hi.alone u v hu hv hkey

/-- An entry that is not a won run changes no count. -/
theorem Inv.log_committed (hi : Inv config s) (hphase : phase ≠ .marked true) :
    Inv config { s with log := .committed call phase :: s.log } where
  wins key := by
    rw [wins_committed, hi.wins key]
    simp [hphase]
  absent := hi.absent
  alone := hi.alone

theorem markPhase_eq_marked {t : KeyTable} : markPhase columns key t = .marked true ↔
    insertCompiles columns = true ∧ isProcessed key t = false := by
  unfold markPhase
  split <;> simp [*]

theorem inv_mark (hi : Inv config s) (hw : insertCompiles columns → ¬ Awaited config s w) :
    Inv config (s.setWorker w { s.worker w with
      phase := markPhase columns ((s.worker w).call.key config) s.table }) := by
  by_cases hphase : markPhase columns ((s.worker w).call.key config) s.table = .marked true
  · obtain ⟨hcompiles, hkey⟩ := markPhase_eq_marked.mp hphase
    have hfree : ∀ v, v ≠ w → (s.worker v).phase = .marked true →
        (s.worker v).call.key config ≠ (s.worker w).call.key config := by
      intro v hvw hv hsame
      exact hw hcompiles ⟨v, hvw, hv, hsame⟩
    constructor
    · exact hi.wins
    · intro v hv
      by_cases hvw : v = w
      · subst hvw
        simpa using hkey
      · rw [setWorker_of_ne hvw] at hv ⊢
        exact hi.absent v hv
    · intro u v hu hv hsame
      by_cases huw : u = w
      · by_cases hvw : v = w
        · rw [huw, hvw]
        · subst huw
          rw [setWorker_of_ne hvw] at hv hsame
          rw [setWorker_self] at hsame
          exact absurd hsame.symm (hfree v hvw hv)
      · rw [setWorker_of_ne huw] at hu hsame
        by_cases hvw : v = w
        · subst hvw
          rw [setWorker_self] at hsame
          exact absurd hsame (hfree u huw hu)
        · rw [setWorker_of_ne hvw] at hv hsame
          exact hi.alone u v hu hv hsame
  · exact hi.setWorker hphase

theorem inv_commit {t : KeyTable} (hi : Inv config s) (hw : (s.worker w).phase = .marked true)
    (ht : s.table.insert ((s.worker w).call.key config)
      ((s.worker w).call.row (s.worker w).began) = some t) :
    Inv config { s.setWorker w {} with
      table := t
      log := .committed (s.worker w).call (.marked true) :: s.log } := by
  have hrest : Inv config (s.setWorker w {}) := hi.setWorker (by simp)
  constructor
  · intro key
    show wins config key (.committed (s.worker w).call (.marked true) :: s.log) = _
    rw [wins_committed, hi.wins key, isProcessed_insert ht]
    by_cases hkey : (s.worker w).call.key config = key
    · subst hkey
      simp [hi.absent w hw]
    · simp [hkey, Ne.symm hkey]
  · intro v hv
    have hvw : v ≠ w := by
      rintro rfl
      simp at hv
    have hsame : (s.setWorker w {}).worker v = s.worker v := setWorker_of_ne hvw
    change ((s.setWorker w {}).worker v).phase = _ at hv
    show isProcessed (((s.setWorker w {}).worker v).call.key config) t = false
    rw [hsame] at hv ⊢
    rw [isProcessed_insert ht, hi.absent v hv]
    simp only [Bool.false_or, decide_eq_false_iff_not]
    intro hkey
    exact hvw (hi.alone v w hv hw hkey)
  · exact hrest.alone

theorem inv_step (hi : Inv config s) (hstep : next config columns s a = some s') :
    Inv config s' := by
  rcases next_cases hstep with ⟨now, began, w, call, rfl, hidle, rfl⟩ |
      ⟨w, rfl, hbody, hfree, rfl⟩ |
      ⟨w, rfl, hbody, rfl⟩ | ⟨w, t, rfl, hw, ht, rfl⟩ | ⟨w, rfl, _, _, hw, rfl⟩ | ⟨w, rfl, rfl⟩ |
      ⟨now, ttlDays, batchSize, keys, rfl, rfl⟩
  · have hphase : entryPhase config call s.table ≠ .marked true := by
      unfold entryPhase
      split
      · split <;> simp
      · simp
    have h := hi.setWorker (w := w)
      (x := { phase := entryPhase config call s.table, call := call, began := began }) hphase
    exact ⟨h.wins, h.absent, h.alone⟩
  · exact inv_mark hi hfree
  · exact hi.setWorker (by simp)
  · exact inv_commit hi hw ht
  · exact (hi.setWorker (w := w) (x := {}) (by simp)).log_committed hw
  · exact hi.setWorker (by simp)
  · constructor
    · intro key
      show wins config key (.cleaned keys :: s.log) = _
      rw [wins_cleaned, hi.wins key, isProcessed_delete]
      by_cases hk : key ∈ keys <;> simp [hk]
    · intro w hw
      have habsent := hi.absent w hw
      show isProcessed _ (s.table.deleteWhere _) = false
      rw [isProcessed_delete, habsent, Bool.false_and]
    · exact hi.alone

theorem inv_of_trace {ok : Condition (Guards n) (Act n)}
    (h : Trace (guards n config columns) ok as s) : Inv config s := by
  refine Trace.invariant (M := guards n config columns) (P := Inv config) ?_ ?_ h
  · intro s hs
    have hinit : s = { clock := s.clock, table := Table.empty } := hs
    rw [hinit]
    constructor
    · intro key
      rfl
    · intro w hw
      cases hw
    · intro v w hv
      cases hv
  · intro s a s' hi hstep
    exact inv_step hi hstep

/-- Only a cleanup removes a key. -/
theorem isProcessed_step (hstep : next config columns s a = some s')
    (hkey : isProcessed key s.table = true)
    (hkeep : ∀ now ttlDays batchSize keys, a = .cleanup now ttlDays batchSize keys → key ∉ keys) :
    isProcessed key s'.table = true := by
  rcases next_cases hstep with ⟨now, began, w, call, rfl, _, rfl⟩ | ⟨w, rfl, _, _, rfl⟩ |
      ⟨w, rfl, _, rfl⟩ | ⟨w, t, rfl, _, ht, rfl⟩ | ⟨w, rfl, _, _, _, rfl⟩ | ⟨w, rfl, rfl⟩ |
      ⟨now, ttlDays, batchSize, keys, rfl, rfl⟩
  case inr.inr.inr.inl =>
    show isProcessed key t = true
    rw [isProcessed_insert ht, hkey, Bool.true_or]
  case inr.inr.inr.inr.inr.inr =>
    show isProcessed key (s.table.deleteWhere _) = true
    rw [isProcessed_delete, hkey]
    simpa using hkeep now ttlDays batchSize keys rfl
  all_goals exact hkey

theorem isProcessed_path {u : Guards n} (hp : Path (guards n config columns) free as s bs u)
    (hkey : isProcessed key s.table = true)
    (hkeep : ∀ now ttlDays batchSize keys,
      Act.cleanup now ttlDays batchSize keys ∈ bs → key ∉ keys) :
    isProcessed key u.table = true := by
  induction hp with
  | nil => exact hkey
  | @snoc t u bs a _ _ hstep ih =>
    refine isProcessed_step hstep (ih fun now ttlDays batchSize keys hmem => ?_) ?_
    · exact hkeep now ttlDays batchSize keys (List.mem_append_left _ hmem)
    · rintro now ttlDays batchSize keys rfl
      exact hkeep now ttlDays batchSize keys (by simp)

theorem phase_of_enter {now began : ℤ}
    (hstep : next config columns s (.enter now began w call) = some s') :
    (s'.worker w).phase = entryPhase config call s.table := by
  simp only [next, Option.ite_none_right_eq_some, Option.some.injEq] at hstep
  rw [← hstep.2]
  show ((s.setWorker w _).worker w).phase = _
  rw [setWorker_self]

/-- A guard that did not yield True, or raised, inserts nothing. -/
theorem inserts_nothing (hstep : next config columns s a = some s')
    (hw : (s.worker w).phase = .skipped ∨ (s.worker w).phase = .raised) :
    (s'.worker w = s.worker w ∨ (s'.worker w).phase = .idle) ∧
      (a = .commit w → s'.table = s.table) := by
  have hne : (s.worker w).phase ≠ .idle ∧ (s.worker w).phase ≠ .body ∧
      (s.worker w).phase ≠ .marked true := by
    rcases hw with hw | hw <;> simp [hw]
  have hother : ∀ (u : Fin n) (x : Worker), u ≠ w → (s.setWorker u x).worker w = s.worker w :=
    fun u x hu => setWorker_of_ne (Ne.symm hu)
  rcases next_cases hstep with ⟨now, began, u, call, rfl, hidle, rfl⟩ | ⟨u, rfl, hbody, _, rfl⟩ |
      ⟨u, rfl, hbody, rfl⟩ | ⟨u, t, rfl, hu, _, rfl⟩ | ⟨u, rfl, _, _, _, rfl⟩ | ⟨u, rfl, rfl⟩ |
      ⟨now, ttlDays, batchSize, keys, rfl, rfl⟩
  · have huw : u ≠ w := by
      rintro rfl
      exact hne.1 hidle
    exact ⟨Or.inl (hother u _ huw), by simp⟩
  · have huw : u ≠ w := by
      rintro rfl
      exact hne.2.1 hbody
    exact ⟨Or.inl (hother u _ huw), by simp⟩
  · have huw : u ≠ w := by
      rintro rfl
      exact hne.2.1 hbody
    exact ⟨Or.inl (hother u _ huw), by simp⟩
  · have huw : u ≠ w := by
      rintro rfl
      exact hne.2.2 hu
    refine ⟨Or.inl (hother u _ huw), fun hact => ?_⟩
    simp only [Act.commit.injEq] at hact
    exact absurd hact huw
  · refine ⟨?_, fun _ => rfl⟩
    by_cases huw : u = w
    · subst huw
      exact Or.inr (congrArg Worker.phase setWorker_self)
    · exact Or.inl (hother u _ huw)
  · refine ⟨?_, by simp⟩
    by_cases huw : u = w
    · subst huw
      exact Or.inr (congrArg Worker.phase setWorker_self)
    · exact Or.inl (hother u _ huw)
  · exact ⟨Or.inl rfl, by simp⟩

/-- The runs for a key are in the log and have it. -/
theorem mem_since {run : GuardCall} (h : (run, phase) ∈ since config key log) :
    Entry.committed run phase ∈ log ∧ run.key config = key := by
  induction log with
  | nil => cases h
  | cons entry log ih =>
    cases entry with
    | cleaned keys =>
      simp only [since] at h
      split at h
      · cases h
      · exact ⟨List.mem_cons_of_mem _ (ih h).1, (ih h).2⟩
    | committed call phase' =>
      simp only [since] at h
      split at h
      · rename_i hkey
        rcases List.mem_cons.mp h with heq | h
        · cases heq
          exact ⟨List.mem_cons_self, hkey⟩
        · exact ⟨List.mem_cons_of_mem _ (ih h).1, (ih h).2⟩
      · exact ⟨List.mem_cons_of_mem _ (ih h).1, (ih h).2⟩

theorem exists_won (h : Inv config s) (hkey : isProcessed key s.table = true) :
    ∃ call, (call, Phase.marked true) ∈ since config key s.log := by
  have hwins := h.wins key
  rw [if_pos hkey] at hwins
  have hpos : 0 < (since config key s.log).countP fun run => run.2 = .marked true := by
    show 0 < wins config key s.log
    omega
  obtain ⟨⟨call, phase⟩, hmem, hrun⟩ := List.countP_pos_iff.mp hpos
  obtain rfl : phase = .marked true := by simpa using hrun
  exact ⟨call, hmem⟩

/-- Every state that the guards reach has sound keys. -/
theorem key_sound (h : Trace (guards n config columns) free as s) :
    KeySound config columns as s := by
  have hi := inv_of_trace h
  constructor
  · intro key hkey
    obtain ⟨call, hmem⟩ := exists_won hi hkey
    exact ⟨call, true, hmem⟩
  · intro key
    rw [hi.wins key]
    split <;> omega
  · intro key hkey
    rw [hi.wins key, if_pos hkey]
  · intro now began w call s' hstep hnone
    rw [phase_of_enter hstep]
    have hkey : isProcessed (call.key config) s.table = false := by
      apply Bool.eq_false_iff.mpr
      intro hkey
      obtain ⟨call', hmem⟩ := exists_won hi hkey
      exact hnone _ hmem true rfl
    simp [entryPhase, hkey]
  · rintro key hkey bs x hp hkeep now began w call y rfl hstep
    rw [phase_of_enter hstep]
    simp [entryPhase, isProcessed_path hp hkey hkeep]
  · intro a s' hstep w hw
    exact inserts_nothing hstep hw

def placed : GuardCall where
  eventId := "evt_abc123"
  handlerName := "DepositHandler"

/-- A body raises; the retry completes it and commits. The table has the column `tenant_id`, as the
docstring of `ProcessedEventTable` says. -/
theorem key_sound_retried : ∃ as s,
    Trace (guards 1 {} ("tenant_id" :: processedEventColumns)) free as s ∧ as.length = 6 ∧
      isProcessed "DepositHandler:evt_abc123" s.table = true ∧
      KeySound {} ("tenant_id" :: processedEventColumns) as s := by
  let as : List (Act 1) :=
    [.enter 0 0 0 placed, .raises 0, .rollback 0, .enter 1 1 0 placed, .mark 0, .commit 0]
  have h : (replay (guards 1 {} ("tenant_id" :: processedEventColumns)) free [] as
      { clock := 0, table := Table.empty }).map
      (fun s => isProcessed "DepositHandler:evt_abc123" s.table) = some true := by
    decide
  obtain ⟨s, hrun, hkey⟩ := Option.map_eq_some_iff.mp h
  have htrace := trace_of_replay (init_guards _ _ 0) hrun
  exact ⟨as, s, htrace, rfl, hkey, key_sound htrace⟩

end Taas.Idempotency
