import Taas.ScheduleOwner

/-!
How an interval job catches up. The next occurrence is computed from the one that was
fired, not from the clock, so one worker that polls until nothing is due fires every
occurrence up to the poll, one after the other, also after a long gap. The other jobs of
the table may be of any kind whose recurrence can be computed.
-/
namespace Taas.ScheduleCatchUp

open Python Sql Schedule Transition SchedulePoller ScheduleOwner

variable {J : Type}

/-- A dispatch: the job, the occurrence and the clock. -/
structure Fire where
  id : String
  occurrence : ℤ
  clock : ℤ
  deriving DecidableEq

def fired (s : Scheduler J 1) : Act J 1 → List Fire
  | .dispatch w => ((s.worker w).batch.head?.map fun job =>
      { id := job.1, occurrence := job.2.nextRunAt, clock := s.clock }).toList
  | _ => []

abbrev fireRuns (J : Type) (cronNext : String → ℤ → Except String ℤ) (config : ScheduleConfig) :
    System (Scheduler J 1 × List Fire) (Act J 1) :=
  (scheduler J 1 cronNext config).recording fired

/-- The next occurrence can always be computed, and is a later one. -/
def Recurring (cronNext : String → ℤ → Except String ℤ) (kind : ScheduleJobKind)
    (intervalSeconds : Option ℤ) (cronExpr : Option String) : Prop :=
  ∀ after, ∃ result, computeNextRun cronNext kind after intervalSeconds cronExpr = .ok result ∧
    ∀ t ∈ result, after < t

/-- Every dispatch succeeds, and nothing is cancelled or reset. -/
def Steady (cronNext : String → ℤ → Except String ℤ) : Condition (Scheduler J 1) (Act J 1) :=
  fun _ _ a =>
    match a with
    | .create _ m => Recurring cronNext m.kind m.intervalSeconds m.cronExpr
    | .fetch _ _ _ | .dispatch _ | .dispatchReturns _ _ => True
    | .dispatchRaises _ _ _ | .abandon _ | .cancel _ | .resetStale _ => False

/-- The steps of `_poll_and_fire` at one time, with a batch that is not empty. -/
def PollsAt (now : ℤ) : Condition (Scheduler J 1) (Act J 1) := fun _ _ a =>
  match a with
  | .fetch t _ ids => t = now ∧ ids ≠ []
  | .dispatch _ => True
  | .dispatchReturns t _ => t = now
  | _ => False

/-- Nothing is due and nothing is being fired. -/
def Drained (now : ℤ) (s : Scheduler J 1) : Prop :=
  (∀ w, s.worker w = {}) ∧ ∀ id row, s.table.get? id = some row → due now row = false

def pollTimes (as : List (Act J 1)) : List ℤ :=
  as.filterMap fun
    | .fetch now _ _ => some now
    | _ => none

def firesOf (id : String) (fires : List Fire) : List ℤ :=
  (fires.filter fun f => f.id = id).map Fire.occurrence

def occurrences (first intervalSeconds : ℤ) (k : ℕ) : List ℤ :=
  (List.range k).map fun j : ℕ => first + j * seconds intervalSeconds

/-- The first `k` occurrences were fired, none before its time; they are those up to `now`
within the cap, they are counted, and the job is DONE iff they reach the cap. -/
structure CaughtUp (now : ℤ) (id : String) (m : NewJob J) (interval : ℤ)
    (x : Scheduler J 1 × List Fire) (row : ScheduledJob J) (k : ℕ) : Prop where
  stored : x.1.table.get? id = some row
  fires : firesOf id x.2 = occurrences m.nextRunAt interval k
  increasing : (firesOf id x.2).Pairwise (· < ·)
  upTo : ∀ j : ℕ, j < k ↔
    m.nextRunAt + j * seconds interval ≤ now ∧ ∀ cap ∈ m.maxRuns, (j : ℤ) < cap
  onTime : ∀ f ∈ x.2, f.id = id → f.occurrence ≤ f.clock
  runCount : row.runCount = k
  status : row.status = .done ↔ m.maxRuns = some (k : ℤ)

/-- Polling ends with nothing due, and then every interval job has caught up. -/
structure CatchesUp (cronNext : String → ℤ → Except String ℤ) (config : ScheduleConfig)
    (as : List (Act J 1)) (x : Scheduler J 1 × List Fire) : Prop where
  ends : ∀ now, x.1.clock ≤ now → ∃ limit, ∀ bs y,
    Path (fireRuns J cronNext config) (Condition.ignoring (PollsAt now) Fire) as x bs y →
    bs.length ≤ limit ∧ (Drained now y.1 ∨
      ∃ b z, PollsAt now (as ++ bs) y.1 b ∧ (fireRuns J cronNext config).next y b = some z)
  caughtUp : ∀ now, (∀ t ∈ pollTimes as, t ≤ now) → Drained now x.1 →
    ∀ id m interval, .create id m ∈ as → m.kind = .interval → m.intervalSeconds = some interval →
      0 < interval → (∀ cap ∈ m.maxRuns, 1 ≤ cap) →
      ∃ row k, CaughtUp now id m interval x row k

variable {cronNext : String → ℤ → Except String ℤ} {config : ScheduleConfig}
variable {s s' : Scheduler J 1} {a : Act J 1} {as : List (Act J 1)} {w v : Fin 1}
variable {job : String × ScheduledJob J} {row : ScheduledJob J} {fires : List Fire}
variable {x : Scheduler J 1 × List Fire} {now : ℤ}

theorem row_of_held (ho : Owned s) (hjob : job ∈ held (s.worker w)) :
    ∃ row, s.table.get? job.1 = some row ∧ row.status ≠ .done ∧ Agrees row job.2 := by
  obtain ⟨row, hrow, hstatus, hag⟩ := ho.claimed w job hjob
  refine ⟨row, hrow, ?_, hag⟩
  rcases hstatus with h | h <;> simp [h]

theorem recurring_of_interval {interval : ℤ} (h : 0 < interval) (expr : Option String) :
    Recurring cronNext .interval (some interval) expr := by
  intro after
  refine ⟨some (after + seconds interval), ?_, ?_⟩
  · simp [computeNextRun, not_le.mpr h]
  · rintro t ⟨⟩
    unfold seconds
    omega

def AllRecurring (cronNext : String → ℤ → Except String ℤ) (s : Scheduler J 1) : Prop :=
  ∀ id row, s.table.get? id = some row →
    Recurring cronNext row.kind row.intervalSeconds row.cronExpr

theorem nextRunOf_eq (ho : Owned s) (hr : AllRecurring cronNext s)
    (hjob : job ∈ held (s.worker w)) :
    ∃ result, nextRunOf cronNext job.2 = .ok result ∧ ∀ t ∈ result, job.2.nextRunAt < t := by
  obtain ⟨row, hrow, -, hag⟩ := ho.claimed w job hjob
  obtain ⟨result, hresult, hlater⟩ := hr job.1 row hrow job.2.nextRunAt
  refine ⟨result, ?_, hlater⟩
  unfold nextRunOf
  rw [← hag] at hresult ⊢
  exact hresult

/-- A steady step is a creation, a claim, a dispatch or the mark of a success. -/
theorem steady_cases (ho : Owned s) (hr : AllRecurring cronNext s)
    (hok : Steady cronNext as s a) (hstep : next cronNext config s a = some s') :
    (∃ id m t, a = .create id m ∧ s.table.insert id (m.job config) = some t ∧
      Recurring cronNext m.kind m.intervalSeconds m.cronExpr ∧ s' = { s with table := t }) ∨
    (∃ now w ids, a = .fetch now w ids ∧ s.clock ≤ now ∧ (s.worker w).batch = [] ∧
      (s.worker w).firing = none ∧ FetchesDue config (some config.batchSize) now s.table ids ∧
      s' = { s.setWorker w { batch := (fetchDueBatch now ids s.table).rowsOf ids } with
        clock := now
        table := fetchDueBatch now ids s.table }) ∨
    (∃ w job batch, a = .dispatch w ∧ (s.worker w).batch = job :: batch ∧
      (s.worker w).firing = none ∧ s' = s.setWorker w { batch := batch, firing := some job }) ∨
    (∃ now w job nextRun, a = .dispatchReturns now w ∧ s.clock ≤ now ∧
      (s.worker w).firing = some job ∧ nextRunOf cronNext job.2 = .ok nextRun ∧
      (∀ t ∈ nextRun, job.2.nextRunAt < t) ∧
      s' = { s.setWorker w { s.worker w with firing := none } with
        clock := now
        table := markSucceeded now job.1 job.2 nextRun s.table }) := by
  rcases next_cases hstep with ⟨id, m, t, rfl, ht, rfl⟩ | ⟨now, w, ids, rfl, h⟩ |
      ⟨w, job, batch, rfl, h⟩ | ⟨now, w, job, nextRun, rfl, hclock, hf, hn, rfl⟩ |
      ⟨now, w, job, e, rfl, _, hf, he, _⟩ | ⟨now, w, error, job, rfl, _⟩ |
      ⟨w, rfl, _⟩ | ⟨id, rfl, _⟩ | ⟨now, rfl, _⟩
  · exact Or.inl ⟨id, m, t, rfl, ht, hok, rfl⟩
  · exact Or.inr (Or.inl ⟨now, w, ids, rfl, h⟩)
  · exact Or.inr (Or.inr (Or.inl ⟨w, job, batch, rfl, h⟩))
  · obtain ⟨result, hresult, hlater⟩ := nextRunOf_eq ho hr (mem_held_of_firing hf)
    obtain rfl : result = nextRun := by simpa [hresult] using hn
    exact Or.inr (Or.inr (Or.inr ⟨now, w, job, result, rfl, hclock, hf, hn, hlater, rfl⟩))
  · obtain ⟨result, hresult, -⟩ := nextRunOf_eq ho hr (mem_held_of_firing hf)
    simp [he] at hresult
  · exact hok.elim
  · exact hok.elim
  · exact hok.elim
  · exact hok.elim

theorem sparesHeld_of_steady (hok : Steady cronNext as s a) : SparesHeld config as s a := by
  cases a with
  | resetStale now => exact hok.elim
  | _ => trivial

theorem recurring_step (ho : Owned s) (hr : AllRecurring cronNext s) (hok : Steady cronNext as s a)
    (hstep : next cronNext config s a = some s') : AllRecurring cronNext s' := by
  have hunmarked : ∀ s', Unmarked s s' → AllRecurring cronNext s' := by
    intro s' hs id row' h
    obtain ⟨row, hrow, hag, -⟩ := hs.row id row' h
    rw [hag.kind, hag.intervalSeconds, hag.cronExpr]
    exact hr id row hrow
  rcases steady_cases ho hr hok hstep with ⟨id, m, t, rfl, ht, hm, rfl⟩ |
      ⟨now, w, ids, rfl, _, hb, hf, hids, rfl⟩ | ⟨w, job, batch, rfl, hb, hf, rfl⟩ |
      ⟨now, w, job, nextRun, rfl, _, hf, _, _, rfl⟩
  · intro j row h
    change t.get? j = some row at h
    rw [(Table.insert_eq_some ht).2] at h
    split at h
    · obtain rfl := Option.some.inj h
      exact hm
    · exact hr j row h
  · exact hunmarked _ (unmarked_fetch hids)
  · exact hunmarked _ (unmarked_dispatch hb hf)
  · intro j row' h
    change (markSucceeded now job.1 job.2 nextRun s.table).get? j = some row' at h
    rw [get?_markSucceeded] at h
    obtain ⟨row, hrow, rfl⟩ := Option.map_eq_some_iff.mp h
    split
    · exact hr j row hrow
    · exact hr j row hrow

def Held (s : Scheduler J 1) (id : String) : Prop := ∃ w, ∃ job ∈ held (s.worker w), job.1 = id

def Busy (s : Scheduler J 1) : Prop := ∀ id row, s.table.get? id = some row →
  row.status = .scheduled ∨ row.status = .done ∨ (row.status = .running ∧ Held s id)

theorem busy_step (ho : Owned s) (hr : AllRecurring cronNext s) (hb : Busy s)
    (hok : Steady cronNext as s a) (hstep : next cronNext config s a = some s') : Busy s' := by
  rcases steady_cases ho hr hok hstep with ⟨id, m, t, rfl, ht, _, rfl⟩ |
      ⟨now, w, ids, rfl, _, hbatch, hf, hids, rfl⟩ | ⟨w, job, batch, rfl, hbatch, hf, rfl⟩ |
      ⟨now, w, job, nextRun, rfl, _, hf, _, _, rfl⟩
  · intro j row h
    change t.get? j = some row at h
    rw [(Table.insert_eq_some ht).2] at h
    split at h
    · obtain rfl := Option.some.inj h
      exact Or.inl rfl
    · exact hb j row h
  · intro j row' h
    change (fetchDueBatch now ids s.table).get? j = some row' at h
    by_cases hj : j ∈ ids
    · have hmem := Table.mem_rowsOf hj h
      obtain ⟨i, hi, rfl⟩ := List.mem_map.mp hmem
      rw [get?_fetchDueBatch] at h
      obtain ⟨row, -, rfl⟩ := Option.map_eq_some_iff.mp h
      rw [if_pos hj]
      refine Or.inr (Or.inr ⟨rfl, w, i, ?_, rfl⟩)
      show i ∈ held ((s.setWorker w _).worker w)
      rw [setWorker_self]
      exact mem_held_of_batch hi
    · rw [get?_fetchDueBatch] at h
      obtain ⟨row, hrow, rfl⟩ := Option.map_eq_some_iff.mp h
      rw [if_neg hj]
      rcases hb j row hrow with h | h | ⟨-, v, i, hi, -⟩
      · exact Or.inl h
      · exact Or.inr (Or.inl h)
      · -- the worker that claims holds nothing
        obtain rfl : v = w := Subsingleton.elim v w
        rw [held_idle hbatch hf] at hi
        cases hi
  · intro j row h
    change s.table.get? j = some row at h
    rcases hb j row h with hs | hs | ⟨hs, v, i, hi, rfl⟩
    · exact Or.inl hs
    · exact Or.inr (Or.inl hs)
    · exact Or.inr (Or.inr ⟨hs, v, i, (held_dispatch hbatch hf v).mem_iff.mpr hi, rfl⟩)
  · intro j row' h
    change (markSucceeded now job.1 job.2 nextRun s.table).get? j = some row' at h
    rw [get?_markSucceeded] at h
    obtain ⟨row, hrow, rfl⟩ := Option.map_eq_some_iff.mp h
    by_cases hj : j = job.1
    · rw [if_pos hj]
      by_cases hlast : lastFire job.2 nextRun = true
      · exact Or.inr (Or.inl (by simp [afterSuccess, hlast]))
      · exact Or.inl (by simp [afterSuccess, hlast])
    · rw [if_neg hj]
      rcases hb j row hrow with hs | hs | ⟨hs, v, i, hi, rfl⟩
      · exact Or.inl hs
      · exact Or.inr (Or.inl hs)
      · obtain rfl : v = w := Subsingleton.elim v w
        refine Or.inr (Or.inr ⟨hs, v, i, ?_, rfl⟩)
        have hne : i ≠ job := by
          rintro rfl
          exact hj rfl
        have hmem : i ∈ (s.worker v).batch := by simpa [held, hf, Ne.symm hne, hne] using hi
        show i ∈ held ((s.setWorker v _).worker v)
        rw [setWorker_self]
        exact mem_held_of_batch hmem

theorem exists_held_of_fired {f : Fire} (h : f ∈ fired s a) :
    ∃ w, ∃ job ∈ held (s.worker w), f.occurrence = job.2.nextRunAt ∧ f.clock = s.clock := by
  cases a with
  | dispatch w =>
    simp only [fired, Option.mem_toList, Option.map_eq_some_iff] at h
    obtain ⟨job, hjob, rfl⟩ := h
    exact ⟨w, job, mem_held_of_batch (List.mem_of_mem_head? hjob), rfl, rfl⟩
  | _ => simp [fired] at h

theorem clock_le (hstep : next cronNext config s a = some s') (ho : Owned s)
    (hr : AllRecurring cronNext s) (hok : Steady cronNext as s a) : s.clock ≤ s'.clock := by
  rcases steady_cases ho hr hok hstep with ⟨id, m, t, rfl, _, _, rfl⟩ |
      ⟨now, v, ids, rfl, hclock, _, _, _, rfl⟩ | ⟨v, i, batch, rfl, _, _, rfl⟩ |
      ⟨now, v, i, nextRun, rfl, hclock, _, _, _, rfl⟩
  · exact le_refl _
  · exact hclock
  · exact le_refl _
  · exact hclock

/-- Nothing is claimed or fired before its time, or after the last poll. -/
structure Timely (as : List (Act J 1)) (x : Scheduler J 1 × List Fire) : Prop where
  claimed : ∀ w, ∀ job ∈ held (x.1.worker w), job.2.nextRunAt ≤ x.1.clock
  onTime : ∀ f ∈ x.2, f.occurrence ≤ f.clock
  polled : ∀ now, (∀ t ∈ pollTimes as, t ≤ now) →
    (∀ w, ∀ job ∈ held (x.1.worker w), job.2.nextRunAt ≤ now) ∧ ∀ f ∈ x.2, f.occurrence ≤ now

theorem timely_step (ht : Timely as (s, fires)) (ho : Owned s) (hr : AllRecurring cronNext s)
    (hok : Steady cronNext as s a) (hstep : next cronNext config s a = some s') :
    Timely (as ++ [a]) (s', fires ++ fired s a) := by
  have hclock := clock_le hstep ho hr hok
  constructor
  · intro w job hjob
    rcases held_cases hstep hjob with h | ⟨now, ids, row, rfl, -, -, hnow, heq⟩
    · exact le_trans (ht.claimed w job h) hclock
    · have hset : s'.clock = now := by
        obtain ⟨-, hs'⟩ := Option.ite_none_right_eq_some.mp hstep
        rw [← Option.some.inj hs']
      rw [hset, heq]
      exact hnow
  · intro f hf
    rcases List.mem_append.mp hf with hf | hf
    · exact ht.onTime f hf
    · obtain ⟨w, job, hjob, hocc, hat⟩ := exists_held_of_fired hf
      rw [hocc, hat]
      exact ht.claimed w job hjob
  · intro now hnow
    have hbefore : ∀ t ∈ pollTimes as, t ≤ now := by
      intro t hmem
      apply hnow
      unfold pollTimes at *
      rw [List.filterMap_append]
      exact List.mem_append_left _ hmem
    obtain ⟨hheld, hfired⟩ := ht.polled now hbefore
    constructor
    · intro w job hjob
      rcases held_cases hstep hjob with h | ⟨t, ids, row, rfl, -, -, ht', heq⟩
      · exact hheld w job h
      · have hle : t ≤ now := hnow t (by simp [pollTimes])
        rw [heq]
        exact ht'.trans hle
    · intro f hf
      rcases List.mem_append.mp hf with hf | hf
      · exact hfired f hf
      · obtain ⟨w, job, hjob, hocc, -⟩ := exists_held_of_fired hf
        rw [hocc]
        exact hheld w job hjob

theorem occurrences_succ (first interval : ℤ) (k : ℕ) :
    occurrences first interval (k + 1) =
      occurrences first interval k ++ [first + k * seconds interval] := by
  simp [occurrences, List.range_succ]

theorem firesOf_concat (id : String) (occurrence clock : ℤ) :
    firesOf id (fires ++ [⟨id, occurrence, clock⟩]) = firesOf id fires ++ [occurrence] := by
  simp [firesOf]

theorem firesOf_concat_of_ne {f : Fire} {id : String} (h : f.id ≠ id) :
    firesOf id (fires ++ [f]) = firesOf id fires := by
  simp [firesOf, h]

/-- `k` occurrences were fired; the present one follows those that are counted. -/
structure Underway (m : NewJob J) (interval : ℤ) (id : String) (s : Scheduler J 1)
    (fires : List Fire) (row : ScheduledJob J) (k : ℕ) : Prop where
  stored : s.table.get? id = some row
  kind : row.kind = .interval
  intervalSeconds : row.intervalSeconds = some interval
  maxRuns : row.maxRuns = m.maxRuns
  fires : firesOf id fires = occurrences m.nextRunAt interval k
  firing : Firing s id → (k : ℤ) = row.runCount + 1
  waiting : ¬ Firing s id → (k : ℤ) = row.runCount
  finished : row.status = .done → m.maxRuns = some row.runCount
  ahead : row.status ≠ .done → row.nextRunAt = m.nextRunAt + row.runCount * seconds interval ∧
    ∀ cap ∈ m.maxRuns, row.runCount < cap

variable {m : NewJob J} {interval : ℤ} {id : String} {k : ℕ}

/-- A job whose row, fires and dispatch are the same is as far as before. -/
theorem Underway.untouched {fires' : List Fire} (hu : Underway m interval id s fires row k)
    (hstored : s'.table.get? id = some row) (hfires : firesOf id fires' = firesOf id fires)
    (hsame : Firing s' id ↔ Firing s id) : Underway m interval id s' fires' row k :=
  { hu with
    stored := hstored
    fires := hfires.trans hu.fires
    firing := fun h => hu.firing (hsame.mp h)
    waiting := fun h => hu.waiting fun h' => h (hsame.mpr h') }

theorem nextRun_of_interval {job : ScheduledJob J} {nextRun : Option ℤ} (hpos : 0 < interval)
    (hkind : job.kind = .interval) (hinterval : job.intervalSeconds = some interval)
    (hn : nextRunOf cronNext job = .ok nextRun) :
    nextRun = some (job.nextRunAt + seconds interval) := by
  unfold nextRunOf computeNextRun at hn
  rw [hkind, hinterval] at hn
  simpa [not_le.mpr hpos, eq_comm] using hn

/-- Below its cap, a job that has a next occurrence ends when it reaches the cap. -/
theorem lastFire_iff {job : ScheduledJob J} {t : ℤ}
    (hbelow : ∀ cap ∈ job.maxRuns, job.runCount < cap) :
    lastFire job (some t) = true ↔ job.maxRuns = some (job.runCount + 1) := by
  unfold lastFire
  cases hmax : job.maxRuns with
  | none => simp
  | some cap =>
    have hlt := hbelow cap hmax
    simp only [reduceCtorEq, false_or, Option.any_some, decide_eq_true_eq, Option.some.injEq]
    omega

theorem underway_create {t : JobTable J} (ho : Owned s) (hfresh : firesOf id fires = [])
    (ht : s.table.insert id (m.job config) = some t) (hkind : m.kind = .interval)
    (hinterval : m.intervalSeconds = some interval) (hcap : ∀ cap ∈ m.maxRuns, 1 ≤ cap) :
    Underway m interval id { s with table := t } fires (m.job config) 0 := by
  obtain ⟨hnew, hget⟩ := Table.insert_eq_some ht
  have hidle := not_firing_of_missing ho hnew
  exact {
    stored := by
      show t.get? id = _
      rw [hget, if_pos rfl]
    kind := hkind
    intervalSeconds := hinterval
    maxRuns := rfl
    fires := hfresh
    firing := fun h => absurd h hidle
    waiting := fun _ => rfl
    finished := fun h => by cases h
    ahead := by
      intro _
      constructor
      · show m.nextRunAt = m.nextRunAt + 0 * seconds interval
        omega
      · intro cap hmem
        show (0 : ℤ) < cap
        have := hcap cap hmem
        omega }

theorem underway_dispatch {batch : List (String × ScheduledJob J)} (ho : Owned s)
    (hu : Underway m interval id s fires row k) (hb : (s.worker w).batch = job :: batch)
    (hf : (s.worker w).firing = none) : ∃ row k, Underway m interval id
      (s.setWorker w { batch := batch, firing := some job })
      (fires ++ [{ id := job.1, occurrence := job.2.nextRunAt, clock := s.clock }]) row k := by
  by_cases hid : job.1 = id
  · subst hid
    have hmem : job ∈ held (s.worker w) := mem_held_of_batch (by simp [hb])
    obtain ⟨old, hold, hnot, hag⟩ := row_of_held ho hmem
    obtain rfl : row = old := by simpa [hu.stored] using hold
    obtain ⟨hnext, hbelow⟩ := hu.ahead hnot
    have hk := hu.waiting (not_firing_of_batch ho hb hf)
    exact ⟨row, k + 1, {
      stored := hu.stored
      kind := hu.kind
      intervalSeconds := hu.intervalSeconds
      maxRuns := hu.maxRuns
      fires := by
        rw [firesOf_concat, hu.fires, occurrences_succ, hag.nextRunAt, hnext, hk]
      firing := fun _ => by omega
      waiting := fun h => absurd ⟨w, job, by simp, rfl⟩ h
      finished := hu.finished
      ahead := hu.ahead }⟩
  · exact ⟨row, k, hu.untouched hu.stored (firesOf_concat_of_ne hid)
      (firing_dispatch job batch hf id (Ne.symm hid))⟩

theorem underway_dispatchReturns {nextRun : Option ℤ} (ho : Owned s) (hpos : 0 < interval)
    (hu : Underway m interval id s fires row k) (hf : (s.worker w).firing = some job)
    (hn : nextRunOf cronNext job.2 = .ok nextRun) : ∃ row, Underway m interval id
      { s.setWorker w { s.worker w with firing := none } with
        clock := now
        table := markSucceeded now job.1 job.2 nextRun s.table } fires row k := by
  have hsame := firing_release now (markSucceeded now job.1 job.2 nextRun s.table) ho hf id
  have hget := get?_markSucceeded now job.1 job.2 nextRun s.table id
  rw [hu.stored, Option.map_some] at hget
  by_cases hid : id = job.1
  · obtain ⟨old, hold, hnot, hag⟩ := row_of_held ho (mem_held_of_firing hf)
    obtain rfl : row = old := by simpa [← hid, hu.stored] using hold
    obtain ⟨hnext, hbelow⟩ := hu.ahead hnot
    have hk := hu.firing ⟨w, job, hf, hid.symm⟩
    have hlater := nextRun_of_interval hpos (hag.kind.trans hu.kind)
      (hag.intervalSeconds.trans hu.intervalSeconds) hn
    have hcapped : lastFire job.2 nextRun = true ↔ m.maxRuns = some (row.runCount + 1) := by
      rw [hlater, lastFire_iff, hag.maxRuns, hu.maxRuns, hag.runCount]
      intro cap hcap
      rw [hag.maxRuns, hu.maxRuns] at hcap
      rw [hag.runCount]
      exact hbelow cap hcap
    rw [if_pos hid] at hget
    refine ⟨afterSuccess now job.2 nextRun row, {
      stored := hget
      kind := hu.kind
      intervalSeconds := hu.intervalSeconds
      maxRuns := hu.maxRuns
      fires := hu.fires
      firing := fun h => absurd hid (hsame.mp h).1
      waiting := fun _ => ?_
      finished := fun h => ?_
      ahead := fun h => ?_ }⟩
    · show (k : ℤ) = job.2.runCount + 1
      rw [hk, hag.runCount]
    · have hlast : lastFire job.2 nextRun = true := by
        by_contra hno
        simp [afterSuccess, hno] at h
      show m.maxRuns = some (job.2.runCount + 1)
      rw [hag.runCount]
      exact hcapped.mp hlast
    · have hgoes : lastFire job.2 nextRun = false := by
        by_contra hno
        simp [afterSuccess, hno] at h
      have huncapped : m.maxRuns ≠ some (row.runCount + 1) := by
        intro hmax
        simp [hcapped.mpr hmax] at hgoes
      constructor
      · have hmoved : (afterSuccess now job.2 nextRun row).nextRunAt =
            nextRun.getD job.2.nextRunAt := by
          simp [afterSuccess, hgoes]
        show _ = m.nextRunAt + (job.2.runCount + 1) * seconds interval
        rw [hmoved, hlater, Option.getD_some, hag.nextRunAt, hnext, hag.runCount, Int.add_mul,
          Int.one_mul, Int.add_assoc]
      · intro cap hcap
        show job.2.runCount + 1 < cap
        have hlt := hbelow cap hcap
        have hne : cap ≠ row.runCount + 1 := by
          rintro rfl
          exact huncapped hcap
        rw [hag.runCount]
        omega
  · rw [if_neg hid] at hget
    refine ⟨row, hu.untouched hget rfl ?_⟩
    rw [hsame]
    exact and_iff_right hid

theorem underway_step (ho : Owned s) (hr : AllRecurring cronNext s) (hok : Steady cronNext as s a)
    (hstep : next cronNext config s a = some s') (hpos : 0 < interval)
    (hu : Underway m interval id s fires row k) :
    ∃ row k, Underway m interval id s' (fires ++ fired s a) row k := by
  rcases steady_cases ho hr hok hstep with ⟨i, m', t, rfl, ht, _, rfl⟩ |
      ⟨now, w, ids, rfl, _, hb, hf, hids, rfl⟩ | ⟨w, job, batch, rfl, hb, hf, rfl⟩ |
      ⟨now, w, job, nextRun, rfl, _, hf, hn, _, rfl⟩
  case inr.inr.inl =>
    simp only [fired, hb, List.head?_cons, Option.map_some, Option.toList_some]
    exact underway_dispatch ho hu hb hf
  all_goals
    show ∃ row k, Underway m interval id _ (fires ++ []) row k
    rw [List.append_nil]
  · obtain ⟨hnew, hget⟩ := Table.insert_eq_some ht
    have hne : id ≠ i := by
      rintro rfl
      simp [hu.stored] at hnew
    refine ⟨row, k, { hu with stored := ?_ }⟩
    show t.get? id = some row
    rw [hget, if_neg hne, hu.stored]
  · have hsame := firing_fetch ((fetchDueBatch now ids s.table).rowsOf ids) now
      (fetchDueBatch now ids s.table) hf id
    have hget := get?_fetchDueBatch now ids s.table id
    rw [hu.stored, Option.map_some] at hget
    have hnot : id ∈ ids → row.status ≠ .done := by
      intro hmem
      obtain ⟨row', hrow', hs, -⟩ := hids.row hmem
      obtain rfl : row = row' := by simpa [hu.stored] using hrow'
      simp [hs]
    by_cases hmem : id ∈ ids
    · rw [if_pos hmem] at hget
      exact ⟨_, k, {
        stored := hget
        kind := hu.kind
        intervalSeconds := hu.intervalSeconds
        maxRuns := hu.maxRuns
        fires := hu.fires
        firing := fun h => hu.firing (hsame.mp h)
        waiting := fun h => hu.waiting fun h' => h (hsame.mpr h')
        finished := fun h => by simp at h
        ahead := fun _ => hu.ahead (hnot hmem) }⟩
    · rw [if_neg hmem] at hget
      exact ⟨row, k, hu.untouched hget rfl hsame⟩
  · obtain ⟨row', hu'⟩ := underway_dispatchReturns ho hpos hu hf hn
    exact ⟨row', k, hu'⟩

/-- Every job that has no row was never fired, and every interval job is under way. -/
structure Tracked (as : List (Act J 1)) (x : Scheduler J 1 × List Fire) : Prop where
  fresh : ∀ id, x.1.table.get? id = none → firesOf id x.2 = []
  jobs : ∀ id m interval, .create id m ∈ as → m.kind = .interval →
    m.intervalSeconds = some interval → 0 < interval → (∀ cap ∈ m.maxRuns, 1 ≤ cap) →
    ∃ row k, Underway m interval id x.1 x.2 row k

theorem tracked_step (hx : Tracked as (s, fires)) (ho : Owned s) (hr : AllRecurring cronNext s)
    (hok : Steady cronNext as s a) (hstep : next cronNext config s a = some s') :
    Tracked (as ++ [a]) (s', fires ++ fired s a) := by
  constructor
  · intro id hid
    have hbefore : s.table.get? id = none := by
      rcases steady_cases ho hr hok hstep with ⟨i, m, t, rfl, ht, _, rfl⟩ |
          ⟨now, w, ids, rfl, _, _, _, hids, rfl⟩ | ⟨w, job, batch, rfl, _, _, rfl⟩ |
          ⟨now, w, job, nextRun, rfl, _, _, _, _, rfl⟩
      · change t.get? id = none at hid
        rw [(Table.insert_eq_some ht).2] at hid
        split at hid
        · cases hid
        · exact hid
      · exact (unmarked_fetch hids).missing id hid
      · exact hid
      · change (markSucceeded now job.1 job.2 nextRun s.table).get? id = none at hid
        rwa [get?_markSucceeded, Option.map_eq_none_iff] at hid
    have hnone : ∀ f ∈ fired s a, f.id ≠ id := by
      intro f hf heq
      cases a with
      | dispatch w =>
        simp only [fired, Option.mem_toList, Option.map_eq_some_iff] at hf
        obtain ⟨job, hjob, rfl⟩ := hf
        have hheld := mem_held_of_batch (List.mem_of_mem_head? hjob)
        obtain ⟨row, hrow, -⟩ := ho.claimed w job hheld
        obtain rfl : job.1 = id := heq
        simp [hbefore] at hrow
      | _ => simp [fired] at hf
    have hfires : firesOf id (fired s a) = [] := by
      unfold firesOf
      rw [List.map_eq_nil_iff, List.filter_eq_nil_iff]
      intro f hf
      simpa using hnone f hf
    have hsplit : firesOf id (fires ++ fired s a) = firesOf id fires ++ firesOf id (fired s a) := by
      simp [firesOf]
    rw [hsplit, hfires, List.append_nil]
    exact hx.fresh id hbefore
  · intro id m interval hmem hkind hinterval hpos hcap
    rcases List.mem_append.mp hmem with hmem | hmem
    · obtain ⟨row, k, hu⟩ := hx.jobs id m interval hmem hkind hinterval hpos hcap
      exact underway_step ho hr hok hstep hpos hu
    · obtain rfl := List.mem_singleton.mp hmem
      obtain ⟨t, ht, rfl⟩ := Option.map_eq_some_iff.mp hstep
      have hfresh := hx.fresh id (Table.insert_eq_some ht).1
      refine ⟨m.job config, 0, ?_⟩
      show Underway m interval id _ (fires ++ []) _ 0
      rw [List.append_nil]
      exact underway_create ho hfresh ht hkind hinterval hcap

/-- What holds in every steady run. -/
structure Orderly (cronNext : String → ℤ → Except String ℤ) (as : List (Act J 1))
    (x : Scheduler J 1 × List Fire) : Prop where
  owned : Owned x.1
  recurring : AllRecurring cronNext x.1
  busy : Busy x.1
  timely : Timely as x
  tracked : Tracked as x

theorem orderly_of_trace (h : Trace (fireRuns J cronNext config)
    (Condition.ignoring (Steady cronNext) Fire) as x) : Orderly cronNext as x := by
  refine Trace.induct (M := fireRuns J cronNext config) (I := Orderly cronNext) ?_ ?_ as x h
  · rintro ⟨s, fires⟩ ⟨hs, hfires⟩
    have hinit : s = { clock := s.clock, table := Table.empty } := hs
    simp only at hfires
    subst hfires
    rw [hinit]
    exact {
      owned := owned_init _
      recurring := fun id row hid => by simp [Table.get?_empty] at hid
      busy := fun id row hid => by simp [Table.get?_empty] at hid
      timely := by constructor <;> simp [held]
      tracked := by
        constructor
        · exact fun _ _ => rfl
        · intro id m interval hmem
          cases hmem }
  · rintro as ⟨s, fires⟩ a ⟨s', fires'⟩ _ hi hok hstep
    obtain ⟨hnext, hrecord⟩ := recording_next hstep
    obtain rfl : fires' = fires ++ fired s a := hrecord
    exact {
      owned := owned_step hi.owned (sparesHeld_of_steady hok) hnext
      recurring := recurring_step hi.owned hi.recurring hok hnext
      busy := busy_step hi.owned hi.recurring hi.busy hok hnext
      timely := timely_step hi.timely hi.owned hi.recurring hok hnext
      tracked := tracked_step hi.tracked hi.owned hi.recurring hok hnext }

theorem idle_of_drained (hd : Drained now s) (id : String) : ¬ Firing s id ∧ ¬ Held s id := by
  constructor
  · rintro ⟨w, job, hf, -⟩
    rw [hd.1 w] at hf
    cases hf
  · rintro ⟨w, job, hjob, -⟩
    rw [hd.1 w] at hjob
    cases hjob

theorem mul_seconds_le (hpos : 0 < interval) {i j : ℕ} (hij : i ≤ j) :
    (i : ℤ) * seconds interval ≤ j * seconds interval := by
  unfold seconds
  apply Int.mul_le_mul_of_nonneg_right <;> omega

theorem occurrences_increasing (hpos : 0 < interval) (first : ℤ) (k : ℕ) :
    (occurrences first interval k).Pairwise (· < ·) := by
  unfold occurrences
  rw [List.pairwise_map]
  refine List.pairwise_lt_range.imp ?_
  intro i j hij
  have hstep := mul_seconds_le hpos (Nat.succ_le_of_lt hij)
  rw [Nat.cast_succ, Int.add_mul, Int.one_mul] at hstep
  have hseconds : 0 < seconds interval := by
    unfold seconds
    omega
  omega

theorem caughtUp_of_drained (hx : Orderly cronNext as x) (hpolls : ∀ t ∈ pollTimes as, t ≤ now)
    (hd : Drained now x.1) (hpos : 0 < interval) (hu : Underway m interval id x.1 x.2 row k) :
    CaughtUp now id m interval x row k := by
  obtain ⟨hfiring, hheld⟩ := idle_of_drained hd id
  have hk := hu.waiting hfiring
  have hfired : ∀ j < k, m.nextRunAt + j * seconds interval ≤ now := by
    intro j hj
    have hmem : m.nextRunAt + j * seconds interval ∈ firesOf id x.2 := by
      rw [hu.fires]
      exact List.mem_map.mpr ⟨j, List.mem_range.mpr hj, rfl⟩
    obtain ⟨f, hf, hocc⟩ := List.mem_map.mp hmem
    rw [← hocc]
    exact (hx.timely.polled now hpolls).2 f (List.mem_of_mem_filter hf)
  constructor
  · exact hu.stored
  · exact hu.fires
  · rw [hu.fires]
    exact occurrences_increasing hpos m.nextRunAt k
  · intro j
    rcases hx.busy id row hu.stored with hs | hs | ⟨-, hh⟩
    · obtain ⟨hnext, hbelow⟩ := hu.ahead (by simp [hs])
      have hlate : now < row.nextRunAt := by
        have := hd.2 id row hu.stored
        simpa [due, hs] using this
      constructor
      · intro hj
        refine ⟨hfired j hj, fun cap hcap => ?_⟩
        have := hbelow cap hcap
        omega
      · rintro ⟨hle, -⟩
        by_contra hge
        have := mul_seconds_le hpos (not_lt.mp hge)
        rw [← hk] at hnext
        omega
    · have hmax := hu.finished hs
      constructor
      · intro hj
        refine ⟨hfired j hj, fun cap hcap => ?_⟩
        obtain rfl : cap = row.runCount := by simpa [hmax, eq_comm] using hcap
        omega
      · rintro ⟨-, hcap⟩
        have := hcap row.runCount hmax
        omega
    · exact absurd hh hheld
  · exact fun f hf _ => hx.timely.onTime f hf
  · exact hk.symm
  · rw [hk]
    constructor
    · exact hu.finished
    · intro hmax
      by_contra hs
      have := (hu.ahead hs).2 row.runCount hmax
      omega

def dueFires (now : ℤ) (row : ScheduledJob J) : ℕ := (now + 1 - row.nextRunAt).toNat

/-- The steps that are left for a row: four for each fire, less those of the present one. -/
def stepsLeft (now : ℤ) (x : Worker J) (id : String) (row : ScheduledJob J) : ℕ :=
  if row.status = .done then 0
  else 4 * dueFires now row - if x.firing.any fun job => job.1 = id then 2
    else if x.batch.any fun job => job.1 = id then 1
    else 0

def backlog (now : ℤ) (s : Scheduler J 1) : ℕ := s.table.total (stepsLeft now (s.worker 0))

theorem backlog_lt {t : JobTable J} {clock : ℤ} {worker : Worker J}
    (hkeys : t.rows.map Prod.fst = s.table.rows.map Prod.fst)
    (hle : ∀ id row row', s.table.get? id = some row → t.get? id = some row' →
      stepsLeft now worker id row' ≤ stepsLeft now (s.worker 0) id row)
    (hlt : ∃ id row row', s.table.get? id = some row ∧ t.get? id = some row' ∧
      stepsLeft now worker id row' < stepsLeft now (s.worker 0) id row) :
    backlog now { s.setWorker 0 worker with clock := clock, table := t } < backlog now s := by
  have hself : (s.setWorker 0 worker).worker 0 = worker := setWorker_self
  show t.total (stepsLeft now ((s.setWorker 0 worker).worker 0)) < _
  rw [hself]
  exact Table.total_lt hkeys hle hlt

theorem backlog_fetch {ids : List String} (hb : (s.worker w).batch = [])
    (hf : (s.worker w).firing = none)
    (hids : FetchesDue config (some config.batchSize) now s.table ids) (hne : ids ≠ []) :
    backlog now { s.setWorker w { batch := (fetchDueBatch now ids s.table).rowsOf ids } with
      clock := now
      table := fetchDueBatch now ids s.table } < backlog now s := by
  obtain rfl : w = 0 := Subsingleton.elim w 0
  let batch := (fetchDueBatch now ids s.table).rowsOf ids
  have hbatch : ∀ id row', (fetchDueBatch now ids s.table).get? id = some row' →
      ((batch.any fun job => job.1 = id) = true ↔ id ∈ ids) := by
    intro id row' hget
    rw [List.any_eq_true]
    constructor
    · rintro ⟨job, hjob, heq⟩
      rw [← of_decide_eq_true heq]
      exact (Table.get?_of_mem_rowsOf hjob).1
    · intro hid
      obtain ⟨job, hjob, heq⟩ := List.mem_map.mp (Table.mem_rowsOf hid hget)
      exact ⟨job, hjob, decide_eq_true heq⟩
  have hbefore : ∀ id row, stepsLeft now (s.worker 0) id row =
      if row.status = .done then 0 else 4 * dueFires now row := by
    intro id row
    simp [stepsLeft, hb, hf]
  -- a claimed row has one step less, the others have as many as before
  have hclaimed : ∀ id ∈ ids, ∀ row row', s.table.get? id = some row →
      (fetchDueBatch now ids s.table).get? id = some row' →
      stepsLeft now { batch := batch } id row' < stepsLeft now (s.worker 0) id row := by
    intro id hid row row' hrow hrow'
    have hmem := (hbatch id row' hrow').mpr hid
    obtain ⟨old, hold, hs, hdue⟩ := hids.row hid
    obtain rfl : row = old := by simpa [hrow] using hold
    rw [get?_fetchDueBatch, hrow, Option.map_some, if_pos hid, Option.some.injEq] at hrow'
    have hfires : 0 < dueFires now row := by
      unfold dueFires
      omega
    have hafter : stepsLeft now { batch := batch } id row' = 4 * dueFires now row - 1 := by
      rw [← hrow']
      simp only [stepsLeft, reduceCtorEq, if_false, Option.any_none, Bool.false_eq_true, hmem,
        if_true]
      rfl
    rw [hbefore, hafter, if_neg (by simp [hs])]
    omega
  apply backlog_lt
  · exact Table.keys_updateWhere _ _ _
  · intro id row row' hrow hrow'
    by_cases hid : id ∈ ids
    · exact (hclaimed id hid row row' hrow hrow').le
    · have hmem : (batch.any fun job => job.1 = id) = false := by
        rw [← Bool.not_eq_true, hbatch id row' hrow']
        exact hid
      rw [get?_fetchDueBatch, hrow, Option.map_some, if_neg hid, Option.some.injEq] at hrow'
      obtain rfl := hrow'
      rw [hbefore]
      show stepsLeft now { batch := batch } id row ≤ _
      simp [stepsLeft, hmem]
  · obtain ⟨id, hid⟩ := List.exists_mem_of_ne_nil ids hne
    obtain ⟨row, hrow, -⟩ := hids.row hid
    have hrow' := get?_fetchDueBatch now ids s.table id
    rw [hrow, Option.map_some] at hrow'
    exact ⟨id, row, _, hrow, hrow', hclaimed id hid row _ hrow hrow'⟩

theorem backlog_dispatch {batch : List (String × ScheduledJob J)} (ho : Owned s)
    (hdue : job.2.nextRunAt ≤ now) (hb : (s.worker w).batch = job :: batch)
    (hf : (s.worker w).firing = none) :
    backlog now (s.setWorker w { batch := batch, firing := some job }) < backlog now s := by
  obtain rfl : w = 0 := Subsingleton.elim w 0
  have hmem : job ∈ held (s.worker 0) := mem_held_of_batch (by simp [hb])
  obtain ⟨old, hold, hnot, hag⟩ := row_of_held ho hmem
  have hfires : 0 < dueFires now old := by
    rw [hag.nextRunAt] at hdue
    unfold dueFires
    omega
  have hself : stepsLeft now { batch := batch, firing := some job } job.1 old <
      stepsLeft now (s.worker 0) job.1 old := by
    simp [stepsLeft, hnot, hb, hf]
    omega
  show backlog now { s.setWorker 0 { batch := batch, firing := some job } with
    clock := s.clock, table := s.table } < _
  apply backlog_lt
  · rfl
  · intro id row row' hrow hrow'
    obtain rfl : row = row' := by simpa [hrow] using hrow'
    by_cases hid : job.1 = id
    · subst hid
      obtain rfl : old = row := by simpa [hold] using hrow
      exact hself.le
    · have hhead : ((job :: batch).any fun i => i.1 = id) = batch.any fun i => i.1 = id := by
        rw [List.any_cons, decide_eq_false hid, Bool.false_or]
      unfold stepsLeft
      rw [hb, hf, hhead]
      simp [hid]
  · exact ⟨job.1, old, old, hold, hold, hself⟩

theorem stepsLeft_afterSuccess {nextRun : Option ℤ} {row : ScheduledJob J} (hag : Agrees row job.2)
    (hnot : row.status ≠ .done) (hdue : job.2.nextRunAt ≤ now)
    (hf : (s.worker 0).firing = some job) (hout : ∀ i ∈ (s.worker 0).batch, i.1 ≠ job.1)
    (hlater : ∀ t ∈ nextRun, job.2.nextRunAt < t) :
    stepsLeft now { s.worker 0 with firing := none } job.1 (afterSuccess now job.2 nextRun row) <
      stepsLeft now (s.worker 0) job.1 row := by
  rw [hag.nextRunAt] at hdue
  have hfires : 0 < dueFires now row := by
    unfold dueFires
    omega
  have hbefore : stepsLeft now (s.worker 0) job.1 row = 4 * dueFires now row - 2 := by
    simp [stepsLeft, hnot, hf]
  rw [hbefore]
  by_cases hlast : lastFire job.2 nextRun = true
  · have hdone : (afterSuccess now job.2 nextRun row).status = .done := by
      simp [afterSuccess, hlast]
    rw [stepsLeft, if_pos hdone]
    omega
  · cases hnext : nextRun with
    | none => simp [lastFire, hnext] at hlast
    | some t =>
      rw [hnext] at hlast
      have hgoes : (afterSuccess now job.2 (some t) row).status = .scheduled := by
        simp [afterSuccess, hlast]
      have hmoved : (afterSuccess now job.2 (some t) row).nextRunAt = t := by
        simp [afterSuccess, hlast]
      have hidle : ((s.worker 0).batch.any fun i => i.1 = job.1) = false := by
        rw [List.any_eq_false]
        intro i hi
        simpa using hout i hi
      have hdrop : dueFires now (afterSuccess now job.2 (some t) row) < dueFires now row := by
        have hlt := hlater t hnext
        rw [hag.nextRunAt] at hlt
        unfold dueFires
        rw [hmoved]
        omega
      have hafter : stepsLeft now { s.worker 0 with firing := none } job.1
          (afterSuccess now job.2 (some t) row) =
          4 * dueFires now (afterSuccess now job.2 (some t) row) := by
        simp [stepsLeft, hgoes, hidle]
      rw [hafter]
      omega

theorem backlog_dispatchReturns {nextRun : Option ℤ} (ho : Owned s)
    (hdue : job.2.nextRunAt ≤ now) (hf : (s.worker w).firing = some job)
    (hlater : ∀ t ∈ nextRun, job.2.nextRunAt < t) :
    backlog now { s.setWorker w { s.worker w with firing := none } with
      clock := now
      table := markSucceeded now job.1 job.2 nextRun s.table } < backlog now s := by
  obtain rfl : w = 0 := Subsingleton.elim w 0
  obtain ⟨old, hold, hnot, hag⟩ := row_of_held ho (mem_held_of_firing hf)
  have hout : ∀ i ∈ (s.worker 0).batch, i.1 ≠ job.1 := by
    intro i hi
    have hall := ho.nodup 0
    have hbatch : held (s.worker 0) = (s.worker 0).batch ++ [job] := by simp [held, hf]
    rw [hbatch, List.map_append, List.nodup_append] at hall
    exact hall.2.2 _ (List.mem_map_of_mem hi) _ (by simp)
  have hself := stepsLeft_afterSuccess hag hnot hdue hf hout hlater
  apply backlog_lt
  · exact keys_markSucceeded now job.1 job.2 nextRun s.table
  · intro id row row' hrow hrow'
    rw [get?_markSucceeded, hrow, Option.map_some, Option.some.injEq] at hrow'
    by_cases hid : id = job.1
    · subst hid
      obtain rfl : old = row := by simpa [hold] using hrow
      rw [← hrow', if_pos rfl]
      exact hself.le
    · rw [if_neg hid] at hrow'
      subst hrow'
      simp [stepsLeft, hf, Ne.symm hid]
  · have hget := get?_markSucceeded now job.1 job.2 nextRun s.table job.1
    rw [hold, Option.map_some, if_pos rfl] at hget
    exact ⟨job.1, old, _, hold, hget, hself⟩

theorem steady_of_pollsAt (h : PollsAt now as s a) : Steady cronNext as s a := by
  cases a with
  | fetch _ _ _ => trivial
  | dispatch _ => trivial
  | dispatchReturns _ _ => trivial
  | _ => exact h.elim

theorem backlog_step (hx : Orderly cronNext as x) (hclock : x.1.clock ≤ now)
    (hok : PollsAt now as x.1 a) (hstep : next cronNext config x.1 a = some s') :
    backlog now s' < backlog now x.1 := by
  have hdue : ∀ w, ∀ job ∈ held (x.1.worker w), job.2.nextRunAt ≤ now := by
    intro w job hjob
    exact le_trans (hx.timely.claimed w job hjob) hclock
  rcases steady_cases hx.owned hx.recurring (steady_of_pollsAt hok) hstep with
      ⟨i, m, t, rfl, _⟩ | ⟨t, w, ids, rfl, _, hb, hf, hids, rfl⟩ |
      ⟨w, job, batch, rfl, hb, hf, rfl⟩ |
      ⟨t, w, job, nextRun, rfl, _, hf, _, hlater, rfl⟩
  · exact hok.elim
  · obtain ⟨rfl, hne⟩ := hok
    exact backlog_fetch hb hf hids hne
  · exact backlog_dispatch hx.owned (hdue w job (mem_held_of_batch (by simp [hb]))) hb hf
  · obtain rfl : t = now := hok
    exact backlog_dispatchReturns hx.owned (hdue w job (mem_held_of_firing hf)) hf hlater

theorem clock_of_pollsAt (hclock : s.clock ≤ now) (hok : PollsAt now as s a)
    (hstep : next cronNext config s a = some s') : s'.clock ≤ now := by
  rcases next_cases hstep with ⟨_, _, _, rfl, _⟩ | ⟨t, w, ids, rfl, _, _, _, _, rfl⟩ |
      ⟨w, job, batch, rfl, _, _, rfl⟩ | ⟨t, w, job, _, rfl, _, _, _, rfl⟩ |
      ⟨t, w, job, e, rfl, _, _, _, rfl⟩ | ⟨_, _, _, _, rfl, _⟩ |
      ⟨_, rfl, _⟩ | ⟨_, rfl, _⟩ | ⟨_, rfl, _⟩
  · exact hok.elim
  · exact hok.1.le
  · exact hclock
  · exact le_of_eq hok
  · exact le_of_eq hok
  · exact hok.elim
  · exact hok.elim
  · exact hok.elim
  · exact hok.elim

/-- As long as something is due or being fired, the worker can go on. -/
theorem exists_poll_step (hbatch : 0 < config.batchSize) (hclock : s.clock ≤ now)
    (hd : ¬ Drained now s) : ∃ a s', PollsAt now as s a ∧ next cronNext config s a = some s' := by
  cases hf : (s.worker 0).firing with
  | some job =>
    cases hn : nextRunOf cronNext job.2 with
    | ok nextRun => exact ⟨.dispatchReturns now 0, _, rfl, by simp [next, hf, hn, hclock]; rfl⟩
    | error e => exact ⟨.dispatchReturns now 0, _, rfl, by simp [next, hf, hn, hclock]; rfl⟩
  | none =>
    cases hb : (s.worker 0).batch with
    | cons job batch => exact ⟨.dispatch 0, _, trivial, by simp [next, hf, hb]; rfl⟩
    | nil =>
      have hidle : ∀ w, s.worker w = {} := by
        intro w
        obtain rfl : w = 0 := Subsingleton.elim w 0
        cases hw : s.worker 0
        simp_all
      have hrow : ∃ id row, s.table.get? id = some row ∧ due now row = true := by
        by_contra hnone
        apply hd
        refine ⟨hidle, fun id row hrow => ?_⟩
        by_contra hdue
        exact hnone ⟨id, row, hrow, by simpa using hdue⟩
      obtain ⟨id, row, hrow, hdue⟩ := hrow
      obtain ⟨ids, hids⟩ : ∃ ids, FetchesDue config (some config.batchSize) now s.table ids :=
        exists_selection s.table (due now) ScheduledJob.nextRunAt _
      have hne : ids ≠ [] := by
        rintro rfl
        obtain ⟨hlen, -⟩ := hids.full (id, row) ((s.table.mem_rows_iff id row).mpr hrow) hdue
          List.not_mem_nil
        simp only [List.length_nil, orDefault] at hlen
        split at hlen <;> omega
      exact ⟨.fetch now 0 ids,
        { s.setWorker 0 { batch := (fetchDueBatch now ids s.table).rowsOf ids } with
          clock := now
          table := fetchDueBatch now ids s.table },
        ⟨rfl, hne⟩, if_pos ⟨hclock, hb, hf, hids⟩⟩

theorem polling_ends
    (h : Trace (fireRuns J cronNext config) (Condition.ignoring (Steady cronNext) Fire) as x)
    (hclock : x.1.clock ≤ now) {bs : List (Act J 1)} {y : Scheduler J 1 × List Fire}
    (hp : Path (fireRuns J cronNext config) (Condition.ignoring (PollsAt now) Fire) as x bs y) :
    y.1.clock ≤ now ∧ bs.length + backlog now y.1 ≤ backlog now x.1 := by
  induction hp with
  | nil => simp [hclock]
  | snoc hp hok hstep ih =>
    obtain ⟨hclock', hle⟩ := ih
    have htrace := h.extend (hp.mono fun l z b _ hb => steady_of_pollsAt hb)
    obtain ⟨hnext, -⟩ := recording_next hstep
    have hlt := backlog_step (orderly_of_trace htrace) hclock' hok hnext
    refine ⟨clock_of_pollsAt hclock' hok hnext, ?_⟩
    rw [List.length_append, List.length_singleton]
    omega

/-- In every steady run polling ends with nothing due, and an interval job has then fired
every occurrence up to that time within its cap, once and in order. -/
theorem interval_catch_up (hbatch : 0 < config.batchSize)
    (h : Trace (fireRuns J cronNext config) (Condition.ignoring (Steady cronNext) Fire) as x) :
    CatchesUp cronNext config as x := by
  constructor
  · intro now hclock
    refine ⟨backlog now x.1, fun bs y hp => ?_⟩
    obtain ⟨hclock', hle⟩ := polling_ends h hclock hp
    refine ⟨by omega, ?_⟩
    by_cases hd : Drained now y.1
    · exact Or.inl hd
    · obtain ⟨b, s', hok, hstep⟩ := exists_poll_step hbatch hclock' hd
      refine Or.inr ⟨b, (s', y.2 ++ fired y.1 b), hok, ?_⟩
      show (next cronNext config y.1 b).map _ = _
      rw [hstep]
      rfl
  · intro now hpolls hd id m interval hmem hkind hinterval hpos hcap
    have hx := orderly_of_trace h
    obtain ⟨row, k, hu⟩ := hx.tracked.jobs id m interval hmem hkind hinterval hpos hcap
    exact ⟨row, k, caughtUp_of_drained hx hpolls hd hpos hu⟩

def hourly : NewJob Unit where
  jobName := "reconcile"
  kind := .interval
  nextRunAt := 0
  intervalSeconds := some 3600
  payload := ()
  headers := ()

example : scheduleInterval (-3600000000)
    { jobName := "reconcile", intervalSeconds := 3600, payload := (), headers := () } =
    .ok hourly := rfl

theorem interval_catch_up_hourly : ∃ as x,
    Trace (fireRuns Unit noCron {}) (Condition.ignoring (Steady noCron) Fire) as x ∧
    pollTimes as = [3600000000, 3600000000] ∧ firesOf "a" x.2 = [0, 3600000000] ∧
    CatchesUp noCron {} as x := by
  let as : List (Act Unit 1) :=
    [.create "a" hourly, .fetch 3600000000 0 ["a"], .dispatch 0, .dispatchReturns 3600000000 0,
      .fetch 3600000000 0 ["a"], .dispatch 0, .dispatchReturns 3600000001 0]
  have h : (replay (fireRuns Unit noCron {}) free [] as
      ({ clock := -3600000000, table := Table.empty }, [])).map (fun x => firesOf "a" x.2) =
      some [0, 3600000000] := by
    decide +kernel
  obtain ⟨x, hrun, hfires⟩ := Option.map_eq_some_iff.mp h
  have hinit : (fireRuns Unit noCron {}).init
      ({ clock := -3600000000, table := Table.empty }, []) :=
    ⟨init_scheduler noCron {} (-3600000000), rfl⟩
  have hsteady :
      Trace (fireRuns Unit noCron {}) (Condition.ignoring (Steady noCron) Fire) as x := by
    refine ⟨_, hinit, (replay_path hrun).mono fun l y b hb _ => ?_⟩
    simp only [as, List.mem_cons, List.not_mem_nil, or_false] at hb
    rcases hb with rfl | rfl | rfl | rfl | rfl | rfl | rfl
    · exact recurring_of_interval (by decide) none
    all_goals trivial
  exact ⟨as, x, hsteady, rfl, hfires, interval_catch_up (by decide) hsteady⟩

end Taas.ScheduleCatchUp
