import Taas.Dlq

/-!
The life cycle of a dead letter. RESOLVED and ABANDONED are meant to be final, but the marks
write over them, and a row whose worker stops stays in PROCESSING, where no query looks for
it. The life cycle holds in the runs in which no row is marked against its end, no worker
stops with a row that it alone is working on, and every row is saved with retries. A failure is
against the end of an abandoned row when its session has an object with retries left.
-/
namespace Taas.DlqLifeCycle

open Sql Transition Dlq

variable {J W S : Type} [DecidableEq W] [DecidableEq S]

def Final (status : DLQStatus) : Prop := status = .resolved ∨ status = .abandoned

instance (status : DLQStatus) : Decidable (Final status) := by
  unfold Final
  infer_instance

/-- Some call of `fetch_pending_batch` returns the row. -/
def CanBeClaimed (config : DeadLetterConfig) (t : DLQTable J) (id : String) : Prop :=
  ∃ batchSize ids, Fetches config batchSize t ids ∧ id ∈ ids

/-- Every row that is not final can be claimed or is held by a worker that is alive. -/
def NoneStranded (config : DeadLetterConfig) (s : Queue J W S) : Prop :=
  ∀ id e, s.table.get? id = some e → ¬ Final e.status →
    CanBeClaimed config s.table id ∨ ∃ w, (w, id) ∈ s.held ∧ w ∉ s.stopped

/-- In the runs that follow `s`, a final row keeps its status and cannot be claimed. -/
def FinalKept (config : DeadLetterConfig) (ok : Condition (Queue J W S) (Act J W S))
    (as : List (Act J W S)) (s : Queue J W S) : Prop :=
  ∀ id e, s.table.get? id = some e → Final e.status →
    ∀ bs t, Path (queue J W S config) ok as s bs t →
      (∃ e', t.table.get? id = some e' ∧ e'.status = e.status) ∧ ¬ CanBeClaimed config t.table id

/-- The mark, made with `event` at hand, is not against the end of a row with this status. -/
def InTime (event : DLQEvent J) (status : DLQStatus) : Mark → Prop
  | .resolved => status ≠ .abandoned
  | .abandoned => status ≠ .resolved
  | .failed _ => status ≠ .resolved ∧
      (status = .abandoned → event.maxRetries ≤ event.retryCount + 1)

instance (event : DLQEvent J) (status : DLQStatus) (m : Mark) :
    Decidable (InTime event status m) := by
  unfold InTime
  split <;> infer_instance

/-- A row is saved with retries, no mark is against the end of its row, and a worker that stops
shares the rows in PROCESSING that it holds. -/
def Orderly (config : DeadLetterConfig) : Condition (Queue J W S) (Act J W S) := fun _ s a =>
  match a with
  | .save now _ _ m => 0 < (m.row config now).maxRetries
  | .mark _ _ session id m => ∀ e ∈ s.table.get? id, InTime (seen s session id e) e.status m
  | .stop w => ∀ x ∈ s.held, x.1 = w → ∀ e ∈ s.table.get? x.2, e.status = .processing →
      ∃ y ∈ s.held, y.2 = x.2 ∧ y.1 ≠ w
  | .fetch _ _ _ _ _ => True

instance (config : DeadLetterConfig) (as : List (Act J W S)) (s : Queue J W S) (a : Act J W S) :
    Decidable (Orderly config as s a) :=
  match a with
  | .save _ _ _ _ | .mark _ _ _ _ _ | .stop _ | .fetch _ _ _ _ _ => by
    unfold Orderly
    infer_instance

/-- Where a row is: waiting with retries left, held, or final. -/
structure Placed (s : Queue J W S) : Prop where
  status : ∀ id e, s.table.get? id = some e →
    e.status = .pending ∧ e.retryCount < e.maxRetries ∨
    e.status = .processing ∧ (∃ w, (w, id) ∈ s.held) ∨ Final e.status
  live : ∀ x ∈ s.held, x.1 ∉ s.stopped
  rows : ∀ x ∈ s.held, ∃ e, s.table.get? x.2 = some e

variable {config : DeadLetterConfig} {s s' t : Queue J W S} {a : Act J W S} {as : List (Act J W S)}
variable {table : DLQTable J} {id : String} {e e' row event : DLQEvent J} {m : Mark} {now : ℤ}

theorem claimable_iff (hid : table.get? id = some e) :
    CanBeClaimed config table id ↔ e.status = .pending ∧ e.retryCount < e.maxRetries := by
  constructor
  · rintro ⟨batchSize, ids, hids, hmem⟩
    obtain ⟨row, hrow, hs, hleft⟩ := hids.row hmem
    obtain rfl : e = row := by simpa [hid] using hrow
    exact ⟨hs, hleft⟩
  · intro hc
    let n := table.rows.length + 1
    have hn : Python.orDefault (some n) config.batchSize = n := by simp [Python.orDefault, n]
    obtain ⟨ids, hids⟩ := exists_selection table claimable DLQEvent.createdAt n
    refine ⟨some n, ids, by unfold Fetches; rwa [hn], ?_⟩
    exact hids.mem_of_large_limit (Nat.lt_succ_self _) hid (by simpa [claimable] using hc)

theorem not_canBeClaimed_of_final (hid : table.get? id = some e) (hf : Final e.status) :
    ¬ CanBeClaimed config table id := by
  rw [claimable_iff hid]
  rintro ⟨hs, _⟩
  simp [Final, hs] at hf

omit [DecidableEq W] [DecidableEq S] in
theorem inTime_iff (now : ℤ) (hf : Final e.status) :
    InTime event e.status m ↔ (m.of now event e).status = e.status := by
  cases m with
  | resolved => rcases hf with hs | hs <;> simp [InTime, Mark.of, hs]
  | abandoned => rcases hf with hs | hs <;> simp [InTime, Mark.of, hs]
  | failed error =>
    by_cases hmax : event.retryCount + 1 ≥ event.maxRetries
    · rcases hf with hs | hs <;> simp [InTime, Mark.of, hs, hmax]
    · have hleft : ¬ event.maxRetries ≤ event.retryCount + 1 := hmax
      rcases hf with hs | hs <;> simp [InTime, Mark.of, hs, hleft]

omit [DecidableEq W] [DecidableEq S] in
theorem final_of_late (h : ¬ InTime event e.status m) : Final e.status := by
  by_contra hf
  obtain ⟨hr, ha⟩ := not_or.mp hf
  cases m with
  | resolved => exact h ha
  | abandoned => exact h hr
  | failed error => exact h ⟨hr, fun hs => absurd hs ha⟩

omit [DecidableEq W] in
theorem final_step (hf : Final e.status) (hid : s.table.get? id = some e)
    (hok : Orderly config as s a) (hcase : RowStep s id e a e') : e'.status = e.status := by
  cases hcase with
  | saved => rfl
  | claimed _ hs _ => simp [Final, hs] at hf
  | passed _ => rfl
  | @marked now _ _ _ => exact (inTime_iff now hf).mp (hok e hid)
  | unmarked _ => rfl
  | stopped => rfl

omit [DecidableEq W] [DecidableEq S] in
/-- A mark leaves a row that is final, or waits with retries left. -/
theorem mark_status (now : ℤ) (m : Mark) (hcap : event.maxRetries = e.maxRetries) :
    (m.of now event e).status = .pending ∧
        (m.of now event e).retryCount < (m.of now event e).maxRetries ∨
      Final (m.of now event e).status := by
  cases m with
  | resolved => exact Or.inr (Or.inl rfl)
  | abandoned => exact Or.inr (Or.inr rfl)
  | failed error =>
    by_cases hmax : event.retryCount + 1 ≥ event.maxRetries
    · right
      simp [Mark.of, hmax, Final]
    · left
      simp only [Mark.of, if_neg hmax]
      exact ⟨trivial, by omega⟩

omit [DecidableEq W] [DecidableEq S] in
theorem placed_save {objects : Objects S String (DLQEvent J)} (hi : Placed s)
    (ht : s.table.insert id row = some table)
    (hs : row.status = .pending) (hleft : row.retryCount < row.maxRetries) :
    Placed { s with table := table, objects := objects } := by
  obtain ⟨hnew, hget⟩ := Table.insert_eq_some ht
  refine ⟨fun j e he => ?_, hi.live, fun x hx => ?_⟩
  · change table.get? j = some e at he
    rw [hget j] at he
    split at he
    · obtain rfl := Option.some.inj he
      exact Or.inl ⟨hs, hleft⟩
    · exact hi.status j e he
  · obtain ⟨e, he⟩ := hi.rows x hx
    have hne : x.2 ≠ id := by
      rintro rfl
      simp [hnew] at he
    exact ⟨e, by show table.get? x.2 = some e; rw [hget, if_neg hne, he]⟩

omit [DecidableEq W] [DecidableEq S] in
theorem placed_fetch {ids : List String} {w : W} {objects : Objects S String (DLQEvent J)}
    (hi : Placed s) (hlive : w ∉ s.stopped)
    (hrows : ∀ id ∈ ids, ∃ e, s.table.get? id = some e) :
    Placed { s with
      table := fetchPendingBatch now ids s.table
      held := ids.map (fun id => (w, id)) ++ s.held
      objects := objects } := by
  refine ⟨fun id e' he' => ?_, fun x hx => ?_, fun x hx => ?_⟩
  · change (fetchPendingBatch now ids s.table).get? id = some e' at he'
    rw [get?_fetchPendingBatch] at he'
    obtain ⟨e, he, rfl⟩ := Option.map_eq_some_iff.mp he'
    by_cases hmem : id ∈ ids
    · simp only [hmem, if_true]
      exact Or.inr (Or.inl ⟨trivial, w, List.mem_append_left _ (List.mem_map_of_mem hmem)⟩)
    · simp only [hmem, if_false]
      rcases hi.status id e he with h | ⟨hs, v, hv⟩ | h
      · exact Or.inl h
      · exact Or.inr (Or.inl ⟨hs, v, List.mem_append_right _ hv⟩)
      · exact Or.inr (Or.inr h)
  · rcases List.mem_append.mp hx with hx | hx
    · obtain ⟨id, _, rfl⟩ := List.mem_map.mp hx
      exact hlive
    · exact hi.live x hx
  · have hrow : ∃ e, s.table.get? x.2 = some e := by
      rcases List.mem_append.mp hx with hx | hx
      · obtain ⟨id, hid, rfl⟩ := List.mem_map.mp hx
        exact hrows id hid
      · exact hi.rows x hx
    obtain ⟨e, he⟩ := hrow
    exact ⟨_, by show (fetchPendingBatch now ids s.table).get? x.2 = _
                 rw [get?_fetchPendingBatch, he]; rfl⟩

theorem placed_mark {caller : Option W} {session : S} {objects : Objects S String (DLQEvent J)}
    (hi : Placed s) (hcaps : CapsKept s) :
    Placed { s with
      table := m.apply now id (s.objects.get? session id) s.table
      held := s.held.filter fun x => !(some x.1 = caller ∧ x.2 = id)
      objects := objects } := by
  refine ⟨fun j e' he' => ?_, fun x hx => hi.live x (List.mem_filter.mp hx).1, fun x hx => ?_⟩
  · change (m.apply now id (s.objects.get? session id) s.table).get? j = some e' at he'
    rw [get?_mark] at he'
    obtain ⟨e, he, rfl⟩ := Option.map_eq_some_iff.mp he'
    by_cases hj : j = id
    · subst hj
      simp only [if_true]
      have hcap : (seen s session j e).maxRetries = e.maxRetries := hcaps.seen he
      rcases mark_status now m hcap with h | h
      · exact Or.inl h
      · exact Or.inr (Or.inr h)
    · simp only [hj, if_false]
      rcases hi.status j e he with h | ⟨hs, v, hv⟩ | h
      · exact Or.inl h
      · exact Or.inr (Or.inl ⟨hs, v, List.mem_filter.mpr ⟨hv, by simp [hj]⟩⟩)
      · exact Or.inr (Or.inr h)
  · obtain ⟨e, he⟩ := hi.rows x (List.mem_filter.mp hx).1
    exact ⟨_, by show (m.apply now id (s.objects.get? session id) s.table).get? x.2 = _
                 rw [get?_mark, he]; rfl⟩

omit [DecidableEq S] in
theorem placed_stop {w : W} (hi : Placed s)
    (hok : ∀ x ∈ s.held, x.1 = w → ∀ e ∈ s.table.get? x.2, e.status = .processing →
      ∃ y ∈ s.held, y.2 = x.2 ∧ y.1 ≠ w) :
    Placed { s with held := s.held.filter fun x => x.1 ≠ w, stopped := w :: s.stopped } := by
  refine ⟨fun id e he => ?_, fun x hx hmem => ?_, fun x hx => hi.rows x (List.mem_filter.mp hx).1⟩
  · rcases hi.status id e he with h | ⟨hs, v, hv⟩ | h
    · exact Or.inl h
    · -- the stopping worker is not the only one that holds the row
      have hother : ∃ y ∈ s.held, y.2 = id ∧ y.1 ≠ w := by
        by_cases hvw : v = w
        · exact hok (v, id) hv hvw e he hs
        · exact ⟨(v, id), hv, rfl, hvw⟩
      obtain ⟨⟨u, _⟩, hy, rfl, hne⟩ := hother
      exact Or.inr (Or.inl ⟨hs, u, List.mem_filter.mpr ⟨hy, by simpa using hne⟩⟩)
    · exact Or.inr (Or.inr h)
  · obtain ⟨hx, hne⟩ := List.mem_filter.mp hx
    rcases List.mem_cons.mp hmem with h | h
    · simp [h] at hne
    · exact hi.live x hx h

theorem placed_step (hi : Placed s) (hcaps : CapsKept s) (hok : Orderly config as s a)
    (hstep : next config s a = some s') : Placed s' := by
  rcases next_cases hstep with ⟨now, session, j, m, table, rfl, ht, rfl⟩ |
      ⟨now, w, session, batchSize, ids, rfl, hlive, hids, rfl⟩ |
      ⟨now, caller, session, j, mark, rfl, rfl⟩ | ⟨w, rfl, rfl⟩
  · exact placed_save hi ht rfl hok
  · refine placed_fetch hi hlive fun id hid => ?_
    obtain ⟨e, he, _⟩ := hids.row hid
    exact ⟨e, he⟩
  · exact placed_mark hi hcaps
  · exact placed_stop hi hok

theorem placed_run (h : Trace (queue J W S config) (Orderly config) as s) : Placed s := by
  refine Trace.induct (M := queue J W S config) (I := fun _ s => Placed s) ?_
    (fun _ s a t ht hi hok hstep => placed_step hi (capsKept_run ht) hok hstep) as s h
  intro s hinit
  have hs : s = { table := Table.empty } := hinit
  rw [hs]
  refine ⟨fun id e he => ?_, fun x hx => ?_, fun x hx => ?_⟩
  · simp [Table.get?_empty] at he
  · cases hx
  · cases hx

/-- After an orderly run, a step that is not orderly strands a row or changes a final status. -/
theorem disorderly_step (hi : Placed s) (hnot : ¬ Orderly config as s a)
    (hstep : next config s a = some s') :
    ¬ NoneStranded config s' ∨ ∃ id e e', s.table.get? id = some e ∧ Final e.status ∧
      s'.table.get? id = some e' ∧ e'.status ≠ e.status := by
  rcases next_cases hstep with ⟨now, session, j, m, table, rfl, ht, rfl⟩ |
      ⟨now, w, session, batchSize, ids, rfl, _, _, rfl⟩ |
      ⟨now, caller, session, j, mark, rfl, rfl⟩ | ⟨w, rfl, rfl⟩
  · left
    intro hns
    obtain ⟨hnew, hget⟩ := Table.insert_eq_some ht
    have hrow : table.get? j = some (m.row config now) := by simp [hget]
    rcases hns j _ hrow (by simp [Final, FailedEvent.row]) with hc | ⟨w, hw, _⟩
    · exact hnot ((claimable_iff hrow).mp hc).2
    · obtain ⟨e, he⟩ := hi.rows _ hw
      simp [hnew] at he
  · exact absurd trivial hnot
  · right
    simp only [Orderly, not_forall] at hnot
    obtain ⟨e, he, hlate⟩ := hnot
    have hrow : (mark.apply now j (s.objects.get? session j) s.table).get? j =
        some (mark.of now (seen s session j e) e) := by
      rw [get?_mark, Option.mem_def.mp he]
      simp [seen]
    have hf := final_of_late hlate
    exact ⟨j, e, _, he, hf, hrow, fun hkept => hlate ((inTime_iff now hf).mpr hkept)⟩
  · left
    intro hns
    simp only [Orderly, not_forall] at hnot
    obtain ⟨x, hx, rfl, e, he, hs, halone⟩ := hnot
    rcases hns x.2 e he (by simp [Final, hs]) with hc | ⟨v, hv, _⟩
    · have hpending := ((claimable_iff he).mp hc).1
      rw [hs] at hpending
      cases hpending
    · obtain ⟨hv, hne⟩ := List.mem_filter.mp hv
      exact halone ⟨_, hv, rfl, by simpa using hne⟩

/-- In every orderly run no row is stranded and the final states are final. -/
theorem life_cycle (h : Trace (queue J W S config) (Orderly config) as s) :
    NoneStranded config s ∧ FinalKept config (Orderly config) as s := by
  constructor
  · have hi := placed_run h
    intro id e hid hf
    rcases hi.status id e hid with hc | ⟨_, w, hw⟩ | hfinal
    · exact Or.inl ((claimable_iff hid).mpr hc)
    · exact Or.inr ⟨w, hw, hi.live _ hw⟩
    · exact absurd hfinal hf
  · intro id e hid hf bs t hp
    have hkept : ∃ e', t.table.get? id = some e' ∧ e'.status = e.status := by
      induction hp with
      | nil => exact ⟨e, hid, rfl⟩
      | snoc _ hok hstep ih =>
        obtain ⟨e', he', hs'⟩ := ih
        obtain ⟨e'', he'', hcase⟩ := exists_rowStep hstep he'
        exact ⟨e'', he'', (final_step (hs' ▸ hf) he' hok hcase).trans hs'⟩
    obtain ⟨e', he', hs'⟩ := hkept
    exact ⟨⟨e', he', hs'⟩, not_canBeClaimed_of_final he' (hs' ▸ hf)⟩

def poisoned : FailedEvent Unit where
  eventId := "evt-1"
  eventType := "OrderCreated"
  handlerName := "OrderHandler"
  payload := ()
  error := "Downstream timeout"
  headers := ()

/-- A worker claims the row, its retry fails, another worker claims it again and stops after
an operator has resolved the row. -/
theorem life_cycle_resolved :
    let as : List (Act Unit Bool (Option Bool)) :=
      [.save 0 none "a" poisoned, .fetch 1 false (some false) none ["a"],
        .mark 2 (some false) (some false) "a" (.failed "retry"),
        .fetch 3 true (some true) none ["a"], .mark 4 none none "a" .resolved, .stop true]
    ∃ s, Trace (queue Unit Bool (Option Bool) {}) (Orderly {}) as s ∧ NoneStranded {} s ∧
      FinalKept {} (Orderly {}) as s := by
  intro as
  have h : ((replay (queue Unit Bool (Option Bool) {}) (Orderly {}) [] as
      { table := Table.empty }).map fun s => (s.table.get? "a").map DLQEvent.status) =
        some (some .resolved) := by
    decide
  obtain ⟨s, hrun, _⟩ := Option.map_eq_some_iff.mp h
  have ht := trace_of_replay (init_queue _) hrun
  exact ⟨s, ht, life_cycle ht⟩

theorem not_noneStranded {as : List (Act Unit Bool (Option Bool))}
    (h : (replay (queue Unit Bool (Option Bool) config) free [] as { table := Table.empty }).map
      (fun s => decide ((∃ e ∈ s.table.get? "a", ¬ Final e.status ∧ claimable e = false) ∧
        ∀ x ∈ s.held, x.2 ≠ "a")) = some true) :
    ∃ s, Trace (queue Unit Bool (Option Bool) config) free as s ∧ ¬ NoneStranded config s := by
  obtain ⟨s, hrun, hs⟩ := Option.map_eq_some_iff.mp h
  refine ⟨s, trace_of_replay (init_queue _) hrun, fun hns => ?_⟩
  obtain ⟨⟨e, he, hf, hc⟩, hheld⟩ := of_decide_eq_true hs
  rcases hns "a" e he hf with hclaim | ⟨w, hw, _⟩
  · have := (claimable_iff he).mp hclaim
    simp [claimable, this] at hc
  · exact hheld _ hw rfl

/-- A late failure of a worker makes a resolved row claimable again; a worker that stops, or a
cap below 1, leaves a row that nobody can claim. -/
theorem life_cycle_is_broken :
    (¬ ∀ (config : DeadLetterConfig) (as : List (Act Unit Bool (Option Bool)))
        (s : Queue Unit Bool (Option Bool)),
      Trace (queue Unit Bool (Option Bool) config) free as s →
      NoneStranded config s ∧ FinalKept config free as s) ∧
    (∃ s, Trace (queue Unit Bool (Option Bool) {}) free
        [.save 0 none "a" poisoned, .fetch 1 false (some false) none ["a"], .stop false] s ∧
      ¬ NoneStranded {} s) ∧
    ∃ s, Trace (queue Unit Bool (Option Bool) { maxRetries := -1 }) free
        [.save 0 none "a" poisoned] s ∧
      ¬ NoneStranded { maxRetries := -1 } s := by
  refine ⟨fun hclaim => ?_, not_noneStranded (by decide), not_noneStranded (by decide)⟩
  have h : ((replay (queue Unit Bool (Option Bool) {}) free []
      [.save 0 none "a" poisoned, .fetch 1 false (some false) none ["a"],
        .mark 2 none none "a" .resolved]
      { table := Table.empty }).bind fun s =>
        (replay (queue Unit Bool (Option Bool) {}) free
          [.save 0 none "a" poisoned, .fetch 1 false (some false) none ["a"],
            .mark 2 none none "a" .resolved]
          [.mark 3 (some false) (some false) "a" (.failed "retry")] s).map fun t =>
            ((s.table.get? "a").map DLQEvent.status, (t.table.get? "a").map DLQEvent.status)) =
      some (some .resolved, some .pending) := by
    decide
  obtain ⟨s, hrun, h⟩ := Option.bind_eq_some_iff.mp h
  obtain ⟨t, hlater, h⟩ := Option.map_eq_some_iff.mp h
  simp only [Prod.mk.injEq, Option.map_eq_some_iff] at h
  obtain ⟨⟨e, he, hs⟩, e', he', hs'⟩ := h
  obtain ⟨⟨row, hrow, hsame⟩, _⟩ := (hclaim _ _ s (trace_of_replay (init_queue _) hrun)).2 "a" e he
    (Or.inl hs) _ t (replay_path hlater)
  obtain rfl : e' = row := by simpa [he'] using hrow
  rw [hs, hs'] at hsame
  cases hsame

end Taas.DlqLifeCycle
