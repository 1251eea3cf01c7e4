import Taas.OutboxStranding
import Taas.Sessions

/-!
Whether PUBLISHED and DEAD_LETTER are final. Any number of workers call the repository, and
a worker marks only rows that it was given, however long ago. The claim query and the
stale reset look at the status first, so a row that has come to an end is never claimed
again. The two marks look at the id alone, and the mark of a slow worker may write over the
end that another worker has reached. A failure counts from the object that its session has loaded,
and may find retries left there for a row that is dead.
-/
namespace Taas.OutboxTerminal

open Sql Outbox Transition OutboxStranding

variable {J W S : Type} [DecidableEq J] [DecidableEq W] [DecidableEq S]

/-- The store, the rows that were given to each worker, and the objects of the sessions. -/
structure Fleet (J W S : Type) where
  store : Store J
  given : List (W × String) := []
  objects : Objects S String (OutboxEvent J) := []
  deriving DecidableEq

/-- A repository call by a worker in a session. -/
abbrev Call (J W S : Type) := W × S × Act J

/-- A worker marks only rows that it was given. A failure is counted from the object of its
session. -/
def MayCall (s : Fleet J W S) : Call J W S → Prop
  | (w, _, .markPublished _ id) => (w, id) ∈ s.given
  | (w, session, .markFailed _ id _ loaded) =>
    (w, id) ∈ s.given ∧ loaded = s.objects.get? session id
  | _ => True

instance (s : Fleet J W S) (a : Call J W S) : Decidable (MayCall s a) := by
  unfold MayCall
  split <;> infer_instance

def returned : Call J W S → List String
  | (_, _, .fetch _ _ ids) => ids
  | _ => []

/-- The objects of the sessions after a call, which led to the table `t'`. -/
def objectsAfter (config : OutboxConfig) (s : Fleet J W S) (t' : OutboxTable J) :
    Call J W S → Objects S String (OutboxEvent J)
  | (_, session, .save _ _ id _) => s.objects.load session [id] t'
  | (_, session, .fetch now _ ids) =>
    (s.objects.load session ids s.store.table).updateWhere session (fun id _ => id ∈ ids) fun e =>
      { e with status := .processing, updatedAt := now }
  | (_, session, .markPublished now id) =>
    s.objects.updateWhere session (fun j _ => j = id) fun e =>
      { e with status := .published, processedAt := some now, updatedAt := now }
  | (_, session, .markFailed now id error _) =>
    s.objects.updateWhere session (fun j _ => j = id) fun e => afterFailure now error e e
  | (_, session, .resetStale now timeoutSeconds) =>
    s.objects.updateWhere session (fun _ e => stale config timeoutSeconds now e) fun e =>
      { e with status := .pending, updatedAt := now }

def next (config : OutboxConfig) (s : Fleet J W S) (a : Call J W S) : Option (Fleet J W S) :=
  if MayCall s a then
    (OutboxStranding.next config s.store a.2.2).map fun store =>
      { store := store
        given := (returned a).map (fun id => (a.1, id)) ++ s.given
        objects := objectsAfter config s store.table a }
  else none

/-- The workers `W` with sessions `S` on a table that is empty at first. -/
def fleet (J W S : Type) [DecidableEq J] [DecidableEq W] [DecidableEq S] (config : OutboxConfig) :
    System (Fleet J W S) (Call J W S) where
  init s := s = { store := { clock := s.store.clock, table := Table.empty } }
  next := next config

def Terminal (status : OutboxStatus) : Prop := status = .published ∨ status = .deadLetter

instance (status : OutboxStatus) : Decidable (Terminal status) := by
  unfold Terminal
  infer_instance

/-- In the runs that follow `s`, a row in a terminal state keeps its status and is not
returned by the claim query. -/
def TerminalAbsorbing (config : OutboxConfig) (ok : Condition (Fleet J W S) (Call J W S))
    (as : List (Call J W S)) (s : Fleet J W S) : Prop :=
  ∀ id e, s.store.table.get? id = some e → Terminal e.status →
    ∀ bs x, Path (fleet J W S config) ok as s bs x →
      (∃ e', x.store.table.get? id = some e' ∧ e'.status = e.status) ∧
      ∀ a ∈ bs, id ∉ returned a

/-- No PUBLISHED row is marked as failed and no DEAD_LETTER row as published, and a DEAD_LETTER row
is marked as failed only in a session whose object of it, if it has one, has no retries left. -/
def NoLateMark : Condition (Fleet J W S) (Call J W S) := fun _ s a =>
  match a.2.2 with
  | .markPublished _ id => ∀ e ∈ s.store.table.get? id, e.status ≠ .deadLetter
  | .markFailed _ id _ loaded => ∀ e ∈ s.store.table.get? id, e.status ≠ .published ∧
      (e.status = .deadLetter → ∀ event ∈ loaded, event.maxRetries ≤ event.retryCount + 1)
  | _ => True

/-- A row that has reached its cap of retries when it is dead. -/
def DeadExhausted (s : Fleet J W S) : Prop :=
  ∀ id e, s.store.table.get? id = some e → e.status = .deadLetter → e.maxRetries ≤ e.retryCount

/-- An object has the cap of its row. -/
def CapsKept (s : Fleet J W S) : Prop := s.objects.Agree OutboxEvent.maxRetries s.store.table

variable {config : OutboxConfig} {s s' : Fleet J W S} {a : Call J W S} {as : List (Call J W S)}
variable {id : String} {e : OutboxEvent J}

theorem next_cases (h : next config s a = some s') :
    MayCall s a ∧ OutboxStranding.next config s.store a.2.2 = some s'.store ∧
      s'.given = (returned a).map (fun id => (a.1, id)) ++ s.given ∧
      s'.objects = objectsAfter config s s'.store.table a := by
  simp only [next, Option.ite_none_right_eq_some, Option.map_eq_some_iff] at h
  obtain ⟨hmay, store, hstore, rfl⟩ := h
  exact ⟨hmay, hstore, rfl, rfl⟩

/-- The ids that a call names. -/
def named : Act J → List String
  | .fetch _ _ ids => ids
  | .markPublished _ id => [id]
  | .markFailed _ id _ _ => [id]
  | _ => []

/-- What one call does to the row `e` under `id`. -/
inductive RowStep (id : String) (e : OutboxEvent J) : Act J → OutboxEvent J → Prop
  | same {a : Act J} (h : id ∉ named a) : RowStep id e a e
  | claimed {now : ℤ} {batchSize : Option ℕ} {ids : List String} (hstatus : e.status = .pending) :
      RowStep id e (.fetch now batchSize ids) { e with status := .processing, updatedAt := now }
  | published {now : ℤ} :
      RowStep id e (.markPublished now id)
        { e with status := .published, processedAt := some now, updatedAt := now }
  | failed {now : ℤ} {error : String} {loaded : Option (OutboxEvent J)} :
      RowStep id e (.markFailed now id error loaded) (afterFailure now error (loaded.getD e) e)
  | reset {now : ℤ} {timeoutSeconds : Option ℤ} (hstatus : e.status = .processing) :
      RowStep id e (.resetStale now timeoutSeconds) { e with status := .pending, updatedAt := now }

omit [DecidableEq J] in
theorem exists_rowStep {s s' : Store J} {a : Act J}
    (hstep : OutboxStranding.next config s a = some s') (hid : s.table.get? id = some e) :
    ∃ e', s'.table.get? id = some e' ∧ RowStep id e a e' := by
  rcases OutboxStranding.next_cases hstep with ⟨now, created, j, m, rfl, _, _, ht, _⟩ |
      ⟨now, batchSize, ids, rfl, _, hids, rfl⟩ | ⟨now, j, rfl, _, rfl⟩ |
      ⟨now, j, error, loaded, rfl, _, rfl⟩ | ⟨now, timeoutSeconds, rfl, _, rfl⟩
  · obtain ⟨hnew, hget⟩ := Table.insert_eq_some ht
    have hne : id ≠ j := by
      rintro rfl
      simp [hnew] at hid
    exact ⟨e, by rw [hget id, if_neg hne, hid], RowStep.same (by simp [named])⟩
  · by_cases hmem : id ∈ ids
    · obtain ⟨row, hrow, hs, _⟩ := hids.row hmem
      obtain rfl : e = row := by simpa [hid] using hrow
      exact ⟨_, by simp [get?_fetchPendingBatch, hid, hmem], RowStep.claimed hs⟩
    · exact ⟨e, by simp [get?_fetchPendingBatch, hid, hmem], RowStep.same hmem⟩
  · by_cases hj : id = j
    · subst hj
      exact ⟨_, by simp [get?_markPublished, hid], RowStep.published⟩
    · exact ⟨e, by simp [get?_markPublished, hid, hj], RowStep.same (by simp [named, hj])⟩
  · by_cases hj : id = j
    · subst hj
      exact ⟨_, by rw [get?_markFailed, hid, Option.map_some, if_pos rfl], RowStep.failed⟩
    · exact ⟨e, by simp [get?_markFailed, hid, hj], RowStep.same (by simp [named, hj])⟩
  · by_cases hstale : stale config timeoutSeconds now e = true
    · have hs : e.status = .processing := by
        simp only [stale, decide_eq_true_eq] at hstale
        exact hstale.1
      exact ⟨_, by simp [get?_resetStaleProcessing, hid, hstale], RowStep.reset hs⟩
    · exact ⟨e, by simp [get?_resetStaleProcessing, hid, hstale], RowStep.same (by simp [named])⟩

omit [DecidableEq J] in
theorem RowStep.maxRetries {a : Act J} {e' : OutboxEvent J} (h : RowStep id e a e') :
    e'.maxRetries = e.maxRetries := by
  cases h <;> rfl

omit [DecidableEq J] in
theorem pending_of_new {s s' : Store J} {a : Act J}
    (hstep : OutboxStranding.next config s a = some s') (hold : s.table.get? id = none)
    (hnew : s'.table.get? id = some e) : e.status = .pending := by
  rcases OutboxStranding.next_cases hstep with ⟨now, created, j, m, rfl, _, _, ht, _⟩ |
      ⟨now, batchSize, ids, rfl, _, hids, rfl⟩ | ⟨now, j, rfl, _, rfl⟩ |
      ⟨now, j, error, loaded, rfl, _, rfl⟩ | ⟨now, timeoutSeconds, rfl, _, rfl⟩
  · rw [(Table.insert_eq_some ht).2 id, hold] at hnew
    simp only [Option.ite_none_right_eq_some, Option.some.injEq] at hnew
    rw [← hnew.2]
    rfl
  · simp [get?_fetchPendingBatch, hold] at hnew
  · simp [get?_markPublished, hold] at hnew
  · simp [get?_markFailed, hold] at hnew
  · simp [get?_resetStaleProcessing, hold] at hnew

theorem capsKept_step (hi : CapsKept s) (hstep : next config s a = some s') : CapsKept s' := by
  obtain ⟨_, hstore, _, hobjects⟩ := next_cases hstep
  have hrows : ∀ id e, s.store.table.get? id = some e →
      ∃ e', s'.store.table.get? id = some e' ∧ e'.maxRetries = e.maxRetries := by
    intro id e he
    obtain ⟨e', he', hcase⟩ := exists_rowStep hstore he
    exact ⟨e', he', hcase.maxRetries⟩
  have hold : s.objects.Agree OutboxEvent.maxRetries s'.store.table := hi.ofRows hrows
  unfold CapsKept
  rw [hobjects]
  obtain ⟨w, session, act⟩ := a
  cases act with
  | save now created j m => exact hold.load session [j] fun id e he => ⟨e, he, rfl⟩
  | fetch now batchSize ids =>
    simp only [objectsAfter]
    exact (hold.load session ids hrows).updateWhere session _ fun _ => rfl
  | _ =>
    simp only [objectsAfter]
    exact hold.updateWhere session _ fun _ => rfl

theorem capsKept_run {ok : Condition (Fleet J W S) (Call J W S)}
    (h : Trace (fleet J W S config) ok as s) : CapsKept s := by
  refine h.invariant ?_ fun s a s' => capsKept_step
  intro s hinit session id event hevent
  have hs : s = { store := { clock := s.store.clock, table := Table.empty } } := hinit
  rw [hs] at hevent
  cases hevent

theorem deadExhausted_step (hi : DeadExhausted s) (hcaps : CapsKept s)
    (hstep : next config s a = some s') : DeadExhausted s' := by
  obtain ⟨hmay, hstore, _⟩ := next_cases hstep
  obtain ⟨w, session, act⟩ := a
  intro id e' he' hs'
  cases hid : s.store.table.get? id with
  | none => simp [pending_of_new hstore hid he'] at hs'
  | some e =>
    obtain ⟨row, hrow, hcase⟩ := exists_rowStep hstore hid
    obtain rfl : e' = row := by simpa [he'] using hrow
    cases hcase with
    | same _ => exact hi id e' hid hs'
    | claimed _ => cases hs'
    | published => cases hs'
    | @failed now error loaded =>
      -- the object of the session has the cap of the row
      have hcap : (loaded.getD e).maxRetries = e.maxRetries := by
        cases hloaded : loaded with
        | none => rfl
        | some event =>
          obtain ⟨row, hrow, hcap⟩ := hcaps session id event (hmay.2.symm.trans hloaded)
          obtain rfl : e = row := by simpa [hid] using hrow
          exact hcap
      by_cases hmax : (loaded.getD e).retryCount + 1 ≥ (loaded.getD e).maxRetries
      · show e.maxRetries ≤ (loaded.getD e).retryCount + 1
        omega
      · simp [afterFailure, hmax] at hs'
    | reset _ => cases hs'

theorem deadExhausted_run {ok : Condition (Fleet J W S) (Call J W S)}
    (h : Trace (fleet J W S config) ok as s) : DeadExhausted s := by
  refine Trace.induct (M := fleet J W S config) (I := fun _ s => DeadExhausted s) ?_
    (fun _ s a t ht hi _ hstep => deadExhausted_step hi (capsKept_run ht) hstep) as s h
  intro s hinit id e he
  have hs : s = { store := { clock := s.store.clock, table := Table.empty } } := hinit
  rw [hs] at he
  simp [Table.get?_empty] at he

/-- No call returns a row in a terminal state, whatever was marked before. -/
theorem terminal_not_returned (hid : s.store.table.get? id = some e) (hterm : Terminal e.status)
    (hstep : next config s a = some s') : id ∉ returned a := by
  obtain ⟨_, hstore, _⟩ := next_cases hstep
  obtain ⟨w, session, act⟩ := a
  obtain ⟨e', _, hcase⟩ := exists_rowStep hstore hid
  cases act with
  | fetch now batchSize ids =>
    cases hcase with
    | same h => exact h
    | claimed hstatus => simp [Terminal, hstatus] at hterm
  | _ => simp [returned]

theorem terminal_step (hi : DeadExhausted s) (hid : s.store.table.get? id = some e)
    (hterm : Terminal e.status) (hok : NoLateMark as s a) (hstep : next config s a = some s') :
    ∃ e', s'.store.table.get? id = some e' ∧ e'.status = e.status := by
  obtain ⟨_, hstore, _⟩ := next_cases hstep
  obtain ⟨w, session, act⟩ := a
  obtain ⟨e', he', hcase⟩ := exists_rowStep hstore hid
  refine ⟨e', he', ?_⟩
  cases hcase with
  | same _ => rfl
  | claimed hstatus => simp [Terminal, hstatus] at hterm
  | published =>
    rcases hterm with hs | hs
    · exact hs.symm
    · exact absurd hs (hok e hid)
  | @failed now error loaded =>
    obtain ⟨hpublished, hdead⟩ := hok e hid
    rcases hterm with hs | hs
    · exact absurd hs hpublished
    · -- neither the dead row nor the object has retries left, so it stays dead
      have hmax : (loaded.getD e).maxRetries ≤ (loaded.getD e).retryCount + 1 := by
        cases loaded with
        | none =>
          have hrow := hi id e hid hs
          show e.maxRetries ≤ e.retryCount + 1
          omega
        | some event => exact hdead hs event rfl
      simp [afterFailure, hs, hmax]
  | reset hstatus => simp [Terminal, hstatus] at hterm

/-- Every step that does not meet the condition changes a terminal status. -/
theorem late_mark_changes_status (hlate : ¬ NoLateMark as s a)
    (hstep : next config s a = some s') :
    ∃ id e e', s.store.table.get? id = some e ∧ Terminal e.status ∧
      s'.store.table.get? id = some e' ∧ e'.status ≠ e.status := by
  obtain ⟨_, hstore, _⟩ := next_cases hstep
  obtain ⟨w, session, act⟩ := a
  cases act with
  | markPublished now id =>
    simp only [NoLateMark, not_forall, not_not] at hlate
    obtain ⟨e, he, hs⟩ := hlate
    obtain ⟨e', he', hcase⟩ := exists_rowStep hstore he
    refine ⟨id, e, e', he, Or.inr hs, he', ?_⟩
    rw [hs]
    cases hcase with
    | same h => simp [named] at h
    | published => simp
  | markFailed now id error loaded =>
    simp only [NoLateMark, not_forall] at hlate
    obtain ⟨e, he, hlate⟩ := hlate
    obtain ⟨e', he', hcase⟩ := exists_rowStep hstore he
    rcases not_and_or.mp hlate with hs | hlate
    · have hs := not_not.mp hs
      refine ⟨id, e, e', he, Or.inl hs, he', ?_⟩
      rw [hs]
      cases hcase with
      | same h => simp [named] at h
      | failed =>
        simp only [afterFailure]
        split <;> simp
    · simp only [not_forall] at hlate
      obtain ⟨hs, event, hevent, hleft⟩ := hlate
      refine ⟨id, e, e', he, Or.inr hs, he', ?_⟩
      rw [hs]
      cases hcase with
      | same h => simp [named] at h
      | failed => simp [afterFailure, Option.mem_def.mp hevent, hleft]
  | save now created id m => exact absurd trivial hlate
  | fetch now batchSize ids => exact absurd trivial hlate
  | resetStale now timeoutSeconds => exact absurd trivial hlate

/-- When no mark comes late with another outcome, PUBLISHED and DEAD_LETTER are final. -/
theorem outbox_terminal_absorbing {ok : Condition (Fleet J W S) (Call J W S)}
    (h : Trace (fleet J W S config) ok as s) : TerminalAbsorbing config NoLateMark as s := by
  intro id e hid hterm bs x hp
  have hi : CapsKept x ∧ DeadExhausted x ∧
      (∃ e', x.store.table.get? id = some e' ∧ e'.status = e.status) ∧
      ∀ a ∈ bs, id ∉ returned a := by
    induction hp with
    | nil =>
      exact ⟨capsKept_run h, deadExhausted_run h, ⟨e, hid, rfl⟩, fun _ hmem => by cases hmem⟩
    | @snoc t u bs a _ hok hstep ih =>
      obtain ⟨hcaps, hdead, ⟨e', hid', hs'⟩, hnever⟩ := ih
      have hterm' : Terminal e'.status := hs' ▸ hterm
      obtain ⟨e'', hid'', hs''⟩ := terminal_step hdead hid' hterm' hok hstep
      refine ⟨capsKept_step hcaps hstep, deadExhausted_step hdead hcaps hstep,
        ⟨e'', hid'', hs''.trans hs'⟩, fun b hmem => ?_⟩
      rcases List.mem_append.mp hmem with hmem | hmem
      · exact hnever b hmem
      · obtain rfl := List.mem_singleton.mp hmem
        exact terminal_not_returned hid' hterm' hstep
  exact hi.2.2

theorem init_fleet (config : OutboxConfig) (clock : ℤ) :
    (fleet J W S config).init { store := { clock := clock, table := Table.empty } } :=
  rfl

/-- Both workers were given the row, the second one after a stale reset. -/
def sharedRow : List (Call Unit Bool (Option Bool)) :=
  [(false, none, .save 0 0 "a" message), (false, some false, .fetch 1 none ["a"]),
    (false, none, .resetStale 30000002 none), (true, some true, .fetch 30000003 none ["a"])]

/-- The second worker has published the row. -/
def publishedRow : List (Call Unit Bool (Option Bool)) :=
  sharedRow ++ [(true, some true, .markPublished 30000004 "a")]

/-- The object of a worker's session after its claim at `now`. -/
def claimedAt (maxRetries now : ℤ) : OutboxEvent Unit :=
  { message.event { maxRetries := maxRetries } 0 with status := .processing, updatedAt := now }

theorem outbox_terminal_absorbing_published :
    ∃ s : Fleet Unit Bool (Option Bool),
      Trace (fleet Unit Bool (Option Bool) {}) free publishedRow s ∧
      (s.store.table.get? "a").map OutboxEvent.status = some .published ∧
      TerminalAbsorbing {} NoLateMark publishedRow s := by
  have h : (replay (fleet Unit Bool (Option Bool) {}) free [] publishedRow
      { store := { clock := 0, table := Table.empty } }).map
        (fun s => (s.store.table.get? "a").map OutboxEvent.status) = some (some .published) := by
    decide +kernel
  obtain ⟨s, hrun, hs⟩ := Option.map_eq_some_iff.mp h
  have ht := trace_of_replay (init_fleet {} 0) hrun
  exact ⟨s, ht, hs, outbox_terminal_absorbing ht⟩

theorem not_absorbing (config : OutboxConfig) (as : List (Call Unit Bool (Option Bool)))
    (b : Call Unit Bool (Option Bool)) (old new : OutboxStatus) (hterm : Terminal old)
    (hne : new ≠ old)
    (h : (replay (fleet Unit Bool (Option Bool) config) free [] as
      { store := { clock := 0, table := Table.empty } }).bind (fun s => (next config s b).map
        fun x => ((s.store.table.get? "a").map OutboxEvent.status,
          (x.store.table.get? "a").map OutboxEvent.status)) = some (some old, some new)) :
    ∃ s, Trace (fleet Unit Bool (Option Bool) config) free as s ∧
      ¬ TerminalAbsorbing config free as s := by
  obtain ⟨s, hrun, h⟩ := Option.bind_eq_some_iff.mp h
  obtain ⟨x, hx, h⟩ := Option.map_eq_some_iff.mp h
  simp only [Prod.mk.injEq, Option.map_eq_some_iff] at h
  obtain ⟨⟨e, he, hs⟩, e', he', hs'⟩ := h
  refine ⟨s, trace_of_replay (init_fleet _ 0) hrun, fun habsorbing => ?_⟩
  obtain ⟨⟨row, hrow, hkept⟩, _⟩ := habsorbing "a" e he (hs ▸ hterm) [b] x (.single trivial hx)
  obtain rfl : e' = row := by simpa [he'] using hrow
  exact hne (by rw [← hs', hkept, hs])

/-- The first worker marks the row as failed that the second one has published. With a cap of one
retry, the second worker marks the dead row as published. With a cap of two, the first worker has
loaded the row before its two failures, and its own failure leaves the dead row FAILED. -/
theorem late_mark_overwrites_end :
    (¬ ∀ (config : OutboxConfig) (as : List (Call Unit Bool (Option Bool)))
        (s : Fleet Unit Bool (Option Bool)),
      Trace (fleet Unit Bool (Option Bool) config) free as s →
      TerminalAbsorbing config free as s) ∧
    (∃ as s, Trace (fleet Unit Bool (Option Bool) { maxRetries := 1 }) free as s ∧
      ¬ TerminalAbsorbing { maxRetries := 1 } free as s) ∧
    ∃ as s, Trace (fleet Unit Bool (Option Bool) { maxRetries := 2 }) free as s ∧
      ¬ TerminalAbsorbing { maxRetries := 2 } free as s := by
  refine ⟨fun hclaim => ?_, ?_, ?_⟩
  · obtain ⟨s, ht, hnot⟩ := not_absorbing {} publishedRow
      (false, some false, .markFailed 30000005 "a" "TimeoutError" (some (claimedAt 3 1)))
      .published .failed (Or.inl rfl) (by decide) (by decide +kernel)
    exact hnot (hclaim _ _ s ht)
  · exact ⟨_, not_absorbing { maxRetries := 1 }
      (sharedRow ++ [(false, some false, .markFailed 30000004 "a" "TimeoutError"
        (some (claimedAt 1 1)))])
      (true, some true, .markPublished 30000005 "a")
      .deadLetter .published (Or.inr rfl) (by decide) (by decide +kernel)⟩
  · exact ⟨_, not_absorbing { maxRetries := 2 }
      (sharedRow ++ [(true, some true, .markFailed 30000004 "a" "TimeoutError"
          (some (claimedAt 2 30000003))),
        (true, some true, .markFailed 30000005 "a" "TimeoutError" (some (afterFailure 30000004
          "TimeoutError" (claimedAt 2 30000003) (claimedAt 2 30000003))))])
      (false, some false, .markFailed 30000006 "a" "TimeoutError" (some (claimedAt 2 1)))
      .deadLetter .failed (Or.inr rfl) (by decide) (by decide +kernel)⟩

end Taas.OutboxTerminal
