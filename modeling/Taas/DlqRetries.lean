import Taas.Dlq

/-!
The retry bound of the dead letter queue. Only a failure mark brings a row back to PENDING. It
counts one retry from the object of its session, so the bound holds as long as no failure is marked
in a session whose object has another `retry_count` than the row: between two claims of a row its
`retry_count` has grown then, and a claim needs a `retry_count` below the cap.
-/
namespace Taas.DlqRetries

open Sql Transition Dlq

variable {J W S : Type}

def fetched : Act J W S → List String
  | .fetch _ _ _ _ ids => ids
  | _ => []

def returns (id : String) (as : List (Act J W S)) : ℕ := as.countP fun a => id ∈ fetched a

def isFailure (id : String) : Act J W S → Bool
  | .mark _ _ _ j (.failed _) => j = id
  | _ => false

/-- How often `mark_failed` is called on the row. -/
def failures (id : String) (as : List (Act J W S)) : ℕ := as.countP (isFailure id)

theorem returns_snoc (id : String) (as : List (Act J W S)) (a : Act J W S) :
    returns id (as ++ [a]) = returns id as + if id ∈ fetched a then 1 else 0 := by
  simp [returns, List.countP_append, List.countP_singleton]

theorem failures_snoc (id : String) (as : List (Act J W S)) (a : Act J W S) :
    failures id (as ++ [a]) = failures id as + if isFailure id a then 1 else 0 := by
  simp [failures, List.countP_append, List.countP_singleton]

variable [DecidableEq W] [DecidableEq S]

/-- The retry contract of the row `id` with cap `cap`, in the state `s` that the steps `as`
lead to from the save of the row, for the runs that meet `ok`. -/
structure RetryContract (config : DeadLetterConfig) (ok : Condition (Queue J W S) (Act J W S))
    (id : String) (cap : ℤ) (as : List (Act J W S)) (s : Queue J W S) : Prop where
  counted : ∃ e, s.table.get? id = some e ∧ e.maxRetries = cap ∧ e.retryCount = failures id as
  bounded : returns id as ≤ cap
  monotone : ∀ l bs t, Path (queue J W S config) ok l s bs t →
    ∃ e e', s.table.get? id = some e ∧ t.table.get? id = some e' ∧ e.retryCount ≤ e'.retryCount
  exhausted : cap ≤ failures id as → ∀ l bs t, Path (queue J W S config) ok l s bs t →
    ∀ a ∈ bs, id ∉ fetched a

/-- A failure is marked only in a session whose object of the row, if it has one, has the
`retry_count` of the row. -/
def CurrentMarks : Condition (Queue J W S) (Act J W S) := fun _ s a =>
  match a with
  | .mark _ _ session id (.failed _) => ∀ e ∈ s.table.get? id,
      ∀ event ∈ s.objects.get? session id, event.retryCount = e.retryCount
  | _ => True

instance (as : List (Act J W S)) (s : Queue J W S) (a : Act J W S) :
    Decidable (CurrentMarks as s a) := by
  unfold CurrentMarks
  split <;> infer_instance

/-- Every claim so far is followed by a failure mark, but for the last one. -/
structure Counted (id : String) (r cap : ℤ) (as : List (Act J W S)) (e : DLQEvent J) : Prop where
  capped : e.maxRetries = cap
  retryCount : e.retryCount = r + failures id as
  waiting : e.status = .pending → r + returns id as ≤ e.retryCount
  returned : r + returns id as ≤ e.retryCount + 1
  bounded : r + returns id as ≤ max r cap

variable {config : DeadLetterConfig} {ok : Condition (Queue J W S) (Act J W S)}
variable {s s₀ s' t : Queue J W S} {a : Act J W S} {as : List (Act J W S)}
variable {past : List (Act J W S)} {id : String} {e e' : DLQEvent J} {r cap now : ℤ}
variable {m : FailedEvent J}

omit [DecidableEq W] [DecidableEq S] in
theorem Counted.quiet (hi : Counted id r cap as e) (hf : id ∉ fetched a)
    (hm : isFailure id a = false) (hcap : e'.maxRetries = e.maxRetries)
    (hcount : e'.retryCount = e.retryCount) (hs : e'.status = .pending → e.status = .pending) :
    Counted id r cap (as ++ [a]) e' := by
  have hret : returns id (as ++ [a]) = returns id as := by simp [returns_snoc, hf]
  have hfail : failures id (as ++ [a]) = failures id as := by simp [failures_snoc, hm]
  refine ⟨hcap.trans hi.capped, ?_, fun hp => ?_, ?_, ?_⟩
  · rw [hcount, hfail]
    exact hi.retryCount
  · rw [hcount, hret]
    exact hi.waiting (hs hp)
  · rw [hcount, hret]
    exact hi.returned
  · rw [hret]
    exact hi.bounded

omit [DecidableEq W] [DecidableEq S] in
theorem Counted.claim (hi : Counted id r cap as e) (hf : id ∈ fetched a)
    (hm : isFailure id a = false) (hstatus : e.status = .pending)
    (hleft : e.retryCount < e.maxRetries) (hcap : e'.maxRetries = e.maxRetries)
    (hcount : e'.retryCount = e.retryCount) (hs : e'.status ≠ .pending) :
    Counted id r cap (as ++ [a]) e' := by
  have hret : returns id (as ++ [a]) = returns id as + 1 := by simp [returns_snoc, hf]
  have hfail : failures id (as ++ [a]) = failures id as := by simp [failures_snoc, hm]
  have hwait := hi.waiting hstatus
  have hcapped := hi.capped
  refine ⟨hcap.trans hcapped, ?_, fun hp => absurd hp hs, ?_, ?_⟩
  · rw [hcount, hfail]
    exact hi.retryCount
  · rw [hcount, hret]
    push_cast
    omega
  · rw [hret]
    push_cast
    omega

omit [DecidableEq W] [DecidableEq S] in
theorem Counted.failed (hi : Counted id r cap as e) (hf : id ∉ fetched a)
    (hm : isFailure id a = true) (hcap : e'.maxRetries = e.maxRetries)
    (hcount : e'.retryCount = e.retryCount + 1) : Counted id r cap (as ++ [a]) e' := by
  have hret : returns id (as ++ [a]) = returns id as := by simp [returns_snoc, hf]
  have hfail : failures id (as ++ [a]) = failures id as + 1 := by simp [failures_snoc, hm]
  have hold := hi.retryCount
  have hreturned := hi.returned
  refine ⟨hcap.trans hi.capped, ?_, fun _ => ?_, ?_, ?_⟩
  · rw [hcount, hfail]
    push_cast
    omega
  · rw [hcount, hret]
    exact hreturned
  · rw [hcount, hret]
    omega
  · rw [hret]
    exact hi.bounded

omit [DecidableEq W] in
theorem seen_retryCount {caller : Option W} {session : S} {error : String}
    (hid : s.table.get? id = some e)
    (hok : CurrentMarks past s (.mark now caller session id (.failed error))) :
    (seen s session id e).retryCount = e.retryCount := by
  unfold seen
  cases hevent : s.objects.get? session id with
  | none => rfl
  | some event => exact hok e hid event hevent

omit [DecidableEq W] in
theorem counted_step (hi : Counted id r cap as e) (hid : s.table.get? id = some e)
    (hok : CurrentMarks past s a) (hcase : RowStep s id e a e') :
    Counted id r cap (as ++ [a]) e' := by
  cases hcase with
  | saved => exact hi.quiet (by simp [fetched]) rfl rfl rfl fun h => h
  | stopped => exact hi.quiet (by simp [fetched]) rfl rfl rfl fun h => h
  | passed hid => exact hi.quiet hid rfl rfl rfl fun h => h
  | unmarked hj =>
    refine hi.quiet (by simp [fetched]) ?_ rfl rfl fun h => h
    unfold isFailure
    split
    · rename_i heq
      cases heq
      simp [hj.symm]
    · rfl
  | claimed hid hstatus hleft => exact hi.claim hid rfl hstatus hleft rfl rfl (by simp)
  | @marked now caller session mark =>
    cases mark with
    | resolved => exact hi.quiet (by simp [fetched]) rfl rfl rfl fun h => by cases h
    | abandoned => exact hi.quiet (by simp [fetched]) rfl rfl rfl fun h => by cases h
    | failed error =>
      have hcount : (Mark.of now (seen s session id e) e (.failed error)).retryCount =
          e.retryCount + 1 := by
        show (seen s session id e).retryCount + 1 = e.retryCount + 1
        rw [seen_retryCount hid hok]
      exact hi.failed (by simp [fetched]) (by simp [isFailure]) rfl hcount

theorem counted_run (hid : s.table.get? id = some e)
    (h : Path (queue J W S config) CurrentMarks past s as t) :
    ∃ e', t.table.get? id = some e' ∧ Counted id e.retryCount e.maxRetries as e' := by
  induction h with
  | nil => exact ⟨e, hid, rfl, by simp [failures], by simp [returns], by simp [returns],
      by simp [returns]⟩
  | snoc _ hok hstep ih =>
    obtain ⟨row, hrow, hi⟩ := ih
    obtain ⟨row', hrow', hcase⟩ := exists_rowStep hstep hrow
    exact ⟨row', hrow', counted_step hi hrow hok hcase⟩

/-- A row whose retries are used up is not returned in any later run. -/
theorem not_returned_of_exhausted (hid : s.table.get? id = some e)
    (hmax : e.maxRetries ≤ e.retryCount)
    (h : Path (queue J W S config) CurrentMarks past s as t) : ∀ a ∈ as, id ∉ fetched a := by
  obtain ⟨e', _, hi⟩ := counted_run hid h
  have hbound := hi.bounded
  have hzero : returns id as = 0 := by omega
  intro a ha hmem
  exact absurd (List.countP_eq_zero.mp hzero a ha) (by simp [hmem])

/-- After its save, a row with a cap of at least 0 meets the retry contract in every run in which
failures are marked in sessions that are up to date. -/
theorem dlq_retry_contract {session : S}
    (hsave : next config s₀ (.save now session id m) = some s)
    (hcap : 0 ≤ (m.row config now).maxRetries)
    (h : Path (queue J W S config) CurrentMarks past s as t) :
    RetryContract config CurrentMarks id (m.row config now).maxRetries as t := by
  have hid : s.table.get? id = some (m.row config now) := by
    obtain ⟨table, ht, rfl⟩ := Option.map_eq_some_iff.mp hsave
    simp [(Table.insert_eq_some ht).2 id]
  obtain ⟨e, he, hi⟩ := counted_run hid h
  have hzero : (m.row config now).retryCount = 0 := rfl
  have hcount := hi.retryCount
  have hbound := hi.bounded
  have hcap' := hi.capped
  refine ⟨⟨e, he, hcap', by omega⟩, by omega, fun l bs u hp => ?_, fun hmax l bs u hp => ?_⟩
  · obtain ⟨e', he', hi'⟩ := counted_run he hp
    have := hi'.retryCount
    exact ⟨e, e', he, he', by omega⟩
  · exact not_returned_of_exhausted he (by omega) hp

/-- A step that does not meet the condition breaks the count of a row that has met the contract. -/
theorem stale_mark_miscounts (hstale : ¬ CurrentMarks past s a)
    (hstep : next config s a = some s') :
    ∃ id e', s'.table.get? id = some e' ∧ isFailure id a = true ∧
      ∀ cap, RetryContract config ok id cap as s → e'.retryCount ≠ failures id (as ++ [a]) := by
  unfold CurrentMarks at hstale
  split at hstale
  · rename_i now caller session id error
    simp only [not_forall] at hstale
    obtain ⟨e, he, event, hevent, hne⟩ := hstale
    have hrow := Option.mem_def.mp he
    obtain ⟨e', he', hcase⟩ := exists_rowStep hstep hrow
    refine ⟨id, e', he', by simp [isFailure], fun cap hcontract heq => ?_⟩
    obtain ⟨row, hrow', _, hcount⟩ := hcontract.counted
    obtain rfl : e = row := by simpa [hrow] using hrow'
    rw [failures_snoc] at heq
    cases hcase with
    | unmarked hj => exact hj rfl
    | marked =>
      have hseen : seen s session id e = event := by
        simp [seen, Option.mem_def.mp hevent]
      simp only [Mark.of, hseen, isFailure, decide_true, if_true] at heq
      push_cast at heq
      exact hne (by omega)
  · exact absurd trivial hstale

def poisoned : FailedEvent Unit where
  eventId := "evt-1"
  eventType := "OrderCreated"
  handlerName := "OrderHandler"
  payload := ()
  error := "Downstream timeout"
  headers := ()
  maxRetries := some 2

def saved : Queue Unit Bool (Option Bool) where
  table := ⟨[("a", poisoned.row {} 0)], by simp⟩
  objects := [((none, "a"), poisoned.row {} 0)]

/-- Two claims, the second after a failure mark by an operator, and a late mark by each worker. -/
theorem dlq_retry_contract_late_marks :
    let as : List (Act Unit Bool (Option Bool)) :=
      [.fetch 1 false (some false) none ["a"], .mark 2 none none "a" (.failed "retry"),
        .fetch 3 true (some true) none ["a"], .mark 4 (some false) (some false) "a" .resolved,
        .mark 5 (some true) (some true) "a" (.failed "still broken")]
    ∃ t, Path (queue Unit Bool (Option Bool) {}) CurrentMarks [] saved as t ∧
      RetryContract {} CurrentMarks "a" 2 as t := by
  intro as
  have h : ((replay (queue Unit Bool (Option Bool) {}) CurrentMarks [] as saved).map
      fun t => (t.table.get? "a").map DLQEvent.status) = some (some .abandoned) := by
    decide +kernel
  obtain ⟨t, hrun, _⟩ := Option.map_eq_some_iff.mp h
  have hp := replay_path hrun
  have hsave : next {} { table := Table.empty } (Act.save 0 none "a" poisoned) = some saved := by
    decide +kernel
  exact ⟨t, hp, dlq_retry_contract hsave (by decide) hp⟩

/-- An operator and the second worker use the two retries up. The first worker's late failure is
counted from the object that it loaded at its claim, and the row is returned a third time. -/
theorem stale_mark_revives_row :
    ¬ ∀ (config : DeadLetterConfig) (s₀ s t : Queue Unit Bool (Option Bool))
      (as : List (Act Unit Bool (Option Bool))) (m : FailedEvent Unit),
      next config s₀ (.save 0 none "a" m) = some s → 0 ≤ (m.row config 0).maxRetries →
      Path (queue Unit Bool (Option Bool) config) free [] s as t →
      RetryContract config free "a" (m.row config 0).maxRetries as t := by
  intro hclaim
  let as : List (Act Unit Bool (Option Bool)) :=
    [.fetch 1 false (some false) none ["a"], .mark 2 none none "a" (.failed "retry"),
      .fetch 3 true (some true) none ["a"], .mark 4 (some true) (some true) "a" (.failed "retry"),
      .mark 5 (some false) (some false) "a" (.failed "TimeoutError"),
      .fetch 6 true none none ["a"]]
  have h : ((replay (queue Unit Bool (Option Bool) {}) free [] as saved).map
      fun t => (t.table.get? "a").map DLQEvent.retryCount) = some (some 1) := by
    decide +kernel
  obtain ⟨t, hrun, _⟩ := Option.map_eq_some_iff.mp h
  have hsave : next {} { table := Table.empty } (Act.save 0 none "a" poisoned) = some saved := by
    decide +kernel
  have hcontract := hclaim {} _ saved t as poisoned hsave (by decide) (replay_path hrun)
  exact absurd hcontract.bounded (by decide)

end Taas.DlqRetries
