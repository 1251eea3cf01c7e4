import Taas.EventProcessor
import Taas.Transition

/-!
`_run_consuming` of the aiokafka consumer with auto-commit disabled. The loop moves the
position of a partition when it receives a message, and gives the message to a task. The
task ends with a commit or without one, and a commit without arguments is for the current
positions of all partitions, whichever message the task had. A dead letter is only queued when
the task goes on: `_publish_dlq_event` returns the future of its producer's `send`, for which nobody
waits. What is committed is processed or dead-lettered as long as no commit is made past a message
that is still in work or that ended in neither way, and none is stored while a dead letter is
queued.
-/
namespace Taas.KafkaOffsets

open EventProcessor Transition

/-- The value of a record: none for a null message, else what decoding it gives. -/
abbrev Value := Option (Except DecodeError BaseEvent)

structure Service (P : Type) where
  settings : MessagingSettings := {}
  config : EventProcessorConfig := {}
  maxWorkers : ℤ := 1
  log : P → List Value

/-- The loop holds the message it has received until it makes a task of it. A task is in
`_process_message`, then at its commit, then waiting for the answer, with the positions
that its commit was called with. `undelivered` holds the messages whose dead letter the producer has
taken but the broker has not. `resolved` records the messages that were processed or dead-lettered,
`skipped` those that ended otherwise since the last start. -/
structure Consumption (P : Type) where
  position : P → ℕ
  committed : P → ℕ
  received : Option (P × ℕ) := none
  processing : List (P × ℕ) := []
  committing : ℕ := 0
  requests : List (P → ℕ) := []
  undelivered : List (P × ℕ) := []
  resolved : List (P × ℕ) := []
  skipped : List (P × ℕ) := []
  running : Bool := true
  looping : Bool := true

inductive Act (P : Type)
  | poll (p : P)
  | spawn
  | finish (p : P) (o : ℕ) (lookup : Except String (Option EventHandler))
      (publishDlq : Except String Unit)
  | commit
  | reply (i : ℕ) (succeeds : Bool)
  | deliver (p : P) (o : ℕ)
  | stop
  | cancel (p : P) (o : ℕ)
  | crash

variable {P : Type}

def Consumption.processingTasks (s : Consumption P) : ℕ :=
  s.processing.length + s.committing + s.requests.length

/-- The handling of a message ends. An exception leaves the loop when there is no task
between them. -/
def Consumption.finish [DecidableEq P] (maxWorkers : ℤ) (m : P × ℕ) (h : Handling)
    (s : Consumption P) : Consumption P :=
  { s with
    processing := s.processing.erase m
    committing := if .committed ∈ h.effects then s.committing + 1 else s.committing
    undelivered := if .deadLettered ∈ h.effects then m :: s.undelivered else s.undelivered
    resolved := if .processed ∈ h.effects then m :: s.resolved else s.resolved
    skipped :=
      if .processed ∈ h.effects ∨ .deadLettered ∈ h.effects then s.skipped else m :: s.skipped
    looping := if h.raised.isSome ∧ maxWorkers ≤ 1 then false else s.looping }

def next [DecidableEq P] (v : Service P) (s : Consumption P) : Act P → Option (Consumption P)
  | .poll p =>
    if s.looping ∧ s.received = none ∧ (v.maxWorkers ≤ 1 → s.processingTasks = 0) ∧
        s.position p < (v.log p).length then
      let position := Function.update s.position p (s.position p + 1)
      if s.running then some { s with position := position, received := some (p, s.position p) }
      -- the loop breaks with the message in hand
      else some { s with
        position := position
        skipped := (p, s.position p) :: s.skipped
        looping := false }
    else none
  | .spawn =>
    match s.received with
    | some m =>
      if v.maxWorkers ≤ 1 ∨ s.processingTasks < v.maxWorkers then
        some { s with received := none, processing := m :: s.processing }
      else none
    | none => none
  | .finish p o lookup publishDlq =>
    if (p, o) ∈ s.processing then
      (v.log p)[o]?.map fun value => s.finish v.maxWorkers (p, o)
        (aiokafkaProcessMessage v.settings v.config false
          { value := value, lookup := lookup, publishDlq := publishDlq })
    else none
  | .commit =>
    if 0 < s.committing then
      some { s with committing := s.committing - 1, requests := s.position :: s.requests }
    else none
  | .reply i succeeds =>
    s.requests[i]?.map fun offsets =>
      { s with
        requests := s.requests.eraseIdx i
        committed := if succeeds then offsets else s.committed }
  | .deliver p o =>
    if (p, o) ∈ s.undelivered then
      some { s with
        undelivered := s.undelivered.erase (p, o)
        resolved := (p, o) :: s.resolved }
    else none
  | .stop => some { s with running := false }
  | .cancel p o =>
    if s.running = false ∧ (p, o) ∈ s.processing then
      some { s with processing := s.processing.erase (p, o), skipped := (p, o) :: s.skipped }
    else none
  -- the service is started again, at the committed offsets and without the queued dead letters
  | .crash =>
    some { position := s.committed, committed := s.committed, resolved := s.resolved }

def consumer [DecidableEq P] (v : Service P) (start : P → ℕ) :
    System (Consumption P) (Act P) where
  init s := s = { position := start, committed := start }
  next := next v

/-- The committed offset has passed only messages that were processed or dead-lettered. -/
def AtLeastOnce (start : P → ℕ) (s : Consumption P) : Prop :=
  ∀ p o, start p ≤ o → o < s.committed p → (p, o) ∈ s.resolved

/-- A commit is called only when every message received since the start has ended in success or in
`send_to_dlq`: none has ended otherwise, and, with several workers, none is in work. It is stored
only when no dead letter below its offsets is queued. -/
def CommitsSettled (v : Service P) : Condition (Consumption P) (Act P) := fun _ s a =>
  match a with
  | .commit =>
    s.skipped = [] ∧ (1 < v.maxWorkers → s.received = none ∧ s.processing = [])
  | .reply i true => ∀ offsets ∈ s.requests[i]?, ∀ m ∈ s.undelivered, offsets m.1 ≤ m.2
  | _ => True

instance (v : Service P) (as : List (Act P)) (s : Consumption P) (a : Act P) :
    Decidable (CommitsSettled v as s a) :=
  match a with
  | .poll _ | .spawn | .finish _ _ _ _ | .commit | .reply _ true | .reply _ false | .deliver _ _
  | .stop | .cancel _ _ | .crash => by unfold CommitsSettled; infer_instance

/-- Nothing of the message is left to do but the delivery of its dead letter. -/
def Settled (s : Consumption P) (m : P × ℕ) : Prop := m ∈ s.resolved ∨ m ∈ s.undelivered

/-- The message has been received since the start and not lost sight of. -/
def Placed (s : Consumption P) (m : P × ℕ) : Prop :=
  Settled s m ∨ m ∈ s.skipped ∨ m ∈ s.processing ∨ s.received = some m

/-- Every received message has its place, and the offsets of the commits under way are as
safe as the committed ones but for the queued dead letters. -/
structure Accounted (start : P → ℕ) (s : Consumption P) : Prop where
  consumed : ∀ p o, start p ≤ o → o < s.position p → Placed s (p, o)
  requested : ∀ offsets ∈ s.requests, ∀ p o, start p ≤ o → o < offsets p → Settled s (p, o)
  committed : AtLeastOnce start s

/-- A sequential consumer has one message at a time. -/
def Sequential (v : Service P) (s : Consumption P) : Prop :=
  v.maxWorkers ≤ 1 → s.received.toList.length + s.processingTasks ≤ 1

variable {v : Service P} {start : P → ℕ} {s s' t : Consumption P} {a : Act P}
variable {as : List (Act P)} {m : P × ℕ}

/-- A step that commits nothing keeps the account when the messages keep a place and those
it receives get one. -/
theorem Accounted.of_placed (hi : Accounted start s) (hcommitted : t.committed = s.committed)
    (hrequests : t.requests = s.requests) (hresolved : ∀ m ∈ s.resolved, m ∈ t.resolved)
    (hsettled : ∀ m, Settled s m → Settled t m) (hplaced : ∀ m, Placed s m → Placed t m)
    (hposition : ∀ p o, o < t.position p → o < s.position p ∨ Placed t (p, o)) :
    Accounted start t := by
  constructor
  · intro p o hstart ho
    rcases hposition p o ho with hold | hnew
    · exact hplaced _ (hi.consumed p o hstart hold)
    · exact hnew
  · rw [hrequests]
    intro offsets hoffsets p o hstart ho
    exact hsettled _ (hi.requested offsets hoffsets p o hstart ho)
  · intro p o hstart ho
    rw [hcommitted] at ho
    exact hresolved _ (hi.committed p o hstart ho)

theorem placed_received (hr : s.received = none) (hm : Placed s m) {position : P → ℕ}
    (new : P × ℕ) : Placed { s with position := position, received := some new } m := by
  rcases hm with h | h | h | h
  · exact Or.inl h
  · exact Or.inr (Or.inl h)
  · exact Or.inr (Or.inr (Or.inl h))
  · rw [hr] at h
    cases h

theorem placed_spawn {new : P × ℕ} (hr : s.received = some new) (hm : Placed s m) :
    Placed { s with received := none, processing := new :: s.processing } m := by
  rcases hm with h | h | h | h
  · exact Or.inl h
  · exact Or.inr (Or.inl h)
  · exact Or.inr (Or.inr (Or.inl (List.mem_cons_of_mem new h)))
  · obtain rfl : new = m := Option.some.inj (hr.symm.trans h)
    exact Or.inr (Or.inr (Or.inl List.mem_cons_self))

theorem accounted_commit (hi : Accounted start s) (hskipped : s.skipped = [])
    (hreceived : s.received = none) (hprocessing : s.processing = []) :
    Accounted start { s with
      committing := s.committing - 1
      requests := s.position :: s.requests } := by
  refine ⟨hi.consumed, ?_, hi.committed⟩
  intro offsets hoffsets
  rcases List.mem_cons.mp hoffsets with rfl | hoffsets
  · intro p o hstart ho
    rcases hi.consumed p o hstart ho with hsettled | hrest
    · exact hsettled
    · simp [hskipped, hreceived, hprocessing] at hrest
  · exact hi.requested offsets hoffsets

theorem accounted_reply {i : ℕ} {offsets : P → ℕ} (hi : Accounted start s)
    (hoffsets : s.requests[i]? = some offsets) {succeeds : Bool}
    (hdelivered : succeeds = true → ∀ m ∈ s.undelivered, offsets m.1 ≤ m.2) :
    Accounted start { s with
      requests := s.requests.eraseIdx i
      committed := if succeeds then offsets else s.committed } := by
  refine ⟨hi.consumed, ?_, ?_⟩
  · intro offsets' hoffsets'
    exact hi.requested offsets' ((List.eraseIdx_sublist ..).subset hoffsets')
  · cases succeeds with
    | false => exact hi.committed
    | true =>
      intro p o hstart ho
      rcases hi.requested offsets (List.mem_of_getElem? hoffsets) p o hstart ho with hm | hqueued
      · exact hm
      · exact absurd ho (Nat.not_lt.mpr (hdelivered rfl (p, o) hqueued))

theorem accounted_crash (hi : Accounted start s) : Accounted start
    { position := s.committed, committed := s.committed, resolved := s.resolved } := by
  constructor
  · intro p o hstart ho
    exact Or.inl (Or.inl (hi.committed p o hstart ho))
  · intro offsets hoffsets
    cases hoffsets
  · exact hi.committed

variable [DecidableEq P]

theorem accounted_poll {p : P} (hi : Accounted start s)
    (hposition : t.position = Function.update s.position p (s.position p + 1))
    (hcommitted : t.committed = s.committed) (hrequests : t.requests = s.requests)
    (hresolved : t.resolved = s.resolved) (hundelivered : t.undelivered = s.undelivered)
    (hplaced : ∀ m, Placed s m → Placed t m) (hnew : Placed t (p, s.position p)) :
    Accounted start t := by
  refine hi.of_placed hcommitted hrequests (fun m hm => hresolved ▸ hm) (fun m hm => ?_) hplaced ?_
  · unfold Settled at hm ⊢
    rw [hresolved, hundelivered]
    exact hm
  intro q o ho
  rw [hposition] at ho
  by_cases hq : q = p
  · subst hq
    rw [Function.update_self] at ho
    rcases Nat.lt_succ_iff_lt_or_eq.mp ho with hlt | rfl
    · exact Or.inl hlt
    · exact Or.inr hnew
  · rw [Function.update_of_ne hq] at ho
    exact Or.inl ho

theorem placed_leave {left : P × ℕ} (hm : Placed s m) (hreceived : t.received = s.received)
    (hprocessing : t.processing = s.processing.erase left)
    (hsettled : ∀ m, Settled s m → Settled t m) (hskipped : ∀ m ∈ s.skipped, m ∈ t.skipped)
    (hleft : Settled t left ∨ left ∈ t.skipped) : Placed t m := by
  rcases hm with h | h | h | h
  · exact Or.inl (hsettled m h)
  · exact Or.inr (Or.inl (hskipped m h))
  · by_cases heq : m = left
    · subst heq
      rcases hleft with hl | hl
      · exact Or.inl hl
      · exact Or.inr (Or.inl hl)
    · refine Or.inr (Or.inr (Or.inl ?_))
      rw [hprocessing]
      exact (List.mem_erase_of_ne heq).mpr h
  · refine Or.inr (Or.inr (Or.inr ?_))
    rw [hreceived]
    exact h

theorem accounted_finish (hi : Accounted start s) (maxWorkers : ℤ) (left : P × ℕ)
    (h : Handling) : Accounted start (s.finish maxWorkers left h) := by
  have hresolved : ∀ m ∈ s.resolved, m ∈ (s.finish maxWorkers left h).resolved := by
    intro m hm
    simp only [Consumption.finish]
    split
    · exact List.mem_cons_of_mem left hm
    · exact hm
  have hsettled : ∀ m, Settled s m → Settled (s.finish maxWorkers left h) m := by
    rintro m (hm | hm)
    · exact Or.inl (hresolved m hm)
    · refine Or.inr ?_
      simp only [Consumption.finish]
      split
      · exact List.mem_cons_of_mem left hm
      · exact hm
  refine hi.of_placed (by rfl) (by rfl) hresolved hsettled ?_ ?_
  · intro m hm
    refine placed_leave hm (by rfl) (by rfl) hsettled ?_ ?_
    · intro m hm
      simp only [Consumption.finish]
      split
      · exact hm
      · exact List.mem_cons_of_mem left hm
    · simp only [Settled, Consumption.finish]
      by_cases hprocessed : .processed ∈ h.effects
      · simp [hprocessed]
      · by_cases hdead : .deadLettered ∈ h.effects <;> simp [hprocessed, hdead]
  · intro p o ho
    exact Or.inl ho

theorem accounted_deliver {p : P} {o : ℕ} (hi : Accounted start s) : Accounted start { s with
    undelivered := s.undelivered.erase (p, o)
    resolved := (p, o) :: s.resolved } := by
  have hsettled : ∀ m, Settled s m → Settled { s with
      undelivered := s.undelivered.erase (p, o)
      resolved := (p, o) :: s.resolved } m := by
    rintro m (hm | hm)
    · exact Or.inl (List.mem_cons_of_mem _ hm)
    · by_cases heq : m = (p, o)
      · exact Or.inl (heq ▸ List.mem_cons_self)
      · exact Or.inr ((List.mem_erase_of_ne heq).mpr hm)
  refine hi.of_placed (by rfl) (by rfl) (fun m hm => List.mem_cons_of_mem _ hm) hsettled ?_
    fun q i hi' => Or.inl hi'
  rintro m (hm | hm)
  · exact Or.inl (hsettled m hm)
  · exact Or.inr hm

omit [DecidableEq P] in
/-- The task at its commit is the one message of a sequential consumer. -/
theorem Sequential.committing_alone (hseq : Sequential v s) (hworkers : v.maxWorkers ≤ 1)
    (hcommitting : 0 < s.committing) : s.received = none ∧ s.processing = [] := by
  have hone := hseq hworkers
  unfold Consumption.processingTasks at hone
  constructor
  · rw [← Option.toList_eq_nil_iff, ← List.length_eq_zero_iff]
    omega
  · rw [← List.length_eq_zero_iff]
    omega

theorem accounted_step (hi : Accounted start s) (hseq : Sequential v s)
    (hok : CommitsSettled v as s a) (h : next v s a = some s') : Accounted start s' := by
  cases a with
  | poll p =>
    simp only [next, Option.ite_none_right_eq_some] at h
    obtain ⟨⟨-, hr, -⟩, h⟩ := h
    split at h
    · obtain rfl := Option.some.inj h
      refine accounted_poll hi (by rfl) (by rfl) (by rfl) (by rfl) (by rfl) ?_ ?_
      · intro m hm
        exact placed_received hr hm _
      · exact Or.inr (Or.inr (Or.inr rfl))
    · obtain rfl := Option.some.inj h
      refine accounted_poll hi (by rfl) (by rfl) (by rfl) (by rfl) (by rfl) ?_ ?_
      · intro m hm
        rcases hm with h | h | h
        · exact Or.inl h
        · exact Or.inr (Or.inl (List.mem_cons_of_mem _ h))
        · exact Or.inr (Or.inr h)
      · exact Or.inr (Or.inl List.mem_cons_self)
  | spawn =>
    simp only [next] at h
    split at h
    · rename_i new hr
      simp only [Option.ite_none_right_eq_some, Option.some.injEq] at h
      obtain ⟨-, rfl⟩ := h
      refine hi.of_placed (by rfl) (by rfl) (fun m hm => hm) (fun m hm => hm) ?_ ?_
      · intro m hm
        exact placed_spawn hr hm
      · intro p o ho
        exact Or.inl ho
    · cases h
  | finish p o lookup publishDlq =>
    simp only [next, Option.ite_none_right_eq_some, Option.map_eq_some_iff] at h
    obtain ⟨-, value, -, rfl⟩ := h
    exact accounted_finish hi v.maxWorkers (p, o) _
  | commit =>
    simp only [next, Option.ite_none_right_eq_some, Option.some.injEq] at h
    obtain ⟨hcommitting, rfl⟩ := h
    obtain ⟨hskipped, hsettled⟩ := hok
    by_cases hworkers : 1 < v.maxWorkers
    · obtain ⟨hreceived, hprocessing⟩ := hsettled hworkers
      exact accounted_commit hi hskipped hreceived hprocessing
    · obtain ⟨hreceived, hprocessing⟩ := hseq.committing_alone (by omega) hcommitting
      exact accounted_commit hi hskipped hreceived hprocessing
  | reply i succeeds =>
    simp only [next, Option.map_eq_some_iff] at h
    obtain ⟨offsets, hoffsets, rfl⟩ := h
    refine accounted_reply hi hoffsets fun hsucceeds => ?_
    subst hsucceeds
    exact hok offsets hoffsets
  | deliver p o =>
    simp only [next, Option.ite_none_right_eq_some, Option.some.injEq] at h
    obtain ⟨-, rfl⟩ := h
    exact accounted_deliver hi
  | stop =>
    obtain rfl := Option.some.inj h
    exact ⟨hi.consumed, hi.requested, hi.committed⟩
  | cancel p o =>
    simp only [next, Option.ite_none_right_eq_some, Option.some.injEq] at h
    obtain ⟨-, rfl⟩ := h
    refine hi.of_placed (by rfl) (by rfl) (fun m hm => hm) (fun m hm => hm) ?_ ?_
    · intro m hm
      refine placed_leave hm (by rfl) (by rfl) (fun m hm => hm) ?_ ?_
      · intro m hm
        exact List.mem_cons_of_mem _ hm
      · exact Or.inr List.mem_cons_self
    · intro q i hi'
      exact Or.inl hi'
  | crash =>
    obtain rfl := Option.some.inj h
    exact accounted_crash hi

theorem sequential_step (hseq : Sequential v s) (h : next v s a = some s') :
    Sequential v s' := by
  intro hworkers
  have hone := hseq hworkers
  unfold Consumption.processingTasks at hone ⊢
  cases a with
  | poll p =>
    simp only [next, Option.ite_none_right_eq_some] at h
    obtain ⟨⟨-, hr, hidle, -⟩, h⟩ := h
    have hnone := hidle hworkers
    unfold Consumption.processingTasks at hnone
    split at h
    · obtain rfl := Option.some.inj h
      simp only [Option.toList_some, List.length_singleton]
      omega
    · obtain rfl := Option.some.inj h
      exact hone
  | spawn =>
    simp only [next] at h
    split at h
    · rename_i new hr
      simp only [Option.ite_none_right_eq_some, Option.some.injEq] at h
      obtain ⟨-, rfl⟩ := h
      simp only [hr, Option.toList_some, List.length_singleton] at hone
      simp only [Option.toList_none, List.length_nil, List.length_cons]
      omega
    · cases h
  | finish p o lookup publishDlq =>
    simp only [next, Option.ite_none_right_eq_some, Option.map_eq_some_iff] at h
    obtain ⟨hmem, value, -, rfl⟩ := h
    have herase := List.length_erase_of_mem hmem
    have hpos := List.length_pos_of_mem hmem
    simp only [Consumption.finish, herase]
    split <;> omega
  | commit =>
    simp only [next, Option.ite_none_right_eq_some, Option.some.injEq] at h
    obtain ⟨hcommitting, rfl⟩ := h
    simp only [List.length_cons]
    omega
  | reply i succeeds =>
    simp only [next, Option.map_eq_some_iff] at h
    obtain ⟨offsets, -, rfl⟩ := h
    have hsub := (List.eraseIdx_sublist s.requests i).length_le
    calc s.received.toList.length +
          (s.processing.length + s.committing + (s.requests.eraseIdx i).length)
        ≤ s.received.toList.length +
          (s.processing.length + s.committing + s.requests.length) := by omega
      _ ≤ 1 := hone
  | deliver p o =>
    simp only [next, Option.ite_none_right_eq_some, Option.some.injEq] at h
    obtain ⟨-, rfl⟩ := h
    exact hone
  | stop =>
    obtain rfl := Option.some.inj h
    exact hone
  | cancel p o =>
    simp only [next, Option.ite_none_right_eq_some, Option.some.injEq] at h
    obtain ⟨⟨-, hmem⟩, rfl⟩ := h
    have herase := List.length_erase_of_mem hmem
    simp only [herase]
    omega
  | crash =>
    obtain rfl := Option.some.inj h
    simp

/-- As long as no commit is called past a message that was skipped or is in work, nor stored past a
dead letter that is queued, no message is lost: whatever the committed offsets have passed was
processed or dead-lettered. -/
theorem no_message_lost (v : Service P) (start : P → ℕ) (as : List (Act P)) (s : Consumption P)
    (h : Trace (consumer v start) (CommitsSettled v) as s) : AtLeastOnce start s := by
  have hinv : Accounted start s ∧ Sequential v s := by
    refine Trace.induct (M := consumer v start)
      (I := fun _ s => Accounted start s ∧ Sequential v s) ?_ ?_ as s h
    · intro s hs
      obtain rfl : s = { position := start, committed := start } := hs
      refine ⟨⟨?_, ?_, ?_⟩, ?_⟩
      · intro p o hstart ho
        exact absurd ho (Nat.not_lt.mpr hstart)
      · intro offsets hoffsets
        cases hoffsets
      · intro p o hstart ho
        exact absurd ho (Nat.not_lt.mpr hstart)
      · intro _
        simp [Consumption.processingTasks]
    · rintro as s a s' - ⟨hi, hseq⟩ hok hnext
      exact ⟨accounted_step hi hseq hok hnext, sequential_step hseq hnext⟩
  exact hinv.1.committed

def deposit : BaseEvent where
  eventType := "deposit"
  eventId := "evt_abc123"
  retryCount := 2

def depositHandler (outcome : Execution) : EventHandler where
  handlerName := "DepositHandler"
  handleEvent := fun _ => outcome

def succeeds (o : ℕ) : Act Unit :=
  .finish () o (.ok (some (depositHandler (.returns { eventId := "evt_abc123" })))) (.ok ())

def fails (o : ℕ) : Act Unit :=
  .finish () o (.ok (some (depositHandler (.raises "insufficient funds")))) (.ok ())

def twoMessages (maxWorkers : ℤ) : Service Unit where
  maxWorkers := maxWorkers
  log := fun _ => [some (.ok deposit), some (.ok deposit)]

def bothInWork : List (Act Unit) := [.poll (), .spawn, .poll (), .spawn]

theorem no_message_lost_two : ∃ as s,
    Trace (consumer (twoMessages 2) fun _ => 0) (CommitsSettled (twoMessages 2)) as s ∧
      s.committed () = 2 ∧ AtLeastOnce (fun _ => 0) s := by
  have h : (replay (consumer (twoMessages 2) fun _ => 0) (CommitsSettled (twoMessages 2)) []
      (bothInWork ++ [fails 1, succeeds 0, .commit, .commit, .deliver () 1, .reply 1 true])
      { position := fun _ => 0, committed := fun _ => 0 }).map (fun s => s.committed ()) =
        some 2 := by
    decide
  obtain ⟨s, hrun, hcommitted⟩ := Option.map_eq_some_iff.mp h
  have ht := trace_of_replay rfl hrun
  exact ⟨_, s, ht, hcommitted, no_message_lost _ _ _ s ht⟩

/-- With two workers the second message is processed first, and its commit passes the first one.
With one worker the commit passes the message whose dead letter is queued, and a crash loses it. -/
theorem commit_passes_message_in_work :
    (¬ ∀ (v : Service Unit) (start : Unit → ℕ) (as : List (Act Unit)) (s : Consumption Unit),
      Trace (consumer v start) free as s → AtLeastOnce start s) ∧
    ∃ s, Trace (consumer (twoMessages 1) fun _ => 0) free
        [.poll (), .spawn, fails 0, .commit, .reply 0 true, .crash] s ∧
      ¬ AtLeastOnce (fun _ => 0) s := by
  constructor
  · intro hclaim
    have h : (replay (consumer (twoMessages 2) fun _ => 0) free []
        (bothInWork ++ [succeeds 1, .commit, .reply 0 true])
        { position := fun _ => 0, committed := fun _ => 0 }).map
          (fun s => (s.committed (), s.resolved)) = some (2, [((), 1)]) := by
      decide
    obtain ⟨s, hrun, hs⟩ := Option.map_eq_some_iff.mp h
    obtain ⟨hcommitted, hresolved⟩ := Prod.mk.inj hs
    have hpassed := hclaim _ _ _ s (trace_of_replay rfl hrun) () 0 (Nat.le_refl 0)
      (by rw [hcommitted]; decide)
    rw [hresolved] at hpassed
    exact absurd hpassed (by decide)
  · have h : (replay (consumer (twoMessages 1) fun _ => 0) free []
        [.poll (), .spawn, fails 0, .commit, .reply 0 true, .crash]
        { position := fun _ => 0, committed := fun _ => 0 }).map
          (fun s => (s.committed (), s.resolved)) = some (1, []) := by
      decide
    obtain ⟨s, hrun, hs⟩ := Option.map_eq_some_iff.mp h
    obtain ⟨hcommitted, hresolved⟩ := Prod.mk.inj hs
    refine ⟨s, trace_of_replay rfl hrun, fun hall => ?_⟩
    have hpassed := hall () 0 (Nat.le_refl 0) (by rw [hcommitted]; decide)
    rw [hresolved] at hpassed
    cases hpassed

end Taas.KafkaOffsets
