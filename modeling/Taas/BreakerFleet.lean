import Taas.CircuitBreaker
import Taas.Transition

/-!
Processes that share one breaker through a repository. `get` and `save` are atomic
steps of their own: `_before_call` reads the store, looks at the clock in a later step
and, when it leaves OPEN, saves in a third; each exit handler saves in a later step.
The process's lock is held in between, so a second handler of the same process waits
while other processes go on. Real time never goes back, and a process reads its own
clock. A process may stop for good, and a snapshot may expire when the repository has
a time to live.
-/
namespace Taas.BreakerFleet

open CircuitBreaker CircuitBreakerService Transition

/-- What the holder of `_lock` does next: look at the clock after the `get`, or end the
`save` that it awaits. -/
inductive CriticalSection
  | checking (id : ℕ)
  | admitting (id : ℕ)
  | exiting
  deriving DecidableEq

structure Process where
  service : CircuitBreakerService
  lock : Option CriticalSection := none
  running : List ℕ := []
  alive : Bool := true

/-- The last saved snapshot, with the real time of its `save` and, as a ghost, how often
a HALF_OPEN breaker had been closed by then. -/
structure Saved where
  snapshot : CircuitBreakerSnapshot
  savedAt : ℚ
  closings : ℕ

structure Repository where
  saved : Option Saved := none
  expired : Bool := false

namespace Repository

def get (r : Repository) : Option CircuitBreakerSnapshot :=
  if r.expired then none else r.saved.map Saved.snapshot

def save (snapshot : CircuitBreakerSnapshot) (now : ℚ) (closings : ℕ) : Repository where
  saved := some { snapshot := snapshot, savedAt := now, closings := closings }

end Repository

structure FleetConfig where
  breaker : CircuitBreakerConfig
  /-- The reading of a process's clock at a real time. -/
  readClock : ℕ → ℚ → ℚ := fun _ now => now
  ttlSeconds : Option ℚ := none

structure Fleet where
  clock : ℚ
  repository : Repository := {}
  proc : ℕ → Process
  /-- Ghost: successes that moved a process's breaker from HALF_OPEN to CLOSED. -/
  closings : ℕ := 0

inductive Act
  | enter (now : ℚ) (p id : ℕ)
  | check (now : ℚ) (p : ℕ)
  | persist (now : ℚ) (p : ℕ)
  | succeed (now : ℚ) (p id : ℕ)
  | fail (now : ℚ) (p id : ℕ)
  | stop (now : ℚ) (p : ℕ)
  | expire (now : ℚ)
  deriving DecidableEq

def Act.now : Act → ℚ
  | .enter now _ _ | .check now _ | .persist now _ | .succeed now _ _ | .fail now _ _
  | .stop now _ | .expire now => now

/-- The process that takes the step. -/
def Act.process : Act → Option ℕ
  | .enter _ p _ | .check _ p | .persist _ p | .succeed _ p _ | .fail _ p _ | .stop _ p => some p
  | .expire _ => none

namespace Process

/-- `_before_call` up to the return of `get`. -/
def refresh (stored : Option CircuitBreakerSnapshot) (id : ℕ) (P : Process) : Process :=
  { P with service := P.service.refresh stored, lock := some (.checking id) }

/-- Run `takeSlot` and start the handler when it does not raise. -/
def startIfAdmitted (cfg : CircuitBreakerConfig) (id : ℕ) (P : Process) : Process :=
  match P.service.takeSlot cfg with
  | (b, .ok _) => { P with service := b, lock := none, running := id :: P.running }
  | (b, .error _) => { P with service := b, lock := none }

/-- `_before_call` after `get`, up to the `save` when it leaves OPEN and to its end otherwise. -/
def check (cfg : CircuitBreakerConfig) (reading : ℚ) (id : ℕ) (P : Process) : Process :=
  match P.service.checkOpen cfg reading with
  | .error _ => { P with lock := none }
  | .ok (b, true) => { P with service := b, lock := some (.admitting id) }
  | .ok (b, false) => startIfAdmitted cfg id { P with service := b }

/-- The rest of the critical section once `save` returned. -/
def resume (cfg : CircuitBreakerConfig) (P : Process) : Option Process :=
  match P.lock with
  | some (.admitting id) => some (startIfAdmitted cfg id P)
  | some .exiting => some { P with lock := none }
  | _ => none

def succeed (cfg : CircuitBreakerConfig) (id : ℕ) (P : Process) : Process :=
  { P with
    service := P.service.onSuccess cfg
    lock := some .exiting
    running := P.running.erase id }

def fail (cfg : CircuitBreakerConfig) (reading : ℚ) (id : ℕ) (P : Process) : Process :=
  { P with
    service := P.service.onFailure cfg reading
    lock := some .exiting
    running := P.running.erase id }

def stop (P : Process) : Process := { P with running := [], alive := false }

end Process

def Fleet.set (f : Fleet) (now : ℚ) (p : ℕ) (P : Process) : Fleet :=
  { f with clock := now, proc := Function.update f.proc p P }

/-- The success of a call in `P` closes a HALF_OPEN breaker. -/
def closes (cfg : CircuitBreakerConfig) (P : Process) : Bool :=
  P.service.snapshot.state = .halfOpen ∧ (P.service.onSuccess cfg).snapshot.state = .closed

def next (cfg : FleetConfig) (f : Fleet) : Act → Option Fleet
  | .enter now p id =>
    let P := f.proc p
    if f.clock ≤ now ∧ P.alive ∧ P.lock = none ∧ id ∉ P.running then
      some (f.set now p (P.refresh f.repository.get id))
    else none
  | .check now p =>
    let P := f.proc p
    match P.lock with
    | some (.checking id) =>
      if f.clock ≤ now ∧ P.alive then
        some (f.set now p (P.check cfg.breaker (cfg.readClock p now) id))
      else none
    | _ => none
  | .persist now p =>
    let P := f.proc p
    if f.clock ≤ now ∧ P.alive then
      (P.resume cfg.breaker).map fun Q => { f.set now p Q with
        repository := Repository.save P.service.snapshot now f.closings }
    else none
  | .succeed now p id =>
    let P := f.proc p
    if f.clock ≤ now ∧ P.alive ∧ P.lock = none ∧ id ∈ P.running then
      some { f.set now p (P.succeed cfg.breaker id) with
        closings := if closes cfg.breaker P then f.closings + 1 else f.closings }
    else none
  | .fail now p id =>
    let P := f.proc p
    if f.clock ≤ now ∧ P.alive ∧ P.lock = none ∧ id ∈ P.running then
      some (f.set now p (P.fail cfg.breaker (cfg.readClock p now) id))
    else none
  | .stop now p =>
    if f.clock ≤ now then some (f.set now p (f.proc p).stop) else none
  | .expire now =>
    match f.repository.saved, cfg.ttlSeconds with
    | some sv, some ttl =>
      if f.clock ≤ now ∧ sv.savedAt + ttl ≤ now then
        some { f with clock := now, repository := { f.repository with expired := true } }
      else none
    | _, _ => none

/-- All interleavings of the calls of processes that start with fresh services. -/
def fleet (cfg : FleetConfig) (name : String) : System Fleet Act where
  init f := f.repository = {} ∧ f.closings = 0 ∧
    ∀ p, f.proc p = { service := CircuitBreakerService.init name }
  next := next cfg

/-- The fleet before any call. -/
def Fleet.init (name : String) : Fleet where
  clock := 0
  proc := fun _ => { service := CircuitBreakerService.init name }

theorem init_fleet (cfg : FleetConfig) (name : String) :
    (fleet cfg name).init (Fleet.init name) :=
  ⟨rfl, rfl, fun _ => rfl⟩

variable {cfg : FleetConfig} {f g : Fleet} {a : Act} {now : ℚ} {p id : ℕ} {P Q : Process}

/-- The seven kinds of step, each with what it requires and its effect. -/
theorem next_cases (h : next cfg f a = some g) :
    (∃ now p id, a = .enter now p id ∧ f.clock ≤ now ∧ (f.proc p).alive ∧
      (f.proc p).lock = none ∧ id ∉ (f.proc p).running ∧
      g = f.set now p ((f.proc p).refresh f.repository.get id)) ∨
    (∃ now p id, a = .check now p ∧ f.clock ≤ now ∧ (f.proc p).alive ∧
      (f.proc p).lock = some (.checking id) ∧
      g = f.set now p ((f.proc p).check cfg.breaker (cfg.readClock p now) id)) ∨
    (∃ now p Q, a = .persist now p ∧ f.clock ≤ now ∧ (f.proc p).alive ∧
      (f.proc p).resume cfg.breaker = some Q ∧
      g = { f.set now p Q with
        repository := Repository.save (f.proc p).service.snapshot now f.closings }) ∨
    (∃ now p id, a = .succeed now p id ∧ f.clock ≤ now ∧ (f.proc p).alive ∧
      (f.proc p).lock = none ∧ id ∈ (f.proc p).running ∧
      g = { f.set now p ((f.proc p).succeed cfg.breaker id) with
        closings := if closes cfg.breaker (f.proc p) then f.closings + 1 else f.closings }) ∨
    (∃ now p id, a = .fail now p id ∧ f.clock ≤ now ∧ (f.proc p).alive ∧
      (f.proc p).lock = none ∧ id ∈ (f.proc p).running ∧
      g = f.set now p ((f.proc p).fail cfg.breaker (cfg.readClock p now) id)) ∨
    (∃ now p, a = .stop now p ∧ f.clock ≤ now ∧ g = f.set now p (f.proc p).stop) ∨
    (∃ now sv ttl, a = .expire now ∧ f.clock ≤ now ∧ f.repository.saved = some sv ∧
      cfg.ttlSeconds = some ttl ∧ sv.savedAt + ttl ≤ now ∧
      g = { f with clock := now, repository := { f.repository with expired := true } }) := by
  cases a with
  | enter now p id =>
    simp only [next, Option.ite_none_right_eq_some, Option.some.injEq] at h
    obtain ⟨⟨h1, h2, h3, h4⟩, rfl⟩ := h
    exact Or.inl ⟨now, p, id, rfl, h1, h2, h3, h4, rfl⟩
  | check now p =>
    simp only [next] at h
    split at h
    · rename_i id hl
      simp only [Option.ite_none_right_eq_some, Option.some.injEq] at h
      obtain ⟨⟨h1, h2⟩, rfl⟩ := h
      exact Or.inr (Or.inl ⟨now, p, id, rfl, h1, h2, hl, rfl⟩)
    · cases h
  | persist now p =>
    simp only [next, Option.ite_none_right_eq_some, Option.map_eq_some_iff] at h
    obtain ⟨⟨h1, h2⟩, Q, h3, rfl⟩ := h
    exact Or.inr (Or.inr (Or.inl ⟨now, p, Q, rfl, h1, h2, h3, rfl⟩))
  | succeed now p id =>
    simp only [next, Option.ite_none_right_eq_some, Option.some.injEq] at h
    obtain ⟨⟨h1, h2, h3, h4⟩, rfl⟩ := h
    exact Or.inr (Or.inr (Or.inr (Or.inl ⟨now, p, id, rfl, h1, h2, h3, h4, rfl⟩)))
  | fail now p id =>
    simp only [next, Option.ite_none_right_eq_some, Option.some.injEq] at h
    obtain ⟨⟨h1, h2, h3, h4⟩, rfl⟩ := h
    exact Or.inr (Or.inr (Or.inr (Or.inr (Or.inl ⟨now, p, id, rfl, h1, h2, h3, h4, rfl⟩))))
  | stop now p =>
    simp only [next, Option.ite_none_right_eq_some, Option.some.injEq] at h
    obtain ⟨h1, rfl⟩ := h
    exact Or.inr (Or.inr (Or.inr (Or.inr (Or.inr (Or.inl ⟨now, p, rfl, h1, rfl⟩)))))
  | expire now =>
    refine Or.inr (Or.inr (Or.inr (Or.inr (Or.inr (Or.inr ?_)))))
    cases hs : f.repository.saved with
    | none => simp [next, hs] at h
    | some sv =>
      cases ht : cfg.ttlSeconds with
      | none => simp [next, hs, ht] at h
      | some ttl =>
        simp only [next, hs, ht, Option.ite_none_right_eq_some, Option.some.injEq] at h
        obtain ⟨⟨h1, h2⟩, rfl⟩ := h
        exact ⟨now, sv, ttl, rfl, h1, rfl, rfl, h2, by simp [hs]⟩

@[simp] theorem set_proc_self (f : Fleet) (now : ℚ) (p : ℕ) (P : Process) :
    (f.set now p P).proc p = P := by
  simp [Fleet.set]

theorem set_proc_of_ne (f : Fleet) (now : ℚ) {p q : ℕ} (P : Process) (h : q ≠ p) :
    (f.set now p P).proc q = f.proc q := by
  simp [Fleet.set, h]

theorem clock_le_now (h : next cfg f a = some g) : f.clock ≤ a.now ∧ g.clock = a.now := by
  rcases next_cases h with ⟨now, p, id, rfl, hc, _, _, _, rfl⟩ | ⟨now, p, id, rfl, hc, _, _, rfl⟩ |
      ⟨now, p, Q, rfl, hc, _, _, rfl⟩ | ⟨now, p, id, rfl, hc, _, _, _, rfl⟩ |
      ⟨now, p, id, rfl, hc, _, _, _, rfl⟩ | ⟨now, p, rfl, hc, rfl⟩ |
      ⟨now, sv, ttl, rfl, hc, _, _, _, rfl⟩ <;>
    exact ⟨hc, rfl⟩

theorem proc_of_ne (h : next cfg f a = some g) (hp : a.process ≠ some p) :
    g.proc p = f.proc p := by
  rcases next_cases h with ⟨now, q, id, rfl, _, _, _, _, rfl⟩ | ⟨now, q, id, rfl, _, _, _, rfl⟩ |
      ⟨now, q, Q, rfl, _, _, _, rfl⟩ | ⟨now, q, id, rfl, _, _, _, _, rfl⟩ |
      ⟨now, q, id, rfl, _, _, _, _, rfl⟩ | ⟨now, q, rfl, _, rfl⟩ |
      ⟨now, sv, ttl, rfl, _, _, _, _, rfl⟩
  case inr.inr.inr.inr.inr.inr => rfl
  all_goals exact Function.update_of_ne (fun hq => hp (by simp [Act.process, hq])) _ _

theorem own_step_cases (h : next cfg f a = some g) (hp : a.process = some p) :
    (∃ now id, a = .enter now p id ∧ (f.proc p).lock = none ∧
      g.proc p = (f.proc p).refresh f.repository.get id) ∨
    (∃ now id, a = .check now p ∧ (f.proc p).lock = some (.checking id) ∧
      g.proc p = (f.proc p).check cfg.breaker (cfg.readClock p now) id) ∨
    (∃ now, a = .persist now p ∧ (f.proc p).resume cfg.breaker = some (g.proc p)) ∨
    (∃ now id, a = .succeed now p id ∧ g.proc p = (f.proc p).succeed cfg.breaker id) ∨
    (∃ now id, a = .fail now p id ∧
      g.proc p = (f.proc p).fail cfg.breaker (cfg.readClock p now) id) ∨
    (∃ now, a = .stop now p ∧ g.proc p = (f.proc p).stop) := by
  rcases next_cases h with ⟨now, q, id, rfl, _, _, hl, _, rfl⟩ | ⟨now, q, id, rfl, _, _, hl, rfl⟩ |
      ⟨now, q, Q, rfl, _, _, hr, rfl⟩ | ⟨now, q, id, rfl, _, _, _, _, rfl⟩ |
      ⟨now, q, id, rfl, _, _, _, _, rfl⟩ | ⟨now, q, rfl, _, rfl⟩ |
      ⟨now, sv, ttl, rfl, _, _, _, _, rfl⟩
  case inr.inr.inr.inr.inr.inr => simp [Act.process] at hp
  all_goals obtain rfl : q = p := by simpa [Act.process] using hp
  · exact Or.inl ⟨now, id, rfl, hl, set_proc_self f now q _⟩
  · exact Or.inr (Or.inl ⟨now, id, rfl, hl, set_proc_self f now q _⟩)
  · have hself := set_proc_self f now q Q
    exact Or.inr (Or.inr (Or.inl ⟨now, rfl, hr.trans (congrArg some hself.symm)⟩))
  · exact Or.inr (Or.inr (Or.inr (Or.inl ⟨now, id, rfl, set_proc_self f now q _⟩)))
  · exact Or.inr (Or.inr (Or.inr (Or.inr (Or.inl ⟨now, id, rfl, set_proc_self f now q _⟩))))
  · exact Or.inr (Or.inr (Or.inr (Or.inr (Or.inr ⟨now, rfl, set_proc_self f now q _⟩))))

theorem proc_of_path {name : String} {ok : Condition Fleet Act} {past as : List Act}
    (h : Path (fleet cfg name) ok past f as g) (hp : ∀ a ∈ as, a.process ≠ some p) :
    g.proc p = f.proc p := by
  induction h with
  | nil => rfl
  | snoc _ _ hstep ih =>
    rw [proc_of_ne hstep (hp _ (by simp)), ih fun a ha => hp a (by simp [ha])]

/-- `startIfAdmitted` releases the lock; it starts the handler outside HALF_OPEN or in a
free probe slot, and otherwise changes nothing else. -/
theorem startIfAdmitted_cases (cfg : CircuitBreakerConfig) (id : ℕ) (P : Process) :
    (P.startIfAdmitted cfg id = { P with lock := none, running := id :: P.running } ∧
      P.service.snapshot.state ≠ .halfOpen) ∨
    (P.startIfAdmitted cfg id = { P with
      service := { P.service with halfOpenInFlight := P.service.halfOpenInFlight + 1 }
      lock := none
      running := id :: P.running } ∧ P.service.snapshot.state = .halfOpen ∧
      P.service.halfOpenInFlight < cfg.halfOpenMaxCalls) ∨
    (P.startIfAdmitted cfg id = { P with lock := none } ∧
      P.service.snapshot.state = .halfOpen ∧
      cfg.halfOpenMaxCalls ≤ P.service.halfOpenInFlight) := by
  rcases takeSlot_cases cfg P.service with ⟨ha, hs⟩ | ⟨ha, hs, hlt⟩ | ⟨ha, hs, hle⟩
  · exact Or.inl ⟨by simp [Process.startIfAdmitted, ha], hs⟩
  · exact Or.inr (Or.inl ⟨by simp [Process.startIfAdmitted, ha], hs, hlt⟩)
  · exact Or.inr (Or.inr ⟨by simp [Process.startIfAdmitted, ha], hs, hle⟩)

/-- The clock check rejects a call that met OPEN within the window, goes on to `takeSlot`
outside OPEN, or begins a HALF_OPEN period that is still to be saved. -/
theorem check_cases (cfg : CircuitBreakerConfig) (reading : ℚ) (id : ℕ) (P : Process) :
    (P.check cfg reading id = { P with lock := none } ∧ P.service.snapshot.state = .opened ∧
      ∀ o, P.service.snapshot.openedAt = some o → reading - o < cfg.recoveryTimeoutSeconds) ∨
    (P.check cfg reading id = P.startIfAdmitted cfg id ∧ P.service.snapshot.state ≠ .opened) ∨
    (∃ o, P.service.snapshot.state = .opened ∧ P.service.snapshot.openedAt = some o ∧
      cfg.recoveryTimeoutSeconds ≤ reading - o ∧
      P.check cfg reading id = { P with
        service := { P.service with
          snapshot := { name := P.service.name, state := .halfOpen, openedAt := some o }
          halfOpenInFlight := 0 }
        lock := some (.admitting id) }) := by
  rcases checkOpen_cases cfg reading P.service with ⟨e, he, hs, ht⟩ | ⟨he, hs⟩ | ⟨o, hs, ho, hw, he⟩
  · exact Or.inl ⟨by simp [Process.check, he], hs, fun o ho => (ht o ho).2⟩
  · exact Or.inr (Or.inl ⟨by simp [Process.check, he], hs⟩)
  · exact Or.inr (Or.inr ⟨o, hs, ho, hw, by simp [Process.check, he]⟩)

theorem resume_cases {cfg : CircuitBreakerConfig} (h : P.resume cfg = some Q) :
    (∃ id, P.lock = some (.admitting id) ∧ Q = P.startIfAdmitted cfg id) ∨
    (P.lock = some .exiting ∧ Q = { P with lock := none }) := by
  unfold Process.resume at h
  split at h
  · rename_i id hl
    exact Or.inl ⟨id, hl, (Option.some.inj h).symm⟩
  · rename_i hl
    exact Or.inr ⟨hl, (Option.some.inj h).symm⟩
  · cases h

end Taas.BreakerFleet
