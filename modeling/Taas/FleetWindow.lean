import Taas.BreakerFleet

/-!
The recovery window across processes. A stored OPEN snapshot shuts every process that
reads it, for as long as it stays in the store. It can leave the store too early: a
process that cached an older snapshot saves it again at the end of a call, or a
process whose clock runs ahead begins a HALF_OPEN period. In the runs where no save
and no expiry removes an OPEN snapshot within its window, no call that enters after
the save starts a handler within it.
-/
namespace Taas.FleetWindow

open CircuitBreaker CircuitBreakerService Transition BreakerFleet

/-- The step `a` from `f` saves an OPEN snapshot. -/
def SavesOpen (f : Fleet) (a : Act) : Prop :=
  ∃ now p, a = .persist now p ∧ (f.proc p).service.snapshot.state = .opened

/-- The step from `f` to `g` starts the handler of the call `id` of process `p`. -/
def Starts (f g : Fleet) (p id : ℕ) : Prop :=
  id ∉ (f.proc p).running ∧ id ∈ (g.proc p).running

/-- What a save of OPEN that led to `f` promises: a call whose `_before_call` begins
after it starts its handler only when the window has passed, or after a HALF_OPEN
breaker has been closed. -/
def ShutFleetwide (cfg : FleetConfig) (name : String) (ok : Condition Fleet Act)
    (past : List Act) (f : Fleet) : Prop :=
  ∀ bs g b h p id, Path (fleet cfg name) ok past f bs g → ok (past ++ bs) g b →
    next cfg g b = some h → (∃ now, Act.enter now p id ∈ bs) → Starts g h p id →
    f.clock + cfg.breaker.recoveryTimeoutSeconds ≤ b.now ∨ f.closings < g.closings

/-- A stored OPEN snapshot is older than the recovery window, or a HALF_OPEN breaker has
been closed since. -/
def OpenWindowOver (cfg : FleetConfig) (f : Fleet) (now : ℚ) : Prop :=
  ∀ sv ∈ f.repository.saved, f.repository.expired = false → sv.snapshot.state = .opened →
    sv.savedAt + cfg.breaker.recoveryTimeoutSeconds ≤ now ∨ sv.closings < f.closings

/-- An OPEN snapshot is replaced by another state, or expires, only after its window. -/
def WindowRespected (cfg : FleetConfig) : Condition Fleet Act := fun _ f a =>
  match a with
  | .persist now p => (f.proc p).service.snapshot.state ≠ .opened → OpenWindowOver cfg f now
  | .expire now => OpenWindowOver cfg f now
  | _ => True

instance (cfg : FleetConfig) (f : Fleet) (now : ℚ) : Decidable (OpenWindowOver cfg f now) := by
  unfold OpenWindowOver
  infer_instance

instance (cfg : FleetConfig) (as : List Act) (f : Fleet) (a : Act) :
    Decidable (WindowRespected cfg as f a) :=
  match a with
  | .enter _ _ _ | .check _ _ | .persist _ _ | .succeed _ _ _ | .fail _ _ _ | .stop _ _
  | .expire _ => by unfold WindowRespected; infer_instance

variable {cfg : FleetConfig} {name : String} {ok : Condition Fleet Act} {f g h : Fleet}
variable {as bs past : List Act} {a b : Act} {now t : ℚ} {n p id j : ℕ} {P Q : Process}

theorem mem_running_startIfAdmitted {cfg : CircuitBreakerConfig}
    (hj : j ∈ (P.startIfAdmitted cfg id).running) : j ∈ P.running ∨ j = id := by
  rcases startIfAdmitted_cases cfg id P with ⟨he, _⟩ | ⟨he, _, _⟩ | ⟨he, _, _⟩ <;> rw [he] at hj
  · exact (List.mem_cons.mp hj).symm
  · exact (List.mem_cons.mp hj).symm
  · exact Or.inl hj

theorem startIfAdmitted_lock (cfg : CircuitBreakerConfig) (id : ℕ) (P : Process) :
    (P.startIfAdmitted cfg id).lock = none := by
  rcases startIfAdmitted_cases cfg id P with ⟨he, _⟩ | ⟨he, _, _⟩ | ⟨he, _, _⟩ <;> rw [he]

theorem resume_lock {cfg : CircuitBreakerConfig} (hr : P.resume cfg = some Q) :
    Q.lock = none := by
  rcases resume_cases hr with ⟨id, _, rfl⟩ | ⟨_, rfl⟩
  · exact startIfAdmitted_lock cfg id P
  · rfl

theorem check_lock (cfg : CircuitBreakerConfig) (reading : ℚ) (id : ℕ) (P : Process) :
    (P.check cfg reading id).lock = none ∨
    ((P.check cfg reading id).lock = some (.admitting id) ∧
      (P.check cfg reading id).service.snapshot.state = .halfOpen) := by
  rcases check_cases cfg reading id P with ⟨he, _⟩ | ⟨he, _⟩ | ⟨o, _, _, _, he⟩
  · exact Or.inl (by rw [he])
  · exact Or.inl (by rw [he, startIfAdmitted_lock])
  · exact Or.inr (by rw [he]; exact ⟨rfl, rfl⟩)

theorem starts_cases (hstep : next cfg f a = some g) (hs : Starts f g p id) :
    (∃ now, a = .check now p ∧ (f.proc p).lock = some (.checking id) ∧
      (f.proc p).service.snapshot.state ≠ .opened) ∨
    (∃ now, a = .persist now p ∧ (f.proc p).lock = some (.admitting id)) := by
  obtain ⟨hbefore, hafter⟩ := hs
  by_cases hp : a.process = some p
  · rcases own_step_cases hstep hp with ⟨now, j, rfl, _, he⟩ | ⟨now, j, rfl, hl, he⟩ |
        ⟨now, rfl, hr⟩ | ⟨now, j, rfl, he⟩ | ⟨now, j, rfl, he⟩ | ⟨now, rfl, he⟩
    · rw [he] at hafter
      exact absurd hafter hbefore
    · rw [he] at hafter
      rcases check_cases cfg.breaker (cfg.readClock p now) j (f.proc p) with
        ⟨he, _⟩ | ⟨he, hs⟩ | ⟨o, _, _, _, he⟩ <;> rw [he] at hafter
      · exact absurd hafter hbefore
      · rcases mem_running_startIfAdmitted hafter with hin | rfl
        · exact absurd hin hbefore
        · exact Or.inl ⟨now, rfl, hl, hs⟩
      · exact absurd hafter hbefore
    · rcases resume_cases hr with ⟨j, hl, he⟩ | ⟨_, he⟩ <;> rw [he] at hafter
      · rcases mem_running_startIfAdmitted hafter with hin | rfl
        · exact absurd hin hbefore
        · exact Or.inr ⟨now, rfl, hl⟩
      · exact absurd hafter hbefore
    · rw [he] at hafter
      exact absurd (List.mem_of_mem_erase hafter) hbefore
    · rw [he] at hafter
      exact absurd (List.mem_of_mem_erase hafter) hbefore
    · simp [he, Process.stop] at hafter
  · rw [proc_of_ne hstep hp] at hafter
    exact absurd hafter hbefore

theorem checking_cases (hstep : next cfg f a = some g)
    (hl : (g.proc p).lock = some (.checking id)) :
    (∃ now, a = .enter now p id ∧ g.proc p = (f.proc p).refresh f.repository.get id) ∨
    ((∀ now j, a ≠ .enter now p j) ∧ (f.proc p).lock = some (.checking id) ∧
      (g.proc p).service = (f.proc p).service) := by
  by_cases hp : a.process = some p
  · rcases own_step_cases hstep hp with ⟨now, j, rfl, _, he⟩ | ⟨now, j, rfl, _, he⟩ |
        ⟨now, rfl, hr⟩ | ⟨now, j, rfl, he⟩ | ⟨now, j, rfl, he⟩ | ⟨now, rfl, he⟩
    · obtain rfl : j = id := by simpa [he, Process.refresh] using hl
      exact Or.inl ⟨now, rfl, he⟩
    · rcases check_lock cfg.breaker (cfg.readClock p now) j (f.proc p) with hn | ⟨hn, _⟩ <;>
        simp [he, hn] at hl
    · simp [resume_lock hr] at hl
    · simp [he, Process.succeed] at hl
    · simp [he, Process.fail] at hl
    · rw [he] at hl ⊢
      exact Or.inr ⟨fun _ _ h => by simp at h, hl, rfl⟩
  · have hsame := proc_of_ne hstep hp
    rw [hsame] at hl ⊢
    refine Or.inr ⟨?_, hl, rfl⟩
    rintro now j rfl
    exact hp rfl

theorem admitting_halfOpen (h : Trace (fleet cfg name) ok as f) :
    ∀ p id, (f.proc p).lock = some (.admitting id) →
      (f.proc p).service.snapshot.state = .halfOpen := by
  refine Trace.invariant (M := fleet cfg name) (P := fun f => ∀ p id,
    (f.proc p).lock = some (.admitting id) → (f.proc p).service.snapshot.state = .halfOpen)
    ?_ ?_ h
  · rintro f ⟨_, _, hinit⟩ p id hl
    simp [hinit p] at hl
  · intro f a g hi hstep p id hl
    by_cases hp : a.process = some p
    · rcases own_step_cases hstep hp with ⟨now, j, rfl, _, he⟩ | ⟨now, j, rfl, _, he⟩ |
          ⟨now, rfl, hr⟩ | ⟨now, j, rfl, he⟩ | ⟨now, j, rfl, he⟩ | ⟨now, rfl, he⟩
      · simp [he, Process.refresh] at hl
      · rw [he] at hl ⊢
        rcases check_lock cfg.breaker (cfg.readClock p now) j (f.proc p) with hn | ⟨_, hs⟩
        · simp [hn] at hl
        · exact hs
      · simp [resume_lock hr] at hl
      · simp [he, Process.succeed] at hl
      · simp [he, Process.fail] at hl
      · rw [he] at hl ⊢
        exact hi p id hl
    · rw [proc_of_ne hstep hp] at hl ⊢
      exact hi p id hl

theorem closings_mono (hstep : next cfg f a = some g) : f.closings ≤ g.closings := by
  rcases next_cases hstep with ⟨now, q, j, rfl, _, _, _, _, rfl⟩ | ⟨now, q, j, rfl, _, _, _, rfl⟩ |
      ⟨now, q, Q, rfl, _, _, _, rfl⟩ | ⟨now, q, j, rfl, _, _, _, _, rfl⟩ |
      ⟨now, q, j, rfl, _, _, _, _, rfl⟩ | ⟨now, q, rfl, _, rfl⟩ |
      ⟨now, sv, ttl, rfl, _, _, _, _, rfl⟩
  case inr.inr.inr.inl =>
    show f.closings ≤ if closes cfg.breaker (f.proc q) then f.closings + 1 else f.closings
    split <;> simp
  all_goals exact le_refl f.closings

/-- OPEN has been stored since `t`, and so every call that entered since has met it. -/
structure Shut (t : ℚ) (n : ℕ) (bs : List Act) (f : Fleet) : Prop where
  stored : ∃ sv, f.repository.saved = some sv ∧ f.repository.expired = false ∧
    sv.snapshot.state = .opened ∧ t ≤ sv.savedAt ∧ n ≤ sv.closings
  checking : ∀ p id, (∃ now, Act.enter now p id ∈ bs) →
    (f.proc p).lock = some (.checking id) → (f.proc p).service.snapshot.state = .opened

/-- The window that began at `t` has passed, or a HALF_OPEN breaker has been closed. -/
def Over (cfg : FleetConfig) (t : ℚ) (n : ℕ) (f : Fleet) : Prop :=
  t + cfg.breaker.recoveryTimeoutSeconds ≤ f.clock ∨ n < f.closings

theorem over_of_openWindowOver (hs : Shut t n bs f) (hw : OpenWindowOver cfg f now)
    (hclock : g.clock = now) (hclosings : f.closings ≤ g.closings) : Over cfg t n g := by
  obtain ⟨sv, hsaved, hfresh, hopen, ht, hn⟩ := hs.stored
  rcases hw sv hsaved hfresh hopen with hle | hlt
  · left
    rw [hclock]
    linarith
  · right
    omega

/-- A call that enters while OPEN is stored meets it, and those before it keep what they met. -/
theorem shut_checking (hs : Shut t n bs f) (hstep : next cfg f a = some g) :
    ∀ p id, (∃ now, Act.enter now p id ∈ bs ++ [a]) →
      (g.proc p).lock = some (.checking id) → (g.proc p).service.snapshot.state = .opened := by
  rintro p id ⟨now, hmem⟩ hl
  rcases checking_cases hstep hl with ⟨_, _, he⟩ | ⟨hne, hl, he⟩
  · obtain ⟨sv, hsaved, hfresh, hopen, _, _⟩ := hs.stored
    simp [he, Process.refresh, CircuitBreakerService.refresh, Repository.get, hsaved, hfresh, hopen]
  · have hbs : Act.enter now p id ∈ bs := by
      rcases List.mem_append.mp hmem with hmem | hmem
      · exact hmem
      · exact absurd (List.mem_singleton.mp hmem).symm (hne now id)
    rw [he]
    exact hs.checking p id ⟨now, hbs⟩ hl

theorem shut_step (ht : t ≤ f.clock) (hn : n ≤ f.closings) (hs : Shut t n bs f)
    (hok : WindowRespected cfg past f a) (hstep : next cfg f a = some g) :
    Over cfg t n g ∨ Shut t n (bs ++ [a]) g := by
  have hchecking := shut_checking hs hstep
  rcases next_cases hstep with ⟨now, q, j, rfl, _, _, _, _, rfl⟩ | ⟨now, q, j, rfl, _, _, _, rfl⟩ |
      ⟨now, q, Q, rfl, hc, _, _, rfl⟩ | ⟨now, q, j, rfl, _, _, _, _, rfl⟩ |
      ⟨now, q, j, rfl, _, _, _, _, rfl⟩ | ⟨now, q, rfl, _, rfl⟩ |
      ⟨now, sv, ttl, rfl, _, _, _, _, rfl⟩
  case inr.inr.inl =>
    by_cases hstate : (f.proc q).service.snapshot.state = .opened
    · exact Or.inr ⟨⟨_, rfl, rfl, hstate, le_trans ht hc, hn⟩, hchecking⟩
    · exact Or.inl (over_of_openWindowOver hs (hok hstate) rfl (le_refl _))
  case inr.inr.inr.inr.inr.inr => exact Or.inl (over_of_openWindowOver hs hok rfl (le_refl _))
  -- the other steps leave the store alone
  all_goals exact Or.inr ⟨hs.stored, hchecking⟩

/-- Along the runs after a save of OPEN the store stays shut until the window is over. -/
theorem shut_path (hsave : Shut f.clock f.closings [] f)
    (hp : Path (fleet cfg name) (WindowRespected cfg) past f bs g) :
    f.clock ≤ g.clock ∧ f.closings ≤ g.closings ∧
      (Over cfg f.clock f.closings g ∨ Shut f.clock f.closings bs g) := by
  induction hp with
  | nil => exact ⟨le_refl _, le_refl _, Or.inr hsave⟩
  | @snoc g h bs b _ hok hstep ih =>
    obtain ⟨hclock, hclosings, hor⟩ := ih
    have hmono := closings_mono hstep
    obtain ⟨hle, hnow⟩ := clock_le_now hstep
    have hnext : g.clock ≤ h.clock := hle.trans hnow.ge
    refine ⟨hclock.trans hnext, hclosings.trans hmono, ?_⟩
    rcases hor with (hover | hover) | hshut
    · exact Or.inl (Or.inl (hover.trans hnext))
    · exact Or.inl (Or.inr (lt_of_lt_of_le hover hmono))
    · exact shut_step hclock hclosings hshut hok hstep

/-- When no OPEN snapshot leaves the store within its window, every save of OPEN shuts
the whole fleet for the recovery window. -/
theorem open_shuts_fleet (hrun : Trace (fleet cfg name) (WindowRespected cfg) as f)
    (hstep : next cfg f a = some g) (hsave : SavesOpen f a) :
    ShutFleetwide cfg name (WindowRespected cfg) (as ++ [a]) g := by
  obtain ⟨now, q, rfl, hopen⟩ := hsave
  have hrun' : Trace (fleet cfg name) (WindowRespected cfg) (as ++ [.persist now q]) g :=
    hrun.snoc (fun hn => absurd hopen hn) hstep
  have hshut : Shut g.clock g.closings [] g := by
    rcases next_cases hstep with ⟨_, _, _, hact, _⟩ | ⟨_, _, _, hact, _⟩ |
        ⟨now', q', Q, hact, _, _, hr, rfl⟩ | ⟨_, _, _, hact, _⟩ | ⟨_, _, _, hact, _⟩ |
        ⟨_, _, hact, _⟩ | ⟨_, _, _, hact, _⟩
    case inr.inr.inl =>
      obtain ⟨rfl, rfl⟩ : now = now' ∧ q = q' := by simpa using hact
      refine ⟨⟨_, rfl, rfl, hopen, le_refl _, le_refl _⟩, fun p id hent => ?_⟩
      simp at hent
    all_goals simp at hact
  intro bs f b h p id hp hok hnext hent hstart
  obtain ⟨_, _, hor⟩ := shut_path hshut hp
  obtain ⟨hle, _⟩ := clock_le_now hnext
  rcases hor with (hover | hover) | hshut
  · exact Or.inl (hover.trans hle)
  · exact Or.inr hover
  · rcases starts_cases hnext hstart with ⟨_, rfl, hl, hn⟩ | ⟨now', rfl, hl⟩
    · exact absurd (hshut.checking p id hent hl) hn
    · -- the handler starts after a save of HALF_OPEN over the stored OPEN
      have hhalf := admitting_halfOpen (hrun'.extend hp) p id hl
      obtain ⟨sv, hsaved, hfresh, hso, ht, hn⟩ := hshut.stored
      rcases hok (by simp [hhalf]) sv hsaved hfresh hso with hwin | hclosed
      · exact Or.inl (le_trans (by linarith) hwin)
      · exact Or.inr (lt_of_le_of_lt hn hclosed)

def oneFailure : FleetConfig where
  breaker := { failureThreshold := 1 }

theorem open_shuts_fleet_tripped :
    ∃ f g, Trace (fleet oneFailure "db") (WindowRespected oneFailure)
        [.enter 0 0 0, .check 0 0, .fail 1 0 0] f ∧
      next oneFailure f (.persist 1 0) = some g ∧
      ShutFleetwide oneFailure "db" (WindowRespected oneFailure)
        ([.enter 0 0 0, .check 0 0, .fail 1 0 0] ++ [.persist 1 0]) g := by
  have h : ((replay (fleet oneFailure "db") (WindowRespected oneFailure) []
      [.enter 0 0 0, .check 0 0, .fail 1 0 0] (Fleet.init "db")).bind fun f =>
        (next oneFailure f (.persist 1 0)).map fun _ => (f.proc 0).service.snapshot.state) =
      some .opened := by decide +kernel
  obtain ⟨f, hrun, h⟩ := Option.bind_eq_some_iff.mp h
  obtain ⟨g, hstep, hopen⟩ := Option.map_eq_some_iff.mp h
  have ht := trace_of_replay (init_fleet oneFailure "db") hrun
  exact ⟨f, g, ht, hstep, open_shuts_fleet ht hstep ⟨1, 0, rfl, hopen⟩⟩

/-- Process 0 trips the breaker and saves OPEN at 1. Process 1 cached CLOSED before that
and saves it at 2, when its call succeeds, so a call that enters process 0 at 3 starts. -/
theorem stale_save_reopens_fleet :
    ¬ ∀ (cfg : FleetConfig) (name : String) (as : List Act) (f : Fleet) (a : Act) (g : Fleet),
      Trace (fleet cfg name) free as f → next cfg f a = some g → SavesOpen f a →
      ShutFleetwide cfg name free (as ++ [a]) g := by
  intro hclaim
  have h : ((replay (fleet oneFailure "db") free []
      [.enter 0 0 0, .check 0 0, .enter 0 1 1, .check 0 1, .fail 1 0 0]
      (Fleet.init "db")).bind fun f => (next oneFailure f (.persist 1 0)).bind fun g =>
        (replay (fleet oneFailure "db") free
          ([.enter 0 0 0, .check 0 0, .enter 0 1 1, .check 0 1, .fail 1 0 0] ++ [.persist 1 0])
          [.succeed 2 1 1, .persist 2 1, .enter 3 0 2] g).bind fun x =>
            (next oneFailure x (.check 3 0)).map fun y =>
              decide ((f.proc 0).service.snapshot.state = .opened ∧ g.clock = 1 ∧
                g.closings = 0 ∧ x.closings = 0 ∧ (x.proc 0).running = [] ∧
                (y.proc 0).running = [2])) = some true := by decide +kernel
  obtain ⟨f, hrun, h⟩ := Option.bind_eq_some_iff.mp h
  obtain ⟨g, hstep, h⟩ := Option.bind_eq_some_iff.mp h
  obtain ⟨x, hlater, h⟩ := Option.bind_eq_some_iff.mp h
  obtain ⟨y, hstart, h⟩ := Option.map_eq_some_iff.mp h
  obtain ⟨hopen, hclock, hgc, hxc, hbefore, hafter⟩ := of_decide_eq_true h
  have hshut := hclaim _ _ _ _ _ _ (trace_of_replay (init_fleet oneFailure "db") hrun) hstep
    ⟨1, 0, rfl, hopen⟩
  rcases hshut _ _ _ _ 0 2 (replay_path hlater) trivial hstart ⟨3, by simp⟩
      ⟨by simp [hbefore], by simp [hafter]⟩ with hwin | hclosed
  · rw [hclock] at hwin
    exact absurd hwin (by decide +kernel)
  · omega

end Taas.FleetWindow
