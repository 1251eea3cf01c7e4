import Taas.BreakerCalls

/-!
The recovery window. After a trip at `t` no handler starts before the window has
passed, whatever the calls in flight report. The first call after the window is a
probe as long as no failing straggler trips the OPEN breaker again: such a failure
stamps `opened_at` anew and moves the window.
-/
namespace Taas.BreakerRecovery

open CircuitBreaker CircuitBreakerService Transition BreakerCalls

/-- The step from `w` to `w'` opens a breaker that was not open. -/
def Trips (w w' : World) : Prop :=
  w.service.snapshot.state ≠ .opened ∧ w'.service.snapshot.state = .opened

/-- `id` was admitted as a probe of the current HALF_OPEN period. -/
def AdmittedAsProbe (w : World) (id : ℕ) : Prop :=
  w.service.snapshot.state = .halfOpen ∧ (⟨id, some w.periods⟩ : Call) ∈ w.running

/-- Every call that `as` lets enter comes before `limit`. -/
def EntersBefore (limit : ℚ) (as : List Act) : Prop :=
  ∀ now id, Act.enter now id ∈ as → now < limit

/-- What a trip that led to `w` promises of the runs that follow it: none starts a handler
within the window, and the first call after it is a probe. -/
structure RecoveryWindow (cfg : CircuitBreakerConfig) (name : String)
    (ok : Condition World Act) (past : List Act) (w : World) : Prop where
  noEarlyStart : ∀ bs x now id y, Path (calls cfg name) ok past w bs x →
    next cfg x (.enter now id) = some y → now < w.clock + cfg.recoveryTimeoutSeconds →
    ¬ y.Admitted id
  firstCallProbes : ∀ bs x now id y, Path (calls cfg name) ok past w bs x →
    EntersBefore (w.clock + cfg.recoveryTimeoutSeconds) bs →
    next cfg x (.enter now id) = some y → w.clock + cfg.recoveryTimeoutSeconds ≤ now →
    AdmittedAsProbe y id

/-- No failure in OPEN reaches the threshold again after `opened_at`. -/
def NoLateTrip (cfg : CircuitBreakerConfig) : Condition World Act := fun _ w a =>
  match a with
  | .fail now _ => w.service.snapshot.state = .opened →
      w.service.snapshot.failureCount + 1 < cfg.failureThreshold ∨
        w.service.snapshot.openedAt = some now
  | _ => True

instance (cfg : CircuitBreakerConfig) (as : List Act) (w : World) (a : Act) :
    Decidable (NoLateTrip cfg as w a) :=
  match a with
  | .enter _ _ | .succeed _ _ | .fail _ _ => by unfold NoLateTrip; infer_instance

variable {cfg : CircuitBreakerConfig} {name : String} {w w' x y : World} {a : Act}
variable {ok : Condition World Act} {past as bs : List Act} {now t : ℚ} {id : ℕ} {c : Call}

theorem trips_openedAt (hstep : next cfg w a = some w') (htrip : Trips w w') :
    w'.service.snapshot.openedAt = some w'.clock := by
  obtain ⟨hbefore, hafter⟩ := htrip
  rcases next_cases hstep with ⟨now, id, rfl, _, rfl⟩ | ⟨now, c, rfl, _, _, rfl⟩ |
      ⟨now, c, rfl, _, _, rfl⟩
  · rcases enter_cases cfg now id w with ⟨hs, _⟩ | ⟨hs, he⟩ | ⟨hs, _, he⟩ | ⟨hs, _, he⟩ |
        ⟨_, hs, _⟩
    · exact absurd hs hbefore
    · simp [he, hs] at hafter
    · simp [he, hs] at hafter
    · simp [he, hs] at hafter
    · exact absurd hs hbefore
  · rcases onSuccess_cases cfg w.service with ⟨_, _, he⟩ | ⟨hs, _, he⟩ | ⟨hs, he⟩ | ⟨hs, _⟩
    · simp [World.succeed, he] at hafter
    · simp [World.succeed, he, hs] at hafter
    · simp [World.succeed, he, hs] at hafter
    · exact absurd hs hbefore
  · rcases onFailure_cases cfg now w.service with ⟨_, he⟩ | ⟨_, _, he⟩
    · simp [World.fail, he, trip]
    · simp only [World.fail, he] at hafter
      exact absurd hafter hbefore

/-- Within the window after a trip at `t` the breaker stays OPEN, stamped at `t` or later. -/
structure Shut (cfg : CircuitBreakerConfig) (t : ℚ) (w : World) : Prop where
  clock : t ≤ w.clock
  opened : w.clock < t + cfg.recoveryTimeoutSeconds →
    w.service.snapshot.state = .opened ∧ ∃ u, w.service.snapshot.openedAt = some u ∧ t ≤ u

theorem shut_enter (hs : Shut cfg t w) (hclock : w.clock ≤ now)
    (hwin : now < t + cfg.recoveryTimeoutSeconds) :
    w.enter cfg now id = { w with clock := now } := by
  obtain ⟨hopen, u, hu, htu⟩ := hs.opened (lt_of_le_of_lt hclock hwin)
  rcases enter_cases cfg now id w with ⟨_, _, he⟩ | ⟨hn, _⟩ | ⟨hn, _⟩ | ⟨hn, _⟩ |
      ⟨v, _, hv, hle, _⟩
  · exact he
  · simp [hopen] at hn
  · simp [hopen] at hn
  · simp [hopen] at hn
  · obtain rfl : v = u := by simpa [hu] using hv.symm
    linarith

theorem shut_step (hs : Shut cfg t w) (hstep : next cfg w a = some w') : Shut cfg t w' := by
  rcases next_cases hstep with ⟨now, id, rfl, hclock, rfl⟩ | ⟨now, c, rfl, hclock, _, rfl⟩ |
      ⟨now, c, rfl, hclock, _, rfl⟩
  · refine ⟨le_trans hs.clock hclock, fun hwin => ?_⟩
    rw [shut_enter hs hclock hwin]
    exact hs.opened (lt_of_le_of_lt hclock hwin)
  · refine ⟨le_trans hs.clock hclock, fun hwin => ?_⟩
    have hopened := hs.opened (lt_of_le_of_lt hclock hwin)
    rcases onSuccess_cases cfg w.service with ⟨hn, _⟩ | ⟨hn, _⟩ | ⟨hn, _⟩ | ⟨_, he⟩
    · simp [hopened.1] at hn
    · simp [hopened.1] at hn
    · simp [hopened.1] at hn
    · simpa [World.succeed, he] using hopened
  · refine ⟨le_trans hs.clock hclock, fun hwin => ?_⟩
    have hopened := hs.opened (lt_of_le_of_lt hclock hwin)
    rcases onFailure_cases cfg now w.service with ⟨_, he⟩ | ⟨_, _, he⟩
    · simp only [World.fail, he, trip]
      exact ⟨trivial, now, rfl, le_trans hs.clock hclock⟩
    · simpa [World.fail, he] using hopened

theorem shut_of_trip (hstep : next cfg w a = some w') (htrip : Trips w w') :
    Shut cfg w'.clock w' :=
  ⟨le_refl _, fun _ => ⟨htrip.2, _, trips_openedAt hstep htrip, le_refl _⟩⟩

theorem no_early_start (hstep : next cfg w a = some w') (htrip : Trips w w')
    (hp : Path (calls cfg name) ok past w' bs x) (henter : next cfg x (.enter now id) = some y)
    (hwin : now < w'.clock + cfg.recoveryTimeoutSeconds) : ¬ y.Admitted id := by
  have hshut : Shut cfg w'.clock x :=
    hp.preserves (fun _ _ _ _ hs _ hnext => shut_step hs hnext) (shut_of_trip hstep htrip)
  simp only [next, Option.ite_none_right_eq_some, Option.some.injEq] at henter
  obtain ⟨⟨hclock, hfresh⟩, rfl⟩ := henter
  rw [shut_enter hshut hclock hwin]
  exact hfresh

theorem openedAt_kept (hopened : w.service.snapshot.state = .opened)
    (hat : w.service.snapshot.openedAt = some t)
    (hp : Path (calls cfg name) (NoLateTrip cfg) past w bs x)
    (hbefore : EntersBefore (t + cfg.recoveryTimeoutSeconds) bs) :
    x.service.snapshot.state = .opened ∧ x.service.snapshot.openedAt = some t := by
  induction hp with
  | nil => exact ⟨hopened, hat⟩
  | @snoc x y bs b hp hok hstep ih =>
    obtain ⟨hs, ht⟩ := ih fun now id hmem => hbefore now id (List.mem_append_left _ hmem)
    rcases next_cases hstep with ⟨now, id, rfl, hclock, rfl⟩ | ⟨now, c, rfl, _, _, rfl⟩ |
        ⟨now, c, rfl, _, _, rfl⟩
    · have hnow := hbefore now id (List.mem_append_right _ (List.mem_singleton.mpr rfl))
      rcases enter_cases cfg now id x with ⟨_, _, he⟩ | ⟨hn, _⟩ | ⟨hn, _⟩ | ⟨hn, _⟩ |
          ⟨u, _, hu, hle, _⟩
      · rw [he]
        exact ⟨hs, ht⟩
      · simp [hs] at hn
      · simp [hs] at hn
      · simp [hs] at hn
      · obtain rfl : u = t := by simpa [ht] using hu.symm
        linarith
    · rcases onSuccess_cases cfg x.service with ⟨hn, _⟩ | ⟨hn, _⟩ | ⟨hn, _⟩ | ⟨_, he⟩
      · simp [hs] at hn
      · simp [hs] at hn
      · simp [hs] at hn
      · simpa [World.succeed, he] using ⟨hs, ht⟩
    · rcases onFailure_cases cfg now x.service with ⟨hor, he⟩ | ⟨_, _, he⟩
      · -- the condition leaves only a trip at the very time of the first one
        have hsame : x.service.snapshot.openedAt = some now := by
          rcases hok hs with hlt | hsame
          · rcases hor with hn | hge
            · simp [hs] at hn
            · omega
          · exact hsame
        obtain rfl : t = now := by simpa [ht] using hsame
        simp [World.fail, he, trip]
      · simpa [World.fail, he] using ⟨hs, ht⟩

theorem enter_after_window (hm : 1 ≤ cfg.halfOpenMaxCalls)
    (hs : w.service.snapshot.state = .opened) (hat : w.service.snapshot.openedAt = some t)
    (hwin : t + cfg.recoveryTimeoutSeconds ≤ now) : AdmittedAsProbe (w.enter cfg now id) id := by
  rcases enter_cases cfg now id w with ⟨_, hlt, _⟩ | ⟨hn, _⟩ | ⟨hn, _⟩ | ⟨hn, _⟩ |
      ⟨u, _, _, _, inFlight, admitted, he, hslot⟩
  · have := hlt t hat
    linarith
  · simp [hs] at hn
  · simp [hs] at hn
  · simp [hs] at hn
  · rcases hslot with ⟨hle, -, -⟩ | ⟨_, -, rfl⟩
    · omega
    · rw [he]
      exact ⟨rfl, List.mem_cons_self⟩

/-- With a probe slot to give and no late trip, every trip keeps its recovery window. -/
theorem recovery_window (hm : 1 ≤ cfg.halfOpenMaxCalls) (hstep : next cfg w a = some w')
    (htrip : Trips w w') : RecoveryWindow cfg name (NoLateTrip cfg) past w' := by
  refine ⟨fun bs x now id y hp henter hwin => no_early_start hstep htrip hp henter hwin, ?_⟩
  intro bs x now id y hp hbefore henter hwin
  obtain ⟨hs, hat⟩ := openedAt_kept htrip.2 (trips_openedAt hstep htrip) hp hbefore
  simp only [next, Option.ite_none_right_eq_some, Option.some.injEq] at henter
  obtain ⟨_, rfl⟩ := henter
  exact enter_after_window hm hs hat hwin

def twoRunning : World where
  service := CircuitBreakerService.init "db"
  clock := 0
  running := [⟨1, none⟩, ⟨0, none⟩]

def trippedAtOne : World where
  service :=
    { name := "db"
      snapshot := { name := "db", state := .opened, openedAt := some 1 }
      halfOpenInFlight := 0 }
  clock := 1
  running := [⟨1, none⟩]

theorem recovery_window_tripped :
    RecoveryWindow { failureThreshold := 1 } "db" (NoLateTrip { failureThreshold := 1 }) []
      trippedAtOne :=
  recovery_window (w := twoRunning) (a := .fail 1 ⟨0, none⟩) (by decide) (by decide +kernel)
    ⟨by decide, by decide⟩

/-- The straggler fails at 20 and stamps `opened_at` anew, so the call at 31, the end of
the window that began at 1, is rejected. -/
theorem late_failure_postpones_recovery :
    ¬ ∀ (cfg : CircuitBreakerConfig) (name : String) (as : List Act) (w : World) (a : Act)
      (w' : World), 1 ≤ cfg.halfOpenMaxCalls → Trace (calls cfg name) free as w →
      next cfg w a = some w' → Trips w w' → RecoveryWindow cfg name free (as ++ [a]) w' := by
  intro hclaim
  have hrun : replay (calls { failureThreshold := 1 } "db") free [] [.enter 0 0, .enter 0 1]
      { service := CircuitBreakerService.init "db", clock := 0, running := [] } =
      some twoRunning := by decide +kernel
  have ht := trace_of_replay (M := calls { failureThreshold := 1 } "db")
    ⟨rfl, rfl, rfl, rfl⟩ hrun
  have hwindow := hclaim _ _ _ _ (.fail 1 ⟨0, none⟩) trippedAtOne (by decide) ht
    (by decide +kernel) ⟨by decide, by decide⟩
  have hlate : replay (calls { failureThreshold := 1 } "db") free
      ([.enter 0 0, .enter 0 1] ++ [.fail 1 ⟨0, none⟩]) [.fail 20 ⟨1, none⟩] trippedAtOne =
      some { trippedAtOne with
        service := trippedAtOne.service.trip 20, clock := 20, running := [] } := by
    decide +kernel
  have hprobe := hwindow.firstCallProbes _ _ 31 2
    { trippedAtOne with
      service := trippedAtOne.service.trip 20, clock := 31, running := [] }
    (replay_path hlate) (by simp [EntersBefore]) (by decide +kernel) (by decide +kernel)
  exact absurd hprobe.1 (by decide)

end Taas.BreakerRecovery
