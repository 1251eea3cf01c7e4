import Taas.BreakerCalls

/-!
The half-open probe limit. While no call of an earlier period succeeds in
HALF_OPEN, the in-flight counter is the number of running probes and the success
counter the number of successful ones, so both limits hold. A straggler that
succeeds in HALF_OPEN frees a slot it never took and counts as a probe.
-/
namespace Taas.BreakerProbes

open CircuitBreaker CircuitBreakerService Transition BreakerCalls

/-- The running calls that the current HALF_OPEN period admitted. -/
def probesRunning (w : World) : ℕ := w.running.countP fun c => c.probe = some w.periods

/-- The probe limit and the closing rule at the state `w` that the labels `as` lead to,
with `ok` the condition that the steps of the run meet. -/
structure ProbeLimit (cfg : CircuitBreakerConfig) (ok : Condition World Act) (as : List Act)
    (w : World) : Prop where
  running : w.service.snapshot.state = .halfOpen →
    probesRunning w ≤ cfg.halfOpenMaxCalls.toNat
  closing : ∀ a w', ok as w a → next cfg w a = some w' →
    w.service.snapshot.state = .halfOpen → w'.service.snapshot.state = .closed →
    cfg.successThreshold ≤ w'.periodSuccesses

/-- In HALF_OPEN only calls that this period admitted succeed. -/
def OwnProbesSucceed : Condition World Act := fun _ w a =>
  match a with
  | .succeed _ c => w.service.snapshot.state = .halfOpen → c.probe = some w.periods
  | _ => True

instance (as : List Act) (w : World) (a : Act) : Decidable (OwnProbesSucceed as w a) :=
  match a with
  | .enter _ _ | .succeed _ _ | .fail _ _ => by unfold OwnProbesSucceed; infer_instance

/-- The counters of a HALF_OPEN breaker count its own probes. -/
structure Counted (cfg : CircuitBreakerConfig) (w : World) : Prop where
  tags : ∀ c ∈ w.running, ∀ k, c.probe = some k → k ≤ w.periods
  inFlight : w.service.snapshot.state = .halfOpen →
    w.service.halfOpenInFlight = probesRunning w
  limit : w.service.snapshot.state = .halfOpen →
    w.service.halfOpenInFlight ≤ max cfg.halfOpenMaxCalls 0
  successes : w.service.snapshot.state = .halfOpen →
    w.service.snapshot.successCount = w.periodSuccesses

variable {cfg : CircuitBreakerConfig} {name : String} {w w' : World} {a : Act}
variable {as : List Act} {now : ℚ} {id : ℕ} {c : Call}

theorem probesRunning_erase (hc : c ∈ w.running) (hp : c.probe = some w.periods) :
    (w.running.erase c).countP (fun d => d.probe = some w.periods) + 1 = probesRunning w := by
  have hperm := (List.perm_cons_erase hc).countP_eq (fun d => decide (d.probe = some w.periods))
  have hcons : (c :: w.running.erase c).countP (fun d => decide (d.probe = some w.periods)) =
      (w.running.erase c).countP (fun d => decide (d.probe = some w.periods)) + 1 :=
    List.countP_cons_of_pos (by simpa using hp)
  exact (hperm.trans hcons).symm

theorem countP_future (ht : ∀ c ∈ w.running, ∀ k, c.probe = some k → k ≤ w.periods) :
    w.running.countP (fun c => c.probe = some (w.periods + 1)) = 0 := by
  refine List.countP_eq_zero.mpr fun c hc hp => ?_
  have := ht c hc (w.periods + 1) (by simpa using hp)
  omega

theorem enter_counted (hi : Counted cfg w) : Counted cfg (w.enter cfg now id) := by
  rcases enter_cases cfg now id w with ⟨_, _, he⟩ | ⟨hs, he⟩ | ⟨_, _, he⟩ | ⟨hs, hlt, he⟩ |
      ⟨t, _, _, _, inFlight, admitted, he, hslot⟩
  · rw [he]
    exact ⟨hi.tags, hi.inFlight, hi.limit, hi.successes⟩
  · rw [he]
    refine ⟨?_, fun h => ?_, fun h => ?_, fun h => ?_⟩
    · simp only [List.mem_cons, forall_eq_or_imp]
      exact ⟨fun k hk => by simp at hk, hi.tags⟩
    all_goals simp [hs] at h
  · rw [he]
    exact ⟨hi.tags, hi.inFlight, hi.limit, hi.successes⟩
  · rw [he]
    refine ⟨?_, fun h => ?_, fun _ => ?_, fun _ => hi.successes hs⟩
    · simp only [List.mem_cons, forall_eq_or_imp]
      exact ⟨fun k hk => by simp only [Option.some.injEq] at hk; omega, hi.tags⟩
    · have hcount := hi.inFlight hs
      simp only [probesRunning, List.countP_cons, hcount]
      simp
    · show w.service.halfOpenInFlight + 1 ≤ max cfg.halfOpenMaxCalls 0
      omega
  · have hzero := countP_future hi.tags
    rw [he]
    rcases hslot with ⟨hle, rfl, rfl⟩ | ⟨hpos, rfl, rfl⟩
    · refine ⟨?_, fun _ => ?_, fun _ => le_max_right _ _, fun _ => rfl⟩
      · intro c hc k hk
        have := hi.tags c hc k hk
        show k ≤ w.periods + 1
        omega
      · simp [probesRunning, hzero]
    · refine ⟨?_, fun _ => ?_, fun _ => ?_, fun _ => rfl⟩
      · simp only [List.cons_append, List.nil_append, List.mem_cons, forall_eq_or_imp]
        refine ⟨fun k hk => by simp only [Option.some.injEq] at hk; omega, ?_⟩
        intro c hc k hk
        have := hi.tags c hc k hk
        omega
      · simp [probesRunning, hzero]
      · show (1 : ℤ) ≤ max cfg.halfOpenMaxCalls 0
        omega

theorem succeed_counted (hi : Counted cfg w) (hc : c ∈ w.running)
    (hown : w.service.snapshot.state = .halfOpen → c.probe = some w.periods) :
    Counted cfg (w.succeed cfg now c) := by
  have htags : ∀ d ∈ w.running.erase c, ∀ k, d.probe = some k → k ≤ w.periods :=
    fun d hd => hi.tags d (List.mem_of_mem_erase hd)
  unfold World.succeed
  rcases onSuccess_cases cfg w.service with ⟨hs, _, he⟩ | ⟨hs, hlt, he⟩ | ⟨hs, he⟩ | ⟨hs, he⟩
  · rw [he]
    refine ⟨htags, fun h => ?_, fun h => ?_, fun h => ?_⟩ <;> simp at h
  · have hp := hown hs
    have herase := probesRunning_erase hc hp
    have hcount := hi.inFlight hs
    have hlim := hi.limit hs
    have hsucc := hi.successes hs
    rw [he]
    refine ⟨htags, fun _ => ?_, fun _ => ?_, fun _ => ?_⟩
    · show max (w.service.halfOpenInFlight - 1) 0 =
        ((w.running.erase c).countP (fun d => d.probe = some w.periods) : ℤ)
      omega
    · show max (w.service.halfOpenInFlight - 1) 0 ≤ max cfg.halfOpenMaxCalls 0
      omega
    · simp [hs, hp, hsucc]
  · rw [he]
    refine ⟨htags, fun h => ?_, fun h => ?_, fun h => ?_⟩ <;> simp [hs] at h
  · rw [he]
    refine ⟨htags, fun h => ?_, fun h => ?_, fun h => ?_⟩ <;> simp [hs] at h

theorem fail_counted (hi : Counted cfg w) : Counted cfg (w.fail cfg now c) := by
  have htags : ∀ d ∈ w.running.erase c, ∀ k, d.probe = some k → k ≤ w.periods :=
    fun d hd => hi.tags d (List.mem_of_mem_erase hd)
  unfold World.fail
  rcases onFailure_cases cfg now w.service with ⟨_, he⟩ | ⟨hs, _, he⟩
  · rw [he]
    refine ⟨htags, fun h => ?_, fun h => ?_, fun h => ?_⟩ <;> simp [trip] at h
  · rw [he]
    exact ⟨htags, fun h => absurd h hs, fun h => absurd h hs, fun h => absurd h hs⟩

theorem counted_of_own_probes (h : Trace (calls cfg name) OwnProbesSucceed as w) :
    Counted cfg w := by
  refine Trace.induct (M := calls cfg name) (I := fun _ w => Counted cfg w) ?_ ?_ as w h
  · rintro w ⟨hs, hr, _, _⟩
    refine ⟨fun c hc => by simp [hr] at hc, fun h => ?_, fun h => ?_, fun h => ?_⟩ <;>
      simp [hs, CircuitBreakerService.init] at h
  · intro _ w a w' _ hi hok hstep
    rcases next_cases hstep with ⟨_, _, rfl, _, rfl⟩ | ⟨now, c, rfl, _, hc, rfl⟩ |
        ⟨_, _, rfl, _, _, rfl⟩
    · exact enter_counted hi
    · exact succeed_counted hi hc hok
    · exact fail_counted hi

/-- A HALF_OPEN breaker closes only by a success that reaches the threshold. -/
theorem closing_counts (hi : Counted cfg w) (hok : OwnProbesSucceed as w a)
    (hstep : next cfg w a = some w') (hs : w.service.snapshot.state = .halfOpen)
    (hclosed : w'.service.snapshot.state = .closed) :
    cfg.successThreshold ≤ w'.periodSuccesses := by
  rcases next_cases hstep with ⟨now, id, rfl, _, rfl⟩ | ⟨now, c, rfl, _, _, rfl⟩ |
      ⟨now, c, rfl, _, _, rfl⟩
  · rcases enter_cases cfg now id w with ⟨hn, _, _⟩ | ⟨hn, _⟩ | ⟨_, _, he⟩ | ⟨_, _, he⟩ |
        ⟨t, hn, _⟩
    · simp [hs] at hn
    · simp [hs] at hn
    · simp [he, hs] at hclosed
    · simp [he, hs] at hclosed
    · simp [hs] at hn
  · have hp : c.probe = some w.periods := hok hs
    have hsucc := hi.successes hs
    rcases onSuccess_cases cfg w.service with ⟨_, hge, _⟩ | ⟨_, _, he⟩ | ⟨hn, _⟩ | ⟨hn, _⟩
    · simp only [World.succeed, hs, hp, and_self, if_true, Nat.cast_add, Nat.cast_one]
      omega
    · simp [World.succeed, he, hs] at hclosed
    · simp [hs] at hn
    · simp [hs] at hn
  · rcases onFailure_cases cfg now w.service with ⟨_, he⟩ | ⟨hn, _, _⟩
    · simp [World.fail, he, trip] at hclosed
    · exact absurd hs hn

/-- When only a period's own probes succeed in it, no more than `half_open_max_calls` of
them run at once, and the breaker closes only after `success_threshold` of them succeeded. -/
theorem probe_limit (h : Trace (calls cfg name) OwnProbesSucceed as w) :
    ProbeLimit cfg OwnProbesSucceed as w := by
  have hi := counted_of_own_probes h
  refine ⟨fun hs => ?_, fun a w' hok hstep hs hc => closing_counts hi hok hstep hs hc⟩
  have hcount := hi.inFlight hs
  have hlim := hi.limit hs
  omega

/-- One probe runs while a call from before the trip is still running. -/
theorem probe_limit_with_straggler :
    ∃ w, Trace (calls { failureThreshold := 1 } "db") OwnProbesSucceed
        [.enter 0 0, .enter 0 1, .fail 1 ⟨1, none⟩, .enter 31 2] w ∧
      w.service.snapshot.state = .halfOpen ∧ probesRunning w = 1 ∧
      ProbeLimit { failureThreshold := 1 } OwnProbesSucceed
        [.enter 0 0, .enter 0 1, .fail 1 ⟨1, none⟩, .enter 31 2] w := by
  have h : replay (calls { failureThreshold := 1 } "db") OwnProbesSucceed []
      [.enter 0 0, .enter 0 1, .fail 1 ⟨1, none⟩, .enter 31 2]
      { service := CircuitBreakerService.init "db", clock := 0, running := [] } =
      some { service := ⟨"db", { name := "db", state := .halfOpen, openedAt := some 1 }, 1⟩
             clock := 31, running := [⟨2, some 1⟩, ⟨0, none⟩], periods := 1 } := by
    decide +kernel
  have ht := trace_of_replay (M := calls { failureThreshold := 1 } "db")
    ⟨rfl, rfl, rfl, rfl⟩ h
  exact ⟨_, ht, rfl, by decide, probe_limit ht⟩

/-- The breaker after a straggler's success in HALF_OPEN: two probes run. -/
def overProbed : World where
  service :=
    { name := "db"
      snapshot := { name := "db", state := .halfOpen, successCount := 1, openedAt := some 1 }
      halfOpenInFlight := 1 }
  clock := 33
  running := [⟨4, some 1⟩, ⟨3, some 1⟩, ⟨1, none⟩]
  periods := 1

/-- A call that entered in CLOSED succeeds in HALF_OPEN and frees the only slot, which
the running probe still holds, so a second probe starts beside it. -/
theorem straggler_breaks_probe_limit :
    ¬ ∀ (cfg : CircuitBreakerConfig) (name : String) (as : List Act) (w : World),
      Trace (calls cfg name) free as w → ProbeLimit cfg free as w := by
  intro hclaim
  have h : replay (calls { failureThreshold := 1, successThreshold := 2 } "db") free []
      [.enter 0 0, .enter 0 1, .enter 0 2, .fail 1 ⟨2, none⟩, .enter 31 3,
        .succeed 32 ⟨0, none⟩, .enter 33 4]
      { service := CircuitBreakerService.init "db", clock := 0, running := [] } =
      some overProbed := by decide +kernel
  have ht := trace_of_replay (M := calls { failureThreshold := 1, successThreshold := 2 } "db")
    ⟨rfl, rfl, rfl, rfl⟩ h
  have hlimit := hclaim _ _ _ _ ht
  exact absurd (hlimit.running rfl) (by decide)

end Taas.BreakerProbes
