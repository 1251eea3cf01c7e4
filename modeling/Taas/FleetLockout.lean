import Taas.BreakerFleet

/-!
Processes with one clock that share a breaker are not locked out for good, as long as
no process loses probe slots. A process counts the probes it lets in, but a call that
finishes while another process's snapshot is cached leaves the count as it is. Once
every slot is lost like this, the process rejects its own calls in each HALF_OPEN
period that another process begins.
-/
namespace Taas.FleetLockout

open CircuitBreaker CircuitBreakerService Transition BreakerFleet

/-- The call `id` of process `p`, made at `now` and left alone, starts its handler,
after one more save when it has to leave OPEN. -/
def Admitted (cfg : FleetConfig) (f : Fleet) (now : ℚ) (p id : ℕ) : Prop :=
  ∃ g, next cfg f (.enter now p id) = some g ∧ ∀ now₁, now ≤ now₁ →
    ∃ g₁, next cfg g (.check now₁ p) = some g₁ ∧
      (id ∈ (g₁.proc p).running ∨ ∀ now₂, now₁ ≤ now₂ →
        ∃ h, next cfg g₁ (.persist now₂ p) = some h ∧ id ∈ (h.proc p).running)

/-- With no call in flight in a live process and the recovery window of the stored
snapshot passed, the next call of every live process is admitted. -/
def NoLockOut (cfg : FleetConfig) (f : Fleet) : Prop :=
  (∀ p, (f.proc p).alive → (f.proc p).lock = none ∧ (f.proc p).running = []) →
  ∀ now p id, f.clock ≤ now → (f.proc p).alive →
    (∀ snap ∈ f.repository.get, ∀ o ∈ snap.openedAt,
      cfg.breaker.recoveryTimeoutSeconds ≤ now - o) →
    Admitted cfg f now p id

/-- When one running call has finished without a change to the in-flight counter, a slot
is still free for each call that might take it for a probe's. -/
def LeavesSlot (cfg : CircuitBreakerConfig) (P : Process) : Prop :=
  P.service.halfOpenInFlight < (P.running.length : ℤ) - 1 + cfg.halfOpenMaxCalls

/-- A call that finishes without giving a slot back leaves a slot. -/
def SlotsKept (cfg : FleetConfig) : Condition Fleet Act := fun _ f a =>
  match a with
  | .succeed _ p _ => (f.proc p).service.snapshot.state ≠ .halfOpen →
      LeavesSlot cfg.breaker (f.proc p)
  | .fail _ p _ => (f.proc p).service.snapshot.state ≠ .halfOpen →
      (f.proc p).service.snapshot.failureCount + 1 < cfg.breaker.failureThreshold →
      LeavesSlot cfg.breaker (f.proc p)
  | _ => True

instance (cfg : CircuitBreakerConfig) (P : Process) : Decidable (LeavesSlot cfg P) := by
  unfold LeavesSlot
  infer_instance

instance (cfg : FleetConfig) (as : List Act) (f : Fleet) (a : Act) :
    Decidable (SlotsKept cfg as f a) :=
  match a with
  | .enter _ _ _ | .check _ _ | .persist _ _ | .succeed _ _ _ | .fail _ _ _ | .stop _ _
  | .expire _ => by unfold SlotsKept; infer_instance

/-- What the lock-out theorem asks of the configuration: one clock for all, a probe slot
to give, and a time to live that covers the recovery window. -/
structure Usable (cfg : FleetConfig) : Prop where
  synchronised : ∀ p now, cfg.readClock p now = now
  halfOpenMaxCalls : 1 ≤ cfg.breaker.halfOpenMaxCalls
  ttlSeconds : ∀ ttl ∈ cfg.ttlSeconds, cfg.breaker.recoveryTimeoutSeconds ≤ ttl

/-- `saved` is the time of the last save. -/
structure ProcessInvariant (cfg : CircuitBreakerConfig) (clock : ℚ) (saved : Option ℚ)
    (P : Process) : Prop where
  opened : P.service.snapshot.state = .opened → ∃ o, P.service.snapshot.openedAt = some o
  past : ∀ o ∈ P.service.snapshot.openedAt, o ≤ clock
  saved : P.alive → (P.lock = none ∨ ∃ id, P.lock = some (.checking id)) →
    ∀ o ∈ P.service.snapshot.openedAt, ∃ t ∈ saved, o ≤ t
  slots : P.alive → P.service.halfOpenInFlight < P.running.length + cfg.halfOpenMaxCalls

structure RepositoryInvariant (cfg : FleetConfig) (clock : ℚ) (r : Repository) : Prop where
  opened : ∀ sv ∈ r.saved, sv.snapshot.state = .opened → ∃ o, sv.snapshot.openedAt = some o
  past : ∀ sv ∈ r.saved, (∀ o ∈ sv.snapshot.openedAt, o ≤ sv.savedAt) ∧ sv.savedAt ≤ clock
  expired : r.expired = true →
    ∃ sv ∈ r.saved, ∃ ttl ∈ cfg.ttlSeconds, sv.savedAt + ttl ≤ clock

structure FleetInvariant (cfg : FleetConfig) (f : Fleet) : Prop where
  repository : RepositoryInvariant cfg f.clock f.repository
  proc : ∀ p, ProcessInvariant cfg.breaker f.clock (f.repository.saved.map Saved.savedAt)
    (f.proc p)

variable {cfg : FleetConfig} {name : String} {f g : Fleet} {as : List Act} {a : Act}
variable {c : CircuitBreakerConfig} {clock now : ℚ} {saved saved' : Option ℚ}
variable {p id : ℕ} {P Q : Process} {r : Repository}

theorem ProcessInvariant.mono (h : ProcessInvariant c clock saved P) (hclock : clock ≤ now)
    (hsaved : ∀ t ∈ saved, ∃ t' ∈ saved', t ≤ t') : ProcessInvariant c now saved' P := by
  refine ⟨h.opened, fun o ho => (h.past o ho).trans hclock, fun hal hl o ho => ?_, h.slots⟩
  obtain ⟨t, ht, hot⟩ := h.saved hal hl o ho
  obtain ⟨t', ht', htt⟩ := hsaved t ht
  exact ⟨t', ht', hot.trans htt⟩

theorem RepositoryInvariant.mono (h : RepositoryInvariant cfg clock r) (hclock : clock ≤ now) :
    RepositoryInvariant cfg now r := by
  refine ⟨h.opened, fun sv hsv => ⟨(h.past sv hsv).1, (h.past sv hsv).2.trans hclock⟩, fun he => ?_⟩
  obtain ⟨sv, hsv, ttl, httl, hle⟩ := h.expired he
  exact ⟨sv, hsv, ttl, httl, hle.trans hclock⟩

theorem refresh_invariant (hP : ProcessInvariant cfg.breaker clock (r.saved.map Saved.savedAt) P)
    (hr : RepositoryInvariant cfg clock r) (hlock : P.lock = none) :
    ProcessInvariant cfg.breaker clock (r.saved.map Saved.savedAt) (P.refresh r.get id) := by
  cases hg : r.get with
  | none => exact ⟨hP.opened, hP.past, fun hal _ => hP.saved hal (Or.inl hlock), hP.slots⟩
  | some snap =>
    unfold Repository.get at hg
    split at hg
    · cases hg
    · obtain ⟨sv, hsv, rfl⟩ := Option.map_eq_some_iff.mp hg
      refine ⟨hr.opened sv hsv, fun o ho => ?_, fun _ _ o ho => ?_, hP.slots⟩
      · exact ((hr.past sv hsv).1 o ho).trans (hr.past sv hsv).2
      · exact ⟨sv.savedAt, by simp [hsv], (hr.past sv hsv).1 o ho⟩

theorem startIfAdmitted_invariant (hP : ProcessInvariant c clock saved P)
    (hsaved : P.alive → ∀ o ∈ P.service.snapshot.openedAt, ∃ t ∈ saved, o ≤ t) :
    ProcessInvariant c clock saved (P.startIfAdmitted c id) := by
  rcases startIfAdmitted_cases c id P with ⟨he, _⟩ | ⟨he, _, hlt⟩ | ⟨he, _, _⟩ <;> rw [he]
  · refine ⟨hP.opened, hP.past, fun hal _ => hsaved hal, fun hal => ?_⟩
    have := hP.slots hal
    simp only [List.length_cons, Nat.cast_add, Nat.cast_one]
    omega
  · refine ⟨hP.opened, hP.past, fun hal _ => hsaved hal, fun hal => ?_⟩
    have := hP.slots hal
    simp only [List.length_cons, Nat.cast_add, Nat.cast_one]
    omega
  · exact ⟨hP.opened, hP.past, fun hal _ => hsaved hal, hP.slots⟩

theorem check_invariant (hm : 1 ≤ c.halfOpenMaxCalls) (hP : ProcessInvariant c clock saved P)
    (hlock : P.lock = some (.checking id)) :
    ProcessInvariant c clock saved (P.check c now id) := by
  have hsaved := fun hal => hP.saved hal (Or.inr ⟨id, hlock⟩)
  rcases check_cases c now id P with ⟨he, _⟩ | ⟨he, _⟩ | ⟨o, _, ho, _, he⟩ <;> rw [he]
  · exact ⟨hP.opened, hP.past, fun hal _ => hsaved hal, hP.slots⟩
  · exact startIfAdmitted_invariant hP hsaved
  · refine ⟨fun h => ?_, fun o' ho' => ?_, fun _ hl => ?_, fun _ => ?_⟩
    · simp at h
    · exact hP.past o' (by simpa [ho] using ho')
    · simp at hl
    · show (0 : ℤ) < P.running.length + c.halfOpenMaxCalls
      omega

/-- The exit handlers hold the lock until their snapshot is saved. -/
theorem succeed_invariant (hm : 1 ≤ c.halfOpenMaxCalls) (hP : ProcessInvariant c clock saved P)
    (hid : id ∈ P.running)
    (hslot : P.service.snapshot.state ≠ .halfOpen → LeavesSlot c P) :
    ProcessInvariant c clock saved (P.succeed c id) := by
  have hpos := List.length_pos_of_mem hid
  have hlen := List.length_erase_of_mem hid
  unfold Process.succeed
  rcases onSuccess_cases c P.service with ⟨_, _, he⟩ | ⟨hs, _, he⟩ | ⟨hs, he⟩ | ⟨hs, he⟩ <;>
    rw [he]
  · refine ⟨fun h => ?_, fun o ho => ?_, fun _ hl => ?_, fun hal => ?_⟩
    · simp at h
    · simp at ho
    · simp at hl
    · have := hP.slots hal
      show max (P.service.halfOpenInFlight - 1) 0 <
        ((P.running.erase id).length : ℤ) + c.halfOpenMaxCalls
      omega
  · refine ⟨fun h => ?_, hP.past, fun _ hl => ?_, fun hal => ?_⟩
    · simp [hs] at h
    · simp at hl
    · have := hP.slots hal
      show max (P.service.halfOpenInFlight - 1) 0 <
        ((P.running.erase id).length : ℤ) + c.halfOpenMaxCalls
      omega
  · have hleft := hslot (by simp [hs])
    unfold LeavesSlot at hleft
    refine ⟨fun h => ?_, hP.past, fun _ hl => ?_, fun _ => ?_⟩
    · simp [hs] at h
    · simp at hl
    · show P.service.halfOpenInFlight < ((P.running.erase id).length : ℤ) + c.halfOpenMaxCalls
      omega
  · have hleft := hslot (by simp [hs])
    unfold LeavesSlot at hleft
    refine ⟨hP.opened, hP.past, fun _ hl => ?_, fun _ => ?_⟩
    · simp at hl
    · show P.service.halfOpenInFlight < ((P.running.erase id).length : ℤ) + c.halfOpenMaxCalls
      omega

theorem fail_invariant (hm : 1 ≤ c.halfOpenMaxCalls) (hP : ProcessInvariant c clock saved P)
    (hclock : clock ≤ now) (hid : id ∈ P.running)
    (hslot : P.service.snapshot.state ≠ .halfOpen →
      P.service.snapshot.failureCount + 1 < c.failureThreshold → LeavesSlot c P) :
    ProcessInvariant c now saved (P.fail c now id) := by
  have hpos := List.length_pos_of_mem hid
  have hlen := List.length_erase_of_mem hid
  unfold Process.fail
  rcases onFailure_cases c now P.service with ⟨_, he⟩ | ⟨hs, hlt, he⟩ <;> rw [he]
  · refine ⟨fun _ => ⟨now, rfl⟩, fun o ho => ?_, fun _ hl => ?_, fun _ => ?_⟩
    · obtain rfl : now = o := by simpa [trip] using ho
      exact le_refl _
    · simp at hl
    · show (0 : ℤ) < ((P.running.erase id).length : ℤ) + c.halfOpenMaxCalls
      omega
  · have hleft := hslot hs hlt
    unfold LeavesSlot at hleft
    refine ⟨hP.opened, fun o ho => (hP.past o ho).trans hclock, fun _ hl => ?_, fun _ => ?_⟩
    · simp at hl
    · show P.service.halfOpenInFlight < ((P.running.erase id).length : ℤ) + c.halfOpenMaxCalls
      omega

theorem stop_invariant (hP : ProcessInvariant c clock saved P) :
    ProcessInvariant c clock saved P.stop :=
  ⟨hP.opened, hP.past, fun hal => by simp [Process.stop] at hal,
    fun hal => by simp [Process.stop] at hal⟩

theorem FleetInvariant.set (hi : FleetInvariant cfg f) (hclock : f.clock ≤ now)
    (hP : ProcessInvariant cfg.breaker now (f.repository.saved.map Saved.savedAt) P) :
    FleetInvariant cfg (f.set now p P) := by
  refine ⟨hi.repository.mono hclock, fun q => ?_⟩
  by_cases hq : q = p
  · subst hq
    rw [set_proc_self]
    exact hP
  · rw [set_proc_of_ne _ _ _ hq]
    exact (hi.proc q).mono hclock fun t ht => ⟨t, ht, le_refl t⟩

theorem enter_step (hi : FleetInvariant cfg f) (hclock : f.clock ≤ now)
    (hlock : (f.proc p).lock = none) :
    FleetInvariant cfg (f.set now p ((f.proc p).refresh f.repository.get id)) :=
  hi.set hclock ((refresh_invariant (hi.proc p) hi.repository hlock).mono hclock
    fun t ht => ⟨t, ht, le_refl t⟩)

/-- A save brings the store up to every snapshot that any process caches. -/
theorem persist_step (hi : FleetInvariant cfg f) (hclock : f.clock ≤ now)
    (hr : (f.proc p).resume cfg.breaker = some Q) :
    FleetInvariant cfg { f.set now p Q with
      repository := Repository.save (f.proc p).service.snapshot now f.closings } := by
  have hall : ∀ q, ProcessInvariant cfg.breaker now (some now) (f.proc q) := fun q =>
    ⟨(hi.proc q).opened, fun o ho => ((hi.proc q).past o ho).trans hclock,
      fun _ _ o ho => ⟨now, rfl, ((hi.proc q).past o ho).trans hclock⟩, (hi.proc q).slots⟩
  refine ⟨⟨?_, ?_, ?_⟩, fun q => ?_⟩
  · rintro sv hsv
    obtain rfl := Option.some.inj hsv
    exact (hi.proc p).opened
  · rintro sv hsv
    obtain rfl := Option.some.inj hsv
    exact ⟨(hall p).past, le_refl now⟩
  · intro he
    simp [Repository.save] at he
  · by_cases hq : q = p
    · subst hq
      show ProcessInvariant cfg.breaker now (some now) ((f.set now q Q).proc q)
      rw [set_proc_self]
      have hsaved := fun (_ : (f.proc q).alive) o ho =>
        (⟨now, rfl, (hall q).past o ho⟩ : ∃ t ∈ some now, o ≤ t)
      rcases resume_cases hr with ⟨j, _, rfl⟩ | ⟨_, rfl⟩
      · exact startIfAdmitted_invariant (hall q) hsaved
      · exact ⟨(hall q).opened, (hall q).past, fun hal _ => hsaved hal, (hall q).slots⟩
    · show ProcessInvariant cfg.breaker now (some now) ((f.set now p Q).proc q)
      rw [set_proc_of_ne _ _ _ hq]
      exact hall q

theorem fleetInvariant_step (hu : Usable cfg) (hi : FleetInvariant cfg f)
    (hok : SlotsKept cfg as f a) (hstep : next cfg f a = some g) : FleetInvariant cfg g := by
  have hm := hu.halfOpenMaxCalls
  rcases next_cases hstep with ⟨now, p, id, rfl, hc, _, hl, _, rfl⟩ |
      ⟨now, p, id, rfl, hc, _, hl, rfl⟩ | ⟨now, p, Q, rfl, hc, _, hr, rfl⟩ |
      ⟨now, p, id, rfl, hc, _, _, hid, rfl⟩ | ⟨now, p, id, rfl, hc, _, _, hid, rfl⟩ |
      ⟨now, p, rfl, hc, rfl⟩ | ⟨now, sv, ttl, rfl, hc, hsv, httl, hle, rfl⟩
  · exact enter_step hi hc hl
  · refine hi.set hc ?_
    rw [hu.synchronised]
    exact check_invariant hm ((hi.proc p).mono hc fun t ht => ⟨t, ht, le_refl t⟩) hl
  · exact persist_step hi hc hr
  · have hset := hi.set (p := p) hc (succeed_invariant hm
      ((hi.proc p).mono hc fun t ht => ⟨t, ht, le_refl t⟩) hid hok)
    exact ⟨hset.repository, hset.proc⟩
  · refine hi.set hc ?_
    rw [hu.synchronised]
    exact fail_invariant hm (hi.proc p) hc hid hok
  · exact hi.set hc (stop_invariant ((hi.proc p).mono hc fun t ht => ⟨t, ht, le_refl t⟩))
  · refine ⟨⟨hi.repository.opened, (hi.repository.mono hc).past, fun _ => ?_⟩, fun q => ?_⟩
    · exact ⟨sv, hsv, ttl, httl, hle⟩
    · exact (hi.proc q).mono hc fun t ht => ⟨t, ht, le_refl t⟩

theorem reachable_fleetInvariant (hu : Usable cfg)
    (h : Trace (fleet cfg name) (SlotsKept cfg) as f) : FleetInvariant cfg f := by
  refine Trace.induct (M := fleet cfg name) (I := fun _ f => FleetInvariant cfg f) ?_ ?_ as f h
  · rintro f ⟨hrep, _, hinit⟩
    have hm := hu.halfOpenMaxCalls
    refine ⟨⟨?_, ?_, ?_⟩, fun p => ?_⟩
    · simp [hrep]
    · simp [hrep]
    · simp [hrep]
    · rw [hinit p]
      refine ⟨fun h => ?_, fun o ho => ?_, fun _ _ o ho => ?_, fun _ => ?_⟩
      · simp [CircuitBreakerService.init] at h
      · simp [CircuitBreakerService.init] at ho
      · simp [CircuitBreakerService.init] at ho
      · simp only [CircuitBreakerService.init, List.length_nil, Nat.cast_zero, zero_add]
        omega
  · intro _ f a g _ hi hok hstep
    exact fleetInvariant_step hu hi hok hstep

/-- Once the window of the stored snapshot has passed, so has that of the snapshot which an
idle process goes by. -/
theorem refresh_window_passed (hu : Usable cfg) (hi : FleetInvariant cfg f)
    (hclock : f.clock ≤ now) (hal : (f.proc p).alive) (hlock : (f.proc p).lock = none)
    (hwin : ∀ snap ∈ f.repository.get, ∀ o ∈ snap.openedAt,
      cfg.breaker.recoveryTimeoutSeconds ≤ now - o) :
    ∀ o ∈ ((f.proc p).refresh f.repository.get id).service.snapshot.openedAt,
      cfg.breaker.recoveryTimeoutSeconds ≤ now - o := by
  cases hg : f.repository.get with
  | some snap => exact hwin snap hg
  | none =>
    intro o ho
    obtain ⟨t, ht, hot⟩ := (hi.proc p).saved hal (Or.inl hlock) o ho
    obtain ⟨sv, hsv, rfl⟩ := Option.map_eq_some_iff.mp ht
    -- the store answered nothing although a snapshot was saved, so it has expired
    have hexp : f.repository.expired = true := by
      by_contra hne
      simp [Repository.get, hne, hsv] at hg
    obtain ⟨sv', hsv', ttl, httl, hle⟩ := hi.repository.expired hexp
    obtain rfl : sv = sv' := Option.some.inj (hsv.symm.trans hsv')
    have := hu.ttlSeconds ttl httl
    linarith

theorem startIfAdmitted_starts (hfree : P.service.halfOpenInFlight < c.halfOpenMaxCalls) :
    id ∈ (P.startIfAdmitted c id).running := by
  rcases startIfAdmitted_cases c id P with ⟨he, _⟩ | ⟨he, _, _⟩ | ⟨_, _, hle⟩
  · rw [he]
    exact List.mem_cons_self
  · rw [he]
    exact List.mem_cons_self
  · omega

/-- The end of the `save` that left OPEN starts the handler in a free slot. -/
theorem persist_admits (hclock : f.clock ≤ now) (hal : (f.proc p).alive)
    (hlock : (f.proc p).lock = some (.admitting id))
    (hfree : (f.proc p).service.halfOpenInFlight < cfg.breaker.halfOpenMaxCalls) :
    ∃ h, next cfg f (.persist now p) = some h ∧ id ∈ (h.proc p).running := by
  have hr : (f.proc p).resume cfg.breaker =
      some ((f.proc p).startIfAdmitted cfg.breaker id) := by
    simp [Process.resume, hlock]
  have hstep : next cfg f (.persist now p) =
      some { f.set now p ((f.proc p).startIfAdmitted cfg.breaker id) with
        repository := Repository.save (f.proc p).service.snapshot now f.closings } := by
    simp [next, hclock, hal, hr]
  refine ⟨_, hstep, ?_⟩
  simpa using startIfAdmitted_starts hfree

/-- A clock check after the window starts the handler, or goes on to the `save` that does. -/
theorem check_admits (hu : Usable cfg) (hclock : f.clock ≤ now) (hal : (f.proc p).alive)
    (hlock : (f.proc p).lock = some (.checking id))
    (hopened : (f.proc p).service.snapshot.state = .opened →
      ∃ o, (f.proc p).service.snapshot.openedAt = some o)
    (hwin : ∀ o ∈ (f.proc p).service.snapshot.openedAt,
      cfg.breaker.recoveryTimeoutSeconds ≤ now - o)
    (hfree : (f.proc p).service.halfOpenInFlight < cfg.breaker.halfOpenMaxCalls) :
    ∃ g, next cfg f (.check now p) = some g ∧
      (id ∈ (g.proc p).running ∨ ∀ now₂, now ≤ now₂ →
        ∃ h, next cfg g (.persist now₂ p) = some h ∧ id ∈ (h.proc p).running) := by
  have hm := hu.halfOpenMaxCalls
  have hstep : next cfg f (.check now p) =
      some (f.set now p ((f.proc p).check cfg.breaker now id)) := by
    simp [next, hlock, hclock, hal, hu.synchronised]
  refine ⟨_, hstep, ?_⟩
  rcases check_cases cfg.breaker now id (f.proc p) with ⟨_, hs, hlt⟩ | ⟨he, _⟩ | ⟨o, _, _, _, he⟩
  · obtain ⟨o, ho⟩ := hopened hs
    exact absurd (hlt o ho) (not_lt.mpr (hwin o ho))
  · left
    rw [set_proc_self, he]
    exact startIfAdmitted_starts hfree
  · right
    intro now₂ hnow₂
    refine persist_admits (f := f.set now p _) hnow₂ ?_ ?_ ?_ <;> rw [set_proc_self, he]
    · exact hal
    · show (0 : ℤ) < cfg.breaker.halfOpenMaxCalls
      omega

theorem idle_admitted (hu : Usable cfg) (hi : FleetInvariant cfg f) : NoLockOut cfg f := by
  intro hidle now p id hclock hal hwin
  obtain ⟨hlock, hrun⟩ := hidle p hal
  have hfree : (f.proc p).service.halfOpenInFlight < cfg.breaker.halfOpenMaxCalls := by
    have := (hi.proc p).slots hal
    simpa [hrun] using this
  have hg : FleetInvariant cfg (f.set now p ((f.proc p).refresh f.repository.get id)) :=
    enter_step hi hclock hlock
  refine ⟨f.set now p ((f.proc p).refresh f.repository.get id),
    by simp [next, hclock, hal, hlock, hrun], fun now₁ hnow₁ => ?_⟩
  refine check_admits hu hnow₁ ?_ ?_ (hg.proc p).opened ?_ ?_ <;> rw [set_proc_self]
  · exact hal
  · rfl
  · intro o ho
    have := refresh_window_passed hu hi hclock hal hlock hwin o ho
    linarith
  · unfold Process.refresh CircuitBreakerService.refresh
    split <;> exact hfree

/-- With one clock, a slot to give, a time to live above the window and no lost slot, no
live process is locked out. -/
theorem no_lockout (hu : Usable cfg) (h : Trace (fleet cfg name) (SlotsKept cfg) as f) :
    NoLockOut cfg f :=
  idle_admitted hu (reachable_fleetInvariant hu h)

/-- One failure trips for ten seconds. -/
def tenSeconds : FleetConfig where
  breaker := { failureThreshold := 1, recoveryTimeoutSeconds := 10 }

/-- Process 1 tripped the breaker at 0, probed it at 10 and stopped; process 0 may call. -/
theorem no_lockout_after_stop :
    ∃ f, Trace (fleet tenSeconds "db") (SlotsKept tenSeconds)
        [.enter 0 1 0, .check 0 1, .fail 0 1 0, .persist 0 1, .enter 10 1 1, .check 10 1,
          .persist 10 1, .stop 11 1] f ∧
      f.repository.get.map CircuitBreakerSnapshot.state = some .halfOpen ∧
      NoLockOut tenSeconds f := by
  have h : (replay (fleet tenSeconds "db") (SlotsKept tenSeconds) []
      [.enter 0 1 0, .check 0 1, .fail 0 1 0, .persist 0 1, .enter 10 1 1, .check 10 1,
        .persist 10 1, .stop 11 1] (Fleet.init "db")).map
      (fun f => f.repository.get.map CircuitBreakerSnapshot.state) =
      some (some .halfOpen) := by decide +kernel
  obtain ⟨f, hrun, hstate⟩ := Option.map_eq_some_iff.mp h
  have ht := trace_of_replay (init_fleet tenSeconds "db") hrun
  exact ⟨f, ht, hstate, no_lockout ⟨fun _ _ => rfl, by decide, by simp [tenSeconds]⟩ ht⟩

/-- Process 0 probes at 10 and succeeds at 13, after it has cached the OPEN snapshot of
process 1's trip, and so keeps its slot taken. When process 1 begins a HALF_OPEN period
at 21 and stops, process 0 rejects its own calls ever after. -/
def leakingRun : List Act :=
  [.enter 0 0 0, .check 0 0, .fail 0 0 0, .persist 0 0,
    .enter 10 0 1, .check 10 0, .persist 10 0, .enter 10 1 0, .check 10 1,
    .fail 11 1 0, .persist 11 1, .enter 12 0 2, .check 12 0, .succeed 13 0 1, .persist 13 0,
    .enter 21 1 1, .check 21 1, .persist 21 1, .stop 22 1]

theorem leaked_slot_locks_out :
    ¬ ∀ (cfg : FleetConfig) (name : String) (as : List Act) (f : Fleet), Usable cfg →
      Trace (fleet cfg name) free as f → NoLockOut cfg f := by
  intro hclaim
  have h : (replay (fleet tenSeconds "db") free [] leakingRun (Fleet.init "db")).map (fun f =>
      decide ((f.proc 0).alive ∧ (f.proc 0).lock = none ∧ (f.proc 0).running = [] ∧
        (f.proc 1).alive = false ∧ f.clock = 22 ∧
        f.repository.get.map CircuitBreakerSnapshot.openedAt = some (some 11) ∧
        ((next tenSeconds f (.enter 100 0 3)).bind fun g =>
          (next tenSeconds g (.check 100 0)).map fun h =>
            decide ((h.proc 0).running = [] ∧ (next tenSeconds h (.persist 100 0)).isNone)) =
          some true)) = some true := by decide +kernel
  obtain ⟨f, hrun, h⟩ := Option.map_eq_some_iff.mp h
  obtain ⟨hal, hlock, hidle, hdead, hclock, hopened, h⟩ := of_decide_eq_true h
  obtain ⟨g, henter, h⟩ := Option.bind_eq_some_iff.mp h
  obtain ⟨g₁, hcheck, h⟩ := Option.map_eq_some_iff.mp h
  obtain ⟨hrejected, hfree⟩ := of_decide_eq_true h
  have hpath := replay_path hrun
  have hall : ∀ p, (f.proc p).alive → (f.proc p).lock = none ∧ (f.proc p).running = [] := by
    intro p hp
    by_cases h0 : p = 0
    · subst h0
      exact ⟨hlock, hidle⟩
    by_cases h1 : p = 1
    · subst h1
      simp [hdead] at hp
    rw [proc_of_path (p := p) hpath (by simp [leakingRun, Act.process, Ne.symm h0, Ne.symm h1])]
    exact ⟨rfl, rfl⟩
  obtain ⟨g', henter', hadm⟩ := hclaim tenSeconds "db" _ f
    ⟨fun _ _ => rfl, by decide, by simp [tenSeconds]⟩ (trace_of_replay (init_fleet _ _) hrun)
    hall 100 0 3 (by rw [hclock]; decide +kernel) hal (by
      intro snap hsnap o ho
      rw [Option.mem_def.mp hsnap] at hopened
      obtain rfl : o = 11 := by simpa [Option.mem_def.mp ho] using hopened
      decide +kernel)
  obtain rfl := Option.some.inj (henter.symm.trans henter')
  obtain ⟨g₁', hcheck', hstart⟩ := hadm 100 (le_refl _)
  obtain rfl := Option.some.inj (hcheck.symm.trans hcheck')
  rcases hstart with hstart | hstart
  · simp [hrejected] at hstart
  · obtain ⟨x, hx, _⟩ := hstart 100 (le_refl _)
    simp [hx] at hfree

end Taas.FleetLockout
