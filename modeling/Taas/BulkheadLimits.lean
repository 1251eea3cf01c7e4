import Mathlib.Algebra.Order.BigOperators.Group.Finset
import Taas.Bulkhead

/-!
The limits of the bulkhead. Every slot is free, granted to a waiting caller or held by a
running handler, and `_waiters` counts the calls between the check and the `finally`
block. The lock is never held at a suspension, so no call is ever suspended at it and
nothing can interrupt the block that takes a caller off the count.
-/
namespace Taas.BulkheadLimits

open Asyncio Transition Bulkhead

variable {n : ℕ}

def count (p : Position → Bool) (w : World n) : ℕ := ∑ c, if p (w.call c).position then 1 else 0

def isRunning (p : Position) : Bool := p = .running

def isWaiting (p : Position) : Bool := p = .waiting

def isCounted (p : Position) : Bool := p = .waiting ∨ p = .timingOut

/-- The bulkhead contract of a state. -/
structure Limits (cfg : BulkheadConfig) (w : World n) : Prop where
  concurrent : count isRunning w ≤ cfg.maxConcurrent
  waiting : ∀ m, cfg.maxWaiters = some m → count isWaiting w ≤ m.toNat
  rejected : ∀ c, (w.call c).position = .ended .rejected →
    (w.call c).lockedOnArrival ∨ (w.call c).timedOut
  idle : (∀ c, (w.call c).position = .ready ∨ ∃ o, (w.call c).position = .ended o) →
    inFlight cfg w.service = 0 ∧ w.service.waiters = 0

/-- Where the slots and the waiting callers are. -/
structure Accounted (cfg : BulkheadConfig) (w : World n) : Prop where
  unlocked : w.service.waitersLock = false
  pastLock : ∀ c, (w.call c).position ≠ .entering ∧ ∀ exit, (w.call c).position ≠ .leaving exit
  slots : w.service.semaphore.slots + count isRunning w = cfg.maxConcurrent
  nodup : w.service.semaphore.callers.Nodup
  queued : ∀ c, c ∈ w.service.semaphore.callers ↔ (w.call c).position = .waiting
  waiters : w.service.waiters = count isCounted w
  limit : ∀ m, cfg.maxWaiters = some m → count isWaiting w ≤ m.toNat
  rejected : ∀ c, (w.call c).position = .ended .rejected →
    (w.call c).lockedOnArrival ∨ (w.call c).timedOut

def indicator (p : Position → Bool) (q : Position) : ℕ := if p q then 1 else 0

variable {cfg : BulkheadConfig} {w w' : World n} {a : Act n} {b : BulkheadService n}
variable {c : Fin n} {x : Call} {p : Position → Bool}

theorem count_set (p : Position → Bool) (w : World n) (b : BulkheadService n) (c : Fin n)
    (x : Call) :
    count p (w.set b c x) + indicator p (w.call c).position = count p w + indicator p x.position :=
  sum_update w.call c x fun y => indicator p y.position

theorem count_waiting_le (w : World n) : count isWaiting w ≤ count isCounted w := by
  apply Finset.sum_le_sum
  intro c _
  by_cases hc : (w.call c).position = .waiting
  · simp [isWaiting, isCounted, hc]
  · simp [isWaiting, hc]

/-- What a step of one call has to keep. -/
theorem Accounted.set (hi : Accounted cfg w) (hlock : b.waitersLock = false)
    (hpast : x.position ≠ .entering ∧ ∀ exit, x.position ≠ .leaving exit)
    (hslots : b.semaphore.slots + indicator isRunning x.position =
      w.service.semaphore.slots + indicator isRunning (w.call c).position)
    (hnodup : b.semaphore.callers.Nodup)
    (hqueued : ∀ d, d ∈ b.semaphore.callers ↔
      if d = c then x.position = .waiting else d ∈ w.service.semaphore.callers)
    (hwaiters : b.waiters + indicator isCounted (w.call c).position =
      w.service.waiters + indicator isCounted x.position)
    (hlimit : x.position = .waiting → (w.call c).position = .waiting ∨
      ∀ m, cfg.maxWaiters = some m → w.service.waiters + 1 ≤ m)
    (hrejected : x.position = .ended .rejected → x.lockedOnArrival ∨ x.timedOut) :
    Accounted cfg (w.set b c x) := by
  refine ⟨hlock, fun d => ?_, ?_, hnodup, fun d => ?_, ?_, fun m hm => ?_, fun d hd => ?_⟩
  · by_cases hdc : d = c
    · subst hdc
      simpa [World.set] using hpast
    · simpa [World.set, hdc] using hi.pastLock d
  · have hcount := count_set isRunning w b c x
    have hold := hi.slots
    show b.semaphore.slots + _ = _
    omega
  · show d ∈ b.semaphore.callers ↔ _
    rw [hqueued d]
    by_cases hdc : d = c
    · subst hdc
      simp [World.set]
    · simpa [World.set, hdc] using hi.queued d
  · have hcount := count_set isCounted w b c x
    have hold := hi.waiters
    show b.waiters = _
    omega
  · have hcount := count_set isWaiting w b c x
    have hold := hi.limit m hm
    have hle := count_waiting_le w
    have hwait := hi.waiters
    by_cases hx : x.position = .waiting
    · rcases hlimit hx with hsame | hroom
      · simp only [indicator, isWaiting, hx, hsame] at hcount
        omega
      · have hnew := hroom m hm
        have hind : indicator isWaiting x.position ≤ 1 := by
          unfold indicator
          split <;> omega
        omega
    · have hzero : indicator isWaiting x.position = 0 := by simp [indicator, isWaiting, hx]
      omega
  · by_cases hdc : d = c
    · subst hdc
      simp only [World.set, Function.update_self] at hd ⊢
      exact hrejected hd
    · simp only [World.set, Function.update_of_ne hdc] at hd ⊢
      exact hi.rejected d hd

theorem Accounted.not_queued (hi : Accounted cfg w) (h : (w.call c).position ≠ .waiting) :
    c ∉ w.service.semaphore.callers :=
  fun hmem => h ((hi.queued c).mp hmem)

/-- A call that does not wait before or after its step leaves the queue as it is, and so does one
that waits on. -/
theorem Accounted.queued_same (hi : Accounted cfg w)
    (h : x.position = .waiting ↔ (w.call c).position = .waiting) (d : Fin n) :
    d ∈ w.service.semaphore.callers ↔
      if d = c then x.position = .waiting else d ∈ w.service.semaphore.callers := by
  by_cases hd : d = c
  · rw [if_pos hd, h, hd]
    exact hi.queued c
  · rw [if_neg hd]

/-- The `finally` block takes one caller off the count and keeps the slot of an admitted one. -/
theorem accounted_leave {exit : Exit} (hi : Accounted cfg w) (hlock : b.waitersLock = false)
    (hslots : b.semaphore.slots + (if exit = .admitted then 1 else 0) =
      w.service.semaphore.slots + indicator isRunning (w.call c).position)
    (hnodup : b.semaphore.callers.Nodup)
    (hqueued : ∀ d, d ∈ b.semaphore.callers ↔ d ≠ c ∧ d ∈ w.service.semaphore.callers)
    (hwaiters : b.waiters + indicator isCounted (w.call c).position = w.service.waiters + 1)
    (hexit : exit = .rejected → x.lockedOnArrival ∨ x.timedOut) :
    Accounted cfg (leave b c x exit w) := by
  have hleave : leave b c x exit w =
      w.set (critical (fun b => { b with waiters := b.waiters - 1 }) b) c
        { x with position := exit.position } := by
    simp [leave, hlock]
  rw [hleave]
  refine hi.set rfl ?_ ?_ hnodup (fun d => ?_) ?_ (fun h => ?_) (fun h => ?_)
  · cases exit <;> simp [Exit.position]
  · show b.semaphore.slots + _ = _
    rw [← hslots]
    cases exit <;> simp [Exit.position, indicator, isRunning]
  · show d ∈ b.semaphore.callers ↔ _
    rw [hqueued d]
    by_cases hd : d = c
    · cases exit <;> simp [hd, Exit.position]
    · simp [hd]
  · have hzero : indicator isCounted exit.position = 0 := by
      cases exit <;> simp [Exit.position, indicator, isCounted]
    show b.waiters - 1 + _ = _
    rw [hzero]
    push_cast
    omega
  · cases exit <;> simp [Exit.position] at h
  · cases exit with
    | rejected => exact hexit rfl
    | admitted => simp [Exit.position] at h
    | cancelled => simp [Exit.position] at h

theorem Accounted.left_queue (hi : Accounted cfg w) (h : (w.call c).position ≠ .waiting)
    (d : Fin n) :
    d ∈ w.service.semaphore.callers ↔ d ≠ c ∧ d ∈ w.service.semaphore.callers := by
  have hnot := hi.not_queued h
  constructor
  · intro hd
    exact ⟨fun heq => hnot (heq ▸ hd), hd⟩
  · exact And.right

/-- A counted call waits for a slot or takes a free one. -/
theorem accounted_wait (hi : Accounted cfg w) (hready : (w.call c).position = .ready)
    (hfull : full cfg w.service = false) :
    Accounted cfg (acquire.wait
      (critical (fun b => { b with waiters := b.waiters + 1 }) w.service) c x w) := by
  have hnot := hi.not_queued (c := c) (by simp [hready])
  have hold : indicator isRunning (w.call c).position = 0 := by
    simp [hready, indicator, isRunning]
  have holdc : indicator isCounted (w.call c).position = 0 := by
    simp [hready, indicator, isCounted]
  have hsame : (critical (fun b => { b with waiters := b.waiters + 1 })
      w.service).semaphore.locked = w.service.semaphore.locked := rfl
  unfold acquire.wait
  by_cases hlocked : w.service.semaphore.locked = true
  · obtain ⟨hslots, hcallers⟩ := Semaphore.enqueue_slots c w.service.semaphore
    rw [if_pos (hsame.trans hlocked)]
    refine hi.set rfl (by simp) ?_ ?_ (fun d => ?_) ?_ (fun _ => Or.inr fun m hm => ?_)
      (fun h => by simp at h)
    · rw [hold]
      show (w.service.semaphore.enqueue c).slots + _ = _
      simp [hslots, indicator, isRunning]
    · show (w.service.semaphore.enqueue c).callers.Nodup
      rw [hcallers, ← List.concat_eq_append]
      exact hi.nodup.concat hnot
    · show d ∈ (w.service.semaphore.enqueue c).callers ↔ _
      rw [hcallers, List.mem_append, List.mem_singleton]
      by_cases hd : d = c
      · simp [hd]
      · simp [hd]
    · rw [holdc]
      show w.service.waiters + 1 + _ = w.service.waiters + _
      simp [indicator, isCounted]
    · simp only [full, hm, Option.any_some, hlocked, Bool.and_true,
        decide_eq_false_iff_not] at hfull
      omega
  · have hfree : w.service.semaphore.locked = false := by simpa using hlocked
    have hslots := Semaphore.take_slots hfree
    rw [hsame, hfree, if_neg Bool.false_ne_true]
    refine accounted_leave hi rfl ?_ hi.nodup (hi.left_queue (by simp [hready])) ?_
      (fun h => by cases h)
    · rw [hold]
      exact hslots
    · rw [holdc]
      show w.service.waiters + 1 + _ = _
      simp

theorem accounted_acquire (hi : Accounted cfg w) (hready : (w.call c).position = .ready)
    (hfull : full cfg w.service = false) :
    Accounted cfg (acquire cfg (critical (fun b => { b with waiters := b.waiters + 1 }) w.service)
      c x w) := by
  unfold acquire
  split
  · exact accounted_wait hi hready hfull
  · split
    · refine hi.set rfl (by simp) ?_ hi.nodup (hi.queued_same (by simp [hready])) ?_
        (fun h => by simp at h) (fun h => by simp at h)
      · show w.service.semaphore.slots + _ = _
        simp [hready, indicator, isRunning]
      · show w.service.waiters + 1 + _ = w.service.waiters + _
        simp [hready, indicator, isCounted]
    · exact accounted_wait hi hready hfull

theorem accounted_arrive (hi : Accounted cfg w) (hready : (w.call c).position = .ready) :
    Accounted cfg (arrive cfg c w) := by
  unfold arrive
  simp only [hi.unlocked, Bool.false_eq_true, if_false]
  by_cases hfull : full cfg w.service = true
  · rw [if_pos hfull]
    refine hi.set rfl (by simp) ?_ hi.nodup (hi.queued_same (by simp [hready])) ?_
      (fun h => by simp at h) (fun _ => ?_)
    · show w.service.semaphore.slots + _ = _
      simp [hready, indicator, isRunning]
    · show w.service.waiters + _ = _
      simp [hready, indicator, isCounted]
    · simp only [full, Bool.and_eq_true] at hfull
      exact Or.inl hfull.2
  · rw [if_neg hfull]
    exact accounted_acquire hi hready (by simpa using hfull)

/-- An interrupted wait ends in a rejection only when its timeout has expired. -/
theorem timedOut_of_interruption (h : interruption x = .rejected) : x.timedOut := by
  unfold interruption at h
  split at h
  · rename_i hx
    exact hx.1
  · cases h

theorem interruption_ne_admitted (x : Call) : interruption x ≠ .admitted := by
  unfold interruption
  split <;> simp

theorem accounted_endWait (hi : Accounted cfg w) (hwaiting : (w.call c).position = .waiting)
    (hdone : w.service.semaphore.future c ≠ some .pending) : Accounted cfg (endWait c w) := by
  unfold endWait
  simp only
  generalize hint : (decide (w.service.semaphore.future c = some .cancelled ∨
    (w.call c).cancelRequested ∨ (w.call c).timedOut)) = interrupted
  obtain ⟨hslots, hcallers⟩ := Semaphore.resume_slots hi.nodup c interrupted
  have hold : indicator isRunning (w.call c).position = 0 := by
    simp [hwaiting, indicator, isRunning]
  -- a wait that nothing interrupted was granted its slot
  have hgranted : interrupted = false → w.service.semaphore.future c = some .granted := by
    intro hfalse
    obtain ⟨fut, hfut⟩ := Semaphore.exists_future ((hi.queued c).mpr hwaiting)
    rw [hfalse, decide_eq_false_iff_not, not_or] at hint
    cases fut with
    | pending => exact absurd hfut hdone
    | granted => exact hfut
    | cancelled => exact absurd hfut hint.1
  refine accounted_leave hi hi.unlocked ?_ ?_ (fun d => ?_) ?_ (fun h => ?_)
  · rw [hold]
    show (w.service.semaphore.resume c interrupted).slots + _ = _
    cases hb : interrupted with
    | false =>
      rw [hb] at hslots
      simp only [hgranted hb] at hslots
      simpa using hslots
    | true =>
      rw [hb] at hslots
      simpa [interruption_ne_admitted] using hslots
  · show (w.service.semaphore.resume c interrupted).callers.Nodup
    rw [hcallers]
    exact hi.nodup.filter _
  · show d ∈ (w.service.semaphore.resume c interrupted).callers ↔ _
    rw [hcallers, List.mem_filter]
    simp [and_comm]
  · show w.service.waiters + _ = _
    simp [hwaiting, indicator, isCounted]
  · cases hb : interrupted with
    | false => simp [hb] at h
    | true =>
      rw [hb, if_pos rfl] at h
      exact Or.inr (timedOut_of_interruption h)

/-- Steps of a waiting call that only touch its future and its flags. -/
theorem accounted_flag (hi : Accounted cfg w) (hsame : x.position = (w.call c).position)
    (hslots : b.semaphore.slots = w.service.semaphore.slots)
    (hcallers : b.semaphore.callers = w.service.semaphore.callers)
    (hlock : b.waitersLock = w.service.waitersLock) (hwaiters : b.waiters = w.service.waiters)
    (hended : x.position ≠ .ended .rejected) : Accounted cfg (w.set b c x) := by
  refine hi.set (hlock.trans hi.unlocked) ?_ ?_ ?_ (fun d => ?_) ?_ (fun h => ?_)
    (fun h => absurd h hended)
  · rw [hsame]
    exact hi.pastLock c
  · rw [hslots, hsame]
  · rw [hcallers]
    exact hi.nodup
  · rw [hcallers]
    exact hi.queued_same (by rw [hsame]) d
  · rw [hwaiters, hsame]
  · exact Or.inl (hsame.symm.trans h)

theorem accounted_cancel (hi : Accounted cfg w) (hstep : cancel c w = some w') :
    Accounted cfg w' := by
  simp only [cancel] at hstep
  cases hp : (w.call c).position with
  | ready =>
    rw [hp] at hstep
    obtain rfl := Option.some.inj hstep
    refine hi.set hi.unlocked (by simp) ?_ hi.nodup (hi.queued_same (by simp [hp])) ?_
      (fun h => by simp at h) (fun h => by simp at h)
    · simp [hp, indicator, isRunning]
    · simp [hp, indicator, isCounted]
  | entering => exact absurd hp (hi.pastLock c).1
  | leaving exit => exact absurd hp ((hi.pastLock c).2 exit)
  | waiting =>
    rw [hp] at hstep
    obtain rfl := Option.some.inj hstep
    obtain ⟨hslots, hcallers⟩ := Semaphore.cancel_slots c w.service.semaphore
    exact accounted_flag hi hp.symm hslots hcallers rfl rfl (by simp)
  | timingOut =>
    rw [hp] at hstep
    obtain rfl := Option.some.inj hstep
    exact accounted_flag hi hp.symm rfl rfl rfl rfl (by simp)
  | running =>
    rw [hp] at hstep
    obtain rfl := Option.some.inj hstep
    exact hi
  | ended o =>
    rw [hp] at hstep
    cases hstep

/-- A call whose wait was cut short leaves without a slot. -/
theorem accounted_interrupted (hi : Accounted cfg w) (hp : (w.call c).position = .timingOut) :
    Accounted cfg (leave w.service c (w.call c) (interruption (w.call c)) w) := by
  refine accounted_leave hi hi.unlocked ?_ hi.nodup (hi.left_queue (by simp [hp])) ?_
    (fun h => Or.inr (timedOut_of_interruption h))
  · simp [hp, indicator, isRunning, interruption_ne_admitted]
  · simp [hp, indicator, isCounted]

theorem accounted_resume (hi : Accounted cfg w) (hstep : resume cfg c w = some w') :
    Accounted cfg w' := by
  simp only [resume] at hstep
  cases hp : (w.call c).position with
  | entering => exact absurd hp (hi.pastLock c).1
  | leaving exit => exact absurd hp ((hi.pastLock c).2 exit)
  | waiting =>
    rw [hp] at hstep
    simp only [Option.ite_none_left_eq_some, Option.some.injEq] at hstep
    obtain ⟨hdone, rfl⟩ := hstep
    exact accounted_endWait hi hp hdone
  | timingOut =>
    rw [hp] at hstep
    obtain rfl := Option.some.inj hstep
    exact accounted_interrupted hi hp
  | ready =>
    rw [hp] at hstep
    cases hstep
  | running =>
    rw [hp] at hstep
    cases hstep
  | ended o =>
    rw [hp] at hstep
    cases hstep

theorem accounted_handlerEnds (hi : Accounted cfg w) (hstep : handlerEnds c w = some w') :
    Accounted cfg w' := by
  simp only [handlerEnds, Option.ite_none_right_eq_some, Option.some.injEq] at hstep
  obtain ⟨hp, rfl⟩ := hstep
  obtain ⟨hslots, hcallers⟩ := Semaphore.release_slots w.service.semaphore
  refine hi.set hi.unlocked (by simp) ?_ ?_ (fun d => ?_) ?_ (fun h => by simp at h)
    (fun h => by simp at h)
  · show w.service.semaphore.release.slots + _ = _
    simp [hslots, hp, indicator, isRunning]
  · show w.service.semaphore.release.callers.Nodup
    rw [hcallers]
    exact hi.nodup
  · show d ∈ w.service.semaphore.release.callers ↔ _
    rw [hcallers]
    exact hi.queued_same (by simp [hp]) d
  · simp [hp, indicator, isCounted]

theorem accounted_step (hi : Accounted cfg w) (hstep : next cfg w a = some w') :
    Accounted cfg w' := by
  cases a with
  | start c =>
    simp only [next, Option.ite_none_right_eq_some, Option.some.injEq] at hstep
    obtain ⟨hready, rfl⟩ := hstep
    exact accounted_arrive hi hready
  | cancel c => exact accounted_cancel hi hstep
  | expire c =>
    simp only [next, expire, Option.ite_none_right_eq_some, Option.some.injEq] at hstep
    obtain ⟨⟨hp, _⟩, rfl⟩ := hstep
    obtain ⟨hslots, hcallers⟩ := Semaphore.cancel_slots c w.service.semaphore
    exact accounted_flag hi rfl hslots hcallers rfl rfl (by simp [hp])
  | resume c => exact accounted_resume hi hstep
  | handlerEnds c => exact accounted_handlerEnds hi hstep

theorem accounted_init (n : ℕ) (cfg : BulkheadConfig) : Accounted cfg (World.init n cfg) := by
  refine ⟨rfl, fun c => ⟨?_, fun exit => ?_⟩, ?_, List.nodup_nil, fun c => ?_, ?_, fun m _ => ?_,
    fun c hc => ?_⟩
  · simp [World.init]
  · simp [World.init]
  · simp [World.init, BulkheadService.init, Semaphore.slots, grants, count, isRunning]
  · simp [World.init, BulkheadService.init, Semaphore.callers]
  · simp [World.init, BulkheadService.init, count, isCounted]
  · simp [World.init, count, isWaiting]
  · simp [World.init] at hc

theorem accounted_run {ok : Condition (World n) (Act n)} {as : List (Act n)}
    (h : Trace (calls n cfg) ok as w) : Accounted cfg w := by
  refine Trace.invariant (M := calls n cfg) ?_ (fun w a w' => accounted_step) h
  intro w hinit
  obtain rfl : w = World.init n cfg := hinit
  exact accounted_init n cfg

theorem count_eq_zero (h : ∀ c, p (w.call c).position = false) : count p w = 0 := by
  apply Finset.sum_eq_zero
  intro c _
  simp [h c]

/-- The bulkhead keeps its limits in every interleaving of any number of calls. -/
theorem bulkhead_limits {as : List (Act n)} (h : Trace (calls n cfg) free as w) :
    Limits cfg w := by
  have hi := accounted_run h
  refine ⟨?_, hi.limit, hi.rejected, fun hdone => ⟨?_, ?_⟩⟩
  · have := hi.slots
    omega
  · have hrunning : count isRunning w = 0 := by
      apply count_eq_zero
      intro c
      rcases hdone c with hp | ⟨o, hp⟩ <;> simp [isRunning, hp]
    have hempty : w.service.semaphore.waiters = [] := by
      apply List.map_eq_nil_iff.mp
      apply List.eq_nil_iff_forall_not_mem.mpr
      intro c hc
      have hp := (hi.queued c).mp hc
      rcases hdone c with hr | ⟨o, hr⟩ <;> simp [hr] at hp
    have hslots := hi.slots
    simp only [Semaphore.slots, hempty, grants, List.countP_nil, hrunning] at hslots
    simp only [inFlight]
    omega
  · rw [hi.waiters, count_eq_zero, Nat.cast_zero]
    intro c
    rcases hdone c with hp | ⟨o, hp⟩ <;> simp [isCounted, hp]

/-- The second call is granted the slot of the first while its wait times out, and the third
is rejected since one call is waiting. -/
theorem bulkhead_limits_grant_and_timeout :
    let cfg : BulkheadConfig :=
      { maxConcurrent := 1, maxWaiters := some 1, acquireTimeoutSeconds := some 5 }
    let as : List (Act 3) :=
      [.start 0, .start 1, .start 2, .handlerEnds 0, .expire 1, .resume 1]
    ∃ w, Trace (calls 3 cfg) free as w ∧ (w.call 1).position = .ended .rejected ∧
      inFlight cfg w.service = 0 ∧ Limits cfg w := by
  intro cfg as
  have h : (replay (calls 3 cfg) free [] as (World.init 3 cfg)).map
      (fun w => ((w.call 1).position, inFlight cfg w.service)) = some (.ended .rejected, 0) := by
    decide +kernel
  obtain ⟨w, hrun, hw⟩ := Option.map_eq_some_iff.mp h
  have ht := trace_of_replay (M := calls 3 cfg) rfl hrun
  simp only [Prod.mk.injEq] at hw
  exact ⟨w, ht, hw.1, hw.2, bulkhead_limits ht⟩

end Taas.BulkheadLimits
