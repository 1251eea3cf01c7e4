import Taas.Bulkhead
import Taas.CircuitBreaker

/-!
`ResilientExecutor.call` with a breaker, a bulkhead and a timeout: every call enters the
breaker, then the bulkhead, then the wrapped function under its timeout, and whatever leaves
the bulkhead by an exception is a failure of the breaker. A fallback runs behind the breaker
and does not touch it. The breaker's handlers run under its lock; with a repository they
suspend in `get` and `save`, and other processes save snapshots of their own.
-/
namespace Taas.Executor

open CircuitBreaker CircuitBreakerService Transition

variable {n : ℕ}

structure ExecutorConfig where
  name : String
  breaker : CircuitBreakerConfig := {}
  bulkhead : Bulkhead.BulkheadConfig := {}
  /-- A `cb_repository` is configured. -/
  shared : Bool := false

/-- What the guarded handler of the breaker ended with. -/
inductive Escape
  | raised
  | timedOut
  | rejected
  | cancelled
  deriving DecidableEq

/-- What a call does under the breaker's lock. -/
inductive Task
  | beforeCall
  | onSuccess
  | onFailure
  deriving DecidableEq

/-- Where the task of a call is suspended. -/
inductive Stage
  | ready
  /-- At the breaker's lock. -/
  | locking (task : Task)
  /-- In `get`, holding the lock. -/
  | refreshing
  /-- In the `save` of `_before_call`, holding the lock. -/
  | admitting
  /-- In the bulkhead. -/
  | guarded
  /-- In the `save` of `_on_success` or `_on_failure`, holding the lock. -/
  | saving
  | done
  deriving DecidableEq

structure Call where
  stage : Stage := .ready
  /-- The caller was cancelled while the wrapped function ran. -/
  cancelRequested : Bool := false
  deriving DecidableEq

structure World (n : ℕ) where
  service : CircuitBreakerService
  lock : Bool := false
  stored : Option CircuitBreakerSnapshot := none
  bulkhead : Bulkhead.World n
  call : Fin n → Call
  /-- Ghost: the exceptions that left the bulkhead. -/
  escapes : List Escape := []
  deriving DecidableEq

inductive Act (n : ℕ)
  | start (now : ℚ) (c : Fin n)
  | resume (now : ℚ) (c : Fin n)
  | expire (c : Fin n)
  | handlerReturns (now : ℚ) (c : Fin n)
  | handlerFails (now : ℚ) (c : Fin n) (escape : Escape)
  | cancel (c : Fin n)
  | repositoryFails (c : Fin n)
  | peer (stored : Option CircuitBreakerSnapshot)
  deriving DecidableEq

def World.stage (w : World n) (c : Fin n) (stage : Stage) : World n :=
  { w with call := Function.update w.call c { w.call c with stage := stage } }

/-- The end of an exit handler: its `save`, when there is a repository. -/
def persist (cfg : ExecutorConfig) (c : Fin n) (w : World n) : World n :=
  if cfg.shared then { w.stage c .saving with lock := true } else w.stage c .done

/-- `_on_success` or `_on_failure` under the lock. -/
def leave (cfg : ExecutorConfig) (now : ℚ) (c : Fin n) (success : Bool) (w : World n) : World n :=
  persist cfg c
    { w with service :=
        if success then w.service.onSuccess cfg.breaker else w.service.onFailure cfg.breaker now }

/-- The exit handler of `call`: any exception is a failure. -/
def exitTask : Option Escape → Task
  | none => .onSuccess
  | some _ => .onFailure

/-- The guarded handler has ended, and the breaker's exit handler takes the lock. -/
def exit (cfg : ExecutorConfig) (now : ℚ) (c : Fin n) (escape : Option Escape) (w : World n) :
    World n :=
  let w := { w with escapes := escape.toList ++ w.escapes }
  if w.lock then w.stage c (.locking (exitTask escape)) else leave cfg now c escape.isNone w

/-- How a call left the bulkhead before its handler began. -/
def refused (b : Bulkhead.World n) (c : Fin n) : Option Escape :=
  match (b.call c).position with
  | .ended .rejected => some .rejected
  | .ended .cancelled => some .cancelled
  | _ => none

/-- After a step of the call in the bulkhead: an exception goes to the breaker. -/
def settle (cfg : ExecutorConfig) (now : ℚ) (c : Fin n) (b : Bulkhead.World n) (w : World n) :
    World n :=
  let w := { w with bulkhead := b }
  match refused b c with
  | some escape => exit cfg now c (some escape) w
  | none => w.stage c .guarded

/-- The HALF_OPEN branch of `_before_call` and, when it does not raise, the bulkhead. -/
def admitCall (cfg : ExecutorConfig) (now : ℚ) (c : Fin n) (w : World n) : World n :=
  match w.service.takeSlot cfg.breaker with
  | (b, .error _) => { w.stage c .done with service := b, lock := false }
  | (b, .ok _) =>
    settle cfg now c (Bulkhead.arrive cfg.bulkhead c w.bulkhead)
      { w with service := b, lock := false }

/-- `_before_call` after its refresh. -/
def check (cfg : ExecutorConfig) (now : ℚ) (c : Fin n) (w : World n) : World n :=
  match w.service.checkOpen cfg.breaker now with
  | .error _ => { w.stage c .done with lock := false }
  | .ok (b, toPersist) =>
    if toPersist && cfg.shared then
      { w.stage c .admitting with service := b, lock := true }
    else admitCall cfg now c { w with service := b }

/-- `_before_call` under the lock. -/
def before (cfg : ExecutorConfig) (now : ℚ) (c : Fin n) (w : World n) : World n :=
  if cfg.shared then { w.stage c .refreshing with lock := true } else check cfg now c w

def runTask (cfg : ExecutorConfig) (now : ℚ) (c : Fin n) (w : World n) : Task → World n
  | .beforeCall => before cfg now c w
  | .onSuccess => leave cfg now c true w
  | .onFailure => leave cfg now c false w

def resume (cfg : ExecutorConfig) (now : ℚ) (c : Fin n) (w : World n) : Option (World n) :=
  match (w.call c).stage with
  | .locking task => if w.lock then none else some (runTask cfg now c w task)
  | .refreshing => some (check cfg now c { w with service := w.service.refresh w.stored })
  | .admitting => some (admitCall cfg now c { w with stored := some w.service.snapshot })
  | .saving => some { w.stage c .done with stored := some w.service.snapshot, lock := false }
  | .guarded => (Bulkhead.resume cfg.bulkhead c w.bulkhead).map fun b => settle cfg now c b w
  | .ready | .done => none

/-- `Task.cancel`: the call ends where it is suspended, or its wait in the bulkhead or its
function gets the `CancelledError`. -/
def cancel (c : Fin n) (w : World n) : Option (World n) :=
  match (w.call c).stage with
  | .ready | .locking _ => some (w.stage c .done)
  | .refreshing | .admitting | .saving => some { w.stage c .done with lock := false }
  | .guarded =>
    if (w.bulkhead.call c).position = .running then
      some { w with call := Function.update w.call c { w.call c with cancelRequested := true } }
    else (Bulkhead.cancel c w.bulkhead).map fun b => { w with bulkhead := b }
  | .done => none

/-- The wrapped function ends under its timeout, and the bulkhead releases its slot. -/
def handlerEnds (cfg : ExecutorConfig) (now : ℚ) (c : Fin n) (escape : Option Escape)
    (w : World n) : Option (World n) :=
  if (w.call c).stage = .guarded then
    (Bulkhead.handlerEnds c w.bulkhead).map fun b => exit cfg now c escape { w with bulkhead := b }
  else none

def next (cfg : ExecutorConfig) (w : World n) : Act n → Option (World n)
  | .start now c =>
    if (w.call c).stage = .ready then
      some (if w.lock then w.stage c (.locking .beforeCall) else before cfg now c w)
    else none
  | .resume now c => resume cfg now c w
  | .expire c =>
    if (w.call c).stage = .guarded then
      (Bulkhead.expire cfg.bulkhead c w.bulkhead).map fun b => { w with bulkhead := b }
    else none
  | .handlerReturns now c => handlerEnds cfg now c none w
  | .handlerFails now c escape => handlerEnds cfg now c (some escape) w
  | .cancel c => cancel c w
  | .repositoryFails c =>
    match (w.call c).stage with
    | .refreshing | .admitting | .saving => some { w.stage c .done with lock := false }
    | _ => none
  | .peer stored => if cfg.shared then some { w with stored := stored } else none

def World.init (n : ℕ) (cfg : ExecutorConfig) : World n where
  service := CircuitBreakerService.init cfg.name
  bulkhead := Bulkhead.World.init n cfg.bulkhead
  call := fun _ => {}

/-- All interleavings of `n` concurrent calls of one executor. -/
def executor (n : ℕ) (cfg : ExecutorConfig) : System (World n) (Act n) where
  init w := w = World.init n cfg
  next := next cfg

/-- The breaker has seen no failure. -/
def Healthy (snap : CircuitBreakerSnapshot) : Prop := snap.state = .closed ∧ snap.failureCount = 0

instance (snap : CircuitBreakerSnapshot) : Decidable (Healthy snap) := by
  unfold Healthy
  infer_instance

/-- The wrapped function never raises and never exceeds its timeout, unless its caller is
cancelled, and other processes save healthy snapshots. -/
def DependencyHealthy : Condition (World n) (Act n) := fun _ w a =>
  match a with
  | .handlerFails _ c escape => escape = .cancelled ∧ (w.call c).cancelRequested
  | .peer stored => ∀ snap ∈ stored, Healthy snap
  | _ => True

instance (as : List (Act n)) (w : World n) (a : Act n) : Decidable (DependencyHealthy as w a) :=
  match a with
  | .start _ _ | .resume _ _ | .expire _ | .handlerReturns _ _ | .handlerFails _ _ _ | .cancel _
  | .repositoryFails _ | .peer _ => by unfold DependencyHealthy; infer_instance

/-- The breaker is healthy here and in the repository, and no call is about to fail it. -/
structure Calm (w : World n) : Prop where
  service : Healthy w.service.snapshot
  stored : ∀ snap ∈ w.stored, Healthy snap
  stages : ∀ c, (w.call c).stage ≠ .locking .onFailure

variable {cfg : ExecutorConfig} {w w' : World n} {a : Act n} {c : Fin n} {now : ℚ}
variable {escape : Option Escape} {st : Stage} {b : Bulkhead.World n}

theorem onSuccess_healthy {b : CircuitBreakerService} (h : Healthy b.snapshot) :
    b.onSuccess cfg.breaker = b := by
  simp [onSuccess, h.1, h.2]

theorem onFailure_not_healthy {b : CircuitBreakerService} (h : Healthy b.snapshot) :
    ¬ Healthy (b.onFailure cfg.breaker now).snapshot := by
  rcases onFailure_cases cfg.breaker now b with ⟨_, he⟩ | ⟨_, _, he⟩
  · rw [he]
    simp [Healthy, trip]
  · rw [he]
    simp [Healthy, h.2]

theorem checkOpen_healthy {b : CircuitBreakerService} (h : Healthy b.snapshot) :
    b.checkOpen cfg.breaker now = .ok (b, false) := by
  simp [checkOpen, h.1]

theorem takeSlot_healthy {b : CircuitBreakerService} (h : Healthy b.snapshot) :
    b.takeSlot cfg.breaker = (b, .ok ()) := by
  simp [takeSlot, h.1]

/-- A step that moves one call and leaves the breaker and the repository alone. -/
theorem Calm.ofStage (hi : Calm w) (hs : st ≠ .locking .onFailure)
    (hservice : w'.service = w.service) (hstored : w'.stored = w.stored)
    (hcall : w'.call = (w.stage c st).call) : Calm w' := by
  refine ⟨by rw [hservice]; exact hi.service, by rw [hstored]; exact hi.stored, fun d => ?_⟩
  rw [hcall]
  by_cases hd : d = c
  · subst hd
    simpa [World.stage] using hs
  · simpa [World.stage, hd] using hi.stages d

theorem calm_persist (hi : Calm w) : Calm (persist cfg c w) := by
  unfold persist
  split
  · exact hi.ofStage (by simp) rfl rfl rfl
  · exact hi.ofStage (by simp) rfl rfl rfl

theorem calm_leave (hi : Calm w) : Calm (leave cfg now c true w) := by
  have hsame : ({ w with service := w.service.onSuccess cfg.breaker } : World n) = w := by
    rw [onSuccess_healthy hi.service]
  show Calm (persist cfg c { w with service := w.service.onSuccess cfg.breaker })
  rw [hsame]
  exact calm_persist hi

theorem escapes_leave (success : Bool) : (leave cfg now c success w).escapes = w.escapes := by
  unfold leave persist
  split <;> rfl

theorem escapes_exit : (exit cfg now c escape w).escapes = escape.toList ++ w.escapes := by
  unfold exit
  simp only
  split
  · rfl
  · rw [escapes_leave]

/-- A call that leaves the bulkhead without an exception leaves the breaker calm. -/
theorem calm_exit (hi : Calm w) (hnone : (exit cfg now c escape w).escapes = []) :
    Calm (exit cfg now c escape w) := by
  rw [escapes_exit] at hnone
  cases escape with
  | some e => simp at hnone
  | none =>
    unfold exit
    simp only
    split
    · have hs : Stage.locking .onSuccess ≠ .locking .onFailure := by simp
      exact hi.ofStage (c := c) hs rfl rfl rfl
    · exact calm_leave ⟨hi.service, hi.stored, hi.stages⟩

theorem calm_settle (hi : Calm w) (hnone : (settle cfg now c b w).escapes = []) :
    Calm (settle cfg now c b w) := by
  have hb : Calm { w with bulkhead := b } := ⟨hi.service, hi.stored, hi.stages⟩
  unfold settle at hnone ⊢
  split
  · rename_i e he
    simp only [he] at hnone
    exact calm_exit hb hnone
  · exact hb.ofStage (c := c) (by simp) rfl rfl rfl

theorem calm_admitCall (hi : Calm w) (hnone : (admitCall cfg now c w).escapes = []) :
    Calm (admitCall cfg now c w) := by
  have hb : Calm { w with lock := false } := ⟨hi.service, hi.stored, hi.stages⟩
  unfold admitCall at hnone ⊢
  rw [takeSlot_healthy hi.service] at hnone ⊢
  exact calm_settle hb hnone

theorem calm_check (hi : Calm w) (hnone : (check cfg now c w).escapes = []) :
    Calm (check cfg now c w) := by
  unfold check at hnone ⊢
  rw [checkOpen_healthy hi.service] at hnone ⊢
  exact calm_admitCall hi hnone

theorem calm_before (hi : Calm w) (hnone : (before cfg now c w).escapes = []) :
    Calm (before cfg now c w) := by
  unfold before at hnone ⊢
  split
  · exact hi.ofStage (c := c) (by simp) rfl rfl rfl
  · rename_i hs
    simp only [hs] at hnone
    exact calm_check hi hnone

theorem calm_refresh (hi : Calm w) : Calm { w with service := w.service.refresh w.stored } := by
  refine ⟨?_, hi.stored, hi.stages⟩
  unfold refresh
  split
  · exact hi.service
  · rename_i snap hsnap
    exact hi.stored snap hsnap

theorem calm_resume (hi : Calm w) (hstep : resume cfg now c w = some w')
    (hnone : w'.escapes = []) : Calm w' := by
  unfold resume at hstep
  split at hstep
  · rename_i task htask
    simp only [Option.ite_none_left_eq_some, Option.some.injEq] at hstep
    obtain ⟨_, rfl⟩ := hstep
    cases task with
    | beforeCall => exact calm_before hi hnone
    | onSuccess => exact calm_leave hi
    | onFailure => exact absurd htask (hi.stages c)
  · obtain rfl := Option.some.inj hstep
    exact calm_check (calm_refresh hi) hnone
  · obtain rfl := Option.some.inj hstep
    refine calm_admitCall ⟨hi.service, fun snap hsnap => ?_, hi.stages⟩ hnone
    obtain rfl := Option.some.inj (Option.mem_def.mp hsnap)
    exact hi.service
  · obtain rfl := Option.some.inj hstep
    refine Calm.ofStage (w := { w with stored := some w.service.snapshot, lock := false }) (c := c)
      ⟨hi.service, fun snap hsnap => ?_, hi.stages⟩ (by simp) rfl rfl rfl
    obtain rfl := Option.some.inj (Option.mem_def.mp hsnap)
    exact hi.service
  · obtain ⟨b, _, rfl⟩ := Option.map_eq_some_iff.mp hstep
    exact calm_settle hi hnone
  · cases hstep
  · cases hstep

theorem suffix_settle : w.escapes <:+ (settle cfg now c b w).escapes := by
  unfold settle
  split
  · rw [escapes_exit]
    exact List.suffix_append _ _
  · exact List.suffix_rfl

theorem suffix_admitCall : w.escapes <:+ (admitCall cfg now c w).escapes := by
  unfold admitCall
  split
  · exact List.suffix_rfl
  · exact suffix_settle (w := { w with service := _, lock := false })

theorem suffix_check : w.escapes <:+ (check cfg now c w).escapes := by
  unfold check
  split
  · exact List.suffix_rfl
  · rename_i b toPersist _
    split
    · exact List.suffix_rfl
    · exact suffix_admitCall (w := { w with service := b })

theorem suffix_before : w.escapes <:+ (before cfg now c w).escapes := by
  unfold before
  split
  · exact List.suffix_rfl
  · exact suffix_check

theorem suffix_resume (hstep : resume cfg now c w = some w') : w.escapes <:+ w'.escapes := by
  unfold resume at hstep
  split at hstep
  · rename_i task _
    simp only [Option.ite_none_left_eq_some, Option.some.injEq] at hstep
    obtain ⟨_, rfl⟩ := hstep
    cases task with
    | beforeCall => exact suffix_before
    | onSuccess => exact (escapes_leave true).symm ▸ List.suffix_rfl
    | onFailure => exact (escapes_leave false).symm ▸ List.suffix_rfl
  · obtain rfl := Option.some.inj hstep
    exact suffix_check (w := { w with service := w.service.refresh w.stored })
  · obtain rfl := Option.some.inj hstep
    exact suffix_admitCall (w := { w with stored := some w.service.snapshot })
  · obtain rfl := Option.some.inj hstep
    exact List.suffix_rfl
  · obtain ⟨b, _, rfl⟩ := Option.map_eq_some_iff.mp hstep
    exact suffix_settle
  · cases hstep
  · cases hstep

theorem cancel_cases (hstep : cancel c w = some w') :
    w'.service = w.service ∧ w'.stored = w.stored ∧ w'.escapes = w.escapes ∧
      ∀ d, (w'.call d).stage = (w.call d).stage ∨ (w'.call d).stage = .done := by
  have hdone : ∀ d, ((w.stage c .done).call d).stage = (w.call d).stage ∨
      ((w.stage c .done).call d).stage = .done := by
    intro d
    by_cases hd : d = c
    · subst hd
      simp [World.stage]
    · simp [World.stage, hd]
  unfold cancel at hstep
  split at hstep
  · obtain rfl := Option.some.inj hstep
    exact ⟨rfl, rfl, rfl, hdone⟩
  · obtain rfl := Option.some.inj hstep
    exact ⟨rfl, rfl, rfl, hdone⟩
  · obtain rfl := Option.some.inj hstep
    exact ⟨rfl, rfl, rfl, hdone⟩
  · obtain rfl := Option.some.inj hstep
    exact ⟨rfl, rfl, rfl, hdone⟩
  · obtain rfl := Option.some.inj hstep
    exact ⟨rfl, rfl, rfl, hdone⟩
  · split at hstep
    · obtain rfl := Option.some.inj hstep
      refine ⟨rfl, rfl, rfl, fun d => Or.inl ?_⟩
      by_cases hd : d = c
      · subst hd
        simp
      · simp [hd]
    · obtain ⟨b, _, rfl⟩ := Option.map_eq_some_iff.mp hstep
      exact ⟨rfl, rfl, rfl, fun d => Or.inl rfl⟩
  · cases hstep

theorem calm_handlerEnds (hi : Calm w) (hstep : handlerEnds cfg now c escape w = some w')
    (hnone : w'.escapes = []) : Calm w' := by
  simp only [handlerEnds, Option.ite_none_right_eq_some, Option.map_eq_some_iff] at hstep
  obtain ⟨_, b, _, rfl⟩ := hstep
  exact calm_exit ⟨hi.service, hi.stored, hi.stages⟩ hnone

theorem suffix_handlerEnds (hstep : handlerEnds cfg now c escape w = some w') :
    w.escapes <:+ w'.escapes := by
  simp only [handlerEnds, Option.ite_none_right_eq_some, Option.map_eq_some_iff] at hstep
  obtain ⟨_, b, _, rfl⟩ := hstep
  rw [escapes_exit]
  exact List.suffix_append _ _

theorem repositoryFails_eq (hstep : next cfg w (.repositoryFails c) = some w') :
    w' = { w.stage c .done with lock := false } := by
  simp only [next] at hstep
  split at hstep
  · exact (Option.some.inj hstep).symm
  · exact (Option.some.inj hstep).symm
  · exact (Option.some.inj hstep).symm
  · cases hstep

theorem suffix_step (hstep : next cfg w a = some w') : w.escapes <:+ w'.escapes := by
  cases a with
  | start now c =>
    simp only [next, Option.ite_none_right_eq_some, Option.some.injEq] at hstep
    obtain ⟨_, rfl⟩ := hstep
    split
    · exact List.suffix_rfl
    · exact suffix_before
  | resume now c => exact suffix_resume hstep
  | expire c =>
    simp only [next, Option.ite_none_right_eq_some, Option.map_eq_some_iff] at hstep
    obtain ⟨_, b, _, rfl⟩ := hstep
    exact List.suffix_rfl
  | handlerReturns now c => exact suffix_handlerEnds hstep
  | handlerFails now c escape => exact suffix_handlerEnds hstep
  | cancel c =>
    exact (cancel_cases hstep).2.2.1 ▸ List.suffix_rfl
  | repositoryFails c =>
    obtain rfl := repositoryFails_eq hstep
    exact List.suffix_rfl
  | peer stored =>
    simp only [next, Option.ite_none_right_eq_some, Option.some.injEq] at hstep
    obtain ⟨_, rfl⟩ := hstep
    exact List.suffix_rfl

theorem calm_step {as : List (Act n)} (hi : Calm w) (hok : DependencyHealthy as w a)
    (hstep : next cfg w a = some w') (hnone : w'.escapes = []) : Calm w' := by
  cases a with
  | start now c =>
    simp only [next, Option.ite_none_right_eq_some, Option.some.injEq] at hstep
    obtain ⟨_, rfl⟩ := hstep
    split
    · exact hi.ofStage (c := c) (by simp) rfl rfl rfl
    · rename_i hlock
      simp only [hlock] at hnone
      exact calm_before hi hnone
  | resume now c => exact calm_resume hi hstep hnone
  | expire c =>
    simp only [next, Option.ite_none_right_eq_some, Option.map_eq_some_iff] at hstep
    obtain ⟨_, b, _, rfl⟩ := hstep
    exact ⟨hi.service, hi.stored, hi.stages⟩
  | handlerReturns now c => exact calm_handlerEnds hi hstep hnone
  | handlerFails now c escape => exact calm_handlerEnds hi hstep hnone
  | cancel c =>
    obtain ⟨hservice, hstored, _, hstage⟩ := cancel_cases hstep
    refine ⟨by rw [hservice]; exact hi.service, by rw [hstored]; exact hi.stored, fun d => ?_⟩
    rcases hstage d with h | h
    · rw [h]
      exact hi.stages d
    · simp [h]
  | repositoryFails c =>
    obtain rfl := repositoryFails_eq hstep
    exact hi.ofStage (c := c) (by simp) rfl rfl rfl
  | peer stored =>
    simp only [next, Option.ite_none_right_eq_some, Option.some.injEq] at hstep
    obtain ⟨_, rfl⟩ := hstep
    exact ⟨hi.service, hok, hi.stages⟩

/-- While no exception has left the bulkhead, the breaker of a healthy dependency is CLOSED
with no failures counted. -/
theorem breaker_stays_closed {as : List (Act n)}
    (h : Trace (executor n cfg) DependencyHealthy as w) (hnone : w.escapes = []) :
    w.service.snapshot.state = .closed ∧ w.service.snapshot.failureCount = 0 := by
  have hi : w.escapes = [] → Calm w := by
    refine Trace.induct (M := executor n cfg) (I := fun _ w => w.escapes = [] → Calm w) ?_ ?_
      as w h
    · intro w hinit _
      obtain rfl : w = World.init n cfg := hinit
      refine ⟨⟨rfl, rfl⟩, fun snap hsnap => ?_, fun c => ?_⟩
      · cases hsnap
      · simp [World.init]
    · intro _ w a w' _ ih hok hstep hnone
      have hbefore : w.escapes = [] := by
        have hs := suffix_step hstep
        rw [hnone] at hs
        exact List.suffix_nil.mp hs
      exact calm_step (ih hbefore) hok hstep hnone
  exact (hi hnone).service

theorem exit_fails (hi : Healthy w.service.snapshot) (hlock : w.lock = false)
    (hnew : (exit cfg now c escape w).escapes ≠ []) (hnone : w.escapes = []) :
    ¬ Healthy (exit cfg now c escape w).service.snapshot := by
  rw [escapes_exit, hnone, List.append_nil] at hnew
  cases escape with
  | none => simp at hnew
  | some e =>
    have hservice : (exit cfg now c (some e) w).service =
        w.service.onFailure cfg.breaker now := by
      unfold exit leave persist
      simp only [hlock]
      cases cfg.shared <;> rfl
    rw [hservice]
    exact onFailure_not_healthy hi

theorem settle_fails (hi : Healthy w.service.snapshot) (hlock : w.lock = false)
    (hnew : (settle cfg now c b w).escapes ≠ []) (hnone : w.escapes = []) :
    ¬ Healthy (settle cfg now c b w).service.snapshot := by
  unfold settle at hnew ⊢
  split
  · rename_i e he
    simp only [he] at hnew
    exact exit_fails hi hlock hnew hnone
  · rename_i he
    simp only [he] at hnew
    exact absurd hnone hnew

theorem check_fails (hi : Healthy w.service.snapshot)
    (hnew : (check cfg now c w).escapes ≠ []) (hnone : w.escapes = []) :
    ¬ Healthy (check cfg now c w).service.snapshot := by
  unfold check admitCall at hnew ⊢
  simp only [checkOpen_healthy hi, takeSlot_healthy hi, Bool.false_and, Bool.false_eq_true,
    if_false] at hnew ⊢
  exact settle_fails hi rfl hnew hnone

theorem before_fails (hi : Healthy w.service.snapshot)
    (hnew : (before cfg now c w).escapes ≠ []) (hnone : w.escapes = []) :
    ¬ Healthy (before cfg now c w).service.snapshot := by
  unfold before at hnew ⊢
  split
  · rename_i hs
    rw [if_pos hs] at hnew
    exact absurd hnone hnew
  · rename_i hs
    rw [if_neg hs] at hnew
    exact check_fails hi hnew hnone

theorem handlerEnds_fails (hi : Healthy w.service.snapshot) (hlock : w.lock = false)
    (hstep : handlerEnds cfg now c escape w = some w') (hnone : w.escapes = [])
    (hnew : w'.escapes ≠ []) : ¬ Healthy w'.service.snapshot := by
  simp only [handlerEnds, Option.ite_none_right_eq_some, Option.map_eq_some_iff] at hstep
  obtain ⟨_, b, _, rfl⟩ := hstep
  exact exit_fails hi hlock hnew hnone

theorem resume_fails (hi : Calm w) (hlock : w.lock = false)
    (hstep : resume cfg now c w = some w') (hnone : w.escapes = []) (hnew : w'.escapes ≠ []) :
    ¬ Healthy w'.service.snapshot := by
  simp only [resume] at hstep
  split at hstep
  · rename_i task htask
    simp only [hlock, Bool.false_eq_true, if_false, Option.some.injEq] at hstep
    obtain rfl := hstep
    cases task with
    | beforeCall => exact before_fails hi.service hnew hnone
    | onSuccess => exact absurd ((escapes_leave true).trans hnone) hnew
    | onFailure => exact absurd htask (hi.stages c)
  · obtain rfl := Option.some.inj hstep
    exact check_fails (calm_refresh hi).service hnew hnone
  · obtain rfl := Option.some.inj hstep
    unfold admitCall at hnew ⊢
    simp only [takeSlot_healthy hi.service] at hnew ⊢
    exact settle_fails hi.service rfl hnew hnone
  · obtain rfl := Option.some.inj hstep
    exact absurd hnone hnew
  · obtain ⟨b, _, rfl⟩ := Option.map_eq_some_iff.mp hstep
    exact settle_fails hi.service hlock hnew hnone
  · cases hstep
  · cases hstep

/-- The first exception that leaves the bulkhead fails the breaker in the same step, when no
other call holds the lock. -/
theorem first_escape_fails_breaker (hi : Calm w) (hlock : w.lock = false)
    (hstep : next cfg w a = some w') (hnone : w.escapes = []) (hnew : w'.escapes ≠ []) :
    ¬ Healthy w'.service.snapshot := by
  cases a with
  | start now c =>
    simp only [next, hlock, Option.ite_none_right_eq_some, Option.some.injEq] at hstep
    obtain ⟨_, rfl⟩ := hstep
    exact before_fails hi.service hnew hnone
  | resume now c => exact resume_fails hi hlock hstep hnone hnew
  | handlerReturns now c => exact handlerEnds_fails hi.service hlock hstep hnone hnew
  | handlerFails now c escape => exact handlerEnds_fails hi.service hlock hstep hnone hnew
  | expire c =>
    simp only [next, Option.ite_none_right_eq_some, Option.map_eq_some_iff] at hstep
    obtain ⟨_, b, _, rfl⟩ := hstep
    exact absurd hnone hnew
  | cancel c => exact absurd ((cancel_cases hstep).2.2.1.trans hnone) hnew
  | repositoryFails c =>
    obtain rfl := repositoryFails_eq hstep
    exact absurd hnone hnew
  | peer stored =>
    simp only [next, Option.ite_none_right_eq_some, Option.some.injEq] at hstep
    obtain ⟨_, rfl⟩ := hstep
    exact absurd hnone hnew

/-- Two calls take turns in a bulkhead of one slot while the second is waiting. -/
theorem breaker_stays_closed_queued :
    let cfg : ExecutorConfig := { name := "db", bulkhead := { maxConcurrent := 1 } }
    let as : List (Act 2) :=
      [.start 0 0, .start 1 1, .handlerReturns 2 0, .resume 3 1, .handlerReturns 4 1]
    ∃ w, Trace (executor 2 cfg) DependencyHealthy as w ∧ w.escapes = [] ∧
      w.service.snapshot.state = .closed ∧ w.service.snapshot.failureCount = 0 := by
  intro cfg as
  have h : (replay (executor 2 cfg) DependencyHealthy [] as (World.init 2 cfg)).map
      World.escapes = some [] := by
    decide +kernel
  obtain ⟨w, hrun, hnone⟩ := Option.map_eq_some_iff.mp h
  have ht := trace_of_replay (M := executor 2 cfg) rfl hrun
  exact ⟨w, ht, hnone, breaker_stays_closed ht hnone⟩

/-- A breaker that one failure opens around a bulkhead of one slot without a queue. -/
def strict : ExecutorConfig where
  name := "db"
  breaker := { failureThreshold := 1 }
  bulkhead := { maxConcurrent := 1, maxWaiters := some 0 }

/-- The rejection of a second call opens the breaker, and so does the cancellation of a
caller, although the wrapped function never fails. -/
theorem rejection_opens_breaker :
    (¬ ∀ (cfg : ExecutorConfig) (as : List (Act 2)) (w : World 2),
      Trace (executor 2 cfg) DependencyHealthy as w →
      w.service.snapshot.state = .closed ∧ w.service.snapshot.failureCount = 0) ∧
    ∃ w : World 1, Trace (executor 1 strict) DependencyHealthy
        [.start 0 0, .cancel 0, .handlerFails 1 0 .cancelled] w ∧
      w.service.snapshot.state = .opened := by
  constructor
  · intro hclaim
    have h : (replay (executor 2 strict) DependencyHealthy [] [.start 0 0, .start 1 1]
        (World.init 2 strict)).map (fun w => w.service.snapshot.state) = some .opened := by
      decide +kernel
    obtain ⟨w, hrun, hw⟩ := Option.map_eq_some_iff.mp h
    have hclosed := (hclaim _ _ w (trace_of_replay rfl hrun)).1
    rw [hw] at hclosed
    cases hclosed
  · have h : (replay (executor 1 strict) DependencyHealthy []
        [.start 0 0, .cancel 0, .handlerFails 1 0 .cancelled] (World.init 1 strict)).map
        (fun w => w.service.snapshot.state) = some .opened := by
      decide +kernel
    obtain ⟨w, hrun, hw⟩ := Option.map_eq_some_iff.mp h
    exact ⟨w, trace_of_replay rfl hrun, hw⟩

end Taas.Executor
