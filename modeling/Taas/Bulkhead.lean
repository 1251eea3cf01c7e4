import Taas.Asyncio
import Taas.Transition

/-!
The bulkhead service without a repository. A task runs from one suspension to the next in
one step: it may be suspended at `_waiters_lock`, in the semaphore's `acquire`, in a
`wait_for` whose timeout is not positive, and in the handler. A cancellation interrupts a
suspended call, and the timer of a `wait_for` cancels its own task; whichever of the two
comes, a slot may have been granted in the meantime.
-/
namespace Taas.Bulkhead

open Asyncio Transition

structure BulkheadConfig where
  maxConcurrent : ℕ := 10
  maxWaiters : Option ℤ := none
  acquireTimeoutSeconds : Option ℚ := none

variable {n : ℕ}

structure BulkheadService (n : ℕ) where
  semaphore : Semaphore (Fin n)
  waiters : ℤ := 0
  /-- `_waiters_lock` is held. -/
  waitersLock : Bool := false
  deriving DecidableEq

def BulkheadService.init (n : ℕ) (cfg : BulkheadConfig) : BulkheadService n where
  semaphore := { value := cfg.maxConcurrent }

def inFlight (cfg : BulkheadConfig) (b : BulkheadService n) : ℤ :=
  cfg.maxConcurrent - b.semaphore.value

/-- How a call ended: its handler returned or raised, `BulkheadFullError`, or
`CancelledError` before its handler began. -/
inductive Outcome
  | finished
  | rejected
  | cancelled
  deriving DecidableEq

/-- How a call leaves `_acquire` after its `finally` block. -/
inductive Exit
  | admitted
  | rejected
  | cancelled
  deriving DecidableEq

/-- Where the task of a call is suspended. -/
inductive Position
  | ready
  /-- At `_waiters_lock` before the check. -/
  | entering
  /-- In `semaphore.acquire`. -/
  | waiting
  /-- In a `wait_for` that cancels its future at once. -/
  | timingOut
  /-- At `_waiters_lock` in the `finally` block. -/
  | leaving (exit : Exit)
  | running
  | ended (outcome : Outcome)
  deriving DecidableEq

structure Call where
  position : Position := .ready
  /-- Somebody cancelled the task during its wait. -/
  cancelRequested : Bool := false
  /-- The timeout of the wait has expired. -/
  timedOut : Bool := false
  /-- Ghost: the semaphore was locked when the call arrived. -/
  lockedOnArrival : Bool := false
  deriving DecidableEq

structure World (n : ℕ) where
  service : BulkheadService n
  call : Fin n → Call
  deriving DecidableEq

inductive Act (n : ℕ)
  | start (c : Fin n)
  | cancel (c : Fin n)
  | expire (c : Fin n)
  | resume (c : Fin n)
  | handlerEnds (c : Fin n)
  deriving DecidableEq

def full (cfg : BulkheadConfig) (b : BulkheadService n) : Bool :=
  (cfg.maxWaiters.any fun maxWaiters => b.waiters ≥ maxWaiters) && b.semaphore.locked

def World.set (w : World n) (b : BulkheadService n) (c : Fin n) (x : Call) : World n where
  service := b
  call := Function.update w.call c x

def Exit.position : Exit → Position
  | .admitted => .running
  | .rejected => .ended .rejected
  | .cancelled => .ended .cancelled

/-- `async with self._waiters_lock` around a body that does not suspend. -/
def critical (body : BulkheadService n → BulkheadService n) (b : BulkheadService n) :
    BulkheadService n :=
  { body { b with waitersLock := true } with waitersLock := false }

def leave (b : BulkheadService n) (c : Fin n) (x : Call) (exit : Exit) (w : World n) : World n :=
  if b.waitersLock then w.set b c { x with position := .leaving exit }
  else w.set (critical (fun b => { b with waiters := b.waiters - 1 }) b) c
    { x with position := exit.position }

def acquire (cfg : BulkheadConfig) (b : BulkheadService n) (c : Fin n) (x : Call) (w : World n) :
    World n :=
  match cfg.acquireTimeoutSeconds with
  | none => wait
  | some t =>
    if t ≤ 0 then w.set b c { x with position := .timingOut, timedOut := true } else wait
where
  /-- `semaphore.acquire`, up to its suspension or its end. -/
  wait : World n :=
    if b.semaphore.locked then
      w.set { b with semaphore := b.semaphore.enqueue c } c { x with position := .waiting }
    else leave { b with semaphore := b.semaphore.take } c x .admitted w

def arrive (cfg : BulkheadConfig) (c : Fin n) (w : World n) : World n :=
  let b := w.service
  let x := { w.call c with lockedOnArrival := b.semaphore.locked }
  if b.waitersLock then w.set b c { x with position := .entering }
  else if full cfg b then w.set (critical (fun b => b) b) c { x with position := .ended .rejected }
  else acquire cfg (critical (fun b => { b with waiters := b.waiters + 1 }) b) c x w

/-- What `wait_for` makes of a `CancelledError`: a `TimeoutError`, which is turned into
`BulkheadFullError`, when its own timer is the only one that cancelled the task. -/
def interruption (x : Call) : Exit :=
  if x.timedOut ∧ ¬ x.cancelRequested then .rejected else .cancelled

/-- The task runs again after its wait for a slot. -/
def endWait (c : Fin n) (w : World n) : World n :=
  let b := w.service
  let x := w.call c
  let interrupted : Bool :=
    b.semaphore.future c = some .cancelled ∨ x.cancelRequested ∨ x.timedOut
  leave { b with semaphore := b.semaphore.resume c interrupted } c x
    (if interrupted then interruption x else .admitted) w

def cancel (c : Fin n) (w : World n) : Option (World n) :=
  let b := w.service
  let x := w.call c
  match x.position with
  | .ready | .entering | .leaving _ => some (w.set b c { x with position := .ended .cancelled })
  | .waiting =>
    some (w.set { b with semaphore := b.semaphore.cancel c } c { x with cancelRequested := true })
  | .timingOut => some (w.set b c { x with cancelRequested := true })
  -- the handler gets the CancelledError, and ends in a later step
  | .running => some w
  | .ended _ => none

def expire (cfg : BulkheadConfig) (c : Fin n) (w : World n) : Option (World n) :=
  let b := w.service
  let x := w.call c
  if x.position = .waiting ∧ cfg.acquireTimeoutSeconds.isSome ∧ ¬ x.timedOut then
    some (w.set { b with semaphore := b.semaphore.cancel c } c { x with timedOut := true })
  else none

def resume (cfg : BulkheadConfig) (c : Fin n) (w : World n) : Option (World n) :=
  let b := w.service
  let x := w.call c
  match x.position with
  | .entering => if b.waitersLock then none else some (arrive cfg c w)
  | .waiting => if b.semaphore.future c = some .pending then none else some (endWait c w)
  | .timingOut => some (leave b c x (interruption x) w)
  | .leaving exit => if b.waitersLock then none else some (leave b c x exit w)
  | _ => none

def handlerEnds (c : Fin n) (w : World n) : Option (World n) :=
  let b := w.service
  let x := w.call c
  if x.position = .running then
    some (w.set { b with semaphore := b.semaphore.release } c
      { x with position := .ended .finished })
  else none

def next (cfg : BulkheadConfig) (w : World n) : Act n → Option (World n)
  | .start c => if (w.call c).position = .ready then some (arrive cfg c w) else none
  | .cancel c => cancel c w
  | .expire c => expire cfg c w
  | .resume c => resume cfg c w
  | .handlerEnds c => handlerEnds c w

def World.init (n : ℕ) (cfg : BulkheadConfig) : World n where
  service := BulkheadService.init n cfg
  call := fun _ => {}

/-- All interleavings of `n` calls of `execute`. -/
def calls (n : ℕ) (cfg : BulkheadConfig) : System (World n) (Act n) where
  init w := w = World.init n cfg
  next := next cfg

end Taas.Bulkhead
