import Mathlib.Data.Nat.Init
import Mathlib.Logic.Function.Basic
import Taas.Transition

/-!
The decorator `db_context_session` and the generator `get_session_generator` below it. The context
variable holds the id of the task that opened the session; a new task starts with a copy of its
parent's. Every manager shares the one variable. A task runs the calls of its stack, the innermost
first, and any number of tasks are interleaved.
-/
namespace Taas.DbSessions

open Transition

variable {W : Type}

/-- `id(current_task())`. The id of a task that has ended may be given again. -/
abbrev TaskId := ℕ

abbrev SessionId := ℕ

inductive Manager
  | mainDatabase
  | keycloakDBManager
  deriving DecidableEq

/-- How a call gets its session: through the decorator, or through the generator of a manager, as
`kc_db_session_async` does. -/
inductive Entry
  | dbContextSession
  | generator (manager : Manager)
  deriving DecidableEq

def Entry.manager : Entry → Manager
  | .dbContextSession => .mainDatabase
  | .generator m => m

/-- How a body is left: with a result, an `Exception`, or another `BaseException` such as
`CancelledError`. -/
inductive Exit
  | returned
  | raised
  | interrupted
  deriving DecidableEq

/-- How a commit is answered. One that fails may have been kept all the same. -/
inductive Answer
  | done
  | raised (kept : Bool)
  | interrupted (kept : Bool)
  deriving DecidableEq

def Answer.kept : Answer → Bool
  | .done => true
  | .raised kept => kept
  | .interrupted kept => kept

structure DBSessionStats where
  totalSessionsCreated : ℕ := 0
  totalSessionsClosed : ℕ := 0
  totalSessionsCommitted : ℕ := 0
  totalSessionsRolledBack : ℕ := 0
  totalSessionsReused : ℕ := 0
  deriving DecidableEq

/-- A session with what was written through it since its transaction began. -/
structure Session (W : Type) where
  manager : Manager := .mainDatabase
  pending : List W := []

/-- A call in progress: in a session that it found, or in one of its own, with the values that the
tokens of the two context variables restore. -/
inductive Frame
  | reused (session : SessionId)
  | root (session : SessionId) (entry : Entry) (autoCommit : Bool)
      (sessionToken : Option (TaskId × SessionId)) (depthToken : ℕ)
  deriving DecidableEq

def Frame.session : Frame → SessionId
  | .reused session => session
  | .root session .. => session

/-- A task with its values of `_current_context_session` and `_call_depth`. -/
structure Task where
  context : Option (TaskId × SessionId) := none
  callDepth : ℕ := 0
  stack : List Frame := []
  deriving DecidableEq

structure State (W : Type) where
  tasks : TaskId → Option Task := fun _ => none
  sessions : SessionId → Session W := fun _ => {}
  /-- The id of the next session. -/
  fresh : SessionId := 0
  /-- What the databases have kept. -/
  database : Manager → List W := fun _ => []
  stats : Manager → DBSessionStats := fun _ => {}

namespace State

def setTask (s : State W) (t : TaskId) (x : Option Task) : State W :=
  { s with tasks := Function.update s.tasks t x }

def count (s : State W) (m : Manager) (f : DBSessionStats → DBSessionStats) : State W :=
  { s with stats := Function.update s.stats m (f (s.stats m)) }

def setPending (s : State W) (sid : SessionId) (l : List W) : State W :=
  { s with sessions := Function.update s.sessions sid { s.sessions sid with pending := l } }

/-- The transaction of a session ends, kept or not. -/
def settle (s : State W) (sid : SessionId) (kept : Bool) : State W :=
  let m := (s.sessions sid).manager
  let l := if kept then (s.sessions sid).pending else []
  { s.setPending sid [] with database := Function.update s.database m (s.database m ++ l) }

end State

/-- `get_current_context_session` in the task `t`, without its count. -/
def Task.getCurrentContextSession (x : Task) (t : TaskId) : Option SessionId :=
  match x.context with
  | none => none
  | some (taskId, session) => if taskId ≠ t then none else some session

def newSession (s : State W) (m : Manager) : State W :=
  { s with
    sessions := Function.update s.sessions s.fresh { manager := m }
    fresh := s.fresh + 1
    }.count m fun c => { c with totalSessionsCreated := c.totalSessionsCreated + 1 }

def commitSession (s : State W) (sid : SessionId) (answer : Answer) : State W × Exit :=
  match answer with
  | .done =>
    ((s.settle sid true).count (s.sessions sid).manager fun c =>
      { c with totalSessionsCommitted := c.totalSessionsCommitted + 1 }, .returned)
  | .raised kept => (s.settle sid kept, .raised)
  | .interrupted kept => (s.settle sid kept, .interrupted)

/-- `rollback_session`, which may raise. -/
def rollbackSession (s : State W) (sid : SessionId) (rolledBack : Bool) : State W :=
  let s' := s.settle sid false
  if rolledBack then
    s'.count (s.sessions sid).manager fun c =>
      { c with totalSessionsRolledBack := c.totalSessionsRolledBack + 1 }
  else s'

/-- The body is left for good: the `try` of `get_session_generator`, then the exit of the session,
which ends what is still pending. -/
def leaveGenerator (s : State W) (sid : SessionId) (autoCommit : Bool) (how : Exit)
    (answer : Answer) (rolledBack : Bool) : State W :=
  let (s, how) :=
    match how with
    | .returned => if autoCommit then commitSession s sid answer else (s, .returned)
    | e => (s, e)
  let s := match how with
    | .raised => rollbackSession s sid rolledBack
    | _ => s
  s.settle sid false

/-- A call begins: it takes the session of its context or opens one. -/
def enter (s : State W) (t : TaskId) (x : Task) (entry : Entry) (autoCommit : Bool) : State W :=
  match x.getCurrentContextSession t with
  | some session =>
    (s.setTask t (some { x with stack := .reused session :: x.stack })).count entry.manager
      fun c => { c with totalSessionsReused := c.totalSessionsReused + 1 }
  | none =>
    (newSession s entry.manager).setTask t (some {
      context := some (t, s.fresh)
      callDepth := match entry with
        | .dbContextSession => x.callDepth + 1
        | .generator _ => x.callDepth
      stack := .root s.fresh entry autoCommit x.context x.callDepth :: x.stack })

def leave (s : State W) (t : TaskId) (x : Task) (how : Exit) (answer : Answer)
    (rolledBack : Bool) : Option (State W) :=
  match x.stack with
  | [] => none
  | .reused _ :: rest => some (s.setTask t (some { x with stack := rest }))
  | .root sid entry autoCommit sessionToken depthToken :: rest =>
    let s' := (leaveGenerator s sid autoCommit how answer rolledBack).setTask t
      (some { context := sessionToken, callDepth := depthToken, stack := rest })
    match entry with
    | .dbContextSession =>
      some (s'.count .mainDatabase fun c =>
        { c with totalSessionsClosed := c.totalSessionsClosed + 1 })
    | .generator _ => some s'

/-- `start` is a task outside every call. The bodies write through the session they were given, and
may end its transaction themselves. -/
inductive Act (W : Type)
  | start (t : TaskId)
  | spawn (parent child : TaskId)
  | finish (t : TaskId)
  | call (t : TaskId) (entry : Entry) (autoCommit : Bool)
  | write (t : TaskId) (w : W)
  | commit (t : TaskId) (kept : Bool)
  | rollback (t : TaskId)
  | exit (t : TaskId) (how : Exit) (answer : Answer) (rolledBack : Bool)

def State.session (s : State W) (t : TaskId) : Option SessionId :=
  (s.tasks t).bind fun x => x.stack.head?.map Frame.session

def next (s : State W) : Act W → Option (State W)
  | .start t =>
    match s.tasks t with
    | none => some (s.setTask t (some {}))
    | some _ => none
  | .spawn parent child =>
    match s.tasks parent, s.tasks child with
    | some x, none => some (s.setTask child (some { x with stack := [] }))
    | _, _ => none
  | .finish t =>
    match s.tasks t with
    | some { stack := [], .. } => some (s.setTask t none)
    | _ => none
  | .call t entry autoCommit => (s.tasks t).map fun x => enter s t x entry autoCommit
  | .write t w =>
    (s.session t).map fun sid => s.setPending sid ((s.sessions sid).pending ++ [w])
  | .commit t kept => (s.session t).map fun sid => s.settle sid kept
  | .rollback t => (s.session t).map fun sid => s.settle sid false
  | .exit t how answer rolledBack => (s.tasks t).bind fun x => leave s t x how answer rolledBack

def sessions (W : Type) : System (State W) (Act W) where
  init s := s = {}
  next := next

end Taas.DbSessions
