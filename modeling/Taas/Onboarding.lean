import Mathlib.Data.Fintype.Basic
import Mathlib.Data.List.Nodup
import Taas.Transition

/-!
The set-up of root accounts for users of the directory, with `SIGNUP_TEST_MODE` off, which would
delete an account that is found. A handler looks for the user, and adds the tenant, the user and two
events in one transaction. Other handlers run while it waits: a query sees what is committed, and a
row with a primary key that another transaction has added waits for the end of that one.
-/
namespace Taas.Onboarding

open Transition

inductive RoutingStrategy
  | outbox
  | direct
  deriving DecidableEq

/-- The fields of `OutboxConfig` that route messages. -/
structure OutboxConfig where
  enabled : Bool := true
  routingDefault : RoutingStrategy := .outbox
  directChannels : List String := []
  outboxChannels : List String := []

def OutboxConfig.getRoutingForChannel (c : OutboxConfig) (channel : String) : RoutingStrategy :=
  if !c.enabled then .direct
  else if channel ∈ c.directChannels then .direct
  else if channel ∈ c.outboxChannels then .outbox
  else c.routingDefault

structure DirectoryUser where
  email : String
  username : String
  deriving DecidableEq, Inhabited

structure DirectoryTenant where
  id : String
  name : String
  deriving DecidableEq, Inhabited

/-- The columns of a user that tie it to other rows. -/
structure User where
  id : ℕ
  email : String
  username : String
  tenantId : ℤ
  deriving DecidableEq

structure Tenant where
  id : ℤ
  name : String
  directoryId : String
  rootAccountId : ℕ
  deriving DecidableEq

inductive Event
  | userRegistered (userId : ℕ) (email username : String)
      (payload : DirectoryUser × DirectoryTenant)
  | tenantCreated (tenantId : ℤ) (rootAccountId : ℕ) (payload : DirectoryUser × DirectoryTenant)
  deriving DecidableEq

/-- `get_iam_topic_for_event`. -/
def Event.channel : Event → String
  | .userRegistered _ _ _ _ => "iam.user.registered"
  | .tenantCreated _ _ _ => "iam.tenant.created"

/-- `build_root_account`, with the ids that it draws. -/
def buildRootAccount (user : DirectoryUser) (tenant : DirectoryTenant) (userId : ℕ)
    (tenantId : ℤ) : User × Tenant :=
  (⟨userId, user.email, user.username, tenantId⟩, ⟨tenantId, tenant.name, tenant.id, userId⟩)

def buildUserRegisteredEvent (user : User) (payload : DirectoryUser × DirectoryTenant) : Event :=
  .userRegistered user.id user.email user.username payload

def buildTenantCreatedEvent (user : User) (tenant : Tenant)
    (payload : DirectoryUser × DirectoryTenant) : Event :=
  .tenantCreated tenant.id user.id payload

structure Account where
  directoryUser : DirectoryUser
  directoryTenant : DirectoryTenant
  userId : ℕ
  tenantId : ℤ
  deriving DecidableEq, Inhabited

namespace Account

def rows (a : Account) : User × Tenant :=
  buildRootAccount a.directoryUser a.directoryTenant a.userId a.tenantId

def registered (a : Account) : Event :=
  buildUserRegisteredEvent a.rows.1 (a.directoryUser, a.directoryTenant)

def created (a : Account) : Event :=
  buildTenantCreatedEvent a.rows.1 a.rows.2 (a.directoryUser, a.directoryTenant)

def events (a : Account) : List Event := [a.registered, a.created]

end Account

structure Tables where
  users : List User := []
  tenants : List Tenant := []
  outbox : List Event := []

/-- What a handler waits for. -/
inductive Handler
  | lookingUp (user : DirectoryUser) (tenant : DirectoryTenant)
  | addingTenant (account : Account)
  | addingUser (account : Account)
  | publishingRegistered (account : Account)
  | publishingCreated (account : Account)
  | committing (account : Account)

def Handler.directoryUser : Handler → DirectoryUser
  | .lookingUp user _ => user
  | .addingTenant a | .addingUser a | .publishingRegistered a | .publishingCreated a
  | .committing a => a.directoryUser

/-- The primary key of the tenant that its transaction has added. -/
def Handler.tenantKey : Handler → Option ℤ
  | .lookingUp _ _ | .addingTenant _ => none
  | .addingUser a | .publishingRegistered a | .publishingCreated a | .committing a =>
    some a.tenantId

def Handler.userKey : Handler → Option ℕ
  | .lookingUp _ _ | .addingTenant _ | .addingUser _ => none
  | .publishingRegistered a | .publishingCreated a | .committing a => some a.userId

/-- `sent` has the messages that went to the broker at once. -/
structure State (T : Type) where
  tables : Tables := {}
  sent : List Event := []
  handlers : T → Option Handler := fun _ => none

inductive Act (T : Type)
  | deliver (t : T) (user : DirectoryUser) (tenant : DirectoryTenant)
  /-- What the handler waits for returns. The ids are those that are drawn then. -/
  | returns (t : T) (userId : ℕ) (tenantId : ℤ)
  /-- It raises, `done` when the database or the broker has done it all the same. -/
  | raises (t : T) (done : Bool)

variable {T : Type} [DecidableEq T]

def State.set (s : State T) (t : T) (h : Option Handler) : State T :=
  { s with handlers := Function.update s.handlers t h }

/-- The message goes to the broker unless it is routed to the outbox. -/
def State.send (s : State T) (c : OutboxConfig) (event : Event) : State T :=
  match c.getRoutingForChannel event.channel with
  | .outbox => s
  | .direct => { s with sent := s.sent ++ [event] }

/-- The transaction is committed, with the events that are routed to the outbox. -/
def State.commit (s : State T) (c : OutboxConfig) (a : Account) : State T :=
  { s with
    tables := {
      users := s.tables.users ++ [a.rows.1]
      tenants := s.tables.tenants ++ [a.rows.2]
      outbox := s.tables.outbox ++
        a.events.filter fun event => c.getRoutingForChannel event.channel = .outbox } }

/-- The keys that the transactions in progress have added. -/
def State.keys {K : Type} (s : State T) (key : Handler → Option K) (t : T) : Option K :=
  (s.handlers t).bind key

variable [Fintype T]

/-- A row is flushed: it waits, it is refused, or it is added. -/
def flush {K : Type} [DecidableEq K] (s : State T) (t : T) (key : Handler → Option K)
    (rows : List K) (k : K) (h : Handler) : Option (State T) :=
  if ∃ u, s.keys key u = some k then none
  else if k ∈ rows then some (s.set t none)
  else some (s.set t (some h))

/-- What the handler does until it waits again. -/
def resume (c : OutboxConfig) (s : State T) (t : T) (userId : ℕ) (tenantId : ℤ) :
    Handler → Option (State T)
  | .lookingUp user tenant =>
    match s.tables.users.filter fun u => u.email = user.email ∧ u.username = user.username with
    | [] => some (s.set t (some (.addingTenant ⟨user, tenant, userId, tenantId⟩)))
    -- the account exists, or there are several
    | _ :: _ => some (s.set t none)
  | .addingTenant a =>
    flush s t Handler.tenantKey (s.tables.tenants.map Tenant.id) a.tenantId (.addingUser a)
  | .addingUser a =>
    flush s t Handler.userKey (s.tables.users.map User.id) a.userId (.publishingRegistered a)
  | .publishingRegistered a => some ((s.send c a.registered).set t (some (.publishingCreated a)))
  | .publishingCreated a => some ((s.send c a.created).set t (some (.committing a)))
  | .committing a => some ((s.commit c a).set t none)

/-- The transaction is rolled back, unless what has raised was the commit and was done. -/
def fail (c : OutboxConfig) (s : State T) (t : T) (done : Bool) (h : Handler) : State T :=
  let s' := match done, h with
    | true, .publishingRegistered a => s.send c a.registered
    | true, .publishingCreated a => s.send c a.created
    | true, .committing a => s.commit c a
    | _, _ => s
  s'.set t none

def handlers (T : Type) [DecidableEq T] [Fintype T] (c : OutboxConfig) :
    System (State T) (Act T) where
  init s := s = {}
  next s
    | .deliver t user tenant =>
      match s.handlers t with
      | none => some (s.set t (some (.lookingUp user tenant)))
      | some _ => none
    | .returns t userId tenantId => (s.handlers t).bind (resume c s t userId tenantId)
    | .raises t done => (s.handlers t).map (fail c s t done)

/-- The users, the tenants and the events that are out, in the outbox or at the broker, are those of
the accounts that have been made. -/
def Consistent (s : State T) : Prop :=
  ∃ made : List Account, (made.map Account.userId).Nodup ∧ (made.map Account.tenantId).Nodup ∧
    s.tables.users = made.map (fun a => a.rows.1) ∧
    s.tables.tenants = made.map (fun a => a.rows.2) ∧
    (s.tables.outbox ++ s.sent).Perm (made.flatMap Account.events)

/-- The committed keys are unique, and those that are claimed besides are new and apart. -/
structure Unique {K : Type} (claims : T → Option K) (keys : List K) : Prop where
  nodup : keys.Nodup
  new : ∀ t, ∀ k ∈ claims t, k ∉ keys
  apart : ∀ t u, ∀ k ∈ claims t, k ∈ claims u → t = u

namespace Unique

variable {K : Type} {claims : T → Option K} {keys : List K} {t : T} {k : K}

omit [Fintype T]

theorem release (h : Unique claims keys) (t : T) : Unique (Function.update claims t none) keys := by
  have hold : ∀ u, ∀ k ∈ Function.update claims t none u, k ∈ claims u := by
    intro u k hk
    rcases eq_or_ne u t with rfl | hne
    · simp at hk
    · simpa [hne] using hk
  exact ⟨h.nodup, fun u k hk => h.new u k (hold u k hk),
    fun u v k hu hv => h.apart u v k (hold u k hu) (hold v k hv)⟩

theorem claim (h : Unique claims keys) (hnew : k ∉ keys) (hfree : ∀ u, claims u ≠ some k) (t : T) :
    Unique (Function.update claims t (some k)) keys := by
  have hcases : ∀ u, ∀ x ∈ Function.update claims t (some k) u,
      u = t ∧ x = k ∨ u ≠ t ∧ x ∈ claims u := by
    intro u x hx
    rcases eq_or_ne u t with rfl | hne
    · exact Or.inl ⟨rfl, by simpa using hx.symm⟩
    · exact Or.inr ⟨hne, by simpa [hne] using hx⟩
  refine ⟨h.nodup, fun u x hx => ?_, fun u v x hu hv => ?_⟩
  · rcases hcases u x hx with ⟨-, rfl⟩ | ⟨-, hx⟩
    · exact hnew
    · exact h.new u x hx
  · rcases hcases u x hu with ⟨rfl, rfl⟩ | ⟨-, hold⟩
    · rcases hcases v x hv with ⟨rfl, -⟩ | ⟨-, hv⟩
      · rfl
      · exact absurd hv (hfree v)
    · rcases hcases v x hv with ⟨-, rfl⟩ | ⟨-, hv⟩
      · exact absurd hold (hfree u)
      · exact h.apart u v x hold hv

/-- The transaction of a claim is committed. -/
theorem settle (h : Unique claims keys) (hk : claims t = some k) :
    Unique (Function.update claims t none) (keys ++ [k]) := by
  have hrest := h.release t
  refine ⟨?_, fun u x hx hmem => ?_, hrest.apart⟩
  · rw [List.nodup_append]
    refine ⟨h.nodup, List.nodup_singleton k, fun x hx y hy heq => ?_⟩
    rw [List.mem_singleton.mp hy] at heq
    exact h.new t k hk (heq ▸ hx)
  · rcases List.mem_append.mp hmem with hmem | hmem
    · exact hrest.new u x hx hmem
    · obtain rfl := List.mem_singleton.mp hmem
      rcases eq_or_ne u t with rfl | hne
      · simp at hx
      · exact hne (h.apart u t x (by simpa [hne] using hx) hk)

end Unique

def Act.task : Act T → T
  | .deliver t _ _ | .returns t _ _ | .raises t _ => t

/-- What a step does. -/
inductive Move (c : OutboxConfig) (s : State T) : Act T → State T → Prop
  | delivered (t : T) (user : DirectoryUser) (tenant : DirectoryTenant) :
      s.handlers t = none →
      Move c s (.deliver t user tenant) (s.set t (some (.lookingUp user tenant)))
  | found (t : T) (a : Account) :
      s.handlers t = some (.lookingUp a.directoryUser a.directoryTenant) →
      (∀ u ∈ s.tables.users,
        ¬(u.email = a.directoryUser.email ∧ u.username = a.directoryUser.username)) →
      Move c s (.returns t a.userId a.tenantId) (s.set t (some (.addingTenant a)))
  | tenantAdded (t : T) (userId : ℕ) (tenantId : ℤ) (a : Account) :
      s.handlers t = some (.addingTenant a) →
      (∀ u, s.keys Handler.tenantKey u ≠ some a.tenantId) →
      a.tenantId ∉ s.tables.tenants.map Tenant.id →
      Move c s (.returns t userId tenantId) (s.set t (some (.addingUser a)))
  | userAdded (t : T) (userId : ℕ) (tenantId : ℤ) (a : Account) :
      s.handlers t = some (.addingUser a) → (∀ u, s.keys Handler.userKey u ≠ some a.userId) →
      a.userId ∉ s.tables.users.map User.id →
      Move c s (.returns t userId tenantId) (s.set t (some (.publishingRegistered a)))
  | registered (t : T) (userId : ℕ) (tenantId : ℤ) (a : Account) :
      s.handlers t = some (.publishingRegistered a) →
      Move c s (.returns t userId tenantId)
        ((s.send c a.registered).set t (some (.publishingCreated a)))
  | created (t : T) (userId : ℕ) (tenantId : ℤ) (a : Account) :
      s.handlers t = some (.publishingCreated a) →
      Move c s (.returns t userId tenantId) ((s.send c a.created).set t (some (.committing a)))
  | committed (act : Act T) (a : Account) :
      s.handlers act.task = some (.committing a) →
      Move c s act ((s.commit c a).set act.task none)
  | rolledBack (act : Act T) : Move c s act (s.set act.task none)
  | sentAndRolledBack (act : Act T) (event : Event) :
      Move c s act ((s.send c event).set act.task none)

variable {c : OutboxConfig} {s s' : State T} {t : T} {a : Account} {act : Act T}

omit [Fintype T] in
theorem move_fail {h : Handler} (hh : s.handlers t = some h) (done : Bool) :
    Move c s (.raises t done) (fail c s t done h) := by
  cases done with
  | false => exact .rolledBack _
  | true =>
    cases h with
    | lookingUp user tenant => exact .rolledBack _
    | addingTenant a => exact .rolledBack _
    | addingUser a => exact .rolledBack _
    | publishingRegistered a => exact .sentAndRolledBack _ a.registered
    | publishingCreated a => exact .sentAndRolledBack _ a.created
    | committing a => exact .committed _ a hh

/-- A flush that has an end adds the row, or the transaction is rolled back. -/
theorem flush_cases {K : Type} [DecidableEq K] {key : Handler → Option K} {rows : List K} {k : K}
    {h : Handler} (hstep : flush s t key rows k h = some s') :
    s' = s.set t none ∨
      (∀ u, s.keys key u ≠ some k) ∧ k ∉ rows ∧ s' = s.set t (some h) := by
  unfold flush at hstep
  split at hstep
  · cases hstep
  · rename_i hfree
    split at hstep
    · exact Or.inl (Option.some.inj hstep).symm
    · exact Or.inr ⟨not_exists.mp hfree, ‹_›, (Option.some.inj hstep).symm⟩

theorem move_resume {h : Handler} {userId : ℕ} {tenantId : ℤ} (hh : s.handlers t = some h)
    (hstep : resume c s t userId tenantId h = some s') :
    Move c s (.returns t userId tenantId) s' := by
  cases h with
  | lookingUp user tenant =>
    simp only [resume] at hstep
    split at hstep
    · rename_i hnone
      cases Option.some.inj hstep
      refine .found t ⟨user, tenant, userId, tenantId⟩ hh fun u hu hsame => ?_
      have hmem := List.filter_eq_nil_iff.mp hnone u hu
      exact hmem (decide_eq_true hsame)
    · cases Option.some.inj hstep
      exact .rolledBack _
  | addingTenant a =>
    rcases flush_cases hstep with rfl | ⟨hfree, hnew, rfl⟩
    · exact .rolledBack _
    · exact .tenantAdded t userId tenantId a hh hfree hnew
  | addingUser a =>
    rcases flush_cases hstep with rfl | ⟨hfree, hnew, rfl⟩
    · exact .rolledBack _
    · exact .userAdded t userId tenantId a hh hfree hnew
  | publishingRegistered a =>
    cases Option.some.inj hstep
    exact .registered t userId tenantId a hh
  | publishingCreated a =>
    cases Option.some.inj hstep
    exact .created t userId tenantId a hh
  | committing a =>
    cases Option.some.inj hstep
    exact .committed _ a hh

theorem move_of_next (h : (handlers T c).next s act = some s') : Move c s act s' := by
  cases act with
  | deliver t user tenant =>
    simp only [handlers] at h
    split at h
    · cases Option.some.inj h
      exact .delivered t user tenant ‹_›
    · cases h
  | returns t userId tenantId =>
    obtain ⟨x, hx, hstep⟩ := Option.bind_eq_some_iff.mp h
    exact move_resume hx hstep
  | raises t done =>
    obtain ⟨x, hx, rfl⟩ := Option.map_eq_some_iff.mp h
    exact move_fail hx done

section keys

variable {K : Type} {key : Handler → Option K}

omit [Fintype T]

@[simp] theorem keys_set (s : State T) (t : T) (h : Option Handler) :
    (s.set t h).keys key = Function.update (s.keys key) t (h.bind key) := by
  funext u
  rcases eq_or_ne u t with rfl | hne
  · simp [State.keys, State.set]
  · simp [State.keys, State.set, hne]

/-- A handler whose transaction claims what it has claimed before. -/
theorem keys_keep {x y : Handler} (hx : s.handlers t = some x) (hkey : key y = key x) :
    (s.set t (some y)).keys key = s.keys key := by
  rw [keys_set, Option.bind_some, Function.update_eq_self_iff, State.keys, hx]
  exact hkey

omit [DecidableEq T] in
theorem keys_of_handler {x : Handler} (hx : s.handlers t = some x) : s.keys key t = key x := by
  rw [State.keys, hx]
  rfl

end keys

/-- The two messages of a set-up go to the outbox. -/
def OutboxConfig.Routed (c : OutboxConfig) : Prop :=
  c.getRoutingForChannel "iam.user.registered" = .outbox ∧
    c.getRoutingForChannel "iam.tenant.created" = .outbox

/-- `made` are the accounts that have been made, in order. -/
structure Made (s : State T) (made : List Account) : Prop where
  users : s.tables.users = made.map (fun a => a.rows.1)
  tenants : s.tables.tenants = made.map (fun a => a.rows.2)
  outbox : s.tables.outbox = made.flatMap Account.events
  sent : s.sent = []
  userIds : Unique (s.keys Handler.userKey) (made.map Account.userId)
  tenantIds : Unique (s.keys Handler.tenantKey) (made.map Account.tenantId)

variable {made : List Account}

theorem OutboxConfig.Routed.channel (h : c.Routed) (event : Event) :
    c.getRoutingForChannel event.channel = .outbox := by
  cases event with
  | userRegistered userId email username payload => exact h.1
  | tenantCreated tenantId rootAccountId payload => exact h.2

omit [DecidableEq T] [Fintype T] in
theorem send_of_routed (hc : c.Routed) (s : State T) (event : Event) : s.send c event = s := by
  simp [State.send, hc.channel event]

namespace Made

omit [Fintype T]

omit [DecidableEq T] in
theorem ids (h : Made s made) : s.tables.users.map User.id = made.map Account.userId ∧
    s.tables.tenants.map Tenant.id = made.map Account.tenantId := by
  rw [h.users, h.tenants, List.map_map, List.map_map]
  exact ⟨rfl, rfl⟩

/-- A handler whose transaction has claimed nothing, or none. -/
theorem release (h : Made s made) {x : Option Handler} (huser : x.bind Handler.userKey = none)
    (htenant : x.bind Handler.tenantKey = none) : Made (s.set t x) made where
  users := h.users
  tenants := h.tenants
  outbox := h.outbox
  sent := h.sent
  userIds := by
    rw [keys_set, huser]
    exact h.userIds.release t
  tenantIds := by
    rw [keys_set, htenant]
    exact h.tenantIds.release t

theorem keep (h : Made s made) {x y : Handler} (hx : s.handlers t = some x)
    (huser : y.userKey = x.userKey) (htenant : y.tenantKey = x.tenantKey) :
    Made (s.set t (some y)) made where
  users := h.users
  tenants := h.tenants
  outbox := h.outbox
  sent := h.sent
  userIds := by
    rw [keys_keep hx huser]
    exact h.userIds
  tenantIds := by
    rw [keys_keep hx htenant]
    exact h.tenantIds

theorem addTenant (h : Made s made) (hs : s.handlers t = some (.addingTenant a))
    (hfree : ∀ u, s.keys Handler.tenantKey u ≠ some a.tenantId)
    (hnew : a.tenantId ∉ s.tables.tenants.map Tenant.id) :
    Made (s.set t (some (.addingUser a))) made where
  users := h.users
  tenants := h.tenants
  outbox := h.outbox
  sent := h.sent
  userIds := by
    rw [keys_keep hs (y := .addingUser a) rfl]
    exact h.userIds
  tenantIds := by
    rw [keys_set]
    exact h.tenantIds.claim (h.ids.2 ▸ hnew) hfree t

theorem addUser (h : Made s made) (hs : s.handlers t = some (.addingUser a))
    (hfree : ∀ u, s.keys Handler.userKey u ≠ some a.userId)
    (hnew : a.userId ∉ s.tables.users.map User.id) :
    Made (s.set t (some (.publishingRegistered a))) made where
  users := h.users
  tenants := h.tenants
  outbox := h.outbox
  sent := h.sent
  userIds := by
    rw [keys_set]
    exact h.userIds.claim (h.ids.1 ▸ hnew) hfree t
  tenantIds := by
    rw [keys_keep hs (y := .publishingRegistered a) rfl]
    exact h.tenantIds

theorem commit (h : Made s made) (hc : c.Routed) (hs : s.handlers t = some (.committing a)) :
    Made ((s.commit c a).set t none) (made ++ [a]) where
  users := by simp [State.set, State.commit, h.users]
  tenants := by simp [State.set, State.commit, h.tenants]
  outbox := by
    have hall : (a.events.filter fun event =>
        c.getRoutingForChannel event.channel = .outbox) = a.events :=
      List.filter_eq_self.mpr fun event _ => decide_eq_true (hc.channel event)
    simp [State.set, State.commit, h.outbox, hall]
  sent := h.sent
  userIds := by
    rw [keys_set, List.map_append]
    exact h.userIds.settle (keys_of_handler hs)
  tenantIds := by
    rw [keys_set, List.map_append]
    exact h.tenantIds.settle (keys_of_handler hs)

theorem move (h : Made s made) (hc : c.Routed) (hmove : Move c s act s') :
    ∃ made', Made s' made' := by
  cases hmove with
  | delivered t user tenant hs => exact ⟨made, h.release rfl rfl⟩
  | found t a hs hnone => exact ⟨made, h.release rfl rfl⟩
  | tenantAdded t userId tenantId a hs hfree hnew => exact ⟨made, h.addTenant hs hfree hnew⟩
  | userAdded t userId tenantId a hs hfree hnew => exact ⟨made, h.addUser hs hfree hnew⟩
  | registered t userId tenantId a hs =>
    rw [send_of_routed hc]
    exact ⟨made, h.keep hs rfl rfl⟩
  | created t userId tenantId a hs =>
    rw [send_of_routed hc]
    exact ⟨made, h.keep hs rfl rfl⟩
  | committed act a hs => exact ⟨made ++ [a], h.commit hc hs⟩
  | rolledBack act => exact ⟨made, h.release rfl rfl⟩
  | sentAndRolledBack act event =>
    rw [send_of_routed hc]
    exact ⟨made, h.release rfl rfl⟩

omit [DecidableEq T] in
theorem consistent (h : Made s made) : Consistent s := by
  refine ⟨made, h.userIds.nodup, h.tenantIds.nodup, h.users, h.tenants, ?_⟩
  rw [h.outbox, h.sent, List.append_nil]

omit [DecidableEq T] in
theorem init : Made ({} : State T) [] where
  users := rfl
  tenants := rfl
  outbox := rfl
  sent := rfl
  userIds := ⟨List.nodup_nil, nofun, nofun⟩
  tenantIds := ⟨List.nodup_nil, nofun, nofun⟩

end Made

theorem made_of_trace {acts : List (Act T)} (hc : c.Routed)
    (h : Trace (handlers T c) free acts s) : ∃ made, Made s made := by
  refine h.invariant (P := fun s => ∃ made, Made s made) ?_ ?_
  · rintro s rfl
    exact ⟨[], Made.init⟩
  · rintro s act s' ⟨made, hs⟩ hnext
    exact hs.move hc (move_of_next hnext)

/-- One handler, before it has published anything. -/
def alone (t : T) (h : Handler) : State T := ({} : State T).set t (some h)

section alone

variable {h h' : Handler}

omit [Fintype T] in
theorem set_alone (t : T) (h h' : Handler) : (alone t h).set t (some h') = alone t h' := by
  simp [alone, State.set]

theorem next_returns (hs : s.handlers t = some h) (userId : ℕ) (tenantId : ℤ) :
    (handlers T c).next s (.returns t userId tenantId) = resume c s t userId tenantId h := by
  simp [handlers, hs]

theorem next_alone (c : OutboxConfig) (t : T) (h : Handler) (userId : ℕ) (tenantId : ℤ) :
    (handlers T c).next (alone t h) (.returns t userId tenantId) =
      resume c (alone t h) t userId tenantId h :=
  next_returns (by simp [alone, State.set]) userId tenantId

theorem flush_alone {K : Type} [DecidableEq K] {key : Handler → Option K} (hkey : key h = none)
    (k : K) (h' : Handler) : flush (alone t h) t key [] k h' = some (alone t h') := by
  have hfree : ¬∃ u, (alone t h).keys key u = some k := by
    rintro ⟨u, hu⟩
    rw [alone, keys_set, Option.bind_some, hkey] at hu
    rcases eq_or_ne u t with rfl | hne
    · simp at hu
    · simp [State.keys, hne] at hu
  rw [flush, if_neg hfree, if_neg List.not_mem_nil, set_alone]

end alone

theorem exists_publishing (c : OutboxConfig) (t : T) (a : Account) :
    ∃ acts, Trace (handlers T c) free acts (alone t (.publishingRegistered a)) := by
  have h₀ : Trace (handlers T c) free [] {} := ⟨{}, rfl, .nil⟩
  have h₁ := h₀.snoc (a := .deliver t a.directoryUser a.directoryTenant) trivial
    (t := alone t (.lookingUp a.directoryUser a.directoryTenant)) rfl
  have h₂ := h₁.snoc (a := .returns t a.userId a.tenantId) trivial (t := alone t (.addingTenant a))
    (by rw [next_alone]; exact congrArg some (set_alone t _ _))
  have h₃ := h₂.snoc (a := .returns t a.userId a.tenantId) trivial (t := alone t (.addingUser a))
    (by rw [next_alone]; exact flush_alone rfl a.tenantId _)
  have h₄ := h₃.snoc (a := .returns t a.userId a.tenantId) trivial
    (t := alone t (.publishingRegistered a))
    (by rw [next_alone]; exact flush_alone rfl a.userId _)
  exact ⟨_, h₄⟩

omit [DecidableEq T] [Fintype T] in
/-- Nothing is committed, and nothing may be out. -/
theorem sent_eq_nil (h : Consistent s) (htables : s.tables = {}) : s.sent = [] := by
  obtain ⟨made, -, -, husers, -, hout⟩ := h
  rw [htables] at husers hout
  obtain rfl : made = [] := List.map_eq_nil_iff.mp husers.symm
  exact hout.eq_nil

omit [DecidableEq T] [Fintype T] in
theorem send_tables (s : State T) (event : Event) : (s.send c event).tables = s.tables := by
  unfold State.send
  split <;> rfl

omit [DecidableEq T] [Fintype T] in
theorem send_handlers (s : State T) (event : Event) (t : T) :
    (s.send c event).handlers t = s.handlers t := by
  unfold State.send
  split <;> rfl

omit [DecidableEq T] [Fintype T] in
theorem routed_of_send {event : Event} (h : (s.send c event).sent = []) :
    c.getRoutingForChannel event.channel = .outbox := by
  unfold State.send at h
  split at h
  · assumption
  · simp at h

/-- Every run keeps the accounts and the events together if and only if both messages go to the
outbox. -/
theorem consistent_iff_routed [Inhabited T] :
    (∀ acts s, Trace (handlers T c) free acts s → Consistent s) ↔ c.Routed := by
  constructor
  · intro h
    obtain ⟨acts, h₀⟩ := exists_publishing c (default : T) default
    have h₁ := h₀.snoc (a := .returns default 0 0) trivial (next_alone c _ _ 0 0)
    have h₂ := h₁.snoc (a := .returns default 0 0) trivial
      (next_returns (h := .publishingCreated default) (by simp [State.set]) 0 0)
    have hregistered := sent_eq_nil (h _ _ h₁) (send_tables _ _)
    have hcreated := sent_eq_nil (h _ _ h₂)
      ((send_tables _ _).trans (send_tables (alone default _) _))
    exact ⟨routed_of_send hregistered, routed_of_send hcreated⟩
  · intro hc acts s htrace
    obtain ⟨made, hmade⟩ := made_of_trace hc htrace
    exact hmade.consistent

def User.person (u : User) : String × String := (u.email, u.username)

def Handler.looksFor : Handler → Option (String × String)
  | .lookingUp user _ => some (user.email, user.username)
  | .addingTenant _ | .addingUser _ | .publishingRegistered _ | .publishingCreated _
  | .committing _ => none

/-- The person for whom a handler has found no account. -/
def Handler.personKey : Handler → Option (String × String)
  | .lookingUp _ _ => none
  | .addingTenant a | .addingUser a | .publishingRegistered a | .publishingCreated a
  | .committing a => some (a.directoryUser.email, a.directoryUser.username)

/-- No handler looks for a person while another one that has found no account is still at work. -/
def LooksAlone : Condition (State T) (Act T)
  | _, s, .returns t _ _ =>
    ∀ p ∈ s.keys Handler.looksFor t, ∀ u, s.keys Handler.personKey u ≠ some p
  | _, _, .deliver _ _ _ | _, _, .raises _ _ => True

def Single (s : State T) : Prop :=
  Unique (s.keys Handler.personKey) (s.tables.users.map User.person)

namespace Single

omit [Fintype T]

theorem drop (h : Single s) (t : T) : Single (s.set t none) := by
  rw [Single, keys_set]
  exact h.release t

theorem keep (h : Single s) {x y : Handler} (hx : s.handlers t = some x)
    (hkey : y.personKey = x.personKey) : Single (s.set t (some y)) := by
  rw [Single, keys_keep hx hkey]
  exact h

theorem found (h : Single s)
    (hfree : ∀ u, s.keys Handler.personKey u ≠
      some (a.directoryUser.email, a.directoryUser.username))
    (hnone : ∀ u ∈ s.tables.users,
      ¬(u.email = a.directoryUser.email ∧ u.username = a.directoryUser.username)) :
    Single (s.set t (some (.addingTenant a))) := by
  have hnew : (a.directoryUser.email, a.directoryUser.username) ∉
      s.tables.users.map User.person := by
    intro hmem
    obtain ⟨u, hu, heq⟩ := List.mem_map.mp hmem
    exact hnone u hu (Prod.mk.inj heq)
  rw [Single, keys_set]
  exact h.claim hnew hfree t

theorem commit (h : Single s) (hs : s.handlers t = some (.committing a)) :
    Single ((s.commit c a).set t none) := by
  have husers : ((s.commit c a).set t none).tables.users.map User.person =
      s.tables.users.map User.person ++ [(a.directoryUser.email, a.directoryUser.username)] := by
    simp only [State.set, State.commit, List.map_append]
    rfl
  rw [Single, keys_set, husers]
  exact h.settle (keys_of_handler hs)

omit [DecidableEq T] in
theorem send (h : Single s) (event : Event) : Single (s.send c event) := by
  unfold State.send
  split <;> exact h

theorem move (h : Single s) (hlook : LooksAlone [] s act) (hmove : Move c s act s') :
    Single s' := by
  cases hmove with
  | delivered t user tenant hs =>
    rw [Single, keys_set]
    exact h.release t
  | found t a hs hnone => exact h.found (hlook _ (keys_of_handler hs)) hnone
  | tenantAdded t userId tenantId a hs => exact h.keep hs rfl
  | userAdded t userId tenantId a hs => exact h.keep hs rfl
  | registered t userId tenantId a hs =>
    exact (h.send a.registered).keep ((send_handlers _ _ t).trans hs) rfl
  | created t userId tenantId a hs =>
    exact (h.send a.created).keep ((send_handlers _ _ t).trans hs) rfl
  | committed act a hs => exact h.commit hs
  | rolledBack act => exact h.drop act.task
  | sentAndRolledBack act event => exact (h.send event).drop act.task

end Single

/-- However often the event of a person is delivered, there is at most one account for the person,
where no handler looks for a person while another one is making the account. -/
theorem one_account {acts : List (Act T)} (h : Trace (handlers T c) LooksAlone acts s) :
    (s.tables.users.map User.person).Nodup := by
  have hsingle : Single s := by
    refine Trace.induct (I := fun _ s => Single s) ?_ ?_ acts s h
    · rintro s rfl
      exact ⟨List.nodup_nil, nofun, nofun⟩
    · intro past s act s' _ hs hok hnext
      refine hs.move ?_ (move_of_next hnext)
      cases act with
      | deliver t user tenant => trivial
      | returns t userId tenantId => exact hok
      | raises t done => trivial
  exact hsingle.nodup

instance (past : List (Act T)) (s : State T) : (act : Act T) → Decidable (LooksAlone past s act)
  | .deliver _ _ _ => isTrue trivial
  | .raises _ _ => isTrue trivial
  | .returns t _ _ => inferInstanceAs (Decidable
      (∀ p ∈ s.keys Handler.looksFor t, ∀ u, s.keys Handler.personKey u ≠ some p))

/-- An event is delivered to two handlers, of which one looks when the other one is done. -/
def deliveredTwice : List (Act Bool) :=
  [.deliver true ⟨"ada@taas", "ada"⟩ ⟨"org", "ada"⟩,
    .deliver false ⟨"ada@taas", "ada"⟩ ⟨"org", "ada"⟩, .returns true 1 10000000,
    .returns true 0 0, .returns true 0 0, .returns true 0 0, .returns true 0 0, .returns true 0 0,
    .returns false 2 10000001]

theorem one_account_deliveredTwice :
    ∃ s, Trace (handlers Bool {}) LooksAlone deliveredTwice s ∧
      s.tables.users = [⟨1, "ada@taas", "ada", 10000000⟩] ∧
      (s.tables.users.map User.person).Nodup := by
  have hrun : ((replay (handlers Bool {}) LooksAlone [] deliveredTwice {}).map
      fun s => s.tables.users) = some [⟨1, "ada@taas", "ada", 10000000⟩] := by
    decide +kernel
  obtain ⟨s, hs, husers⟩ := Option.map_eq_some_iff.mp hrun
  exact ⟨s, trace_of_replay rfl hs, husers, one_account (trace_of_replay rfl hs)⟩

end Taas.Onboarding
