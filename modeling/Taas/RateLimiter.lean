import Mathlib.Algebra.Order.Ring.Rat
import Mathlib.Data.List.DropRight
import Mathlib.Data.Option.Basic
import Mathlib.Tactic.Linarith
import Taas.Transition

/-!
The checks of the rate limiter and its fall-back to the memory. A check does not suspend: it loops
over the limits, marks the storage dead when a hit of it raises, and begins again. While the storage
is dead it is probed now and then, and the memory counts the hits.
-/
namespace Taas.RateLimiter

open Transition

variable {Item R : Type}

structure Request (R : Type) where
  path : String
  method : String
  state : R

/-- A limit. Its callables may raise, which is `none`. An empty scope stands for none. -/
structure Limit (Item R : Type) where
  limit : Item
  keyFunc : Request R → Option String
  scope : String := ""
  perMethod : Bool := false
  methods : Option (List String) := none
  isExempt : Request R → Option Bool := fun _ => some false
  cost : Request R → Option ℤ := fun _ => some 1
  overrideDefaults : Bool := false

inductive LoadError
  | valueError
  | other
  deriving DecidableEq

/-- What iterating a `LimitGroup` gives. -/
abbrev LimitGroup (Item R : Type) := Except LoadError (List (Limit Item R))

inductive KeyStyle
  | endpoint
  | url
  deriving DecidableEq

structure Limiter (Item R : Type) where
  enabled : Bool := true
  keyPrefix : String := ""
  keyStyle : KeyStyle := .url
  headersEnabled : Bool := false
  swallowErrors : Bool := false
  /-- With it there is a `_fallback_limiter`. -/
  inMemoryFallbackEnabled : Bool := false
  inMemoryFallback : List (LimitGroup Item R) := []
  applicationLimits : List (LimitGroup Item R) := []
  defaultLimits : List (LimitGroup Item R) := []
  routeLimits : String → List (Limit Item R) := fun _ => []
  dynamicRouteLimits : String → Request R → List (LimitGroup Item R) := fun _ _ => []
  markedForLimiting : String → Bool := fun _ => false
  exemptRoutes : String → Bool := fun _ => false

def maxBackendChecks : ℕ := 5

structure Health where
  storageDead : Bool := false
  checkBackendCount : ℕ := 0
  lastCheckBackend : ℚ
  deriving DecidableEq

/-- The count at the top of `__should_check_backend`, which goes round. -/
def Health.wrappedCount (h : Health) : ℕ :=
  if maxBackendChecks < h.checkBackendCount then 0 else h.checkBackendCount

/-- `__should_check_backend`, with its two readings of the clock. -/
def shouldCheckBackend (h : Health) (now stamp : ℚ) : Bool × Health :=
  if 2 ^ h.wrappedCount < now - h.lastCheckBackend then
    (true, { h with checkBackendCount := h.wrappedCount + 1, lastCheckBackend := stamp })
  else (false, { h with checkBackendCount := h.wrappedCount })

inductive Backend
  | storage
  | memory
  deriving DecidableEq

/-- What the limiter does: it asks a backend, probes the storage or marks it dead. -/
inductive Event
  | uses (backend : Backend)
  | probed (time : ℚ) (recovered : Bool)
  | died
  deriving DecidableEq

/-- What one turn of a check meets: the request filters, the clock, the health check of the storage,
and the answers of the backends to its hits, of which the storage may raise. -/
structure Turn where
  filtered : Bool := false
  now : ℚ
  stamp : ℚ
  check : Bool
  storageHit : ℕ → Option Bool
  memoryHit : ℕ → Bool

inductive Verdict (Item R : Type)
  | within (header : Option (Item × List String))
  | exceeded (limit : Limit Item R) (header : Item × List String)
  | error

def Limit.limitScope (lim : Limit Item R) (request : Request R) (endpoint : String) : String :=
  (if lim.scope = "" then endpoint else lim.scope) ++
    if lim.perMethod then ":" ++ request.method else ""

/-- The loop of `__evaluate_limits`, with the number of hits it makes. -/
def evaluateLimits [LT Item] [DecidableLT Item] (keyPrefix : String) (request : Request R)
    (endpoint : String) (answer : ℕ → Option Bool) :
    List (Limit Item R) → ℕ → Option (Item × List String) → ℕ × Verdict Item R
  | [], hits, header => (hits, .within header)
  | lim :: limits, hits, header =>
    match lim.isExempt request with
    | none => (hits, .error)
    | some true => evaluateLimits keyPrefix request endpoint answer limits hits header
    | some false =>
      if lim.methods.any fun methods => request.method.toLower ∉ methods then
        evaluateLimits keyPrefix request endpoint answer limits hits header
      else
        let limitScope := lim.limitScope request endpoint
        match lim.keyFunc request with
        | none => (hits, .error)
        | some limitKey =>
          if limitKey = "" ∨ limitScope = "" then
            evaluateLimits keyPrefix request endpoint answer limits hits header
          else
            let args := (if keyPrefix = "" then [] else [keyPrefix]) ++ [limitKey, limitScope]
            let header := if header.all fun x => lim.limit < x.1 then some (lim.limit, args)
              else header
            match lim.cost request with
            | none => (hits, .error)
            | some _ =>
              match answer hits with
              | none => (hits + 1, .error)
              | some false => (hits + 1, .exceeded lim (lim.limit, args))
              | some true =>
                evaluateLimits keyPrefix request endpoint answer limits (hits + 1) header

def chain : List (LimitGroup Item R) → Option (List (Limit Item R))
  | [] => some []
  | .error _ :: _ => none
  | .ok limits :: groups => (chain groups).map (limits ++ ·)

/-- The limits of the groups, but for those that raise a `ValueError`, which is logged. -/
def loadDynamic : List (LimitGroup Item R) → Option (List (Limit Item R))
  | [] => some []
  | .error .valueError :: groups => loadDynamic groups
  | .error .other :: _ => none
  | .ok limits :: groups => (loadDynamic groups).map (limits ++ ·)

/-- The limits of the route, which the middleware leaves to the endpoint. -/
def Limiter.limitsOfRoute (l : Limiter Item R) (name : String) (request : Request R)
    (inMiddleware : Bool) : Option (List (Limit Item R)) :=
  if inMiddleware then some []
  else (loadDynamic (l.dynamicRouteLimits name request)).map (l.routeLimits name ++ ·)

/-- The limits of a request when none come from the fall-back. -/
def regularLimits (l : Limiter Item R) (name : String) (inMiddleware : Bool)
    (routeLimits : List (Limit Item R)) : Option (List (Limit Item R)) :=
  let application := if inMiddleware then chain l.applicationLimits else some []
  let combinedDefaults := routeLimits.all fun limit => !limit.overrideDefaults
  let defaults :=
    if routeLimits.isEmpty && !(inMiddleware && l.markedForLimiting name) || combinedDefaults then
      chain l.defaultLimits
    else some []
  application.bind fun application =>
    defaults.map fun defaults => application ++ routeLimits ++ defaults

/-- The limits that the fall-back asks for, with the health after the probe that comes first. -/
def fallbackLimits (l : Limiter Item R) (h : Health) (name : String) (inMiddleware : Bool)
    (turn : Turn) : Option (List (Limit Item R)) × Health × List Event :=
  if h.storageDead && l.inMemoryFallbackEnabled then
    if inMiddleware && l.markedForLimiting name then (some [], h, [])
    else
      let (should, h') := shouldCheckBackend h turn.now turn.stamp
      if should && turn.check then
        (some [], { h' with storageDead := false, checkBackendCount := 0 },
          [.probed turn.stamp true])
      else (chain l.inMemoryFallback, h', if should then [.probed turn.stamp false] else [])
  else (some [], h, [])

/-- The property `limiter`. -/
def limiterOf (l : Limiter Item R) (h : Health) : Backend :=
  if h.storageDead && l.inMemoryFallbackEnabled then .memory else .storage

def Turn.answer (turn : Turn) : Backend → ℕ → Option Bool
  | .storage => turn.storageHit
  | .memory => fun n => some (turn.memoryHit n)

def tryOnce [LT Item] [DecidableLT Item] (l : Limiter Item R) (h : Health) (request : Request R)
    (name endpointKey : String) (inMiddleware : Bool) (routeLimits : List (Limit Item R))
    (turn : Turn) :
    Verdict Item R × Health × List Event :=
  let (fallback, h', events) := fallbackLimits l h name inMiddleware turn
  let allLimits := fallback.bind fun limits =>
    if limits.isEmpty then regularLimits l name inMiddleware routeLimits else some limits
  match allLimits with
  | none => (.error, h', events)
  | some limits =>
    let backend := limiterOf l h'
    let (hits, verdict) :=
      evaluateLimits l.keyPrefix request endpointKey (turn.answer backend) limits 0 none
    (verdict, h', events ++ List.replicate hits (.uses backend))

/-- How a check ends. It raises `RateLimitExceeded` or another exception, or the request goes on:
with the limit for its headers, or with none noted when the limits were not evaluated to the end. -/
inductive Result (Item R : Type)
  | passed (viewRateLimit : Option (Item × List String))
  | skipped
  | exceeded (limit : Limit Item R) (viewRateLimit : Item × List String)
  | raised

def Limiter.endpointKey (l : Limiter Item R) (request : Request R) (name : String) : String :=
  match l.keyStyle with
  | .url => request.path
  | .endpoint => name

def Limiter.unchecked (l : Limiter Item R) (request : Request R) (name : String) (turn : Turn) :
    Bool :=
  l.endpointKey request name = "" || !l.enabled || l.exemptRoutes name || turn.filtered

/-- `_check_request_limit` for the endpoint function of this name, which calls itself once it has
marked the storage dead. `none`: more turns are needed. -/
def checkRequestLimit [LT Item] [DecidableLT Item] (l : Limiter Item R) (request : Request R)
    (name : String) (inMiddleware : Bool) :
    List Turn → Health → Option (Result Item R × Health × List Event)
  | [], _ => none
  | turn :: turns, h =>
    if l.unchecked request name turn then some (.skipped, h, [])
    else
      match l.limitsOfRoute name request inMiddleware with
      | none => some (.raised, h, [])
      | some routeLimits =>
        let (verdict, h', events) :=
          tryOnce l h request name (l.endpointKey request name) inMiddleware routeLimits turn
        match verdict with
        | .within header => some (.passed header, h', events)
        | .exceeded limit header => some (.exceeded limit header, h', events)
        | .error =>
          if l.inMemoryFallbackEnabled && !h'.storageDead then
            (checkRequestLimit l request name inMiddleware turns
              { h' with storageDead := true }).map fun x => (x.1, x.2.1, events ++ .died :: x.2.2)
          else if l.swallowErrors then some (.skipped, h', events)
          else some (.raised, h', events)

/-- `_inject_headers` for a request with (`present`) a limit for its headers, and for an object that
is a `Response` or not: which of its attempts fail, whether it raises. `none`: more attempts are
needed. -/
def injectHeaders (l : Limiter Item R) (present isResponse : Bool) :
    List Bool → Health → Option (Bool × Health × List Event)
  | [], _ => none
  | fails :: attempts, h =>
    if l.enabled && l.headersEnabled && present then
      -- raised outside the `try`, whatever `swallow_errors` says
      if !isResponse then some (true, h, [])
      else if !fails then some (false, h, [.uses (limiterOf l h)])
      else if !l.inMemoryFallback.isEmpty && !h.storageDead then
        -- the error is raised again even where the second attempt has written the headers
        (injectHeaders l present isResponse attempts { h with storageDead := true }).map fun x =>
          (x.1 || !l.swallowErrors, x.2.1, .uses (limiterOf l h) :: .died :: x.2.2)
      else some (!l.swallowErrors, h, [.uses (limiterOf l h)])
    else some (false, h, [])

/-- A call of `_inject_headers` that has ended. -/
structure Injection where
  present : Bool
  isResponse : Bool
  raised : Bool

structure Monitor (Item R : Type) where
  health : Health
  results : List (Result Item R) := []
  injections : List Injection := []
  log : List Event := []

inductive Act (R : Type)
  | check (request : Request R) (name : String) (inMiddleware : Bool) (turns : List Turn)
  | inject (present isResponse : Bool) (attempts : List Bool)

/-- The limiter that was made at `start`. -/
def limiter [LT Item] [DecidableLT Item] (l : Limiter Item R) (start : ℚ) :
    System (Monitor Item R) (Act R) where
  init m := m = { health := { lastCheckBackend := start } }
  next m
    | .check request name inMiddleware turns =>
      (checkRequestLimit l request name inMiddleware turns m.health).map fun x =>
        { m with health := x.2.1, results := m.results ++ [x.1], log := m.log ++ x.2.2 }
    | .inject present isResponse attempts =>
      (injectHeaders l present isResponse attempts m.health).map fun x =>
        { m with
          health := x.2.1
          injections := m.injections ++ [⟨present, isResponse, x.1⟩]
          log := m.log ++ x.2.2 }

variable {l : Limiter Item R} {h h' : Health} {request : Request R} {name endpointKey : String}
  {inMiddleware : Bool} {routeLimits limits : List (Limit Item R)} {turn : Turn}

/-- Whether the storage counts as dead after the events: it is hit and dies only while it does not,
and the memory is hit and the storage probed only while it does. -/
def deadAfter : Bool → List Event → Option Bool
  | dead, [] => some dead
  | dead, .uses .storage :: events => if dead then none else deadAfter dead events
  | dead, .uses .memory :: events => if dead then deadAfter dead events else none
  | dead, .probed _ recovered :: events => if dead then deadAfter (!recovered) events else none
  | dead, .died :: events => if dead then none else deadAfter true events

/-- None of the callables raises. -/
def Limit.Total (limit : Limit Item R) : Prop :=
  ∀ request, (limit.keyFunc request).isSome ∧ (limit.isExempt request).isSome ∧
    (limit.cost request).isSome

/-- Every group loads, and none of its callables raises. -/
def TotalGroups (groups : List (LimitGroup Item R)) : Prop :=
  ∀ group ∈ groups, ∃ limits, group = .ok limits ∧ ∀ limit ∈ limits, limit.Total

/-- The limits of the application are well formed; a dynamic one may raise a `ValueError`. -/
structure Limiter.Total (l : Limiter Item R) : Prop where
  fallback : TotalGroups l.inMemoryFallback
  application : TotalGroups l.applicationLimits
  default : TotalGroups l.defaultLimits
  route : ∀ name, ∀ limit ∈ l.routeLimits name, limit.Total
  dynamic : ∀ name request, ∀ group ∈ l.dynamicRouteLimits name request,
    group = .error .valueError ∨ ∃ limits, group = .ok limits ∧ ∀ limit ∈ limits, limit.Total

theorem deadAfter_append (dead : Bool) (first second : List Event) :
    deadAfter dead (first ++ second) = (deadAfter dead first).bind (deadAfter · second) := by
  induction first generalizing dead with
  | nil => rfl
  | cons event first ih =>
    cases event with
    | uses backend => cases backend <;> cases dead <;> simp [deadAfter, ih]
    | probed time recovered => cases dead <;> simp [deadAfter, ih]
    | died => cases dead <;> simp [deadAfter, ih]

theorem deadAfter_uses_cons (h : Health) (hfallback : l.inMemoryFallbackEnabled = true)
    (events : List Event) :
    deadAfter h.storageDead (.uses (limiterOf l h) :: events) = deadAfter h.storageDead events := by
  cases hdead : h.storageDead <;> simp [limiterOf, deadAfter, hfallback, hdead]

theorem deadAfter_uses (h : Health) (hfallback : l.inMemoryFallbackEnabled = true) (n : ℕ) :
    deadAfter h.storageDead (List.replicate n (.uses (limiterOf l h))) = some h.storageDead := by
  induction n with
  | zero => rfl
  | succ n ih => rw [List.replicate_succ, deadAfter_uses_cons h hfallback, ih]

theorem chain_isSome {groups : List (LimitGroup Item R)} (h : TotalGroups groups) :
    ∃ limits, chain groups = some limits ∧ ∀ limit ∈ limits, limit.Total := by
  induction groups with
  | nil => exact ⟨[], rfl, by simp⟩
  | cons group groups ih =>
    obtain ⟨limits, rfl, hlimits⟩ := h group (by simp)
    obtain ⟨rest, hrest, htotal⟩ := ih fun g hg => h g (by simp [hg])
    refine ⟨limits ++ rest, by simp [chain, hrest], fun limit hlimit => ?_⟩
    rcases List.mem_append.mp hlimit with hlimit | hlimit
    · exact hlimits limit hlimit
    · exact htotal limit hlimit

theorem regularLimits_isSome (hl : l.Total) (hroute : ∀ limit ∈ routeLimits, limit.Total)
    (name : String) (inMiddleware : Bool) :
    ∃ limits, regularLimits l name inMiddleware routeLimits = some limits ∧
      ∀ limit ∈ limits, limit.Total := by
  have hoptional : ∀ {groups : List (LimitGroup Item R)}, TotalGroups groups → ∀ b : Bool,
      ∃ limits, (if b then chain groups else some []) = some limits ∧
        ∀ limit ∈ limits, limit.Total := by
    intro groups hgroups b
    cases b with
    | true => exact chain_isSome hgroups
    | false => exact ⟨[], rfl, by simp⟩
  obtain ⟨application, happlication, htotal⟩ := hoptional hl.application inMiddleware
  obtain ⟨defaults, hdefaults, htotal'⟩ := hoptional hl.default
    (routeLimits.isEmpty && !(inMiddleware && l.markedForLimiting name) ||
      routeLimits.all fun limit => !limit.overrideDefaults)
  refine ⟨application ++ routeLimits ++ defaults, ?_, fun limit hlimit => ?_⟩
  · simp only [regularLimits, happlication, hdefaults, Option.bind_some, Option.map_some]
  · rcases List.mem_append.mp hlimit with hlimit | hlimit
    · rcases List.mem_append.mp hlimit with hlimit | hlimit
      · exact htotal limit hlimit
      · exact hroute limit hlimit
    · exact htotal' limit hlimit

theorem loadDynamic_isSome {groups : List (LimitGroup Item R)}
    (h : ∀ group ∈ groups, group = .error .valueError ∨
      ∃ limits, group = .ok limits ∧ ∀ limit ∈ limits, limit.Total) :
    ∃ limits, loadDynamic groups = some limits ∧ ∀ limit ∈ limits, limit.Total := by
  induction groups with
  | nil => exact ⟨[], rfl, by simp⟩
  | cons group groups ih =>
    obtain ⟨rest, hrest, htotal⟩ := ih fun g hg => h g (by simp [hg])
    rcases h group (by simp) with rfl | ⟨limits, rfl, hlimits⟩
    · exact ⟨rest, by simp [loadDynamic, hrest], htotal⟩
    · refine ⟨limits ++ rest, by simp [loadDynamic, hrest], fun limit hlimit => ?_⟩
      rcases List.mem_append.mp hlimit with hlimit | hlimit
      · exact hlimits limit hlimit
      · exact htotal limit hlimit

theorem limitsOfRoute_isSome (hl : l.Total) (name : String) (request : Request R)
    (inMiddleware : Bool) :
    ∃ limits, l.limitsOfRoute name request inMiddleware = some limits ∧
      ∀ limit ∈ limits, limit.Total := by
  unfold Limiter.limitsOfRoute
  cases inMiddleware with
  | true => exact ⟨[], rfl, by simp⟩
  | false =>
    obtain ⟨limits, hlimits, htotal⟩ := loadDynamic_isSome (hl.dynamic name request)
    refine ⟨l.routeLimits name ++ limits, by simp [hlimits], fun limit hlimit => ?_⟩
    rcases List.mem_append.mp hlimit with hlimit | hlimit
    · exact hl.route name limit hlimit
    · exact htotal limit hlimit

theorem storageDead_shouldCheckBackend (h : Health) (now stamp : ℚ) :
    (shouldCheckBackend h now stamp).2.storageDead = h.storageDead := by
  unfold shouldCheckBackend
  split <;> rfl

theorem deadAfter_fallbackLimits (hfallback : l.inMemoryFallbackEnabled = true) (h : Health)
    (name : String) (inMiddleware : Bool) (turn : Turn) :
    deadAfter h.storageDead (fallbackLimits l h name inMiddleware turn).2.2 =
      some (fallbackLimits l h name inMiddleware turn).2.1.storageDead := by
  unfold fallbackLimits
  cases hdead : h.storageDead with
  | false => simp [deadAfter, hdead]
  | true =>
    simp only [hfallback, Bool.and_self, if_true]
    split
    · simp [deadAfter, hdead]
    · have hkept := (storageDead_shouldCheckBackend h turn.now turn.stamp).trans hdead
      cases (shouldCheckBackend h turn.now turn.stamp).1 <;> cases turn.check <;>
        simp [deadAfter, hkept]

theorem fallbackLimits_isSome (hl : l.Total) (h : Health) (name : String) (inMiddleware : Bool)
    (turn : Turn) :
    ∃ limits, (fallbackLimits l h name inMiddleware turn).1 = some limits ∧
      ∀ limit ∈ limits, limit.Total := by
  unfold fallbackLimits
  split
  · split
    · exact ⟨[], rfl, by simp⟩
    · simp only
      split
      · exact ⟨[], rfl, by simp⟩
      · exact chain_isSome hl.fallback
  · exact ⟨[], rfl, by simp⟩

/-- There are headers to write, and nothing to write them to. -/
def Limiter.Misplaced (l : Limiter Item R) (present isResponse : Bool) : Prop :=
  (l.enabled && l.headersEnabled && present && !isResponse) = true

theorem injectHeaders_spec (hfallback : l.inMemoryFallbackEnabled = true)
    {present isResponse : Bool} {attempts : List Bool} {out : Bool × Health × List Event}
    (hout : injectHeaders l present isResponse attempts h = some out) :
    (l.swallowErrors = true → (out.1 = true ↔ l.Misplaced present isResponse)) ∧
      deadAfter h.storageDead out.2.2 = some out.2.1.storageDead := by
  induction attempts generalizing h out with
  | nil => cases hout
  | cons fails attempts ih =>
    unfold injectHeaders at hout
    split at hout
    · rename_i hwrites
      split at hout
      · rename_i hno
        obtain rfl := Option.some.inj hout
        exact ⟨fun _ => by simp [Limiter.Misplaced, hwrites, hno], rfl⟩
      · rename_i hyes
        split at hout
        · obtain rfl := Option.some.inj hout
          exact ⟨fun _ => by simp [Limiter.Misplaced, hyes],
            by rw [deadAfter_uses_cons h hfallback]; rfl⟩
        · split at hout
          · obtain ⟨rest, hrest, rfl⟩ := Option.map_eq_some_iff.mp hout
            obtain ⟨hraises, hdead⟩ := ih hrest
            have halive : h.storageDead = false := by simp_all
            refine ⟨fun hswallow => by simp [hraises hswallow, hswallow], ?_⟩
            rw [deadAfter_uses_cons h hfallback, halive]
            exact hdead
          · obtain rfl := Option.some.inj hout
            exact ⟨fun hswallow => by simp [Limiter.Misplaced, hyes, hswallow],
              by rw [deadAfter_uses_cons h hfallback]; rfl⟩
    · rename_i hno
      obtain rfl := Option.some.inj hout
      exact ⟨fun _ => by simp [Limiter.Misplaced, hno], rfl⟩

section

variable [LT Item] [DecidableLT Item]

theorem evaluateLimits_ne_error {keyPrefix endpoint : String} {answer : ℕ → Option Bool}
    (hanswer : ∀ n, (answer n).isSome) (hlimits : ∀ limit ∈ limits, limit.Total) (hits : ℕ)
    (header : Option (Item × List String)) :
    (evaluateLimits keyPrefix request endpoint answer limits hits header).2 ≠ .error := by
  induction limits generalizing hits header with
  | nil => simp [evaluateLimits]
  | cons limit limits ih =>
    have hrest := fun hits header => ih (fun x hx => hlimits x (by simp [hx])) hits header
    obtain ⟨hkey, hexempt, hcost⟩ := hlimits limit (by simp) request
    obtain ⟨key, hkey⟩ := Option.isSome_iff_exists.mp hkey
    obtain ⟨exempt, hexempt⟩ := Option.isSome_iff_exists.mp hexempt
    obtain ⟨cost, hcost⟩ := Option.isSome_iff_exists.mp hcost
    obtain ⟨accepted, haccepted⟩ := Option.isSome_iff_exists.mp (hanswer hits)
    unfold evaluateLimits
    simp only [hkey, hexempt, hcost, haccepted]
    cases exempt with
    | true => exact hrest _ _
    | false =>
      simp only
      split
      · exact hrest _ _
      · split
        · exact hrest _ _
        · cases accepted with
          | true => exact hrest _ _
          | false => simp

theorem deadAfter_tryOnce (hfallback : l.inMemoryFallbackEnabled = true) (h : Health)
    (request : Request R) (name endpointKey : String) (inMiddleware : Bool)
    (routeLimits : List (Limit Item R)) (turn : Turn) :
    deadAfter h.storageDead
        (tryOnce l h request name endpointKey inMiddleware routeLimits turn).2.2 =
      some
        (tryOnce l h request name endpointKey inMiddleware routeLimits turn).2.1.storageDead := by
  have hbefore := deadAfter_fallbackLimits hfallback h name inMiddleware turn
  unfold tryOnce
  simp only
  split
  · exact hbefore
  · rw [deadAfter_append, hbefore, Option.bind_some, deadAfter_uses _ hfallback]

theorem alive_of_error (h : Health) (request : Request R) (name endpointKey : String)
    (inMiddleware : Bool) (turn : Turn) (hl : l.Total) (hroute : ∀ limit ∈ routeLimits, limit.Total)
    (hfallback : l.inMemoryFallbackEnabled = true)
    (herror : (tryOnce l h request name endpointKey inMiddleware routeLimits turn).1 = .error) :
    (tryOnce l h request name endpointKey inMiddleware routeLimits turn).2.1.storageDead =
      false := by
  obtain ⟨limits, hlimits, htotal⟩ := fallbackLimits_isSome hl h name inMiddleware turn
  obtain ⟨regular, hregular, htotal'⟩ := regularLimits_isSome hl hroute name inMiddleware
  have hall : ∃ all, ((fallbackLimits l h name inMiddleware turn).1.bind fun limits =>
      if limits.isEmpty then regularLimits l name inMiddleware routeLimits else some limits) =
        some all ∧ ∀ limit ∈ all, limit.Total := by
    rw [hlimits, Option.bind_some]
    split
    · exact ⟨regular, hregular, htotal'⟩
    · exact ⟨limits, rfl, htotal⟩
  obtain ⟨all, hall, htotal⟩ := hall
  unfold tryOnce at herror ⊢
  simp only [hall] at herror ⊢
  by_contra hdead
  have hmemory : limiterOf l (fallbackLimits l h name inMiddleware turn).2.1 = .memory := by
    simp [limiterOf, hfallback, eq_true_of_ne_false hdead]
  rw [hmemory] at herror
  exact evaluateLimits_ne_error (fun n => rfl) htotal 0 none herror

theorem checkRequestLimit_spec (hl : l.Total) (hfallback : l.inMemoryFallbackEnabled = true)
    {turns : List Turn} {out : Result Item R × Health × List Event}
    (hout : checkRequestLimit l request name inMiddleware turns h = some out) :
    out.1 ≠ .raised ∧ deadAfter h.storageDead out.2.2 = some out.2.1.storageDead := by
  obtain ⟨routeLimits, hrouteLimits, hroute⟩ := limitsOfRoute_isSome hl name request inMiddleware
  induction turns generalizing h out with
  | nil => cases hout
  | cons turn turns ih =>
    have hdead := deadAfter_tryOnce hfallback h request name (l.endpointKey request name)
      inMiddleware routeLimits turn
    have halive := alive_of_error h request name (l.endpointKey request name) inMiddleware turn hl
      hroute hfallback
    unfold checkRequestLimit at hout
    simp only [hrouteLimits] at hout
    split at hout
    · obtain rfl := Option.some.inj hout
      exact ⟨by simp, rfl⟩
    generalize tryOnce l h request name (l.endpointKey request name) inMiddleware routeLimits turn
      = once at *
    obtain ⟨verdict, h', events⟩ := once
    simp only at hout hdead halive
    cases verdict with
    | within header =>
      obtain rfl := Option.some.inj hout
      exact ⟨by simp, hdead⟩
    | exceeded limit header =>
      obtain rfl := Option.some.inj hout
      exact ⟨by simp, hdead⟩
    | error =>
      rw [halive rfl] at hdead
      simp only [hfallback, halive rfl, Bool.not_false, Bool.and_self, if_true] at hout
      obtain ⟨rest, hrest, rfl⟩ := Option.map_eq_some_iff.mp hout
      obtain ⟨hresult, hdead'⟩ := ih hrest
      refine ⟨hresult, ?_⟩
      rw [deadAfter_append, hdead]
      exact hdead'

end

def perMinute : Limit ℕ Unit := { limit := 60, keyFunc := fun _ => some "127.0.0.1" }

def perClient : Limiter ℕ Unit :=
  { headersEnabled := true
    inMemoryFallbackEnabled := true
    inMemoryFallback := [.ok [perMinute]]
    defaultLimits := [.ok [perMinute]] }

def index : Request Unit := ⟨"/", "GET", ()⟩

def failing (time : ℚ) (check : Bool) : Turn :=
  { now := time, stamp := time, check, storageHit := fun _ => none, memoryHit := fun _ => true }

def lost : List (Act Unit) :=
  [.check index "app.index" true [failing 0 false, failing 0 false], .inject true true [false],
    .check index "app.index" true [failing 2 false],
    .check index "app.index" true [failing 5 true, failing 5 true]]

theorem perClient_total : perClient.Total where
  fallback := by simp [TotalGroups, perClient, perMinute, Limit.Total]
  application := by simp [TotalGroups, perClient]
  default := by simp [TotalGroups, perClient, perMinute, Limit.Total]
  route := by simp [perClient]
  dynamic := by simp [perClient]

/-- The probes among the events: their times, and whether they found the storage well. -/
def probes (events : List Event) : List (ℚ × Bool) :=
  events.filterMap fun
    | .probed time recovered => some (time, recovered)
    | _ => none

/-- How many probes have failed since the last that did not. -/
def failures (ps : List (ℚ × Bool)) : ℕ := (ps.rtakeWhile fun p => !p.2).length

/-- After each probe the next one waits for a power of two of seconds, which begins anew with every
recovery and after every sixth failure. -/
def Spaced (ps : List (ℚ × Bool)) : Prop :=
  ∀ before p q after, ps = before ++ p :: q :: after →
    2 ^ (failures (before ++ [p]) % (maxBackendChecks + 1)) < q.1 - p.1

/-- The counters of the limiter tell of its probes. -/
structure Paced (start : ℚ) (log : List Event) (h : Health) : Prop where
  last : ∃ before p, (start, true) :: probes log = before ++ [p] ∧ p.1 = h.lastCheckBackend
  count : h.wrappedCount = failures ((start, true) :: probes log) % (maxBackendChecks + 1)
  le : h.checkBackendCount ≤ maxBackendChecks + 1
  spaced : Spaced ((start, true) :: probes log)

/-- The clock does not go back between its two readings. -/
def Turn.Forward (turn : Turn) : Prop := turn.now ≤ turn.stamp

def ClockForward {S : Type} : Condition S (Act R)
  | _, _, .check _ _ _ turns => ∀ turn ∈ turns, turn.Forward
  | _, _, .inject _ _ _ => True

variable {start : ℚ} {log events : List Event} {ps : List (ℚ × Bool)} {p : ℚ × Bool}

theorem failures_concat (ps : List (ℚ × Bool)) (p : ℚ × Bool) :
    failures (ps ++ [p]) = if p.2 then 0 else failures ps + 1 := by
  unfold failures
  rw [List.rtakeWhile_concat]
  cases p.2 <;> simp

theorem Spaced.concat (h : Spaced (ps ++ [p])) {q : ℚ × Bool}
    (hq : 2 ^ (failures (ps ++ [p]) % (maxBackendChecks + 1)) < q.1 - p.1) :
    Spaced (ps ++ [p] ++ [q]) := by
  intro before p' q' after heq
  rcases List.eq_nil_or_concat after with rfl | ⟨after, r, rfl⟩
  · have hsplit : ps ++ [p] ++ [q] = before ++ [p'] ++ [q'] := by simpa using heq
    obtain ⟨hbefore, hlast⟩ := List.append_inj' hsplit rfl
    obtain ⟨rfl, hp⟩ := List.append_inj' hbefore rfl
    obtain rfl := List.singleton_inj.mp hp
    obtain rfl := List.singleton_inj.mp hlast
    exact hq
  · have hsplit : ps ++ [p] ++ [q] = (before ++ p' :: q' :: after) ++ [r] := by simpa using heq
    exact h before p' q' after (List.append_inj' hsplit rfl).1

theorem probes_append (first second : List Event) :
    probes (first ++ second) = probes first ++ probes second :=
  List.filterMap_append

theorem Paced.quiet (h : Paced start log h') (hevents : probes events = []) :
    Paced start (log ++ events) h' := by
  have hprobes : probes (log ++ events) = probes log := by
    rw [probes_append, hevents, List.append_nil]
  exact ⟨hprobes ▸ h.last, hprobes ▸ h.count, h.le, hprobes ▸ h.spaced⟩

theorem Paced.storageDead (hp : Paced start log h) (dead : Bool) :
    Paced start log { h with storageDead := dead } :=
  ⟨hp.last, hp.count, hp.le, hp.spaced⟩

theorem wrappedCount_le (h : Health) : h.wrappedCount ≤ maxBackendChecks := by
  unfold Health.wrappedCount
  split <;> omega

theorem wrappedCount_eq {h : Health} (hle : h.checkBackendCount ≤ maxBackendChecks + 1) :
    h.wrappedCount = h.checkBackendCount % (maxBackendChecks + 1) := by
  unfold Health.wrappedCount maxBackendChecks at *
  split <;> omega

theorem Paced.probed (hp : Paced start log h) {now stamp : ℚ} (hforward : now ≤ stamp)
    (hdue : 2 ^ h.wrappedCount < now - h.lastCheckBackend) (recovered dead : Bool) :
    Paced start (log ++ [.probed stamp recovered])
      { storageDead := dead
        checkBackendCount := if recovered then 0 else h.wrappedCount + 1
        lastCheckBackend := stamp } := by
  have hprobes : (start, true) :: probes (log ++ [.probed stamp recovered]) =
      ((start, true) :: probes log) ++ [(stamp, recovered)] := by
    simp [probes]
  obtain ⟨before, p, hbefore, htime⟩ := hp.last
  have hle := wrappedCount_le h
  have hnew : (if recovered then 0 else h.wrappedCount + 1) ≤ maxBackendChecks + 1 := by
    cases recovered <;> simp only [Bool.false_eq_true, if_true, if_false] <;> omega
  refine ⟨⟨_, _, hprobes, rfl⟩, ?_, hnew, ?_⟩
  · rw [wrappedCount_eq hnew, hprobes, failures_concat]
    cases recovered with
    | true => rfl
    | false => simp only [Bool.false_eq_true, if_false, hp.count, Nat.mod_add_mod]
  · have hwait : 2 ^ (failures (before ++ [p]) % (maxBackendChecks + 1)) < stamp - p.1 := by
      rw [← hbefore, ← hp.count, htime]
      exact hdue.trans_le (sub_le_sub_right hforward _)
    rw [hprobes, hbefore]
    exact Spaced.concat (hbefore ▸ hp.spaced) hwait

theorem Paced.wrapped (hp : Paced start log h) :
    Paced start log { h with checkBackendCount := h.wrappedCount } := by
  have hle : h.wrappedCount ≤ maxBackendChecks + 1 := (wrappedCount_le h).trans (Nat.le_succ _)
  refine ⟨hp.last, ?_, hle, hp.spaced⟩
  rw [wrappedCount_eq hle]
  have hcount := hp.count
  rw [hcount]
  exact Nat.mod_mod _ _

theorem Paced.fallbackLimits (hp : Paced start log h) (l : Limiter Item R) (name : String)
    (inMiddleware : Bool) (hforward : turn.Forward) :
    Paced start (log ++ (fallbackLimits l h name inMiddleware turn).2.2)
      (fallbackLimits l h name inMiddleware turn).2.1 := by
  unfold RateLimiter.fallbackLimits shouldCheckBackend
  split
  · split
    · exact hp.quiet rfl
    · by_cases hdue : 2 ^ h.wrappedCount < turn.now - h.lastCheckBackend
      · simp only [hdue, if_true, Bool.true_and]
        cases turn.check with
        | true => exact hp.probed hforward hdue true false
        | false => exact hp.probed hforward hdue false h.storageDead
      · simp only [hdue, if_false, Bool.false_and]
        exact hp.wrapped.quiet rfl
  · exact hp.quiet rfl

theorem probes_uses (n : ℕ) (backend : Backend) :
    probes (List.replicate n (.uses backend)) = [] := by
  induction n with
  | zero => rfl
  | succ n ih =>
    rw [List.replicate_succ]
    exact ih

theorem Paced.injectHeaders (hp : Paced start log h) {present isResponse : Bool}
    {attempts : List Bool} {out : Bool × Health × List Event}
    (hout : injectHeaders l present isResponse attempts h = some out) :
    Paced start (log ++ out.2.2) out.2.1 := by
  induction attempts generalizing h log out with
  | nil => cases hout
  | cons fails attempts ih =>
    unfold RateLimiter.injectHeaders at hout
    split at hout
    · split at hout
      · obtain rfl := Option.some.inj hout
        exact hp.quiet rfl
      · split at hout
        · obtain rfl := Option.some.inj hout
          exact hp.quiet rfl
        · split at hout
          · obtain ⟨rest, hrest, rfl⟩ := Option.map_eq_some_iff.mp hout
            have hquiet : probes [.uses (limiterOf l h), .died] = [] := rfl
            have hdied := (hp.quiet hquiet).storageDead true
            simpa using ih hdied hrest
          · obtain rfl := Option.some.inj hout
            exact hp.quiet rfl
    · obtain rfl := Option.some.inj hout
      exact hp.quiet rfl

/-- Only a probe that finds the storage well makes it count as alive again. -/
theorem due_of_alive (hdead : h.storageDead = true)
    (halive : (fallbackLimits l h name inMiddleware turn).2.1.storageDead = false) :
    2 ^ h.wrappedCount < turn.now - h.lastCheckBackend ∧
      (fallbackLimits l h name inMiddleware turn).2.1.lastCheckBackend = turn.stamp := by
  unfold fallbackLimits shouldCheckBackend at *
  split at halive
  · rename_i hfallback
    rw [if_pos hfallback]
    split at halive
    · rw [hdead] at halive
      cases halive
    · rename_i hendpoint
      rw [if_neg hendpoint]
      by_cases hdue : 2 ^ h.wrappedCount < turn.now - h.lastCheckBackend
      · refine ⟨hdue, ?_⟩
        simp only [hdue, if_true]
        cases turn.check <;> rfl
      · simp [hdue, hdead] at halive
  · rw [hdead] at halive
    cases halive

variable [LT Item] [DecidableLT Item]

theorem Paced.tryOnce (hp : Paced start log h) (l : Limiter Item R) (request : Request R)
    (name endpointKey : String) (inMiddleware : Bool) (routeLimits : List (Limit Item R))
    (hforward : turn.Forward) :
    Paced start
      (log ++ (tryOnce l h request name endpointKey inMiddleware routeLimits turn).2.2)
      (tryOnce l h request name endpointKey inMiddleware routeLimits turn).2.1 := by
  have hp' := hp.fallbackLimits l name inMiddleware hforward
  unfold RateLimiter.tryOnce
  simp only
  split
  · exact hp'
  · rw [← List.append_assoc]
    exact hp'.quiet (probes_uses _ _)

theorem Paced.checkRequestLimit (hp : Paced start log h) {turns : List Turn}
    {out : Result Item R × Health × List Event}
    (hout : checkRequestLimit l request name inMiddleware turns h = some out)
    (hforward : ∀ turn ∈ turns, turn.Forward) : Paced start (log ++ out.2.2) out.2.1 := by
  induction turns generalizing h log out with
  | nil => cases hout
  | cons turn turns ih =>
    unfold RateLimiter.checkRequestLimit at hout
    split at hout
    · obtain rfl := Option.some.inj hout
      exact hp.quiet rfl
    split at hout
    · obtain rfl := Option.some.inj hout
      exact hp.quiet rfl
    rename_i routeLimits _
    have hp' := hp.tryOnce l request name (l.endpointKey request name) inMiddleware routeLimits
      (hforward turn (by simp))
    generalize RateLimiter.tryOnce l h request name (l.endpointKey request name) inMiddleware
      routeLimits turn = once at *
    obtain ⟨verdict, h', events⟩ := once
    simp only at hout hp'
    cases verdict with
    | within header =>
      obtain rfl := Option.some.inj hout
      exact hp'
    | exceeded limit header =>
      obtain rfl := Option.some.inj hout
      exact hp'
    | error =>
      simp only at hout
      split at hout
      · obtain ⟨rest, hrest, rfl⟩ := Option.map_eq_some_iff.mp hout
        have hquiet : probes [.died] = [] := rfl
        have hdied := (hp'.quiet hquiet).storageDead true
        simpa using ih hdied hrest fun turn hmem => hforward turn (by simp [hmem])
      · split at hout <;>
        · obtain rfl := Option.some.inj hout
          exact hp'

instance (turn : Turn) : Decidable turn.Forward :=
  inferInstanceAs (Decidable (turn.now ≤ turn.stamp))

instance {S : Type} (past : List (Act R)) (s : S) (act : Act R) :
    Decidable (ClockForward past s act) :=
  match act with
  | .check _ _ _ turns => inferInstanceAs (Decidable (∀ turn ∈ turns, turn.Forward))
  | .inject _ _ _ => isTrue trivial

theorem health_tryOnce (h : Health) (request : Request R) (name endpointKey : String)
    (inMiddleware : Bool) (routeLimits : List (Limit Item R)) (turn : Turn) :
    (tryOnce l h request name endpointKey inMiddleware routeLimits turn).2.1 =
      (fallbackLimits l h name inMiddleware turn).2.1 := by
  unfold tryOnce
  simp only
  split <;> rfl

/-- A check that begins again has marked the storage dead. If it was dead before, it has been probed
in this turn. -/
theorem again_of_none {turns : List Turn}
    (hnone : checkRequestLimit l request name inMiddleware (turn :: turns) h = none) :
    ∃ h', h'.storageDead = true ∧
      checkRequestLimit l request name inMiddleware turns h' = none ∧
      (h.storageDead = true → 1 < turn.now - h.lastCheckBackend ∧
        h'.lastCheckBackend = turn.stamp) := by
  unfold checkRequestLimit at hnone
  split at hnone
  · cases hnone
  split at hnone
  · cases hnone
  rename_i routeLimits _
  have hhealth := health_tryOnce (l := l) h request name (l.endpointKey request name) inMiddleware
    routeLimits turn
  generalize tryOnce l h request name (l.endpointKey request name) inMiddleware routeLimits turn
    = once at *
  obtain ⟨verdict, h', events⟩ := once
  simp only at hnone hhealth
  cases verdict with
  | within header => cases hnone
  | exceeded limit header => cases hnone
  | error =>
    simp only at hnone
    split at hnone
    · rename_i hmarks
      have halive : h'.storageDead = false := by simp_all
      refine ⟨_, rfl, Option.map_eq_none_iff.mp hnone, fun hdead => ?_⟩
      rw [hhealth] at halive
      obtain ⟨hdue, hlast⟩ := due_of_alive hdead halive
      exact ⟨(one_le_pow₀ one_le_two).trans_lt hdue, by rw [hhealth]; exact hlast⟩
    · split at hnone <;> cases hnone

/-- From a dead storage on, each turn that ends with a failure takes more than a second. -/
theorem length_lt_of_none {b : ℚ} {turns : List Turn} (hne : turns ≠ [])
    (hclock : ∀ turn ∈ turns, turn.Forward ∧ turn.stamp ≤ b) (hdead : h.storageDead = true)
    (hnone : checkRequestLimit l request name inMiddleware turns h = none) :
    turns.length < b - h.lastCheckBackend := by
  induction turns generalizing h with
  | nil => exact absurd rfl hne
  | cons turn turns ih =>
    obtain ⟨hforward, hb⟩ := hclock turn (by simp)
    obtain ⟨h', hdead', hnone', hprobed⟩ := again_of_none hnone
    obtain ⟨hdue, hlast⟩ := hprobed hdead
    have hstamp : 1 < turn.stamp - h.lastCheckBackend := hdue.trans_le (sub_le_sub_right hforward _)
    push_cast [List.length_cons]
    by_cases hrest : turns = []
    · subst hrest
      simp only [List.length_nil, Nat.cast_zero]
      linarith
    · have hlength := ih hrest (fun turn hmem => hclock turn (by simp [hmem])) hdead' hnone'
      rw [hlast] at hlength
      linarith

/-- However the storage comes and goes, a check ends: it begins again at most twice, and once more
for each second that it has taken. -/
theorem checkRequestLimit_ends {a b : ℚ} {turns : List Turn} (hab : a ≤ b)
    (hclock : ∀ turn ∈ turns, a ≤ turn.now ∧ turn.Forward ∧ turn.stamp ≤ b)
    (hturns : 2 + (b - a) < turns.length) :
    (checkRequestLimit l request name inMiddleware turns h).isSome := by
  by_contra hnone
  rw [Option.not_isSome_iff_eq_none] at hnone
  match turns with
  | [] | [_] | [_, _] =>
    simp only [List.length_cons, List.length_nil] at hturns
    push_cast at hturns
    linarith
  | first :: second :: third :: turns =>
    obtain ⟨h₁, hdead₁, hnone₁, -⟩ := again_of_none hnone
    obtain ⟨h₂, hdead₂, hnone₂, hprobed⟩ := again_of_none hnone₁
    obtain ⟨ha, hforward, -⟩ := hclock second (by simp)
    have hstamp : a ≤ second.stamp := ha.trans hforward
    have hlength := length_lt_of_none (List.cons_ne_nil third turns)
      (fun turn hmem => (hclock turn (by simp [List.mem_cons.mp hmem])).2) hdead₂ hnone₂
    rw [(hprobed hdead₁).2] at hlength
    simp only [List.length_cons] at hlength hturns
    push_cast at hlength hturns
    linarith

theorem checkRequestLimit_ends_lost :
    (checkRequestLimit perClient index "app.index" true
      [failing 5 true, failing 5 true, failing 5 true] { lastCheckBackend := 0 }).isSome :=
  checkRequestLimit_ends (a := 5) (b := 5) le_rfl (by decide +kernel) (by decide +kernel)

end Taas.RateLimiter
