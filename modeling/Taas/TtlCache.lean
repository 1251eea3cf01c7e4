import Mathlib.Algebra.Order.Ring.Rat
import Mathlib.Data.List.Sort
import Mathlib.Data.String.Basic
import Taas.Transition

/-!
The wrappers `a_ttl_cache_ignore_1st_arg` and `a_ttl_cache_ignore_all_args`. A call tests its key
and reads the entry in one go, each with a reading of the clock of its own, and awaits the function
on a miss before it stores the result.
-/
namespace Taas.TtlCache

open Transition

variable {X V E κ : Type}

structure Arguments (X : Type) where
  args : List X
  kwargs : List (String × X)
  nodup : (kwargs.map Prod.fst).Nodup
  deriving DecidableEq

/-- `keys.hashkey(args, **kwargs)`. The items are sorted by their names. -/
def hashkey (args : List X) (kwargs : List (String × X)) : List X × List (String × X) :=
  (args, kwargs.mergeSort fun x y => x.1 ≤ y.1)

/-- The keys without the first argument. -/
def keyOfRest (call : Arguments X) : List X × List (String × X) :=
  hashkey (call.args.drop 1) call.kwargs

/-- The one key of `a_ttl_cache_ignore_all_args`. -/
def staticKey (_ : Arguments X) : String := "static_key"

def SameRest (c d : Arguments X) : Prop :=
  c.args.drop 1 = d.args.drop 1 ∧ c.kwargs.Perm d.kwargs

/-- The entries with the times at which they were stored. -/
structure TTLCache (κ V : Type) where
  maxsize : ℤ
  ttl : ℤ
  entries : κ → Option (V × ℚ) := fun _ => none

namespace TTLCache

/-- The entry of the key, unless the clock has reached its expiry. -/
def live (c : TTLCache κ V) (now : ℚ) (k : κ) : Option (V × ℚ) :=
  (c.entries k).filter fun e => now < e.2 + c.ttl

/-- `key in cache`. -/
def contains (c : TTLCache κ V) (now : ℚ) (k : κ) : Bool := (c.live now k).isSome

/-- `cache[key]`; `none` is a `KeyError`. -/
def getItem (c : TTLCache κ V) (now : ℚ) (k : κ) : Option V := (c.live now k).map Prod.fst

/-- `cache[key] = value`, which may evict other entries; `none` is a `ValueError`. -/
def setItem [DecidableEq κ] (c : TTLCache κ V) (now : ℚ) (k : κ) (v : V) (evicted : List κ) :
    Option (TTLCache κ V) :=
  if 1 ≤ c.maxsize then
    some { c with entries := fun j =>
      if j = k then some (v, now) else if j ∈ evicted then none else c.entries j }
  else none

end TTLCache

def makeCache (size ttl cacheLruSize cacheExpiresAfter : ℤ) : TTLCache κ V where
  maxsize := if 0 < size then size else cacheLruSize
  ttl := if 0 < ttl then ttl else cacheExpiresAfter

/-- What a call raises: what its execution of the function raised, or an error of the cache. -/
inductive Err (E : Type)
  | function (exc : E)
  | keyError
  | valueError
  deriving DecidableEq

inductive Phase (X : Type)
  | idle
  | running (call : Arguments X)
  | ended

inductive Event (X V E : Type)
  | executed (i : ℕ) (call : Arguments X) (v : V) (storedAt : ℚ)
  | failed (i : ℕ) (exc : E)
  | returned (i : ℕ) (call : Arguments X) (v : V) (lookedUpAt : ℚ)
  | raised (i : ℕ) (exc : Err E)
  deriving DecidableEq

/-- The calls are numbered. -/
structure Cached (κ X V E : Type) where
  clock : ℚ := 0
  cache : TTLCache κ V
  phase : ℕ → Phase X := fun _ => .idle
  /-- When a call that runs the function looked its key up. -/
  lookedUp : ℕ → ℚ := fun _ => 0
  log : List (Event X V E) := []

/-- A call looks its key up, with the two readings of the clock, or its execution of the function
ends. -/
inductive Act (κ X V E : Type)
  | lookUp (i : ℕ) (call : Arguments X) (tested read : ℚ)
  | functionReturns (i : ℕ) (v : V) (now : ℚ) (evicted : List κ)
  | functionRaises (i : ℕ) (exc : E)

def Cached.emit (s : Cached κ X V E) (i : ℕ) (phase : Phase X) (events : List (Event X V E)) :
    Cached κ X V E :=
  { s with phase := Function.update s.phase i phase, log := s.log ++ events }

def next [DecidableEq κ] (key : Arguments X → κ) (s : Cached κ X V E) :
    Act κ X V E → Option (Cached κ X V E)
  | .lookUp i call tested read =>
    match s.phase i with
    | .idle =>
      if s.clock ≤ tested ∧ tested ≤ read then
        if s.cache.contains tested (key call) then
          match s.cache.getItem read (key call) with
          | some v => some { s.emit i .ended [.returned i call v read] with clock := read }
          | none => some { s.emit i .ended [.raised i .keyError] with clock := read }
        else
          some { s.emit i (.running call) [] with
            clock := tested
            lookedUp := Function.update s.lookedUp i tested }
      else none
    | _ => none
  | .functionReturns i v now evicted =>
    match s.phase i with
    | .running call =>
      if s.clock ≤ now then
        match s.cache.setItem now (key call) v evicted with
        | some cache =>
          some { s.emit i .ended [.executed i call v now, .returned i call v (s.lookedUp i)] with
            clock := now
            cache := cache }
        | none =>
          some { s.emit i .ended [.executed i call v now, .raised i .valueError] with clock := now }
      else none
    | _ => none
  | .functionRaises i exc =>
    match s.phase i with
    | .running _ => some (s.emit i .ended [.failed i exc, .raised i (.function exc)])
    | _ => none

def calls [DecidableEq κ] (key : Arguments X → κ) (cache : TTLCache κ V) :
    System (Cached κ X V E) (Act κ X V E) where
  init s := s = { clock := s.clock, cache := cache }
  next := next key

/-- A call returned what its own execution of the function returned, or what an execution for
related arguments did whose result was stored at most `ttl` before the call looked it up. -/
def Served (R : Arguments X → Arguments X → Prop) (ttl : ℤ) (log : List (Event X V E)) (i : ℕ)
    (call : Arguments X) (v : V) (lookedUpAt : ℚ) : Prop :=
  (∃ storedAt, .executed i call v storedAt ∈ log) ∨
    ∃ j other storedAt, .executed j other v storedAt ∈ log ∧ R call other ∧
      storedAt ≤ lookedUpAt ∧ lookedUpAt ≤ storedAt + ttl

/-- Every value is served so, and every exception is the one that the call's own execution of the
function raised. -/
structure Right (R : Arguments X → Arguments X → Prop) (ttl : ℤ) (log : List (Event X V E)) :
    Prop where
  returned : ∀ i call v t, .returned i call v t ∈ log → Served R ttl log i call v t
  raised : ∀ i exc, .raised i exc ∈ log → ∃ e, exc = .function e ∧ .failed i e ∈ log

/-- No entry expires between the test and the read, and what is stored fits the cache. -/
def Steady (key : Arguments X → κ) : Condition (Cached κ X V E) (Act κ X V E)
  | _, s, .lookUp _ call tested read =>
    ∀ e ∈ s.cache.entries (key call),
      tested < e.2 + s.cache.ttl → read < e.2 + s.cache.ttl
  | _, s, .functionReturns .. => 1 ≤ s.cache.maxsize
  | _, _, .functionRaises .. => True

instance {key : Arguments X → κ} {past : List (Act κ X V E)} {s : Cached κ X V E} :
    ∀ a, Decidable (Steady key past s a)
  | .lookUp _ call tested read =>
    inferInstanceAs (Decidable (∀ e ∈ s.cache.entries (key call),
      tested < e.2 + s.cache.ttl → read < e.2 + s.cache.ttl))
  | .functionReturns .. => inferInstanceAs (Decidable (1 ≤ s.cache.maxsize))
  | .functionRaises .. => isTrue trivial

def Clean (log : List (Event X V E)) : Prop :=
  ∀ i exc, .raised i exc ∈ log → ∃ e, exc = .function e

theorem le_trans_names (x y z : String × X) (hxy : decide (x.1 ≤ y.1) = true)
    (hyz : decide (y.1 ≤ z.1) = true) : decide (x.1 ≤ z.1) = true := by
  simp only [decide_eq_true_eq] at *
  exact le_trans hxy hyz

theorem le_total_names (x y : String × X) :
    (decide (x.1 ≤ y.1) || decide (y.1 ≤ x.1)) = true := by
  simpa using le_total x.1 y.1

theorem mergeSort_eq_iff {l m : List (String × X)} (hl : (l.map Prod.fst).Nodup) :
    (l.mergeSort fun x y => x.1 ≤ y.1) = (m.mergeSort fun x y => x.1 ≤ y.1) ↔ l.Perm m := by
  constructor
  · intro h
    have hm := List.mergeSort_perm m fun x y => decide (x.1 ≤ y.1)
    rw [← h] at hm
    exact (List.mergeSort_perm l _).symm.trans hm
  · intro h
    have hsorted (l : List (String × X)) :=
      List.pairwise_mergeSort le_trans_names le_total_names l
    have hperm : (l.mergeSort fun x y => x.1 ≤ y.1).Perm (m.mergeSort fun x y => x.1 ≤ y.1) :=
      (List.mergeSort_perm l _).trans (h.trans (List.mergeSort_perm m _).symm)
    apply hperm.eq_of_pairwise _ (hsorted l) (hsorted m)
    intro x y hx hy hxy hyx
    have hname : x.1 = y.1 := by
      simp only [decide_eq_true_eq] at hxy hyx
      exact le_antisymm hxy hyx
    have hx' : x ∈ l := (List.mergeSort_perm l _).mem_iff.mp hx
    have hy' : y ∈ l := h.mem_iff.mpr ((List.mergeSort_perm m _).mem_iff.mp hy)
    exact List.inj_on_of_nodup_map hl hx' hy' hname

theorem keyOfRest_eq_iff (c d : Arguments X) : keyOfRest c = keyOfRest d ↔ SameRest c d := by
  simp only [keyOfRest, hashkey, Prod.mk.injEq, SameRest, mergeSort_eq_iff c.nodup]

variable [DecidableEq κ] {key : Arguments X → κ} {s t : Cached κ X V E} {a : Act κ X V E}

inductive Step (key : Arguments X → κ) (s : Cached κ X V E) :
    Act κ X V E → Cached κ X V E → Prop
  | hit {i : ℕ} {call : Arguments X} {tested read storedAt : ℚ} {v : V} :
      s.clock ≤ tested → tested ≤ read →
      s.cache.live read (key call) = some (v, storedAt) →
      Step key s (.lookUp i call tested read)
        { s.emit i .ended [.returned i call v read] with clock := read }
  | expired {i : ℕ} {call : Arguments X} {tested read : ℚ} :
      s.clock ≤ tested → tested ≤ read →
      s.cache.contains tested (key call) = true → s.cache.contains read (key call) = false →
      Step key s (.lookUp i call tested read)
        { s.emit i .ended [.raised i .keyError] with clock := read }
  | miss {i : ℕ} {call : Arguments X} {tested read : ℚ} :
      s.clock ≤ tested → s.cache.contains tested (key call) = false →
      Step key s (.lookUp i call tested read)
        { s.emit i (.running call) [] with
          clock := tested
          lookedUp := Function.update s.lookedUp i tested }
  | stored {i : ℕ} {call : Arguments X} {v : V} {now : ℚ} {evicted : List κ} :
      s.clock ≤ now → 1 ≤ s.cache.maxsize →
      Step key s (.functionReturns i v now evicted)
        { s.emit i .ended [.executed i call v now, .returned i call v (s.lookedUp i)] with
          clock := now
          cache := { s.cache with
            entries := fun j =>
              if j = key call then some (v, now)
              else if j ∈ evicted then none else s.cache.entries j } }
  | refused {i : ℕ} {call : Arguments X} {v : V} {now : ℚ} {evicted : List κ} :
      s.clock ≤ now → ¬1 ≤ s.cache.maxsize →
      Step key s (.functionReturns i v now evicted)
        { s.emit i .ended [.executed i call v now, .raised i .valueError] with clock := now }
  | failed {i : ℕ} {exc : E} :
      Step key s (.functionRaises i exc)
        (s.emit i .ended [.failed i exc, .raised i (.function exc)])

theorem step_of_next (h : next key s a = some t) : Step key s a t := by
  cases a with
  | lookUp i call tested read =>
    simp only [next] at h
    split at h
    · split at h
      · rename_i hclock
        split at h
        · rename_i hin
          split at h
          · rename_i v hget
            obtain ⟨⟨w, storedAt⟩, hlive, hv⟩ := Option.map_eq_some_iff.mp hget
            cases hv
            cases h
            exact .hit hclock.1 hclock.2 hlive
          · rename_i hget
            cases h
            refine .expired hclock.1 hclock.2 hin ?_
            simpa [TTLCache.contains, TTLCache.getItem] using hget
        · rename_i hin
          cases h
          exact .miss hclock.1 (by simpa using hin)
      · cases h
    · cases h
  | functionReturns i v now evicted =>
    simp only [next] at h
    split at h
    · split at h
      · rename_i hclock
        by_cases hsize : 1 ≤ s.cache.maxsize
        · simp only [TTLCache.setItem, if_pos hsize] at h
          cases h
          exact .stored hclock hsize
        · simp only [TTLCache.setItem, if_neg hsize] at h
          cases h
          exact .refused hclock hsize
      · cases h
    · cases h
  | functionRaises i exc =>
    simp only [next] at h
    split at h
    · cases h
      exact .failed
    · cases h

/-- Every entry is the result of an execution for its key, stored when the entry says. -/
structure Inv (key : Arguments X → κ) (ttl : ℤ) (s : Cached κ X V E) : Prop where
  ttl_eq : s.cache.ttl = ttl
  entries : ∀ k v storedAt, s.cache.entries k = some (v, storedAt) →
    storedAt ≤ s.clock ∧ ∃ j call, .executed j call v storedAt ∈ s.log ∧ key call = k
  returned : ∀ i call v lookedUpAt, .returned i call v lookedUpAt ∈ s.log →
    Served (fun c d => key c = key d) ttl s.log i call v lookedUpAt
  failed : ∀ i e, .raised i (.function e) ∈ s.log → .failed i e ∈ s.log

theorem Served.mono {R : Arguments X → Arguments X → Prop} {ttl : ℤ} {log more : List (Event X V E)}
    {i : ℕ} {call : Arguments X} {v : V} {lookedUpAt : ℚ}
    (h : Served R ttl log i call v lookedUpAt) :
    Served R ttl (log ++ more) i call v lookedUpAt := by
  cases h with
  | inl h =>
    obtain ⟨storedAt, h⟩ := h
    exact .inl ⟨storedAt, List.mem_append_left _ h⟩
  | inr h =>
    obtain ⟨j, other, storedAt, hmem, h⟩ := h
    exact .inr ⟨j, other, storedAt, List.mem_append_left _ hmem, h⟩

omit [DecidableEq κ] in
theorem Inv.quiet {ttl : ℤ} (more : List (Event X V E)) (hs : Inv key ttl s)
    (hcache : t.cache = s.cache) (hlog : t.log = s.log ++ more) (hclock : s.clock ≤ t.clock)
    (hreturned : ∀ i call v u, .returned i call v u ∈ more →
      Served (fun c d => key c = key d) ttl t.log i call v u)
    (hfailed : ∀ i e, .raised i (.function e) ∈ more → .failed i e ∈ more) : Inv key ttl t where
  ttl_eq := by rw [hcache, hs.ttl_eq]
  entries k v storedAt h := by
    rw [hcache] at h
    obtain ⟨hle, j, call, hmem, hk⟩ := hs.entries k v storedAt h
    refine ⟨hle.trans hclock, j, call, ?_, hk⟩
    rw [hlog]
    exact List.mem_append_left _ hmem
  returned i call v u h := by
    rw [hlog, List.mem_append] at h
    cases h with
    | inl h =>
      rw [hlog]
      exact (hs.returned i call v u h).mono
    | inr h => exact hreturned i call v u h
  failed i e h := by
    rw [hlog, List.mem_append] at h ⊢
    exact h.imp (hs.failed i e) (hfailed i e)

theorem inv_step {ttl : ℤ} (hs : Inv key ttl s) (h : Step key s a t) : Inv key ttl t := by
  cases h with
  | @hit i call tested read storedAt v hclock hread hlive =>
    have hlive' := Option.filter_eq_some_iff.mp hlive
    simp only [decide_eq_true_eq] at hlive'
    obtain ⟨hentry, hbefore⟩ := hlive'
    obtain ⟨hle, j, other, hmem, hk⟩ := hs.entries _ _ _ hentry
    refine hs.quiet [.returned i call v read] rfl rfl (hclock.trans hread) ?_ (by simp)
    intro i' call' v' u hu
    simp only [List.mem_singleton, Event.returned.injEq] at hu
    obtain ⟨rfl, rfl, rfl, rfl⟩ := hu
    rw [hs.ttl_eq] at hbefore
    exact .inr ⟨j, other, storedAt, List.mem_append_left _ hmem, hk.symm,
      hle.trans (hclock.trans hread), hbefore.le⟩
  | @expired i call tested read hclock hread _ _ =>
    exact hs.quiet [.raised i .keyError] rfl rfl (hclock.trans hread) (by simp)
      (by simp)
  | miss hclock _ => exact hs.quiet [] rfl rfl hclock (by simp) (by simp)
  | @stored i call v now evicted hclock _ =>
    have hnew : .executed i call v now ∈
        s.log ++ [.executed i call v now, .returned i call v (s.lookedUp i)] := by simp
    refine ⟨hs.ttl_eq, ?_, ?_, ?_⟩
    · intro k w storedAt hk
      dsimp only at hk
      split at hk
      · rename_i hkey
        cases hk
        exact ⟨le_refl _, i, call, hnew, hkey.symm⟩
      · split at hk
        · cases hk
        · obtain ⟨hle, j, other, hmem, hother⟩ := hs.entries k w storedAt hk
          exact ⟨hle.trans hclock, j, other, List.mem_append_left _ hmem, hother⟩
    · intro i' call' v' u hu
      cases List.mem_append.mp hu with
      | inl hu => exact (hs.returned i' call' v' u hu).mono
      | inr hu =>
        simp only [List.mem_cons, List.not_mem_nil, or_false, reduceCtorEq, false_or,
          Event.returned.injEq] at hu
        obtain ⟨rfl, rfl, rfl, rfl⟩ := hu
        exact .inl ⟨now, hnew⟩
    · intro i' e he
      have he' : .raised i' (.function e) ∈ s.log := by simpa [Cached.emit] using he
      exact List.mem_append_left _ (hs.failed i' e he')
  | @refused i call v now evicted hclock _ =>
    exact hs.quiet [.executed i call v now, .raised i .valueError] rfl rfl hclock
      (by simp) (by simp)
  | @failed i exc =>
    refine hs.quiet [.failed i exc, .raised i (.function exc)] rfl rfl (le_refl _)
      (by simp) ?_
    intro i' e he
    have he' : i' = i ∧ e = exc := by simpa using he
    simp [he']

theorem inv_of_trace {cache : TTLCache κ V} (hcache : ∀ k, cache.entries k = none)
    {as : List (Act κ X V E)} (h : Trace (calls key cache) free as s) : Inv key cache.ttl s := by
  refine Trace.invariant ?_ (fun s a t hs hnext => inv_step hs (step_of_next hnext)) h
  intro s hs
  rw [hs]
  exact ⟨rfl, by simp [hcache], by simp, by simp⟩

omit [DecidableEq κ] in
theorem contains_iff (c : TTLCache κ V) (now : ℚ) (k : κ) :
    c.contains now k = true ↔ ∃ e ∈ c.entries k, now < e.2 + c.ttl := by
  cases h : c.entries k with
  | none => simp [TTLCache.contains, TTLCache.live, h]
  | some e => simp [TTLCache.contains, TTLCache.live, h]

/-- A step raises no error of the cache exactly when nothing expires under it and its result
fits. -/
theorem clean_step (h : Step key s a t) (past : List (Act κ X V E)) :
    Clean t.log ↔ Clean s.log ∧ Steady key past s a := by
  cases h with
  | @hit i call tested read storedAt v hclock hread hlive =>
    have hlive' := Option.filter_eq_some_iff.mp hlive
    simp only [decide_eq_true_eq] at hlive'
    simp [Clean, Cached.emit, Steady, hlive'.1, hlive'.2]
  | @expired i call tested read hclock hread hin hout =>
    constructor
    · intro hclean
      obtain ⟨e, he⟩ := hclean i .keyError (by simp [Cached.emit])
      cases he
    · intro hclean
      obtain ⟨e, he, htested⟩ := (contains_iff _ _ _).mp hin
      have hin' := (contains_iff s.cache read _).mpr ⟨e, he, hclean.2 e he htested⟩
      rw [hout] at hin'
      cases hin'
  | @miss i call tested read hclock hout =>
    have hsteady : Steady key past s (.lookUp i call tested read) := by
      intro e he htested
      have hin := (contains_iff _ _ _).mpr ⟨e, he, htested⟩
      rw [hout] at hin
      cases hin
    simp [Clean, Cached.emit, hsteady]
  | stored hclock hsize => simp [Clean, Cached.emit, Steady, hsize]
  | @refused i call v now evicted hclock hsize =>
    constructor
    · intro hclean
      obtain ⟨e, he⟩ := hclean i .valueError (by simp [Cached.emit])
      cases he
    · intro hclean
      exact absurd hclean.2 hsize
  | @failed i exc =>
    constructor
    · intro hclean
      exact ⟨fun i' exc' h => hclean i' exc' (List.mem_append_left _ h), trivial⟩
    · intro hclean i' exc' h
      cases List.mem_append.mp h with
      | inl h => exact hclean.1 i' exc' h
      | inr h =>
        have h' : i' = i ∧ exc' = .function exc := by simpa using h
        exact ⟨exc, h'.2⟩

theorem steady_iff {cache : TTLCache κ V} {as : List (Act κ X V E)} :
    Trace (calls key cache) (Steady key) as s ↔
      Trace (calls key cache) free as s ∧ Clean s.log := by
  apply Trace.iff_of_step
  · intro s hs
    rw [hs]
    simp [Clean]
  · intro past s a t _ hnext
    exact clean_step (step_of_next hnext) past

theorem right_iff {R : Arguments X → Arguments X → Prop} {cache : TTLCache κ V}
    (hkey : ∀ c d, key c = key d ↔ R c d) (hcache : ∀ k, cache.entries k = none)
    {as : List (Act κ X V E)} (h : Trace (calls key cache) free as s) :
    Right R cache.ttl s.log ↔ Trace (calls key cache) (Steady key) as s := by
  have hinv := inv_of_trace hcache h
  have hR : (fun c d => key c = key d) = R := by
    funext c d
    exact propext (hkey c d)
  rw [steady_iff]
  constructor
  · intro hright
    refine ⟨h, fun i exc hmem => ?_⟩
    obtain ⟨e, he, _⟩ := hright.raised i exc hmem
    exact ⟨e, he⟩
  · rintro ⟨-, hclean⟩
    refine ⟨?_, ?_⟩
    · rw [← hR]
      exact hinv.returned
    · intro i exc hmem
      obtain ⟨e, rfl⟩ := hclean i exc hmem
      exact ⟨e, rfl, hinv.failed i e hmem⟩

/-- The calls of a function wrapped by `a_ttl_cache_ignore_1st_arg` are right in exactly the runs
in which no entry expires between the two readings of a call and every result fits the cache. -/
theorem ignore_1st_arg_iff [DecidableEq X] (size ttl cacheLruSize cacheExpiresAfter : ℤ)
    {as : List (Act (List X × List (String × X)) X V E)}
    {s : Cached (List X × List (String × X)) X V E}
    (h : Trace (calls keyOfRest (makeCache size ttl cacheLruSize cacheExpiresAfter)) free as s) :
    Right SameRest (if 0 < ttl then ttl else cacheExpiresAfter) s.log ↔
      Trace (calls keyOfRest (makeCache size ttl cacheLruSize cacheExpiresAfter))
        (Steady keyOfRest) as s :=
  right_iff keyOfRest_eq_iff (fun _ => rfl) h

/-- The calls of a function wrapped by `a_ttl_cache_ignore_all_args` share every result. -/
theorem ignore_all_args_iff (size ttl cacheLruSize cacheExpiresAfter : ℤ)
    {as : List (Act String X V E)} {s : Cached String X V E}
    (h : Trace (calls staticKey (makeCache size ttl cacheLruSize cacheExpiresAfter)) free as s) :
    Right (fun _ _ => True) (if 0 < ttl then ttl else cacheExpiresAfter) s.log ↔
      Trace (calls staticKey (makeCache size ttl cacheLruSize cacheExpiresAfter))
        (Steady staticKey) as s :=
  right_iff (fun _ _ => iff_of_true rfl trivial) (fun _ => rfl) h

def fetch (instance' : ℕ) : Arguments ℕ := ⟨[instance', 7], [], List.nodup_nil⟩

def askedAgain (tested read : ℚ) : List (Act (List ℕ × List (String × ℕ)) ℕ ℕ ℕ) :=
  [.lookUp 0 (fetch 0) 0 0, .functionReturns 0 5 0 [], .lookUp 1 (fetch 1) tested read]

def start : Cached (List ℕ × List (String × ℕ)) ℕ ℕ ℕ := { cache := makeCache 0 1 10000 300 }

theorem init_start : (calls keyOfRest (makeCache 0 1 10000 300)).init start := rfl

/-- The entry is live when it is tested and expired when it is read. -/
theorem expires_under_the_call :
    ¬∀ (as : List (Act (List ℕ × List (String × ℕ)) ℕ ℕ ℕ))
      (s : Cached (List ℕ × List (String × ℕ)) ℕ ℕ ℕ),
      Trace (calls keyOfRest (makeCache 0 1 10000 300)) free as s → Right SameRest 1 s.log := by
  intro hall
  have hlog : ((replay (calls keyOfRest (makeCache 0 1 10000 300)) free []
      (askedAgain (1 / 2) 1) start).map Cached.log) =
      some [.executed 0 (fetch 0) 5 0, .returned 0 (fetch 0) 5 0, .raised 1 .keyError] := by
    decide +kernel
  obtain ⟨t, ht, hlog⟩ := Option.map_eq_some_iff.mp hlog
  have hright := hall _ t (trace_of_replay init_start ht)
  obtain ⟨e, he, _⟩ := hright.raised 1 .keyError (by simp [hlog])
  cases he

/-- The entry is live at both readings. -/
theorem ignore_1st_arg_iff_hit :
    ∃ s : Cached (List ℕ × List (String × ℕ)) ℕ ℕ ℕ,
      Right SameRest 1 s.log ∧ .returned 1 (fetch 1) 5 (3 / 4) ∈ s.log := by
  have hlog : ((replay (calls keyOfRest (makeCache 0 1 10000 300)) (Steady keyOfRest) []
      (askedAgain (1 / 2) (3 / 4)) start).map Cached.log) =
      some [.executed 0 (fetch 0) 5 0, .returned 0 (fetch 0) 5 0,
        .returned 1 (fetch 1) 5 (3 / 4)] := by
    decide +kernel
  obtain ⟨t, ht, hlog⟩ := Option.map_eq_some_iff.mp hlog
  have hsteady := trace_of_replay init_start ht
  have hfree := (steady_iff.mp hsteady).1
  exact ⟨t, (ignore_1st_arg_iff 0 1 10000 300 hfree).mpr hsteady, by simp [hlog]⟩

end Taas.TtlCache
