import Mathlib.Data.Set.Basic
import Mathlib.Tactic.Linarith
import Taas.Python
import Taas.Transition

/-!
The response cache of `foundation.http`, with its default key builder and no namespace. Several
functions are decorated and share one backend. A call is answered from the entry under its key, or
runs its function and stores what that returned.
-/
namespace Taas.HttpCache

open Transition

variable {F X V B E : Type}

/-- A request, and what the cache reads of it. -/
structure Request (X : Type) where
  object : X
  method : String
  path : String
  cacheControl : Option String
  ifNoneMatch : Option String

/-- A call of a decorated function, with its keyword arguments `request` and `response` apart from
the other arguments. -/
structure Call (F X : Type) where
  fn : F
  args : List X
  kwargs : String → Option X
  request : Option (Request X)
  response : Option X

/-- The settings, the arguments of the decorators, and what Python and the JSON codec do with
objects. A value is decoded to the return type of the function. -/
structure Platform (F X V B : Type) where
  declaresRequest : F → Bool
  declaresResponse : F → Bool
  enabled : Bool
  keyPrefix : String
  ttl : ℤ
  expire : F → Option ℤ
  str : X → String
  isNone : X → Bool
  encode : V → Option B
  decode : F → B → Option V
  etag : B → String

namespace Platform

variable (P : Platform F X V B)

/-- What `_call` passes on to the function: the request and the response only if it declares
them. -/
def passed (c : Call F X) : List X × (String → Option X) × Option X × Option X :=
  (c.args, c.kwargs,
    if P.declaresRequest c.fn then c.request.map Request.object else none,
    if P.declaresResponse c.fn then c.response else none)

/-- The same function with equal arguments. -/
def Same (c d : Call F X) : Prop := c.fn = d.fn ∧ P.passed c = P.passed d

def customCacheKeyBuilder (namespace' : String) (request : Option (Request X))
    (kwargs : String → Option X) : String :=
  let key := namespace' ++ ":"
  let key := match request with
    | some request => key ++ request.path ++ ":"
    | none => key
  match kwargs "opts" with
  | some opts => if P.isNone opts then key else key ++ P.str opts
  | none => key

/-- The key of a call. With no namespace given, the prefix is all of it. -/
def cacheKey (c : Call F X) : String := P.customCacheKeyBuilder P.keyPrefix c.request c.kwargs

/-- `expire or cache_config.ttl` -/
def expiresIn (f : F) : ℤ := Python.orDefault (P.expire f) P.ttl

def uncacheable : Option (Request X) → Bool
  | none => !P.enabled
  | some request =>
    !P.enabled || request.method ≠ "GET" || request.cacheControl = some "no-store"

end Platform

def forceRefresh : Option (Request X) → Bool
  | none => false
  | some request => request.cacheControl = some "no-cache"

/-- `_header_get(headers, "if-none-match")` -/
def ifNoneMatch (request : Option (Request X)) : Option String :=
  request.bind Request.ifNoneMatch

structure Entry (B : Type) where
  bytes : B
  storedAt : ℚ
  expiresIn : ℤ

abbrev Store (B : Type) := String → Option (Entry B)

def Store.get (store : Store B) (now : ℚ) (key : String) : Option B :=
  ((store key).filter fun e => now < e.storedAt + e.expiresIn).map Entry.bytes

/-- A response without a body stands for the bytes that its tag is of. -/
inductive Answer (V B : Type)
  | value (v : V)
  | notModified (bytes : B)

inductive Event (F X V B E : Type)
  | produced (c : Call F X) (v : V) (producedAt : ℚ)
  | returned (c : Call F X) (answer : Answer V B) (readAt : ℚ)
  | raised (c : Call F X) (exc : E)

/-- A call with what happens during it: when it reads the backend and ends, whether the backend
fails, and what the function does if it runs. -/
structure Act (F X V E : Type) where
  call : Call F X
  readAt : ℚ
  endsAt : ℚ
  getFails : Bool
  setFails : Bool
  outcome : Except E V

/-- The function runs. -/
def Act.run (a : Act F X V E) : List (Event F X V B E) :=
  match a.outcome with
  | .ok v => [.produced a.call v a.endsAt, .returned a.call (.value v) a.readAt]
  | .error exc => [.raised a.call exc]

namespace Platform

variable (P : Platform F X V B)

/-- The function runs and its result is stored. -/
def miss (store : Store B) (a : Act F X V E) : Store B :=
  match a.outcome with
  | .ok v =>
    match P.encode v with
    | some bytes =>
      if a.setFails then store
      else Function.update store (P.cacheKey a.call) (some ⟨bytes, a.endsAt, P.expiresIn a.call.fn⟩)
    | none => store
  | .error _ => store

/-- The answer is the entry, or the function runs because the entry cannot be read. -/
def hit (bytes : B) (a : Act F X V E) : List (Event F X V B E) :=
  if a.call.response.isSome ∧ ifNoneMatch a.call.request = some (P.etag bytes) then
    [.returned a.call (.notModified bytes) a.readAt]
  else
    match P.decode a.call.fn bytes with
    | some v => [.returned a.call (.value v) a.readAt]
    | none => a.run

def inner (store : Store B) (a : Act F X V E) : Store B × List (Event F X V B E) :=
  if P.uncacheable a.call.request then (store, a.run)
  else
    match if a.getFails then none else store.get a.readAt (P.cacheKey a.call) with
    | some bytes =>
      if forceRefresh a.call.request then (P.miss store a, a.run) else (store, P.hit bytes a)
    | none => (P.miss store a, a.run)

end Platform

structure Run (F X V B E : Type) where
  clock : ℚ := 0
  store : Store B := fun _ => none
  log : List (Event F X V B E) := []

/-- The calls of all the decorated functions, one after the other. -/
def calls (P : Platform F X V B) : System (Run F X V B E) (Act F X V E) where
  init s := s = {}
  next s a :=
    if s.clock ≤ a.readAt ∧ a.readAt ≤ a.endsAt then
      some ⟨a.endsAt, (P.inner s.store a).1, s.log ++ (P.inner s.store a).2⟩
    else none

/-- Only these calls are made. -/
def within (possible : Set (Call F X)) : Condition (Run F X V B E) (Act F X V E) :=
  fun _ _ a => a.call ∈ possible

/-- The answer shows the value, as it is or from its bytes. -/
def Platform.Shows (P : Platform F X V B) (f : F) (v : V) : Answer V B → Prop
  | .value w => w = v ∨ ∃ bytes, P.encode v = some bytes ∧ P.decode f bytes = some w
  | .notModified bytes => P.encode v = some bytes

/-- The same function produced the value for equal arguments, during the call or at most the expiry
time before the call read the backend. -/
def Platform.Served (P : Platform F X V B) (log : List (Event F X V B E)) (c : Call F X)
    (answer : Answer V B) (readAt : ℚ) : Prop :=
  ∃ d v producedAt, .produced d v producedAt ∈ log ∧ P.Same c d ∧ P.Shows c.fn v answer ∧
    (readAt ≤ producedAt ∨ readAt ≤ producedAt + P.expiresIn c.fn)

def Platform.Transparent (P : Platform F X V B) (log : List (Event F X V B E)) : Prop :=
  ∀ c answer readAt, .returned c answer readAt ∈ log → P.Served log c answer readAt

/-- The second call can be answered with what the first one stored. -/
structure Platform.Collides (P : Platform F X V B) (c d : Call F X) : Prop where
  cacheable : P.uncacheable c.request = false
  cacheable' : P.uncacheable d.request = false
  key : P.cacheKey c = P.cacheKey d
  kept : 0 < P.expiresIn c.fn
  taken : forceRefresh d.request = false
  readable : ∃ v bytes, P.encode v = some bytes ∧
    ((P.decode d.fn bytes).isSome ∨
      d.response.isSome ∧ ifNoneMatch d.request = some (P.etag bytes))

variable {P : Platform F X V B} {store : Store B} {a : Act F X V E} {c d : Call F X}
  {s t : Run F X V B E}

theorem inner_cases (P : Platform F X V B) (store : Store B) (a : Act F X V E) :
    P.inner store a = (store, a.run) ∨
      (P.uncacheable a.call.request = false ∧ P.inner store a = (P.miss store a, a.run)) ∨
      (P.uncacheable a.call.request = false ∧ forceRefresh a.call.request = false ∧
        ∃ bytes, store.get a.readAt (P.cacheKey a.call) = some bytes ∧
          P.inner store a = (store, P.hit bytes a)) := by
  unfold Platform.inner
  split
  · exact .inl rfl
  · rename_i hcacheable
    have hcacheable' : P.uncacheable a.call.request = false := by simpa using hcacheable
    split
    · rename_i bytes hget
      have hread : store.get a.readAt (P.cacheKey a.call) = some bytes := by
        split at hget
        · cases hget
        · exact hget
      split
      · exact .inr (.inl ⟨hcacheable', rfl⟩)
      · rename_i hforce
        exact .inr (.inr ⟨hcacheable', by simpa using hforce, bytes, hread, rfl⟩)
    · exact .inr (.inl ⟨hcacheable', rfl⟩)

theorem miss_cases (P : Platform F X V B) (store : Store B) (a : Act F X V E) :
    P.miss store a = store ∨
      ∃ v bytes, a.outcome = .ok v ∧ P.encode v = some bytes ∧
        P.miss store a = Function.update store (P.cacheKey a.call)
          (some ⟨bytes, a.endsAt, P.expiresIn a.call.fn⟩) := by
  unfold Platform.miss
  split
  · rename_i v hv
    split
    · rename_i bytes hbytes
      split
      · exact .inl rfl
      · exact .inr ⟨v, bytes, hv, hbytes, rfl⟩
    · exact .inl rfl
  · exact .inl rfl

theorem hit_cases (P : Platform F X V B) (bytes : B) (a : Act F X V E) :
    P.hit bytes a = a.run ∨
      ((P.decode a.call.fn bytes).isSome ∨
        a.call.response.isSome ∧ ifNoneMatch a.call.request = some (P.etag bytes)) ∧
      ∃ answer, P.hit bytes a = [.returned a.call answer a.readAt] ∧
        ∀ v, P.encode v = some bytes → P.Shows a.call.fn v answer := by
  unfold Platform.hit
  split
  · rename_i hmatch
    exact .inr ⟨.inr hmatch, .notModified bytes, rfl, fun v hv => hv⟩
  · split
    · rename_i w hw
      exact .inr ⟨.inl (by simp [hw]), .value w, rfl, fun v hv => .inr ⟨bytes, hv, hw⟩⟩
    · exact .inl rfl

theorem get_some {now : ℚ} {key : String} {bytes : B} (h : store.get now key = some bytes) :
    ∃ e, store key = some e ∧ e.bytes = bytes ∧ now < e.storedAt + e.expiresIn := by
  obtain ⟨e, he, rfl⟩ := Option.map_eq_some_iff.mp h
  have he' := Option.filter_eq_some_iff.mp he
  exact ⟨e, he'.1, rfl, by simpa using he'.2⟩

theorem mem_run {v : V} (h : a.outcome = .ok v) :
    .produced a.call v a.endsAt ∈ (a.run : List (Event F X V B E)) := by
  simp [Act.run, h]

theorem served_append {log more : List (Event F X V B E)} {answer : Answer V B} {readAt : ℚ}
    (h : P.Served log c answer readAt) : P.Served (log ++ more) c answer readAt := by
  obtain ⟨d, v, producedAt, hmem, h⟩ := h
  exact ⟨d, v, producedAt, List.mem_append_left _ hmem, h⟩

theorem run_served (ha : a.readAt ≤ a.endsAt) {log : List (Event F X V B E)} {answer : Answer V B}
    {readAt : ℚ} (h : .returned c answer readAt ∈ (a.run : List (Event F X V B E))) :
    P.Served (log ++ a.run) c answer readAt := by
  unfold Act.run at h
  split at h
  · rename_i v hv
    have h' : c = a.call ∧ answer = .value v ∧ readAt = a.readAt := by simpa using h
    obtain ⟨rfl, rfl, rfl⟩ := h'
    exact ⟨a.call, v, a.endsAt, List.mem_append_right _ (mem_run hv), ⟨rfl, rfl⟩, .inl rfl,
      .inl ha⟩
  · simp at h

/-- Every entry was produced by one of the calls, for its key. -/
def Stored (P : Platform F X V B) (possible : Set (Call F X)) (s : Run F X V B E) : Prop :=
  ∀ key e, s.store key = some e → e.storedAt ≤ s.clock ∧
    ∃ c ∈ possible, ∃ v, .produced c v e.storedAt ∈ s.log ∧ P.encode v = some e.bytes ∧
      P.cacheKey c = key ∧ P.uncacheable c.request = false ∧ e.expiresIn = P.expiresIn c.fn

variable {possible : Set (Call F X)}

theorem next_cases (h : (calls P).next s a = some t) :
    s.clock ≤ a.readAt ∧ a.readAt ≤ a.endsAt ∧
      t = ⟨a.endsAt, (P.inner s.store a).1, s.log ++ (P.inner s.store a).2⟩ := by
  simp only [calls, Option.ite_none_right_eq_some, Option.some.injEq] at h
  exact ⟨h.1.1, h.1.2, h.2.symm⟩

theorem Stored.keep (hs : Stored P possible s) (hstore : t.store = s.store)
    (hclock : s.clock ≤ t.clock) (hlog : s.log ⊆ t.log) : Stored P possible t := by
  intro key e he
  rw [hstore] at he
  obtain ⟨hle, c, hc, v, hmem, h⟩ := hs key e he
  exact ⟨hle.trans hclock, c, hc, v, hlog hmem, h⟩

theorem stored_step (hs : Stored P possible s) (ha : a.call ∈ possible)
    (h : (calls P).next s a = some t) : Stored P possible t := by
  obtain ⟨hread, hend, rfl⟩ := next_cases h
  have hclock : s.clock ≤ a.endsAt := hread.trans hend
  have hlog (more : List (Event F X V B E)) : s.log ⊆ s.log ++ more :=
    List.subset_append_left _ _
  obtain hinner | ⟨hcacheable, hinner⟩ | ⟨_, _, bytes, _, hinner⟩ := inner_cases P s.store a
  · exact hs.keep (by rw [hinner]) hclock (hlog _)
  · obtain hmiss | ⟨v, bytes, hv, hbytes, hmiss⟩ := miss_cases P s.store a
    · exact hs.keep (by rw [hinner, hmiss]) hclock (hlog _)
    · intro key e he
      simp only [hinner, hmiss] at he ⊢
      by_cases hkey : key = P.cacheKey a.call
      · rw [hkey, Function.update_self] at he
        cases he
        exact ⟨le_refl _, a.call, ha, v, List.mem_append_right _ (mem_run hv), hbytes, hkey.symm,
          hcacheable, rfl⟩
      · rw [Function.update_of_ne hkey] at he
        obtain ⟨hle, c, hc, w, hmem, hrest⟩ := hs key e he
        exact ⟨hle.trans hclock, c, hc, w, List.mem_append_left _ hmem, hrest⟩
  · exact hs.keep (by rw [hinner]) hclock (hlog _)

theorem transparent_step (hcollide : ∀ c ∈ possible, ∀ d ∈ possible, P.Collides c d → P.Same d c)
    (hs : Stored P possible s) (htransparent : P.Transparent s.log) (ha : a.call ∈ possible)
    (h : (calls P).next s a = some t) : P.Transparent t.log := by
  obtain ⟨hread, hend, rfl⟩ := next_cases h
  intro c answer readAt hmem
  dsimp only at hmem ⊢
  cases List.mem_append.mp hmem with
  | inl hold => exact served_append (htransparent c answer readAt hold)
  | inr hnew =>
    obtain hinner | ⟨_, hinner⟩ | ⟨hcacheable, hforce, bytes, hget, hinner⟩ :=
      inner_cases P s.store a
    · rw [hinner] at hnew ⊢
      exact run_served hend hnew
    · rw [hinner] at hnew ⊢
      exact run_served hend hnew
    · rw [hinner] at hnew ⊢
      obtain hhit | ⟨hreadable, shown, hhit, hshows⟩ := hit_cases P bytes a
      · rw [hhit] at hnew ⊢
        exact run_served hend hnew
      · rw [hhit] at hnew ⊢
        have hanswer : c = a.call ∧ answer = shown ∧ readAt = a.readAt := by simpa using hnew
        obtain ⟨rfl, rfl, rfl⟩ := hanswer
        obtain ⟨e, he, rfl, hlive⟩ := get_some hget
        obtain ⟨hle, d, hd, v, hproduced, hv, hkey, hdcacheable, hexpires⟩ := hs _ e he
        have hkept : 0 < P.expiresIn d.fn := by
          rw [hexpires] at hlive
          have : (0 : ℚ) < P.expiresIn d.fn := by linarith
          exact_mod_cast this
        have hsame := hcollide d hd a.call ha
          ⟨hdcacheable, hcacheable, hkey, hkept, hforce, v, e.bytes, hv, hreadable⟩
        refine ⟨d, v, e.storedAt, List.mem_append_left _ hproduced, hsame, hshows v hv, .inr ?_⟩
        rw [hexpires, ← hsame.1] at hlive
        exact hlive.le

theorem transparent_of_trace
    (hcollide : ∀ c ∈ possible, ∀ d ∈ possible, P.Collides c d → P.Same d c)
    {as : List (Act F X V E)} (h : Trace (calls P) (within possible) as s) :
    P.Transparent s.log := by
  have hinv : Stored P possible s ∧ P.Transparent s.log := by
    refine Trace.induct (I := fun _ s => Stored P possible s ∧ P.Transparent s.log) ?_ ?_ as s h
    · intro s hs
      rw [hs]
      constructor
      · intro key e he
        cases he
      · intro c answer readAt hmem
        cases hmem
    · intro as s a t _ ih hok hnext
      exact ⟨stored_step ih.1 hok hnext, transparent_step hcollide ih.1 ih.2 hok hnext⟩
  exact hinv.2

/-- A call at time zero in which nothing fails. -/
def Act.atZero (c : Call F X) (v : V) : Act F X V E := ⟨c, 0, 0, false, false, .ok v⟩

theorem next_atZero {v : V} {events : List (Event F X V B E)} (hclock : s.clock = 0)
    (h : P.inner s.store (.atZero c v) = (store, events)) :
    (calls P).next s (.atZero c v) = some ⟨0, store, s.log ++ events⟩ := by
  have hinner : P.inner s.store ⟨c, 0, 0, false, false, .ok v⟩ = (store, events) := h
  simp [calls, Act.atZero, hclock, hinner]

/-- After the first call the second one is answered with what the first one produced. -/
theorem collision_trace (hc : c ∈ possible) (hd : d ∈ possible) (h : P.Collides c d) :
    ∃ (as : List (Act F X V E)) (s : Run F X V B E) (v : V) (answer : Answer V B),
      Trace (calls P) (within possible) as s ∧
      s.log = [.produced c v 0, .returned c (.value v) 0, .returned d answer 0] := by
  obtain ⟨v, bytes, hv, hreadable⟩ := h.readable
  have hfirst : ∃ store, P.inner (fun _ => none) (.atZero c v : Act F X V E) =
        (store, [.produced c v 0, .returned c (.value v) 0]) ∧
      store.get 0 (P.cacheKey d) = some bytes := by
    refine ⟨Function.update (fun _ => none) (P.cacheKey c) (some ⟨bytes, 0, P.expiresIn c.fn⟩),
      ?_, ?_⟩
    · simp [Platform.inner, Act.atZero, h.cacheable, Store.get, Platform.miss, hv, Act.run]
    · have hkept : (0 : ℚ) < P.expiresIn c.fn := by exact_mod_cast h.kept
      simp [Store.get, ← h.key, hkept]
  obtain ⟨store, hfirst, hget⟩ := hfirst
  have hsecond : ∃ answer, P.inner store (.atZero d v : Act F X V E) =
      (store, [.returned d answer 0]) := by
    have hinner : P.inner store (.atZero d v : Act F X V E) =
        (store, P.hit bytes (.atZero d v)) := by
      simp [Platform.inner, Act.atZero, h.cacheable', hget, h.taken]
    rw [hinner]
    unfold Platform.hit
    split
    · exact ⟨_, rfl⟩
    · rename_i hmatch
      obtain hdecode | hmatch' := hreadable
      · obtain ⟨w, hw⟩ := Option.isSome_iff_exists.mp hdecode
        exact ⟨.value w, by simp [Act.atZero, hw]⟩
      · exact absurd hmatch' hmatch
  obtain ⟨answer, hsecond⟩ := hsecond
  have hstep₁ := next_atZero (s := ({} : Run F X V B E)) rfl hfirst
  have hstep₂ := next_atZero
    (s := (⟨0, store, [.produced c v 0, .returned c (.value v) 0]⟩ : Run F X V B E)) rfl hsecond
  have hpath : Path (calls P) (within possible) [] {} [.atZero c v] _ := Path.single hc hstep₁
  refine ⟨_, _, v, answer, ⟨{}, rfl, hpath.snoc ?_ hstep₂⟩, rfl⟩
  exact hd

theorem collide_same
    (h : ∀ (as : List (Act F X V E)) (s : Run F X V B E),
      Trace (calls P) (within possible) as s → P.Transparent s.log)
    (hc : c ∈ possible) (hd : d ∈ possible) (hcd : P.Collides c d) : P.Same d c := by
  obtain ⟨as, s, v, answer, htrace, hlog⟩ := collision_trace (E := E) hc hd hcd
  obtain ⟨d', w, producedAt, hmem, hsame, _⟩ := h as s htrace d answer 0 (by simp [hlog])
  have hd' : d' = c := by
    rw [hlog] at hmem
    simp only [List.mem_cons, Event.produced.injEq, reduceCtorEq, List.not_mem_nil, or_false]
      at hmem
    exact hmem.1
  exact hd' ▸ hsame

/-- All runs over some calls are transparent exactly when no two of them collide that are calls of
different functions or with different arguments. -/
theorem transparent_iff (P : Platform F X V B) (possible : Set (Call F X)) :
    (∀ (as : List (Act F X V E)) (s : Run F X V B E),
      Trace (calls P) (within possible) as s → P.Transparent s.log) ↔
      ∀ c ∈ possible, ∀ d ∈ possible, P.Collides c d → P.Same d c := by
  constructor
  · intro h c hc d hd hcd
    exact collide_same h hc hd hcd
  · intro hcollide as s htrace
    exact transparent_of_trace hcollide htrace

/-- Two functions, whose values are numbers and encoded as they are. -/
def twoHandlers : Platform Bool ℕ ℕ ℕ where
  declaresRequest _ := false
  declaresResponse _ := false
  enabled := true
  keyPrefix := "cache"
  ttl := 60
  expire _ := some 5
  str _ := ""
  isNone _ := false
  encode := some
  decode _ := some
  etag _ := ""

def handlerCall (fn : Bool) : Call Bool ℕ := ⟨fn, [], fun _ => none, none, none⟩

/-- One handler answers with what the other one produced. -/
theorem handlers_share_entry :
    ¬∀ (possible : Set (Call Bool ℕ)) (as : List (Act Bool ℕ ℕ Unit)) (s : Run Bool ℕ ℕ ℕ Unit),
      Trace (calls twoHandlers) (within possible) as s → twoHandlers.Transparent s.log := by
  intro hall
  have hcollides : twoHandlers.Collides (handlerCall true) (handlerCall false) :=
    ⟨rfl, rfl, rfl, by decide, rfl, 0, 0, rfl, .inl rfl⟩
  have hsame := collide_same (hall Set.univ) trivial trivial hcollides
  exact absurd hsame.1 (by decide)

end Taas.HttpCache
