import Taas.JsonText
import Taas.Transition

/-!
The registry client and the Avro serializer with their caches. Both keep the id of a schema under a
text that begins with the subject, and the registry is a map from subjects to schemas.
-/
namespace Taas.SchemaRegistry

open JsonText Transition

abbrev Str := List Char

/-- An Avro schema is a dict. -/
abbrev Schema := List (String × Json)

/-- `f'{subject}:{json.dumps(schema, sort_keys=True)}'` -/
def cacheKey (subject : Str) (schema : Schema) : Str :=
  subject ++ ':' :: dumps (sortKeys (.object schema))

def magicByte : UInt8 := 0

/-- `struct.pack('>bI', MAGIC_BYTE, schema_id) + payload`; `none` is a `struct.error`. -/
def encode (schemaId : ℤ) (payload : List UInt8) : Option (List UInt8) :=
  if 0 ≤ schemaId ∧ schemaId < 2 ^ 32 then
    let n := schemaId.toNat
    some (magicByte :: .ofNat (n / 2 ^ 24) :: .ofNat (n / 2 ^ 16) :: .ofNat (n / 2 ^ 8) ::
      .ofNat n :: payload)
  else none

/-- `none` is a `WireFormatError`. -/
def decode : List UInt8 → Option (ℤ × List UInt8)
  | magic :: a :: b :: c :: d :: payload =>
    if magic = magicByte then
      some (a.toNat * 2 ^ 24 + b.toNat * 2 ^ 16 + c.toNat * 2 ^ 8 + d.toNat, payload)
    else none
  | _ => none

/-- The schemas that are registered under each subject, with their ids. -/
abbrev Registry := Str → List (ℤ × Str)

/-- A schema that is registered already keeps its id, another one gets the fresh one. -/
def Registry.register (r : Registry) (subject text : Str) (fresh : ℤ) : ℤ × Registry :=
  match (r subject).find? fun version => version.2 = text with
  | some version => (version.1, r)
  | none => (fresh, Function.update r subject (r subject ++ [(fresh, text)]))

def Registry.delete (r : Registry) (subject : Str) : Registry := Function.update r subject []

def Registry.Has (r : Registry) (subject : Str) (schemaId : ℤ) : Prop :=
  ∃ text, (schemaId, text) ∈ r subject

/-- A request is answered, or it raises, with its work done or not. -/
inductive Reply
  | answered
  | failed (done : Bool)
  deriving DecidableEq

/-- What the last call gave. -/
inductive Answer
  | registered (subject : Str) (schemaId : ℤ)
  | message (subject : Str) (data : List UInt8)
  | deleted
  | raised

/-- `idBySubject` is the cache of the client, `schemaIdCache` that of the serializer, and
`contacted` says whether the last call sent a request. -/
structure World where
  registry : Registry := fun _ => []
  idBySubject : Str → Option ℤ := fun _ => none
  schemaIdCache : Str → Option ℤ := fun _ => none
  answer : Answer := .raised
  contacted : Bool := false

namespace World

/-- The id, or `none` when the request raises. -/
def registerSchema (w : World) (subject : Str) (schema : Schema) (fresh : ℤ) (reply : Reply) :
    Option ℤ × World :=
  match w.idBySubject (cacheKey subject schema) with
  | some schemaId => (some schemaId, { w with contacted := false })
  | none =>
    let posted := w.registry.register subject (dumps (.object schema)) fresh
    match reply with
    | .answered =>
      (some posted.1, { w with
        registry := posted.2
        idBySubject := Function.update w.idBySubject (cacheKey subject schema) (some posted.1)
        contacted := true })
    | .failed done =>
      (none, { w with registry := if done then posted.2 else w.registry, contacted := true })

def getOrRegister (w : World) (subject : Str) (schema : Schema) (fresh : ℤ) (reply : Reply) :
    Option ℤ × World :=
  match w.schemaIdCache (cacheKey subject schema) with
  | some schemaId => (some schemaId, { w with contacted := false })
  | none =>
    match w.registerSchema subject schema fresh reply with
    | (some schemaId, w) =>
      (some schemaId, { w with
        schemaIdCache :=
          Function.update w.schemaIdCache (cacheKey subject schema) (some schemaId) })
    | (none, w) => (none, w)

/-- Writing the data raises when there is no payload. -/
def serialize (w : World) (subject : Str) (schema : Schema) (payload : Option (List UInt8))
    (fresh : ℤ) (reply : Reply) : World :=
  match w.getOrRegister subject schema fresh reply with
  | (some schemaId, w) =>
    match payload.bind (encode schemaId) with
    | some data => { w with answer := .message subject data }
    | none => { w with answer := .raised }
  | (none, w) => { w with answer := .raised }

/-- The key that is taken out of the cache is the subject itself. -/
def deleteSubject (w : World) (subject : Str) : Reply → World
  | .answered =>
    { w with
      registry := w.registry.delete subject
      idBySubject := Function.update w.idBySubject subject none
      answer := .deleted
      contacted := true }
  | .failed done =>
    { w with
      registry := if done then w.registry.delete subject else w.registry
      answer := .raised
      contacted := true }

end World

inductive Act
  | register (subject : Str) (schema : Schema) (fresh : ℤ) (reply : Reply)
  | serialize (topic : Str) (recordName : Option Str) (schema : Schema)
      (payload : Option (List UInt8)) (fresh : ℤ) (reply : Reply)
  | delete (subject : Str) (reply : Reply)

/-- `f'{topic}-{record_name or self.subject_suffix}'` -/
def subjectOf (subjectSuffix topic : Str) (recordName : Option Str) : Str :=
  topic ++ '-' :: match recordName with
    | some name => if name = [] then subjectSuffix else name
    | none => subjectSuffix

def next (subjectSuffix : Str) (w : World) : Act → World
  | .register subject schema fresh reply =>
    match w.registerSchema subject schema fresh reply with
    | (some schemaId, w) => { w with answer := .registered subject schemaId }
    | (none, w) => { w with answer := .raised }
  | .serialize topic recordName schema payload fresh reply =>
    w.serialize (subjectOf subjectSuffix topic recordName) schema payload fresh reply
  | .delete subject reply => w.deleteSubject subject reply

def calls (subjectSuffix : Str) : System World Act where
  init w := w = {}
  next w a := some (next subjectSuffix w a)

/-- The answer says this id for a schema of the subject. -/
def Answer.Refers (subject : Str) (schemaId : ℤ) : Answer → Prop
  | .registered s n => s = subject ∧ n = schemaId
  | .message s data => s = subject ∧ ∃ payload, decode data = some (schemaId, payload)
  | .deleted => False
  | .raised => False

/-- The subject that a call registers a schema under. -/
def Act.registers (subjectSuffix : Str) : Act → Option Str
  | .register subject .. => some subject
  | .serialize topic recordName .. => some (subjectOf subjectSuffix topic recordName)
  | .delete .. => none

/-- The last answer refers to a schema that is registered, and a registration under a subject
without any, as after its deletion, contacts the registry. -/
structure Coherent (subjectSuffix : Str) (w : World) : Prop where
  refers : ∀ subject schemaId, w.answer.Refers subject schemaId → w.registry.Has subject schemaId
  contacts : ∀ a subject, a.registers subjectSuffix = some subject → w.registry subject = [] →
    (next subjectSuffix w a).contacted = true

/-- No cache has an id for the subject. -/
def World.Forgotten (w : World) (subject : Str) : Prop :=
  ∀ schema, w.idBySubject (cacheKey subject schema) = none ∧
    w.schemaIdCache (cacheKey subject schema) = none

/-- A deletion that takes effect is of a subject that no cache has an id for. -/
def Careful : Condition World Act
  | _, w, .delete subject reply => reply = .failed false ∨ w.Forgotten subject
  | _, _, _ => True

variable {suffix subject : Str} {schema : Schema} {schemaId fresh : ℤ} {reply : Reply}
  {w : World} {cache : Str → Option ℤ} {as : List Act} {a : Act}

theorem cacheKey_inj {other : Str} {otherSchema : Schema}
    (h : cacheKey subject schema = cacheKey other otherSchema) : subject = other := by
  simp only [cacheKey, sortKeys] at h
  exact (append_object_inj h).1

theorem cacheKey_ne_subject : cacheKey subject schema ≠ subject := by
  intro h
  have hlength := congrArg List.length h
  simp [cacheKey] at hlength

theorem decode_encode {payload data : List UInt8} (h : encode schemaId payload = some data) :
    decode data = some (schemaId, payload) := by
  rw [encode, Option.ite_none_right_eq_some] at h
  obtain ⟨hrange, hdata⟩ := h
  cases hdata
  simp only [decode, if_true, UInt8.toNat_ofNat', Option.some.injEq, Prod.mk.injEq, and_true]
  omega

namespace Registry

variable {r : Registry} {text other : Str}

theorem has_registered :
    (r.register subject text fresh).2.Has subject (r.register subject text fresh).1 := by
  refine ⟨text, ?_⟩
  unfold register
  cases hfind : (r subject).find? fun version => version.2 = text with
  | some version =>
    have htext : version.2 = text := by simpa using List.find?_some hfind
    have hmem := List.mem_of_find?_eq_some hfind
    rwa [← htext]
  | none => simp

theorem Has.register (h : r.Has other schemaId) :
    (r.register subject text fresh).2.Has other schemaId := by
  obtain ⟨old, hold⟩ := h
  refine ⟨old, ?_⟩
  unfold Registry.register
  cases (r subject).find? fun version => version.2 = text with
  | some _ => exact hold
  | none =>
    by_cases hother : other = subject
    · subst hother
      simp [hold]
    · simpa [hother] using hold

theorem Has.delete (h : r.Has other schemaId) (hother : other ≠ subject) :
    (r.delete subject).Has other schemaId := by
  simpa [Has, Registry.delete, hother] using h

end Registry

/-- Every id of the cache is of a schema that is registered under the subject. -/
def Current (r : Registry) (cache : Str → Option ℤ) : Prop :=
  ∀ subject schema schemaId, cache (cacheKey subject schema) = some schemaId →
    r.Has subject schemaId

namespace Current

variable {r : Registry} {text : Str}

theorem register (h : Current r cache) : Current (r.register subject text fresh).2 cache :=
  fun s other n hn => (h s other n hn).register

theorem delete (h : Current r cache) (hnone : ∀ schema, cache (cacheKey subject schema) = none) :
    Current (r.delete subject) cache := by
  intro s other n hn
  have hs : s ≠ subject := by
    rintro rfl
    simp [hnone] at hn
  exact (h s other n hn).delete hs

theorem insert (h : Current r cache) (hid : r.Has subject schemaId) :
    Current r (Function.update cache (cacheKey subject schema) (some schemaId)) := by
  intro s other n hn
  by_cases hkey : cacheKey s other = cacheKey subject schema
  · rw [hkey, Function.update_self] at hn
    cases hn
    rwa [cacheKey_inj hkey]
  · rw [Function.update_of_ne hkey] at hn
    exact h s other n hn

theorem pop (h : Current r cache) (key : Str) : Current r (Function.update cache key none) := by
  intro s other n hn
  by_cases hkey : cacheKey s other = key
  · rw [hkey, Function.update_self] at hn
    cases hn
  · rw [Function.update_of_ne hkey] at hn
    exact h s other n hn

end Current

structure Cached (w : World) : Prop where
  client : Current w.registry w.idBySubject
  serializer : Current w.registry w.schemaIdCache

/-- A call for an id leaves the caches current and gives a registered one. -/
structure Gives (subject : Str) (result : Option ℤ × World) : Prop where
  cached : Cached result.2
  has : ∀ schemaId, result.1 = some schemaId → result.2.registry.Has subject schemaId

theorem registerSchema_gives (h : Cached w) :
    Gives subject (w.registerSchema subject schema fresh reply) := by
  unfold World.registerSchema
  cases hhit : w.idBySubject (cacheKey subject schema) with
  | some cachedId =>
    refine ⟨⟨h.client, h.serializer⟩, fun n hn => ?_⟩
    cases hn
    exact h.client subject schema cachedId hhit
  | none =>
    cases reply with
    | answered =>
      refine ⟨⟨h.client.register.insert Registry.has_registered, h.serializer.register⟩, ?_⟩
      intro n hn
      cases hn
      exact Registry.has_registered
    | failed done =>
      refine ⟨?_, fun n hn => nomatch hn⟩
      cases done with
      | false => exact ⟨h.client, h.serializer⟩
      | true => exact ⟨h.client.register, h.serializer.register⟩

theorem getOrRegister_gives (h : Cached w) :
    Gives subject (w.getOrRegister subject schema fresh reply) := by
  unfold World.getOrRegister
  cases hhit : w.schemaIdCache (cacheKey subject schema) with
  | some cachedId =>
    refine ⟨⟨h.client, h.serializer⟩, fun n hn => ?_⟩
    cases hn
    exact h.serializer subject schema cachedId hhit
  | none =>
    have hgives : Gives subject (w.registerSchema subject schema fresh reply) :=
      registerSchema_gives h
    generalize w.registerSchema subject schema fresh reply = called at hgives ⊢
    obtain ⟨result, w'⟩ := called
    cases result with
    | none => exact ⟨hgives.cached, fun n hn => nomatch hn⟩
    | some schemaId =>
      have hhas := hgives.has schemaId rfl
      refine ⟨⟨hgives.cached.client, hgives.cached.serializer.insert hhas⟩, fun n hn => ?_⟩
      cases hn
      exact hhas

/-- The caches are current, and the last answer refers to a schema that is registered. -/
structure Sound (w : World) : Prop where
  cached : Cached w
  refers : ∀ subject schemaId, w.answer.Refers subject schemaId → w.registry.Has subject schemaId

theorem serialize_sound (h : Cached w) (payload : Option (List UInt8)) :
    Sound (w.serialize subject schema payload fresh reply) := by
  unfold World.serialize
  have hgives : Gives subject (w.getOrRegister subject schema fresh reply) :=
    getOrRegister_gives h
  generalize w.getOrRegister subject schema fresh reply = called at hgives ⊢
  obtain ⟨result, w'⟩ := called
  have hraised : Sound { w' with answer := .raised } :=
    ⟨⟨hgives.cached.client, hgives.cached.serializer⟩, fun _ _ href => href.elim⟩
  cases result with
  | none => exact hraised
  | some schemaId =>
    cases hdata : payload.bind (encode schemaId) with
    | none => simpa [hdata] using hraised
    | some data =>
      obtain ⟨body, _, hencode⟩ := Option.bind_eq_some_iff.mp hdata
      simp only [hdata]
      refine ⟨⟨hgives.cached.client, hgives.cached.serializer⟩, ?_⟩
      rintro s n ⟨rfl, rest, hdecode⟩
      rw [decode_encode hencode] at hdecode
      cases hdecode
      exact hgives.has schemaId rfl

theorem deleteSubject_sound (h : Cached w)
    (hok : reply = .failed false ∨ w.Forgotten subject) :
    Sound (w.deleteSubject subject reply) := by
  have hdelete (hw : w.Forgotten subject) : Current (w.registry.delete subject) w.idBySubject ∧
      Current (w.registry.delete subject) w.schemaIdCache :=
    ⟨h.client.delete fun schema => (hw schema).1, h.serializer.delete fun schema => (hw schema).2⟩
  cases reply with
  | answered =>
    obtain ⟨hclient, hserializer⟩ := hdelete (hok.resolve_left nofun)
    exact ⟨⟨hclient.pop subject, hserializer⟩, fun _ _ href => href.elim⟩
  | failed done =>
    refine ⟨?_, fun _ _ href => href.elim⟩
    cases done with
    | false => exact ⟨h.client, h.serializer⟩
    | true =>
      obtain ⟨hclient, hserializer⟩ := hdelete (hok.resolve_left nofun)
      exact ⟨hclient, hserializer⟩

theorem next_sound (h : Cached w) (hok : Careful as w a) : Sound (next suffix w a) := by
  cases a with
  | register subject schema fresh reply =>
    have hgives : Gives subject (w.registerSchema subject schema fresh reply) :=
      registerSchema_gives h
    simp only [next]
    generalize w.registerSchema subject schema fresh reply = called at hgives ⊢
    obtain ⟨result, w'⟩ := called
    cases result with
    | none => exact ⟨⟨hgives.cached.client, hgives.cached.serializer⟩, fun _ _ href => href.elim⟩
    | some schemaId =>
      refine ⟨⟨hgives.cached.client, hgives.cached.serializer⟩, ?_⟩
      rintro s n ⟨rfl, rfl⟩
      exact hgives.has schemaId rfl
  | serialize topic recordName schema payload fresh reply => exact serialize_sound h payload
  | delete subject reply => exact deleteSubject_sound h hok

theorem contacted_of_forgotten (hw : w.Forgotten subject) (ha : a.registers suffix = some subject) :
    (next suffix w a).contacted = true := by
  cases a with
  | register s schema fresh reply =>
    cases ha
    cases reply <;> simp [next, World.registerSchema, (hw schema).1]
  | serialize topic recordName schema payload fresh reply =>
    cases ha
    cases reply with
    | answered =>
      simp only [next, World.serialize, World.getOrRegister, World.registerSchema, (hw schema).1,
        (hw schema).2]
      split <;> rfl
    | failed done =>
      simp [next, World.serialize, World.getOrRegister, World.registerSchema, hw schema]
  | delete s reply => cases ha

theorem Cached.forgotten (h : Cached w) (hr : w.registry subject = []) : w.Forgotten subject := by
  have hnone {cache : Str → Option ℤ} (hc : Current w.registry cache) (schema : Schema) :
      cache (cacheKey subject schema) = none := by
    cases hhit : cache (cacheKey subject schema) with
    | none => rfl
    | some schemaId =>
      obtain ⟨text, hmem⟩ := hc subject schema schemaId hhit
      rw [hr] at hmem
      cases hmem
  exact fun schema => ⟨hnone h.client schema, hnone h.serializer schema⟩

/-- The serializer has ids for the subjects of topics only. -/
def Named (suffix : Str) (w : World) : Prop :=
  ∀ subject schema, w.schemaIdCache (cacheKey subject schema) ≠ none →
    ∃ topic recordName, subject = subjectOf suffix topic recordName

theorem schemaIdCache_registerSchema :
    (w.registerSchema subject schema fresh reply).2.schemaIdCache = w.schemaIdCache := by
  unfold World.registerSchema
  cases w.idBySubject (cacheKey subject schema) with
  | some _ => rfl
  | none => cases reply <;> rfl

theorem schemaIdCache_getOrRegister {key : Str}
    (h : (w.getOrRegister subject schema fresh reply).2.schemaIdCache key ≠ none) :
    w.schemaIdCache key ≠ none ∨ key = cacheKey subject schema := by
  unfold World.getOrRegister at h
  cases hhit : w.schemaIdCache (cacheKey subject schema) with
  | some _ =>
    rw [hhit] at h
    exact .inl h
  | none =>
    rw [hhit] at h
    have hcache : (w.registerSchema subject schema fresh reply).2.schemaIdCache = w.schemaIdCache :=
      schemaIdCache_registerSchema
    generalize w.registerSchema subject schema fresh reply = called at h hcache
    obtain ⟨result, w'⟩ := called
    simp only at hcache
    cases result with
    | none =>
      rw [← hcache]
      exact .inl h
    | some schemaId =>
      simp only [hcache] at h
      by_cases hkey : key = cacheKey subject schema
      · exact .inr hkey
      · rw [Function.update_of_ne hkey] at h
        exact .inl h

theorem named_next (h : Named suffix w) (a : Act) : Named suffix (next suffix w a) := by
  cases a with
  | register subject schema fresh reply =>
    have hcache : (w.registerSchema subject schema fresh reply).2.schemaIdCache = w.schemaIdCache :=
      schemaIdCache_registerSchema
    simp only [next]
    generalize w.registerSchema subject schema fresh reply = called at hcache ⊢
    obtain ⟨result, w'⟩ := called
    simp only at hcache
    intro s other hne
    cases result with
    | none => exact h s other (hcache ▸ hne)
    | some _ => exact h s other (hcache ▸ hne)
  | serialize topic recordName schema payload fresh reply =>
    intro s other hne
    have hcache : (w.getOrRegister (subjectOf suffix topic recordName) schema fresh
        reply).2.schemaIdCache (cacheKey s other) ≠ none := by
      simp only [next, World.serialize] at hne
      generalize w.getOrRegister (subjectOf suffix topic recordName) schema fresh reply = called
        at hne ⊢
      obtain ⟨result, w'⟩ := called
      cases result with
      | none => exact hne
      | some schemaId =>
        cases hdata : payload.bind (encode schemaId) with
        | none => simpa [hdata] using hne
        | some data => simpa [hdata] using hne
    cases schemaIdCache_getOrRegister hcache with
    | inl hold => exact h s other hold
    | inr hkey => exact ⟨topic, recordName, cacheKey_inj hkey⟩
  | delete subject reply =>
    cases reply with
    | answered => exact h
    | failed done => exact h

theorem quiet_of_hit (h : Named suffix w) (hhit : ¬w.Forgotten subject) :
    ∃ a : Act, a.registers suffix = some subject ∧ (next suffix w a).contacted = false := by
  simp only [World.Forgotten, not_forall, not_and_or] at hhit
  obtain ⟨schema, hhit⟩ := hhit
  cases hhit with
  | inl hclient =>
    obtain ⟨schemaId, hid⟩ := Option.ne_none_iff_exists'.mp hclient
    refine ⟨.register subject schema 0 .answered, rfl, ?_⟩
    simp [next, World.registerSchema, hid]
  | inr hserializer =>
    obtain ⟨schemaId, hid⟩ := Option.ne_none_iff_exists'.mp hserializer
    obtain ⟨topic, recordName, rfl⟩ := h subject schema hserializer
    refine ⟨.serialize topic recordName schema none 0 .answered, rfl, ?_⟩
    simp [next, World.serialize, World.getOrRegister, hid]

/-- A deletion that leaves an id behind ends in a world that is not coherent. -/
theorem careful_of_coherent (h : Named suffix w) (hcoherent : Coherent suffix (next suffix w a)) :
    Careful as w a := by
  cases a with
  | register subject schema fresh reply => trivial
  | serialize topic recordName schema payload fresh reply => trivial
  | delete subject reply =>
    by_contra hok
    obtain ⟨hreply, hhit⟩ := not_or.mp hok
    have hdeleted : (w.deleteSubject subject reply).registry subject = [] := by
      cases reply with
      | answered => simp [World.deleteSubject, Registry.delete]
      | failed done =>
        cases done with
        | false => exact absurd rfl hreply
        | true => simp [World.deleteSubject, Registry.delete]
    have hleft : ¬(w.deleteSubject subject reply).Forgotten subject := by
      intro hgone
      refine hhit fun schema => ?_
      obtain ⟨hclient, hserializer⟩ := hgone schema
      cases reply with
      | answered =>
        -- the key that is taken out is none of the keys of the subject
        simp only [World.deleteSubject, Function.update_of_ne cacheKey_ne_subject] at hclient
        exact ⟨hclient, hserializer⟩
      | failed done => exact ⟨hclient, hserializer⟩
    obtain ⟨b, hb, hquiet⟩ := quiet_of_hit (named_next h (.delete subject reply)) hleft
    have hcontacted := hcoherent.contacts b subject hb hdeleted
    exact absurd hquiet (by simp [hcontacted])

variable {ok : Condition World Act}

theorem world_of_trace (h : Trace (calls suffix) ok as w) : w = as.foldl (next suffix) {} := by
  refine Trace.induct (I := fun as w => w = as.foldl (next suffix) {}) ?_ ?_ as w h
  · intro w hw
    exact hw
  · intro as w a w' _ ih _ hnext
    cases hnext
    rw [List.foldl_concat, ih]

theorem named_of_trace (h : Trace (calls suffix) ok as w) : Named suffix w := by
  refine Trace.invariant ?_ ?_ h
  · rintro w rfl _ _ hne
    exact absurd rfl hne
  · intro w a w' hw hnext
    cases hnext
    exact named_next hw a

theorem coherent_of_trace (h : Trace (calls suffix) Careful as w) : Coherent suffix w := by
  have hsound : Sound w := by
    refine Trace.induct (I := fun _ w => Sound w) ?_ ?_ as w h
    · rintro w rfl
      exact ⟨⟨nofun, nofun⟩, nofun⟩
    · intro as w a w' _ ih hok hnext
      cases hnext
      exact next_sound ih.cached hok
  refine ⟨hsound.refers, fun a subject ha hr => ?_⟩
  exact contacted_of_forgotten (hsound.cached.forgotten hr) ha

/-- A run stays coherent exactly when every deletion that takes effect is one of a subject that
neither cache has an id for. -/
theorem coherent_iff_careful (h : Trace (calls suffix) free as w) :
    (∀ bs v, bs <+: as → Trace (calls suffix) free bs v → Coherent suffix v) ↔
      Trace (calls suffix) Careful as w := by
  constructor
  · refine Trace.induct (I := fun as w => (∀ bs v, bs <+: as → Trace (calls suffix) free bs v →
      Coherent suffix v) → Trace (calls suffix) Careful as w) ?_ ?_ as w h
    · intro w hw _
      exact ⟨w, hw, .nil⟩
    · intro as w a w' htrace ih hok hnext hcoherent
      have hcareful := ih fun bs v hbs => hcoherent bs v (hbs.trans (List.prefix_append as [a]))
      have hlast := hcoherent (as ++ [a]) w' List.prefix_rfl (htrace.snoc hok hnext)
      cases hnext
      exact hcareful.snoc (careful_of_coherent (named_of_trace htrace) hlast) rfl
  · refine Trace.induct (I := fun as _ => ∀ bs v, bs <+: as → Trace (calls suffix) free bs v →
      Coherent suffix v) ?_ ?_ as w
    · intro w hw bs v hbs hv
      have hv : v = w := by
        rw [world_of_trace hv, List.prefix_nil.mp hbs, hw]
        rfl
      exact hv ▸ coherent_of_trace ⟨w, hw, .nil⟩
    · intro as w a w' htrace ih hok hnext bs v hbs hv
      cases List.prefix_concat_iff.mp hbs with
      | inl hbs =>
        have hcareful := htrace.snoc hok hnext
        have hv : v = w' := by rw [world_of_trace hv, world_of_trace hcareful, hbs]
        exact hv ▸ coherent_of_trace hcareful
      | inr hbs => exact ih bs v hbs hv

def orders : Str := "orders-value".toList

def payments : Str := "payments-value".toList

def order : Schema := [("type", .string "record"), ("name", .string "Order")]

def registerOrder (fresh : ℤ) : Act := .register orders order fresh .answered

theorem coherent_iff_careful_payments : Coherent "value".toList
    ([registerOrder 1, .delete payments .answered].foldl (next "value".toList) {}) := by
  have hfirst : Trace (calls "value".toList) free [registerOrder 1] _ :=
    ⟨_, rfl, Path.single trivial rfl⟩
  have hcarefulFirst : Trace (calls "value".toList) Careful [registerOrder 1] _ :=
    ⟨_, rfl, Path.single trivial rfl⟩
  have hforgotten : (next "value".toList {} (registerOrder 1)).Forgotten payments := by
    intro schema
    have hkey : cacheKey payments schema ≠ cacheKey orders order :=
      fun h => absurd (cacheKey_inj h) (by decide)
    simp [next, registerOrder, World.registerSchema, hkey]
  have hfree := hfirst.snoc (a := .delete payments .answered) trivial rfl
  have hok : Careful [registerOrder 1] (next "value".toList {} (registerOrder 1))
      (.delete payments .answered) := Or.inr hforgotten
  have hcareful := hcarefulFirst.snoc hok rfl
  exact (coherent_iff_careful hfree).mpr hcareful _ _ List.prefix_rfl hfree

/-- The id of a deleted schema is given again. -/
theorem deleted_id_returned : ¬∀ (suffix : Str) (as : List Act) (w : World),
    Trace (calls suffix) free as w → Coherent suffix w := by
  intro hall
  have hfirst : Trace (calls "value".toList) free [registerOrder 1] _ :=
    ⟨_, rfl, Path.single trivial rfl⟩
  have hdeleted := hfirst.snoc (a := .delete orders .answered) trivial rfl
  have hagain := hdeleted.snoc (a := registerOrder 2) trivial rfl
  have hrefers := (hall _ _ _ hagain).refers orders 1 (by
    simp [next, registerOrder, World.registerSchema, World.deleteSubject, Registry.register,
      cacheKey_ne_subject, Answer.Refers])
  obtain ⟨text, hmem⟩ := hrefers
  simp [next, registerOrder, World.registerSchema, World.deleteSubject, Registry.register,
    Registry.delete, cacheKey_ne_subject] at hmem

end Taas.SchemaRegistry
