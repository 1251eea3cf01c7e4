import Mathlib.Data.List.Forall2

/-!
Python data under Avro schemas. `Written` says that a datum can be written under a schema and
what the bytes give when they are read under it; how scalars are written and which branch of a
union is taken are parameters. The keys of a datum are all kept exactly when the schema carries
them down to the leaves.
-/
namespace Taas.AvroData

/-- A tuple and a set are lists of which `isList` is false. -/
inductive Datum (V : Type)
  | scalar (v : V)
  | list (isList : Bool) (items : List (Datum V))
  | dict (entries : List (String × Datum V))

/-- A `leaf` has no schemas in it. A field of a record has its name, its type, and the datum that
is written when there is none. -/
inductive Schema (L V : Type)
  | leaf (l : L)
  | reference (name : String)
  | array (items : Schema L V)
  | map (values : Schema L V)
  | record (name : String) (fields : List (String × Schema L V × Datum V))
  | union (branches : List (Schema L V))

variable {L V : Type}

/-- The induction on data, with the items of a list and the values of a dict. -/
theorem Datum.induct {P : Datum V → Prop} (hscalar : ∀ v, P (.scalar v))
    (hlist : ∀ b xs, (∀ x ∈ xs, P x) → P (.list b xs))
    (hdict : ∀ es, (∀ x ∈ es, P x.2) → P (.dict es)) (d : Datum V) : P d := by
  refine @Datum.rec V P (fun xs => ∀ x ∈ xs, P x) (fun es => ∀ x ∈ es, P x.2) (fun x => P x.2)
    hscalar hlist hdict ?_ ?_ ?_ ?_ (fun _ _ h => h) d
  · simp
  · intro x xs hx hxs y hy
    rcases List.mem_cons.mp hy with rfl | hy
    · exact hx
    · exact hxs y hy
  · simp
  · intro x es hx hes y hy
    rcases List.mem_cons.mp hy with rfl | hy
    · exact hx
    · exact hes y hy

section Lists

variable {α β : Type} {R : α → β → Prop} {xs : List α} {ys : List β}

theorem forall₂_getElem? (h : List.Forall₂ R xs ys) {i : ℕ} {x : α} (hx : xs[i]? = some x) :
    ∃ y, ys[i]? = some y ∧ R x y := by
  induction h generalizing i with
  | nil => cases hx
  | @cons a b _ _ hhead _ ih =>
    cases i with
    | zero =>
      cases hx
      exact ⟨b, rfl, hhead⟩
    | succ i => exact ih hx

theorem forall₂_mem_left (h : List.Forall₂ R xs ys) {x : α} (hx : x ∈ xs) : ∃ y ∈ ys, R x y := by
  obtain ⟨i, hi⟩ := List.getElem?_of_mem hx
  obtain ⟨y, hy, hr⟩ := forall₂_getElem? h hi
  exact ⟨y, List.mem_of_getElem? hy, hr⟩

theorem forall₂_mem_right (h : List.Forall₂ R xs ys) {y : β} (hy : y ∈ ys) : ∃ x ∈ xs, R x y :=
  forall₂_mem_left h.flip hy

/-- An item with those at its place in two other lists. -/
theorem forall₂_beside {γ : Type} {T : α → γ → Prop} {R' : γ → β → Prop} {zs : List γ}
    (h : List.Forall₂ R xs ys) (ht : List.Forall₂ T xs zs) (h' : List.Forall₂ R' zs ys) {x : α}
    (hx : x ∈ xs) : ∃ z y, T x z ∧ R x y ∧ R' z y := by
  obtain ⟨i, hi⟩ := List.getElem?_of_mem hx
  obtain ⟨y, hy, hr⟩ := forall₂_getElem? h hi
  obtain ⟨z, hz, hxz⟩ := forall₂_getElem? ht hi
  obtain ⟨y', hy', hr'⟩ := forall₂_getElem? h' hz
  rw [hy] at hy'
  cases hy'
  exact ⟨z, y, hxz, hr, hr'⟩

theorem forall₂_iff_getElem? : List.Forall₂ R xs ys ↔ xs.length = ys.length ∧
    ∀ (i : ℕ) x y, xs[i]? = some x → ys[i]? = some y → R x y := by
  constructor
  · intro h
    refine ⟨h.length_eq, ?_⟩
    intro i x y hx hy
    obtain ⟨y', hy', hr⟩ := forall₂_getElem? h hx
    rw [hy] at hy'
    cases hy'
    exact hr
  · rintro ⟨hlength, hall⟩
    rw [List.forall₂_iff_get]
    refine ⟨hlength, ?_⟩
    intro i hi hi'
    exact hall i _ _ (by simp [hi]) (by simp [hi'])

theorem forall₂_sides {γ : Type} {T : α → γ → Prop} {zs : List γ} (h : List.Forall₂ R xs ys)
    (ht : List.Forall₂ T xs zs) : List.Forall₂ (fun y z => ∃ x, R x y ∧ T x z) ys zs := by
  induction h generalizing zs with
  | nil =>
    cases ht
    exact List.Forall₂.nil
  | cons hhead _ ih =>
    cases ht with
    | cons hhead' ht => exact List.Forall₂.cons ⟨_, hhead, hhead'⟩ (ih ht)

theorem keys_eq {es : List (String × α)} {es' : List (String × β)}
    (h : List.Forall₂ (fun x y => y.1 = x.1 ∧ R x.2 y.2) es es') :
    es'.map Prod.fst = es.map Prod.fst := by
  induction h with
  | nil => rfl
  | cons hhead _ ih => rw [List.map_cons, List.map_cons, hhead.1, ih]

theorem exists_forall₂ (h : ∀ x ∈ xs, ∃ y, R x y) : ∃ ys, List.Forall₂ R xs ys := by
  induction xs with
  | nil => exact ⟨[], List.Forall₂.nil⟩
  | cons x xs ih =>
    obtain ⟨y, hy⟩ := h x List.mem_cons_self
    obtain ⟨ys, hys⟩ := ih fun x' hx' => h x' (List.mem_cons_of_mem x hx')
    exact ⟨y :: ys, List.Forall₂.cons hy hys⟩

end Lists

inductive Step
  | key (k : String)
  | item (i : ℕ)

namespace Datum

def child : Datum V → Step → Option (Datum V)
  | dict entries, .key k => entries.lookup k
  | list _ items, .item i => items[i]?
  | _, _ => none

def descend : Datum V → List Step → Option (Datum V)
  | d, [] => some d
  | d, s :: path => (d.child s).bind fun c => c.descend path

/-- The key `k` is in the dict that the path leads to. -/
def HasKey (d : Datum V) (path : List Step) (k : String) : Prop :=
  (d.descend (path ++ [.key k])).isSome

def Keyless (d : Datum V) : Prop := ∀ path k, ¬ d.HasKey path k

end Datum

open Datum

/-- Every key of `d` is in `d'` at the same place. -/
def KeysKept (d d' : Datum V) : Prop := ∀ path k, d.HasKey path k → d'.HasKey path k

variable {d d' c : Datum V} {s : Step} {k : String} {path : List Step}

theorem hasKey_nil : d.HasKey [] k ↔ ∃ c, d.child (.key k) = some c := by
  unfold HasKey
  rw [List.nil_append, descend]
  cases d.child (.key k) <;> simp [descend]

theorem hasKey_cons : d.HasKey (s :: path) k ↔ ∃ c, d.child s = some c ∧ c.HasKey path k := by
  unfold HasKey
  rw [List.cons_append, descend]
  cases d.child s <;> simp

theorem keyless_scalar (v : V) : (scalar v).Keyless := by
  intro path k h
  cases path with
  | nil =>
    obtain ⟨c, hc⟩ := hasKey_nil.mp h
    cases hc
  | cons s path =>
    obtain ⟨c, hc, -⟩ := hasKey_cons.mp h
    cases hc

theorem keysKept_of_keyless (h : d.Keyless) : KeysKept d d' :=
  fun path k hk => absurd hk (h path k)

theorem keysKept_keyless (h : d'.Keyless) : KeysKept d d' ↔ d.Keyless := by
  constructor
  · intro hkept path k hk
    exact h path k (hkept path k hk)
  · exact keysKept_of_keyless

/-- The keys of a dict are kept when each is there with the keys of its value. -/
theorem keysKept_dict {entries : List (String × Datum V)} : KeysKept (dict entries) d' ↔
    ∀ k v, entries.lookup k = some v → ∃ v', d'.child (.key k) = some v' ∧ KeysKept v v' := by
  constructor
  · intro h k v hv
    obtain ⟨v', hv'⟩ := hasKey_nil.mp (h [] k (hasKey_nil.mpr ⟨v, hv⟩))
    refine ⟨v', hv', ?_⟩
    intro path k' hk'
    obtain ⟨c, hc, hkey⟩ := hasKey_cons.mp (h (.key k :: path) k' (hasKey_cons.mpr ⟨v, hv, hk'⟩))
    rw [hv'] at hc
    cases hc
    exact hkey
  · intro h path k hk
    cases path with
    | nil =>
      obtain ⟨v, hv⟩ := hasKey_nil.mp hk
      obtain ⟨v', hv', -⟩ := h k v hv
      exact hasKey_nil.mpr ⟨v', hv'⟩
    | cons s path =>
      obtain ⟨v, hv, hkey⟩ := hasKey_cons.mp hk
      cases s with
      | key k' =>
        obtain ⟨v', hv', hkept⟩ := h k' v hv
        exact hasKey_cons.mpr ⟨v', hv', hkept path k hkey⟩
      | item i => cases hv

theorem keysKept_list {b b' : Bool} {xs ys : List (Datum V)} (hlength : xs.length = ys.length) :
    KeysKept (list b xs) (list b' ys) ↔
      ∀ (i : ℕ) x y, xs[i]? = some x → ys[i]? = some y → KeysKept x y := by
  constructor
  · intro h i x y hx hy path k hk
    obtain ⟨c, hc, hkey⟩ := hasKey_cons.mp (h (.item i :: path) k (hasKey_cons.mpr ⟨x, hx, hk⟩))
    have hsame : ys[i]? = some c := hc
    rw [hy] at hsame
    cases hsame
    exact hkey
  · intro h path k hk
    cases path with
    | nil =>
      obtain ⟨v, hv⟩ := hasKey_nil.mp hk
      cases hv
    | cons s path =>
      obtain ⟨x, hx, hkey⟩ := hasKey_cons.mp hk
      cases s with
      | key k' => cases hx
      | item i =>
        have hx' : xs[i]? = some x := hx
        have hlt : i < ys.length := by
          rw [← hlength]
          exact (List.getElem?_eq_some_iff.mp hx').1
        have hy : ys[i]? = some (ys.get ⟨i, hlt⟩) := by simp [hlt]
        exact hasKey_cons.mpr ⟨_, hy, h i x _ hx' hy path k hkey⟩

/-- The writer goes on with the parts of the datum. -/
def Schema.nests : Schema L V → Datum V → Bool
  | reference _, _ => true
  | union _, _ => true
  | array _, .list _ _ => true
  | map _, .dict _ => true
  | record _ _, .dict _ => true
  | _, _ => false

/-- The library that writes and reads. `parses` are the schemas that it accepts, `resolve` finds
a named type of a schema, `choose` the branch of a union, and `write` is what is read back of a
datum whose parts are not written one by one, which has no dict in it. -/
structure Fastavro (L V : Type) where
  parses : Schema L V → Prop
  resolve : Schema L V → String → Option (Schema L V)
  choose : Schema L V → List (Schema L V) → Datum V → Option (Schema L V)
  write : Schema L V → Datum V → Option (Datum V)
  write_keyless : ∀ s d d', write s d = some d' → d'.Keyless

/-- `d` can be written under a part of the schema `root`, and `d'` is what is read back. A record
ignores the keys that it has no field for. The keys of a dict differ. -/
inductive Written (F : Fastavro L V) (root : Schema L V) : Schema L V → Datum V → Datum V → Prop
  | flat {s : Schema L V} {d d' : Datum V} :
      s.nests d = false → F.write s d = some d' → Written F root s d d'
  | reference {n : String} {s : Schema L V} {d d' : Datum V} :
      F.resolve root n = some s → Written F root s d d' → Written F root (.reference n) d d'
  | array {items : Schema L V} {b : Bool} {xs ys : List (Datum V)} :
      xs.length = ys.length →
      (∀ (i : ℕ) x y, xs[i]? = some x → ys[i]? = some y → Written F root items x y) →
      Written F root (.array items) (.list b xs) (.list true ys)
  | map {values : Schema L V} {es es' : List (String × Datum V)} :
      (es.map Prod.fst).Nodup → es'.map Prod.fst = es.map Prod.fst →
      (∀ k v v', es.lookup k = some v → es'.lookup k = some v' → Written F root values v v') →
      Written F root (.map values) (.dict es) (.dict es')
  | record {name : String} {fields : List (String × Schema L V × Datum V)}
      {es es' : List (String × Datum V)} :
      es'.map Prod.fst = fields.map Prod.fst →
      (∀ k t default v', fields.lookup k = some (t, default) → es'.lookup k = some v' →
        Written F root t ((es.lookup k).getD default) v') →
      Written F root (.record name fields) (.dict es) (.dict es')
  | union {branches : List (Schema L V)} {s : Schema L V} {d d' : Datum V} :
      F.choose root branches d = some s → Written F root s d d' →
      Written F root (.union branches) d d'

/-- Every dict is written under a map, or under a record with a field for each of its keys. -/
inductive Carries (F : Fastavro L V) (root : Schema L V) : Schema L V → Datum V → Prop
  | flat {s : Schema L V} {d : Datum V} : s.nests d = false → d.Keyless → Carries F root s d
  | reference {n : String} {s : Schema L V} {d : Datum V} :
      F.resolve root n = some s → Carries F root s d → Carries F root (.reference n) d
  | array {items : Schema L V} {b : Bool} {xs : List (Datum V)} :
      (∀ x ∈ xs, Carries F root items x) → Carries F root (.array items) (.list b xs)
  | map {values : Schema L V} {es : List (String × Datum V)} :
      (∀ k v, es.lookup k = some v → Carries F root values v) →
      Carries F root (.map values) (.dict es)
  | record {name : String} {fields : List (String × Schema L V × Datum V)}
      {es : List (String × Datum V)} :
      (∀ k v, es.lookup k = some v → (fields.lookup k).isSome) →
      (∀ k v t default, es.lookup k = some v → fields.lookup k = some (t, default) →
        Carries F root t v) →
      Carries F root (.record name fields) (.dict es)
  | union {branches : List (Schema L V)} {s : Schema L V} {d : Datum V} :
      F.choose root branches d = some s → Carries F root s d → Carries F root (.union branches) d

variable {F : Fastavro L V} {root t : Schema L V}

theorem lookup_isSome {α : Type} {es : List (String × α)} :
    (es.lookup k).isSome ↔ k ∈ es.map Prod.fst := by
  induction es with
  | nil => simp
  | cons x es ih =>
    obtain ⟨k', v⟩ := x
    by_cases hk : k = k'
    · simp [hk]
    · have hbeq : (k == k') = false := beq_eq_false_iff_ne.mpr hk
      simp [List.lookup_cons, hbeq, hk, ih]

/-- Two lists with the same keys find the same ones. -/
theorem lookup_of_keys {α β : Type} {es : List (String × α)} {es' : List (String × β)}
    (h : es.map Prod.fst = es'.map Prod.fst) : (es.lookup k).isSome ↔ (es'.lookup k).isSome := by
  rw [lookup_isSome, lookup_isSome, h]

theorem lookup_map {α β : Type} (es : List (String × α)) (g : String → α → β) :
    (es.map fun x => (x.1, g x.1 x.2)).lookup k = (es.lookup k).map (g k) := by
  induction es with
  | nil => rfl
  | cons x es ih =>
    obtain ⟨k', v⟩ := x
    by_cases hk : k = k'
    · simp [hk]
    · have hbeq : (k == k') = false := beq_eq_false_iff_ne.mpr hk
      simpa [List.lookup_cons, hbeq] using ih

/-- Entries side by side have their values side by side. -/
theorem forall₂_lookup {α β : Type} {R : String → α → β → Prop} {es : List (String × α)}
    {es' : List (String × β)} (h : List.Forall₂ (fun x y => y.1 = x.1 ∧ R x.1 x.2 y.2) es es')
    {v : α} (hv : es.lookup k = some v) : ∃ v', es'.lookup k = some v' ∧ R k v v' := by
  induction h with
  | nil => cases hv
  | @cons x y es es' hhead _ ih =>
    obtain ⟨k', w⟩ := x
    obtain ⟨k'', w'⟩ := y
    obtain ⟨hkey, hr⟩ := hhead
    obtain rfl : k'' = k' := hkey
    by_cases hk : k = k''
    · subst hk
      rw [List.lookup_cons_self] at hv ⊢
      cases hv
      exact ⟨w', rfl, hr⟩
    · have hbeq : (k == k'') = false := beq_eq_false_iff_ne.mpr hk
      rw [List.lookup_cons, hbeq] at hv ⊢
      exact ih hv

theorem lookup_eq_some_iff {α : Type} {es : List (String × α)} (h : (es.map Prod.fst).Nodup)
    {v : α} : es.lookup k = some v ↔ (k, v) ∈ es := by
  induction es with
  | nil => simp
  | cons x es ih =>
    obtain ⟨k', v'⟩ := x
    obtain ⟨hnot, hnodup⟩ := List.nodup_cons.mp h
    rw [List.lookup_cons, List.mem_cons, Prod.mk.injEq]
    by_cases hk : k = k'
    · subst hk
      have habsent : ¬ (k, v) ∈ es := fun hmem => hnot (List.mem_map.mpr ⟨(k, v), hmem, rfl⟩)
      simp [habsent, eq_comm]
    · have hbeq : (k == k') = false := beq_eq_false_iff_ne.mpr hk
      simp [hbeq, hk, ih hnodup]

theorem written_flat (hflat : t.nests d = false) :
    Written F root t d d' ↔ F.write t d = some d' := by
  constructor
  · intro h
    cases h with
    | flat _ hwrite => exact hwrite
    | reference _ _ => cases hflat
    | array _ _ => cases hflat
    | map _ _ _ => cases hflat
    | record _ _ => cases hflat
    | union _ _ => cases hflat
  · exact Written.flat hflat

theorem written_reference {n : String} : Written F root (.reference n) d d' ↔
    ∃ s, F.resolve root n = some s ∧ Written F root s d d' := by
  constructor
  · intro h
    cases h with
    | flat hflat _ => cases hflat
    | reference hresolve hwritten => exact ⟨_, hresolve, hwritten⟩
  · rintro ⟨s, hresolve, hwritten⟩
    exact Written.reference hresolve hwritten

theorem written_union {branches : List (Schema L V)} : Written F root (.union branches) d d' ↔
    ∃ s, F.choose root branches d = some s ∧ Written F root s d d' := by
  constructor
  · intro h
    cases h with
    | flat hflat _ => cases hflat
    | union hchoose hwritten => exact ⟨_, hchoose, hwritten⟩
  · rintro ⟨s, hchoose, hwritten⟩
    exact Written.union hchoose hwritten

theorem written_array {b : Bool} {xs : List (Datum V)} :
    Written F root (.array t) (.list b xs) d' ↔
      ∃ ys, d' = .list true ys ∧ List.Forall₂ (Written F root t) xs ys := by
  constructor
  · intro h
    cases h with
    | flat hflat _ => cases hflat
    | array hlength hall => exact ⟨_, rfl, forall₂_iff_getElem?.mpr ⟨hlength, hall⟩⟩
  · rintro ⟨ys, rfl, hall⟩
    obtain ⟨hlength, hitems⟩ := forall₂_iff_getElem?.mp hall
    exact Written.array hlength hitems

theorem written_map {es : List (String × Datum V)} : Written F root (.map t) (.dict es) d' ↔
    (es.map Prod.fst).Nodup ∧ ∃ es', d' = .dict es' ∧
      List.Forall₂ (fun x y => y.1 = x.1 ∧ Written F root t x.2 y.2) es es' := by
  constructor
  · intro h
    cases h with
    | flat hflat _ => cases hflat
    | @map _ _ es' hnodup hkeys hall =>
      have hnodup' : (es'.map Prod.fst).Nodup := by
        rw [hkeys]
        exact hnodup
      have hlength : es.length = es'.length := by simpa using (congrArg List.length hkeys).symm
      refine ⟨hnodup, es', rfl, forall₂_iff_getElem?.mpr ⟨hlength, ?_⟩⟩
      intro i x y hx hy
      have hkey : y.1 = x.1 := by
        have hi := congrArg (fun l => l[i]?) hkeys
        simpa [hx, hy] using hi
      refine ⟨hkey, hall x.1 x.2 y.2 ?_ ?_⟩
      · exact (lookup_eq_some_iff hnodup).mpr (List.mem_of_getElem? hx)
      · rw [← hkey]
        exact (lookup_eq_some_iff hnodup').mpr (List.mem_of_getElem? hy)
  · rintro ⟨hnodup, es', rfl, hall⟩
    have hkeys := keys_eq hall
    have hnodup' : (es'.map Prod.fst).Nodup := by
      rw [hkeys]
      exact hnodup
    refine Written.map hnodup hkeys ?_
    intro k v v' hv hv'
    obtain ⟨i, hi⟩ := List.getElem?_of_mem ((lookup_eq_some_iff hnodup).mp hv)
    obtain ⟨⟨k', w⟩, hw, hkey, hwritten⟩ := forall₂_getElem? hall hi
    obtain rfl : k' = k := hkey
    have hsame := (lookup_eq_some_iff hnodup').mpr (List.mem_of_getElem? hw)
    rw [hv'] at hsame
    cases hsame
    exact hwritten

theorem written_record {name : String} {fields : List (String × Schema L V × Datum V)}
    {es : List (String × Datum V)} : Written F root (.record name fields) (.dict es) d' ↔
      ∃ es', d' = .dict es' ∧ es'.map Prod.fst = fields.map Prod.fst ∧
        ∀ k t default v', fields.lookup k = some (t, default) → es'.lookup k = some v' →
          Written F root t ((es.lookup k).getD default) v' := by
  constructor
  · intro h
    cases h with
    | flat hflat _ => cases hflat
    | record hkeys hall => exact ⟨_, rfl, hkeys, hall⟩
  · rintro ⟨es', rfl, hkeys, hall⟩
    exact Written.record hkeys hall

theorem carries_flat (hflat : t.nests d = false) : Carries F root t d ↔ d.Keyless := by
  constructor
  · intro h
    cases h with
    | flat _ hkeyless => exact hkeyless
    | reference _ _ => cases hflat
    | array _ => cases hflat
    | map _ => cases hflat
    | record _ _ => cases hflat
    | union _ _ => cases hflat
  · exact Carries.flat hflat

theorem carries_reference {name : String} {s : Schema L V}
    (hresolve : F.resolve root name = some s) :
    Carries F root (.reference name) d ↔ Carries F root s d := by
  constructor
  · intro h
    cases h with
    | flat hflat _ => cases hflat
    | reference hresolve' hcarries =>
      rw [hresolve] at hresolve'
      cases hresolve'
      exact hcarries
  · exact Carries.reference hresolve

theorem carries_array {items : Schema L V} {b : Bool} {xs : List (Datum V)} :
    Carries F root (.array items) (.list b xs) ↔ ∀ x ∈ xs, Carries F root items x := by
  constructor
  · intro h
    cases h with
    | flat hflat _ => cases hflat
    | array hall => exact hall
  · exact Carries.array

theorem carries_map {values : Schema L V} {es : List (String × Datum V)} :
    Carries F root (.map values) (.dict es) ↔
      ∀ k v, es.lookup k = some v → Carries F root values v := by
  constructor
  · intro h
    cases h with
    | flat hflat _ => cases hflat
    | map hall => exact hall
  · exact Carries.map

theorem carries_union {branches : List (Schema L V)} {s : Schema L V}
    (hchoose : F.choose root branches d = some s) :
    Carries F root (.union branches) d ↔ Carries F root s d := by
  constructor
  · intro h
    cases h with
    | flat hflat _ => cases hflat
    | union hchoose' hcarries =>
      rw [hchoose] at hchoose'
      cases hchoose'
      exact hcarries
  · exact Carries.union hchoose

/-- A record carries a dict when each of its keys is a field that carries its value. -/
theorem carries_record {name : String} {fields : List (String × Schema L V × Datum V)}
    {es : List (String × Datum V)} : Carries F root (.record name fields) (.dict es) ↔
      ∀ k v, es.lookup k = some v →
        ∃ t default, fields.lookup k = some (t, default) ∧ Carries F root t v := by
  constructor
  · intro h k v hv
    cases h with
    | flat hflat _ => cases hflat
    | record hfields hall =>
      obtain ⟨⟨t, default⟩, hfield⟩ := Option.isSome_iff_exists.mp (hfields k v hv)
      exact ⟨t, default, hfield, hall k v t default hv hfield⟩
  · intro h
    refine Carries.record ?_ ?_
    · intro k v hv
      obtain ⟨t, default, hfield, -⟩ := h k v hv
      rw [hfield]
      rfl
    · intro k v t default hv hfield
      obtain ⟨t', default', hfield', hcarries⟩ := h k v hv
      rw [hfield] at hfield'
      cases hfield'
      exact hcarries

/-- What is read back has all keys of what was written exactly when the schema carries them. -/
theorem keysKept_iff_carries (h : Written F root t d d') :
    KeysKept d d' ↔ Carries F root t d := by
  induction h with
  | flat hflat hwrite =>
    rw [keysKept_keyless (F.write_keyless _ _ _ hwrite), carries_flat hflat]
  | reference hresolve _ ih => rw [ih, carries_reference hresolve]
  | array hlength _ ih =>
    rw [keysKept_list hlength, carries_array]
    constructor
    · intro hkept x hx
      obtain ⟨i, hi⟩ := List.getElem?_of_mem hx
      have hlt := (List.getElem?_eq_some_iff.mp hi).1
      rw [hlength] at hlt
      have hy := List.getElem?_eq_getElem hlt
      exact (ih i x _ hi hy).mp (hkept i x _ hi hy)
    · intro hall i x y hx hy
      exact (ih i x y hx hy).mpr (hall x (List.mem_of_getElem? hx))
  | @map values es es' _ hkeys _ ih =>
    rw [keysKept_dict, carries_map]
    refine forall₂_congr fun k v => ?_
    constructor
    · intro hkept hv
      obtain ⟨v', hv', hkept'⟩ := hkept hv
      exact (ih k v v' hv hv').mp hkept'
    · intro hcarries hv
      have hsome : (es'.lookup k).isSome := (lookup_of_keys hkeys).mpr (by rw [hv]; rfl)
      obtain ⟨v', hv'⟩ := Option.isSome_iff_exists.mp hsome
      exact ⟨v', hv', (ih k v v' hv hv').mpr (hcarries hv)⟩
  | @record name fields es es' hkeys _ ih =>
    rw [keysKept_dict, carries_record]
    refine forall₂_congr fun k v => ?_
    constructor
    · intro hkept hv
      obtain ⟨v', hv', hkept'⟩ := hkept hv
      have hread : es'.lookup k = some v' := hv'
      have hsome : (fields.lookup k).isSome := (lookup_of_keys hkeys).mp (by rw [hread]; rfl)
      obtain ⟨⟨t, default⟩, hfield⟩ := Option.isSome_iff_exists.mp hsome
      have hiff := ih k t default v' hfield hv'
      rw [hv, Option.getD_some] at hiff
      exact ⟨t, default, hfield, hiff.mp hkept'⟩
    · intro hcarries hv
      obtain ⟨t, default, hfield, hcarries'⟩ := hcarries hv
      have hsome : (es'.lookup k).isSome := (lookup_of_keys hkeys).mpr (by rw [hfield]; rfl)
      obtain ⟨v', hv'⟩ := Option.isSome_iff_exists.mp hsome
      have hiff := ih k t default v' hfield hv'
      rw [hv, Option.getD_some] at hiff
      exact ⟨v', hv', hiff.mpr hcarries'⟩
  | union hchoose _ ih => rw [ih, carries_union hchoose]

end Taas.AvroData
