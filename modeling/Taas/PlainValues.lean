import Taas.MsgEncoder

/-!
Python values as trees: equality, a map over the times in a value, and properties of a value
and all values in it. Dicts have string keys. The recursions go down the lists of a list and of
a dict; `induct` is the one induction the lemmas use, with list lemmas for its two inner cases.
-/
namespace Taas.MsgEncoder.Value

open Python

mutual

/-- `a == b`, where the keys of dicts are strings. -/
def eq : Value → Value → Bool
  | none, none => true
  | bool a, bool b => a = b
  | int a, int b => a = b
  | bool a, int n | int n, bool a => n = a.toNat
  | str a, str b => a = b
  | datetime a, datetime b => a.eq b
  | list as, list bs => eqList as bs
  | dict as, dict bs => as.length = bs.length && eqEntries as bs
  | _, _ => false

def eqList : List Value → List Value → Bool
  | [], [] => true
  | a :: as, b :: bs => eq a b && eqList as bs
  | _, _ => false

/-- Every entry of the first list is in the second. -/
def eqEntries : List (Value × Value) → List (Value × Value) → Bool
  | [], _ => true
  | (k, v) :: as, bs =>
    (match k with
      | str s =>
        match get bs s with
        | some w => eq v w
        | Option.none => false
      | _ => false) && eqEntries as bs

end

mutual

/-- The value with every time in it replaced. Keys stay. -/
def mapDatetimes (f : Datetime → Value) : Value → Value
  | datetime t => f t
  | list vs => list (mapList f vs)
  | dict entries => dict (mapEntries f entries)
  | v => v

def mapList (f : Datetime → Value) : List Value → List Value
  | [] => []
  | v :: vs => mapDatetimes f v :: mapList f vs

def mapEntries (f : Datetime → Value) : List (Value × Value) → List (Value × Value)
  | [] => []
  | (k, v) :: entries => (k, mapDatetimes f v) :: mapEntries f entries

end

mutual

/-- A property holds of the value and of every value in it. -/
def everywhere (p : Value → Bool) : Value → Bool
  | list vs => p (list vs) && everyList p vs
  | dict entries => p (dict entries) && everyEntries p entries
  | v => p v

def everyList (p : Value → Bool) : List Value → Bool
  | [] => true
  | v :: vs => everywhere p v && everyList p vs

def everyEntries (p : Value → Bool) : List (Value × Value) → Bool
  | [] => true
  | (_, v) :: entries => everywhere p v && everyEntries p entries

end

/-- The string keys of a dict. -/
def keys (entries : List (Value × Value)) : List String :=
  entries.filterMap fun x => match x.1 with
    | str s => some s
    | _ => Option.none

/-- None, booleans, integers, strings and times, lists, and dicts with string keys. -/
def plain : Value → Bool :=
  everywhere fun
    | none | bool _ | int _ | str _ | datetime _ | list _ => true
    | dict entries => entries.all (fun x => x.1 matches str _) ∧ (keys entries).Nodup
    | float _ | bytes _ | ext _ _ => false

def scalar : Value → Bool
  | list _ | dict _ => false
  | _ => true

/-- The induction on values, with the elements of a list and the values of a dict. -/
theorem induct {P : Value → Prop} (hlist : ∀ vs, (∀ v ∈ vs, P v) → P (list vs))
    (hdict : ∀ entries, (∀ x ∈ entries, P x.2) → P (dict entries))
    (hscalar : ∀ v, v.scalar → P v) (v : Value) : P v := by
  refine @Value.rec P (fun vs => ∀ v ∈ vs, P v) (fun entries => ∀ x ∈ entries, P x.2)
    (fun x => P x.2) (hscalar none rfl) (fun b => hscalar (bool b) rfl)
    (fun n => hscalar (int n) rfl) (fun x => hscalar (float x) rfl)
    (fun s => hscalar (str s) rfl) (fun b => hscalar (bytes b) rfl)
    (fun t => hscalar (datetime t) rfl) hlist hdict (fun code data => hscalar (ext code data) rfl)
    ?_ ?_ ?_ ?_ (fun _ _ _ h => h) v
  · simp
  · intro w ws hw hws u hu
    rcases List.mem_cons.mp hu with rfl | hu
    · exact hw
    · exact hws u hu
  · simp
  · intro x entries hx hentries y hy
    rcases List.mem_cons.mp hy with rfl | hy
    · exact hx
    · exact hentries y hy

variable {f : Datetime → Value} {p q : Value → Bool} {v : Value}
variable {vs : List Value} {entries : List (Value × Value)}

theorem eq_of_str_eq {s : String} (h : (str s).eq v) : v = str s := by
  cases v with
  | str s' =>
    rw [eq, decide_eq_true_eq] at h
    rw [h]
  | _ => cases h

theorem everyList_iff : everyList p vs ↔ ∀ v ∈ vs, v.everywhere p := by
  induction vs with
  | nil => simp [everyList]
  | cons v vs ih => simp [everyList, ih]

theorem everyEntries_iff : everyEntries p entries ↔ ∀ x ∈ entries, x.2.everywhere p := by
  induction entries with
  | nil => simp [everyEntries]
  | cons x entries ih => simp [everyEntries, ih]

theorem everywhere_scalar (h : v.scalar) : v.everywhere p = p v := by
  cases v with
  | list vs => cases h
  | dict entries => cases h
  | _ => rfl

theorem everywhere_list_iff :
    (list vs).everywhere p ↔ p (list vs) ∧ ∀ v ∈ vs, v.everywhere p := by
  rw [everywhere, Bool.and_eq_true, everyList_iff]

theorem everywhere_dict_iff : (dict entries).everywhere p ↔
    p (dict entries) ∧ ∀ x ∈ entries, x.2.everywhere p := by
  rw [everywhere, Bool.and_eq_true, everyEntries_iff]

theorem mapEntries_eq (f : Datetime → Value) (entries : List (Value × Value)) :
    mapEntries f entries = entries.map fun x => (x.1, x.2.mapDatetimes f) := by
  induction entries with
  | nil => rfl
  | cons x entries ih => rw [mapEntries, ih, List.map_cons]

theorem get_of_mem {s : String} (hkeys : (keys entries).Nodup) (h : (str s, v) ∈ entries) :
    get entries s = some v := by
  induction entries with
  | nil => cases h
  | cons x entries ih =>
    obtain ⟨k, w⟩ := x
    rcases List.mem_cons.mp h with heq | hrest
    · obtain ⟨rfl, rfl⟩ := Prod.mk.inj heq
      simp [get]
    · have hmem : s ∈ keys entries := List.mem_filterMap.mpr ⟨(str s, v), hrest, rfl⟩
      cases k with
      | str s' =>
        have hnodup : s' ∉ keys entries ∧ (keys entries).Nodup := by
          simpa [keys] using hkeys
        have hne : s' ≠ s := by
          intro heq
          exact hnodup.1 (heq ▸ hmem)
        simpa [get, hne] using ih hnodup.2 hrest
      | _ => exact ih (by simpa [keys] using hkeys) hrest

theorem plain_dict_iff : (dict entries).plain ↔
    ((∀ x ∈ entries, ∃ s, x.1 = str s) ∧ (keys entries).Nodup) ∧ ∀ x ∈ entries, x.2.plain := by
  unfold plain
  rw [everywhere_dict_iff]
  simp only [Bool.decide_and, Bool.and_eq_true, List.all_eq_true,
    decide_eq_true_eq]
  have hkey : ∀ k : Value, (k matches str _) = true ↔ ∃ s, k = str s := by
    intro k
    cases k <;> simp
  simp only [hkey]

/-- A time that is equal to what replaces it. -/
def kept (f : Datetime → Value) : Value → Bool
  | datetime t => (f t).eq (datetime t)
  | _ => true

theorem eqList_map (h : ∀ v ∈ vs, (v.mapDatetimes f).eq v = v.everywhere (kept f)) :
    eqList (mapList f vs) vs = everyList (kept f) vs := by
  induction vs with
  | nil => rfl
  | cons v vs ih =>
    rw [mapList, eqList, everyList, h v List.mem_cons_self,
      ih fun w hw => h w (List.mem_cons_of_mem v hw)]

theorem eqEntries_map {bs : List (Value × Value)}
    (hkeys : ∀ x ∈ entries, ∃ s, x.1 = str s ∧ get bs s = some x.2)
    (h : ∀ x ∈ entries, (x.2.mapDatetimes f).eq x.2 = x.2.everywhere (kept f)) :
    eqEntries (mapEntries f entries) bs = everyEntries (kept f) entries := by
  induction entries with
  | nil => rfl
  | cons x entries ih =>
    obtain ⟨s, hs, hget⟩ := hkeys x List.mem_cons_self
    obtain ⟨k, v⟩ := x
    obtain rfl : k = str s := hs
    have hrest := ih (fun y hy => hkeys y (List.mem_cons_of_mem _ hy))
      fun y hy => h y (List.mem_cons_of_mem _ hy)
    simp only [mapEntries, eqEntries, everyEntries, hget, hrest, h _ List.mem_cons_self]

/-- Replacing the times of a plain value gives an equal value exactly when every time in it is
equal to its replacement. -/
theorem eq_mapDatetimes (hplain : v.plain) :
    (v.mapDatetimes f).eq v = v.everywhere (kept f) := by
  induction v using induct with
  | hlist vs ih =>
    have helements := (everywhere_list_iff.mp hplain).2
    rw [mapDatetimes, eq, everywhere, eqList_map fun v hv => ih v hv (helements v hv)]
    rfl
  | hdict entries ih =>
    obtain ⟨⟨hstr, hnodup⟩, hvalues⟩ := plain_dict_iff.mp hplain
    have hkeys : ∀ x ∈ entries, ∃ s, x.1 = str s ∧ get entries s = some x.2 := by
      intro x hx
      obtain ⟨s, hs⟩ := hstr x hx
      exact ⟨s, hs, get_of_mem hnodup (hs ▸ hx)⟩
    have hentries := eqEntries_map hkeys fun x hx => ih x hx (hvalues x hx)
    rw [mapDatetimes, eq, everywhere, hentries, mapEntries_eq, List.length_map]
    simp [kept]
  | hscalar v hv =>
    rw [everywhere_scalar hv]
    cases v with
    | list vs => cases hv
    | dict entries => cases hv
    | float x => cases hplain
    | bytes b => cases hplain
    | ext code data => cases hplain
    | datetime t => rfl
    | _ => simp [mapDatetimes, eq, kept]

/-- Two properties agree everywhere in a value where they agree under a third. -/
theorem everywhere_congr {r : Value → Bool} (h : v.everywhere r)
    (hpq : ∀ w, r w → p w = q w) : v.everywhere p = v.everywhere q := by
  induction v using induct with
  | hlist vs ih =>
    obtain ⟨hr, helements⟩ := everywhere_list_iff.mp h
    rw [Bool.eq_iff_iff, everywhere_list_iff, everywhere_list_iff, hpq _ hr]
    refine and_congr_right fun _ => forall₂_congr fun v hv => ?_
    rw [ih v hv (helements v hv)]
  | hdict entries ih =>
    obtain ⟨hr, hvalues⟩ := everywhere_dict_iff.mp h
    rw [Bool.eq_iff_iff, everywhere_dict_iff, everywhere_dict_iff, hpq _ hr]
    refine and_congr_right fun _ => forall₂_congr fun x hx => ?_
    rw [ih x hx (hvalues x hx)]
  | hscalar v hv =>
    rw [everywhere_scalar hv] at h
    rw [everywhere_scalar hv, everywhere_scalar hv, hpq v h]

end Taas.MsgEncoder.Value
