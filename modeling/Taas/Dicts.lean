import Mathlib.Data.List.AList

/-!
Dicts with string keys, as association lists without repeated keys: removing a key and
comprehensions over the entries.
-/
namespace Taas.Dicts

variable {α β : Type} {k : String}

abbrev Dict (α : Type) := AList fun _ : String => α

/-- The entries with the values `f v` that exist. -/
def entriesOf (f : α → Option β) (l : List (Σ _ : String, α)) : List (Σ _ : String, β) :=
  l.filterMap fun x => (f x.2).map (Sigma.mk x.1)

theorem keys_entriesOf (f : α → Option β) (l : List (Σ _ : String, α)) :
    (entriesOf f l).keys.Sublist l.keys := by
  induction l with
  | nil => exact .slnil
  | cons x l ih =>
    cases hx : f x.2 with
    | none => simpa [entriesOf, List.filterMap_cons, hx] using ih.cons x.1
    | some v => simpa [entriesOf, List.filterMap_cons, hx] using ih

theorem dlookup_entriesOf (f : α → Option β) {l : List (Σ _ : String, α)} (hl : l.NodupKeys) :
    (entriesOf f l).dlookup k = (l.dlookup k).bind f := by
  induction l with
  | nil => rfl
  | cons x l ih =>
    obtain ⟨key, v⟩ := x
    have hrest := ih (List.nodupKeys_of_nodupKeys_cons hl)
    by_cases hk : k = key
    · subst hk
      rw [List.dlookup_cons_eq, Option.bind_some]
      cases hv : f v with
      | none =>
        have hnot : k ∉ (entriesOf f l).keys := fun hmem =>
          List.notMem_keys_of_nodupKeys_cons hl ((keys_entriesOf f l).subset hmem)
        simpa [entriesOf, hv] using List.dlookup_eq_none.mpr hnot
      | some w => simp [entriesOf, hv]
    · rw [List.dlookup_cons_ne l ⟨key, v⟩ hk, ← hrest]
      cases hv : f v with
      | none => simp [entriesOf, hv]
      | some w =>
        have hcons : entriesOf f (⟨key, v⟩ :: l) = ⟨key, w⟩ :: entriesOf f l := by
          simp [entriesOf, hv]
        rw [hcons]
        exact List.dlookup_cons_ne (β := fun _ => β) _ ⟨key, w⟩ hk

/-- The comprehension that gives the values `f v` which exist to their keys. -/
def comprehension (f : α → Option β) (d : Dict α) : Dict β where
  entries := entriesOf f d.entries
  nodupKeys := (keys_entriesOf f d.entries).nodup d.nodupKeys

theorem lookup_comprehension (f : α → Option β) (d : Dict α) (k : String) :
    (comprehension f d).lookup k = (d.lookup k).bind f :=
  dlookup_entriesOf f d.nodupKeys

theorem erase_eq_self_iff {d : Dict α} : d.erase k = d ↔ k ∉ d := by
  constructor
  · intro h hk
    rw [← h] at hk
    exact (AList.mem_erase.mp hk).1 rfl
  · intro hk
    exact AList.ext (List.kerase_of_notMem_keys hk)

end Taas.Dicts
