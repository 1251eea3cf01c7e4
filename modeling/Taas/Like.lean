import Mathlib.Data.List.Infix

/-!
Matching of texts by the patterns of SQL. A percent sign stands for any run of characters, an
underscore for any one character, and a backslash takes the next character as it is. A pattern that
ends in a backslash is an error, so it matches nothing. Matching without regard to case compares the
lower case of the pattern with that of the text.
-/
namespace Taas.Like

def special (c : Char) : Prop := c = '%' ∨ c = '_' ∨ c = '\\'

instance : DecidablePred special := fun _ => inferInstanceAs (Decidable (_ ∨ _))

inductive Token
  | run
  | one
  | lit (c : Char)
  deriving DecidableEq

def token (c : Char) : Token :=
  if c = '%' then .run else if c = '_' then .one else .lit c

/-- The tokens of a pattern that may begin behind a backslash; `none` when it ends in one. -/
def scan : Bool → List Char → Option (List Token)
  | false, [] => some []
  | true, [] => none
  | true, c :: p => (scan false p).map (.lit c :: ·)
  | false, c :: p => if c = '\\' then scan true p else (scan false p).map (token c :: ·)

def accepts : List Token → List Char → Bool
  | [], text => text.isEmpty
  | .run :: ts, text => text.tails.any (accepts ts)
  | .one :: _, [] => false
  | .one :: ts, _ :: text => accepts ts text
  | .lit _ :: _, [] => false
  | .lit c :: ts, d :: text => c = d && accepts ts text

/-- `text LIKE pattern`. -/
def like (pattern text : List Char) : Bool :=
  match scan false pattern with
  | some ts => accepts ts text
  | none => false

/-- The lower case of characters; the special ones have no case. -/
structure Folding where
  lower : Char → Char
  lower_eq_iff : ∀ s, special s → ∀ c, lower c = s ↔ c = s

def Folding.identity : Folding := ⟨id, fun _ _ _ => Iff.rfl⟩

theorem toLower_eq_iff (s : Char) (hs : special s) (c : Char) : c.toLower = s ↔ c = s := by
  by_cases hc : c.val ≥ 'A'.val ∧ c.val ≤ 'Z'.val
  · -- a capital letter and its lower case are both no special character
    have hlow : 65 ≤ c.val.toNat := UInt32.le_iff_toNat_le.mp hc.1
    have hhigh : c.val.toNat ≤ 90 := UInt32.le_iff_toNat_le.mp hc.2
    have hlower : c.toLower.val.toNat = c.val.toNat + 32 := by
      have hval : c.toLower.val = c.val + 32 := congrArg Char.val (dif_pos hc)
      have hadd := UInt32.toNat_add c.val 32
      have h32 : (32 : UInt32).toNat = 32 := rfl
      rw [hval]
      omega
    have hspecial : s.val.toNat = 37 ∨ s.val.toNat = 95 ∨ s.val.toNat = 92 := by
      rcases hs with rfl | rfl | rfl
      · exact .inl rfl
      · exact .inr (.inl rfl)
      · exact .inr (.inr rfl)
    constructor
    · intro h
      rw [h] at hlower
      omega
    · intro h
      subst h
      omega
  · have hself : c.toLower = c := dif_neg hc
    rw [hself]

/-- The lower case of the letters from A to Z. -/
def Folding.ascii : Folding := ⟨Char.toLower, toLower_eq_iff⟩

/-- `text ILIKE pattern`; with `Folding.identity` it is `text LIKE pattern`. -/
def Folding.ilike (F : Folding) (pattern text : List Char) : Bool :=
  like (pattern.map F.lower) (text.map F.lower)

/-- The value with a percent sign before it, after it, both or neither. -/
def splice (before after : Bool) (value : List Char) : List Char :=
  (if before then ['%'] else []) ++ value ++ if after then ['%'] else []

/-- What a pattern so made is for. -/
def Meant (before after : Bool) (value text : List Char) : Prop :=
  match before, after with
  | false, false => value = text
  | false, true => value <+: text
  | true, false => value <:+ text
  | true, true => value <:+: text

theorem Meant.within {before after : Bool} {value text : List Char}
    (h : Meant before after value text) : value <:+: text := by
  cases before <;> cases after
  · exact h ▸ List.infix_rfl
  · exact List.IsPrefix.isInfix h
  · exact List.IsSuffix.isInfix h
  · exact h

theorem meant_self (before after : Bool) (value : List Char) : Meant before after value value := by
  cases before <;> cases after
  · rfl
  · exact List.prefix_rfl
  · exact List.suffix_rfl
  · exact List.infix_rfl

variable {e : Bool} {p q t v : List Char} {c : Char} {ts us : List Token}

theorem getLast_of_suffix {u : List Char} (h : u <:+ t) (hu : u.getLast? = some c) :
    t.getLast? = some c := by
  obtain ⟨l, rfl⟩ := h
  simp [List.getLast?_append, hu]

theorem accepts_run : accepts (.run :: ts) t = true ↔ ∃ u, u <:+ t ∧ accepts ts u = true := by
  simp [accepts]

theorem accepts_one : accepts (.one :: ts) t = true ↔ ∃ d u, t = d :: u ∧ accepts ts u = true := by
  cases t <;> simp [accepts]

theorem accepts_lit : accepts (.lit c :: ts) t = true ↔ ∃ u, t = c :: u ∧ accepts ts u = true := by
  cases t with
  | nil => simp [accepts]
  | cons d t =>
    simp only [accepts, Bool.and_eq_true, decide_eq_true_eq, List.cons.injEq]
    constructor
    · intro h
      exact ⟨t, ⟨h.1.symm, rfl⟩, h.2⟩
    · intro h
      obtain ⟨u, ⟨rfl, rfl⟩, hu⟩ := h
      exact ⟨rfl, hu⟩

theorem accepts_tail {token : Token} (h : accepts (token :: ts) t = true) :
    ∃ u, u <:+ t ∧ accepts ts u = true := by
  cases token with
  | run => exact accepts_run.mp h
  | one =>
    obtain ⟨d, u, rfl, hu⟩ := accepts_one.mp h
    exact ⟨u, List.suffix_cons d u, hu⟩
  | lit c =>
    obtain ⟨u, rfl, hu⟩ := accepts_lit.mp h
    exact ⟨u, List.suffix_cons c u, hu⟩

theorem accepts_append :
    accepts (ts ++ us) t = true ↔
      ∃ a b, t = a ++ b ∧ accepts ts a = true ∧ accepts us b = true := by
  induction ts generalizing t with
  | nil => simp [accepts]
  | cons token ts ih =>
    cases token with
    | run =>
      simp only [List.cons_append, accepts_run, ih]
      constructor
      · intro h
        obtain ⟨u, ⟨l, rfl⟩, a, b, rfl, ha, hb⟩ := h
        exact ⟨l ++ a, b, by simp, ⟨a, List.suffix_append l a, ha⟩, hb⟩
      · intro h
        obtain ⟨a, b, rfl, ⟨u, ⟨l, rfl⟩, hu⟩, hb⟩ := h
        exact ⟨u ++ b, ⟨l, by simp⟩, u, b, rfl, hu, hb⟩
    | one =>
      simp only [List.cons_append, accepts_one, ih]
      constructor
      · intro h
        obtain ⟨d, u, rfl, a, b, rfl, ha, hb⟩ := h
        exact ⟨d :: a, b, rfl, ⟨d, a, rfl, ha⟩, hb⟩
      · intro h
        obtain ⟨a, b, rfl, ⟨d, u, rfl, hu⟩, hb⟩ := h
        exact ⟨d, u ++ b, rfl, u, b, rfl, hu, hb⟩
    | lit c =>
      simp only [List.cons_append, accepts_lit, ih]
      constructor
      · intro h
        obtain ⟨u, rfl, a, b, rfl, ha, hb⟩ := h
        exact ⟨c :: a, b, rfl, ⟨a, rfl, ha⟩, hb⟩
      · intro h
        obtain ⟨a, b, rfl, ⟨u, rfl, hu⟩, hb⟩ := h
        exact ⟨u ++ b, rfl, u, b, rfl, hu, hb⟩

theorem accepts_lits : accepts (p.map .lit) t = true ↔ p = t := by
  induction p generalizing t with
  | nil => cases t <;> simp [accepts]
  | cons c p ih =>
    simp only [List.map_cons, accepts_lit, ih]
    constructor
    · intro h
      obtain ⟨u, rfl, rfl⟩ := h
      rfl
    · intro h
      exact ⟨p, h.symm, rfl⟩

theorem accepts_run_nil : accepts [.run] t = true :=
  accepts_run.mpr ⟨[], List.nil_suffix, rfl⟩

theorem scan_append (h : scan e p = some ts) : scan e (p ++ q) = (scan false q).map (ts ++ ·) := by
  induction p generalizing e ts with
  | nil =>
    cases e with
    | false =>
      obtain rfl : [] = ts := by simpa [scan] using h
      simp
    | true => simp [scan] at h
  | cons c p ih =>
    cases e with
    | true =>
      obtain ⟨us, hus, rfl⟩ := Option.map_eq_some_iff.mp h
      simp [scan, ih hus, Function.comp_def]
    | false =>
      simp only [scan] at h
      split at h
      · rename_i hc
        simp only [List.cons_append, scan, if_pos hc]
        exact ih h
      · rename_i hc
        obtain ⟨us, hus, rfl⟩ := Option.map_eq_some_iff.mp h
        simp [scan, hc, ih hus, Function.comp_def]

theorem scan_literal (h : ∀ c ∈ p, ¬special c) : scan false p = some (p.map .lit) := by
  induction p with
  | nil => rfl
  | cons c p ih =>
    have hc : ¬(c = '%' ∨ c = '_' ∨ c = '\\') := h c (List.mem_cons_self ..)
    simp only [not_or] at hc
    have hp := ih fun d hd => h d (List.mem_cons_of_mem _ hd)
    simp [scan, token, hc, hp]

/-- A value without special characters is looked for as it is. -/
theorem like_literal (before after : Bool) (h : ∀ c ∈ v, ¬special c) :
    like (splice before after v) t = true ↔ Meant before after v t := by
  have hv := scan_literal h
  have hopen : scan false (v ++ ['%']) = some (v.map .lit ++ [.run]) := by
    rw [scan_append hv]
    rfl
  have hlits (t : List Char) : accepts (v.map .lit ++ [.run]) t = true ↔ v <+: t := by
    simp only [accepts_append, accepts_lits, accepts_run_nil, and_true]
    constructor
    · intro h
      obtain ⟨a, b, rfl, rfl⟩ := h
      exact List.prefix_append v b
    · intro h
      obtain ⟨b, rfl⟩ := h
      exact ⟨v, b, rfl, rfl⟩
  cases before <;> cases after
  · simp [like, splice, Meant, hv, accepts_lits]
  · simp [like, splice, Meant, hopen, hlits]
  · simp [like, splice, Meant, scan, token, hv, accepts_run, accepts_lits]
  · simp [like, splice, Meant, scan, token, hopen, accepts_run, hlits,
      List.infix_iff_prefix_suffix, and_comm]

/-- A text that the tokens accept, as short as one can be. -/
def least : List Token → List Char
  | [] => []
  | .run :: ts => least ts
  | .one :: ts => 'a' :: least ts
  | .lit c :: ts => c :: least ts

theorem accepts_least (ts : List Token) : accepts ts (least ts) = true := by
  induction ts with
  | nil => rfl
  | cons token ts ih =>
    cases token with
    | run => exact accepts_run.mpr ⟨least ts, List.suffix_rfl, ih⟩
    | one => exact accepts_one.mpr ⟨'a', least ts, rfl, ih⟩
    | lit c => exact accepts_lit.mpr ⟨least ts, rfl, ih⟩

theorem length_least (h : scan e p = some ts) : (least ts).length ≤ p.length := by
  induction p generalizing e ts with
  | nil =>
    cases e with
    | false =>
      obtain rfl : [] = ts := by simpa [scan] using h
      simp [least]
    | true => simp [scan] at h
  | cons c p ih =>
    cases e with
    | true =>
      obtain ⟨us, hus, rfl⟩ := Option.map_eq_some_iff.mp h
      simpa [least] using ih hus
    | false =>
      simp only [scan] at h
      split at h
      · have hle := ih h
        simp only [List.length_cons]
        omega
      · obtain ⟨us, hus, rfl⟩ := Option.map_eq_some_iff.mp h
        have hle := ih hus
        simp only [token]
        split
        · simp only [least, List.length_cons]
          omega
        · split <;> simp only [least, List.length_cons] <;> omega

variable (F : Folding)

/-- The shortest text for a value with a special character is not the value. -/
theorem least_ne (h : scan false v = some ts) (hv : v.map F.lower = (least ts).map F.lower) :
    ∀ c ∈ v, ¬special c := by
  induction v generalizing ts with
  | nil => simp
  | cons c v ih =>
    have hlen := congrArg List.length hv
    simp only [List.length_map, List.length_cons] at hlen
    simp only [scan] at h
    split at h
    · have hle := length_least h
      omega
    · rename_i hesc
      obtain ⟨us, hus, rfl⟩ := Option.map_eq_some_iff.mp h
      have hle := length_least hus
      by_cases hrun : c = '%'
      · simp only [token, if_pos hrun, least] at hlen
        omega
      · by_cases hone : c = '_'
        · subst hone
          have hhead : F.lower '_' = F.lower 'a' := by
            have := congrArg List.head? hv
            simpa [token, least] using this
          have hunder := (F.lower_eq_iff '_' (by decide) '_').mpr rfl
          rw [hhead, F.lower_eq_iff '_' (by decide)] at hunder
          exact absurd hunder (by decide)
        · simp only [token, if_neg hrun, if_neg hone, least, List.map_cons, List.cons.injEq] at hv
          intro d hd
          cases List.mem_cons.mp hd with
          | inl hd => simp [hd, special, hrun, hone, hesc]
          | inr hd => exact ih hus hv.2 d hd

/-- A value that ends in a backslash takes the percent sign behind it as a character. -/
theorem getLast_of_dangling (h : scan e p = none) (hts : scan e (p ++ ['%']) = some ts)
    (ht : accepts ts t = true) : t.getLast? = some '%' := by
  induction p generalizing e ts t with
  | nil =>
    cases e with
    | false => simp [scan] at h
    | true =>
      obtain rfl : [.lit '%'] = ts := by simpa [scan] using hts
      obtain ⟨u, rfl, hu⟩ := accepts_lit.mp ht
      obtain rfl : u = [] := by simpa [accepts] using hu
      rfl
  | cons c p ih =>
    cases e with
    | true =>
      have hp : scan false p = none := by simpa [scan] using h
      obtain ⟨us, hus, rfl⟩ := Option.map_eq_some_iff.mp hts
      obtain ⟨u, hsuffix, hu⟩ := accepts_tail ht
      exact getLast_of_suffix hsuffix (ih hp hus hu)
    | false =>
      simp only [List.cons_append, scan] at h hts
      split at h
      · rename_i hc
        rw [if_pos hc] at hts
        exact ih h hts ht
      · rename_i hc
        rw [if_neg hc] at hts
        obtain ⟨us, hus, rfl⟩ := Option.map_eq_some_iff.mp hts
        obtain ⟨u, hsuffix, hu⟩ := accepts_tail ht
        exact getLast_of_suffix hsuffix (ih (by simpa using h) hus hu)

theorem getLast_of_scan_none (h : scan e p = none) (hp : p ≠ [] ∨ e = false) :
    p.getLast? = some '\\' := by
  induction p generalizing e with
  | nil =>
    cases e with
    | false => simp [scan] at h
    | true => simp at hp
  | cons c p ih =>
    cases e with
    | true =>
      have hnone : scan false p = none := by simpa [scan] using h
      exact getLast_of_suffix (List.suffix_cons c p) (ih hnone (.inr rfl))
    | false =>
      simp only [scan] at h
      split at h
      · rename_i hc
        cases p with
        | nil => simp [hc]
        | cons d p => exact getLast_of_suffix (List.suffix_cons c _) (ih h (.inl (by simp)))
      · have hnone : scan false p = none := by simpa using h
        exact getLast_of_suffix (List.suffix_cons c p) (ih hnone (.inr rfl))

/-- A percent sign more on either side accepts what was accepted. -/
theorem like_splice (before after : Bool) (h : scan false p = some ts) (ht : accepts ts t = true) :
    like (splice before after p) t = true := by
  have hopen : scan false (p ++ ['%']) = some (ts ++ [.run]) := by
    rw [scan_append h]
    rfl
  have hrun : accepts (ts ++ [.run]) t = true :=
    accepts_append.mpr ⟨t, [], by simp, ht, accepts_run_nil⟩
  have hself (us : List Token) (hus : accepts us t = true) : accepts (.run :: us) t = true :=
    accepts_run.mpr ⟨t, List.suffix_rfl, hus⟩
  cases before <;> cases after
  · simp [like, splice, h, ht]
  · simp [like, splice, hopen, hrun]
  · simp [like, splice, scan, token, h, hself _ ht]
  · simp [like, splice, scan, token, hopen, hself _ hrun]

theorem not_like_dangling (before after : Bool) (h : scan false p = none)
    (ht : t.getLast? ≠ some '%') : like (splice before after p) t = false := by
  have hclosed : scan false ('%' :: p) = none := by simp [scan, h]
  cases after with
  | false => cases before <;> simp [like, splice, h, hclosed]
  | true =>
    cases hopen : scan false (p ++ ['%']) with
    | none => cases before <;> simp [like, splice, scan, hopen]
    | some ts =>
      have hnot (u : List Char) (hu : u <:+ t) : accepts ts u = false := by
        rw [← Bool.not_eq_true]
        intro haccepts
        exact ht (getLast_of_suffix hu (getLast_of_dangling h hopen haccepts))
      cases before with
      | false => simpa [like, splice, hopen] using hnot t List.suffix_rfl
      | true =>
        have hrun : accepts (.run :: ts) t = false := by
          rw [← Bool.not_eq_true, accepts_run]
          intro hu
          obtain ⟨u, hsuffix, haccepts⟩ := hu
          rw [hnot u hsuffix] at haccepts
          cases haccepts
        simpa [like, splice, scan, token, hopen] using hrun

def Token.map (f : Char → Char) : Token → Token
  | .run => .run
  | .one => .one
  | .lit c => .lit (f c)

theorem accepts_map (f : Char → Char) (h : accepts ts t = true) :
    accepts (ts.map (Token.map f)) (t.map f) = true := by
  induction ts generalizing t with
  | nil =>
    obtain rfl : t = [] := by simpa [accepts] using h
    rfl
  | cons token ts ih =>
    cases token with
    | run =>
      obtain ⟨u, hsuffix, hu⟩ := accepts_run.mp h
      exact accepts_run.mpr ⟨u.map f, hsuffix.map f, ih hu⟩
    | one =>
      obtain ⟨d, u, rfl, hu⟩ := accepts_one.mp h
      exact accepts_one.mpr ⟨f d, u.map f, rfl, ih hu⟩
    | lit c =>
      obtain ⟨u, rfl, hu⟩ := accepts_lit.mp h
      exact accepts_lit.mpr ⟨u.map f, rfl, ih hu⟩

@[simp] theorem Folding.lower_percent : F.lower '%' = '%' :=
  (F.lower_eq_iff '%' (by decide) '%').mpr rfl

@[simp] theorem Folding.lower_backslash : F.lower '\\' = '\\' :=
  (F.lower_eq_iff '\\' (by decide) '\\').mpr rfl

theorem Folding.special_lower (c : Char) : special (F.lower c) ↔ special c := by
  simp only [special, F.lower_eq_iff '%' (by decide), F.lower_eq_iff '_' (by decide),
    F.lower_eq_iff '\\' (by decide)]

theorem Folding.token_lower (c : Char) : token (F.lower c) = (token c).map F.lower := by
  simp only [token, F.lower_eq_iff '%' (by decide), F.lower_eq_iff '_' (by decide)]
  split
  · rfl
  · split <;> rfl

theorem Folding.scan_lower (e : Bool) (p : List Char) :
    scan e (p.map F.lower) = (scan e p).map (List.map (Token.map F.lower)) := by
  induction p generalizing e with
  | nil => cases e <;> rfl
  | cons c p ih =>
    cases e with
    | true => simp [scan, ih, Token.map, Function.comp_def]
    | false =>
      simp only [List.map_cons, scan, F.lower_eq_iff '\\' (by decide), ih]
      split
      · rfl
      · simp [F.token_lower, Function.comp_def]

theorem Folding.splice_lower (before after : Bool) (v : List Char) :
    (splice before after v).map F.lower = splice before after (v.map F.lower) := by
  cases before <;> cases after <;> simp [splice]

/-- The pattern made from a value matches what is meant, whatever the text, exactly when the value
has no special character. -/
theorem Folding.ilike_splice_iff (before after : Bool) (v : List Char) :
    (∀ t, F.ilike (splice before after v) t = true ↔
      Meant before after (v.map F.lower) (t.map F.lower)) ↔ ∀ c ∈ v, ¬special c := by
  simp only [Folding.ilike, F.splice_lower]
  constructor
  · intro h
    cases hscan : scan false v with
    | none =>
      -- the value itself is meant and does not match
      have hself := (h v).mpr (meant_self before after _)
      have hlast : (v.map F.lower).getLast? = some '\\' := by
        simp [getLast_of_scan_none hscan (.inr rfl)]
      have hlower : scan false (v.map F.lower) = none := by simp [F.scan_lower, hscan]
      rw [not_like_dangling before after hlower (by simp [hlast])] at hself
      cases hself
    | some ts =>
      -- the shortest text that matches must be the value
      have hlower : scan false (v.map F.lower) = some (ts.map (Token.map F.lower)) := by
        simp [F.scan_lower, hscan]
      have hmatch := like_splice before after hlower (accepts_map F.lower (accepts_least ts))
      have hinfix := ((h (least ts)).mp hmatch).within
      apply least_ne F hscan
      apply hinfix.eq_of_length_le
      simpa using length_least hscan
  · intro h t
    apply like_literal
    intro c hc
    obtain ⟨d, hd, rfl⟩ := List.mem_map.mp hc
    rw [F.special_lower]
    exact h d hd

end Taas.Like
