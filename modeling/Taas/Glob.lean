import Mathlib.Data.List.Infix

/-!
Matching of texts by glob-style patterns. A star stands for any run of characters, a question mark
for any one, brackets for one of a class or, after a caret, for one outside it, and a backslash
takes the next character as it is.
-/
namespace Taas.Glob

inductive Token
  | run
  | one
  | oneOf (negated : Bool) (ranges : List (Char × Char))
  | lit (c : Char)
  deriving DecidableEq

/-- The tokens of a pattern that may begin inside a class. A class that is not closed ends with the
pattern. -/
def scan : Option (Bool × List (Char × Char)) → List Char → List Token
  | none, [] => []
  | none, '*' :: p => .run :: scan none p
  | none, '?' :: p => .one :: scan none p
  | none, '[' :: '^' :: p => scan (some (true, [])) p
  | none, '[' :: p => scan (some (false, [])) p
  | none, '\\' :: c :: p => .lit c :: scan none p
  | none, c :: p => .lit c :: scan none p
  | some (negated, ranges), [] => [.oneOf negated ranges]
  | some (negated, ranges), '\\' :: c :: p => scan (some (negated, (c, c) :: ranges)) p
  | some (negated, ranges), ']' :: p => .oneOf negated ranges :: scan none p
  | some (negated, ranges), a :: '-' :: b :: p =>
    scan (some (negated, (a, b) :: ranges)) p
  | some (negated, ranges), c :: p => scan (some (negated, (c, c) :: ranges)) p

def accepts : List Token → List Char → Bool
  | [], text => text.isEmpty
  | .run :: ts, text => text.tails.any (accepts ts)
  | .one :: _, [] => false
  | .one :: ts, _ :: text => accepts ts text
  | .oneOf _ _ :: _, [] => false
  | .oneOf negated ranges :: ts, c :: text =>
    -- the ends of a range may stand in either order
    (ranges.any fun r => r.1 ≤ c && c ≤ r.2 || r.2 ≤ c && c ≤ r.1) != negated && accepts ts text
  | .lit _ :: _, [] => false
  | .lit c :: ts, d :: text => c = d && accepts ts text

def glob (pattern text : List Char) : Bool := accepts (scan none pattern) text

/-- Characters that stand for others or hide the next one. -/
def special (c : Char) : Prop := c = '*' ∨ c = '?' ∨ c = '[' ∨ c = '\\'

instance : DecidablePred special := fun _ => inferInstanceAs (Decidable (_ ∨ _))

variable {p t : List Char} {ts : List Token} {c : Char}

theorem accepts_run : accepts (.run :: ts) t = true ↔ ∃ u, u <:+ t ∧ accepts ts u = true := by
  simp [accepts, List.mem_tails]

theorem accepts_lit : accepts (.lit c :: ts) t = true ↔ ∃ u, t = c :: u ∧ accepts ts u = true := by
  cases t with
  | nil => simp [accepts]
  | cons d t =>
    simp only [accepts, Bool.and_eq_true, decide_eq_true_eq, List.cons.injEq]
    constructor
    · rintro ⟨rfl, h⟩
      exact ⟨t, ⟨rfl, rfl⟩, h⟩
    · rintro ⟨_, ⟨rfl, rfl⟩, h⟩
      exact ⟨rfl, h⟩

theorem accepts_lits :
    accepts (p.map .lit ++ ts) t = true ↔ ∃ u, t = p ++ u ∧ accepts ts u = true := by
  induction p generalizing t with
  | nil => simp
  | cons c p ih =>
    rw [List.map_cons, List.cons_append, accepts_lit]
    simp only [ih]
    constructor
    · rintro ⟨_, rfl, u, rfl, hu⟩
      exact ⟨u, rfl, hu⟩
    · rintro ⟨u, rfl, hu⟩
      exact ⟨p ++ u, rfl, u, rfl, hu⟩

theorem scan_cons (h : ¬special c) (p : List Char) :
    scan none (c :: p) = .lit c :: scan none p := by
  unfold special at h
  simp only [not_or] at h
  obtain ⟨hstar, hone, hopen, hback⟩ := h
  rw [scan] <;> simp_all

/-- A text without special characters stands for itself. -/
theorem scan_plain (h : ∀ c ∈ p, ¬special c) (q : List Char) :
    scan none (p ++ q) = p.map .lit ++ scan none q := by
  induction p with
  | nil => rfl
  | cons c p ih =>
    rw [List.cons_append, scan_cons (h c (by simp)), ih fun d hd => h d (by simp [hd])]
    rfl

/-- A plain text, then a character somewhere behind it. -/
theorem glob_plain_within (h : ∀ c ∈ p, ¬special c) (hc : ¬special c) :
    glob (p ++ ['*', c, '*']) t = true ↔ ∃ u v, t = p ++ u ++ c :: v := by
  have hscan : scan none ['*', c, '*'] = [.run, .lit c, .run] := by
    simp only [scan, scan_cons hc]
  rw [glob, scan_plain h, hscan, accepts_lits]
  simp only [accepts_run, accepts_lit]
  constructor
  · rintro ⟨_, rfl, _, ⟨u, rfl⟩, v, rfl, -⟩
    exact ⟨u, v, by simp⟩
  · rintro ⟨u, v, rfl⟩
    exact ⟨u ++ c :: v, by simp, c :: v, List.suffix_append u _, v, rfl, [],
      List.nil_suffix, rfl⟩

end Taas.Glob
