import Mathlib.Data.List.Basic
import Mathlib.Data.String.Basic

/-!
The texts that `json.dumps` writes, with its default separators and everything but printable ASCII
escaped. A scanner follows such a text and knows when it is in a string. Two scanners of one text
that begin inside and outside of a string never agree, so a text of an object has no text of an
object behind a colon.
-/
namespace Taas.JsonText

/-- The characters that the scanner looks at. -/
def structural (c : Char) : Prop := c = '"' ∨ c = '\\' ∨ c = ':'

instance : DecidablePred structural := fun _ => inferInstanceAs (Decidable (_ ∨ _))

/-- What is written without quotes: a number, `true`, `false` or `null`. -/
structure Literal where
  text : List Char
  plain : ∀ c ∈ text, ¬structural c

inductive Json
  | literal (l : Literal)
  | string (s : String)
  | array (items : List Json)
  | object (fields : List (String × Json))

def hexDigit (n : ℕ) : Char := "0123456789abcdef".toList.getD n '0'

def unicodeEscape (n : ℕ) : List Char :=
  ['\\', 'u', hexDigit (n / 4096 % 16), hexDigit (n / 256 % 16), hexDigit (n / 16 % 16),
    hexDigit (n % 16)]

/-- A character in a string. -/
def escape (c : Char) : List Char :=
  if c = '"' then ['\\', '"']
  else if c = '\\' then ['\\', '\\']
  else if c = '\n' then ['\\', 'n']
  else if c = '\r' then ['\\', 'r']
  else if c = '\t' then ['\\', 't']
  else if c.toNat = 8 then ['\\', 'b']
  else if c.toNat = 12 then ['\\', 'f']
  else if 32 ≤ c.toNat ∧ c.toNat ≤ 126 then [c]
  else if c.toNat < 0x10000 then unicodeEscape c.toNat
  else
    unicodeEscape (0xd800 + (c.toNat - 0x10000) / 1024) ++
      unicodeEscape (0xdc00 + (c.toNat - 0x10000) % 1024)

def quote (s : String) : List Char := '"' :: s.toList.flatMap escape ++ ['"']

mutual

def dumps : Json → List Char
  | .literal l => l.text
  | .string s => quote s
  | .array items => '[' :: [',', ' '].intercalate (dumpsItems items) ++ [']']
  | .object fields => '{' :: [',', ' '].intercalate (dumpsFields fields) ++ ['}']

def dumpsItems : List Json → List (List Char)
  | [] => []
  | item :: items => dumps item :: dumpsItems items

def dumpsFields : List (String × Json) → List (List Char)
  | [] => []
  | (name, value) :: fields => (quote name ++ ':' :: ' ' :: dumps value) :: dumpsFields fields

end

mutual

/-- The same with the names of every object in order. -/
def sortKeys : Json → Json
  | .literal l => .literal l
  | .string s => .string s
  | .array items => .array (sortItems items)
  | .object fields => .object ((sortFields fields).mergeSort fun x y => x.1 ≤ y.1)

def sortItems : List Json → List Json
  | [] => []
  | item :: items => sortKeys item :: sortItems items

def sortFields : List (String × Json) → List (String × Json)
  | [] => []
  | (name, value) :: fields => (name, sortKeys value) :: sortFields fields

end

inductive Mode
  | outside
  | afterColon
  | inside
  | escaped
  deriving DecidableEq

/-- One character; `none` where a text of JSON does not have it. -/
def step : Mode → Char → Option Mode
  | .outside, c =>
    if c = '"' then some .inside
    else if c = ':' then some .afterColon
    else if c = '\\' then none
    else some .outside
  | .afterColon, c => if c = ' ' then some .outside else none
  | .inside, c =>
    if c = '"' then some .outside else if c = '\\' then some .escaped else some .inside
  | .escaped, _ => some .inside

def scan : Mode → List Char → Option Mode
  | m, [] => some m
  | m, c :: text => (step m c).bind fun m => scan m text

variable {m n : Mode} {s t : List Char}

theorem scan_append : scan m (s ++ t) = (scan m s).bind fun n => scan n t := by
  induction s generalizing m with
  | nil => rfl
  | cons c s ih =>
    simp only [List.cons_append, scan]
    cases step m c with
    | none => rfl
    | some n => exact ih

theorem scan_trans (hs : scan m s = some n) : scan m (s ++ t) = scan n t := by
  rw [scan_append, hs]
  rfl

theorem scan_plain (h : ∀ c ∈ s, ¬structural c) : scan .outside s = some .outside := by
  induction s with
  | nil => rfl
  | cons c s ih =>
    have hc : ¬(c = '"' ∨ c = '\\' ∨ c = ':') := h c (List.mem_cons_self ..)
    simp only [not_or] at hc
    simp [scan, step, hc, ih fun d hd => h d (List.mem_cons_of_mem c hd)]

theorem hexDigit_plain (n : ℕ) : hexDigit n ≠ '"' ∧ hexDigit n ≠ '\\' := by
  by_cases h : n < 16
  · have hall : ∀ n < 16, hexDigit n ≠ '"' ∧ hexDigit n ≠ '\\' := by decide
    exact hall n h
  · have hlength : "0123456789abcdef".toList.length ≤ n := by
      simpa using h
    rw [hexDigit, List.getD_eq_getElem?_getD, List.getElem?_eq_none hlength]
    decide

theorem scan_unicodeEscape (n : ℕ) : scan .inside (unicodeEscape n) = some .inside := by
  simp [scan, step, unicodeEscape, hexDigit_plain]

theorem scan_ite {p : Prop} [Decidable p] {o : Option Mode} (hs : p → scan m s = o)
    (ht : ¬p → scan m t = o) : scan m (if p then s else t) = o := by
  split
  · rename_i hp
    exact hs hp
  · rename_i hp
    exact ht hp

theorem scan_escape (c : Char) : scan .inside (escape c) = some .inside := by
  unfold escape
  refine scan_ite (fun _ => rfl) fun hquote => ?_
  refine scan_ite (fun _ => rfl) fun hback => ?_
  refine scan_ite (fun _ => rfl) fun _ => scan_ite (fun _ => rfl) fun _ => ?_
  refine scan_ite (fun _ => rfl) fun _ => scan_ite (fun _ => rfl) fun _ => ?_
  refine scan_ite (fun _ => rfl) fun _ => scan_ite (fun _ => ?_) fun _ => ?_
  · simp [scan, step, hquote, hback]
  · refine scan_ite (fun _ => scan_unicodeEscape _) fun _ => ?_
    rw [scan_trans (scan_unicodeEscape _), scan_unicodeEscape]

theorem scan_quote (s : String) : scan .outside (quote s) = some .outside := by
  have hinside (l : List Char) : scan .inside (l.flatMap escape) = some .inside := by
    induction l with
    | nil => rfl
    | cons c l ih => rw [List.flatMap_cons, scan_trans (scan_escape c), ih]
  have hopen : scan .outside ('"' :: s.toList.flatMap escape) = some .inside := hinside s.toList
  rw [quote, scan_trans hopen]
  rfl

theorem scan_intercalate {parts : List (List Char)}
    (h : ∀ part ∈ parts, scan .outside part = some .outside) :
    scan .outside ([',', ' '].intercalate parts) = some .outside := by
  induction parts with
  | nil => rfl
  | cons part parts ih =>
    have hpart := h part (List.mem_cons_self ..)
    cases parts with
    | nil => simpa using hpart
    | cons next parts =>
      have hrest := ih fun x hx => h x (List.mem_cons_of_mem part hx)
      have hcomma : scan .outside [',', ' '] = some .outside := rfl
      rw [List.intercalate_cons_cons, List.append_assoc, scan_trans hpart, scan_trans hcomma, hrest]

/-- What brackets around a text leave outside. -/
theorem scan_brackets {a b : Char} (ha : ¬structural a) (hb : ¬structural b)
    (h : scan .outside s = some .outside) : scan .outside (a :: s ++ [b]) = some .outside := by
  have hopen : scan .outside [a] = some .outside := scan_plain (by simpa using ha)
  have hclose : scan .outside [b] = some .outside := scan_plain (by simpa using hb)
  rw [← List.singleton_append, scan_trans ((scan_trans hopen).trans h), hclose]

mutual

theorem scan_dumps : ∀ v : Json, scan .outside (dumps v) = some .outside
  | .literal l => scan_plain l.plain
  | .string s => scan_quote s
  | .array items =>
    scan_brackets (by decide) (by decide) (scan_intercalate (scan_dumpsItems items))
  | .object fields =>
    scan_brackets (by decide) (by decide) (scan_intercalate (scan_dumpsFields fields))

theorem scan_dumpsItems : ∀ items : List Json, ∀ part ∈ dumpsItems items,
    scan .outside part = some .outside
  | [], part, h => by cases h
  | item :: items, part, h => by
    cases List.mem_cons.mp h with
    | inl h => rw [h, scan_dumps item]
    | inr h => exact scan_dumpsItems items part h

theorem scan_dumpsFields : ∀ fields : List (String × Json), ∀ part ∈ dumpsFields fields,
    scan .outside part = some .outside
  | [], part, h => by cases h
  | (name, value) :: fields, part, h => by
    cases List.mem_cons.mp h with
    | inl h =>
      have hcolon : scan .outside [':', ' '] = some .outside := rfl
      rw [h, scan_trans (scan_quote name)]
      exact (scan_trans hcolon).trans (scan_dumps value)
    | inr h => exact scan_dumpsFields fields part h

end

/-- One scanner is in a string and the other one is not. -/
def Apart (m n : Mode) : Prop :=
  (m = .inside ∧ (n = .outside ∨ n = .afterColon)) ∨
    (n = .inside ∧ (m = .outside ∨ m = .afterColon))

theorem Apart.symm (h : Apart m n) : Apart n m := h.elim .inr .inl

/-- A quote takes the one out of the string and the other one into it, and the scanner that is not
in a string takes no backslash. -/
theorem step_apart {c : Char} {m' n' : Mode} (h : Apart m n) (hm : step m c = some m')
    (hn : step n c = some n') : Apart m' n' := by
  have hinside (k k' l' : Mode) (hk : k = .outside ∨ k = .afterColon)
      (hi : step .inside c = some l') (ho : step k c = some k') : Apart l' k' := by
    cases hk with
    | inl hk =>
      subst hk
      by_cases hquote : c = '"'
      · simp only [step, if_pos hquote, Option.some.injEq] at hi ho
        exact .inr ⟨ho.symm, .inl hi.symm⟩
      · have hback : c ≠ '\\' := by
          rintro rfl
          simp [step] at ho
        have hin : l' = .inside := by simpa [step, hquote, hback] using hi.symm
        by_cases hcolon : c = ':'
        · have hout : k' = .afterColon := by simpa [step, hcolon] using ho.symm
          exact .inl ⟨hin, .inr hout⟩
        · have hout : k' = .outside := by simpa [step, hquote, hback, hcolon] using ho.symm
          exact .inl ⟨hin, .inl hout⟩
    | inr hk =>
      subst hk
      simp only [step, Option.ite_none_right_eq_some] at hi ho
      obtain ⟨rfl, hk'⟩ := ho
      cases hk'
      cases hi
      simp [Apart]
  cases h with
  | inl h =>
    rw [h.1] at hm
    exact hinside n n' m' h.2 hm hn
  | inr h =>
    rw [h.1] at hn
    exact (hinside m m' n' h.2 hn hm).symm

theorem scan_apart {m' n' : Mode} (h : Apart m n) (hm : scan m t = some m')
    (hn : scan n t = some n') : Apart m' n' := by
  induction t generalizing m n with
  | nil =>
    cases hm
    cases hn
    exact h
  | cons c t ih =>
    obtain ⟨k, hk, hm⟩ := Option.bind_eq_some_iff.mp hm
    obtain ⟨l, hl, hn⟩ := Option.bind_eq_some_iff.mp hn
    exact ih (step_apart h hk hl) hm hn

theorem step_colon (h : step m ':' = some n) : n = .afterColon ∨ n = .inside := by
  cases m <;> simp [step] at h <;> simp [← h]

theorem object_not_behind_colon (fields others : List (String × Json)) (p : List Char) :
    dumps (.object fields) ≠ p ++ ':' :: dumps (.object others) := by
  intro heq
  have hscan := scan_dumps (.object fields)
  have hother := scan_dumps (.object others)
  rw [heq, scan_append] at hscan
  obtain ⟨m, _, hm⟩ := Option.bind_eq_some_iff.mp hscan
  obtain ⟨n, hn, hrest⟩ := Option.bind_eq_some_iff.mp hm
  cases step_colon hn with
  | inl hn =>
    -- a colon outside of strings has a blank behind it
    rw [hn] at hrest
    simp [dumps, scan, step] at hrest
  | inr hn =>
    rw [hn] at hrest
    have hapart := scan_apart (by simp [Apart]) hrest hother
    simp [Apart] at hapart

/-- A text with an object behind its last part is taken apart in one way. -/
theorem append_object_inj {fields others : List (String × Json)}
    (h : s ++ ':' :: dumps (.object fields) = t ++ ':' :: dumps (.object others)) :
    s = t ∧ dumps (.object fields) = dumps (.object others) := by
  have hfront (s t : List Char) (fields others : List (String × Json))
      (h : ∃ u, t = s ++ u ∧ ':' :: dumps (.object fields) = u ++ ':' :: dumps (.object others)) :
      s = t := by
    obtain ⟨u, hu, h⟩ := h
    cases u with
    | nil => simpa using hu.symm
    | cons c u => exact absurd (List.cons.inj h).2 (object_not_behind_colon fields others u)
  have hst : s = t := by
    cases List.append_eq_append_iff.mp h with
    | inl h => exact hfront s t fields others h
    | inr h => exact (hfront t s others fields h).symm
  subst hst
  exact ⟨rfl, (List.cons.inj (List.append_cancel_left h)).2⟩

end Taas.JsonText
