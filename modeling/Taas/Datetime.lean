import Mathlib.Algebra.Order.Group.Int
import Mathlib.Algebra.Order.Ring.Int
import Mathlib.Tactic.Ring

/-!
Python's `datetime` objects: the civil fields with their ranges, equality, the strings that
`datetime.fromisoformat` reads, and RFC 3339 texts. Offsets from UTC are microseconds, as a
`timedelta` resolves them.
-/
namespace Taas.Python

def isLeap (year : ℕ) : Bool := year % 4 = 0 ∧ (year % 100 ≠ 0 ∨ year % 400 = 0)

def daysInMonth (year month : ℕ) : ℕ :=
  if month = 2 then if isLeap year then 29 else 28
  else if month ∈ [4, 6, 9, 11] then 30 else 31

/-- The fields of a `datetime`. `ambiguous` says that the offset of an aware time depends on
`fold`: the time is in a gap or in a repeated interval of its time zone. -/
structure Civil where
  year : ℕ
  month : ℕ
  day : ℕ
  hour : ℕ := 0
  minute : ℕ := 0
  second : ℕ := 0
  microsecond : ℕ := 0
  utcoffset : Option ℤ := none
  ambiguous : Bool := false
  deriving DecidableEq

/-- What the constructor checks; offsets are strictly between -24 and 24 hours. -/
structure Civil.Valid (c : Civil) : Prop where
  year : 1 ≤ c.year ∧ c.year ≤ 9999
  month : 1 ≤ c.month ∧ c.month ≤ 12
  day : 1 ≤ c.day ∧ c.day ≤ daysInMonth c.year c.month
  hour : c.hour < 24
  minute : c.minute < 60
  second : c.second < 60
  microsecond : c.microsecond < 1000000
  utcoffset : ∀ o ∈ c.utcoffset, -86400000000 < o ∧ o < 86400000000
  ambiguous : c.utcoffset = none → c.ambiguous = false

instance (c : Civil) : Decidable c.Valid :=
  decidable_of_iff
    ((1 ≤ c.year ∧ c.year ≤ 9999) ∧ (1 ≤ c.month ∧ c.month ≤ 12) ∧
      (1 ≤ c.day ∧ c.day ≤ daysInMonth c.year c.month) ∧ c.hour < 24 ∧ c.minute < 60 ∧
      c.second < 60 ∧ c.microsecond < 1000000 ∧
      (∀ o ∈ c.utcoffset, -86400000000 < o ∧ o < 86400000000) ∧
      (c.utcoffset = none → c.ambiguous = false))
    ⟨fun ⟨h1, h2, h3, h4, h5, h6, h7, h8, h9⟩ => ⟨h1, h2, h3, h4, h5, h6, h7, h8, h9⟩,
      fun h => ⟨h.1, h.2, h.3, h.4, h.5, h.6, h.7, h.8, h.9⟩⟩

structure Datetime where
  civil : Civil
  valid : civil.Valid
  deriving DecidableEq

/-- `datetime(...)`, which raises ValueError for a field out of range. -/
def datetime (c : Civil) : Option Datetime := if h : c.Valid then some ⟨c, h⟩ else none

/-- Python's `date`. -/
structure Date where
  year : ℕ
  month : ℕ
  day : ℕ
  valid : Civil.Valid { year := year, month := month, day := day }
  deriving DecidableEq

/-- The days before January 1st of the year. -/
def daysBeforeYear (year : ℕ) : ℕ :=
  (year - 1) * 365 + (year - 1) / 4 - (year - 1) / 100 + (year - 1) / 400

/-- The days of the year before the first day of the month. -/
def daysBeforeMonth (year month : ℕ) : ℕ :=
  ((List.range month).tail.map (daysInMonth year)).sum

/-- `toordinal`: January 1st of year 1 is day 1. -/
def toordinal (year month day : ℕ) : ℕ := daysBeforeYear year + daysBeforeMonth year month + day

def Civil.timeOfDay (c : Civil) : ℤ :=
  ((c.hour * 60 + c.minute) * 60 + c.second) * 1000000 + c.microsecond

/-- The date and the time, in microseconds. -/
def Civil.micros (c : Civil) : ℤ :=
  toordinal c.year c.month c.day * 86400000000 + c.timeOfDay

/-- `a == b` for times that do not share their `tzinfo`. Aware times are compared by their
instants, a naive time differs from every aware one, and so does an ambiguous time. -/
def Datetime.eq (a b : Datetime) : Bool :=
  match a.civil.utcoffset, b.civil.utcoffset with
  | none, none => a.civil.micros = b.civil.micros
  | some o, some p => a.civil.micros - o = b.civil.micros - p ∧ ¬ a.civil.ambiguous ∧
      ¬ b.civil.ambiguous
  | _, _ => false

/-- The day after a date; a date that does not exist is left as it is. -/
def nextDay (date : ℕ × ℕ × ℕ) : ℕ × ℕ × ℕ :=
  let (year, month, day) := date
  if month ≤ 12 ∧ day ≤ daysInMonth year month then
    if day < daysInMonth year month then (year, month, day + 1)
    else if month < 12 then (year, month + 1, 1)
    else (year + 1, 1, 1)
  else date

def previousDay (date : ℕ × ℕ × ℕ) : ℕ × ℕ × ℕ :=
  let (year, month, day) := date
  if 1 < day then (year, month, day - 1)
  else if 1 < month then (year, month - 1, daysInMonth year (month - 1))
  else (year - 1, 12, 31)

/-- `t.astimezone(UTC)` of an aware time; none when the result is out of range. -/
def Datetime.utc (t : Datetime) : Option Datetime :=
  t.civil.utcoffset.bind fun offset =>
    let c := t.civil
    let time := c.timeOfDay - offset
    let (year, month, day) :=
      if time < 0 then previousDay (c.year, c.month, c.day)
      else if time < 86400000000 then (c.year, c.month, c.day)
      else nextDay (c.year, c.month, c.day)
    let micros := (time % 86400000000).toNat
    datetime {
      year := year
      month := month
      day := day
      hour := micros / 3600000000
      minute := micros / 60000000 % 60
      second := micros / 1000000 % 60
      microsecond := micros % 1000000
      utcoffset := some 0 }

/-- The number that the next `n` digits continue. -/
def parseDigits : ℕ → ℕ → List Char → Option (ℕ × List Char)
  | 0, acc, cs => some (acc, cs)
  | _ + 1, _, [] => none
  | n + 1, acc, c :: cs =>
    if c.isDigit then parseDigits n (acc * 10 + (c.toNat - 48)) cs else none

/-- The rest after a separator, which is there exactly when `present` says so. -/
def skipSeparator (present : Bool) (separator : Char) (cs : List Char) : Option (List Char) :=
  if present then
    match cs with
    | c :: cs => if c = separator then some cs else none
    | [] => none
  else some cs

/-- `_isoweek1monday`: the ordinal of the Monday of week 1. -/
def isoweek1monday (year : ℕ) : ℤ :=
  let firstday : ℤ := toordinal year 1 1
  let firstweekday := (firstday + 6) % 7
  if firstweekday > 3 then firstday - firstweekday + 7 else firstday - firstweekday

def isoweekToGregorian (year week day : ℕ) : Option (ℕ × ℕ × ℕ) :=
  let firstWeekday := toordinal year 1 1 % 7
  if ¬ (1 ≤ year ∧ year ≤ 9999) then none
  else if ¬ (0 < week ∧ week < 53 ∨
      week = 53 ∧ (firstWeekday = 4 ∨ firstWeekday = 3 ∧ isLeap year)) then none
  else if ¬ (0 < day ∧ day < 8) then none
  else
    -- days from January 1st, up to three of them before it
    let days := isoweek1monday year + (week - 1) * 7 + (day - 1) - toordinal year 1 1
    if days < 0 then some (year - 1, 12, 32 - days.natAbs)
    else some (nextDay^[days.natAbs] (year, 1, 1))

def parseIsoformatDate (cs : List Char) : Option (ℕ × ℕ × ℕ) := do
  let (year, cs) ← parseDigits 4 0 cs
  let hasSep := cs.head? = some '-'
  let cs ← skipSeparator hasSep '-' cs
  if cs.head? = some 'W' then
    let (week, cs) ← parseDigits 2 0 cs.tail
    if cs = [] then isoweekToGregorian year week 1
    else
      let cs ← skipSeparator hasSep '-' cs
      let (day, cs) ← parseDigits 1 0 cs
      if cs = [] then isoweekToGregorian year week day else none
  else
    let (month, cs) ← parseDigits 2 0 cs
    let cs ← skipSeparator hasSep '-' cs
    let (day, cs) ← parseDigits 2 0 cs
    if cs = [] then some (year, month, day) else none

/-- `date.fromisoformat`; none is a ValueError. -/
def Date.fromisoformat (s : String) : Option Date :=
  (parseIsoformatDate s.toList).bind fun (year, month, day) =>
    if h : Civil.Valid { year := year, month := month, day := day } then some ⟨year, month, day, h⟩
    else none

/-- A decimal mark and digits, of which the first six count. -/
def parseFraction (cs : List Char) : Option ℕ :=
  match cs with
  | [] => some 0
  | c :: cs =>
    if (c = '.' ∨ c = ',') ∧ cs ≠ [] ∧ cs.all Char.isDigit then
      (parseDigits (min 6 cs.length) 0 cs).map fun x => x.1 * 10 ^ (6 - min 6 cs.length)
    else none

def parseHhMmSsFf (cs : List Char) : Option (ℕ × ℕ × ℕ × ℕ) := do
  let (hour, cs) ← parseDigits 2 0 cs
  if cs = [] then return (hour, 0, 0, 0)
  let hasSep := cs.head? = some ':'
  let cs ← skipSeparator hasSep ':' cs
  let (minute, cs) ← parseDigits 2 0 cs
  if cs = [] then return (hour, minute, 0, 0)
  let cs ← skipSeparator hasSep ':' cs
  let (second, cs) ← parseDigits 2 0 cs
  let microsecond ← parseFraction cs
  return (hour, minute, second, microsecond)

/-- The offset after the time: nothing, `Z`, or a sign and the time of the offset. -/
def parseOffset (cs : List Char) : Option (Option ℤ) :=
  match cs with
  | [] => some none
  | c :: cs =>
    if c = 'Z' then if cs = [] then some (some 0) else none
    else do
      let (hour, minute, second, microsecond) ← parseHhMmSsFf cs
      let offset : ℤ := ((hour * 60 + minute) * 60 + second) * 1000000 + microsecond
      if hour < 24 ∧ minute < 60 ∧ second < 60 then
        some (some (if c = '-' then -offset else offset))
      else none

def startsOffset (c : Char) : Bool := c = '+' ∨ c = '-' ∨ c = 'Z'

/-- `_find_isoformat_datetime_separator`, for at least 7 characters. -/
def findSeparator (cs : List Char) : Option ℕ :=
  if cs.length = 7 then some 7
  else if cs[4]? = some '-' then
    if cs[5]? = some 'W' then
      if cs[8]? = some '-' then
        if cs.length = 9 then none
        -- a digit at 10 makes the hyphen at 8 the separator
        else if (cs[10]?).any Char.isDigit then some 8 else some 10
      else some 8
    else some 10
  else if cs[4]? = some 'W' then
    let pos := 7 + ((cs.drop 7).takeWhile Char.isDigit).length
    if pos < 9 then some pos else if pos % 2 = 0 then some 7 else some 8
  else some 8

/-- A date and a time, with midnight at the end of a day as the start of the next. -/
def combine (date : ℕ × ℕ × ℕ) (time : ℕ × ℕ × ℕ × ℕ) (utcoffset : Option ℤ) : Option Datetime :=
  let midnight := time = (24, 0, 0, 0)
  let (year, month, day) := if midnight then nextDay date else date
  let (hour, minute, second, microsecond) := if midnight then (0, 0, 0, 0) else time
  datetime {
    year := year
    month := month
    day := day
    hour := hour
    minute := minute
    second := second
    microsecond := microsecond
    utcoffset := utcoffset }

/-- `datetime.fromisoformat`; none is a ValueError. -/
def fromisoformat (s : String) : Option Datetime := do
  let cs := s.toList
  if cs.length < 7 then none
  else
    let location ← findSeparator cs
    let date ← parseIsoformatDate (cs.take location)
    let tstr := cs.drop (location + 1)
    if tstr = [] then combine date (0, 0, 0, 0) none
    else
      let time ← parseHhMmSsFf (tstr.takeWhile fun c => !startsOffset c)
      let utcoffset ← parseOffset (tstr.dropWhile fun c => !startsOffset c)
      combine date time utcoffset

/-- `width` decimal digits. -/
def digitsOf : ℕ → ℕ → List Char
  | 0, _ => []
  | width + 1, n => digitsOf width (n / 10) ++ [Char.ofNat (n % 10 + 48)]

/-- An offset in whole minutes; more than half a minute counts as one. -/
def offsetMinutes (offset : ℤ) : ℕ :=
  let seconds := (offset / 1000000).natAbs
  seconds / 60 + if seconds % 60 > 30 then 1 else 0

def offsetText (offset : ℤ) : List Char :=
  if 0 ≤ offset ∧ offset < 1000000 then ['Z']
  else
    (if offset < 0 then '-' else '+') ::
      (digitsOf 2 (offsetMinutes offset / 60) ++ ':' :: digitsOf 2 (offsetMinutes offset % 60))

def dateText (c : Civil) : List Char :=
  digitsOf 4 c.year ++ '-' :: (digitsOf 2 c.month ++ '-' :: digitsOf 2 c.day)

def Date.isoformat (d : Date) : String :=
  String.ofList (dateText { year := d.year, month := d.month, day := d.day })

def timeText (c : Civil) : List Char :=
  digitsOf 2 c.hour ++ ':' :: (digitsOf 2 c.minute ++ ':' :: (digitsOf 2 c.second ++
    if c.microsecond = 0 then [] else '.' :: digitsOf 6 c.microsecond))

/-- RFC 3339, whose offsets are whole minutes. -/
def rfc3339 (c : Civil) : String :=
  String.ofList (dateText c ++ 'T' :: (timeText c ++ c.utcoffset.elim [] offsetText))

/-- The offset that the text of an offset gives. -/
def roundedOffset (offset : ℤ) : ℤ :=
  if offset < 0 then -(offsetMinutes offset * 60000000) else offsetMinutes offset * 60000000

theorem parseDigits_add (m k acc : ℕ) (cs : List Char) :
    parseDigits (m + k) acc cs = (parseDigits m acc cs).bind fun x => parseDigits k x.1 x.2 := by
  induction m generalizing acc cs with
  | zero => simp [parseDigits]
  | succ m ih =>
    rw [Nat.add_right_comm]
    cases cs with
    | nil => rfl
    | cons c cs =>
      simp only [parseDigits]
      split
      · exact ih _ _
      · rfl

theorem digit_of_lt : ∀ d < 10, (Char.ofNat (d + 48)).isDigit = true ∧
    (Char.ofNat (d + 48)).toNat - 48 = d := by
  decide

theorem isDigit_digit (n : ℕ) : (Char.ofNat (n % 10 + 48)).isDigit = true :=
  (digit_of_lt _ (Nat.mod_lt n (by omega))).1

theorem toNat_digit (n : ℕ) : (Char.ofNat (n % 10 + 48)).toNat - 48 = n % 10 :=
  (digit_of_lt _ (Nat.mod_lt n (by omega))).2

theorem parseDigits_digitsOf (width n acc : ℕ) (rest : List Char) :
    parseDigits width acc (digitsOf width n ++ rest) =
      some (acc * 10 ^ width + n % 10 ^ width, rest) := by
  induction width generalizing n rest with
  | zero => simp [parseDigits, digitsOf, Nat.mod_one]
  | succ width ih =>
    rw [parseDigits_add, digitsOf, List.append_assoc, ih]
    simp only [Option.bind_some, List.cons_append, List.nil_append, parseDigits, isDigit_digit,
      if_true, toNat_digit, Option.some.injEq, Prod.mk.injEq, and_true]
    have hsplit : n % 10 ^ (width + 1) = 10 * (n / 10 % 10 ^ width) + n % 10 := by
      rw [Nat.pow_succ, Nat.mul_comm, Nat.mod_mul]
      omega
    rw [hsplit, Nat.pow_succ]
    ring

theorem parseDigits_of_lt {width n : ℕ} (h : n < 10 ^ width) (rest : List Char) :
    parseDigits width 0 (digitsOf width n ++ rest) = some (n, rest) := by
  rw [parseDigits_digitsOf, Nat.mod_eq_of_lt h]
  simp

theorem isDigit_of_mem {width n : ℕ} {c : Char} (h : c ∈ digitsOf width n) : c.isDigit = true := by
  induction width generalizing n with
  | zero => simp [digitsOf] at h
  | succ width ih =>
    rw [digitsOf, List.mem_append] at h
    rcases h with h | h
    · exact ih h
    · rw [List.mem_singleton.mp h]
      exact isDigit_digit n

theorem length_digitsOf (width n : ℕ) : (digitsOf width n).length = width := by
  induction width generalizing n with
  | zero => rfl
  | succ width ih => simp [digitsOf, ih]

theorem digitsOf_succ (width n : ℕ) :
    ∃ d ds, digitsOf (width + 1) n = d :: ds ∧ d.isDigit = true := by
  cases hd : digitsOf (width + 1) n with
  | nil =>
    have hlen := length_digitsOf (width + 1) n
    simp [hd] at hlen
  | cons d ds =>
    have hmem : d ∈ digitsOf (width + 1) n := by rw [hd]; exact List.mem_cons_self
    exact ⟨d, ds, rfl, isDigit_of_mem hmem⟩

/-- A text that starts with digits does not start with another character. -/
theorem head?_digitsOf {width n : ℕ} {c : Char} (hc : c.isDigit = false) (d : Char) :
    (digitsOf (width + 1) n).head?.getD d ≠ c := by
  obtain ⟨e, es, he, hdigit⟩ := digitsOf_succ width n
  rw [he]
  intro h
  obtain rfl : e = c := h
  rw [hc] at hdigit
  cases hdigit

variable {c : Civil}

theorem parse_dateText_append (h : c.Valid) (rest : List Char) :
    parseIsoformatDate (dateText c ++ rest) =
      if rest = [] then some (c.year, c.month, c.day) else none := by
  have hmonth : c.month < 10 ^ 2 := by have := h.month; omega
  have hday : c.day < 10 ^ 2 := by
    have hle : daysInMonth c.year c.month ≤ 31 := by
      unfold daysInMonth
      split_ifs <;> omega
    have := h.day
    omega
  have hyear : c.year < 10 ^ 4 := by have := h.year; omega
  unfold parseIsoformatDate dateText
  simp [parseDigits_of_lt hyear, skipSeparator, head?_digitsOf (c := 'W') rfl '-',
    parseDigits_of_lt hmonth, parseDigits_of_lt hday]

theorem parse_dateText (h : c.Valid) :
    parseIsoformatDate (dateText c) = some (c.year, c.month, c.day) := by
  simpa using parse_dateText_append h []

theorem Date.fromisoformat_isoformat (d : Date) : Date.fromisoformat d.isoformat = some d := by
  simp [Date.fromisoformat, Date.isoformat, parse_dateText d.valid, d.valid]

theorem Date.fromisoformat_rfc3339 (t : Datetime) :
    Date.fromisoformat (rfc3339 t.civil) = none := by
  simp [Date.fromisoformat, rfc3339, parse_dateText_append t.valid]

theorem parse_fraction (h : c.microsecond < 1000000) :
    parseFraction (if c.microsecond = 0 then [] else '.' :: digitsOf 6 c.microsecond) =
      some c.microsecond := by
  split
  · rename_i hzero
    simp [parseFraction, hzero]
  · have hall : (digitsOf 6 c.microsecond).all Char.isDigit = true :=
      List.all_eq_true.mpr fun _ hmem => isDigit_of_mem hmem
    have hne : digitsOf 6 c.microsecond ≠ [] := by
      obtain ⟨d, ds, hd, _⟩ := digitsOf_succ 5 c.microsecond
      simp [hd]
    have hmicro : c.microsecond < 10 ^ 6 := h
    have hparse := parseDigits_of_lt hmicro []
    rw [List.append_nil] at hparse
    simp [parseFraction, length_digitsOf, hall, hne, hparse]

theorem parse_timeText (h : c.Valid) :
    parseHhMmSsFf (timeText c) = some (c.hour, c.minute, c.second, c.microsecond) := by
  have hhour : c.hour < 10 ^ 2 := by have := h.hour; omega
  have hminute : c.minute < 10 ^ 2 := by have := h.minute; omega
  have hsecond : c.second < 10 ^ 2 := by have := h.second; omega
  unfold parseHhMmSsFf timeText
  simp [parseDigits_of_lt hhour, skipSeparator, parseDigits_of_lt hminute,
    parseDigits_of_lt hsecond, parse_fraction h.microsecond]

theorem offsetMinutes_le {o : ℤ} (h : -86400000000 < o ∧ o < 86400000000) :
    offsetMinutes o ≤ 1440 := by
  unfold offsetMinutes
  dsimp only
  split_ifs <;> omega

theorem parse_offsetText {o : ℤ} (h : -86400000000 < o ∧ o < 86400000000) :
    parseOffset (offsetText o) =
      if offsetMinutes o < 1440 then some (some (roundedOffset o)) else none := by
  have hle := offsetMinutes_le h
  unfold offsetText
  split
  · rename_i hz
    have hmin : offsetMinutes o = 0 := by
      unfold offsetMinutes
      dsimp only
      split_ifs <;> omega
    simp [parseOffset, hmin, roundedOffset]
  · have hhour : offsetMinutes o / 60 < 10 ^ 2 := by omega
    have hminute : offsetMinutes o % 60 < 10 ^ 2 := by omega
    have hend := parseDigits_of_lt hminute []
    rw [List.append_nil] at hend
    have htime : parseHhMmSsFf (digitsOf 2 (offsetMinutes o / 60) ++ ':' ::
        digitsOf 2 (offsetMinutes o % 60)) =
        some (offsetMinutes o / 60, offsetMinutes o % 60, 0, 0) := by
      simp [parseHhMmSsFf, parseDigits_of_lt hhour, skipSeparator, hend]
    have hsign : (if o < 0 then '-' else '+') ≠ 'Z' := by
      split <;> decide
    simp only [parseOffset, if_neg hsign, htime, Option.bind_eq_bind, Option.bind_some]
    by_cases hlt : offsetMinutes o < 1440
    · have hhh : offsetMinutes o / 60 < 24 := by omega
      have hmm : offsetMinutes o % 60 < 60 := by omega
      by_cases hneg : o < 0
      · simp [hhh, hmm, hlt, hneg, roundedOffset]
        omega
      · simp [hhh, hmm, hlt, hneg, roundedOffset]
        omega
    · have hhh : ¬ offsetMinutes o / 60 < 24 := by omega
      simp [hhh, hlt]

theorem startsOffset_timeText (c : Civil) : ∀ d ∈ timeText c, startsOffset d = false := by
  have hdigit : ∀ d : Char, d.isDigit = true → startsOffset d = false := by
    intro d hd
    unfold startsOffset
    by_cases h : d = '+' ∨ d = '-' ∨ d = 'Z'
    · rcases h with rfl | rfl | rfl <;> cases hd
    · simpa using h
  intro d hd
  unfold timeText at hd
  simp only [List.mem_append, List.mem_cons] at hd
  rcases hd with hd | rfl | hd | rfl | hd | hd
  · exact hdigit d (isDigit_of_mem hd)
  · rfl
  · exact hdigit d (isDigit_of_mem hd)
  · rfl
  · exact hdigit d (isDigit_of_mem hd)
  · split at hd
    · cases hd
    · rcases List.mem_cons.mp hd with rfl | hd
      · rfl
      · exact hdigit d (isDigit_of_mem hd)

/-- The text of an offset starts it, so the time before it is what precedes the first start. -/
theorem split_offset (c : Civil) (o : Option ℤ) :
    (timeText c ++ o.elim [] offsetText).takeWhile (fun d => !startsOffset d) = timeText c ∧
    (timeText c ++ o.elim [] offsetText).dropWhile (fun d => !startsOffset d) =
      o.elim [] offsetText := by
  have htime : ∀ d ∈ timeText c, (!startsOffset d) = true := by
    intro d hd
    rw [startsOffset_timeText c d hd]
    rfl
  have hoffset : (o.elim [] offsetText).takeWhile (fun d => !startsOffset d) = [] ∧
      (o.elim [] offsetText).dropWhile (fun d => !startsOffset d) = o.elim [] offsetText := by
    cases o with
    | none => exact ⟨rfl, rfl⟩
    | some o =>
      unfold offsetText
      simp only [Option.elim_some]
      split
      · exact ⟨rfl, rfl⟩
      · split <;> exact ⟨rfl, rfl⟩
  rw [List.takeWhile_append_of_pos htime, List.dropWhile_append_of_pos htime, hoffset.1, hoffset.2]
  simp

theorem length_dateText (c : Civil) : (dateText c).length = 10 := by
  simp [dateText, length_digitsOf]

theorem findSeparator_dateText (c : Civil) (rest : List Char) :
    findSeparator (dateText c ++ 'T' :: rest) = some 10 := by
  obtain ⟨d, ds, hd, hdigit⟩ := digitsOf_succ 1 c.month
  have hlen : ¬ (dateText c).length + (rest.length + 1) = 7 := by
    rw [length_dateText]
    omega
  have hdash : (dateText c ++ 'T' :: rest)[4]? = some '-' := by
    simp [dateText, length_digitsOf]
  have hmonth : (dateText c ++ 'T' :: rest)[5]? = some d := by
    simp [dateText, List.getElem?_append_right, length_digitsOf, hd]
  have hweek : d ≠ 'W' := by
    rintro rfl
    cases hdigit
  simp [findSeparator, hlen, hdash, hmonth, hweek]

/-- Reading an RFC 3339 text gives back its time, with the offset rounded to minutes. -/
theorem fromisoformat_rfc3339 (t : Datetime) :
    fromisoformat (rfc3339 t.civil) = datetime { t.civil with
      utcoffset := t.civil.utcoffset.map roundedOffset
      ambiguous := false } := by
  obtain ⟨c, h⟩ := t
  obtain ⟨htake, hdrop⟩ := split_offset c c.utcoffset
  have htime : timeText c ++ c.utcoffset.elim [] offsetText ≠ [] := by
    simp [timeText]
  have hlen :
      ¬ (dateText c ++ 'T' :: (timeText c ++ c.utcoffset.elim [] offsetText)).length < 7 := by
    rw [List.length_append, length_dateText]
    omega
  have hdate : (dateText c ++ 'T' :: (timeText c ++ c.utcoffset.elim [] offsetText)).take 10 =
      dateText c := List.take_left' (length_dateText c)
  have hrest : (dateText c ++ 'T' :: (timeText c ++ c.utcoffset.elim [] offsetText)).drop 11 =
      timeText c ++ c.utcoffset.elim [] offsetText := by
    rw [List.drop_append, length_dateText, List.drop_eq_nil_of_le (by rw [length_dateText]; omega)]
    rfl
  have hnight : ¬ (c.hour, c.minute, c.second, c.microsecond) = (24, 0, 0, 0) := by
    have := h.hour
    simp only [Prod.mk.injEq]
    omega
  unfold fromisoformat rfc3339
  simp only [String.toList_ofList, hlen, if_false, findSeparator_dateText, Option.bind_eq_bind,
    Option.bind_some, hdate, parse_dateText h, hrest, htime, htake, hdrop, parse_timeText h]
  cases ho : c.utcoffset with
  | none => simp [parseOffset, combine, hnight]
  | some o =>
    have hle := offsetMinutes_le (h.utcoffset o ho)
    simp only [Option.elim_some, parse_offsetText (h.utcoffset o ho), Option.map_some]
    by_cases hlt : offsetMinutes o < 1440
    · simp [hlt, combine, hnight]
    · -- the offset is rounded to a whole day, which the constructor refuses
      simp only [hlt, if_false, Option.bind_none]
      unfold datetime
      rw [dif_neg]
      intro hvalid
      have hrange := hvalid.utcoffset (roundedOffset o) rfl
      unfold roundedOffset at hrange
      split at hrange <;> omega

theorem roundedOffset_mod (o : ℤ) : roundedOffset o % 60000000 = 0 := by
  unfold roundedOffset
  split <;> omega

/-- An offset in whole minutes is written as it is. -/
theorem roundedOffset_of_minutes {o : ℤ} (h : o % 60000000 = 0) : roundedOffset o = o := by
  unfold roundedOffset offsetMinutes
  dsimp only
  split_ifs <;> omega

theorem datetime_eq_some {t : Datetime} (h : datetime c = some t) : t.civil = c := by
  unfold datetime at h
  split at h
  · rw [← Option.some.inj h]
  · cases h

theorem datetime_civil (t : Datetime) : datetime t.civil = some t := by
  unfold datetime
  rw [dif_pos t.valid]

theorem eq_self {t : Datetime} (h : t.civil.ambiguous = false) : t.eq t = true := by
  unfold Datetime.eq
  cases t.civil.utcoffset with
  | none => simp
  | some o => simp [h]

/-- A time is what its RFC 3339 text gives exactly when its offset is in whole minutes and does
not depend on `fold`. -/
theorem rfc3339_round_trip (t : Datetime) :
    (∃ u, fromisoformat (rfc3339 t.civil) = some u ∧ u.eq t) ↔
      (∀ o ∈ t.civil.utcoffset, o % 60000000 = 0) ∧ t.civil.ambiguous = false := by
  rw [fromisoformat_rfc3339]
  constructor
  · intro h
    obtain ⟨u, hu, heq⟩ := h
    have hcivil := datetime_eq_some hu
    cases ho : t.civil.utcoffset with
    | none => exact ⟨by simp, t.valid.ambiguous ho⟩
    | some o =>
      simp only [Datetime.eq, hcivil, ho, Option.map_some, decide_eq_true_eq, Civil.micros,
        Civil.timeOfDay] at heq
      obtain ⟨hinstant, -, hfold⟩ := heq
      have hround : roundedOffset o = o := by omega
      refine ⟨fun p hp => ?_, by simpa using hfold⟩
      obtain rfl : o = p := Option.some.inj hp
      rw [← hround]
      exact roundedOffset_mod o
  · intro h
    obtain ⟨hminutes, hfold⟩ := h
    have hsame : t.civil.utcoffset.map roundedOffset = t.civil.utcoffset := by
      cases ho : t.civil.utcoffset with
      | none => rfl
      | some o => rw [Option.map_some, roundedOffset_of_minutes (hminutes o ho)]
    have hcivil : { t.civil with
        utcoffset := t.civil.utcoffset.map roundedOffset, ambiguous := false } = t.civil := by
      rw [hsame, ← hfold]
    refine ⟨t, ?_, eq_self hfold⟩
    rw [hcivil]
    exact datetime_civil t

theorem daysBeforeMonth_succ {year month : ℕ} (h : 1 ≤ month) :
    daysBeforeMonth year (month + 1) = daysBeforeMonth year month + daysInMonth year month := by
  obtain ⟨k, rfl⟩ : ∃ k, month = k + 1 := ⟨month - 1, by omega⟩
  unfold daysBeforeMonth
  rw [List.range_succ (n := k + 1), List.tail_append_of_ne_nil (by simp)]
  simp

theorem daysBeforeMonth_year (year : ℕ) :
    daysBeforeMonth year 12 + 31 = if isLeap year then 366 else 365 := by
  cases hleap : isLeap year <;> simp [daysBeforeMonth, List.range_succ, daysInMonth, hleap]

theorem daysBeforeYear_succ {year : ℕ} (h : 1 ≤ year) :
    daysBeforeYear (year + 1) = daysBeforeYear year + if isLeap year then 366 else 365 := by
  obtain ⟨k, rfl⟩ : ∃ k, year = k + 1 := ⟨year - 1, by omega⟩
  have h100 : (k + 1) % 100 = 0 → (k + 1) % 4 = 0 := by omega
  have h400 : (k + 1) % 400 = 0 → (k + 1) % 100 = 0 := by omega
  have hle : k / 100 ≤ k := Nat.div_le_self k 100
  simp only [daysBeforeYear, isLeap, Nat.add_sub_cancel, Nat.succ_div, Nat.dvd_iff_mod_eq_zero,
    decide_eq_true_eq]
  generalize k / 4 = fours at *
  generalize k / 100 = centuries at *
  generalize k / 400 = cycles at *
  by_cases hfour : (k + 1) % 4 = 0
  · by_cases hcentury : (k + 1) % 100 = 0
    · by_cases hcycle : (k + 1) % 400 = 0
      · simp [hfour, hcentury, hcycle]
        omega
      · simp [hfour, hcentury, hcycle]
        omega
    · have hcycle : ¬ (k + 1) % 400 = 0 := fun h => hcentury (h400 h)
      simp [hfour, hcentury, hcycle]
      omega
  · have hcentury : ¬ (k + 1) % 100 = 0 := fun h => hfour (h100 h)
    have hcycle : ¬ (k + 1) % 400 = 0 := fun h => hcentury (h400 h)
    simp [hfour, hcentury, hcycle]
    omega

theorem toordinal_newYear {year : ℕ} (h : 1 ≤ year) :
    toordinal (year + 1) 1 1 = toordinal year 12 31 + 1 := by
  have hdays := daysBeforeMonth_year year
  have hfirst : daysBeforeMonth (year + 1) 1 = 0 := rfl
  unfold toordinal
  rw [daysBeforeYear_succ h, hfirst]
  omega

theorem toordinal_newMonth {year month : ℕ} (h : 1 ≤ month) :
    toordinal year (month + 1) 1 = toordinal year month (daysInMonth year month) + 1 := by
  unfold toordinal
  rw [daysBeforeMonth_succ h]
  omega

theorem toordinal_nextDay {year month day : ℕ} (hyear : 1 ≤ year)
    (hmonth : 1 ≤ month ∧ month ≤ 12) (hday : day ≤ daysInMonth year month) :
    toordinal (nextDay (year, month, day)).1 (nextDay (year, month, day)).2.1
      (nextDay (year, month, day)).2.2 = toordinal year month day + 1 := by
  unfold nextDay
  simp only [hmonth.2, hday, and_self, if_true]
  by_cases hlast : day < daysInMonth year month
  · simp only [hlast, if_true]
    rfl
  · obtain rfl : day = daysInMonth year month := by omega
    by_cases hdecember : month < 12
    · simp only [hlast, hdecember, if_true, if_false]
      exact toordinal_newMonth hmonth.1
    · obtain rfl : month = 12 := by omega
      simp only [hlast, hdecember, if_false]
      exact toordinal_newYear hyear

theorem toordinal_previousDay (year : ℕ) {month day : ℕ} (hmonth : 1 ≤ month) (hday : 1 ≤ day)
    (hyear : 1 ≤ (previousDay (year, month, day)).1) :
    toordinal (previousDay (year, month, day)).1 (previousDay (year, month, day)).2.1
      (previousDay (year, month, day)).2.2 + 1 = toordinal year month day := by
  unfold previousDay at hyear ⊢
  dsimp only at hyear ⊢
  by_cases hfirst : 1 < day
  · simp only [hfirst, if_true]
    unfold toordinal
    omega
  · obtain rfl : day = 1 := by omega
    by_cases hjanuary : 1 < month
    · obtain ⟨k, rfl⟩ : ∃ k, month = k + 1 := ⟨month - 1, by omega⟩
      simp only [hfirst, hjanuary, if_true, if_false, Nat.add_sub_cancel]
      exact (toordinal_newMonth (by omega)).symm
    · obtain rfl : month = 1 := by omega
      simp only [hfirst, if_false] at hyear ⊢
      obtain ⟨k, rfl⟩ : ∃ k, year = k + 1 := ⟨year - 1, by omega⟩
      exact (toordinal_newYear hyear).symm

theorem timeOfDay_range (h : c.Valid) : 0 ≤ c.timeOfDay ∧ c.timeOfDay < 86400000000 := by
  have hhour := h.hour
  have hminute := h.minute
  have hsecond := h.second
  have hmicro := h.microsecond
  unfold Civil.timeOfDay
  omega

theorem timeOfDay_fields (r : ℕ) (hc : c.hour = r / 3600000000) (hm : c.minute = r / 60000000 % 60)
    (hs : c.second = r / 1000000 % 60) (hu : c.microsecond = r % 1000000) : c.timeOfDay = r := by
  unfold Civil.timeOfDay
  rw [hc, hm, hs, hu]
  omega

/-- The date in UTC is the day before, the same day or the day after, as the time of the day
less the offset says. -/
theorem toordinal_utc {t u : Datetime} {offset : ℤ} (ho : t.civil.utcoffset = some offset)
    (h : t.utc = some u) :
    ∃ k : ℤ, (toordinal u.civil.year u.civil.month u.civil.day : ℤ) =
        toordinal t.civil.year t.civil.month t.civil.day + k ∧
      k * 86400000000 ≤ t.civil.timeOfDay - offset ∧
      t.civil.timeOfDay - offset < (k + 1) * 86400000000 := by
  have hrange := timeOfDay_range t.valid
  have hoffset := t.valid.utcoffset offset ho
  have hmonth := t.valid.month
  have hday := t.valid.day
  have hyear := u.valid.year
  simp only [Datetime.utc, ho, Option.bind_some] at h
  have hcivil := datetime_eq_some h
  by_cases hneg : t.civil.timeOfDay - offset < 0
  · simp only [hneg, if_true] at hcivil
    have hprev := toordinal_previousDay t.civil.year hmonth.1 hday.1 (by
      rw [hcivil] at hyear
      exact hyear.1)
    refine ⟨-1, ?_, by omega, by omega⟩
    rw [hcivil, ← hprev]
    push_cast
    ring
  · by_cases hsame : t.civil.timeOfDay - offset < 86400000000
    · simp only [hneg, hsame, if_true, if_false] at hcivil
      refine ⟨0, ?_, by omega, by omega⟩
      rw [hcivil]
      simp
    · simp only [hneg, hsame, if_false] at hcivil
      have hnext := toordinal_nextDay t.valid.year.1 hmonth hday.2
      refine ⟨1, ?_, by omega, by omega⟩
      rw [hcivil]
      dsimp only
      rw [hnext]
      push_cast
      ring

theorem micros_utc {t u : Datetime} {offset : ℤ} (ho : t.civil.utcoffset = some offset)
    (h : t.utc = some u) :
    u.civil.micros = t.civil.micros - offset ∧ u.civil.utcoffset = some 0 ∧
      u.civil.ambiguous = false := by
  obtain ⟨k, hdays, hlower, hupper⟩ := toordinal_utc ho h
  simp only [Datetime.utc, ho, Option.bind_some] at h
  have hcivil := datetime_eq_some h
  have htime : u.civil.timeOfDay = (t.civil.timeOfDay - offset) % 86400000000 := by
    have hfields := timeOfDay_fields (c := u.civil)
      ((t.civil.timeOfDay - offset) % 86400000000).toNat (by rw [hcivil]) (by rw [hcivil])
      (by rw [hcivil]) (by rw [hcivil])
    rw [hfields]
    omega
  refine ⟨?_, by rw [hcivil], by rw [hcivil]⟩
  unfold Civil.micros
  rw [htime, hdays]
  omega

/-- The time in UTC equals a time exactly when its offset does not depend on `fold`. -/
theorem utc_eq_iff {t u : Datetime} (h : t.utc = some u) :
    u.eq t ↔ t.civil.ambiguous = false := by
  cases ho : t.civil.utcoffset with
  | none => simp [Datetime.utc, ho] at h
  | some offset =>
    obtain ⟨hmicros, hzero, hfold⟩ := micros_utc ho h
    simp only [Datetime.eq, ho, hzero, hmicros, hfold, decide_eq_true_eq]
    simp

end Taas.Python
