import Mathlib.Algebra.BigOperators.Group.Finset.Piecewise
import Mathlib.Algebra.Order.Floor.Ring
import Mathlib.Data.Rat.Floor

/-!
The throttling of log records by `ThrottledLogFilter`. The records of a group fall into windows,
each opened by the first record that comes an interval or more after the one that opened the window
before. What a window suppresses is announced on the record that opens the next.
-/
namespace Taas.LogThrottle

/-- What the filter reads of a record. `msg` is `str(record.msg)`. -/
structure LogRecord where
  name : String
  levelno : ℤ
  msg : String
  deriving DecidableEq

abbrev Key := String × ℤ × String

def LogRecord.key (record : LogRecord) : Key := (record.name, record.levelno, record.msg)

structure GroupState where
  windowStart : ℚ
  emitted : ℕ := 0
  suppressed : ℕ := 0

structure ThrottledLogFilter where
  burst : ℤ
  intervalSeconds : ℚ
  state : Key → Option GroupState := fun _ => none

/-- Python's rounding to an integer: to the nearest, ties to the even one. -/
def roundHalfEven (x : ℚ) : ℤ :=
  if x - ⌊x⌋ < 1 / 2 then ⌊x⌋
  else if 1 / 2 < x - ⌊x⌋ then ⌊x⌋ + 1
  else if Even ⌊x⌋ then ⌊x⌋ else ⌊x⌋ + 1

def annotateSuppressed (record : LogRecord) (suppressed : ℕ) (intervalSeconds : ℚ) : LogRecord :=
  { record with
    msg := record.msg ++ " [+" ++ toString suppressed ++ " identical suppressed in the last " ++
      toString (roundHalfEven intervalSeconds) ++ "s]" }

namespace ThrottledLogFilter

/-- `__init__`, with its defaults. -/
def new (burst : ℤ := 1) (intervalSeconds : ℚ := 60) : ThrottledLogFilter where
  burst := max 1 burst
  intervalSeconds := max 0 intervalSeconds

def setState (f : ThrottledLogFilter) (key : Key) (state : GroupState) : ThrottledLogFilter :=
  { f with state := Function.update f.state key (some state) }

/-- Whether the record passes, the record as the handlers see it, and the filter after it. -/
def filter (now : ℚ) (record : LogRecord) (f : ThrottledLogFilter) :
    Bool × LogRecord × ThrottledLogFilter :=
  match f.state record.key with
  | none => (true, record, f.setState record.key { windowStart := now, emitted := 1 })
  | some state =>
    if f.intervalSeconds ≤ now - state.windowStart then
      (true,
        if state.suppressed = 0 then record
        else annotateSuppressed record state.suppressed f.intervalSeconds,
        f.setState record.key { windowStart := now, emitted := 1 })
    else if state.emitted < f.burst then
      (true, record, f.setState record.key { state with emitted := state.emitted + 1 })
    else
      (false, record, f.setState record.key { state with suppressed := state.suppressed + 1 })

/-- The records of a group that are suppressed and not announced yet. -/
def pending (f : ThrottledLogFilter) (key : Key) : ℕ :=
  ((f.state key).map GroupState.suppressed).getD 0

end ThrottledLogFilter

open ThrottledLogFilter

/-- A record that was filtered at `time`, and how it left the filter. -/
structure Entry where
  time : ℚ
  record : LogRecord
  passed : Bool
  emitted : LogRecord

def filterAll : List (ℚ × LogRecord) → ThrottledLogFilter → List Entry × ThrottledLogFilter
  | [], f => ([], f)
  | (now, record) :: records, f =>
    let out := f.filter now record
    let rest := filterAll records out.2.2
    (⟨now, record, out.1, out.2.1⟩ :: rest.1, rest.2)

/-- The entries that stay in the window opened at `start`, and the windows after it. -/
def windowsFrom (interval : ℚ) : ℚ → List Entry → List Entry × List (List Entry)
  | _, [] => ([], [])
  | start, e :: log =>
    if interval ≤ e.time - start then
      ([], (e :: (windowsFrom interval e.time log).1) :: (windowsFrom interval e.time log).2)
    else
      (e :: (windowsFrom interval start log).1, (windowsFrom interval start log).2)

/-- The windows of a group, from all its entries. -/
def windows (interval : ℚ) : List Entry → List (List Entry)
  | [] => []
  | e :: log => (e :: (windowsFrom interval e.time log).1) :: (windowsFrom interval e.time log).2

def inGroup (key : Key) (log : List Entry) : List Entry :=
  log.filter fun e => e.record.key = key

/-- The record leaves the filter with `n` suppressed records announced on it. -/
def Announces (interval : ℚ) (e : Entry) (n : ℕ) : Prop :=
  (n = 0 ∧ e.emitted = e.record) ∨
    (e.passed = true ∧ 0 < n ∧ e.emitted = annotateSuppressed e.record n interval)

/-- The sum of a weight over the entries of a group. -/
def total (key : Key) (weight : Entry × ℕ → ℕ) (log : List (Entry × ℕ)) : ℕ :=
  (log.map fun x => if x.1.record.key = key then weight x else 0).sum

/-- An entry weighs 1 if it is suppressed. -/
def suppressed (x : Entry × ℕ) : ℕ := if x.1.passed then 0 else 1

/-- At most `burst` records of a window pass, its first one among them. -/
structure Bounded (burst : ℤ) (w : List Entry) : Prop where
  atMost : (w.countP Entry.passed : ℤ) ≤ burst
  first : ∃ e rest, w = e :: rest ∧ e.passed = true

/-- The windows of every group are bounded. The records that are suppressed are those that are
announced and those that are pending, in each group and in all. -/
structure Accounted (f : ThrottledLogFilter) (log : List Entry) (last : ThrottledLogFilter) :
    Prop where
  bounded : ∀ key, ∀ w ∈ windows f.intervalSeconds (inGroup key log), Bounded f.burst w
  announced : ∃! counts, List.Forall₂ (Announces f.intervalSeconds) log counts
  groups : ∀ counts, List.Forall₂ (Announces f.intervalSeconds) log counts → ∀ key,
    total key suppressed (log.zip counts) = total key Prod.snd (log.zip counts) + last.pending key
  all : ∀ counts, List.Forall₂ (Announces f.intervalSeconds) log counts →
    (log.countP fun e => !e.passed) =
      counts.sum + ∑ key ∈ (log.map fun e => e.record.key).toFinset, last.pending key

variable {f f' : ThrottledLogFilter} {records : List (ℚ × LogRecord)} {record : LogRecord}
variable {key : Key} {now interval : ℚ} {log : List Entry} {counts : List ℕ} {n m : ℕ}

theorem filter_cases (f : ThrottledLogFilter) (now : ℚ) (record : LogRecord) :
    (f.state record.key = none ∧ f.filter now record =
      (true, record, f.setState record.key { windowStart := now, emitted := 1 })) ∨
    ∃ state, f.state record.key = some state ∧
      ((f.intervalSeconds ≤ now - state.windowStart ∧ f.filter now record =
          (true, if state.suppressed = 0 then record
            else annotateSuppressed record state.suppressed f.intervalSeconds,
            f.setState record.key { windowStart := now, emitted := 1 })) ∨
        (¬ f.intervalSeconds ≤ now - state.windowStart ∧ (state.emitted : ℤ) < f.burst ∧
          f.filter now record =
            (true, record, f.setState record.key { state with emitted := state.emitted + 1 })) ∨
        (¬ f.intervalSeconds ≤ now - state.windowStart ∧ f.filter now record =
          (false, record,
            f.setState record.key { state with suppressed := state.suppressed + 1 }))) := by
  unfold ThrottledLogFilter.filter
  cases hstate : f.state record.key with
  | none => exact Or.inl ⟨rfl, rfl⟩
  | some state =>
    refine Or.inr ⟨state, rfl, ?_⟩
    by_cases hwindow : f.intervalSeconds ≤ now - state.windowStart
    · exact Or.inl ⟨hwindow, if_pos hwindow⟩
    · simp only [if_neg hwindow]
      by_cases hburst : (state.emitted : ℤ) < f.burst
      · exact Or.inr (Or.inl ⟨hwindow, hburst, if_pos hburst⟩)
      · exact Or.inr (Or.inr ⟨hwindow, if_neg hburst⟩)

@[simp] theorem setState_self (f : ThrottledLogFilter) (key : Key) (state : GroupState) :
    (f.setState key state).state key = some state := by
  simp [setState]

theorem setState_of_ne {key' : Key} (h : key' ≠ key) (f : ThrottledLogFilter) (state : GroupState) :
    (f.setState key state).state key' = f.state key' := by
  simp [setState, h]

theorem filter_sets (f : ThrottledLogFilter) (now : ℚ) (record : LogRecord) :
    ∃ state, (f.filter now record).2.2 = f.setState record.key state := by
  rcases filter_cases f now record with ⟨-, h⟩ | ⟨state, -, ⟨-, h⟩ | ⟨-, -, h⟩ | ⟨-, h⟩⟩
  · exact ⟨_, congrArg (·.2.2) h⟩
  · exact ⟨_, congrArg (·.2.2) h⟩
  · exact ⟨_, congrArg (·.2.2) h⟩
  · exact ⟨_, congrArg (·.2.2) h⟩

theorem filter_of_ne (h : key ≠ record.key) :
    (f.filter now record).2.2.state key = f.state key := by
  obtain ⟨state, hset⟩ := filter_sets f now record
  rw [hset, setState_of_ne h]

@[simp] theorem burst_filter : (f.filter now record).2.2.burst = f.burst := by
  obtain ⟨state, hset⟩ := filter_sets f now record
  rw [hset]
  rfl

@[simp] theorem intervalSeconds_filter :
    (f.filter now record).2.2.intervalSeconds = f.intervalSeconds := by
  obtain ⟨state, hset⟩ := filter_sets f now record
  rw [hset]
  rfl

theorem annotateSuppressed_inj
    (h : annotateSuppressed record n interval = annotateSuppressed record m interval) : n = m := by
  have hmsg := congrArg (fun r => r.msg.toList) h
  simp only [annotateSuppressed, String.toList_append, List.append_assoc,
    List.append_cancel_left_eq] at hmsg
  have hdigits := List.append_cancel_right hmsg
  rw [Nat.toString_eq_repr, Nat.toString_eq_repr, Nat.toList_repr, Nat.toList_repr] at hdigits
  have hvalue := congrArg (fun l => Nat.ofDigitChars 10 l 0) hdigits
  rwa [Nat.ofDigitChars_toDigits (by omega) (by omega),
    Nat.ofDigitChars_toDigits (by omega) (by omega)] at hvalue

theorem annotateSuppressed_ne : annotateSuppressed record n interval ≠ record := by
  intro h
  have hmsg := congrArg (fun r => r.msg.toList.length) h
  simp [annotateSuppressed] at hmsg

theorem Announces.unique {e : Entry} (hn : Announces interval e n) (hm : Announces interval e m) :
    n = m := by
  rcases hn with ⟨rfl, hn⟩ | ⟨-, -, hn⟩
  · rcases hm with ⟨rfl, -⟩ | ⟨-, -, hm⟩
    · rfl
    · exact absurd (hm.symm.trans hn) annotateSuppressed_ne
  · rcases hm with ⟨rfl, hm⟩ | ⟨-, -, hm⟩
    · exact absurd (hn.symm.trans hm) annotateSuppressed_ne
    · exact annotateSuppressed_inj (hn.symm.trans hm)

theorem forall₂_unique {α : Type} {R : α → ℕ → Prop} {l : List α}
    (hR : ∀ x n m, R x n → R x m → n = m) {ns ms : List ℕ} (hn : List.Forall₂ R l ns)
    (hm : List.Forall₂ R l ms) : ns = ms := by
  induction hn generalizing ms with
  | nil => cases hm; rfl
  | cons hx _ ih =>
    cases hm with
    | cons hx' hrest => rw [hR _ _ _ hx hx', ih hrest]

/-- What a record is suppressed, announced and left pending in its group. -/
theorem filter_accounts (f : ThrottledLogFilter) (now : ℚ) (record : LogRecord) :
    ∃ n, Announces f.intervalSeconds
        ⟨now, record, (f.filter now record).1, (f.filter now record).2.1⟩ n ∧
      (if (f.filter now record).1 then 0 else 1) + f.pending record.key =
        n + (f.filter now record).2.2.pending record.key := by
  rcases filter_cases f now record with ⟨hstate, h⟩ | ⟨state, hstate, ⟨-, h⟩ | ⟨-, -, h⟩ | ⟨-, h⟩⟩
  · refine ⟨0, Or.inl ⟨rfl, by rw [h]⟩, ?_⟩
    simp [h, pending, hstate]
  · rw [h]
    by_cases hnone : state.suppressed = 0
    · refine ⟨0, Or.inl ⟨rfl, if_pos hnone⟩, ?_⟩
      simp [pending, hstate, hnone]
    · refine ⟨state.suppressed, Or.inr ⟨rfl, by omega, if_neg hnone⟩, ?_⟩
      simp [pending, hstate]
  · refine ⟨0, Or.inl ⟨rfl, by rw [h]⟩, ?_⟩
    simp [h, pending, hstate]
  · refine ⟨0, Or.inl ⟨rfl, by rw [h]⟩, ?_⟩
    simp [h, pending, hstate]
    omega

theorem filterAll_cons (now : ℚ) (record : LogRecord) (records : List (ℚ × LogRecord))
    (f : ThrottledLogFilter) : filterAll ((now, record) :: records) f =
      (⟨now, record, (f.filter now record).1, (f.filter now record).2.1⟩ ::
        (filterAll records (f.filter now record).2.2).1,
        (filterAll records (f.filter now record).2.2).2) := rfl

theorem exists_announced (records : List (ℚ × LogRecord)) (f : ThrottledLogFilter) :
    ∃ counts, List.Forall₂ (Announces f.intervalSeconds) (filterAll records f).1 counts := by
  induction records generalizing f with
  | nil => exact ⟨[], List.Forall₂.nil⟩
  | cons x records ih =>
    obtain ⟨n, hn, -⟩ := filter_accounts f x.1 x.2
    obtain ⟨counts, hcounts⟩ := ih (f.filter x.1 x.2).2.2
    rw [intervalSeconds_filter] at hcounts
    exact ⟨n :: counts, List.Forall₂.cons hn hcounts⟩

theorem total_cons (key : Key) (weight : Entry × ℕ → ℕ) (x : Entry × ℕ) (log : List (Entry × ℕ)) :
    total key weight (x :: log) =
      (if x.1.record.key = key then weight x else 0) + total key weight log := by
  simp [total]

/-- Each group is accounted for, with what was pending at the start. -/
theorem groups_accounted (f : ThrottledLogFilter)
    (h : List.Forall₂ (Announces f.intervalSeconds) (filterAll records f).1 counts) (key : Key) :
    total key suppressed ((filterAll records f).1.zip counts) + f.pending key =
      total key Prod.snd ((filterAll records f).1.zip counts) +
        (filterAll records f).2.pending key := by
  induction records generalizing f counts with
  | nil => simp [filterAll, total]
  | cons x records ih =>
    rw [filterAll_cons] at h ⊢
    dsimp only at h ⊢
    obtain ⟨n, counts, hn, hrest, rfl⟩ := List.forall₂_cons_left_iff.mp h
    have hrest' := ih (f.filter x.1 x.2).2.2 (by rwa [intervalSeconds_filter])
    obtain ⟨n', hn', hone⟩ := filter_accounts f x.1 x.2
    obtain rfl := hn.unique hn'
    rw [List.zip_cons_cons, total_cons, total_cons]
    by_cases hkey : x.2.key = key
    · subst hkey
      rw [if_pos rfl, if_pos rfl]
      simp only [suppressed]
      omega
    · have hsame : (f.filter x.1 x.2).2.2.pending key = f.pending key := by
        rw [pending, filter_of_ne (Ne.symm hkey), pending]
      rw [if_neg hkey, if_neg hkey]
      omega

theorem sum_total (weight : Entry × ℕ → ℕ) (log : List (Entry × ℕ)) (keys : Finset Key)
    (h : ∀ x ∈ log, x.1.record.key ∈ keys) :
    ∑ key ∈ keys, total key weight log = (log.map weight).sum := by
  induction log with
  | nil => simp [total]
  | cons x log ih =>
    have hx := h x List.mem_cons_self
    have hrest := ih fun y hy => h y (List.mem_cons_of_mem x hy)
    simp only [total_cons, Finset.sum_add_distrib, Finset.sum_ite_eq, if_pos hx, hrest,
      List.map_cons, List.sum_cons]

theorem countP_suppressed (h : log.length = counts.length) :
    ((log.zip counts).map suppressed).sum = log.countP fun e => !e.passed := by
  induction log generalizing counts with
  | nil => simp
  | cons e log ih =>
    cases counts with
    | nil => simp at h
    | cons n counts =>
      have hlength : log.length = counts.length := by simpa using h
      rw [List.zip_cons_cons, List.map_cons, List.sum_cons, ih hlength, List.countP_cons]
      cases hpassed : e.passed <;> simp [suppressed, hpassed]
      omega

theorem pending_new (burst : ℤ) (interval : ℚ) (key : Key) :
    (ThrottledLogFilter.new burst interval).pending key = 0 := rfl

theorem inGroup_cons (key : Key) (e : Entry) (log : List Entry) :
    inGroup key (e :: log) =
      if e.record.key = key then e :: inGroup key log else inGroup key log := by
  simp [inGroup, List.filter_cons]

/-- The rest of the window of a group that is in `state`, and the windows after it. -/
def Continues (burst : ℤ) (interval : ℚ) (log : List Entry) : Option GroupState → Prop
  | none => ∀ w ∈ windows interval log, Bounded burst w
  | some state => (state.emitted : ℤ) ≤ burst →
      (((windowsFrom interval state.windowStart log).1.countP Entry.passed : ℤ) + state.emitted ≤
        burst) ∧
      ∀ w ∈ (windowsFrom interval state.windowStart log).2, Bounded burst w

/-- A window opened at `now` is bounded, and so are those after it. -/
theorem bounded_of_opened {burst : ℤ} {e : Entry} (hburst : 1 ≤ burst) (hpassed : e.passed = true)
    (h : Continues burst interval log (some { windowStart := e.time, emitted := 1 })) :
    ∀ w ∈ (e :: (windowsFrom interval e.time log).1) :: (windowsFrom interval e.time log).2,
      Bounded burst w := by
  obtain ⟨hcount, hlater⟩ := h (by simpa using hburst)
  intro w hw
  rcases List.mem_cons.mp hw with rfl | hw
  · refine ⟨?_, e, _, rfl, hpassed⟩
    rw [List.countP_cons_of_pos hpassed]
    push_cast at hcount ⊢
    omega
  · exact hlater w hw

/-- A record of the group is put before the entries that come after it. -/
theorem continues_filter (hburst : 1 ≤ f.burst)
    (h : Continues f.burst f.intervalSeconds log ((f.filter now record).2.2.state record.key)) :
    Continues f.burst f.intervalSeconds
      (⟨now, record, (f.filter now record).1, (f.filter now record).2.1⟩ :: log)
      (f.state record.key) := by
  rcases filter_cases f now record with ⟨hstate, hf⟩ |
      ⟨state, hstate, ⟨hwindow, hf⟩ | ⟨hwindow, hroom, hf⟩ | ⟨hwindow, hf⟩⟩
  · rw [hf, setState_self] at h
    rw [hf, hstate]
    exact bounded_of_opened hburst rfl h
  · rw [hf, setState_self] at h
    rw [hf, hstate]
    intro hle
    rw [windowsFrom, if_pos hwindow]
    exact ⟨by simpa using hle, bounded_of_opened hburst rfl h⟩
  · rw [hf, setState_self] at h
    rw [hf, hstate]
    intro hle
    rw [windowsFrom, if_neg hwindow]
    obtain ⟨hcount, hlater⟩ := h (by push_cast; omega)
    refine ⟨?_, hlater⟩
    rw [List.countP_cons_of_pos rfl]
    push_cast at hcount ⊢
    omega
  · rw [hf, setState_self] at h
    rw [hf, hstate]
    intro hle
    rw [windowsFrom, if_neg hwindow]
    obtain ⟨hcount, hlater⟩ := h hle
    refine ⟨?_, hlater⟩
    rw [List.countP_cons_of_neg (by simp)]
    exact hcount

theorem continues_filterAll (hburst : 1 ≤ f.burst) (key : Key) :
    Continues f.burst f.intervalSeconds (inGroup key (filterAll records f).1) (f.state key) := by
  induction records generalizing f with
  | nil =>
    cases hstate : f.state key with
    | none =>
      intro w hw
      simp [filterAll, inGroup, windows] at hw
    | some state =>
      intro hle
      refine ⟨?_, ?_⟩
      · simpa [filterAll, inGroup, windowsFrom] using hle
      · intro w hw
        simp [filterAll, inGroup, windowsFrom] at hw
  | cons x records ih =>
    obtain ⟨now, record⟩ := x
    have hrest := ih (f := (f.filter now record).2.2) (by simpa using hburst)
    rw [burst_filter, intervalSeconds_filter] at hrest
    rw [filterAll_cons]
    dsimp only
    rw [inGroup_cons]
    by_cases hkey : record.key = key
    · subst hkey
      rw [if_pos rfl]
      exact continues_filter hburst hrest
    · rw [if_neg hkey]
      rwa [filter_of_ne (Ne.symm hkey)] at hrest

/-- Whatever the records and their times, the filter bounds what passes and forgets none. -/
theorem throttle_accounts (burst : ℤ) (interval : ℚ) (records : List (ℚ × LogRecord)) :
    Accounted (ThrottledLogFilter.new burst interval)
      (filterAll records (ThrottledLogFilter.new burst interval)).1
      (filterAll records (ThrottledLogFilter.new burst interval)).2 := by
  have hgroups : ∀ counts, List.Forall₂
      (Announces (ThrottledLogFilter.new burst interval).intervalSeconds)
      (filterAll records (ThrottledLogFilter.new burst interval)).1 counts → ∀ key,
      total key suppressed
          ((filterAll records (ThrottledLogFilter.new burst interval)).1.zip counts) =
        total key Prod.snd
            ((filterAll records (ThrottledLogFilter.new burst interval)).1.zip counts) +
          (filterAll records (ThrottledLogFilter.new burst interval)).2.pending key := by
    intro counts h key
    rw [← groups_accounted _ h key, pending_new, Nat.add_zero]
  have hburst : 1 ≤ (ThrottledLogFilter.new burst interval).burst := le_max_left 1 burst
  refine ⟨fun key => continues_filterAll hburst key, ?_, hgroups, ?_⟩
  · obtain ⟨counts, h⟩ := exists_announced records (ThrottledLogFilter.new burst interval)
    exact ⟨counts, h, fun counts' h' =>
      forall₂_unique (fun _ _ _ hn hm => hn.unique hm) h' h⟩
  · intro counts h
    have hlength := h.length_eq
    have hkeys : ∀ x ∈ (filterAll records (ThrottledLogFilter.new burst interval)).1.zip counts,
        x.1.record.key ∈ ((filterAll records (ThrottledLogFilter.new burst interval)).1.map
          fun e => e.record.key).toFinset := by
      intro x hx
      rw [List.mem_toFinset]
      exact List.mem_map_of_mem (List.of_mem_zip hx).1
    rw [← countP_suppressed hlength, ← sum_total suppressed _ _ hkeys,
      Finset.sum_congr rfl fun key _ => hgroups counts h key, Finset.sum_add_distrib,
      sum_total Prod.snd _ _ hkeys, List.map_snd_zip hlength.ge]

end Taas.LogThrottle
