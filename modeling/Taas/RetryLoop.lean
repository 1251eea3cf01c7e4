import Mathlib.Algebra.Order.Ring.Rat

/-!
The loop of a retry policy: up to `maxAttempts` calls of a function, with a wait after a failure
that is retried. A run is the list of its calls and waits, and how it ends.
-/
namespace Taas.RetryLoop

variable {E V : Type}

inductive Event
  | call
  | wait (delay : ℚ)
  deriving DecidableEq

/-- A run returns a value, raises an exception of the function or of a wait, raises the
OverflowError of a delay, or leaves the loop after the last attempt. -/
inductive End (V E : Type)
  | returned (v : V)
  | raised (e : E)
  | overflowError
  | fellThrough
  deriving DecidableEq

structure Run (V E : Type) where
  events : List Event
  outcome : End V E
  deriving DecidableEq

def Run.calls (r : Run V E) : ℕ := r.events.count .call

def Event.delay? : Event → Option ℚ
  | .call => none
  | .wait delay => some delay

def Run.waits (r : Run V E) : List ℚ := r.events.filterMap Event.delay?

def Run.after (events : List Event) (r : Run V E) : Run V E :=
  { r with events := events ++ r.events }

/-- A policy, as its loop uses it: the exceptions that the loop catches, those among them that it
retries, the delay after an attempt, and the attempts whose delay is no float. -/
structure Loop (E : Type) where
  maxAttempts : ℤ
  caught : E → Bool
  accepted : E → Bool
  delay : ℕ → ℚ
  overflows : ℕ → Bool := fun _ => false

namespace Loop

variable (l : Loop E) (outcomes : ℕ → Except E V) (thrown : ℕ → Option E)

/-- The loop over the attempts. `thrown` is what is raised in the wait after an attempt, and
`lastException` the variable that is raised after the loop. -/
def loop : List ℕ → Option E → Run V E
  | [], lastException =>
    { events := []
      outcome := match lastException with
        | some e => .raised e
        | none => .fellThrough }
  | attempt :: attempts, _ =>
    match outcomes attempt with
    | .ok v => { events := [.call], outcome := .returned v }
    | .error e =>
      if l.caught e then
        if l.accepted e = false then { events := [.call], outcome := .raised e }
        else if l.maxAttempts ≤ attempt + 1 then { events := [.call], outcome := .raised e }
        else if l.overflows attempt then { events := [.call], outcome := .overflowError }
        else
          match thrown attempt with
          | some c => { events := [.call, .wait (l.delay attempt)], outcome := .raised c }
          | none => (loop attempts (some e)).after [.call, .wait (l.delay attempt)]
      else { events := [.call], outcome := .raised e }

/-- `for attempt in range(max_attempts)`. -/
def run : Run V E := l.loop outcomes thrown (List.range l.maxAttempts.toNat) none

/-- The loop retries the exception while it has attempts left. -/
def Retried (e : E) : Prop := l.caught e = true ∧ l.accepted e = true

/-- How a run ends with the call for attempt `n`, and the events after this call. -/
inductive Ends (n : ℕ) : End V E → List Event → Prop
  | returned {v : V} : outcomes n = .ok v → Ends n (.returned v) []
  | uncaught {e : E} : outcomes n = .error e → l.caught e = false → Ends n (.raised e) []
  | rejected {e : E} : outcomes n = .error e → l.caught e = true → l.accepted e = false →
      Ends n (.raised e) []
  | exhausted {e : E} : outcomes n = .error e → l.Retried e → (n : ℤ) + 1 = l.maxAttempts →
      Ends n (.raised e) []
  | overflowed {e : E} : outcomes n = .error e → l.Retried e → (n : ℤ) + 1 < l.maxAttempts →
      l.overflows n = true → Ends n .overflowError []
  | interrupted {e c : E} : outcomes n = .error e → l.Retried e → (n : ℤ) + 1 < l.maxAttempts →
      l.overflows n = false → thrown n = some c → Ends n (.raised c) [.wait (l.delay n)]

/-- The calls and waits of the attempts `first, first + 1, …`, as many as given. -/
def retries (first count : ℕ) : List Event :=
  (List.range' first count).flatMap fun n => [.call, .wait (l.delay n)]

theorem retries_succ (first count : ℕ) : l.retries first (count + 1) =
    .call :: .wait (l.delay first) :: l.retries (first + 1) count := by
  simp [retries, List.range'_succ]

/-- A run over the attempts from `first` to `n`: all but the last one are retried. -/
structure Follows (first n : ℕ) (r : Run V E) (tail : List Event) : Prop where
  first_le : first ≤ n
  lt : (n : ℤ) < l.maxAttempts
  before : ∀ j, first ≤ j → j < n →
    (∃ e, outcomes j = .error e ∧ l.Retried e) ∧ l.overflows j = false ∧ thrown j = none
  events : r.events = l.retries first (n - first) ++ .call :: tail
  ends : l.Ends outcomes thrown n r.outcome tail

variable {l outcomes thrown} {first n : ℕ} {r : Run V E} {tail : List Event}

theorem Follows.cons {e : E} (h : l.Follows outcomes thrown (first + 1) n r tail)
    (hfails : outcomes first = .error e) (he : l.Retried e)
    (hdelay : l.overflows first = false) (hwait : thrown first = none) :
    l.Follows outcomes thrown first n (r.after [.call, .wait (l.delay first)]) tail := by
  have hle := h.first_le
  refine ⟨by omega, h.lt, ?_, ?_, h.ends⟩
  · intro j hj hjn
    by_cases heq : j = first
    · subst heq
      exact ⟨⟨e, hfails, he⟩, hdelay, hwait⟩
    · exact h.before j (by omega) hjn
  · have hcount : n - first = (n - (first + 1)) + 1 := by omega
    rw [hcount, retries_succ, Run.after, h.events]
    rfl

theorem follows_self (hlt : (first : ℤ) < l.maxAttempts) {outcome : End V E}
    (hends : l.Ends outcomes thrown first outcome tail) :
    l.Follows outcomes thrown first first { events := .call :: tail, outcome := outcome } tail where
  first_le := le_rfl
  lt := hlt
  before j hj hlt := absurd hlt (by omega)
  events := by simp [retries]
  ends := hends

theorem loop_cases (hlt : (first : ℤ) < l.maxAttempts) (attempts : List ℕ)
    (lastException : Option E) :
    (∃ outcome tail, l.Ends outcomes thrown first outcome tail ∧
      l.loop outcomes thrown (first :: attempts) lastException =
        { events := .call :: tail, outcome := outcome }) ∨
    ∃ e, outcomes first = .error e ∧ l.Retried e ∧ l.overflows first = false ∧
      thrown first = none ∧ (first : ℤ) + 1 < l.maxAttempts ∧
      l.loop outcomes thrown (first :: attempts) lastException =
        (l.loop outcomes thrown attempts (some e)).after [.call, .wait (l.delay first)] := by
  rw [loop]
  split
  · exact Or.inl ⟨_, _, .returned ‹_›, rfl⟩
  · rename_i e hfails
    split
    · rename_i hcaught
      split
      · exact Or.inl ⟨_, _, .rejected hfails hcaught ‹_›, rfl⟩
      · rename_i haccepted
        have he : l.Retried e := ⟨hcaught, by simpa using haccepted⟩
        split
        · exact Or.inl ⟨_, _, .exhausted hfails he (by omega), rfl⟩
        · have hnext : (first : ℤ) + 1 < l.maxAttempts := by omega
          split
          · exact Or.inl ⟨_, _, .overflowed hfails he hnext ‹_›, rfl⟩
          · rename_i hoverflows
            have hdelay : l.overflows first = false := Bool.eq_false_iff.mpr hoverflows
            split
            · exact Or.inl ⟨_, _, .interrupted hfails he hnext hdelay ‹_›, rfl⟩
            · exact Or.inr ⟨e, hfails, he, hdelay, ‹_›, hnext, rfl⟩
    · rename_i hcaught
      exact Or.inl ⟨_, _, .uncaught hfails (Bool.eq_false_iff.mpr hcaught), rfl⟩

theorem loop_follows (m : ℕ) (hm : l.maxAttempts = first + m + 1) (lastException : Option E) :
    ∃ n tail, l.Follows outcomes thrown first n
      (l.loop outcomes thrown (List.range' first (m + 1)) lastException) tail := by
  have hlt : (first : ℤ) < l.maxAttempts := by omega
  induction m generalizing first lastException with
  | zero =>
    rw [List.range'_succ]
    rcases loop_cases hlt (List.range' (first + 1) 0) lastException with
        ⟨outcome, tail, hends, heq⟩ | ⟨_, _, _, _, _, hnext, _⟩
    · rw [heq]
      exact ⟨first, tail, follows_self hlt hends⟩
    · omega
  | succ m ih =>
    rw [List.range'_succ]
    rcases loop_cases hlt (List.range' (first + 1) (m + 1)) lastException with
        ⟨outcome, tail, hends, heq⟩ | ⟨e, hfails, he, hdelay, hwait, hnext, heq⟩
    · rw [heq]
      exact ⟨first, tail, follows_self hlt hends⟩
    · rw [heq]
      have hm' : l.maxAttempts = ((first + 1 : ℕ) : ℤ) + m + 1 := by omega
      obtain ⟨n, tail, h⟩ := ih hm' (some e) (by push_cast; exact hnext)
      exact ⟨n, tail, h.cons hfails he hdelay hwait⟩

/-- A policy of at least one attempt runs through some of them in order. -/
theorem run_follows (h : 1 ≤ l.maxAttempts) :
    ∃ n tail, l.Follows outcomes thrown 0 n (l.run outcomes thrown) tail := by
  have hm : l.maxAttempts.toNat = (l.maxAttempts - 1).toNat + 1 := by omega
  rw [run, hm, List.range_eq_range']
  exact loop_follows (l.maxAttempts - 1).toNat (by omega) none

theorem Ends.tail_cases {outcome : End V E} (h : l.Ends outcomes thrown n outcome tail) :
    tail = [] ∨ tail = [.wait (l.delay n)] ∧ (n : ℤ) + 1 < l.maxAttempts := by
  cases h with
  | interrupted _ _ hlt _ _ => exact Or.inr ⟨rfl, hlt⟩
  | _ => exact Or.inl rfl

theorem calls_retries (first count : ℕ) : (l.retries first count).count .call = count := by
  induction count generalizing first with
  | zero => rfl
  | succ count ih =>
    rw [retries_succ]
    simp [ih]

theorem waits_retries (first count : ℕ) :
    (l.retries first count).filterMap Event.delay? = (List.range' first count).map l.delay := by
  induction count generalizing first with
  | zero => rfl
  | succ count ih =>
    rw [retries_succ, List.range'_succ, List.map_cons, ← ih (first + 1)]
    rfl

theorem Follows.calls (h : l.Follows outcomes thrown 0 n r tail) : r.calls = n + 1 := by
  rw [Run.calls, h.events, List.count_append, calls_retries]
  rcases h.ends.tail_cases with rfl | ⟨rfl, -⟩
  · simp
  · simp

theorem Follows.waits_eq (h : l.Follows outcomes thrown 0 n r tail) :
    r.waits = (List.range n).map l.delay ++ tail.filterMap Event.delay? := by
  rw [Run.waits, h.events, List.filterMap_append, waits_retries, List.range_eq_range']
  rfl

/-- The waits are the delays after the first attempts, fewer than there may be attempts. -/
theorem Follows.waits (h : l.Follows outcomes thrown 0 n r tail) :
    ∃ k : ℕ, (k : ℤ) < l.maxAttempts ∧ r.waits = (List.range k).map l.delay := by
  have hlt := h.lt
  have hwaits := h.waits_eq
  rcases h.ends.tail_cases with rfl | ⟨rfl, hnext⟩
  · exact ⟨n, hlt, by simpa using hwaits⟩
  · refine ⟨n + 1, by push_cast; exact hnext, ?_⟩
    rw [hwaits, List.range_succ, List.map_append]
    rfl

/-- Without an interrupted wait, the call that ends the run is the last event. -/
theorem Follows.tail_eq_nil (h : l.Follows outcomes thrown 0 n r tail)
    (hthrown : ∀ j, thrown j = none) : tail = [] := by
  have hends := h.ends
  generalize r.outcome = outcome at hends
  cases hends with
  | interrupted _ _ _ _ hc => simp [hthrown n] at hc
  | _ => rfl

end Loop

/-- Every wait lies between two calls. -/
def Run.WaitsBetweenCalls (r : Run V E) : Prop :=
  ∀ before delay after, r.events = before ++ .wait delay :: after →
    (∃ before', before = before' ++ [.call]) ∧ ∃ after', after = .call :: after'

theorem Loop.between_retries {l : Loop E} (first count : ℕ) {before after : List Event} {d : ℚ}
    (h : l.retries first count ++ [.call] = before ++ .wait d :: after) :
    (∃ before', before = before' ++ [.call]) ∧ ∃ after', after = .call :: after' := by
  induction count generalizing first before with
  | zero =>
    have hmem : Event.wait d ∈ l.retries first 0 ++ [.call] := by
      rw [h]
      simp
    simp [retries] at hmem
  | succ count ih =>
    rw [retries_succ] at h
    match before with
    | [] => simp at h
    | [x] =>
      simp only [List.cons_append, List.nil_append, List.cons.injEq] at h
      obtain ⟨rfl, -, rfl⟩ := h
      refine ⟨⟨[], rfl⟩, ?_⟩
      cases count with
      | zero => exact ⟨[], by simp [retries]⟩
      | succ count =>
        rw [retries_succ]
        exact ⟨_, rfl⟩
    | x :: y :: before =>
      simp only [List.cons_append, List.cons.injEq] at h
      obtain ⟨rfl, rfl, hrest⟩ := h
      obtain ⟨⟨before', rfl⟩, hafter⟩ := ih (first + 1) hrest
      exact ⟨⟨_ :: _ :: before', rfl⟩, hafter⟩

theorem Loop.Follows.waitsBetweenCalls {l : Loop E} {outcomes : ℕ → Except E V}
    {thrown : ℕ → Option E} {n : ℕ} {r : Run V E} (h : l.Follows outcomes thrown 0 n r []) :
    r.WaitsBetweenCalls := by
  intro before d after heq
  rw [h.events] at heq
  exact Loop.between_retries 0 (n - 0) heq

end Taas.RetryLoop
