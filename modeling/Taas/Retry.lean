import Mathlib.Data.Int.Basic

/-!
The retry loop of `TenacityRetry.execute_async`. A call that returns ends it; a call that
raises is repeated until the attempts are used up, and then its exception is raised. The
waits between the calls and the signal handlers do not touch what the calls work on.
-/
namespace Taas.Retry

variable {S R : Type}

/-- `execute_async` without `should_retry`, with the attempts that are left. The function
works on a state; its exceptions are their texts. -/
def executeAsync (func : S → Except String R × S) : ℕ → S → Except String R × S
  | 0, s => (.error "Retry logic error – no exception but no success", s)
  | attempts + 1, s =>
    match func s with
    | (.ok result, s') => (.ok result, s')
    | (.error e, s') => if attempts = 0 then (.error e, s') else executeAsync func attempts s'

/-- The calls that are made, from call number `n` on: up to the first that returns. -/
def calls (returns : ℕ → Bool) : ℕ → ℕ → ℕ
  | 0, _ => 0
  | attempts + 1, n => if returns n then 1 else calls returns attempts (n + 1) + 1

variable {func : S → Except String R × S} {returns : ℕ → Bool} {I : ℕ → S → Prop}

theorem calls_pos (returns : ℕ → Bool) (attempts n : ℕ) : 0 < calls returns (attempts + 1) n := by
  unfold calls
  split <;> omega

theorem calls_eq_zero_iff (returns : ℕ → Bool) (attempts n : ℕ) :
    calls returns attempts n = 0 ↔ attempts = 0 := by
  cases attempts with
  | zero => exact iff_of_true rfl rfl
  | succ attempts =>
    have hpos := calls_pos returns attempts n
    omega

theorem raises_before_succ (returns : ℕ → Bool) (n c : ℕ) :
    (∀ j, j + 1 < c + 2 → returns (n + j) = false) ↔
      returns n = false ∧ ∀ j, j + 1 < c + 1 → returns (n + 1 + j) = false := by
  constructor
  · intro h
    refine ⟨h 0 (by omega), ?_⟩
    intro j hj
    rw [Nat.add_assoc, Nat.add_comm 1 j]
    apply h
    omega
  · rintro ⟨hfirst, hrest⟩ j hj
    cases j with
    | zero => exact hfirst
    | succ j =>
      have hnext := hrest j (by omega)
      rwa [Nat.add_assoc, Nat.add_comm 1 j] at hnext

/-- `b` calls are made when those before the last one raise, and the last one returns or is
the last attempt. -/
theorem calls_eq_iff (attempts n b : ℕ) (hb : 0 < b) : calls returns attempts n = b ↔
    b ≤ attempts ∧ (∀ j, j + 1 < b → returns (n + j) = false) ∧
      (b < attempts → returns (n + (b - 1)) = true) := by
  induction attempts generalizing n b with
  | zero =>
    simp only [calls]
    omega
  | succ attempts ih =>
    obtain rfl | ⟨c, rfl⟩ : b = 1 ∨ ∃ c, b = c + 2 := by
      by_cases hone : b = 1
      · exact Or.inl hone
      · exact Or.inr ⟨b - 2, by omega⟩
    · -- one call, which returns or is the last attempt
      have hnone := calls_eq_zero_iff returns attempts (n + 1)
      cases hfirst : returns n with
      | true => simp [calls, hfirst]
      | false =>
        simp [calls, hfirst]
        omega
    · have hlast : n + (c + 2 - 1) = n + 1 + (c + 1 - 1) := by omega
      rw [raises_before_succ, hlast]
      cases hfirst : returns n with
      | true => simp [calls, hfirst]
      | false =>
        have hrest := ih (n + 1) (c + 1) (by omega)
        have hsucc : c + 2 = c + 1 + 1 := rfl
        simp only [calls, hfirst, Bool.false_eq_true, if_false, true_and]
        rw [hsucc, Nat.succ_inj, hrest, Nat.succ_le_succ_iff, Nat.succ_lt_succ_iff]

/-- What every call keeps holds after the loop, at the number of calls made. -/
theorem executeAsync_calls
    (hcall : ∀ n s, I n s → I (n + 1) (func s).2 ∧ ((func s).1.isOk = returns n)) :
    ∀ attempts n s, I n s →
      I (n + calls returns attempts n) (executeAsync func attempts s).2 := by
  intro attempts
  induction attempts with
  | zero => exact fun n s hs => hs
  | succ attempts ih =>
    intro n s hs
    obtain ⟨hnext, hreturns⟩ := hcall n s hs
    unfold executeAsync calls
    cases hf : func s with
    | mk result s' =>
      rw [hf] at hnext hreturns
      cases result with
      | ok r =>
        have hends : returns n = true := hreturns.symm
        rw [if_pos hends]
        exact hnext
      | error e =>
        have hraises : returns n = false := hreturns.symm
        simp only [hraises, Bool.false_eq_true, if_false]
        split
        · rename_i hzero
          subst hzero
          exact hnext
        · have hrest := ih (n + 1) s' hnext
          rwa [show n + 1 + calls returns attempts (n + 1) =
            n + (calls returns attempts (n + 1) + 1) by omega] at hrest

/-- What holds of the outcome of every call holds of the outcome of the loop. -/
theorem executeAsync_outcome {Q : Except String R → Prop}
    (hcall : ∀ n s, I n s → I (n + 1) (func s).2 ∧ Q (func s).1) :
    ∀ attempts n s, I n s → Q (executeAsync func (attempts + 1) s).1 := by
  intro attempts
  induction attempts with
  | zero =>
    intro n s hs
    obtain ⟨-, hq⟩ := hcall n s hs
    unfold executeAsync
    cases hf : func s with
    | mk result s' =>
      rw [hf] at hq
      cases result <;> exact hq
  | succ attempts ih =>
    intro n s hs
    obtain ⟨hnext, hq⟩ := hcall n s hs
    unfold executeAsync
    cases hf : func s with
    | mk result s' =>
      rw [hf] at hnext hq
      cases result with
      | ok r => exact hq
      | error e => exact ih (n + 1) s' hnext

/-- What every call leaves holds after the loop, which makes a call. -/
theorem executeAsync_called {J : S → Prop} (hcall : ∀ s, J (func s).2) (attempts : ℕ) (s : S) :
    J (executeAsync func (attempts + 1) s).2 := by
  induction attempts generalizing s with
  | zero =>
    have hs := hcall s
    unfold executeAsync
    cases hf : func s with
    | mk result s' =>
      rw [hf] at hs
      cases result <;> exact hs
  | succ attempts ih =>
    have hs := hcall s
    unfold executeAsync
    cases hf : func s with
    | mk result s' =>
      rw [hf] at hs
      cases result with
      | ok r => exact hs
      | error e => exact ih s'

theorem executeAsync_keeps {J : S → Prop} (hcall : ∀ s, J s → J (func s).2) :
    ∀ attempts s, J s → J (executeAsync func attempts s).2 := by
  intro attempts
  induction attempts with
  | zero => exact fun s hs => hs
  | succ attempts ih =>
    intro s hs
    have hnext := hcall s hs
    unfold executeAsync
    cases hf : func s with
    | mk result s' =>
      rw [hf] at hnext
      cases result with
      | ok r => exact hnext
      | error e =>
        dsimp only
        split
        · exact hnext
        · exact ih s' hnext

theorem executeAsync_map {S' R' : Type} {func' : S' → Except String R' × S'} {f : S → S'}
    {g : R → R'} (hcall : ∀ s, func' (f s) = ((func s).1.map g, f (func s).2)) :
    ∀ attempts s, executeAsync func' attempts (f s) =
      ((executeAsync func attempts s).1.map g, f (executeAsync func attempts s).2) := by
  intro attempts
  induction attempts with
  | zero => exact fun s => rfl
  | succ attempts ih =>
    intro s
    have hs := hcall s
    unfold executeAsync
    rw [hs]
    cases hf : func s with
    | mk result s' =>
      cases result with
      | ok r => rfl
      | error e =>
        simp only [Except.map]
        split
        · rfl
        · exact ih s'

end Taas.Retry
