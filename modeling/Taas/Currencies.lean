import Mathlib.Tactic.Linarith
import Taas.Decimals
import Taas.Fallible

/-!
Amounts of money. Their sums and differences are those of decimals in the default context, so a
number with more digits than the context keeps is rounded.
-/
namespace Taas.Currencies

open Decimals

inductive Currency
  | usd
  | eur
  | gbp
  | btc
  | eth
  deriving DecidableEq

def Currency.format : Currency → String
  | usd => "USD"
  | eur => "EUR"
  | gbp => "GBP"
  | btc => "BTC"
  | eth => "ETH"

inductive Err
  | validation (message : String)
  | signal (signal : Signal)
  deriving DecidableEq

/-- An amount that `__post_init__` accepted. -/
structure Amount where
  value : Decimal
  currency : Currency
  accepted : negative value = .ok false
  deriving DecidableEq

/-- A decimal operation inside a method. -/
def lift {α : Type} : Except Signal α → Except Err α
  | .ok a => .ok a
  | .error signal => .error (.signal signal)

def new (value : Decimal) (currency : Currency) : Except Err Amount :=
  match h : negative value with
  | .ok false => .ok ⟨value, currency, h⟩
  | .ok true => .error (.validation "Amount cannot be negative")
  | .error signal => .error (.signal signal)

namespace Amount

def add (self other : Amount) : Except Err Amount :=
  if self.currency ≠ other.currency then
    .error (.validation ("Cannot add different currencies: " ++ self.currency.format ++ " and " ++
      other.currency.format))
  else do
    let value ← lift (Decimals.add Context.default self.value other.value)
    new value self.currency

def subtract (self other : Amount) : Except Err Amount :=
  if self.currency ≠ other.currency then
    .error (.validation ("Cannot subtract different currencies: " ++ self.currency.format ++
      " and " ++ other.currency.format))
  else do
    let resultValue ← lift (sub Context.default self.value other.value)
    if ← lift (negative resultValue) then .error (.validation "Result cannot be negative")
    else new resultValue self.currency

/-- The number that a finite amount is. -/
def number (self : Amount) : Option ℚ := Decimals.value self.value

end Amount

/-- The number can be written with 28 digits and an exponent of the default context. -/
def Exact (x : ℚ) : Prop := Context.default.Fits x

/-- The operation gives an amount of this number in this currency. -/
def Gives (result : Except Err Amount) (x : ℚ) (currency : Currency) : Prop :=
  ∃ s, result = .ok s ∧ s.number = some x ∧ s.currency = currency

variable {a b c s : Amount} {x y z : ℚ}

theorem nonneg_of_number (h : a.number = some x) : 0 ≤ x := by
  have haccepted := a.accepted
  rw [negative_iff h] at haccepted
  simpa using haccepted

theorem new_value {v : Decimal} {currency : Currency} (h : new v currency = .ok s) :
    s.value = v ∧ s.currency = currency := by
  unfold new at h
  split at h
  · cases h
    exact ⟨rfl, rfl⟩
  · cases h
  · cases h

theorem new_of_number {v : Decimal} (currency : Currency) (hv : value v = some x) (hx : 0 ≤ x) :
    ∃ s, new v currency = .ok s ∧ s.number = some x ∧ s.currency = currency := by
  have hnegative : negative v = .ok false := by simp [negative_iff hv, hx]
  unfold new
  split
  · exact ⟨_, rfl, hv, rfl⟩
  · rename_i h
    simp [hnegative] at h
  · rename_i h
    simp [hnegative] at h

theorem add_commutes (h : a.currency = b.currency) : a.add b = b.add a := by
  simp only [Amount.add, h, Decimals.add_commutes Context.default a.value b.value]

theorem lift_ok {α : Type} {result : Except Signal α} {r : α} (h : lift result = .ok r) :
    result = .ok r := by
  cases result with
  | ok r' =>
    cases h
    rfl
  | error signal => cases h

theorem add_ok (hcurrency : a.currency = b.currency) (h : a.add b = .ok s) :
    Decimals.add Context.default a.value b.value = .ok s.value ∧ s.currency = a.currency := by
  simp only [Amount.add, hcurrency, ne_eq, not_true_eq_false, if_false] at h
  obtain ⟨r, hr, hs⟩ := Fallible.bind_ok h
  obtain ⟨hvalue, hsame⟩ := new_value hs
  exact ⟨hvalue ▸ lift_ok hr, hsame.trans hcurrency.symm⟩

/-- A sum loses no digit exactly when it can be written. -/
theorem add_gives_iff (hcurrency : a.currency = b.currency) (hx : a.number = some x)
    (hy : b.number = some y) : Gives (a.add b) (x + y) a.currency ↔ Exact (x + y) := by
  rw [Exact, ← add_iff hx hy]
  constructor
  · intro h
    obtain ⟨s, hs, hnumber, _⟩ := h
    exact ⟨s.value, (add_ok hcurrency hs).1, hnumber⟩
  · intro h
    obtain ⟨r, hr, hvalue⟩ := h
    have hnonneg := add_nonneg (nonneg_of_number hx) (nonneg_of_number hy)
    obtain ⟨s, hs, hnumber, hsame⟩ := new_of_number a.currency hvalue hnonneg
    refine ⟨s, ?_, hnumber, hsame⟩
    simp only [Amount.add, hcurrency, ne_eq, not_true_eq_false, if_false, hr, lift]
    rw [← hcurrency]
    exact hs

theorem subtract_ok (hcurrency : a.currency = b.currency) (h : a.subtract b = .ok s) :
    sub Context.default a.value b.value = .ok s.value := by
  simp only [Amount.subtract, hcurrency, ne_eq, not_true_eq_false, if_false] at h
  obtain ⟨r, hr, h⟩ := Fallible.bind_ok h
  obtain ⟨isNegative, _, h⟩ := Fallible.bind_ok h
  cases isNegative with
  | true => cases h
  | false => exact (new_value h).1 ▸ lift_ok hr

/-- A difference that can be written is found, and refused when it is negative. -/
theorem subtract_of_exact (hcurrency : a.currency = b.currency) (hx : a.number = some x)
    (hy : b.number = some y) (h : Exact (x - y)) :
    if x < y then a.subtract b = .error (.validation "Result cannot be negative")
    else Gives (a.subtract b) (x - y) a.currency := by
  obtain ⟨r, hr, hvalue⟩ := (sub_iff hx hy).mpr h
  have hnegative := negative_iff hvalue
  split
  · rename_i hlt
    simp [Amount.subtract, hcurrency, hr, lift, hnegative, hlt, bind, Except.bind]
  · rename_i hle
    have hnonneg : 0 ≤ x - y := by linarith
    obtain ⟨s, hs, hnumber, hsame⟩ := new_of_number a.currency hvalue hnonneg
    refine ⟨s, ?_, hnumber, hsame⟩
    rw [hcurrency] at hs
    simp [Amount.subtract, hcurrency, hr, lift, hnegative, hle, bind, Except.bind, hs]

theorem subtract_gives_iff (hcurrency : a.currency = b.currency) (hx : a.number = some x)
    (hy : b.number = some y) (hle : y ≤ x) :
    Gives (a.subtract b) (x - y) a.currency ↔ Exact (x - y) := by
  constructor
  · intro h
    obtain ⟨s, hs, hnumber, _⟩ := h
    exact (sub_iff hx hy).mp ⟨s.value, subtract_ok hcurrency hs, hnumber⟩
  · intro h
    have hresult := subtract_of_exact hcurrency hx hy h
    rwa [if_neg (not_lt.mpr hle)] at hresult

theorem add_subtract (hcurrency : a.currency = b.currency) (hx : a.number = some x)
    (hy : b.number = some y) (hexact : Exact x) (hsum : Exact (x + y)) :
    Gives (do (← a.add b).subtract b) x a.currency := by
  obtain ⟨s, hs, hnumber, hsame⟩ := (add_gives_iff hcurrency hx hy).mpr hsum
  have hle : y ≤ x + y := by linarith [nonneg_of_number hx]
  have hback :=
    (subtract_gives_iff (hsame.trans hcurrency) hnumber hy hle).mpr (by simpa using hexact)
  simpa [hs, hsame, bind, Except.bind] using hback

theorem add_add (hab : a.currency = b.currency) (hbc : b.currency = c.currency)
    (hx : a.number = some x) (hy : b.number = some y) (hz : c.number = some z)
    (hleft : Exact (x + y)) (hright : Exact (y + z)) (hall : Exact (x + y + z)) :
    Gives (do (← a.add b).add c) (x + y + z) a.currency ∧
      Gives (do a.add (← b.add c)) (x + y + z) a.currency := by
  obtain ⟨s, hs, hsnumber, hsame⟩ := (add_gives_iff hab hx hy).mpr hleft
  obtain ⟨t, ht, htnumber, htsame⟩ := (add_gives_iff hbc hy hz).mpr hright
  have hsc := hsame.trans (hab.trans hbc)
  have hat := hab.trans htsame.symm
  constructor
  · have h := (add_gives_iff hsc hsnumber hz).mpr hall
    simpa [hs, hsame, bind, Except.bind] using h
  · rw [add_assoc] at hall ⊢
    have h := (add_gives_iff hat hx htnumber).mpr hall
    simpa [ht, bind, Except.bind] using h

/-- Sums are the same both ways round, and a difference is not negative. Where the exact results can
be written in the context no digit is lost, one operation or several. -/
theorem amount_laws (hab : a.currency = b.currency) (hbc : b.currency = c.currency) :
    a.add b = b.add a ∧
      (∀ d, a.subtract b = .ok d → negative d.value = .ok false) ∧
      ∀ x y z, a.number = some x → b.number = some y → c.number = some z →
        (Gives (a.add b) (x + y) a.currency ↔ Exact (x + y)) ∧
        (y ≤ x → (Gives (a.subtract b) (x - y) a.currency ↔ Exact (x - y))) ∧
        (x < y → Exact (x - y) →
          a.subtract b = .error (.validation "Result cannot be negative")) ∧
        (Exact x → Exact (x + y) → Gives (do (← a.add b).subtract b) x a.currency) ∧
        (Exact (x + y) → Exact (y + z) → Exact (x + y + z) →
          Gives (do (← a.add b).add c) (x + y + z) a.currency ∧
            Gives (do a.add (← b.add c)) (x + y + z) a.currency) := by
  refine ⟨add_commutes hab, fun d _ => d.accepted, ?_⟩
  intro x y z hx hy hz
  refine ⟨add_gives_iff hab hx hy, subtract_gives_iff hab hx hy, ?_, add_subtract hab hx hy,
    add_add hab hbc hx hy hz⟩
  intro hlt hexact
  have hresult := subtract_of_exact hab hx hy hexact
  rwa [if_pos hlt] at hresult

def dollars (coefficient : ℕ) : Amount := ⟨.finite coefficient 0, .usd, by simp [negative]⟩

theorem number_dollars (n : ℕ) : (dollars n).number = some (n : ℚ) := by
  simp [Amount.number, dollars, value, scaled]

theorem exact_of_lt {n : ℕ} (h : n < 10) : Exact n := by
  refine ⟨⟨n, 0, by simp [scaled], ?_, by decide⟩, ?_⟩
  · have hprec : 10 < 10 ^ Context.default.prec := by decide
    simp only [Int.natAbs_natCast]
    omega
  · have hlt : (n : ℚ) < 10 ^ (1 : ℤ) := by
      rw [zpow_one]
      exact_mod_cast h
    rw [abs_of_nonneg (Nat.cast_nonneg n)]
    exact hlt.trans_le (zpow_le_zpow_right₀ (by norm_num) (by decide))

theorem amount_laws_dollars :
    Gives (do (← (dollars 1).add (dollars 2)).subtract (dollars 2)) 1 .usd := by
  have hone : Exact ((1 : ℕ) : ℚ) := exact_of_lt (by norm_num)
  have hthree : Exact (((1 : ℕ) : ℚ) + ((2 : ℕ) : ℚ)) := by
    have h : Exact ((3 : ℕ) : ℚ) := exact_of_lt (by norm_num)
    norm_num at h ⊢
    exact h
  have hlaws := (amount_laws (a := dollars 1) (b := dollars 2) (c := dollars 3) rfl rfl).2.2 _ _ _
    (number_dollars 1) (number_dollars 2) (number_dollars 3)
  have h := hlaws.2.2.2.1 hone hthree
  rwa [Nat.cast_one] at h

/-- One dollar is lost in a sum of 29 digits. -/
theorem dollar_lost :
    ¬∀ (a b : Amount) (x : ℚ), a.currency = b.currency → a.number = some x →
      ∃ s, (do (← a.add b).subtract b) = Except.ok s ∧ s.number = some x := by
  intro hall
  have hone : (dollars 1).number = some 1 := by simpa using number_dollars 1
  have hzero : (do (← (dollars 1).add (dollars (10 ^ 28))).subtract (dollars (10 ^ 28))) =
      .ok (dollars 0) := by decide +kernel
  obtain ⟨s, hs, hnumber⟩ := hall (dollars 1) (dollars (10 ^ 28)) 1 rfl hone
  rw [hzero] at hs
  cases hs
  simp [number_dollars] at hnumber

end Taas.Currencies
