import Mathlib.Algebra.Order.Field.Power
import Mathlib.Algebra.Order.Ring.Rat
import Mathlib.Data.Nat.Log
import Mathlib.Tactic.Positivity
import Mathlib.Tactic.Ring

/-!
Decimal addition with a context, as Python's `decimal` has it. The exact sum is rounded to the
precision, half to even, and no further than the smallest exponent. A sum that is too large raises.
The sign of a zero is left out: it makes no difference to any value.
-/
namespace Taas.Decimals

inductive Decimal
  | finite (coefficient exponent : ℤ)
  | infinity (negative : Bool)
  | nan
  deriving DecidableEq

/-- The signals that are raised. -/
inductive Signal
  | overflow
  | invalidOperation
  deriving DecidableEq

structure Context where
  prec : ℕ
  emin : ℤ
  emax : ℤ
  prec_pos : 1 ≤ prec
  emin_le : emin ≤ emax

namespace Context

def default : Context := ⟨28, -999999, 999999, by decide, by decide⟩

def etiny (ctx : Context) : ℤ := ctx.emin - ctx.prec + 1

def etop (ctx : Context) : ℤ := ctx.emax - ctx.prec + 1

end Context

/-- The number of digits of a coefficient other than zero. -/
def numDigits (c : ℤ) : ℕ := Nat.log 10 c.natAbs + 1

/-- A coefficient without its last digits. -/
def roundHalfEven (c : ℤ) (dropped : ℕ) : ℤ :=
  let quotient := c / 10 ^ dropped
  let rest := c % 10 ^ dropped
  if 2 * rest < 10 ^ dropped then quotient
  else if 10 ^ dropped < 2 * rest then quotient + 1
  else if quotient % 2 = 0 then quotient else quotient + 1

def fix (ctx : Context) (c e : ℤ) : Except Signal Decimal :=
  if c = 0 then .ok (.finite 0 (min (max e ctx.etiny) ctx.emax))
  else if ctx.etop < numDigits c + e - ctx.prec then .error .overflow
  else
    let expMin := max (numDigits c + e - ctx.prec) ctx.etiny
    if e < expMin then
      let rounded := roundHalfEven c (expMin - e).toNat
      if rounded.natAbs < 10 ^ ctx.prec then
        if ctx.etop < expMin then .error .overflow else .ok (.finite rounded expMin)
      else if ctx.etop < expMin + 1 then .error .overflow
      else .ok (.finite (rounded / 10) (expMin + 1))
    else .ok (.finite c e)

/-- The sum of two coefficients, each scaled to the smaller exponent. -/
def exactSum (c e d f : ℤ) : ℤ :=
  c * 10 ^ (e - min e f).toNat + d * 10 ^ (f - min e f).toNat

def add (ctx : Context) : Decimal → Decimal → Except Signal Decimal
  | .nan, _ => .ok .nan
  | _, .nan => .ok .nan
  | .infinity s, .infinity t =>
    if s = t then .ok (.infinity s) else .error .invalidOperation
  | .infinity s, _ => .ok (.infinity s)
  | _, .infinity t => .ok (.infinity t)
  | .finite c e, .finite d f => fix ctx (exactSum c e d f) (min e f)

/-- `copy_negate` -/
def negate : Decimal → Decimal
  | .finite c e => .finite (-c) e
  | .infinity s => .infinity !s
  | .nan => .nan

def sub (ctx : Context) (x y : Decimal) : Except Signal Decimal := add ctx x (negate y)

/-- `x < 0`, which a NaN has no answer to. -/
def negative : Decimal → Except Signal Bool
  | .finite c _ => .ok (c < 0)
  | .infinity s => .ok s
  | .nan => .error .invalidOperation

def scaled (c e : ℤ) : ℚ := c * 10 ^ e

/-- The number that a finite decimal is. -/
def value : Decimal → Option ℚ
  | .finite c e => some (scaled c e)
  | _ => none

/-- The number can be written with the digits and the exponents of the context. -/
structure Context.Fits (ctx : Context) (x : ℚ) : Prop where
  written : ∃ c e : ℤ, x = scaled c e ∧ c.natAbs < 10 ^ ctx.prec ∧ ctx.etiny ≤ e
  bounded : |x| < 10 ^ (ctx.emax + 1)

variable {ctx : Context} {c d e f : ℤ} {x y z : ℚ} {r : Decimal}

theorem scaled_shift (c : ℤ) {e f : ℤ} (h : f ≤ e) :
    scaled c e = scaled (c * 10 ^ (e - f).toNat) f := by
  have hsplit : (10 : ℚ) ^ e = 10 ^ (e - f).toNat * 10 ^ f := by
    rw [← zpow_natCast, ← zpow_add₀ (by norm_num), Int.toNat_of_nonneg (by omega)]
    congr 1
    omega
  simp only [scaled, hsplit]
  push_cast
  ring

theorem scaled_exactSum (c e d f : ℤ) :
    scaled (exactSum c e d f) (min e f) = scaled c e + scaled d f := by
  rw [scaled_shift c (min_le_left e f), scaled_shift d (min_le_right e f)]
  simp only [scaled, exactSum]
  push_cast
  ring

theorem scaled_neg (c e : ℤ) : scaled (-c) e = -scaled c e := by
  simp [scaled]

theorem abs_scaled (c e : ℤ) : |scaled c e| = (c.natAbs : ℚ) * 10 ^ e := by
  rw [scaled, abs_mul, abs_of_pos (zpow_pos (by norm_num : (0 : ℚ) < 10) e), Nat.cast_natAbs,
    Int.cast_abs]

theorem scaled_bounds (hc : c ≠ 0) (e : ℤ) :
    (10 : ℚ) ^ (numDigits c + e - 1) ≤ |scaled c e| ∧ |scaled c e| < 10 ^ (numDigits c + e) := by
  have hpos : (0 : ℚ) < 10 ^ e := zpow_pos (by norm_num) e
  have hne : c.natAbs ≠ 0 := by simpa using hc
  have hlow : (10 : ℚ) ^ Nat.log 10 c.natAbs ≤ c.natAbs := by
    exact_mod_cast Nat.pow_log_le_self 10 hne
  have hhigh : (c.natAbs : ℚ) < 10 ^ (Nat.log 10 c.natAbs + 1) := by
    exact_mod_cast Nat.lt_pow_succ_log_self (by norm_num) c.natAbs
  rw [abs_scaled]
  constructor
  · have hexp : (numDigits c : ℤ) + e - 1 = Nat.log 10 c.natAbs + e := by
      simp only [numDigits]
      push_cast
      ring
    rw [hexp, zpow_add₀ (by norm_num), zpow_natCast]
    exact mul_le_mul_of_nonneg_right hlow hpos.le
  · rw [zpow_add₀ (by norm_num), zpow_natCast]
    exact mul_lt_mul_of_pos_right hhigh hpos

theorem natAbs_roundHalfEven_le {digits dropped : ℕ} (h : c.natAbs < 10 ^ (digits + dropped)) :
    (roundHalfEven c dropped).natAbs ≤ 10 ^ digits := by
  have hpos : (0 : ℤ) < 10 ^ dropped := by positivity
  have hc : |c| < 10 ^ digits * 10 ^ dropped := by
    rw [Int.abs_eq_natAbs, ← pow_add]
    exact_mod_cast h
  have hlow : -10 ^ digits ≤ c / 10 ^ dropped := by
    apply Int.le_ediv_of_mul_le hpos
    rw [neg_mul]
    exact (abs_lt.mp hc).1.le
  have hhigh : c / 10 ^ dropped < 10 ^ digits := Int.ediv_lt_of_lt_mul hpos (abs_lt.mp hc).2
  have hrounded : -10 ^ digits ≤ roundHalfEven c dropped ∧
      roundHalfEven c dropped ≤ 10 ^ digits := by
    simp only [roundHalfEven]
    split
    · omega
    · split
      · omega
      · split <;> omega
  have habs : |roundHalfEven c dropped| ≤ 10 ^ digits := abs_le.mpr hrounded
  rw [Int.abs_eq_natAbs] at habs
  exact_mod_cast habs

theorem roundHalfEven_mul (q : ℤ) (dropped : ℕ) : roundHalfEven (q * 10 ^ dropped) dropped = q := by
  have hpos : (0 : ℤ) < 10 ^ dropped := by positivity
  simp [roundHalfEven, hpos, hpos.ne']

theorem natAbs_lt_pow {k : ℕ} (h : numDigits c ≤ k) : c.natAbs < 10 ^ k := by
  have hlog : c.natAbs < 10 ^ numDigits c := Nat.lt_pow_succ_log_self (by norm_num) _
  exact hlog.trans_le (Nat.pow_le_pow_right (by norm_num) h)

/-- What comes out of the rounding can be written, and what was rounded is not too large. -/
theorem fix_fits (h : fix ctx c e = .ok r) :
    ∃ q g, r = .finite q g ∧ q.natAbs < 10 ^ ctx.prec ∧ ctx.etiny ≤ g ∧
      |scaled c e| < 10 ^ (ctx.emax + 1) := by
  have hten : (0 : ℚ) < 10 := by norm_num
  have hprec := ctx.prec_pos
  have hemin := ctx.emin_le
  unfold fix at h
  split at h
  · rename_i hc
    cases h
    refine ⟨0, _, rfl, by simp, ?_, ?_⟩
    · simp only [Context.etiny]
      omega
    · simpa [hc, scaled] using zpow_pos hten _
  · rename_i hc
    split at h
    · cases h
    · rename_i hsize
      have hbound : |scaled c e| < 10 ^ (ctx.emax + 1) := by
        refine (scaled_bounds hc e).2.trans_le (zpow_le_zpow_right₀ (by norm_num) ?_)
        simp only [Context.etop] at hsize
        omega
      dsimp only at h
      split at h
      · rename_i he
        have hdigits : c.natAbs < 10 ^ (ctx.prec +
            (max (numDigits c + e - ctx.prec) ctx.etiny - e).toNat) :=
          natAbs_lt_pow (by omega)
        have hrounded := natAbs_roundHalfEven_le hdigits
        split at h
        · rename_i hfull
          split at h
          · cases h
          · cases h
            exact ⟨_, _, rfl, hfull, le_max_right _ _, hbound⟩
        · split at h
          · cases h
          · cases h
            refine ⟨_, _, rfl, ?_, ?_, hbound⟩
            · have hP : 10 ≤ 10 ^ ctx.prec := by
                calc 10 = 10 ^ 1 := by norm_num
                  _ ≤ 10 ^ ctx.prec := Nat.pow_le_pow_right (by norm_num) hprec
              omega
            · omega
      · rename_i he
        cases h
        exact ⟨c, e, rfl, natAbs_lt_pow (by omega), by omega, hbound⟩

theorem scaled_inj (h : scaled c e = scaled d e) : c = d := by
  have hpos : (10 : ℚ) ^ e ≠ 0 := by positivity
  have hcast := mul_right_cancel₀ hpos h
  exact_mod_cast hcast

/-- A number that can be written has no digit below what the rounding keeps. -/
theorem le_of_written (hc : c ≠ 0) (hwritten : scaled c e = scaled d f)
    (hd : d.natAbs < 10 ^ ctx.prec) (hf : ctx.etiny ≤ f) :
    max (numDigits c + e - ctx.prec) ctx.etiny ≤ f := by
  by_contra hlt
  have hlow := (scaled_bounds hc e).1
  have hpos : (0 : ℚ) < 10 ^ f := by positivity
  have hhigh : |scaled d f| < 10 ^ (ctx.prec + f) := by
    rw [abs_scaled, zpow_add₀ (by norm_num), zpow_natCast]
    have hd' : (d.natAbs : ℚ) < 10 ^ ctx.prec := by exact_mod_cast hd
    exact mul_lt_mul_of_pos_right hd' hpos
  rw [← hwritten] at hhigh
  have hexp := (zpow_lt_zpow_iff_right₀ (by norm_num)).mp (hlow.trans_lt hhigh)
  omega

/-- The digits that are dropped of a number that can be written are zeros. -/
theorem exists_dropped {g : ℤ} (hwritten : scaled c e = scaled d f) (heg : e ≤ g) (hgf : g ≤ f) :
    ∃ q, c = q * 10 ^ (g - e).toNat := by
  rw [scaled_shift d (heg.trans hgf)] at hwritten
  refine ⟨d * 10 ^ (f - g).toNat, ?_⟩
  have hsplit : (f - e).toNat = (f - g).toNat + (g - e).toNat := by omega
  rw [scaled_inj hwritten, hsplit, pow_add]
  ring

theorem fix_exact (h : ctx.Fits (scaled c e)) :
    ∃ r, fix ctx c e = .ok r ∧ value r = some (scaled c e) := by
  have hprec := ctx.prec_pos
  have hemin := ctx.emin_le
  unfold fix
  split
  · rename_i hc
    exact ⟨_, rfl, by simp [value, scaled, hc]⟩
  · rename_i hc
    have hsize : ¬ctx.etop < numDigits c + e - ctx.prec := by
      have hlt := (scaled_bounds hc e).1.trans_lt h.bounded
      have hexp := (zpow_lt_zpow_iff_right₀ (by norm_num)).mp hlt
      simp only [Context.etop]
      omega
    rw [if_neg hsize]
    dsimp only
    obtain ⟨d, f, hwritten, hd, hf⟩ := h.written
    have hgf := le_of_written hc hwritten hd hf
    have hetop : ¬ctx.etop < max (numDigits c + e - ctx.prec) ctx.etiny := by
      simp only [Context.etop, Context.etiny] at *
      omega
    have hprec' : numDigits c + e - ctx.prec ≤ max (numDigits c + e - ctx.prec) ctx.etiny :=
      le_max_left _ _
    generalize max (numDigits c + e - ctx.prec) ctx.etiny = g at hgf hetop hprec' ⊢
    rw [if_neg hetop]
    split
    · rename_i he
      obtain ⟨q, hq⟩ := exists_dropped hwritten he.le hgf
      have hrounded : roundHalfEven c (g - e).toNat = q := by rw [hq, roundHalfEven_mul]
      have hdigits : q.natAbs < 10 ^ ctx.prec := by
        have hlt : c.natAbs < 10 ^ (ctx.prec + (g - e).toNat) := natAbs_lt_pow (by omega)
        rw [hq, Int.natAbs_mul, Int.natAbs_pow, pow_add] at hlt
        exact lt_of_mul_lt_mul_right hlt (by positivity)
      rw [hrounded, if_pos hdigits]
      refine ⟨_, rfl, ?_⟩
      rw [value, scaled_shift q he.le, ← hq]
    · exact ⟨_, rfl, rfl⟩

theorem fix_iff :
    (∃ r, fix ctx c e = .ok r ∧ value r = some (scaled c e)) ↔ ctx.Fits (scaled c e) := by
  constructor
  · intro h
    obtain ⟨r, hr, hvalue⟩ := h
    obtain ⟨q, g, rfl, hq, hg, hbound⟩ := fix_fits hr
    rw [value, Option.some.injEq] at hvalue
    exact ⟨⟨q, g, hvalue.symm, hq, hg⟩, hbound⟩
  · exact fix_exact

theorem exactSum_comm (c e d f : ℤ) : exactSum c e d f = exactSum d f c e := by
  simp only [exactSum, min_comm e f]
  ring

theorem add_commutes (ctx : Context) (a b : Decimal) : add ctx a b = add ctx b a := by
  cases a <;> cases b <;> simp only [add]
  case finite.finite c e d f => rw [exactSum_comm, min_comm]
  case infinity.infinity s t => cases s <;> cases t <;> rfl

theorem exists_finite {a : Decimal} (h : value a = some x) :
    ∃ c e, a = .finite c e ∧ x = scaled c e := by
  cases a with
  | finite c e =>
    rw [value, Option.some.injEq] at h
    exact ⟨c, e, rfl, h.symm⟩
  | infinity s => cases h
  | nan => cases h

theorem add_iff {a b : Decimal} (ha : value a = some x) (hb : value b = some y) :
    (∃ r, add ctx a b = .ok r ∧ value r = some (x + y)) ↔ ctx.Fits (x + y) := by
  obtain ⟨c, e, rfl, rfl⟩ := exists_finite ha
  obtain ⟨d, f, rfl, rfl⟩ := exists_finite hb
  rw [← scaled_exactSum]
  exact fix_iff

theorem value_negate {b : Decimal} (hb : value b = some y) : value (negate b) = some (-y) := by
  obtain ⟨d, f, rfl, rfl⟩ := exists_finite hb
  rw [negate, value, scaled_neg]

theorem sub_iff {a b : Decimal} (ha : value a = some x) (hb : value b = some y) :
    (∃ r, sub ctx a b = .ok r ∧ value r = some (x - y)) ↔ ctx.Fits (x - y) := by
  rw [sub_eq_add_neg]
  exact add_iff ha (value_negate hb)

theorem negative_iff {a : Decimal} (ha : value a = some x) :
    negative a = .ok (decide (x < 0)) := by
  obtain ⟨c, e, rfl, rfl⟩ := exists_finite ha
  have hpos : (0 : ℚ) < 10 ^ e := by positivity
  have hsign : scaled c e < 0 ↔ c < 0 := by
    simp [scaled, mul_neg_iff, hpos, hpos.le]
  simp [negative, hsign]

end Taas.Decimals
