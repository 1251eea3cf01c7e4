import Mathlib.Data.Int.Basic

/-!
The parts of Python and its standard library that several modules share. Datetimes
are microseconds since the epoch, as a `datetime` resolves them.
-/
namespace Taas.Python

/-- `x or default` on an optional number: zero counts as missing. -/
def orDefault {α : Type} [OfNat α 0] [DecidableEq α] (x : Option α) (default : α) : α :=
  match x with
  | some v => if v = 0 then default else v
  | none => default

/-- `timedelta(seconds=n)`. -/
def seconds (n : ℤ) : ℤ := n * 1000000

/-- `timedelta(days=n)`. -/
def days (n : ℤ) : ℤ := seconds (n * 86400)

/-- `s[:n]`. -/
def prefixOf (n : ℕ) (s : String) : String := String.ofList (s.toList.take n)

end Taas.Python
