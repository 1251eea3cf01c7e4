import Mathlib.Data.List.Infix

/-!
Base64 with padding. The decoder is strict: it takes no character outside the alphabet, and nothing
after the padding. The last bits of a padded group are not looked at.
-/
namespace Taas.Base64

def alphabet : List Char :=
  "ABCDEFGHIJKLMNOPQRSTUVWXYZabcdefghijklmnopqrstuvwxyz0123456789+/".toList

def digit (n : ℕ) : Char := alphabet.getD n 'A'

def value (c : Char) : Option ℕ := alphabet.idxOf? c

/-- Three bytes are four digits. A group that is short is padded. -/
def encode : List UInt8 → List Char
  | [] => []
  | [x] => [digit (x.toNat / 4), digit (x.toNat % 4 * 16), '=', '=']
  | [x, y] =>
    [digit (x.toNat / 4), digit (x.toNat % 4 * 16 + y.toNat / 16), digit (y.toNat % 16 * 4), '=']
  | x :: y :: z :: bytes =>
    digit (x.toNat / 4) :: digit (x.toNat % 4 * 16 + y.toNat / 16) ::
      digit (y.toNat % 16 * 4 + z.toNat / 64) :: digit (z.toNat % 64) :: encode bytes

/-- The first, second and third byte of a group with these values. -/
def firstByte (k l : ℕ) : UInt8 := .ofNat (k * 4 + l / 16)

def secondByte (l m : ℕ) : UInt8 := .ofNat (l % 16 * 16 + m / 4)

def thirdByte (m n : ℕ) : UInt8 := .ofNat (m % 4 * 64 + n)

def decode : List Char → Option (List UInt8)
  | [] => some []
  | a :: b :: c :: d :: text =>
    match value a, value b, value c, value d with
    | some k, some l, some m, some n =>
      (decode text).map ([firstByte k l, secondByte l m, thirdByte m n] ++ ·)
    | some k, some l, some m, none =>
      if d = '=' ∧ text = [] then some [firstByte k l, secondByte l m] else none
    | some k, some l, none, none =>
      if c = '=' ∧ d = '=' ∧ text = [] then some [firstByte k l] else none
    | _, _, _, _ => none
  | _ => none

theorem value_digit {n : ℕ} (h : n < 64) : value (digit n) = some n := by
  have hall : ∀ n < 64, value (digit n) = some n := by decide +kernel
  exact hall n h

theorem digit_mem {n : ℕ} (h : n < 64) : digit n ∈ alphabet := by
  have hlength : n < alphabet.length := h
  rw [digit, List.getD_eq_getElem?_getD, List.getElem?_eq_getElem hlength]
  exact List.getElem_mem hlength

theorem value_padding : value '=' = none := by decide +kernel

theorem firstByte_eq (x : UInt8) {r : ℕ} (hr : r < 16) :
    firstByte (x.toNat / 4) (x.toNat % 4 * 16 + r) = x := by
  have hx : x.toNat / 4 * 4 + (x.toNat % 4 * 16 + r) / 16 = x.toNat := by omega
  rw [firstByte, hx, UInt8.ofNat_toNat]

theorem secondByte_eq (y : UInt8) {k r : ℕ} (hr : r < 4) :
    secondByte (k * 16 + y.toNat / 16) (y.toNat % 16 * 4 + r) = y := by
  have hlt := y.toNat_lt
  have hy : (k * 16 + y.toNat / 16) % 16 * 16 + (y.toNat % 16 * 4 + r) / 4 = y.toNat := by omega
  rw [secondByte, hy, UInt8.ofNat_toNat]

theorem thirdByte_eq (z : UInt8) (k : ℕ) :
    thirdByte (k * 4 + z.toNat / 64) (z.toNat % 64) = z := by
  have hlt := z.toNat_lt
  have hz : (k * 4 + z.toNat / 64) % 4 * 64 + z.toNat % 64 = z.toNat := by omega
  rw [thirdByte, hz, UInt8.ofNat_toNat]

theorem decode_encode (bytes : List UInt8) : decode (encode bytes) = some bytes := by
  fun_induction encode bytes with
  | case1 => rfl
  | case2 x =>
    have hx := x.toNat_lt
    have hfirst := firstByte_eq x (r := 0) (by omega)
    rw [Nat.add_zero] at hfirst
    have h₁ : value (digit (x.toNat / 4)) = some (x.toNat / 4) := value_digit (by omega)
    have h₂ : value (digit (x.toNat % 4 * 16)) = some (x.toNat % 4 * 16) := value_digit (by omega)
    simp [decode, h₁, h₂, value_padding, hfirst]
  | case3 x y =>
    have hx := x.toNat_lt
    have hy := y.toNat_lt
    have hfirst := firstByte_eq x (r := y.toNat / 16) (by omega)
    have hsecond := secondByte_eq y (k := x.toNat % 4) (r := 0) (by omega)
    rw [Nat.add_zero] at hsecond
    have h₁ : value (digit (x.toNat / 4)) = some (x.toNat / 4) := value_digit (by omega)
    have h₂ : value (digit (x.toNat % 4 * 16 + y.toNat / 16)) =
        some (x.toNat % 4 * 16 + y.toNat / 16) := value_digit (by omega)
    have h₃ : value (digit (y.toNat % 16 * 4)) = some (y.toNat % 16 * 4) := value_digit (by omega)
    simp [decode, h₁, h₂, h₃, value_padding, hfirst, hsecond]
  | case4 x y z bytes ih =>
    have hx := x.toNat_lt
    have hy := y.toNat_lt
    have hz := z.toNat_lt
    have hfirst := firstByte_eq x (r := y.toNat / 16) (by omega)
    have hsecond := secondByte_eq y (k := x.toNat % 4) (r := z.toNat / 64) (by omega)
    have hthird := thirdByte_eq z (y.toNat % 16)
    have h₁ : value (digit (x.toNat / 4)) = some (x.toNat / 4) := value_digit (by omega)
    have h₂ : value (digit (x.toNat % 4 * 16 + y.toNat / 16)) =
        some (x.toNat % 4 * 16 + y.toNat / 16) := value_digit (by omega)
    have h₃ : value (digit (y.toNat % 16 * 4 + z.toNat / 64)) =
        some (y.toNat % 16 * 4 + z.toNat / 64) := value_digit (by omega)
    have h₄ : value (digit (z.toNat % 64)) = some (z.toNat % 64) := value_digit (by omega)
    simp [decode, h₁, h₂, h₃, h₄, ih, hfirst, hsecond, hthird]

theorem mem_encode {c : Char} (bytes : List UInt8) (h : c ∈ encode bytes) :
    c ∈ alphabet ∨ c = '=' := by
  have hdigit (n : ℕ) (hn : n < 64) (hc : c = digit n) : c ∈ alphabet ∨ c = '=' :=
    .inl (hc ▸ digit_mem hn)
  fun_induction encode bytes with
  | case1 => simp at h
  | case2 x =>
    have hx := x.toNat_lt
    simp only [List.mem_cons, List.not_mem_nil, or_false, or_self] at h
    obtain h | h | h := h
    · exact hdigit _ (by omega) h
    · exact hdigit _ (by omega) h
    · exact .inr h
  | case3 x y =>
    have hx := x.toNat_lt
    have hy := y.toNat_lt
    simp only [List.mem_cons, List.not_mem_nil, or_false] at h
    obtain h | h | h | h := h
    · exact hdigit _ (by omega) h
    · exact hdigit _ (by omega) h
    · exact hdigit _ (by omega) h
    · exact .inr h
  | case4 x y z bytes ih =>
    have hx := x.toNat_lt
    have hy := y.toNat_lt
    have hz := z.toNat_lt
    simp only [List.mem_cons] at h
    obtain h | h | h | h | h := h
    · exact hdigit _ (by omega) h
    · exact hdigit _ (by omega) h
    · exact hdigit _ (by omega) h
    · exact hdigit _ (by omega) h
    · exact ih h

end Taas.Base64
