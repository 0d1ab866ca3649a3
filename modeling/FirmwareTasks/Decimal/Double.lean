/-!
Numbers of double precision: a significand below `2 ^ 53` times a power of two, the two
infinities, and the value that is no number. A decimal number becomes the nearest of them.
-/
namespace FirmwareTasks

/-- A number of double precision; the finite ones stand for `± significand * 2 ^ exponent`. -/
inductive Double where
  | finite (negative : Bool) (significand : Nat) (exponent : Int)
  | infinite (negative : Bool)
  | nan
deriving DecidableEq, Repr

namespace Double

/-- The natural number nearest to `num / den`, the even one of two. -/
def roundDiv (num den : Nat) : Nat :=
  let q := num / den
  let r := num % den
  if 2 * r < den then q
  else if den < 2 * r then q + 1
  else q + q % 2

def scaleDown (num den : Nat) (e : Int) : Nat × Nat :=
  (num * Nat.pow 2 (-e).toNat, den * Nat.pow 2 e.toNat)

/-- The exponent at which the significand of `num / den` has 53 bits, or the least one there is. -/
def exponentFor (num den : Nat) : Int :=
  let e := max ((num.log2 : Int) - den.log2 - 53) (-1074)
  let (n, d) := scaleDown num den e
  if n / d < Nat.pow 2 53 then e else e + 1

/-- The number nearest to the fraction `num / den`; beyond the greatest one it is infinite. -/
def ofFraction (negative : Bool) (num den : Nat) : Double :=
  let e := exponentFor num den
  let (n, d) := scaleDown num den e
  let m := roundDiv n d
  let (m, e) := if m = Nat.pow 2 53 then (Nat.pow 2 52, e + 1) else (m, e)
  if 971 < e then .infinite negative else .finite negative m e

/-- The number nearest to `± digits * 10 ^ exponent`. A size far outside the range is settled at
once, so that the powers stay small. -/
def ofDecimal (negative : Bool) (digits : Nat) (exponent : Int) : Double :=
  let size := (Nat.toDigits 10 digits).length + exponent
  if digits = 0 ∨ size < -330 then .finite negative 0 (-1074)
  else if 310 < size then .infinite negative
  else if exponent < 0 then ofFraction negative digits (Nat.pow 10 (-exponent).toNat)
  else ofFraction negative (digits * Nat.pow 10 exponent.toNat) 1

example : ofDecimal false 15 (-1) = .finite false (3 * 2 ^ 51) (-52) := by decide +kernel
example : ofDecimal true 1 400 = .infinite true := by decide +kernel

end Double
end FirmwareTasks
