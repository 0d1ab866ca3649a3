import FirmwareTasks.Decimal.Double
/-!
The shortest decimal text of a number of double precision: as few digits as tell it apart from its
neighbours, of those the nearest, written without an exponent and always with a fraction.
-/
namespace FirmwareTasks.Double

/-- The numbers between `low` and `high`, in quarters of a unit of the significand, round to
`significand`; the bounds themselves do if `closed`. -/
structure Interval where
  low : Nat
  high : Nat
  closed : Bool

/-- The neighbour below a power of two is only half as far away. -/
def interval (significand : Nat) (exponent : Int) : Interval where
  low := if significand = Nat.pow 2 52 ∧ -1074 < exponent then 4 * significand - 1
    else 4 * significand - 2
  high := 4 * significand + 2
  closed := significand % 2 == 0

/-- A multiple of a power of ten. -/
structure Digits where
  digits : Nat
  power : Int
deriving DecidableEq, Repr

/-- The multiple of `10 ^ power` that is nearest to the number, if it rounds to the number; the
greater one of two. -/
def onGrid? (significand : Nat) (exponent power : Int) : Option Digits :=
  let range := interval significand exponent
  let quarter := Nat.pow 2 (exponent - 2).toNat * Nat.pow 10 (-power).toNat
  let step := Nat.pow 10 power.toNat * Nat.pow 2 (2 - exponent).toNat
  let value := 4 * significand * quarter
  let below := value / step
  let inside (n : Nat) : Bool :=
    if range.closed then range.low * quarter ≤ n * step && n * step ≤ range.high * quarter
    else range.low * quarter < n * step && n * step < range.high * quarter
  let candidates := if value - below * step < (below + 1) * step - value
    then [below, below + 1] else [below + 1, below]
  (candidates.find? inside).map (⟨·, power⟩)

/-- How many digits the number has before the point; negative for zeros after it. -/
def magnitude (significand : Nat) (exponent : Int) : Int :=
  (Nat.toDigits 10
    (significand * Nat.pow 2 exponent.toNat * Nat.pow 10 400
      / Nat.pow 2 (-exponent).toNat)).length - 400

/-- A multiple of ten is one of the next power. -/
def Digits.carry (d : Digits) : Digits :=
  if d.digits % 10 = 0 then ⟨d.digits / 10, d.power + 1⟩ else d

/-- The coarsest grid that holds a number of the interval decides; seventeen digits always do.
Only a number just below a power of ten that rounds to it ends in a zero. -/
def shortest (significand : Nat) (exponent : Int) : Digits :=
  let top := magnitude significand exponent
  match (List.range 17).findSome? fun n : Nat => onGrid? significand exponent (top - 1 - n) with
  | some d => d.carry
  | none => ⟨significand, exponent⟩

/-- Digits with a point and at least one digit on either side of it. -/
def Digits.positional (d : Digits) : String :=
  let ds := Nat.toDigits 10 d.digits
  if 0 ≤ d.power then .ofList (ds ++ List.replicate d.power.toNat '0' ++ ['.', '0'])
  else
    let places := (-d.power).toNat
    let padded := List.replicate (places + 1 - ds.length) '0' ++ ds
    .ofList (padded.take (padded.length - places) ++ '.' :: padded.drop (padded.length - places))

def text : Double → String
  | .nan => "NaN"
  | .infinite negative => if negative then "-inf" else "inf"
  | .finite negative m e =>
    (if negative then "-" else "") ++ if m = 0 then "0.0" else (shortest m e).positional

example : shortest 7205759403792794 (-56) = ⟨1, -1⟩ := by decide +kernel
example : shortest 7555786372591432 (-76) = ⟨1, -7⟩ := by decide +kernel
example : shortest 1 (-1074) = ⟨5, -324⟩ := by decide +kernel
example : Digits.positional ⟨15, -3⟩ = "0.015" := by decide +kernel
example : Digits.positional ⟨15, 1⟩ = "150.0" := by decide +kernel

end FirmwareTasks.Double
