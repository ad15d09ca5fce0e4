import ViewTree.Json.Double
import ViewTree.Text.Basic

/-!
# Shortest decimal digits

`Magnitude.shortest` gives the decimal with the fewest digits among those that
round to the magnitude, and of these the nearest; of two equally near the one
with an even last digit. `Layout` says how such a decimal is written.
-/

namespace ViewTree.Json

/-- The value `digits · 10^exponent`. -/
structure Decimal where
  digits : Nat
  exponent : Int
deriving DecidableEq, Repr

/-- Compares `a · 2^s` with `c · 10^k`. -/
def compareScaled (a : Nat) (s : Int) (c : Nat) (k : Int) : Ordering :=
  compare ((a <<< s.toNat) * Nat.pow 10 (-k).toNat) ((c <<< (-s).toNat) * Nat.pow 10 k.toNat)

namespace Magnitude

/-- Whether the decimal rounds to the magnitude: it lies within half a step of
it, the ends included when the significand is even. Below the least significand
of a binade the step is half as wide. -/
def isRoundedFrom (m : Magnitude) (d : Decimal) : Bool :=
  let below := if m.significand = 1 <<< 52 ∧ -1074 < m.exponent then 1 else 2
  let low := compareScaled (4 * m.significand - below) (m.exponent - 2) d.digits d.exponent
  let high := compareScaled (4 * m.significand + 2) (m.exponent - 2) d.digits d.exponent
  if m.significand % 2 = 0 then low != .gt && high != .lt else low == .lt && high == .gt

/-- The number of decimal digits of a positive number. -/
def digitCount (n : Nat) : Nat := (Nat.toDigits 10 n).length

/-- The greatest `k` with `10^k` at most the magnitude, for a positive one. -/
def decimalOrder (m : Magnitude) : Int :=
  let (num, den) := shiftDown m.significand 1 (-m.exponent)
  if den ≤ num then (digitCount (num / den) : Int) - 1
  else -(digitCount ((den + num - 1) / num - 1) : Int)

/-- Of the two neighbours of the magnitude on the grid of multiples of `10^k`,
the one to write, if any rounds to the magnitude. -/
def onGrid (m : Magnitude) (k : Int) : Option Decimal :=
  let (n, d) := shiftDown m.significand 1 (-m.exponent)
  let num := n * Nat.pow 10 (-k).toNat
  let den := d * Nat.pow 10 k.toNat
  let floor : Decimal := ⟨num / den, k⟩
  let ceil : Decimal := ⟨num / den + 1, k⟩
  let up := roundHalfEven num den == num / den + 1
  match floor.digits != 0 && m.isRoundedFrom floor, m.isRoundedFrom ceil with
  | true, true => some (if up then ceil else floor)
  | true, false => some floor
  | false, true => some ceil
  | false, false => none

/-- Drops the zeros at the end of the digits; `steps` bounds how many. -/
def dropZeros : Nat → Decimal → Decimal
  | 0, d => d
  | steps + 1, d =>
    if d.digits != 0 && d.digits % 10 == 0 then dropZeros steps ⟨d.digits / 10, d.exponent + 1⟩
    else d

/-- The shortest decimal of a positive magnitude. Seventeen digits always
suffice. -/
def shortest (m : Magnitude) : Decimal :=
  let order := m.decimalOrder
  let grids := (List.range 17).map fun (n : Nat) => order - (n : Int)
  match grids.findSome? m.onGrid with
  | some d => dropZeros 20 d
  | none => ⟨0, 0⟩

end Magnitude

/-- How a decimal is written. -/
structure Layout where
  /-- The least power of ten that is written with a fixed point. -/
  leastFixed : Int
  /-- The greatest power of ten that is written with a fixed point. -/
  greatestFixed : Int
  /-- Written in front of an exponent that is not negative. -/
  plus : String

/-- The digits with a fixed point; `order` is the power of ten of the first. -/
def fixedPoint (digits : List Char) (order : Int) : String :=
  let before := (order + 1).toNat
  if order < 0 then
    "0." ++ String.ofList (List.replicate (-(order + 1)).toNat '0' ++ digits)
  else if digits.length ≤ before then
    String.ofList (digits ++ List.replicate (before - digits.length) '0') ++ ".0"
  else
    String.ofList (digits.take before) ++ "." ++ String.ofList (digits.drop before)

/-- The digits as one digit, the others after a point, and an exponent. -/
def scientific (layout : Layout) (digits : List Char) (order : Int) : String :=
  let mantissa :=
    match digits with
    | [] => ""
    | [d] => String.ofList [d]
    | d :: ds => String.ofList (d :: '.' :: ds)
  let sign := if order < 0 then "-" else layout.plus
  mantissa ++ "e" ++ sign ++ Text.decimal order.natAbs

/-- The text of a positive decimal. -/
def Layout.write (layout : Layout) (d : Decimal) : String :=
  let digits := Nat.toDigits 10 d.digits
  let order := d.exponent + (digits.length : Int) - 1
  if layout.leastFixed ≤ order ∧ order ≤ layout.greatestFixed then fixedPoint digits order
  else scientific layout digits order

/-- The text of a double: shortest digits, and a sign also on a negative zero. -/
def Layout.writeDouble (layout : Layout) (d : Double) : String :=
  let body :=
    if d.magnitude.significand = 0 then "0.0" else layout.write d.magnitude.shortest
  if d.negative then "-" ++ body else body

end ViewTree.Json
