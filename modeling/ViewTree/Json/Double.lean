/-!
# Doubles in exact arithmetic

A finite IEEE 754 double is a sign and a magnitude `significand · 2^exponent`.
Everything here is done on natural numbers: `Magnitude.nearest` rounds a fraction
to the nearest magnitude, ties to the even significand, and `Magnitude.ofDecimal`
reads `significand · 10^exponent` the way documents are read: the significand is
rounded first and then scaled by a rounded power of ten.
-/

namespace ViewTree.Json

/-- The value `significand · 2^exponent`. Values made by `Magnitude.nearest` have
a significand below `2^53` and an exponent of at least `-1074`. -/
structure Magnitude where
  significand : Nat
  exponent : Int
deriving DecidableEq, Repr

/-- A finite double. -/
structure Double where
  negative : Bool
  magnitude : Magnitude
deriving DecidableEq, Repr

/-- The quotient rounded to the nearest natural number, a half to the even one. -/
def roundHalfEven (num den : Nat) : Nat :=
  let q := num / den
  let r := num % den
  if den < 2 * r || (2 * r == den && q % 2 == 1) then q + 1 else q

/-- The fraction `num / den` divided by `2^shift`, as a fraction. -/
def shiftDown (num den : Nat) (shift : Int) : Nat × Nat :=
  if 0 ≤ shift then (num, den <<< shift.toNat) else (num <<< (-shift).toNat, den)

/-- The greatest `k` with `2^k ≤ num / den`, for a positive fraction. -/
def binaryOrder (num den : Nat) : Int :=
  let guess : Int := (num.log2 : Int) - (den.log2 : Int)
  let (n, d) := shiftDown num den guess
  if d ≤ n then guess else guess - 1

namespace Magnitude

/-- The magnitude zero. -/
def zero : Magnitude := ⟨0, -1074⟩

/-- The magnitude nearest to `num / den`; its exponent is not bounded above. -/
def nearest (num den : Nat) : Magnitude :=
  if num = 0 then zero
  else
    let e := max (binaryOrder num den - 52) (-1074)
    let (n, d) := shiftDown num den e
    let q := roundHalfEven n d
    if q = 1 <<< 53 then ⟨1 <<< 52, e + 1⟩ else ⟨q, e⟩

/-- Whether the magnitude is within the range of doubles. -/
def isFinite (m : Magnitude) : Bool := m.exponent ≤ 971

/-- The magnitude nearest to `(num / den) · 2^shift`. -/
def nearestShifted (num den : Nat) (shift : Int) : Magnitude :=
  let (n, d) := shiftDown num den (-shift)
  nearest n d

/-- The rounded product. -/
def mul (a b : Magnitude) : Magnitude :=
  nearestShifted (a.significand * b.significand) 1 (a.exponent + b.exponent)

/-- The rounded quotient. -/
def div (a b : Magnitude) : Magnitude :=
  nearestShifted a.significand b.significand (a.exponent - b.exponent)

/-- The magnitude nearest to `10^k`. -/
def powerOfTen (k : Nat) : Magnitude := nearest (Nat.pow 10 k) 1

/-- The magnitude read from `significand · 10^exponent`, or `none` when it is out
of range. Powers of ten go up to `10^308`; a smaller exponent is reached in two
divisions, and below `-616` nothing is left. -/
def ofDecimal (significand : Nat) (exponent : Int) : Option Magnitude :=
  let rounded := nearest significand 1
  if 0 ≤ exponent then
    if exponent ≤ 308 then
      let product := rounded.mul (powerOfTen exponent.toNat)
      if product.isFinite then some product else none
    else if significand = 0 then some zero
    else none
  else
    let down := (-exponent).toNat
    if down ≤ 308 then some (rounded.div (powerOfTen down))
    else if down ≤ 616 then some ((rounded.div (powerOfTen 308)).div (powerOfTen (down - 308)))
    else some zero

end Magnitude

/-- Equality of the values: the two zeros are equal. -/
def Double.same (a b : Double) : Bool :=
  (a.magnitude.significand == 0 && b.magnitude.significand == 0) || a == b

end ViewTree.Json
