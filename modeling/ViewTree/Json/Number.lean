import ViewTree.Json.Shortest

/-!
# Numbers of documents

An integer of at most 64 bits is kept as it is; every other number is a double.
-/

namespace ViewTree.Json

/-- A number of a document. -/
inductive Number where
  /-- A non-negative integer below `2^64`. -/
  | natural (n : Nat)
  /-- The integer `-n`, for a positive `n` of at most `2^63`. -/
  | negative (n : Nat)
  /-- Any other number. -/
  | double (d : Double)
deriving DecidableEq, Repr

namespace Number

/-- The number as a text: a fixed point from `0.00001` to below `10^16`, and an
exponent with its sign outside that range. -/
def layout : Layout := { leastFixed := -5, greatestFixed := 15, plus := "+" }

/-- The text of a number in a document. -/
def toText : Number → String
  | natural n => Text.decimal n
  | negative n => "-" ++ Text.decimal n
  | double d => layout.writeDouble d

/-- Whether the value is zero. -/
def isZero : Number → Bool
  | natural n => n == 0
  | negative _ => false
  | double d => d.magnitude.significand == 0

/-- Equality of numbers: an integer never equals a double, and the two zeros of
doubles are equal. -/
def same : Number → Number → Bool
  | natural a, natural b => a == b
  | negative a, negative b => a == b
  | double a, double b => a.same b
  | _, _ => false

end Number

end ViewTree.Json
