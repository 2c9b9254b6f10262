/-!
# Decimal numbers

A decimal is a natural number times a power of ten. Numerals are read into one, and the shortest
text of a floating-point number is written from one.
-/

namespace Lox

/-- The number `coefficient * 10 ^ exponent`. -/
structure Decimal where
  coefficient : Nat
  exponent : Int
deriving DecidableEq, Inhabited

namespace Decimal

def digitsValue (digits : List Char) : Nat :=
  digits.foldl (fun n c => 10 * n + (c.toNat - '0'.toNat)) 0

def ofDigits (whole fraction : List Char) : Decimal where
  coefficient := digitsValue (whole ++ fraction)
  exponent := -(fraction.length : Int)

def toFloat (d : Decimal) : Float :=
  -- the nearest one, ties going to the even one
  Float.ofScientific d.coefficient (d.exponent < 0) d.exponent.natAbs

end Decimal
end Lox
