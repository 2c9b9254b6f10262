import Lox.Decimal.Shortest

/-!
# Number text

Numbers are written with the fewest digits that read back as the same number. A `Format` decides
where positional notation ends and whether a whole number carries a fraction.
-/

namespace Lox.Decimal

inductive Anatomy where
  | nan
  | infinite (negative : Bool)
  | finite (negative : Bool) (magnitude : Decimal)

namespace Anatomy

def ofFloat (x : Float) : Anatomy :=
  let bits := x.toBits.toNat
  let negative := bits / Nat.pow 2 63 == 1
  let exponent : Nat := bits / Nat.pow 2 52 % Nat.pow 2 11
  let fraction : Nat := bits % Nat.pow 2 52
  if exponent = 2047 then
    if fraction = 0 then .infinite negative else .nan
  else if exponent = 0 then
    if fraction = 0 then .finite negative ⟨0, 0⟩
    else .finite negative (Binary.shortest ⟨fraction, -1074, false⟩)
  else
    let mantissa := Nat.pow 2 52 + fraction
    .finite negative
      (Binary.shortest ⟨mantissa, (exponent : Int) - 1075, fraction == 0 && exponent != 1⟩)

end Anatomy

structure Format where
  -- leading digits of this weight are written without an exponent part
  positional : Int → Bool
  -- what follows the digits of a whole number
  wholeEnd : String

def Format.plain : Format := ⟨fun _ => true, ""⟩

/-- Always shows that the number is fractional: `1.0`, `0.0001`, `1e16`, `9e-5`. -/
def Format.detailed : Format := ⟨fun weight => -4 ≤ weight && weight < 16, ".0"⟩

/-- The power of ten of the leading digit. -/
def weight (d : Decimal) : Int :=
  (Nat.toDigits 10 d.coefficient).length - 1 + d.exponent

def zeros (n : Nat) : List Char := List.replicate n '0'

def positionalChars (wholeEnd : String) (d : Decimal) : List Char :=
  let digits := Nat.toDigits 10 d.coefficient
  if 0 ≤ d.exponent then digits ++ zeros d.exponent.toNat ++ wholeEnd.toList
  else if 0 ≤ d.weight then
    digits.take (d.weight.toNat + 1) ++ '.' :: digits.drop (d.weight.toNat + 1)
  else '0' :: '.' :: zeros ((-d.weight).toNat - 1) ++ digits

def scientificChars (d : Decimal) : List Char :=
  let digits := Nat.toDigits 10 d.coefficient
  let fraction := if digits.length = 1 then [] else '.' :: digits.drop 1
  let sign := if d.weight < 0 then ['-'] else []
  digits.take 1 ++ fraction ++ 'e' :: sign ++ Nat.toDigits 10 d.weight.natAbs

def chars (f : Format) (d : Decimal) : List Char :=
  if f.positional d.weight then d.positionalChars f.wholeEnd else d.scientificChars

def signed (negative : Bool) (text : String) : String :=
  if negative then "-" ++ text else text

/-- The text of a number. No sign is written for a value that is not a number. -/
def Format.write (f : Format) (x : Float) : String :=
  match Anatomy.ofFloat x with
  | .nan => "NaN"
  | .infinite negative => signed negative "inf"
  | .finite negative magnitude => signed negative (String.ofList (chars f magnitude))

end Lox.Decimal
