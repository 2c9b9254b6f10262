import Lox.Decimal.Text
import Lox.Text.Quoted
import Lox.Text.Record

/-!
# Values

What an expression evaluates to. `==` compares structurally, with the comparison of the numbers;
`isEqual` is the equality of the language, in which a value that is not a number equals itself. The
language asks no more of its numbers than `Arithmetic`; unless said otherwise they are
floating-point numbers.
-/

namespace Lox

class Arithmetic (ν : Type) extends Add ν, Sub ν, Mul ν, Div ν, Neg ν, BEq ν where
  less : ν → ν → Bool
  lessEqual : ν → ν → Bool
  isNaN : ν → Bool

instance : Arithmetic Float where
  less x y := x < y
  lessEqual x y := x ≤ y
  isNaN := Float.isNaN

inductive Value (ν : Type := Float) where
  | number (x : ν)
  | string (s : String)
  | bool (b : Bool)
  | nil
deriving BEq, Inhabited

namespace Value

variable {ν : Type}

-- only `nil` and `false` count as false
def isTruthy : Value ν → Bool
  | nil | bool false => false
  | _ => true

def isEqual [Arithmetic ν] : Value ν → Value ν → Bool
  | number x, number y => x == y || Arithmetic.isNaN x && Arithmetic.isNaN y
  | string s, string t => s == t
  | bool a, bool b => a == b
  | nil, nil => true
  | _, _ => false

def text : Value → String
  | number x => Decimal.Format.plain.write x
  | string s => s
  | bool true => "true"
  | bool false => "false"
  | nil => "nil"

def detail : Value → String
  | number x => Text.variant "Number" (Decimal.Format.detailed.write x)
  | string s => Text.variant "String" (Text.quote .text s)
  | bool b => Text.variant "Bool" (bool b).text
  | nil => "Nil"

end Value
end Lox
