import Lox.Token.Kind
import Lox.Value

/-!
# Operators

The two unary and ten binary operators, the symbols they are written with, and what they do to
values. An operator that rejects its operands answers with a `Fault` that holds them.
-/

namespace Lox

variable {ν : Type}

inductive Fault (ν : Type := Float) where
  | nonNumeric (operand : Value ν)
  | nonNumerics (left right : Value ν)
  | nonAddable (left right : Value ν)
deriving BEq, Inhabited

namespace Fault

def message : Fault ν → String
  | nonNumeric _ => "Operand must be a number."
  | nonNumerics _ _ => "Operands must be numbers."
  | nonAddable _ _ => "Operands must be two numbers or two strings."

def operands : Fault ν → List (Value ν)
  | nonNumeric operand => [operand]
  | nonNumerics left right | nonAddable left right => [left, right]

end Fault

inductive UnaryOp where
  | bang | minus
deriving DecidableEq, Inhabited

namespace UnaryOp

def symbol : UnaryOp → Symbol
  | bang => .bang
  | minus => .minus

def ofKind? : Kind → Option UnaryOp
  | .symbol .bang => some bang
  | .symbol .minus => some minus
  | _ => none

def text (op : UnaryOp) : String :=
  op.symbol.text

def detail : UnaryOp → String
  | bang => "Bang"
  | minus => "Minus"

def apply [Arithmetic ν] : UnaryOp → Value ν → Except (Fault ν) (Value ν)
  | bang, v => .ok (.bool !v.isTruthy)
  | minus, .number x => .ok (.number (-x))
  | minus, v => .error (.nonNumeric v)

theorem ofKind?_eq_some {k : Kind} {op : UnaryOp} :
    ofKind? k = some op ↔ k = .symbol op.symbol := by
  constructor
  · intro h
    unfold ofKind? at h
    split at h <;> cases h <;> rfl
  · rintro rfl
    cases op <;> rfl

end UnaryOp

inductive BinaryOp where
  | add | subtract | multiply | divide
  | less | lessEqual | greater | greaterEqual | equal | notEqual
deriving DecidableEq, Inhabited

namespace BinaryOp

def symbol : BinaryOp → Symbol
  | add => .plus
  | subtract => .minus
  | multiply => .star
  | divide => .slash
  | less => .less
  | lessEqual => .lessEqual
  | greater => .greater
  | greaterEqual => .greaterEqual
  | equal => .equalEqual
  | notEqual => .bangEqual

def ofKind? : Kind → Option BinaryOp
  | .symbol .plus => some add
  | .symbol .minus => some subtract
  | .symbol .star => some multiply
  | .symbol .slash => some divide
  | .symbol .less => some less
  | .symbol .lessEqual => some lessEqual
  | .symbol .greater => some greater
  | .symbol .greaterEqual => some greaterEqual
  | .symbol .equalEqual => some equal
  | .symbol .bangEqual => some notEqual
  | _ => none

def text (op : BinaryOp) : String :=
  op.symbol.text

def detail : BinaryOp → String
  | add => "Add"
  | subtract => "Subtract"
  | multiply => "Multiply"
  | divide => "Divide"
  | less => "LessThan"
  | lessEqual => "LessThanEqual"
  | greater => "GreaterThan"
  | greaterEqual => "GreaterThanEqual"
  | equal => "EqualEqual"
  | notEqual => "BangEqual"

def numeric (operation : ν → ν → Value ν) : Value ν → Value ν → Except (Fault ν) (Value ν)
  | .number x, .number y => .ok (operation x y)
  | left, right => .error (.nonNumerics left right)

def addition [Add ν] : Value ν → Value ν → Except (Fault ν) (Value ν)
  | .number x, .number y => .ok (.number (x + y))
  | .string s, .string t => .ok (.string (s ++ t))
  | left, right => .error (.nonAddable left right)

def apply [Arithmetic ν] : BinaryOp → Value ν → Value ν → Except (Fault ν) (Value ν)
  | add => addition
  | subtract => numeric fun x y => .number (x - y)
  | multiply => numeric fun x y => .number (x * y)
  | divide => numeric fun x y => .number (x / y)
  | less => numeric fun x y => .bool (Arithmetic.less x y)
  | lessEqual => numeric fun x y => .bool (Arithmetic.lessEqual x y)
  | greater => numeric fun x y => .bool (Arithmetic.less y x)
  | greaterEqual => numeric fun x y => .bool (Arithmetic.lessEqual y x)
  | equal => fun left right => .ok (.bool (left.isEqual right))
  | notEqual => fun left right => .ok (.bool !(left.isEqual right))

theorem ofKind?_eq_some {k : Kind} {op : BinaryOp} :
    ofKind? k = some op ↔ k = .symbol op.symbol := by
  constructor
  · intro h
    unfold ofKind? at h
    split at h <;> cases h <;> rfl
  · rintro rfl
    cases op <;> rfl

end BinaryOp
end Lox
