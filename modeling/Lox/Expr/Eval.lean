import Lox.Expr.Basic

/-!
# Evaluation

Operands are evaluated from left to right before their operator is applied. An operator that
rejects its operands stops the evaluation, and the error names its token.
-/

namespace Lox

variable {ν : Type}

structure RuntimeError (ν : Type := Float) where
  fault : Fault ν
  /-- The operator that rejects its operands. -/
  token : Token
deriving BEq, Inhabited

namespace RuntimeError

def line (e : RuntimeError ν) : Nat := e.token.line

def message (e : RuntimeError ν) : String := e.fault.message

end RuntimeError

namespace Expr

/-- Names the operator in the answer of its application. -/
def blame (token : Token) : Except (Fault ν) (Value ν) → Except (RuntimeError ν) (Value ν)
  | .ok v => .ok v
  | .error fault => .error ⟨fault, token⟩

variable [Arithmetic ν]

def eval : Expr ν → Except (RuntimeError ν) (Value ν)
  | literal v => .ok v
  | group inner => inner.eval
  | unary op token right =>
    match right.eval with
    | .error e => .error e
    | .ok v => blame token (op.apply v)
  | binary op token left right =>
    match left.eval with
    | .error e => .error e
    | .ok v =>
      match right.eval with
      | .error e => .error e
      | .ok w => blame token (op.apply v w)

theorem eval_unary (op : UnaryOp) (token : Token) (right : Expr ν) :
    (unary op token right).eval = right.eval.bind fun v => blame token (op.apply v) := by
  rw [eval]
  cases right.eval <;> rfl

theorem eval_binary (op : BinaryOp) (token : Token) (left right : Expr ν) :
    (binary op token left right).eval =
      left.eval.bind fun v => right.eval.bind fun w => blame token (op.apply v w) := by
  rw [eval]
  cases left.eval with
  | error => rfl
  | ok => cases right.eval <;> rfl

theorem eval_unary_of_ok {op : UnaryOp} {token : Token} {right : Expr ν} {v w : Value ν}
    (hright : right.eval = .ok v) (hop : op.apply v = .ok w) :
    (unary op token right).eval = .ok w := by
  rw [eval_unary, hright]
  exact congrArg (blame token) hop

theorem eval_binary_of_ok {op : BinaryOp} {token : Token} {left right : Expr ν}
    {v w x : Value ν} (hleft : left.eval = .ok v) (hright : right.eval = .ok w)
    (hop : op.apply v w = .ok x) :
    (binary op token left right).eval = .ok x := by
  rw [eval_binary, hleft, hright]
  exact congrArg (blame token) hop

end Expr
end Lox
