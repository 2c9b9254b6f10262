import Lox.Operator
import Lox.Token.Basic

/-!
# Expression trees

Every operator node keeps the token it was read from. `==` compares whole trees, tokens included.
-/

namespace Lox

inductive Expr (ν : Type := Float) where
  | literal (v : Value ν)
  | group (inner : Expr ν)
  | unary (op : UnaryOp) (token : Token) (right : Expr ν)
  | binary (op : BinaryOp) (token : Token) (left right : Expr ν)
deriving BEq, Inhabited

namespace Expr

/-- The longest path down the tree, counted in nodes that are not literals. -/
def levels {ν : Type} : Expr ν → Nat
  | literal _ => 0
  | group inner => inner.levels + 1
  | unary _ _ right => right.levels + 1
  | binary _ _ left right => max left.levels right.levels + 1

end Expr
end Lox
