import Lox.Expr.Basic

/-!
# Text of expressions

`text` is the fully parenthesized form with the operator in front, such as
`(+ 1 (group (* 2 3)))`; strings stand in it as they are. `detail` shows every node with its
fields.
-/

namespace Lox.Expr

def text : Expr → String
  | literal v => v.text
  | group inner => "(group " ++ inner.text ++ ")"
  | unary op _ right => "(" ++ op.text ++ " " ++ right.text ++ ")"
  | binary op _ left right => "(" ++ op.text ++ " " ++ left.text ++ " " ++ right.text ++ ")"

def operatorDetail (op : String) (token : Token) : String :=
  Text.record "Operator" [("kind", op), ("token", token.detail)]

/-- Writes the detailed text behind what is written already. -/
def appendDetail (written : String) : Expr → String
  | literal v => written ++ Text.variant "Literal" v.detail
  | group inner => appendDetail (written ++ "Grouping \x7b inner: ") inner ++ " \x7d"
  | unary op token right =>
    let written := written ++ "Unary \x7b operator: " ++ operatorDetail op.detail token
    appendDetail (written ++ ", right: ") right ++ " \x7d"
  | binary op token left right =>
    let written := appendDetail (written ++ "Binary \x7b left: ") left
    let written := written ++ ", operator: " ++ operatorDetail op.detail token
    appendDetail (written ++ ", right: ") right ++ " \x7d"

def detail (e : Expr) : String :=
  e.appendDetail ""

end Lox.Expr
