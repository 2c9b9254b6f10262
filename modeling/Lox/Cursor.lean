import Lox.Diagnostic
import Lox.Expr.Grammar

/-!
# Reading from a list of tokens

A cursor holds a list of tokens that ends in an end of input and the index of the next one. It can
read an expression, and after an error it can skip to a place where reading may resume: behind a
semicolon, in front of a word that opens a declaration, or at an end of input. No operation looks
at tokens in front of the cursor or moves past an end of input.
-/

namespace Lox

structure ParseError where
  obstacle : Obstacle
  token : Token
deriving BEq, Inhabited

namespace Obstacle

def message : Obstacle → String
  | expectedExpression => "Expect expression"
  | unclosedGroup => "Expect ')' after expression"
  | tooDeeplyNested => "Expression nests too deeply"

end Obstacle

namespace ParseError

def line (e : ParseError) : Nat := e.token.line

def found (t : Token) : String :=
  if t.isEnd then "end of input" else "'" ++ t.lexeme ++ "'"

def message (e : ParseError) : String :=
  e.obstacle.message ++ ", found " ++ found e.token ++ "."

def diagnostic (e : ParseError) : Diagnostic :=
  ⟨e.line, e.message, some e.token.span⟩

end ParseError

structure Cursor where
  tokens : List Token
  index : Nat
deriving Inhabited

namespace Cursor

def maxNesting : Nat := 128

/-- The tokens with an end of input added if they do not end in one. -/
def withEnd (ts : List Token) : List Token :=
  match ts.getLast? with
  | none => [.endOfInput 1 0]
  | some last => if last.isEnd then ts else ts ++ [.endOfInput last.line last.span.stop]

def ofTokens (ts : List Token) : Cursor :=
  ⟨withEnd ts, 0⟩

def rest (c : Cursor) : List Token :=
  c.tokens.drop c.index

def peek (c : Cursor) : Token :=
  c.rest.headD (.endOfInput 1 0)

def isAtEnd (c : Cursor) : Bool :=
  c.peek.isEnd

/-- The cursor in front of `rest`, which is an end of its list of tokens. -/
def moveTo (c : Cursor) (rest : List Token) : Cursor :=
  { c with index := c.tokens.length - rest.length }

def parse (c : Cursor) : Except ParseError Expr × Cursor :=
  match Grammar.expression maxNesting c.rest with
  | .ok (e, rest) => (.ok e, c.moveTo rest)
  | .error (obstacle, rest) => (.error ⟨obstacle, (c.moveTo rest).peek⟩, c.moveTo rest)

/-- Where reading resumes when `last` is the token just skipped. -/
def resume (last : Token) : List Token → List Token
  | [] => []
  | t :: rest =>
    if t.isEnd || last.kind == .symbol .semicolon || t.kind.startsDeclaration then t :: rest
    else resume t rest

/-- Skips at least one token, unless the next one is an end of input. -/
def recover : List Token → List Token
  | [] => []
  | t :: rest => if t.isEnd then t :: rest else resume t rest

def synchronize (c : Cursor) : Cursor :=
  c.moveTo (recover c.rest)

structure Attempt where
  tree : Option Expr
  diagnostics : List Diagnostic
  cursor : Cursor
deriving Inhabited

/-- Reads one expression. If that fails, reports the error and skips to where to resume. -/
def parseRecovering (c : Cursor) : Attempt :=
  match c.parse with
  | (.ok e, after) => ⟨some e, [], after⟩
  | (.error e, after) => ⟨none, [e.diagnostic], after.synchronize⟩

end Cursor
end Lox
