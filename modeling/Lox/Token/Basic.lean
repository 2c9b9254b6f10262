import Lox.Span
import Lox.Token.Kind
import Lox.Decimal.Text
import Lox.Text.Quoted

/-!
# Tokens and lexical errors

A token carries its text, the value of a literal, the line on which it ends and its bytes. `text`
is the form in listings and `detail` shows every field.
-/

namespace Lox

inductive Literal where
  | number (x : Float)
  | string (s : String)
deriving BEq, Inhabited

namespace Literal

def text : Literal → String
  | number x => Decimal.Format.detailed.write x
  | string s => s

def detail : Literal → String
  | number x => Text.variant "Number" (Decimal.Format.detailed.write x)
  | string s => Text.variant "String" (Text.quote .text s)

end Literal

structure Token where
  kind : Kind
  lexeme : String
  literal : Option Literal
  line : Nat
  span : Span
deriving BEq, Inhabited

namespace Token

/-- The token behind the last byte of a source. -/
def endOfInput (line position : Nat) : Token where
  kind := .eof
  lexeme := ""
  literal := none
  line := line
  span := .emptyAt position

def isEnd (t : Token) : Bool :=
  t.kind == .eof

/-- Kind, lexeme and literal, as in `NUMBER 1 1.0` and `PLUS + null`. -/
def text (t : Token) : String :=
  t.kind.name ++ " " ++ t.lexeme ++ " " ++ (t.literal.map Literal.text).getD "null"

def literalDetail (t : Token) : String :=
  match t.literal with
  | none => "None"
  | some literal => Text.variant "Some" literal.detail

def detail (t : Token) : String :=
  Text.record "Token"
    [("kind", t.kind.detail), ("lexeme", Text.quote .text t.lexeme), ("literal", t.literalDetail),
      ("line", toString t.line), ("span", t.span.detail)]

@[simp] theorem isEnd_endOfInput (line position : Nat) :
    (endOfInput line position).isEnd = true := rfl

end Token

/-- What is wrong with a piece of text that is no token. -/
inductive LexCause where
  | unrecognized (c : Char)
  | unclosedString
deriving DecidableEq, Inhabited

namespace LexCause

def message : LexCause → String
  | unrecognized c => "Unexpected character: " ++ c.toString
  | unclosedString => "Unterminated string."

def detail : LexCause → String
  | unrecognized c => Text.variant "Unrecognized" (Text.quote .character c.toString)
  | unclosedString => "UnclosedString"

end LexCause

structure LexError where
  cause : LexCause
  line : Nat
  span : Span
deriving DecidableEq, Inhabited

namespace LexError

def message (e : LexError) : String :=
  e.cause.message

def text (e : LexError) : String :=
  "[line " ++ toString e.line ++ "] Error: " ++ e.message

def detail (e : LexError) : String :=
  Text.record "LexicalError"
    [("kind", e.cause.detail), ("line", toString e.line), ("span", e.span.detail)]

end LexError
end Lox
