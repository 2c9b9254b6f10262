import Lox.Token.Basic

/-!
# Lexemes

What stands at the front of a text, decided by its first character and as much of the rest as
belongs to it: layout that yields nothing, a token, or a piece that is refused. Every choice takes
the longest piece there is.
-/

namespace Lox

inductive Lexeme where
  | layout
  | token (kind : Kind) (literal : Option Literal)
  | refused (cause : LexCause)
deriving Inhabited

/-- A lexeme and the number of characters it takes behind its first one. -/
structure Piece where
  lexeme : Lexeme
  more : Nat
deriving Inhabited

namespace Piece

def symbol (s : Symbol) : Piece :=
  ⟨.token (.symbol s) none, 0⟩

def symbolOrEqual (alone withEqual : Symbol) (rest : List Char) : Piece :=
  match rest with
  | '=' :: _ => ⟨.token (.symbol withEqual) none, 1⟩
  | _ => symbol alone

def slash (rest : List Char) : Piece :=
  match rest with
  -- a comment leaves the line break behind it
  | '/' :: _ => ⟨.layout, (rest.takeWhile (· != '\n')).length⟩
  | _ => symbol .slash

/-- A string ends at the next quote. Without one the whole rest is refused. -/
def string (rest : List Char) : Piece :=
  let body := rest.takeWhile (· != '"')
  if body.length < rest.length then
    ⟨.token .string (some (.string (String.ofList body))), body.length + 1⟩
  else ⟨.refused .unclosedString, rest.length⟩

/-- The digits behind a point. A point without a digit behind it is not part of the number. -/
def fraction (rest : List Char) : List Char :=
  match rest with
  | '.' :: more => more.takeWhile Char.isDigit
  | _ => []

def number (first : Char) (rest : List Char) : Piece :=
  let whole := rest.takeWhile Char.isDigit
  let decimals := fraction (rest.dropWhile Char.isDigit)
  let value := (Decimal.ofDigits (first :: whole) decimals).toFloat
  let pointed := if decimals.isEmpty then 0 else decimals.length + 1
  ⟨.token .number (some (.number value)), whole.length + pointed⟩

def word (first : Char) (rest : List Char) : Piece :=
  let letters := rest.takeWhile Char.isAlphanum
  ⟨.token (.ofWord (String.ofList (first :: letters))) none, letters.length⟩

/-- The piece at the front of a text. Letters and digits are those of ASCII. -/
def first (c : Char) (rest : List Char) : Piece :=
  match c with
  | '(' => symbol .leftParen
  | ')' => symbol .rightParen
  | '\x7b' => symbol .leftBrace
  | '\x7d' => symbol .rightBrace
  | ',' => symbol .comma
  | '.' => symbol .dot
  | '-' => symbol .minus
  | '+' => symbol .plus
  | ';' => symbol .semicolon
  | '*' => symbol .star
  | '!' => symbolOrEqual .bang .bangEqual rest
  | '=' => symbolOrEqual .equal .equalEqual rest
  | '<' => symbolOrEqual .less .lessEqual rest
  | '>' => symbolOrEqual .greater .greaterEqual rest
  | '/' => slash rest
  | ' ' | '\r' | '\t' | '\n' => ⟨.layout, 0⟩
  | '"' => string rest
  | c =>
    if c.isDigit then number c rest
    else if c.isAlpha then word c rest
    else ⟨.refused (.unrecognized c), 0⟩

end Piece
end Lox
