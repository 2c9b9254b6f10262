import Lox.Text.Printable

/-!
# Quoted text

Between quotes a text is written so that every character can be told: the usual controls and the
backslash by a backslash and a letter, the mark that closes the text by a backslash, and characters
that do not print by their code point.
-/

namespace Lox.Text

/-- The mark on both sides of a text. Inside, it is written with a backslash. -/
structure Quotes where
  mark : Char

def Quotes.text : Quotes := ⟨'"'⟩

def Quotes.character : Quotes := ⟨'\''⟩

def codePoint (c : Char) : List Char :=
  ['\\', 'u', '\x7b'] ++ Nat.toDigits 16 c.toNat ++ ['\x7d']

def escape (q : Quotes) (c : Char) : List Char :=
  match c with
  | '\x00' => ['\\', '0']
  | '\t' => ['\\', 't']
  | '\n' => ['\\', 'n']
  | '\r' => ['\\', 'r']
  | '\\' => ['\\', '\\']
  | c =>
    if c = q.mark then ['\\', c]
    else if isPrintable c then [c]
    else codePoint c

def quote (q : Quotes) (s : String) : String :=
  String.ofList (q.mark :: s.toList.flatMap (escape q) ++ [q.mark])

end Lox.Text
