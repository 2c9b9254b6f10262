import Lox.Text.Lines
import Lox.Token.Basic

/-!
# Diagnostics

A message for the user with the line it belongs to and, where known, the bytes it is about.
-/

namespace Lox

structure Diagnostic where
  line : Nat
  message : String
  span : Option Span
deriving DecidableEq, Inhabited

namespace Diagnostic

def text (d : Diagnostic) : String :=
  "[line " ++ toString d.line ++ "] Error: " ++ d.message

/-- All diagnostics in order, each on a line of its own. -/
def listing (ds : List Diagnostic) : String :=
  Text.unlines (ds.map text)

theorem listing_append (first second : List Diagnostic) :
    listing (first ++ second) = listing first ++ listing second := by
  simp only [listing, List.map_append, Text.unlines_append]

end Diagnostic

def LexError.diagnostic (e : LexError) : Diagnostic :=
  ⟨e.line, e.message, some e.span⟩

end Lox
