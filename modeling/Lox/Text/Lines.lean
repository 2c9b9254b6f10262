/-!
# Lines

Joining texts into lines and breaking a text into its lines. Every line break belongs to the line
it ends, so breaking a text loses nothing.
-/

namespace Lox.Text

def unlines (texts : List String) : String :=
  String.join (texts.map (· ++ "\n"))

@[simp] theorem unlines_nil : unlines [] = "" := rfl

theorem unlines_append (first second : List String) :
    unlines (first ++ second) = unlines first ++ unlines second := by
  simp only [unlines, List.map_append, String.join_append]

/-- Line feed, vertical tab, form feed, carriage return, next line, and the separators of lines and
paragraphs. -/
def isLineBreak (c : Char) : Bool :=
  (0xA ≤ c.toNat && c.toNat ≤ 0xD) || c == '\u0085' || c == '\u2028' || c == '\u2029'

/-- The lines of a text, each with the break that ends it. A carriage return and a line feed behind
it are one break. -/
def breakLines : List Char → List (List Char)
  | [] => []
  | '\r' :: '\n' :: cs => ['\r', '\n'] :: breakLines cs
  | c :: cs =>
    if isLineBreak c then [c] :: breakLines cs
    else
      match breakLines cs with
      | [] => [[c]]
      | line :: more => (c :: line) :: more

@[simp] theorem flatten_breakLines (cs : List Char) : (breakLines cs).flatten = cs := by
  fun_induction breakLines cs <;> simp_all

end Lox.Text
