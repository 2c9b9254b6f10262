/-!
# Detailed text of records and variants

The detailed form of a value names its constructor and, for a record, each field in order. The
functions here only lay such a text out; every type brings its own names.
-/

namespace Lox.Text

def variant (name argument : String) : String :=
  name ++ "(" ++ argument ++ ")"

def field (entry : String × String) : String :=
  entry.1 ++ ": " ++ entry.2

/-- A constructor with named fields: `Span { start: 0, length: 1 }`. -/
def record (name : String) (fields : List (String × String)) : String :=
  name ++ " \x7b " ++ ", ".intercalate (fields.map field) ++ " \x7d"

end Lox.Text
