import Lox.Diagnostic
import Lox.Text.Blank
import Lox.Text.Width

/-!
# Drawn reports

A diagnostic drawn under the line of the source it is about: a heading with the message, the place,
the line with the marked characters in another colour, a rule under them, and the message again at
the end of an arm. The positions of a span count here as characters; under a character there is as
much of the rule as the character is wide.
-/

namespace Lox.Report

structure Colours where
  heading : String
  margin : String
  faint : String
  plain : String
  marked : String

def colours : Colours := ⟨"31", "38;5;246", "38;5;240", "38;5;249", "91"⟩

def paint (colour text : String) : String :=
  "\x1b[" ++ colour ++ "m" ++ text ++ "\x1b[0m"

def spaces (n : Nat) : String :=
  String.ofList (List.replicate n ' ')

structure Place where
  number : Nat
  -- the position of the first character
  offset : Nat
  line : List Char
deriving Inhabited

/-- The last line that starts at `position` or before it. -/
def Place.seek (position : Nat) (p : Place) : List (List Char) → Place
  | [] => p
  | next :: more =>
    if p.offset + p.line.length ≤ position then
      seek position ⟨p.number + 1, p.offset + p.line.length, next⟩ more
    else p

def Place.ofPosition (source : List Char) (position : Nat) : Place :=
  match Text.breakLines source with
  | [] => ⟨1, 0, []⟩
  | line :: more => Place.seek position ⟨1, 0, line⟩ more

/-- Characters of a line to mark, `first` included and `last` not, with the arm under `middle`. -/
structure Mark where
  first : Nat
  last : Nat
  middle : Nat

def Mark.covers (m : Mark) (position : Nat) : Bool :=
  m.first ≤ position && position < m.last

def Place.width (p : Place) : Nat :=
  (toString p.number).length

def margin (p : Place) : String :=
  " " ++ paint colours.faint (spaces (p.width + 1) ++ "│") ++ " "

def header (name : String) (p : Place) (m : Mark) : String :=
  spaces (p.width + 2) ++ paint colours.margin "╭" ++ paint colours.margin "─" ++
    paint colours.margin "[" ++ " " ++ name ++ ":" ++ toString p.number ++ ":" ++
    toString (m.first + 1) ++ " " ++ paint colours.margin "]" ++ "\n"

structure Glyph where
  shown : Char
  columns : Nat
deriving DecidableEq, Inhabited

/-- Tabs reach to the next multiple of this many characters. -/
def tabStop : Nat := 4

def Glyph.ofChar (c : Char) (position : Nat) : Glyph :=
  if c = '\t' then ⟨' ', tabStop - position % tabStop⟩
  else if Text.isBlank c then ⟨' ', 1⟩
  else ⟨c, Text.width c⟩

def glyphs (line : List Char) : List Glyph :=
  (Text.trimEnd line).zipIdx.map fun cell => Glyph.ofChar cell.1 cell.2

def sourceCell (m : Mark) (cell : Glyph × Nat) : String :=
  let drawn :=
    paint (if m.covers cell.2 then colours.marked else colours.plain) cell.1.shown.toString
  if cell.1.shown = ' ' then String.join (List.replicate cell.1.columns drawn) else drawn

def sourceRow (p : Place) (m : Mark) : String :=
  " " ++ paint colours.margin (toString p.number ++ " │") ++ " " ++
    String.join ((glyphs p.line).zipIdx.map (sourceCell m)) ++ "\n"

/-- What is drawn under a character: in its first column, and in each of the others. -/
structure Stroke where
  first : String
  more : String

def Stroke.over (s : Stroke) : Nat → String
  | 0 => ""
  | columns + 1 => s.first ++ String.join (List.replicate columns s.more)

/-- The widths of the first characters of a line; behind its end they are one. -/
def widths (line : List Char) (count : Nat) : List Nat :=
  ((glyphs line).map Glyph.columns ++ List.replicate count 1).take count

/-- A row under the line, as far as the marks and a little further. -/
def underRow (p : Place) (m : Mark) (stroke : Nat → Stroke) : String :=
  margin p ++ String.join ((widths p.line (m.last + 2)).zipIdx.map fun cell =>
    (stroke cell.2).over cell.1)

def ruleStroke (m : Mark) (position : Nat) : Stroke :=
  if position = m.middle then ⟨paint colours.marked "┬", paint colours.marked "─"⟩
  else if m.covers position then ⟨paint colours.marked "─", paint colours.marked "─"⟩
  else ⟨" ", " "⟩

def ruleRow (p : Place) (m : Mark) : String :=
  underRow p m (ruleStroke m) ++ "\n"

def armStroke (m : Mark) (position : Nat) : Stroke :=
  if position < m.middle then ⟨" ", " "⟩
  else if position = m.middle then ⟨paint colours.marked "╰", paint colours.marked "─"⟩
  else ⟨paint colours.marked "─", paint colours.marked "─"⟩

def armRow (p : Place) (m : Mark) (message : String) : String :=
  underRow p m (armStroke m) ++ " " ++ message ++ "\n"

/-- The rows between header and footer. Marks that go on behind the line are not drawn. -/
def body (p : Place) (m : Mark) (message : String) : String :=
  if p.line.length < m.last then margin p ++ "\n"
  else sourceRow p m ++ ruleRow p m ++ armRow p m message

def footer (p : Place) : String :=
  paint colours.margin (String.ofList (List.replicate (p.width + 2) '─') ++ "╯") ++ "\n"

def heading (message : String) : String :=
  paint colours.heading "Error:" ++ " " ++ message ++ "\n"

/-- The report of a message about a span. A span outside the source leaves the heading alone. -/
def draw (name : String) (source : List Char) (message : String) (span : Span) : String :=
  let start := span.start
  let stop := if span.isEmpty then start + 1 else span.stop
  if source.length < start || source.length < stop - 1 then heading message
  else
    let p := Place.ofPosition source start
    let m : Mark := ⟨start - p.offset, stop - p.offset, (start + stop) / 2 - p.offset⟩
    heading message ++ header name p m ++ spaces (p.width + 2) ++ paint colours.margin "│" ++
      "\n" ++ body p m message ++ footer p

def ofDiagnostic (name : String) (source : String) (d : Diagnostic) : String :=
  match d.span with
  | some span => draw name source.toList d.message span
  | none => d.text ++ "\n"

end Lox.Report
