import Lox.Proofs.LineBreaks
import Lox.Proofs.Unambiguous

/-!
# What a report shows

On a terminal a row of a report is a row of cells: characters of the source in the plain or in the
marked colour, strokes of the rule, and blanks between them. A report that is drawn in full is the
text of a `Picture`, and the text of a picture tells the picture (`Picture.text_injective`): the
number and the column in the header, the cells of the line and those of the rule under it can be
read off a report.
-/

namespace Lox.Report

inductive Cell where
  | blank
  | plain (c : Char)
  | marked (c : Char)
deriving DecidableEq

namespace Cell

def text : Cell → String
  | blank => " "
  | plain c => paint colours.plain c.toString
  | marked c => paint colours.marked c.toString

def isMarked : Cell → Bool
  | marked _ => true
  | blank | plain _ => false

/-- A blank does not start like a colour, and the two colours part at their first digit. -/
theorem text_append_inj {x y : Cell} {t u : String} (h : x.text ++ t = y.text ++ u) :
    x = y ∧ t = u := by
  have hchars := congrArg String.toList h
  cases x <;> cases y <;> simp [text, paint, colours, ← String.toList_inj] at hchars ⊢ <;>
    exact hchars

theorem text_append_ne_newline (x : Cell) (t u : String) : x.text ++ t ≠ "\n" ++ u := by
  intro h
  have hchars := congrArg String.toList h
  cases x <;> simp [text, paint, colours] at hchars

/-- The cells of a row and the line feed behind them. -/
def row (cells : List Cell) : String :=
  String.join (cells.map text) ++ "\n"

theorem row_nil : row [] = "\n" := rfl

theorem row_cons (x : Cell) (cells : List Cell) : row (x :: cells) = x.text ++ row cells := by
  rw [row, List.map_cons, String.join_cons, String.append_assoc]
  rfl

theorem row_append_inj {cells cells' : List Cell} {t u : String}
    (h : row cells ++ t = row cells' ++ u) : cells = cells' ∧ t = u := by
  induction cells generalizing cells' with
  | nil =>
      cases cells' with
      | nil => exact ⟨rfl, (String.append_right_inj _).1 h⟩
      | cons y cells' =>
          rw [row_nil, row_cons, String.append_assoc] at h
          exact absurd h.symm (text_append_ne_newline y _ _)
  | cons x cells ih =>
      cases cells' with
      | nil =>
          rw [row_nil, row_cons, String.append_assoc] at h
          exact absurd h (text_append_ne_newline x _ _)
      | cons y cells' =>
          rw [row_cons, row_cons, String.append_assoc, String.append_assoc] at h
          obtain ⟨rfl, hrest⟩ := text_append_inj h
          obtain ⟨rfl, hend⟩ := ih hrest
          exact ⟨rfl, hend⟩

end Cell

/-- The rows with the place and the gap under it. -/
def opening (name : String) (line column : Nat) : String :=
  spaces ((toString line).length + 2) ++ paint colours.margin "╭" ++ paint colours.margin "─" ++
    paint colours.margin "[" ++ " " ++ name ++ ":" ++ toString line ++ ":" ++ toString column ++
    " " ++ paint colours.margin "]" ++ "\n" ++
  (spaces ((toString line).length + 2) ++ paint colours.margin "│" ++ "\n")

theorem toList_spaces (n : Nat) : (spaces n).toList = List.replicate n ' ' :=
  String.toList_ofList

theorem toDigits_append_inj {n k : Nat} {stop : Char} (hstop : stop.isDigit = false)
    {t u : List Char} (h : Nat.toDigits 10 n ++ stop :: t = Nat.toDigits 10 k ++ stop :: u) :
    n = k ∧ t = u := by
  have hnot (i : Nat) : stop ∉ Nat.toDigits 10 i := by
    intro hmem
    rw [Nat.isDigit_of_mem_toDigits (by decide) (by decide) hmem] at hstop
    cases hstop
  obtain ⟨hdigits, hrest⟩ := Text.append_cons_inj (hnot n) (hnot k) h
  refine ⟨?_, hrest⟩
  calc n = Nat.ofDigitChars 10 (Nat.toDigits 10 n) 0 := Nat.ofDigitChars_ten_toDigits.symm
    _ = Nat.ofDigitChars 10 (Nat.toDigits 10 k) 0 := by rw [hdigits]
    _ = k := Nat.ofDigitChars_ten_toDigits

theorem opening_append_inj {name : String} {line line' column column' : Nat} {t u : String}
    (h : opening name line column ++ t = opening name line' column' ++ u) :
    line = line' ∧ column = column' ∧ t = u := by
  have hchars := congrArg String.toList h
  have hescape (n : Nat) : '\x1b' ∉ List.replicate n ' ' := by simp [List.mem_replicate]
  simp [opening, paint, colours, toList_spaces] at hchars
  obtain ⟨-, hchars⟩ := Text.append_cons_inj (hescape _) (hescape _) hchars
  simp only [List.cons.injEq, true_and, List.append_cancel_left_eq] at hchars
  obtain ⟨rfl, hchars⟩ := toDigits_append_inj rfl hchars
  obtain ⟨rfl, hchars⟩ := toDigits_append_inj rfl hchars
  simp [String.toList_inj] at hchars
  exact ⟨rfl, rfl, hchars⟩

/-- What is seen in a report: the place in the header, the line of the source, the rule under it,
and whatever follows. -/
structure Picture where
  line : Nat
  column : Nat
  source : List Cell
  rule : List Cell
  rest : String

namespace Picture

def sourceMargin (line : Nat) : String :=
  " " ++ paint colours.margin (toString line ++ " │") ++ " "

def ruleMargin (line : Nat) : String :=
  " " ++ paint colours.faint (spaces ((toString line).length + 1) ++ "│") ++ " "

def text (name message : String) (p : Picture) : String :=
  heading message ++ (opening name p.line p.column ++
    (sourceMargin p.line ++ (Cell.row p.source ++ (ruleMargin p.line ++
      (Cell.row p.rule ++ p.rest)))))

theorem text_injective {name message : String} {p q : Picture}
    (h : p.text name message = q.text name message) : p = q := by
  obtain ⟨hline, hcolumn, h⟩ := opening_append_inj ((String.append_right_inj _).1 h)
  rw [hline] at h
  obtain ⟨hsource, h⟩ := Cell.row_append_inj ((String.append_right_inj _).1 h)
  obtain ⟨hrule, hrest⟩ := Cell.row_append_inj ((String.append_right_inj _).1 h)
  cases p
  cases q
  simp_all

end Picture

/-- White space is shown as a space. -/
def shown (c : Char) : Char :=
  if Text.isBlank c then ' ' else c

/-- How many columns a character takes that is no tab. -/
def charWidth (c : Char) : Nat :=
  if Text.isBlank c then 1 else Text.width c

/-- A line with the characters from `first` up to `last` in the marked colour. -/
def highlighted (line : List Char) (first last : Nat) : List Cell :=
  line.zipIdx.map fun cell =>
    if first ≤ cell.2 ∧ cell.2 < last then .marked (shown cell.1) else .plain (shown cell.1)

def ruleCell (m : Mark) (position : Nat) : Cell :=
  if position = m.middle then .marked '┬' else if m.covers position then .marked '─' else .blank

def total (ws : List Nat) : Nat :=
  ws.foldr (· + ·) 0

/-- The rule under characters of these widths, the first of which stands at `position`. -/
def ruleCells (m : Mark) (position : Nat) : List Nat → List Cell
  | [] => []
  | w :: ws => List.replicate w (ruleCell m position) ++ ruleCells m (position + 1) ws

section Rule

variable {m : Mark} {position : Nat}

theorem ruleCells_append (ws ws' : List Nat) :
    ruleCells m position (ws ++ ws') =
      ruleCells m position ws ++ ruleCells m (position + ws.length) ws' := by
  induction ws generalizing position with
  | nil => rfl
  | cons w ws ih =>
      rw [List.cons_append, ruleCells, ruleCells, ih, List.append_assoc, List.length_cons,
        Nat.add_assoc, Nat.add_comm 1]

theorem length_ruleCells (ws : List Nat) : (ruleCells m position ws).length = total ws := by
  induction ws generalizing position with
  | nil => rfl
  | cons w ws ih => rw [ruleCells, List.length_append, List.length_replicate, ih, total, total,
      List.foldr_cons]

theorem exists_of_mem_ruleCells {ws : List Nat} {cell : Cell} (h : cell ∈ ruleCells m position ws) :
    ∃ i, position ≤ i ∧ i < position + ws.length ∧ cell = ruleCell m i := by
  induction ws generalizing position with
  | nil => simp [ruleCells] at h
  | cons w ws ih =>
      rw [List.length_cons]
      rcases List.mem_append.1 h with h | h
      · exact ⟨position, Nat.le_refl _, by omega, List.eq_of_mem_replicate h⟩
      · obtain ⟨i, hle, hlt, hcell⟩ := ih h
        exact ⟨i, by omega, by omega, hcell⟩

theorem ruleCells_eq_replicate {ws : List Nat}
    (h : ∀ i, position ≤ i → i < position + ws.length → ruleCell m i = .blank) :
    ruleCells m position ws = List.replicate (total ws) .blank := by
  refine List.eq_replicate_iff.2 ⟨length_ruleCells ws, fun cell hcell => ?_⟩
  obtain ⟨i, hle, hlt, rfl⟩ := exists_of_mem_ruleCells hcell
  exact h i hle hlt

end Rule

section Drawn

variable {line : List Char}

theorem mem_of_mem_trimEnd {c : Char} (h : c ∈ Text.trimEnd line) : c ∈ line := by
  obtain ⟨blanks, hline, -⟩ := Text.trimEnd_append line
  rw [hline]
  exact List.mem_append_left _ h

theorem glyph_ofChar {c : Char} (hc : c ≠ '\t') (position : Nat) :
    Glyph.ofChar c position = ⟨shown c, charWidth c⟩ := by
  rw [Glyph.ofChar, if_neg hc, shown, charWidth]
  split <;> rfl

theorem glyphs_eq (htab : '\t' ∉ line) :
    glyphs line = (Text.trimEnd line).map fun c => ⟨shown c, charWidth c⟩ := by
  have hcell : ∀ cell ∈ (Text.trimEnd line).zipIdx,
      Glyph.ofChar cell.1 cell.2 = ⟨shown cell.1, charWidth cell.1⟩ := by
    intro cell hcell
    apply glyph_ofChar
    rintro htab'
    exact htab (htab' ▸ mem_of_mem_trimEnd (List.fst_mem_of_mem_zipIdx hcell))
  calc glyphs line
      = (Text.trimEnd line).zipIdx.map ((fun c => ⟨shown c, charWidth c⟩) ∘ Prod.fst) :=
        List.map_congr_left hcell
    _ = ((Text.trimEnd line).zipIdx.map Prod.fst).map fun c => ⟨shown c, charWidth c⟩ :=
        List.map_map.symm
    _ = (Text.trimEnd line).map fun c => ⟨shown c, charWidth c⟩ := by rw [List.zipIdx_map_fst]

theorem charWidth_of_shown {c : Char} (h : shown c = ' ') : charWidth c = 1 := by
  by_cases hblank : Text.isBlank c = true
  · rw [charWidth, if_pos hblank]
  · rw [shown, if_neg hblank] at h
    rw [h] at hblank
    exact absurd (by decide) hblank

theorem covers_iff {m : Mark} {position : Nat} :
    m.covers position = true ↔ m.first ≤ position ∧ position < m.last := by
  simp [Mark.covers]

theorem sourceCell_eq (m : Mark) (c : Char) (position : Nat) :
    sourceCell m (⟨shown c, charWidth c⟩, position) =
      (if m.first ≤ position ∧ position < m.last then Cell.marked (shown c)
        else .plain (shown c)).text := by
  have hdrawn : paint (if m.covers position then colours.marked else colours.plain)
      (shown c).toString = (if m.first ≤ position ∧ position < m.last then Cell.marked (shown c)
        else .plain (shown c)).text := by
    by_cases h : m.first ≤ position ∧ position < m.last
    · rw [if_pos h, if_pos (covers_iff.2 h), Cell.text]
    · rw [if_neg h, if_neg (mt covers_iff.1 h), Cell.text]
  rw [sourceCell]
  simp only [hdrawn]
  split
  · next hshown => simp [charWidth_of_shown hshown]
  · rfl

theorem sourceRow_eq (p : Place) (m : Mark) (htab : '\t' ∉ p.line) :
    sourceRow p m = Picture.sourceMargin p.number ++
      Cell.row (highlighted (Text.trimEnd p.line) m.first m.last) := by
  have hcells : (glyphs p.line).zipIdx.map (sourceCell m) =
      (highlighted (Text.trimEnd p.line) m.first m.last).map Cell.text := by
    rw [glyphs_eq htab, List.zipIdx_map, List.map_map, highlighted, List.map_map]
    exact List.map_congr_left fun cell _ => sourceCell_eq m cell.1 cell.2
  rw [sourceRow, hcells, Cell.row, String.append_assoc]
  rfl

theorem widths_eq (htab : '\t' ∉ line) (count : Nat) :
    widths line count = (line.map charWidth ++ List.replicate count 1).take count := by
  obtain ⟨blanks, hline, hblanks⟩ := Text.trimEnd_append line
  have hones : blanks.map charWidth = List.replicate blanks.length 1 := by
    refine List.map_eq_replicate_iff.2 fun c hc => ?_
    rw [charWidth, if_pos (hblanks c hc)]
  have hcolumns : (glyphs line).map Glyph.columns = (Text.trimEnd line).map charWidth := by
    rw [glyphs_eq htab, List.map_map]
    rfl
  rw [widths, hcolumns]
  conv_rhs => rw [hline, List.map_append, hones, List.append_assoc, List.replicate_append_replicate]
  rw [List.take_append, List.take_append, List.take_replicate, List.take_replicate]
  congr 2
  omega

theorem over_eq (m : Mark) (position : Nat) {w : Nat} (hw : w ≤ 1) :
    (ruleStroke m position).over w =
      String.join ((List.replicate w (ruleCell m position)).map Cell.text) := by
  have hfirst : (ruleStroke m position).first = (ruleCell m position).text := by
    unfold ruleStroke ruleCell
    split
    · rfl
    · split <;> rfl
  rcases Nat.le_one_iff_eq_zero_or_eq_one.1 hw with rfl | rfl
  · rfl
  · simp [Stroke.over, hfirst]

theorem join_strokes_eq (m : Mark) {ws : List Nat} (hws : ∀ w ∈ ws, w ≤ 1) (position : Nat) :
    String.join ((ws.zipIdx position).map fun cell => (ruleStroke m cell.2).over cell.1) =
      String.join ((ruleCells m position ws).map Cell.text) := by
  induction ws generalizing position with
  | nil => rfl
  | cons w ws ih =>
      obtain ⟨hw, hws⟩ := List.forall_mem_cons.1 hws
      rw [List.zipIdx_cons, List.map_cons, String.join_cons, ih hws, ruleCells, List.map_append,
        String.join_append, over_eq m position hw]

theorem ruleRow_eq (p : Place) (m : Mark) (htab : '\t' ∉ p.line)
    (hnarrow : ∀ c ∈ p.line, Text.width c ≤ 1) :
    ruleRow p m = Picture.ruleMargin p.number ++
      Cell.row (ruleCells m 0 (widths p.line (m.last + 2))) := by
  have hwidths : ∀ w ∈ widths p.line (m.last + 2), w ≤ 1 := by
    intro w hw
    rw [widths_eq htab] at hw
    rcases List.mem_append.1 (List.mem_of_mem_take hw) with hw | hw
    · obtain ⟨c, hc, rfl⟩ := List.mem_map.1 hw
      rw [charWidth]
      split
      · exact Nat.le_refl _
      · exact hnarrow c hc
    · exact Nat.le_of_eq (List.eq_of_mem_replicate hw)
  rw [ruleRow, underRow, join_strokes_eq m hwidths, Cell.row, String.append_assoc]
  rfl

end Drawn

/-- The characters to mark for a span, whose positions count as characters. -/
def Mark.ofSpan (p : Place) (span : Span) : Mark where
  first := span.start - p.offset
  last := span.stop - p.offset
  middle := (span.start + span.stop) / 2 - p.offset

section Draw

variable {name message : String} {source : List Char} {span : Span}

/-- Too far behind the source there is nothing to draw. -/
def Far (source : List Char) (span : Span) : Prop :=
  source.length < span.start ∨ source.length < span.stop - 1

theorem draw_of_far (hne : span.isEmpty = false) (hfar : Far source span) :
    draw name source message span = heading message := by
  simp only [draw, hne, Bool.false_eq_true, if_false]
  exact if_pos (by simpa [Far] using hfar)

theorem draw_of_near (hne : span.isEmpty = false) (hnear : ¬ Far source span) :
    draw name source message span =
      let p := Place.ofPosition source span.start
      let m := Mark.ofSpan p span
      heading message ++ (opening name p.number (m.first + 1) ++
        (body p m message ++ footer p)) := by
  simp only [draw, hne, Bool.false_eq_true, if_false]
  rw [if_neg (by simpa [Far] using hnear)]
  simp only [header, opening, String.append_assoc]
  rfl

/-- The picture of a line with these marks. -/
def Picture.ofMark (p : Place) (m : Mark) (message : String) : Picture where
  line := p.number
  column := m.first + 1
  source := highlighted (Text.trimEnd p.line) m.first m.last
  rule := ruleCells m 0 (widths p.line (m.last + 2))
  rest := armRow p m message ++ footer p

section

variable (hdrawable : ∀ c ∈ source, Text.isDrawable c = true) (hne : span.isEmpty = false)
  {p : Place} (hp : Place.ofPosition source span.start = p)
include hdrawable hne hp

theorem draw_eq_text (hnear : ¬ Far source span)
    (hfits : (Mark.ofSpan p span).last ≤ p.line.length) :
    draw name source message span =
      (Picture.ofMark p (Mark.ofSpan p span) message).text name message := by
  have hdrawn : ∀ c ∈ p.line, Text.isDrawable c = true := fun c hc =>
    hdrawable c (Place.mem_of_mem_line (hp ▸ hc))
  have htab := Text.tab_not_mem hdrawn
  have hnarrow : ∀ c ∈ p.line, Text.width c ≤ 1 := fun c hc =>
    Text.width_le_one_of_isDrawable (hdrawn c hc)
  rw [draw_of_near hne hnear, hp]
  simp only [body, if_neg (Nat.not_lt.2 hfits), sourceRow_eq p _ htab, ruleRow_eq p _ htab hnarrow,
    Picture.text, Picture.ofMark, String.append_assoc]

/-- A report that shows a picture shows that of its marks: with the heading alone, or without the
line of the source, it would be another text. -/
theorem eq_ofMark_of_draw_eq_text {q : Picture}
    (h : draw name source message span = q.text name message) :
    q = Picture.ofMark p (Mark.ofSpan p span) message ∧
      (Mark.ofSpan p span).last ≤ p.line.length := by
  by_cases hfar : Far source span
  · have hheading : heading message ++ "" = q.text name message := by
      rw [String.append_empty, ← h, draw_of_far hne hfar]
    have hempty := congrArg String.toList ((String.append_right_inj _).1 hheading)
    simp [opening] at hempty
  · by_cases hfits : (Mark.ofSpan p span).last ≤ p.line.length
    · rw [draw_eq_text hdrawable hne hp hfar hfits] at h
      exact ⟨(Picture.text_injective h).symm, hfits⟩
    · rw [draw_of_near hne hfar, hp] at h
      obtain ⟨-, -, hbody⟩ := opening_append_inj ((String.append_right_inj _).1 h)
      -- the margin of a row without a number has another colour
      rw [body, if_pos (Nat.not_le.1 hfits)] at hbody
      have hmargin := congrArg String.toList hbody
      simp [margin, Picture.sourceMargin, paint, colours] at hmargin

end

end Draw

end Lox.Report
