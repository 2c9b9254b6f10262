import Lox.Proofs.Drawing
import Lox.Proofs.Stretches

/-!
# Pictures that mark a part of a line

A picture marks a part of a line if the place in its header is where the part begins, the characters
of the part are the highlighted ones, and the rule has its strokes under their columns. Marks that
begin and end with the part give such a picture (`Picture.marks_ofMark`), and marks that begin with
the part but go on behind it do not (`Picture.last_le_of_marks`).
-/

namespace Lox

namespace Report

def columns (text : List Char) : Nat :=
  total (text.map charWidth)

/-- A row shows its line from the start. What it leaves out of the part is white space, and so is
all up to the end of the line. -/
structure Shows (s : Stretch) (row : List Char) : Prop where
  begins : row <+: s.line
  cut : row.length < (s.lead ++ s.text).length →
    ∀ c ∈ (s.line.drop row.length).takeWhile (!Text.isLineBreak ·), Text.isBlank c = true

/-- The place in the header is this line and the column where the part begins; of the line exactly
the characters of the part are highlighted, and exactly their columns are underlined. -/
structure Picture.Marks (q : Picture) (line : Nat) (s : Stretch) : Prop where
  line_eq : q.line = line
  column_eq : q.column = s.lead.length + 1
  source_eq : ∃ row, Shows s row ∧
    q.source = highlighted row s.lead.length (s.lead.length + s.text.length)
  rule_eq : ∃ strokes blanks, (∀ cell ∈ strokes, cell = .marked '─' ∨ cell = .marked '┬') ∧
    strokes.length = columns s.text ∧
    q.rule = List.replicate (columns s.lead) .blank ++ (strokes ++ List.replicate blanks .blank)

theorem getElem?_highlighted (row : List Char) (first last i : Nat) :
    (highlighted row first last)[i]? = row[i]?.map fun c =>
      if first ≤ i ∧ i < last then .marked (shown c) else .plain (shown c) := by
  rw [highlighted, List.getElem?_map, List.getElem?_zipIdx, Option.map_map]
  simp only [Function.comp_def, Nat.zero_add]

theorem length_le_of_highlighted_eq {row row' : List Char} {first last last' : Nat}
    (h : highlighted row first last' = highlighted row' first last) (hle : first ≤ last)
    (hlt : last < last') : row.length ≤ last := by
  apply Nat.le_of_not_lt
  intro hrow
  -- at `last` the first row is marked and the second is not
  have hcell := congrArg (·[last]?) h
  simp only [getElem?_highlighted, List.getElem?_eq_getElem hrow, Option.map_some, hle, hlt,
    Nat.lt_irrefl, and_self, and_false, if_true, if_false] at hcell
  cases hother : row'[last]? with
  | none => simp [hother] at hcell
  | some c => simp [hother] at hcell

theorem isBlank_of_highlighted_eq {line lead text back row : List Char} {c : Char} {last : Nat}
    (hline : line = lead ++ text ++ c :: back)
    (h : highlighted (Text.trimEnd line) lead.length last =
      highlighted row lead.length (lead.length + text.length))
    (hlt : lead.length + text.length < last) : Text.isBlank c = true := by
  have hshown := length_le_of_highlighted_eq h (Nat.le_add_right ..) hlt
  obtain ⟨blanks, htrim, hblanks⟩ := Text.trimEnd_append line
  apply hblanks
  -- what is trimmed begins within the text, or at the character and no later
  rcases List.append_eq_append_iff.1 (htrim.symm.trans hline) with ⟨x, -, hx⟩ | ⟨x, hx, hback⟩
  · rw [hx]
    exact List.mem_append_right _ List.mem_cons_self
  · have hnil : x = [] := by
      rw [hx, List.length_append, List.length_append] at hshown
      exact List.length_eq_zero_iff.1 (by omega)
    rw [hnil, List.nil_append] at hback
    rw [← hback]
    exact List.mem_cons_self

section Rule

variable {m : Mark} {lead text : List Char} {i : Nat}

theorem ruleCell_of_covers (h : m.covers i = true) :
    ruleCell m i = .marked '─' ∨ ruleCell m i = .marked '┬' := by
  rw [ruleCell, if_pos h]
  split
  · exact .inr rfl
  · exact .inl rfl

theorem ruleCell_of_not_covers (hmiddle : m.covers m.middle = true) (h : m.covers i ≠ true) :
    ruleCell m i = .blank := by
  rw [ruleCell, if_neg h, if_neg]
  rintro rfl
  exact h hmiddle

/-- If the marks begin and end with the text, so do the strokes. -/
theorem ruleCells_eq (hmiddle : m.covers m.middle = true) (hfirst : m.first = lead.length)
    (hlast : m.last = lead.length + text.length) (tail : List Nat) :
    ruleCells m 0 (lead.map charWidth ++ (text.map charWidth ++ tail)) =
      List.replicate (columns lead) .blank ++
        (ruleCells m lead.length (text.map charWidth) ++ List.replicate (total tail) .blank) := by
  have hblank (i : Nat) (hi : i < m.first ∨ m.last ≤ i) : ruleCell m i = .blank := by
    apply ruleCell_of_not_covers hmiddle
    rw [Ne, covers_iff]
    omega
  have hlead : ruleCells m 0 (lead.map charWidth) = List.replicate (columns lead) .blank := by
    refine ruleCells_eq_replicate fun i _ hi => hblank i (.inl ?_)
    rw [List.length_map] at hi
    omega
  have htail : ruleCells m (lead.length + text.length) tail = List.replicate (total tail) .blank :=
    ruleCells_eq_replicate fun i hi _ => hblank i (.inr (by omega))
  rw [ruleCells_append, ruleCells_append, List.length_map, List.length_map, Nat.zero_add, hlead,
    htail]

/-- If the marks begin with the text and go on behind it, there are more strokes than the text takes
columns. -/
theorem columns_lt_countP (hfirst : m.first = lead.length)
    (hlast : lead.length + text.length < m.last) (tail : List Nat) :
    columns text < (ruleCells m 0 (lead.map charWidth ++ (text.map charWidth ++ 1 :: tail))).countP
      Cell.isMarked := by
  have hmarked (i : Nat) (hle : lead.length ≤ i) (hlt : i < m.last) :
      (ruleCell m i).isMarked = true := by
    rcases ruleCell_of_covers (covers_iff.2 ⟨hfirst ▸ hle, hlt⟩) with h | h <;> rw [h] <;> rfl
  have hlength : (ruleCells m lead.length (text.map charWidth)).length = columns text :=
    length_ruleCells _
  have htext :
      (ruleCells m lead.length (text.map charWidth)).countP Cell.isMarked = columns text := by
    refine (List.countP_eq_length.2 fun cell hcell => ?_).trans hlength
    obtain ⟨i, hle, hlt, rfl⟩ := exists_of_mem_ruleCells hcell
    rw [List.length_map] at hlt
    exact hmarked i hle (by omega)
  have hmore : 0 < (ruleCells m (lead.length + text.length) (1 :: tail)).countP Cell.isMarked := by
    refine List.countP_pos_iff.2 ⟨ruleCell m (lead.length + text.length), ?_, ?_⟩
    · exact List.mem_append_left _ (List.mem_replicate.2 ⟨by decide, rfl⟩)
    · exact hmarked _ (Nat.le_add_right ..) hlast
  rw [ruleCells_append, ruleCells_append, List.length_map, List.length_map, Nat.zero_add,
    List.countP_append, List.countP_append, htext]
  omega

end Rule

theorem widths_append {front back : List Char} (htab : '\t' ∉ front ++ back) {count : Nat}
    (hle : front.length ≤ count) :
    widths (front ++ back) count = front.map charWidth ++
      (back.map charWidth ++ List.replicate count 1).take (count - front.length) := by
  rw [widths_eq htab, List.map_append, List.append_assoc, List.take_append, List.length_map,
    List.take_of_length_le (by rwa [List.length_map])]

namespace Picture

variable {p : Place} {m : Mark} {s : Stretch} {back : List Char} {message : String}

theorem marks_ofMark (hline : p.line = s.lead ++ s.text ++ back) (htab : '\t' ∉ p.line)
    (hshows : Shows s (Text.trimEnd p.line)) (hfirst : m.first = s.lead.length)
    (hlast : m.last = s.lead.length + s.text.length) (hmiddle : m.covers m.middle = true) :
    (ofMark p m message).Marks p.number s where
  line_eq := rfl
  column_eq := by rw [ofMark, hfirst]
  source_eq := ⟨_, hshows, by rw [ofMark, hfirst, hlast]⟩
  rule_eq := by
    rw [hline] at htab
    have hle : (s.lead ++ s.text).length ≤ m.last + 2 := by
      rw [List.length_append]
      omega
    obtain ⟨tail, hwidths⟩ : ∃ tail, widths p.line (m.last + 2) =
        s.lead.map charWidth ++ (s.text.map charWidth ++ tail) :=
      ⟨_, by rw [hline, widths_append htab hle, List.map_append, List.append_assoc]⟩
    refine ⟨ruleCells m s.lead.length (s.text.map charWidth), total tail, ?_, length_ruleCells _,
      ?_⟩
    · intro cell hcell
      obtain ⟨i, hle, hlt, rfl⟩ := exists_of_mem_ruleCells hcell
      rw [List.length_map] at hlt
      exact ruleCell_of_covers (covers_iff.2 ⟨by omega, by omega⟩)
    · rw [ofMark, hwidths]
      exact ruleCells_eq hmiddle hfirst hlast tail

/-- Marks that go on behind the part show: in the line of the source, or if there is nothing to
highlight there, in the rule. -/
theorem last_le_of_marks {n : Nat} (hline : p.line = s.lead ++ s.text ++ back)
    (htab : '\t' ∉ p.line) (hfirst : m.first = s.lead.length) (hfits : m.last ≤ p.line.length)
    (h : (ofMark p m message).Marks n s) : m.last ≤ s.lead.length + s.text.length := by
  apply Nat.le_of_not_lt
  intro hlt
  obtain ⟨row, -, hsource⟩ := h.source_eq
  obtain ⟨strokes, blanks, -, hcount, hrule⟩ := h.rule_eq
  have hback : 0 < back.length := by
    rw [hline, List.length_append, List.length_append] at hfits
    omega
  obtain ⟨c, back, rfl⟩ := List.exists_cons_of_length_pos hback
  simp only [ofMark, hfirst] at hsource hrule
  have hcolumn : charWidth c = 1 := if_pos (isBlank_of_highlighted_eq hline hsource hlt)
  obtain ⟨k, hk⟩ : ∃ k, m.last + 2 - (s.lead ++ s.text).length = k + 1 := by
    refine ⟨m.last + 1 - (s.lead ++ s.text).length, ?_⟩
    rw [List.length_append]
    omega
  have hle : (s.lead ++ s.text).length ≤ m.last + 2 := by omega
  rw [hline] at htab hrule
  rw [widths_append htab hle, hk, List.map_cons, List.cons_append, List.take_succ_cons,
    hcolumn, List.map_append, List.append_assoc] at hrule
  have hstrokes := columns_lt_countP hfirst hlt
    ((back.map charWidth ++ List.replicate (m.last + 2) 1).take k)
  have hblanks (n : Nat) : (List.replicate n Cell.blank).countP Cell.isMarked = 0 := by
    simp [List.countP_replicate, Cell.isMarked]
  have hmarked : strokes.countP Cell.isMarked ≤ strokes.length := List.countP_le_length
  rw [hrule, List.countP_append, List.countP_append, hblanks, hblanks] at hstrokes
  omega

end Picture

end Report

namespace Span.Covers

open Report

variable {source : String} {span : Span} {s : Stretch}

theorem takeWhile_rest (h : span.Covers source s) :
    s.rest.takeWhile (!Text.isLineBreak ·) = s.line.takeWhile (!Text.isLineBreak ·) := by
  have hrest : s.rest = s.line ++ s.after := by
    simp only [Stretch.rest, Stretch.line, List.append_assoc]
  have hafter : s.after.takeWhile (!Text.isLineBreak ·) = [] := by
    rcases h.ends with hnil | hbreak
    · rw [hnil, List.takeWhile_nil]
    · obtain ⟨after, hafter⟩ := List.head?_eq_some_iff.1 hbreak
      rw [hafter]
      rfl
  rw [hrest, List.takeWhile_append, hafter, List.append_nil]
  split
  · next hlength => exact ((List.takeWhile_prefix _).eq_of_length hlength).symm
  · rfl

theorem shows_trimEnd (h : span.Covers source s) :
    Shows s (Text.trimEnd (Text.firstLine s.rest)) := by
  rw [Text.trimEnd_firstLine, h.takeWhile_rest]
  obtain ⟨blanks, htrim, hblanks⟩ := Text.trimEnd_append (s.line.takeWhile (!Text.isLineBreak ·))
  have hline : s.line = Text.trimEnd (s.line.takeWhile (!Text.isLineBreak ·)) ++
      (blanks ++ s.line.dropWhile (!Text.isLineBreak ·)) := by
    rw [← List.append_assoc, ← htrim, List.takeWhile_append_dropWhile]
  refine ⟨⟨_, hline.symm⟩, fun _ c hc => ?_⟩
  have hpass : ∀ c ∈ blanks, (!Text.isLineBreak c) = true := by
    intro c hc
    have hmem : c ∈ s.line.takeWhile (!Text.isLineBreak ·) := by
      rw [htrim]
      exact List.mem_append_right _ hc
    exact List.all_eq_true.1 List.all_takeWhile c hmem
  have hdrop := congrArg
    (List.drop (Text.trimEnd (s.line.takeWhile (!Text.isLineBreak ·))).length) hline
  rw [List.drop_left] at hdrop
  have hbreak : (s.line.dropWhile (!Text.isLineBreak ·)).takeWhile (!Text.isLineBreak ·) = [] := by
    have hhead := List.head?_dropWhile_not (!Text.isLineBreak ·) s.line
    cases hdropped : s.line.dropWhile (!Text.isLineBreak ·) with
    | nil => rfl
    | cons c rest =>
        rw [hdropped] at hhead
        exact List.takeWhile_cons_of_neg (by simpa using hhead)
  rw [hdrop, List.takeWhile_append_of_pos hpass, hbreak, List.append_nil] at hc
  exact hblanks c hc

end Span.Covers

end Lox
