import Lox.Proofs.LayoutIndependence
import Lox.Proofs.Marking

/-!
# Reports underline the text of a span if it is ASCII up to there

A report takes the bytes of a span for characters. Up to the end of a span in ASCII these are the
same, and the report marks the text of the span. Where there are more bytes than characters, the
header names a place further on, or the marks are longer than the text. So the report of a
diagnostic is right exactly if the source is ASCII up to the end of the span
(`Report.marksSpan_iff_asciiUpTo`). Every diagnostic of a run has the place of an item of the scan,
since tokens are handed on as they are.
-/

namespace Lox

namespace Span.Covers

open Report

variable {source : String} {span : Span} {s : Stretch}

section Place

variable (hdrawable : ∀ c ∈ source.toList, Text.isDrawable c = true)
include hdrawable

theorem isDrawable_of_mem (h : span.Covers source s) {c : Char} (hc : c ∈ s.before ++ s.rest) :
    Text.isDrawable c = true :=
  hdrawable c (h.source_eq ▸ hc)

theorem tab_not_mem_line (position : Nat) :
    '\t' ∉ (Place.ofPosition source.toList position).line :=
  Text.tab_not_mem fun c hc => hdrawable c (Place.mem_of_mem_line hc)

/-- Looking for the start of the span comes to the line of the part, and goes on from there if the
number of bytes in front of the span is larger than the number of characters. -/
theorem ofPosition_eq (h : span.Covers source s) (hne : span.isEmpty = false) :
    Place.ofPosition source.toList span.start =
      Place.seek span.start ⟨1 + (Text.breakLines s.before).length, s.before.length,
        Text.firstLine s.rest⟩ (Text.otherLines s.rest) := by
  have hreturn := Text.return_not_mem fun _ hc => h.isDrawable_of_mem hdrawable hc
  obtain ⟨hbefore, hrest⟩ := not_or.1 (mt List.mem_append.2 hreturn)
  have hlines : Text.breakLines source.toList =
      Text.breakLines s.before ++ Text.firstLine s.rest :: Text.otherLines s.rest := by
    rw [h.source_eq, Text.breakLines_append hbefore h.begins,
      Text.breakLines_of_ne_nil (h.rest_ne_nil hne) hrest]
  have hle : (Text.breakLines s.before).flatten.length ≤ span.start := by
    have := length_le_byteCount s.before
    rw [Text.flatten_breakLines, ← h.start, byteCount_append]
    omega
  rw [Place.ofPosition_eq_seek hlines hle, Text.flatten_breakLines]

theorem length_breakLines_before (h : span.Covers source s) :
    (Text.breakLines s.before).length = s.before.countP Text.isLineBreak :=
  Text.length_breakLines (Text.return_not_mem fun _ hc =>
    h.isDrawable_of_mem hdrawable (List.mem_append_left _ hc)) h.begins

theorem count_le_length_breakLines (h : span.Covers source s) :
    s.before.count '\n' ≤ (Text.breakLines s.before).length := by
  rw [h.length_breakLines_before hdrawable, List.count]
  refine List.countP_mono_left fun c _ hc => ?_
  rw [beq_iff_eq] at hc
  rw [hc]
  rfl

theorem length_breakLines_of_ascii (h : span.Covers source s)
    (hascii : ∀ c ∈ s.before, c.toNat < 128) :
    (Text.breakLines s.before).length = s.before.count '\n' := by
  rw [h.length_breakLines_before hdrawable, List.count]
  refine List.countP_congr fun c hc => ?_
  rw [Text.isLineBreak_of_isDrawable
    (h.isDrawable_of_mem hdrawable (List.mem_append_left _ hc)) (hascii c hc), beq_iff_eq]

theorem isLineBreak_eq_false (h : span.Covers source s) {c : Char} (hc : c ∈ s.lead ++ s.text)
    (hascii : c.toNat < 128) : Text.isLineBreak c = false := by
  have hrest : c ∈ s.rest := by
    rw [Stretch.rest, ← List.append_assoc]
    exact List.mem_append_left _ hc
  have hline : c ∈ s.line := by
    rw [Stretch.line, ← List.append_assoc]
    exact List.mem_append_left _ hc
  have hdrawn := h.isDrawable_of_mem hdrawable (List.mem_append_right _ hrest)
  rw [Bool.eq_false_iff, Ne, Text.isLineBreak_of_isDrawable hdrawn hascii]
  rintro rfl
  exact h.unbroken hline

theorem ofPosition_of_ascii (h : span.Covers source s) (hne : span.isEmpty = false)
    (hascii : ∀ c ∈ s.before ++ s.lead, c.toNat < 128) :
    Place.ofPosition source.toList span.start =
      ⟨1 + s.before.count '\n', s.before.length, Text.firstLine s.rest⟩ := by
  obtain ⟨hbefore, hlead⟩ := List.forall_mem_append.1 hascii
  rw [h.ofPosition_eq hdrawable hne, h.length_breakLines_of_ascii hdrawable hbefore]
  apply Place.seek_of_lt
  change span.start < s.before.length + (Text.firstLine s.rest).length
  have hstart := byteCount_eq_length_iff.2 hascii
  rw [h.start, List.length_append] at hstart
  have hbroken : ∀ c ∈ s.lead, Text.isLineBreak c = false := fun c hc =>
    h.isLineBreak_eq_false hdrawable (List.mem_append_left _ hc) (hlead c hc)
  have hmore : s.text ++ (s.trail ++ s.after) ≠ [] := by simp [h.text_ne_nil hne]
  have hpos := List.length_pos_iff.2 (Text.firstLine_ne_nil hmore)
  rw [hstart, Stretch.rest, Text.firstLine_append hbroken, List.length_append]
  omega

/-- A place on the line of the part, at the column where the part begins, has only ASCII in front of
it: a place on a later line has a larger number. -/
theorem ascii_of_ofPosition (h : span.Covers source s) (hne : span.isEmpty = false)
    (hnumber : (Place.ofPosition source.toList span.start).number = 1 + s.before.count '\n')
    (hcolumn : span.start - (Place.ofPosition source.toList span.start).offset = s.lead.length) :
    ∀ c ∈ s.before ++ s.lead, c.toNat < 128 := by
  have hplace := h.ofPosition_eq hdrawable hne
  have hcount := h.count_le_length_breakLines hdrawable
  rw [hplace] at hnumber hcolumn
  rcases Place.seek_eq_or_number_lt with hsame | hlater
  · rw [hsame] at hcolumn
    have hbefore := length_le_byteCount s.before
    have hlead := length_le_byteCount s.lead
    have hstart := h.start
    rw [byteCount_append] at hstart
    apply byteCount_eq_length_iff.1
    rw [byteCount_append, List.length_append]
    simp only at hcolumn
    omega
  · rw [hnumber] at hlater
    simp only at hlater
    omega

theorem exists_marks (h : span.Covers source s) (hne : span.isEmpty = false) (hascii : s.Ascii)
    (name message : String) :
    ∃ q, draw name source.toList message span = Picture.text name message q ∧
      q.Marks (1 + s.before.count '\n') s := by
  obtain ⟨hbefore, hpart⟩ := List.forall_mem_append.1 hascii
  have hfront : ∀ c ∈ s.before ++ s.lead, c.toNat < 128 :=
    List.forall_mem_append.2 ⟨hbefore, (List.forall_mem_append.1 hpart).1⟩
  have hstart := byteCount_eq_length_iff.2 hfront
  have hstop := byteCount_eq_length_iff.2 hascii
  have hpos := List.length_pos_iff.2 (h.text_ne_nil hne)
  rw [h.start, List.length_append] at hstart
  rw [h.stop_eq, List.length_append, List.length_append] at hstop
  -- the text has no breaks, so the line goes on up to its end at least
  have hline : Text.firstLine s.rest = s.lead ++ s.text ++ Text.firstLine (s.trail ++ s.after) := by
    rw [← Text.firstLine_append fun c hc => h.isLineBreak_eq_false hdrawable hc (hpart c hc),
      Stretch.rest]
    simp only [List.append_assoc]
  have hp := h.ofPosition_of_ascii hdrawable hne hfront
  have htab := tab_not_mem_line hdrawable span.start
  rw [hp] at htab
  have hfirst : span.start - s.before.length = s.lead.length := by omega
  have hlast : span.stop - s.before.length = s.lead.length + s.text.length := by omega
  have hmiddle : span.start - s.before.length ≤ (span.start + span.stop) / 2 - s.before.length ∧
      (span.start + span.stop) / 2 - s.before.length < span.stop - s.before.length := by omega
  refine ⟨_, draw_eq_text hdrawable hne hp ?_ ?_,
    Picture.marks_ofMark hline htab h.shows_trimEnd hfirst hlast (covers_iff.2 hmiddle)⟩
  · rw [Far, h.source_split]
    simp only [List.length_append]
    omega
  · change span.stop - s.before.length ≤ (Text.firstLine s.rest).length
    rw [hlast, hline, List.length_append, List.length_append]
    omega

/-- A report that marks the part and names its line has only ASCII up to the end of the part: with
more bytes than characters the place is further on, or the marks are too long. -/
theorem ascii_of_marks (h : span.Covers source s) (hne : span.isEmpty = false)
    {name message : String} {q : Picture}
    (hreport : draw name source.toList message span = Picture.text name message q)
    (hq : q.Marks (1 + s.before.count '\n') s) : s.Ascii := by
  have htab := tab_not_mem_line hdrawable span.start
  obtain ⟨rfl, hfits⟩ := eq_ofMark_of_draw_eq_text hdrawable hne rfl hreport
  have hfront := h.ascii_of_ofPosition hdrawable hne hq.line_eq (Nat.succ.inj hq.column_eq)
  have hp := h.ofPosition_of_ascii hdrawable hne hfront
  rw [hp] at hq hfits htab
  have hstart := byteCount_eq_length_iff.2 hfront
  rw [h.start, List.length_append] at hstart
  have hstop : span.stop = span.start + byteCount s.text := by rw [h.length, Span.stop]
  have hfirst : span.start - s.before.length = s.lead.length := by omega
  have htext := length_le_byteCount s.text
  obtain ⟨back, hline⟩ : ∃ back, Text.firstLine s.rest = s.lead ++ s.text ++ back := by
    apply Stretch.exists_firstLine_eq
    change span.stop - s.before.length ≤ (Text.firstLine s.rest).length at hfits
    rw [List.length_append]
    omega
  have hlast := Picture.last_le_of_marks hline htab hfirst hfits hq
  change span.stop - s.before.length ≤ s.lead.length + s.text.length at hlast
  apply byteCount_eq_length_iff.1
  rw [h.stop_eq, List.length_append, List.length_append]
  omega

theorem line_eq_of_marks (h : span.Covers source s) (hne : span.isEmpty = false)
    (hascii : s.Ascii) {name message : String} {q : Picture} {line : Nat}
    (hreport : draw name source.toList message span = Picture.text name message q)
    (hq : q.Marks line s) : line = 1 + s.before.count '\n' := by
  obtain ⟨q', hreport', hq'⟩ := h.exists_marks hdrawable hne hascii name message
  obtain rfl := Picture.text_injective (hreport.symm.trans hreport')
  exact hq.line_eq.symm.trans hq'.line_eq

end Place

end Span.Covers

namespace Scanner

theorem StandsBehind.items {s : Scanner} {source : String} {front : List Char}
    (h : s.StandsBehind source front) (hsize : source.utf8ByteSize ≤ Span.limit) :
    ∀ item ∈ s.items, item.Placed source := by
  induction s using Scanner.items.induct generalizing front with
  | case1 s hstep =>
      rw [items_of_step_eq_none hstep]
      intro item hitem
      rw [List.mem_singleton.1 hitem]
      exact (h.placed_finish hsize (step_eq_none_iff.1 hstep)).1
  | case2 s item? after hstep ih =>
      obtain ⟨tile, hbegins, htext, hitem?, hafter⟩ := h.step hstep
      rw [items_of_step hstep]
      intro item hitem
      rcases List.mem_append.1 hitem with hitem | hitem
      · rw [Option.mem_toList, hitem?] at hitem
        exact (Tile.placed_of_item? hsize htext hbegins hitem).1
      · exact ih hafter item hitem

end Scanner

namespace Run

variable {source : String} {action : Action} {d : Diagnostic}

theorem Alike.exists_token {R : Token → Token → Prop} {x y : Run} (h : Alike R x y)
    (hd : d ∈ x.diagnostics) : ∃ t u, R t u ∧ d.line = t.line ∧ d.span = some t.span := by
  cases h with
  | ok text => simp at hd
  | error failure message h =>
      obtain rfl := List.mem_singleton.1 hd
      exact ⟨_, _, h, rfl, rfl⟩

/-- What is reported stands where an item of the scan stands. Readers and operators only hand tokens
on, so each token blamed is one that was scanned. -/
theorem exists_item_of_mem_diagnostics (hd : d ∈ (ofSource source action).diagnostics) :
    ∃ item ∈ (Scanner.ofSource source).items, d.line = item.line ∧ d.span = some item.span := by
  by_cases herror : (Scan.ofSource source).hadError = true
  · rw [ofSource] at hd
    simp only [herror, if_true, Scan.diagnostics] at hd
    obtain ⟨error, herror, rfl⟩ := List.mem_map.1 hd
    exact ⟨.error error, Scan.mem_errors_ofItems.1 herror, rfl, rfl⟩
  · rw [ofSource_of_not_hadError (Bool.eq_false_iff.2 herror)] at hd
    have hsame : List.Forall₂ (fun t u => t = u ∧ t ∈ (Scan.ofSource source).tokens)
        (Cursor.withEnd (Scan.ofSource source).tokens)
        (Cursor.withEnd (Scan.ofSource source).tokens) := by
      rw [Scan.withEnd_tokens]
      exact List.forall₂_same.2 fun t ht => ⟨rfl, ht⟩
    have halike := alike_ofTokens ⟨fun h => by rw [h.1], fun h => by rw [h.1]⟩
      (fun t u h => by rw [h.1]) hsame action
    obtain ⟨t, u, ht, hline, hspan⟩ := halike.exists_token hd
    exact ⟨.ok t, Scan.mem_tokens_ofItems.1 ht.2, hline, hspan⟩

end Run

namespace Report

/-- The report of a diagnostic marks the text of the span, and names the line of the diagnostic. -/
def MarksSpan (name source : String) (d : Diagnostic) (span : Span) : Prop :=
  ∃ s q, span.Covers source s ∧ ofDiagnostic name source d = Picture.text name d.message q ∧
    q.Marks d.line s

variable {name source : String} {d : Diagnostic} {span : Span}

theorem ofDiagnostic_of_span (hspan : d.span = some span) :
    ofDiagnostic name source d = draw name source.toList d.message span := by
  rw [ofDiagnostic, hspan]

section

variable (hdrawable : ∀ c ∈ source.toList, Text.isDrawable c = true) (hspan : d.span = some span)
  (hne : span.isEmpty = false)
include hdrawable hspan hne

theorem asciiUpTo_of_marksSpan (hline : d.line = lineOf source span.stop)
    (h : MarksSpan name source d span) : AsciiUpTo source span.stop := by
  obtain ⟨s, q, hcovers, hreport, hmarks⟩ := h
  rw [ofDiagnostic_of_span hspan] at hreport
  rw [hline, hcovers.lineOf_stop] at hmarks
  exact hcovers.ascii_iff.1 (hcovers.ascii_of_marks hdrawable hne hreport hmarks)

theorem line_eq_of_marksSpan (hascii : AsciiUpTo source span.stop)
    (h : MarksSpan name source d span) : d.line = lineOf source span.stop := by
  obtain ⟨s, q, hcovers, hreport, hmarks⟩ := h
  rw [ofDiagnostic_of_span hspan] at hreport
  rw [hcovers.lineOf_stop]
  exact hcovers.line_eq_of_marks hdrawable hne (hcovers.ascii_iff.2 hascii) hreport hmarks

theorem marksSpan_of_asciiUpTo
    (hbytes : 10 ∉ (source.toUTF8.extract span.start span.stop).data)
    (hascii : AsciiUpTo source span.stop) (hline : d.line = lineOf source span.stop) :
    MarksSpan name source d span := by
  obtain ⟨s, hcovers⟩ := Span.exists_covers hascii hbytes
  obtain ⟨q, hreport, hmarks⟩ :=
    hcovers.exists_marks hdrawable hne (hcovers.ascii_iff.2 hascii) name d.message
  rw [← hcovers.lineOf_stop, ← hline] at hmarks
  exact ⟨s, q, hcovers, (ofDiagnostic_of_span hspan).trans hreport, hmarks⟩

end

/-- Of the diagnostics of a run on a text of characters that are drawn in one column at most, those
are drawn right whose span has only ASCII in front of its end: a report then names the line of the
diagnostic and the column of the first character, highlights the characters of the span and
underlines their columns, and it does so for no other span. In a source that spans can count, the
line of a diagnostic is that of its span; in a longer one the report is right if this is still
so. -/
theorem marksSpan_iff_asciiUpTo (name source : String) (action : Action)
    (hdrawable : ∀ c ∈ source.toList, Text.isDrawable c = true) (d : Diagnostic)
    (hd : d ∈ (Run.ofSource source action).diagnostics) (span : Span) (hspan : d.span = some span)
    (hne : span.isEmpty = false)
    (hbytes : 10 ∉ (source.toUTF8.extract span.start span.stop).data) :
    (source.utf8ByteSize ≤ Span.limit → d.line = lineOf source span.stop) ∧
      (d.line = lineOf source span.stop →
        (MarksSpan name source d span ↔ AsciiUpTo source span.stop)) ∧
      (AsciiUpTo source span.stop →
        (MarksSpan name source d span ↔ d.line = lineOf source span.stop)) := by
  refine ⟨fun hsize => ?_, fun hline => ?_, fun hascii => ?_⟩
  · obtain ⟨item, hitem, hline, hitemSpan⟩ := Run.exists_item_of_mem_diagnostics hd
    obtain rfl := Option.some.inj (hspan.symm.trans hitemSpan)
    have hplaced := (Scanner.standsBehind_ofSource source).items hsize item hitem
    exact hline.trans hplaced.line
  · exact ⟨asciiUpTo_of_marksSpan hdrawable hspan hne hline,
      fun hascii => marksSpan_of_asciiUpTo hdrawable hspan hne hbytes hascii hline⟩
  · exact ⟨line_eq_of_marksSpan hdrawable hspan hne hascii,
      marksSpan_of_asciiUpTo hdrawable hspan hne hbytes hascii⟩

theorem minus_before_accent_marked :
    let source := "1 <\n  nil - \"é\""
    let d : Diagnostic := ⟨2, "Operands must be numbers.", some ⟨10, 1⟩⟩
    (Run.ofSource source .evaluate).diagnostics = [d] ∧ AsciiUpTo source 11 ∧
      ¬ AsciiUpTo source source.length ∧ MarksSpan "input.lox" source d ⟨10, 1⟩ := by
  intro source d
  have hd : (Run.ofSource source .evaluate).diagnostics = [d] := by decide +kernel
  have hdrawable : source.toList.all Text.isDrawable = true := by decide +kernel
  have hascii : AsciiUpTo source 11 := by decide +kernel
  have hbytes : 10 ∉ (source.toUTF8.extract 10 11).data := by decide +kernel
  obtain ⟨hline, hmarks, -⟩ := marksSpan_iff_asciiUpTo "input.lox" source .evaluate
    (List.all_eq_true.1 hdrawable) d (hd ▸ List.mem_singleton.2 rfl) ⟨10, 1⟩ rfl rfl hbytes
  exact ⟨hd, hascii, by decide +kernel, (hmarks (hline (by decide +kernel))).2 hascii⟩

/-- The sum blames its sign, but the report is about the blank behind it. -/
theorem plus_behind_accent_not_marked :
    let source := "\"é\" + 1"
    let d : Diagnostic := ⟨1, "Operands must be two numbers or two strings.", some ⟨5, 1⟩⟩
    (Run.ofSource source .evaluate).diagnostics = [d] ∧
      (∀ c ∈ source.toList, Text.isDrawable c = true) ∧ (Span.mk 5 1).isEmpty = false ∧
      10 ∉ (source.toUTF8.extract 5 6).data ∧ ¬ MarksSpan "input.lox" source d ⟨5, 1⟩ ∧
      ∃ q : Picture, ofDiagnostic "input.lox" source d = q.text "input.lox" d.message ∧
        q.column = 6 ∧ q.source = highlighted source.toList 5 6 := by
  intro source d
  have hdrawable : source.toList.all Text.isDrawable = true := by decide +kernel
  have hd : (Run.ofSource source .evaluate).diagnostics = [d] := by decide +kernel
  have hbytes : 10 ∉ (source.toUTF8.extract 5 6).data := by decide +kernel
  have hline : d.line = lineOf source (Span.mk 5 1).stop := by decide +kernel
  have hascii : ¬ AsciiUpTo source (Span.mk 5 1).stop := by decide +kernel
  have hreport : ofDiagnostic "input.lox" source d =
      (Picture.ofMark ⟨1, 0, source.toList⟩ ⟨5, 6, 5⟩ d.message).text "input.lox" d.message := by
    decide +kernel
  have hshown : Text.trimEnd source.toList = source.toList := by decide +kernel
  refine ⟨hd, List.all_eq_true.1 hdrawable, rfl, hbytes, ?_, _, hreport, rfl, ?_⟩
  · intro hmarks
    exact hascii (asciiUpTo_of_marksSpan (List.all_eq_true.1 hdrawable) rfl rfl hline hmarks)
  · rw [Picture.ofMark, hshown]

end Report

end Lox