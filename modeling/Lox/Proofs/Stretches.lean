import Lox.Proofs.LineBreaks
import Lox.Proofs.Places

/-!
# Parts of a line

A span counts bytes, and a reader of the source sees lines of characters. A stretch is a part of one
line with what stands around it, and `Span.Covers` ties the two: the bytes of the span are those of
the part. Bytes and characters count alike exactly as far as the source is ASCII
(`byteCount_eq_length_iff`).
-/

namespace Lox

section Ascii

variable {text : List Char}

theorem length_le_byteCount (text : List Char) : text.length ≤ byteCount text := by
  induction text with
  | nil => exact Nat.le_refl _
  | cons c text ih =>
      have := c.utf8Size_pos
      rw [byteCount_cons, List.length_cons]
      omega

theorem byteCount_eq_length_iff : byteCount text = text.length ↔ ∀ c ∈ text, c.toNat < 128 := by
  induction text with
  | nil => simp [byteCount]
  | cons c text ih =>
      have hpos := c.utf8Size_pos
      have hle := length_le_byteCount text
      have hone : c.utf8Size = 1 ↔ c.toNat < 128 :=
        Char.utf8Size_eq_one_iff.trans (UInt32.le_iff_toNat_le.trans Nat.lt_succ_iff.symm)
      rw [byteCount_cons, List.length_cons, List.forall_mem_cons, ← ih, ← hone]
      omega

/-- Of two parts from the start of a text that take as many bytes, neither goes further. -/
theorem eq_of_byteCount_eq {front rest front' rest' : List Char}
    (h : front ++ rest = front' ++ rest') (hcount : byteCount front = byteCount front') :
    front = front' := by
  have hnil (more : List Char) (hmore : byteCount more = 0) : more = [] :=
    List.length_eq_zero_iff.1 (Nat.le_zero.1 (hmore ▸ length_le_byteCount more))
  rcases List.append_eq_append_iff.1 h with ⟨more, rfl, -⟩ | ⟨more, rfl, -⟩
  · rw [byteCount_append] at hcount
    rw [hnil more (by omega), List.append_nil]
  · rw [byteCount_append] at hcount
    rw [hnil more (by omega), List.append_nil]

end Ascii

/-- There are so many characters, and the first of them, up to this position, are ASCII. -/
def AsciiUpTo (source : String) (position : Nat) : Prop :=
  position ≤ source.toList.length ∧ ∀ c ∈ source.toList.take position, c.toNat < 128

theorem asciiUpTo_iff {source : String} {position : Nat} :
    (decide (position ≤ source.toList.length) &&
      (source.toList.take position).all fun c => decide (c.toNat < 128)) = true ↔
        AsciiUpTo source position := by
  simp only [AsciiUpTo, Bool.and_eq_true, decide_eq_true_eq, List.all_eq_true]

instance (source : String) (position : Nat) : Decidable (AsciiUpTo source position) :=
  decidable_of_decidable_of_iff asciiUpTo_iff

/-- A text in lines with a part of one line to look at: what stands in front of the line, the line
up to the part, the part, the rest of the line, and what follows the line. -/
structure Stretch where
  before : List Char
  lead : List Char
  text : List Char
  trail : List Char
  after : List Char

namespace Stretch

def line (s : Stretch) : List Char :=
  s.lead ++ (s.text ++ s.trail)

def rest (s : Stretch) : List Char :=
  s.lead ++ (s.text ++ (s.trail ++ s.after))

/-- All is ASCII up to the end of the part. -/
def Ascii (s : Stretch) : Prop :=
  ∀ c ∈ s.before ++ (s.lead ++ s.text), c.toNat < 128

theorem exists_firstLine_eq {s : Stretch}
    (hle : (s.lead ++ s.text).length ≤ (Text.firstLine s.rest).length) :
    ∃ back, Text.firstLine s.rest = s.lead ++ s.text ++ back := by
  have hbegins : s.lead ++ s.text <+: Text.firstLine s.rest := by
    refine List.prefix_of_prefix_length_le ⟨s.trail ++ s.after, ?_⟩ (Text.firstLine_begins _) hle
    simp only [rest, List.append_assoc]
  obtain ⟨back, hback⟩ := hbegins
  exact ⟨back, hback.symm⟩

end Stretch

/-- The span holds the bytes of a part of one line. -/
structure Span.Covers (span : Span) (source : String) (s : Stretch) : Prop where
  source_eq : source.toList = s.before ++ s.rest
  start : byteCount (s.before ++ s.lead) = span.start
  length : byteCount s.text = span.length
  begins : s.before = [] ∨ s.before.getLast? = some '\n'
  ends : s.after = [] ∨ s.after.head? = some '\n'
  unbroken : '\n' ∉ s.line

namespace Span.Covers

variable {source : String} {span : Span} {s : Stretch}

theorem stop_eq (h : span.Covers source s) :
    byteCount (s.before ++ (s.lead ++ s.text)) = span.stop := by
  rw [← List.append_assoc, byteCount_append, h.start, h.length, Span.stop]

theorem source_split (h : span.Covers source s) :
    source.toList = s.before ++ (s.lead ++ s.text) ++ (s.trail ++ s.after) := by
  rw [h.source_eq, Stretch.rest]
  simp only [List.append_assoc]

theorem lineOf_stop (h : span.Covers source s) :
    lineOf source span.stop = 1 + s.before.count '\n' := by
  have hunbroken : '\n' ∉ s.lead ++ s.text := by
    intro hmem
    apply h.unbroken
    rw [Stretch.line, ← List.append_assoc]
    exact List.mem_append_left _ hmem
  rw [← h.stop_eq, lineOf_of_split h.source_split, List.count_append,
    List.count_eq_zero_of_not_mem hunbroken, Nat.add_zero]

theorem ascii_iff (h : span.Covers source s) : s.Ascii ↔ AsciiUpTo source span.stop := by
  constructor
  · intro hascii
    have hlength := byteCount_eq_length_iff.2 hascii
    rw [h.stop_eq] at hlength
    rw [AsciiUpTo, h.source_split, hlength, List.take_left]
    exact ⟨by simp only [List.length_append]; omega, hascii⟩
  · rintro ⟨hle, hascii⟩
    have hcount := byteCount_eq_length_iff.2 hascii
    rw [List.length_take, Nat.min_eq_left hle, ← h.stop_eq] at hcount
    have htake := (List.take_append_drop span.stop source.toList).trans h.source_split
    rw [eq_of_byteCount_eq htake (h.stop_eq ▸ hcount)] at hascii
    exact hascii

theorem text_ne_nil (h : span.Covers source s) (hne : span.isEmpty = false) : s.text ≠ [] := by
  intro hnil
  have hlength := h.length
  rw [hnil] at hlength
  simp [Span.isEmpty, ← hlength, byteCount] at hne

theorem rest_ne_nil (h : span.Covers source s) (hne : span.isEmpty = false) : s.rest ≠ [] := by
  simp [Stretch.rest, h.text_ne_nil hne]

end Span.Covers

theorem exists_last_line (front : List Char) :
    ∃ before lead, front = before ++ lead ∧ (before = [] ∨ before.getLast? = some '\n') ∧
      '\n' ∉ lead := by
  induction front with
  | nil => exact ⟨[], [], rfl, .inl rfl, by simp⟩
  | cons c front ih =>
      obtain ⟨before, lead, rfl, hbegins, hlead⟩ := ih
      rcases hbegins with rfl | hbegins
      · by_cases hc : c = '\n'
        · exact ⟨[c], lead, rfl, .inr (by simp [hc]), hlead⟩
        · exact ⟨[], c :: lead, rfl, .inl rfl, by simp [hlead, Ne.symm hc]⟩
      · refine ⟨c :: before, lead, rfl, .inr ?_, hlead⟩
        rw [List.getLast?_cons, hbegins]
        rfl

theorem not_mem_of_extract {source : String} {front text rest : List Char}
    (h : source.toList = front ++ (text ++ rest))
    (hbytes : 10 ∉
      (source.toUTF8.extract (byteCount front) (byteCount front + byteCount text)).data) :
    '\n' ∉ text := by
  intro hmem
  rw [extract_of_split h, toUTF8_eq_utf8Encode, String.toList_ofList] at hbytes
  apply hbytes
  rw [← Array.count_pos_iff, count_utf8Encode]
  exact List.count_pos_iff.2 hmem

/-- A span that ends in ASCII and has no line feed holds a part of one line. -/
theorem Span.exists_covers {source : String} {span : Span} (hascii : AsciiUpTo source span.stop)
    (hbytes : 10 ∉ (source.toUTF8.extract span.start span.stop).data) :
    ∃ s, span.Covers source s := by
  obtain ⟨hle, hfirst⟩ := hascii
  have hstop : span.start + span.length = span.stop := rfl
  generalize hfront : source.toList.take span.start = front at *
  generalize htext : (source.toList.drop span.start).take span.length = text at *
  generalize hback : source.toList.drop span.stop = back at *
  have hsplit : source.toList = front ++ (text ++ back) := by
    rw [← hfront, ← htext, ← hback, ← hstop, ← List.drop_drop, List.take_append_drop,
      List.take_append_drop]
  have hcount : byteCount front = span.start ∧ byteCount text = span.length := by
    have hlength := congrArg List.length hsplit
    have htake : source.toList.take span.stop = front ++ text := by
      rw [← hfront, ← htext, ← hstop, List.take_add]
    rw [htake] at hfirst
    obtain ⟨hfront', htext'⟩ := List.forall_mem_append.1 hfirst
    rw [byteCount_eq_length_iff.2 hfront', byteCount_eq_length_iff.2 htext', ← hfront, ← htext,
      List.length_take, List.length_take, List.length_drop]
    omega
  obtain ⟨before, lead, rfl, hbegins, hlead⟩ := exists_last_line front
  rw [← hstop, ← hcount.1, ← hcount.2] at hbytes
  have htrail : '\n' ∉ back.takeWhile (· != '\n') := fun hmem =>
    absurd (List.all_eq_true.1 List.all_takeWhile _ hmem) (by decide)
  refine ⟨⟨before, lead, text, back.takeWhile (· != '\n'), back.dropWhile (· != '\n')⟩, ?_,
    hcount.1, hcount.2, hbegins, ?_, ?_⟩
  · rw [hsplit, Stretch.rest, List.takeWhile_append_dropWhile, List.append_assoc]
  · have hhead := List.head?_dropWhile_not (· != '\n') back
    cases hrest : back.dropWhile (· != '\n') with
    | nil => exact .inl rfl
    | cons c rest =>
        rw [hrest] at hhead
        exact .inr (by simpa using hhead)
  · simp only [Stretch.line, List.mem_append, not_or]
    exact ⟨hlead, not_mem_of_extract hsplit hbytes, htrail⟩

end Lox
