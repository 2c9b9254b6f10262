import Lox.Report

/-!
# Places in a text of lines

Among the characters that take one column at most, those that break a line are the line feed and
the separators of lines and paragraphs. Breaking a text into lines takes the first line off
(`Text.breakLines_of_ne_nil`), and a line feed divides the lines in front of it from those behind it
(`Text.breakLines_append`). The place of a position is found by skipping the lines that end in front
of it.
-/

namespace Lox

namespace Text

def isControl (c : Char) : Bool :=
  c.toNat < 0x20 || (0x7F ≤ c.toNat && c.toNat < 0xA0)

/-- Line feeds, and all characters that are neither control characters nor wide. -/
def isDrawable (c : Char) : Bool :=
  c == '\n' || (!isControl c && decide (width c ≤ 1))

variable {c : Char} {cs front : List Char}

theorem width_le_one_of_isDrawable (h : isDrawable c = true) : width c ≤ 1 := by
  simp only [isDrawable, Bool.or_eq_true, beq_iff_eq, Bool.and_eq_true, decide_eq_true_eq] at h
  rcases h with rfl | ⟨-, h⟩
  · decide
  · exact h

theorem tab_not_mem (h : ∀ c ∈ cs, isDrawable c = true) : '\t' ∉ cs :=
  fun hmem => absurd (h _ hmem) (by decide)

theorem return_not_mem (h : ∀ c ∈ cs, isDrawable c = true) : '\r' ∉ cs :=
  fun hmem => absurd (h _ hmem) (by decide)

theorem isLineBreak_of_isDrawable (h : isDrawable c = true) (hascii : c.toNat < 128) :
    isLineBreak c = true ↔ c = '\n' := by
  constructor
  · intro hbreak
    simp only [isDrawable, isControl, Bool.or_eq_true, beq_iff_eq, Bool.and_eq_true,
      Bool.not_eq_true', Bool.or_eq_false_iff, decide_eq_false_iff_not] at h
    rcases h with h | ⟨⟨h, -⟩, -⟩
    · exact h
    · simp only [isLineBreak, Bool.or_eq_true, Bool.and_eq_true, decide_eq_true_eq,
        beq_iff_eq] at hbreak
      rcases hbreak with ((hbreak | rfl) | rfl) | rfl
      · omega
      · exact absurd hascii (by decide)
      · exact absurd hascii (by decide)
      · exact absurd hascii (by decide)
  · rintro rfl
    rfl

/-- The first line of a text, with the break that ends it. -/
def firstLine (cs : List Char) : List Char :=
  cs.takeWhile (!isLineBreak ·) ++ (cs.dropWhile (!isLineBreak ·)).take 1

def otherLines (cs : List Char) : List (List Char) :=
  breakLines ((cs.dropWhile (!isLineBreak ·)).drop 1)

theorem breakLines_cons (hc : c ≠ '\r') (cs : List Char) :
    breakLines (c :: cs) =
      if isLineBreak c then [c] :: breakLines cs
      else match breakLines cs with
        | [] => [[c]]
        | line :: more => (c :: line) :: more := by
  apply breakLines.eq_3
  rintro _ rfl
  exact absurd rfl hc

theorem breakLines_of_ne_nil (hne : cs ≠ []) (hreturn : '\r' ∉ cs) :
    breakLines cs = firstLine cs :: otherLines cs := by
  induction cs with
  | nil => exact absurd rfl hne
  | cons c cs ih =>
      obtain ⟨hc, hreturn⟩ := not_or.1 (mt List.mem_cons.2 hreturn)
      rw [breakLines_cons (Ne.symm hc), firstLine, otherLines]
      by_cases hbreak : isLineBreak c = true
      · simp [hbreak]
      · cases cs with
        | nil => simp [hbreak, breakLines]
        | cons d cs =>
            rw [ih (by simp) hreturn, firstLine, otherLines]
            simp [hbreak]

theorem firstLine_begins (cs : List Char) : firstLine cs <+: cs := by
  refine ⟨(cs.dropWhile (!isLineBreak ·)).drop 1, ?_⟩
  rw [firstLine, List.append_assoc, List.take_append_drop, List.takeWhile_append_dropWhile]

theorem firstLine_append (hfront : ∀ c ∈ front, isLineBreak c = false) (cs : List Char) :
    firstLine (front ++ cs) = front ++ firstLine cs := by
  have hpass : ∀ c ∈ front, (!isLineBreak c) = true := by simpa using hfront
  rw [firstLine, firstLine, List.takeWhile_append_of_pos hpass, List.dropWhile_append_of_pos hpass,
    List.append_assoc]

theorem firstLine_ne_nil (hne : cs ≠ []) : firstLine cs ≠ [] := by
  obtain ⟨c, cs, rfl⟩ := List.exists_cons_of_ne_nil hne
  by_cases hbreak : isLineBreak c = true <;> simp [firstLine, hbreak]

theorem isBlank_of_isLineBreak (h : isLineBreak c = true) : isBlank c = true := by
  simp only [isLineBreak, Bool.or_eq_true, Bool.and_eq_true, decide_eq_true_eq, beq_iff_eq] at h
  rcases h with ((h | rfl) | rfl) | rfl
  · exact Ranges.contains_iff.2 ⟨(0x9, 0xD), by decide, by omega, by omega⟩
  · decide
  · decide
  · decide

theorem trimEnd_append_of_blank {blanks : List Char} (hblanks : ∀ c ∈ blanks, isBlank c = true)
    (text : List Char) : trimEnd (text ++ blanks) = trimEnd text := by
  have hreverse : ∀ c ∈ blanks.reverse, isBlank c = true := by simpa using hblanks
  rw [trimEnd, List.reverse_append, List.dropWhile_append_of_pos hreverse, trimEnd]

/-- The break at the end of a line is white space. -/
theorem trimEnd_firstLine (cs : List Char) :
    trimEnd (firstLine cs) = trimEnd (cs.takeWhile (!isLineBreak ·)) := by
  apply trimEnd_append_of_blank
  intro c hc
  cases hrest : cs.dropWhile (!isLineBreak ·) with
  | nil => simp [hrest] at hc
  | cons d rest =>
      have hd : isLineBreak d = true := by
        simpa [hrest] using List.head?_dropWhile_not (!isLineBreak ·) cs
      obtain rfl : c = d := by simpa [hrest] using hc
      exact isBlank_of_isLineBreak hd

/-- A line feed divides the lines. -/
theorem breakLines_append (hreturn : '\r' ∉ front)
    (hends : front = [] ∨ front.getLast? = some '\n') (cs : List Char) :
    breakLines (front ++ cs) = breakLines front ++ breakLines cs := by
  induction front with
  | nil => rfl
  | cons c front ih =>
      obtain ⟨hc, hreturn⟩ := not_or.1 (mt List.mem_cons.2 hreturn)
      have hends := hends.resolve_left (by simp)
      rw [List.cons_append, breakLines_cons (Ne.symm hc), breakLines_cons (Ne.symm hc)]
      cases front with
      | nil =>
          obtain rfl : c = '\n' := by simpa using hends
          rfl
      | cons d front =>
          rw [List.getLast?_cons_cons] at hends
          rw [ih hreturn (.inr hends), breakLines_of_ne_nil (by simp) hreturn]
          split <;> rfl

theorem length_breakLines (hreturn : '\r' ∉ front)
    (hends : front = [] ∨ front.getLast? = some '\n') :
    (breakLines front).length = front.countP isLineBreak := by
  induction front with
  | nil => rfl
  | cons c front ih =>
      obtain ⟨hc, hreturn⟩ := not_or.1 (mt List.mem_cons.2 hreturn)
      have hends := hends.resolve_left (by simp)
      rw [breakLines_cons (Ne.symm hc), List.countP_cons]
      cases front with
      | nil =>
          obtain rfl : c = '\n' := by simpa using hends
          rfl
      | cons d front =>
          rw [List.getLast?_cons_cons] at hends
          rw [← ih hreturn (.inr hends), breakLines_of_ne_nil (by simp) hreturn]
          split <;> rfl

end Text

namespace Report.Place

variable {source : List Char} {position : Nat} {p : Place} {lines : List (List Char)}

theorem seek_append (x : List (List Char)) (y : List Char) (ys : List (List Char))
    (h : p.offset + p.line.length + x.flatten.length ≤ position) :
    seek position p (x ++ y :: ys) =
      seek position ⟨p.number + x.length + 1, p.offset + p.line.length + x.flatten.length, y⟩
        ys := by
  induction x generalizing p with
  | nil => exact if_pos h
  | cons next x ih =>
      rw [List.flatten_cons, List.length_append] at h
      rw [List.cons_append, seek, if_pos (by omega), ih (by simp only; omega), List.flatten_cons,
        List.length_append, List.length_cons]
      simp only [Nat.add_assoc, Nat.add_comm 1]

theorem ofPosition_eq_seek {x : List (List Char)} {y : List Char} {ys : List (List Char)}
    (hlines : Text.breakLines source = x ++ y :: ys) (hle : x.flatten.length ≤ position) :
    ofPosition source position = seek position ⟨1 + x.length, x.flatten.length, y⟩ ys := by
  rw [ofPosition, hlines]
  cases x with
  | nil => rfl
  | cons line x =>
      rw [List.flatten_cons, List.length_append] at hle
      refine (seek_append x y ys (by simp only; omega)).trans ?_
      simp only [List.length_cons, List.flatten_cons, List.length_append, Nat.zero_add,
        Nat.add_assoc]

theorem seek_of_lt (h : position < p.offset + p.line.length) : seek position p lines = p := by
  cases lines with
  | nil => rfl
  | cons => exact if_neg (Nat.not_le.2 h)

theorem number_le_seek : p.number ≤ (seek position p lines).number := by
  induction lines generalizing p with
  | nil => exact Nat.le_refl _
  | cons next lines ih =>
      rw [seek]
      split
      · exact Nat.le_of_succ_le (ih (p := ⟨p.number + 1, p.offset + p.line.length, next⟩))
      · exact Nat.le_refl _

theorem seek_eq_or_number_lt :
    seek position p lines = p ∨ p.number < (seek position p lines).number := by
  cases lines with
  | nil => exact .inl rfl
  | cons next lines =>
      rw [seek]
      split
      · exact .inr (number_le_seek (p := ⟨p.number + 1, p.offset + p.line.length, next⟩))
      · exact .inl rfl

theorem line_seek_mem : (seek position p lines).line ∈ p.line :: lines := by
  induction lines generalizing p with
  | nil => exact List.mem_singleton.2 rfl
  | cons next lines ih =>
      rw [seek]
      split
      · exact List.mem_cons_of_mem _ ih
      · exact List.mem_cons_self

/-- Lines are parts of the text. -/
theorem mem_of_mem_line {c : Char} (h : c ∈ (ofPosition source position).line) : c ∈ source := by
  rw [ofPosition] at h
  cases hlines : Text.breakLines source with
  | nil => simp [hlines] at h
  | cons line more =>
      rw [hlines] at h
      rw [← Text.flatten_breakLines source, hlines]
      exact List.mem_flatten_of_mem line_seek_mem h

end Report.Place
end Lox
