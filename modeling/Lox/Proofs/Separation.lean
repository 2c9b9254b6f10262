import Lox.Proofs.Contents

/-!
# Blanks separate

A blank ends a tile as the end of the text does (`Tile.Begins.append_blank`), except that strings go
on over every blank and comments over every blank but a line break. Two tilings can therefore be
joined by a line break, unless the first one leaves a string open.
-/

namespace Lox

abbrev blanks : List Char := [' ', '\r', '\t', '\n']

variable {w : Char} {r rest : List Char} {lexeme : Lexeme}

theorem isAlphanum_eq_false_of_blank (hw : w ∈ blanks) : w.isAlphanum = false := by
  apply Piece.isAlphanum_eq_false_of_mem_marks
  simp only [List.mem_cons, List.not_mem_nil, or_false] at hw
  rcases hw with rfl | rfl | rfl | rfl <;> decide

theorem ne_of_blank {c : Char} (hw : w ∈ blanks) (hc : c ∉ blanks) : w ≠ c := by
  rintro rfl
  exact hc hw

theorem Symbol.not_mem_text_of_blank (hw : w ∈ blanks) (s : Symbol) : w ∉ s.text.toList := by
  have hall : s.text.toList.all (· ∉ blanks) = true := by cases s <;> decide
  intro hmem
  exact of_decide_eq_true (List.all_eq_true.1 hall w hmem) hw

theorem Lexical.eq_comment_or_string {more : List Char} (hw : w ∈ blanks) (hr : r ≠ [])
    (h : Lexical (r ++ w :: more) lexeme) :
    (w ≠ '\n' ∧ ∃ body, '\n' ∉ body ∧ r = '/' :: '/' :: body) ∨
      ∃ body, '"' ∉ body ∧ r = '"' :: body := by
  obtain ⟨c, r, rfl⟩ := List.exists_cons_of_ne_nil hr
  rw [List.cons_append] at h
  have halnum := isAlphanum_eq_false_of_blank hw
  have hdigit : w.isDigit = false := by
    rw [Char.isAlphanum, Bool.or_eq_false_iff] at halnum
    exact halnum.2
  generalize htext : c :: (r ++ w :: more) = text at h
  have hmem : w ∈ text := by simp [← htext]
  cases h with
  | blank => simp at htext
  | @comment body hbody =>
      left
      cases r with
      | nil =>
          have hslash : w = '/' := (List.cons.inj (List.cons.inj htext).2).1
          exact absurd hslash (ne_of_blank hw (by decide))
      | cons d r =>
          rw [List.cons_append] at htext
          obtain ⟨rfl, hbehind⟩ := List.cons.inj htext
          obtain ⟨rfl, rfl⟩ := List.cons.inj hbehind
          simp only [List.mem_append, List.mem_cons, not_or] at hbody
          exact ⟨fun hbreak => hbody.2.1 hbreak.symm, r, hbody.1, rfl⟩
  | symbol s => exact absurd hmem (s.not_mem_text_of_blank hw)
  | integer _ hdigits => simp [hdigits w hmem] at hdigit
  | decimal _ hdigits _ hdecimals =>
      simp only [List.mem_append, List.mem_cons] at hmem
      rcases hmem with hmem | rfl | hmem
      · simp [hdigits w hmem] at hdigit
      · exact absurd rfl (ne_of_blank hw (by decide))
      · simp [hdecimals w hmem] at hdigit
  | @string body hbody =>
      right
      obtain ⟨rfl, hbehind⟩ := List.cons.inj htext
      -- the closing quote is the last character, so the blank stands inside
      rcases List.append_eq_append_iff.1 hbehind with ⟨front, rfl, -⟩ | ⟨front, rfl, hlast⟩
      · exact ⟨r, fun hquote => hbody (List.mem_append_left _ hquote), rfl⟩
      · cases front with
        | nil => exact ⟨body, hbody, by simp⟩
        | cons d front => simp at hlast
  | keyword k =>
      obtain ⟨d, letters, hk, hd, hletters⟩ := k.toList_text
      rw [hk] at hmem
      rcases List.mem_cons.1 hmem with rfl | hmem
      · simp [Char.isAlphanum, hd] at halnum
      · simp [hletters w hmem] at halnum
  | ident hc hletters =>
      rcases List.mem_cons.1 hmem with rfl | hmem
      · simp [Char.isAlphanum, hc] at halnum
      · simp [hletters w hmem] at halnum

theorem Piece.first_of_blank (hw : w ∈ blanks) (cs : List Char) : first w cs = ⟨.layout, 0⟩ := by
  simp only [List.mem_cons, List.not_mem_nil, or_false] at hw
  rcases hw with rfl | rfl | rfl | rfl <;> rfl

namespace Tile.Begins

variable {tile : Tile} {text : List Char}

theorem self (h : Lexical text lexeme) : Begins ⟨text, lexeme⟩ text :=
  .longest (List.prefix_refl text) h fun _ _ hfront _ => hfront.length_le

theorem blank (hw : w ∈ blanks) (rest : List Char) : Begins ⟨[w], .layout⟩ (w :: rest) := by
  have hbegins := Piece.begins_first w rest
  rwa [Piece.first_of_blank hw] at hbegins

theorem ne_nil (h : tile.Begins r) : r ≠ [] := by
  rintro rfl
  cases h with
  | longest hfront hclass => exact hclass.ne_nil (List.prefix_nil.1 hfront)
  | unclosed _ hquote => cases hquote
  | unrecognized _ hfirst => cases hfirst

/-- What a class takes of a text and of a blank behind it is a comment or a string. -/
theorem lexeme_of_crossing {more : List Char} (h : tile.Begins r) (hw : w ∈ blanks)
    (hcross : Lexical (r ++ w :: more) lexeme) :
    w ≠ '\n' ∧ tile.lexeme = .layout ∨ tile.lexeme = .refused .unclosedString := by
  rcases hcross.eq_comment_or_string hw h.ne_nil with
    ⟨hbreak, body, hbody, rfl⟩ | ⟨body, hbody, rfl⟩
  · exact .inl ⟨hbreak, by rw [h.unique (self (.comment hbody))]⟩
  · have hbegins := Piece.begins_first '"' body
    have hfirst : Piece.first '"' body = ⟨.refused .unclosedString, body.length⟩ :=
      Piece.string_unclosed hbody
    rw [hfirst] at hbegins
    exact .inr (by rw [h.unique hbegins])

/-- A tile stays the same when a blank and anything else is put behind the text. -/
theorem append_blank (h : tile.Begins r) (hw : w ∈ blanks)
    (hlayout : w = '\n' ∨ tile.lexeme ≠ .layout)
    (hclosed : tile.lexeme ≠ .refused .unclosedString) (rest : List Char) :
    tile.Begins (r ++ w :: rest) := by
  -- no class reaches over the blank, so the parts to choose from are the same as before
  have hinside : ∀ text lexeme, text <+: r ++ w :: rest → Lexical text lexeme → text <+: r := by
    intro text lexeme hfront hclass
    rcases List.prefix_or_prefix_of_prefix hfront (List.prefix_append r _) with hle | ⟨tail, rfl⟩
    · exact hle
    rcases List.prefix_cons_iff.1 ((List.prefix_append_right_inj r).1 hfront) with
      rfl | ⟨more, rfl, -⟩
    · simp
    · rcases h.lexeme_of_crossing hw hclass with ⟨hbreak, hlexeme⟩ | hlexeme
      · exact absurd hlexeme (hlayout.resolve_left hbreak)
      · exact absurd hlexeme hclosed
  cases h with
  | longest hfront hclass hlongest =>
      refine .longest (hfront.trans (List.prefix_append ..)) hclass ?_
      intro other lexeme' hfront' hclass'
      exact hlongest other lexeme' (hinside _ _ hfront' hclass') hclass'
  | unclosed => exact absurd rfl hclosed
  | unrecognized hnone hfirst hquote =>
      refine .unrecognized ?_ (by rw [List.head?_append, hfirst]; rfl) hquote
      intro text lexeme hfront hclass
      exact hnone text lexeme (hinside _ _ hfront hclass) hclass

end Tile.Begins

/-- A line break joins two tilings if the first one leaves no string open. -/
theorem Tiling.append_line {tiles tiles' : List Tile} (h : Tiling r tiles)
    (hclosed : ∀ tile ∈ tiles, tile.lexeme ≠ .refused .unclosedString) (h' : Tiling rest tiles') :
    Tiling (r ++ '\n' :: rest) (tiles ++ ⟨['\n'], .layout⟩ :: tiles') := by
  induction h with
  | nil => exact .cons (.blank (by decide) rest) h'
  | @cons tile r tiles htile _ ih =>
      obtain ⟨htileClosed, htilesClosed⟩ := List.forall_mem_cons.1 hclosed
      have hbegins := htile.append_blank (w := '\n') (by decide) (.inl rfl) htileClosed rest
      rw [List.append_assoc] at hbegins ⊢
      exact .cons hbegins (ih htilesClosed)

end Lox
