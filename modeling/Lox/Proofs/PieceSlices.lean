import Lox.Proofs.Slices
import Lox.Proofs.Tiling

/-!
# Pieces cut out of a source

Behind the first character of a piece, a byte scanner reads the rest of it and yields what the piece
yields: one lemma for each kind of piece, and from them `Step.reads_piece`.
-/

namespace Lox.ByteScanner.Step

section

variable {source : String} {front text rest : List Char} {line : Nat}

theorem gives_token (h : source.toList = front ++ (text ++ rest)) (line : Nat) (kind : Kind)
    (literal : Option Literal) :
    Gives source (token kind literal) (behind source front text (line + text.count '\n'))
      (Tile.item? ⟨text, .token kind literal⟩ (byteCount front) line)
      (behind source front text (line + text.count '\n')) :=
  (gives_cut_lexeme h).bind (gives_scanner.bind (gives_pure rfl))

theorem gives_refuse (source : String) (front text : List Char) (line : Nat) (cause : LexCause) :
    Gives source (refuse cause) (behind source front text (line + text.count '\n'))
      (Tile.item? ⟨text, .refused cause⟩ (byteCount front) line)
      (behind source front text (line + text.count '\n')) :=
  gives_scanner.bind (gives_pure rfl)

/-- A string that is closed is read with its quotes, and its contents lie between them. -/
theorem gives_string_closed {body tail : List Char} (hquote : '"' ∉ body)
    (h : source.toList = front ++ (['"'] ++ (body ++ '"' :: tail)))
    (hline : line + (body ++ '"' :: tail).count '\n' < UInt32.size) :
    Gives source string (behind source front ['"'] line)
      (Tile.item? ⟨'"' :: (body ++ ['"']), .token .string (some (.string (String.ofList body)))⟩
        (byteCount front) line)
      (behind source front ('"' :: (body ++ ['"']))
        (line + ('"' :: (body ++ ['"'])).count '\n')) := by
  have hskip := gives_skipBody h hline
  rw [List.takeWhile_append_of_pos (Piece.bne_of_not_mem hquote),
    List.takeWhile_cons_of_neg (by decide), List.append_nil] at hskip
  have hopen : source.toList = front ++ ('"' :: body ++ '"' :: tail) := h
  have hclose : source.toList = front ++ ('"' :: (body ++ ['"']) ++ tail) := split_snoc hopen
  have hbreaks : ('"' :: (body ++ ['"'])).count '\n' = body.count '\n' := by
    rw [List.count_cons_of_ne (by decide), List.count_append]
    rfl
  have htoken := gives_token hclose line .string (some (.string (String.ofList body)))
  rw [hbreaks] at htoken ⊢
  exact hskip.bind ((gives_eat hopen).bind ((gives_cut_contents hclose).bind htoken))

/-- Without another quote all of the rest is refused. -/
theorem gives_string_unclosed (hquote : '"' ∉ rest)
    (h : source.toList = front ++ (['"'] ++ rest)) (hline : line + rest.count '\n' < UInt32.size) :
    Gives source string (behind source front ['"'] line)
      (Tile.item? ⟨'"' :: rest, .refused .unclosedString⟩ (byteCount front) line)
      (behind source front ('"' :: rest) (line + ('"' :: rest).count '\n')) := by
  have hskip := gives_skipBody h hline
  rw [List.takeWhile_eq_self_iff.2 (Piece.bne_of_not_mem hquote)] at hskip
  have hend : source.toList = front ++ ('"' :: rest ++ []) := by rw [h, List.append_nil]; rfl
  have hbreaks : ('"' :: rest).count '\n' = rest.count '\n' := List.count_cons_of_ne (by decide)
  have hrefuse := gives_refuse source front ('"' :: rest) line .unclosedString
  rw [hbreaks] at hrefuse ⊢
  exact hskip.bind ((gives_eat_false hend (by simp)).bind hrefuse)

end

/-- From behind the first character of a text the step reads the rest of a piece and yields what the
piece yields. -/
def Reads (step : Step (Option Item)) (c : Char) (cs : List Char) (piece : Piece) : Prop :=
  ∀ ⦃source front line⦄, source.toList = front ++ ([c] ++ cs) →
    line + (c :: cs).count '\n' < UInt32.size →
    Gives source step (behind source front [c] line)
      (Tile.item? ⟨c :: cs.take piece.more, piece.lexeme⟩ (byteCount front) line)
      (behind source front (c :: cs.take piece.more)
        (line + (c :: cs.take piece.more).count '\n'))

section

variable {source : String} {front text rest : List Char} {line : Nat}

theorem add_count_unbroken (hbreak : '\n' ∉ text) : line + text.count '\n' = line := by
  rw [List.count_eq_zero_of_not_mem hbreak, Nat.add_zero]

theorem gives_token_unbroken (h : source.toList = front ++ (text ++ rest)) (hbreak : '\n' ∉ text)
    (kind : Kind) (literal : Option Literal) :
    Gives source (token kind literal) (behind source front text line)
      (Tile.item? ⟨text, .token kind literal⟩ (byteCount front) line)
      (behind source front text (line + text.count '\n')) := by
  have htoken := gives_token h line kind literal
  rwa [add_count_unbroken hbreak] at htoken ⊢

variable {c : Char} {cs : List Char}

theorem reads_symbol (hc : c ≠ '\n') (s : Symbol) : Reads (symbol s) c cs (.symbol s) := by
  intro source front line h _
  exact gives_token_unbroken h (by simpa using hc.symm) _ _

theorem reads_symbolOrEqual (hc : c ≠ '\n') (alone withEqual : Symbol) :
    Reads (symbolOrEqual alone withEqual) c cs (.symbolOrEqual alone withEqual cs) := by
  intro source front line h hline
  unfold Piece.symbolOrEqual
  split
  · next more =>
    refine (gives_eat h).bind ?_
    exact gives_token_unbroken (split_snoc h) (by simpa using hc.symm) _ _
  · next hother =>
    exact (gives_eat_false h hother).bind (reads_symbol hc alone h hline)

theorem reads_slash : Reads slash '/' cs (.slash cs) := by
  intro source front line h hline
  unfold Piece.slash
  split
  · next more =>
    refine (gives_eat h).bind ?_
    rw [Piece.take_length_takeWhile, List.takeWhile_cons_of_pos (by decide), add_count_unbroken]
    · exact (gives_skipWhile _ (split_snoc h)).bind (gives_pure rfl)
    · simp only [List.mem_cons, not_or]
      refine ⟨by decide, by decide, fun hmem => ?_⟩
      exact absurd (Piece.forall_mem_takeWhile _ _ _ hmem) (by decide)
  · next hother =>
    exact (gives_eat_false h hother).bind (reads_symbol (by decide) .slash h hline)

theorem reads_blank (hc : c ≠ '\n') : Reads (pure none) c cs ⟨.layout, 0⟩ := by
  intro source front line h _
  rw [List.take_zero, add_count_unbroken (by simpa using hc.symm)]
  exact gives_pure rfl

theorem reads_lineBreak : Reads (do countLine; return none) '\n' cs ⟨.layout, 0⟩ := by
  intro source front line h hline
  have hcount : 0 < ('\n' :: cs).count '\n' := List.count_pos_iff.2 (List.mem_cons_self ..)
  exact (gives_countLine h (by omega)).bind (gives_pure rfl)

theorem reads_string : Reads string '"' cs (.string cs) := by
  intro source front line h hline
  rw [List.count_cons_of_ne (by decide)] at hline
  by_cases hclosed : '"' ∈ cs
  · obtain ⟨body, tail, rfl, hquote⟩ := List.eq_append_cons_of_mem hclosed
    rw [Piece.string_closed hquote, List.take_length_add_append]
    exact gives_string_closed hquote h hline
  · rw [Piece.string_unclosed hclosed, List.take_length]
    exact gives_string_unclosed hclosed h hline

theorem gives_atFraction (h : source.toList = front ++ (text ++ rest)) :
    Gives source atFraction (behind source front text line) (!(Piece.fraction rest).isEmpty)
      (behind source front text line) := by
  refine (gives_look h).bind ?_
  by_cases hpoint : rest.head? = some '.'
  · obtain ⟨more, rfl⟩ := List.head?_eq_some_iff.1 hpoint
    rw [if_pos hpoint]
    refine (gives_lookNext h).bind (gives_pure ?_)
    rw [Piece.fraction]
    cases more with
    | nil => rfl
    | cons d more => by_cases hd : d.isDigit = true <;> simp [hd]
  · rw [if_neg hpoint]
    refine gives_pure ?_
    unfold Piece.fraction
    split
    · exact absurd rfl hpoint
    · rfl

theorem gives_skipFraction (h : source.toList = front ++ (text ++ rest)) :
    Gives source skipFraction (behind source front text line) ()
      (behind source front (text ++ Piece.pointed rest) line) := by
  refine (gives_atFraction h).bind ?_
  by_cases hnone : Piece.fraction rest = []
  · rw [Piece.pointed, if_pos hnone, if_neg (by simp [hnone]), List.append_nil]
    exact gives_pure rfl
  · obtain ⟨more, rfl, hdecimals⟩ := Piece.exists_eq_point_of_fraction_ne_nil hnone
    have hskip : Gives source (skipWhile Char.isDigit) (behind source front (text ++ ['.']) line)
        () _ := gives_skipWhile Char.isDigit (split_snoc h)
    rw [List.append_assoc, List.singleton_append] at hskip
    rw [Piece.pointed, if_neg hnone, if_pos (by simpa using hnone), hdecimals]
    exact (gives_advance h).bind hskip

/-- A piece is read from the text it begins. -/
theorem split_take (h : source.toList = front ++ ([c] ++ cs)) (n : Nat) :
    source.toList = front ++ (c :: cs.take n ++ cs.drop n) := by
  simp [h]

theorem reads_word (hc : c.isAlpha) : Reads word c cs (.word c cs) := by
  intro source front line h _
  have hletters : ∀ d ∈ c :: cs.takeWhile Char.isAlphanum, d.isAlphanum :=
    List.forall_mem_cons.2 ⟨by simp [Char.isAlphanum, hc], Piece.forall_mem_takeWhile _ _⟩
  have hbreak : '\n' ∉ c :: cs.takeWhile Char.isAlphanum :=
    fun hmem => absurd (hletters _ hmem) (by decide)
  have hword := split_take h (Piece.word c cs).more
  simp only [Piece.word, Piece.take_length_takeWhile] at hword ⊢
  refine (gives_skipWhile _ h).bind ((gives_cut_lexeme hword).bind ?_)
  exact gives_token_unbroken hword hbreak _ _

theorem reads_number (hc : c.isDigit) : Reads number c cs (.number c cs) := by
  intro source front line h _
  have hwhole : source.toList = front ++
      ([c] ++ cs.takeWhile Char.isDigit ++ cs.dropWhile Char.isDigit) := by
    rw [h, List.append_assoc, List.takeWhile_append_dropWhile]
  have hnumber := split_take h (Piece.number c cs).more
  have hclass := Piece.lexical_number hc cs
  rw [Piece.take_more_number] at hnumber hclass ⊢
  have hbreak := hclass.numeral.1.not_mem_break
  refine (gives_skipWhile _ h).bind ((gives_skipFraction hwhole).bind ?_)
  refine (gives_cut_lexeme hnumber).bind ((gives_readNumber hnumber hclass).bind ?_)
  exact gives_token_unbroken hnumber hbreak _ _

theorem reads_refuse (hc : c ≠ '\n') :
    Reads (refuse (.unrecognized c)) c cs ⟨.refused (.unrecognized c), 0⟩ := by
  intro source front line h _
  have hrefuse := gives_refuse source front [c] line (.unrecognized c)
  rw [List.take_zero]
  rwa [add_count_unbroken (by simpa using hc.symm)] at hrefuse ⊢

theorem piece_of_not_mem_marks (h : c ∉ Piece.marks) :
    piece c = if c.isDigit then number else if c.isAlpha then word
      else refuse (.unrecognized c) := by
  unfold piece
  split
  case h_21 => rfl
  all_goals exact absurd (by decide) h

theorem reads_piece (c : Char) (cs : List Char) : Reads (piece c) c cs (.first c cs) := by
  by_cases hmark : c ∈ Piece.marks
  · simp only [Piece.marks, List.mem_cons, List.not_mem_nil, or_false] at hmark
    rcases hmark with rfl | rfl | rfl | rfl | rfl | rfl | rfl | rfl | rfl | rfl | rfl | rfl | rfl |
      rfl | rfl | rfl | rfl | rfl | rfl | rfl
    iterate 10 exact reads_symbol (by decide) _
    iterate 4 exact reads_symbolOrEqual (by decide) _ _
    · exact reads_slash
    iterate 3 exact reads_blank (by decide)
    · exact reads_lineBreak
    · exact reads_string
  · rw [piece_of_not_mem_marks hmark, Piece.first_of_not_mem_marks hmark]
    split
    · next hdigit => exact reads_number hdigit
    · split
      · next halpha => exact reads_word halpha
      · refine reads_refuse ?_
        rintro rfl
        exact hmark (by decide)

end

end Lox.ByteScanner.Step
