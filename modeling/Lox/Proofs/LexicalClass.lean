import Lox.Token.Lexeme

/-!
# Lexical classes

`Lexical` lists the texts that are blanks, comments, symbols, numbers, strings and words, with what
each of them yields. The piece at the front of a text is the longest part in a class: unless it is
refused it is in a class (`Piece.lexical_first`), and where some part is in a class the piece is not
refused and no shorter (`Lexical.first_append`).
-/

namespace Lox

/-- The texts of the lexical classes and the lexemes they are. -/
inductive Lexical : List Char → Lexeme → Prop
  | blank {c : Char} (hc : c ∈ [' ', '\r', '\t', '\n']) : Lexical [c] .layout
  | comment {body : List Char} (hbody : '\n' ∉ body) : Lexical ('/' :: '/' :: body) .layout
  | symbol (s : Symbol) : Lexical s.text.toList (.token (.symbol s) none)
  | integer {digits : List Char} (hne : digits ≠ []) (hdigits : ∀ c ∈ digits, c.isDigit) :
      Lexical digits (.token .number (some (.number (Decimal.ofDigits digits []).toFloat)))
  | decimal {digits decimals : List Char} (hne : digits ≠ []) (hdigits : ∀ c ∈ digits, c.isDigit)
      (hne' : decimals ≠ []) (hdecimals : ∀ c ∈ decimals, c.isDigit) :
      Lexical (digits ++ '.' :: decimals)
        (.token .number (some (.number (Decimal.ofDigits digits decimals).toFloat)))
  | string {body : List Char} (hbody : '"' ∉ body) :
      Lexical ('"' :: (body ++ ['"'])) (.token .string (some (.string (String.ofList body))))
  | keyword (k : Keyword) : Lexical k.text.toList (.token (.keyword k) none)
  | ident {c : Char} {letters : List Char} (hc : c.isAlpha) (hletters : ∀ d ∈ letters, d.isAlphanum)
      (hfree : ∀ k : Keyword, k.text.toList ≠ c :: letters) :
      Lexical (c :: letters) (.token .ident none)

namespace Keyword

theorem ofText?_text (k : Keyword) : ofText? k.text = some k := by
  cases k <;> decide

theorem ofText?_eq_none {word : String} (h : ∀ k : Keyword, k.text ≠ word) :
    ofText? word = none := by
  simp only [ofText?, List.find?_eq_none, beq_iff_eq]
  intro k _
  exact h k

theorem toList_text (k : Keyword) :
    ∃ c letters, k.text.toList = c :: letters ∧ c.isAlpha ∧ ∀ d ∈ letters, d.isAlphanum := by
  cases k <;> exact ⟨_, _, rfl, by decide, List.all_eq_true.1 (by decide)⟩

end Keyword

namespace Piece

variable {c : Char} {cs : List Char}

/-- The characters that decide the piece by themselves. -/
def marks : List Char :=
  ['(', ')', '\x7b', '\x7d', ',', '.', '-', '+', ';', '*', '!', '=', '<', '>', '/',
    ' ', '\r', '\t', '\n', '"']

theorem first_of_not_mem_marks (h : c ∉ marks) (cs : List Char) :
    first c cs = if c.isDigit then number c cs else if c.isAlpha then word c cs
      else ⟨.refused (.unrecognized c), 0⟩ := by
  unfold first
  split
  case h_21 => rfl
  all_goals exact absurd (by decide) h

theorem isAlphanum_eq_false_of_mem_marks (h : c ∈ marks) : c.isAlphanum = false := by
  have hall : marks.all (!·.isAlphanum) = true := by decide
  simpa using List.all_eq_true.1 hall c h

theorem first_of_isDigit (h : c.isDigit) (cs : List Char) : first c cs = number c cs := by
  have hmark : c ∉ marks := fun hmem => by
    simpa [Char.isAlphanum, h] using isAlphanum_eq_false_of_mem_marks hmem
  rw [first_of_not_mem_marks hmark, if_pos h]

theorem first_of_isAlpha (h : c.isAlpha) (cs : List Char) : first c cs = word c cs := by
  have hmark : c ∉ marks := fun hmem => by
    simpa [Char.isAlphanum, h] using isAlphanum_eq_false_of_mem_marks hmem
  have hdigit : ¬ c.isDigit := by
    intro hdigit
    have hrange : decide (c.val ≥ 'A'.val ∧ c.val ≤ 'Z'.val) ||
        (c.val ≥ 'a'.val && c.val ≤ 'z'.val) := h
    have hrange' : c.val ≥ '0'.val && c.val ≤ '9'.val := hdigit
    grind
  rw [first_of_not_mem_marks hmark, if_neg hdigit, if_pos h]

/-- A piece that is not refused. -/
def Accepted (piece : Piece) : Prop :=
  ∀ cause, piece.lexeme ≠ .refused cause

section

variable {tail body digits decimals letters : List Char}

theorem accepted_symbolOrEqual (alone withEqual : Symbol) (cs : List Char) :
    (symbolOrEqual alone withEqual cs).Accepted := by
  intro cause
  unfold symbolOrEqual
  split <;> simp [symbol]

theorem accepted_slash (cs : List Char) : (slash cs).Accepted := by
  intro cause
  unfold slash
  split <;> simp [symbol]

theorem accepted_number (c : Char) (cs : List Char) : (number c cs).Accepted := by
  intro cause
  simp [number]

theorem accepted_word (c : Char) (cs : List Char) : (word c cs).Accepted := by
  intro cause
  simp [word]

/-- Of the marks only a quote can be refused. -/
theorem accepted_first_of_mem_marks (hmark : c ∈ marks) (hquote : c ≠ '"') (cs : List Char) :
    (first c cs).Accepted := by
  intro cause
  simp only [marks, List.mem_cons, List.not_mem_nil, or_false, hquote] at hmark
  rcases hmark with rfl | rfl | rfl | rfl | rfl | rfl | rfl | rfl | rfl | rfl | rfl | rfl | rfl |
    rfl | rfl | rfl | rfl | rfl | rfl
  all_goals simp [first, symbol, accepted_symbolOrEqual _ _ cs cause, accepted_slash cs cause]

theorem bne_of_not_mem {stop : Char} (h : stop ∉ body) : ∀ d ∈ body, (d != stop) = true := by
  intro d hd
  have hne : d ≠ stop := by
    rintro rfl
    exact h hd
  simpa using hne

theorem slash_comment (hbody : '\n' ∉ body) (tail : List Char) :
    slash ('/' :: (body ++ tail)) =
      ⟨.layout, body.length + (tail.takeWhile (· != '\n')).length + 1⟩ := by
  simp only [slash]
  rw [List.takeWhile_cons_of_pos (by decide), List.takeWhile_append_of_pos (bne_of_not_mem hbody)]
  simp

theorem string_closed (hbody : '"' ∉ body) (tail : List Char) :
    string (body ++ '"' :: tail) =
      ⟨.token .string (some (.string (String.ofList body))), body.length + 1⟩ := by
  have htake : (body ++ '"' :: tail).takeWhile (· != '"') = body := by
    rw [List.takeWhile_append_of_pos (bne_of_not_mem hbody),
      List.takeWhile_cons_of_neg (by decide), List.append_nil]
  simp only [string, htake]
  rw [if_pos (by simp)]

theorem number_integer (hdigits : ∀ d ∈ digits, d.isDigit) (c : Char) :
    number c digits =
      ⟨.token .number (some (.number (Decimal.ofDigits (c :: digits) []).toFloat)),
        digits.length⟩ := by
  have htake : (digits ++ []).takeWhile Char.isDigit = digits ++ [] :=
    List.takeWhile_append_of_pos hdigits
  have hdrop : (digits ++ []).dropWhile Char.isDigit = [] :=
    List.dropWhile_append_of_pos hdigits
  rw [List.append_nil] at htake hdrop
  simp [number, htake, hdrop, fraction]

theorem length_le_more_number (hdigits : ∀ d ∈ digits, d.isDigit) (c : Char) (tail : List Char) :
    digits.length ≤ (number c (digits ++ tail)).more := by
  simp only [number, List.takeWhile_append_of_pos hdigits, List.length_append]
  omega

theorem number_decimal (hdigits : ∀ d ∈ digits, d.isDigit) (hne : decimals ≠ [])
    (hdecimals : ∀ d ∈ decimals, d.isDigit) (c : Char) (tail : List Char) :
    number c (digits ++ '.' :: (decimals ++ tail)) =
      ⟨.token .number (some (.number
          (Decimal.ofDigits (c :: digits) (decimals ++ tail.takeWhile Char.isDigit)).toFloat)),
        digits.length + (decimals.length + (tail.takeWhile Char.isDigit).length + 1)⟩ := by
  have htake : (digits ++ '.' :: (decimals ++ tail)).takeWhile Char.isDigit = digits := by
    rw [List.takeWhile_append_of_pos hdigits, List.takeWhile_cons_of_neg (by decide),
      List.append_nil]
  have hdrop : (digits ++ '.' :: (decimals ++ tail)).dropWhile Char.isDigit =
      '.' :: (decimals ++ tail) := by
    rw [List.dropWhile_append_of_pos hdigits, List.dropWhile_cons_of_neg (by decide)]
  simp [number, htake, hdrop, fraction, List.takeWhile_append_of_pos hdecimals, hne]

theorem word_append (hletters : ∀ d ∈ letters, d.isAlphanum) (c : Char) (tail : List Char) :
    word c (letters ++ tail) =
      ⟨.token (.ofWord (String.ofList (c :: (letters ++ tail.takeWhile Char.isAlphanum)))) none,
        letters.length + (tail.takeWhile Char.isAlphanum).length⟩ := by
  simp [word, List.takeWhile_append_of_pos hletters]

theorem take_length_takeWhile (p : Char → Bool) (cs : List Char) :
    cs.take (cs.takeWhile p).length = cs.takeWhile p :=
  (List.prefix_iff_eq_take.1 (List.takeWhile_prefix p)).symm

theorem forall_mem_takeWhile (p : Char → Bool) (cs : List Char) : ∀ d ∈ cs.takeWhile p, p d :=
  List.all_eq_true.1 List.all_takeWhile

theorem lexical_symbolOrEqual {alone withEqual : Symbol} (halone : alone.text.toList = [c])
    (hequal : withEqual.text.toList = [c, '=']) (cs : List Char) :
    Lexical (c :: cs.take (symbolOrEqual alone withEqual cs).more)
      (symbolOrEqual alone withEqual cs).lexeme := by
  unfold symbolOrEqual
  split
  · simpa only [List.take_succ_cons, List.take_zero, hequal] using Lexical.symbol withEqual
  · simpa only [symbol, List.take_zero, halone] using Lexical.symbol alone

theorem lexical_slash (cs : List Char) :
    Lexical ('/' :: cs.take (slash cs).more) (slash cs).lexeme := by
  unfold slash
  split
  · next more =>
    simp only [take_length_takeWhile]
    rw [List.takeWhile_cons_of_pos (by decide)]
    apply Lexical.comment
    intro hmem
    exact absurd (forall_mem_takeWhile _ _ _ hmem) (by decide)
  · exact .symbol .slash

theorem exists_eq_point_of_fraction_ne_nil (h : fraction cs ≠ []) :
    ∃ more, cs = '.' :: more ∧ fraction cs = more.takeWhile Char.isDigit := by
  unfold fraction at h ⊢
  split at h
  · next more => exact ⟨more, rfl, rfl⟩
  · exact absurd rfl h

/-- What a number takes behind its first digits: a point with digits behind it, or nothing. -/
def pointed (rest : List Char) : List Char :=
  if fraction rest = [] then [] else '.' :: fraction rest

theorem take_more_number (c : Char) (cs : List Char) :
    cs.take (number c cs).more =
      cs.takeWhile Char.isDigit ++ pointed (cs.dropWhile Char.isDigit) := by
  have hpointed (rest : List Char) :
      rest.take (if (fraction rest).isEmpty then 0 else (fraction rest).length + 1) =
        pointed rest := by
    by_cases hnone : fraction rest = []
    · simp [pointed, hnone]
    · obtain ⟨more, rfl, hdecimals⟩ := exists_eq_point_of_fraction_ne_nil hnone
      rw [pointed, if_neg hnone, if_neg (by simpa using hnone), List.take_succ_cons, hdecimals,
        take_length_takeWhile]
  have hsplit (n : Nat) : cs.take ((cs.takeWhile Char.isDigit).length + n) =
      cs.takeWhile Char.isDigit ++ (cs.dropWhile Char.isDigit).take n :=
    (congrArg (List.take _) List.takeWhile_append_dropWhile.symm).trans
      (List.take_length_add_append n)
  exact (hsplit _).trans (congrArg _ (hpointed _))

theorem lexical_number (hc : c.isDigit) (cs : List Char) :
    Lexical (c :: cs.take (number c cs).more) (number c cs).lexeme := by
  have hdigits : ∀ d ∈ c :: cs.takeWhile Char.isDigit, d.isDigit :=
    List.forall_mem_cons.2 ⟨hc, forall_mem_takeWhile _ _⟩
  rw [take_more_number, pointed]
  by_cases hfraction : fraction (cs.dropWhile Char.isDigit) = []
  · simp only [number, hfraction, if_true, List.append_nil]
    exact .integer (List.cons_ne_nil _ _) hdigits
  · obtain ⟨more, -, hdecimals⟩ := exists_eq_point_of_fraction_ne_nil hfraction
    rw [if_neg hfraction, ← List.cons_append]
    refine .decimal (List.cons_ne_nil _ _) hdigits hfraction ?_
    rw [hdecimals]
    exact forall_mem_takeWhile _ _

theorem lexical_word (hc : c.isAlpha) (cs : List Char) :
    Lexical (c :: cs.take (word c cs).more) (word c cs).lexeme := by
  simp only [word, take_length_takeWhile, Kind.ofWord]
  split
  · next k hk =>
    have htext : k.text = String.ofList (c :: cs.takeWhile Char.isAlphanum) := by
      simpa using List.find?_some hk
    have hlist := congrArg String.toList htext
    rw [String.toList_ofList] at hlist
    rw [← hlist]
    exact .keyword k
  · next hnone =>
    refine .ident hc (forall_mem_takeWhile _ _) fun k hk => ?_
    have htext : k.text = String.ofList (c :: cs.takeWhile Char.isAlphanum) := by
      rw [← hk, String.ofList_toList]
    rw [← htext, Keyword.ofText?_text] at hnone
    cases hnone

theorem lexical_string (h : '"' ∈ cs) :
    Lexical ('"' :: cs.take (string cs).more) (string cs).lexeme := by
  obtain ⟨body, tail, rfl, hbody⟩ := List.eq_append_cons_of_mem h
  rw [string_closed hbody, List.take_length_add_append]
  exact .string hbody

theorem string_unclosed (h : '"' ∉ cs) : string cs = ⟨.refused .unclosedString, cs.length⟩ := by
  have htake : (cs ++ []).takeWhile (· != '"') = cs ++ [] :=
    List.takeWhile_append_of_pos (bne_of_not_mem h)
  rw [List.append_nil] at htake
  simp [string, htake]

/-- A piece that is not refused is in a class. -/
theorem lexical_first (h : (first c cs).Accepted) :
    Lexical (c :: cs.take (first c cs).more) (first c cs).lexeme := by
  by_cases hmark : c ∈ marks
  · simp only [marks, List.mem_cons, List.not_mem_nil, or_false] at hmark
    rcases hmark with rfl | rfl | rfl | rfl | rfl | rfl | rfl | rfl | rfl | rfl | rfl | rfl | rfl |
      rfl | rfl | rfl | rfl | rfl | rfl | rfl
    · exact .symbol .leftParen
    · exact .symbol .rightParen
    · exact .symbol .leftBrace
    · exact .symbol .rightBrace
    · exact .symbol .comma
    · exact .symbol .dot
    · exact .symbol .minus
    · exact .symbol .plus
    · exact .symbol .semicolon
    · exact .symbol .star
    · exact lexical_symbolOrEqual rfl rfl cs
    · exact lexical_symbolOrEqual rfl rfl cs
    · exact lexical_symbolOrEqual rfl rfl cs
    · exact lexical_symbolOrEqual rfl rfl cs
    · exact lexical_slash cs
    · exact .blank (by decide)
    · exact .blank (by decide)
    · exact .blank (by decide)
    · exact .blank (by decide)
    · by_cases hquote : '"' ∈ cs
      · exact lexical_string hquote
      · refine absurd ?_ (h .unclosedString)
        change (string cs).lexeme = _
        rw [string_unclosed hquote]
  · rw [first_of_not_mem_marks hmark] at h ⊢
    split
    · next hdigit => exact lexical_number hdigit cs
    · next hdigit =>
      split
      · next halpha => exact lexical_word halpha cs
      · next halpha =>
        rw [if_neg hdigit, if_neg halpha] at h
        exact absurd rfl (h _)

end

end Piece

namespace Lexical

open Piece

variable {c : Char} {cs text : List Char} {lexeme : Lexeme}

theorem ne_nil (h : Lexical text lexeme) : text ≠ [] := by
  cases h with
  | blank | comment | string | ident => simp
  | symbol s => cases s <;> decide
  | integer hne => exact hne
  | decimal => simp
  | keyword k => cases k <;> decide

/-- A text of a class, read by itself, is one piece, and yields what its class says. -/
theorem first_eq (h : Lexical (c :: cs) lexeme) : first c cs = ⟨lexeme, cs.length⟩ := by
  generalize htext : c :: cs = text at h
  cases h with
  | blank hc =>
      obtain ⟨rfl, rfl⟩ := List.cons.inj htext
      simp only [List.mem_cons, List.not_mem_nil, or_false] at hc
      rcases hc with rfl | rfl | rfl | rfl <;> rfl
  | comment hbody =>
      obtain ⟨rfl, rfl⟩ := List.cons.inj htext
      have hpiece := slash_comment hbody []
      rw [List.append_nil] at hpiece
      exact hpiece
  | symbol s => cases s <;> obtain ⟨rfl, rfl⟩ := List.cons.inj htext <;> rfl
  | integer hne hdigits =>
      subst htext
      have hdigits' := List.forall_mem_cons.1 hdigits
      rw [first_of_isDigit hdigits'.1, number_integer hdigits'.2]
  | @decimal digits decimals hne hdigits hne' hdecimals =>
      obtain ⟨d, ds, rfl⟩ := List.exists_cons_of_ne_nil hne
      rw [List.cons_append] at htext
      obtain ⟨rfl, rfl⟩ := List.cons.inj htext
      have hdigits' := List.forall_mem_cons.1 hdigits
      have hpiece := number_decimal hdigits'.2 hne' hdecimals c []
      simp only [List.append_nil, List.takeWhile_nil] at hpiece
      rw [first_of_isDigit hdigits'.1, hpiece]
      simp
  | string hbody =>
      obtain ⟨rfl, rfl⟩ := List.cons.inj htext
      have hpiece := string_closed hbody []
      change Piece.string _ = _
      rw [hpiece]
      simp
  | keyword k =>
      obtain ⟨d, letters, hk, hd, hletters⟩ := k.toList_text
      obtain ⟨rfl, rfl⟩ := List.cons.inj (htext.trans hk)
      have hpiece := word_append hletters c []
      simp only [List.append_nil, List.takeWhile_nil] at hpiece
      rw [first_of_isAlpha hd, hpiece, htext, String.ofList_toList, Kind.ofWord, k.ofText?_text]
      rfl
  | ident hc hletters hfree =>
      obtain ⟨rfl, rfl⟩ := List.cons.inj htext
      have hpiece := word_append hletters c []
      simp only [List.append_nil, List.takeWhile_nil] at hpiece
      have hnone : Keyword.ofText? (String.ofList (c :: cs)) = none := by
        apply Keyword.ofText?_eq_none
        intro k hk
        exact hfree k (by rw [hk, String.toList_ofList])
      rw [first_of_isAlpha hc, hpiece, Kind.ofWord, hnone]
      rfl

/-- In front of any other text, the piece takes at least the text of a class it begins with. -/
theorem first_append (h : Lexical (c :: cs) lexeme) (tail : List Char) :
    cs.length ≤ (first c (cs ++ tail)).more ∧ (first c (cs ++ tail)).Accepted := by
  generalize htext : c :: cs = text at h
  cases h with
  | blank hc =>
      obtain ⟨rfl, rfl⟩ := List.cons.inj htext
      have hmark : c ∈ marks ∧ c ≠ '"' := by
        simp only [List.mem_cons, List.not_mem_nil, or_false] at hc
        rcases hc with rfl | rfl | rfl | rfl <;> decide
      exact ⟨Nat.zero_le _, accepted_first_of_mem_marks hmark.1 hmark.2 _⟩
  | comment hbody =>
      obtain ⟨rfl, rfl⟩ := List.cons.inj htext
      refine ⟨?_, accepted_slash _⟩
      change _ ≤ (slash _).more
      rw [List.cons_append, slash_comment hbody]
      simp
  | symbol s =>
      have hmark : c ∈ marks ∧ c ≠ '"' := by
        cases s <;> obtain ⟨rfl, -⟩ := List.cons.inj htext <;> decide
      refine ⟨?_, accepted_first_of_mem_marks hmark.1 hmark.2 _⟩
      -- only the symbols that end in an equals sign take a second character
      cases s <;> obtain ⟨rfl, rfl⟩ := List.cons.inj htext <;> exact Nat.le_of_ble_eq_true rfl
  | integer hne hdigits =>
      subst htext
      have hdigits' := List.forall_mem_cons.1 hdigits
      rw [first_of_isDigit hdigits'.1]
      exact ⟨length_le_more_number hdigits'.2 c tail, accepted_number c _⟩
  | @decimal digits decimals hne hdigits hne' hdecimals =>
      obtain ⟨d, ds, rfl⟩ := List.exists_cons_of_ne_nil hne
      rw [List.cons_append] at htext
      obtain ⟨rfl, rfl⟩ := List.cons.inj htext
      have hdigits' := List.forall_mem_cons.1 hdigits
      rw [first_of_isDigit hdigits'.1]
      refine ⟨?_, accepted_number c _⟩
      rw [List.append_assoc, List.cons_append, number_decimal hdigits'.2 hne' hdecimals]
      simp
  | string hbody =>
      obtain ⟨rfl, rfl⟩ := List.cons.inj htext
      change _ ≤ (Piece.string _).more ∧ (Piece.string _).Accepted
      rw [List.append_assoc, List.singleton_append, string_closed hbody]
      simp [Accepted]
  | keyword k =>
      obtain ⟨d, letters, hk, hd, hletters⟩ := k.toList_text
      obtain ⟨rfl, rfl⟩ := List.cons.inj (htext.trans hk)
      rw [first_of_isAlpha hd]
      refine ⟨?_, accepted_word c _⟩
      rw [word_append hletters]
      simp
  | ident hc hletters hfree =>
      obtain ⟨rfl, rfl⟩ := List.cons.inj htext
      rw [first_of_isAlpha hc]
      refine ⟨?_, accepted_word c _⟩
      rw [word_append hletters]
      simp

/-- A text is in one class only. -/
theorem unique {lexeme' : Lexeme} (h : Lexical text lexeme) (h' : Lexical text lexeme') :
    lexeme = lexeme' := by
  obtain ⟨c, cs, rfl⟩ := List.exists_cons_of_ne_nil h.ne_nil
  exact congrArg Piece.lexeme (h.first_eq.symm.trans h'.first_eq)

end Lexical
end Lox
