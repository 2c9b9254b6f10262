import Lox.Proofs.CommandAgreement
import Lox.Proofs.Separation

/-!
# Listings are unambiguous

A line of a listing has no lengths and escapes nothing, and a string may hold blanks, line breaks
and what looks like lines. Still each line tells where it ends: the name of a kind has no blank,
only strings have blanks in their lexemes and they end at their second quote, and kind and lexeme
decide the literal (`Token.Scanned.text_append_inj`). So sources are listed alike exactly if their
tokens are alike.
-/

namespace Lox

theorem Text.append_cons_inj {stop : Char} {front front' back back' : List Char}
    (h : stop ∉ front) (h' : stop ∉ front')
    (heq : front ++ stop :: back = front' ++ stop :: back') : front = front' ∧ back = back' := by
  have htake {body : List Char} (hbody : stop ∉ body) (tail : List Char) :
      (body ++ stop :: tail).takeWhile (· != stop) = body := by
    rw [List.takeWhile_append_of_pos (Piece.bne_of_not_mem hbody),
      List.takeWhile_cons_of_neg (by simp), List.append_nil]
  have hfront : front = front' := by rw [← htake h back, heq, htake h' back']
  subst hfront
  exact ⟨rfl, List.tail_eq_of_cons_eq (List.append_cancel_left heq)⟩

namespace Kind

theorem ofName?_name (kind : Kind) : ofName? kind.name = some kind := by
  cases kind with
  | symbol s => cases s <;> decide
  | keyword k => cases k <;> decide
  | number | string | ident | eof => decide

theorem name_injective {kind kind' : Kind} (h : kind.name = kind'.name) : kind = kind' := by
  have hsome := kind.ofName?_name
  rw [h, ofName?_name] at hsome
  exact (Option.some.inj hsome).symm

theorem blank_not_mem_name (kind : Kind) : ' ' ∉ kind.name.toList := by
  cases kind with
  | symbol s => cases s <;> decide
  | keyword k => cases k <;> decide
  | number | string | ident | eof => decide

end Kind

namespace Lexical

variable {text text' : List Char} {kind : Kind} {literal literal' : Option Literal}

theorem blank_not_mem (h : Lexical text (.token kind literal)) (hkind : kind ≠ .string) :
    ' ' ∉ text := by
  have hblank : ' ' ∈ blanks := by decide
  intro hmem
  obtain ⟨r, more, rfl⟩ := List.append_of_mem hmem
  cases r with
  | nil =>
      have hpiece := h.first_eq
      rw [Piece.first_of_blank hblank] at hpiece
      cases hpiece
  | cons c r =>
      -- Only comments and strings have a blank inside, and what they begin with tells them.
      have hpiece := h.first_eq
      rcases h.eq_comment_or_string hblank (List.cons_ne_nil c r) with
        ⟨-, body, -, hr⟩ | ⟨body, -, hr⟩
      · cases hr
        simp [Piece.first, Piece.slash] at hpiece
      · cases hr
        simp only [Piece.first, Piece.string] at hpiece
        split at hpiece
        · exact hkind (Lexeme.token.inj (Piece.mk.inj hpiece).1).1.symm
        · cases hpiece

/-- Of the texts that yield one kind, none goes on behind another one with a blank. -/
theorem append_blank_inj (h : Lexical text (.token kind literal))
    (h' : Lexical text' (.token kind literal')) {back back' : List Char}
    (heq : text ++ ' ' :: back = text' ++ ' ' :: back') : text = text' ∧ back = back' := by
  by_cases hkind : kind = .string
  · subst hkind
    cases h with | string hbody =>
    cases h' with | string hbody' =>
    simp only [List.cons_append, List.append_assoc, List.nil_append, List.cons.injEq,
      true_and] at heq
    obtain ⟨rfl, hback⟩ := Text.append_cons_inj hbody hbody' heq
    exact ⟨rfl, List.tail_eq_of_cons_eq hback⟩
  · exact Text.append_cons_inj (h.blank_not_mem hkind) (h'.blank_not_mem hkind) heq

end Lexical

namespace Token

/-- Tokens that some source has. -/
def Scanned (t : Token) : Prop :=
  ∃ source, t ∈ (Scan.ofSource source).tokens

variable {t u : Token}

def lineOf (content : Kind × String × Option Literal) : String :=
  content.1.name ++ " " ++ content.2.1 ++ " " ++ (content.2.2.map Literal.text).getD "null"

theorem text_eq_lineOf (t : Token) : t.text = lineOf t.content := rfl

theorem map_text_eq (ts : List Token) : ts.map text = (ts.map content).map lineOf := by
  rw [List.map_map]
  rfl

theorem toList_text (t : Token) :
    t.text.toList = t.kind.name.toList ++ ' ' :: (t.lexeme.toList ++ ' ' ::
      ((t.literal.map Literal.text).getD "null").toList) := by
  simp [text]

namespace Scanned

theorem lexeme_append_inj (ht : t.Scanned) (hu : u.Scanned) (hkind : t.kind = u.kind)
    {back back' : List Char}
    (heq : t.lexeme.toList ++ ' ' :: back = u.lexeme.toList ++ ' ' :: back') :
    t.lexeme = u.lexeme := by
  obtain ⟨a, ha⟩ := ht
  obtain ⟨b, hb⟩ := hu
  rcases Scan.lexical_of_mem_tokens ha with hend | hclass <;>
    rcases Scan.lexical_of_mem_tokens hb with hend' | hclass'
  · exact (congrArg (·.2.1) hend).trans (congrArg (·.2.1) hend').symm
  · exact absurd (hkind.symm.trans (congrArg (·.1) hend)) hclass'.kind_ne_eof
  · exact absurd (hkind.trans (congrArg (·.1) hend')) hclass.kind_ne_eof
  · rw [← hkind] at hclass'
    exact String.toList_inj.1 (hclass.append_blank_inj hclass' heq).1

/-- The line of a token determines its content and where it ends, whatever follows. -/
theorem text_append_inj (ht : t.Scanned) (hu : u.Scanned) {back back' : List Char}
    (heq : t.text.toList ++ '\n' :: back = u.text.toList ++ '\n' :: back') :
    t.content = u.content ∧ back = back' := by
  have hfields := heq
  simp only [toList_text, List.append_assoc, List.cons_append] at hfields
  obtain ⟨hname, hmore⟩ :=
    Text.append_cons_inj t.kind.blank_not_mem_name u.kind.blank_not_mem_name hfields
  have hkind : t.kind = u.kind := Kind.name_injective (String.toList_inj.1 hname)
  have hlexeme : t.lexeme = u.lexeme := ht.lexeme_append_inj hu hkind hmore
  -- The text of the literal need not be told from what follows: kind and lexeme decide it.
  obtain ⟨a, ha⟩ := ht
  obtain ⟨b, hb⟩ := hu
  have hliteral : t.literal = u.literal := Scan.literal_eq_of_mem_tokens ha hb hkind hlexeme
  have hcontent : t.content = u.content := by rw [content, content, hkind, hlexeme, hliteral]
  rw [text_eq_lineOf, text_eq_lineOf, hcontent] at heq
  exact ⟨hcontent, List.tail_eq_of_cons_eq (List.append_cancel_left heq)⟩

end Scanned

theorem toList_unlines_cons (t : Token) (ts : List Token) :
    (Text.unlines ((t :: ts).map text)).toList =
      t.text.toList ++ '\n' :: (Text.unlines (ts.map text)).toList := by
  simp [Text.unlines_cons]

/-- Listings of scanned tokens are read back line by line. -/
theorem map_content_eq_of_unlines_eq {ts us : List Token} (hts : ∀ t ∈ ts, t.Scanned)
    (hus : ∀ u ∈ us, u.Scanned)
    (heq : Text.unlines (ts.map text) = Text.unlines (us.map text)) :
    ts.map content = us.map content := by
  induction ts generalizing us with
  | nil =>
      cases us with
      | nil => rfl
      | cons u us => exact absurd heq.symm (Text.unlines_ne_empty (List.cons_ne_nil _ _))
  | cons t ts ih =>
      cases us with
      | nil => exact absurd heq (Text.unlines_ne_empty (List.cons_ne_nil _ _))
      | cons u us =>
          obtain ⟨ht, hts⟩ := List.forall_mem_cons.1 hts
          obtain ⟨hu, hus⟩ := List.forall_mem_cons.1 hus
          have hlines := congrArg String.toList heq
          rw [toList_unlines_cons, toList_unlines_cons] at hlines
          obtain ⟨hcontent, hback⟩ := ht.text_append_inj hu hlines
          rw [List.map_cons, List.map_cons, hcontent, ih hts hus (String.toList_inj.1 hback)]

end Token

namespace Command

theorem stdout_tokenize (path source : String) (input : List UInt8) :
    ((tokenize path .basic).perform (some source.toUTF8) input).stdout =
      Text.unlines ((Scan.ofSource source).tokens.map Token.text) := by
  rw [perform, withFile_text, tokenizeSource_eq]
  rfl

/-- Two sources are listed alike exactly if their tokens have the same kinds, lexemes and
literals. -/
theorem tokenize_stdout_eq_iff (path path' a b : String) (input input' : List UInt8) :
    ((tokenize path .basic).perform (some a.toUTF8) input).stdout =
        ((tokenize path' .basic).perform (some b.toUTF8) input').stdout ↔
      (Scan.ofSource a).tokens.map Token.content = (Scan.ofSource b).tokens.map Token.content := by
  rw [stdout_tokenize, stdout_tokenize]
  constructor
  · exact Token.map_content_eq_of_unlines_eq (fun _ ht => ⟨a, ht⟩) fun _ hu => ⟨b, hu⟩
  · intro hcontent
    rw [Token.map_text_eq, Token.map_text_eq, hcontent]

end Command
end Lox
