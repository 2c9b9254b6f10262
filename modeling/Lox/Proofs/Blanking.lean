import Lox.Proofs.Places
import Lox.Proofs.Reporting
import Lox.Proofs.Separation

/-!
# Refused characters act as blanks

Writing blanks for the characters that a scan does not recognize, one for each byte, changes nothing
but that they are no longer reported. The two texts agree up to a place where the second one has a
blank and the first one some character of a line (`AgreeToBlank`). A tile that ends in front of that
place is the same in both: only a comment or a string could go on over the blank, a comment would
have taken the character too, and a string has ended at its second quote
(`Tile.Begins.of_agreeToBlank`). Strings and comments are tiles themselves, so nothing in them is
replaced.
-/

namespace Lox

def LexCause.isUnrecognized : LexCause → Bool
  | unrecognized _ => true
  | unclosedString => false

def Item.isUnrecognized : Item → Bool
  | .ok _ => false
  | .error e => e.cause.isUnrecognized

/-- The rest of the source, with blanks in place of each character that is not recognized, as many
as it has bytes. -/
def Scanner.blanked (s : Scanner) : List Char :=
  match _h : s.step with
  | none => []
  | some (item, after) =>
    let text := s.rest.take (s.rest.length - after.rest.length)
    let written :=
      if item.any Item.isUnrecognized then List.replicate (byteCount text) ' ' else text
    written ++ after.blanked
termination_by s.rest.length
decreasing_by exact rest_length_lt_of_step _h

def Scan.blanked (source : String) : String :=
  String.ofList (Scanner.ofSource source).blanked

/-- The second text is the first one up to some place, where it has a blank and the first one any
character but a line break. -/
inductive AgreeToBlank : List Char → List Char → Prop
  | nil : AgreeToBlank [] []
  | cons (c : Char) {r r' : List Char} (h : AgreeToBlank r r') : AgreeToBlank (c :: r) (c :: r')
  | blank {c : Char} (hc : c ≠ '\n') (r r' : List Char) : AgreeToBlank (c :: r) (' ' :: r')

namespace AgreeToBlank

variable {r r' : List Char}

theorem append (text : List Char) (h : AgreeToBlank r r') :
    AgreeToBlank (text ++ r) (text ++ r') := by
  induction text with
  | nil => exact h
  | cons c text ih => exact ih.cons c

theorem prefix_or_blank (h : AgreeToBlank r r') {part : List Char} (hpart : part <+: r') :
    part <+: r ∨ ∃ front c more, part = front ++ ' ' :: more ∧ front ++ [c] <+: r ∧ c ≠ '\n' := by
  induction h generalizing part with
  | nil => exact .inl hpart
  | @cons c r r' _ ih =>
      rcases List.prefix_cons_iff.1 hpart with rfl | ⟨part, rfl, hbehind⟩
      · exact .inl List.nil_prefix
      · rcases ih hbehind with hprefix | ⟨front, d, more, rfl, hfront, hd⟩
        · exact .inl ((List.prefix_cons_inj c).2 hprefix)
        · exact .inr ⟨c :: front, d, more, rfl, (List.prefix_cons_inj c).2 hfront, hd⟩
  | @blank c hc r r' =>
      rcases List.prefix_cons_iff.1 hpart with rfl | ⟨more, rfl, -⟩
      · exact .inl List.nil_prefix
      · exact .inr ⟨[], c, more, rfl, (List.prefix_cons_inj c).2 List.nil_prefix, hc⟩

end AgreeToBlank

namespace Tile

variable {tile : Tile} {r rest rest' : List Char} {offset line : Nat}

def isUnrecognized (tile : Tile) : Bool :=
  match tile.lexeme with
  | .refused cause => cause.isUnrecognized
  | _ => false

theorem any_isUnrecognized_item? (tile : Tile) (offset line : Nat) :
    (tile.item? offset line).any Item.isUnrecognized = tile.isUnrecognized := by
  obtain ⟨text, lexeme⟩ := tile
  cases lexeme <;> rfl

/-- The text of the tile, or blanks if it is not recognized. -/
def blanked (tile : Tile) : List Char :=
  if tile.isUnrecognized then List.replicate (byteCount tile.text) ' ' else tile.text

def whitened (tile : Tile) : List Tile :=
  if tile.isUnrecognized then List.replicate (byteCount tile.text) ⟨[' '], .layout⟩ else [tile]

theorem byteCount_replicate_blank (n : Nat) : byteCount (List.replicate n ' ') = n := by
  induction n with
  | zero => rfl
  | succ n ih =>
      have hsize : ' '.utf8Size = 1 := rfl
      rw [List.replicate_succ, byteCount_cons, ih, hsize, Nat.add_comm]

@[simp] theorem byteCount_blanked (tile : Tile) : byteCount tile.blanked = byteCount tile.text := by
  unfold blanked
  split
  · exact byteCount_replicate_blank _
  · rfl

theorem flatten_whitened (tile : Tile) : (tile.whitened.map Tile.text).flatten = tile.blanked := by
  unfold whitened blanked
  split
  · rw [List.map_replicate]
    induction byteCount tile.text with
    | zero => rfl
    | succ n ih => rw [List.replicate_succ, List.flatten_cons, ih, List.replicate_succ]; rfl
  · simp

theorem Begins.exists_of_isUnrecognized (h : tile.Begins r) (hnew : tile.isUnrecognized = true) :
    ∃ c, tile.text = [c] ∧ c ≠ '\n' := by
  cases h with
  | longest _ hclass => cases hclass <;> cases hnew
  | unclosed => cases hnew
  | @unrecognized r c hnone hfirst _ =>
      refine ⟨c, rfl, ?_⟩
      rintro rfl
      obtain ⟨more, rfl⟩ := List.head?_eq_some_iff.1 hfirst
      exact hnone ['\n'] _ ⟨more, rfl⟩ (.blank (by decide))

theorem Begins.count_blanked (h : tile.Begins r) :
    tile.blanked.count '\n' = tile.text.count '\n' := by
  unfold blanked
  split
  · next hnew =>
    obtain ⟨c, htext, hc⟩ := h.exists_of_isUnrecognized hnew
    rw [htext, List.count_replicate, List.count_eq_zero_of_not_mem (by simpa using hc.symm)]
    rfl
  · rfl

theorem quote_mem_of_lexical {body : List Char} {lexeme : Lexeme}
    (h : Lexical ('"' :: body) lexeme) : '"' ∈ body := by
  apply Classical.byContradiction
  intro hbody
  have hpiece := h.first_eq
  have hfirst : Piece.first '"' body = ⟨.refused .unclosedString, body.length⟩ :=
    Piece.string_unclosed hbody
  rw [hfirst] at hpiece
  obtain ⟨rfl, -⟩ := Piece.mk.inj hpiece
  generalize '"' :: body = text at h
  cases h

/-- A tile that is recognized does not depend on what the characters behind it are replaced by. -/
theorem Begins.of_agreeToBlank (h : tile.Begins (tile.text ++ rest))
    (hknown : tile.isUnrecognized = false) (hagree : AgreeToBlank rest rest') :
    tile.Begins (tile.text ++ rest') := by
  generalize hr : tile.text ++ rest = r at h
  cases h with
  | @longest text r lexeme _ hclass hlongest =>
      subst hr
      refine .longest (List.prefix_append ..) hclass fun other lexeme' hfront' hclass' => ?_
      rcases List.prefix_or_prefix_of_prefix hfront' (List.prefix_append text rest') with
        hle | ⟨part, rfl⟩
      · exact hle.length_le
      rcases hagree.prefix_or_blank ((List.prefix_append_right_inj text).1 hfront') with
        hpart | ⟨front, c, more, rfl, hfront, hc⟩
      · exact hlongest _ _ ((List.prefix_append_right_inj text).2 hpart) hclass'
      -- the class goes on over the blank, so it is that of comments or of strings
      rw [← List.append_assoc] at hclass'
      rcases hclass'.eq_comment_or_string (by decide) (by simp [hclass.ne_nil]) with
        ⟨-, body, hbody, hcomment⟩ | ⟨body, hbody, hstring⟩
      · have hlonger : Lexical (text ++ (front ++ [c])) .layout := by
          rw [← List.append_assoc, hcomment]
          exact .comment (by simpa [hbody] using hc.symm)
        have hle := hlongest _ _ ((List.prefix_append_right_inj text).2 hfront) hlonger
        simp only [List.length_append, List.length_singleton] at hle
        omega
      · obtain ⟨d, text, rfl⟩ := List.exists_cons_of_ne_nil hclass.ne_nil
        rw [List.cons_append] at hstring
        obtain ⟨rfl, rfl⟩ := List.cons.inj hstring
        exact absurd (List.mem_append_left _ (quote_mem_of_lexical hclass)) hbody
  | @unclosed r hnone hquote =>
      obtain rfl : rest = [] := by simpa using hr
      cases hagree
      rw [List.append_nil]
      exact .unclosed hnone hquote
  | unrecognized => cases hknown

end Tile

namespace Tiling

variable {r : List Char} {tiles : List Tile} {offset line : Nat}

theorem replicate_blank {rest : List Char} (h : Tiling rest tiles) (n : Nat) :
    Tiling (List.replicate n ' ' ++ rest) (List.replicate n ⟨[' '], .layout⟩ ++ tiles) := by
  induction n with
  | zero => exact h
  | succ n ih =>
      have hbegins : Tile.Begins ⟨[' '], .layout⟩ ([' '] ++ (List.replicate n ' ' ++ rest)) :=
        .blank (by decide) _
      exact .cons hbegins ih

theorem whitened (h : Tiling r tiles) :
    Tiling (tiles.map Tile.blanked).flatten (tiles.flatMap Tile.whitened) ∧
      AgreeToBlank r (tiles.map Tile.blanked).flatten := by
  induction h with
  | nil => exact ⟨.nil, .nil⟩
  | @cons tile rest tiles htile _ ih =>
      obtain ⟨hrest, hagree⟩ := ih
      rw [List.map_cons, List.flatten_cons, List.flatMap_cons]
      cases hnew : tile.isUnrecognized with
      | true =>
          obtain ⟨c, htext, hc⟩ := htile.exists_of_isUnrecognized hnew
          have hblanked : tile.blanked = List.replicate (c.utf8Size) ' ' := by
            simp [Tile.blanked, hnew, htext, byteCount]
          have hwhitened : tile.whitened = List.replicate (c.utf8Size) ⟨[' '], .layout⟩ := by
            simp [Tile.whitened, hnew, htext, byteCount]
          rw [hblanked, hwhitened, htext]
          refine ⟨hrest.replicate_blank _, ?_⟩
          obtain ⟨n, hn⟩ := Nat.exists_eq_succ_of_ne_zero (Nat.pos_iff_ne_zero.1 c.utf8Size_pos)
          rw [hn, List.replicate_succ]
          exact .blank hc _ _
      | false =>
          have hblanked : tile.blanked = tile.text := by simp [Tile.blanked, hnew]
          have hwhitened : tile.whitened = [tile] := by simp [Tile.whitened, hnew]
          rw [hblanked, hwhitened]
          exact ⟨.cons (htile.of_agreeToBlank hnew hagree) hrest, hagree.append _⟩

theorem items_replicate_blank (n offset line : Nat) :
    Tile.items offset line (List.replicate n ⟨[' '], .layout⟩) = [] := by
  induction n generalizing offset line with
  | zero => rfl
  | succ n ih => rw [List.replicate_succ, Tile.items, ih]; rfl

theorem items_whitened (h : Tiling r tiles) (offset line : Nat) :
    Tile.items offset line (tiles.flatMap Tile.whitened) =
      (Tile.items offset line tiles).filter (!·.isUnrecognized) := by
  induction h generalizing offset line with
  | nil => rfl
  | @cons tile rest tiles htile _ ih =>
      rw [List.flatMap_cons, Tile.items_append, tile.flatten_whitened, tile.byteCount_blanked,
        htile.count_blanked, ih, Tile.items, List.filter_append]
      congr 1
      have hyields := tile.any_isUnrecognized_item? offset line
      cases hnew : tile.isUnrecognized with
      | true =>
          rw [Tile.whitened, if_pos hnew, items_replicate_blank]
          cases hitem : tile.item? offset line with
          | none => rfl
          | some item =>
              rw [hitem, hnew, Option.any_some] at hyields
              simp [hyields]
      | false =>
          rw [Tile.whitened, if_neg (by simp [hnew]), Tile.items, Tile.items, List.append_nil]
          cases hitem : tile.item? offset line with
          | none => rfl
          | some item =>
              rw [hitem, hnew, Option.any_some] at hyields
              simp [hyields]

theorem size_blanked (h : Tiling r tiles) :
    byteCount (tiles.map Tile.blanked).flatten = byteCount r ∧
      (tiles.map Tile.blanked).flatten.count '\n' = r.count '\n' := by
  induction h with
  | nil => exact ⟨rfl, rfl⟩
  | cons htile _ ih =>
      obtain ⟨hbytes, hlines⟩ := ih
      rw [List.map_cons, List.flatten_cons, byteCount_append, byteCount_append, List.count_append,
        List.count_append, hbytes, hlines, Tile.byteCount_blanked, htile.count_blanked]
      exact ⟨rfl, rfl⟩

end Tiling

namespace Scanner

variable {s after : Scanner}

theorem blanked_of_step_eq_none (h : s.step = none) : s.blanked = [] := by
  rw [blanked]
  split <;> simp_all

theorem blanked_of_tile {tile : Tile}
    (h : s.step = some (tile.item? s.offset s.line, after))
    (hrest : s.rest = tile.text ++ after.rest) : s.blanked = tile.blanked ++ after.blanked := by
  have htext : s.rest.take (s.rest.length - after.rest.length) = tile.text := by simp [hrest]
  rw [blanked]
  split
  · simp_all
  · next item after' hstep =>
    obtain ⟨rfl, rfl⟩ := Prod.mk.inj (Option.some.inj (h.symm.trans hstep))
    simp only [htext, tile.any_isUnrecognized_item?, Tile.blanked]

/-- A scanner replaces the tiles that are not recognized. -/
theorem blanked_eq_of_tiling {tiles : List Tile} (h : Tiling s.rest tiles) :
    s.blanked = (tiles.map Tile.blanked).flatten := by
  induction s using Scanner.items.induct generalizing tiles with
  | case1 s hstep =>
      rw [step_eq_none_iff.1 hstep] at h
      rw [blanked_of_step_eq_none hstep, h.unique .nil]
      rfl
  | case2 s item after hstep ih =>
      obtain ⟨tile, hbegins, hrest, rfl, -⟩ := exists_tile_of_step hstep
      obtain ⟨tiles', htiling'⟩ := exists_tiling_of_text after.rest
      rw [hrest] at hbegins h
      rw [h.unique (.cons hbegins htiling'), blanked_of_tile hstep hrest, ih htiling',
        List.map_cons, List.flatten_cons]

end Scanner

def Span.contains (span : Span) (position : Nat) : Bool :=
  span.start ≤ position && position < span.stop

namespace Tile

variable {tiles : List Tile} {r : List Char} {offset line position : Nat}

/-- Whether the byte at this position is part of a character that an item does not recognize. -/
def refuses (position : Nat) (item : Item) : Bool :=
  item.isUnrecognized && item.span.contains position

theorem any_refuses_item? (tile : Tile) (h : offset + byteCount tile.text ≤ Span.limit)
    (line position : Nat) :
    (tile.item? offset line).toList.any (refuses position) =
      (tile.isUnrecognized &&
        (decide (offset ≤ position) && decide (position < offset + byteCount tile.text))) := by
  rw [← tile.any_isUnrecognized_item? offset line]
  cases hitem : tile.item? offset line with
  | none => rfl
  | some item =>
      have hspan := span_of_item? hitem
      rw [Span.between_of_le h (Nat.le_add_right ..), Nat.add_sub_cancel_left] at hspan
      simp [refuses, Span.contains, hspan, Span.stop]

theorem any_refuses_of_lt (h : offset + byteCount (tiles.map Tile.text).flatten ≤ Span.limit)
    (hlt : position < offset) (line : Nat) :
    (items offset line tiles).any (refuses position) = false := by
  induction tiles generalizing offset line with
  | nil => rfl
  | cons tile tiles ih =>
      rw [List.map_cons, List.flatten_cons, byteCount_append] at h
      rw [items, List.any_append, ih (by omega) (by omega), Bool.or_false,
        tile.any_refuses_item? (by omega), decide_eq_false (Nat.not_le.2 hlt), Bool.false_and,
        Bool.and_false]

theorem getElem?_replicate_blank {n i : Nat} (h : i < n) :
    (List.replicate n ' ').utf8Encode.data[i]? = some 0x20 := by
  induction n generalizing i with
  | zero => exact absurd h (Nat.not_lt_zero i)
  | succ n ih =>
      have hblank : [' '].utf8Encode.data = #[0x20] := rfl
      rw [List.replicate_succ, List.utf8Encode_cons, ByteArray.data_append, hblank,
        Array.getElem?_append]
      cases i with
      | zero => rfl
      | succ i => exact ih (Nat.lt_of_succ_lt_succ h)

/-- The bytes of the text with blanks in it: those in the spans of the items that are not recognized
are blanks, all others are kept. -/
theorem getElem?_blanked (h : Tiling r tiles) (hsize : offset + byteCount r ≤ Span.limit)
    (line i : Nat) :
    (tiles.map blanked).flatten.utf8Encode.data[i]? =
      if (items offset line tiles).any (refuses (offset + i)) then some 0x20
      else r.utf8Encode.data[i]? := by
  induction h generalizing offset line i with
  | nil => rfl
  | @cons tile rest tiles htile hrest ih =>
      rw [byteCount_append] at hsize
      have htext : tile.text.utf8Encode.data.size = byteCount tile.text :=
        (byteCount_eq_size _).symm
      have hblanked : tile.blanked.utf8Encode.data.size = byteCount tile.text :=
        (byteCount_eq_size _).symm.trans tile.byteCount_blanked
      rw [List.map_cons, List.flatten_cons, List.utf8Encode_append, List.utf8Encode_append,
        ByteArray.data_append, ByteArray.data_append, Array.getElem?_append, Array.getElem?_append,
        htext, hblanked, items, List.any_append, tile.any_refuses_item? (by omega)]
      by_cases hi : i < byteCount tile.text
      · rw [if_pos hi, if_pos hi, any_refuses_of_lt (by rw [hrest.flatten_text]; omega) (by omega),
          decide_eq_true (by omega), decide_eq_true (by omega)]
        cases hnew : tile.isUnrecognized with
        | true =>
            rw [blanked, if_pos hnew]
            exact getElem?_replicate_blank hi
        | false =>
            rw [blanked, if_neg (by simp [hnew])]
            rfl
      · have hposition : offset + byteCount tile.text + (i - byteCount tile.text) = offset + i := by
          omega
        have hnext := @ih (offset + byteCount tile.text) (by omega)
          (line + tile.text.count '\n') (i - byteCount tile.text)
        rw [hposition] at hnext
        rw [if_neg hi, if_neg hi, hnext, decide_eq_false (show ¬ offset + i < _ by omega),
          Bool.and_false, Bool.and_false, Bool.false_or]

end Tile

namespace Scan

variable {source : String} {tiles : List Tile}

theorem toList_blanked (h : Tiling source.toList tiles) :
    (blanked source).toList = (tiles.map Tile.blanked).flatten := by
  rw [blanked, String.toList_ofList]
  exact Scanner.blanked_eq_of_tiling h

theorem utf8ByteSize_blanked (source : String) :
    (blanked source).utf8ByteSize = source.utf8ByteSize := by
  obtain ⟨tiles, htiling⟩ := exists_tiling_of_text source.toList
  rw [← byteCount_toList, ← byteCount_toList, toList_blanked htiling, htiling.size_blanked.1]

/-- The items of the text with blanks in it are the others, each where it was. -/
theorem items_blanked (source : String) :
    (Scanner.ofSource (blanked source)).items =
      (Scanner.ofSource source).items.filter (!·.isUnrecognized) := by
  obtain ⟨tiles, htiling⟩ := exists_tiling_of_text source.toList
  obtain ⟨hbytes, hlines⟩ := htiling.size_blanked
  rw [Scanner.ofSource, Scanner.ofSource, toList_blanked htiling, htiling.whitened.1.items_eq,
    htiling.items_eq, htiling.items_whitened, List.filter_append, hbytes, hlines]
  rfl

theorem tokens_filter (items : List Item) :
    (ofItems (items.filter (!·.isUnrecognized))).tokens = (ofItems items).tokens := by
  simp only [ofItems, List.filterMap_filter]
  congr 1
  funext item
  cases item with
  | ok t => rfl
  | error e => simp [token?]

theorem errors_filter (items : List Item) :
    (ofItems (items.filter (!·.isUnrecognized))).errors =
      (ofItems items).errors.filter (!·.cause.isUnrecognized) := by
  simp only [ofItems, List.filterMap_filter, List.filter_filterMap]
  congr 1
  funext item
  cases item with
  | ok t => rfl
  | error e =>
      cases hcause : e.cause.isUnrecognized <;>
        simp [error?, Item.isUnrecognized, hcause, Option.filter]

theorem any_refuses_eq (items : List Item) (position : Nat) :
    items.any (Tile.refuses position) = (items.filterMap error?).any fun error =>
      error.cause.isUnrecognized && error.span.contains position := by
  rw [List.any_filterMap]
  congr 1
  funext item
  cases item <;> rfl

theorem cause_eq_of_not_isUnrecognized {cause : LexCause} (h : cause.isUnrecognized = false) :
    cause = .unclosedString := by
  cases cause with
  | unrecognized c => cases h
  | unclosedString => rfl

/-- If all characters are recognized there is at most one error, that of a string which is never
closed: it takes the rest of the source. -/
theorem errors_of_recognized
    (h : ∀ error ∈ (ofSource source).errors, error.cause.isUnrecognized = false) :
    (ofSource source).errors = [] ∨
      ∃ error, (ofSource source).errors = [error] ∧ error.cause = .unclosedString := by
  obtain ⟨tiles, htiling⟩ := exists_tiling_of_text source.toList
  have herrors := errors_of_tiling htiling
  cases hlist : (ofSource source).errors with
  | nil => exact .inl rfl
  | cons error errors =>
      have hcause : error.cause = .unclosedString :=
        cause_eq_of_not_isUnrecognized (h error (by simp [hlist]))
      rw [hlist] at herrors
      obtain ⟨front, item, back, hitems, -, hitem, hback⟩ :=
        List.filterMap_eq_cons_iff.1 herrors.symm
      obtain rfl := error?_eq_some.1 hitem
      rw [htiling.back_eq_nil_of_unclosed hitems hcause] at hback
      exact .inr ⟨error, by rw [← hback]; rfl, hcause⟩

/-- Scanning a source with blanks in place of the characters that are not recognized gives the same
tokens in the same places, and the same errors less those that reported the characters, so none or
that of a string which is never closed. The source with blanks is as long; below the limit of spans,
its bytes are blanks in the spans of the errors that reported a character, and all others are those
of the source. -/
theorem ofSource_blanked (source : String) :
    let scan := ofSource source
    let scan' := ofSource (blanked source)
    let kept := scan.errors.filter (!·.cause.isUnrecognized)
    scan'.tokens = scan.tokens ∧ scan'.errors = kept ∧
      scan'.diagnostics = kept.map LexError.diagnostic ∧
      (kept = [] ∨ ∃ error ∈ scan.errors, kept = [error] ∧ error.cause = .unclosedString) ∧
      (Scanner.ofSource (blanked source)).items =
        (Scanner.ofSource source).items.filter (!·.isUnrecognized) ∧
      (blanked source).utf8ByteSize = source.utf8ByteSize ∧
      (source.utf8ByteSize ≤ Span.limit → ∀ i, (blanked source).toUTF8.data[i]? =
        if scan.errors.any fun error => error.cause.isUnrecognized && error.span.contains i then
          some 0x20
        else source.toUTF8.data[i]?) := by
  intro scan scan' kept
  have hitems := items_blanked source
  have herrors : scan'.errors = kept := by
    simp only [scan', kept, scan, ofSource, hitems, errors_filter]
  refine ⟨?_, herrors, ?_, ?_, hitems, utf8ByteSize_blanked source, ?_⟩
  · simp only [scan', scan, ofSource, hitems, tokens_filter]
  · rw [diagnostics, herrors]
  · have hknown : ∀ error ∈ scan'.errors, error.cause.isUnrecognized = false := by
      rw [herrors]
      intro error herror
      simpa using (List.mem_filter.1 herror).2
    rw [← herrors]
    rcases errors_of_recognized hknown with hnone | ⟨error, hone, hcause⟩
    · exact .inl hnone
    · have hmem : error ∈ kept := by
        rw [← herrors]
        exact hone ▸ List.mem_singleton_self error
      exact .inr ⟨error, (List.mem_filter.1 hmem).1, hone, hcause⟩
  · intro hsize i
    obtain ⟨tiles, htiling⟩ := exists_tiling_of_text source.toList
    have hlimit : 0 + byteCount source.toList ≤ Span.limit := by
      rwa [Nat.zero_add, byteCount_toList]
    rw [toUTF8_eq_utf8Encode, toUTF8_eq_utf8Encode, toList_blanked htiling,
      Tile.getElem?_blanked htiling hlimit 1 i, Nat.zero_add, any_refuses_eq,
      ← errors_of_tiling htiling]

example : blanked "=é=//@\n\"@" = "=  =//@\n\"@" := by decide +kernel

end Scan
end Lox
