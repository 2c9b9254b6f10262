import Lox.Proofs.LexicalClass
import Lox.Token.Scan

/-!
# Scanning by the longest match

A source falls into tiles. Each is decided by the text from its start on: the longest part in a
lexical class, or all of the text behind a quote that is never closed, or a single character that
begins no class. The items of a scan are what the tiles yield, with the bytes and the lines that the
tiles in front of them take.
-/

namespace Lox

structure Tile where
  text : List Char
  lexeme : Lexeme

/-- No part at the front of the text is in a lexical class. -/
def Classless (r : List Char) : Prop :=
  ∀ text lexeme, text <+: r → ¬ Lexical text lexeme

namespace Tile

/-- The tile with which a text begins. -/
inductive Begins : Tile → List Char → Prop
  | longest {text r : List Char} {lexeme : Lexeme} (hfront : text <+: r)
      (hclass : Lexical text lexeme)
      (hlongest : ∀ other lexeme', other <+: r → Lexical other lexeme' →
        other.length ≤ text.length) : Begins ⟨text, lexeme⟩ r
  | unclosed {r : List Char} (hnone : Classless r) (hquote : r.head? = some '"') :
      Begins ⟨r, .refused .unclosedString⟩ r
  | unrecognized {r : List Char} {c : Char} (hnone : Classless r) (hfirst : r.head? = some c)
      (hquote : c ≠ '"') : Begins ⟨[c], .refused (.unrecognized c)⟩ r

def item? (tile : Tile) (offset line : Nat) : Option Item :=
  let line := line + tile.text.count '\n'
  let span := Span.between offset (offset + byteCount tile.text)
  match tile.lexeme with
  | .layout => none
  | .token kind literal => some (.ok ⟨kind, String.ofList tile.text, literal, line, span⟩)
  | .refused cause => some (.error ⟨cause, line, span⟩)

/-- What tiles yield in order, each one beginning where the one in front of it ends. -/
def items (offset line : Nat) : List Tile → List Item
  | [] => []
  | tile :: tiles => (tile.item? offset line).toList ++
      items (offset + byteCount tile.text) (line + tile.text.count '\n') tiles

theorem lexeme_of_item?_eq_ok {tile : Tile} {offset line : Nat} {t : Token}
    (h : tile.item? offset line = some (.ok t)) : tile.lexeme = .token t.kind t.literal := by
  unfold item? at h
  split at h <;> cases h
  assumption

theorem lexeme_of_item?_eq_error {tile : Tile} {offset line : Nat} {error : LexError}
    (h : tile.item? offset line = some (.error error)) : tile.lexeme = .refused error.cause := by
  unfold item? at h
  split at h <;> cases h
  assumption

end Tile

/-- The text falls into these tiles. -/
inductive Tiling : List Char → List Tile → Prop
  | nil : Tiling [] []
  | cons {tile : Tile} {rest : List Char} {tiles : List Tile}
      (htile : tile.Begins (tile.text ++ rest)) (hrest : Tiling rest tiles) :
      Tiling (tile.text ++ rest) (tile :: tiles)

namespace Piece

variable {c : Char} {cs : List Char}

theorem length_le_of_lexical {text : List Char} {lexeme : Lexeme} (hfront : text <+: c :: cs)
    (h : Lexical text lexeme) :
    text.length ≤ (c :: cs.take (first c cs).more).length ∧ (first c cs).Accepted := by
  obtain ⟨d, ds, rfl⟩ := List.exists_cons_of_ne_nil h.ne_nil
  obtain ⟨tail, htail⟩ := hfront
  rw [List.cons_append] at htail
  obtain ⟨rfl, rfl⟩ := List.cons.inj htail
  obtain ⟨hmore, haccepted⟩ := h.first_append tail
  refine ⟨?_, haccepted⟩
  simp only [List.length_cons, List.length_take, List.length_append]
  omega

theorem first_of_not_accepted (h : ¬ (first c cs).Accepted) :
    c = '"' ∧ first c cs = ⟨.refused .unclosedString, cs.length⟩ ∨
      c ≠ '"' ∧ first c cs = ⟨.refused (.unrecognized c), 0⟩ := by
  by_cases hmark : c ∈ marks
  · by_cases hquote : c = '"'
    · subst hquote
      refine .inl ⟨rfl, string_unclosed fun hclosed => h ?_⟩
      obtain ⟨body, tail, rfl, hbody⟩ := List.eq_append_cons_of_mem hclosed
      intro cause
      change (string _).lexeme ≠ _
      simp [string_closed hbody]
    · exact absurd (accepted_first_of_mem_marks hmark hquote cs) h
  · have hquote : c ≠ '"' := by
      rintro rfl
      exact hmark (by decide)
    rw [first_of_not_mem_marks hmark] at h ⊢
    split at h
    · exact absurd (accepted_number c cs) h
    · next hdigit =>
      split at h
      · exact absurd (accepted_word c cs) h
      · next halpha => exact .inr ⟨hquote, by rw [if_neg hdigit, if_neg halpha]⟩

/-- The piece at the front is the tile with which the text begins. -/
theorem begins_first (c : Char) (cs : List Char) :
    Tile.Begins ⟨c :: cs.take (first c cs).more, (first c cs).lexeme⟩ (c :: cs) := by
  by_cases haccepted : (first c cs).Accepted
  · refine .longest ⟨cs.drop (first c cs).more, ?_⟩ (lexical_first haccepted) ?_
    · rw [List.cons_append, List.take_append_drop]
    · intro other lexeme' hfront hclass
      exact (length_le_of_lexical hfront hclass).1
  · have hnone : Classless (c :: cs) := fun text lexeme hfront hclass =>
      haccepted (length_le_of_lexical hfront hclass).2
    rcases first_of_not_accepted haccepted with ⟨rfl, hfirst⟩ | ⟨hquote, hfirst⟩
    · rw [hfirst, List.take_length]
      exact .unclosed hnone rfl
    · rw [hfirst, List.take_zero]
      exact .unrecognized hnone rfl hquote

end Piece

namespace Tile.Begins

variable {tile tile' : Tile} {r : List Char}

theorem unique (h : tile.Begins r) (h' : tile'.Begins r) : tile = tile' := by
  cases h with
  | longest hfront hclass hlongest =>
      cases h' with
      | longest hfront' hclass' hlongest' =>
          have hlength := Nat.le_antisymm (hlongest' _ _ hfront hclass)
            (hlongest _ _ hfront' hclass')
          obtain rfl := (List.prefix_of_prefix_length_le hfront hfront'
            (Nat.le_of_eq hlength)).eq_of_length hlength
          rw [hclass.unique hclass']
      | unclosed hnone => exact absurd hclass (hnone _ _ hfront)
      | unrecognized hnone => exact absurd hclass (hnone _ _ hfront)
  | unclosed hnone hquote =>
      cases h' with
      | longest hfront' hclass' => exact absurd hclass' (hnone _ _ hfront')
      | unclosed => rfl
      | unrecognized _ hfirst hother =>
          exact absurd (Option.some.inj (hfirst.symm.trans hquote)) hother
  | unrecognized hnone hfirst hother =>
      cases h' with
      | longest hfront' hclass' => exact absurd hclass' (hnone _ _ hfront')
      | unclosed _ hquote => exact absurd (Option.some.inj (hfirst.symm.trans hquote)) hother
      | unrecognized _ hfirst' => rw [Option.some.inj (hfirst.symm.trans hfirst')]

theorem text_ne_nil (h : tile.Begins r) : tile.text ≠ [] := by
  cases h with
  | longest _ hclass => exact hclass.ne_nil
  | unclosed _ hquote => exact List.ne_nil_of_mem (List.mem_of_head? hquote)
  | unrecognized => simp

theorem text_eq_of_unclosed (h : tile.Begins r) (hlexeme : tile.lexeme = .refused .unclosedString) :
    tile.text = r := by
  cases h with
  | longest _ hclass =>
      subst hlexeme
      cases hclass
  | unclosed => rfl
  | unrecognized => cases hlexeme

theorem kind_ne_eof (h : tile.Begins r) {kind : Kind} {literal : Option Literal}
    (hlexeme : tile.lexeme = .token kind literal) : kind ≠ .eof := by
  cases h with
  | longest _ hclass =>
      subst hlexeme
      cases hclass <;> simp
  | unclosed | unrecognized => cases hlexeme

end Tile.Begins

namespace Tiling

variable {r : List Char} {tiles tiles' : List Tile}

theorem flatten_text (h : Tiling r tiles) : (tiles.map Tile.text).flatten = r := by
  induction h with
  | nil => rfl
  | cons _ _ ih => rw [List.map_cons, List.flatten_cons, ih]

theorem unique (h : Tiling r tiles) (h' : Tiling r tiles') : tiles = tiles' := by
  induction h generalizing tiles' with
  | nil =>
      generalize hr : ([] : List Char) = r at h'
      cases h' with
      | nil => rfl
      | cons htile _ => exact absurd (List.append_eq_nil_iff.1 hr.symm).1 htile.text_ne_nil
  | @cons tile rest tiles htile _ ih =>
      generalize hr : tile.text ++ rest = r at h'
      cases h' with
      | nil => exact absurd (List.append_eq_nil_iff.1 hr).1 htile.text_ne_nil
      | @cons tile' rest' tiles' htile' hrest' =>
          rw [← hr] at htile'
          obtain rfl := htile.unique htile'
          obtain rfl := List.append_cancel_left hr
          rw [ih hrest']

theorem kind_ne_eof_of_mem_items (h : Tiling r tiles) {offset line : Nat} {t : Token}
    (ht : .ok t ∈ Tile.items offset line tiles) : t.kind ≠ .eof := by
  induction h generalizing offset line with
  | nil => cases ht
  | cons htile _ ih =>
      rcases List.mem_append.1 ht with ht | ht
      · exact htile.kind_ne_eof (Tile.lexeme_of_item?_eq_ok (Option.mem_toList.1 ht))
      · exact ih ht

theorem back_eq_nil_of_unclosed (h : Tiling r tiles) {offset line : Nat} {front back : List Item}
    {error : LexError} (hitems : Tile.items offset line tiles = front ++ .error error :: back)
    (hcause : error.cause = .unclosedString) : back = [] := by
  induction h generalizing offset line front with
  | nil => simp [Tile.items] at hitems
  | @cons tile rest tiles htile hrest ih =>
      rw [Tile.items] at hitems
      cases hitem : tile.item? offset line with
      | none =>
          rw [hitem] at hitems
          exact ih hitems
      | some item =>
          rw [hitem] at hitems
          cases front with
          | cons first front => exact ih (List.cons.inj hitems).2
          | nil =>
              obtain ⟨rfl, hback⟩ := List.cons.inj hitems
              have hlexeme := Tile.lexeme_of_item?_eq_error hitem
              rw [hcause] at hlexeme
              -- the tile takes the whole text, so no tile is left behind it
              obtain rfl := List.self_eq_append_right.1 (htile.text_eq_of_unclosed hlexeme)
              rw [unique hrest .nil] at hback
              exact hback.symm

end Tiling

theorem byteCount_cons (c : Char) (text : List Char) :
    byteCount (c :: text) = c.utf8Size + byteCount text := rfl

theorem byteCount_append (text text' : List Char) :
    byteCount (text ++ text') = byteCount text + byteCount text' := by
  induction text with
  | nil => simp [byteCount]
  | cons c text ih => rw [List.cons_append, byteCount_cons, byteCount_cons, ih, Nat.add_assoc]

theorem byteCount_eq_size (text : List Char) : byteCount text = text.utf8Encode.size := by
  induction text with
  | nil => rfl
  | cons c text ih =>
      rw [byteCount_cons, ih, List.utf8Encode_cons, ByteArray.size_append,
        List.utf8Encode_singleton, List.size_toByteArray, String.length_utf8EncodeChar]

theorem byteCount_toList (source : String) : byteCount source.toList = source.utf8ByteSize := by
  rw [byteCount_eq_size, String.utf8Encode_toList, String.size_toByteArray]

namespace Scanner

variable {s after : Scanner}

/-- One step of a scanner reads the tile with which the rest of its source begins. -/
theorem exists_tile_of_step {item : Option Item} (h : s.step = some (item, after)) :
    ∃ tile : Tile, tile.Begins s.rest ∧ s.rest = tile.text ++ after.rest ∧
      item = tile.item? s.offset s.line ∧ after.offset = s.offset + byteCount tile.text ∧
      after.line = s.line + tile.text.count '\n' := by
  unfold step at h
  split at h
  · cases h
  · next c cs hrest =>
    obtain ⟨rfl, rfl⟩ := Prod.mk.inj (Option.some.inj h)
    refine ⟨⟨c :: cs.take (Piece.first c cs).more, (Piece.first c cs).lexeme⟩, ?_, ?_, ?_, rfl, rfl⟩
    · rw [hrest]
      exact Piece.begins_first c cs
    · simp [hrest, skip]
    · cases (Piece.first c cs).lexeme <;> rfl

theorem take_of_layout (h : s.step = some (none, after)) (n : Nat) :
    s.take (n + 1) = after.take (n + 1) := by
  simp only [take, next_of_layout h]

theorem take_of_item {item : Item} (h : s.step = some (some item, after)) (n : Nat) :
    s.take (n + 1) = (item :: (after.take n).1, (after.take n).2) := by
  simp only [take, next_of_item h]

/-- From wherever a scanner stands, calling it up to the end of input gives what the tiles of the
rest of its source yield. -/
theorem exists_tiling (s : Scanner) :
    ∃ tiles final, Tiling s.rest tiles ∧
      s.take ((Tile.items s.offset s.line tiles).length + 1) =
        (Tile.items s.offset s.line tiles ++
          [.ok (.endOfInput (s.line + s.rest.count '\n') (s.offset + byteCount s.rest))],
        final) := by
  induction s using Scanner.items.induct with
  | case1 s h =>
      have hrest := step_eq_none_iff.1 h
      refine ⟨[], s, by rw [hrest]; exact .nil, ?_⟩
      simp [take, Tile.items, next_of_step_eq_none h, finish, hrest, byteCount]
  | case2 s item after h ih =>
      obtain ⟨tile, hbegins, hrest, rfl, hoffset, hline⟩ := exists_tile_of_step h
      obtain ⟨tiles, final, htiling, htake⟩ := ih
      rw [hrest] at hbegins
      refine ⟨tile :: tiles, final, by rw [hrest]; exact .cons hbegins htiling, ?_⟩
      rw [hoffset, hline] at htake
      rw [hrest, List.count_append, byteCount_append, ← Nat.add_assoc, ← Nat.add_assoc, Tile.items]
      cases hitem : tile.item? s.offset s.line with
      | none =>
          rw [hitem] at h
          rw [Option.toList_none, List.nil_append, take_of_layout h, htake]
      | some item =>
          rw [hitem] at h
          rw [Option.toList_some, List.singleton_append, List.length_cons, take_of_item h, htake,
            List.cons_append]

/-- Every source falls into tiles in exactly one way, from its first byte to its last. Calling the
scanner up to the end of input gives what the tiles yield, and an unclosed string is the last of
it. -/
theorem take_ofSource_eq_items_of_tiling (source : String) :
    ∃ tiles final, Tiling source.toList tiles ∧
      (∀ tiles', Tiling source.toList tiles' → tiles' = tiles) ∧
      (tiles.map Tile.text).flatten = source.toList ∧
      (ofSource source).take ((Tile.items 0 1 tiles).length + 1) =
        (Tile.items 0 1 tiles ++
          [.ok (.endOfInput (1 + source.toList.count '\n') source.utf8ByteSize)], final) ∧
      (∀ t, .ok t ∈ Tile.items 0 1 tiles → t.kind ≠ .eof) ∧
      ∀ front error back, Tile.items 0 1 tiles = front ++ .error error :: back →
        error.cause = .unclosedString → back = [] := by
  obtain ⟨tiles, final, htiling, htake⟩ := exists_tiling (ofSource source)
  simp only [ofSource, Nat.zero_add, byteCount_toList] at htiling htake
  exact ⟨tiles, final, htiling, fun _ h => h.unique htiling, htiling.flatten_text, htake,
    fun _ => htiling.kind_ne_eof_of_mem_items,
    fun _ _ _ hitems hcause => htiling.back_eq_nil_of_unclosed hitems hcause⟩

end Scanner
end Lox
