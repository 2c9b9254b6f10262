import Lox.Proofs.Contents

/-!
# Where items stand in the source

A scanner stands behind a part of its source: its offset counts the bytes of that part, and its line
the line feeds in it. Every step keeps this (`Scanner.StandsBehind.step`), so do a call of `next`
and any number of calls. As long as no number of a span is cut off, a span therefore holds exactly
the bytes of what the item is about, the spans of later items lie further on, and the line of an
item is that of the last byte in its span.
-/

namespace Lox

/-- One more than the number of line feeds among the bytes in front of a position. -/
def lineOf (source : String) (position : Nat) : Nat :=
  1 + (source.toUTF8.extract 0 position).data.count 10

/-- The bytes of the source in the span are those of the text. -/
structure Span.Holds (span : Span) (source text : String) : Prop where
  inside : span.stop ≤ source.utf8ByteSize
  bytes : source.toUTF8.extract span.start span.stop = text.toUTF8

namespace Item

def span : Item → Span
  | .ok t => t.span
  | .error e => e.span

def line : Item → Nat
  | .ok t => t.line
  | .error e => e.line

/-- The text that an item is about: the lexeme of a token, which is empty for the end of input only,
or what is refused, which is one character or all from a quote on that is never closed. -/
inductive About (source : String) : Item → String → Prop
  | token {t : Token} (hkind : t.kind ≠ .eof) (hne : t.lexeme ≠ "") : About source (.ok t) t.lexeme
  | endOfInput {t : Token} (hkind : t.kind = .eof) (hlexeme : t.lexeme = "")
      (hspan : t.span = ⟨source.utf8ByteSize, 0⟩) : About source (.ok t) t.lexeme
  | unrecognized {e : LexError} {c : Char} (hcause : e.cause = .unrecognized c) :
      About source (.error e) (String.singleton c)
  | unclosed {e : LexError} {body : String} (hcause : e.cause = .unclosedString)
      (hbody : '"' ∉ body.toList) (hstop : e.span.stop = source.utf8ByteSize) :
      About source (.error e) ("\"" ++ body)

structure Placed (source : String) (item : Item) : Prop where
  text : ∃ text, About source item text ∧ item.span.Holds source text
  line : item.line = lineOf source item.span.stop

/-- The second item lies behind the first one, and further on unless that is the end of input. -/
def Precedes (first second : Item) : Prop :=
  first.span.stop ≤ second.span.start ∧
    (Item.isEnd first = false → first.span.start < second.span.start)

end Item

theorem le_of_mem_utf8EncodeChar {c : Char} {b : UInt8} (hc : 127 < c.val.toNat)
    (hb : b ∈ String.utf8EncodeChar c) : 128 ≤ b.toNat := by
  have hbyte {n : Nat} (hn : 128 ≤ n) (hlt : n < 256) : 128 ≤ (UInt8.ofNat n).toNat := by
    rwa [UInt8.toNat_ofNat_of_lt' hlt]
  rw [String.utf8EncodeChar.eq_1, if_neg (by omega)] at hb
  split at hb
  · simp only [List.mem_cons, List.not_mem_nil, or_false] at hb
    rcases hb with rfl | rfl <;> exact hbyte (by omega) (by omega)
  · split at hb
    · simp only [List.mem_cons, List.not_mem_nil, or_false] at hb
      rcases hb with rfl | rfl | rfl <;> exact hbyte (by omega) (by omega)
    · simp only [List.mem_cons, List.not_mem_nil, or_false] at hb
      rcases hb with rfl | rfl | rfl | rfl <;> exact hbyte (by omega) (by omega)

theorem count_utf8EncodeChar (c : Char) :
    (String.utf8EncodeChar c).count 10 = [c].count '\n' := by
  by_cases hc : c.val.toNat ≤ 127
  · have hlt : c.val.toNat < UInt8.size := Nat.lt_of_le_of_lt hc (by decide)
    have hbyte : UInt8.ofNat c.val.toNat = 10 ↔ c = '\n' := by
      rw [← UInt8.toNat_inj, UInt8.toNat_ofNat_of_lt' hlt, Char.ext_iff, ← UInt32.toNat_inj]
      rfl
    rw [String.utf8EncodeChar.eq_1, if_pos hc]
    by_cases hline : c = '\n'
    · rw [hbyte.2 hline, hline]
      rfl
    · rw [List.count_eq_zero_of_not_mem, List.count_eq_zero_of_not_mem]
      · simpa using Ne.symm hline
      · simpa [eq_comm] using fun h => hline (hbyte.1 h)
  · have hbyte : 10 ∉ String.utf8EncodeChar c := by
      intro h
      have := le_of_mem_utf8EncodeChar (by omega) h
      revert this
      decide
    have hline : '\n' ∉ [c] := by
      rintro h
      rw [← List.mem_singleton.1 h] at hc
      exact hc (by decide)
    rw [List.count_eq_zero_of_not_mem hbyte, List.count_eq_zero_of_not_mem hline]

theorem count_utf8Encode (text : List Char) :
    text.utf8Encode.data.count 10 = text.count '\n' := by
  induction text with
  | nil => rfl
  | cons c text ih =>
      rw [List.utf8Encode_cons, ByteArray.data_append, Array.count_append, ih,
        List.utf8Encode_singleton, List.data_toByteArray, List.count_toArray,
        count_utf8EncodeChar, ← List.count_append, List.singleton_append]

section

variable {source : String} {front text rest : List Char}

theorem toUTF8_eq_utf8Encode (source : String) : source.toUTF8 = source.toList.utf8Encode :=
  String.utf8Encode_toList.symm

theorem extract_of_split (h : source.toList = front ++ (text ++ rest)) :
    source.toUTF8.extract (byteCount front) (byteCount front + byteCount text) =
      (String.ofList text).toUTF8 := by
  rw [toUTF8_eq_utf8Encode, toUTF8_eq_utf8Encode, h, List.utf8Encode_append, List.utf8Encode_append,
    byteCount_eq_size, byteCount_eq_size, ← Nat.add_zero front.utf8Encode.size, Nat.add_assoc,
    ByteArray.extract_append_size_add, Nat.zero_add, ByteArray.extract_append_eq_left rfl,
    String.toList_ofList]

theorem lineOf_of_split (h : source.toList = front ++ rest) :
    lineOf source (byteCount front) = 1 + front.count '\n' := by
  rw [lineOf, toUTF8_eq_utf8Encode, h, List.utf8Encode_append, byteCount_eq_size,
    ByteArray.extract_append_eq_left rfl, count_utf8Encode]

theorem lineOf_le (source : String) (position : Nat) :
    lineOf source position ≤ 1 + source.utf8ByteSize := by
  have hcount : (source.toUTF8.extract 0 position).data.count 10 ≤ source.utf8ByteSize :=
    calc (source.toUTF8.extract 0 position).data.count 10
        ≤ (source.toUTF8.extract 0 position).size := Array.count_le_size
      _ = min position source.utf8ByteSize := ByteArray.size_extract
      _ ≤ source.utf8ByteSize := Nat.min_le_right ..
  rw [lineOf]
  omega

theorem size_of_split (h : source.toList = front ++ (text ++ rest)) :
    byteCount front + byteCount text + byteCount rest = source.utf8ByteSize := by
  rw [← byteCount_toList, h, byteCount_append, byteCount_append, Nat.add_assoc]

theorem Span.holds_of_split (h : source.toList = front ++ (text ++ rest)) :
    (Span.mk (byteCount front) (byteCount text)).Holds source (String.ofList text) where
  inside := by
    have := size_of_split h
    simp only [stop]
    omega
  bytes := extract_of_split h

namespace Tile

variable {tile : Tile} {item : Item} {offset line : Nat}

theorem span_of_item? (hitem : tile.item? offset line = some item) :
    item.span = .between offset (offset + byteCount tile.text) := by
  unfold item? at hitem
  split at hitem <;> cases hitem <;> rfl

theorem line_of_item? (hitem : tile.item? offset line = some item) :
    item.line = line + tile.text.count '\n' := by
  unfold item? at hitem
  split at hitem <;> cases hitem <;> rfl

theorem lexeme_of_item? {t : Token} (hitem : tile.item? offset line = some (.ok t)) :
    t.lexeme = String.ofList tile.text := by
  unfold item? at hitem
  split at hitem <;> cases hitem
  rfl

theorem Begins.text_eq_of_unrecognized {r : List Char} {c : Char} (h : tile.Begins r)
    (hlexeme : tile.lexeme = .refused (.unrecognized c)) : tile.text = [c] := by
  cases h with
  | longest _ hclass =>
      subst hlexeme
      cases hclass
  | unclosed => cases hlexeme
  | unrecognized =>
      cases hlexeme
      rfl

/-- A quote that is never closed has no other quote behind it. -/
theorem Begins.exists_body_of_unclosed {r : List Char} (h : tile.Begins r)
    (hlexeme : tile.lexeme = .refused .unclosedString) :
    ∃ body, '"' ∉ body ∧ tile.text = '"' :: body := by
  cases h with
  | longest _ hclass =>
      subst hlexeme
      cases hclass
  | unrecognized => cases hlexeme
  | unclosed hnone hquote =>
      obtain ⟨body, rfl⟩ := List.head?_eq_some_iff.1 hquote
      refine ⟨body, ?_, rfl⟩
      intro hclosed
      obtain ⟨inner, behind, rfl, hinner⟩ := List.eq_append_cons_of_mem hclosed
      exact hnone _ _ ⟨behind, by simp⟩ (.string hinner)

theorem about_of_item? (hsource : source.toList = front ++ (tile.text ++ rest))
    (hbegins : tile.Begins (tile.text ++ rest))
    (hspan : item.span = ⟨byteCount front, byteCount tile.text⟩)
    (hitem : tile.item? offset line = some item) :
    item.About source (String.ofList tile.text) := by
  cases item with
  | ok t =>
      have hkind := hbegins.kind_ne_eof (lexeme_of_item?_eq_ok hitem)
      have hlexeme := lexeme_of_item? hitem
      have hne : t.lexeme ≠ "" := by
        intro hempty
        rw [hempty] at hlexeme
        exact hbegins.text_ne_nil (by simpa using congrArg String.toList hlexeme.symm)
      rw [← hlexeme]
      exact .token hkind hne
  | error e =>
      have hlexeme := lexeme_of_item?_eq_error hitem
      cases hcause : e.cause with
      | unrecognized c =>
          rw [hcause] at hlexeme
          rw [hbegins.text_eq_of_unrecognized hlexeme]
          exact .unrecognized hcause
      | unclosedString =>
          rw [hcause] at hlexeme
          obtain ⟨body, hbody, htext⟩ := hbegins.exists_body_of_unclosed hlexeme
          have hrest : rest = [] :=
            List.self_eq_append_right.1 (hbegins.text_eq_of_unclosed hlexeme)
          have hstop : e.span.stop = source.utf8ByteSize := by
            rw [← size_of_split hsource, hrest]
            exact congrArg Span.stop hspan
          have hopened : String.ofList tile.text = "\"" ++ String.ofList body := by
            rw [htext, ← List.singleton_append, String.ofList_append]
          rw [hopened]
          exact .unclosed hcause (by simpa using hbody) hstop

theorem placed_of_item? (hsize : source.utf8ByteSize ≤ Span.limit)
    (hsource : source.toList = front ++ (tile.text ++ rest))
    (hbegins : tile.Begins (tile.text ++ rest))
    (hitem : tile.item? (byteCount front) (1 + front.count '\n') = some item) :
    item.Placed source ∧ item.span = ⟨byteCount front, byteCount tile.text⟩ := by
  have hsplit := size_of_split hsource
  have hspan : item.span = ⟨byteCount front, byteCount tile.text⟩ := by
    rw [span_of_item? hitem, Span.between_of_le (by omega) (Nat.le_add_right ..),
      Nat.add_sub_cancel_left]
  refine ⟨⟨⟨_, about_of_item? hsource hbegins hspan hitem, ?_⟩, ?_⟩, hspan⟩
  · rw [hspan]
    exact Span.holds_of_split hsource
  · have hline := lineOf_of_split (hsource.trans (List.append_assoc ..).symm)
    rw [byteCount_append, List.count_append] at hline
    rw [line_of_item? hitem, hspan, Nat.add_assoc]
    exact hline.symm

end Tile

end

namespace Item

variable {source : String} {item : Item}

theorem Placed.start_lt_stop (h : item.Placed source) (hend : Item.isEnd item = false) :
    item.span.start < item.span.stop := by
  obtain ⟨text, habout, hholds⟩ := h.text
  have hne : text ≠ "" := by
    cases habout with
    | token _ hne => exact hne
    | endOfInput hkind => simp [Item.isEnd, Token.isEnd, hkind] at hend
    | unrecognized => simp
    | unclosed => simp
  apply Nat.lt_of_not_le
  intro hle
  apply hne
  have hbytes := hholds.bytes
  rw [ByteArray.extract_eq_empty_iff.2 (by omega)] at hbytes
  exact String.toByteArray_inj.1 hbytes.symm

end Item

namespace Scanner

structure StandsBehind (s : Scanner) (source : String) (front : List Char) : Prop where
  text : source.toList = front ++ s.rest
  offset : s.offset = byteCount front
  line : s.line = 1 + front.count '\n'

variable {s after : Scanner} {source : String} {front : List Char}

theorem standsBehind_ofSource (source : String) : (ofSource source).StandsBehind source [] :=
  ⟨rfl, rfl, rfl⟩

namespace StandsBehind

theorem step (h : s.StandsBehind source front) {item : Option Item}
    (hstep : s.step = some (item, after)) :
    ∃ tile : Tile, tile.Begins (tile.text ++ after.rest) ∧
      source.toList = front ++ (tile.text ++ after.rest) ∧
      item = tile.item? (byteCount front) (1 + front.count '\n') ∧
      after.StandsBehind source (front ++ tile.text) := by
  obtain ⟨tile, hbegins, hrest, hitem, hoffset, hline⟩ := exists_tile_of_step hstep
  have htext := h.text
  rw [hrest] at hbegins htext
  rw [h.offset, h.line] at hitem
  refine ⟨tile, hbegins, htext, hitem, ⟨?_, ?_, ?_⟩⟩
  · rw [htext, List.append_assoc]
  · rw [hoffset, h.offset, byteCount_append]
  · rw [hline, h.line, List.count_append, Nat.add_assoc]

theorem offset_le_of_step {item : Option Item} (hstep : s.step = some (item, after)) :
    s.offset ≤ after.offset := by
  obtain ⟨tile, -, -, -, hoffset, -⟩ := exists_tile_of_step hstep
  rw [hoffset]
  exact Nat.le_add_right ..

theorem placed_finish (h : s.StandsBehind source front) (hsize : source.utf8ByteSize ≤ Span.limit)
    (hrest : s.rest = []) :
    Item.Placed source (.ok s.finish) ∧ s.finish.span = ⟨s.offset, 0⟩ := by
  have htext : source.toList = front ++ ([] ++ []) := by rw [h.text, hrest]; rfl
  have hoffset : s.offset = source.utf8ByteSize := by
    rw [h.offset, ← size_of_split htext]
    rfl
  have hspan : s.finish.span = ⟨source.utf8ByteSize, 0⟩ := by
    rw [finish, Token.endOfInput, Span.emptyAt, hoffset, Span.between_of_le hsize (Nat.le_refl _),
      Nat.sub_self]
  have hholds : s.finish.span.Holds source s.finish.lexeme := by
    rw [hspan, ← hoffset, h.offset]
    exact Span.holds_of_split htext
  refine ⟨⟨⟨_, .endOfInput rfl rfl hspan, hholds⟩, ?_⟩, by rw [hspan, hoffset]⟩
  change s.line = lineOf source s.finish.span.stop
  rw [hspan, ← hoffset, h.offset, h.line]
  exact (lineOf_of_split htext).symm

/-- A call of `next` skips layout and then gives an item in its place, which ends where the scanner
stands afterwards. -/
theorem next (h : s.StandsBehind source front) (hsize : source.utf8ByteSize ≤ Span.limit) :
    Item.Placed source s.next.1 ∧ s.offset ≤ (Item.span s.next.1).start ∧
      (Item.span s.next.1).stop = s.next.2.offset ∧
      ∃ front', s.next.2.StandsBehind source front' := by
  fun_induction Scanner.next s generalizing front with
  | case1 s hstep =>
      obtain ⟨hplaced, hspan⟩ := h.placed_finish hsize (step_eq_none_iff.1 hstep)
      refine ⟨hplaced, ?_, ?_, front, h⟩
      · exact Nat.le_of_eq (congrArg Span.start hspan).symm
      · exact congrArg Span.stop hspan
  | case2 s item after hstep =>
      obtain ⟨tile, hbegins, htext, hitem, hafter⟩ := h.step hstep
      obtain ⟨hplaced, hspan⟩ := Tile.placed_of_item? hsize htext hbegins hitem.symm
      refine ⟨hplaced, ?_, ?_, _, hafter⟩
      · exact Nat.le_of_eq (h.offset.trans (congrArg Span.start hspan).symm)
      · rw [hspan, hafter.offset, byteCount_append]
        rfl
  | case3 s after hstep ih =>
      obtain ⟨tile, -, -, -, hafter⟩ := h.step hstep
      obtain ⟨hplaced, hle, hstop⟩ := ih hafter
      exact ⟨hplaced, Nat.le_trans (offset_le_of_step hstep) hle, hstop⟩

/-- Any number of calls gives items in their places, one behind the other. -/
theorem take (h : s.StandsBehind source front) (hsize : source.utf8ByteSize ≤ Span.limit)
    (count : Nat) :
    (∀ item ∈ (s.take count).1, item.Placed source ∧ s.offset ≤ item.span.start) ∧
      (s.take count).1.Pairwise Item.Precedes ∧
      ∃ front', (s.take count).2.StandsBehind source front' := by
  induction count generalizing s front with
  | zero => exact ⟨by simp [Scanner.take], List.Pairwise.nil, front, h⟩
  | succ count ih =>
      obtain ⟨hplaced, hle, hstop, front', hnext⟩ := h.next hsize
      obtain ⟨hitems, hpairwise, hfinal⟩ := ih hnext
      have hmore : s.offset ≤ s.next.2.offset :=
        calc s.offset ≤ (Item.span s.next.1).start := hle
          _ ≤ (Item.span s.next.1).stop := Nat.le_add_right ..
          _ = s.next.2.offset := hstop
      refine ⟨?_, List.Pairwise.cons ?_ hpairwise, hfinal⟩
      · intro item hitem
        rcases List.mem_cons.1 hitem with rfl | hitem
        · exact ⟨hplaced, hle⟩
        · obtain ⟨hplaced', hle'⟩ := hitems item hitem
          exact ⟨hplaced', Nat.le_trans hmore hle'⟩
      · intro item hitem
        obtain ⟨-, hle'⟩ := hitems item hitem
        rw [← hstop] at hle'
        exact ⟨hle', fun hend => Nat.lt_of_lt_of_le (hplaced.start_lt_stop hend) hle'⟩

theorem line_le (h : s.StandsBehind source front) : s.line ≤ 1 + source.utf8ByteSize := by
  rw [h.line, ← lineOf_of_split h.text]
  exact lineOf_le source _

end StandsBehind

/-- In a source of fewer bytes than the largest number of 32 bits, every item that a scanner gives,
however often it is called, has the bytes of its text in its span and the line of its last byte. Of
two items the later one lies further on. No line, nor that of the scanner, is beyond 32 bits. -/
theorem take_ofSource_placed (source : String) (hsize : source.utf8ByteSize < UInt32.size - 1)
    (count : Nat) :
    (∀ item ∈ ((ofSource source).take count).1, item.Placed source ∧ item.line < UInt32.size) ∧
      ((ofSource source).take count).1.Pairwise Item.Precedes ∧
      ((ofSource source).take count).2.line < UInt32.size := by
  have hlimit : source.utf8ByteSize ≤ Span.limit := Nat.le_of_lt hsize
  obtain ⟨hitems, hpairwise, front, hfinal⟩ := (standsBehind_ofSource source).take hlimit count
  refine ⟨?_, hpairwise, ?_⟩
  · intro item hitem
    obtain ⟨hplaced, -⟩ := hitems item hitem
    have hline := lineOf_le source item.span.stop
    rw [← hplaced.line] at hline
    exact ⟨hplaced, by omega⟩
  · have hline := hfinal.line_le
    omega

/-- A string over two lines, a comment, a character of two bytes that is refused, and a string that
is never closed. -/
theorem string_over_lines_placed :
    let source := "\"a\nb\" // c\né\"x\n"
    let items := ((ofSource source).take 5).1
    source.utf8ByteSize < UInt32.size - 1 ∧
      items.map (fun item => (item.span.start, item.span.stop, item.line)) =
        [(0, 5, 2), (11, 13, 3), (13, 16, 4), (16, 16, 4), (16, 16, 4)] ∧
      (∀ item ∈ items, item.Placed source ∧ item.line < UInt32.size) ∧
      items.Pairwise Item.Precedes := by
  intro source items
  have hsize : source.utf8ByteSize < UInt32.size - 1 := by decide +kernel
  obtain ⟨hitems, hpairwise, -⟩ := take_ofSource_placed source hsize 5
  exact ⟨hsize, by decide +kernel, hitems, hpairwise⟩

end Scanner
end Lox
