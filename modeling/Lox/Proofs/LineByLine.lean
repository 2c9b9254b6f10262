import Lox.Proofs.Separation
import Lox.Run

/-!
# Scanning line by line

Unless a string is left open in front of it, a line break divides a scan: the items in front of it
are those of the text in front, and the items behind it are those of the text behind, with lines and
bytes moved on.
-/

namespace Lox

def Span.shift (bytes : Nat) (s : Span) : Span :=
  { s with start := s.start + bytes }

def Token.shift (bytes lines : Nat) (t : Token) : Token :=
  { t with line := t.line + lines, span := t.span.shift bytes }

def LexError.shift (bytes lines : Nat) (e : LexError) : LexError :=
  { e with line := e.line + lines, span := e.span.shift bytes }

/-- The item as it is this many bytes and lines further on. -/
def Item.shift (bytes lines : Nat) : Item → Item
  | .ok t => .ok (t.shift bytes lines)
  | .error e => .error (e.shift bytes lines)

def Diagnostic.shift (bytes lines : Nat) (d : Diagnostic) : Diagnostic :=
  { d with line := d.line + lines, span := d.span.map (Span.shift bytes) }

variable {bytes lines offset line : Nat}

theorem Span.between_add {first last : Nat} (h : first + bytes ≤ limit) :
    between (first + bytes) (last + bytes) = (between first last).shift bytes := by
  simp only [between, shift, Span.mk.injEq]
  omega

theorem Token.endOfInput_add (line lines : Nat) {position : Nat}
    (h : position + bytes ≤ Span.limit) :
    endOfInput (line + lines) (position + bytes) =
      (endOfInput line position).shift bytes lines := by
  simp only [endOfInput, shift, Span.emptyAt, Span.between_add h]

namespace Tile

theorem item?_add (tile : Tile) (h : offset + bytes ≤ Span.limit) :
    tile.item? (offset + bytes) (line + lines) =
      (tile.item? offset line).map (Item.shift bytes lines) := by
  obtain ⟨text, lexeme⟩ := tile
  have hspan : Span.between (offset + bytes) (offset + bytes + byteCount text) =
      (Span.between offset (offset + byteCount text)).shift bytes := by
    rw [← Span.between_add h, Nat.add_right_comm]
  simp only [item?, hspan, Nat.add_right_comm line lines]
  cases lexeme <;> rfl

theorem items_line_cons (tiles : List Tile) :
    items offset line (⟨['\n'], .layout⟩ :: tiles) = items (offset + 1) (line + 1) tiles := rfl

/-- Below the limit no number of a span is cut off, so positions move on by plain addition. -/
theorem items_add (tiles : List Tile)
    (h : offset + bytes + byteCount (tiles.map Tile.text).flatten ≤ Span.limit) :
    items (offset + bytes) (line + lines) tiles =
      (items offset line tiles).map (Item.shift bytes lines) := by
  induction tiles generalizing offset line with
  | nil => rfl
  | cons tile tiles ih =>
      rw [List.map_cons, List.flatten_cons, byteCount_append] at h
      rw [items, items, tile.item?_add (by omega), List.map_append, ← Option.toList_map,
        Nat.add_right_comm offset, Nat.add_right_comm line, ih (by omega)]

end Tile

namespace Scanner

variable {r rest : List Char}

/-- Further on in a source, the same text gives the same items further on. -/
theorem items_add (h : offset + bytes + byteCount r ≤ Span.limit) :
    (Scanner.mk r (offset + bytes) (line + lines)).items =
      (Scanner.mk r offset line).items.map (Item.shift bytes lines) := by
  obtain ⟨tiles, htiling⟩ := exists_tiling_of_text r
  have hbound : offset + bytes + byteCount (tiles.map Tile.text).flatten ≤ Span.limit := by
    rwa [htiling.flatten_text]
  have hend : Token.endOfInput (line + lines + r.count '\n') (offset + bytes + byteCount r) =
      (Token.endOfInput (line + r.count '\n') (offset + byteCount r)).shift bytes lines := by
    rw [← Token.endOfInput_add _ _ (by omega), Nat.add_right_comm line, Nat.add_right_comm offset]
  rw [htiling.items_eq, htiling.items_eq, List.map_append, Tile.items_add tiles hbound, hend]
  rfl

theorem lexeme_ne_of_items {tiles : List Tile} {cause : LexCause} (htiling : Tiling r tiles)
    (h : ∀ error, .error error ∈ (Scanner.mk r offset line).items → error.cause ≠ cause) :
    ∀ tile ∈ tiles, tile.lexeme ≠ .refused cause := by
  intro tile htile hlexeme
  have hcontent : tile.content? = some (.error cause) := by simp [Tile.content?, hlexeme]
  have hmem := List.mem_filterMap.2 ⟨tile, htile, hcontent⟩
  rw [← Tile.map_content_items tiles offset line] at hmem
  obtain ⟨item, hitem, hcause⟩ := List.mem_map.1 hmem
  cases item with
  | ok => cases hcause
  | error error =>
      rw [htiling.items_eq] at h
      exact h error (List.mem_append_left _ hitem) (by cases hcause; rfl)

theorem items_append_line
    (h : ∀ error, .error error ∈ (Scanner.mk r offset line).items →
      error.cause ≠ .unclosedString) :
    (Scanner.mk (r ++ '\n' :: rest) offset line).items =
      (Scanner.mk r offset line).items.dropLast ++
        (Scanner.mk rest (offset + (byteCount r + 1)) (line + (1 + r.count '\n'))).items := by
  obtain ⟨tiles, htiling⟩ := exists_tiling_of_text r
  obtain ⟨tiles', htiling'⟩ := exists_tiling_of_text rest
  have hwhole := htiling.append_line (lexeme_ne_of_items htiling h) htiling'
  have hbytes : byteCount (r ++ '\n' :: rest) = byteCount r + 1 + byteCount rest := by
    rw [byteCount_append, byteCount_cons, Nat.add_assoc]
    rfl
  have hlines : (r ++ '\n' :: rest).count '\n' = 1 + r.count '\n' + rest.count '\n' := by
    rw [List.count_append, List.count_cons_self]
    omega
  rw [hwhole.items_eq, htiling.items_eq, List.dropLast_concat, htiling'.items_eq, hbytes, hlines,
    Tile.items_append, Tile.items_line_cons, htiling.flatten_text, List.append_assoc]
  simp only [Nat.add_assoc, Nat.add_comm 1]

end Scanner

namespace Scan

theorem tokens_append (items items' : List Item) :
    (ofItems (items ++ items')).tokens = (ofItems items).tokens ++ (ofItems items').tokens :=
  List.filterMap_append

theorem errors_append (items items' : List Item) :
    (ofItems (items ++ items')).errors = (ofItems items).errors ++ (ofItems items').errors :=
  List.filterMap_append

theorem filterMap_map_shift {α : Type} {read : Item → Option α} {move : α → α}
    (h : ∀ item, read (Item.shift bytes lines item) = (read item).map move) (items : List Item) :
    (items.map (Item.shift bytes lines)).filterMap read = (items.filterMap read).map move := by
  rw [List.filterMap_map, List.map_filterMap]
  congr 1
  funext item
  exact h item

theorem tokens_map_shift (items : List Item) :
    (ofItems (items.map (Item.shift bytes lines))).tokens =
      (ofItems items).tokens.map (Token.shift bytes lines) :=
  filterMap_map_shift (fun item => by cases item <;> rfl) items

theorem errors_map_shift (items : List Item) :
    (ofItems (items.map (Item.shift bytes lines))).errors =
      (ofItems items).errors.map (LexError.shift bytes lines) :=
  filterMap_map_shift (fun item => by cases item <;> rfl) items

/-- A line break divides a scan if no string is left open in front of it. -/
theorem ofSource_append_line (a b : String)
    (hclosed : ∀ error ∈ (ofSource a).errors, error.cause ≠ .unclosedString)
    (hsize : a.utf8ByteSize + b.utf8ByteSize < Span.limit) :
    let bytes := a.utf8ByteSize + 1
    let lines := 1 + a.toList.count '\n'
    let whole := a ++ "\n" ++ b
    (∃ front, (Scanner.ofSource a).items =
        front ++ [.ok (.endOfInput lines a.utf8ByteSize)] ∧
      (Scanner.ofSource whole).items =
        front ++ (Scanner.ofSource b).items.map (Item.shift bytes lines)) ∧
      (ofSource whole).tokens =
        (ofSource a).tokens.dropLast ++ (ofSource b).tokens.map (Token.shift bytes lines) ∧
      (ofSource whole).hadError = ((ofSource a).hadError || (ofSource b).hadError) ∧
      (ofSource whole).diagnostics = (ofSource a).diagnostics ++
        (ofSource b).diagnostics.map (Diagnostic.shift bytes lines) := by
  intro bytes lines whole
  obtain ⟨tiles, htiling⟩ := exists_tiling_of_text a.toList
  have ha : (Scanner.ofSource a).items =
      Tile.items 0 1 tiles ++ [.ok (.endOfInput lines a.utf8ByteSize)] := by
    rw [Scanner.ofSource, htiling.items_eq, Nat.zero_add, byteCount_toList]
  have hitems : ∀ error, .error error ∈ (Scanner.ofSource a).items →
      error.cause ≠ .unclosedString :=
    fun error herror => hclosed error (mem_errors_ofItems.2 herror)
  have hlimit : 0 + bytes + byteCount b.toList ≤ Span.limit := by
    rw [byteCount_toList]
    omega
  have htext : whole.toList = a.toList ++ '\n' :: b.toList := by
    simp only [whole, String.toList_append, List.append_assoc]
    rfl
  have hwhole : (Scanner.ofSource whole).items =
      Tile.items 0 1 tiles ++ (Scanner.ofSource b).items.map (Item.shift bytes lines) := by
    rw [Scanner.ofSource, htext, Scanner.items_append_line hitems, byteCount_toList,
      Scanner.items_add hlimit, htiling.items_eq, List.dropLast_concat]
    rfl
  have herrors : (ofSource whole).errors =
      (ofSource a).errors ++ (ofSource b).errors.map (LexError.shift bytes lines) := by
    simp only [ofSource, ha, hwhole, errors_append, errors_map_shift]
    congr 1
    exact (List.append_nil _).symm
  refine ⟨⟨_, ha, hwhole⟩, ?_, ?_, ?_⟩
  · simp only [ofSource, ha, hwhole, tokens_append, tokens_map_shift]
    congr 1
    exact List.dropLast_concat.symm
  · rw [hadError, hadError, hadError, herrors]
    cases (ofSource a).errors with
    | nil => rw [List.nil_append, List.isEmpty_map]; rfl
    | cons => rfl
  · simp only [diagnostics, herrors, List.map_append, List.map_map]
    rfl

/-- A slash at the end of a line and one at the start of the next do not make a comment, and the
line break in the string counts. -/
theorem slashes_divided_by_line_break :
    let a := "\"p\nq\" @ /"
    let b := "/ \"r"
    (∀ error ∈ (ofSource a).errors, error.cause ≠ .unclosedString) ∧
      a.utf8ByteSize + b.utf8ByteSize < Span.limit ∧
      (ofSource (a ++ "\n" ++ b)).tokens =
        (ofSource a).tokens.dropLast ++ (ofSource b).tokens.map (Token.shift 10 2) := by
  intro a b
  have hclosed : ∀ error ∈ (ofSource a).errors, error.cause ≠ .unclosedString := by
    decide +kernel
  have hsize : a.utf8ByteSize + b.utf8ByteSize < Span.limit := by decide +kernel
  have htokens := (ofSource_append_line a b hclosed hsize).2.1
  have hbytes : a.utf8ByteSize + 1 = 10 := by decide +kernel
  have hlines : 1 + a.toList.count '\n' = 2 := by decide +kernel
  rw [hbytes, hlines] at htokens
  exact ⟨hclosed, hsize, htokens⟩

end Scan
end Lox
