import Lox.Proofs.Tiling

/-!
# What a scan yields, apart from positions

The items of a scan are what the tiles of its source yield. Kind, lexeme and literal of a token
depend on its tile only, not on where the tile stands, and kind and lexeme decide the literal.
-/

namespace Lox

def Token.content (t : Token) : Kind × String × Option Literal :=
  (t.kind, t.lexeme, t.literal)

/-- An item without its line and its bytes. -/
def Item.content : Item → Except LexCause (Kind × String × Option Literal)
  | .ok t => .ok t.content
  | .error e => .error e.cause

namespace Tile

def content? (tile : Tile) : Option (Except LexCause (Kind × String × Option Literal)) :=
  match tile.lexeme with
  | .layout => none
  | .token kind literal => some (.ok (kind, String.ofList tile.text, literal))
  | .refused cause => some (.error cause)

theorem map_content_item? (tile : Tile) (offset line : Nat) :
    (tile.item? offset line).map Item.content = tile.content? := by
  obtain ⟨text, lexeme⟩ := tile
  cases lexeme <;> rfl

theorem map_content_items (tiles : List Tile) (offset line : Nat) :
    (items offset line tiles).map Item.content = tiles.filterMap content? := by
  induction tiles generalizing offset line with
  | nil => rfl
  | cons tile tiles ih =>
      rw [items, List.map_append, ih, ← Option.toList_map, map_content_item?]
      cases hcontent : tile.content? with
      | none => rw [List.filterMap_cons_none hcontent]; rfl
      | some => rw [List.filterMap_cons_some hcontent]; rfl

theorem items_append (tiles tiles' : List Tile) (offset line : Nat) :
    items offset line (tiles ++ tiles') = items offset line tiles ++
      items (offset + byteCount (tiles.map Tile.text).flatten)
        (line + (tiles.map Tile.text).flatten.count '\n') tiles' := by
  induction tiles generalizing offset line with
  | nil => rfl
  | cons tile tiles ih =>
      rw [List.cons_append, items, items, ih, List.map_cons, List.flatten_cons, byteCount_append,
        List.count_append, List.append_assoc, Nat.add_assoc, Nat.add_assoc]

end Tile

/-- The items from where a scanner stands are what the tiles of the rest of its source yield. -/
theorem Scanner.items_eq_of_tiling {s : Scanner} {tiles : List Tile} (h : Tiling s.rest tiles) :
    s.items = Tile.items s.offset s.line tiles ++
      [.ok (.endOfInput (s.line + s.rest.count '\n') (s.offset + byteCount s.rest))] := by
  induction s using Scanner.items.induct generalizing tiles with
  | case1 s hstep =>
      have hrest := step_eq_none_iff.1 hstep
      rw [hrest] at h
      rw [items_of_step_eq_none hstep, h.unique .nil, hrest]
      rfl
  | case2 s item after hstep ih =>
      obtain ⟨tile, hbegins, hrest, rfl, hoffset, hline⟩ := exists_tile_of_step hstep
      obtain ⟨tiles', -, htiling', -⟩ := exists_tiling after
      rw [hrest] at hbegins h
      rw [h.unique (.cons hbegins htiling'), items_of_step hstep, ih htiling', hoffset, hline,
        hrest, List.count_append, byteCount_append, Tile.items, List.append_assoc, Nat.add_assoc,
        Nat.add_assoc]

theorem exists_tiling_of_text (r : List Char) : ∃ tiles, Tiling r tiles := by
  obtain ⟨tiles, -, htiling, -⟩ := Scanner.exists_tiling ⟨r, 0, 1⟩
  exact ⟨tiles, htiling⟩

theorem Tiling.items_eq {r : List Char} {tiles : List Tile} (h : Tiling r tiles)
    (offset line : Nat) :
    (Scanner.mk r offset line).items = Tile.items offset line tiles ++
      [.ok (.endOfInput (line + r.count '\n') (offset + byteCount r))] :=
  Scanner.items_eq_of_tiling h

theorem Lexical.kind_ne_eof {text : List Char} {kind : Kind} {literal : Option Literal}
    (h : Lexical text (.token kind literal)) : kind ≠ .eof := by
  cases h <;> simp

theorem Tile.Begins.lexical {tile : Tile} {r : List Char} (h : tile.Begins r) {kind : Kind}
    {literal : Option Literal} (hlexeme : tile.lexeme = .token kind literal) :
    Lexical tile.text (.token kind literal) := by
  cases h with
  | longest _ hclass => rwa [← hlexeme]
  | unclosed | unrecognized => cases hlexeme

theorem Tiling.exists_begins {r : List Char} {tiles : List Tile} (h : Tiling r tiles) {tile : Tile}
    (htile : tile ∈ tiles) : ∃ r', tile.Begins r' := by
  induction h with
  | nil => cases htile
  | cons hbegins _ ih =>
      rcases List.mem_cons.1 htile with rfl | htile
      · exact ⟨_, hbegins⟩
      · exact ih htile

namespace Scanner

variable {s after : Scanner}

theorem isEnd_of_step {item : Item} (h : s.step = some (some item, after)) :
    Item.isEnd item = false := by
  obtain ⟨tile, hbegins, -, hitem, -⟩ := exists_tile_of_step h
  cases item with
  | error => rfl
  | ok t =>
      have hkind := hbegins.kind_ne_eof (Tile.lexeme_of_item?_eq_ok hitem.symm)
      simpa [Item.isEnd, Token.isEnd] using hkind

theorem items_of_isEnd_next (h : Item.isEnd s.next.1 = true) : s.items = [s.next.1] := by
  fun_induction next s with
  | case1 s hstep => exact items_of_step_eq_none hstep
  | case2 s item after hstep => simp [isEnd_of_step hstep] at h
  | case3 s after hstep ih => rw [items_of_step hstep, ih h]; rfl

/-- Calling `next` up to the end of input goes through the items of the scanner. -/
theorem fold_eq_foldl {σ : Type} (f : σ → Item → σ) (state : σ) (s : Scanner) :
    s.fold f state = s.items.foldl f state := by
  induction state, s using fold.induct (f := f) with
  | case1 state s item after hnext hend =>
      have hlast : Item.isEnd s.next.1 = true := by rwa [hnext]
      rw [fold_of_end hlast, items_of_isEnd_next hlast]
      rfl
  | case2 state s item after hnext hend ih =>
      have hmore : Item.isEnd s.next.1 = false := by simpa [hnext] using hend
      have hitems : s.items = s.next.1 :: s.next.2.items := by
        refine s.items_eq_next.resolve_left fun hlast => ?_
        rw [hlast.2.1] at hmore
        cases hmore
      rw [fold_of_item hmore, hitems, List.foldl_cons, hnext, ih]

end Scanner

namespace Scan

variable {source : String} {t : Token} {items : List Item}

theorem token?_eq_some {item : Item} : token? item = some t ↔ item = .ok t := by
  cases item <;> simp [token?]

theorem error?_eq_some {item : Item} {error : LexError} :
    error? item = some error ↔ item = .error error := by
  cases item <;> simp [error?]

theorem mem_tokens_ofItems : t ∈ (ofItems items).tokens ↔ .ok t ∈ items := by
  simp [ofItems, token?_eq_some]

theorem mem_errors_ofItems {error : LexError} :
    error ∈ (ofItems items).errors ↔ .error error ∈ items := by
  simp [ofItems, error?_eq_some]

/-- A token is the end of input, or its lexeme is of the class that yields its kind and literal. -/
theorem lexical_of_mem_tokens (ht : t ∈ (ofSource source).tokens) :
    t.content = (.eof, "", none) ∨ Lexical t.lexeme.toList (.token t.kind t.literal) := by
  obtain ⟨tiles, htiling⟩ := exists_tiling_of_text source.toList
  have hitem := mem_tokens_ofItems.1 ht
  rw [Scanner.ofSource, htiling.items_eq] at hitem
  rcases List.mem_append.1 hitem with hitem | hend
  · right
    have hcontent := List.mem_map_of_mem (f := Item.content) hitem
    rw [Tile.map_content_items] at hcontent
    obtain ⟨tile, htile, hyields⟩ := List.mem_filterMap.1 hcontent
    obtain ⟨r, hbegins⟩ := htiling.exists_begins htile
    unfold Tile.content? at hyields
    split at hyields
    · cases hyields
    · next kind literal hlexeme =>
      have hclass := hbegins.lexical hlexeme
      obtain ⟨rfl, hlexeme', rfl⟩ : kind = t.kind ∧ String.ofList tile.text = t.lexeme ∧
          literal = t.literal := by simpa [Item.content, Token.content] using hyields
      rwa [← hlexeme', String.toList_ofList]
    · cases hyields
  · left
    simp only [List.mem_singleton, Except.ok.injEq] at hend
    rw [hend]
    rfl

/-- Kind and lexeme decide the literal, in whatever sources they stand. -/
theorem literal_eq_of_mem_tokens {source' : String} {u : Token}
    (ht : t ∈ (ofSource source).tokens) (hu : u ∈ (ofSource source').tokens)
    (hkind : t.kind = u.kind) (hlexeme : t.lexeme = u.lexeme) : t.literal = u.literal := by
  rcases lexical_of_mem_tokens ht with hend | hclass <;>
    rcases lexical_of_mem_tokens hu with hend' | hclass'
  · exact (congrArg (·.2.2) hend).trans (congrArg (·.2.2) hend').symm
  · exact absurd (hkind.symm.trans (congrArg (·.1) hend)) hclass'.kind_ne_eof
  · exact absurd (hkind.trans (congrArg (·.1) hend')) hclass.kind_ne_eof
  · rw [← hlexeme] at hclass'
    exact (Lexeme.token.inj (hclass.unique hclass')).2

end Scan
end Lox
