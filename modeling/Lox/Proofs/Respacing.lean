import Lox.Proofs.Separation

/-!
# Spacing tokens anew

The lexemes of a scan may be written with any layout between them, as long as a blank follows each
of them: scanning gives the same kinds, lexemes and literals again, and no error. `Yields` says of a
text what is scanned from it, and each way to put a text together has a lemma.
-/

namespace Lox

/-- Blanks and comments up to their line breaks, in any order. -/
inductive Layout : List Char → Prop
  | nil : Layout []
  | blank {c : Char} {r : List Char} (hc : c ∈ blanks) (h : Layout r) : Layout (c :: r)
  | comment {body r : List Char} (hbody : '\n' ∉ body) (h : Layout r) :
      Layout ('/' :: '/' :: body ++ '\n' :: r)

/-- What stands between two tokens: a blank and any layout. -/
def Separator (w : List Char) : Prop :=
  ∃ c r, w = c :: r ∧ c ∈ blanks ∧ Layout r

/-- What stands behind the last token: nothing, or a separator and perhaps a comment that no line
break ends. -/
def Trailer (w : List Char) : Prop :=
  w = [] ∨ ∃ front comment, w = front ++ comment ∧ Separator front ∧
    (comment = [] ∨ ∃ body, '\n' ∉ body ∧ comment = '/' :: '/' :: body)

theorem Separator.blank_of_head? {w : List Char} (hw : Separator w) (r : List Char) :
    ∀ c ∈ (w ++ r).head?, c ∈ blanks := by
  obtain ⟨c, layout, rfl, hc, -⟩ := hw
  simpa using hc

theorem Trailer.blank_of_head? {w : List Char} (hw : Trailer w) :
    ∀ c ∈ w.head?, c ∈ blanks := by
  rcases hw with rfl | ⟨front, comment, rfl, hfront, -⟩
  · simp
  · exact hfront.blank_of_head? comment

/-- The lexemes of the tokens, each with a text behind it. -/
def spell (ts : List Token) (ws : List (List Char)) : List Char :=
  (List.zipWith (fun t w => t.lexeme.toList ++ w) ts ws).flatten

def Yields (r : List Char) (contents : List (Kind × String × Option Literal)) : Prop :=
  ∃ tiles, Tiling r tiles ∧ tiles.filterMap Tile.content? = contents.map .ok

namespace Yields

variable {r w : List Char} {c : Char} {contents : List (Kind × String × Option Literal)}

theorem nil : Yields [] [] :=
  ⟨[], .nil, rfl⟩

theorem layout_tile {text : List Char} (hbegins : Tile.Begins ⟨text, .layout⟩ (text ++ r))
    (h : Yields r contents) : Yields (text ++ r) contents := by
  obtain ⟨tiles, htiling, hcontents⟩ := h
  exact ⟨_, .cons hbegins htiling, hcontents⟩

theorem blank (hc : c ∈ blanks) (h : Yields r contents) : Yields (c :: r) contents := by
  have hbegins : Tile.Begins ⟨[c], .layout⟩ ([c] ++ r) := .blank hc r
  exact layout_tile hbegins h

theorem layout (hw : Layout w) (h : Yields r contents) : Yields (w ++ r) contents := by
  induction hw with
  | nil => exact h
  | blank hc _ ih => exact ih.blank hc
  | @comment body rest hbody _ ih =>
      have hbegins : Tile.Begins ⟨'/' :: '/' :: body, .layout⟩
          ('/' :: '/' :: body ++ '\n' :: (rest ++ r)) :=
        (Tile.Begins.self (.comment hbody)).append_blank (by decide) (.inl rfl) (by simp) _
      rw [List.append_assoc]
      exact layout_tile hbegins (ih.blank (by decide))

theorem separator (hw : Separator w) (h : Yields r contents) : Yields (w ++ r) contents := by
  obtain ⟨c, layout, rfl, hc, hlayout⟩ := hw
  exact (h.layout hlayout).blank hc

theorem comment {body : List Char} (hbody : '\n' ∉ body) : Yields ('/' :: '/' :: body) [] := by
  have hbegins : Tile.Begins ⟨'/' :: '/' :: body, .layout⟩ ('/' :: '/' :: body ++ []) := by
    rw [List.append_nil]
    exact .self (.comment hbody)
  simpa using layout_tile hbegins .nil

theorem token {text : List Char} {kind : Kind} {literal : Option Literal}
    (hclass : Lexical text (.token kind literal)) (hr : ∀ c ∈ r.head?, c ∈ blanks)
    (h : Yields r contents) :
    Yields (text ++ r) ((kind, String.ofList text, literal) :: contents) := by
  have hbegins : Tile.Begins ⟨text, .token kind literal⟩ (text ++ r) := by
    cases r with
    | nil =>
        rw [List.append_nil]
        exact .self hclass
    | cons c r => exact (Tile.Begins.self hclass).append_blank (hr c rfl) (by simp) (by simp) r
  obtain ⟨tiles, htiling, hcontents⟩ := h
  refine ⟨_, .cons hbegins htiling, ?_⟩
  rw [List.map_cons, ← hcontents]
  rfl

theorem trailer (hw : Trailer w) : Yields w [] := by
  rcases hw with rfl | ⟨front, comment, rfl, hfront, rfl | ⟨body, hbody, rfl⟩⟩
  · exact .nil
  · exact nil.separator hfront
  · exact (Yields.comment hbody).separator hfront

theorem spelled {ts : List Token} {seps : List (List Char)} {trail : List Char}
    (hts : ∀ t ∈ ts, Lexical t.lexeme.toList (.token t.kind t.literal))
    (hlength : seps.length + 1 = ts.length) (hseps : ∀ w ∈ seps, Separator w)
    (htrail : Trailer trail) :
    Yields (spell ts (seps ++ [trail])) (ts.map Token.content) := by
  induction ts generalizing seps with
  | nil => cases hlength
  | cons t ts ih =>
      obtain ⟨ht, hts⟩ := List.forall_mem_cons.1 hts
      have hcontent : t.content = (t.kind, String.ofList t.lexeme.toList, t.literal) := by
        rw [String.ofList_toList, Token.content]
      rw [List.map_cons, hcontent]
      cases seps with
      | nil =>
          obtain rfl := List.length_eq_zero_iff.1 (Nat.succ.inj hlength).symm
          have htext : spell [t] ([] ++ [trail]) = t.lexeme.toList ++ trail := by
            simp [spell]
          rw [htext]
          exact token ht htrail.blank_of_head? (.trailer htrail)
      | cons w seps =>
          obtain ⟨hw, hseps⟩ := List.forall_mem_cons.1 hseps
          have hrest := ih hts (Nat.succ.inj hlength) hseps
          have htext : spell (t :: ts) (w :: seps ++ [trail]) =
              t.lexeme.toList ++ (w ++ spell ts (seps ++ [trail])) := by
            simp [spell]
          rw [htext]
          exact token ht (hw.blank_of_head? _) (hrest.separator hw)

end Yields

namespace Scan

theorem ofItems_of_contents {items : List Item}
    {contents : List (Kind × String × Option Literal)}
    (h : items.map Item.content = contents.map .ok) :
    (ofItems items).errors = [] ∧ (ofItems items).tokens.map Token.content = contents := by
  induction items generalizing contents with
  | nil => exact ⟨rfl, (List.map_eq_nil_iff.1 h.symm).symm⟩
  | cons item items ih =>
      obtain ⟨content, contents, rfl⟩ := List.exists_cons_of_ne_nil (l := contents) (by
        rintro rfl
        cases h)
      obtain ⟨hitem, hitems⟩ := List.cons.inj h
      obtain ⟨herrors, htokens⟩ := ih hitems
      cases item with
      | ok t =>
          obtain rfl := Except.ok.inj hitem
          refine ⟨herrors, ?_⟩
          rw [← htokens]
          rfl
      | error => cases hitem

theorem ofSource_of_yields {r : List Char} {contents : List (Kind × String × Option Literal)}
    (h : Yields r contents) :
    (ofSource (String.ofList r)).errors = [] ∧
      (ofSource (String.ofList r)).tokens.map Token.content =
        contents ++ [(.eof, "", none)] := by
  obtain ⟨tiles, htiling, hcontents⟩ := h
  apply ofItems_of_contents
  rw [Scanner.ofSource, String.toList_ofList, htiling.items_eq, List.map_append,
    Tile.map_content_items, hcontents, List.map_append]
  rfl

/-- The tokens of a scan, spaced anew, are scanned into the same kinds, lexemes and literals, and
without an error. -/
theorem ofSource_respaced (source : String) (lead trail : List Char) (seps : List (List Char))
    (hlength : seps.length + 1 = ((ofSource source).tokens.filter (!·.isEnd)).length)
    (hlead : Layout lead) (hseps : ∀ w ∈ seps, Separator w) (htrail : Trailer trail) :
    let ts := (ofSource source).tokens.filter (!·.isEnd)
    let scan := ofSource (String.ofList (lead ++ spell ts (seps ++ [trail])))
    scan.errors = [] ∧
      scan.tokens.map Token.content = ts.map Token.content ++ [(.eof, "", none)] := by
  intro ts
  have hts : ∀ t ∈ ts, Lexical t.lexeme.toList (.token t.kind t.literal) := by
    intro t ht
    obtain ⟨hmem, hkind⟩ := List.mem_filter.1 ht
    refine (lexical_of_mem_tokens hmem).resolve_left fun hend => ?_
    obtain ⟨heof, -⟩ := Prod.mk.inj hend
    simp [Token.isEnd, heof] at hkind
  exact ofSource_of_yields ((Yields.spelled hts hlength hseps htrail).layout hlead)

/-- The tokens of `1. /x` keep apart although a comment follows the slash and one ends the text. -/
theorem number_point_slash_respaced :
    let ts := (ofSource "1. /x").tokens.filter (!·.isEnd)
    let seps := [" ".toList, "\t//=\n".toList, "\n// \" \r\n ".toList]
    let scan := ofSource (String.ofList ("//\n".toList ++ spell ts (seps ++ ["\r//.5".toList])))
    ts.length = 4 ∧ scan.errors = [] ∧
      scan.tokens.map Token.content = ts.map Token.content ++ [(.eof, "", none)] := by
  intro ts seps scan
  have hlength : ts.length = 4 := by decide +kernel
  have hlead : Layout "//\n".toList := @Layout.comment [] [] (by decide) .nil
  have hcomment : Layout "//=\n".toList := @Layout.comment ['='] [] (by decide) .nil
  have hquote : Layout "// \" \r\n ".toList :=
    @Layout.comment [' ', '"', ' ', '\r'] [' '] (by decide) (.blank (by decide) .nil)
  have hseps : ∀ w ∈ seps, Separator w := by
    simp only [seps, List.forall_mem_cons, List.not_mem_nil, false_implies, implies_true, and_true]
    exact ⟨⟨' ', [], rfl, by decide, .nil⟩, ⟨'\t', _, rfl, by decide, hcomment⟩,
      ⟨'\n', _, rfl, by decide, hquote⟩⟩
  have htrail : Trailer "\r//.5".toList :=
    .inr ⟨['\r'], _, rfl, ⟨'\r', [], rfl, by decide, .nil⟩, .inr ⟨['.', '5'], by decide, rfl⟩⟩
  exact ⟨hlength, ofSource_respaced "1. /x" _ _ seps hlength.symm hlead hseps htrail⟩

end Scan
end Lox
