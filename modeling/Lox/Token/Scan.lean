import Lox.Token.Lexeme

/-!
# Scanning

A scanner stands somewhere in a source and knows how many bytes and lines lie behind it. `next`
gives the token or error that comes next, `items` all of them up to and including the end of
input. The line of an item is the one its last character is on.
-/

namespace Lox

def byteCount (text : List Char) : Nat :=
  text.foldr (fun c n => c.utf8Size + n) 0

abbrev Item := Except LexError Token

def Item.isEnd : Item → Bool
  | .ok t => t.isEnd
  | .error _ => false

structure Scanner where
  rest : List Char
  offset : Nat
  line : Nat
deriving Inhabited

namespace Scanner

def ofSource (source : String) : Scanner :=
  ⟨source.toList, 0, 1⟩

/-- The scanner behind a text read from here. -/
def skip (s : Scanner) (text rest : List Char) : Scanner where
  rest := rest
  offset := s.offset + byteCount text
  line := s.line + text.count '\n'

/-- What a lexeme with this text yields between the scanners in front of it and behind it. -/
def item? (before after : Scanner) (text : List Char) : Lexeme → Option Item
  | .layout => none
  | .token kind literal => some (.ok
      { kind, lexeme := String.ofList text, literal, line := after.line,
        span := .between before.offset after.offset })
  | .refused cause => some (.error
      { cause, line := after.line, span := .between before.offset after.offset })

def finish (s : Scanner) : Token :=
  .endOfInput s.line s.offset

/-- Reads one piece: what it yields and the scanner behind it, or nothing at the end. -/
def step (s : Scanner) : Option (Option Item × Scanner) :=
  match s.rest with
  | [] => none
  | c :: cs =>
    let piece := Piece.first c cs
    let text := c :: cs.take piece.more
    let after := s.skip text (cs.drop piece.more)
    some (s.item? after text piece.lexeme, after)

theorem rest_length_lt_of_step {s after : Scanner} {item : Option Item}
    (h : s.step = some (item, after)) : after.rest.length < s.rest.length := by
  unfold step at h
  split at h
  · contradiction
  · next c cs hrest =>
    obtain ⟨-, rfl⟩ := Prod.mk.inj (Option.some.inj h)
    simp only [skip, List.length_drop, hrest, List.length_cons]
    omega

/-- The next token or error. At the end it is the end of input, however often it is asked for. -/
def next (s : Scanner) : Item × Scanner :=
  match _h : s.step with
  | none => (.ok s.finish, s)
  | some (some item, after) => (item, after)
  | some (none, after) => after.next
termination_by s.rest.length
decreasing_by exact rest_length_lt_of_step _h

def items (s : Scanner) : List Item :=
  match _h : s.step with
  | none => [.ok s.finish]
  | some (item, after) => item.toList ++ after.items
termination_by s.rest.length
decreasing_by exact rest_length_lt_of_step _h

section

variable {s after : Scanner}

theorem step_eq_none_iff : s.step = none ↔ s.rest = [] := by
  unfold step
  split <;> simp_all

theorem next_of_step_eq_none (h : s.step = none) : s.next = (.ok s.finish, s) := by
  rw [next]
  split <;> simp_all

theorem next_of_item {item : Item} (h : s.step = some (some item, after)) :
    s.next = (item, after) := by
  rw [next]
  split <;> simp_all

theorem next_of_layout (h : s.step = some (none, after)) : s.next = after.next := by
  rw [next]
  split <;> simp_all

theorem items_of_step_eq_none (h : s.step = none) : s.items = [.ok s.finish] := by
  rw [items]
  split <;> simp_all

theorem items_of_step {item : Option Item} (h : s.step = some (item, after)) :
    s.items = item.toList ++ after.items := by
  rw [items]
  split <;> simp_all

/-- The items are those of one call of `next` after the other, up to the end of input. -/
theorem items_eq_next (s : Scanner) :
    s.next.2.rest = [] ∧ s.next.1 = .ok s.next.2.finish ∧ s.items = [s.next.1] ∨
      s.items = s.next.1 :: s.next.2.items := by
  fun_induction next s with
  | case1 s h => exact .inl ⟨step_eq_none_iff.1 h, rfl, items_of_step_eq_none h⟩
  | case2 s item after h => exact .inr (items_of_step h)
  | case3 s after h ih => simpa only [items_of_step h, Option.toList_none, List.nil_append] using ih

end

theorem rest_length_lt_of_next {s : Scanner} (h : Item.isEnd s.next.1 = false) :
    s.next.2.rest.length < s.rest.length := by
  fun_induction next s with
  | case1 s hstep => simp [Item.isEnd, finish] at h
  | case2 s item after hstep => exact rest_length_lt_of_step hstep
  | case3 s after hstep ih => exact Nat.lt_trans (ih h) (rest_length_lt_of_step hstep)

/-- Calls `next` up to the end of input and hands each item to `f` as it comes. -/
def fold {σ : Type} (f : σ → Item → σ) (state : σ) (s : Scanner) : σ :=
  match _h : s.next with
  | (item, after) =>
    if _hend : Item.isEnd item then f state item else after.fold f (f state item)
termination_by s.rest.length
decreasing_by
  have hlt := rest_length_lt_of_next (s := s) (by simpa [_h] using _hend)
  rwa [_h] at hlt

section

variable {s : Scanner} {σ : Type}

theorem fold_of_end (h : Item.isEnd s.next.1 = true) (f : σ → Item → σ) (state : σ) :
    s.fold f state = f state s.next.1 := by
  rw [fold]
  split
  next item after hnext => rw [hnext] at h ⊢; exact dif_pos h

theorem fold_of_item (h : Item.isEnd s.next.1 = false) (f : σ → Item → σ) (state : σ) :
    s.fold f state = s.next.2.fold f (f state s.next.1) := by
  rw [fold]
  split
  next item after hnext => rw [hnext] at h ⊢; exact dif_neg (by simpa using h)

end

/-- The items of `count` calls of `next`, and the scanner behind them. -/
def take (s : Scanner) : Nat → List Item × Scanner
  | 0 => ([], s)
  | count + 1 =>
    let (item, after) := s.next
    let (items, final) := after.take count
    (item :: items, final)

end Scanner

structure Scan where
  tokens : List Token
  errors : List LexError
deriving Inhabited

namespace Scan

def token? : Item → Option Token
  | .ok t => some t
  | .error _ => none

def error? : Item → Option LexError
  | .ok _ => none
  | .error e => some e

def ofItems (items : List Item) : Scan where
  tokens := items.filterMap token?
  errors := items.filterMap error?

def ofSource (source : String) : Scan :=
  ofItems (Scanner.ofSource source).items

def hadError (s : Scan) : Bool :=
  !s.errors.isEmpty

end Scan
end Lox
