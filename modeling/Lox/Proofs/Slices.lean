import Mathlib.Data.List.TakeWhile
import Lox.Proofs.ByteScanner
import Lox.Proofs.Places

/-!
# Every slice runs between characters

A byte scanner that stands behind a part of its source does what the scanner of `Lox.Token.Scan`
does there: it gives the same items and stands behind the same text afterwards. On the way every cut
runs between boundaries of characters, no move passes the end, no line is beyond 32 bits, and what
is read as a number is a numeral. `Step.Gives` says all of this of one step; sequencing and loops
are opened once, and each step follows from those it is made of.
-/

namespace Lox

/-- One digit or more and nothing else. -/
def Digits (text : List Char) : Prop :=
  text ≠ [] ∧ ∀ c ∈ text, c.isDigit

/-- Digits, or digits on both sides of a point. -/
def Numeral (text : List Char) : Prop :=
  Digits text ∨
    ∃ whole fraction, Digits whole ∧ Digits fraction ∧ text = whole ++ '.' :: fraction

namespace ByteScanner

/-- What is cut lies between two boundaries, a move ends at one, a line is still counted with 32
bits, and a numeral is read. -/
def Act.Allowed (s : ByteScanner) : Act → Prop
  | cut part => part.first s ≤ part.last s ∧ Boundary s.source (part.first s) ∧
      Boundary s.source (part.last s)
  | move width => Boundary s.source (s.current + width)
  | countLine => s.line + 1 < UInt32.size
  | readNumber text => Numeral text.toList

/-- Whatever is done, the scanner holds this source, and the piece it reads lies in it between two
boundaries. -/
structure Event.Safe (source : String) (event : Event) : Prop where
  held : event.scanner.source = source
  ordered : event.scanner.start ≤ event.scanner.current
  inside : event.scanner.current ≤ source.utf8ByteSize
  start : Boundary source event.scanner.start
  current : Boundary source event.scanner.current
  allowed : event.act.Allowed event.scanner

end ByteScanner

section

variable {source : String} {front text rest : List Char}

theorem boundary_of_split (h : source.toList = front ++ rest) :
    Boundary source (byteCount front) := by
  rw [Boundary, String.Pos.Raw.isValid_iff_exists_append]
  refine ⟨String.ofList front, String.ofList rest, ?_, ?_⟩
  · rw [← String.ofList_append, ← h, String.ofList_toList]
  · ext
    rw [String.byteIdx_rawEndPos, ← byteCount_toList, String.toList_ofList]

theorem boundary_add_of_split (h : source.toList = front ++ (text ++ rest)) :
    Boundary source (byteCount front + byteCount text) := by
  rw [← byteCount_append]
  exact boundary_of_split (h.trans (List.append_assoc ..).symm)

theorem slice?_of_split (h : source.toList = front ++ (text ++ rest)) :
    slice? source (byteCount front) (byteCount front + byteCount text) =
      some (String.ofList text) := by
  rw [slice?, dif_pos ⟨Nat.le_add_right .., boundary_of_split h, boundary_add_of_split h⟩,
    Option.some.injEq, ← String.toByteArray_inj, String.toByteArray_extract]
  exact extract_of_split h

end

theorem Numeral.not_mem_break {text : List Char} (h : Numeral text) : '\n' ∉ text := by
  have hdigits {digits : List Char} (h : Digits digits) : '\n' ∉ digits :=
    fun hmem => absurd (h.2 _ hmem) (by decide)
  rcases h with hwhole | ⟨whole, fraction, hwhole, hfraction, rfl⟩
  · exact hdigits hwhole
  · simp [hdigits hwhole, hdigits hfraction]

namespace Decimal

variable {whole fraction : List Char}

theorem ofText?_digits (h : Digits whole) : ofText? whole = some (ofDigits whole []) := by
  simp [ofText?, List.takeWhile_eq_self_iff.2 h.2, List.dropWhile_eq_nil_iff.2 h.2, h.1]

theorem ofText?_pointed (h : Digits whole) (h' : Digits fraction) :
    ofText? (whole ++ '.' :: fraction) = some (ofDigits whole fraction) := by
  have htake : (whole ++ '.' :: fraction).takeWhile Char.isDigit = whole := by
    rw [List.takeWhile_append_of_pos h.2, List.takeWhile_cons_of_neg (by decide), List.append_nil]
  have hdrop : (whole ++ '.' :: fraction).dropWhile Char.isDigit = '.' :: fraction := by
    rw [List.dropWhile_append_of_pos h.2, List.dropWhile_cons_of_neg (by decide)]
  have hall : fraction.all Char.isDigit = true := List.all_eq_true.2 h'.2
  simp [ofText?, htake, hdrop, h.1, h'.1, hall]

end Decimal

/-- A text in the class of numbers is a numeral, and reading it gives the number it stands for. -/
theorem Lexical.numeral {text : List Char} {x : Float}
    (h : Lexical text (.token .number (some (.number x)))) :
    Numeral text ∧ (Decimal.ofText? text).map Decimal.toFloat = some x := by
  cases h with
  | integer hne hdigits =>
      refine ⟨.inl ⟨hne, hdigits⟩, ?_⟩
      rw [Decimal.ofText?_digits ⟨hne, hdigits⟩]
      rfl
  | decimal hne hdigits hne' hdecimals =>
      refine ⟨.inr ⟨_, _, ⟨hne, hdigits⟩, ⟨hne', hdecimals⟩, rfl⟩, ?_⟩
      rw [Decimal.ofText?_pointed ⟨hne, hdigits⟩ ⟨hne', hdecimals⟩]
      rfl

namespace ByteScanner

/-- The scanner that has read this text behind the front of its source. -/
def behind (source : String) (front text : List Char) (line : Nat) : ByteScanner :=
  ⟨source, byteCount front, byteCount front + byteCount text, line⟩

namespace Step

variable {α β σ : Type} {source : String}

/-- From here the step gives this and ends there, and all it does on the way is safe. -/
structure Gives (source : String) (step : Step α) (s : ByteScanner) (a : α)
    (after : ByteScanner) : Prop where
  outcome : (step.run s).outcome = some (a, after)
  safe : ∀ event ∈ (step.run s).events, event.Safe source

section

variable {s after final : ByteScanner}

theorem gives_pure {a b : α} (h : a = b) : Gives source (pure a) s b s := by
  subst h
  exact ⟨rfl, fun _ h => absurd h List.not_mem_nil⟩

theorem Gives.bind {first : Step α} {next : α → Step β} {a : α} {b : β}
    (h : Gives source first s a after) (hnext : Gives source (next a) after b final) :
    Gives source (first >>= next) s b final := by
  refine ⟨outcome_bind_eq_some.2 ⟨a, after, h.outcome, hnext.outcome⟩, ?_⟩
  have hevents : ((first >>= next).run s).events =
      (first.run s).events ++ ((next a).run after).events := by
    simp only [Bind.bind, h.outcome, Recorded.following]
  rw [hevents]
  intro event hevent
  rcases List.mem_append.1 hevent with hevent | hevent
  · exact h.safe event hevent
  · exact hnext.safe event hevent

theorem Gives.loop_end {turn : Turn σ α} {state : σ} {a : α}
    (h : Gives source (turn.step state) s (.inr a) after) :
    Gives source (loop turn state) s a after := by
  rw [loop_eq]
  exact h.bind (gives_pure rfl)

theorem Gives.loop_more {turn : Turn σ α} {state state' : σ} {a : α}
    (h : Gives source (turn.step state) s (.inl state') after)
    (hmore : Gives source (loop turn state') after a final) :
    Gives source (loop turn state) s a final := by
  rw [loop_eq]
  exact h.bind hmore

theorem gives_scanner : Gives source scanner s s s :=
  ⟨rfl, fun _ h => absurd h List.not_mem_nil⟩

end

section

variable {front text rest : List Char} {line : Nat}

theorem gives_note (h : source.toList = front ++ (text ++ rest)) {act : Act}
    {outcome : ByteScanner → Option (α × ByteScanner)}
    {hleads : ∀ s a after, outcome s = some (a, after) → s.Leads after} {a : α}
    {after : ByteScanner} (hact : act.Allowed (behind source front text line))
    (houtcome : outcome (behind source front text line) = some (a, after)) :
    Gives source (note act outcome hleads) (behind source front text line) a after := by
  refine ⟨houtcome, fun event hevent => ?_⟩
  obtain rfl := List.mem_singleton.1 hevent
  have hsize := size_of_split h
  have hinside : (behind source front text line).current ≤ source.utf8ByteSize := by
    simp only [behind]
    omega
  exact ⟨rfl, Nat.le_add_right .., hinside, boundary_of_split h, boundary_add_of_split h, hact⟩

theorem gives_ask (h : source.toList = front ++ (text ++ rest)) {act : Act}
    {answer : ByteScanner → Option α} {a : α}
    (hact : act.Allowed (behind source front text line))
    (hanswer : answer (behind source front text line) = some a) :
    Gives source (ask act answer) (behind source front text line) a
      (behind source front text line) :=
  gives_note h hact (congrArg (Option.map _) hanswer)

/-- A part is cut at the text it holds. -/
theorem gives_cut (h : source.toList = front ++ (text ++ rest)) {part : Part}
    {front' text' rest' : List Char} (h' : source.toList = front' ++ (text' ++ rest'))
    (hfirst : part.first (behind source front text line) = byteCount front')
    (hlast : part.last (behind source front text line) = byteCount front' + byteCount text') :
    Gives source (cut part) (behind source front text line) (String.ofList text')
      (behind source front text line) := by
  refine gives_ask h ?_ ?_
  · rw [Act.Allowed, hfirst, hlast]
    exact ⟨Nat.le_add_right .., boundary_of_split h', boundary_add_of_split h'⟩
  · rw [hfirst, hlast]
    exact slice?_of_split h'

theorem gives_cut_rest (h : source.toList = front ++ (text ++ rest)) :
    Gives source (cut .rest) (behind source front text line) (String.ofList rest)
      (behind source front text line) := by
  have h' : source.toList = front ++ text ++ (rest ++ []) := by
    rw [h, List.append_nil, List.append_assoc]
  refine gives_cut h h' (byteCount_append ..).symm ?_
  exact (size_of_split h').symm

theorem gives_cut_lexeme (h : source.toList = front ++ (text ++ rest)) :
    Gives source (cut .lexeme) (behind source front text line) (String.ofList text)
      (behind source front text line) :=
  gives_cut h h rfl rfl

theorem gives_cut_contents {body : List Char}
    (h : source.toList = front ++ ('"' :: (body ++ ['"']) ++ rest)) :
    Gives source (cut .contents) (behind source front ('"' :: (body ++ ['"'])) line)
      (String.ofList body) (behind source front ('"' :: (body ++ ['"'])) line) := by
  have h' : source.toList = front ++ ['"'] ++ (body ++ '"' :: rest) := by simp [h]
  have hquote : byteCount ['"'] = 1 := by decide
  refine gives_cut h h' ?_ ?_
  · rw [byteCount_append, hquote]
    rfl
  · simp only [Part.last, behind, byteCount_cons, byteCount_append, hquote]
    have hsize : ('"').utf8Size = 1 := by decide
    omega

theorem gives_look (h : source.toList = front ++ (text ++ rest)) :
    Gives source look (behind source front text line) rest.head?
      (behind source front text line) :=
  (gives_cut_rest h).bind (gives_pure (by rw [String.toList_ofList]))

theorem gives_lookNext (h : source.toList = front ++ (text ++ rest)) :
    Gives source lookNext (behind source front text line) rest[1]?
      (behind source front text line) :=
  (gives_cut_rest h).bind (gives_pure (by rw [String.toList_ofList]))

theorem gives_begin :
    Gives source begin (behind source front text line) ()
      (behind source (front ++ text) [] line) := by
  refine ⟨?_, fun _ h => absurd h List.not_mem_nil⟩
  simp only [begin, behind, byteCount_append]
  rfl

theorem gives_countLine (h : source.toList = front ++ (text ++ rest))
    (hline : line + 1 < UInt32.size) :
    Gives source countLine (behind source front text line) ()
      (behind source front text (line + 1)) :=
  gives_note h hline (if_pos (Nat.lt_sub_of_add_lt hline))

theorem gives_readNumber (h : source.toList = front ++ (text ++ rest)) {x : Float}
    (hx : Lexical text (.token .number (some (.number x)))) :
    Gives source (readNumber (String.ofList text)) (behind source front text line) x
      (behind source front text line) := by
  obtain ⟨hnumeral, hvalue⟩ := hx.numeral
  refine gives_ask h ?_ ?_
  · rwa [Act.Allowed, String.toList_ofList]
  · rwa [String.toList_ofList]

theorem gives_advance_nil (h : source.toList = front ++ (text ++ [])) :
    Gives source advance (behind source front text line) none (behind source front text line) :=
  (gives_look h).bind (gives_pure rfl)

variable {c : Char}

theorem split_snoc (h : source.toList = front ++ (text ++ c :: rest)) :
    source.toList = front ++ (text ++ [c] ++ rest) := by
  simp [h]

theorem gives_move (h : source.toList = front ++ (text ++ c :: rest)) :
    Gives source (move c.utf8Size) (behind source front text line) ()
      (behind source front (text ++ [c]) line) := by
  have hwidth : byteCount front + byteCount text + c.utf8Size =
      byteCount front + byteCount (text ++ [c]) := by
    rw [byteCount_append, ← Nat.add_assoc]
    rfl
  refine gives_note h ?_ ?_
  · change Boundary source (byteCount front + byteCount text + c.utf8Size)
    rw [hwidth]
    exact boundary_add_of_split (split_snoc h)
  · simp only [behind, hwidth]

theorem gives_advance (h : source.toList = front ++ (text ++ c :: rest)) :
    Gives source advance (behind source front text line) (some c)
      (behind source front (text ++ [c]) line) :=
  (gives_look h).bind ((gives_move h).bind (gives_pure rfl))

theorem gives_eat (h : source.toList = front ++ (text ++ c :: rest)) :
    Gives source (eat c) (behind source front text line) true
      (behind source front (text ++ [c]) line) := by
  refine (gives_look h).bind ?_
  rw [if_pos List.head?_cons]
  exact (gives_move h).bind (gives_pure rfl)

theorem gives_eat_false (h : source.toList = front ++ (text ++ rest))
    (hother : ∀ more, rest ≠ c :: more) :
    Gives source (eat c) (behind source front text line) false
      (behind source front text line) := by
  have hhead : rest.head? ≠ some c := by
    intro hhead
    obtain ⟨more, hmore⟩ := List.head?_eq_some_iff.1 hhead
    exact hother more hmore
  refine (gives_look h).bind ?_
  rw [if_neg hhead]
  exact gives_pure rfl

theorem gives_skipWhile (wanted : Char → Bool) (h : source.toList = front ++ (text ++ rest)) :
    Gives source (skipWhile wanted) (behind source front text line) ()
      (behind source front (text ++ rest.takeWhile wanted) line) := by
  induction rest generalizing text with
  | nil =>
      rw [List.takeWhile_nil, List.append_nil]
      exact Gives.loop_end ((gives_look h).bind (gives_pure rfl))
  | cons c rest ih =>
      by_cases hc : wanted c = true
      · have hturn : Gives source ((skipTurn wanted).step ()) (behind source front text line)
            (.inl ()) (behind source front (text ++ [c]) line) := by
          refine (gives_look h).bind ?_
          rw [List.head?_cons, Option.any_some, if_pos hc]
          exact (gives_advance h).bind (gives_pure rfl)
        have hmore := ih (split_snoc h)
        rw [List.append_assoc, List.singleton_append] at hmore
        rw [List.takeWhile_cons_of_pos hc]
        exact hturn.loop_more hmore
      · rw [List.takeWhile_cons_of_neg hc, List.append_nil]
        refine Gives.loop_end ((gives_look h).bind ?_)
        rw [List.head?_cons, Option.any_some, if_neg hc]
        exact gives_pure rfl

theorem gives_countBreak (h : source.toList = front ++ (text ++ rest))
    (hline : line + [c].count '\n' < UInt32.size) :
    Gives source (countBreak c) (behind source front text line) ()
      (behind source front text (line + [c].count '\n')) := by
  unfold countBreak
  by_cases hc : c = '\n'
  · subst hc
    exact gives_countLine h hline
  · have hnone : [c].count '\n' = 0 :=
      List.count_eq_zero_of_not_mem fun hmem => hc (List.mem_singleton.1 hmem).symm
    rw [if_neg hc, hnone]
    exact gives_pure rfl

/-- The body of a string is read up to the next quote, and the line breaks in it are counted. -/
theorem gives_skipBody (h : source.toList = front ++ (text ++ rest))
    (hline : line + rest.count '\n' < UInt32.size) :
    Gives source skipBody (behind source front text line) ()
      (behind source front (text ++ rest.takeWhile (· != '"'))
        (line + (rest.takeWhile (· != '"')).count '\n')) := by
  induction rest generalizing text line with
  | nil =>
      rw [List.takeWhile_nil, List.append_nil]
      exact Gives.loop_end ((gives_look h).bind (gives_pure rfl))
  | cons c rest ih =>
      by_cases hc : c = '"'
      · subst hc
        rw [List.takeWhile_cons_of_neg (by decide), List.append_nil]
        exact Gives.loop_end ((gives_look h).bind (gives_pure rfl))
      · rw [← List.singleton_append, List.count_append, ← Nat.add_assoc] at hline
        have hturn : Gives source (bodyTurn.step ()) (behind source front text line) (.inl ())
            (behind source front (text ++ [c]) (line + [c].count '\n')) := by
          refine (gives_look h).bind ?_
          simp only [List.head?_cons, if_neg hc]
          refine (gives_countBreak h (Nat.lt_of_le_of_lt (Nat.le_add_right ..) hline)).bind ?_
          exact (gives_advance h).bind (gives_pure rfl)
        have hmore := ih (split_snoc h) hline
        rw [List.append_assoc, List.singleton_append, Nat.add_assoc, ← List.count_append,
          List.singleton_append] at hmore
        rw [List.takeWhile_cons_of_pos (by simpa using hc)]
        exact hturn.loop_more hmore

end
end Step
end ByteScanner
end Lox
