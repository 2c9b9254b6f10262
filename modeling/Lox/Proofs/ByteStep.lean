import Lox.Decimal.Basic

/-!
# Steps of a scanner over bytes

A byte scanner holds the whole source and two positions in it: the first byte of the piece it reads
and the next byte to read. All it sees of the source it cuts out of it by positions. A cut that does
not run between two boundaries of characters has no outcome, nor has a line that 32 bits cannot
count, nor a text that is read as a number and is none. Beside its outcome every step has a record
of the cuts, the moves, the lines counted and the numbers read, each with the scanner as it stood
then.

A step carries the proof that it stays in its source and does not go back, and a loop the proof that
each of its turns reads something.
-/

namespace Lox

/-- The decimal that a text writes with digits only, or with a point between digits. -/
def Decimal.ofText? (text : List Char) : Option Decimal :=
  let whole := text.takeWhile Char.isDigit
  if whole.isEmpty then none
  else
    match text.dropWhile Char.isDigit with
    | [] => some (ofDigits whole [])
    | '.' :: fraction =>
      if fraction.isEmpty || !fraction.all Char.isDigit then none
      else some (ofDigits whole fraction)
    | _ => none

/-- A position at an end of the source or between two of its characters. -/
abbrev Boundary (source : String) (position : Nat) : Prop :=
  String.Pos.Raw.IsValid source ⟨position⟩

/-- The text from one position up to another one that is not in front of it. -/
def slice? (source : String) (first last : Nat) : Option String :=
  if h : first ≤ last ∧ Boundary source first ∧ Boundary source last then
    some (String.extract (source.pos ⟨first⟩ h.2.1) (source.pos ⟨last⟩ h.2.2))
  else none

theorem lt_of_slice? {source text : String} {first last : Nat}
    (h : slice? source first last = some text) (hne : text.toList ≠ []) : first < last := by
  unfold slice? at h
  split at h
  · next hbounds =>
    refine Nat.lt_of_le_of_ne hbounds.1 ?_
    rintro rfl
    apply hne
    rw [← Option.some.inj h, String.extract_eq_copy_slice _ _ (String.Pos.le_refl _)]
    simp
  · cases h

structure ByteScanner where
  source : String
  -- the first byte of the piece that is read
  start : Nat
  -- the next byte to read
  current : Nat
  line : Nat

namespace ByteScanner

def ofSource (source : String) : ByteScanner :=
  ⟨source, 0, 0, 1⟩

/-- The second scanner stands in the same source, and not in front of the first. -/
structure Leads (s after : ByteScanner) : Prop where
  source : after.source = s.source
  current : s.current ≤ after.current

/-- There was something left to read, and some of it is read. -/
structure Progress (s after : ByteScanner) : Prop where
  source : after.source = s.source
  inside : s.current < s.source.utf8ByteSize
  current : s.current < after.current

section

variable {s after final : ByteScanner}

theorem Leads.refl (s : ByteScanner) : s.Leads s :=
  ⟨rfl, Nat.le_refl _⟩

theorem Leads.trans (h : s.Leads after) (h' : after.Leads final) : s.Leads final :=
  ⟨h'.source.trans h.source, Nat.le_trans h.current h'.current⟩

theorem Progress.leads (h : s.Progress after) : s.Leads after :=
  ⟨h.source, Nat.le_of_lt h.current⟩

theorem Progress.trans_leads (h : s.Progress after) (h' : after.Leads final) : s.Progress final :=
  ⟨h'.source.trans h.source, h.inside, Nat.lt_of_lt_of_le h.current h'.current⟩

end

/-- What is cut out of a source: all that is not read yet, the piece that is read, or the piece
without its first and last byte. -/
inductive Part where
  | rest | lexeme | contents
deriving DecidableEq

namespace Part

def first (s : ByteScanner) : Part → Nat
  | rest => s.current
  | lexeme => s.start
  | contents => s.start + 1

def last (s : ByteScanner) : Part → Nat
  | rest => s.source.utf8ByteSize
  | lexeme => s.current
  | contents => s.current - 1

end Part

inductive Act where
  | cut (part : Part)
  | move (width : Nat)
  | countLine
  | readNumber (text : String)
deriving DecidableEq

structure Event where
  act : Act
  scanner : ByteScanner

structure Recorded (α : Type) where
  outcome : Option α
  events : List Event

def Recorded.following {α : Type} (more : Recorded α) (events : List Event) : Recorded α :=
  ⟨more.outcome, events ++ more.events⟩

/-- What a scanner gives, with the scanner behind it. -/
@[ext] structure Step (α : Type) where
  run : ByteScanner → Recorded (α × ByteScanner)
  leads : ∀ {s a after}, (run s).outcome = some (a, after) → s.Leads after

namespace Step

variable {α β σ : Type}

instance : Monad Step where
  pure a := ⟨fun s => ⟨some (a, s), []⟩, fun h => by cases h; exact .refl _⟩
  bind first next :=
    { run s :=
        match (first.run s).outcome with
        | none => ⟨none, (first.run s).events⟩
        | some (a, after) => ((next a).run after).following (first.run s).events
      leads := by
        intro s b final h
        split at h
        · cases h
        · next a after hfirst => exact (first.leads hfirst).trans ((next a).leads h) }

theorem outcome_bind_eq_some {first : Step α} {next : α → Step β} {s final : ByteScanner} {b : β} :
    ((first >>= next).run s).outcome = some (b, final) ↔
      ∃ a after, (first.run s).outcome = some (a, after) ∧
        ((next a).run after).outcome = some (b, final) := by
  simp only [bind]
  rcases (first.run s).outcome with _ | ⟨a, after⟩
  · simp
  · constructor
    · exact fun h => ⟨a, after, rfl, h⟩
    · rintro ⟨_, _, ⟨⟩, h⟩
      exact h

/-- What a loop does in one turn: it reads something and goes on with a new state, or ends. -/
structure Turn (σ α : Type) where
  step : σ → Step (σ ⊕ α)
  progress : ∀ {state state' s after},
    ((step state).run s).outcome = some (.inl state', after) → s.Progress after

namespace Turn

def repeatFrom (turn : Turn σ α) (state : σ) (s : ByteScanner) : Recorded (α × ByteScanner) :=
  match _h : ((turn.step state).run s).outcome with
  | none => ⟨none, ((turn.step state).run s).events⟩
  | some (.inr a, after) => ⟨some (a, after), ((turn.step state).run s).events⟩
  | some (.inl state', after) =>
    (turn.repeatFrom state' after).following ((turn.step state).run s).events
termination_by s.source.utf8ByteSize - s.current
decreasing_by
  obtain ⟨hsource, hinside, hcurrent⟩ := turn.progress _h
  rw [hsource]
  omega

variable {turn : Turn σ α} {state : σ} {s final : ByteScanner} {a : α}

theorem leads_of_repeatFrom (h : (turn.repeatFrom state s).outcome = some (a, final)) :
    s.Leads final := by
  fun_induction turn.repeatFrom state s with
  | case1 => cases h
  | case2 state s b after hlast =>
      cases h
      exact (turn.step state).leads hlast
  | case3 state s state' after hmore ih => exact (turn.progress hmore).leads.trans (ih h)

/-- A loop progresses if its last turn does, since all the others do. -/
theorem progress_of_repeatFrom (ended : α → Prop)
    (hturn : ∀ state s a after, ((turn.step state).run s).outcome = some (.inr a, after) →
      ended a → s.Progress after)
    (h : (turn.repeatFrom state s).outcome = some (a, final)) (ha : ended a) :
    s.Progress final := by
  fun_induction turn.repeatFrom state s with
  | case1 => cases h
  | case2 state s b after hlast =>
      cases h
      exact hturn state s a final hlast ha
  | case3 state s state' after hmore ih => exact (turn.progress hmore).trans_leads (ih h).leads

end Turn

def loop (turn : Turn σ α) (state : σ) : Step α :=
  ⟨turn.repeatFrom state, Turn.leads_of_repeatFrom⟩

theorem loop_eq (turn : Turn σ α) (state : σ) :
    loop turn state = turn.step state >>= fun
      | .inl state' => loop turn state'
      | .inr a => pure a := by
  ext s : 2
  change turn.repeatFrom state s = _
  rw [Turn.repeatFrom]
  simp only [bind]
  split <;> rename_i h <;> simp only [h]
  · simp [pure, Recorded.following]
  · rfl

def note (act : Act) (outcome : ByteScanner → Option (α × ByteScanner))
    (h : ∀ s a after, outcome s = some (a, after) → s.Leads after) : Step α :=
  ⟨fun s => ⟨outcome s, [⟨act, s⟩]⟩, h _ _ _⟩

def scanner : Step ByteScanner :=
  ⟨fun s => ⟨some (s, s), []⟩, fun h => by cases h; exact .refl _⟩

def begin : Step Unit :=
  ⟨fun s => ⟨some ((), { s with start := s.current }), []⟩,
    fun h => by cases h; exact ⟨rfl, Nat.le_refl _⟩⟩

def ask (act : Act) (answer : ByteScanner → Option α) : Step α :=
  note act (fun s => (answer s).map (·, s)) fun _ _ _ h => by
    obtain ⟨_, -, h⟩ := Option.map_eq_some_iff.1 h
    cases h
    exact .refl _

def cut (part : Part) : Step String :=
  ask (.cut part) fun s => slice? s.source (part.first s) (part.last s)

def readNumber (text : String) : Step Float :=
  ask (.readNumber text) fun _ => (Decimal.ofText? text.toList).map Decimal.toFloat

def move (width : Nat) : Step Unit :=
  note (.move width) (fun s => some ((), { s with current := s.current + width })) fun _ _ _ h => by
    cases h
    exact ⟨rfl, Nat.le_add_right ..⟩

/-- Lines are counted with 32 bits. -/
def countLine : Step Unit :=
  note .countLine (fun s => if s.line < UInt32.size - 1 then
      some ((), { s with line := s.line + 1 }) else none) fun _ _ _ h => by
    split at h <;> cases h
    exact ⟨rfl, Nat.le_refl _⟩

def look : Step (Option Char) := do
  let rest ← cut .rest
  return rest.toList.head?

def lookNext : Step (Option Char) := do
  let rest ← cut .rest
  return rest.toList[1]?

def advance : Step (Option Char) := do
  match ← look with
  | none => return none
  | some c =>
    move c.utf8Size
    return some c

def eat (expected : Char) : Step Bool := do
  if (← look) = some expected then
    move expected.utf8Size
    return true
  else
    return false

theorem outcome_look_eq_some {s after : ByteScanner} {c? : Option Char} :
    (look.run s).outcome = some (c?, after) ↔ after = s ∧
      ∃ text, slice? s.source s.current s.source.utf8ByteSize = some text ∧
        text.toList.head? = c? := by
  rw [look, outcome_bind_eq_some]
  constructor
  · rintro ⟨text, seen, hcut, ⟨⟩⟩
    obtain ⟨_, hslice, ⟨⟩⟩ := Option.map_eq_some_iff.1 hcut
    exact ⟨rfl, text, hslice, rfl⟩
  · rintro ⟨rfl, text, hslice, rfl⟩
    exact ⟨text, _, Option.map_eq_some_iff.2 ⟨text, hslice, rfl⟩, rfl⟩

/-- A character that is seen is there to be read, whatever line is counted in between. -/
theorem progress_of_look_advance {s seen after : ByteScanner} {c : Char} {c? : Option Char}
    {line : Nat} (hlook : (look.run s).outcome = some (some c, seen))
    (h : (advance.run { s with line }).outcome = some (c?, after)) : s.Progress after := by
  obtain ⟨-, text, hslice, hhead⟩ := outcome_look_eq_some.1 hlook
  have hinside : s.current < s.source.utf8ByteSize := lt_of_slice? hslice (by
    rintro hnil
    simp [hnil] at hhead)
  obtain ⟨d?, _, hlook', hmove⟩ := outcome_bind_eq_some.1 h
  obtain ⟨rfl, text', hslice', rfl⟩ := outcome_look_eq_some.1 hlook'
  obtain rfl : text = text' := Option.some.inj (hslice.symm.trans hslice')
  rw [hhead] at hmove
  obtain ⟨_, _, ⟨⟩, ⟨⟩⟩ := outcome_bind_eq_some.1 hmove
  exact ⟨rfl, hinside, Nat.lt_add_of_pos_right c.utf8Size_pos⟩

theorem progress_of_advance {s after : ByteScanner} {c : Char}
    (h : (advance.run s).outcome = some (some c, after)) : s.Progress after := by
  obtain ⟨c?, seen, hlook, hmove⟩ := outcome_bind_eq_some.1 h
  cases c? with
  | none => cases hmove
  | some d => exact progress_of_look_advance hlook h

def skipTurn (wanted : Char → Bool) : Turn Unit Unit where
  step _ := do
    if (← look).any wanted then
      let _ ← advance
      return .inl ()
    else
      return .inr ()
  progress := by
    intro _ _ s after h
    obtain ⟨c?, seen, hlook, hturn⟩ := outcome_bind_eq_some.1 h
    obtain ⟨rfl, -⟩ := outcome_look_eq_some.1 hlook
    split at hturn
    · next hwanted =>
      obtain ⟨c, rfl, -⟩ := (Option.any_eq_true _ _).1 hwanted
      obtain ⟨_, _, hadvance, ⟨⟩⟩ := outcome_bind_eq_some.1 hturn
      exact progress_of_look_advance hlook hadvance
    · cases hturn

def skipWhile (wanted : Char → Bool) : Step Unit :=
  loop (skipTurn wanted) ()

def countBreak (c : Char) : Step Unit :=
  if c = '\n' then countLine else pure ()

theorem exists_line_of_countBreak {c : Char} {s after : ByteScanner} {a : Unit}
    (h : ((countBreak c).run s).outcome = some (a, after)) : ∃ line, after = { s with line } := by
  unfold countBreak at h
  split at h
  · change (if _ then some _ else none) = _ at h
    split at h <;> cases h
    exact ⟨_, rfl⟩
  · cases h
    exact ⟨_, rfl⟩

/-- Reads on up to a quote and counts the line breaks on the way. -/
def bodyTurn : Turn Unit Unit where
  step _ := do
    match ← look with
    | none => return .inr ()
    | some c =>
      if c = '"' then
        return .inr ()
      else
        countBreak c
        let _ ← advance
        return .inl ()
  progress := by
    intro _ _ s after h
    obtain ⟨c?, seen, hlook, hturn⟩ := outcome_bind_eq_some.1 h
    obtain ⟨rfl, -⟩ := outcome_look_eq_some.1 hlook
    cases c? with
    | none => cases hturn
    | some c =>
        simp only at hturn
        split at hturn
        · cases hturn
        · obtain ⟨_, counted, hcount, hturn⟩ := outcome_bind_eq_some.1 hturn
          obtain ⟨line, rfl⟩ := exists_line_of_countBreak hcount
          obtain ⟨_, _, hadvance, ⟨⟩⟩ := outcome_bind_eq_some.1 hturn
          exact progress_of_look_advance hlook hadvance

def skipBody : Step Unit :=
  loop bodyTurn ()

end Step
end ByteScanner
end Lox
