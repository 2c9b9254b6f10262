import Lox.Proofs.ByteStep
import Lox.Session

/-!
# Scanning by bytes

The scanner over bytes reads the same language as that of `Lox.Token.Scan`, by single steps: it
looks at the next character, moves over it and cuts its pieces out of the source. Every call that
does not give the end of input reads something (`Step.progress_of_next`), which is why scanning the
rest of a source comes to an end.
-/

namespace Lox.ByteScanner.Step

def token (kind : Kind) (literal : Option Literal) : Step (Option Item) := do
  let lexeme ← cut .lexeme
  let s ← scanner
  return some (.ok ⟨kind, lexeme, literal, s.line, .between s.start s.current⟩)

def refuse (cause : LexCause) : Step (Option Item) := do
  let s ← scanner
  return some (.error ⟨cause, s.line, .between s.start s.current⟩)

def symbol (s : Symbol) : Step (Option Item) :=
  token (.symbol s) none

def symbolOrEqual (alone withEqual : Symbol) : Step (Option Item) := do
  if ← eat '=' then symbol withEqual else symbol alone

def slash : Step (Option Item) := do
  if ← eat '/' then
    skipWhile (· != '\n')
    return none
  else
    symbol .slash

def string : Step (Option Item) := do
  skipBody
  if ← eat '"' then
    let body ← cut .contents
    token .string (some (.string body))
  else
    refuse .unclosedString

/-- Only behind a point is there a look at the character after the next. -/
def atFraction : Step Bool := do
  if (← look) = some '.' then
    return (← lookNext).any Char.isDigit
  else
    return false

def skipFraction : Step Unit := do
  if ← atFraction then
    let _ ← advance
    skipWhile Char.isDigit
  else
    return ()

def number : Step (Option Item) := do
  skipWhile Char.isDigit
  skipFraction
  let text ← cut .lexeme
  let value ← readNumber text
  token .number (some (.number value))

def word : Step (Option Item) := do
  skipWhile Char.isAlphanum
  let text ← cut .lexeme
  token (.ofWord text) none

/-- Reads the rest of the piece that begins with the character just read. Layout yields nothing. -/
def piece (c : Char) : Step (Option Item) :=
  match c with
  | '(' => symbol .leftParen
  | ')' => symbol .rightParen
  | '\x7b' => symbol .leftBrace
  | '\x7d' => symbol .rightBrace
  | ',' => symbol .comma
  | '.' => symbol .dot
  | '-' => symbol .minus
  | '+' => symbol .plus
  | ';' => symbol .semicolon
  | '*' => symbol .star
  | '!' => symbolOrEqual .bang .bangEqual
  | '=' => symbolOrEqual .equal .equalEqual
  | '<' => symbolOrEqual .less .lessEqual
  | '>' => symbolOrEqual .greater .greaterEqual
  | '/' => slash
  | ' ' | '\r' | '\t' => return none
  | '\n' => do
    countLine
    return none
  | '"' => string
  | c => if c.isDigit then number else if c.isAlpha then word else refuse (.unrecognized c)

/-- Reads one piece. There is more to do behind layout. -/
def nextPiece : Step (Unit ⊕ Item) := do
  begin
  match ← advance with
  | none =>
    let s ← scanner
    return .inr (.ok (.endOfInput s.line s.source.utf8ByteSize))
  | some c =>
    match ← piece c with
    | none => return .inl ()
    | some item => return .inr item

section

variable {s after : ByteScanner} {item : Item}

theorem progress_or_isEnd_of_nextPiece {result : Unit ⊕ Item}
    (h : (nextPiece.run s).outcome = some (result, after)) :
    s.Progress after ∨ ∃ item, result = .inr item ∧ Item.isEnd item = true := by
  obtain ⟨_, begun, ⟨⟩, hread⟩ := outcome_bind_eq_some.1 h
  obtain ⟨c?, read, hadvance, hread⟩ := outcome_bind_eq_some.1 hread
  cases c? with
  | none =>
      obtain ⟨_, _, ⟨⟩, ⟨⟩⟩ := outcome_bind_eq_some.1 hread
      exact .inr ⟨_, rfl, rfl⟩
  | some c =>
      obtain ⟨hsource, hinside, hcurrent⟩ := progress_of_advance hadvance
      have hprogress : s.Progress read := ⟨hsource, hinside, hcurrent⟩
      exact .inl (hprogress.trans_leads (Step.leads _ hread))

def nextTurn : Turn Unit Item where
  step _ := nextPiece
  progress h := (progress_or_isEnd_of_nextPiece h).resolve_right (by simp)

/-- The next token or error. At the end it is the end of input, however often it is asked for. -/
def next : Step Item :=
  loop nextTurn ()

theorem progress_of_next (h : (next.run s).outcome = some (item, after))
    (hend : Item.isEnd item = false) : s.Progress after := by
  refine Turn.progress_of_repeatFrom (Item.isEnd · = false) (fun _ s item after hturn hend => ?_)
    h hend
  refine (progress_or_isEnd_of_nextPiece hturn).resolve_right ?_
  rintro ⟨_, ⟨⟩, hend'⟩
  rw [hend] at hend'
  cases hend'

def take : Nat → Step (List Item)
  | 0 => return []
  | count + 1 => do
    let item ← next
    let items ← take count
    return item :: items

def scanTurn : Turn Session.Scanning Session.Scanning where
  step scanning := do
    let item ← next
    if Item.isEnd item then
      return .inr (scanning.add item)
    else
      return .inl (scanning.add item)
  progress := by
    intro scanning _ s after h
    obtain ⟨item, behind, hnext, hturn⟩ := outcome_bind_eq_some.1 h
    split at hturn
    · cases hturn
    · next hend =>
      cases hturn
      exact progress_of_next hnext (Bool.eq_false_iff.2 hend)

/-- Scans the rest of the source and reports each lexical error where it is met. -/
def scan (session : Session) : Step Session.Scanning :=
  loop scanTurn ⟨#[], false, session⟩

end

end Lox.ByteScanner.Step
