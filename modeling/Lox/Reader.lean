import Lox.Cursor

/-!
# Reading one token at a time

A reader is a cursor that counts the levels of nesting it has entered. It reads expressions by
single steps: it looks at the next token, moves over it, looks back at the token it moved over, and
raises or lowers its counter. An error leaves the reader where it was met, whatever the counter
shows there; the next expression is read with the counter back at zero.

A step has no outcome if it asks for a token that is not in the list, lowers a counter that stands
at zero, or expects an operator where there is none. Beside the outcome it leaves a record: every
look at the next token or back at the one in front of it, every change of the counter, and every
time an operator is expected, each with the reader as it stood then. What can be asked of a reader
is answered by the outcome alone.
-/

namespace Lox

structure Reader where
  tokens : List Token
  index : Nat
  /-- The levels of nesting entered and not left. -/
  depth : Nat
deriving Inhabited

namespace Reader

def ofTokens (ts : List Token) : Reader :=
  ⟨Cursor.withEnd ts, 0, 0⟩

def peek? (r : Reader) : Option Token :=
  r.tokens[r.index]?

-- at the start of the list this is the next token itself
def previous? (r : Reader) : Option Token :=
  r.tokens[r.index - 1]?

inductive Act where
  | look | lookBack | enter | leave | restore
  /-- A token of this kind is taken for an operator. -/
  | unaryOperator (k : Kind)
  | binaryOperator (k : Kind)
deriving DecidableEq

/-- What was done, and the reader in front of it. -/
structure Event where
  act : Act
  reader : Reader

structure Recorded (α : Type) where
  outcome : Option α
  events : List Event

/-- A value or an error, and the reader behind it. -/
abbrev Outcome (α : Type) := Option (Except ParseError α × Reader)

namespace Recorded

section

variable {α β : Type}

abbrev Step (α : Type) := Recorded (Except ParseError α × Reader)

def nothing : Recorded α :=
  ⟨none, []⟩

def done (a : α) : Recorded α :=
  ⟨some a, []⟩

def note (act : Act) (r : Reader) (outcome : Option α) : Recorded α :=
  ⟨outcome, [⟨act, r⟩]⟩

def bind (first : Recorded α) (next : α → Recorded β) : Recorded β :=
  match first.outcome with
  | none => ⟨none, first.events⟩
  | some a => ⟨(next a).outcome, first.events ++ (next a).events⟩

def attach (record : Recorded α) : Recorded {a // record.outcome = some a} :=
  ⟨record.outcome.attach, record.events⟩

/-- Goes on with the value and the reader behind it. -/
def andThen (first : Step α) (next : α → Reader → Step β) : Step β :=
  first.bind fun
    | (.error e, r) => done (.error e, r)
    | (.ok a, r) => next a r

@[simp] theorem outcome_done (a : α) : (done a).outcome = some a := rfl

@[simp] theorem outcome_note (act : Act) (r : Reader) (outcome : Option α) :
    (note act r outcome).outcome = outcome := rfl

@[simp] theorem outcome_bind (first : Recorded α) (next : α → Recorded β) :
    (first.bind next).outcome = first.outcome.bind fun a => (next a).outcome := by
  unfold bind
  cases first.outcome <;> rfl

theorem attach_bind (first : Recorded α) (next : α → Recorded β) :
    (first.attach.bind fun a => next a.1) = first.bind next := by
  obtain ⟨outcome, events⟩ := first
  cases outcome <;> rfl

theorem outcome_andThen_of_ok {first : Step α} {next : α → Reader → Step β} {a : α} {r : Reader}
    (h : first.outcome = some (.ok a, r)) : (andThen first next).outcome = (next a r).outcome := by
  rw [andThen, outcome_bind, h]
  rfl

theorem outcome_andThen_of_error {first : Step α} {next : α → Reader → Step β} {e : ParseError}
    {r : Reader} (h : first.outcome = some (.error e, r)) :
    (andThen first next).outcome = some (.error e, r) := by
  rw [andThen, outcome_bind, h]
  rfl

theorem outcome_andThen_congr {first : Step α} {next next' : α → Reader → Step β}
    (h : ∀ a r, (next a r).outcome = (next' a r).outcome) :
    (andThen first next).outcome = (andThen first next').outcome := by
  rw [andThen, andThen, outcome_bind, outcome_bind]
  rcases first.outcome with _ | ⟨_ | a, r⟩
  · rfl
  · rfl
  · exact h a r

def look (r : Reader) : Recorded Token :=
  note .look r r.peek?

def lookBack (r : Reader) : Recorded Token :=
  note .lookBack r r.previous?

def isAtEnd (r : Reader) : Recorded Bool :=
  (look r).bind fun t => done t.isEnd

-- an end of input is not moved over
def move (r : Reader) : Recorded Reader :=
  (look r).bind fun t => done (if t.isEnd then r else { r with index := r.index + 1 })

def advance (r : Reader) : Step Token :=
  (move r).bind fun after => (lookBack after).bind fun t => done (.ok t, after)

/-- Moves over the next token if it is of one of these kinds. -/
def takeAny (kinds : List Kind) (r : Reader) : Step (Option Token) :=
  (look r).bind fun t =>
    if t.kind ∈ kinds then andThen (advance r) fun taken after => done (.ok (some taken), after)
    else done (.ok none, r)

def stop (obstacle : Obstacle) (r : Reader) : Step α :=
  (look r).bind fun t => done (.error ⟨obstacle, t⟩, r)

def consume (kind : Kind) (obstacle : Obstacle) (r : Reader) : Step Token :=
  (look r).bind fun t => if t.kind = kind then advance r else stop obstacle r

def enter (r : Reader) : Step Unit :=
  (note .enter r (some ())).bind fun _ =>
    if Cursor.maxNesting ≤ r.depth then stop .tooDeeplyNested r
    else done (.ok (), { r with depth := r.depth + 1 })

def leave (r : Reader) : Step Unit :=
  note .leave r (if r.depth = 0 then none else some (.ok (), { r with depth := r.depth - 1 }))

def restore (depth : Nat) (e : Expr) (r : Reader) : Step Expr :=
  note .restore r (some (.ok e, { r with depth }))

end

/-- What follows a unary operator, with `right` for its operand. -/
def prefixed (right : Reader → Step Expr) (token : Token) (r : Reader) : Step Expr :=
  (note (.unaryOperator token.kind) r (UnaryOp.ofKind? token.kind)).bind fun op =>
    andThen (enter r) fun _ r =>
    andThen (right r) fun e r =>
    andThen (leave r) fun _ r => done (.ok (.unary op token e), r)

def group (inner : Reader → Step Expr) (r : Reader) : Step Expr :=
  andThen (advance r) fun _ r =>
  andThen (enter r) fun _ r =>
  andThen (inner r) fun e r =>
  andThen (leave r) fun _ r =>
  andThen (consume (.symbol .rightParen) .unclosedGroup r) fun _ r => done (.ok (.group e), r)

/-- A literal, or a group with `inner` between its parentheses. -/
def primary (inner : Reader → Step Expr) (r : Reader) : Step Expr :=
  (look r).bind fun t =>
    match Grammar.leaf? t with
    | some v => andThen (advance r) fun _ r => done (.ok (.literal v), r)
    | none =>
      if t.kind = .symbol .leftParen then group inner r else stop .expectedExpression r

def unaryOf (right inner : Reader → Step Expr) (r : Reader) : Step Expr :=
  andThen (takeAny Grammar.unaryOperators r) fun token? r =>
    match token? with
    | some token => prefixed right token r
    | none => primary inner r

/-- One turn of the loop over the operators of a tier; `more` are the turns behind it. -/
def chainOf (operand : Reader → Step Expr) (more : Expr → Reader → Step Expr) (tier : Tier)
    (left : Expr) (r : Reader) : Step Expr :=
  andThen (takeAny tier.operators r) fun token? r =>
    match token? with
    | none => done (.ok left, r)
    | some token =>
      andThen (enter r) fun _ r =>
        (note (.binaryOperator token.kind) r (BinaryOp.ofKind? token.kind)).bind fun op =>
          andThen (operand r) fun right r => more (.binary op token left right) r

/-- Reads an operand with `unary`, then the loops of the tiers in turn. Behind each loop the counter
is set back to where it stood in front of the operand. -/
def climb (unary : Reader → Step Expr) (chain : Tier → Expr → Reader → Step Expr)
    (tiers : List Tier) (r : Reader) : Step Expr :=
  tiers.foldl
    (fun first tier =>
      andThen first fun left after =>
      andThen (chain tier left after) fun e after => restore r.depth e after)
    (unary r)

mutual

-- the counter refuses to enter a level without room, so nothing is read there
def unary : Nat → Reader → Step Expr
  | 0 => unaryOf (fun _ => nothing) (fun _ => nothing)
  | room + 1 => unaryOf (unary room) (climb (unary room) (chain room) Tier.all)

def chain : Nat → Tier → Expr → Reader → Step Expr
  | 0 => chainOf (fun _ => nothing) (fun _ _ => nothing)
  | room + 1 => fun tier =>
    chainOf (climb (unary room) (chain room) tier.tighter) (chain room tier) tier

end

def expression (room : Nat) (r : Reader) : Step Expr :=
  climb (unary room) (chain room) Tier.all r

def parse (r : Reader) : Step Expr :=
  expression Cursor.maxNesting { r with depth := 0 }

section

variable {r : Reader} {t last : Token}

theorem outcome_look_bind {α : Type} (hpeek : r.peek? = some t) (next : Token → Recorded α) :
    ((look r).bind next).outcome = (next t).outcome := by
  rw [outcome_bind, look, outcome_note, hpeek]
  rfl

theorem outcome_lookBack_bind {α : Type} (hprevious : r.previous? = some last)
    (next : Token → Recorded α) : ((lookBack r).bind next).outcome = (next last).outcome := by
  rw [outcome_bind, lookBack, outcome_note, hprevious]
  rfl

theorem outcome_move (hpeek : r.peek? = some t) :
    (move r).outcome = some (if t.isEnd then r else { r with index := r.index + 1 }) := by
  rw [move, outcome_look_bind hpeek]
  rfl

/-- What is looked back at behind the next token is that token. -/
theorem outcome_advance (hpeek : r.peek? = some t) (hend : t.isEnd = false) :
    (advance r).outcome = some (.ok t, { r with index := r.index + 1 }) := by
  have hback : ({ r with index := r.index + 1 } : Reader).previous? = some t := hpeek
  rw [advance, outcome_bind, outcome_move hpeek, if_neg (by simp [hend]), Option.bind_some,
    outcome_lookBack_bind hback]
  rfl

theorem lt_of_advance {stepped : Except ParseError Token × Reader}
    (hlook : (look r).outcome = some t) (hend : ¬ t.isEnd)
    (h : (advance r).outcome = some stepped) :
    stepped.2.tokens.length - stepped.2.index < r.tokens.length - r.index := by
  have hlt : r.index < r.tokens.length := (List.getElem?_eq_some_iff.1 hlook).1
  rw [outcome_advance hlook (Bool.eq_false_iff.2 hend), Option.some.injEq] at h
  subst h
  simp only
  omega

end

/-- Moves on up to an end of input, a place behind a semicolon, or a word that opens a
declaration. -/
def resume (r : Reader) : Recorded Reader :=
  (look r).attach.bind fun t =>
    if _hend : t.1.isEnd then done r
    else
      (lookBack r).bind fun last =>
        if last.kind == .symbol .semicolon || t.1.kind.startsDeclaration then done r
        else (advance r).attach.bind fun stepped => resume stepped.1.2
termination_by r.tokens.length - r.index
decreasing_by exact lt_of_advance t.2 _hend stepped.2

theorem resume_eq (r : Reader) :
    resume r = (look r).bind fun t =>
      if t.isEnd then done r
      else
        (lookBack r).bind fun last =>
          if last.kind == .symbol .semicolon || t.kind.startsDeclaration then done r
          else (advance r).bind fun stepped => resume stepped.2 := by
  rw [resume, ← attach_bind (look r)]
  simp only [dite_eq_ite, attach_bind (advance r) fun stepped => resume stepped.2]

section

variable {r : Reader} {t last : Token} (hpeek : r.peek? = some t)
  (hprevious : r.previous? = some last)
include hpeek hprevious

theorem outcome_resume_of_stop
    (hstop : (t.isEnd || last.kind == .symbol .semicolon || t.kind.startsDeclaration) = true) :
    (resume r).outcome = some r := by
  rw [resume_eq, outcome_look_bind hpeek]
  cases hend : t.isEnd with
  | true => rfl
  | false =>
      rw [hend, Bool.false_or] at hstop
      rw [if_neg (by simp), outcome_lookBack_bind hprevious, if_pos hstop]
      rfl

theorem outcome_resume_of_skip
    (hskip : (t.isEnd || last.kind == .symbol .semicolon || t.kind.startsDeclaration) = false) :
    (resume r).outcome = (resume { r with index := r.index + 1 }).outcome := by
  simp only [Bool.or_eq_false_iff] at hskip
  obtain ⟨⟨hend, hsemicolon⟩, hword⟩ := hskip
  rw [resume_eq, outcome_look_bind hpeek, if_neg (by simp [hend]), outcome_lookBack_bind hprevious,
    if_neg (by simp [hsemicolon, hword]), outcome_bind, outcome_advance hpeek hend]
  rfl

end

def synchronize (r : Reader) : Recorded Reader :=
  (advance r).bind fun stepped => resume stepped.2

end Recorded

inductive Operation where
  | parse | parseRecovering | synchronize | peek | isAtEnd
deriving DecidableEq, Inhabited

inductive Reply where
  | parsed (result : Except ParseError Expr)
  | recovered (tree : Option Expr) (diagnostics : List Diagnostic)
  | skipped
  | next (t : Token)
  | atEnd (answer : Bool)

namespace Recorded

/-- The reply to an operation and the reader behind it. An expression that cannot be read while
recovering is reported, and the reader skips to where to resume. -/
def perform (r : Reader) : Operation → Recorded (Reply × Reader)
  | .parse => (parse r).bind fun (result, after) => done (.parsed result, after)
  | .parseRecovering =>
    (parse r).bind fun
      | (.ok e, after) => done (.recovered (some e) [], after)
      | (.error e, after) =>
        (synchronize after).bind fun after => done (.recovered none [e.diagnostic], after)
  | .synchronize => (synchronize r).bind fun after => done (.skipped, after)
  | .peek => (look r).bind fun t => done (.next t, r)
  | .isAtEnd => (isAtEnd r).bind fun answer => done (.atEnd answer, r)

/-- The replies to operations in order, each with the index behind it, and the reader behind all. -/
def run (r : Reader) : List Operation → Recorded (List (Reply × Nat) × Reader)
  | [] => done ([], r)
  | op :: ops =>
    (perform r op).bind fun (reply, after) =>
      (run after ops).bind fun (replies, final) => done ((reply, after.index) :: replies, final)

end Recorded

def isAtEnd? (r : Reader) : Option Bool :=
  (Recorded.isAtEnd r).outcome

def parse (r : Reader) : Outcome Expr :=
  (Recorded.parse r).outcome

def synchronize? (r : Reader) : Option Reader :=
  (Recorded.synchronize r).outcome

def perform (r : Reader) (op : Operation) : Option (Reply × Reader) :=
  (Recorded.perform r op).outcome

def run (r : Reader) (ops : List Operation) : Option (List (Reply × Nat) × Reader) :=
  (Recorded.run r ops).outcome

section

variable {r stop after : Reader} {t : Token}

theorem isAtEnd?_eq (h : r.peek? = some t) : r.isAtEnd? = some t.isEnd := by
  rw [isAtEnd?, Recorded.isAtEnd, Recorded.outcome_look_bind h]
  rfl

theorem perform_parse {result : Except ParseError Expr} (h : r.parse = some (result, after)) :
    r.perform .parse = some (.parsed result, after) := by
  rw [parse] at h
  rw [perform, Recorded.perform, Recorded.outcome_bind, h]
  rfl

theorem perform_recovering_of_ok {e : Expr} (h : r.parse = some (.ok e, after)) :
    r.perform .parseRecovering = some (.recovered (some e) [], after) := by
  rw [parse] at h
  rw [perform, Recorded.perform, Recorded.outcome_bind, h]
  rfl

theorem perform_recovering_of_error {e : ParseError} (h : r.parse = some (.error e, stop))
    (hskip : stop.synchronize? = some after) :
    r.perform .parseRecovering = some (.recovered none [e.diagnostic], after) := by
  rw [parse] at h
  rw [synchronize?] at hskip
  rw [perform, Recorded.perform, Recorded.outcome_bind, h]
  simp only [Option.bind_some, Recorded.outcome_bind, hskip, Recorded.outcome_done]

theorem perform_synchronize (h : r.synchronize? = some after) :
    r.perform .synchronize = some (.skipped, after) := by
  rw [synchronize?] at h
  rw [perform, Recorded.perform, Recorded.outcome_bind, h]
  rfl

theorem perform_peek (h : r.peek? = some t) : r.perform .peek = some (.next t, r) := by
  rw [perform, Recorded.perform, Recorded.outcome_look_bind h]
  rfl

theorem perform_isAtEnd (h : r.peek? = some t) :
    r.perform .isAtEnd = some (.atEnd t.isEnd, r) := by
  have hend := isAtEnd?_eq h
  rw [isAtEnd?] at hend
  rw [perform, Recorded.perform, Recorded.outcome_bind, hend]
  rfl

end

theorem run_cons {r after final : Reader} {op : Operation} {ops : List Operation} {reply : Reply}
    {replies : List (Reply × Nat)} (h : r.perform op = some (reply, after))
    (hrun : after.run ops = some (replies, final)) :
    r.run (op :: ops) = some ((reply, after.index) :: replies, final) := by
  rw [perform] at h
  rw [run] at hrun ⊢
  simp only [Recorded.run, Recorded.outcome_bind, h, Option.bind_some, hrun, Recorded.outcome_done]

end Reader
end Lox
