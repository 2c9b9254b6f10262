import Lox.Run

/-!
# Sessions

Several runs and single reports that write their diagnostics to one log. Every stage of a run is
handed the session as the stages before it have left it, and reports to it what it finds as it finds
it.
-/

namespace Lox

structure Session where
  log : List Diagnostic := []
deriving Inhabited

namespace Session

inductive Event where
  | run (source : String) (action : Action)
  | report (d : Diagnostic)

def isEmpty (s : Session) : Bool :=
  s.log.isEmpty

def report (s : Session) (d : Diagnostic) : Session :=
  ⟨s.log ++ [d]⟩

structure Scanning where
  tokens : Array Token
  hadError : Bool
  session : Session

def Scanning.add (scan : Scanning) : Item → Scanning
  | .ok t => { scan with tokens := scan.tokens.push t }
  | .error e => { scan with hadError := true, session := scan.session.report e.diagnostic }

/-- Scans a source and reports each lexical error where it is met. -/
def scan (s : Session) (source : String) : Scanning :=
  (Scanner.ofSource source).fold Scanning.add ⟨#[], false, s⟩

def parse (s : Session) (ts : List Token) : Option Expr × Session :=
  let attempt := (Cursor.ofTokens ts).parseRecovering
  (attempt.tree, attempt.diagnostics.foldl report s)

def evaluate (s : Session) (e : Expr) : Except Failure String × Session :=
  match e.eval with
  | .ok v => (.ok v.text, s)
  | .error error => (.error .runtime, s.report error.diagnostic)

def run (s : Session) (source : String) (action : Action) : Except Failure String × Session :=
  let scan := s.scan source
  if scan.hadError then (.error .lexical, scan.session)
  else
    match scan.session.parse scan.tokens.toList with
    | (none, s) => (.error .syntactic, s)
    | (some e, s) =>
      match action with
      | .print => (.ok e.text, s)
      | .evaluate => s.evaluate e

/-- The result of a run, and the session behind the event. -/
def perform (s : Session) : Event → Option (Except Failure String) × Session
  | .run source action =>
    let (result, s) := s.run source action
    (some result, s)
  | .report d => (none, s.report d)

/-- The results of events in order, and the session behind all of them. -/
def performAll (s : Session) : List Event → List (Option (Except Failure String)) × Session
  | [] => ([], s)
  | event :: events =>
    let (result, s) := s.perform event
    let (results, s) := s.performAll events
    (result :: results, s)

def listing (s : Session) : String :=
  Diagnostic.listing s.log

end Session
end Lox
