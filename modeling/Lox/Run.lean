import Lox.Cursor
import Lox.Expr.Eval
import Lox.Expr.Text
import Lox.Token.Scan

/-!
# Running a source

A source is scanned, read as one expression, and printed or evaluated. The first stage that fails
ends the run and leaves its diagnostics.
-/

namespace Lox

def RuntimeError.diagnostic (e : RuntimeError) : Diagnostic :=
  ⟨e.line, e.message, some e.token.span⟩

def Scan.diagnostics (s : Scan) : List Diagnostic :=
  s.errors.map LexError.diagnostic

inductive Action where
  | print | evaluate
deriving DecidableEq, Inhabited

/-- The stage that ended a run. -/
inductive Failure where
  | lexical | syntactic | runtime
deriving DecidableEq, Inhabited

def Failure.message : Failure → String
  | lexical => "Source contains lexical errors."
  | syntactic => "Source could not be parsed."
  | runtime => "Evaluation failed."

structure Run where
  result : Except Failure String
  diagnostics : List Diagnostic
deriving Inhabited

namespace Run

def ofExpr (e : Expr) : Action → Run
  | .print => ⟨.ok e.text, []⟩
  | .evaluate =>
    match e.eval with
    | .ok v => ⟨.ok v.text, []⟩
    | .error error => ⟨.error .runtime, [error.diagnostic]⟩

def ofTokens (ts : List Token) (action : Action) : Run :=
  let attempt := (Cursor.ofTokens ts).parseRecovering
  match attempt.tree with
  | some e => ofExpr e action
  | none => ⟨.error .syntactic, attempt.diagnostics⟩

def ofSource (source : String) (action : Action) : Run :=
  let scan := Scan.ofSource source
  if scan.hadError then ⟨.error .lexical, scan.diagnostics⟩ else ofTokens scan.tokens action

end Run
end Lox
