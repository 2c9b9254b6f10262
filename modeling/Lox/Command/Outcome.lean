import Lox.Command.Arguments
import Lox.Report
import Lox.Run

/-!
# Outcomes of commands

What a command writes to standard output and standard error, and its exit code. Files and standard
input arrive as bytes and have to be UTF-8.
-/

namespace Lox

/-- A failure of input or output, which is not about what the source says. -/
inductive Trouble where
  | unreadable (path : String)
  | notText
deriving DecidableEq, Inhabited

def Trouble.message : Trouble → String
  | unreadable path => "cannot read " ++ Text.quote .text path
  | notText => "the input is not valid UTF-8"

structure Outcome where
  exitCode : Nat
  stdout : String
  stderr : String
  -- reported to the user behind everything on standard error
  trouble : Option Trouble
deriving DecidableEq, Inhabited

namespace Outcome

def success : Nat := 0
def ioError : Nat := 1
def usageError : Nat := 2
def dataError : Nat := 65
def softwareError : Nat := 70

def ofTrouble (stderr : String) (trouble : Trouble) : Outcome :=
  ⟨ioError, "", stderr, some trouble⟩

end Outcome

namespace TokenFormat

def token : TokenFormat → Token → String
  | basic, t => t.text
  | debug, t => t.detail

def error : TokenFormat → LexError → String
  | basic, e => e.text
  | debug, e => e.detail

end TokenFormat

def ExprFormat.expr : ExprFormat → Expr → String
  | sexpr, e => e.text
  | debug, e => e.detail

namespace Command

def path? : Command → Option String
  | tokenize path _ | parse path _ | evaluate path _ => some path
  | prompt _ => none

def progress (activity path : String) : String :=
  activity ++ " " ++ Text.quote .text path ++ "...\n"

structure Listing where
  stdout : String
  stderr : String
  succeeded : Bool

def Listing.add (format : TokenFormat) (listing : Listing) : Item → Listing
  | .ok t => { listing with stdout := listing.stdout ++ (format.token t ++ "\n") }
  | .error e =>
    { listing with stderr := listing.stderr ++ (format.error e ++ "\n"), succeeded := false }

/-- Lists tokens on standard output and errors on standard error, each as it comes. -/
def tokenizeSource (format : TokenFormat) (source : String) : Outcome :=
  let listing := (Scanner.ofSource source).fold (Listing.add format) ⟨"", "", true⟩
  { exitCode := if listing.succeeded then Outcome.success else Outcome.dataError
    stdout := listing.stdout
    stderr := listing.stderr
    trouble := none }

def parseSource (format : ExprFormat) (source : String) : Outcome :=
  let scan := Scan.ofSource source
  if scan.hadError then ⟨Outcome.dataError, "", Diagnostic.listing scan.diagnostics, none⟩
  else
    let attempt := (Cursor.ofTokens scan.tokens).parseRecovering
    let stderr := Diagnostic.listing attempt.diagnostics
    match attempt.tree with
    | some e => ⟨Outcome.success, Text.unlines [format.expr e], stderr, none⟩
    | none => ⟨Outcome.dataError, "", stderr, none⟩

def failureCode : Failure → Nat
  | .lexical | .syntactic => Outcome.dataError
  | .runtime => Outcome.softwareError

/-- Evaluates a source; diagnostics are drawn under the source if that is asked for. -/
def evaluateSource (path : String) (pretty : Bool) (source : String) : Outcome :=
  let run := Run.ofSource source .evaluate
  let stderr :=
    if pretty then String.join (run.diagnostics.map (Report.ofDiagnostic path source))
    else Diagnostic.listing run.diagnostics
  match run.result with
  | .ok value => ⟨Outcome.success, Text.unlines [value], stderr, none⟩
  | .error failure => ⟨failureCode failure, "", stderr, none⟩

/-- Announces the activity and goes on with the content of the file, if it is there and is text. -/
def withFile (activity path : String) (content : Option ByteArray)
    (work : String → Outcome) : Outcome :=
  let announced := progress activity path
  match content with
  | none => .ofTrouble announced (.unreadable path)
  | some bytes =>
    match String.fromUTF8? bytes with
    | none => .ofTrouble announced .notText
    | some source =>
      let outcome := work source
      { outcome with stderr := announced ++ outcome.stderr }

end Command
end Lox
