import Lox.Command.Prompt

/-!
# Performing commands

From arguments, files and standard input to an outcome.
-/

namespace Lox

namespace Command

def promptAction (printTree : Bool) : Action :=
  if printTree then .print else .evaluate

/-- Carries a command out on the content of its file, if that can be read, and standard input. -/
def perform (c : Command) (content : Option ByteArray) (input : List UInt8) : Outcome :=
  match c with
  | tokenize path format => withFile "Tokenizing" path content (tokenizeSource format)
  | parse path format => withFile "Parsing" path content (parseSource format)
  | evaluate path pretty => withFile "Evaluating" path content (evaluateSource path pretty)
  | prompt printTree => Prompt.run (promptAction printTree) input

end Command

namespace Invocation

def versionText : String := "loxide 0.1.0\n"

def usageText : String :=
  "Usage: loxide <COMMAND>\n\n" ++
  "Commands:\n" ++
  "  tokenize [--format basic|debug] <PATH>\n" ++
  "  parse    [--format sexpr|debug] <PATH>\n" ++
  "  evaluate [--pretty] <PATH>\n" ++
  "  prompt   [--print-ast]\n" ++
  "  help\n"

def path? : Invocation → Option String
  | command c => c.path?
  | _ => none

def perform (i : Invocation) (content : Option ByteArray) (input : List UInt8) : Outcome :=
  match i with
  | command c => c.perform content input
  | version => ⟨Outcome.success, versionText, "", none⟩
  | help => ⟨Outcome.success, usageText, "", none⟩
  | misuse => ⟨Outcome.usageError, "", "", none⟩

end Invocation
end Lox
