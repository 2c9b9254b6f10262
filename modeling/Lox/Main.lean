import Lox.Command.Perform

/-!
# The program

Reads arguments, the named file and standard input, and writes what the library answers.
-/

namespace Lox.Main

def readFile (path : String) : IO (Option ByteArray) := do
  try
    return some (← IO.FS.readBinFile path)
  catch _ =>
    return none

/-- The next line of standard input with its line break; empty at the end of the input. -/
partial def readLine (input : IO.FS.Stream) (line : List UInt8) : IO (List UInt8) := do
  let bytes ← input.read 1
  match bytes.toList with
  | [] => return line.reverse
  | b :: _ => if b = Prompt.lineFeed then return (b :: line).reverse else readLine input (b :: line)

def reportTrouble (trouble : Option Trouble) : IO Unit :=
  match trouble with
  | none => return
  | some t => IO.eprintln ("Error: " ++ t.message)

partial def converse (action : Action) (input : IO.FS.Stream) : IO Nat := do
  IO.print Prompt.mark
  (← IO.getStdout).flush
  match Prompt.nextLine (← readLine input []) with
  | none => return Outcome.success
  | some (line, _) =>
    match Prompt.turn action line with
    | .quit => return Outcome.success
    | .notText =>
      reportTrouble (some .notText)
      return Outcome.ioError
    | .answer reply =>
      IO.print reply.stdout
      IO.eprint reply.stderr
      converse action input

def respond (arguments : List String) : IO Nat := do
  match Arguments.invocation arguments with
  | .command (.prompt printTree) =>
    converse (Command.promptAction printTree) (← IO.getStdin)
  | invocation =>
    let content ← match invocation.path? with
      | some path => readFile path
      | none => pure none
    let outcome := invocation.perform content []
    IO.print outcome.stdout
    IO.eprint outcome.stderr
    reportTrouble outcome.trouble
    if invocation = .misuse then IO.eprint Invocation.usageText
    return outcome.exitCode

end Lox.Main

def main (arguments : List String) : IO UInt32 := do
  return (← Lox.Main.respond arguments).toUInt32
