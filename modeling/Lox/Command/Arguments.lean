/-!
# Command-line arguments

The first argument names a command. Options stand before or after the path, each at most once, with
the value of an option behind it or behind an equals sign; `--` ends the options. Arguments are
read from left to right, and the first one that settles the matter does.
-/

namespace Lox

inductive TokenFormat where
  | basic | debug
deriving DecidableEq, Inhabited

inductive ExprFormat where
  | sexpr | debug
deriving DecidableEq, Inhabited

inductive Command where
  | tokenize (path : String) (format : TokenFormat)
  | parse (path : String) (format : ExprFormat)
  | evaluate (path : String) (pretty : Bool)
  | prompt (printTree : Bool)
deriving DecidableEq, Inhabited

inductive Invocation where
  | command (c : Command)
  | version
  | help
  | misuse
deriving DecidableEq, Inhabited

namespace Arguments

/-- What a command accepts: the values of `--format`, a flag, and whether it wants a path. -/
structure Signature where
  formats : List String
  flag : Option String
  wantsPath : Bool

structure Given where
  path : Option String
  format : Option String
  flagged : Bool
deriving DecidableEq, Inhabited

inductive Halt where
  | help
  | misuse
deriving DecidableEq, Inhabited

def addPath (sig : Signature) (g : Given) (path : String) : Except Halt Given :=
  if sig.wantsPath && g.path.isNone && !path.isEmpty then .ok { g with path := some path }
  else .error .misuse

def addFormat (sig : Signature) (g : Given) (format : String) : Except Halt Given :=
  if g.format.isNone && sig.formats.contains format then .ok { g with format := some format }
  else .error .misuse

def addFlag (sig : Signature) (g : Given) (flag : String) : Except Halt Given :=
  if !g.flagged && sig.flag == some flag then .ok { g with flagged := true }
  else .error .misuse

/-- An argument of a command, told apart by its dashes. -/
inductive Shape where
  | separator
  | help
  | unknown
  -- the option `--format`, whose value is the next argument
  | format
  | formatIs (value : String)
  | flag (name : String)
  | plain (text : String)

def formatValue? (chars : List Char) : Option String :=
  let lead := "--format=".toList
  if lead.isPrefixOf chars then some (String.ofList (chars.drop lead.length)) else none

def Shape.of (argument : String) : Shape :=
  match argument.toList with
  | ['-', '-'] => .separator
  | '-' :: '-' :: name =>
    if argument = "--help" then .help
    else if argument = "--format" then .format
    else
      match formatValue? argument.toList with
      | some value => .formatIs value
      | none => .flag (String.ofList name)
  | '-' :: 'h' :: _ => .help
  | '-' :: _ :: _ => .unknown
  | _ => .plain argument

/-- Every argument behind `--` is a path. -/
def readPaths (sig : Signature) (g : Given) : List String → Except Halt Given
  | [] => .ok g
  | path :: rest =>
    match addPath sig g path with
    | .ok g => readPaths sig g rest
    | .error halt => .error halt

def read (sig : Signature) (g : Given) : List String → Except Halt Given
  | [] => .ok g
  | argument :: rest =>
    match Shape.of argument with
    | .separator => readPaths sig g rest
    | .help => .error .help
    | .unknown => .error .misuse
    | .format =>
      match rest with
      | [] => .error .misuse
      | value :: rest =>
        match Shape.of value with
        | .plain value =>
          match addFormat sig g value with
          | .ok g => read sig g rest
          | .error halt => .error halt
        | _ => .error .misuse
    | .formatIs value =>
      match addFormat sig g value with
      | .ok g => read sig g rest
      | .error halt => .error halt
    | .flag name =>
      match addFlag sig g name with
      | .ok g => read sig g rest
      | .error halt => .error halt
    | .plain path =>
      match addPath sig g path with
      | .ok g => read sig g rest
      | .error halt => .error halt

def readCommand (sig : Signature) (arguments : List String) (build : Given → Option Command) :
    Invocation :=
  match read sig ⟨none, none, false⟩ arguments with
  | .error .help => .help
  | .error .misuse => .misuse
  | .ok g =>
    match build g with
    | some c => .command c
    | none => .misuse

def tokenizeCommand (g : Given) : Option Command :=
  g.path.map fun path => .tokenize path (if g.format = some "debug" then .debug else .basic)

def parseCommand (g : Given) : Option Command :=
  g.path.map fun path => .parse path (if g.format = some "debug" then .debug else .sexpr)

def evaluateCommand (g : Given) : Option Command :=
  g.path.map fun path => .evaluate path g.flagged

def promptCommand (g : Given) : Option Command :=
  some (.prompt g.flagged)

def commandNames : List String :=
  ["tokenize", "parse", "evaluate", "prompt", "help"]

/-- An argument in the place of a command's name that names none. -/
def other (argument : String) : Invocation :=
  match argument.toList with
  | '-' :: 'V' :: _ => .version
  | '-' :: 'h' :: _ => .help
  | _ => if argument = "--version" then .version else if argument = "--help" then .help else .misuse

def invocation : List String → Invocation
  | [] => .misuse
  | "tokenize" :: rest => readCommand ⟨["basic", "debug"], none, true⟩ rest tokenizeCommand
  | "parse" :: rest => readCommand ⟨["sexpr", "debug"], none, true⟩ rest parseCommand
  | "evaluate" :: rest => readCommand ⟨[], some "pretty", true⟩ rest evaluateCommand
  | "prompt" :: rest => readCommand ⟨[], some "print-ast", false⟩ rest promptCommand
  | ["help"] => .help
  | ["help", name] => if commandNames.contains name then .help else .misuse
  | "help" :: _ => .misuse
  | argument :: _ => other argument

end Arguments
end Lox
