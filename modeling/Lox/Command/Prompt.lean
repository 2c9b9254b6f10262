import Lox.Command.Outcome

/-!
# The prompt

The prompt reads standard input line by line. A line break ends a line, together with one carriage
return directly in front of it. Every line is a source of its own; the prompt ends with the input,
at an empty line, or at a line that is not UTF-8.
-/

namespace Lox.Prompt

def lineFeed : UInt8 := 10
def carriageReturn : UInt8 := 13

/-- The bytes up to the first line break, and what lies behind the break if there is one. -/
def splitLine : List UInt8 → List UInt8 × Option (List UInt8)
  | [] => ([], none)
  | b :: bytes =>
    if b = lineFeed then ([], some bytes)
    else
      let (line, rest) := splitLine bytes
      (b :: line, rest)

/-- A line that a line break ended, without the carriage return at its end. -/
def dropReturn (line : List UInt8) : List UInt8 :=
  if line.getLast? = some carriageReturn then line.dropLast else line

theorem length_lt_of_splitLine {bytes line rest : List UInt8}
    (h : splitLine bytes = (line, some rest)) : rest.length < bytes.length := by
  induction bytes generalizing line rest with
  | nil => simp [splitLine] at h
  | cons b bytes ih =>
    simp only [splitLine] at h
    split at h
    · obtain ⟨-, rfl⟩ : [] = line ∧ bytes = rest := by simpa using h
      simp
    · obtain ⟨-, h⟩ := Prod.mk.inj h
      have := ih (Prod.ext rfl h)
      simp only [List.length_cons]
      omega

/-- The next line and the input behind it. There is none at the end of the input. -/
def nextLine (input : List UInt8) : Option (List UInt8 × List UInt8) :=
  match splitLine input with
  | (line, some rest) => some (dropReturn line, rest)
  | ([], none) => none
  | (line, none) => some (line, [])

theorem length_lt_of_nextLine {input line rest : List UInt8}
    (h : nextLine input = some (line, rest)) : rest.length < input.length := by
  unfold nextLine at h
  split at h
  · next hsplit =>
    obtain ⟨-, rfl⟩ := Prod.mk.inj (Option.some.inj h)
    exact length_lt_of_splitLine hsplit
  · cases h
  · next hne hsplit =>
    obtain ⟨-, rfl⟩ := Prod.mk.inj (Option.some.inj h)
    cases input with
    | nil => exact absurd (Prod.mk.inj hsplit).1.symm hne
    | cons => simp

def mark : String := "> "

structure Transcript where
  stdout : String
  stderr : String
deriving DecidableEq, Inhabited

namespace Transcript

def append (first second : Transcript) : Transcript :=
  ⟨first.stdout ++ second.stdout, first.stderr ++ second.stderr⟩

def ask (t : Transcript) : Transcript :=
  { t with stdout := t.stdout ++ mark }

def finish (t : Transcript) (exitCode : Nat) (trouble : Option Trouble) : Outcome :=
  ⟨exitCode, t.stdout, t.stderr, trouble⟩

end Transcript

def reply (action : Action) (source : String) : Transcript :=
  let run := Run.ofSource source action
  let stderr := Diagnostic.listing run.diagnostics
  match run.result with
  | .ok output => ⟨output ++ "\n", stderr⟩
  | .error _ => ⟨"", stderr⟩

inductive Turn where
  | answer (reply : Transcript)
  | quit
  | notText

def turn (action : Action) (line : List UInt8) : Turn :=
  match String.fromUTF8? ⟨line.toArray⟩ with
  | none => .notText
  | some source => if source.isEmpty then .quit else .answer (reply action source)

/-- Asks for a line, answers it and asks again until the prompt ends. -/
def converse (action : Action) (written : Transcript) (input : List UInt8) : Outcome :=
  match _h : nextLine input with
  | none => written.ask.finish Outcome.success none
  | some (line, rest) =>
    match turn action line with
    | .notText => written.ask.finish Outcome.ioError (some .notText)
    | .quit => written.ask.finish Outcome.success none
    | .answer reply => converse action (written.ask.append reply) rest
termination_by input.length
decreasing_by exact length_lt_of_nextLine _h

def run (action : Action) (input : List UInt8) : Outcome :=
  converse action ⟨"", ""⟩ input

section

variable {action : Action} {written : Transcript} {input line rest : List UInt8}

theorem converse_of_end (h : nextLine input = none) :
    converse action written input = written.ask.finish Outcome.success none := by
  rw [converse]
  split <;> simp_all

theorem converse_of_line (h : nextLine input = some (line, rest)) :
    converse action written input =
      match turn action line with
      | .notText => written.ask.finish Outcome.ioError (some .notText)
      | .quit => written.ask.finish Outcome.success none
      | .answer reply => converse action (written.ask.append reply) rest := by
  rw [converse]
  split <;> simp_all

end

end Lox.Prompt
