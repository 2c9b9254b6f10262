import Lox.Command.Perform

/-!
# The prompt answers line by line

`Lines` says what the lines of an input are. The prompt does not see them all: it reads one, answers
it and goes on with the rest of the input. What it reads is the first line, and the lines of the
rest are the others (`Lines.nextLine_eq_some`). By induction on the lines it answers each of them on
its own, up to the first one that is empty or no text (`Hears.converse_eq`).
-/

namespace Lox.Prompt

/-- The lines of an input. A line feed ends a line, together with one carriage return directly in
front of it. What is behind the last line feed is a line unless it is empty. -/
inductive Lines : List UInt8 → List (List UInt8) → Prop
  | nil : Lines [] []
  | last {line : List UInt8} (hne : line ≠ []) (hfeed : lineFeed ∉ line) : Lines line [line]
  | feed {line rest : List UInt8} {lines : List (List UInt8)} (hfeed : lineFeed ∉ line)
      (hreturn : line.getLast? ≠ some carriageReturn) (hrest : Lines rest lines) :
      Lines (line ++ lineFeed :: rest) (line :: lines)
  | returnFeed {line rest : List UInt8} {lines : List (List UInt8)} (hfeed : lineFeed ∉ line)
      (hrest : Lines rest lines) :
      Lines (line ++ [carriageReturn] ++ lineFeed :: rest) (line :: lines)

/-- The bytes of the line are a text in UTF-8. -/
def IsText (line : List UInt8) : Prop :=
  (ByteArray.mk line.toArray).IsValidUTF8

instance (line : List UInt8) : Decidable (IsText line) :=
  inferInstanceAs (Decidable (ByteArray.mk line.toArray).IsValidUTF8)

def bytesOf (source : String) : List UInt8 :=
  source.toUTF8.data.toList

/-- The prompt ends at an empty line and at one that is no text. -/
def Stops (line : List UInt8) : Prop :=
  line = [] ∨ ¬ IsText line

instance (line : List UInt8) : Decidable (Stops line) :=
  inferInstanceAs (Decidable (line = [] ∨ ¬ IsText line))

/-- The lines of the input are the sources, at none of which the prompt ends, and those `behind`, of
which the first ends it. -/
structure Hears (input : List UInt8) (sources : List String) (behind : List (List UInt8)) :
    Prop where
  lines : Lines input (sources.map bytesOf ++ behind)
  nonempty : ∀ source ∈ sources, source ≠ ""
  stop : ∀ line ∈ behind.head?, Stops line

/-- What is shown of a run: the text it gives on a line of its own, if it gives one. -/
def shown (run : Run) : String :=
  match run.result with
  | .ok text => text ++ "\n"
  | .error _ => ""

/-- The outcome when these sources are answered, each by a run of its own, and then this line is
read, or none if the input is over. -/
def answers (action : Action) (sources : List String) (stop : Option (List UInt8)) : Outcome where
  exitCode := if ∀ line ∈ stop, IsText line then 0 else 1
  stdout :=
    String.join (sources.map fun source => "> " ++ shown (Run.ofSource source action)) ++ "> "
  stderr := String.join
    (sources.map fun source => Diagnostic.listing (Run.ofSource source action).diagnostics)
  trouble := if ∀ line ∈ stop, IsText line then none else some .notText

section

variable {line rest input : List UInt8} {lines lines' : List (List UInt8)}

theorem splitLine_of_not_mem (h : lineFeed ∉ line) : splitLine line = (line, none) := by
  induction line with
  | nil => rfl
  | cons b line ih =>
      obtain ⟨hb, hline⟩ := not_or.1 (mt List.mem_cons.2 h)
      rw [splitLine, if_neg (Ne.symm hb), ih hline]

theorem splitLine_append (h : lineFeed ∉ line) (rest : List UInt8) :
    splitLine (line ++ lineFeed :: rest) = (line, some rest) := by
  induction line with
  | nil => simp [splitLine]
  | cons b line ih =>
      obtain ⟨hb, hline⟩ := not_or.1 (mt List.mem_cons.2 h)
      rw [List.cons_append, splitLine, if_neg (Ne.symm hb), ih hline]

theorem nextLine_append (h : lineFeed ∉ line) (rest : List UInt8) :
    nextLine (line ++ lineFeed :: rest) = some (dropReturn line, rest) := by
  rw [nextLine, splitLine_append h]

theorem nextLine_of_not_mem (hne : line ≠ []) (h : lineFeed ∉ line) :
    nextLine line = some (line, []) := by
  rw [nextLine, splitLine_of_not_mem h]
  cases line with
  | nil => exact absurd rfl hne
  | cons => rfl

theorem dropReturn_of_ne (h : line.getLast? ≠ some carriageReturn) : dropReturn line = line :=
  if_neg h

theorem dropReturn_append_return (line : List UInt8) :
    dropReturn (line ++ [carriageReturn]) = line := by
  simp [dropReturn]

namespace Lines

theorem nextLine_eq_none (h : Lines input []) : nextLine input = none := by
  cases h
  rfl

theorem nextLine_eq_some (h : Lines input (line :: lines)) :
    ∃ rest, nextLine input = some (line, rest) ∧ Lines rest lines := by
  cases h with
  | last hne hfeed => exact ⟨[], nextLine_of_not_mem hne hfeed, .nil⟩
  | feed hfeed hreturn hrest =>
      exact ⟨_, by rw [nextLine_append hfeed, dropReturn_of_ne hreturn], hrest⟩
  | returnFeed hfeed hrest =>
      have hfeed' : lineFeed ∉ line ++ [carriageReturn] := by
        simpa [hfeed] using (by decide : lineFeed ≠ carriageReturn)
      exact ⟨_, by rw [nextLine_append hfeed', dropReturn_append_return], hrest⟩

-- A lone carriage return is a line, but an empty one with a line feed behind it.
example : nextLine [13] = some ([13], []) ∧ nextLine [13, 10] = some ([], []) := by decide

theorem unique (h : Lines input lines) (h' : Lines input lines') : lines' = lines := by
  induction lines generalizing input lines' with
  | nil =>
      cases lines' with
      | nil => rfl
      | cons line' lines' =>
          obtain ⟨rest, hnext, -⟩ := h'.nextLine_eq_some
          rw [h.nextLine_eq_none] at hnext
          cases hnext
  | cons line lines ih =>
      obtain ⟨rest, hnext, hrest⟩ := h.nextLine_eq_some
      cases lines' with
      | nil =>
          rw [h'.nextLine_eq_none] at hnext
          cases hnext
      | cons line' lines' =>
          obtain ⟨rest', hnext', hrest'⟩ := h'.nextLine_eq_some
          obtain ⟨rfl, rfl⟩ := Prod.mk.inj (Option.some.inj (hnext.symm.trans hnext'))
          rw [ih hrest hrest']

theorem ended_of_append (h : ∀ b ∈ (line ++ lineFeed :: rest).getLast?, b = lineFeed) :
    ∀ b ∈ rest.getLast?, b = lineFeed := by
  intro b hb
  apply h b
  rw [Option.mem_def] at hb ⊢
  rw [List.getLast?_append, List.getLast?_cons, hb]
  rfl

/-- Lines put behind an input whose last line is ended stay lines. -/
theorem append (h : Lines input lines) (hended : ∀ b ∈ input.getLast?, b = lineFeed)
    (h' : Lines rest lines') : Lines (input ++ rest) (lines ++ lines') := by
  induction h with
  | nil => exact h'
  | last hne hfeed =>
      -- Bytes put behind a line that is not ended would belong to it.
      rw [List.getLast?_eq_some_getLast hne] at hended
      have hlast := List.getLast_mem hne
      rw [hended _ rfl] at hlast
      exact absurd hlast hfeed
  | feed hfeed hreturn _ ih =>
      rw [List.append_assoc]
      exact .feed hfeed hreturn (ih (ended_of_append hended))
  | returnFeed hfeed _ ih =>
      rw [List.append_assoc]
      exact .returnFeed hfeed (ih (ended_of_append hended))

end Lines

theorem exists_lines (input : List UInt8) : ∃ lines, Lines input lines := by
  induction hlength : input.length using Nat.strongRecOn generalizing input with
  | _ length ih =>
      by_cases hmem : lineFeed ∈ input
      · obtain ⟨line, rest, rfl, hfeed⟩ := List.eq_append_cons_of_mem hmem
        have hlt : rest.length < length := by
          rw [← hlength, List.length_append, List.length_cons]
          omega
        obtain ⟨lines, hrest⟩ := ih rest.length hlt rest rfl
        by_cases hreturn : line.getLast? = some carriageReturn
        · obtain ⟨front, rfl⟩ := List.getLast?_eq_some_iff.1 hreturn
          exact ⟨_, .returnFeed (fun hfront => hfeed (List.mem_append_left _ hfront)) hrest⟩
        · exact ⟨_, .feed hfeed hreturn hrest⟩
      · by_cases hne : input = []
        · exact ⟨[], hne ▸ .nil⟩
        · exact ⟨[input], .last hne hmem⟩

end

section

variable {action : Action} {line input : List UInt8} {source : String}

theorem fromUTF8?_bytesOf (source : String) :
    String.fromUTF8? ⟨(bytesOf source).toArray⟩ = some source := by
  have hvalid : source.toUTF8.IsValidUTF8 := source.isValidUTF8
  have hbytes : ByteArray.mk (bytesOf source).toArray = source.toUTF8 := by
    simp [bytesOf]
  rw [hbytes, String.fromUTF8?, dif_pos hvalid]
  rfl

theorem isText_bytesOf (source : String) : IsText (bytesOf source) := by
  have hvalid : source.toUTF8.IsValidUTF8 := source.isValidUTF8
  simpa [IsText, bytesOf] using hvalid

theorem exists_source_of_isText (h : IsText line) : ∃ source, bytesOf source = line :=
  ⟨String.ofByteArray ⟨line.toArray⟩ h, by simp [bytesOf]⟩

theorem bytesOf_injective {source' : String} (h : bytesOf source = bytesOf source') :
    source = source' := by
  have hread := fromUTF8?_bytesOf source
  rw [h, fromUTF8?_bytesOf] at hread
  exact (Option.some.inj hread).symm

theorem bytesOf_ne_nil (h : source ≠ "") : bytesOf source ≠ [] := by
  intro hnil
  exact h (bytesOf_injective (hnil.trans rfl))

theorem not_stops_bytesOf (h : source ≠ "") : ¬ Stops (bytesOf source) := by
  rintro (hnil | htext)
  · exact bytesOf_ne_nil h hnil
  · exact htext (isText_bytesOf source)

theorem turn_bytesOf (action : Action) (h : source ≠ "") :
    turn action (bytesOf source) =
      .answer ⟨shown (Run.ofSource source action),
        Diagnostic.listing (Run.ofSource source action).diagnostics⟩ := by
  have hempty : ¬ source.isEmpty = true := by simpa using h
  simp only [turn, fromUTF8?_bytesOf, if_neg hempty, reply, shown]
  cases (Run.ofSource source action).result <;> rfl

theorem turn_nil (action : Action) : turn action [] = .quit := by
  have hread : String.fromUTF8? ⟨([] : List UInt8).toArray⟩ = some "" := fromUTF8?_bytesOf ""
  simp [turn, hread]

theorem turn_of_not_isText (action : Action) (h : ¬ IsText line) : turn action line = .notText := by
  have hread : String.fromUTF8? ⟨line.toArray⟩ = none := dif_neg h
  simp only [turn, hread]

end

section

variable {action : Action} {input front line : List UInt8} {sources sources' : List String}
  {behind behind' more : List (List UInt8)}

theorem exists_sources (lines : List (List UInt8)) :
    ∃ (sources : List String) (behind : List (List UInt8)),
      lines = sources.map bytesOf ++ behind ∧ (∀ source ∈ sources, source ≠ "") ∧
        ∀ line ∈ behind.head?, Stops line := by
  induction lines with
  | nil => exact ⟨[], [], rfl, by simp, by simp⟩
  | cons line lines ih =>
      by_cases hstop : Stops line
      · exact ⟨[], line :: lines, rfl, by simp, by simpa using hstop⟩
      · obtain ⟨hne, htext⟩ := not_or.1 hstop
        obtain ⟨source, rfl⟩ := exists_source_of_isText (Decidable.not_not.1 htext)
        obtain ⟨sources, behind, rfl, hsources, hbehind⟩ := ih
        have hsource : source ≠ "" := by
          rintro rfl
          exact hne rfl
        exact ⟨source :: sources, behind, rfl, List.forall_mem_cons.2 ⟨hsource, hsources⟩, hbehind⟩

theorem exists_hears (input : List UInt8) : ∃ sources behind, Hears input sources behind := by
  obtain ⟨lines, hlines⟩ := exists_lines input
  obtain ⟨sources, behind, rfl, hsources, hbehind⟩ := exists_sources lines
  exact ⟨sources, behind, hlines, hsources, hbehind⟩

namespace Hears

theorem unique (h : Hears input sources behind) (h' : Hears input sources' behind') :
    sources' = sources ∧ behind' = behind := by
  have hlines := h.lines.unique h'.lines
  obtain ⟨-, hsources, hstop⟩ := h
  obtain ⟨-, hsources', hstop'⟩ := h'
  induction sources generalizing sources' with
  | nil =>
      cases sources' with
      | nil => exact ⟨rfl, hlines⟩
      | cons source' sources' =>
          rw [List.map_nil, List.nil_append] at hlines
          subst hlines
          exact absurd (hstop _ rfl) (not_stops_bytesOf (hsources' _ List.mem_cons_self))
  | cons source sources ih =>
      cases sources' with
      | nil =>
          rw [List.map_nil, List.nil_append] at hlines
          subst hlines
          exact absurd (hstop' _ rfl) (not_stops_bytesOf (hsources _ List.mem_cons_self))
      | cons source' sources' =>
          obtain ⟨hhead, htail⟩ := List.cons.inj hlines
          obtain ⟨rfl, rfl⟩ := ih htail (List.forall_mem_cons.1 hsources).2
            (List.forall_mem_cons.1 hsources').2
          exact ⟨by rw [bytesOf_injective hhead], rfl⟩

/-- An ended input is heard in the same way with more input behind it, if it stops the prompt. -/
theorem append (h : Hears front sources (line :: more)) (hended : front.getLast? = some lineFeed)
    (rest : List UInt8) : ∃ more', Hears (front ++ rest) sources (line :: more') := by
  obtain ⟨lines, hlines⟩ := exists_lines rest
  have hended' : ∀ b ∈ front.getLast?, b = lineFeed := by
    simp [hended]
  have happend := h.lines.append hended' hlines
  rw [List.append_assoc] at happend
  exact ⟨more ++ lines, happend, h.nonempty, h.stop⟩

/-- The sources are answered one after the other, behind what is written already. -/
theorem converse_eq (h : Hears input sources behind) (written : Transcript) :
    converse action written input =
      { answers action sources behind.head? with
        stdout := written.stdout ++ (answers action sources behind.head?).stdout
        stderr := written.stderr ++ (answers action sources behind.head?).stderr } := by
  obtain ⟨hlines, hsources, hstop⟩ := h
  -- One source is answered in each round, so the induction is on them; what is written grows.
  induction sources generalizing written input with
  | nil =>
      cases behind with
      | nil =>
          rw [converse_of_end hlines.nextLine_eq_none]
          simp [answers, Transcript.finish, Transcript.ask, mark, Outcome.success]
      | cons line more =>
          obtain ⟨rest, hnext, -⟩ := Lines.nextLine_eq_some hlines
          rw [converse_of_line hnext]
          -- The two ways to stop write the same, but only one of them leaves trouble.
          by_cases htext : IsText line
          · have hline : line = [] := (hstop line rfl).resolve_right (Decidable.not_not.2 htext)
            subst hline
            simp [turn_nil, answers, htext, Transcript.finish, Transcript.ask, mark,
              Outcome.success]
          · simp [turn_of_not_isText action htext, answers, htext, Transcript.finish,
              Transcript.ask, mark, Outcome.ioError]
  | cons source sources ih =>
      obtain ⟨hsource, hsources⟩ := List.forall_mem_cons.1 hsources
      obtain ⟨rest, hnext, hrest⟩ := Lines.nextLine_eq_some hlines
      rw [converse_of_line hnext, turn_bytesOf action hsource]
      dsimp only
      rw [ih _ hrest hsources]
      simp [answers, Transcript.append, Transcript.ask, mark, String.append_assoc]

theorem run_eq (h : Hears input sources behind) :
    run action input = answers action sources behind.head? := by
  rw [run, h.converse_eq]
  simp

end Hears

end

/-- The prompt answers the lines of its input one by one, each as a source of its own, up to the
first that is empty or no text. What comes behind that line changes nothing. -/
theorem perform_prompt_eq_answers (printTree : Bool) (content : Option ByteArray)
    (input : List UInt8) :
    let action := Command.promptAction printTree
    let perform := (Command.prompt printTree).perform content
    (∃ sources behind, Hears input sources behind ∧
      (∀ sources' behind', Hears input sources' behind' → sources' = sources ∧ behind' = behind) ∧
      perform input = answers action sources behind.head?) ∧
    ∀ front rest sources line more, front.getLast? = some lineFeed →
      Hears front sources (line :: more) → perform (front ++ rest) = perform front := by
  intro action perform
  have hperform (input : List UInt8) : perform input = run action input := rfl
  constructor
  · obtain ⟨sources, behind, h⟩ := exists_hears input
    refine ⟨sources, behind, h, fun _ _ h' => h.unique h', ?_⟩
    rw [hperform, h.run_eq]
  · intro front rest sources line more hended h
    obtain ⟨more', h'⟩ := h.append hended rest
    calc perform (front ++ rest)
        = answers action sources (some line) := by rw [hperform, h'.run_eq, List.head?_cons]
      _ = perform front := by rw [hperform, h.run_eq, List.head?_cons]

end Lox.Prompt
