import Lox.Command.Perform
import Lox.Proofs.Reporting

/-!
# The commands on a file agree

Listing the tokens of a file, printing its tree and evaluating it announce themselves on a line of
their own and then go through the same stages, each with a loop or a report of its own. They stop at
the same stage with the same report: `Command.EndAlike` lists the four ways in which they end, and
`Command.Agree` is what follows for exit codes and for what is written.
-/

namespace Lox

namespace Text

def dropLine (text : String) : String :=
  String.ofList ((text.toList.dropWhile (· != '\n')).drop 1)

theorem dropLine_append {line : String} (h : '\n' ∉ line.toList) (rest : String) :
    dropLine (line ++ "\n" ++ rest) = rest := by
  have hdrop : (line.toList ++ '\n' :: rest.toList).dropWhile (· != '\n') =
      '\n' :: rest.toList := by
    rw [List.dropWhile_append_of_pos (Piece.bne_of_not_mem h),
      List.dropWhile_cons_of_neg (by decide)]
  simp [dropLine, hdrop]

theorem mem_toDigits {n : Nat} {c : Char} (h : c ∈ Nat.toDigits 16 n) :
    ∃ d < 16, c = Nat.digitChar d := by
  induction n using Nat.strongRecOn with
  | _ n ih =>
      by_cases hlt : n < 16
      · rw [Nat.toDigits_of_lt_base hlt, List.mem_singleton] at h
        exact ⟨n, hlt, h⟩
      · have hle := Nat.le_of_not_lt hlt
        rw [Nat.toDigits_of_base_le (by decide) hle, List.mem_append, List.mem_singleton] at h
        rcases h with h | h
        · exact ih (n / 16) (by omega) h
        · exact ⟨n % 16, Nat.mod_lt n (by decide), h⟩

theorem newline_not_mem_codePoint (c : Char) : '\n' ∉ codePoint c := by
  intro h
  simp only [codePoint, List.mem_append, List.mem_cons, List.not_mem_nil, or_false] at h
  rcases h with (h | h) | h
  · revert h
    decide
  · obtain ⟨d, hd, hc⟩ := mem_toDigits h
    have hdigits : ∀ d < 16, '\n' ≠ Nat.digitChar d := by decide
    exact hdigits d hd hc
  · revert h
    decide

theorem newline_not_mem_escape (c : Char) : '\n' ∉ escape .text c := by
  unfold escape
  split
  case h_6 _ _ _ hbreak _ _ =>
    have hne : '\n' ≠ c := fun heq => hbreak heq.symm
    split
    · simpa using hne
    · split
      · simpa using hne
      · exact newline_not_mem_codePoint c
  all_goals decide

theorem newline_not_mem_quote (text : String) : '\n' ∉ (quote .text text).toList := by
  have hmark : '\n' ≠ Quotes.text.mark := by decide
  have hescapes : '\n' ∉ text.toList.flatMap (escape .text) := by
    intro h
    obtain ⟨c, -, hc⟩ := List.mem_flatMap.1 h
    exact newline_not_mem_escape c hc
  simp [quote, hmark, hescapes]

theorem unlines_cons (text : String) (texts : List String) :
    unlines (text :: texts) = text ++ "\n" ++ unlines texts := by
  rw [unlines, List.map_cons, String.join_cons]
  rfl

theorem unlines_ne_empty {texts : List String} (h : texts ≠ []) : unlines texts ≠ "" := by
  obtain ⟨text, more, rfl⟩ := List.exists_cons_of_ne_nil h
  rw [unlines_cons]
  intro hempty
  have hlist := congrArg String.toList hempty
  simp at hlist

end Text

theorem Diagnostic.listing_ne_empty {ds : List Diagnostic} (h : ds ≠ []) : listing ds ≠ "" :=
  Text.unlines_ne_empty (by simpa using h)

theorem Tile.errors_items_eq_nil_iff (tiles : List Tile) (offset line : Nat) :
    (items offset line tiles).filterMap Scan.error? = [] ↔
      ∀ tile ∈ tiles, ∀ cause, tile.lexeme ≠ .refused cause := by
  induction tiles generalizing offset line with
  | nil => simp [items]
  | cons tile tiles ih =>
      have htile : (tile.item? offset line).toList.filterMap Scan.error? = [] ↔
          ∀ cause, tile.lexeme ≠ .refused cause := by
        cases hlexeme : tile.lexeme <;> simp [item?, hlexeme, Scan.error?]
      rw [items, List.filterMap_append, List.append_eq_nil_iff, htile, ih, List.forall_mem_cons]

/-- A source has an error exactly if one of its tiles is refused. -/
theorem Scan.errors_ne_nil_iff {source : String} :
    (ofSource source).errors ≠ [] ↔ ∃ tiles, Tiling source.toList tiles ∧
      ∃ tile ∈ tiles, ∃ cause, tile.lexeme = .refused cause := by
  have hiff {tiles : List Tile} (h : Tiling source.toList tiles) :
      (ofSource source).errors ≠ [] ↔ ∃ tile ∈ tiles, ∃ cause, tile.lexeme = .refused cause := by
    rw [errors_of_tiling h, Ne, Tile.errors_items_eq_nil_iff]
    simp
  constructor
  · intro herrors
    obtain ⟨tiles, htiling⟩ := exists_tiling_of_text source.toList
    exact ⟨tiles, htiling, (hiff htiling).1 herrors⟩
  · rintro ⟨tiles, htiling, hrefused⟩
    exact (hiff htiling).2 hrefused

def Outcome.unannounced (outcome : Outcome) : Outcome :=
  { outcome with stderr := Text.dropLine outcome.stderr }

namespace Command

variable {format : TokenFormat} {source path : String}

theorem foldl_add (format : TokenFormat) (items : List Item) (listing : Listing) :
    items.foldl (Listing.add format) listing =
      ⟨listing.stdout ++ Text.unlines ((Scan.ofItems items).tokens.map format.token),
        listing.stderr ++ Text.unlines ((Scan.ofItems items).errors.map format.error),
        listing.succeeded && !(Scan.ofItems items).hadError⟩ := by
  induction items generalizing listing with
  | nil => simp [Scan.ofItems, Scan.hadError]
  | cons item items ih =>
      rw [List.foldl_cons, ih]
      cases item with
      | ok t =>
          simp only [Listing.add, Scan.ofItems_ok, List.map_cons, Text.unlines_cons,
            String.append_assoc]
          rfl
      | error e =>
          simp only [Listing.add, Scan.ofItems_error, List.map_cons, Text.unlines_cons,
            String.append_assoc, Scan.hadError]
          simp

/-- Listing the items of a source one by one writes its tokens and its errors, each in order. -/
theorem tokenizeSource_eq (format : TokenFormat) (source : String) :
    tokenizeSource format source =
      ⟨if (Scan.ofSource source).hadError then Outcome.dataError else Outcome.success,
        Text.unlines ((Scan.ofSource source).tokens.map format.token),
        Text.unlines ((Scan.ofSource source).errors.map format.error), none⟩ := by
  have hscan : Scan.ofItems (Scanner.ofSource source).items = Scan.ofSource source := rfl
  rw [tokenizeSource, Scanner.fold_eq_foldl, foldl_add, hscan]
  cases (Scan.ofSource source).hadError <;> simp

section

variable (h : (Scan.ofSource source).errors = [])

include h

theorem tokenizeSource_of_no_error :
    tokenizeSource .basic source =
      ⟨Outcome.success, Text.unlines ((Scan.ofSource source).tokens.map Token.text), "", none⟩ := by
  rw [tokenizeSource_eq, Scan.hadError_eq_false_iff.2 h, h]
  rfl

theorem parseSource_of_no_error (format : ExprFormat) :
    parseSource format source =
      match (Cursor.ofTokens (Scan.ofSource source).tokens).parse.1 with
      | .ok e => ⟨Outcome.success, Text.unlines [format.expr e], "", none⟩
      | .error error => ⟨Outcome.dataError, "", Diagnostic.listing [error.diagnostic], none⟩ := by
  simp only [parseSource, Scan.hadError_eq_false_iff.2 h, Bool.false_eq_true, if_false,
    Cursor.parseRecovering]
  rcases (Cursor.ofTokens (Scan.ofSource source).tokens).parse with ⟨_ | _, _⟩ <;> rfl

end

theorem tokenizeSource_of_error (h : (Scan.ofSource source).errors ≠ []) :
    tokenizeSource .basic source =
      ⟨Outcome.dataError, Text.unlines ((Scan.ofSource source).tokens.map Token.text),
        Diagnostic.listing (Scan.ofSource source).diagnostics, none⟩ := by
  rw [tokenizeSource_eq, Scan.hadError_iff.2 h, Diagnostic.listing, Scan.diagnostics, List.map_map]
  rfl

theorem parseSource_of_error (h : (Scan.ofSource source).errors ≠ []) (format : ExprFormat) :
    parseSource format source =
      ⟨Outcome.dataError, "", Diagnostic.listing (Scan.ofSource source).diagnostics, none⟩ := by
  simp only [parseSource, Scan.hadError_iff.2 h, if_true]

theorem evaluateSource_plain (path source : String) :
    evaluateSource path false source =
      match (Run.ofSource source .evaluate).result with
      | .ok value => ⟨Outcome.success, Text.unlines [value],
          Diagnostic.listing (Run.ofSource source .evaluate).diagnostics, none⟩
      | .error failure => ⟨failureCode failure, "",
          Diagnostic.listing (Run.ofSource source .evaluate).diagnostics, none⟩ := rfl

/-- How the listing of a source, its tree and its value end together, apart from what is
announced. -/
inductive EndAlike (source : String) : Outcome → Outcome → Outcome → Prop
  | lexical (h : (Scan.ofSource source).errors ≠ []) (listing : String) {report : String}
      (hreport : report ≠ "") :
      EndAlike source ⟨Outcome.dataError, listing, report, none⟩
        ⟨Outcome.dataError, "", report, none⟩ ⟨Outcome.dataError, "", report, none⟩
  | syntactic (h : (Scan.ofSource source).errors = []) (listing : String) {report : String}
      (hreport : report ≠ "") :
      EndAlike source ⟨Outcome.success, listing, "", none⟩
        ⟨Outcome.dataError, "", report, none⟩ ⟨Outcome.dataError, "", report, none⟩
  | runtime (h : (Scan.ofSource source).errors = []) (listing tree : String) {report : String}
      (hreport : report ≠ "") :
      EndAlike source ⟨Outcome.success, listing, "", none⟩ ⟨Outcome.success, tree, "", none⟩
        ⟨Outcome.softwareError, "", report, none⟩
  | success (h : (Scan.ofSource source).errors = []) (listing tree : String) {value : String}
      (hvalue : value ≠ "") :
      EndAlike source ⟨Outcome.success, listing, "", none⟩ ⟨Outcome.success, tree, "", none⟩
        ⟨Outcome.success, value, "", none⟩

/-- Each command ends at the stage at which the run of the source ends. -/
theorem endAlike_sources (format : ExprFormat) (path source : String) :
    EndAlike source (tokenizeSource .basic source) (parseSource format source)
      (evaluateSource path false source) := by
  have hends := Run.ends_ofSource source .evaluate
  rw [evaluateSource_plain]
  generalize Run.ofSource source .evaluate = run at hends
  cases hends with
  | lexical _ h =>
      have hreport : (Scan.ofSource source).diagnostics ≠ [] := by simpa [Scan.diagnostics] using h
      rw [tokenizeSource_of_error h, parseSource_of_error h]
      exact .lexical h _ (Diagnostic.listing_ne_empty hreport)
  | syntactic _ h hparse =>
      rw [tokenizeSource_of_no_error h, parseSource_of_no_error h, hparse]
      exact .syntactic h _ (Diagnostic.listing_ne_empty (List.cons_ne_nil _ _))
  | evaluated h hparse =>
      rw [tokenizeSource_of_no_error h, parseSource_of_no_error h, hparse]
      exact .success h _ _ (Text.unlines_ne_empty (List.cons_ne_nil _ _))
  | runtime h hparse =>
      rw [tokenizeSource_of_no_error h, parseSource_of_no_error h, hparse]
      exact .runtime h _ _ (Diagnostic.listing_ne_empty (List.cons_ne_nil _ _))

/-- Outcomes of listing, printing and evaluating a source, without their announcements, that agree
on whether it is `faulty`. -/
structure Agree (faulty : Prop) (tokenized parsed evaluated : Outcome) : Prop where
  tokenized_fails_iff : tokenized.exitCode = 65 ↔ faulty
  of_faulty : faulty → parsed.exitCode = 65 ∧ evaluated.exitCode = 65 ∧
    parsed.stdout = "" ∧ evaluated.stdout = "" ∧
    parsed.stderr = tokenized.stderr ∧ evaluated.stderr = tokenized.stderr
  tokenized_of_not_faulty : ¬ faulty → tokenized.exitCode = 0 ∧ tokenized.stderr = ""
  parsed_fails_iff : ¬ faulty → (parsed.exitCode = 65 ↔ evaluated.exitCode = 65)
  of_parsed_fails : ¬ faulty → parsed.exitCode = 65 →
    parsed.stderr = evaluated.stderr ∧ parsed.stdout = "" ∧ evaluated.stdout = ""
  parsed_succeeds_iff : ¬ faulty → (parsed.exitCode = 0 ∧ parsed.stderr = "" ↔
    evaluated.exitCode = 0 ∨ evaluated.exitCode = 70)
  stdout_iff : evaluated.stdout ≠ "" ↔ evaluated.exitCode = 0
  stderr_iff : evaluated.stderr ≠ "" ↔ evaluated.exitCode = 65 ∨ evaluated.exitCode = 70
  no_trouble : tokenized.trouble = none ∧ parsed.trouble = none ∧ evaluated.trouble = none

theorem EndAlike.agree {tokenized parsed evaluated : Outcome}
    (h : EndAlike source tokenized parsed evaluated) :
    Agree ((Scan.ofSource source).errors ≠ []) tokenized parsed evaluated := by
  -- Each way to end fixes the exit codes and which of the texts are empty.
  cases h <;> constructor <;> simp_all [Outcome.success, Outcome.dataError, Outcome.softwareError]

theorem progress_append {activity : String} (hactivity : '\n' ∉ activity.toList)
    (path rest : String) : Text.dropLine (progress activity path ++ rest) = rest := by
  have hline : '\n' ∉ (activity ++ " " ++ Text.quote .text path ++ "...").toList := by
    simp [hactivity, Text.newline_not_mem_quote]
  have hprogress : progress activity path =
      activity ++ " " ++ Text.quote .text path ++ "..." ++ "\n" := by
    simp [progress, String.append_assoc]
  rw [hprogress, Text.dropLine_append hline]

theorem withFile_text (activity path source : String) (work : String → Outcome) :
    withFile activity path (some source.toUTF8) work =
      { work source with stderr := progress activity path ++ (work source).stderr } := by
  have hread : String.fromUTF8? source.toUTF8 = some source := by
    have hvalid : source.toUTF8.IsValidUTF8 := source.isValidUTF8
    rw [String.fromUTF8?, dif_pos hvalid]
    rfl
  simp only [withFile, hread]

/-- Behind its announcement, a command on a readable text ends as its work on the text does. -/
theorem unannounced_withFile {activity : String} (hactivity : '\n' ∉ activity.toList)
    (path source : String) (work : String → Outcome) :
    (withFile activity path (some source.toUTF8) work).unannounced = work source := by
  rw [withFile_text, Outcome.unannounced, progress_append hactivity]

/-- The commands on a readable file announce themselves on the first line of standard error. Behind
it they agree on whether a piece of the file is refused, on whether its tokens are an expression and
on what is wrong with it. -/
theorem file_commands_agree (path source : String) (format : ExprFormat) (input : List UInt8) :
    let tokenized := (tokenize path .basic).perform (some source.toUTF8) input
    let parsed := (parse path format).perform (some source.toUTF8) input
    let evaluated := (evaluate path false).perform (some source.toUTF8) input
    tokenized.stderr = progress "Tokenizing" path ++ tokenized.unannounced.stderr ∧
      parsed.stderr = progress "Parsing" path ++ parsed.unannounced.stderr ∧
      evaluated.stderr = progress "Evaluating" path ++ evaluated.unannounced.stderr ∧
      Agree (∃ tiles, Tiling source.toList tiles ∧
          ∃ tile ∈ tiles, ∃ cause, tile.lexeme = .refused cause)
        tokenized.unannounced parsed.unannounced evaluated.unannounced := by
  intro tokenized parsed evaluated
  have htokenized : tokenized.unannounced = tokenizeSource .basic source :=
    unannounced_withFile (by decide) ..
  have hparsed : parsed.unannounced = parseSource format source :=
    unannounced_withFile (by decide) ..
  have hevaluated : evaluated.unannounced = evaluateSource path false source :=
    unannounced_withFile (by decide) ..
  rw [htokenized, hparsed, hevaluated]
  refine ⟨?_, ?_, ?_, ?_⟩
  · exact congrArg Outcome.stderr (withFile_text ..)
  · exact congrArg Outcome.stderr (withFile_text ..)
  · exact congrArg Outcome.stderr (withFile_text ..)
  · rw [← Scan.errors_ne_nil_iff]
    exact (endAlike_sources format path source).agree

end Command
end Lox
