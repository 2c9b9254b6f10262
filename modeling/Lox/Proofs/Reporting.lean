import Lox.Proofs.LayoutIndependence
import Lox.Session

/-!
# Every failure is reported once

A session hands its log from event to event and from stage to stage of a run. What an event adds to
it, and what it answers, does not depend on what the log holds: it is what the event adds and
answers in a session of its own (`perform_eq`). Of a single run the diagnostics account for the
result: there are none if it succeeds, one for each lexical error if there are any, and otherwise
the one error that stopped the reading or the evaluation.
-/

namespace Lox

namespace Diagnostic

theorem listing_flatMap {α : Type} (f : α → List Diagnostic) (as : List α) :
    listing (as.flatMap f) = String.join (as.map fun a => listing (f a)) := by
  induction as with
  | nil => rfl
  | cons a as ih => rw [List.flatMap_cons, listing_append, ih, List.map_cons, String.join_cons]

end Diagnostic

namespace Scan

theorem ofItems_ok (t : Token) (items : List Item) :
    ofItems (.ok t :: items) = ⟨t :: (ofItems items).tokens, (ofItems items).errors⟩ := rfl

theorem ofItems_error (e : LexError) (items : List Item) :
    ofItems (.error e :: items) = ⟨(ofItems items).tokens, e :: (ofItems items).errors⟩ := rfl

theorem hadError_iff {scan : Scan} : scan.hadError = true ↔ scan.errors ≠ [] := by
  simp [hadError]

theorem hadError_eq_false_iff {scan : Scan} : scan.hadError = false ↔ scan.errors = [] := by
  simp [hadError]

theorem errors_of_tiling {source : String} {tiles : List Tile} (h : Tiling source.toList tiles) :
    (ofSource source).errors = (Tile.items 0 1 tiles).filterMap error? := by
  simp only [ofSource, Scanner.ofSource, h.items_eq, ofItems, List.filterMap_append]
  exact List.append_nil _

end Scan

namespace Session

theorem foldl_add (items : List Item) (scan : Scanning) :
    let final := items.foldl Scanning.add scan
    final.tokens.toList = scan.tokens.toList ++ (Scan.ofItems items).tokens ∧
      final.hadError = (scan.hadError || (Scan.ofItems items).hadError) ∧
      final.session.log = scan.session.log ++ (Scan.ofItems items).diagnostics := by
  induction items generalizing scan with
  | nil => simp [Scan.ofItems, Scan.hadError, Scan.diagnostics]
  | cons item items ih =>
      obtain ⟨htokens, herror, hlog⟩ := ih (scan.add item)
      rw [List.foldl_cons]
      cases item with
      | ok t =>
          refine ⟨?_, herror, hlog⟩
          rw [htokens, Scan.ofItems_ok, Scanning.add, Array.toList_push, List.append_assoc]
          rfl
      | error e =>
          refine ⟨htokens, ?_, ?_⟩
          · rw [herror]
            simp [Scanning.add, Scan.ofItems_error, Scan.hadError]
          · rw [hlog]
            simp [Scanning.add, report, Scan.ofItems_error, Scan.diagnostics]

/-- Reporting errors one by one while a source is scanned adds those of the scan to the log. -/
theorem scan_eq (s : Session) (source : String) :
    (s.scan source).tokens.toList = (Scan.ofSource source).tokens ∧
      (s.scan source).hadError = (Scan.ofSource source).hadError ∧
      (s.scan source).session = ⟨s.log ++ (Scan.ofSource source).diagnostics⟩ := by
  obtain ⟨htokens, herror, hlog⟩ := foldl_add (Scanner.ofSource source).items ⟨#[], false, s⟩
  rw [scan, Scanner.fold_eq_foldl]
  exact ⟨htokens, herror, congrArg Session.mk hlog⟩

theorem parse_eq (s : Session) (ts : List Token) :
    s.parse ts = match (Cursor.ofTokens ts).parse.1 with
      | .ok e => (some e, s)
      | .error error => (none, s.report error.diagnostic) := by
  rw [parse, Cursor.parseRecovering]
  rcases (Cursor.ofTokens ts).parse with ⟨_ | _, _⟩ <;> rfl

theorem evaluate_eq (s : Session) (e : Expr) :
    s.evaluate e =
      ((Run.ofExpr e .evaluate).result, ⟨s.log ++ (Run.ofExpr e .evaluate).diagnostics⟩) := by
  rw [evaluate, Run.ofExpr]
  cases e.eval with
  | ok v => rw [List.append_nil]
  | error error => rfl

/-- A run in a session answers what the run by itself answers, and adds its diagnostics. -/
theorem run_eq (s : Session) (source : String) (action : Action) :
    s.run source action = ((Run.ofSource source action).result,
      ⟨s.log ++ (Run.ofSource source action).diagnostics⟩) := by
  obtain ⟨htokens, herror, hsession⟩ := scan_eq s source
  rw [run, htokens, herror, hsession]
  cases hscan : (Scan.ofSource source).hadError with
  | true => simp [Run.ofSource, hscan]
  | false =>
      have hnone : (Scan.ofSource source).diagnostics = [] := by
        rw [Scan.diagnostics, Scan.hadError_eq_false_iff.1 hscan, List.map_nil]
      rw [Run.ofSource_of_not_hadError hscan, Run.ofTokens_eq, hnone, List.append_nil, parse_eq]
      cases (Cursor.ofTokens (Scan.ofSource source).tokens).parse.1 with
      | error error => rfl
      | ok e =>
          cases action with
          | print => simp [Run.ofExpr]
          | evaluate => exact evaluate_eq s e

/-- What an event answers and adds is what it answers and adds in a session of its own. -/
theorem perform_eq (s : Session) (event : Event) :
    s.perform event = ((perform {} event).1, ⟨s.log ++ (perform {} event).2.log⟩) := by
  cases event with
  | run source action => simp [perform, run_eq]
  | report d => simp [perform, report]

theorem performAll_eq (s : Session) (events : List Event) :
    s.performAll events = (events.map fun event => (perform {} event).1,
      ⟨s.log ++ events.flatMap fun event => (perform {} event).2.log⟩) := by
  induction events generalizing s with
  | nil => simp [performAll]
  | cons event events ih =>
      rw [performAll, perform_eq]
      simp [ih]

end Session

namespace Run

/-- How a run can end: at the first stage that fails, with the diagnostics of that stage, or with a
text and none. -/
inductive Ends (source : String) : Action → Run → Prop
  | lexical (action : Action) (h : (Scan.ofSource source).errors ≠ []) :
      Ends source action ⟨.error .lexical, (Scan.ofSource source).diagnostics⟩
  | syntactic (action : Action) {error : ParseError} (hscan : (Scan.ofSource source).errors = [])
      (hparse : (Cursor.ofTokens (Scan.ofSource source).tokens).parse.1 = .error error) :
      Ends source action ⟨.error .syntactic, [error.diagnostic]⟩
  | printed {e : Expr} (hscan : (Scan.ofSource source).errors = [])
      (hparse : (Cursor.ofTokens (Scan.ofSource source).tokens).parse.1 = .ok e) :
      Ends source .print ⟨.ok e.text, []⟩
  | evaluated {e : Expr} {v : Value} (hscan : (Scan.ofSource source).errors = [])
      (hparse : (Cursor.ofTokens (Scan.ofSource source).tokens).parse.1 = .ok e)
      (heval : e.eval = .ok v) : Ends source .evaluate ⟨.ok v.text, []⟩
  | runtime {e : Expr} {error : RuntimeError} (hscan : (Scan.ofSource source).errors = [])
      (hparse : (Cursor.ofTokens (Scan.ofSource source).tokens).parse.1 = .ok e)
      (heval : e.eval = .error error) : Ends source .evaluate ⟨.error .runtime, [error.diagnostic]⟩

theorem ends_ofSource (source : String) (action : Action) :
    Ends source action (ofSource source action) := by
  cases hscan : (Scan.ofSource source).hadError with
  | true =>
      have hrun : ofSource source action =
          ⟨.error .lexical, (Scan.ofSource source).diagnostics⟩ := by
        simp [ofSource, hscan]
      rw [hrun]
      exact .lexical action (Scan.hadError_iff.1 hscan)
  | false =>
      have hnone := Scan.hadError_eq_false_iff.1 hscan
      rw [ofSource_of_not_hadError hscan, ofTokens_eq]
      cases hparse : (Cursor.ofTokens (Scan.ofSource source).tokens).parse.1 with
      | error error => exact .syntactic action hnone hparse
      | ok e =>
          cases action with
          | print => exact .printed hnone hparse
          | evaluate =>
              simp only [ofExpr]
              cases heval : e.eval with
              | ok v => exact .evaluated hnone hparse heval
              | error error => exact .runtime hnone hparse heval

namespace Ends

variable {source : String} {action : Action} {run : Run}

theorem ok_iff (h : Ends source action run) :
    (∃ text, run.result = .ok text) ↔ run.diagnostics = [] := by
  cases h with
  | lexical _ herrors => simp [Scan.diagnostics, herrors]
  | syntactic | runtime => simp
  | printed | evaluated => simp

theorem lexical_iff (h : Ends source action run) :
    run.result = .error .lexical ↔ (Scan.ofSource source).errors ≠ [] := by
  cases h with
  | lexical _ herrors => simp [herrors]
  | syntactic _ hscan | printed hscan | evaluated hscan | runtime hscan => simp [hscan]

theorem diagnostics_of_lexical (h : Ends source action run)
    (hlexical : run.result = .error .lexical) :
    run.diagnostics = (Scan.ofSource source).diagnostics := by
  cases h with
  | lexical => rfl
  | syntactic | printed | evaluated | runtime => cases hlexical

theorem syntactic_iff (h : Ends source action run) :
    run.result = .error .syntactic ↔ (Scan.ofSource source).errors = [] ∧
      ∃ error, (Cursor.ofTokens (Scan.ofSource source).tokens).parse.1 = .error error ∧
        run.diagnostics = [error.diagnostic] := by
  cases h with
  | lexical _ herrors => simp [herrors]
  | syntactic _ hscan hparse => simp [hscan, hparse]
  | printed _ hparse | evaluated _ hparse | runtime _ hparse => simp [hparse]

theorem runtime_iff (h : Ends source action run) :
    run.result = .error .runtime ↔ (Scan.ofSource source).errors = [] ∧ action = .evaluate ∧
      ∃ e error, (Cursor.ofTokens (Scan.ofSource source).tokens).parse.1 = .ok e ∧
        e.eval = .error error ∧ run.diagnostics = [error.diagnostic] := by
  cases h with
  | lexical _ herrors => simp [herrors]
  | syntactic _ _ hparse => simp [hparse]
  | printed => simp
  | evaluated _ hparse heval => simp_all
  | runtime hscan hparse heval => simp [hscan, hparse, heval]

/-- A run that fails before anything is evaluated ends the same way whatever is to be done with the
expression. -/
theorem eq_of_error {action' : Action} {run' : Run} {failure : Failure}
    (h : Ends source action run) (h' : Ends source action' run')
    (hfailure : run.result = .error failure) (hruntime : failure ≠ .runtime) : run' = run := by
  cases h with
  | lexical _ herrors =>
      cases h' with
      | lexical => rfl
      | syntactic _ hscan | printed hscan | evaluated hscan | runtime hscan =>
          exact absurd hscan herrors
  | syntactic _ hscan hparse =>
      cases h' with
      | lexical _ herrors => exact absurd hscan herrors
      | syntactic _ _ hparse' =>
          obtain rfl := Except.error.inj (hparse.symm.trans hparse')
          rfl
      | printed _ hparse' | evaluated _ hparse' | runtime _ hparse' =>
          cases hparse.symm.trans hparse'
  | printed | evaluated => cases hfailure
  | runtime =>
      cases hfailure
      exact absurd rfl hruntime

end Ends
end Run

namespace Session

/-- The log that a run leaves in a session of its own accounts for its result. The tiles are those
of the source. -/
structure Accounted (source : String) (tiles : List Tile) (action : Action)
    (run : Except Failure String × Session) : Prop where
  ok_iff : (∃ text, run.1 = .ok text) ↔ run.2.log = []
  lexical_iff : run.1 = .error .lexical ↔ (Tile.items 0 1 tiles).filterMap Scan.error? ≠ []
  lexical_log : run.1 = .error .lexical →
    run.2.log = ((Tile.items 0 1 tiles).filterMap Scan.error?).map fun error =>
      ⟨error.line, error.message, some error.span⟩
  syntactic_iff : run.1 = .error .syntactic ↔
    (Tile.items 0 1 tiles).filterMap Scan.error? = [] ∧
      ∃ error, (Cursor.ofTokens (Scan.ofSource source).tokens).parse.1 = .error error ∧
        run.2.log = [⟨error.line, error.message, some error.token.span⟩]
  runtime_iff : run.1 = .error .runtime ↔
    (Tile.items 0 1 tiles).filterMap Scan.error? = [] ∧ action = .evaluate ∧
      ∃ e error, (Cursor.ofTokens (Scan.ofSource source).tokens).parse.1 = .ok e ∧
        e.eval = .error error ∧
        run.2.log = [⟨error.line, error.message, some error.token.span⟩]

theorem accounted_run {source : String} {tiles : List Tile} (htiling : Tiling source.toList tiles)
    (action : Action) : Accounted source tiles action (run {} source action) := by
  have hends := Run.ends_ofSource source action
  have herrors := Scan.errors_of_tiling htiling
  rw [run_eq]
  constructor
  · exact hends.ok_iff
  · rw [← herrors]
    exact hends.lexical_iff
  · rw [← herrors]
    exact hends.diagnostics_of_lexical
  · rw [← herrors]
    exact hends.syntactic_iff
  · rw [← herrors]
    exact hends.runtime_iff

/-- In a session, every event answers what it answers in a session of its own, the log is what the
events leave there one after the other, and so is its text. The log of a single run accounts for its
result; a run that only prints never fails in evaluation, and before that stage printing and
evaluating fail alike, with the same log. -/
theorem performAll_isolated_and_accounted (events : List Event) :
    (performAll {} events).1 = events.map (fun event => (perform {} event).1) ∧
      (performAll {} events).2.log = events.flatMap (fun event => (perform {} event).2.log) ∧
      (performAll {} events).2.listing =
        String.join (events.map fun event => (perform {} event).2.listing) ∧
      ∀ source action,
        perform {} (.run source action) =
          (some (run {} source action).1, (run {} source action).2) ∧
        (∃ tiles, Tiling source.toList tiles ∧
          Accounted source tiles action (run {} source action)) ∧
        (run {} source .print).1 ≠ .error .runtime ∧
        ∀ failure, failure = .lexical ∨ failure = .syntactic →
          ((run {} source .print).1 = .error failure ↔
            (run {} source .evaluate).1 = .error failure) ∧
          ((run {} source .print).1 = .error failure →
            (run {} source .print).2.log = (run {} source .evaluate).2.log) := by
  have hall := performAll_eq {} events
  refine ⟨by rw [hall], by rw [hall]; rfl, ?_, fun source action => ⟨rfl, ?_, ?_, ?_⟩⟩
  · rw [hall, listing]
    exact Diagnostic.listing_flatMap _ events
  · obtain ⟨tiles, htiling⟩ := exists_tiling_of_text source.toList
    exact ⟨tiles, htiling, accounted_run htiling action⟩
  · intro hruntime
    rw [run_eq] at hruntime
    exact absurd ((Run.ends_ofSource source .print).runtime_iff.1 hruntime).2.1 (by decide)
  · intro failure hfailure
    have hprint := Run.ends_ofSource source .print
    have hevaluate := Run.ends_ofSource source .evaluate
    have hruntime : failure ≠ .runtime := by
      rcases hfailure with rfl | rfl <;> decide
    simp only [run_eq]
    refine ⟨⟨fun h => ?_, fun h => ?_⟩, fun h => ?_⟩
    · rw [hprint.eq_of_error hevaluate h hruntime, h]
    · rw [hevaluate.eq_of_error hprint h hruntime, h]
    · rw [hprint.eq_of_error hevaluate h hruntime]

end Session
end Lox
