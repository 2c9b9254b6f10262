import Mathlib.Data.List.Forall2
import Lox.Proofs.Contents
import Lox.Proofs.CorrectPrefix
import Lox.Proofs.Correspondence
import Lox.Run

/-!
# Layout does not influence a run

Reading depends on the kinds and the literals of the tokens. Of two lists whose tokens are related
one by one, by a relation that keeps these, corresponding trees are read, or both readings meet the
same obstacle in front of related tokens. The induction is on the room for nesting, as the readers
recurse. With tokens related by their index, two sources that differ in layout only therefore run
alike, and what is reported differs in positions only.
-/

namespace Lox

/-- Related tokens cannot be told apart when an expression is read. -/
structure Token.ReadAlike (R : Token → Token → Prop) : Prop where
  kind_eq {t u : Token} (h : R t u) : t.kind = u.kind
  literal_eq {t u : Token} (h : R t u) : t.literal = u.literal

namespace Grammar

/-- Corresponding trees, or the same obstacle, in front of related tokens. -/
def Alike (R : Token → Token → Prop) : Outcome → Outcome → Prop :=
  Together (fun stop stop' => stop.1 = stop'.1 ∧ List.Forall₂ R stop.2 stop'.2)
    (fun found found' => found.1.Corresponds (· = ·) R found'.1 ∧ List.Forall₂ R found.2 found'.2)

variable {R : Token → Token → Prop} {t u : Token} {ts us : List Token} {e f : Expr} {room : Nat}
  {tier : Tier}

theorem alike_ok (he : e.Corresponds (· = ·) R f) (hts : List.Forall₂ R ts us) :
    Alike R (.ok (e, ts)) (.ok (f, us)) :=
  .ok ⟨he, hts⟩

theorem alike_error (obstacle : Obstacle) (hts : List.Forall₂ R ts us) :
    Alike R (.error (obstacle, ts)) (.error (obstacle, us)) :=
  .error ⟨rfl, hts⟩

theorem alike_andThen {first first' : Outcome} {next next' : Expr → List Token → Outcome}
    (h : Alike R first first')
    (hnext : ∀ e f ts us, e.Corresponds (· = ·) R f → List.Forall₂ R ts us →
      Alike R (next e ts) (next' f us)) :
    Alike R (andThen first next) (andThen first' next') := by
  cases h with
  | ok h => exact hnext _ _ _ _ h.1 h.2
  | error h => exact .error h

def ReadsAlike (R : Token → Token → Prop) (reader : List Token → Outcome) : Prop :=
  ∀ ts us, List.Forall₂ R ts us → Alike R (reader ts) (reader us)

def ChainsAlike (R : Token → Token → Prop) (room : Nat) : Prop :=
  ∀ tier e f ts us, e.Corresponds (· = ·) R f → List.Forall₂ R ts us →
    Alike R (chain room tier e ts) (chain room tier f us)

theorem alike_climb (hunary : ReadsAlike R (unary room)) (hchain : ChainsAlike R room)
    (tiers : List Tier) : ReadsAlike R (climb (unary room) (chain room) tiers) := by
  intro ts us hts
  -- the fold carries the outcome read so far, so the induction takes any two outcomes alike
  have hfold : ∀ first first', Alike R first first' →
      Alike R (tiers.foldl (fun first tier => andThen first (chain room tier)) first)
        (tiers.foldl (fun first tier => andThen first (chain room tier)) first') := by
    induction tiers with
    | nil => exact fun _ _ h => h
    | cons tier tiers ih =>
        intro first first' h
        exact ih _ _ (alike_andThen h (hchain tier))
  exact hfold _ _ (hunary ts us hts)

theorem alike_leaf (hR : Token.ReadAlike R) (ht : R t u) (hts : List.Forall₂ R ts us) :
    Alike R (leaf t ts) (leaf u us) := by
  have hleaf : leaf? u = leaf? t := by
    rw [leaf?, leaf?, hR.kind_eq ht, hR.literal_eq ht]
  rw [leaf, leaf, hleaf]
  cases leaf? t with
  | some v => exact alike_ok (.literal rfl) hts
  | none => exact alike_error _ (.cons ht hts)

theorem alike_closeGroup (hR : Token.ReadAlike R) (he : e.Corresponds (· = ·) R f)
    (hts : List.Forall₂ R ts us) : Alike R (closeGroup e ts) (closeGroup f us) := by
  cases hts with
  | nil => exact alike_error _ .nil
  | @cons t u ts us ht hts =>
      by_cases hclose : t.kind = .symbol .rightParen
      · rw [closeGroup, closeGroup, if_pos hclose, if_pos ((hR.kind_eq ht).symm.trans hclose)]
        exact alike_ok (.group he) hts
      · have hclose' : u.kind ≠ .symbol .rightParen := by rwa [← hR.kind_eq ht]
        rw [closeGroup, closeGroup, if_neg hclose, if_neg hclose']
        exact alike_error _ (.cons ht hts)

/-- Unary operators and parentheses are what a reading of unary expressions goes into. -/
theorem readsAlike_unary_of (hR : Token.ReadAlike R)
    (hunary : ∀ op t u ts us, UnaryOp.ofKind? t.kind = some op → UnaryOp.ofKind? u.kind = some op →
      R t u → List.Forall₂ R ts us → Alike R (unary room (t :: ts)) (unary room (u :: us)))
    (hgroup : ∀ t u ts us, t.kind = .symbol .leftParen → u.kind = .symbol .leftParen →
      R t u → List.Forall₂ R ts us → Alike R (unary room (t :: ts)) (unary room (u :: us))) :
    ReadsAlike R (unary room) := by
  intro ts us hts
  cases hts with
  | nil =>
      rw [unary_nil]
      exact alike_error _ .nil
  | @cons t u ts us ht hts =>
      have hkind := hR.kind_eq ht
      cases hop : UnaryOp.ofKind? t.kind with
      | some op => exact hunary op t u ts us hop (by rwa [← hkind]) ht hts
      | none =>
          by_cases hopen : t.kind = .symbol .leftParen
          · exact hgroup t u ts us hopen (by rwa [← hkind]) ht hts
          · rw [unary_of_leaf hop hopen, unary_of_leaf (by rwa [← hkind]) (by rwa [← hkind])]
            exact alike_leaf hR ht hts

theorem chainsAlike_of_operator (hR : Token.ReadAlike R)
    (hchain : ∀ tier op e f t u ts us, Tier.operator? tier t.kind = some op →
      Tier.operator? tier u.kind = some op → e.Corresponds (· = ·) R f → R t u →
      List.Forall₂ R ts us →
        Alike R (chain room tier e (t :: ts)) (chain room tier f (u :: us))) :
    ChainsAlike R room := by
  intro tier e f ts us he hts
  cases hts with
  | nil =>
      rw [chain_nil, chain_nil]
      exact alike_ok he .nil
  | @cons t u ts us ht hts =>
      have hkind := hR.kind_eq ht
      cases hop : tier.operator? t.kind with
      | none =>
          rw [chain_of_none hop, chain_of_none (by rwa [← hkind])]
          exact alike_ok he (.cons ht hts)
      | some op => exact hchain tier op e f t u ts us hop (by rwa [← hkind]) he ht hts

theorem readsAlike_zero (hR : Token.ReadAlike R) :
    ReadsAlike R (unary 0) ∧ ChainsAlike R 0 := by
  refine ⟨readsAlike_unary_of hR ?_ ?_, chainsAlike_of_operator hR ?_⟩
  · intro op t u ts us hop hop' _ hts
    rw [unary_zero_of_op hop, unary_zero_of_op hop']
    exact alike_error _ hts
  · intro t u ts us hopen hopen' _ hts
    rw [unary_zero_of_paren hopen, unary_zero_of_paren hopen']
    exact alike_error _ hts
  · intro tier op e f t u ts us hop hop' _ _ hts
    rw [chain_zero_of_op hop, chain_zero_of_op hop']
    exact alike_error _ hts

theorem readsAlike_succ (hR : Token.ReadAlike R) (hunary : ReadsAlike R (unary room))
    (hchain : ChainsAlike R room) :
    ReadsAlike R (unary (room + 1)) ∧ ChainsAlike R (room + 1) := by
  refine ⟨readsAlike_unary_of hR ?_ ?_, chainsAlike_of_operator hR ?_⟩
  · intro op t u ts us hop hop' ht hts
    rw [unary_succ_of_op hop, unary_succ_of_op hop']
    refine alike_andThen (hunary ts us hts) fun e f ts us he hts => ?_
    exact alike_ok (.unary op ht he) hts
  · intro t u ts us hopen hopen' _ hts
    rw [unary_succ_of_paren hopen, unary_succ_of_paren hopen']
    refine alike_andThen (alike_climb hunary hchain Tier.all ts us hts) ?_
    exact fun e f ts us he hts => alike_closeGroup hR he hts
  · intro tier op e f t u ts us hop hop' he ht hts
    rw [chain_succ_of_op hop, chain_succ_of_op hop']
    refine alike_andThen (alike_climb hunary hchain tier.tighter ts us hts) ?_
    intro r r' ts us hr hts
    exact hchain tier _ _ ts us (.binary op ht he hr) hts

theorem readsAlike_expression (hR : Token.ReadAlike R) (room : Nat) :
    ReadsAlike R (expression room) := by
  have h : ReadsAlike R (unary room) ∧ ChainsAlike R room := by
    induction room with
    | zero => exact readsAlike_zero hR
    | succ room ih => exact readsAlike_succ hR ih.1 ih.2
  exact alike_climb h.1 h.2 Tier.all

end Grammar

namespace Cursor

variable {R : Token → Token → Prop} {ts us : List Token} {e : Expr} {error : ParseError}

theorem expression_of_parse_eq_ok (h : (ofTokens ts).parse.1 = .ok e) :
    ∃ rest, Grammar.expression maxNesting (withEnd ts) = .ok (e, rest) := by
  obtain ⟨rest, hread, -⟩ := parse_eq_ok.1 (Prod.ext h rfl)
  exact ⟨rest, hread⟩

theorem expression_of_parse_eq_error (h : (ofTokens ts).parse.1 = .error error) :
    ∃ rest, Grammar.expression maxNesting (withEnd ts) =
      .error (error.obstacle, error.token :: rest) := by
  obtain ⟨used, rest, hts, -, -, hrefusal⟩ := exists_refusal_of_parse_eq_error (Prod.ext h rfl)
  refine ⟨rest, ?_⟩
  rw [hts]
  exact hrefusal.refused _ (.inr rfl)

/-- Of related tokens, corresponding trees are read, or both readings stop at related tokens. -/
theorem together_parse (hR : Token.ReadAlike R) (hts : List.Forall₂ R (withEnd ts) (withEnd us)) :
    Together (fun error error' => error.obstacle = error'.obstacle ∧ R error.token error'.token)
      (Expr.Corresponds (· = ·) R) (ofTokens ts).parse.1 (ofTokens us).parse.1 := by
  have halike := Grammar.readsAlike_expression hR maxNesting _ _ hts
  cases hparse : (ofTokens ts).parse.1 with
  | ok e =>
      obtain ⟨rest, hread⟩ := expression_of_parse_eq_ok hparse
      cases hparse' : (ofTokens us).parse.1 with
      | ok f =>
          obtain ⟨rest', hread'⟩ := expression_of_parse_eq_ok hparse'
          rw [hread, hread'] at halike
          cases halike with
          | ok h => exact .ok h.1
      | error error' =>
          obtain ⟨rest', hread'⟩ := expression_of_parse_eq_error hparse'
          rw [hread, hread'] at halike
          cases halike
  | error error =>
      obtain ⟨rest, hread⟩ := expression_of_parse_eq_error hparse
      cases hparse' : (ofTokens us).parse.1 with
      | ok f =>
          obtain ⟨rest', hread'⟩ := expression_of_parse_eq_ok hparse'
          rw [hread, hread'] at halike
          cases halike
      | error error' =>
          obtain ⟨rest', hread'⟩ := expression_of_parse_eq_error hparse'
          rw [hread, hread'] at halike
          cases halike with
          | error h =>
              cases h.2 with
              | cons ht _ => exact .error ⟨h.1, ht⟩

end Cursor

namespace Run

/-- The same text, or the same failure with one diagnostic each, the same message at related
tokens. -/
inductive Alike (R : Token → Token → Prop) : Run → Run → Prop
  | ok (text : String) : Alike R ⟨.ok text, []⟩ ⟨.ok text, []⟩
  | error (failure : Failure) (message : String) {t u : Token} (h : R t u) :
      Alike R ⟨.error failure, [⟨t.line, message, some t.span⟩]⟩
        ⟨.error failure, [⟨u.line, message, some u.span⟩]⟩

variable {R : Token → Token → Prop} {ts us : List Token} {e f : Expr}

theorem alike_ofExpr (h : e.Corresponds (· = ·) R f) (action : Action) :
    Alike R (ofExpr e action) (ofExpr f action) := by
  cases action with
  | print =>
      rw [ofExpr, ofExpr, h.text_eq]
      exact .ok _
  | evaluate =>
      have htogether := h.eval operatorsRespect_eq
      rw [ofExpr, ofExpr]
      generalize e.eval = x, f.eval = y at htogether
      cases htogether with
      | @ok v w h =>
          subst h
          exact .ok _
      | @error error error' h =>
          obtain ⟨fault, t⟩ := error
          obtain ⟨fault', u⟩ := error'
          obtain ⟨rfl, ht⟩ := h
          exact .error .runtime fault.message ht

theorem ofTokens_eq (ts : List Token) (action : Action) :
    ofTokens ts action = match (Cursor.ofTokens ts).parse.1 with
      | .ok e => ofExpr e action
      | .error error => ⟨.error .syntactic, [error.diagnostic]⟩ := by
  rw [ofTokens, Cursor.parseRecovering]
  rcases (Cursor.ofTokens ts).parse with ⟨_ | _, _⟩ <;> rfl

theorem alike_ofTokens (hR : Token.ReadAlike R)
    (hfound : ∀ t u, R t u → ParseError.found t = ParseError.found u)
    (hts : List.Forall₂ R (Cursor.withEnd ts) (Cursor.withEnd us)) (action : Action) :
    Alike R (ofTokens ts action) (ofTokens us action) := by
  have htogether := Cursor.together_parse hR hts
  rw [ofTokens_eq, ofTokens_eq]
  generalize (Cursor.ofTokens ts).parse.1 = x, (Cursor.ofTokens us).parse.1 = y at htogether
  cases htogether with
  | ok h => exact alike_ofExpr h action
  | @error error error' h =>
      have hmessage : error.message = error'.message := by
        rw [ParseError.message, ParseError.message, h.1, hfound _ _ h.2]
      simp only [ParseError.diagnostic, hmessage]
      exact .error .syntactic _ h.2

end Run

namespace Token

/-- The tokens at the same index of two lists. -/
def Aligned (ts us : List Token) (t u : Token) : Prop :=
  ∃ i : Nat, ts[i]? = some t ∧ us[i]? = some u

variable {ts us : List Token} {t u : Token}

theorem forall₂_aligned (h : ts.length = us.length) : List.Forall₂ (Aligned ts us) ts us :=
  List.forall₂_iff_get.2 ⟨h, fun i hi hi' =>
    ⟨i, List.getElem?_eq_getElem hi, List.getElem?_eq_getElem hi'⟩⟩

theorem Aligned.kind_lexeme_eq (ht : Aligned ts us t u)
    (h : ts.map (fun t => (t.kind, t.lexeme)) = us.map (fun t => (t.kind, t.lexeme))) :
    t.kind = u.kind ∧ t.lexeme = u.lexeme := by
  obtain ⟨i, hti, hui⟩ := ht
  have hi := congrArg (·[i]?) h
  simpa [hti, hui] using hi

theorem Aligned.found_eq (ht : Aligned ts us t u)
    (h : ts.map (fun t => (t.kind, t.lexeme)) = us.map (fun t => (t.kind, t.lexeme))) :
    ParseError.found t = ParseError.found u := by
  obtain ⟨hkind, hlexeme⟩ := ht.kind_lexeme_eq h
  rw [ParseError.found, ParseError.found, isEnd, isEnd, hkind, hlexeme]

end Token

namespace Scan

variable {a b : String}

theorem readAlike_aligned
    (h : (ofSource a).tokens.map (fun t => (t.kind, t.lexeme)) =
      (ofSource b).tokens.map (fun t => (t.kind, t.lexeme))) :
    Token.ReadAlike (Token.Aligned (ofSource a).tokens (ofSource b).tokens) where
  kind_eq ht := (ht.kind_lexeme_eq h).1
  literal_eq ht := by
    obtain ⟨hkind, hlexeme⟩ := ht.kind_lexeme_eq h
    obtain ⟨i, hti, hui⟩ := ht
    exact literal_eq_of_mem_tokens (List.mem_of_getElem? hti) (List.mem_of_getElem? hui) hkind
      hlexeme

theorem withEnd_tokens (source : String) :
    Cursor.withEnd (ofSource source).tokens = (ofSource source).tokens := by
  obtain ⟨tiles, htiling⟩ := exists_tiling_of_text source.toList
  have hlast : ∃ front last, (ofSource source).tokens = front ++ [last] ∧ last.isEnd := by
    rw [ofSource, Scanner.ofSource, htiling.items_eq, ofItems, List.filterMap_append]
    exact ⟨_, _, rfl, rfl⟩
  obtain ⟨front, last, htokens, hend⟩ := hlast
  simp only [Cursor.withEnd, htokens, List.getLast?_concat, if_pos hend]

end Scan

namespace Run

theorem ofSource_of_not_hadError {source : String} (h : (Scan.ofSource source).hadError = false)
    (action : Action) : ofSource source action = ofTokens (Scan.ofSource source).tokens action := by
  simp [ofSource, h]

/-- Two sources without lexical errors and with the same kinds and lexemes run alike: they end with
the same text, or with the same failure and one diagnostic each, which have the same message and the
positions of the tokens at the same index. -/
theorem ofSource_layout_independent (a b : String) (action : Action)
    (ha : (Scan.ofSource a).hadError = false) (hb : (Scan.ofSource b).hadError = false)
    (h : (Scan.ofSource a).tokens.map (fun t => (t.kind, t.lexeme)) =
      (Scan.ofSource b).tokens.map (fun t => (t.kind, t.lexeme))) :
    (∃ text, ofSource a action = ⟨.ok text, []⟩ ∧ ofSource b action = ⟨.ok text, []⟩) ∨
      ∃ (failure : Failure) (message : String) (i : Nat) (t u : Token),
        (Scan.ofSource a).tokens[i]? = some t ∧ (Scan.ofSource b).tokens[i]? = some u ∧
        ofSource a action = ⟨.error failure, [⟨t.line, message, some t.span⟩]⟩ ∧
        ofSource b action = ⟨.error failure, [⟨u.line, message, some u.span⟩]⟩ := by
  have hts : List.Forall₂ (Token.Aligned (Scan.ofSource a).tokens (Scan.ofSource b).tokens)
      (Cursor.withEnd (Scan.ofSource a).tokens) (Cursor.withEnd (Scan.ofSource b).tokens) := by
    rw [Scan.withEnd_tokens, Scan.withEnd_tokens]
    exact Token.forall₂_aligned (by simpa using congrArg List.length h)
  have halike := alike_ofTokens (Scan.readAlike_aligned h) (fun t u ht => ht.found_eq h) hts action
  rw [ofSource_of_not_hadError ha, ofSource_of_not_hadError hb]
  generalize ofTokens (Scan.ofSource a).tokens action = x,
    ofTokens (Scan.ofSource b).tokens action = y at halike
  cases halike with
  | ok text => exact .inl ⟨text, rfl, rfl⟩
  | error failure message ht =>
      obtain ⟨i, hti, hui⟩ := ht
      exact .inr ⟨failure, message, i, _, _, hti, hui, rfl, rfl⟩

/-- A sum that is rejected is reported at its operator, whatever comment and line breaks surround
it. -/
theorem number_plus_string_layout_independent :
    let a := "1 +\n\"x\""
    let b := "// sum\n1\n+\"x\" // of two"
    (Scan.ofSource a).hadError = false ∧ (Scan.ofSource b).hadError = false ∧
      (Scan.ofSource a).tokens.map (fun t => (t.kind, t.lexeme)) =
        (Scan.ofSource b).tokens.map (fun t => (t.kind, t.lexeme)) ∧
      ∃ (failure : Failure) (message : String) (i : Nat) (t u : Token),
        (Scan.ofSource a).tokens[i]? = some t ∧ (Scan.ofSource b).tokens[i]? = some u ∧
        ofSource a .evaluate = ⟨.error failure, [⟨t.line, message, some t.span⟩]⟩ ∧
        ofSource b .evaluate = ⟨.error failure, [⟨u.line, message, some u.span⟩]⟩ := by
  intro a b
  have ha : (Scan.ofSource a).hadError = false := by decide +kernel
  have hb : (Scan.ofSource b).hadError = false := by decide +kernel
  have h : (Scan.ofSource a).tokens.map (fun t => (t.kind, t.lexeme)) =
      (Scan.ofSource b).tokens.map (fun t => (t.kind, t.lexeme)) := by decide +kernel
  refine ⟨ha, hb, h, (ofSource_layout_independent a b .evaluate ha hb h).resolve_left ?_⟩
  rintro ⟨text, hok, -⟩
  have hreported : (ofSource a .evaluate).diagnostics ≠ [] := by decide +kernel
  rw [hok] at hreported
  exact hreported rfl

end Run
end Lox
