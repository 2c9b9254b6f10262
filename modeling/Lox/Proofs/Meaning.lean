import Lox.Proofs.Correspondence

/-!
# What a tree means

Groups and the tokens of operators take no part in the meaning of a tree. A group evaluates as what
stands in it, so a tree and the tree without its groups evaluate alike (`Expr.eval_ungrouped`). The
tokens are only handed on: for all trees that differ in nothing else, either the value is the same,
or the same operator finds the same fault, and the error takes the token from there
(`Expr.foretold`, by induction on the tree).
-/

namespace Lox.Expr

/-- The tree with what stands in it in place of every group. -/
def ungrouped : Expr → Expr
  | literal v => literal v
  | group inner => inner.ungrouped
  | unary op t right => unary op t right.ungrouped
  | binary op t left right => binary op t left.ungrouped right.ungrouped

def SameButTokens : Expr → Expr → Prop :=
  Corresponds (· = ·) fun _ _ => True

inductive Branch where
  | only | left | right
deriving DecidableEq

def tokenAt? : Expr → List Branch → Option Token
  | unary _ t _, [] | binary _ t _ _, [] => some t
  | group inner, .only :: path => inner.tokenAt? path
  | unary _ _ right, .only :: path => right.tokenAt? path
  | binary _ _ left _, .left :: path => left.tokenAt? path
  | binary _ _ _ right, .right :: path => right.tokenAt? path
  | _, _ => none

/-- Evaluation fails with this fault, and the operator at the end of the path is blamed. -/
def FailsAt (e : Expr) (path : List Branch) (fault : Fault) : Prop :=
  ∃ t, e.tokenAt? path = some t ∧ e.eval = .error ⟨fault, t⟩

theorem eval_ungrouped (e : Expr) : e.ungrouped.eval = e.eval := by
  induction e with
  | literal => rfl
  | group inner ih => exact ih
  | unary op t right ih => rw [ungrouped, eval_unary, eval_unary, ih]
  | binary op t left right ihl ihr => rw [ungrouped, eval_binary, eval_binary, ihl, ihr]

variable {e l r : Expr} {path : List Branch} {fault : Fault} {v w : Value} {t : Token}

namespace FailsAt

theorem group (h : e.FailsAt path fault) : (Expr.group e).FailsAt (.only :: path) fault :=
  h

theorem unary (op : UnaryOp) (h : r.FailsAt path fault) :
    (Expr.unary op t r).FailsAt (.only :: path) fault := by
  obtain ⟨u, htoken, heval⟩ := h
  refine ⟨u, htoken, ?_⟩
  rw [eval_unary, heval]
  rfl

theorem unary_root {op : UnaryOp} (hr : r.eval = .ok v) (hop : op.apply v = .error fault) :
    (Expr.unary op t r).FailsAt [] fault := by
  refine ⟨t, rfl, ?_⟩
  rw [eval_unary, hr]
  exact congrArg (blame t) hop

theorem left (op : BinaryOp) (h : l.FailsAt path fault) :
    (Expr.binary op t l r).FailsAt (.left :: path) fault := by
  obtain ⟨u, htoken, heval⟩ := h
  refine ⟨u, htoken, ?_⟩
  rw [eval_binary, heval]
  rfl

theorem right (op : BinaryOp) (hl : l.eval = .ok v) (h : r.FailsAt path fault) :
    (Expr.binary op t l r).FailsAt (.right :: path) fault := by
  obtain ⟨u, htoken, heval⟩ := h
  refine ⟨u, htoken, ?_⟩
  rw [eval_binary, hl, heval]
  rfl

theorem binary_root {op : BinaryOp} (hl : l.eval = .ok v) (hr : r.eval = .ok w)
    (hop : op.apply v w = .error fault) : (Expr.binary op t l r).FailsAt [] fault := by
  refine ⟨t, rfl, ?_⟩
  rw [eval_binary, hl, hr]
  exact congrArg (blame t) hop

end FailsAt

/-- How all trees evaluate that are the same but for the tokens of their operators: to one value, or
to one fault found at one place. The place is chosen before the tokens are. -/
inductive Foretold (e : Expr) : Prop
  | value (v : Value) (h : ∀ f, e.SameButTokens f → f.eval = .ok v)
  | fault (path : List Branch) (fault : Fault) (h : ∀ f, e.SameButTokens f → f.FailsAt path fault)

namespace Foretold

theorem group (h : e.Foretold) : (Expr.group e).Foretold := by
  cases h with
  | value v h =>
      refine .value v fun f hsame => ?_
      cases hsame with
      | group hsame =>
          rw [eval]
          exact h _ hsame
  | fault path fault h =>
      refine .fault (.only :: path) fault fun f hsame => ?_
      cases hsame with
      | group hsame => exact (h _ hsame).group

theorem unary (op : UnaryOp) (t : Token) (h : r.Foretold) : (Expr.unary op t r).Foretold := by
  cases h with
  | value v h =>
      cases hop : op.apply v with
      | ok w =>
          refine .value w fun f hsame => ?_
          cases hsame with
          | unary _ _ hsame => exact eval_unary_of_ok (h _ hsame) hop
      | error fault =>
          refine .fault [] fault fun f hsame => ?_
          cases hsame with
          | unary _ _ hsame => exact .unary_root (h _ hsame) hop
  | fault path fault h =>
      refine .fault (.only :: path) fault fun f hsame => ?_
      cases hsame with
      | unary _ _ hsame => exact (h _ hsame).unary op

/-- The left operand is evaluated first, so the right one is blamed only if the left one has a
value. -/
theorem binary (op : BinaryOp) (t : Token) (hl : l.Foretold) (hr : r.Foretold) :
    (Expr.binary op t l r).Foretold := by
  cases hl with
  | value v hl =>
      cases hr with
      | value w hr =>
          cases hop : op.apply v w with
          | ok x =>
              refine .value x fun f hsame => ?_
              cases hsame with
              | binary _ _ hleft hright =>
                  exact eval_binary_of_ok (hl _ hleft) (hr _ hright) hop
          | error fault =>
              refine .fault [] fault fun f hsame => ?_
              cases hsame with
              | binary _ _ hleft hright => exact .binary_root (hl _ hleft) (hr _ hright) hop
      | fault path fault hr =>
          refine .fault (.right :: path) fault fun f hsame => ?_
          cases hsame with
          | binary _ _ hleft hright => exact (hr _ hright).right op (hl _ hleft)
  | fault path fault hl =>
      refine .fault (.left :: path) fault fun f hsame => ?_
      cases hsame with
      | binary _ _ hleft _ => exact (hl _ hleft).left op

end Foretold

theorem foretold (e : Expr) : e.Foretold := by
  induction e with
  | literal v =>
      refine .value v fun f hsame => ?_
      cases hsame with
      | literal h => rw [← h, eval]
  | group inner ih => exact ih.group
  | unary op t right ih => exact ih.unary op t
  | binary op t left right ihl ihr => exact ihl.binary op t ihr

/-- Trees that are the same without their groups and the tokens of their operators have the same
value, or fail with the same fault, operands included. Of the trees that are the same but for the
tokens, all have one value, or all fail with one fault and the token that stands at one place. -/
theorem eval_independent_of_groups_and_tokens (e : Expr) :
    (∀ f : Expr, e.ungrouped.SameButTokens f.ungrouped →
      (∃ v, e.eval = .ok v ∧ f.eval = .ok v) ∨
        ∃ error error', e.eval = .error error ∧ f.eval = .error error' ∧
          error.fault = error'.fault) ∧
      ((∃ v, ∀ f, e.SameButTokens f → f.eval = .ok v) ∨
        ∃ path fault, ∀ f, e.SameButTokens f →
          ∃ t, f.tokenAt? path = some t ∧ f.eval = .error ⟨fault, t⟩) := by
  constructor
  · intro f hsame
    have htogether := Corresponds.eval operatorsRespect_eq hsame
    rw [eval_ungrouped, eval_ungrouped] at htogether
    generalize e.eval = x, f.eval = y at htogether
    cases htogether with
    | @ok v w h =>
        subst h
        exact .inl ⟨v, rfl, rfl⟩
    | error h => exact .inr ⟨_, _, rfl, rfl, h.fault⟩
  · cases foretold e with
    | value v h => exact .inl ⟨v, h⟩
    | fault path fault h => exact .inr ⟨path, fault, h⟩

/-- `-(nil + 1)` and `-((nil) + 1)` fail alike, and with other tokens the first of them still blames
its sum. -/
theorem sum_with_nil_fails_alike :
    let minus : Token := ⟨.symbol .minus, "-", none, 1, ⟨0, 1⟩⟩
    let plus : Token := ⟨.symbol .plus, "+", none, 7, ⟨40, 1⟩⟩
    let tree (operand : Expr) (t u : Token) : Expr :=
      .unary .minus t (.group (.binary .add u operand (.literal (.number 1))))
    let e := tree (.literal .nil) minus plus
    let f := tree (.group (.literal .nil)) minus plus
    let g := tree (.literal .nil) plus minus
    e.ungrouped.SameButTokens f.ungrouped ∧ e.SameButTokens e ∧ e.SameButTokens g ∧
      (∃ error error', e.eval = .error error ∧ f.eval = .error error' ∧
        error.fault = error'.fault) ∧
      ∃ path fault, e.tokenAt? path = some plus ∧ e.eval = .error ⟨fault, plus⟩ ∧
        g.tokenAt? path = some minus ∧ g.eval = .error ⟨fault, minus⟩ := by
  intro minus plus tree e f g
  have hbare : e.ungrouped.SameButTokens f.ungrouped :=
    .unary .minus trivial (.binary .add trivial (.literal rfl) (.literal rfl))
  have hsame (t u : Token) : e.SameButTokens (tree (.literal .nil) t u) :=
    .unary .minus trivial (.group (.binary .add trivial (.literal rfl) (.literal rfl)))
  have heval (t u : Token) : (tree (.literal .nil) t u).eval =
      .error ⟨.nonAddable .nil (.number 1), u⟩ := rfl
  obtain ⟨hgroups, htokens⟩ := eval_independent_of_groups_and_tokens e
  refine ⟨hbare, hsame minus plus, hsame plus minus, (hgroups f hbare).resolve_left ?_, ?_⟩
  · rintro ⟨v, hv, -⟩
    cases (heval minus plus).symm.trans hv
  · obtain ⟨path, fault, hfails⟩ := htokens.resolve_left (by
      rintro ⟨v, hv⟩
      cases (heval minus plus).symm.trans (hv e (hsame minus plus)))
    obtain ⟨t, htoken, ht⟩ := hfails e (hsame minus plus)
    obtain ⟨u, htoken', hu⟩ := hfails g (hsame plus minus)
    cases (heval minus plus).symm.trans ht
    cases (heval plus minus).symm.trans hu
    exact ⟨path, _, htoken, ht, htoken', hu⟩

end Lox.Expr
