import Lox.Expr.Eval
import Lox.Expr.Text

/-!
# Corresponding trees

Two trees correspond when they have the same shape and the same operators, their literals are
related by `V` and the tokens of their operators by `R`. If every operator takes related operands to
related answers, so does evaluation (`Expr.Corresponds.eval`): it succeeds for both trees, or it
fails for both at corresponding operators.
-/

namespace Lox

inductive Together {ε α : Type} (E : ε → ε → Prop) (A : α → α → Prop) :
    Except ε α → Except ε α → Prop
  | ok {a b : α} (h : A a b) : Together E A (.ok a) (.ok b)
  | error {e f : ε} (h : E e f) : Together E A (.error e) (.error f)

theorem Together.bind {ε α β : Type} {E : ε → ε → Prop} {A : α → α → Prop} {B : β → β → Prop}
    {x y : Except ε α} {next next' : α → Except ε β} (h : Together E A x y)
    (hnext : ∀ a b, A a b → Together E B (next a) (next' b)) :
    Together E B (x.bind next) (y.bind next') := by
  cases h with
  | ok h => exact hnext _ _ h
  | error h => exact .error h

/-- Operators take operands related by `V` to such values, or to faults related by `F`. -/
structure OperatorsRespect (V : Value → Value → Prop) (F : Fault → Fault → Prop) : Prop where
  unary (op : UnaryOp) {v w : Value} (h : V v w) : Together F V (op.apply v) (op.apply w)
  binary (op : BinaryOp) {v v' w w' : Value} (h : V v v') (h' : V w w') :
    Together F V (op.apply v w) (op.apply v' w')

theorem operatorsRespect_eq : OperatorsRespect (· = ·) (· = ·) where
  unary op v w h := by
    subst h
    cases op.apply v with
    | ok => exact .ok rfl
    | error => exact .error rfl
  binary op v v' w w' h h' := by
    subst h h'
    cases op.apply v w with
    | ok => exact .ok rfl
    | error => exact .error rfl

structure RuntimeError.Corresponds (F : Fault → Fault → Prop) (R : Token → Token → Prop)
    (e f : RuntimeError) : Prop where
  fault : F e.fault f.fault
  token : R e.token f.token

namespace Expr

inductive Corresponds (V : Value → Value → Prop) (R : Token → Token → Prop) : Expr → Expr → Prop
  | literal {v w : Value} (h : V v w) : Corresponds V R (.literal v) (.literal w)
  | group {e f : Expr} (h : Corresponds V R e f) : Corresponds V R (.group e) (.group f)
  | unary (op : UnaryOp) {t u : Token} {e f : Expr} (ht : R t u) (h : Corresponds V R e f) :
      Corresponds V R (.unary op t e) (.unary op u f)
  | binary (op : BinaryOp) {t u : Token} {l l' r r' : Expr} (ht : R t u)
      (hl : Corresponds V R l l') (hr : Corresponds V R r r') :
      Corresponds V R (.binary op t l r) (.binary op u l' r')

variable {V : Value → Value → Prop} {F : Fault → Fault → Prop} {R : Token → Token → Prop}
  {e f : Expr} {t u : Token}

theorem together_blame {x y : Except Fault Value} (ht : R t u) (h : Together F V x y) :
    Together (RuntimeError.Corresponds F R) V (blame t x) (blame u y) := by
  cases h with
  | ok h => exact .ok h
  | error h => exact .error ⟨h, ht⟩

/-- Evaluation takes corresponding trees to corresponding outcomes if the operators do so. -/
theorem Corresponds.eval (hops : OperatorsRespect V F) (h : Corresponds V R e f) :
    Together (RuntimeError.Corresponds F R) V e.eval f.eval := by
  induction h with
  | literal h => exact .ok h
  | group _ ih => exact ih
  | unary op ht _ ih =>
      rw [eval_unary, eval_unary]
      refine ih.bind fun v w hv => ?_
      exact together_blame ht (hops.unary op hv)
  | binary op ht _ _ ihl ihr =>
      rw [eval_binary, eval_binary]
      refine ihl.bind fun v v' hv => ihr.bind fun w w' hw => ?_
      exact together_blame ht (hops.binary op hv hw)

theorem Corresponds.text_eq (h : Corresponds (· = ·) R e f) : e.text = f.text := by
  induction h with
  | literal h => rw [h]
  | group _ ih => rw [text, text, ih]
  | unary op _ _ ih => rw [text, text, ih]
  | binary op _ _ _ ihl ihr => rw [text, text, ihl, ihr]

end Expr
end Lox
