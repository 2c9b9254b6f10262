import Lox.Proofs.Correspondence

/-!
# Types decide evaluation

Values are of four types, and the type of an operator's answer depends on the types of its operands
only. `Expr.infer` finds the type of a tree without evaluating it. A tree evaluates to a value
exactly when it has a type, and the value is of that type. Which numbers, strings and truth values
the literals stand for changes neither whether evaluation fails nor which operator is blamed.
-/

namespace Lox

inductive Ty where
  | number | string | bool | nil
deriving DecidableEq, Inhabited

namespace Value

def type {ν : Type} : Value ν → Ty
  | number _ => .number
  | string _ => .string
  | bool _ => .bool
  | nil => .nil

def SameType (v w : Value) : Prop :=
  v.type = w.type

theorem sameType_number (x y : Float) : (number x).SameType (number y) := rfl

theorem sameType_string (s t : String) : (string s).SameType (string t) := rfl

theorem sameType_bool (a b : Bool) : (bool a).SameType (bool b) := rfl

end Value

/-- The same complaint, whatever the operands. -/
inductive Fault.SameKind : Fault → Fault → Prop
  | nonNumeric (v w : Value) : SameKind (.nonNumeric v) (.nonNumeric w)
  | nonNumerics (v w v' w' : Value) : SameKind (.nonNumerics v w) (.nonNumerics v' w')
  | nonAddable (v w v' w' : Value) : SameKind (.nonAddable v w) (.nonAddable v' w')

/-- The type of the answer to an operand of this type, if it is not rejected. -/
def UnaryOp.type? : UnaryOp → Ty → Option Ty
  | bang, _ => some .bool
  | minus, .number => some .number
  | minus, _ => none

def BinaryOp.type? : BinaryOp → Ty → Ty → Option Ty
  | add, .number, .number => some .number
  | add, .string, .string => some .string
  | subtract, .number, .number | multiply, .number, .number | divide, .number, .number =>
    some .number
  | less, .number, .number | lessEqual, .number, .number
  | greater, .number, .number | greaterEqual, .number, .number => some .bool
  | equal, _, _ | notEqual, _, _ => some .bool
  | _, _, _ => none

/-- The type of a tree, found without evaluating it. -/
def Expr.infer : Expr → Option Ty
  | literal v => some v.type
  | group inner => inner.infer
  | unary op _ right => right.infer.bind op.type?
  | binary op _ left right => left.infer.bind fun l => right.infer.bind fun r => op.type? l r

def answerType? {ε : Type} (answer : Except ε Value) : Option Ty :=
  answer.toOption.map Value.type

theorem answerType?_bind {ε : Type} (answer : Except ε Value) (next : Value → Except ε Value) :
    answerType? (answer.bind next) = answer.toOption.bind fun v => answerType? (next v) := by
  cases answer <;> rfl

theorem answerType?_blame (token : Token) (answer : Except Fault Value) :
    answerType? (Expr.blame token answer) = answerType? answer := by
  cases answer <;> rfl

theorem UnaryOp.answerType?_apply (op : UnaryOp) (v : Value) :
    answerType? (op.apply v) = op.type? v.type := by
  cases op <;> cases v <;> rfl

theorem BinaryOp.answerType?_apply (op : BinaryOp) (v w : Value) :
    answerType? (op.apply v w) = op.type? v.type w.type := by
  cases op <;> cases v <;> cases w <;> rfl

theorem Expr.infer_eq_answerType? (e : Expr) : e.infer = answerType? e.eval := by
  induction e with
  | literal => rfl
  | group inner ih => exact ih
  | unary op token right ih =>
      rw [infer, ih, eval_unary, answerType?_bind]
      simp only [answerType?_blame, op.answerType?_apply]
      exact Option.bind_map ..
  | binary op token left right ihl ihr =>
      rw [infer, ihl, ihr, eval_binary, answerType?_bind]
      simp only [answerType?_bind, answerType?_blame, op.answerType?_apply]
      simp only [answerType?, Option.bind_map, Function.comp_def]

/-- The types of the operands alone decide whether an operation on numbers rejects them. -/
theorem together_numeric {operation : Float → Float → Value}
    (hop : ∀ x y x' y', (operation x y).SameType (operation x' y')) {v v' w w' : Value}
    (hv : v.SameType v') (hw : w.SameType w') :
    Together Fault.SameKind Value.SameType (BinaryOp.numeric operation v w)
      (BinaryOp.numeric operation v' w') := by
  cases v <;> cases v' <;> cases hv <;> cases w <;> cases w' <;> cases hw
  case number.number.refl.number.number.refl => exact .ok (hop ..)
  all_goals exact .error (.nonNumerics ..)

theorem together_addition {v v' w w' : Value} (hv : v.SameType v') (hw : w.SameType w') :
    Together Fault.SameKind Value.SameType (BinaryOp.addition v w) (BinaryOp.addition v' w') := by
  cases v <;> cases v' <;> cases hv <;> cases w <;> cases w' <;> cases hw
  case number.number.refl.number.number.refl => exact .ok (Value.sameType_number ..)
  case string.string.refl.string.string.refl => exact .ok (Value.sameType_string ..)
  all_goals exact .error (.nonAddable ..)

theorem operatorsRespect_sameType : OperatorsRespect Value.SameType Fault.SameKind where
  unary op v w h := by
    cases op with
    | bang => exact .ok (Value.sameType_bool ..)
    | minus =>
        cases v <;> cases w <;> cases h
        case number.number.refl => exact .ok (Value.sameType_number ..)
        all_goals exact .error (.nonNumeric ..)
  binary op v v' w w' h h' := by
    cases op with
    | add => exact together_addition h h'
    | subtract | multiply | divide =>
        exact together_numeric (fun _ _ _ _ => Value.sameType_number ..) h h'
    | less | lessEqual | greater | greaterEqual =>
        exact together_numeric (fun _ _ _ _ => Value.sameType_bool ..) h h'
    | equal | notEqual => exact .ok (Value.sameType_bool ..)

namespace Expr

/-- A tree evaluates to a value exactly when it has a type, and the value is of that type. Trees
that differ in nothing but the numbers, strings and truth values of their literals both evaluate to
a value, or both fail at the same operator with the same complaint. -/
theorem eval_decided_by_types (e : Expr) :
    ((∃ v, e.eval = .ok v) ↔ ∃ τ, e.infer = some τ) ∧
      (∀ v, e.eval = .ok v → e.infer = some v.type) ∧
      ∀ f, e.Corresponds Value.SameType (· = ·) f →
        (∃ v w, e.eval = .ok v ∧ f.eval = .ok w) ∨
          ∃ error error', e.eval = .error error ∧ f.eval = .error error' ∧
            error.fault.SameKind error'.fault ∧ error.token = error'.token := by
  rw [infer_eq_answerType?]
  refine ⟨?_, ?_, ?_⟩
  · cases e.eval <;> simp [answerType?, Except.toOption]
  · intro v hv
    rw [hv]
    rfl
  · intro f hf
    generalize hx : e.eval = x, hy : f.eval = y
    have htogether := hf.eval operatorsRespect_sameType
    rw [hx, hy] at htogether
    cases htogether with
    | ok => exact .inl ⟨_, _, rfl, rfl⟩
    | error h => exact .inr ⟨_, _, rfl, rfl, h.fault, h.token⟩

/-- Neither a division by zero nor the text of a string changes which operator is blamed in
`1 / 0 + "a"`. -/
theorem quotient_plus_string_blamed_alike :
    let tree (x y : Float) (s : String) : Expr :=
      .binary .add ⟨.symbol .plus, "+", none, 1, ⟨6, 1⟩⟩
        (.binary .divide ⟨.symbol .slash, "/", none, 1, ⟨2, 1⟩⟩ (.literal (.number x))
          (.literal (.number y))) (.literal (.string s))
    (tree 1 0 "a").Corresponds Value.SameType (· = ·) (tree 6 3 "") ∧
      ∃ error error', (tree 1 0 "a").eval = .error error ∧ (tree 6 3 "").eval = .error error' ∧
        error.fault.SameKind error'.fault ∧ error.token = error'.token := by
  intro tree
  have hcorresponds : (tree 1 0 "a").Corresponds Value.SameType (· = ·) (tree 6 3 "") :=
    .binary .add rfl (.binary .divide rfl (.literal (Value.sameType_number ..))
      (.literal (Value.sameType_number ..))) (.literal (Value.sameType_string ..))
  obtain ⟨htyped, -, halike⟩ := eval_decided_by_types (tree 1 0 "a")
  rcases halike _ hcorresponds with ⟨v, -, hv, -⟩ | hblamed
  · obtain ⟨τ, hτ⟩ := htyped.1 ⟨v, hv⟩
    cases hτ
  · exact ⟨hcorresponds, hblamed⟩

end Expr
end Lox
