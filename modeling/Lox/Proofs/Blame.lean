import Lox.Proofs.Typing

/-!
# Which operator is blamed

The operators of a tree are applied in one order, operands in front of their operator and left in
front of right; `Expr.operations` lists them in it. Evaluation gives a value exactly when each of
them accepts the values of its operands. Otherwise the error is the complaint of the first one that
does not, whatever the operators behind it would say.
-/

namespace Lox

def BinaryOp.numericOps : List BinaryOp :=
  [.subtract, .multiply, .divide, .less, .lessEqual, .greater, .greaterEqual]

theorem exists_eq_ok_of_answerType? {ε : Type} {answer : Except ε Value}
    (h : answerType? answer ≠ none) : ∃ v, answer = .ok v := by
  cases answer with
  | ok v => exact ⟨v, rfl⟩
  | error => exact absurd rfl h

theorem UnaryOp.apply_of_type?_eq_none {op : UnaryOp} {v : Value} (h : op.type? v.type = none) :
    op = .minus ∧ op.apply v = .error (.nonNumeric v) := by
  cases op with
  | bang => cases h
  | minus =>
      refine ⟨rfl, ?_⟩
      cases v with
      | number => cases h
      | string | bool | nil => rfl

theorem BinaryOp.numeric_of_not_numbers {v w : Value} (h : ¬ (v.type = .number ∧ w.type = .number))
    (operation : Float → Float → Value) :
    numeric operation v w = .error (.nonNumerics v w) := by
  cases v with
  | number =>
      cases w with
      | number => exact absurd ⟨rfl, rfl⟩ h
      | string | bool | nil => rfl
  | string | bool | nil => rfl

theorem BinaryOp.apply_of_type?_eq_none {op : BinaryOp} {v w : Value}
    (h : op.type? v.type w.type = none) :
    op = .add ∧ op.apply v w = .error (.nonAddable v w) ∨
      op ∈ numericOps ∧ op.apply v w = .error (.nonNumerics v w) := by
  cases op with
  | add =>
      refine .inl ⟨rfl, ?_⟩
      cases v with
      | number =>
          cases w with
          | number => cases h
          | string | bool | nil => rfl
      | string =>
          cases w with
          | string => cases h
          | number | bool | nil => rfl
      | bool | nil => rfl
  | equal | notEqual => cases h
  | subtract | multiply | divide | less | lessEqual | greater | greaterEqual =>
      refine .inr ⟨by decide, numeric_of_not_numbers ?_ _⟩
      rintro ⟨hv, hw⟩
      rw [hv, hw] at h
      cases h

namespace Expr

/-- The operators of a tree with their operands, in left-to-right post-order. -/
def operations : Expr → List Expr
  | literal _ => []
  | group inner => inner.operations
  | e@(unary _ _ right) => right.operations ++ [e]
  | e@(binary _ _ left right) => left.operations ++ right.operations ++ [e]

inductive Accepts : Expr → Prop
  | unary {op : UnaryOp} {t : Token} {right : Expr} {v : Value} (hright : right.eval = .ok v)
      (hop : op.type? v.type ≠ none) : Accepts (.unary op t right)
  | binary {op : BinaryOp} {t : Token} {left right : Expr} {v w : Value}
      (hleft : left.eval = .ok v) (hright : right.eval = .ok w)
      (hop : op.type? v.type w.type ≠ none) : Accepts (.binary op t left right)

/-- The operands of the operator at the root have values, of types that the operator rejects. -/
inductive Rejects : Expr → Prop
  | unary {op : UnaryOp} {t : Token} {right : Expr} {v : Value} (hright : right.eval = .ok v)
      (hop : op.type? v.type = none) : Rejects (.unary op t right)
  | binary {op : BinaryOp} {t : Token} {left right : Expr} {v w : Value}
      (hleft : left.eval = .ok v) (hright : right.eval = .ok w)
      (hop : op.type? v.type w.type = none) : Rejects (.binary op t left right)

/-- What the operator at the root says when it is blamed: its token and the values of its operands,
in order. Negation and the equalities have nothing to say. -/
inductive Complains : Expr → RuntimeError → Prop
  | minus {t : Token} {right : Expr} {v : Value} (hright : right.eval = .ok v) :
      Complains (.unary .minus t right) ⟨.nonNumeric v, t⟩
  | add {t : Token} {left right : Expr} {v w : Value} (hleft : left.eval = .ok v)
      (hright : right.eval = .ok w) :
      Complains (.binary .add t left right) ⟨.nonAddable v w, t⟩
  | numeric {op : BinaryOp} {t : Token} {left right : Expr} {v w : Value}
      (hop : op ∈ BinaryOp.numericOps) (hleft : left.eval = .ok v) (hright : right.eval = .ok w) :
      Complains (.binary op t left right) ⟨.nonNumerics v w, t⟩

/-- The operator `node` rejects its operands, and those applied in `front` of it accept theirs. -/
structure FirstRejection (e : Expr) (front : List Expr) (node : Expr) : Prop where
  order : ∃ back, e.operations = front ++ node :: back
  accepted : ∀ earlier ∈ front, earlier.Accepts
  rejects : node.Rejects

variable {e node : Expr} {front : List Expr} {error : RuntimeError}

theorem Accepts.not_rejects (h : e.Accepts) : ¬ e.Rejects := by
  intro hrejects
  cases h with
  | unary hright hop =>
      cases hrejects with
      | unary hright' hop' =>
          obtain rfl := Except.ok.inj (hright.symm.trans hright')
          exact hop hop'
  | binary hleft hright hop =>
      cases hrejects with
      | binary hleft' hright' hop' =>
          obtain rfl := Except.ok.inj (hleft.symm.trans hleft')
          obtain rfl := Except.ok.inj (hright.symm.trans hright')
          exact hop hop'

/-- How evaluation ends when operators are applied in this order: with a value if all of them accept
their operands, and otherwise with the complaint of the first one that rejects them. -/
inductive Course (operations : List Expr) : Except RuntimeError Value → Prop
  | value (v : Value) (haccepted : ∀ node ∈ operations, node.Accepts) : Course operations (.ok v)
  | blamed {front back : List Expr} {node : Expr} {error : RuntimeError}
      (horder : operations = front ++ node :: back)
      (haccepted : ∀ earlier ∈ front, earlier.Accepts) (hrejects : node.Rejects)
      (hcomplains : node.Complains error) : Course operations (.error error)

theorem forall_accepts_append {first second : List Expr} (hfirst : ∀ node ∈ first, node.Accepts)
    (hsecond : ∀ node ∈ second, node.Accepts) : ∀ node ∈ first ++ second, node.Accepts := by
  intro node hnode
  rcases List.mem_append.1 hnode with hnode | hnode
  · exact hfirst node hnode
  · exact hsecond node hnode

theorem Course.bind {first second : List Expr} {answer : Except RuntimeError Value}
    {next : Value → Except RuntimeError Value} (h : Course first answer)
    (hnext : ∀ v, answer = .ok v → Course second (next v)) :
    Course (first ++ second) (answer.bind next) := by
  cases h with
  | value v haccepted =>
      have hrest := hnext v rfl
      change Course (first ++ second) (next v)
      generalize next v = answer at hrest
      cases hrest with
      | value w haccepted' => exact .value w (forall_accepts_append haccepted haccepted')
      | blamed horder haccepted' hrejects hcomplains =>
          subst horder
          rw [← List.append_assoc]
          exact .blamed rfl (forall_accepts_append haccepted haccepted') hrejects hcomplains
  | blamed horder haccepted hrejects hcomplains =>
      subst horder
      rw [List.append_assoc]
      exact .blamed rfl haccepted hrejects hcomplains

theorem Course.accepts (v : Value) (h : node.Accepts) : Course [node] (.ok v) := by
  refine .value v fun other hother => ?_
  rwa [List.mem_singleton.1 hother]

theorem Course.rejects (hrejects : node.Rejects) (hcomplains : node.Complains error) :
    Course [node] (.error error) := by
  have horder : [node] = [] ++ node :: [] := rfl
  exact .blamed horder (by simp) hrejects hcomplains

section

variable {v w : Value} {left right : Expr}

theorem course_unary (op : UnaryOp) (t : Token) (hright : right.eval = .ok v) :
    Course [unary op t right] (blame t (op.apply v)) := by
  by_cases hop : op.type? v.type = none
  · obtain ⟨rfl, hfault⟩ := UnaryOp.apply_of_type?_eq_none hop
    rw [hfault]
    exact .rejects (.unary hright hop) (.minus hright)
  · have hanswers : answerType? (op.apply v) ≠ none := by rwa [op.answerType?_apply]
    obtain ⟨answer, hanswer⟩ := exists_eq_ok_of_answerType? hanswers
    rw [hanswer]
    exact .accepts answer (.unary hright hop)

theorem course_binary (op : BinaryOp) (t : Token) (hleft : left.eval = .ok v)
    (hright : right.eval = .ok w) :
    Course [binary op t left right] (blame t (op.apply v w)) := by
  by_cases hop : op.type? v.type w.type = none
  · have hrejects : (binary op t left right).Rejects := .binary hleft hright hop
    rcases BinaryOp.apply_of_type?_eq_none hop with ⟨rfl, hfault⟩ | ⟨hnumeric, hfault⟩
    · rw [hfault]
      exact .rejects hrejects (.add hleft hright)
    · rw [hfault]
      exact .rejects hrejects (.numeric hnumeric hleft hright)
  · have hanswers : answerType? (op.apply v w) ≠ none := by rwa [op.answerType?_apply]
    obtain ⟨answer, hanswer⟩ := exists_eq_ok_of_answerType? hanswers
    rw [hanswer]
    exact .accepts answer (.binary hleft hright hop)

end

theorem course_eval (e : Expr) : Course e.operations e.eval := by
  induction e with
  | literal v => exact .value v (by simp [operations])
  | group inner ih => exact ih
  | unary op t right ih =>
      rw [eval_unary]
      exact ih.bind fun v hright => course_unary op t hright
  | binary op t left right ihl ihr =>
      rw [eval_binary, operations, List.append_assoc]
      refine ihl.bind fun v hleft => ihr.bind fun w hright => ?_
      exact course_binary op t hleft hright

theorem Rejects.between_eq_nil {between back back' : List Expr} {node' : Expr}
    (h : node.Rejects) (haccepted : ∀ earlier ∈ between, earlier.Accepts)
    (horder : node :: back = between ++ node' :: back') : between = [] ∧ node' = node := by
  cases between with
  | nil => exact ⟨rfl, (List.cons.inj horder).1.symm⟩
  | cons other between =>
      -- then `node` itself is one of those that accept their operands
      obtain ⟨rfl, -⟩ := List.cons.inj horder
      exact absurd h (haccepted node List.mem_cons_self).not_rejects

theorem FirstRejection.unique {front' : List Expr} {node' : Expr} (h : e.FirstRejection front node)
    (h' : e.FirstRejection front' node') : front' = front ∧ node' = node := by
  obtain ⟨back, horder⟩ := h.order
  obtain ⟨back', horder'⟩ := h'.order
  rcases List.append_eq_append_iff.1 (horder.symm.trans horder') with
    ⟨between, rfl, hbetween⟩ | ⟨between, rfl, hbetween⟩
  · obtain ⟨rfl, rfl⟩ := h.rejects.between_eq_nil
      (fun earlier hmem => h'.accepted earlier (List.mem_append_right _ hmem)) hbetween
    exact ⟨List.append_nil _, rfl⟩
  · obtain ⟨rfl, rfl⟩ := h'.rejects.between_eq_nil
      (fun earlier hmem => h.accepted earlier (List.mem_append_right _ hmem)) hbetween
    exact ⟨(List.append_nil _).symm, rfl⟩

theorem exists_firstRejection_of_eval_eq_error (h : e.eval = .error error) :
    ∃ front node, e.FirstRejection front node ∧ node.Complains error := by
  have hcourse := course_eval e
  rw [h] at hcourse
  cases hcourse with
  | blamed horder haccepted hrejects hcomplains =>
      exact ⟨_, _, ⟨⟨_, horder⟩, haccepted, hrejects⟩, hcomplains⟩

theorem FirstRejection.exists_eval_eq_error (h : e.FirstRejection front node) :
    ∃ error, e.eval = .error error ∧ node.Complains error := by
  cases heval : e.eval with
  | ok v =>
      have hcourse := course_eval e
      rw [heval] at hcourse
      cases hcourse with
      | value _ haccepted =>
          obtain ⟨back, horder⟩ := h.order
          exact absurd h.rejects (haccepted node (by simp [horder])).not_rejects
  | error error =>
      obtain ⟨front', node', h', hcomplains⟩ := exists_firstRejection_of_eval_eq_error heval
      obtain ⟨rfl, rfl⟩ := h.unique h'
      exact ⟨error, rfl, hcomplains⟩

theorem Complains.unique {error' : RuntimeError} (h : node.Complains error)
    (h' : node.Complains error') : error' = error := by
  cases h with
  | minus hright =>
      cases h' with
      | minus hright' => rw [Except.ok.inj (hright.symm.trans hright')]
  | add hleft hright =>
      cases h' with
      | add hleft' hright' =>
          rw [Except.ok.inj (hleft.symm.trans hleft'), Except.ok.inj (hright.symm.trans hright')]
      | numeric hop => exact absurd hop (by decide)
  | numeric hop hleft hright =>
      cases h' with
      | add => exact absurd hop (by decide)
      | numeric _ hleft' hright' =>
          rw [Except.ok.inj (hleft.symm.trans hleft'), Except.ok.inj (hright.symm.trans hright')]

/-- Evaluation fails exactly if, in left-to-right post-order, some operator is the first to reject
the values of its operands. There is one such operator only; the error holds its token, the kind of
complaint that goes with it and the values of its operands in order. It is neither a negation of
truth nor an equality. -/
theorem eval_blames_first_rejection (e : Expr) :
    (∀ error, e.eval = .error error ↔
        ∃ front node, e.FirstRejection front node ∧ node.Complains error) ∧
      ∀ front node, e.FirstRejection front node →
        (∀ front' node', e.FirstRejection front' node' → front' = front ∧ node' = node) ∧
        (∃ error, e.eval = .error error ∧ node.Complains error) ∧
        (∀ t right, node ≠ .unary .bang t right) ∧
        ∀ op t left right, node = .binary op t left right → op ≠ .equal ∧ op ≠ .notEqual := by
  refine ⟨fun error => ⟨exists_firstRejection_of_eval_eq_error, ?_⟩, ?_⟩
  · rintro ⟨front, node, hfirst, hcomplains⟩
    obtain ⟨error', herror', hcomplains'⟩ := hfirst.exists_eval_eq_error
    rw [herror', hcomplains.unique hcomplains']
  · intro front node hfirst
    have hfails := hfirst.exists_eval_eq_error
    refine ⟨fun _ _ h' => hfirst.unique h', hfails, ?_, ?_⟩
    · rintro t right rfl
      obtain ⟨error, -, hcomplains⟩ := hfails
      cases hcomplains
    · rintro op t left right rfl
      obtain ⟨error, -, hcomplains⟩ := hfails
      cases hcomplains with
      | add => decide
      | numeric hop =>
          have hequal : BinaryOp.equal ∉ BinaryOp.numericOps := by decide
          have hnotEqual : BinaryOp.notEqual ∉ BinaryOp.numericOps := by decide
          exact ⟨fun heq => hequal (heq ▸ hop), fun heq => hnotEqual (heq ▸ hop)⟩

/-- In `-"a" + (1 < nil)` two operators reject their operands; the one further left is blamed. -/
example (plus minus less : Token) :
    (binary .add plus (.unary .minus minus (.literal (.string "a")))
      (.binary .less less (.literal (.number 1)) (.literal .nil)) : Expr).eval =
      .error ⟨.nonNumeric (.string "a"), minus⟩ := rfl

end Expr
end Lox
