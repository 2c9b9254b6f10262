import Lox.Expr.Basic

/-!
# Reading expressions

```text
expression → equality
equality   → comparison ( ( "!=" | "==" ) comparison )*
comparison → term ( ( ">" | ">=" | "<" | "<=" ) term )*
term       → factor ( ( "-" | "+" ) factor )*
factor     → unary ( ( "/" | "*" ) unary )*
unary      → ( "!" | "-" ) unary | primary
primary    → NUMBER | STRING | "true" | "false" | "nil" | "(" expression ")"
```

Each rule reads from the front of a list of tokens and gives the tree with the tokens behind it, or
the reason for stopping with the tokens from the stop on. A rule with operators goes on at the
tokens whose kinds it lists. All rules get the room that is left for nesting: a group, a unary
operator and every operator of a chain takes one unit of it, and a chain gives back what its
operators took.
-/

namespace Lox

/-- The levels of binary operators that bind equally strongly. -/
inductive Tier where
  | equality | comparison | term | factor
deriving DecidableEq, Inhabited

namespace Tier

def operators : Tier → List Kind
  | equality => [.symbol .bangEqual, .symbol .equalEqual]
  | comparison => [.symbol .greater, .symbol .greaterEqual, .symbol .less, .symbol .lessEqual]
  | term => [.symbol .minus, .symbol .plus]
  | factor => [.symbol .slash, .symbol .star]

def operator? (tier : Tier) (k : Kind) : Option BinaryOp :=
  if k ∈ tier.operators then BinaryOp.ofKind? k else none

/-- Every kind that a tier lists stands for an operator. -/
theorem mem_operators_iff {tier : Tier} {k : Kind} :
    k ∈ tier.operators ↔ ∃ op, tier.operator? k = some op := by
  constructor
  · intro h
    have hop : (BinaryOp.ofKind? k).isSome := by
      cases tier <;> simp only [operators, List.mem_cons, List.not_mem_nil, or_false] at h <;>
        rcases h with rfl | rfl | rfl | rfl <;> rfl
    rw [operator?, if_pos h]
    exact Option.isSome_iff_exists.1 hop
  · rintro ⟨op, hop⟩
    unfold operator? at hop
    split at hop
    · assumption
    · cases hop

/-- The tiers that bind more strongly, the strongest first. -/
def tighter : Tier → List Tier
  | factor => []
  | term => [factor]
  | comparison => [factor, term]
  | equality => [factor, term, comparison]

def all : List Tier :=
  [factor, term, comparison, equality]

end Tier

inductive Obstacle where
  | expectedExpression
  | unclosedGroup
  | tooDeeplyNested
deriving DecidableEq, Inhabited

namespace Grammar

def unaryOperators : List Kind :=
  [.symbol .bang, .symbol .minus]

def unaryOperator? (k : Kind) : Option UnaryOp :=
  if k ∈ unaryOperators then UnaryOp.ofKind? k else none

theorem mem_unaryOperators_iff {k : Kind} :
    k ∈ unaryOperators ↔ ∃ op, UnaryOp.ofKind? k = some op := by
  constructor
  · intro h
    simp only [unaryOperators, List.mem_cons, List.not_mem_nil, or_false] at h
    rcases h with rfl | rfl
    · exact ⟨.bang, rfl⟩
    · exact ⟨.minus, rfl⟩
  · rintro ⟨op, hop⟩
    rw [UnaryOp.ofKind?_eq_some.1 hop]
    cases op <;> decide

theorem unaryOperator?_eq (k : Kind) : unaryOperator? k = UnaryOp.ofKind? k := by
  unfold unaryOperator?
  split
  · rfl
  · next h =>
    rw [mem_unaryOperators_iff, not_exists] at h
    exact (Option.eq_none_iff_forall_ne_some.2 h).symm

/-- A tree and the tokens behind it, or an obstacle and the tokens from there on. -/
abbrev Outcome := Except (Obstacle × List Token) (Expr × List Token)

def andThen (first : Outcome) (next : Expr → List Token → Outcome) : Outcome :=
  match first with
  | .error stop => .error stop
  | .ok (e, rest) => next e rest

/-- Reads an operand with `unary`, then the chains of the tiers in turn. -/
def climb (unary : List Token → Outcome) (chain : Tier → Expr → List Token → Outcome)
    (tiers : List Tier) (ts : List Token) : Outcome :=
  tiers.foldl (fun first tier => andThen first (chain tier)) (unary ts)

def leaf? (t : Token) : Option Value :=
  match t.kind, t.literal with
  | .keyword .falseWord, _ => some (.bool false)
  | .keyword .trueWord, _ => some (.bool true)
  | .keyword .nilWord, _ => some .nil
  | .number, some (.number x) => some (.number x)
  | .string, some (.string s) => some (.string s)
  | _, _ => none

def leaf (t : Token) (rest : List Token) : Outcome :=
  match leaf? t with
  | some v => .ok (.literal v, rest)
  | none => .error (.expectedExpression, t :: rest)

def closeGroup (inner : Expr) : List Token → Outcome
  | [] => .error (.unclosedGroup, [])
  | t :: rest =>
    if t.kind = .symbol .rightParen then .ok (.group inner, rest)
    else .error (.unclosedGroup, t :: rest)

mutual

def unary (room : Nat) (ts : List Token) : Outcome :=
  match ts with
  | [] => .error (.expectedExpression, [])
  | t :: rest =>
    match unaryOperator? t.kind, room with
    | some _, 0 => .error (.tooDeeplyNested, rest)
    | some op, room + 1 =>
      andThen (unary room rest) fun right rest => .ok (.unary op t right, rest)
    | none, 0 =>
      if t.kind = .symbol .leftParen then .error (.tooDeeplyNested, rest) else leaf t rest
    | none, room + 1 =>
      if t.kind = .symbol .leftParen then
        andThen (climb (unary room) (chain room) Tier.all rest) closeGroup
      else leaf t rest
termination_by structural room

/-- Operators of one tier behind the operand `left`, folded to the left. -/
def chain (room : Nat) (tier : Tier) (left : Expr) (ts : List Token) : Outcome :=
  match ts with
  | [] => .ok (left, [])
  | t :: rest =>
    match tier.operator? t.kind, room with
    | none, _ => .ok (left, t :: rest)
    | some _, 0 => .error (.tooDeeplyNested, rest)
    | some op, room + 1 =>
      andThen (climb (unary room) (chain room) tier.tighter rest) fun right rest =>
        chain room tier (.binary op t left right) rest
termination_by structural room

end

/-- An operand of a tier, with all operators that bind more strongly. -/
def operand (room : Nat) (tier : Tier) (ts : List Token) : Outcome :=
  climb (unary room) (chain room) tier.tighter ts

def expression (room : Nat) (ts : List Token) : Outcome :=
  climb (unary room) (chain room) Tier.all ts

variable {room : Nat} {tier : Tier} {left : Expr} {t : Token} {rest : List Token}

@[simp] theorem unary_nil : unary room [] = .error (.expectedExpression, []) := by
  rw [unary]

theorem unary_zero_of_op {op : UnaryOp} (h : UnaryOp.ofKind? t.kind = some op) :
    unary 0 (t :: rest) = .error (.tooDeeplyNested, rest) := by
  rw [unary.eq_def]
  simp only [unaryOperator?_eq, h]

theorem unary_succ_of_op {op : UnaryOp} (h : UnaryOp.ofKind? t.kind = some op) :
    unary (room + 1) (t :: rest) =
      andThen (unary room rest) fun right rest => .ok (.unary op t right, rest) := by
  rw [unary.eq_def]
  simp only [unaryOperator?_eq, h]

theorem unary_zero_of_paren (h : t.kind = .symbol .leftParen) :
    unary 0 (t :: rest) = .error (.tooDeeplyNested, rest) := by
  simp only [unary, h, unaryOperator?_eq, UnaryOp.ofKind?, if_true]

theorem unary_succ_of_paren (h : t.kind = .symbol .leftParen) :
    unary (room + 1) (t :: rest) = andThen (expression room rest) closeGroup := by
  simp only [unary, h, unaryOperator?_eq, UnaryOp.ofKind?, if_true, expression]

theorem unary_of_leaf (hop : UnaryOp.ofKind? t.kind = none)
    (hparen : t.kind ≠ .symbol .leftParen) : unary room (t :: rest) = leaf t rest := by
  cases room <;> simp only [unary, unaryOperator?_eq, hop, if_neg hparen]

@[simp] theorem chain_nil : chain room tier left [] = .ok (left, []) := by
  rw [chain]

theorem chain_of_none (h : tier.operator? t.kind = none) :
    chain room tier left (t :: rest) = .ok (left, t :: rest) := by
  simp only [chain, h]

theorem chain_zero_of_op {op : BinaryOp} (h : tier.operator? t.kind = some op) :
    chain 0 tier left (t :: rest) = .error (.tooDeeplyNested, rest) := by
  rw [chain.eq_def]
  simp only [h]

theorem chain_succ_of_op {op : BinaryOp} (h : tier.operator? t.kind = some op) :
    chain (room + 1) tier left (t :: rest) =
      andThen (operand room tier rest) fun right rest =>
        chain room tier (.binary op t left right) rest := by
  rw [chain.eq_def]
  simp only [h, operand]

end Grammar
end Lox
