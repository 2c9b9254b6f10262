import Lox.Expr.Grammar

/-!
# Derivations of expressions

The rules of the grammar as a relation between the tokens of an expression and its tree. Which
operators a rule has, and which tokens they are written with, is spelled out (`UnaryOp.Writes`,
`Tier.Writes`), apart from the lists that the readers go by. A tier derives an operand, or itself in
front of one of its operators and an operand, so that its operators fold to the left; `Folds` is the
same chain seen from its first operand. `Expr.need` is the room for nesting that a tree takes up
when it is read, and `Rule.Stops` says which tokens end a rule.
-/

namespace Lox

inductive UnaryOp.Writes : UnaryOp → Kind → Prop
  | bang : Writes .bang (.symbol .bang)
  | minus : Writes .minus (.symbol .minus)

inductive Tier.Writes : Tier → BinaryOp → Kind → Prop
  | notEqual : Writes .equality .notEqual (.symbol .bangEqual)
  | equal : Writes .equality .equal (.symbol .equalEqual)
  | greater : Writes .comparison .greater (.symbol .greater)
  | greaterEqual : Writes .comparison .greaterEqual (.symbol .greaterEqual)
  | less : Writes .comparison .less (.symbol .less)
  | lessEqual : Writes .comparison .lessEqual (.symbol .lessEqual)
  | subtract : Writes .term .subtract (.symbol .minus)
  | add : Writes .term .add (.symbol .plus)
  | divide : Writes .factor .divide (.symbol .slash)
  | multiply : Writes .factor .multiply (.symbol .star)

def Kind.binaryOperators : List Kind :=
  [.symbol .bangEqual, .symbol .equalEqual, .symbol .greater, .symbol .greaterEqual, .symbol .less,
    .symbol .lessEqual, .symbol .minus, .symbol .plus, .symbol .slash, .symbol .star]

def BinaryOp.tier : BinaryOp → Tier
  | equal | notEqual => .equality
  | less | lessEqual | greater | greaterEqual => .comparison
  | add | subtract => .term
  | multiply | divide => .factor

section

variable {tier tier' : Tier} {k : Kind}

theorem UnaryOp.writes_iff {op : UnaryOp} : op.Writes k ↔ UnaryOp.ofKind? k = some op := by
  constructor
  · intro h
    cases h <;> rfl
  · intro h
    rw [UnaryOp.ofKind?_eq_some.1 h]
    cases op with
    | bang => exact .bang
    | minus => exact .minus

namespace Tier

variable {op op' : BinaryOp}

theorem Writes.kind_eq (h : tier.Writes op k) : k = .symbol op.symbol := by
  cases h <;> rfl

theorem Writes.tier_eq (h : tier.Writes op k) : op.tier = tier := by
  cases h <;> rfl

theorem writes_tier (op : BinaryOp) : op.tier.Writes op (.symbol op.symbol) := by
  cases op <;> constructor

theorem Writes.unique (h : tier.Writes op k) (h' : tier'.Writes op' k) :
    tier = tier' ∧ op = op' := by
  have hop := BinaryOp.ofKind?_eq_some.2 h.kind_eq
  have hop' := BinaryOp.ofKind?_eq_some.2 h'.kind_eq
  obtain rfl : op = op' := Option.some.inj (hop.symm.trans hop')
  exact ⟨h.tier_eq.symm.trans h'.tier_eq, rfl⟩

/-- The list of a tier holds the kinds its operators are written with. -/
theorem operator?_eq_some : tier.operator? k = some op ↔ tier.Writes op k := by
  constructor
  · intro h
    unfold operator? at h
    split at h
    · next hmem =>
      have hkind := BinaryOp.ofKind?_eq_some.1 h
      have htier : op.tier = tier := by
        rw [hkind] at hmem
        revert hmem
        cases tier <;> cases op <;> decide
      rw [hkind, ← htier]
      exact writes_tier op
    · cases h
  · intro h
    cases h <;> rfl

end Tier

/-- The kinds that stand for an operator are the ten. -/
theorem BinaryOp.ofKind?_eq_none_iff : BinaryOp.ofKind? k = none ↔ k ∉ Kind.binaryOperators := by
  rw [Option.eq_none_iff_forall_ne_some]
  constructor
  · intro h hmem
    simp only [Kind.binaryOperators, List.mem_cons, List.not_mem_nil, or_false] at hmem
    rcases hmem with rfl | rfl | rfl | rfl | rfl | rfl | rfl | rfl | rfl | rfl <;> exact h _ rfl
  · intro h op hop
    rw [BinaryOp.ofKind?_eq_some.1 hop] at h
    revert h
    cases op <;> decide

end

inductive Rule where
  | primary
  | unary
  | tier (t : Tier)
deriving DecidableEq, Inhabited

namespace Rule

def expression : Rule := .tier .equality

end Rule

namespace Tier

def operandRule : Tier → Rule
  | factor => .unary
  | term => .tier .factor
  | comparison => .tier .term
  | equality => .tier .comparison

/-- Tiers that bind less strongly have a higher rank. -/
def rank : Tier → Nat
  | factor => 1
  | term => 2
  | comparison => 3
  | equality => 4

theorem rank_injective {tier tier' : Tier} (h : tier.rank = tier'.rank) : tier = tier' := by
  revert h
  cases tier <;> cases tier' <;> decide

theorem rank_le_equality (tier : Tier) : tier.rank ≤ rank .equality := by
  cases tier <;> decide

end Tier

namespace Rule

def rank : Rule → Nat
  | primary | unary => 0
  | tier t => t.rank

@[simp] theorem rank_operandRule (t : Tier) : t.operandRule.rank + 1 = t.rank := by
  cases t <;> rfl

/-- What holds of the unary rule and passes from the operands of a tier to the tier holds of all
tiers and their operands. -/
theorem tier_induction {P : Rule → Prop} (unary : P .unary)
    (step : ∀ t : Tier, P t.operandRule → P (.tier t)) (t : Tier) :
    P t.operandRule ∧ P (.tier t) := by
  have factor : P (.tier .factor) := step .factor unary
  have term : P (.tier .term) := step .term factor
  have comparison : P (.tier .comparison) := step .comparison term
  cases t with
  | factor => exact ⟨unary, factor⟩
  | term => exact ⟨factor, term⟩
  | comparison => exact ⟨term, comparison⟩
  | equality => exact ⟨comparison, step .equality comparison⟩

/-- No operator at the front of the tokens continues what the rule derives. -/
def Stops (rule : Rule) (ts : List Token) : Prop :=
  ∀ t ∈ ts.head?, ∀ tier op, Tier.Writes tier op t.kind → rule.rank < tier.rank

end Rule

inductive Token.Denotes (t : Token) : Value → Prop
  | number {x : Float} (hkind : t.kind = .number) (hliteral : t.literal = some (.number x)) :
      Denotes t (.number x)
  | string {s : String} (hkind : t.kind = .string) (hliteral : t.literal = some (.string s)) :
      Denotes t (.string s)
  | trueWord (hkind : t.kind = .keyword .trueWord) : Denotes t (.bool true)
  | falseWord (hkind : t.kind = .keyword .falseWord) : Denotes t (.bool false)
  | nilWord (hkind : t.kind = .keyword .nilWord) : Denotes t .nil

/-- A rule derives a tree from the tokens it consumes. Operators are kept in the tree with their
tokens; parentheses and the tokens of literals are not. -/
inductive Derives : Rule → List Token → Expr → Prop
  | literal {t : Token} {v : Value} (hv : t.Denotes v) : Derives .primary [t] (.literal v)
  | group {opening closing : Token} {ts : List Token} {e : Expr}
      (hopen : opening.kind = .symbol .leftParen) (hinner : Derives .expression ts e)
      (hclose : closing.kind = .symbol .rightParen) :
      Derives .primary (opening :: (ts ++ [closing])) (.group e)
  | primary {ts : List Token} {e : Expr} (h : Derives .primary ts e) : Derives .unary ts e
  | unary {t : Token} {op : UnaryOp} {ts : List Token} {e : Expr}
      (hop : op.Writes t.kind) (hright : Derives .unary ts e) :
      Derives .unary (t :: ts) (.unary op t e)
  | operand {tier : Tier} {ts : List Token} {e : Expr} (h : Derives tier.operandRule ts e) :
      Derives (.tier tier) ts e
  | binary {tier : Tier} {t : Token} {op : BinaryOp} {ls rs : List Token} {l r : Expr}
      (hleft : Derives (.tier tier) ls l) (hop : tier.Writes op t.kind)
      (hright : Derives tier.operandRule rs r) :
      Derives (.tier tier) (ls ++ t :: rs) (.binary op t l r)

/-- Operators of a tier with their operands, folded onto the tree `left`. -/
inductive Folds (tier : Tier) : Expr → List Token → Expr → Prop
  | nil {left : Expr} : Folds tier left [] left
  | cons {left r e : Expr} {t : Token} {op : BinaryOp} {rs ts : List Token}
      (hop : tier.Writes op t.kind) (hright : Derives tier.operandRule rs r)
      (hrest : Folds tier (.binary op t left r) ts e) :
      Folds tier left (t :: (rs ++ ts)) e

namespace Expr

/-- The binary operators of one tier that follow each other on the left spine. -/
def spine (tier : Tier) : Expr → Nat
  | binary op _ left _ => if op.tier = tier then left.spine tier + 1 else 0
  | _ => 0

/-- The room for nesting that reading the tree takes up. The operators of a chain take one unit each
and hold it up to the end of the chain, so an operand finds those of all operators in front of it
gone. -/
def need : Expr → Nat
  | literal _ => 0
  | group inner => inner.need + 1
  | unary _ _ right => right.need + 1
  | e@(binary op _ left right) => max left.need (e.spine op.tier + right.need)

@[simp] theorem spine_binary_self (op : BinaryOp) (t : Token) (left right : Expr) :
    (binary op t left right).spine op.tier = left.spine op.tier + 1 := by
  simp only [spine, if_true]

theorem need_binary (op : BinaryOp) (t : Token) (left right : Expr) :
    (binary op t left right).need =
      max left.need (left.spine op.tier + 1 + right.need) := by
  simp only [need, spine_binary_self]

end Expr

namespace Rule

variable {tier : Tier} {t : Token} {ts : List Token}

@[simp] theorem stops_nil (rule : Rule) : rule.Stops [] := by
  simp [Stops]

theorem stops_cons {rule : Rule} :
    rule.Stops (t :: ts) ↔ ∀ tier op, Tier.Writes tier op t.kind → rule.rank < tier.rank := by
  simp [Stops]

@[simp] theorem stops_unary (ts : List Token) : Rule.unary.Stops ts := by
  intro t _ tier _ _
  cases tier <;> decide

theorem stops_expression_cons :
    Rule.expression.Stops (t :: ts) ↔ BinaryOp.ofKind? t.kind = none := by
  rw [stops_cons, Option.eq_none_iff_forall_ne_some]
  constructor
  · intro h op hop
    have hwrites := Tier.writes_tier op
    rw [← BinaryOp.ofKind?_eq_some.1 hop] at hwrites
    exact absurd (h _ op hwrites) (Nat.not_lt_of_le op.tier.rank_le_equality)
  · intro h tier op hop
    exact absurd (BinaryOp.ofKind?_eq_some.2 hop.kind_eq) (h op)

theorem stops_operandRule_of_operator {op : BinaryOp} (hop : tier.Writes op t.kind) :
    tier.operandRule.Stops (t :: ts) := by
  rw [stops_cons]
  intro tier' op' hop'
  obtain ⟨rfl, -⟩ := hop.unique hop'
  have := rank_operandRule tier
  omega

theorem stops_operandRule_of_stops_tier (h : (Rule.tier tier).Stops ts) :
    tier.operandRule.Stops ts := by
  intro t ht tier' op hop
  have hlt : tier.rank < tier'.rank := h t ht tier' op hop
  have := rank_operandRule tier
  omega

theorem operator?_eq_none_of_stops (h : (Rule.tier tier).Stops (t :: ts)) :
    tier.operator? t.kind = none := by
  rw [Option.eq_none_iff_forall_ne_some]
  intro op hop
  exact absurd (stops_cons.1 h tier op (Tier.operator?_eq_some.1 hop)) (Nat.lt_irrefl _)

theorem stops_tier_of_operand (hoperand : tier.operandRule.Stops (t :: ts))
    (hnone : tier.operator? t.kind = none) : (Rule.tier tier).Stops (t :: ts) := by
  rw [stops_cons] at hoperand ⊢
  intro tier' op hop
  have hle : tier.operandRule.rank < tier'.rank := hoperand tier' op hop
  have hrank := rank_operandRule tier
  have hne : tier'.rank ≠ tier.rank := by
    intro he
    obtain rfl := Tier.rank_injective he
    rw [Tier.operator?_eq_some.2 hop] at hnone
    cases hnone
  change tier.rank < tier'.rank
  omega

end Rule

theorem Grammar.leaf?_eq_some {t : Token} {v : Value} : leaf? t = some v ↔ t.Denotes v := by
  constructor
  · intro h
    unfold leaf? at h
    split at h
    case h_1 _ hkind => cases h; exact .falseWord hkind
    case h_2 _ hkind => cases h; exact .trueWord hkind
    case h_3 _ hkind => cases h; exact .nilWord hkind
    case h_4 hkind hliteral => cases h; exact .number hkind hliteral
    case h_5 hkind hliteral => cases h; exact .string hkind hliteral
    case h_6 => cases h
  · intro h
    cases h with
    | number hkind hliteral | string hkind hliteral => simp only [leaf?, hkind, hliteral]
    | trueWord hkind | falseWord hkind | nilWord hkind => simp only [leaf?, hkind]

theorem Token.Denotes.kind_ne {t : Token} {v : Value} (h : t.Denotes v) :
    t.kind ≠ .eof ∧ t.kind ≠ .symbol .leftParen ∧ UnaryOp.ofKind? t.kind = none := by
  cases h <;> simp_all [UnaryOp.ofKind?]

namespace Derives

variable {rule : Rule} {tier : Tier} {t : Token} {ts : List Token} {e : Expr}

theorem ne_nil (h : Derives rule ts e) : ts ≠ [] := by
  induction h with
  | literal | group | unary | binary => simp
  | primary _ ih | operand _ ih => exact ih

theorem kind_ne_eof (h : Derives rule ts e) : ∀ t ∈ ts, t.kind ≠ .eof := by
  induction h with
  | literal hv => simpa using hv.kind_ne.1
  | group hopen _ hclose ih =>
      intro t ht
      simp only [List.mem_cons, List.mem_append, List.not_mem_nil, or_false] at ht
      rcases ht with rfl | ht | rfl
      · simp [hopen]
      · exact ih t ht
      · simp [hclose]
  | primary _ ih | operand _ ih => exact ih
  | unary hop _ ih =>
      intro t ht
      rcases List.mem_cons.1 ht with rfl | ht
      · simp [UnaryOp.ofKind?_eq_some.1 (UnaryOp.writes_iff.1 hop)]
      · exact ih t ht
  | binary _ hop _ ihl ihr =>
      intro t ht
      rcases List.mem_append.1 ht with ht | ht
      · exact ihl t ht
      · rcases List.mem_cons.1 ht with rfl | ht
        · simp [hop.kind_eq]
        · exact ihr t ht

/-- The operator at the root belongs to the rule or binds more strongly. -/
theorem rank_root_le (h : Derives rule ts e) {op : BinaryOp} {l r : Expr}
    (he : e = .binary op t l r) : op.tier.rank ≤ rule.rank := by
  induction h with
  | literal | group | unary => cases he
  | primary _ ih => exact ih he
  | @operand tier _ _ _ ih =>
      have hle := ih he
      have := Rule.rank_operandRule tier
      change op.tier.rank ≤ tier.rank
      omega
  | binary _ hop _ _ _ =>
      cases he
      exact Nat.le_of_eq (congrArg Tier.rank hop.tier_eq)

theorem spine_eq_zero (h : Derives tier.operandRule ts e) : e.spine tier = 0 := by
  cases e with
  | literal | group | unary => rfl
  | binary op t l r =>
      have hle := h.rank_root_le rfl
      have hrank := Rule.rank_operandRule tier
      have hne : op.tier ≠ tier := by rintro rfl; omega
      simp only [Expr.spine, if_neg hne]

theorem unary_of_op {op : UnaryOp} (hop : UnaryOp.ofKind? t.kind = some op) :
    Derives .unary (t :: ts) e ↔ ∃ right, Derives .unary ts right ∧ e = .unary op t right := by
  constructor
  · intro h
    cases h with
    | primary h =>
        cases h with
        | literal hv => rw [hv.kind_ne.2.2] at hop; cases hop
        | group hopen => rw [hopen] at hop; cases hop
    | unary hop' hright =>
        obtain rfl := Option.some.inj (hop.symm.trans (UnaryOp.writes_iff.1 hop'))
        exact ⟨_, hright, rfl⟩
  · intro h
    obtain ⟨right, hright, rfl⟩ := h
    exact .unary (UnaryOp.writes_iff.2 hop) hright

theorem unary_of_paren (hopen : t.kind = .symbol .leftParen) :
    Derives .unary (t :: ts) e ↔ ∃ body closing inner, ts = body ++ [closing] ∧
      closing.kind = .symbol .rightParen ∧ Derives .expression body inner ∧ e = .group inner := by
  constructor
  · intro h
    cases h with
    | primary h =>
        cases h with
        | literal hv => exact absurd hopen hv.kind_ne.2.1
        | group _ hinner hclose => exact ⟨_, _, _, rfl, hclose, hinner, rfl⟩
    | unary hop _ =>
        rw [hopen] at hop
        cases hop
  · intro h
    obtain ⟨body, closing, inner, rfl, hclose, hinner, rfl⟩ := h
    exact .primary (.group hopen hinner hclose)

theorem unary_of_leaf (hop : UnaryOp.ofKind? t.kind = none)
    (hparen : t.kind ≠ .symbol .leftParen) :
    Derives .unary (t :: ts) e ↔ ts = [] ∧ ∃ v, t.Denotes v ∧ e = .literal v := by
  constructor
  · intro h
    cases h with
    | primary h =>
        cases h with
        | literal hv => exact ⟨rfl, _, hv, rfl⟩
        | group hopen => exact absurd hopen hparen
    | unary hop' _ =>
        rw [UnaryOp.writes_iff.1 hop'] at hop
        cases hop
  · intro h
    obtain ⟨rfl, v, hv, rfl⟩ := h
    exact .primary (.literal hv)

end Derives

namespace Folds

variable {tier : Tier} {ts : List Token} {left e : Expr}

theorem snoc (h : Folds tier left ts e) {t : Token} {op : BinaryOp} {rs : List Token} {r : Expr}
    (hop : tier.Writes op t.kind) (hright : Derives tier.operandRule rs r) :
    Folds tier left (ts ++ t :: rs) (.binary op t e r) := by
  induction h with
  | nil => simpa using Folds.cons hop hright .nil
  | cons hop' hright' _ ih => simpa using Folds.cons hop' hright' ih

theorem derives (h : Folds tier left ts e) {ls : List Token}
    (hleft : Derives (.tier tier) ls left) :
    Derives (.tier tier) (ls ++ ts) e := by
  induction h generalizing ls with
  | nil => simpa using hleft
  | cons hop hright _ ih => simpa using ih (.binary hleft hop hright)

theorem need_le (h : Folds tier left ts e) : left.need ≤ e.need := by
  induction h with
  | nil => exact Nat.le_refl _
  | cons _ _ _ ih =>
      rw [Expr.need_binary] at ih
      omega

/-- Whatever follows the first operand ends it: an operator of the tier, or the end of the chain. -/
theorem stops_operandRule (h : Folds tier left ts e) {rest : List Token}
    (hstops : (Rule.tier tier).Stops rest) : tier.operandRule.Stops (ts ++ rest) := by
  cases h with
  | nil => exact Rule.stops_operandRule_of_stops_tier hstops
  | cons hop => exact Rule.stops_operandRule_of_operator hop

/-- Seen from an operator in front, the chain goes on behind its right operand. -/
theorem exists_append_iff {t : Token} {op : BinaryOp} (hop : tier.operator? t.kind = some op)
    {rest : List Token} (hstops : (Rule.tier tier).Stops rest) :
    (∃ used, t :: ts = used ++ rest ∧ Folds tier left used e) ↔
      ∃ rs used r, ts = rs ++ (used ++ rest) ∧ Derives tier.operandRule rs r ∧
        Folds tier (.binary op t left r) used e := by
  have hwrites := Tier.operator?_eq_some.1 hop
  constructor
  · intro h
    obtain ⟨used, hused, hfolds⟩ := h
    cases hfolds with
    | nil =>
        rw [List.nil_append] at hused
        subst hused
        rw [Rule.operator?_eq_none_of_stops hstops] at hop
        cases hop
    | @cons _ r _ t' op' rs us hop' hright hrest =>
        obtain ⟨rfl, rfl⟩ := List.cons.inj hused
        obtain ⟨-, rfl⟩ := hwrites.unique hop'
        exact ⟨rs, us, r, List.append_assoc .., hright, hrest⟩
  · intro h
    obtain ⟨rs, used, r, rfl, hright, hrest⟩ := h
    exact ⟨t :: (rs ++ used), by simp, .cons hwrites hright hrest⟩

end Folds

/-- A tier derives a first operand with the operators of the tier folded onto it. -/
theorem Derives.tier_iff_folds {tier : Tier} {ts : List Token} {e : Expr} :
    Derives (.tier tier) ts e ↔
      ∃ ls rs left, ts = ls ++ rs ∧ Derives tier.operandRule ls left ∧ Folds tier left rs e := by
  constructor
  · intro h
    generalize hrule : Rule.tier tier = rule at h
    induction h with
    | literal | group | primary | unary => cases hrule
    | operand h =>
        cases hrule
        exact ⟨_, [], _, (List.append_nil _).symm, h, .nil⟩
    | binary _ hop hright ihl _ =>
        cases hrule
        obtain ⟨ls, rs, left, rfl, hleft, hfolds⟩ := ihl rfl
        exact ⟨ls, _, left, List.append_assoc .., hleft, hfolds.snoc hop hright⟩
  · intro h
    obtain ⟨ls, rs, left, rfl, hleft, hfolds⟩ := h
    exact hfolds.derives (.operand hleft)

end Lox
