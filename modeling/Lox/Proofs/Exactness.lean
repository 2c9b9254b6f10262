import Lox.Proofs.Derivation
import Lox.Proofs.Positions

/-!
# Reading is exact

Each reader accepts what its rule derives within the room for nesting, up to the first token that
does not continue the rule, and it accepts nothing else. The induction is on the room: a unary
operator, a group and an operator of a chain hand one unit less to what they read, while the tiers
above an operand are climbed with the room unchanged. A chain that has folded `k` operators onto its
first operand has `k` units less than the tier it belongs to, so `ChainExact` adds the left spine of
the tree read so far to the room.
-/

namespace Lox

/-- The tiers whose chains are read behind a unary expression, the strongest first. -/
def Rule.tiers : Rule → List Tier
  | primary | unary => []
  | tier t => t.tighter ++ [t]

namespace Grammar

def read (room : Nat) (rule : Rule) (ts : List Token) : Outcome :=
  climb (unary room) (chain room) rule.tiers ts

def Exact (room : Nat) (rule : Rule) : Prop :=
  ∀ ts e rest, read room rule ts = .ok (e, rest) ↔
    ∃ used, ts = used ++ rest ∧ Derives rule used e ∧ e.need ≤ room ∧ rule.Stops rest

def ChainExact (room : Nat) : Prop :=
  ∀ (tier : Tier) left ts e rest, tier.operandRule.Stops ts → left.need ≤ room + left.spine tier →
    (chain room tier left ts = .ok (e, rest) ↔
      ∃ used, ts = used ++ rest ∧ Folds tier left used e ∧ e.need ≤ room + left.spine tier ∧
        (Rule.tier tier).Stops rest)

variable {room : Nat} {tier : Tier} {left e : Expr} {t : Token} {ts rest : List Token}

theorem read_unary (room : Nat) (ts : List Token) : read room .unary ts = unary room ts := rfl

theorem read_tier (room : Nat) (tier : Tier) (ts : List Token) :
    read room (.tier tier) ts = andThen (read room tier.operandRule ts) (chain room tier) := by
  cases tier <;> rfl

theorem operand_eq_read (room : Nat) (tier : Tier) (ts : List Token) :
    operand room tier ts = read room tier.operandRule ts := by
  cases tier <;> rfl

theorem andThen_eq_ok {first : Outcome} {next : Expr → List Token → Outcome}
    {result : Expr × List Token} :
    andThen first next = .ok result ↔
      ∃ e rest, first = .ok (e, rest) ∧ next e rest = .ok result := by
  rcases first with stop | ⟨e, rest⟩
  · simp [andThen]
  · constructor
    · intro h
      exact ⟨e, rest, rfl, h⟩
    · rintro ⟨e', rest', he, h⟩
      cases he
      exact h

theorem leaf_eq_ok : leaf t ts = .ok (e, rest) ↔ ts = rest ∧ ∃ v, t.Denotes v ∧ e = .literal v := by
  unfold leaf
  split
  · next v hv =>
    have hdenotes := leaf?_eq_some.1 hv
    constructor
    · intro h
      cases h
      exact ⟨rfl, v, hdenotes, rfl⟩
    · intro h
      obtain ⟨rfl, w, hw, rfl⟩ := h
      obtain rfl := Option.some.inj (hv.symm.trans (leaf?_eq_some.2 hw))
      rfl
  · next hnone =>
    constructor
    · intro h
      cases h
    · intro h
      obtain ⟨-, v, hv, -⟩ := h
      rw [leaf?_eq_some.2 hv] at hnone
      cases hnone

theorem closeGroup_eq_ok {inner : Expr} :
    closeGroup inner ts = .ok (e, rest) ↔
      ∃ closing, ts = closing :: rest ∧ closing.kind = .symbol .rightParen ∧ e = .group inner := by
  cases ts with
  | nil => simp [closeGroup]
  | cons t ts =>
      by_cases ht : t.kind = .symbol .rightParen
      · simp only [closeGroup, if_pos ht, Except.ok.injEq, Prod.mk.injEq, List.cons.injEq]
        constructor
        · intro h
          obtain ⟨rfl, rfl⟩ := h
          exact ⟨t, ⟨rfl, rfl⟩, ht, rfl⟩
        · intro h
          obtain ⟨closing, ⟨rfl, rfl⟩, -, rfl⟩ := h
          exact ⟨rfl, rfl⟩
      · simp only [closeGroup, if_neg ht]
        constructor
        · intro h
          cases h
        · intro h
          obtain ⟨closing, hts, hclosing, -⟩ := h
          cases hts
          exact absurd hclosing ht

theorem chain_of_stops (h : (Rule.tier tier).Stops ts) :
    chain room tier left ts = .ok (left, ts) := by
  cases ts with
  | nil => exact chain_nil
  | cons t ts => exact chain_of_none (Rule.operator?_eq_none_of_stops h)

/-- A chain ends at once exactly where the tier stops. -/
theorem folds_iff_of_stops (h : (Rule.tier tier).Stops ts) :
    (∃ used, ts = used ++ rest ∧ Folds tier left used e ∧ (Rule.tier tier).Stops rest) ↔
      left = e ∧ ts = rest := by
  constructor
  · intro hused
    obtain ⟨used, rfl, hfolds, -⟩ := hused
    cases hfolds with
    | nil => exact ⟨rfl, rfl⟩
    | @cons _ _ _ t op _ _ hop =>
        exact absurd (Rule.stops_cons.1 h tier op hop) (Nat.lt_irrefl _)
  · intro heq
    obtain ⟨rfl, rfl⟩ := heq
    exact ⟨[], rfl, .nil, h⟩

theorem stops_or_operator (h : tier.operandRule.Stops ts) :
    (Rule.tier tier).Stops ts ∨ ∃ t op more, ts = t :: more ∧ tier.operator? t.kind = some op := by
  cases ts with
  | nil => exact .inl (Rule.stops_nil _)
  | cons t more =>
      cases hop : tier.operator? t.kind with
      | none => exact .inl (Rule.stops_tier_of_operand h hop)
      | some op => exact .inr ⟨t, op, more, rfl, hop⟩

theorem chainExact_of_stops {bound : Nat} (hleft : left.need ≤ bound)
    (h : (Rule.tier tier).Stops ts) :
    chain room tier left ts = .ok (e, rest) ↔
      ∃ used, ts = used ++ rest ∧ Folds tier left used e ∧ e.need ≤ bound ∧
        (Rule.tier tier).Stops rest := by
  rw [chain_of_stops h]
  constructor
  · intro hok
    cases hok
    exact ⟨[], rfl, .nil, hleft, h⟩
  · intro hfits
    obtain ⟨used, hused, hfolds, -, hrest⟩ := hfits
    obtain ⟨rfl, rfl⟩ := (folds_iff_of_stops h).1 ⟨used, hused, hfolds, hrest⟩
    rfl

theorem chainExact_zero : ChainExact 0 := by
  intro tier left ts e rest hts hleft
  rcases stops_or_operator hts with hstops | ⟨t, op, more, rfl, hop⟩
  · exact chainExact_of_stops hleft hstops
  rw [chain_zero_of_op hop]
  constructor
  · intro h
    cases h
  · intro h
    obtain ⟨used, hused, hfolds, hneed, hrest⟩ := h
    obtain ⟨rs, used', r, -, -, hfolds'⟩ :=
      (Folds.exists_append_iff hop hrest).1 ⟨used, hused, hfolds⟩
    -- one operator more on the spine already exceeds a room of zero
    have hle := hfolds'.need_le
    rw [Expr.need_binary, (Tier.operator?_eq_some.1 hop).tier_eq] at hle
    omega

theorem chainExact_succ (hoperand : ∀ tier : Tier, Exact room tier.operandRule)
    (hchain : ChainExact room) : ChainExact (room + 1) := by
  intro tier left ts e rest hts hleft
  rcases stops_or_operator hts with hstops | ⟨t, op, more, rfl, hop⟩
  · exact chainExact_of_stops hleft hstops
  have htier := (Tier.operator?_eq_some.1 hop).tier_eq
  have hspine (r : Expr) : (Expr.binary op t left r).spine tier = left.spine tier + 1 := by
    rw [← htier, Expr.spine_binary_self]
  have hneed (r : Expr) : (Expr.binary op t left r).need =
      max left.need (left.spine tier + 1 + r.need) := by
    rw [Expr.need_binary, htier]
  rw [chain_succ_of_op hop, andThen_eq_ok]
  constructor
  · intro h
    obtain ⟨r, mid, hread, hrest⟩ := h
    rw [operand_eq_read] at hread
    obtain ⟨rs, rfl, hr, hroom, hmid⟩ := (hoperand tier more r mid).1 hread
    have hfits : (Expr.binary op t left r).need ≤
        room + (Expr.binary op t left r).spine tier := by
      rw [hneed, hspine]
      omega
    obtain ⟨used, rfl, hfolds, hle, hstops⟩ := (hchain tier _ mid e rest hmid hfits).1 hrest
    obtain ⟨used', hused', hfolds'⟩ :=
      (Folds.exists_append_iff hop hstops).2 ⟨rs, used, r, rfl, hr, hfolds⟩
    rw [hspine] at hle
    exact ⟨used', hused', hfolds', by omega, hstops⟩
  · intro h
    obtain ⟨used, hused, hfolds, hle, hstops⟩ := h
    obtain ⟨rs, used', r, rfl, hr, hfolds'⟩ :=
      (Folds.exists_append_iff hop hstops).1 ⟨used, hused, hfolds⟩
    have hmid := hfolds'.stops_operandRule hstops
    have hgrows := hfolds'.need_le
    have hfits : (Expr.binary op t left r).need ≤
        room + (Expr.binary op t left r).spine tier := by
      rw [hspine]
      omega
    have hroom : r.need ≤ room := by
      rw [hneed] at hgrows
      omega
    refine ⟨r, used' ++ rest, ?_, ?_⟩
    · rw [operand_eq_read]
      exact (hoperand tier _ r _).2 ⟨rs, rfl, hr, hroom, hmid⟩
    · refine (hchain tier _ _ e rest hmid hfits).2 ⟨used', rfl, hfolds', ?_, hstops⟩
      rw [hspine]
      omega

theorem exact_tier (hoperand : Exact room tier.operandRule) (hchain : ChainExact room) :
    Exact room (.tier tier) := by
  intro ts e rest
  rw [read_tier, andThen_eq_ok]
  constructor
  · intro h
    obtain ⟨left, mid, hread, hrest⟩ := h
    obtain ⟨ls, rfl, hleft, hroom, hmid⟩ := (hoperand ts left mid).1 hread
    have hspine := hleft.spine_eq_zero
    obtain ⟨used, rfl, hfolds, hle, hstops⟩ := (hchain tier left mid e rest hmid (by omega)).1 hrest
    refine ⟨ls ++ used, (List.append_assoc ..).symm, ?_, by omega, hstops⟩
    exact Derives.tier_iff_folds.2 ⟨ls, used, left, rfl, hleft, hfolds⟩
  · intro h
    obtain ⟨used, rfl, he, hroom, hstops⟩ := h
    obtain ⟨ls, rs, left, rfl, hleft, hfolds⟩ := Derives.tier_iff_folds.1 he
    have hspine := hleft.spine_eq_zero
    have hgrows := hfolds.need_le
    have hmid := hfolds.stops_operandRule hstops
    refine ⟨left, rs ++ rest, ?_, ?_⟩
    · exact (hoperand _ left _).2 ⟨ls, List.append_assoc .., hleft, by omega, hmid⟩
    · exact (hchain tier left _ e rest hmid (by omega)).2 ⟨rs, rfl, hfolds, by omega, hstops⟩

theorem exact_of_unary (hunary : Exact room .unary) (hchain : ChainExact room) (tier : Tier) :
    Exact room tier.operandRule ∧ Exact room (.tier tier) :=
  Rule.tier_induction hunary (fun _ hoperand => exact_tier hoperand hchain) tier

/-- A derivation in front of a token consumes that token. -/
theorem used_eq_cons {rule : Rule} {used : List Token} (he : Derives rule used e)
    (hused : t :: ts = used ++ rest) : ∃ us, used = t :: us ∧ ts = us ++ rest := by
  cases used with
  | nil => exact absurd rfl he.ne_nil
  | cons u us =>
      obtain ⟨rfl, hts⟩ := List.cons.inj hused
      exact ⟨us, rfl, hts⟩

theorem unary_leaf_eq_ok (hop : UnaryOp.ofKind? t.kind = none)
    (hparen : t.kind ≠ .symbol .leftParen) :
    unary room (t :: ts) = .ok (e, rest) ↔
      ∃ us, ts = us ++ rest ∧ Derives .unary (t :: us) e ∧ e.need ≤ room := by
  rw [unary_of_leaf hop hparen, leaf_eq_ok]
  constructor
  · intro h
    obtain ⟨rfl, v, hv, rfl⟩ := h
    exact ⟨[], rfl, .primary (.literal hv), Nat.zero_le _⟩
  · intro h
    obtain ⟨us, rfl, he, -⟩ := h
    obtain ⟨rfl, v, hv, rfl⟩ := (Derives.unary_of_leaf hop hparen).1 he
    exact ⟨rfl, v, hv, rfl⟩

theorem unary_op_eq_ok (hunary : Exact room .unary) {op : UnaryOp}
    (hop : UnaryOp.ofKind? t.kind = some op) :
    unary (room + 1) (t :: ts) = .ok (e, rest) ↔
      ∃ us, ts = us ++ rest ∧ Derives .unary (t :: us) e ∧ e.need ≤ room + 1 := by
  rw [unary_succ_of_op hop, andThen_eq_ok]
  constructor
  · intro h
    obtain ⟨right, mid, hread, hresult⟩ := h
    cases hresult
    obtain ⟨us, rfl, hright, hroom, -⟩ := (hunary ts right rest).1 hread
    exact ⟨us, rfl, .unary (UnaryOp.writes_iff.2 hop) hright, Nat.succ_le_succ hroom⟩
  · intro h
    obtain ⟨us, rfl, he, hroom⟩ := h
    obtain ⟨right, hright, rfl⟩ := (Derives.unary_of_op hop).1 he
    refine ⟨right, rest, ?_, rfl⟩
    have hright_room := Nat.le_of_succ_le_succ hroom
    exact (hunary _ right rest).2 ⟨us, rfl, hright, hright_room, Rule.stops_unary _⟩

theorem unary_paren_eq_ok (hexpression : Exact room .expression)
    (hopen : t.kind = .symbol .leftParen) :
    unary (room + 1) (t :: ts) = .ok (e, rest) ↔
      ∃ us, ts = us ++ rest ∧ Derives .unary (t :: us) e ∧ e.need ≤ room + 1 := by
  rw [unary_succ_of_paren hopen, andThen_eq_ok]
  constructor
  · intro h
    obtain ⟨inner, mid, hread, hclosed⟩ := h
    obtain ⟨closing, rfl, hclose, rfl⟩ := closeGroup_eq_ok.1 hclosed
    obtain ⟨body, rfl, hinner, hroom, -⟩ := (hexpression ts inner _).1 hread
    refine ⟨body ++ [closing], by simp, ?_, Nat.succ_le_succ hroom⟩
    exact .primary (.group hopen hinner hclose)
  · intro h
    obtain ⟨us, rfl, he, hroom⟩ := h
    obtain ⟨body, closing, inner, rfl, hclose, hinner, rfl⟩ := (Derives.unary_of_paren hopen).1 he
    refine ⟨inner, closing :: rest, ?_, closeGroup_eq_ok.2 ⟨closing, rfl, hclose, rfl⟩⟩
    have hstops : Rule.expression.Stops (closing :: rest) := by
      rw [Rule.stops_expression_cons, hclose]
      rfl
    exact (hexpression _ inner _).2
      ⟨body, by simp, hinner, Nat.le_of_succ_le_succ hroom, hstops⟩

/-- With no room left only a literal can be read. -/
theorem unary_zero_eq_ok :
    unary 0 (t :: ts) = .ok (e, rest) ↔
      ∃ us, ts = us ++ rest ∧ Derives .unary (t :: us) e ∧ e.need ≤ 0 := by
  cases hop : UnaryOp.ofKind? t.kind with
  | some op =>
      rw [unary_zero_of_op hop]
      constructor
      · intro h
        cases h
      · intro h
        obtain ⟨us, -, he, hroom⟩ := h
        obtain ⟨right, -, rfl⟩ := (Derives.unary_of_op hop).1 he
        exact absurd hroom (Nat.not_succ_le_zero _)
  | none =>
      by_cases hopen : t.kind = .symbol .leftParen
      · rw [unary_zero_of_paren hopen]
        constructor
        · intro h
          cases h
        · intro h
          obtain ⟨us, -, he, hroom⟩ := h
          obtain ⟨body, closing, inner, -, -, -, rfl⟩ := (Derives.unary_of_paren hopen).1 he
          exact absurd hroom (Nat.not_succ_le_zero _)
      · exact unary_leaf_eq_ok hop hopen

theorem unary_succ_eq_ok (hunary : Exact room .unary) (hexpression : Exact room .expression) :
    unary (room + 1) (t :: ts) = .ok (e, rest) ↔
      ∃ us, ts = us ++ rest ∧ Derives .unary (t :: us) e ∧ e.need ≤ room + 1 := by
  cases hop : UnaryOp.ofKind? t.kind with
  | some op => exact unary_op_eq_ok hunary hop
  | none =>
      by_cases hopen : t.kind = .symbol .leftParen
      · exact unary_paren_eq_ok hexpression hopen
      · exact unary_leaf_eq_ok hop hopen

/-- A reader for the unary rule is exact once it is so on lists with a first token. -/
theorem exact_unary_of_cons
    (h : ∀ {t : Token} {ts rest : List Token} {e : Expr}, unary room (t :: ts) = .ok (e, rest) ↔
      ∃ us, ts = us ++ rest ∧ Derives .unary (t :: us) e ∧ e.need ≤ room) :
    Exact room .unary := by
  intro ts e rest
  rw [read_unary]
  cases ts with
  | nil =>
      rw [unary_nil]
      constructor
      · intro hok
        cases hok
      · intro hderived
        obtain ⟨used, hused, he, -⟩ := hderived
        obtain ⟨rfl, -⟩ := List.append_eq_nil_iff.1 hused.symm
        exact absurd rfl he.ne_nil
  | cons t ts =>
      rw [h]
      constructor
      · intro hderived
        obtain ⟨us, rfl, he, hroom⟩ := hderived
        exact ⟨t :: us, rfl, he, hroom, Rule.stops_unary _⟩
      · intro hderived
        obtain ⟨used, hused, he, hroom, -⟩ := hderived
        obtain ⟨us, rfl, hts⟩ := used_eq_cons he hused
        exact ⟨us, hts, he, hroom⟩

theorem exact_unary_and_chain (room : Nat) : Exact room .unary ∧ ChainExact room := by
  induction room with
  | zero => exact ⟨exact_unary_of_cons unary_zero_eq_ok, chainExact_zero⟩
  | succ room ih =>
      obtain ⟨hunary, hchain⟩ := ih
      have htiers := exact_of_unary hunary hchain
      refine ⟨exact_unary_of_cons (unary_succ_eq_ok hunary (htiers .equality).2), ?_⟩
      exact chainExact_succ (fun tier => (htiers tier).1) hchain

theorem exact_rule (room : Nat) (tier : Tier) :
    Exact room tier.operandRule ∧ Exact room (.tier tier) := by
  obtain ⟨hunary, hchain⟩ := exact_unary_and_chain room
  exact exact_of_unary hunary hchain tier

/-- Reading an expression accepts exactly what the grammar derives within the room. -/
theorem expression_exact (room : Nat) (ts : List Token) (e : Expr) (rest : List Token) :
    expression room ts = .ok (e, rest) ↔
      ∃ used, ts = used ++ rest ∧ Derives .expression used e ∧ e.need ≤ room ∧
        Rule.expression.Stops rest :=
  (exact_rule room .equality).2 ts e rest

end Grammar

namespace Cursor

variable {c after : Cursor} {e : Expr}

theorem parse_eq_ok : c.parse = (.ok e, after) ↔
    ∃ rest, Grammar.expression maxNesting c.rest = .ok (e, rest) ∧ after = c.moveTo rest := by
  unfold parse
  split
  · next e' rest hread =>
    simp only [hread, Prod.mk.injEq, Except.ok.injEq]
    constructor
    · intro h
      obtain ⟨rfl, rfl⟩ := h
      exact ⟨rest, ⟨rfl, rfl⟩, rfl⟩
    · intro h
      obtain ⟨rest', ⟨rfl, rfl⟩, rfl⟩ := h
      exact ⟨rfl, rfl⟩
  · next hread => simp [hread]

theorem parse_of_derives {used rest : List Token} {t : Token}
    (hsplit : c.rest = used ++ t :: rest) (he : Derives .expression used e)
    (hneed : e.need ≤ maxNesting) (hop : BinaryOp.ofKind? t.kind = none) :
    c.parse = (.ok e, ⟨c.tokens, c.index + used.length⟩) := by
  have hne : c.rest ≠ [] := by simp [hsplit]
  rw [parse_eq_ok]
  refine ⟨t :: rest, ?_, (moveTo_of_append hsplit (index_le_of_rest_ne_nil hne)).symm⟩
  exact (Grammar.expression_exact ..).2
    ⟨used, hsplit, he, hneed, Rule.stops_expression_cons.2 hop⟩

/-- What is read successfully lies in front of a token that is no operator. There always is such a
token, since a derivation does not consume the end of input. -/
theorem parse_eq_ok_iff {ts : List Token} {p : Nat} :
    (Cursor.mk (withEnd ts) p).parse = (.ok e, after) ↔
      ∃ used t rest, (withEnd ts).drop p = used ++ t :: rest ∧ Derives .expression used e ∧
        e.need ≤ maxNesting ∧ BinaryOp.ofKind? t.kind = none ∧
        after = ⟨withEnd ts, p + used.length⟩ := by
  constructor
  · intro h
    obtain ⟨rest, hread, rfl⟩ := parse_eq_ok.1 h
    obtain ⟨used, hsplit, he, hneed, hstops⟩ := (Grammar.expression_exact ..).1 hread
    have hne : (Cursor.mk (withEnd ts) p).rest ≠ [] := by simp [hsplit, he.ne_nil]
    have hafter := moveTo_of_append hsplit (index_le_of_rest_ne_nil hne)
    cases rest with
    | nil => exact absurd rfl (rest_ne_nil_of_drop hsplit hne he.kind_ne_eof)
    | cons t rest =>
        exact ⟨used, t, rest, hsplit, he, hneed, Rule.stops_expression_cons.1 hstops, hafter⟩
  · intro h
    obtain ⟨used, t, rest, hsplit, he, hneed, hop, rfl⟩ := h
    exact parse_of_derives hsplit he hneed hop

/-- From any position of a list that ends in an end of input, exactly those stretches of tokens are
read as an expression that the grammar derives, that fit into the limit for nesting, and that no
operator continues. -/
theorem parse_eq_ok_iff_derives (ts : List Token) (p q : Nat) (e : Expr) :
    (Cursor.mk (withEnd ts) p).parse = (.ok e, ⟨withEnd ts, q⟩) ↔
      Derives .expression ((withEnd ts).extract p q) e ∧
        (∃ t, (withEnd ts)[q]? = some t ∧ t.kind ∉ Kind.binaryOperators) ∧
        e.need ≤ maxNesting := by
  constructor
  · intro h
    obtain ⟨used, t, rest, hsplit, he, hneed, hop, hafter⟩ := parse_eq_ok_iff.1 h
    obtain rfl : q = p + used.length := (Cursor.mk.inj hafter).2
    have hused : (withEnd ts).extract p (p + used.length) = used := by
      rw [List.extract_eq_take_drop, hsplit, Nat.add_sub_cancel_left, List.take_left]
    have htail : (withEnd ts)[p + used.length]? = some t := by
      rw [← List.getElem?_drop, hsplit, List.getElem?_append_right (Nat.le_refl _), Nat.sub_self]
      rfl
    exact ⟨by rwa [hused], ⟨t, htail, BinaryOp.ofKind?_eq_none_iff.1 hop⟩, hneed⟩
  · intro h
    obtain ⟨he, ⟨t, ht, hop⟩, hneed⟩ := h
    have hle : p ≤ q := by
      apply Nat.le_of_not_le
      intro hqp
      exact he.ne_nil (by rw [List.extract_eq_take_drop, Nat.sub_eq_zero_of_le hqp, List.take_zero])
    obtain ⟨hsplit, hlength⟩ := drop_eq_extract_append ht hle
    have hnone := BinaryOp.ofKind?_eq_none_iff.2 hop
    refine parse_eq_ok_iff.2 ⟨_, t, _, hsplit, he, hneed, hnone, ?_⟩
    rw [hlength, Nat.add_sub_cancel' hle]

end Cursor
end Lox
