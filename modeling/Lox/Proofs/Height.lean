import Lox.Proofs.CorrectPrefix

/-!
# How high the trees get

The room for nesting bounds the levels of a tree, though not by itself: each of the four tiers may
fold as many operators as there are units onto an operand that has all of the room, and a group
starts over with one unit less. `Rule.maxLevels` adds this up. What a rule derives within a room has
at most so many levels (`Bounded`), and some tokens reach them (`Attains`). Both are shown by
induction on the room, from the unary rule through the tiers.
-/

namespace Lox

/-- The most levels of a unary expression: a group around the highest expression that fits into one
unit less. -/
def unaryLevels : Nat → Nat
  | 0 => 0
  | room + 1 => unaryLevels room + 4 * room + 1

/-- The most levels of what a rule derives within the room. A tier adds one level for each unit. -/
def Rule.maxLevels (rule : Rule) (room : Nat) : Nat :=
  unaryLevels room + rule.rank * room

theorem Rule.maxLevels_tier (tier : Tier) (room : Nat) :
    (Rule.tier tier).maxLevels room = tier.operandRule.maxLevels room + room := by
  have hrank : (Rule.tier tier).rank = tier.operandRule.rank + 1 :=
    (Rule.rank_operandRule tier).symm
  simp only [maxLevels, hrank, Nat.succ_mul, Nat.add_assoc]

theorem Rule.maxLevels_unary_succ (room : Nat) :
    Rule.unary.maxLevels (room + 1) = Rule.expression.maxLevels room + 1 := by
  simp only [maxLevels, unaryLevels, rank, expression, Tier.rank]
  omega

theorem Rule.maxLevels_expression (room : Nat) :
    Rule.expression.maxLevels room = 2 * room * room + 3 * room := by
  induction room with
  | zero => rfl
  | succ room ih =>
      simp only [maxLevels, unaryLevels, rank, expression, Tier.rank] at ih ⊢
      simp only [Nat.mul_succ, Nat.succ_mul] at ih ⊢
      omega

namespace Expr

theorem spine_le_need (tier : Tier) (e : Expr) : e.spine tier ≤ e.need := by
  cases e with
  | literal | group | unary => exact Nat.zero_le _
  | binary op t left right =>
      by_cases htier : op.tier = tier
      · subst htier
        rw [spine_binary_self, need_binary]
        omega
      · simp [spine, htier]

end Expr

def Bounded (room : Nat) (rule : Rule) : Prop :=
  ∀ ts e, Derives rule ts e → e.need ≤ room → e.levels ≤ rule.maxLevels room

/-- Some tree that the rule derives within the room has this many levels. -/
def Attains (room : Nat) (rule : Rule) (levels : Nat) : Prop :=
  ∃ ts e, Derives rule ts e ∧ e.need ≤ room ∧ e.levels = levels

section

variable {room : Nat} {tier : Tier}

/-- Folding an operator raises a chain by one level, and lengthens its spine by one. -/
theorem Folds.levels_le (hoperand : Bounded room tier.operandRule) {left e : Expr}
    {ts : List Token} (h : Folds tier left ts e) (hneed : e.need ≤ room)
    (hleft : left.levels ≤ tier.operandRule.maxLevels room + left.spine tier) :
    e.levels ≤ tier.operandRule.maxLevels room + e.spine tier := by
  induction h with
  | nil => exact hleft
  | @cons left r e t op rs ts hop hright hrest ih =>
      obtain rfl := hop.tier_eq
      have hgrows := hrest.need_le
      rw [Expr.need_binary] at hgrows
      have hr := hoperand rs r hright (by omega)
      apply ih hneed
      rw [Expr.spine_binary_self, Expr.levels]
      omega

theorem bounded_tier (hoperand : Bounded room tier.operandRule) : Bounded room (.tier tier) := by
  intro ts e h hneed
  obtain ⟨ls, rs, left, -, hleft, hfolds⟩ := Derives.tier_iff_folds.1 h
  have hgrows := hfolds.need_le
  have hlevels := hoperand ls left hleft (by omega)
  have hle := hfolds.levels_le hoperand hneed (by omega)
  have hspine := e.spine_le_need tier
  rw [Rule.maxLevels_tier]
  omega

theorem bounded_unary_zero : Bounded 0 .unary := by
  intro ts e h hneed
  cases h with
  | primary h =>
      cases h with
      | literal => exact Nat.zero_le _
      | group => exact absurd hneed (Nat.not_succ_le_zero _)
  | unary => exact absurd hneed (Nat.not_succ_le_zero _)

theorem bounded_unary_succ (hunary : Bounded room .unary) (hexpression : Bounded room .expression) :
    Bounded (room + 1) .unary := by
  intro ts e h hneed
  rw [Rule.maxLevels_unary_succ]
  cases h with
  | primary h =>
      cases h with
      | literal => exact Nat.zero_le _
      | group _ hinner _ =>
          exact Nat.succ_le_succ (hexpression _ _ hinner (Nat.le_of_succ_le_succ hneed))
  | unary _ hright =>
      have hle := hunary _ _ hright (Nat.le_of_succ_le_succ hneed)
      have htiers : Rule.unary.maxLevels room ≤ Rule.expression.maxLevels room :=
        Nat.add_le_add_left (Nat.mul_le_mul_right _ (Nat.zero_le _)) _
      exact Nat.succ_le_succ (Nat.le_trans hle htiers)

theorem bounded_expression (room : Nat) : Bounded room .expression := by
  have htiers (room : Nat) (h : Bounded room .unary) : Bounded room .expression :=
    (Rule.tier_induction h (fun _ => bounded_tier) .equality).2
  have hunary : Bounded room .unary := by
    induction room with
    | zero => exact bounded_unary_zero
    | succ room ih => exact bounded_unary_succ ih (htiers room ih)
  exact htiers room hunary

end

section

variable {room levels : Nat} {tier : Tier}

theorem derives_nil (tier : Tier) :
    Derives tier.operandRule [.bare (.keyword .nilWord)] (.literal .nil) := by
  have hunary : Derives .unary [.bare (.keyword .nilWord)] (.literal .nil) :=
    .primary (.literal (.nilWord rfl))
  exact (Rule.tier_induction (P := (Derives · _ _)) hunary (fun _ => .operand) tier).1

theorem Tier.exists_operator (tier : Tier) : ∃ op : BinaryOp, op.tier = tier := by
  cases tier with
  | equality => exact ⟨.equal, rfl⟩
  | comparison => exact ⟨.less, rfl⟩
  | term => exact ⟨.add, rfl⟩
  | factor => exact ⟨.multiply, rfl⟩

/-- A chain of `count` operators, each with the lowest right operand there is, raises its first
operand by as many levels. -/
theorem Attains.exists_chain (h : Attains room tier.operandRule levels) {count : Nat}
    (hcount : count ≤ room) :
    ∃ ts e, Derives (.tier tier) ts e ∧ e.need ≤ room ∧ e.levels = levels + count ∧
      e.spine tier = count := by
  induction count with
  | zero =>
      obtain ⟨ts, e, he, hneed, hlevels⟩ := h
      exact ⟨ts, e, .operand he, hneed, hlevels, he.spine_eq_zero⟩
  | succ count ih =>
      obtain ⟨ts, e, he, hneed, hlevels, hspine⟩ := ih (by omega)
      obtain ⟨op, rfl⟩ := tier.exists_operator
      let raised : Expr := .binary op (.bare (.symbol op.symbol)) e (.literal .nil)
      have hraised :=
        Derives.binary he (t := .bare (.symbol op.symbol)) (Tier.writes_tier op)
          (derives_nil op.tier)
      refine ⟨_, raised, hraised, ?_, ?_, ?_⟩
      · rw [Expr.need_binary, hspine]
        exact Nat.max_le.2 ⟨hneed, hcount⟩
      · simp only [raised, Expr.levels, hlevels]
        omega
      · rw [Expr.spine_binary_self, hspine]

theorem Attains.fold (h : Attains room tier.operandRule levels) :
    Attains room (.tier tier) (levels + room) := by
  obtain ⟨ts, e, he, hneed, hlevels, -⟩ := h.exists_chain (Nat.le_refl room)
  exact ⟨ts, e, he, hneed, hlevels⟩

theorem Attains.group (h : Attains room .expression levels) :
    Attains (room + 1) .unary (levels + 1) := by
  obtain ⟨ts, e, he, hneed, hlevels⟩ := h
  have hopen : (Token.bare (.symbol .leftParen)).kind = .symbol .leftParen := rfl
  have hclose : (Token.bare (.symbol .rightParen)).kind = .symbol .rightParen := rfl
  exact ⟨_, .group e, .primary (.group hopen he hclose), Nat.succ_le_succ hneed,
    congrArg Nat.succ hlevels⟩

theorem attains_expression (room : Nat) :
    Attains room .expression (Rule.expression.maxLevels room) := by
  have htiers (room : Nat) (h : Attains room .unary (Rule.unary.maxLevels room)) :
      Attains room .expression (Rule.expression.maxLevels room) := by
    refine (Rule.tier_induction (P := fun rule => Attains room rule (rule.maxLevels room)) h
      (fun tier hoperand => ?_) .equality).2
    rw [Rule.maxLevels_tier]
    exact hoperand.fold
  have hunary : Attains room .unary (Rule.unary.maxLevels room) := by
    induction room with
    | zero => exact ⟨_, _, derives_nil .factor, Nat.le_refl _, rfl⟩
    | succ room ih =>
        rw [Rule.maxLevels_unary_succ]
        exact (htiers room ih).group
  exact htiers room hunary

end

namespace Cursor

theorem withEnd_of_derives {rule : Rule} {ts : List Token} {e : Expr} (h : Derives rule ts e) :
    ∃ last : Token, BinaryOp.ofKind? last.kind = none ∧ withEnd ts = ts ++ [last] := by
  obtain ⟨last, hlast, hts⟩ := withEnd_of_ne_eof h.kind_ne_eof
  exact ⟨last, by rw [hlast]; rfl, hts⟩

/-- With `n` for the limit of nesting, a tree that is read has at most `2 * n * n + 3 * n` levels,
and there are tokens that are read as a tree of just as many. -/
theorem levels_of_parse_le_and_attained :
    (∀ ts p e after, (Cursor.mk (withEnd ts) p).parse = (.ok e, after) →
      e.levels ≤ 2 * maxNesting * maxNesting + 3 * maxNesting) ∧
    (∃ ts e after, (ofTokens ts).parse = (.ok e, after) ∧
      e.levels = 2 * maxNesting * maxNesting + 3 * maxNesting) ∧
    2 * maxNesting * maxNesting + 3 * maxNesting = 33152 := by
  rw [← Rule.maxLevels_expression]
  refine ⟨?_, ?_, by rw [Rule.maxLevels_expression]; rfl⟩
  · intro ts p e after h
    obtain ⟨used, -, -, -, he, hneed, -⟩ := parse_eq_ok_iff.1 h
    exact bounded_expression maxNesting used e he hneed
  · obtain ⟨ts, e, he, hneed, hlevels⟩ := attains_expression maxNesting
    obtain ⟨last, hlast, hts⟩ := withEnd_of_derives he
    refine ⟨ts, e, ⟨withEnd ts, 0 + ts.length⟩, ?_, hlevels⟩
    exact parse_eq_ok_iff.2 ⟨ts, last, [], hts, he, hneed, hlast, rfl⟩

end Cursor
end Lox
