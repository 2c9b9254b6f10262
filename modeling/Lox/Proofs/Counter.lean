import Lox.Proofs.Exactness
import Lox.Reader

/-!
# Counting nesting

A reader whose counter stands at `depth` reads what the grammar reads with the room
`maxNesting - depth`, from wherever in its list it stands. Every step has an outcome, because no
step moves over the end of input at the end of the list. A tree leaves the counter as it was in
front of it. The induction is on the room; each reader is compared with the rule of the grammar it
follows (`Mirrors`), and sequencing is opened once (`Mirrors.andThen`).
-/

namespace Lox.Reader

/-- The reader in front of `rest`, which is an end of its list of tokens. -/
def inFront (tokens rest : List Token) (depth : Nat) : Reader :=
  ⟨tokens, tokens.length - rest.length, depth⟩

/-- Tokens that end the list and end in an end of input. -/
structure Ahead (tokens rest : List Token) : Prop where
  suffix : rest <:+ tokens
  ended : ∃ last ∈ rest.getLast?, last.isEnd

open Recorded

variable {tokens rest : List Token} {t : Token} {depth room : Nat}

namespace Ahead

theorem ne_nil (h : Ahead tokens rest) : rest ≠ [] := by
  rintro rfl
  obtain ⟨last, hlast, -⟩ := h.ended
  cases hlast

theorem exists_cons (h : Ahead tokens rest) : ∃ t more, rest = t :: more :=
  List.exists_cons_of_ne_nil h.ne_nil

/-- The end of input is not moved over, so something is left behind every other token. -/
theorem tail (h : Ahead tokens (t :: rest)) (hend : t.isEnd = false) : Ahead tokens rest := by
  refine ⟨(List.suffix_cons t rest).trans h.suffix, ?_⟩
  obtain ⟨last, hlast, hlastEnd⟩ := h.ended
  cases rest with
  | nil =>
      obtain rfl : t = last := by simpa using hlast
      simp [hend] at hlastEnd
  | cons u rest => exact ⟨last, by simpa using hlast, hlastEnd⟩

theorem self (h : Ahead tokens rest) : Ahead rest rest :=
  ⟨List.suffix_refl rest, h.ended⟩

end Ahead

theorem getElem?_of_suffix (h : t :: rest <:+ tokens) :
    tokens[tokens.length - (rest.length + 1)]? = some t := by
  obtain ⟨front, rfl⟩ := h
  simp

theorem peek?_inFront (h : Ahead tokens (t :: rest)) :
    (inFront tokens (t :: rest) depth).peek? = some t :=
  getElem?_of_suffix h.suffix

theorem previous?_inFront (h : t :: rest <:+ tokens) :
    (inFront tokens rest depth).previous? = some t := by
  rw [previous?, inFront, Nat.sub_sub, getElem?_of_suffix h]

theorem inFront_succ (h : Ahead tokens (t :: rest)) :
    ({ inFront tokens (t :: rest) depth with
        index := (inFront tokens (t :: rest) depth).index + 1 } : Reader) =
      inFront tokens rest depth := by
  have hlength := h.suffix.length_le
  have hindex : tokens.length - (rest.length + 1) + 1 = tokens.length - rest.length := by
    rw [List.length_cons] at hlength
    omega
  simp only [inFront, List.length_cons, hindex]

theorem advance_inFront (h : Ahead tokens (t :: rest)) (hend : t.isEnd = false) :
    (advance (inFront tokens (t :: rest) depth)).outcome =
      some (.ok t, inFront tokens rest depth) := by
  rw [outcome_advance (peek?_inFront h) hend, inFront_succ h]

theorem stop_inFront {α : Type} (h : Ahead tokens (t :: rest)) (obstacle : Obstacle) :
    (stop obstacle (inFront tokens (t :: rest) depth) : Recorded.Step α).outcome =
      some (.error ⟨obstacle, t⟩, inFront tokens (t :: rest) depth) := by
  rw [stop, outcome_look_bind (peek?_inFront h)]
  rfl

theorem takeAny_of_mem {kinds : List Kind} (h : Ahead tokens (t :: rest))
    (hend : t.isEnd = false) (ht : t.kind ∈ kinds) :
    (takeAny kinds (inFront tokens (t :: rest) depth)).outcome =
      some (.ok (some t), inFront tokens rest depth) := by
  rw [takeAny, outcome_look_bind (peek?_inFront h), if_pos ht,
    outcome_andThen_of_ok (advance_inFront h hend)]
  rfl

theorem takeAny_of_not_mem {kinds : List Kind} (h : Ahead tokens (t :: rest))
    (ht : t.kind ∉ kinds) :
    (takeAny kinds (inFront tokens (t :: rest) depth)).outcome =
      some (.ok none, inFront tokens (t :: rest) depth) := by
  rw [takeAny, outcome_look_bind (peek?_inFront h), if_neg ht]
  rfl

theorem consume_of_eq {kind : Kind} {obstacle : Obstacle} (h : Ahead tokens (t :: rest))
    (hend : t.isEnd = false) (ht : t.kind = kind) :
    (consume kind obstacle (inFront tokens (t :: rest) depth)).outcome =
      some (.ok t, inFront tokens rest depth) := by
  rw [consume, outcome_look_bind (peek?_inFront h), if_pos ht, advance_inFront h hend]

theorem consume_of_ne {kind : Kind} {obstacle : Obstacle} (h : Ahead tokens (t :: rest))
    (ht : t.kind ≠ kind) :
    (consume kind obstacle (inFront tokens (t :: rest) depth)).outcome =
      some (.error ⟨obstacle, t⟩, inFront tokens (t :: rest) depth) := by
  rw [consume, outcome_look_bind (peek?_inFront h), if_neg ht, stop_inFront h]

theorem enter_of_lt (h : depth < Cursor.maxNesting) :
    (enter (inFront tokens rest depth)).outcome =
      some (.ok (), inFront tokens rest (depth + 1)) := by
  have hle : ¬ Cursor.maxNesting ≤ (inFront tokens rest depth).depth := Nat.not_le.2 h
  rw [enter, outcome_bind, outcome_note, Option.bind_some, if_neg hle]
  rfl

theorem enter_of_eq (h : Ahead tokens (t :: rest)) (hdepth : depth = Cursor.maxNesting) :
    (enter (inFront tokens (t :: rest) depth)).outcome =
      some (.error ⟨.tooDeeplyNested, t⟩, inFront tokens (t :: rest) depth) := by
  have hle : Cursor.maxNesting ≤ (inFront tokens (t :: rest) depth).depth :=
    Nat.le_of_eq hdepth.symm
  rw [enter, outcome_bind, outcome_note, Option.bind_some, if_pos hle, stop_inFront h]

theorem leave_inFront :
    (leave (inFront tokens rest (depth + 1))).outcome =
      some (.ok (), inFront tokens rest depth) := by
  have hne : (inFront tokens rest (depth + 1)).depth ≠ 0 := Nat.succ_ne_zero depth
  rw [leave, outcome_note, if_neg hne]
  rfl

/-- The outcome of a step agrees with that of a rule: the same tree, in front of the same tokens and
with the counter as asked, or the same obstacle in front of the same token. -/
inductive Mirrors (tokens : List Token) (counter : Nat → Prop) :
    Grammar.Outcome → Outcome Expr → Prop
  | ok (e : Expr) {rest : List Token} {depth : Nat} (hahead : Ahead tokens rest)
      (hdepth : counter depth) :
      Mirrors tokens counter (.ok (e, rest)) (some (.ok e, inFront tokens rest depth))
  | error (obstacle : Obstacle) {t : Token} {rest : List Token} (depth : Nat)
      (hahead : Ahead tokens (t :: rest)) :
      Mirrors tokens counter (.error (obstacle, t :: rest))
        (some (.error ⟨obstacle, t⟩, inFront tokens (t :: rest) depth))

theorem Mirrors.andThen {counter counter' : Nat → Prop} {outcome : Grammar.Outcome}
    {step : Recorded.Step Expr} {next : Expr → List Token → Grammar.Outcome}
    {next' : Expr → Reader → Recorded.Step Expr} (h : Mirrors tokens counter outcome step.outcome)
    (hnext : ∀ e rest depth, Ahead tokens rest → counter depth →
      Mirrors tokens counter' (next e rest) (next' e (inFront tokens rest depth)).outcome) :
    Mirrors tokens counter' (Grammar.andThen outcome next)
      (Recorded.andThen step next').outcome := by
  generalize hstep : step.outcome = stepped at h
  cases h with
  | ok e hahead hdepth =>
      rw [outcome_andThen_of_ok hstep]
      exact hnext e _ _ hahead hdepth
  | error obstacle depth hahead =>
      rw [outcome_andThen_of_error hstep]
      exact .error obstacle depth hahead

/-- A reader that follows a rule of the grammar, with the counter and the room adding up. -/
def Follows (tokens : List Token) (room : Nat) (reader : Reader → Recorded.Step Expr)
    (rule : List Token → Grammar.Outcome) : Prop :=
  ∀ rest depth, Ahead tokens rest → depth + room = Cursor.maxNesting →
    Mirrors tokens (· = depth) (rule rest) (reader (inFront tokens rest depth)).outcome

/-- The loops over the operators of a tier raise the counter and do not lower it. -/
def ChainFollows (tokens : List Token) (room : Nat)
    (reader : Tier → Expr → Reader → Recorded.Step Expr) : Prop :=
  ∀ tier left rest depth, Ahead tokens rest → depth + room = Cursor.maxNesting →
    Mirrors tokens (fun _ => True) (Grammar.chain room tier left rest)
      (reader tier left (inFront tokens rest depth)).outcome

theorem isEnd_of_unaryOp {op : UnaryOp} (h : UnaryOp.ofKind? t.kind = some op) :
    t.isEnd = false := by
  rw [Token.isEnd, UnaryOp.ofKind?_eq_some.1 h]
  rfl

theorem isEnd_of_operator {tier : Tier} {op : BinaryOp} (h : tier.operator? t.kind = some op) :
    t.isEnd = false := by
  rw [Token.isEnd, (Tier.operator?_eq_some.1 h).kind_eq]
  rfl

theorem isEnd_of_leaf {v : Value} (h : Grammar.leaf? t = some v) : t.isEnd = false := by
  rw [Token.isEnd, beq_eq_false_iff_ne]
  exact (Derives.literal (Grammar.leaf?_eq_some.1 h)).kind_ne_eof t (List.mem_singleton_self t)

section

variable {unary right inner operand : Reader → Recorded.Step Expr}
  {chain : Tier → Expr → Reader → Recorded.Step Expr}
  {more : Expr → Reader → Recorded.Step Expr} {tier : Tier} {left : Expr}

theorem follows_climb (hunary : Follows tokens room unary (Grammar.unary room))
    (hchain : ChainFollows tokens room chain) (tiers : List Tier) :
    Follows tokens room (climb unary chain tiers)
      (Grammar.climb (Grammar.unary room) (Grammar.chain room) tiers) := by
  intro rest depth hahead hroom
  -- the fold carries the outcome read so far, so the induction takes any outcome that agrees
  have hfold : ∀ outcome step, Mirrors tokens (· = depth) outcome (Recorded.outcome step) →
      Mirrors tokens (· = depth)
        (tiers.foldl (fun first tier => Grammar.andThen first (Grammar.chain room tier)) outcome)
        (tiers.foldl (fun first tier => Recorded.andThen first fun left after =>
          Recorded.andThen (chain tier left after) fun e after => restore depth e after)
          step).outcome := by
    induction tiers with
    | nil => exact fun _ _ h => h
    | cons tier tiers ih =>
        intro outcome step h
        refine ih _ _ (h.andThen fun left rest depth' hahead hdepth => ?_)
        subst hdepth
        have hloop := hchain tier left rest _ hahead hroom
        generalize hstep : (chain tier left (inFront tokens rest _)).outcome = stepped,
          Grammar.chain room tier left rest = outcome at hloop
        cases hloop with
        | ok e hahead _ =>
            rw [outcome_andThen_of_ok hstep]
            exact .ok e hahead rfl
        | error obstacle depth' hahead =>
            rw [outcome_andThen_of_error hstep]
            exact .error obstacle depth' hahead
  exact hfold _ _ (hunary rest depth hahead hroom)

theorem mirrors_primary_of_leaf (hahead : Ahead tokens (t :: rest))
    (hop : UnaryOp.ofKind? t.kind = none) (hopen : t.kind ≠ .symbol .leftParen) :
    Mirrors tokens (· = depth) (Grammar.unary room (t :: rest))
      (primary inner (inFront tokens (t :: rest) depth)).outcome := by
  rw [Grammar.unary_of_leaf hop hopen, Grammar.leaf, primary,
    outcome_look_bind (peek?_inFront hahead)]
  cases hleaf : Grammar.leaf? t with
  | some v =>
      have hend := isEnd_of_leaf hleaf
      simp only
      rw [outcome_andThen_of_ok (advance_inFront hahead hend)]
      exact .ok _ (hahead.tail hend) rfl
  | none =>
      simp only
      rw [if_neg hopen, stop_inFront hahead]
      exact .error _ _ hahead

theorem outcome_prefixed {op : UnaryOp} (hop : UnaryOp.ofKind? t.kind = some op) (r : Reader) :
    (prefixed right t r).outcome =
      (Recorded.andThen (enter r) fun _ r =>
        Recorded.andThen (right r) fun e r =>
        Recorded.andThen (leave r) fun _ r => done (.ok (.unary op t e), r)).outcome := by
  rw [prefixed, outcome_bind, outcome_note, hop]
  rfl

theorem mirrors_prefixed {op : UnaryOp} (hright : Follows tokens room right (Grammar.unary room))
    (hop : UnaryOp.ofKind? t.kind = some op) (hahead : Ahead tokens rest)
    (hroom : depth + (room + 1) = Cursor.maxNesting) :
    Mirrors tokens (· = depth) (Grammar.unary (room + 1) (t :: rest))
      (prefixed right t (inFront tokens rest depth)).outcome := by
  have hlt : depth < Cursor.maxNesting := by omega
  rw [Grammar.unary_succ_of_op hop, outcome_prefixed hop, outcome_andThen_of_ok (enter_of_lt hlt)]
  have hread := hright rest (depth + 1) hahead (by omega)
  refine hread.andThen fun e rest _ hahead hdepth => ?_
  subst hdepth
  rw [outcome_andThen_of_ok leave_inFront]
  exact .ok _ hahead rfl

theorem mirrors_prefixed_of_full {op : UnaryOp} (hop : UnaryOp.ofKind? t.kind = some op)
    (hahead : Ahead tokens rest) (hfull : depth = Cursor.maxNesting) :
    Mirrors tokens (· = depth) (Grammar.unary 0 (t :: rest))
      (prefixed right t (inFront tokens rest depth)).outcome := by
  obtain ⟨u, rest, rfl⟩ := hahead.exists_cons
  rw [Grammar.unary_zero_of_op hop, outcome_prefixed hop,
    outcome_andThen_of_error (enter_of_eq hahead hfull)]
  exact .error _ _ hahead

theorem isEnd_of_leftParen (h : t.kind = .symbol .leftParen) : t.isEnd = false := by
  rw [Token.isEnd, h]
  rfl

theorem mirrors_closeGroup {e : Expr} (hahead : Ahead tokens rest) :
    Mirrors tokens (· = depth) (Grammar.closeGroup e rest)
      (Recorded.andThen (consume (.symbol .rightParen) .unclosedGroup (inFront tokens rest depth))
        fun _ r => done (.ok (.group e), r)).outcome := by
  obtain ⟨t, rest, rfl⟩ := hahead.exists_cons
  rw [Grammar.closeGroup]
  by_cases hclose : t.kind = .symbol .rightParen
  · have hend : t.isEnd = false := by
      rw [Token.isEnd, hclose]
      rfl
    rw [if_pos hclose, outcome_andThen_of_ok (consume_of_eq hahead hend hclose)]
    exact .ok _ (hahead.tail hend) rfl
  · rw [if_neg hclose, outcome_andThen_of_error (consume_of_ne hahead hclose)]
    exact .error _ _ hahead

theorem mirrors_group (hinner : Follows tokens room inner (Grammar.expression room))
    (hopen : t.kind = .symbol .leftParen) (hahead : Ahead tokens (t :: rest))
    (hroom : depth + (room + 1) = Cursor.maxNesting) :
    Mirrors tokens (· = depth) (Grammar.unary (room + 1) (t :: rest))
      (group inner (inFront tokens (t :: rest) depth)).outcome := by
  have hend := isEnd_of_leftParen hopen
  have hlt : depth < Cursor.maxNesting := by omega
  rw [Grammar.unary_succ_of_paren hopen, group,
    outcome_andThen_of_ok (advance_inFront hahead hend), outcome_andThen_of_ok (enter_of_lt hlt)]
  have hread := hinner rest (depth + 1) (hahead.tail hend) (by omega)
  refine hread.andThen fun e rest _ hahead hdepth => ?_
  subst hdepth
  rw [outcome_andThen_of_ok leave_inFront]
  exact mirrors_closeGroup hahead

theorem mirrors_group_of_full (hopen : t.kind = .symbol .leftParen)
    (hahead : Ahead tokens (t :: rest)) (hfull : depth = Cursor.maxNesting) :
    Mirrors tokens (· = depth) (Grammar.unary 0 (t :: rest))
      (group inner (inFront tokens (t :: rest) depth)).outcome := by
  have hend := isEnd_of_leftParen hopen
  have hbehind := hahead.tail hend
  obtain ⟨u, rest, rfl⟩ := hbehind.exists_cons
  rw [Grammar.unary_zero_of_paren hopen, group,
    outcome_andThen_of_ok (advance_inFront hahead hend),
    outcome_andThen_of_error (enter_of_eq hbehind hfull)]
  exact .error _ _ hbehind

/-- The reader of unary expressions follows the rule if it does so behind an operator and on a
group. -/
theorem follows_unaryOf
    (hprefixed : ∀ t op rest depth, UnaryOp.ofKind? t.kind = some op → Ahead tokens rest →
      depth + room = Cursor.maxNesting →
      Mirrors tokens (· = depth) (Grammar.unary room (t :: rest))
        (prefixed right t (inFront tokens rest depth)).outcome)
    (hgroup : ∀ t rest depth, t.kind = .symbol .leftParen → Ahead tokens (t :: rest) →
      depth + room = Cursor.maxNesting →
      Mirrors tokens (· = depth) (Grammar.unary room (t :: rest))
        (group inner (inFront tokens (t :: rest) depth)).outcome) :
    Follows tokens room (unaryOf right inner) (Grammar.unary room) := by
  intro rest depth hahead hroom
  obtain ⟨t, rest, rfl⟩ := hahead.exists_cons
  cases hop : UnaryOp.ofKind? t.kind with
  | some op =>
      have hend := isEnd_of_unaryOp hop
      have hlisted := Grammar.mem_unaryOperators_iff.2 ⟨op, hop⟩
      rw [unaryOf, outcome_andThen_of_ok (takeAny_of_mem hahead hend hlisted)]
      exact hprefixed t op rest depth hop (hahead.tail hend) hroom
  | none =>
      have hlisted : t.kind ∉ Grammar.unaryOperators := by
        rw [Grammar.mem_unaryOperators_iff, hop]
        simp
      rw [unaryOf, outcome_andThen_of_ok (takeAny_of_not_mem hahead hlisted)]
      by_cases hopen : t.kind = .symbol .leftParen
      · have hleaf : Grammar.leaf? t = none := by simp [Grammar.leaf?, hopen]
        have hread := hgroup t rest depth hopen hahead hroom
        rw [primary, outcome_look_bind (peek?_inFront hahead)]
        simpa only [hleaf, if_pos hopen] using hread
      · exact mirrors_primary_of_leaf hahead hop hopen

theorem chainOf_of_none (hop : tier.operator? t.kind = none) (hahead : Ahead tokens (t :: rest)) :
    (chainOf operand more tier left (inFront tokens (t :: rest) depth)).outcome =
      some (.ok left, inFront tokens (t :: rest) depth) := by
  have hlisted : t.kind ∉ tier.operators := by
    rw [Tier.mem_operators_iff, hop]
    simp
  rw [chainOf, outcome_andThen_of_ok (takeAny_of_not_mem hahead hlisted)]
  rfl

theorem chainOf_of_operator {op : BinaryOp} (hop : tier.operator? t.kind = some op)
    (hahead : Ahead tokens (t :: rest)) :
    (chainOf operand more tier left (inFront tokens (t :: rest) depth)).outcome =
      (Recorded.andThen (enter (inFront tokens rest depth)) fun _ r =>
        Recorded.andThen (operand r) fun right r => more (.binary op t left right) r).outcome := by
  have hkind := BinaryOp.ofKind?_eq_some.2 (Tier.operator?_eq_some.1 hop).kind_eq
  have hlisted := Tier.mem_operators_iff.2 ⟨op, hop⟩
  rw [chainOf, outcome_andThen_of_ok (takeAny_of_mem hahead (isEnd_of_operator hop) hlisted)]
  refine outcome_andThen_congr fun _ r => ?_
  rw [outcome_bind, outcome_note, hkind]
  rfl

/-- A loop follows its chain if it does so on an operator of its tier. -/
theorem chainFollows_of_operator (operand : Tier → Reader → Recorded.Step Expr)
    (more : Tier → Expr → Reader → Recorded.Step Expr)
    (hoperator : ∀ tier op left t rest depth, Tier.operator? tier t.kind = some op →
      Ahead tokens rest → depth + room = Cursor.maxNesting →
      Mirrors tokens (fun _ => True) (Grammar.chain room tier left (t :: rest))
        (Recorded.andThen (enter (inFront tokens rest depth)) fun _ r =>
          Recorded.andThen (operand tier r) fun right r =>
            more tier (.binary op t left right) r).outcome) :
    ChainFollows tokens room fun tier => chainOf (operand tier) (more tier) tier := by
  intro tier left rest depth hahead hroom
  obtain ⟨t, rest, rfl⟩ := hahead.exists_cons
  cases hop : tier.operator? t.kind with
  | some op =>
      rw [chainOf_of_operator hop hahead]
      exact hoperator tier op left t rest depth hop (hahead.tail (isEnd_of_operator hop)) hroom
  | none =>
      rw [Grammar.chain_of_none hop, chainOf_of_none hop hahead]
      exact .ok left hahead trivial

end

/-- With the counter at its limit every level is refused, by the reader as by the grammar. -/
theorem follows_zero (tokens : List Token) :
    Follows tokens 0 (unary 0) (Grammar.unary 0) ∧ ChainFollows tokens 0 (chain 0) := by
  constructor
  · rw [unary]
    refine follows_unaryOf ?_ ?_
    · intro t op rest depth hop hahead hroom
      exact mirrors_prefixed_of_full hop hahead hroom
    · intro t rest depth hopen hahead hroom
      exact mirrors_group_of_full hopen hahead hroom
  · rw [chain]
    refine chainFollows_of_operator (fun _ _ => nothing) (fun _ _ _ => nothing) ?_
    intro tier op left t rest depth hop hahead hroom
    have hfull : depth = Cursor.maxNesting := hroom
    obtain ⟨u, rest, rfl⟩ := hahead.exists_cons
    rw [Grammar.chain_zero_of_op hop, outcome_andThen_of_error (enter_of_eq hahead hfull)]
    exact .error _ _ hahead

theorem follows_succ (hunary : Follows tokens room (unary room) (Grammar.unary room))
    (hchain : ChainFollows tokens room (chain room)) :
    Follows tokens (room + 1) (unary (room + 1)) (Grammar.unary (room + 1)) ∧
      ChainFollows tokens (room + 1) (chain (room + 1)) := by
  constructor
  · rw [unary]
    refine follows_unaryOf ?_ ?_
    · intro t op rest depth hop hahead hroom
      exact mirrors_prefixed hunary hop hahead hroom
    · intro t rest depth hopen hahead hroom
      exact mirrors_group (follows_climb hunary hchain Tier.all) hopen hahead hroom
  · rw [chain]
    refine chainFollows_of_operator (fun tier => climb (unary room) (chain room) tier.tighter)
      (chain room) ?_
    intro tier op left t rest depth hop hahead hroom
    have hlt : depth < Cursor.maxNesting := by omega
    rw [Grammar.chain_succ_of_op hop, outcome_andThen_of_ok (enter_of_lt hlt)]
    have hoperand := follows_climb hunary hchain tier.tighter rest (depth + 1) hahead (by omega)
    refine hoperand.andThen fun right rest _ hahead hdepth => ?_
    subst hdepth
    exact hchain tier _ rest _ hahead (by omega)

/-- A reader reads expressions as the grammar does with the room its counter leaves. -/
theorem follows_expression (tokens : List Token) (room : Nat) :
    Follows tokens room (expression room) (Grammar.expression room) := by
  have h : Follows tokens room (unary room) (Grammar.unary room) ∧
      ChainFollows tokens room (chain room) := by
    induction room with
    | zero => exact follows_zero tokens
    | succ room ih => exact follows_succ ih.1 ih.2
  exact follows_climb h.1 h.2 Tier.all

end Lox.Reader
