import Lox.Proofs.Exactness

/-!
# Errors at the first token that rules out every completion

A reader refuses a list for the tokens it has consumed and the one it stops at, whatever follows; if
the nesting is too deep, the consumed tokens are reason enough. In front of any other obstacle the
consumed tokens can be completed to an expression: by a literal where an expression is expected, and
by the parentheses that close the groups still open. `Refusal` says this of one stop, and it is
carried from the readers inside to the readers around them.
-/

namespace Lox

def Token.bare (kind : Kind) : Token := ⟨kind, "", none, 1, .emptyAt 0⟩

namespace Grammar

/-- The reader stops in front of `rest` when it has consumed the tokens `used`. -/
structure Refusal (reader : List Token → Outcome) (obstacle : Obstacle) (used rest : List Token) :
    Prop where
  kind_ne_eof : ∀ t ∈ used, t.kind ≠ .eof
  refused : ∀ more, obstacle = .tooDeeplyNested ∨ more.head? = rest.head? →
    reader (used ++ more) = .error (obstacle, more)
  completed : obstacle ≠ .tooDeeplyNested → ∃ completion e, ∀ more,
    Rule.expression.Stops more → reader (used ++ (completion ++ more)) = .ok (e, more)

def Anchored (reader : List Token → Outcome) : Prop :=
  ∀ ts obstacle rest, reader ts = .error (obstacle, rest) →
    ∃ used, ts = used ++ rest ∧ Refusal reader obstacle used rest

def ChainAnchored (room : Nat) : Prop :=
  ∀ tier left ts obstacle rest, chain room tier left ts = .error (obstacle, rest) →
    ∃ t used, ts = t :: (used ++ rest) ∧ Refusal (chain room tier left) obstacle (t :: used) rest

section

variable {room : Nat} {rule : Rule} {tier : Tier} {left e : Expr} {t : Token}
  {ts used rest : List Token} {obstacle : Obstacle} {first : List Token → Outcome}
  {next : Expr → List Token → Outcome}

theorem andThen_eq_error {first : Outcome} {stop : Obstacle × List Token} :
    andThen first next = .error stop ↔
      first = .error stop ∨ ∃ e rest, first = .ok (e, rest) ∧ next e rest = .error stop := by
  rcases first with stop' | ⟨e, rest⟩
  · simp [andThen]
  · constructor
    · intro h
      exact .inr ⟨e, rest, rfl, h⟩
    · rintro (h | ⟨e', rest', he, h⟩)
      · cases h
      · cases he
        exact h

theorem Refusal.cons {outer : List Token → Outcome} (h : Refusal first obstacle used rest)
    (ht : t.kind ≠ .eof) (houter : ∀ ts, outer (t :: ts) = first ts) :
    Refusal outer obstacle (t :: used) rest where
  kind_ne_eof := List.forall_mem_cons.2 ⟨ht, h.kind_ne_eof⟩
  refused more hmore := by
    rw [List.cons_append, houter]
    exact h.refused more hmore
  completed hdeep := by
    obtain ⟨completion, e, he⟩ := h.completed hdeep
    refine ⟨completion, e, fun more hmore => ?_⟩
    rw [List.cons_append, houter]
    exact he more hmore

/-- A stop in the first of two readers can be completed if the second one can be satisfied. -/
theorem Refusal.andThen_first (h : Refusal first obstacle used rest)
    (hend : ∀ e, ∃ completion e', ∀ more, Rule.expression.Stops more →
      Rule.expression.Stops (completion ++ more) ∧ next e (completion ++ more) = .ok (e', more)) :
    Refusal (fun ts => andThen (first ts) next) obstacle used rest where
  kind_ne_eof := h.kind_ne_eof
  refused more hmore := by rw [h.refused more hmore]; rfl
  completed hdeep := by
    obtain ⟨completion, e, he⟩ := h.completed hdeep
    obtain ⟨completion', e', he'⟩ := hend e
    refine ⟨completion ++ completion', e', fun more hmore => ?_⟩
    obtain ⟨hstops, hnext⟩ := he' more hmore
    rw [List.append_assoc, he _ hstops]
    exact hnext

theorem Refusal.andThen_next {used' : List Token} (hused : ∀ t ∈ used, t.kind ≠ .eof)
    (hfirst : ∀ more, first (used ++ t :: more) = .ok (e, t :: more))
    (h : Refusal (next e) obstacle (t :: used') rest) :
    Refusal (fun ts => andThen (first ts) next) obstacle (used ++ t :: used') rest where
  kind_ne_eof := List.forall_mem_append.2 ⟨hused, h.kind_ne_eof⟩
  refused more hmore := by
    rw [List.append_assoc, List.cons_append, hfirst]
    exact h.refused more hmore
  completed hdeep := by
    obtain ⟨completion, e', he'⟩ := h.completed hdeep
    refine ⟨completion, e', fun more hmore => ?_⟩
    rw [List.append_assoc, List.cons_append, hfirst]
    exact he' more hmore

/-- What a reader accepts depends on the token behind it only, not on those further on. -/
theorem Exact.accepts_local (h : Exact room rule) {mid : List Token}
    (hread : read room rule ts = .ok (e, mid)) :
    ∃ used, ts = used ++ mid ∧ (∀ t ∈ used, t.kind ≠ .eof) ∧
      ∀ more, rule.Stops more → read room rule (used ++ more) = .ok (e, more) := by
  obtain ⟨used, hts, he, hneed, -⟩ := (h ts e mid).1 hread
  refine ⟨used, hts, he.kind_ne_eof, fun more hmore => ?_⟩
  exact (h _ e more).2 ⟨used, rfl, he, hneed, hmore⟩

/-- A reader followed by a chain, or by anything that ends where an expression ends and is refused
only behind a token. -/
theorem anchored_andThen (hexact : Exact room rule) (hfirst : Anchored (read room rule))
    (hnext : ∀ e ts obstacle rest, next e ts = .error (obstacle, rest) →
      ∃ t used, ts = t :: (used ++ rest) ∧ Refusal (next e) obstacle (t :: used) rest)
    (hend : ∀ e, ∃ e', ∀ more, Rule.expression.Stops more → next e more = .ok (e', more)) :
    Anchored fun ts => andThen (read room rule ts) next := by
  intro ts obstacle rest h
  rcases andThen_eq_error.1 h with hstop | ⟨e, mid, hread, hstop⟩
  · obtain ⟨used, rfl, hrefusal⟩ := hfirst ts obstacle rest hstop
    refine ⟨used, rfl, hrefusal.andThen_first fun e => ?_⟩
    obtain ⟨e', he'⟩ := hend e
    exact ⟨[], e', fun more hmore => ⟨hmore, he' more hmore⟩⟩
  · obtain ⟨t, used', rfl, hrefusal⟩ := hnext e mid obstacle rest hstop
    obtain ⟨used, rfl, hused, hlocal⟩ := hexact.accepts_local hread
    obtain ⟨-, -, -, -, hstops⟩ := (hexact _ e _).1 hread
    refine ⟨used ++ t :: used', by simp, hrefusal.andThen_next hused fun more => ?_⟩
    exact hlocal _ (Rule.stops_cons.2 (Rule.stops_cons.1 hstops))

theorem unary_bare_nil (room : Nat) (ts : List Token) :
    unary room (.bare (.keyword .nilWord) :: ts) = .ok (.literal .nil, ts) := by
  rw [unary_of_leaf rfl (by decide)]
  rfl

theorem refusal_expectedExpression
    (h : ∀ more, more.head? = rest.head? → unary room more = .error (.expectedExpression, more)) :
    Refusal (unary room) .expectedExpression [] rest where
  kind_ne_eof := by simp
  refused more hmore := by
    rcases hmore with hdeep | hmore
    · cases hdeep
    · exact h more hmore
  completed _ := ⟨[.bare (.keyword .nilWord)], _, fun more _ => unary_bare_nil room more⟩

theorem refusal_tooDeeplyNested {reader : List Token → Outcome} (ht : t.kind ≠ .eof)
    (h : ∀ more, reader (t :: more) = .error (.tooDeeplyNested, more)) :
    Refusal reader .tooDeeplyNested [t] rest where
  kind_ne_eof := by simpa using ht
  refused more _ := h more
  completed hdeep := absurd rfl hdeep

theorem anchored_nil (h : unary room [] = .error (obstacle, rest)) :
    ∃ used, [] = used ++ rest ∧ Refusal (unary room) obstacle used rest := by
  rw [unary_nil] at h
  cases h
  refine ⟨[], rfl, refusal_expectedExpression fun more hmore => ?_⟩
  rw [List.head?_eq_none_iff.1 hmore, unary_nil]

theorem anchored_leaf (hop : UnaryOp.ofKind? t.kind = none) (hparen : t.kind ≠ .symbol .leftParen)
    (h : unary room (t :: ts) = .error (obstacle, rest)) :
    ∃ used, t :: ts = used ++ rest ∧ Refusal (unary room) obstacle used rest := by
  rw [unary_of_leaf hop hparen, leaf] at h
  split at h
  · cases h
  · next hleaf =>
    cases h
    refine ⟨[], rfl, refusal_expectedExpression fun more hmore => ?_⟩
    obtain ⟨more, rfl⟩ := List.head?_eq_some_iff.1 hmore
    rw [unary_of_leaf hop hparen, leaf, hleaf]

theorem anchored_unary_zero : Anchored (unary 0) := by
  intro ts obstacle rest h
  cases ts with
  | nil => exact anchored_nil h
  | cons t ts =>
      cases hop : UnaryOp.ofKind? t.kind with
      | some op =>
          rw [unary_zero_of_op hop] at h
          cases h
          have ht : t.kind ≠ .eof := by simp [UnaryOp.ofKind?_eq_some.1 hop]
          exact ⟨[t], rfl, refusal_tooDeeplyNested ht fun more => unary_zero_of_op hop⟩
      | none =>
          by_cases hopen : t.kind = .symbol .leftParen
          · rw [unary_zero_of_paren hopen] at h
            cases h
            exact ⟨[t], rfl, refusal_tooDeeplyNested (by simp [hopen])
              fun more => unary_zero_of_paren hopen⟩
          · exact anchored_leaf hop hopen h

theorem closeGroup_eq_error {inner : Expr} :
    closeGroup inner ts = .error (obstacle, rest) ↔
      obstacle = .unclosedGroup ∧ rest = ts ∧ ∀ t ∈ ts.head?, t.kind ≠ .symbol .rightParen := by
  cases ts with
  | nil => simp [closeGroup, eq_comm]
  | cons t ts => by_cases ht : t.kind = .symbol .rightParen <;> simp [closeGroup, ht, eq_comm]

theorem stops_bare_rightParen (ts : List Token) :
    Rule.expression.Stops (.bare (.symbol .rightParen) :: ts) :=
  Rule.stops_expression_cons.2 rfl

/-- A group is refused inside, or at the token in place of its closing parenthesis. -/
theorem anchored_group (hexact : Exact room .expression)
    (hinner : Anchored (read room .expression)) :
    Anchored fun ts => andThen (read room .expression ts) closeGroup := by
  intro ts obstacle rest h
  rcases andThen_eq_error.1 h with hstop | ⟨inner, mid, hread, hstop⟩
  · obtain ⟨used, rfl, hrefusal⟩ := hinner ts obstacle rest hstop
    refine ⟨used, rfl, hrefusal.andThen_first fun e => ?_⟩
    exact ⟨[.bare (.symbol .rightParen)], .group e,
      fun more _ => ⟨stops_bare_rightParen more, rfl⟩⟩
  · obtain ⟨rfl, rfl, hclose⟩ := closeGroup_eq_error.1 hstop
    obtain ⟨used, rfl, hused, hlocal⟩ := hexact.accepts_local hread
    obtain ⟨-, -, -, -, hstops⟩ := (hexact _ inner _).1 hread
    refine ⟨used, rfl, hused, fun more hmore => ?_, fun _ => ?_⟩
    · rcases hmore with hdeep | hmore
      · cases hdeep
      · have hmoreStops : Rule.expression.Stops more := by
          rw [Rule.Stops, hmore]
          exact hstops
        simp only [hlocal more hmoreStops]
        exact closeGroup_eq_error.2 ⟨rfl, rfl, by rwa [hmore]⟩
    · refine ⟨[.bare (.symbol .rightParen)], .group inner, fun more _ => ?_⟩
      simp only [List.singleton_append, hlocal _ (stops_bare_rightParen more)]
      rfl

theorem anchored_unary_succ (hexact : Exact room .unary) (hunary : Anchored (read room .unary))
    (hexact' : Exact room .expression) (hexpression : Anchored (read room .expression)) :
    Anchored (unary (room + 1)) := by
  intro ts obstacle rest h
  cases ts with
  | nil => exact anchored_nil h
  | cons t ts =>
      cases hop : UnaryOp.ofKind? t.kind with
      | some op =>
          have hright : Anchored fun ts => andThen (read room .unary ts) fun right rest =>
              .ok (.unary op t right, rest) :=
            anchored_andThen hexact hunary (fun _ _ _ _ hstop => nomatch hstop)
              (fun e => ⟨.unary op t e, fun _ _ => rfl⟩)
          rw [unary_succ_of_op hop] at h
          obtain ⟨used, rfl, hrefusal⟩ := hright ts obstacle rest h
          have ht : t.kind ≠ .eof := by simp [UnaryOp.ofKind?_eq_some.1 hop]
          exact ⟨t :: used, rfl, hrefusal.cons ht fun _ => unary_succ_of_op hop⟩
      | none =>
          by_cases hopen : t.kind = .symbol .leftParen
          · rw [unary_succ_of_paren hopen] at h
            obtain ⟨used, rfl, hrefusal⟩ := anchored_group hexact' hexpression ts obstacle rest h
            exact ⟨t :: used, rfl, hrefusal.cons (by simp [hopen])
              fun _ => unary_succ_of_paren hopen⟩
          · exact anchored_leaf hop hopen h

theorem exists_operator_of_chain_eq_error (h : chain room tier left ts = .error (obstacle, rest)) :
    ∃ t op more, ts = t :: more ∧ tier.operator? t.kind = some op := by
  cases ts with
  | nil => rw [chain_nil] at h; cases h
  | cons t more =>
      cases hop : tier.operator? t.kind with
      | none => rw [chain_of_none hop] at h; cases h
      | some op => exact ⟨t, op, more, rfl, hop⟩

theorem kind_ne_eof_of_operator {op : BinaryOp} (hop : tier.operator? t.kind = some op) :
    t.kind ≠ .eof := by
  simp [(Tier.operator?_eq_some.1 hop).kind_eq]

theorem chainAnchored_zero : ChainAnchored 0 := by
  intro tier left ts obstacle rest h
  obtain ⟨t, op, more, rfl, hop⟩ := exists_operator_of_chain_eq_error h
  rw [chain_zero_of_op hop] at h
  cases h
  exact ⟨t, [], rfl, refusal_tooDeeplyNested (kind_ne_eof_of_operator hop)
    fun more => chain_zero_of_op hop⟩

theorem chain_of_stops_expression (h : Rule.expression.Stops ts) :
    chain room tier left ts = .ok (left, ts) := by
  apply chain_of_stops
  intro t ht tier' op hop
  exact Nat.lt_of_le_of_lt tier.rank_le_equality (h t ht tier' op hop)

theorem chainAnchored_succ (hexact : ∀ tier : Tier, Exact room tier.operandRule)
    (hoperand : ∀ tier : Tier, Anchored (read room tier.operandRule))
    (hchain : ChainAnchored room) : ChainAnchored (room + 1) := by
  intro tier left ts obstacle rest h
  obtain ⟨t, op, more, rfl, hop⟩ := exists_operator_of_chain_eq_error h
  have hmore : Anchored fun ts => andThen (read room tier.operandRule ts) fun right rest =>
      chain room tier (.binary op t left right) rest :=
    anchored_andThen (hexact tier) (hoperand tier)
      (fun right => hchain tier (.binary op t left right))
      (fun right => ⟨.binary op t left right, fun _ => chain_of_stops_expression⟩)
  rw [chain_succ_of_op hop, operand_eq_read] at h
  obtain ⟨used, rfl, hrefusal⟩ := hmore more obstacle rest h
  refine ⟨t, used, rfl, hrefusal.cons (kind_ne_eof_of_operator hop) fun ts => ?_⟩
  rw [chain_succ_of_op hop, operand_eq_read]

theorem anchored_tier (hexact : Exact room tier.operandRule)
    (hoperand : Anchored (read room tier.operandRule)) (hchain : ChainAnchored room) :
    Anchored (read room (.tier tier)) := by
  have h := anchored_andThen hexact hoperand (fun left => hchain tier left)
    (fun left => ⟨left, fun _ => chain_of_stops_expression⟩)
  simpa only [← read_tier] using h

theorem anchored_of_unary (hunary : Anchored (read room .unary)) (hchain : ChainAnchored room)
    (tier : Tier) : Anchored (read room tier.operandRule) ∧ Anchored (read room (.tier tier)) := by
  apply Rule.tier_induction (P := fun rule => Anchored (read room rule)) hunary
  intro tier hoperand
  exact anchored_tier (exact_rule room tier).1 hoperand hchain

theorem anchored_unary_and_chain (room : Nat) : Anchored (unary room) ∧ ChainAnchored room := by
  induction room with
  | zero => exact ⟨anchored_unary_zero, chainAnchored_zero⟩
  | succ room ih =>
      obtain ⟨hunary, hchain⟩ := ih
      have htiers := anchored_of_unary hunary hchain
      constructor
      · exact anchored_unary_succ (exact_unary_and_chain room).1 hunary
          (exact_rule room .equality).2 (htiers .equality).2
      · exact chainAnchored_succ (fun tier => (exact_rule room tier).1)
          (fun tier => (htiers tier).1) hchain

theorem anchored_expression (room : Nat) : Anchored (expression room) := by
  obtain ⟨hunary, hchain⟩ := anchored_unary_and_chain room
  exact (anchored_of_unary hunary hchain .equality).2

end

end Grammar

namespace Cursor

variable {c after : Cursor} {ts used rest : List Token} {error : ParseError} {obstacle : Obstacle}

theorem parse_eq_error (h : c.parse = (.error error, after)) :
    ∃ rest, Grammar.expression maxNesting c.rest = .error (error.obstacle, rest) ∧
      after = c.moveTo rest ∧ error.token = after.peek := by
  unfold parse at h
  split at h
  · cases h
  · next obstacle rest hread =>
    cases h
    exact ⟨rest, hread, rfl, rfl⟩

theorem peek_of_rest_eq_cons {t : Token} (h : c.rest = t :: rest) : c.peek = t := by
  rw [peek, h, List.headD_cons]

theorem moveTo_ofTokens (h : withEnd ts = used ++ rest) :
    (ofTokens ts).moveTo rest = ⟨withEnd ts, used.length⟩ := by
  have hmove := moveTo_of_append (c := ofTokens ts) h (Nat.zero_le _)
  simpa [ofTokens] using hmove

/-- A list is read from its start; `used` is what is consumed before the stop. -/
theorem parse_ofTokens_of_error (hts : withEnd ts = used ++ rest)
    (h : Grammar.expression maxNesting (used ++ rest) = .error (obstacle, rest)) :
    (ofTokens ts).parse =
      (.error ⟨obstacle, (Cursor.mk (withEnd ts) used.length).peek⟩,
        ⟨withEnd ts, used.length⟩) := by
  have hrest : (ofTokens ts).rest = used ++ rest := hts
  simp only [parse, hrest, h, moveTo_ofTokens hts]

/-- The stop of a failed reading: what was consumed, and the token that is in the way. -/
theorem exists_refusal_of_parse_eq_error (h : (ofTokens ts).parse = (.error error, after)) :
    ∃ used rest, withEnd ts = used ++ error.token :: rest ∧
      after = ⟨withEnd ts, used.length⟩ ∧ after.peek = error.token ∧
      Grammar.Refusal (Grammar.expression maxNesting) error.obstacle used
        (error.token :: rest) := by
  obtain ⟨rest, hread, rfl, htoken⟩ := parse_eq_error h
  obtain ⟨used, hsplit, hrefusal⟩ := Grammar.anchored_expression _ _ _ _ hread
  have hmove := moveTo_ofTokens hsplit
  rw [hmove] at htoken ⊢
  have hdrop : (Cursor.mk (withEnd ts) used.length).rest = rest := by
    change (withEnd ts).drop used.length = rest
    rw [show withEnd ts = used ++ rest from hsplit, List.drop_left]
  cases rest with
  | nil =>
      exact absurd rfl (rest_ne_nil_of_drop (p := 0) hsplit (withEnd_ne_nil ts)
        hrefusal.kind_ne_eof)
  | cons t rest =>
      rw [peek_of_rest_eq_cons hdrop] at htoken ⊢
      subst htoken
      exact ⟨used, rest, hsplit, rfl, rfl, hrefusal⟩

theorem exists_completion
    (hrefusal : Grammar.Refusal (Grammar.expression maxNesting) obstacle used rest)
    (hdeep : obstacle ≠ .tooDeeplyNested) :
    ∃ completion e, (ofTokens (used ++ completion)).parse =
      (.ok e, ⟨withEnd (used ++ completion), (used ++ completion).length⟩) := by
  obtain ⟨completion, e, hcompleted⟩ := hrefusal.completed hdeep
  obtain ⟨whole, hwhole, he, hneed, -⟩ :=
    (Grammar.expression_exact ..).1 (hcompleted [] (Rule.stops_nil _))
  simp only [List.append_nil] at hwhole
  subst hwhole
  obtain ⟨last, hlast, hend⟩ := withEnd_of_ne_eof he.kind_ne_eof
  have hparse := parse_of_derives (c := ofTokens (used ++ completion)) hend he hneed
    (by rw [hlast]; rfl)
  exact ⟨completion, e, by simpa [ofTokens] using hparse⟩

/-- A failed reading stops at the first token that rules out every completion. The error names that
token. Unless the nesting is too deep, some tokens complete those in front of it to an expression,
while with it every list fails the same way; if the nesting is too deep, every list that begins with
the tokens in front of it fails there. -/
theorem parse_error_at_first_hopeless_token (ts : List Token) (error : ParseError) (after : Cursor)
    (h : (ofTokens ts).parse = (.error error, after)) :
    let front := (withEnd ts).take after.index
    after.tokens = withEnd ts ∧ (withEnd ts)[after.index]? = some error.token ∧
      after.peek = error.token ∧
      (error.obstacle = .expectedExpression ∨ error.obstacle = .unclosedGroup →
        (∃ completion e, (ofTokens (front ++ completion)).parse =
          (.ok e, ⟨withEnd (front ++ completion), (front ++ completion).length⟩)) ∧
        ∀ more, (ofTokens (front ++ [error.token] ++ more)).parse =
          (.error error, ⟨withEnd (front ++ [error.token] ++ more), after.index⟩)) ∧
      (error.obstacle = .tooDeeplyNested → ∀ more, ∃ t, (ofTokens (front ++ more)).parse =
        (.error ⟨.tooDeeplyNested, t⟩, ⟨withEnd (front ++ more), after.index⟩)) := by
  obtain ⟨used, rest, hts, rfl, hpeek, hrefusal⟩ := exists_refusal_of_parse_eq_error h
  have hfront : (withEnd ts).take used.length = used := by rw [hts, List.take_left]
  simp only [hfront]
  refine ⟨trivial, by simp [hts], hpeek, fun hkind => ⟨?_, fun more => ?_⟩, fun hdeep more => ?_⟩
  · apply exists_completion hrefusal
    rcases hkind with hkind | hkind <;> simp [hkind]
  · obtain ⟨tail, htail⟩ := withEnd_eq_append (used ++ [error.token] ++ more)
    have hend : withEnd (used ++ [error.token] ++ more) =
        used ++ error.token :: (more ++ tail) := by
      rw [htail]
      simp
    have htoken : (Cursor.mk (withEnd (used ++ [error.token] ++ more)) used.length).peek =
        error.token := by
      apply peek_of_rest_eq_cons
      change (withEnd (used ++ [error.token] ++ more)).drop used.length = _
      rw [hend, List.drop_left]
    have hparse := parse_ofTokens_of_error hend (hrefusal.refused _ (.inr rfl))
    rwa [htoken] at hparse
  · obtain ⟨tail, htail⟩ := withEnd_eq_append (used ++ more)
    rw [List.append_assoc] at htail
    have hparse := parse_ofTokens_of_error htail (hrefusal.refused _ (.inl hdeep))
    rw [hdeep] at hparse
    exact ⟨_, hparse⟩

/-- `(nil nil` fails at the second literal. -/
theorem parse_error_at_second_literal :
    let literal := Token.bare (.keyword .nilWord)
    let ts := [.bare (.symbol .leftParen), literal, literal]
    (ofTokens ts).parse = (.error ⟨.unclosedGroup, literal⟩, ⟨withEnd ts, 2⟩) ∧
      ∃ completion e, (ofTokens ((withEnd ts).take 2 ++ completion)).parse =
        (.ok e, ⟨withEnd ((withEnd ts).take 2 ++ completion),
          ((withEnd ts).take 2 ++ completion).length⟩) := by
  intro literal ts
  have h : (ofTokens ts).parse = (.error ⟨.unclosedGroup, literal⟩, ⟨withEnd ts, 2⟩) := rfl
  obtain ⟨-, -, -, hcomplete, -⟩ := parse_error_at_first_hopeless_token ts _ _ h
  exact ⟨h, (hcomplete (.inr rfl)).1⟩

end Cursor
end Lox
