import Lox.Proofs.Recovery

/-!
# A reader stays within its bounds

Whatever is asked of a reader, it looks at tokens of its list only, its counter neither passes the
limit nor is lowered from zero, and it finds an operator wherever it expects one, because every kind
that a rule lists stands for one. The statements are about the record of a run, so they hold of
every moment and not of the outcome alone. `Recorded.Keeps` says that all that is recorded is safe
and that the outcome is as asked; sequencing is opened once (`Recorded.Keeps.bind`), and the readers
follow from what each step keeps, by induction on the room for nesting.
-/

namespace Lox.Reader

/-- The reader holds these tokens and stands in front of one of them, with its counter within the
limit. -/
structure Sound (tokens : List Token) (r : Reader) : Prop where
  held : r.tokens = tokens
  inside : r.index < tokens.length
  depth_le : r.depth ≤ Cursor.maxNesting

/-- The counter is lowered only where it has been raised, and kinds that are taken for an operator
belong to one. -/
def Act.Allowed (depth : Nat) : Act → Prop
  | leave => 0 < depth
  | unaryOperator k => (UnaryOp.ofKind? k).isSome
  | binaryOperator k => (BinaryOp.ofKind? k).isSome
  | look | lookBack | enter | restore => True

/-- The step has an outcome within the bounds, and the counter is as it was if an expression is
read. -/
def KeepsCounter (tokens : List Token) (r : Reader) (record : Recorded.Step Expr) : Prop :=
  ∃ result after, record.outcome = some (result, after) ∧ after.Sound tokens ∧
    ∀ e, result = .ok e → after.depth = r.depth

structure Event.Safe (tokens : List Token) (event : Event) : Prop where
  sound : event.reader.Sound tokens
  allowed : event.act.Allowed event.reader.depth

namespace Recorded

section

variable {α β : Type} {tokens : List Token} {r after : Reader}

/-- All that is done is safe, and there is an outcome as asked. -/
structure Keeps (tokens : List Token) (asked : α → Prop) (record : Recorded α) : Prop where
  safe : ∀ event ∈ record.events, event.Safe tokens
  outcome : ∃ a, record.outcome = some a ∧ asked a

/-- A step ends with a sound reader; if it ends with a value, both are as asked. -/
def StepKeeps (tokens : List Token) (asked : α → Reader → Prop) (record : Step α) : Prop :=
  record.Keeps tokens fun stepped =>
    stepped.2.Sound tokens ∧ ∀ a, stepped.1 = .ok a → asked a stepped.2

theorem Keeps.bind {asked : α → Prop} {asked' : β → Prop} {first : Recorded α}
    {next : α → Recorded β} (h : first.Keeps tokens asked)
    (hnext : ∀ a, asked a → (next a).Keeps tokens asked') :
    (first.bind next).Keeps tokens asked' := by
  obtain ⟨a, hfirst, ha⟩ := h.outcome
  have hbind : first.bind next = ⟨(next a).outcome, first.events ++ (next a).events⟩ := by
    rw [Recorded.bind, hfirst]
  rw [hbind]
  refine ⟨fun event hevent => ?_, (hnext a ha).outcome⟩
  rcases List.mem_append.1 hevent with hevent | hevent
  · exact h.safe event hevent
  · exact (hnext a ha).safe event hevent

theorem Keeps.attach {asked : α → Prop} {record : Recorded α} (h : record.Keeps tokens asked) :
    record.attach.Keeps tokens fun a => asked a.1 := by
  obtain ⟨a, houtcome, ha⟩ := h.outcome
  exact ⟨h.safe, ⟨a, houtcome⟩, by simp [Recorded.attach, houtcome], ha⟩

theorem Keeps.step {asked : α → Prop} {asked' : β → Reader → Prop} {first : Recorded α}
    {next : α → Step β} (h : first.Keeps tokens asked)
    (hnext : ∀ a, asked a → StepKeeps tokens asked' (next a)) :
    StepKeeps tokens asked' (first.bind next) :=
  h.bind hnext

theorem keeps_done {asked : α → Prop} {a : α} (h : asked a) : (done a).Keeps tokens asked :=
  ⟨by simp [done], a, rfl, h⟩

theorem keeps_note (act : Act) (hr : r.Sound tokens) (hact : act.Allowed r.depth) (a : α) :
    (note act r (some a)).Keeps tokens (· = a) := by
  refine ⟨fun event hevent => ?_, a, rfl, rfl⟩
  obtain rfl := List.mem_singleton.1 hevent
  exact ⟨hr, hact⟩

theorem stepKeeps_done {asked : α → Reader → Prop} {a : α} (hr : r.Sound tokens) (h : asked a r) :
    StepKeeps tokens asked (done (.ok a, r)) := by
  refine keeps_done ⟨hr, fun b hb => ?_⟩
  cases hb
  exact h

theorem stepKeeps_note {asked : α → Reader → Prop} {act : Act} {a : α} (hr : r.Sound tokens)
    (hact : act.Allowed r.depth) (hafter : after.Sound tokens) (h : asked a after) :
    StepKeeps tokens asked (note act r (some (.ok a, after))) := by
  refine ⟨(keeps_note act hr hact a).safe, _, rfl, hafter, fun b hb => ?_⟩
  cases hb
  exact h

theorem StepKeeps.andThen {asked : α → Reader → Prop} {asked' : β → Reader → Prop}
    {first : Step α} {next : α → Reader → Step β} (h : StepKeeps tokens asked first)
    (hnext : ∀ a r, r.Sound tokens → asked a r → StepKeeps tokens asked' (next a r)) :
    StepKeeps tokens asked' (andThen first next) := by
  refine Keeps.bind h ?_
  rintro ⟨_ | a, r⟩ ⟨hr, ha⟩
  · exact keeps_done ⟨hr, by simp⟩
  · exact hnext a r hr (ha a rfl)

theorem StepKeeps.mono {asked asked' : α → Reader → Prop} {record : Step α}
    (h : StepKeeps tokens asked record) (himp : ∀ a r, asked a r → asked' a r) :
    StepKeeps tokens asked' record := by
  obtain ⟨stepped, houtcome, hsound, hasked⟩ := h.outcome
  exact ⟨h.safe, stepped, houtcome, hsound, fun a ha => himp a _ (hasked a ha)⟩

theorem keeps_look (hr : r.Sound tokens) :
    (look r).Keeps tokens fun t => tokens[r.index]? = some t := by
  obtain ⟨t, ht⟩ : ∃ t, tokens[r.index]? = some t := ⟨_, List.getElem?_eq_getElem hr.inside⟩
  have hpeek : r.peek? = some t := by rw [peek?, hr.held, ht]
  rw [look, hpeek]
  exact ⟨(keeps_note .look hr trivial t).safe, t, rfl, ht⟩

theorem keeps_lookBack (hr : r.Sound tokens) :
    (lookBack r).Keeps tokens fun t => tokens[r.index - 1]? = some t := by
  have hlt : r.index - 1 < tokens.length := Nat.lt_of_le_of_lt (Nat.sub_le _ 1) hr.inside
  obtain ⟨t, ht⟩ : ∃ t, tokens[r.index - 1]? = some t := ⟨_, List.getElem?_eq_getElem hlt⟩
  have hprevious : r.previous? = some t := by rw [previous?, hr.held, ht]
  rw [lookBack, hprevious]
  exact ⟨(keeps_note .lookBack hr trivial t).safe, t, rfl, ht⟩

theorem stepKeeps_stop {asked : α → Reader → Prop} (obstacle : Obstacle) (hr : r.Sound tokens) :
    StepKeeps tokens asked (stop obstacle r : Step α) :=
  (keeps_look hr).step fun _ _ => keeps_done ⟨hr, by simp⟩

theorem stepKeeps_enter (hr : r.Sound tokens) :
    StepKeeps tokens (fun _ after => after.depth = r.depth + 1) (enter r) := by
  refine (keeps_note .enter hr trivial ()).step fun _ _ => ?_
  by_cases hfull : Cursor.maxNesting ≤ r.depth
  · rw [if_pos hfull]
    exact stepKeeps_stop .tooDeeplyNested hr
  · rw [if_neg hfull]
    exact stepKeeps_done ⟨hr.held, hr.inside, Nat.lt_of_not_le hfull⟩ rfl

theorem stepKeeps_leave (hr : r.Sound tokens) (hpos : 0 < r.depth) :
    StepKeeps tokens (fun _ after => after.depth + 1 = r.depth) (leave r) := by
  have hle : r.depth - 1 ≤ Cursor.maxNesting := Nat.le_trans (Nat.sub_le _ 1) hr.depth_le
  rw [leave, if_neg (Nat.ne_of_gt hpos)]
  exact stepKeeps_note hr hpos ⟨hr.held, hr.inside, hle⟩ (Nat.sub_add_cancel hpos)

variable (hended : ∃ last ∈ tokens.getLast?, last.isEnd)
include hended

theorem keeps_move (hr : r.Sound tokens) :
    (move r).Keeps tokens fun after => after.Sound tokens ∧ ∃ t, tokens[r.index]? = some t ∧
      after = if t.isEnd then r else { r with index := r.index + 1 } := by
  refine (keeps_look hr).bind fun t ht => keeps_done ⟨?_, t, ht, rfl⟩
  cases hend : t.isEnd with
  | true => exact hr
  | false => exact ⟨hr.held, succ_lt_length hended ht hend, hr.depth_le⟩

theorem stepKeeps_advance (hr : r.Sound tokens) :
    StepKeeps tokens
      (fun taken after => after.depth = r.depth ∧
        ∀ t, tokens[r.index]? = some t → t.isEnd = false →
          taken = t ∧ after = { r with index := r.index + 1 })
      (advance r) := by
  refine (keeps_move hended hr).step ?_
  rintro after ⟨hafter, u, hu, rfl⟩
  refine (keeps_lookBack hafter).step fun taken htaken => stepKeeps_done hafter ⟨?_, ?_⟩
  · split <;> rfl
  · intro t ht hend
    obtain rfl : u = t := Option.some.inj (hu.symm.trans ht)
    simp only [hend, Bool.false_eq_true, if_false, Nat.add_sub_cancel] at htaken ⊢
    exact ⟨Option.some.inj (htaken.symm.trans ht), trivial⟩

theorem stepKeeps_takeAny {kinds : List Kind} (hkinds : .eof ∉ kinds) (hr : r.Sound tokens) :
    StepKeeps tokens (fun token? after => after.depth = r.depth ∧ ∀ t ∈ token?, t.kind ∈ kinds)
      (takeAny kinds r) := by
  refine (keeps_look hr).step fun t ht => ?_
  by_cases hkind : t.kind ∈ kinds
  · have hend : t.isEnd = false := by
      rw [Token.isEnd, beq_eq_false_iff_ne]
      intro heof
      exact hkinds (heof ▸ hkind)
    rw [if_pos hkind]
    refine (stepKeeps_advance hended hr).andThen fun taken after hafter htaken => ?_
    refine stepKeeps_done hafter ⟨htaken.1, ?_⟩
    rintro _ ⟨⟩
    rw [(htaken.2 t ht hend).1]
    exact hkind
  · rw [if_neg hkind]
    exact stepKeeps_done hr ⟨rfl, by simp⟩

theorem stepKeeps_consume (kind : Kind) (obstacle : Obstacle) (hr : r.Sound tokens) :
    StepKeeps tokens (fun _ after => after.depth = r.depth) (consume kind obstacle r) := by
  refine (keeps_look hr).step fun t _ => ?_
  split
  · exact (stepKeeps_advance hended hr).mono fun _ _ h => h.1
  · exact stepKeeps_stop obstacle hr

end

/-- A reader that, if the counter and the room make up one more than the limit, ends with the
counter as it was. There is no such place without room. -/
def Reads (tokens : List Token) (room : Nat) (reader : Reader → Step Expr) : Prop :=
  ∀ r : Reader, r.Sound tokens → r.depth + room = Cursor.maxNesting + 1 →
    StepKeeps tokens (fun _ after => after.depth = r.depth) (reader r)

/-- Loops over operators leave the counter wherever it comes to stand. -/
def Loops (tokens : List Token) (room : Nat) (loop : Expr → Reader → Step Expr) : Prop :=
  ∀ (left : Expr) (r : Reader), r.Sound tokens → r.depth + room = Cursor.maxNesting + 1 →
    StepKeeps tokens (fun _ _ => True) (loop left r)

section

variable {tokens : List Token} {room : Nat} {r : Reader}
  {right inner operand unary : Reader → Step Expr} {more : Expr → Reader → Step Expr}
  {chain : Tier → Expr → Reader → Step Expr}

theorem not_fits (hr : r.Sound tokens) : r.depth + 0 ≠ Cursor.maxNesting + 1 := by
  have := hr.depth_le
  omega

theorem reads_zero (reader : Reader → Step Expr) : Reads tokens 0 reader :=
  fun _ hr hroom => absurd hroom (not_fits hr)

theorem loops_zero (loop : Expr → Reader → Step Expr) : Loops tokens 0 loop :=
  fun _ _ hr hroom => absurd hroom (not_fits hr)

theorem stepKeeps_prefixed (hright : Reads tokens room right) {token : Token}
    (htoken : token.kind ∈ Grammar.unaryOperators) (hr : r.Sound tokens)
    (hroom : r.depth + room = Cursor.maxNesting) :
    StepKeeps tokens (fun _ after => after.depth = r.depth) (prefixed right token r) := by
  obtain ⟨op, hop⟩ := Grammar.mem_unaryOperators_iff.1 htoken
  have hallowed : (Act.unaryOperator token.kind).Allowed r.depth :=
    Option.isSome_iff_exists.2 ⟨op, hop⟩
  rw [prefixed, hop]
  refine (keeps_note _ hr hallowed op).step fun _ _ => ?_
  refine (stepKeeps_enter hr).andThen fun _ entered hentered hraised => ?_
  refine (hright entered hentered (by omega)).andThen fun e behind hbehind hkept => ?_
  refine (stepKeeps_leave hbehind (by omega)).andThen fun _ left hleft hlowered => ?_
  exact stepKeeps_done hleft (by omega)

/-- Behind each loop the counter is back where it stood in front of the operand. -/
theorem reads_climb (hunary : Reads tokens room unary)
    (hchain : ∀ tier, Loops tokens room (chain tier)) (tiers : List Tier) :
    Reads tokens room (climb unary chain tiers) := by
  intro r hr hroom
  have hfold : ∀ first, StepKeeps tokens (fun _ after => after.depth = r.depth) first →
      StepKeeps tokens (fun _ after => after.depth = r.depth)
        (tiers.foldl (fun first tier => andThen first fun left after =>
          andThen (chain tier left after) fun e after => restore r.depth e after) first) := by
    induction tiers with
    | nil => exact fun _ h => h
    | cons tier tiers ih =>
        intro first h
        refine ih _ (h.andThen fun left after hafter hdepth => ?_)
        refine (hchain tier left after hafter (by omega)).andThen fun e behind hbehind _ => ?_
        exact stepKeeps_note hbehind trivial ⟨hbehind.held, hbehind.inside, hr.depth_le⟩ rfl
  exact hfold _ (hunary r hr hroom)

variable (hended : ∃ last ∈ tokens.getLast?, last.isEnd)
include hended

theorem stepKeeps_group (hinner : Reads tokens room inner) (hr : r.Sound tokens)
    (hroom : r.depth + room = Cursor.maxNesting) :
    StepKeeps tokens (fun _ after => after.depth = r.depth) (group inner r) := by
  refine (stepKeeps_advance hended hr).andThen fun _ moved hmoved htaken => ?_
  have hsame := htaken.1
  refine (stepKeeps_enter hmoved).andThen fun _ entered hentered hraised => ?_
  refine (hinner entered hentered (by omega)).andThen fun e behind hbehind hkept => ?_
  refine (stepKeeps_leave hbehind (by omega)).andThen fun _ left hleft hlowered => ?_
  refine (stepKeeps_consume hended _ _ hleft).andThen fun _ closed hclosed hsame' => ?_
  exact stepKeeps_done hclosed (by omega)

theorem stepKeeps_primary (hinner : Reads tokens room inner) (hr : r.Sound tokens)
    (hroom : r.depth + room = Cursor.maxNesting) :
    StepKeeps tokens (fun _ after => after.depth = r.depth) (primary inner r) := by
  refine (keeps_look hr).step fun t _ => ?_
  cases Grammar.leaf? t with
  | some v =>
      refine (stepKeeps_advance hended hr).andThen fun _ moved hmoved htaken => ?_
      exact stepKeeps_done hmoved htaken.1
  | none =>
      simp only
      split
      · exact stepKeeps_group hended hinner hr hroom
      · exact stepKeeps_stop .expectedExpression hr

theorem reads_unaryOf (hright : Reads tokens room right) (hinner : Reads tokens room inner) :
    Reads tokens (room + 1) (unaryOf right inner) := by
  intro r hr hroom
  refine (stepKeeps_takeAny hended (by decide) hr).andThen fun token? taken htaken hasked => ?_
  have hsame := hasked.1
  cases token? with
  | some token =>
      have hoperator := hasked.2 token rfl
      exact (stepKeeps_prefixed hright hoperator htaken (by omega)).mono
        fun _ _ hdepth => hdepth.trans hsame
  | none =>
      exact (stepKeeps_primary hended hinner htaken (by omega)).mono
        fun _ _ hdepth => hdepth.trans hsame

theorem loops_chainOf (hoperand : Reads tokens room operand) (hmore : Loops tokens room more)
    (tier : Tier) : Loops tokens (room + 1) (chainOf operand more tier) := by
  intro left r hr hroom
  have hkinds : .eof ∉ tier.operators := by cases tier <;> decide
  refine (stepKeeps_takeAny hended hkinds hr).andThen fun token? taken htaken hasked => ?_
  cases token? with
  | none => exact stepKeeps_done htaken trivial
  | some token =>
      have hsame := hasked.1
      obtain ⟨op, hop⟩ := Tier.mem_operators_iff.1 (hasked.2 token rfl)
      have hkind := BinaryOp.ofKind?_eq_some.2 (Tier.operator?_eq_some.1 hop).kind_eq
      refine (stepKeeps_enter htaken).andThen fun _ entered hentered hraised => ?_
      have hallowed : (Act.binaryOperator token.kind).Allowed entered.depth :=
        Option.isSome_iff_exists.2 ⟨op, hkind⟩
      rw [hkind]
      refine (keeps_note _ hentered hallowed op).step fun _ _ => ?_
      refine (hoperand entered hentered (by omega)).andThen fun e behind hbehind hkept => ?_
      exact hmore _ behind hbehind (by omega)

theorem reads_unary_and_chain (room : Nat) :
    Reads tokens (room + 1) (Recorded.unary room) ∧
      ∀ tier, Loops tokens (room + 1) (Recorded.chain room tier) := by
  induction room with
  | zero =>
      rw [Recorded.unary, Recorded.chain]
      exact ⟨reads_unaryOf hended (reads_zero _) (reads_zero _),
        loops_chainOf hended (reads_zero _) (loops_zero _)⟩
  | succ room ih =>
      rw [Recorded.unary, Recorded.chain]
      refine ⟨reads_unaryOf hended ih.1 (reads_climb ih.1 ih.2 Tier.all), fun tier => ?_⟩
      exact loops_chainOf hended (reads_climb ih.1 ih.2 tier.tighter) (ih.2 tier) tier

theorem stepKeeps_parse (hr : r.Sound tokens) :
    StepKeeps tokens (fun _ _ => True) (parse r) := by
  obtain ⟨hunary, hchain⟩ := reads_unary_and_chain hended Cursor.maxNesting
  have hstart : Sound tokens { r with depth := 0 } := ⟨hr.held, hr.inside, Nat.zero_le _⟩
  exact (reads_climb hunary hchain Tier.all _ hstart (Nat.zero_add _)).mono fun _ _ _ => trivial

theorem keeps_resume (hr : r.Sound tokens) : (resume r).Keeps tokens (·.Sound tokens) := by
  fun_induction resume r with
  | case1 r ih =>
      refine (keeps_look hr).attach.bind fun t _ => ?_
      by_cases hend : t.1.isEnd = true
      · rw [dif_pos hend]
        exact keeps_done hr
      · rw [dif_neg hend]
        refine (keeps_lookBack hr).bind fun last _ => ?_
        split
        · exact keeps_done hr
        · refine (Keeps.attach (stepKeeps_advance hended hr)).bind fun stepped hstepped => ?_
          exact ih t hend stepped hstepped.1

theorem keeps_synchronize (hr : r.Sound tokens) :
    (synchronize r).Keeps tokens (·.Sound tokens) :=
  Keeps.bind (stepKeeps_advance hended hr) fun _ h => keeps_resume hended h.1

theorem keeps_perform (hr : r.Sound tokens) (op : Operation) :
    (perform r op).Keeps tokens (·.2.Sound tokens) := by
  cases op with
  | parse => exact Keeps.bind (stepKeeps_parse hended hr) fun _ h => keeps_done h.1
  | parseRecovering =>
      refine Keeps.bind (stepKeeps_parse hended hr) ?_
      rintro ⟨_ | _, after⟩ ⟨hafter, -⟩
      · exact (keeps_synchronize hended hafter).bind fun _ h => keeps_done h
      · exact keeps_done hafter
  | synchronize => exact (keeps_synchronize hended hr).bind fun _ h => keeps_done h
  | peek => exact (keeps_look hr).bind fun _ _ => keeps_done hr
  | isAtEnd =>
      have hanswer : (isAtEnd r).Keeps tokens fun _ => True :=
        (keeps_look hr).bind fun _ _ => keeps_done trivial
      exact hanswer.bind fun _ _ => keeps_done hr

theorem keeps_run (hr : r.Sound tokens) (ops : List Operation) :
    (run r ops).Keeps tokens (·.2.Sound tokens) := by
  induction ops generalizing r with
  | nil => exact keeps_done hr
  | cons op ops ih =>
      refine (keeps_perform hended hr op).bind fun _ hafter => ?_
      exact (ih hafter).bind fun _ hfinal => keeps_done hfinal

omit hended in
theorem StepKeeps.keepsCounter {record : Step Expr}
    (h : StepKeeps tokens (fun _ after => after.depth = r.depth) record) :
    r.KeepsCounter tokens record := by
  obtain ⟨stepped, houtcome, hsound, hdepth⟩ := h.outcome
  exact ⟨stepped.1, stepped.2, houtcome, hsound, hdepth⟩

/-- Without room it does not matter what would be read between the parentheses. -/
theorem keepsCounter_primary (hr : r.Sound tokens) (hroom : r.depth + room = Cursor.maxNesting)
    (hinner : ∀ deeper, room = deeper + 1 → inner = expression deeper) :
    r.KeepsCounter tokens (primary inner r) := by
  cases room with
  | zero => exact (stepKeeps_primary hended (reads_zero inner) hr hroom).keepsCounter
  | succ deeper =>
      obtain rfl := hinner deeper rfl
      obtain ⟨hunary, hchain⟩ := reads_unary_and_chain hended deeper
      have hexpression : Reads tokens (deeper + 1) (expression deeper) :=
        reads_climb hunary hchain Tier.all
      exact (stepKeeps_primary hended hexpression hr hroom).keepsCounter

end
end Recorded

theorem sound_ofTokens (ts : List Token) : (ofTokens ts).Sound (Cursor.withEnd ts) := by
  refine ⟨rfl, ?_, Nat.zero_le _⟩
  exact List.length_pos_iff.2 (ahead_withEnd ts).ne_nil

/-- Every operation on a reader has an outcome. The tokens held end in an end of input, and whenever
the reader looks at a token, raises, lowers or restores its counter or takes a token for an
operator, it stands within its tokens and its counter is within the limit; the counter is lowered
only from above zero, and what is taken for an operator is one. The readers of the grammar, at any
place and with any counter within the limit, end within these bounds, and if they read an
expression, the counter is as it was; what a primary expression has between its parentheses is read
with one level less. -/
theorem run_stays_in_bounds (ts : List Token) :
    (∃ last ∈ (Cursor.withEnd ts).getLast?, last.isEnd) ∧
      (∀ ops, ∃ replies final, (ofTokens ts).run ops = some (replies, final) ∧
        final.Sound (Cursor.withEnd ts) ∧
        ∀ event ∈ (Recorded.run (ofTokens ts) ops).events, event.Safe (Cursor.withEnd ts)) ∧
      ∀ r : Reader, r.Sound (Cursor.withEnd ts) → ∀ room, r.depth + room = Cursor.maxNesting →
        r.KeepsCounter (Cursor.withEnd ts) (Recorded.unary room r) ∧
        (∀ tiers, r.KeepsCounter (Cursor.withEnd ts)
          (Recorded.climb (Recorded.unary room) (Recorded.chain room) tiers r)) ∧
        ∀ inner, (∀ deeper, room = deeper + 1 → inner = Recorded.expression deeper) →
          r.KeepsCounter (Cursor.withEnd ts) (Recorded.primary inner r) := by
  have hended := (ahead_withEnd ts).ended
  refine ⟨hended, fun ops => ?_, fun r hr room hroom => ?_⟩
  · have hkeeps := Recorded.keeps_run hended (sound_ofTokens ts) ops
    obtain ⟨⟨replies, final⟩, houtcome, hfinal⟩ := hkeeps.outcome
    exact ⟨replies, final, houtcome, hfinal, hkeeps.safe⟩
  · obtain ⟨hunary, hchain⟩ := Recorded.reads_unary_and_chain hended room
    have hroom' : r.depth + (room + 1) = Cursor.maxNesting + 1 := congrArg (· + 1) hroom
    refine ⟨(hunary r hr hroom').keepsCounter, fun tiers => ?_, fun inner hinner => ?_⟩
    · exact (Recorded.reads_climb hunary hchain tiers r hr hroom').keepsCounter
    · exact Recorded.keepsCounter_primary hended hr hroom hinner

/-- Behind the first end of input stands a sign that is never read; a reader put there with its
counter at the limit refuses to enter it. -/
theorem negation_stays_in_bounds :
    let minus : Token := ⟨.symbol .minus, "-", none, 1, ⟨0, 1⟩⟩
    let one : Token := ⟨.number, "1", some (.number 1), 1, ⟨1, 1⟩⟩
    let ts := [minus, one, .endOfInput 1 2, minus]
    let full : Reader := ⟨Cursor.withEnd ts, 3, Cursor.maxNesting⟩
    (∃ event ∈ (Recorded.run (ofTokens ts) [.parse]).events,
      event.act = .leave ∧ event.reader.depth = 1 ∧ event.Safe (Cursor.withEnd ts)) ∧
      full.Sound (Cursor.withEnd ts) ∧
      full.KeepsCounter (Cursor.withEnd ts) (Recorded.unary 0 full) ∧
      full.KeepsCounter (Cursor.withEnd ts) (Recorded.primary (fun _ => .nothing) full) := by
  intro minus one ts full
  obtain ⟨-, hruns, hreaders⟩ := run_stays_in_bounds ts
  obtain ⟨-, -, -, -, hsafe⟩ := hruns [.parse]
  have hleave : (Act.leave, 1) ∈ (Recorded.run (ofTokens ts) [.parse]).events.map
      fun event => (event.act, event.reader.depth) := by decide +kernel
  obtain ⟨event, hevent, heq⟩ := List.mem_map.1 hleave
  obtain ⟨hact, hdepth⟩ := Prod.mk.inj heq
  have hfull : full.Sound (Cursor.withEnd ts) := ⟨rfl, by decide, Nat.le_refl _⟩
  obtain ⟨hunary, -, hprimary⟩ := hreaders full hfull 0 rfl
  refine ⟨⟨event, hevent, hact, hdepth, hsafe event hevent⟩, hfull, hunary, hprimary _ ?_⟩
  intro deeper h
  cases h

end Lox.Reader
