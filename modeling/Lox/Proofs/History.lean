import Lox.Proofs.Counter

/-!
# A reader has no memory

What a reader does next is decided by the tokens in front of it. Each operation gives the reply that
a cursor at the start of these tokens gives, and leaves the tokens that the cursor leaves
(`perform_inFront`); neither the tokens behind the reader nor what a failed reading has left in its
counter play a part. Over a sequence of operations, two readers in front of the same tokens
therefore give the same replies, and their indices stay the same distance apart.
-/

namespace Lox

namespace Cursor

variable {c : Cursor} {rest : List Token}

theorem rest_moveTo (h : rest <:+ c.tokens) : (c.moveTo rest).rest = rest := by
  obtain ⟨front, hfront⟩ := h
  simp [moveTo, Cursor.rest, ← hfront]

theorem tokens_parse (c : Cursor) : c.parse.2.tokens = c.tokens := by
  unfold parse
  split <;> rfl

/-- The reply of a cursor to what can be asked of a reader. -/
def perform (c : Cursor) : Reader.Operation → Reader.Reply × Cursor
  | .parse => (.parsed c.parse.1, c.parse.2)
  | .parseRecovering =>
    (.recovered c.parseRecovering.tree c.parseRecovering.diagnostics, c.parseRecovering.cursor)
  | .synchronize => (.skipped, c.synchronize)
  | .peek => (.next c.peek, c)
  | .isAtEnd => (.atEnd c.isAtEnd, c)

end Cursor

namespace Reader

open Recorded

variable {tokens base rest : List Token} {last : Token}

theorem Ahead.withEnd_eq (h : Ahead tokens rest) : Cursor.withEnd rest = rest := by
  obtain ⟨last, hlast, hend⟩ := h.ended
  simp only [Cursor.withEnd, Option.mem_def.1 hlast, if_pos hend]

theorem ahead_withEnd (ts : List Token) : Ahead (Cursor.withEnd ts) (Cursor.withEnd ts) := by
  obtain ⟨front, last, hts, hlast⟩ := Cursor.withEnd_eq_snoc ts
  refine ⟨List.suffix_refl _, last, ?_, ?_⟩
  · rw [hts, List.getLast?_concat]
    rfl
  · simp [Token.isEnd, hlast]

theorem ofTokens_eq_inFront (ts : List Token) :
    ofTokens ts = inFront (Cursor.withEnd ts) (Cursor.withEnd ts) 0 := by
  simp only [ofTokens, inFront, Nat.sub_self]

theorem inFront_append (front : List Token) (h : rest <:+ base) (depth : Nat) :
    inFront (front ++ base) rest depth =
      ⟨front ++ base, front.length + (base.length - rest.length), depth⟩ := by
  have hle := h.length_le
  simp only [inFront, List.length_append, Reader.mk.injEq, true_and, and_true]
  omega

theorem parse_inFront (h : Ahead tokens rest) (depth : Nat) :
    ∃ left, (inFront tokens rest depth).parse =
        some ((Cursor.ofTokens rest).parse.1,
          inFront tokens (Cursor.ofTokens rest).parse.2.rest left) ∧
      Ahead tokens (Cursor.ofTokens rest).parse.2.rest := by
  have hread := follows_expression tokens Cursor.maxNesting rest 0 h (Nat.zero_add _)
  have hself := follows_expression rest Cursor.maxNesting rest 0 h.self (Nat.zero_add _)
  have hparse : (inFront tokens rest depth).parse =
      (expression Cursor.maxNesting (inFront tokens rest 0)).outcome := rfl
  have hrest : (Cursor.ofTokens rest).rest = rest := h.withEnd_eq
  have hmove {more : List Token} (hmore : Ahead rest more) :
      ((Cursor.ofTokens rest).moveTo more).rest = more :=
    Cursor.rest_moveTo (by rw [Cursor.ofTokens, h.withEnd_eq]; exact hmore.suffix)
  rw [hparse, Cursor.parse, hrest]
  generalize Grammar.expression Cursor.maxNesting rest = outcome at hread hself
  generalize (expression Cursor.maxNesting (inFront tokens rest 0)).outcome = step at hread
  generalize (expression Cursor.maxNesting (inFront rest rest 0)).outcome = step' at hself
  cases hread with
  | @ok e more left hahead =>
      cases hself with
      | ok _ hmore =>
          simp only [hmove hmore]
          exact ⟨left, rfl, hahead⟩
  | @error obstacle t more left hahead =>
      cases hself with
      | error _ _ hmore =>
          have hpeek : ((Cursor.ofTokens rest).moveTo (t :: more)).peek = t := by
            rw [Cursor.peek, hmove hmore, List.headD_cons]
          simp only [hmove hmore, hpeek]
          exact ⟨left, rfl, hahead⟩

theorem resume_inFront (hlast : last :: rest <:+ tokens) (h : Ahead tokens rest) (depth : Nat) :
    (resume (inFront tokens rest depth)).outcome =
        some (inFront tokens (Cursor.resume last rest) depth) ∧
      Ahead tokens (Cursor.resume last rest) := by
  induction rest generalizing last with
  | nil => exact absurd rfl h.ne_nil
  | cons t rest ih =>
      have hpeek : (inFront tokens (t :: rest) depth).peek? = some t := peek?_inFront h
      have hprevious : (inFront tokens (t :: rest) depth).previous? = some last :=
        previous?_inFront hlast
      cases hstop : t.isEnd || last.kind == .symbol .semicolon || t.kind.startsDeclaration with
      | true =>
          rw [outcome_resume_of_stop hpeek hprevious hstop, Cursor.resume, if_pos hstop]
          exact ⟨rfl, h⟩
      | false =>
          have hend : t.isEnd = false := by
            simp only [Bool.or_eq_false_iff] at hstop
            exact hstop.1.1
          rw [outcome_resume_of_skip hpeek hprevious hstop, inFront_succ h, Cursor.resume,
            if_neg (by simp [hstop])]
          exact ih h.suffix (h.tail hend)

theorem synchronize?_eq {r : Reader} {t : Token} {after : Reader}
    (h : (advance r).outcome = some (.ok t, after)) : r.synchronize? = (resume after).outcome := by
  rw [synchronize?, synchronize, outcome_bind, h]
  rfl

theorem exists_previous? {r : Reader} {t : Token} (hpeek : r.peek? = some t) :
    ∃ last, r.previous? = some last := by
  have hlt := (List.getElem?_eq_some_iff.1 hpeek).1
  exact ⟨_, List.getElem?_eq_getElem (Nat.lt_of_le_of_lt (Nat.sub_le _ 1) hlt)⟩

theorem synchronize?_of_isEnd {r : Reader} {t : Token} (hpeek : r.peek? = some t)
    (hend : t.isEnd = true) : r.synchronize? = some r := by
  obtain ⟨last, hprevious⟩ := exists_previous? hpeek
  have hstays : (advance r).outcome = some (.ok last, r) := by
    rw [advance, outcome_bind, outcome_move hpeek, if_pos hend, Option.bind_some,
      outcome_lookBack_bind hprevious]
    rfl
  rw [synchronize?_eq hstays]
  exact outcome_resume_of_stop hpeek hprevious (by simp [hend])

theorem synchronize?_inFront (h : Ahead tokens rest) (depth : Nat) :
    (inFront tokens rest depth).synchronize? = some (inFront tokens (Cursor.recover rest) depth) ∧
      Ahead tokens (Cursor.recover rest) := by
  obtain ⟨t, rest, rfl⟩ := h.exists_cons
  cases hend : t.isEnd with
  | true =>
      -- the reader stays where it is, so what it looks back at does not matter
      have hpeek : (inFront tokens (t :: rest) depth).peek? = some t := peek?_inFront h
      simp only [Cursor.recover, hend, if_true]
      exact ⟨synchronize?_of_isEnd hpeek hend, h⟩
  | false =>
      have hresume := resume_inFront h.suffix (h.tail hend) depth
      simpa only [synchronize?_eq (advance_inFront h hend), Cursor.recover, hend,
        Bool.false_eq_true, if_false] using hresume

theorem rest_synchronize {c : Cursor} (h : Ahead c.tokens c.rest) :
    c.synchronize.rest = Cursor.recover c.rest :=
  Cursor.rest_moveTo (synchronize?_inFront h 0).2.suffix

/-- The reply to an operation and the tokens left behind it are those of a cursor at the start of
the tokens in front of the reader. -/
theorem perform_inFront (h : Ahead tokens rest) (op : Operation) (depth : Nat) :
    ∃ left, (inFront tokens rest depth).perform op =
        some (((Cursor.ofTokens rest).perform op).1,
          inFront tokens ((Cursor.ofTokens rest).perform op).2.rest left) ∧
      Ahead tokens ((Cursor.ofTokens rest).perform op).2.rest := by
  have hrest : (Cursor.ofTokens rest).rest = rest := h.withEnd_eq
  have htokens : (Cursor.ofTokens rest).tokens = rest := h.withEnd_eq
  cases op with
  | parse =>
      obtain ⟨left, hparse, hahead⟩ := parse_inFront h depth
      exact ⟨left, perform_parse hparse, hahead⟩
  | parseRecovering =>
      obtain ⟨left, hparse, hahead⟩ := parse_inFront h depth
      obtain ⟨-, -, hself⟩ := parse_inFront h.self depth
      have hheld := (Cursor.ofTokens rest).tokens_parse.trans htokens
      simp only [Cursor.perform, Cursor.parseRecovering]
      generalize (Cursor.ofTokens rest).parse = outcome at hparse hahead hself hheld
      rcases outcome with ⟨error | e, after⟩
      · have hleft : after.synchronize.rest = Cursor.recover after.rest :=
          rest_synchronize (by rw [show after.tokens = rest from hheld]; exact hself)
        obtain ⟨hskip, hbehind⟩ := synchronize?_inFront hahead left
        simp only [hleft]
        exact ⟨left, perform_recovering_of_error hparse hskip, hbehind⟩
      · exact ⟨left, perform_recovering_of_ok hparse, hahead⟩
  | synchronize =>
      obtain ⟨hskip, hahead⟩ := synchronize?_inFront h depth
      have hleft : (Cursor.ofTokens rest).synchronize.rest = Cursor.recover rest := by
        rw [rest_synchronize (by rw [hrest, htokens]; exact h.self), hrest]
      simp only [Cursor.perform, hleft]
      exact ⟨depth, perform_synchronize hskip, hahead⟩
  | peek =>
      obtain ⟨t, more, rfl⟩ := h.exists_cons
      simp only [Cursor.perform, Cursor.peek, hrest]
      exact ⟨depth, perform_peek (peek?_inFront h), h⟩
  | isAtEnd =>
      obtain ⟨t, more, rfl⟩ := h.exists_cons
      simp only [Cursor.perform, Cursor.isAtEnd, Cursor.peek, hrest]
      exact ⟨depth, perform_isAtEnd (peek?_inFront h), h⟩

/-- A reader gives the replies of any other in front of the same tokens, whatever tokens the other
has left behind, and it stays in front of the same tokens. -/
theorem run_inFront (h : Ahead base rest) (ops : List Operation) (depth : Nat) :
    ∃ replies final left,
      (inFront base rest depth).run ops = some (replies, inFront base final left) ∧
      Ahead base final ∧
      ∀ front depth, ∃ left, (inFront (front ++ base) rest depth).run ops =
        some (replies.map (Prod.map id (front.length + ·)),
          inFront (front ++ base) final left) := by
  induction ops generalizing rest depth with
  | nil => exact ⟨[], rest, depth, rfl, h, fun _ depth => ⟨depth, rfl⟩⟩
  | cons op ops ih =>
      obtain ⟨mid, hperform, hbehind⟩ := perform_inFront h op depth
      obtain ⟨replies, final, left, hrun, hfinal, hothers⟩ := ih hbehind mid
      refine ⟨_, final, left, run_cons hperform hrun, hfinal, fun front depth' => ?_⟩
      have hahead : Ahead (front ++ base) rest :=
        ⟨h.suffix.trans (List.suffix_append front base), h.ended⟩
      obtain ⟨mid', hperform', -⟩ := perform_inFront hahead op depth'
      obtain ⟨left', hrun'⟩ := hothers front mid'
      refine ⟨left', ?_⟩
      rw [run_cons hperform' hrun', inFront_append front hbehind.suffix]
      rfl

/-- What a reader does after any operations, whether they succeeded or failed, is what a new reader
of the tokens in front of it does: the replies are the same, and each leaves the reader as many
tokens further on. The same holds of a reader that has any other tokens behind it and shows any
other count. -/
theorem run_independent_of_history (ts : List Token) (before after : List Operation) :
    ∃ replies r answers final,
      (ofTokens ts).run before = some (replies, r) ∧ r.tokens = Cursor.withEnd ts ∧
      (ofTokens (r.tokens.drop r.index)).run after = some (answers, final) ∧
      (∃ left, r.run after = some (answers.map (Prod.map id (r.index + ·)),
        ⟨r.tokens, r.index + final.index, left⟩)) ∧
      ∀ front depth, ∃ left,
        (Reader.mk (front ++ r.tokens.drop r.index) front.length depth).run after =
          some (answers.map (Prod.map id (front.length + ·)),
            ⟨front ++ r.tokens.drop r.index, front.length + final.index, left⟩) := by
  obtain ⟨replies, rest, depth, hbefore, hahead, -⟩ := run_inFront (ahead_withEnd ts) before 0
  obtain ⟨answers, final, left, hafter, hfinal, hothers⟩ := run_inFront hahead.self after 0
  have hany (front : List Token) (depth : Nat) : ∃ left,
      (Reader.mk (front ++ rest) front.length depth).run after =
        some (answers.map (Prod.map id (front.length + ·)),
          ⟨front ++ rest, front.length + (inFront rest final left).index, left⟩) := by
    obtain ⟨left, hrun⟩ := hothers front depth
    rw [inFront_append front (List.suffix_refl rest), inFront_append front hfinal.suffix,
      Nat.sub_self] at hrun
    exact ⟨left, hrun⟩
  obtain ⟨front, hfront⟩ := hahead.suffix
  have hreader : inFront (Cursor.withEnd ts) rest depth = ⟨front ++ rest, front.length, depth⟩ := by
    rw [← hfront, inFront_append front (List.suffix_refl rest), Nat.sub_self]
    rfl
  rw [hreader, ← ofTokens_eq_inFront] at hbefore
  refine ⟨replies, _, answers, inFront rest final left, hbefore, hfront, ?_⟩
  simp only [List.drop_left]
  refine ⟨?_, hany front depth, hany⟩
  rw [ofTokens_eq_inFront, hahead.withEnd_eq, hafter]

end Reader
end Lox
