import Lox.Proofs.CorrectPrefix
import Lox.Proofs.History
import Mathlib.Order.Bounds.Defs

/-!
# Recovery after an error

Skipping stops at the first place where reading can resume (`isLeast_resume`, by the recursion of
the loop). Reading an expression moves over tokens none of which is an end of input, and over one at
least if it succeeds (`reads_parse`); skipping behind an error adds one more token unless it stands
in front of an end of input. A call that reads or recovers therefore brings a reader closer to the
next end of input, and as many calls as there are tokens in front of it bring the reader there.
-/

namespace Lox

theorem Grammar.expression_of_isEnd {t : Token} (hend : t.isEnd = true) (room : Nat)
    (rest : List Token) :
    expression room (t :: rest) = .error (.expectedExpression, t :: rest) := by
  have hkind : t.kind = .eof := by simpa [Token.isEnd] using hend
  have hleaf : leaf t rest = .error (.expectedExpression, t :: rest) := by
    simp [leaf, leaf?, hkind]
  have hunary : unary room (t :: rest) = leaf t rest :=
    unary_of_leaf (by rw [hkind]; rfl) (by simp [hkind])
  simp only [expression, climb, Tier.all, List.foldl_cons, List.foldl_nil, hunary, hleaf, andThen]

namespace Reader

open Recorded

variable {tokens ts rest : List Token} {t : Token} {p depth : Nat}

/-- An end of input or a word that opens a declaration stands at this index, or a semicolon in front
of it. -/
def ResumesAt (tokens : List Token) (q : Nat) : Prop :=
  (∃ t ∈ tokens[q]?, t.isEnd ∨ t.kind.startsDeclaration) ∨
    ∃ last ∈ tokens[q - 1]?, last.kind = .symbol .semicolon

def SkipsTo (tokens : List Token) (p q : Nat) : Prop :=
  ∃ t ∈ tokens[p]?, if t.isEnd then q = p else IsLeast {q | p < q ∧ ResumesAt tokens q} q

theorem succ_lt_length (hended : ∃ last ∈ tokens.getLast?, last.isEnd)
    (ht : tokens[p]? = some t) (hend : t.isEnd = false) : p + 1 < tokens.length := by
  obtain ⟨last, hlast, hlastEnd⟩ := hended
  have hlt := (List.getElem?_eq_some_iff.1 ht).1
  apply Nat.lt_of_le_of_ne hlt
  intro hlength
  rw [List.getLast?_eq_getElem?, ← hlength, Nat.succ_sub_one, ht] at hlast
  obtain rfl : t = last := by simpa using hlast
  simp [hend] at hlastEnd

theorem resumesAt_iff {r : Reader} {last : Token} (hpeek : r.peek? = some t)
    (hprevious : r.previous? = some last) :
    ResumesAt r.tokens r.index ↔
      (t.isEnd || last.kind == .symbol .semicolon || t.kind.startsDeclaration) = true := by
  rw [peek?] at hpeek
  rw [previous?] at hprevious
  simp only [ResumesAt, hpeek, hprevious, Option.mem_some_iff, exists_eq_left', Bool.or_eq_true,
    beq_iff_eq]
  exact or_right_comm

/-- The loop leaves the reader at the first index from its own on where reading can resume. -/
theorem isLeast_resume {r : Reader} (hended : ∃ last ∈ r.tokens.getLast?, last.isEnd)
    (hlt : r.index < r.tokens.length) :
    ∃ q, (resume r).outcome = some { r with index := q } ∧
      IsLeast {q | r.index ≤ q ∧ ResumesAt r.tokens q} q := by
  -- the measure is that of the loop: the tokens from the index on
  induction hleft : r.tokens.length - r.index generalizing r with
  | zero => omega
  | succ left ih =>
      have hpeek : r.peek? = some r.tokens[r.index] := List.getElem?_eq_getElem hlt
      generalize r.tokens[r.index] = t at hpeek
      obtain ⟨last, hprevious⟩ := exists_previous? hpeek
      have hhere := resumesAt_iff hpeek hprevious
      cases hstop : t.isEnd || last.kind == .symbol .semicolon || t.kind.startsDeclaration with
      | true =>
          refine ⟨r.index, outcome_resume_of_stop hpeek hprevious hstop, ?_⟩
          exact ⟨⟨Nat.le_refl _, hhere.2 hstop⟩, fun _ h => h.1⟩
      | false =>
          have hend : t.isEnd = false := by
            simp only [Bool.or_eq_false_iff] at hstop
            exact hstop.1.1
          obtain ⟨q, hresume, ⟨hle, hq⟩, hleast⟩ := ih (r := { r with index := r.index + 1 }) hended
            (succ_lt_length hended hpeek hend) (by simp only; omega)
          refine ⟨q, (outcome_resume_of_skip hpeek hprevious hstop).trans hresume, ?_⟩
          refine ⟨⟨Nat.le_of_succ_le hle, hq⟩, ?_⟩
          rintro q' ⟨hle', hq'⟩
          have hne : r.index ≠ q' := by
            rintro rfl
            simp [hhere.1 hq'] at hstop
          exact hleast ⟨Nat.lt_of_le_of_ne hle' hne, hq'⟩

theorem skipsTo_synchronize? (hended : ∃ last ∈ tokens.getLast?, last.isEnd)
    (hlt : p < tokens.length) (depth : Nat) :
    ∃ q, (Reader.mk tokens p depth).synchronize? = some ⟨tokens, q, depth⟩ ∧
      SkipsTo tokens p q := by
  have hpeek : (Reader.mk tokens p depth).peek? = some tokens[p] := List.getElem?_eq_getElem hlt
  generalize tokens[p] = t at hpeek
  cases hend : t.isEnd with
  | true => exact ⟨p, synchronize?_of_isEnd hpeek hend, t, hpeek, by simp [hend]⟩
  | false =>
      have hsucc := succ_lt_length hended hpeek hend
      obtain ⟨q, hresume, hleast⟩ :=
        isLeast_resume (r := ⟨tokens, p + 1, depth⟩) hended hsucc
      have hskips := synchronize?_eq (outcome_advance hpeek hend)
      refine ⟨q, hskips.trans hresume, t, hpeek, ?_⟩
      rw [if_neg (by simp [hend])]
      exact hleast

/-- What reading an expression from here comes to. Neither outcome moves over an end of input. -/
inductive Reads (tokens ts : List Token) : Outcome Expr → Prop
  | ok (e : Expr) {used rest : List Token} (left : Nat) (hts : ts = used ++ rest)
      (hused : ∀ t ∈ used, t.isEnd = false) (hne : used ≠ []) (hahead : Ahead tokens rest) :
      Reads tokens ts (some (.ok e, inFront tokens rest left))
  | error (obstacle : Obstacle) {t : Token} {used rest : List Token} (left : Nat)
      (hts : ts = used ++ t :: rest) (hused : ∀ t ∈ used, t.isEnd = false)
      (hahead : Ahead tokens (t :: rest)) :
      Reads tokens ts (some (.error ⟨obstacle, t⟩, inFront tokens (t :: rest) left))

theorem isEnd_eq_false_of_kind_ne {used : List Token} (h : ∀ t ∈ used, t.kind ≠ .eof) :
    ∀ t ∈ used, t.isEnd = false := by
  intro t ht
  rw [Token.isEnd, beq_eq_false_iff_ne]
  exact h t ht

theorem reads_parse (h : Ahead tokens ts) (depth : Nat) :
    Reads tokens ts (inFront tokens ts depth).parse := by
  have hread := follows_expression tokens Cursor.maxNesting ts 0 h (Nat.zero_add _)
  change Reads tokens ts (Recorded.expression Cursor.maxNesting (inFront tokens ts 0)).outcome
  generalize houtcome : Grammar.expression Cursor.maxNesting ts = outcome at hread
  generalize (Recorded.expression Cursor.maxNesting (inFront tokens ts 0)).outcome = step at hread
  cases hread with
  | ok e hahead _ =>
      obtain ⟨used, hts, hderives, -⟩ := (Grammar.expression_exact ..).1 houtcome
      exact .ok e _ hts (isEnd_eq_false_of_kind_ne hderives.kind_ne_eof) hderives.ne_nil hahead
  | error obstacle left hahead =>
      obtain ⟨used, hts, hrefusal⟩ := Grammar.anchored_expression _ _ _ _ houtcome
      exact .error obstacle left hts (isEnd_eq_false_of_kind_ne hrefusal.kind_ne_eof) hahead

theorem ahead_drop (ts : List Token) (hp : p < (Cursor.withEnd ts).length) :
    Ahead (Cursor.withEnd ts) ((Cursor.withEnd ts).drop p) := by
  obtain ⟨last, hlast, hend⟩ := (ahead_withEnd ts).ended
  refine ⟨List.drop_suffix _ _, last, ?_, hend⟩
  rw [List.getLast?_drop, if_neg (Nat.not_le.2 hp)]
  exact hlast

theorem inFront_drop (h : p ≤ tokens.length) (depth : Nat) :
    inFront tokens (tokens.drop p) depth = ⟨tokens, p, depth⟩ := by
  rw [inFront, List.length_drop, Nat.sub_sub_self h]

theorem SkipsTo.not_mem_between {q : Nat} (h : SkipsTo tokens p q) :
    (∀ j t, p < j → j + 1 < q → tokens[j]? = some t → t.kind ≠ .symbol .semicolon) ∧
      ∀ j t, p < j → j < q → tokens[j]? = some t → t.kind.startsDeclaration = false := by
  obtain ⟨here, -, h⟩ := h
  by_cases hend : here.isEnd = true
  · rw [if_pos hend] at h
    subst h
    exact ⟨fun j t hlt hlt' => by omega, fun j t hlt hlt' => by omega⟩
  · rw [if_neg hend] at h
    refine ⟨fun j t hlt hlt' ht hkind => ?_, fun j t hlt hlt' ht => ?_⟩
    · have hresumes : ResumesAt tokens (j + 1) := .inr ⟨t, ht, hkind⟩
      have hle := h.2 ⟨Nat.lt_succ_of_lt hlt, hresumes⟩
      omega
    · rw [Bool.eq_false_iff]
      intro hkind
      have hresumes : ResumesAt tokens j := .inl ⟨t, ht, .inr hkind⟩
      have hle := h.2 ⟨hlt, hresumes⟩
      omega

/-- Skipping from a token that is no end of input leaves the reader at the first index behind it
where reading can resume, and in front of an end of input it leaves the reader where it is. So does
a failed reading that recovers, from the token of its error on; it skips no semicolon but the last
token it skips, and no word that opens a declaration. -/
theorem synchronize_stops_at_first_resumption (ts : List Token) (p depth : Nat)
    (hp : p < (Cursor.withEnd ts).length) :
    let held := Cursor.withEnd ts
    let r : Reader := ⟨held, p, depth⟩
    (∃ q, r.synchronize? = some ⟨held, q, depth⟩ ∧ SkipsTo held p q) ∧
      ∀ error after, r.parse = some (.error error, after) →
        after.tokens = held ∧ held[after.index]? = some error.token ∧
        ∃ q, r.perform .parseRecovering =
            some (.recovered none [error.diagnostic], ⟨held, q, after.depth⟩) ∧
          SkipsTo held after.index q ∧
          (∀ j t, after.index < j → j + 1 < q → held[j]? = some t →
            t.kind ≠ .symbol .semicolon) ∧
          ∀ j t, after.index < j → j < q → held[j]? = some t →
            t.kind.startsDeclaration = false := by
  intro held r
  have hended := (ahead_withEnd ts).ended
  refine ⟨skipsTo_synchronize? hended hp depth, fun error after hparse => ?_⟩
  have hreads := reads_parse (ahead_drop ts hp) depth
  rw [inFront_drop (Nat.le_of_lt hp)] at hreads
  change Reads held _ r.parse at hreads
  rw [hparse] at hreads
  cases hreads with
  | @error obstacle t used rest left hts hused hahead =>
      have htoken := getElem?_of_suffix hahead.suffix
      have hlt := (List.getElem?_eq_some_iff.1 htoken).1
      obtain ⟨q, hskip, hq⟩ := skipsTo_synchronize? hended hlt left
      refine ⟨rfl, htoken, q, ?_, hq, hq.not_mem_between⟩
      exact perform_recovering_of_error hparse hskip

theorem semicolon_in_group_skipped :
    let opening := Token.bare (.symbol .leftParen)
    let semicolon := Token.bare (.symbol .semicolon)
    let held := Cursor.withEnd [opening, semicolon, .bare (.keyword .nilWord), semicolon]
    let error : ParseError := ⟨.expectedExpression, semicolon⟩
    0 < held.length ∧ (Reader.mk held 0 0).parse = some (.error error, ⟨held, 1, 1⟩) ∧
      (Reader.mk held 0 0).perform .parseRecovering =
        some (.recovered none [error.diagnostic], ⟨held, 2, 1⟩) := by
  intro opening semicolon held error
  have hlength : 0 < held.length := by decide
  have hparse : (Reader.mk held 0 0).parse = some (.error error, ⟨held, 1, 1⟩) := rfl
  obtain ⟨-, hfails⟩ := synchronize_stops_at_first_resumption
    [opening, semicolon, .bare (.keyword .nilWord), semicolon] 0 0 hlength
  obtain ⟨-, -, q, hreply, ⟨t, ht, hleast⟩, -⟩ := hfails error _ hparse
  obtain rfl : semicolon = t := Option.some.inj ht
  change IsLeast _ q at hleast
  have hle : q ≤ 2 := hleast.2 ⟨by decide, .inr ⟨semicolon, rfl, rfl⟩⟩
  obtain rfl : q = 2 := Nat.le_antisymm hle hleast.1.1
  exact ⟨hlength, hparse, hreply⟩

def beforeEnd (r : Reader) : List Token :=
  (r.tokens.drop r.index).takeWhile (!·.isEnd)

theorem isAtEnd?_inFront (h : Ahead tokens (t :: rest)) (depth : Nat) :
    (inFront tokens (t :: rest) depth).isAtEnd? = some t.isEnd := by
  rw [isAtEnd?_eq (peek?_inFront h)]

theorem index_inFront_append {used : List Token} (h : Ahead tokens (used ++ rest))
    (depth left : Nat) :
    (inFront tokens rest left).index =
      (inFront tokens (used ++ rest) depth).index + used.length := by
  have hle := h.suffix.length_le
  simp only [inFront, List.length_append] at hle ⊢
  omega

theorem beforeEnd_inFront (h : Ahead tokens ts) :
    (inFront tokens ts depth).beforeEnd = ts.takeWhile (!·.isEnd) := by
  obtain ⟨front, hfront⟩ := h.suffix
  simp [beforeEnd, inFront, ← hfront]

theorem takeWhile_append_of_isEnd {used : List Token} (hused : ∀ t ∈ used, t.isEnd = false)
    (rest : List Token) :
    (used ++ rest).takeWhile (!·.isEnd) = used ++ rest.takeWhile (!·.isEnd) :=
  List.takeWhile_append_of_pos fun t ht => by simp [hused t ht]

theorem exists_append_resume (last : Token) (ts : List Token) :
    ∃ used, ts = used ++ Cursor.resume last ts ∧ ∀ t ∈ used, t.isEnd = false := by
  induction ts generalizing last with
  | nil => exact ⟨[], rfl, by simp⟩
  | cons t ts ih =>
      rw [Cursor.resume]
      split
      · exact ⟨[], rfl, by simp⟩
      · next hskip =>
        obtain ⟨used, hts, hused⟩ := ih t
        refine ⟨t :: used, by rw [List.cons_append, ← hts], List.forall_mem_cons.2 ⟨?_, hused⟩⟩
        simp only [Bool.or_eq_true, not_or, Bool.not_eq_true] at hskip
        exact hskip.1.1

theorem exists_append_recover (hend : t.isEnd = false) (rest : List Token) :
    ∃ used, t :: rest = used ++ Cursor.recover (t :: rest) ∧ used ≠ [] ∧
      ∀ t ∈ used, t.isEnd = false := by
  obtain ⟨used, hrest, hused⟩ := exists_append_resume t rest
  refine ⟨t :: used, ?_, List.cons_ne_nil _ _, List.forall_mem_cons.2 ⟨hend, hused⟩⟩
  simp only [Cursor.recover, hend, Bool.false_eq_true, if_false, List.cons_append, ← hrest]

/-- How a call that reads or recovers ends when the next token is no end of input. -/
inductive Recovers (tokens ts : List Token) (parsed : Outcome Expr) :
    Option (Reply × Reader) → Prop
  | ok (e : Expr) {used rest : List Token} (left : Nat) (hts : ts = used ++ rest)
      (hused : ∀ t ∈ used, t.isEnd = false) (hne : used ≠ []) (hahead : Ahead tokens rest)
      (hparsed : parsed = some (.ok e, inFront tokens rest left)) :
      Recovers tokens ts parsed (some (.recovered (some e) [], inFront tokens rest left))
  | error (error : ParseError) (stop : Reader) {used rest : List Token} (left : Nat)
      (hts : ts = used ++ rest) (hused : ∀ t ∈ used, t.isEnd = false) (hne : used ≠ [])
      (hahead : Ahead tokens rest) (hparsed : parsed = some (.error error, stop)) :
      Recovers tokens ts parsed
        (some (.recovered none [error.diagnostic], inFront tokens rest left))

theorem recovers_perform (h : Ahead tokens (t :: rest)) (hend : t.isEnd = false) (depth : Nat) :
    Recovers tokens (t :: rest) (inFront tokens (t :: rest) depth).parse
      ((inFront tokens (t :: rest) depth).perform .parseRecovering) := by
  have hreads := reads_parse h depth
  generalize hparse : (inFront tokens (t :: rest) depth).parse = step at hreads ⊢
  cases hreads with
  | ok e left hts hused hne hahead =>
      rw [perform_recovering_of_ok hparse]
      exact .ok e left hts hused hne hahead rfl
  | @error obstacle u used more left hts hused hahead =>
      obtain ⟨hskip, hbehind⟩ := synchronize?_inFront hahead left
      rw [perform_recovering_of_error hparse hskip]
      cases huEnd : u.isEnd with
      | true =>
          -- the error is at an end of input, so the tokens in front of it make the progress
          have hne : used ≠ [] := by
            rintro rfl
            obtain ⟨rfl, -⟩ := List.cons.inj hts
            simp [hend] at huEnd
          have hstays : Cursor.recover (u :: more) = u :: more := by
            simp only [Cursor.recover, huEnd, if_true]
          rw [hstays] at hbehind ⊢
          exact .error _ _ left hts hused hne hbehind rfl
      | false =>
          obtain ⟨skipped, hskipped, hne, hfree⟩ := exists_append_recover huEnd more
          rw [hskipped, ← List.append_assoc] at hts
          refine .error _ _ left hts ?_ (by simp [hne]) hbehind rfl
          exact List.forall_mem_append.2 ⟨hused, hfree⟩

theorem perform_of_isEnd (h : Ahead tokens (t :: rest)) (hend : t.isEnd = true) (depth : Nat) :
    ∃ left, (inFront tokens (t :: rest) depth).perform .parseRecovering =
      some (.recovered none [(ParseError.mk .expectedExpression t).diagnostic],
        inFront tokens (t :: rest) left) := by
  have hread := follows_expression tokens Cursor.maxNesting _ 0 h (Nat.zero_add _)
  rw [Grammar.expression_of_isEnd hend] at hread
  change Mirrors _ _ _ (inFront tokens (t :: rest) depth).parse at hread
  generalize hparse : (inFront tokens (t :: rest) depth).parse = step at hread
  cases hread with
  | error _ left _ =>
      have hskip := (synchronize?_inFront h left).1
      simp only [Cursor.recover, hend, if_true] at hskip
      exact ⟨left, perform_recovering_of_error hparse hskip⟩

/-- Calls that read or recover, made as long as the reader is at no end of input. -/
structure RunsOut (r : Reader) (calls : Nat) (replies : List (Reply × Nat)) (final : Reader) :
    Prop where
  run : r.run (List.replicate calls .parseRecovering) = some (replies, final)
  ended : final.isAtEnd? = some true
  unended : ∀ n < calls, ∃ replies mid,
    r.run (List.replicate n .parseRecovering) = some (replies, mid) ∧ mid.isAtEnd? = some false

theorem RunsOut.nil {r : Reader} (h : r.isAtEnd? = some true) : RunsOut r 0 [] r :=
  ⟨rfl, h, fun _ hn => absurd hn (Nat.not_lt_zero _)⟩

theorem RunsOut.cons {r after final : Reader} {calls : Nat} {reply : Reply}
    {replies : List (Reply × Nat)} (hend : r.isAtEnd? = some false)
    (hreply : r.perform .parseRecovering = some (reply, after))
    (h : RunsOut after calls replies final) :
    RunsOut r (calls + 1) ((reply, after.index) :: replies) final := by
  refine ⟨run_cons hreply h.run, h.ended, fun n hn => ?_⟩
  cases n with
  | zero => exact ⟨[], r, rfl, hend⟩
  | succ n =>
      obtain ⟨replies', mid, hrun, hmid⟩ := h.unended n (Nat.lt_of_succ_lt_succ hn)
      exact ⟨_, mid, run_cons hreply hrun, hmid⟩

def Reply.ReportsOnce (reply : Reply) : Prop :=
  ∃ tree diagnostics, reply = .recovered tree diagnostics ∧ diagnostics.length ≤ 1

/-- Either way the call takes the reader over a token at least, and over no end of input. -/
theorem Recovers.exists_move {parsed : Outcome Expr} {answer : Option (Reply × Reader)}
    (h : Recovers tokens ts parsed answer) :
    ∃ reply used rest left, answer = some (reply, inFront tokens rest left) ∧ ts = used ++ rest ∧
      (∀ t ∈ used, t.isEnd = false) ∧ used ≠ [] ∧ Ahead tokens rest ∧ reply.ReportsOnce := by
  cases h with
  | ok e left hts hused hne hahead _ =>
      exact ⟨_, _, _, left, rfl, hts, hused, hne, hahead, _, _, rfl, by simp⟩
  | error error stop left hts hused hne hahead _ =>
      exact ⟨_, _, _, left, rfl, hts, hused, hne, hahead, _, _, rfl, by simp⟩

/-- The tokens in front of the next end of input are all there are to move over. -/
theorem exists_runsOut (h : Ahead tokens ts) (depth : Nat) :
    ∃ calls replies final, RunsOut (inFront tokens ts depth) calls replies final ∧
      calls ≤ (ts.takeWhile (!·.isEnd)).length ∧ ∀ reply ∈ replies, reply.1.ReportsOnce := by
  induction hcount : (ts.takeWhile (!·.isEnd)).length using Nat.strongRecOn
    generalizing ts depth with
  | ind count ih =>
      obtain ⟨t, more, rfl⟩ := h.exists_cons
      have hat := isAtEnd?_inFront h depth
      cases hend : t.isEnd with
      | true =>
          rw [hend] at hat
          exact ⟨0, [], _, .nil hat, Nat.zero_le _, by simp⟩
      | false =>
          rw [hend] at hat
          obtain ⟨reply, used, rest, left, hreply, hts, hused, hne, hahead, honce⟩ :=
            (recovers_perform h hend depth).exists_move
          have hlength : (rest.takeWhile (!·.isEnd)).length < count := by
            have hpos := List.length_pos_iff.2 hne
            rw [hts, takeWhile_append_of_isEnd hused, List.length_append] at hcount
            omega
          obtain ⟨calls, replies, final, hruns, hcalls, hreplies⟩ := ih _ hlength hahead left rfl
          exact ⟨calls + 1, _, final, hruns.cons hat hreply, by omega,
            List.forall_mem_cons.2 ⟨honce, hreplies⟩⟩

/-- After any operations, a call that reads or recovers moves the reader on unless it is at an end
of input: it reads an expression and reports nothing, or it fails and reports its one error. Calls
made until the reader is at an end of input come to an end after as many calls as there are tokens
in front of it, at the latest. At an end of input the call reports that an expression is expected,
and the reader stays there. -/
theorem recovering_progresses (ts : List Token) (before : List Operation) :
    ∃ replies r, (ofTokens ts).run before = some (replies, r) ∧
      (r.isAtEnd? = some false →
        (∃ e after, r.parse = some (.ok e, after) ∧
          r.perform .parseRecovering = some (.recovered (some e) [], after) ∧
          r.index < after.index) ∨
        ∃ error stop after, r.parse = some (.error error, stop) ∧
          r.perform .parseRecovering = some (.recovered none
            [⟨error.line, error.message, some error.token.span⟩], after) ∧
          r.index < after.index) ∧
      (r.isAtEnd? = some true →
        ∃ t after, r.peek? = some t ∧
          r.perform .parseRecovering = some (.recovered none
            [(ParseError.mk .expectedExpression t).diagnostic], after) ∧
          after.index = r.index) ∧
      ∃ calls replies final, r.RunsOut calls replies final ∧ calls ≤ r.beforeEnd.length ∧
        ∀ reply ∈ replies, reply.1.ReportsOnce := by
  obtain ⟨replies, rest, depth, hbefore, hahead, -⟩ := run_inFront (ahead_withEnd ts) before 0
  rw [← ofTokens_eq_inFront] at hbefore
  refine ⟨replies, _, hbefore, ?_, ?_, ?_⟩
  · intro hat
    obtain ⟨t, more, rfl⟩ := hahead.exists_cons
    rw [isAtEnd?_inFront hahead, Option.some.injEq] at hat
    have hrecovers := recovers_perform hahead hat depth
    have hmoves {used rest' : List Token} (hts : t :: more = used ++ rest') (hne : used ≠ [])
        (left : Nat) : (inFront (Cursor.withEnd ts) (t :: more) depth).index <
          (inFront (Cursor.withEnd ts) rest' left).index := by
      have hpos := List.length_pos_iff.2 hne
      rw [hts] at hahead ⊢
      rw [index_inFront_append hahead depth left]
      omega
    generalize (inFront _ (t :: more) depth).perform .parseRecovering = answer at hrecovers
    cases hrecovers with
    | ok e left hts hused hne _ hparsed => exact .inl ⟨e, _, hparsed, rfl, hmoves hts hne left⟩
    | error error stop left hts hused hne _ hparsed =>
        exact .inr ⟨error, stop, _, hparsed, rfl, hmoves hts hne left⟩
  · intro hat
    obtain ⟨t, more, rfl⟩ := hahead.exists_cons
    rw [isAtEnd?_inFront hahead, Option.some.injEq] at hat
    obtain ⟨left, hreply⟩ := perform_of_isEnd hahead hat depth
    exact ⟨t, _, peek?_inFront hahead, hreply, rfl⟩
  · rw [beforeEnd_inFront hahead]
    exact exists_runsOut hahead depth

end Reader
end Lox
