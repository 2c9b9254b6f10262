import Lox.Cursor

/-!
# Positions of a cursor

A list held by a cursor ends in an end of input. What is read from it is a stretch of its tokens
without an end of input, so it always leaves a token, and the cursor behind it is as many tokens
further as the stretch is long.
-/

namespace Lox.Cursor

variable {ts used rest : List Token} {p : Nat}

theorem withEnd_eq_append (ts : List Token) : ∃ tail, withEnd ts = ts ++ tail := by
  unfold withEnd
  split
  · next hlast => exact ⟨_, by rw [List.getLast?_eq_none_iff.1 hlast, List.nil_append]⟩
  · next last _ =>
    by_cases hend : last.isEnd
    · exact ⟨[], by rw [if_pos hend, List.append_nil]⟩
    · exact ⟨_, if_neg hend⟩

theorem withEnd_of_ne_eof (h : ∀ t ∈ ts, t.kind ≠ .eof) :
    ∃ last : Token, last.kind = .eof ∧ withEnd ts = ts ++ [last] := by
  unfold withEnd
  split
  · next hlast => exact ⟨.endOfInput 1 0, rfl, by rw [List.getLast?_eq_none_iff.1 hlast]; rfl⟩
  · next last hlast =>
    have hend : ¬ last.isEnd := by
      simpa [Token.isEnd] using h last (List.mem_of_getLast? hlast)
    exact ⟨_, rfl, if_neg hend⟩

/-- The last token of a list held by a cursor is an end of input. -/
theorem withEnd_eq_snoc (ts : List Token) :
    ∃ front last, withEnd ts = front ++ [last] ∧ last.kind = .eof := by
  unfold withEnd
  split
  · exact ⟨[], .endOfInput 1 0, rfl, rfl⟩
  · next last hlast =>
    by_cases hend : last.isEnd
    · obtain ⟨front, rfl⟩ := List.getLast?_eq_some_iff.1 hlast
      exact ⟨front, last, if_pos hend, by simpa [Token.isEnd] using hend⟩
    · exact ⟨ts, _, if_neg hend, rfl⟩

theorem withEnd_ne_nil (ts : List Token) : withEnd ts ≠ [] := by
  obtain ⟨front, last, hts, -⟩ := withEnd_eq_snoc ts
  simp [hts]

theorem exists_eof_mem_drop (h : (withEnd ts).drop p ≠ []) :
    ∃ t ∈ (withEnd ts).drop p, t.kind = .eof := by
  obtain ⟨front, last, hts, hlast⟩ := withEnd_eq_snoc ts
  have hp : p ≤ front.length := by
    have hlt : p < (withEnd ts).length := by
      apply Nat.lt_of_not_le
      intro hle
      exact h (List.drop_eq_nil_of_le hle)
    rw [hts, List.length_append, List.length_singleton] at hlt
    omega
  rw [hts, List.drop_append_of_le_length hp]
  exact ⟨last, by simp, hlast⟩

theorem rest_ne_nil_of_drop (h : (withEnd ts).drop p = used ++ rest)
    (hne : (withEnd ts).drop p ≠ []) (hkind : ∀ t ∈ used, t.kind ≠ .eof) : rest ≠ [] := by
  rintro rfl
  obtain ⟨t, ht, heof⟩ := exists_eof_mem_drop hne
  rw [h, List.append_nil] at ht
  exact hkind t ht heof

/-- The tokens from `p` on, cut in front of the one at `q`. -/
theorem drop_eq_extract_append {q : Nat} {t : Token} (ht : ts[q]? = some t) (hle : p ≤ q) :
    ts.drop p = ts.extract p q ++ t :: ts.drop (q + 1) ∧ (ts.extract p q).length = q - p := by
  obtain ⟨hq, rfl⟩ := List.getElem?_eq_some_iff.1 ht
  rw [List.extract_eq_take_drop]
  constructor
  · rw [List.getElem_cons_drop]
    have hdrop : (ts.drop p).drop (q - p) = ts.drop q := by
      rw [List.drop_drop, Nat.add_sub_cancel' hle]
    rw [← hdrop, List.take_append_drop]
  · rw [List.length_take, List.length_drop]
    omega

section

variable {c : Cursor}

theorem moveTo_of_append (h : c.rest = used ++ rest) (hle : c.index ≤ c.tokens.length) :
    c.moveTo rest = ⟨c.tokens, c.index + used.length⟩ := by
  have hlength := congrArg List.length h
  simp only [Cursor.rest, List.length_drop, List.length_append] at hlength
  simp only [moveTo, Cursor.mk.injEq, true_and]
  omega

theorem index_le_of_rest_ne_nil (h : c.rest ≠ []) : c.index ≤ c.tokens.length := by
  apply Nat.le_of_not_lt
  intro hlt
  exact h (List.drop_eq_nil_of_le (Nat.le_of_lt hlt))

end

end Lox.Cursor
