import Lox.Proofs.Exactness

/-!
# Levels of the trees that are read

The limit for nesting bounds what is still to be read, not the tree read so far: folding an operator
onto a chain puts the left operand one level deeper without asking for room. A tree therefore gets
more levels than the limit exactly where such a left operand reaches below it.
-/

namespace Lox
namespace Expr

/-- The tree `sub` hangs in the tree `e`, this many levels below its root. -/
inductive SubtreeAt (sub : Expr) : Nat → Expr → Prop
  | root : SubtreeAt sub 0 sub
  | group {d : Nat} {inner : Expr} (h : SubtreeAt sub d inner) :
      SubtreeAt sub (d + 1) (.group inner)
  | unary {d : Nat} {op : UnaryOp} {t : Token} {right : Expr} (h : SubtreeAt sub d right) :
      SubtreeAt sub (d + 1) (.unary op t right)
  | left {d : Nat} {op : BinaryOp} {t : Token} {l r : Expr} (h : SubtreeAt sub d l) :
      SubtreeAt sub (d + 1) (.binary op t l r)
  | right {d : Nat} {op : BinaryOp} {t : Token} {l r : Expr} (h : SubtreeAt sub d r) :
      SubtreeAt sub (d + 1) (.binary op t l r)

variable {e sub : Expr} {d n : Nat}

theorem SubtreeAt.add_levels_le (h : SubtreeAt sub d e) : d + sub.levels ≤ e.levels := by
  induction h with
  | root => omega
  | group _ ih | unary _ ih | left _ ih | right _ ih =>
      simp only [levels]
      omega

theorem add_levels_le_of_need {k : Nat} (hneed : k + e.need ≤ n)
    (hleft : ∀ d op t l r, SubtreeAt (.binary op t l r) d e → k + d + 1 + l.levels ≤ n) :
    k + e.levels ≤ n := by
  -- the levels `k` above the tree grow on the way down
  induction e generalizing k with
  | literal => exact hneed
  | group inner ih | unary _ _ inner ih =>
      simp only [need] at hneed
      have hle : k + 1 + inner.levels ≤ n := by
        apply ih (by omega)
        intro d op t l r hsub
        have := hleft (d + 1) op t l r (by constructor; exact hsub)
        omega
      simp only [levels]
      omega
  | binary op t l r _ ihr =>
      rw [need_binary] at hneed
      have hl : k + 0 + 1 + l.levels ≤ n := hleft 0 op t l r .root
      have hr : k + 1 + r.levels ≤ n := by
        apply ihr (by omega)
        intro d op' t' l' r' hsub
        have := hleft (d + 1) op' t' l' r' (.right hsub)
        omega
      simp only [levels]
      omega

theorem lt_levels_iff (hneed : e.need ≤ n) :
    n < e.levels ↔ ∃ d op t l r, SubtreeAt (.binary op t l r) d e ∧ n < d + 1 + l.levels := by
  constructor
  · intro hlt
    apply Classical.byContradiction
    intro hnone
    have hle : 0 + e.levels ≤ n := by
      apply add_levels_le_of_need (by omega)
      intro d op t l r hsub
      apply Nat.le_of_not_lt
      intro hdeep
      exact hnone ⟨d, op, t, l, r, hsub, by omega⟩
    omega
  · intro h
    obtain ⟨d, op, t, l, r, hsub, hdeep⟩ := h
    have hle := hsub.add_levels_le
    simp only [levels] at hle
    omega

end Expr

namespace Cursor

/-- A tree with more levels than the limit for nesting is read exactly from those stretches of
tokens whose derivation keeps to the limit but holds a left operand that reaches below it. -/
theorem parse_exceeds_limit_iff_left_operand (ts : List Token) (p : Nat) (e : Expr)
    (after : Cursor) :
    (Cursor.mk (withEnd ts) p).parse = (.ok e, after) ∧ maxNesting < e.levels ↔
      (∃ used t rest, (withEnd ts).drop p = used ++ t :: rest ∧ Derives .expression used e ∧
        e.need ≤ maxNesting ∧ BinaryOp.ofKind? t.kind = none ∧
        after = ⟨withEnd ts, p + used.length⟩) ∧
      ∃ d op t l r, Expr.SubtreeAt (.binary op t l r) d e ∧ maxNesting < d + 1 + l.levels := by
  rw [parse_eq_ok_iff]
  apply and_congr_right
  rintro ⟨_, _, _, _, _, hneed, _⟩
  exact Expr.lt_levels_iff hneed

/-- `(nil) + nil + … + nil`, with as many additions as the limit allows. -/
def groupInChain : List Token :=
  let token (kind : Kind) : Token := ⟨kind, "", none, 1, .emptyAt 0⟩
  let summand := [token (.symbol .plus), token (.keyword .nilWord)]
  [token (.symbol .leftParen), token (.keyword .nilWord), token (.symbol .rightParen)] ++
    (List.replicate maxNesting summand).flatten

theorem groupInChain_exceeds_limit :
    ∃ e after, (ofTokens groupInChain).parse = (.ok e, after) ∧ maxNesting < e.levels := by
  have hlevels : (ofTokens groupInChain).parse.1.toOption.map Expr.levels = some 129 := by
    decide +kernel
  obtain ⟨e, he, hlevels⟩ := Option.map_eq_some_iff.1 hlevels
  cases hparse : (ofTokens groupInChain).parse with
  | mk result after =>
      rw [hparse] at he
      cases result with
      | error => cases he
      | ok tree =>
          cases he
          exact ⟨e, after, rfl, by rw [hlevels]; decide⟩

end Cursor
end Lox
