/-!
# Ranges of code points

A property of characters is given by the closed ranges of code points that have it. The tables of
this library follow Unicode 17.
-/

namespace Lox.Text
namespace Ranges

-- every range starts at the bound or above it, and the bound of the rest lies behind its end
def ascendingFrom (bound : Nat) : List (Nat × Nat) → Bool
  | [] => true
  | (first, last) :: rest => bound ≤ first && first ≤ last && ascendingFrom (last + 1) rest

/-- The search is over at the first range that starts behind `n`. -/
def search (n : Nat) : List (Nat × Nat) → Bool
  | [] => false
  | (first, last) :: rest => if n < first then false else n ≤ last || search n rest

theorem le_of_ascendingFrom {bound : Nat} {ranges : List (Nat × Nat)}
    (h : ascendingFrom bound ranges = true) : ∀ range ∈ ranges, bound ≤ range.1 := by
  induction ranges generalizing bound with
  | nil => simp
  | cons range rest ih =>
      simp only [ascendingFrom, Bool.and_eq_true, decide_eq_true_eq] at h
      obtain ⟨⟨hbound, hordered⟩, hrest⟩ := h
      intro range' hmem
      rcases List.mem_cons.1 hmem with rfl | hmem
      · exact hbound
      · have hle := ih hrest range' hmem
        omega

theorem search_iff {bound n : Nat} {ranges : List (Nat × Nat)}
    (h : ascendingFrom bound ranges = true) :
    search n ranges = true ↔ ∃ range ∈ ranges, range.1 ≤ n ∧ n ≤ range.2 := by
  induction ranges generalizing bound with
  | nil => simp [search]
  | cons range rest ih =>
      simp only [ascendingFrom, Bool.and_eq_true, decide_eq_true_eq] at h
      obtain ⟨⟨-, hordered⟩, hrest⟩ := h
      have hbehind := le_of_ascendingFrom hrest
      simp only [search, List.mem_cons, exists_eq_or_imp]
      by_cases hlt : n < range.1
      · -- the ranges behind this one start behind `n` as well
        have hnone : ¬ ∃ range ∈ rest, range.1 ≤ n ∧ n ≤ range.2 := by
          rintro ⟨range', hmem, hle, -⟩
          have := hbehind range' hmem
          omega
        simp [hlt, hnone, Nat.not_le.2 hlt]
      · simp [hlt, Nat.not_lt.1 hlt, ih hrest]

end Ranges

structure Ranges where
  ranges : List (Nat × Nat)
  ascending : Ranges.ascendingFrom 0 ranges = true

namespace Ranges

def contains (table : Ranges) (c : Char) : Bool :=
  search c.toNat table.ranges

theorem contains_iff {table : Ranges} {c : Char} :
    table.contains c = true ↔ ∃ range ∈ table.ranges, range.1 ≤ c.toNat ∧ c.toNat ≤ range.2 :=
  search_iff table.ascending

end Ranges
end Lox.Text
