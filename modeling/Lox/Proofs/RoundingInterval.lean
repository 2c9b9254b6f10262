import Lox.Decimal.Shortest
import Mathlib.Algebra.Order.Field.Basic
import Mathlib.Algebra.Order.Field.Power
import Mathlib.Algebra.Order.Ring.Rat
import Mathlib.Order.Interval.Set.Basic
import Mathlib.Order.Monotone.Basic
import Mathlib.Tactic.Linarith
import Mathlib.Tactic.NormNum
import Mathlib.Tactic.Positivity
import Mathlib.Tactic.Ring

/-!
# Rounding intervals

The numbers that round to a floating-point number form an interval, with its bounds if the mantissa
is even. The shortest decimal lies in it (`Binary.shortest_mem`), because the last grid of the
search is finer than a quarter of the last binary place. Where one interval ends the next one begins
(`Binary.lower_ofBits_succ`), and of two neighbours only one has an even mantissa, so no number lies
in two of them (`Binary.ofBits_unique`).
-/

namespace Lox.Decimal

def value (d : Decimal) : ℚ := d.coefficient * 10 ^ d.exponent

namespace Binary

variable {b : Binary} {k : Int} {n : Nat}

def lower (b : Binary) : ℚ := b.lowerQuarters * 2 ^ (b.exponent - 2)

def upper (b : Binary) : ℚ := b.upperQuarters * 2 ^ (b.exponent - 2)

def interval (b : Binary) : Set ℚ :=
  if b.closed then Set.Icc b.lower b.upper else Set.Ioo b.lower b.upper

theorem lowerQuarters_lt_upperQuarters (b : Binary) : b.lowerQuarters < b.upperQuarters := by
  unfold lowerQuarters upperQuarters
  split <;> omega

theorem lower_lt_upper (b : Binary) : b.lower < b.upper := by
  have hquarters : (b.lowerQuarters : ℚ) < b.upperQuarters := by
    exact_mod_cast b.lowerQuarters_lt_upperQuarters
  exact mul_lt_mul_of_pos_right hquarters (by positivity)

theorem mem_Icc_of_mem {x : ℚ} (h : x ∈ b.interval) : b.lower ≤ x ∧ x ≤ b.upper := by
  unfold interval at h
  split at h
  · exact h
  · exact ⟨h.1.le, h.2.le⟩

theorem closed_of_lower_mem (h : b.lower ∈ b.interval) : b.closed = true := by
  unfold interval at h
  split at h
  · assumption
  · exact absurd h.1 (lt_irrefl _)

theorem closed_of_upper_mem (h : b.upper ∈ b.interval) : b.closed = true := by
  unfold interval at h
  split at h
  · assumption
  · exact absurd h.2 (lt_irrefl _)

section Grid

/-- The common unit of a scale is one part in so many. -/
def parts (b : Binary) (k : Int) : ℚ := 10 ^ (-k).toNat * 2 ^ (2 - b.exponent).toNat

theorem parts_pos (b : Binary) (k : Int) : 0 < b.parts k := by
  unfold parts
  positivity

theorem pow_toNat {a : ℚ} (ha : a ≠ 0) (k : Int) : a ^ k.toNat = a ^ k * a ^ (-k).toNat := by
  rw [← zpow_natCast, ← zpow_natCast, ← zpow_add₀ ha]
  congr 1
  omega

theorem step_scale (b : Binary) (k : Int) : ((b.scale k).step : ℚ) = 10 ^ k * b.parts k := by
  simp only [scale, parts, Nat.pow_eq, Nat.cast_mul, Nat.cast_pow, Nat.cast_ofNat]
  rw [pow_toNat (by norm_num) k, mul_assoc]

theorem quarter_scale (b : Binary) (k : Int) :
    ((b.scale k).quarter : ℚ) = 2 ^ (b.exponent - 2) * b.parts k := by
  simp only [scale, parts, Nat.pow_eq, Nat.cast_mul, Nat.cast_pow, Nat.cast_ofNat]
  rw [pow_toNat (by norm_num) (b.exponent - 2), neg_sub]
  ring

theorem rounds_iff : b.rounds (b.scale k) n = true ↔ value ⟨n, k⟩ ∈ b.interval := by
  have hpoint : ((n * (b.scale k).step : Nat) : ℚ) = value ⟨n, k⟩ * b.parts k := by
    rw [Nat.cast_mul, step_scale, value, mul_assoc]
  have hlow : ((b.lowerQuarters * (b.scale k).quarter : Nat) : ℚ) = b.lower * b.parts k := by
    rw [Nat.cast_mul, quarter_scale, lower, mul_assoc]
  have hhigh : ((b.upperQuarters * (b.scale k).quarter : Nat) : ℚ) = b.upper * b.parts k := by
    rw [Nat.cast_mul, quarter_scale, upper, mul_assoc]
  have hparts := b.parts_pos k
  unfold rounds interval
  split
  · rw [Bool.and_eq_true, decide_eq_true_eq, decide_eq_true_eq, ← Nat.cast_le (α := ℚ),
      ← Nat.cast_le (α := ℚ), hpoint, hlow, hhigh, mul_le_mul_iff_left₀ hparts,
      mul_le_mul_iff_left₀ hparts, Set.mem_Icc]
  · rw [Bool.and_eq_true, decide_eq_true_eq, decide_eq_true_eq, ← Nat.cast_lt (α := ℚ),
      ← Nat.cast_lt (α := ℚ), hpoint, hlow, hhigh, mul_lt_mul_iff_left₀ hparts,
      mul_lt_mul_iff_left₀ hparts, Set.mem_Ioo]

theorem rounds_of_onGrid? (h : b.onGrid? k = some n) : b.rounds (b.scale k) n = true := by
  simp only [onGrid?] at h
  split at h
  · next hbelow habove =>
    split at h <;> cases h
    · exact hbelow
    · exact habove
  · next hbelow _ => cases h; exact hbelow
  · next _ habove => cases h; exact habove
  · cases h

/-- The grid point below the number rounds to it if a step of the grid is at most a quarter of the
last place. -/
theorem rounds_below {s : Scale} (hpos : 0 < b.mantissa) (hstep : 0 < s.step)
    (hfine : s.step ≤ s.quarter) : b.rounds s (b.quarters * s.quarter / s.step) = true := by
  have hquarters : b.lowerQuarters + 1 ≤ b.quarters ∧ b.quarters < b.upperQuarters := by
    unfold lowerQuarters quarters upperQuarters
    split <;> omega
  have hlow : (b.lowerQuarters + 1) * s.quarter ≤ b.quarters * s.quarter :=
    Nat.mul_le_mul_right _ hquarters.1
  have hhigh : b.quarters * s.quarter < b.upperQuarters * s.quarter :=
    Nat.mul_lt_mul_of_pos_right hquarters.2 (by omega)
  have hbelow := Nat.div_mul_le_self (b.quarters * s.quarter) s.step
  have hclose := Nat.lt_div_mul_add (a := b.quarters * s.quarter) hstep
  rw [Nat.add_mul, Nat.one_mul] at hlow
  simp only [rounds]
  split <;> simp only [Bool.and_eq_true, decide_eq_true_eq] <;> omega

theorem onGrid?_ne_none (hpos : 0 < b.mantissa) (hfine : (10 : ℚ) ^ k ≤ 2 ^ (b.exponent - 2)) :
    b.onGrid? k ≠ none := by
  have hparts := b.parts_pos k
  have hstep : 0 < (b.scale k).step := by
    rw [← Nat.cast_pos (α := ℚ), step_scale]
    positivity
  have hle : (b.scale k).step ≤ (b.scale k).quarter := by
    rw [← Nat.cast_le (α := ℚ), step_scale, quarter_scale]
    exact mul_le_mul_of_nonneg_right hfine hparts.le
  simp only [onGrid?, rounds_below hpos hstep hle]
  split
  · split <;> simp
  · simp
  · next h _ => cases h
  · next h _ => cases h

/-- The search ends at a point of the interval if one of its grids has one. -/
theorem search_mem {j grids : Nat} (hj : j < grids) (h : b.onGrid? (k - j) ≠ none) :
    (b.search k grids).value ∈ b.interval := by
  induction grids generalizing j k with
  | zero => omega
  | succ grids ih =>
      rw [search]
      split
      · next n hn => exact rounds_iff.1 (rounds_of_onGrid? hn)
      · next hnone =>
        cases j with
        | zero => simp [hnone] at h
        | succ j =>
            refine ih (j := j) (by omega) ?_
            rwa [Nat.cast_add, Nat.cast_one, add_comm, ← sub_sub] at h

theorem ten_zpow_le_of_root {k e : Int} {p q : Nat} (hq : q ≠ 0)
    (hbase : ((10 : ℚ) ^ q) ^ k ≤ (2 ^ p) ^ k) (h : p * k ≤ q * e) : (10 : ℚ) ^ k ≤ 2 ^ e := by
  refine le_of_pow_le_pow_left₀ hq (by positivity) ?_
  calc ((10 : ℚ) ^ k) ^ q = (10 ^ q) ^ k := by rw [← zpow_natCast, ← zpow_natCast, zpow_comm]
    _ ≤ (2 ^ p) ^ k := hbase
    _ = 2 ^ (p * k) := by rw [zpow_mul, zpow_natCast]
    _ ≤ 2 ^ (q * e) := zpow_le_zpow_right₀ (by norm_num) h
    _ = (2 ^ e) ^ q := by rw [mul_comm, zpow_mul, zpow_natCast]

/-- Powers of ten and of two compared by their exponents, by `10 ^ 3 ≤ 2 ^ 10` where they are whole
and by `2 ^ 33 ≤ 10 ^ 10` where they are fractions. -/
theorem ten_zpow_le {k e : Int} (h : 10 * k ≤ 3 * e) (h' : 33 * k ≤ 10 * e) :
    (10 : ℚ) ^ k ≤ 2 ^ e := by
  rcases le_or_gt 0 k with hk | hk
  · refine ten_zpow_le_of_root (p := 10) (q := 3) (by decide) ?_ h
    exact zpow_le_zpow_left₀ hk (by norm_num) (by norm_num)
  · refine ten_zpow_le_of_root (p := 33) (q := 10) (by decide) ?_ h'
    rw [← neg_neg k, zpow_neg _ (-k), zpow_neg _ (-k)]
    exact inv_anti₀ (by positivity) (zpow_le_zpow_left₀ (by omega) (by norm_num) (by norm_num))

theorem shortest_mem (hpos : 0 < b.mantissa) (hmantissa : b.mantissa < 2 ^ 53)
    (hexponent : -1074 ≤ b.exponent ∧ b.exponent ≤ 971) : b.shortest.value ∈ b.interval := by
  have hlog : b.mantissa.log2 < 53 := (Nat.log2_lt (by omega)).2 hmantissa
  refine search_mem (j := 20) (by decide) (onGrid?_ne_none hpos (ten_zpow_le ?_ ?_))
  all_goals
    unfold topExponent
    omega

end Grid

/-- The number with these contents of the exponent field and the fraction field. -/
def ofFields : Nat → Nat → Binary
  | 0, fraction => ⟨fraction, -1074, false⟩
  | exponent + 1, fraction => ⟨2 ^ 52 + fraction, exponent - 1074, fraction == 0 && exponent != 0⟩

theorem ofFields_of_ne_zero {exponent : Nat} (h : exponent ≠ 0) (fraction : Nat) :
    ofFields exponent fraction =
      ⟨2 ^ 52 + fraction, exponent - 1075, fraction == 0 && exponent != 1⟩ := by
  obtain ⟨exponent, rfl⟩ := Nat.exists_eq_succ_of_ne_zero h
  have hexponent : ((exponent + 1 : Nat) : Int) - 1075 = exponent - 1074 := by omega
  have hone : (exponent + 1 != 1) = (exponent != 0) := by simp [bne]
  rw [ofFields, Nat.succ_eq_add_one, hexponent, hone]

/-- The number with these bits behind its sign; zero has none. -/
def ofBits (n : Nat) : Binary :=
  ofFields (n / 2 ^ 52) (n % 2 ^ 52)

theorem shortest_ofBits_mem (hpos : 0 < n) (hfinite : n / 2 ^ 52 < 2047) :
    (ofBits n).shortest.value ∈ (ofBits n).interval := by
  unfold ofBits
  by_cases hexponent : n / 2 ^ 52 = 0
  · rw [hexponent]
    refine shortest_mem ?_ ?_ ?_ <;> simp only [ofFields] <;> omega
  · rw [ofFields_of_ne_zero hexponent]
    refine shortest_mem ?_ ?_ ?_ <;> simp only <;> omega

theorem zero_mem_interval : (0 : ℚ) ∈ (ofBits 0).interval := by
  have hlower : (ofBits 0).lower = 0 := by
    have hquarters : (ofBits 0).lowerQuarters = 0 := by decide
    rw [lower, hquarters, Nat.cast_zero, zero_mul]
  have hclosed : (ofBits 0).closed = true := by decide
  have hupper := (ofBits 0).lower_lt_upper
  rw [hlower] at hupper
  rw [interval, if_pos hclosed, hlower]
  exact ⟨le_refl 0, hupper.le⟩

theorem closed_ofBits (n : Nat) : (ofBits n).closed = (n % 2 == 0) := by
  have hparity : (ofBits n).mantissa % 2 = n % 2 := by
    unfold ofBits
    cases n / 2 ^ 52 <;> simp only [ofFields] <;> omega
  rw [closed, hparity]

/-- The interval of the next number begins where this one ends, counted in the same place or, behind
the last fraction of an exponent, in a place of twice the size. -/
theorem lowerQuarters_ofBits_succ (n : Nat) :
    (ofBits (n + 1)).exponent = (ofBits n).exponent ∧
        (ofBits (n + 1)).lowerQuarters = (ofBits n).upperQuarters ∨
      (ofBits (n + 1)).exponent = (ofBits n).exponent + 1 ∧
        2 * (ofBits (n + 1)).lowerQuarters = (ofBits n).upperQuarters := by
  unfold ofBits
  by_cases hlast : n % 2 ^ 52 + 1 = 2 ^ 52
  · have hexponent : (n + 1) / 2 ^ 52 = n / 2 ^ 52 + 1 := by omega
    have hfraction : (n + 1) % 2 ^ 52 = 0 := by omega
    rw [hexponent, hfraction]
    cases n / 2 ^ 52 with
    | zero =>
        left
        simp only [ofFields, lowerQuarters, upperQuarters, bne_self_eq_false, Bool.and_false]
        exact ⟨by decide, by rw [if_neg Bool.false_ne_true]; omega⟩
    | succ exponent =>
        right
        have hnarrow : (0 == 0 && exponent + 1 != 0) = true := by simp
        simp only [ofFields, lowerQuarters, upperQuarters, hnarrow, if_true]
        omega
  · have hexponent : (n + 1) / 2 ^ 52 = n / 2 ^ 52 := by omega
    have hfraction : (n + 1) % 2 ^ 52 = n % 2 ^ 52 + 1 := by omega
    rw [hexponent, hfraction]
    left
    cases n / 2 ^ 52 with
    | zero =>
        simp only [ofFields, lowerQuarters, upperQuarters, Bool.false_eq_true, if_false, true_and]
        omega
    | succ exponent =>
        have hnarrow : (n % 2 ^ 52 + 1 == 0 && exponent != 0) = false := by simp
        simp only [ofFields, lowerQuarters, upperQuarters, hnarrow, Bool.false_eq_true, if_false,
          true_and]
        omega

theorem lower_ofBits_succ (n : Nat) : (ofBits (n + 1)).lower = (ofBits n).upper := by
  rcases lowerQuarters_ofBits_succ n with ⟨hexponent, hquarters⟩ | ⟨hexponent, hquarters⟩
  · rw [lower, upper, hexponent, hquarters]
  · rw [lower, upper, hexponent, ← hquarters, add_sub_right_comm, zpow_add_one₀ (by norm_num)]
    push_cast
    ring

theorem lower_ofBits_strictMono : StrictMono fun n => (ofBits n).lower := by
  refine strictMono_nat_of_lt_succ fun n => ?_
  rw [lower_ofBits_succ]
  exact (ofBits n).lower_lt_upper

/-- Nothing rounds to two numbers. -/
theorem ofBits_unique {i j : Nat} {x : ℚ} (hi : x ∈ (ofBits i).interval)
    (hj : x ∈ (ofBits j).interval) : i = j := by
  wlog hlt : i < j generalizing i j
  · rcases Nat.lt_or_eq_of_le (Nat.le_of_not_lt hlt) with hgt | heq
    · exact (this hj hi hgt).symm
    · exact heq.symm
  -- The two intervals share at most a bound, and then `j` is the next number.
  have hupper := (mem_Icc_of_mem hi).2
  have hlower := (mem_Icc_of_mem hj).1
  rw [← lower_ofBits_succ] at hupper
  have hnext : j ≤ i + 1 := lower_ofBits_strictMono.le_iff_le.1 (hlower.trans hupper)
  obtain rfl : j = i + 1 := by omega
  obtain rfl : x = (ofBits (i + 1)).lower := le_antisymm hupper hlower
  have hclosed' := closed_of_lower_mem hj
  rw [lower_ofBits_succ] at hi
  have hclosed := closed_of_upper_mem hi
  rw [closed_ofBits, beq_iff_eq] at hclosed hclosed'
  omega

end Binary
end Lox.Decimal
