import Lox.Decimal.Basic

/-!
# Shortest decimals

Every positive finite floating-point number is `m * 2 ^ q`, and the reals that round to it form an
interval around it. Its shortest decimal is the point of that interval on the coarsest decimal grid
that has one; on that grid the nearer of the number's two neighbours is taken, and the upper one
when they are equally near. All comparisons are between natural numbers: the bounds of the interval
are whole numbers of quarters of `2 ^ q`.
-/

namespace Lox.Decimal

structure Binary where
  mantissa : Nat
  exponent : Int
  -- the next smaller number lies only half as far away as the next larger one
  narrow : Bool
deriving DecidableEq, Inhabited

namespace Binary

def quarters (b : Binary) : Nat := 4 * b.mantissa

def lowerQuarters (b : Binary) : Nat :=
  if b.narrow then 4 * b.mantissa - 1 else 4 * b.mantissa - 2

def upperQuarters (b : Binary) : Nat := 4 * b.mantissa + 2

def closed (b : Binary) : Bool :=
  -- ties go to the even mantissa
  b.mantissa % 2 == 0

/-- A decimal grid and the quarters of a binary number in one common unit. -/
structure Scale where
  step : Nat
  quarter : Nat

def scale (b : Binary) (k : Int) : Scale where
  step := Nat.pow 10 k.toNat * Nat.pow 2 (2 - b.exponent).toNat
  quarter := Nat.pow 2 (b.exponent - 2).toNat * Nat.pow 10 (-k).toNat

def rounds (b : Binary) (s : Scale) (n : Nat) : Bool :=
  let x := n * s.step
  let low := b.lowerQuarters * s.quarter
  let high := b.upperQuarters * s.quarter
  if b.closed then low ≤ x && x ≤ high else low < x && x < high

/-- The grid point to write the number with, if the grid `10 ^ k` has one. -/
def onGrid? (b : Binary) (k : Int) : Option Nat :=
  let s := b.scale k
  let value := b.quarters * s.quarter
  let below := value / s.step
  match b.rounds s below, b.rounds s (below + 1) with
  | true, true =>
    if value - below * s.step < (below + 1) * s.step - value then some below else some (below + 1)
  | true, false => some below
  | false, true => some (below + 1)
  | false, false => none

def topExponent (b : Binary) : Int :=
  ((Nat.log2 b.mantissa : Int) + 1 + b.exponent) * 30103 / 100000 + 1

def search (b : Binary) (k : Int) : Nat → Decimal
  | 0 => ⟨b.quarters * (b.scale k).quarter / (b.scale k).step, k⟩
  | grids + 1 =>
    match b.onGrid? k with
    | some n => ⟨n, k⟩
    | none => b.search (k - 1) grids

/-- Seventeen digits always suffice; the start of the search is at most a few grids too high. -/
def shortest (b : Binary) : Decimal :=
  b.search b.topExponent 21

end Binary
end Lox.Decimal
