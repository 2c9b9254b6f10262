import Lox.Proofs.Typing

/-!
# Equality of values

The comparison of floating-point numbers is no equivalence, because NaN is not equal to itself. The
equality of the language mends this. Of the comparison no more is used than that it is symmetric and
transitive, that a number equals itself unless it is NaN, and that NaN equals nothing (`Compares`),
so the results hold of any numbers with these properties, whether they have one NaN or many.
Floating-point numbers have them, since two of them compare as equal exactly if they are the same
number other than NaN or both zero, and so have the numbers of `Binary64`, which tell NaNs of
different bits apart. Trees that have values inherit the equality of their values.
-/

namespace Lox

/-- What is used of a comparison of numbers, some of which are NaN. -/
structure Compares (ν : Type) [Arithmetic ν] : Prop where
  symm {x y : ν} (h : (x == y) = true) : (y == x) = true
  trans {x y z : ν} (h : (x == y) = true) (h' : (y == z) = true) : (x == z) = true
  self {x : ν} (h : Arithmetic.isNaN x = false) : (x == x) = true
  nan {x y : ν} (h : Arithmetic.isNaN x = true) : (x == y) = false

/-- With NaN equal to itself, a comparison becomes an equivalence. -/
theorem Compares.mended {ν : Type} [Arithmetic ν] (h : Compares ν) :
    Equivalence fun x y : ν => (Value.number x).isEqual (.number y) = true := by
  simp only [Value.isEqual, Bool.or_eq_true, Bool.and_eq_true]
  refine ⟨fun x => ?_, fun {x y} hxy => ?_, fun {x y z} hxy hyz => ?_⟩
  · cases hx : Arithmetic.isNaN x with
    | false => exact .inl (h.self hx)
    | true => exact .inr ⟨rfl, rfl⟩
  · exact hxy.imp h.symm And.symm
  · -- what equals a number is not NaN, so the two ways to be equal do not mix
    rcases hxy with hxy | ⟨hx, hy⟩
    · rcases hyz with hyz | ⟨hy, -⟩
      · exact .inl (h.trans hxy hyz)
      · exact absurd (h.symm hxy) (by simp [h.nan hy])
    · rcases hyz with hyz | ⟨-, hz⟩
      · exact absurd hyz (by simp [h.nan hy])
      · exact .inr ⟨hx, hz⟩

section

open Float.Model

theorem compare_self_of_isNaN_eq_false {a : UnpackedFloat} (h : a.isNaN = false) :
    a.compare a = some .eq := by
  cases a with
  | notANumber => cases h
  | infinity s => cases s <;> rfl
  | zero s => rfl
  | finite s m e hm =>
      have horder : (compare e e).then (compare m m) = .eq := by simp
      cases s with
      | positive => exact congrArg some horder
      | negative => exact congrArg (fun order => some (Ordering.swap order)) horder

/-- Only the two zeros compare as equal without being the same. -/
theorem eq_or_zero_of_compare {a b : UnpackedFloat} (h : a.compare b = some .eq) :
    a.isNaN = false ∧ (a = b ∨ ∃ s t, a = .zero s ∧ b = .zero t) := by
  cases a with
  | notANumber => cases h
  | infinity s =>
      refine ⟨rfl, .inl ?_⟩
      cases b with
      | infinity t => cases s <;> cases t <;> first | rfl | cases h
      | notANumber => cases h
      | zero | finite => cases s <;> cases h
  | zero s =>
      refine ⟨rfl, .inr ?_⟩
      cases b with
      | zero t => exact ⟨s, t, rfl, rfl⟩
      | notANumber => cases h
      | infinity t | finite t => cases t <;> cases h
  | finite s m e hm =>
      refine ⟨rfl, .inl ?_⟩
      cases b with
      | finite t m' e' hm' =>
          have hsame : s = t ∧ (compare e e').then (compare m m') = .eq := by
            cases s with
            | negative =>
                cases t with
                | negative => exact ⟨rfl, by simpa using Option.some.inj h⟩
                | positive => cases h
            | positive =>
                cases t with
                | negative => cases h
                | positive => exact ⟨rfl, Option.some.inj h⟩
          obtain ⟨rfl, horder⟩ := hsame
          obtain ⟨he, hm⟩ := Ordering.then_eq_eq.1 horder
          obtain rfl := Std.compare_eq_iff_eq.1 he
          obtain rfl := Std.compare_eq_iff_eq.1 hm
          rfl
      | notANumber => cases s <;> cases h
      | infinity t => cases s <;> cases t <;> cases h
      | zero => cases s <;> cases h

theorem compare_eq_some_eq_iff {a b : UnpackedFloat} :
    a.compare b = some .eq ↔
      a = b ∧ a.isNaN = false ∨ ∃ s t, a = .zero s ∧ b = .zero t := by
  constructor
  · intro h
    obtain ⟨hnan, hsame | hzero⟩ := eq_or_zero_of_compare h
    · exact .inl ⟨hsame, hnan⟩
    · exact .inr hzero
  · rintro (⟨rfl, hnan⟩ | ⟨s, t, rfl, rfl⟩)
    · exact compare_self_of_isNaN_eq_false hnan
    · rfl

theorem float_beq_iff {x y : Float} :
    (x == y) = true ↔
      x.toModel.unpack = y.toModel.unpack ∧ x.isNaN = false ∨
        ∃ s t, x.toModel.unpack = .zero s ∧ y.toModel.unpack = .zero t := by
  have hbeq : (x == y) = (x.toModel.unpack.compare y.toModel.unpack == some .eq) := rfl
  rw [hbeq, beq_iff_eq, compare_eq_some_eq_iff]
  rfl

theorem isNaN_eq_false_of_zero {x : Float} {s : UnpackedFloat.Sign}
    (h : x.toModel.unpack = .zero s) : x.isNaN = false := by
  have hnan : x.isNaN = x.toModel.unpack.isNaN := rfl
  rw [hnan, h]
  rfl

theorem compares_float : Compares Float where
  symm {x y} h := by
    rcases float_beq_iff.1 h with ⟨hsame, hnan⟩ | ⟨s, t, hx, hy⟩
    · have hnan' : y.isNaN = x.isNaN := congrArg UnpackedFloat.isNaN hsame.symm
      exact float_beq_iff.2 (.inl ⟨hsame.symm, hnan'.trans hnan⟩)
    · exact float_beq_iff.2 (.inr ⟨t, s, hy, hx⟩)
  trans {x y z} h h' := by
    rcases float_beq_iff.1 h with ⟨hsame, hnan⟩ | ⟨s, t, hx, hy⟩
    · rcases float_beq_iff.1 h' with ⟨hsame', -⟩ | ⟨s, t, hy, hz⟩
      · exact float_beq_iff.2 (.inl ⟨hsame.trans hsame', hnan⟩)
      · exact float_beq_iff.2 (.inr ⟨s, t, hsame.trans hy, hz⟩)
    · rcases float_beq_iff.1 h' with ⟨hsame', -⟩ | ⟨_, t, -, hz⟩
      · exact float_beq_iff.2 (.inr ⟨s, t, hx, hsame'.symm.trans hy⟩)
      · exact float_beq_iff.2 (.inr ⟨s, t, hx, hz⟩)
  self h := float_beq_iff.2 (.inl ⟨rfl, h⟩)
  nan {x y} h := by
    change x.isNaN = true at h
    rw [Bool.eq_false_iff]
    intro hbeq
    rcases float_beq_iff.1 hbeq with ⟨-, hnan⟩ | ⟨s, -, hx, -⟩
    · rw [h] at hnan
      cases hnan
    · rw [isNaN_eq_false_of_zero hx] at h
      cases h

end

/-- Floating-point numbers by their bits. -/
structure Binary64 where
  bits : UInt64
deriving DecidableEq

namespace Binary64

def toFloat (x : Binary64) : Float :=
  .ofBits x.bits

def ofFloat (x : Float) : Binary64 :=
  ⟨x.toBits⟩

-- a change of sign changes the first bit, also of a NaN
instance : Arithmetic Binary64 where
  add x y := .ofFloat (x.toFloat + y.toFloat)
  sub x y := .ofFloat (x.toFloat - y.toFloat)
  mul x y := .ofFloat (x.toFloat * y.toFloat)
  div x y := .ofFloat (x.toFloat / y.toFloat)
  neg x := ⟨x.bits ^^^ 0x8000000000000000⟩
  beq x y := x.toFloat == y.toFloat
  less x y := x.toFloat < y.toFloat
  lessEqual x y := x.toFloat ≤ y.toFloat
  isNaN x := x.toFloat.isNaN

theorem compares : Compares Binary64 where
  symm h := compares_float.symm h
  trans h h' := compares_float.trans h h'
  self h := compares_float.self h
  nan h := compares_float.nan h

end Binary64

namespace Value

variable {ν : Type} [Arithmetic ν] {v w x : Value ν}

/-- The values that are equal in the language. -/
inductive Same : Value ν → Value ν → Prop
  | number {x y : ν} (h : (number x).isEqual (number y) = true) : Same (number x) (number y)
  | string (s : String) : Same (string s) (string s)
  | bool (b : Bool) : Same (bool b) (bool b)
  | nil : Same nil nil

theorem isEqual_iff_same : v.isEqual w = true ↔ v.Same w := by
  constructor
  · intro h
    cases v with
    | number x =>
        cases w with
        | number y => exact .number h
        | string | bool | nil => cases h
    | string s =>
        cases w with
        | string t => exact beq_iff_eq.1 h ▸ .string _
        | number | bool | nil => cases h
    | bool a =>
        cases w with
        | bool b => exact beq_iff_eq.1 h ▸ .bool _
        | number | string | nil => cases h
    | nil =>
        cases w with
        | nil => exact .nil
        | number | string | bool => cases h
  · intro h
    cases h with
    | number h => exact h
    | string | bool => exact beq_self_eq_true _
    | nil => rfl

theorem Same.type_eq (h : v.Same w) : v.type = w.type := by
  cases h <;> rfl

variable (hν : Compares ν)
include hν

theorem same_equivalence : Equivalence (Same (ν := ν)) where
  refl v := by
    cases v with
    | number x => exact .number (hν.mended.refl x)
    | string s => exact .string s
    | bool b => exact .bool b
    | nil => exact .nil
  symm h := by
    cases h with
    | number h => exact .number (hν.mended.symm h)
    | string s => exact .string s
    | bool b => exact .bool b
    | nil => exact .nil
  trans h h' := by
    cases h with
    | number h =>
        cases h' with
        | number h' => exact .number (hν.mended.trans h h')
    | string | bool | nil => exact h'

theorem isEqual_self (v : Value ν) : v.isEqual v = true :=
  isEqual_iff_same.2 ((same_equivalence hν).refl v)

theorem isEqual_comm (v w : Value ν) : v.isEqual w = w.isEqual v := by
  rw [Bool.eq_iff_iff, isEqual_iff_same, isEqual_iff_same]
  exact ⟨(same_equivalence hν).symm, (same_equivalence hν).symm⟩

theorem isEqual_trans (h : v.isEqual w = true) (h' : w.isEqual x = true) :
    v.isEqual x = true :=
  isEqual_iff_same.2
    ((same_equivalence hν).trans (isEqual_iff_same.1 h) (isEqual_iff_same.1 h'))

end Value

namespace Expr

variable {ν : Type} [Arithmetic ν] {e f : Expr ν} {v w : Value ν}

theorem eval_equal (t : Token) (he : e.eval = .ok v) (hf : f.eval = .ok w) :
    (binary .equal t e f).eval = .ok (.bool (v.isEqual w)) :=
  eval_binary_of_ok he hf rfl

theorem eval_equal_eq_true_iff (t : Token) (he : e.eval = .ok v) (hf : f.eval = .ok w) :
    (binary .equal t e f).eval = .ok (.bool true) ↔ v.isEqual w = true := by
  rw [eval_equal t he hf, Except.ok.injEq, Value.bool.injEq]

theorem eval_notEqual (t : Token) (he : e.eval = .ok v) (hf : f.eval = .ok w) :
    (binary .notEqual t e f).eval = .ok (.bool !(v.isEqual w)) :=
  eval_binary_of_ok he hf rfl

theorem eval_not (t : Token) {b : Bool} (he : e.eval = .ok (.bool b)) :
    (unary .bang t e).eval = .ok (.bool !b) := by
  apply eval_unary_of_ok he
  cases b <;> rfl

end Expr

/-- Let numbers compare as floating-point numbers do, with one NaN or many. The equality of the
language is an equivalence between values, of one type only, and the two operators that test for it
always answer, one the opposite of the other. Of trees that have values, every tree equals itself,
the order of two trees does not matter, trees that equal the same one equal each other, and to test
for inequality is to negate the test for equality. -/
theorem isEqual_equivalence_and_lifts :
    Compares Float ∧ ∀ (ν : Type) [Arithmetic ν], Compares ν →
      Equivalence (fun v w : Value ν => v.isEqual w = true) ∧
      (∀ v w : Value ν, v.type ≠ w.type → v.isEqual w = false) ∧
      (∀ v w : Value ν, BinaryOp.equal.apply v w = .ok (.bool (v.isEqual w)) ∧
        BinaryOp.notEqual.apply v w = .ok (.bool !(v.isEqual w))) ∧
      ∀ (e₁ e₂ e₃ : Expr ν) (v₁ v₂ v₃ : Value ν) (t t' t'' : Token),
        e₁.eval = .ok v₁ → e₂.eval = .ok v₂ → e₃.eval = .ok v₃ →
        (Expr.binary .equal t e₁ e₁).eval = .ok (.bool true) ∧
        (∃ b, (Expr.binary .equal t e₁ e₂).eval = .ok (.bool b) ∧
          (Expr.binary .equal t' e₂ e₁).eval = .ok (.bool b) ∧
          (Expr.binary .notEqual t e₁ e₂).eval = .ok (.bool !b) ∧
          (Expr.unary .bang t' (.binary .equal t'' e₁ e₂)).eval = .ok (.bool !b) ∧
          (Expr.unary .bang t' (.group (.binary .equal t'' e₁ e₂))).eval = .ok (.bool !b)) ∧
        ((Expr.binary .equal t e₁ e₂).eval = .ok (.bool true) →
          (Expr.binary .equal t' e₂ e₃).eval = .ok (.bool true) →
          (Expr.binary .equal t'' e₁ e₃).eval = .ok (.bool true)) := by
  refine ⟨compares_float, fun ν _ hν => ?_⟩
  have hequivalence : Equivalence fun v w : Value ν => v.isEqual w = true := by
    refine ⟨Value.isEqual_self hν, fun h => ?_, Value.isEqual_trans hν⟩
    rwa [Value.isEqual_comm hν]
  refine ⟨hequivalence, ?_, fun v w => ⟨rfl, rfl⟩, ?_⟩
  · intro v w htype
    rw [Bool.eq_false_iff]
    exact fun h => htype (Value.isEqual_iff_same.1 h).type_eq
  · intro e₁ e₂ e₃ v₁ v₂ v₃ t t' t'' h₁ h₂ h₃
    refine ⟨?_, ⟨v₁.isEqual v₂, Expr.eval_equal t h₁ h₂, ?_, Expr.eval_notEqual t h₁ h₂,
      Expr.eval_not t' (Expr.eval_equal t'' h₁ h₂),
      Expr.eval_not t' (Expr.eval_equal t'' h₁ h₂)⟩, ?_⟩
    · rw [Expr.eval_equal t h₁ h₁, Value.isEqual_self hν]
    · rw [Expr.eval_equal t' h₂ h₁, Value.isEqual_comm hν]
    · intro h h'
      rw [Expr.eval_equal_eq_true_iff t h₁ h₂] at h
      rw [Expr.eval_equal_eq_true_iff t' h₂ h₃] at h'
      exact (Expr.eval_equal_eq_true_iff t'' h₁ h₃).2 (Value.isEqual_trans hν h h')

/-- `0 / 0`, `-(0 / 0)` and a literal are NaN by different bits, and all of them equal each
other. -/
theorem nan_trees_equal :
    let t : Token := ⟨.symbol .equalEqual, "==", none, 1, ⟨0, 2⟩⟩
    let zero : Expr Binary64 := .literal (.number ⟨0⟩)
    let quotient : Expr Binary64 := .binary .divide t zero zero
    let negated : Expr Binary64 := .unary .minus t (.group quotient)
    let other : Expr Binary64 := .literal (.number ⟨0x7ff0000000000001⟩)
    Compares Binary64 ∧
      quotient.eval = .ok (.number ⟨0x7ff8000000000000⟩) ∧
      negated.eval = .ok (.number ⟨0xfff8000000000000⟩) ∧
      other.eval = .ok (.number ⟨0x7ff0000000000001⟩) ∧
      (Expr.binary .equal t quotient quotient).eval = .ok (.bool true) ∧
      (Expr.binary .equal t negated quotient).eval = .ok (.bool true) ∧
      (Expr.binary .equal t quotient other).eval = .ok (.bool true) ∧
      (Expr.unary .bang t (.group (.binary .equal t quotient negated))).eval =
        .ok (.bool false) := by
  intro t zero quotient negated other
  have hbits : (⟨0⟩ / ⟨0⟩ : Binary64) = ⟨0x7ff8000000000000⟩ := by decide +kernel
  have hquotient : quotient.eval = .ok (.number ⟨0x7ff8000000000000⟩) :=
    Expr.eval_binary_of_ok rfl rfl (congrArg (fun x => Except.ok (Value.number x)) hbits)
  have hnegated : negated.eval = .ok (.number ⟨0xfff8000000000000⟩) :=
    Expr.eval_unary_of_ok hquotient rfl
  have hother : other.eval = .ok (.number ⟨0x7ff0000000000001⟩) := rfl
  have hone : (Value.number (⟨0x7ff8000000000000⟩ : Binary64)).isEqual
      (.number ⟨0xfff8000000000000⟩) = true := by decide +kernel
  have htwo : (Value.number (⟨0xfff8000000000000⟩ : Binary64)).isEqual
      (.number ⟨0x7ff0000000000001⟩) = true := by decide +kernel
  obtain ⟨-, hany⟩ := isEqual_equivalence_and_lifts
  obtain ⟨-, -, -, hlift⟩ := hany Binary64 Binary64.compares
  obtain ⟨hself, ⟨b, hb, hswapped, -, -, hnot⟩, htrans⟩ :=
    hlift quotient negated other _ _ _ t t t hquotient hnegated hother
  have hequal := (Expr.eval_equal_eq_true_iff t hquotient hnegated).2 hone
  obtain rfl : true = b := by simpa using hequal.symm.trans hb
  exact ⟨Binary64.compares, hquotient, hnegated, hother, hself, hswapped,
    htrans hequal ((Expr.eval_equal_eq_true_iff t hnegated hother).2 htwo), hnot⟩

end Lox
