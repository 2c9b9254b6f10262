import Lox.Decimal.Text
import Lox.Proofs.RoundingInterval
import Lox.Proofs.Unambiguous

/-!
# Number text determines the number

The text of a finite number is a sign and a numeral: digits, and behind a point more digits if there
are any. A numeral can be taken apart in one way only, it has the value of the decimal it was
written from (`IsNumeral.positionalChars`), and this value rounds to one number only. So different
numbers have different texts (`Format.write_plain_injective`). Of the bits that are no number, one
pattern only is a value.
-/

namespace Lox.Decimal

theorem digitsValue_toDigits (n : Nat) : digitsValue (Nat.toDigits 10 n) = n :=
  Nat.ofDigitChars_toDigits (by decide) (by decide)

theorem digitsValue_append_zeros (digits : List Char) (n : Nat) :
    digitsValue (digits ++ zeros n) = 10 ^ n * digitsValue digits := by
  change Nat.ofDigitChars 10 (digits ++ List.replicate n '0') 0 = _
  rw [Nat.ofDigitChars_append, Nat.ofDigitChars_replicate_zero]
  rfl

theorem digitsValue_zeros_append (n : Nat) (digits : List Char) :
    digitsValue (zeros n ++ digits) = digitsValue digits := by
  change Nat.ofDigitChars 10 (List.replicate n '0' ++ digits) 0 = _
  rw [Nat.ofDigitChars_append, Nat.ofDigitChars_replicate_zero, Nat.mul_zero]
  rfl

/-- Digits before and behind a point, which is left out if none stand behind it. -/
def numeral (whole fraction : List Char) : List Char :=
  if fraction = [] then whole else whole ++ '.' :: fraction

theorem numeral_inj {whole whole' fraction fraction' : List Char} (h : '.' ∉ whole)
    (h' : '.' ∉ whole') (heq : numeral whole fraction = numeral whole' fraction') :
    whole = whole' ∧ fraction = fraction' := by
  unfold numeral at heq
  split at heq <;> split at heq
  · next hnone hnone' => exact ⟨heq, hnone.trans hnone'.symm⟩
  · exact absurd (by simp [heq]) h
  · exact absurd (by simp [← heq]) h'
  · exact Text.append_cons_inj h h' heq

theorem isDigit_of_mem_zeros {n : Nat} {c : Char} (h : c ∈ zeros n) : c.isDigit = true := by
  rw [List.eq_of_mem_replicate h]
  decide

/-- A numeral of this value. -/
def IsNumeral (x : ℚ) (text : List Char) : Prop :=
  ∃ whole fraction, text = numeral whole fraction ∧
    (∀ c ∈ whole ++ fraction, c.isDigit = true) ∧ (ofDigits whole fraction).value = x

namespace IsNumeral

variable {digits : List Char} {x x' : ℚ} {text : List Char}

theorem append_zeros (hdigits : ∀ c ∈ digits, c.isDigit = true) (n : Nat) :
    IsNumeral (value ⟨digitsValue digits, n⟩) (digits ++ zeros n) := by
  refine ⟨digits ++ zeros n, [], rfl, ?_, ?_⟩
  · rw [List.append_nil]
    exact List.forall_mem_append.2 ⟨hdigits, fun c hc => isDigit_of_mem_zeros hc⟩
  · rw [ofDigits, value, value, List.append_nil, digitsValue_append_zeros]
    push_cast [List.length_nil, neg_zero, zpow_zero, zpow_natCast]
    ring

theorem point_inside (hdigits : ∀ c ∈ digits, c.isDigit = true) {n : Nat} (hn : n < digits.length) :
    IsNumeral (value ⟨digitsValue digits, n - digits.length⟩)
      (digits.take n ++ '.' :: digits.drop n) := by
  have hfraction : digits.drop n ≠ [] := by simpa using hn
  refine ⟨digits.take n, digits.drop n, (if_neg hfraction).symm, ?_, ?_⟩
  · rwa [List.take_append_drop]
  · rw [ofDigits, List.take_append_drop]
    congr 2
    rw [List.length_drop]
    omega

theorem point_in_front (hdigits : ∀ c ∈ digits, c.isDigit = true) (hne : digits ≠ []) (n : Nat) :
    IsNumeral (value ⟨digitsValue digits, -(n + digits.length)⟩)
      ('0' :: '.' :: zeros n ++ digits) := by
  have hfraction : zeros n ++ digits ≠ [] := List.append_ne_nil_of_right_ne_nil _ hne
  refine ⟨zeros 1, zeros n ++ digits, (if_neg hfraction).symm, ?_, ?_⟩
  · have hzeros : ∀ m, ∀ c ∈ zeros m, c.isDigit = true := fun m c hc => isDigit_of_mem_zeros hc
    exact List.forall_mem_append.2 ⟨hzeros 1, List.forall_mem_append.2 ⟨hzeros n, hdigits⟩⟩
  · rw [ofDigits, digitsValue_zeros_append, digitsValue_zeros_append]
    congr 2
    rw [List.length_append, zeros, List.length_replicate, Nat.cast_add]

/-- What is written for a decimal is a numeral of the same value. -/
theorem positionalChars (d : Decimal) : IsNumeral d.value (d.positionalChars "") := by
  have hdigits : ∀ c ∈ Nat.toDigits 10 d.coefficient, c.isDigit = true := fun c hc =>
    Nat.isDigit_of_mem_toDigits (by decide) (by decide) hc
  have hvalue {e : Int} (he : d.exponent = e) :
      d.value = value ⟨digitsValue (Nat.toDigits 10 d.coefficient), e⟩ := by
    rw [digitsValue_toDigits, ← he]
  have hne : Nat.toDigits 10 d.coefficient ≠ [] := Nat.toDigits_ne_nil
  have hlength := List.length_pos_iff.2 hne
  have hweight : d.weight = (Nat.toDigits 10 d.coefficient).length - 1 + d.exponent := rfl
  unfold Decimal.positionalChars
  generalize Nat.toDigits 10 d.coefficient = digits at *
  split
  · next hexponent =>
    rw [hvalue (Int.toNat_of_nonneg hexponent).symm, String.toList_empty, List.append_nil]
    exact append_zeros hdigits _
  · split
    · rw [hvalue (e := (d.weight.toNat + 1 : Nat) - digits.length) (by omega)]
      exact point_inside hdigits (by omega)
    · rw [hvalue (e := -(((-d.weight).toNat - 1 : Nat) + digits.length)) (by omega)]
      exact point_in_front hdigits hne _

theorem isDigit_of_mem (h : IsNumeral x text) {c : Char} (hc : c ∈ text) :
    c.isDigit = true ∨ c = '.' := by
  obtain ⟨whole, fraction, rfl, hdigits, -⟩ := h
  unfold numeral at hc
  split at hc
  · exact .inl (hdigits c (List.mem_append_left _ hc))
  · rcases List.mem_append.1 hc with hc | hc
    · exact .inl (hdigits c (List.mem_append_left _ hc))
    rcases List.mem_cons.1 hc with rfl | hc
    · exact .inr rfl
    · exact .inl (hdigits c (List.mem_append_right _ hc))

theorem unique (h : IsNumeral x text) (h' : IsNumeral x' text) : x = x' := by
  obtain ⟨whole, fraction, htext, hdigits, hvalue⟩ := h
  obtain ⟨whole', fraction', htext', hdigits', hvalue'⟩ := h'
  have hpoint : '.' ∉ whole := fun hmem =>
    absurd (hdigits _ (List.mem_append_left _ hmem)) (by decide)
  have hpoint' : '.' ∉ whole' := fun hmem =>
    absurd (hdigits' _ (List.mem_append_left _ hmem)) (by decide)
  obtain ⟨rfl, rfl⟩ := numeral_inj hpoint hpoint' (htext.symm.trans htext')
  exact hvalue.symm.trans hvalue'

end IsNumeral

namespace Anatomy

def negative : Anatomy → Bool
  | nan => false
  | infinite negative | finite negative _ => negative

/-- What is written behind the sign. -/
def unsignedChars : Anatomy → List Char
  | nan => ['N', 'a', 'N']
  | infinite _ => ['i', 'n', 'f']
  | finite _ d => d.positionalChars ""

theorem toList_write_plain (x : Float) :
    (Format.plain.write x).toList =
      (if (ofFloat x).negative then ['-'] else []) ++ (ofFloat x).unsignedChars := by
  unfold Format.write
  cases ofFloat x with
  | nan => rfl
  | infinite negative => cases negative <;> rfl
  | finite negative d => cases negative <;> simp [signed, Anatomy.negative, unsignedChars] <;> rfl

theorem mem_unsignedChars {a : Anatomy} {c : Char} (h : c ∈ a.unsignedChars) :
    c.isDigit = true ∨ c ∈ ['.', 'i', 'n', 'f', 'N', 'a'] := by
  cases a with
  | nan =>
      right
      have hsub : ['N', 'a', 'N'] ⊆ ['.', 'i', 'n', 'f', 'N', 'a'] := by decide
      exact hsub h
  | infinite =>
      right
      have hsub : ['i', 'n', 'f'] ⊆ ['.', 'i', 'n', 'f', 'N', 'a'] := by decide
      exact hsub h
  | finite =>
      rcases (IsNumeral.positionalChars _).isDigit_of_mem h with hdigit | rfl
      · exact .inl hdigit
      · exact .inr (by decide)

/-- What the sixty-four bits of a number say about its parts. -/
def Fits (bits : Nat) : Anatomy → Prop
  | nan => 2047 * 2 ^ 52 < bits % 2 ^ 63
  | infinite negative => negative = (bits / 2 ^ 63 == 1) ∧ bits % 2 ^ 63 = 2047 * 2 ^ 52
  | finite negative d =>
    negative = (bits / 2 ^ 63 == 1) ∧ d.value ∈ (Binary.ofBits (bits % 2 ^ 63)).interval

theorem fits_ofFloat (x : Float) : (ofFloat x).Fits x.toBits.toNat := by
  have hexponent : x.toBits.toNat / 2 ^ 52 % 2 ^ 11 = x.toBits.toNat % 2 ^ 63 / 2 ^ 52 := by omega
  have hfraction : x.toBits.toNat % 2 ^ 52 = x.toBits.toNat % 2 ^ 63 % 2 ^ 52 := by omega
  simp only [ofFloat, Nat.pow_eq, hexponent, hfraction]
  split
  · split
    · exact ⟨rfl, by omega⟩
    · change 2047 * 2 ^ 52 < _
      omega
  · have hfinite : x.toBits.toNat % 2 ^ 63 / 2 ^ 52 < 2047 := by omega
    split
    · next hzero =>
      split
      · refine ⟨rfl, ?_⟩
        have hbits : x.toBits.toNat % 2 ^ 63 = 0 := by omega
        rw [hbits, value, Nat.cast_zero, zero_mul]
        exact Binary.zero_mem_interval
      · have hmem := Binary.shortest_ofBits_mem (n := x.toBits.toNat % 2 ^ 63) (by omega) hfinite
        refine ⟨rfl, ?_⟩
        unfold Binary.ofBits at hmem ⊢
        rwa [hzero] at hmem ⊢
    · next hnormal =>
      have hmem := Binary.shortest_ofBits_mem (n := x.toBits.toNat % 2 ^ 63) (by omega) hfinite
      refine ⟨rfl, ?_⟩
      unfold Binary.ofBits at hmem ⊢
      rwa [Binary.ofFields_of_ne_zero hnormal] at hmem ⊢

theorem toBits_of_nan {x : Float} (h : 2047 * 2 ^ 52 < x.toBits.toNat % 2 ^ 63) :
    x.toBits.toBitVec = Float.Model.UnpackedFloat.packedNaN .binary64 := by
  refine x.toModel.valid.eq_packedNaN ?_ ?_
  · apply BitVec.eq_of_toNat_eq
    change (x.toBits.toBitVec.extractLsb 62 52).toNat = 2047
    rw [BitVec.extractLsb_toNat, Nat.shiftRight_eq_div_pow, UInt64.toNat_toBitVec]
    omega
  · intro hzero
    have hfraction : (x.toBits.toBitVec.extractLsb 51 0).toNat = 0 := congrArg BitVec.toNat hzero
    rw [BitVec.extractLsb_toNat, Nat.shiftRight_zero, UInt64.toNat_toBitVec] at hfraction
    omega

theorem eq_of_toBits_eq {x y : Float} (h : x.toBits = y.toBits) : x = y := by
  obtain ⟨⟨b, hb⟩⟩ := x
  obtain ⟨⟨c, hc⟩⟩ := y
  obtain rfl : b = c := h
  rfl

theorem eq_of_sign_eq {x y : Float}
    (hsign : (x.toBits.toNat / 2 ^ 63 == 1) = (y.toBits.toNat / 2 ^ 63 == 1))
    (hbits : x.toBits.toNat % 2 ^ 63 = y.toBits.toNat % 2 ^ 63) : x = y := by
  have hx := x.toBits.toNat_lt
  have hy := y.toBits.toNat_lt
  rw [Bool.eq_iff_iff, beq_iff_eq, beq_iff_eq] at hsign
  apply eq_of_toBits_eq
  apply UInt64.toNat_inj.1
  omega

/-- The same up to the sign and to decimals of the same value. -/
inductive Alike : Anatomy → Anatomy → Prop
  | nan : Alike nan nan
  | infinite (negative negative' : Bool) : Alike (infinite negative) (infinite negative')
  | finite {negative negative' : Bool} {d d' : Decimal} (h : d.value = d'.value) :
      Alike (finite negative d) (finite negative' d')

theorem not_mem_positionalChars {d : Decimal} {c : Char} (hdigit : c.isDigit = false)
    (hpoint : c ≠ '.') : c ∉ d.positionalChars "" := by
  intro hmem
  rcases (IsNumeral.positionalChars d).isDigit_of_mem hmem with h | h
  · rw [hdigit] at h
    cases h
  · exact hpoint h

theorem alike_of_unsignedChars_eq {a b : Anatomy} (h : a.unsignedChars = b.unsignedChars) :
    a.Alike b := by
  have hword {c : Char} {word : List Char} {d : Decimal} (hd : d.positionalChars "" = c :: word)
      (hdigit : c.isDigit = false) (hpoint : c ≠ '.') : False :=
    not_mem_positionalChars hdigit hpoint (by rw [hd]; exact List.mem_cons_self)
  cases a with
  | nan =>
      cases b with
      | nan => exact .nan
      | infinite => cases h
      | finite => exact (hword h.symm (by decide) (by decide)).elim
  | infinite =>
      cases b with
      | nan => cases h
      | infinite => exact .infinite ..
      | finite => exact (hword h.symm (by decide) (by decide)).elim
  | finite =>
      cases b with
      | nan => exact (hword h (by decide) (by decide)).elim
      | infinite => exact (hword h (by decide) (by decide)).elim
      | finite negative' d' =>
          have hnumeral := IsNumeral.positionalChars d'
          rw [unsignedChars, unsignedChars] at h
          rw [← h] at hnumeral
          exact .finite ((IsNumeral.positionalChars _).unique hnumeral)

theorem eq_of_alike {x y : Float} (h : (ofFloat x).Alike (ofFloat y))
    (hsign : (ofFloat x).negative = (ofFloat y).negative) : x = y := by
  have hx := fits_ofFloat x
  have hy := fits_ofFloat y
  generalize ofFloat x = a at *
  generalize ofFloat y = b at *
  cases h with
  | nan =>
      apply eq_of_toBits_eq
      apply UInt64.toBitVec_inj.1
      rw [toBits_of_nan hx, toBits_of_nan hy]
  | infinite =>
      exact eq_of_sign_eq (hx.1.symm.trans (hsign.trans hy.1)) (hx.2.trans hy.2.symm)
  | finite hvalue =>
      have hmem := hx.2
      rw [hvalue] at hmem
      exact eq_of_sign_eq (hx.1.symm.trans (hsign.trans hy.1)) (Binary.ofBits_unique hmem hy.2)

end Anatomy

namespace Format

theorem minus_mem_write_plain_iff (x : Float) :
    '-' ∈ (plain.write x).toList ↔ (Anatomy.ofFloat x).negative = true := by
  have hminus : '-' ∉ (Anatomy.ofFloat x).unsignedChars := by
    intro hmem
    rcases Anatomy.mem_unsignedChars hmem with hdigit | hmem
    · exact absurd hdigit (by decide)
    · exact absurd hmem (by decide)
  rw [Anatomy.toList_write_plain]
  split
  · next hnegative => simp [hnegative]
  · next hnegative => simp [hnegative, hminus]

/-- Numbers with the same text are the same. -/
theorem write_plain_injective {x y : Float} (h : plain.write x = plain.write y) : x = y := by
  have hsign : (Anatomy.ofFloat x).negative = (Anatomy.ofFloat y).negative := by
    rw [Bool.eq_iff_iff, ← minus_mem_write_plain_iff, ← minus_mem_write_plain_iff, h]
  have hchars := congrArg String.toList h
  rw [Anatomy.toList_write_plain, Anatomy.toList_write_plain, hsign] at hchars
  have halike := Anatomy.alike_of_unsignedChars_eq (List.append_cancel_left hchars)
  exact Anatomy.eq_of_alike halike hsign

/-- The two zeros compare as equal, but they are not the same. -/
example : plain.write 0 = "0" ∧ plain.write (-0) = "-0" := by decide +kernel

theorem mem_write_plain {x : Float} {c : Char} (h : c ∈ (plain.write x).toList) :
    c.isDigit = true ∨ c ∈ ['-', '.', 'i', 'n', 'f', 'N', 'a'] := by
  rw [Anatomy.toList_write_plain, List.mem_append] at h
  rcases h with hsign | hmem
  · split at hsign
    · exact .inr (List.mem_cons.2 (.inl (List.mem_singleton.1 hsign)))
    · cases hsign
  · rcases Anatomy.mem_unsignedChars hmem with hdigit | hmem
    · exact .inl hdigit
    · exact .inr (List.mem_cons_of_mem _ hmem)

end Format
end Lox.Decimal
