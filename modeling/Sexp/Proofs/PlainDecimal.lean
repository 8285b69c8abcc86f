import Sexp.Decimal.Notation
import Sexp.Proofs.Digits
import Sexp.Proofs.NumeralScan

namespace Sexp.Decimal

open Text

theorem reduce_zero (exponent : Int) : reduce 0 exponent = (0, 0) := by
  rw [reduce]
  rfl

theorem reduce_of_mod_ne_zero {coefficient : Nat} (h : coefficient % 10 ≠ 0) (exponent : Int) :
    reduce coefficient exponent = (coefficient, exponent) := by
  rw [reduce, if_neg (by rintro rfl; exact h rfl), if_neg h]

theorem reduce_mul_ten (coefficient : Nat) (exponent : Int) :
    reduce (coefficient * 10) exponent = reduce coefficient (exponent + 1) := by
  by_cases hzero : coefficient = 0
  · subst hzero
    simp only [Nat.zero_mul, reduce_zero]
  · rw [reduce, if_neg (by omega), if_pos (Nat.mul_mod_left coefficient 10),
      Nat.mul_div_cancel _ (by decide)]

theorem reduce_mul_pow (coefficient k : Nat) (exponent : Int) :
    reduce (coefficient * 10 ^ k) exponent = reduce coefficient (exponent + k) := by
  induction k generalizing exponent with
  | zero => simp
  | succ k ih =>
      rw [Nat.pow_succ, ← Nat.mul_assoc, reduce_mul_ten, ih]
      congr 1
      omega

theorem exists_reduce_eq {coefficient : Nat} (h : coefficient ≠ 0) (exponent : Int) :
    ∃ k : Nat, coefficient = (reduce coefficient exponent).1 * 10 ^ k ∧
      (reduce coefficient exponent).2 = exponent + k ∧
      (reduce coefficient exponent).1 % 10 ≠ 0 := by
  fun_induction reduce coefficient exponent with
  | case1 => exact absurd rfl h
  | case2 coefficient exponent hzero hmod ih =>
      obtain ⟨k, hcoefficient, hexponent, hlast⟩ := ih (by omega)
      refine ⟨k + 1, ?_, ?_, hlast⟩
      · rw [Nat.pow_succ, ← Nat.mul_assoc, ← hcoefficient]
        omega
      · rw [hexponent]
        omega
  | case3 coefficient exponent hzero hmod => exact ⟨0, by simp, by simp, hmod⟩

theorem reduce_fst_eq_zero_iff {coefficient : Nat} {exponent : Int} :
    (reduce coefficient exponent).1 = 0 ↔ coefficient = 0 := by
  constructor
  · intro h
    by_contra hzero
    obtain ⟨k, -, -, hlast⟩ := exists_reduce_eq hzero exponent
    exact hlast (by rw [h])
  · rintro rfl
    rw [reduce_zero]

theorem reduce_fst_bne_zero (coefficient : Nat) (exponent : Int) :
    ((reduce coefficient exponent).1 != 0) = (coefficient != 0) := by
  rw [Bool.eq_iff_iff]
  simp only [bne_iff_ne, ne_eq, reduce_fst_eq_zero_iff]

@[simp] theorem reduce_reduce (coefficient : Nat) (exponent : Int) :
    reduce (reduce coefficient exponent).1 (reduce coefficient exponent).2 =
      reduce coefficient exponent := by
  by_cases hzero : coefficient = 0
  · subst hzero
    simp only [reduce_zero]
  · obtain ⟨k, -, -, hlast⟩ := exists_reduce_eq hzero exponent
    exact reduce_of_mod_ne_zero hlast _

theorem adjustedExponent_mul_pow {n : Nat} (h : 0 < n) (k : Nat) (exponent : Int) :
    adjustedExponent (n * 10 ^ k) exponent = adjustedExponent n (exponent + k) := by
  simp only [adjustedExponent, digits_mul_pow h, List.length_append, List.length_replicate]
  omega

/-- A decimal that is neither infinite nor a NaN. -/
def IsFinite (x : Decimal) : Prop :=
  ∃ negative coefficient exponent limits, x = .finite negative coefficient exponent limits

/-- The coefficient of a reduced number in plain notation. -/
def plainCoefficient (coefficient : Nat) (exponent : Int) : Nat :=
  if 0 ≤ exponent then coefficient * 10 ^ exponent.natAbs else coefficient

/-- The exponent of a reduced number in plain notation. -/
def plainExponent (exponent : Int) : Int :=
  if 0 ≤ exponent then 0 else exponent

theorem reduce_plainCoefficient (coefficient : Nat) (exponent : Int) :
    reduce (plainCoefficient coefficient exponent) (plainExponent exponent) =
      reduce coefficient exponent := by
  unfold plainCoefficient plainExponent
  split
  · rename_i hexponent
    rw [reduce_mul_pow, Int.zero_add, Int.natAbs_of_nonneg hexponent]
  · rfl

theorem withinLimits_plain {coefficient : Nat} {exponent : Int}
    (h : withinLimits coefficient exponent = true) :
    withinLimits (plainCoefficient (reduce coefficient exponent).1 (reduce coefficient exponent).2)
      (plainExponent (reduce coefficient exponent).2) = true := by
  by_cases hzero : coefficient = 0
  · subst hzero
    rw [reduce_zero]
    decide
  obtain ⟨k, hcoefficient, hexponent, hlast⟩ := exists_reduce_eq hzero exponent
  generalize (reduce coefficient exponent).1 = c at *
  generalize (reduce coefficient exponent).2 = e at *
  have hpos : 0 < c := Nat.pos_of_ne_zero (by rintro rfl; exact hlast rfl)
  simp only [withinLimits, Bool.and_eq_true, decide_eq_true_eq] at h ⊢
  obtain ⟨hleast, hgreatest⟩ := h
  rw [hcoefficient, adjustedExponent_mul_pow hpos, ← hexponent] at hgreatest
  unfold plainCoefficient plainExponent
  split
  · rename_i hnonneg
    rw [adjustedExponent_mul_pow hpos, Int.zero_add, Int.natAbs_of_nonneg hnonneg]
    exact ⟨by decide, hgreatest⟩
  · exact ⟨by omega, hgreatest⟩

/-- A finite decimal as its plain text denotes it: without trailing zeros behind
the point, without a power of ten, and without the sign of zero. -/
def canonical : Decimal → Decimal
  | .finite negative coefficient exponent limits =>
      .finite (negative && coefficient != 0)
        (plainCoefficient (reduce coefficient exponent).1 (reduce coefficient exponent).2)
        (plainExponent (reduce coefficient exponent).2) (withinLimits_plain limits)
  | value => value

theorem reduce_canonical (negative : Bool) (coefficient : Nat) (exponent : Int)
    (limits : withinLimits coefficient exponent = true) :
    ∃ c e h, canonical (.finite negative coefficient exponent limits) =
        .finite (negative && coefficient != 0) c e h ∧
      reduce c e = reduce coefficient exponent :=
  ⟨_, _, _, rfl, by rw [reduce_plainCoefficient, reduce_reduce]⟩

theorem eq_zero_iff_of_reduce_eq {c c' : Nat} {e e' : Int} (h : reduce c e = reduce c' e') :
    c = 0 ↔ c' = 0 := by
  rw [← @reduce_fst_eq_zero_iff c e, h, reduce_fst_eq_zero_iff]

theorem equals_canonical (negative : Bool) (coefficient : Nat) (exponent : Int)
    (limits : withinLimits coefficient exponent = true) :
    equals (canonical (.finite negative coefficient exponent limits))
      (.finite negative coefficient exponent limits) = .ok true := by
  obtain ⟨c, e, _, hcanonical, hreduce⟩ := reduce_canonical negative coefficient exponent limits
  rw [hcanonical]
  by_cases hcoefficient : coefficient = 0 <;>
    simp [equals, same, hreduce, eq_zero_iff_of_reduce_eq hreduce, hcoefficient]

/-- The mantissa that `pointed` writes. -/
def pointedMantissa (ds : List Char) (places : Nat) : Mantissa :=
  let padded := List.replicate (places + 1 - ds.length) '0' ++ ds
  ⟨padded.take (padded.length - places),
    if places = 0 then none else some (padded.drop (padded.length - places))⟩

theorem pointedMantissa_text (ds : List Char) (places : Nat) :
    (pointedMantissa ds places).text = pointed ds places := by
  simp only [pointedMantissa, pointed, Mantissa.text]
  split <;> simp_all

theorem pointedMantissa_digits (ds : List Char) (places : Nat) :
    (pointedMantissa ds places).whole ++ (pointedMantissa ds places).places =
      List.replicate (places + 1 - ds.length) '0' ++ ds := by
  by_cases hplaces : places = 0
  · subst hplaces
    simp only [pointedMantissa, Mantissa.places, if_true, Option.getD_none, List.append_nil,
      Nat.sub_zero, List.take_length]
  · simp only [pointedMantissa, Mantissa.places, if_neg hplaces, Option.getD_some,
      List.take_append_drop]

theorem pointedMantissa_places_length (ds : List Char) (places : Nat) :
    (pointedMantissa ds places).places.length = places := by
  by_cases hplaces : places = 0
  · simp [pointedMantissa, Mantissa.places, hplaces]
  · simp only [pointedMantissa, Mantissa.places, if_neg hplaces, Option.getD_some,
      List.length_drop, List.length_append, List.length_replicate]
    omega

theorem pointedMantissa_wellFormed (coefficient places : Nat) :
    (pointedMantissa (digits coefficient) places).WellFormed := by
  have hdigits : ∀ ch ∈ (pointedMantissa (digits coefficient) places).whole ++
      (pointedMantissa (digits coefficient) places).places, ch.isDigit = true := by
    intro ch hch
    rw [pointedMantissa_digits, List.mem_append] at hch
    rcases hch with hzero | hdigit
    · rw [List.eq_of_mem_replicate hzero]
      decide
    · exact isDigit_of_mem_digits hdigit
  constructor
  · exact fun ch hch => hdigits ch (List.mem_append_left _ hch)
  · exact fun ch hch => hdigits ch (List.mem_append_right _ hch)
  · rw [pointedMantissa_digits]
    exact List.append_ne_nil_of_right_ne_nil _ (digits_ne_nil _)

theorem pointedMantissa_coefficient (coefficient places : Nat) :
    (pointedMantissa (digits coefficient) places).coefficient = coefficient := by
  rw [Mantissa.coefficient, pointedMantissa_digits]
  simp [Nat.ofDigitChars_append, ofDigitChars_digits]

/-- The mantissa of the plain text of a reduced coefficient and exponent. -/
def plainMantissa (coefficient : Nat) (exponent : Int) : Mantissa :=
  if 0 ≤ exponent then ⟨digits coefficient ++ List.replicate exponent.natAbs '0', none⟩
  else pointedMantissa (digits coefficient) exponent.natAbs

theorem plainMantissa_text (coefficient : Nat) (exponent : Int) :
    (plainMantissa coefficient exponent).text = plainText coefficient exponent := by
  unfold plainMantissa plainText
  split
  · rfl
  · exact pointedMantissa_text _ _

theorem plainMantissa_wellFormed (coefficient : Nat) (exponent : Int) :
    (plainMantissa coefficient exponent).WellFormed := by
  unfold plainMantissa
  split
  · constructor
    · intro ch hch
      rcases List.mem_append.1 hch with hdigit | hzero
      · exact isDigit_of_mem_digits hdigit
      · rw [List.eq_of_mem_replicate hzero]
        decide
    · simp [Mantissa.places]
    · simp [Mantissa.places, digits_ne_nil]
  · exact pointedMantissa_wellFormed _ _

theorem plainMantissa_coefficient (coefficient : Nat) (exponent : Int) :
    (plainMantissa coefficient exponent).coefficient = plainCoefficient coefficient exponent := by
  unfold plainMantissa plainCoefficient
  split
  · simp [Mantissa.coefficient, Mantissa.places, Nat.ofDigitChars_append, ofDigitChars_digits,
      Nat.mul_comm]
  · exact pointedMantissa_coefficient _ _

theorem plainMantissa_places_length (coefficient : Nat) (exponent : Int) :
    -((plainMantissa coefficient exponent).places.length : Int) = plainExponent exponent := by
  unfold plainMantissa plainExponent
  split
  · simp [Mantissa.places]
  · rw [pointedMantissa_places_length]
    omega

/-- The numeral that is the plain text of a finite decimal. -/
def plainNumeral (negative : Bool) (coefficient : Nat) (exponent : Int) : Numeral :=
  ⟨if negative && coefficient != 0 then some .minus else none,
    plainMantissa (reduce coefficient exponent).1 (reduce coefficient exponent).2, none⟩

theorem plainNumeral_wellFormed (negative : Bool) (coefficient : Nat) (exponent : Int) :
    (plainNumeral negative coefficient exponent).WellFormed where
  mantissa := plainMantissa_wellFormed _ _
  power := by simp [plainNumeral]

theorem plainNumeral_text (negative : Bool) (coefficient : Nat) (exponent : Int)
    (limits : withinLimits coefficient exponent = true) :
    (plainNumeral negative coefficient exponent).text =
      plain (.finite negative coefficient exponent limits) := by
  simp only [plainNumeral, Numeral.text, Power.optionText, List.append_nil, plainMantissa_text,
    plain]
  by_cases hzero : coefficient = 0
  · subst hzero
    simp only [reduce_zero, bne_self_eq_false, Bool.and_false, if_true]
    rfl
  · have hreduced : (reduce coefficient exponent).1 ≠ 0 :=
      fun h => hzero (reduce_fst_eq_zero_iff.1 h)
    rw [if_neg hreduced]
    cases negative <;> simp [Sign.text, signText, hzero]

theorem scan?_plain {negative : Bool} {coefficient : Nat} {exponent : Int}
    {limits : withinLimits coefficient exponent = true} {behind : List Char}
    (h : Text.EndsRun numeralChar behind) :
    Numeral.scan? (plain (.finite negative coefficient exponent limits) ++ behind) =
      some (plainNumeral negative coefficient exponent, behind) := by
  rw [← plainNumeral_text]
  exact (plainNumeral_wellFormed _ _ _).scan?_text_append h

theorem plain_ne_nil {negative : Bool} {coefficient : Nat} {exponent : Int}
    {limits : withinLimits coefficient exponent = true} :
    plain (.finite negative coefficient exponent limits) ≠ [] := by
  rw [← plainNumeral_text]
  exact Numeral.text_ne_nil_of_scan ((plainNumeral_wellFormed _ _ _).scan?_text_append (.nil _))

theorem numeralChar_of_mem_plain {negative : Bool} {coefficient : Nat} {exponent : Int}
    {limits : withinLimits coefficient exponent = true} {ch : Char}
    (h : ch ∈ plain (.finite negative coefficient exponent limits)) : numeralChar ch = true :=
  (plainNumeral_wellFormed _ _ _).numeralChar_of_mem_text (plainNumeral_text _ _ _ limits ▸ h)

theorem finite?_of_withinLimits {negative : Bool} {coefficient : Nat} {exponent : Int}
    (h : withinLimits coefficient exponent = true) :
    finite? negative coefficient exponent = some (.finite negative coefficient exponent h) :=
  dif_pos h

theorem toDecimal?_plainNumeral (negative : Bool) (coefficient : Nat) (exponent : Int)
    (limits : withinLimits coefficient exponent = true) :
    (plainNumeral negative coefficient exponent).toDecimal? =
      some (canonical (.finite negative coefficient exponent limits)) := by
  have hsign : ((plainNumeral negative coefficient exponent).sign == some .minus) =
      (negative && coefficient != 0) := by
    unfold plainNumeral
    cases negative && coefficient != 0 <;> rfl
  rw [Numeral.toDecimal?, hsign]
  simp only [plainNumeral, Power.exponent, Int.zero_sub, plainMantissa_places_length,
    plainMantissa_coefficient]
  exact finite?_of_withinLimits (withinLimits_plain limits)

end Sexp.Decimal
