/-!
# Exact decimals

A decimal keeps the digits and the exponent it was written with: `1.50` is the
coefficient 150 with the exponent -2.  Two decimals are `same` when they denote
one number, however they are written; `reduce` brings a finite decimal to the
one form without trailing zeros that decides this.  `equals` is the comparison
as it is carried out: a signaling NaN stops it.
-/

namespace Sexp

/-- The decimal digits of a natural number; zero has the one digit `0`. -/
def Decimal.digits (n : Nat) : List Char :=
  Nat.toDigits 10 n

/-- The exponent that remains when the point is moved behind the first digit. -/
def Decimal.adjustedExponent (coefficient : Nat) (exponent : Int) : Int :=
  exponent + (digits coefficient).length - 1

/-- The least exponent of a finite decimal. -/
def Decimal.leastExponent : Int := -1999999999999999997

/-- The greatest adjusted exponent of a finite decimal. -/
def Decimal.greatestAdjustedExponent : Int := 999999999999999999

/-- Whether a coefficient and an exponent lie within the limits of a decimal. -/
def Decimal.withinLimits (coefficient : Nat) (exponent : Int) : Bool :=
  leastExponent ≤ exponent &&
    adjustedExponent coefficient exponent ≤ greatestAdjustedExponent

/-- An exact decimal, or one of the values that are no number.  There are no
finite decimals beyond the limits.  A payload of zero stands for a NaN without a
payload. -/
inductive Decimal where
  | finite (negative : Bool) (coefficient : Nat) (exponent : Int)
      (limits : Decimal.withinLimits coefficient exponent = true := by decide)
  | infinity (negative : Bool)
  | nan (negative signaling : Bool) (payload : Nat)
  deriving DecidableEq, Repr, Inhabited

namespace Decimal

/-- A finite decimal, if it lies within the limits. -/
def finite? (negative : Bool) (coefficient : Nat) (exponent : Int) : Option Decimal :=
  if h : withinLimits coefficient exponent = true then
    some (.finite negative coefficient exponent h)
  else
    none

/-- What an invalid operation results in. -/
def invalid : Decimal := .nan false false 0

/-- An integer as a decimal with exponent zero.  To make one of an integer with
too many digits is an invalid operation. -/
def ofInt (n : Int) : Decimal :=
  (finite? (n < 0) n.natAbs 0).getD invalid

/-- A natural number as a decimal with exponent zero. -/
def ofNat (n : Nat) : Decimal :=
  (finite? false n 0).getD invalid

/-- Move the trailing zeros of a coefficient into the exponent.  Zero is reduced
to the coefficient and the exponent zero. -/
def reduce (coefficient : Nat) (exponent : Int) : Nat × Int :=
  if coefficient = 0 then (0, 0)
  else if coefficient % 10 = 0 then reduce (coefficient / 10) (exponent + 1)
  else (coefficient, exponent)
termination_by coefficient
decreasing_by omega

/-- Whether two decimals denote the same number.  The sign of zero makes no
difference, and a NaN is the same as nothing, itself included. -/
def same : Decimal → Decimal → Bool
  | .finite n₁ c₁ e₁ _, .finite n₂ c₂ e₂ _ =>
      reduce c₁ e₁ = reduce c₂ e₂ && (n₁ == n₂ || c₁ == 0)
  | .infinity n₁, .infinity n₂ => n₁ == n₂
  | _, _ => false

/-- What stops an operation on decimals. -/
inductive Signal where
  /-- An operand is a signaling NaN. -/
  | signalingNaN
  deriving DecidableEq, Repr

/-- Compare two decimals. -/
def equals : Decimal → Decimal → Except Signal Bool
  | .nan _ true _, _ => .error .signalingNaN
  | _, .nan _ true _ => .error .signalingNaN
  | a, b => .ok (a.same b)

end Decimal

end Sexp
