import Sexp.Decimal.Basic

namespace Sexp.Decimal

/-- How a sign is written: only the minus sign is. -/
def signText (negative : Bool) : List Char :=
  if negative then ['-'] else []

/-- Digits with a point in front of the last `places` of them, filled up with
zeros so that a digit stands before the point. -/
def pointed (digits : List Char) (places : Nat) : List Char :=
  let padded := List.replicate (places + 1 - digits.length) '0' ++ digits
  let whole := padded.take (padded.length - places)
  if places = 0 then whole else whole ++ '.' :: padded.drop (padded.length - places)

/-- One digit before the point and the others, if any, behind it. -/
def normalized : List Char → List Char
  | [] => []
  | [d] => [d]
  | d :: ds => d :: '.' :: ds

/-- A power of ten with its sign always written. -/
def powerText (exponent : Int) : List Char :=
  'E' :: (if exponent < 0 then '-' else '+') :: Decimal.digits exponent.natAbs

/-- The texts of the values that are no number. -/
def specialText : Bool → Nat → List Char
  | signaling, payload =>
      (if signaling then ['s'] else []) ++ "NaN".toList ++
        (if payload = 0 then [] else digits payload)

/-- The text that shows the whole coefficient and the exponent.  A power of ten
is written for positive exponents, and for numbers below one millionth. -/
def scientific : Decimal → List Char
  | .finite negative coefficient exponent _ =>
      let adjusted := adjustedExponent coefficient exponent
      signText negative ++
        if exponent ≤ 0 && -6 ≤ adjusted then
          pointed (digits coefficient) exponent.natAbs
        else
          normalized (digits coefficient) ++ powerText adjusted
  | .infinity negative => signText negative ++ "Infinity".toList
  | .nan negative signaling payload => signText negative ++ specialText signaling payload

/-- The text of a reduced coefficient and exponent without a power of ten. -/
def plainText (coefficient : Nat) (exponent : Int) : List Char :=
  if 0 ≤ exponent then
    digits coefficient ++ List.replicate exponent.natAbs '0'
  else
    pointed (digits coefficient) exponent.natAbs

/-- The shortest text of a number without a power of ten.  Zero is written `0`
whatever its sign. -/
def plain : Decimal → List Char
  | .finite negative coefficient exponent _ =>
      let (c, e) := reduce coefficient exponent
      if c = 0 then ['0'] else signText negative ++ plainText c e
  | .infinity negative => signText negative ++ "Infinity".toList
  | .nan negative signaling payload => signText negative ++ specialText signaling payload

end Sexp.Decimal
