import Sexp.Decimal.Numeral
import Sexp.Text.Blank
import Sexp.Text.DecimalDigit

namespace Sexp.Decimal

open Sexp.Text

/-- A character of a number with the digits of other scripts brought to the
basic ones.  Other characters outside the basic block stand in no number. -/
def basicCharacter? (c : Char) : Option Char :=
  if c.toNat < 0x80 then some c else (decimalDigit? c).map Nat.digitChar

/-- The text of a number without the space around it and without low lines, in
basic characters. -/
def basicText? (text : List Char) : Option (List Char) :=
  ((strip text).filter (· != '_')).mapM basicCharacter?

/-- The payload of a NaN, which may be empty. -/
def payload? (cs : List Char) : Option Nat :=
  if cs.all Char.isDigit then some (Nat.ofDigitChars 10 cs 0) else none

/-- The values that are no number, written in small letters without a sign. -/
def special? (negative : Bool) : List Char → Option Decimal
  | 's' :: 'n' :: 'a' :: 'n' :: cs => (payload? cs).map (.nan negative true)
  | 'n' :: 'a' :: 'n' :: cs => (payload? cs).map (.nan negative false)
  | cs =>
      if cs = "inf".toList || cs = "infinity".toList then some (.infinity negative)
      else none

/-- The decimal of a text in basic characters. -/
def ofBasicText? (cs : List Char) : Option Decimal :=
  match Numeral.scan? cs with
  | some (numeral, []) => numeral.toDecimal?
  | _ =>
      let (sign, word) := Sign.scan cs
      special? (sign == some .minus) (word.map Char.toLower)

/-- The decimal that a text of its own denotes. -/
def ofText? (text : List Char) : Option Decimal :=
  (basicText? text).bind ofBasicText?

end Sexp.Decimal
