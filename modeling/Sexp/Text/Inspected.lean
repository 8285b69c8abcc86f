import Sexp.Text.Printable

namespace Sexp.Text

/-- A number in lower-case hexadecimal, padded with zeros to a width. -/
def hexadecimal (width n : Nat) : List Char :=
  let digits := Nat.toDigits 16 n
  List.replicate (width - digits.length) '0' ++ digits

/-- The mark around an inspected text: the apostrophe, unless the text holds an
apostrophe and no quotation mark. -/
def inspectionMark (text : List Char) : Char :=
  if text.contains '\'' && !text.contains '"' then '"' else '\''

/-- One character of an inspected text. -/
def inspectChar (mark c : Char) : List Char :=
  if c = mark || c = '\\' then ['\\', c]
  else if c = '\t' then ['\\', 't']
  else if c = '\n' then ['\\', 'n']
  else if c = '\r' then ['\\', 'r']
  else if isPrintable c then [c]
  else if c.toNat < 0x100 then '\\' :: 'x' :: hexadecimal 2 c.toNat
  else if c.toNat < 0x10000 then '\\' :: 'u' :: hexadecimal 4 c.toNat
  else '\\' :: 'U' :: hexadecimal 8 c.toNat

/-- A text between marks with everything unprintable escaped. -/
def inspect (text : List Char) : List Char :=
  let mark := inspectionMark text
  mark :: text.flatMap (inspectChar mark) ++ [mark]

end Sexp.Text
