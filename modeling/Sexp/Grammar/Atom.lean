import Sexp.Decimal.Numeral
import Sexp.Form.Sugar
import Sexp.Grammar.Recognizer

namespace Sexp.Grammar

open Sexp.Text

/-- The characters that end a symbol, besides the blank ones. -/
def reserved : List Char :=
  [' ', '"', '\'', '(', ')', ';']

/-- Whether a character may stand in a symbol. -/
def isSymbolChar (c : Char) : Bool :=
  !reserved.contains c && !isBlank c

/-- A symbol is a run of symbol characters.  One that begins with a point is a
method call. -/
def symbol : Recognizer Form := fun c =>
  let name := c.rest.takeWhile isSymbolChar
  if name.isEmpty then expected c (.shape .symbol)
  else found (Form.ofSymbolText name) (c.advance name.length)

/-- The inside of a string up to its closing mark.  A backslash stands only in
front of a quotation mark, which then belongs to the string. -/
def stringBody (pos : Nat) : List Char → Reply (List Char)
  | [] => .failed (.expecting pos .closingQuote)
  | '"' :: cs => found [] ⟨pos + 1, cs⟩
  | '\\' :: '"' :: cs => (stringBody (pos + 2) cs).map ('"' :: ·)
  | '\\' :: _ => .failed (.expecting pos .quoteEscape)
  | c :: cs => (stringBody (pos + 1) cs).map (c :: ·)

/-- A string stands between quotation marks. -/
def string : Recognizer Form := fun c =>
  match c.after? ['"'] with
  | some inside =>
      (stringBody inside.pos inside.rest).map fun value => .string (String.ofList value)
  | none => expected c (.shape .string)

/-- A number is the longest numeral, if its decimal lies within the limits. -/
def number : Recognizer Form := fun c =>
  match Numeral.scan? c.rest with
  | none => expected c (.shape .number)
  | some (numeral, _) =>
      match numeral.toDecimal? with
      | some value => found (.number value) (c.advance numeral.text.length)
      | none => expected c (.shape .number)

/-- A truth value is a word, whatever follows it. -/
def boolean : Recognizer Form := fun c =>
  match c.after? "true".toList with
  | some next => found (.bool true) next
  | none =>
      match c.after? "false".toList with
      | some next => found (.bool false) next
      | none => expected c (.shape .boolean)

end Sexp.Grammar
