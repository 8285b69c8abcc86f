import Sexp.Grammar.Atom

namespace Sexp.Grammar

open Sexp.Text

/-- A list is a parenthesized sequence of forms. -/
def listOf (contents : Recognizer (List Form)) : Recognizer Form := fun c =>
  ((parenthesized contents c).mapFailure fun f =>
    if f.committed then f.within (.form .list) else f).map .list

/-- A list behind a mark.  The mark is enough to know what the form is, so that
each failure behind it is final. -/
def marked (mark : Char) (shape : Shape) (build : List Form → Form)
    (contents : Recognizer (List Form)) : Recognizer Form := fun c =>
  match c.after? [mark] with
  | some body =>
      ((parenthesized contents body).mapFailure fun f =>
        f.commit.within (.form shape)).map build
  | none => expected c (.shape shape)

/-- A quote is a list behind a quotation mark. -/
def quoteOf : Recognizer (List Form) → Recognizer Form :=
  marked Form.quoteMark .quote .quote

/-- A tuple is a list behind its own mark. -/
def tupleOf : Recognizer (List Form) → Recognizer Form :=
  marked Form.tupleMark .tuple Form.tupleForm

/-- The recognizer of one way to write a form. -/
def Shape.recognizer (contents : Recognizer (List Form)) :
    Shape → Recognizer Form
  | .list => listOf contents
  | .quote => quoteOf contents
  | .tuple => tupleOf contents
  | .string => Grammar.string
  | .number => Grammar.number
  | .boolean => Grammar.boolean
  | .symbol => Grammar.symbol

/-- A form written in any way, with ignorable text around it. -/
def expressionOf (contents : Recognizer (List Form)) : Recognizer Form := fun c =>
  let start := c.skip
  (firstOf start (.expecting start.pos .expression)
    (Shape.all.map (Shape.recognizer contents))).bind fun m =>
      found m.value m.next.skip

/-- The forms between two parentheses, in which fewer than the given number of
parentheses may be open at once. -/
def forms : Nat → Recognizer (List Form)
  | 0, _ => .tooDeep
  | depth + 1, c => repeated (fun item => expressionOf (forms depth) item) c

theorem forms_succ (depth : Nat) :
    forms (depth + 1) = repeated (expressionOf (forms depth)) := rfl

/-- A form in which no more than the given number of parentheses is open at
once. -/
def expression (depth : Nat) : Recognizer Form :=
  expressionOf (forms depth)

/-- A form written in the given way, in which no more than the given number of
parentheses is open at once. -/
def oneOf (shape : Shape) (depth : Nat) : Recognizer Form :=
  shape.recognizer (forms depth)

/-- How many parentheses a form may have open at once.  This depends on the room
that is left for nested calls, which is enough for 200 and never for 1000. -/
structure NestingLimit where
  levels : Nat
  least : 200 ≤ levels
  most : levels < 1000
  deriving DecidableEq, Repr

/-- How many parentheses a form may have open at once unless said otherwise. -/
def nestingLimit : Nat := 250

/-- The limit that holds unless said otherwise. -/
def NestingLimit.standard : NestingLimit :=
  ⟨nestingLimit, by decide, by decide⟩

end Sexp.Grammar
