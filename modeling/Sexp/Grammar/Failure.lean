namespace Sexp.Grammar

/-- The ways to write a form. -/
inductive Shape where
  | list
  | quote
  | tuple
  | string
  | number
  | boolean
  | symbol
  deriving DecidableEq, Repr

namespace Shape

/-- All ways to write a form, in the order in which they are tried.  A truth
value comes before a symbol, which could also be read there. -/
def all : List Shape :=
  [.list, .quote, .tuple, .string, .number, .boolean, .symbol]

/-- The name of a way to write a form. -/
def name : Shape → String
  | .list => "list"
  | .quote => "quote"
  | .tuple => "tuple"
  | .string => "string"
  | .number => "number"
  | .boolean => "boolean"
  | .symbol => "symbol"

end Shape

/-- What the grammar wants at a place. -/
inductive Expectation where
  /-- A form written in one way. -/
  | shape (shape : Shape)
  /-- A form written in any way. -/
  | expression
  | openParen
  | closeParen
  /-- The mark that ends a string. -/
  | closingQuote
  /-- A quotation mark behind a backslash in a string. -/
  | quoteEscape
  /-- Fewer parentheses open at once. -/
  | shallowerForm
  | other (text : String)
  deriving DecidableEq, Repr

/-- The wording of an expectation. -/
def Expectation.text : Expectation → String
  | .shape s => s.name
  | .expression =>
      "expression (" ++ String.intercalate ", " (Shape.all.map Shape.name) ++ ")"
  | .openParen => "'('"
  | .closeParen => "')'"
  | .closingQuote => "closing '\"'"
  | .quoteEscape => "'\\\"' escape"
  | .shallowerForm => "a less deeply nested form"
  | .other text => text

/-- What a failure lies within. -/
inductive Label where
  | form (shape : Shape)
  | closingParen
  | nestingLimit
  | other (text : String)
  deriving DecidableEq, Repr

/-- The wording of a label. -/
def Label.text : Label → String
  | .form s => s.name
  | .closingParen => "closing paren"
  | .nestingLimit => "nesting limit"
  | .other text => text

/-- A place where the text does not go on as wanted.  After a committed failure no other
way to read the text is tried.  The labels of the context go from the outermost to the
innermost. -/
structure Failure where
  pos : Nat
  expected : Expectation
  committed : Bool
  context : List Label
  deriving DecidableEq, Repr

namespace Failure

/-- An uncommitted failure without a context. -/
def expecting (pos : Nat) (expected : Expectation) : Failure :=
  ⟨pos, expected, false, []⟩

/-- The failure as a final one. -/
def commit (f : Failure) : Failure :=
  { f with committed := true }

/-- The failure with one more label around its context. -/
def within (f : Failure) (label : Label) : Failure :=
  { f with context := label :: f.context }

/-- Of two failures the one that got further, and the first if neither did. -/
def orFurther (f g : Failure) : Failure :=
  if f.pos < g.pos then g else f

/-- The failure of a form whose parentheses are nested too deep. -/
def tooDeep (pos : Nat) : Failure :=
  ⟨pos, .shallowerForm, false, [.nestingLimit]⟩

end Failure

end Sexp.Grammar
