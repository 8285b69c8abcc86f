import Sexp.Grammar.Failure
import Sexp.Text.Inspected
import Sexp.Text.Location

namespace Sexp

open Grammar Text

/-- A report that a text cannot be read.  Reports made elsewhere may leave out
where the failure lies. -/
structure ReadError where
  message : String
  line : Option Int
  column : Option Int
  lineText : Option String
  context : List String
  deriving DecidableEq, Repr

/-- What stands at a position, in words. -/
def foundText (source : List Char) (pos : Nat) : String :=
  match source[pos]? with
  | some c => String.ofList (inspect [c])
  | none => "end of input"

/-- The labels around a failure, in words. -/
def contextText : List String → String
  | [] => ""
  | labels => " (in " ++ String.intercalate " > " labels ++ ")"

/-- The report of a failure in a source text. -/
def Grammar.Failure.report (source : List Char) (f : Failure) : ReadError :=
  let place := locate source f.pos
  let labels := f.context.map Label.text
  { message :=
      "expected " ++ f.expected.text ++ " at line " ++ toString place.line ++
        ", column " ++ toString place.column ++ ", found " ++ foundText source f.pos ++
        contextText labels
    line := some place.line
    column := some place.column
    lineText := some (String.ofList place.lineText)
    context := labels }

end Sexp
