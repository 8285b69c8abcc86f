import Sexp.FormStream.Basic

namespace Sexp.FormStream

open Sexp.Grammar Sexp.Text

/-- The variable of the environment that holds the switch. -/
def traceVariable : String := "QUILL_TRACE_READER"

/-- The values of the switch that turn tracing on. -/
def traceWords : List String :=
  ["1", "true", "yes", "on"]

/-- Whether the switch turns tracing on.  Space around it and the case of its
letters make no difference. -/
def traceEnabled (switch : Option String) : Bool :=
  traceWords.contains
    (String.ofList ((strip (switch.getD "").toList).map Char.toLower))

/-- A stream from the beginning of a text, traced as it is told or else as the
switch says. -/
def startWith (source : List Char) (traced : Option Bool) (switch : Option String)
    (limit : NestingLimit := .standard) : FormStream :=
  start source (traced.getD (traceEnabled switch)) limit

end Sexp.FormStream
