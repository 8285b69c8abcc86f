import Sexp.Form.Basic

namespace Sexp.Form

/-- A symbol that begins with this character is a method call. -/
def methodMark : Char := '.'

/-- A list behind this character is a quote. -/
def quoteMark : Char := '\''

/-- A list behind this character is a tuple. -/
def tupleMark : Char := '^'

/-- The symbol that a tuple begins with. -/
def tupleSymbol : String := "tuple"

/-- The name of the callable for a method. -/
def methodCallName (method : String) : String :=
  "method_call<" ++ method ++ ">"

/-- The callable for a method.  Its first argument is the record. -/
def methodCallable (method : String) : Callable :=
  { name := methodCallName method
    minimumArgs := 1
    variadic := true
    action := .method method }

/-- The form of the symbol that names a method behind a point. -/
def methodCall (method : String) : Form :=
  .function (methodCallable method)

/-- The list that a tuple stands for. -/
def tupleForm (items : List Form) : Form :=
  .list (.symbol tupleSymbol :: items)

/-- The form of a symbol's text. -/
def ofSymbolText : List Char → Form
  | [] => .symbol ""
  | c :: cs =>
      if c = methodMark then methodCall (String.ofList cs)
      else .symbol (String.ofList (c :: cs))

end Sexp.Form
