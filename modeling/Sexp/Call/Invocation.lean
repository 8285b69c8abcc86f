import Sexp.Call.Record
import Sexp.Form.Sugar

namespace Sexp

/-- Call a method of the record that is the first argument.  What the record is asked to do
stands in the journal even if the call ends in an error. -/
def invokeMethod (registry : Registry) (method : String) (args : List Form)
    (table : External) : CallOutcome :=
  match args with
  | [] => .silent (.error (.arity (Form.methodCallName method) 1 true 0))
  | receiver :: rest =>
      match receiver.asRecord registry with
      | .error e => .silent (.error e)
      | .ok id => ⟨(registry.record id).respond ⟨method, rest, table⟩, [⟨id, method, rest, table⟩]⟩

/-- Run an action on arguments that are counted. -/
def Action.run (registry : Registry) : Action → List Form → External → CallOutcome
  | .method name, args, table => invokeMethod registry name args table
  | .primitive kind, args, table => registry.primitive kind args table

namespace Callable

/-- Whether a callable takes that many arguments. -/
def accepts (f : Callable) (given : Int) : Bool :=
  if f.variadic then f.minimumArgs ≤ given else given == f.minimumArgs

/-- Check the number of arguments. -/
def checkArity (f : Callable) (given : Int) : Except CallError Unit :=
  if f.accepts given then .ok ()
  else .error (.arity f.name f.minimumArgs f.variadic given)

/-- Count the arguments, then run the action. -/
def call (registry : Registry) (f : Callable) (args : List Form) (table : External) :
    CallOutcome :=
  match f.checkArity args.length with
  | .error e => .silent (.error e)
  | .ok () => f.action.run registry args table

end Callable

end Sexp
