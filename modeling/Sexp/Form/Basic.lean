import Sexp.Decimal.Basic

namespace Sexp

/-- A value from outside, passed on unchanged.  The fields of an object are kept
as their names and, in the same order, their values. -/
inductive External where
  | null
  | bool (value : Bool)
  | int (value : Int)
  | text (value : String)
  | array (items : List External)
  | object (names : List String) (values : List External)
  deriving Repr, Inhabited

/-- The callables that are no methods, named for what the built-in ones do. -/
inductive Primitive where
  /-- Returns the list of its arguments. -/
  | list
  /-- Returns the number of its arguments. -/
  | count
  /-- Returns its first argument, or null if there is none. -/
  | first
  /-- Returns the table it is called with. -/
  | table
  /-- Always raises an error. -/
  | fail
  deriving DecidableEq, Repr

/-- What a callable does once its arguments are counted. -/
inductive Action where
  /-- Calls the named method of the record that is the first argument. -/
  | method (name : String)
  /-- Does anything else. -/
  | primitive (kind : Primitive)
  deriving DecidableEq, Repr

/-- A callable value.  It takes at least the minimum of arguments if it is
variadic, and exactly that many otherwise.  A negative minimum is below every
number of arguments. -/
structure Callable where
  name : String
  minimumArgs : Int
  variadic : Bool
  action : Action
  deriving DecidableEq, Repr

/-- A form.  Lists and quotes differ even when their items agree. -/
inductive Form where
  | symbol (name : String)
  | number (value : Decimal)
  | string (value : String)
  | bool (value : Bool)
  | list (items : List Form)
  | quote (items : List Form)
  | function (callable : Callable)
  | record (id : String)
  | external (value : External)
  deriving Repr, Inhabited

/-- The items of a list or a quote. -/
def Form.items? : Form → Option (List Form)
  | .list items => some items
  | .quote items => some items
  | _ => none

end Sexp
