namespace Sexp

/-- Why a call has no value. -/
inductive CallError where
  /-- A callable was given a number of arguments that it does not take. -/
  | arity (name : String) (expected : Int) (variadic : Bool) (given : Int)
  /-- A value is not of the type that is needed. -/
  | wrongType (expected given : String)
  /-- What is called raised an error of its own. -/
  | raised (message : String)
  deriving DecidableEq, Repr

/-- The wording of an error. -/
def CallError.message : CallError → String
  | .arity name expected variadic given =>
      name ++ " takes " ++ (if variadic then "at least " else "exactly ") ++
        toString expected ++ " argument(s), got " ++ toString given
  | .wrongType expected given =>
      "Wrong type: expected " ++ expected ++ ", given " ++ given
  | .raised message => message

end Sexp
