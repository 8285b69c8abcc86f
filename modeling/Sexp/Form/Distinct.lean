import Sexp.Form.Equality

namespace Sexp

/-- Why a value has no hash. -/
inductive HashError where
  | signalingNaN
  | array
  | object
  deriving DecidableEq, Repr

/-- The wording of a missing hash. -/
def HashError.message : HashError → String
  | .signalingNaN => "Cannot hash a signaling NaN value"
  | .array => "unhashable type: 'list'"
  | .object => "unhashable type: 'dict'"

/-- Why a decimal has no hash, if it has none. -/
def Decimal.hashError? : Decimal → Option HashError
  | .nan _ true _ => some .signalingNaN
  | _ => none

/-- Why a value from outside has no hash, if it has none. -/
def External.hashError? : External → Option HashError
  | .array _ => some .array
  | .object _ _ => some .object
  | _ => none

namespace Form

mutual

/-- Why a form has no hash, if it has none. -/
def hashError? : Form → Option HashError
  | .number value => value.hashError?
  | .external value => value.hashError?
  | .list items => hashErrorAmong? items
  | .quote items => hashErrorAmong? items
  | _ => none

/-- Why the first of several forms without a hash has none. -/
def hashErrorAmong? : List Form → Option HashError
  | [] => none
  | form :: forms => (hashError? form).or (hashErrorAmong? forms)

end

/-- The forms without those that are the same as an earlier one.  They are told apart
through their hashes, so that the first of them without a hash is what is wrong. -/
def distinct (forms : List Form) : Except HashError (List Form) :=
  match hashErrorAmong? forms with
  | some cause => .error cause
  | none => .ok (forms.eraseDupsBy same)

end Form

end Sexp
