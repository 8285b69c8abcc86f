import Sexp.Form.Basic

/-!
# Equality of forms

Forms are the same when they have one shape and the same parts.  Numbers are
compared by what they denote and not by how they are written, so this is not
the equality of the type.

`Form.equals` is the comparison as it is carried out.  It goes through the items
of two sequences until a pair differs, and stops at a signaling NaN that it has
to compare with a number.  `Form.same` is the relation that it decides.
-/

namespace Sexp

mutual

/-- Whether two values from outside are the same.  A truth value is the same as
the integer zero or one. -/
def External.same : External → External → Bool
  | .null, .null => true
  | .bool a, .bool b => a == b
  | .bool a, .int n => n == if a then 1 else 0
  | .int n, .bool a => n == if a then 1 else 0
  | .int m, .int n => m == n
  | .text a, .text b => a == b
  | .array as, .array bs => External.sameItems as bs
  | .object ns as, .object ms bs => ns == ms && External.sameItems as bs
  | _, _ => false

/-- Whether two sequences have the same values in the same places. -/
def External.sameItems : List External → List External → Bool
  | [], [] => true
  | a :: as, b :: bs => External.same a b && External.sameItems as bs
  | _, _ => false

end

namespace Form

mutual

/-- Compare two forms. -/
def equals : Form → Form → Except Decimal.Signal Bool
  | .symbol a, .symbol b => .ok (a == b)
  | .number a, .number b => a.equals b
  | .string a, .string b => .ok (a == b)
  | .bool a, .bool b => .ok (a == b)
  | .list as, .list bs => equalsItems as bs
  | .quote as, .quote bs => equalsItems as bs
  | .function f, .function g => .ok (f == g)
  | .record a, .record b => .ok (a == b)
  | .external a, .external b => .ok (a.same b)
  | _, _ => .ok false

/-- Compare two sequences item by item.  That one of them is longer is seen only
where the other ends. -/
def equalsItems : List Form → List Form → Except Decimal.Signal Bool
  | [], [] => .ok true
  | a :: as, b :: bs =>
      match equals a b with
      | .ok true => equalsItems as bs
      | .ok false => .ok false
      | .error signal => .error signal
  | _, _ => .ok false

end

/-- Whether a comparison finds two forms the same. -/
def same (a b : Form) : Bool :=
  match equals a b with
  | .ok result => result
  | .error _ => false

/-- Whether a comparison finds the same forms in the same places. -/
def sameItems (as bs : List Form) : Bool :=
  match equalsItems as bs with
  | .ok result => result
  | .error _ => false

/-- Whether a form is found among others.  Those behind the first one that is
the same are not looked at. -/
def isAmong (form : Form) : List Form → Except Decimal.Signal Bool
  | [] => .ok false
  | item :: items =>
      match equals item form with
      | .ok true => .ok true
      | .ok false => isAmong form items
      | .error signal => .error signal

end Form

end Sexp
