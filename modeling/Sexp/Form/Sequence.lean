import Sexp.Form.Basic

namespace Sexp.Form

/-- A failed access to a sequence. -/
inductive AccessError where
  /-- The sequence has no item at the index. -/
  | outOfRange
  /-- The index is no signed word of 64 bits. -/
  | tooLarge
  deriving DecidableEq, Repr

/-- The wording of a failed access. -/
def AccessError.message : AccessError → String
  | .outOfRange => "tuple index out of range"
  | .tooLarge => "cannot fit 'int' into an index-sized integer"

/-- An index counted from the front.  A negative one counts from the end. -/
def fromFront (length : Nat) (index : Int) : Int :=
  if index < 0 then index + length else index

/-- The least signed word of 64 bits. -/
def leastIndex : Int := -9223372036854775808

/-- The greatest signed word of 64 bits. -/
def greatestIndex : Int := 9223372036854775807

/-- The item at an index. -/
def itemAt (items : List Form) (index : Int) : Except AccessError Form :=
  let front := fromFront items.length index
  if index < leastIndex || greatestIndex < index then .error .tooLarge
  else if front < 0 then .error .outOfRange
  else
    match items[front.toNat]? with
    | some item => .ok item
    | none => .error .outOfRange

/-- A bound of a range: an absent one stands for the given end, and one outside
of the sequence for the nearer end. -/
def bound (length : Nat) (whenAbsent : Nat) : Option Int → Nat
  | none => whenAbsent
  | some index => min (fromFront length index).toNat length

/-- The items from one bound up to the other, which is left out. -/
def slice (items : List Form) (lower upper : Option Int) : List Form :=
  let lower := bound items.length 0 lower
  let upper := bound items.length items.length upper
  (items.drop lower).take (upper - lower)

end Sexp.Form
