import Sexp.Call.Journal

namespace Sexp

/-- The name of a record's type, and what the record makes of the calls of its
methods. -/
structure Record where
  typeName : String
  respond : Dispatch → Except CallError Form

/-- What forms refer to: the records behind their names, and what comes of running
a callable that is no method.  That may be anything, calls of methods included. -/
structure Registry where
  record : String → Record
  primitive : Primitive → List Form → External → CallOutcome

/-- The name of the type of a value from outside. -/
def External.typeName : External → String
  | .null => "NoneType"
  | .bool _ => "bool"
  | .int _ => "int"
  | .text _ => "str"
  | .array _ => "list"
  | .object _ _ => "dict"

/-- The name of the type of a form. -/
def Form.typeName (registry : Registry) : Form → String
  | .symbol _ => "Symbol"
  | .number _ => "Num"
  | .string _ => "String"
  | .bool _ => "Bool"
  | .list _ => "List"
  | .quote _ => "Quote"
  | .function _ => "Function"
  | .record id => (registry.record id).typeName
  | .external value => value.typeName

/-- The name of the record that a form refers to. -/
def Form.asRecord (registry : Registry) (form : Form) : Except CallError String :=
  match form with
  | .record id => .ok id
  | other => .error (.wrongType "Record" (other.typeName registry))

/-- What a built-in callable makes of its arguments and the table. -/
def Primitive.run : Primitive → List Form → External → Except CallError Form
  | .list, args, _ => .ok (.list args)
  | .count, args, _ => .ok (.number (.ofNat args.length))
  | .first, args, _ => .ok (args.headD (.external .null))
  | .table, _, given => .ok (.external given)
  | .fail, _, _ => .error (.raised "prim failed")

namespace Record

/-- The name of the type of records that have no other. -/
def defaultTypeName : String := "Rec"

/-- A record that answers with a part of the call: itself, the arguments, the
table, or the number of arguments.  One method always raises an error. -/
def standard (id typeName : String) : Record where
  typeName := typeName
  respond call :=
    match call.method with
    | "fail" => .error (.raised "no such method")
    | "self" => .ok (.record id)
    | "args" => .ok (.list call.args)
    | "table" => .ok (.external call.table)
    | _ => .ok (.number (.ofNat call.args.length))

/-- The registry of standard records under the given names, each with the name of
its type if it has one, and of the built-in callables. -/
def standardRegistry (typeNames : List (String × Option String)) : Registry where
  record id := standard id (((typeNames.lookup id).getD none).getD defaultTypeName)
  primitive kind args table := .silent (kind.run args table)

end Record

end Sexp
