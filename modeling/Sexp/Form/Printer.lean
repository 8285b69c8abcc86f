import Sexp.Decimal.Notation
import Sexp.Form.Sugar
import Sexp.Text.Inspected

namespace Sexp

/-- The text of a truth value. -/
def boolText (value : Bool) : List Char :=
  if value then "true".toList else "false".toList

/-- Write a mark before every quotation mark of a string. -/
def escapeQuotes : List Char → List Char
  | [] => []
  | c :: cs => if c = '"' then '\\' :: '"' :: escapeQuotes cs else c :: escapeQuotes cs

/-- A string as it is written in source text. -/
def stringLiteral (value : String) : List Char :=
  '"' :: escapeQuotes value.toList ++ ['"']

/-- A callable that is no method call has no source text and is shown by its
name. -/
def Callable.inspected (f : Callable) : List Char :=
  "<function ".toList ++ f.name.toList ++ ['>']

/-- The source text of a callable. -/
def Callable.text (f : Callable) : List Char :=
  match f.action with
  | .method name => Form.methodMark :: name.toList
  | .primitive _ => f.inspected

mutual

/-- A value from outside as it is shown to people. -/
def External.inspected : External → List Char
  | .null => "None".toList
  | .bool value => if value then "True".toList else "False".toList
  | .int value => Decimal.signText (value < 0) ++ Decimal.digits value.natAbs
  | .text value => Text.inspect value.toList
  | .array items => '[' :: [',', ' '].intercalate (External.inspectedItems items) ++ [']']
  | .object names values =>
      '\x7b' :: [',', ' '].intercalate
        (List.zipWith (fun name value => Text.inspect name.toList ++ [':', ' '] ++ value)
          names (External.inspectedItems values)) ++ ['\x7d']

/-- The values one by one as they are shown to people. -/
def External.inspectedItems : List External → List (List Char)
  | [] => []
  | value :: values => External.inspected value :: External.inspectedItems values

end

/-- A value from outside as plain text: a text stands for itself. -/
def External.displayed : External → List Char
  | .text value => value.toList
  | value => value.inspected

namespace Form

mutual

/-- The source text of a form. -/
def text : Form → List Char
  | .symbol name => name.toList
  | .number value => value.plain
  | .string value => stringLiteral value
  | .bool value => boolText value
  | .list items => '(' :: [' '].intercalate (texts items) ++ [')']
  | .quote items => quoteMark :: '(' :: [' '].intercalate (texts items) ++ [')']
  | .function callable => callable.text
  | .record id => "<record ".toList ++ id.toList ++ ['>']
  | .external value => value.inspected

/-- The source texts of forms one by one. -/
def texts : List Form → List (List Char)
  | [] => []
  | form :: forms => text form :: texts forms

end

mutual

/-- A form as it is shown to people. -/
def inspected : Form → List Char
  | .symbol name => name.toList
  | .number value => "Num(".toList ++ value.scientific ++ [')']
  | .string value => "String(".toList ++ Text.inspect value.toList ++ [')']
  | .bool value => boolText value
  | .list items => "List([".toList ++ [',', ' '].intercalate (inspectedItems items) ++ [']', ')']
  | .quote items => "Quote([".toList ++ [',', ' '].intercalate (inspectedItems items) ++ [']', ')']
  | .function callable => callable.inspected
  | .record id => "<record ".toList ++ id.toList ++ ['>']
  | .external value => value.inspected

/-- Forms one by one as they are shown to people. -/
def inspectedItems : List Form → List (List Char)
  | [] => []
  | form :: forms => inspected form :: inspectedItems forms

end

/-- The source text of a form, as a string. -/
def print (form : Form) : String :=
  String.ofList form.text

/-- The text that shows a form to people, as a string. -/
def inspect (form : Form) : String :=
  String.ofList form.inspected

/-- The text of a form inside other text.  Only a text from outside is not
written there as in source text. -/
def display : Form → String
  | .external value => String.ofList value.displayed
  | form => form.print

/-- The source text of several forms, with a space between two of them. -/
def printAll (forms : List Form) : String :=
  String.ofList ([' '].intercalate (forms.map text))

theorem texts_eq_map (forms : List Form) : texts forms = forms.map text := by
  induction forms with
  | nil => rfl
  | cons form forms ih => rw [texts, ih, List.map_cons]

end Form

end Sexp
