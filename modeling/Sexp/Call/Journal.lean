import Sexp.Call.Error
import Sexp.Form.Basic

namespace Sexp

/-- A call of a method as the record sees it: without the record itself among
the arguments. -/
structure Dispatch where
  method : String
  args : List Form
  table : External
  deriving Repr

/-- A call of a method, with the name of the record that was asked. -/
structure JournalEntry where
  record : String
  dispatch : Dispatch
  deriving Repr

/-- The calls of methods so far, the oldest first. -/
abbrev Journal := List JournalEntry

/-- The calls of one record's methods. -/
def Journal.of (journal : Journal) (record : String) : List Dispatch :=
  (journal.filter fun entry => entry.record == record).map JournalEntry.dispatch

/-- The value or error of a call, and what it adds to the journal. -/
structure CallOutcome where
  result : Except CallError Form
  entries : Journal

/-- An outcome that adds nothing to the journal. -/
def CallOutcome.silent (result : Except CallError Form) : CallOutcome :=
  ⟨result, []⟩

end Sexp
