import Sexp.Call.Invocation

/-!
# Call sessions

A sequence of commands, each with the records and callables as they are when it is
carried out.  An error is the answer of its command, and the session goes on.  The
answers are given when the session is over, so that each log that was asked for is
the complete one.
-/

namespace Sexp.Session

/-- One step of a session. -/
inductive Command where
  | call (f : Callable) (args : List Form) (table : External)
  /-- Call a method without counting the arguments first. -/
  | invoke (method : String) (args : List Form) (table : External)
  | checkArity (f : Callable) (given : Int)
  | getRecord (value : Form)
  | typeName (value : Form)
  /-- Show the calls of a record's methods. -/
  | log (record : String)
  deriving Repr

/-- The answer to a command. -/
inductive Answer where
  | value (form : Form)
  | error (cause : CallError)
  | name (text : String)
  | log (calls : List Dispatch)
  deriving Repr

/-- A result as an answer. -/
def Answer.ofResult : Except CallError Form → Answer
  | .ok form => .value form
  | .error cause => .error cause

/-- What a command adds to the journal. -/
def Command.entries (registry : Registry) : Command → Journal
  | .call f args table => (f.call registry args table).entries
  | .invoke method args table => (invokeMethod registry method args table).entries
  | _ => []

/-- The answer to a command in a session that ends with the given journal. -/
def Command.answer (registry : Registry) (complete : Journal) : Command → Answer
  | .call f args table => .ofResult (f.call registry args table).result
  | .invoke method args table => .ofResult (invokeMethod registry method args table).result
  | .checkArity f given => .ofResult ((f.checkArity given).map fun _ => .external .null)
  | .getRecord value => .ofResult ((value.asRecord registry).map .record)
  | .typeName value => .name (value.typeName registry)
  | .log record => .log (complete.of record)

/-- A command, and the registry at the time: a record may answer one call in one way
and the next call in another. -/
structure Step where
  registry : Registry
  command : Command

/-- The journal after further steps. -/
def journal : Journal → List Step → Journal
  | before, [] => before
  | before, step :: steps => journal (before ++ step.command.entries step.registry) steps

/-- The answers to the commands of a session, in order. -/
def answersTo (steps : List Step) : List Answer :=
  steps.map fun step => step.command.answer step.registry (journal [] steps)

/-- The answers to commands under one registry. -/
def answers (registry : Registry) (commands : List Command) : List Answer :=
  answersTo (commands.map fun command => ⟨registry, command⟩)

end Sexp.Session
