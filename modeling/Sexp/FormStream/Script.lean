import Sexp.FormStream.Basic

namespace Sexp.FormStream

open Grammar

/-- One step of a script. -/
inductive Command where
  /-- Begin to read a text under a name, in place of what the name stood for. -/
  | create (name : String) (source : List Char) (limit : NestingLimit := .standard)
  | next (name : String)
  | drain (name : String)
  deriving Repr

/-- The name that a command concerns. -/
def Command.name : Command → String
  | .create name _ _ => name
  | .next name => name
  | .drain name => name

/-- What a command results in. -/
inductive Result where
  | created
  | yielded (item : Item)
  | stopped
  | drained (items : List Item)
  deriving Repr

/-- The answer to a command: its result and the stream after it. -/
structure Answer where
  result : Result
  stream : FormStream
  deriving Repr

/-- Streams under names.  The first entry of a name counts. -/
abbrev Streams := List (String × FormStream)

/-- The answer of a command about a stream. -/
def Command.answer : Command → Option FormStream → Option Answer
  | .create _ source limit, _ => some ⟨.created, start source false limit⟩
  | .next _, some s =>
      match s.next.item with
      | some item => some ⟨.yielded item, s.next.stream⟩
      | none => some ⟨.stopped, s.next.stream⟩
  | .drain _, some s => some ⟨.drained s.drain.items, s.drain.stream⟩
  | _, none => none

/-- The answers of the commands in order.  A command about a name that stands
for no stream has none. -/
def runScript : Streams → List Command → List (Option Answer)
  | _, [] => []
  | streams, command :: commands =>
      match command.answer (streams.lookup command.name) with
      | some answer =>
          some answer :: runScript ((command.name, answer.stream) :: streams) commands
      | none => none :: runScript streams commands

end Sexp.FormStream
