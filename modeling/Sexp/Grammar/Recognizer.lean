import Sexp.Grammar.Failure
import Sexp.Text.Ignorable

/-!
# Recognizers

A recognizer looks at the text behind a cursor and replies with a match or a
failure.  This module combines recognizers: one of several, one in parentheses,
and one after the other as often as possible.
-/

namespace Sexp.Grammar

open Sexp.Text

/-- A recognized part of the text: its value and the cursor behind it.  A
repetition keeps the failure that stopped it. -/
structure Match (α : Type) where
  value : α
  next : Cursor
  stoppedBy : Option Failure
  deriving Repr

/-- What a recognizer replies.  It gives up when parentheses are nested too
deep, wherever in a form that is. -/
inductive Reply (α : Type) where
  | matched (m : Match α)
  | failed (f : Failure)
  | tooDeep
  deriving Repr

/-- A recognizer of values of one type. -/
abbrev Recognizer (α : Type) := Cursor → Reply α

namespace Reply

/-- Go on behind a match. -/
def bind (reply : Reply α) (next : Match α → Reply β) : Reply β :=
  match reply with
  | .matched m => next m
  | .failed f => .failed f
  | .tooDeep => .tooDeep

/-- Change the value of a match. -/
def map (f : α → β) (reply : Reply α) : Reply β :=
  reply.bind fun m => .matched ⟨f m.value, m.next, m.stoppedBy⟩

/-- Change a failure. -/
def mapFailure (change : Failure → Failure) : Reply α → Reply α
  | .matched m => .matched m
  | .failed f => .failed (change f)
  | .tooDeep => .tooDeep

/-- The reply as a result.  A form nested too deep fails at the given place. -/
def result (pos : Nat) : Reply α → Except Failure (Match α)
  | .matched m => .ok m
  | .failed f => .error f
  | .tooDeep => .error (.tooDeep pos)

end Reply

/-- The match of a value that ends at a cursor. -/
def found (value : α) (next : Cursor) : Reply α :=
  .matched ⟨value, next, none⟩

/-- An uncommitted failure at a cursor. -/
def expected (c : Cursor) (expectation : Expectation) : Reply α :=
  .failed (.expecting c.pos expectation)

/-- The first of several recognizers that matches.  A committed failure is the
reply at once; if all fail, the failure that got furthest is. -/
def firstOf (c : Cursor) (furthest : Failure) : List (Recognizer α) → Reply α
  | [] => .failed furthest
  | recognizer :: others =>
      match recognizer c with
      | .failed f =>
          if f.committed then .failed f else firstOf c (furthest.orFurther f) others
      | reply => reply

/-- The failure at a place where a parenthesis has to be closed.  If the contents
stopped at a place further on, that is what is wrong with the text. -/
def unclosed (pos : Nat) : Option Failure → Failure
  | none => ⟨pos, .closeParen, true, [.closingParen]⟩
  | some f => if pos < f.pos then f.commit else ⟨pos, .closeParen, true, [.closingParen]⟩

/-- Close the parenthesis behind its contents. -/
def closeParen (contents : Match α) : Reply α :=
  let close := contents.next.skip
  match close.after? [')'] with
  | some next => found contents.value next
  | none => .failed (unclosed close.pos contents.stoppedBy)

/-- What the given recognizer finds, in parentheses. -/
def parenthesized (contents : Recognizer α) : Recognizer α := fun c =>
  match c.after? ['('] with
  | some inside => (contents inside.skip).bind closeParen
  | none => expected c .openParen

/-- What the given recognizer finds, in several pairs of parentheses. -/
def parenthesizedTimes : Nat → Recognizer α → Recognizer α
  | 0, contents => contents
  | n + 1, contents => parenthesized (parenthesizedTimes n contents)

/-- As many items as there are.  An uncommitted failure ends the repetition and
is kept; an item that takes no text would end it too. -/
def repeated (item : Recognizer α) (c : Cursor) : Reply (List α) :=
  match item c with
  | .tooDeep => .tooDeep
  | .failed f => if f.committed then .failed f else .matched ⟨[], c, some f⟩
  | .matched m =>
      if m.next.rest.length < c.rest.length then
        (repeated item m.next).map (m.value :: ·)
      else
        found [] c
termination_by c.rest.length

end Sexp.Grammar
