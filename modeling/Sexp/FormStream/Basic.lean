import Sexp.Form.Printer
import Sexp.Grammar.Progress
import Sexp.ReadError

/-!
# Streams of forms

A source text read one form at a time.  A stream yields forms and then at most
one error, after which it is done; it is also done once only ignorable text is
left.  `drain` takes everything a stream still yields and `readAll` reads a
whole text or reports why it cannot be read.

A traced stream writes a line about each item that it yields.
-/

namespace Sexp

open Grammar Text

/-- What a stream yields. -/
inductive Item where
  | form (value : Form)
  | error (report : ReadError)
  deriving Repr

/-- The line that is written about an item. -/
def Item.traceLine : Item → String
  | .form value => "[reader] read: " ++ value.print ++ "\n"
  | .error report => "[reader] error: " ++ report.message ++ "\n"

/-- A source text, the place up to which it is read, whether reading it has come
to an end, and how deeply its forms may be nested. -/
structure FormStream where
  source : List Char
  cursor : Cursor
  done : Bool
  traced : Bool
  limit : NestingLimit
  deriving DecidableEq, Repr

namespace FormStream

/-- A stream from the beginning of a text. -/
def start (source : List Char) (traced : Bool) (limit : NestingLimit := .standard) :
    FormStream :=
  ⟨source, ⟨0, source⟩, false, traced, limit⟩

/-- The text that is not read yet. -/
def remaining (s : FormStream) : List Char :=
  s.cursor.rest

/-- Read the next form, if the stream is not done and text is left. -/
def attempt (s : FormStream) : Option (Except Failure (Match Form)) :=
  if s.done then none
  else if s.cursor.skip.rest.isEmpty then none
  else some ((expression s.limit.levels s.cursor.skip).result s.cursor.skip.pos)

/-- The stream when it yields nothing more.  Ignorable text at the end counts as
read. -/
def stopped (s : FormStream) : FormStream :=
  if s.done then s else { s with cursor := s.cursor.skip, done := true }

/-- What one step yields, the stream after it, and the text written by it. -/
structure Step where
  item : Option Item
  stream : FormStream
  written : String

/-- The step that yields an item. -/
def yielding (s : FormStream) (item : Item) : Step :=
  ⟨some item, s, if s.traced then item.traceLine else ""⟩

/-- Take one step.  A failure leaves the cursor where it was. -/
def next (s : FormStream) : Step :=
  match s.attempt with
  | none => ⟨none, s.stopped, ""⟩
  | some (.ok m) => { s with cursor := m.next }.yielding (.form m.value)
  | some (.error f) => { s with done := true }.yielding (.error (f.report s.source))

/-- A bound on the items that a stream still yields. -/
def bound (s : FormStream) : Nat :=
  if s.done then 0 else s.cursor.rest.length + 1

theorem bound_next_lt {s : FormStream} {item : Item} (h : s.next.item = some item) :
    s.next.stream.bound < s.bound := by
  have hattempt : s.attempt ≠ none := by
    intro hnone
    simp [next, hnone] at h
  have hrunning : s.done = false := by
    cases hdone : s.done with
    | false => rfl
    | true => simp [attempt, hdone] at hattempt
  unfold next
  split
  · contradiction
  · rename_i m hm
    have hmatched : expression s.limit.levels s.cursor.skip = .matched m := by
      simp only [attempt, hrunning] at hm
      split at hm
      · contradiction
      · split at hm
        · contradiction
        · cases hreply : expression s.limit.levels s.cursor.skip <;>
            simp_all [Reply.result]
    have hless := expression_consumes s.limit.levels _ _ hmatched
    have hskip := s.cursor.length_rest_skip_le
    simp only [yielding, bound, hrunning]
    simp
    omega
  · simp [yielding, bound, hrunning]

/-- All items that a stream still yields, the stream after them, and the text
written meanwhile. -/
structure Drained where
  items : List Item
  stream : FormStream
  written : String

/-- Take steps until the stream yields nothing more. -/
def drain (s : FormStream) : Drained :=
  let step := s.next
  if step.item.isSome then
    let later := drain step.stream
    ⟨step.item.toList ++ later.items, later.stream, step.written ++ later.written⟩
  else
    ⟨[], step.stream, step.written⟩
termination_by s.bound
decreasing_by
  obtain ⟨item, hitem⟩ := Option.isSome_iff_exists.1 (by assumption)
  exact bound_next_lt hitem

theorem drain_of_next_none {s : FormStream} (h : s.next.item = none) :
    s.drain = ⟨[], s.next.stream, s.next.written⟩ := by
  rw [drain]
  simp [h]

theorem drain_of_next_some {s : FormStream} {item : Item} (h : s.next.item = some item) :
    s.drain =
      ⟨item :: s.next.stream.drain.items, s.next.stream.drain.stream,
        s.next.written ++ s.next.stream.drain.written⟩ := by
  rw [drain]
  simp [h]

end FormStream

/-- The forms among items, or the first error. -/
def Item.collect : List Item → Except ReadError (List Form)
  | [] => .ok []
  | .form value :: items => (Item.collect items).map (value :: ·)
  | .error report :: _ => .error report

/-- All forms of a text, or the report why it cannot be read. -/
def readAll (source : List Char) (limit : NestingLimit := .standard) :
    Except ReadError (List Form) :=
  Item.collect (FormStream.start source false limit).drain.items

end Sexp
