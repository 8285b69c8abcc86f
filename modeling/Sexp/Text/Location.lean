namespace Sexp.Text

/-- A line and a column, both counted from one, and the text of that line
without its line feed. -/
structure Location where
  line : Nat
  column : Nat
  lineText : List Char
  deriving DecidableEq, Repr

/-- The length of the last line of a text. -/
def lastLineLength (text : List Char) : Nat :=
  (text.reverse.takeWhile (· != '\n')).length

/-- The location of a position.  Columns past the end of the text go on
counting in its last line. -/
def locate (text : List Char) (pos : Nat) : Location :=
  let before := text.take pos
  let lineStart := before.length - lastLineLength before
  { line := before.count '\n' + 1
    column := pos - lineStart + 1
    lineText := (text.drop lineStart).takeWhile (· != '\n') }

end Sexp.Text
