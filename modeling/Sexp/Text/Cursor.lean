/-!
# Cursors

A place in a source text, kept as its position together with the characters
that follow it.  A cursor looks ahead only, so nothing that is read at a cursor
depends on the text before it.
-/

namespace Sexp.Text

/-- A place in a source text: how many characters precede it, and the
characters from there on.  The position may lie past the end of the text. -/
structure Cursor where
  pos : Nat
  rest : List Char
  deriving DecidableEq, Repr

namespace Cursor

/-- The cursor at a position of a text. -/
def ofText (text : List Char) (pos : Nat) : Cursor :=
  ⟨pos, text.drop pos⟩

/-- Move forward over the given number of characters. -/
def advance (c : Cursor) (n : Nat) : Cursor :=
  ⟨c.pos + n, c.rest.drop n⟩

/-- Move over a fixed word, if the text goes on with it. -/
def after? (c : Cursor) (word : List Char) : Option Cursor :=
  if word.isPrefixOf c.rest then some (c.advance word.length) else none

@[simp]
theorem advance_zero (c : Cursor) : c.advance 0 = c := rfl

theorem length_rest_advance (c : Cursor) (n : Nat) :
    (c.advance n).rest.length = c.rest.length - n := by
  simp [advance]

section Position

variable {text taken behind : List Char} {pos : Nat}

theorem ofText_advance (text : List Char) (pos n : Nat) :
    (ofText text pos).advance n = ofText text (pos + n) := by
  rw [advance, ofText, List.drop_drop]
  rfl

theorem ofText_add_length (h : text.drop pos = taken ++ behind) :
    ofText text (pos + taken.length) = ⟨pos + taken.length, behind⟩ := by
  rw [ofText, ← List.drop_drop, h, List.drop_left]

theorem head?_ofText (text : List Char) (pos : Nat) :
    (ofText text pos).rest.head? = text[pos]? :=
  List.head?_drop

theorem rest_ofText_eq_cons {ch : Char} (h : text[pos]? = some ch) :
    (ofText text pos).rest = ch :: (ofText text (pos + 1)).rest := by
  rcases List.getElem?_eq_some_iff.1 h with ⟨hlt, rfl⟩
  exact List.drop_eq_getElem_cons hlt

end Position

theorem after?_eq_some_iff {c d : Cursor} {word : List Char} :
    c.after? word = some d ↔
      c.rest = word ++ d.rest ∧ d.pos = c.pos + word.length := by
  unfold after?
  split
  case isTrue h =>
    obtain ⟨tail, htail⟩ := List.isPrefixOf_iff_prefix.1 h
    constructor
    · rintro ⟨⟩
      simp [advance, ← htail]
    · rintro ⟨hrest, hpos⟩
      obtain ⟨pos, rest⟩ := d
      simp_all [advance]
  case isFalse h =>
    constructor
    · rintro ⟨⟩
    · rintro ⟨hrest, _⟩
      exact absurd (List.isPrefixOf_iff_prefix.2 ⟨_, hrest.symm⟩) h

end Cursor

end Sexp.Text
