import Sexp.Text.Blank
import Sexp.Text.Cursor

namespace Sexp.Text

/-- The number of ignorable characters that a text begins with.  The flag tells
whether the text begins inside a comment. -/
def ignorableLength : Bool → List Char → Nat
  | _, [] => 0
  | true, c :: cs => ignorableLength (c != '\n') cs + 1
  | false, c :: cs =>
      if isBlank c then ignorableLength false cs + 1
      else if c = ';' then ignorableLength true cs + 1
      else 0

/-- Move over everything ignorable. -/
def Cursor.skip (c : Cursor) : Cursor :=
  c.advance (ignorableLength false c.rest)

theorem ignorableLength_le (comment : Bool) (cs : List Char) :
    ignorableLength comment cs ≤ cs.length := by
  fun_induction ignorableLength comment cs <;> simp_all

theorem ignorableLength_drop (comment : Bool) (cs : List Char) :
    ignorableLength false (cs.drop (ignorableLength comment cs)) = 0 := by
  fun_induction ignorableLength comment cs with
  | case1 => rfl
  | case2 c cs ih => simpa using ih
  | case3 c cs hblank ih => simpa using ih
  | case4 cs hblank ih => simpa using ih
  | case5 c cs hblank hcomment => simp [ignorableLength, hblank, hcomment]

namespace Cursor

theorem length_rest_skip_le (c : Cursor) : c.skip.rest.length ≤ c.rest.length := by
  simp [skip, length_rest_advance]

@[simp]
theorem skip_skip (c : Cursor) : c.skip.skip = c.skip := by
  have h := ignorableLength_drop false c.rest
  simp [skip, advance, h]

end Cursor

end Sexp.Text
