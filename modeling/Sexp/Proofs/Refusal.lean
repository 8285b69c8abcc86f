import Sexp.Grammar.Progress
import Sexp.Proofs.Run

namespace Sexp.Grammar

open Sexp.Text

/-- The number that a text begins with, if its decimal lies within the limits,
together with its written form. -/
def number? (cs : List Char) : Option (Numeral × Decimal) :=
  (Numeral.scan? cs).bind fun taken => taken.1.toDecimal?.map fun value => (taken.1, value)

theorem number_eq_match (c : Cursor) :
    number c =
      match number? c.rest with
      | some (numeral, value) => found (.number value) (c.advance numeral.text.length)
      | none => expected c (.shape .number) := by
  unfold number number?
  cases Numeral.scan? c.rest with
  | none => rfl
  | some taken =>
      obtain ⟨numeral, behind⟩ := taken
      simp only [Option.bind_some]
      cases numeral.toDecimal? <;> rfl

theorem number_of_number? {c : Cursor} {numeral : Numeral} {value : Decimal}
    (h : number? c.rest = some (numeral, value)) :
    number c = found (.number value) (c.advance numeral.text.length) := by
  rw [number_eq_match, h]

theorem number_of_number?_eq_none {c : Cursor} (h : number? c.rest = none) :
    number c = expected c (.shape .number) := by
  rw [number_eq_match, h]

/-- A number begins with a digit, a sign or a point. -/
def beginsNumber (ch : Char) : Bool :=
  ch.isDigit || ['+', '-', '.'].contains ch

theorem number?_eq_none {cs : List Char} (h : EndsRun beginsNumber cs) :
    number? cs = none := by
  suffices Numeral.scan? cs = none by simp [number?, this]
  cases cs with
  | nil => rfl
  | cons ch cs =>
      have hch := h.head
      simp only [beginsNumber, List.contains_cons, List.contains_nil, Bool.or_false,
        Bool.or_eq_false_iff, beq_eq_false_iff_ne] at hch
      obtain ⟨hdigit, hplus, hminus, hpoint⟩ := hch
      have hsign : Sign.scan (ch :: cs) = (none, ch :: cs) := by
        unfold Sign.scan
        split <;> simp_all
      have hmantissa : Mantissa.scan? (ch :: cs) = none := by
        simp [Mantissa.scan?, hdigit, hpoint]
      simp [Numeral.scan?, hsign, hmantissa]

theorem number_refuses {c : Cursor} (h : EndsRun beginsNumber c.rest) :
    number c = expected c (.shape .number) :=
  number_of_number?_eq_none (number?_eq_none h)

theorem after?_eq_none {c : Cursor} {mark : Char} (h : c.rest.head? ≠ some mark) :
    c.after? [mark] = none := by
  cases hafter : c.after? [mark] with
  | none => rfl
  | some d =>
      have hrest := (Cursor.after?_eq_some_iff.1 hafter).1
      exact absurd (by simp [hrest]) h

theorem after?_of_rest {c : Cursor} {mark : Char} {cs : List Char}
    (h : c.rest = mark :: cs) : c.after? [mark] = some ⟨c.pos + 1, cs⟩ :=
  Cursor.after?_eq_some_iff.2 ⟨h, rfl⟩

theorem parenthesized_refuses {contents : Recognizer α} {c : Cursor}
    (h : c.rest.head? ≠ some '(') : parenthesized contents c = expected c .openParen := by
  simp only [parenthesized, after?_eq_none h]

theorem listOf_refuses {contents : Recognizer (List Form)} {c : Cursor}
    (h : c.rest.head? ≠ some '(') : listOf contents c = expected c .openParen := by
  rw [listOf, parenthesized_refuses h]
  rfl

theorem marked_refuses {mark : Char} {shape : Shape} {build : List Form → Form}
    {contents : Recognizer (List Form)} {c : Cursor} (h : c.rest.head? ≠ some mark) :
    marked mark shape build contents c = expected c (.shape shape) := by
  simp only [marked, after?_eq_none h]

theorem quoteOf_refuses {contents : Recognizer (List Form)} {c : Cursor}
    (h : c.rest.head? ≠ some '\'') : quoteOf contents c = expected c (.shape .quote) :=
  marked_refuses h

theorem tupleOf_refuses {contents : Recognizer (List Form)} {c : Cursor}
    (h : c.rest.head? ≠ some '^') : tupleOf contents c = expected c (.shape .tuple) :=
  marked_refuses h

theorem string_refuses {c : Cursor} (h : c.rest.head? ≠ some '"') :
    string c = expected c (.shape .string) := by
  simp only [string, after?_eq_none h]

theorem boolean_refuses {c : Cursor} (h : ∀ ch ∈ c.rest.head?, ch ≠ 't' ∧ ch ≠ 'f') :
    boolean c = expected c (.shape .boolean) := by
  have hword : ∀ word : List Char, word.head? = some 't' ∨ word.head? = some 'f' →
      c.after? word = none := by
    intro word hword
    cases hafter : c.after? word with
    | none => rfl
    | some d =>
        have hrest := (Cursor.after?_eq_some_iff.1 hafter).1
        cases word with
        | nil => simp at hword
        | cons ch word =>
            have := h ch (by simp [hrest])
            simp_all
  simp only [boolean, hword "true".toList (.inl rfl), hword "false".toList (.inr rfl)]

theorem symbol_refuses {c : Cursor} (h : EndsRun isSymbolChar c.rest) :
    symbol c = expected c (.shape .symbol) := by
  have hname : c.rest.takeWhile isSymbolChar = [] := h.takeWhile_eq_nil
  simp [symbol, hname]

theorem symbol_of_symbolChar {c : Cursor} {ch : Char} (hhead : c.rest.head? = some ch)
    (hch : isSymbolChar ch = true) :
    symbol c =
      found (Form.ofSymbolText (c.rest.takeWhile isSymbolChar))
        (c.advance (c.rest.takeWhile isSymbolChar).length) := by
  obtain ⟨cs, hrest⟩ : ∃ cs, c.rest = ch :: cs := by
    cases hcs : c.rest <;> simp_all
  simp [symbol, hrest, hch]

end Sexp.Grammar
