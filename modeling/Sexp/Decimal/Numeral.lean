import Sexp.Decimal.Basic

namespace Sexp

/-- A written sign. -/
inductive Sign where
  | plus
  | minus
  deriving DecidableEq, Repr

/-- The digits of a numeral.  The fraction is absent when there is no point, and
empty when the point ends the digits. -/
structure Mantissa where
  whole : List Char
  fraction : Option (List Char)
  deriving DecidableEq, Repr

/-- The power of ten at the end of a numeral, such as `e-7`. -/
structure Power where
  marker : Char
  sign : Option Sign
  digits : List Char
  deriving DecidableEq, Repr

/-- A written number. -/
structure Numeral where
  sign : Option Sign
  mantissa : Mantissa
  power : Option Power
  deriving DecidableEq, Repr

namespace Sign

/-- How an optional sign is written. -/
def text : Option Sign → List Char
  | none => []
  | some .plus => ['+']
  | some .minus => ['-']

/-- Take the sign that a text begins with. -/
def scan : List Char → Option Sign × List Char
  | '+' :: cs => (some .plus, cs)
  | '-' :: cs => (some .minus, cs)
  | cs => (none, cs)

/-- A signed number from its sign and its absolute value. -/
def apply : Option Sign → Nat → Int
  | some .minus, n => -n
  | _, n => n

theorem text_append_scan (cs : List Char) : text (scan cs).1 ++ (scan cs).2 = cs := by
  unfold scan
  split <;> rfl

end Sign

namespace Mantissa

/-- The mantissa as it was written. -/
def text (m : Mantissa) : List Char :=
  match m.fraction with
  | none => m.whole
  | some fraction => m.whole ++ '.' :: fraction

/-- The digits behind the point. -/
def places (m : Mantissa) : List Char :=
  m.fraction.getD []

/-- The number that all the digits spell. -/
def coefficient (m : Mantissa) : Nat :=
  Nat.ofDigitChars 10 (m.whole ++ m.places) 0

/-- Take digits with at most one point among them.  There must be a digit on
one of its sides. -/
def scan? (cs : List Char) : Option (Mantissa × List Char) :=
  match cs.dropWhile Char.isDigit with
  | '.' :: behind =>
      if cs.takeWhile Char.isDigit = [] ∧ behind.takeWhile Char.isDigit = [] then none
      else
        some (⟨cs.takeWhile Char.isDigit, some (behind.takeWhile Char.isDigit)⟩,
          behind.dropWhile Char.isDigit)
  | behind =>
      if cs.takeWhile Char.isDigit = [] then none
      else some (⟨cs.takeWhile Char.isDigit, none⟩, behind)

theorem text_append_of_scan {cs : List Char} {m : Mantissa} {rest : List Char}
    (h : scan? cs = some (m, rest)) : m.text ++ rest = cs := by
  have parts := List.takeWhile_append_dropWhile (p := Char.isDigit) (l := cs)
  unfold scan? at h
  split at h
  · rename_i behind hbehind
    split at h
    · simp at h
    · simp only [Option.some.injEq, Prod.mk.injEq] at h
      obtain ⟨rfl, rfl⟩ := h
      rw [hbehind] at parts
      simpa [text] using parts
  · split at h
    · simp at h
    · simp only [Option.some.injEq, Prod.mk.injEq] at h
      obtain ⟨rfl, rfl⟩ := h
      exact parts

theorem text_ne_nil_of_scan {cs : List Char} {m : Mantissa} {rest : List Char}
    (h : scan? cs = some (m, rest)) : m.text ≠ [] := by
  unfold scan? at h
  split at h
  · split at h
    · simp at h
    · simp only [Option.some.injEq, Prod.mk.injEq] at h
      obtain ⟨rfl, rfl⟩ := h
      simp [text]
  · split at h
    · simp at h
    · simp only [Option.some.injEq, Prod.mk.injEq] at h
      obtain ⟨rfl, rfl⟩ := h
      assumption

end Mantissa

namespace Power

/-- The power of ten as it was written. -/
def text (p : Power) : List Char :=
  p.marker :: (Sign.text p.sign ++ p.digits)

/-- How an optional power of ten is written. -/
def optionText : Option Power → List Char
  | none => []
  | some p => p.text

/-- The exponent that an optional power of ten denotes. -/
def exponent : Option Power → Int
  | none => 0
  | some p => Sign.apply p.sign (Nat.ofDigitChars 10 p.digits 0)

/-- Take the power of ten that a text begins with.  A marker without digits is
none. -/
def scan : List Char → Option Power × List Char
  | [] => (none, [])
  | c :: cs =>
      if (c = 'e' ∨ c = 'E') ∧ (Sign.scan cs).2.takeWhile Char.isDigit ≠ [] then
        (some ⟨c, (Sign.scan cs).1, (Sign.scan cs).2.takeWhile Char.isDigit⟩,
          (Sign.scan cs).2.dropWhile Char.isDigit)
      else (none, c :: cs)

theorem optionText_append_scan (cs : List Char) :
    optionText (scan cs).1 ++ (scan cs).2 = cs := by
  cases cs with
  | nil => rfl
  | cons c cs =>
      simp only [scan]
      split
      · simp [optionText, text, Sign.text_append_scan]
      · rfl

end Power

namespace Numeral

/-- The numeral as it was written. -/
def text (n : Numeral) : List Char :=
  Sign.text n.sign ++ (n.mantissa.text ++ Power.optionText n.power)

/-- Take the longest numeral that a text begins with, and give what follows. -/
def scan? (cs : List Char) : Option (Numeral × List Char) :=
  match Mantissa.scan? (Sign.scan cs).2 with
  | none => none
  | some (mantissa, behind) =>
      some (⟨(Sign.scan cs).1, mantissa, (Power.scan behind).1⟩, (Power.scan behind).2)

/-- The decimal that a numeral denotes, with all its digits, if it lies within
the limits. -/
def toDecimal? (n : Numeral) : Option Decimal :=
  Decimal.finite? (n.sign == some .minus) n.mantissa.coefficient
    (Power.exponent n.power - n.mantissa.places.length)

theorem text_append_of_scan {cs : List Char} {n : Numeral} {rest : List Char}
    (h : scan? cs = some (n, rest)) : n.text ++ rest = cs := by
  unfold scan? at h
  split at h
  · simp at h
  · rename_i mantissa behind hmantissa
    simp only [Option.some.injEq, Prod.mk.injEq] at h
    obtain ⟨rfl, rfl⟩ := h
    simp only [text, List.append_assoc, Power.optionText_append_scan,
      Mantissa.text_append_of_scan hmantissa, Sign.text_append_scan]

theorem text_ne_nil_of_scan {cs : List Char} {n : Numeral} {rest : List Char}
    (h : scan? cs = some (n, rest)) : n.text ≠ [] := by
  unfold scan? at h
  split at h
  · simp at h
  · rename_i mantissa behind hmantissa
    simp only [Option.some.injEq, Prod.mk.injEq] at h
    obtain ⟨rfl, rfl⟩ := h
    simp [text, Mantissa.text_ne_nil_of_scan hmantissa]

end Numeral

end Sexp
