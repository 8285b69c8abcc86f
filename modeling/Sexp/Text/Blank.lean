namespace Sexp.Text

/-- Whether the code point of a character lies in one of the closed ranges. -/
def within (ranges : List (Nat × Nat)) (c : Char) : Bool :=
  ranges.any fun range => range.1 ≤ c.toNat && c.toNat ≤ range.2

/-- The code points with the Unicode property White_Space. -/
def blankRanges : List (Nat × Nat) :=
  [(0x09, 0x0D), (0x20, 0x20), (0x85, 0x85), (0xA0, 0xA0), (0x1680, 0x1680),
    (0x2000, 0x200A), (0x2028, 0x2029), (0x202F, 0x202F), (0x205F, 0x205F),
    (0x3000, 0x3000)]

/-- A blank character separates forms and means nothing else. -/
def isBlank (c : Char) : Bool :=
  within blankRanges c

/-- The information separators.  They are ordinary characters of a source text
and are dropped only where a text is stripped at its ends. -/
def separators : List Char :=
  ['\x1c', '\x1d', '\x1e', '\x1f']

/-- The characters dropped at the ends of a text that is handed over whole. -/
def isStripped (c : Char) : Bool :=
  isBlank c || separators.contains c

/-- Drop stripped characters at both ends. -/
def strip (text : List Char) : List Char :=
  ((text.dropWhile isStripped).reverse.dropWhile isStripped).reverse

end Sexp.Text
