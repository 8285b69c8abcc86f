import Sexp.Decimal.OfText
import Sexp.Proofs.Digits
import Sexp.Proofs.Image

namespace Sexp

open Grammar Text

theorem Mantissa.wellFormed_of_scan {cs rest : List Char} {m : Mantissa}
    (h : scan? cs = some (m, rest)) : m.WellFormed := by
  have hdigits : ∀ {ds : List Char} {ch : Char}, ch ∈ ds.takeWhile Char.isDigit →
      ch.isDigit = true := fun hch => List.mem_takeWhile_imp hch
  unfold scan? at h
  split at h
  · split at h
    · cases h
    · rename_i hne
      cases h
      constructor
      · exact fun ch hch => hdigits hch
      · exact fun ch hch => hdigits hch
      · rw [ne_eq, List.append_eq_nil_iff]
        exact hne
  · split at h
    · cases h
    · rename_i hne
      cases h
      constructor
      · exact fun ch hch => hdigits hch
      · simp [places]
      · simpa [places] using hne

theorem Power.wellFormed_of_scan {cs : List Char} {p : Power} (h : (scan cs).1 = some p) :
    p.WellFormed := by
  cases cs with
  | nil => cases h
  | cons ch cs =>
      rw [scan] at h
      split at h
      · rename_i hmarker
        cases h
        exact ⟨hmarker.1, fun ch hch => List.mem_takeWhile_imp hch, hmarker.2⟩
      · cases h

theorem Numeral.wellFormed_of_scan {cs rest : List Char} {n : Numeral}
    (h : scan? cs = some (n, rest)) : n.WellFormed := by
  unfold scan? at h
  split at h
  · cases h
  · rename_i mantissa behind hmantissa
    cases h
    exact ⟨Mantissa.wellFormed_of_scan hmantissa, fun p hp => Power.wellFormed_of_scan hp⟩

theorem Mantissa.WellFormed.exists_scan? {m : Mantissa} (h : m.WellFormed) (behind : List Char) :
    ∃ found rest, scan? (m.text ++ behind) = some (found, rest) ∧
      m.text.length ≤ found.text.length := by
  rcases m with ⟨whole, _ | fraction⟩
  · have hwhole : whole ≠ [] := by simpa [places] using h.digits_ne_nil
    have htake : (whole ++ behind).takeWhile Char.isDigit =
        whole ++ behind.takeWhile Char.isDigit :=
      List.takeWhile_append_of_pos h.whole_digits
    have hne : whole ++ behind.takeWhile Char.isDigit ≠ [] :=
      List.append_ne_nil_of_left_ne_nil hwhole _
    show ∃ found rest, scan? (whole ++ behind) = some (found, rest) ∧
      whole.length ≤ found.text.length
    unfold scan?
    rw [htake]
    split
    · rw [if_neg fun hnil => hne hnil.1]
      exact ⟨_, _, rfl, by simp only [text, List.length_append]; omega⟩
    · rw [if_neg hne]
      exact ⟨_, _, rfl, by simp only [text, List.length_append]; omega⟩
  · have hfraction : ∀ ch ∈ fraction, ch.isDigit = true := h.places_digits
    have hends : EndsRun Char.isDigit ('.' :: (fraction ++ behind)) := .cons (by decide)
    have htext : (Mantissa.mk whole (some fraction)).text ++ behind =
        whole ++ '.' :: (fraction ++ behind) := by
      rw [text, List.append_assoc, List.cons_append]
    have hne : ¬(whole = [] ∧ fraction ++ behind.takeWhile Char.isDigit = []) := by
      rintro ⟨rfl, hnil⟩
      exact h.digits_ne_nil (List.append_eq_nil_iff.1 hnil).1
    rw [htext, scan?, hends.takeWhile_append_of_all h.whole_digits,
      hends.dropWhile_append_of_all h.whole_digits]
    simp only [List.takeWhile_append_of_pos hfraction, if_neg hne]
    refine ⟨_, _, rfl, ?_⟩
    simp only [text, List.length_append, List.length_cons]
    omega

namespace Numeral

variable {n : Numeral} {cs rest : List Char}

theorem WellFormed.exists_scan? (h : n.WellFormed) (behind : List Char) :
    ∃ found rest, scan? (n.text ++ behind) = some (found, rest) ∧
      n.text.length ≤ found.text.length := by
  rcases n with ⟨sign, m, _ | p⟩
  · have hm : m.WellFormed := h.mantissa
    rcases hm.exists_scan? behind with ⟨m', rest, hm', hlength⟩
    have hsign := hm.scan_sign sign behind
    rw [text, Power.optionText, List.append_nil, List.append_assoc, scan?, hsign, hm']
    refine ⟨_, _, rfl, ?_⟩
    rw [text, ← List.append_assoc]
    simp only [List.length_append]
    omega
  · have hp : p.WellFormed := h.power p rfl
    have hsign := h.mantissa.scan_sign sign (p.text ++ behind)
    -- the marker of the power ends the mantissa, so that no longer one is found
    have hm : Mantissa.scan? (m.text ++ (p.text ++ behind)) =
        some (m, [] ++ (p.text ++ behind)) := by
      rw [Mantissa.scan?_append (hp.endsRun behind), Mantissa.scan?_text h.mantissa]
      rfl
    rw [text, Power.optionText, List.append_assoc, List.append_assoc, scan?, hsign, hm]
    dsimp only [Option.map_some]
    rw [List.nil_append, hp.scan_text_append]
    refine ⟨_, _, rfl, ?_⟩
    simp only [text, Power.optionText, Power.text, List.length_append, List.length_cons]
    omega

theorem WellFormed.eq_of_text_eq {m : Numeral} (hm : m.WellFormed) (hn : n.WellFormed)
    (h : m.text = n.text) : m = n := by
  have hscan := hm.scan?_text
  rw [h, hn.scan?_text] at hscan
  cases hscan
  rfl

/-- A numeral that a text begins with. -/
structure Begins (n : Numeral) (cs : List Char) : Prop where
  wellFormed : n.WellFormed
  begins : n.text <+: cs

/-- The longest numeral that a text begins with. -/
structure Longest (n : Numeral) (cs : List Char) : Prop extends n.Begins cs where
  length_le {m : Numeral} : m.Begins cs → m.text.length ≤ n.text.length

theorem Begins.exists_scan? (h : n.Begins cs) :
    ∃ found rest, scan? cs = some (found, rest) ∧ n.text.length ≤ found.text.length := by
  rcases h.begins with ⟨behind, rfl⟩
  exact h.wellFormed.exists_scan? behind

theorem longest_of_scan (h : scan? cs = some (n, rest)) : n.Longest cs := by
  refine ⟨⟨wellFormed_of_scan h, rest, text_append_of_scan h⟩, fun hm => ?_⟩
  rcases hm.exists_scan? with ⟨found, rest', hfound, hlength⟩
  rw [h] at hfound
  cases hfound
  exact hlength

theorem Longest.unique {m : Numeral} (hm : m.Longest cs) (hn : n.Longest cs) : m = n := by
  have hlength := Nat.le_antisymm (hn.length_le hm.toBegins) (hm.length_le hn.toBegins)
  have hbegin := List.prefix_of_prefix_length_le hm.begins hn.begins (Nat.le_of_eq hlength)
  exact hm.wellFormed.eq_of_text_eq hn.wellFormed (hbegin.eq_of_length hlength)

theorem Longest.exists_scan? (h : n.Longest cs) : ∃ rest, scan? cs = some (n, rest) := by
  rcases h.toBegins.exists_scan? with ⟨found, rest, hfound, -⟩
  rw [h.unique (longest_of_scan hfound)]
  exact ⟨rest, hfound⟩

theorem scan?_eq_none (h : ∀ n : Numeral, ¬n.Begins cs) : scan? cs = none := by
  rw [Option.eq_none_iff_forall_ne_some]
  rintro ⟨n, rest⟩ hscan
  exact h n (longest_of_scan hscan).toBegins

/-- The exponent of the last digit. -/
def exponent (n : Numeral) : Int :=
  Power.exponent n.power - n.mantissa.places.length

/-- The digits without the zeros that they begin with. -/
def significantDigits (n : Numeral) : List Char :=
  (n.mantissa.whole ++ n.mantissa.places).dropWhile (· == '0')

/-- The exponent of the first digit that is no zero, and of the last digit if all of them
are. -/
def leadingExponent (n : Numeral) : Int :=
  if n.significantDigits = [] then n.exponent
  else n.exponent + n.significantDigits.length - 1

/-- No decimal has the exponents of the numeral. -/
def OutOfRange (n : Numeral) : Prop :=
  n.exponent < -1999999999999999997 ∨ 999999999999999999 < n.leadingExponent

instance (n : Numeral) : Decidable n.OutOfRange :=
  inferInstanceAs (Decidable (_ ∨ _))

/-- The decimal has the sign, the digits and the exponent of the numeral. -/
def Denotes (n : Numeral) (x : Decimal) : Prop :=
  ∃ limits, x = .finite (n.sign == some .minus)
    (Nat.ofDigitChars 10 (n.mantissa.whole ++ n.mantissa.places) 0) n.exponent limits

theorem ofDigitChars_significantDigits (n : Numeral) :
    Nat.ofDigitChars 10 n.significantDigits 0 = n.mantissa.coefficient := by
  rw [significantDigits, Mantissa.coefficient]
  generalize n.mantissa.whole ++ n.mantissa.places = ds
  induction ds with
  | nil => rfl
  | cons ch ds ih =>
      rw [List.dropWhile_cons]
      split
      · rename_i hzero
        rw [ih, beq_iff_eq.1 hzero]
        rfl
      · rfl

theorem WellFormed.adjustedExponent_coefficient (h : n.WellFormed) :
    Decimal.adjustedExponent n.mantissa.coefficient n.exponent = n.leadingExponent := by
  rw [leadingExponent, ← ofDigitChars_significantDigits, Decimal.adjustedExponent]
  split
  · rename_i hnil
    rw [hnil, Nat.ofDigitChars_nil, Decimal.digits_of_lt (by decide), List.length_singleton]
    omega
  · rename_i hne
    have hdigits : ∀ ch ∈ n.significantDigits, ch.isDigit = true := by
      intro ch hch
      rcases List.mem_append.1 ((List.dropWhile_suffix _).subset hch) with hwhole | hplaces
      · exact h.mantissa.whole_digits ch hwhole
      · exact h.mantissa.places_digits ch hplaces
    have hhead : n.significantDigits.head? ≠ some '0' := by
      intro hzero
      have hends := EndsRun.dropWhile (· == '0') (n.mantissa.whole ++ n.mantissa.places)
      exact absurd (hends '0' hzero) (by decide)
    rw [Decimal.digits_ofDigitChars hdigits hne hhead]

theorem WellFormed.withinLimits_iff (h : n.WellFormed) :
    Decimal.withinLimits n.mantissa.coefficient n.exponent = true ↔ ¬n.OutOfRange := by
  rw [Decimal.withinLimits, Bool.and_eq_true, decide_eq_true_eq, decide_eq_true_eq,
    h.adjustedExponent_coefficient, OutOfRange, not_or, Int.not_lt, Int.not_lt]
  rfl

theorem WellFormed.toDecimal?_of_outOfRange (h : n.WellFormed) (hrange : n.OutOfRange) :
    n.toDecimal? = none :=
  dif_neg fun hlimits => h.withinLimits_iff.1 hlimits hrange

theorem WellFormed.exists_denotes (h : n.WellFormed) (hrange : ¬n.OutOfRange) :
    ∃ x, n.Denotes x ∧ n.toDecimal? = some x :=
  ⟨_, ⟨h.withinLimits_iff.2 hrange, rfl⟩, Decimal.finite?_of_withinLimits _⟩

end Numeral

theorem Text.strip_eq_self {text : List Char} (h : ∀ ch ∈ text, isStripped ch = false) :
    strip text = text := by
  have hdrop : ∀ {cs : List Char}, (∀ ch ∈ cs, isStripped ch = false) →
      cs.dropWhile isStripped = cs := by
    intro cs hcs
    cases cs with
    | nil => rfl
    | cons ch cs => rw [List.dropWhile_cons, hcs ch List.mem_cons_self]; rfl
  have hreverse : ∀ ch ∈ text.reverse, isStripped ch = false :=
    fun ch hch => h ch (List.mem_reverse.1 hch)
  rw [strip, hdrop h, hdrop hreverse, List.reverse_reverse]

namespace Decimal

/-- A character that stays as it is when a number is handed over as a text of its own: a
basic one that is neither space nor low line. -/
def keptChar (ch : Char) : Bool :=
  0x20 < ch.toNat && ch.toNat < 0x80 && ch != '_'

theorem keptChar_iff {ch : Char} :
    keptChar ch = true ↔ 0x20 < ch.toNat ∧ ch.toNat < 0x80 ∧ ch ≠ '_' := by
  rw [keptChar, Bool.and_eq_true, Bool.and_eq_true, decide_eq_true_eq, decide_eq_true_eq,
    bne_iff_ne, and_assoc]

theorem keptChar_of_numeralChar {ch : Char} (h : numeralChar ch = true) : keptChar ch = true := by
  rcases Bool.or_eq_true_iff.1 h with hdigit | hother
  · have hkept : ∀ d < 10, keptChar (Nat.digitChar d) = true := by
      decide
    rcases exists_digitChar hdigit with ⟨d, hd, rfl, -⟩
    exact hkept d hd
  · simp only [List.contains_cons, List.contains_nil, Bool.or_false, Bool.or_eq_true,
      beq_iff_eq] at hother
    rcases hother with rfl | rfl | rfl | rfl | rfl <;> decide

theorem isStripped_of_keptChar {ch : Char} (h : keptChar ch = true) : isStripped ch = false := by
  have hseparators : separators.contains ch = false := by
    simp only [separators, List.contains_cons, List.contains_nil, Bool.or_false,
      Bool.or_eq_false_iff, beq_eq_false_iff_ne]
    refine ⟨?_, ?_, ?_, ?_⟩ <;> (rintro rfl; revert h; decide)
  rcases keptChar_iff.1 h with ⟨hlow, hhigh, -⟩
  rw [isStripped, hseparators, Bool.or_false, isBlank, within]
  simp only [blankRanges, List.any_cons, List.any_nil, Bool.or_false, Bool.or_eq_false_iff,
    Bool.and_eq_false_iff, decide_eq_false_iff_not]
  omega

theorem basicText?_of_kept {text : List Char} (h : ∀ ch ∈ text, keptChar ch = true) :
    basicText? text = some text := by
  have hstrip : strip text = text := strip_eq_self fun ch hch => isStripped_of_keptChar (h ch hch)
  have hlines : text.filter (· != '_') = text :=
    List.filter_eq_self.2 fun ch hch => bne_iff_ne.2 (keptChar_iff.1 (h ch hch)).2.2
  rw [basicText?, hstrip, hlines]
  clear hstrip hlines
  induction text with
  | nil => rfl
  | cons ch text ih =>
      rw [List.forall_mem_cons] at h
      have hbasic : basicCharacter? ch = some ch := if_pos (keptChar_iff.1 h.1).2.1
      rw [List.mapM_cons, hbasic, ih h.2]
      rfl

theorem basicText?_text {n : Numeral} (h : n.WellFormed) : basicText? n.text = some n.text :=
  basicText?_of_kept fun _ hch => keptChar_of_numeralChar (h.numeralChar_of_mem_text hch)

theorem ofText?_text {n : Numeral} (h : n.WellFormed) : ofText? n.text = n.toDecimal? := by
  rw [ofText?, basicText?_text h, Option.bind_some, ofBasicText?, h.scan?_text]

end Decimal

namespace Grammar

variable {c : Cursor} {n : Numeral}

theorem number_of_longest (h : n.Longest c.rest) {value : Decimal}
    (hvalue : n.toDecimal? = some value) :
    number c = found (.number value) (c.advance n.text.length) := by
  rcases h.exists_scan? with ⟨rest, hscan⟩
  simp only [number, hscan, hvalue]

theorem number_of_longest_of_none (h : n.Longest c.rest) (hnone : n.toDecimal? = none) :
    number c = expected c (.shape .number) := by
  rcases h.exists_scan? with ⟨rest, hscan⟩
  simp only [number, hscan, hnone]

/-- A number is the longest numeral that the text at a place begins with.  If there is
none, or if no decimal has its exponents, no number is found there.  Otherwise the number
has the sign, all the digits and the exponent of the numeral, and is what the numeral
denotes as a text of its own, which denotes nothing if no decimal has its exponents. -/
theorem number_longest (source : List Char) (pos : Nat) :
    ((∀ n : Numeral, ¬n.Begins (source.drop pos)) →
      number (.ofText source pos) = .failed ⟨pos, .shape .number, false, []⟩) ∧
    ((∃ n : Numeral, n.Begins (source.drop pos)) →
      ∃! n : Numeral, n.Longest (source.drop pos)) ∧
    ∀ n : Numeral, n.Longest (source.drop pos) →
      (n.OutOfRange → Decimal.ofText? n.text = none ∧
        number (.ofText source pos) = .failed ⟨pos, .shape .number, false, []⟩) ∧
      (¬n.OutOfRange → ∃ x, n.Denotes x ∧ Decimal.ofText? n.text = some x ∧
        number (.ofText source pos) = .matched ⟨.number x,
          .ofText source (pos + n.text.length), none⟩) := by
  refine ⟨?_, ?_, ?_⟩
  · intro hnone
    have hscan : Numeral.scan? (Cursor.ofText source pos).rest = none :=
      Numeral.scan?_eq_none hnone
    simp only [number, hscan]
    rfl
  · rintro ⟨n, hn⟩
    rcases hn.exists_scan? with ⟨found, rest, hscan, -⟩
    have hlongest := Numeral.longest_of_scan hscan
    exact ⟨found, hlongest, fun m hm => hm.unique hlongest⟩
  · intro n hn
    rw [Decimal.ofText?_text hn.wellFormed]
    constructor
    · intro hrange
      have hnone := hn.wellFormed.toDecimal?_of_outOfRange hrange
      exact ⟨hnone, number_of_longest_of_none (c := .ofText source pos) hn hnone⟩
    · intro hrange
      rcases hn.wellFormed.exists_denotes hrange with ⟨x, hx, hvalue⟩
      refine ⟨x, hx, hvalue, ?_⟩
      rw [number_of_longest (c := .ofText source pos) hn hvalue]
      simp only [found, Cursor.advance, Cursor.ofText, List.drop_drop]

/-- A numeral with each of its parts, and one that no decimal has the exponents of. -/
theorem number_longest_power :
    (∃ n : Numeral, n.Longest ("(-01.50e+3x".toList.drop 1) ∧ ¬n.OutOfRange ∧
      n.Denotes (.finite true 150 1) ∧ Decimal.ofText? n.text = some (.finite true 150 1) ∧
      number (.ofText "(-01.50e+3x".toList 1) = .matched ⟨.number (.finite true 150 1),
        .ofText "(-01.50e+3x".toList (1 + n.text.length), none⟩) ∧
    ∃ n : Numeral, n.Longest (".0e1000000000000000001".toList.drop 0) ∧ n.OutOfRange ∧
      Decimal.ofText? n.text = none ∧
      number (.ofText ".0e1000000000000000001".toList 0) =
        .failed ⟨0, .shape .number, false, []⟩ := by
  constructor
  · have hscan : Numeral.scan? ("(-01.50e+3x".toList.drop 1) =
        some (⟨some .minus, ⟨['0', '1'], some ['5', '0']⟩, some ⟨'e', some .plus, ['3']⟩⟩,
          ['x']) := by
      decide
    have hlongest := Numeral.longest_of_scan hscan
    have hrange := (number_longest "(-01.50e+3x".toList 1).2.2 _ hlongest
    rcases hrange.2 (by decide) with ⟨_, ⟨_, rfl⟩, htext, hnumber⟩
    exact ⟨_, hlongest, by decide, ⟨rfl, rfl⟩, htext, hnumber⟩
  · have hscan : Numeral.scan? (".0e1000000000000000001".toList.drop 0) =
        some (⟨none, ⟨[], some ['0']⟩, some ⟨'e', none, "1000000000000000001".toList⟩⟩, []) := by
      decide
    have hlongest := Numeral.longest_of_scan hscan
    have hrange := (number_longest ".0e1000000000000000001".toList 0).2.2 _ hlongest
    exact ⟨_, hlongest, by decide, hrange.1 (by decide)⟩

end Grammar

end Sexp
