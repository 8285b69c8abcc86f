import Sexp.Form.Printer
import Sexp.Proofs.LongestNumeral

/-!
# Decimals in scientific notation

The scientific text of a decimal keeps its sign, all its digits and its exponent: as a
text of its own it denotes the decimal again, whichever notation is chosen and whatever
text the decimal was handed over as.
-/

namespace Sexp.Decimal

open Text

section Finite

/-- The mantissa that `normalized` writes. -/
def normalizedMantissa : List Char → Mantissa
  | [] => ⟨[], none⟩
  | [d] => ⟨[d], none⟩
  | d :: ds => ⟨[d], some ds⟩

theorem normalizedMantissa_text : ∀ ds : List Char, (normalizedMantissa ds).text = normalized ds
  | [] => rfl
  | [_] => rfl
  | _ :: _ :: _ => rfl

theorem normalizedMantissa_digits : ∀ ds : List Char,
    (normalizedMantissa ds).whole ++ (normalizedMantissa ds).places = ds
  | [] => rfl
  | [_] => rfl
  | _ :: _ :: _ => rfl

theorem normalizedMantissa_places_length : ∀ ds : List Char,
    (normalizedMantissa ds).places.length = ds.length - 1
  | [] => rfl
  | [_] => rfl
  | _ :: _ :: _ => rfl

theorem normalizedMantissa_wellFormed (coefficient : Nat) :
    (normalizedMantissa (digits coefficient)).WellFormed := by
  have hdigits := normalizedMantissa_digits (digits coefficient)
  constructor
  · exact fun ch hch => isDigit_of_mem_digits (hdigits ▸ List.mem_append_left _ hch)
  · exact fun ch hch => isDigit_of_mem_digits (hdigits ▸ List.mem_append_right _ hch)
  · rw [hdigits]
    exact digits_ne_nil coefficient

theorem normalizedMantissa_coefficient (coefficient : Nat) :
    (normalizedMantissa (digits coefficient)).coefficient = coefficient := by
  rw [Mantissa.coefficient, normalizedMantissa_digits, ofDigitChars_digits]

/-- The power of ten that `powerText` writes. -/
def writtenPower (exponent : Int) : Power :=
  ⟨'E', some (if exponent < 0 then .minus else .plus), digits exponent.natAbs⟩

theorem writtenPower_text (exponent : Int) : (writtenPower exponent).text = powerText exponent := by
  by_cases hneg : exponent < 0 <;> simp [writtenPower, Power.text, powerText, Sign.text, hneg]

theorem writtenPower_wellFormed (exponent : Int) : (writtenPower exponent).WellFormed where
  marker := .inr rfl
  digits _ := isDigit_of_mem_digits
  digits_ne_nil := digits_ne_nil _

theorem writtenPower_exponent (exponent : Int) :
    Power.exponent (some (writtenPower exponent)) = exponent := by
  rw [Power.exponent, writtenPower]
  dsimp only
  rw [ofDigitChars_digits]
  split
  · show -(exponent.natAbs : Int) = exponent
    omega
  · show (exponent.natAbs : Int) = exponent
    omega

/-- The sign that `signText` writes. -/
def writtenSign (negative : Bool) : Option Sign :=
  if negative then some .minus else none

theorem writtenSign_text (negative : Bool) :
    Sign.text (writtenSign negative) = signText negative := by
  cases negative <;> rfl

theorem writtenSign_beq_minus (negative : Bool) :
    (writtenSign negative == some .minus) = negative := by
  cases negative <;> rfl

/-- The numeral that is the scientific text of a finite decimal. -/
def scientificNumeral (negative : Bool) (coefficient : Nat) (exponent : Int) : Numeral :=
  if exponent ≤ 0 ∧ -6 ≤ adjustedExponent coefficient exponent then
    ⟨writtenSign negative, pointedMantissa (digits coefficient) exponent.natAbs, none⟩
  else
    ⟨writtenSign negative, normalizedMantissa (digits coefficient),
      some (writtenPower (adjustedExponent coefficient exponent))⟩

variable (negative : Bool) (coefficient : Nat) (exponent : Int)
  (limits : withinLimits coefficient exponent = true)

theorem scientificNumeral_text : (scientificNumeral negative coefficient exponent).text =
    scientific (.finite negative coefficient exponent limits) := by
  simp only [scientificNumeral, scientific, Bool.and_eq_true, decide_eq_true_eq]
  split
  · rw [Numeral.text, writtenSign_text, pointedMantissa_text, Power.optionText, List.append_nil]
  · rw [Numeral.text, writtenSign_text, normalizedMantissa_text, Power.optionText,
      writtenPower_text]

theorem scientificNumeral_wellFormed :
    (scientificNumeral negative coefficient exponent).WellFormed := by
  unfold scientificNumeral
  split
  · exact ⟨pointedMantissa_wellFormed coefficient _, fun _ hp => nomatch hp⟩
  · refine ⟨normalizedMantissa_wellFormed coefficient, ?_⟩
    rintro _ ⟨rfl⟩
    exact writtenPower_wellFormed _

theorem scientificNumeral_toDecimal? :
    (scientificNumeral negative coefficient exponent).toDecimal? =
      finite? negative coefficient exponent := by
  unfold scientificNumeral
  split
  · rename_i hpointed
    have hexponent : 0 - (exponent.natAbs : Int) = exponent := by omega
    rw [Numeral.toDecimal?, writtenSign_beq_minus, pointedMantissa_coefficient, Power.exponent,
      pointedMantissa_places_length, hexponent]
  · have hlength := List.length_pos_iff.2 (digits_ne_nil coefficient)
    have hexponent : adjustedExponent coefficient exponent -
        ((digits coefficient).length - 1 : Nat) = exponent := by
      rw [adjustedExponent]
      omega
    rw [Numeral.toDecimal?, writtenSign_beq_minus, normalizedMantissa_coefficient,
      writtenPower_exponent, normalizedMantissa_places_length, hexponent]

theorem ofText?_scientific_finite :
    ofText? (scientific (.finite negative coefficient exponent limits)) =
      some (.finite negative coefficient exponent limits) := by
  rw [← scientificNumeral_text, ofText?_text (scientificNumeral_wellFormed _ _ _),
    scientificNumeral_toDecimal?, finite?_of_withinLimits limits]

end Finite

section Special

variable {negative : Bool}

theorem ofBasicText?_of_word {ch : Char} (h : numeralChar ch = false) (cs : List Char) :
    ofBasicText? (signText negative ++ ch :: cs) =
      special? negative ((ch :: cs).map Char.toLower) := by
  rcases ne_of_numeralChar_eq_false h with ⟨hplus, hminus, hpoint, -⟩
  have hdigit : ch.isDigit = false := (Bool.or_eq_false_iff.1 h).1
  have hsign := Sign.scan_text_append hplus hminus (writtenSign negative) cs
  rw [writtenSign_text] at hsign
  have hmantissa : Mantissa.scan? (ch :: cs) = none := by
    simp [Mantissa.scan?, hdigit, hpoint]
  have hscan : Numeral.scan? (signText negative ++ ch :: cs) = none := by
    rw [Numeral.scan?, hsign, hmantissa]
  rw [ofBasicText?, hscan, hsign]
  dsimp only
  rw [writtenSign_beq_minus]

theorem toLower_of_isDigit {ch : Char} (h : ch.isDigit = true) : ch.toLower = ch := by
  have hlower : ∀ d < 10, (Nat.digitChar d).toLower = Nat.digitChar d := by
    decide
  rcases exists_digitChar h with ⟨d, hd, rfl, -⟩
  exact hlower d hd

/-- The digits of a payload, which is not written if it is zero. -/
def payloadText (payload : Nat) : List Char :=
  if payload = 0 then [] else digits payload

theorem isDigit_of_mem_payloadText {payload : Nat} {ch : Char} (h : ch ∈ payloadText payload) :
    ch.isDigit = true := by
  unfold payloadText at h
  split at h
  · cases h
  · exact isDigit_of_mem_digits h

theorem payload?_payloadText (payload : Nat) : payload? (payloadText payload) = some payload := by
  have hall : (payloadText payload).all Char.isDigit = true :=
    List.all_eq_true.2 fun _ => isDigit_of_mem_payloadText
  rw [payload?, if_pos hall, payloadText]
  split
  · rename_i hzero
    rw [hzero]
    rfl
  · rw [ofDigitChars_digits]

theorem toLower_payloadText (payload : Nat) :
    (payloadText payload).map Char.toLower = payloadText payload := by
  rw [List.map_congr_left fun ch hch => toLower_of_isDigit (isDigit_of_mem_payloadText hch),
    List.map_id']

theorem keptChar_of_mem_payloadText {payload : Nat} {ch : Char} (h : ch ∈ payloadText payload) :
    keptChar ch = true :=
  keptChar_of_numeralChar (numeralChar_of_isDigit (isDigit_of_mem_payloadText h))

theorem ofText?_of_word {ch : Char} {cs : List Char} (h : numeralChar ch = false)
    (hkept : ∀ d ∈ ch :: cs, keptChar d = true) (payload : Nat) :
    ofText? (signText negative ++ (ch :: cs ++ payloadText payload)) =
      special? negative ((ch :: cs).map Char.toLower ++ payloadText payload) := by
  have hsign : ∀ d ∈ signText negative, keptChar d = true := by
    cases negative <;> exact List.all_eq_true.1 rfl
  have hpayload : ∀ d ∈ payloadText payload, keptChar d = true :=
    fun _ => keptChar_of_mem_payloadText
  have htext := List.forall_mem_append.2 ⟨hsign, List.forall_mem_append.2 ⟨hkept, hpayload⟩⟩
  rw [ofText?, basicText?_of_kept htext, Option.bind_some, List.cons_append,
    ofBasicText?_of_word h, ← List.cons_append, List.map_append, toLower_payloadText]

theorem ofText?_scientific_infinity :
    ofText? (scientific (.infinity negative)) = some (.infinity negative) := by
  calc ofText? (scientific (.infinity negative))
      = ofText? (signText negative ++
          (['I', 'n', 'f', 'i', 'n', 'i', 't', 'y'] ++ payloadText 0)) := rfl
    _ = special? negative
          (['I', 'n', 'f', 'i', 'n', 'i', 't', 'y'].map Char.toLower ++ payloadText 0) :=
        ofText?_of_word (by decide) (List.all_eq_true.1 rfl) 0
    _ = some (.infinity negative) := rfl

theorem ofText?_scientific_nan (signaling : Bool) (payload : Nat) :
    ofText? (scientific (.nan negative signaling payload)) =
      some (.nan negative signaling payload) := by
  have hpayload := payload?_payloadText payload
  cases signaling with
  | false =>
      calc ofText? (scientific (.nan negative false payload))
          = special? negative (['N', 'a', 'N'].map Char.toLower ++ payloadText payload) :=
            ofText?_of_word (by decide) (List.all_eq_true.1 rfl) payload
        _ = (payload? (payloadText payload)).map (.nan negative false) := rfl
        _ = some (.nan negative false payload) := by rw [hpayload, Option.map_some]
  | true =>
      calc ofText? (scientific (.nan negative true payload))
          = special? negative (['s', 'N', 'a', 'N'].map Char.toLower ++ payloadText payload) :=
            ofText?_of_word (by decide) (List.all_eq_true.1 rfl) payload
        _ = (payload? (payloadText payload)).map (.nan negative true) := rfl
        _ = some (.nan negative true payload) := by rw [hpayload, Option.map_some]

end Special

theorem ofText?_scientific (x : Decimal) : ofText? x.scientific = some x := by
  cases x with
  | finite negative coefficient exponent limits => exact ofText?_scientific_finite _ _ _ _
  | infinity negative => exact ofText?_scientific_infinity
  | nan negative signaling payload => exact ofText?_scientific_nan signaling payload

/-- A form that holds a decimal, whatever text the decimal was handed over as, is shown with
the scientific text, and that text denotes the same decimal: the same sign, coefficient and
exponent, or the same kind, sign and payload.  So this decimal has that text again, and no
other decimal has it. -/
theorem scientific_exact (x : Decimal) :
    (Form.number x).inspected = "Num(".toList ++ x.scientific ++ [')'] ∧
      ofText? x.scientific = some x ∧
      (ofText? x.scientific).map scientific = some x.scientific ∧
      ∀ y : Decimal, y.scientific = x.scientific → y = x := by
  refine ⟨rfl, ofText?_scientific x, ?_, ?_⟩
  · rw [ofText?_scientific, Option.map_some]
  · intro y hsame
    rw [← Option.some.injEq, ← ofText?_scientific y, hsame, ofText?_scientific]

/-- A number with space around it, low lines and a digit of another script, and a
signaling NaN in small letters. -/
theorem scientific_exact_other_script :
    (∃ x : Decimal, ofText? "\u3000-1_\u06650e-1_0 ".toList = some x ∧
      x = .finite true 150 (-10) ∧ x.scientific = "-1.50E-8".toList ∧
      (Form.number x).inspected = "Num(-1.50E-8)".toList ∧ ofText? x.scientific = some x) ∧
    ∃ x : Decimal, ofText? "+snan0_12".toList = some x ∧
      x = .nan false true 12 ∧ x.scientific = "sNaN12".toList ∧
      (Form.number x).inspected = "Num(sNaN12)".toList ∧ ofText? x.scientific = some x := by
  constructor
  · have htext : ofText? "\u3000-1_\u06650e-1_0 ".toList = some (.finite true 150 (-10)) := by
      decide
    have hexact := scientific_exact (.finite true 150 (-10))
    exact ⟨_, htext, rfl, by decide, hexact.1.trans (by decide), hexact.2.1⟩
  · have htext : ofText? "+snan0_12".toList = some (.nan false true 12) := by
      decide
    have hexact := scientific_exact (.nan false true 12)
    exact ⟨_, htext, rfl, by decide, hexact.1.trans (by decide), hexact.2.1⟩

end Sexp.Decimal
