import Sexp.Decimal.Numeral
import Sexp.Proofs.Run

namespace Sexp

open Text

/-- The characters that may stand in a numeral. -/
def numeralChar (ch : Char) : Bool :=
  ch.isDigit || ['+', '-', '.', 'e', 'E'].contains ch

theorem numeralChar_of_isDigit {ch : Char} (h : ch.isDigit = true) : numeralChar ch = true := by
  simp [numeralChar, h]

theorem ne_of_numeralChar_eq_false {ch : Char} (h : numeralChar ch = false) :
    ch ≠ '+' ∧ ch ≠ '-' ∧ ch ≠ '.' ∧ ch ≠ 'e' ∧ ch ≠ 'E' := by
  simpa [numeralChar] using (Bool.or_eq_false_iff.1 h).2

theorem ne_of_isDigit {ch : Char} (h : ch.isDigit = true) :
    ch ≠ '+' ∧ ch ≠ '-' ∧ ch ≠ '.' ∧ ch ≠ 'e' ∧ ch ≠ 'E' := by
  refine ⟨?_, ?_, ?_, ?_, ?_⟩ <;> (rintro rfl; exact absurd h (by decide))

/-- The characters that may stand in a mantissa. -/
def mantissaChar (ch : Char) : Bool :=
  ch.isDigit || ch == '.'

theorem Text.EndsRun.isDigit {behind : List Char} (h : EndsRun mantissaChar behind) :
    EndsRun Char.isDigit behind :=
  h.mono fun ch hdigit => by simp [mantissaChar, hdigit]

theorem Text.EndsRun.mantissaChar {behind : List Char} (h : EndsRun numeralChar behind) :
    EndsRun mantissaChar behind := by
  refine h.mono fun ch hch => ?_
  rcases Bool.or_eq_true_iff.1 hch with hdigit | hpoint
  · exact numeralChar_of_isDigit hdigit
  · rw [beq_iff_eq.1 hpoint]
    decide

section Append

variable {cs behind : List Char}

theorem Sign.scan_of_ne {ch : Char} (hplus : ch ≠ '+') (hminus : ch ≠ '-') :
    scan (ch :: cs) = (none, ch :: cs) := by
  unfold scan
  split <;> simp_all

theorem Sign.scan_append_of_ne_nil (h : cs ≠ []) (tail : List Char) :
    scan (cs ++ tail) = ((scan cs).1, (scan cs).2 ++ tail) := by
  obtain ⟨ch, cs, rfl⟩ := List.exists_cons_of_ne_nil h
  by_cases hplus : ch = '+'
  · subst hplus
    rfl
  · by_cases hminus : ch = '-'
    · subst hminus
      rfl
    · rw [List.cons_append, scan_of_ne hplus hminus, scan_of_ne hplus hminus]
      rfl

theorem Sign.scan_append (h : EndsRun numeralChar behind) :
    scan (cs ++ behind) = ((scan cs).1, (scan cs).2 ++ behind) := by
  cases cs with
  | nil =>
      cases behind with
      | nil => rfl
      | cons ch behind =>
          obtain ⟨hplus, hminus, -⟩ := ne_of_numeralChar_eq_false h.head
          exact scan_of_ne hplus hminus
  | cons ch cs => exact scan_append_of_ne_nil (List.cons_ne_nil _ _) _

theorem Mantissa.scan?_append (h : EndsRun mantissaChar behind) :
    scan? (cs ++ behind) = (scan? cs).map fun taken => (taken.1, taken.2 ++ behind) := by
  have hdigit := h.isDigit
  unfold scan?
  rw [hdigit.takeWhile_append, hdigit.dropWhile_append]
  cases hdrop : cs.dropWhile Char.isDigit with
  | nil =>
      cases behind with
      | nil => by_cases hwhole : cs.takeWhile Char.isDigit = [] <;> simp [hwhole]
      | cons ch behind =>
          have hpoint : ch ≠ '.' := beq_eq_false_iff_ne.1 (Bool.or_eq_false_iff.1 h.head).2
          by_cases hwhole : cs.takeWhile Char.isDigit = [] <;> simp [hpoint, hwhole]
  | cons ch rest =>
      by_cases hpoint : ch = '.'
      · subst hpoint
        simp only [List.cons_append, hdigit.takeWhile_append, hdigit.dropWhile_append]
        split <;> rfl
      · by_cases hwhole : cs.takeWhile Char.isDigit = [] <;> simp [hpoint, hwhole]

theorem Power.scan_append (h : EndsRun numeralChar behind) :
    scan (cs ++ behind) = ((scan cs).1, (scan cs).2 ++ behind) := by
  have hdigit := h.mantissaChar.isDigit
  cases cs with
  | nil =>
      cases behind with
      | nil => rfl
      | cons ch behind =>
          obtain ⟨-, -, -, hsmall, hcapital⟩ := ne_of_numeralChar_eq_false h.head
          simp [scan, hsmall, hcapital]
  | cons ch cs =>
      simp only [List.cons_append, scan, Sign.scan_append h, hdigit.takeWhile_append,
        hdigit.dropWhile_append]
      split <;> rfl

theorem Numeral.scan?_append (h : EndsRun numeralChar behind) :
    scan? (cs ++ behind) = (scan? cs).map fun taken => (taken.1, taken.2 ++ behind) := by
  unfold scan?
  rw [Sign.scan_append h, Mantissa.scan?_append h.mantissaChar]
  cases Mantissa.scan? (Sign.scan cs).2 with
  | none => rfl
  | some taken => simp [Power.scan_append h]

end Append

section Cut

variable {cs later tail : List Char}

theorem Sign.scan_of_append {sign : Option Sign} (h : scan (cs ++ tail) = (sign, later ++ tail)) :
    scan cs = (sign, later) := by
  by_cases hcs : cs = []
  · subst hcs
    have htext := text_append_scan tail
    rw [show scan tail = (sign, later ++ tail) from h] at htext
    have hlength := congrArg List.length htext
    simp only [List.length_append] at hlength
    obtain rfl : later = [] := List.length_eq_zero_iff.1 (by omega)
    have hsign : text sign = [] := List.length_eq_zero_iff.1 (by omega)
    obtain _ | _ | _ := sign
    · rfl
    · cases hsign
    · cases hsign
  · rw [scan_append_of_ne_nil hcs] at h
    obtain ⟨hsign, hlater⟩ := Prod.mk.inj h
    exact Prod.ext hsign (List.append_cancel_right hlater)

theorem Mantissa.scan?_of_append {m : Mantissa}
    (h : scan? (cs ++ tail) = some (m, later ++ tail)) : scan? cs = some (m, later) := by
  unfold scan? at h
  split at h
  · rename_i behind hbehind
    split at h
    · cases h
    · rename_i hdigits
      simp only [Option.some.injEq, Prod.mk.injEq] at h
      obtain ⟨rfl, hlater⟩ := h
      -- the digits behind the point end in front of the tail, and so does the point
      obtain ⟨between, rfl⟩ : ∃ between, behind = between ++ tail := by
        refine ⟨behind.takeWhile Char.isDigit ++ later, ?_⟩
        rw [List.append_assoc, ← hlater, List.takeWhile_append_dropWhile]
      rw [← List.cons_append] at hbehind
      obtain ⟨hdrop, htake⟩ := dropWhile_of_append hbehind
      obtain ⟨hdrop', htake'⟩ := dropWhile_of_append hlater
      rw [htake, htake'] at hdigits ⊢
      simp only [scan?, hdrop, hdrop', if_neg hdigits]
  · rename_i hpoint
    split at h
    · cases h
    · rename_i hdigits
      simp only [Option.some.injEq, Prod.mk.injEq] at h
      obtain ⟨rfl, hlater⟩ := h
      obtain ⟨hdrop, htake⟩ := dropWhile_of_append hlater
      rw [htake] at hdigits ⊢
      unfold scan?
      split
      · rename_i behind hbehind
        rw [hdrop] at hbehind
        exact absurd (hlater.trans (congrArg (· ++ tail) hbehind)) (hpoint _)
      · rw [if_neg hdigits, hdrop]

theorem Power.scan_of_append {power : Option Power}
    (h : scan (cs ++ tail) = (power, later ++ tail)) : scan cs = (power, later) := by
  cases cs with
  | nil =>
      have htext := optionText_append_scan tail
      rw [show scan tail = (power, later ++ tail) from h] at htext
      have hlength := congrArg List.length htext
      simp only [List.length_append] at hlength
      obtain rfl : later = [] := List.length_eq_zero_iff.1 (by omega)
      cases power with
      | none => rfl
      | some p => simp [optionText, text] at hlength
  | cons ch cs =>
      rw [List.cons_append, scan] at h
      split at h
      · rename_i hmarker
        obtain ⟨rfl, hlater⟩ := Prod.mk.inj h
        obtain ⟨between, hbetween⟩ : ∃ between, (Sign.scan (cs ++ tail)).2 = between ++ tail := by
          refine ⟨(Sign.scan (cs ++ tail)).2.takeWhile Char.isDigit ++ later, ?_⟩
          rw [List.append_assoc, ← hlater, List.takeWhile_append_dropWhile]
        have hsign := Sign.scan_of_append (Prod.ext rfl hbetween)
        rw [hbetween] at hlater hmarker ⊢
        obtain ⟨hdrop, htake⟩ := dropWhile_of_append hlater
        rw [htake] at hmarker ⊢
        simp only [scan, hsign, hdrop, if_pos hmarker]
      · rename_i hmarker
        obtain ⟨rfl, hlater⟩ := Prod.mk.inj h
        obtain rfl : ch :: cs = later := List.append_cancel_right hlater
        rw [scan, if_neg]
        rintro ⟨hch, hdigits⟩
        have hne : cs ≠ [] := by
          rintro rfl
          exact hdigits rfl
        refine hmarker ⟨hch, fun hnil => hdigits ?_⟩
        rw [Sign.scan_append_of_ne_nil hne] at hnil
        rw [List.takeWhile_append] at hnil
        split at hnil
        · simp_all
        · exact hnil

theorem Numeral.scan?_of_append {n : Numeral}
    (h : scan? (cs ++ tail) = some (n, later ++ tail)) : scan? cs = some (n, later) := by
  unfold scan? at h
  split at h
  · cases h
  · rename_i mantissa behind hmantissa
    simp only [Option.some.injEq, Prod.mk.injEq] at h
    obtain ⟨rfl, hlater⟩ := h
    have hpower := Power.optionText_append_scan behind
    obtain ⟨between, rfl⟩ : ∃ between, behind = between ++ tail := by
      refine ⟨Power.optionText (Power.scan behind).1 ++ later, ?_⟩
      rw [List.append_assoc, ← hlater, hpower]
    obtain ⟨digits, hdigits⟩ : ∃ digits, (Sign.scan (cs ++ tail)).2 = digits ++ tail := by
      refine ⟨mantissa.text ++ between, ?_⟩
      rw [List.append_assoc, Mantissa.text_append_of_scan hmantissa]
    have hsign := Sign.scan_of_append (Prod.ext rfl hdigits)
    rw [hdigits] at hmantissa
    have hmantissa' := Mantissa.scan?_of_append hmantissa
    have hpower' := Power.scan_of_append (Prod.ext rfl hlater)
    simp only [scan?, hsign, hmantissa', hpower']

end Cut

/-- A mantissa that the scan can yield: digits on at least one side of the
point. -/
structure Mantissa.WellFormed (m : Mantissa) : Prop where
  whole_digits : ∀ ch ∈ m.whole, ch.isDigit = true
  places_digits : ∀ ch ∈ m.places, ch.isDigit = true
  digits_ne_nil : m.whole ++ m.places ≠ []

/-- A power of ten that the scan can yield: a marker and at least one digit. -/
structure Power.WellFormed (p : Power) : Prop where
  marker : p.marker = 'e' ∨ p.marker = 'E'
  digits : ∀ ch ∈ p.digits, ch.isDigit = true
  digits_ne_nil : p.digits ≠ []

/-- A numeral that the scan can yield: a mantissa, with a sign or without, and with a
power of ten or without.  Its texts are those of the grammar
`[+-]? (digits (. digits?)? | . digits) ([eE] [+-]? digits)?`. -/
structure Numeral.WellFormed (n : Numeral) : Prop where
  mantissa : n.mantissa.WellFormed
  power : ∀ p ∈ n.power, p.WellFormed

theorem Mantissa.WellFormed.text_eq_cons {m : Mantissa} (h : m.WellFormed) :
    ∃ ch cs, m.text = ch :: cs ∧ (ch.isDigit = true ∨ ch = '.') := by
  obtain ⟨whole, fraction⟩ := m
  cases whole with
  | cons ch whole =>
      have hdigit := h.whole_digits ch (by simp)
      cases fraction <;> simp [Mantissa.text, hdigit]
  | nil =>
      cases fraction with
      | none => exact absurd rfl h.digits_ne_nil
      | some fraction => simp [Mantissa.text]

theorem Mantissa.WellFormed.numeralChar_of_mem_text {m : Mantissa} (h : m.WellFormed) {ch : Char}
    (hch : ch ∈ m.text) : numeralChar ch = true := by
  obtain ⟨whole, fraction⟩ := m
  obtain ⟨hwhole, hplaces, -⟩ := h
  cases fraction with
  | none => exact numeralChar_of_isDigit (hwhole ch hch)
  | some fraction =>
      rcases List.mem_append.1 hch with hch | hch
      · exact numeralChar_of_isDigit (hwhole ch hch)
      · rcases List.mem_cons.1 hch with rfl | hch
        · decide
        · exact numeralChar_of_isDigit (hplaces ch hch)

theorem Mantissa.scan?_text {m : Mantissa} (h : m.WellFormed) : scan? m.text = some (m, []) := by
  obtain ⟨whole, fraction⟩ := m
  obtain ⟨hwhole, hplaces, hne⟩ := h
  cases fraction with
  | none =>
      have htake : whole.takeWhile Char.isDigit = whole := List.takeWhile_eq_self_iff.2 hwhole
      have hdrop : whole.dropWhile Char.isDigit = [] := List.dropWhile_eq_nil_iff.2 hwhole
      have hwhole' : whole ≠ [] := by simpa [Mantissa.places] using hne
      simp [Mantissa.text, scan?, htake, hdrop, hwhole']
  | some fraction =>
      have hpoint : EndsRun Char.isDigit ('.' :: fraction) := .cons (by decide)
      have htake : fraction.takeWhile Char.isDigit = fraction :=
        List.takeWhile_eq_self_iff.2 hplaces
      have hdrop : fraction.dropWhile Char.isDigit = [] := List.dropWhile_eq_nil_iff.2 hplaces
      have hdigits : ¬(whole = [] ∧ fraction = []) := by
        simpa [Mantissa.places] using hne
      simp only [Mantissa.text, scan?, hpoint.takeWhile_append_of_all hwhole,
        hpoint.dropWhile_append_of_all hwhole, htake, hdrop, if_neg hdigits]

theorem Sign.scan_text_append {ch : Char} (hplus : ch ≠ '+') (hminus : ch ≠ '-')
    (sign : Option Sign) (cs : List Char) : scan (text sign ++ ch :: cs) = (sign, ch :: cs) := by
  obtain _ | _ | _ := sign
  · exact scan_of_ne hplus hminus
  · rfl
  · rfl

theorem Mantissa.WellFormed.scan_sign {m : Mantissa} (h : m.WellFormed) (sign : Option Sign)
    (behind : List Char) :
    Sign.scan (Sign.text sign ++ (m.text ++ behind)) = (sign, m.text ++ behind) := by
  obtain ⟨ch, cs, htext, hch⟩ := h.text_eq_cons
  rw [htext, List.cons_append]
  rcases hch with hdigit | rfl
  · exact Sign.scan_text_append (ne_of_isDigit hdigit).1 (ne_of_isDigit hdigit).2.1 sign _
  · exact Sign.scan_text_append (by decide) (by decide) sign _

theorem Power.WellFormed.scan_text_append {p : Power} (h : p.WellFormed) (behind : List Char) :
    scan (p.text ++ behind) =
      (some { p with digits := p.digits ++ behind.takeWhile Char.isDigit },
        behind.dropWhile Char.isDigit) := by
  obtain ⟨ch, cs, hdigits⟩ := List.exists_cons_of_ne_nil h.digits_ne_nil
  have hch := ne_of_isDigit (h.digits ch (by simp [hdigits]))
  have hsign : Sign.scan (Sign.text p.sign ++ (p.digits ++ behind)) =
      (p.sign, p.digits ++ behind) := by
    rw [hdigits, List.cons_append]
    exact Sign.scan_text_append hch.1 hch.2.1 p.sign _
  have hmarker : (p.marker = 'e' ∨ p.marker = 'E') ∧
      p.digits ++ behind.takeWhile Char.isDigit ≠ [] :=
    ⟨h.marker, List.append_ne_nil_of_left_ne_nil h.digits_ne_nil _⟩
  rw [text, List.cons_append, List.append_assoc, scan, hsign,
    List.takeWhile_append_of_pos h.digits, List.dropWhile_append_of_pos h.digits, if_pos hmarker]

theorem Power.WellFormed.endsRun {p : Power} (h : p.WellFormed) (behind : List Char) :
    EndsRun mantissaChar (p.text ++ behind) := by
  rw [text, List.cons_append]
  refine .cons ?_
  rcases h.marker with hmarker | hmarker <;> rw [hmarker] <;> decide

namespace Numeral

variable {n : Numeral} {behind : List Char}

theorem WellFormed.scan?_text (h : n.WellFormed) : scan? n.text = some (n, []) := by
  obtain ⟨sign, m, power⟩ := n
  have hm : m.WellFormed := h.mantissa
  have hsign := hm.scan_sign sign (Power.optionText power)
  cases power with
  | none =>
      rw [Power.optionText, List.append_nil] at hsign
      rw [text, Power.optionText, List.append_nil, scan?, hsign, Mantissa.scan?_text hm]
      rfl
  | some p =>
      have hp : p.WellFormed := h.power p rfl
      have hends := hp.endsRun []
      have hscan := hp.scan_text_append []
      rw [List.append_nil] at hends hscan
      rw [text, scan?, hsign, Power.optionText, Mantissa.scan?_append hends, Mantissa.scan?_text hm]
      simp [hscan]

theorem WellFormed.numeralChar_of_mem_text (h : n.WellFormed) {ch : Char} (hch : ch ∈ n.text) :
    numeralChar ch = true := by
  obtain ⟨sign, m, power⟩ := n
  have hsign : ∀ {sign : Option Sign}, ch ∈ Sign.text sign → numeralChar ch = true := by
    rintro (_ | _ | _) hch
    · simp [Sign.text] at hch
    · exact List.mem_singleton.1 hch ▸ rfl
    · exact List.mem_singleton.1 hch ▸ rfl
  rcases List.mem_append.1 hch with hch | hch
  · exact hsign hch
  rcases List.mem_append.1 hch with hch | hch
  · exact h.mantissa.numeralChar_of_mem_text hch
  cases power with
  | none => simp [Power.optionText] at hch
  | some p =>
      have hp : p.WellFormed := h.power p rfl
      rcases List.mem_cons.1 hch with rfl | hch
      · rcases hp.marker with hmarker | hmarker <;> rw [hmarker] <;> decide
      rcases List.mem_append.1 hch with hch | hch
      · exact hsign hch
      · exact numeralChar_of_isDigit (hp.digits ch hch)

theorem WellFormed.scan?_text_append (h : n.WellFormed) (hbehind : EndsRun numeralChar behind) :
    scan? (n.text ++ behind) = some (n, behind) := by
  rw [scan?_append hbehind, h.scan?_text]
  rfl

end Numeral

end Sexp
