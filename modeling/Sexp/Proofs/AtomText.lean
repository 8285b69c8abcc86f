import Sexp.Form.Printer
import Sexp.Proofs.Image

namespace Sexp

open Grammar Text

/-- A text that a mark closes, so that it ends there whatever follows. -/
def Closed (text : List Char) : Prop :=
  text.getLast? = some ')' ∨ text.getLast? = some '"'

/-- Two texts that keep apart when one directly follows the other. -/
def Apart (text behind : List Char) : Prop :=
  Closed text ∨ EndsRun isSymbolChar behind

theorem ne_of_isSymbolChar {ch : Char} (h : isSymbolChar ch = true) :
    ch ≠ '(' ∧ ch ≠ ')' ∧ ch ≠ '\'' ∧ ch ≠ '"' ∧ ch ≠ ';' ∧ isBlank ch = false := by
  simp only [isSymbolChar, reserved, List.contains_cons, List.contains_nil, Bool.or_false,
    Bool.and_eq_true, Bool.not_eq_true', Bool.or_eq_false_iff, beq_eq_false_iff_ne] at h
  obtain ⟨⟨-, hquotation, hquote, hopen, hclose, hcomment⟩, hblank⟩ := h
  exact ⟨hopen, hclose, hquote, hquotation, hcomment, hblank⟩

theorem not_mem_marks {ch : Char} (h : isSymbolChar ch = true) (htuple : ch ≠ Form.tupleMark) :
    ch ∉ marks := by
  obtain ⟨hopen, hclose, hquote, hquotation, -⟩ := ne_of_isSymbolChar h
  simp only [marks, List.mem_cons, List.not_mem_nil, or_false, not_or]
  exact ⟨hopen, hclose, hquote, htuple, hquotation⟩

theorem Apart.endsRun {text behind : List Char} (h : Apart text behind)
    (hchars : ∀ ch ∈ text, isSymbolChar ch = true) : EndsRun isSymbolChar behind := by
  rcases h with h | h
  · exfalso
    rcases h with h | h
    · exact (ne_of_isSymbolChar (hchars _ (List.mem_of_getLast? h))).2.1 rfl
    · exact (ne_of_isSymbolChar (hchars _ (List.mem_of_getLast? h))).2.2.2.1 rfl
  · exact h

theorem Text.Cursor.advance_length (pos : Nat) (text behind : List Char) :
    (⟨pos, text ++ behind⟩ : Cursor).advance text.length = ⟨pos + text.length, behind⟩ := by
  simp [advance]

namespace Grammar

variable {contents : Recognizer (List Form)} (pos : Nat) {behind : List Char}

theorem FoundAt.skip_eq {c : Cursor} {form : Form} {next : Cursor}
    (h : FoundAt contents c form next) : c.skip = c := by
  have hzero : ∀ {ch : Char} {cs : List Char}, c.rest = ch :: cs → isBlank ch = false →
      ch ≠ ';' → c.skip = c := by
    intro ch cs hrest hblank hcomment
    rw [Cursor.skip, hrest, ignorableLength, hblank]
    simp [hcomment]
  cases h with
  | list hrest => exact hzero hrest (by decide) (by decide)
  | quote hrest => exact hzero hrest (by decide) (by decide)
  | tuple hrest => exact hzero hrest (by decide) (by decide)
  | string hrest => exact hzero hrest (by decide) (by decide)
  | bare hrest hch =>
      obtain ⟨-, -, -, -, hcomment, hblank⟩ := ne_of_isSymbolChar hch
      exact hzero hrest hblank hcomment

theorem foundAt_of_bare {text : List Char} {form : Form} (hne : text ≠ [])
    (hchars : ∀ ch ∈ text, isSymbolChar ch = true) (htuple : text.head? ≠ some Form.tupleMark)
    (h : bare ⟨pos, text ++ behind⟩ = ⟨form, ⟨pos + text.length, behind⟩, none⟩) :
    FoundAt contents ⟨pos, text ++ behind⟩ form ⟨pos + text.length, behind⟩ := by
  obtain ⟨ch, cs, rfl⟩ := List.exists_cons_of_ne_nil hne
  have hch := hchars ch (by simp)
  have hmark := not_mem_marks hch (by simpa using htuple)
  have hbare : FoundAt contents ⟨pos, ch :: cs ++ behind⟩ (bare ⟨pos, ch :: cs ++ behind⟩).value
      (bare ⟨pos, ch :: cs ++ behind⟩).next := .bare rfl hch hmark
  rwa [h] at hbare

theorem bare_of_name {name : List Char} (hbehind : EndsRun isSymbolChar behind)
    (hchars : ∀ ch ∈ name, isSymbolChar ch = true) (htrue : ¬"true".toList <+: name)
    (hfalse : ¬"false".toList <+: name) (hnumber : NoNumber name) :
    bare ⟨pos, name ++ behind⟩ =
      ⟨Form.ofSymbolText name, ⟨pos + name.length, behind⟩, none⟩ := by
  have hnone : number? (name ++ behind) = none := by
    rw [number?_append hbehind.numeralChar]
    exact noNumber_iff.1 hnumber
  have hword : ∀ {word : List Char}, (∀ ch ∈ word, isSymbolChar ch = true) → ¬word <+: name →
      ¬word.isPrefixOf (name ++ behind) := by
    intro word hword hname hbegin
    exact hname (hbehind.prefix_of_prefix_append hword (List.isPrefixOf_iff_prefix.1 hbegin))
  unfold bare
  simp only [hnone]
  rw [if_neg (hword (List.all_eq_true.1 rfl) htrue),
    if_neg (hword (List.all_eq_true.1 rfl) hfalse),
    hbehind.takeWhile_append_of_all hchars, Cursor.advance_length]

section Plain

variable {negative : Bool} {coefficient : Nat} {exponent : Int}
  (limits : Decimal.withinLimits coefficient exponent = true)

theorem number?_plain (hbehind : EndsRun numeralChar behind) :
    number? ((Decimal.finite negative coefficient exponent limits).plain ++ behind) =
      some (Decimal.plainNumeral negative coefficient exponent,
        (Decimal.finite negative coefficient exponent limits).canonical) := by
  simp [number?, Decimal.scan?_plain hbehind, Decimal.toDecimal?_plainNumeral _ _ _ limits]

theorem bare_plain (hbehind : EndsRun numeralChar behind) :
    bare ⟨pos, (Decimal.finite negative coefficient exponent limits).plain ++ behind⟩ =
      ⟨.number (Decimal.finite negative coefficient exponent limits).canonical,
        ⟨pos + (Decimal.finite negative coefficient exponent limits).plain.length, behind⟩,
        none⟩ := by
  simp only [bare, number?_plain limits hbehind, Decimal.plainNumeral_text _ _ _ limits,
    Cursor.advance_length]

theorem symbolChars_plain :
    ∀ ch ∈ (Decimal.finite negative coefficient exponent limits).plain, isSymbolChar ch = true := by
  intro ch hch
  exact isSymbolChar_of_numeralChar (Decimal.numeralChar_of_mem_plain hch)

theorem foundAt_plain (hbehind : EndsRun isSymbolChar behind) :
    FoundAt contents ⟨pos, (Decimal.finite negative coefficient exponent limits).plain ++ behind⟩
      (.number (Decimal.finite negative coefficient exponent limits).canonical)
      ⟨pos + (Decimal.finite negative coefficient exponent limits).plain.length, behind⟩ := by
  have hhead : (Decimal.finite negative coefficient exponent limits).plain.head? ≠
      some Form.tupleMark := by
    intro hhead
    have := Decimal.numeralChar_of_mem_plain (List.mem_of_head? hhead)
    simp [numeralChar, Form.tupleMark] at this
  exact foundAt_of_bare pos Decimal.plain_ne_nil (symbolChars_plain limits) hhead
    (bare_plain pos limits hbehind.numeralChar)

end Plain

theorem bare_boolText (value : Bool) :
    bare ⟨pos, boolText value ++ behind⟩ =
      ⟨.bool value, ⟨pos + (boolText value).length, behind⟩, none⟩ := by
  have hnone : number? (boolText value ++ behind) = none := by
    refine number?_eq_none fun ch hch => ?_
    cases value <;> cases hch <;> decide
  simp only [bare, hnone]
  cases value <;> rfl

theorem stringBody_escapeQuotes {value : List Char} (h : '\\' ∉ value) :
    stringBody pos (escapeQuotes value ++ '"' :: behind) =
      found value ⟨pos + (escapeQuotes value).length + 1, behind⟩ :=
  (StringText.iff_escapeQuotes.2 ⟨rfl, h⟩).stringBody_mark pos behind

theorem foundAt_symbol {name : String} (h : Form.SymbolName name.toList)
    (hbehind : EndsRun isSymbolChar behind) :
    FoundAt contents ⟨pos, name.toList ++ behind⟩ (.symbol name)
      ⟨pos + name.toList.length, behind⟩ := by
  have hform : Form.ofSymbolText name.toList = .symbol name := by
    obtain ⟨ch, cs, hname⟩ := List.exists_cons_of_ne_nil h.ne_nil
    have hpoint := h.no_point
    rw [hname] at hpoint
    rw [hname, Form.ofSymbolText_cons, if_neg (by simpa [Form.methodMark] using hpoint), ← hname,
      String.ofList_toList]
  have hbare := bare_of_name pos hbehind h.symbolChars h.no_true h.no_false h.no_number
  rw [hform] at hbare
  exact foundAt_of_bare pos h.ne_nil h.symbolChars h.no_tuple hbare

theorem symbolChars_methodName {name : List Char} (h : Form.MethodName name) :
    ∀ ch ∈ Form.methodMark :: name, isSymbolChar ch = true := by
  intro ch hch
  rcases List.mem_cons.1 hch with rfl | hch
  · decide
  · exact h.symbolChars ch hch

theorem foundAt_methodCall {method : String} (h : Form.MethodName method.toList)
    (hbehind : EndsRun isSymbolChar behind) :
    FoundAt contents ⟨pos, Form.methodMark :: method.toList ++ behind⟩ (Form.methodCall method)
      ⟨pos + (Form.methodMark :: method.toList).length, behind⟩ := by
  have hchars := symbolChars_methodName h
  have hhead : (Form.methodMark :: method.toList).head? ≠ some Form.tupleMark := by
    simp [Form.methodMark, Form.tupleMark]
  have hbare := bare_of_name pos hbehind hchars (by simp [Form.methodMark])
    (by simp [Form.methodMark]) h.no_number
  rw [Form.ofSymbolText_cons, if_pos rfl, String.ofList_toList] at hbare
  exact foundAt_of_bare pos (List.cons_ne_nil _ _) hchars hhead hbare

theorem foundAt_boolText (value : Bool) :
    FoundAt contents ⟨pos, boolText value ++ behind⟩ (.bool value)
      ⟨pos + (boolText value).length, behind⟩ := by
  have hchars : ∀ ch ∈ boolText value, isSymbolChar ch = true := by
    cases value <;> exact List.all_eq_true.1 rfl
  refine foundAt_of_bare pos ?_ hchars ?_ (bare_boolText pos value)
  · cases value <;> decide
  · cases value <;> decide

theorem foundAt_stringLiteral {value : String} (h : '\\' ∉ value.toList) :
    FoundAt contents ⟨pos, stringLiteral value ++ behind⟩ (.string value)
      ⟨pos + (stringLiteral value).length, behind⟩ := by
  have htext : stringLiteral value ++ behind =
      '"' :: (escapeQuotes value.toList ++ '"' :: behind) := by
    simp [stringLiteral]
  have hlength : pos + (stringLiteral value).length =
      pos + 1 + (escapeQuotes value.toList).length + 1 := by
    simp [stringLiteral]
    omega
  have hbody := @stringBody_escapeQuotes (pos + 1) behind _ h
  have hfound : FoundAt contents
      ⟨pos, '"' :: (escapeQuotes value.toList ++ '"' :: behind)⟩ _ _ := .string rfl hbody
  rwa [String.ofList_toList, ← hlength, ← htext] at hfound

end Grammar

theorem Form.ReadableAtom.foundAt {form : Form} (h : form.ReadableAtom)
    {contents : Recognizer (List Form)} {pos : Nat} {behind : List Char}
    (hbehind : Apart form.text behind) :
    FoundAt contents ⟨pos, form.text ++ behind⟩ form.canonical
      ⟨pos + form.text.length, behind⟩ := by
  cases form with
  | symbol name => exact foundAt_symbol pos h (hbehind.endsRun h.symbolChars)
  | number value =>
      obtain ⟨negative, coefficient, exponent, limits, rfl⟩ := h
      exact foundAt_plain pos limits (hbehind.endsRun (symbolChars_plain limits))
  | string value => exact foundAt_stringLiteral pos h
  | bool value => exact foundAt_boolText pos value
  | function callable =>
      obtain ⟨method, rfl, hname⟩ := h
      exact foundAt_methodCall pos hname (hbehind.endsRun (symbolChars_methodName hname))
  | list => exact h.elim
  | quote => exact h.elim
  | record => exact h.elim
  | external => exact h.elim

end Sexp
