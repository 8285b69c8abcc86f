import Sexp.Proofs.AtomText

namespace Sexp

namespace Grammar

open Form Text

/-- The quotation mark at a position closes a string: no backslash stands in front of it. -/
def ClosesAt (source : List Char) (i : Nat) : Prop :=
  source[i]? = some '"' ∧ source[i - 1]? ≠ some '\\'

/-- The string that begins at `pos` breaks at a backslash: no quotation mark stands behind
it, and none closes the string in front of it. -/
structure BreaksAt (source : List Char) (pos i : Nat) : Prop where
  pos_lt : pos < i
  backslash : source[i]? = some '\\'
  not_escape : source[i + 1]? ≠ some '"'
  not_closed : ∀ j, pos < j → j < i → ¬ClosesAt source j

section Inside

variable {source text value rest : List Char} {pos i : Nat}

theorem getElem?_behind (hrest : source.drop pos = '"' :: rest) (i : Nat) :
    source[pos + 1 + i]? = rest[i]? := by
  rw [Nat.add_assoc, ← List.getElem?_drop, hrest, Nat.add_comm 1, List.getElem?_cons_succ]

theorem getElem?_inside (hrest : source.drop pos = '"' :: (text ++ rest)) (hi : i < text.length) :
    source[pos + 1 + i]? = text[i]? := by
  rw [getElem?_behind hrest, List.getElem?_append_left hi]

variable (hrest : source.drop pos = '"' :: (text ++ rest)) (htext : StringText text value)

include hrest htext

theorem not_closesAt_inside (hpos : pos < i) (hi : i < pos + 1 + text.length) :
    ¬ClosesAt source i := by
  rintro ⟨hquotation, hbackslash⟩
  rcases Nat.exists_eq_add_of_le hpos with ⟨k, rfl⟩
  rw [getElem?_inside hrest (by omega)] at hquotation
  rcases htext.exists_backslash_of_quotation hquotation with ⟨j, rfl, hj⟩
  apply hbackslash
  rw [← Nat.add_assoc, Nat.add_sub_cancel]
  exact (getElem?_inside hrest (by omega)).trans hj

theorem not_breaksAt_inside (hi : i < pos + 1 + text.length) : ¬BreaksAt source pos i := by
  intro h
  rcases Nat.exists_eq_add_of_le h.pos_lt with ⟨k, rfl⟩
  have hbackslash := h.backslash
  rw [Nat.succ_eq_add_one, getElem?_inside hrest (by omega)] at hbackslash
  have hescape := htext.getElem?_succ_of_backslash hbackslash
  rcases List.getElem?_eq_some_iff.1 hescape with ⟨hk, -⟩
  exact h.not_escape ((getElem?_inside hrest hk).trans hescape)

end Inside

theorem string_of_rest {c : Cursor} {cs : List Char} (hrest : c.rest = '"' :: cs) :
    string c = (stringBody (c.pos + 1) cs).map fun value => .string (String.ofList value) := by
  simp only [string, after?_of_rest hrest]

theorem stringLiteral_append (value : String) (behind : List Char) :
    stringLiteral value ++ behind = '"' :: (escapeQuotes value.toList ++ '"' :: behind) := by
  simp [stringLiteral]

theorem length_stringLiteral (value : String) :
    (stringLiteral value).length = (escapeQuotes value.toList).length + 2 := by
  simp [stringLiteral]

theorem string_eq_matched_iff_literal {c : Cursor} {m : Match Form} :
    string c = .matched m ↔
      ∃ (value : String) (behind : List Char), '\\' ∉ value.toList ∧
        c.rest = stringLiteral value ++ behind ∧
        m = ⟨.string value, ⟨c.pos + (stringLiteral value).length, behind⟩, none⟩ := by
  constructor
  · intro h
    by_cases hhead : c.rest.head? = some '"'
    · rcases List.head?_eq_some_iff.1 hhead with ⟨cs, hrest⟩
      rcases (string_eq_matched_iff hrest).1 h with ⟨n, hn, rfl⟩
      rcases stringBody_eq_matched_iff.1 hn with ⟨text, value, behind, rfl, htext, rfl⟩
      rcases StringText.iff_escapeQuotes.1 htext with ⟨rfl, hvalue⟩
      refine ⟨String.ofList value, behind, by rwa [String.toList_ofList], ?_, ?_⟩
      · rw [hrest, stringLiteral_append, String.toList_ofList]
      · rw [length_stringLiteral, String.toList_ofList, Nat.add_comm _ 2, ← Nat.add_assoc,
          Nat.add_right_comm (c.pos + 1)]
    · rw [string_refuses hhead] at h
      exact absurd h expected_ne_matched
  · rintro ⟨value, behind, hvalue, hrest, rfl⟩
    rw [stringLiteral_append] at hrest
    rw [string_of_rest hrest, stringBody_escapeQuotes _ hvalue, length_stringLiteral]
    simp only [found, Reply.map_matched, String.ofList_toList]
    congr 3
    omega

theorem string_failed_cases {source : List Char} {pos : Nat} (hquotation : source[pos]? = some '"')
    (h : ∀ m, string (.ofText source pos) ≠ .matched m) :
    (∃ p, BreaksAt source pos p ∧ (∀ i, BreaksAt source pos i → p ≤ i) ∧
      string (.ofText source pos) = .failed ⟨p, .quoteEscape, false, []⟩) ∨
    (∀ i, ¬BreaksAt source pos i) ∧
      string (.ofText source pos) = .failed ⟨source.length, .closingQuote, false, []⟩ := by
  rcases List.getElem?_eq_some_iff.1 hquotation with ⟨hlength, hget⟩
  have hdrop : source.drop pos = '"' :: source.drop (pos + 1) := by
    rw [List.drop_eq_getElem_cons hlength, hget]
  have hstring := string_of_rest (c := .ofText source pos) hdrop
  have hend : source.length = pos + 1 + (source.drop (pos + 1)).length := by
    rw [List.length_drop]
    omega
  rcases exists_stringText (source.drop (pos + 1)) with ⟨text, value, rest, hrest, htext, hends⟩
  rw [hrest] at hdrop hstring hend
  have hinside := fun i => not_breaksAt_inside (i := i) hdrop htext
  cases hends with
  | missing =>
      right
      constructor
      · intro i hi
        rcases List.getElem?_eq_some_iff.1 hi.backslash with ⟨hlt, -⟩
        apply hinside i _ hi
        rwa [hend, List.append_nil] at hlt
      · rw [hstring, List.append_nil, htext.stringBody_missing, hend, List.append_nil]
        rfl
  | mark behind =>
      rw [htext.stringBody_mark] at hstring
      exact absurd hstring (h _)
  | @backslash behind hbehind =>
      left
      refine ⟨pos + 1 + text.length, ⟨?_, ?_, ?_, ?_⟩, ?_, ?_⟩
      · omega
      · rw [getElem?_behind hdrop]
        simp
      · rw [Nat.add_assoc (pos + 1), getElem?_behind hdrop, List.getElem?_append_right (by omega),
          Nat.add_sub_cancel_left, List.getElem?_cons_succ, ← List.head?_eq_getElem?]
        exact hbehind
      · exact fun j hpos hj => not_closesAt_inside hdrop htext hpos hj
      · intro i hi
        by_contra hlt
        exact hinside i (Nat.lt_of_not_le hlt) hi
      · rw [hstring, htext.stringBody_backslash _ hbehind]
        rfl

/-- The literal of a text without a backslash is read as that text, whatever follows it, and
nothing but such a literal is read as a string.  A string that is not read ends at its first
broken escape, or at the end of the source if it has none.  So no string that holds a
backslash is read from its own text. -/
theorem string_literal_exact :
    (∀ (value : String) (behind : List Char), '\\' ∉ value.toList →
      string (.ofText (stringLiteral value ++ behind) 0) =
        .matched ⟨.string value,
          .ofText (stringLiteral value ++ behind) (stringLiteral value).length, none⟩) ∧
    (∀ (source : List Char) (pos : Nat) (m : Match Form),
      string (.ofText source pos) = .matched m →
        ∃ value : String, '\\' ∉ value.toList ∧
          m = ⟨.string value, .ofText source m.next.pos, none⟩ ∧
          (source.take m.next.pos).drop pos = stringLiteral value) ∧
    (∀ (source : List Char) (pos : Nat), source[pos]? = some '"' →
      (∀ m, string (.ofText source pos) ≠ .matched m) →
        (∃ p, BreaksAt source pos p ∧ (∀ i, BreaksAt source pos i → p ≤ i) ∧
          string (.ofText source pos) = .failed ⟨p, .quoteEscape, false, []⟩) ∨
        (∀ i, ¬BreaksAt source pos i) ∧
          string (.ofText source pos) = .failed ⟨source.length, .closingQuote, false, []⟩) ∧
    ∀ (value : String) (behind : List Char), '\\' ∈ value.toList → ∀ m,
      (string (.ofText ((Form.string value).text ++ behind) 0) = .matched m →
        m.value ≠ .string value) ∧
      ∀ depth, expression depth (.ofText ((Form.string value).text ++ behind) 0) = .matched m →
        m.value ≠ .string value := by
  refine ⟨fun value behind hvalue => ?_, fun source pos m h => ?_, fun source pos => ?_,
    fun value behind hvalue m => ⟨fun h hm => ?_, fun depth h hm => ?_⟩⟩
  · refine string_eq_matched_iff_literal.2 ⟨value, behind, hvalue, rfl, ?_⟩
    rw [Cursor.ofText, List.drop_left, Cursor.ofText, Nat.zero_add]
  · rcases string_eq_matched_iff_literal.1 h with ⟨value, behind, hvalue, hrest, rfl⟩
    have hdrop : source.drop pos = stringLiteral value ++ behind := hrest
    refine ⟨value, hvalue, ?_, ?_⟩
    · exact congrArg (Match.mk (Form.string value) · none) (Cursor.ofText_add_length hdrop).symm
    · show (source.take (pos + (stringLiteral value).length)).drop pos = stringLiteral value
      rw [List.drop_take, Nat.add_sub_cancel_left, hdrop, List.take_left]
  · exact string_failed_cases
  · rcases string_eq_matched_iff_literal.1 h with ⟨value', _, hvalue', -, rfl⟩
    rw [Form.string.injEq] at hm
    exact hvalue' (hm ▸ hvalue)
  · have hreadable := readable_of_expression h
    rw [hm, Readable, AllAtoms.atom_iff rfl] at hreadable
    exact hreadable hvalue

/-- A text that ends in a quotation mark, a string that breaks, and a string whose last
character is a backslash. -/
theorem string_literal_exact_escape :
    ('\\' ∉ "a\"".toList ∧ string (.ofText (stringLiteral "a\"" ++ ['b']) 0) =
      .matched ⟨.string "a\"",
        .ofText (stringLiteral "a\"" ++ ['b']) (stringLiteral "a\"").length, none⟩) ∧
    (∃ value : String, '\\' ∉ value.toList ∧
      (("\"a\\\"\"b".toList.take 5).drop 0) = stringLiteral value) ∧
    (∃ p, BreaksAt "\"a\\b\"".toList 0 p ∧ string (.ofText "\"a\\b\"".toList 0) =
      .failed ⟨p, .quoteEscape, false, []⟩) ∧
    ∀ m, string (.ofText ((Form.string "a\\").text ++ ['"']) 0) = .matched m →
      m.value ≠ .string "a\\" := by
  rcases string_literal_exact with ⟨hread, hliteral, hfailed, hbackslash⟩
  have hmatched : string (.ofText "\"a\\\"\"b".toList 0) =
      .matched ⟨.string "a\"", ⟨5, ['b']⟩, none⟩ := by
    with_unfolding_all rfl
  have hbroken : string (.ofText "\"a\\b\"".toList 0) =
      .failed ⟨2, .quoteEscape, false, []⟩ := by
    with_unfolding_all rfl
  refine ⟨⟨by decide, hread _ _ (by decide)⟩, ?_, ?_, ?_⟩
  · rcases hliteral _ _ _ hmatched with ⟨value, hvalue, -, htext⟩
    exact ⟨value, hvalue, htext⟩
  · have hcases := hfailed "\"a\\b\"".toList 0 rfl fun m h => by
      rw [hbroken] at h
      cases h
    rw [hbroken] at hcases
    rcases hcases with ⟨p, hp, -, h⟩ | ⟨-, h⟩
    · exact ⟨p, hp, hbroken.trans h⟩
    · cases h
  · exact fun m => (hbackslash "a\\" ['"'] (by decide) m).1

end Grammar

end Sexp
