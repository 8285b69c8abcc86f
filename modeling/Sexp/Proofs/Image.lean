import Sexp.FormStream.Basic
import Sexp.Proofs.Readable
import Sexp.Proofs.Reading
import Sexp.Proofs.StringBody

namespace Sexp

open Grammar Text

theorem isSymbolChar_of_numeralChar {ch : Char} (h : numeralChar ch = true) :
    isSymbolChar ch = true := by
  simp only [numeralChar, Bool.or_eq_true] at h
  rcases h with h | h
  · have hrange : 48 ≤ ch.toNat ∧ ch.toNat ≤ 57 := by
      simpa [Char.isDigit, Char.le_def, UInt32.le_iff_toNat_le] using h
    have hblank : isBlank ch = false := by
      simp only [isBlank, within, blankRanges, List.any_cons, List.any_nil, Bool.or_false,
        Bool.or_eq_false_iff, Bool.and_eq_false_iff, decide_eq_false_iff_not]
      omega
    have hreserved : ch ∉ reserved := by
      intro hch
      simp only [reserved, List.mem_cons, List.not_mem_nil, or_false] at hch
      rcases hch with rfl | rfl | rfl | rfl | rfl | rfl <;> revert hrange <;> decide
    simp [isSymbolChar, hblank, hreserved]
  · simp only [List.contains_cons, List.contains_nil, Bool.or_false, Bool.or_eq_true,
      beq_iff_eq] at h
    rcases h with rfl | rfl | rfl | rfl | rfl <;> decide

theorem Text.EndsRun.numeralChar {behind : List Char} (h : EndsRun isSymbolChar behind) :
    EndsRun numeralChar behind :=
  h.mono fun _ => isSymbolChar_of_numeralChar

theorem Grammar.number?_append {cs behind : List Char} (h : EndsRun numeralChar behind) :
    number? (cs ++ behind) = number? cs := by
  unfold number?
  rw [Numeral.scan?_append h]
  cases Numeral.scan? cs <;> rfl

theorem Grammar.scan?_of_number? {cs : List Char} {numeral : Numeral} {value : Decimal}
    (h : number? cs = some (numeral, value)) :
    ∃ rest, Numeral.scan? cs = some (numeral, rest) ∧ numeral.toDecimal? = some value := by
  obtain ⟨⟨taken, rest⟩, hscan, hvalue⟩ := Option.bind_eq_some_iff.1 h
  obtain ⟨value', hdecimal, hpair⟩ := Option.map_eq_some_iff.1 hvalue
  obtain ⟨rfl, rfl⟩ := Prod.mk.inj hpair
  exact ⟨rest, hscan, hdecimal⟩

theorem Grammar.length_text_le_of_number? {cs : List Char} {numeral : Numeral} {value : Decimal}
    (h : number? cs = some (numeral, value)) : numeral.text.length ≤ cs.length := by
  obtain ⟨rest, hscan, -⟩ := scan?_of_number? h
  rw [← Numeral.text_append_of_scan hscan, List.length_append]
  exact Nat.le_add_right _ _

theorem Grammar.number?_of_append {cs tail : List Char} {numeral : Numeral} {value : Decimal}
    (h : number? (cs ++ tail) = some (numeral, value)) (hlength : numeral.text.length ≤ cs.length) :
    number? cs = some (numeral, value) := by
  obtain ⟨rest, hscan, hdecimal⟩ := scan?_of_number? h
  have htext := Numeral.text_append_of_scan hscan
  obtain ⟨later, rfl⟩ := List.prefix_of_prefix_length_le (htext ▸ List.prefix_append _ rest)
    (List.prefix_append cs tail) hlength
  rw [List.append_assoc] at htext
  obtain rfl := List.append_cancel_left htext
  rw [number?, Numeral.scan?_of_append hscan, Option.bind_some, hdecimal]
  rfl

theorem Grammar.isFinite_of_number? {cs : List Char} {numeral : Numeral} {value : Decimal}
    (h : number? cs = some (numeral, value)) :
    value.IsFinite := by
  obtain ⟨-, -, hdecimal⟩ := scan?_of_number? h
  unfold Numeral.toDecimal? Decimal.finite? at hdecimal
  split at hdecimal
  · cases hdecimal
    exact ⟨_, _, _, _, rfl⟩
  · cases hdecimal

theorem Grammar.backslash_not_mem_of_stringBody {pos : Nat} {cs : List Char}
    {m : Match (List Char)} (h : stringBody pos cs = .matched m) : '\\' ∉ m.value := by
  rcases stringBody_eq_matched_iff.1 h with ⟨text, value, behind, -, htext, rfl⟩
  exact (StringText.iff_escapeQuotes.1 htext).2

namespace Form

theorem ofSymbolText_cons (ch : Char) (name : List Char) :
    ofSymbolText (ch :: name) =
      if ch = methodMark then methodCall (String.ofList name)
      else .symbol (String.ofList (ch :: name)) := rfl

theorem items?_ofSymbolText (name : List Char) : (ofSymbolText name).items? = none := by
  cases name with
  | nil => rfl
  | cons ch name =>
      rw [ofSymbolText_cons]
      split <;> rfl

theorem readableAtom_ofSymbolText {name behind : List Char} (hne : name ≠ [])
    (hchars : ∀ ch ∈ name, isSymbolChar ch = true) (hbehind : EndsRun isSymbolChar behind)
    (htuple : name.head? ≠ some tupleMark) (hnumber : number? (name ++ behind) = none)
    (htrue : ¬"true".toList <+: name) (hfalse : ¬"false".toList <+: name) :
    (ofSymbolText name).ReadableAtom := by
  rw [number?_append hbehind.numeralChar] at hnumber
  cases name with
  | nil => exact absurd rfl hne
  | cons ch name =>
      rw [ofSymbolText_cons]
      split
      · rename_i hpoint
        subst hpoint
        refine ⟨_, rfl, ?_, ?_⟩
        · intro ch hch
          exact hchars ch (by simpa using Or.inr hch)
        · rw [noNumber_iff, String.toList_ofList]
          exact hnumber
      · rename_i hpoint
        rw [ReadableAtom, String.toList_ofList]
        exact ⟨hne, hchars, by simpa [methodMark] using hpoint, htuple, htrue, hfalse,
          noNumber_iff.2 hnumber⟩

theorem readableAtom_bare {c : Cursor} {ch : Char} {cs : List Char} (hrest : c.rest = ch :: cs)
    (hch : isSymbolChar ch = true) (hmark : ch ∉ marks) :
    (bare c).value.ReadableAtom ∧ (bare c).value.items? = none := by
  unfold bare
  split
  · rename_i numeral value hnumber
    exact ⟨isFinite_of_number? hnumber, rfl⟩
  · rename_i hnumber
    split
    · exact ⟨trivial, rfl⟩
    · rename_i htrue
      split
      · exact ⟨trivial, rfl⟩
      · rename_i hfalse
        have hsplit := List.takeWhile_append_dropWhile (p := isSymbolChar) (l := c.rest)
        have hname : (c.rest.takeWhile isSymbolChar).head? = some ch := by
          simp [hrest, hch]
        have hname_word : ∀ {word : List Char}, ¬word.isPrefixOf c.rest →
            ¬word <+: c.rest.takeWhile isSymbolChar := by
          intro word hword htake
          exact hword (List.isPrefixOf_iff_prefix.2 (htake.trans (List.takeWhile_prefix _)))
        constructor
        · rw [← hsplit] at hnumber
          refine readableAtom_ofSymbolText ?_ ?_ (EndsRun.dropWhile _ _) ?_ hnumber
            (hname_word htrue) (hname_word hfalse)
          · intro hnil
            simp [hnil] at hname
          · intro ch hch
            exact List.mem_takeWhile_imp hch
          · rw [hname]
            rintro ⟨⟩
            exact hmark (by decide)
        · exact items?_ofSymbolText _

theorem readableAtom_tupleSymbol : (Form.symbol tupleSymbol).ReadableAtom := by
  refine ⟨?_, List.all_eq_true.1 rfl, ?_, ?_, ?_, ?_, noNumber_iff.2 ?_⟩ <;> decide

end Form

open Form

theorem Grammar.readable_of_expression {depth : Nat} {c : Cursor} {m : Match Form}
    (h : expression depth c = .matched m) : m.value.Readable := by
  refine expression_induction (motive := fun _ form => form.Readable)
    ?_ ?_ ?_ ?_ ?_ depth h
  · intro _ pos cs m hm
    refine .atom rfl ?_
    rw [ReadableAtom, String.toList_ofList]
    exact backslash_not_mem_of_stringBody hm
  · intro _ c ch cs hrest hch hmark
    obtain ⟨hatom, hitems⟩ := readableAtom_bare hrest hch hmark
    exact .atom hitems hatom
  · intro _ items hitems
    exact .list hitems
  · intro _ items hitems
    exact .quote hitems
  · intro _ items hitems
    refine .list fun form hform => ?_
    rcases List.mem_cons.1 hform with rfl | hform
    · exact .atom rfl readableAtom_tupleSymbol
    · exact hitems form hform

theorem Grammar.depth_le_of_expression {depth : Nat} {c : Cursor} {m : Match Form}
    (h : expression depth c = .matched m) : m.value.depth ≤ depth := by
  refine expression_induction (motive := fun depth form => form.depth ≤ depth)
    ?_ ?_ ?_ ?_ ?_ depth h
  · intros
    exact Nat.zero_le _
  · intro depth c ch cs hrest hch hmark
    rw [depth_of_atom (readableAtom_bare hrest hch hmark).2]
    exact Nat.zero_le _
  · intro depth items hitems
    exact depth_list_le_iff.2 hitems
  · intro depth items hitems
    exact depth_quote_le_iff.2 hitems
  · intro depth items hitems
    refine depth_list_le_iff.2 fun form hform => ?_
    rcases List.mem_cons.1 hform with rfl | hform
    · exact Nat.zero_le _
    · exact hitems form hform

end Sexp
