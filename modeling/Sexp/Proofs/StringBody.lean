import Sexp.Form.Printer
import Sexp.Grammar.Atom
import Sexp.Proofs.Reply

namespace Sexp.Grammar

open Text

/-- The inside of a string as it is written, as far as nothing ends or breaks it,
and the characters that it stands for. -/
inductive StringText : List Char → List Char → Prop where
  | nil : StringText [] []
  | plain {ch : Char} {text value : List Char} : ch ≠ '"' → ch ≠ '\\' →
      StringText text value → StringText (ch :: text) (ch :: value)
  | escape {text value : List Char} : StringText text value →
      StringText ('\\' :: '"' :: text) ('"' :: value)

/-- What stands behind the inside of a string: the mark that ends it, a backslash
that breaks it, or nothing. -/
inductive StringEnd : List Char → Prop where
  | missing : StringEnd []
  | mark (behind : List Char) : StringEnd ('"' :: behind)
  | backslash {behind : List Char} : behind.head? ≠ some '"' → StringEnd ('\\' :: behind)

theorem exists_stringText (cs : List Char) :
    ∃ text value rest, cs = text ++ rest ∧ StringText text value ∧ StringEnd rest := by
  fun_induction stringBody 0 cs with
  | case1 => exact ⟨[], [], [], rfl, .nil, .missing⟩
  | case2 pos cs => exact ⟨[], [], _, rfl, .nil, .mark cs⟩
  | case3 pos cs ih =>
      obtain ⟨text, value, rest, rfl, htext, hrest⟩ := ih
      exact ⟨_, _, rest, rfl, .escape htext, hrest⟩
  | case4 pos cs hcs =>
      have hhead : cs.head? ≠ some '"' := by
        intro hhead
        obtain ⟨behind, rfl⟩ := List.head?_eq_some_iff.1 hhead
        exact hcs behind rfl
      exact ⟨[], [], _, rfl, .nil, .backslash hhead⟩
  | case5 pos ch cs hquotation _ hbackslash ih =>
      obtain ⟨text, value, rest, rfl, htext, hrest⟩ := ih
      exact ⟨_, _, rest, rfl, .plain hquotation hbackslash htext, hrest⟩

namespace StringText

variable {text value : List Char}

/-- The inside of a string is written as its value with a backslash in front of each
quotation mark, so that no backslash is left in the value. -/
theorem iff_escapeQuotes : StringText text value ↔ text = escapeQuotes value ∧ '\\' ∉ value := by
  constructor
  · intro h
    induction h with
    | nil => exact ⟨rfl, List.not_mem_nil⟩
    | plain hquotation hbackslash _ ih =>
        rcases ih with ⟨rfl, hvalue⟩
        rw [escapeQuotes, if_neg hquotation, List.mem_cons, not_or]
        exact ⟨rfl, Ne.symm hbackslash, hvalue⟩
    | escape _ ih =>
        rcases ih with ⟨rfl, hvalue⟩
        rw [escapeQuotes, if_pos rfl, List.mem_cons, not_or]
        exact ⟨rfl, by decide, hvalue⟩
  · rintro ⟨rfl, h⟩
    induction value with
    | nil => exact .nil
    | cons ch value ih =>
        rw [List.mem_cons, not_or] at h
        rw [escapeQuotes]
        split
        · rename_i hquotation
          rw [hquotation]
          exact .escape (ih h.2)
        · rename_i hquotation
          exact .plain hquotation (Ne.symm h.1) (ih h.2)

theorem getElem?_succ_of_backslash (h : StringText text value) {i : Nat}
    (hi : text[i]? = some '\\') : text[i + 1]? = some '"' := by
  induction h generalizing i with
  | nil => cases hi
  | plain _ hbackslash _ ih =>
      rcases i with _ | i
      · exact absurd (Option.some.inj hi) hbackslash
      · exact ih hi
  | escape _ ih =>
      rcases i with _ | _ | i
      · rfl
      · exact absurd (Option.some.inj hi) (by decide)
      · exact ih hi

theorem exists_backslash_of_quotation (h : StringText text value) {i : Nat}
    (hi : text[i]? = some '"') : ∃ j, i = j + 1 ∧ text[j]? = some '\\' := by
  induction h generalizing i with
  | nil => cases hi
  | plain hquotation _ _ ih =>
      rcases i with _ | i
      · exact absurd (Option.some.inj hi) hquotation
      · rcases ih hi with ⟨j, rfl, hj⟩
        exact ⟨j + 1, rfl, hj⟩
  | escape _ ih =>
      rcases i with _ | _ | i
      · exact absurd (Option.some.inj hi) (by decide)
      · exact ⟨0, rfl, rfl⟩
      · rcases ih hi with ⟨j, rfl, hj⟩
        exact ⟨j + 2, rfl, hj⟩

theorem stringBody_append (h : StringText text value) (pos : Nat) (rest : List Char) :
    stringBody pos (text ++ rest) = (stringBody (pos + text.length) rest).map (value ++ ·) := by
  induction h generalizing pos with
  | nil => cases h : stringBody pos rest <;> simp [h]
  | @plain ch text value hquotation hbackslash _ ih =>
      rw [List.cons_append, stringBody, ih, Reply.map_map, List.length_cons, Nat.add_assoc,
        Nat.add_comm 1]
      · rfl
      · exact hquotation
      · exact fun cs hch => absurd hch hbackslash
      · exact hbackslash
  | @escape text value _ ih =>
      rw [List.cons_append, List.cons_append, stringBody, ih, Reply.map_map, List.length_cons,
        List.length_cons, Nat.add_assoc, Nat.add_comm 2]
      rfl

theorem stringBody_mark (h : StringText text value) (pos : Nat) (behind : List Char) :
    stringBody pos (text ++ '"' :: behind) = found value ⟨pos + text.length + 1, behind⟩ := by
  rw [h.stringBody_append, stringBody]
  simp [found]

theorem stringBody_missing (h : StringText text value) (pos : Nat) :
    stringBody pos text = .failed (.expecting (pos + text.length) .closingQuote) := by
  have hend := h.stringBody_append pos []
  rwa [List.append_nil] at hend

theorem stringBody_backslash (h : StringText text value) (pos : Nat) {behind : List Char}
    (hbehind : behind.head? ≠ some '"') :
    stringBody pos (text ++ '\\' :: behind) =
      .failed (.expecting (pos + text.length) .quoteEscape) := by
  rw [h.stringBody_append, stringBody]
  · rfl
  · rintro cs rfl
    exact hbehind rfl

end StringText

theorem stringBody_eq_matched_iff {pos : Nat} {cs : List Char} {m : Match (List Char)} :
    stringBody pos cs = .matched m ↔
      ∃ text value behind, cs = text ++ '"' :: behind ∧ StringText text value ∧
        m = ⟨value, ⟨pos + text.length + 1, behind⟩, none⟩ := by
  constructor
  · intro h
    rcases exists_stringText cs with ⟨text, value, rest, rfl, htext, hend⟩
    cases hend with
    | missing =>
        rw [List.append_nil, htext.stringBody_missing] at h
        cases h
    | mark behind =>
        rw [htext.stringBody_mark, found_eq_matched_iff] at h
        exact ⟨text, value, behind, rfl, htext, h⟩
    | backslash hbehind =>
        rw [htext.stringBody_backslash _ hbehind] at h
        cases h
  · rintro ⟨text, value, behind, rfl, htext, rfl⟩
    exact htext.stringBody_mark pos behind

end Sexp.Grammar
