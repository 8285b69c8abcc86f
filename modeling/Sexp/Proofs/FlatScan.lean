import Sexp.Proofs.AtomText
import Sexp.Proofs.Locality

/-!
# Flat scans

A text can be scanned one character at a time, without regard to the forms in it, as
long as it is kept in mind whether a character stands in a string or in a comment.
Such a scan tells how many parentheses are open.
-/

namespace Sexp

open Grammar

namespace Text

theorem ne_of_isBlank {ch : Char} (h : isBlank ch = true) {mark : Char}
    (hmark : isBlank mark = false) : ch ≠ mark := by
  rintro rfl
  exact absurd (h.symm.trans hmark) (by simp)

/-- What a character stands in.  A backslash in a string makes no difference but to a
quotation mark right behind it. -/
inductive Mode where
  | code
  | comment
  | string
  | escape
  deriving DecidableEq, Repr

namespace Mode

/-- What the character behind the given one stands in. -/
def next : Mode → Char → Mode
  | .code, ch => if ch = '"' then .string else if ch = ';' then .comment else .code
  | .comment, ch => if ch = '\n' then .code else .comment
  | .string, ch => if ch = '"' then .code else if ch = '\\' then .escape else .string
  | .escape, ch => if ch = '\\' then .escape else .string

/-- What a character adds to the number of open parentheses. -/
def weight : Mode → Char → Int
  | .code, ch => if ch = '(' then 1 else if ch = ')' then -1 else 0
  | _, _ => 0

/-- What the character behind a text stands in. -/
def after (mode : Mode) (cs : List Char) : Mode :=
  cs.foldl next mode

theorem next_of_isSymbolChar {ch : Char} (h : isSymbolChar ch = true) : next .code ch = .code := by
  obtain ⟨-, -, -, hquotation, hcomment, -⟩ := ne_of_isSymbolChar h
  rw [next, if_neg hquotation, if_neg hcomment]

theorem weight_of_isSymbolChar {ch : Char} (h : isSymbolChar ch = true) : weight .code ch = 0 := by
  obtain ⟨hopen, hclose, -⟩ := ne_of_isSymbolChar h
  rw [weight, if_neg hopen, if_neg hclose]

theorem next_of_isBlank {ch : Char} (h : isBlank ch = true) : next .code ch = .code := by
  rw [next, if_neg (ne_of_isBlank h (by decide)), if_neg (ne_of_isBlank h (by decide))]

theorem weight_of_isBlank {ch : Char} (h : isBlank ch = true) : weight .code ch = 0 := by
  rw [weight, if_neg (ne_of_isBlank h (by decide)), if_neg (ne_of_isBlank h (by decide))]

theorem after_append (mode : Mode) (cs cs' : List Char) :
    mode.after (cs ++ cs') = (mode.after cs).after cs' :=
  List.foldl_append

end Mode

/-- How many more parentheses a text opens than it closes. -/
def balance : Mode → List Char → Int
  | _, [] => 0
  | mode, ch :: cs => mode.weight ch + balance (mode.next ch) cs

theorem balance_append (mode : Mode) (cs cs' : List Char) :
    balance mode (cs ++ cs') = balance mode cs + balance (mode.after cs) cs' := by
  induction cs generalizing mode with
  | nil => exact (Int.zero_add _).symm
  | cons ch cs ih => rw [List.cons_append, balance, ih, balance, Int.add_assoc]; rfl

theorem balance_take_append (mode : Mode) (cs cs' : List Char) (n : Nat) :
    balance mode ((cs ++ cs').take n) =
      if n ≤ cs.length then balance mode (cs.take n)
      else balance mode cs + balance (mode.after cs) (cs'.take (n - cs.length)) := by
  rw [List.take_append]
  split
  · rename_i hn
    rw [Nat.sub_eq_zero_of_le hn, List.take_zero, List.append_nil]
  · rename_i hn
    rw [List.take_of_length_le (by omega), balance_append]

/-- A text in which no parenthesis counts. -/
structure Neutral (mode : Mode) (cs : List Char) (mode' : Mode) : Prop where
  after_eq : mode.after cs = mode'
  balance_take (n : Nat) : balance mode (cs.take n) = 0

namespace Neutral

variable {mode mode' mode'' : Mode} {cs cs' : List Char}

theorem nil (mode : Mode) : Neutral mode [] mode :=
  ⟨rfl, fun _ => by rw [List.take_nil, balance]⟩

theorem cons {ch : Char} (hweight : mode.weight ch = 0) (h : Neutral (mode.next ch) cs mode') :
    Neutral mode (ch :: cs) mode' := by
  refine ⟨h.after_eq, fun n => ?_⟩
  cases n with
  | zero => rw [List.take_zero, balance]
  | succ n => rw [List.take_succ_cons, balance, hweight, h.balance_take, Int.zero_add]

theorem balance_eq (h : Neutral mode cs mode') : balance mode cs = 0 := by
  rw [← List.take_length (l := cs)]
  exact h.balance_take _

theorem append (h : Neutral mode cs mode') (h' : Neutral mode' cs' mode'') :
    Neutral mode (cs ++ cs') mode'' := by
  refine ⟨?_, fun n => ?_⟩
  · rw [Mode.after_append, h.after_eq, h'.after_eq]
  · rw [balance_take_append, h.after_eq, h.balance_eq, h'.balance_take, h.balance_take]
    exact ite_self 0

theorem of_symbolChars (h : ∀ ch ∈ cs, isSymbolChar ch = true) : Neutral .code cs .code := by
  induction cs with
  | nil => exact .nil _
  | cons ch cs ih =>
      obtain ⟨hch, hcs⟩ := List.forall_mem_cons.1 h
      have hnext := Mode.next_of_isSymbolChar hch
      exact .cons (Mode.weight_of_isSymbolChar hch) (hnext.symm ▸ ih hcs)

theorem of_stringText {text value : List Char} (h : StringText text value) :
    Neutral .string text .string := by
  induction h with
  | nil => exact .nil _
  | @plain ch text value hquotation hbackslash _ ih =>
      have hnext : Mode.next .string ch = .string := by
        rw [Mode.next, if_neg hquotation, if_neg hbackslash]
      exact .cons rfl (hnext.symm ▸ ih)
  | escape _ ih => exact .cons rfl (.cons rfl ih)

end Neutral

/-- Ignorable text from a character that stands in one mode to one that stands in
another. -/
inductive Ignored : Mode → List Char → Mode → Prop where
  | nil (mode : Mode) : Ignored mode [] mode
  | blank {ch : Char} {cs : List Char} {mode : Mode} : isBlank ch = true →
      Ignored .code cs mode → Ignored .code (ch :: cs) mode
  | semicolon {cs : List Char} {mode : Mode} : Ignored .comment cs mode →
      Ignored .code (';' :: cs) mode
  | newline {cs : List Char} {mode : Mode} : Ignored .code cs mode →
      Ignored .comment ('\n' :: cs) mode
  | word {ch : Char} {cs : List Char} {mode : Mode} : ch ≠ '\n' → Ignored .comment cs mode →
      Ignored .comment (ch :: cs) mode

theorem Ignored.neutral {mode mode' : Mode} {cs : List Char} (h : Ignored mode cs mode') :
    Neutral mode cs mode' := by
  induction h with
  | nil mode => exact .nil mode
  | blank hblank _ ih =>
      exact .cons (Mode.weight_of_isBlank hblank) ((Mode.next_of_isBlank hblank).symm ▸ ih)
  | semicolon _ ih => exact .cons rfl ih
  | newline _ ih => exact .cons rfl ih
  | @word ch cs mode' hch _ ih =>
      have hnext : Mode.next .comment ch = .comment := if_neg hch
      exact .cons rfl (hnext.symm ▸ ih)

theorem exists_ignored (flag : Bool) (cs : List Char) :
    ∃ ignored rest mode, cs = ignored ++ rest ∧ ignorableLength flag cs = ignored.length ∧
      Ignored (if flag then .comment else .code) ignored mode ∧
      (mode = .code ∨ mode = .comment ∧ rest = []) := by
  fun_induction ignorableLength flag cs with
  | case1 flag =>
      refine ⟨[], [], _, rfl, rfl, .nil _, ?_⟩
      cases flag <;> simp
  | case2 ch cs ih =>
      obtain ⟨ignored, rest, mode, rfl, hlength, hignored, hmode⟩ := ih
      refine ⟨ch :: ignored, rest, mode, rfl, congrArg (· + 1) hlength, ?_, hmode⟩
      by_cases hch : ch = '\n'
      · subst hch
        exact .newline hignored
      · rw [if_pos (by simpa using hch)] at hignored
        exact .word hch hignored
  | case3 ch cs hblank ih =>
      obtain ⟨ignored, rest, mode, rfl, hlength, hignored, hmode⟩ := ih
      exact ⟨ch :: ignored, rest, mode, rfl, congrArg (· + 1) hlength, .blank hblank hignored,
        hmode⟩
  | case4 cs hblank ih =>
      obtain ⟨ignored, rest, mode, rfl, hlength, hignored, hmode⟩ := ih
      exact ⟨';' :: ignored, rest, mode, rfl, congrArg (· + 1) hlength, .semicolon hignored, hmode⟩
  | case5 ch cs => exact ⟨[], ch :: cs, .code, rfl, rfl, .nil _, .inl rfl⟩

theorem Cursor.exists_ignored (c : Cursor) :
    ∃ ignored mode, c.rest = ignored ++ c.skip.rest ∧ c.skip.pos = c.pos + ignored.length ∧
      Ignored .code ignored mode ∧ (mode = .code ∨ mode = .comment ∧ c.skip.rest = []) := by
  obtain ⟨ignored, rest, mode, hrest, hlength, hignored, hmode⟩ := Text.exists_ignored false c.rest
  have hskip : c.skip = ⟨c.pos + ignored.length, rest⟩ := by
    rw [Cursor.skip, Cursor.advance, hlength, hrest, List.drop_left]
  rw [hskip]
  exact ⟨ignored, mode, hrest, rfl, hignored, hmode⟩

end Text

open Text

theorem Grammar.exists_symbolChars_bare (c : Cursor) :
    ∃ taken later, c.rest = taken ++ later ∧ (∀ ch ∈ taken, isSymbolChar ch = true) ∧
      (bare c).next = ⟨c.pos + taken.length, later⟩ := by
  have hrun : ∀ {n : Nat}, n ≤ (c.rest.takeWhile isSymbolChar).length →
      ∃ taken later, c.rest = taken ++ later ∧ (∀ ch ∈ taken, isSymbolChar ch = true) ∧
        c.advance n = ⟨c.pos + taken.length, later⟩ := by
    intro n hn
    have hlength : (c.rest.take n).length = n :=
      List.length_take_of_le (hn.trans (List.takeWhile_prefix _).length_le)
    refine ⟨c.rest.take n, c.rest.drop n, (List.take_append_drop _ _).symm, ?_, ?_⟩
    · have hbegin : c.rest.take n <+: c.rest.takeWhile isSymbolChar :=
        List.prefix_of_prefix_length_le (List.take_prefix _ _) (List.takeWhile_prefix _)
          (hlength.le.trans hn)
      exact fun ch hch => List.mem_takeWhile_imp (hbegin.subset hch)
    · rw [hlength]
      rfl
  have hword : ∀ {word : List Char}, (∀ ch ∈ word, isSymbolChar ch = true) →
      word.isPrefixOf c.rest = true → word.length ≤ (c.rest.takeWhile isSymbolChar).length := by
    intro word hchars hbegin
    obtain ⟨later, hrest⟩ := List.isPrefixOf_iff_prefix.1 hbegin
    rw [← hrest, List.takeWhile_append_of_pos hchars, List.length_append]
    exact Nat.le_add_right _ _
  unfold bare
  split
  · rename_i numeral value hnumber
    rw [← number?_takeWhile] at hnumber
    exact hrun (length_text_le_of_number? hnumber)
  · split
    · rename_i htrue
      exact hrun (hword (List.all_eq_true.1 rfl) htrue)
    · split
      · rename_i hfalse
        exact hrun (hword (List.all_eq_true.1 rfl) hfalse)
      · exact hrun (Nat.le_refl _)

end Sexp
