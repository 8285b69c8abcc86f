import Sexp.Proofs.Descent
import Sexp.Proofs.FlatScan

namespace Sexp

open Grammar Text

/-- How a token changes the number of open forms. -/
def Grammar.Token.swing : Token → Int
  | .opening _ => 1
  | .closing => -1
  | .atom _ => 0

theorem Grammar.Bracket.neutral_mark (b : Bracket) : Neutral .code b.mark?.toList .code := by
  cases b with
  | list => exact .nil _
  | quote => exact .cons (by decide) (.nil _)
  | tuple => exact .cons (by decide) (.nil _)

namespace Text

/-- A text in which at most one parenthesis counts. -/
structure Turns (cs : List Char) (swing : Int) : Prop where
  after_eq : Mode.after .code cs = .code
  balance_eq : balance .code cs = swing
  balance_take (n : Nat) : balance .code (cs.take n) = 0 ∨ balance .code (cs.take n) = swing

namespace Turns

variable {cs cs' : List Char} {swing : Int}

theorem of_neutral (h : Neutral .code cs .code) : Turns cs 0 :=
  ⟨h.after_eq, h.balance_eq, fun n => .inl (h.balance_take n)⟩

theorem behind (hcs : Neutral .code cs .code) (h : Turns cs' swing) : Turns (cs ++ cs') swing := by
  refine ⟨?_, ?_, fun n => ?_⟩
  · rw [Mode.after_append, hcs.after_eq, h.after_eq]
  · rw [balance_append, hcs.after_eq, hcs.balance_eq, h.balance_eq, Int.zero_add]
  · rw [balance_take_append, hcs.after_eq, hcs.balance_eq, hcs.balance_take, Int.zero_add]
    split
    · exact .inl rfl
    · exact h.balance_take _

theorem of_char {ch : Char} (hnext : Mode.next .code ch = .code) :
    Turns [ch] (Mode.weight .code ch) := by
  have hweight : balance .code [ch] = Mode.weight .code ch := Int.add_zero _
  refine ⟨hnext, hweight, fun n => ?_⟩
  cases n with
  | zero => exact .inl rfl
  | succ n =>
      rw [List.take_succ_cons, List.take_nil]
      exact .inr hweight

theorem closing : Turns [')'] (-1) :=
  of_char (by decide)

theorem opening (b : Bracket) : Turns (b.mark?.toList ++ ['(']) 1 :=
  behind b.neutral_mark (of_char (by decide))

theorem string {text value : List Char} (h : StringText text value) :
    Turns ('"' :: (text ++ ['"'])) 0 := by
  apply of_neutral
  apply Neutral.cons (by decide)
  exact (Neutral.of_stringText h).append (.cons (by decide) (.nil _))

end Turns

end Text

theorem Grammar.exists_turns_of_token {c : Cursor} {m : Match Token} (h : token c = .matched m) :
    ∃ text, c.rest = text ++ m.next.rest ∧ m.next.pos = c.pos + text.length ∧
      Turns text m.value.swing := by
  obtain ⟨ignored, mode, hrest, hpos, hignored, hmode⟩ := c.exists_ignored
  have hless := (precedes_of_token h).2
  obtain rfl : mode = .code := by
    obtain hcode | ⟨-, hnil⟩ := hmode
    · exact hcode
    · simp [hnil] at hless
  have hword : ∀ {word : List Char}, c.skip.rest = word ++ m.next.rest →
      m.next.pos = c.skip.pos + word.length → Turns word m.value.swing →
      ∃ text, c.rest = text ++ m.next.rest ∧ m.next.pos = c.pos + text.length ∧
        Turns text m.value.swing := by
    intro word hrest' hpos' hturns
    refine ⟨ignored ++ word, ?_, ?_, hturns.behind hignored.neutral⟩
    · rw [hrest, hrest', List.append_assoc]
    · rw [hpos', hpos, List.length_append, Nat.add_assoc]
  have hcase := tokenAt_eq_iff.1 h
  generalize hreply : Reply.matched m = reply at hcase
  cases hcase with
  | finish => cases hreply
  | loneMark => cases hreply
  | openString => cases hreply
  | badEscape => cases hreply
  | closing hclose =>
      cases hreply
      exact hword hclose rfl .closing
  | @opening b cs hopen =>
      cases hreply
      refine hword (hopen.trans ?_) ?_ (.opening b)
      · rw [List.append_assoc, List.singleton_append]
      · rw [List.length_append]
        rfl
  | @string text value cs hstring htext =>
      cases hreply
      refine hword (hstring.trans ?_) ?_ (.string htext)
      · rw [List.cons_append, List.append_assoc, List.singleton_append]
      · simp only [List.length_cons, List.length_append, List.length_nil]
        omega
  | bare =>
      cases hreply
      obtain ⟨word, later, hbegin, hchars, hnext⟩ := exists_symbolChars_bare c.skip
      rw [hnext] at hword
      rw [hnext]
      exact hword hbegin rfl (.of_neutral (.of_symbolChars hchars))

namespace Frontier

theorem length_opened_take? {s t : Frontier} {next : Cursor} {tok : Token}
    (h : s.take? next tok = some t) : s.opened.length + tok.swing = t.opened.length := by
  unfold take? at h
  split at h
  · cases h
    rfl
  · cases h
    exact Int.add_zero _
  · split at h <;> cases h
    rename_i hopened
    rw [hopened, List.length_cons, Token.swing]
    push_cast
    exact Int.add_neg_cancel_right _ 1

/-- What a flat scan of a text counts from a cursor, around which some forms are open,
to a frontier. -/
structure Tally (p : Nat → Prop) (c : Cursor) (opened : Nat) (t : Frontier) (text : List Char) :
    Prop where
  rest : c.rest = text ++ t.cursor.rest
  pos : t.cursor.pos = c.pos + text.length
  mode : Mode.after .code text = .code ∨ Mode.after .code text = .comment ∧ t.cursor.rest = []
  total : opened + balance .code text = t.opened.length
  level (n : Nat) : balance .code (text.take n) = 0 ∨
    ∃ k : Nat, p k ∧ opened + balance .code (text.take n) = k

namespace Tally

variable {p : Nat → Prop} {c : Cursor} {opened : Nat} {t : Frontier} {text : List Char}

theorem of_skip (ht : t.cursor = c.skip) : ∃ text, Tally p c t.opened.length t text := by
  obtain ⟨ignored, mode, hrest, hpos, hignored, hmode⟩ := c.exists_ignored
  rw [← ht] at hrest hpos hmode
  have hneutral := hignored.neutral
  refine ⟨ignored, hrest, hpos, hneutral.after_eq.symm ▸ hmode, ?_, fun n => ?_⟩
  · rw [hneutral.balance_eq, Int.add_zero]
  · exact .inl (hneutral.balance_take n)

theorem cons {next : Cursor} {before : List Char} {swing : Int} {opened' : Nat}
    (hrest : c.rest = before ++ next.rest) (hpos : next.pos = c.pos + before.length)
    (hturns : Turns before swing) (hopened : opened + swing = opened') (hp : p opened')
    (h : Tally p next opened' t text) : Tally p c opened t (before ++ text) := by
  have hmode : Mode.after .code (before ++ text) = Mode.after .code text := by
    rw [Mode.after_append, hturns.after_eq]
  refine ⟨?_, ?_, hmode.symm ▸ h.mode, ?_, fun n => ?_⟩
  · rw [hrest, h.rest, List.append_assoc]
  · rw [h.pos, hpos, List.length_append, Nat.add_assoc]
  · rw [balance_append, hturns.after_eq, hturns.balance_eq, ← Int.add_assoc, hopened, h.total]
  · rw [balance_take_append, hturns.after_eq, hturns.balance_eq]
    split
    · obtain hzero | hswing := hturns.balance_take n
      · exact .inl hzero
      · exact .inr ⟨opened', hp, by rw [hswing, hopened]⟩
    · rw [← Int.add_assoc, hopened]
      obtain hzero | hlevel := h.level (n - before.length)
      · exact .inr ⟨opened', hp, by rw [hzero, Int.add_zero]⟩
      · exact .inr hlevel

theorem eq_take (h : Tally p c opened t text) : text = c.rest.take text.length := by
  rw [h.rest, List.take_left]

theorem level_of (h : Tally p c opened t text) (hopened : p opened) (n : Nat) :
    ∃ k : Nat, p k ∧ opened + balance .code (text.take n) = k := by
  obtain hzero | hlevel := h.level n
  · exact ⟨opened, hopened, by rw [hzero, Int.add_zero]⟩
  · exact hlevel

end Tally

section Run

variable {p : Nat → Prop} {s t u : Frontier} {c : Cursor} {text : List Char}

theorem LeadsVia.exists_tally (h : s.LeadsVia p t) (hs : s.cursor = c.skip) :
    ∃ text, Tally p c s.opened.length t text := by
  induction h using Relation.ReflTransGen.head_induction_on generalizing c with
  | refl => exact Tally.of_skip hs
  | @head s u hstep _ ih =>
      obtain ⟨m, htoken, htake⟩ := step?_eq_some_iff.1 hstep.1
      rw [hs, token_skip] at htoken
      obtain ⟨before, hrest, hpos, hturns⟩ := exists_turns_of_token htoken
      obtain ⟨text, htally⟩ := ih (cursor_take? htake)
      exact ⟨_, htally.cons hrest hpos hturns (length_opened_take? htake) hstep.2⟩

theorem Tally.exists_level {opened : Nat} (h : Tally p c opened t text) (hs : s.cursor = c.skip)
    (hopened : s.opened.length = opened) (hu : s.Leads u) (ht : u.Leads t) :
    ∃ n ≤ text.length, c.pos + n = u.cursor.pos ∧
      opened + balance .code (text.take n) = u.opened.length := by
  obtain ⟨before, hbefore⟩ := hu.via_nesting.exists_tally hs
  have hlength : before.length ≤ text.length := by
    have hcursor := h.pos
    have hpos := ht.precedes.pos_le
    have hend := hbefore.pos
    omega
  have htake : text.take before.length = before := by
    have hrest := hbefore.eq_take
    rw [h.rest, List.take_append_of_le_length hlength] at hrest
    exact hrest.symm
  exact ⟨before.length, hlength, hbefore.pos.symm, by rw [htake, ← hopened, hbefore.total]⟩

end Run

end Frontier

end Sexp
