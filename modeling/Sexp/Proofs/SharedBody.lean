import Sexp.Proofs.SelfDelimiting

namespace Sexp

open Text

namespace Frontier

theorem expression_ne_tooDeep {items : List Form} {c : Cursor} {depth : Nat}
    (hskip : c.skip = c) (h : nesting ⟨items, [], c⟩ ≤ depth) :
    Grammar.expression depth c ≠ .tooDeep := by
  intro hreply
  have hrun := expression_run_at depth items hskip
  rw [hreply] at hrun
  cases hrun with
  | tooDeep hleads hdeep =>
      have hopened := hleads.leads.length_opened_le
      rw [List.length_nil, Nat.zero_add] at hdeep
      omega

end Frontier

namespace Grammar

variable {α β : Type} {depth : Nat}

theorem closeParen_map (f : α → β) (m : Match α) :
    (closeParen ⟨f m.value, m.next, m.stoppedBy⟩ : Reply β) = (closeParen m).map f := by
  unfold closeParen
  dsimp only
  cases m.next.skip.after? [')'] <;> rfl

theorem Reply.map_bind_closeParen (f : α → β) (reply : Reply α) :
    (reply.map f).bind closeParen = (reply.bind closeParen).map f := by
  cases reply with
  | matched m => exact closeParen_map f m
  | failed => rfl
  | tooDeep => rfl

/-- The parentheses of a form decide on the form, as far behind as its mark moves them. -/
theorem oneOf_eq_shift (b : Bracket) (depth pos : Nat) (text : List Char) :
    oneOf b.shape depth ⟨pos, b.mark?.toList ++ '(' :: text⟩ =
      (((parenthesized (forms depth) ⟨pos, '(' :: text⟩).shift b.mark?.toList.length).mapFailure
        (Failure.within · b.label)).map b.build := by
  have hbody : (Cursor.shift ⟨pos, '(' :: text⟩ b.mark?.toList.length).rest = '(' :: text := rfl
  have hrest : (Cursor.mk pos (b.mark?.toList ++ '(' :: text)).rest =
      b.mark?.toList ++ '(' :: text :=
    rfl
  rw [← parenthesized_shiftInvariant (forms_shiftInvariant depth), parenthesized_of_rest hbody]
  exact recognizer_of_paren (forms_neverBacktracks depth) hrest

section Bracket

variable {pos : Nat} {text : List Char}

theorem oneOf_of_matched (b : Bracket) {items : List Form} {stop : Nat} {rest : List Char}
    (h : parenthesized (forms depth) ⟨pos, '(' :: text⟩ = .matched ⟨items, ⟨stop, rest⟩, none⟩) :
    oneOf b.shape depth ⟨pos, b.mark?.toList ++ '(' :: text⟩ =
      .matched ⟨b.build items, ⟨stop + b.mark?.toList.length, rest⟩, none⟩ := by
  rw [oneOf_eq_shift, h]
  rfl

theorem oneOf_of_failed (b : Bracket) {place : Nat} {expectation : Expectation} {committed : Bool}
    {context : List Label}
    (h : parenthesized (forms depth) ⟨pos, '(' :: text⟩ =
      .failed ⟨place, expectation, committed, context⟩) :
    oneOf b.shape depth ⟨pos, b.mark?.toList ++ '(' :: text⟩ =
      .failed ⟨place + b.mark?.toList.length, expectation, committed, b.label :: context⟩ := by
  rw [oneOf_eq_shift, h]
  rfl

theorem parenthesized_ne_tooDeep (h : (Frontier.start ('(' :: text)).nesting ≤ depth) :
    parenthesized (forms depth) ⟨0, '(' :: text⟩ ≠ .tooDeep := by
  intro hreply
  have hlist := oneOf_eq_shift .list depth 0 text
  rw [hreply] at hlist
  have hform : expression depth ⟨0, '(' :: text⟩ =
      (oneOf Bracket.list.shape depth ⟨0, '(' :: text⟩).skipBehind := expression_of_first rfl
  have hdeep := hform.trans (congrArg Reply.skipBehind hlist)
  exact Frontier.expression_ne_tooDeep rfl h hdeep

end Bracket

theorem expression_tupleSymbol (depth pos : Nat) (text : List Char) :
    expression depth ⟨pos, "tuple ".toList ++ text⟩ =
      .matched ⟨.symbol Form.tupleSymbol, Cursor.skip ⟨pos + 6, text⟩, none⟩ := by
  have hbehind : Apart (Form.symbol Form.tupleSymbol).text (' ' :: text) :=
    .inr (.cons (by decide))
  have hfound : FoundAt (forms depth) ⟨pos, "tuple ".toList ++ text⟩ (.symbol Form.tupleSymbol)
      ⟨pos + 5, ' ' :: text⟩ := Form.readableAtom_tupleSymbol.foundAt hbehind
  have hnext : Cursor.skip ⟨pos + 5, ' ' :: text⟩ = Cursor.skip ⟨pos + 6, text⟩ :=
    Separator.space.skip_append (pos + 5) text
  rw [← hnext, expression, expressionOf_eq_matched_iff (forms_neverBacktracks depth)]
  exact ⟨_, _, hfound.skip_eq.symm ▸ hfound, rfl⟩

theorem parenthesized_tupleSymbol (depth pos : Nat) (text : List Char) :
    parenthesized (forms depth) ⟨pos, "(tuple ".toList ++ text⟩ =
      ((parenthesized (forms depth) ⟨pos, '(' :: text⟩).shift 6).map
        (.symbol Form.tupleSymbol :: ·) := by
  have hskip : Cursor.skip ⟨pos + 1, "tuple ".toList ++ text⟩ =
      ⟨pos + 1, "tuple ".toList ++ text⟩ :=
    rfl
  have hrest : (Cursor.mk pos ("(tuple ".toList ++ text)).rest = '(' :: ("tuple ".toList ++ text) :=
    rfl
  have hbody : (Cursor.shift ⟨pos, '(' :: text⟩ 6).rest = '(' :: text := rfl
  rw [← parenthesized_shiftInvariant (forms_shiftInvariant depth), parenthesized_of_rest hrest,
    parenthesized_of_rest hbody, hskip]
  cases depth with
  | zero => rfl
  | succ depth =>
      have hfirst := expression_tupleSymbol depth (pos + 1) text
      rw [Nat.add_right_comm] at hfirst
      rw [← Reply.map_bind_closeParen, forms_succ]
      congr 1
      exact repeated_of_matched (expression_consumes depth) hfirst

/-- The recognizers of a list, a quote, a tuple and a call of the symbol that a tuple stands
for agree on every body that does not open more parentheses than may be open. -/
theorem oneOf_shared_body {text : List Char} {depth : Nat}
    (h : (Frontier.start ('(' :: text)).nesting ≤ depth) :
    (∃ stop items rest,
      oneOf .list depth (.ofText ('(' :: text) 0) =
        .matched ⟨.list items, ⟨stop, rest⟩, none⟩ ∧
      oneOf .quote depth (.ofText ('\'' :: '(' :: text) 0) =
        .matched ⟨.quote items, ⟨stop + 1, rest⟩, none⟩ ∧
      oneOf .tuple depth (.ofText ('^' :: '(' :: text) 0) =
        .matched ⟨.list (.symbol "tuple" :: items), ⟨stop + 1, rest⟩, none⟩ ∧
      oneOf .list depth (.ofText ("(tuple ".toList ++ text) 0) =
        .matched ⟨.list (.symbol "tuple" :: items), ⟨stop + 6, rest⟩, none⟩) ∨
    ∃ place expected context,
      oneOf .list depth (.ofText ('(' :: text) 0) =
        .failed ⟨place, expected, true, .form .list :: context⟩ ∧
      oneOf .quote depth (.ofText ('\'' :: '(' :: text) 0) =
        .failed ⟨place + 1, expected, true, .form .quote :: context⟩ ∧
      oneOf .tuple depth (.ofText ('^' :: '(' :: text) 0) =
        .failed ⟨place + 1, expected, true, .form .tuple :: context⟩ ∧
      oneOf .list depth (.ofText ("(tuple ".toList ++ text) 0) =
        .failed ⟨place + 6, expected, true, .form .list :: context⟩ := by
  have hcall := parenthesized_tupleSymbol depth 0 text
  cases hreply : parenthesized (forms depth) ⟨0, '(' :: text⟩ with
  | matched m =>
      rcases parenthesized_eq_matched_iff.1 hreply with ⟨-, inner, behind, -, -, -, rfl⟩
      rw [hreply] at hcall
      exact .inl ⟨_, _, _, oneOf_of_matched .list hreply, oneOf_of_matched .quote hreply,
        oneOf_of_matched .tuple hreply, oneOf_of_matched .list hcall⟩
  | failed f =>
      rcases f with ⟨place, expectation, committed, context⟩
      obtain rfl : committed = true :=
        parenthesized_committed (forms_neverBacktracks depth) rfl hreply
      rw [hreply] at hcall
      exact .inr ⟨_, _, _, oneOf_of_failed .list hreply, oneOf_of_failed .quote hreply,
        oneOf_of_failed .tuple hreply, oneOf_of_failed .list hcall⟩
  | tooDeep => exact absurd hreply (parenthesized_ne_tooDeep h)

/-- A body that is broken in a string. -/
theorem oneOf_shared_body_badEscape :
    (Frontier.start ('(' :: "a \"\\x".toList)).nesting ≤ 1 ∧
      oneOf .list 1 (.ofText ('(' :: "a \"\\x".toList) 0) =
        .failed ⟨4, .quoteEscape, true, [.form .list]⟩ ∧
      oneOf .quote 1 (.ofText ('\'' :: '(' :: "a \"\\x".toList) 0) =
        .failed ⟨5, .quoteEscape, true, [.form .quote]⟩ ∧
      oneOf .tuple 1 (.ofText ('^' :: '(' :: "a \"\\x".toList) 0) =
        .failed ⟨5, .quoteEscape, true, [.form .tuple]⟩ ∧
      oneOf .list 1 (.ofText ("(tuple ".toList ++ "a \"\\x".toList) 0) =
        .failed ⟨10, .quoteEscape, true, [.form .list]⟩ := by
  have hnesting : (Frontier.start ('(' :: "a \"\\x".toList)).nesting = 1 := by
    with_unfolding_all rfl
  have hlist : oneOf .list 1 (.ofText ('(' :: "a \"\\x".toList) 0) =
      .failed ⟨4, .quoteEscape, true, [.form .list]⟩ := by
    with_unfolding_all rfl
  refine ⟨Nat.le_of_eq hnesting, ?_⟩
  rcases oneOf_shared_body (Nat.le_of_eq hnesting) with
    ⟨stop, items, rest, hmatched, -⟩ | ⟨place, expectation, context, hfailed, hothers⟩
  · rw [hlist] at hmatched
    cases hmatched
  · rw [hlist] at hfailed
    cases hfailed
    exact ⟨hlist, hothers⟩

end Grammar

end Sexp
