import Sexp.Proofs.Balance
import Sexp.Proofs.NestingLimit

/-!
# Self-delimiting forms

Lists, quotes, tuples and strings tell where they end.  Such a form is read alike whatever
stands behind it, and is broken wherever its text is cut off: behind a backslash, between a
mark and its parenthesis, in a comment or in an atom that the cut makes another one of.
-/

namespace Sexp

open Text

theorem Text.Cursor.ofText_take_append {source : List Char} {pos j : Nat}
    (h : pos + j ≤ source.length) (later : List Char) :
    ofText (source.take (pos + j) ++ later) pos = ⟨pos, (source.drop pos).take j ++ later⟩ := by
  have hpos : pos ≤ (source.take (pos + j)).length := by
    rw [List.length_take]
    omega
  rw [ofText, List.drop_append_of_le_length hpos, List.drop_take, Nat.add_sub_cancel_left]

namespace Grammar

/-- A recognizer that finds the same whatever stands behind what it takes. -/
def SelfDelimiting (recognizer : Recognizer α) : Prop :=
  ∀ ⦃pos pos' : Nat⦄ ⦃text tail : List Char⦄ ⦃value : α⦄ ⦃stoppedBy : Option Failure⦄,
    recognizer ⟨pos, text ++ tail⟩ = .matched ⟨value, ⟨pos', tail⟩, stoppedBy⟩ →
      ∀ tail', recognizer ⟨pos, text ++ tail'⟩ = .matched ⟨value, ⟨pos', tail'⟩, stoppedBy⟩

theorem SelfDelimiting.not_matched_take {recognizer : Recognizer α}
    (h : SelfDelimiting recognizer) (hadvances : Advances recognizer) {pos j : Nat}
    {text : List Char} {m n : Match α} (hm : recognizer ⟨pos, text ++ m.next.rest⟩ = .matched m)
    (hj : j < text.length) : recognizer ⟨pos, text.take j⟩ ≠ .matched n := by
  intro hn
  rcases hadvances _ _ hn with ⟨taken, hfront, -⟩
  rcases n with ⟨value, ⟨stop, left⟩, stoppedBy⟩
  dsimp only at hfront
  rw [hfront] at hn
  have hsource : taken ++ (left ++ (text.drop j ++ m.next.rest)) = text ++ m.next.rest := by
    rw [← List.append_assoc, ← hfront, ← List.append_assoc, List.take_append_drop]
  have hlonger := h hn (left ++ (text.drop j ++ m.next.rest))
  rw [hsource, hm, Reply.matched.injEq] at hlonger
  have hlength := congrArg (fun found => found.next.rest.length) hlonger
  simp only [List.length_append, List.length_drop] at hlength
  omega

theorem oneOf_selfDelimiting (b : Bracket) (depth : Nat) :
    SelfDelimiting (oneOf b.shape depth) := by
  intro pos pos' text tail value stoppedBy h tail'
  rcases oneOf_eq_matched_iff.1 h with ⟨cs, inner, behind, hrest, hinner, hclose, hmatch⟩
  simp only [Match.mk.injEq, Cursor.mk.injEq] at hmatch
  rcases hmatch with ⟨rfl, ⟨rfl, rfl⟩, rfl⟩
  rcases BodyLocal.exists_body (forms_bodyLocal depth) (forms_advances depth) hinner hclose with
    ⟨body, rfl, hlocal⟩
  have hspan : text ++ tail = b.spanOf body ++ tail := by
    simpa [Bracket.spanOf] using hrest
  have htext : text = b.spanOf body := List.append_cancel_right hspan
  rcases hlocal tail' with ⟨stop, hinner', hstop⟩
  rw [oneOf_eq_matched_iff]
  refine ⟨body ++ ')' :: tail', _, tail', ?_, hinner', ?_, ?_⟩
  · rw [htext]
    simp [Bracket.spanOf]
  · rw [hstop]
  · rw [hstop]

section Bracket

variable {b : Bracket} {depth pos j : Nat} {c : Cursor} {text cs : List Char} {m : Match Form}

theorem oneOf_committed (hrest : c.rest = b.first :: cs) {f : Failure}
    (h : oneOf b.shape depth c = .failed f) : f.committed = true := by
  cases b with
  | list => exact listOf_committed (forms_neverBacktracks depth) hrest h
  | quote => exact quoteOf_committed hrest h
  | tuple => exact tupleOf_committed hrest h

theorem skip_of_first (hrest : c.rest = b.first :: cs) : c.skip = c := by
  rcases c with ⟨pos, rest⟩
  subst hrest
  cases b <;> rfl

theorem expression_of_first (hrest : c.rest = b.first :: cs) :
    expression depth c = (oneOf b.shape depth c).skipBehind := by
  have hskip := skip_of_first hrest
  rw [← hskip] at hrest
  have hform := expressionOf_of_first (forms_neverBacktracks depth) hrest
  rw [hskip] at hform
  exact hform

theorem exists_rest_of_oneOf (h : oneOf b.shape depth c = .matched m) :
    ∃ cs, c.rest = b.first :: cs := by
  rcases oneOf_eq_matched_iff.1 h with ⟨cs, -, -, hrest, -⟩
  rw [hrest]
  exact b.opening_eq_cons cs

theorem exists_text_of_oneOf (h : oneOf b.shape depth ⟨pos, text ++ m.next.rest⟩ = .matched m) :
    ∃ cs, text = b.first :: cs := by
  rcases exists_rest_of_oneOf h with ⟨cs, hrest⟩
  cases text with
  | nil =>
      have hless := b.shape.recognizer_consumes (forms_neverExpands depth) _ _ h
      exact absurd hless (Nat.lt_irrefl _)
  | cons ch text =>
      rw [List.cons_append, List.cons.injEq] at hrest
      exact ⟨text, by rw [hrest.1]⟩

theorem depth_le_of_oneOf (h : oneOf b.shape depth c = .matched m) : m.value.depth ≤ depth := by
  rcases exists_rest_of_oneOf h with ⟨cs, hrest⟩
  have hform : expression depth c = .matched ⟨m.value, m.next.skip, none⟩ := by
    rw [expression_of_first hrest, h]
    rfl
  show (Match.mk m.value m.next.skip none).value.depth ≤ depth
  exact depth_le_of_expression hform

theorem oneOf_take_ne_tooDeep (h : oneOf b.shape depth ⟨pos, text ++ m.next.rest⟩ = .matched m)
    (hrest : text.take j = b.first :: cs) :
    oneOf b.shape depth ⟨pos, text.take j⟩ ≠ .tooDeep := by
  rcases exists_balancedSpan h with ⟨span, hspan, -, hbalanced⟩
  obtain rfl : text = span := List.append_cancel_right hspan
  have hlevel : ∀ n, balance .code ((text.take j).take n) ≤ depth := by
    intro n
    have hform := hbalanced.height.2 ⟨min n j, rfl⟩
    have hdepth := depth_le_of_oneOf h
    rw [List.take_take]
    dsimp only at hform
    omega
  have hunlimited : expression depth ⟨pos, text.take j⟩ = unlimited ⟨pos, text.take j⟩ :=
    expression_eq_unlimited_of_level (skip_of_first hrest) fun _ _ n _ => hlevel n
  rw [expression_of_first hrest] at hunlimited
  intro hdeep
  rw [hdeep] at hunlimited
  exact unlimited_ne_tooDeep _ hunlimited.symm

theorem oneOf_take_failed (h : oneOf b.shape depth ⟨pos, text ++ m.next.rest⟩ = .matched m)
    (hpos : 0 < j) (hj : j < text.length) :
    ∃ f, oneOf b.shape depth ⟨pos, text.take j⟩ = .failed f ∧ f.committed = true := by
  rcases exists_text_of_oneOf h with ⟨cs, hcs⟩
  have hrest : text.take j = b.first :: cs.take (j - 1) := by
    rw [hcs, List.take_cons hpos]
  cases hreply : oneOf b.shape depth ⟨pos, text.take j⟩ with
  | matched n =>
      have hadvances := b.shape.recognizer_advances (forms_advances depth)
      exact absurd hreply ((oneOf_selfDelimiting b depth).not_matched_take hadvances h hj)
  | failed f => exact ⟨f, rfl, oneOf_committed hrest hreply⟩
  | tooDeep => exact absurd hreply (oneOf_take_ne_tooDeep h hrest)

end Bracket

section String

variable {pos j : Nat} {text : List Char} {m : Match Form}

theorem string_selfDelimiting : SelfDelimiting string := by
  intro pos pos' text tail value stoppedBy h tail'
  by_cases hhead : (text ++ tail).head? = some '"'
  · rcases List.head?_eq_some_iff.1 hhead with ⟨cs, hrest⟩
    rcases (string_eq_matched_iff hrest).1 h with ⟨n, hn, hmatch⟩
    rcases stringBody_eq_matched_iff.1 hn with ⟨inside, chars, behind, rfl, hinside, rfl⟩
    simp only [Match.mk.injEq, Cursor.mk.injEq] at hmatch
    rcases hmatch with ⟨rfl, ⟨rfl, rfl⟩, rfl⟩
    have hliteral : text ++ tail = '"' :: (inside ++ ['"']) ++ tail := by
      simpa using hrest
    have htext : text = '"' :: (inside ++ ['"']) := List.append_cancel_right hliteral
    have hrest' : text ++ tail' = '"' :: (inside ++ '"' :: tail') := by
      rw [htext]
      simp
    rw [string_eq_matched_iff hrest']
    exact ⟨_, hinside.stringBody_mark _ _, rfl⟩
  · rw [string_refuses hhead] at h
    exact absurd h expected_ne_matched

theorem stringBody_ne_tooDeep (pos : Nat) (cs : List Char) : stringBody pos cs ≠ .tooDeep := by
  rcases exists_stringText cs with ⟨inside, chars, rest, rfl, hinside, hend⟩
  cases hend with
  | missing => simp [hinside.stringBody_missing]
  | backslash hbehind => simp [hinside.stringBody_backslash _ hbehind]
  | mark behind => simp [hinside.stringBody_mark]

theorem string_ne_tooDeep (c : Cursor) : string c ≠ .tooDeep := by
  unfold string
  split
  · rw [ne_eq, Reply.map_eq_tooDeep_iff]
    exact stringBody_ne_tooDeep _ _
  · simp [expected]

theorem string_take_failed (h : string ⟨pos, text ++ m.next.rest⟩ = .matched m)
    (hpos : 0 < j) (hj : j < text.length) :
    ∃ f, string ⟨pos, text.take j⟩ = .failed f ∧ f.committed = false := by
  have hhead : (text.take j).head? = some '"' := by
    rw [List.head?_take, if_neg (Nat.ne_of_gt hpos), ← List.head?_append_of_ne_nil text]
    · by_contra hhead
      rw [string_refuses hhead] at h
      exact expected_ne_matched h
    · rintro rfl
      exact Nat.not_lt_zero _ hj
  rcases List.head?_eq_some_iff.1 hhead with ⟨cs, hrest⟩
  cases hreply : string ⟨pos, text.take j⟩ with
  | matched n =>
      exact absurd hreply (string_selfDelimiting.not_matched_take string_advances h hj)
  | failed f => exact ⟨f, rfl, (string_failed hrest hreply).1⟩
  | tooDeep => exact absurd hreply (string_ne_tooDeep _)

end String

theorem exists_bracket_or_string {shape : Shape}
    (h : shape ∈ [Shape.list, .quote, .tuple, .string]) :
    (∃ b : Bracket, shape = b.shape) ∨ shape = .string := by
  simp only [List.mem_cons, List.not_mem_nil, or_false] at h
  rcases h with rfl | rfl | rfl | rfl
  · exact .inl ⟨.list, rfl⟩
  · exact .inl ⟨.quote, rfl⟩
  · exact .inl ⟨.tuple, rfl⟩
  · exact .inr rfl

/-- A list, a quote, a tuple or a string is read alike whatever stands behind it.  If the
text is cut off anywhere in the form, the form is broken, and for good unless it is a
string. -/
theorem oneOf_delimited {shape : Shape} (hshape : shape ∈ [Shape.list, .quote, .tuple, .string])
    {depth pos : Nat} {source : List Char} {m : Match Form}
    (h : oneOf shape depth (.ofText source pos) = .matched m) :
    (∀ later, oneOf shape depth (.ofText (source.take m.next.pos ++ later) pos) =
      .matched ⟨m.value, ⟨m.next.pos, later⟩, m.stoppedBy⟩) ∧
    ∀ k, pos < k → k < m.next.pos → ∃ f,
      oneOf shape depth (.ofText (source.take k) pos) = .failed f ∧
        (f.committed = true ↔ shape ≠ .string) := by
  rcases shape.recognizer_advances (forms_advances depth) _ _ h with ⟨text, hrest, hend⟩
  have hless := shape.recognizer_consumes (forms_neverExpands depth) _ _ h
  dsimp only [Cursor.ofText] at hrest hend hless
  have hsource : pos + text.length ≤ source.length := by
    have hlength := congrArg List.length hrest
    rw [List.length_append] at hlength
    rw [List.length_drop] at hlength hless
    omega
  -- every cut in front of the end of the form cuts the text of the form
  have hcut : ∀ (j : Nat) (later : List Char), j ≤ text.length →
      Cursor.ofText (source.take (pos + j) ++ later) pos = ⟨pos, text.take j ++ later⟩ := by
    intro j later hj
    rw [Cursor.ofText_take_append (by omega), hrest, List.take_append_of_le_length hj]
  rw [Cursor.ofText, hrest] at h
  constructor
  · intro later
    have hall : Cursor.ofText (source.take m.next.pos ++ later) pos = ⟨pos, text ++ later⟩ := by
      rw [hend, hcut _ _ (Nat.le_refl _), List.take_length]
    rw [hall]
    rcases exists_bracket_or_string hshape with ⟨b, rfl⟩ | rfl
    · exact oneOf_selfDelimiting b depth h later
    · exact string_selfDelimiting h later
  · intro k hpos hk
    rcases Nat.exists_eq_add_of_lt hpos with ⟨j, rfl⟩
    have hpart : Cursor.ofText (source.take (pos + (j + 1))) pos = ⟨pos, text.take (j + 1)⟩ := by
      have hnil := hcut (j + 1) [] (by omega)
      rwa [List.append_nil, List.append_nil] at hnil
    rw [Nat.add_assoc, hpart]
    rcases exists_bracket_or_string hshape with ⟨b, rfl⟩ | rfl
    · rcases oneOf_take_failed h (Nat.succ_pos j) (by omega) with ⟨f, hf, hcommitted⟩
      refine ⟨f, hf, iff_of_true hcommitted ?_⟩
      cases b <;> decide
    · rcases string_take_failed h (Nat.succ_pos j) (by omega) with ⟨f, hf, hcommitted⟩
      exact ⟨f, hf, by simp [hcommitted]⟩

/-- A tuple with a truth value and an escaped mark in it. -/
theorem oneOf_delimited_tuple :
    ∃ m, oneOf .tuple 1 (.ofText "a^(true \"\\\"\" 1e5)b".toList 1) = .matched m ∧
      m.next.pos = 17 ∧
      (∀ later, oneOf .tuple 1 (.ofText ("a^(true \"\\\"\" 1e5)b".toList.take 17 ++ later) 1) =
        .matched ⟨m.value, ⟨17, later⟩, m.stoppedBy⟩) ∧
      ∀ k, 1 < k → k < 17 → ∃ f,
        oneOf .tuple 1 (.ofText ("a^(true \"\\\"\" 1e5)b".toList.take k) 1) = .failed f ∧
          (f.committed = true ↔ Shape.tuple ≠ .string) := by
  have htuple : oneOf .tuple 1 (.ofText "a^(true \"\\\"\" 1e5)b".toList 1) =
      .matched ⟨Form.tupleForm [.bool true, .string "\"", .number (.finite false 1 5)],
        ⟨17, ['b']⟩, none⟩ := by
    with_unfolding_all rfl
  exact ⟨_, htuple, rfl, oneOf_delimited (by decide) htuple⟩

end Grammar

end Sexp
