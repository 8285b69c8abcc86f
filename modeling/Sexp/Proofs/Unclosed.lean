import Sexp.Proofs.Balance
import Sexp.Proofs.JoinedText
import Sexp.Proofs.NestingLimit
import Sexp.Proofs.RoundTrip

namespace Sexp

open Grammar Text

variable {limit : NestingLimit}

/-- A text with the beginnings of further forms below it, each with the text in it. -/
def unclosedText (text : List Char) : List (Bracket × List Char) → List Char
  | [] => text
  | (b, inner) :: later =>
      text ++ '\n' :: (b.mark?.toList ++ '(' :: unclosedText inner later)

theorem diagnosis_of_unclosed (source : List Char) (segments : List (Bracket × List Char)) :
    Failure.diagnosis source (Failure.inside ⟨source.length, .closeParen, true, [.closingParen]⟩
        (segments.map fun segment => segment.1.label)) =
      ⟨"')'", locate source source.length, "end of input",
        (segments.map fun segment => segment.1.name) ++ ["closing paren"]⟩ := by
  have hfound : foundText source source.length = "end of input" := by
    rw [foundText, List.getElem?_eq_none (Nat.le_refl _)]
  have hnames : (segments.map fun segment => segment.1.label).map Label.text =
      segments.map fun segment => segment.1.name := by
    rw [List.map_map]
    exact List.map_congr_left fun segment _ => segment.1.text_label
  rw [Failure.diagnosis, Failure.inside, hfound, List.map_append, hnames]
  rfl

namespace Frontier

theorem leads_of_outcome {c : Cursor} {forms : List Form} (h : outcome limit c = ⟨forms, none⟩)
    (items : List Form) (opened : List (Bracket × List Form)) :
    Leads ⟨items, opened, c.skip⟩ ⟨items ++ forms, opened, ⟨c.pos + c.rest.length, []⟩⟩ := by
  fun_induction outcome limit c generalizing items forms with
  | case1 c hnil =>
      cases h
      have hlength := (Cursor.Precedes.skip c).pos_add_length
      have hend : c.skip = ⟨c.pos + c.rest.length, []⟩ := by
        rw [hlength, hnil, List.length_nil, Nat.add_zero, ← hnil]
      rw [hend, List.append_nil]
  | case2 c hne m hm ih =>
      have hmatched := Reply.result_eq_ok_iff.1 hm
      have hlength := ((Cursor.Precedes.skip c).trans
        (expression_advances _ _ _ hmatched)).pos_add_length
      have hrun : FormRun limit.levels ⟨items, opened, c.skip⟩ (expression limit.levels c.skip) :=
        expression_run c.skip_skip
      rw [hmatched] at hrun
      obtain ⟨rest, hrest, hforms⟩ := Outcome.exists_of_prepend h
      have hlater := ih hrest (items ++ [m.value])
      rw [skip_next_of_expression hmatched, ← hlength, List.append_assoc, List.singleton_append,
        hforms] at hlater
      exact hrun.leads.leads.trans hlater
  | case3 => cases h

theorem leads_of_readAll {text : List Char} {forms : List Form}
    (h : readAll text limit = .ok forms) (pos : Nat) (items : List Form)
    (opened : List (Bracket × List Form)) :
    Leads ⟨items, opened, Cursor.skip ⟨pos, text⟩⟩
      ⟨items ++ forms, opened, ⟨pos + text.length, []⟩⟩ := by
  have houtcome := @outcome_shift limit ⟨0, text⟩ pos
  rw [readAll_eq_ok_iff.1 h, Cursor.shift, Nat.zero_add] at houtcome
  exact leads_of_outcome houtcome items opened

theorem leads_opening {text : List Char} {forms : List Form}
    (h : readAll text limit = .ok forms) (pos : Nat) (items : List Form)
    (opened : List (Bracket × List Form)) (b : Bracket)
    (cs : List Char) :
    Leads ⟨items, opened, Cursor.skip ⟨pos, text ++ '\n' :: (b.mark?.toList ++ '(' :: cs)⟩⟩
      ⟨[], (b, items ++ forms) :: opened,
        Cursor.skip ⟨pos + text.length + 1 + b.mark?.toList.length + 1, cs⟩⟩ := by
  have hline : TailSwap [] ('\n' :: (b.mark?.toList ++ '(' :: cs)) := .line _
  have hend : Leads ⟨items, opened, Cursor.skip ⟨pos, text ++ []⟩⟩
      ⟨items ++ forms, opened, ⟨pos + text.length, [] ++ []⟩⟩ := by
    rw [List.append_nil]
    exact leads_of_readAll h pos items opened
  obtain ⟨taken, later, -, hskip⟩ := (Cursor.Precedes.skip ⟨pos, text ++ []⟩).exists_append
    (Nat.zero_le _)
  -- the line feed is ignorable, and the form begins behind it
  have hbehind : Cursor.skip ⟨pos + text.length, '\n' :: (b.mark?.toList ++ '(' :: cs)⟩ =
      ⟨pos + text.length + 1, b.mark?.toList ++ '(' :: cs⟩ :=
    ((Separator.blank (by decide) .nil).skip_append (pos + text.length) _).trans
      (b.skip_opening _ cs)
  have hfront := (hend.swap hline hskip rfl).1
  simp only [withCursor, ← hline.skip_append hskip, List.nil_append, hbehind] at hfront
  have hcase : TokenCase ⟨pos + text.length + 1, b.mark?.toList ++ '(' :: cs⟩ _ := .opening rfl
  have hstep : step? ⟨items ++ forms, opened, ⟨pos + text.length + 1, _⟩⟩ = _ :=
    step?_opening (hcase.token_eq (b.skip_opening _ cs)) rfl
  exact hfront.tail hstep

theorem exists_leads_unclosedText {n : Nat} {segments : List (Bracket × List Char)}
    {text : List Char} {forms : List Form} (htext : readAll text limit = .ok forms)
    (pos : Nat) (items : List Form) (opened : List (Bracket × List Form))
    (hitems : heightOf (items ++ forms) opened ≤ n)
    (hsegments : ∀ segment ∈ segments, ∃ inner, readAll segment.2 limit = .ok inner ∧
      opened.length + segments.length + Form.depthOfItems inner ≤ n) :
    ∃ t, Leads ⟨items, opened, Cursor.skip ⟨pos, unclosedText text segments⟩⟩ t ∧
      t.cursor = ⟨pos + (unclosedText text segments).length, []⟩ ∧
      t.labels = labelsOf opened ++ (segments.map fun segment => segment.1.label) ∧
      t.completed = completed ⟨items ++ forms, opened, ⟨pos, []⟩⟩ ∧ t.height ≤ n := by
  induction segments generalizing text forms pos items opened with
  | nil =>
      exact ⟨_, leads_of_readAll htext pos items opened, rfl, (List.append_nil _).symm, rfl, hitems⟩
  | cons segment segments ih =>
      obtain ⟨b, inner⟩ := segment
      rw [List.forall_mem_cons] at hsegments
      obtain ⟨⟨forms', hinner, hdepth⟩, hlater⟩ := hsegments
      rw [List.length_cons] at hdepth hlater
      have hheight : heightOf ([] ++ forms') ((b, items ++ forms) :: opened) ≤ n := by
        rw [List.nil_append, heightOf]
        omega
      have hdepths : ∀ segment ∈ segments, ∃ inner, readAll segment.2 limit = .ok inner ∧
          ((b, items ++ forms) :: opened).length + segments.length + Form.depthOfItems inner ≤
            n := by
        intro segment hsegment
        obtain ⟨forms'', hread, hle⟩ := hlater segment hsegment
        refine ⟨forms'', hread, ?_⟩
        rw [List.length_cons]
        omega
      obtain ⟨t, ht, hcursor, hlabels, hcompleted, hbound⟩ := ih hinner
        (pos + text.length + 1 + b.mark?.toList.length + 1) [] _ hheight hdepths
      refine ⟨t, (leads_opening htext pos items opened b _).trans ht, ?_, ?_, ?_, hbound⟩
      · rw [hcursor, unclosedText]
        simp only [List.length_append, List.length_cons, Cursor.mk.injEq, and_true]
        omega
      · rw [hlabels]
        simp [labelsOf]
      · exact hcompleted.trans
          (completed_opening ⟨items ++ forms, opened, ⟨pos, []⟩⟩ b forms' ⟨_, []⟩)

theorem Leads.nesting_le_height {s t : Frontier} (h : s.Leads t) (ht : t.step? = none) :
    s.nesting ≤ t.height := by
  have hvia : s.LeadsVia (· ≤ t.height) t := h.via_nesting.height_le.imp fun _ hk => hk.2
  have hs : s.opened.length ≤ t.height :=
    (length_le_heightOf s.items s.opened).trans (height_le_of_leads h)
  refine (hvia.nesting_le hs).trans ?_
  rw [nesting_of_none ht]
  exact Nat.max_le.2 ⟨Nat.le_refl _, length_le_heightOf t.items t.opened⟩

end Frontier

/-- A text that can be read, with the beginnings of forms below it that nothing closes,
yields its own forms and then one error, at the end of the input and within all of these
forms. -/
theorem drain_unclosedText {text : List Char} {forms : List Form}
    {segments : List (Bracket × List Char)} (hsegments : segments ≠ [])
    (htext : readAll text limit = .ok forms)
    (hinner : ∀ segment ∈ segments, ∃ inner, readAll segment.2 limit = .ok inner ∧
      segments.length + Form.depthOfItems inner ≤ limit.levels) (traced : Bool) :
    ∃ place : Location,
      place.PointsTo (unclosedText text segments) (unclosedText text segments).length ∧
      (FormStream.start (unclosedText text segments) traced limit).drain.items =
        forms.map .form ++ [.error (Diagnosis.mk "')'" place "end of input"
          ((segments.map fun segment => segment.1.name) ++ ["closing paren"])).report] := by
  generalize hsource : unclosedText text segments = source
  have hdepth : Frontier.heightOf ([] ++ forms) [] ≤ limit.levels :=
    Form.depthOfItems_le_iff.2 fun form hform => (forms_of_readAll htext form hform).2
  obtain ⟨t, ht, hcursor, hlabels, hcompleted, hheight⟩ :=
    Frontier.exists_leads_unclosedText htext 0 [] [] hdepth (by simpa using hinner)
  rw [hsource] at ht hcursor
  rw [Nat.zero_add] at hcursor
  have hopened : t.opened ≠ [] := by
    intro hnil
    exact hsegments (by simpa [Frontier.labels, Frontier.labelsOf, hnil] using hlabels)
  have hblocked : t.Blocked ⟨t.cursor.pos, .closeParen, true, [.closingParen]⟩ :=
    .unclosed (by rw [hcursor]) hopened
  have hfinal : (Frontier.start source).final = t :=
    Frontier.Leads.final_eq_of_none ht hblocked.step?_eq_none
  have hnesting : (Frontier.start source).nesting ≤ limit.levels :=
    (Frontier.Leads.nesting_le_height ht hblocked.step?_eq_none).trans hheight
  obtain ⟨hforms, f, hf, hcommit⟩ := outcome_of_blocked hnesting (hfinal ▸ hblocked)
  rw [hfinal, hlabels, hcursor] at hcommit
  have hreport : f.report source = _ := Failure.report_eq_of_commit hcommit source
  rw [Failure.report_eq source (Failure.inside _ _)] at hreport
  refine ⟨locate source source.length, pointsTo_locate source source.length, ?_⟩
  rw [drain_start_items, Outcome.items, hforms, hf, hfinal, hcompleted, Option.map_some, hreport,
    ← diagnosis_of_unclosed]
  rfl

/-- A quote that ends in a comment, and a tuple in it, below a symbol. -/
theorem drain_unclosedText_quote :
    ∃ place : Location, place.PointsTo "a\n'(1 ;)\n^(\")\" ()".toList 17 ∧
      (FormStream.start "a\n'(1 ;)\n^(\")\" ()".toList false .standard).drain.items =
        [.form (.symbol "a"), .error (Diagnosis.mk "')'" place "end of input"
          ["quote", "tuple", "closing paren"]).report] := by
  have htext : readAll "a".toList .standard = .ok [.symbol "a"] := by
    with_unfolding_all rfl
  have hquote : readAll "1 ;)".toList .standard = .ok [.number (.finite false 1 0)] := by
    with_unfolding_all rfl
  have htuple : readAll "\")\" ()".toList .standard = .ok [.string ")", .list []] := by
    with_unfolding_all rfl
  have hquote' : ∃ inner, readAll "1 ;)".toList .standard = .ok inner ∧
      2 + Form.depthOfItems inner ≤ NestingLimit.standard.levels := ⟨_, hquote, by decide⟩
  have htuple' : ∃ inner, readAll "\")\" ()".toList .standard = .ok inner ∧
      2 + Form.depthOfItems inner ≤ NestingLimit.standard.levels := ⟨_, htuple, by decide⟩
  exact @drain_unclosedText _ _ _ [(.quote, "1 ;)".toList), (.tuple, "\")\" ()".toList)]
    (List.cons_ne_nil _ _) htext
    (List.forall_mem_cons.2 ⟨hquote', List.forall_mem_cons.2 ⟨htuple', List.forall_mem_nil _⟩⟩)
    false

end Sexp
