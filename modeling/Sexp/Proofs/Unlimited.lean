import Sexp.Proofs.JoinedText
import Sexp.Proofs.Tally

namespace Sexp

open Grammar Text

namespace Grammar

/-- One recognizer replies like another one wherever this one does not give up. -/
def Extends (larger smaller : Recognizer α) : Prop :=
  ∀ c, smaller c ≠ .tooDeep → larger c = smaller c

theorem expressionOf_extends {larger smaller : Recognizer (List Form)}
    (hlarger : NeverBacktracks larger) (hsmaller : NeverBacktracks smaller)
    (h : Extends larger smaller) : Extends (expressionOf larger) (expressionOf smaller) := by
  intro c hc
  rw [expressionOf_eq_bind hsmaller] at hc ⊢
  rw [expressionOf_eq_bind hlarger]
  cases htoken : token c with
  | failed f => rfl
  | tooDeep => rfl
  | matched m =>
      obtain ⟨tok, next, stoppedBy⟩ := m
      cases tok with
      | atom form => rfl
      | closing => rfl
      | opening b =>
          rw [htoken] at hc
          have hcontents : smaller next.skip ≠ .tooDeep := by
            intro hdeep
            apply hc
            simp only [Reply.bind_matched, expressionFrom, hdeep]
            rfl
          simp only [Reply.bind_matched, expressionFrom, h _ hcontents]

theorem repeated_extends {larger smaller : Recognizer Form} (h : Extends larger smaller) :
    Extends (repeated larger) (repeated smaller) := by
  intro c hc
  fun_induction repeated smaller c with
  | case1 c hitem => exact absurd rfl hc
  | case2 c f hitem hcommitted =>
      have hlarger := (h c (by simp [hitem])).trans hitem
      rw [repeated, hlarger]
      exact if_pos hcommitted
  | case3 c f hitem hcommitted =>
      have hlarger := (h c (by simp [hitem])).trans hitem
      rw [repeated, hlarger]
      exact if_neg hcommitted
  | case4 c m hitem hless ih =>
      have hlarger := (h c (by simp [hitem])).trans hitem
      have hlater := ih fun hdeep => hc (Reply.map_eq_tooDeep_iff.2 hdeep)
      rw [repeated, hlarger, ← hlater]
      exact if_pos hless
  | case5 c m hitem hless =>
      have hlarger := (h c (by simp [hitem])).trans hitem
      rw [repeated, hlarger]
      exact if_neg hless

theorem forms_extends {depth depth' : Nat} (h : depth ≤ depth') :
    Extends (forms depth') (forms depth) := by
  induction depth generalizing depth' with
  | zero =>
      intro c hc
      exact absurd rfl hc
  | succ depth ih =>
      obtain ⟨larger, rfl⟩ := Nat.exists_eq_add_of_le' h
      rw [forms_succ, ← Nat.add_assoc, forms_succ]
      apply repeated_extends
      apply expressionOf_extends (forms_neverBacktracks _) (forms_neverBacktracks _)
      exact ih (Nat.le_add_left _ _)

theorem expression_extends {depth depth' : Nat} (h : depth ≤ depth') :
    Extends (expression depth') (expression depth) :=
  expressionOf_extends (forms_neverBacktracks _) (forms_neverBacktracks _) (forms_extends h)

/-- A form in which as many parentheses may be open at once as the text has characters. -/
def unlimited : Recognizer Form := fun c =>
  expression c.rest.length c

end Grammar

theorem Frontier.Leads.length_le {s t : Frontier} (h : s.Leads t) :
    t.opened.length + t.cursor.rest.length ≤ s.opened.length + s.cursor.rest.length := by
  induction h with
  | refl => exact Nat.le_refl _
  | tail _ hstep ih =>
      obtain ⟨m, -, htake⟩ := step?_eq_some_iff.1 hstep
      have hless := (precedes_step? hstep).2
      have hopened := length_opened_take? htake
      have hswing : m.value.swing ≤ 1 := by cases m.value <;> simp [Token.swing]
      omega

namespace Grammar

theorem unlimited_ne_tooDeep (c : Cursor) : unlimited c ≠ .tooDeep := by
  intro h
  have hrun := Frontier.expression_run_at c.rest.length [] c.skip_skip
  rw [expression_skip, show expression c.rest.length c = .tooDeep from h] at hrun
  cases hrun with
  | tooDeep ht hdeep =>
      have hlength := Frontier.Leads.length_le ht.leads
      have hskip := c.length_rest_skip_le
      simp only [List.length_nil, Nat.zero_add] at hdeep hlength
      omega

theorem expression_eq_unlimited {depth : Nat} {c : Cursor} (h : expression depth c ≠ .tooDeep) :
    expression depth c = unlimited c := by
  obtain hless | hmore := Nat.le_total depth c.rest.length
  · exact (expression_extends hless c h).symm
  · exact expression_extends hmore c (unlimited_ne_tooDeep c)

end Grammar

end Sexp
