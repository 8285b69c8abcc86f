import Sexp.Proofs.Descent
import Sexp.Proofs.LineColumn

/-!
# Faults

A text that cannot be read has one of five faults.  Which one it is can be told from
what is expected where reading fails, and everything that is reported follows from
the forms that are open there.
-/

namespace Sexp

open Grammar Text

variable {limit : NestingLimit}

namespace Frontier

/-- Why a frontier is blocked, one case for each kind of fault. -/
inductive FaultCase (s : Frontier) : Failure → Prop where
  | strayParen {cs : List Char} : s.cursor.rest = ')' :: cs → s.opened = [] →
      FaultCase s (.expecting s.cursor.pos .expression)
  | openString {text value : List Char} : s.cursor.rest = '"' :: text → StringText text value →
      FaultCase s (.expecting (s.cursor.pos + 1 + text.length) .closingQuote)
  | badEscape {text value cs : List Char} : s.cursor.rest = '"' :: (text ++ '\\' :: cs) →
      StringText text value → cs.head? ≠ some '"' →
      FaultCase s (.expecting (s.cursor.pos + 1 + text.length) .quoteEscape)
  | loneMark {b : Bracket} {mark : Char} {cs : List Char} : b.mark? = some mark →
      s.cursor.rest = mark :: cs → cs.head? ≠ some '(' →
      FaultCase s ⟨s.cursor.pos + 1, .openParen, true, [b.label]⟩
  | missingParen : s.cursor.rest = [] → s.opened ≠ [] →
      FaultCase s ⟨s.cursor.pos, .closeParen, true, [.closingParen]⟩

theorem blocked_iff {s : Frontier} {f : Failure} (hskip : s.cursor.skip = s.cursor) :
    s.Blocked f ↔ FaultCase s f := by
  constructor
  · intro h
    cases h with
    | stray hrest hopened => exact .strayParen hrest hopened
    | unclosed hrest hopened => exact .missingParen hrest hopened
    | broken hne htoken =>
        have hcase := tokenAt_eq_iff.1 htoken
        rw [hskip] at hcase
        generalize hreply : (Reply.failed f : Reply Token) = reply at hcase
        cases hcase with
        | finish hrest => exact absurd hrest hne
        | loneMark hmark hrest hcs =>
            cases hreply
            exact .loneMark hmark hrest hcs
        | openString hrest htext =>
            cases hreply
            exact .openString hrest htext
        | badEscape hrest htext hcs =>
            cases hreply
            exact .badEscape hrest htext hcs
        | _ => cases hreply
  · intro h
    have hbroken : TokenCase s.cursor (.failed f) → s.cursor.rest ≠ [] → s.Blocked f :=
      fun hcase hne => .broken hne (hcase.token_eq hskip)
    cases h with
    | strayParen hrest hopened => exact .stray hrest hopened
    | missingParen hrest hopened => exact .unclosed hrest hopened
    | openString hrest htext => exact hbroken (.openString hrest htext) (by simp [hrest])
    | badEscape hrest htext hcs => exact hbroken (.badEscape hrest htext hcs) (by simp [hrest])
    | loneMark hmark hrest hcs => exact hbroken (.loneMark hmark hrest hcs) (by simp [hrest])

end Frontier

/-- The kinds of faults. -/
inductive Fault where
  /-- A parenthesis that closes no form. -/
  | strayParen
  /-- A string that does not end. -/
  | openString
  /-- A backslash in a string in front of anything but a quotation mark. -/
  | badEscape
  /-- A mark without a parenthesis behind it. -/
  | loneMark
  /-- A form that is not closed. -/
  | missingParen
  deriving DecidableEq, Repr

/-- The names of the open forms, from the outermost to the innermost. -/
def Frontier.names (s : Frontier) : List String :=
  (s.opened.map fun o => o.1.name).reverse

theorem Frontier.text_labels (s : Frontier) : s.labels.map Label.text = s.names := by
  rw [labels, labelsOf, names, List.map_reverse, List.map_map]
  exact congrArg List.reverse (List.map_congr_left fun o _ => o.1.text_label)

namespace Fault

/-- What is expected where there is such a fault, in words. -/
def expected : Fault → String
  | .strayParen => "expression (list, quote, tuple, string, number, boolean, symbol)"
  | .openString => "closing '\"'"
  | .badEscape => "'\\\"' escape"
  | .loneMark => "'('"
  | .missingParen => "')'"

/-- Where a fault lies: what stands in the text at a position and in front of it, and
which names the fault is within.  The text in front of it is taken as far as its
tokens go. -/
def LiesAt (source : List Char) (pos : Nat) (context : List String) (fault : Fault) : Prop :=
  let before := (Frontier.start (source.take pos)).final
  match fault with
  | .strayParen =>
      source[pos]? = some ')' ∧ before.cursor.rest = [] ∧ before.names = [] ∧ context = []
  | .openString =>
      pos = source.length ∧
        (∃ text value, before.cursor.rest = '"' :: text ∧ StringText text value) ∧
        context = before.names
  | .badEscape =>
      source[pos]? = some '\\' ∧ source[pos + 1]? ≠ some '"' ∧
        (∃ text value, before.cursor.rest = '"' :: text ∧ StringText text value) ∧
        context = before.names
  | .loneMark =>
      ∃ mark name, (mark = '\'' ∧ name = "quote" ∨ mark = '^' ∧ name = "tuple") ∧
        (∃ q, pos = q + 1 ∧ source[q]? = some mark) ∧ before.cursor.rest = [mark] ∧
        source[pos]? ≠ some '(' ∧ context = before.names ++ [name]
  | .missingParen =>
      pos = source.length ∧ before.cursor.rest = [] ∧ before.names ≠ [] ∧
        context = before.names ++ ["closing paren"]

theorem expected_injective : Function.Injective expected := by
  intro a b h
  cases a <;> cases b <;> first | rfl | exact absurd h (by decide)

theorem LiesAt.pos_le {source : List Char} {pos : Nat} {context : List String} {fault : Fault}
    (h : LiesAt source pos context fault) : pos ≤ source.length := by
  have hchar : ∀ {n : Nat} {ch : Char}, source[n]? = some ch → n < source.length :=
    fun hn => (List.getElem?_eq_some_iff.1 hn).1
  cases fault with
  | strayParen => exact Nat.le_of_lt (hchar h.1)
  | openString => exact Nat.le_of_eq h.1
  | badEscape => exact Nat.le_of_lt (hchar h.1)
  | loneMark =>
      obtain ⟨mark, name, -, ⟨q, hq, hmark⟩, -⟩ := h
      exact hq ▸ hchar hmark
  | missingParen => exact Nat.le_of_eq h.1

end Fault

namespace Frontier

variable {source : List Char} {t : Frontier}

theorem Leads.final_take (h : (start source).Leads t) {n : Nat} {text : List Char} {f : Failure}
    (htext : t.cursor.rest.take n = text) (hswap : TailSwap t.cursor.rest text)
    (hskip : Cursor.skip ⟨t.cursor.pos, text⟩ = ⟨t.cursor.pos, text⟩)
    (hcase : TokenCase ⟨t.cursor.pos, text⟩ (.failed f)) :
    (start (source.take (t.cursor.pos + n))).final.cursor.rest = text ∧
      (start (source.take (t.cursor.pos + n))).final.names = t.names := by
  -- of what is left of the text behind `t` no token can be taken
  have hstuck := step?_withCursor_eq_none (s := t) (hcase.token_eq hskip)
  have hfinal : (start (source.take (t.cursor.pos + n))).final =
      t.withCursor ⟨t.cursor.pos, text⟩ := by
    rw [List.take_add, ← h.rest_eq_drop.1, htext]
    exact (h.start_swap hswap).1.final_eq_of_none hstuck
  rw [hfinal, withCursor, hskip]
  exact ⟨rfl, rfl⟩

theorem Leads.final_take_here (h : (start source).Leads t) :
    (start (source.take t.cursor.pos)).final.cursor.rest = [] ∧
      (start (source.take t.cursor.pos)).final.names = t.names :=
  h.final_take (n := 0) List.take_zero (.cut _) rfl (.finish rfl)

theorem Leads.final_take_string (h : (start source).Leads t) {text value behind : List Char}
    (hrest : t.cursor.rest = '"' :: (text ++ behind)) (htext : StringText text value) :
    (start (source.take (t.cursor.pos + 1 + text.length))).final.cursor.rest = '"' :: text ∧
      (start (source.take (t.cursor.pos + 1 + text.length))).final.names = t.names := by
  have htake : t.cursor.rest.take (1 + text.length) = '"' :: text := by
    rw [hrest, Nat.add_comm, List.take_succ_cons, List.take_left]
  have hswap : TailSwap t.cursor.rest ('"' :: text) := hrest ▸ .quotation _ _
  rw [Nat.add_assoc]
  exact h.final_take htake hswap rfl (.openString rfl htext)

theorem Leads.getElem?_eq (h : (start source).Leads t) (front : List Char) {behind : List Char}
    (hrest : t.cursor.rest = front ++ behind) (n : Nat) :
    source[t.cursor.pos + front.length + n]? = behind[n]? := by
  rw [Nat.add_assoc, ← List.getElem?_drop, ← h.rest_eq_drop.1, hrest,
    List.getElem?_append_right (Nat.le_add_right _ _), Nat.add_sub_cancel_left]

theorem FaultCase.liesAt (h : (start source).Leads t) {g : Failure} (hcase : FaultCase t g) :
    ∃ fault : Fault, fault.LiesAt source g.pos (t.names ++ g.context.map Label.text) ∧
      g.expected.text = fault.expected := by
  have hlength := h.rest_eq_drop.2
  cases hcase with
  | @strayParen cs hrest hopened =>
      obtain ⟨hbefore, hsame⟩ := h.final_take_here
      have hnames : t.names = [] := by
        rw [names, hopened]
        rfl
      refine ⟨.strayParen, ⟨?_, hbefore, hsame.trans hnames, ?_⟩, rfl⟩
      · exact h.getElem?_eq [] hrest 0
      · rw [hnames]
        rfl
  | @openString text value hrest htext =>
      obtain ⟨hbefore, hsame⟩ := h.final_take_string (hrest.trans (by rw [List.append_nil])) htext
      refine ⟨.openString, ⟨?_, ⟨text, value, hbefore, htext⟩, ?_⟩, rfl⟩
      · rw [hrest, List.length_cons] at hlength
        simp only [Failure.expecting]
        omega
      · exact (List.append_nil _).trans hsame.symm
  | @badEscape text value cs hrest htext hcs =>
      obtain ⟨hbefore, hsame⟩ := h.final_take_string hrest htext
      have hbehind : ∀ n, source[t.cursor.pos + 1 + text.length + n]? = ('\\' :: cs)[n]? := by
        intro n
        rw [← h.getElem?_eq ('"' :: text) hrest n, List.length_cons, Nat.add_assoc _ 1,
          Nat.add_comm 1]
      refine ⟨.badEscape, ⟨hbehind 0, fun hquote => hcs ?_, ⟨text, value, hbefore, htext⟩, ?_⟩, rfl⟩
      · exact List.head?_eq_getElem?.trans ((hbehind 1).symm.trans hquote)
      · exact (List.append_nil _).trans hsame.symm
  | @loneMark b mark cs hmark hrest hcs =>
      have htake : t.cursor.rest.take 1 = [mark] := by simp [hrest]
      obtain ⟨hbefore, hsame⟩ := h.final_take htake (hrest ▸ .mark hmark _ _)
        (Bracket.skip_mark hmark _ _) (.loneMark hmark rfl (by simp))
      have hname : mark = '\'' ∧ b.name = "quote" ∨ mark = '^' ∧ b.name = "tuple" := by
        cases b with
        | list => cases hmark
        | quote => exact .inl ⟨(Option.some.inj hmark).symm, rfl⟩
        | tuple => exact .inr ⟨(Option.some.inj hmark).symm, rfl⟩
      have hbehind := h.getElem?_eq [] hrest
      refine ⟨.loneMark, ⟨mark, b.name, hname, ⟨t.cursor.pos, rfl, hbehind 0⟩, hbefore,
        fun hparen => hcs ?_, ?_⟩, rfl⟩
      · exact List.head?_eq_getElem?.trans ((hbehind 1).symm.trans hparen)
      · rw [← b.text_label]
        exact congrArg (· ++ [b.label.text]) hsame.symm
  | missingParen hrest hopened =>
      obtain ⟨hbefore, hsame⟩ := h.final_take_here
      refine ⟨.missingParen, ⟨?_, hbefore, ?_, ?_⟩, rfl⟩
      · rwa [hrest] at hlength
      · intro hnil
        have hnames : t.names = [] := hsame.symm.trans hnil
        simp [names, hopened] at hnames
      · exact congrArg (· ++ ["closing paren"]) hsame.symm

end Frontier

/-- Reading that fails has come to a frontier that is blocked, and reports why. -/
theorem exists_faultCase_of_error {source : List Char} {e : ReadError}
    (hnesting : (Frontier.start source).nesting ≤ limit.levels)
    (h : readAll source limit = .error e) :
    ∃ t f g, (Frontier.start source).Leads t ∧ t.FaultCase g ∧
      outcome limit ⟨0, source⟩ = ⟨t.completed, some f⟩ ∧ e = f.report source ∧
      f.commit = (g.inside t.labels).commit := by
  obtain ⟨f, hf, rfl⟩ := readAll_eq_error_iff.1 h
  obtain ⟨hforms, hend⟩ := outcome_eq_final hnesting
  rw [hf] at hend
  obtain ⟨g, hblocked, hcommit⟩ := hend
  have hleads := Frontier.leads_final (Frontier.start source)
  have hskip := hleads.skip_cursor (Cursor.skip_skip _)
  refine ⟨_, f, g, hleads, (Frontier.blocked_iff hskip).1 hblocked, ?_, rfl, hcommit⟩
  rw [← hforms, ← hf]

/-- A text that cannot be read has exactly one of the five faults, and what is reported is
this fault at its place.  A parenthesis is only missing at the end of the text. -/
theorem existsUnique_fault {source : List Char} {e : ReadError}
    (hnesting : (Frontier.start source).nesting ≤ limit.levels)
    (h : readAll source limit = .error e) :
    ∃ (pos : Nat) (place : Location), pos ≤ source.length ∧ place.PointsTo source pos ∧
      (∃! fault : Fault, fault.LiesAt source pos e.context ∧
        e = (Diagnosis.mk fault.expected place (place.found source) e.context).report) ∧
      (e = (Diagnosis.mk "')'" place (place.found source) e.context).report →
        pos = source.length) := by
  obtain ⟨t, f, g, hleads, hcase, -, rfl, hcommit⟩ := exists_faultCase_of_error hnesting h
  obtain ⟨fault, hlies, hexpected⟩ := hcase.liesAt hleads
  obtain ⟨place, hplace, hreport⟩ := f.exists_pointsTo source
  obtain ⟨hpos, hsame, -, hlabels⟩ := Failure.mk.inj hcommit
  have hcontext : (f.report source).context = t.names ++ g.context.map Label.text := by
    rw [← t.text_labels, ← List.map_append]
    exact congrArg (List.map Label.text) hlabels
  have hlies' : fault.LiesAt source f.pos (f.report source).context := by
    rw [hcontext, show f.pos = g.pos from hpos]
    exact hlies
  have hfault : f.report source =
      (Diagnosis.mk fault.expected place (place.found source)
        (f.report source).context).report := by
    rw [← hexpected, ← show f.expected = g.expected from hsame]
    exact hreport
  refine ⟨f.pos, place, hlies'.pos_le, hplace, ⟨fault, ⟨hlies', hfault⟩, ?_⟩, fun hclose => ?_⟩
  · rintro other ⟨-, hother⟩
    exact Fault.expected_injective (Diagnosis.eq_of_report_eq (hother.symm.trans hfault))
  · have hmissing : fault = .missingParen :=
      Fault.expected_injective (Diagnosis.eq_of_report_eq (hfault.symm.trans hclose))
    subst hmissing
    exact hlies'.1

/-- A quotation mark in a list with a symbol behind it. -/
theorem existsUnique_fault_loneMark :
    (Frontier.start "(a 'b".toList).nesting ≤ NestingLimit.standard.levels ∧
      ∃ e, readAll "(a 'b".toList .standard = .error e ∧ e.context = ["list", "quote"] ∧
        ∃ (pos : Nat) (place : Location), pos ≤ "(a 'b".toList.length ∧
          place.PointsTo "(a 'b".toList pos ∧
          (∃! fault : Fault, fault.LiesAt "(a 'b".toList pos e.context ∧
            e = (Diagnosis.mk fault.expected place (place.found "(a 'b".toList)
              e.context).report) ∧
          (e = (Diagnosis.mk "')'" place (place.found "(a 'b".toList) e.context).report →
            pos = "(a 'b".toList.length) := by
  have hnesting : (Frontier.start "(a 'b".toList).nesting = 1 := by
    with_unfolding_all rfl
  have hfailure : (outcome .standard ⟨0, "(a 'b".toList⟩).failure =
      some ⟨4, .openParen, true, [.form .list, .form .quote]⟩ := by
    with_unfolding_all rfl
  have hlimit : (Frontier.start "(a 'b".toList).nesting ≤ NestingLimit.standard.levels := by
    rw [hnesting]
    decide
  have hread := readAll_eq_error_iff.2 ⟨_, hfailure, rfl⟩
  exact ⟨hlimit, _, hread, rfl, existsUnique_fault hlimit hread⟩

end Sexp
