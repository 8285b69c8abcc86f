import Sexp.Proofs.Frontier
import Sexp.Proofs.Layout
import Sexp.Proofs.Outcome

/-!
# Reading along a frontier

Reading goes down into each form and comes back with a match or a failure.  The
frontier follows it without coming back: a match moves it over the form, a failure
is told by the place where the frontier ends, and a form that is nested too deep
opens more forms than may be open.
-/

namespace Sexp

open Grammar Text

variable {limit : NestingLimit}

/-- The failure within further labels. -/
def Grammar.Failure.inside (f : Failure) (labels : List Label) : Failure :=
  { f with context := labels ++ f.context }

namespace Frontier

/-- Why a frontier gets no further: a token is broken, the text ends in an open
form, or a parenthesis closes nothing. -/
inductive Blocked (s : Frontier) : Failure → Prop where
  | broken {f : Failure} : s.cursor.rest ≠ [] → token s.cursor = .failed f → Blocked s f
  | unclosed : s.cursor.rest = [] → s.opened ≠ [] →
      Blocked s ⟨s.cursor.pos, .closeParen, true, [.closingParen]⟩
  | stray {cs : List Char} : s.cursor.rest = ')' :: cs → s.opened = [] →
      Blocked s (.expecting s.cursor.pos .expression)

/-- All of the text is taken and no form is open. -/
structure Ended (s : Frontier) : Prop where
  opened : s.opened = []
  rest : s.cursor.rest = []

theorem token_of_nil {c : Cursor} (h : c.rest = []) :
    token c = .failed (.expecting c.pos .expression) := by
  refine (TokenCase.finish h).token_eq ?_
  obtain ⟨pos, rest⟩ := c
  subst h
  rfl

theorem token_of_close {c : Cursor} {cs : List Char} (h : c.rest = ')' :: cs) :
    token c = found .closing ⟨c.pos + 1, cs⟩ := by
  refine (TokenCase.closing h).token_eq ?_
  obtain ⟨pos, rest⟩ := c
  subst h
  exact (StopsForms.close cs).skip_eq pos

theorem Ended.step?_eq_none {s : Frontier} (h : s.Ended) : s.step? = none :=
  Frontier.step?_eq_none (token_of_nil h.rest)

theorem Blocked.step?_eq_none {s : Frontier} {f : Failure} (h : s.Blocked f) :
    s.step? = none := by
  cases h with
  | broken _ htoken => exact Frontier.step?_eq_none htoken
  | unclosed hrest => exact Frontier.step?_eq_none (token_of_nil hrest)
  | stray hrest hopened => simp [step?, token_of_close hrest, found, take?, hopened]

theorem Blocked.not_ended {s : Frontier} {f : Failure} (h : s.Blocked f) : ¬s.Ended := by
  rintro ⟨hopened, hrest⟩
  cases h with
  | broken hne => exact hne hrest
  | unclosed _ hne => exact hne hopened
  | stray hclose => simp [hrest] at hclose

theorem Blocked.unique {s : Frontier} {f g : Failure} (hf : s.Blocked f) (hg : s.Blocked g) :
    f = g := by
  cases hf with
  | broken hne htoken =>
      cases hg with
      | broken _ htoken' => simpa [htoken] using htoken'
      | unclosed hrest => exact absurd hrest hne
      | stray hrest => simp [token_of_close hrest, found] at htoken
  | unclosed hrest hopened =>
      cases hg with
      | broken hne => exact absurd hrest hne
      | unclosed => rfl
      | stray hclose => simp [hrest] at hclose
  | stray hclose =>
      cases hg with
      | broken _ htoken => simp [token_of_close hclose, found] at htoken
      | unclosed hrest => simp [hrest] at hclose
      | stray => rfl

/-- The frontier ends with a failure in the forms that are open there or in forms
inside of these. -/
def Stops (p : Nat → Prop) (s : Frontier) (f : Failure) : Prop :=
  ∃ t g inner, s.LeadsVia p t ∧ t.Blocked g ∧ t.opened = inner ++ s.opened ∧
    t.completed = s.completed ∧ f.commit = (g.inside (labelsOf inner)).commit

theorem Stops.imp {p q : Nat → Prop} {s : Frontier} {f : Failure} (h : s.Stops p f)
    (hpq : ∀ k, p k → q k) : s.Stops q f := by
  obtain ⟨t, g, inner, ht, hend⟩ := h
  exact ⟨t, g, inner, ht.imp hpq, hend⟩

theorem Stops.of_leads {p : Nat → Prop} {s t : Frontier} {f f' : Failure}
    {inner : List (Bracket × List Form)} (h : t.Stops p f) (hleads : s.LeadsVia p t)
    (hopened : t.opened = inner ++ s.opened) (hcompleted : t.completed = s.completed)
    (hf : f'.commit = (f.inside (labelsOf inner)).commit) : s.Stops p f' := by
  obtain ⟨u, g, further, hu, hg, hopened', hcompleted', hcommit⟩ := h
  refine ⟨u, g, further ++ inner, hleads.trans hu, hg, ?_, hcompleted'.trans hcompleted, ?_⟩
  · rw [hopened', hopened, List.append_assoc]
  · simp only [Failure.commit, Failure.inside, labelsOf, Failure.mk.injEq] at hf hcommit ⊢
    simp [hf, hcommit]

/-- No form begins at the frontier, or the form that begins there is broken.  A
failure that is not final then lies further on. -/
def Halts (p : Nat → Prop) (s : Frontier) (f : Failure) : Prop :=
  StopsForms s.cursor.rest ∧ f = .expecting s.cursor.pos .expression ∨
    s.Stops p f ∧ (f.committed = false → s.cursor.pos < f.pos)

theorem Halts.imp {p q : Nat → Prop} {s : Frontier} {f : Failure} (h : s.Halts p f)
    (hpq : ∀ k, p k → q k) : s.Halts q f :=
  h.imp_right fun hstops => ⟨hstops.1.imp hpq, hstops.2⟩

/-- What a reply to reading a form says about the frontier.  Between the first token of
the form and the last one more forms are open than around it. -/
inductive FormRun (depth : Nat) (s : Frontier) : Reply Form → Prop where
  | matched {m : Match Form} {t : Frontier} :
      s.LeadsVia (fun k => s.opened.length < k ∧ k ≤ s.opened.length + depth) t →
      t.step? = some ⟨s.items ++ [m.value], s.opened, m.next⟩ → FormRun depth s (.matched m)
  | failed {f : Failure} : s.Halts (· ≤ s.opened.length + depth) f → FormRun depth s (.failed f)
  | tooDeep {t : Frontier} : s.LeadsVia (s.opened.length < ·) t →
      s.opened.length + depth < t.opened.length → FormRun depth s .tooDeep

/-- What a reply to reading the forms in an open form says about the frontier.  The
failure that ended them is kept for the parenthesis that may be missing behind. -/
inductive BodyRun (depth : Nat) (s : Frontier) : Reply (List Form) → Prop where
  | matched {m : Match (List Form)} {f : Failure} : 0 < depth →
      s.LeadsVia (fun k => s.opened.length ≤ k ∧ k < s.opened.length + depth)
        ⟨s.items ++ m.value, s.opened, m.next⟩ →
      m.next.skip = m.next → m.stoppedBy = some f → f.committed = false →
      Halts (· < s.opened.length + depth) ⟨s.items ++ m.value, s.opened, m.next⟩ f →
      BodyRun depth s (.matched m)
  | failed {f : Failure} : 0 < depth → s.Stops (· < s.opened.length + depth) f →
      f.committed = true → BodyRun depth s (.failed f)
  | tooDeep {t : Frontier} : s.LeadsVia (s.opened.length ≤ ·) t →
      s.opened.length + depth ≤ t.opened.length → BodyRun depth s .tooDeep

theorem Halts.stops_unclosed {p : Nat → Prop} {s : Frontier} {f : Failure} (h : s.Halts p f)
    (hcommitted : f.committed = false) (hopened : s.opened ≠ [])
    (hhead : s.cursor.rest.head? ≠ some ')') : s.Stops p (unclosed s.cursor.pos (some f)) := by
  obtain ⟨hstops, rfl⟩ | ⟨hstops, hpos⟩ := h
  · -- no form begins here and no parenthesis either, so that the text has ended
    have hrest : s.cursor.rest = [] := by
      rw [← List.head?_eq_none_iff, Option.eq_none_iff_forall_ne_some]
      intro ch hch
      exact hhead (hch.trans (congrArg some (hstops ch hch)))
    exact ⟨s, _, [], .refl, .unclosed hrest hopened, rfl, rfl, by simp [unclosed, Failure.expecting,
      Failure.inside, labelsOf]⟩
  · rw [unclosed, if_pos (hpos hcommitted)]
    exact hstops.of_leads .refl (List.nil_append _).symm rfl rfl

theorem step?_atom {s : Frontier} {m : Match Token} {form : Form}
    (htoken : token s.cursor = .matched m) (hvalue : m.value = .atom form) :
    s.step? = some ⟨s.items ++ [form], s.opened, m.next.skip⟩ := by
  simp only [step?, htoken, hvalue, take?]

theorem step?_opening {s : Frontier} {m : Match Token} {b : Bracket}
    (htoken : token s.cursor = .matched m) (hvalue : m.value = .opening b) :
    s.step? = some ⟨[], (b, s.items) :: s.opened, m.next.skip⟩ := by
  simp only [step?, htoken, hvalue, take?]

theorem step?_closing {items before : List Form} {b : Bracket}
    {opened : List (Bracket × List Form)} {c : Cursor} {behind : List Char}
    (hrest : c.rest = ')' :: behind) :
    step? ⟨items, (b, before) :: opened, c⟩ =
      some ⟨before ++ [b.build items], opened, Cursor.skip ⟨c.pos + 1, behind⟩⟩ := by
  simp only [step?, token_of_close hrest, found, take?]

section

variable {depth : Nat} {contents : Recognizer (List Form)} {s : Frontier}

theorem FormRun.leads {m : Match Form} (h : FormRun depth s (.matched m)) :
    s.LeadsVia (fun k => s.opened.length ≤ k ∧ k ≤ s.opened.length + depth)
      ⟨s.items ++ [m.value], s.opened, m.next⟩ := by
  cases h with
  | matched hleads hstep =>
      refine .tail (hleads.imp fun k hk => ⟨Nat.le_of_lt hk.1, hk.2⟩) hstep ?_
      exact ⟨Nat.le_refl _, Nat.le_add_right _ _⟩

theorem FormRun.of_body {b : Bracket} {next : Cursor} {stoppedBy : Option Failure}
    (hstep : s.step? = some ⟨[], (b, s.items) :: s.opened, next.skip⟩)
    (hbody : BodyRun depth ⟨[], (b, s.items) :: s.opened, next.skip⟩ (contents next.skip)) :
    FormRun depth s (expressionFrom contents s.cursor ⟨.opening b, next, stoppedBy⟩) := by
  have hlength : ((b, s.items) :: s.opened).length = s.opened.length + 1 := rfl
  have hfailed : ∀ {f : Failure}, 0 < depth → f.committed = true →
      Stops (· < s.opened.length + 1 + depth) ⟨[], (b, s.items) :: s.opened, next.skip⟩ f →
      FormRun depth s (.failed (f.within b.label)) := by
    intro f hdepth hcommitted hstops
    have hstops : Stops (· ≤ s.opened.length + depth) _ f := hstops.imp (by omega)
    have hopened : (b, s.items) :: s.opened = [(b, s.items)] ++ s.opened := rfl
    have hend := hstops.of_leads (.single ⟨hstep, by dsimp only; omega⟩) hopened
      (completed_opening _ _ _ _) rfl
    exact .failed (.inr ⟨hend, fun h => absurd (hcommitted.symm.trans h) (by simp)⟩)
  simp only [expressionFrom]
  generalize contents next.skip = reply at hbody
  cases hbody with
  | failed hdepth hstops hcommitted => exact hfailed hdepth hcommitted hstops
  | tooDeep ht hdeep =>
      refine .tooDeep (.head hstep ?_ (ht.imp ?_)) ?_
      all_goals
        simp only [hlength] at hdeep ⊢
        omega
  | @matched m f hdepth hleads hskip hstopped hcommitted hhalts =>
      rw [Reply.bind_matched]
      by_cases hhead : m.next.rest.head? = some ')'
      · obtain ⟨behind, hrest⟩ := List.head?_eq_some_iff.1 hhead
        rw [closeParen_of_rest (hskip.symm ▸ hrest), hskip]
        refine .matched (.head hstep ?_ (hleads.imp ?_)) (step?_closing hrest)
        all_goals
          simp only [hlength]
          omega
      · rw [closeParen_of_ne (hskip.symm ▸ hhead), hskip, hstopped]
        have hend := hhalts.stops_unclosed hcommitted (List.cons_ne_nil _ _) hhead
        refine hfailed hdepth (unclosed_committed _ _) ?_
        exact hend.of_leads (hleads.imp fun k hk => hk.2) (List.nil_append _).symm
          (completed_cons _ _ _ _ _ _) rfl

theorem expressionOf_run (hnever : NeverBacktracks contents)
    (hbody : ∀ t : Frontier, t.opened ≠ [] → t.cursor.skip = t.cursor →
      BodyRun depth t (contents t.cursor)) (hs : s.cursor.skip = s.cursor) :
    FormRun depth s (expressionOf contents s.cursor) := by
  rw [expressionOf_eq_bind hnever]
  cases htoken : token s.cursor with
  | tooDeep => exact absurd htoken (token_ne_tooDeep _)
  | failed f =>
      by_cases hrest : s.cursor.rest = []
      · rw [token_of_nil hrest] at htoken
        exact .failed (.inl ⟨by simp [hrest], (Reply.failed.inj htoken).symm⟩)
      · have hpos := pos_lt_of_token_failed (hs.symm ▸ hrest) htoken
        rw [hs] at hpos
        exact .failed (.inr ⟨⟨s, f, [], .refl, .broken hrest htoken, rfl, rfl, rfl⟩, fun _ => hpos⟩)
  | matched m =>
      obtain ⟨tok, next, stoppedBy⟩ := m
      cases tok with
      | atom form => exact .matched .refl (step?_atom htoken rfl)
      | opening b =>
          exact .of_body (step?_opening htoken rfl)
            (hbody _ (List.cons_ne_nil _ _) (Cursor.skip_skip _))
      | closing =>
          have hhead := rest_of_token_closing htoken
          rw [hs] at hhead
          refine .failed (.inl ⟨fun ch hch => ?_, by rw [hs]⟩)
          exact (Option.some.inj (hhead.symm.trans hch)).symm

theorem BodyRun.cons {value : Form} {next : Cursor} {reply : Reply (List Form)}
    (hs : s.opened ≠ [])
    (hleads : s.LeadsVia (fun k => s.opened.length ≤ k ∧ k < s.opened.length + depth)
      ⟨s.items ++ [value], s.opened, next⟩)
    (h : BodyRun depth ⟨s.items ++ [value], s.opened, next⟩ reply) :
    BodyRun depth s (reply.map (value :: ·)) := by
  cases h with
  | matched hdepth hlater hskip hstopped hcommitted hhalts =>
      simp only [List.append_assoc, List.singleton_append] at hlater hhalts
      exact .matched hdepth (hleads.trans hlater) hskip hstopped hcommitted hhalts
  | failed hdepth hstops hcommitted =>
      obtain ⟨o, opened, hopened⟩ := List.exists_cons_of_ne_nil hs
      obtain ⟨items, _, c⟩ := s
      subst hopened
      have hend := hstops.of_leads (hleads.imp fun k hk => hk.2) (List.nil_append _).symm
        (completed_cons _ _ _ _ _ _) rfl
      exact .failed hdepth hend hcommitted
  | tooDeep ht hdeep => exact .tooDeep (.trans (hleads.imp fun k hk => hk.1) ht) hdeep

theorem repeated_run (hitem : ∀ t : Frontier, t.cursor.skip = t.cursor →
      FormRun depth t (expression depth t.cursor))
    (hopened : s.opened ≠ []) (hs : s.cursor.skip = s.cursor) :
    BodyRun (depth + 1) s (repeated (expression depth) s.cursor) := by
  have hlevel : ∀ {s : Frontier} k, k ≤ s.opened.length + depth →
      k < s.opened.length + (depth + 1) := by omega
  generalize hc : s.cursor = c
  -- each item moves the frontier as well, so the induction is over all frontiers at the cursor
  fun_induction repeated (expression depth) c generalizing s with
  | case1 c h =>
      subst hc
      have hrun := h ▸ hitem s hs
      cases hrun with
      | tooDeep ht hdeep => exact .tooDeep (ht.imp fun _ => Nat.le_of_lt) hdeep
  | case2 c f h hcommitted =>
      subst hc
      have hrun := h ▸ hitem s hs
      cases hrun with
      | failed hhalts =>
          obtain ⟨-, rfl⟩ | ⟨hstops, -⟩ := hhalts
          · cases hcommitted
          · exact .failed (Nat.succ_pos _) (hstops.imp hlevel) hcommitted
  | case3 c f h hcommitted =>
      subst hc
      have hrun := h ▸ hitem s hs
      cases hrun with
      | failed hhalts =>
          have hitems : s = ⟨s.items ++ [], s.opened, s.cursor⟩ := by rw [List.append_nil]
          exact .matched (Nat.succ_pos _) (hitems ▸ .refl) hs rfl (by simpa using hcommitted)
            (hitems ▸ hhalts.imp hlevel)
  | case4 c m h hless ih =>
      subst hc
      have hleads := (h ▸ hitem s hs).leads
      exact .cons hopened (hleads.imp fun k hk => ⟨hk.1, hlevel k hk.2⟩)
        (ih hopened (skip_next_of_expression h) rfl)
  | case5 c m h hless => exact absurd (expression_consumes _ _ _ h) hless

theorem forms_run (hopened : s.opened ≠ []) (hs : s.cursor.skip = s.cursor) :
    BodyRun depth s (forms depth s.cursor) := by
  induction depth generalizing s with
  | zero => exact .tooDeep .refl (Nat.le_refl _)
  | succ depth ih =>
      rw [forms_succ]
      exact repeated_run
        (fun t ht => expressionOf_run (forms_neverBacktracks depth) (fun _ => ih) ht) hopened hs

theorem expression_run (hs : s.cursor.skip = s.cursor) :
    FormRun depth s (expression depth s.cursor) :=
  expressionOf_run (forms_neverBacktracks depth) (fun _ => forms_run) hs

theorem expression_run_at (depth : Nat) (items : List Form) {c : Cursor} (hskip : c.skip = c) :
    FormRun depth ⟨items, [], c⟩ (expression depth c) := by
  have hrun : FormRun depth ⟨items, [], c⟩ _ := expression_run hskip
  exact hrun

end

/-- What comes of a text agrees with where its frontier gets: behind the last form, or
in front of the failure, or into a form in which more forms are open than may be. -/
inductive Agrees (limit : NestingLimit) (s : Frontier) : Outcome → Prop where
  | ended {t : Frontier} {forms : List Form} : s.LeadsVia (· ≤ limit.levels) t →
      t.completed = s.completed ++ forms → t.Ended → Agrees limit s ⟨forms, none⟩
  | blocked {t : Frontier} {forms : List Form} {f g : Failure} :
      s.LeadsVia (· ≤ limit.levels) t → t.completed = s.completed ++ forms → t.Blocked g →
      f.commit = (g.inside t.labels).commit → Agrees limit s ⟨forms, some f⟩
  | tooDeep {t u : Frontier} {forms : List Form} : s.LeadsVia (· ≤ limit.levels) t →
      t.completed = s.completed ++ forms → t.opened = [] → t.LeadsVia (0 < ·) u →
      limit.levels < u.opened.length → Agrees limit s ⟨forms, some (.tooDeep t.cursor.pos)⟩

theorem Agrees.prepend {s t : Frontier} {value : Form} {o : Outcome} (h : t.Agrees limit o)
    (hleads : s.LeadsVia (· ≤ limit.levels) t) (hcompleted : t.completed = s.completed ++ [value]) :
    s.Agrees limit (o.prepend value) := by
  have hforms : ∀ {u : Frontier} {forms : List Form}, u.completed = t.completed ++ forms →
      u.completed = s.completed ++ value :: forms := by
    intro u forms hu
    rw [hu, hcompleted, List.append_assoc, List.singleton_append]
  cases h with
  | ended hu hcompleted' hended => exact .ended (hleads.trans hu) (hforms hcompleted') hended
  | blocked hu hcompleted' hblocked hf =>
      exact .blocked (hleads.trans hu) (hforms hcompleted') hblocked hf
  | tooDeep hu hcompleted' hopened hdeep hlength =>
      exact .tooDeep (hleads.trans hu) (hforms hcompleted') hopened hdeep hlength

theorem LeadsVia.eq_of_deep {n : Nat} {s t t' u : Frontier} (hs : s.opened.length ≤ n)
    (ht' : s.LeadsVia (· ≤ n) t') (hopened : t'.opened = []) (ht : s.Leads t)
    (hu : t.LeadsVia (0 < ·) u) (hdeep : n < u.opened.length) (h : t.Leads t') : t' = t := by
  obtain hut | htu := hu.leads.total h
  · obtain rfl | hopen := ht'.between (ht.trans hu.leads) hut
    · omega
    · omega
  · obtain rfl | hopen := hu.between h htu
    · rfl
    · simp [hopened] at hopen

theorem Agrees.unique {s : Frontier} (hs : s.opened.length ≤ limit.levels) {o o' : Outcome}
    (h : s.Agrees limit o) (h' : s.Agrees limit o') :
    o.forms = o'.forms ∧ o.failure.map Failure.commit = o'.failure.map Failure.commit := by
  have hforms : ∀ {t t' : Frontier} {forms forms' : List Form}, t = t' →
      t.completed = s.completed ++ forms → t'.completed = s.completed ++ forms' →
      forms = forms' := by
    rintro t _ forms forms' rfl hcompleted hcompleted'
    exact List.append_cancel_left (hcompleted.symm.trans hcompleted')
  have hstuck : ∀ {t t' : Frontier}, s.LeadsVia (· ≤ limit.levels) t → t.step? = none →
      s.LeadsVia (· ≤ limit.levels) t' → t'.step? = none → t = t' := by
    intro t t' ht hnone ht' hnone'
    exact (ht.leads.final_eq_of_none hnone).symm.trans (ht'.leads.final_eq_of_none hnone')
  have hdeep : ∀ {t t' u : Frontier}, s.LeadsVia (· ≤ limit.levels) t → t.step? = none →
      s.LeadsVia (· ≤ limit.levels) t' → t'.LeadsVia (0 < ·) u →
      ¬limit.levels < u.opened.length := by
    intro t t' u ht hnone ht' hu
    exact Nat.not_lt.2 (ht.length_opened_le hs hnone (ht'.leads.trans hu.leads))
  -- there is one last frontier, and none behind a form that is nested too deep
  cases h with
  | ended ht hcompleted hended =>
      cases h' with
      | ended ht' hcompleted' hended' =>
          have heq := hstuck ht hended.step?_eq_none ht' hended'.step?_eq_none
          exact ⟨hforms heq hcompleted hcompleted', rfl⟩
      | blocked ht' _ hblocked =>
          obtain rfl := hstuck ht hended.step?_eq_none ht' hblocked.step?_eq_none
          exact absurd hended hblocked.not_ended
      | tooDeep ht' _ _ hu hlength =>
          exact absurd hlength (hdeep ht hended.step?_eq_none ht' hu)
  | blocked ht hcompleted hblocked hf =>
      cases h' with
      | ended ht' _ hended =>
          obtain rfl := hstuck ht hblocked.step?_eq_none ht' hended.step?_eq_none
          exact absurd hended hblocked.not_ended
      | blocked ht' hcompleted' hblocked' hf' =>
          obtain rfl := hstuck ht hblocked.step?_eq_none ht' hblocked'.step?_eq_none
          obtain rfl := hblocked.unique hblocked'
          exact ⟨hforms rfl hcompleted hcompleted', congrArg some (hf.trans hf'.symm)⟩
      | tooDeep ht' _ _ hu hlength =>
          exact absurd hlength (hdeep ht hblocked.step?_eq_none ht' hu)
  | @tooDeep t u forms ht hcompleted hopened hu hlength =>
      cases h' with
      | ended ht' _ hended => exact absurd hlength (hdeep ht' hended.step?_eq_none ht hu)
      | blocked ht' _ hblocked => exact absurd hlength (hdeep ht' hblocked.step?_eq_none ht hu)
      | @tooDeep t' u' forms' ht' hcompleted' hopened' hu' hlength' =>
          have heq : t = t' := by
            obtain htt' | ht't := ht.leads.total ht'.leads
            · exact (LeadsVia.eq_of_deep hs ht' hopened' ht.leads hu hlength htt').symm
            · exact LeadsVia.eq_of_deep hs ht hopened ht'.leads hu' hlength' ht't
          exact ⟨hforms heq hcompleted hcompleted', by rw [heq]⟩

theorem agrees_outcome (limit : NestingLimit) (items : List Form) (c : Cursor) :
    Agrees limit ⟨items, [], c.skip⟩ (outcome limit c) := by
  have hrun : ∀ items c, FormRun limit.levels ⟨items, [], Cursor.skip c⟩
      (expression limit.levels c.skip) :=
    fun items c => expression_run_at limit.levels items c.skip_skip
  have hlevel : ∀ k, k ≤ ([] : List (Bracket × List Form)).length + limit.levels →
      k ≤ limit.levels := by simp
  -- between two forms nothing is open, so only the items differ from form to form
  fun_induction outcome limit c generalizing items with
  | case1 c hnil => exact .ended .refl (List.append_nil _).symm ⟨rfl, hnil⟩
  | case2 c hne m hm ih =>
      have hmatched := Reply.result_eq_ok_iff.1 hm
      have hleads := (hmatched ▸ hrun items c).leads
      have hlater := ih (items ++ [m.value])
      rw [skip_next_of_expression hmatched] at hlater
      exact hlater.prepend (hleads.imp fun k hk => hlevel k hk.2) rfl
  | case3 c hne f hf =>
      have hform := hrun items c
      generalize expression limit.levels c.skip = reply at hf hform
      cases hform with
      | matched => simp [Reply.result] at hf
      | tooDeep ht hdeep =>
          cases hf
          exact .tooDeep .refl (List.append_nil _).symm rfl ht (by simpa using hdeep)
      | failed hhalts =>
          cases hf
          obtain ⟨hstops, rfl⟩ | ⟨⟨t, g, inner, ht, hblocked, hopened, hcompleted, hcommit⟩, -⟩ :=
            hhalts
          · obtain ⟨ch, cs, hrest⟩ := List.exists_cons_of_ne_nil hne
            obtain rfl : ch = ')' := hstops ch (by simp [hrest])
            exact .blocked .refl (List.append_nil _).symm (.stray hrest rfl) rfl
          · have hinner : t.opened = inner := hopened.trans (List.append_nil _)
            refine .blocked (ht.imp hlevel) (hcompleted.trans (List.append_nil _).symm) hblocked ?_
            rw [labels, hinner, hcommit]

end Frontier

theorem Grammar.Failure.report_eq_of_commit {f g : Failure} (h : f.commit = g.commit)
    (source : List Char) : f.report source = g.report source := by
  have hreport := congrArg (Failure.report source) h
  exact hreport

section Final

variable {source : List Char}

/-- A text in which no more forms are open than may be is read to where its frontier
ends. -/
theorem outcome_eq_final (h : (Frontier.start source).nesting ≤ limit.levels) :
    (outcome limit ⟨0, source⟩).forms = (Frontier.start source).final.completed ∧
      match (outcome limit ⟨0, source⟩).failure with
      | none => (Frontier.start source).final.Ended
      | some f => ∃ g, (Frontier.start source).final.Blocked g ∧
          f.commit = (g.inside (Frontier.start source).final.labels).commit := by
  have hfinal : ∀ {t : Frontier}, (Frontier.start source).LeadsVia (· ≤ limit.levels) t →
      t.step? = none → (Frontier.start source).final = t :=
    fun ht hstuck => ht.leads.final_eq_of_none hstuck
  have hagrees : (Frontier.start source).Agrees limit (outcome limit ⟨0, source⟩) :=
    Frontier.agrees_outcome limit [] ⟨0, source⟩
  generalize outcome limit ⟨0, source⟩ = o at hagrees ⊢
  cases hagrees with
  | ended ht hforms hended =>
      rw [hfinal ht hended.step?_eq_none]
      exact ⟨hforms.symm, hended⟩
  | blocked ht hforms hblocked hf =>
      rw [hfinal ht hblocked.step?_eq_none]
      exact ⟨hforms.symm, _, hblocked, hf⟩
  | tooDeep ht _ _ hu hdeep =>
      have hlength := Frontier.Leads.length_opened_le (ht.leads.trans hu.leads)
      exact absurd (hlength.trans h) (Nat.not_le.2 hdeep)

theorem outcome_of_blocked (h : (Frontier.start source).nesting ≤ limit.levels) {g : Failure}
    (hblocked : (Frontier.start source).final.Blocked g) :
    (outcome limit ⟨0, source⟩).forms = (Frontier.start source).final.completed ∧
      ∃ f, (outcome limit ⟨0, source⟩).failure = some f ∧
        f.commit = (g.inside (Frontier.start source).final.labels).commit := by
  obtain ⟨hforms, hend⟩ := outcome_eq_final h
  refine ⟨hforms, ?_⟩
  cases hfailure : (outcome limit ⟨0, source⟩).failure with
  | none =>
      rw [hfailure] at hend
      exact absurd hend hblocked.not_ended
  | some f =>
      rw [hfailure] at hend
      obtain ⟨g', hg', hcommit⟩ := hend
      rw [hblocked.unique hg']
      exact ⟨f, rfl, hcommit⟩

end Final

end Sexp
