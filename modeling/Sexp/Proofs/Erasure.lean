import Sexp.Proofs.Descent
import Sexp.Proofs.FlatScan

namespace Sexp

open Grammar Text

variable {limit : NestingLimit}

namespace Text

namespace Mode

/-- What is left of a character. -/
def kept : Mode → Char → List Char
  | .code, ch => if ch = ';' then [] else if isBlank ch = true ∧ ch ≠ '\n' then [' '] else [ch]
  | .comment, ch => if ch = '\n' then [ch] else []
  | .string, ch => [ch]
  | .escape, ch => [ch]

theorem count_kept (mode : Mode) (ch : Char) : (mode.kept ch).count '\n' = [ch].count '\n' := by
  cases mode with
  | code =>
      rw [kept]
      split
      · rename_i hcomment
        subst hcomment
        rfl
      · split
        · rename_i hblank
          rw [List.count_singleton, List.count_singleton, beq_false_of_ne hblank.2]
          rfl
        · rfl
  | comment =>
      rw [kept]
      split
      · rfl
      · rename_i hword
        rw [List.count_singleton, beq_false_of_ne hword]
        rfl
  | string => rfl
  | escape => rfl

end Mode

/-- What is left of a text. -/
def erase : Mode → List Char → List Char
  | _, [] => []
  | mode, ch :: cs => mode.kept ch ++ erase (mode.next ch) cs

theorem erase_append (mode : Mode) (cs cs' : List Char) :
    erase mode (cs ++ cs') = erase mode cs ++ erase (mode.after cs) cs' := by
  induction cs generalizing mode with
  | nil => rfl
  | cons ch cs ih =>
      rw [List.cons_append, erase, erase, ih, List.append_assoc]
      rfl

theorem count_erase (mode : Mode) (cs : List Char) :
    (erase mode cs).count '\n' = cs.count '\n' := by
  induction cs generalizing mode with
  | nil => rfl
  | cons ch cs ih =>
      rw [erase, List.count_append, Mode.count_kept, ih, ← List.count_append, List.singleton_append]

theorem erase_cons {ch : Char} (hblank : isBlank ch = false) (hcomment : ch ≠ ';')
    (cs : List Char) : erase .code (ch :: cs) = ch :: erase (Mode.next .code ch) cs := by
  rw [erase, Mode.kept, if_neg hcomment, if_neg (by simp [hblank])]
  rfl

theorem erase_of_symbolChars {cs : List Char} (h : ∀ ch ∈ cs, isSymbolChar ch = true) :
    erase .code cs = cs := by
  induction cs with
  | nil => rfl
  | cons ch cs ih =>
      obtain ⟨hch, hcs⟩ := List.forall_mem_cons.1 h
      obtain ⟨-, -, -, -, hcomment, hblank⟩ := ne_of_isSymbolChar hch
      rw [erase_cons hblank hcomment, Mode.next_of_isSymbolChar hch, ih hcs]

theorem erase_of_stringText {text value : List Char} (h : StringText text value) :
    erase .string text = text := by
  induction h with
  | nil => rfl
  | @plain ch text value hquotation hbackslash _ ih =>
      rw [erase, Mode.next, if_neg hquotation, if_neg hbackslash, ih]
      rfl
  | escape _ ih =>
      rw [erase, erase]
      exact congrArg ('\\' :: '"' :: ·) ih

theorem erase_string {text value : List Char} (h : StringText text value) (cs : List Char) :
    erase .code ('"' :: (text ++ cs)) = '"' :: (text ++ erase .string cs) := by
  have hnext : Mode.next .code '"' = .string := rfl
  rw [erase_cons (by decide) (by decide), hnext, erase_append, erase_of_stringText h,
    (Neutral.of_stringText h).after_eq]

theorem Ignored.separator_erase {mode mode' : Mode} {cs : List Char} (h : Ignored mode cs mode') :
    Separator (erase mode cs) := by
  induction h with
  | nil => exact .nil
  | blank hblank _ ih =>
      rw [erase, Mode.next_of_isBlank hblank, Mode.kept, if_neg (ne_of_isBlank hblank (by decide))]
      split
      · exact .blank (by decide) ih
      · exact .blank hblank ih
  | semicolon _ ih => exact ih
  | newline _ ih => exact .blank (by decide) ih
  | @word ch cs mode' hch _ ih =>
      rw [erase, Mode.next, if_neg hch, Mode.kept, if_neg hch]
      exact ih

theorem head_erase {cs : List Char} {ch : Char} (h : (erase .code cs).head? = some ch) :
    isBlank ch = true ∨ cs.head? = some ch := by
  have hcomment : ∀ cs : List Char, (erase .comment cs).head? = some ch → ch = '\n' := by
    intro cs hhead
    induction cs with
    | nil => cases hhead
    | cons first cs ih =>
        rw [erase, Mode.kept, Mode.next] at hhead
        split at hhead
        · rename_i hfirst
          exact (Option.some.inj hhead).symm.trans hfirst
        · exact ih hhead
  cases cs with
  | nil => cases h
  | cons first cs =>
      rw [erase, Mode.kept] at h
      split at h
      · rename_i hfirst
        subst hfirst
        obtain rfl := hcomment cs h
        exact .inl (by decide)
      · split at h
        · obtain rfl := Option.some.inj h
          exact .inl (by decide)
        · exact .inr h

theorem EndsRun.erase {cs : List Char} (h : EndsRun isSymbolChar cs) :
    EndsRun isSymbolChar (erase .code cs) := by
  intro ch hch
  obtain hblank | hhead := head_erase hch
  · simp [isSymbolChar, hblank]
  · exact h ch hhead

end Text

/-- One cursor in a text and one in what is left of it. -/
def Text.Cursor.Erased (c c' : Cursor) : Prop :=
  c'.rest = erase .code c.rest

theorem Text.Cursor.Erased.skip {c c' : Cursor} (h : c.Erased c') : c.skip.Erased c'.skip := by
  obtain ⟨ignored, mode, hrest, -, hignored, hmode⟩ := c.exists_ignored
  have hlater : erase mode c.skip.rest = erase .code c.skip.rest := by
    obtain rfl | ⟨rfl, hnil⟩ := hmode
    · rfl
    · rw [hnil]
      rfl
  have hrest' : c'.rest = erase .code ignored ++ erase .code c.skip.rest := by
    rw [h, hrest, erase_append, hignored.neutral.after_eq, hlater]
  have hstop : ∀ pos,
      Cursor.skip ⟨pos, erase .code c.skip.rest⟩ = ⟨pos, erase .code c.skip.rest⟩ := by
    intro pos
    cases hcs : c.skip.rest with
    | nil => rfl
    | cons ch cs =>
        obtain ⟨hblank, hcomment⟩ := head_skip hcs
        rw [erase_cons hblank hcomment, Cursor.skip, ignorableLength, if_neg (by simp [hblank]),
          if_neg hcomment]
        rfl
  obtain ⟨pos', rest'⟩ := c'
  dsimp only at hrest'
  subst hrest'
  rw [hignored.separator_erase.skip_append, hstop]
  rfl

namespace Grammar

theorem exists_bare_eq (cs : List Char) :
    ∃ value n, ∀ pos, bare ⟨pos, cs⟩ = ⟨value, Cursor.advance ⟨pos, cs⟩ n, none⟩ := by
  simp only [bare]
  split
  · exact ⟨_, _, fun _ => rfl⟩
  · split
    · exact ⟨_, _, fun _ => rfl⟩
    · split
      · exact ⟨_, _, fun _ => rfl⟩
      · exact ⟨_, _, fun _ => rfl⟩

theorem bare_erased {c c' : Cursor} (h : c.Erased c') :
    (bare c').value = (bare c).value ∧ (bare c).next.Erased (bare c').next := by
  obtain ⟨word, later, hrest, hchars, hnext⟩ := exists_symbolChars_bare c
  -- the run of symbol characters is kept, and nothing of it depends on the text behind it
  have hmore : ∀ ch ∈ later.takeWhile isSymbolChar, isSymbolChar ch = true :=
    fun ch hch => List.mem_takeWhile_imp hch
  have htail : EndsRun isSymbolChar (later.dropWhile isSymbolChar) := .dropWhile _ _
  have hlater := (List.takeWhile_append_dropWhile (p := isSymbolChar) (l := later)).symm
  generalize later.takeWhile isSymbolChar = more at hmore hlater
  generalize later.dropWhile isSymbolChar = tail at htail hlater
  have hswap : TailSwap tail (erase .code tail) := by
    refine .of_endsRun htail.erase ?_
    rintro rfl
    simp [erase]
  have hkept : ∀ {run : List Char}, (∀ ch ∈ run, isSymbolChar ch = true) →
      ∀ cs, erase .code (run ++ cs) = run ++ erase .code cs := by
    intro run hrun cs
    rw [erase_append, erase_of_symbolChars hrun, (Neutral.of_symbolChars hrun).after_eq]
  obtain ⟨pos, rest⟩ := c
  obtain ⟨pos', rest'⟩ := c'
  dsimp only [Cursor.Erased] at hrest hnext h ⊢
  rw [hlater, ← List.append_assoc] at hrest
  have hrest' : rest' = word ++ more ++ erase .code tail := by
    rw [h, hrest, hkept (List.forall_mem_append.2 ⟨hchars, hmore⟩)]
  rw [hrest, hlater] at hnext
  have hbare := hswap.bare_append (by rw [List.length_append]; omega) hnext
  obtain ⟨value, n, hvalue⟩ := exists_bare_eq (word ++ more ++ erase .code tail)
  have hsame := (hvalue pos).symm.trans hbare
  simp only [Cursor.advance, Match.mk.injEq, Cursor.mk.injEq] at hsame
  rw [hrest', hvalue pos', hrest, hnext]
  refine ⟨hsame.1, ?_⟩
  dsimp only [Cursor.advance]
  rw [hsame.2.1.2, hkept hmore]

/-- A failure in a text and one in what is left of it that say the same of places with
as many lines below them. -/
structure Failure.Alike (c c' : Cursor) (f f' : Failure) : Prop where
  expected : f'.expected = f.expected
  context : f'.context = f.context
  lines : ∃ n n', f.pos = c.pos + n ∧ f'.pos = c'.pos + n' ∧
    (c.rest.drop n).count '\n' = (c'.rest.drop n').count '\n'

inductive Reply.Erased (c c' : Cursor) : Reply Token → Reply Token → Prop where
  | matched {tok : Token} {next next' : Cursor} : next.Erased next' →
      Reply.Erased c c' (found tok next) (found tok next')
  | failed {f f' : Failure} : Failure.Alike c c' f f' → Reply.Erased c c' (.failed f) (.failed f')

theorem TokenCase.exists_erased {c c' : Cursor} (h : c.Erased c') (hskip : c.skip = c)
    {reply : Reply Token} (hcase : TokenCase c reply) :
    ∃ reply', TokenCase c' reply' ∧ reply.Erased c c' reply' := by
  have hrest' : c'.rest = erase .code c.rest := h
  cases hcase with
  | finish hrest =>
      rw [hrest] at hrest'
      refine ⟨_, .finish hrest', .failed ⟨rfl, rfl, 0, 0, rfl, rfl, ?_⟩⟩
      rw [hrest, hrest']
      rfl
  | closing hrest =>
      rw [hrest] at hrest'
      exact ⟨_, .closing hrest', .matched rfl⟩
  | @opening b cs hrest =>
      have hkept : erase .code (b.mark?.toList ++ '(' :: cs) =
          b.mark?.toList ++ '(' :: erase .code cs := by
        cases b <;> rfl
      rw [hrest, hkept] at hrest'
      exact ⟨_, .opening hrest', .matched rfl⟩
  | @loneMark b mark cs hmark hrest hcs =>
      have hkept : erase .code (mark :: cs) = mark :: erase .code cs := by
        cases b <;> cases hmark <;> rfl
      rw [hrest, hkept] at hrest'
      refine ⟨_, .loneMark hmark hrest' ?_, .failed ⟨rfl, rfl, 1, 1, rfl, rfl, ?_⟩⟩
      · intro hparen
        obtain hblank | hhead := head_erase hparen
        · exact absurd hblank (by decide)
        · exact hcs hhead
      · rw [hrest, hrest']
        exact (count_erase _ _).symm
  | @string text value cs hrest htext =>
      have hkept : erase .code ('"' :: (text ++ '"' :: cs)) =
          '"' :: (text ++ '"' :: erase .code cs) :=
        erase_string htext _
      rw [hrest, hkept] at hrest'
      exact ⟨_, .string hrest' htext, .matched rfl⟩
  | @openString text value hrest htext =>
      have hkept : erase .code ('"' :: text) = '"' :: text := by
        have hwhole := erase_string htext []
        rwa [erase, List.append_nil] at hwhole
      rw [hrest, hkept] at hrest'
      refine ⟨_, .openString hrest' htext,
        .failed ⟨rfl, rfl, 1 + text.length, 1 + text.length, ?_, ?_, ?_⟩⟩
      · exact Nat.add_assoc _ _ _
      · exact Nat.add_assoc _ _ _
      · rw [hrest, hrest']
  | @badEscape text value cs hrest htext hcs =>
      have hkept : erase .code ('"' :: (text ++ '\\' :: cs)) =
          '"' :: (text ++ '\\' :: erase .escape cs) :=
        erase_string htext _
      rw [hrest, hkept] at hrest'
      have hhead : (erase .escape cs).head? = cs.head? := by cases cs <;> rfl
      refine ⟨_, .badEscape hrest' htext (hhead.symm ▸ hcs),
        .failed ⟨rfl, rfl, 1 + text.length, 1 + text.length, ?_, ?_, ?_⟩⟩
      · exact Nat.add_assoc _ _ _
      · exact Nat.add_assoc _ _ _
      · rw [hrest, hrest', Nat.add_comm, List.drop_succ_cons, List.drop_succ_cons, List.drop_left,
          List.drop_left, List.count_cons, List.count_cons, count_erase]
  | @bare ch cs hrest hmark =>
      obtain ⟨hblank, hcomment⟩ := head_skip (hskip.symm ▸ hrest)
      obtain ⟨hvalue, hnext⟩ := bare_erased h
      rw [hrest, erase_cons hblank hcomment] at hrest'
      exact ⟨_, .bare hrest' hmark, hvalue ▸ .matched hnext⟩

end Grammar

namespace Grammar.Failure.Alike

variable {c c' : Cursor} {f f' : Failure}

theorem behind {d d' : Cursor} (h : Failure.Alike d d' f f') (hd : c.Precedes d)
    (hd' : c'.Precedes d') : Failure.Alike c c' f f' := by
  obtain ⟨taken, hrest, hpos⟩ := hd
  obtain ⟨taken', hrest', hpos'⟩ := hd'
  obtain ⟨n, n', hn, hn', hlines⟩ := h.lines
  refine ⟨h.expected, h.context, taken.length + n, taken'.length + n', by omega, by omega, ?_⟩
  rw [hrest, hrest', List.drop_length_add_append, List.drop_length_add_append]
  exact hlines

theorem inside (h : Failure.Alike c c' f f') (labels : List Label) :
    Failure.Alike c c' (f.inside labels) (f'.inside labels) :=
  ⟨h.expected, congrArg (labels ++ ·) h.context, h.lines⟩

theorem congr (h : Failure.Alike c c' f f') {g g' : Failure} (hg : g.commit = f.commit)
    (hg' : g'.commit = f'.commit) : Failure.Alike c c' g g' := by
  simp only [Failure.commit, Failure.mk.injEq] at hg hg'
  obtain ⟨hpos, hexpected, -, hcontext⟩ := hg
  obtain ⟨hpos', hexpected', -, hcontext'⟩ := hg'
  refine ⟨?_, ?_, ?_⟩
  · rw [hexpected, hexpected', h.expected]
  · rw [hcontext, hcontext', h.context]
  · rw [hpos, hpos']
    exact h.lines

theorem line_eq {source source' : List Char} (h : Failure.Alike ⟨0, source⟩ ⟨0, source'⟩ f f')
    (hcount : source'.count '\n' = source.count '\n') :
    (locate source' f'.pos).line = (locate source f.pos).line := by
  obtain ⟨n, n', hn, hn', hlines⟩ := h.lines
  rw [Nat.zero_add] at hn hn'
  rw [← List.take_append_drop n source, ← List.take_append_drop n' source', List.count_append,
    List.count_append, hlines] at hcount
  simp only [locate, hn, hn', Nat.add_right_cancel hcount]

end Grammar.Failure.Alike

namespace Frontier

/-- A frontier of a text and one of what is left of the text. -/
structure Erased (s s' : Frontier) : Prop where
  same : s' = { s with cursor := s'.cursor }
  cursor : s.cursor.Erased s'.cursor
  skip : s.cursor.skip = s.cursor
  skip' : s'.cursor.skip = s'.cursor

namespace Erased

variable {p : Nat → Prop} {s s' t : Frontier}

theorem rest (h : s.Erased s') : s'.cursor.rest = erase .code s.cursor.rest :=
  h.cursor

theorem count_rest (h : s.Erased s') : s.cursor.rest.count '\n' = s'.cursor.rest.count '\n' := by
  rw [h.rest, count_erase]

theorem opened (h : s.Erased s') : s'.opened = s.opened := by
  rw [h.same]

theorem completed (h : s.Erased s') : s'.completed = s.completed := by
  rw [h.same]
  rfl

theorem exists_step (h : s.Erased s') (hstep : s.step? = some t) :
    ∃ t', s'.step? = some t' ∧ t.Erased t' := by
  obtain ⟨m, htoken, htake⟩ := step?_eq_some_iff.1 hstep
  have hcase := tokenAt_eq_iff.1 htoken
  rw [h.skip] at hcase
  obtain ⟨reply', hcase', herased⟩ := hcase.exists_erased h.cursor h.skip
  generalize hreply : Reply.matched m = reply at herased
  cases herased with
  | failed => cases hreply
  | @matched tok next next' hnext =>
      cases hreply
      have ht := cursor_take? htake
      refine ⟨{ t with cursor := next'.skip }, ?_, rfl, ?_, ?_, Cursor.skip_skip _⟩
      · rw [step?_eq_some_iff, h.same]
        exact ⟨_, hcase'.token_eq h.skip', take?_with_cursor htake _ _⟩
      · rw [ht]
        exact hnext.skip
      · rw [ht, Cursor.skip_skip]

theorem exists_leadsVia (h : s.Erased s') (hleads : s.LeadsVia p t) :
    ∃ t', s'.LeadsVia p t' ∧ t.Erased t' := by
  induction hleads with
  | refl => exact ⟨s', .refl, h⟩
  | tail _ hstep ih =>
      obtain ⟨t', ht', herased⟩ := ih
      obtain ⟨u', hu', herased'⟩ := herased.exists_step hstep.1
      exact ⟨u', ht'.tail hu' (herased'.opened ▸ hstep.2), herased'⟩

theorem rest_of_nil (h : s.Erased s') (hrest : s.cursor.rest = []) : s'.cursor.rest = [] := by
  rw [h.rest, hrest]
  rfl

theorem rest_ne_nil (h : s.Erased s') (hrest : s.cursor.rest ≠ []) : s'.cursor.rest ≠ [] := by
  obtain ⟨ch, cs, hcs⟩ := List.exists_cons_of_ne_nil hrest
  obtain ⟨hblank, hcomment⟩ := head_skip (h.skip.symm ▸ hcs)
  rw [h.rest, hcs, erase_cons hblank hcomment]
  exact List.cons_ne_nil _ _

theorem exists_blocked (h : s.Erased s') {f : Failure} (hblocked : s.Blocked f) :
    ∃ f', s'.Blocked f' ∧ Failure.Alike s.cursor s'.cursor f f' := by
  cases hblocked with
  | broken hne htoken =>
      have hcase := tokenAt_eq_iff.1 htoken
      rw [h.skip] at hcase
      obtain ⟨reply', hcase', herased⟩ := hcase.exists_erased h.cursor h.skip
      generalize hreply : Reply.failed f = reply at herased
      cases herased with
      | matched => cases hreply
      | failed halike =>
          cases hreply
          exact ⟨_, .broken (h.rest_ne_nil hne) (hcase'.token_eq h.skip'), halike⟩
  | unclosed hrest hopened =>
      exact ⟨_, .unclosed (h.rest_of_nil hrest) (h.opened ▸ hopened), rfl, rfl, 0, 0, rfl, rfl,
        h.count_rest⟩
  | @stray cs hrest hopened =>
      have hrest' : s'.cursor.rest = ')' :: erase .code cs := by
        rw [h.rest, hrest]
        rfl
      exact ⟨_, .stray hrest' (h.opened.trans hopened), rfl, rfl, 0, 0, rfl, rfl, h.count_rest⟩

/-- What agrees with the frontier of a text agrees with the one of what is left of it. -/
theorem exists_agrees (h : s.Erased s') {c c' : Cursor} (hc : c.Precedes s.cursor)
    (hc' : c'.Precedes s'.cursor) {o : Outcome} (hagrees : s.Agrees limit o) :
    ∃ o', s'.Agrees limit o' ∧ o'.forms = o.forms ∧
      Option.Rel (Failure.Alike c c') o.failure o'.failure := by
  cases hagrees with
  | ended ht hcompleted hended =>
      obtain ⟨t', ht', herased⟩ := h.exists_leadsVia ht
      refine ⟨_, .ended ht' ?_ ⟨?_, ?_⟩, rfl, .none⟩
      · rw [herased.completed, hcompleted, h.completed]
      · exact herased.opened.trans hended.opened
      · exact herased.rest_of_nil hended.rest
  | blocked ht hcompleted hblocked hf =>
      obtain ⟨t', ht', herased⟩ := h.exists_leadsVia ht
      obtain ⟨g', hblocked', halike⟩ := herased.exists_blocked hblocked
      have hbehind := halike.behind (hc.trans ht.leads.precedes) (hc'.trans ht'.leads.precedes)
      refine ⟨_, .blocked ht' ?_ hblocked' rfl, rfl, .some ((hbehind.inside _).congr hf ?_)⟩
      · rw [herased.completed, hcompleted, h.completed]
      · rw [labels, labels, herased.opened]
  | tooDeep ht hcompleted hopened hu hdeep =>
      obtain ⟨t', ht', herased⟩ := h.exists_leadsVia ht
      obtain ⟨u', hu', herased'⟩ := herased.exists_leadsVia hu
      refine ⟨_, .tooDeep ht' ?_ (herased.opened.trans hopened) hu' (herased'.opened ▸ hdeep),
        rfl, ?_⟩
      · rw [herased.completed, hcompleted, h.completed]
      · exact .some (Failure.Alike.behind ⟨rfl, rfl, 0, 0, rfl, rfl, herased.count_rest⟩
          (hc.trans ht.leads.precedes) (hc'.trans ht'.leads.precedes))

end Erased

theorem start_erased (source : List Char) : (start source).Erased (start (erase .code source)) := by
  have hsource : Cursor.Erased ⟨0, source⟩ ⟨0, erase .code source⟩ := rfl
  exact ⟨rfl, hsource.skip, Cursor.skip_skip _, Cursor.skip_skip _⟩

end Frontier

theorem Grammar.Failure.Alike.rel_congr {c c' : Cursor}
    {failure failure' failure'' : Option Failure}
    (h : Option.Rel (Failure.Alike c c') failure failure')
    (hcommit : failure'.map Failure.commit = failure''.map Failure.commit) :
    Option.Rel (Failure.Alike c c') failure failure'' := by
  cases h with
  | none =>
      cases failure'' with
      | none => exact .none
      | some f'' => cases hcommit
  | some halike =>
      cases failure'' with
      | none => cases hcommit
      | some f'' => exact .some (halike.congr rfl (Option.some.inj hcommit).symm)

theorem drain_erase (source : List Char) (traced : Bool) (limit : NestingLimit) :
    ∃ o o' : Outcome, (FormStream.start source traced limit).drain.items = o.items source ∧
      (FormStream.start (erase .code source) traced limit).drain.items =
        o'.items (erase .code source) ∧
      o'.forms = o.forms ∧
      Option.Rel (fun f f' => f'.expected = f.expected ∧
        (f'.report (erase .code source)).context = (f.report source).context ∧
        (f'.report (erase .code source)).line = (f.report source).line) o.failure o'.failure := by
  have hagrees : (Frontier.start source).Agrees limit (outcome limit ⟨0, source⟩) :=
    Frontier.agrees_outcome limit [] _
  have hagrees' : (Frontier.start (erase .code source)).Agrees limit
      (outcome limit ⟨0, erase .code source⟩) :=
    Frontier.agrees_outcome limit [] _
  obtain ⟨o', ho', hforms, hrel⟩ := (Frontier.start_erased source).exists_agrees
    (Cursor.Precedes.skip ⟨0, source⟩) (Cursor.Precedes.skip ⟨0, erase .code source⟩) hagrees
  obtain ⟨hforms', hfailure⟩ := ho'.unique (Nat.zero_le _) hagrees'
  refine ⟨_, _, drain_start_items _ _ _, drain_start_items _ _ _, hforms'.symm.trans hforms, ?_⟩
  have halike := Failure.Alike.rel_congr hrel hfailure
  generalize (outcome limit ⟨0, source⟩).failure = failure at halike ⊢
  generalize (outcome limit ⟨0, erase .code source⟩).failure = failure' at halike ⊢
  cases halike with
  | none => exact .none
  | some h =>
      refine .some ⟨h.expected, ?_, ?_⟩
      · exact congrArg (List.map Label.text) h.context
      · exact congrArg (fun line : Nat => some (line : Int)) (h.line_eq (count_erase _ _))

end Sexp
