import Sexp.Proofs.CursorCut
import Sexp.Proofs.LineColumn
import Sexp.Proofs.Unlimited

/-!
# The nesting limit

A form is given up where more forms are open in it than may be, whatever stands behind
that place, and nowhere else.  It is reported as a whole, and what was read in front of it
stays read.
-/

namespace Sexp

open Grammar Text

namespace Grammar.Bracket

theorem skip_opening (b : Bracket) (pos : Nat) (cs : List Char) :
    Cursor.skip ⟨pos, b.mark?.toList ++ '(' :: cs⟩ = ⟨pos, b.mark?.toList ++ '(' :: cs⟩ := by
  cases b <;> rfl

theorem tailSwap (b : Bracket) (cs cs' : List Char) :
    TailSwap (b.mark?.toList ++ '(' :: cs) (b.mark?.toList ++ '(' :: cs') := by
  cases b with
  | list => exact .of_head (by decide) cs cs'
  | quote => exact .of_head (by decide) ('(' :: cs) ('(' :: cs')
  | tuple => exact .of_head (by decide) ('(' :: cs) ('(' :: cs')

end Grammar.Bracket

theorem Grammar.Token.exists_opening_of_swing_pos {tok : Token} (h : 0 < tok.swing) :
    ∃ b, tok = .opening b := by
  cases tok with
  | opening b => exact ⟨b, rfl⟩
  | closing => exact absurd h (by decide)
  | atom => exact absurd h (Int.lt_irrefl 0)

namespace Frontier

variable {s t u v : Frontier} {limit pos : Nat} {text later : List Char}

theorem exists_opening (hstep : u.step? = some v) (hskip : u.cursor.skip = u.cursor)
    (hless : u.opened.length < v.opened.length) :
    ∃ b cs, u.cursor.rest = b.mark?.toList ++ '(' :: cs ∧ v.opened = (b, u.items) :: u.opened := by
  obtain ⟨m, htoken, htake⟩ := step?_eq_some_iff.1 hstep
  obtain ⟨b, hvalue⟩ : ∃ b, m.value = .opening b := by
    have hopened := length_opened_take? htake
    apply Token.exists_opening_of_swing_pos
    omega
  have hcase := tokenAt_eq_iff.1 htoken
  rw [hskip] at hcase
  generalize hreply : Reply.matched m = reply at hcase
  cases hcase with
  | @opening b cs hrest =>
      cases hreply
      cases htake
      exact ⟨b, cs, hrest, rfl⟩
  | _ => cases hreply <;> cases hvalue

theorem step?_opening_behind (u : Frontier) (b : Bracket) (pos : Nat) (cs : List Char) :
    ∃ v, (u.withCursor ⟨pos, b.mark?.toList ++ '(' :: cs⟩).step? = some v ∧
      v.opened = (b, u.items) :: u.opened := by
  have hcase : TokenCase ⟨pos, b.mark?.toList ++ '(' :: cs⟩ _ := .opening rfl
  have htoken := hcase.token_eq (b.skip_opening pos cs)
  have htake : u.take? u.cursor (.opening b) = some ⟨[], (b, u.items) :: u.opened, u.cursor⟩ := rfl
  exact ⟨_, step?_withCursor htoken htake, rfl⟩

theorem FormRun.leads_of_inside {depth : Nat} {m : Match Form} (h : FormRun depth s (.matched m))
    (hu : s.LeadsVia (s.opened.length < ·) u) :
    u.Leads ⟨s.items ++ [m.value], s.opened, m.next⟩ := by
  cases h with
  | @matched _ t hleads hstep =>
      have hend : s.Leads ⟨s.items ++ [m.value], s.opened, m.next⟩ :=
        Relation.ReflTransGen.tail hleads.leads hstep
      obtain heu | hue := hend.total hu.leads
      · obtain hsame | hopened := hu.between hend heu
        · -- the form takes text, so that the frontier does not come back to where it was
          have hless := (precedes_step? hstep).2
          have hback := hleads.leads.precedes.length_rest_le
          rw [hsame] at hless
          omega
        · exact absurd hopened (Nat.lt_irrefl _)
      · exact hue

theorem exists_append_of_deep (hskip : Cursor.skip ⟨pos, text ++ later⟩ = ⟨pos, text ++ later⟩)
    (hu : LeadsVia (· ≤ limit) ⟨[], [], ⟨pos, text ++ later⟩⟩ u) (hstep : u.step? = some v)
    (hdeep : limit < v.opened.length) (htext : limit < balance .code text) :
    ∃ taken, ∃ b : Bracket, ∃ cs, text = taken ++ (b.mark?.toList ++ '(' :: cs) ∧
      u.cursor = ⟨pos + taken.length, b.mark?.toList ++ '(' :: (cs ++ later)⟩ ∧
      v.opened = (b, u.items) :: u.opened := by
  have hbelow : u.opened.length ≤ limit := by
    obtain rfl | hle := hu.between hu.leads .refl
    · exact Nat.zero_le _
    · exact hle
  obtain ⟨b, behind, hrest, hopened⟩ := exists_opening hstep (hu.leads.skip_cursor hskip)
    (Nat.lt_of_le_of_lt hbelow hdeep)
  obtain ⟨taken, htally⟩ := hu.exists_tally hskip.symm
  have hafter : Mode.after .code taken = .code :=
    htally.mode.resolve_right fun hcomment => by simp [hrest] at hcomment
  -- up to the parenthesis no more are open
  have hfront : ∀ n, balance .code ((taken ++ b.mark?.toList).take n) ≤ limit := by
    intro n
    rw [balance_take_append, hafter, b.neutral_mark.balance_take, Int.add_zero]
    split
    · obtain ⟨k, hk, hlevel⟩ := htally.level_of (Nat.zero_le _) n
      simp only [List.length_nil] at hlevel
      omega
    · have htotal := htally.total
      simp only [List.length_nil] at htotal
      omega
  have hwhole : text ++ later = (taken ++ b.mark?.toList) ++ '(' :: behind := by
    rw [List.append_assoc, ← hrest]
    exact htally.rest
  have hinside : ∀ {more : List Char}, taken ++ b.mark?.toList ≠ text ++ more := by
    intro more hmore
    have hlevel := hfront text.length
    rw [hmore, List.take_left] at hlevel
    omega
  obtain ⟨more, hmore, -⟩ | ⟨cs, htext', hbehind⟩ := List.append_eq_append_iff.1 hwhole
  · exact absurd hmore hinside
  · cases cs with
    | nil => exact absurd (by simp [htext']) (@hinside [])
    | cons ch cs =>
        rw [List.cons_append, List.cons.injEq] at hbehind
        obtain ⟨rfl, rfl⟩ := hbehind
        refine ⟨taken, b, cs, ?_, ?_, hopened⟩
        · rw [htext', List.append_assoc]
        · rw [← hrest, ← htally.pos]

theorem exists_deep {depth : Nat} {m : Match Form} (htext : limit < balance .code text)
    (hskip : ∀ behind, Cursor.skip ⟨pos, text ++ behind⟩ = ⟨pos, text ++ behind⟩)
    (hm : expression depth ⟨pos, text ++ later⟩ = .matched m)
    (hend : m.next.rest.length ≤ later.length) (behind : List Char) :
    ∃ u v, LeadsVia (fun k => 0 < k ∧ k ≤ limit) ⟨[], [], ⟨pos, text ++ behind⟩⟩ u ∧
      u.step? = some v ∧ limit < v.opened.length := by
  have hrun := expression_run_at depth [] (hskip later)
  rw [hm] at hrun
  cases hrun with
  | @matched _ t hleads hstep =>
      obtain hall | ⟨u, v, hu, hstep, -, hdeep⟩ := hleads.split (· ≤ limit)
      · -- if no more were open all the way, no more would be counted
        have hend' := (hall.imp fun k hk => hk.2).tail hstep (Nat.zero_le _)
        obtain ⟨taken, htally⟩ := hend'.exists_tally (hskip later).symm
        obtain ⟨more, rfl⟩ : text <+: taken := by
          refine List.prefix_of_prefix_length_le (List.prefix_append text later)
            ⟨_, htally.rest.symm⟩ ?_
          have hlength := congrArg List.length htally.rest
          simp only [List.length_append] at hlength
          omega
        obtain ⟨k, hk, hlevel⟩ := htally.level_of (Nat.zero_le _) text.length
        rw [List.take_left, List.length_nil] at hlevel
        omega
      · have hu : LeadsVia (fun k => 0 < k ∧ k ≤ limit) _ u := hu.imp fun k hk => ⟨hk.1.1, hk.2⟩
        have hdeep := Nat.not_le.1 hdeep
        obtain ⟨taken, b, cs, rfl, hcursor, hopened⟩ := exists_append_of_deep (hskip later)
          (hu.imp fun k hk => hk.2) hstep hdeep htext
        have hassoc : ∀ tail, taken ++ (b.mark?.toList ++ '(' :: cs) ++ tail =
            taken ++ (b.mark?.toList ++ '(' :: (cs ++ tail)) := by simp
        simp only [hassoc] at hskip hu ⊢
        have hu' := LeadsVia.swap (b.tailSwap (cs ++ later) (cs ++ behind)) hu rfl
          (hcursor.trans (congrArg _ (List.nil_append _).symm))
        rw [withCursor, hskip] at hu'
        obtain ⟨v', hstep', hopened'⟩ :=
          u.step?_opening_behind b (pos + taken.length) (cs ++ behind)
        exact ⟨_, v', hu', hstep', hopened'.trans hopened.symm ▸ hdeep⟩

theorem step?_of_stopsForms (h : StopsForms s.cursor.rest) (hopened : s.opened = []) :
    s.step? = none := by
  cases hrest : s.cursor.rest with
  | nil => exact step?_eq_none (token_of_nil hrest)
  | cons ch cs =>
      obtain rfl : ch = ')' := h ch (by simp [hrest])
      exact (Blocked.stray hrest hopened).step?_eq_none

theorem expression_of_deep {c : Cursor} (hskip : c.skip = c)
    (hu : LeadsVia (fun k => 0 < k ∧ k ≤ limit) ⟨[], [], c⟩ u) (hstep : u.step? = some v)
    (hdeep : limit < v.opened.length) : expression limit c = .tooDeep := by
  have hrun := expression_run_at limit [] hskip
  have hv : LeadsVia (0 < ·) ⟨[], [], c⟩ v := (hu.imp fun k hk => hk.1).tail hstep (by omega)
  generalize hreply : expression limit c = reply at hrun
  cases hrun with
  | tooDeep => rfl
  | matched hleads hlast =>
      have hend := (FormRun.matched hleads hlast).leads
      have hbehind := (FormRun.matched hleads hlast).leads_of_inside hv
      obtain rfl | ⟨-, hle⟩ := hend.between hv.leads hbehind
      · exact absurd hdeep (Nat.not_lt_zero _)
      · simp only [List.length_nil] at hle
        omega
  | failed hhalts =>
      obtain ⟨hstops, -⟩ | ⟨⟨t, g, inner, ht, hblocked, -⟩, -⟩ := hhalts
      · have hstuck := step?_of_stopsForms hstops rfl
        rw [hv.leads.eq_of_none hstuck] at hdeep
        exact absurd hdeep (Nat.not_lt_zero _)
      · have hle := ht.length_opened_le (Nat.zero_le _) hblocked.step?_eq_none hv.leads
        simp only [List.length_nil] at hle
        omega

theorem expression_of_front {depth : Nat} {m : Match Form} (htext : limit < balance .code text)
    (hskip : ∀ behind, Cursor.skip ⟨pos, text ++ behind⟩ = ⟨pos, text ++ behind⟩)
    (hm : expression depth ⟨pos, text ++ later⟩ = .matched m)
    (hend : m.next.rest.length ≤ later.length) (behind : List Char) :
    expression limit ⟨pos, text ++ behind⟩ = .tooDeep := by
  obtain ⟨u, v, hu, hstep, hmany⟩ := exists_deep htext hskip hm hend behind
  exact expression_of_deep (hskip behind) hu hstep hmany

theorem exists_head_of_deep {c : Cursor} (hskip : c.skip = c)
    (hu : LeadsVia (fun k => 0 < k ∧ k ≤ limit) ⟨[], [], c⟩ u) (hstep : u.step? = some v)
    (hdeep : limit < v.opened.length) : ∃ ch cs, c.rest = ch :: cs ∧ numeralChar ch = false := by
  have hv : LeadsVia (0 < ·) ⟨[], [], c⟩ v := (hu.imp fun k hk => hk.1).tail hstep (by omega)
  cases hv using Relation.ReflTransGen.head_induction_on with
  | refl => exact absurd hdeep (Nat.not_lt_zero _)
  | head hfirst =>
      obtain ⟨b, cs, hrest, -⟩ := exists_opening hfirst.1 hskip hfirst.2
      cases b with
      | list => exact ⟨_, _, hrest, by decide⟩
      | quote => exact ⟨_, _, hrest, by decide⟩
      | tuple => exact ⟨_, _, hrest, by decide⟩

theorem Blocked.pos_le {f : Failure} (h : s.Blocked f) (hskip : s.cursor.skip = s.cursor) :
    s.cursor.pos ≤ f.pos := by
  cases h with
  | broken hne htoken =>
      have hpos := pos_lt_of_token_failed (hskip.symm ▸ hne) htoken
      rw [hskip] at hpos
      exact Nat.le_of_lt hpos
  | unclosed => exact Nat.le_refl _
  | stray => exact Nat.le_refl _

theorem Blocked.expected_ne {f : Failure} (h : s.Blocked f) : f.expected ≠ .shallowerForm := by
  cases h with
  | broken hne htoken =>
      have hcase := tokenAt_eq_iff.1 htoken
      generalize hreply : (Reply.failed f : Reply Token) = reply at hcase
      cases hcase with
      | finish => cases hreply; simp [Failure.expecting]
      | loneMark => cases hreply; simp
      | openString => cases hreply; simp [Failure.expecting]
      | badEscape => cases hreply; simp [Failure.expecting]
      | _ => cases hreply
  | unclosed => simp
  | stray => simp [Failure.expecting]

end Frontier

namespace Grammar

variable {c : Cursor} {limit : Nat}

/-- The position up to which a reply tells how to read the text. -/
def Reply.stop : Reply α → Option Nat
  | .matched m => some m.next.pos
  | .failed f => some f.pos
  | .tooDeep => none

theorem expected_ne_of_expression {f : Failure} (hskip : c.skip = c)
    (h : expression limit c = .failed f) : f.expected ≠ .shallowerForm := by
  have hrun := Frontier.expression_run_at limit [] hskip
  rw [h] at hrun
  cases hrun with
  | failed hhalts =>
      obtain ⟨-, rfl⟩ | ⟨⟨t, g, inner, -, hblocked, -, -, hcommit⟩, -⟩ := hhalts
      · simp [Failure.expecting]
      · have hexpected := congrArg Failure.expected hcommit
        exact hexpected ▸ hblocked.expected_ne

/-- A form in which no more forms are open than may be is read as without a limit. -/
theorem expression_eq_unlimited_of_level (hskip : c.skip = c)
    (hlevel : ∀ stop ∈ (unlimited c).stop, ∀ n, c.pos + n ≤ stop →
      balance .code (c.rest.take n) ≤ limit) : expression limit c = unlimited c := by
  apply expression_eq_unlimited
  intro hdeep
  have hrun := Frontier.expression_run_at limit [] hskip
  rw [hdeep] at hrun
  cases hrun with
  | @tooDeep t ht hlength =>
      simp only [List.length_nil, Nat.zero_add] at hlength
      -- too many would be counted in front of where the form ends or fails
      have hnever : ∀ {u : Frontier} {stop : Nat}, (unlimited c).stop = some stop →
          Frontier.Leads ⟨[], [], c⟩ u → t.Leads u → ¬u.cursor.pos ≤ stop := by
        intro u stop hstop hu htu hpos
        obtain ⟨text, htally⟩ := hu.via_nesting.exists_tally hskip.symm
        obtain ⟨n, hn, htpos, hcount⟩ := htally.exists_level hskip.symm rfl ht.leads htu
        have htupos := Frontier.Leads.precedes htu
        have hle := hlevel stop hstop n (htpos ▸ htupos.pos_le.trans hpos)
        rw [htally.rest, List.take_append_of_le_length hn] at hle
        simp only [List.length_nil] at hcount
        omega
      have hrun' := Frontier.expression_run_at c.rest.length [] hskip
      have hnot := unlimited_ne_tooDeep c
      rw [unlimited] at hnot hnever
      generalize expression c.rest.length c = reply at hrun' hnot hnever
      cases hrun' with
      | matched hleads hlast =>
          have hrun' := Frontier.FormRun.matched hleads hlast
          exact hnever rfl hrun'.leads.leads (hrun'.leads_of_inside ht) (Nat.le_refl _)
      | tooDeep => exact hnot rfl
      | failed hhalts =>
          obtain ⟨hstops, -⟩ | ⟨⟨u, g, inner, hu, hblocked, -, -, hcommit⟩, -⟩ := hhalts
          · rw [ht.leads.eq_of_none (Frontier.step?_of_stopsForms hstops rfl)] at hlength
            exact absurd hlength (Nat.not_lt_zero _)
          · have htu : t.Leads u := by
              obtain htu | hut := ht.leads.total hu.leads
              · exact htu
              · exact hut.eq_of_none hblocked.step?_eq_none ▸ .refl
            refine hnever rfl hu.leads htu ?_
            have hpos := congrArg Failure.pos hcommit
            exact hpos ▸ hblocked.pos_le (hu.leads.skip_cursor hskip)

end Grammar

namespace FormStream

variable {source : List Char} {traced : Bool} {limit : NestingLimit} {forms : List Form}
  {s : FormStream}

theorem exists_readsTo {n : Nat} (hs : (start source traced limit).after n = s)
    (hforms : (start source traced limit).taken n = forms.map .form)
    (hmore : s.cursor.skip.rest ≠ []) :
    ReadsTo limit ⟨0, source⟩ forms s.cursor ∧
      s = { start source traced limit with cursor := s.cursor } := by
  have hplace := place_after (s := start source traced limit) rfl n
  rw [hs, hforms] at hplace
  generalize hitems : forms.map Item.form = items at hplace
  cases hplace with
  | @running forms' d hreads =>
      have hsame := congrArg (List.filterMap Item.form?) hitems
      rw [Item.filterMap_form?_map, Item.filterMap_form?_map] at hsame
      exact ⟨hsame ▸ hreads, rfl⟩
  | ended _ hnil => exact absurd (by rw [Cursor.skip_skip, hnil]) hmore
  | @failed forms' d f =>
      have hmem : Item.error (f.report (start source traced limit).source) ∈
          forms.map Item.form := by
        rw [hitems]
        exact List.mem_append_right _ (List.mem_singleton_self _)
      simp at hmem

/-- The form behind the forms that a stream has yielded is nested too deep in the text at
its front: it is reported as a whole, the stream stays where it is, and text in place of
what follows the front is all the same. -/
structure GivenUp (source : List Char) (traced : Bool) (limit : NestingLimit)
    (forms : List Form) (s : FormStream) (front : List Char) (e : ReadError) : Prop where
  next : s.next = { s with done := true }.yielding (.error e)
  /-- The report points to the character that the form begins with. -/
  report : ∃ place : Location, place.PointsTo source s.cursor.skip.pos ∧
    e = (Diagnosis.mk "a less deeply nested form" place (place.found source)
      ["nesting limit"]).report
  items : (start source traced limit).drain.items = forms.map .form ++ [.error e]
  elsewhere (behind : List Char) : ∃ lineText,
    (start (source.take s.cursor.skip.pos ++ (front ++ behind)) traced limit).drain.items =
      forms.map .form ++ [.error { e with lineText := lineText }]

/-- A step that reads the next form as if there were no limit. -/
inductive Unbounded (s : FormStream) : Step → Prop where
  | form {m : Match Form} : unlimited s.cursor.skip = .matched m →
      Unbounded s ({ s with cursor := m.next }.yielding (.form m.value))
  | error {f : Failure} : unlimited s.cursor.skip = .failed f → f.expected ≠ .shallowerForm →
      Unbounded s ({ s with done := true }.yielding (.error (f.report s.source)))

theorem unbounded_next (hdone : s.done = false) (hmore : s.cursor.skip.rest ≠ [])
    (hlevel : ∀ stop ∈ (unlimited s.cursor.skip).stop, ∀ n, s.cursor.skip.pos + n ≤ stop →
      balance .code (s.cursor.skip.rest.take n) ≤ s.limit.levels) : s.Unbounded s.next := by
  have hattempt := attempt_eq hdone
  have hsame := expression_eq_unlimited_of_level (Cursor.skip_skip _) hlevel
  rw [if_neg hmore, hsame] at hattempt
  cases hreply : unlimited s.cursor.skip with
  | matched m =>
      rw [hreply] at hattempt
      rw [next_of_ok hattempt]
      exact .form hreply
  | failed f =>
      rw [hreply] at hattempt
      rw [next_of_error hattempt]
      exact .error hreply (expected_ne_of_expression (Cursor.skip_skip _) (hsame.trans hreply))
  | tooDeep => exact absurd hreply (unlimited_ne_tooDeep _)

end FormStream

theorem Grammar.Failure.exists_report_of_drop (f : Failure) {source : List Char} {ch : Char}
    {cs : List Char} (hdrop : source.drop f.pos = ch :: cs) (later : List Char) :
    ∃ lineText, f.report (source.take f.pos ++ ch :: later) =
      { f.report source with lineText := lineText } := by
  have htake : source.take (f.pos + 1) = source.take f.pos ++ [ch] := by
    rw [List.take_add, hdrop]
    rfl
  have hlength : f.pos + 1 ≤ source.length := by
    have := congrArg List.length hdrop
    simp only [List.length_drop, List.length_cons] at this
    omega
  obtain ⟨lineText, hdiagnosis⟩ := f.exists_diagnosis_take (Nat.lt_succ_self _) hlength later
  rw [htake, List.append_assoc, List.singleton_append] at hdiagnosis
  refine ⟨some (String.ofList lineText), ?_⟩
  rw [report_eq, hdiagnosis, report_eq source]
  rfl

theorem ReadsTo.outcome_of_tooDeep {source : List Char} {limit : NestingLimit}
    {forms : List Form} {c : Cursor} (h : ReadsTo limit ⟨0, source⟩ forms c) {ch : Char}
    {text behind behind' : List Char}
    (hrest : c.skip.rest = ch :: text ++ behind) (hch : numeralChar ch = false)
    (hdeep : expression limit.levels ⟨c.skip.pos, ch :: text ++ behind'⟩ = .tooDeep) :
    outcome limit ⟨0, source.take c.skip.pos ++ (ch :: text ++ behind')⟩ =
      ⟨forms, some (.tooDeep c.skip.pos)⟩ := by
  obtain ⟨taken, hsource, hpos⟩ := h.precedes
  obtain ⟨ignored, hignored, hskippos⟩ := Cursor.Precedes.skip c
  dsimp only at hsource hpos
  have hc : c = ⟨c.pos, ignored ++ (ch :: text ++ behind)⟩ :=
    congrArg (Cursor.mk c.pos) (hrest ▸ hignored)
  have hwhole : source = taken ++ ignored ++ (ch :: text ++ behind) := by
    rw [hsource, hignored, hrest, List.append_assoc]
  have htake : source.take c.skip.pos = taken ++ ignored := by
    rw [hwhole, hskippos, hpos, Nat.zero_add, ← List.length_append, List.take_left]
  have hswap : TailSwap (ch :: text ++ behind) (ch :: text ++ behind') := .of_head hch _ _
  have hskip : Cursor.skip ⟨c.pos, ignored ++ (ch :: text ++ behind)⟩ =
      ⟨c.skip.pos, [] ++ (ch :: text ++ behind)⟩ := by
    rw [← hc, List.nil_append, ← hrest]
  have hskip' : Cursor.skip ⟨c.pos, ignored ++ (ch :: text ++ behind')⟩ =
      ⟨c.skip.pos, ch :: text ++ behind'⟩ := by
    rw [hswap.skip_append hskip]
    exact TailSwap.skip_eq_of_skip_eq hskip _
  have hfails : outcome limit ⟨c.pos, ignored ++ (ch :: text ++ behind')⟩ =
      ⟨[], some (.tooDeep c.skip.pos)⟩ := by
    rw [← outcome_skip, hskip']
    have hstay := TailSwap.skip_eq_of_skip_eq hskip (text ++ behind')
    rw [List.cons_append, outcome_of_error]
    · rw [hstay]
      exact List.cons_ne_nil _ _
    · rw [hstay, ← List.cons_append, hdeep]
      rfl
  rw [htake, h.outcome_swap hswap (congrArg (Cursor.mk 0) hwhole) hc, hfails, Outcome.behind,
    List.append_nil]

namespace FormStream

variable {source : List Char} {traced : Bool} {limit : NestingLimit} {forms : List Form}
  {s : FormStream}

theorem givenUp_of_front {n : Nat} (hs : (start source traced limit).after n = s)
    (hforms : (start source traced limit).taken n = forms.map .form)
    {front behind later : List Char}
    (hrest : s.cursor.skip.rest = front ++ behind) (hfront : limit.levels < balance .code front)
    {m : Match Form} (hm : unlimited ⟨s.cursor.skip.pos, front ++ later⟩ = .matched m)
    (hend : m.next.rest.length ≤ later.length) :
    GivenUp source traced limit forms s front
      ((Failure.tooDeep s.cursor.skip.pos).report source) := by
  obtain ⟨ch, text, rfl⟩ : ∃ ch text, front = ch :: text := by
    apply List.exists_cons_of_ne_nil
    rintro rfl
    exact absurd hfront (Int.not_lt.2 (Int.natCast_nonneg limit.levels))
  have hmore : s.cursor.skip.rest ≠ [] := by simp [hrest]
  obtain ⟨hreads, hsame⟩ := exists_readsTo hs hforms hmore
  have hcursor : s.cursor.skip = ⟨s.cursor.skip.pos, ch :: text ++ behind⟩ := by rw [← hrest]
  have hskip : ∀ behind, Cursor.skip ⟨s.cursor.skip.pos, ch :: text ++ behind⟩ =
      ⟨s.cursor.skip.pos, ch :: text ++ behind⟩ :=
    fun behind => TailSwap.skip_eq_of_skip_eq hcursor (text ++ behind)
  have hdeep : ∀ behind,
      expression limit.levels ⟨s.cursor.skip.pos, ch :: text ++ behind⟩ = .tooDeep :=
    Frontier.expression_of_front hfront hskip hm hend
  have hch : numeralChar ch = false := by
    obtain ⟨u, v, hu, hstep, hmany⟩ := Frontier.exists_deep hfront hskip hm hend behind
    obtain ⟨first, cs, hfirst, hclass⟩ := Frontier.exists_head_of_deep (hskip behind) hu hstep hmany
    obtain rfl := (List.cons.inj hfirst).1
    exact hclass
  have houtcome : ∀ behind', outcome limit
      ⟨0, source.take s.cursor.skip.pos ++ (ch :: text ++ behind')⟩ =
      ⟨forms, some (.tooDeep s.cursor.skip.pos)⟩ :=
    fun behind' => hreads.outcome_of_tooDeep hrest hch (hdeep behind')
  have hplace := (hreads.precedes.trans (.skip s.cursor)).eq_ofText.1
  have hdrop : source.drop s.cursor.skip.pos = ch :: text ++ behind :=
    (congrArg Cursor.rest hplace).symm.trans hrest
  have hwhole : source.take s.cursor.skip.pos ++ (ch :: text ++ behind) = source := by
    rw [← hdrop, List.take_append_drop]
  refine ⟨?_, (Failure.tooDeep s.cursor.skip.pos).exists_pointsTo source, ?_, fun behind' => ?_⟩
  · have hattempt := attempt_eq (s := s) (by rw [hsame]; rfl)
    rw [if_neg hmore, show s.limit = limit by rw [hsame]; rfl, hcursor, hdeep behind] at hattempt
    rw [next_of_error hattempt, show s.source = source by rw [hsame]; rfl]
  · have hitems := houtcome behind
    rw [hwhole] at hitems
    rw [drain_start_items, hitems]
    rfl
  · obtain ⟨lineText, hreport⟩ :=
      (Failure.tooDeep s.cursor.skip.pos).exists_report_of_drop hdrop (text ++ behind')
    refine ⟨lineText, ?_⟩
    rw [drain_start_items, houtcome, ← hreport]
    rfl

/-- Behind forms that are read, a form in which a thousand or more are open at the end of
a text that goes on as one form is given up, and one in which never more than two hundred
are open is read as without a limit. -/
theorem nesting_next {n : Nat} (hs : (start source traced limit).after n = s)
    (hforms : (start source traced limit).taken n = forms.map .form)
    (hmore : s.cursor.skip.rest ≠ []) :
    (∀ front behind later m, s.cursor.skip.rest = front ++ behind → 1000 ≤ balance .code front →
      unlimited ⟨s.cursor.skip.pos, front ++ later⟩ = .matched m →
        m.next.rest.length ≤ later.length → ∃ e, GivenUp source traced limit forms s front e) ∧
      ((∀ stop ∈ (unlimited s.cursor.skip).stop, ∀ n, s.cursor.skip.pos + n ≤ stop →
        balance .code (s.cursor.skip.rest.take n) ≤ 200) → s.Unbounded s.next) := by
  have hleast := limit.least
  have hmost := limit.most
  constructor
  · intro front behind later m hrest hfront hm hend
    exact ⟨_, givenUp_of_front hs hforms hrest (by omega) hm hend⟩
  · intro hlevel
    obtain ⟨-, hsame⟩ := exists_readsTo hs hforms hmore
    have hlimit : s.limit = limit := by rw [hsame]; rfl
    apply unbounded_next (by rw [hsame]; rfl) hmore
    intro stop hstop n hn
    have := hlevel stop hstop n hn
    rw [hlimit]
    omega

end FormStream

theorem exists_unlimited_of_written {form : Form} {text : List Char} (h : Written form text)
    (hreadable : form.Readable) (pos : Nat) :
    ∃ m, unlimited ⟨pos, text⟩ = .matched m ∧ m.next.rest = [] := by
  have hfound := foundInTexts hreadable (Nat.le_refl _) h (.inr (.nil _)) pos
  rw [List.append_nil] at hfound
  have hform : expression form.depth ⟨pos, text⟩ =
      .matched ⟨form.canonical, Cursor.skip ⟨pos + text.length, []⟩, none⟩ := by
    rw [expression, expressionOf_eq_matched_iff (forms_neverBacktracks _), hfound.skip_eq]
    exact ⟨_, _, hfound, rfl⟩
  exact ⟨_, (expression_eq_unlimited (by simp [hform])).symm.trans hform, rfl⟩

/-- Lists in one another. -/
def Form.nested : Nat → Form
  | 0 => .list []
  | n + 1 => .list [nested n]

theorem Form.written_nested (n : Nat) :
    Written (nested n) (List.replicate (n + 1) '(' ++ List.replicate (n + 1) ')') := by
  induction n with
  | zero => exact .list (.around .nil .nil .nil)
  | succ n ih =>
      have hlayout := Written.list (.around .nil (.single ih) .nil)
      rw [List.nil_append, List.append_nil, List.append_assoc, ← List.replicate_succ',
        ← List.cons_append, ← List.replicate_succ] at hlayout
      exact hlayout

theorem Form.readable_nested (n : Nat) : (nested n).Readable := by
  induction n with
  | zero => exact .list (by simp)
  | succ n ih => exact .list (List.forall_mem_singleton.2 ih)

theorem Text.balance_replicate (n : Nat) : balance .code (List.replicate n '(') = n := by
  induction n with
  | zero => rfl
  | succ n ih =>
      have hnext : Mode.next .code '(' = .code := rfl
      rw [List.replicate_succ, balance, hnext, ih, Int.add_comm]
      rfl

theorem FormStream.nesting_next_parens :
    (start ("a ".toList ++ List.replicate 1000 '(') false .standard).Unbounded
        (start ("a ".toList ++ List.replicate 1000 '(') false .standard).next ∧
      ∃ s e, (start ("a ".toList ++ List.replicate 1000 '(') false .standard).after 1 = s ∧
        (start ("a ".toList ++ List.replicate 1000 '(') false .standard).taken 1 =
          [Form.symbol "a"].map .form ∧
        GivenUp ("a ".toList ++ List.replicate 1000 '(') false .standard [.symbol "a"] s
          (List.replicate 1000 '(') e := by
  have htaken : (start ("a ".toList ++ List.replicate 1000 '(') false .standard).taken 1 =
      [Form.symbol "a"].map .form := by
    with_unfolding_all rfl
  have hnone : (start ("a ".toList ++ List.replicate 1000 '(') false .standard).taken 0 =
      ([] : List Form).map .form := rfl
  have hfirst :
      ((start ("a ".toList ++ List.replicate 1000 '(') false .standard).after 0).cursor.skip =
      ⟨0, 'a' :: ' ' :: List.replicate 1000 '('⟩ := by
    with_unfolding_all rfl
  have hstop : (unlimited ⟨0, 'a' :: ' ' :: List.replicate 1000 '('⟩).stop = some 2 := by
    with_unfolding_all rfl
  have hsecond :
      ((start ("a ".toList ++ List.replicate 1000 '(') false .standard).after 1).cursor.skip =
      ⟨2, List.replicate 1000 '('⟩ := by
    with_unfolding_all rfl
  obtain ⟨m, hm, hend⟩ := exists_unlimited_of_written (Form.written_nested 999)
    (Form.readable_nested 999) 2
  constructor
  · refine (nesting_next rfl hnone (by rw [hfirst]; exact List.cons_ne_nil _ _)).2 ?_
    rw [hfirst, hstop]
    rintro _ ⟨⟩ n hn
    obtain rfl | rfl | rfl : n = 0 ∨ n = 1 ∨ n = 2 := by omega
    · decide
    · decide
    · decide
  · have hrest := congrArg Cursor.rest hsecond
    obtain ⟨e, he⟩ := (nesting_next rfl htaken (by rw [hrest]; exact List.cons_ne_nil _ _)).1
      (List.replicate 1000 '(') [] (List.replicate 1000 ')') m (by rw [hrest, List.append_nil])
      (by rw [balance_replicate]; exact Int.le_refl _) (by rw [hsecond]; exact hm)
      (by rw [hend]; exact Nat.zero_le _)
    exact ⟨_, e, rfl, htaken, he⟩

end Sexp
