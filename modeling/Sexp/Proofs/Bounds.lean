import Sexp.Proofs.SharedBody
import Sexp.Proofs.StringLiteral

namespace Sexp

open Text

/-- The positions from a cursor up to the end of its text. -/
def Text.Cursor.Spans (c : Cursor) (pos : Nat) : Prop :=
  c.pos ≤ pos ∧ pos ≤ c.pos + c.rest.length

namespace Text.Cursor

theorem spans_pos (c : Cursor) : c.Spans c.pos :=
  ⟨Nat.le_refl _, Nat.le_add_right _ _⟩

theorem Precedes.spans {c d : Cursor} (h : c.Precedes d) {pos : Nat} (hpos : d.Spans pos) :
    c.Spans pos := by
  rcases hpos with ⟨hlow, hhigh⟩
  have hle := h.pos_le
  have hlength := h.pos_add_length
  constructor <;> omega

theorem spans_ofText {source : List Char} {start pos : Nat} :
    (ofText source start).Spans pos ↔ start ≤ pos ∧ pos ≤ max start source.length := by
  simp only [Spans, ofText, List.length_drop]
  omega

end Text.Cursor

/-- How many forms are open at once when a text is read from a position on.  What is open in
front of the position does not count, and neither do parentheses in a string or a comment
that begins behind it. -/
def Frontier.nestingFrom (source : List Char) (pos : Nat) : Nat :=
  nesting ⟨[], [], (Cursor.ofText source pos).skip⟩

namespace Grammar

variable {α β : Type}

/-- A reply to reading at a cursor that reports no place outside of the text: a failure lies
behind the cursor, and what stopped a match lies behind the match. -/
def Reply.Inside (c : Cursor) : Reply α → Prop
  | .matched m => ∀ f ∈ m.stoppedBy, m.next.Spans f.pos
  | .failed f => c.Spans f.pos
  | .tooDeep => True

/-- A recognizer that reports no place outside of the text. -/
def FailsInside (recognizer : Recognizer α) : Prop :=
  ∀ c, (recognizer c).Inside c

namespace Reply.Inside

variable {c d : Cursor} {reply : Reply α}

theorem found (value : α) (next : Cursor) : (Grammar.found value next).Inside c := by
  rintro f ⟨⟩

theorem expected (c : Cursor) (expectation : Expectation) :
    (Grammar.expected c expectation : Reply α).Inside c :=
  c.spans_pos

theorem map (h : reply.Inside c) (g : α → β) : (reply.map g).Inside c := by
  cases reply <;> exact h

theorem mapFailure (h : reply.Inside c) {change : Failure → Failure}
    (hchange : ∀ f, (change f).pos = f.pos) : (reply.mapFailure change).Inside c := by
  cases reply with
  | matched m => exact h
  | failed f =>
      show c.Spans (change f).pos
      rw [hchange]
      exact h
  | tooDeep => exact h

theorem of_precedes (hcd : c.Precedes d) (h : reply.Inside d) : reply.Inside c := by
  cases reply with
  | matched m => exact h
  | failed f => exact hcd.spans h
  | tooDeep => exact h

end Reply.Inside

theorem symbol_failsInside : FailsInside symbol := by
  intro c
  unfold symbol
  dsimp only
  split
  · exact .expected c _
  · exact .found _ _

theorem stringBody_inside (pos : Nat) (cs : List Char) :
    (stringBody pos cs).Inside ⟨pos, cs⟩ := by
  fun_induction stringBody pos cs with
  | case1 pos => exact Cursor.spans_pos ⟨pos, []⟩
  | case2 => exact .found _ _
  | case3 pos cs ih => exact (ih.of_precedes (.cons (.cons (.refl _)))).map _
  | case4 pos cs => exact Cursor.spans_pos ⟨pos, '\\' :: cs⟩
  | case5 pos ch cs _ _ _ ih => exact (ih.of_precedes (.cons (.refl _))).map _

theorem string_failsInside : FailsInside string := by
  intro c
  unfold string
  split
  · rename_i inside hinside
    exact ((stringBody_inside _ _).of_precedes (.of_after? hinside)).map _
  · exact .expected c _

theorem number_failsInside : FailsInside number := by
  intro c
  rw [number_eq_match]
  split
  · exact .found _ _
  · exact .expected c _

theorem boolean_failsInside : FailsInside boolean := by
  intro c
  unfold boolean
  split
  · exact .found _ _
  · split
    · exact .found _ _
    · exact .expected c _

theorem spans_unclosed {c : Cursor} {stoppedBy : Option Failure}
    (h : ∀ f ∈ stoppedBy, c.Spans f.pos) {pos : Nat} (hpos : c.Spans pos) :
    c.Spans (unclosed pos stoppedBy).pos := by
  cases stoppedBy with
  | none => exact hpos
  | some f =>
      unfold unclosed
      dsimp only
      split
      · exact h f rfl
      · exact hpos

theorem closeParen_inside {m : Match α} (h : ∀ f ∈ m.stoppedBy, m.next.Spans f.pos) :
    (closeParen m : Reply α).Inside m.next := by
  unfold closeParen
  dsimp only
  split
  · exact .found _ _
  · exact spans_unclosed h ((Cursor.Precedes.skip _).spans (Cursor.spans_pos _))

theorem parenthesized_failsInside {contents : Recognizer α} (hadvances : Advances contents)
    (hcontents : FailsInside contents) : FailsInside (parenthesized contents) := by
  intro c
  unfold parenthesized
  split
  · rename_i inside hinside
    have hopen : c.Precedes inside.skip := (Cursor.Precedes.of_after? hinside).trans (.skip _)
    have hinner := hcontents inside.skip
    cases hreply : contents inside.skip with
    | matched m =>
        rw [hreply] at hinner
        exact (closeParen_inside hinner).of_precedes (hopen.trans (hadvances _ _ hreply))
    | failed f =>
        rw [hreply] at hinner
        exact hinner.of_precedes hopen
    | tooDeep => trivial
  · exact .expected c _

theorem listOf_failsInside {contents : Recognizer (List Form)} (hadvances : Advances contents)
    (hcontents : FailsInside contents) : FailsInside (listOf contents) := by
  intro c
  refine ((parenthesized_failsInside hadvances hcontents c).mapFailure fun f => ?_).map _
  split <;> rfl

theorem marked_failsInside {mark : Char} {shape : Shape} {build : List Form → Form}
    {contents : Recognizer (List Form)} (hadvances : Advances contents)
    (hcontents : FailsInside contents) : FailsInside (marked mark shape build contents) := by
  intro c
  unfold marked
  split
  · rename_i body hbody
    have hparens := (parenthesized_failsInside hadvances hcontents body).of_precedes
      (.of_after? hbody)
    refine (hparens.mapFailure fun f => ?_).map _
    rfl
  · exact .expected c _

theorem Shape.recognizer_failsInside {contents : Recognizer (List Form)}
    (hadvances : Advances contents) (hcontents : FailsInside contents) (shape : Shape) :
    FailsInside (shape.recognizer contents) := by
  cases shape with
  | list => exact listOf_failsInside hadvances hcontents
  | quote => exact marked_failsInside hadvances hcontents
  | tuple => exact marked_failsInside hadvances hcontents
  | string => exact string_failsInside
  | number => exact number_failsInside
  | boolean => exact boolean_failsInside
  | symbol => exact symbol_failsInside

theorem firstOf_inside {c : Cursor} {furthest : Failure} (hfurthest : c.Spans furthest.pos)
    {recognizers : List (Recognizer α)}
    (hall : ∀ recognizer ∈ recognizers, FailsInside recognizer) :
    (firstOf c furthest recognizers).Inside c := by
  induction recognizers generalizing furthest with
  | nil => exact hfurthest
  | cons recognizer others ih =>
      have hhead := hall recognizer List.mem_cons_self c
      have hothers : ∀ other ∈ others, FailsInside other :=
        fun other hother => hall other (List.mem_cons_of_mem _ hother)
      unfold firstOf
      cases hreply : recognizer c with
      | matched m =>
          rw [hreply] at hhead
          exact hhead
      | tooDeep => trivial
      | failed f =>
          rw [hreply] at hhead
          dsimp only
          split
          · exact hhead
          · refine ih ?_ hothers
            unfold Failure.orFurther
            split
            · exact hhead
            · exact hfurthest

theorem expressionOf_failsInside {contents : Recognizer (List Form)}
    (hadvances : Advances contents) (hcontents : FailsInside contents) :
    FailsInside (expressionOf contents) := by
  intro c
  have hall : ∀ recognizer ∈ Shape.all.map (Shape.recognizer contents),
      FailsInside recognizer := by
    intro recognizer hrecognizer
    obtain ⟨shape, -, rfl⟩ := List.mem_map.1 hrecognizer
    exact shape.recognizer_failsInside hadvances hcontents
  have hstart : c.skip.Spans (Failure.expecting c.skip.pos .expression).pos :=
    Cursor.spans_pos c.skip
  have hfirst := (firstOf_inside hstart hall).of_precedes (.skip c)
  unfold expressionOf
  dsimp only
  generalize firstOf c.skip _ _ = reply at hfirst
  cases reply with
  | matched m => exact .found _ _
  | failed f => exact hfirst
  | tooDeep => trivial

theorem repeated_failsInside {item : Recognizer α} (hadvances : Advances item)
    (hitem : FailsInside item) : FailsInside (repeated item) := by
  intro c
  have hfailed : ∀ {c : Cursor} {f : Failure}, item c = .failed f → c.Spans f.pos := by
    intro c f h
    have hinside := hitem c
    rw [h] at hinside
    exact hinside
  fun_induction repeated item c with
  | case1 => trivial
  | case2 c f h => exact hfailed h
  | case3 c f h =>
      rintro _ ⟨⟩
      exact hfailed h
  | case4 c m h hless ih => exact (ih.of_precedes (hadvances _ _ h)).map _
  | case5 => exact .found _ _

theorem forms_failsInside (depth : Nat) : FailsInside (forms depth) := by
  induction depth with
  | zero => exact fun _ => trivial
  | succ depth ih =>
      rw [forms_succ]
      exact repeated_failsInside (expression_advances depth)
        (expressionOf_failsInside (forms_advances depth) ih)

theorem expression_failsInside (depth : Nat) : FailsInside (expression depth) :=
  expressionOf_failsInside (forms_advances depth) (forms_failsInside depth)

theorem Shape.oneOf_failsInside (shape : Shape) (depth : Nat) :
    FailsInside (oneOf shape depth) :=
  shape.recognizer_failsInside (forms_advances depth) (forms_failsInside depth)

/-- Items are found one after the other from one cursor to another one. -/
inductive Repeats (item : Recognizer α) : Cursor → List α → Cursor → Prop where
  | nil (c : Cursor) : Repeats item c [] c
  | cons {c d : Cursor} {m : Match α} {values : List α} : item c = .matched m →
      Repeats item m.next values d → Repeats item c (m.value :: values) d

section Repetition

variable {item : Recognizer α} {c d : Cursor} {values : List α}

theorem Repeats.precedes (hadvances : Advances item) (h : Repeats item c values d) :
    c.Precedes d := by
  induction h with
  | nil c => exact .refl c
  | cons hm _ ih => exact (hadvances _ _ hm).trans ih

theorem Repeats.length_le (hconsumes : Consumes item) (h : Repeats item c values d) :
    values.length + d.rest.length ≤ c.rest.length := by
  induction h with
  | nil c => simp
  | cons hm _ ih =>
      have hless := hconsumes _ _ hm
      rw [List.length_cons]
      omega

/-- The reply of a repetition behind its items, by what stands there in place of one more
item. -/
def Reply.afterItems (values : List α) (stop : Cursor) : Reply α → Reply (List α)
  | .matched _ => found values stop
  | .failed f => if f.committed then .failed f else .matched ⟨values, stop, some f⟩
  | .tooDeep => .tooDeep

theorem exists_repeats (hconsumes : Consumes item) (c : Cursor) :
    ∃ values d, Repeats item c values d ∧ (∀ m, item d ≠ .matched m) ∧
      repeated item c = (item d).afterItems values d := by
  fun_induction repeated item c with
  | case1 c h => exact ⟨[], c, .nil c, by simp [h], by rw [h]; rfl⟩
  | case2 c f h hcommitted =>
      exact ⟨[], c, .nil c, by simp [h], by rw [h, Reply.afterItems, if_pos hcommitted]⟩
  | case3 c f h hcommitted =>
      exact ⟨[], c, .nil c, by simp [h], by rw [h, Reply.afterItems, if_neg hcommitted]⟩
  | case4 c m h hless ih =>
      rcases ih with ⟨values, d, hrepeats, hend, hreply⟩
      refine ⟨m.value :: values, d, .cons h hrepeats, hend, ?_⟩
      rw [hreply]
      cases hitem : item d with
      | matched n => exact absurd hitem (hend n)
      | failed f =>
          unfold Reply.afterItems
          dsimp only
          split <;> rfl
      | tooDeep => rfl
  | case5 c m h hless => exact absurd (hconsumes c m h) hless

end Repetition

section Depth

variable {depth n : Nat} {c d : Cursor} {before items : List Form}

theorem Repeats.nesting_le (h : Repeats (expression depth) c items d)
    (hnesting : Frontier.nesting ⟨before, [], c.skip⟩ ≤ n) :
    Frontier.nesting ⟨before ++ items, [], d.skip⟩ ≤ n := by
  induction h generalizing before with
  | nil c => simpa using hnesting
  | @cons c d m items hm _ ih =>
      rw [← expression_skip] at hm
      have hrun := Frontier.expression_run_at depth before c.skip_skip
      rw [hm] at hrun
      have hleads := hrun.leads.leads.nesting_le
      dsimp only at hleads
      rw [← skip_next_of_expression hm] at hleads
      have hlater := ih (hleads.trans hnesting)
      rwa [List.append_assoc] at hlater

theorem bracket_ne_tooDeep (b : Bracket) (h : Frontier.nesting ⟨[], [], c.skip⟩ ≤ depth) :
    oneOf b.shape depth c ≠ .tooDeep := by
  intro hreply
  by_cases hhead : c.rest.head? = some b.first
  · rcases List.head?_eq_some_iff.1 hhead with ⟨cs, hrest⟩
    have hskip := skip_of_first hrest
    rw [hskip] at h
    refine Frontier.expression_ne_tooDeep hskip h ?_
    rw [expression_of_first hrest, hreply]
    rfl
  · have hrefused : ∃ expectation, oneOf b.shape depth c = expected c expectation := by
      cases b with
      | list => exact ⟨_, listOf_refuses hhead⟩
      | quote => exact ⟨_, quoteOf_refuses hhead⟩
      | tuple => exact ⟨_, tupleOf_refuses hhead⟩
    rcases hrefused with ⟨expectation, hexpected⟩
    rw [hreply] at hexpected
    cases hexpected

theorem oneOf_ne_tooDeep (shape : Shape) (h : Frontier.nesting ⟨[], [], c.skip⟩ ≤ depth) :
    oneOf shape depth c ≠ .tooDeep := by
  cases shape with
  | list => exact bracket_ne_tooDeep .list h
  | quote => exact bracket_ne_tooDeep .quote h
  | tuple => exact bracket_ne_tooDeep .tuple h
  | string => exact string_ne_tooDeep c
  | number =>
      show number c ≠ .tooDeep
      rw [number_eq_match]
      split <;> simp [expected]
  | boolean =>
      show boolean c ≠ .tooDeep
      unfold boolean
      split
      · simp
      · split <;> simp [expected]
  | symbol =>
      show symbol c ≠ .tooDeep
      unfold symbol
      dsimp only
      split <;> simp [expected]

end Depth

section Source

variable {source : List Char} {pos depth : Nat}

/-- A form is found or it is not: a match takes text of the source and ends in it, and a
failure lies between the position where reading began and the end of the source. -/
structure InBounds (source : List Char) (pos : Nat) (reply : Reply α) : Prop where
  settled : reply ≠ .tooDeep
  matched (m : Match α) : reply = .matched m →
    m.next = .ofText source m.next.pos ∧ pos < m.next.pos ∧ m.next.pos ≤ source.length
  failed (f : Failure) : reply = .failed f → pos ≤ f.pos ∧ f.pos ≤ max pos source.length

theorem inBounds_of {recognizer : Recognizer α} (hadvances : Advances recognizer)
    (hconsumes : Consumes recognizer) (hinside : FailsInside recognizer)
    (hsettled : recognizer (.ofText source pos) ≠ .tooDeep) :
    InBounds source pos (recognizer (.ofText source pos)) := by
  constructor
  case settled => exact hsettled
  case matched =>
    intro m hm
    have hprecedes := hadvances _ _ hm
    have hless := hconsumes _ _ hm
    have hlength := hprecedes.pos_add_length
    dsimp only [Cursor.ofText] at hless hlength
    rw [List.length_drop] at hless hlength
    exact ⟨hprecedes.eq_ofText_pos, by omega, by omega⟩
  case failed =>
    intro f hf
    have hspans := hinside (.ofText source pos)
    rw [hf] at hspans
    exact Cursor.spans_ofText.1 hspans

/-- Forms are read one after the other from a position on up to another one, where no
further form is found.  There are no more of them than characters. -/
structure FormsEnd (depth : Nat) (source : List Char) (pos : Nat) (items : List Form)
    (stop : Nat) (f : Failure) : Prop where
  repeats : Repeats (expression depth) (.ofText source pos) items (.ofText source stop)
  ends : expression depth (.ofText source stop) = .failed f
  length_le : items.length ≤ source.length - pos
  pos_le : pos ≤ stop
  stop_le : stop ≤ f.pos
  failure_le : f.pos ≤ max pos source.length

theorem exists_formsEnd (h : Frontier.nestingFrom source pos ≤ depth) :
    ∃ items stop f, FormsEnd depth source pos items stop f ∧
      forms (depth + 1) (.ofText source pos) =
        if f.committed then .failed f else .matched ⟨items, .ofText source stop, some f⟩ := by
  rcases exists_repeats (expression_consumes depth) (.ofText source pos) with
    ⟨items, d, hrepeats, hend, hreply⟩
  have hprecedes := hrepeats.precedes (expression_advances depth)
  have hlength := hrepeats.length_le (expression_consumes depth)
  have hspans := expression_failsInside depth d
  have hdeep : expression depth d ≠ .tooDeep := by
    rw [← expression_skip]
    exact Frontier.expression_ne_tooDeep d.skip_skip (hrepeats.nesting_le h)
  cases hitem : expression depth d with
  | matched m => exact absurd hitem (hend m)
  | tooDeep => exact absurd hitem hdeep
  | failed f =>
      rw [hitem] at hspans hreply
      rw [hprecedes.eq_ofText_pos] at hrepeats hitem hreply
      refine ⟨items, d.pos, f, ⟨hrepeats, hitem, ?_, hprecedes.pos_le, hspans.1, ?_⟩, hreply⟩
      · dsimp only [Cursor.ofText] at hlength
        rw [List.length_drop] at hlength
        omega
      · exact (Cursor.spans_ofText.1 (hprecedes.spans hspans)).2

/-- Reading at any position comes to an end within the source, and a repetition of forms
after no more items than there are characters left.  It never fails in a way that another
one could be tried, and keeps the failure that it stopped at. -/
theorem inBounds_of_nesting (h : Frontier.nestingFrom source pos ≤ depth) :
    (∀ shape, InBounds source pos (oneOf shape depth (.ofText source pos))) ∧
    InBounds source pos (expression depth (.ofText source pos)) ∧
    ∃ items stop f, FormsEnd depth source pos items stop f ∧
      forms (depth + 1) (.ofText source pos) =
        if f.committed then .failed f else .matched ⟨items, .ofText source stop, some f⟩ := by
  refine ⟨fun shape => ?_, ?_, exists_formsEnd h⟩
  · exact inBounds_of (shape.recognizer_advances (forms_advances depth))
      (shape.recognizer_consumes (forms_neverExpands depth)) (shape.oneOf_failsInside depth)
      (oneOf_ne_tooDeep shape h)
  · refine inBounds_of (expression_advances depth) (expression_consumes depth)
      (expression_failsInside depth) ?_
    rw [← expression_skip]
    exact Frontier.expression_ne_tooDeep (Cursor.skip_skip _) h

/-- A form behind another one, in which a string breaks two forms deep. -/
theorem inBounds_of_nesting_badEscape :
    Frontier.nestingFrom "(a)(b '(\"\\x".toList 3 ≤ 2 ∧
    (∀ shape, InBounds "(a)(b '(\"\\x".toList 3
      (oneOf shape 2 (.ofText "(a)(b '(\"\\x".toList 3))) ∧
    InBounds "(a)(b '(\"\\x".toList 3 (expression 2 (.ofText "(a)(b '(\"\\x".toList 3)) ∧
    ∃ items stop f, FormsEnd 2 "(a)(b '(\"\\x".toList 3 items stop f ∧
      forms (2 + 1) (.ofText "(a)(b '(\"\\x".toList 3) =
        if f.committed then .failed f
        else .matched ⟨items, .ofText "(a)(b '(\"\\x".toList stop, some f⟩ := by
  have hnesting : Frontier.nestingFrom "(a)(b '(\"\\x".toList 3 = 2 := by
    with_unfolding_all rfl
  exact ⟨Nat.le_of_eq hnesting, inBounds_of_nesting (Nat.le_of_eq hnesting)⟩

end Source

end Grammar

end Sexp
