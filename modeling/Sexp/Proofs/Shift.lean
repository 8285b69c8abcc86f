import Sexp.Proofs.Reply

namespace Sexp

open Text

/-- The same text at a later position. -/
def Text.Cursor.shift (c : Cursor) (k : Nat) : Cursor :=
  ⟨c.pos + k, c.rest⟩

namespace Text.Cursor

variable (c : Cursor) (k : Nat)

@[simp] theorem shift_rest : (c.shift k).rest = c.rest := rfl

@[simp] theorem shift_pos : (c.shift k).pos = c.pos + k := rfl

theorem shift_advance (n : Nat) : (c.shift k).advance n = (c.advance n).shift k := by
  simp [shift, advance, Nat.add_right_comm]

theorem shift_skip : (c.shift k).skip = c.skip.shift k :=
  shift_advance c k _

theorem ofText_append (front text : List Char) (pos : Nat) :
    ofText (front ++ text) (front.length + pos) = (ofText text pos).shift front.length := by
  rw [ofText, List.drop_length_add_append, Nat.add_comm]
  rfl

theorem shift_after? (word : List Char) :
    (c.shift k).after? word = (c.after? word).map (shift · k) := by
  unfold after?
  split <;> simp_all [shift_advance]

end Text.Cursor

namespace Grammar

variable {α β : Type}

/-- The same failure at a later position. -/
def Failure.shift (f : Failure) (k : Nat) : Failure :=
  { f with pos := f.pos + k }

/-- The same match at a later position. -/
def Match.shift (m : Match α) (k : Nat) : Match α :=
  ⟨m.value, m.next.shift k, m.stoppedBy.map (Failure.shift · k)⟩

/-- The same reply at a later position. -/
def Reply.shift (reply : Reply α) (k : Nat) : Reply α :=
  match reply with
  | .matched m => .matched (m.shift k)
  | .failed f => .failed (f.shift k)
  | .tooDeep => .tooDeep

/-- A recognizer that looks only at the text behind its cursor. -/
def ShiftInvariant (recognizer : Recognizer α) : Prop :=
  ∀ c k, recognizer (c.shift k) = (recognizer c).shift k

theorem Reply.bind_shift {reply : Reply α} {next next' : Match α → Reply β} {k : Nat}
    (h : ∀ m, next' (m.shift k) = (next m).shift k) :
    (reply.shift k).bind next' = (reply.bind next).shift k := by
  cases reply with
  | matched m => exact h m
  | failed f => rfl
  | tooDeep => rfl

theorem Reply.map_shift (g : α → β) (reply : Reply α) (k : Nat) :
    (reply.shift k).map g = (reply.map g).shift k :=
  bind_shift fun _ => rfl

theorem Reply.mapFailure_shift {change : Failure → Failure} {k : Nat}
    (h : ∀ f, change (f.shift k) = (change f).shift k) (reply : Reply α) :
    (reply.shift k).mapFailure change = (reply.mapFailure change).shift k := by
  cases reply with
  | matched m => rfl
  | failed f => exact congrArg Reply.failed (h f)
  | tooDeep => rfl

theorem symbol_shiftInvariant : ShiftInvariant symbol := by
  intro c k
  unfold symbol
  simp only [Cursor.shift_rest, Cursor.shift_advance]
  split <;> rfl

theorem stringBody_shift (pos k : Nat) (cs : List Char) :
    stringBody (pos + k) cs = (stringBody pos cs).shift k := by
  fun_induction stringBody pos cs with
  | case1 => rfl
  | case2 pos cs =>
      rw [stringBody, Nat.add_right_comm]
      rfl
  | case3 pos cs ih => rw [stringBody, Nat.add_right_comm, ih, Reply.map_shift]
  | case4 pos cs hcs => rw [stringBody] <;> first | rfl | exact hcs
  | case5 pos ch cs hquotation hescape hbackslash ih =>
      rw [stringBody, Nat.add_right_comm, ih, Reply.map_shift] <;> assumption

theorem string_shiftInvariant : ShiftInvariant string := by
  intro c k
  unfold string
  rw [Cursor.shift_after?]
  cases c.after? ['"'] with
  | none => rfl
  | some inside =>
      exact (congrArg (Reply.map _) (stringBody_shift _ _ _)).trans (Reply.map_shift _ _ _)

theorem number_shiftInvariant : ShiftInvariant number := by
  intro c k
  unfold number
  simp only [Cursor.shift_rest, Cursor.shift_advance]
  split
  · rfl
  · split <;> rfl

theorem boolean_shiftInvariant : ShiftInvariant boolean := by
  intro c k
  unfold boolean
  simp only [Cursor.shift_after?]
  cases c.after? "true".toList with
  | some next => rfl
  | none => cases c.after? "false".toList <;> rfl

theorem unclosed_shift (pos k : Nat) (stoppedBy : Option Failure) :
    unclosed (pos + k) (stoppedBy.map (Failure.shift · k)) =
      (unclosed pos stoppedBy).shift k := by
  cases stoppedBy with
  | none => rfl
  | some f =>
      by_cases hpos : pos < f.pos
      · have hpos' : pos + k < (f.shift k).pos := Nat.add_lt_add_right hpos k
        simp only [unclosed, Option.map_some, if_pos hpos, if_pos hpos']
        rfl
      · have hpos' : ¬pos + k < (f.shift k).pos := fun h => hpos (Nat.lt_of_add_lt_add_right h)
        simp only [unclosed, Option.map_some, if_neg hpos, if_neg hpos']
        rfl

theorem closeParen_shift (m : Match α) (k : Nat) :
    (closeParen (m.shift k) : Reply α) = (closeParen m).shift k := by
  have hskip : (m.shift k).next.skip = m.next.skip.shift k := Cursor.shift_skip _ _
  unfold closeParen
  simp only [hskip, Cursor.shift_after?]
  cases m.next.skip.after? [')'] with
  | some next => rfl
  | none => exact congrArg Reply.failed (unclosed_shift _ _ _)

theorem parenthesized_shiftInvariant {contents : Recognizer α}
    (hcontents : ShiftInvariant contents) : ShiftInvariant (parenthesized contents) := by
  intro c k
  unfold parenthesized
  rw [Cursor.shift_after?]
  cases c.after? ['('] with
  | none => rfl
  | some inside =>
      simp only [Option.map_some]
      rw [Cursor.shift_skip, hcontents]
      exact Reply.bind_shift fun m => closeParen_shift m k

theorem listOf_shiftInvariant {contents : Recognizer (List Form)}
    (hcontents : ShiftInvariant contents) : ShiftInvariant (listOf contents) := by
  intro c k
  unfold listOf
  rw [parenthesized_shiftInvariant hcontents, Reply.mapFailure_shift, Reply.map_shift]
  intro f
  by_cases hcommitted : f.committed = true <;> simp [Failure.shift, Failure.within, hcommitted]

theorem marked_shiftInvariant {mark : Char} {shape : Shape} {build : List Form → Form}
    {contents : Recognizer (List Form)} (hcontents : ShiftInvariant contents) :
    ShiftInvariant (marked mark shape build contents) := by
  intro c k
  unfold marked
  rw [Cursor.shift_after?]
  cases c.after? [mark] with
  | none => rfl
  | some body =>
      simp only [Option.map_some]
      rw [parenthesized_shiftInvariant hcontents, Reply.mapFailure_shift fun _ => rfl,
        Reply.map_shift]

theorem Shape.recognizer_shiftInvariant {contents : Recognizer (List Form)}
    (hcontents : ShiftInvariant contents) (shape : Shape) :
    ShiftInvariant (shape.recognizer contents) := by
  cases shape with
  | list => exact listOf_shiftInvariant hcontents
  | quote => exact marked_shiftInvariant hcontents
  | tuple => exact marked_shiftInvariant hcontents
  | string => exact string_shiftInvariant
  | number => exact number_shiftInvariant
  | boolean => exact boolean_shiftInvariant
  | symbol => exact symbol_shiftInvariant

theorem Failure.orFurther_shift (f g : Failure) (k : Nat) :
    (f.shift k).orFurther (g.shift k) = (f.orFurther g).shift k := by
  have hpos : (f.shift k).pos < (g.shift k).pos ↔ f.pos < g.pos := Nat.add_lt_add_iff_right
  simp only [orFurther, hpos]
  split <;> rfl

theorem firstOf_shift {recognizers : List (Recognizer α)}
    (hall : ∀ recognizer ∈ recognizers, ShiftInvariant recognizer) (c : Cursor)
    (furthest : Failure) (k : Nat) :
    firstOf (c.shift k) (furthest.shift k) recognizers =
      (firstOf c furthest recognizers).shift k := by
  induction recognizers generalizing furthest with
  | nil => rfl
  | cons recognizer others ih =>
      have hothers := ih fun other hother => hall other (List.mem_cons_of_mem _ hother)
      rw [firstOf, firstOf, hall recognizer List.mem_cons_self]
      cases recognizer c with
      | matched m => rfl
      | tooDeep => rfl
      | failed f =>
          by_cases hcommitted : f.committed = true
          · simp [Reply.shift, Failure.shift, hcommitted]
          · have hfurther := hothers (furthest.orFurther f)
            rw [← Failure.orFurther_shift] at hfurther
            simpa [Reply.shift, Failure.shift, hcommitted] using hfurther

theorem expressionOf_shiftInvariant {contents : Recognizer (List Form)}
    (hcontents : ShiftInvariant contents) : ShiftInvariant (expressionOf contents) := by
  intro c k
  have hall : ∀ recognizer ∈ Shape.all.map (Shape.recognizer contents),
      ShiftInvariant recognizer := by
    intro recognizer hrecognizer
    obtain ⟨shape, -, rfl⟩ := List.mem_map.1 hrecognizer
    exact shape.recognizer_shiftInvariant hcontents
  unfold expressionOf
  dsimp only
  rw [Cursor.shift_skip]
  have hfirst := firstOf_shift hall c.skip (.expecting c.skip.pos .expression) k
  refine (congrArg (Reply.bind · _) hfirst).trans (Reply.bind_shift fun m => ?_)
  exact congrArg (found m.value) (Cursor.shift_skip _ _)

theorem repeated_shiftInvariant {item : Recognizer α} (hitem : ShiftInvariant item) :
    ShiftInvariant (repeated item) := by
  intro c k
  fun_induction repeated item c with
  | case1 c h =>
      rw [repeated, hitem, h]
      rfl
  | case2 c f h hcommitted =>
      rw [repeated, hitem, h]
      simp [Reply.shift, Failure.shift, hcommitted]
  | case3 c f h hcommitted =>
      rw [repeated, hitem, h]
      simp [Reply.shift, Failure.shift, Match.shift, hcommitted]
  | case4 c m h hless ih =>
      rw [repeated, hitem, h]
      refine (if_pos hless).trans ?_
      exact (congrArg (Reply.map _) ih).trans (Reply.map_shift _ _ _)
  | case5 c m h hless =>
      rw [repeated, hitem, h]
      exact if_neg hless

theorem forms_shiftInvariant (depth : Nat) : ShiftInvariant (forms depth) := by
  induction depth with
  | zero => exact fun _ _ => rfl
  | succ depth ih =>
      rw [forms_succ]
      exact repeated_shiftInvariant (expressionOf_shiftInvariant ih)

/-- Where a form stands makes no difference to how it is read. -/
theorem expression_shiftInvariant (depth : Nat) : ShiftInvariant (expression depth) :=
  expressionOf_shiftInvariant (forms_shiftInvariant depth)

theorem parenthesizedTimes_shiftInvariant {contents : Recognizer α}
    (hcontents : ShiftInvariant contents) (n : Nat) :
    ShiftInvariant (parenthesizedTimes n contents) := by
  induction n with
  | zero => exact hcontents
  | succ n ih => exact parenthesized_shiftInvariant ih

/-- A recognizer that replies to a text in the same way wherever the text stands.  Text in
front of it only moves the positions in the reply, by as many characters as it has. -/
def Relocatable (recognizer : Recognizer α) : Prop :=
  ∀ (front text : List Char) (pos : Nat),
    recognizer (.ofText (front ++ text) (front.length + pos)) =
      (recognizer (.ofText text pos)).shift front.length

theorem ShiftInvariant.relocatable {recognizer : Recognizer α}
    (h : ShiftInvariant recognizer) : Relocatable recognizer := by
  intro front text pos
  rw [Cursor.ofText_append]
  exact h _ _

/-- No recognizer looks at the text in front of the position where it starts, in however
many parentheses it is wrapped, and neither does skipping what is ignorable. -/
theorem parenthesizedTimes_relocatable (depth n : Nat) :
    (∀ shape, Relocatable (parenthesizedTimes n (oneOf shape depth))) ∧
    Relocatable (parenthesizedTimes n (expression depth)) ∧
    Relocatable (parenthesizedTimes n (forms depth)) ∧
    ∀ (front text : List Char) (pos : Nat),
      (Cursor.ofText (front ++ text) (front.length + pos)).skip =
        (Cursor.ofText text pos).skip.shift front.length := by
  have hforms := forms_shiftInvariant depth
  refine ⟨fun shape => ?_, ?_, ?_, fun front text pos => ?_⟩
  · have hshape : ShiftInvariant (oneOf shape depth) := shape.recognizer_shiftInvariant hforms
    exact (parenthesizedTimes_shiftInvariant hshape n).relocatable
  · exact (parenthesizedTimes_shiftInvariant (expression_shiftInvariant depth) n).relocatable
  · exact (parenthesizedTimes_shiftInvariant hforms n).relocatable
  · rw [Cursor.ofText_append, Cursor.shift_skip]

end Grammar

end Sexp
