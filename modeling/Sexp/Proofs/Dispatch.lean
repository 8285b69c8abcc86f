import Sexp.Proofs.Refusal
import Sexp.Proofs.Reply

namespace Sexp.Grammar

open Sexp.Text

/-- Move over the ignorable text behind a match. -/
def Reply.skipBehind (reply : Reply α) : Reply α :=
  reply.bind fun m => found m.value m.next.skip

/-- A recognizer whose failures are all final. -/
def NeverBacktracks (recognizer : Recognizer α) : Prop :=
  ∀ c f, recognizer c = .failed f → f.committed = true

theorem firstOf_cons_of_refuses {recognizer : Recognizer α} {c : Cursor}
    {furthest : Failure} {expectation : Expectation} (others : List (Recognizer α))
    (hpos : c.pos ≤ furthest.pos) (h : recognizer c = expected c expectation) :
    firstOf c furthest (recognizer :: others) = firstOf c furthest others := by
  have hfurther : furthest.orFurther (.expecting c.pos expectation) = furthest :=
    if_neg (Nat.not_lt.2 hpos)
  rw [firstOf, h]
  exact congrArg (firstOf c · others) hfurther

theorem firstOf_cons_of_settles {recognizer : Recognizer α} {c : Cursor}
    {furthest : Failure} (others : List (Recognizer α))
    (h : ∀ f, recognizer c = .failed f → f.committed = true) :
    firstOf c furthest (recognizer :: others) = recognizer c := by
  unfold firstOf
  split
  · rename_i f hf
    rw [if_pos (h f hf), hf]
  · rfl

theorem firstOf_of_all_refuse {c : Cursor} {furthest : Failure}
    {recognizers : List (Recognizer α)} (hpos : c.pos ≤ furthest.pos)
    (h : ∀ recognizer ∈ recognizers, ∃ expectation, recognizer c = expected c expectation) :
    firstOf c furthest recognizers = .failed furthest := by
  induction recognizers with
  | nil => rfl
  | cons recognizer others ih =>
      obtain ⟨expectation, hexpected⟩ := h recognizer (by simp)
      rw [firstOf_cons_of_refuses others hpos hexpected]
      exact ih fun r hr => h r (by simp [hr])

theorem unclosed_committed (pos : Nat) (stoppedBy : Option Failure) :
    (unclosed pos stoppedBy).committed = true := by
  unfold unclosed
  split
  · rfl
  · split <;> rfl

theorem closeParen_committed {contents : Match α} {f : Failure}
    (h : (closeParen contents : Reply α) = .failed f) : f.committed = true := by
  unfold closeParen at h
  dsimp only at h
  split at h
  · simp at h
  · cases h
    exact unclosed_committed _ _

theorem repeated_neverBacktracks (item : Recognizer α) : NeverBacktracks (repeated item) := by
  intro c f h
  fun_induction repeated item c with
  | case1 => simp at h
  | case2 c g hg hcommitted =>
      cases h
      exact hcommitted
  | case3 => simp at h
  | case4 c m hm hless ih => exact ih (Reply.map_eq_failed_iff.1 h)
  | case5 => simp at h

theorem forms_neverBacktracks (depth : Nat) : NeverBacktracks (forms depth) := by
  cases depth with
  | zero =>
      intro c f h
      simp [forms] at h
  | succ depth => exact repeated_neverBacktracks _

theorem parenthesized_committed {contents : Recognizer α} (hcontents : NeverBacktracks contents)
    {c : Cursor} {cs : List Char} (hrest : c.rest = '(' :: cs) {f : Failure}
    (h : parenthesized contents c = .failed f) : f.committed = true := by
  simp only [parenthesized, after?_of_rest hrest] at h
  obtain hinner | ⟨m, -, hclose⟩ := Reply.bind_eq_failed_iff.1 h
  · exact hcontents _ _ hinner
  · exact closeParen_committed hclose

theorem listOf_committed {contents : Recognizer (List Form)}
    (hcontents : NeverBacktracks contents) {c : Cursor} {cs : List Char}
    (hrest : c.rest = '(' :: cs) {f : Failure} (h : listOf contents c = .failed f) :
    f.committed = true := by
  obtain ⟨g, hbody, rfl⟩ := Reply.mapFailure_eq_failed_iff.1 (Reply.map_eq_failed_iff.1 h)
  have hg := parenthesized_committed hcontents hrest hbody
  simp [hg, Failure.within]

theorem marked_committed {mark : Char} {shape : Shape} {build : List Form → Form}
    {contents : Recognizer (List Form)} {c : Cursor} {cs : List Char}
    (hrest : c.rest = mark :: cs) {f : Failure}
    (h : marked mark shape build contents c = .failed f) : f.committed = true := by
  simp only [marked, after?_of_rest hrest] at h
  obtain ⟨g, -, rfl⟩ := Reply.mapFailure_eq_failed_iff.1 (Reply.map_eq_failed_iff.1 h)
  rfl

theorem quoteOf_committed {contents : Recognizer (List Form)} {c : Cursor} {cs : List Char}
    (hrest : c.rest = '\'' :: cs) {f : Failure} (h : quoteOf contents c = .failed f) :
    f.committed = true :=
  marked_committed hrest h

theorem tupleOf_committed {contents : Recognizer (List Form)} {c : Cursor} {cs : List Char}
    (hrest : c.rest = '^' :: cs) {f : Failure} (h : tupleOf contents c = .failed f) :
    f.committed = true :=
  marked_committed hrest h

theorem stringBody_failed {pos : Nat} {cs : List Char} {f : Failure}
    (h : stringBody pos cs = .failed f) : f.committed = false ∧ pos ≤ f.pos := by
  fun_induction stringBody pos cs with
  | case1 =>
      cases h
      exact ⟨rfl, Nat.le_refl _⟩
  | case2 => simp at h
  | case3 pos cs ih =>
      obtain ⟨hcommitted, hpos⟩ := ih (Reply.map_eq_failed_iff.1 h)
      exact ⟨hcommitted, by omega⟩
  | case4 =>
      cases h
      exact ⟨rfl, Nat.le_refl _⟩
  | case5 pos ch cs _ _ _ ih =>
      obtain ⟨hcommitted, hpos⟩ := ih (Reply.map_eq_failed_iff.1 h)
      exact ⟨hcommitted, by omega⟩

theorem string_failed {c : Cursor} {cs : List Char} (hrest : c.rest = '"' :: cs) {f : Failure}
    (h : string c = .failed f) : f.committed = false ∧ c.pos < f.pos := by
  simp only [string, after?_of_rest hrest] at h
  exact stringBody_failed (Reply.map_eq_failed_iff.1 h)

/-- The form that no mark announces: a number, else a truth value, else a
symbol. -/
def bare (c : Cursor) : Match Form :=
  match number? c.rest with
  | some (numeral, value) => ⟨.number value, c.advance numeral.text.length, none⟩
  | none =>
      if "true".toList.isPrefixOf c.rest then ⟨.bool true, c.advance 4, none⟩
      else if "false".toList.isPrefixOf c.rest then ⟨.bool false, c.advance 5, none⟩
      else
        let name := c.rest.takeWhile isSymbolChar
        ⟨Form.ofSymbolText name, c.advance name.length, none⟩

/-- The characters that decide at once how a form is written. -/
def marks : List Char :=
  ['(', ')', '\'', '^', '"']

theorem isSymbolChar_of_not_mark {ch : Char} (hblank : isBlank ch = false) (hcomment : ch ≠ ';')
    (hmark : ch ∉ marks) : isSymbolChar ch = true := by
  have hspace : ch ≠ ' ' := by
    rintro rfl
    simp [isBlank, within, blankRanges] at hblank
  simp only [marks, List.mem_cons, List.not_mem_nil, or_false, not_or] at hmark
  simp [isSymbolChar, reserved, hblank, hcomment, hspace, hmark]

theorem head_skip {c : Cursor} {ch : Char} {cs : List Char} (h : c.skip.rest = ch :: cs) :
    isBlank ch = false ∧ ch ≠ ';' := by
  have hzero := ignorableLength_drop false c.rest
  change ignorableLength false c.skip.rest = 0 at hzero
  rw [h, ignorableLength] at hzero
  split at hzero
  · simp at hzero
  · split at hzero
    · simp at hzero
    · rename_i hblank hcomment
      exact ⟨by simpa using hblank, hcomment⟩

/-- A text in front of which a sequence of forms stops. -/
def StopsForms (tail : List Char) : Prop :=
  ∀ ch ∈ tail.head?, ch = ')'

@[simp] theorem StopsForms.nil : StopsForms [] := by
  simp [StopsForms]

@[simp] theorem StopsForms.close (cs : List Char) : StopsForms (')' :: cs) := by
  simp [StopsForms]

section Choice

variable {contents : Recognizer (List Form)} {c : Cursor} {ch : Char} {cs : List Char}

theorem expressionOf_eq_firstOf (contents : Recognizer (List Form)) (c : Cursor) :
    expressionOf contents c =
      (firstOf c.skip (.expecting c.skip.pos .expression)
        [listOf contents, quoteOf contents, tupleOf contents, string, number, boolean,
          symbol]).skipBehind := rfl

theorem expressionOf_list (hcontents : NeverBacktracks contents)
    (h : c.skip.rest = '(' :: cs) :
    expressionOf contents c = (listOf contents c.skip).skipBehind := by
  rw [expressionOf_eq_firstOf,
    firstOf_cons_of_settles _ fun _ hf => listOf_committed hcontents h hf]

theorem expressionOf_quote (h : c.skip.rest = '\'' :: cs) :
    expressionOf contents c = (quoteOf contents c.skip).skipBehind := by
  rw [expressionOf_eq_firstOf,
    firstOf_cons_of_refuses _ (Nat.le_refl _) (listOf_refuses (by simp [h])),
    firstOf_cons_of_settles _ fun _ hf => quoteOf_committed h hf]

theorem expressionOf_tuple (h : c.skip.rest = '^' :: cs) :
    expressionOf contents c = (tupleOf contents c.skip).skipBehind := by
  rw [expressionOf_eq_firstOf,
    firstOf_cons_of_refuses _ (Nat.le_refl _) (listOf_refuses (by simp [h])),
    firstOf_cons_of_refuses _ (Nat.le_refl _) (quoteOf_refuses (by simp [h])),
    firstOf_cons_of_settles _ fun _ hf => tupleOf_committed h hf]

theorem firstOf_brackets {furthest : Failure} (others : List (Recognizer Form))
    (hpos : c.pos ≤ furthest.pos)
    (h : ∀ ch ∈ c.rest.head?, ch ≠ '(' ∧ ch ≠ '\'' ∧ ch ≠ '^') :
    firstOf c furthest (listOf contents :: quoteOf contents :: tupleOf contents :: others) =
      firstOf c furthest others := by
  have hmark : ∀ mark, mark = '(' ∨ mark = '\'' ∨ mark = '^' → c.rest.head? ≠ some mark := by
    rintro mark hmark hhead
    have := h mark hhead
    simp_all
  rw [firstOf_cons_of_refuses _ hpos (listOf_refuses (hmark _ (.inl rfl))),
    firstOf_cons_of_refuses _ hpos (quoteOf_refuses (hmark _ (.inr (.inl rfl)))),
    firstOf_cons_of_refuses _ hpos (tupleOf_refuses (hmark _ (.inr (.inr rfl))))]

theorem expressionOf_string (h : c.skip.rest = '"' :: cs) :
    expressionOf contents c = (string c.skip).skipBehind := by
  rw [expressionOf_eq_firstOf, firstOf_brackets _ (Nat.le_refl _) (by simp [h])]
  congr 1
  cases hstring : string c.skip with
  | matched m =>
      rw [firstOf_cons_of_settles _ (by simp [hstring]), hstring]
  | tooDeep =>
      rw [firstOf_cons_of_settles _ (by simp [hstring]), hstring]
  | failed f =>
      obtain ⟨hcommitted, hpos⟩ := string_failed h hstring
      have hfurther : (Failure.expecting c.skip.pos .expression).orFurther f = f :=
        if_pos hpos
      unfold firstOf
      simp only [hstring, hcommitted, Bool.false_eq_true, if_false, hfurther]
      apply firstOf_of_all_refuse (Nat.le_of_lt hpos)
      intro recognizer hrecognizer
      simp only [List.mem_cons, List.not_mem_nil, or_false] at hrecognizer
      rcases hrecognizer with rfl | rfl | rfl
      · exact ⟨_, number_refuses (h ▸ .cons (by decide))⟩
      · exact ⟨_, boolean_refuses (by simp [h])⟩
      · exact ⟨_, symbol_refuses (h ▸ .cons (by decide))⟩

theorem expressionOf_none (h : StopsForms c.skip.rest) :
    expressionOf contents c = expected c.skip .expression := by
  rw [expressionOf_eq_firstOf]
  suffices hall : firstOf c.skip (.expecting c.skip.pos .expression)
      [listOf contents, quoteOf contents, tupleOf contents, string, number, boolean,
        symbol] = expected c.skip .expression by rw [hall]; rfl
  have hhead : ∀ {p : Char → Prop}, p ')' → ∀ ch ∈ c.skip.rest.head?, p ch :=
    fun hp ch hch => h ch hch ▸ hp
  rw [firstOf_brackets _ (Nat.le_refl _) (hhead (by decide))]
  apply firstOf_of_all_refuse (Nat.le_refl _)
  intro recognizer hrecognizer
  simp only [List.mem_cons, List.not_mem_nil, or_false] at hrecognizer
  rcases hrecognizer with rfl | rfl | rfl | rfl
  · refine ⟨_, string_refuses fun hquote => ?_⟩
    exact absurd (h _ hquote) (by decide)
  · exact ⟨_, number_refuses (hhead (by decide))⟩
  · exact ⟨_, boolean_refuses (hhead (by decide))⟩
  · exact ⟨_, symbol_refuses (hhead (by decide))⟩

theorem firstOf_bare {furthest : Failure} (hpos : c.pos ≤ furthest.pos)
    (hhead : c.rest.head? = some ch) (hch : isSymbolChar ch = true) :
    firstOf c furthest [number, boolean, symbol] = .matched (bare c) := by
  unfold bare
  cases hnumber : number? c.rest with
  | some taken =>
      obtain ⟨numeral, value⟩ := taken
      have hfound := number_of_number? hnumber
      rw [firstOf_cons_of_settles _ (by simp [hfound]), hfound]
      rfl
  | none =>
      rw [firstOf_cons_of_refuses _ hpos (number_of_number?_eq_none hnumber)]
      dsimp only
      split
      · rename_i htrue
        have hfound : boolean c = found (.bool true) (c.advance 4) := by
          simp only [boolean, Cursor.after?, if_pos htrue]
          rfl
        rw [firstOf_cons_of_settles _ (by simp [hfound]), hfound]
        rfl
      · rename_i htrue
        split
        · rename_i hfalse
          have hfound : boolean c = found (.bool false) (c.advance 5) := by
            simp only [boolean, Cursor.after?, if_neg htrue, if_pos hfalse]
            rfl
          rw [firstOf_cons_of_settles _ (by simp [hfound]), hfound]
          rfl
        · rename_i hfalse
          have hrefused : boolean c = expected c (.shape .boolean) := by
            simp only [boolean, Cursor.after?, if_neg htrue, if_neg hfalse]
          have hfound := symbol_of_symbolChar hhead hch
          rw [firstOf_cons_of_refuses _ hpos hrefused,
            firstOf_cons_of_settles _ (by simp [hfound]), hfound]
          rfl

theorem expressionOf_bare (h : c.skip.rest = ch :: cs) (hmark : ch ∉ marks) :
    expressionOf contents c = found (bare c.skip).value (bare c.skip).next.skip := by
  obtain ⟨hblank, hcomment⟩ := head_skip h
  have hch := isSymbolChar_of_not_mark hblank hcomment hmark
  simp only [marks, List.mem_cons, List.not_mem_nil, or_false, not_or] at hmark
  rw [expressionOf_eq_firstOf, firstOf_brackets _ (Nat.le_refl _) (by simp [h, hmark]),
    firstOf_cons_of_refuses _ (Nat.le_refl _) (string_refuses (by simp [h, hmark])),
    firstOf_bare (Nat.le_refl _) (by rw [h]; rfl) hch]
  rfl

end Choice

theorem Reply.skipBehind_eq_failed_iff {reply : Reply α} {f : Failure} :
    reply.skipBehind = .failed f ↔ reply = .failed f := by
  simp [skipBehind, bind_eq_failed_iff]

/-- Trying all ways to write a form comes down to choosing one by the first
character behind the ignorable text.  Only behind a parenthesis or a mark can a
form fail for good, and a string is the only form that can fail further on
without that. -/
theorem expression_choice (depth : Nat) (source : List Char) (pos : Nat) :
    let c := Cursor.ofText source pos
    let start := c.skip
    (start.rest = [] ∨ start.rest.head? = some ')' →
      expression depth c = .failed ⟨start.pos, .expression, false, []⟩) ∧
    (start.rest.head? = some '(' →
      expression depth c = (oneOf .list depth start).skipBehind ∧
        ∀ f, expression depth c = .failed f → f.committed = true) ∧
    (start.rest.head? = some '\'' →
      expression depth c = (oneOf .quote depth start).skipBehind ∧
        ∀ f, expression depth c = .failed f → f.committed = true) ∧
    (start.rest.head? = some '^' →
      expression depth c = (oneOf .tuple depth start).skipBehind ∧
        ∀ f, expression depth c = .failed f → f.committed = true) ∧
    (start.rest.head? = some '"' →
      expression depth c = (oneOf .string depth start).skipBehind ∧
        ∀ f, expression depth c = .failed f →
          oneOf .string depth start = .failed f ∧ f.committed = false ∧ start.pos < f.pos) ∧
    (∀ ch, start.rest.head? = some ch → ch ∉ marks →
      expression depth c = .matched ⟨(bare start).value, (bare start).next.skip, none⟩) := by
  intro c start
  have hcons : ∀ {ch : Char}, start.rest.head? = some ch → ∃ cs, start.rest = ch :: cs := by
    intro ch hch
    exact List.head?_eq_some_iff.1 hch
  refine ⟨?_, ?_, ?_, ?_, ?_, ?_⟩
  · intro h
    have hclosed : StopsForms start.rest := by
      rcases h with h | h <;> simp [StopsForms, h]
    exact expressionOf_none hclosed
  · intro h
    obtain ⟨cs, hrest⟩ := hcons h
    have hlist := expressionOf_list (forms_neverBacktracks depth) hrest
    refine ⟨hlist, fun f hf => ?_⟩
    exact listOf_committed (forms_neverBacktracks depth) hrest
      (Reply.skipBehind_eq_failed_iff.1 (hlist.symm.trans hf))
  · intro h
    obtain ⟨cs, hrest⟩ := hcons h
    have hquote : expression depth c = (oneOf .quote depth start).skipBehind :=
      expressionOf_quote hrest
    refine ⟨hquote, fun f hf => ?_⟩
    exact quoteOf_committed hrest (Reply.skipBehind_eq_failed_iff.1 (hquote.symm.trans hf))
  · intro h
    obtain ⟨cs, hrest⟩ := hcons h
    have htuple : expression depth c = (oneOf .tuple depth start).skipBehind :=
      expressionOf_tuple hrest
    refine ⟨htuple, fun f hf => ?_⟩
    exact tupleOf_committed hrest (Reply.skipBehind_eq_failed_iff.1 (htuple.symm.trans hf))
  · intro h
    obtain ⟨cs, hrest⟩ := hcons h
    have hstring : expression depth c = (oneOf .string depth start).skipBehind :=
      expressionOf_string hrest
    refine ⟨hstring, fun f hf => ?_⟩
    have hown := Reply.skipBehind_eq_failed_iff.1 (hstring.symm.trans hf)
    exact ⟨hown, string_failed hrest hown⟩
  · intro ch h hmark
    obtain ⟨cs, hrest⟩ := hcons h
    exact expressionOf_bare hrest hmark

/-- A number behind a comment, and a parenthesis where no form begins. -/
theorem expression_choice_comment :
    expression 0 (Cursor.ofText ";\n12)".toList 0) =
        .matched ⟨.number (.finite false 12 0), ⟨4, [')']⟩, none⟩ ∧
      expression 0 (Cursor.ofText ";\n12)".toList 4) =
        .failed ⟨4, .expression, false, []⟩ := by
  have hnumber := (expression_choice 0 ";\n12)".toList 0).2.2.2.2.2 '1' (by decide) (by decide)
  have hclosed := (expression_choice 0 ";\n12)".toList 4).1 (.inr (by decide))
  constructor
  · rw [hnumber]
    rfl
  · exact hclosed

end Sexp.Grammar
