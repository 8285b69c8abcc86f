import Sexp.Proofs.AtomText
import Sexp.Proofs.StreamRun

namespace Sexp

open Grammar Text

variable {limit : NestingLimit}

/-- Blank characters and whole comments. -/
inductive Separator : List Char → Prop where
  | nil : Separator []
  | blank {ch : Char} {sep : List Char} : isBlank ch = true → Separator sep →
      Separator (ch :: sep)
  | comment {words sep : List Char} : '\n' ∉ words → Separator sep →
      Separator (';' :: (words ++ '\n' :: sep))

/-- Two items that may be written without a separator between them: a mark closes
the one or opens the other. -/
def MayTouch (text rest : List Char) : Prop :=
  Closed text ∨ rest.head? = some '(' ∨ rest.head? = some '\'' ∨ rest.head? = some '"'

mutual

/-- The texts of a form, with separators between any two of its parts. -/
inductive Written : Form → List Char → Prop where
  | atom {form : Form} : form.items? = none → Written form form.text
  | list {items : List Form} {text : List Char} : Layout items text →
      Written (.list items) ('(' :: (text ++ [')']))
  | quote {items : List Form} {text : List Char} : Layout items text →
      Written (.quote items) ('\'' :: '(' :: (text ++ [')']))

/-- The texts of several forms, with separators between them. -/
inductive Arranged : List Form → List Char → Prop where
  | nil : Arranged [] []
  | single {form : Form} {text : List Char} : Written form text → Arranged [form] text
  | cons {form next : Form} {forms : List Form} {text between rest : List Char} :
      Written form text → Separator between → Arranged (next :: forms) rest →
      (between = [] → MayTouch text rest) →
      Arranged (form :: next :: forms) (text ++ (between ++ rest))

/-- The texts of several forms, with separators around them as well. -/
inductive Layout : List Form → List Char → Prop where
  | around {forms : List Form} {before text behind : List Char} :
      Separator before → Arranged forms text → Separator behind →
      Layout forms (before ++ (text ++ behind))

end

theorem Text.ignorableLength_words {words : List Char} (h : '\n' ∉ words) (cs : List Char) :
    ignorableLength true (words ++ cs) = words.length + ignorableLength true cs := by
  induction words with
  | nil => rw [List.nil_append, List.length_nil, Nat.zero_add]
  | cons ch words ih =>
      simp only [List.mem_cons, not_or] at h
      have hch : (ch != '\n') = true := by simpa using Ne.symm h.1
      rw [List.cons_append, ignorableLength, hch, ih h.2, List.length_cons]
      omega

theorem Text.ignorableLength_comment {words : List Char} (h : '\n' ∉ words) (cs : List Char) :
    ignorableLength true (words ++ '\n' :: cs) = words.length + 1 + ignorableLength false cs := by
  rw [ignorableLength_words h, Nat.add_assoc, Nat.add_comm 1]
  rfl

namespace Separator

variable {sep cs : List Char}

theorem space : Separator [' '] :=
  .blank (by decide) .nil

theorem line : Separator ['\n'] :=
  .blank (by decide) .nil

theorem append {sep' : List Char} (h : Separator sep) (h' : Separator sep') :
    Separator (sep ++ sep') := by
  induction h with
  | nil => exact h'
  | blank hblank _ ih => exact .blank hblank ih
  | comment hwords _ ih =>
      rw [List.cons_append, List.append_assoc]
      exact .comment hwords ih

theorem ignorableLength_append (h : Separator sep) (cs : List Char) :
    ignorableLength false (sep ++ cs) = sep.length + ignorableLength false cs := by
  induction h with
  | nil => simp
  | blank hblank _ ih =>
      rw [List.cons_append, ignorableLength, if_pos hblank, ih, List.length_cons]
      omega
  | @comment words sep hwords _ ih =>
      have hsemicolon : isBlank ';' = false := by decide
      rw [List.cons_append, ignorableLength, hsemicolon, if_neg Bool.false_ne_true, if_pos rfl,
        List.append_assoc, List.cons_append, ignorableLength_comment hwords, ih]
      simp only [List.length_cons, List.length_append]
      omega

theorem skip_append (h : Separator sep) (pos : Nat) (cs : List Char) :
    Cursor.skip ⟨pos, sep ++ cs⟩ = Cursor.skip ⟨pos + sep.length, cs⟩ := by
  simp [Cursor.skip, Cursor.advance, h.ignorableLength_append, List.drop_append, Nat.add_assoc]

theorem endsRun_append (h : Separator sep) (hcs : sep = [] → EndsRun isSymbolChar cs) :
    EndsRun isSymbolChar (sep ++ cs) := by
  cases h with
  | nil => exact hcs rfl
  | blank hblank => exact .cons (by simp [isSymbolChar, hblank])
  | comment => exact .cons (by decide)

end Separator

namespace Grammar.StopsForms

variable {tail : List Char}

theorem endsRun (h : StopsForms tail) : EndsRun isSymbolChar tail := by
  intro ch hch
  rw [h ch hch]
  decide

theorem skip_eq (h : StopsForms tail) (pos : Nat) : Cursor.skip ⟨pos, tail⟩ = ⟨pos, tail⟩ := by
  cases tail with
  | nil => rfl
  | cons ch cs =>
      rw [h ch rfl]
      rfl

theorem repeated_expression (h : StopsForms tail) {sep : List Char} (hsep : Separator sep)
    (depth pos : Nat) :
    ∃ stoppedBy, repeated (expression depth) (Cursor.skip ⟨pos, sep ++ tail⟩) =
      .matched ⟨[], ⟨pos + sep.length, tail⟩, stoppedBy⟩ := by
  rw [hsep.skip_append, h.skip_eq]
  have hnone : expression depth ⟨pos + sep.length, tail⟩ =
      .failed (.expecting (pos + sep.length) .expression) := by
    have hskip := h.skip_eq (pos + sep.length)
    rw [expression, expressionOf_none (by rwa [hskip]), hskip]
    rfl
  exact ⟨_, repeated_of_failed hnone rfl⟩

end Grammar.StopsForms

theorem Grammar.repeated_of_foundAt {depth : Nat} {c next : Cursor} {form : Form}
    (h : FoundAt (forms depth) c form next) {forms : List Form} {stop : Cursor}
    (hlater : ∃ stoppedBy, repeated (expression depth) next.skip =
      .matched ⟨forms, stop, stoppedBy⟩) :
    ∃ stoppedBy, repeated (expression depth) c = .matched ⟨form :: forms, stop, stoppedBy⟩ := by
  obtain ⟨stoppedBy, hlater⟩ := hlater
  have hitem : expression depth c = .matched ⟨form, next.skip, none⟩ := by
    refine (expressionOf_eq_matched_iff (forms_neverBacktracks depth)).2 ⟨form, next, ?_, rfl⟩
    rwa [h.skip_eq]
  refine ⟨stoppedBy, ?_⟩
  rw [repeated_of_matched (expression_consumes depth) hitem, hlater]
  rfl

theorem MayTouch.apart {text rest behind : List Char} (h : MayTouch text rest) :
    Apart text (rest ++ behind) := by
  rcases h with h | h
  · exact .inl h
  · refine .inr fun ch hch => ?_
    cases rest with
    | nil => simp at h
    | cons first rest =>
        simp only [List.head?_cons, Option.some.injEq] at h
        cases hch
        rcases h with rfl | rfl | rfl <;> decide

/-- Whether a form is found in each of its texts, in front of any text that keeps
apart from it. -/
def FoundInTexts (depth : Nat) (form : Form) : Prop :=
  ∀ {text behind : List Char}, Written form text → Apart text behind → ∀ pos,
    FoundAt (forms depth) ⟨pos, text ++ behind⟩ form.canonical ⟨pos + text.length, behind⟩

section Repeated

variable {items : List Form} {text tail : List Char} {depth : Nat}

theorem Arranged.repeated_expression (h : Arranged items text)
    (hitems : ∀ form ∈ items, FoundInTexts depth form) {before behind : List Char}
    (hbefore : Separator before) (hbehind : Separator behind) (htail : StopsForms tail)
    (pos : Nat) :
    ∃ stoppedBy, repeated (expression depth)
        (Cursor.skip ⟨pos, before ++ (text ++ (behind ++ tail))⟩) =
      .matched ⟨items.map Form.canonical,
        ⟨pos + (before ++ (text ++ behind)).length, tail⟩, stoppedBy⟩ := by
  -- the separator in front of the next item is skipped behind this one
  induction items generalizing text before pos with
  | nil =>
      cases h
      have hstop := htail.repeated_expression (hbefore.append hbehind) depth pos
      simpa using hstop
  | cons form items ih =>
      have hform : FoundInTexts depth form := hitems form (by simp)
      rw [hbefore.skip_append]
      cases h with
      | single hwritten =>
          have hapart : Apart text (behind ++ tail) :=
            .inr (hbehind.endsRun_append fun _ => htail.endsRun)
          have hfound := hform hwritten hapart (pos + before.length)
          have hstop :=
            htail.repeated_expression hbehind depth (pos + before.length + text.length)
          rw [hfound.skip_eq]
          have hall := repeated_of_foundAt hfound hstop
          simpa [Nat.add_assoc] using hall
      | @cons _ next items text between rest hwritten hbetween hrest htouch =>
          -- without a separator the items have to keep apart by themselves
          have hapart : Apart text (between ++ (rest ++ (behind ++ tail))) := by
            by_cases hempty : between = []
            · rw [hempty]
              exact (htouch hempty).apart
            · exact .inr (hbetween.endsRun_append fun h => absurd h hempty)
          have hfound := hform hwritten hapart (pos + before.length)
          have hlater := ih hrest (fun f hf => hitems f (List.mem_cons_of_mem _ hf)) hbetween
            (pos + before.length + text.length)
          simp only [List.append_assoc]
          rw [hfound.skip_eq]
          have hall := repeated_of_foundAt hfound hlater
          simpa [Nat.add_assoc] using hall

theorem Layout.repeated_expression (h : Layout items text)
    (hitems : ∀ form ∈ items, FoundInTexts depth form) (htail : StopsForms tail) (pos : Nat) :
    ∃ stoppedBy, repeated (expression depth) (Cursor.skip ⟨pos, text ++ tail⟩) =
      .matched ⟨items.map Form.canonical, ⟨pos + text.length, tail⟩, stoppedBy⟩ := by
  cases h with
  | around hbefore harranged hbehind =>
      have hall := harranged.repeated_expression hitems hbefore hbehind htail pos
      simpa only [List.append_assoc] using hall

theorem Layout.parenthesized (h : Layout items text)
    (hitems : ∀ form ∈ items, FoundInTexts depth form) (pos : Nat) (behind : List Char) :
    Grammar.parenthesized (forms (depth + 1)) ⟨pos, '(' :: (text ++ [')']) ++ behind⟩ =
      .matched ⟨items.map Form.canonical, ⟨pos + ('(' :: (text ++ [')'])).length, behind⟩,
        none⟩ := by
  have hclose := StopsForms.close behind
  obtain ⟨stoppedBy, hall⟩ := h.repeated_expression hitems hclose (pos + 1)
  have hpos : pos + ('(' :: (text ++ [')'])).length = pos + 1 + text.length + 1 := by
    simp
    omega
  refine parenthesized_eq_matched_iff.2
    ⟨text ++ ')' :: behind, _, behind, by simp, hall, ?_, ?_⟩
  · rw [hclose.skip_eq]
  · rw [hclose.skip_eq, hpos]

end Repeated

/-- A readable form is found in its texts where enough parentheses may
be opened. -/
theorem foundInTexts {form : Form} (hreadable : form.Readable) {depth : Nat}
    (hdepth : form.depth ≤ depth) : FoundInTexts depth form := by
  intro text behind hwritten hbehind pos
  induction hreadable generalizing depth text behind pos with
  | atom hatom hreadable =>
      cases hwritten with
      | atom => exact hreadable.foundAt hbehind
      | list => simp [Form.items?] at hatom
      | quote => simp [Form.items?] at hatom
  | @list items _ ih =>
      obtain _ | depth := depth
      · simp [Form.depth] at hdepth
      have hitems : ∀ form ∈ items, FoundInTexts depth form := fun form hform =>
        ih form hform (Form.depth_list_le_iff.1 hdepth form hform)
      rw [Form.canonical, Form.canonicalItems_eq_map]
      cases hwritten with
      | atom hatom => simp [Form.items?] at hatom
      | list hlayout => exact .list rfl (hlayout.parenthesized hitems pos behind)
  | @quote items _ ih =>
      obtain _ | depth := depth
      · simp [Form.depth] at hdepth
      have hitems : ∀ form ∈ items, FoundInTexts depth form := fun form hform =>
        ih form hform (Form.depth_quote_le_iff.1 hdepth form hform)
      rw [Form.canonical, Form.canonicalItems_eq_map]
      cases hwritten with
      | atom hatom => simp [Form.items?] at hatom
      | @quote _ text hlayout =>
          have hpos : pos + ('\'' :: '(' :: (text ++ [')'])).length =
              pos + 1 + ('(' :: (text ++ [')'])).length := by
            simp
            omega
          rw [hpos]
          exact .quote (c := ⟨pos, _⟩) rfl (hlayout.parenthesized hitems (pos + 1) behind)

theorem Layout.readAll_eq {forms : List Form} {text : List Char} (h : Layout forms text)
    (hreadable : ∀ form ∈ forms, form.Readable)
    (hdepth : ∀ form ∈ forms, form.depth ≤ limit.levels) :
    readAll text limit = .ok (forms.map Form.canonical) := by
  have hfound : ∀ form ∈ forms, FoundInTexts limit.levels form := fun form hform =>
    foundInTexts (hreadable form hform) (hdepth form hform)
  obtain ⟨stoppedBy, hall⟩ := h.repeated_expression hfound .nil 0
  rw [List.append_nil] at hall
  exact readAll_of_repeated hall rfl

/-- However readable forms are laid out, reading the text yields these forms. -/
theorem readAll_of_layout {forms : List Form} {text : List Char} (hlayout : Layout forms text)
    (hreadable : ∀ form ∈ forms, form.Readable)
    (hdepth : ∀ form ∈ forms, form.depth ≤ limit.levels) :
    ∃ read, readAll text limit = .ok read ∧ Form.equalsItems read forms = .ok true := by
  refine ⟨_, hlayout.readAll_eq hreadable hdepth,
    Form.equalsItems_map_canonical fun form hform => ?_⟩
  exact (hreadable form hform).equals_canonical

/-- The list of a symbol and a number with a comment between them, and an empty
quote that touches it. -/
theorem readAll_of_layout_touching :
    ∃ read, readAll "(a;c\n1.5)'( )".toList .standard = .ok read ∧
      Form.equalsItems read
        [.list [.symbol "a", .number (.finite false 15 (-1))], .quote []] = .ok true := by
  have hsymbol : Written (.symbol "a") ['a'] := .atom rfl
  have hnumber : Written (.number (.finite false 15 (-1))) ['1', '.', '5'] := by
    have htext : (Form.number (.finite false 15 (-1))).text = ['1', '.', '5'] := by
      decide +kernel
    exact htext ▸ .atom rfl
  have hcomment : Separator [';', 'c', '\n'] := .comment (by decide : '\n' ∉ ['c']) .nil
  have hlist : Written (.list [.symbol "a", .number (.finite false 15 (-1))])
      ['(', 'a', ';', 'c', '\n', '1', '.', '5', ')'] :=
    .list (.around .nil (.cons hsymbol hcomment (.single hnumber) (by simp)) .nil)
  have hquote : Written (.quote []) ['\'', '(', ' ', ')'] :=
    .quote (.around (.blank (by decide) .nil) .nil .nil)
  have hlayout : Layout [.list [.symbol "a", .number (.finite false 15 (-1))], .quote []]
      "(a;c\n1.5)'( )".toList :=
    .around .nil (.cons hlist .nil (.single hquote) fun _ => .inl (.inl (by decide))) .nil
  have hname : Form.SymbolName "a".toList := by
    refine ⟨?_, List.all_eq_true.1 rfl, ?_, ?_, ?_, ?_, noNumber_iff.2 ?_⟩ <;> decide
  refine readAll_of_layout hlayout ?_ (by decide)
  simp only [List.forall_mem_cons, Form.Readable, Form.AllAtoms.list_iff,
    Form.AllAtoms.quote_iff]
  exact ⟨⟨.atom rfl hname, .atom rfl ⟨_, _, _, _, rfl⟩, by simp⟩, by simp, by simp⟩

end Sexp
