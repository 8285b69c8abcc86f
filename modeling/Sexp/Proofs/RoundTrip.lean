import Sexp.Proofs.Layout

namespace Sexp

open Grammar Text

variable {limit : NestingLimit}

namespace Form

theorem text_list (items : List Form) :
    (Form.list items).text = '(' :: ([' '].intercalate (items.map text) ++ [')']) := by
  rw [← texts_eq_map]
  rfl

theorem text_quote (items : List Form) :
    (Form.quote items).text = '\'' :: '(' :: ([' '].intercalate (items.map text) ++ [')']) := by
  rw [← texts_eq_map]
  rfl

end Form

theorem Arranged.intercalate {sep : List Char} (hsep : Separator sep) (hne : sep ≠ [])
    {forms : List Form} (h : ∀ form ∈ forms, Written form form.text) :
    Arranged forms (sep.intercalate (forms.map Form.text)) := by
  induction forms with
  | nil => exact .nil
  | cons form forms ih =>
      have hform := h form (by simp)
      have hforms := ih fun other hother => h other (by simp [hother])
      cases forms with
      | nil => simpa using Arranged.single hform
      | cons next forms =>
          rw [List.map_cons, List.map_cons, List.intercalate_cons_cons, List.append_assoc]
          exact .cons hform hsep hforms fun hempty => absurd hempty hne

theorem Layout.of_arranged {forms : List Form} {text : List Char} (h : Arranged forms text) :
    Layout forms text := by
  simpa using Layout.around .nil h .nil

theorem Written.print (form : Form) : Written form form.text := by
  induction form using Form.induction_items with
  | atom form hatom => exact .atom hatom
  | list items ih =>
      rw [Form.text_list]
      exact .list (.of_arranged (.intercalate .space (List.cons_ne_nil _ _) ih))
  | quote items ih =>
      rw [Form.text_quote]
      exact .quote (.of_arranged (.intercalate .space (List.cons_ne_nil _ _) ih))

theorem Layout.printAll (forms : List Form) : Layout forms (Form.printAll forms).toList := by
  rw [Form.printAll, String.toList_ofList]
  exact .of_arranged (.intercalate .space (List.cons_ne_nil _ _) fun form _ => .print form)

theorem forms_of_readAll {source : List Char} {forms : List Form}
    (h : readAll source limit = .ok forms) :
    ∀ form ∈ forms, form.Readable ∧ form.depth ≤ limit.levels := by
  intro form hform
  obtain ⟨c, m, hm, rfl⟩ := exists_expression_of_readAll h hform
  exact ⟨readable_of_expression hm, depth_le_of_expression hm⟩

/-- If a text can be read, the printed text of its forms can, and yields forms
equal to them one by one. -/
theorem readAll_printAll {source : List Char} {forms : List Form}
    (h : readAll source limit = .ok forms) :
    ∃ again, readAll (Form.printAll forms).toList limit = .ok again ∧
      again.length = forms.length ∧ Form.equalsItems again forms = .ok true := by
  have hforms := forms_of_readAll h
  refine ⟨_, (Layout.printAll forms).readAll_eq (fun form hform => (hforms form hform).1)
    fun form hform => (hforms form hform).2, List.length_map .., ?_⟩
  exact Form.equalsItems_map_canonical fun form hform => (hforms form hform).1.equals_canonical

/-- A tuple of a number that is written with a trailing zero, a truth value and
a method call that touch, and a comment. -/
theorem readAll_printAll_tuple :
    ∃ again, readAll (Form.printAll [.list [.symbol "tuple", .number (.finite false 150 (-2)),
        .bool true, Form.methodCall "m"]]).toList .standard = .ok again ∧ again.length = 1 ∧
      Form.equalsItems again [.list [.symbol "tuple", .number (.finite false 150 (-2)),
        .bool true, Form.methodCall "m"]] = .ok true := by
  have hread : readAll "^(1.50 true.m);c".toList .standard =
      .ok [.list [.symbol "tuple", .number (.finite false 150 (-2)), .bool true,
        Form.methodCall "m"]] := by
    with_unfolding_all rfl
  exact readAll_printAll hread

/-- Each form that a stream yields is readable, at every depth, and a form that
comes back from its own text is. -/
theorem readable_of_read :
    (∀ (s : FormStream) (form : Form), s.next.item = some (.form form) → form.Readable) ∧
    (∀ (limit : NestingLimit) (form : Form) (forms : List Form),
      readAll form.print.toList limit = .ok forms →
        Form.equalsItems forms [form] = .ok true → form.Readable) := by
  refine ⟨fun s form hitem => ?_, fun limit form forms hread hequal => ?_⟩
  · obtain ⟨m, hm, rfl⟩ := FormStream.exists_expression_of_next hitem
    exact readable_of_expression hm
  · obtain ⟨read, hmem, hform⟩ := Form.exists_equals_of_mem hequal (List.mem_singleton_self form)
    exact (forms_of_readAll hread read hmem).1.of_equals hform

/-- A method call that is yielded, and a list that comes back from its text. -/
theorem readable_of_read_list :
    (Form.methodCall "m").Readable ∧ (Form.list [.symbol "a", .bool true]).Readable := by
  have hitem : (FormStream.start ".m".toList false .standard).next.item =
      some (.form (Form.methodCall "m")) := by
    with_unfolding_all rfl
  have hread : readAll (Form.list [.symbol "a", .bool true]).print.toList .standard =
      .ok [.list [.symbol "a", .bool true]] := by
    change readAll "(a true)".toList .standard = _
    with_unfolding_all rfl
  exact ⟨readable_of_read.1 _ _ hitem, readable_of_read.2 _ _ _ hread (by decide)⟩

end Sexp
