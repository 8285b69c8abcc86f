import Sexp.Proofs.StreamRun

/-!
# Outcomes

What comes of reading the text behind a cursor to its end: forms one after the
other, and the failure that ends them, if one does.  A drained stream yields
these forms and the report of this failure.
-/

namespace Sexp

open Grammar Text

theorem Item.collect_map_form_append (forms : List Form) (report : ReadError) :
    collect (forms.map Item.form ++ [.error report]) = .error report := by
  induction forms with
  | nil => rfl
  | cons form forms ih =>
      rw [List.map_cons, List.cons_append, collect, ih]
      rfl

structure Outcome where
  forms : List Form
  failure : Option Failure

namespace Outcome

/-- The outcome with one more form in front. -/
def prepend (form : Form) (o : Outcome) : Outcome :=
  ⟨form :: o.forms, o.failure⟩

theorem exists_of_prepend {form : Form} {o : Outcome} {forms : List Form}
    (h : o.prepend form = ⟨forms, none⟩) : ∃ later, o = ⟨later, none⟩ ∧ form :: later = forms := by
  obtain ⟨later, failure⟩ := o
  cases h
  exact ⟨later, rfl, rfl⟩

/-- The items that a stream over a source text yields. -/
def items (o : Outcome) (source : List Char) : List Item :=
  o.forms.map Item.form ++ (o.failure.map fun f => Item.error (f.report source)).toList

theorem collect_items (o : Outcome) (source : List Char) :
    Item.collect (o.items source) =
      match o.failure with
      | none => .ok o.forms
      | some f => .error (f.report source) := by
  obtain ⟨forms, failure⟩ := o
  cases failure with
  | none => simp [items, Item.collect_map_form]
  | some f => simp [items, Item.collect_map_form_append]

end Outcome

theorem Grammar.Reply.result_eq_ok_iff {reply : Reply α} {pos : Nat} {m : Match α} :
    reply.result pos = .ok m ↔ reply = .matched m := by
  cases reply <;> simp [result]

/-- Read the text behind a cursor to its end. -/
def outcome (limit : NestingLimit) (c : Cursor) : Outcome :=
  if c.skip.rest = [] then ⟨[], none⟩
  else
    match _ : (expression limit.levels c.skip).result c.skip.pos with
    | .ok m => (outcome limit m.next).prepend m.value
    | .error f => ⟨[], some f⟩
termination_by c.rest.length
decreasing_by
  exact Nat.lt_of_lt_of_le (expression_consumes _ _ _ (Reply.result_eq_ok_iff.1 (by assumption)))
    c.length_rest_skip_le

section Equations

variable {limit : NestingLimit} {c : Cursor}

theorem outcome_of_nil (h : c.skip.rest = []) : outcome limit c = ⟨[], none⟩ := by
  rw [outcome, if_pos h]

theorem outcome_of_ok {m : Match Form} (hne : c.skip.rest ≠ [])
    (h : (expression limit.levels c.skip).result c.skip.pos = .ok m) :
    outcome limit c = (outcome limit m.next).prepend m.value := by
  rw [outcome, if_neg hne]
  split <;> simp_all

theorem outcome_of_error {f : Failure} (hne : c.skip.rest ≠ [])
    (h : (expression limit.levels c.skip).result c.skip.pos = .error f) :
    outcome limit c = ⟨[], some f⟩ := by
  rw [outcome, if_neg hne]
  split <;> simp_all

theorem outcome_of_matched {m : Match Form} (h : expression limit.levels c.skip = .matched m) :
    outcome limit c = (outcome limit m.next).prepend m.value := by
  have hless := expression_consumes _ _ _ h
  refine outcome_of_ok ?_ (Reply.result_eq_ok_iff.2 h)
  intro hnil
  simp [hnil] at hless

theorem outcome_skip (c : Cursor) : outcome limit c.skip = outcome limit c := by
  by_cases hnil : c.skip.rest = []
  · rw [outcome_of_nil hnil, outcome_of_nil (by rwa [Cursor.skip_skip])]
  · cases h : (expression limit.levels c.skip).result c.skip.pos with
    | ok m =>
        rw [outcome_of_ok hnil h, outcome_of_ok] <;> rwa [Cursor.skip_skip]
    | error f =>
        rw [outcome_of_error hnil h, outcome_of_error] <;> rwa [Cursor.skip_skip]

end Equations

theorem FormStream.attempt_eq {s : FormStream} (hdone : s.done = false) :
    s.attempt =
      if s.cursor.skip.rest = [] then none
      else some ((expression s.limit.levels s.cursor.skip).result s.cursor.skip.pos) := by
  simp [attempt, hdone]

namespace FormStream

variable {s : FormStream}

theorem next_of_none (h : s.attempt = none) : s.next = ⟨none, s.stopped, ""⟩ := by
  simp only [next, h]

theorem next_of_ok {m : Match Form} (h : s.attempt = some (.ok m)) :
    s.next = { s with cursor := m.next }.yielding (.form m.value) := by
  simp only [next, h]

theorem next_of_error {f : Failure} (h : s.attempt = some (.error f)) :
    s.next = { s with done := true }.yielding (.error (f.report s.source)) := by
  simp only [next, h]

theorem drain_of_done (h : s.done = true) : s.drain.items = [] := by
  have hnone : s.next.item = none := by rw [next_of_none (by simp [attempt, h])]
  rw [drain_of_next_none hnone]

/-- A stream that is drained yields the outcome of the text that is left. -/
theorem drain_items (hdone : s.done = false) :
    s.drain.items = (outcome s.limit s.cursor).items s.source := by
  generalize hc : s.cursor = c
  generalize hlimit : s.limit = limit
  have hattempt := attempt_eq hdone
  rw [hc, hlimit] at hattempt
  fun_induction outcome limit c generalizing s with
  | case1 c hnil =>
      rw [if_pos hnil] at hattempt
      have hnone : s.next.item = none := by rw [next_of_none hattempt]
      rw [drain_of_next_none hnone]
      rfl
  | case2 c hne m hm ih =>
      rw [if_neg hne, hm] at hattempt
      have hnext := next_of_ok hattempt
      have hitem : s.next.item = some (.form m.value) := by rw [hnext]; rfl
      have hlater : s.next.stream.drain.items = (outcome limit m.next).items s.source := by
        rw [hnext]
        exact ih hdone rfl hlimit (hlimit ▸ attempt_eq hdone)
      rw [drain_of_next_some hitem, hlater]
      rfl
  | case3 c hne f hf =>
      rw [if_neg hne, hf] at hattempt
      have hnext := next_of_error hattempt
      have hitem : s.next.item = some (.error (f.report s.source)) := by rw [hnext]; rfl
      have hlater : s.next.stream.drain.items = [] := by
        rw [hnext]
        exact drain_of_done rfl
      rw [drain_of_next_some hitem, hlater]
      rfl

end FormStream

section ReadAll

variable {source : List Char} {limit : NestingLimit}

theorem drain_start_items (source : List Char) (traced : Bool) (limit : NestingLimit) :
    (FormStream.start source traced limit).drain.items = (outcome limit ⟨0, source⟩).items source :=
  FormStream.drain_items rfl

theorem readAll_eq_ok_iff {forms : List Form} :
    readAll source limit = .ok forms ↔ outcome limit ⟨0, source⟩ = ⟨forms, none⟩ := by
  rw [readAll, drain_start_items, Outcome.collect_items]
  obtain ⟨_, failure⟩ := outcome limit ⟨0, source⟩
  cases failure <;> simp

theorem readAll_eq_error_iff {e : ReadError} :
    readAll source limit = .error e ↔
      ∃ f, (outcome limit ⟨0, source⟩).failure = some f ∧ e = f.report source := by
  rw [readAll, drain_start_items, Outcome.collect_items]
  obtain ⟨_, failure⟩ := outcome limit ⟨0, source⟩
  cases failure <;> simp [eq_comm]

end ReadAll

end Sexp
