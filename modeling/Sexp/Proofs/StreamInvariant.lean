import Sexp.Proofs.CursorOrder
import Sexp.Proofs.Outcome

namespace Sexp

open Grammar Text

namespace FormStream

/-- The stream after a number of steps. -/
def after (s : FormStream) : Nat → FormStream
  | 0 => s
  | n + 1 => s.next.stream.after n

/-- What one step does, one case for each way out of it. -/
inductive StepCase (s : FormStream) : Step → Prop where
  | stopped : s.done = true → StepCase s ⟨none, s, ""⟩
  | finish : s.done = false → s.cursor.skip.rest = [] →
      StepCase s ⟨none, { s with cursor := s.cursor.skip, done := true }, ""⟩
  | form {m : Match Form} : s.done = false → expression s.limit.levels s.cursor.skip = .matched m →
      StepCase s ({ s with cursor := m.next }.yielding (.form m.value))
  | error {f : Failure} : s.done = false → s.cursor.skip.rest ≠ [] →
      (expression s.limit.levels s.cursor.skip).result s.cursor.skip.pos = .error f →
      StepCase s ({ s with done := true }.yielding (.error (f.report s.source)))

theorem stepCase_next (s : FormStream) : StepCase s s.next := by
  cases hdone : s.done with
  | true =>
      have hnext := next_of_none (s := s) (by simp [attempt, hdone])
      rw [stopped, if_pos hdone] at hnext
      rw [hnext]
      exact .stopped hdone
  | false =>
      have hattempt := attempt_eq hdone
      by_cases hnil : s.cursor.skip.rest = []
      · rw [if_pos hnil] at hattempt
        rw [next_of_none hattempt, stopped, if_neg (by simp [hdone])]
        exact .finish hdone hnil
      · rw [if_neg hnil] at hattempt
        cases hresult : (expression s.limit.levels s.cursor.skip).result s.cursor.skip.pos with
        | ok m =>
            rw [next_of_ok (hattempt.trans (congrArg some hresult))]
            exact .form hdone (Reply.result_eq_ok_iff.1 hresult)
        | error f =>
            rw [next_of_error (hattempt.trans (congrArg some hresult))]
            exact .error hdone hnil hresult

variable {s : FormStream}

theorem precedes_next (s : FormStream) : s.cursor.Precedes s.next.stream.cursor := by
  have hcase := stepCase_next s
  generalize s.next = step at hcase
  cases hcase with
  | stopped => exact .refl _
  | finish => exact .skip _
  | form _ hm => exact (Cursor.Precedes.skip _).trans (expression_advances _ _ _ hm)
  | error => exact .refl _

theorem next_of_done (h : s.done = true) : s.next = ⟨none, s, ""⟩ := by
  have hcase := stepCase_next s
  generalize s.next = step at hcase ⊢
  cases hcase <;> simp_all

theorem done_next (h : ∀ form, s.next.item ≠ some (.form form)) : s.next.stream.done = true := by
  have hcase := stepCase_next s
  generalize s.next = step at hcase h
  cases hcase with
  | stopped hdone => exact hdone
  | finish => rfl
  | form => exact absurd rfl (h _)
  | error => rfl

theorem head_rest_of_form {m : Match Form} {c : Cursor} {depth : Nat}
    (h : expression depth c = .matched m) :
    ∀ ch ∈ m.next.rest.head?, isBlank ch = false ∧ ch ≠ ';' := by
  intro ch hch
  obtain ⟨cs, hrest⟩ := List.head?_eq_some_iff.1 hch
  rw [← skip_next_of_expression h] at hrest
  exact head_skip hrest

theorem next_of_item_form {form : Form} (h : s.next.item = some (.form form)) :
    s.cursor.pos < s.next.stream.cursor.pos ∧
      ∀ ch ∈ s.next.stream.remaining.head?, isBlank ch = false ∧ ch ≠ ';' := by
  have hcase := stepCase_next s
  generalize s.next = step at hcase h
  cases hcase with
  | stopped => cases h
  | finish => cases h
  | error => cases h
  | @form m _ hm =>
      have hlength := ((Cursor.Precedes.skip _).trans (expression_advances _ _ _ hm)).pos_add_length
      have hless := expression_consumes _ _ _ hm
      have hskip := s.cursor.length_rest_skip_le
      refine ⟨?_, head_rest_of_form hm⟩
      change s.cursor.pos < m.next.pos
      omega

theorem next_of_item_error {report : ReadError} (h : s.next.item = some (.error report)) :
    s.next.stream = { s with done := true } := by
  have hcase := stepCase_next s
  generalize s.next = step at hcase h
  cases hcase with
  | stopped => cases h
  | finish => cases h
  | form => cases h
  | error => rfl

theorem next_of_item_none (h : s.next.item = none) (hrunning : s.done = false) :
    s.next.stream.done = true ∧ s.next.stream.remaining = [] := by
  have hcase := stepCase_next s
  generalize s.next = step at hcase h
  cases hcase with
  | stopped hdone => simp [hdone] at hrunning
  | finish _ hnil => exact ⟨rfl, hnil⟩
  | form => cases h
  | error => cases h

theorem after_succ (s : FormStream) (n : Nat) : s.after (n + 1) = (s.after n).next.stream := by
  induction n generalizing s with
  | zero => rfl
  | succ n ih => exact ih s.next.stream

theorem after_add (s : FormStream) (m n : Nat) : s.after (m + n) = (s.after m).after n := by
  induction m generalizing s with
  | zero => rw [Nat.zero_add, after]
  | succ m ih =>
      rw [Nat.add_right_comm]
      exact ih s.next.stream

theorem precedes_after (s : FormStream) (n : Nat) : s.cursor.Precedes (s.after n).cursor := by
  induction n with
  | zero => exact .refl _
  | succ n ih =>
      rw [after_succ]
      exact ih.trans (precedes_next _)

theorem after_of_done (h : s.done = true) (n : Nat) : s.after n = s := by
  induction n with
  | zero => rfl
  | succ n ih => rw [after_succ, ih, next_of_done h]

theorem next_item_after (s : FormStream) (n : Nat) :
    (s.after n).next.item = s.drain.items[n]? := by
  induction n generalizing s with
  | zero =>
      rw [after]
      cases hitem : s.next.item with
      | none => rw [drain_of_next_none hitem]; rfl
      | some item => rw [drain_of_next_some hitem]; rfl
  | succ n ih =>
      rw [after, ih]
      cases hitem : s.next.item with
      | none =>
          have hdone : s.next.stream.done = true := done_next (by simp [hitem])
          rw [drain_of_next_none hitem, drain_of_done hdone]
          rfl
      | some item => rw [drain_of_next_some hitem]; rfl

end FormStream

theorem Outcome.length_items (o : Outcome) (source : List Char) :
    (o.items source).length = o.forms.length + o.failure.toList.length := by
  obtain ⟨forms, failure⟩ := o
  cases failure <;> simp [items]

theorem Outcome.length_le (limit : NestingLimit) (c : Cursor) :
    (outcome limit c).forms.length + (outcome limit c).failure.toList.length ≤ c.rest.length := by
  fun_induction outcome limit c with
  | case1 => exact Nat.zero_le _
  | case2 c hne m hm ih =>
      have hless := expression_consumes _ _ _ (Reply.result_eq_ok_iff.1 hm)
      have hskip := c.length_rest_skip_le
      simp only [prepend, List.length_cons]
      omega
  | case3 c hne f hf =>
      have hpos := List.length_pos_iff.2 hne
      have hskip := c.length_rest_skip_le
      simp only [List.length_nil, Option.toList_some, List.length_singleton]
      omega

/-- A stream over a source text that is stepped any number of times stays in the text,
moves forward only, and yields forms and then at most one error.  Reading the whole
text yields the same forms, or the error that ends them. -/
structure FormStream.Orderly (s : FormStream) (source : List Char) (limit : NestingLimit) :
    Prop where
  remaining (n : Nat) : (s.after n).remaining = source.drop (s.after n).cursor.pos
  pos_le_length (n : Nat) : (s.after n).cursor.pos ≤ source.length
  pos_le_pos (n k : Nat) : (s.after n).cursor.pos ≤ (s.after (n + k)).cursor.pos
  /-- A form takes text, and the ignorable text behind it as well. -/
  form (n : Nat) (value : Form) : (s.after n).next.item = some (.form value) →
    (s.after n).cursor.pos < (s.after (n + 1)).cursor.pos ∧
      ∀ ch ∈ (s.after (n + 1)).remaining.head?, isBlank ch = false ∧ ch ≠ ';'
  /-- An error leaves the cursor where it is. -/
  error (n : Nat) (report : ReadError) : (s.after n).next.item = some (.error report) →
    s.after (n + 1) = { s.after n with done := true }
  /-- The end of the text is reached without an error. -/
  finish (n : Nat) : (s.after n).next.item = none → (s.after n).done = false →
    (s.after (n + 1)).done = true ∧ (s.after (n + 1)).cursor.pos = source.length ∧
      (s.after (n + 1)).remaining = []
  /-- Behind an error or the end of the text nothing happens any more. -/
  still (n : Nat) : (∀ value, (s.after n).next.item ≠ some (.form value)) →
    ∀ k, (s.after (n + 1 + k)).next = ⟨none, s.after (n + 1), ""⟩
  items : ∃ (forms : List Form) (stop : Option ReadError),
    s.drain.items = forms.map .form ++ (stop.map Item.error).toList
  item (n : Nat) : (s.after n).next.item = s.drain.items[n]?
  length_items : s.drain.items.length ≤ source.length
  readAll_ok (forms : List Form) :
    readAll source limit = .ok forms ↔ s.drain.items = forms.map .form
  readAll_error (report : ReadError) : readAll source limit = .error report ↔
    ∃ forms : List Form, s.drain.items = forms.map .form ++ [.error report]

theorem FormStream.orderly_start (source : List Char) (traced : Bool) (limit : NestingLimit) :
    (start source traced limit).Orderly source limit := by
  generalize hs : start source traced limit = s
  have hstart : s.cursor = ⟨0, source⟩ := hs ▸ rfl
  have hplace : ∀ n, (s.after n).cursor = .ofText source (s.after n).cursor.pos ∧
      (s.after n).cursor.pos ≤ source.length :=
    fun n => (hstart ▸ precedes_after s n).eq_ofText
  have hitems : s.drain.items = (outcome limit ⟨0, source⟩).items source := by
    rw [← hs]
    exact drain_start_items source traced limit
  have hcollect : readAll source limit = Item.collect s.drain.items := by
    rw [hitems, ← drain_start_items source false limit, readAll]
  constructor
  case remaining => exact fun n => congrArg Cursor.rest (hplace n).1
  case pos_le_length => exact fun n => (hplace n).2
  case pos_le_pos =>
    intro n k
    rw [after_add]
    exact (precedes_after _ k).pos_le
  case form =>
    intro n value h
    rw [after_succ]
    exact next_of_item_form h
  case error =>
    intro n report h
    rw [after_succ]
    exact next_of_item_error h
  case finish =>
    intro n h hrunning
    obtain ⟨hdone, hnil⟩ := next_of_item_none h hrunning
    have hlength := (hstart ▸ precedes_after s (n + 1)).pos_add_length
    rw [after_succ] at hlength ⊢
    rw [show (s.after n).next.stream.cursor.rest = [] from hnil] at hlength
    exact ⟨hdone, hlength.symm.trans (Nat.zero_add _), hnil⟩
  case still =>
    intro n h k
    have hdone : (s.after (n + 1)).done = true := by
      rw [after_succ]
      exact done_next h
    rw [after_add, after_of_done hdone, next_of_done hdone]
  case items =>
    refine ⟨(outcome limit ⟨0, source⟩).forms,
      (outcome limit ⟨0, source⟩).failure.map (·.report source), ?_⟩
    rw [hitems, Outcome.items, Option.map_map]
    rfl
  case item => exact next_item_after s
  case length_items =>
    rw [hitems, Outcome.length_items]
    exact Outcome.length_le limit ⟨0, source⟩
  case readAll_ok =>
    intro forms
    rw [hcollect]
    refine ⟨Item.eq_map_form_of_collect, fun h => ?_⟩
    rw [h, Item.collect_map_form]
  case readAll_error =>
    intro report
    constructor
    · intro h
      obtain ⟨f, hf, rfl⟩ := readAll_eq_error_iff.1 h
      refine ⟨(outcome limit ⟨0, source⟩).forms, ?_⟩
      rw [hitems, Outcome.items, hf]
      rfl
    · rintro ⟨forms, h⟩
      rw [hcollect, h, Item.collect_map_form_append]

end Sexp
