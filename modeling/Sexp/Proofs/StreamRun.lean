import Sexp.FormStream.Basic
import Sexp.Proofs.Dispatch

namespace Sexp

open Grammar Text

theorem FormStream.exists_expression_of_next {s : FormStream} {form : Form}
    (h : s.next.item = some (.form form)) :
    ∃ m, expression s.limit.levels s.cursor.skip = .matched m ∧ m.value = form := by
  unfold next at h
  split at h
  · simp at h
  · rename_i m hattempt
    unfold attempt at hattempt
    split at hattempt
    · simp at hattempt
    · split at hattempt
      · simp at hattempt
      · cases hreply : expression s.limit.levels s.cursor.skip with
        | matched n =>
            simp only [hreply, Reply.result, Option.some.injEq, Except.ok.injEq] at hattempt
            subst hattempt
            exact ⟨_, rfl, by simpa [yielding] using h⟩
        | failed f => simp [hreply, Reply.result] at hattempt
        | tooDeep => simp [hreply, Reply.result] at hattempt
  · simp [yielding] at h

@[simp] theorem FormStream.limit_next (s : FormStream) : s.next.stream.limit = s.limit := by
  unfold next
  split
  · unfold stopped
    split <;> rfl
  · rfl
  · rfl

theorem FormStream.exists_next_of_mem_drain {s : FormStream} {item : Item}
    (h : item ∈ s.drain.items) :
    ∃ t : FormStream, t.limit = s.limit ∧ t.next.item = some item := by
  fun_induction drain s with
  | case1 s step hitem later ih =>
      obtain ⟨first, hfirst⟩ := Option.isSome_iff_exists.1 hitem
      rw [hfirst, Option.toList_some, List.cons_append, List.mem_cons] at h
      rcases h with rfl | h
      · exact ⟨s, rfl, hfirst⟩
      · obtain ⟨t, hlimit, ht⟩ := ih (by simpa using h)
        exact ⟨t, hlimit.trans s.limit_next, ht⟩
  | case2 s step hitem => simp at h

theorem Item.collect_map_form (forms : List Form) :
    Item.collect (forms.map Item.form) = .ok forms := by
  induction forms with
  | nil => rfl
  | cons form forms ih =>
      rw [List.map_cons, collect, ih]
      rfl

theorem Item.eq_map_form_of_collect {items : List Item} {forms : List Form}
    (h : collect items = .ok forms) : items = forms.map Item.form := by
  induction items generalizing forms with
  | nil =>
      cases h
      rfl
  | cons item items ih =>
      cases item with
      | error report => simp [collect] at h
      | form value =>
          rw [collect] at h
          cases hlater : collect items with
          | error report => simp [hlater, Except.map] at h
          | ok later =>
              simp only [hlater, Except.map, Except.ok.injEq] at h
              rw [← h, ih hlater, List.map_cons]

theorem exists_expression_of_readAll {source : List Char} {limit : NestingLimit}
    {forms : List Form}
    (h : readAll source limit = .ok forms) {form : Form} (hform : form ∈ forms) :
    ∃ c m, expression limit.levels c = .matched m ∧ m.value = form := by
  have hitem : Item.form form ∈ (FormStream.start source false limit).drain.items := by
    rw [Item.eq_map_form_of_collect h]
    exact List.mem_map_of_mem hform
  obtain ⟨t, hlimit, ht⟩ := FormStream.exists_next_of_mem_drain hitem
  have hform := FormStream.exists_expression_of_next ht
  rw [hlimit] at hform
  exact ⟨_, hform⟩

section Repeated

variable {item : Recognizer α} {c : Cursor}

theorem Grammar.repeated_of_matched (hitem : Consumes item) {m : Match α}
    (h : item c = .matched m) : repeated item c = (repeated item m.next).map (m.value :: ·) := by
  rw [repeated, h]
  exact if_pos (hitem c m h)

theorem Grammar.repeated_of_failed {f : Failure} (h : item c = .failed f)
    (hcommitted : f.committed = false) : repeated item c = .matched ⟨[], c, some f⟩ := by
  rw [repeated, h]
  simp [hcommitted]

end Repeated

theorem Grammar.skip_next_of_expression {depth : Nat} {c : Cursor} {m : Match Form}
    (h : expression depth c = .matched m) : m.next.skip = m.next := by
  obtain ⟨n, -, hn⟩ := Reply.bind_eq_matched_iff.1 h
  rw [found_eq_matched_iff.1 hn, Cursor.skip_skip]

theorem FormStream.drain_items_of_repeated {s : FormStream} (hdone : s.done = false)
    {m : Match (List Form)} (h : repeated (expression s.limit.levels) s.cursor.skip = .matched m)
    (hend : m.next.rest = []) : s.drain.items = m.value.map Item.form := by
  generalize hc : s.cursor.skip = c at h
  generalize hlimit : s.limit = limit at h
  fun_induction repeated (expression limit.levels) c generalizing s m with
  | case1 => simp at h
  | case2 => simp at h
  | case3 c f hf hcommitted =>
      cases h
      have hnone : s.next.item = none := by
        simp only at hend
        simp [next, attempt, hc, hend]
      rw [drain_of_next_none hnone]
      rfl
  | case4 c n hn hless ih =>
      obtain ⟨k, hk, rfl⟩ := Reply.map_eq_matched_iff.1 h
      have hne : c.rest.isEmpty = false := by
        rw [← Bool.not_eq_true, List.isEmpty_iff]
        intro hnil
        simp [hnil] at hless
      have hattempt : s.attempt = some (.ok n) := by
        simp [attempt, hdone, hc, hlimit, hne, hn, Reply.result]
      have hnext : s.next =
          { s with cursor := n.next }.yielding (.form n.value) := by
        simp only [next, hattempt]
      have hitem : s.next.item = some (.form n.value) := by
        rw [hnext]
        rfl
      have hlater : s.next.stream.drain.items = k.value.map Item.form := by
        refine ih (m := k) ?_ hend ?_ ?_ hk
        · rw [hnext]
          exact hdone
        · rw [hnext]
          exact skip_next_of_expression hn
        · rw [hnext]
          exact hlimit
      rw [drain_of_next_some hitem, hlater, List.map_cons]
  | case5 c n hn hless => exact absurd (expression_consumes _ _ _ hn) hless

theorem readAll_of_repeated {source : List Char} {limit : NestingLimit} {m : Match (List Form)}
    (h : repeated (expression limit.levels) (Cursor.skip ⟨0, source⟩) = .matched m)
    (hend : m.next.rest = []) : readAll source limit = .ok m.value := by
  have hitems : (FormStream.start source false limit).drain.items = m.value.map Item.form :=
    FormStream.drain_items_of_repeated rfl h hend
  rw [readAll, hitems, Item.collect_map_form]

end Sexp
