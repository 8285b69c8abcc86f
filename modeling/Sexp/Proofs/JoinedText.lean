import Sexp.Proofs.Diagnosis
import Sexp.Proofs.Layout
import Sexp.Proofs.Locality
import Sexp.Proofs.Outcome

namespace Sexp

open Grammar Text

variable {limit : NestingLimit}

namespace Outcome

/-- The outcome with more forms in front. -/
def behind (forms : List Form) (o : Outcome) : Outcome :=
  ⟨forms ++ o.forms, o.failure⟩

/-- The same outcome further on in a text. -/
def shift (o : Outcome) (k : Nat) : Outcome :=
  ⟨o.forms, o.failure.map (Failure.shift · k)⟩

end Outcome

theorem Grammar.expression_skip (depth : Nat) (c : Cursor) :
    expression depth c.skip = expression depth c := by
  simp only [expression, expressionOf, Cursor.skip_skip]

theorem Grammar.Reply.result_shift (reply : Reply α) (pos k : Nat) :
    (reply.shift k).result (pos + k) =
      ((reply.result pos).map (Match.shift · k)).mapError (Failure.shift · k) := by
  cases reply <;> rfl

theorem outcome_shift (c : Cursor) (k : Nat) :
    outcome limit (c.shift k) = (outcome limit c).shift k := by
  have hresult : ∀ c : Cursor,
      (expression limit.levels (c.shift k).skip).result (c.shift k).skip.pos =
        (((expression limit.levels c.skip).result c.skip.pos).map (Match.shift · k)).mapError
          (Failure.shift · k) := by
    intro c
    rw [Cursor.shift_skip, expression_shiftInvariant]
    exact Reply.result_shift _ _ _
  fun_induction outcome limit c with
  | case1 c hnil => rw [outcome_of_nil (by rwa [Cursor.shift_skip])]; rfl
  | case2 c hne m hm ih =>
      have hok := hresult c
      rw [hm] at hok
      rw [outcome_of_ok (by rwa [Cursor.shift_skip]) hok]
      exact congrArg (Outcome.prepend m.value) ih
  | case3 c hne f hf =>
      have herror := hresult c
      rw [hf] at herror
      rw [outcome_of_error (by rwa [Cursor.shift_skip]) herror]
      rfl

theorem outcome_append {pos : Nat} {text tail : List Char} {forms : List Form}
    (hswap : TailSwap [] tail) (h : outcome limit ⟨pos, text⟩ = ⟨forms, none⟩) :
    outcome limit ⟨pos, text ++ tail⟩ = (outcome limit ⟨pos + text.length, tail⟩).behind forms := by
  generalize hc : (⟨pos, text⟩ : Cursor) = c at h
  fun_induction outcome limit c generalizing pos text forms with
  | case1 c hnil =>
      subst hc
      cases h
      have hlength := (Cursor.Precedes.skip ⟨pos, text⟩).pos_add_length
      have hskip : Cursor.skip ⟨pos, text ++ []⟩ = ⟨pos + text.length, [] ++ []⟩ := by
        rw [List.append_nil, List.append_nil, ← hnil]
        simp only [hnil, List.length_nil, Nat.add_zero] at hlength
        rw [hlength]
      rw [← outcome_skip, hswap.skip_append hskip, outcome_skip]
      rfl
  | case2 c hne m hm ih =>
      subst hc
      obtain ⟨value, ⟨pos', later⟩, stoppedBy⟩ := m
      have hmatched : expression limit.levels ⟨pos, text ++ []⟩ =
          .matched ⟨value, ⟨pos', later ++ []⟩, stoppedBy⟩ := by
        rw [List.append_nil, List.append_nil, ← expression_skip]
        exact Reply.result_eq_ok_iff.1 hm
      have hlength := (expression_advances _ _ _ hmatched).pos_add_length
      simp only [List.append_nil] at hlength
      have hjoined := expression_formLocal _ hswap hmatched
      rw [← expression_skip] at hjoined
      obtain ⟨rest, hrest, hforms⟩ := Outcome.exists_of_prepend h
      rw [outcome_of_matched hjoined, outcome_skip, ih rfl hrest, ← hlength, ← hforms]
      rfl
  | case3 => cases h

theorem outcome_join {a : List Char} {forms : List Form} (h : readAll a limit = .ok forms)
    (b : List Char) :
    outcome limit ⟨0, a ++ '\n' :: b⟩ =
      ((outcome limit ⟨0, b⟩).shift (a.length + 1)).behind forms := by
  have hline : Cursor.skip ⟨a.length, '\n' :: b⟩ = ((Cursor.mk 0 b).shift (a.length + 1)).skip := by
    rw [Cursor.shift, Nat.zero_add]
    exact Separator.line.skip_append a.length b
  rw [outcome_append (.line b) (readAll_eq_ok_iff.1 h), Nat.zero_add, ← outcome_shift,
    ← outcome_skip, hline, outcome_skip]

/-- Two texts, one below the other, yield the forms of the first one, then those of
the second one, and the error that ends these, if one does; that error is worded
the same except for its line. -/
theorem drain_join {a : List Char} {forms : List Form} (h : readAll a limit = .ok forms)
    (b : List Char) (traced : Bool) :
    ∃ (later : List Form) (stop : Option Diagnosis),
      (FormStream.start b traced limit).drain.items =
        later.map .form ++ (stop.map fun d => Item.error d.report).toList ∧
      (FormStream.start (a ++ '\n' :: b) traced limit).drain.items =
        forms.map .form ++ later.map .form ++
          (stop.map fun d => Item.error (d.below (a.count '\n' + 1)).report).toList := by
  refine ⟨(outcome limit ⟨0, b⟩).forms,
    (outcome limit ⟨0, b⟩).failure.map (Failure.diagnosis b), ?_, ?_⟩
  · rw [drain_start_items, Outcome.items, Option.map_map]
    cases (outcome limit ⟨0, b⟩).failure <;> simp [Failure.report_eq]
  · rw [drain_start_items, outcome_join h, Outcome.items, Option.map_map]
    cases hfailure : (outcome limit ⟨0, b⟩).failure <;>
      simp [Outcome.behind, Outcome.shift, hfailure, Failure.report_eq, Failure.diagnosis_below]

/-- A number and the beginning of an exponent above a parenthesis that nothing
opens. -/
theorem drain_join_exponent :
    readAll "1e".toList .standard = .ok [.number (.finite false 1 0), .symbol "e"] ∧
      ∃ (later : List Form) (stop : Option Diagnosis),
        (FormStream.start ")".toList false .standard).drain.items =
          later.map .form ++ (stop.map fun d => Item.error d.report).toList ∧
        (FormStream.start "1e\n)".toList false .standard).drain.items =
          [Form.number (.finite false 1 0), .symbol "e"].map .form ++ later.map .form ++
            (stop.map fun d => Item.error (d.below 1).report).toList := by
  have hread : readAll "1e".toList .standard = .ok [.number (.finite false 1 0), .symbol "e"] := by
    with_unfolding_all rfl
  exact ⟨hread, drain_join hread ")".toList false⟩

end Sexp
