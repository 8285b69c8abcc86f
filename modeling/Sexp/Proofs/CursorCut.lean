import Sexp.Proofs.JoinedText
import Sexp.Proofs.StreamInvariant

namespace Sexp

open Grammar Text

variable {limit : NestingLimit}

/-- Forms are read one after the other from one cursor to another one. -/
inductive ReadsTo (limit : NestingLimit) : Cursor → List Form → Cursor → Prop where
  | nil (c : Cursor) : ReadsTo limit c [] c
  | cons {c d : Cursor} {m : Match Form} {forms : List Form} :
      expression limit.levels c.skip = .matched m → ReadsTo limit m.next forms d →
      ReadsTo limit c (m.value :: forms) d

namespace ReadsTo

variable {c d : Cursor} {forms : List Form}

theorem precedes (h : ReadsTo limit c forms d) : c.Precedes d := by
  induction h with
  | nil => exact .refl _
  | cons hm _ ih => exact ((Cursor.Precedes.skip _).trans (expression_advances _ _ _ hm)).trans ih

theorem outcome_swap {tail tail' : List Char} (hswap : TailSwap tail tail')
    (h : ReadsTo limit c forms d)
    {pos pos' : Nat} {text later : List Char} (hc : c = ⟨pos, text ++ tail⟩)
    (hd : d = ⟨pos', later ++ tail⟩) :
    outcome limit ⟨pos, text ++ tail'⟩ = (outcome limit ⟨pos', later ++ tail'⟩).behind forms := by
  induction h generalizing pos text with
  | nil c =>
      have hsame := hc.symm.trans hd
      simp only [Cursor.mk.injEq, List.append_cancel_right_eq] at hsame
      rw [hsame.1, hsame.2]
      rfl
  | @cons c d m forms hm hlater ih =>
      subst hc
      have hlength : tail.length ≤ m.next.rest.length := by
        refine le_trans ?_ hlater.precedes.length_rest_le
        simp [hd]
      obtain ⟨value, next, stoppedBy⟩ := m
      have hnext : Cursor.Precedes ⟨pos, text ++ tail⟩ next :=
        (Cursor.Precedes.skip _).trans (expression_advances _ _ _ hm)
      obtain ⟨taken, between, rfl, rfl⟩ := hnext.exists_append hlength
      rw [expression_skip] at hm
      have hform := expression_formLocal _ hswap hm
      rw [← expression_skip] at hform
      rw [outcome_of_matched hform, outcome_skip, ih rfl hd]
      rfl

end ReadsTo

/-- The form that is yielded, if it is one. -/
def Item.form? : Item → Option Form
  | .form value => some value
  | .error _ => none

theorem Item.filterMap_form?_map (forms : List Form) :
    (forms.map Item.form).filterMap Item.form? = forms := by
  rw [List.filterMap_map]
  exact List.filterMap_some

namespace FormStream

/-- What a stream yields in a number of steps. -/
def taken (s : FormStream) : Nat → List Item
  | 0 => []
  | n + 1 => s.next.item.toList ++ s.next.stream.taken n

theorem taken_of_done {s : FormStream} (h : s.done = true) (n : Nat) : s.taken n = [] := by
  induction n with
  | zero => rfl
  | succ n ih =>
      rw [taken, next_of_done h]
      exact ih

/-- What has become of a stream that was running, and what it has yielded. -/
inductive Place (s : FormStream) : FormStream → List Item → Prop where
  | running {forms : List Form} {d : Cursor} : ReadsTo s.limit s.cursor forms d →
      Place s { s with cursor := d } (forms.map .form)
  | ended {forms : List Form} {d : Cursor} : ReadsTo s.limit s.cursor forms d → d.skip.rest = [] →
      Place s { s with cursor := d.skip, done := true } (forms.map .form)
  | failed {forms : List Form} {d : Cursor} {f : Failure} : ReadsTo s.limit s.cursor forms d →
      outcome s.limit d = ⟨[], some f⟩ →
      Place s { s with cursor := d, done := true } (forms.map .form ++ [.error (f.report s.source)])

theorem Place.cons {s t : FormStream} {m : Match Form} {items : List Item}
    (hm : expression s.limit.levels s.cursor.skip = .matched m)
    (h : Place { s with cursor := m.next } t items) : Place s t (.form m.value :: items) := by
  cases h with
  | running hreads => exact .running (.cons hm hreads)
  | ended hreads hnil => exact .ended (.cons hm hreads) hnil
  | failed hreads hfailure => exact .failed (.cons hm hreads) hfailure

theorem place_after {s : FormStream} (hrunning : s.done = false) (n : Nat) :
    Place s (s.after n) (s.taken n) := by
  induction n generalizing s with
  | zero => exact .running (.nil _)
  | succ n ih =>
      rw [after, taken]
      have hcase := stepCase_next s
      generalize s.next = step at hcase ⊢
      cases hcase with
      | stopped hdone => exact absurd (hdone.symm.trans hrunning) (by simp)
      | finish _ hnil =>
          rw [after_of_done rfl, taken_of_done rfl]
          exact .ended (.nil _) hnil
      | form _ hm => exact .cons hm (ih hrunning)
      | error _ hne hresult =>
          rw [after_of_done rfl, taken_of_done rfl]
          exact .failed (.nil _) (outcome_of_error hne hresult)

section Start

variable {source : List Char} {traced : Bool} {t : FormStream} {items : List Item}

end Start

example : ((start "1e+".toList false .standard).after 1).remaining = "e+".toList := by
  with_unfolding_all rfl

end FormStream

end Sexp
