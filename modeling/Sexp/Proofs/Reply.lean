import Sexp.Grammar.Progress

namespace Sexp.Grammar.Reply

variable {α β : Type}

@[simp] theorem bind_matched (m : Match α) (next : Match α → Reply β) :
    (matched m).bind next = next m := rfl

@[simp] theorem bind_failed (f : Failure) (next : Match α → Reply β) :
    (failed f).bind next = failed f := rfl

@[simp] theorem bind_tooDeep (next : Match α → Reply β) :
    (tooDeep : Reply α).bind next = tooDeep := rfl

@[simp] theorem map_matched (g : α → β) (m : Match α) :
    (matched m).map g = matched ⟨g m.value, m.next, m.stoppedBy⟩ := rfl

@[simp] theorem map_failed (g : α → β) (f : Failure) : (failed f).map g = failed f := rfl

@[simp] theorem map_tooDeep (g : α → β) : (tooDeep : Reply α).map g = tooDeep := rfl

@[simp] theorem mapFailure_matched (change : Failure → Failure) (m : Match α) :
    (matched m).mapFailure change = matched m := rfl

@[simp] theorem mapFailure_failed (change : Failure → Failure) (f : Failure) :
    (failed f : Reply α).mapFailure change = failed (change f) := rfl

@[simp] theorem mapFailure_tooDeep (change : Failure → Failure) :
    (tooDeep : Reply α).mapFailure change = tooDeep := rfl

theorem map_map {γ : Type} (g : β → γ) (f : α → β) (reply : Reply α) :
    (reply.map f).map g = reply.map fun value => g (f value) := by
  cases reply <;> rfl

theorem bind_eq_failed_iff {reply : Reply α} {next : Match α → Reply β} {f : Failure} :
    reply.bind next = failed f ↔
      reply = failed f ∨ ∃ m, reply = matched m ∧ next m = failed f := by
  cases reply <;> simp

theorem map_eq_failed_iff {g : α → β} {reply : Reply α} {f : Failure} :
    reply.map g = failed f ↔ reply = failed f := by
  cases reply <;> simp

theorem mapFailure_eq_failed_iff {change : Failure → Failure} {reply : Reply α}
    {f : Failure} :
    reply.mapFailure change = failed f ↔ ∃ g, reply = failed g ∧ f = change g := by
  cases reply <;> simp [eq_comm]

theorem map_eq_tooDeep_iff {g : α → β} {reply : Reply α} :
    reply.map g = tooDeep ↔ reply = tooDeep := by
  cases reply <;> simp

@[simp] theorem found_ne_tooDeep (value : α) (next : Text.Cursor) :
    found value next ≠ tooDeep := by
  simp [found]

@[simp] theorem found_ne_failed (value : α) (next : Text.Cursor) (f : Failure) :
    found value next ≠ failed f := by
  simp [found]

end Sexp.Grammar.Reply
