import Sexp.Proofs.CanonicalText
import Sexp.Proofs.CursorCut

namespace Sexp

open Grammar Text

variable {limit : NestingLimit}

namespace FormStream

/-- The same stream with tracing turned on or off. -/
def tracing (s : FormStream) (traced : Bool) : FormStream :=
  { s with traced := traced }

/-- What is written about items that are yielded. -/
def traceText (traced : Bool) (items : List Item) : String :=
  if traced then String.join (items.map Item.traceLine) else ""

/-- The text that is written in a number of steps. -/
def writtenIn (s : FormStream) : Nat → String
  | 0 => ""
  | n + 1 => s.next.written ++ s.next.stream.writtenIn n

theorem traceText_nil (traced : Bool) : traceText traced [] = "" := by
  cases traced <;> rfl

theorem traceText_append (traced : Bool) (items items' : List Item) :
    traceText traced (items ++ items') = traceText traced items ++ traceText traced items' := by
  cases traced with
  | true => simp [traceText]
  | false => rfl

theorem traceText_singleton (item : Item) : traceText true [item] = item.traceLine := by
  simp [traceText]

theorem traceText_items (forms : List Form) (stop : Option ReadError) :
    traceText true (forms.map .form ++ (stop.map Item.error).toList) =
      String.join (forms.map fun form => "[reader] read: " ++ form.print ++ "\n") ++
        String.join (stop.toList.map fun report =>
          "[reader] error: " ++ report.message ++ "\n") := by
  rw [traceText_append, traceText, if_pos rfl, List.map_map]
  cases stop <;> rfl

theorem written_yielding (s : FormStream) (item : Item) :
    (s.yielding item).written = traceText s.traced [item] := by
  simp [yielding, traceText]

section Step

variable (s : FormStream) (traced : Bool)

/-- Turning tracing on or off changes nothing but what is written. -/
theorem next_tracing :
    (s.tracing traced).next =
      ⟨s.next.item, s.next.stream.tracing traced, traceText traced s.next.item.toList⟩ := by
  have hattempt : (s.tracing traced).attempt = s.attempt := rfl
  cases h : s.attempt with
  | none =>
      rw [next_of_none h, next_of_none (hattempt.trans h), Option.toList_none, traceText_nil,
        stopped, stopped]
      cases hdone : s.done <;> simp [tracing, hdone]
  | some result =>
      cases result with
      | ok m =>
          rw [next_of_ok h, next_of_ok (hattempt.trans h)]
          exact congrArg (Step.mk _ _) (written_yielding _ _)
      | error f =>
          rw [next_of_error h, next_of_error (hattempt.trans h)]
          exact congrArg (Step.mk _ _) (written_yielding _ _)

theorem after_tracing (n : Nat) : (s.tracing traced).after n = (s.after n).tracing traced := by
  induction n generalizing s with
  | zero => rfl
  | succ n ih =>
      rw [after, after, next_tracing]
      exact ih _

theorem writtenIn_tracing (n : Nat) :
    (s.tracing traced).writtenIn n = traceText traced (s.taken n) := by
  induction n generalizing s with
  | zero => exact (traceText_nil traced).symm
  | succ n ih =>
      rw [writtenIn, taken, next_tracing, traceText_append]
      exact congrArg (_ ++ ·) (ih _)

theorem drain_tracing :
    (s.tracing traced).drain =
      ⟨s.drain.items, s.drain.stream.tracing traced, traceText traced s.drain.items⟩ := by
  have hnext := next_tracing s traced
  fun_induction drain s with
  | case1 s step hitem later ih =>
      obtain ⟨item, hsome⟩ := Option.isSome_iff_exists.1 hitem
      have hitem' : (s.tracing traced).next.item = some item := by
        rw [hnext]
        exact hsome
      rw [drain_of_next_some hitem', hnext, ih (next_tracing _ _), hsome, traceText_append]
      rfl
  | case2 s step hitem =>
      have hnone : s.next.item = none := by simpa using hitem
      have hnone' : (s.tracing traced).next.item = none := by rw [hnext, hnone]
      rw [drain_of_next_none hnone', hnext, hnone]
      rfl

end Step

section Drain

theorem drain_items_eq_next (s : FormStream) :
    s.drain.items = s.next.item.toList ++ s.next.stream.drain.items := by
  cases hitem : s.next.item with
  | none =>
      have hdone : s.next.stream.done = true := done_next (by simp [hitem])
      rw [drain_of_next_none hitem, drain_of_done hdone]
      rfl
  | some item =>
      rw [drain_of_next_some hitem]
      rfl

theorem taken_append_drain (s : FormStream) (n : Nat) :
    s.taken n ++ (s.after n).drain.items = s.drain.items := by
  induction n generalizing s with
  | zero => rfl
  | succ n ih => rw [taken, after, List.append_assoc, ih, ← drain_items_eq_next]

theorem exists_drain_items (s : FormStream) :
    ∃ (forms : List Form) (stop : Option ReadError),
      s.drain.items = forms.map .form ++ (stop.map Item.error).toList := by
  cases hdone : s.done with
  | true => exact ⟨[], none, drain_of_done hdone⟩
  | false =>
      refine ⟨(outcome s.limit s.cursor).forms,
        (outcome s.limit s.cursor).failure.map (Failure.report s.source), ?_⟩
      rw [drain_items hdone, Outcome.items, Option.map_map]
      rfl

end Drain

end FormStream

theorem readAll_printed_lines {forms : List Form} (h : ∀ form ∈ forms, form.Yielded limit) :
    ∃ again, readAll ("\n".intercalate (forms.map Form.print)).toList limit = .ok again ∧
      again.length = forms.length ∧ Form.equalsItems again forms = .ok true := by
  have htexts : ("\n".intercalate (forms.map Form.print)).toList =
      ['\n'].intercalate (forms.map Form.text) := by
    rw [String.toList_intercalate, List.map_map]
    congr 1
    exact List.map_congr_left fun form _ => String.toList_ofList
  have hlayout : Layout forms (['\n'].intercalate (forms.map Form.text)) :=
    .of_arranged (.intercalate .line (List.cons_ne_nil _ _) fun form _ => .print form)
  rw [htexts]
  refine ⟨_, hlayout.readAll_eq (fun form hform => (h form hform).readable.1)
    fun form hform => (h form hform).readable.2, List.length_map .., ?_⟩
  refine Form.equalsItems_map_canonical fun form hform => ?_
  exact (h form hform).readable.1.equals_canonical

namespace FormStream

/-- A source text is read alike with tracing on and off, and what is written tells the items
that are yielded. -/
structure OnlyObserved (source : List Char) (limit : NestingLimit) : Prop where
  item (n : Nat) : ((start source true limit).after n).next.item =
    ((start source false limit).after n).next.item
  cursor (n : Nat) : ((start source true limit).after n).cursor =
    ((start source false limit).after n).cursor
  done (n : Nat) : ((start source true limit).after n).done =
    ((start source false limit).after n).done
  remaining (n : Nat) : ((start source true limit).after n).remaining =
    ((start source false limit).after n).remaining
  /-- With tracing off nothing is written, step by step or when the stream is drained. -/
  silent (n : Nat) : (start source false limit).writtenIn n = "" ∧
    ((start source false limit).after n).drain.written = ""
  /-- With tracing on a step writes the line of the item that it yields, and nothing if it
  yields none. -/
  step (n : Nat) : ((start source true limit).after n).next.written =
    match ((start source true limit).after n).next.item with
    | some (.form value) => "[reader] read: " ++ value.print ++ "\n"
    | some (.error report) => "[reader] error: " ++ report.message ++ "\n"
    | none => ""
  /-- The lines of a stream that is drained, after some steps or none, are those of its forms
  and then of the error that ends them, if one does.  The forms are read again from what the
  lines show of them. -/
  drained (n : Nat) : ∃ (forms : List Form) (stop : Option ReadError),
    ((start source true limit).after n).drain.items =
        forms.map .form ++ (stop.map Item.error).toList ∧
    ((start source false limit).after n).drain.items =
        forms.map .form ++ (stop.map Item.error).toList ∧
    ((start source true limit).after n).drain.written =
      String.join (forms.map fun form => "[reader] read: " ++ form.print ++ "\n") ++
        String.join (stop.toList.map fun report => "[reader] error: " ++ report.message ++ "\n") ∧
    ∃ again, readAll ("\n".intercalate (forms.map Form.print)).toList limit = .ok again ∧
      again.length = forms.length ∧ Form.equalsItems again forms = .ok true

theorem onlyObserved (source : List Char) (limit : NestingLimit) : OnlyObserved source limit := by
  have hafter : ∀ traced n, (start source traced limit).after n =
      ((start source false limit).after n).tracing traced :=
    fun traced n => after_tracing (start source false limit) traced n
  constructor
  case item =>
    intro n
    rw [hafter true, next_tracing]
  case cursor =>
    intro n
    rw [hafter true]
    rfl
  case done =>
    intro n
    rw [hafter true]
    rfl
  case remaining =>
    intro n
    rw [hafter true]
    rfl
  case silent =>
    intro n
    constructor
    · exact writtenIn_tracing (start source false limit) false n
    · rw [hafter false, drain_tracing]
      rfl
  case step =>
    intro n
    rw [hafter true, next_tracing]
    cases ((start source false limit).after n).next.item with
    | none => rfl
    | some item => cases item <;> exact traceText_singleton _
  case drained =>
    intro n
    rcases exists_drain_items ((start source false limit).after n) with ⟨forms, stop, hitems⟩
    have hyielded : ∀ form ∈ forms, form.Yielded limit := by
      intro form hform
      refine ⟨source, false, ?_⟩
      rw [← taken_append_drain _ n, hitems]
      exact List.mem_append_right _ (List.mem_append_left _ (List.mem_map_of_mem hform))
    refine ⟨forms, stop, ?_, hitems, ?_, readAll_printed_lines hyielded⟩
    · rw [hafter true, drain_tracing]
      exact hitems
    · rw [hafter true, drain_tracing]
      exact (congrArg (traceText true) hitems).trans (traceText_items _ _)

end FormStream

end Sexp
