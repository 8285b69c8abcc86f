import Sexp.Proofs.CallLog
import Sexp.Proofs.RoundTrip

namespace Sexp

open Grammar Text

variable {limit : NestingLimit}

namespace Callable

theorem takes_methodCallable_iff {method : String} {given : Nat} :
    (Form.methodCallable method).Takes given ↔ given ≠ 0 := by
  constructor
  · rintro ⟨hminimum, -⟩
    change (1 : Int) ≤ given at hminimum
    omega
  · intro hgiven
    have hminimum : (1 : Int) ≤ given := by omega
    exact ⟨hminimum, .inl rfl⟩

theorem call_methodCallable (registry : Registry) (method : String) (args : List Form)
    (table : External) :
    (Form.methodCallable method).call registry args table =
      invokeMethod registry method args table := by
  by_cases hnone : args = []
  · subst hnone
    exact call_of_not_takes (mt takes_methodCallable_iff.1 (by simp))
  · have hlength : args.length ≠ 0 := mt List.length_eq_zero_iff.1 hnone
    exact call_of_takes (takes_methodCallable_iff.2 hlength)

end Callable

theorem readAll_methodName {method : String} (h : Form.MethodName method.toList) :
    readAll ('.' :: method.toList) limit = .ok [Form.methodCall method] := by
  have hwritten : Written (Form.methodCall method) ('.' :: method.toList) := .atom rfl
  have hreadable : (Form.methodCall method).Readable := .atom rfl ⟨method, rfl, h⟩
  refine (Layout.of_arranged (.single hwritten)).readAll_eq ?_ ?_
  · exact fun form hform => List.mem_singleton.1 hform ▸ hreadable
  · exact fun form hform => List.mem_singleton.1 hform ▸ Nat.zero_le _

/-- The name may be empty. -/
example : readAll ".".toList .standard = .ok [Form.methodCall ""] := by
  with_unfolding_all rfl

namespace Session

/-- The commands of a session with the records and callables that each of them meets, which
may depend on all calls before. -/
def stepsUnder (behaviour : Journal → Registry) : Journal → List Command → List Step
  | _, [] => []
  | before, command :: commands =>
      ⟨behaviour before, command⟩ ::
        stepsUnder behaviour (before ++ command.entries (behaviour before)) commands

/-- Commands that may stand for one another: the same command, or a call of a method
through its callable and the direct call. -/
inductive Interchangeable : Command → Command → Prop where
  | same (command : Command) : Interchangeable command command
  | method (name : String) (args : List Form) (table : External) :
      Interchangeable (.call (Form.methodCallable name) args table) (.invoke name args table)

section Interchange

variable {command command' : Command} {commands commands' : List Command}

theorem Interchangeable.entries_eq (h : Interchangeable command command')
    (registry : Registry) : command.entries registry = command'.entries registry := by
  cases h with
  | same => rfl
  | method name args table =>
      exact congrArg CallOutcome.entries (Callable.call_methodCallable registry name args table)

theorem Interchangeable.answer_eq (h : Interchangeable command command')
    (registry : Registry) (complete : Journal) :
    command.answer registry complete = command'.answer registry complete := by
  cases h with
  | same => rfl
  | method name args table =>
      have houtcome := Callable.call_methodCallable registry name args table
      exact congrArg (Answer.ofResult ∘ CallOutcome.result) houtcome

variable (h : List.Forall₂ Interchangeable commands commands')
  (behaviour : Journal → Registry) (before : Journal)

include h

theorem journal_stepsUnder_congr :
    journal before (stepsUnder behaviour before commands) =
      journal before (stepsUnder behaviour before commands') := by
  induction h generalizing before with
  | nil => rfl
  | cons hcommand _ ih =>
      rw [stepsUnder, stepsUnder, journal, journal, hcommand.entries_eq]
      exact ih _

theorem answers_stepsUnder_congr (complete : Journal) :
    ((stepsUnder behaviour before commands).map fun step =>
        step.command.answer step.registry complete) =
      (stepsUnder behaviour before commands').map fun step =>
        step.command.answer step.registry complete := by
  induction h generalizing before with
  | nil => rfl
  | cons hcommand _ ih =>
      rw [stepsUnder, stepsUnder, List.map_cons, List.map_cons, hcommand.entries_eq,
        hcommand.answer_eq, ih]

end Interchange

/-- Calls of methods among records that behave as the calls before tell them. -/
structure MethodsAgree (behaviour : Journal → Registry) : Prop where
  /-- The callable for a method and the direct call have one outcome. -/
  agree (before : Journal) (method : String) (args : List Form) (table : External) :
    (Form.methodCallable method).call (behaviour before) args table =
      invokeMethod (behaviour before) method args table
  /-- Without an argument no record is asked. -/
  missing (before : Journal) (method : String) (table : External) :
    invokeMethod (behaviour before) method [] table =
      .silent (.error (.arity ("method_call<" ++ method ++ ">") 1 true 0))
  /-- If the first argument is no record, the error is that of taking it for one. -/
  misdirected (before : Journal) (method : String) (receiver : Form) (rest : List Form)
    (table : External) : (∀ id, receiver ≠ .record id) →
    receiver.asRecord (behaviour before) =
        .error (.wrongType "Record" (receiver.typeName (behaviour before))) ∧
      invokeMethod (behaviour before) method (receiver :: rest) table =
        .silent (.error (.wrongType "Record" (receiver.typeName (behaviour before))))
  /-- A record is asked once, with the other arguments, and its answer passed on. -/
  asked (before : Journal) (method id : String) (rest : List Form) (table : External) :
    invokeMethod (behaviour before) method (.record id :: rest) table =
      ⟨((behaviour before).record id).respond ⟨method, rest, table⟩,
        [⟨id, method, rest, table⟩]⟩
  /-- Wherever in a session one of the two stands for the other, all answers and all logs
  stay the same. -/
  sessions (commands commands' : List Command) :
    List.Forall₂ Interchangeable commands commands' →
    answersTo (stepsUnder behaviour [] commands) =
        answersTo (stepsUnder behaviour [] commands') ∧
      ∀ record, (journal [] (stepsUnder behaviour [] commands)).of record =
        (journal [] (stepsUnder behaviour [] commands')).of record
  /-- The callable for a method is what its name behind a point is read into. -/
  read (limit : NestingLimit) (method : String) : (∀ ch ∈ method.toList, isSymbolChar ch = true) →
    NoNumber ('.' :: method.toList) →
    readAll ('.' :: method.toList) limit = .ok [.function (Form.methodCallable method)]

theorem methodsAgree (behaviour : Journal → Registry) : MethodsAgree behaviour := by
  constructor
  case agree =>
    intro before method args table
    exact Callable.call_methodCallable (behaviour before) method args table
  case missing => exact fun before method table => invokeMethod_of_undirected .missing
  case misdirected =>
    intro before method receiver rest table hreceiver
    exact ⟨Form.asRecord_of_ne hreceiver _, invokeMethod_of_undirected (.wrongType hreceiver)⟩
  case asked => exact fun before method id rest table => rfl
  case sessions =>
    intro commands commands' h
    have hjournal := journal_stepsUnder_congr h behaviour []
    constructor
    · rw [answersTo, answersTo, hjournal]
      exact answers_stepsUnder_congr h behaviour [] _
    · intro record
      rw [hjournal]
  case read => exact fun _ method hchars hnumber => readAll_methodName ⟨hchars, hnumber⟩

end Session

end Sexp
