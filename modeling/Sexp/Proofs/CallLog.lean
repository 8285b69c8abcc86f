import Mathlib.Data.List.Basic
import Sexp.Call.Session

namespace Sexp

theorem Journal.of_append (before after : Journal) (record : String) :
    (before ++ after).of record = before.of record ++ after.of record := by
  rw [Journal.of, Journal.of, Journal.of, List.filter_append, List.map_append]

theorem Journal.of_singleton (id record : String) (call : Dispatch) :
    Journal.of [⟨id, call⟩] record = if id = record then [call] else [] := by
  by_cases h : id = record <;> simp [Journal.of, h]

theorem Form.asRecord_of_ne {value : Form} (h : ∀ id, value ≠ .record id) (registry : Registry) :
    value.asRecord registry = .error (.wrongType "Record" (value.typeName registry)) := by
  cases value with
  | record id => exact absurd rfl (h id)
  | _ => rfl

namespace Callable

/-- The numbers of arguments that a callable takes: no fewer than its minimum, and no more
unless it is variadic. -/
def Takes (f : Callable) (given : Int) : Prop :=
  f.minimumArgs ≤ given ∧ (f.variadic = true ∨ given = f.minimumArgs)

instance (f : Callable) (given : Int) : Decidable (f.Takes given) :=
  inferInstanceAs (Decidable (_ ∧ _))

variable {registry : Registry} {f : Callable} {args : List Form} {table : External}

theorem accepts_iff {given : Int} : f.accepts given = true ↔ f.Takes given := by
  rw [accepts, Takes]
  cases f.variadic with
  | true => simp
  | false =>
      rw [if_neg (by simp), beq_iff_eq]
      simp only [Bool.false_eq_true, false_or]
      omega

theorem checkArity_of_takes {given : Int} (h : f.Takes given) : f.checkArity given = .ok () := by
  rw [checkArity, if_pos (accepts_iff.2 h)]

theorem checkArity_of_not_takes {given : Int} (h : ¬f.Takes given) :
    f.checkArity given = .error (.arity f.name f.minimumArgs f.variadic given) := by
  rw [checkArity, if_neg (mt accepts_iff.1 h)]

theorem call_of_takes (h : f.Takes args.length) :
    f.call registry args table = f.action.run registry args table := by
  rw [call, checkArity_of_takes h]

theorem call_of_not_takes (h : ¬f.Takes args.length) :
    f.call registry args table =
      .silent (.error (.arity f.name f.minimumArgs f.variadic args.length)) := by
  rw [call, checkArity_of_not_takes h]

end Callable

namespace Session

/-- The call that reaches a record when a method is called, if it is the record that
the first argument refers to. -/
def dispatch? (record method : String) (args : List Form) (table : External) : Option Dispatch :=
  match args with
  | .record id :: rest => if id = record then some ⟨method, rest, table⟩ else none
  | _ => none

/-- The call of a method of a record that a command is. -/
def Command.dispatchTo? (record : String) : Command → Option Dispatch
  | .call f args table =>
      match f.action with
      | .method name => if f.Takes args.length then dispatch? record name args table else none
      | .primitive _ => none
  | .invoke method args table => dispatch? record method args table
  | _ => none

/-- The calls of a record that a command makes: the one that it is, or those that the
callable makes which it runs. -/
def Command.callsOf (registry : Registry) (record : String) : Command → List Dispatch
  | .call f args table =>
      if f.Takes args.length then
        match f.action with
        | .method name => (dispatch? record name args table).toList
        | .primitive kind => (registry.primitive kind args table).entries.of record
      else []
  | .invoke method args table => (dispatch? record method args table).toList
  | _ => []

/-- The callable that a step runs makes no calls of records, unless it is a method. -/
def Step.Quiet (step : Step) : Prop :=
  ∀ (f : Callable) (args : List Form) (table : External) (kind : Primitive),
    step.command = .call f args table → f.Takes args.length → f.action = .primitive kind →
    (step.registry.primitive kind args table).entries = []

theorem Step.quiet_standardRegistry (typeNames : List (String × Option String))
    (command : Command) : Step.Quiet ⟨Record.standardRegistry typeNames, command⟩ :=
  fun _ _ _ _ _ _ _ => rfl

/-- What is wrong with the arguments of a method that no record is found for. -/
inductive Undirected (registry : Registry) (method : String) : List Form → CallError → Prop where
  | missing : Undirected registry method [] (.arity (Form.methodCallName method) 1 true 0)
  | wrongType {value : Form} {rest : List Form} : (∀ id, value ≠ .record id) →
      Undirected registry method (value :: rest) (.wrongType "Record" (value.typeName registry))

/-- A command that fails before a callable is run or a record is asked, and its error. -/
inductive Command.FailsEarly (registry : Registry) : Command → CallError → Prop where
  | count {f : Callable} {args : List Form} {table : External} :
      ¬f.Takes args.length →
      FailsEarly registry (.call f args table)
        (.arity f.name f.minimumArgs f.variadic args.length)
  | call {f : Callable} {args : List Form} {table : External} {method : String}
      {cause : CallError} : f.Takes args.length → f.action = .method method →
      Undirected registry method args cause → FailsEarly registry (.call f args table) cause
  | invoke {method : String} {args : List Form} {table : External} {cause : CallError} :
      Undirected registry method args cause →
      FailsEarly registry (.invoke method args table) cause
  | checkArity {f : Callable} {given : Int} : ¬f.Takes given →
      FailsEarly registry (.checkArity f given) (.arity f.name f.minimumArgs f.variadic given)
  | getRecord {value : Form} : (∀ id, value ≠ .record id) →
      FailsEarly registry (.getRecord value) (.wrongType "Record" (value.typeName registry))

section Invocation

variable {registry : Registry} {method : String} {args : List Form} {table : External}

theorem of_entries_invokeMethod (record : String) :
    (invokeMethod registry method args table).entries.of record =
      (dispatch? record method args table).toList := by
  cases args with
  | nil => rfl
  | cons receiver rest =>
      cases receiver with
      | record id =>
          rw [show (invokeMethod registry method (.record id :: rest) table).entries =
            [⟨id, method, rest, table⟩] from rfl, Journal.of_singleton, dispatch?]
          split <;> rfl
      | _ => rfl

theorem result_invokeMethod_of_dispatch {record : String} {call : Dispatch}
    (h : dispatch? record method args table = some call) :
    (invokeMethod registry method args table).result = (registry.record record).respond call := by
  unfold dispatch? at h
  split at h
  · split at h
    · rename_i hid
      cases h
      rw [← hid]
      rfl
    · cases h
  · cases h

theorem invokeMethod_of_undirected {cause : CallError}
    (h : Undirected registry method args cause) :
    invokeMethod registry method args table = .silent (.error cause) := by
  cases h with
  | missing => rfl
  | wrongType hvalue => rw [invokeMethod, Form.asRecord_of_ne hvalue]

theorem dispatch?_of_undirected {cause : CallError} (h : Undirected registry method args cause)
    (record : String) : dispatch? record method args table = none := by
  cases h with
  | missing => rfl
  | @wrongType value _ hvalue =>
      cases value with
      | record id => exact absurd rfl (hvalue id)
      | _ => rfl

end Invocation

namespace Command

variable {registry : Registry} {command : Command} {record : String}

theorem dispatchTo?_of_not_takes {f : Callable} {args : List Form} (h : ¬f.Takes args.length)
    (record : String) (table : External) : dispatchTo? record (.call f args table) = none := by
  rw [dispatchTo?]
  cases f.action with
  | method name => exact if_neg h
  | primitive kind => rfl

theorem of_entries (registry : Registry) (command : Command) (record : String) :
    (command.entries registry).of record = command.callsOf registry record := by
  cases command with
  | call f args table =>
      rw [entries, callsOf]
      by_cases htakes : f.Takes args.length
      · rw [Callable.call_of_takes htakes, if_pos htakes]
        cases f.action with
        | method name => exact of_entries_invokeMethod record
        | primitive kind => rfl
      · rw [Callable.call_of_not_takes htakes, if_neg htakes]
        rfl
  | invoke method args table => exact of_entries_invokeMethod record
  | _ => rfl

theorem exists_dispatch_of_dispatchTo {call : Dispatch}
    (h : command.dispatchTo? record = some call) :
    ∃ method args table, dispatch? record method args table = some call ∧
      (command = .invoke method args table ∨
        ∃ f, command = .call f args table ∧ f.Takes args.length ∧ f.action = .method method) := by
  cases command with
  | call f args table =>
      rw [dispatchTo?] at h
      split at h
      case h_1 method haction =>
          by_cases htakes : f.Takes args.length
          · rw [if_pos htakes] at h
            exact ⟨method, args, table, h, .inr ⟨f, rfl, htakes, haction⟩⟩
          · rw [if_neg htakes] at h
            cases h
      case h_2 => cases h
  | invoke method args table => exact ⟨method, args, table, h, .inl rfl⟩
  | _ => cases h

theorem callsOf_of_dispatchTo {call : Dispatch} (h : command.dispatchTo? record = some call) :
    command.callsOf registry record = [call] := by
  obtain ⟨method, args, table, hdispatch, rfl | ⟨f, rfl, htakes, haction⟩⟩ :=
    exists_dispatch_of_dispatchTo h
  · exact congrArg Option.toList hdispatch
  · rw [callsOf, if_pos htakes, haction]
    exact congrArg Option.toList hdispatch

theorem answer_of_dispatchTo {call : Dispatch} (h : command.dispatchTo? record = some call)
    (complete : Journal) : command.answer registry complete =
      .ofResult ((registry.record record).respond call) := by
  obtain ⟨method, args, table, hdispatch, rfl | ⟨f, rfl, htakes, haction⟩⟩ :=
    exists_dispatch_of_dispatchTo h
  · rw [answer, result_invokeMethod_of_dispatch hdispatch]
  · rw [answer, Callable.call_of_takes htakes, haction, Action.run,
      result_invokeMethod_of_dispatch hdispatch]

theorem answer_of_failsEarly {cause : CallError} (h : command.FailsEarly registry cause)
    (complete : Journal) : command.answer registry complete = .error cause := by
  cases h with
  | count hcount =>
      rw [answer, Callable.call_of_not_takes hcount]
      rfl
  | call htakes haction hundirected =>
      rw [answer, Callable.call_of_takes htakes, haction, Action.run,
        invokeMethod_of_undirected hundirected]
      rfl
  | invoke hundirected =>
      rw [answer, invokeMethod_of_undirected hundirected]
      rfl
  | checkArity hcount =>
      rw [answer, Callable.checkArity_of_not_takes hcount]
      rfl
  | getRecord hvalue =>
      rw [answer, Form.asRecord_of_ne hvalue]
      rfl

theorem callsOf_of_failsEarly {cause : CallError} (h : command.FailsEarly registry cause)
    (record : String) : command.callsOf registry record = [] := by
  cases h with
  | count hcount => exact if_neg hcount
  | call htakes haction hundirected =>
      rw [callsOf, if_pos htakes, haction]
      exact congrArg Option.toList (dispatch?_of_undirected hundirected record)
  | invoke hundirected => exact congrArg Option.toList (dispatch?_of_undirected hundirected record)
  | checkArity => rfl
  | getRecord => rfl

end Command

theorem Step.Quiet.callsOf_eq {step : Step} (h : step.Quiet) (record : String) :
    step.command.callsOf step.registry record = (step.command.dispatchTo? record).toList := by
  cases hcommand : step.command with
  | call f args table =>
      rw [Command.callsOf]
      by_cases htakes : f.Takes args.length
      · rw [if_pos htakes, Command.dispatchTo?]
        cases haction : f.action with
        | method name => exact congrArg Option.toList (if_pos htakes).symm
        | primitive kind => exact congrArg (Journal.of · record) (h _ _ _ _ hcommand htakes haction)
      · rw [if_neg htakes, Command.dispatchTo?_of_not_takes htakes, Option.toList_none]
  | _ => rfl

/-- The log of a record behind a number of steps. -/
def logAfter (steps : List Step) (n : Nat) (record : String) : List Dispatch :=
  (journal [] (steps.take n)).of record

/-- Over any steps the log of a record grows by the calls that are made of it. -/
theorem of_journal (before : Journal) (steps : List Step) (record : String) :
    (journal before steps).of record =
      before.of record ++ steps.flatMap fun step => step.command.callsOf step.registry record := by
  induction steps generalizing before with
  | nil => rw [journal, List.flatMap_nil, List.append_nil]
  | cons step steps ih =>
      rw [journal, ih, Journal.of_append, Command.of_entries, List.append_assoc, List.flatMap_cons]

theorem logAfter_eq (steps : List Step) (n : Nat) (record : String) :
    logAfter steps n record =
      (steps.take n).flatMap fun step => step.command.callsOf step.registry record :=
  of_journal [] (steps.take n) record

theorem logAfter_succ {steps : List Step} {n : Nat} {step : Step} (h : steps[n]? = some step)
    (record : String) : logAfter steps (n + 1) record =
      logAfter steps n record ++ step.command.callsOf step.registry record := by
  rw [logAfter_eq, logAfter_eq, List.take_add_one, h, Option.toList_some, List.flatMap_append,
    List.flatMap_singleton]

theorem flatMap_callsOf_of_quiet {steps : List Step} (h : ∀ step ∈ steps, step.Quiet)
    (record : String) :
    (steps.flatMap fun step => step.command.callsOf step.registry record) =
      steps.filterMap fun step => step.command.dispatchTo? record := by
  rw [List.filterMap_eq_flatMap_toList]
  exact List.flatMap_congr fun step hstep => (h step hstep).callsOf_eq record

theorem getElem?_answersTo {steps : List Step} {n : Nat} {step : Step}
    (h : steps[n]? = some step) :
    (answersTo steps)[n]? = some (step.command.answer step.registry (journal [] steps)) := by
  rw [answersTo, List.getElem?_map, h, Option.map_some]

/-- What holds of the logs and the answers of a session. -/
structure Logged (steps : List Step) : Prop where
  /-- At the end the log of a record holds the calls of it that the commands were, in their
  order, if no callable that was run made calls of its own. -/
  log (record : String) : (∀ step ∈ steps, step.Quiet) →
    (journal [] steps).of record = steps.filterMap fun step => step.command.dispatchTo? record
  /-- The calls that callables make of their own stand in the log as well, and nothing
  else. -/
  nested (record : String) : (journal [] steps).of record =
    steps.flatMap fun step => step.command.callsOf step.registry record
  /-- A command that asks for a log is shown the log at the end. -/
  shown (n : Nat) (step : Step) (record : String) : steps[n]? = some step →
    step.command = .log record →
    (answersTo steps)[n]? = some (.log ((journal [] steps).of record))
  /-- A command that is a call of a record is logged by it, and answered with what the
  record returns or raises. -/
  dispatched (n : Nat) (step : Step) (record : String) (call : Dispatch) :
    steps[n]? = some step → step.command.dispatchTo? record = some call →
    logAfter steps (n + 1) record = logAfter steps n record ++ [call] ∧
      (answersTo steps)[n]? = some (.ofResult ((step.registry.record record).respond call))
  /-- Any other command leaves the log of the record as it is, unless it runs a callable
  that makes calls of its own. -/
  unchanged (n : Nat) (step : Step) (record : String) : steps[n]? = some step →
    step.command.dispatchTo? record = none → step.Quiet →
    logAfter steps (n + 1) record = logAfter steps n record
  /-- A command that fails early is answered with its error, and leaves all logs as they
  are. -/
  failed (n : Nat) (step : Step) (cause : CallError) : steps[n]? = some step →
    step.command.FailsEarly step.registry cause →
    (answersTo steps)[n]? = some (.error cause) ∧
      ∀ record, logAfter steps (n + 1) record = logAfter steps n record

theorem logged_steps (steps : List Step) : Logged steps := by
  constructor
  case log =>
    intro record hquiet
    rw [← flatMap_callsOf_of_quiet hquiet]
    exact of_journal [] steps record
  case nested => exact of_journal [] steps
  case shown =>
    intro n step record hstep hlog
    rw [getElem?_answersTo hstep, hlog]
    rfl
  case dispatched =>
    intro n step record call hstep hcall
    rw [logAfter_succ hstep, Command.callsOf_of_dispatchTo hcall, getElem?_answersTo hstep,
      Command.answer_of_dispatchTo hcall]
    exact ⟨rfl, rfl⟩
  case unchanged =>
    intro n step record hstep hnone hquiet
    rw [logAfter_succ hstep, hquiet.callsOf_eq, hnone, Option.toList_none, List.append_nil]
  case failed =>
    intro n step cause hstep hfails
    refine ⟨by rw [getElem?_answersTo hstep, Command.answer_of_failsEarly hfails], fun record => ?_⟩
    rw [logAfter_succ hstep, Command.callsOf_of_failsEarly hfails, List.append_nil]

/-- A call with too few arguments, one that the record fails, and one of no record. -/
theorem logged_steps_fail :
    ∃ steps : List Step, (∀ step ∈ steps, step.Quiet) ∧
      steps.map Step.command = [.call ⟨"f", 2, true, .method "fail"⟩ [.record "r"] .null,
        .call ⟨"f", 2, true, .method "fail"⟩ [.record "r", .bool true] .null,
        .invoke "fail" [.bool true, .record "r"] .null] ∧
      (journal [] steps).of "r" = [⟨"fail", [.bool true], .null⟩] := by
  have hquiet : ∀ commands : List Command,
      ∀ step ∈ commands.map (Step.mk (Record.standardRegistry [])), step.Quiet := by
    intro commands step hstep
    obtain ⟨command, -, rfl⟩ := List.mem_map.1 hstep
    exact Step.quiet_standardRegistry [] command
  refine ⟨_, hquiet _, List.map_map.trans (List.map_id _), ?_⟩
  rw [(logged_steps _).log "r" (hquiet _)]
  rfl

example : answers (Record.standardRegistry [])
    [.call ⟨"f", 2, true, .method "fail"⟩ [.record "r"] .null,
      .call ⟨"f", 2, true, .method "fail"⟩ [.record "r", .bool true] .null,
      .invoke "fail" [.bool true, .record "r"] .null, .log "r"] =
    [.error (.arity "f" 2 true 1), .error (.raised "no such method"),
      .error (.wrongType "Record" "Bool"), .log [⟨"fail", [.bool true], .null⟩]] := rfl

example (typeNames : List (String × Option String)) :
    let standard := Record.standardRegistry typeNames
    let step : Step := ⟨⟨standard.record, fun _ args table =>
      invokeMethod standard "self" (args.drop 1) table⟩,
      .call ⟨"f", 0, true, .primitive .first⟩ [.bool true, .record "r", .bool false] .null⟩
    (journal [] [step]).of "r" = [⟨"self", [.bool false], .null⟩] := rfl

end Session

end Sexp
