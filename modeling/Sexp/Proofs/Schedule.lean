import Sexp.FormStream.Script
import Sexp.Proofs.StreamInvariant

namespace Sexp.FormStream

open Grammar

theorem done_drain (s : FormStream) : s.drain.stream.done = true := by
  fun_induction drain s with
  | case1 s step hitem later ih => exact ih
  | case2 s step hitem =>
      refine done_next fun form hform => hitem ?_
      rw [show step.item = some (.form form) from hform]
      rfl

/-- The streams after a command. -/
def Command.run (streams : Streams) (command : Command) : Streams :=
  match command.answer (streams.lookup command.name) with
  | some answer => (command.name, answer.stream) :: streams
  | none => streams

theorem runScript_cons (streams : Streams) (command : Command) (commands : List Command) :
    runScript streams (command :: commands) =
      command.answer (streams.lookup command.name) ::
        runScript (command.run streams) commands := by
  rw [runScript, Command.run]
  cases command.answer (streams.lookup command.name) <;> rfl

section Run

variable {streams : Streams} {command : Command} {name : String}

theorem lookup_run_of_ne (h : command.name ≠ name) :
    (command.run streams).lookup name = streams.lookup name := by
  unfold Command.run
  split
  · rw [List.lookup_cons, beq_false_of_ne h.symm]
  · rfl

theorem lookup_run {answer : Answer}
    (h : command.answer (streams.lookup command.name) = some answer) :
    (command.run streams).lookup command.name = some answer.stream := by
  rw [Command.run, h]
  exact List.lookup_cons_self

theorem lookup_run_congr {streams' : Streams} {other : String}
    (h : streams.lookup command.name = streams'.lookup command.name)
    (hother : streams.lookup other = streams'.lookup other) :
    (command.run streams).lookup other = (command.run streams').lookup other := by
  by_cases hname : command.name = other
  · subst hname
    cases hanswer : command.answer (streams.lookup command.name) with
    | none => rw [Command.run, Command.run, ← h, hanswer, hother]
    | some answer => rw [lookup_run hanswer, lookup_run (h ▸ hanswer)]
  · rw [lookup_run_of_ne hname, lookup_run_of_ne hname, hother]

end Run

theorem runScript_congr {streams streams' : Streams} {commands : List Command}
    (h : ∀ command ∈ commands, streams.lookup command.name = streams'.lookup command.name) :
    runScript streams commands = runScript streams' commands := by
  induction commands generalizing streams streams' with
  | nil => rfl
  | cons command commands ih =>
      rw [List.forall_mem_cons] at h
      rw [runScript_cons, runScript_cons, h.1,
        ih fun other hother => lookup_run_congr h.1 (h.2 other hother)]

/-- The commands of a script, each with its answer. -/
def transcript (streams : Streams) (commands : List Command) : List (Command × Option Answer) :=
  commands.zip (runScript streams commands)

theorem transcript_cons (streams : Streams) (command : Command) (commands : List Command) :
    transcript streams (command :: commands) =
      (command, command.answer (streams.lookup command.name)) ::
        transcript (command.run streams) commands := by
  rw [transcript, runScript_cons]
  rfl

theorem map_fst_transcript (streams : Streams) (commands : List Command) :
    (transcript streams commands).map Prod.fst = commands := by
  induction commands generalizing streams with
  | nil => rfl
  | cons command commands ih => rw [transcript_cons, List.map_cons, ih]

/-- The commands about one name are answered as if there were no others. -/
theorem filter_transcript (streams : Streams) (commands : List Command) (name : String) :
    ((transcript streams commands).filter fun exchange => exchange.1.name == name) =
      transcript streams (commands.filter fun command => command.name == name) := by
  induction commands generalizing streams with
  | nil => rfl
  | cons command commands ih =>
      rw [transcript_cons]
      by_cases hname : command.name = name
      · rw [List.filter_cons_of_pos (by simpa using hname),
          List.filter_cons_of_pos (by simpa using hname), transcript_cons, ih]
      · rw [List.filter_cons_of_neg (by simpa using hname),
          List.filter_cons_of_neg (by simpa using hname), ih, transcript, transcript]
        congr 1
        refine runScript_congr fun other hother => lookup_run_of_ne ?_
        rw [beq_iff_eq.1 (List.mem_filter.1 hother).2]
        exact hname

/-- The items that a command has handed out. -/
def Result.items : Result → List Item
  | .yielded item => [item]
  | .drained items => items
  | .created | .stopped => []

/-- Whether a stream has nothing left after a result. -/
def Result.Ends : Result → Prop
  | .stopped | .drained _ => True
  | .created | .yielded _ => False

/-- The items that the commands about a name have handed out, in order. -/
def handedOut (name : String) (exchanges : List (Command × Option Answer)) : List Item :=
  (exchanges.filter fun exchange => exchange.1.name == name).flatMap fun exchange =>
    exchange.2.elim [] fun answer => answer.result.items

theorem handedOut_cons_of_ne {name : String} {exchange : Command × Option Answer}
    (h : exchange.1.name ≠ name) (exchanges : List (Command × Option Answer)) :
    handedOut name (exchange :: exchanges) = handedOut name exchanges := by
  rw [handedOut, List.filter_cons_of_neg (by simpa using h), handedOut]

theorem handedOut_cons {command : Command} (answer : Answer)
    (exchanges : List (Command × Option Answer)) :
    handedOut command.name ((command, some answer) :: exchanges) =
      answer.result.items ++ handedOut command.name exchanges := by
  rw [handedOut, List.filter_cons_of_pos (by simp), List.flatMap_cons, handedOut]
  rfl

theorem exists_answer {command : Command}
    (hcommand : ∀ name source limit, command ≠ .create name source limit) (s : FormStream) :
    ∃ answer, command.answer (some s) = some answer ∧
      answer.result.items ++ answer.stream.drain.items = s.drain.items ∧
      (s.done = true ∨ answer.result.Ends → answer.stream.done = true) := by
  cases command with
  | create name source limit => exact absurd rfl (hcommand name source limit)
  | next name =>
      cases hitem : s.next.item with
      | none =>
          have hdone : s.next.stream.done = true := done_next (by simp [hitem])
          refine ⟨⟨.stopped, s.next.stream⟩, by rw [Command.answer, hitem], ?_, fun _ => hdone⟩
          rw [drain_of_next_none hitem, drain_of_done hdone]
          rfl
      | some item =>
          refine ⟨⟨.yielded item, s.next.stream⟩, by rw [Command.answer, hitem], ?_, ?_⟩
          · rw [drain_of_next_some hitem]
            rfl
          · rintro (hdone | hends)
            · rw [next_of_done hdone] at hitem
              cases hitem
            · exact hends.elim
  | drain name =>
      refine ⟨⟨.drained s.drain.items, s.drain.stream⟩, rfl, ?_, fun _ => done_drain s⟩
      rw [drain_of_done (done_drain s)]
      exact List.append_nil _

theorem exists_transcript_of_append {streams : Streams} {commands : List Command}
    {before after : List (Command × Option Answer)}
    (h : transcript streams commands = before ++ after) :
    ∃ (streams' : Streams) (commands' : List Command), transcript streams' commands' = after := by
  induction before generalizing streams commands with
  | nil => exact ⟨streams, commands, h⟩
  | cons exchange before ih =>
      cases commands with
      | nil => cases h
      | cons command commands =>
          rw [transcript_cons, List.cons_append, List.cons.injEq] at h
          exact ih h.2

/-- Whether a stream under a name has been drained or found at its end. -/
def Ended (name : String) (exchanges : List (Command × Option Answer)) : Prop :=
  ∃ command answer, (command, some answer) ∈ exchanges ∧ command.name = name ∧
    answer.result.Ends

/-- Over a part of a script the commands about a name have taken a stream from one state
to another. -/
structure Served (name : String) (s t : FormStream)
    (exchanges : List (Command × Option Answer)) : Prop where
  answered : ∀ exchange ∈ exchanges, exchange.1.name = name → ∃ answer, exchange.2 = some answer
  items : handedOut name exchanges ++ t.drain.items = s.drain.items
  done : s.done = true ∨ Ended name exchanges → t.done = true

section Served

variable {name : String} {s t : FormStream} {exchanges : List (Command × Option Answer)}

theorem Served.nil (name : String) (s : FormStream) : Served name s s [] where
  answered := by simp
  items := rfl
  done := by simp [Ended]

theorem Served.cons_of_ne (h : Served name s t exchanges) {exchange : Command × Option Answer}
    (hname : exchange.1.name ≠ name) : Served name s t (exchange :: exchanges) where
  answered := List.forall_mem_cons.2 ⟨fun hsame => absurd hsame hname, h.answered⟩
  items := by rw [handedOut_cons_of_ne hname, h.items]
  done := by
    rintro (hdone | ⟨command, answer, hmem, hsame, hends⟩)
    · exact h.done (.inl hdone)
    · rcases List.mem_cons.1 hmem with rfl | hmem
      · exact absurd hsame hname
      · exact h.done (.inr ⟨command, answer, hmem, hsame, hends⟩)

theorem Served.cons {command : Command} {answer : Answer}
    (h : Served command.name answer.stream t exchanges)
    (hitems : answer.result.items ++ answer.stream.drain.items = s.drain.items)
    (hdone : s.done = true ∨ answer.result.Ends → answer.stream.done = true) :
    Served command.name s t ((command, some answer) :: exchanges) where
  answered := List.forall_mem_cons.2 ⟨fun _ => ⟨answer, rfl⟩, h.answered⟩
  items := by rw [handedOut_cons, List.append_assoc, h.items, hitems]
  done := by
    rintro (hs | ⟨other, given, hmem, hname, hends⟩)
    · exact h.done (.inl (hdone (.inl hs)))
    · rcases List.mem_cons.1 hmem with heq | hmem
      · cases heq
        exact h.done (.inl (hdone (.inr hends)))
      · exact h.done (.inr ⟨other, given, hmem, hname, hends⟩)

end Served

theorem exists_served {streams : Streams} {commands : List Command} {name : String}
    {s : FormStream} {between after : List (Command × Option Answer)}
    (hs : streams.lookup name = some s) (h : transcript streams commands = between ++ after)
    (hbetween : ∀ exchange ∈ between, ∀ source limit,
      exchange.1 ≠ .create name source limit) :
    ∃ t, Served name s t between := by
  induction between generalizing streams commands s with
  | nil => exact ⟨s, .nil name s⟩
  | cons exchange between ih =>
      cases commands with
      | nil => cases h
      | cons command commands =>
          rw [transcript_cons, List.cons_append, List.cons.injEq] at h
          obtain ⟨rfl, hlater⟩ := h
          rw [List.forall_mem_cons] at hbetween
          by_cases hname : command.name = name
          · subst hname
            have hcommand : ∀ other source limit, command ≠ .create other source limit := by
              rintro other source limit rfl
              exact hbetween.1 source limit rfl
            obtain ⟨answer, hanswer, hitems, hdone⟩ := exists_answer hcommand s
            rw [← hs] at hanswer
            obtain ⟨t, ht⟩ := ih (lookup_run hanswer) hlater hbetween.2
            rw [hanswer]
            exact ⟨t, ht.cons hitems hdone⟩
          · obtain ⟨t, ht⟩ := ih ((lookup_run_of_ne hname).trans hs) hlater hbetween.2
            exact ⟨t, ht.cons_of_ne hname⟩

/-- What holds of the answers to the commands about a name, whatever commands about other
names stand between them. -/
structure Scheduled (streams : Streams) (commands : List Command) (name : String) : Prop where
  /-- Each command of the script has its place among the answers. -/
  complete : (transcript streams commands).map Prod.fst = commands
  /-- The answers are those to the commands about the name alone. -/
  alone : ((transcript streams commands).filter fun exchange => exchange.1.name == name) =
    transcript streams (commands.filter fun command => command.name == name)
  /-- From one creation to the next every command is answered.  What is handed out is the
  beginning of what the new stream yields when it is drained, and all of it once the stream
  has been drained or found at its end. -/
  between (source : List Char) (limit : NestingLimit) (answer : Option Answer)
    (before between after : List (Command × Option Answer)) :
    transcript streams commands =
      before ++ (.create name source limit, answer) :: (between ++ after) →
    (∀ exchange ∈ between, ∀ other limit', exchange.1 ≠ .create name other limit') →
    answer = some ⟨.created, start source false limit⟩ ∧
      (∀ exchange ∈ between, exchange.1.name = name → ∃ given, exchange.2 = some given) ∧
      handedOut name between <+: (start source false limit).drain.items ∧
      (Ended name between → handedOut name between = (start source false limit).drain.items)

theorem scheduled_script (streams : Streams) (commands : List Command) (name : String) :
    Scheduled streams commands name := by
  constructor
  case complete => exact map_fst_transcript streams commands
  case alone => exact filter_transcript streams commands name
  case between =>
    intro source limit answer before between after h hbetween
    obtain ⟨streams', commands', hlater⟩ := exists_transcript_of_append h
    cases commands' with
    | nil => cases hlater
    | cons command commands' =>
        rw [transcript_cons, List.cons.injEq, Prod.mk.injEq] at hlater
        obtain ⟨⟨rfl, rfl⟩, hlater⟩ := hlater
        obtain ⟨t, ht⟩ := exists_served (lookup_run rfl) hlater hbetween
        refine ⟨rfl, ht.answered, ⟨t.drain.items, ht.items⟩, fun hended => ?_⟩
        have hitems := ht.items
        rw [drain_of_done (ht.done (.inr hended)), List.append_nil] at hitems
        exact hitems

end Sexp.FormStream
