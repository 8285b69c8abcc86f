import Sexp.Proofs.Shift
import Sexp.ReadError

namespace Sexp

open Grammar Text

theorem Text.lastLineLength_below (a b : List Char) :
    lastLineLength (a ++ '\n' :: b) = lastLineLength b := by
  rw [lastLineLength, List.reverse_append, List.reverse_cons, List.append_assoc,
    List.takeWhile_append]
  split <;> simp [lastLineLength, *]

theorem Text.lastLineLength_le (text : List Char) : lastLineLength text ≤ text.length := by
  rw [← List.length_reverse]
  exact (List.takeWhile_prefix _).length_le

/-- A location below a text lies as many lines further down as the text has, and
nothing else about it changes. -/
theorem Text.locate_below (a b : List Char) (pos : Nat) :
    locate (a ++ '\n' :: b) (pos + (a.length + 1)) =
      { locate b pos with line := (locate b pos).line + (a.count '\n' + 1) } := by
  have htake : (a ++ '\n' :: b).take (pos + (a.length + 1)) = a ++ '\n' :: b.take pos := by
    rw [List.take_append, List.take_of_length_le (by omega),
      show pos + (a.length + 1) - a.length = pos + 1 by omega, List.take_succ_cons]
  have hlast := lastLineLength_le (b.take pos)
  have hstart : (a ++ '\n' :: b.take pos).length - lastLineLength (b.take pos) =
      a.length + ((b.take pos).length - lastLineLength (b.take pos) + 1) := by
    rw [List.length_append, List.length_cons]
    omega
  simp only [locate, htake, lastLineLength_below, hstart, Location.mk.injEq]
  refine ⟨?_, ?_, ?_⟩
  · rw [List.count_append, List.count_cons_self]
    omega
  · omega
  · rw [List.drop_append, List.drop_eq_nil_of_le (Nat.le_add_right _ _), List.nil_append,
      Nat.add_sub_cancel_left, List.drop_succ_cons]

theorem foundText_below (a b : List Char) (pos : Nat) :
    foundText (a ++ '\n' :: b) (pos + (a.length + 1)) = foundText b pos := by
  rw [foundText, foundText, List.getElem?_append_right (by omega),
    show pos + (a.length + 1) - a.length = pos + 1 by omega, List.getElem?_cons_succ]

theorem Text.exists_locate_eq {text text' : List Char} {pos : Nat}
    (h : text'.take pos = text.take pos) :
    ∃ lineText, locate text' pos = { locate text pos with lineText := lineText } :=
  ⟨(locate text' pos).lineText, by simp only [locate, h]⟩

theorem contextText_eq (labels : List String) : contextText labels =
    if labels = [] then "" else " (in " ++ String.intercalate " > " labels ++ ")" := by
  cases labels <;> rfl

/-- What a report of a failure says: what was expected and where, what was found
there, and what it lies within. -/
structure Diagnosis where
  expected : String
  place : Location
  found : String
  labels : List String

namespace Diagnosis

/-- The report in words. -/
def report (d : Diagnosis) : ReadError :=
  { message :=
      "expected " ++ d.expected ++ " at line " ++ toString d.place.line ++
        ", column " ++ toString d.place.column ++ ", found " ++ d.found ++
        if d.labels = [] then "" else " (in " ++ String.intercalate " > " d.labels ++ ")"
    line := some d.place.line
    column := some d.place.column
    lineText := some (String.ofList d.place.lineText)
    context := d.labels }

theorem message_report (d : Diagnosis) : d.report.message =
    "expected " ++ d.expected ++ " at line " ++ toString d.place.line ++
      ", column " ++ toString d.place.column ++ ", found " ++ d.found ++ contextText d.labels := by
  rw [contextText_eq]
  rfl

theorem eq_of_report_eq {a b : String} {place : Location} {found : String} {labels : List String}
    (h : (mk a place found labels).report = (mk b place found labels).report) : a = b := by
  have hmessage := congrArg ReadError.message h
  rw [message_report, message_report] at hmessage
  simpa only [String.append_left_inj, String.append_right_inj] using hmessage

/-- The same diagnosis a number of lines further down. -/
def below (d : Diagnosis) (lines : Nat) : Diagnosis :=
  { d with place := { d.place with line := d.place.line + lines } }

/-- The same diagnosis with another line quoted. -/
def quoting (d : Diagnosis) (lineText : List Char) : Diagnosis :=
  { d with place := { d.place with lineText := lineText } }

end Diagnosis

/-- What is wrong where a failure lies in a text. -/
def Grammar.Failure.diagnosis (source : List Char) (f : Failure) : Diagnosis :=
  ⟨f.expected.text, locate source f.pos, foundText source f.pos, f.context.map Label.text⟩

theorem Grammar.Failure.report_eq (source : List Char) (f : Failure) :
    f.report source = (f.diagnosis source).report := by
  have hmessage := (f.diagnosis source).message_report
  change ReadError.mk _ _ _ _ _ = ReadError.mk _ _ _ _ _
  rw [ReadError.mk.injEq]
  exact ⟨hmessage.symm, rfl, rfl, rfl, rfl⟩

theorem Grammar.Failure.diagnosis_below (a b : List Char) (f : Failure) :
    (f.shift (a.length + 1)).diagnosis (a ++ '\n' :: b) =
      (f.diagnosis b).below (a.count '\n' + 1) := by
  simp only [diagnosis, shift, locate_below, foundText_below]
  rfl

theorem Grammar.Failure.exists_diagnosis_take (f : Failure) {source : List Char} {k : Nat}
    (hpos : f.pos < k) (hk : k ≤ source.length) (later : List Char) :
    ∃ lineText, f.diagnosis (source.take k ++ later) = (f.diagnosis source).quoting lineText := by
  have hlength : (source.take k).length = k := List.length_take_of_le hk
  have htake : (source.take k ++ later).take f.pos = source.take f.pos := by
    rw [List.take_append_of_le_length (by omega), List.take_take, Nat.min_eq_left (by omega)]
  have hfound : foundText (source.take k ++ later) f.pos = foundText source f.pos := by
    rw [foundText, foundText, List.getElem?_append_left (by omega), List.getElem?_take_of_lt hpos]
  obtain ⟨lineText, hplace⟩ := exists_locate_eq htake
  refine ⟨lineText, ?_⟩
  rw [diagnosis, hplace, hfound]
  rfl

end Sexp
