import Mathlib.Algebra.Ring.Nat
import Mathlib.Data.List.TakeWhile
import Sexp.Proofs.Diagnosis

namespace Sexp

open Grammar

namespace Text

/-- The lines of a text without the line feeds between them. -/
def lines (text : List Char) : List (List Char) :=
  text.splitOn '\n'

theorem lines_of_not_mem {line : List Char} (h : '\n' ∉ line) : lines line = [line] :=
  List.splitOn_eq_singleton h

theorem lines_append {line : List Char} (h : '\n' ∉ line) (below : List Char) :
    lines (line ++ '\n' :: below) = line :: lines below :=
  List.splitOn_append_cons_self_of_not_mem h below

@[elab_as_elim]
theorem position_induction {motive : List Char → Nat → Prop}
    (last : ∀ line pos, '\n' ∉ line → motive line pos)
    (first : ∀ line below pos, '\n' ∉ line → pos ≤ line.length →
      motive (line ++ '\n' :: below) pos)
    (later : ∀ line below pos, '\n' ∉ line → motive below pos →
      motive (line ++ '\n' :: below) (pos + (line.length + 1)))
    (text : List Char) (pos : Nat) : motive text pos := by
  by_cases h : '\n' ∈ text
  · rcases List.eq_append_cons_of_mem h with ⟨line, below, rfl, hline⟩
    rcases Nat.lt_or_ge line.length pos with hbelow | hfirst
    · rcases Nat.exists_eq_add_of_le' hbelow with ⟨k, rfl⟩
      exact later line below k hline (position_induction last first later below k)
    · exact first line below pos hline hfirst
  · exact last text pos h
termination_by text.length

/-- How many characters the first lines have, each with its line feed. -/
def lineOffset (lines : List (List Char)) (n : Nat) : Nat :=
  ((lines.take n).map fun line => line.length + 1).sum

theorem lineOffset_zero (lines : List (List Char)) : lineOffset lines 0 = 0 := rfl

theorem lineOffset_cons (line : List Char) (lines : List (List Char)) (n : Nat) :
    lineOffset (line :: lines) (n + 1) = line.length + 1 + lineOffset lines n := by
  simp [lineOffset]

theorem lineOffset_succ {lines : List (List Char)} {n : Nat} {line : List Char}
    (h : lines[n]? = some line) :
    lineOffset lines (n + 1) = lineOffset lines n + (line.length + 1) := by
  simp [lineOffset, List.take_add_one, h]

theorem lineOffset_mono (lines : List (List Char)) {m n : Nat} (h : m ≤ n) :
    lineOffset lines m ≤ lineOffset lines n := by
  rcases Nat.exists_eq_add_of_le h with ⟨k, rfl⟩
  rw [lineOffset, lineOffset, List.take_add, List.map_append, List.sum_append]
  exact Nat.le_add_right _ _

/-- A location that points to a position of a text.  A line feed stands in the column behind
its line, and positions behind the text count on in the last line. -/
structure Location.PointsTo (place : Location) (text : List Char) (pos : Nat) : Prop where
  line_pos : 0 < place.line
  lineText_eq : (lines text)[place.line - 1]? = some place.lineText
  column_pos : 0 < place.column
  pos_eq : pos = lineOffset (lines text) (place.line - 1) + (place.column - 1)
  column_le : pos ≤ text.length → place.column ≤ place.lineText.length + 1
  line_last : text.length < pos → place.line = (lines text).length

/-- A location further up, or on the same line and further to the left. -/
def Location.Before (place place' : Location) : Prop :=
  place.line < place'.line ∨ place.line = place'.line ∧ place.column < place'.column

namespace Location.PointsTo

variable {text : List Char} {pos pos' : Nat} {place place' : Location}

theorem line_le (h : place.PointsTo text pos) : place.line ≤ (lines text).length := by
  rcases List.getElem?_eq_some_iff.1 h.lineText_eq with ⟨hline, -⟩
  omega

theorem lt_of_line_lt (h : place.PointsTo text pos) (h' : place'.PointsTo text pos')
    (hline : place.line < place'.line) : pos < pos' := by
  have hlast := h'.line_le
  have hinside : pos ≤ text.length := by
    by_contra hpast
    have := h.line_last (Nat.lt_of_not_le hpast)
    omega
  have hcolumn := h.column_le hinside
  have hnext := lineOffset_succ h.lineText_eq
  have hmono := lineOffset_mono (lines text) (show place.line - 1 + 1 ≤ place'.line - 1 by
    have := h.line_pos
    omega)
  have hpos := h.pos_eq
  have hpos' := h'.pos_eq
  omega

theorem before (h : place.PointsTo text pos) (h' : place'.PointsTo text pos')
    (hpos : pos < pos') : place.Before place' := by
  rcases Nat.lt_trichotomy place.line place'.line with hline | hline | hline
  · exact .inl hline
  · have hplace := h.pos_eq
    have hplace' := h'.pos_eq
    rw [hline] at hplace
    exact .inr ⟨hline, by omega⟩
  · exact absurd (h'.lt_of_line_lt h hline) (Nat.lt_asymm hpos)

theorem unique (h : place.PointsTo text pos) (h' : place'.PointsTo text pos) :
    place = place' := by
  have hline : place.line = place'.line := by
    rcases Nat.lt_trichotomy place.line place'.line with hline | hline | hline
    · exact absurd (h.lt_of_line_lt h' hline) (Nat.lt_irrefl pos)
    · exact hline
    · exact absurd (h'.lt_of_line_lt h hline) (Nat.lt_irrefl pos)
  have hcolumn : place.column = place'.column := by
    have hplace := h.pos_eq
    have hplace' := h'.pos_eq
    have := h.column_pos
    have := h'.column_pos
    rw [hline] at hplace
    omega
  have htext := h.lineText_eq
  rw [hline, h'.lineText_eq, Option.some.injEq] at htext
  rcases place with ⟨line, column, lineText⟩
  rcases place' with ⟨line', column', lineText'⟩
  simp only [Location.mk.injEq]
  exact ⟨hline, hcolumn, htext.symm⟩

theorem below {line : List Char} (hline : '\n' ∉ line) (h : place.PointsTo text pos) :
    Location.PointsTo { place with line := place.line + 1 } (line ++ '\n' :: text)
      (pos + (line.length + 1)) := by
  rcases Nat.exists_eq_add_of_lt h.line_pos with ⟨n, hn⟩
  rw [Nat.zero_add] at hn
  have hlines := lines_append hline text
  constructor
  · exact Nat.succ_pos _
  · have := h.lineText_eq
    simpa [hlines, hn] using this
  · exact h.column_pos
  · have := h.pos_eq
    simp only [hlines, Nat.add_sub_cancel, hn, lineOffset_cons] at this ⊢
    omega
  · intro hpos
    apply h.column_le
    rw [List.length_append, List.length_cons] at hpos
    omega
  · intro hpos
    have := h.line_last (by
      rw [List.length_append, List.length_cons] at hpos
      omega)
    simp only [hlines, List.length_cons, this]

end Location.PointsTo

theorem bne_lineFeed {line : List Char} (h : '\n' ∉ line) : ∀ ch ∈ line, (ch != '\n') = true :=
  fun _ hch => bne_iff_ne.2 fun heq => h (heq ▸ hch)

theorem lastLineLength_of_not_mem {text : List Char} (h : '\n' ∉ text) :
    lastLineLength text = text.length := by
  have hall := bne_lineFeed fun hmem => h (List.mem_reverse.1 hmem)
  rw [lastLineLength, List.takeWhile_eq_self_iff.2 hall, List.length_reverse]

theorem locate_of_not_mem {text : List Char} {pos : Nat} (h : '\n' ∉ text.take pos) :
    locate text pos = ⟨1, pos + 1, text.takeWhile (· != '\n')⟩ := by
  simp only [locate, lastLineLength_of_not_mem h, List.count_eq_zero.2 h, Nat.sub_self,
    Nat.sub_zero, Nat.zero_add, List.drop_zero]

section FirstLine

variable {line : List Char} (hline : '\n' ∉ line)

include hline

theorem locate_line (pos : Nat) : locate line pos = ⟨1, pos + 1, line⟩ := by
  rw [locate_of_not_mem fun h => hline (List.mem_of_mem_take h),
    List.takeWhile_eq_self_iff.2 (bne_lineFeed hline)]

theorem locate_line_append (below : List Char) {pos : Nat} (hpos : pos ≤ line.length) :
    locate (line ++ '\n' :: below) pos = ⟨1, pos + 1, line⟩ := by
  have htake : (line ++ '\n' :: below).take pos = line.take pos :=
    List.take_append_of_le_length hpos
  have hfirst : '\n' ∉ (line ++ '\n' :: below).take pos := by
    rw [htake]
    exact fun h => hline (List.mem_of_mem_take h)
  rw [locate_of_not_mem hfirst, List.takeWhile_append_of_pos (bne_lineFeed hline)]
  simp

theorem locate_line_below (below : List Char) (pos : Nat) :
    locate (line ++ '\n' :: below) (pos + (line.length + 1)) =
      { locate below pos with line := (locate below pos).line + 1 } := by
  rw [locate_below, List.count_eq_zero.2 hline]

end FirstLine

theorem pointsTo_locate (text : List Char) (pos : Nat) :
    (locate text pos).PointsTo text pos := by
  induction text, pos using position_induction with
  | last line pos hline =>
      have hlines := lines_of_not_mem hline
      rw [locate_line hline]
      constructor <;> simp [hlines, lineOffset_zero]
  | first line below pos hline hpos =>
      have hlines := lines_append hline below
      rw [locate_line_append hline below hpos]
      constructor
      · exact Nat.one_pos
      · simp [hlines]
      · exact Nat.succ_pos _
      · simp [lineOffset_zero]
      · exact fun _ => Nat.succ_le_succ hpos
      · intro hpast
        rw [List.length_append] at hpast
        omega
  | later line below pos hline ih =>
      rw [locate_line_below hline]
      exact ih.below hline

/-- What stands at a location, in words: a character of the line, or else the line feed
behind it, which only the last line has not. -/
def Location.found (place : Location) (text : List Char) : String :=
  match place.lineText[place.column - 1]? with
  | some ch => String.ofList (inspect [ch])
  | none =>
      if place.line < (lines text).length then String.ofList (inspect ['\n']) else "end of input"

end Text

open Text

theorem found_locate (source : List Char) (pos : Nat) :
    (locate source pos).found source = foundText source pos := by
  induction source, pos using position_induction with
  | last line pos hline =>
      rw [locate_line hline, Location.found, lines_of_not_mem hline, foundText]
      rfl
  | first line below pos hline hpos =>
      have hmore : 1 < (line :: lines below).length := by
        have := List.length_pos_iff.2 (List.splitOn_ne_nil '\n' below)
        exact Nat.succ_lt_succ this
      rw [locate_line_append hline below hpos, Location.found, lines_append hline below, foundText]
      simp only [Nat.add_sub_cancel, if_pos hmore]
      rcases Nat.lt_or_eq_of_le hpos with hinside | rfl
      · rw [List.getElem?_append_left hinside, List.getElem?_eq_getElem hinside]
      · simp
  | later line below pos hline ih =>
      rw [locate_line_below hline, foundText_below, ← ih, Location.found, Location.found,
        lines_append hline below]
      simp only [List.length_cons, Nat.add_lt_add_iff_right]

theorem Grammar.Failure.exists_pointsTo (f : Failure) (source : List Char) :
    ∃ place : Location, place.PointsTo source f.pos ∧ f.report source =
      (Diagnosis.mk f.expected.text place (place.found source)
        (f.context.map Label.text)).report := by
  refine ⟨locate source f.pos, pointsTo_locate source f.pos, ?_⟩
  rw [Failure.report_eq, found_locate]
  rfl

/-- A location points to its position and is the only one that does.  Later positions have
later locations, so that no two have the same.  A report gives the location of the failure,
what is found there, and the labels around it. -/
theorem locate_exact (source : List Char) :
    (∀ pos place, place.PointsTo source pos ↔ place = locate source pos) ∧
    (∀ pos pos', pos < pos' → (locate source pos).Before (locate source pos')) ∧
    Function.Injective (fun pos => ((locate source pos).line, (locate source pos).column)) ∧
    ∀ f : Failure, f.report source =
      (Diagnosis.mk f.expected.text (locate source f.pos)
        ((locate source f.pos).found source) (f.context.map Label.text)).report := by
  refine ⟨fun pos place => ⟨fun h => ?_, ?_⟩, fun pos pos' hpos => ?_, fun pos pos' h => ?_,
    fun f => ?_⟩
  · exact h.unique (pointsTo_locate source pos)
  · rintro rfl
    exact pointsTo_locate source pos
  · exact (pointsTo_locate source pos).before (pointsTo_locate source pos') hpos
  · rw [Prod.mk.injEq] at h
    calc
      pos = lineOffset (lines source) ((locate source pos).line - 1) +
          ((locate source pos).column - 1) := (pointsTo_locate source pos).pos_eq
      _ = lineOffset (lines source) ((locate source pos').line - 1) +
          ((locate source pos').column - 1) := by rw [h.1, h.2]
      _ = pos' := (pointsTo_locate source pos').pos_eq.symm
  · rw [Failure.report_eq, found_locate]
    rfl

/-- The position of a line feed is the column behind its line, and the one behind it begins
the next line. -/
theorem locate_exact_lineFeed :
    2 < 3 ∧ Location.PointsTo ⟨1, 3, "ab".toList⟩ "ab\ncd".toList 2 ∧
    Location.PointsTo ⟨2, 1, "cd".toList⟩ "ab\ncd".toList 3 ∧
    (locate "ab\ncd".toList 2).Before (locate "ab\ncd".toList 3) := by
  rcases locate_exact "ab\ncd".toList with ⟨hplace, hbefore, -, -⟩
  exact ⟨by decide, (hplace 2 _).2 (by decide), (hplace 3 _).2 (by decide),
    hbefore 2 3 (by decide)⟩

end Sexp
