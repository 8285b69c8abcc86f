import Mathlib.Logic.Relation
import Sexp.Proofs.Layout
import Sexp.Proofs.NestedParentheses

namespace Sexp.Text

/-- A comment of a source: a semicolon and the rest of its line, with the line feed.  In a
last line without one the comment ends where the source does. -/
inductive CommentAt (source : List Char) (start : Nat) : Nat → Prop where
  | line {words behind : List Char} : '\n' ∉ words →
      source.drop start = ';' :: (words ++ '\n' :: behind) →
      CommentAt source start (start + words.length + 2)
  | last {words : List Char} : '\n' ∉ words → source.drop start = ';' :: words →
      CommentAt source start source.length

/-- A blank character or a comment, from one position up to another one. -/
inductive IgnorablePart (source : List Char) (pos : Nat) : Nat → Prop where
  | blank {ch : Char} : source[pos]? = some ch → isBlank ch = true →
      IgnorablePart source pos (pos + 1)
  | comment {stop : Nat} : CommentAt source pos stop → IgnorablePart source pos stop

/-- Blank characters and comments, each behind the one before.  A separator is such a run in
which a line feed ends each comment. -/
def IgnorableRun (source : List Char) : Nat → Nat → Prop :=
  Relation.ReflTransGen (IgnorablePart source)

/-- A position strictly inside a comment of the ignorable text that begins at `pos`. -/
def InsideComment (source : List Char) (pos inside : Nat) : Prop :=
  ∃ start stop, IgnorableRun source pos start ∧ CommentAt source start stop ∧
    start < inside ∧ inside < stop

/-- Neither a blank character nor a comment begins at a position. -/
def StopsRun (source : List Char) (pos : Nat) : Prop :=
  ∀ ch, source[pos]? = some ch → isBlank ch = false ∧ ch ≠ ';'

/-- A run of ignorable text that nothing ignorable follows. -/
structure MaximalRun (source : List Char) (pos stop : Nat) : Prop where
  pos_le : pos ≤ stop
  le_length : stop ≤ source.length
  ignorable : IgnorableRun source pos stop
  stops : StopsRun source stop

variable {source : List Char} {pos next start stop stop' : Nat}

section Skipping

theorem skipFrom_eq_add (source : List Char) (pos : Nat) :
    skipFrom source pos = pos + ignorableLength false (source.drop pos) := rfl

theorem skipFrom_of_separator {sep behind : List Char} (hsep : Separator sep)
    (hsource : source.drop pos = sep ++ behind) :
    skipFrom source pos = skipFrom source (pos + sep.length) := by
  rw [skipFrom, skipFrom, Cursor.ofText_add_length hsource, ← hsep.skip_append, ← hsource]
  rfl

theorem skipFrom_of_stops (h : StopsRun source pos) : skipFrom source pos = pos := by
  rw [skipFrom_eq_add]
  cases hrest : source.drop pos with
  | nil => rfl
  | cons ch cs =>
      have hch : source[pos]? = some ch := by rw [← List.head?_drop, hrest, List.head?_cons]
      rcases h ch hch with ⟨hblank, hcomment⟩
      simp [ignorableLength, hblank, hcomment]

theorem skipFrom_of_length_le (h : source.length ≤ pos) : skipFrom source pos = pos := by
  apply skipFrom_of_stops
  intro ch hch
  rw [List.getElem?_eq_none h] at hch
  cases hch

end Skipping

namespace CommentAt

theorem semicolon (h : CommentAt source start stop) : source[start]? = some ';' := by
  rw [← List.head?_drop]
  cases h with
  | line _ hsource => rw [hsource, List.head?_cons]
  | last _ hsource => rw [hsource, List.head?_cons]

theorem not_blank (h : CommentAt source start stop) {ch : Char} (hch : source[start]? = some ch) :
    isBlank ch ≠ true := by
  rw [h.semicolon, Option.some.injEq] at hch
  subst hch
  decide

theorem start_lt (h : CommentAt source start stop) : start < stop := by
  rcases List.getElem?_eq_some_iff.1 h.semicolon with ⟨hlt, -⟩
  cases h with
  | line => omega
  | last => exact hlt

theorem le_length (h : CommentAt source start stop) : stop ≤ source.length := by
  cases h with
  | line _ hsource =>
      have hlength := congrArg List.length hsource
      simp only [List.length_drop, List.length_cons, List.length_append] at hlength
      omega
  | last => exact Nat.le_refl _

theorem unique (h : CommentAt source start stop) (h' : CommentAt source start stop') :
    stop = stop' := by
  cases h with
  | line hwords hsource =>
      cases h' with
      | line hwords' hsource' =>
          rw [hsource, List.cons.injEq] at hsource'
          have hindex := congrArg (List.idxOf '\n') hsource'.2
          simp only [List.idxOf_append_of_notMem hwords, List.idxOf_append_of_notMem hwords',
            List.idxOf_cons_self] at hindex
          omega
      | last hwords' hsource' =>
          rw [hsource, List.cons.injEq] at hsource'
          rw [← hsource'.2] at hwords'
          exact absurd List.mem_append_cons_self hwords'
  | last hwords hsource =>
      cases h' with
      | line _ hsource' =>
          rw [hsource, List.cons.injEq] at hsource'
          rw [hsource'.2] at hwords
          exact absurd List.mem_append_cons_self hwords
      | last => rfl

theorem exists_of_semicolon (h : source[start]? = some ';') :
    ∃ stop, CommentAt source start stop := by
  have hsource := Cursor.rest_ofText_eq_cons h
  by_cases hend : '\n' ∈ (Cursor.ofText source (start + 1)).rest
  · rcases List.eq_append_cons_of_mem hend with ⟨words, behind, hrest, hwords⟩
    rw [hrest] at hsource
    exact ⟨_, .line hwords hsource⟩
  · exact ⟨_, .last hend hsource⟩

theorem skipFrom_eq (h : CommentAt source start stop) :
    skipFrom source start = skipFrom source stop := by
  cases h with
  | @line words behind hwords hsource =>
      have hsep : Separator (';' :: (words ++ ['\n'])) := .comment hwords .nil
      have hdrop : source.drop start = (';' :: (words ++ ['\n'])) ++ behind := by simp [hsource]
      rw [skipFrom_of_separator hsep hdrop, List.length_cons, List.length_append,
        List.length_singleton, Nat.add_assoc start]
  | @last words hwords hsource =>
      have hlength := congrArg List.length hsource
      rw [List.length_drop, List.length_cons] at hlength
      have hwords' := ignorableLength_words hwords []
      rw [List.append_nil] at hwords'
      rw [skipFrom_of_length_le (Nat.le_refl _), skipFrom_eq_add, hsource, ignorableLength,
        if_neg (by decide), if_pos rfl, hwords', ignorableLength]
      omega

end CommentAt

namespace IgnorablePart

theorem pos_lt (h : IgnorablePart source pos next) : pos < next := by
  cases h with
  | blank => exact Nat.lt_succ_self pos
  | comment hcomment => exact hcomment.start_lt

theorem le_length (h : IgnorablePart source pos next) : next ≤ source.length := by
  cases h with
  | blank hch =>
      rcases List.getElem?_eq_some_iff.1 hch with ⟨hlt, -⟩
      exact hlt
  | comment hcomment => exact hcomment.le_length

theorem rightUnique (source : List Char) : Relator.RightUnique (IgnorablePart source) := by
  intro pos stop stop' h h'
  cases h with
  | blank hch hblank =>
      cases h' with
      | blank => rfl
      | comment hcomment => exact absurd hblank (hcomment.not_blank hch)
  | comment hcomment =>
      cases h' with
      | blank hch hblank => exact absurd hblank (hcomment.not_blank hch)
      | comment hcomment' => exact hcomment.unique hcomment'

theorem skipFrom_eq (h : IgnorablePart source pos next) :
    skipFrom source pos = skipFrom source next := by
  cases h with
  | blank hch hblank =>
      exact skipFrom_of_separator (.blank hblank .nil) (Cursor.rest_ofText_eq_cons hch)
  | comment hcomment => exact hcomment.skipFrom_eq

theorem exists_or_stops (source : List Char) (pos : Nat) :
    (∃ next, IgnorablePart source pos next) ∨ StopsRun source pos := by
  cases hch : source[pos]? with
  | none =>
      right
      intro ch h
      rw [hch] at h
      cases h
  | some ch =>
      by_cases hblank : isBlank ch = true
      · exact .inl ⟨_, .blank hch hblank⟩
      · by_cases hcomment : ch = ';'
        · subst hcomment
          rcases CommentAt.exists_of_semicolon hch with ⟨stop, hstop⟩
          exact .inl ⟨stop, .comment hstop⟩
        · right
          intro ch' h
          rw [hch, Option.some.injEq] at h
          subst h
          exact ⟨Bool.eq_false_iff.2 hblank, hcomment⟩

end IgnorablePart

namespace IgnorableRun

theorem pos_le (h : IgnorableRun source pos stop) : pos ≤ stop := by
  induction h with
  | refl => exact Nat.le_refl pos
  | tail _ hpart ih => exact ih.trans hpart.pos_lt.le

theorem le_length (h : IgnorableRun source pos stop) (hpos : pos ≤ source.length) :
    stop ≤ source.length := by
  cases h with
  | refl => exact hpos
  | tail _ hpart => exact hpart.le_length

theorem skipFrom_eq (h : IgnorableRun source pos stop) :
    skipFrom source pos = skipFrom source stop := by
  induction h with
  | refl => rfl
  | tail _ hpart ih => exact ih.trans hpart.skipFrom_eq

theorem exists_stops (source : List Char) (pos : Nat) :
    ∃ stop, IgnorableRun source pos stop ∧ StopsRun source stop := by
  -- each part lowers the number of characters that are left
  generalize hleft : source.length - pos = left
  induction left using Nat.strong_induction_on generalizing pos with
  | _ left ih =>
      rcases IgnorablePart.exists_or_stops source pos with ⟨next, hpart⟩ | hstops
      · have hlt := hpart.pos_lt
        have hlength := hpart.le_length
        rcases ih (source.length - next) (by omega) next rfl with ⟨stop, hrun, hstops⟩
        exact ⟨stop, .head hpart hrun, hstops⟩
      · exact ⟨pos, .refl, hstops⟩

theorem of_not_insideComment {between : Nat} (h : IgnorableRun source pos stop)
    (hpos : pos ≤ between) (hstop : between ≤ stop) (hbetween : ¬InsideComment source pos between) :
    IgnorableRun source pos between := by
  induction h with
  | refl => exact Nat.le_antisymm hpos hstop ▸ .refl
  | @tail before stop hrun hpart ih =>
      rcases Nat.lt_or_ge before between with hlt | hge
      · -- behind the beginning of the last part the run can only be cut at its end
        have hend : between = stop := by
          cases hpart with
          | blank => omega
          | comment hcomment =>
              by_contra hne
              exact hbetween ⟨before, stop, hrun, hcomment, hlt, Nat.lt_of_le_of_ne hstop hne⟩
        exact hend ▸ hrun.tail hpart
      · exact ih hge

theorem not_insideComment (h : IgnorableRun source pos stop) : ¬InsideComment source pos stop := by
  rintro ⟨start, last, hrun, hcomment, hlow, hhigh⟩
  -- of two runs from one position the shorter one is the beginning of the other one
  rcases Relation.ReflTransGen.total_of_right_unique (IgnorablePart.rightUnique source) hrun h
    with hbehind | hbefore
  · cases hbehind using Relation.ReflTransGen.head_induction_on with
    | refl => exact absurd hlow (Nat.lt_irrefl _)
    | head hpart hbehind =>
        obtain rfl := IgnorablePart.rightUnique source (.comment hcomment) hpart
        exact absurd hhigh (IgnorableRun.pos_le hbehind).not_gt
  · exact absurd hlow (IgnorableRun.pos_le hbefore).not_gt

end IgnorableRun

theorem MaximalRun.skipFrom_eq (h : MaximalRun source pos stop) : skipFrom source pos = stop :=
  h.ignorable.skipFrom_eq.trans (skipFrom_of_stops h.stops)

theorem maximalRun_skipFrom (h : pos ≤ source.length) :
    MaximalRun source pos (skipFrom source pos) := by
  rcases IgnorableRun.exists_stops source pos with ⟨stop, hrun, hstops⟩
  have hmaximal : MaximalRun source pos stop :=
    ⟨hrun.pos_le, hrun.le_length h, hrun, hstops⟩
  rwa [hmaximal.skipFrom_eq]

/-- Skipping from a position of a source ends where the maximal run of ignorable text behind
it does, which is one place only.  Skipping from there goes no further, and skipping from
anywhere in the run but the inside of a comment ends there too.  Past the end of the source
nothing is skipped. -/
theorem skipFrom_maximal (source : List Char) (pos : Nat) :
    (pos ≤ source.length →
      (∀ stop, MaximalRun source pos stop ↔ stop = skipFrom source pos) ∧
      skipFrom source (skipFrom source pos) = skipFrom source pos ∧
      ∀ between, pos ≤ between → between ≤ skipFrom source pos →
        ¬InsideComment source pos between → skipFrom source between = skipFrom source pos) ∧
    (source.length < pos → skipFrom source pos = pos) := by
  refine ⟨fun hpos => ?_, fun hpos => skipFrom_of_length_le hpos.le⟩
  have hmaximal := maximalRun_skipFrom hpos
  refine ⟨fun stop => ⟨fun h => h.skipFrom_eq.symm, ?_⟩, ?_, fun between hlow hhigh hbetween => ?_⟩
  · rintro rfl
    exact hmaximal
  · exact skipFrom_of_stops hmaximal.stops
  · exact (hmaximal.ignorable.of_not_insideComment hlow hhigh hbetween).skipFrom_eq.symm

/-- An empty comment stands behind the first one, and no line feed ends the last one. -/
theorem skipFrom_maximal_comments :
    (0 ≤ " ;a\n;\n;b".toList.length ∧ MaximalRun " ;a\n;\n;b".toList 0 8) ∧
    (4 ≤ skipFrom " ;a\n;\n;b".toList 0 ∧ ¬InsideComment " ;a\n;\n;b".toList 0 4 ∧
      skipFrom " ;a\n;\n;b".toList 4 = skipFrom " ;a\n;\n;b".toList 0) ∧
    " ;a\n;\n;b".toList.length < 9 ∧ skipFrom " ;a\n;\n;b".toList 9 = 9 := by
  have hblank : IgnorablePart " ;a\n;\n;b".toList 0 1 := .blank rfl rfl
  have hwords : '\n' ∉ ['a'] := by decide
  have hcomment : IgnorablePart " ;a\n;\n;b".toList 1 4 := .comment (.line hwords rfl)
  have hrun : IgnorableRun " ;a\n;\n;b".toList 0 4 := .head hblank (.single hcomment)
  rcases (skipFrom_maximal " ;a\n;\n;b".toList 0).1 (by decide) with ⟨hunique, -, hbetween⟩
  refine ⟨⟨by decide, (hunique 8).2 (by decide)⟩,
    ⟨by decide, hrun.not_insideComment, ?_⟩, by decide, ?_⟩
  · exact hbetween 4 (by decide) (by decide) hrun.not_insideComment
  · exact (skipFrom_maximal " ;a\n;\n;b".toList 9).2 (by decide)

/-- From the inside of a comment its words are text. -/
example : skipFrom " ;a\n;\n;b".toList 2 = 2 := by
  decide

end Sexp.Text
