import Mathlib.Data.List.TakeWhile
import Sexp.Text.Cursor

namespace Sexp.Text

/-- A text in front of which a run of a class of characters ends. -/
def EndsRun (p : Char → Bool) (cs : List Char) : Prop :=
  ∀ ch ∈ cs.head?, p ch = false

namespace EndsRun

variable {p q : Char → Bool} {cs behind : List Char}

theorem nil (p : Char → Bool) : EndsRun p [] := by
  simp [EndsRun]

theorem cons {ch : Char} (h : p ch = false) : EndsRun p (ch :: cs) := by
  simpa [EndsRun] using h

theorem head {ch : Char} (h : EndsRun p (ch :: cs)) : p ch = false :=
  h ch rfl

theorem mono (h : EndsRun q cs) (hpq : ∀ ch, p ch = true → q ch = true) : EndsRun p cs := by
  intro ch hch
  refine Bool.eq_false_iff.2 fun hp => ?_
  exact absurd (hpq ch hp) (by simp [h ch hch])

theorem dropWhile (p : Char → Bool) (cs : List Char) : EndsRun p (cs.dropWhile p) := by
  intro ch hch
  have := List.head?_dropWhile_not p cs
  rw [Option.mem_def.1 hch] at this
  simpa using this

theorem takeWhile_eq_nil (h : EndsRun p cs) : cs.takeWhile p = [] := by
  cases cs with
  | nil => rfl
  | cons ch cs => simp [h.head]

theorem takeWhile_append (h : EndsRun p behind) :
    (cs ++ behind).takeWhile p = cs.takeWhile p := by
  induction cs with
  | nil => exact h.takeWhile_eq_nil
  | cons ch cs ih => simp only [List.cons_append, List.takeWhile_cons, ih]

theorem dropWhile_append (h : EndsRun p behind) :
    (cs ++ behind).dropWhile p = cs.dropWhile p ++ behind := by
  induction cs with
  | nil =>
      cases behind with
      | nil => rfl
      | cons ch behind => simp [h.head]
  | cons ch cs ih =>
      simp only [List.cons_append, List.dropWhile_cons, ih]
      split <;> rfl

theorem takeWhile_append_of_all (h : EndsRun p behind) (hall : ∀ ch ∈ cs, p ch = true) :
    (cs ++ behind).takeWhile p = cs := by
  rw [h.takeWhile_append]
  exact List.takeWhile_eq_self_iff.2 hall

theorem dropWhile_append_of_all (h : EndsRun p behind) (hall : ∀ ch ∈ cs, p ch = true) :
    (cs ++ behind).dropWhile p = behind := by
  rw [h.dropWhile_append, List.dropWhile_eq_nil_iff.2 hall, List.nil_append]

theorem prefix_of_prefix_append (h : EndsRun p behind) {word : List Char}
    (hword : ∀ ch ∈ word, p ch = true) (hbegin : word <+: cs ++ behind) : word <+: cs := by
  obtain ⟨tail, htail⟩ := hbegin
  have hrun : (word ++ tail).takeWhile p = word ++ tail.takeWhile p :=
    List.takeWhile_append_of_pos hword
  rw [htail, h.takeWhile_append] at hrun
  exact (hrun ▸ List.prefix_append _ _).trans (List.takeWhile_prefix p)

end EndsRun

theorem takeWhile_of_append {p : Char → Bool} {cs tail : List Char}
    (h : ((cs ++ tail).takeWhile p).length ≤ cs.length) :
    (cs ++ tail).takeWhile p = cs.takeWhile p := by
  rw [List.takeWhile_append] at h ⊢
  split
  · rename_i hall
    rw [if_pos hall, List.length_append] at h
    have htail : tail.takeWhile p = [] := List.length_eq_zero_iff.1 (by omega)
    rw [htail, List.append_nil]
    exact ((List.takeWhile_prefix p).eq_of_length hall).symm
  · rfl

theorem dropWhile_of_append {p : Char → Bool} {cs later tail : List Char}
    (h : (cs ++ tail).dropWhile p = later ++ tail) :
    cs.dropWhile p = later ∧ (cs ++ tail).takeWhile p = cs.takeWhile p := by
  have hparts := List.takeWhile_append_dropWhile (p := p) (l := cs ++ tail)
  have hlength := congrArg List.length hparts
  simp only [h, List.length_append] at hlength
  have htake : (cs ++ tail).takeWhile p = cs.takeWhile p := takeWhile_of_append (by omega)
  rw [h, htake, ← List.append_assoc] at hparts
  have hcs : cs.takeWhile p ++ later = cs.takeWhile p ++ cs.dropWhile p :=
    (List.append_cancel_right hparts).trans List.takeWhile_append_dropWhile.symm
  exact ⟨(List.append_cancel_left hcs).symm, htake⟩

end Sexp.Text
