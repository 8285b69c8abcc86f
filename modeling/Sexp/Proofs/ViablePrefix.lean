import Sexp.Proofs.Diagnosis
import Sexp.Proofs.Fault

/-!
# Where errors lie

An error lies at the first place that makes a text unreadable: what stands in front
of it can be completed to a text that is read, and once the place is reached nothing
behind it makes a difference any more.
-/

namespace Sexp

open Grammar Text

variable {limit : NestingLimit}

/-- The end of the text that tells a failure: the character at its place, and for a
broken escape the character behind it as well. -/
def Grammar.Failure.settledAt (f : Failure) : Nat :=
  if f.expected = .quoteEscape then f.pos + 2 else f.pos + 1

namespace Frontier

/-- The frontier goes on to the end of the text, with no more than so many forms open
at once. -/
structure Completes (s : Frontier) (n : Nat) : Prop where
  nesting_le : s.nesting ≤ n
  ended : s.final.Ended

section Completes

variable {s t : Frontier} {n : Nat}

theorem Completes.of_step (hstep : s.step? = some t) (hopened : s.opened.length ≤ n)
    (h : t.Completes n) : s.Completes n := by
  refine ⟨?_, ?_⟩
  · rw [nesting_of_some hstep]
    exact Nat.max_le.2 ⟨hopened, h.nesting_le⟩
  · rw [final_of_some hstep]
    exact h.ended

variable {items : List Form} {opened : List (Bracket × List Form)} {pos : Nat}

end Completes

variable {t : Frontier} {g : Failure}

theorem FaultCase.swap (h : FaultCase t g) {k : Nat} (hk : t.cursor.pos + k = g.settledAt)
    (hlength : k ≤ t.cursor.rest.length) (later : List Char) :
    TailSwap t.cursor.rest (t.cursor.rest.take k ++ later) ∧
      Cursor.skip ⟨t.cursor.pos, t.cursor.rest.take k ++ later⟩ =
        ⟨t.cursor.pos, t.cursor.rest.take k ++ later⟩ ∧
      FaultCase { t with cursor := ⟨t.cursor.pos, t.cursor.rest.take k ++ later⟩ } g := by
  cases h with
  | @strayParen cs hrest hopened =>
      obtain rfl : k = 1 := Nat.add_left_cancel hk
      rw [hrest]
      exact ⟨.close _ _, rfl, .strayParen rfl hopened⟩
  | @openString text value hrest htext =>
      -- only the end of the text tells this fault, and nothing can be kept behind the end
      have hk' : t.cursor.pos + k = t.cursor.pos + 1 + text.length + 1 := hk
      rw [hrest, List.length_cons] at hlength
      omega
  | @badEscape text value cs hrest htext hcs =>
      have hk' : t.cursor.pos + k = t.cursor.pos + 1 + text.length + 2 := hk
      obtain rfl : k = text.length + 3 := by omega
      obtain ⟨ch, behind, rfl⟩ : ∃ ch behind, cs = ch :: behind := by
        refine List.exists_cons_of_ne_nil ?_
        rintro rfl
        simp only [hrest, List.length_cons, List.length_append, List.length_nil] at hlength
        omega
      have htake : t.cursor.rest.take (text.length + 3) ++ later =
          '"' :: (text ++ '\\' :: ch :: later) := by
        rw [hrest, List.take_succ_cons, List.take_length_add_append]
        simp only [List.take_succ_cons, List.take_zero, List.cons_append, List.append_assoc,
          List.nil_append]
      rw [htake]
      refine ⟨?_, rfl, .badEscape rfl htext hcs⟩
      rw [hrest]
      exact .quotation _ _
  | @loneMark b mark cs hmark hrest hcs =>
      have hk' : t.cursor.pos + k = t.cursor.pos + 1 + 1 := hk
      obtain rfl : k = 2 := by omega
      obtain ⟨ch, behind, rfl⟩ : ∃ ch behind, cs = ch :: behind := by
        refine List.exists_cons_of_ne_nil ?_
        rintro rfl
        simp [hrest] at hlength
      rw [hrest]
      exact ⟨.mark hmark _ _, Bracket.skip_mark hmark _ _, .loneMark hmark rfl hcs⟩
  | missingParen hrest hopened =>
      have hk' : t.cursor.pos + k = t.cursor.pos + 1 := hk
      rw [hrest, List.length_nil] at hlength
      omega

end Frontier

end Sexp
