import Mathlib.Data.List.Forall2
import Sexp.Proofs.FormTree
import Sexp.Proofs.PlainDecimal
import Sexp.Proofs.Refusal
import Sexp.Proofs.Reply

/-!
# Readable forms

The forms that a source text can be read into, and the decimals that they are
read with: a number comes back as its plain text denotes it.
-/

namespace Sexp

open Grammar

/-- No number stands at the beginning of a text. -/
def Grammar.NoNumber (cs : List Char) : Prop :=
  ∃ f, number (.ofText cs 0) = .failed f

theorem Grammar.noNumber_iff {cs : List Char} : NoNumber cs ↔ number? cs = none := by
  rw [NoNumber, number_eq_match]
  cases hnumber : number? (Text.Cursor.ofText cs 0).rest with
  | none => exact ⟨fun _ => hnumber, fun _ => ⟨_, rfl⟩⟩
  | some taken =>
      have hne : number? cs ≠ none := fun h => Option.some_ne_none _ (hnumber.symm.trans h)
      exact ⟨fun ⟨f, hf⟩ => absurd hf (Reply.found_ne_failed _ _ f), fun h => absurd h hne⟩

namespace Form

/-- A text that is read as one symbol. -/
structure SymbolName (name : List Char) : Prop where
  ne_nil : name ≠ []
  symbolChars : ∀ ch ∈ name, isSymbolChar ch = true
  no_point : name.head? ≠ some '.'
  no_tuple : name.head? ≠ some '^'
  no_true : ¬"true".toList <+: name
  no_false : ¬"false".toList <+: name
  no_number : NoNumber name

/-- A text that is read as the name of a method when it stands behind a point. -/
structure MethodName (name : List Char) : Prop where
  symbolChars : ∀ ch ∈ name, isSymbolChar ch = true
  no_number : NoNumber ('.' :: name)

/-- A form without items that a text can be read into. -/
def ReadableAtom : Form → Prop
  | .symbol name => SymbolName name.toList
  | .number value => value.IsFinite
  | .string value => '\\' ∉ value.toList
  | .bool _ => True
  | .function callable =>
      ∃ method : String,
        callable = ⟨"method_call<" ++ method ++ ">", 1, true, .method method⟩ ∧
        MethodName method.toList
  | _ => False

/-- A form that a text can be read into. -/
def Readable (form : Form) : Prop :=
  form.AllAtoms ReadableAtom

theorem equalsItems_eq_ok_true_iff {as bs : List Form} :
    equalsItems as bs = .ok true ↔ List.Forall₂ (fun a b => equals a b = .ok true) as bs := by
  induction as generalizing bs with
  | nil => cases bs <;> simp [equalsItems]
  | cons a as ih =>
      cases bs with
      | nil => simp [equalsItems]
      | cons b bs =>
          rw [equalsItems, List.forall₂_cons, ← ih]
          split <;> simp_all

theorem exists_equals_of_mem {as bs : List Form} (h : equalsItems as bs = .ok true) {b : Form}
    (hb : b ∈ bs) : ∃ a ∈ as, equals a b = .ok true := by
  induction equalsItems_eq_ok_true_iff.1 h with
  | nil => simp at hb
  | @cons a b' as bs hab htail ih =>
      rcases List.mem_cons.1 hb with rfl | hb
      · exact ⟨a, by simp, hab⟩
      · obtain ⟨a', ha', hab'⟩ := ih (equalsItems_eq_ok_true_iff.2 htail) hb
        exact ⟨a', by simp [ha'], hab'⟩

theorem ReadableAtom.of_equals {f g : Form} (hf : f.ReadableAtom) (h : equals f g = .ok true) :
    g.items? = none ∧ g.ReadableAtom := by
  cases f with
  | symbol name =>
      cases g <;> simp only [equals, Except.ok.injEq, beq_iff_eq, Bool.false_eq_true] at h
      subst h
      exact ⟨rfl, hf⟩
  | number value =>
      cases g <;> simp only [equals, Except.ok.injEq, Bool.false_eq_true] at h
      rename_i other
      obtain ⟨negative, coefficient, exponent, limits, rfl⟩ := hf
      refine ⟨rfl, ?_⟩
      cases other with
      | finite n c e limits => exact ⟨n, c, e, limits, rfl⟩
      | infinity n => simp [Decimal.equals, Decimal.same] at h
      | nan n signaling payload =>
          cases signaling <;> simp [Decimal.equals, Decimal.same] at h
  | string value =>
      cases g <;> simp only [equals, Except.ok.injEq, beq_iff_eq, Bool.false_eq_true] at h
      subst h
      exact ⟨rfl, hf⟩
  | bool value =>
      cases g <;> simp only [equals, Except.ok.injEq, Bool.false_eq_true] at h
      exact ⟨rfl, trivial⟩
  | function callable =>
      cases g <;> simp only [equals, Except.ok.injEq, beq_iff_eq, Bool.false_eq_true] at h
      subst h
      exact ⟨rfl, hf⟩
  | list => exact hf.elim
  | quote => exact hf.elim
  | record => exact hf.elim
  | external => exact hf.elim

theorem Readable.of_equals {f g : Form} (hf : f.Readable) (h : equals f g = .ok true) :
    g.Readable := by
  induction hf generalizing g with
  | atom _ hreadable =>
      obtain ⟨hatom, hg⟩ := hreadable.of_equals h
      exact .atom hatom hg
  | list _ ih =>
      cases g <;> simp only [equals, Except.ok.injEq, Bool.false_eq_true] at h
      refine .list fun b hb => ?_
      obtain ⟨a, ha, hab⟩ := exists_equals_of_mem h hb
      exact ih a ha hab
  | quote _ ih =>
      cases g <;> simp only [equals, Except.ok.injEq, Bool.false_eq_true] at h
      refine .quote fun b hb => ?_
      obtain ⟨a, ha, hab⟩ := exists_equals_of_mem h hb
      exact ih a ha hab

mutual

/-- A form with its numbers as they are read from their plain texts. -/
def canonical : Form → Form
  | .number value => .number value.canonical
  | .list items => .list (canonicalItems items)
  | .quote items => .quote (canonicalItems items)
  | form => form

/-- Forms with their numbers as they are read from their plain texts. -/
def canonicalItems : List Form → List Form
  | [] => []
  | form :: forms => canonical form :: canonicalItems forms

end

theorem canonicalItems_eq_map (forms : List Form) : canonicalItems forms = forms.map canonical := by
  induction forms with
  | nil => rfl
  | cons form forms ih => rw [canonicalItems, ih, List.map_cons]

theorem equalsItems_map_canonical {forms : List Form}
    (h : ∀ form ∈ forms, equals form.canonical form = .ok true) :
    equalsItems (forms.map canonical) forms = .ok true := by
  rw [equalsItems_eq_ok_true_iff, List.forall₂_map_left_iff, List.forall₂_same]
  exact h

theorem Readable.equals_canonical {form : Form} (h : form.Readable) :
    equals form.canonical form = .ok true := by
  induction h with
  | @atom form _ hatom =>
      cases form with
      | number value =>
          obtain ⟨negative, coefficient, exponent, limits, rfl⟩ := hatom
          exact Decimal.equals_canonical negative coefficient exponent limits
      | symbol | string | bool | function => simp [canonical, equals]
      | list | quote | record | external => exact hatom.elim
  | list _ ih =>
      rw [canonical, canonicalItems_eq_map]
      exact equalsItems_map_canonical ih
  | quote _ ih =>
      rw [canonical, canonicalItems_eq_map]
      exact equalsItems_map_canonical ih

end Form

end Sexp
