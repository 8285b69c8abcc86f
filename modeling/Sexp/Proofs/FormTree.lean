import Sexp.Form.Equality

namespace Sexp.Form

/-- What holds of every form without items, and of a list and a quote whenever it
holds of their items, holds of every form. -/
@[elab_as_elim]
theorem induction_items {motive : Form → Prop}
    (atom : ∀ form, form.items? = none → motive form)
    (list : ∀ items, (∀ form ∈ items, motive form) → motive (.list items))
    (quote : ∀ items, (∀ form ∈ items, motive form) → motive (.quote items))
    (form : Form) : motive form :=
  match form with
  | .list items => list items fun form _ => induction_items atom list quote form
  | .quote items => quote items fun form _ => induction_items atom list quote form
  | .symbol _ => atom _ rfl
  | .number _ => atom _ rfl
  | .string _ => atom _ rfl
  | .bool _ => atom _ rfl
  | .function _ => atom _ rfl
  | .record _ => atom _ rfl
  | .external _ => atom _ rfl

/-- A property of all forms at the leaves. -/
inductive AllAtoms (p : Form → Prop) : Form → Prop where
  | atom {form : Form} : form.items? = none → p form → AllAtoms p form
  | list {items : List Form} : (∀ form ∈ items, AllAtoms p form) → AllAtoms p (.list items)
  | quote {items : List Form} : (∀ form ∈ items, AllAtoms p form) → AllAtoms p (.quote items)

namespace AllAtoms

variable {p q : Form → Prop} {form : Form} {items : List Form}

theorem atom_iff (h : form.items? = none) : AllAtoms p form ↔ p form := by
  constructor
  · intro hall
    cases hall with
    | atom _ hp => exact hp
    | list => simp [items?] at h
    | quote => simp [items?] at h
  · exact .atom h

@[simp] theorem list_iff : AllAtoms p (.list items) ↔ ∀ form ∈ items, AllAtoms p form := by
  constructor
  · intro hall
    cases hall with
    | atom h => simp [items?] at h
    | list hitems => exact hitems
  · exact .list

@[simp] theorem quote_iff : AllAtoms p (.quote items) ↔ ∀ form ∈ items, AllAtoms p form := by
  constructor
  · intro hall
    cases hall with
    | atom h => simp [items?] at h
    | quote hitems => exact hitems
  · exact .quote

theorem mono (h : AllAtoms p form) (hpq : ∀ form, p form → q form) : AllAtoms q form := by
  induction h with
  | atom hatom hp => exact .atom hatom (hpq _ hp)
  | list _ ih => exact .list ih
  | quote _ ih => exact .quote ih

end AllAtoms

mutual

/-- How many lists and quotes lie around the innermost form. -/
def depth : Form → Nat
  | .list items => depthOfItems items + 1
  | .quote items => depthOfItems items + 1
  | _ => 0

/-- The greatest depth of several forms. -/
def depthOfItems : List Form → Nat
  | [] => 0
  | form :: forms => max (depth form) (depthOfItems forms)

end

theorem depthOfItems_le_iff {items : List Form} {n : Nat} :
    depthOfItems items ≤ n ↔ ∀ form ∈ items, form.depth ≤ n := by
  induction items with
  | nil => simp [depthOfItems]
  | cons form items ih => rw [depthOfItems, Nat.max_le, ih, List.forall_mem_cons]

theorem depth_of_atom {form : Form} (h : form.items? = none) : form.depth = 0 := by
  cases form <;> simp_all [items?, depth]

theorem depth_list_le_iff {items : List Form} {n : Nat} :
    (Form.list items).depth ≤ n + 1 ↔ ∀ form ∈ items, form.depth ≤ n := by
  rw [depth, Nat.add_le_add_iff_right, depthOfItems_le_iff]

theorem depth_quote_le_iff {items : List Form} {n : Nat} :
    (Form.quote items).depth ≤ n + 1 ↔ ∀ form ∈ items, form.depth ≤ n := by
  rw [depth, Nat.add_le_add_iff_right, depthOfItems_le_iff]

end Sexp.Form
