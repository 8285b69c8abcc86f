import Sexp.Proofs.RoundTrip

namespace Sexp

open Grammar Text

variable {limit : NestingLimit}

namespace Decimal

/-- A decimal that is a number, finite or infinite. -/
def Numeric : Decimal → Prop
  | .nan _ _ _ => False
  | _ => True

theorem plain_canonical (value : Decimal) : value.canonical.plain = value.plain := by
  cases value with
  | infinity => rfl
  | nan => rfl
  | finite negative coefficient exponent limits =>
      obtain ⟨c, e, _, hcanonical, hreduce⟩ :=
        reduce_canonical negative coefficient exponent limits
      rw [hcanonical]
      simp only [plain, hreduce]
      by_cases hzero : coefficient = 0
      · rw [hzero, reduce_zero, if_pos rfl, if_pos rfl]
      · have hne : (coefficient != 0) = true := by simpa using hzero
        rw [hne, Bool.and_true]

/-- Finite decimals are read alike from their plain texts if they are reduced alike and
their signs agree, unless they are zero. -/
theorem canonical_finite_eq_iff {n n' : Bool} {c c' : Nat} {e e' : Int}
    {h : withinLimits c e = true} {h' : withinLimits c' e' = true} :
    canonical (.finite n c e h) = canonical (.finite n' c' e' h') ↔
      reduce c e = reduce c' e' ∧ (n = n' ∨ c = 0) := by
  constructor
  · intro heq
    obtain ⟨a, b, _, hcanonical, hreduce⟩ := reduce_canonical n c e h
    obtain ⟨a', b', _, hcanonical', hreduce'⟩ := reduce_canonical n' c' e' h'
    rw [hcanonical, hcanonical'] at heq
    obtain ⟨hsign, rfl, rfl⟩ := finite.inj heq
    have hsame := hreduce.symm.trans hreduce'
    refine ⟨hsame, ?_⟩
    by_cases hc : c = 0
    · exact .inr hc
    · have hne : (c != 0) = true := by simpa using hc
      have hne' : (c' != 0) = true := by simpa using mt (eq_zero_iff_of_reduce_eq hsame).2 hc
      rw [hne, hne', Bool.and_true, Bool.and_true] at hsign
      exact .inl hsign
  · rintro ⟨hsame, hsign⟩
    have hsigns : (n && c != 0) = (n' && c' != 0) := by
      rw [← reduce_fst_bne_zero c e, ← reduce_fst_bne_zero c' e', ← hsame]
      obtain rfl | rfl := hsign
      · rfl
      · simp [reduce_zero]
    simp only [canonical, hsigns, hsame]

theorem exists_equals {a b : Decimal} (ha : a.Numeric) (hb : b.Numeric) :
    ∃ result, equals a b = .ok result ∧ (result = true ↔ a.canonical = b.canonical) := by
  cases a with
  | nan => exact ha.elim
  | infinity n =>
      cases b with
      | nan => exact hb.elim
      | infinity n' => exact ⟨_, rfl, by simp [same, canonical]⟩
      | finite n' c e h =>
          obtain ⟨_, _, _, hcanonical, -⟩ := reduce_canonical n' c e h
          exact ⟨_, rfl, by rw [hcanonical]; simp [same, canonical]⟩
  | finite n c e h =>
      cases b with
      | nan => exact hb.elim
      | infinity n' =>
          obtain ⟨_, _, _, hcanonical, -⟩ := reduce_canonical n c e h
          exact ⟨_, rfl, by rw [hcanonical]; simp [same, canonical]⟩
      | finite n' c' e' h' =>
          exact ⟨_, rfl, by rw [canonical_finite_eq_iff]; simp [same]⟩

end Decimal

namespace Form

/-- A form without items that is neither a NaN nor a value from outside. -/
def ComparableAtom : Form → Prop
  | .number value => value.Numeric
  | .external _ => False
  | _ => True

/-- A tree of forms without a NaN among its numbers. -/
def Comparable (form : Form) : Prop :=
  form.AllAtoms ComparableAtom

theorem ReadableAtom.comparableAtom {form : Form} (h : form.ReadableAtom) :
    form.ComparableAtom := by
  cases form with
  | number value =>
      obtain ⟨_, _, _, _, rfl⟩ := h
      trivial
  | external => exact h.elim
  | _ => trivial

theorem Readable.comparable {form : Form} (h : form.Readable) : form.Comparable :=
  h.mono fun _ => ReadableAtom.comparableAtom

theorem text_canonical (form : Form) : form.canonical.text = form.text := by
  induction form using Form.induction_items with
  | atom form hatom =>
      cases form with
      | number value => exact Decimal.plain_canonical value
      | list => cases hatom
      | quote => cases hatom
      | _ => rfl
  | list items ih =>
      have htexts : items.map (text ∘ canonical) = items.map text := List.map_congr_left ih
      rw [canonical, canonicalItems_eq_map, text_list, text_list, List.map_map, htexts]
  | quote items ih =>
      have htexts : items.map (text ∘ canonical) = items.map text := List.map_congr_left ih
      rw [canonical, canonicalItems_eq_map, text_quote, text_quote, List.map_map, htexts]

/-- A form that can be compared with others, and is equal to those that are read alike
from their texts. -/
def Decided (f : Form) : Prop :=
  ∀ g : Form, g.Comparable →
    ∃ result, equals f g = .ok result ∧ (result = true ↔ f.canonical = g.canonical)

theorem exists_equalsItems {as bs : List Form} (has : ∀ a ∈ as, a.Decided)
    (hbs : ∀ b ∈ bs, b.Comparable) :
    ∃ result, equalsItems as bs = .ok result ∧
      (result = true ↔ as.map canonical = bs.map canonical) := by
  induction as generalizing bs with
  | nil => cases bs <;> exact ⟨_, rfl, by simp⟩
  | cons a as ih =>
      cases bs with
      | nil => exact ⟨_, rfl, by simp⟩
      | cons b bs =>
          rw [List.forall_mem_cons] at has hbs
          obtain ⟨first, hfirst, hsame⟩ := has.1 b hbs.1
          obtain ⟨others, hothers, hall⟩ := ih has.2 hbs.2
          refine ⟨first && others, ?_, ?_⟩
          · rw [equalsItems, hfirst]
            cases first
            · rfl
            · exact hothers
          · rw [Bool.and_eq_true, hsame, hall, List.map_cons, List.map_cons, List.cons.injEq]

theorem Comparable.decided {f : Form} (hf : f.Comparable) : f.Decided := by
  induction hf with
  | @atom f hatom hcomparable =>
      intro g hg
      cases f with
      | list => cases hatom
      | quote => cases hatom
      | external => exact hcomparable.elim
      | number a =>
          cases g with
          | number b =>
              have hb : b.Numeric := (AllAtoms.atom_iff rfl).1 hg
              obtain ⟨result, hequals, hsame⟩ := Decimal.exists_equals hcomparable hb
              exact ⟨result, hequals, hsame.trans (by simp [canonical])⟩
          | _ => exact ⟨false, rfl, by simp [canonical]⟩
      | _ => cases g <;> exact ⟨_, rfl, by simp [canonical]⟩
  | @list as _ ih =>
      intro g hg
      cases g with
      | list bs =>
          obtain ⟨result, hequals, hsame⟩ := exists_equalsItems ih (AllAtoms.list_iff.1 hg)
          exact ⟨result, hequals, hsame.trans (by simp [canonical, canonicalItems_eq_map])⟩
      | _ => exact ⟨false, rfl, by simp [canonical]⟩
  | @quote as _ ih =>
      intro g hg
      cases g with
      | quote bs =>
          obtain ⟨result, hequals, hsame⟩ := exists_equalsItems ih (AllAtoms.quote_iff.1 hg)
          exact ⟨result, hequals, hsame.trans (by simp [canonical, canonicalItems_eq_map])⟩
      | _ => exact ⟨false, rfl, by simp [canonical]⟩

theorem Comparable.equals_iff {f g : Form} (hf : f.Comparable) (hg : g.Comparable) :
    equals f g = .ok true ↔ f.canonical = g.canonical := by
  obtain ⟨result, hequals, hsame⟩ := hf.decided g hg
  rw [hequals, Except.ok.injEq, hsame]

/-- A form that some text yields. -/
def Yielded (limit : NestingLimit) (form : Form) : Prop :=
  ∃ (source : List Char) (traced : Bool),
    Item.form form ∈ (FormStream.start source traced limit).drain.items

theorem Readable.readAll_print {form : Form} (h : form.Readable)
    (hdepth : form.depth ≤ limit.levels) :
    readAll form.print.toList limit = .ok [form.canonical] := by
  have hlayout : Layout [form] form.print.toList := by
    rw [print, String.toList_ofList]
    exact .of_arranged (.single (.print form))
  exact hlayout.readAll_eq (List.forall_mem_singleton.2 h) (List.forall_mem_singleton.2 hdepth)

theorem Yielded.of_readAll {source : List Char} {forms : List Form}
    (h : readAll source limit = .ok forms) {form : Form} (hform : form ∈ forms) :
    form.Yielded limit := by
  refine ⟨source, false, ?_⟩
  rw [Item.eq_map_form_of_collect h]
  exact List.mem_map_of_mem hform

theorem Yielded.readable {form : Form} (h : form.Yielded limit) :
    form.Readable ∧ form.depth ≤ limit.levels := by
  obtain ⟨source, traced, hmem⟩ := h
  obtain ⟨s, hlimit, hs⟩ := FormStream.exists_next_of_mem_drain hmem
  obtain ⟨m, hm, rfl⟩ := FormStream.exists_expression_of_next hs
  rw [hlimit] at hm
  exact ⟨readable_of_expression hm, depth_le_of_expression hm⟩

theorem Yielded.comparable {form : Form} (h : form.Yielded limit) : form.Comparable :=
  h.readable.1.comparable

theorem Readable.canonical_eq_of_print_eq {f g : Form} (hf : f.Readable)
    (hfdepth : f.depth ≤ limit.levels) (hg : g.Readable) (hgdepth : g.depth ≤ limit.levels)
    (h : f.print = g.print) : f.canonical = g.canonical := by
  have hread := hf.readAll_print hfdepth
  rw [h, hg.readAll_print hgdepth, Except.ok.injEq, List.cons.injEq] at hread
  exact hread.1.symm

/-- Forms that were read have one source text if and only if they are equal, and reading
that text and printing it again changes nothing.  Equality is defined for all forms
without a NaN, and is an equivalence relation among them. -/
theorem print_eq_iff_equals :
    (∀ (limit limit' : NestingLimit) (f g : Form), f.Yielded limit → g.Yielded limit' →
      (f.print = g.print ↔ equals f g = .ok true)) ∧
    (∀ (limit : NestingLimit) (form : Form), form.Yielded limit →
      ∃ again, readAll form.print.toList limit = .ok [again] ∧ equals again form = .ok true ∧
        again.print = form.print) ∧
    (∀ f g : Form, f.Comparable → g.Comparable → ∃ result, equals f g = .ok result) ∧
    Equivalence fun f g : {form : Form // form.Comparable} => equals f.1 g.1 = .ok true := by
  refine ⟨fun limit limit' f g hf hg => ?_, fun limit form h => ?_, fun f g hf hg => ?_,
    ?_, ?_, ?_⟩
  · rw [hf.comparable.equals_iff hg.comparable]
    constructor
    · intro htext
      obtain ⟨hfread, hfdepth⟩ := hf.readable
      obtain ⟨hgread, hgdepth⟩ := hg.readable
      -- both are read again under the greater one of the limits
      obtain hle | hle := Nat.le_total limit.levels limit'.levels
      · exact hfread.canonical_eq_of_print_eq (hfdepth.trans hle) hgread hgdepth htext
      · exact hfread.canonical_eq_of_print_eq hfdepth hgread (hgdepth.trans hle) htext
    · intro hcanonical
      rw [print, print, ← text_canonical f, hcanonical, text_canonical]
  · have hequals := h.readable.1.equals_canonical
    refine ⟨form.canonical, h.readable.1.readAll_print h.readable.2, hequals, ?_⟩
    rw [print, print, text_canonical]
  · obtain ⟨result, hequals, -⟩ := hf.decided g hg
    exact ⟨result, hequals⟩
  · intro f
    exact (f.2.equals_iff f.2).2 rfl
  · intro f g h
    rw [f.2.equals_iff g.2] at h
    exact (g.2.equals_iff f.2).2 h.symm
  · intro f g k hfg hgk
    rw [f.2.equals_iff g.2] at hfg
    rw [g.2.equals_iff k.2] at hgk
    exact (f.2.equals_iff k.2).2 (hfg.trans hgk)

/-- A tuple that is written with its own mark and as a list, and whose numbers are
written in two ways. -/
theorem print_eq_iff_equals_tuple :
    ∃ f g : Form, readAll "^(1.50 -0.0)".toList .standard = .ok [f] ∧
      readAll "(tuple 15e-1 0)".toList .standard = .ok [g] ∧ f.print = g.print ∧
      (∃ again, readAll f.print.toList .standard = .ok [again] ∧ equals again f = .ok true ∧
        again.print = f.print) ∧ ∃ result, equals f g = .ok result := by
  have hread : readAll "^(1.50 -0.0)".toList .standard = .ok [.list [.symbol "tuple",
      .number (.finite false 150 (-2)), .number (.finite true 0 (-1))]] := by
    with_unfolding_all rfl
  have hread' : readAll "(tuple 15e-1 0)".toList .standard = .ok [.list [.symbol "tuple",
      .number (.finite false 15 (-1)), .number (.finite false 0 0)]] := by
    with_unfolding_all rfl
  have hf := Yielded.of_readAll hread (List.mem_singleton_self _)
  have hg := Yielded.of_readAll hread' (List.mem_singleton_self _)
  have hequal : equals (.list [.symbol "tuple", .number (.finite false 150 (-2)),
      .number (.finite true 0 (-1))]) (.list [.symbol "tuple", .number (.finite false 15 (-1)),
      .number (.finite false 0 0)]) = .ok true := by
    decide +kernel
  obtain ⟨hprint, hagain, hdefined, -⟩ := print_eq_iff_equals
  exact ⟨_, _, hread, hread', (hprint _ _ _ _ hf hg).2 hequal, hagain _ _ hf,
    hdefined _ _ hf.comparable hg.comparable⟩

end Form

end Sexp
