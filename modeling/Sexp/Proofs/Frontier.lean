import Mathlib.Logic.Relation
import Sexp.Proofs.Locality

/-!
# Frontiers

How far a text is read, one token at a time: the forms that are complete and the
forms that are still open around the place that is reached.  Each token moves the
frontier by one step, until no token can be taken any more.
-/

namespace Sexp

open Grammar Text

/-- The forms that are complete in the innermost open form, the open forms from the
innermost one outwards, each with the forms in front of it, and the place reached. -/
structure Frontier where
  items : List Form
  opened : List (Bracket × List Form)
  cursor : Cursor

namespace Frontier

/-- The frontier before any token is taken. -/
def start (source : List Char) : Frontier :=
  ⟨[], [], Cursor.skip ⟨0, source⟩⟩

/-- What a token does.  A parenthesis closes the innermost open form, which then is
one more item of the form around it. -/
def take? (s : Frontier) (next : Cursor) : Token → Option Frontier
  | .opening b => some ⟨[], (b, s.items) :: s.opened, next⟩
  | .atom form => some ⟨s.items ++ [form], s.opened, next⟩
  | .closing =>
      match s.opened with
      | [] => none
      | (b, before) :: outer => some ⟨before ++ [b.build s.items], outer, next⟩

/-- Take the token at the frontier and the ignorable text behind it. -/
def step? (s : Frontier) : Option Frontier :=
  match token s.cursor with
  | .matched m => s.take? m.next.skip m.value
  | .failed _ => none
  | .tooDeep => none

/-- The labels of open forms, from the outermost to the innermost. -/
def labelsOf (opened : List (Bracket × List Form)) : List Label :=
  (opened.map fun o => o.1.label).reverse

def labels (s : Frontier) : List Label :=
  labelsOf s.opened

/-- The complete forms that lie in no open form. -/
def completed (s : Frontier) : List Form :=
  (s.opened.getLast?.map Prod.snd).getD s.items

theorem completed_cons (items items' : List Form) (o : Bracket × List Form)
    (opened : List (Bracket × List Form)) (c c' : Cursor) :
    completed ⟨items, o :: opened, c⟩ = completed ⟨items', o :: opened, c'⟩ := by
  simp only [completed, List.getLast?_cons, Option.map_some, Option.getD_some]

theorem completed_opening (s : Frontier) (b : Bracket) (items : List Form) (c : Cursor) :
    completed ⟨items, (b, s.items) :: s.opened, c⟩ = s.completed := by
  simp only [completed, List.getLast?_cons, Option.map_some, Option.getD_some]
  cases s.opened.getLast? <;> rfl

theorem step?_eq_some_iff {s t : Frontier} :
    s.step? = some t ↔
      ∃ m, token s.cursor = .matched m ∧ s.take? m.next.skip m.value = some t := by
  unfold step?
  cases token s.cursor <;> simp

theorem step?_eq_none {s : Frontier} {f : Failure} (h : token s.cursor = .failed f) :
    s.step? = none := by
  simp only [step?, h]

theorem cursor_take? {s t : Frontier} {next : Cursor} {tok : Token}
    (h : s.take? next tok = some t) : t.cursor = next := by
  unfold take? at h
  split at h
  · cases h; rfl
  · cases h; rfl
  · split at h <;> cases h
    rfl

theorem take?_with_cursor {s t : Frontier} {next : Cursor} {tok : Token}
    (h : s.take? next tok = some t) (c next' : Cursor) :
    take? { s with cursor := c } next' tok = some { t with cursor := next' } := by
  unfold take? at h ⊢
  split at h
  · cases h; rfl
  · cases h; rfl
  · split at h <;> cases h
    rename_i hopened
    simp only [hopened]

theorem precedes_step? {s t : Frontier} (h : s.step? = some t) :
    s.cursor.Precedes t.cursor ∧ t.cursor.rest.length < s.cursor.rest.length := by
  obtain ⟨m, htoken, htake⟩ := step?_eq_some_iff.1 h
  obtain ⟨hprecedes, hless⟩ := precedes_of_token htoken
  have hskip := s.cursor.length_rest_skip_le
  have hbehind := m.next.length_rest_skip_le
  rw [cursor_take? htake]
  exact ⟨((Cursor.Precedes.skip _).trans hprecedes).trans (.skip _), by omega⟩

theorem skip_cursor_of_step? {s t : Frontier} (h : s.step? = some t) :
    t.cursor.skip = t.cursor := by
  obtain ⟨m, -, htake⟩ := step?_eq_some_iff.1 h
  rw [cursor_take? htake, Cursor.skip_skip]

/-- The frontier when no token can be taken any more. -/
def final (s : Frontier) : Frontier :=
  match _ : s.step? with
  | some t => final t
  | none => s
termination_by s.cursor.rest.length
decreasing_by exact (precedes_step? (by assumption)).2

/-- How many forms are open at once, from the frontier to where it ends. -/
def nesting (s : Frontier) : Nat :=
  match _ : s.step? with
  | some t => max s.opened.length (nesting t)
  | none => s.opened.length
termination_by s.cursor.rest.length
decreasing_by exact (precedes_step? (by assumption)).2

theorem final_of_some {s t : Frontier} (h : s.step? = some t) : s.final = t.final := by
  rw [final]
  split <;> simp_all

theorem final_of_none {s : Frontier} (h : s.step? = none) : s.final = s := by
  rw [final]
  split <;> simp_all

theorem nesting_of_some {s t : Frontier} (h : s.step? = some t) :
    s.nesting = max s.opened.length t.nesting := by
  rw [nesting]
  split <;> simp_all

theorem nesting_of_none {s : Frontier} (h : s.step? = none) :
    s.nesting = s.opened.length := by
  rw [nesting]
  split <;> simp_all

theorem length_opened_le_nesting (s : Frontier) : s.opened.length ≤ s.nesting := by
  cases h : s.step? with
  | none => rw [nesting_of_none h]
  | some t =>
      rw [nesting_of_some h]
      exact Nat.le_max_left _ _

/-- One frontier is reached from another one. -/
abbrev Leads : Frontier → Frontier → Prop :=
  Relation.ReflTransGen fun s t => s.step? = some t

theorem leads_final (s : Frontier) : s.Leads s.final := by
  fun_induction final s with
  | case1 s t h ih => exact .head h ih
  | case2 => exact .refl

namespace Leads

variable {s t : Frontier}

theorem final_eq (h : s.Leads t) : s.final = t.final := by
  induction h with
  | refl => rfl
  | tail _ hstep ih => exact ih.trans (final_of_some hstep)

theorem final_eq_of_none (h : s.Leads t) (ht : t.step? = none) : s.final = t :=
  h.final_eq.trans (final_of_none ht)

theorem nesting_le (h : s.Leads t) : t.nesting ≤ s.nesting := by
  induction h with
  | refl => exact Nat.le_refl _
  | tail _ hstep ih => exact (nesting_of_some hstep ▸ Nat.le_max_right _ _).trans ih

theorem length_opened_le (h : s.Leads t) : t.opened.length ≤ s.nesting :=
  t.length_opened_le_nesting.trans h.nesting_le

theorem precedes (h : s.Leads t) : s.cursor.Precedes t.cursor := by
  induction h with
  | refl => exact .refl _
  | tail _ hstep ih => exact ih.trans (precedes_step? hstep).1

theorem skip_cursor (h : s.Leads t) (hs : s.cursor.skip = s.cursor) :
    t.cursor.skip = t.cursor := by
  cases h with
  | refl => exact hs
  | tail _ hstep => exact skip_cursor_of_step? hstep

end Leads

/-- One frontier is reached from another one by steps behind which as many forms are
open as given. -/
abbrev LeadsVia (p : Nat → Prop) : Frontier → Frontier → Prop :=
  Relation.ReflTransGen fun s t => s.step? = some t ∧ p t.opened.length

/-- There is only one way on from a frontier. -/
theorem Leads.total {s t u : Frontier} (ht : s.Leads t) (hu : s.Leads u) :
    t.Leads u ∨ u.Leads t := by
  refine Relation.ReflTransGen.total_of_right_unique ?_ ht hu
  intro s t u hstep hstep'
  exact Option.some.inj (hstep.symm.trans hstep')

theorem Leads.antisymm {s t : Frontier} (h : s.Leads t) (h' : t.Leads s) : s = t := by
  cases h using Relation.ReflTransGen.head_induction_on with
  | refl => rfl
  | @head s u hstep hlater =>
      have hback := (Leads.precedes hlater).length_rest_le.trans' h'.precedes.length_rest_le
      exact absurd (precedes_step? hstep).2 (Nat.not_lt.2 hback)

theorem Leads.of_step {s t u : Frontier} (hstep : s.step? = some t) (h : s.Leads u)
    (hne : u ≠ s) : t.Leads u := by
  cases h using Relation.ReflTransGen.head_induction_on with
  | refl => exact absurd rfl hne
  | head hstep' hlater => exact Option.some.inj (hstep'.symm.trans hstep) ▸ hlater

theorem Leads.eq_of_none {s t : Frontier} (h : s.Leads t) (hstuck : s.step? = none) : t = s := by
  cases h using Relation.ReflTransGen.head_induction_on with
  | refl => rfl
  | head hstep => rw [hstuck] at hstep; cases hstep

namespace LeadsVia

variable {p q : Nat → Prop} {s t u : Frontier}

theorem leads (h : s.LeadsVia p t) : s.Leads t :=
  h.lift id fun _ _ hstep => hstep.1

theorem imp (h : s.LeadsVia p t) (hpq : ∀ k, p k → q k) : s.LeadsVia q t :=
  h.lift id fun _ _ hstep => ⟨hstep.1, hpq _ hstep.2⟩

theorem head (hstep : s.step? = some t) (ht : p t.opened.length) (h : t.LeadsVia p u) :
    s.LeadsVia p u :=
  Relation.ReflTransGen.head ⟨hstep, ht⟩ h

theorem tail (h : s.LeadsVia p t) (hstep : t.step? = some u) (hu : p u.opened.length) :
    s.LeadsVia p u :=
  Relation.ReflTransGen.tail h ⟨hstep, hu⟩

theorem between (h : s.LeadsVia p t) (hu : s.Leads u) (ht : u.Leads t) :
    u = s ∨ p u.opened.length := by
  induction h using Relation.ReflTransGen.head_induction_on with
  | refl => exact .inl (ht.antisymm hu)
  | @head s s' hstep _ ih =>
      by_cases hne : u = s
      · exact .inl hne
      · obtain rfl | hopened := ih (hu.of_step hstep.1 hne)
        · exact .inr hstep.2
        · exact .inr hopened

theorem split (h : s.LeadsVia p t) (q : Nat → Prop) :
    s.LeadsVia (fun k => p k ∧ q k) t ∨
      ∃ u v, s.LeadsVia (fun k => p k ∧ q k) u ∧ u.step? = some v ∧ p v.opened.length ∧
        ¬q v.opened.length := by
  induction h with
  | refl => exact .inl .refl
  | @tail u v _ hstep ih =>
      obtain hleads | hbreak := ih
      · by_cases hq : q v.opened.length
        · exact .inl (hleads.tail hstep.1 ⟨hstep.2, hq⟩)
        · exact .inr ⟨u, v, hleads, hstep.1, hstep.2, hq⟩
      · exact .inr hbreak

theorem length_opened_le {n : Nat} (h : s.LeadsVia (· ≤ n) t) (hs : s.opened.length ≤ n)
    (hstuck : t.step? = none) (hu : s.Leads u) : u.opened.length ≤ n := by
  have ht : u.Leads t := by
    obtain htu | hut := h.leads.total hu
    · exact htu.eq_of_none hstuck ▸ .refl
    · exact hut
  obtain rfl | hopened := h.between hu ht
  · exact hs
  · exact hopened

theorem nesting_le {n : Nat} (h : s.LeadsVia (· ≤ n) t) (hs : s.opened.length ≤ n) :
    s.nesting ≤ max n t.nesting := by
  induction h using Relation.ReflTransGen.head_induction_on with
  | refl => exact Nat.le_max_right _ _
  | head hstep _ ih =>
      rw [nesting_of_some hstep.1]
      exact Nat.max_le.2 ⟨hs.trans (Nat.le_max_left _ _), ih hstep.2⟩

end LeadsVia

theorem Leads.via_nesting {s t : Frontier} (h : s.Leads t) : s.LeadsVia (· ≤ s.nesting) t := by
  induction h with
  | refl => exact .refl
  | tail hleads hstep ih => exact ih.tail hstep (Leads.length_opened_le (hleads.tail hstep))

/-- The same forms, complete and open, with other text behind them. -/
def withCursor (s : Frontier) (c : Cursor) : Frontier :=
  { s with cursor := c.skip }

theorem step?_withCursor {s t : Frontier} {c next behind : Cursor} {tok : Token}
    {stoppedBy : Option Failure} (htoken : token c = .matched ⟨tok, next, stoppedBy⟩)
    (htake : s.take? behind tok = some t) :
    (s.withCursor c).step? = some (t.withCursor next) := by
  rw [step?_eq_some_iff]
  exact ⟨_, (token_skip c).trans htoken, take?_with_cursor htake _ _⟩

theorem step?_withCursor_eq_none {s : Frontier} {c : Cursor} {f : Failure}
    (h : token c = .failed f) : (s.withCursor c).step? = none :=
  step?_eq_none ((token_skip c).trans h)

section Swap

variable {tail tail' : List Char} {s t : Frontier} {pos pos' : Nat} {text later : List Char}

theorem LeadsVia.swap (hswap : TailSwap tail tail') {p : Nat → Prop} (h : s.LeadsVia p t)
    (hs : s.cursor = ⟨pos, text ++ tail⟩) (ht : t.cursor = ⟨pos', later ++ tail⟩) :
    (s.withCursor ⟨pos, text ++ tail'⟩).LeadsVia p (t.withCursor ⟨pos', later ++ tail'⟩) := by
  induction h using Relation.ReflTransGen.head_induction_on generalizing pos text with
  | refl =>
      have hcursor := hs.symm.trans ht
      simp only [Cursor.mk.injEq, List.append_cancel_right_eq] at hcursor
      rw [hcursor.1, hcursor.2]
  | @head s u hstep hlater ih =>
      obtain ⟨⟨tok, next, stoppedBy⟩, htoken, htake⟩ := step?_eq_some_iff.1 hstep.1
      have hu : u.cursor = next.skip := cursor_take? htake
      have hreach : u.cursor.Precedes t.cursor := (LeadsVia.leads hlater).precedes
      -- the token ends in front of the tail, because the last frontier does
      have hend : tail.length ≤ u.cursor.rest.length := by
        refine le_trans ?_ hreach.length_rest_le
        simp [ht]
      have hnext : Cursor.Precedes ⟨pos, text ++ tail⟩ next :=
        hs ▸ (Cursor.Precedes.skip _).trans (precedes_of_token htoken).1
      rw [hu] at hend
      obtain ⟨taken, between, rfl, rfl⟩ :=
        hnext.exists_append (hend.trans (Cursor.length_rest_skip_le _))
      obtain ⟨ignored, text', rfl, hskip⟩ := (Cursor.Precedes.skip _).exists_append hend
      rw [hs] at htoken
      have hstep' := step?_withCursor (hswap.token_append htoken) htake
      have hcursor : u.withCursor ⟨pos + taken.length, (ignored ++ text') ++ tail'⟩ =
          u.withCursor ⟨pos + taken.length + ignored.length, text' ++ tail'⟩ :=
        congrArg (fun c => { u with cursor := c }) (hswap.skip_append hskip)
      rw [hcursor] at hstep'
      exact .head hstep' hstep.2 (ih (hu.trans hskip))

theorem Leads.swap (hswap : TailSwap tail tail') (h : s.Leads t)
    (hs : s.cursor = ⟨pos, text ++ tail⟩) (ht : t.cursor = ⟨pos', later ++ tail⟩) :
    (s.withCursor ⟨pos, text ++ tail'⟩).Leads (t.withCursor ⟨pos', later ++ tail'⟩) ∧
      (s.withCursor ⟨pos, text ++ tail'⟩).nesting ≤
        max s.nesting (t.withCursor ⟨pos', later ++ tail'⟩).nesting := by
  have hvia := h.via_nesting.swap hswap hs ht
  exact ⟨hvia.leads, hvia.nesting_le s.length_opened_le_nesting⟩

end Swap

section Start

variable {source : List Char} {t : Frontier}

theorem Leads.rest_eq_drop (h : (start source).Leads t) :
    t.cursor.rest = source.drop t.cursor.pos ∧
      t.cursor.pos + t.cursor.rest.length = source.length := by
  have hprecedes := (Cursor.Precedes.skip ⟨0, source⟩).trans h.precedes
  refine ⟨congrArg Cursor.rest hprecedes.eq_ofText.1, ?_⟩
  exact hprecedes.pos_add_length.symm.trans (Nat.zero_add _)

theorem Leads.start_swap (h : (start source).Leads t) {tail' : List Char}
    (hswap : TailSwap t.cursor.rest tail') :
    (start (source.take t.cursor.pos ++ tail')).Leads (t.withCursor ⟨t.cursor.pos, tail'⟩) ∧
      (start (source.take t.cursor.pos ++ tail')).nesting ≤
        max (start source).nesting (t.withCursor ⟨t.cursor.pos, tail'⟩).nesting := by
  have hsource : source.take t.cursor.pos ++ t.cursor.rest = source := by
    rw [h.rest_eq_drop.1, List.take_append_drop]
  generalize source.take t.cursor.pos = text at hsource ⊢
  subst hsource
  obtain ⟨taken, later, rfl, hskip⟩ :=
    (Cursor.Precedes.skip ⟨0, text ++ t.cursor.rest⟩).exists_append h.precedes.length_rest_le
  have hstart : start (taken ++ later ++ tail') =
      (start (taken ++ later ++ t.cursor.rest)).withCursor ⟨0 + taken.length, later ++ tail'⟩ :=
    congrArg (Frontier.mk [] []) (hswap.skip_append hskip)
  have hend : t.cursor = ⟨t.cursor.pos, [] ++ t.cursor.rest⟩ := rfl
  rw [hstart]
  exact h.swap hswap hskip hend

end Start

end Frontier

end Sexp
