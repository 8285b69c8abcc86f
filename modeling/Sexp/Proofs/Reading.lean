import Sexp.Proofs.Dispatch

namespace Sexp.Grammar

open Sexp.Text

theorem parenthesized_eq_matched_iff {contents : Recognizer α} {c : Cursor} {m : Match α} :
    parenthesized contents c = .matched m ↔
      ∃ cs inner behind, c.rest = '(' :: cs ∧
        contents (Cursor.skip ⟨c.pos + 1, cs⟩) = .matched inner ∧
        inner.next.skip.rest = ')' :: behind ∧
        m = ⟨inner.value, ⟨inner.next.skip.pos + 1, behind⟩, none⟩ := by
  constructor
  · intro h
    unfold parenthesized at h
    split at h
    · rename_i inside hinside
      obtain ⟨hopen, hpos⟩ := Cursor.after?_eq_some_iff.1 hinside
      obtain ⟨inner, hinner, hclose⟩ := Reply.bind_eq_matched_iff.1 h
      unfold closeParen at hclose
      dsimp only at hclose
      split at hclose
      · rename_i next hnext
        obtain ⟨hclosed, hnextpos⟩ := Cursor.after?_eq_some_iff.1 hnext
        have hcursor : inside = ⟨c.pos + 1, inside.rest⟩ := by
          rw [show c.pos + 1 = inside.pos from hpos.symm]
        refine ⟨inside.rest, inner, next.rest, hopen, hcursor ▸ hinner, hclosed, ?_⟩
        rw [found_eq_matched_iff.1 hclose, show inner.next.skip.pos + 1 = next.pos from
          hnextpos.symm]
      · simp at hclose
    · exact absurd h expected_ne_matched
  · rintro ⟨cs, inner, behind, hopen, hinner, hclosed, rfl⟩
    simp only [parenthesized, after?_of_rest hopen, hinner, Reply.bind_matched, closeParen,
      after?_of_rest hclosed]
    rfl

/-- The ways in which a form is found at a cursor, and the cursor behind it. -/
inductive FoundAt (contents : Recognizer (List Form)) (c : Cursor) : Form → Cursor → Prop where
  | list {cs : List Char} {m : Match (List Form)} : c.rest = '(' :: cs →
      parenthesized contents c = .matched m → FoundAt contents c (.list m.value) m.next
  | quote {cs : List Char} {m : Match (List Form)} : c.rest = '\'' :: cs →
      parenthesized contents ⟨c.pos + 1, cs⟩ = .matched m →
      FoundAt contents c (.quote m.value) m.next
  | tuple {cs : List Char} {m : Match (List Form)} : c.rest = '^' :: cs →
      parenthesized contents ⟨c.pos + 1, cs⟩ = .matched m →
      FoundAt contents c (Form.tupleForm m.value) m.next
  | string {cs : List Char} {m : Match (List Char)} : c.rest = '"' :: cs →
      stringBody (c.pos + 1) cs = .matched m →
      FoundAt contents c (.string (String.ofList m.value)) m.next
  | bare {ch : Char} {cs : List Char} : c.rest = ch :: cs → isSymbolChar ch = true →
      ch ∉ marks → FoundAt contents c (bare c).value (bare c).next

section FoundAt

variable {contents : Recognizer (List Form)} {c : Cursor} {m : Match Form}

theorem marked_of_rest {mark : Char} {shape : Shape} {build : List Form → Form}
    {cs : List Char} (hrest : c.rest = mark :: cs) :
    marked mark shape build contents c =
      ((parenthesized contents ⟨c.pos + 1, cs⟩).mapFailure fun f =>
        f.commit.within (.form shape)).map build := by
  simp only [marked, after?_of_rest hrest]

theorem marked_eq_matched_iff {mark : Char} {shape : Shape} {build : List Form → Form}
    {cs : List Char} (hrest : c.rest = mark :: cs) :
    marked mark shape build contents c = .matched m ↔
      ∃ n, parenthesized contents ⟨c.pos + 1, cs⟩ = .matched n ∧
        m = ⟨build n.value, n.next, n.stoppedBy⟩ := by
  simp only [marked_of_rest hrest, Reply.map_eq_matched_iff, Reply.mapFailure_eq_matched_iff]

theorem listOf_eq_matched_iff :
    listOf contents c = .matched m ↔
      ∃ n, parenthesized contents c = .matched n ∧
        m = ⟨.list n.value, n.next, n.stoppedBy⟩ := by
  simp only [listOf, Reply.map_eq_matched_iff, Reply.mapFailure_eq_matched_iff]

theorem string_eq_matched_iff {cs : List Char} (hrest : c.rest = '"' :: cs) :
    string c = .matched m ↔
      ∃ n, stringBody (c.pos + 1) cs = .matched n ∧
        m = ⟨.string (String.ofList n.value), n.next, n.stoppedBy⟩ := by
  simp only [string, after?_of_rest hrest, Reply.map_eq_matched_iff]

theorem Reply.skipBehind_eq_matched_iff {reply : Reply α} {m : Match α} :
    reply.skipBehind = .matched m ↔
      ∃ n, reply = .matched n ∧ m = ⟨n.value, n.next.skip, none⟩ := by
  simp only [skipBehind, bind_eq_matched_iff, found_eq_matched_iff]

theorem expressionOf_eq_matched_iff (hcontents : NeverBacktracks contents) :
    expressionOf contents c = .matched m ↔
      ∃ form next, FoundAt contents c.skip form next ∧ m = ⟨form, next.skip, none⟩ := by
  constructor
  · intro h
    cases hrest : c.skip.rest with
    | nil =>
        rw [expressionOf_none (by simp [hrest])] at h
        exact absurd h expected_ne_matched
    | cons ch cs =>
        by_cases hmark : ch ∈ marks
        · simp only [marks, List.mem_cons, List.not_mem_nil, or_false] at hmark
          rcases hmark with rfl | rfl | rfl | rfl | rfl
          · rw [expressionOf_list hcontents hrest] at h
            obtain ⟨n, hn, rfl⟩ := Reply.skipBehind_eq_matched_iff.1 h
            obtain ⟨k, hk, rfl⟩ := listOf_eq_matched_iff.1 hn
            exact ⟨_, _, .list hrest hk, rfl⟩
          · rw [expressionOf_none (by simp [hrest])] at h
            exact absurd h expected_ne_matched
          · rw [expressionOf_quote hrest] at h
            obtain ⟨n, hn, rfl⟩ := Reply.skipBehind_eq_matched_iff.1 h
            obtain ⟨k, hk, rfl⟩ := (marked_eq_matched_iff hrest).1 hn
            exact ⟨_, _, .quote hrest hk, rfl⟩
          · rw [expressionOf_tuple hrest] at h
            obtain ⟨n, hn, rfl⟩ := Reply.skipBehind_eq_matched_iff.1 h
            obtain ⟨k, hk, rfl⟩ := (marked_eq_matched_iff hrest).1 hn
            exact ⟨_, _, .tuple hrest hk, rfl⟩
          · rw [expressionOf_string hrest] at h
            obtain ⟨n, hn, rfl⟩ := Reply.skipBehind_eq_matched_iff.1 h
            obtain ⟨k, hk, rfl⟩ := (string_eq_matched_iff hrest).1 hn
            exact ⟨_, _, .string hrest hk, rfl⟩
        · rw [expressionOf_bare hrest hmark] at h
          obtain ⟨hblank, hcomment⟩ := head_skip hrest
          exact ⟨_, _, .bare hrest (isSymbolChar_of_not_mark hblank hcomment hmark) hmark,
            found_eq_matched_iff.1 h⟩
  · rintro ⟨form, next, hfound, rfl⟩
    cases hfound with
    | list hrest hm =>
        rw [expressionOf_list hcontents hrest, Reply.skipBehind_eq_matched_iff]
        exact ⟨_, listOf_eq_matched_iff.2 ⟨_, hm, rfl⟩, rfl⟩
    | quote hrest hm =>
        rw [expressionOf_quote hrest, Reply.skipBehind_eq_matched_iff]
        exact ⟨_, (marked_eq_matched_iff hrest).2 ⟨_, hm, rfl⟩, rfl⟩
    | tuple hrest hm =>
        rw [expressionOf_tuple hrest, Reply.skipBehind_eq_matched_iff]
        exact ⟨_, (marked_eq_matched_iff hrest).2 ⟨_, hm, rfl⟩, rfl⟩
    | string hrest hm =>
        rw [expressionOf_string hrest, Reply.skipBehind_eq_matched_iff]
        exact ⟨_, (string_eq_matched_iff hrest).2 ⟨_, hm, rfl⟩, rfl⟩
    | bare hrest hch hmark => rw [expressionOf_bare hrest hmark, found]

end FoundAt

theorem repeated_values {item : Recognizer α} {p : α → Prop}
    (hitem : ∀ c m, item c = .matched m → p m.value) {c : Cursor} {m : Match (List α)}
    (h : repeated item c = .matched m) : ∀ value ∈ m.value, p value := by
  fun_induction repeated item c generalizing m with
  | case1 => simp at h
  | case2 => simp at h
  | case3 =>
      cases h
      simp
  | case4 c n hn hless ih =>
      obtain ⟨k, hk, rfl⟩ := Reply.map_eq_matched_iff.1 h
      intro value hvalue
      rcases List.mem_cons.1 hvalue with rfl | hvalue
      · exact hitem c n hn
      · exact ih hk value hvalue
  | case5 =>
      cases found_eq_matched_iff.1 h
      simp

/-- What holds of every form that is found, if it holds of the forms inside it
with one parenthesis less, holds of every form that is read. -/
theorem expression_induction {motive : Nat → Form → Prop}
    (string : ∀ depth pos cs m, stringBody pos cs = .matched m →
      motive depth (.string (String.ofList m.value)))
    (bare : ∀ depth (c : Cursor) ch cs, c.rest = ch :: cs → isSymbolChar ch = true →
      ch ∉ marks → motive depth (bare c).value)
    (list : ∀ depth items, (∀ form ∈ items, motive depth form) →
      motive (depth + 1) (.list items))
    (quote : ∀ depth items, (∀ form ∈ items, motive depth form) →
      motive (depth + 1) (.quote items))
    (tuple : ∀ depth items, (∀ form ∈ items, motive depth form) →
      motive (depth + 1) (Form.tupleForm items))
    (depth : Nat) {c : Cursor} {m : Match Form} (h : expression depth c = .matched m) :
    motive depth m.value := by
  induction depth generalizing c m with
  | zero =>
      obtain ⟨form, next, hfound, rfl⟩ :=
        (expressionOf_eq_matched_iff (forms_neverBacktracks 0)).1 h
      -- no parenthesis can be opened, so that only the atoms are left
      have hnever : ∀ {d : Cursor} {n : Match (List Form)},
          parenthesized (forms 0) d ≠ .matched n := by
        intro d n hn
        obtain ⟨cs, inner, behind, -, hinner, -⟩ := parenthesized_eq_matched_iff.1 hn
        simp [forms] at hinner
      cases hfound with
      | list _ hm => exact absurd hm hnever
      | quote _ hm => exact absurd hm hnever
      | tuple _ hm => exact absurd hm hnever
      | string _ hm => exact string _ _ _ _ hm
      | bare hrest hch hmark => exact bare _ _ _ _ hrest hch hmark
  | succ depth ih =>
      obtain ⟨form, next, hfound, rfl⟩ :=
        (expressionOf_eq_matched_iff (forms_neverBacktracks (depth + 1))).1 h
      have hitems : ∀ {d : Cursor} {n : Match (List Form)},
          parenthesized (forms (depth + 1)) d = .matched n →
          ∀ form ∈ n.value, motive depth form := by
        intro d n hn
        obtain ⟨cs, inner, behind, -, hinner, -, rfl⟩ := parenthesized_eq_matched_iff.1 hn
        rw [forms_succ] at hinner
        have hall := repeated_values (p := motive depth) (fun _ _ hitem => ih hitem) hinner
        exact hall
      cases hfound with
      | list _ hm => exact list _ _ (hitems hm)
      | quote _ hm => exact quote _ _ (hitems hm)
      | tuple _ hm => exact tuple _ _ (hitems hm)
      | string _ hm => exact string _ _ _ _ hm
      | bare hrest hch hmark => exact bare _ _ _ _ hrest hch hmark

end Sexp.Grammar
