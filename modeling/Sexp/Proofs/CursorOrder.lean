import Sexp.Proofs.Reply

namespace Sexp

open Text

/-- One cursor is reached from another one by taking text. -/
def Text.Cursor.Precedes (c d : Cursor) : Prop :=
  ∃ taken, c.rest = taken ++ d.rest ∧ d.pos = c.pos + taken.length

namespace Text.Cursor.Precedes

variable {c d e : Cursor}

theorem refl (c : Cursor) : c.Precedes c :=
  ⟨[], rfl, rfl⟩

theorem trans (h : c.Precedes d) (h' : d.Precedes e) : c.Precedes e := by
  obtain ⟨taken, hrest, hpos⟩ := h
  obtain ⟨taken', hrest', hpos'⟩ := h'
  refine ⟨taken ++ taken', ?_, ?_⟩
  · rw [hrest, hrest', List.append_assoc]
  · rw [hpos', hpos, List.length_append, Nat.add_assoc]

theorem cons {pos : Nat} {ch : Char} {cs : List Char} (h : Cursor.Precedes ⟨pos + 1, cs⟩ d) :
    Cursor.Precedes ⟨pos, ch :: cs⟩ d :=
  .trans ⟨[ch], rfl, rfl⟩ h

theorem advance {n : Nat} (h : n ≤ c.rest.length) : c.Precedes (c.advance n) := by
  refine ⟨c.rest.take n, (List.take_append_drop n c.rest).symm, ?_⟩
  rw [List.length_take, Nat.min_eq_left h]
  rfl

theorem skip (c : Cursor) : c.Precedes c.skip :=
  advance (ignorableLength_le _ _)

theorem of_after? {word : List Char} (h : c.after? word = some d) : c.Precedes d :=
  ⟨word, Cursor.after?_eq_some_iff.1 h⟩

theorem pos_le (h : c.Precedes d) : c.pos ≤ d.pos := by
  obtain ⟨taken, -, hpos⟩ := h
  omega

theorem pos_add_length (h : c.Precedes d) :
    c.pos + c.rest.length = d.pos + d.rest.length := by
  obtain ⟨taken, hrest, hpos⟩ := h
  rw [hrest, List.length_append, hpos, Nat.add_assoc]

theorem length_rest_le (h : c.Precedes d) : d.rest.length ≤ c.rest.length := by
  have hlength := h.pos_add_length
  have hpos := h.pos_le
  omega

theorem exists_append {pos : Nat} {text tail : List Char}
    (h : Cursor.Precedes ⟨pos, text ++ tail⟩ d) (hlength : tail.length ≤ d.rest.length) :
    ∃ taken later, text = taken ++ later ∧ d = ⟨pos + taken.length, later ++ tail⟩ := by
  obtain ⟨taken, hrest, hpos⟩ := h
  obtain ⟨later, htext, hd⟩ | ⟨later, htaken, htail⟩ := List.append_eq_append_iff.1 hrest
  · have hlater : later = [] := by
      have := congrArg List.length hd
      rw [List.length_append] at this
      exact List.length_eq_zero_iff.1 (by omega)
    subst hlater
    refine ⟨text, [], (List.append_nil _).symm, ?_⟩
    have htext' : taken = text := by simpa using htext
    obtain ⟨dpos, drest⟩ := d
    simp_all
  · obtain ⟨dpos, drest⟩ := d
    exact ⟨taken, later, htaken, by simp_all⟩

theorem eq_ofText_pos {source : List Char} {start : Nat} (h : (ofText source start).Precedes d) :
    d = .ofText source d.pos := by
  rcases h with ⟨taken, hrest, hpos⟩
  rcases d with ⟨pos, rest⟩
  obtain rfl : pos = start + taken.length := hpos
  exact (ofText_add_length hrest).symm

theorem eq_ofText {source : List Char} (h : Cursor.Precedes ⟨0, source⟩ d) :
    d = .ofText source d.pos ∧ d.pos ≤ source.length := by
  have hstart : (ofText source 0).Precedes d := h
  have hlength := h.pos_add_length
  dsimp only at hlength
  exact ⟨hstart.eq_ofText_pos, by omega⟩

end Text.Cursor.Precedes

namespace Grammar

/-- A match ends behind where it began. -/
def Advances (recognizer : Recognizer α) : Prop :=
  ∀ c m, recognizer c = .matched m → c.Precedes m.next

theorem symbol_advances : Advances symbol := by
  intro c m h
  unfold symbol at h
  dsimp only at h
  split at h
  · exact absurd h expected_ne_matched
  · rw [found_eq_matched_iff.1 h]
    exact .advance (List.takeWhile_prefix _).length_le

theorem precedes_of_stringBody {pos : Nat} {cs : List Char} {m : Match (List Char)}
    (h : stringBody pos cs = .matched m) : Cursor.Precedes ⟨pos, cs⟩ m.next := by
  fun_induction stringBody pos cs generalizing m with
  | case1 => simp at h
  | case2 pos cs =>
      rw [found_eq_matched_iff.1 h]
      exact .cons (.refl _)
  | case3 pos cs ih =>
      obtain ⟨n, hn, rfl⟩ := Reply.map_eq_matched_iff.1 h
      have hlater := ih hn
      exact .cons (.cons hlater)
  | case4 => simp at h
  | case5 pos ch cs _ _ _ ih =>
      obtain ⟨n, hn, rfl⟩ := Reply.map_eq_matched_iff.1 h
      have hlater := ih hn
      exact .cons hlater

theorem string_advances : Advances string := by
  intro c m h
  unfold string at h
  split at h
  · rename_i inside hinside
    obtain ⟨n, hn, rfl⟩ := Reply.map_eq_matched_iff.1 h
    exact (Cursor.Precedes.of_after? hinside).trans (precedes_of_stringBody hn)
  · exact absurd h expected_ne_matched

theorem number_advances : Advances number := by
  intro c m h
  unfold number at h
  split at h
  · exact absurd h expected_ne_matched
  · rename_i numeral behind hscan
    split at h
    · rw [found_eq_matched_iff.1 h]
      refine .advance ?_
      rw [← Numeral.text_append_of_scan hscan, List.length_append]
      exact Nat.le_add_right _ _
    · exact absurd h expected_ne_matched

theorem boolean_advances : Advances boolean := by
  intro c m h
  unfold boolean at h
  split at h
  · rename_i next hnext
    rw [found_eq_matched_iff.1 h]
    exact .of_after? hnext
  · split at h
    · rename_i next hnext
      rw [found_eq_matched_iff.1 h]
      exact .of_after? hnext
    · exact absurd h expected_ne_matched

theorem precedes_of_closeParen {contents m : Match α} (h : closeParen contents = .matched m) :
    contents.next.Precedes m.next := by
  unfold closeParen at h
  dsimp only at h
  split at h
  · rename_i next hnext
    rw [found_eq_matched_iff.1 h]
    exact (Cursor.Precedes.skip _).trans (.of_after? hnext)
  · simp at h

theorem parenthesized_advances {contents : Recognizer α} (hcontents : Advances contents) :
    Advances (parenthesized contents) := by
  intro c m h
  unfold parenthesized at h
  split at h
  · rename_i inside hinside
    obtain ⟨n, hn, hclose⟩ := Reply.bind_eq_matched_iff.1 h
    have hopen : c.Precedes inside := .of_after? hinside
    have hinner : inside.skip.Precedes n.next := hcontents _ _ hn
    have hclosed : n.next.Precedes m.next := precedes_of_closeParen hclose
    exact ((hopen.trans (.skip _)).trans hinner).trans hclosed
  · exact absurd h expected_ne_matched

theorem listOf_advances {contents : Recognizer (List Form)} (hcontents : Advances contents) :
    Advances (listOf contents) := by
  intro c m h
  obtain ⟨n, hn, rfl⟩ := Reply.map_eq_matched_iff.1 h
  exact parenthesized_advances hcontents _ _ (Reply.mapFailure_eq_matched_iff.1 hn)

theorem marked_advances {mark : Char} {shape : Shape} {build : List Form → Form}
    {contents : Recognizer (List Form)} (hcontents : Advances contents) :
    Advances (marked mark shape build contents) := by
  intro c m h
  unfold marked at h
  split at h
  · rename_i body hbody
    obtain ⟨n, hn, rfl⟩ := Reply.map_eq_matched_iff.1 h
    exact (Cursor.Precedes.of_after? hbody).trans
      (parenthesized_advances hcontents _ _ (Reply.mapFailure_eq_matched_iff.1 hn))
  · exact absurd h expected_ne_matched

theorem Shape.recognizer_advances {contents : Recognizer (List Form)}
    (hcontents : Advances contents) (shape : Shape) : Advances (shape.recognizer contents) := by
  cases shape with
  | list => exact listOf_advances hcontents
  | quote => exact marked_advances hcontents
  | tuple => exact marked_advances hcontents
  | string => exact string_advances
  | number => exact number_advances
  | boolean => exact boolean_advances
  | symbol => exact symbol_advances

theorem exists_mem_of_firstOf {c : Cursor} {furthest : Failure}
    {recognizers : List (Recognizer α)} {m : Match α}
    (h : firstOf c furthest recognizers = .matched m) :
    ∃ recognizer ∈ recognizers, recognizer c = .matched m := by
  induction recognizers generalizing furthest with
  | nil => simp [firstOf] at h
  | cons recognizer others ih =>
      unfold firstOf at h
      split at h
      · split at h
        · simp at h
        · obtain ⟨other, hother, hmatched⟩ := ih h
          exact ⟨other, List.mem_cons_of_mem _ hother, hmatched⟩
      · exact ⟨recognizer, List.mem_cons_self, h⟩

theorem expressionOf_advances {contents : Recognizer (List Form)}
    (hcontents : Advances contents) : Advances (expressionOf contents) := by
  intro c m h
  obtain ⟨n, hn, hm⟩ := Reply.bind_eq_matched_iff.1 h
  obtain ⟨recognizer, hmem, hmatched⟩ := exists_mem_of_firstOf hn
  obtain ⟨shape, -, rfl⟩ := List.mem_map.1 hmem
  rw [found_eq_matched_iff.1 hm]
  have hform : c.skip.Precedes n.next := shape.recognizer_advances hcontents _ _ hmatched
  exact ((Cursor.Precedes.skip c).trans hform).trans (.skip _)

theorem repeated_advances {item : Recognizer α} (hitem : Advances item) :
    Advances (repeated item) := by
  intro c m h
  fun_induction repeated item c generalizing m with
  | case1 => simp at h
  | case2 => simp at h
  | case3 =>
      cases h
      exact .refl _
  | case4 c n hn hless ih =>
      obtain ⟨k, hk, rfl⟩ := Reply.map_eq_matched_iff.1 h
      exact (hitem c n hn).trans (ih k hk)
  | case5 =>
      cases found_eq_matched_iff.1 h
      exact .refl _

theorem forms_advances (depth : Nat) : Advances (forms depth) := by
  induction depth with
  | zero =>
      intro c m h
      simp [forms] at h
  | succ depth ih =>
      rw [forms_succ]
      exact repeated_advances (expressionOf_advances ih)

theorem expression_advances (depth : Nat) : Advances (expression depth) :=
  expressionOf_advances (forms_advances depth)

end Grammar

end Sexp
