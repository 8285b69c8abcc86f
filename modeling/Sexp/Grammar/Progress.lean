import Sexp.Grammar.Expression

namespace Sexp.Grammar

open Sexp.Text

/-- A match leaves less text than there was. -/
def Consumes (recognizer : Recognizer α) : Prop :=
  ∀ c m, recognizer c = .matched m → m.next.rest.length < c.rest.length

/-- A match leaves no more text than there was. -/
def NeverExpands (recognizer : Recognizer α) : Prop :=
  ∀ c m, recognizer c = .matched m → m.next.rest.length ≤ c.rest.length

theorem Reply.bind_eq_matched_iff {reply : Reply α} {next : Match α → Reply β}
    {m : Match β} :
    reply.bind next = .matched m ↔ ∃ n, reply = .matched n ∧ next n = .matched m := by
  cases reply <;> simp [bind]

theorem Reply.map_eq_matched_iff {f : α → β} {reply : Reply α} {m : Match β} :
    reply.map f = .matched m ↔
      ∃ n, reply = .matched n ∧ m = ⟨f n.value, n.next, n.stoppedBy⟩ := by
  simp only [map, bind_eq_matched_iff, matched.injEq, @eq_comm _ m]

theorem Reply.mapFailure_eq_matched_iff {change : Failure → Failure} {reply : Reply α}
    {m : Match α} : reply.mapFailure change = .matched m ↔ reply = .matched m := by
  cases reply <;> simp [mapFailure]

theorem found_eq_matched_iff {value : α} {next : Cursor} {m : Match α} :
    found value next = .matched m ↔ m = ⟨value, next, none⟩ := by
  simp [found, eq_comm]

theorem expected_ne_matched {c : Cursor} {expectation : Expectation} {m : Match α} :
    expected c expectation ≠ .matched m := by
  simp [expected]

theorem length_rest_lt_of_after? {c d : Cursor} {word : List Char}
    (hword : word ≠ []) (h : c.after? word = some d) :
    d.rest.length < c.rest.length := by
  have hlength := List.length_pos_iff.2 hword
  rw [(Cursor.after?_eq_some_iff.1 h).1, List.length_append]
  omega

theorem length_rest_advance_lt {c : Cursor} {taken behind : List Char}
    (htaken : taken ≠ []) (h : taken ++ behind = c.rest) :
    (c.advance taken.length).rest.length < c.rest.length := by
  have hlength := List.length_pos_iff.2 htaken
  rw [Cursor.length_rest_advance, ← h, List.length_append]
  omega

theorem symbol_consumes : Consumes symbol := by
  intro c m h
  unfold symbol at h
  dsimp only at h
  split at h
  · exact absurd h expected_ne_matched
  · rename_i hname
    rw [found_eq_matched_iff.1 h]
    exact length_rest_advance_lt (by simpa using hname) List.takeWhile_append_dropWhile

theorem length_rest_le_of_stringBody {pos : Nat} {cs : List Char}
    {m : Match (List Char)} (h : stringBody pos cs = .matched m) :
    m.next.rest.length ≤ cs.length := by
  fun_induction stringBody pos cs generalizing m with
  | case1 => simp at h
  | case2 pos cs => simp [found_eq_matched_iff.1 h]
  | case3 pos cs ih =>
      obtain ⟨n, hn, rfl⟩ := Reply.map_eq_matched_iff.1 h
      have := ih hn
      simp only [List.length_cons]
      omega
  | case4 => simp at h
  | case5 pos c cs _ _ _ ih =>
      obtain ⟨n, hn, rfl⟩ := Reply.map_eq_matched_iff.1 h
      have := ih hn
      simp only [List.length_cons]
      omega

theorem string_consumes : Consumes string := by
  intro c m h
  unfold string at h
  split at h
  · rename_i inside hinside
    obtain ⟨n, hn, rfl⟩ := Reply.map_eq_matched_iff.1 h
    exact Nat.lt_of_le_of_lt (length_rest_le_of_stringBody hn)
      (length_rest_lt_of_after? (by simp) hinside)
  · exact absurd h expected_ne_matched

theorem number_consumes : Consumes number := by
  intro c m h
  unfold number at h
  split at h
  · exact absurd h expected_ne_matched
  · rename_i numeral behind hscan
    split at h
    · rw [found_eq_matched_iff.1 h]
      exact length_rest_advance_lt (Numeral.text_ne_nil_of_scan hscan)
        (Numeral.text_append_of_scan hscan)
    · exact absurd h expected_ne_matched

theorem boolean_consumes : Consumes boolean := by
  intro c m h
  unfold boolean at h
  split at h
  · rename_i next hnext
    rw [found_eq_matched_iff.1 h]
    exact length_rest_lt_of_after? (by simp) hnext
  · split at h
    · rename_i next hnext
      rw [found_eq_matched_iff.1 h]
      exact length_rest_lt_of_after? (by simp) hnext
    · exact absurd h expected_ne_matched

theorem closeParen_consumes {contents m : Match α} (h : closeParen contents = .matched m) :
    m.next.rest.length < contents.next.rest.length := by
  unfold closeParen at h
  dsimp only at h
  split at h
  · rename_i next hnext
    rw [found_eq_matched_iff.1 h]
    exact Nat.lt_of_lt_of_le (length_rest_lt_of_after? (by simp) hnext)
      contents.next.length_rest_skip_le
  · simp at h

theorem parenthesized_consumes {contents : Recognizer α} (hcontents : NeverExpands contents) :
    Consumes (parenthesized contents) := by
  intro c m h
  unfold parenthesized at h
  split at h
  · rename_i inside hinside
    obtain ⟨n, hn, hclose⟩ := Reply.bind_eq_matched_iff.1 h
    have hopen := length_rest_lt_of_after? (by simp) hinside
    have hskip := inside.length_rest_skip_le
    have hinner := hcontents _ _ hn
    have hclosed := closeParen_consumes hclose
    omega
  · exact absurd h expected_ne_matched

theorem listOf_consumes {contents : Recognizer (List Form)}
    (hcontents : NeverExpands contents) : Consumes (listOf contents) := by
  intro c m h
  obtain ⟨n, hn, rfl⟩ := Reply.map_eq_matched_iff.1 h
  exact parenthesized_consumes hcontents _ _ (Reply.mapFailure_eq_matched_iff.1 hn)

theorem marked_consumes {mark : Char} {shape : Shape} {build : List Form → Form}
    {contents : Recognizer (List Form)} (hcontents : NeverExpands contents) :
    Consumes (marked mark shape build contents) := by
  intro c m h
  unfold marked at h
  split at h
  · rename_i body hbody
    obtain ⟨n, hn, rfl⟩ := Reply.map_eq_matched_iff.1 h
    exact Nat.lt_trans
      (parenthesized_consumes hcontents _ _ (Reply.mapFailure_eq_matched_iff.1 hn))
      (length_rest_lt_of_after? (by simp) hbody)
  · exact absurd h expected_ne_matched

theorem Shape.recognizer_consumes {contents : Recognizer (List Form)}
    (hcontents : NeverExpands contents) (shape : Shape) :
    Consumes (shape.recognizer contents) := by
  cases shape with
  | list => exact listOf_consumes hcontents
  | quote => exact marked_consumes hcontents
  | tuple => exact marked_consumes hcontents
  | string => exact string_consumes
  | number => exact number_consumes
  | boolean => exact boolean_consumes
  | symbol => exact symbol_consumes

theorem firstOf_consumes {c : Cursor} {furthest : Failure}
    {recognizers : List (Recognizer α)} (hall : ∀ r ∈ recognizers, Consumes r)
    {m : Match α} (h : firstOf c furthest recognizers = .matched m) :
    m.next.rest.length < c.rest.length := by
  induction recognizers generalizing furthest with
  | nil => simp [firstOf] at h
  | cons recognizer others ih =>
      have hhead := hall recognizer (by simp)
      have htail : ∀ r ∈ others, Consumes r := fun r hr => hall r (by simp [hr])
      unfold firstOf at h
      split at h
      · split at h
        · simp at h
        · exact ih htail h
      · exact hhead c m h

theorem expressionOf_consumes {contents : Recognizer (List Form)}
    (hcontents : NeverExpands contents) : Consumes (expressionOf contents) := by
  intro c m h
  obtain ⟨n, hn, hm⟩ := Reply.bind_eq_matched_iff.1 h
  have hrecognizers : ∀ r ∈ Shape.all.map (Shape.recognizer contents), Consumes r := by
    intro r hr
    obtain ⟨shape, _, rfl⟩ := List.mem_map.1 hr
    exact shape.recognizer_consumes hcontents
  have hfirst := firstOf_consumes hrecognizers hn
  have hbefore := c.length_rest_skip_le
  have hbehind := n.next.length_rest_skip_le
  rw [found_eq_matched_iff.1 hm]
  exact Nat.lt_of_le_of_lt hbehind (Nat.lt_of_lt_of_le hfirst hbefore)

theorem repeated_neverExpands (item : Recognizer α) : NeverExpands (repeated item) := by
  intro c m h
  fun_induction repeated item c generalizing m with
  | case1 => simp at h
  | case2 => simp at h
  | case3 c f hf =>
      cases h
      exact Nat.le_refl _
  | case4 c n hn hless ih =>
      obtain ⟨k, hk, rfl⟩ := Reply.map_eq_matched_iff.1 h
      exact Nat.le_of_lt (Nat.lt_of_le_of_lt (ih k hk) hless)
  | case5 =>
      cases found_eq_matched_iff.1 h
      exact Nat.le_refl _

theorem forms_neverExpands (depth : Nat) : NeverExpands (forms depth) := by
  cases depth with
  | zero =>
      intro c m h
      simp [forms] at h
  | succ depth =>
      intro c m h
      exact repeated_neverExpands _ c m h

theorem expression_consumes (depth : Nat) : Consumes (expression depth) :=
  expressionOf_consumes (forms_neverExpands depth)

end Sexp.Grammar
