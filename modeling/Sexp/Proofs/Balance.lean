import Mathlib.Order.Bounds.Basic
import Sexp.Proofs.FormTree
import Sexp.Proofs.Tally

namespace Sexp

open Grammar Text

variable {limit : NestingLimit}

namespace Form

theorem depthOfItems_append (items items' : List Form) :
    depthOfItems (items ++ items') = max (depthOfItems items) (depthOfItems items') := by
  induction items with
  | nil => exact (Nat.zero_max _).symm
  | cons form items ih => rw [List.cons_append, depthOfItems, depthOfItems, ih, Nat.max_assoc]

theorem depth_build (b : Bracket) (items : List Form) :
    (b.build items).depth = depthOfItems items + 1 := by
  cases b with
  | list => rw [Bracket.build, depth]
  | quote => rw [Bracket.build, depth]
  | tuple =>
      have hsymbol : (Form.symbol tupleSymbol).depth = 0 := depth_of_atom rfl
      rw [Bracket.build, tupleForm, depth, depthOfItems, hsymbol, Nat.zero_max]

end Form

theorem Grammar.items?_of_token {c next : Cursor} {form : Form} {stoppedBy : Option Failure}
    (h : token c = .matched ⟨.atom form, next, stoppedBy⟩) : form.items? = none := by
  have hcase := tokenAt_eq_iff.1 h
  generalize hreply : Reply.matched (Match.mk (Token.atom form) next stoppedBy) = reply at hcase
  cases hcase with
  | string =>
      cases hreply
      rfl
  | bare hrest hmark =>
      cases hreply
      obtain ⟨hblank, hcomment⟩ := head_skip hrest
      exact (Form.readableAtom_bare hrest (isSymbolChar_of_not_mark hblank hcomment hmark) hmark).2
  | _ => cases hreply

namespace Frontier

/-- How deep forms are nested in the given items and in the forms that are open around
them. -/
def heightOf : List Form → List (Bracket × List Form) → Nat
  | items, [] => Form.depthOfItems items
  | items, (_, before) :: outer =>
      max (outer.length + 1 + Form.depthOfItems items) (heightOf before outer)

def height (s : Frontier) : Nat :=
  heightOf s.items s.opened

theorem heightOf_append (items : List Form) (form : Form) (opened : List (Bracket × List Form)) :
    heightOf (items ++ [form]) opened =
      max (heightOf items opened) (opened.length + form.depth) := by
  have hitems : Form.depthOfItems (items ++ [form]) = max (Form.depthOfItems items) form.depth := by
    rw [Form.depthOfItems_append, Form.depthOfItems, Form.depthOfItems, Nat.max_zero]
  cases opened with
  | nil => rw [heightOf, heightOf, hitems, List.length_nil, Nat.zero_add]
  | cons o outer =>
      rw [heightOf, heightOf, hitems, List.length_cons]
      omega

theorem length_le_heightOf (items : List Form) (opened : List (Bracket × List Form)) :
    opened.length ≤ heightOf items opened := by
  cases opened with
  | nil => exact Nat.zero_le _
  | cons o outer =>
      rw [heightOf, List.length_cons]
      omega

variable {p : Nat → Prop} {s t : Frontier}

theorem height_of_step (h : s.step? = some t) : t.height = max s.height t.opened.length := by
  obtain ⟨⟨tok, next, stoppedBy⟩, htoken, htake⟩ := step?_eq_some_iff.1 h
  obtain ⟨items, opened, c⟩ := s
  have hopened := length_le_heightOf items opened
  cases tok with
  | opening b =>
      cases htake
      simp only [height, heightOf, Form.depthOfItems, List.length_cons]
      omega
  | atom form =>
      cases htake
      have hdepth := Form.depth_of_atom (items?_of_token htoken)
      simp only [height, heightOf_append, hdepth, Nat.add_zero]
  | closing =>
      cases opened with
      | nil => cases htake
      | cons o outer =>
          obtain ⟨b, before⟩ := o
          cases htake
          have houter := length_le_heightOf before outer
          simp only [height, heightOf_append, heightOf, Form.depth_build]
          omega

theorem height_le_of_leads (h : s.Leads t) : s.height ≤ t.height := by
  induction h with
  | refl => exact Nat.le_refl _
  | tail _ hstep ih =>
      rw [height_of_step hstep]
      exact ih.trans (Nat.le_max_left _ _)

theorem LeadsVia.height_le (h : s.LeadsVia p t) :
    s.LeadsVia (fun k => p k ∧ k ≤ t.height) t := by
  induction h using Relation.ReflTransGen.head_induction_on with
  | refl => exact .refl
  | @head s u hstep hlater ih =>
      refine .head hstep.1 ⟨hstep.2, ?_⟩ ih
      exact (length_le_heightOf _ _).trans (height_le_of_leads (LeadsVia.leads hlater))

theorem Leads.exists_height (h : s.Leads t) :
    t.height = s.height ∨ ∃ u, s.Leads u ∧ u.Leads t ∧ u.opened.length = t.height := by
  induction h with
  | refl => exact .inl rfl
  | @tail t v hleads hstep ih =>
      rw [height_of_step hstep]
      obtain hless | hmore := Nat.le_total v.opened.length t.height
      · rw [Nat.max_eq_left hless]
        obtain hsame | ⟨u, hu, hut, hopened⟩ := ih
        · exact .inl hsame
        · exact .inr ⟨u, hu, hut.tail hstep, hopened⟩
      · rw [Nat.max_eq_right hmore]
        exact .inr ⟨v, hleads.tail hstep, .refl, rfl⟩

end Frontier

/-- A list, a quote or a tuple is its opening, the forms in it, and the parenthesis
behind them. -/
theorem Grammar.oneOf_eq_matched_iff {b : Bracket} {depth : Nat} {c : Cursor} {m : Match Form} :
    oneOf b.shape depth c = .matched m ↔
      ∃ cs inner behind, c.rest = b.mark?.toList ++ '(' :: cs ∧
        forms depth (Cursor.skip ⟨c.pos + b.mark?.toList.length + 1, cs⟩) = .matched inner ∧
        inner.next.skip.rest = ')' :: behind ∧
        m = ⟨b.build inner.value, ⟨inner.next.skip.pos + 1, behind⟩, none⟩ := by
  have hmarked : ∀ {mark : Char}, marked mark b.shape b.build (forms depth) c = .matched m ↔
      ∃ cs inner behind, c.rest = mark :: '(' :: cs ∧
        forms depth (Cursor.skip ⟨c.pos + 1 + 1, cs⟩) = .matched inner ∧
        inner.next.skip.rest = ')' :: behind ∧
        m = ⟨b.build inner.value, ⟨inner.next.skip.pos + 1, behind⟩, none⟩ := by
    intro mark
    constructor
    · intro h
      cases hbody : c.after? [mark] with
      | none =>
          simp only [marked, hbody] at h
          exact absurd h expected_ne_matched
      | some body =>
          have hrest := (Cursor.after?_eq_some_iff.1 hbody).1
          obtain ⟨n, hn, rfl⟩ := (marked_eq_matched_iff hrest).1 h
          obtain ⟨cs, inner, behind, hopen, hinner, hclose, rfl⟩ :=
            parenthesized_eq_matched_iff.1 hn
          refine ⟨cs, inner, behind, ?_, hinner, hclose, rfl⟩
          rw [hrest, List.singleton_append]
          exact congrArg _ hopen
    · rintro ⟨cs, inner, behind, hrest, hinner, hclose, rfl⟩
      rw [marked_eq_matched_iff hrest]
      exact ⟨_, parenthesized_eq_matched_iff.2 ⟨cs, inner, behind, rfl, hinner, hclose, rfl⟩, rfl⟩
  cases b with
  | list =>
      refine listOf_eq_matched_iff.trans ?_
      simp only [parenthesized_eq_matched_iff]
      constructor
      · rintro ⟨n, ⟨cs, inner, behind, hrest, hinner, hclose, rfl⟩, rfl⟩
        exact ⟨cs, inner, behind, hrest, hinner, hclose, rfl⟩
      · rintro ⟨cs, inner, behind, hrest, hinner, hclose, rfl⟩
        exact ⟨_, ⟨cs, inner, behind, hrest, hinner, hclose, rfl⟩, rfl⟩
  | quote => exact hmarked
  | tuple => exact hmarked

/-- In the text of a form the parentheses are balanced at its end and, from the first one
on, nowhere before, and as many of them are open at once as the form is deep. -/
structure BalancedSpan (b : Bracket) (span : List Char) (form : Form) : Prop where
  opens : b.mark?.toList ++ ['('] <+: span
  closes : span.getLast? = some ')'
  total : balance .code span = 0
  inside : ∀ n < span.length, '(' ∈ span.take n → 1 ≤ balance .code (span.take n)
  height : IsGreatest (Set.range fun n => balance .code (span.take n)) form.depth

namespace Grammar.Bracket

variable {text : List Char}

/-- The text of a form around the text of its items. -/
def spanOf (b : Bracket) (text : List Char) : List Char :=
  b.mark?.toList ++ ['('] ++ (text ++ [')'])

theorem length_spanOf (b : Bracket) (text : List Char) :
    (b.spanOf text).length = b.mark?.toList.length + 1 + text.length + 1 := by
  simp only [spanOf, List.length_append, List.length_singleton]
  omega

theorem balance_spanOf (b : Bracket) (hafter : Mode.after .code text = .code)
    (htotal : balance .code text = 0) : balance .code (b.spanOf text) = 0 := by
  have hopening := Turns.opening b
  rw [spanOf, balance_append _ _ (text ++ [')']), hopening.after_eq, hopening.balance_eq,
    balance_append, hafter, htotal, Turns.closing.balance_eq]
  rfl

theorem take_spanOf_of_le (b : Bracket) {n : Nat} (hn : n ≤ b.mark?.toList.length) :
    '(' ∉ (b.spanOf text).take n ∧ balance .code ((b.spanOf text).take n) = 0 := by
  have hparen : '(' ∉ b.mark?.toList := by
    cases b <;> simp [mark?, Form.quoteMark, Form.tupleMark]
  have htake : (b.spanOf text).take n = b.mark?.toList.take n := by
    rw [spanOf, List.append_assoc, List.take_append_of_le_length hn]
  rw [htake]
  exact ⟨fun h => hparen (List.mem_of_mem_take h), b.neutral_mark.balance_take n⟩

theorem balance_take_spanOf (b : Bracket) {n : Nat} (hn : n ≤ text.length) :
    balance .code ((b.spanOf text).take (b.mark?.toList.length + 1 + n)) =
      1 + balance .code (text.take n) := by
  have hopening := Turns.opening b
  have hlength : b.mark?.toList.length + 1 = (b.mark?.toList ++ ['(']).length := by
    rw [List.length_append, List.length_singleton]
  rw [spanOf, hlength, List.take_length_add_append, List.take_append_of_le_length hn,
    balance_append,
    hopening.after_eq, hopening.balance_eq]

theorem take_spanOf_cases (b : Bracket) (text : List Char) (n : Nat) :
    n ≤ b.mark?.toList.length ∨ (∃ k ≤ text.length, n = b.mark?.toList.length + 1 + k) ∨
      (b.spanOf text).length ≤ n := by
  rw [length_spanOf]
  obtain hn | hn := Nat.lt_or_ge b.mark?.toList.length n
  · obtain ⟨k, rfl⟩ := Nat.exists_eq_add_of_le hn
    obtain hk | hk := Nat.lt_or_ge text.length k
    · exact .inr (.inr (by omega))
    · exact .inr (.inl ⟨k, hk, rfl⟩)
  · exact .inl hn

end Grammar.Bracket

theorem BalancedSpan.of_inner {b : Bracket} {text : List Char} {form : Form}
    (hafter : Mode.after .code text = .code) (htotal : balance .code text = 0)
    (hlevel : ∀ n, 0 ≤ balance .code (text.take n) ∧ 1 + balance .code (text.take n) ≤ form.depth)
    (hdepth : ∃ n ≤ text.length, 1 + balance .code (text.take n) = form.depth) :
    BalancedSpan b (b.spanOf text) form := by
  have hzero := b.balance_spanOf hafter htotal
  constructor
  · exact List.prefix_append _ _
  · rw [Bracket.spanOf, ← List.append_assoc, List.getLast?_concat]
  · exact hzero
  · intro n hn hparen
    obtain hmark | ⟨k, hk, rfl⟩ | hall := b.take_spanOf_cases text n
    · exact absurd hparen (b.take_spanOf_of_le hmark).1
    · rw [b.balance_take_spanOf hk]
      have := (hlevel k).1
      omega
    · exact absurd hn (Nat.not_lt.2 hall)
  · constructor
    · obtain ⟨k, hk, hform⟩ := hdepth
      exact ⟨_, (b.balance_take_spanOf hk).trans hform⟩
    · rintro _ ⟨n, rfl⟩
      dsimp only
      obtain hmark | ⟨k, hk, rfl⟩ | hall := b.take_spanOf_cases text n
      · rw [(b.take_spanOf_of_le hmark).2]
        exact Int.natCast_nonneg _
      · rw [b.balance_take_spanOf hk]
        exact (hlevel k).2
      · rw [List.take_of_length_le hall, hzero]
        exact Int.natCast_nonneg _

theorem exists_tally_of_forms (b : Bracket) {depth : Nat} {c : Cursor} {m : Match (List Form)}
    (h : forms depth c.skip = .matched m) :
    m.next.skip = m.next ∧ ∃ text,
      Frontier.Tally (fun k => 1 ≤ k ∧ k ≤ Form.depthOfItems m.value + 1) c 1
        ⟨m.value, [(b, [])], m.next⟩ text ∧
      ∃ n ≤ text.length,
        1 + balance .code (text.take n) = (Form.depthOfItems m.value + 1 : Nat) := by
  have hrun : Frontier.BodyRun depth ⟨[], [(b, [])], c.skip⟩ (forms depth c.skip) :=
    Frontier.forms_run (List.cons_ne_nil _ _) (Cursor.skip_skip _)
  rw [h] at hrun
  cases hrun with
  | matched _ hleads hskip =>
      rw [List.nil_append] at hleads
      have hheight : Frontier.height ⟨m.value, [(b, [])], m.next⟩ =
          Form.depthOfItems m.value + 1 := by
        rw [Frontier.height, Frontier.heightOf, Frontier.heightOf, Form.depthOfItems, Nat.max_zero,
          List.length_nil, Nat.zero_add, Nat.add_comm]
      have hvia := (hleads.imp fun k hk => hk.1).height_le
      rw [hheight] at hvia
      obtain ⟨text, htally⟩ := hvia.exists_tally rfl
      refine ⟨hskip, text, htally, ?_⟩
      obtain hsame | ⟨u, hu, hut, hopened⟩ := hleads.leads.exists_height
      · rw [hheight] at hsame
        rw [hsame]
        exact ⟨0, Nat.zero_le _, rfl⟩
      · obtain ⟨n, hn, -, hlevel⟩ := htally.exists_level rfl rfl hu hut
        exact ⟨n, hn, by rw [← hheight, ← hopened, ← hlevel]; rfl⟩

theorem exists_balancedSpan {b : Bracket} {depth : Nat} {c : Cursor} {m : Match Form}
    (h : oneOf b.shape depth c = .matched m) :
    ∃ span, c.rest = span ++ m.next.rest ∧ m.next.pos = c.pos + span.length ∧
      BalancedSpan b span m.value := by
  obtain ⟨cs, inner, behind, hrest, hinner, hclose, rfl⟩ := oneOf_eq_matched_iff.1 h
  obtain ⟨hskip, text, htally, hdepth⟩ := exists_tally_of_forms b hinner
  rw [hskip] at hclose ⊢
  have htext : cs = text ++ ')' :: behind := htally.rest.trans (congrArg _ hclose)
  have hafter : Mode.after .code text = .code :=
    htally.mode.resolve_right fun hcomment => by simp [hclose] at hcomment
  have htotal : balance .code text = 0 := Int.add_left_cancel htally.total
  refine ⟨b.spanOf text, ?_, ?_, ?_⟩
  · rw [hrest, htext]
    simp [Bracket.spanOf]
  · rw [htally.pos, b.length_spanOf]
    dsimp only
    omega
  · refine .of_inner hafter htotal (fun n => ?_) ?_
    · obtain ⟨k, ⟨hlow, hhigh⟩, hk⟩ := htally.level_of ⟨Nat.le_refl _, Nat.succ_pos _⟩ n
      rw [Form.depth_build]
      omega
    · rw [Form.depth_build]
      exact hdepth

theorem balance_of_readAll {source : List Char} {forms : List Form}
    (h : readAll source limit = .ok forms) :
    (∀ n, 0 ≤ balance .code (source.take n)) ∧ balance .code source = 0 ∧
      (Mode.after .code source = .code ∨ Mode.after .code source = .comment) := by
  have hagrees := Frontier.agrees_outcome limit [] ⟨0, source⟩
  rw [readAll_eq_ok_iff.1 h] at hagrees
  cases hagrees with
  | ended ht _ hended =>
      obtain ⟨text, htally⟩ := ht.exists_tally rfl
      obtain rfl : source = text := by
        have hrest := htally.rest
        rwa [hended.rest, List.append_nil] at hrest
      have htotal := htally.total
      rw [hended.opened, List.length_nil] at htotal
      refine ⟨fun n => ?_, by omega, htally.mode.imp_right And.left⟩
      obtain ⟨k, -, hk⟩ := htally.level_of (Nat.zero_le _) n
      rw [List.length_nil] at hk
      omega

theorem balanced_of_read (source : List Char) :
    (∀ (b : Bracket) (depth pos : Nat) (m : Match Form),
      oneOf b.shape depth (.ofText source pos) = .matched m →
        ∃ span, source.drop pos = span ++ m.next.rest ∧ m.next.pos = pos + span.length ∧
          BalancedSpan b span m.value) ∧
      ∀ (limit : NestingLimit) (forms : List Form), readAll source limit = .ok forms →
        (∀ n, 0 ≤ balance .code (source.take n)) ∧ balance .code source = 0 ∧
          (Mode.after .code source = .code ∨ Mode.after .code source = .comment) :=
  ⟨fun _ _ _ _ h => exists_balancedSpan h, fun _ _ h => balance_of_readAll h⟩

theorem balanced_of_read_quote :
    ∃ m forms, oneOf Bracket.quote.shape 2 (.ofText "a '(\")\" ;)\n(b)) ".toList 2) = .matched m ∧
      m.next.pos = 15 ∧ m.value.depth = 2 ∧
      (∃ span, "a '(\")\" ;)\n(b)) ".toList.drop 2 = span ++ m.next.rest ∧
        m.next.pos = 2 + span.length ∧ BalancedSpan .quote span m.value) ∧
      readAll "a '(\")\" ;)\n(b)) ".toList .standard = .ok forms ∧
      (∀ n, 0 ≤ balance .code ("a '(\")\" ;)\n(b)) ".toList.take n)) ∧
      balance .code "a '(\")\" ;)\n(b)) ".toList = 0 ∧
      (Mode.after .code "a '(\")\" ;)\n(b)) ".toList = .code ∨
        Mode.after .code "a '(\")\" ;)\n(b)) ".toList = .comment) := by
  have hquote : oneOf Bracket.quote.shape 2 (.ofText "a '(\")\" ;)\n(b)) ".toList 2) =
      .matched ⟨.quote [.string ")", .list [.symbol "b"]], ⟨15, [' ']⟩, none⟩ := by
    with_unfolding_all rfl
  have hread : readAll "a '(\")\" ;)\n(b)) ".toList .standard =
      .ok [.symbol "a", .quote [.string ")", .list [.symbol "b"]]] := by
    with_unfolding_all rfl
  obtain ⟨hspans, hwhole⟩ := balanced_of_read "a '(\")\" ;)\n(b)) ".toList
  exact ⟨_, _, hquote, rfl, rfl, hspans .quote 2 2 _ hquote, hread, hwhole _ _ hread⟩

end Sexp
