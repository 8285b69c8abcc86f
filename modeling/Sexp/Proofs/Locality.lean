import Sexp.Proofs.Image
import Sexp.Proofs.StreamRun
import Sexp.Proofs.Token

/-!
# Replacing the tail of a text

What is read in front of a boundary depends on the text behind the boundary only
in so far as it ends the numeral, the symbol or the comment in front of it.
-/

namespace Sexp

open Grammar Text

theorem Text.ignorableLength_cons (comment : Bool) (ch : Char) :
    (∃ comment', ∀ cs, ignorableLength comment (ch :: cs) = ignorableLength comment' cs + 1) ∨
      comment = false ∧ ∀ cs, ignorableLength comment (ch :: cs) = 0 := by
  cases comment with
  | true => exact .inl ⟨ch != '\n', fun _ => rfl⟩
  | false =>
      by_cases hblank : isBlank ch = true
      · exact .inl ⟨false, fun cs => by rw [ignorableLength, if_pos hblank]⟩
      · by_cases hcomment : ch = ';'
        · exact .inl ⟨true, fun cs => by rw [ignorableLength, if_neg hblank, if_pos hcomment]⟩
        · exact .inr ⟨rfl, fun cs => by rw [ignorableLength, if_neg hblank, if_neg hcomment]⟩

theorem Text.Cursor.le_length_of_advance {pos n : Nat} {text tail : List Char}
    (hn : n ≤ (text ++ tail).length)
    (h : tail.length ≤ (Cursor.advance ⟨pos, text ++ tail⟩ n).rest.length) : n ≤ text.length := by
  rw [Cursor.length_rest_advance] at h
  rw [List.length_append] at hn h
  omega

section Number

variable {text tail : List Char}

theorem Grammar.number?_takeWhile (cs : List Char) :
    number? (cs.takeWhile isSymbolChar) = number? cs := by
  have hends := (EndsRun.dropWhile isSymbolChar cs).numeralChar
  rw [← number?_append hends, List.takeWhile_append_dropWhile]

theorem Grammar.number?_of_word {ch : Char} {word : List Char} (hch : beginsNumber ch = false)
    (hword : ch :: word <+: text ++ tail) (hlength : (ch :: word).length ≤ text.length) :
    number? text = none := by
  obtain ⟨later, rfl⟩ := List.prefix_of_prefix_length_le hword (List.prefix_append _ _) hlength
  exact number?_eq_none (.cons hch)

theorem Grammar.number?_of_bare {pos : Nat}
    (hend : tail.length ≤ (bare ⟨pos, text ++ tail⟩).next.rest.length) :
    number? text = number? (text ++ tail) := by
  unfold bare at hend
  cases hnumber : number? (text ++ tail) with
  | some taken =>
      obtain ⟨numeral, value⟩ := taken
      simp only [hnumber] at hend
      exact number?_of_append hnumber
        (Cursor.le_length_of_advance (length_text_le_of_number? hnumber) hend)
  | none =>
      simp only [hnumber] at hend
      split at hend
      · rename_i htrue
        have hbegin := List.isPrefixOf_iff_prefix.1 htrue
        exact number?_of_word (by decide) hbegin (Cursor.le_length_of_advance hbegin.length_le hend)
      · split at hend
        · rename_i hfalse
          have hbegin := List.isPrefixOf_iff_prefix.1 hfalse
          exact number?_of_word (by decide) hbegin
            (Cursor.le_length_of_advance hbegin.length_le hend)
        · have hrun := Cursor.le_length_of_advance (List.takeWhile_prefix _).length_le hend
          rw [← number?_takeWhile text, ← takeWhile_of_append hrun, number?_takeWhile, hnumber]

end Number

/-- One tail of a text may be replaced by another one: a numeral ends in front of the
other tail, a symbol that ends in front of the one ends in front of the other, and a
comment that the text ends in goes on to the end of its line. -/
structure TailSwap (tail tail' : List Char) : Prop where
  numeral : EndsRun numeralChar tail'
  symbol : EndsRun isSymbolChar tail → EndsRun isSymbolChar tail'
  comment : tail = [] → ∀ ch ∈ tail'.head?, ch = '\n'

namespace TailSwap

variable {tail tail' : List Char}

theorem of_endsRun (h : EndsRun isSymbolChar tail')
    (hcomment : tail = [] → ∀ ch ∈ tail'.head?, ch = '\n') : TailSwap tail tail' :=
  ⟨h.numeralChar, fun _ => h, hcomment⟩

theorem cut (tail : List Char) : TailSwap tail [] :=
  of_endsRun (.nil _) (by simp)

theorem of_head {ch : Char} (hch : numeralChar ch = false) (cs cs' : List Char) :
    TailSwap (ch :: cs) (ch :: cs') :=
  ⟨.cons hch, fun h => .cons h.head, fun h => absurd h (List.cons_ne_nil _ _)⟩

theorem close (cs cs' : List Char) : TailSwap (')' :: cs) (')' :: cs') :=
  of_head (by decide) cs cs'

theorem quotation (cs cs' : List Char) : TailSwap ('"' :: cs) ('"' :: cs') :=
  of_head (by decide) cs cs'

theorem mark {b : Bracket} {mark : Char} (hmark : b.mark? = some mark) (cs cs' : List Char) :
    TailSwap (mark :: cs) (mark :: cs') := by
  refine of_head ?_ cs cs'
  cases b <;> cases hmark <;> decide

theorem line (cs : List Char) : TailSwap [] ('\n' :: cs) :=
  of_endsRun (.cons (by decide)) (by simp)

theorem ignorableLength_append (h : TailSwap tail tail') (text : List Char) (comment : Bool)
    (hlength : ignorableLength comment (text ++ tail) ≤ text.length) :
    ignorableLength comment (text ++ tail') =
      ignorableLength comment (text ++ tail) +
        ignorableLength false ((text ++ tail').drop (ignorableLength comment (text ++ tail))) := by
  induction text generalizing comment with
  | nil =>
      have hzero : ignorableLength comment tail = 0 := Nat.le_zero.1 hlength
      rw [List.nil_append, List.nil_append, hzero, List.drop_zero, Nat.zero_add]
      cases comment with
      | false => rfl
      | true =>
          -- a comment takes every character, so that only the end of the text stops it
          have htail : tail = [] := by
            cases tail with
            | nil => rfl
            | cons ch cs => simp [ignorableLength] at hzero
          cases tail' with
          | nil => rfl
          | cons ch cs =>
              obtain rfl : ch = '\n' := h.comment htail ch rfl
              rfl
  | cons ch text ih =>
      rw [List.cons_append] at hlength
      rw [List.cons_append, List.cons_append]
      obtain ⟨comment', hnext⟩ | ⟨rfl, hstop⟩ := ignorableLength_cons comment ch
      · rw [hnext, List.length_cons] at hlength
        rw [hnext, hnext, List.drop_succ_cons, ih comment' (by omega)]
        omega
      · rw [hstop, hstop, List.drop_zero, hstop]

theorem skip_append (h : TailSwap tail tail') {pos pos' : Nat} {text later : List Char}
    (hskip : Cursor.skip ⟨pos, text ++ tail⟩ = ⟨pos', later ++ tail⟩) :
    Cursor.skip ⟨pos, text ++ tail'⟩ = Cursor.skip ⟨pos', later ++ tail'⟩ := by
  have hlength := ignorableLength_le false (text ++ tail)
  have hignorable := h.ignorableLength_append text false
  simp only [Cursor.skip, Cursor.advance, Cursor.mk.injEq] at hskip ⊢
  generalize ignorableLength false (text ++ tail) = n at hskip hlength hignorable
  obtain ⟨rfl, hrest⟩ := hskip
  have htaken : n ≤ text.length := by
    have := congrArg List.length hrest
    simp only [List.length_drop, List.length_append] at this hlength
    omega
  have hlater : text.drop n = later := by
    rw [List.drop_append_of_le_length htaken] at hrest
    exact List.append_cancel_right hrest
  have hdrop : (text ++ tail').drop n = later ++ tail' := by
    rw [List.drop_append_of_le_length htaken, hlater]
  rw [hignorable htaken, ← List.drop_drop, hdrop, Nat.add_assoc]
  exact ⟨rfl, rfl⟩

theorem skip_eq_of_skip_eq {pos pos' : Nat} {text later : List Char} {ch : Char}
    (h : Cursor.skip ⟨pos, text⟩ = ⟨pos', ch :: later⟩) (cs : List Char) :
    Cursor.skip ⟨pos', ch :: cs⟩ = ⟨pos', ch :: cs⟩ := by
  have hzero : ignorableLength false (ch :: later) = 0 := by
    have := ignorableLength_drop false text
    rwa [show text.drop _ = ch :: later from congrArg Cursor.rest h] at this
  obtain ⟨comment', hnext⟩ | ⟨-, hstop⟩ := ignorableLength_cons false ch
  · simp [hnext] at hzero
  · simp [Cursor.skip, hstop]

theorem skip_append_of_ne_nil (h : TailSwap tail tail') {pos pos' : Nat}
    {text later : List Char} (hlater : later ≠ [])
    (hskip : Cursor.skip ⟨pos, text ++ tail⟩ = ⟨pos', later ++ tail⟩) :
    Cursor.skip ⟨pos, text ++ tail'⟩ = ⟨pos', later ++ tail'⟩ := by
  rw [h.skip_append hskip]
  obtain ⟨ch, later, rfl⟩ := List.exists_cons_of_ne_nil hlater
  exact skip_eq_of_skip_eq hskip _

theorem takeWhile_append (h : TailSwap tail tail') {text : List Char}
    (hlength : ((text ++ tail).takeWhile isSymbolChar).length ≤ text.length) :
    (text ++ tail').takeWhile isSymbolChar = (text ++ tail).takeWhile isSymbolChar := by
  rw [List.takeWhile_append] at hlength ⊢
  rw [List.takeWhile_append]
  split
  · rename_i hall
    rw [if_pos hall, List.length_append] at hlength
    have htail : EndsRun isSymbolChar tail := by
      intro ch hch
      obtain ⟨cs, rfl⟩ := List.head?_eq_some_iff.1 hch
      rw [Bool.eq_false_iff]
      intro hsymbol
      rw [List.takeWhile_cons, if_pos hsymbol, List.length_cons] at hlength
      omega
    rw [htail.takeWhile_eq_nil, (h.symbol htail).takeWhile_eq_nil]
  · rfl

theorem isPrefixOf_append (h : TailSwap tail tail') {text word : List Char}
    (hword : ∀ ch ∈ word, isSymbolChar ch = true)
    (hlength : ((text ++ tail).takeWhile isSymbolChar).length ≤ text.length) :
    word.isPrefixOf (text ++ tail') = word.isPrefixOf (text ++ tail) := by
  have hrun : ∀ cs : List Char, word <+: cs ↔ word <+: cs.takeWhile isSymbolChar := by
    intro cs
    refine ⟨?_, fun hbegin => hbegin.trans (List.takeWhile_prefix _)⟩
    rintro ⟨later, rfl⟩
    rw [List.takeWhile_append_of_pos hword]
    exact List.prefix_append _ _
  rw [Bool.eq_iff_iff, List.isPrefixOf_iff_prefix, List.isPrefixOf_iff_prefix, hrun,
    h.takeWhile_append hlength, ← hrun]

theorem bare_append (h : TailSwap tail tail') {pos pos' : Nat} {text later : List Char}
    (hlength : pos' + later.length = pos + text.length)
    (hbare : (bare ⟨pos, text ++ tail⟩).next = ⟨pos', later ++ tail⟩) :
    bare ⟨pos, text ++ tail'⟩ =
      ⟨(bare ⟨pos, text ++ tail⟩).value, ⟨pos', later ++ tail'⟩, none⟩ := by
  have hadvance : ∀ {n : Nat}, Cursor.advance ⟨pos, text ++ tail⟩ n = ⟨pos', later ++ tail⟩ →
      n ≤ text.length ∧ Cursor.advance ⟨pos, text ++ tail'⟩ n = ⟨pos', later ++ tail'⟩ := by
    intro n hnext
    simp only [Cursor.advance, Cursor.mk.injEq] at hnext ⊢
    obtain ⟨rfl, hrest⟩ := hnext
    have hn : n ≤ text.length := by omega
    rw [List.drop_append_of_le_length hn] at hrest ⊢
    exact ⟨hn, rfl, by rw [List.append_cancel_right hrest]⟩
  have hword : ∀ {word : List Char}, word.isPrefixOf (text ++ tail) = true →
      word.length ≤ text.length → word.isPrefixOf (text ++ tail') = true := by
    intro word hbegin hle
    rw [List.isPrefixOf_iff_prefix] at hbegin ⊢
    exact (List.prefix_of_prefix_length_le hbegin (List.prefix_append _ _) hle).trans
      (List.prefix_append _ _)
  have hend : tail.length ≤ (bare ⟨pos, text ++ tail⟩).next.rest.length := by
    rw [hbare, List.length_append]
    exact Nat.le_add_left _ _
  have hnumber : number? (text ++ tail') = number? (text ++ tail) :=
    (number?_append h.numeral).trans (number?_of_bare hend)
  unfold bare at hbare ⊢
  simp only [hnumber] at hbare ⊢
  split
  · rename_i numeral value hnumber
    simp only [hnumber] at hbare
    rw [(hadvance hbare).2]
  · rename_i hnumber
    simp only [hnumber] at hbare
    by_cases htrue : "true".toList.isPrefixOf (text ++ tail) = true
    · rw [if_pos htrue] at hbare
      obtain ⟨hle, hnext⟩ := hadvance hbare
      rw [if_pos htrue, if_pos (hword htrue hle), hnext]
    · rw [if_neg htrue] at hbare
      by_cases hfalse : "false".toList.isPrefixOf (text ++ tail) = true
      · rw [if_pos hfalse] at hbare
        obtain ⟨hle, hnext⟩ := hadvance hbare
        have htrue' : ¬"true".toList.isPrefixOf (text ++ tail') = true := by
          intro htrue'
          obtain ⟨behind, hbehind⟩ := List.isPrefixOf_iff_prefix.1 htrue'
          obtain ⟨behind', hbehind'⟩ := List.isPrefixOf_iff_prefix.1 (hword hfalse hle)
          exact absurd (hbehind.trans hbehind'.symm) (by simp)
        rw [if_neg htrue, if_pos hfalse, if_neg htrue', if_pos (hword hfalse hle), hnext]
      · rw [if_neg hfalse] at hbare
        obtain ⟨hle, hnext⟩ := hadvance hbare
        -- the run of symbol characters ends in front of the tail, and no word goes on behind it
        have hsymbol : ∀ {word : List Char}, (∀ ch ∈ word, isSymbolChar ch = true) →
            word.isPrefixOf (text ++ tail') = word.isPrefixOf (text ++ tail) :=
          fun hchars => h.isPrefixOf_append hchars hle
        rw [if_neg htrue, if_neg hfalse, hsymbol (List.all_eq_true.1 rfl), if_neg htrue,
          hsymbol (List.all_eq_true.1 rfl), if_neg hfalse, h.takeWhile_append hle, hnext]

theorem token_append (h : TailSwap tail tail') {pos pos' : Nat} {text later : List Char}
    {t : Token} {stoppedBy : Option Failure}
    (htoken : token ⟨pos, text ++ tail⟩ = .matched ⟨t, ⟨pos', later ++ tail⟩, stoppedBy⟩) :
    token ⟨pos, text ++ tail'⟩ = .matched ⟨t, ⟨pos', later ++ tail'⟩, stoppedBy⟩ := by
  obtain ⟨hprecedes, hless⟩ := precedes_of_token htoken
  have hlength : later.length + tail.length = (later ++ tail).length := List.length_append.symm
  obtain ⟨ignored, text, rfl, hskip⟩ :=
    (Cursor.Precedes.skip ⟨pos, text ++ tail⟩).exists_append (by dsimp only at hless; omega)
  have hne : text ≠ [] := by
    rintro rfl
    rw [hskip] at hless
    simp only [List.nil_append, List.length_append] at hless
    omega
  have hskip' := h.skip_append_of_ne_nil hne hskip
  have hcase := tokenAt_eq_iff.1 htoken
  rw [hskip] at hcase hprecedes
  rw [token, hskip', tokenAt_eq_iff]
  generalize pos + ignored.length = start at hcase hprecedes ⊢
  -- what the token takes is the same part of both texts
  have htaken : ∀ (taken : List Char) {cs : List Char}, text ++ tail = taken ++ cs →
      cs = later ++ tail → text ++ tail' = taken ++ (later ++ tail') := by
    rintro taken cs hrest rfl
    rw [← List.append_assoc] at hrest ⊢
    rw [List.append_cancel_right hrest]
  generalize hreply : Reply.matched (Match.mk t ⟨pos', later ++ tail⟩ stoppedBy) = reply at hcase
  cases hcase with
  | finish => cases hreply
  | loneMark => cases hreply
  | openString => cases hreply
  | badEscape => cases hreply
  | @closing cs hrest =>
      cases hreply
      exact .closing (htaken [')'] hrest rfl)
  | @opening b cs hrest =>
      cases hreply
      have hrest' := htaken (b.mark?.toList ++ ['(']) (by simpa using hrest) rfl
      exact .opening (by simpa using hrest')
  | @string body value cs hrest hbody =>
      cases hreply
      have hrest' := htaken ('"' :: (body ++ ['"'])) (by simpa using hrest) rfl
      exact .string (by simpa using hrest') hbody
  | @bare ch cs hrest hmark =>
      obtain ⟨first, text, rfl⟩ := List.exists_cons_of_ne_nil hne
      obtain rfl : first = ch := (List.cons.inj hrest).1
      simp only [found, Reply.matched.injEq, Match.mk.injEq] at hreply
      obtain ⟨rfl, hnext, rfl⟩ := hreply
      have hend := hprecedes.pos_add_length
      simp only [List.length_append] at hend
      have hbare := h.bare_append (by omega) hnext.symm
      have hcase : TokenCase ⟨start, first :: text ++ tail'⟩ _ := .bare rfl hmark
      rwa [hbare] at hcase

end TailSwap

theorem Text.skip_append_close {pos pos' : Nat} {text later cs : List Char}
    (hskip : Cursor.skip ⟨pos, text ++ ')' :: cs⟩ = ⟨pos', later ++ ')' :: cs⟩)
    (cs' : List Char) :
    Cursor.skip ⟨pos, text ++ ')' :: cs'⟩ = ⟨pos', later ++ ')' :: cs'⟩ := by
  have hswap := TailSwap.close cs cs'
  by_cases hlater : later = []
  · subst hlater
    rw [hswap.skip_append hskip]
    exact TailSwap.skip_eq_of_skip_eq hskip _
  · exact hswap.skip_append_of_ne_nil hlater hskip

/-- A recognizer of a form finds the same form whatever stands behind the tail that
the form ends in front of. -/
def FormLocal (item : Recognizer Form) : Prop :=
  ∀ {tail tail' : List Char}, TailSwap tail tail' → ∀ {pos pos' : Nat} {text later : List Char}
    {value : Form} {stoppedBy : Option Failure},
    item ⟨pos, text ++ tail⟩ = .matched ⟨value, ⟨pos', later ++ tail⟩, stoppedBy⟩ →
      item ⟨pos, text ++ tail'⟩ = .matched ⟨value, Cursor.skip ⟨pos', later ++ tail'⟩, none⟩

/-- A recognizer of the forms in parentheses finds the same forms whatever stands
behind the parenthesis that ends them. -/
def BodyLocal (contents : Recognizer (List Form)) : Prop :=
  ∀ {pos pos' : Nat} {text behind : List Char} {m : Match (List Form)},
    contents ⟨pos, text ++ ')' :: behind⟩ = .matched m → m.next.skip = ⟨pos', ')' :: behind⟩ →
      ∀ behind', ∃ next, next.skip = ⟨pos', ')' :: behind'⟩ ∧
        contents ⟨pos, text ++ ')' :: behind'⟩ = .matched ⟨m.value, next, m.stoppedBy⟩

theorem BodyLocal.exists_body {contents : Recognizer (List Form)} (hcontents : BodyLocal contents)
    (hadvances : Advances contents) {pos : Nat} {cs behind : List Char} {inner : Match (List Form)}
    (hinner : contents (Cursor.skip ⟨pos, cs⟩) = .matched inner)
    (hclose : inner.next.skip.rest = ')' :: behind) :
    ∃ body, cs = body ++ ')' :: behind ∧ ∀ behind', ∃ stop,
      contents (Cursor.skip ⟨pos, body ++ ')' :: behind'⟩) =
          .matched ⟨inner.value, stop, inner.stoppedBy⟩ ∧
        stop.skip = ⟨inner.next.skip.pos, ')' :: behind'⟩ := by
  obtain ⟨ignored, hignored, -⟩ := Cursor.Precedes.skip ⟨pos, cs⟩
  generalize hstart : Cursor.skip ⟨pos, cs⟩ = start at hinner hignored
  obtain ⟨startPos, startRest⟩ := start
  obtain ⟨body, hbody, -⟩ := (hadvances _ _ hinner).trans (.skip _)
  dsimp only at hbody hignored
  rw [hclose] at hbody
  subst hbody
  rw [← List.append_assoc] at hignored
  subst hignored
  refine ⟨ignored ++ body, rfl, fun behind' => ?_⟩
  have hend : inner.next.skip = ⟨inner.next.skip.pos, ')' :: behind⟩ := by
    rw [← hclose]
  obtain ⟨stop, hstop, hinner'⟩ := hcontents hinner hend behind'
  exact ⟨stop, by rw [Text.skip_append_close hstart, hinner'], hstop⟩

theorem expressionOf_formLocal {contents : Recognizer (List Form)}
    (hnever : NeverBacktracks contents) (hadvances : Advances contents)
    (hcontents : BodyLocal contents) : FormLocal (expressionOf contents) := by
  intro tail tail' hswap pos pos' text later value stoppedBy h
  have hlater : tail.length ≤ (later ++ tail).length := by simp
  rw [expressionOf_eq_bind hnever] at h ⊢
  obtain ⟨⟨t, next, stopped⟩, htoken, hform⟩ := Reply.bind_eq_matched_iff.1 h
  have hnext : Cursor.Precedes ⟨pos, text ++ tail⟩ next :=
    (Cursor.Precedes.skip _).trans (precedes_of_token htoken).1
  cases t with
  | closing => exact absurd hform expected_ne_matched
  | atom form =>
      have hmatch := found_eq_matched_iff.1 hform
      simp only [Match.mk.injEq] at hmatch
      obtain ⟨rfl, hskip, rfl⟩ := hmatch
      have hend := (Cursor.Precedes.skip next).pos_add_length
      have hpos := (Cursor.Precedes.skip next).pos_le
      rw [← hskip] at hend hpos
      obtain ⟨taken, between, rfl, rfl⟩ := hnext.exists_append (by dsimp only at hend hpos; omega)
      rw [hswap.token_append htoken, Reply.bind_matched, expressionFrom,
        hswap.skip_append hskip.symm]
      rfl
  | opening b =>
      obtain ⟨inner, behind, hinner, hclose, hmatch⟩ :=
        expressionFrom_opening_eq_matched_iff.1 hform
      simp only [Match.mk.injEq] at hmatch
      obtain ⟨rfl, hskip, rfl⟩ := hmatch
      -- everything up to the closing parenthesis stands in front of the tail
      obtain ⟨skipped, hbehind, -⟩ := Cursor.Precedes.skip ⟨inner.next.skip.pos + 1, behind⟩
      rw [← hskip] at hbehind
      obtain ⟨between, rfl⟩ : ∃ between, behind = between ++ tail :=
        ⟨skipped ++ later, by simpa using hbehind⟩
      obtain ⟨nextPos, nextRest⟩ := next
      obtain ⟨body, rfl, hlocal⟩ := hcontents.exists_body hadvances hinner hclose
      have htoken : token ⟨pos, text ++ tail⟩ = .matched ⟨.opening b,
          ⟨nextPos, (body ++ ')' :: between) ++ tail⟩, stopped⟩ := by
        simpa using htoken
      obtain ⟨stop, hinner, hstop⟩ := hlocal (between ++ tail')
      rw [hswap.token_append htoken, Reply.bind_matched, expressionFrom_opening_eq_matched_iff,
        List.append_assoc, List.cons_append]
      refine ⟨_, between ++ tail', hinner, ?_, ?_⟩
      · rw [hstop]
      · rw [hstop, hswap.skip_append hskip.symm]

theorem expression_of_close {depth pos : Nat} {c : Cursor} {cs : List Char}
    (h : c.skip = ⟨pos, ')' :: cs⟩) :
    expression depth c = .failed (.expecting pos .expression) := by
  rw [expression, expressionOf_none (by rw [h]; exact .close cs), h]
  rfl

theorem repeated_bodyLocal {depth : Nat} (hitem : FormLocal (expression depth)) :
    BodyLocal (repeated (expression depth)) := by
  intro pos pos' text behind m h hend behind'
  generalize hc : (⟨pos, text ++ ')' :: behind⟩ : Cursor) = c at h
  fun_induction repeated (expression depth) c generalizing pos text m with
  | case1 => simp at h
  | case2 => simp at h
  | case3 c f hf hcommitted =>
      cases h
      subst hc
      have hstop : Cursor.skip ⟨pos, text ++ ')' :: behind⟩ = ⟨pos', [] ++ ')' :: behind⟩ := hend
      have hstop' := Text.skip_append_close hstop behind'
      have hnone : expression depth ⟨pos, text ++ ')' :: behind'⟩ = .failed f := by
        rw [← hf, expression_of_close hstop, expression_of_close hstop']
      refine ⟨_, hstop', ?_⟩
      rw [repeated_of_failed hnone (by simpa using hcommitted)]
  | case4 c n hn hless ih =>
      obtain ⟨k, hk, rfl⟩ := Reply.map_eq_matched_iff.1 h
      subst hc
      have hbefore : n.next.Precedes k.next.skip :=
        (repeated_advances (expression_advances depth) _ _ hk).trans (.skip _)
      rw [show k.next.skip = ⟨pos', ')' :: behind⟩ from hend] at hbefore
      obtain ⟨later, hlater, -⟩ := hbefore
      obtain ⟨value, ⟨nextPos, nextRest⟩, stoppedBy⟩ := n
      dsimp only at hlater
      subst hlater
      have hend : k.next.skip = ⟨pos', ')' :: behind⟩ := hend
      have hskip := Text.skip_append_close (skip_next_of_expression hn) behind'
      have hn' := hitem (TailSwap.close behind behind') hn
      rw [hskip] at hn'
      obtain ⟨stop, hstop, hlater⟩ := ih hend rfl hk
      refine ⟨stop, hstop, ?_⟩
      rw [repeated_of_matched (expression_consumes depth) hn', hlater]
      rfl
  | case5 c n hn hless => exact absurd (expression_consumes _ _ _ hn) hless

theorem forms_bodyLocal (depth : Nat) : BodyLocal (forms depth) := by
  induction depth with
  | zero =>
      intro pos pos' text behind m h
      simp [forms] at h
  | succ depth ih =>
      rw [forms_succ]
      exact repeated_bodyLocal
        (expressionOf_formLocal (forms_neverBacktracks depth) (forms_advances depth) ih)

/-- What is read of a form does not depend on the text behind it. -/
theorem expression_formLocal (depth : Nat) : FormLocal (expression depth) :=
  expressionOf_formLocal (forms_neverBacktracks depth) (forms_advances depth)
    (forms_bodyLocal depth)

end Sexp
