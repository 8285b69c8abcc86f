import Sexp.Proofs.CursorOrder
import Sexp.Proofs.Reading
import Sexp.Proofs.StringBody

namespace Sexp.Grammar

open Text

/-- The three ways to write a form that holds other forms. -/
inductive Bracket where
  | list
  | quote
  | tuple
  deriving DecidableEq, Repr

namespace Bracket

/-- The mark in front of the parenthesis. -/
def mark? : Bracket → Option Char
  | .list => none
  | .quote => some Form.quoteMark
  | .tuple => some Form.tupleMark

def shape : Bracket → Shape
  | .list => .list
  | .quote => .quote
  | .tuple => .tuple

/-- What a failure inside of the form lies within. -/
def label (b : Bracket) : Label :=
  .form b.shape

/-- What the form is called. -/
def name : Bracket → String
  | .list => "list"
  | .quote => "quote"
  | .tuple => "tuple"

theorem text_label (b : Bracket) : b.label.text = b.name := by
  cases b <;> rfl

/-- The form that holds the given items. -/
def build : Bracket → List Form → Form
  | .list => .list
  | .quote => .quote
  | .tuple => Form.tupleForm

/-- The character that the text of the form begins with. -/
def first (b : Bracket) : Char :=
  b.mark?.getD '('

theorem first_of_mark {b : Bracket} {mark : Char} (h : b.mark? = some mark) : b.first = mark := by
  rw [first, h, Option.getD_some]

theorem opening_eq_cons (b : Bracket) (cs : List Char) :
    ∃ cs', b.mark?.toList ++ '(' :: cs = b.first :: cs' := by
  cases b <;> exact ⟨_, rfl⟩

end Bracket

/-- A part of a text that can be told without what stands around it. -/
inductive Token where
  | opening (bracket : Bracket)
  | closing
  | atom (form : Form)

/-- The parenthesis that a mark asks for. -/
def behindMark (b : Bracket) : Recognizer Token := fun c =>
  match c.after? ['('] with
  | some inside => found (.opening b) inside
  | none => .failed ⟨c.pos, .openParen, true, [b.label]⟩

/-- The token that begins at a cursor. -/
def tokenAt : Recognizer Token := fun c =>
  match c.rest with
  | [] => expected c .expression
  | '(' :: cs => found (.opening .list) ⟨c.pos + 1, cs⟩
  | ')' :: cs => found .closing ⟨c.pos + 1, cs⟩
  | '\'' :: cs => behindMark .quote ⟨c.pos + 1, cs⟩
  | '^' :: cs => behindMark .tuple ⟨c.pos + 1, cs⟩
  | '"' :: cs => (stringBody (c.pos + 1) cs).map fun value => .atom (.string (String.ofList value))
  | _ => found (.atom (bare c).value) (bare c).next

/-- The token behind the ignorable text at a cursor. -/
def token : Recognizer Token := fun c =>
  tokenAt c.skip

/-- What is read of a form once its first token is known. -/
def expressionFrom (contents : Recognizer (List Form)) (c : Cursor) (m : Match Token) :
    Reply Form :=
  match m.value with
  | .opening b =>
      ((((contents m.next.skip).bind closeParen).mapFailure (Failure.within · b.label)).map
        b.build).skipBehind
  | .closing => expected c.skip .expression
  | .atom form => found form m.next.skip

theorem Bracket.skip_mark {b : Bracket} {mark : Char} (hmark : b.mark? = some mark) (pos : Nat)
    (cs : List Char) : Cursor.skip ⟨pos, mark :: cs⟩ = ⟨pos, mark :: cs⟩ := by
  cases b <;> cases hmark <;> rfl

theorem token_skip (c : Cursor) : token c.skip = token c := by
  rw [token, Cursor.skip_skip]
  rfl

theorem behindMark_of_paren (b : Bracket) (pos : Nat) (cs : List Char) :
    behindMark b ⟨pos, '(' :: cs⟩ = found (.opening b) ⟨pos + 1, cs⟩ := by
  simp only [behindMark, after?_of_rest (c := ⟨pos, '(' :: cs⟩) rfl]

theorem behindMark_of_ne {b : Bracket} {c : Cursor} (h : c.rest.head? ≠ some '(') :
    behindMark b c = .failed ⟨c.pos, .openParen, true, [b.label]⟩ := by
  simp only [behindMark, after?_eq_none h]

/-- What begins at a cursor, one case for each beginning of the text there. -/
inductive TokenCase (c : Cursor) : Reply Token → Prop where
  | finish : c.rest = [] → TokenCase c (expected c .expression)
  | closing {cs : List Char} : c.rest = ')' :: cs →
      TokenCase c (found .closing ⟨c.pos + 1, cs⟩)
  | opening {b : Bracket} {cs : List Char} : c.rest = b.mark?.toList ++ '(' :: cs →
      TokenCase c (found (.opening b) ⟨c.pos + b.mark?.toList.length + 1, cs⟩)
  | loneMark {b : Bracket} {mark : Char} {cs : List Char} : b.mark? = some mark →
      c.rest = mark :: cs → cs.head? ≠ some '(' →
      TokenCase c (.failed ⟨c.pos + 1, .openParen, true, [b.label]⟩)
  | string {text value cs : List Char} : c.rest = '"' :: (text ++ '"' :: cs) →
      StringText text value →
      TokenCase c (found (.atom (.string (String.ofList value)))
        ⟨c.pos + 1 + text.length + 1, cs⟩)
  | openString {text value : List Char} : c.rest = '"' :: text → StringText text value →
      TokenCase c (.failed (.expecting (c.pos + 1 + text.length) .closingQuote))
  | badEscape {text value cs : List Char} : c.rest = '"' :: (text ++ '\\' :: cs) →
      StringText text value → cs.head? ≠ some '"' →
      TokenCase c (.failed (.expecting (c.pos + 1 + text.length) .quoteEscape))
  | bare {ch : Char} {cs : List Char} : c.rest = ch :: cs → ch ∉ marks →
      TokenCase c (found (.atom (bare c).value) (bare c).next)

theorem tokenCase_behindMark {c : Cursor} {b : Bracket} {mark : Char} {cs : List Char}
    (hmark : b.mark? = some mark) (hrest : c.rest = mark :: cs) :
    TokenCase c (behindMark b ⟨c.pos + 1, cs⟩) := by
  by_cases hcs : cs.head? = some '('
  · obtain ⟨inner, rfl⟩ := List.head?_eq_some_iff.1 hcs
    rw [behindMark_of_paren]
    have hrest' : c.rest = b.mark?.toList ++ '(' :: inner := by simp [hmark, hrest]
    simpa [hmark] using TokenCase.opening hrest'
  · rw [behindMark_of_ne hcs]
    exact .loneMark hmark hrest hcs

theorem tokenCase_tokenAt (c : Cursor) : TokenCase c (tokenAt c) := by
  unfold tokenAt
  split
  · rename_i hrest
    exact .finish hrest
  · rename_i hrest
    exact .opening (b := .list) hrest
  · rename_i hrest
    exact .closing hrest
  · rename_i hrest
    exact tokenCase_behindMark rfl hrest
  · rename_i hrest
    exact tokenCase_behindMark rfl hrest
  · rename_i cs hrest
    obtain ⟨text, value, rest, rfl, htext, hend⟩ := exists_stringText cs
    cases hend with
    | missing =>
        rw [List.append_nil] at hrest ⊢
        rw [htext.stringBody_missing]
        exact .openString hrest htext
    | mark behind =>
        rw [htext.stringBody_mark]
        exact .string hrest htext
    | backslash hbehind =>
        rw [htext.stringBody_backslash _ hbehind]
        exact .badEscape hrest htext hbehind
  · rename_i hnil hopen hclose hquote htuple hquotation
    obtain ⟨ch, cs, hrest⟩ := List.exists_cons_of_ne_nil hnil
    refine .bare hrest ?_
    simp only [marks, List.mem_cons, List.not_mem_nil, or_false, not_or]
    refine ⟨?_, ?_, ?_, ?_, ?_⟩ <;> rintro rfl
    · exact hopen cs hrest
    · exact hclose cs hrest
    · exact hquote cs hrest
    · exact htuple cs hrest
    · exact hquotation cs hrest

theorem TokenCase.tokenAt_eq {c : Cursor} {reply : Reply Token} (h : TokenCase c reply) :
    tokenAt c = reply := by
  cases h with
  | finish hrest => simp only [tokenAt, hrest]
  | closing hrest => simp only [tokenAt, hrest]
  | @opening b cs hrest =>
      cases b with
      | list =>
          simp only [tokenAt, show c.rest = '(' :: cs from hrest]
          rfl
      | quote =>
          simp only [tokenAt, show c.rest = '\'' :: '(' :: cs from hrest, behindMark_of_paren]
          rfl
      | tuple =>
          simp only [tokenAt, show c.rest = '^' :: '(' :: cs from hrest, behindMark_of_paren]
          rfl
  | @loneMark b mark cs hmark hrest hcs =>
      cases b with
      | list => cases hmark
      | quote =>
          cases hmark
          simp only [tokenAt, hrest, Form.quoteMark]
          exact behindMark_of_ne hcs
      | tuple =>
          cases hmark
          simp only [tokenAt, hrest, Form.tupleMark]
          exact behindMark_of_ne hcs
  | string hrest htext =>
      simp only [tokenAt, hrest, htext.stringBody_mark]
      rfl
  | openString hrest htext =>
      simp only [tokenAt, hrest, htext.stringBody_missing]
      rfl
  | badEscape hrest htext hcs =>
      simp only [tokenAt, hrest, htext.stringBody_backslash _ hcs]
      rfl
  | bare hrest hmark =>
      unfold tokenAt
      split
      case h_7 => rfl
      all_goals
        rename_i hrest'
        rw [hrest] at hrest'
        cases hrest'
      all_goals simp [marks] at hmark

theorem tokenAt_eq_iff {c : Cursor} {reply : Reply Token} :
    tokenAt c = reply ↔ TokenCase c reply :=
  ⟨fun h => h ▸ tokenCase_tokenAt c, TokenCase.tokenAt_eq⟩

theorem TokenCase.token_eq {c : Cursor} {reply : Reply Token} (h : TokenCase c reply)
    (hskip : c.skip = c) : token c = reply := by
  rw [token, hskip, h.tokenAt_eq]

section Expression

variable {contents : Recognizer (List Form)} {c : Cursor} {cs : List Char}

theorem Reply.mapFailure_congr {reply : Reply α} {change change' : Failure → Failure}
    (h : ∀ f, reply = .failed f → change f = change' f) :
    reply.mapFailure change = reply.mapFailure change' := by
  cases reply with
  | matched m => rfl
  | failed f => exact congrArg Reply.failed (h f rfl)
  | tooDeep => rfl

theorem parenthesized_of_rest {contents : Recognizer α} (hrest : c.rest = '(' :: cs) :
    parenthesized contents c = (contents (Cursor.skip ⟨c.pos + 1, cs⟩)).bind closeParen := by
  simp only [parenthesized, after?_of_rest hrest]

theorem listOf_of_rest (hcontents : NeverBacktracks contents) (hrest : c.rest = '(' :: cs) :
    listOf contents c =
      (((contents (Cursor.skip ⟨c.pos + 1, cs⟩)).bind closeParen).mapFailure
        (Failure.within · Bracket.list.label)).map .list := by
  rw [listOf, ← parenthesized_of_rest hrest]
  congr 1
  refine Reply.mapFailure_congr fun f hf => ?_
  rw [if_pos (parenthesized_committed hcontents hrest hf)]
  rfl

theorem marked_of_paren (hcontents : NeverBacktracks contents) {b : Bracket} {mark : Char}
    (hrest : c.rest = mark :: '(' :: cs) :
    marked mark b.shape b.build contents c =
      (((contents (Cursor.skip ⟨c.pos + 1 + 1, cs⟩)).bind closeParen).mapFailure
        (Failure.within · b.label)).map b.build := by
  rw [marked_of_rest hrest, ← parenthesized_of_rest (c := ⟨c.pos + 1, '(' :: cs⟩) rfl]
  congr 1
  refine Reply.mapFailure_congr fun f hf => ?_
  have hcommitted := parenthesized_committed hcontents rfl hf
  rw [Failure.commit, ← hcommitted]
  rfl

theorem marked_of_ne {b : Bracket} {mark : Char} (hrest : c.rest = mark :: cs)
    (hcs : cs.head? ≠ some '(') :
    marked mark b.shape b.build contents c =
      .failed ⟨c.pos + 1, .openParen, true, [b.label]⟩ := by
  rw [marked_of_rest hrest, parenthesized_refuses hcs]
  rfl

theorem recognizer_of_paren (hcontents : NeverBacktracks contents) {b : Bracket}
    (hrest : c.rest = b.mark?.toList ++ '(' :: cs) :
    b.shape.recognizer contents c =
      (((contents (Cursor.skip ⟨c.pos + b.mark?.toList.length + 1, cs⟩)).bind closeParen).mapFailure
        (Failure.within · b.label)).map b.build := by
  cases b with
  | list => exact listOf_of_rest hcontents hrest
  | quote => exact marked_of_paren (b := .quote) hcontents hrest
  | tuple => exact marked_of_paren (b := .tuple) hcontents hrest

theorem recognizer_of_ne {b : Bracket} {mark : Char} (hmark : b.mark? = some mark)
    (hrest : c.rest = mark :: cs) (hcs : cs.head? ≠ some '(') :
    b.shape.recognizer contents c = .failed ⟨c.pos + 1, .openParen, true, [b.label]⟩ := by
  cases b with
  | list => cases hmark
  | quote =>
      cases hmark
      exact marked_of_ne (b := .quote) hrest hcs
  | tuple =>
      cases hmark
      exact marked_of_ne (b := .tuple) hrest hcs

theorem expressionOf_of_first (hcontents : NeverBacktracks contents) {b : Bracket}
    (h : c.skip.rest = b.first :: cs) :
    expressionOf contents c = (b.shape.recognizer contents c.skip).skipBehind := by
  cases b with
  | list => exact expressionOf_list hcontents h
  | quote => exact expressionOf_quote h
  | tuple => exact expressionOf_tuple h

/-- Reading a form is reading its first token and then what this asks for. -/
theorem expressionOf_eq_bind (hcontents : NeverBacktracks contents) (c : Cursor) :
    expressionOf contents c = (token c).bind (expressionFrom contents c) := by
  have hcase := tokenCase_tokenAt c.skip
  unfold token
  generalize tokenAt c.skip = reply at hcase
  cases hcase with
  | finish hrest => exact expressionOf_none (by simp [hrest])
  | closing hrest => exact expressionOf_none (by simp [hrest])
  | @opening b cs hrest =>
      obtain ⟨cs', hfirst⟩ := b.opening_eq_cons cs
      rw [expressionOf_of_first hcontents (hrest.trans hfirst), recognizer_of_paren hcontents hrest]
      rfl
  | @loneMark b mark cs hmark hrest hcs =>
      rw [← Bracket.first_of_mark hmark] at hrest
      rw [expressionOf_of_first hcontents hrest]
      rw [Bracket.first_of_mark hmark] at hrest
      rw [recognizer_of_ne hmark hrest hcs]
      rfl
  | string hrest htext =>
      rw [expressionOf_string hrest]
      simp only [string, after?_of_rest hrest, htext.stringBody_mark]
      rfl
  | openString hrest htext =>
      rw [expressionOf_string hrest]
      simp only [string, after?_of_rest hrest, htext.stringBody_missing]
      rfl
  | badEscape hrest htext hcs =>
      rw [expressionOf_string hrest]
      simp only [string, after?_of_rest hrest, htext.stringBody_backslash _ hcs]
      rfl
  | bare hrest hmark => exact expressionOf_bare hrest hmark

end Expression

theorem closeParen_of_rest {inner : Match α} {behind : List Char}
    (h : inner.next.skip.rest = ')' :: behind) :
    closeParen inner = found inner.value ⟨inner.next.skip.pos + 1, behind⟩ := by
  simp only [closeParen, after?_of_rest h]

theorem closeParen_of_ne {inner : Match α} (h : inner.next.skip.rest.head? ≠ some ')') :
    (closeParen inner : Reply α) =
      .failed (unclosed inner.next.skip.pos inner.stoppedBy) := by
  simp only [closeParen, after?_eq_none h]

theorem closeParen_eq_matched_iff {inner : Match α} {m : Match α} :
    closeParen inner = .matched m ↔
      ∃ behind, inner.next.skip.rest = ')' :: behind ∧
        m = ⟨inner.value, ⟨inner.next.skip.pos + 1, behind⟩, none⟩ := by
  constructor
  · intro h
    by_cases hhead : inner.next.skip.rest.head? = some ')'
    · obtain ⟨behind, hrest⟩ := List.head?_eq_some_iff.1 hhead
      rw [closeParen_of_rest hrest, found_eq_matched_iff] at h
      exact ⟨behind, hrest, h⟩
    · rw [closeParen_of_ne hhead] at h
      cases h
  · rintro ⟨behind, hrest, rfl⟩
    rw [closeParen_of_rest hrest]
    rfl

theorem expressionFrom_opening_eq_matched_iff {contents : Recognizer (List Form)} {c next : Cursor}
    {b : Bracket} {stoppedBy : Option Failure} {m : Match Form} :
    expressionFrom contents c ⟨.opening b, next, stoppedBy⟩ = .matched m ↔
      ∃ inner behind, contents next.skip = .matched inner ∧
        inner.next.skip.rest = ')' :: behind ∧
        m = ⟨b.build inner.value, Cursor.skip ⟨inner.next.skip.pos + 1, behind⟩, none⟩ := by
  simp only [expressionFrom, Reply.skipBehind_eq_matched_iff, Reply.map_eq_matched_iff,
    Reply.mapFailure_eq_matched_iff, Reply.bind_eq_matched_iff, closeParen_eq_matched_iff]
  constructor
  · rintro ⟨_, ⟨_, ⟨inner, hinner, behind, hrest, rfl⟩, rfl⟩, rfl⟩
    exact ⟨inner, behind, hinner, hrest, rfl⟩
  · rintro ⟨inner, behind, hinner, hrest, rfl⟩
    exact ⟨_, ⟨_, ⟨inner, hinner, behind, hrest, rfl⟩, rfl⟩, rfl⟩

theorem precedes_bare {c : Cursor} {ch : Char} (hhead : c.rest.head? = some ch)
    (hch : isSymbolChar ch = true) :
    c.Precedes (bare c).next ∧ (bare c).next.rest.length < c.rest.length := by
  have hpos : c.pos ≤ (Failure.expecting c.pos .expression).pos := Nat.le_refl _
  have hmatched := firstOf_bare hpos hhead hch
  obtain ⟨recognizer, hmem, hrecognizer⟩ := exists_mem_of_firstOf hmatched
  simp only [List.mem_cons, List.not_mem_nil, or_false] at hmem
  rcases hmem with rfl | rfl | rfl
  · exact ⟨number_advances _ _ hrecognizer, number_consumes _ _ hrecognizer⟩
  · exact ⟨boolean_advances _ _ hrecognizer, boolean_consumes _ _ hrecognizer⟩
  · exact ⟨symbol_advances _ _ hrecognizer, symbol_consumes _ _ hrecognizer⟩

theorem precedes_of_token {c : Cursor} {m : Match Token} (h : token c = .matched m) :
    c.skip.Precedes m.next ∧ m.next.rest.length < c.skip.rest.length := by
  have hcase := tokenAt_eq_iff.1 h
  have taken : ∀ (text : List Char) {cs : List Char}, text ≠ [] → c.skip.rest = text ++ cs →
      c.skip.Precedes ⟨c.skip.pos + text.length, cs⟩ ∧ cs.length < c.skip.rest.length := by
    intro text cs htext hrest
    have hlength := List.length_pos_iff.2 htext
    refine ⟨⟨text, hrest, rfl⟩, ?_⟩
    rw [hrest, List.length_append]
    omega
  generalize hreply : (Reply.matched m) = reply at hcase
  cases hcase with
  | finish => cases hreply
  | loneMark => cases hreply
  | openString => cases hreply
  | badEscape => cases hreply
  | closing hrest =>
      cases hreply
      exact taken [')'] (by simp) hrest
  | @opening b cs hrest =>
      cases hreply
      have hopening := taken (b.mark?.toList ++ ['(']) (by simp)
        (by rw [hrest, List.append_assoc, List.singleton_append])
      simpa [Nat.add_assoc] using hopening
  | @string text value cs hrest htext =>
      cases hreply
      have hliteral := taken ('"' :: (text ++ ['"'])) (by simp)
        (by rw [hrest, List.cons_append, List.append_assoc, List.singleton_append])
      simpa [Nat.add_assoc, Nat.add_comm 1] using hliteral
  | bare hrest hmark =>
      cases hreply
      obtain ⟨hblank, hcomment⟩ := head_skip hrest
      exact precedes_bare (by rw [hrest]; rfl) (isSymbolChar_of_not_mark hblank hcomment hmark)

theorem token_ne_tooDeep (c : Cursor) : token c ≠ .tooDeep := by
  intro h
  have hcase := tokenAt_eq_iff.1 h
  generalize hreply : (Reply.tooDeep : Reply Token) = reply at hcase
  cases hcase <;> cases hreply

theorem rest_of_token_closing {c next : Cursor} {stoppedBy : Option Failure}
    (h : token c = .matched ⟨.closing, next, stoppedBy⟩) : c.skip.rest.head? = some ')' := by
  have hcase := tokenAt_eq_iff.1 h
  generalize hreply : Reply.matched (Match.mk Token.closing next stoppedBy) = reply at hcase
  cases hcase with
  | closing hrest => rw [hrest]; rfl
  | _ => cases hreply

theorem pos_lt_of_token_failed {c : Cursor} {f : Failure} (hne : c.skip.rest ≠ [])
    (h : token c = .failed f) : c.skip.pos < f.pos := by
  have hcase := tokenAt_eq_iff.1 h
  generalize hreply : (Reply.failed f : Reply Token) = reply at hcase
  cases hcase with
  | finish hrest => exact absurd hrest hne
  | loneMark =>
      cases hreply
      exact Nat.lt_succ_self _
  | openString =>
      cases hreply
      simp only [Failure.expecting]
      omega
  | badEscape =>
      cases hreply
      simp only [Failure.expecting]
      omega
  | _ => cases hreply

end Sexp.Grammar
