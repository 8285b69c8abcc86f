import Sexp.Proofs.Token

namespace Sexp

namespace Text

/-- The position behind the ignorable text at a position. -/
def skipFrom (source : List Char) (pos : Nat) : Nat :=
  (Cursor.ofText source pos).skip.pos

/-- The places of several parentheses from a position on, with only ignorable text between
one and the next. -/
def parenAt (source : List Char) (pos : Nat) : Nat → Nat
  | 0 => pos
  | i + 1 => skipFrom source (parenAt source pos i + 1)

/-- At the first `n` of these places stand such parentheses. -/
def Parens (paren : Char) (source : List Char) (pos n : Nat) : Prop :=
  ∀ i < n, source[parenAt source pos i]? = some paren

variable {source : List Char} {pos n : Nat} {paren : Char}

namespace Cursor

theorem ofText_skip (source : List Char) (pos : Nat) :
    (ofText source pos).skip = ofText source (skipFrom source pos) :=
  ofText_advance source pos _

end Cursor

theorem parenAt_succ (source : List Char) (pos i : Nat) :
    parenAt source pos (i + 1) = parenAt source (skipFrom source (pos + 1)) i := by
  induction i with
  | zero => rfl
  | succ i ih => rw [parenAt, ih, parenAt]

theorem Parens.first (h : Parens paren source pos (n + 1)) : source[pos]? = some paren :=
  h 0 (Nat.succ_pos n)

theorem Parens.later (h : Parens paren source pos (n + 1)) :
    Parens paren source (skipFrom source (pos + 1)) n := by
  intro i hi
  rw [← parenAt_succ]
  exact h (i + 1) (Nat.succ_lt_succ hi)

end Text

namespace Grammar

open Text

variable {α : Type} {contents : Recognizer α} {source : List Char} {pos stop n i : Nat}
  {value : α} {stoppedBy : Option Failure}

/-- Close a number of parentheses behind their contents. -/
def closeTimes : Nat → Match α → Reply α
  | 0, m => .matched m
  | n + 1, m => (closeTimes n m).bind closeParen

section Opening

theorem parenthesized_of_open (h : source[pos]? = some '(') :
    parenthesized contents (.ofText source pos) =
      (contents (.ofText source (skipFrom source (pos + 1)))).bind closeParen := by
  rw [parenthesized_of_rest (Cursor.rest_ofText_eq_cons h), ← Cursor.ofText_skip]
  rfl

theorem parenthesized_of_not_open (h : source[pos]? ≠ some '(') :
    parenthesized contents (.ofText source pos) = .failed (.expecting pos .openParen) := by
  rw [← Cursor.head?_ofText] at h
  exact parenthesized_refuses h

theorem parenthesizedTimes_of_open (h : Parens '(' source pos n) :
    parenthesizedTimes n contents (.ofText source pos) =
      (contents (.ofText source (parenAt source pos n))).bind (closeTimes n) := by
  induction n generalizing pos with
  | zero =>
      show contents (.ofText source pos) = (contents (.ofText source pos)).bind .matched
      cases contents (.ofText source pos) <;> rfl
  | succ n ih =>
      rw [parenthesizedTimes, parenthesized_of_open h.first, ih h.later, ← parenAt_succ]
      cases contents (.ofText source (parenAt source pos (n + 1))) <;> rfl

theorem parenthesizedTimes_of_not_open (hi : i < n) (hbefore : Parens '(' source pos i)
    (hmissing : source[parenAt source pos i]? ≠ some '(') :
    parenthesizedTimes n contents (.ofText source pos) =
      .failed (.expecting (parenAt source pos i) .openParen) := by
  induction n generalizing pos i with
  | zero => exact absurd hi (Nat.not_lt_zero i)
  | succ n ih =>
      rw [parenthesizedTimes]
      cases i with
      | zero => exact parenthesized_of_not_open hmissing
      | succ i =>
          rw [parenAt_succ] at hmissing ⊢
          have hinner := ih (Nat.lt_of_succ_lt_succ hi) hbefore.later hmissing
          rw [parenthesized_of_open hbefore.first, hinner]
          rfl

end Opening

section Closing

theorem closeParen_of_close (h : source[skipFrom source stop]? = some ')') :
    (closeParen ⟨value, .ofText source stop, stoppedBy⟩ : Reply α) =
      .matched ⟨value, .ofText source (skipFrom source stop + 1), none⟩ := by
  have hrest := Cursor.rest_ofText_eq_cons h
  rw [← Cursor.ofText_skip] at hrest
  rw [closeParen_of_rest hrest]
  rfl

theorem closeParen_of_not_close (h : source[skipFrom source stop]? ≠ some ')') :
    (closeParen ⟨value, .ofText source stop, stoppedBy⟩ : Reply α) =
      .failed (unclosed (skipFrom source stop) stoppedBy) := by
  rw [← Cursor.head?_ofText, ← Cursor.ofText_skip] at h
  exact closeParen_of_ne h

theorem closeTimes_of_close (h : Parens ')' source (skipFrom source stop) (n + 1)) :
    closeTimes (n + 1) ⟨value, .ofText source stop, stoppedBy⟩ =
      .matched ⟨value, .ofText source (parenAt source (skipFrom source stop) n + 1), none⟩ := by
  induction n with
  | zero => exact closeParen_of_close h.first
  | succ n ih =>
      have hinner := ih fun i hi => h i (Nat.lt_succ_of_lt hi)
      rw [closeTimes, hinner]
      exact closeParen_of_close (h (n + 1) (Nat.lt_succ_self _))

theorem closeTimes_of_failed {f : Failure} {m : Match α} (hi : i ≤ n)
    (h : closeTimes i m = .failed f) : closeTimes n m = .failed f := by
  induction hi with
  | refl => exact h
  | step _ ih => rw [closeTimes, ih, Reply.bind_failed]

theorem closeTimes_of_not_close (hi : i < n)
    (hbefore : Parens ')' source (skipFrom source stop) i)
    (hmissing : source[parenAt source (skipFrom source stop) i]? ≠ some ')') :
    closeTimes n ⟨value, .ofText source stop, stoppedBy⟩ =
      .failed (unclosed (parenAt source (skipFrom source stop) i)
        (if i = 0 then stoppedBy else none)) := by
  refine closeTimes_of_failed hi ?_
  cases i with
  | zero => exact closeParen_of_not_close hmissing
  | succ i =>
      rw [closeTimes, closeTimes_of_close hbefore]
      exact closeParen_of_not_close hmissing

end Closing

/-- What a recognizer in `n + 1` pairs of parentheses replies, one case for each way to
end.  A match of the contents ends at some position of the source. -/
structure Enclosed (contents : Recognizer α) (n : Nat) (source : List Char) (pos : Nat)
    (reply : Reply α) : Prop where
  /-- The first opening parenthesis that is missing is reported, and another way to read
  the text may be tried. -/
  unopened (i : Nat) : i ≤ n → Parens '(' source pos i →
    source[parenAt source pos i]? ≠ some '(' →
    reply = .failed ⟨parenAt source pos i, .openParen, false, []⟩
  /-- A failure of the contents is passed on as it is. -/
  failed (f : Failure) : Parens '(' source pos (n + 1) →
    contents (.ofText source (parenAt source pos (n + 1))) = .failed f → reply = .failed f
  tooDeep : Parens '(' source pos (n + 1) →
    contents (.ofText source (parenAt source pos (n + 1))) = .tooDeep → reply = .tooDeep
  /-- Nothing is kept of what stopped the contents when all parentheses are closed. -/
  closed (value : α) (stop : Nat) (stoppedBy : Option Failure) :
    Parens '(' source pos (n + 1) →
    contents (.ofText source (parenAt source pos (n + 1))) =
      .matched ⟨value, .ofText source stop, stoppedBy⟩ →
    Parens ')' source (skipFrom source stop) (n + 1) →
    reply =
      .matched ⟨value, .ofText source (parenAt source (skipFrom source stop) n + 1), none⟩
  /-- If the innermost closing parenthesis is missing, what stopped the contents further on
  is reported in its place. -/
  stopped (value : α) (stop : Nat) (f : Failure) : Parens '(' source pos (n + 1) →
    contents (.ofText source (parenAt source pos (n + 1))) =
      .matched ⟨value, .ofText source stop, some f⟩ →
    source[skipFrom source stop]? ≠ some ')' → skipFrom source stop < f.pos →
    reply = .failed ⟨f.pos, f.expected, true, f.context⟩
  /-- Otherwise the first closing parenthesis that is missing is reported. -/
  unclosed (value : α) (stop : Nat) (stoppedBy : Option Failure) (i : Nat) :
    Parens '(' source pos (n + 1) →
    contents (.ofText source (parenAt source pos (n + 1))) =
      .matched ⟨value, .ofText source stop, stoppedBy⟩ →
    i ≤ n → Parens ')' source (skipFrom source stop) i →
    source[parenAt source (skipFrom source stop) i]? ≠ some ')' →
    (i = 0 → ∀ f ∈ stoppedBy, f.pos ≤ skipFrom source stop) →
    reply = .failed
      ⟨parenAt source (skipFrom source stop) i, .closeParen, true, [.closingParen]⟩

theorem enclosed_parenthesizedTimes (contents : Recognizer α) (n : Nat) (source : List Char)
    (pos : Nat) :
    Enclosed contents n source pos
      (parenthesizedTimes (n + 1) contents (.ofText source pos)) := by
  -- behind all opening parentheses only the contents and the closing ones are left
  have hinside : ∀ {reply : Reply α}, Parens '(' source pos (n + 1) →
      contents (.ofText source (parenAt source pos (n + 1))) = reply →
      parenthesizedTimes (n + 1) contents (.ofText source pos) =
        reply.bind (closeTimes (n + 1)) := by
    rintro _ hopen rfl
    exact parenthesizedTimes_of_open hopen
  constructor
  case unopened =>
    intro i hi hbefore hmissing
    exact parenthesizedTimes_of_not_open (Nat.lt_succ_of_le hi) hbefore hmissing
  case failed => exact fun f hopen hcontents => hinside hopen hcontents
  case tooDeep => exact fun hopen hcontents => hinside hopen hcontents
  case closed =>
    intro value stop stoppedBy hopen hcontents hclose
    exact (hinside hopen hcontents).trans (closeTimes_of_close hclose)
  case stopped =>
    intro value stop f hopen hcontents hmissing hfurther
    have hnone : Parens ')' source (skipFrom source stop) 0 :=
      fun i hi => absurd hi (Nat.not_lt_zero i)
    rw [hinside hopen hcontents, Reply.bind_matched,
      closeTimes_of_not_close (Nat.succ_pos n) hnone hmissing, if_pos rfl]
    exact congrArg Reply.failed (if_pos hfurther)
  case unclosed =>
    intro value stop stoppedBy i hopen hcontents hi hbefore hmissing hnear
    rw [hinside hopen hcontents, Reply.bind_matched,
      closeTimes_of_not_close (Nat.lt_succ_of_le hi) hbefore hmissing]
    by_cases hzero : i = 0
    · subst hzero
      rw [if_pos rfl]
      cases stoppedBy with
      | none => rfl
      | some f => exact congrArg Reply.failed (if_neg (Nat.not_lt.2 (hnear rfl f rfl)))
    · rw [if_neg hzero]
      rfl

/-- Only the inner parenthesis knows of the string that breaks behind the contents. -/
example : parenthesizedTimes 2 (forms 1) (.ofText "((a \"\\".toList 0) =
    .failed ⟨5, .quoteEscape, true, []⟩ := by
  with_unfolding_all rfl

end Grammar

end Sexp
