import Mathlib.Algebra.Order.Field.Power
import Mathlib.Algebra.Order.Field.Rat
import Mathlib.Tactic.Linarith
import Mathlib.Tactic.NormNum
import Mathlib.Tactic.Positivity
import Mathlib.Tactic.Ring
import Sexp.Proofs.CanonicalText
import Sexp.Proofs.LongestNumeral

namespace Sexp.Decimal

/-- The digits in front of the point: the texts of `0|[1-9][0-9]*`. -/
inductive WholeText : List Char → Prop where
  | zero : WholeText ['0']
  | positive {ch : Char} {ds : List Char} : ch.isDigit = true → ch ≠ '0' →
      (∀ d ∈ ds, d.isDigit = true) → WholeText (ch :: ds)

/-- The point and the digits behind it, if any: the texts of `(\.[0-9]*[1-9])?`. -/
inductive FractionText : List Char → Prop where
  | absent : FractionText []
  | present {ch : Char} {ds : List Char} : (∀ d ∈ ds, d.isDigit = true) → ch.isDigit = true →
      ch ≠ '0' → FractionText ('.' :: (ds ++ [ch]))

/-- The texts of `-?(0|[1-9][0-9]*)(\.[0-9]*[1-9])?`. -/
def MinimalText (text : List Char) : Prop :=
  ∃ sign whole fraction, text = sign ++ (whole ++ fraction) ∧ (sign = [] ∨ sign = ['-']) ∧
    WholeText whole ∧ FractionText fraction

theorem wholeText_of_head {ds : List Char} (hne : ds ≠ []) (hdigits : ∀ d ∈ ds, d.isDigit = true)
    (hhead : ds.head? ≠ some '0') : WholeText ds := by
  rcases List.exists_cons_of_ne_nil hne with ⟨ch, ds, rfl⟩
  rw [List.forall_mem_cons] at hdigits
  exact .positive hdigits.1 (fun hzero => hhead (congrArg some hzero)) hdigits.2

/-- The digits of a number behind as many zeros as a digit in front of the point takes. -/
def padded (n places : Nat) : List Char :=
  List.replicate (places + 1 - (digits n).length) '0' ++ digits n

theorem length_padded (n places : Nat) :
    (padded n places).length = max (places + 1) (digits n).length := by
  rw [padded, List.length_append, List.length_replicate]
  omega

theorem pointed_digits {n places : Nat} (h : places ≠ 0) :
    pointed (digits n) places = (padded n places).take ((padded n places).length - places) ++
      '.' :: (padded n places).drop ((padded n places).length - places) :=
  if_neg h

theorem isDigit_of_mem_padded {n places : Nat} {d : Char} (h : d ∈ padded n places) :
    d.isDigit = true := by
  rcases List.mem_append.1 h with hzero | hdigit
  · rw [List.eq_of_mem_replicate hzero]
    decide
  · exact isDigit_of_mem_digits hdigit

theorem wholeText_take {n places : Nat} (hn : 0 < n) :
    WholeText ((padded n places).take ((padded n places).length - places)) := by
  rcases Nat.lt_or_ge places (digits n).length with hless | hmore
  · have hzeros : padded n places = digits n := by
      rw [padded, Nat.sub_eq_zero_of_le hless, List.replicate_zero, List.nil_append]
    have hpos : (digits n).length - places ≠ 0 := by omega
    rw [hzeros]
    apply wholeText_of_head
    · rw [ne_eq, List.take_eq_nil_iff, not_or]
      exact ⟨hpos, digits_ne_nil n⟩
    · exact fun d hd => isDigit_of_mem_digits (List.mem_of_mem_take hd)
    · rw [List.head?_take, if_neg hpos]
      exact head?_digits hn
  · have hzero : padded n places =
        '0' :: (List.replicate (places - (digits n).length) '0' ++ digits n) := by
      rw [padded, Nat.succ_sub hmore, List.replicate_succ, List.cons_append]
    have hone : (padded n places).length - places = 1 := by
      rw [length_padded]
      omega
    rw [hone, hzero]
    exact .zero

theorem fractionText_drop {n places m : Nat} (hlast : n % 10 ≠ 0)
    (hm : m < (padded n places).length) : FractionText ('.' :: (padded n places).drop m) := by
  rcases List.eq_nil_or_concat (padded n places) with hnil | ⟨ds, ch, hconcat⟩
  · rw [hnil] at hm
    exact absurd hm (Nat.not_lt_zero m)
  rw [List.concat_eq_append] at hconcat
  have hch : ch = (n % 10).digitChar := by
    have hget : (padded n places).getLast? = some (n % 10).digitChar := by
      rw [padded, List.getLast?_append, getLast?_digits, Option.some_or]
    rw [hconcat, List.getLast?_concat] at hget
    exact Option.some.inj hget
  have hall : ∀ d ∈ ds ++ [ch], d.isDigit = true :=
    fun d hd => isDigit_of_mem_padded (hconcat ▸ hd)
  rw [hconcat, List.length_append, List.length_singleton] at hm
  rw [hconcat, List.drop_append_of_le_length (Nat.lt_succ_iff.1 hm)]
  refine .present (fun d hd => ?_) ?_ ?_
  · exact hall d (List.mem_append_left _ (List.mem_of_mem_drop hd))
  · exact hall ch (by simp)
  · rw [hch, ne_eq, Nat.digitChar_eq_zero]
    exact hlast

theorem exists_plainText_eq {coefficient : Nat} (hlast : coefficient % 10 ≠ 0) (exponent : Int) :
    ∃ whole fraction, plainText coefficient exponent = whole ++ fraction ∧
      WholeText whole ∧ FractionText fraction := by
  have hpos : 0 < coefficient := Nat.pos_of_ne_zero (by rintro rfl; exact hlast rfl)
  unfold plainText
  split
  · refine ⟨_, [], (List.append_nil _).symm, ?_, .absent⟩
    apply wholeText_of_head
    · exact List.append_ne_nil_of_left_ne_nil (digits_ne_nil _) _
    · intro d hd
      rw [← digits_mul_pow hpos] at hd
      exact isDigit_of_mem_digits hd
    · rw [List.head?_append_of_ne_nil _ (digits_ne_nil _)]
      exact head?_digits hpos
  · rename_i hneg
    have hplaces : exponent.natAbs ≠ 0 := by omega
    refine ⟨_, _, pointed_digits hplaces, wholeText_take hpos, fractionText_drop hlast ?_⟩
    rw [length_padded]
    omega

theorem minimalText_plain (negative : Bool) (coefficient : Nat) (exponent : Int)
    (limits : withinLimits coefficient exponent = true) :
    MinimalText (plain (.finite negative coefficient exponent limits)) := by
  simp only [plain]
  split
  · exact ⟨[], ['0'], [], rfl, .inl rfl, .zero, .absent⟩
  · rename_i hne
    have hzero : coefficient ≠ 0 := fun h => hne (reduce_fst_eq_zero_iff.2 h)
    rcases exists_reduce_eq hzero exponent with ⟨-, -, -, hlast⟩
    rcases exists_plainText_eq hlast (reduce coefficient exponent).2 with
      ⟨whole, fraction, htext, hwhole, hfraction⟩
    refine ⟨signText negative, whole, fraction, by rw [htext], ?_, hwhole, hfraction⟩
    cases negative
    · exact .inl rfl
    · exact .inr rfl

theorem IsFinite.numeric {x : Decimal} (h : x.IsFinite) : x.Numeric := by
  rcases h with ⟨n, c, e, limits, rfl⟩
  trivial

theorem IsFinite.ofText?_plain {x : Decimal} (h : x.IsFinite) :
    ofText? x.plain = some x.canonical := by
  rcases h with ⟨n, c, e, limits, rfl⟩
  rw [← plainNumeral_text, ofText?_text (plainNumeral_wellFormed _ _ _)]
  exact toDecimal?_plainNumeral n c e limits

theorem plain_ne_minus_zero {x : Decimal} (h : x.IsFinite) : x.plain ≠ ['-', '0'] := by
  intro hplain
  have hzero : ofText? ['-', '0'] = some (.finite true 0 0) := by
    decide
  have htext := h.ofText?_plain
  rw [hplain, hzero, Option.some.injEq] at htext
  rcases h with ⟨negative, coefficient, exponent, limits, rfl⟩
  rcases reduce_canonical negative coefficient exponent limits with ⟨c, e, _, hcanonical, hreduce⟩
  rw [hcanonical] at htext
  rcases finite.inj htext with ⟨hsign, rfl, rfl⟩
  -- the sign is written only where the coefficient is not zero
  rw [eq_comm, Bool.and_eq_true, bne_iff_ne] at hsign
  exact hsign.2 ((eq_zero_iff_of_reduce_eq hreduce).1 rfl)

/-- The rational number that a finite decimal denotes. -/
def toRat? : Decimal → Option ℚ
  | .finite negative coefficient exponent _ =>
      some ((-1) ^ negative.toNat * coefficient * 10 ^ exponent)
  | _ => none

theorem reduce_mul_zpow (coefficient : Nat) (exponent : Int) :
    ((reduce coefficient exponent).1 : ℚ) * 10 ^ (reduce coefficient exponent).2 =
      coefficient * 10 ^ exponent := by
  by_cases hzero : coefficient = 0
  · subst hzero
    rw [reduce_zero]
    simp
  · rcases exists_reduce_eq hzero exponent with ⟨k, hcoefficient, hexponent, -⟩
    rw [hexponent, zpow_add₀ (by norm_num), zpow_natCast]
    conv_rhs => rw [hcoefficient]
    push_cast
    ring

theorem le_of_mul_zpow_eq {c c' : Nat} {e e' : Int} (hlast : c % 10 ≠ 0)
    (h : (c : ℚ) * 10 ^ e = c' * 10 ^ e') : e' ≤ e := by
  by_contra hless
  rcases Int.le.dest (Int.le_of_lt (Int.not_le.1 hless)) with ⟨k, rfl⟩
  rw [zpow_add₀ (by norm_num), zpow_natCast, mul_comm ((10 : ℚ) ^ e), ← mul_assoc] at h
  have hcast := mul_right_cancel₀ (zpow_ne_zero e (by norm_num)) h
  have hc : c = c' * 10 ^ k := by exact_mod_cast hcast
  rcases k with _ | k
  · simp at hless
  · apply hlast
    rw [hc, pow_succ, ← mul_assoc, Nat.mul_mod_left]

theorem eq_of_mul_zpow_eq {c c' : Nat} {e e' : Int} (hlast : c % 10 ≠ 0) (hlast' : c' % 10 ≠ 0)
    (h : (c : ℚ) * 10 ^ e = c' * 10 ^ e') : (c, e) = (c', e') := by
  obtain rfl := Int.le_antisymm (le_of_mul_zpow_eq hlast' h.symm) (le_of_mul_zpow_eq hlast h)
  have hcast := mul_right_cancel₀ (zpow_ne_zero e (by norm_num)) h
  rw [Nat.cast_inj.1 hcast]

theorem mul_zpow_eq_zero_iff {c : Nat} {e : Int} : (c : ℚ) * 10 ^ e = 0 ↔ c = 0 := by
  rw [mul_eq_zero, or_iff_left (zpow_ne_zero e (by norm_num)), Nat.cast_eq_zero]

theorem reduce_eq_iff {c c' : Nat} {e e' : Int} :
    reduce c e = reduce c' e' ↔ (c : ℚ) * 10 ^ e = c' * 10 ^ e' := by
  constructor
  · intro h
    rw [← reduce_mul_zpow c e, h, reduce_mul_zpow]
  · intro h
    have hiff : c = 0 ↔ c' = 0 := by
      rw [← @mul_zpow_eq_zero_iff c e, h, mul_zpow_eq_zero_iff]
    by_cases hc : c = 0
    · rw [hc, hiff.1 hc, reduce_zero, reduce_zero]
    · rcases exists_reduce_eq hc e with ⟨-, -, -, hlast⟩
      rcases exists_reduce_eq (mt hiff.2 hc) e' with ⟨-, -, -, hlast'⟩
      rw [← reduce_mul_zpow c e, ← reduce_mul_zpow c' e'] at h
      exact eq_of_mul_zpow_eq hlast hlast' h

theorem neg_eq_iff_of_nonneg {a a' : ℚ} (ha : 0 ≤ a) (ha' : 0 ≤ a') :
    -a = a' ↔ a = a' ∧ a = 0 := by
  constructor
  · intro h
    constructor <;> linarith
  · rintro ⟨rfl, hzero⟩
    rw [hzero, neg_zero]

theorem signed_eq_signed_iff {n n' : Bool} {a a' : ℚ} (ha : 0 ≤ a) (ha' : 0 ≤ a') :
    (-1) ^ n.toNat * a = (-1) ^ n'.toNat * a' ↔ a = a' ∧ (n = n' ∨ a = 0) := by
  cases n <;> cases n'
  · simp
  · rw [eq_comm, @eq_comm _ a a']
    simp only [Bool.toNat_true, Bool.toNat_false, pow_one, pow_zero, neg_mul, one_mul,
      neg_eq_iff_of_nonneg ha' ha]
    constructor <;> rintro ⟨rfl, hzero⟩ <;> simp_all
  · simp [neg_eq_iff_of_nonneg ha ha']
  · simp

theorem toRat?_finite_eq_iff {n n' : Bool} {c c' : Nat} {e e' : Int}
    {h : withinLimits c e = true} {h' : withinLimits c' e' = true} :
    toRat? (.finite n c e h) = toRat? (.finite n' c' e' h') ↔
      reduce c e = reduce c' e' ∧ (n = n' ∨ c = 0) := by
  simp only [toRat?, Option.some.injEq, mul_assoc]
  rw [signed_eq_signed_iff (by positivity) (by positivity), mul_zpow_eq_zero_iff, reduce_eq_iff]

theorem IsFinite.canonical_eq_iff {x y : Decimal} (hx : x.IsFinite) (hy : y.IsFinite) :
    x.canonical = y.canonical ↔ x.toRat? = y.toRat? := by
  rcases hx with ⟨n, c, e, h, rfl⟩
  rcases hy with ⟨n', c', e', h', rfl⟩
  rw [canonical_finite_eq_iff, toRat?_finite_eq_iff]

theorem IsFinite.equals_iff {x y : Decimal} (hx : x.IsFinite) (hy : y.IsFinite) :
    equals x y = .ok true ↔ x.canonical = y.canonical := by
  rcases exists_equals hx.numeric hy.numeric with ⟨result, hequals, hsame⟩
  rw [hequals, Except.ok.injEq, hsame]

theorem IsFinite.plain_eq_iff {x y : Decimal} (hx : x.IsFinite) (hy : y.IsFinite) :
    x.plain = y.plain ↔ x.canonical = y.canonical := by
  constructor
  · intro h
    rw [← Option.some.injEq, ← hx.ofText?_plain, h, hy.ofText?_plain]
  · intro h
    rw [← plain_canonical x, h, plain_canonical]

theorem toRat?_canonical (n : Bool) (c : Nat) (e : Int) (h : withinLimits c e = true) :
    toRat? (canonical (.finite n c e h)) = toRat? (.finite n c e h) := by
  rcases reduce_canonical n c e h with ⟨c', e', _, hcanonical, hreduce⟩
  rw [hcanonical, toRat?_finite_eq_iff]
  constructor
  · exact hreduce
  · by_cases hc : c = 0
    · exact .inr ((eq_zero_iff_of_reduce_eq hreduce).2 hc)
    · exact .inl (by simp [hc])

/-- The plain text of a finite decimal leaves out what can be left out, and is
read as a decimal that is equal to the printed one.  Decimals have one plain text if and
only if they are equal, which is so if and only if they denote one rational number. -/
theorem plain_exact {x y : Decimal} (hx : x.IsFinite) (hy : y.IsFinite) :
    MinimalText x.plain ∧ x.plain ≠ ['-', '0'] ∧
    (∃ z, ofText? x.plain = some z ∧ equals z x = .ok true ∧ z.toRat? = x.toRat?) ∧
    (x.plain = y.plain ↔ equals x y = .ok true) ∧
    (equals x y = .ok true ↔ x.toRat? = y.toRat?) := by
  have htext := hx.ofText?_plain
  have hnotMinusZero := plain_ne_minus_zero hx
  have hplain : x.plain = y.plain ↔ equals x y = .ok true := by
    rw [hx.plain_eq_iff hy, hx.equals_iff hy]
  have hequals : equals x y = .ok true ↔ x.toRat? = y.toRat? := by
    rw [hx.equals_iff hy, hx.canonical_eq_iff hy]
  rcases hx with ⟨n, c, e, h, rfl⟩
  refine ⟨minimalText_plain n c e h, hnotMinusZero, ⟨_, htext, ?_, ?_⟩, hplain, hequals⟩
  · exact equals_canonical n c e h
  · exact toRat?_canonical n c e h

/-- One number with a zero behind its last digit, and without. -/
theorem plain_exact_one_and_a_half :
    plain (.finite true 150 (-2)) = "-1.5".toList ∧
    MinimalText (plain (.finite true 150 (-2))) ∧
    (plain (.finite true 150 (-2)) = plain (.finite true 15 (-1)) ↔
      toRat? (.finite true 150 (-2)) = toRat? (.finite true 15 (-1))) := by
  have hx : IsFinite (.finite true 150 (-2)) := ⟨_, _, _, _, rfl⟩
  have hy : IsFinite (.finite true 15 (-1)) := ⟨_, _, _, _, rfl⟩
  rcases plain_exact hx hy with ⟨hminimal, -, -, hplain, hequals⟩
  exact ⟨by with_unfolding_all rfl, hminimal, hplain.trans hequals⟩

end Sexp.Decimal
