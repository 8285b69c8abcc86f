import Mathlib.Algebra.Ring.Nat
import Mathlib.Data.List.Basic
import Mathlib.Data.List.Induction
import Sexp.Decimal.Basic

namespace Sexp.Decimal

theorem isDigit_of_mem_digits {n : Nat} {ch : Char} (h : ch ∈ digits n) : ch.isDigit = true :=
  Nat.isDigit_of_mem_toDigits (by decide) (by decide) h

theorem digits_ne_nil (n : Nat) : digits n ≠ [] :=
  Nat.toDigits_ne_nil

theorem ofDigitChars_digits (n : Nat) : Nat.ofDigitChars 10 (digits n) 0 = n :=
  Nat.ofDigitChars_toDigits (by decide) (by decide)

theorem digits_of_lt {n : Nat} (h : n < 10) : digits n = [n.digitChar] :=
  Nat.toDigits_of_lt_base h

theorem digits_mul_ten_add {n d : Nat} (hn : 0 < n) (hd : d < 10) :
    digits (10 * n + d) = digits n ++ [d.digitChar] := by
  have happend := Nat.toDigits_append_toDigits (b := 10) (by decide) hn hd
  rw [digits, ← happend, Nat.toDigits_of_lt_base hd]
  rfl

theorem digits_mul_pow {n : Nat} (h : 0 < n) (k : Nat) :
    digits (n * 10 ^ k) = digits n ++ List.replicate k '0' := by
  induction k with
  | zero => simp
  | succ k ih =>
      have hpos : 0 < n * 10 ^ k := Nat.mul_pos h (Nat.pow_pos (by decide))
      have hstep : digits (10 * (n * 10 ^ k) + 0) = digits (n * 10 ^ k) ++ ['0'] :=
        digits_mul_ten_add hpos (by decide)
      rw [Nat.pow_succ, ← Nat.mul_assoc, Nat.mul_comm, List.replicate_succ', ← List.append_assoc,
        ← ih]
      exact hstep

theorem digits_of_ten_le {n : Nat} (h : 10 ≤ n) :
    digits n = digits (n / 10) ++ [(n % 10).digitChar] :=
  Nat.toDigits_of_base_le (by decide) h

theorem head?_digits {n : Nat} (h : 0 < n) : (digits n).head? ≠ some '0' := by
  induction n using Nat.strong_induction_on with
  | _ n ih =>
      rcases Nat.lt_or_ge n 10 with hless | hmore
      · rw [digits_of_lt hless, List.head?_singleton, ne_eq, Option.some.injEq,
          Nat.digitChar_eq_zero]
        exact Nat.ne_of_gt h
      · rw [digits_of_ten_le hmore, List.head?_append_of_ne_nil _ (digits_ne_nil _)]
        exact ih (n / 10) (by omega) (by omega)

theorem getLast?_digits (n : Nat) : (digits n).getLast? = some (n % 10).digitChar := by
  rcases Nat.lt_or_ge n 10 with hless | hmore
  · rw [digits_of_lt hless, Nat.mod_eq_of_lt hless, List.getLast?_singleton]
  · rw [digits_of_ten_le hmore, List.getLast?_concat]

theorem exists_digitChar {ch : Char} (h : ch.isDigit = true) :
    ∃ d < 10, ch = Nat.digitChar d ∧ ch.toNat - '0'.toNat = d := by
  have hrange : 48 ≤ ch.toNat ∧ ch.toNat ≤ 57 := by
    simpa [Char.isDigit, Char.le_def, UInt32.le_iff_toNat_le] using h
  have hless : ch.toNat - 48 < 10 := by omega
  refine ⟨ch.toNat - 48, hless, ?_, rfl⟩
  apply Char.toNat_inj.1
  rw [Nat.toNat_digitChar_of_lt_ten hless]
  omega

theorem digits_ofDigitChars {ds : List Char} (hdigits : ∀ ch ∈ ds, ch.isDigit = true)
    (hne : ds ≠ []) (hhead : ds.head? ≠ some '0') : digits (Nat.ofDigitChars 10 ds 0) = ds := by
  induction ds using List.reverseRecOn with
  | nil => exact absurd rfl hne
  | append_singleton ds ch ih =>
      rcases exists_digitChar (hdigits ch (by simp)) with ⟨d, hd, rfl, hvalue⟩
      have hsnoc : Nat.ofDigitChars 10 (ds ++ [d.digitChar]) 0 =
          10 * Nat.ofDigitChars 10 ds 0 + d := by
        rw [Nat.ofDigitChars_append, Nat.ofDigitChars_cons, Nat.ofDigitChars_nil, hvalue]
      rw [hsnoc]
      by_cases hds : ds = []
      · subst hds
        rw [Nat.ofDigitChars_nil, Nat.mul_zero, Nat.zero_add, digits_of_lt hd, List.nil_append]
      · rw [List.head?_append_of_ne_nil _ hds] at hhead
        have hspell := ih (fun ch hch => hdigits ch (by simp [hch])) hds hhead
        have hpos : 0 < Nat.ofDigitChars 10 ds 0 := by
          apply Nat.pos_of_ne_zero
          intro hzero
          rw [hzero, digits_of_lt (by decide)] at hspell
          exact hhead (hspell ▸ rfl)
        rw [digits_mul_ten_add hpos hd, hspell]

end Sexp.Decimal
