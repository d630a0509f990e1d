import Mathlib
import PathData.Proofs.Numerals

namespace PathData

namespace Decimal

def value (d : Decimal) : ℚ :=
  d.digits * 10 ^ d.exponent

theorem stripZeros_value (fuel digits : ℕ) (exponent : ℤ) :
    ((stripZeros fuel digits exponent).1 : ℚ) * 10 ^ (stripZeros fuel digits exponent).2 =
      digits * 10 ^ exponent := by
  induction fuel generalizing digits exponent with
  | zero => rfl
  | succ fuel ih =>
    unfold stripZeros
    split
    · rename_i ends
      simp only [Bool.and_eq_true, beq_iff_eq] at ends
      have tens : digits = digits / 10 * 10 := by omega
      have tens : (digits : ℚ) = (digits / 10 : ℕ) * 10 := by exact_mod_cast tens
      rw [ih, zpow_add_one₀ (by norm_num), tens]
      ring
    · rfl

theorem normalize_value (d : Decimal) : d.normalize.value = d.value :=
  stripZeros_value ..

end Decimal

namespace Layout

open Decimal Literal Text

theorem ofDigits_snoc (ds : List ℕ) (d : ℕ) : ofDigits (ds ++ [d]) = 10 * ofDigits ds + d := by
  simp [ofDigits]

theorem digitValue_digitChar {d : ℕ} (small : d < 10) : digitValue? d.digitChar = some d := by
  have all : ∀ d ∈ List.range 10, digitValue? d.digitChar = some d := by decide
  exact all d (List.mem_range.2 small)

theorem ofDigits_digitChars (n : ℕ) : ofDigits (values (digitChars n)) = n := by
  induction n using Nat.strong_induction_on with
  | _ n ih =>
    unfold digitChars
    rw [Nat.toDigits_eq_if (by decide)]
    split
    · rename_i small
      simp [values, digitValue_digitChar small, ofDigits]
    · have last := digitValue_digitChar (Nat.mod_lt n (by decide))
      have front := ih (n / 10) (by omega)
      unfold digitChars at front
      rw [values_append, show values [(n % 10).digitChar] = [n % 10] by simp [values, last],
        ofDigits_snoc, front]
      omega

theorem ofDigits_zeros_after (cs : List Char) (count : ℕ) :
    ofDigits (values (cs ++ List.replicate count '0')) = ofDigits (values cs) * 10 ^ count := by
  induction count with
  | zero => simp
  | succ count ih =>
    have zero : values ['0'] = [0] := by decide
    rw [List.replicate_succ', ← List.append_assoc, values_append, zero, ofDigits_snoc, ih, pow_succ]
    ring

theorem ofDigits_zeros_before (cs : List Char) (count : ℕ) :
    ofDigits (values (List.replicate count '0' ++ cs)) = ofDigits (values cs) := by
  induction count with
  | zero => rfl
  | succ count ih =>
    rw [List.replicate_succ, List.cons_append, ofDigits_zero, ih]

theorem signOf_negative (negative : Bool) : (signOf negative).negative = negative := by
  cases negative <;> rfl

theorem power_powerOf (n : ℤ) : Power.value (some (powerOf alwaysSigned n)) = n := by
  simp only [Power.value, powerOf, ofDigits_digitChars]
  by_cases negative : n < 0
  · simp [alwaysSigned, Sign.negative, negative, abs_of_neg negative]
  · simp [alwaysSigned, Sign.negative, negative, abs_of_nonneg (not_lt.1 negative)]

theorem positional_value (d : Decimal) :
    (positionalLexeme ['0'] d).decimal.negative = d.negative ∧
      (positionalLexeme ['0'] d).decimal.value = d.value := by
  refine ⟨signOf_negative _, ?_⟩
  have length := List.length_pos_iff.2 (digitChars_ne_nil d.digits)
  simp only [Lexeme.decimal, positionalLexeme, positionalParts, Decimal.value, Power.value, zeros]
  split
  · rename_i whole
    obtain ⟨k, exponent⟩ := Int.eq_ofNat_of_zero_le whole
    simp only [exponent, Option.getD_none, List.append_nil, List.length_nil, ofDigits_zeros_after,
      ofDigits_digitChars, Int.toNat_natCast]
    simp
  · split
    · rename_i part point
      simp only [Option.getD_some, List.take_append_drop, ofDigits_digitChars, List.length_drop]
      congr 2
      omega
    · rename_i part point
      simp only [Option.getD_some, List.singleton_append, ofDigits_zero, ofDigits_zeros_before,
        ofDigits_digitChars, List.length_append, List.length_replicate]
      congr 2
      omega

theorem leadingParts_append (ds : List Char) :
    (leadingParts ds).1 ++ (leadingParts ds).2.getD [] = ds := by
  unfold leadingParts
  split <;> simp

theorem leadingParts_length (ds : List Char) :
    ((leadingParts ds).2.getD []).length = ds.length - 1 := by
  match ds with
  | [] => rfl
  | [_] => rfl
  | _ :: _ :: rest => simp [leadingParts]

theorem scientific_exact (d : Decimal) : (scientificLexeme alwaysSigned d).decimal = d := by
  have length := List.length_pos_iff.2 (digitChars_ne_nil d.digits)
  simp only [Lexeme.decimal, scientificLexeme, leadingParts_append, leadingParts_length,
    power_powerOf, ofDigits_digitChars, signOf_negative, leadingExponent, width]
  congr 1
  omega

theorem fullTexts_read {d : Decimal} {text : List Char} (member : text ∈ fullTexts d) :
    ∃ e : Decimal, scan text = some (e, []) ∧ e.negative = d.negative ∧ e.value = d.value := by
  rcases List.mem_cons.1 member with rfl | other
  · obtain ⟨sign, value⟩ := positional_value d
    rw [← positional_text]
    exact ⟨_, scan_whole (positional_valid allDigits_zero d), sign, value⟩
  · obtain rfl := List.mem_singleton.1 other
    rw [← scientific_text signedExponent_text]
    exact ⟨_, scan_whole (scientific_valid alwaysSigned d), by rw [scientific_exact],
      by rw [scientific_exact]⟩

end Layout
end PathData
