import Mathlib
import PathData.Number.Double

namespace PathData

namespace Decimal

theorem stripZeros_ne_zero {fuel digits : Nat} {exponent : Int} (nonzero : digits ≠ 0) :
    (stripZeros fuel digits exponent).1 ≠ 0 := by
  induction fuel generalizing digits exponent with
  | zero => exact nonzero
  | succ fuel ih =>
    unfold stripZeros
    split
    · rename_i ends
      simp only [Bool.and_eq_true, beq_iff_eq] at ends
      exact ih (by omega)
    · exact nonzero

theorem normalize_ne_zero {d : Decimal} (nonzero : d.digits ≠ 0) : d.normalize.digits ≠ 0 :=
  stripZeros_ne_zero nonzero

end Decimal

namespace Shortest

theorem scale_pos (exponent place : Int) : 0 < (Scale.of exponent place).numerator :=
  Nat.mul_pos (Nat.pow_pos (by decide)) (Nat.pow_pos (by decide))

theorem holds_zero {i : Interval} {s : Scale} (low : 0 < i.low) (numerator : 0 < s.numerator) :
    i.holds s 0 = false := by
  have positive := Nat.mul_pos low numerator
  simp only [Interval.holds, Nat.zero_mul]
  split
  · simp
    omega
  · simp

theorem onGrid_ne_zero {i : Interval} {place : Int} {n : Nat} (low : 0 < i.low)
    (hit : i.onGrid place = some n) : n ≠ 0 := by
  have kept {m : Nat} (holds : i.holds (Scale.of i.exponent place) m = true) : m ≠ 0 := by
    intro zero
    rw [zero, holds_zero low (scale_pos i.exponent place)] at holds
    cases holds
  simp only [Interval.onGrid] at hit
  split at hit
  · cases hit
  · rename_i below _
    exact Option.some.inj hit ▸ kept below
  · exact Option.some.inj hit ▸ Nat.succ_ne_zero _
  · rename_i below _
    split at hit
    · exact Option.some.inj hit ▸ kept below
    · exact Option.some.inj hit ▸ Nat.succ_ne_zero _
    · split at hit
      · exact Option.some.inj hit ▸ kept below
      · exact Option.some.inj hit ▸ Nat.succ_ne_zero _

theorem search_ne_zero {i : Interval} {leading : Int} {fuel count : Nat} (low : 0 < i.low)
    (value : 0 < i.value) : (i.search leading fuel count).1 ≠ 0 := by
  induction fuel generalizing count with
  | zero => exact Nat.pos_iff_ne_zero.mp value
  | succ fuel ih =>
    simp only [Interval.search]
    split
    · rename_i hit
      exact onGrid_ne_zero low hit
    · exact ih

theorem digits_ne_zero {mantissa : Nat} (nonzero : mantissa ≠ 0) (exponent : Int) :
    (digits mantissa exponent).1 ≠ 0 := by
  have low : 0 < (Interval.of mantissa exponent).low := by
    simp only [Interval.of]
    split <;> omega
  have value : 0 < (Interval.of mantissa exponent).value := by
    simp only [Interval.of]
    omega
  exact search_ne_zero low value

theorem mantissa_of_zero {b : Binary} {d : Decimal} (written : ofBinary b = .finite d)
    (zero : d.digits = 0) : ∃ negative exponent, b = .finite negative 0 exponent := by
  cases b with
  | notANumber => cases written
  | infinite => cases written
  | finite negative mantissa exponent =>
    by_cases none : mantissa = 0
    · exact ⟨negative, exponent, by rw [none]⟩
    · simp only [ofBinary, none, if_false] at written
      cases written
      exact absurd zero (Decimal.normalize_ne_zero (digits_ne_zero none exponent))

end Shortest

namespace Double

theorem zero_bits {x : Float} {negative : Bool} {exponent : Int}
    (zero : Binary.ofFloat x = .finite negative 0 exponent) :
    x.toBits.toNat = 0 ∨ x.toBits.toNat = 2 ^ 63 := by
  have bound : x.toBits.toNat < 2 ^ 64 := x.toBits.toNat_lt
  have hidden : Binary.hidden = 4503599627370496 := rfl
  simp only [Binary.ofFloat] at zero
  split at zero
  · split at zero <;> cases zero
  · split at zero
    · rename_i biased
      injection zero with _ fraction _
      rw [hidden] at biased fraction
      omega
    · injection zero with _ mantissa _
      rw [hidden] at mantissa
      omega

theorem eq_of_bits {x y : Float} (same : x.toBits.toNat = y.toBits.toNat) : x = y := by
  obtain ⟨⟨bits, valid⟩⟩ := x
  obtain ⟨⟨bits', valid'⟩⟩ := y
  have equal : bits = bits' := UInt64.toNat_inj.mp same
  subst equal
  rfl

theorem ofFloat_zero {x : Float} {negative : Bool} {exponent : Int}
    (zero : Binary.ofFloat x = .finite negative 0 exponent) : x = 0.0 ∨ x = -0.0 := by
  rcases zero_bits zero with none | sign
  · exact .inl (eq_of_bits (none.trans (by decide +kernel)))
  · exact .inr (eq_of_bits (sign.trans (by decide +kernel)))

theorem zero_of_digits {x : Float} {d : Decimal} (written : Scalar.numeral x = .finite d)
    (zero : d.digits = 0) : (x == Scalar.ofDecimal ⟨false, 0, 0⟩) = true := by
  obtain ⟨negative, exponent, binary⟩ := Shortest.mantissa_of_zero written zero
  rcases ofFloat_zero binary with rfl | rfl
  · decide +kernel
  · decide +kernel

theorem one_not_zero : ((1 : Float) == 0) = false := by decide +kernel

end Double
end PathData
