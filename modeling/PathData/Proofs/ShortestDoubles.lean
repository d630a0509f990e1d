import PathData.Proofs.NearestDoubles
import PathData.Proofs.RoundTrip
import PathData.Proofs.WrittenDecimals

namespace PathData
namespace Shortest

open Double (Canonical Hits Nearest)

variable {m n : ℕ} {e place : ℤ}

theorem scale_unit (e place : ℤ) : ∃ unit : ℚ, 0 < unit ∧
    (Scale.of e place).numerator = 2 ^ e * unit ∧
      (Scale.of e place).denominator = 10 ^ place * unit := by
  have two : (2 : ℚ) ^ e * 2 ^ (-e).toNat = 2 ^ e.toNat := by
    rw [← zpow_natCast, ← zpow_natCast, ← zpow_add₀ two_ne_zero]
    congr 1
    omega
  have ten : (10 : ℚ) ^ place * 10 ^ (-place).toNat = 10 ^ place.toNat := by
    rw [← zpow_natCast, ← zpow_natCast, ← zpow_add₀ (by norm_num)]
    congr 1
    omega
  refine ⟨2 ^ (-e).toNat * 10 ^ (-place).toNat, by positivity, ?_, ?_⟩
  · simp only [Scale.of, Nat.pow_eq]
    push_cast
    rw [← two]
    ring
  · simp only [Scale.of, Nat.pow_eq]
    push_cast
    rw [← ten]
    ring

theorem denominator_pos (e place : ℤ) : 0 < (Scale.of e place).denominator :=
  Nat.mul_pos (Nat.pow_pos (by decide)) (Nat.pow_pos (by decide))

variable {a b : ℕ}

theorem scale_le : a * (Scale.of e place).numerator ≤ b * (Scale.of e place).denominator ↔
    (a : ℚ) * 2 ^ e ≤ b * 10 ^ place := by
  obtain ⟨unit, positive, top, bottom⟩ := scale_unit e place
  rw [← Nat.cast_le (α := ℚ), Nat.cast_mul, Nat.cast_mul, top, bottom, ← mul_assoc, ← mul_assoc]
  exact mul_le_mul_iff_of_pos_right positive

theorem scale_ge : b * (Scale.of e place).denominator ≤ a * (Scale.of e place).numerator ↔
    (b : ℚ) * 10 ^ place ≤ a * 2 ^ e := by
  obtain ⟨unit, positive, top, bottom⟩ := scale_unit e place
  rw [← Nat.cast_le (α := ℚ), Nat.cast_mul, Nat.cast_mul, top, bottom, ← mul_assoc, ← mul_assoc]
  exact mul_le_mul_iff_of_pos_right positive

theorem quarter (v : ℚ) (e : ℤ) : v / 2 ^ (e - 2) = 4 * (v / 2 ^ e) := by
  rw [zpow_sub₀ two_ne_zero]
  field_simp
  norm_num

theorem low_ge (positive : 0 < m) : 4 * (m : ℚ) - 2 ≤ (Interval.of m e).low := by
  have size : 4 * m ≤ (Interval.of m e).low + 2 := by
    unfold Interval.of
    dsimp only
    split <;> omega
  have size : 4 * (m : ℚ) ≤ (Interval.of m e).low + 2 := by exact_mod_cast size
  linarith

theorem low_binade (power : m = 2 ^ 52) (room : -1074 < e) :
    ((Interval.of m e).low : ℚ) = 4 * m - 1 := by
  have hidden : Binary.hidden = 2 ^ 52 := rfl
  have least : Binary.minExponent = -1074 := rfl
  unfold Interval.of
  dsimp only
  rw [hidden, least, if_pos ⟨power, room⟩, Nat.cast_sub (by omega)]
  push_cast
  rfl

theorem holds_hits (positive : 0 < m)
    (holds : (Interval.of m e).holds (Scale.of (e - 2) place) n = true) :
    Hits m e (n * 10 ^ place) := by
  have unit : (0 : ℚ) < 2 ^ (e - 2) := by positivity
  have below {k : ℕ} : k * (Scale.of (e - 2) place).numerator ≤
      n * (Scale.of (e - 2) place).denominator ↔ (k : ℚ) ≤ 4 * (n * 10 ^ place / 2 ^ e) := by
    rw [scale_le, ← quarter, le_div_iff₀ unit]
  have above {k : ℕ} : n * (Scale.of (e - 2) place).denominator ≤
      k * (Scale.of (e - 2) place).numerator ↔ 4 * (n * 10 ^ place / 2 ^ e) ≤ (k : ℚ) := by
    rw [scale_ge, ← quarter, div_le_iff₀ unit]
  have low := low_ge (e := e) positive
  have high : ((Interval.of m e).high : ℚ) = 4 * m + 2 := by
    change ((4 * m + 2 : ℕ) : ℚ) = _
    push_cast
    rfl
  have closed : (Interval.of m e).closed = decide (m % 2 = 0) := rfl
  simp only [Interval.holds, closed, decide_eq_true_eq] at holds
  split at holds
  · rename_i even
    simp only [Bool.and_eq_true, decide_eq_true_eq, below, above, high] at holds
    obtain ⟨left, right⟩ := holds
    refine ⟨?_, fun power room => ?_⟩
    · by_cases start : n * 10 ^ place / 2 ^ e = (m : ℚ) - 1 / 2
      · exact .inr ⟨even, .inl start⟩
      · by_cases stop : n * 10 ^ place / 2 ^ e = (m : ℚ) + 1 / 2
        · exact .inr ⟨even, .inr stop⟩
        · exact .inl ⟨lt_of_le_of_ne (by linarith) (Ne.symm start),
            lt_of_le_of_ne (by linarith) stop⟩
    · rw [low_binade power room] at left
      linarith
  · rename_i odd
    simp only [Bool.and_eq_true, decide_eq_true_eq, ← not_le, below, above, high] at holds
    obtain ⟨left, right⟩ := holds
    rw [not_le] at left right
    refine ⟨.inl ⟨by linarith, by linarith⟩, fun power _ => ?_⟩
    rw [power] at odd
    exact absurd (by decide) odd

theorem onGrid_holds {i : Interval} (found : i.onGrid place = some n) :
    i.holds (Scale.of i.exponent place) n = true := by
  simp only [Interval.onGrid] at found
  split at found
  · cases found
  · rename_i below _
    exact Option.some.inj found ▸ below
  · rename_i _ above
    exact Option.some.inj found ▸ above
  · rename_i below above
    split at found
    · exact Option.some.inj found ▸ below
    · exact Option.some.inj found ▸ above
    · split at found
      · exact Option.some.inj found ▸ below
      · exact Option.some.inj found ▸ above

section Search

variable {i : Interval} {s : Scale}

theorem missed_side (missed : i.holds s n = false) :
    n * s.denominator ≤ i.low * s.numerator ∨ i.high * s.numerator ≤ n * s.denominator := by
  simp only [Interval.holds] at missed
  split at missed
  · simp only [Bool.and_eq_false_iff, decide_eq_false_iff_not] at missed
    omega
  · simp only [Bool.and_eq_false_iff, decide_eq_false_iff_not] at missed
    omega

theorem onGrid_none (missed : i.onGrid place = none) (same : Scale.of i.exponent place = s) :
    i.holds s (i.value * s.numerator / s.denominator) = false ∧
      i.holds s (i.value * s.numerator / s.denominator + 1) = false := by
  subst same
  simp only [Interval.onGrid] at missed
  split at missed
  · rename_i below above
    exact ⟨below, above⟩
  · cases missed
  · cases missed
  · split at missed
    · cases missed
    · cases missed
    · split at missed <;> cases missed

theorem low_lt (positive : 0 < m) : (Interval.of m e).low < 4 * m := by
  unfold Interval.of
  dsimp only
  split <;> omega

-- The interval is longer than a part in ten to the sixteenth.
theorem interval_wide (short : m < 2 ^ 53) :
    4 * m < 10 ^ 16 * ((Interval.of m e).high - (Interval.of m e).low) := by
  have hidden : Binary.hidden = 2 ^ 52 := rfl
  unfold Interval.of
  dsimp only
  rw [hidden]
  split <;> omega

-- Seventeen digits are so close together that one of two neighbours is in the interval.
theorem onGrid_some (positive : 0 < m) (short : m < 2 ^ 53)
    (fine : (10 : ℚ) ^ place * 10 ^ 16 ≤ m * 2 ^ e) :
    ((Interval.of m e).onGrid place).isSome := by
  by_contra none
  have exponent : (Interval.of m e).exponent = e - 2 := rfl
  have value : (Interval.of m e).value = 4 * m := rfl
  have high : (Interval.of m e).high = 4 * m + 2 := rfl
  obtain ⟨below, above⟩ := onGrid_none (Option.not_isSome_iff_eq_none.1 none) rfl
  rw [exponent, value] at below above
  have grid : 10 ^ 16 * (Scale.of (e - 2) place).denominator ≤
      4 * m * (Scale.of (e - 2) place).numerator := by
    rw [scale_ge, zpow_sub₀ two_ne_zero]
    push_cast
    linarith
  have top := scale_pos (e - 2) place
  have bottom := denominator_pos (e - 2) place
  generalize Scale.of (e - 2) place = s at below above grid top bottom
  have floor := Nat.div_mul_le_self (4 * m * s.numerator) s.denominator
  have ceiling := Nat.lt_mul_div_succ (4 * m * s.numerator) bottom
  rw [Nat.mul_comm s.denominator] at ceiling
  have less : 4 * m * s.numerator < (Interval.of m e).high * s.numerator :=
    Nat.mul_lt_mul_of_pos_right (by omega) top
  have more : (Interval.of m e).low * s.numerator < 4 * m * s.numerator :=
    Nat.mul_lt_mul_of_pos_right (low_lt positive) top
  have left := (missed_side below).resolve_right (not_le.2 (floor.trans_lt less))
  have right := (missed_side above).resolve_left (not_le.2 (more.trans ceiling))
  rw [Nat.add_mul, Nat.one_mul] at right
  have step : ((Interval.of m e).high - (Interval.of m e).low) * s.numerator ≤ s.denominator := by
    rw [Nat.sub_mul]
    omega
  have scaled : 10 ^ 16 * ((Interval.of m e).high - (Interval.of m e).low) * s.numerator ≤
      4 * m * s.numerator := by
    rw [Nat.mul_assoc]
    exact (Nat.mul_le_mul_left _ step).trans grid
  have narrow := Nat.le_of_mul_le_mul_right scaled top
  exact absurd (interval_wide short) (Nat.not_lt.2 narrow)

theorem guess_le {k : ℤ} (low : -1100 < k) (high : k < 1100) :
    (10 : ℚ) ^ (k * 30103 / 100000 - 1) ≤ 2 ^ k := by
  have near : ∀ j ∈ List.range 1100, 10 ^ (j * 30103 / 100000) ≤ 10 * 2 ^ j ∧
      2 ^ j ≤ 10 * 10 ^ (j * 30103 / 100000) := by
    decide +kernel
  obtain ⟨above, below⟩ := near k.natAbs (List.mem_range.2 (by omega))
  generalize places : k.natAbs * 30103 / 100000 = p at above below
  by_cases whole : 0 ≤ k
  · obtain ⟨j, rfl⟩ := Int.eq_ofNat_of_zero_le whole
    have guess : (j : ℤ) * 30103 / 100000 = p := by omega
    have above : (10 : ℚ) ^ p ≤ 10 * 2 ^ j := by exact_mod_cast above
    rw [guess, zpow_sub_one₀ (by norm_num), zpow_natCast, zpow_natCast]
    linarith
  · obtain ⟨j, rfl⟩ : ∃ j : ℕ, k = -j := ⟨(-k).toNat, by omega⟩
    have guess : -(j : ℤ) * 30103 / 100000 - 1 ≤ -((p + 1 : ℕ) : ℤ) := by omega
    have below : (2 : ℚ) ^ j ≤ 10 ^ (p + 1) := by
      rw [Int.natAbs_neg, Int.natAbs_natCast] at below
      rw [pow_succ']
      exact_mod_cast below
    refine (zpow_le_zpow_right₀ (by norm_num) guess).trans ?_
    rw [zpow_neg, zpow_neg, zpow_natCast, zpow_natCast]
    exact inv_anti₀ (by positivity) below

theorem leadingPlace_le (nonzero : n ≠ 0) (low : -1100 < (n.log2 : ℤ) + e)
    (high : (n.log2 : ℤ) + e < 1100) : (10 : ℚ) ^ leadingPlace n e ≤ n * 2 ^ e := by
  have reached {place : ℤ} (reached : (Scale.of e place).denominator ≤
      n * (Scale.of e place).numerator) : (10 : ℚ) ^ place ≤ n * 2 ^ e := by
    rw [← Nat.one_mul (Scale.of e place).denominator, scale_ge] at reached
    simpa using reached
  unfold leadingPlace
  dsimp only
  split
  · rename_i first
    exact reached first
  · split
    · rename_i second
      exact reached second
    · refine (guess_le low high).trans ?_
      rw [zpow_add₀ two_ne_zero, zpow_natCast]
      have size : (2 : ℚ) ^ n.log2 ≤ n := by exact_mod_cast Nat.log2_self_le nonzero
      exact mul_le_mul_of_nonneg_right size (by positivity)

theorem search_holds (positive : 0 < m) (short : m < 2 ^ 53) {leading : ℤ}
    (reached : (10 : ℚ) ^ leading ≤ m * 2 ^ e) {fuel count : ℕ} (left : fuel + count = 18)
    (some : 0 < fuel) :
    (Interval.of m e).holds
      (Scale.of (e - 2) ((Interval.of m e).search leading fuel count).2)
      ((Interval.of m e).search leading fuel count).1 = true := by
  induction fuel generalizing count with
  | zero => cases some
  | succ fuel ih =>
    simp only [Interval.search]
    split
    · rename_i found
      exact onGrid_holds found
    · rename_i missed
      refine ih (by omega) ?_
      by_contra last
      have fine : (10 : ℚ) ^ (leading - (count : ℤ) + 1) * 10 ^ 16 ≤ m * 2 ^ e := by
        have place : leading - (count : ℤ) + 1 = leading - 16 := by omega
        rw [place, zpow_sub₀ (by norm_num)]
        refine (le_of_eq ?_).trans reached
        norm_num
      have hit := onGrid_some positive short fine
      rw [missed] at hit
      cases hit

theorem digits_hit (canonical : Canonical m e) (high : e ≤ 971) :
    Hits m e ((digits m e).1 * 10 ^ (digits m e).2) := by
  obtain ⟨positive, short, low, _⟩ := canonical
  have bits := Double.log2_short short
  have scaled : (4 * m).log2 = m.log2 + 2 := by
    rw [Nat.mul_comm]
    exact Double.log2_mul_pow positive.ne' 2
  have reached : (10 : ℚ) ^ leadingPlace (4 * m) (e - 2) ≤ m * 2 ^ e := by
    refine (leadingPlace_le (by omega) (by omega) (by omega)).trans (le_of_eq ?_)
    rw [zpow_sub₀ two_ne_zero]
    push_cast
    ring
  exact holds_hits positive (search_holds positive short reached rfl (by decide))

end Search

end Shortest
namespace Printer

open Double

theorem ofDecimal_shortest {x : Float} {m : ℕ} {e : ℤ} {d : Decimal}
    (binary : Binary.ofFloat x = .finite d.negative m e) (nonzero : m ≠ 0)
    (value : d.value = (Shortest.digits m e).1 * 10 ^ (Shortest.digits m e).2) :
    ofDecimal d = x := by
  obtain ⟨canonical, high, _⟩ := unpack_binary binary nonzero
  have digits : ((Shortest.digits m e).1 : ℚ) ≠ 0 := by
    exact_mod_cast Shortest.digits_ne_zero nonzero e
  have positive : 0 < d.digits := by
    refine Nat.pos_of_ne_zero fun zero => ?_
    have none : d.value = 0 := by simp [Decimal.value, zero]
    rw [none] at value
    exact mul_ne_zero digits (by positivity) value.symm
  have hits := Shortest.digits_hit canonical high
  rw [← value] at hits
  exact ofDecimal_hits binary nonzero positive hits

theorem readsBack_double (x : Float) : ReadsBack x := by
  cases binary : Binary.ofFloat x with
  | notANumber | infinite =>
    have numeral : Scalar.numeral x = Shortest.ofBinary (Binary.ofFloat x) := rfl
    unfold ReadsBack
    rw [numeral, binary]
    trivial
  | finite negative m e =>
    by_cases zero : m = 0
    · subst zero
      rcases ofFloat_zero binary with rfl | rfl
      · decide +kernel
      · decide +kernel
    · have numeral : Scalar.numeral x = .finite (Decimal.normalize
          ⟨negative, (Shortest.digits m e).1, (Shortest.digits m e).2⟩) := by
        change Shortest.ofBinary (Binary.ofFloat x) = _
        rw [binary]
        exact if_neg zero
      unfold ReadsBack
      rw [numeral]
      intro text member
      obtain ⟨d, scanned, sign, value⟩ := Layout.fullTexts_read member
      rw [Decimal.normalize_value] at value
      have sign : d.negative = negative := sign
      have read : ofDecimal d = x := ofDecimal_shortest (sign ▸ binary) zero value
      unfold readText?
      rw [scanned]
      exact congrArg some read

end Printer
end PathData
