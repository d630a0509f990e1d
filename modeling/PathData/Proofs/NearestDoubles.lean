import PathData.Proofs.Doubles
import PathData.Proofs.RoundedDoubles

namespace PathData
namespace Double

open Float.Model (Format UnpackedFloat totalExponent)
open Float.Model.UnpackedFloat

-- A mantissa is computed with two bits more. The first says whether `w` is at least halfway to the
-- next mantissa, and the other one whether it is neither at a mantissa nor halfway.
def Tells (em : ExtendedMantissa) (w : ℚ) : Prop :=
  if em.stickyBit then
    if em.roundBit then (em.mantissa : ℚ) + 1 / 2 < w ∧ w < em.mantissa + 1
    else (em.mantissa : ℚ) < w ∧ w < em.mantissa + 1 / 2
  else w = em.mantissa + if em.roundBit then 1 / 2 else 0

variable {em : ExtendedMantissa} {w : ℚ}

theorem Tells.floor (tells : Tells em w) : (em.mantissa : ℚ) ≤ w ∧ w < em.mantissa + 1 := by
  obtain ⟨m, half, rest⟩ := em
  cases half <;> cases rest <;> simp only [Tells, Bool.false_eq_true, if_true, if_false] at tells ⊢
  · constructor <;> linarith
  · constructor <;> linarith
  · constructor <;> linarith
  · constructor <;> linarith

theorem Tells.half (tells : Tells em w) : Tells em.shiftRightOne (w / 2) := by
  obtain ⟨m, half, rest⟩ := em
  have split : (m : ℚ) = 2 * (m / 2 : ℕ) + (m % 2 : ℕ) := by
    exact_mod_cast (Nat.div_add_mod m 2).symm
  rcases Nat.mod_two_eq_zero_or_one m with even | odd
  · rw [even] at split
    cases half <;> cases rest <;>
      simp [Tells, ExtendedMantissa.shiftRightOne, even] at tells ⊢ <;>
      push_cast at split <;> (try constructor) <;> linarith
  · rw [odd] at split
    cases half <;> cases rest <;>
      simp [Tells, ExtendedMantissa.shiftRightOne, odd] at tells ⊢ <;>
      push_cast at split <;> (try constructor) <;> linarith

theorem Tells.shift (tells : Tells em w) (n : ℕ) : Tells (em >>> n) (w / 2 ^ n) := by
  change Tells (n.repeat ExtendedMantissa.shiftRightOne em) _
  induction n with
  | zero => simpa [Nat.repeat] using tells
  | succ n ih =>
    rw [Nat.repeat, pow_succ, ← div_div]
    exact ih.half

-- No whole number is nearer to `w`, and of two that are as near `n` is the even one.
def Nearest (w : ℚ) (n : ℕ) : Prop :=
  (n : ℚ) - 1 / 2 < w ∧ w < n + 1 / 2 ∨ n % 2 = 0 ∧ (w = n - 1 / 2 ∨ w = n + 1 / 2)

theorem Nearest.bounds {n : ℕ} (nearest : Nearest w n) :
    (n : ℚ) - 1 / 2 ≤ w ∧ w ≤ n + 1 / 2 := by
  rcases nearest with ⟨below, above⟩ | ⟨_, rfl | rfl⟩
  · exact ⟨below.le, above.le⟩
  · exact ⟨le_refl _, by linarith⟩
  · exact ⟨by linarith, le_refl _⟩

theorem Tells.rounded {n : ℕ} (tells : Tells em w) (nearest : Nearest w n) :
    em.roundedMantissa = n := by
  obtain ⟨m, half, rest⟩ := em
  have below {a b : ℕ} (less : (a : ℚ) < b + 1) : a ≤ b := by
    exact Nat.lt_succ_iff.1 (by exact_mod_cast less)
  cases half <;> cases rest <;>
    simp only [Tells, Bool.false_eq_true, if_true, if_false, add_zero] at tells <;>
    simp only [ExtendedMantissa.roundedMantissa, ExtendedMantissa.accuracy,
      Accuracy.roundToNearestEven]
  · obtain ⟨one, two⟩ := nearest.bounds
    exact le_antisymm (below (by linarith)) (below (by linarith))
  · obtain ⟨one, two⟩ := nearest.bounds
    exact le_antisymm (below (by linarith)) (below (by linarith))
  · rcases nearest with ⟨one, two⟩ | ⟨even, tie | tie⟩
    · have upper : n ≤ m := below (by linarith)
      have lower : m + 1 ≤ n := below (by push_cast; linarith)
      omega
    · have same : (n : ℚ) = (m + 1 : ℕ) := by push_cast; linarith
      have same : n = m + 1 := by exact_mod_cast same
      omega
    · have same : (n : ℚ) = m := by linarith
      have same : n = m := by exact_mod_cast same
      omega
  · obtain ⟨one, two⟩ := nearest.bounds
    have upper : n ≤ m + 1 := below (by push_cast; linarith)
    have lower : m + 1 ≤ n := below (by push_cast; linarith)
    omega

-- A positive double: 53 bits, except for the least exponent.
structure Canonical (m : ℕ) (e : ℤ) : Prop where
  positive : 0 < m
  short : m < 2 ^ 53
  low : -1074 ≤ e
  normal : 2 ^ 52 ≤ m ∨ e = -1074

-- The numbers that are read as the double m · 2 ^ e.
structure Hits (m : ℕ) (e : ℤ) (v : ℚ) : Prop where
  nearest : Nearest (v / 2 ^ e) m
  -- The doubles below a power of two are closer together.
  binade : m = 2 ^ 52 → -1074 < e → (m : ℚ) - 1 / 4 ≤ v / 2 ^ e

variable {m n : ℕ} {e f : ℤ} {v : ℚ}

theorem shift_scale (v : ℚ) (e : ℤ) (k : ℕ) : v / 2 ^ e = v / 2 ^ (e + k) * 2 ^ k := by
  have positive : (2 : ℚ) ^ e ≠ 0 := zpow_ne_zero e two_ne_zero
  rw [zpow_add₀ two_ne_zero, zpow_natCast]
  field_simp

theorem aim_eq (floor : (m : ℚ) ≤ v / 2 ^ e ∧ v / 2 ^ e < m + 1)
    (fine : 52 ≤ m.log2 ∨ e ≤ -1074) (low : -1074 ≤ f) (short : v / 2 ^ f < 2 ^ 53)
    (normal : 2 ^ 52 ≤ v / 2 ^ f ∨ f = -1074) : e ≤ f ∧ aim m e = f := by
  obtain ⟨below, above⟩ := floor
  have reached : e ≤ f := by
    by_contra beyond
    obtain ⟨k, rfl⟩ : ∃ k : ℕ, e = f + 1 + k := ⟨(e - f - 1).toNat, by omega⟩
    have bits : 2 ^ 52 ≤ m :=
      (Nat.le_log2 (by rintro rfl; simp at fine; omega)).1 (fine.resolve_right (by omega))
    have bits : (2 : ℚ) ^ 52 ≤ m := by exact_mod_cast bits
    have wide : v / 2 ^ (f + 1 + k) ≤ v / 2 ^ (f + 1) := by
      have positive : 0 ≤ v / 2 ^ (f + 1 + (k : ℤ)) := (by positivity : (0 : ℚ) ≤ m).trans below
      rw [shift_scale v (f + 1) k]
      exact le_mul_of_one_le_right positive (one_le_pow₀ one_le_two)
    have twice := shift_scale v f 1
    push_cast at twice
    rw [twice] at short
    linarith
  refine ⟨reached, ?_⟩
  obtain ⟨k, rfl⟩ : ∃ k : ℕ, f = e + k := ⟨(f - e).toNat, by omega⟩
  rw [shift_scale v e k] at below above
  have scale : (0 : ℚ) < 2 ^ k := by positivity
  have bits : m.log2 ≤ 52 + k := by
    have size : (m : ℚ) < 2 ^ (53 + k) := by
      rw [pow_add]
      exact below.trans_lt (mul_lt_mul_of_pos_right short scale)
    have size : m < 2 ^ (53 + k) := by exact_mod_cast size
    by_cases zero : m = 0
    · simp [zero]
    · have := (Nat.log2_lt zero).2 size
      omega
  unfold aim
  rcases normal with wide | least
  · have size : (2 : ℚ) ^ (52 + k) < m + 1 := by
      rw [pow_add]
      exact (mul_le_mul_of_nonneg_right wide scale.le).trans_lt above
    have size : 2 ^ (52 + k) ≤ m := Nat.lt_succ_iff.1 (by exact_mod_cast size)
    have := (Nat.le_log2 (Nat.pos_iff_ne_zero.1 (Nat.lt_of_lt_of_le (by positivity) size))).2 size
    omega
  · omega

theorem shift_eq (m : ℕ) (e : ℤ) (accuracy : Accuracy) :
    shiftToTargetExponent .binary64 m e accuracy =
      (ExtendedMantissa.ofMantissaAndAccuracy m accuracy >>> (aim m e - e).toNat,
        max e (aim m e)) := by
  unfold shiftToTargetExponent shiftToExponent
  rw [targetExponent_eq]
  refine Prod.ext rfl ?_
  change e + ((aim m e - e).toNat : ℤ) = _
  omega

theorem round_eq (sign : Sign) {accuracy : Accuracy} {r : ℕ} (reached : e ≤ aim m e)
    (rounded : landed m e accuracy = r) (exponent : max (aim m e) (aim r (aim m e)) = f)
    (mantissa : r / 2 ^ (f - aim m e).toNat = n) (positive : 0 < n) :
    roundWithAccuracy .binary64 sign m e accuracy = .finite sign n f positive := by
  have first : max e (aim m e) = aim m e := max_eq_right reached
  have shift : (aim r (aim m e) - aim m e).toNat = (f - aim m e).toNat := by omega
  have final : (ExtendedMantissa.ofMantissaAndAccuracy r .exact >>>
      (f - aim m e).toNat).mantissa = n := by
    rw [mantissa_shift, mantissa_accuracy, mantissa]
  change (ExtendedMantissa.ofMantissaAndAccuracy m accuracy >>>
    (aim m e - e).toNat).roundedMantissa = r at rounded
  unfold roundWithAccuracy
  simp only [shift_eq, first, rounded, shift, final, exponent]
  exact dif_neg positive.ne'

theorem aim_le (short : n < 2 ^ 53) (low : -1074 ≤ f) : aim n f ≤ f := by
  have := aim_short (e := f) short
  omega

theorem round_hits (sign : Sign) {accuracy : Accuracy} (canonical : Canonical n f)
    (hits : Hits n f v)
    (tells : Tells (ExtendedMantissa.ofMantissaAndAccuracy m accuracy) (v / 2 ^ e))
    (fine : 52 ≤ m.log2 ∨ e ≤ -1074) :
    roundWithAccuracy .binary64 sign m e accuracy = .finite sign n f canonical.positive := by
  obtain ⟨positive, short, low, normal⟩ := canonical
  have floor := tells.floor
  rw [mantissa_accuracy] at floor
  have shortCast : (n : ℚ) + 1 ≤ 2 ^ 53 := by exact_mod_cast short
  -- What the shifted mantissa tells when the exponent that is aimed at is known.
  have shifted {t : ℤ} (reached : e ≤ t) (aimed : aim m e = t) {r : ℕ}
      (nearest : Nearest (v / 2 ^ t) r) : landed m e accuracy = r := by
    have told := tells.shift (aim m e - e).toNat
    have exponent : e + ((aim m e - e).toNat : ℤ) = t := by omega
    rw [shift_scale v e (aim m e - e).toNat, exponent, mul_div_assoc,
      div_self (by positivity), mul_one] at told
    exact told.rounded nearest
  by_cases inBinade : 2 ^ 52 ≤ v / 2 ^ f ∨ f = -1074
  · have below : v / 2 ^ f < 2 ^ 53 := by linarith [hits.nearest.bounds.2]
    obtain ⟨reached, aimed⟩ := aim_eq floor fine low below inBinade
    have settled : aim n f ≤ f := aim_le short low
    refine round_eq sign (aimed ▸ reached) (shifted reached aimed hits.nearest) ?_ ?_ _
    · rw [aimed]
      exact max_eq_left settled
    · simp [aimed]
  · -- The number is just below a power of two: it is shifted less, and carries when it is rounded.
    rw [not_or, not_le] at inBinade
    obtain ⟨below, notLeast⟩ := inBinade
    have power : n = 2 ^ 52 := by
      have least := normal.resolve_right notLeast
      have most : (n : ℚ) < 2 ^ 52 + 1 := by linarith [hits.nearest.bounds.1]
      have most : n < 2 ^ 52 + 1 := by exact_mod_cast most
      omega
    subst power
    have near := hits.binade rfl (by omega)
    have doubled : v / 2 ^ (f - 1) = v / 2 ^ f * 2 := by
      have scale := shift_scale v (f - 1) 1
      simpa using scale
    obtain ⟨reached, aimed⟩ : e ≤ f - 1 ∧ aim m e = f - 1 := by
      refine aim_eq floor fine (by omega) ?_ (.inl ?_)
      · rw [doubled]
        linarith
      · rw [doubled]
        push_cast at near
        linarith
    have carried : Nearest (v / 2 ^ (f - 1)) (2 ^ 53) := by
      rw [doubled]
      push_cast at near
      rcases near.eq_or_lt with tie | inside
      · refine .inr ⟨by decide, .inl ?_⟩
        rw [← tie]
        norm_num
      · refine .inl ⟨?_, ?_⟩ <;> push_cast <;> linarith
    have grown : aim (2 ^ 53) (f - 1) = f := by
      unfold aim
      rw [Nat.log2_two_pow]
      omega
    refine round_eq sign (aimed ▸ reached) (shifted reached aimed carried) ?_ ?_ _
    · rw [aimed, grown]
      omega
    · rw [aimed]
      have one : (f - (f - 1)).toNat = 1 := by omega
      rw [one]
      decide

theorem tells_exact (m : ℕ) : Tells (ExtendedMantissa.ofMantissaAndAccuracy m .exact) m := by
  simp [Tells, ExtendedMantissa.ofMantissaAndAccuracy]

-- The remainder of a division says on which side of the half the quotient is.
theorem tells_quotient (a : ℕ) {d : ℕ} (nonzero : 0 < d) :
    Tells (ExtendedMantissa.ofMantissaAndAccuracy (a / d) (accuracyOfFraction (a % d) d))
      ((a : ℚ) / d) := by
  have positive : (0 : ℚ) < d := by exact_mod_cast nonzero
  have parts : (a : ℚ) / d = (a / d : ℕ) + ((a % d : ℕ) : ℚ) / d := by
    have split : (a : ℚ) = d * (a / d : ℕ) + (a % d : ℕ) := by
      exact_mod_cast (Nat.div_add_mod a d).symm
    rw [div_eq_iff positive.ne', add_mul, div_mul_cancel₀ _ positive.ne']
    linarith
  have small : ((a % d : ℕ) : ℚ) < d := by exact_mod_cast Nat.mod_lt a nonzero
  rw [parts]
  generalize a / d = q
  generalize a % d = r at small
  unfold accuracyOfFraction
  split
  · rename_i zero
    simpa [zero] using tells_exact q
  · rename_i remains
    have remains : (0 : ℚ) < r := by exact_mod_cast Nat.pos_of_ne_zero remains
    rcases lt_trichotomy (2 * r) d with less | same | more
    · rw [Nat.compare_eq_lt.2 less]
      have less : (2 : ℚ) * r < d := by exact_mod_cast less
      refine ⟨lt_add_of_pos_right _ (div_pos remains positive), ?_⟩
      exact add_lt_add_right (by rw [div_lt_div_iff₀ positive two_pos]; linarith) _
    · rw [Nat.compare_eq_eq.2 same]
      have same : (2 : ℚ) * r = d := by exact_mod_cast same
      have half : (r : ℚ) / d = 1 / 2 := by
        rw [div_eq_div_iff positive.ne' two_ne_zero]
        linarith
      simp [Tells, ExtendedMantissa.ofMantissaAndAccuracy, half]
    · rw [Nat.compare_eq_gt.2 more]
      have more : (d : ℚ) < 2 * r := by exact_mod_cast more
      refine ⟨add_lt_add_right (by rw [div_lt_div_iff₀ two_pos positive]; linarith) _, ?_⟩
      exact add_lt_add_right ((div_lt_one positive).2 small) _

section Operations

variable {s s' : Sign} {a b : ℕ} {i j : ℤ} {left : 0 < a} {right : 0 < b}

theorem mul_hits (canonical : Canonical n f) (hits : Hits n f (a * 2 ^ i * (b * 2 ^ j)))
    (wide : 52 ≤ a.log2) :
    UnpackedFloat.mul .binary64 (.finite s a i left) (.finite s' b j right) =
      .finite (s * s') n f canonical.positive := by
  refine round_hits (s * s') canonical hits ?_ (.inl ?_)
  · have exact : (a * 2 ^ i * (b * 2 ^ j) : ℚ) / 2 ^ (i + j) = (a * b : ℕ) := by
      rw [zpow_add₀ two_ne_zero]
      push_cast
      field_simp
    rw [exact]
    exact tells_exact (a * b)
  · have size : 2 ^ 52 ≤ a := (Nat.le_log2 left.ne').1 wide
    refine (Nat.le_log2 (Nat.mul_pos left right).ne').2 ?_
    exact size.trans (Nat.le_mul_of_pos_right a right)

theorem div_hits (canonical : Canonical n f) (hits : Hits n f (a * 2 ^ i / (b * 2 ^ j))) :
    UnpackedFloat.div .binary64 (.finite s a i left) (.finite s' b j right) =
      .finite (s / s') n f canonical.positive := by
  unfold UnpackedFloat.div divCore
  dsimp only
  rw [targetExponent_of]
  unfold totalExponent
  generalize reached :
    min (i - j) (max ((a.log2 + 1 + i : ℤ) - (b.log2 + 1 + j) - 53) (-1074)) = t
  obtain ⟨k, shift⟩ : ∃ k : ℕ, i - j = t + k := ⟨(i - j - t).toNat, by omega⟩
  have shift' : (i - j - t).toNat = k := by omega
  rw [shift', Nat.shiftLeft_eq]
  refine round_hits (s / s') canonical hits ?_ ?_
  · have exact : (a * 2 ^ i / (b * 2 ^ j) : ℚ) / 2 ^ t = (a * 2 ^ k : ℕ) / b := by
      have exponent : i = t + k + j := by omega
      rw [exponent, zpow_add₀ two_ne_zero, zpow_add₀ two_ne_zero, zpow_natCast]
      push_cast
      field_simp
    rw [exact]
    exact tells_quotient _ right
  · by_cases least : t ≤ -1074
    · exact .inr least
    · left
      have scaled : a * 2 ^ k ≠ 0 := (Nat.mul_pos left (by positivity)).ne'
      have wide : 52 + (b.log2 + 1) ≤ (a * 2 ^ k).log2 := by
        rw [log2_mul_pow left.ne' k]
        omega
      have size : 2 ^ 52 ≤ a * 2 ^ k / b := by
        rw [Nat.le_div_iff_mul_le right]
        calc 2 ^ 52 * b ≤ 2 ^ 52 * 2 ^ (b.log2 + 1) := Nat.mul_le_mul_left _ Nat.lt_log2_self.le
          _ = 2 ^ (52 + (b.log2 + 1)) := (Nat.pow_add ..).symm
          _ ≤ a * 2 ^ k := (Nat.le_log2 scaled).1 wide
      exact (Nat.le_log2 (Nat.lt_of_lt_of_le (by decide) size).ne').2 size

end Operations

theorem unpack_normal (s : Sign) {exponent : BitVec 11} (fraction : BitVec 52)
    (finite : exponent ≠ -1#11) (large : exponent ≠ 0#11) :
    unpack .binary64 (packComponents .binary64 s exponent fraction) =
      .finite s (2 ^ 52 + fraction.toNat) (exponent.toNat - 1075) (by positivity) := by
  have bits : (1#1 ++ fraction).toNat = 2 ^ 52 + fraction.toNat := by
    rw [BitVec.toNat_append, ← Nat.shiftLeft_add_eq_or_of_lt fraction.isLt]
    rfl
  unfold unpack
  simp only [unpackExponent_packComponents, unpackMantissa_packComponents,
    unpackSign_packComponents, Sign.ofBitVec_toBitVec]
  rw [if_neg finite, if_neg large]
  congr 1

theorem unpack_subnormal (s : Sign) {fraction : BitVec 52} (nonzero : fraction ≠ 0#52)
    (positive : 0 < fraction.toNat) :
    unpack .binary64 (packComponents .binary64 s 0#11 fraction) =
      .finite s fraction.toNat (-1074) positive := by
  unfold unpack
  simp only [unpackExponent_packComponents, unpackMantissa_packComponents,
    unpackSign_packComponents, Sign.ofBitVec_toBitVec]
  rw [if_neg (by decide), if_pos trivial, dif_neg nonzero]
  rfl

theorem unpack_pack (s : Sign) (canonical : Canonical m e) (high : e ≤ 971) :
    (Float.Model.pack (.finite s m e canonical.positive)).unpack =
      .finite s m e canonical.positive := by
  obtain ⟨positive, short, low, normal⟩ := canonical
  have bias : Format.binary64.exponentBias = 1023 := rfl
  change unpack .binary64 (pack .binary64 (.finite s m e positive)) = _
  unfold pack
  dsimp only
  rw [bias, if_neg (show ¬ 2 ^ 11 ≤ (e + (1023 : ℕ) + (52 : ℕ)).toNat + 1 by omega)]
  by_cases full : 2 ^ 52 ≤ m
  · have bits : m.log2 + 1 = Format.binary64.mantissaBits :=
      congrArg (· + 1) ((Nat.log2_eq_iff positive.ne').2 ⟨full, short⟩)
    have exponent :
        (BitVec.ofNat 11 (e + (1023 : ℕ) + (52 : ℕ)).toNat).toNat = (e + 1075).toNat := by
      rw [BitVec.toNat_ofNat, Nat.mod_eq_of_lt (by omega)]
      omega
    have fraction : (BitVec.ofNat 52 m).toNat = m - 2 ^ 52 := by
      rw [BitVec.toNat_ofNat]
      omega
    rw [if_pos bits]
    refine (unpack_normal s (BitVec.ofNat 52 m) ?_ ?_).trans ?_
    · intro ones
      rw [ones] at exponent
      simp at exponent
      omega
    · intro zero
      rw [zero] at exponent
      simp at exponent
      omega
    · congr 1
      · rw [fraction]
        omega
      · rw [exponent]
        omega
  · obtain rfl : e = -1074 := normal.resolve_left full
    have bits : m.log2 + 1 ≠ Format.binary64.mantissaBits := by
      have size := (Nat.log2_lt positive.ne').2 (Nat.lt_of_not_le full)
      have width : Format.binary64.mantissaBits = 53 := rfl
      omega
    have fraction : (BitVec.ofNat 52 m).toNat = m := by
      rw [BitVec.toNat_ofNat, Nat.mod_eq_of_lt (Nat.lt_of_not_le full)]
    rw [if_neg bits]
    refine (unpack_subnormal s ?_ (by rw [fraction]; exact positive)).trans ?_
    · intro zero
      rw [zero] at fraction
      simp at fraction
      omega
    · congr 1

def assemble (s : Sign) (canonical : Canonical m e) : Float :=
  .ofModel (.pack (.finite s m e canonical.positive))

theorem assemble_unpack {x : Float} {s : Sign} (canonical : Canonical m e)
    (unpacked : x.toModel.unpack = .finite s m e canonical.positive) :
    assemble s canonical = x := by
  have packed := pack_unpack_of_valid x.toModel.valid
  apply eq_of_bits
  change (pack .binary64 (.finite s m e canonical.positive)).toNat = x.toModel.toBits.toBitVec.toNat
  rw [← unpacked]
  exact congrArg BitVec.toNat packed

theorem assemble_neg (canonical : Canonical m e) (high : e ≤ 971) :
    -assemble .positive canonical = assemble .negative canonical := by
  change Float.ofModel (.pack (UnpackedFloat.neg
    (Float.Model.pack (.finite .positive m e canonical.positive)).unpack)) = _
  rw [unpack_pack .positive canonical high]
  rfl

def signOf (negative : Bool) : Sign :=
  if negative then .negative else .positive

def bits (x : Float) : BitVec Format.binary64.numBits :=
  x.toModel.toBits.toBitVec

theorem fraction_toNat (x : Float) :
    x.toBits.toNat % Binary.hidden = (unpackMantissa (bits x)).toNat := by
  have hidden : Binary.hidden = 2 ^ 52 := rfl
  rw [hidden]
  simp [unpackMantissa, bits]
  rfl

theorem unpackSign_bits (x : Float) :
    Sign.ofBitVec (unpackSign (bits x)) = signOf (decide (Nat.pow 2 63 ≤ x.toBits.toNat)) := by
  have size : x.toBits.toNat < 2 ^ 64 := x.toBits.toNat_lt
  have bit : (unpackSign (bits x)).toNat = x.toBits.toNat / 2 ^ 63 := by
    have whole : (bits x).toNat = x.toBits.toNat := rfl
    simp [unpackSign, Nat.shiftRight_eq_div_pow, whole]
    omega
  have zero : unpackSign (bits x) = 0#1 ↔ ¬ Nat.pow 2 63 ≤ x.toBits.toNat := by
    rw [← BitVec.toNat_inj, bit]
    change _ = 0 ↔ ¬ 2 ^ 63 ≤ _
    omega
  by_cases large : Nat.pow 2 63 ≤ x.toBits.toNat
  · simp [Sign.ofBitVec, zero, signOf, large]
  · simp [Sign.ofBitVec, zero, signOf, large]

theorem unpack_binary {x : Float} {negative : Bool}
    (binary : Binary.ofFloat x = .finite negative m e) (nonzero : m ≠ 0) :
    ∃ canonical : Canonical m e, e ≤ 971 ∧
      x.toModel.unpack = .finite (signOf negative) m e canonical.positive := by
  have hidden : Binary.hidden = 2 ^ 52 := rfl
  have least : Binary.minExponent = -1074 := rfl
  have parts : packComponents .binary64 (signOf (decide (Nat.pow 2 63 ≤ x.toBits.toNat)))
      (biased x) (unpackMantissa (bits x)) = bits x := by
    rw [← unpackSign_bits]
    exact packComponents_unpackSign_unpackExponent_unpackMantissa _
  change ∃ canonical : Canonical m e, e ≤ 971 ∧ unpack .binary64 (bits x) = _
  rw [← parts]
  unfold Binary.ofFloat at binary
  dsimp only at binary
  rw [biased_toNat x, fraction_toNat x, least, hidden] at binary
  generalize decide (Nat.pow 2 63 ≤ x.toBits.toNat) = sign at binary
  generalize unpackMantissa (bits x) = fraction at binary
  generalize biased x = exponent at binary
  have short : fraction.toNat < 2 ^ 52 := fraction.isLt
  have range : exponent.toNat < 2 ^ 11 := exponent.isLt
  split at binary
  · split at binary <;> cases binary
  · rename_i finite
    have finite : exponent ≠ -1#11 := by
      rintro rfl
      exact finite rfl
    split at binary
    · rename_i zero
      cases binary
      obtain rfl : exponent = 0#11 := BitVec.eq_of_toNat_eq zero
      refine ⟨⟨Nat.pos_of_ne_zero nonzero, by omega, le_refl _, .inr rfl⟩, by decide, ?_⟩
      refine unpack_subnormal (signOf _) ?_ _
      rintro rfl
      exact nonzero rfl
    · rename_i large
      cases binary
      have large : exponent ≠ 0#11 := by
        rintro rfl
        exact large rfl
      have full : exponent.toNat ≠ 2047 := fun full => finite (BitVec.eq_of_toNat_eq full)
      refine ⟨⟨by omega, by omega, by omega, .inl (by omega)⟩, by omega, ?_⟩
      exact unpack_normal (signOf _) fraction finite large

theorem hits_self (n : ℕ) (f : ℤ) : Hits n f (n * 2 ^ f) := by
  have same : (n : ℚ) * 2 ^ f / 2 ^ f = n := mul_div_cancel_right₀ _ (by positivity)
  refine ⟨.inl ?_, fun _ _ => ?_⟩
  · rw [same]
    constructor <;> linarith
  · rw [same]
    linarith

theorem toFloat_unpack (positive : 0 < m) (short : m < 2 ^ 53) :
    ∃ n f, ∃ canonical : Canonical n f, 52 ≤ n.log2 ∧ (n : ℚ) * 2 ^ f = m ∧
      m.toUInt64.toFloat.toModel.unpack = .finite .positive n f canonical.positive := by
  have bits := log2_short short
  obtain ⟨k, width⟩ : ∃ k, m.log2 + k = 52 := ⟨52 - m.log2, by omega⟩
  have wide : (m * 2 ^ k).log2 = 52 := by rw [log2_mul_pow positive.ne', width]
  have nonzero : m * 2 ^ k ≠ 0 := (Nat.mul_pos positive (by positivity)).ne'
  have size := (Nat.log2_eq_iff nonzero).1 wide
  have canonical : Canonical (m * 2 ^ k) (-k) :=
    ⟨Nat.pos_of_ne_zero nonzero, size.2, by omega, .inl size.1⟩
  have value : ((m * 2 ^ k : ℕ) : ℚ) * 2 ^ (-(k : ℤ)) = m := by
    rw [zpow_neg, zpow_natCast]
    push_cast
    field_simp
  refine ⟨m * 2 ^ k, -k, canonical, wide.ge, value, ?_⟩
  have whole : m.toUInt64.toNat = m := by
    simp
    omega
  have rounded : UnpackedFloat.normalize .binary64 m 0 .positive =
      .finite .positive (m * 2 ^ k) (-k) canonical.positive := by
    have greater : compare (m : ℤ) 0 = .gt := Int.compare_eq_gt.2 (by omega)
    have target : aim m 0 = -k := by
      unfold aim
      omega
    have shift : ((0 : ℤ) - -k).toNat = k := by omega
    unfold UnpackedFloat.normalize
    rw [greater]
    dsimp only
    unfold Float.Model.UnpackedFloat.round decreaseExponent
    simp only [targetExponent_eq, Int.toNat_natCast, target, shift, Nat.shiftLeft_eq]
    rw [zero_sub]
    refine round_hits .positive canonical (hits_self _ _) ?_ (.inl wide.ge)
    rw [mul_div_cancel_right₀ _ (by positivity)]
    exact tells_exact _
  change (Float.Model.pack
    (UnpackedFloat.normalize .binary64 m.toUInt64.toNat 0 .positive)).unpack = _
  rw [whole, rounded]
  exact unpack_pack .positive canonical (by omega)

def IsTenPow (k : ℕ) : UnpackedFloat → Prop
  | .finite .positive m e _ => m * 2 ^ e.toNat = 10 ^ k * 2 ^ (-e).toNat
  | _ => False

instance (k : ℕ) : DecidablePred (IsTenPow k) := fun u =>
  match u with
  | .finite .positive _ _ _ => inferInstanceAs (Decidable (_ = _))
  | .finite .negative .. | .zero _ | .infinity _ | .notANumber => isFalse id

theorem tenPow_listed : ∀ k : Fin Float.exactlyRepresentablePowersOfTen.size,
    IsTenPow k (Float.exactlyRepresentablePowersOfTen[k]).toModel.unpack := by
  decide +kernel

theorem tenPow_unpack {k : ℕ} (listed : k < Float.exactlyRepresentablePowersOfTen.size) :
    ∃ n : ℕ, ∃ f : ℤ, ∃ positive : 0 < n, (n : ℚ) * 2 ^ f = 10 ^ k ∧
      Float.exactlyRepresentablePowersOfTen[k].toModel.unpack =
        .finite .positive n f positive := by
  have isTenPow := tenPow_listed ⟨k, listed⟩
  unfold IsTenPow at isTenPow
  split at isTenPow
  · rename_i m e positive unpacked
    refine ⟨m, e, positive, ?_, unpacked⟩
    have scaled : (m : ℚ) * 2 ^ e.toNat = 10 ^ k * 2 ^ (-e).toNat := by exact_mod_cast isTenPow
    have split : e = e.toNat - (-e).toNat := by omega
    rw [split, zpow_sub₀ two_ne_zero, zpow_natCast, zpow_natCast, ← mul_div_assoc, scaled]
    field_simp
  · cases isTenPow

theorem exponent_le {k : ℤ} (canonical : Canonical n f) (high : f ≤ 971) (positive : 0 < m)
    (hits : Hits n f (m * 10 ^ k)) : k ≤ 1024 := by
  by_contra far
  have scale : (0 : ℚ) < 2 ^ f := by positivity
  have short : (n : ℚ) + 1 ≤ 2 ^ 53 := by exact_mod_cast canonical.short
  have least : (1 : ℚ) ≤ m := by exact_mod_cast positive
  have large : (2 : ℚ) ^ f * 2 ^ 53 ≤ m * 10 ^ k := by
    calc (2 : ℚ) ^ f * 2 ^ 53 = 2 ^ (f + 53) := by
          rw [zpow_add₀ two_ne_zero]
          rfl
      _ ≤ 2 ^ k := zpow_le_zpow_right₀ one_le_two (by omega)
      _ ≤ 10 ^ k := zpow_le_zpow_left₀ (by omega) two_pos.le (by norm_num)
      _ ≤ m * 10 ^ k := le_mul_of_one_le_left (by positivity) least
  have quotient : (2 : ℚ) ^ 53 ≤ m * 10 ^ k / 2 ^ f := by
    rw [le_div_iff₀ scale, mul_comm]
    exact large
  linarith [hits.nearest.bounds.2]

theorem exponent_ge {k : ℤ} (canonical : Canonical n f) (hits : Hits n f (m * 10 ^ k)) :
    -(1076 + m.log2 : ℤ) ≤ k := by
  by_contra near
  have scale : (0 : ℚ) < 2 ^ f := by positivity
  have one : (1 : ℚ) ≤ n := by exact_mod_cast canonical.positive
  have above := hits.nearest.bounds.1
  rw [le_div_iff₀ scale] at above
  have size : (m : ℚ) < 2 ^ (m.log2 + 1) := by exact_mod_cast Nat.lt_log2_self (n := m)
  have tens : (10 : ℚ) ^ k ≤ 2 ^ k := by
    obtain ⟨j, rfl⟩ : ∃ j : ℕ, k = -j := ⟨(-k).toNat, by omega⟩
    rw [zpow_neg, zpow_neg, zpow_natCast, zpow_natCast]
    exact inv_anti₀ (by positivity) (pow_le_pow_left₀ two_pos.le (by norm_num) j)
  have least : (2 : ℚ) ^ (-1075 : ℤ) ≤ m * 10 ^ k := by
    calc (2 : ℚ) ^ (-1075 : ℤ) ≤ 2 ^ (f - 1) :=
          zpow_le_zpow_right₀ one_le_two (by linarith [canonical.low])
      _ = 1 / 2 * 2 ^ f := by
          rw [zpow_sub₀ two_ne_zero, zpow_one]
          ring
      _ ≤ (n - 1 / 2) * 2 ^ f := mul_le_mul_of_nonneg_right (by linarith) scale.le
      _ ≤ m * 10 ^ k := above
  have most : (m : ℚ) * 10 ^ k ≤ 2 ^ (-1076 : ℤ) := by
    calc (m : ℚ) * 10 ^ k ≤ 2 ^ (m.log2 + 1) * 2 ^ k := by
          exact mul_le_mul size.le tens (by positivity) (by positivity)
      _ = 2 ^ ((m.log2 + 1 : ℕ) + k : ℤ) := by rw [zpow_add₀ two_ne_zero, zpow_natCast]
      _ ≤ 2 ^ (-1076 : ℤ) := zpow_le_zpow_right₀ one_le_two (by push_cast; omega)
  have less : (2 : ℚ) ^ (-1076 : ℤ) < 2 ^ (-1075 : ℤ) :=
    zpow_lt_zpow_right₀ one_lt_two (by norm_num)
  linarith

theorem scientific_unpacked {k : ℤ} (canonical : Canonical n f) (high : f ≤ 971)
    (positive : 0 < m) (hits : Hits n f (m * 10 ^ k)) :
    UnpackedFloat.ofScientific .binary64 m k = .finite .positive n f canonical.positive := by
  have most := exponent_le canonical high positive hits
  have least := exponent_ge canonical hits
  have room : ¬ k > 2 ^ Format.binary64.exponentBits := by
    change ¬ k > 2 ^ 11
    omega
  have enough : ¬ k < -(2 ^ Format.binary64.exponentBits + m.log2) := by
    change ¬ k < -(2 ^ 11 + m.log2)
    omega
  unfold UnpackedFloat.ofScientific
  rw [dif_neg positive.ne', if_neg room, if_neg enough]
  by_cases whole : 0 ≤ k
  · rw [if_pos whole]
    refine mul_hits canonical ?_ ?_
    · have same : ((m <<< Format.binary64.mantissaBits : ℕ) : ℚ) *
          2 ^ (-(Format.binary64.mantissaBits : ℤ)) * ((10 ^ k.toNat : ℕ) * 2 ^ (0 : ℤ)) =
            m * 10 ^ k := by
        rw [Nat.shiftLeft_eq, zpow_neg, zpow_natCast, zpow_zero]
        have tens : (10 : ℚ) ^ k = 10 ^ k.toNat := by
          rw [← zpow_natCast, Int.toNat_of_nonneg whole]
        rw [tens]
        push_cast
        field_simp
      rw [same]
      exact hits
    · rw [Nat.shiftLeft_eq, log2_mul_pow positive.ne']
      have width : Format.binary64.mantissaBits = 53 := rfl
      omega
  · rw [if_neg whole]
    refine div_hits canonical ?_
    have same : (m : ℚ) * 2 ^ (0 : ℤ) / ((10 ^ (-k).toNat : ℕ) * 2 ^ (0 : ℤ)) = m * 10 ^ k := by
      obtain ⟨j, rfl⟩ : ∃ j : ℕ, k = -j := ⟨(-k).toNat, by omega⟩
      rw [neg_neg, Int.toNat_natCast, zpow_zero, zpow_neg, zpow_natCast]
      push_cast
      field_simp
    rw [same]
    exact hits

theorem mul_unpacked (x y : Float) :
    x * y = .ofModel (.pack (UnpackedFloat.mul .binary64 x.toModel.unpack y.toModel.unpack)) :=
  rfl

theorem div_unpacked (x y : Float) :
    x / y = .ofModel (.pack (UnpackedFloat.div .binary64 x.toModel.unpack y.toModel.unpack)) :=
  rfl

theorem ofScientific_hits {k : ℤ} (canonical : Canonical n f) (high : f ≤ 971) (positive : 0 < m)
    (hits : Hits n f (m * 10 ^ k)) :
    Float.ofScientific m (k < 0) k.natAbs = assemble .positive canonical := by
  unfold Float.ofScientific
  split
  · -- Both numbers are held, so one operation on them rounds once.
    rename_i few
    obtain ⟨short, few⟩ := few
    obtain ⟨a, i, operand, wide, whole, unpacked⟩ := toFloat_unpack positive short
    have listed : k.natAbs < Float.exactlyRepresentablePowersOfTen.size := Nat.lt_succ_of_le few
    obtain ⟨b, j, right, power, unpacked'⟩ := tenPow_unpack listed
    by_cases negative : k < 0
    · have value : (a : ℚ) * 2 ^ i / (b * 2 ^ j) = m * 10 ^ k := by
        have exponent : k = -(k.natAbs : ℤ) := by omega
        rw [whole, power, exponent, zpow_neg, zpow_natCast, Int.natAbs_neg, Int.natAbs_natCast]
        rfl
      dsimp only
      rw [if_pos (decide_eq_true negative), div_unpacked, unpacked, unpacked',
        div_hits canonical (value ▸ hits)]
      rfl
    · have value : (a : ℚ) * 2 ^ i * (b * 2 ^ j) = m * 10 ^ k := by
        have exponent : k = (k.natAbs : ℤ) := by omega
        rw [whole, power, exponent, zpow_natCast, Int.natAbs_natCast]
      dsimp only
      rw [if_neg (by simpa using negative), mul_unpacked, unpacked, unpacked',
        mul_hits canonical (value ▸ hits) wide]
      rfl
  · have exponent : (if decide (k < 0) = true then Int.negOfNat k.natAbs
        else Int.ofNat k.natAbs) = k := by
      split
      · rename_i negative
        rw [Int.negOfNat_eq]
        have := of_decide_eq_true negative
        simp only [Int.ofNat_eq_natCast]
        omega
      · rename_i negative
        simp only [decide_eq_true_eq] at negative
        simp only [Int.ofNat_eq_natCast]
        omega
    dsimp only
    rw [exponent]
    change Float.ofModel (.pack (UnpackedFloat.ofScientific .binary64 m k)) = _
    rw [scientific_unpacked canonical high positive hits]
    rfl

theorem ofDecimal_hits {x : Float} {d : Decimal}
    (binary : Binary.ofFloat x = .finite d.negative n f) (nonzero : n ≠ 0)
    (positive : 0 < d.digits) (hits : Hits n f (d.digits * 10 ^ d.exponent)) : ofDecimal d = x := by
  obtain ⟨canonical, high, unpacked⟩ := unpack_binary binary nonzero
  have magnitude := ofScientific_hits canonical high positive hits
  unfold ofDecimal
  dsimp only
  rw [magnitude]
  cases negative : d.negative with
  | false =>
    rw [negative] at unpacked
    exact assemble_unpack canonical unpacked
  | true =>
    rw [negative] at unpacked
    exact (assemble_neg canonical high).trans (assemble_unpack canonical unpacked)

end Double
end PathData
