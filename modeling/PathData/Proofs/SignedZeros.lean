import PathData.Proofs.NearestDoubles

namespace PathData
namespace Double

open Float.Model (Format UnpackedFloat)
open Float.Model.UnpackedFloat
open scoped PathData.Scalar

-- Shifting goes no further than to 53 bits, unless the exponent is too small to be held.
theorem shifted_positive (positive : 0 < m) (low : -1074 ≤ e) :
    0 < m / 2 ^ (aim m e - e).toNat := by
  have size : 2 ^ m.log2 ≤ m := Nat.log2_self_le positive.ne'
  have shift : (aim m e - e).toNat ≤ m.log2 := by
    unfold aim
    omega
  apply Nat.div_pos
  · exact (Nat.pow_le_pow_right (by decide) shift).trans size
  · positivity

theorem le_rounded (em : ExtendedMantissa) : em.mantissa ≤ em.roundedMantissa := by
  unfold ExtendedMantissa.roundedMantissa Accuracy.roundToNearestEven
  split <;> omega

theorem landed_positive (positive : 0 < m) (low : -1074 ≤ e) (accuracy : Accuracy) :
    0 < landed m e accuracy := by
  have up := le_rounded
    (ExtendedMantissa.ofMantissaAndAccuracy m accuracy >>> (aim m e - e).toNat)
  rw [mantissa_shift, mantissa_accuracy] at up
  exact (shifted_positive positive low).trans_le up

def Held : UnpackedFloat → Prop
  | .finite _ m e _ => m < 2 ^ 53 ∧ -1074 ≤ e
  | _ => False

theorem roundWithAccuracy_held (sign : Sign) (positive : 0 < m) (low : -1074 ≤ e)
    (accuracy : Accuracy) : Held (roundWithAccuracy .binary64 sign m e accuracy) := by
  have least : -1074 ≤ max e (aim m e) := le_max_of_le_left low
  have settled := shifted_positive (landed_positive positive low accuracy) least
  unfold roundWithAccuracy
  simp only [shift_eq]
  split
  · rename_i zero
    rw [mantissa_shift, mantissa_accuracy] at zero
    exact absurd zero settled.ne'
  · refine ⟨?_, le_max_of_le_left least⟩
    rw [mantissa_shift, mantissa_accuracy]
    exact shifted_short _ _

theorem round_held (sign : Sign) (positive : 0 < m) (low : -1074 ≤ e) :
    Held (Float.Model.UnpackedFloat.round .binary64 sign m e) := by
  unfold Float.Model.UnpackedFloat.round decreaseExponent
  simp only [targetExponent_eq, Nat.shiftLeft_eq]
  apply roundWithAccuracy_held
  · positivity
  · have aimed : -1074 ≤ aim m e := le_max_right _ _
    omega

theorem unpack_held {u : UnpackedFloat} (held : Held u) (sign : Sign) :
    (Float.Model.pack u).unpack ≠ .zero sign := by
  cases u with
  | infinity | notANumber | zero => cases held
  | finite s m e positive =>
    obtain ⟨short, low⟩ := held
    have bias : Format.binary64.exponentBias = 1023 := rfl
    change unpack .binary64 (pack .binary64 (.finite s m e positive)) ≠ _
    unfold pack
    dsimp only
    rw [bias]
    split
    · simp [packedInfinity, unpack]
    · rename_i finite
      split
      · rw [unpack_normal]
        · nofun
        · intro ones
          have value := congrArg BitVec.toNat ones
          simp at value
          omega
        · intro zero
          have value := congrArg BitVec.toNat zero
          simp at value
          omega
      · rename_i bits
        have width : Format.binary64.mantissaBits = 53 := rfl
        have small : m < 2 ^ 52 := by
          have most := log2_short short
          exact (Nat.log2_lt positive.ne').1 (by omega)
        have fraction : (BitVec.ofNat 52 m).toNat = m := by
          rw [BitVec.toNat_ofNat, Nat.mod_eq_of_lt small]
        rw [unpack_subnormal]
        · nofun
        · intro zero
          have value := congrArg BitVec.toNat zero
          rw [fraction] at value
          exact positive.ne' value
        · rw [fraction]
          exact positive

theorem unpack_low {b : BitVec Format.binary64.numBits} {s : Sign} {positive : 0 < m}
    (unpacked : unpack .binary64 b = .finite s m e positive) : -1074 ≤ e := by
  have bias : Format.binary64.exponentBias = 1023 := rfl
  unfold unpack at unpacked
  dsimp only at unpacked
  rw [bias] at unpacked
  split at unpacked
  · split at unpacked <;> cases unpacked
  · split at unpacked
    · split at unpacked
      · cases unpacked
      · cases unpacked
        omega
    · rename_i large
      cases unpacked
      have nonzero : (unpackExponent b).toNat ≠ 0 := fun zero => large (BitVec.eq_of_toNat_eq zero)
      omega

theorem unpack_zero (s : Sign) : (Float.Model.pack (.zero s)).unpack = .zero s :=
  unpack_packedZero

-- A sum before it is packed. The second term stays where it is not the negative zero.
inductive Summed (u v : UnpackedFloat) : UnpackedFloat → Prop where
  | left : Summed u v u
  | right (apart : v ≠ .zero .negative) : Summed u v v
  | held {w : UnpackedFloat} (held : Held w) : Summed u v w
  | zero : Summed u v (.zero .positive)
  | notANumber : Summed u v .notANumber

theorem normalize_summed {k : ℤ} (low : -1074 ≤ e) :
    Held (UnpackedFloat.normalize .binary64 k e .positive) ∨
      UnpackedFloat.normalize .binary64 k e .positive = .zero .positive := by
  unfold UnpackedFloat.normalize
  split
  · rename_i negative
    rw [Int.compare_eq_lt] at negative
    exact .inl (round_held .negative (by omega) low)
  · exact .inr rfl
  · rename_i positive
    rw [Int.compare_eq_gt] at positive
    exact .inl (round_held .positive (by omega) low)

def NegativeZero (x : Float) : Prop :=
  x.toModel.unpack = .zero .negative

theorem eq_of_unpack {x : Float} {u : UnpackedFloat} (same : u = x.toModel.unpack) :
    Float.ofModel (.pack u) = x := by
  subst same
  apply eq_of_bits
  exact congrArg BitVec.toNat (pack_unpack_of_valid x.toModel.valid)

theorem add_unpacked (x y : Float) :
    x + y = .ofModel (.pack (UnpackedFloat.add .binary64 x.toModel.unpack y.toModel.unpack)) :=
  rfl

theorem add_summed (x y : Float) :
    Summed x.toModel.unpack y.toModel.unpack
      (UnpackedFloat.add .binary64 x.toModel.unpack y.toModel.unpack) := by
  cases left : x.toModel.unpack with
  | notANumber => exact .notANumber
  | infinity s =>
    cases right : y.toModel.unpack with
    | notANumber => exact .notANumber
    | infinity s' =>
      change Summed _ _ (if s == s' then _ else _)
      split
      · exact .left
      · exact .notANumber
    | zero | finite => exact .left
  | zero s =>
    cases right : y.toModel.unpack with
    | notANumber => exact .notANumber
    | infinity | finite => exact .right nofun
    | zero s' =>
      change Summed _ _ (if s == s' then _ else _)
      split
      · exact .left
      · exact .zero
  | finite s m e positive =>
    cases right : y.toModel.unpack with
    | notANumber => exact .notANumber
    | infinity => exact .right nofun
    | zero => exact .left
    | finite s' m' e' positive' =>
      have low : -1074 ≤ min e e' := le_min (unpack_low left) (unpack_low right)
      rcases normalize_summed (k := s.apply (decreaseExponent m e (min e e')).1 +
        s'.apply (decreaseExponent m' e' (min e e')).1) low with held | zero
      · exact .held held
      · have zero : UnpackedFloat.add .binary64 (.finite s m e positive)
            (.finite s' m' e' positive') = .zero .positive := zero
        rw [zero]
        exact .zero

theorem add_negativeZero {x y : Float} (zero : NegativeZero (x + y)) : NegativeZero x := by
  have summed := add_summed x y
  unfold NegativeZero at zero
  rw [add_unpacked] at zero
  generalize UnpackedFloat.add .binary64 x.toModel.unpack y.toModel.unpack = w at summed zero
  generalize left : x.toModel.unpack = u at summed
  generalize right : y.toModel.unpack = v at summed
  cases summed with
  | left =>
    rw [eq_of_unpack left.symm] at zero
    exact zero
  | right apart =>
    rw [eq_of_unpack right.symm, right] at zero
    exact absurd zero apart
  | held held => exact absurd zero (unpack_held held .negative)
  | zero =>
    have positive : (Float.Model.pack (.zero .positive)).unpack = .zero .negative := zero
    rw [unpack_zero] at positive
    cases positive
  | notANumber =>
    have same : (Float.Model.pack .notANumber).unpack = .notANumber := unpack_packedNaN
    have other : (Float.Model.pack .notANumber).unpack = .zero .negative := zero
    rw [same] at other
    cases other

theorem zero_add_of {x : Float} (apart : ¬ NegativeZero x) : 0 + x = x := by
  have zero : (0 : Float).toModel.unpack = .zero .positive := unpack_zero .positive
  rw [add_unpacked, zero]
  apply eq_of_unpack
  unfold NegativeZero at apart
  cases unpacked : x.toModel.unpack with
  | notANumber | infinity | finite => rfl
  | zero s =>
    cases s with
    | positive => rfl
    | negative => exact absurd unpacked apart

theorem zero_apart : ¬ NegativeZero (0 : Float) := by
  have zero : (0 : Float).toModel.unpack = .zero .positive := unpack_zero .positive
  unfold NegativeZero
  rw [zero]
  nofun

theorem zero_add_add {x : Float} (settled : 0 + x = x) (y : Float) : 0 + (x + y) = x + y := by
  have apart : ¬ NegativeZero x := by
    intro zero
    rw [← settled] at zero
    exact zero_apart (add_negativeZero zero)
  exact zero_add_of fun zero => apart (add_negativeZero zero)

theorem unpackSign_abs (u : UnpackedFloat) :
    unpackSign (pack .binary64 u.abs) = Sign.positive.toBitVec := by
  cases u with
  | notANumber | infinity | zero => exact unpackSign_packComponents _ _ _
  | finite s m e positive =>
    change unpackSign (pack .binary64 (.finite .positive m e positive)) = _
    unfold pack
    dsimp only
    split
    · exact unpackSign_packComponents _ _ _
    · split <;> exact unpackSign_packComponents _ _ _

theorem unpack_positive {b : BitVec Format.binary64.numBits}
    (positive : unpackSign b = Sign.positive.toBitVec) :
    (unpack .binary64 b).abs = unpack .binary64 b := by
  unfold unpack
  rw [positive]
  dsimp only
  split
  · split <;> rfl
  · split
    · split <;> rfl
    · rfl

theorem abs_abs (x : Float) : x.abs.abs = x.abs := by
  change Float.ofModel (.pack x.abs.toModel.unpack.abs) = x.abs
  apply eq_of_unpack
  exact unpack_positive (unpackSign_abs x.toModel.unpack)

end Double
end PathData
