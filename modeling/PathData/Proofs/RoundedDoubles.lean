import Mathlib
import PathData.Number.Double
import PathData.Number.Rounding
import PathData.Proofs.FilterForms
import PathData.Proofs.WellFormed

namespace PathData
namespace Double

open Float.Model (Format UnpackedFloat totalExponent)
open Float.Model.UnpackedFloat
open Fault (bind_ok bind_error)
open scoped PathData.Scalar

-- The exponents of finite doubles, for mantissas of 53 bits.
def InRange (top : Int) : Prop :=
  -1074 ≤ top ∧ top ≤ 971

-- A number that is not rounded yet, with an exponent up to `top`.
def Fits (top : Int) : UnpackedFloat → Prop
  | .zero _ => True
  | .finite _ _ e _ => e ≤ top
  | _ => False

def Bounded (top : Int) : UnpackedFloat → Prop
  | .zero _ => True
  | .finite _ m e _ => m < 2 ^ 53 ∧ e ≤ top
  | _ => False

def Tame (top : Int) (x : Float) : Prop :=
  Bounded top x.toModel.unpack

theorem exponent_pack {u : UnpackedFloat} (range : InRange top) (fits : Fits top u) :
    ((unpackExponent (pack .binary64 u)).toNat : Int) ≤ top + 1075 := by
  obtain ⟨low, high⟩ := range
  cases u with
  | infinity => cases fits
  | notANumber => cases fits
  | zero sign =>
    have zero : unpackExponent (pack .binary64 (.zero sign)) = 0 := by
      simp [pack, packedZero]
    rw [zero]
    simp
    omega
  | finite sign m e positive =>
    have within : e ≤ top := fits
    have bias : Format.binary64.exponentBias = 1023 := rfl
    unfold pack
    dsimp only
    rw [bias]
    split
    · omega
    · split
      · simp only [unpackExponent_packComponents, BitVec.toNat_ofNat]
        have := Nat.mod_le (e + (1023 : Nat) + (52 : Nat)).toNat (2 ^ 11)
        omega
      · simp
        omega

theorem bounded_unpack {b : BitVec Format.binary64.numBits} (range : InRange top)
    (small : ((unpackExponent b).toNat : Int) ≤ top + 1075) : Bounded top (unpack .binary64 b) := by
  obtain ⟨low, high⟩ := range
  have bias : Format.binary64.exponentBias = 1023 := rfl
  have fraction : (unpackMantissa b).toNat < 2 ^ 52 := (unpackMantissa b).isLt
  have finite : unpackExponent b ≠ -1#11 := by
    intro ones
    rw [ones] at small
    simp at small
    omega
  unfold unpack
  dsimp only
  rw [if_neg finite, bias]
  split
  · split
    · trivial
    · rename_i zero _
      rw [zero]
      exact ⟨by omega, by simp; omega⟩
  · refine ⟨?_, by omega⟩
    have whole := (1#1 ++ unpackMantissa b).isLt
    omega

theorem tame_pack {u : UnpackedFloat} (range : InRange top) (fits : Fits top u) :
    Tame top (.ofModel (.pack u)) :=
  bounded_unpack range (exponent_pack range fits)

theorem mantissa_shift (em : ExtendedMantissa) (n : Nat) :
    (em >>> n).mantissa = em.mantissa / 2 ^ n := by
  change (n.repeat ExtendedMantissa.shiftRightOne em).mantissa = _
  induction n with
  | zero => simp [Nat.repeat]
  | succ n ih =>
    change (n.repeat ExtendedMantissa.shiftRightOne em).mantissa / 2 = _
    rw [ih, Nat.div_div_eq_div_mul, Nat.pow_succ]

theorem exact_shift {m n : Nat} (divides : 2 ^ n ∣ m) :
    (⟨m, false, false⟩ : ExtendedMantissa) >>> n = ⟨m / 2 ^ n, false, false⟩ := by
  change n.repeat ExtendedMantissa.shiftRightOne ⟨m, false, false⟩ = _
  induction n with
  | zero => simp [Nat.repeat]
  | succ n ih =>
    have half : 2 ^ n ∣ m := (Nat.pow_dvd_pow 2 (Nat.le_succ n)).trans divides
    have even : m / 2 ^ n % 2 = 0 := by
      obtain ⟨k, rfl⟩ := divides
      rw [Nat.pow_succ, Nat.mul_assoc, Nat.mul_div_cancel_left _ (Nat.pow_pos (by decide))]
      exact Nat.mul_mod_right 2 k
    change (n.repeat ExtendedMantissa.shiftRightOne ⟨m, false, false⟩).shiftRightOne = _
    rw [ih half]
    simp [ExtendedMantissa.shiftRightOne, even, Nat.div_div_eq_div_mul, Nat.pow_succ]

theorem rounded_le (em : ExtendedMantissa) : em.roundedMantissa ≤ em.mantissa + 1 := by
  unfold ExtendedMantissa.roundedMantissa Accuracy.roundToNearestEven
  split <;> omega

def aim (m : Nat) (e : Int) : Int :=
  max (m.log2 + e - 52) (-1074)

theorem targetExponent_eq (m : Nat) (e : Int) :
    Format.binary64.targetExponent (totalExponent m e) = aim m e := by
  have bits : Format.binary64.mantissaBits = 53 := rfl
  have least : Format.binary64.minExponent = -1074 := rfl
  unfold Format.targetExponent totalExponent aim
  rw [bits, least]
  congr 1
  omega

theorem log2_short {m : Nat} (short : m < 2 ^ 53) : m.log2 ≤ 52 := by
  by_cases zero : m = 0
  · simp [zero]
  · have := (Nat.log2_lt zero).2 short
    omega

theorem log2_mul_pow {m : Nat} (nonzero : m ≠ 0) (k : Nat) : (m * 2 ^ k).log2 = m.log2 + k := by
  induction k with
  | zero => simp
  | succ k ih =>
    have positive : m * 2 ^ k ≠ 0 := Nat.mul_ne_zero nonzero (by simp)
    rw [Nat.pow_succ, ← Nat.mul_assoc, Nat.mul_comm _ 2, Nat.log2_two_mul positive, ih]
    rfl

theorem aim_short {m : Nat} {e : Int} (short : m < 2 ^ 53) : aim m e ≤ max e (-1074) := by
  have bits := log2_short short
  unfold aim
  omega

theorem shifted_short (m : Nat) (e : Int) : m / 2 ^ (aim m e - e).toNat < 2 ^ 53 := by
  have size := Nat.lt_log2_self (n := m)
  have shift : m.log2 + 1 ≤ 53 + (aim m e - e).toNat := by
    unfold aim
    omega
  rw [Nat.div_lt_iff_lt_mul (Nat.pow_pos (by decide)), ← Nat.pow_add]
  exact size.trans_le (Nat.pow_le_pow_right (by decide) shift)

def landed (m : Nat) (e : Int) (accuracy : Accuracy) : Nat :=
  (ExtendedMantissa.ofMantissaAndAccuracy m accuracy >>> (aim m e - e).toNat).roundedMantissa

-- Rounding shifts to the exponent that is aimed at, and once more if the mantissa has grown.
theorem round_fits {m : Nat} {e : Int} (reached : max e (aim m e) ≤ top)
    (settled : aim (landed m e accuracy) (max e (aim m e)) ≤ top) (sign : Sign) :
    Fits top (roundWithAccuracy .binary64 sign m e accuracy) := by
  have shifted : e + (aim m e - e).toNat = max e (aim m e) := by omega
  unfold roundWithAccuracy shiftToTargetExponent shiftToExponent
  dsimp only
  simp only [targetExponent_eq]
  split
  · trivial
  · change max e (aim m e) ≤ top at reached
    rw [← shifted] at settled
    change e + (aim m e - e).toNat + (aim (landed m e accuracy) (e + (aim m e - e).toNat) -
      (e + (aim m e - e).toNat)).toNat ≤ top
    omega

theorem mantissa_accuracy (m : Nat) (accuracy : Accuracy) :
    (ExtendedMantissa.ofMantissaAndAccuracy m accuracy).mantissa = m := by
  unfold ExtendedMantissa.ofMantissaAndAccuracy
  split <;> rfl

theorem round_below {m : Nat} {e : Int} (small : m.log2 + e ≤ top + 51) (low : e < top)
    (range : -1074 < top) (sign : Sign) (accuracy : Accuracy) :
    Fits top (roundWithAccuracy .binary64 sign m e accuracy) := by
  have reached : max e (aim m e) < top := by
    unfold aim
    omega
  refine round_fits (Int.le_of_lt reached) ?_ sign
  have grown : landed m e accuracy < 2 ^ 53 + 1 := by
    have up := rounded_le
      (ExtendedMantissa.ofMantissaAndAccuracy m accuracy >>> (aim m e - e).toNat)
    rw [mantissa_shift, mantissa_accuracy] at up
    exact Nat.lt_of_le_of_lt up (Nat.add_lt_add_right (shifted_short m e) 1)
  have bits : (landed m e accuracy).log2 ≤ 53 := by
    by_cases zero : landed m e accuracy = 0
    · simp [zero]
    · have := (Nat.log2_lt zero).2 (show landed m e accuracy < 2 ^ 54 by omega)
      omega
  unfold aim at reached ⊢
  omega

-- What is shifted out without a remainder is not rounded, so the top itself can be reached.
theorem round_exact {m : Nat} {e : Int} (small : m.log2 + e ≤ top + 52) (low : e ≤ top)
    (range : -1074 ≤ top) (divides : 2 ^ (aim m e - e).toNat ∣ m) (sign : Sign) :
    Fits top (roundWithAccuracy .binary64 sign m e .exact) := by
  have reached : max e (aim m e) ≤ top := by
    unfold aim
    omega
  refine round_fits reached ?_ sign
  have same : landed m e .exact = m / 2 ^ (aim m e - e).toNat := by
    unfold landed ExtendedMantissa.ofMantissaAndAccuracy
    rw [exact_shift divides]
    rfl
  rw [same]
  have short := aim_short (e := max e (aim m e)) (shifted_short m e)
  omega

theorem tame_neg {x : Float} (range : InRange top) (tame : Tame top x) : Tame top (-x) := by
  refine tame_pack range ?_
  unfold Tame at tame
  cases unpacked : x.toModel.unpack with
  | infinity | notANumber =>
    rw [unpacked] at tame
    cases tame
  | zero => trivial
  | finite sign m e positive =>
    rw [unpacked] at tame
    exact tame.2

theorem normalize_fits {n : Nat} (small : n < 2 ^ 53) :
    Fits 1 (UnpackedFloat.normalize .binary64 n 0 .positive) := by
  have bits := log2_short small
  unfold UnpackedFloat.normalize
  split
  · rename_i negative
    rw [Int.compare_eq_lt] at negative
    omega
  · trivial
  · rename_i positive
    rw [Int.compare_eq_gt] at positive
    rw [Int.toNat_natCast]
    unfold Float.Model.UnpackedFloat.round decreaseExponent
    simp only [targetExponent_eq, Nat.shiftLeft_eq]
    refine round_below ?_ (by omega) (by decide) _ _
    rw [log2_mul_pow (by omega)]
    push_cast
    omega

def one : Float := Float.ofBits 0x3FF0000000000000

theorem unpack_one :
    ∃ positive, one.toModel.unpack = .finite .positive (2 ^ 52) (-52) positive :=
  ⟨by decide, by rfl⟩

theorem inRange_max : InRange 971 := by
  unfold InRange
  omega

theorem tame_small {n : Nat} (small : n < 2 ^ 53) : Tame 971 (Float.ofNat n) := by
  change Tame 971 (Float.ofScientific n false 0)
  unfold Float.ofScientific
  rw [dif_pos ⟨small, by decide⟩]
  have whole : n.toUInt64.toNat = n := by
    simp
    omega
  have tame : Tame 1 n.toUInt64.toFloat := by
    refine tame_pack (by unfold InRange; omega) ?_
    change Fits 1 (UnpackedFloat.normalize .binary64 n.toUInt64.toNat 0 .positive)
    rw [whole]
    exact normalize_fits small
  obtain ⟨positive, unpackedOne⟩ := unpack_one
  change Tame 971 (n.toUInt64.toFloat * one)
  refine tame_pack inRange_max ?_
  rw [unpackedOne]
  unfold Tame at tame
  cases unpacked : n.toUInt64.toFloat.toModel.unpack with
  | infinity | notANumber =>
    rw [unpacked] at tame
    cases tame
  | zero => trivial
  | finite sign m e nonzero =>
    rw [unpacked] at tame
    obtain ⟨short, low⟩ := tame
    have bits := log2_short short
    refine round_below ?_ (by omega) (by decide) _ _
    rw [log2_mul_pow (by omega)]
    push_cast
    omega

theorem tame_large {m k : Nat} (large : 2 ^ 53 ≤ m * 2 ^ k) (short : m < 2 ^ 53) (few : k ≤ 971) :
    Tame 971 (Float.ofNat (m * 2 ^ k)) := by
  have nonzero : m ≠ 0 := by
    rintro rfl
    simp at large
  have bits := log2_short short
  change Tame 971 (Float.ofScientific (m * 2 ^ k) false 0)
  unfold Float.ofScientific
  rw [dif_neg (by omega)]
  refine tame_pack inRange_max ?_
  have scaled : UnpackedFloat.ofScientific .binary64 (m * 2 ^ k) (Int.ofNat 0) =
      roundWithAccuracy .binary64 .positive (m * 2 ^ (k + 53)) (-53) .exact := by
    have room : ¬ Int.ofNat 0 < -((2 ^ Format.binary64.exponentBits : Int) + (m * 2 ^ k).log2) := by
      simp only [Int.ofNat_eq_natCast]
      push_cast
      omega
    unfold UnpackedFloat.ofScientific
    rw [dif_neg (by omega), if_neg (by decide), if_neg room, if_pos (by decide)]
    change roundWithAccuracy .binary64 .positive ((m * 2 ^ k) <<< 53 * 1) (-53 + 0) .exact = _
    rw [Nat.shiftLeft_eq, Nat.mul_one, Nat.mul_assoc, ← Nat.pow_add]
    rfl
  rw [if_neg (by decide), scaled]
  refine round_exact ?_ (by decide) (by decide) ?_ _
  · rw [log2_mul_pow nonzero]
    push_cast
    omega
  · refine (Nat.pow_dvd_pow 2 ?_).trans (Nat.dvd_mul_left _ _)
    unfold aim
    rw [log2_mul_pow nonzero]
    omega

-- The powers of ten that numbers are scaled with: one, and those that are eight or more.
def IsScale : UnpackedFloat → Prop
  | .finite .positive m e _ => m = 2 ^ 52 ∧ e = -52 ∨ 3 ≤ (m.log2 : Int) + e
  | _ => False

instance : DecidablePred IsScale := fun u =>
  match u with
  | .finite .positive _ _ _ => inferInstanceAs (Decidable (_ ∨ _))
  | .finite .negative .. | .zero _ | .infinity _ | .notANumber => isFalse id

theorem log2_div {m n : Nat} (nonzero : n ≠ 0) : (m / n).log2 ≤ m.log2 - n.log2 := by
  by_cases none : m / n = 0
  · simp [none]
  · have size := Nat.lt_log2_self (n := m)
    have least := Nat.log2_self_le nonzero
    have order : n ≤ m := Nat.le_of_not_lt (mt Nat.div_eq_of_lt none)
    have logs : n.log2 ≤ m.log2 := (Nat.le_log2 (by omega)).2 (least.trans order)
    refine Nat.le_of_lt_succ ((Nat.log2_lt none).2 ?_)
    rw [Nat.div_lt_iff_lt_mul (by omega)]
    calc m < 2 ^ (m.log2 + 1) := size
      _ = 2 ^ (m.log2 - n.log2).succ * 2 ^ n.log2 := by
        rw [← Nat.pow_add]
        congr 1
        omega
      _ ≤ 2 ^ (m.log2 - n.log2).succ * n := Nat.mul_le_mul_left _ least

theorem targetExponent_of (x : Int) :
    Format.binary64.targetExponent x = max (x - 53) (-1074) := by
  have bits : Format.binary64.mantissaBits = 53 := rfl
  have least : Format.binary64.minExponent = -1074 := rfl
  unfold Format.targetExponent
  rw [bits, least]
  rfl

theorem scale_parts {v : UnpackedFloat} (scale : IsScale v) :
    ∃ m e positive, v = .finite .positive m e positive ∧
      (m = 2 ^ 52 ∧ e = -52 ∨ 3 ≤ (m.log2 : Int) + e) := by
  unfold IsScale at scale
  split at scale
  · exact ⟨_, _, _, rfl, scale⟩
  · cases scale

theorem div_fits {u v : UnpackedFloat} (bounded : Bounded 971 u) (scale : IsScale v) :
    Fits 971 (UnpackedFloat.div .binary64 u v) := by
  obtain ⟨n, f, positive, rfl, large⟩ := scale_parts scale
  cases u with
  | infinity | notANumber => cases bounded
  | zero => trivial
  | finite sign m e nonzero =>
    obtain ⟨short, low⟩ := bounded
    have bits := log2_short short
    unfold UnpackedFloat.div divCore
    dsimp only
    rw [targetExponent_of]
    unfold totalExponent
    generalize reached :
      min (e - f) (max ((m.log2 + 1 + e : Int) - (n.log2 + 1 + f) - 53) (-1074)) = t
    rw [Nat.shiftLeft_eq]
    have quotient := log2_div (m := m * 2 ^ (e - f - t).toNat) (n := n) (by omega)
    rw [log2_mul_pow (by omega)] at quotient
    by_cases below : (m.log2 + e : Int) - (n.log2 + f) ≤ 1022
    · exact round_below (by omega) (by omega) (by decide) _ _
    · -- Only division by one reaches the top, and it is exact.
      obtain ⟨rfl, rfl⟩ : n = 2 ^ 52 ∧ f = -52 := large.resolve_right (by omega)
      rw [Nat.log2_two_pow] at below reached
      obtain rfl : e = 971 := by omega
      obtain rfl : t = 970 := by omega
      have double : m * 2 ^ ((971 : Int) - -52 - 970).toNat = m * 2 ^ 1 * 2 ^ 52 := by
        rw [Nat.mul_assoc, ← Nat.pow_add]
        rfl
      rw [double, Nat.mul_div_cancel _ (by decide), Nat.mul_mod_left]
      have size : (m * 2 ^ 1).log2 = m.log2 + 1 := log2_mul_pow (by omega) 1
      refine round_exact ?_ (by decide) (by decide) ?_ _
      · rw [size]
        push_cast
        omega
      · refine (Nat.pow_dvd_pow 2 ?_).trans (Nat.dvd_mul_left _ _)
        unfold aim
        rw [size]
        omega

theorem tame_div {x scale : Float} (tame : Tame 971 x) (isScale : IsScale scale.toModel.unpack) :
    Tame 971 (x / scale) :=
  tame_pack inRange_max (div_fits tame isScale)

theorem tame_copySign {x : Float} (tame : Tame 971 x) (sign : Float) :
    Tame 971 (copySign x sign) := by
  unfold copySign
  split
  · exact tame
  · exact tame_neg inRange_max tame

theorem tame_ofInt {whole : Int} {m k : Nat} (size : whole.natAbs = m * 2 ^ k) (short : m < 2 ^ 53)
    (few : k ≤ 971) : Tame 971 (Float.ofInt whole) := by
  have magnitude : Tame 971 (Float.ofNat whole.natAbs) := by
    by_cases small : whole.natAbs < 2 ^ 53
    · exact tame_small small
    · rw [size] at small ⊢
      exact tame_large (Nat.le_of_not_lt small) short few
  cases whole with
  | ofNat n => exact magnitude
  | negSucc n => exact tame_neg inRange_max magnitude

theorem ofFloat_bounds {x : Float} {negative : Bool} {m : Nat} {e : Int}
    (finite : Binary.ofFloat x = .finite negative m e) : m < 2 ^ 53 ∧ e ≤ 971 := by
  have hidden : Binary.hidden = 2 ^ 52 := rfl
  have least : Binary.minExponent = -1074 := rfl
  unfold Binary.ofFloat at finite
  dsimp only at finite
  rw [hidden, least] at finite
  split at finite
  · split at finite <;> cases finite
  · split at finite
    · cases finite
      omega
    · cases finite
      omega

theorem floor_tame {x : Float} (floored : (Binary.ofFloat x).floor = .ok whole) :
    Tame 971 (Float.ofInt whole) := by
  cases binary : Binary.ofFloat x with
  | infinite | notANumber =>
    rw [binary] at floored
    cases floored
  | finite negative m e =>
    obtain ⟨short, low⟩ := ofFloat_bounds binary
    rw [binary] at floored
    unfold Binary.floor at floored
    dsimp only at floored
    have size : (if negative = true then -(m : Int) else m).natAbs = m := by
      split <;> simp
    split at floored
    · cases floored
      refine tame_ofInt ?_ short (show e.toNat ≤ 971 by omega)
      rw [Int.natAbs_mul, size, Int.natAbs_natCast]
      rfl
    · cases floored
      have smaller := Int.natAbs_ediv_le_natAbs (if negative = true then -(m : Int) else m)
        (Nat.pow 2 (-e).toNat : Nat)
      rw [size] at smaller
      exact tame_ofInt (Nat.mul_one _).symm (smaller.trans_lt short) (Nat.zero_le _)

theorem tenPow_eq {digits : Int} (low : 0 ≤ digits) (high : digits ≤ 22) :
    tenPow digits = .ok (Float.ofScientific 1 false digits.natAbs) := by
  have positive : decide (digits < 0) = false := decide_eq_false (by omega)
  unfold tenPow
  rw [if_pos ⟨by omega, high⟩, positive]
  rfl

theorem tenPow_scale {digits : Int} (low : 0 ≤ digits) (high : digits ≤ 19) :
    ∃ scale, tenPow digits = .ok scale ∧ IsScale scale.toModel.unpack := by
  have scales : ∀ n ∈ List.range 20, IsScale (Float.ofScientific 1 false n).toModel.unpack := by
    decide +kernel
  refine ⟨_, tenPow_eq low (by omega), scales _ ?_⟩
  rw [List.mem_range]
  omega

theorem toFixed_tame {x : Float} {digits : Int} (low : 0 ≤ digits) (high : digits ≤ 19)
    (fixed : Rounding.toFixed x digits = .ok y) : Tame 971 y := by
  obtain ⟨scale, power, isScale⟩ := tenPow_scale low high
  obtain ⟨found, powered, fixed⟩ := bind_ok.1 fixed
  cases power.symm.trans powered
  obtain ⟨whole, floored, fixed⟩ := bind_ok.1 fixed
  unfold Rounding.unscale at fixed
  split at fixed
  · cases fixed
  · cases fixed
    exact tame_div (tame_copySign (floor_tame floored) x) isScale

def biased (x : Float) : BitVec Format.binary64.exponentBits :=
  let bits : BitVec Format.binary64.numBits := x.toModel.toBits.toBitVec
  unpackExponent bits

theorem biased_toNat (x : Float) :
    x.toBits.toNat / Binary.hidden % 2048 = (biased x).toNat := by
  have hidden : Binary.hidden = 2 ^ 52 := rfl
  rw [hidden]
  simp [biased, unpackExponent, Nat.shiftRight_eq_div_pow]
  rfl

theorem tame_of_biased {x : Float} (finite : (biased x).toNat ≠ 2047) : Tame 971 x := by
  have size : (biased x).toNat < 2 ^ 11 := (biased x).isLt
  refine bounded_unpack inRange_max ?_
  change ((biased x).toNat : Int) ≤ _
  omega

theorem unpack_full {x : Float} (full : (biased x).toNat = 2047) :
    (∃ sign, x.toModel.unpack = .infinity sign) ∨ x.toModel.unpack = .notANumber := by
  have ones : biased x = -1#11 := BitVec.eq_of_toNat_eq full
  unfold Float.Model.unpack unpack
  dsimp only
  change (∃ sign, (if biased x = -1#11 then _ else _) = _) ∨
    (if biased x = -1#11 then _ else _) = _
  rw [if_pos ones]
  split
  · exact .inl ⟨_, rfl⟩
  · exact .inr rfl

theorem biased_of_tame {x : Float} (tame : Tame 971 x) : (biased x).toNat ≠ 2047 := by
  intro full
  unfold Tame at tame
  rcases unpack_full full with ⟨sign, unpacked⟩ | unpacked <;> rw [unpacked] at tame <;> cases tame

theorem finite_of_tame {x : Float} (tame : Tame 971 x) : Scalar.Finite x := by
  have full := biased_of_tame tame
  rw [← biased_toNat] at full
  have binary : ∃ negative m e, Binary.ofFloat x = .finite negative m e := by
    unfold Binary.ofFloat
    dsimp only
    rw [if_neg full]
    split <;> exact ⟨_, _, _, rfl⟩
  obtain ⟨negative, m, e, binary⟩ := binary
  change ∃ d, Shortest.ofBinary (Binary.ofFloat x) = .finite d
  rw [binary]
  unfold Shortest.ofBinary
  dsimp only
  split <;> exact ⟨_, rfl⟩

theorem tame_of_eq {x y : Float} (tame : Tame 971 x) (same : (x == y) = true) : Tame 971 y := by
  apply tame_of_biased
  intro full
  change UnpackedFloat.beq x.toModel.unpack y.toModel.unpack = true at same
  unfold Tame at tame
  rcases unpack_full full with ⟨sign, unpacked⟩ | unpacked
  · rw [unpacked] at same
    cases left : x.toModel.unpack with
    | infinity | notANumber =>
      rw [left] at tame
      cases tame
    | zero | finite =>
      rw [left] at same
      cases sign <;> cases same
  · rw [unpacked] at same
    cases left : x.toModel.unpack <;> rw [left] at same <;> cases same

theorem round_tame {x y : Float} (rounded : Rounding.round precision error x = .ok y) :
    Tame 971 y := by
  unfold Rounding.round at rounded
  split at rounded
  · rename_i few
    obtain ⟨fixed, fixes, rounded⟩ := bind_ok.1 rounded
    have tame := toFixed_tame (by omega) (by omega) fixes
    split at rounded
    · rename_i same
      cases rounded
      exact tame_of_eq tame same
    · obtain ⟨shorter, shortens, rounded⟩ := bind_ok.1 rounded
      obtain ⟨off, _, rounded⟩ := bind_ok.1 rounded
      cases rounded
      split
      · exact tame
      · exact toFixed_tame (by omega) (by omega) shortens
  · exact toFixed_tame (by omega) (by omega) rounded

theorem round_finite {x y : Float} (rounded : Rounding.round precision error x = .ok y) :
    Scalar.Finite y :=
  finite_of_tame (round_tame rounded)

end Double
end PathData
