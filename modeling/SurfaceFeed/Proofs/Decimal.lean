import Mathlib
import SurfaceFeed.Value.Basic

/-!
# Floats of large integers

## An integer of 64 bits is no infinite float

An integer that does not fit the integers of a value becomes a float.  Rounding
may drop bits of it and raises the exponent as far as it drops bits, which is
far below the exponent of an infinite float.

What is known of the bits of floats comes with the whole library only, so this
module imports all of it for the modules about floats.
-/

namespace SurfaceFeed
namespace Decimal

open Float.Model Float.Model.UnpackedFloat

/-! ## The exponent in the bits -/

theorem isFinite_of_exponent_ne {f : Float}
    (h : f.toBits.toNat / Binary.leastFullMantissa % 2048 ≠ 2047) : isFinite f = true := by
  unfold isFinite kind
  rw [if_neg h]
  by_cases hexponent : f.toBits.toNat / Binary.leastFullMantissa % 2048 = 0
  · rw [if_pos hexponent]
    by_cases hfraction : f.toBits.toNat % Binary.leastFullMantissa = 0
    · rw [if_pos hfraction]
    · rw [if_neg hfraction]
  · rw [if_neg hexponent]

theorem exponent_packComponents (s : Sign) (exponent : BitVec 11) (mantissa : BitVec 52) :
    (packComponents Format.binary64 s exponent mantissa).toNat / Binary.leastFullMantissa % 2048 =
      exponent.toNat := by
  have hbits : (unpackExponent (packComponents Format.binary64 s exponent mantissa)).toNat =
      exponent.toNat := by
    rw [unpackExponent_packComponents]
  rw [unpackExponent_def, BitVec.extractLsb'_toNat, Nat.shiftRight_eq_div_pow] at hbits
  exact hbits

/-- Zero, or a float whose exponent is far below the largest one. -/
inductive Moderate : UnpackedFloat -> Prop where
  | zero (s : Sign) : Moderate (.zero s)
  | finite (s : Sign) (m : Nat) (e : Int) (hm : 0 < m) (he : e < 900) :
      Moderate (.finite s m e hm)

theorem isFinite_pack {u : UnpackedFloat} (h : Moderate u) :
    isFinite (Float.ofModel (Float.Model.pack u)) = true := by
  apply isFinite_of_exponent_ne
  show (UnpackedFloat.pack Format.binary64 u).toNat / Binary.leastFullMantissa % 2048 ≠ 2047
  cases h with
  | zero s =>
      show (packComponents Format.binary64 s 0 0).toNat / Binary.leastFullMantissa % 2048 ≠ 2047
      rw [exponent_packComponents]
      decide
  | finite s m e hm he =>
      have hexponent : (e + (Format.exponentBias Format.binary64 : Int) +
          (Format.binary64.mantissaBitsWithoutImplicit : Int)).toNat < 2046 := by
        show (e + 1023 + 52).toNat < 2046
        omega
      rw [UnpackedFloat.pack]
      generalize (e + (Format.exponentBias Format.binary64 : Int) +
        (Format.binary64.mantissaBitsWithoutImplicit : Int)).toNat = exponent at hexponent ⊢
      have hfits : ¬ 2 ^ Format.binary64.exponentBits ≤ exponent + 1 := by
        show ¬ 2048 ≤ exponent + 1
        omega
      rw [if_neg hfits]
      split
      · rw [exponent_packComponents, BitVec.toNat_ofNat]
        omega
      · rw [exponent_packComponents]
        decide

/-! ## Rounding -/

theorem mantissa_shiftRight_le (em : ExtendedMantissa) (n : Nat) :
    (em >>> n).mantissa ≤ em.mantissa := by
  show (n.repeat ExtendedMantissa.shiftRightOne em).mantissa ≤ em.mantissa
  induction n with
  | zero => exact Nat.le_refl em.mantissa
  | succ n ih => exact Nat.le_trans (Nat.div_le_self _ 2) ih

theorem roundToNearestEven_le (m : Nat) (accuracy : Accuracy) :
    accuracy.roundToNearestEven m ≤ m + 1 := by
  cases accuracy with
  | exact => exact Nat.le_succ m
  | inexact order =>
      cases order with
      | lt => exact Nat.le_succ m
      | eq =>
          show m + m % 2 ≤ m + 1
          omega
      | gt => exact Nat.le_refl (m + 1)

theorem mantissa_ofMantissaAndAccuracy (m : Nat) (accuracy : Accuracy) :
    (ExtendedMantissa.ofMantissaAndAccuracy m accuracy).mantissa = m := by
  unfold ExtendedMantissa.ofMantissaAndAccuracy
  split <;> rfl

theorem targetExponent_binary64 (total : Int) :
    Format.binary64.targetExponent total = max (total - 53) (-1074) := by
  unfold Format.targetExponent
  rfl

/-- The shift drops bits, and raises the exponent no further than their number asks for. -/
theorem shiftToTargetExponent_le {m bits : Nat} (e : Int) (accuracy : Accuracy)
    (hm : m < 2 ^ bits) :
    (shiftToTargetExponent Format.binary64 m e accuracy).1.mantissa ≤ m ∧
      (shiftToTargetExponent Format.binary64 m e accuracy).2 ≤
        max e (max (bits + e - 52) (-1074)) := by
  have hlog : m.log2 ≤ bits := by
    by_cases hzero : m = 0
    · rw [hzero]
      exact Nat.zero_le bits
    · exact Nat.le_of_lt ((Nat.log2_lt hzero).2 hm)
  constructor
  · apply Nat.le_trans (mantissa_shiftRight_le _ _)
    rw [mantissa_ofMantissaAndAccuracy]
  · show e + ((Format.binary64.targetExponent (totalExponent m e) - e).toNat : Int) ≤ _
    rw [targetExponent_binary64]
    unfold totalExponent
    omega

theorem moderate_roundWithAccuracy (s : Sign) {m : Nat} {e : Int} (accuracy : Accuracy)
    (hm : m < 2 ^ 200) (he : e ≤ 200) :
    Moderate (roundWithAccuracy Format.binary64 s m e accuracy) := by
  rcases shiftToTargetExponent_le e accuracy hm with ⟨hmantissa, hexponent⟩
  unfold roundWithAccuracy
  generalize shiftToTargetExponent Format.binary64 m e accuracy = first at hmantissa hexponent ⊢
  have hrounded : first.1.roundedMantissa < 2 ^ 201 := by
    have hle : first.1.roundedMantissa ≤ first.1.mantissa + 1 :=
      roundToNearestEven_le first.1.mantissa first.1.accuracy
    omega
  have hsecond := (shiftToTargetExponent_le first.2 .exact hrounded).2
  show Moderate (if h : (shiftToTargetExponent Format.binary64 first.1.roundedMantissa first.2
      .exact).1.mantissa = 0 then .zero s else .finite s _ _ (Nat.pos_of_ne_zero h))
  split
  · exact .zero s
  · apply Moderate.finite
    show (shiftToTargetExponent Format.binary64 first.1.roundedMantissa first.2 .exact).2 < 900
    omega

/-! ## Integers -/

theorem ofNat_eq_ofModel {n : Nat} (h : 2 ^ 53 ≤ n) :
    Float.ofNat n = Float.ofModel (Float.Model.ofScientific n 0) := by
  have hslow : ¬ (n < 2 ^ 53 ∧ 0 ≤ 22) := by
    intro hfast
    exact Nat.not_lt.2 h hfast.1
  show Float.ofScientific n false 0 = _
  unfold Float.ofScientific
  rw [dif_neg hslow]
  rfl

theorem moderate_ofScientific {n : Nat} (h : n < 2 ^ 64) :
    Moderate (UnpackedFloat.ofScientific Format.binary64 n 0) := by
  have hlarge : ¬ (0 : Int) > 2 ^ Format.binary64.exponentBits := by decide
  have htiny : ¬ (0 : Int) < -((2 ^ Format.binary64.exponentBits : Int) + n.log2) := by
    show ¬ (0 : Int) < -(2048 + (n.log2 : Int))
    omega
  have hshifted : n <<< Format.binary64.mantissaBits < 2 ^ 200 := by
    rw [Nat.shiftLeft_eq, show Format.binary64.mantissaBits = 53 from rfl]
    omega
  unfold UnpackedFloat.ofScientific
  by_cases hzero : n = 0
  · rw [dif_pos hzero]
    exact .zero .positive
  · rw [dif_neg hzero, if_neg hlarge, if_neg htiny, if_pos (Int.le_refl 0), UnpackedFloat.mul]
    apply moderate_roundWithAccuracy
    · rw [Int.toNat_zero, Nat.pow_zero, Nat.mul_one]
      exact hshifted
    · decide

theorem isFinite_ofInt {n : Int} (hlarge : 2 ^ 63 ≤ n) (hsmall : n < 2 ^ 64) :
    isFinite (Float.ofInt n) = true := by
  cases n with
  | negSucc n => omega
  | ofNat n =>
      have hn : 2 ^ 53 ≤ n := by
        have hcast : (2 ^ 63 : Int) ≤ (n : Int) := hlarge
        omega
      have hbound : n < 2 ^ 64 := by
        have hcast : (n : Int) < (2 ^ 64 : Int) := hsmall
        omega
      show isFinite (Float.ofNat n) = true
      rw [ofNat_eq_ofModel hn]
      exact isFinite_pack (moderate_ofScientific hbound)

theorem beq_self_of_isFinite {f : Float} (h : isFinite f = true) : (f == f) = true := by
  rw [Float.beq_self_iff]
  intro hnan
  rw [hnan] at h
  cases h

end Decimal
end SurfaceFeed
