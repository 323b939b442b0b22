import SurfaceFeed.Proofs.Rounding

/-!
# Distances to floats

## No float is nearer

A finite float stands for a rational number with at most 53 significant bits.
Above the power of two below an integer all of these are multiples of one step,
the last place of the integer, and the rounded integer is a nearest multiple.
Every other float lies below the power of two, which is a multiple itself.
-/

namespace SurfaceFeed
namespace Rounding

open Float.Model Float.Model.UnpackedFloat

/-! ## What a float stands for -/

/-- The rational number that an unpacked float stands for, if it is finite. -/
def value? : UnpackedFloat -> Option ℚ
  | .zero _ => some 0
  | .finite s m e _ => some ((s.apply m : Int) * 2 ^ e)
  | .infinity _ | .notANumber => none

def rational? (f : Float) : Option ℚ :=
  value? f.toModel.unpack

theorem isSome_value?_unpack (b : BitVec 64) :
    (value? (UnpackedFloat.unpack Format.binary64 b)).isSome = true ↔
      b.toNat / Decimal.Binary.leastFullMantissa % 2048 ≠ 2047 := by
  have hexponent : (@unpackExponent Format.binary64 b).toNat =
      b.toNat / Decimal.Binary.leastFullMantissa % 2048 := by
    rw [unpackExponent_def, BitVec.extractLsb'_toNat, Nat.shiftRight_eq_div_pow]
    rfl
  have hlargest : @unpackExponent Format.binary64 b = -(BitVec.ofNat 11 1) ↔
      b.toNat / Decimal.Binary.leastFullMantissa % 2048 = 2047 := by
    rw [← BitVec.toNat_inj, hexponent]
    rfl
  rw [ne_eq, ← hlargest]
  unfold UnpackedFloat.unpack
  dsimp only
  split
  · next hfull =>
      refine iff_of_false ?_ (not_not_intro hfull)
      split <;> exact Bool.false_ne_true
  · next hfull =>
      refine iff_of_true ?_ hfull
      split
      · split <;> rfl
      · rfl

theorem isFinite_iff_exponent (f : Float) :
    Decimal.isFinite f = true ↔
      f.toBits.toNat / Decimal.Binary.leastFullMantissa % 2048 ≠ 2047 := by
  constructor
  · intro h hexponent
    unfold Decimal.isFinite Decimal.kind at h
    rw [if_pos hexponent] at h
    split_ifs at h
  · exact Decimal.isFinite_of_exponent_ne

theorem isFinite_eq_isSome (f : Float) : Decimal.isFinite f = (rational? f).isSome := by
  rw [Bool.eq_iff_iff, isFinite_iff_exponent]
  exact (isSome_value?_unpack f.toBits.toBitVec).symm

def Short (v : ℚ) : Prop :=
  exists m e : Int, m.natAbs < 2 ^ 53 ∧ v = m * 2 ^ e

theorem mantissa_lt {b : BitVec 64} {s : Sign} {m : Nat} {e : Int} {hm : 0 < m}
    (h : UnpackedFloat.unpack Format.binary64 b = .finite s m e hm) : m < 2 ^ 53 := by
  unfold UnpackedFloat.unpack at h
  dsimp only at h
  split at h
  · split at h <;> cases h
  · split at h
    · split at h
      · cases h
      · cases h
        exact Nat.lt_trans (BitVec.isLt _) (by decide)
    · cases h
      exact BitVec.isLt _

theorem short_of_rational? {f : Float} {v : ℚ} (h : rational? f = some v) : Short v := by
  unfold rational? at h
  cases hunpack : f.toModel.unpack with
  | zero s =>
      rw [hunpack] at h
      cases h
      exact ⟨0, 0, by decide, by simp⟩
  | finite s m e hm =>
      rw [hunpack] at h
      cases h
      have hlt : m < 2 ^ 53 := mantissa_lt hunpack
      refine ⟨s.apply m, e, ?_, rfl⟩
      cases s with
      | positive => exact hlt
      | negative =>
          show (-(m : Int)).natAbs < 2 ^ 53
          rw [Int.natAbs_neg]
          exact hlt
  | infinity s =>
      rw [hunpack] at h
      cases h
  | notANumber =>
      rw [hunpack] at h
      cases h

theorem value_of_scaled {m n : Nat} {e : Int} (hmin : -52 ≤ e)
    (h : m * 2 ^ (e + 52).toNat = n * 2 ^ 52) : (m : ℚ) * 2 ^ e = n := by
  have hscaled : (m : ℚ) * 2 ^ (e + 52).toNat = n * 2 ^ 52 := by exact_mod_cast h
  have hpower : (2 : ℚ) ^ (e + 52).toNat = 2 ^ e * 2 ^ 52 := by
    rw [← zpow_natCast, Int.toNat_of_nonneg (by omega), zpow_add₀ two_ne_zero]
    rfl
  rw [hpower, ← mul_assoc] at hscaled
  exact mul_right_cancel₀ (by norm_num) hscaled

theorem Stands.value? {u : UnpackedFloat} {n : Int} (h : Stands u n) :
    Rounding.value? u = some (n : ℚ) := by
  cases h with
  | zero s =>
      rw [Int.cast_zero]
      rfl
  | @finite s m n e hm hlow hhigh hmin hmax hvalue =>
      have hnat := value_of_scaled hmin hvalue
      cases s with
      | positive =>
          show some (((m : Int) : ℚ) * 2 ^ e) = some ((n : Int) : ℚ)
          rw [Int.cast_natCast, Int.cast_natCast, hnat]
      | negative =>
          show some (((-m : Int) : ℚ) * 2 ^ e) = some ((-n : Int) : ℚ)
          rw [Int.cast_neg, Int.cast_neg, Int.cast_natCast, Int.cast_natCast, neg_mul, hnat]

/-! ## Steps -/

theorem quotient_cases (n bits : Nat) :
    (quotient n bits = n / 2 ^ bits ∧ 2 * (n % 2 ^ bits) ≤ 2 ^ bits) ∨
      (quotient n bits = n / 2 ^ bits + 1 ∧ 2 ^ bits ≤ 2 * (n % 2 ^ bits)) := by
  unfold quotient
  split
  · omega
  · split
    · rcases Nat.mod_two_eq_zero_or_one (n / 2 ^ bits) with heven | hodd
      · rw [heven]
        omega
      · rw [hodd]
        omega
    · omega

/-- Rounding moves an integer by half a step at most. -/
theorem quotient_error (n bits : Nat) :
    2 * |(quotient n bits : Int) * 2 ^ bits - n| ≤ 2 ^ bits := by
  have hsplit : (n : Int) = 2 ^ bits * (n / 2 ^ bits : Nat) + (n % 2 ^ bits : Nat) := by
    exact_mod_cast (Nat.div_add_mod n (2 ^ bits)).symm
  rcases quotient_cases n bits with ⟨hquotient, hrest⟩ | ⟨hquotient, hrest⟩
  · have hrest' : 2 * ((n % 2 ^ bits : Nat) : Int) ≤ 2 ^ bits := by exact_mod_cast hrest
    have hdown : (quotient n bits : Int) * 2 ^ bits - n = -(n % 2 ^ bits : Nat) := by
      rw [hquotient]
      linarith
    rw [hdown, abs_neg, Nat.abs_cast]
    exact hrest'
  · have hrest' : (2 ^ bits : Int) ≤ 2 * ((n % 2 ^ bits : Nat) : Int) := by exact_mod_cast hrest
    have hsmall : ((n % 2 ^ bits : Nat) : Int) < 2 ^ bits := by
      exact_mod_cast Nat.mod_lt n (Nat.two_pow_pos bits)
    have hup : (quotient n bits : Int) * 2 ^ bits - n = 2 ^ bits - (n % 2 ^ bits : Nat) := by
      rw [hquotient]
      push_cast at hsplit ⊢
      linarith
    rw [hup, abs_of_pos (sub_pos.2 hsmall)]
    linarith

theorem nearest_error (n : Nat) : 2 * |(nearest n : Int) - n| ≤ 2 ^ excess n := by
  have herror := quotient_error n (excess n)
  unfold nearest
  exact_mod_cast herror

/-- No multiple of the step is nearer than the rounded integer. -/
theorem nearest_le_multiple (n : Nat) (k : Int) :
    |(nearest n : Int) - n| ≤ |k * 2 ^ excess n - n| := by
  have herror := nearest_error n
  have hnearest : (nearest n : Int) = quotient n (excess n) * 2 ^ excess n := by
    exact_mod_cast rfl
  by_cases hk : k = quotient n (excess n)
  · rw [hnearest, hk]
  · have hapart : 2 ^ excess n ≤ |k * 2 ^ excess n - nearest n| := by
      rw [hnearest, ← sub_mul, abs_mul, abs_of_pos (by positivity : (0 : Int) < 2 ^ excess n)]
      have hone : 1 ≤ |k - quotient n (excess n)| := Int.one_le_abs (sub_ne_zero.2 hk)
      exact le_mul_of_one_le_left (by positivity) hone
    have htriangle := abs_sub_le (k * 2 ^ excess n) (n : Int) (nearest n)
    rw [abs_sub_comm (n : Int)] at htriangle
    omega

theorem scaled_lt {m e : Int} {bits : Nat} (hm : m < 2 ^ 53) (he : e < bits) :
    (m : ℚ) * 2 ^ e < 2 ^ (52 + bits) := by
  have hmantissa : (m : ℚ) < 2 ^ 53 := by exact_mod_cast hm
  have hpower : (2 : ℚ) ^ (e + 1) ≤ 2 ^ (bits : Int) :=
    zpow_le_zpow_right₀ (by norm_num) (by omega)
  have hstep : (2 : ℚ) ^ e * 2 ≤ 2 ^ bits := by
    rwa [zpow_add_one₀ two_ne_zero, zpow_natCast] at hpower
  have hpos : (0 : ℚ) < 2 ^ e := by positivity
  calc (m : ℚ) * 2 ^ e < 2 ^ 53 * 2 ^ e := mul_lt_mul_of_pos_right hmantissa hpos
    _ = 2 ^ 52 * (2 ^ e * 2) := by ring
    _ ≤ 2 ^ 52 * 2 ^ bits := mul_le_mul_of_nonneg_left hstep (by positivity)
    _ = 2 ^ (52 + bits) := (pow_add 2 52 bits).symm

theorem Short.exists_multiple {v : ℚ} {bits : Nat} (h : Short v) (hlarge : 2 ^ (52 + bits) ≤ v) :
    exists k : Int, v = k * 2 ^ bits := by
  rcases h with ⟨m, e, hm, rfl⟩
  have hexponent : (bits : Int) ≤ e := by
    by_contra hlow
    exact absurd hlarge (not_le.2 (scaled_lt (by omega) (not_le.1 hlow)))
  refine ⟨m * 2 ^ (e - bits).toNat, ?_⟩
  have hsplit : (2 : ℚ) ^ e = 2 ^ (e - bits).toNat * 2 ^ bits := by
    rw [← zpow_natCast, ← zpow_natCast, ← zpow_add₀ two_ne_zero]
    congr 1
    omega
  rw [hsplit]
  push_cast
  ring

theorem nearest_le_short (n : Nat) {v : ℚ} (h : Short v) :
    |(nearest n : ℚ) - n| ≤ |v - n| := by
  rcases Nat.eq_zero_or_pos (excess n) with hzero | hexcess
  · rw [nearest_of_excess hzero, sub_self, abs_zero]
    exact abs_nonneg _
  · have hmultiple : forall k : Int, |(nearest n : ℚ) - n| ≤ |(k : ℚ) * 2 ^ excess n - n| := by
      intro k
      exact_mod_cast nearest_le_multiple n k
    rcases le_or_gt (2 ^ (52 + excess n)) v with hlarge | hsmall
    · rcases h.exists_multiple hlarge with ⟨k, rfl⟩
      exact hmultiple k
    · -- the power of two below the integer is a multiple that lies between the two
      have hpower : (2 : ℚ) ^ (52 + excess n) ≤ n := by exact_mod_cast two_pow_excess_le hexcess
      have hbelow := hmultiple (2 ^ 52)
      rw [Int.cast_pow, Int.cast_ofNat, ← pow_add] at hbelow
      calc |(nearest n : ℚ) - n| ≤ |2 ^ (52 + excess n) - (n : ℚ)| := hbelow
        _ = n - 2 ^ (52 + excess n) := by rw [abs_sub_comm, abs_of_nonneg (sub_nonneg.2 hpower)]
        _ ≤ n - v := sub_le_sub_left hsmall.le _
        _ ≤ |n - v| := le_abs_self _
        _ = |v - n| := abs_sub_comm _ _

/-! ## The nearest float -/

/-- The float is finite, and no finite float is nearer to the integer. -/
def IsNearest (f : Float) (n : Int) : Prop :=
  exists v, rational? f = some v ∧ forall g w, rational? g = some w -> |v - n| ≤ |w - n|

theorem IsNearest.isFinite {f : Float} {n : Int} (h : IsNearest f n) :
    Decimal.isFinite f = true := by
  rcases h with ⟨v, hvalue, _⟩
  rw [isFinite_eq_isSome, hvalue]
  rfl

theorem isNearest_ofNat {n : Nat} (h : n < 2 ^ 64) : IsNearest (Float.ofNat n) n := by
  refine ⟨nearest n, ?_, ?_⟩
  · exact (stands_ofNat h).value?
  · intro g w hg
    exact nearest_le_short n (short_of_rational? hg)

end Rounding
end SurfaceFeed
