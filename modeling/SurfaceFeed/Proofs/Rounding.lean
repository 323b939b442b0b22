import SurfaceFeed.Proofs.Decimal

/-!
# Integers among floats

## The nearest float

A float has 53 significant bits.  An integer with more is rounded to the nearest
one that has as many, and a half to the even one.  Rounding keeps the order, but
not strictly.
-/

namespace SurfaceFeed
namespace Rounding

/-- The quotient by a power of two, rounded to the nearest integer, and a half to the even one. -/
def quotient (n bits : Nat) : Nat :=
  if 2 * (n % 2 ^ bits) < 2 ^ bits then n / 2 ^ bits
  else if 2 * (n % 2 ^ bits) = 2 ^ bits then n / 2 ^ bits + n / 2 ^ bits % 2
  else n / 2 ^ bits + 1

def excess (n : Nat) : Nat :=
  n.log2 + 1 - 53

def nearest (n : Nat) : Nat :=
  quotient n (excess n) * 2 ^ excess n

def nearestInt : Int -> Int
  | .ofNat n => nearest n
  | .negSucc n => -(nearest (n + 1) : Int)

/-! ## Quotients -/

@[simp] theorem quotient_zero (n : Nat) : quotient n 0 = n := by
  simp [quotient, Nat.mod_one]

theorem quotient_mul (n bits zeros : Nat) :
    quotient (n * 2 ^ zeros) (bits + zeros) = quotient n bits := by
  have hzeros : 0 < 2 ^ zeros := Nat.two_pow_pos zeros
  have hdouble : 2 * (n % 2 ^ bits * 2 ^ zeros) = 2 * (n % 2 ^ bits) * 2 ^ zeros :=
    (Nat.mul_assoc _ _ _).symm
  unfold quotient
  rw [Nat.pow_add, Nat.mul_mod_mul_right, Nat.mul_div_mul_right _ _ hzeros, hdouble]
  simp only [Nat.mul_lt_mul_right hzeros, Nat.mul_left_inj hzeros.ne']

theorem quotient_mul_of_le {n bits zeros : Nat} (h : bits ≤ zeros) :
    quotient (n * 2 ^ zeros) bits = n * 2 ^ (zeros - bits) := by
  have hsplit : n * 2 ^ zeros = n * 2 ^ (zeros - bits) * 2 ^ bits := by
    rw [Nat.mul_assoc, ← Nat.pow_add, Nat.sub_add_cancel h]
  have hquotient := quotient_mul (n * 2 ^ (zeros - bits)) 0 bits
  rw [Nat.zero_add, quotient_zero] at hquotient
  rw [hsplit, hquotient]

theorem le_quotient (n bits : Nat) : n / 2 ^ bits ≤ quotient n bits := by
  unfold quotient
  split
  · exact Nat.le_refl _
  · split
    · exact Nat.le_add_right _ _
    · exact Nat.le_succ _

theorem quotient_le (n bits : Nat) : quotient n bits ≤ n / 2 ^ bits + 1 := by
  unfold quotient
  split
  · exact Nat.le_succ _
  · split
    · omega
    · exact Nat.le_refl _

theorem quotient_mono {m n : Nat} (h : m ≤ n) (bits : Nat) : quotient m bits ≤ quotient n bits := by
  rcases Nat.lt_or_ge (m / 2 ^ bits) (n / 2 ^ bits) with hlt | hge
  · exact (quotient_le m bits).trans (Nat.le_trans hlt (le_quotient n bits))
  · have hsame : m / 2 ^ bits = n / 2 ^ bits :=
      Nat.le_antisymm (Nat.div_le_div_right h) hge
    have hrest : m % 2 ^ bits ≤ n % 2 ^ bits := by
      have hm := Nat.div_add_mod m (2 ^ bits)
      have hn := Nat.div_add_mod n (2 ^ bits)
      rw [hsame] at hm
      omega
    by_cases hdown : 2 * (m % 2 ^ bits) < 2 ^ bits
    · have hm : quotient m bits = m / 2 ^ bits := if_pos hdown
      rw [hm, hsame]
      exact le_quotient n bits
    · have hup : ¬ 2 * (n % 2 ^ bits) < 2 ^ bits := by omega
      unfold quotient
      rw [hsame, if_neg hdown, if_neg hup]
      -- a half goes where the same half goes, and what is more than a half goes up
      split <;> split <;> omega

theorem quotient_le_of_lt {n bits : Nat} (h : n < 2 ^ (53 + bits)) : quotient n bits ≤ 2 ^ 53 := by
  apply Nat.le_trans (quotient_le n bits)
  apply Nat.succ_le_of_lt
  rw [Nat.div_lt_iff_lt_mul (Nat.two_pow_pos bits), ← Nat.pow_add]
  exact h

theorem le_quotient_of_le {n bits : Nat} (h : 2 ^ (52 + bits) ≤ n) : 2 ^ 52 ≤ quotient n bits := by
  apply Nat.le_trans _ (le_quotient n bits)
  rw [Nat.le_div_iff_mul_le (Nat.two_pow_pos bits), ← Nat.pow_add]
  exact h

/-! ## Nearest integers -/

theorem lt_two_pow_excess (n : Nat) : n < 2 ^ (53 + excess n) := by
  apply Nat.lt_of_lt_of_le Nat.lt_log2_self
  apply Nat.pow_le_pow_right (by decide)
  unfold excess
  omega

theorem two_pow_excess_le {n : Nat} (h : 0 < excess n) : 2 ^ (52 + excess n) ≤ n := by
  have hzero : n ≠ 0 := by
    intro hzero
    rw [hzero] at h
    exact absurd h (by decide)
  apply (Nat.le_log2 hzero).1
  unfold excess at h ⊢
  omega

theorem excess_mono {m n : Nat} (h : m ≤ n) : excess m ≤ excess n := by
  by_cases hzero : m = 0
  · rw [hzero]
    exact Nat.zero_le _
  · have hlog : m.log2 ≤ n.log2 := by
      rw [Nat.le_log2 (by omega)]
      exact Nat.le_trans (Nat.log2_self_le hzero) h
    unfold excess
    omega

theorem excess_of_lt {n : Nat} (h : n < 2 ^ 53) : excess n = 0 := by
  apply Nat.eq_zero_of_not_pos
  intro hpos
  have hlow := two_pow_excess_le hpos
  have hpow : 2 ^ 53 ≤ 2 ^ (52 + excess n) := Nat.pow_le_pow_right (by decide) (by omega)
  omega

theorem nearest_of_excess {n : Nat} (h : excess n = 0) : nearest n = n := by
  rw [nearest, h, quotient_zero, Nat.pow_zero, Nat.mul_one]

theorem nearest_of_lt {n : Nat} (h : n < 2 ^ 53) : nearest n = n :=
  nearest_of_excess (excess_of_lt h)

theorem log2_mul_two_pow {n : Nat} (h : n ≠ 0) (k : Nat) : (n * 2 ^ k).log2 = n.log2 + k := by
  have hpos : n * 2 ^ k ≠ 0 := Nat.mul_ne_zero h (Nat.two_pow_pos k).ne'
  rw [Nat.log2_eq_iff hpos, Nat.add_right_comm, Nat.pow_add, Nat.pow_add]
  constructor
  · exact Nat.mul_le_mul_right _ (Nat.log2_self_le h)
  · exact (Nat.mul_lt_mul_right (Nat.two_pow_pos k)).2 Nat.lt_log2_self

theorem quotient_of_zeros {n k : Nat} (hk : 53 ≤ n.log2 + 1 + k) :
    quotient (n * 2 ^ k) (n.log2 + 1 + k - 53) * 2 ^ n.log2 = nearest n * 2 ^ 52 := by
  rcases Nat.eq_zero_or_pos (excess n) with hzero | hexcess
  · have hfits : n.log2 + 1 ≤ 53 := by
      unfold excess at hzero
      omega
    have hzeros : k - (n.log2 + 1 + k - 53) + n.log2 = 52 := by omega
    rw [nearest_of_excess hzero, quotient_mul_of_le (by omega), Nat.mul_assoc, ← Nat.pow_add,
      hzeros]
  · have hbits : n.log2 + 1 + k - 53 = excess n + k := by
      unfold excess at hexcess ⊢
      omega
    have hlength : n.log2 = excess n + 52 := by
      unfold excess at hexcess ⊢
      omega
    rw [hbits, quotient_mul, nearest, Nat.mul_assoc, ← Nat.pow_add, ← hlength]

theorem quotient_of_zeros_bounds {n k : Nat} (hpos : n ≠ 0) (hk : 53 ≤ n.log2 + 1 + k) :
    2 ^ 52 ≤ quotient (n * 2 ^ k) (n.log2 + 1 + k - 53) ∧
      quotient (n * 2 ^ k) (n.log2 + 1 + k - 53) ≤ 2 ^ 53 := by
  have hlow : 52 + (n.log2 + 1 + k - 53) = n.log2 + k := by omega
  have hhigh : 53 + (n.log2 + 1 + k - 53) = n.log2 + 1 + k := by omega
  constructor
  · apply le_quotient_of_le
    rw [hlow, Nat.pow_add]
    exact Nat.mul_le_mul_right _ (Nat.log2_self_le hpos)
  · apply quotient_le_of_lt
    rw [hhigh, Nat.pow_add]
    exact (Nat.mul_lt_mul_right (Nat.two_pow_pos k)).2 Nat.lt_log2_self

theorem nearest_mono {m n : Nat} (h : m ≤ n) : nearest m ≤ nearest n := by
  rcases Nat.lt_or_eq_of_le (excess_mono h) with hlt | heq
  · -- a power of two lies between the two, and is no further than either of them
    have hn : 0 < excess n := Nat.zero_lt_of_lt hlt
    calc nearest m ≤ 2 ^ 53 * 2 ^ excess m :=
          Nat.mul_le_mul_right _ (quotient_le_of_lt (lt_two_pow_excess m))
      _ = 2 ^ (53 + excess m) := (Nat.pow_add 2 53 _).symm
      _ ≤ 2 ^ (52 + excess n) := Nat.pow_le_pow_right (by decide) (by omega)
      _ = 2 ^ 52 * 2 ^ excess n := Nat.pow_add 2 52 _
      _ ≤ nearest n := Nat.mul_le_mul_right _ (le_quotient_of_le (two_pow_excess_le hn))
  · rw [nearest, nearest, heq]
    exact Nat.mul_le_mul_right _ (quotient_mono h _)

theorem nearestInt_mono {m n : Int} (h : m ≤ n) : nearestInt m ≤ nearestInt n := by
  cases m with
  | ofNat m =>
      cases n with
      | ofNat n => exact Int.ofNat_le.2 (nearest_mono (Int.ofNat_le.1 h))
      | negSucc n =>
          have hneg : Int.negSucc n < Int.ofNat m :=
            Int.lt_of_lt_of_le (Int.negSucc_lt_zero n) (Int.natCast_nonneg m)
          exact absurd h (Int.not_le.2 hneg)
  | negSucc m =>
      cases n with
      | ofNat n =>
          show -(nearest (m + 1) : Int) ≤ nearest n
          omega
      | negSucc n =>
          have hswap : n + 1 ≤ m + 1 := by omega
          have hnearest := nearest_mono hswap
          show -(nearest (m + 1) : Int) ≤ -(nearest (n + 1) : Int)
          omega

theorem nearestInt_of_natAbs_le {n : Int} (h : n.natAbs ≤ 2 ^ 53) : nearestInt n = n := by
  have hsmall : forall m : Nat, m ≤ 2 ^ 53 -> nearest m = m := by
    intro m hm
    rcases Nat.lt_or_eq_of_le hm with hlt | heq
    · exact nearest_of_lt hlt
    · rw [heq]
      decide
  cases n with
  | ofNat n =>
      show ((nearest n : Nat) : Int) = n
      rw [hsmall n h]
  | negSucc n =>
      show -(nearest (n + 1) : Int) = _
      rw [hsmall (n + 1) h]
      rfl

/-! ## Shifting with a rest -/

open Float.Model Float.Model.UnpackedFloat Decimal

/--
Bits that are dropped one by one leave two of them behind: the last one, and whether any bit
before it was set.
-/
theorem shiftRight_bits (n bits : Nat) :
    let shifted := ExtendedMantissa.mk n false false >>> bits
    shifted.mantissa = n / 2 ^ bits ∧
      (shifted.roundBit = true ↔ 2 ^ bits ≤ 2 * (n % 2 ^ bits)) ∧
      (shifted.stickyBit = true ↔ 2 * (n % 2 ^ bits) ≠ 0 ∧ 2 * (n % 2 ^ bits) ≠ 2 ^ bits) := by
  induction bits with
  | zero =>
      intro shifted
      refine ⟨(Nat.div_one n).symm, ?_, ?_⟩
      · simp [shifted, HShiftRight.hShiftRight, Nat.repeat, Nat.mod_one]
      · simp [shifted, HShiftRight.hShiftRight, Nat.repeat, Nat.mod_one]
  | succ bits ih =>
      rcases ih with ⟨hmantissa, hround, hsticky⟩
      intro shifted
      have hstep : shifted = (ExtendedMantissa.mk n false false >>> bits).shiftRightOne := rfl
      have hrest : n % 2 ^ (bits + 1) = n % 2 ^ bits + 2 ^ bits * (n / 2 ^ bits % 2) :=
        Nat.mod_pow_succ
      have hsmall : n % 2 ^ bits < 2 ^ bits := Nat.mod_lt n (Nat.two_pow_pos bits)
      have hquotient : n / 2 ^ (bits + 1) = n / 2 ^ bits / 2 := by
        rw [Nat.pow_succ, Nat.div_div_eq_div_mul]
      rw [hstep, hrest, hquotient, Nat.pow_succ]
      refine ⟨?_, ?_, ?_⟩
      · show (ExtendedMantissa.mk n false false >>> bits).mantissa / 2 = _
        rw [hmantissa]
      · show ((ExtendedMantissa.mk n false false >>> bits).mantissa % 2 != 0) = true ↔ _
        rw [hmantissa, bne_iff_ne]
        rcases Nat.mod_two_eq_zero_or_one (n / 2 ^ bits) with hbit | hbit <;> rw [hbit] <;> omega
      · show ((ExtendedMantissa.mk n false false >>> bits).roundBit ||
          (ExtendedMantissa.mk n false false >>> bits).stickyBit) = true ↔ _
        rw [Bool.or_eq_true, hround, hsticky]
        rcases Nat.mod_two_eq_zero_or_one (n / 2 ^ bits) with hbit | hbit <;> rw [hbit] <;> omega

theorem roundedMantissa_shiftRight (n bits : Nat) :
    (ExtendedMantissa.mk n false false >>> bits).roundedMantissa = quotient n bits := by
  rcases shiftRight_bits n bits with ⟨hmantissa, hround, hsticky⟩
  have hsmall : n % 2 ^ bits < 2 ^ bits := Nat.mod_lt n (Nat.two_pow_pos bits)
  generalize ExtendedMantissa.mk n false false >>> bits = shifted at *
  rcases shifted with ⟨m, roundBit, stickyBit⟩
  dsimp only at hmantissa hround hsticky
  unfold quotient
  rw [← hmantissa]
  cases roundBit with
  | false =>
      rw [if_pos (by simpa using hround)]
      cases stickyBit <;> rfl
  | true =>
      have hhalf : 2 ^ bits ≤ 2 * (n % 2 ^ bits) := hround.1 rfl
      rw [if_neg (Nat.not_lt.2 hhalf)]
      cases stickyBit with
      | false =>
          rw [if_pos (by simp at hsticky; omega)]
          rfl
      | true =>
          rw [if_neg (hsticky.1 rfl).2]
          rfl

/-! ## Floats that stand for an integer -/

/-- An unpacked float that stands for an integer: a zero, or one that has all its 53 bits. -/
inductive Stands : UnpackedFloat -> Int -> Prop where
  | zero (s : Sign) : Stands (.zero s) 0
  | finite (s : Sign) {m n : Nat} {e : Int} (hm : 0 < m) (hlow : 2 ^ 52 ≤ m) (hhigh : m < 2 ^ 53)
      (hmin : -52 ≤ e) (hmax : e ≤ 900) (hvalue : m * 2 ^ (e + 52).toNat = n * 2 ^ 52) :
      Stands (.finite s m e hm) (s.apply n)

theorem shiftToTargetExponent_eq {m : Nat} {e target : Int}
    (htarget : Format.binary64.targetExponent (totalExponent m e) = target) (hle : e ≤ target) :
    shiftToTargetExponent Format.binary64 m e .exact =
      (ExtendedMantissa.mk m false false >>> (target - e).toNat, target) := by
  have hexponent : e + ((target - e).toNat : Int) = target := by omega
  unfold shiftToTargetExponent shiftToExponent
  rw [htarget]
  dsimp only
  rw [hexponent]
  rfl

/-- Rounding may give one bit too many, which is dropped at last. -/
theorem stands_shifted (s : Sign) {m n : Nat} {e : Int} (hlow : 2 ^ 52 ≤ m) (hhigh : m ≤ 2 ^ 53)
    (hmin : -52 ≤ e) (hmax : e < 900) (hvalue : m * 2 ^ (e + 52).toNat = n * 2 ^ 52) :
    let last := shiftToTargetExponent Format.binary64 m e .exact
    Stands (if h : last.1.mantissa = 0 then .zero s
      else .finite s last.1.mantissa last.2 (Nat.pos_of_ne_zero h)) (s.apply n) := by
  intro last
  rcases Nat.lt_or_eq_of_le hhigh with hlt | heq
  · have hlog : m.log2 = 52 := (Nat.log2_eq_iff (by omega)).2 ⟨hlow, hlt⟩
    have htarget : Format.binary64.targetExponent (totalExponent m e) = e := by
      rw [targetExponent_binary64, totalExponent, hlog]
      omega
    have hlast : last = (ExtendedMantissa.mk m false false, e) := by
      have h := shiftToTargetExponent_eq htarget (Int.le_refl e)
      rw [Int.sub_self] at h
      exact h
    rw [hlast, dif_neg (by dsimp only; omega)]
    exact .finite s _ hlow hlt hmin (Int.le_of_lt hmax) hvalue
  · have hlog : m.log2 = 53 := by
      rw [heq]
      exact Nat.log2_two_pow
    have htarget : Format.binary64.targetExponent (totalExponent m e) = e + 1 := by
      rw [targetExponent_binary64, totalExponent, hlog]
      omega
    have hmantissa : last.1.mantissa = 2 ^ 52 := by
      have hshift : (e + 1 - e).toNat = 1 := by omega
      show (shiftToTargetExponent Format.binary64 m e .exact).1.mantissa = 2 ^ 52
      rw [shiftToTargetExponent_eq htarget (by omega), hshift, (shiftRight_bits m 1).1, heq]
      decide
    have hexponent : last.2 = e + 1 := by
      show (shiftToTargetExponent Format.binary64 m e .exact).2 = e + 1
      rw [shiftToTargetExponent_eq htarget (by omega)]
    have hpower : (e + 1 + 52).toNat = (e + 52).toNat + 1 := by omega
    rw [dif_neg (by rw [hmantissa]; decide)]
    apply Stands.finite
    · exact hmantissa.ge
    · rw [hmantissa]
      decide
    · omega
    · omega
    · calc last.1.mantissa * 2 ^ (last.2 + 52).toNat
          = 2 ^ 52 * 2 ^ ((e + 52).toNat + 1) := by rw [hmantissa, hexponent, hpower]
        _ = 2 ^ 53 * 2 ^ (e + 52).toNat := by ring
        _ = n * 2 ^ 52 := by rw [← heq, hvalue]

/-- With enough zeros behind it an integer is rounded to the nearest one, however many they are. -/
theorem stands_round (s : Sign) {n k : Nat} (hpos : n ≠ 0) (hsmall : n < 2 ^ 64)
    (hk : 53 ≤ n.log2 + 1 + k) :
    Stands (roundWithAccuracy Format.binary64 s (n * 2 ^ k) (-k) .exact) (s.apply (nearest n)) := by
  have hlog := log2_mul_two_pow hpos k
  have hlogSmall : n.log2 < 64 := (Nat.log2_lt hpos).2 hsmall
  have htarget : Format.binary64.targetExponent (totalExponent (n * 2 ^ k) (-k)) =
      (n.log2 : Int) + 1 - 53 := by
    rw [targetExponent_binary64, totalExponent, hlog]
    omega
  have hshift : ((n.log2 : Int) + 1 - 53 - -k).toNat = n.log2 + 1 + k - 53 := by omega
  have hfirst := shiftToTargetExponent_eq htarget (by omega)
  rw [hshift] at hfirst
  have hpower : ((n.log2 : Int) + 1 - 53 + 52).toNat = n.log2 := by omega
  have hvalue : quotient (n * 2 ^ k) (n.log2 + 1 + k - 53) *
      2 ^ ((n.log2 : Int) + 1 - 53 + 52).toNat = nearest n * 2 ^ 52 := by
    rw [hpower, quotient_of_zeros hk]
  rcases quotient_of_zeros_bounds hpos hk with ⟨hlow, hhigh⟩
  unfold roundWithAccuracy
  rw [hfirst]
  dsimp only
  rw [roundedMantissa_shiftRight]
  exact stands_shifted s hlow hhigh (by omega) (by omega) hvalue

/-! ## Packing -/

theorem toNat_implicit {m : Nat} (hlow : 2 ^ 52 ≤ m) (hhigh : m < 2 ^ 53) :
    (1#1 ++ BitVec.ofNat 52 m).toNat = m := by
  have hrest : m % 2 ^ 52 < 2 ^ 52 := Nat.mod_lt m (by decide)
  have hmantissa : (BitVec.ofNat 52 m).toNat = m % 2 ^ 52 := BitVec.toNat_ofNat m 52
  rw [BitVec.toNat_append, hmantissa, ← Nat.shiftLeft_add_eq_or_of_lt hrest, Nat.shiftLeft_eq]
  show 1 * 2 ^ 52 + m % 2 ^ 52 = m
  omega

theorem unpack_pack_finite (s : Sign) {m : Nat} {e : Int} (hm : 0 < m) (hlow : 2 ^ 52 ≤ m)
    (hhigh : m < 2 ^ 53) (hmin : -1074 ≤ e) (hmax : e ≤ 971) :
    UnpackedFloat.unpack Format.binary64
      (UnpackedFloat.pack Format.binary64 (.finite s m e hm)) = .finite s m e hm := by
  have hlog : m.log2 = 52 := (Nat.log2_eq_iff hm.ne').2 ⟨hlow, hhigh⟩
  have hfits : ¬ 2 ^ Format.binary64.exponentBits ≤
      (e + (Format.exponentBias Format.binary64 : Int) +
        (Format.binary64.mantissaBitsWithoutImplicit : Int)).toNat + 1 := by
    show ¬ 2048 ≤ (e + 1023 + 52).toNat + 1
    omega
  have hexponent : (BitVec.ofNat 11 (e + 1023 + 52).toNat).toNat = (e + 1023 + 52).toNat := by
    rw [BitVec.toNat_ofNat]
    omega
  have hspecial : BitVec.ofNat 11 (e + 1023 + 52).toNat ≠ -1#11 := by
    intro h
    have hbits : _ = 2047 := congrArg BitVec.toNat h
    rw [hexponent] at hbits
    omega
  have hnormal : BitVec.ofNat 11 (e + 1023 + 52).toNat ≠ 0#11 := by
    intro h
    have hbits : _ = 0 := congrArg BitVec.toNat h
    rw [hexponent] at hbits
    omega
  rw [UnpackedFloat.pack, if_neg hfits, hlog, if_pos (by rfl)]
  show UnpackedFloat.unpack Format.binary64 (packComponents Format.binary64 s
    (BitVec.ofNat 11 (e + 1023 + 52).toNat) (BitVec.ofNat 52 m)) = _
  unfold UnpackedFloat.unpack
  simp only [unpackMantissa_packComponents, unpackExponent_packComponents,
    unpackSign_packComponents, Sign.ofBitVec_toBitVec]
  rw [if_neg hspecial, if_neg hnormal, UnpackedFloat.finite.injEq]
  refine ⟨rfl, toNat_implicit hlow hhigh, ?_⟩
  rw [hexponent]
  show ((e + 1023 + 52).toNat : Int) - (1023 + 52) = e
  omega

theorem Stands.unpack_pack {u : UnpackedFloat} {n : Int} (h : Stands u n) :
    (Float.Model.pack u).unpack = u := by
  cases h with
  | zero s => exact unpack_packedZero
  | finite s hm hlow hhigh hmin hmax hvalue =>
      exact unpack_pack_finite s hm hlow hhigh (by omega) (by omega)

theorem Stands.neg {u : UnpackedFloat} {n : Int} (h : Stands u n) : Stands u.neg (-n) := by
  cases h with
  | zero s => exact .zero (-s)
  | finite s hm hlow hhigh hmin hmax hvalue =>
      have hneg := Stands.finite (-s) hm hlow hhigh hmin hmax hvalue
      cases s with
      | positive => exact hneg
      | negative =>
          show Stands _ (- -(_ : Int))
          rw [Int.neg_neg]
          exact hneg

/-! ## Integers as floats -/

theorem stands_word {n : Nat} (h : n < 2 ^ 64) :
    Stands (UnpackedFloat.ofNat Format.binary64 n) (nearest n) := by
  by_cases hzero : n = 0
  · rw [hzero]
    exact .zero .positive
  · have hround : UnpackedFloat.ofNat Format.binary64 n =
        UnpackedFloat.round Format.binary64 .positive n 0 := by
      have hsign : compare (n : Int) 0 = .gt := by
        rw [Int.compare_eq_gt]
        omega
      show UnpackedFloat.normalize Format.binary64 n 0 .positive = _
      rw [UnpackedFloat.normalize, hsign]
      rfl
    have hshift : (0 - Format.binary64.targetExponent (totalExponent n 0)).toNat =
        52 - n.log2 := by
      rw [targetExponent_binary64, totalExponent]
      omega
    have hstands := stands_round .positive (k := 52 - n.log2) hzero h (by omega)
    rw [hround]
    unfold UnpackedFloat.round decreaseExponent
    dsimp only
    rw [hshift, Nat.shiftLeft_eq, Int.zero_sub]
    exact hstands

theorem unpack_one : (Float.ofBits 0x3FF0000000000000).toModel.unpack =
    .finite .positive (2 ^ 52) (-52) (by decide) :=
  rfl

theorem stands_mul_one {u : UnpackedFloat} {v : Int} (h : Stands u v)
    (hsmall : v.natAbs < 2 ^ 53) (hone : 0 < 2 ^ 52) :
    Stands (UnpackedFloat.mul Format.binary64 u (.finite .positive (2 ^ 52) (-52) hone)) v := by
  cases h with
  | zero s => exact .zero (s * .positive)
  | @finite s m n e hm hlow hhigh hmin hmax hvalue =>
      have hsign : s * .positive = s := by cases s <;> rfl
      have hn : n < 2 ^ 53 := by
        cases s with
        | positive => exact hsmall
        | negative =>
            have habs : (-(n : Int)).natAbs < 2 ^ 53 := hsmall
            omega
      have hpos : n ≠ 0 := by
        intro hzero
        rw [hzero, Nat.zero_mul] at hvalue
        exact absurd hvalue (Nat.mul_pos hm (Nat.two_pow_pos _)).ne'
      have hpower : 2 ^ (e + 52).toNat * 2 ^ 52 ≤ n * 2 ^ 52 := by
        rw [← hvalue, Nat.mul_comm]
        exact Nat.mul_le_mul_right _ hlow
      have hexponent : (e + 52).toNat < 53 := by
        apply (Nat.pow_lt_pow_iff_right (by decide : 1 < 2)).1
        exact Nat.lt_of_le_of_lt (Nat.le_of_mul_le_mul_right hpower (by decide)) hn
      have hproduct : m * 2 ^ 52 = n * 2 ^ (52 - e).toNat := by
        calc m * 2 ^ 52 = m * 2 ^ (e + 52).toNat * 2 ^ (52 - (e + 52).toNat) := by
              rw [Nat.mul_assoc, ← Nat.pow_add, Nat.add_sub_cancel' (by omega)]
          _ = n * 2 ^ (52 - e).toNat := by
              rw [hvalue, Nat.mul_assoc, ← Nat.pow_add]
              congr 2
              omega
      have hlog : n.log2 + (52 - e).toNat = 52 + 52 := by
        rw [← log2_mul_two_pow hpos, ← hproduct, log2_mul_two_pow hm.ne',
          (Nat.log2_eq_iff hm.ne').2 ⟨hlow, hhigh⟩]
      have hstands := stands_round s (k := (52 - e).toNat) hpos (by omega) (by omega)
      rw [nearest_of_lt hn] at hstands
      show Stands
        (roundWithAccuracy Format.binary64 (s * .positive) (m * 2 ^ 52) (e + -52) .exact) _
      rw [hsign, hproduct, show e + -52 = -((52 - e).toNat : Int) by omega]
      exact hstands

theorem stands_small {n : Nat} (h : n < 2 ^ 53) :
    Stands (Float.ofNat n).toModel.unpack (nearest n) := by
  have hfast : Float.ofNat n = n.toUInt64.toFloat * Float.ofBits 0x3FF0000000000000 := by
    show Float.ofScientific n false 0 = _
    unfold Float.ofScientific
    rw [dif_pos ⟨h, by decide⟩]
    rfl
  have hword : n.toUInt64.toNat = n := UInt64.toNat_ofNat_of_lt' (Nat.lt_trans h (by decide))
  have hstands := stands_word (n := n) (by omega)
  rw [nearest_of_lt h] at hstands ⊢
  have hproduct := stands_mul_one hstands (by omega) (by decide)
  rw [hfast]
  show Stands (Float.Model.pack (UnpackedFloat.mul Format.binary64
    (Float.Model.pack (UnpackedFloat.ofNat Format.binary64 n.toUInt64.toNat)).unpack
    (Float.ofBits 0x3FF0000000000000).toModel.unpack)).unpack _
  rw [hword, hstands.unpack_pack, unpack_one, hproduct.unpack_pack]
  exact hproduct

theorem stands_ofScientific {n : Nat} (hlow : 2 ^ 53 ≤ n) (h : n < 2 ^ 64) :
    Stands (UnpackedFloat.ofScientific Format.binary64 n 0) (nearest n) := by
  have hzero : n ≠ 0 := by omega
  have hlarge : ¬ (0 : Int) > 2 ^ Format.binary64.exponentBits := by decide
  have htiny : ¬ (0 : Int) < -((2 ^ Format.binary64.exponentBits : Int) + n.log2) := by
    show ¬ (0 : Int) < -(2048 + (n.log2 : Int))
    omega
  have hround := stands_round .positive (k := 53) hzero h (by omega)
  unfold UnpackedFloat.ofScientific
  rw [dif_neg hzero, if_neg hlarge, if_neg htiny, if_pos (Int.le_refl 0), UnpackedFloat.mul,
    Int.toNat_zero, Nat.pow_zero, Nat.mul_one, Nat.shiftLeft_eq]
  exact hround

theorem stands_ofNat {n : Nat} (h : n < 2 ^ 64) :
    Stands (Float.ofNat n).toModel.unpack (nearest n) := by
  rcases Nat.lt_or_ge n (2 ^ 53) with hsmall | hlarge
  · exact stands_small hsmall
  · have hstands := stands_ofScientific hlarge h
    rw [ofNat_eq_ofModel hlarge]
    show Stands (Float.Model.pack (UnpackedFloat.ofScientific Format.binary64 n 0)).unpack _
    rw [hstands.unpack_pack]
    exact hstands

theorem stands_ofInt {n : Int} (h : n.natAbs < 2 ^ 64) :
    Stands (Float.ofInt n).toModel.unpack (nearestInt n) := by
  cases n with
  | ofNat n => exact stands_ofNat h
  | negSucc n =>
      have hnat : n + 1 < 2 ^ 64 := h
      have hneg := (stands_ofNat hnat).neg
      show Stands (Float.Model.pack (Float.ofNat (n + 1)).toModel.unpack.neg).unpack _
      rw [hneg.unpack_pack]
      exact hneg

/-! ## Comparing -/

section Finite

variable {m m' n n' : Nat} {e e' : Int}

theorem pos_of_value (hm : 0 < m) (hvalue : m * 2 ^ (e + 52).toNat = n * 2 ^ 52) : 0 < n := by
  apply Nat.pos_of_ne_zero
  intro hzero
  rw [hzero, Nat.zero_mul] at hvalue
  exact absurd hvalue (Nat.mul_pos hm (Nat.two_pow_pos _)).ne'

theorem lt_of_exponent_lt (hhigh : m < 2 ^ 53) (hlow : 2 ^ 52 ≤ m') (hmin : -52 ≤ e)
    (hvalue : m * 2 ^ (e + 52).toNat = n * 2 ^ 52)
    (hvalue' : m' * 2 ^ (e' + 52).toNat = n' * 2 ^ 52) (h : e < e') : n < n' := by
  have hexponent : (e + 52).toNat + 1 ≤ (e' + 52).toNat := by omega
  apply Nat.lt_of_mul_lt_mul_right (a := 2 ^ 52)
  calc n * 2 ^ 52 = m * 2 ^ (e + 52).toNat := hvalue.symm
    _ < 2 ^ 53 * 2 ^ (e + 52).toNat := (Nat.mul_lt_mul_right (Nat.two_pow_pos _)).2 hhigh
    _ = 2 ^ 52 * 2 ^ ((e + 52).toNat + 1) := by ring
    _ ≤ 2 ^ 52 * 2 ^ (e' + 52).toNat :=
        Nat.mul_le_mul_left _ (Nat.pow_le_pow_right (by decide) hexponent)
    _ ≤ m' * 2 ^ (e' + 52).toNat := Nat.mul_le_mul_right _ hlow
    _ = n' * 2 ^ 52 := hvalue'

theorem compare_finite (hlow : 2 ^ 52 ≤ m) (hhigh : m < 2 ^ 53) (hmin : -52 ≤ e)
    (hvalue : m * 2 ^ (e + 52).toNat = n * 2 ^ 52) (hlow' : 2 ^ 52 ≤ m') (hhigh' : m' < 2 ^ 53)
    (hmin' : -52 ≤ e') (hvalue' : m' * 2 ^ (e' + 52).toNat = n' * 2 ^ 52) :
    (compare e e').then (compare m m') = compare n n' := by
  rcases Int.lt_trichotomy e e' with hlt | rfl | hgt
  · have hn := lt_of_exponent_lt hhigh hlow' hmin hvalue hvalue' hlt
    rw [Int.compare_eq_lt.2 hlt, Nat.compare_eq_lt.2 hn]
    rfl
  · have hpow : 0 < 2 ^ (e + 52).toNat := Nat.two_pow_pos _
    have hlt : m < m' ↔ n < n' := by
      rw [← Nat.mul_lt_mul_right hpow, hvalue, hvalue', Nat.mul_lt_mul_right (by decide)]
    have hgt : m' < m ↔ n' < n := by
      rw [← Nat.mul_lt_mul_right hpow, hvalue, hvalue', Nat.mul_lt_mul_right (by decide)]
    rw [Int.compare_eq_eq.2 rfl]
    show compare m m' = compare n n'
    rw [Nat.compare_eq_ite_lt, Nat.compare_eq_ite_lt]
    simp only [hlt, hgt]
  · have hn := lt_of_exponent_lt hhigh' hlow hmin' hvalue' hvalue hgt
    rw [Int.compare_eq_gt.2 hgt, Nat.compare_eq_gt.2 hn]
    rfl

end Finite

theorem compare_natCast (a b : Nat) : compare (a : Int) b = compare a b := by
  rw [Int.compare_eq_ite_lt, Nat.compare_eq_ite_lt]
  simp only [Int.ofNat_lt]

theorem compare_neg (a b : Nat) : compare (-(a : Int)) (-b) = (compare a b).swap := by
  rw [Nat.compare_swap, ← compare_natCast, Int.compare_eq_ite_lt, Int.compare_eq_ite_lt]
  simp only [Int.neg_lt_neg_iff]

theorem positive_apply {n : Nat} (h : 0 < n) : (0 : Int) < Sign.positive.apply n :=
  Int.natCast_pos.2 h

theorem negative_apply {n : Nat} (h : 0 < n) : Sign.negative.apply n < (0 : Int) :=
  Int.neg_lt_zero_iff.2 (Int.natCast_pos.2 h)

/-- Two unpacked floats stand in the order of the integers that they stand for. -/
theorem Stands.compare {u w : UnpackedFloat} {a b : Int} (hu : Stands u a) (hw : Stands w b) :
    u.compare w = some (Ord.compare a b) := by
  cases hu with
  | zero s =>
      cases hw with
      | zero s' => rfl
      | finite s' hm' _ _ _ _ hvalue' =>
          have hpos' := pos_of_value hm' hvalue'
          cases s' with
          | positive => exact congrArg some (Int.compare_eq_lt.2 (positive_apply hpos')).symm
          | negative => exact congrArg some (Int.compare_eq_gt.2 (negative_apply hpos')).symm
  | finite s hm hlow hhigh hmin _ hvalue =>
      have hpos := pos_of_value hm hvalue
      cases hw with
      | zero s' =>
          cases s with
          | positive => exact congrArg some (Int.compare_eq_gt.2 (positive_apply hpos)).symm
          | negative => exact congrArg some (Int.compare_eq_lt.2 (negative_apply hpos)).symm
      | finite s' hm' hlow' hhigh' hmin' _ hvalue' =>
          have hpos' := pos_of_value hm' hvalue'
          have hfinite := compare_finite hlow hhigh hmin hvalue hlow' hhigh' hmin' hvalue'
          cases s with
          | positive =>
              cases s' with
              | positive => exact congrArg some (hfinite.trans (compare_natCast _ _).symm)
              | negative =>
                  have hgt := Int.lt_trans (negative_apply hpos') (positive_apply hpos)
                  exact congrArg some (Int.compare_eq_gt.2 hgt).symm
          | negative =>
              cases s' with
              | positive =>
                  have hlt := Int.lt_trans (negative_apply hpos) (positive_apply hpos')
                  exact congrArg some (Int.compare_eq_lt.2 hlt).symm
              | negative =>
                  have hswap := congrArg Ordering.swap hfinite
                  exact congrArg some (hswap.trans (compare_neg _ _).symm)

theorem lt_iff_compare (x y : Float) :
    x < y ↔ x.toModel.unpack.compare y.toModel.unpack = some .lt := by
  show decide (x.toModel.unpack.lt y.toModel.unpack = true) = true ↔ _
  rw [decide_eq_true_iff, UnpackedFloat.lt, beq_iff_eq]

theorem le_iff_compare (x y : Float) :
    x ≤ y ↔ (x.toModel.unpack.compare y.toModel.unpack).any Ordering.isLE = true := by
  show decide (x.toModel.unpack.le y.toModel.unpack = true) = true ↔ _
  rw [decide_eq_true_iff]
  rfl

theorem beq_iff_compare (x y : Float) :
    (x == y) = true ↔ x.toModel.unpack.compare y.toModel.unpack = some .eq := by
  show x.toModel.unpack.beq y.toModel.unpack = true ↔ _
  rw [UnpackedFloat.beq, beq_iff_eq]

section Integers

variable {a b : Int}

theorem compare_ofInt (ha : a.natAbs < 2 ^ 64) (hb : b.natAbs < 2 ^ 64) :
    (Float.ofInt a).toModel.unpack.compare (Float.ofInt b).toModel.unpack =
      some (compare (nearestInt a) (nearestInt b)) :=
  (stands_ofInt ha).compare (stands_ofInt hb)

theorem ofInt_lt_iff (ha : a.natAbs < 2 ^ 64) (hb : b.natAbs < 2 ^ 64) :
    Float.ofInt a < Float.ofInt b ↔ nearestInt a < nearestInt b := by
  rw [lt_iff_compare, compare_ofInt ha hb, Option.some.injEq, Int.compare_eq_lt]

theorem ofInt_le_iff (ha : a.natAbs < 2 ^ 64) (hb : b.natAbs < 2 ^ 64) :
    Float.ofInt a ≤ Float.ofInt b ↔ nearestInt a ≤ nearestInt b := by
  rw [le_iff_compare, compare_ofInt ha hb, Option.any_some, Int.isLE_compare]

theorem ofInt_beq_iff (ha : a.natAbs < 2 ^ 64) (hb : b.natAbs < 2 ^ 64) :
    (Float.ofInt a == Float.ofInt b) = true ↔ nearestInt a = nearestInt b := by
  rw [beq_iff_compare, compare_ofInt ha hb, Option.some.injEq, Int.compare_eq_eq]

end Integers

end Rounding
end SurfaceFeed
