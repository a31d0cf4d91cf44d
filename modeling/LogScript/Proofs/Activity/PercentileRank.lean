import Mathlib.Tactic.Ring
import LogScript.Activity

/-!
The rank of the 95% mark. It comes from a product of doubles: the nearest double to nineteen twentieths
is a little too small, the product is rounded to 53 digits, and its whole part is taken. Up to 2^49
samples, this is the whole part of the exact product: what the rounding moves is less than what could
keep the product below a whole number that it should reach, or bring it to one that it should not.
-/

namespace LogScript.Rounding

open Float.Model (Format totalExponent UnpackedFloat)
open Float.Model.UnpackedFloat

theorem log2_bounds {m n : Nat} (h : m.log2 = 52 + n) :
    2 ^ 52 * 2 ^ n ≤ m ∧ m < 2 ^ 53 * 2 ^ n := by
  have hne : m ≠ 0 := by
    rintro rfl
    rw [Nat.log2_zero] at h
    omega
  obtain ⟨hlower, hupper⟩ := (Nat.log2_eq_iff hne).1 h
  rw [Nat.pow_add] at hlower
  rw [Nat.add_right_comm, Nat.pow_add] at hupper
  exact ⟨hlower, hupper⟩

theorem log2_mul_two_pow {m : Nat} (hne : m ≠ 0) (n : Nat) : (m * 2 ^ n).log2 = m.log2 + n := by
  obtain ⟨hlower, hupper⟩ := (Nat.log2_eq_iff hne).1 rfl
  have hunit : 0 < 2 ^ n := Nat.two_pow_pos n
  refine (Nat.log2_eq_iff (Nat.mul_ne_zero hne (Nat.ne_of_gt hunit))).2 ⟨?_, ?_⟩
  · rw [Nat.pow_add]
    exact Nat.mul_le_mul_right _ hlower
  · rw [Nat.add_right_comm, Nat.pow_add]
    exact Nat.mul_lt_mul_of_pos_right hupper hunit

/-- The first of 53 digits is not stored. -/
theorem firstDigit_append {m : Nat} (hlog : m.log2 = 52) :
    (1#1 ++ BitVec.ofNat 52 m).toNat = m := by
  obtain ⟨hlower, hupper⟩ := log2_bounds (n := 0) hlog
  rw [BitVec.toNat_append, ← Nat.shiftLeft_add_eq_or_of_lt (BitVec.isLt _), BitVec.toNat_ofNat]
  change 2 ^ 52 + m % 2 ^ 52 = m
  omega

theorem finite_congr {sign sign' : Sign} {m m' : Nat} {e e' : Int} {hpos : 0 < m}
    (hsign : sign = sign') (hm : m = m') (he : e = e') :
    UnpackedFloat.finite sign m e hpos = .finite sign' m' e' (hm ▸ hpos) := by
  subst hsign hm he
  rfl

/-- A number with all of its digits is stored as these, with its exponent raised by 1075. -/
theorem pack_finite {m stored : Nat} (hpos : 0 < m) (hlog : m.log2 = 52) (hhigh : stored < 2046) :
    pack .binary64 (.finite .positive m (stored - 1075) hpos) =
      packComponents .binary64 .positive (BitVec.ofNat 11 stored) (BitVec.ofNat 52 m) := by
  have hbias : ((stored : Int) - 1075 + 1023 + 52).toNat = stored := by omega
  change (if 2 ^ 11 ≤ ((stored : Int) - 1075 + 1023 + 52).toNat + 1 then
      packedInfinity .binary64 .positive
    else if m.log2 + 1 = 53 then
      packComponents .binary64 .positive
        (BitVec.ofNat 11 ((stored : Int) - 1075 + 1023 + 52).toNat) (BitVec.ofNat 52 m)
    else packComponents .binary64 .positive 0#11 (BitVec.ofNat 52 m)) = _
  rw [hbias, if_neg (by omega), if_pos (by rw [hlog])]

theorem unpackSign_positive (exponent : BitVec 11) (mantissa : BitVec 52) :
    unpackSign (packComponents .binary64 .positive exponent mantissa) = 0#1 := by
  change ((0#1 ++ exponent) ++ mantissa).extractLsb' 63 1 = 0#1
  rw [BitVec.extractLsb'_append_eq_of_le (by decide), BitVec.extractLsb'_append_eq_of_le (by decide)]
  rfl

/-- The exponent that is read is none of the two that stand for numbers of another kind. -/
theorem unpack_packComponents {m stored : Nat} (hpos : 0 < m) (hlog : m.log2 = 52)
    (hlow : stored ≠ 0) (hhigh : stored < 2047) :
    unpack .binary64
      (packComponents .binary64 .positive (BitVec.ofNat 11 stored) (BitVec.ofNat 52 m)) =
        .finite .positive m (stored - 1075) hpos := by
  have hvalue : (BitVec.ofNat 11 stored).toNat = stored := by
    rw [BitVec.toNat_ofNat, Nat.mod_eq_of_lt (by omega)]
  have hread := @unpackExponent_packComponents .binary64 .positive (BitVec.ofNat 11 stored)
    (BitVec.ofNat 52 m)
  have hne (other : BitVec 11) (h : stored ≠ other.toNat) :
      unpackExponent (packComponents .binary64 .positive (BitVec.ofNat 11 stored)
        (BitVec.ofNat 52 m)) ≠ other := by
    intro heq
    rw [hread] at heq
    exact h (by rw [← heq, hvalue])
  refine (if_neg (hne (-1#11) (show stored ≠ 2047 by omega))).trans
    ((if_neg (hne 0#11 hlow)).trans (finite_congr ?_ ?_ ?_))
  · rw [unpackSign_positive]
    rfl
  · rw [unpackMantissa_packComponents]
    exact firstDigit_append hlog
  · rw [hread]
    exact congrArg (fun n : Nat => (n : Int) - 1075) hvalue

/-- A number with all of its 53 digits is read back as it was stored. -/
theorem unpack_pack {m : Nat} {e : Int} (hpos : 0 < m) (hlog : m.log2 = 52) (hlow : -1074 ≤ e)
    (hhigh : e ≤ 970) :
    unpack .binary64 (pack .binary64 (.finite .positive m e hpos)) = .finite .positive m e hpos := by
  obtain ⟨stored, rfl⟩ : ∃ stored : Nat, e = stored - 1075 := ⟨(e + 1075).toNat, by omega⟩
  rw [pack_finite hpos hlog (by omega)]
  exact unpack_packComponents hpos hlog (by omega) (by omega)

/-- A mantissa that came from a number by dropping digits, and what its two marks tell of them: the
first of them, and whether there is a one among the others. -/
def Shortened (em : ExtendedMantissa) (m dropped : Nat) : Prop :=
  ∃ rest < 2 ^ dropped, 2 * m = (2 * em.mantissa + em.roundBit.toNat) * 2 ^ dropped + rest ∧
    (em.stickyBit = false → rest = 0)

section Shortened

variable {em : ExtendedMantissa} {m dropped : Nat}

theorem Shortened.shiftRightOne (h : Shortened em m dropped) :
    Shortened em.shiftRightOne m (dropped + 1) := by
  obtain ⟨rest, hrest, hm, hsticky⟩ := h
  have hsplit : 2 * (em.mantissa / 2) + (em.mantissa % 2 != 0).toNat = em.mantissa := by
    rcases Nat.mod_two_eq_zero_or_one em.mantissa with hlast | hlast
    · rw [hlast, show (0 != 0).toNat = 0 from rfl]
      omega
    · rw [hlast, show (1 != 0).toNat = 1 from rfl]
      omega
  refine ⟨em.roundBit.toNat * 2 ^ dropped + rest, ?_, ?_, ?_⟩
  · have hproduct := Nat.mul_le_mul_right (2 ^ dropped) (Bool.toNat_le em.roundBit)
    rw [Nat.pow_succ]
    omega
  · rw [ExtendedMantissa.shiftRightOne, hsplit, hm]
    ring
  · intro hnone
    rw [ExtendedMantissa.shiftRightOne, Bool.or_eq_false_iff] at hnone
    rw [hnone.1, hsticky hnone.2]
    exact Nat.zero_mul _

theorem shortened_shiftRight (m dropped : Nat) :
    Shortened (ExtendedMantissa.ofMantissaAndAccuracy m .exact >>> dropped) m dropped := by
  induction dropped with
  | zero =>
    refine ⟨0, Nat.one_pos, ?_, fun _ => rfl⟩
    change 2 * m = (2 * m + 0) * 1 + 0
    omega
  | succ dropped ih => exact ih.shiftRightOne

theorem Shortened.mantissa_eq (h : Shortened em m dropped) : em.mantissa = m / 2 ^ dropped := by
  obtain ⟨rest, hrest, hm, -⟩ := h
  have hproduct := Nat.mul_le_mul_right (2 ^ dropped) (Bool.toNat_le em.roundBit)
  rw [Nat.add_mul, Nat.mul_assoc] at hm
  refine (Nat.div_eq_of_lt_le ?_ ?_).symm
  · omega
  · rw [Nat.succ_mul]
    omega

/-- Rounding moves a number by no more than half of the last digit that is left. -/
theorem Shortened.roundedMantissa_close (h : Shortened em m dropped) :
    2 * (em.roundedMantissa * 2 ^ dropped) ≤ 2 * m + 2 ^ dropped ∧
      2 * m ≤ 2 * (em.roundedMantissa * 2 ^ dropped) + 2 ^ dropped := by
  obtain ⟨rest, hrest, hm, hsticky⟩ := h
  obtain ⟨mantissa, roundBit, stickyBit⟩ := em
  have hnext : 2 * ((mantissa + 1) * 2 ^ dropped) = 2 * (mantissa * 2 ^ dropped) + 2 * 2 ^ dropped := by
    ring
  rw [show (2 * mantissa + roundBit.toNat) * 2 ^ dropped =
    2 * (mantissa * 2 ^ dropped) + roundBit.toNat * 2 ^ dropped by ring] at hm
  -- The number lies in the lower half between two mantissas, in the upper one, or right in the middle.
  cases roundBit with
  | false =>
    rw [Bool.toNat_false, Nat.zero_mul] at hm
    cases stickyBit <;>
    · change 2 * (mantissa * 2 ^ dropped) ≤ _ ∧ _ ≤ 2 * (mantissa * 2 ^ dropped) + _
      omega
  | true =>
    rw [Bool.toNat_true, Nat.one_mul] at hm
    cases stickyBit with
    | true =>
      change 2 * ((mantissa + 1) * 2 ^ dropped) ≤ _ ∧ _ ≤ 2 * ((mantissa + 1) * 2 ^ dropped) + _
      omega
    | false =>
      obtain rfl := hsticky rfl
      change 2 * ((mantissa + mantissa % 2) * 2 ^ dropped) ≤ _ ∧
        _ ≤ 2 * ((mantissa + mantissa % 2) * 2 ^ dropped) + _
      rcases Nat.mod_two_eq_zero_or_one mantissa with hlast | hlast
      · rw [hlast, Nat.add_zero]
        omega
      · rw [hlast]
        omega

end Shortened

theorem shiftToTargetExponent_eq {m dropped : Nat} {e : Int} (hlog : m.log2 = 52 + dropped)
    (hlow : -1074 ≤ e + dropped) :
    shiftToTargetExponent .binary64 m e .exact =
      (ExtendedMantissa.ofMantissaAndAccuracy m .exact >>> dropped, e + dropped) := by
  have htarget : Format.targetExponent .binary64 (totalExponent m e) = e + dropped := by
    rw [Format.targetExponent, totalExponent, hlog]
    change max (((52 + dropped : Nat) : Int) + 1 + e - 53) (-1074) = e + dropped
    omega
  have hshift : (e + dropped - e).toNat = dropped := by omega
  rw [shiftToTargetExponent, htarget, shiftToExponent, hshift]

/-- A mantissa that rounding made one digit longer gives its last digit, a zero, to the exponent. -/
theorem exists_carry {r : Nat} {e : Int} (hleast : 2 ^ 52 ≤ r) (hmost : r ≤ 2 ^ 53)
    (hlow : -1074 ≤ e) :
    ∃ em : ExtendedMantissa, ∃ carry : Nat,
      shiftToTargetExponent .binary64 r e .exact = (em, e + carry) ∧
      em.mantissa * 2 ^ carry = r ∧ em.mantissa.log2 = 52 ∧ carry ≤ 1 := by
  by_cases hfull : r = 2 ^ 53
  · subst hfull
    have hdigits : (2 ^ 53).log2 = 52 + 1 := Nat.log2_two_pow
    have hshift := shiftToTargetExponent_eq (e := e) hdigits (by omega)
    exact ⟨_, 1, hshift, rfl, Nat.log2_two_pow (n := 52), Nat.le_refl 1⟩
  · have hdigits : r.log2 = 52 + 0 := (Nat.log2_eq_iff (by omega)).2 ⟨hleast, by omega⟩
    have hshift := shiftToTargetExponent_eq (e := e) hdigits (by omega)
    exact ⟨_, 0, hshift, Nat.mul_one r, hdigits, Nat.zero_le 1⟩

/-- Rounding leaves 53 digits of a number and moves it by no more than half of the last of them. -/
theorem exists_roundWithAccuracy {m dropped : Nat} {e : Int} (hlog : m.log2 = 52 + dropped)
    (hlow : -1074 ≤ e + dropped) :
    ∃ r carry : Nat, ∃ hpos : 0 < r,
      roundWithAccuracy .binary64 .positive m e .exact =
        .finite .positive r (e + dropped + carry) hpos ∧
      r.log2 = 52 ∧ carry ≤ 1 ∧
      2 * (r * 2 ^ carry * 2 ^ dropped) ≤ 2 * m + 2 ^ dropped ∧
      2 * m ≤ 2 * (r * 2 ^ carry * 2 ^ dropped) + 2 ^ dropped := by
  obtain ⟨hlower, hupper⟩ := log2_bounds hlog
  have hclose := (shortened_shiftRight m dropped).roundedMantissa_close
  have hunit : 0 < 2 ^ dropped := Nat.two_pow_pos dropped
  have hleast : 2 ^ 52 ≤
      (ExtendedMantissa.ofMantissaAndAccuracy m .exact >>> dropped).roundedMantissa := by
    by_contra hless
    have hproduct := Nat.mul_le_mul_right (2 ^ dropped) (Nat.lt_of_not_le hless)
    rw [Nat.succ_mul] at hproduct
    omega
  have hmost : (ExtendedMantissa.ofMantissaAndAccuracy m .exact >>> dropped).roundedMantissa ≤
      2 ^ 53 := by
    by_contra hmore
    have hproduct := Nat.mul_le_mul_right (2 ^ dropped) (Nat.lt_of_not_le hmore)
    rw [Nat.succ_mul] at hproduct
    omega
  obtain ⟨em, carry, hcarry, hvalue, hdigits, hone⟩ := exists_carry hleast hmost hlow
  have hpos : 0 < em.mantissa := by
    by_contra hzero
    rw [Nat.eq_zero_of_not_pos hzero, Nat.zero_mul] at hvalue
    omega
  refine ⟨em.mantissa, carry, hpos, ?_, hdigits, hone, ?_⟩
  · rw [roundWithAccuracy, shiftToTargetExponent_eq hlog hlow]
    dsimp only
    rw [hcarry]
    exact dif_neg (Nat.ne_of_gt hpos)
  · rw [hvalue]
    exact hclose

/-- Nothing happens to a number that has 53 digits. -/
theorem roundWithAccuracy_of_log2_eq {m : Nat} {e : Int} (hpos : 0 < m) (hlog : m.log2 = 52)
    (hlow : -1074 ≤ e) :
    roundWithAccuracy .binary64 .positive m e .exact = .finite .positive m e hpos := by
  obtain ⟨r, carry, hr, hrounded, hdigits, hone, hclose⟩ :=
    exists_roundWithAccuracy (e := e) (show m.log2 = 52 + 0 from hlog) (by omega)
  obtain ⟨-, hupper⟩ := log2_bounds (n := 0) hlog
  obtain ⟨hlower, -⟩ := log2_bounds (n := 0) hdigits
  have hcarry : carry = 0 := by
    by_contra hne
    obtain rfl : carry = 1 := by omega
    omega
  subst hcarry
  obtain rfl : r = m := by omega
  rw [hrounded]
  exact finite_congr rfl rfl (by omega)

/-- A count below 2^53 becomes its digits with zeros behind them. -/
theorem ofUInt64_eq {n zeros : Nat} (hlog : n.log2 + zeros = 52) (hne : n ≠ 0)
    (hpos : 0 < n * 2 ^ zeros) :
    UnpackedFloat.ofUInt64 .binary64 n.toUInt64 =
      .finite .positive (n * 2 ^ zeros) (-zeros) hpos := by
  have hsmall : n < 2 ^ 53 := (Nat.log2_lt hne).1 (by omega)
  have hsame : n.toUInt64.toNat = n := UInt64.toNat_ofNat_of_lt' (show n < 2 ^ 64 by omega)
  have hsign : compare (n : Int) 0 = .gt := Int.compare_eq_gt.2 (by omega)
  have htarget : Format.targetExponent .binary64 (totalExponent n 0) = -(zeros : Int) := by
    rw [Format.targetExponent, totalExponent]
    change max ((n.log2 : Int) + 1 + 0 - 53) (-1074) = -(zeros : Int)
    omega
  have hshift : decreaseExponent n 0 (-zeros) = (n * 2 ^ zeros, -(zeros : Int)) := by
    rw [decreaseExponent, show (0 - -(zeros : Int)).toNat = zeros by omega, Nat.shiftLeft_eq,
      Int.zero_sub]
  rw [UnpackedFloat.ofUInt64, UnpackedFloat.ofNat, UnpackedFloat.ofInt, hsame,
    UnpackedFloat.normalize, hsign]
  dsimp only
  rw [Int.toNat_natCast, UnpackedFloat.round, htarget, hshift]
  exact roundWithAccuracy_of_log2_eq hpos ((log2_mul_two_pow hne zeros).trans hlog) (by omega)

/-- The whole part of a number. -/
theorem toUInt64_finite {m places : Nat} (hpos : 0 < m) (hfits : m / 2 ^ places < 2 ^ 64) :
    (UnpackedFloat.toUInt64 (.finite .positive m (-places) hpos)).toNat = m / 2 ^ places := by
  have hsame : decreaseExponent m (-places) 0 = (m, -(places : Int)) := by
    rw [decreaseExponent, show (-(places : Int) - 0).toNat = 0 by omega]
    simp
  have hshift : shiftToExponent m (-places) .exact 0 =
      (ExtendedMantissa.ofMantissaAndAccuracy m .exact >>> places, -(places : Int) + places) := by
    rw [shiftToExponent, show (0 - -(places : Int)).toNat = places by omega]
  have hround : roundToInt .positive m (-places) = (m / 2 ^ places : Nat) := by
    rw [roundToInt, hsame]
    dsimp only
    rw [hshift, ← (shortened_shiftRight m places).mantissa_eq]
    rfl
  change (UInt64.ofNatClamp (roundToInt .positive m (-places)).toNat).toNat = _
  rw [hround, Int.toNat_natCast, UInt64.ofNatClamp_eq_ofNat _ hfits,
    UInt64.toNat_ofNat_of_lt' hfits]

/-- The digits of nineteen twentieths as they are stored, with 53 binary places. -/
def shareDigits : Nat :=
  8556839292003942

theorem unpack_share :
    (0.95 : Float).toModel.unpack = .finite .positive shareDigits (-53) (by decide) :=
  rfl

theorem unpack_count {n zeros : Nat} (hlog : n.log2 + zeros = 52) (hne : n ≠ 0)
    (hpos : 0 < n * 2 ^ zeros) :
    n.toUInt64.toFloat.toModel.unpack = .finite .positive (n * 2 ^ zeros) (-zeros) hpos := by
  change unpack .binary64 (pack .binary64 (UnpackedFloat.ofUInt64 .binary64 n.toUInt64)) = _
  rw [ofUInt64_eq hlog hne hpos]
  exact unpack_pack hpos ((log2_mul_two_pow hne zeros).trans hlog) (by omega) (by omega)

/-- The product of two numbers with 53 digits has 106 of them, or one less. -/
theorem log2_mul_shareDigits {m : Nat} (hlog : m.log2 = 52) :
    ∃ extra ≤ 1, (m * shareDigits).log2 = 52 + (53 - extra) := by
  obtain ⟨hlower, hupper⟩ := log2_bounds (n := 0) hlog
  have hne : m * shareDigits ≠ 0 := by
    rw [shareDigits]
    omega
  by_cases hlarge : 2 ^ 105 ≤ m * shareDigits
  · refine ⟨0, Nat.zero_le 1, (Nat.log2_eq_iff hne).2 ⟨hlarge, ?_⟩⟩
    rw [shareDigits]
    omega
  · refine ⟨1, Nat.le_refl 1, (Nat.log2_eq_iff hne).2 ⟨?_, by omega⟩⟩
    rw [shareDigits]
    omega

/-- The stored digits are too small by less than half of the last one, and where the exact product is no
whole number, it is at least five hundredths below the next one. So a mantissa that is close to the
product has the whole part of the exact one. -/
theorem close_div_eq {n zeros extra r : Nat} (hzeros : 4 ≤ zeros) (hextra : extra ≤ 1)
    (hupper : n * 2 ^ zeros * shareDigits < 2 ^ 53 * 2 ^ (53 - extra))
    (hless : 2 * (r * 2 ^ (53 - extra)) ≤ 2 * (n * 2 ^ zeros * shareDigits) + 2 ^ (53 - extra))
    (hmore : 2 * (n * 2 ^ zeros * shareDigits) ≤ 2 * (r * 2 ^ (53 - extra)) + 2 ^ (53 - extra)) :
    r / (2 ^ zeros * 2 ^ extra) = n * 95 / 100 := by
  have hunit : 2 ^ 4 ≤ 2 ^ zeros := Nat.pow_le_pow_right (by decide) hzeros
  obtain ⟨rest, hn, hrest⟩ : ∃ rest, n * 95 = 100 * (n * 95 / 100) + rest ∧ rest ≤ 95 :=
    ⟨n * 95 % 100, by omega, by omega⟩
  generalize n * 95 / 100 = whole at hn ⊢
  have hscaled : n * 2 ^ zeros * 95 = 100 * (whole * 2 ^ zeros) + rest * 2 ^ zeros := by
    rw [Nat.mul_right_comm, hn]
    ring
  have hpart : rest * 2 ^ zeros ≤ 95 * 2 ^ zeros := Nat.mul_le_mul_right _ hrest
  rw [shareDigits] at *
  apply Nat.div_eq_of_lt_le
  · rw [← Nat.mul_assoc]
    obtain rfl | rfl : extra = 0 ∨ extra = 1 := by omega
    · omega
    · omega
  · rw [← Nat.mul_assoc, Nat.succ_mul]
    obtain rfl | rfl : extra = 0 ∨ extra = 1 := by omega
    · omega
    · omega

theorem percentileRank_eq {n : Nat} (hn : n < 2 ^ 49) :
    Summary.percentileRank n = n * 95 / 100 := by
  by_cases hne : n = 0
  · subst hne
    rfl
  obtain ⟨zeros, hlog, hzeros⟩ : ∃ zeros, n.log2 + zeros = 52 ∧ 4 ≤ zeros := by
    have hshort : n.log2 < 49 := (Nat.log2_lt hne).2 hn
    exact ⟨52 - n.log2, by omega, by omega⟩
  have hpos : 0 < n * 2 ^ zeros := Nat.mul_pos (Nat.pos_of_ne_zero hne) (Nat.two_pow_pos zeros)
  obtain ⟨extra, hextra, hproduct⟩ := log2_mul_shareDigits ((log2_mul_two_pow hne zeros).trans hlog)
  obtain ⟨r, carry, hr, hrounded, hdigits, hcarry, hless, hmore⟩ :=
    exists_roundWithAccuracy (e := -zeros + -53) hproduct (by omega)
  have hwhole := close_div_eq hzeros hextra (log2_bounds hproduct).2 hless hmore
  obtain ⟨places, hplaces⟩ : ∃ places, places + carry = zeros + extra :=
    ⟨zeros + extra - carry, by omega⟩
  have hexponent : -(zeros : Int) + -53 + (53 - extra : Nat) + carry = -places := by omega
  have hsame : r / 2 ^ places = n * 95 / 100 := by
    rw [← hwhole, ← Nat.pow_add, ← hplaces, Nat.pow_add]
    exact (Nat.mul_div_mul_right _ _ (Nat.two_pow_pos carry)).symm
  change (unpack .binary64 (pack .binary64 (UnpackedFloat.mul .binary64
    n.toUInt64.toFloat.toModel.unpack (0.95 : Float).toModel.unpack))).toUInt64.toNat = _
  rw [unpack_count hlog hne hpos, unpack_share]
  change (unpack .binary64 (pack .binary64 (roundWithAccuracy .binary64 .positive
    (n * 2 ^ zeros * shareDigits) (-zeros + -53) .exact))).toUInt64.toNat = _
  rw [hrounded, finite_congr rfl rfl hexponent, unpack_pack hr hdigits (by omega) (by omega),
    toUInt64_finite hr (by omega), hsame]

end LogScript.Rounding
