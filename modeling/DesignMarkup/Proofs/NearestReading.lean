import DesignMarkup.Decimal.Reading
import DesignMarkup.Proofs.Rounding

/-!
# Decimals, read as doubles

A decimal is read as its digits times or through a power of ten, rounded once. So the double that is
read is the one that the decimal rounds to, however the two were put into doubles before.
-/

namespace DesignMarkup

namespace Double

open Float.Model UnpackedFloat
open Decimal (RoundsTo lowEnd highEnd)

/-! ## Exact doubles -/

section

variable {x : Float} {m n : Nat} {e : Int}

/-- A canonical form is not rounded. -/
theorem roundWithAccuracy_canonical (s : Sign) (h : IsCanonical m e) (some : 0 < m) :
    roundWithAccuracy Format.binary64 s m e .exact = .finite s m e some := by
  have cut : Marks (.ofMantissaAndAccuracy m .exact) (m * 2 ^ e / 2 ^ e : ℚ) := by
    rw [mul_zpow_div_zpow]
    exact marks_exact m
  obtain ⟨k, f, hk, canonical, same, rounded⟩ := roundWithAccuracy_of_roundsTo s
    (h.full.imp_right fun lowest => lowest.le) cut (roundsTo_canonical h some) (rankOf_pos some)
  obtain ⟨rfl, rfl⟩ := canonical.unique h same
  exact rounded

/-- A natural number of at most 53 bits, with zeros behind them where there are fewer. -/
theorem isCanonical_shifted (some : 0 < n) (bits : n < 2 ^ 53) :
    IsCanonical (n * 2 ^ (52 - n.log2)) (n.log2 - 52 : Int) := by
  have log := log2_le_of_lt (k := 52) bits
  refine ⟨by omega, ?_, Or.inl ?_⟩
  · calc n * 2 ^ (52 - n.log2)
        < 2 ^ (n.log2 + 1) * 2 ^ (52 - n.log2) :=
          Nat.mul_lt_mul_of_pos_right Nat.lt_log2_self (Nat.pow_pos (by decide))
      _ = 2 ^ (n.log2 + 1 + (52 - n.log2)) := (Nat.pow_add 2 _ _).symm
      _ ≤ 2 ^ 53 := Nat.pow_le_pow_right (by decide) (by omega)
  · calc 2 ^ 52
        = 2 ^ (n.log2 + (52 - n.log2)) := by rw [Nat.add_sub_cancel' log]
      _ = 2 ^ n.log2 * 2 ^ (52 - n.log2) := Nat.pow_add 2 _ _
      _ ≤ n * 2 ^ (52 - n.log2) := Nat.mul_le_mul_right _ (Nat.log2_self_le some.ne')

theorem shifted_mul_zpow (bits : n < 2 ^ 53) :
    (((n * 2 ^ (52 - n.log2) : Nat) : ℚ) * 2 ^ (n.log2 - 52 : Int)) = n := by
  have log := log2_le_of_lt (k := 52) bits
  have places : (n.log2 - 52 : Int) = -((52 - n.log2 : Nat) : Int) := by omega
  rw [places, zpow_neg, zpow_natCast, Nat.cast_mul, Nat.cast_pow]
  exact mul_inv_cancel_right₀ (pow_ne_zero _ two_ne_zero) _

theorem normalize_natCast (some : 0 < n) (bits : n < 2 ^ 53) :
    ∃ h, UnpackedFloat.normalize Format.binary64 n 0 .positive
      = .finite .positive (n * 2 ^ (52 - n.log2)) (n.log2 - 52 : Int) h := by
  have log := log2_le_of_lt (k := 52) bits
  have target : Format.binary64.targetExponent (totalExponent n 0) = (n.log2 - 52 : Int) := by
    show max ((n.log2 : Int) + 1 + 0 - 53) (-1074) = _
    omega
  have above : compare (n : Int) 0 = .gt := Int.compare_eq_gt.mpr (by omega)
  have shift : (0 - (n.log2 - 52 : Int)).toNat = 52 - n.log2 := by omega
  have exponent : (0 - ((52 - n.log2 : Nat) : Int)) = n.log2 - 52 := by omega
  refine ⟨Nat.mul_pos some (Nat.pow_pos (by decide)), ?_⟩
  rw [UnpackedFloat.normalize, above]
  show UnpackedFloat.round Format.binary64 .positive n 0 = _
  rw [UnpackedFloat.round, target, decreaseExponent]
  dsimp only
  rw [shift, exponent, Nat.shiftLeft_eq]
  exact roundWithAccuracy_canonical .positive (isCanonical_shifted some bits) _

/-- A natural number of at most 53 bits is a double. -/
theorem isPositive_toFloat (some : 0 < n) (bits : n < 2 ^ 53) :
    IsPositive n.toUInt64.toFloat n := by
  have size : n.toUInt64.toNat = n := by
    rw [Nat.toUInt64, UInt64.toNat_ofNat']
    omega
  have canonical := isCanonical_shifted some bits
  have log := log2_le_of_lt (k := 52) bits
  have room : rankOf (n * 2 ^ (52 - n.log2)) (n.log2 - 52 : Int) < infiniteRank := by
    have limit : infiniteRank = 2047 * 2 ^ 52 := rfl
    have := canonical.bits
    rw [limit, rankOf]
    omega
  obtain ⟨positive, normalized⟩ := normalize_natCast some bits
  have packed : n.toUInt64.toFloat = Float.ofModel (.pack
      (.finite .positive (n * 2 ^ (52 - n.log2)) (n.log2 - 52 : Int) positive)) := by
    show Float.ofModel
      (.pack (UnpackedFloat.normalize Format.binary64 n.toUInt64.toNat 0 .positive)) = _
    rw [size, normalized]
  have all := isPositive_pack canonical positive room
  rw [shifted_mul_zpow bits] at all
  rw [packed]
  exact all

theorem isPositive_of_units (finite : isFinite x = true) (positive : 0 < rank x)
    (sign : isNegative x = false) (h : units x = n * unitsPerOne) : IsPositive x n := by
  refine ⟨finite, positive, by rw [signOf, sign]; rfl, ?_⟩
  refine mul_right_cancel₀ cast_unitsPerOne_pos.ne' ((value_mul_unitsPerOne finite).trans ?_)
  rw [h]
  push_cast
  rfl

/-- The powers of ten that are doubles are in a table. -/
theorem units_powersOfTen : ∀ i : Fin Float.exactlyRepresentablePowersOfTen.size,
    isFinite Float.exactlyRepresentablePowersOfTen[i] = true ∧
      0 < rank Float.exactlyRepresentablePowersOfTen[i] ∧
      isNegative Float.exactlyRepresentablePowersOfTen[i] = false ∧
      units Float.exactlyRepresentablePowersOfTen[i] = (10 ^ i.val : Nat) * unitsPerOne := by
  decide +kernel

theorem isPositive_powerOfTen {k : Nat} (h : k < Float.exactlyRepresentablePowersOfTen.size) :
    IsPositive Float.exactlyRepresentablePowersOfTen[k] ((10 ^ k : Nat) : ℚ) := by
  obtain ⟨finite, positive, sign, number⟩ := units_powersOfTen ⟨k, h⟩
  exact isPositive_of_units finite positive sign number

end

/-! ## Numbers in scientific form -/

section

variable {n r : Nat} {e : Int}

theorem zpow_ten_of_nonneg (up : 0 ≤ e) : (10 : ℚ) ^ e = ((10 ^ e.toNat : Nat) : ℚ) := by
  obtain ⟨k, rfl⟩ := Int.eq_ofNat_of_zero_le up
  rw [Nat.cast_pow]
  exact zpow_natCast 10 k

theorem zpow_ten_of_neg (down : e < 0) : (10 : ℚ) ^ e = ((10 ^ (-e).toNat : Nat) : ℚ)⁻¹ := by
  obtain ⟨k, hk⟩ := Int.eq_ofNat_of_zero_le (show 0 ≤ -e by omega)
  obtain rfl : e = -(k : Int) := by omega
  rw [zpow_neg, zpow_natCast, Int.neg_neg, Nat.cast_pow]
  rfl

/-- Digits and a power of ten, neither of them limited, are rounded once. -/
theorem ofScientific_of_roundsTo (some : 0 < n) (high : e ≤ 2 ^ 11)
    (low : -(2 ^ 11 + n.log2 : Int) ≤ e) (h : RoundsTo (n * 10 ^ e) r) (positive : 0 < r) :
    ∃ k g hk, IsCanonical k g ∧ rankOf k g = r ∧
      UnpackedFloat.ofScientific Format.binary64 n e = .finite .positive k g hk := by
  have bits : (2 ^ Format.binary64.exponentBits : Int) = 2 ^ 11 := rfl
  have mantissa : Format.binary64.mantissaBits = 53 := rfl
  have ten (k : Nat) : 0 < 10 ^ k := Nat.pow_pos (by decide)
  have unfolded := UnpackedFloat.ofScientific.eq_1 Format.binary64 n e
  rw [dif_neg some.ne', bits, if_neg (by omega), if_neg (by omega)] at unfolded
  rw [unfolded]
  by_cases up : 0 ≤ e
  · rw [if_pos up]
    refine mul_of_roundsTo .positive .positive _ (ten _) (Or.inl ?_) ?_ positive
    · rw [mantissa, Nat.shiftLeft_eq, Nat.mul_right_comm]
      exact (Nat.pow_le_pow_right (by decide) (by decide)).trans
        (Nat.le_mul_of_pos_left _ (Nat.mul_pos some (ten _)))
    · have number : ((n <<< 53 : Nat) : ℚ) * 2 ^ (-(53 : Nat) : Int)
          * ((10 ^ e.toNat : Nat) * 2 ^ (0 : Int)) = n * 10 ^ e := by
        rw [Nat.shiftLeft_eq, zpow_neg, zpow_natCast, zpow_zero, mul_one, Nat.cast_mul, Nat.cast_pow,
          zpow_ten_of_nonneg up]
        congr 1
        exact mul_inv_cancel_right₀ (pow_ne_zero _ two_ne_zero) _
      rw [mantissa, number]
      exact h
  · rw [if_neg up]
    refine div_of_roundsTo .positive .positive some (ten _) ?_ positive
    rw [zpow_zero, mul_one, mul_one, div_eq_mul_inv, ← zpow_ten_of_neg (by omega)]
    exact h

/-- Small numbers are computed in doubles, and all others without a limit. -/
theorem rank_ofScientific (some : 0 < n) (high : e ≤ 2 ^ 11) (low : -(2 ^ 11 + n.log2 : Int) ≤ e)
    (h : RoundsTo (n * 10 ^ e) r) (positive : 0 < r) (room : r < infiniteRank) :
    rank (Float.ofScientific n (decide (e < 0)) e.natAbs) = r ∧
      signOf (Float.ofScientific n (decide (e < 0)) e.natAbs) = .positive := by
  unfold Float.ofScientific
  by_cases small : n < 2 ^ 53 ∧ e.natAbs ≤ 22
  · rw [dif_pos small]
    have digits := isPositive_toFloat some small.1
    have power := isPositive_powerOfTen (Nat.lt_succ_of_le small.2)
    dsimp only
    by_cases down : e < 0
    · have size : e.natAbs = (-e).toNat := by omega
      rw [if_pos (decide_eq_true down)]
      refine rank_div digits power ?_ positive room
      rw [size, div_eq_mul_inv, ← zpow_ten_of_neg down]
      exact h
    · have size : e.natAbs = e.toNat := by omega
      rw [if_neg (by simpa using down)]
      refine rank_mul digits power ?_ positive room
      rw [size, ← zpow_ten_of_nonneg (by omega)]
      exact h
  · rw [dif_neg small]
    have exponent : (if decide (e < 0) then Int.negOfNat e.natAbs else Int.ofNat e.natAbs) = e := by
      by_cases down : e < 0
      · rw [if_pos (decide_eq_true down), Int.negOfNat_eq]
        show -(e.natAbs : Int) = e
        omega
      · rw [if_neg (by simpa using down)]
        show (e.natAbs : Int) = e
        omega
    obtain ⟨k, g, hk, canonical, rfl, rounded⟩ :=
      ofScientific_of_roundsTo some high low h positive
    show rank (Float.ofModel (.pack (UnpackedFloat.ofScientific Format.binary64 n _))) = _ ∧
      signOf (Float.ofModel (.pack (UnpackedFloat.ofScientific Format.binary64 n _))) = _
    rw [exponent, rounded]
    exact rank_pack canonical hk room

end

end Double

/-! ## The double that a decimal rounds to -/

namespace Decimal

open Double

section

variable {n : Nat} {d : Decimal}

theorem lt_ten_pow_digitCount (n : Nat) : n < 10 ^ digitCount n :=
  (Nat.length_toDigits_le_iff (by decide) Nat.length_toDigits_pos).mp le_rfl

theorem ten_pow_digitCount_le (some : n ≠ 0) : 10 ^ (digitCount n - 1) ≤ n := by
  rcases Nat.eq_zero_or_pos (digitCount n - 1) with one | more
  · rw [one]
    exact Nat.pos_of_ne_zero some
  · refine Nat.le_of_not_lt fun less => ?_
    have shorter : digitCount n ≤ digitCount n - 1 :=
      (Nat.length_toDigits_le_iff (by decide) more).mpr less
    omega

theorem digitCount_le_log2 (some : n ≠ 0) : digitCount n ≤ n.log2 + 1 := by
  have power : 2 ^ (digitCount n - 1) ≤ n :=
    (Nat.pow_le_pow_left (by decide) _).trans (ten_pow_digitCount_le some)
  have := (Nat.le_log2 some).mpr power
  omega

theorem value_lt_zpow (d : Decimal) : d.value < 10 ^ ((digitCount d.digits : Int) + d.exponent) := by
  rw [zpow_add₀ (by decide), zpow_natCast, value]
  refine mul_lt_mul_of_pos_right ?_ (zpow_pos (by decide) _)
  exact_mod_cast lt_ten_pow_digitCount d.digits

theorem zpow_le_value (some : d.digits ≠ 0) :
    (10 : ℚ) ^ ((digitCount d.digits : Int) + d.exponent - 1) ≤ d.value := by
  have positive : 0 < digitCount d.digits := Nat.length_toDigits_pos
  have places : (digitCount d.digits : Int) + d.exponent - 1
      = (digitCount d.digits - 1 : Nat) + d.exponent := by omega
  rw [places, zpow_add₀ (by decide), zpow_natCast, value]
  refine mul_le_mul_of_nonneg_right ?_ (zpow_pos (by decide) _).le
  exact_mod_cast ten_pow_digitCount_le some

end

section

variable {v : ℚ} {r : Nat} {d : Decimal}

/-- What rounds to a positive double is not far below the least one. -/
theorem zpow_lt_of_roundsTo (h : RoundsTo v r) (positive : 0 < r) : (10 : ℚ) ^ (-400 : Int) < v := by
  obtain ⟨low, -, -⟩ := roundsTo_iff.mp h
  have one : (1 : ℚ) ≤ lowEnd r := by
    have : magnitude 0 < magnitude r := strictMono_magnitude positive
    rw [Nat.one_le_cast, lowEnd]
    omega
  have tiny : 2 * ((10 : ℚ) ^ (-400 : Int) * unitsPerOne) < 1 := by
    have less : 2 * unitsPerOne < 10 ^ 400 := by decide +kernel
    have positive : (0 : ℚ) < 10 ^ 400 := by positivity
    have scaled : (2 * unitsPerOne : ℚ) < 10 ^ 400 := by exact_mod_cast less
    have power : (10 : ℚ) ^ (-400 : Int) = (10 ^ 400)⁻¹ := zpow_neg 10 _
    rw [power, mul_left_comm, inv_mul_lt_iff₀ positive, mul_one]
    exact scaled
  have order : 2 * ((10 : ℚ) ^ (-400 : Int) * unitsPerOne) < 2 * (v * unitsPerOne) :=
    tiny.trans_le (one.trans low)
  exact lt_of_mul_lt_mul_right (lt_of_mul_lt_mul_left order zero_le_two) cast_unitsPerOne_pos.le

theorem lt_zpow_of_roundsTo (h : RoundsTo v r) (room : r < infiniteRank) : v < 10 ^ (400 : Int) := by
  have less : 2 ^ 1024 < 10 ^ 400 := by decide +kernel
  have power : (10 : ℚ) ^ (400 : Int) = 10 ^ 400 := zpow_natCast 10 400
  calc v
      < 2 ^ 1024 - 2 ^ 970 := lt_of_roundsTo h room
    _ < 2 ^ 1024 := sub_lt_self _ (pow_pos two_pos 970)
    _ < 10 ^ 400 := by exact_mod_cast less
    _ = 10 ^ (400 : Int) := power.symm

/-- A decimal is read as the double that it rounds to. -/
theorem rank_nearest (h : RoundsTo d.value r) (positive : 0 < r) (room : r < infiniteRank) :
    rank (nearest d.digits d.exponent) = r ∧ signOf (nearest d.digits d.exponent) = .positive := by
  have low := zpow_lt_of_roundsTo h positive
  have high := lt_zpow_of_roundsTo h room
  have some : d.digits ≠ 0 := by
    intro zero
    rw [value, zero, Nat.cast_zero, zero_mul] at low
    exact absurd low (zpow_pos (by decide) _).not_gt
  have one : (1 : ℚ) < 10 := by decide
  have above : -400 < (digitCount d.digits : Int) + d.exponent :=
    (zpow_lt_zpow_iff_right₀ one).mp (low.trans (value_lt_zpow d))
  have below : (digitCount d.digits : Int) + d.exponent - 1 < 400 :=
    (zpow_lt_zpow_iff_right₀ one).mp ((zpow_le_value some).trans_lt high)
  have bits := digitCount_le_log2 some
  have first : 0 < digitCount d.digits := Nat.length_toDigits_pos
  have unfolded : nearest d.digits d.exponent
      = if d.digits = 0 ∨ (digitCount d.digits : Int) + d.exponent < -400 then Float.ofBits 0
        else if 400 < (digitCount d.digits : Int) + d.exponent then Double.infinity
        else Float.ofScientific d.digits (decide (d.exponent < 0)) d.exponent.natAbs := rfl
  rw [unfolded, if_neg (by omega), if_neg (by omega)]
  exact rank_ofScientific (Nat.pos_of_ne_zero some) (by omega) (by omega) h positive room

end

end Decimal

end DesignMarkup
