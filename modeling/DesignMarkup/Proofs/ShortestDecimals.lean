import Mathlib.Algebra.Order.Field.Power
import Mathlib.Algebra.Order.Ring.Rat
import Mathlib.Order.Monotone.Basic
import Mathlib.Tactic.FieldSimp
import Mathlib.Tactic.Linarith
import Mathlib.Tactic.Ring
import DesignMarkup.Decimal.Shortest

/-!
# Decimals that stand for doubles

The numbers that round to a double lie between the midpoints to its neighbours. Since the
magnitudes of doubles grow with their ranks, no number rounds to two doubles of one sign, and a
decimal that stands for a double tells which one. The shortest decimal of a double stands for it.
-/

namespace DesignMarkup

/-! ## Magnitudes -/

namespace Double

theorem magnitude_lt_succ (rank : Nat) : magnitude rank < magnitude (rank + 1) := by
  have two : twoTo 52 = 2 ^ 52 := rfl
  have power (n : Nat) : 0 < twoTo n := Nat.pow_pos (by decide)
  by_cases small : rank + 1 < twoTo 52
  · rw [magnitude, magnitude, if_pos small, if_pos (by omega)]
    exact Nat.lt_succ_self rank
  rw [magnitude, magnitude, if_neg small]
  by_cases first : rank < twoTo 52
  · -- The last magnitude below 2^52 comes before 2^52 itself.
    have next : rank + 1 = twoTo 52 := by omega
    rw [if_pos first, next, Nat.mod_self, Nat.div_self (power 52), Nat.sub_self]
    have last : (twoTo 52 + 0) * twoTo 0 = 2 ^ 52 := rfl
    omega
  rw [if_neg first, two]
  by_cases carry : rank % 2 ^ 52 = 2 ^ 52 - 1
  · -- Behind 2^52 ranks the distance doubles.
    have quotient : (rank + 1) / 2 ^ 52 - 1 = rank / 2 ^ 52 - 1 + 1 := by omega
    have remainder : (rank + 1) % 2 ^ 52 = 0 := by omega
    have double (n : Nat) : twoTo (n + 1) = twoTo n * 2 := rfl
    rw [carry, quotient, remainder, double, Nat.mul_comm (twoTo _) 2, ← Nat.mul_assoc]
    exact Nat.mul_lt_mul_of_pos_right (by decide) (power _)
  · have quotient : (rank + 1) / 2 ^ 52 = rank / 2 ^ 52 := by omega
    have remainder : (rank + 1) % 2 ^ 52 = rank % 2 ^ 52 + 1 := by omega
    rw [quotient, remainder]
    exact Nat.mul_lt_mul_of_pos_right (by omega) (power _)

theorem strictMono_magnitude : StrictMono magnitude := strictMono_nat_of_lt_succ magnitude_lt_succ

end Double

namespace Decimal

open Double

/-! ## Numbers that round to a double -/

def value (d : Decimal) : ℚ := d.digits * (10 : ℚ) ^ d.exponent

/-- The midpoint to the double below, in half units. -/
def lowEnd (rank : Nat) : Nat := magnitude (rank - 1) + magnitude rank

def highEnd (rank : Nat) : Nat := magnitude rank + magnitude (rank + 1)

/-- A number rounds to the positive double of a rank; the midpoints do when the rank is even. -/
def RoundsTo (v : ℚ) (rank : Nat) : Prop :=
  if rank % 2 = 0 then
    (lowEnd rank : ℚ) ≤ 2 * v * unitsPerOne ∧ 2 * v * unitsPerOne ≤ (highEnd rank : ℚ)
  else (lowEnd rank : ℚ) < 2 * v * unitsPerOne ∧ 2 * v * unitsPerOne < (highEnd rank : ℚ)

theorem cast_tenUp (e : Int) : (tenUp e : ℚ) = 10 ^ e.toNat := Nat.cast_pow 10 e.toNat

/-- Powers of ten are cleared from the two sides of a comparison. -/
theorem value_mul_tenUp_neg (d : Decimal) :
    d.value * tenUp (-d.exponent) = d.digits * tenUp d.exponent := by
  have ten : (10 : ℚ) ≠ 0 := by decide
  rw [value, mul_assoc, cast_tenUp, cast_tenUp, ← zpow_natCast, ← zpow_natCast, ← zpow_add₀ ten]
  congr 2
  omega

section

variable (d : Decimal) (n : Nat)

theorem scale_pos : (0 : ℚ) < tenUp (-d.exponent) := by
  rw [cast_tenUp]
  exact pow_pos (by decide) _

theorem cast_scaled : ((2 * d.digits * tenUp d.exponent * unitsPerOne : Nat) : ℚ)
    = 2 * d.value * unitsPerOne * tenUp (-d.exponent) := by
  push_cast
  rw [mul_assoc 2 (d.digits : ℚ), ← value_mul_tenUp_neg]
  ring

theorem scaled_le_iff : n * tenUp (-d.exponent) ≤ 2 * d.digits * tenUp d.exponent * unitsPerOne
    ↔ (n : ℚ) ≤ 2 * d.value * unitsPerOne := by
  rw [← Nat.cast_le (α := ℚ), cast_scaled, Nat.cast_mul, mul_le_mul_iff_left₀ (scale_pos d)]

theorem le_scaled_iff : 2 * d.digits * tenUp d.exponent * unitsPerOne ≤ n * tenUp (-d.exponent)
    ↔ 2 * d.value * unitsPerOne ≤ (n : ℚ) := by
  rw [← Nat.cast_le (α := ℚ), cast_scaled, Nat.cast_mul, mul_le_mul_iff_left₀ (scale_pos d)]

theorem standsFor_iff {rank : Nat} : d.standsFor rank = true ↔ RoundsTo d.value rank := by
  have low := scaled_le_iff d (lowEnd rank)
  have high := le_scaled_iff d (highEnd rank)
  have low' := not_congr (le_scaled_iff d (lowEnd rank))
  have high' := not_congr (scaled_le_iff d (highEnd rank))
  rw [not_le, not_le] at low' high'
  rw [RoundsTo, standsFor]
  split
  · exact decide_eq_true_iff.trans (and_congr low high)
  · exact decide_eq_true_iff.trans (and_congr low' high')

end

/-! ## One double for a number -/

theorem highEnd_le_lowEnd {r s : Nat} (h : r < s) : highEnd r ≤ lowEnd s := by
  have first : magnitude r ≤ magnitude (s - 1) := strictMono_magnitude.monotone (by omega)
  have second : magnitude (r + 1) ≤ magnitude s := strictMono_magnitude.monotone h
  exact Nat.add_le_add first second

/-- Ranges of doubles next to each other meet in a midpoint, which belongs to the even one. -/
theorem highEnd_lt_lowEnd {r s : Nat} (h : r < s) (even : r % 2 = 0 ∧ s % 2 = 0) :
    highEnd r < lowEnd s := by
  have first : magnitude r < magnitude (s - 1) := strictMono_magnitude (by omega)
  have second : magnitude (r + 1) ≤ magnitude s := strictMono_magnitude.monotone h
  exact Nat.add_lt_add_of_lt_of_le first second

theorem not_roundsTo_of_lt {v : ℚ} {r s : Nat} (h : r < s) (hr : RoundsTo v r) :
    ¬ RoundsTo v s := by
  intro hs
  have meet : (highEnd r : ℚ) ≤ lowEnd s := Nat.cast_le.mpr (highEnd_le_lowEnd h)
  unfold RoundsTo at hr hs
  split at hr
  · split at hs
    · rename_i evenR evenS
      have apart : (highEnd r : ℚ) < lowEnd s :=
        Nat.cast_lt.mpr (highEnd_lt_lowEnd h ⟨evenR, evenS⟩)
      linarith [hr.2, hs.1]
    · linarith [hr.2, hs.1]
  · split at hs
    · linarith [hr.2, hs.1]
    · linarith [hr.2, hs.1]

/-- A number rounds to one positive double at most. -/
theorem RoundsTo.unique {v : ℚ} {r s : Nat} (hr : RoundsTo v r) (hs : RoundsTo v s) : r = s := by
  rcases Nat.lt_trichotomy r s with less | same | greater
  · exact absurd hs (not_roundsTo_of_lt less hr)
  · exact same
  · exact absurd hr (not_roundsTo_of_lt greater hs)

/-! ## The shortest decimal -/

theorem value_stripZeros (fuel : Nat) (d : Decimal) : (stripZeros fuel d).value = d.value := by
  induction fuel generalizing d with
  | zero => rfl
  | succ fuel ih =>
      rw [stripZeros]
      split
      · rename_i zero
        have digits : d.digits = d.digits / 10 * 10 := by omega
        have cast : (d.digits : ℚ) = (d.digits / 10 : Nat) * 10 := by exact_mod_cast digits
        rw [ih, value, value, cast, zpow_add₀ (by decide), zpow_one]
        ring
      · rfl

/-- What is divided by a power of two is that many fives behind the point. -/
theorem value_fives (m n : Nat) : value ⟨m * Nat.pow 5 n, -n⟩ * (twoTo n : ℚ) = m := by
  have twos : (twoTo n : ℚ) = 2 ^ n := Nat.cast_pow 2 n
  have fives : ((Nat.pow 5 n : Nat) : ℚ) = 5 ^ n := Nat.cast_pow 5 n
  have tens : (10 : ℚ) ^ n = 5 ^ n * 2 ^ n := by rw [← mul_pow]; norm_num
  rw [value, Nat.cast_mul, twos, fives, zpow_neg, zpow_natCast, tens]
  field_simp

theorem value_exactly (rank : Nat) : (exactly rank).value * unitsPerOne = magnitude rank := by
  have places : (-1074 : Int) = -((1074 : Nat) : Int) := rfl
  rw [exactly, unitsPerOne, places]
  generalize 1074 = n
  exact value_fives (magnitude rank) n

theorem roundsTo_exactly {rank : Nat} (positive : 0 < rank) :
    RoundsTo (exactly rank).value rank := by
  have exact : 2 * (exactly rank).value * unitsPerOne = ((2 * magnitude rank : Nat) : ℚ) := by
    rw [mul_assoc, value_exactly, Nat.cast_mul]
    rfl
  have low : lowEnd rank < 2 * magnitude rank := by
    have : magnitude (rank - 1) < magnitude rank := strictMono_magnitude (by omega)
    rw [lowEnd]
    omega
  have high : 2 * magnitude rank < highEnd rank := by
    have := magnitude_lt_succ rank
    rw [highEnd]
    omega
  rw [RoundsTo, exact, Nat.cast_le, Nat.cast_le, Nat.cast_lt, Nat.cast_lt]
  split
  · exact ⟨low.le, high.le⟩
  · exact ⟨low, high⟩

theorem standsFor_of_neighbour? {rank : Nat} {exponent : Int} {d : Decimal}
    (h : neighbour? rank exponent = some d) : d.standsFor rank = true := by
  unfold neighbour? at h
  dsimp only at h
  split at h
  · cases h
  · rename_i low _
    obtain rfl := Option.some.inj h
    exact low
  · rename_i _ high
    obtain rfl := Option.some.inj h
    exact high
  · rename_i low high
    split at h
    · obtain rfl := Option.some.inj h
      exact low
    · obtain rfl := Option.some.inj h
      exact high
    · obtain rfl := Option.some.inj h
      split
      · exact low
      · exact high

/-- The shortest decimal of a double rounds to it. -/
theorem roundsTo_shortest {rank : Nat} (positive : 0 < rank) :
    RoundsTo (shortest rank).value rank := by
  rw [shortest, value_stripZeros]
  -- Either some number of digits was enough, or the decimal is the double itself.
  cases found : (List.range 17).findSome? fun n =>
      neighbour? rank (scaleOf (magnitude rank) - (n + 1 : Nat)) with
  | none => exact roundsTo_exactly positive
  | some d =>
      obtain ⟨n, -, near⟩ := List.exists_of_findSome?_eq_some found
      exact (standsFor_iff d).mp (standsFor_of_neighbour? near)

end Decimal

end DesignMarkup
