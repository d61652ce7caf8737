import DesignMarkup.Proofs.DoubleParts

/-!
# The nearest double

Among the finite doubles one is nearest to a given number, a tie going to the double of even rank.
The midpoints that decide what rounds to a double say just that.
-/

namespace DesignMarkup.Double

open Decimal (RoundsTo lowEnd highEnd)

/-- The double is the nearest to a number. No finite double is closer, and one that is equally close
leaves it the even rank. A number that has no nearest double is beyond the largest one by half a
step. -/
structure IsNearest (x : Float) (q : ℚ) : Prop where
  finite : isFinite x = true
  closest : ∀ y, isFinite y = true → |q - value x| ≤ |q - value y|
  even : ∀ y, isFinite y = true → |q - value x| = |q - value y| →
    value y = value x ∨ rank x % 2 = 0
  inRange : |q| < 2 ^ 1024 - 2 ^ 970

/-! ## Distances -/

section

variable {t m a n : ℚ}

/-- Above the midpoint of two numbers the upper one is closer than anything up to the lower one. -/
theorem closer_above (order : n ≤ a) (apart : a < m) (middle : a + m ≤ 2 * t) :
    |t - m| ≤ |t - n| ∧ (|t - m| = |t - n| → 2 * t = a + m) := by
  have far : t - a ≤ |t - n| := by
    have := le_abs_self (t - n)
    linarith
  have near : |t - m| ≤ t - a := abs_le.mpr ⟨by linarith, by linarith⟩
  refine ⟨near.trans far, fun same => ?_⟩
  have tie : |t - m| = t - a := le_antisymm near (same ▸ far)
  rcases abs_cases (t - m) with ⟨above, -⟩ | ⟨below, -⟩
  · linarith
  · linarith

theorem closer_below (order : a ≤ n) (apart : m < a) (middle : 2 * t ≤ m + a) :
    |t - m| ≤ |t - n| ∧ (|t - m| = |t - n| → 2 * t = m + a) := by
  obtain ⟨near, tie⟩ := closer_above (t := -t) (neg_le_neg order) (neg_lt_neg apart) (by linarith)
  rw [neg_sub_neg, neg_sub_neg, abs_sub_comm m, abs_sub_comm n] at near tie
  exact ⟨near, fun same => by linarith [tie same]⟩

end

section

variable {v : ℚ} {r k : Nat}

/-- A number rounds to a double if it lies between the midpoints, and on one of them only if the rank
is even. -/
theorem roundsTo_iff : RoundsTo v r ↔
    (lowEnd r : ℚ) ≤ 2 * (v * unitsPerOne) ∧ 2 * (v * unitsPerOne) ≤ highEnd r ∧
      (2 * (v * unitsPerOne) = lowEnd r ∨ 2 * (v * unitsPerOne) = highEnd r → r % 2 = 0) := by
  rw [← mul_assoc, RoundsTo]
  split
  · rename_i even
    exact ⟨fun h => ⟨h.1, h.2, fun _ => even⟩, fun h => ⟨h.1, h.2.1⟩⟩
  · rename_i odd
    constructor
    · rintro ⟨low, high⟩
      exact ⟨low.le, high.le, fun tie => (tie.elim low.ne' high.ne).elim⟩
    · rintro ⟨low, high, ends⟩
      exact ⟨lt_of_le_of_ne low fun tie => odd (ends (Or.inl tie.symm)),
        lt_of_le_of_ne high fun tie => odd (ends (Or.inr tie))⟩

theorem lowEnd_lt (positive : 0 < r) : lowEnd r < 2 * magnitude r := by
  have : magnitude (r - 1) < magnitude r := strictMono_magnitude (by omega)
  rw [lowEnd]
  omega

theorem lt_highEnd (r : Nat) : 2 * magnitude r < highEnd r := by
  have := magnitude_lt_succ r
  rw [highEnd]
  omega

/-- A whole number of units that is a double lies beyond one of the neighbours, or is the double. -/
theorem magnitude_cases {n : Int} (hn : n.natAbs = magnitude k) (r : Nat) :
    n ≤ (magnitude (r - 1) : Int) ∨ n = magnitude r ∨ (magnitude (r + 1) : Int) ≤ n := by
  rcases Int.natAbs_eq n with positive | negative
  · rw [hn] at positive
    rcases Nat.lt_trichotomy k r with below | same | above
    · have := strictMono_magnitude.monotone (show k ≤ r - 1 by omega)
      left
      omega
    · subst same
      exact Or.inr (Or.inl positive)
    · have := strictMono_magnitude.monotone (show r + 1 ≤ k by omega)
      right
      right
      omega
  · left
    omega

theorem distance_of_roundsTo {n : Int} (positive : 0 < r) (h : RoundsTo v r)
    (hn : n.natAbs = magnitude k) :
    |v * unitsPerOne - magnitude r| ≤ |v * unitsPerOne - n| ∧
      (|v * unitsPerOne - magnitude r| = |v * unitsPerOne - n| →
        n = magnitude r ∨ r % 2 = 0) := by
  obtain ⟨low, high, ends⟩ := roundsTo_iff.mp h
  rw [lowEnd, Nat.cast_add] at low ends
  rw [highEnd, Nat.cast_add] at high ends
  rcases magnitude_cases hn r with below | same | above
  · have order : (n : ℚ) ≤ magnitude (r - 1) := by exact_mod_cast below
    have apart : (magnitude (r - 1) : ℚ) < magnitude r :=
      Nat.cast_lt.mpr (strictMono_magnitude (by omega))
    obtain ⟨near, tie⟩ := closer_above order apart low
    exact ⟨near, fun same => Or.inr (ends (Or.inl (tie same)))⟩
  · have equal : (n : ℚ) = magnitude r := by exact_mod_cast same
    rw [equal]
    exact ⟨le_rfl, fun _ => Or.inl same⟩
  · have order : (magnitude (r + 1) : ℚ) ≤ n := by exact_mod_cast above
    have apart : (magnitude r : ℚ) < magnitude (r + 1) := Nat.cast_lt.mpr (magnitude_lt_succ r)
    obtain ⟨near, tie⟩ := closer_below order apart high
    exact ⟨near, fun same => Or.inr (ends (Or.inr (tie same)))⟩

/-- The midpoint between the largest double and what would be the next one. -/
theorem highEnd_largest :
    highEnd (infiniteRank - 1) = 2 * ((twoTo 1024 - twoTo 970) * unitsPerOne) := by
  decide +kernel

/-- What rounds to a finite double is in range. -/
theorem lt_of_roundsTo (h : RoundsTo v r) (room : r < infiniteRank) : v < 2 ^ 1024 - 2 ^ 970 := by
  obtain ⟨-, high, ends⟩ := roundsTo_iff.mp h
  have largest : (highEnd (infiniteRank - 1) : ℚ) = 2 * ((2 ^ 1024 - 2 ^ 970) * unitsPerOne) := by
    have power : twoTo 970 ≤ twoTo 1024 := twoTo_le (by decide)
    rw [highEnd_largest, Nat.cast_mul, Nat.cast_mul, Nat.cast_sub power, cast_twoTo, cast_twoTo]
    rfl
  have below : 2 * (v * unitsPerOne) < highEnd (infiniteRank - 1) := by
    rcases Nat.lt_or_eq_of_le (show r ≤ infiniteRank - 1 by omega) with less | rfl
    · refine high.trans_lt (Nat.cast_lt.mpr (Nat.add_lt_add (strictMono_magnitude less) ?_))
      exact strictMono_magnitude (by omega)
    · -- The largest double has an odd rank, and no midpoint rounds to it.
      have odd : ¬ (infiniteRank - 1) % 2 = 0 := by decide
      exact lt_of_le_of_ne high fun same => odd (ends (Or.inr same))
  rw [largest] at below
  exact lt_of_mul_lt_mul_right (lt_of_mul_lt_mul_left below zero_le_two) cast_unitsPerOne_pos.le

end

/-! ## Rounding -/

section

variable {α : Type} [Neg α]

/-- The sign of a double in front of a number. -/
def signed (x : Float) (a : α) : α := if isNegative x then -a else a

end

section

variable {x y : Float}

theorem signed_units (x : Float) : signed x (units x) = (magnitude (rank x) : Int) := by
  rw [units, signed]
  split <;> simp

theorem natAbs_signed_units (x y : Float) : (signed x (units y)).natAbs = magnitude (rank y) := by
  rw [signed, ← natAbs_units]
  split <;> simp

theorem cast_signed (x : Float) (n : Int) : ((signed x n : Int) : ℚ) = signed x (n : ℚ) := by
  rw [signed, signed]
  split <;> simp

theorem signed_injective (x : Float) : Function.Injective (signed x : Int → Int) := by
  intro m n same
  rw [signed, signed] at same
  split at same <;> omega

theorem abs_signed {v : ℚ} (nonnegative : 0 ≤ v) : |signed x v| = v := by
  rw [signed]
  split
  · rw [abs_neg, abs_of_nonneg nonnegative]
  · exact abs_of_nonneg nonnegative

/-- A distance between numbers, in units and without the sign. -/
theorem abs_sub_mul_unitsPerOne (v : ℚ) (hy : isFinite y = true) :
    |signed x v - value y| * unitsPerOne = |v * unitsPerOne - (signed x (units y) : Int)| := by
  rw [cast_signed, ← value_mul_unitsPerOne hy, ← abs_of_pos cast_unitsPerOne_pos, ← abs_mul,
    abs_of_pos cast_unitsPerOne_pos, signed, signed]
  split
  · rw [sub_neg_eq_add, ← abs_neg]
    congr 1
    ring
  · rw [sub_mul]

/-- A number that rounds to the rank of a double is, with the double's sign, nearest to it. -/
theorem isNearest_of_roundsTo {v : ℚ} (finite : isFinite x = true) (positive : 0 < rank x)
    (nonnegative : 0 ≤ v) (h : RoundsTo v (rank x)) : IsNearest x (signed x v) := by
  have nearer (y : Float) := distance_of_roundsTo positive h (natAbs_signed_units x y)
  have own := abs_sub_mul_unitsPerOne (x := x) v finite
  rw [signed_units, Int.cast_natCast] at own
  refine ⟨finite, fun y hy => ?_, fun y hy tie => ?_, ?_⟩
  · refine le_of_mul_le_mul_right ?_ cast_unitsPerOne_pos
    rw [own, abs_sub_mul_unitsPerOne v hy]
    exact (nearer y).1
  · have same := congrArg (· * (unitsPerOne : ℚ)) tie
    rw [own, abs_sub_mul_unitsPerOne v hy] at same
    refine ((nearer y).2 same).imp_left fun equal => ?_
    rw [value_eq_iff hy finite]
    exact signed_injective x (equal.trans (signed_units x).symm)
  · rw [abs_signed nonnegative]
    exact lt_of_roundsTo h (of_decide_eq_true finite)

end

/-! ## One nearest double -/

section

variable {x y : Float} {q : ℚ}

theorem value_lt_iff (hx : isFinite x = true) (hy : isFinite y = true) :
    value x < value y ↔ units x < units y := by
  rw [← Int.cast_lt (R := ℚ), ← value_mul_unitsPerOne hx, ← value_mul_unitsPerOne hy,
    mul_lt_mul_iff_left₀ cast_unitsPerOne_pos]

/-- A magnitude of a finite rank belongs to a double, with a minus and without. -/
theorem exists_units_eq {n : Int} {r : Nat} (hn : n.natAbs = magnitude r) (room : r < infiniteRank) :
    ∃ x, isFinite x = true ∧ units x = n := by
  rcases Nat.eq_zero_or_pos r with rfl | positive
  · refine ⟨Float.ofBits 0, by decide, ?_⟩
    have none : magnitude 0 = 0 := rfl
    have zero : units (Float.ofBits 0) = 0 := by decide
    omega
  · obtain ⟨x, place, sign⟩ :=
      exists_rank_eq (if n < 0 then .negative else .positive) positive room
    have finite : isFinite x = true := by
      rw [isFinite, place]
      exact decide_eq_true room
    refine ⟨x, finite, ?_⟩
    rw [units, place, ← hn]
    rw [signOf] at sign
    cases negative : isNegative x <;> by_cases below : n < 0 <;>
      simp only [negative, below, Bool.false_eq_true, if_true, if_false, reduceCtorEq] at sign ⊢ <;>
      omega

/-- Between two doubles of even rank there is another. -/
theorem exists_between (hx : isFinite x = true) (hy : isFinite y = true) (less : units x < units y)
    (evenX : rank x % 2 = 0) (evenY : rank y % 2 = 0) :
    ∃ z, isFinite z = true ∧ units x < units z ∧ units z < units y := by
  have sizeX := natAbs_units x
  have sizeY := natAbs_units y
  have roomX : rank x < infiniteRank := of_decide_eq_true hx
  have roomY : rank y < infiniteRank := of_decide_eq_true hy
  by_cases positive : 0 ≤ units x
  · -- The double behind the lower one.
    have order : rank x < rank y := strictMono_magnitude.lt_iff_lt.mp (by omega)
    have next := magnitude_lt_succ (rank x)
    have last : magnitude (rank x + 1) < magnitude (rank y) := strictMono_magnitude (by omega)
    obtain ⟨z, hz, place⟩ := exists_units_eq (n := magnitude (rank x + 1)) (Int.natAbs_natCast _)
      (show rank x + 1 < infiniteRank by omega)
    exact ⟨z, hz, by omega, by omega⟩
  by_cases negative : units y ≤ 0
  · -- The double in front of the upper one.
    have order : rank y < rank x := strictMono_magnitude.lt_iff_lt.mp (by omega)
    have next := magnitude_lt_succ (rank y)
    have last : magnitude (rank y + 1) < magnitude (rank x) := strictMono_magnitude (by omega)
    obtain ⟨z, hz, place⟩ := exists_units_eq (n := -magnitude (rank y + 1)) (by omega)
      (show rank y + 1 < infiniteRank by omega)
    exact ⟨z, hz, by omega, by omega⟩
  · obtain ⟨z, hz, place⟩ := exists_units_eq (n := 0) (r := 0) rfl (by decide)
    exact ⟨z, hz, by omega, by omega⟩

theorem IsNearest.value_le (hx : IsNearest x q) (hy : IsNearest y q) : value y ≤ value x := by
  refine le_of_not_gt fun less => ?_
  have tie := le_antisymm (hx.closest y hy.finite) (hy.closest x hx.finite)
  have evenX := (hx.even y hy.finite tie).resolve_left less.ne'
  have evenY := (hy.even x hx.finite tie.symm).resolve_left less.ne
  obtain ⟨z, hz, low, high⟩ :=
    exists_between hx.finite hy.finite ((value_lt_iff hx.finite hy.finite).mp less) evenX evenY
  rw [← value_lt_iff hx.finite hz] at low
  rw [← value_lt_iff hz hy.finite] at high
  -- The number lies midway, and what lies between is closer.
  have middle : q - value x = value y - q := by
    rcases abs_eq_abs.mp tie with same | opposite <;> linarith
  have far : |q - value x| = q - value x := abs_of_pos (by linarith)
  have near : |q - value z| < q - value x := abs_lt.mpr ⟨by linarith, by linarith⟩
  linarith [hx.closest z hz]

/-- A number has one nearest double, but for the sign of zero. -/
theorem IsNearest.unique (hx : IsNearest x q) (hy : IsNearest y q) : value x = value y :=
  le_antisymm (hy.value_le hx) (hx.value_le hy)

end

end DesignMarkup.Double
