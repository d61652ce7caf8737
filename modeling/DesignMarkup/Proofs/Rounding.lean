import DesignMarkup.Proofs.NearestDoubles

/-!
# Rounding

Products and quotients are computed exactly, cut to the 53 bits of a mantissa and rounded by what
was cut off. Two bits tell enough of that: where the product or quotient rounds to a finite
double, that double comes out.
-/

namespace DesignMarkup.Double

open Float.Model UnpackedFloat
open Decimal (RoundsTo lowEnd highEnd)

/-! ## What was cut off -/

/-- What two bits tell of a part that was cut off: the first is set where it reaches one half, the
second where it is neither nothing nor one half. -/
def Tells : Bool → Bool → ℚ → Prop
  | false, false, part => part = 0
  | false, true, part => 0 < part ∧ part < 1 / 2
  | true, false, part => part = 1 / 2
  | true, true, part => 1 / 2 < part ∧ part < 1

/-- A mantissa and its two bits mark a number. -/
def Marks (em : ExtendedMantissa) (t : ℚ) : Prop := Tells em.roundBit em.stickyBit (t - em.mantissa)

/-- A whole number next to a number, a tie going to the even one. -/
structure IsRounded (t : ℚ) (n : Nat) : Prop where
  low : (2 * n : ℚ) ≤ 2 * t + 1
  high : 2 * t ≤ 2 * n + 1
  even : 2 * t + 1 = 2 * n ∨ 2 * t = 2 * n + 1 → n % 2 = 0

section

variable {round sticky : Bool} {part : ℚ}

theorem Tells.bounds (h : Tells round sticky part) : 0 ≤ part ∧ part < 1 := by
  cases round <;> cases sticky <;> simp only [Tells] at h
  · constructor <;> linarith
  · constructor <;> linarith [h.1, h.2]
  · constructor <;> linarith
  · constructor <;> linarith [h.1, h.2]

/-- The bits when one more bit is cut off, which was not set. -/
theorem Tells.half (h : Tells round sticky part) : Tells false (round || sticky) (part / 2) := by
  cases round <;> cases sticky <;> simp only [Tells, Bool.or_false, Bool.or_true] at h ⊢
  · linarith
  · constructor <;> linarith [h.1, h.2]
  · constructor <;> linarith
  · constructor <;> linarith [h.1, h.2]

/-- The bits when one more bit is cut off, which was set. -/
theorem Tells.half_succ (h : Tells round sticky part) :
    Tells true (round || sticky) ((part + 1) / 2) := by
  cases round <;> cases sticky <;> simp only [Tells, Bool.or_false, Bool.or_true] at h ⊢
  · linarith
  · constructor <;> linarith [h.1, h.2]
  · constructor <;> linarith
  · constructor <;> linarith [h.1, h.2]

end

section

variable {em : ExtendedMantissa} {t : ℚ}

theorem Marks.bounds (h : Marks em t) : (em.mantissa : ℚ) ≤ t ∧ t < em.mantissa + 1 := by
  obtain ⟨low, high⟩ := Tells.bounds h
  constructor <;> linarith

theorem Marks.shiftRightOne (h : Marks em t) : Marks em.shiftRightOne (t / 2) := by
  obtain ⟨m, round, sticky⟩ := em
  have whole : (m : ℚ) = 2 * (m / 2 : Nat) + (m % 2 : Nat) := by
    exact_mod_cast (Nat.div_add_mod m 2).symm
  show Tells (m % 2 != 0) (round || sticky) (t / 2 - (m / 2 : Nat))
  rcases Nat.mod_two_eq_zero_or_one m with even | odd
  · have cut : t / 2 - (m / 2 : Nat) = (t - m) / 2 := by
      rw [whole, even]
      push_cast
      ring
    rw [even, cut]
    exact Tells.half h
  · have cut : t / 2 - (m / 2 : Nat) = (t - m + 1) / 2 := by
      rw [whole, odd]
      push_cast
      ring
    rw [odd, cut]
    exact Tells.half_succ h

theorem Marks.shiftRight (h : Marks em t) (n : Nat) : Marks (em >>> n) (t / 2 ^ n) := by
  show Marks (n.repeat ExtendedMantissa.shiftRightOne em) _
  induction n with
  | zero => simpa [Nat.repeat] using h
  | succ n ih =>
      rw [Nat.repeat, pow_succ, ← div_div]
      exact ih.shiftRightOne

/-- The bits tell how to round. -/
theorem Marks.isRounded (h : Marks em t) : IsRounded t em.roundedMantissa := by
  obtain ⟨m, round, sticky⟩ := em
  have down (below : (m : ℚ) ≤ t) (near : t < m + 1 / 2) : IsRounded t m := by
    refine ⟨by linarith, by linarith, ?_⟩
    rintro (tie | tie) <;> linarith
  cases round with
  | false =>
      cases sticky with
      | false =>
          have exact : t - m = 0 := h
          exact down (by linarith) (by linarith)
      | true =>
          obtain ⟨low, high⟩ : 0 < t - m ∧ t - m < 1 / 2 := h
          exact down (by linarith) (by linarith)
  | true =>
      cases sticky with
      | false =>
          have half : t - m = 1 / 2 := h
          show IsRounded t (m + m % 2)
          rcases Nat.mod_two_eq_zero_or_one m with even | odd
          · rw [even, Nat.add_zero]
            exact ⟨by linarith, by linarith, fun _ => even⟩
          · rw [odd]
            refine ⟨?_, ?_, fun _ => by omega⟩ <;> push_cast <;> linarith
      | true =>
          obtain ⟨low, high⟩ : 1 / 2 < t - m ∧ t - m < 1 := h
          show IsRounded t (m + 1)
          refine ⟨?_, ?_, ?_⟩ <;> push_cast
          · linarith
          · linarith
          · rintro (tie | tie) <;> linarith

end

/-! ## Rounding on the grid of an exponent -/

section

variable {q t : ℚ} {n k : Nat} {e : Int}

theorem rankOf_mod_two (n : Nat) (e : Int) : rankOf n e % 2 = n % 2 := by
  rw [rankOf]
  omega

def step (e : Int) : ℚ := (2 ^ (e + 1074).toNat : Nat)

theorem step_pos (e : Int) : 0 < step e := Nat.cast_pos.mpr (Nat.pow_pos (by decide))

theorem cast_magnitude_rankOf (bits : n ≤ 2 ^ 53) (full : 2 ^ 52 ≤ n ∨ e = -1074) :
    (magnitude (rankOf n e) : ℚ) = n * step e := by
  rw [magnitude_rankOf bits full, Nat.cast_mul, step]

/-- The midpoint above is that of the grid. What is rounded up to the next power of two lies
below the double. -/
theorem high_of_isRounded (rounded : IsRounded t n) (below : t < 2 ^ 53) (bits : n ≤ 2 ^ 53)
    (full : 2 ^ 52 ≤ n ∨ e = -1074) :
    2 * (t * step e) ≤ highEnd (rankOf n e) ∧
      (2 * (t * step e) = highEnd (rankOf n e) → n % 2 = 0) := by
  have positive := step_pos e
  rcases Nat.lt_or_eq_of_le bits with less | carried
  · have next : rankOf n e + 1 = rankOf (n + 1) e := Nat.add_assoc _ _ _
    have ends : (highEnd (rankOf n e) : ℚ) = (2 * n + 1) * step e := by
      rw [highEnd, next, Nat.cast_add, cast_magnitude_rankOf bits full,
        cast_magnitude_rankOf less (by omega)]
      push_cast
      ring
    rw [ends, ← mul_assoc]
    refine ⟨mul_le_mul_of_nonneg_right rounded.high positive.le, fun tie => ?_⟩
    exact rounded.even (Or.inr (mul_right_cancel₀ positive.ne' tie))
  · have less : 2 * (t * step e) < highEnd (rankOf n e) := by
      refine lt_trans ?_ (Nat.cast_lt.mpr (lt_highEnd (rankOf n e)))
      rw [Nat.cast_mul, cast_magnitude_rankOf bits full, carried]
      push_cast
      linarith [mul_lt_mul_of_pos_right below positive]
    exact ⟨less.le, fun tie => absurd tie less.ne⟩

/-- The midpoint below is that of the grid, unless the grid becomes finer there. Then nothing that
lies below the double was rounded. -/
theorem low_of_isRounded (rounded : IsRounded t n) (some : 0 < n) (bits : n ≤ 2 ^ 53)
    (full : 2 ^ 52 ≤ n ∨ e = -1074) (above : 2 ^ 52 ≤ t ∨ e = -1074) :
    lowEnd (rankOf n e) ≤ 2 * (t * step e) ∧
      (2 * (t * step e) = lowEnd (rankOf n e) → n % 2 = 0) := by
  have positive := step_pos e
  by_cases fine : n = 2 ^ 52 ∧ e ≠ -1074
  · have least : (n : ℚ) ≤ t := by
      rw [fine.1]
      exact_mod_cast above.resolve_right fine.2
    have less : (lowEnd (rankOf n e) : ℚ) < 2 * (t * step e) := by
      refine lt_of_lt_of_le (Nat.cast_lt.mpr (lowEnd_lt (rankOf_pos some))) ?_
      rw [Nat.cast_mul, cast_magnitude_rankOf bits full]
      push_cast
      linarith [mul_le_mul_of_nonneg_right least positive.le]
    exact ⟨less.le, fun tie => absurd tie less.ne'⟩
  · obtain ⟨m, rfl⟩ := Nat.exists_eq_succ_of_ne_zero some.ne'
    have previous : rankOf (m + 1) e - 1 = rankOf m e := by
      rw [rankOf, rankOf]
      omega
    have ends : (lowEnd (rankOf (m + 1) e) : ℚ) = (2 * m + 1) * step e := by
      rw [lowEnd, previous, Nat.cast_add, cast_magnitude_rankOf bits full,
        cast_magnitude_rankOf (by omega) (by omega)]
      push_cast
      ring
    have low := rounded.low
    push_cast at low
    rw [ends, ← mul_assoc]
    refine ⟨mul_le_mul_of_nonneg_right (by linarith) positive.le, fun tie => ?_⟩
    have same := mul_right_cancel₀ positive.ne' tie
    refine rounded.even (Or.inl ?_)
    push_cast
    linarith

/-- A number that is rounded on the grid of its exponent rounds to that double. -/
theorem roundsTo_of_isRounded (least : -1074 ≤ e) (rounded : IsRounded (q / 2 ^ e) n)
    (some : 0 < n) (below : q / 2 ^ e < 2 ^ 53) (above : 2 ^ 52 ≤ q / 2 ^ e ∨ e = -1074) :
    RoundsTo q (rankOf n e) := by
  have scaled : q * unitsPerOne = q / 2 ^ e * step e := by
    rw [step, ← zpow_mul_unitsPerOne least, ← mul_assoc,
      div_mul_cancel₀ q (zpow_ne_zero e two_ne_zero)]
  have bits : n ≤ 2 ^ 53 := by
    have : (n : ℚ) < 2 ^ 53 + 1 := by linarith [rounded.low]
    exact Nat.lt_succ_iff.mp (by exact_mod_cast this)
  have full : 2 ^ 52 ≤ n ∨ e = -1074 := by
    refine above.imp_left fun above => ?_
    have : (2 ^ 52 : ℚ) < n + 1 := by linarith [rounded.high]
    exact Nat.lt_succ_iff.mp (by exact_mod_cast this)
  obtain ⟨low, tieLow⟩ := low_of_isRounded rounded some bits full above
  obtain ⟨high, tieHigh⟩ := high_of_isRounded rounded below bits full
  rw [roundsTo_iff, scaled, rankOf_mod_two]
  exact ⟨low, high, fun tie => tie.elim tieLow tieHigh⟩

end

/-! ## Rounding what was cut -/

section

variable {q : ℚ} {m n r : Nat} {e : Int} {accuracy : Accuracy}

theorem marks_exact (m : Nat) : Marks (.ofMantissaAndAccuracy m .exact) m := sub_self (m : ℚ)

/-- What is left of a mantissa has 53 bits, or the exponent is the least one. -/
theorem shiftToTargetExponent_marks (enough : 2 ^ 52 ≤ m ∨ e ≤ -1074)
    (cut : Marks (.ofMantissaAndAccuracy m accuracy) (q / 2 ^ e)) :
    ∃ first, shiftToTargetExponent Format.binary64 m e accuracy = first ∧ -1074 ≤ first.2 ∧
      first.1.mantissa < 2 ^ 53 ∧ (2 ^ 52 ≤ first.1.mantissa ∨ first.2 = -1074) ∧
      Marks first.1 (q / 2 ^ first.2) := by
  obtain ⟨bits, exponent⟩ := shiftToTargetExponent_spec m e accuracy
  have left := mantissa_shiftToTargetExponent m e accuracy
  have marks : Marks (shiftToTargetExponent Format.binary64 m e accuracy).1
      (q / 2 ^ (shiftToTargetExponent Format.binary64 m e accuracy).2) := by
    rw [shiftToTargetExponent, shiftToExponent]
    dsimp only
    rw [zpow_add₀ two_ne_zero, zpow_natCast, ← div_div]
    exact cut.shiftRight _
  refine ⟨_, rfl, ?_⟩
  generalize shiftToTargetExponent Format.binary64 m e accuracy = first at *
  refine ⟨by omega, bits, ?_, marks⟩
  by_cases lowest : first.2 = -1074
  · exact Or.inr lowest
  · have log : 52 ≤ m.log2 := by
      rcases enough with full | low
      · exact (Nat.le_log2 (by omega)).mpr full
      · omega
    have some : m ≠ 0 := by
      rintro rfl
      simp at log
    have dropped : (first.2 - e).toNat = m.log2 - 52 := by omega
    rw [left, dropped, Nat.le_div_iff_mul_le (Nat.pow_pos (by decide)), ← Nat.pow_add,
      Nat.add_sub_cancel' log]
    exact Or.inl (Nat.log2_self_le some)

/-- Rounding up may give a mantissa one more bit, which a second shift takes back. -/
theorem shiftToTargetExponent_rounded (bits : n ≤ 2 ^ 53) (some : 0 < n)
    (full : 2 ^ 52 ≤ n ∨ e = -1074) (least : -1074 ≤ e) :
    ∃ last, shiftToTargetExponent Format.binary64 n e .exact = last ∧
      IsCanonical last.1.mantissa last.2 ∧ last.1.mantissa ≠ 0 ∧
      rankOf last.1.mantissa last.2 = rankOf n e := by
  obtain ⟨-, exponent⟩ := shiftToTargetExponent_spec n e .exact
  have left := mantissa_shiftToTargetExponent n e .exact
  refine ⟨_, rfl, ?_⟩
  generalize shiftToTargetExponent Format.binary64 n e .exact = last at *
  rcases Nat.lt_or_eq_of_le bits with less | carried
  · have log := log2_le_of_lt (k := 52) less
    have kept : last.2 = e := by omega
    rw [kept, Int.sub_self, Int.toNat_zero, Nat.pow_zero, Nat.div_one] at left
    rw [kept, left]
    exact ⟨⟨least, less, full⟩, some.ne', rfl⟩
  · have log : n.log2 = 53 := by rw [carried, Nat.log2_two_pow]
    have next : last.2 = e + 1 := by omega
    have one : (e + 1 - e).toNat = 1 := by omega
    rw [next, one, carried] at left
    have half : last.1.mantissa = 2 ^ 52 := left
    rw [next, half, carried, rankOf, rankOf]
    exact ⟨⟨by omega, by decide, Or.inl le_rfl⟩, by decide, by omega⟩

/-- What rounds to a positive double is not rounded to nothing. -/
theorem some_of_roundsTo (h : RoundsTo q r) (positive : 0 < r)
    (rounded : IsRounded (q / 2 ^ (-1074 : Int)) n) : 0 < n := by
  have one : (2 : ℚ) ^ (-1074 : Int) * unitsPerOne = (1 : Nat) := zpow_mul_unitsPerOne le_rfl
  have scaled : q / 2 ^ (-1074 : Int) = q * unitsPerOne := by
    rw [div_eq_iff (zpow_ne_zero _ two_ne_zero), mul_assoc, mul_comm (unitsPerOne : ℚ), one,
      Nat.cast_one, mul_one]
  obtain ⟨low, -, ends⟩ := roundsTo_iff.mp h
  rw [← scaled] at low ends
  have far : 2 * r - 1 ≤ lowEnd r := by
    have first : r - 1 ≤ magnitude (r - 1) := strictMono_magnitude.le_apply
    have second : r ≤ magnitude r := strictMono_magnitude.le_apply
    rw [lowEnd]
    omega
  apply Nat.pos_of_ne_zero
  rintro rfl
  have near := rounded.high
  rw [Nat.cast_zero, mul_zero, zero_add] at near
  have tiny : lowEnd r ≤ 1 := by exact_mod_cast low.trans near
  have least : lowEnd r = 1 := by omega
  -- Half a unit is a tie, and goes to zero.
  rw [least, Nat.cast_one] at low ends
  have even := ends (Or.inl (le_antisymm near low))
  omega

/-- A number that rounds to a positive double is rounded to its parts. -/
theorem roundWithAccuracy_of_roundsTo (s : Sign) (enough : 2 ^ 52 ≤ m ∨ e ≤ -1074)
    (cut : Marks (.ofMantissaAndAccuracy m accuracy) (q / 2 ^ e)) (h : RoundsTo q r)
    (positive : 0 < r) : ∃ n f hn, IsCanonical n f ∧ rankOf n f = r ∧
      roundWithAccuracy Format.binary64 s m e accuracy = .finite s n f hn := by
  obtain ⟨first, shifted, least, bits, full, marks⟩ := shiftToTargetExponent_marks enough cut
  have rounded := marks.isRounded
  have up := roundedMantissa_le first.1
  have down := le_roundedMantissa first.1
  have some : 0 < first.1.roundedMantissa := by
    rcases full with full | lowest
    · omega
    · rw [lowest] at rounded
      exact some_of_roundsTo h positive rounded
  obtain ⟨low, high⟩ := marks.bounds
  have place : RoundsTo q (rankOf first.1.roundedMantissa first.2) := by
    refine roundsTo_of_isRounded least rounded some ?_ (full.imp_left fun full => ?_)
    · have : (first.1.mantissa : ℚ) + 1 ≤ 2 ^ 53 := by exact_mod_cast bits
      linarith
    · have : (2 ^ 52 : ℚ) ≤ first.1.mantissa := by exact_mod_cast full
      linarith
  obtain ⟨last, again, canonical, nonzero, same⟩ := shiftToTargetExponent_rounded
    (by omega) some (full.imp_left fun full => by omega) least
  refine ⟨last.1.mantissa, last.2, Nat.pos_of_ne_zero nonzero, canonical, ?_,
    roundWithAccuracy_eq shifted again nonzero⟩
  rw [same]
  exact place.unique h

end

/-! ## Products and quotients -/

section

variable {m n r : Nat} {e f : Int}

theorem mul_of_roundsTo (s t : Sign) (hm : 0 < m) (hn : 0 < n)
    (enough : 2 ^ 52 ≤ m * n ∨ e + f ≤ -1074) (h : RoundsTo (m * 2 ^ e * (n * 2 ^ f)) r)
    (positive : 0 < r) : ∃ k g hk, IsCanonical k g ∧ rankOf k g = r ∧
      UnpackedFloat.mul Format.binary64 (.finite s m e hm) (.finite t n f hn)
        = .finite (s * t) k g hk := by
  rw [mul_finite]
  refine roundWithAccuracy_of_roundsTo (s * t) enough ?_ h positive
  have exact : (m * 2 ^ e * (n * 2 ^ f) / 2 ^ (e + f) : ℚ) = (m * n : Nat) := by
    rw [zpow_add₀ two_ne_zero, Nat.cast_mul]
    have hx := zpow_ne_zero e (two_ne_zero (α := ℚ))
    have hy := zpow_ne_zero f (two_ne_zero (α := ℚ))
    field_simp
  rw [exact]
  exact marks_exact (m * n)

/-- What remains of a division tells what was cut off. -/
theorem marks_quotient (hn : 0 < n) :
    Marks (.ofMantissaAndAccuracy (m / n) (accuracyOfFraction (m % n) n)) (m / n : ℚ) := by
  have less : m % n < n := Nat.mod_lt m hn
  have pos : (0 : ℚ) < n := Nat.cast_pos.mpr hn
  have part : (m / n : ℚ) - (m / n : Nat) = (m % n : Nat) / n := by
    rw [eq_div_iff pos.ne', sub_mul, div_mul_cancel₀ _ pos.ne', sub_eq_iff_eq_add]
    exact_mod_cast (Nat.mod_add_div' m n).symm
  unfold accuracyOfFraction
  by_cases zero : m % n = 0
  · rw [if_pos zero]
    show _ - _ = (0 : ℚ)
    rw [mantissa_ofMantissaAndAccuracy, part, zero, Nat.cast_zero, zero_div]
  rw [if_neg zero]
  have some : (0 : ℚ) < (m % n : Nat) / n := div_pos (Nat.cast_pos.mpr (Nat.pos_of_ne_zero zero)) pos
  rcases lt_trichotomy (2 * (m % n)) n with below | half | above
  · rw [compare_lt_iff_lt.mpr below]
    show 0 < _ - _ ∧ _ - _ < _
    rw [mantissa_ofMantissaAndAccuracy, part, div_lt_div_iff₀ pos two_pos]
    exact ⟨some, by exact_mod_cast (by omega)⟩
  · rw [compare_eq_iff_eq.mpr half]
    show _ - _ = _
    rw [mantissa_ofMantissaAndAccuracy, part, div_eq_div_iff pos.ne' two_ne_zero]
    exact_mod_cast (by omega)
  · rw [compare_gt_iff_gt.mpr above]
    show _ < _ - _ ∧ _ - _ < 1
    rw [mantissa_ofMantissaAndAccuracy, part, div_lt_div_iff₀ two_pos pos, div_lt_one₀ pos]
    exact ⟨by exact_mod_cast (by omega), Nat.cast_lt.mpr less⟩

theorem div_of_roundsTo (s t : Sign) (hm : 0 < m) (hn : 0 < n)
    (h : RoundsTo (m * 2 ^ e / (n * 2 ^ f)) r) (positive : 0 < r) :
    ∃ k g hk, IsCanonical k g ∧ rankOf k g = r ∧
      UnpackedFloat.div Format.binary64 (.finite s m e hm) (.finite t n f hn)
        = .finite (s / t) k g hk := by
  have core : UnpackedFloat.div Format.binary64 (.finite s m e hm) (.finite t n f hn)
      = roundWithAccuracy Format.binary64 (s / t) (divCore Format.binary64 m e n f).1
          (divCore Format.binary64 m e n f).2.1 (divCore Format.binary64 m e n f).2.2 := rfl
  have target : Format.binary64.targetExponent (totalExponent m e - totalExponent n f)
      = max ((m.log2 + 1 + e) - (n.log2 + 1 + f) - 53) (-1074) := rfl
  rw [core, divCore, target]
  dsimp only
  generalize least : min (e - f) (max ((m.log2 + 1 + e) - (n.log2 + 1 + f) - 53) (-1074) : Int) = g
  generalize shift : (e - f - g).toNat = k
  rw [Nat.shiftLeft_eq]
  refine roundWithAccuracy_of_roundsTo (s / t) ?_ ?_ h positive
  · by_cases low : g ≤ -1074
    · exact Or.inr low
    · left
      rw [Nat.le_div_iff_mul_le hn]
      calc 2 ^ 52 * n
          ≤ 2 ^ 52 * 2 ^ (n.log2 + 1) := Nat.mul_le_mul_left _ Nat.lt_log2_self.le
        _ = 2 ^ (52 + (n.log2 + 1)) := (Nat.pow_add 2 _ _).symm
        _ ≤ 2 ^ (m.log2 + k) := Nat.pow_le_pow_right (by decide) (by omega)
        _ = 2 ^ m.log2 * 2 ^ k := Nat.pow_add 2 _ _
        _ ≤ m * 2 ^ k := Nat.mul_le_mul_right _ (Nat.log2_self_le hm.ne')
  · have exact : (m * 2 ^ e / (n * 2 ^ f) / 2 ^ g : ℚ) = (m * 2 ^ k : Nat) / n := by
      have places : e = f + g + k := by omega
      rw [places, zpow_add₀ two_ne_zero, zpow_add₀ two_ne_zero, zpow_natCast]
      have hx := zpow_ne_zero f (two_ne_zero (α := ℚ))
      have hy := zpow_ne_zero g (two_ne_zero (α := ℚ))
      have hz : (n : ℚ) ≠ 0 := Nat.cast_ne_zero.mpr hn.ne'
      push_cast
      field_simp
    rw [exact]
    exact marks_quotient hn

end

/-! ## Positive doubles -/

structure IsPositive (x : Float) (q : ℚ) : Prop where
  finite : isFinite x = true
  positive : 0 < rank x
  sign : signOf x = .positive
  value_eq : value x = q

section

variable {x y : Float} {a b q : ℚ} {m r : Nat} {e : Int}

theorem IsPositive.exists_unpack (h : IsPositive x q) : ∃ m e hm, IsCanonical m e ∧
    (m * 2 ^ e : ℚ) = q ∧ x.toModel.unpack = .finite .positive m e hm := by
  rcases unpack_cases h.finite with ⟨zero, -⟩ | ⟨m, e, hm, canonical, -, parts⟩
  · exact absurd zero h.positive.ne'
  · rw [h.sign] at parts
    refine ⟨m, e, hm, canonical, ?_, parts⟩
    rw [← h.value_eq, value, parts]
    rfl

theorem mul_zpow_div_zpow (m : Nat) (e : Int) : (m * 2 ^ e / 2 ^ e : ℚ) = m :=
  mul_div_cancel_right₀ _ (zpow_ne_zero e two_ne_zero)

/-- A number in canonical form is a double. -/
theorem roundsTo_canonical (h : IsCanonical m e) (some : 0 < m) :
    RoundsTo (m * 2 ^ e) (rankOf m e) := by
  refine roundsTo_of_isRounded h.least ?_ some ?_ ?_ <;> rw [mul_zpow_div_zpow]
  · refine ⟨by linarith, by linarith, ?_⟩
    rintro (tie | tie) <;> linarith
  · exact_mod_cast h.bits
  · exact h.full.imp_left fun full => by exact_mod_cast full

theorem isPositive_pack (h : IsCanonical m e) (hm : 0 < m) (room : rankOf m e < infiniteRank) :
    IsPositive (Float.ofModel (.pack (.finite .positive m e hm))) (m * 2 ^ e) := by
  obtain ⟨place, sign⟩ := rank_pack (s := .positive) h hm room
  have some : 0 < rankOf m e := rankOf_pos hm
  have finite : isFinite (Float.ofModel (.pack (.finite .positive m e hm))) = true := by
    rw [isFinite, place]
    exact decide_eq_true room
  refine ⟨finite, place ▸ some, sign, ?_⟩
  rcases unpack_cases finite with ⟨zero, -⟩ | ⟨n, f, hn, canonical, same, parts⟩
  · omega
  · obtain ⟨rfl, rfl⟩ := canonical.unique h (same.trans place)
    rw [value, parts, sign]
    rfl

/-- The product of positive doubles is the double that the product of their numbers rounds to. -/
theorem rank_mul (hx : IsPositive x a) (hy : IsPositive y b) (h : RoundsTo (a * b) r)
    (positive : 0 < r) (room : r < infiniteRank) :
    rank (x * y) = r ∧ signOf (x * y) = .positive := by
  obtain ⟨m, e, hm, canonicalX, rfl, partsX⟩ := hx.exists_unpack
  obtain ⟨n, f, hn, canonicalY, rfl, partsY⟩ := hy.exists_unpack
  have enough : 2 ^ 52 ≤ m * n ∨ e + f ≤ -1074 := by
    rcases canonicalX.full with full | lowest
    · exact Or.inl (full.trans (Nat.le_mul_of_pos_right m hn))
    · rcases canonicalY.full with full | lowest'
      · exact Or.inl (full.trans (Nat.le_mul_of_pos_left n hm))
      · right
        omega
  obtain ⟨k, g, hk, canonical, rfl, product⟩ :=
    mul_of_roundsTo .positive .positive hm hn enough h positive
  have packed : x * y = Float.ofModel (.pack (.finite .positive k g hk)) := by
    show Float.ofModel (.pack (UnpackedFloat.mul _ x.toModel.unpack y.toModel.unpack)) = _
    rw [partsX, partsY, product]
    rfl
  rw [packed]
  exact rank_pack canonical hk room

/-- The quotient of positive doubles is the double that the quotient of their numbers rounds to. -/
theorem rank_div (hx : IsPositive x a) (hy : IsPositive y b) (h : RoundsTo (a / b) r)
    (positive : 0 < r) (room : r < infiniteRank) :
    rank (x / y) = r ∧ signOf (x / y) = .positive := by
  obtain ⟨m, e, hm, -, rfl, partsX⟩ := hx.exists_unpack
  obtain ⟨n, f, hn, -, rfl, partsY⟩ := hy.exists_unpack
  obtain ⟨k, g, hk, canonical, rfl, quotient⟩ := div_of_roundsTo .positive .positive hm hn h positive
  have packed : x / y = Float.ofModel (.pack (.finite .positive k g hk)) := by
    show Float.ofModel (.pack (UnpackedFloat.div _ x.toModel.unpack y.toModel.unpack)) = _
    rw [partsX, partsY, quotient]
    rfl
  rw [packed]
  exact rank_pack canonical hk room

end

end DesignMarkup.Double
