import Mathlib.Algebra.Group.Nat.Defs
import DesignMarkup.Decimal.Double

/-!
# The size of doubles

A double is bounded by the exponent in its bits. `Below k` says that a double is finite and
less than 2^k in size. Sums and products of such doubles are below a larger power: the bounds
here are rough, for nothing that is reckoned with them comes near the end of the range.
-/

namespace DesignMarkup.Double

open Float.Model UnpackedFloat

theorem twoTo_add (m n : Nat) : twoTo (m + n) = twoTo m * twoTo n := Nat.pow_add 2 m n

theorem twoTo_pos (n : Nat) : 0 < twoTo n := Nat.pow_pos (by decide)

/-! ## The exponent in the bits -/

/-- The exponent in the bits of a double, which is 2047 for infinities and what is no
number. -/
def exponentField (x : Float) : Nat := rank x / twoTo 52

/-- The double is finite and less than 2^k in size. -/
def Below (k : Nat) (x : Float) : Prop := exponentField x ≤ 1022 + k

theorem exponentField_eq (x : Float) :
    exponentField x = (@unpackExponent Format.binary64 x.toBits.toBitVec).toNat := by
  have low : x.toBits.toNat < 2 ^ 64 := x.toBits.toNat_lt
  simp only [exponentField, rank, twoTo, unpackExponent, BitVec.toNat_cast,
    BitVec.extractLsb_toNat, UInt64.toNat_toBitVec, Nat.shiftRight_eq_div_pow]
  show x.toBits.toNat % 2 ^ 63 / 2 ^ 52 = x.toBits.toNat / 2 ^ 52 % 2 ^ (52 + 11 - 1 - 52 + 1)
  omega

theorem isFinite_of_below {k : Nat} {x : Float} (h : Below k x) (hk : k ≤ 1024) :
    isFinite x = true := by
  have field : rank x / 2 ^ 52 ≤ 1022 + k := h
  have : rank x < 2047 * 2 ^ 52 := by omega
  exact decide_eq_true this

theorem below_of_magnitude {k n : Nat} {x : Float} (hn : n < 2 ^ k)
    (h : magnitude (rank x) ≤ n * unitsPerOne) : Below k x := by
  -- An exponent above k would make the magnitude at least 2^k.
  refine Nat.le_of_lt_succ (Nat.lt_of_not_le fun large => ?_)
  have field : 1023 + k ≤ rank x / 2 ^ 52 := by
    have : 1022 + k + 1 ≤ rank x / 2 ^ 52 := large
    omega
  have normal : ¬ rank x < twoTo 52 := by
    have two : twoTo 52 = 2 ^ 52 := rfl
    omega
  have much : twoTo 52 * twoTo (1022 + k) ≤ magnitude (rank x) := by
    rw [magnitude, if_neg normal]
    refine Nat.mul_le_mul (Nat.le_add_right _ _) ?_
    have : 1022 + k ≤ rank x / 2 ^ 52 - 1 := by omega
    exact Nat.pow_le_pow_right (by decide) this
  have power : twoTo 52 * twoTo (1022 + k) = 2 ^ k * unitsPerOne := by
    have exponents : 52 + (1022 + k) = k + 1074 := by omega
    rw [← twoTo_add, exponents, twoTo_add]
    rfl
  have : n * unitsPerOne < 2 ^ k * unitsPerOne :=
    Nat.mul_lt_mul_of_pos_right hn (twoTo_pos 1074)
  omega

/-! ## Unpacked doubles -/

/-- An unpacked double that is less than 2^t in size. -/
def SizeAtMost (t : Int) : UnpackedFloat → Prop
  | .zero _ => True
  | .finite _ m e _ => (m.log2 : Int) + 1 + e ≤ t
  | _ => False

/-- An unpacked double that is a multiple of a small power of two. -/
def ExponentAtMost (t : Int) : UnpackedFloat → Prop
  | .zero _ => True
  | .finite _ _ e _ => e ≤ t
  | _ => False

theorem exponentAtMost_of_size {t : Int} {u : UnpackedFloat} (h : SizeAtMost t u) :
    ExponentAtMost t u := by
  cases u with
  | finite s m e hm =>
      have : (m.log2 : Int) + 1 + e ≤ t := h
      show e ≤ t
      omega
  | zero s => trivial
  | infinity s => exact h
  | notANumber => exact h

theorem log2_le_of_lt {m k : Nat} (h : m < 2 ^ (k + 1)) : m.log2 ≤ k := by
  by_cases zero : m = 0
  · subst zero
    simp
  · have := (Nat.log2_lt zero).mpr h
    omega

theorem sizeAtMost_unpack {k : Nat} {x : Float} (h : Below k x) (hk : k ≤ 1024) :
    SizeAtMost k x.toModel.unpack := by
  have field : (@unpackExponent Format.binary64 x.toBits.toBitVec).toNat ≤ 1022 + k := by
    rw [← exponentField_eq]
    exact h
  have bias : (Format.binary64.exponentBias : Int) = 1023 := rfl
  show SizeAtMost k (UnpackedFloat.unpack Format.binary64 x.toBits.toBitVec)
  unfold UnpackedFloat.unpack
  -- The largest exponent is that of infinities, and this one is smaller.
  have ordinary : @unpackExponent Format.binary64 x.toBits.toBitVec ≠ -1#_ := by
    intro all
    rw [all] at field
    have ones : (-1#11).toNat = 2047 := by decide
    have : (-1#11).toNat ≤ 1022 + k := field
    omega
  dsimp only
  rw [if_neg ordinary]
  by_cases least : @unpackExponent Format.binary64 x.toBits.toBitVec = 0#_
  · rw [if_pos least]
    by_cases zero : @unpackMantissa Format.binary64 x.toBits.toBitVec = 0#_
    · rw [dif_pos zero]
      trivial
    · rw [dif_neg zero]
      have mantissa := (@unpackMantissa Format.binary64 x.toBits.toBitVec).isLt
      have log := log2_le_of_lt mantissa
      rw [least]
      show (Nat.log2 _ : Int) + 1 + ((0 : Nat) - ((Format.binary64.exponentBias : Int) + 52) + 1) ≤ k
      omega
  · rw [if_neg least]
    have mantissa := (1#1 ++ @unpackMantissa Format.binary64 x.toBits.toBitVec).isLt
    have log : Nat.log2 _ ≤ 52 := log2_le_of_lt (by simpa using mantissa)
    show (Nat.log2 _ : Int) + 1 + ((BitVec.toNat _ : Int) - ((Format.binary64.exponentBias : Int) + 52)) ≤ k
    omega

/-- A double that is packed is bounded by the exponent it had. -/
theorem below_pack {k : Nat} {u : UnpackedFloat} (h : ExponentAtMost k u) (hk : k ≤ 971) :
    Below (k + 53) (Float.ofModel (.pack u)) := by
  have bias : (Format.binary64.exponentBias : Int) = 1023 := rfl
  show exponentField _ ≤ _
  rw [exponentField_eq]
  show (unpackExponent (UnpackedFloat.pack Format.binary64 u)).toNat ≤ 1022 + (k + 53)
  cases u with
  | zero s =>
      show (unpackExponent (packedZero Format.binary64 s)).toNat ≤ _
      rw [packedZero, unpackExponent_packComponents]
      exact Nat.zero_le _
  | finite s m e hm =>
      have small : e ≤ k := h
      have reach : (e + (Format.binary64.exponentBias : Int) + (52 : Nat)).toNat ≤ 1022 + (k + 53) := by
        omega
      unfold UnpackedFloat.pack
      dsimp only
      split
      · -- A packed exponent that is out of reach would give an infinity.
        rename_i beyond
        have : 2 ^ 11 ≤ (e + (Format.binary64.exponentBias : Int) + (52 : Nat)).toNat + 1 := beyond
        omega
      · split
        · rw [unpackExponent_packComponents, BitVec.toNat_ofNat]
          exact Nat.le_trans (Nat.mod_le _ _) reach
        · rw [unpackExponent_packComponents]
          exact Nat.zero_le _
  | infinity s => exact h.elim
  | notANumber => exact h.elim

/-! ## Rounding -/

theorem mantissa_shiftRight (em : ExtendedMantissa) (n : Nat) :
    (em >>> n).mantissa = em.mantissa / 2 ^ n := by
  show (n.repeat ExtendedMantissa.shiftRightOne em).mantissa = _
  induction n with
  | zero => simp [Nat.repeat]
  | succ n ih =>
      rw [Nat.repeat, ExtendedMantissa.shiftRightOne, ih, Nat.div_div_eq_div_mul, Nat.pow_succ]

theorem roundedMantissa_le (em : ExtendedMantissa) : em.roundedMantissa ≤ em.mantissa + 1 := by
  obtain ⟨m, round, sticky⟩ := em
  have : m % 2 ≤ 1 := Nat.le_of_lt_succ (Nat.mod_lt m (by decide))
  cases round <;> cases sticky <;> simp only [ExtendedMantissa.roundedMantissa,
    ExtendedMantissa.accuracy, Accuracy.roundToNearestEven] <;> omega

theorem le_roundedMantissa (em : ExtendedMantissa) : em.mantissa ≤ em.roundedMantissa := by
  obtain ⟨m, round, sticky⟩ := em
  cases round <;> cases sticky <;> simp only [ExtendedMantissa.roundedMantissa,
    ExtendedMantissa.accuracy, Accuracy.roundToNearestEven] <;> omega

theorem mantissa_ofMantissaAndAccuracy (m : Nat) (accuracy : Accuracy) :
    (ExtendedMantissa.ofMantissaAndAccuracy m accuracy).mantissa = m := by
  cases accuracy with
  | exact => rfl
  | inexact half => cases half <;> rfl

/-- Shifting to the target leaves 53 bits, at the exponent that they need. -/
theorem shiftToTargetExponent_spec (m : Nat) (e : Int) (accuracy : Accuracy) :
    (shiftToTargetExponent Format.binary64 m e accuracy).1.mantissa < 2 ^ 53 ∧
      (shiftToTargetExponent Format.binary64 m e accuracy).2
        = max e (max (m.log2 + 1 + e - 53) (-1074)) := by
  have target : Format.binary64.targetExponent (totalExponent m e)
      = max (m.log2 + 1 + e - 53) (-1074) := rfl
  rw [shiftToTargetExponent, target, shiftToExponent]
  dsimp only
  rw [mantissa_shiftRight, mantissa_ofMantissaAndAccuracy]
  refine ⟨?_, by omega⟩
  rw [Nat.div_lt_iff_lt_mul (Nat.pow_pos (by decide)), ← Nat.pow_add]
  refine Nat.lt_of_lt_of_le Nat.lt_log2_self (Nat.pow_le_pow_right (by decide) ?_)
  omega

/-- What is left of the mantissa behind a shift to the target. -/
theorem mantissa_shiftToTargetExponent (m : Nat) (e : Int) (accuracy : Accuracy) :
    (shiftToTargetExponent Format.binary64 m e accuracy).1.mantissa
      = m / 2 ^ ((shiftToTargetExponent Format.binary64 m e accuracy).2 - e).toNat := by
  rw [shiftToTargetExponent, shiftToExponent]
  dsimp only
  rw [mantissa_shiftRight, mantissa_ofMantissaAndAccuracy]
  congr 2
  omega

theorem exponentAtMost_roundWithAccuracy {k m : Nat} {e : Int} (s : Sign) (accuracy : Accuracy)
    (h : (m.log2 : Int) + 1 + e ≤ k) :
    ExponentAtMost k (roundWithAccuracy Format.binary64 s m e accuracy) := by
  obtain ⟨bits, exponent⟩ := shiftToTargetExponent_spec m e accuracy
  unfold roundWithAccuracy
  generalize shiftToTargetExponent Format.binary64 m e accuracy = first at bits exponent
  obtain ⟨em, e₁⟩ := first
  dsimp only at bits exponent ⊢
  have rounded : em.roundedMantissa < 2 ^ (53 + 1) := by
    have := roundedMantissa_le em
    omega
  -- Rounding up may carry into one more bit, which a second shift takes back.
  have log := log2_le_of_lt rounded
  obtain ⟨-, again⟩ := shiftToTargetExponent_spec em.roundedMantissa e₁ .exact
  by_cases zero : (shiftToTargetExponent Format.binary64 em.roundedMantissa e₁ .exact).1.mantissa = 0
  · rw [dif_pos zero]
    trivial
  · rw [dif_neg zero]
    show (shiftToTargetExponent Format.binary64 em.roundedMantissa e₁ .exact).2 ≤ k
    omega

theorem shiftLeft_lt {m : Nat} {e k : Int} (least : Int) (h : (m.log2 : Int) + 1 + e ≤ k)
    (hleast : least ≤ e) : m <<< (e - least).toNat < 2 ^ (k - least).toNat := by
  rw [Nat.shiftLeft_eq]
  calc m * 2 ^ (e - least).toNat
      < 2 ^ (m.log2 + 1) * 2 ^ (e - least).toNat :=
        Nat.mul_lt_mul_of_pos_right Nat.lt_log2_self (Nat.pow_pos (by decide))
    _ = 2 ^ (m.log2 + 1 + (e - least).toNat) := (Nat.pow_add 2 _ _).symm
    _ ≤ 2 ^ (k - least).toNat := Nat.pow_le_pow_right (by decide) (by omega)

theorem exponentAtMost_round {k m : Nat} {e : Int} (s : Sign) (h : (m.log2 : Int) + 1 + e ≤ k) :
    ExponentAtMost k (UnpackedFloat.round Format.binary64 s m e) := by
  unfold UnpackedFloat.round decreaseExponent
  dsimp only
  apply exponentAtMost_roundWithAccuracy
  generalize Format.binary64.targetExponent (totalExponent m e) = target
  -- Digits are made up on the right only when the target lies below the exponent.
  by_cases up : e ≤ target
  · have : (e - target).toNat = 0 := by omega
    simpa [this] using h
  · have shifted := shiftLeft_lt target h (by omega)
    have : (k - target).toNat = (k - target).toNat - 1 + 1 := by omega
    rw [this] at shifted
    have log := log2_le_of_lt shifted
    omega

theorem exponentAtMost_normalize {k c : Nat} {mantissa e : Int} (zeroSign : Sign)
    (h : mantissa.natAbs < 2 ^ (c + 1)) (hc : (c : Int) + 1 + e ≤ k) :
    ExponentAtMost k (UnpackedFloat.normalize Format.binary64 mantissa e zeroSign) := by
  have log := log2_le_of_lt h
  unfold UnpackedFloat.normalize
  split
  · apply exponentAtMost_round
    have : (-mantissa).toNat = mantissa.natAbs := by
      rename_i negative
      have := Int.compare_eq_lt.mp negative
      omega
    rw [this]
    omega
  · trivial
  · apply exponentAtMost_round
    have : mantissa.toNat = mantissa.natAbs := by
      rename_i positive
      have := Int.compare_eq_gt.mp positive
      omega
    rw [this]
    omega

/-! ## Operations -/

theorem log2_mul_le (m n : Nat) : (m * n).log2 ≤ m.log2 + 1 + n.log2 := by
  apply log2_le_of_lt
  calc m * n
      < 2 ^ (m.log2 + 1) * 2 ^ (n.log2 + 1) :=
        Nat.mul_lt_mul_of_lt_of_lt Nat.lt_log2_self Nat.lt_log2_self
    _ = 2 ^ (m.log2 + 1 + n.log2 + 1) := (Nat.pow_add 2 _ _).symm

theorem exponentAtMost_mul {j k : Nat} {u v : UnpackedFloat} (hu : SizeAtMost j u)
    (hv : SizeAtMost k v) :
    ExponentAtMost (j + k : Nat) (UnpackedFloat.mul Format.binary64 u v) := by
  cases u with
  | zero s =>
      cases v with
      | zero s' => trivial
      | finite s' n f hn => trivial
      | infinity s' => exact hv.elim
      | notANumber => exact hv.elim
  | finite s m e hm =>
      cases v with
      | zero s' => trivial
      | finite s' n f hn =>
          have hu : (m.log2 : Int) + 1 + e ≤ j := hu
          have hv : (n.log2 : Int) + 1 + f ≤ k := hv
          have log := log2_mul_le m n
          apply exponentAtMost_roundWithAccuracy
          omega
      | infinity s' => exact hv.elim
      | notANumber => exact hv.elim
  | infinity s => exact hu.elim
  | notANumber => exact hu.elim

theorem below_mul {j k : Nat} {x y : Float} (hx : Below j x) (hy : Below k y)
    (h : j + k ≤ 971) : Below (j + k + 53) (x * y) := by
  have hx := sizeAtMost_unpack hx (by omega)
  have hy := sizeAtMost_unpack hy (by omega)
  exact below_pack (exponentAtMost_mul hx hy) h

/-- What is added or subtracted, at a common exponent. -/
theorem exponentAtMost_sum {j k m n : Nat} {e f mantissa : Int} (zeroSign : Sign)
    (hm : (m.log2 : Int) + 1 + e ≤ j) (hn : (n.log2 : Int) + 1 + f ≤ k)
    (sum : mantissa.natAbs
      ≤ m <<< (e - min e f).toNat + n <<< (f - min e f).toNat) :
    ExponentAtMost (max j k + 1 : Nat)
      (normalize Format.binary64 mantissa (min e f) zeroSign) := by
  have hm : (m.log2 : Int) + 1 + e ≤ (max j k : Nat) := by omega
  have hn : (n.log2 : Int) + 1 + f ≤ (max j k : Nat) := by omega
  -- Both parts are brought to the smaller exponent, where one more bit holds their sum.
  have first := shiftLeft_lt (min e f) hm (by omega)
  have second := shiftLeft_lt (min e f) hn (by omega)
  generalize hc : (((max j k : Nat) : Int) - min e f).toNat = c at first second
  refine exponentAtMost_normalize (c := c) zeroSign ?_ (by omega)
  rw [Nat.pow_succ]
  omega

theorem natAbs_apply (s : Sign) (n : Int) : (s.apply n).natAbs = n.natAbs := by
  cases s with
  | negative => exact Int.natAbs_neg n
  | positive => rfl

theorem ExponentAtMost.mono {t t' : Int} {u : UnpackedFloat} (h : ExponentAtMost t u)
    (ht : t ≤ t') : ExponentAtMost t' u := by
  cases u with
  | finite s m e hm => exact Int.le_trans h ht
  | zero s => trivial
  | infinity s => exact h
  | notANumber => exact h

theorem exponentAtMost_add {j k : Nat} {u v : UnpackedFloat} (hu : SizeAtMost j u)
    (hv : SizeAtMost k v) :
    ExponentAtMost (max j k + 1 : Nat) (UnpackedFloat.add Format.binary64 u v) := by
  cases u with
  | zero s =>
      cases v with
      | zero s' => cases s <;> cases s' <;> exact True.intro
      | finite s' n f hn => exact (exponentAtMost_of_size hv).mono (by omega)
      | infinity s' => exact hv.elim
      | notANumber => exact hv.elim
  | finite s m e hm =>
      cases v with
      | zero s' => exact (exponentAtMost_of_size hu).mono (by omega)
      | finite s' n f hn =>
          refine exponentAtMost_sum .positive hu hv (Nat.le_trans (Int.natAbs_add_le _ _) ?_)
          rw [natAbs_apply, natAbs_apply]
          exact Nat.le_refl _
      | infinity s' => exact hv.elim
      | notANumber => exact hv.elim
  | infinity s => exact hu.elim
  | notANumber => exact hu.elim

theorem exponentAtMost_sub {j k : Nat} {u v : UnpackedFloat} (hu : SizeAtMost j u)
    (hv : SizeAtMost k v) :
    ExponentAtMost (max j k + 1 : Nat) (UnpackedFloat.sub Format.binary64 u v) := by
  cases u with
  | zero s =>
      cases v with
      | zero s' => cases s <;> cases s' <;> exact True.intro
      | finite s' n f hn =>
          have hv : ExponentAtMost k (.finite (-s') n f hn) := exponentAtMost_of_size hv
          exact hv.mono (by omega)
      | infinity s' => exact hv.elim
      | notANumber => exact hv.elim
  | finite s m e hm =>
      cases v with
      | zero s' => exact (exponentAtMost_of_size hu).mono (by omega)
      | finite s' n f hn =>
          refine exponentAtMost_sum .positive hu hv (Nat.le_trans (Int.natAbs_sub_le _ _) ?_)
          rw [natAbs_apply, natAbs_apply]
          exact Nat.le_refl _
      | infinity s' => exact hv.elim
      | notANumber => exact hv.elim
  | infinity s => exact hu.elim
  | notANumber => exact hu.elim

theorem below_add {j k : Nat} {x y : Float} (hx : Below j x) (hy : Below k y)
    (h : max j k ≤ 970) : Below (max j k + 54) (x + y) := by
  have hx := sizeAtMost_unpack hx (by omega)
  have hy := sizeAtMost_unpack hy (by omega)
  exact below_pack (exponentAtMost_add hx hy) (by omega)

theorem below_sub {j k : Nat} {x y : Float} (hx : Below j x) (hy : Below k y)
    (h : max j k ≤ 970) : Below (max j k + 54) (x - y) := by
  have hx := sizeAtMost_unpack hx (by omega)
  have hy := sizeAtMost_unpack hy (by omega)
  exact below_pack (exponentAtMost_sub hx hy) (by omega)

theorem below_neg {k : Nat} {x : Float} (hx : Below k x) (h : k ≤ 971) :
    Below (k + 53) (-x) := by
  have hx := exponentAtMost_of_size (sizeAtMost_unpack hx (by omega))
  refine below_pack (u := x.toModel.unpack.neg) ?_ h
  generalize x.toModel.unpack = u at hx
  cases u with
  | finite s m e hm => exact hx
  | zero s => trivial
  | infinity s => exact hx
  | notANumber => exact hx

/-! ## Whole numbers -/

theorem Below.mono {j k : Nat} {x : Float} (h : Below j x) (hjk : j ≤ k) : Below k x :=
  Nat.le_trans h (Nat.add_le_add_left hjk 1022)

theorem mul_finite (s t : Sign) (m n : Nat) (e f : Int) (hm : 0 < m) (hn : 0 < n) :
    UnpackedFloat.mul Format.binary64 (.finite s m e hm) (.finite t n f hn)
      = roundWithAccuracy Format.binary64 (s * t) (m * n) (e + f) .exact :=
  rfl

theorem ofScientific_eq_mul {n : Nat} (hn : n ≠ 0) :
    ∃ m h, m = n * 2 ^ 53 ∧ UnpackedFloat.ofScientific Format.binary64 n 0
      = UnpackedFloat.mul Format.binary64 (.finite .positive m (-53) h)
          (.finite .positive 1 0 (by decide)) := by
  have notHuge : ¬ (0 : Int) > 2 ^ Format.binary64.exponentBits := by decide
  have notTiny : ¬ (0 : Int) < -((2 ^ Format.binary64.exponentBits : Int) + n.log2) := by
    have : (0 : Int) < 2 ^ Format.binary64.exponentBits := by decide
    omega
  rw [UnpackedFloat.ofScientific, dif_neg hn, if_neg notHuge, if_neg notTiny,
    if_pos (Int.le_refl 0)]
  exact ⟨n <<< 53, _, Nat.shiftLeft_eq n 53, rfl⟩

theorem ofScientific_of_le {n : Nat} (h : 2 ^ 53 ≤ n) :
    Float.ofScientific n false 0
      = Float.ofModel (.pack (UnpackedFloat.ofScientific Format.binary64 n 0)) := by
  have large : ¬ (n < 2 ^ 53 ∧ 0 ≤ 22) := by omega
  unfold Float.ofScientific
  rw [dif_neg large]
  rfl

theorem below_ofScientific {k n : Nat} (hn : n < 2 ^ k) (hk : k ≤ 800) :
    Below (k + 108) (Float.ofScientific n false 0) := by
  have hn : n < 2 ^ (k + 1) := Nat.lt_trans hn (Nat.pow_lt_pow_succ (by decide))
  by_cases small : n < 2 ^ 53
  · -- Small numbers are converted and multiplied by a table's first power of ten.
    have table : n < 2 ^ 53 ∧ 0 ≤ 22 := ⟨small, by decide⟩
    unfold Float.ofScientific
    rw [dif_pos table]
    have size : n.toUInt64.toNat = n := by
      rw [Nat.toUInt64, UInt64.toNat_ofNat']
      omega
    have whole : Below (k + 1 + 53) n.toUInt64.toFloat := by
      refine below_pack (exponentAtMost_normalize .positive (c := k) ?_ (by omega)) (by omega)
      rw [size]
      exact hn
    have one : Below 1 (Float.ofBits 0x3FF0000000000000) := by
      unfold Below
      decide
    exact (below_mul whole one (by omega)).mono (by omega)
  · -- Any other number is shifted and multiplied by one.
    have large : 2 ^ 53 ≤ n := Nat.le_of_not_lt small
    have nonzero : n ≠ 0 := by omega
    obtain ⟨m, hm, shifted, product⟩ := ofScientific_eq_mul nonzero
    have bits : m < 2 ^ (k + 53 + 1) := by
      rw [shifted, Nat.add_right_comm, Nat.pow_add]
      exact Nat.mul_lt_mul_of_pos_right hn (by decide)
    have log := log2_le_of_lt bits
    have size : SizeAtMost (k + 1 : Nat) (.finite .positive m (-53) hm) := by
      show (m.log2 : Int) + 1 + (-53) ≤ (k + 1 : Nat)
      omega
    have one : SizeAtMost (1 : Nat) (.finite .positive 1 0 (by decide)) := by
      show ((1 : Nat).log2 : Int) + 1 + 0 ≤ 1
      decide
    have bound := exponentAtMost_mul size one
    rw [ofScientific_of_le large, product]
    exact (below_pack bound (by omega)).mono (by omega)

/-- A whole number that is not too large is a double. -/
theorem ofInt?_of_lt {k : Nat} {n : Int} (hn : n.natAbs < 2 ^ k) (hk : k ≤ 800) :
    ∃ x, ofInt? n = some x ∧ Below (k + 161) x := by
  have positive := below_ofScientific hn hk
  rw [ofInt?, if_pos (isFinite_of_below positive (by omega))]
  refine ⟨_, rfl, ?_⟩
  split
  · exact below_neg positive (by omega)
  · exact positive.mono (by omega)

/-! ## Powers of two -/

theorem log2_eq_of_bounds {m k : Nat} (low : 2 ^ k ≤ m) (high : m < 2 ^ (k + 1)) : m.log2 = k := by
  have positive : m ≠ 0 := Nat.ne_of_gt (Nat.lt_of_lt_of_le (Nat.pow_pos (by decide)) low)
  have := log2_le_of_lt high
  have := (Nat.le_log2 positive).mpr low
  omega

/-- What is rounded is shifted, rounded up or down, and shifted again. -/
theorem roundWithAccuracy_eq {s : Sign} {m : Nat} {e : Int} {accuracy : Accuracy}
    {first last : ExtendedMantissa × Int}
    (shifted : shiftToTargetExponent Format.binary64 m e accuracy = first)
    (again : shiftToTargetExponent Format.binary64 first.1.roundedMantissa first.2 .exact = last)
    (nonzero : last.1.mantissa ≠ 0) :
    roundWithAccuracy Format.binary64 s m e accuracy
      = .finite s last.1.mantissa last.2 (Nat.pos_of_ne_zero nonzero) := by
  subst shifted again
  exact dif_neg nonzero

/-- A power of two is left at the exponent at which it has 53 bits. -/
theorem roundWithAccuracy_twoTo (s : Sign) (i : Nat) :
    ∃ m h, m.log2 = 52 ∧ roundWithAccuracy Format.binary64 s (2 ^ (i + 53)) (-53) .exact
      = .finite s m ((i : Int) - 52) h := by
  obtain ⟨-, exponent⟩ := shiftToTargetExponent_spec (2 ^ (i + 53)) (-53) .exact
  have mantissa := mantissa_shiftToTargetExponent (2 ^ (i + 53)) (-53) .exact
  obtain ⟨first, shifted⟩ : ∃ first,
    shiftToTargetExponent Format.binary64 (2 ^ (i + 53)) (-53) .exact = first := ⟨_, rfl⟩
  have target : max (-53) (max (((2 ^ (i + 53)).log2 : Int) + 1 + -53 - 53) (-1074))
      = (i : Int) - 52 := by
    rw [Nat.log2_two_pow]
    omega
  have dropped : (((i : Int) - 52) - (-53)).toNat = i + 1 := by omega
  have bits : i + 53 - (i + 1) = 52 := by omega
  rw [shifted, target] at exponent
  rw [shifted, exponent, dropped, Nat.pow_div (by omega) (by decide), bits] at mantissa
  -- Nothing was lost, so rounding moves the mantissa by one at most and no bit is carried.
  have low := le_roundedMantissa first.1
  have high := roundedMantissa_le first.1
  have log : first.1.roundedMantissa.log2 = 52 := log2_eq_of_bounds (by omega) (by omega)
  obtain ⟨-, kept⟩ := shiftToTargetExponent_spec first.1.roundedMantissa first.2 .exact
  have whole := mantissa_shiftToTargetExponent first.1.roundedMantissa first.2 .exact
  obtain ⟨last, again⟩ : ∃ last,
    shiftToTargetExponent Format.binary64 first.1.roundedMantissa first.2 .exact = last := ⟨_, rfl⟩
  have stays : max first.2 (max ((first.1.roundedMantissa.log2 : Int) + 1 + first.2 - 53) (-1074))
      = first.2 := by
    rw [log, exponent]
    omega
  rw [again, stays] at kept
  rw [again, kept, Int.sub_self, Int.toNat_zero, Nat.pow_zero, Nat.div_one] at whole
  have nonzero : last.1.mantissa ≠ 0 := by omega
  rw [← exponent, ← kept]
  refine ⟨last.1.mantissa, Nat.pos_of_ne_zero nonzero, ?_, roundWithAccuracy_eq shifted again nonzero⟩
  rw [whole]
  exact log

/-- The exponent of a packed double with 53 bits is the one it had, as long as there is room. -/
theorem exponentField_pack {s : Sign} {m : Nat} {e : Int} {hm : 0 < m} (bits : m.log2 = 52)
    (low : -1074 ≤ e) :
    exponentField (Float.ofModel (.pack (.finite s m e hm))) = min (e + 1075).toNat 2047 := by
  have bias : (Format.binary64.exponentBias : Int) = 1023 := rfl
  have normal : m.log2 + 1 = Format.binary64.mantissaBits := by
    rw [bits]
    rfl
  rw [exponentField_eq]
  show (unpackExponent (UnpackedFloat.pack Format.binary64 (.finite s m e hm))).toNat = _
  have unfolded : UnpackedFloat.pack Format.binary64 (.finite s m e hm)
      = if 2 ^ 11 ≤ (e + (Format.binary64.exponentBias : Int) + (52 : Nat)).toNat + 1 then
          packedInfinity Format.binary64 s
        else if m.log2 + 1 = Format.binary64.mantissaBits then
          packComponents Format.binary64 s
            (BitVec.ofNat _ (e + (Format.binary64.exponentBias : Int) + (52 : Nat)).toNat)
            (BitVec.ofNat _ m)
        else packComponents Format.binary64 s 0#_ (BitVec.ofNat _ m) := rfl
  rw [unfolded]
  by_cases beyond : 2 ^ 11 ≤ (e + (Format.binary64.exponentBias : Int) + (52 : Nat)).toNat + 1
  · rw [if_pos beyond, packedInfinity, unpackExponent_packComponents]
    show 2047 = _
    omega
  · rw [if_neg beyond, if_pos normal, unpackExponent_packComponents, BitVec.toNat_ofNat]
    show (e + (Format.binary64.exponentBias : Int) + (52 : Nat)).toNat % 2 ^ 11 = _
    rw [Nat.mod_eq_of_lt (by omega)]
    omega

theorem isFinite_eq_decide {x : Float} : isFinite x = decide (exponentField x < 2047) := by
  rw [isFinite, exponentField, infiniteRank]
  have two : twoTo 52 = 2 ^ 52 := rfl
  rw [two, decide_eq_decide]
  omega

/-- The powers of two that are doubles. -/
theorem isFinite_ofScientific_twoTo (i : Nat) :
    isFinite (Float.ofScientific (2 ^ i) false 0) = decide (i < 1024) := by
  by_cases small : i < 53
  · have power : 2 ^ i < 2 ^ 53 := Nat.pow_lt_pow_right (by decide) small
    rw [isFinite_of_below (below_ofScientific power (by decide)) (by decide)]
    exact (decide_eq_true (by omega)).symm
  · have large : 2 ^ 53 ≤ 2 ^ i := Nat.pow_le_pow_right (by decide) (by omega)
    obtain ⟨m, hm, bits, rounded⟩ := roundWithAccuracy_twoTo .positive i
    have positive : 2 ^ i ≠ 0 := Nat.ne_of_gt (Nat.pow_pos (by decide))
    obtain ⟨p, hp, hbits, product⟩ := ofScientific_eq_mul positive
    have shifted : p * 1 = 2 ^ (i + 53) := by rw [hbits, Nat.mul_one, Nat.pow_add]
    rw [mul_finite, shifted] at product
    have field : exponentField (Float.ofScientific (2 ^ i) false 0)
        = min ((i : Int) - 52 + 1075).toNat 2047 := by
      rw [ofScientific_of_le large, product, Int.add_zero]
      refine (congrArg (fun u => exponentField (Float.ofModel (.pack u))) rounded).trans ?_
      exact exponentField_pack bits (by omega)
    rw [isFinite_eq_decide, field, decide_eq_decide]
    omega

/-- A power of two is a double below the limit, and too large from there on. -/
theorem ofInt?_twoTo (i : Nat) :
    ofInt? (twoTo i) = if i < 1024 then some (Float.ofScientific (2 ^ i) false 0) else none := by
  have size : ((twoTo i : Nat) : Int).natAbs = 2 ^ i := rfl
  have positive : ¬ ((twoTo i : Nat) : Int) < 0 := by omega
  rw [ofInt?, size, isFinite_ofScientific_twoTo, if_neg positive]
  by_cases h : i < 1024
  · simp [h]
  · simp [h]

end DesignMarkup.Double
