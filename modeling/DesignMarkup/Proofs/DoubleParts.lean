import DesignMarkup.Proofs.Doubles
import DesignMarkup.Proofs.ShortestDecimals

/-!
# Doubles in parts

A finite double other than zero is a sign, a mantissa and a power of two, and there is one form
of it in which the mantissa has 53 bits or the exponent is the least one. In that form the parts
are read off the rank, and the rank off the parts. The number that a double is comes from its parts.
-/

namespace DesignMarkup.Double

open Float.Model UnpackedFloat

/-! ## The bits -/

theorem mantissaField_eq (x : Float) :
    rank x % 2 ^ 52 = (@unpackMantissa Format.binary64 x.toBits.toBitVec).toNat := by
  have low : x.toBits.toNat < 2 ^ 64 := x.toBits.toNat_lt
  simp only [rank, twoTo, unpackMantissa, BitVec.toNat_cast, BitVec.extractLsb_toNat,
    UInt64.toNat_toBitVec, Nat.shiftRight_eq_div_pow]
  show x.toBits.toNat % 2 ^ 63 % 2 ^ 52 = x.toBits.toNat / 2 ^ 0 % 2 ^ (52 - 1 - 0 + 1)
  omega

theorem isNegative_eq (x : Float) :
    isNegative x = decide (@unpackSign Format.binary64 x.toBits.toBitVec = 1#1) := by
  have low : x.toBits.toNat < 2 ^ 64 := x.toBits.toNat_lt
  have bit : (@unpackSign Format.binary64 x.toBits.toBitVec).toNat = x.toBits.toNat / 2 ^ 63 := by
    delta unpackSign
    simp only [BitVec.toNat_cast, BitVec.extractLsb_toNat, UInt64.toNat_toBitVec,
      Nat.shiftRight_eq_div_pow]
    show x.toBits.toNat / 2 ^ 63 % 2 ^ (63 - 63 + 1) = _
    omega
  have two : twoTo 63 = 2 ^ 63 := rfl
  rw [isNegative, two, decide_eq_decide, ← BitVec.toNat_inj, bit]
  show _ ↔ _ = 1
  omega

def signOf (x : Float) : Sign := if isNegative x then .negative else .positive

theorem ofBitVec_unpackSign (x : Float) :
    Sign.ofBitVec (@unpackSign Format.binary64 x.toBits.toBitVec) = signOf x := by
  rw [signOf, isNegative_eq]
  rcases BitVec.eq_zero_or_eq_one (@unpackSign Format.binary64 x.toBits.toBitVec) with bit | bit <;>
    rw [bit] <;> rfl

/-- The leading bit of a word is the one that its sign was put together from. -/
theorem signOf_of_packComponents {x : Float} {s : Sign} {exponent : BitVec 11} {mantissa : BitVec 52}
    (word : x.toBits.toBitVec = packComponents Format.binary64 s exponent mantissa) :
    signOf x = s := by
  have two : twoTo 63 = 2 ^ 63 := rfl
  have leading : isNegative x = x.toBits.toBitVec.msb := by
    rw [BitVec.msb_eq_decide, isNegative, two]
    rfl
  have stored : x.toBits.toBitVec.msb = (s.toBitVec ++ exponent ++ mantissa).msb :=
    congrArg BitVec.msb word
  rw [BitVec.msb_append, if_neg (by decide), BitVec.msb_append, if_neg (by decide)] at stored
  rw [signOf, leading, stored]
  cases s <;> rfl

/-- What is read off the parts of a word that were put together. -/
theorem rank_of_packComponents {x : Float} {s : Sign} {exponent : BitVec 11} {mantissa : BitVec 52}
    (word : x.toBits.toBitVec = packComponents Format.binary64 s exponent mantissa) :
    rank x = exponent.toNat * 2 ^ 52 + mantissa.toNat ∧ signOf x = s := by
  have field := exponentField_eq x
  have bits := mantissaField_eq x
  rw [word, unpackExponent_packComponents] at field
  rw [word, unpackMantissa_packComponents] at bits
  refine ⟨?_, signOf_of_packComponents word⟩
  rw [← field, ← bits]
  exact (Nat.div_add_mod' _ _).symm

/-- The leading bit of a mantissa is not stored unless the exponent is the least one. -/
theorem fullMantissa_eq (x : Float) :
    (1#1 ++ @unpackMantissa Format.binary64 x.toBits.toBitVec).toNat = 2 ^ 52 + rank x % 2 ^ 52 := by
  have below : rank x % 2 ^ 52 < 2 ^ 52 := Nat.mod_lt _ (by decide)
  rw [BitVec.toNat_append, ← mantissaField_eq x]
  show 1 <<< 52 ||| rank x % 2 ^ 52 = _
  rw [Nat.shiftLeft_eq, Nat.one_mul]
  exact (Nat.two_pow_add_eq_or_of_lt below 1).symm

/-! ## Mantissas and exponents -/

/-- The form in which the mantissa has 53 bits or the exponent is the least one. -/
structure IsCanonical (m : Nat) (e : Int) : Prop where
  least : -1074 ≤ e
  bits : m < 2 ^ 53
  full : 2 ^ 52 ≤ m ∨ e = -1074

def rankOf (m : Nat) (e : Int) : Nat := (e + 1074).toNat * 2 ^ 52 + m

section

variable {m n : Nat} {e f : Int}

theorem rankOf_pos (some : 0 < m) : 0 < rankOf m e := Nat.add_pos_right _ some

/-- A mantissa that was rounded up may have one more bit than fits, and then is a power of two. -/
theorem magnitude_rankOf (bits : m ≤ 2 ^ 53) (full : 2 ^ 52 ≤ m ∨ e = -1074) :
    magnitude (rankOf m e) = m * 2 ^ (e + 1074).toNat := by
  have two : twoTo 52 = 2 ^ 52 := rfl
  have power (k : Nat) : twoTo k = 2 ^ k := rfl
  unfold rankOf magnitude
  generalize places : (e + 1074).toNat = k
  rw [two, power]
  by_cases subnormal : k * 2 ^ 52 + m < 2 ^ 52
  · obtain rfl : k = 0 := by omega
    rw [if_pos subnormal]
    omega
  rw [if_neg subnormal]
  have low : 2 ^ 52 ≤ m := by omega
  rcases Nat.lt_or_eq_of_le bits with less | carried
  · have quotient : (k * 2 ^ 52 + m) / 2 ^ 52 - 1 = k := by omega
    have remainder : 2 ^ 52 + (k * 2 ^ 52 + m) % 2 ^ 52 = m := by omega
    rw [quotient, remainder]
  · have quotient : (k * 2 ^ 52 + m) / 2 ^ 52 - 1 = 1 + k := by omega
    have remainder : 2 ^ 52 + (k * 2 ^ 52 + m) % 2 ^ 52 = 2 ^ 52 := by omega
    rw [quotient, remainder, carried, Nat.pow_add, ← Nat.mul_assoc]
    rfl

theorem IsCanonical.magnitude_eq (h : IsCanonical m e) :
    magnitude (rankOf m e) = m * 2 ^ (e + 1074).toNat :=
  magnitude_rankOf (Nat.le_of_lt h.bits) h.full

/-- There is one canonical form for a rank. -/
theorem IsCanonical.unique (hm : IsCanonical m e) (hn : IsCanonical n f)
    (same : rankOf m e = rankOf n f) : m = n ∧ e = f := by
  obtain ⟨leastE, bitsM, fullM⟩ := hm
  obtain ⟨leastF, bitsN, fullN⟩ := hn
  simp only [rankOf] at same
  omega

/-- A mantissa and an exponent in canonical form are packed into a double of their rank, if there is
room for it. -/
theorem rank_pack {s : Sign} (h : IsCanonical m e) (hm : 0 < m) (room : rankOf m e < infiniteRank) :
    rank (Float.ofModel (.pack (.finite s m e hm))) = rankOf m e ∧
      signOf (Float.ofModel (.pack (.finite s m e hm))) = s := by
  obtain ⟨least, bits, full⟩ := h
  have limit : infiniteRank = 2047 * 2 ^ 52 := rfl
  rw [limit, rankOf] at room
  have log : m.log2 + 1 = Format.binary64.mantissaBits ↔ 2 ^ 52 ≤ m := by
    have full : Format.binary64.mantissaBits = 53 := rfl
    have lower := Nat.le_log2 (k := 52) (Nat.ne_of_gt hm)
    have upper := log2_le_of_lt (k := 52) bits
    omega
  have bias : (Format.binary64.exponentBias : Int) = 1023 := rfl
  have word : (Float.ofModel (.pack (.finite s m e hm))).toBits.toBitVec
      = if 2 ^ 11 ≤ (e + (Format.binary64.exponentBias : Int) + (52 : Nat)).toNat + 1 then
          packedInfinity Format.binary64 s
        else if m.log2 + 1 = Format.binary64.mantissaBits then
          packComponents Format.binary64 s
            (BitVec.ofNat _ (e + (Format.binary64.exponentBias : Int) + (52 : Nat)).toNat)
            (BitVec.ofNat _ m)
        else packComponents Format.binary64 s 0#_ (BitVec.ofNat _ m) := rfl
  rw [if_neg (by omega)] at word
  by_cases normal : 2 ^ 52 ≤ m
  · rw [if_pos (log.mpr normal)] at word
    obtain ⟨place, sign⟩ := rank_of_packComponents word
    refine ⟨place.trans ?_, sign⟩
    rw [BitVec.toNat_ofNat, BitVec.toNat_ofNat, Nat.mod_eq_of_lt (by omega), rankOf]
    omega
  · rw [if_neg (mt log.mp normal)] at word
    obtain ⟨place, sign⟩ := rank_of_packComponents word
    refine ⟨place.trans ?_, sign⟩
    rw [BitVec.toNat_ofNat, rankOf]
    show 0 * 2 ^ 52 + m % 2 ^ 52 = _
    omega

/-- Every rank is that of a canonical form. -/
theorem exists_canonical (rank : Nat) : ∃ m e, IsCanonical m e ∧ rankOf m e = rank := by
  by_cases subnormal : rank < 2 ^ 52
  · refine ⟨rank, -1074, ⟨le_rfl, by omega, Or.inr rfl⟩, ?_⟩
    rw [rankOf]
    omega
  · refine ⟨2 ^ 52 + rank % 2 ^ 52, (rank / 2 ^ 52 - 1 : Nat) - 1074, ⟨?_, ?_, Or.inl ?_⟩, ?_⟩
    · omega
    · omega
    · omega
    · rw [rankOf]
      omega

/-- There is a double of each sign at every finite rank. -/
theorem exists_rank_eq (s : Sign) {rank : Nat} (positive : 0 < rank) (room : rank < infiniteRank) :
    ∃ x, Double.rank x = rank ∧ signOf x = s := by
  obtain ⟨m, e, canonical, rfl⟩ := exists_canonical rank
  have some : 0 < m := by
    obtain ⟨-, -, full⟩ := canonical
    rw [rankOf] at positive
    omega
  exact ⟨_, rank_pack canonical some room⟩

/-! ## The parts of a double -/

/-- The field of the exponent is not all ones. -/
theorem unpackExponent_ne_ones {x : Float} (finite : isFinite x = true) :
    @unpackExponent Format.binary64 x.toBits.toBitVec ≠ -1#_ := by
  have small : exponentField x < 2047 := by
    rw [isFinite_eq_decide] at finite
    exact of_decide_eq_true finite
  intro all
  have ones : exponentField x = 2047 := by
    rw [exponentField_eq, all]
    rfl
  omega

theorem unpackExponent_eq_zero_iff (x : Float) :
    @unpackExponent Format.binary64 x.toBits.toBitVec = 0#_ ↔ exponentField x = 0 := by
  rw [exponentField_eq, ← BitVec.toNat_inj]
  rfl

theorem unpackMantissa_eq_zero_iff (x : Float) :
    @unpackMantissa Format.binary64 x.toBits.toBitVec = 0#_ ↔ rank x % 2 ^ 52 = 0 := by
  rw [mantissaField_eq, ← BitVec.toNat_inj]
  rfl

/-- A finite double is a zero, or its parts have the canonical form and spell its rank. -/
theorem unpack_cases {x : Float} (finite : isFinite x = true) :
    (rank x = 0 ∧ x.toModel.unpack = .zero (signOf x)) ∨
      ∃ m e h, IsCanonical m e ∧ rankOf m e = rank x ∧
        x.toModel.unpack = .finite (signOf x) m e h := by
  have bias : (Format.binary64.exponentBias : Int) = 1023 := rfl
  have field := exponentField_eq x
  have bits := mantissaField_eq x
  have place : rank x = exponentField x * 2 ^ 52 + rank x % 2 ^ 52 := (Nat.div_add_mod' _ _).symm
  have below : rank x % 2 ^ 52 < 2 ^ 52 := Nat.mod_lt _ (by decide)
  have unpacked : x.toModel.unpack = UnpackedFloat.unpack Format.binary64 x.toBits.toBitVec := rfl
  rw [unpacked]
  delta UnpackedFloat.unpack
  dsimp only
  rw [if_neg (unpackExponent_ne_ones finite), ofBitVec_unpackSign]
  by_cases least : @unpackExponent Format.binary64 x.toBits.toBitVec = 0#_
  · rw [if_pos least]
    have none : exponentField x = 0 := (unpackExponent_eq_zero_iff x).mp least
    by_cases zero : @unpackMantissa Format.binary64 x.toBits.toBitVec = 0#_
    · rw [dif_pos zero]
      have empty : rank x % 2 ^ 52 = 0 := (unpackMantissa_eq_zero_iff x).mp zero
      exact Or.inl ⟨by omega, rfl⟩
    · rw [dif_neg zero]
      refine Or.inr ⟨_, _, _, ⟨?_, ?_, ?_⟩, ?_, rfl⟩
      · show -1074 ≤ _
        omega
      · omega
      · right
        omega
      · rw [rankOf]
        omega
  · rw [if_neg least]
    have some : exponentField x ≠ 0 := mt (unpackExponent_eq_zero_iff x).mpr least
    have all := fullMantissa_eq x
    refine Or.inr ⟨_, _, _, ⟨?_, ?_, ?_⟩, ?_, rfl⟩
    · show -1074 ≤ _
      omega
    · omega
    · left
      omega
    · rw [rankOf]
      omega

end

/-! ## Rank and sign -/

section

variable {x y : Float}

theorem toBits_toNat (x : Float) :
    x.toBits.toNat = (if isNegative x then 2 ^ 63 else 0) + rank x := by
  have low : x.toBits.toNat < 2 ^ 64 := x.toBits.toNat_lt
  have two : twoTo 63 = 2 ^ 63 := rfl
  rw [isNegative, rank, two]
  by_cases sign : 2 ^ 63 ≤ x.toBits.toNat
  · rw [if_pos (decide_eq_true sign)]
    omega
  · rw [if_neg (by simpa using sign)]
    omega

/-- A double is its rank and its sign. -/
theorem eq_of_rank_eq (place : rank x = rank y) (sign : signOf x = signOf y) : x = y := by
  have negative : isNegative x = isNegative y := by
    rw [signOf, signOf] at sign
    cases hx : isNegative x <;> cases hy : isNegative y <;> simp [hx, hy] at sign ⊢
  have words : x.toBits = y.toBits := by
    rw [← UInt64.toNat_inj, toBits_toNat, toBits_toNat, place, negative]
  obtain ⟨⟨bits, _⟩⟩ := x
  obtain ⟨⟨bits', _⟩⟩ := y
  obtain rfl : bits = bits' := words
  rfl

theorem rank_neg (finite : isFinite x = true) (some : rank x ≠ 0) :
    rank (-x) = rank x ∧ signOf (-x) = -signOf x := by
  rcases unpack_cases finite with ⟨zero, -⟩ | ⟨m, e, hm, canonical, place, parts⟩
  · exact absurd zero some
  · have packed : -x = Float.ofModel (.pack (.finite (-signOf x) m e hm)) := by
      show Float.ofModel (.pack (UnpackedFloat.neg x.toModel.unpack)) = _
      rw [parts]
      rfl
    rw [packed, ← place]
    exact rank_pack canonical hm (place ▸ of_decide_eq_true finite)

theorem natAbs_units (x : Float) : (units x).natAbs = magnitude (rank x) := by
  rw [units]
  split <;> simp

/-- Doubles of one place other than zero are one double. -/
theorem eq_of_units_eq (same : units x = units y) (some : units x ≠ 0) : x = y := by
  have place : rank x = rank y := strictMono_magnitude.injective (by
    rw [← natAbs_units, ← natAbs_units, same])
  refine eq_of_rank_eq place ?_
  rw [units, units, ← place] at same
  rw [units] at some
  cases hx : isNegative x <;> cases hy : isNegative y <;>
    simp only [hx, hy, signOf, Bool.false_eq_true, if_true, if_false] at same some ⊢ <;> omega

end

/-! ## The number that a double is -/

/-- The number that the parts of a double spell; nothing but a zero and what is no number is
without a mantissa. -/
def numberOf : UnpackedFloat → ℚ
  | .finite s m e _ => (s.apply m : ℤ) * 2 ^ e
  | _ => 0

def value (x : Float) : ℚ := numberOf x.toModel.unpack

section

variable {x y : Float}

theorem cast_twoTo (n : Nat) : ((twoTo n : Nat) : ℚ) = 2 ^ n := Nat.cast_pow 2 n

theorem twoTo_le {m n : Nat} (h : m ≤ n) : twoTo m ≤ twoTo n := Nat.pow_le_pow_right (by decide) h

theorem cast_unitsPerOne_pos : (0 : ℚ) < unitsPerOne := Nat.cast_pos.mpr (twoTo_pos 1074)

/-- A power of two counted in units. -/
theorem zpow_mul_unitsPerOne {e : Int} (least : -1074 ≤ e) :
    (2 : ℚ) ^ e * unitsPerOne = (2 ^ (e + 1074).toNat : Nat) := by
  have places : ((e + 1074).toNat : Int) = e + (1074 : Nat) := by omega
  rw [unitsPerOne, cast_twoTo, Nat.cast_pow, ← zpow_natCast, ← zpow_natCast, places,
    zpow_add₀ (by decide)]
  rfl

theorem value_mul_unitsPerOne (finite : isFinite x = true) : value x * unitsPerOne = units x := by
  rcases unpack_cases finite with ⟨zero, parts⟩ | ⟨m, e, positive, canonical, place, parts⟩
  · have none : magnitude 0 = 0 := by decide
    rw [value, parts, units, zero, none]
    show (0 : ℚ) * _ = _
    rw [zero_mul, Nat.cast_zero, Int.neg_zero, ite_self, Int.cast_zero]
  · rw [value, parts]
    show (((signOf x).apply m : ℤ) : ℚ) * 2 ^ e * _ = _
    rw [mul_assoc, zpow_mul_unitsPerOne canonical.least, units, ← place, canonical.magnitude_eq,
      signOf]
    cases isNegative x <;> simp [Sign.apply]

theorem value_eq_iff (hx : isFinite x = true) (hy : isFinite y = true) :
    value x = value y ↔ units x = units y := by
  rw [← Int.cast_inj (α := ℚ), ← value_mul_unitsPerOne hx, ← value_mul_unitsPerOne hy,
    mul_left_inj' cast_unitsPerOne_pos.ne']

end

end DesignMarkup.Double
