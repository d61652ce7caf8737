import DesignMarkup.Proofs.NearestReading
import DesignMarkup.Proofs.Numerals

/-!
# Exact numerals

The numeral of a number in a style sheet is read back. A whole number comes back exactly, however
large it is and whether it was held as a whole number or as a double. Of any other double the
numeral is one for which it is the nearest double, and reading it as a double gives it back.
-/

namespace DesignMarkup

namespace Decimal

open Double (IsNearest isNegative rank signOf signed)

/-! ## Numerals with a sign -/

def number? : List Char → Option ℚ
  | '-' :: rest => (unsigned? rest).map fun d => -d.value
  | s => (unsigned? s).map value

def minus (negative : Bool) : List Char := if negative then ['-'] else []

namespace Numeral

variable {n : Numeral}

/-- Nothing in a numeral is blank. -/
theorem Proper.not_isNumeralBlank (h : n.Proper) : ∀ ch ∈ n.text, isNumeralBlank ch = false := by
  have digit (ch : Char) (hch : ch.isDigit = true) : isNumeralBlank ch = false := by
    have decimal : (Text.decimalDigit? ch).isSome = true := by
      rw [decimalDigit?_of_isDigit hch]
      rfl
    exact not_isNumeralBlank_of_isDigit (isDigit_of_decimalDigit? decimal)
  refine List.forall_mem_append.mpr ⟨fun ch hch => digit ch (h.whole.2 ch hch),
    List.forall_mem_append.mpr ⟨?_, ?_⟩⟩
  · cases fraction : n.fraction with
    | none => exact nofun
    | some f =>
        refine List.forall_mem_cons.mpr ⟨by decide, fun ch hch => ?_⟩
        exact digit ch ((h.fraction f fraction).2 ch hch)
  · cases n.exponent with
    | none => exact nofun
    | some e =>
        refine List.forall_mem_append.mpr ⟨List.forall_mem_append.mpr ⟨?_, ?_⟩, ?_⟩
        · refine List.forall_mem_cons.mpr ⟨by decide, List.forall_mem_singleton.mpr ?_⟩
          split <;> decide
        · exact fun ch hch => digit ch (isDigit_zeros ch hch)
        · exact fun ch hch => digit ch ((isRun_natural e.natAbs).2 ch hch)

theorem number?_minus_append (h : n.Proper) (negative : Bool) :
    number? (minus negative ++ n.text)
      = some (if negative then -n.decimal.value else n.decimal.value) := by
  cases negative with
  | true =>
      show (unsigned? n.text).map _ = _
      rw [unsigned?_text h]
      rfl
  | false =>
      show number? n.text = _
      rw [number?, unsigned?_text h]
      · rfl
      · exact h.text_ne rfl

theorem splitSign_minus_append (h : n.Proper) (negative : Bool) :
    splitSign (minus negative ++ n.text) = (negative, n.text) := by
  cases negative with
  | true => rfl
  | false =>
      show splitSign n.text = _
      rw [splitSign]
      · exact h.text_ne rfl
      · exact h.text_ne rfl

/-- The words for what is not finite begin with a letter. -/
theorem Proper.map_toLower_ne (h : n.Proper) {ch : Char} (letter : ch.isDigit = false)
    (rest : List Char) : n.text.map Char.toLower ≠ ch :: rest := by
  obtain ⟨first, more, text, digit⟩ := h.exists_cons
  have kept : first.toLower = first := by
    obtain ⟨-, high⟩ := toNat_of_isDigit digit
    refine dif_neg fun upper => ?_
    have capital : 65 ≤ first.toNat := upper.1
    omega
  rw [text, List.map_cons, kept]
  intro same
  rw [(List.cons.inj same).1, letter] at digit
  cases digit

/-- A numeral is read as the double nearest to the decimal that it spells. -/
theorem double?_minus_append (h : n.Proper) (negative : Bool) :
    double? (minus negative ++ n.text)
      = some (if negative then -nearest n.decimal.digits n.decimal.exponent
          else nearest n.decimal.digits n.decimal.exponent) := by
  have blankless : ∀ ch ∈ minus negative ++ n.text, isNumeralBlank ch = false := by
    refine List.forall_mem_append.mpr ⟨?_, h.not_isNumeralBlank⟩
    cases negative with
    | true => exact List.forall_mem_singleton.mpr (by decide)
    | false => exact nofun
  have word (ch : Char) (rest : List Char) (letter : ch.isDigit = false) :
      (n.text.map Char.toLower == ch :: rest) = false :=
    beq_eq_false_iff_ne.mpr (h.map_toLower_ne letter rest)
  have infinite : (n.text.map Char.toLower == "inf".toList
      || n.text.map Char.toLower == "infinity".toList) = false :=
    Bool.or_eq_false_iff.mpr ⟨word 'i' _ rfl, word 'i' _ rfl⟩
  have undefined : (n.text.map Char.toLower == "nan".toList) = false := word 'n' _ rfl
  rw [double?, trimNumeral_of_forall blankless, splitSign_minus_append h]
  dsimp only
  rw [infinite, undefined, unsignedDouble?_eq_map, unsigned?_text h]
  rfl

end Numeral

/-! ## Whole numbers and doubles -/

theorem value_nonneg (d : Decimal) : 0 ≤ d.value :=
  mul_nonneg (Nat.cast_nonneg _) (zpow_nonneg (by decide) _)

theorem number?_whole (n : Int) : number? (whole n) = some (n : ℚ) := by
  have digits : (natural n.natAbs) = Numeral.text ⟨natural n.natAbs, none, none⟩ := by
    simp [Numeral.text, Text.behind, exponentText]
  have proper : Numeral.Proper ⟨natural n.natAbs, none, none⟩ :=
    .of_isRun_alone (isRun_natural n.natAbs)
  have spelt : (Numeral.decimal ⟨natural n.natAbs, none, none⟩).value = (n.natAbs : ℚ) := by
    have decimal : Numeral.decimal ⟨natural n.natAbs, none, none⟩ = ⟨n.natAbs, 0⟩ := by
      simp [Numeral.decimal, ofDigitChars_natural]
    rw [decimal, value, zpow_zero, mul_one]
  have signed : whole n = minus (decide (n < 0)) ++ natural n.natAbs := by
    rw [whole, minus]
    by_cases negative : n < 0 <;> simp [negative]
  rw [signed, digits, Numeral.number?_minus_append proper, spelt, Nat.cast_natAbs]
  by_cases negative : n < 0
  · rw [if_pos (decide_eq_true negative), abs_of_neg negative, Int.cast_neg, neg_neg]
  · rw [if_neg (by simpa using negative), abs_of_nonneg (by omega)]

/-- The numeral of a double spells a number that the double is nearest to, and is read as that
double. -/
theorem isNearest_double {x : Float} (finite : Double.isFinite x = true) (some : rank x ≠ 0) :
    ∃ q, number? (double x) = Option.some q ∧ IsNearest x q ∧
      double? (double x) = Option.some x := by
  have positive : 0 < rank x := Nat.pos_of_ne_zero some
  obtain ⟨n, proper, text, number, -⟩ := exists_numeral_layout (shortest (rank x))
  have rounds : RoundsTo n.decimal.value (rank x) := by
    rw [number]
    exact roundsTo_shortest positive
  have numeral : double x = minus (isNegative x) ++ n.text := by
    rw [double_of_rank_ne_zero finite some, text]
    rfl
  obtain ⟨place, sign⟩ := rank_nearest rounds positive (of_decide_eq_true finite)
  have size : Double.isFinite (nearest n.decimal.digits n.decimal.exponent) = true := by
    rw [Double.isFinite, place]
    exact finite
  have read : (if isNegative x then -nearest n.decimal.digits n.decimal.exponent
      else nearest n.decimal.digits n.decimal.exponent) = x := by
    cases negative : isNegative x with
    | false =>
        refine Double.eq_of_rank_eq place (sign.trans ?_)
        rw [signOf, negative]
        rfl
    | true =>
        obtain ⟨opposite, turned⟩ := Double.rank_neg size (place ▸ some)
        refine Double.eq_of_rank_eq (opposite.trans place) (turned.trans ?_)
        rw [sign, signOf, negative]
        rfl
  refine ⟨signed x n.decimal.value, ?_,
    Double.isNearest_of_roundsTo finite positive (value_nonneg _) rounds, ?_⟩
  · rw [numeral, Numeral.number?_minus_append proper]
    rfl
  · rw [numeral, Numeral.double?_minus_append proper, read]

end Decimal

/-! ## Numbers -/

namespace Number

def value : Number → ℚ
  | whole n => n
  | double x => Double.value x

/-- A text from which a number is read back. A whole number is all that the text spells, in digits
alone. For any other double the text spells a number that this double and no other is nearest to,
and a reader of doubles finds it. -/
structure ReadsBack (a : Number) (t : String) : Prop where
  exact : ∀ n : Int, a.value = n → Decimal.number? t.toList = some (n : ℚ)
  digits : ∀ n : Int, a.value = n → ∀ ch ∈ t.toList, ch = '-' ∨ ch.isDigit = true
  zero : a.value = 0 → t = "0"
  nearest : ∀ x, a = double x → (∀ n : Int, a.value ≠ n) →
    ∃ q, Decimal.number? t.toList = some q ∧ ∀ y, Double.IsNearest y q ↔ y = x
  reread : ∀ x, a = double x → (∀ n : Int, a.value ≠ n) → Decimal.double? t.toList = some x

variable {a b : Number}

theorem value_mul_unitsPerOne (ha : a.isFinite = true) :
    a.value * Double.unitsPerOne = a.units := by
  cases a with
  | whole n =>
      rw [units, Int.cast_mul]
      rfl
  | double x => exact Double.value_mul_unitsPerOne ha

theorem value_eq_iff (ha : a.isFinite = true) (hb : b.isFinite = true) :
    a.value = b.value ↔ a.units = b.units := by
  rw [← Int.cast_inj (α := ℚ), ← value_mul_unitsPerOne ha, ← value_mul_unitsPerOne hb,
    mul_left_inj' Double.cast_unitsPerOne_pos.ne']

theorem value_eq_intCast_iff (ha : a.isFinite = true) {n : Int} :
    a.value = n ↔ a.whole? = some n := by
  have scaled : a.value = n ↔ a.units = n * (Double.unitsPerOne : Int) :=
    value_eq_iff (b := whole n) ha rfl
  rw [scaled]
  refine ⟨fun units => ?_, units_of_whole?⟩
  cases found : a.whole? with
  | none =>
      obtain ⟨-, -, -, -, apart⟩ := exists_double_of_whole? ha found
      exact absurd units (apart n)
  | some m =>
      have same := (units_of_whole? found).symm.trans units
      rw [Int.eq_of_mul_eq_mul_right (Int.ne_of_gt unitsPerOne_pos) same]

theorem readsBack_of_whole? {m : Int} (ha : a.isFinite = true) (h : a.whole? = some m) :
    a.ReadsBack a.written := by
  have value := (value_eq_intCast_iff ha).mpr h
  rw [written_of_whole? h]
  refine ⟨fun n number => ?_, fun n number => ?_, fun zero => ?_, ?_, ?_⟩
  · rw [String.toList_ofList, Decimal.number?_whole, ← value, number]
  · rw [String.toList_ofList]
    exact Decimal.forall_mem_whole m
  · have none : m = 0 := by exact_mod_cast value.symm.trans zero
    rw [none]
    rfl
  · exact fun x _ part => absurd value (part m)
  · exact fun x _ part => absurd value (part m)

theorem readsBack_of_isFinite (ha : a.isFinite = true) : a.ReadsBack a.written := by
  cases h : a.whole? with
  | some m => exact readsBack_of_whole? ha h
  | none =>
      have part (n : Int) : a.value ≠ n := by
        rw [Ne, value_eq_intCast_iff ha, h]
        exact nofun
      obtain ⟨x, rfl, finite, fraction, -⟩ := exists_double_of_whole? ha h
      have some : Double.units x ≠ 0 := fun none =>
        part 0 ((value_eq_iff (b := whole 0) ha rfl).mpr (none.trans (Int.zero_mul _).symm))
      obtain ⟨q, number, near, read⟩ :=
        Decimal.isNearest_double finite (Decimal.rank_ne_zero_of_not_isWhole finite fraction)
      have written : (double x).written = String.ofList (Decimal.double x) := by
        rw [written, if_neg (by simp [fraction])]
      rw [written]
      refine ⟨fun n whole => absurd whole (part n), fun n whole => absurd whole (part n),
        fun zero => absurd zero (part 0), ?_, ?_⟩
      · rintro y same -
        obtain rfl := Number.double.inj same
        refine ⟨q, by rw [String.toList_ofList, number], fun z => ⟨fun other => ?_, ?_⟩⟩
        · have same := (Double.value_eq_iff other.finite near.finite).mp (other.unique near)
          exact Double.eq_of_units_eq same (same ▸ some)
        · rintro rfl
          exact near
      · rintro y same -
        obtain rfl := Number.double.inj same
        rw [String.toList_ofList, read]

/-- What is written for a finite number is read back, and finite numbers are written alike exactly if
they are one number, whichever is held as a whole number and whichever as a double. -/
theorem written_exactly (ha : a.isFinite = true) : a.ReadsBack a.written ∧
    ∀ b : Number, b.isFinite = true → (a.written = b.written ↔ a.value = b.value) :=
  ⟨readsBack_of_isFinite ha, fun b hb => by
    rw [written_eq_iff ha hb, same_iff_units_eq ha hb, value_eq_iff ha hb]⟩

/-- The double next to 10^23, which is a whole number of 23 digits. -/
def nearTen23 : Number := double (Float.ofBits 0x44B52D02C7E14AF6)

/-- The double nearest to one tenth. -/
def tenth : Number := double (Float.ofBits 0x3FB999999999999A)

theorem written_exactly_nearTen23 :
    nearTen23.isFinite = true ∧ tenth.isFinite = true ∧
      nearTen23.ReadsBack "99999999999999991611392" ∧ tenth.ReadsBack "0.1" ∧
      nearTen23.value = (whole 99999999999999991611392).value ∧ nearTen23.value ≠ tenth.value := by
  have large : nearTen23.isFinite = true := by decide +kernel
  have small : tenth.isFinite = true := by decide +kernel
  have digits : nearTen23.written = "99999999999999991611392" := by decide +kernel
  have point : tenth.written = "0.1" := by decide +kernel
  have same : nearTen23.written = (whole 99999999999999991611392).written := by decide +kernel
  have apart : nearTen23.written ≠ tenth.written := by decide +kernel
  obtain ⟨backLarge, alikeLarge⟩ := written_exactly large
  obtain ⟨backSmall, -⟩ := written_exactly small
  rw [digits] at backLarge
  rw [point] at backSmall
  exact ⟨large, small, backLarge, backSmall, (alikeLarge (whole 99999999999999991611392) rfl).mp same,
    fun equal => apart ((alikeLarge tenth small).mpr equal)⟩

end Number

end DesignMarkup
